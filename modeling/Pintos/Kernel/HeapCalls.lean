import Pintos.Kernel.Heap
import Pintos.Foundation.Ends
import Pintos.Foundation.Transition

/-!
# Sequences of calls on a heap

Between two calls of `heap_init` a heap is a priority queue: it holds what has been pushed and not
been popped, and the element it gives away is one that no other exceeds. That takes a strict weak
order, which must not change while an element is queued, and fewer elements than the array has cells.

* `HeapLog.step`, `heap_is_priority_queue` — the calls with what they return, and the queue they
  implement;
* `pushTouch`, `popTouch`, … — the calls once more, with the cells they read or write. There the
  array goes on forever, so that a cell behind its end is just a number that is too large;
* `heap_rebuild_restores` — `heap_rebuild` puts any arrangement in order;
* `heap_cells_in_array` — all cells are in the array if and only if nothing is pushed onto a heap of
  2047 elements. The assertion of `heap_push` admits that, and the cell is `elems[MAX_HEAP_SIZE]`.
-/

namespace Pintos

open HeapOrder Total Transition List

/-- A call on a heap. -/
inductive HeapCall (α : Type) where
  | init
  | push (elem : α)
  | pop
  | top
  | rebuild

/-! ### The queue -/

/-- The heap, and the calls since it was initialized with the elements they returned, the latest
first. -/
structure HeapLog (α : Type) where
  heap : Heap α
  log : List (HeapCall α × Option α)

/-- A heap that has just been initialized, over whatever the array held before. -/
def HeapLog.begin {α : Type} (elems : ℕ → α) : HeapLog α := ⟨heapInit elems, []⟩

/-- **One call.** -/
def HeapLog.step {α : Type} (less : α → α → Bool) (s : HeapLog α) (c : HeapCall α) :
    Except Fault (HeapLog α) :=
  match c with
  | .init => .ok (.begin s.heap.elems)
  | .push elem => do
    let heap ← heapPush less s.heap elem
    .ok ⟨heap, (c, none) :: s.log⟩
  | .pop => do
    let (elem, heap) ← heapPop less s.heap
    .ok ⟨heap, (c, some elem) :: s.log⟩
  | .top => do
    let elem ← heapTop s.heap
    .ok ⟨s.heap, (c, some elem) :: s.log⟩
  | .rebuild => .ok ⟨heapRebuild less s.heap, (c, none) :: s.log⟩

/-- The elements that have been pushed, with multiplicity. -/
def pushed {α : Type} : List (HeapCall α × Option α) → Multiset α
  | [] => 0
  | (.push elem, _) :: log => elem ::ₘ pushed log
  | _ :: log => pushed log

/-- The elements that `heap_pop` has returned. -/
def popped {α : Type} : List (HeapCall α × Option α) → Multiset α
  | [] => 0
  | (.pop, some elem) :: log => elem ::ₘ popped log
  | _ :: log => popped log

/-- An element that no held element exceeds. -/
def Heap.IsMax {α : Type} (less : α → α → Bool) (h : Heap α) (a : α) : Prop :=
  a ∈ h.items ∧ ∀ b ∈ h.items, less a b = false

section Queue

variable {α : Type} {less : α → α → Bool} [IsStrictWeakOrder α (fun a b => less a b = true)]
  {h : Heap α} {s s' : HeapLog α} {c : HeapCall α}

/-- **The invariant**: the heap is in order, and it holds what has been pushed and not popped. -/
structure HeapLog.Queue (less : α → α → Bool) (s : HeapLog α) : Prop where
  ordered : s.heap.Ordered less
  size : s.heap.size < maxHeapSize
  balance : s.heap.items + popped s.log = pushed s.log

/-- The first cell of a heap that is in order. -/
theorem Heap.Ordered.isMax (ho : h.Ordered less) (hpos : h.size ≠ 0) : h.IsMax less (h.elems 1) := by
  refine ⟨Heap.mem_items.mpr ⟨1, le_rfl, by omega, rfl⟩, fun b hb => ?_⟩
  obtain ⟨i, hi, hn, rfl⟩ := Heap.mem_items.mp hb
  exact Bool.eq_false_iff.mpr (HeapOrdered.root_max ho i hi hn)

omit [IsStrictWeakOrder α (fun a b => less a b = true)] in
theorem heapInit_queue (less : α → α → Bool) (elems : ℕ → α) : (HeapLog.begin elems).Queue less := by
  refine ⟨fun i hi hn => ?_, Nat.two_pow_pos 11, ?_⟩
  · change i ≤ 0 at hn
    omega
  · rw [Heap.items_eq_zero_of_size rfl]
    rfl

omit [IsStrictWeakOrder α (fun a b => less a b = true)] in
theorem heapPush_size {elem : α} {h' : Heap α} (hp : heapPush less h elem = .ok h') :
    h.size + 1 < maxHeapSize := by
  unfold heapPush at hp
  split at hp <;> [skip; simp at hp]
  split at hp <;> [assumption; simp at hp]

/-- **Every call keeps the invariant.** -/
theorem HeapLog.Queue.step (hq : s.Queue less) (c : HeapCall α) : Yields (s.step less c) (Queue less) := by
  have hbalance := hq.balance
  cases c with
  | init => exact .ok (heapInit_queue less _)
  | push elem =>
    refine Yields.bind (fun _ hp => hp) fun heap hp => .ok ?_
    obtain ⟨hsize, hitems, -, hordered⟩ := heapPush_ok hp
    refine ⟨hordered inferInstance hq.ordered, ?_, ?_⟩
    · rw [hsize]
      exact heapPush_size hp
    · show heap.items + popped s.log = elem ::ₘ pushed s.log
      rw [hitems, Multiset.cons_add, hbalance]
  | pop =>
    refine Yields.bind (fun _ hp => hp) fun ⟨elem, heap⟩ hp => .ok ?_
    obtain ⟨hsize, hitems, -, hordered⟩ := heapPop_ok hp
    refine ⟨(hordered inferInstance hq.ordered).1, ?_, ?_⟩
    · have hlt := hq.size
      dsimp only
      omega
    · show heap.items + elem ::ₘ popped s.log = pushed s.log
      rw [Multiset.add_cons, ← Multiset.cons_add, ← hitems, hbalance]
  | top => exact Yields.bind (fun _ ht => ht) fun elem _ => .ok ⟨hq.ordered, hq.size, hbalance⟩
  | rebuild =>
    obtain ⟨hsize, -, hitems⟩ := heapRebuildLoop_frame less s.heap.size s.heap
    refine .ok ⟨heapRebuild_ordered s.heap, ?_, ?_⟩
    · exact hsize.trans_lt hq.size
    · show (heapRebuild less s.heap).items + popped s.log = pushed s.log
      rw [heapRebuild_items, hbalance]

end Queue

/-- **The heap is a priority queue.** After every sequence of calls the heap is in order, and holds
what has been pushed since it was initialized and not been popped, at most 2047 elements. As long as
there are fewer, another one can be pushed; unless there is none, `heap_top` and `heap_pop` return an
element that no held element exceeds, and `heap_pop` takes it out. -/
theorem heap_is_priority_queue {α : Type} {less : α → α → Bool}
    [IsStrictWeakOrder α (fun a b => less a b = true)] {elems : ℕ → α}
    {h : List (HeapLog α × HeapCall α)} {s : HeapLog α}
    (hrun : Run (HeapLog.step less) (fun _ _ => True) (HeapLog.begin elems) h s) :
    s.heap.Ordered less ∧ s.heap.items + popped s.log = pushed s.log ∧ s.heap.items.card ≤ 2047 ∧
      (s.heap.items.card < 2047 → ∀ elem, ∃ heap, heapPush less s.heap elem = .ok heap ∧
        heap.items = elem ::ₘ s.heap.items) ∧
      (s.heap.items ≠ 0 → ∃ top heap, heapTop s.heap = .ok top ∧ heapPop less s.heap = .ok (top, heap) ∧
        s.heap.IsMax less top ∧ s.heap.items = top ::ₘ heap.items) := by
  have hq : s.Queue less := hrun.invariant (heapInit_queue less elems)
    fun _ c s' hq _ hs => hq.step c s' hs
  have hsize := hq.size
  unfold maxHeapSize at hsize
  rw [Heap.card_items]
  refine ⟨hq.ordered, hq.balance, by omega, fun hlt elem => ?_, fun hne => ?_⟩
  · obtain ⟨heap, hpush⟩ : ∃ heap, heapPush less s.heap elem = .ok heap := by
      unfold heapPush maxHeapSize
      rw [if_pos (by omega), if_pos (by omega)]
      exact ⟨_, rfl⟩
    exact ⟨heap, hpush, (heapPush_ok hpush).2.1⟩
  · have hpos : s.heap.size ≠ 0 := fun hzero => hne (Heap.items_eq_zero_of_size hzero)
    have hfull : ¬ heapEmpty s.heap = true := fun hempty => hpos (beq_iff_eq.mp hempty)
    have hpop : heapPop less s.heap = .ok (s.heap.elems 1, _) := if_neg hfull
    exact ⟨_, _, if_neg hfull, hpop, hq.ordered.isMax hpos, (heapPop_ok hpop).2.1⟩

/-- The order of the numbers. -/
theorem natLess_order : IsStrictWeakOrder ℕ fun a b => decide (a < b) = true where
  irrefl a h := by
    rw [decide_eq_true_eq] at h
    exact lt_irrefl a h
  trans a b c h h' := by
    rw [decide_eq_true_eq] at h h' ⊢
    exact h.trans h'
  incomp_trans a b c h h' := by
    simp only [decide_eq_true_eq] at h h' ⊢
    omega

/-- Three numbers are pushed and the largest is taken out. -/
theorem heap_is_priority_queue_three : ∃ h s,
    Run (HeapLog.step fun a b : ℕ => decide (a < b)) (fun _ _ => True) (HeapLog.begin fun _ => 0) h s ∧
      h.length = 4 ∧ s.heap.items + {7} = {5, 7, 3} ∧ s.heap.Ordered fun a b => decide (a < b) := by
  have hplay : (play (HeapLog.step fun a b : ℕ => decide (a < b)) (fun _ _ => true)
      (HeapLog.begin fun _ => 0) [.push 5, .push 7, .push 3, .pop]).any (fun r => r.1.length == 4 &&
        decide (popped r.2.log = {7}) && decide (pushed r.2.log = {5, 7, 3})) = true := by decide +kernel
  obtain ⟨h, s, hrun, hp⟩ := exists_run_of_play (G := fun _ _ => True)
    (p := fun h (s : HeapLog ℕ) => h.length == 4 && decide (popped s.log = {7}) &&
      decide (pushed s.log = {5, 7, 3})) (fun _ _ _ => trivial) hplay
  simp only [Bool.and_eq_true, beq_iff_eq, decide_eq_true_eq] at hp
  have horder := natLess_order
  obtain ⟨hordered, hbalance, -⟩ := heap_is_priority_queue hrun
  rw [hp.1.2, hp.2] at hbalance
  exact ⟨h, s, hrun, hp.1.1, hbalance, hordered⟩

/-! ### The cells that are touched -/

section Touch

variable {α : Type}

/-- The loop of `up_heap`, with the cells it reads and writes. -/
def upTouch (less : α → α → Bool) : ℕ → ℕ → (ℕ → α) → (ℕ → α) × List ℕ
  | 0, _, elems => (elems, [])
  | fuel + 1, index, elems =>
    if 1 < index then
      if less (elems (index / 2)) (elems index) then
        let (elems, cells) := upTouch less fuel (index / 2) (swap elems (index / 2) index)
        (elems, (index / 2) :: index :: cells)
      else (elems, [index / 2, index])
    else (elems, [])

/-- The cells that `down_heap` reads to pick a child. -/
def childTouch (size index : ℕ) : List ℕ :=
  if 2 * index < size then [2 * index, 2 * index + 1] else []

/-- The loop of `down_heap`, with the cells it reads and writes. -/
def downTouch (less : α → α → Bool) (size : ℕ) : ℕ → ℕ → (ℕ → α) → (ℕ → α) × List ℕ
  | 0, _, elems => (elems, [])
  | fuel + 1, index, elems =>
    if 2 * index ≤ size then
      let ch := largerChild less size index elems
      if less (elems index) (elems ch) then
        let (elems, cells) := downTouch less size fuel ch (swap elems index ch)
        (elems, childTouch size index ++ index :: ch :: cells)
      else (elems, childTouch size index ++ [index, ch])
    else (elems, [])

/-- The loop of `heap_rebuild`. -/
def rebuildTouch (less : α → α → Bool) : ℕ → Heap α → Heap α × List ℕ
  | 0, h => (h, [])
  | i + 1, h =>
    let (elems, cells) := downTouch less h.size h.size (i + 1) h.elems
    let (h, cells') := rebuildTouch less i { h with elems := elems }
    (h, cells ++ cells')

/-- `heap_push`, with nothing but its assertion to stop it. -/
def pushTouch (less : α → α → Bool) (h : Heap α) (elem : α) : Except Fault (Heap α × List ℕ) :=
  if h.size + 1 ≤ maxHeapSize then
    let size := h.size + 1
    let (elems, cells) := upTouch less size size (Function.update h.elems size elem)
    .ok ({ h with size := size, elems := elems }, size :: cells)
  else .error .heapFull

/-- `heap_pop`. -/
def popTouch (less : α → α → Bool) (h : Heap α) : Except Fault (Heap α × List ℕ) :=
  if heapEmpty h then .error .heapEmpty
  else
    let (elems, cells) := downTouch less (h.size - 1) (h.size - 1) 1 (swap h.elems 1 h.size)
    .ok ({ h with size := h.size - 1, elems := elems }, 1 :: 1 :: h.size :: cells)

/-- `heap_top`. -/
def topTouch (h : Heap α) : Except Fault (Heap α × List ℕ) :=
  if heapEmpty h then .error .heapEmpty else .ok (h, [1])

/-- **One call**, with the cells it reads and writes. -/
def heapTouch (less : α → α → Bool) (h : Heap α) : HeapCall α → Except Fault (Heap α × List ℕ)
  | .init => .ok (heapInit h.elems, [])
  | .push elem => pushTouch less h elem
  | .pop => popTouch less h
  | .top => topTouch h
  | .rebuild => .ok (rebuildTouch less h.size h)

/-! ### What the calls compute -/

section Touched

variable {α : Type} {less : α → α → Bool} {h h' : Heap α} {cells : List ℕ}

theorem upTouch_fst (less : α → α → Bool) : ∀ (fuel index : ℕ) (elems : ℕ → α),
    (upTouch less fuel index elems).1 = upHeapLoop less fuel index elems := by
  intro fuel
  induction fuel with
  | zero => exact fun _ _ => rfl
  | succ fuel ih =>
    intro index elems
    unfold upTouch upHeapLoop
    split
    · split
      · exact ih _ _
      · rfl
    · rfl

theorem downTouch_fst (less : α → α → Bool) (size : ℕ) : ∀ (fuel index : ℕ) (elems : ℕ → α),
    (downTouch less size fuel index elems).1 = downHeapLoop less size fuel index elems := by
  intro fuel
  induction fuel with
  | zero => exact fun _ _ => rfl
  | succ fuel ih =>
    intro index elems
    unfold downTouch downHeapLoop
    split
    · dsimp only
      split
      · exact ih _ _
      · rfl
    · rfl

/-- The loop of `down_heap` does not end because it runs out of fuel. -/
theorem downTouch_fuel (less : α → α → Bool) (size : ℕ) : ∀ (fuel index : ℕ) (elems : ℕ → α), 1 ≤ index →
    size < fuel + index → downTouch less size (fuel + 1) index elems = downTouch less size fuel index elems := by
  intro fuel
  induction fuel with
  | zero =>
    intro index elems hpos hfuel
    have hend : ¬ 2 * index ≤ size := by omega
    unfold downTouch
    rw [if_neg hend]
  | succ fuel ih =>
    intro index elems hpos hfuel
    rw [downTouch, downTouch]
    by_cases hle : 2 * index ≤ size
    · obtain ⟨-, hlo, -⟩ := largerChild_range less elems hle
      rw [if_pos hle, if_pos hle]
      dsimp only
      rw [ih _ _ (by omega) (by omega)]
    · rw [if_neg hle, if_neg hle]

/-- Nor does that of `up_heap`. -/
theorem upTouch_fuel (less : α → α → Bool) : ∀ (fuel index : ℕ) (elems : ℕ → α), index ≤ fuel →
    upTouch less (fuel + 1) index elems = upTouch less fuel index elems := by
  intro fuel
  induction fuel with
  | zero =>
    intro index elems hfuel
    have hend : ¬ 1 < index := by omega
    unfold upTouch
    rw [if_neg hend]
  | succ fuel ih =>
    intro index elems hfuel
    show (if 1 < index then _ else _) = if 1 < index then _ else _
    by_cases hlt : 1 < index
    · rw [if_pos hlt, if_pos hlt, ih _ _ (by omega)]
    · rw [if_neg hlt, if_neg hlt]

theorem rebuildTouch_fst (less : α → α → Bool) : ∀ (i : ℕ) (h : Heap α),
    (rebuildTouch less i h).1 = heapRebuildLoop less i h := by
  intro i
  induction i with
  | zero => exact fun _ => rfl
  | succ i ih =>
    intro h
    unfold rebuildTouch heapRebuildLoop
    dsimp only
    rw [ih, downTouch_fst]
    rfl

/-- **As long as the cell exists**, this is `heapPush`. -/
theorem pushTouch_eq {elem : α} (hsize : h.size + 1 < maxHeapSize) :
    (pushTouch less h elem).map Prod.fst = heapPush less h elem := by
  unfold pushTouch heapPush
  rw [if_pos hsize.le, if_pos hsize.le, if_pos hsize]
  show Except.ok { h with
    size := h.size + 1
    elems := (upTouch less (h.size + 1) (h.size + 1) (Function.update h.elems (h.size + 1) elem)).1 } = _
  rw [upTouch_fst]
  rfl

theorem popTouch_eq : (popTouch less h).map Prod.fst = (heapPop less h).map Prod.snd := by
  unfold popTouch heapPop
  split
  · rfl
  · show Except.ok { h with
      size := h.size - 1
      elems := (downTouch less (h.size - 1) (h.size - 1) 1 (swap h.elems 1 h.size)).1 } = _
    rw [downTouch_fst]
    rfl

/-! ### Where the cells are -/

theorem upTouch_cells (less : α → α → Bool) : ∀ (fuel index : ℕ) (elems : ℕ → α),
    ∀ i ∈ (upTouch less fuel index elems).2, i ≤ index := by
  intro fuel
  induction fuel with
  | zero => exact fun _ _ i hi => absurd hi not_mem_nil
  | succ fuel ih =>
    intro index elems i hi
    unfold upTouch at hi
    split at hi
    · split at hi
      · obtain rfl | hi := mem_cons.mp hi
        · omega
        obtain rfl | hi := mem_cons.mp hi
        · exact le_rfl
        · have hle := ih _ _ i hi
          omega
      · simp only [mem_cons, not_mem_nil, or_false] at hi
        omega
    · exact absurd hi not_mem_nil

theorem childTouch_cells {size index i : ℕ} (hi : i ∈ childTouch size index) : i ≤ size := by
  unfold childTouch at hi
  split at hi
  · simp only [mem_cons, not_mem_nil, or_false] at hi
    omega
  · exact absurd hi not_mem_nil

/-- `down_heap` reads the right child only if there is one. -/
theorem downTouch_cells (less : α → α → Bool) (size : ℕ) : ∀ (fuel index : ℕ) (elems : ℕ → α),
    ∀ i ∈ (downTouch less size fuel index elems).2, i ≤ size := by
  intro fuel
  induction fuel with
  | zero => exact fun _ _ i hi => absurd hi not_mem_nil
  | succ fuel ih =>
    intro index elems i hi
    unfold downTouch at hi
    split at hi
    · next hle =>
      obtain ⟨-, -, hhi⟩ := largerChild_range less elems hle
      dsimp only at hi
      split at hi
      · obtain hi | hi := mem_append.mp hi
        · exact childTouch_cells hi
        obtain rfl | hi := mem_cons.mp hi
        · omega
        obtain rfl | hi := mem_cons.mp hi
        · exact hhi
        · exact ih _ _ i hi
      · obtain hi | hi := mem_append.mp hi
        · exact childTouch_cells hi
        · simp only [mem_cons, not_mem_nil, or_false] at hi
          obtain rfl | rfl := hi
          · omega
          · exact hhi
    · exact absurd hi not_mem_nil

theorem rebuildTouch_cells (less : α → α → Bool) : ∀ (i : ℕ) (h : Heap α),
    (rebuildTouch less i h).1.size = h.size ∧ ∀ j ∈ (rebuildTouch less i h).2, j ≤ h.size := by
  intro i
  induction i with
  | zero => exact fun h => ⟨rfl, fun j hj => absurd hj not_mem_nil⟩
  | succ i ih =>
    intro h
    obtain ⟨hsize, hcells⟩ := ih { h with elems := (downTouch less h.size h.size (i + 1) h.elems).1 }
    refine ⟨hsize, fun j hj => ?_⟩
    obtain hj | hj := mem_append.mp hj
    · exact downTouch_cells less h.size _ _ _ j hj
    · exact hcells j hj

/-- The call pushes onto a heap that fills the array. -/
def HeapCall.Overflows (h : Heap α) : HeapCall α → Prop
  | .push _ => h.size = maxHeapSize - 1
  | _ => False

/-- **The cells of a call**: they are in the array unless something is pushed behind its end. -/
theorem heapTouch_cells (hsize : h.size < maxHeapSize) (c : HeapCall α) :
    Yields (heapTouch less h c) fun r => r.1.size ≤ maxHeapSize ∧
      (c.Overflows h → maxHeapSize ∈ r.2) ∧
      (¬ c.Overflows h → r.1.size < maxHeapSize ∧ ∀ i ∈ r.2, i < maxHeapSize) := by
  cases c with
  | init =>
    exact .ok ⟨Nat.zero_le _, False.elim, fun _ => ⟨Nat.two_pow_pos 11, fun i hi => absurd hi not_mem_nil⟩⟩
  | push elem =>
    unfold heapTouch pushTouch
    dsimp only
    split
    · next hle =>
      refine .ok ⟨hle, fun hover => ?_, fun hfits => ?_⟩
      · change h.size = maxHeapSize - 1 at hover
        rw [show maxHeapSize = h.size + 1 by omega]
        exact mem_cons_self
      · have hlt : h.size + 1 < maxHeapSize := lt_of_le_of_ne hle fun heq => hfits (by
          change h.size = maxHeapSize - 1
          omega)
        refine ⟨hlt, fun i hi => ?_⟩
        obtain rfl | hi := mem_cons.mp hi
        · exact hlt
        · exact (upTouch_cells less _ _ _ i hi).trans_lt hlt
    · exact Yields.error _
  | pop =>
    unfold heapTouch popTouch
    dsimp only
    split
    · exact Yields.error _
    · refine .ok ⟨by dsimp only; omega, False.elim, fun _ => ⟨by dsimp only; omega, fun i hi => ?_⟩⟩
      simp only [mem_cons] at hi
      obtain rfl | rfl | rfl | hi := hi
      · decide
      · decide
      · exact hsize
      · have hle := downTouch_cells less _ _ _ _ i hi
        omega
  | top =>
    unfold heapTouch topTouch
    dsimp only
    split
    · exact Yields.error _
    · refine .ok ⟨hsize.le, False.elim, fun _ => ⟨hsize, fun i hi => ?_⟩⟩
      rw [mem_singleton.mp hi]
      decide
  | rebuild =>
    obtain ⟨hsame, hcells⟩ := rebuildTouch_cells less h.size h
    refine .ok ⟨hsame.trans_le hsize.le, False.elim, fun _ => ⟨hsame.trans_lt hsize, fun i hi => ?_⟩⟩
    exact (hcells i hi).trans_lt hsize

/-- The heap after a call. -/
def touchStep (less : α → α → Bool) (h : Heap α) (c : HeapCall α) : Except Fault (Heap α) := do
  let (h, _) ← heapTouch less h c
  .ok h

theorem touchStep_ok {c : HeapCall α} (hs : touchStep less h c = .ok h') :
    ∃ cells, heapTouch less h c = .ok (h', cells) := by
  unfold touchStep at hs
  cases hr : heapTouch less h c with
  | error e =>
    rw [hr] at hs
    exact nomatch hs
  | ok r =>
    rw [hr] at hs
    exact ⟨r.2, by rw [← Except.ok.inj hs]⟩

end Touched

end Touch

/-- **`heap_rebuild` restores the order** of any arrangement of the elements, and stays in the array. -/
theorem heap_rebuild_restores {α : Type} {less : α → α → Bool}
    [IsStrictWeakOrder α (fun a b => less a b = true)] (h : Heap α) (hsize : h.size ≤ 2047) :
    (heapRebuild less h).size = h.size ∧ (heapRebuild less h).items = h.items ∧
      (heapRebuild less h).Ordered less ∧ ∃ cells, heapTouch less h .rebuild = .ok (heapRebuild less h, cells) ∧
        ∀ i ∈ cells, i < maxHeapSize := by
  obtain ⟨hsame, -, hitems⟩ := heapRebuildLoop_frame less h.size h
  refine ⟨hsame, hitems, heapRebuild_ordered h, (rebuildTouch less h.size h).2, ?_, fun i hi => ?_⟩
  · exact congrArg (fun h' => Except.ok (h', _)) (rebuildTouch_fst less h.size h)
  · exact ((rebuildTouch_cells less h.size h).2 i hi).trans_lt (Nat.lt_succ_of_le hsize)

/-- Three numbers in the wrong order. -/
theorem heap_rebuild_restores_three :
    (heapRebuild (fun a b => decide (a < b)) (⟨3, id, 3⟩ : Heap ℕ)).Ordered fun a b => decide (a < b) :=
  have := natLess_order
  (heap_rebuild_restores _ (by decide)).2.2.1

/-- **The cells are in the array** if and only if nothing is pushed onto a heap of 2047 elements, in
every sequence of calls in which every assertion passes. -/
theorem heap_cells_in_array {α : Type} {less : α → α → Bool} {elems : ℕ → α}
    {hist : List (Heap α × HeapCall α)} {h : Heap α}
    (hrun : Run (touchStep less) (fun _ _ => True) (heapInit elems) hist h) :
    (∀ p ∈ hist, ∀ r, heapTouch less p.1 p.2 = .ok r → ∀ i ∈ r.2, i < maxHeapSize) ↔
      ∀ p ∈ hist, ¬ (p.2.Overflows p.1) := by
  -- up to the first such call the heap fits into the array
  have hinv : ((∀ p ∈ hist, ¬ p.2.Overflows p.1) → h.size < maxHeapSize) ∧
      ((∀ p ∈ hist, ∀ r, heapTouch less p.1 p.2 = .ok r → ∀ i ∈ r.2, i < maxHeapSize) ↔
        ∀ p ∈ hist, ¬ p.2.Overflows p.1) := by
    refine hrun.invariant_history (I := fun hist h => ((∀ p ∈ hist, ¬ p.2.Overflows p.1) →
      h.size < maxHeapSize) ∧ ((∀ p ∈ hist, ∀ r, heapTouch less p.1 p.2 = .ok r →
        ∀ i ∈ r.2, i < maxHeapSize) ↔ ∀ p ∈ hist, ¬ p.2.Overflows p.1)) ?_ ?_
    · refine ⟨fun _ => Nat.two_pow_pos 11, iff_of_true ?_ ?_⟩
      · exact fun p hp => absurd hp not_mem_nil
      · exact fun p hp => absurd hp not_mem_nil
    · rintro hist h c h' ⟨hfits, hiff⟩ - hs
      obtain ⟨cells, hcall⟩ := touchStep_ok hs
      simp only [forall_mem_cons]
      refine ⟨fun ⟨hc, hall⟩ => ?_, ?_⟩
      · exact ((heapTouch_cells (hfits hall) c _ hcall).2.2 hc).1
      · rw [hiff]
        refine and_congr_left fun hall => ?_
        obtain ⟨-, hover, hok⟩ := heapTouch_cells (hfits hall) c _ hcall
        constructor
        · intro hcells hc
          exact lt_irrefl _ (hcells _ hcall _ (hover hc))
        · intro hc r hr
          obtain rfl := Except.ok.inj (hcall.symm.trans hr)
          exact (hok hc).2
  exact hinv.2

/-- A heap of one element. -/
theorem heap_cells_in_array_one : ∃ hist h,
    Run (touchStep fun a b : ℕ => decide (a < b)) (fun _ _ => True) (heapInit fun _ => 0) hist h ∧
      hist.length = 2 ∧ ∀ p ∈ hist, ∀ r, heapTouch (fun a b => decide (a < b)) p.1 p.2 = .ok r →
        ∀ i ∈ r.2, i < maxHeapSize := by
  have hrun : Run (touchStep fun a b : ℕ => decide (a < b)) (fun _ _ => True) (heapInit fun _ => 0) _ _ :=
    .tail (.tail .refl trivial (show touchStep _ _ (.push 7) = .ok _ from rfl)) trivial
      (show touchStep _ _ .pop = .ok _ from rfl)
  refine ⟨_, _, hrun, rfl, (heap_cells_in_array hrun).mpr ?_⟩
  simp only [forall_mem_cons]
  exact ⟨False.elim, show ¬ 0 = maxHeapSize - 1 by decide, fun p hp => absurd hp not_mem_nil⟩

/-- Pushing makes a heap of any size up to 2047. -/
theorem exists_run_size {α : Type} (less : α → α → Bool) (a : α) : ∀ n < maxHeapSize, ∃ hist h,
    Run (touchStep less) (fun _ _ => True) (heapInit fun _ => a) hist h ∧ h.size = n := by
  intro n
  induction n with
  | zero => exact fun _ => ⟨[], _, .refl, rfl⟩
  | succ n ih =>
    intro hn
    obtain ⟨hist, h, hrun, rfl⟩ := ih (Nat.lt_of_succ_lt hn)
    obtain ⟨h', cells, hpush⟩ : ∃ h' cells, pushTouch less h a = .ok (h', cells) ∧ h'.size = h.size + 1 := by
      unfold pushTouch
      rw [if_pos hn.le]
      exact ⟨_, _, rfl, rfl⟩
    refine ⟨_, h', .tail hrun trivial (e := .push a) ?_, hpush.2⟩
    unfold touchStep
    rw [show heapTouch less h (.push a) = .ok (h', cells) from hpush.1]
    rfl

/-- **A push behind the end of the array.** The heap holds 2047 elements, the assertion of
`heap_push` passes, and the element is written to the cell with number 2048. -/
theorem heap_push_past_end : ∃ hist h h' cells,
    Run (touchStep fun a b : ℕ => decide (a < b)) (fun _ _ => True) (heapInit fun _ => 0) hist h ∧
      heapTouch (fun a b => decide (a < b)) h (.push 0) = .ok (h', cells) ∧ maxHeapSize ∈ cells := by
  obtain ⟨hist, h, hrun, hsize⟩ := exists_run_size (fun a b : ℕ => decide (a < b)) 0 2047 (by decide)
  have hle : h.size + 1 ≤ maxHeapSize := by
    rw [hsize]
    decide
  refine ⟨hist, h, _, _, hrun, if_pos hle, ?_⟩
  rw [hsize]
  exact mem_cons_self

end Pintos
