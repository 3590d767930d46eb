import Pintos.Foundation.HeapOrder

/-!
# The binary heap of `lib/kernel/heap.c`

`struct heap` keeps the ready threads and the sleeping threads. Its comparison is a function
pointer stored in the heap; both comparisons of the kernel read fields of the threads the
elements point to, so the operations here take the comparison `less` as an argument, read off
the current thread table by the caller.

The array `elems` is a total function of which only the cells below `maxHeapSize` exist:
`heapPush` into cell `maxHeapSize` passes the assertion of the source and is a write past the
array, which the model reports as `Fault.outOfBounds`.

The loops of `up_heap` and `down_heap` carry a fuel that their callers choose large enough:
`upHeapLoop_ordered` and `downHeapLoop_ordered` prove that the loop ends by itself and not by
running out of it. On top of them stand one lemma for each operation: `heapPush_ok`,
`heapPop_ok` and the two facts about `heapRebuild`.
-/

namespace Pintos

open HeapOrder Function

/-- Why the kernel stops: the assertion that failed, or the access that is not defined. -/
inductive Fault where
  /-- The event cannot occur in this state: it is no behaviour of the kernel at all. -/
  | disabled
  /-- `heap_push`: `ASSERT (heap->size + 1 <= MAX_HEAP_SIZE)`. -/
  | heapFull
  /-- `heap_pop` / `heap_top`: `ASSERT (!heap_empty (heap))`. -/
  | heapEmpty
  /-- A write to `elems[MAX_HEAP_SIZE]`, one past the array. -/
  | outOfBounds
  /-- `thread_unblock`: `ASSERT (t->status == THREAD_BLOCKED)`. -/
  | notBlocked
  /-- `init_thread`: `ASSERT (PRI_MIN <= priority && priority <= PRI_MAX)`. -/
  | priorityRange
  /-- `lock_acquire` / `lock_try_acquire`: `ASSERT (!lock_held_by_current_thread (lock))`. -/
  | lockHeld
  /-- `lock_release`, `cond_wait`, `cond_signal`: `ASSERT (lock_held_by_current_thread (lock))`. -/
  | lockNotHeld
  /-- `donate_priority`: `ASSERT (t->lock_waiting->holder != NULL)`. -/
  | holderNull
  /-- `donate_priority`: `ASSERT (t != NULL)`. -/
  | donorNull
  /-- A member of a null pointer is read. -/
  | nullDeref
  deriving DecidableEq, Repr

/-- `MAX_HEAP_SIZE`, the number of cells of `elems`. -/
def maxHeapSize : ℕ := 2048

/-- `struct heap`: the elements stand in the cells `1 … size`. -/
structure Heap (α : Type) where
  size : ℕ
  elems : ℕ → α
  /-- Counter of element pushed, an `int64_t`. -/
  pushCnt : ℤ

section Operations

variable {α : Type}

/-- `swap`: exchanges two cells of the array. -/
def swap (elems : ℕ → α) (a b : ℕ) : ℕ → α :=
  update (update elems a (elems b)) b (elems a)

/-- The loop of `up_heap`: while the element is greater than its parent, they change places. -/
def upHeapLoop (less : α → α → Bool) : ℕ → ℕ → (ℕ → α) → (ℕ → α)
  | 0, _, elems => elems
  | fuel + 1, index, elems =>
    if 1 < index then
      if less (elems (index / 2)) (elems index) then
        upHeapLoop less fuel (index / 2) (swap elems (index / 2) index)
      else elems
    else elems

/-- The child `down_heap` compares with: the right one if it exists and is greater than the
left one. The index of the left child is even, so `ch | 1` is `ch + 1`. -/
def largerChild (less : α → α → Bool) (size index : ℕ) (elems : ℕ → α) : ℕ :=
  if 2 * index < size && less (elems (2 * index)) (elems (2 * index + 1)) then 2 * index + 1
  else 2 * index

/-- The loop of `down_heap`: while the element is less than its larger child, they change
places. -/
def downHeapLoop (less : α → α → Bool) (size : ℕ) : ℕ → ℕ → (ℕ → α) → (ℕ → α)
  | 0, _, elems => elems
  | fuel + 1, index, elems =>
    if 2 * index ≤ size then
      let ch := largerChild less size index elems
      if less (elems index) (elems ch) then
        downHeapLoop less size fuel ch (swap elems index ch)
      else elems
    else elems

/-- `up_heap`. -/
def upHeap (less : α → α → Bool) (h : Heap α) (index : ℕ) : Heap α :=
  { h with elems := upHeapLoop less index index h.elems }

/-- `down_heap`. -/
def downHeap (less : α → α → Bool) (h : Heap α) (index : ℕ) : Heap α :=
  { h with elems := downHeapLoop less h.size h.size index h.elems }

/-- `heap_init`, over whatever the array held before. -/
def heapInit (elems : ℕ → α) : Heap α := { size := 0, elems := elems, pushCnt := 0 }

/-- The loop of `heap_rebuild`, from the last cell down to the first. -/
def heapRebuildLoop (less : α → α → Bool) : ℕ → Heap α → Heap α
  | 0, h => h
  | i + 1, h => heapRebuildLoop less i (downHeap less h (i + 1))

/-- `heap_rebuild`. -/
def heapRebuild (less : α → α → Bool) (h : Heap α) : Heap α := heapRebuildLoop less h.size h

/-- `heap_empty`. -/
def heapEmpty (h : Heap α) : Bool := h.size == 0

/-- `heap_top`. -/
def heapTop (h : Heap α) : Except Fault α :=
  if heapEmpty h then .error .heapEmpty else .ok (h.elems 1)

/-- `heap_push`. The assertion admits `size + 1 = MAX_HEAP_SIZE`, a cell that does not exist. -/
def heapPush (less : α → α → Bool) (h : Heap α) (elem : α) : Except Fault (Heap α) :=
  if h.size + 1 ≤ maxHeapSize then
    if h.size + 1 < maxHeapSize then
      .ok (upHeap less
        { h with size := h.size + 1, elems := update h.elems (h.size + 1) elem }
        (h.size + 1))
    else .error .outOfBounds
  else .error .heapFull

/-- `heap_pop`. -/
def heapPop (less : α → α → Bool) (h : Heap α) : Except Fault (α × Heap α) :=
  if heapEmpty h then .error .heapEmpty
  else
    .ok (h.elems 1,
      downHeap less { h with size := h.size - 1, elems := swap h.elems 1 h.size } 1)

/-- `heap_entry_count`: the old value of the counter, which then goes up by one in 64 bits. -/
def heapEntryCount (h : Heap α) : ℤ × Heap α :=
  (h.pushCnt, { h with pushCnt := (h.pushCnt + 1).bmod (2 ^ 64) })

end Operations

/-! ### What the heap holds and when it is in order -/

variable {α : Type}

/-- The queued elements, with multiplicity. -/
def Heap.items (h : Heap α) : Multiset α := cells h.size h.elems

/-- The heap order of `less`: no element is greater than the one above it. -/
def Heap.Ordered (less : α → α → Bool) (h : Heap α) : Prop :=
  HeapOrdered (fun a b => less a b = true) h.size h.elems

instance (less : α → α → Bool) (h : Heap α) : Decidable (h.Ordered less) :=
  decidable_of_iff (∀ i ≤ h.size, 2 ≤ i → less (h.elems (i / 2)) (h.elems i) = false) <| by
    simp only [Heap.Ordered, HeapOrdered, Bool.not_eq_true]
    exact ⟨fun h i h2 hn => h i hn h2, fun h i hn h2 => h i h2 hn⟩

theorem Heap.mem_items {h : Heap α} {a : α} :
    a ∈ h.items ↔ ∃ i, 1 ≤ i ∧ i ≤ h.size ∧ h.elems i = a :=
  mem_cells

theorem Heap.items_eq_zero_of_size {h : Heap α} (hs : h.size = 0) : h.items = 0 := by
  unfold Heap.items
  rw [hs, cells_zero]

theorem Heap.card_items (h : Heap α) : h.items.card = h.size := by
  simp [Heap.items, cells]

/-- The order only depends on comparisons between queued elements: a comparison that puts no
queued element before another where `less` does not keeps it. -/
theorem Heap.Ordered.mono {less less' : α → α → Bool} {h : Heap α} (ho : h.Ordered less)
    (hless : ∀ a ∈ h.items, ∀ b ∈ h.items, less' a b = true → less a b = true) :
    h.Ordered less' := by
  refine HeapOrdered.congr ho (fun _ _ _ => rfl) ?_
  intro i j hi1 hin hj1 hjn hlt
  exact hless _ (Heap.mem_items.mpr ⟨i, hi1, hin, rfl⟩) _
    (Heap.mem_items.mpr ⟨j, hj1, hjn, rfl⟩) hlt

theorem Heap.Ordered.congr {less less' : α → α → Bool} {h : Heap α} (ho : h.Ordered less)
    (hless : ∀ a ∈ h.items, ∀ b ∈ h.items, less' a b = less a b) : h.Ordered less' :=
  ho.mono fun a ha b hb hlt => hless a ha b hb ▸ hlt

theorem swap_eq_exchange (elems : ℕ → α) (a b : ℕ) : swap elems a b = exchange elems a b := by
  funext i
  rw [exchange_apply]
  unfold swap
  by_cases hb : i = b
  · subst hb
    by_cases ha : i = a
    · subst ha
      simp
    · simp [ha]
  · by_cases ha : i = a
    · subst ha
      simp [hb]
    · simp [ha, hb]

/-! ### The loops keep the elements -/

theorem upHeapLoop_cells (less : α → α → Bool) {n : ℕ} :
    ∀ (fuel index : ℕ) (elems : ℕ → α), index ≤ n →
      cells n (upHeapLoop less fuel index elems) = cells n elems := by
  intro fuel
  induction fuel with
  | zero => intro index elems _; rfl
  | succ fuel ih =>
    intro index elems hn
    unfold upHeapLoop
    split
    · next h1 =>
      split
      · rw [ih _ _ (by omega), swap_eq_exchange]
        exact cells_exchange elems (by omega) (by omega)
      · rfl
    · rfl

theorem largerChild_range (less : α → α → Bool) {size index : ℕ} (elems : ℕ → α)
    (h : 2 * index ≤ size) :
    largerChild less size index elems / 2 = index ∧
      2 * index ≤ largerChild less size index elems ∧
      largerChild less size index elems ≤ size := by
  unfold largerChild
  split
  · next hc =>
    have hlt : 2 * index < size := by
      simp only [Bool.and_eq_true, decide_eq_true_eq] at hc
      exact hc.1
    omega
  · omega

theorem downHeapLoop_cells (less : α → α → Bool) {n : ℕ} :
    ∀ (fuel index : ℕ) (elems : ℕ → α), 1 ≤ index →
      cells n (downHeapLoop less n fuel index elems) = cells n elems := by
  intro fuel
  induction fuel with
  | zero => intro index elems _; rfl
  | succ fuel ih =>
    intro index elems h1
    unfold downHeapLoop
    split
    · next hle =>
      obtain ⟨-, hlo, hhi⟩ := largerChild_range less elems hle
      dsimp only
      split
      · rw [ih _ _ (by omega), swap_eq_exchange]
        exact cells_exchange elems (by omega) (by omega)
      · rfl
    · rfl

/-! ### The loops restore the order -/

section StrictWeak

variable {less : α → α → Bool} [IsStrictWeakOrder α (fun a b => less a b = true)]

/-- The upward loop, started with at least `index` of fuel, ends in an ordered array. -/
theorem upHeapLoop_ordered {n : ℕ} :
    ∀ (fuel index : ℕ) (elems : ℕ → α), index ≤ fuel → index ≤ n →
      OrderedUp (fun a b => less a b = true) n elems index →
      HeapOrdered (fun a b => less a b = true) n (upHeapLoop less fuel index elems) := by
  intro fuel
  induction fuel with
  | zero =>
    intro index elems hf _ hup
    exact hup.done fun h => absurd h (by omega)
  | succ fuel ih =>
    intro index elems hf hn hup
    unfold upHeapLoop
    split
    · next h1 =>
      split
      · next hlt =>
        rw [swap_eq_exchange]
        exact ih _ _ (by omega) (by omega) (hup.exchange h1 hn hlt)
      · next hlt => exact hup.done fun _ => hlt
    · next h1 => exact hup.done fun h => absurd h (by omega)

/-- No child of `index` is greater than the one `down_heap` picks. -/
theorem largerChild_max {size index : ℕ} {elems : ℕ → α} {i : ℕ} (hi : i ≤ size)
    (hp : i / 2 = index) :
    ¬ less (elems (largerChild less size index elems)) (elems i) = true := by
  have hcases : i = 2 * index ∨ i = 2 * index + 1 := by omega
  unfold largerChild
  split
  · next hc =>
    simp only [Bool.and_eq_true, decide_eq_true_eq] at hc
    rcases hcases with rfl | rfl
    · exact not_lt_of_lt (r := fun a b => less a b = true) hc.2
    · exact irrefl (r := fun a b => less a b = true) _
  · next hc =>
    rcases hcases with rfl | rfl
    · exact irrefl (r := fun a b => less a b = true) _
    · intro hlt
      simp only [Bool.and_eq_true, decide_eq_true_eq, not_and] at hc
      exact hc (by omega) hlt

/-- The downward loop, started with enough fuel to leave the array, ends in an array ordered
from `s` on. -/
theorem downHeapLoop_ordered {n s : ℕ} :
    ∀ (fuel index : ℕ) (elems : ℕ → α), n < fuel + index → 1 ≤ index → s ≤ index →
      OrderedDown (fun a b => less a b = true) n elems s index →
      HeapOrderedFrom (fun a b => less a b = true) n
        (downHeapLoop less n fuel index elems) s := by
  intro fuel
  induction fuel with
  | zero =>
    intro index elems hf _ _ hdown
    exact hdown.done fun i hn hi => absurd hf (by omega)
  | succ fuel ih =>
    intro index elems hf h1 hs hdown
    unfold downHeapLoop
    split
    · next hle =>
      obtain ⟨hpar, hlo, hhi⟩ := largerChild_range less elems hle
      dsimp only
      split
      · next hlt =>
        rw [swap_eq_exchange]
        exact ih _ _ (by omega) (by omega) (by omega)
          (hdown.exchange h1 hs hpar hhi (fun i hn hi => largerChild_max hn hi) hlt)
      · next hlt =>
        exact hdown.done fun i hn hi => not_lt_trans (r := fun a b => less a b = true) hlt
          (largerChild_max hn hi)
    · next hle => exact hdown.done fun i hn hi => absurd hle (by omega)

end StrictWeak

/-! ### One lemma for each operation -/

/-- **`heap_push`.** The pushed element is added, and an ordered heap stays ordered. -/
theorem heapPush_ok {less : α → α → Bool} {h h' : Heap α} {elem : α}
    (hp : heapPush less h elem = .ok h') :
    h'.size = h.size + 1 ∧ h'.items = elem ::ₘ h.items ∧ h'.pushCnt = h.pushCnt ∧
      (IsStrictWeakOrder α (fun a b => less a b = true) → h.Ordered less → h'.Ordered less) := by
  unfold heapPush at hp
  split at hp <;> [skip; simp at hp]
  split at hp <;> [skip; simp at hp]
  obtain rfl := (Except.ok.inj hp).symm
  have hold : ∀ i, i ≤ h.size → update h.elems (h.size + 1) elem i = h.elems i :=
    fun i hi => update_of_ne (by omega) _ _
  refine ⟨rfl, ?_, rfl, ?_⟩
  · change cells (h.size + 1) (upHeapLoop less _ _ (update h.elems (h.size + 1) elem))
      = elem ::ₘ cells h.size h.elems
    rw [upHeapLoop_cells less _ _ _ le_rfl, cells_succ, update_self,
      cells_congr fun i _ hi => hold i hi]
  · intro hwo hord
    refine upHeapLoop_ordered _ _ _ le_rfl le_rfl ⟨?_, ?_⟩
    · -- the new element is in the last cell, so every other pair is an old one
      intro i h2 hn hne
      change i ≤ h.size + 1 at hn
      change ¬ less (update h.elems (h.size + 1) elem (i / 2))
        (update h.elems (h.size + 1) elem i) = true
      rw [hold i (by omega), hold (i / 2) (by omega)]
      exact hord i h2 (by omega)
    · intro i _ hn hi
      change i ≤ h.size + 1 at hn
      omega

/-- **`heap_pop`.** It takes the first cell out; of an ordered heap that is an element no other
is greater than, and the rest stays ordered. -/
theorem heapPop_ok {less : α → α → Bool} {h h' : Heap α} {top : α}
    (hp : heapPop less h = .ok (top, h')) :
    h.size = h'.size + 1 ∧ h.items = top ::ₘ h'.items ∧ h'.pushCnt = h.pushCnt ∧
      (IsStrictWeakOrder α (fun a b => less a b = true) → h.Ordered less →
        h'.Ordered less ∧ ∀ a ∈ h.items, ¬ less top a = true) := by
  unfold heapPop heapEmpty at hp
  split at hp <;> [simp at hp; skip]
  next hne =>
  obtain ⟨rfl, rfl⟩ := Prod.mk.inj (Except.ok.inj hp).symm
  have hsz : h.size - 1 + 1 = h.size := by
    have : h.size ≠ 0 := by simpa using hne
    omega
  have hswap : cells h.size (swap h.elems 1 h.size) = cells h.size h.elems := by
    rw [swap_eq_exchange]
    exact cells_exchange h.elems (by omega) (by omega)
  refine ⟨by simp [downHeap, hsz], ?_, rfl, ?_⟩
  · change cells h.size h.elems
      = h.elems 1 ::ₘ cells (h.size - 1) (downHeapLoop less (h.size - 1) _ 1 _)
    rw [downHeapLoop_cells less _ _ _ le_rfl, ← hswap]
    conv_lhs => rw [← hsz, cells_succ, hsz, swap_eq_exchange, exchange_right]
    rw [swap_eq_exchange]
  · intro hwo hord
    refine ⟨?_, ?_⟩
    · refine heapOrderedFrom_one.mp
        (downHeapLoop_ordered _ _ _ (Nat.lt_succ_self _) le_rfl le_rfl ?_)
      refine HeapOrderedFrom.orderedDown (k := 1) ?_
      -- the pairs below the second level are the old ones
      intro i h2 hn hi
      change i ≤ h.size - 1 at hn
      change ¬ less (swap h.elems 1 h.size (i / 2)) (swap h.elems 1 h.size i) = true
      rw [swap_eq_exchange, exchange_of_ne h.elems (i := i / 2) (by omega) (by omega),
        exchange_of_ne h.elems (i := i) (by omega) (by omega)]
      exact hord i h2 (by omega)
    · intro a ha
      obtain ⟨i, hi1, hin, rfl⟩ := Heap.mem_items.mp ha
      exact hord.root_max i hi1 hin

theorem heapRebuildLoop_frame (less : α → α → Bool) :
    ∀ (i : ℕ) (h : Heap α), (heapRebuildLoop less i h).size = h.size ∧
      (heapRebuildLoop less i h).pushCnt = h.pushCnt ∧
      (heapRebuildLoop less i h).items = h.items := by
  intro i
  induction i with
  | zero => intro h; exact ⟨rfl, rfl, rfl⟩
  | succ i ih =>
    intro h
    obtain ⟨hs, hp, hi⟩ := ih (downHeap less h (i + 1))
    refine ⟨hs, hp, hi.trans ?_⟩
    exact downHeapLoop_cells less _ _ _ (by omega)

/-- `heap_rebuild` keeps the queued elements. -/
theorem heapRebuild_items (less : α → α → Bool) (h : Heap α) :
    (heapRebuild less h).items = h.items :=
  (heapRebuildLoop_frame less h.size h).2.2

theorem heapRebuildLoop_ordered {less : α → α → Bool}
    [IsStrictWeakOrder α (fun a b => less a b = true)] :
    ∀ (i : ℕ) (h : Heap α),
      HeapOrderedFrom (fun a b => less a b = true) h.size h.elems (i + 1) →
      (heapRebuildLoop less i h).Ordered less := by
  intro i
  induction i with
  | zero => intro h hf; exact heapOrderedFrom_one.mp hf
  | succ i ih =>
    intro h hf
    exact ih (downHeap less h (i + 1))
      (downHeapLoop_ordered _ _ _ (Nat.lt_add_of_pos_right (by omega)) (by omega) le_rfl
        hf.orderedDown)

/-- **`heap_rebuild`.** Whatever the arrangement before, the heap is ordered after it. -/
theorem heapRebuild_ordered {less : α → α → Bool}
    [IsStrictWeakOrder α (fun a b => less a b = true)] (h : Heap α) :
    (heapRebuild less h).Ordered less :=
  heapRebuildLoop_ordered h.size h (heapOrderedFrom_of_lt (Nat.lt_succ_self _))

end Pintos
