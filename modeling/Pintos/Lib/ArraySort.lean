import Pintos.Foundation.Ends
import Pintos.Foundation.HeapOrder
import Pintos.Lib.Memory

/-!
# Sorting an array

`sort` and `qsort` of `lib/stdlib.c`. An array is `cnt` elements of `size` bytes each, in memory; the functions
swap elements byte by byte and compare them through a function that they are given. Elements are numbered from
1. An access to any other element is an error here, and so is a failed assertion; loops have a fuel. Indexes
are of type `size_t`, so that the index of a child is taken modulo 2³².

* `element_swap` — the bytes of two elements are exchanged;
* `TotalPreorder` — what a comparison has to be;
* `heapify_spec`, `buildHeap_spec`, `sortHeap_spec` — the loops of `sort`, on the elements as a heap;
* `sort_spec` — an array of fewer than 2³¹ elements is sorted.
-/

namespace Pintos

open Total HeapOrder Function

/-- What goes wrong: an assertion fails, an element outside of the array is used, or a loop is cut
off. -/
inductive SortFault where
  | assertion
  | outOfArray
  | fuel
  deriving DecidableEq, Repr

/-- The first arguments of `sort`: where the array is, the number of its elements, and their size. -/
structure ElementArray where
  array : ℕ
  cnt : ℕ
  size : ℕ

namespace ElementArray

variable (a : ElementArray)

/-- The values that an element can have. -/
abbrev Element : Type := Fin a.size → UInt8

/-- `array + (idx - 1) * size`. -/
def address (idx : ℕ) : ℕ := a.array + (idx - 1) * a.size

/-- The value of an element. -/
def element (mem : Buffer) (idx : ℕ) : a.Element := fun j => mem (a.address idx + j)

/-! ### The functions -/

/-- An element of the array. -/
def checkIndex (idx : ℕ) : Except SortFault Unit :=
  if 1 ≤ idx ∧ idx ≤ a.cnt then .ok () else .error .outOfArray

/-- The loop of `do_swap`, for the first bytes at `p` and `q`. -/
def swapBytes (mem : Buffer) (p q : ℕ) : ℕ → Buffer
  | 0 => mem
  | i + 1 =>
    let mem := swapBytes mem p q i
    update (update mem (p + i) (mem (q + i))) (q + i) (mem (p + i))

/-- `do_swap`. -/
def doSwap (mem : Buffer) (aIdx bIdx : ℕ) : Except SortFault Buffer := do
  a.checkIndex aIdx
  a.checkIndex bIdx
  .ok (swapBytes mem (a.address aIdx) (a.address bIdx) a.size)

/-- `do_compare`. -/
def doCompare (compare : a.Element → a.Element → ℤ) (mem : Buffer) (aIdx bIdx : ℕ) :
    Except SortFault ℤ := do
  a.checkIndex aIdx
  a.checkIndex bIdx
  .ok (compare (a.element mem aIdx) (a.element mem bIdx))

/-- `max`, in `heapify`, or the child `child` if there is one and it is larger. -/
def largerChild (compare : a.Element → a.Element → ℤ) (mem : Buffer) (cnt child max : ℕ) :
    Except SortFault ℕ :=
  if child ≤ cnt then do
    let cmp ← a.doCompare compare mem child max
    .ok (if 0 < cmp then child else max)
  else .ok max

/-- `heapify`. -/
def heapify (compare : a.Element → a.Element → ℤ) (cnt : ℕ) : ℕ → Buffer → ℕ → Except SortFault Buffer
  | 0, _, _ => .error .fuel
  | fuel + 1, mem, i => do
    let left := 2 * i % 2 ^ 32
    let right := (2 * i + 1) % 2 ^ 32
    let max ← a.largerChild compare mem cnt left i
    let max ← a.largerChild compare mem cnt right max
    if max = i then .ok mem
    else do
      let mem ← a.doSwap mem i max
      heapify compare cnt fuel mem max

/-- The loop of `sort` that builds a heap. -/
def buildHeap (compare : a.Element → a.Element → ℤ) (fuel : ℕ) : ℕ → Buffer → Except SortFault Buffer
  | 0, mem => .ok mem
  | i + 1, mem => do
    let mem ← a.heapify compare a.cnt fuel mem (i + 1)
    buildHeap compare fuel i mem

/-- The loop of `sort` that sorts the heap. -/
def sortHeap (compare : a.Element → a.Element → ℤ) (fuel : ℕ) : ℕ → Buffer → Except SortFault Buffer
  | 0, mem => .ok mem
  | 1, mem => .ok mem
  | i + 2, mem => do
    let mem ← a.doSwap mem 1 (i + 2)
    let mem ← a.heapify compare (i + 1) fuel mem 1
    sortHeap compare fuel (i + 1) mem

/-- `sort`. -/
def sort (compare : a.Element → a.Element → ℤ) (fuel : ℕ) (mem : Buffer) : Except SortFault Buffer :=
  if (a.array ≠ 0 ∨ a.cnt = 0) ∧ 0 < a.size then do
    let mem ← a.buildHeap compare fuel (a.cnt / 2) mem
    a.sortHeap compare fuel a.cnt mem
  else .error .assertion

/-- `compare_thunk`: the auxiliary data is the comparison. -/
def compareThunk (x y : a.Element) (aux : a.Element → a.Element → ℤ) : ℤ := aux x y

/-- `qsort`. -/
def qsort (compare : a.Element → a.Element → ℤ) (fuel : ℕ) (mem : Buffer) : Except SortFault Buffer :=
  a.sort (fun x y => a.compareThunk x y compare) fuel mem

/-! ### Swapping -/

theorem swapBytes_apply (mem : Buffer) {p q n i : ℕ} (hpq : p + n ≤ q ∨ q + n ≤ p) (hi : i ≤ n)
    (x : ℕ) :
    swapBytes mem p q i x = if p ≤ x ∧ x < p + i then mem (q + (x - p))
      else if q ≤ x ∧ x < q + i then mem (p + (x - q)) else mem x := by
  induction i generalizing x with
  | zero => rw [swapBytes, if_neg (by omega), if_neg (by omega)]
  | succ i ih =>
    have hle : i ≤ n := Nat.le_of_succ_le hi
    have hp : swapBytes mem p q i (p + i) = mem (p + i) := by
      rw [ih hle, if_neg (by omega), if_neg (by omega)]
    have hq : swapBytes mem p q i (q + i) = mem (q + i) := by
      rw [ih hle, if_neg (by omega), if_neg (by omega)]
    rw [swapBytes, hp, hq]
    by_cases hxq : x = q + i
    · rw [hxq, update_self, if_neg (by omega), if_pos (by omega), Nat.add_sub_cancel_left]
    · rw [update_of_ne hxq]
      by_cases hxp : x = p + i
      · rw [hxp, update_self, if_pos (by omega), Nat.add_sub_cancel_left]
      · rw [update_of_ne hxp, ih hle]
        congr 1
        · exact propext (by omega)
        · congr 1
          exact propext (by omega)

variable {a}

/-- Different elements do not overlap. -/
theorem address_add_size_le {i j : ℕ} (hi : 1 ≤ i) (hij : i < j) :
    a.address i + a.size ≤ a.address j := by
  obtain ⟨i, rfl⟩ := Nat.exists_eq_add_of_le' hi
  have hmul : (i + 1) * a.size ≤ (j - 1) * a.size := Nat.mul_le_mul_right _ (by omega)
  rw [Nat.add_mul, Nat.one_mul] at hmul
  unfold address
  rw [Nat.add_sub_cancel]
  omega

theorem address_bounds {i : ℕ} (hi : 1 ≤ i ∧ i ≤ a.cnt) :
    a.array ≤ a.address i ∧ a.address i + a.size ≤ a.array + a.size * a.cnt := by
  obtain ⟨i, rfl⟩ := Nat.exists_eq_add_of_le' hi.1
  have hmul : (i + 1) * a.size ≤ a.cnt * a.size := Nat.mul_le_mul_right _ hi.2
  rw [Nat.add_mul, Nat.one_mul, Nat.mul_comm a.cnt] at hmul
  unfold address
  rw [Nat.add_sub_cancel]
  omega

theorem address_apart {i j : ℕ} (hi : 1 ≤ i) (hj : 1 ≤ j) (hij : i ≠ j) :
    a.address i + a.size ≤ a.address j ∨ a.address j + a.size ≤ a.address i := by
  rcases Nat.lt_or_gt_of_ne hij with hlt | hlt
  · exact .inl (address_add_size_le hi hlt)
  · exact .inr (address_add_size_le hj hlt)

/-- **Two elements are exchanged.** -/
theorem element_swap (mem : Buffer) {i j k : ℕ} (hi : 1 ≤ i) (hj : 1 ≤ j) (hk : 1 ≤ k) (hij : i ≠ j) :
    a.element (swapBytes mem (a.address i) (a.address j) a.size) k =
      exchange (a.element mem) i j k := by
  funext b
  have hb := b.isLt
  rw [exchange_apply]
  unfold element
  rw [swapBytes_apply mem (address_apart hi hj hij) le_rfl]
  by_cases hki : k = i
  · subst hki
    rw [if_pos rfl, if_pos (by omega), Nat.add_sub_cancel_left]
  · have hapart := address_apart (a := a) hk hi hki
    rw [if_neg hki, if_neg (by omega)]
    by_cases hkj : k = j
    · subst hkj
      rw [if_pos rfl, if_pos (by omega), Nat.add_sub_cancel_left]
    · have hapart' := address_apart (a := a) hk hj hkj
      rw [if_neg hkj, if_neg (by omega)]

/-! ### Rearranging -/

/-- **Only the first `n` elements are rearranged.** -/
structure Shuffled (a : ElementArray) (n : ℕ) (mem mem' : Buffer) : Prop where
  elements : cells n (a.element mem') = cells n (a.element mem)
  later : ∀ k, n < k → a.element mem' k = a.element mem k
  outside : ∀ x, x < a.array ∨ a.array + a.size * a.cnt ≤ x → mem' x = mem x

theorem Shuffled.refl (n : ℕ) (mem : Buffer) : a.Shuffled n mem mem :=
  ⟨rfl, fun _ _ => rfl, fun _ _ => rfl⟩

theorem Shuffled.trans {n : ℕ} {mem mem' mem'' : Buffer} (h : a.Shuffled n mem mem')
    (h' : a.Shuffled n mem' mem'') : a.Shuffled n mem mem'' where
  elements := h'.elements.trans h.elements
  later := fun k hk => (h'.later k hk).trans (h.later k hk)
  outside := fun x hx => (h'.outside x hx).trans (h.outside x hx)

/-- More elements may have been rearranged. -/
theorem Shuffled.mono {n n' : ℕ} {mem mem' : Buffer} (h : a.Shuffled n mem mem') (hn : n ≤ n') :
    a.Shuffled n' mem mem' where
  elements := by
    induction n', hn using Nat.le_induction with
    | base => exact h.elements
    | succ n' hn' ih => rw [cells_succ, cells_succ, ih, h.later _ (Nat.lt_succ_of_le hn')]
  later := fun k hk => h.later k (hn.trans_lt hk)
  outside := h.outside

/-- **`do_swap`.** -/
theorem doSwap_spec {n : ℕ} (hn : n ≤ a.cnt) (mem : Buffer) {i j : ℕ} (hi : 1 ≤ i ∧ i ≤ n)
    (hj : 1 ≤ j ∧ j ≤ n) (hij : i ≠ j) :
    Ends (a.doSwap mem i j) fun mem' =>
      (∀ k, 1 ≤ k → a.element mem' k = exchange (a.element mem) i j k) ∧ a.Shuffled n mem mem' := by
  have hswap := fun k hk => element_swap (a := a) (k := k) mem hi.1 hj.1 hk hij
  have hcheck : ∀ {k : ℕ}, 1 ≤ k ∧ k ≤ n → a.checkIndex k = .ok () :=
    fun hk => if_pos ⟨hk.1, hk.2.trans hn⟩
  refine .step (hcheck hi) (.step (hcheck hj) (.ok ⟨hswap, ?_, fun k hk => ?_, fun x hx => ?_⟩))
  · rw [cells_congr fun k hk _ => hswap k hk, cells_exchange _ hi hj]
  · rw [hswap k (by omega), exchange_of_ne _ (by omega) (by omega)]
  · have hboundi := address_bounds (a := a) ⟨hi.1, hi.2.trans hn⟩
    have hboundj := address_bounds (a := a) ⟨hj.1, hj.2.trans hn⟩
    rw [swapBytes_apply mem (address_apart hi.1 hj.1 hij) le_rfl, if_neg (by omega), if_neg (by omega)]

end ElementArray

/-! ### Comparing -/

/-- **A comparison in the manner of `strcmp`** that is a total preorder. -/
structure TotalPreorder {α : Type} (compare : α → α → ℤ) : Prop where
  opposite : ∀ x y, compare x y < 0 ↔ 0 < compare y x
  trans : ∀ x y z, compare x y ≤ 0 → compare y z ≤ 0 → compare x z ≤ 0

/-- Being less is a strict weak order. -/
theorem TotalPreorder.strictWeak {α : Type} {compare : α → α → ℤ} (h : TotalPreorder compare) :
    IsStrictWeakOrder α fun x y => compare x y < 0 where
  irrefl x := by
    have := h.opposite x x
    omega
  trans x y z := by
    intro hxy hyz
    have hxz := h.trans x y z hxy.le hyz.le
    have hzy := h.trans z x y
    have := h.opposite y z
    have := h.opposite x z
    have := h.opposite z x
    omega
  incomp_trans x y z := by
    have := h.trans x y z
    have := h.trans z y x
    have := h.opposite x y
    have := h.opposite y x
    have := h.opposite y z
    have := h.opposite z y
    have := h.opposite x z
    have := h.opposite z x
    omega

namespace ElementArray

section Heap

variable {a : ElementArray} {compare : a.Element → a.Element → ℤ} {n s i : ℕ} {mem : Buffer}

/-- A child that is larger than `max`. -/
theorem largerChild_eq (hcompare : TotalPreorder compare) (hn : n ≤ a.cnt) {child max : ℕ}
    (hchild : 1 ≤ child) (hmax : 1 ≤ max ∧ max ≤ n) :
    a.largerChild compare mem n child max =
      .ok (if child ≤ n ∧ compare (a.element mem max) (a.element mem child) < 0 then child
        else max) := by
  unfold largerChild
  by_cases hle : child ≤ n
  · have hcmp : a.doCompare compare mem child max =
        .ok (compare (a.element mem child) (a.element mem max)) := by
      unfold doCompare checkIndex
      rw [if_pos ⟨hchild, hle.trans hn⟩, if_pos ⟨hmax.1, hmax.2.trans hn⟩]
      rfl
    rw [if_pos hle, bind_of_eq_ok hcmp]
    simp only [hle, true_and, ← hcompare.opposite]
  · rw [if_neg hle, if_neg fun h => hle h.1]

/-- The larger child of a cell: a child that is larger than the cell, and not smaller than the other
child. -/
structure LargerChild (r : a.Element → a.Element → Prop) (n : ℕ) (f : ℕ → a.Element) (i c : ℕ) :
    Prop where
  child : c / 2 = i
  le : c ≤ n
  larger : r (f i) (f c)
  largest : ∀ k, k ≤ n → k / 2 = i → ¬r (f c) (f k)

/-- **The index that `heapify` goes on with.** -/
theorem max_cases (hcompare : TotalPreorder compare) (hn : n ≤ a.cnt) (hcnt : a.cnt < 2 ^ 31)
    (hi : 1 ≤ i ∧ i ≤ n) :
    ∃ c, (do
        let max ← a.largerChild compare mem n (2 * i % 2 ^ 32) i
        a.largerChild compare mem n ((2 * i + 1) % 2 ^ 32) max) = .ok c ∧
      ((c = i ∧ ∀ k, k ≤ n → k / 2 = i → ¬compare (a.element mem i) (a.element mem k) < 0) ∨
        LargerChild (fun x y => compare x y < 0) n (a.element mem) i c) := by
  have hweak := hcompare.strictWeak
  have hleft : 2 * i % 2 ^ 32 = 2 * i := Nat.mod_eq_of_lt (by omega)
  have hright : (2 * i + 1) % 2 ^ 32 = 2 * i + 1 := Nat.mod_eq_of_lt (by omega)
  have hchildren : ∀ k, k / 2 = i → k = 2 * i ∨ k = 2 * i + 1 := fun k hk => by omega
  have hlarger := @largerChild_eq a compare n mem hcompare hn
  rw [hleft, hright]
  by_cases hl : 2 * i ≤ n ∧ compare (a.element mem i) (a.element mem (2 * i)) < 0
  · have hmax := hlarger (show 1 ≤ 2 * i by omega) hi
    have hmax' := hlarger (show 1 ≤ 2 * i + 1 by omega)
      (show 1 ≤ 2 * i ∧ 2 * i ≤ n from ⟨by omega, hl.1⟩)
    rw [if_pos hl] at hmax
    rw [bind_of_eq_ok hmax, hmax']
    refine ⟨_, rfl, .inr ?_⟩
    split
    next hr =>
      -- the right child is larger than the left one, which is larger than the element
      refine ⟨by omega, hr.1, hweak.trans _ _ _ hl.2 hr.2, fun k hk hki => ?_⟩
      rcases hchildren k hki with rfl | rfl
      · exact fun hlt => hweak.irrefl _ (hweak.trans _ _ _ hlt hr.2)
      · exact hweak.irrefl _
    next hr =>
      refine ⟨by omega, hl.1, hl.2, fun k hk hki => ?_⟩
      rcases hchildren k hki with rfl | rfl
      · exact hweak.irrefl _
      · exact fun hlt => hr ⟨hk, hlt⟩
  · have hmax := hlarger (show 1 ≤ 2 * i by omega) hi
    have hmax' := hlarger (show 1 ≤ 2 * i + 1 by omega) hi
    rw [if_neg hl] at hmax
    rw [bind_of_eq_ok hmax, hmax']
    refine ⟨_, rfl, ?_⟩
    split
    next hr =>
      refine .inr ⟨by omega, hr.1, hr.2, fun k hk hki => ?_⟩
      rcases hchildren k hki with rfl | rfl
      · exact fun hlt => hl ⟨hk, hweak.trans _ _ _ hr.2 hlt⟩
      · exact hweak.irrefl _
    next hr =>
      refine .inl ⟨rfl, fun k hk hki => ?_⟩
      rcases hchildren k hki with rfl | rfl
      · exact fun hlt => hl ⟨hk, hlt⟩
      · exact fun hlt => hr ⟨hk, hlt⟩

/-- **`heapify`.** -/
theorem heapify_spec (hcompare : TotalPreorder compare) (hn : n ≤ a.cnt) (hcnt : a.cnt < 2 ^ 31)
    {fuel : ℕ} (h : OrderedDown (fun x y => compare x y < 0) n (a.element mem) s i)
    (hi : 1 ≤ i ∧ i ≤ n) (hs : s ≤ i) (hfuel : n < i + fuel) :
    Ends (a.heapify compare n fuel mem i) fun mem' =>
      HeapOrderedFrom (fun x y => compare x y < 0) n (a.element mem') s ∧ a.Shuffled n mem mem' := by
  have hweak := hcompare.strictWeak
  induction fuel generalizing mem i with
  | zero => exact absurd hfuel (by omega)
  | succ fuel ih =>
    obtain ⟨c, hmax, hc⟩ := @max_cases a compare n i mem hcompare hn hcnt hi
    have hunfold : a.heapify compare n (fuel + 1) mem i = (do
        let max ← (do
          let max ← a.largerChild compare mem n (2 * i % 2 ^ 32) i
          a.largerChild compare mem n ((2 * i + 1) % 2 ^ 32) max)
        if max = i then .ok mem
        else do
          let mem ← a.doSwap mem i max
          a.heapify compare n fuel mem max) := by
      rw [heapify, bind_assoc]
    rw [hunfold, bind_of_eq_ok hmax]
    rcases hc with ⟨rfl, hdone⟩ | hc
    · rw [if_pos rfl]
      exact .ok ⟨h.done hdone, .refl n mem⟩
    · have hci := hc.child
      rw [if_neg (by omega)]
      refine .bind (doSwap_spec hn mem hi ⟨by omega, hc.le⟩ (by omega)) fun mem' hmem' => ?_
      have hdown := (h.exchange hi.1 hs hci hc.le hc.largest hc.larger).congr fun k hk _ =>
        hmem'.1 k hk
      refine (ih hdown ⟨by omega, hc.le⟩ (by omega) (by omega)).mono fun mem'' hmem'' => ?_
      exact ⟨hmem''.1, hmem'.2.trans hmem''.2⟩

/-- **The heap is built**, from the last parent to the first. -/
theorem buildHeap_spec (hcompare : TotalPreorder compare) (hcnt : a.cnt < 2 ^ 31) {fuel : ℕ}
    (h : HeapOrderedFrom (fun x y => compare x y < 0) a.cnt (a.element mem) (i + 1))
    (hi : i ≤ a.cnt) (hfuel : a.cnt < fuel) :
    Ends (a.buildHeap compare fuel i mem) fun mem' =>
      HeapOrdered (fun x y => compare x y < 0) a.cnt (a.element mem') ∧
        a.Shuffled a.cnt mem mem' := by
  induction i generalizing mem with
  | zero => exact .ok ⟨heapOrderedFrom_one.mp h, .refl _ mem⟩
  | succ i ih =>
    refine .bind (heapify_spec hcompare le_rfl hcnt h.orderedDown ⟨Nat.succ_pos i, hi⟩ le_rfl
      (by omega)) fun mem' hmem' => ?_
    refine (ih hmem'.1 (Nat.le_of_succ_le hi)).mono fun mem'' hmem'' => ?_
    exact ⟨hmem''.1, hmem'.2.trans hmem''.2⟩

/-- **The state of the loop that sorts the heap**: the first `i` elements are a heap, the others are in
order, and none of them is smaller than one of the heap. -/
structure HeapSorted (r : a.Element → a.Element → Prop) (i : ℕ) (f : ℕ → a.Element) : Prop where
  heap : HeapOrdered r i f
  sorted : ∀ j k, i < j → j ≤ k → k ≤ a.cnt → ¬r (f k) (f j)
  split : ∀ j k, 1 ≤ j → j ≤ i → i < k → k ≤ a.cnt → ¬r (f k) (f j)

/-- An element of a heap after it was rearranged was in it before. -/
theorem Shuffled.exists_element {mem' : Buffer} (h : a.Shuffled n mem mem') {j : ℕ} (hj : 1 ≤ j ∧ j ≤ n) :
    ∃ k, 1 ≤ k ∧ k ≤ n ∧ a.element mem k = a.element mem' j := by
  rw [← mem_cells, ← h.elements]
  exact mem_cells.mpr ⟨j, hj.1, hj.2, rfl⟩

/-- One round of the loop: the root changes places with the last element of the heap, and the others are
made a heap again. -/
theorem HeapSorted.round (hcompare : TotalPreorder compare) {mem₁ mem₂ : Buffer}
    (h : HeapSorted (fun x y => compare x y < 0) (i + 2) (a.element mem))
    (hswap : ∀ k, 1 ≤ k → a.element mem₁ k = exchange (a.element mem) 1 (i + 2) k)
    (hheap : HeapOrdered (fun x y => compare x y < 0) (i + 1) (a.element mem₂))
    (hshuffled : a.Shuffled (i + 1) mem₁ mem₂) :
    HeapSorted (fun x y => compare x y < 0) (i + 1) (a.element mem₂) := by
  have hweak := hcompare.strictWeak
  have hroot := h.heap.root_max
  have hlast : a.element mem₂ (i + 2) = a.element mem 1 := by
    rw [hshuffled.later _ (by omega), hswap _ (by omega), exchange_right]
  have hlater : ∀ k, i + 2 < k → a.element mem₂ k = a.element mem k := by
    intro k hk
    rw [hshuffled.later k (by omega), hswap k (by omega), exchange_of_ne _ (by omega) (by omega)]
  refine ⟨hheap, fun j k hj hjk hk => ?_, fun j k hj1 hj hk hkc => ?_⟩
  · rcases Nat.lt_or_eq_of_le (show i + 2 ≤ j from hj) with hj | rfl
    · rw [hlater j hj, hlater k (by omega)]
      exact h.sorted j k hj hjk hk
    · rw [hlast]
      rcases Nat.lt_or_eq_of_le hjk with hlt | rfl
      · rw [hlater k hlt]
        exact h.split 1 k le_rfl (by omega) hlt hk
      · rw [hlast]
        exact hweak.irrefl _
  · -- an element of the new heap was one of the old heap
    obtain ⟨l, hl1, hl, heq⟩ : ∃ l, 1 ≤ l ∧ l ≤ i + 2 ∧ a.element mem l = a.element mem₂ j := by
      obtain ⟨l, hl1, hl, heq⟩ := hshuffled.exists_element ⟨hj1, hj⟩
      rw [hswap l hl1] at heq
      by_cases hl' : l = 1
      · refine ⟨i + 2, by omega, le_rfl, ?_⟩
        rw [← heq, hl', exchange_left]
      · refine ⟨l, hl1, by omega, ?_⟩
        rw [← heq, exchange_of_ne _ hl' (by omega)]
    rw [← heq]
    rcases Nat.lt_or_eq_of_le (show i + 2 ≤ k from hk) with hk | rfl
    · rw [hlater k hk]
      exact h.split l k hl1 hl hk hkc
    · rw [hlast]
      exact hroot l hl1 hl

/-- **The heap is sorted**: its largest element goes behind the others, again and again. -/
theorem sortHeap_spec (hcompare : TotalPreorder compare) (hcnt : a.cnt < 2 ^ 31) {fuel : ℕ}
    (h : HeapSorted (fun x y => compare x y < 0) i (a.element mem)) (hi : i ≤ a.cnt)
    (hfuel : a.cnt < fuel) :
    Ends (a.sortHeap compare fuel i mem) fun mem' =>
      (∀ j k, 1 ≤ j → j ≤ k → k ≤ a.cnt → ¬compare (a.element mem' k) (a.element mem' j) < 0) ∧
        a.Shuffled a.cnt mem mem' := by
  have hweak := hcompare.strictWeak
  induction i generalizing mem with
  | zero => exact .ok ⟨fun j k hj => h.sorted j k hj, .refl _ mem⟩
  | succ i ih =>
    cases i with
    | zero =>
      refine .ok ⟨fun j k hj hjk hk => ?_, .refl _ mem⟩
      rcases Nat.lt_or_eq_of_le hj with hj | rfl
      · exact h.sorted j k hj hjk hk
      · rcases Nat.lt_or_eq_of_le hjk with hlt | rfl
        · exact h.split 1 k le_rfl le_rfl hlt hk
        · exact hweak.irrefl _
    | succ i =>
      refine .bind (doSwap_spec hi mem ⟨le_rfl, by omega⟩ ⟨by omega, le_rfl⟩ (by omega))
        fun mem₁ hmem₁ => ?_
      obtain ⟨hswap, hshuffled₁⟩ := hmem₁
      have hdown : OrderedDown (fun x y => compare x y < 0) (i + 1) (a.element mem₁) 1 1 := by
        refine ⟨fun j h2 hj _ hj1 => ?_, fun j hk => absurd hk (by omega)⟩
        rw [hswap j (by omega), hswap (j / 2) (by omega), exchange_of_ne _ (by omega) (by omega),
          exchange_of_ne _ (by omega) (by omega)]
        exact h.heap j h2 (by omega)
      refine .bind (heapify_spec hcompare (by omega) hcnt hdown ⟨le_rfl, by omega⟩ le_rfl (by omega))
        fun mem₂ hmem₂ => ?_
      obtain ⟨hheap, hshuffled₂⟩ := hmem₂
      have hround := h.round hcompare hswap (heapOrderedFrom_one.mp hheap) hshuffled₂
      refine (ih hround (by omega)).mono fun mem₃ hmem₃ => ⟨hmem₃.1, ?_⟩
      exact (hshuffled₁.mono hi).trans ((hshuffled₂.mono (by omega)).trans hmem₃.2)

/-- **`sort`.** -/
theorem sort_spec (hcompare : TotalPreorder compare) (harray : a.array ≠ 0 ∨ a.cnt = 0)
    (hsize : 0 < a.size) (hcnt : a.cnt < 2 ^ 31) {fuel : ℕ} (hfuel : a.cnt < fuel) :
    Ends (a.sort compare fuel mem) fun mem' =>
      (∀ j k, 1 ≤ j → j ≤ k → k ≤ a.cnt → ¬compare (a.element mem' k) (a.element mem' j) < 0) ∧
        a.Shuffled a.cnt mem mem' := by
  unfold sort
  rw [if_pos ⟨harray, hsize⟩]
  have hleaves : HeapOrderedFrom (fun x y => compare x y < 0) a.cnt (a.element mem) (a.cnt / 2 + 1) :=
    fun j h2 hj hlate => absurd hlate (by omega)
  refine .bind (buildHeap_spec hcompare hcnt hleaves (by omega) hfuel) fun mem₁ hmem₁ => ?_
  have hstart : HeapSorted (fun x y => compare x y < 0) a.cnt (a.element mem₁) :=
    ⟨hmem₁.1, fun j k hj hjk hk => absurd hk (by omega), fun j k _ _ hk hkc => absurd hkc (by omega)⟩
  refine (sortHeap_spec hcompare hcnt hstart le_rfl hfuel).mono fun mem₂ hmem₂ => ?_
  exact ⟨hmem₂.1, hmem₁.2.trans hmem₂.2⟩

end Heap

end ElementArray

end Pintos
