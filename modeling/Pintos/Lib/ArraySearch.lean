import Pintos.Lib.ArraySort

/-!
# Searching a sorted array

`binary_search` and `bsearch` of `lib/stdlib.c`, on an array that `sort` or `qsort` has sorted. The search
keeps a window of the array between two pointers; before the window every element is less than the key, and
behind it every element is greater (`Window`).

* `binarySearchLoop_spec` — the loop of `binary_search`;
* `sort_outOfArray` — in an array of 2³¹ elements or more, the index of a child can wrap around to 0, and
  `heapify` then uses the bytes before the array;
* `sort_and_search_iff` — sorting and searching work, whatever the comparison and the elements are, for the
  arrays that have fewer than 2³¹ elements.
-/

namespace Pintos

open Total HeapOrder

namespace ElementArray

variable (a : ElementArray)

/-! ### The functions -/

/-- `compare (key, middle, aux)`, for a pointer into the array. -/
def compareAt (compare : a.Element → a.Element → ℤ) (mem : Buffer) (key : a.Element) (middle : ℕ) :
    Except SortFault ℤ :=
  if a.array ≤ middle ∧ middle + a.size ≤ a.array + a.size * a.cnt then
    .ok (compare key fun j => mem (middle + j))
  else .error .outOfArray

/-- The loop of `binary_search`. -/
def binarySearchLoop (compare : a.Element → a.Element → ℤ) (mem : Buffer) (key : a.Element) :
    ℕ → ℕ → ℕ → Except SortFault (Option ℕ)
  | 0, _, _ => .error .fuel
  | fuel + 1, first, last =>
    if first < last then do
      let range := (last - first) / a.size
      let middle := first + range / 2 * a.size
      let cmp ← a.compareAt compare mem key middle
      if cmp < 0 then binarySearchLoop compare mem key fuel first middle
      else if 0 < cmp then binarySearchLoop compare mem key fuel (middle + a.size) last
      else .ok (some middle)
    else .ok none

/-- `binary_search`: the address of an element, or a null pointer. -/
def binarySearch (compare : a.Element → a.Element → ℤ) (fuel : ℕ) (mem : Buffer) (key : a.Element) :
    Except SortFault (Option ℕ) :=
  a.binarySearchLoop compare mem key fuel a.array (a.array + a.size * a.cnt)

/-- `bsearch`. -/
def bsearch (compare : a.Element → a.Element → ℤ) (fuel : ℕ) (mem : Buffer) (key : a.Element) :
    Except SortFault (Option ℕ) :=
  a.binarySearch (fun x y => a.compareThunk x y compare) fuel mem key

/-! ### What the functions are for -/

/-- The elements of the array, in order. -/
def elements (mem : Buffer) : List a.Element := (List.range a.cnt).map fun k => a.element mem (k + 1)

/-- **The array was sorted**, and nothing else was changed. -/
structure Sorted (compare : a.Element → a.Element → ℤ) (mem mem' : Buffer) : Prop where
  perm : (a.elements mem').Perm (a.elements mem)
  inOrder : (a.elements mem').Pairwise fun x y => compare x y ≤ 0
  outside : ∀ x, x < a.array ∨ a.array + a.size * a.cnt ≤ x → mem' x = mem x

/-- **The result of a search**: the address of an element that is equal to the key, or nothing if there is
none. -/
def Finds (compare : a.Element → a.Element → ℤ) (mem : Buffer) (key : a.Element) : Option ℕ → Prop
  | some p => ∃ k, 1 ≤ k ∧ k ≤ a.cnt ∧ p = a.address k ∧ compare key (a.element mem k) = 0
  | none => ∀ x ∈ a.elements mem, compare key x ≠ 0

/-- **What a sorting function and a searching function are for.** They end, and so use no element outside
of the array. -/
def SortsAndFinds
    (sort : (a.Element → a.Element → ℤ) → ℕ → Buffer → Except SortFault Buffer)
    (search : (a.Element → a.Element → ℤ) → ℕ → Buffer → a.Element → Except SortFault (Option ℕ)) :
    Prop :=
  ∀ compare, TotalPreorder compare → ∀ fuel mem, a.cnt < fuel →
    Ends (sort compare fuel mem) fun mem' =>
      a.Sorted compare mem mem' ∧
        ∀ key, Ends (search compare fuel mem' key) (a.Finds compare mem' key)

/-- **An array in memory**: all of it has addresses, and its end too. -/
structure Addressable : Prop where
  array_ne : a.array ≠ 0 ∨ a.cnt = 0
  size_pos : 0 < a.size
  end_lt : a.array + a.size * a.cnt < 2 ^ 32

variable {a} {compare : a.Element → a.Element → ℤ} {mem : Buffer}

theorem mem_elements {x : a.Element} :
    x ∈ a.elements mem ↔ ∃ k, 1 ≤ k ∧ k ≤ a.cnt ∧ a.element mem k = x := by
  unfold elements
  rw [List.mem_map]
  constructor
  · rintro ⟨k, hk, rfl⟩
    exact ⟨k + 1, Nat.succ_pos k, List.mem_range.mp hk, rfl⟩
  · rintro ⟨k, hk1, hk, rfl⟩
    obtain ⟨k, rfl⟩ := Nat.exists_eq_add_of_le' hk1
    exact ⟨k, List.mem_range.mpr hk, rfl⟩

/-- The elements as a list and as the cells of a heap. -/
theorem coe_elements (mem : Buffer) : (a.elements mem : Multiset a.Element) = cells a.cnt (a.element mem) := by
  unfold elements
  induction a.cnt with
  | zero => rw [cells_zero]; rfl
  | succ n ih =>
    rw [cells_succ, ← ih, List.range_succ, List.map_append, ← Multiset.coe_add, add_comm]
    rfl

/-- The elements in order, by their numbers and as a list. -/
theorem pairwise_elements (hcompare : TotalPreorder compare)
    (h : ∀ j k, 1 ≤ j → j ≤ k → k ≤ a.cnt → ¬compare (a.element mem k) (a.element mem j) < 0) :
    (a.elements mem).Pairwise fun x y => compare x y ≤ 0 := by
  refine List.pairwise_map.mpr (List.pairwise_lt_range.imp_of_mem fun {j k} _ hk hjk => ?_)
  have hle := h (j + 1) (k + 1) (Nat.succ_pos j) (by omega) (List.mem_range.mp hk)
  exact not_lt.mp (mt (hcompare.opposite _ _).mpr hle)

/-! ### The search -/

/-- **The window of a search**: before the window every element is less than the key, and behind it every
element is greater. -/
structure Window (compare : a.Element → a.Element → ℤ) (mem : Buffer) (key : a.Element) (lo hi : ℕ) :
    Prop where
  le : hi ≤ a.cnt
  before : ∀ k, 1 ≤ k → k ≤ lo → 0 < compare key (a.element mem k)
  behind : ∀ k, hi < k → k ≤ a.cnt → compare key (a.element mem k) < 0

section Search

variable {key : a.Element} {lo hi m : ℕ}

/-- The key is less than an element, and so less than those behind it. -/
theorem Window.left (hcompare : TotalPreorder compare)
    (hsorted : ∀ j k, 1 ≤ j → j ≤ k → k ≤ a.cnt → ¬compare (a.element mem k) (a.element mem j) < 0)
    (h : Window compare mem key lo hi) (hm : m < hi) (hlt : compare key (a.element mem (m + 1)) < 0) :
    Window compare mem key lo m where
  le := hm.le.trans h.le
  before := h.before
  behind k hk hkc := by
    have hweak := hcompare.strictWeak
    by_contra hnot
    exact not_lt_trans (r := fun x y => compare x y < 0) hnot
      (hsorted (m + 1) k (Nat.succ_pos m) hk hkc) hlt

/-- The key is greater than an element, and so greater than those before it. -/
theorem Window.right (hcompare : TotalPreorder compare)
    (hsorted : ∀ j k, 1 ≤ j → j ≤ k → k ≤ a.cnt → ¬compare (a.element mem k) (a.element mem j) < 0)
    (h : Window compare mem key lo hi) (hm : m < hi) (hlt : 0 < compare key (a.element mem (m + 1))) :
    Window compare mem key (m + 1) hi where
  le := h.le
  before k hk1 hk := by
    have hweak := hcompare.strictWeak
    rw [← hcompare.opposite] at hlt ⊢
    by_contra hnot
    exact not_lt_trans (r := fun x y => compare x y < 0)
      (hsorted k (m + 1) hk1 hk (hm.trans_le h.le)) hnot hlt
  behind := h.behind

/-- An empty window: there is no element that is equal to the key. -/
theorem Window.finds_none (h : Window compare mem key lo hi) (hle : hi ≤ lo) :
    a.Finds compare mem key none := by
  intro x hx
  obtain ⟨k, hk1, hk, rfl⟩ := mem_elements.mp hx
  by_cases hkl : k ≤ lo
  · exact (h.before k hk1 hkl).ne'
  · exact (h.behind k (by omega) hk).ne

/-- **The loop of `binary_search`**, whose pointers are the ends of the window. -/
theorem binarySearchLoop_spec (hcompare : TotalPreorder compare) (hsize : 0 < a.size) {fuel : ℕ}
    (hsorted : ∀ j k, 1 ≤ j → j ≤ k → k ≤ a.cnt → ¬compare (a.element mem k) (a.element mem j) < 0)
    (h : Window compare mem key lo hi) (hfuel : hi - lo < fuel) :
    Ends (a.binarySearchLoop compare mem key fuel (a.array + lo * a.size) (a.array + hi * a.size))
      (a.Finds compare mem key) := by
  induction fuel generalizing lo hi with
  | zero => exact absurd hfuel (Nat.not_lt_zero _)
  | succ fuel ih =>
    unfold binarySearchLoop
    by_cases hlt : lo < hi
    · have hrange : (a.array + hi * a.size - (a.array + lo * a.size)) / a.size = hi - lo := by
        rw [Nat.add_sub_add_left, ← Nat.sub_mul, Nat.mul_div_cancel _ hsize]
      obtain ⟨m, hm⟩ : ∃ m, m = lo + (hi - lo) / 2 := ⟨_, rfl⟩
      have hmiddle : a.array + lo * a.size + (hi - lo) / 2 * a.size = a.address (m + 1) := by
        rw [address, hm, Nat.add_sub_cancel, Nat.add_mul, Nat.add_assoc]
      have hnext : a.address (m + 1) + a.size = a.array + (m + 1) * a.size := by
        rw [address, Nat.add_sub_cancel, Nat.add_mul, Nat.one_mul, Nat.add_assoc]
      have hcmp : a.compareAt compare mem key (a.address (m + 1)) =
          .ok (compare key (a.element mem (m + 1))) :=
        if_pos (address_bounds ⟨Nat.succ_pos m, (show m + 1 ≤ hi by omega).trans h.le⟩)
      rw [if_pos (Nat.add_lt_add_left (Nat.mul_lt_mul_of_pos_right hlt hsize) _)]
      simp only [hrange, hmiddle]
      refine .step hcmp ?_
      split
      next hneg => exact ih (h.left hcompare hsorted (by omega) hneg) (by omega)
      next hneg =>
        split
        next hpos =>
          rw [hnext]
          exact ih (h.right hcompare hsorted (by omega) hpos) (by omega)
        next hpos =>
          exact .ok ⟨m + 1, Nat.succ_pos m, (show m + 1 ≤ hi by omega).trans h.le, rfl, by omega⟩
    · rw [if_neg (not_lt.mpr (Nat.add_le_add_left (Nat.mul_le_mul_right _ (not_lt.mp hlt)) _))]
      exact .ok (h.finds_none (not_lt.mp hlt))

end Search

/-- **Sorting and searching**, as long as the index of a child does not wrap around. -/
theorem sortsAndFinds (haddr : a.Addressable) (hcnt : a.cnt < 2 ^ 31) :
    a.SortsAndFinds a.sort a.binarySearch := by
  intro compare hcompare fuel mem hfuel
  refine (sort_spec hcompare haddr.array_ne haddr.size_pos hcnt hfuel).mono fun mem' hmem' => ?_
  obtain ⟨hsorted, hshuffled⟩ := hmem'
  refine ⟨⟨?_, pairwise_elements hcompare hsorted, hshuffled.outside⟩, fun key => ?_⟩
  · rw [← Multiset.coe_eq_coe, coe_elements, coe_elements, hshuffled.elements]
  · have hwindow : Window compare mem' key 0 a.cnt :=
      ⟨le_rfl, fun k hk1 hk => absurd hk (by omega), fun k hk hkc => absurd hkc (by omega)⟩
    have hloop := binarySearchLoop_spec hcompare haddr.size_pos hsorted hwindow
      ((Nat.sub_le _ _).trans_lt hfuel)
    rw [Nat.zero_mul, Nat.add_zero, Nat.mul_comm] at hloop
    exact hloop

/-! ### Indexes that wrap around -/

/-- A comparison of elements by their first bytes. -/
def compareFirst (hsize : 0 < a.size) (x y : a.Element) : ℤ :=
  (x ⟨0, hsize⟩).toNat - (y ⟨0, hsize⟩).toNat

theorem compareFirst_totalPreorder (hsize : 0 < a.size) : TotalPreorder (compareFirst hsize) where
  opposite x y := by
    unfold compareFirst
    omega
  trans x y z := by
    unfold compareFirst
    omega

/-- All bytes are zero but the first one of element 2³¹. -/
def oneLarge (a : ElementArray) : Buffer := Function.update (fun _ => 0) (a.address (2 ^ 31)) 1

theorem compareFirst_oneLarge (hsize : 0 < a.size) {j k : ℕ} (hj : 1 ≤ j) (hk : 1 ≤ k) :
    compareFirst hsize (a.element a.oneLarge j) (a.element a.oneLarge k) =
      (if j = 2 ^ 31 then 1 else 0) - (if k = 2 ^ 31 then 1 else 0) := by
  have hfirst : ∀ {k}, 1 ≤ k →
      ((a.element a.oneLarge k ⟨0, hsize⟩).toNat : ℤ) = if k = 2 ^ 31 then 1 else 0 := by
    intro k hk
    unfold element oneLarge
    rw [Nat.add_zero]
    by_cases hlarge : k = 2 ^ 31
    · rw [if_pos hlarge, hlarge, Function.update_self]
      rfl
    · have hapart := address_apart (a := a) (i := k) (j := 2 ^ 31) hk (by omega) hlarge
      rw [if_neg hlarge, Function.update_of_ne (by omega)]
      rfl
  unfold compareFirst
  rw [hfirst hj, hfirst hk]

/-- **`heapify` gets to element 2³¹**, whose children would have the indexes 0 and 1. -/
theorem heapify_outOfArray (hsize : 0 < a.size) (hcnt : 2 ^ 31 ≤ a.cnt) (fuel : ℕ) :
    a.heapify (compareFirst hsize) a.cnt (fuel + 2) a.oneLarge (2 ^ 30) = .error .outOfArray := by
  have hcompare := compareFirst_totalPreorder (a := a) hsize
  have hleft : a.largerChild (compareFirst hsize) a.oneLarge a.cnt (2 * 2 ^ 30 % 2 ^ 32) (2 ^ 30) =
      .ok (2 ^ 31) := by
    rw [largerChild_eq hcompare le_rfl (by decide) ⟨by decide, by omega⟩,
      compareFirst_oneLarge hsize (by decide) (by decide)]
    exact congrArg _ (if_pos ⟨hcnt, by decide⟩)
  have hright : a.largerChild (compareFirst hsize) a.oneLarge a.cnt ((2 * 2 ^ 30 + 1) % 2 ^ 32)
      (2 ^ 31) = .ok (2 ^ 31) := by
    rw [largerChild_eq hcompare le_rfl (by decide) ⟨by decide, hcnt⟩,
      compareFirst_oneLarge hsize (by decide) (by decide)]
    exact congrArg _ (if_neg fun h => absurd h.2 (by decide))
  obtain ⟨mem', hswap, -⟩ := doSwap_spec (a := a) le_rfl a.oneLarge (i := 2 ^ 30) (j := 2 ^ 31)
    ⟨by decide, by omega⟩ ⟨by decide, hcnt⟩ (by decide)
  -- the index of the left child is 0, which is not greater than `cnt`
  have hwrap : a.largerChild (compareFirst hsize) mem' a.cnt (2 * 2 ^ 31 % 2 ^ 32) (2 ^ 31) =
      .error .outOfArray := by
    unfold largerChild doCompare checkIndex
    rw [show 2 * 2 ^ 31 % 2 ^ 32 = 0 by decide, if_pos (Nat.zero_le _), if_neg (by omega)]
    rfl
  rw [heapify, bind_of_eq_ok hleft, bind_of_eq_ok hright, if_neg (by decide), bind_of_eq_ok hswap,
    heapify, hwrap]
  rfl

/-- Before that, `heapify` finds nothing to do. -/
theorem heapify_oneLarge (hsize : 0 < a.size) {i : ℕ} (hcnt : a.cnt < 2 ^ 32) (hlow : 2 ^ 30 < i)
    (hhigh : i ≤ a.cnt / 2) (fuel : ℕ) :
    a.heapify (compareFirst hsize) a.cnt (fuel + 1) a.oneLarge i = .ok a.oneLarge := by
  have hcompare := compareFirst_totalPreorder (a := a) hsize
  have hchild : ∀ child, 2 ^ 31 < child → child < 2 ^ 32 →
      a.largerChild (compareFirst hsize) a.oneLarge a.cnt (child % 2 ^ 32) i = .ok i := by
    intro child hlow' hhigh'
    rw [Nat.mod_eq_of_lt hhigh', largerChild_eq hcompare le_rfl (by omega) ⟨by omega, by omega⟩,
      compareFirst_oneLarge hsize (by omega) (by omega), if_neg (by omega)]
  rw [heapify, bind_of_eq_ok (hchild _ (by omega) (by omega)),
    bind_of_eq_ok (hchild _ (by omega) (by omega)), if_pos rfl]

/-- **An array of 2³¹ elements or more is not always sorted**: bytes before it are used. -/
theorem sort_outOfArray (haddr : a.Addressable) (hcnt : 2 ^ 31 ≤ a.cnt) (fuel : ℕ) :
    a.sort (compareFirst haddr.size_pos) (fuel + 2) a.oneLarge = .error .outOfArray := by
  have hlt : a.cnt < 2 ^ 32 := by
    have hend := haddr.end_lt
    have hmul := Nat.mul_le_mul_right a.cnt haddr.size_pos
    omega
  -- the parents from the last one down to element 2³⁰
  have hbuild : ∀ i, 2 ^ 30 ≤ i → i ≤ a.cnt / 2 →
      a.buildHeap (compareFirst haddr.size_pos) (fuel + 2) i a.oneLarge = .error .outOfArray := by
    intro i hi
    induction i, hi using Nat.le_induction with
    | base =>
      intro _
      obtain ⟨i, hi⟩ : ∃ i, 2 ^ 30 = i + 1 := ⟨2 ^ 30 - 1, by omega⟩
      have hheapify := heapify_outOfArray haddr.size_pos hcnt fuel
      rw [hi] at hheapify ⊢
      rw [buildHeap, hheapify]
      rfl
    | succ i hi ih =>
      intro hle
      rw [buildHeap, bind_of_eq_ok (heapify_oneLarge haddr.size_pos hlt (by omega) hle (fuel + 1))]
      exact ih (by omega)
  unfold sort
  rw [if_pos ⟨haddr.array_ne, haddr.size_pos⟩, hbuild _ (by omega) le_rfl]
  rfl

/-- **Sorting and searching work for the arrays that have fewer than 2³¹ elements.** -/
theorem sort_and_search_iff (a : ElementArray) (haddr : a.Addressable) :
    a.SortsAndFinds a.sort a.binarySearch ∧ a.SortsAndFinds a.qsort a.bsearch ↔ a.cnt < 2 ^ 31 := by
  constructor
  · intro h
    by_contra hcnt
    obtain ⟨mem', hend, -⟩ := h.1 _ (compareFirst_totalPreorder haddr.size_pos) (a.cnt + 2) a.oneLarge
      (by omega)
    rw [sort_outOfArray haddr (not_lt.mp hcnt)] at hend
    cases hend
  · exact fun hcnt => ⟨sortsAndFinds haddr hcnt, sortsAndFinds haddr hcnt⟩

/-- An array of three elements of two bytes. -/
theorem sort_and_search_iff_three :
    (⟨0x1000, 3, 2⟩ : ElementArray).Addressable ∧
      (⟨0x1000, 3, 2⟩ : ElementArray).SortsAndFinds
        (sort ⟨0x1000, 3, 2⟩) (binarySearch ⟨0x1000, 3, 2⟩) := by
  have haddr : (⟨0x1000, 3, 2⟩ : ElementArray).Addressable := ⟨.inl (by decide), by decide, by decide⟩
  exact ⟨haddr, ((sort_and_search_iff _ haddr).mpr (by decide)).1⟩

/-- An array of 2³¹ bytes at the address where programs are loaded, for which `sort` uses the byte before
the array. -/
theorem sort_two_gigabytes :
    ∃ haddr : (⟨0x8048000, 2 ^ 31, 1⟩ : ElementArray).Addressable,
      TotalPreorder (compareFirst haddr.size_pos) ∧
        sort ⟨0x8048000, 2 ^ 31, 1⟩ (compareFirst haddr.size_pos) (2 ^ 31 + 2)
          (oneLarge ⟨0x8048000, 2 ^ 31, 1⟩) = .error .outOfArray := by
  have haddr : (⟨0x8048000, 2 ^ 31, 1⟩ : ElementArray).Addressable :=
    ⟨.inl (by decide), by decide, by decide⟩
  exact ⟨haddr, compareFirst_totalPreorder haddr.size_pos, sort_outOfArray haddr le_rfl (2 ^ 31)⟩

end ElementArray

end Pintos
