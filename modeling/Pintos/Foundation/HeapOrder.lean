import Mathlib.Order.Interval.Finset.Nat

/-!
# Binary heaps in a 1-based array

The array is a function `f : ℕ → α`, of which the cells `1 … n` count; the parent of cell `i`
is cell `i / 2`. `HeapOrdered r n f` says that no parent is less than its child, for a strict
weak order `r`. The two restoring walks exchange a cell with its parent or with its larger
child, and each keeps an order that is broken around one cell only:

* `OrderedUp r n f k` — the order may fail between `k` and its parent alone. `OrderedUp.done`
  ends the walk, `OrderedUp.exchange` is one step of it.
* `OrderedDown r n f s k` — among the cells from `s` on, the order may fail between `k` and
  its children alone. `OrderedDown.done` and `OrderedDown.exchange` likewise. The bound `s` is
  what bottom-up construction needs: it orders the cells from the last one down to the first.

`cells n f` is the multiset of the stored elements. An exchange inside the array keeps it
(`cells_exchange`), growing and shrinking the array adds and removes one element
(`cells_succ`), and the first cell of an ordered array is not less than any other
(`HeapOrdered.root_max`).
-/

namespace HeapOrder

variable {α : Type} {r : α → α → Prop}

/-! ### Strict weak orders -/

section StrictWeak

variable [IsStrictWeakOrder α r]

/-- The complement of a strict weak order is transitive. -/
theorem not_lt_trans {a b c : α} (hab : ¬ r a b) (hbc : ¬ r b c) : ¬ r a c := by
  intro hac
  have hba : ¬ r b a := fun h => hbc (trans_of r h hac)
  have hcb : ¬ r c b := fun h => hab (trans_of r hac h)
  exact (IsStrictWeakOrder.incomp_trans a b c ⟨hab, hba⟩ ⟨hbc, hcb⟩).1 hac

theorem not_lt_of_lt {a b : α} (hab : r a b) : ¬ r b a := asymm hab

theorem not_lt_of_lt_of_not_lt {a b c : α} (hab : r a b) (hac : ¬ r a c) : ¬ r b c :=
  fun hbc => hac (trans_of r hab hbc)

end StrictWeak

/-! ### The heap order and its two one-cell relaxations -/

/-- No cell of `2 … n` is greater than its parent. -/
def HeapOrdered (r : α → α → Prop) (n : ℕ) (f : ℕ → α) : Prop :=
  ∀ i, 2 ≤ i → i ≤ n → ¬ r (f (i / 2)) (f i)

/-- No cell of `2 … n` whose parent is `s` or later is greater than its parent. -/
def HeapOrderedFrom (r : α → α → Prop) (n : ℕ) (f : ℕ → α) (s : ℕ) : Prop :=
  ∀ i, 2 ≤ i → i ≤ n → s ≤ i / 2 → ¬ r (f (i / 2)) (f i)

/-- The order may fail between `k` and its parent alone, and the children of `k` are in order
with that parent. -/
structure OrderedUp (r : α → α → Prop) (n : ℕ) (f : ℕ → α) (k : ℕ) : Prop where
  /-- Every pair but the one below `k`'s parent is in order. -/
  edge : ∀ i, 2 ≤ i → i ≤ n → i ≠ k → ¬ r (f (i / 2)) (f i)
  /-- The children of `k` are not greater than the parent of `k`. -/
  grand : ∀ i, 2 ≤ k → i ≤ n → i / 2 = k → ¬ r (f (k / 2)) (f i)

/-- Among the pairs whose parent is `s` or later, the order may fail between `k` and its
children alone, and these children are in order with the parent of `k`. -/
structure OrderedDown (r : α → α → Prop) (n : ℕ) (f : ℕ → α) (s k : ℕ) : Prop where
  /-- Every pair but those below `k` is in order. -/
  edge : ∀ i, 2 ≤ i → i ≤ n → s ≤ i / 2 → i / 2 ≠ k → ¬ r (f (i / 2)) (f i)
  /-- The children of `k` are not greater than the parent of `k`. -/
  grand : ∀ i, 2 ≤ k → s ≤ k / 2 → i ≤ n → i / 2 = k → ¬ r (f (k / 2)) (f i)

theorem heapOrderedFrom_one {n : ℕ} {f : ℕ → α} :
    HeapOrderedFrom r n f 1 ↔ HeapOrdered r n f :=
  ⟨fun h i h2 hn => h i h2 hn (by omega), fun h i h2 hn _ => h i h2 hn⟩

/-- Past the last cell there is nothing to order. -/
theorem heapOrderedFrom_of_lt {n s : ℕ} {f : ℕ → α} (hs : n < s) :
    HeapOrderedFrom r n f s :=
  fun i _ hn hsi => absurd hsi (by omega)

/-- The heap order only looks at the cells of the array and at the comparisons between them. -/
theorem HeapOrdered.congr {r' : α → α → Prop} {n : ℕ} {f f' : ℕ → α}
    (h : HeapOrdered r n f) (hf : ∀ i, 1 ≤ i → i ≤ n → f' i = f i)
    (hlt : ∀ i j, 1 ≤ i → i ≤ n → 1 ≤ j → j ≤ n → r' (f i) (f j) → r (f i) (f j)) :
    HeapOrdered r' n f' := by
  intro i h2 hn hi
  rw [hf i (by omega) hn, hf (i / 2) (by omega) (by omega)] at hi
  exact h i h2 hn (hlt _ _ (by omega) (by omega) (by omega) hn hi)

/-- So does the order around one cell. -/
theorem OrderedDown.congr {n s k : ℕ} {f f' : ℕ → α} (h : OrderedDown r n f s k)
    (hf : ∀ i, 1 ≤ i → i ≤ n → f' i = f i) : OrderedDown r n f' s k where
  edge i h2 hn hsi hik := by
    rw [hf i (by omega) hn, hf (i / 2) (by omega) (by omega)]
    exact h.edge i h2 hn hsi hik
  grand i hk hsk hn hi := by
    rw [hf i (by omega) hn, hf (k / 2) (by omega) (by omega)]
    exact h.grand i hk hsk hn hi

/-- **The root is a maximum**: no cell is greater than cell `1`. -/
theorem HeapOrdered.root_max [IsStrictWeakOrder α r] {n : ℕ} {f : ℕ → α}
    (h : HeapOrdered r n f) : ∀ i, 1 ≤ i → i ≤ n → ¬ r (f 1) (f i) := by
  intro i
  induction i using Nat.strong_induction_on with
  | _ i ih =>
    intro h1 hn
    by_cases hi : i = 1
    · subst hi
      exact irrefl_of r (f 1)
    · exact not_lt_trans (ih (i / 2) (by omega) (by omega) (by omega)) (h i (by omega) hn)

/-! ### Exchanging two cells -/

/-- The array with the contents of two cells exchanged. -/
def exchange (f : ℕ → α) (a b : ℕ) : ℕ → α := fun i => f (Equiv.swap a b i)

@[simp] theorem exchange_left (f : ℕ → α) (a b : ℕ) : exchange f a b a = f b := by
  simp [exchange]

@[simp] theorem exchange_right (f : ℕ → α) (a b : ℕ) : exchange f a b b = f a := by
  simp [exchange]

theorem exchange_of_ne (f : ℕ → α) {a b i : ℕ} (ha : i ≠ a) (hb : i ≠ b) :
    exchange f a b i = f i := by
  simp [exchange, Equiv.swap_apply_of_ne_of_ne ha hb]

/-- Reading the exchanged array by cases. -/
theorem exchange_apply (f : ℕ → α) (a b i : ℕ) :
    exchange f a b i = if i = a then f b else if i = b then f a else f i := by
  unfold exchange
  rw [Equiv.swap_apply_def]
  split
  · rfl
  · split <;> rfl

section Walks

variable [IsStrictWeakOrder α r] {n s k : ℕ} {f : ℕ → α}

omit [IsStrictWeakOrder α r] in
/-- The upward walk ends at a cell that is not greater than its parent. -/
theorem OrderedUp.done (h : OrderedUp r n f k) (hk : 2 ≤ k → ¬ r (f (k / 2)) (f k)) :
    HeapOrdered r n f := by
  intro i h2 hn
  by_cases hik : i = k
  · subst hik
    exact hk h2
  · exact h.edge i h2 hn hik

/-- **One step up.** A cell greater than its parent changes places with it, and the order may
then fail one level higher. -/
theorem OrderedUp.exchange (h : OrderedUp r n f k) (hk : 2 ≤ k) (hkn : k ≤ n)
    (hlt : r (f (k / 2)) (f k)) :
    OrderedUp r n (HeapOrder.exchange f (k / 2) k) (k / 2) := by
  have hpk : k / 2 ≠ k := by omega
  constructor
  · intro i h2 hn hip
    by_cases hik : i = k
    · -- the exchanged pair itself
      subst hik
      rw [exchange_left, exchange_right]
      exact not_lt_of_lt hlt
    rw [exchange_of_ne f hip hik]
    by_cases hi : i / 2 = k / 2
    · -- the sibling: it was not greater than the old parent, which was less than `f k`
      rw [hi, exchange_left]
      exact not_lt_of_lt_of_not_lt hlt (hi ▸ h.edge i h2 hn hik)
    by_cases hi' : i / 2 = k
    · -- a child of `k`: the old parent has come down to `k`
      rw [hi', exchange_right]
      exact h.grand i hk hn hi'
    rw [exchange_of_ne f hi hi']
    exact h.edge i h2 hn hik
  · intro i hp2 hn hi
    rw [exchange_of_ne f (a := k / 2) (b := k) (i := k / 2 / 2) (by omega) (by omega)]
    have hpp : ¬ r (f (k / 2 / 2)) (f (k / 2)) :=
      h.edge (k / 2) hp2 (by omega) hpk
    by_cases hik : i = k
    · subst hik
      rw [exchange_right]
      exact hpp
    · rw [exchange_of_ne f (by omega) hik]
      exact not_lt_trans hpp (hi ▸ h.edge i (by omega) hn hik)

omit [IsStrictWeakOrder α r] in
/-- The downward walk ends at a cell that is not less than any of its children. -/
theorem OrderedDown.done (h : OrderedDown r n f s k)
    (hk : ∀ i, i ≤ n → i / 2 = k → ¬ r (f k) (f i)) : HeapOrderedFrom r n f s := by
  intro i h2 hn hsi
  by_cases hik : i / 2 = k
  · rw [hik]
    exact hk i hn hik
  · exact h.edge i h2 hn hsi hik

/-- **One step down.** A cell less than its larger child `c` changes places with it, and the
order may then fail one level lower. -/
theorem OrderedDown.exchange {c : ℕ} (h : OrderedDown r n f s k) (hk : 1 ≤ k) (hsk : s ≤ k)
    (hc : c / 2 = k) (hcn : c ≤ n)
    (hmax : ∀ i, i ≤ n → i / 2 = k → ¬ r (f c) (f i)) (hlt : r (f k) (f c)) :
    OrderedDown r n (HeapOrder.exchange f k c) s c := by
  have hck : c ≠ k := by omega
  constructor
  · intro i h2 hn hsi hic
    by_cases hik : i / 2 = k
    · rw [hik, exchange_left]
      by_cases hi : i = c
      · -- the exchanged pair itself
        subst hi
        rw [exchange_right]
        exact not_lt_of_lt hlt
      · -- the sibling of `c`
        rw [exchange_of_ne f (by omega) hi]
        exact hmax i hn hik
    rw [exchange_of_ne f hik hic]
    by_cases hi : i = k
    · -- the larger child has come up to `k`
      subst hi
      rw [exchange_left]
      exact h.grand c h2 hsi hcn hc
    · rw [exchange_of_ne f hi (by rintro rfl; exact hik hc)]
      exact h.edge i h2 hn hsi hik
  · intro i _ _ hn hi
    rw [hc, exchange_left, exchange_of_ne f (by omega) (by omega)]
    have := h.edge i (by omega) hn (by omega) (by omega)
    rwa [hi] at this

omit [IsStrictWeakOrder α r] in
/-- An ordered array stays ordered from `s` on, up to the children of `s`, whatever stands in
the cells before. -/
theorem HeapOrderedFrom.orderedDown (h : HeapOrderedFrom r n f (k + 1)) :
    OrderedDown r n f k k where
  edge i h2 hn hki hik := h i h2 hn (by omega)
  grand i hk2 hkk _ _ := absurd hkk (by omega)

end Walks

/-! ### The stored elements -/

/-- The elements in the cells `1 … n`, with multiplicity. -/
def cells (n : ℕ) (f : ℕ → α) : Multiset α := (Finset.Icc 1 n).val.map f

theorem mem_cells {n : ℕ} {f : ℕ → α} {a : α} :
    a ∈ cells n f ↔ ∃ i, 1 ≤ i ∧ i ≤ n ∧ f i = a := by
  simp [cells, and_assoc]

theorem cells_congr {n : ℕ} {f g : ℕ → α} (h : ∀ i, 1 ≤ i → i ≤ n → f i = g i) :
    cells n f = cells n g :=
  Multiset.map_congr rfl fun i hi => by
    have hmem := Finset.mem_Icc.mp (Finset.mem_val.mp hi)
    exact h i hmem.1 hmem.2

@[simp] theorem cells_zero (f : ℕ → α) : cells 0 f = 0 := by
  simp [cells]

/-- One more cell is one more element. -/
theorem cells_succ (n : ℕ) (f : ℕ → α) : cells (n + 1) f = f (n + 1) ::ₘ cells n f := by
  unfold cells
  have hins : Finset.Icc 1 (n + 1) = insert (n + 1) (Finset.Icc 1 n) := by
    ext i
    simp only [Finset.mem_Icc, Finset.mem_insert]
    omega
  rw [hins, Finset.insert_val_of_notMem (by simp), Multiset.map_cons]

/-- Exchanging two cells keeps the elements. -/
theorem cells_exchange {n a b : ℕ} (f : ℕ → α) (ha : 1 ≤ a ∧ a ≤ n) (hb : 1 ≤ b ∧ b ≤ n) :
    cells n (exchange f a b) = cells n f := by
  have hperm : (Finset.Icc 1 n).map (Equiv.swap a b).toEmbedding = Finset.Icc 1 n := by
    ext i
    rw [Finset.mem_map_equiv, Equiv.symm_swap, Equiv.swap_apply_def]
    simp only [Finset.mem_Icc]
    split
    · omega
    · split <;> omega
  have hval := congrArg Finset.val hperm
  rw [Finset.map_val] at hval
  unfold cells
  conv_rhs => rw [← hval, Multiset.map_map]
  rfl

end HeapOrder
