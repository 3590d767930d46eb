import Mathlib.Order.Lattice

/-!
# The first maximum of a list

`firstMax less m es` walks over `es` and keeps the candidate `m` unless the next element is
strictly greater, so it ends with the first of the maximal elements of `m :: es`: a member of
the list (`firstMax_mem`), and for a comparison by a key one with the largest key
(`firstMax_key`).
-/

namespace FirstMax

variable {α : Type}

/-- The first maximum of `m :: es` under `less`. -/
def firstMax (less : α → α → Bool) : α → List α → α
  | m, [] => m
  | m, e :: es => firstMax less (if less m e then e else m) es

variable {less : α → α → Bool}

theorem firstMax_mem : ∀ (es : List α) (m : α), firstMax less m es ∈ m :: es := by
  intro es
  induction es with
  | nil => intro m; exact List.mem_singleton.mpr rfl
  | cons e es ih =>
    intro m
    have hih := ih (if less m e then e else m)
    rw [firstMax]
    rcases List.mem_cons.mp hih with heq | hmem
    · rw [heq]
      split <;> simp
    · exact List.mem_cons_of_mem _ (List.mem_cons_of_mem _ hmem)

section Key

variable {β : Type} [LinearOrder β] (key : α → β)

/-- The result's key is at least the key of the candidate. -/
theorem firstMax_key_ge_start (es : List α) :
    ∀ m : α, key m ≤ key (firstMax (fun a b => decide (key a < key b)) m es) := by
  induction es with
  | nil => intro m; exact le_refl _
  | cons e es ih =>
    intro m
    rw [firstMax]
    refine le_trans ?_ (ih _)
    split
    · next h => exact le_of_lt (of_decide_eq_true h)
    · exact le_refl _

/-- **The result is a maximum of the key.** -/
theorem firstMax_key (es : List α) : ∀ m : α, ∀ x ∈ m :: es,
    key x ≤ key (firstMax (fun a b => decide (key a < key b)) m es) := by
  induction es with
  | nil =>
    intro m x hx
    rw [List.mem_singleton.mp hx]
    exact le_refl _
  | cons e es ih =>
    intro m x hx
    rw [firstMax]
    rcases List.mem_cons.mp hx with rfl | hx
    · exact firstMax_key_ge_start key (e :: es) x
    rcases List.mem_cons.mp hx with rfl | hx
    · -- the element the walk looks at: it is the new candidate, or not above the old one
      refine le_trans ?_ (firstMax_key_ge_start key es _)
      split
      · exact le_refl _
      · next h => exact le_of_not_gt fun hlt => h (decide_eq_true hlt)
    · exact ih _ x (List.mem_cons_of_mem _ hx)

end Key

end FirstMax
