import Pintos.Foundation.HeapOrder

/-!
# Merging runs

A list is sorted by merging neighbouring runs, where a run is a part of the list that is in order. The
order is a comparison `less`, as a program has it; `b` may stand behind `a` if it is not less than `a`.

* `descents` — the number of places where a run ends and another one begins;
* `Rearranged` — a list has the same elements as another one, and those that are equivalent are in the
  same order (`rearranged_merge`).
-/

namespace MergeRuns

open List

variable {α : Type}

/-- Neither is less than the other. -/
def equivalent (less : α → α → Bool) (a b : α) : Bool := !less a b && !less b a

/-- `b` may stand behind `a`. -/
def inOrder (less : α → α → Bool) (a b : α) : Bool := !less b a

/-- A run. -/
def Ascending (less : α → α → Bool) (xs : List α) : Prop := xs.IsChain fun a b => less b a = false

/-- **The number of places at which the list is not in order.** -/
def descents (less : α → α → Bool) : List α → ℕ
  | a :: b :: xs => (if less b a then 1 else 0) + descents less (b :: xs)
  | _ => 0

section Descents

variable {less : α → α → Bool} {a b : α} {xs ys : List α}

theorem descents_append (xs : List α) (a b : α) (ys : List α) :
    descents less (xs ++ a :: b :: ys) =
      descents less (xs ++ [a]) + ((if less b a then 1 else 0) + descents less (b :: ys)) := by
  induction xs with
  | nil => simp [descents]
  | cons x xs ih =>
    cases xs with
    | nil => simp [descents]
    | cons y xs =>
      simp only [cons_append, descents] at ih ⊢
      omega

theorem descents_eq_zero : descents less xs = 0 ↔ Ascending less xs := by
  unfold Ascending
  induction xs with
  | nil => simp [descents]
  | cons x xs ih =>
    cases xs with
    | nil => simp [descents]
    | cons y xs =>
      rw [isChain_cons_cons, ← ih, descents]
      cases less y x <;> simp

theorem descents_lt_length (hne : xs ≠ []) : descents less xs < xs.length := by
  induction xs with
  | nil => exact absurd rfl hne
  | cons x xs ih =>
    cases xs with
    | nil => simp [descents]
    | cons y xs =>
      have := ih (cons_ne_nil y xs)
      rw [descents, length_cons]
      split <;> omega

/-- A run, and what follows it. -/
theorem descents_run (hrun : Ascending less (xs ++ [a])) (hend : less b a = true) :
    descents less (xs ++ [a] ++ b :: ys) = descents less (b :: ys) + 1 := by
  rw [append_assoc, singleton_append, descents_append, descents_eq_zero.mpr hrun,
    if_pos hend]
  omega

/-- Behind a run there is one place more at most. -/
theorem descents_append_le (hrun : Ascending less xs) :
    descents less (xs ++ ys) ≤ descents less ys + 1 := by
  rcases eq_nil_or_concat xs with rfl | ⟨zs, a, rfl⟩
  · exact Nat.le_succ _
  · cases ys with
    | nil =>
      rw [append_nil, descents_eq_zero.mpr hrun]
      exact Nat.zero_le _
    | cons b ys =>
      rw [concat_eq_append] at hrun ⊢
      rw [append_assoc, singleton_append, descents_append, descents_eq_zero.mpr hrun]
      split <;> omega

end Descents

/-- **The same elements, equivalent ones in the same order.** -/
structure Rearranged (less : α → α → Bool) (xs ys : List α) : Prop where
  perm : ys.Perm xs
  stable : ∀ x, ys.filter (equivalent less x) = xs.filter (equivalent less x)

namespace Rearranged

variable {less : α → α → Bool} {xs ys zs us vs : List α}

theorem refl (less : α → α → Bool) (xs : List α) : Rearranged less xs xs := ⟨.refl xs, fun _ => rfl⟩

theorem trans (h : Rearranged less xs ys) (h' : Rearranged less ys zs) : Rearranged less xs zs :=
  ⟨h'.perm.trans h.perm, fun x => (h'.stable x).trans (h.stable x)⟩

theorem append (h : Rearranged less xs ys) (h' : Rearranged less us vs) :
    Rearranged less (xs ++ us) (ys ++ vs) := by
  refine ⟨h.perm.append h'.perm, fun x => ?_⟩
  rw [filter_append, filter_append, h.stable, h'.stable]

end Rearranged

section Merge

variable {less : α → α → Bool} [IsStrictWeakOrder α fun a b => less a b = true]

theorem not_less_trans {a b c : α} (hab : less a b = false) (hbc : less b c = false) :
    less a c = false := by
  rw [← Bool.not_eq_true] at *
  exact HeapOrder.not_lt_trans (r := fun a b => less a b = true) hab hbc

/-- In a run, every element may stand behind every earlier one. -/
theorem Ascending.pairwise {xs : List α} (h : Ascending less xs) :
    xs.Pairwise fun a b => less b a = false := by
  have : Trans (fun a b : α => less b a = false) (fun a b => less b a = false)
      (fun a b => less b a = false) := ⟨fun hab hbc => not_less_trans hbc hab⟩
  exact isChain_iff_pairwise.mp h

/-- **Merging keeps equivalent elements in their order.** -/
theorem filter_merge (x : α) {xs : List α} (h : Ascending less xs) (ys : List α) :
    (xs.merge ys (inOrder less)).filter (equivalent less x) =
      xs.filter (equivalent less x) ++ ys.filter (equivalent less x) := by
  induction xs generalizing ys with
  | nil => simp
  | cons a as iha =>
    induction ys with
    | nil => simp
    | cons b bs ihb =>
      by_cases hba : less b a = true
      · -- `b` goes first, and what it goes before is not equivalent to it
        have hlater : ∀ y ∈ a :: as, less b y = true := by
          intro y hy
          by_contra hby
          rw [Bool.not_eq_true] at hby
          have hya : less y a = false := by
            rcases mem_cons.mp hy with rfl | hy
            · exact Bool.eq_false_iff.mpr (irrefl_of (fun a b => less a b = true) y)
            · exact (pairwise_cons.mp h.pairwise).1 y hy
          rw [not_less_trans hby hya] at hba
          exact Bool.false_ne_true hba
        rw [cons_merge_cons_neg _ _ _ (by simp [inOrder, hba])]
        by_cases hb : equivalent less x b = true
        · have hnone : (a :: as).filter (equivalent less x) = [] := by
            refine filter_eq_nil_iff.mpr fun y hy hxy => ?_
            unfold equivalent at hb hxy
            simp only [Bool.and_eq_true, Bool.not_eq_true'] at hb hxy
            have hby := hlater y hy
            rw [not_less_trans hb.2 hxy.1] at hby
            exact Bool.false_ne_true hby
          rw [filter_cons_of_pos hb, ihb, hnone, filter_cons_of_pos hb]
          rfl
        · rw [filter_cons_of_neg hb, ihb, filter_cons_of_neg hb]
      · rw [cons_merge_cons_pos _ _ _ (by simpa [inOrder] using hba)]
        rw [filter_cons, filter_cons, iha (List.IsChain.tail h)]
        split <;> rfl

/-- **Two runs are merged into one.** -/
theorem ascending_merge {xs ys : List α} (hx : Ascending less xs) (hy : Ascending less ys) :
    Ascending less (xs.merge ys (inOrder less)) := by
  have hpair : ∀ {zs : List α}, Ascending less zs → zs.Pairwise fun a b => inOrder less a b = true :=
    fun h => h.pairwise.imp fun hab => by rw [inOrder, hab]; rfl
  have hmerge : (xs.merge ys (inOrder less)).Pairwise fun a b => inOrder less a b = true := by
    refine pairwise_merge (fun a b c hab hbc => ?_) (fun a b => ?_) xs ys (hpair hx) (hpair hy)
    · unfold inOrder at *
      rw [Bool.not_eq_true'] at *
      exact not_less_trans hbc hab
    · -- not both can be less than the other
      unfold inOrder
      cases hab : less b a with
      | false => rfl
      | true =>
        have hba : ¬less a b = true := HeapOrder.not_lt_of_lt (r := fun a b => less a b = true) hab
        simpa using hba
  exact (hmerge.imp fun hab => by simpa [inOrder] using hab).isChain

theorem rearranged_merge {xs : List α} (hx : Ascending less xs) (ys : List α) :
    Rearranged less (xs ++ ys) (xs.merge ys (inOrder less)) :=
  ⟨merge_perm_append _, fun x => by rw [filter_merge x hx, filter_append]⟩

end Merge

end MergeRuns
