import Pintos.Foundation.LockTable
import Mathlib.Order.RelSeries

/-!
# Chains of waiting threads

The wait-for relation of a lock table: a thread announces to wait for a lock, and another is
recorded as the lock's holder. A chain of it is a `RelSeries`.

* `ChainTo r n t` — a chain of `n` waits ends at `t`;
* `ChainTo.mono` — a chain survives a change that keeps the waits for threads that wait
  themselves, as long as the thread it ends at waits too;
* `Exclusive.waitsFor_move` — every move of a lock table keeps these waits, because only the
  thread that moves gives up a lock, and it does not wait while it does;
* `ChainTo.le_rank` — a chain is no longer than any rank that grows along the relation.
-/

namespace LockTable

open Function

variable {T L : Type}

/-- The first thread announces to wait for a lock whose recorded holder is the second. -/
def waitsFor (waiting : T → Option L) (holder : L → Option T) : SetRel T T :=
  {p | ∃ l, waiting p.1 = some l ∧ holder l = some p.2}

/-- A chain of `n` steps of `r` ends at `t`. -/
def ChainTo (r : SetRel T T) (n : ℕ) (t : T) : Prop :=
  ∃ s : RelSeries r, s.length = n ∧ s.last = t

variable {r r' : SetRel T T} {n : ℕ} {t u : T}

theorem ChainTo.zero (t : T) : ChainTo r 0 t := ⟨.singleton r t, rfl, rfl⟩

theorem ChainTo.snoc (h : ChainTo r n t) (htu : (t, u) ∈ r) : ChainTo r (n + 1) u := by
  obtain ⟨s, rfl, rfl⟩ := h
  exact ⟨s.snoc u htu, rfl, s.last_snoc u htu⟩

/-- The threads inside a chain are sources of `r`, so only the last one needs a hypothesis. -/
theorem ChainTo.mono {P : T → Prop} (hsource : ∀ p q, (p, q) ∈ r → P p)
    (hkeep : ∀ p q, (p, q) ∈ r → P q → (p, q) ∈ r') (h : ChainTo r n t) (ht : P t) :
    ChainTo r' n t := by
  obtain ⟨s, rfl, rfl⟩ := h
  refine ⟨⟨s.length, s, fun i => hkeep _ _ (s.step i) ?_⟩, rfl, rfl⟩
  rcases Fin.eq_castSucc_or_eq_last i.succ with ⟨j, hj⟩ | hlast
  · rw [hj]
    exact hsource _ _ (s.step j)
  · rw [hlast]
    exact ht

theorem ChainTo.le_rank {rank : T → ℕ} (hrank : ∀ p q, (p, q) ∈ r → rank p < rank q)
    (h : ChainTo r n t) : n ≤ rank t := by
  obtain ⟨s, rfl, rfl⟩ := h
  let ranks : LTSeries ℕ := ⟨s.length, rank ∘ s, fun i => hrank _ _ (s.step i)⟩
  exact (Nat.le_add_left _ _).trans ranks.head_add_length_le_nat

/-- **A wait for a thread that waits itself survives every move.** -/
theorem Exclusive.waitsFor_move [DecidableEq T] [DecidableEq L] {x y : Table T L} {m : T}
    {a : Label L} (h : Exclusive x) (hm : Move m x a y) {p q : T}
    (hpq : (p, q) ∈ waitsFor x.waiting x.holder) (hq : x.waiting q ≠ none) :
    (p, q) ∈ waitsFor y.waiting y.holder := by
  obtain ⟨l, hp, hh⟩ := hpq
  have hfree : ∀ {l' : L}, (x.phase m).owned = some l' → x.phase m ≠ .marks l' → l ≠ l' := by
    rintro l' ho hne rfl
    exact absurd ((h.holder_eq_none ho hne).symm.trans hh) (by simp)
  cases hm with
  | @mark l' hph =>
    refine ⟨l, hp, ?_⟩
    have hne : l ≠ l' := hfree (by rw [hph]; rfl) (by rw [hph]; simp)
    exact (update_of_ne hne ..).trans hh
  | @wait l' hph =>
    have hpm : p ≠ m := by
      rintro rfl
      have hnone := (h.waiting p).symm.trans hp
      rw [hph] at hnone
      exact absurd hnone (by simp [Phase.awaited])
    exact ⟨l, (update_of_ne hpm ..).trans hp, hh⟩
  | @enter l' hph =>
    have hne : l ≠ l' := hfree (by rw [hph]; rfl) (by rw [hph]; simp)
    have hpm : p ≠ m := by
      rintro rfl
      have hsome := (h.waiting p).symm.trans hp
      rw [hph] at hsome
      exact hne (Option.some.inj hsome).symm
    exact ⟨l, (update_of_ne hpm ..).trans hp, (update_of_ne hne ..).trans hh⟩
  | @clear l' hph =>
    -- the thread that gives the lock up does not wait
    have hne : l ≠ l' := by
      rintro rfl
      have hm := (h.holder m l).mpr (.inl (h.clears m l hph))
      obtain rfl := Option.some.inj (hh.symm.trans hm)
      apply hq
      rw [h.waiting, hph]
      rfl
    exact ⟨l, hp, (update_of_ne hne ..).trans hh⟩
  | _ => exact ⟨l, hp, hh⟩

end LockTable
