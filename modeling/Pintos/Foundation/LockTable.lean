import Mathlib.Data.List.Nodup

/-!
# Locks built on a binary semaphore

An abstract lock manager in which taking a lock is not one action. A thread first gets the unit
of the lock's semaphore, then records itself as the holder, then adds the lock to its own list;
releasing undoes this in the order list and holder, then unit. Other threads run in between, so
for a while the unit is gone and the lock has no holder. A thread that finds the unit gone
announces which lock it waits for until it has got it.

* `Phase` — where a thread is in this: `takes` and `marks` on the direct way in, `waits` and
  `wakes` on the way in by waiting, `clears` and `gives` on the way out;
* `Move r x a y` — thread `r` takes `x` to `y`; the label `a` tells the moves that take or give
  the unit;
* `Exclusive` — the invariant: a lock has an owner exactly when its unit is gone, at most one,
  and the recorded holder is that owner except in the windows where none is recorded;
* `Exclusive.step` — every move keeps it.
-/

namespace LockTable

open Function

variable {T L : Type}

/-- Where a thread is on the way in or out of a lock. -/
inductive Phase (L : Type) where
  | free
  /-- It has the unit and is not the holder yet. -/
  | takes (l : L)
  /-- It is the holder and the lock is not on its list yet. -/
  | marks (l : L)
  /-- It has announced that it waits for the lock. -/
  | waits (l : L)
  /-- It has got the unit after waiting, and still announces the lock. -/
  | wakes (l : L)
  /-- It is about to give the lock up. -/
  | clears (l : L)
  /-- It is not the holder any more and still has the unit. -/
  | gives (l : L)

/-- The lock whose unit the thread has without having it on its list. -/
def Phase.owned : Phase L → Option L
  | .takes l | .marks l | .wakes l | .gives l => some l
  | _ => none

/-- The lock that the thread announces to wait for. -/
def Phase.awaited : Phase L → Option L
  | .waits l | .wakes l => some l
  | _ => none

/-- The state of the lock manager. -/
@[ext]
structure Table (T L : Type) where
  /-- The locks on a thread's list. -/
  held : T → List L
  /-- The lock a thread announces to wait for. -/
  waiting : T → Option L
  phase : T → Phase L
  /-- The recorded holder of a lock. -/
  holder : L → Option T
  /-- The value of a lock's semaphore. -/
  value : L → ℕ

/-- What a move does to a semaphore. -/
inductive Label (L : Type) where
  | silent
  | down (l : L)
  | up (l : L)

section Moves

variable [DecidableEq T] [DecidableEq L]

/-- The moves of thread `r`. -/
inductive Move (r : T) (x : Table T L) : Label L → Table T L → Prop where
  | stay : Move r x .silent x
  | take {l} : x.phase r = .free → 0 < x.value l → Move r x (.down l)
      { x with
        phase := update x.phase r (.takes l)
        value := update x.value l (x.value l - 1) }
  | mark {l} : x.phase r = .takes l → Move r x .silent
      { x with
        phase := update x.phase r (.marks l)
        holder := update x.holder l (some r) }
  | list {l} : x.phase r = .marks l → Move r x .silent
      { x with
        phase := update x.phase r .free
        held := update x.held r (x.held r ++ [l]) }
  | wait {l} : x.phase r = .free → Move r x .silent
      { x with
        phase := update x.phase r (.waits l)
        waiting := update x.waiting r (some l) }
  | wake {l} : x.phase r = .waits l → 0 < x.value l → Move r x (.down l)
      { x with
        phase := update x.phase r (.wakes l)
        value := update x.value l (x.value l - 1) }
  | enter {l} : x.phase r = .wakes l → Move r x .silent
      { x with
        phase := update x.phase r .free
        waiting := update x.waiting r none
        holder := update x.holder l (some r)
        held := update x.held r (x.held r ++ [l]) }
  | leave {l} : x.phase r = .free → x.holder l = some r → Move r x .silent
      { x with phase := update x.phase r (.clears l) }
  | clear {l} : x.phase r = .clears l → Move r x .silent
      { x with
        phase := update x.phase r (.gives l)
        holder := update x.holder l none
        held := update x.held r ((x.held r).erase l) }
  | give {l} : x.phase r = .gives l → Move r x (.up l)
      { x with
        phase := update x.phase r .free
        value := update x.value l (x.value l + 1) }

end Moves

/-- Thread `t` has the unit of lock `l`. -/
def Table.Owns (x : Table T L) (t : T) (l : L) : Prop :=
  l ∈ x.held t ∨ (x.phase t).owned = some l

/-- **Mutual exclusion**, with the windows in which no holder is recorded. -/
structure Exclusive (x : Table T L) : Prop where
  nodup : ∀ t, (x.held t).Nodup
  /-- A lock on its way in or out of a thread is not on the thread's list. -/
  apart : ∀ t l, (x.phase t).owned = some l → l ∉ x.held t
  clears : ∀ t l, x.phase t = .clears l → l ∈ x.held t
  holder : ∀ t l, x.holder l = some t ↔ l ∈ x.held t ∨ x.phase t = .marks l
  waiting : ∀ t, x.waiting t = (x.phase t).awaited
  unique : ∀ t t' l, x.Owns t l → x.Owns t' l → t = t'
  /-- The unit is there exactly when nobody has it. -/
  free : ∀ l, x.value l = 1 → ∀ t, ¬ x.Owns t l
  taken : ∀ l, x.value l ≠ 1 → x.value l = 0 ∧ ∃ t, x.Owns t l

namespace Exclusive

variable {x : Table T L}

theorem value_eq_one (h : Exclusive x) {l : L} (hv : 0 < x.value l) : x.value l = 1 := by
  by_contra hne
  rw [(h.taken l hne).1] at hv
  exact absurd hv (Nat.lt_irrefl 0)

/-- An owner shows that the unit is gone. -/
theorem value_eq_zero (h : Exclusive x) {t : T} {l : L} (ho : x.Owns t l) : x.value l = 0 := by
  by_cases h1 : x.value l = 1
  · exact absurd ho (h.free l h1 t)
  · exact (h.taken l h1).1

/-- The recorded holder is an owner. -/
theorem owns_of_holder (h : Exclusive x) {t : T} {l : L} (hh : x.holder l = some t) :
    x.Owns t l := by
  rcases (h.holder t l).mp hh with hmem | hph
  · exact .inl hmem
  · refine .inr ?_
    rw [hph]
    rfl

/-- A lock whose unit is there has no holder. -/
theorem holder_eq_none_of_value (h : Exclusive x) {l : L} (hv : x.value l = 1) :
    x.holder l = none := by
  by_contra hne
  obtain ⟨t, ht⟩ := Option.ne_none_iff_exists'.mp hne
  exact h.free l hv t (h.owns_of_holder ht)

/-- In the windows on the way in and out no holder is recorded. -/
theorem holder_eq_none (h : Exclusive x) {t : T} {l : L} (ho : (x.phase t).owned = some l)
    (hm : x.phase t ≠ .marks l) : x.holder l = none := by
  by_contra hne
  obtain ⟨u, hu⟩ := Option.ne_none_iff_exists'.mp hne
  obtain rfl := h.unique u t l (h.owns_of_holder hu) (.inr ho)
  rcases (h.holder u l).mp hu with hmem | hph
  · exact h.apart u l ho hmem
  · exact hm hph

variable {y : Table T L} {r : T}

/-- What a move of `r` has to respect, lock by lock: either `r` keeps what it has of the lock,
or it gets the unit of a lock that nobody has, or it gives the unit up; and the recorded holder
changes only to or from `r`, and only while `r` has the unit. -/
theorem of_local (h : Exclusive x)
    (hothers : ∀ t, t ≠ r → y.held t = x.held t ∧ y.phase t = x.phase t ∧ y.waiting t = x.waiting t)
    (hnodup : (y.held r).Nodup) (hapart : ∀ l, (y.phase r).owned = some l → l ∉ y.held r)
    (hclears : ∀ l, y.phase r = .clears l → l ∈ y.held r)
    (hwaiting : y.waiting r = (y.phase r).awaited)
    (hholder : ∀ l,
      (y.holder l = x.holder l ∧
        ((l ∈ y.held r ∨ y.phase r = .marks l) ↔ (l ∈ x.held r ∨ x.phase r = .marks l))) ∨
      (x.Owns r l ∧ y.holder l = some r ∧ (l ∈ y.held r ∨ y.phase r = .marks l)) ∨
      (x.Owns r l ∧ y.holder l = none ∧ ¬ (l ∈ y.held r ∨ y.phase r = .marks l)))
    (howns : ∀ l,
      (y.value l = x.value l ∧ (y.Owns r l ↔ x.Owns r l)) ∨
      (x.value l = 1 ∧ y.value l = 0 ∧ y.Owns r l) ∨
      (x.Owns r l ∧ y.value l = 1 ∧ ¬ y.Owns r l)) : Exclusive y := by
  have hother : ∀ t l, t ≠ r → (y.Owns t l ↔ x.Owns t l) := by
    intro t l ht
    unfold Table.Owns
    rw [(hothers t ht).1, (hothers t ht).2.1]
  -- while `r` has the unit, nobody else is near the lock
  have halone : ∀ t l, t ≠ r → x.Owns r l → ¬ (l ∈ x.held t ∨ x.phase t = .marks l) := by
    intro t l ht hr hm
    refine ht (h.unique t r l ?_ hr)
    exact h.owns_of_holder ((h.holder t l).mpr hm)
  refine ⟨?_, ?_, ?_, ?_, ?_, ?_, ?_, ?_⟩
  · intro t
    by_cases ht : t = r
    · rw [ht]
      exact hnodup
    · rw [(hothers t ht).1]
      exact h.nodup t
  · intro t l hl
    by_cases ht : t = r
    · rw [ht] at hl ⊢
      exact hapart l hl
    · rw [(hothers t ht).2.1] at hl
      rw [(hothers t ht).1]
      exact h.apart t l hl
  · intro t l hl
    by_cases ht : t = r
    · rw [ht] at hl ⊢
      exact hclears l hl
    · rw [(hothers t ht).2.1] at hl
      rw [(hothers t ht).1]
      exact h.clears t l hl
  · intro t l
    by_cases ht : t = r
    · rw [ht]
      rcases hholder l with ⟨hsame, hiff⟩ | ⟨-, hr, hm⟩ | ⟨-, hn, hm⟩
      · rw [hsame, hiff]
        exact h.holder r l
      · exact ⟨fun _ => hm, fun _ => hr⟩
      · exact ⟨fun hr => by rw [hn] at hr; exact absurd hr (by simp), fun hm' => absurd hm' hm⟩
    · rw [(hothers t ht).1, (hothers t ht).2.1]
      rcases hholder l with ⟨hsame, -⟩ | ⟨ho, hr, -⟩ | ⟨ho, hn, -⟩
      · rw [hsame]
        exact h.holder t l
      · rw [hr]
        exact ⟨fun heq => absurd (Option.some.inj heq).symm ht,
          fun hm => absurd hm (halone t l ht ho)⟩
      · rw [hn]
        exact ⟨fun heq => absurd heq (by simp), fun hm => absurd hm (halone t l ht ho)⟩
  · intro t
    by_cases ht : t = r
    · rw [ht]
      exact hwaiting
    · rw [(hothers t ht).2.1, (hothers t ht).2.2]
      exact h.waiting t
  · -- a second owner would have been one before, next to `r` or next to a unit
    have hone : ∀ t l, t ≠ r → y.Owns t l → y.Owns r l → False := by
      intro t l ht hto hro
      rw [hother t l ht] at hto
      rcases howns l with ⟨-, hiff⟩ | ⟨hv, -, -⟩ | ⟨-, -, hn⟩
      · exact ht (h.unique t r l hto (hiff.mp hro))
      · exact h.free l hv t hto
      · exact hn hro
    intro t t' l hto hto'
    by_cases ht : t = r <;> by_cases ht' : t' = r
    · rw [ht, ht']
    · exact (hone t' l ht' hto' (ht ▸ hto)).elim
    · exact (hone t l ht hto (ht' ▸ hto')).elim
    · exact h.unique t t' l ((hother t l ht).mp hto) ((hother t' l ht').mp hto')
  · intro l hv t hto
    rcases howns l with ⟨hsame, hiff⟩ | ⟨-, hv0, -⟩ | ⟨hro, -, hn⟩
    · rw [hsame] at hv
      by_cases ht : t = r
      · exact h.free l hv r (hiff.mp (ht ▸ hto))
      · exact h.free l hv t ((hother t l ht).mp hto)
    · rw [hv] at hv0
      cases hv0
    · by_cases ht : t = r
      · exact hn (ht ▸ hto)
      · exact ht (h.unique t r l ((hother t l ht).mp hto) hro)
  · intro l hv
    rcases howns l with ⟨hsame, hiff⟩ | ⟨-, hv0, hro⟩ | ⟨-, hv1, -⟩
    · rw [hsame] at hv ⊢
      obtain ⟨h0, t, hto⟩ := h.taken l hv
      refine ⟨h0, t, ?_⟩
      by_cases ht : t = r
      · rw [ht] at hto ⊢
        exact hiff.mpr hto
      · exact (hother t l ht).mpr hto
    · exact ⟨hv0, r, hro⟩
    · exact absurd hv1 hv

section Step

variable [DecidableEq T] [DecidableEq L]

omit [DecidableEq L] in
/-- A move that only changes the phase of `r`, and nothing of what `r` owns, awaits or marks. -/
theorem of_phase (h : Exclusive x) {p : Phase L} (howned : p.owned = (x.phase r).owned)
    (hawaited : p.awaited = (x.phase r).awaited) (hmarks : ∀ l, p = .marks l ↔ x.phase r = .marks l)
    (hclears : ∀ l, p = .clears l → l ∈ x.held r) :
    Exclusive { x with phase := update x.phase r p } := by
  refine h.of_local (r := r) (fun t ht => ⟨rfl, update_of_ne ht .., rfl⟩) (h.nodup r)
    ?_ ?_ ?_ (fun l => .inl ⟨rfl, ?_⟩) (fun l => .inl ⟨rfl, ?_⟩)
  · simpa only [update_self, howned] using h.apart r
  · simpa only [update_self] using hclears
  · simpa only [update_self, hawaited] using h.waiting r
  · simp only [update_self, hmarks l]
  · simp only [Table.Owns, update_self, howned]

/-- **Every move keeps mutual exclusion.** -/
theorem step (h : Exclusive x) {a : Label L} (hm : Move r x a y) : Exclusive y := by
  have hothers : ∀ (p : Phase L) (t : T), t ≠ r → update x.phase r p t = x.phase t :=
    fun p t ht => update_of_ne ht ..
  have happend : ∀ l, (x.phase r).owned = some l → (x.held r ++ [l]).Nodup := by
    intro l ho
    refine List.Nodup.append (h.nodup r) (List.nodup_singleton l) ?_
    intro l' hl' hmem
    rw [List.mem_singleton.mp hmem] at hl'
    exact h.apart r l ho hl'
  cases hm with
  | stay => exact h
  | @take l hfree hv =>
    have hnone : ¬ x.Owns r l := h.free l (h.value_eq_one hv) r
    refine h.of_local (r := r) (fun t ht => ⟨rfl, hothers _ t ht, rfl⟩) (h.nodup r) ?_ ?_ ?_
      (fun l' => .inl ⟨rfl, ?_⟩) (fun l' => ?_)
    · intro l' hl' hmem
      simp only [update_self] at hl'
      cases hl'
      exact hnone (.inl hmem)
    · intro l' hl'
      simp only [update_self] at hl'
      cases hl'
    · simp [h.waiting r, hfree, Phase.awaited]
    · simp [hfree]
    · by_cases hl : l' = l
      · subst hl
        refine .inr (.inl ⟨h.value_eq_one hv, ?_, .inr ?_⟩)
        · simp [h.value_eq_one hv]
        · simp [Phase.owned]
      · refine .inl ⟨by simp [hl], ?_⟩
        simp [Table.Owns, hfree, Phase.owned, Ne.symm hl]
  | @mark l hph =>
    have hown : x.Owns r l := .inr (by rw [hph]; rfl)
    refine h.of_local (r := r) (fun t ht => ⟨rfl, hothers _ t ht, rfl⟩) (h.nodup r) ?_ ?_ ?_
      (fun l' => ?_) (fun l' => .inl ⟨rfl, ?_⟩)
    · simpa [hph, Phase.owned] using h.apart r l (by rw [hph]; rfl)
    · simp
    · simp [h.waiting r, hph, Phase.awaited]
    · by_cases hl : l' = l
      · subst hl
        exact .inr (.inl ⟨hown, by simp, by simp⟩)
      · exact .inl ⟨by simp [hl], by simp [hph, Ne.symm hl]⟩
    · simp [Table.Owns, hph, Phase.owned]
  | @list l hph =>
    refine h.of_local (r := r)
      (fun t ht => ⟨update_of_ne ht .., hothers _ t ht, rfl⟩) ?_ ?_ ?_ ?_
      (fun l' => .inl ⟨rfl, ?_⟩) (fun l' => .inl ⟨rfl, ?_⟩)
    · simpa using happend l (by rw [hph]; rfl)
    · simp [Phase.owned]
    · simp
    · simp [h.waiting r, hph, Phase.awaited]
    · simp [hph, eq_comm]
    · simp [Table.Owns, hph, Phase.owned, eq_comm]
  | @wait l hph =>
    refine h.of_local (r := r)
      (fun t ht => ⟨rfl, hothers _ t ht, update_of_ne ht ..⟩) (h.nodup r) ?_ ?_ ?_
      (fun l' => .inl ⟨rfl, ?_⟩) (fun l' => .inl ⟨rfl, ?_⟩)
    · simp [Phase.owned]
    · simp
    · simp [Phase.awaited]
    · simp [hph]
    · simp [Table.Owns, hph, Phase.owned]
  | @wake l hph hv =>
    have hnone : ¬ x.Owns r l := h.free l (h.value_eq_one hv) r
    refine h.of_local (r := r) (fun t ht => ⟨rfl, hothers _ t ht, rfl⟩) (h.nodup r) ?_ ?_ ?_
      (fun l' => .inl ⟨rfl, ?_⟩) (fun l' => ?_)
    · intro l' hl' hmem
      simp only [update_self] at hl'
      cases hl'
      exact hnone (.inl hmem)
    · simp
    · simp [h.waiting r, hph, Phase.awaited]
    · simp [hph]
    · by_cases hl : l' = l
      · subst hl
        refine .inr (.inl ⟨h.value_eq_one hv, ?_, .inr ?_⟩)
        · simp [h.value_eq_one hv]
        · simp [Phase.owned]
      · refine .inl ⟨by simp [hl], ?_⟩
        simp [Table.Owns, hph, Phase.owned, Ne.symm hl]
  | @enter l hph =>
    have hown : x.Owns r l := .inr (by rw [hph]; rfl)
    refine h.of_local (r := r)
      (fun t ht => ⟨update_of_ne ht .., hothers _ t ht, update_of_ne ht ..⟩)
      ?_ ?_ ?_ ?_ (fun l' => ?_) (fun l' => .inl ⟨rfl, ?_⟩)
    · simpa using happend l (by rw [hph]; rfl)
    · simp [Phase.owned]
    · simp
    · simp [Phase.awaited]
    · by_cases hl : l' = l
      · subst hl
        exact .inr (.inl ⟨hown, by simp, by simp⟩)
      · exact .inl ⟨by simp [hl], by simp [hph, hl]⟩
    · simp [Table.Owns, hph, Phase.owned, eq_comm]
  | @leave l hph hh =>
    refine h.of_phase (by rw [hph]; rfl) (by rw [hph]; rfl) (fun l' => by simp [hph]) ?_
    intro l' hl'
    obtain rfl := Phase.clears.inj hl'
    rcases (h.holder r l).mp hh with hmem | hm
    · exact hmem
    · rw [hph] at hm
      cases hm
  | @clear l hph =>
    have hmem : l ∈ x.held r := h.clears r l hph
    refine h.of_local (r := r)
      (fun t ht => ⟨update_of_ne ht .., hothers _ t ht, rfl⟩) ?_ ?_ ?_ ?_
      (fun l' => ?_) (fun l' => .inl ⟨rfl, ?_⟩)
    · simpa using (h.nodup r).erase l
    · intro l' hl'
      simp only [update_self] at hl' ⊢
      cases hl'
      exact List.Nodup.not_mem_erase (h.nodup r)
    · simp
    · simp [h.waiting r, hph, Phase.awaited]
    · by_cases hl : l' = l
      · subst hl
        refine .inr (.inr ⟨.inl hmem, by simp, ?_⟩)
        simpa using List.Nodup.not_mem_erase (h.nodup r)
      · exact .inl ⟨by simp [hl], by simp [hph, List.mem_erase_of_ne hl]⟩
    · by_cases hl : l' = l
      · subst hl
        simp [Table.Owns, Phase.owned, hmem]
      · simp [Table.Owns, hph, Phase.owned, List.mem_erase_of_ne hl, Ne.symm hl]
  | @give l hph =>
    have hown : x.Owns r l := .inr (by rw [hph]; rfl)
    refine h.of_local (r := r) (fun t ht => ⟨rfl, hothers _ t ht, rfl⟩) (h.nodup r) ?_ ?_ ?_
      (fun l' => .inl ⟨rfl, ?_⟩) (fun l' => ?_)
    · simp [Phase.owned]
    · simp
    · simp [h.waiting r, hph, Phase.awaited]
    · simp [hph]
    · by_cases hl : l' = l
      · subst hl
        refine .inr (.inr ⟨hown, by simp [h.value_eq_zero hown], ?_⟩)
        have hnot := h.apart r l' (by rw [hph]; rfl)
        simp [Table.Owns, Phase.owned, hnot]
      · exact .inl ⟨by simp [hl], by simp [Table.Owns, hph, Phase.owned, Ne.symm hl]⟩

end Step

end Exclusive

/-! ### Who owns a lock after a move -/

section Owners

variable [DecidableEq T] [DecidableEq L] {x y : Table T L} {r : T}

/-- The holder of a lock stays its holder while others move. -/
theorem Move.holder_of_ne (h : Exclusive x) {a : Label L} (hm : Move r x a y) {t : T} {l : L}
    (ht : t ≠ r) (hh : x.holder l = some t) : y.holder l = some t := by
  -- a thread that changes the holder owns the lock
  have hother : ∀ l₀, x.Owns r l₀ → l ≠ l₀ := by
    rintro l₀ hown rfl
    exact ht (h.unique t r l (h.owns_of_holder hh) hown)
  cases hm with
  | @mark l₀ hph | @enter l₀ hph =>
    have hl := hother l₀ (.inr (by rw [hph]; rfl))
    exact (update_of_ne hl ..).trans hh
  | @clear l₀ hph =>
    have hl := hother l₀ (.inl (h.clears r l₀ hph))
    exact (update_of_ne hl ..).trans hh
  | _ => exact hh

/-- A move that takes or gives no unit keeps the owners. -/
theorem Move.owns_silent (h : Exclusive x) (hm : Move r x .silent y) (t : T) (l : L) :
    y.Owns t l ↔ x.Owns t l := by
  unfold Table.Owns
  by_cases ht : t = r
  · subst ht
    cases hm with
    | stay => rfl
    | @clear l₀ hph =>
      -- the lock that leaves the list is owned by phase from here on
      have hmem := h.clears t l₀ hph
      by_cases hl : l = l₀
      · subst hl
        simp [Phase.owned, hmem]
      · simp [hph, Phase.owned, List.mem_erase_of_ne hl, Ne.symm hl]
    | mark hph | list hph | wait hph | enter hph | leave hph => simp [hph, Phase.owned, eq_comm]
  · cases hm <;> simp [ht]

/-- A move that takes the unit of a lock makes its thread an owner, and of nothing else. -/
theorem Move.owns_down {l₀ : L} (hm : Move r x (.down l₀) y) :
    0 < x.value l₀ ∧ ∀ t l, y.Owns t l ↔ x.Owns t l ∨ (t = r ∧ l = l₀) := by
  unfold Table.Owns
  cases hm with
  | take hph hv | wake hph hv =>
    refine ⟨hv, fun t l => ?_⟩
    by_cases ht : t = r
    · subst ht
      simp [hph, Phase.owned, eq_comm]
    · simp [ht]

/-- A move that gives the unit of a lock ends its thread's ownership of it. -/
theorem Move.owns_up (h : Exclusive x) {l₀ : L} (hm : Move r x (.up l₀) y) :
    x.Owns r l₀ ∧ ∀ t l, y.Owns t l ↔ x.Owns t l ∧ ¬ (t = r ∧ l = l₀) := by
  unfold Table.Owns
  cases hm with
  | give hph =>
    have hnot := h.apart r l₀ (by rw [hph]; rfl)
    refine ⟨.inr (by rw [hph]; rfl), fun t l => ?_⟩
    by_cases ht : t = r
    · subst ht
      by_cases hl : l = l₀
      · subst hl
        simp [Phase.owned, hnot]
      · simp [hph, Phase.owned, hl, Ne.symm hl]
    · simp [ht]

end Owners

end LockTable
