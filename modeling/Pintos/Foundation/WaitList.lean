import Mathlib.Data.List.Count

/-!
# Condition variables

An abstract condition variable: a list of waiters, each with a counter of its own. A thread that
waits puts itself on the list and then waits for its counter. A thread that signals looks through
the list, takes one waiter off it and then adds one to that waiter's counter. None of this is one
action, and other threads run in between; what is asked is that at most one thread at a time is
between looking at a list and changing it.

* `Phase` — where a thread is in this; `Move r x a y` — thread `r` takes `x` to `y`, and the label
  `a` tells the moves that matter;
* `Stage` — what has become of a wait: the thread is on a list, has been taken off it, or has its
  unit; `State.At` says what each stage looks like, and that it is that stage alone;
* `Sound.step` — every move keeps every thread in one stage, and `At.step` says which moves take a
  thread from which stage to which;
* `Story` — so the moves that concern one waiter come in one order, over and over: it joins a
  list, is removed, gets its unit, takes it.
-/

namespace WaitList

open Function List

variable {T C : Type}

/-- Where a thread is. -/
inductive Phase (T C : Type) where
  | out
  /-- It is going to put itself on the list. -/
  | joins (c : C)
  /-- It has put itself on the list and not got its unit yet. -/
  | waits
  /-- It is going to look whether the list is empty. -/
  | tests (c : C)
  /-- It looks for a waiter to signal. -/
  | scans (c : C) (best : T) (rest : List T)
  /-- It has found one. -/
  | removes (c : C) (w : T)
  /-- It has taken the waiter off the list. -/
  | posts (w : T)

/-- The list that the thread is about to look at or to change. -/
def Phase.inside : Phase T C → Option C
  | .joins c | .tests c | .scans c _ _ | .removes c _ => some c
  | _ => none

/-- The lists, the counters and the threads. -/
@[ext]
structure State (T C : Type) where
  list : C → List T
  value : T → ℕ
  phase : T → Phase T C

/-- What a move does, as far as signals are concerned. -/
inductive Label (T C : Type) where
  | silent
  | join
  /-- A look at a list that is not empty. -/
  | look (c : C)
  | remove (c : C) (w : T)
  | post (w : T)
  | take

section Moves

variable [DecidableEq T] [DecidableEq C]

/-- Thread `r` goes to phase `p`. -/
def State.goto (x : State T C) (r : T) (p : Phase T C) : State T C :=
  { x with phase := update x.phase r p }

/-- The moves of thread `r`. -/
inductive Move (r : T) (x : State T C) : Label T C → State T C → Prop where
  | stay : Move r x .silent x
  | enter {p c} : x.phase r = .out → p = .joins c ∨ p = .tests c →
      (∀ t, (x.phase t).inside ≠ some c) → Move r x .silent (x.goto r p)
  | leave {c} : x.phase r = .tests c → x.list c = [] → Move r x .silent (x.goto r .out)
  | look {c w ws} : x.phase r = .tests c → x.list c = w :: ws →
      Move r x (.look c) (x.goto r (.scans c w ws))
  | scan {c b b' w ws} : x.phase r = .scans c b (w :: ws) → b' = b ∨ b' = w →
      Move r x .silent (x.goto r (.scans c b' ws))
  | pick {c b} : x.phase r = .scans c b [] → Move r x .silent (x.goto r (.removes c b))
  | remove {c w} : x.phase r = .removes c w → Move r x (.remove c w)
      { x with
        phase := update x.phase r (.posts w)
        list := update x.list c ((x.list c).erase w) }
  | post {w} : x.phase r = .posts w → Move r x (.post w)
      { x with
        phase := update x.phase r .out
        value := update x.value w (x.value w + 1) }
  | join {c} : x.phase r = .joins c → Move r x .join
      { phase := update x.phase r .waits
        list := update x.list c (x.list c ++ [r])
        value := update x.value r 0 }
  | take : x.phase r = .waits → 0 < x.value r → Move r x .take
      { x with
        phase := update x.phase r .out
        value := update x.value r (x.value r - 1) }

/-! ### The stages of a wait -/

/-- What has become of a thread's wait. -/
inductive Stage where
  /-- It does not wait. -/
  | away
  /-- It is on a list. -/
  | listed
  /-- It has been taken off the list, and its unit is on the way. -/
  | called
  /-- It has its unit. -/
  | signalled
  deriving DecidableEq

/-- What the state looks like for a thread in a stage. -/
def State.At (x : State T C) (t : T) : Stage → Prop
  | .away => x.phase t ≠ .waits ∧ (∀ c, t ∉ x.list c) ∧ (∀ u, x.phase u ≠ .posts t) ∧ x.value t = 0
  | .listed => x.phase t = .waits ∧
      (∃ c, (x.list c).count t = 1 ∧ ∀ c', c' ≠ c → t ∉ x.list c') ∧
      (∀ u, x.phase u ≠ .posts t) ∧ x.value t = 0
  | .called => x.phase t = .waits ∧ (∀ c, t ∉ x.list c) ∧
      (∃ u, ∀ u', x.phase u' = .posts t ↔ u' = u) ∧ x.value t = 0
  | .signalled => x.phase t = .waits ∧ (∀ c, t ∉ x.list c) ∧ (∀ u, x.phase u ≠ .posts t) ∧
      x.value t = 1

/-- What can happen to a waiter. -/
inductive Event where
  | join
  | remove
  | post
  | take
  deriving DecidableEq

/-- What a move of thread `r` means to the waiter `w`. -/
def Label.event (r w : T) : Label T C → Option Event
  | .silent | .look _ => none
  | .join => if r = w then some .join else none
  | .remove _ w' => if w' = w then some .remove else none
  | .post w' => if w' = w then some .post else none
  | .take => if r = w then some .take else none

/-- Where an event takes a waiter. -/
inductive Stage.Next : Stage → Option Event → Stage → Prop where
  | stay {s} : Next s none s
  | join : Next .away (some .join) .listed
  | remove : Next .listed (some .remove) .called
  | post : Next .called (some .post) .signalled
  | take : Next .signalled (some .take) .away

/-- **The life of a waiter**, the latest event first: it joins, is removed, gets its unit, takes
it, and joins again. -/
inductive Story : Stage → List Event → Prop where
  | start : Story .away []
  | join {es} : Story .away es → Story .listed (.join :: es)
  | remove {es} : Story .listed es → Story .called (.remove :: es)
  | post {es} : Story .called es → Story .signalled (.post :: es)
  | take {es} : Story .signalled es → Story .away (.take :: es)

theorem Story.next {s s' : Stage} {es : List Event} {ev : Option Event} (h : Story s es)
    (hn : s.Next ev s') : Story s' (ev.toList ++ es) := by
  cases hn with
  | stay => exact h
  | join => exact h.join
  | remove => exact h.remove
  | post => exact h.post
  | take => exact h.take

/-! ### The invariant -/

/-- Every thread is in one stage, and whoever looks at a list is alone with it. -/
structure Sound (x : State T C) : Prop where
  alone : ∀ t u c, (x.phase t).inside = some c → (x.phase u).inside = some c → t = u
  scans : ∀ t c b rest, x.phase t = .scans c b rest → b ∈ x.list c ∧ ∀ w ∈ rest, w ∈ x.list c
  removes : ∀ t c w, x.phase t = .removes c w → w ∈ x.list c
  stage : ∀ t, ∃ s, x.At t s

section Keep

variable {x y : State T C} {r t w : T} {c : C} {s : Stage} {a : Label T C}

omit [DecidableEq C] in
/-- A thread on a list is in the stage `listed`. -/
theorem State.At.of_mem (h : x.At t s) (hmem : t ∈ x.list c) : s = .listed := by
  cases s with
  | listed => rfl
  | away => exact absurd hmem (h.2.1 c)
  | called => exact absurd hmem (h.2.1 c)
  | signalled => exact absurd hmem (h.2.1 c)

omit [DecidableEq C] in
/-- A thread whose unit is on the way is in the stage `called`. -/
theorem State.At.of_posts (h : x.At t s) (hpost : x.phase r = .posts t) : s = .called := by
  cases s with
  | called => rfl
  | away => exact absurd hpost (h.2.2.1 r)
  | listed => exact absurd hpost (h.2.2.1 r)
  | signalled => exact absurd hpost (h.2.2.1 r)

omit [DecidableEq C] in
/-- A thread that does not wait is away. -/
theorem State.At.of_not_waits (h : x.At t s) (hph : x.phase t ≠ .waits) : s = .away := by
  cases s with
  | away => rfl
  | listed => exact absurd h.1 hph
  | called => exact absurd h.1 hph
  | signalled => exact absurd h.1 hph

omit [DecidableEq C] in
/-- A move that leaves the thread, its counter, its place on the lists and its posters alone. -/
theorem State.At.frame (h : x.At t s) (hwaits : y.phase t = .waits ↔ x.phase t = .waits)
    (hcount : ∀ c, (y.list c).count t = (x.list c).count t)
    (hposts : ∀ u, y.phase u = .posts t ↔ x.phase u = .posts t) (hvalue : y.value t = x.value t) :
    y.At t s := by
  have hmem : ∀ c, t ∉ y.list c ↔ t ∉ x.list c := by
    intro c
    rw [← count_eq_zero, ← count_eq_zero, hcount]
  cases s with
  | away =>
    obtain ⟨hph, hlist, hpost, hv⟩ := h
    exact ⟨fun hw => hph (hwaits.mp hw), fun c => (hmem c).mpr (hlist c),
      fun u hu => hpost u ((hposts u).mp hu), hvalue.trans hv⟩
  | listed =>
    obtain ⟨hph, ⟨c, hone, hother⟩, hpost, hv⟩ := h
    exact ⟨hwaits.mpr hph, ⟨c, (hcount c).trans hone, fun c' hc => (hmem c').mpr (hother c' hc)⟩,
      fun u hu => hpost u ((hposts u).mp hu), hvalue.trans hv⟩
  | called =>
    obtain ⟨hph, hlist, ⟨u, hu⟩, hv⟩ := h
    exact ⟨hwaits.mpr hph, fun c => (hmem c).mpr (hlist c),
      ⟨u, fun u' => (hposts u').trans (hu u')⟩, hvalue.trans hv⟩
  | signalled =>
    obtain ⟨hph, hlist, hpost, hv⟩ := h
    exact ⟨hwaits.mpr hph, fun c => (hmem c).mpr (hlist c),
      fun u hu => hpost u ((hposts u).mp hu), hvalue.trans hv⟩

/-- A phase that is neither that of a waiter nor that of a poster. -/
def Phase.plain : Phase T C → Bool
  | .waits | .posts _ => false
  | _ => true

omit [DecidableEq T] [DecidableEq C] in
theorem Phase.ne_of_plain {p : Phase T C} (h : p.plain = true) (t : T) :
    p ≠ .waits ∧ p ≠ .posts t := by
  constructor <;> rintro rfl <;> exact absurd h Bool.false_ne_true

omit [DecidableEq C] in
/-- Who is in phase `q` after `r` has gone from a phase that is not `q` to another. -/
theorem State.phase_goto_iff {p q : Phase T C} (hold : x.phase r ≠ q) (hnew : p ≠ q) (u : T) :
    update x.phase r p u = q ↔ x.phase u = q := by
  by_cases hu : u = r
  · rw [hu, update_self]
    exact iff_of_false hnew hold
  · rw [update_of_ne hu]

omit [DecidableEq C] in
/-- A move between plain phases changes nobody's stage. -/
theorem State.At.goto {p : Phase T C} (h : x.At t s) (hold : (x.phase r).plain = true)
    (hnew : p.plain = true) : (x.goto r p).At t s := by
  obtain ⟨hold₁, hold₂⟩ := Phase.ne_of_plain hold t
  obtain ⟨hnew₁, hnew₂⟩ := Phase.ne_of_plain hnew t
  exact h.frame (State.phase_goto_iff hold₁ hnew₁ t) (fun _ => rfl)
    (State.phase_goto_iff hold₂ hnew₂) rfl

/-- A waiter is taken off its list. -/
theorem State.At.remove (hx : Sound x) (hph : x.phase r = .removes c w) (h : x.At t s) :
    ∃ s', s.Next (Label.event r t (.remove c w : Label T C)) s' ∧
      State.At { x with
        phase := update x.phase r (.posts w)
        list := update x.list c ((x.list c).erase w) } t s' := by
  have hmem : w ∈ x.list c := hx.removes r c w hph
  have hwaits : update x.phase r (.posts w) t = .waits ↔ x.phase t = .waits :=
    State.phase_goto_iff (by rw [hph]; simp) (by simp) t
  by_cases hw : w = t
  · subst hw
    obtain rfl := h.of_mem hmem
    obtain ⟨hw, ⟨c', hone, hother⟩, hpost, hv⟩ := h
    obtain rfl : c' = c := by
      by_contra hne
      exact hother c (Ne.symm hne) hmem
    refine ⟨.called, by rw [Label.event, if_pos rfl]; exact .remove, hwaits.mpr hw, ?_,
      ⟨r, fun u => ?_⟩, hv⟩
    · intro c''
      change w ∉ update x.list c' ((x.list c').erase w) c''
      by_cases hc : c'' = c'
      · subst hc
        rw [update_self, ← count_eq_zero, count_erase_self, hone]
      · rw [update_of_ne hc]
        exact hother c'' hc
    · change update x.phase r (.posts w) u = .posts w ↔ u = r
      by_cases hu : u = r
      · rw [hu, update_self]
        exact iff_of_true rfl rfl
      · rw [update_of_ne hu]
        exact iff_of_false (hpost u) hu
  · have hposts : ∀ u, update x.phase r (.posts w) u = .posts t ↔ x.phase u = .posts t :=
      State.phase_goto_iff (by rw [hph]; simp) fun heq => hw (Phase.posts.inj heq)
    refine ⟨s, by rw [Label.event, if_neg hw]; exact .stay, h.frame hwaits (fun c' => ?_) hposts rfl⟩
    change (update x.list c ((x.list c).erase w) c').count t = _
    by_cases hc : c' = c
    · rw [hc, update_self]
      exact count_erase_of_ne (Ne.symm hw)
    · rw [update_of_ne hc]

omit [DecidableEq C] in
/-- A waiter gets its unit. -/
theorem State.At.post (hph : x.phase r = .posts w) (h : x.At t s) :
    ∃ s', s.Next (Label.event r t (.post w : Label T C)) s' ∧
      State.At { x with
        phase := update x.phase r .out
        value := update x.value w (x.value w + 1) } t s' := by
  have hwaits : update x.phase r .out t = .waits ↔ x.phase t = .waits :=
    State.phase_goto_iff (by rw [hph]; simp) (by simp) t
  by_cases hw : w = t
  · subst hw
    obtain rfl := h.of_posts hph
    obtain ⟨hw, hlist, ⟨u, hu⟩, hv⟩ := h
    obtain rfl := (hu r).mp hph
    refine ⟨.signalled, by rw [Label.event, if_pos rfl]; exact .post, hwaits.mpr hw, hlist,
      fun u' => ?_, ?_⟩
    · change update x.phase r .out u' ≠ .posts w
      by_cases hur : u' = r
      · rw [hur, update_self]
        simp
      · rw [update_of_ne hur]
        exact fun hpost => hur ((hu u').mp hpost)
    · change update x.value w (x.value w + 1) w = 1
      rw [update_self, hv]
  · have hposts : ∀ u, update x.phase r .out u = .posts t ↔ x.phase u = .posts t :=
      State.phase_goto_iff (by rw [hph]; exact fun heq => hw (Phase.posts.inj heq)) (by simp)
    exact ⟨s, by rw [Label.event, if_neg hw]; exact .stay, h.frame hwaits (fun _ => rfl) hposts
      (update_of_ne (Ne.symm hw) ..)⟩

/-- A thread puts itself on a list. -/
theorem State.At.join (hph : x.phase r = .joins c) (h : x.At t s) :
    ∃ s', s.Next (Label.event r t (.join : Label T C)) s' ∧
      State.At { phase := update x.phase r .waits
                 list := update x.list c (x.list c ++ [r])
                 value := update x.value r 0 : State T C } t s' := by
  have hposts : ∀ u, update x.phase r .waits u = .posts t ↔ x.phase u = .posts t :=
    State.phase_goto_iff (by rw [hph]; simp) (by simp)
  by_cases ht : r = t
  · subst ht
    obtain rfl := h.of_not_waits (by rw [hph]; simp)
    obtain ⟨-, hlist, hpost, -⟩ := h
    refine ⟨.listed, by rw [Label.event, if_pos rfl]; exact .join, update_self .., ⟨c, ?_, ?_⟩,
      fun u hu => hpost u ((hposts u).mp hu), update_self ..⟩
    · change (update x.list c (x.list c ++ [r]) c).count r = 1
      rw [update_self, count_append, count_eq_zero.mpr (hlist c)]
      simp
    · intro c' hc
      change r ∉ update x.list c (x.list c ++ [r]) c'
      rw [update_of_ne hc]
      exact hlist c'
  · refine ⟨s, by rw [Label.event, if_neg ht]; exact .stay, h.frame ?_ (fun c' => ?_) hposts
      (update_of_ne (Ne.symm ht) ..)⟩
    · change update x.phase r .waits t = .waits ↔ _
      rw [update_of_ne (Ne.symm ht)]
    · change (update x.list c (x.list c ++ [r]) c').count t = _
      by_cases hc : c' = c
      · rw [hc, update_self, count_append, count_singleton]
        simp [ht]
      · rw [update_of_ne hc]

omit [DecidableEq C] in
/-- A thread takes its unit. -/
theorem State.At.take (hph : x.phase r = .waits) (hv : 0 < x.value r) (h : x.At t s) :
    ∃ s', s.Next (Label.event r t (.take : Label T C)) s' ∧
      State.At { x with
        phase := update x.phase r .out
        value := update x.value r (x.value r - 1) } t s' := by
  have hposts : ∀ u, update x.phase r .out u = .posts t ↔ x.phase u = .posts t :=
    State.phase_goto_iff (by rw [hph]; simp) (by simp)
  by_cases ht : r = t
  · subst ht
    obtain rfl : s = .signalled := by
      cases s with
      | signalled => rfl
      | away => exact absurd hph h.1
      | listed | called =>
        rw [h.2.2.2] at hv
        exact absurd hv (Nat.lt_irrefl 0)
    obtain ⟨-, hlist, hpost, hone⟩ := h
    refine ⟨.away, by rw [Label.event, if_pos rfl]; exact .take, ?_, hlist,
      fun u hu => hpost u ((hposts u).mp hu), ?_⟩
    · change update x.phase r .out r ≠ .waits
      rw [update_self]
      simp
    · change update x.value r (x.value r - 1) r = 0
      rw [update_self, hone]
  · refine ⟨s, by rw [Label.event, if_neg ht]; exact .stay, h.frame ?_ (fun _ => rfl) hposts
      (update_of_ne (Ne.symm ht) ..)⟩
    change update x.phase r .out t = .waits ↔ _
    rw [update_of_ne (Ne.symm ht)]

/-- **What a move does to a waiter**: nothing, or the next event of its life. -/
theorem State.At.step (hx : Sound x) (hm : Move r x a y) (h : x.At t s) :
    ∃ s', s.Next (a.event r t) s' ∧ y.At t s' := by
  cases hm with
  | stay => exact ⟨s, .stay, h⟩
  | enter hph hp =>
    refine ⟨s, .stay, h.goto (by rw [hph]; rfl) ?_⟩
    rcases hp with rfl | rfl <;> rfl
  | leave hph => exact ⟨s, .stay, h.goto (by rw [hph]; rfl) rfl⟩
  | look hph => exact ⟨s, .stay, h.goto (by rw [hph]; rfl) rfl⟩
  | scan hph => exact ⟨s, .stay, h.goto (by rw [hph]; rfl) rfl⟩
  | pick hph => exact ⟨s, .stay, h.goto (by rw [hph]; rfl) rfl⟩
  | remove hph => exact h.remove hx hph
  | post hph => exact h.post hph
  | join hph => exact h.join hph
  | take hph hv => exact h.take hph hv

/-- A move of `r` leaves the phases of the other threads alone. -/
theorem Move.phase_of_ne (hm : Move r x a y) (ht : t ≠ r) : y.phase t = x.phase t := by
  cases hm with
  | stay => rfl
  | _ => exact update_of_ne ht ..

/-- A list is changed by a thread that is inside it. -/
theorem Move.list_eq (hm : Move r x a y) (hc : (x.phase r).inside ≠ some c) :
    y.list c = x.list c := by
  cases hm with
  | @remove c' w hph | @join c' hph =>
    have hne : c ≠ c' := by
      rintro rfl
      rw [hph] at hc
      exact hc rfl
    exact update_of_ne hne ..
  | _ => rfl

/-- The list a thread is inside of after its move: none, the one it was inside of before, or one
that nobody was. -/
theorem Move.inside_self (hm : Move r x a y) : (y.phase r).inside = none ∨
    (y.phase r).inside = (x.phase r).inside ∨
    ∃ c, (y.phase r).inside = some c ∧ ∀ t, (x.phase t).inside ≠ some c := by
  cases hm with
  | stay => exact .inr (.inl rfl)
  | @enter p c hph hp hnone =>
    refine .inr (.inr ⟨c, ?_, hnone⟩)
    change (update x.phase r p r).inside = _
    rw [update_self]
    rcases hp with rfl | rfl <;> rfl
  | leave hph | post hph | remove hph | join hph | take hph =>
    left
    change (update x.phase r _ r).inside = none
    rw [update_self]
    rfl
  | look hph | scan hph | pick hph =>
    right; left
    change (update x.phase r _ r).inside = _
    rw [update_self, hph]
    rfl

/-- What the moving thread has found is on the list. -/
theorem Move.found_self (hx : Sound x) (hm : Move r x a y) :
    (∀ c b rest, y.phase r = .scans c b rest → b ∈ y.list c ∧ ∀ w ∈ rest, w ∈ y.list c) ∧
      ∀ c w, y.phase r = .removes c w → w ∈ y.list c := by
  have hplain : ∀ p : Phase T C, (∀ c b rest, p ≠ .scans c b rest) → (∀ c w, p ≠ .removes c w) →
      (∀ c b rest, update x.phase r p r = .scans c b rest →
        b ∈ y.list c ∧ ∀ w ∈ rest, w ∈ y.list c) ∧
      ∀ c w, update x.phase r p r = .removes c w → w ∈ y.list c := by
    intro p hs hr
    rw [update_self]
    exact ⟨fun c b rest h => absurd h (hs c b rest), fun c w h => absurd h (hr c w)⟩
  cases hm with
  | stay => exact ⟨hx.scans r, hx.removes r⟩
  | enter hph hp => exact hplain _ (by rcases hp with rfl | rfl <;> simp) (by rcases hp with rfl | rfl <;> simp)
  | leave | remove | post | join | take => exact hplain _ (by simp) (by simp)
  | @look c w ws hph hlist =>
    refine ⟨fun c' b rest h => ?_, fun c' b h => ?_⟩
    · change update x.phase r _ r = _ at h
      rw [update_self] at h
      obtain ⟨rfl, rfl, rfl⟩ := Phase.scans.inj h
      change w ∈ x.list c ∧ ∀ w' ∈ ws, w' ∈ x.list c
      rw [hlist]
      exact ⟨mem_cons_self, fun w' hw' => mem_cons_of_mem _ hw'⟩
    · change update x.phase r _ r = _ at h
      rw [update_self] at h
      cases h
  | @scan c b b' w ws hph hb =>
    obtain ⟨hbest, hrest⟩ := hx.scans r c b (w :: ws) hph
    refine ⟨fun c' b'' rest h => ?_, fun c' b'' h => ?_⟩
    · change update x.phase r _ r = _ at h
      rw [update_self] at h
      obtain ⟨rfl, rfl, rfl⟩ := Phase.scans.inj h
      refine ⟨?_, fun w' hw' => hrest w' (mem_cons_of_mem _ hw')⟩
      rcases hb with rfl | rfl
      · exact hbest
      · exact hrest _ mem_cons_self
    · change update x.phase r _ r = _ at h
      rw [update_self] at h
      cases h
  | @pick c b hph =>
    refine ⟨fun c' b' rest h => ?_, fun c' w h => ?_⟩
    · change update x.phase r _ r = _ at h
      rw [update_self] at h
      cases h
    · change update x.phase r _ r = _ at h
      rw [update_self] at h
      obtain ⟨rfl, rfl⟩ := Phase.removes.inj h
      exact (hx.scans r c b [] hph).1

/-- **Every move keeps the invariant.** -/
theorem Sound.step (hx : Sound x) (hm : Move r x a y) : Sound y := by
  have hother : ∀ t c, t ≠ r → (x.phase t).inside = some c → y.list c = x.list c :=
    fun t c ht hin => hm.list_eq fun hr => ht (hx.alone t r c hin hr)
  -- nobody else is inside the list that `r` is inside of now
  have hone : ∀ t c, t ≠ r → (y.phase t).inside = some c → (y.phase r).inside ≠ some c := by
    intro t c ht hin hr
    rw [hm.phase_of_ne ht] at hin
    rcases hm.inside_self with hnone | hsame | ⟨c', hc', hfree⟩
    · rw [hnone] at hr
      cases hr
    · exact ht (hx.alone t r c hin (hsame ▸ hr))
    · rw [hc'] at hr
      cases hr
      exact hfree t hin
  refine ⟨fun t u c ht hu => ?_, fun t c b rest ht => ?_, fun t c w ht => ?_, fun t => ?_⟩
  · by_cases htr : t = r
    · by_cases hur : u = r
      · rw [htr, hur]
      · exact absurd (htr ▸ ht) (hone u c hur hu)
    · by_cases hur : u = r
      · exact absurd (hur ▸ hu) (hone t c htr ht)
      · rw [hm.phase_of_ne htr] at ht
        rw [hm.phase_of_ne hur] at hu
        exact hx.alone t u c ht hu
  · by_cases htr : t = r
    · exact (hm.found_self hx).1 c b rest (htr ▸ ht)
    · rw [hm.phase_of_ne htr] at ht
      rw [hother t c htr (by rw [ht]; rfl)]
      exact hx.scans t c b rest ht
  · by_cases htr : t = r
    · exact (hm.found_self hx).2 c w (htr ▸ ht)
    · rw [hm.phase_of_ne htr] at ht
      rw [hother t c htr (by rw [ht]; rfl)]
      exact hx.removes t c w ht
  · obtain ⟨s, hs⟩ := hx.stage t
    obtain ⟨s', -, hs'⟩ := hs.step hx hm
    exact ⟨s', hs'⟩

/-- A waiter's life goes on. -/
theorem Story.step (hx : Sound x) (hm : Move r x a y) {es : List Event} (hat : x.At t s)
    (h : Story s es) : ∃ s', Story s' ((a.event r t).toList ++ es) ∧ y.At t s' := by
  obtain ⟨s', hn, hat'⟩ := hat.step hx hm
  exact ⟨s', h.next hn, hat'⟩

end Keep

/-! ### What a signaller does -/

/-- Where a thread is between looking at a list and giving the unit. -/
inductive Signalling (T C : Type) where
  | idle
  | looking (c : C)
  | posting (w : T)

def Phase.signalling : Phase T C → Signalling T C
  | .scans c _ _ | .removes c _ => .looking c
  | .posts w => .posting w
  | _ => .idle

/-- The moves of a thread that signals. -/
inductive Deed (T C : Type) where
  | look (c : C)
  | remove (c : C) (w : T)
  | post (w : T)

def Label.deed : Label T C → Option (Deed T C)
  | .look c => some (.look c)
  | .remove c w => some (.remove c w)
  | .post w => some (.post w)
  | _ => none

/-- **What a thread does that signals**, the latest first: it finds waiters on a list, takes one
off that list, and gives the unit to that one. -/
inductive Deeds : Signalling T C → List (Deed T C) → Prop where
  | start : Deeds .idle []
  | look {c ds} : Deeds .idle ds → Deeds (.looking c) (.look c :: ds)
  | remove {c w ds} : Deeds (.looking c) ds → Deeds (.posting w) (.remove c w :: ds)
  | post {w ds} : Deeds (.posting w) ds → Deeds .idle (.post w :: ds)

theorem Deeds.step {x y : State T C} {r : T} {a : Label T C} {ds : List (Deed T C)}
    (hm : Move r x a y) (h : Deeds (x.phase r).signalling ds) :
    Deeds (y.phase r).signalling (a.deed.toList ++ ds) := by
  cases hm with
  | stay => exact h
  | enter hph hp =>
    rw [hph] at h
    change Deeds (update x.phase r _ r).signalling ds
    rw [update_self]
    rcases hp with rfl | rfl <;> exact h
  | leave hph | join hph | take hph | scan hph | pick hph =>
    rw [hph] at h
    change Deeds (update x.phase r _ r).signalling ds
    rw [update_self]
    exact h
  | @look c w ws hph =>
    rw [hph] at h
    change Deeds (update x.phase r _ r).signalling (.look c :: ds)
    rw [update_self]
    exact .look h
  | @remove c w hph =>
    rw [hph] at h
    change Deeds (update x.phase r _ r).signalling (.remove c w :: ds)
    rw [update_self]
    exact .remove h
  | @post w hph =>
    rw [hph] at h
    change Deeds (update x.phase r _ r).signalling (.post w :: ds)
    rw [update_self]
    exact .post h

end Moves

end WaitList
