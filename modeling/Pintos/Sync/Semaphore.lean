import Pintos.Sched.Queues

/-!
# Semaphores: the count and the wake-ups

What a semaphore is for, over all interleavings and with a timer interrupt wherever interrupts
are on. The history of a run says how many ups were performed and how many downs, with or
without waiting, were completed:

* `SemaEffect` — everything a step can do to one semaphore; `Act.sema` derives it from the code,
  and every fact about semaphores below and in the modules on locks is a case analysis on it;
* `Balanced` — the value is the initial one plus the ups minus the downs, and no wake-up is
  lost: while somebody is queued, every unit of the semaphore has a woken thread on its way.
  A barging thread may take the unit first; the woken thread then finds the value zero and
  queues up again, so the bound holds with one unit and one thread less.
-/

namespace Pintos

open Transition Function List

/-! ### Ups and downs in the history of a run -/

/-- The semaphore that the code at a program point takes a unit from, if there is one. -/
def Pc.takesFrom : Pc → Option SemaRef
  | .semaDown s | .semaRetest s | .semaTryDown s => some s
  | .tryDown l _ => some (.lock l)
  | _ => none

/-- The semaphore that the code at a program point gives a unit to. -/
def Pc.givesTo : Pc → Option SemaRef
  | .semaUp s => some s
  | _ => none

/-- A step that performs a `sema_up` on `s`. -/
def performsUp (s : SemaRef) (p : Machine × Event) : Bool :=
  decide (p.2 = .exec ∧ p.1.curPc.givesTo = some s)

/-- A step that completes a `sema_down` or a successful `sema_try_down` on `s`. -/
def completesDown (s : SemaRef) (p : Machine × Event) : Bool :=
  decide (p.2 = .exec ∧ p.1.curPc.takesFrom = some s ∧ 0 < (p.1.kernel.semas s).value)

/-- The ups performed on `s`. -/
def ups (s : SemaRef) (h : List (Machine × Event)) : ℕ := h.countP (performsUp s)

/-- The downs and the successful tries completed on `s`. -/
def downs (s : SemaRef) (h : List (Machine × Event)) : ℕ := h.countP (completesDown s)

/-- The threads that have been unblocked from `s`, and so are off the list of its waiters, and
have not tested its value again. -/
def woken (m : Machine) (s : SemaRef) : Finset Tid :=
  (Finset.range m.kernel.nextPage).filter fun t =>
    m.pc t = .semaRetest s ∧ t ∉ (m.kernel.semas s).waiters

/-! ### What a step does to one semaphore -/

/-- The effect of a step, up to the dispatch, on the semaphore `s`. -/
inductive SemaEffect (m : Machine) (s : SemaRef) (e : Event) (o : Outcome) : Prop where
  /-- The step does not touch it. -/
  | quiet : performsUp s (m, e) = false → completesDown s (m, e) = false →
      m.curPc ≠ .semaRetest s → o.kernel.semas s = m.kernel.semas s → SemaEffect m s e o
  /-- The running thread finds it zero and queues up. -/
  | block : performsUp s (m, e) = false → completesDown s (m, e) = false →
      (m.kernel.semas s).value = 0 → o.ctl.pc = .semaRetest s →
      o.kernel.semas s = ⟨0, (m.kernel.semas s).waiters ++ [m.kernel.running]⟩ →
      SemaEffect m s e o
  /-- The running thread takes a unit. -/
  | take : performsUp s (m, e) = false → completesDown s (m, e) = true →
      0 < (m.kernel.semas s).value →
      o.kernel.semas s = ⟨(m.kernel.semas s).value - 1, (m.kernel.semas s).waiters⟩ →
      SemaEffect m s e o
  /-- An up that finds nobody queued. -/
  | up : performsUp s (m, e) = true → completesDown s (m, e) = false →
      (m.kernel.semas s).waiters = [] →
      o.kernel.semas s = ⟨((m.kernel.semas s).value + 1) % 2 ^ 32, []⟩ → SemaEffect m s e o
  /-- An up that wakes a thread of the highest priority, which is ready then. -/
  | wake (t : Tid) : performsUp s (m, e) = true → completesDown s (m, e) = false →
      t ∈ (m.kernel.semas s).waiters →
      (∀ w ∈ (m.kernel.semas s).waiters,
        (m.kernel.threads w).priority ≤ (m.kernel.threads t).priority) →
      t ∈ o.kernel.readyHeap.items →
      o.kernel.semas s =
        ⟨((m.kernel.semas s).value + 1) % 2 ^ 32, (m.kernel.semas s).waiters.erase t⟩ →
      SemaEffect m s e o
  /-- `cond_wait` initializes the semaphore of the running thread. -/
  | init : s = .waiter m.kernel.running → SemaEffect m s e o

section Effect

variable {m : Machine} {s : SemaRef} {o : Outcome}

theorem performsUp_exec {c : Control} (hctl : m.ctl m.kernel.running = c) :
    performsUp s (m, .exec) = decide (c.pc.givesTo = some s) := by
  simp [performsUp, Machine.curPc, Machine.pc, hctl]

theorem completesDown_exec {c : Control} (hctl : m.ctl m.kernel.running = c) :
    completesDown s (m, .exec) =
      decide (c.pc.takesFrom = some s ∧ 0 < (m.kernel.semas s).value) := by
  simp [completesDown, Machine.curPc, Machine.pc, hctl]

/-- A step that leaves the semaphores alone. -/
theorem SemaEffect.of_same {c : Control} (hctl : m.ctl m.kernel.running = c)
    (hup : c.pc.givesTo = none) (hdown : c.pc.takesFrom = some s → (m.kernel.semas s).value = 0)
    (hre : c.pc ≠ .semaRetest s) (hsame : o.kernel.semas s = m.kernel.semas s) :
    SemaEffect m s .exec o := by
  refine .quiet ?_ ?_ ?_ hsame
  · rw [performsUp_exec hctl]
    exact decide_eq_false (by rw [hup]; simp)
  · rw [completesDown_exec hctl]
    refine decide_eq_false fun hd => ?_
    rw [hdown hd.1] at hd
    exact absurd hd.2 (lt_irrefl 0)
  · unfold Machine.curPc Machine.pc
    rw [hctl]
    exact hre

/-- A silent move takes nothing from a semaphore: if it is a try, the semaphore is zero. -/
theorem Silent.takesFrom {k : Kernel} {c c' : Control} (h : Silent k c c')
    (ht : c.pc.takesFrom = some s) : (k.semas s).value = 0 := by
  cases h with
  | tryDownNone hv | tryFail hv | tryGiveUp hv =>
    cases ht
    exact hv
  | _ => exact absurd ht (by simp [Pc.takesFrom])

theorem Silent.ne_sema {k : Kernel} {c c' : Control} (h : Silent k c c') (s : SemaRef) :
    c.pc.givesTo = none ∧ c.pc ≠ .semaRetest s := by
  cases h <;> exact ⟨rfl, by simp⟩

theorem Exec.sema {c : Control} (hctl : m.ctl m.kernel.running = c) (hex : Exec m.kernel c o)
    (s : SemaRef) : SemaEffect m s .exec o := by
  have hupd := performsUp_exec (s := s) hctl
  have hdown := completesDown_exec (s := s) hctl
  have hre : m.curPc = c.pc := congrArg Control.pc hctl
  cases hex with
  | silent hs =>
    exact .of_same hctl (hs.ne_sema s).1 hs.takesFrom (hs.ne_sema s).2 rfl
  | @downBlock pc s' st hpc hv =>
    by_cases hs : s' = s
    · subst hs
      refine .block ?_ ?_ hv rfl ?_
      · rw [hupd]
        rcases hpc with rfl | rfl <;> simp [Pc.givesTo]
      · rw [hdown]
        simp [hv]
      · simp only [blockPark, Kernel.setThread, Kernel.setSema, update_self, hv]
    · refine .of_same hctl ?_ ?_ ?_ ?_
      · rcases hpc with rfl | rfl <;> rfl
      · intro ht
        rcases hpc with rfl | rfl <;> exact absurd (Option.some.inj ht) hs
      · rcases hpc with rfl | rfl
        · simp
        · simpa using hs
      · exact update_of_ne (Ne.symm hs) _ _
  | @downTake pc s' st hpc hv =>
    by_cases hs : s' = s
    · subst hs
      refine .take ?_ ?_ hv (update_self ..)
      · rw [hupd]
        rcases hpc with rfl | rfl <;> simp [Pc.givesTo]
      · rw [hdown]
        rcases hpc with rfl | rfl <;> simpa [Pc.takesFrom] using hv
    · refine .of_same hctl ?_ ?_ ?_ ?_
      · rcases hpc with rfl | rfl <;> rfl
      · intro ht
        rcases hpc with rfl | rfl <;> exact absurd (Option.some.inj ht) hs
      · rcases hpc with rfl | rfl
        · simp
        · simpa using hs
      · exact update_of_ne (Ne.symm hs) _ _
  | @tryDown s' st hv =>
    by_cases hs : s' = s
    · subst hs
      refine .take ?_ ?_ hv (update_self ..)
      · rw [hupd]
        simp [Pc.givesTo]
      · rw [hdown]
        simpa [Pc.takesFrom] using hv
    · exact .of_same hctl rfl (fun ht => absurd (Option.some.inj ht) hs) (by simp)
        (update_of_ne (Ne.symm hs) _ _)
  | @tryTake l wait st hv =>
    by_cases hs : .lock l = s
    · subst hs
      refine .take ?_ ?_ hv (update_self ..)
      · rw [hupd]
        simp [Pc.givesTo]
      · rw [hdown]
        simpa [Pc.takesFrom] using hv
    · exact .of_same hctl rfl (fun ht => absurd (Option.some.inj ht) hs) (by simp)
        (update_of_ne (Ne.symm hs) _ _)
  | @upNone s' st hw =>
    by_cases hs : s' = s
    · subst hs
      exact .up (by rw [hupd]; simp [Pc.givesTo]) (by rw [hdown]; simp [Pc.takesFrom]) hw
        (update_self ..)
    · refine .quiet ?_ (by rw [hdown]; simp [Pc.takesFrom]) (by rw [hre]; simp)
        (update_of_ne (Ne.symm hs) _ _)
      rw [hupd]
      simpa [Pc.givesTo] using hs
  | @upWake s' st t k₁ hmem hmax hub =>
    by_cases hs : s' = s
    · subst hs
      have hready : t ∈ k₁.readyHeap.items := by
        obtain ⟨ord, heap, rfl, hitems, -⟩ := pushReady_ok (threadUnblock_ok hub).2
        rw [hitems]
        exact Multiset.mem_cons_self t _
      exact .wake t (by rw [hupd]; simp [Pc.givesTo]) (by rw [hdown]; simp [Pc.takesFrom]) hmem hmax
        hready (update_self ..)
    · refine .quiet ?_ (by rw [hdown]; simp [Pc.takesFrom]) (by rw [hre]; simp) ?_
      · rw [hupd]
        simpa [Pc.givesTo] using hs
      · refine (update_of_ne (Ne.symm hs) _ _).trans ?_
        rw [threadUnblock_semas hub]
  | waitPush =>
    by_cases hs : .waiter m.kernel.running = s
    · exact .init hs.symm
    · exact .of_same hctl rfl (by simp [Pc.takesFrom]) (by simp)
        (update_of_ne (Ne.symm hs) _ _)
  | yield hy =>
    exact .of_same hctl rfl (by simp [Pc.takesFrom]) (by simp)
      (congrFun (yieldPark_tables hy).semas s)
  | createUnblock hub =>
    exact .of_same hctl rfl (by simp [Pc.takesFrom]) (by simp)
      (congrFun (threadUnblock_semas hub) s)
  | createInit hi =>
    obtain ⟨-, rfl⟩ := initThread_ok hi
    exact .of_same hctl rfl (by simp [Pc.takesFrom]) (by simp) rfl
  | sleep _ hsl =>
    obtain ⟨heap, rfl, -⟩ := sleepPark_ok hsl
    exact .of_same hctl rfl (by simp [Pc.takesFrom]) (by simp) rfl
  | updateMlfqs hst =>
    cases hst <;> exact .of_same hctl rfl (by simp [Pc.takesFrom]) (by simp) rfl
  | _ => exact .of_same hctl rfl (by simp [Pc.takesFrom]) (by simp) rfl

/-- **What a step does to a semaphore.** -/
theorem Act.sema {e : Event} (ha : Act m e o) (s : SemaRef) : SemaEffect m s e o := by
  cases ha with
  | call hpc => exact .quiet rfl rfl (by rw [hpc]; simp) rfl
  | exec hex => exact hex.sema rfl s
  | @tick y k k' hon hint hy =>
    refine .quiet rfl rfl ?_ ?_
    · intro hpc
      unfold Machine.curPc Machine.pc at hpc
      simp [Machine.interruptsOn, hpc] at hon
    · exact congrFun (tick_tables hint hy).semas s

end Effect

/-! ### The count and the wake-ups -/

/-- The value of `s`, which began at `v`, is the difference of the ups and the downs, and while
a thread is queued every unit of it has a woken thread on its way. -/
structure Balanced (v : ℕ) (s : SemaRef) (h : List (Machine × Event)) (m : Machine) : Prop where
  count : (m.kernel.semas s).value + downs s h = v + ups s h
  onItsWay : (m.kernel.semas s).waiters ≠ [] → (m.kernel.semas s).value ≤ (woken m s).card

section Step

variable {m m' : Machine} {s : SemaRef} {e : Event} {o : Outcome} {v : ℕ}
  {h : List (Machine × Event)}

/-- A woken thread stays one until it runs or queues up again. -/
theorem woken_mono (hpages : m.kernel.nextPage ≤ m'.kernel.nextPage)
    (hpc : ∀ t, t ≠ m.kernel.running → m'.pc t = m.pc t)
    (hwait : (m'.kernel.semas s).waiters ⊆ (m.kernel.semas s).waiters) :
    (woken m s).erase m.kernel.running ⊆ woken m' s := by
  intro t ht
  obtain ⟨hne, ht⟩ := Finset.mem_erase.mp ht
  obtain ⟨hlt, hre, hnot⟩ := Finset.mem_filter.mp ht
  refine Finset.mem_filter.mpr ⟨?_, (hpc t hne).trans hre, fun hw => hnot (hwait hw)⟩
  exact Finset.mem_range.mpr (lt_of_lt_of_le (Finset.mem_range.mp hlt) hpages)

theorem woken_erase_of_ne (hre : m.curPc ≠ .semaRetest s) :
    (woken m s).erase m.kernel.running = woken m s := by
  refine Finset.erase_eq_of_notMem fun hmem => ?_
  exact hre (Finset.mem_filter.mp hmem).2.1

/-- The thread that an up takes off the list is woken. -/
theorem mem_woken_of_wake (hsch : Scheduled m) {t : Tid} (hre : m.curPc ≠ .semaRetest s)
    (hpages : m.kernel.nextPage ≤ m'.kernel.nextPage)
    (hpc : ∀ t, t ≠ m.kernel.running → m'.pc t = m.pc t) (hmem : t ∈ (m.kernel.semas s).waiters)
    (hwait : (m'.kernel.semas s).waiters = (m.kernel.semas s).waiters.erase t) :
    t ∈ woken m' s := by
  have hretest := (hsch.queues.waiting s t hmem).2
  have hne : t ≠ m.kernel.running := by
    rintro rfl
    exact hre hretest
  refine Finset.mem_filter.mpr ⟨Finset.mem_range.mpr ?_, (hpc t hne).trans hretest, ?_⟩
  · exact lt_of_lt_of_le (hsch.queues.old_of_pc (by rw [hretest]; simp)).1 hpages
  · rw [hwait]
    exact List.Nodup.not_mem_erase (hsch.queues.waiting_nodup s)

theorem curPc_of_performsUp (hup : performsUp s (m, e) = true) : m.curPc = .semaUp s := by
  have hgive := (of_decide_eq_true hup).2
  cases hpc : m.curPc with
  | semaUp s' =>
    rw [hpc] at hgive
    rw [Option.some.inj hgive]
  | _ =>
    rw [hpc] at hgive
    exact absurd hgive (by simp [Pc.givesTo])

/-- **One step keeps the balance**, as long as the ups outstanding fit in the counter. -/
theorem Balanced.step (hsch : Scheduled m) (hs : ∀ t, s ≠ .waiter t) (hb : Balanced v s h m)
    (hbound : v + ups s ((m, e) :: h) < downs s ((m, e) :: h) + 2 ^ 32)
    (hstep : step m e = .ok m') : Balanced v s ((m, e) :: h) m' := by
  obtain ⟨o, ha, hctl, hd⟩ := step_act hstep
  have hsemas := hd.semas
  have hpages : m.kernel.nextPage ≤ m'.kernel.nextPage := by
    rw [hd.nextPage]
    exact ha.setup.nextPage
  have hpc : ∀ t, t ≠ m.kernel.running → m'.pc t = m.pc t := by
    intro t ht
    unfold Machine.pc
    rw [hctl, update_of_ne ht]
  have hcount := hb.count
  unfold ups downs at hbound hcount
  rw [countP_cons, countP_cons] at hbound
  cases ha.sema s with
  | quiet hup hdown hre hsame =>
    have hsub := woken_mono (s := s) hpages hpc (by rw [hsemas, hsame]; exact List.Subset.refl _)
    rw [woken_erase_of_ne hre] at hsub
    constructor
    · unfold ups downs
      rw [hsemas, hsame, countP_cons, countP_cons, hup, hdown]
      exact hcount
    · rw [hsemas, hsame]
      exact fun hw => (hb.onItsWay hw).trans (Finset.card_le_card hsub)
  | block hup hdown hv _ hsame =>
    constructor
    · unfold ups downs
      rw [hsemas, hsame, countP_cons, countP_cons, hup, hdown]
      rw [hv] at hcount
      exact hcount
    · rw [hsemas, hsame]
      exact fun _ => Nat.zero_le _
  | take hup hdown hv hsame =>
    have hsub := woken_mono (s := s) hpages hpc (by rw [hsemas, hsame]; exact List.Subset.refl _)
    constructor
    · unfold ups downs
      rw [hsemas, hsame, countP_cons, countP_cons, hup, hdown]
      simp only [if_true, Bool.false_eq_true, if_false]
      omega
    · rw [hsemas, hsame]
      intro hw
      have hcard := Finset.card_le_card hsub
      have hpred := Finset.pred_card_le_card_erase (s := woken m s) (a := m.kernel.running)
      have hle := hb.onItsWay hw
      change (m.kernel.semas s).value - 1 ≤ _
      omega
  | up hup hdown hw hsame =>
    rw [hup, hdown] at hbound
    simp only [if_true, Bool.false_eq_true, if_false] at hbound
    constructor
    · unfold ups downs
      rw [hsemas, hsame, countP_cons, countP_cons, hup, hdown]
      simp only [if_true, Bool.false_eq_true, if_false]
      rw [Nat.mod_eq_of_lt (by omega)]
      omega
    · rw [hsemas, hsame]
      exact fun hne => absurd rfl hne
  | wake t hup hdown hmem _ _ hsame =>
    rw [hup, hdown] at hbound
    simp only [if_true, Bool.false_eq_true, if_false] at hbound
    have hre : m.curPc ≠ .semaRetest s := by
      rw [curPc_of_performsUp hup]
      simp
    have hlt : (m.kernel.semas s).value + 1 < 2 ^ 32 := by omega
    have hsub := woken_mono (s := s) hpages hpc (by rw [hsemas, hsame]; exact erase_subset)
    rw [woken_erase_of_ne hre] at hsub
    -- the thread that is woken is new among the woken ones
    have hnew : t ∉ woken m s := fun hin => (Finset.mem_filter.mp hin).2.2 hmem
    have hin : t ∈ woken m' s := mem_woken_of_wake hsch hre hpages hpc hmem (by rw [hsemas, hsame])
    constructor
    · unfold ups downs
      rw [hsemas, hsame, countP_cons, countP_cons, hup, hdown]
      simp only [if_true, Bool.false_eq_true, if_false]
      rw [Nat.mod_eq_of_lt hlt]
      omega
    · rw [hsemas, hsame]
      intro _
      have hcard := Finset.card_le_card (Finset.insert_subset hin hsub)
      rw [Finset.card_insert_of_notMem hnew] at hcard
      have hle := hb.onItsWay (ne_nil_of_mem hmem)
      change ((m.kernel.semas s).value + 1) % 2 ^ 32 ≤ _
      rw [Nat.mod_eq_of_lt hlt]
      omega
  | init heq => exact absurd heq (hs _)

end Step

theorem Balanced.boot (mlfqs : Bool) {v : ℕ → ℕ} {n : ℕ} (hv : v n < 2 ^ 32) :
    Balanced (v n) (.sema n) [] (boot mlfqs v) where
  count := by
    change v n % 2 ^ 32 + 0 = v n + 0
    rw [Nat.mod_eq_of_lt hv]
  onItsWay hw := absurd rfl hw

/-- **Semaphores over all interleavings.** While the ups outstanding fit in the 32 bits of the
counter, the value is the initial one plus the ups minus the downs, and while a thread is queued
it is at most the number of woken threads that have not tested it yet. -/
theorem semaphore_value_and_wakeups {mlfqs : Bool} {v : ℕ → ℕ} {n : ℕ}
    {h : List (Machine × Event)} {m : Machine}
    (hrun : Run step preemptive (boot mlfqs v) h m)
    (hbound : ∀ h', h' <:+ h → v n + ups (.sema n) h' < downs (.sema n) h' + 2 ^ 32) :
    ((m.kernel.semas (.sema n)).value : ℤ) = v n + ups (.sema n) h - downs (.sema n) h ∧
      downs (.sema n) h ≤ v n + ups (.sema n) h ∧
      ((m.kernel.semas (.sema n)).waiters ≠ [] →
        (m.kernel.semas (.sema n)).value ≤ (woken m (.sema n)).card) := by
  have hbal : Scheduled m ∧
      ((∀ h', h' <:+ h → v n + ups (.sema n) h' < downs (.sema n) h' + 2 ^ 32) →
        Balanced (v n) (.sema n) h m) := by
    refine hrun.invariant_history (I := fun h m => Scheduled m ∧
      ((∀ h', h' <:+ h → v n + ups (.sema n) h' < downs (.sema n) h' + 2 ^ 32) →
        Balanced (v n) (.sema n) h m)) ⟨.boot mlfqs v, fun hb => ?_⟩ ?_
    · have hnil := hb [] (suffix_refl _)
      exact .boot mlfqs (by simpa [ups, downs] using hnil)
    · intro h m e m' hI _ hs
      refine ⟨hI.1.step hs, fun hb => ?_⟩
      have hprev := hI.2 fun h' hsuf => hb h' (hsuf.trans (suffix_cons _ _))
      exact hprev.step hI.1 (fun t => by simp) (hb _ (suffix_refl _)) hs
  obtain ⟨hcount, hway⟩ := hbal.2 hbound
  refine ⟨?_, ?_, hway⟩ <;> omega

theorem ups_le_length (s : SemaRef) (h : List (Machine × Event)) : ups s h ≤ h.length :=
  countP_le_length

/-- The main thread ups semaphore 0 twice and takes one of the two units. -/
theorem semaphore_value_and_wakeups_run : ∃ h m,
    Run step preemptive (boot false fun _ => 0) h m ∧ ups (.sema 0) h = 2 ∧
      downs (.sema 0) h = 1 ∧ ((m.kernel.semas (.sema 0)).value : ℤ) = 0 + 2 - 1 := by
  obtain ⟨h, m, hrun, hp⟩ := exists_run preemptive (fun _ _ => true) (fun _ _ _ => trivial)
    false (fun _ => 0)
    (Call.run (.semaUp 0) 2 ++ Call.run (.semaUp 0) 2 ++ Call.run (.semaDown 0) 1)
    (fun h _ => decide (h.length < 100 ∧ ups (.sema 0) h = 2 ∧ downs (.sema 0) h = 1))
    (by decide +kernel)
  obtain ⟨hlen, hups, hdowns⟩ := of_decide_eq_true hp
  have hbound : ∀ h', h' <:+ h →
      (fun _ : ℕ => 0) 0 + ups (.sema 0) h' < downs (.sema 0) h' + 2 ^ 32 := by
    intro h' hsuf
    have hle := (ups_le_length (.sema 0) h').trans hsuf.length_le
    dsimp only
    omega
  have hval := (semaphore_value_and_wakeups hrun hbound).1
  rw [hups, hdowns] at hval
  exact ⟨h, m, hrun, hups, hdowns, hval⟩

end Pintos
