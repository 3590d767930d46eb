import Pintos.Kernel.Steps

/-!
# Where a thread can be in the code

The control flow of the kernel as an invariant of all runs. A kernel function is called from
few places, so a program point says much about the calls around it, and some points are reached
in one of the two scheduling modes only:

* `Pc.enclosed` — the enclosing calls a program point can have (there is at most one);
* `Pc.inMode` — the scheduling mode a program point belongs to;
* `Flow` — every thread is where its program point allows; `Flow.step` keeps it;
* `exec_inside` — what a function does does not depend on its callers;
* `Resumable` — in an uninterrupted run, a thread that is not running has blocked or yielded
  inside a call, or is outside the kernel.
-/

namespace Pintos

/-- The calls that `lock_acquire` is made from inside the kernel. -/
def Frame.inAcquire : Frame → Bool
  | .createScan _ _ | .createTid _ _ => true
  | _ => false

/-- The calls that `lock_release` is made from inside the kernel. -/
def Frame.inRelease : Frame → Bool
  | .waitDown _ | .createInit _ _ | .createMlfqs _ _ => true
  | _ => false

/-- The calls that `cond_signal` is made from inside the kernel. -/
def Frame.inSignal : Frame → Bool
  | .broadcast _ _ => true
  | _ => false

/-- The call that `sema_down` is made from on the semaphore of a waiter. -/
def Frame.inWait : Frame → Bool
  | .waitAcquire _ => true
  | _ => false

/-- At most one enclosing call, and one of the given kind. -/
def within (p : Frame → Bool) : List Frame → Bool
  | [] => true
  | [f] => p f
  | _ => false

def Updater.enclosed : Updater → List Frame → Bool
  | .release _, st => within Frame.inRelease st
  | _, st => st.isEmpty

/-- The enclosing calls that a program point of thread `t` can have. -/
def Pc.enclosed (t : Tid) : Pc → List Frame → Bool
  | .semaDown (.lock _), st | .semaRetest (.lock _), st | .acquireAssert _, st
  | .tryAssert _ _, st | .tryDown _ _, st | .setHolder _, st | .pushHolding _, st
  | .setWaiting _, st | .donate _ _ _, st | .donateTest _ _ _, st | .donateAssert _ _ _, st
  | .donateStore _ _ _, st | .donateCompare _ _ _, st | .donateRaise _ _ _, st
  | .donateNext _ _ _, st | .sortHeap _, st | .acquired _, st => within Frame.inAcquire st
  -- the semaphore of a waiter is waited for by that waiter, in `cond_wait`
  | .semaDown (.waiter w), st | .semaRetest (.waiter w), st => w == t && within Frame.inWait st
  | .semaTryDown (.lock _), _ | .semaTryDown (.waiter _), _ => false
  | .releaseAssert _, st | .releaseClear _, st | .semaUp (.lock _), st =>
    within Frame.inRelease st
  | .updatePriority u, st | .updateScan u _ _ _, st | .updateStore u _, st | .updateMax u, st
  | .updateCpu u, st | .updateNice u, st | .updateClamp u, st => u.enclosed st
  | .signalAssert _ _, st | .signalTest _, st | .signalScan _ _ _, st | .signalRemove _ _, st
  | .semaUp (.waiter _), st => within Frame.inSignal st
  | .yield, st => within (fun f => f.inRelease || f.inSignal) st
  | _, st => st.isEmpty

/-- `thread_create` recomputes the running thread's priority in mlfqs mode only. -/
def Updater.inMode (mlfqs : Bool) : Updater → Bool
  | .create _ _ => mlfqs
  | _ => true

/-- The program points that the scheduling mode allows. -/
def Pc.inMode (mlfqs : Bool) : Pc → Bool
  | .donateTest _ _ _ | .donateAssert _ _ _ | .donateStore _ _ _ | .donateCompare _ _ _
  | .donateRaise _ _ _ | .donateNext _ _ _ | .setOrigin _ _ | .setTest _ _ | .setStore _ _
  | .setYield _ => !mlfqs
  | .updatePriority u => u.inMode mlfqs
  | .updateScan u _ _ _ | .updateStore u _ => !mlfqs && u.inMode mlfqs
  | .updateMax _ | .updateCpu _ | .updateNice _ | .updateClamp _ => mlfqs
  | _ => true

/-- Thread `t` is at a point the mode allows, inside calls the point allows. -/
structure Control.Shaped (mlfqs : Bool) (t : Tid) (c : Control) : Prop where
  enclosed : c.pc.enclosed t c.stack = true
  mode : c.pc.inMode mlfqs = true

theorem within_mono {p q : Frame → Bool} (hpq : ∀ f, p f = true → q f = true) {st : List Frame}
    (h : within p st = true) : within q st = true := by
  match st, h with
  | [], _ => rfl
  | [f], h => exact hpq f h

theorem length_le_of_within {p : Frame → Bool} {st : List Frame} (h : within p st = true) :
    st.length ≤ 1 := by
  match st, h with
  | [], _ => exact Nat.zero_le 1
  | [_], _ => exact le_refl 1

section Shape

variable {mlfqs : Bool} {t : Tid} {c : Control}

theorem length_le_of_isEmpty {st : List Frame} (h : st.isEmpty = true) : st.length ≤ 1 := by
  rw [List.isEmpty_iff.mp h]
  exact Nat.zero_le 1

theorem Updater.length_le {u : Updater} {st : List Frame} (h : u.enclosed st = true) :
    st.length ≤ 1 := by
  cases u with
  | release l => exact length_le_of_within h
  | nice => exact length_le_of_isEmpty h
  | create p t => exact length_le_of_isEmpty h

/-- Calls do not nest deeper than two. -/
theorem Control.Shaped.length_le (h : c.Shaped mlfqs t) : c.stack.length ≤ 1 := by
  obtain ⟨pc, st⟩ := c
  have henc : pc.enclosed t st = true := h.enclosed
  unfold Pc.enclosed at henc
  split at henc
  all_goals first
    | exact length_le_of_within henc
    | exact length_le_of_within (Bool.and_eq_true_iff.mp henc).2
    | exact Updater.length_le henc
    | exact length_le_of_isEmpty henc
    | exact absurd henc Bool.false_ne_true

/-- Returning from a call leads to a point that fits. -/
theorem shaped_ret {st : List Frame} (h : st.length ≤ 1) : (ret t st).Shaped mlfqs t := by
  match st, h with
  | [], _ => exact ⟨rfl, rfl⟩
  | [.waitDown l], _ => exact ⟨by simp [ret, Pc.enclosed, within, Frame.inWait], rfl⟩
  | [.waitAcquire l], _ => exact ⟨rfl, rfl⟩
  | [.broadcast c l], _ => exact ⟨rfl, rfl⟩
  | [.createScan p avail], _ => exact ⟨rfl, rfl⟩
  | [.createInit p page], _ => exact ⟨rfl, rfl⟩
  | [.createTid p t], _ => exact ⟨rfl, rfl⟩
  | [.createMlfqs p t], _ => exact ⟨rfl, rfl⟩

/-- A point without enclosing calls. -/
theorem stack_nil_of_isEmpty {st : List Frame} (h : st.isEmpty = true) : st = [] :=
  List.isEmpty_iff.mp h

end Shape

section Moves

variable {k : Kernel} {c c' : Control} {o : Outcome}

theorem Control.Shaped.silent (h : c.Shaped k.mlfqs k.running) (hs : Silent k c c') :
    c'.Shaped k.mlfqs k.running := by
  have hlen := h.length_le
  have henc := h.enclosed
  have hmode := h.mode
  cases hs with
  | create | createNoPage | createTid | broadcastNext =>
    -- the calls made from the outermost level
    obtain rfl := stack_nil_of_isEmpty henc
    exact ⟨rfl, rfl⟩
  | donateGo hm | setPriority hm =>
    exact ⟨henc, by simp [Pc.inMode, hm]⟩
  | updateMlfqs hm =>
    exact ⟨henc, by simp [Pc.inMode, hm]⟩
  | updateNone hm | updateStart hm =>
    refine ⟨henc, ?_⟩
    change Updater.inMode k.mlfqs _ = true at hmode
    simp [Pc.inMode, hm, hm ▸ hmode]
  | setLower | createYield =>
    obtain rfl := stack_nil_of_isEmpty henc
    exact ⟨rfl, rfl⟩
  | _ => first | exact shaped_ret hlen | exact ⟨henc, hmode⟩ | exact ⟨henc, rfl⟩

/-- `sema_up` is followed by `thread_yield`, in whatever call. -/
theorem enclosed_yield {t : Tid} {s : SemaRef} {st : List Frame}
    (h : (Pc.semaUp s).enclosed t st = true) : Pc.yield.enclosed t st = true := by
  cases s with
  | sema n =>
    obtain rfl := stack_nil_of_isEmpty h
    rfl
  | lock l => exact within_mono (fun f hf => by simp [hf]) h
  | waiter w => exact within_mono (fun f hf => by simp [hf]) h

theorem Updater.enclosed_next {t : Tid} {u : Updater} {st : List Frame}
    (h : u.enclosed st = true) : u.next.enclosed t st = true := by
  cases u with
  | release l => exact h
  | nice =>
    obtain rfl := stack_nil_of_isEmpty h
    rfl
  | create p t => exact h

theorem Updater.inMode_next (mlfqs : Bool) (u : Updater) : u.next.inMode mlfqs = true := by
  cases u <;> rfl

theorem Control.Shaped.exec (h : c.Shaped k.mlfqs k.running) (hex : Exec k c o) :
    o.ctl.Shaped k.mlfqs k.running := by
  have hlen := h.length_le
  have henc := h.enclosed
  have hmode := h.mode
  cases hex with
  | silent hs => exact h.silent hs
  | @downBlock pc s st hpc =>
    rcases hpc with rfl | rfl
    · cases s <;> exact ⟨henc, rfl⟩
    · exact ⟨henc, rfl⟩
  | @downTake pc s st hpc =>
    cases s with
    | lock l => rcases hpc with rfl | rfl <;> exact ⟨henc, rfl⟩
    | _ => exact shaped_ret hlen
  | upNone | upWake => exact ⟨enclosed_yield henc, rfl⟩
  | updateStore =>
    exact ⟨Updater.enclosed_next henc, Updater.inMode_next _ _⟩
  | updateMlfqs hst =>
    cases hst with
    | clamp => exact ⟨Updater.enclosed_next henc, Updater.inMode_next _ _⟩
    | _ => exact ⟨henc, hmode⟩
  | waitPush =>
    obtain rfl := stack_nil_of_isEmpty henc
    exact ⟨rfl, rfl⟩
  | createPage | createInit =>
    obtain rfl := stack_nil_of_isEmpty henc
    exact ⟨rfl, rfl⟩
  | createMlfqs hm => exact ⟨henc, hm⟩
  | exit => exact ⟨rfl, rfl⟩
  | _ => first | exact shaped_ret hlen | exact ⟨henc, hmode⟩

end Moves

/-! ### Callers -/

/-- Where the code at a program point with no enclosing calls leads, put inside the calls `st`. -/
def Outcome.inside (t : Tid) (st : List Frame) (o : Outcome) : Outcome :=
  { o with ctl := if o.ctl.pc = .user then ret t st else ⟨o.ctl.pc, o.ctl.stack ++ st⟩ }

section Inside

variable (k : Kernel) (st : List Frame)

theorem semaDown_inside (s : SemaRef) :
    semaDown k s st = (semaDown k s []).map (Outcome.inside k.running st) := by
  unfold semaDown
  dsimp only
  split
  · rfl
  · cases s <;> rfl

theorem execAcquire_inside (pc : Pc) :
    execAcquire k st pc = (execAcquire k [] pc).map (Outcome.inside k.running st) := by
  cases pc with
  | acquireAssert l | tryAssert l wait =>
    simp only [execAcquire]
    split <;> rfl
  | tryDown l wait =>
    simp only [execAcquire, semaTryDown]
    by_cases hv : 0 < (k.semas (.lock l)).value
    · rw [if_pos hv]
      rfl
    · rw [if_neg hv]
      cases wait <;> rfl
  | donate l t dep =>
    simp only [execAcquire]
    split
    · rfl
    · split <;> rfl
  | donateTest l t dep =>
    simp only [execAcquire]
    cases waitedLock k t with
    | error => rfl
    | ok lw =>
      change (if _ then _ else _) = Except.map _ (if _ then _ else _)
      split <;> rfl
  | donateAssert l t dep | donateNext l t dep =>
    simp only [execAcquire]
    cases waitedLock k t with
    | error => rfl
    | ok lw =>
      cases hh : (k.locks lw).holder <;> simp only [bind, Except.bind, hh] <;> rfl
  | donateStore l t dep =>
    simp only [execAcquire]
    cases waitedLock k t <;> rfl
  | donateCompare l t dep =>
    simp only [execAcquire]
    cases waitedHolder k t with
    | error => rfl
    | ok h =>
      change (if _ then _ else _) = Except.map _ (if _ then _ else _)
      split <;> rfl
  | donateRaise l t dep =>
    simp only [execAcquire]
    cases waitedHolder k t <;> rfl
  | _ => rfl

theorem execRelease_inside (pc : Pc) :
    execRelease k st pc = (execRelease k [] pc).map (Outcome.inside k.running st) := by
  cases pc with
  | releaseAssert l =>
    simp only [execRelease]
    split <;> rfl
  | updatePriority u =>
    simp only [execRelease]
    split
    · rfl
    · cases k.cur.locksHolding <;> rfl
  | updateScan u p m ls => cases ls <;> rfl
  | updateStore u | updateClamp u => cases u <;> rfl
  | _ => rfl

theorem execCond_inside (pc : Pc) :
    execCond k st pc = (execCond k [] pc).map (Outcome.inside k.running st) := by
  cases pc with
  | waitAssert c l | signalAssert c l =>
    simp only [execCond]
    split <;> rfl
  | signalTest c | broadcast c l =>
    simp only [execCond]
    cases k.conds c <;> rfl
  | signalScan c m ws => cases ws <;> rfl
  | _ => rfl

theorem execPriority_inside (pc : Pc) :
    execPriority k st pc = (execPriority k [] pc).map (Outcome.inside k.running st) := by
  cases pc with
  | setPriority p | setTest p old | setYield old =>
    simp only [execPriority]
    split <;> rfl
  | _ => rfl

theorem execCreate_inside (pc : Pc) :
    execCreate k st pc = (execCreate k [] pc).map (Outcome.inside k.running st) := by
  cases pc with
  | createScan p avail => cases avail <;> rfl
  | createInit p page =>
    cases page with
    | none => rfl
    | some t =>
      simp only [execCreate]
      cases initThread k t p <;> rfl
  | createMlfqs p t | createTest p =>
    simp only [execCreate]
    split <;> rfl
  | createUnblock p t =>
    simp only [execCreate]
    cases threadUnblock k t <;> rfl
  | _ => rfl

/-- **A function does not depend on its callers**: the code at a program point does the same
inside the calls `st` as it does without, and returns to them. -/
theorem exec_inside {pc : Pc} (hpc : pc ≠ .exit) :
    exec k ⟨pc, st⟩ = (exec k ⟨pc, []⟩).map (Outcome.inside k.running st) := by
  cases pc with
  | exit => exact absurd rfl hpc
  | user | exited | idle | sleepWake => rfl
  | semaDown s | semaRetest s => exact semaDown_inside k st s
  | semaTryDown s =>
    change done (semaTryDown k s).1 st = Except.map _ (done (semaTryDown k s).1 [])
    unfold semaTryDown
    dsimp only
    split <;> rfl
  | semaUp s =>
    simp only [exec]
    cases semaUp k s <;> rfl
  | yield =>
    simp only [exec]
    cases yieldPark k <;> rfl
  | sleep n =>
    simp only [exec]
    split
    · rfl
    · cases sleepPark k n <;> rfl
  | acquireAssert | tryAssert | tryDown | setHolder | pushHolding | setWaiting | donate
  | donateTest | donateAssert | donateStore | donateCompare | donateRaise | donateNext
  | sortHeap | acquired =>
    simp only [exec]
    exact execAcquire_inside k st _
  | releaseAssert | releaseClear | updatePriority | updateScan | updateStore | updateMax
  | updateCpu | updateNice | updateClamp =>
    simp only [exec]
    exact execRelease_inside k st _
  | waitAssert | waitPush | signalAssert | signalTest | signalScan | signalRemove | broadcast =>
    simp only [exec]
    exact execCond_inside k st _
  | setPriority | setOrigin | setTest | setStore | setYield | setNice =>
    simp only [exec]
    exact execPriority_inside k st _
  | create | createScan | createInit | createTid | createMlfqs | createUnblock | createTest =>
    simp only [exec]
    exact execCreate_inside k st _

end Inside

/-! ### What no step changes -/

/-- The scheduling mode and the idle thread are fixed at boot, the CPU changes hands in
`schedule` alone, and the pages in use only grow. -/
structure Kernel.SameSetup (k k' : Kernel) : Prop where
  mlfqs : k'.mlfqs = k.mlfqs
  idleThread : k'.idleThread = k.idleThread
  running : k'.running = k.running
  /-- Pages are handed out, and never twice. -/
  nextPage : k.nextPage ≤ k'.nextPage

theorem Kernel.SameSetup.refl (k : Kernel) : k.SameSetup k := ⟨rfl, rfl, rfl, le_rfl⟩

theorem Kernel.SameTables.setup {k k' : Kernel} (h : k.SameTables k') : k.SameSetup k' :=
  ⟨h.mlfqs, h.idleThread, h.running, h.nextPage.ge⟩

theorem pushReady_setup {k k' : Kernel} {t : Tid} (h : pushReady k t = .ok k') :
    k.SameSetup k' :=
  (pushReady_tables h).setup

theorem initThread_ok {k k' : Kernel} {t : Tid} {p : ℤ} (h : initThread k t p = .ok k') :
    (priMin ≤ p ∧ p ≤ priMax) ∧
      k' = { k.setThread t (freshThread .blocked p) with allList := k.allList ++ [t] } := by
  unfold initThread at h
  split at h
  · next hp => exact ⟨hp, (Except.ok.inj h).symm⟩
  · cases h

theorem timerInterrupt_setup {k k' : Kernel} {y : Bool} (h : timerInterrupt k = .ok (y, k')) :
    k.SameSetup k' :=
  (timerInterrupt_tables h).setup

theorem Exec.setup {k : Kernel} {c : Control} {o : Outcome} (h : Exec k c o) :
    k.SameSetup o.kernel := by
  cases h with
  | upWake _ _ hub =>
    have hpush := pushReady_setup (threadUnblock_ok hub).2
    exact ⟨hpush.mlfqs, hpush.idleThread, hpush.running, hpush.nextPage⟩
  | createUnblock hub => exact pushReady_setup (threadUnblock_ok hub).2
  | yield hy => exact (yieldPark_tables hy).setup
  | createInit hi =>
    rw [(initThread_ok hi).2]
    exact ⟨rfl, rfl, rfl, le_rfl⟩
  | sleep _ hs =>
    obtain ⟨heap, hk, -⟩ := sleepPark_ok hs
    rw [hk]
    exact ⟨rfl, rfl, rfl, le_rfl⟩
  | createPage => exact ⟨rfl, rfl, rfl, Nat.le_succ _⟩
  | _ => exact ⟨rfl, rfl, rfl, le_rfl⟩

theorem Act.setup {m : Machine} {e : Event} {o : Outcome} (h : Act m e o) :
    m.kernel.SameSetup o.kernel := by
  cases h with
  | call _ => exact .refl _
  | exec hex => exact hex.setup
  | tick _ hint hy => exact (tick_tables hint hy).setup

/-- The running thread goes on where its code has left it. -/
theorem Act.settle_curPc {m : Machine} {e : Event} {o : Outcome} (h : Act m e o) :
    (m.settle o).curPc = o.ctl.pc := by
  change (m.settle o).pc o.kernel.running = _
  rw [settle_pc, if_pos h.setup.running]

theorem Act.settle_parked {m : Machine} {e : Event} {o : Outcome} {P : Pc → Prop} (h : Act m e o)
    (hothers : ∀ t, t ≠ m.kernel.running → P (m.pc t)) (t : Tid) (ht : t ≠ o.kernel.running) :
    P ((m.settle o).pc t) := by
  have hne : t ≠ m.kernel.running := fun heq => ht (heq.trans h.setup.running.symm)
  rw [settle_pc, if_neg hne]
  exact hothers t hne

/-- The scheduling mode is fixed at boot. -/
theorem step_mlfqs {m m' : Machine} {e : Event} (hs : step m e = .ok m') :
    m'.kernel.mlfqs = m.kernel.mlfqs := by
  obtain ⟨o, ha, -, hd⟩ := step_act hs
  exact hd.mlfqs.trans ha.setup.mlfqs

/-! ### The invariant -/

/-- Every thread is where its program point and the scheduling mode allow. -/
def Flow (m : Machine) : Prop := ∀ t, (m.ctl t).Shaped m.kernel.mlfqs t

/-- A thread outside the kernel is in no call. -/
theorem Flow.stack_of_user {m : Machine} (h : Flow m) (hpc : m.curPc = .user) :
    (m.ctl m.kernel.running).stack = [] := by
  have henc := (h m.kernel.running).enclosed
  change m.curPc.enclosed _ _ = true at henc
  rw [hpc] at henc
  exact stack_nil_of_isEmpty henc

/-- Neither is a thread in `timer_sleep`. -/
theorem Flow.ctl_of_sleepWake {m : Machine} (h : Flow m) {t : Tid} (hpc : m.pc t = .sleepWake) :
    m.ctl t = ⟨.sleepWake, []⟩ := by
  have henc := (h t).enclosed
  change (m.pc t).enclosed _ _ = true at henc
  rw [hpc] at henc
  rw [← hpc, ← stack_nil_of_isEmpty henc]
  rfl

theorem Flow.boot (mlfqs : Bool) (v : ℕ → ℕ) : Flow (boot mlfqs v) := by
  intro t
  unfold Pintos.boot
  dsimp only
  split <;> exact ⟨rfl, rfl⟩

theorem Control.Shaped.act {m : Machine} {e : Event} {o : Outcome} (h : Flow m)
    (ha : Act m e o) : o.ctl.Shaped m.kernel.mlfqs m.kernel.running := by
  have hcur := h m.kernel.running
  cases ha with
  | @call c hpc =>
    rw [h.stack_of_user hpc]
    cases c <;> exact ⟨rfl, rfl⟩
  | exec hex => exact hcur.exec hex
  | tick _ _ _ => exact hcur

/-- **Every step keeps the control flow.** -/
theorem Flow.step {m m' : Machine} {e : Event} (h : Flow m) (hs : step m e = .ok m') :
    Flow m' := by
  obtain ⟨o, ha, hctl, hd⟩ := step_act hs
  intro t
  rw [hctl, hd.mlfqs, ha.setup.mlfqs]
  by_cases ht : t = m.kernel.running
  · subst ht
    rw [Function.update_self]
    exact Control.Shaped.act h ha
  · rw [Function.update_of_ne ht]
    exact h t

/-- Only the thread in `cond_wait` is ever in `sema_down` on the semaphore of its waiter. -/
theorem Flow.eq_of_retest {m : Machine} (h : Flow m) {t u : Tid}
    (hpc : m.pc u = .semaRetest (.waiter t)) : u = t := by
  have henc := (h u).enclosed
  rw [show (m.ctl u).pc = .semaRetest (.waiter t) from hpc] at henc
  have heq : (t == u) = true := (Bool.and_eq_true_iff.mp henc).1
  exact (beq_iff_eq.mp heq).symm

/-! ### Uninterrupted runs -/

/-- The points at which a thread waits for the CPU in an uninterrupted run: outside the kernel,
where it has blocked, and where it goes on after a yield. -/
def Pc.resumable : Pc → Bool
  | .user | .idle | .exited | .semaRetest _ | .sleepWake => true
  | .semaDown (.waiter _) | .broadcast _ _ | .createInit _ _ | .createMlfqs _ _ => true
  | _ => false

/-- Every thread that is not on the CPU is at a point where an uninterrupted call gives it up. -/
def Resumable (m : Machine) : Prop :=
  ∀ t, t ≠ m.kernel.running → (m.pc t).resumable = true

theorem ret_resumable {t : Tid} {st : List Frame} (h : Pc.yield.enclosed t st = true) :
    (ret t st).pc.resumable = true := by
  match st with
  | [] => rfl
  | [f] =>
    cases f with
    | waitDown | broadcast | createInit | createMlfqs => rfl
    | _ => exact absurd h (by simp [Pc.enclosed, within, Frame.inRelease, Frame.inSignal])
  | _ :: _ :: _ => exact absurd h (by simp [Pc.enclosed, within])

section Uninterrupted

variable {m m' : Machine} {e : Event} {o : Outcome}

/-- Where an uninterrupted call gives up the CPU. -/
theorem Act.resumable (hflow : Flow m) (hu : uninterrupted m e) (ha : Act m e o)
    (hswitch : o.switch = true) : o.ctl.pc.resumable = true := by
  cases ha with
  | call => cases hswitch
  | exec hex =>
    have hshape := hflow m.kernel.running
    generalize m.ctl m.kernel.running = c at hex hshape
    cases hex with
    | yield => exact ret_resumable hshape.enclosed
    | idle | downBlock | exit | sleep => rfl
    | _ => cases hswitch
  | tick =>
    change m.curPc.resumable = true
    rcases hu rfl with hpc | hpc <;> rw [hpc] <;> rfl

theorem Resumable.boot (mlfqs : Bool) (v : ℕ → ℕ) : Resumable (boot mlfqs v) := by
  intro t _
  unfold Machine.pc Pintos.boot
  dsimp only
  split <;> rfl

/-- When the running thread gives up the CPU, every thread can be resumed where it is. -/
theorem Resumable.settle {o : Outcome} (h : Resumable m) (hflow : Flow m) (hu : uninterrupted m e)
    (ha : Act m e o) (hsw : o.switch = true) (t : Tid) : ((m.settle o).pc t).resumable = true :=
  settle_forall (P := fun pc => pc.resumable = true) (ha.resumable hflow hu hsw) h t

theorem Resumable.step (h : Resumable m) (hflow : Flow m) (hu : uninterrupted m e)
    (hs : step m e = .ok m') : Resumable m' := by
  obtain ⟨o, ha, hcase⟩ := step_cases hs
  rcases hcase with ⟨-, rfl⟩ | ⟨k, hsw, -, rfl⟩
  · exact ha.settle_parked (P := fun pc => pc.resumable = true) h
  · exact fun t _ => h.settle hflow hu ha hsw t

end Uninterrupted

end Pintos
