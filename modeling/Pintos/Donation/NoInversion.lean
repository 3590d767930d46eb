import Pintos.Foundation.WaitGraph
import Pintos.Sched.HighestRuns
import Pintos.Sync.Woken
import Pintos.Donation.Bookkeeping

/-!
# No waiter outranks the holder of its lock

The purpose of donation, for uninterrupted calls. A waiter gets above the holder of its lock in
three ways: the holder's priority is recomputed, the waiter's own priority is raised by a
donation, or the lock gets a new holder.

* The first is kept out by a condition on the run (`waitersRecorded`): `lock_release` resets
  `priority_donate`, and a thread that gets the lock next does not collect the donations of
  those that still wait, so a recomputation would overlook them.
* The second is what the recursion of `donate_priority` is for. A waiter may be above the holder
  while a donation is being passed on from it, and for good at the end of a chain of waits that
  is longer than donations reach (`Machine.Excused`).
* For the third, the thread that takes a free lock is not below any that waits for it: `sema_up`
  wakes a waiter of the highest priority (`Uninverted.freed`), woken threads are ready, and the
  running thread is not below a ready one.
-/

namespace Pintos

open Transition LockTable Function

/-! ### The condition -/

/-- The point at which `thread_update_priority` begins on the running thread. -/
def Pc.recomputes : Pc → Bool
  | .updatePriority _ => true
  | _ => false

/-- When `thread_update_priority` recomputes the running thread's priority, a thread that waits
for a lock it holds is not above the priority the running thread was given, or else its donation
is recorded in the lock. -/
def waitersRecorded : Guard Machine Event := fun m e =>
  e = .exec → m.curPc.recomputes = true → ∀ l ∈ m.kernel.cur.locksHolding,
    ∀ w < m.kernel.nextPage, (m.kernel.threads w).lockWaiting = some l →
      (m.kernel.threads w).priority ≤
        max m.kernel.cur.priorityOrigin (m.kernel.locks l).priorityDonate

instance (m : Machine) (e : Event) : Decidable (waitersRecorded m e) :=
  inferInstanceAs (Decidable (_ → _))

/-! ### Who may be above the holder -/

/-- Who waits for a lock of whom. -/
def Kernel.waitsFor (k : Kernel) : SetRel Tid Tid :=
  LockTable.waitsFor (fun t => (k.threads t).lockWaiting) fun l => (k.locks l).holder

/-- A chain of waits ends at `w` that is longer than donations are passed on. -/
def Kernel.Deep (k : Kernel) (w : Tid) : Prop :=
  ∃ n, donateMaxDepth < n ∧ ChainTo k.waitsFor n w

/-- The thread from which the donation in progress goes on. -/
def Pc.donor (k : Kernel) : Pc → Option Tid
  | .donate _ t _ | .donateTest _ t _ | .donateAssert _ t _ | .donateStore _ t _
  | .donateCompare _ t _ | .donateRaise _ t _ => some t
  | .donateNext _ t _ => (k.threads t).lockWaiting.bind fun l => (k.locks l).holder
  | _ => none

/-- Donations from `w` do not get any further, or not yet. -/
def Machine.Excused (m : Machine) (w : Tid) : Prop :=
  m.kernel.Deep w ∨ m.curPc.donor m.kernel = some w

/-- What the running thread relies on at a program point. -/
def Pc.Minding (k : Kernel) : Pc → Prop
  -- it has the unit of the lock, and nobody who waits for the lock is above it
  | .setHolder l | .acquired l => ∀ w, w ≠ k.running → (k.threads w).lockWaiting = some l →
      k.Deep w ∨ (k.threads w).priority ≤ k.cur.priority
  | .donate _ t dep | .donateTest _ t dep | .donateAssert _ t dep | .donateStore _ t dep
  | .donateCompare _ t dep | .donateRaise _ t dep | .donateNext _ t dep =>
    ChainTo k.waitsFor dep t
  | .updateScan _ p _ _ => ∀ l ∈ k.cur.locksHolding, ∀ w, (k.threads w).lockWaiting = some l →
      (k.threads w).priority ≤ max p (k.locks l).priorityDonate
  | .updateStore _ p => ∀ l ∈ k.cur.locksHolding, ∀ w, (k.threads w).lockWaiting = some l →
      (k.threads w).priority ≤ p
  | _ => True

/-- **No inversion**, in every state of a run. -/
structure Uninverted (m : Machine) : Prop where
  /-- A waiter is not above the holder. -/
  held : ∀ w l h, (m.kernel.threads w).lockWaiting = some l → (m.kernel.locks l).holder = some h →
    m.Excused w ∨ (m.kernel.threads w).priority ≤ (m.kernel.threads h).priority
  /-- Of a free lock, a waiter that is queued is not above one that has been woken. -/
  freed : ∀ l, (m.kernel.semas (.lock l)).value = 1 → ∀ w ∈ (m.kernel.semas (.lock l)).waiters,
    ∃ u ∈ woken m (.lock l),
      m.Excused w ∨ (m.kernel.threads w).priority ≤ (m.kernel.threads u).priority
  cur : m.curPc.Minding m.kernel

/-- The invariants of uninterrupted runs that this one builds on. -/
structure Orderly (m : Machine) : Prop extends Calm m where
  donated : Donated m
  woken : WokenReady m

theorem Orderly.boot (v : ℕ → ℕ) : Orderly (boot false v) :=
  ⟨.boot v, .boot v, .boot false v⟩

theorem Orderly.step {m m' : Machine} {e : Event} (h : Orderly m) (hu : uninterrupted m e)
    (hr : setsInRange m e) (hs : step m e = .ok m') : Orderly m' :=
  ⟨h.toCalm.step hu hs, h.donated.step h.scheduled h.locked h.mode hu.updatesWhole hr hs,
    h.woken.step h.scheduled hs⟩

/-! ### Where a waiting thread is -/

section Waiting

variable {m : Machine} {w : Tid} {l : LockId}

theorem Locked.awaited (hlock : Locked m) (hw : (m.kernel.threads w).lockWaiting = some l) :
    (m.pc w).phase.awaited = some l :=
  (hlock.exclusive.waiting w).symm.trans hw

/-- A thread off the CPU that waits for a lock is in the loop of `sema_down`. -/
theorem Serial.retest_of_waiting (h : Serial m) (hne : w ≠ m.kernel.running)
    (hw : (m.kernel.threads w).lockWaiting = some l) : m.pc w = .semaRetest (.lock l) := by
  have hres := h.resumable w hne
  have hph := h.locked.awaited hw
  cases hpc : m.pc w with
  | semaRetest s =>
    rw [hpc] at hph
    cases s with
    | lock l' =>
      cases hph
      rfl
    | _ => exact absurd hph (by simp [Pc.phase, Phase.awaited])
  | semaDown s =>
    rw [hpc] at hph hres
    cases s with
    | waiter => exact absurd hph (by simp [Pc.phase, Phase.awaited])
    | _ => exact absurd hres (by simp [Pc.resumable])
  | user | idle | exited | sleepWake | broadcast | createInit | createMlfqs =>
    rw [hpc] at hph
    exact absurd hph (by simp [Pc.phase, Phase.awaited])
  | _ =>
    rw [hpc] at hres
    exact absurd hres (by simp [Pc.resumable])

theorem Locked.waiting_of_retest (hlock : Locked m) (hpc : m.pc w = .semaRetest (.lock l)) :
    (m.kernel.threads w).lockWaiting = some l := by
  refine (hlock.exclusive.waiting w).trans ?_
  change (m.pc w).phase.awaited = some l
  rw [hpc]
  rfl

/-- A waiting thread is not under construction. -/
theorem Locked.old_of_waiting (hlock : Locked m) (hsch : Scheduled m)
    (hw : (m.kernel.threads w).lockWaiting = some l) :
    w < m.kernel.nextPage ∧ ∀ u, (m.ctl u).embryo ≠ some w := by
  refine hsch.queues.old_of_pc fun hpc => ?_
  have hph := hlock.awaited hw
  rw [hpc] at hph
  exact absurd hph (by simp [Pc.phase, Phase.awaited])

end Waiting

/-! ### What a step does to priorities and chains -/

/-- The points that store a priority into the running thread. -/
def Pc.setsOwn : Pc → Bool
  | .updateStore _ _ | .setStore _ _ => true
  | _ => false

theorem LockFrame.chainTo {k k' : Kernel} (hf : LockFrame k k') {n : ℕ} {t : Tid}
    (h : ChainTo k.waitsFor n t) : ChainTo k'.waitsFor n t := by
  have hsame : k'.waitsFor = k.waitsFor :=
    congrArg₂ LockTable.waitsFor (funext hf.waiting) (funext hf.holder)
  rw [hsame]
  exact h

theorem donor_next {k : Kernel} {l lw : LockId} {t x : Tid} {dep : ℕ}
    (hw : (k.threads t).lockWaiting = some lw) (hx : (k.locks lw).holder = some x) :
    (Pc.donateNext l t dep).donor k = some x := by
  change ((k.threads t).lockWaiting.bind fun l => (k.locks l).holder) = some x
  rw [hw]
  exact hx

section Code

variable {m m' : Machine} {e : Event} {c c' : Control} {o : Outcome} {w : Tid} {l : LockId}

/-- The waiting thread itself does not store a priority of its own. -/
theorem Locked.not_setsOwn (hlock : Locked m) (hw : (m.kernel.threads w).lockWaiting = some l)
    (hown : m.curPc.setsOwn = true) : w ≠ m.kernel.running := by
  rintro rfl
  have hph := hlock.awaited hw
  change m.curPc.phase.awaited = some l at hph
  cases hpc : m.curPc with
  | updateStore u p =>
    rw [hpc] at hph
    cases u <;> exact absurd hph (by simp [Pc.phase, Updater.phase, Phase.awaited])
  | setStore =>
    rw [hpc] at hph
    exact absurd hph (by simp [Pc.phase, Phase.awaited])
  | _ =>
    rw [hpc] at hown
    exact absurd hown (by simp [Pc.setsOwn])

/-- **The priority of another thread** changes only by a donation, which goes on from there. -/
theorem Act.priority_effect (h : Orderly m) (ha : Act m e o) {t : Tid}
    (hemb : ∀ u, (m.ctl u).embryo ≠ some t)
    (hown : e = .exec → m.curPc.setsOwn = true → t ≠ m.kernel.running) :
    (o.kernel.threads t).priority = (m.kernel.threads t).priority ∨
      (m.kernel.threads t).priority < (o.kernel.threads t).priority ∧
        o.ctl.pc.donor o.kernel = some t := by
  by_cases hstake : e = .exec → m.curPc.writesStake = false
  · exact .inl ((ha.stakeFrame h.mode hstake).priority t)
  · obtain ⟨rfl, hwrites⟩ := Classical.not_imp.mp hstake
    have hprep := h.donated.prepared
    have hmode := (h.scheduled.flow m.kernel.running).mode
    rw [h.mode] at hmode
    have hne : ∀ x : Thread, t ≠ m.kernel.running →
        (update m.kernel.threads m.kernel.running x t).priority =
          (m.kernel.threads t).priority := fun x ht => by rw [update_of_ne ht]
    cases ha with
    | exec hex =>
      have hemb := hemb m.kernel.running
      unfold Machine.curPc Machine.pc at hwrites hown hprep
      generalize m.ctl m.kernel.running = c at hex hwrites hown hprep hmode hemb
      cases hex with
      | setHolder | donateStore => exact .inl rfl
      | pushHolding | setWaiting | acquired | releaseClear | setOrigin =>
        refine .inl (apply_update_same Thread.priority ?_ t)
        rfl
      | updateStore | setStore => exact .inl (hne _ (hown rfl rfl))
      | updateMlfqs hst => cases hst <;> exact absurd hmode (by simp [Pc.inMode])
      | @donateRaise l t' dep lw x st hw hx =>
        by_cases htx : t = x
        · subst htx
          have hset : (m.kernel.setThread t { m.kernel.threads t with
              priority := (m.kernel.threads t').priority }).threads t =
              { m.kernel.threads t with priority := (m.kernel.threads t').priority } :=
            update_self ..
          refine .inr ⟨?_, ?_⟩
          · rw [hset]
            exact hprep lw t hw hx
          · exact donor_next ((apply_update_same Thread.lockWaiting (by rfl) t').trans hw) hx
        · refine .inl ?_
          change (update m.kernel.threads x _ t).priority = _
          rw [update_of_ne htx]
      | @createInit p t' st k' hi =>
        obtain ⟨-, rfl⟩ := initThread_ok hi
        have htt : t ≠ t' := by
          rintro rfl
          exact hemb rfl
        refine .inl ?_
        change (update m.kernel.threads t' _ t).priority = _
        rw [update_of_ne htt]
      | silent => exact .inl rfl
      | downBlock hpc | downTake hpc =>
        rcases hpc with rfl | rfl <;> exact absurd rfl hwrites
      | _ => exact absurd rfl hwrites

/-- The priority of a waiting thread. -/
theorem Act.priority_of_waiting (h : Orderly m) (ha : Act m e o)
    (hw : (m.kernel.threads w).lockWaiting = some l) :
    (o.kernel.threads w).priority = (m.kernel.threads w).priority ∨
      (m.kernel.threads w).priority < (o.kernel.threads w).priority ∧ (m.settle o).Excused w := by
  have heffect := ha.priority_effect h (h.locked.old_of_waiting h.scheduled hw).2
    fun _ hown => h.locked.not_setsOwn hw hown
  refine heffect.imp_right fun hraise => ⟨hraise.1, .inr ?_⟩
  rw [ha.settle_curPc]
  exact hraise.2

/-- A chain that ends at a waiting thread stays. -/
theorem Act.deep (h : Orderly m) (ha : Act m e o) (hw : (m.kernel.threads w).lockWaiting ≠ none)
    (hdeep : m.kernel.Deep w) : o.kernel.Deep w := by
  obtain ⟨a, hmove, -⟩ := ha.lockMove h.scheduled h.locked
  obtain ⟨n, hn, hchain⟩ := hdeep
  refine ⟨n, hn, hchain.mono (P := fun t => (m.kernel.threads t).lockWaiting ≠ none) ?_ ?_ hw⟩
  · rintro p q ⟨l, hp, -⟩
    rw [show (m.kernel.threads p).lockWaiting = some l from hp]
    simp
  · exact fun p q hpq hq => h.locked.exclusive.waitsFor_move hmove hpq hq

/-! ### Donations get through -/

/-- The priority of `w` has been passed on through `l`. -/
def Kernel.Passed (k : Kernel) (w : Tid) (l : LockId) : Prop :=
  (∀ x, (k.locks l).holder = some x → (k.threads w).priority ≤ (k.threads x).priority) ∧
    ((k.locks l).holder = none → (k.threads w).priority ≤ priMin)

/-- A donation that `priority_donate` records has got through: nobody is in the middle of one. -/
theorem Orderly.passed_of_recorded (h : Orderly m) (hquiet : m.curPc.storing = none)
    (hle : (m.kernel.threads w).priority ≤ (m.kernel.locks l).priorityDonate) :
    m.kernel.Passed w l := by
  rcases h.donated.covered l with ⟨hheld, hnone⟩ | ⟨t, ⟨q, hq⟩, -, -⟩
  · exact ⟨fun x hx => hle.trans (hheld x hx), fun hx => hle.trans (hnone hx).le⟩
  · have hstoring : (m.pc q).storing = none := by
      by_cases hqr : q = m.kernel.running
      · rw [hqr]
        exact hquiet
      · exact (Pc.resumable_quiet (h.resumable q hqr)).2
    exact absurd (hstoring.symm.trans hq) (by simp)

/-- The donation goes on from `w`, stops because the chain is too long, or has got through. -/
theorem Silent.excused (h : Orderly m) (hctl : m.ctl m.kernel.running = c)
    (hmind : c.pc.Minding m.kernel) (hw : (m.kernel.threads w).lockWaiting = some l)
    (hdonor : c.pc.donor m.kernel = some w) (hs : Silent m.kernel c c') :
    m.kernel.Deep w ∨ c'.pc.donor m.kernel = some w ∨ m.kernel.Passed w l := by
  have hpc : m.curPc = c.pc := congrArg Control.pc hctl
  cases hs with
  | @donateStop l' t dep st hstop =>
    cases hdonor
    rcases hstop with hmlfqs | hdep | hnone
    · exact absurd (h.mode.symm.trans hmlfqs) (by simp)
    · exact .inl ⟨dep, hdep, hmind⟩
    · exact absurd (hnone.symm.trans hw) (by simp)
  | donateGo | donateMore | donateAssert | donateBelow => exact .inr (.inl hdonor)
  | @donateEnough l' t dep lw st hlw hle =>
    cases hdonor
    obtain rfl := Option.some.inj (hlw.symm.trans hw)
    exact .inr (.inr (h.passed_of_recorded (by rw [hpc]; rfl) hle))
  | @donateAbove l' t dep lw x st hlw hx hle =>
    cases hdonor
    obtain rfl := Option.some.inj (hlw.symm.trans hw)
    refine .inr (.inr ⟨fun y hy => ?_, fun hy => absurd (hx.symm.trans hy) (by simp)⟩)
    obtain rfl := Option.some.inj (hx.symm.trans hy)
    exact hle
  | donateNext hlw hx => exact .inr (.inl ((donor_next hlw hx).symm.trans hdonor))
  | _ => exact absurd hdonor (by simp [Pc.donor])

theorem Exec.excused (h : Orderly m) (hctl : m.ctl m.kernel.running = c)
    (hmind : c.pc.Minding m.kernel) (hw : (m.kernel.threads w).lockWaiting = some l)
    (hdonor : c.pc.donor m.kernel = some w) (hex : Exec m.kernel c o) :
    o.kernel.Deep w ∨ o.ctl.pc.donor o.kernel = some w ∨ o.kernel.Passed w l := by
  cases hex with
  | silent hs => exact hs.excused h hctl hmind hw hdonor
  | donateStore => exact .inr (.inl hdonor)
  | @donateRaise l' t dep lw x st hlw hx =>
    obtain rfl := Option.some.inj hdonor
    obtain rfl := Option.some.inj (hlw.symm.trans hw)
    have hprep : m.curPc.Prepared m.kernel := h.donated.prepared
    rw [show m.curPc = .donateRaise l' t dep from congrArg Control.pc hctl] at hprep
    have hlt := hprep lw x hlw hx
    have htx : t ≠ x := by
      rintro rfl
      exact absurd hlt (lt_irrefl _)
    refine .inr (.inr ⟨fun y hy => ?_, fun hy => absurd (hx.symm.trans hy) (by simp)⟩)
    obtain rfl := Option.some.inj (hx.symm.trans hy)
    change (update m.kernel.threads x _ t).priority ≤
      (update m.kernel.threads x _ x).priority
    rw [update_self, update_of_ne htx]
  | downBlock hpc | downTake hpc => rcases hpc with rfl | rfl <;> exact absurd hdonor (by simp [Pc.donor])
  | updateMlfqs hst => cases hst <;> exact absurd hdonor (by simp [Pc.donor])
  | _ => exact absurd hdonor (by simp [Pc.donor])

/-- **An excused waiter** is still excused, or its donation has got through. -/
theorem Act.excused (h : Orderly m) (hu : uninterrupted m e) (hI : Uninverted m) (ha : Act m e o)
    (hw : (m.kernel.threads w).lockWaiting = some l) (hexc : m.Excused w) :
    (m.settle o).Excused w ∨ o.kernel.Passed w l := by
  unfold Machine.Excused
  rw [ha.settle_curPc, or_assoc]
  rcases hexc with hdeep | hdonor
  · exact .inl (ha.deep h (by rw [hw]; simp) hdeep)
  · cases ha with
    | call hpc =>
      rw [hpc] at hdonor
      exact absurd hdonor (by simp [Pc.donor])
    | exec hex => exact hex.excused h rfl hI.cur hw hdonor
    | tick =>
      rcases hu rfl with hpc | hpc <;>
      · rw [hpc] at hdonor
        exact absurd hdonor (by simp [Pc.donor])

/-! ### Locks with a holder -/

/-- A wait that was there before, for a holder whose priority does not go down. -/
theorem Act.held_of_held (h : Orderly m) (hu : uninterrupted m e) (hI : Uninverted m)
    (ha : Act m e o) {x : Tid} (hw : (m.kernel.threads w).lockWaiting = some l)
    (hx : (m.kernel.locks l).holder = some x) (hx' : (o.kernel.locks l).holder = some x)
    (hge : (m.kernel.threads x).priority ≤ (o.kernel.threads x).priority) :
    (m.settle o).Excused w ∨ (o.kernel.threads w).priority ≤ (o.kernel.threads x).priority := by
  rcases hI.held w l x hw hx with hexc | hle
  · exact (ha.excused h hu hI hw hexc).imp_right fun hpassed => hpassed.1 x hx'
  · rcases ha.priority_of_waiting h hw with heq | ⟨-, hexc⟩
    · rw [heq]
      exact .inr (hle.trans hge)
    · exact .inl hexc

/-- The running thread stores a priority of its own: it is not below the old one, or not below the
waiters of the locks it holds. -/
theorem Act.held_of_store (h : Orderly m) (hu : uninterrupted m e) (hI : Uninverted m)
    (ha : Act m e o) {x : Tid} {p : ℤ} (hk : o.kernel = m.kernel.setCurPriority p)
    (hown : m.curPc.setsOwn = true) (hmarks : ∀ l', m.curPc.phase ≠ .marks l')
    (hw : (o.kernel.threads w).lockWaiting = some l) (hx : (o.kernel.locks l).holder = some x)
    (hcase : l ∈ m.kernel.cur.locksHolding → (m.kernel.threads w).lockWaiting = some l →
      m.kernel.cur.priority ≤ p ∨ (m.kernel.threads w).priority ≤ p) :
    (m.settle o).Excused w ∨ (o.kernel.threads w).priority ≤ (o.kernel.threads x).priority := by
  have hw₀ : (m.kernel.threads w).lockWaiting = some l := by
    rw [hk] at hw
    exact (apply_update_same Thread.lockWaiting (by rfl) w).symm.trans hw
  have hx₀ : (m.kernel.locks l).holder = some x := by
    rw [hk] at hx
    exact hx
  have hsame : ∀ t, t ≠ m.kernel.running →
      (o.kernel.threads t).priority = (m.kernel.threads t).priority := by
    intro t ht
    rw [hk]
    exact congrArg Thread.priority (update_of_ne ht ..)
  by_cases hxr : x = m.kernel.running
  · subst hxr
    have hset : (o.kernel.threads m.kernel.running).priority = p := by
      rw [hk]
      change (update m.kernel.threads m.kernel.running _ m.kernel.running).priority = p
      rw [update_self]
    have hmem : l ∈ m.kernel.cur.locksHolding :=
      ((h.locked.exclusive.holder _ l).mp hx₀).resolve_right (hmarks l)
    rcases hcase hmem hw₀ with hge | hle
    · exact ha.held_of_held h hu hI hw₀ hx₀ hx (hge.trans hset.ge)
    · rw [hset, hsame w (h.locked.not_setsOwn hw₀ hown)]
      exact .inr hle
  · exact ha.held_of_held h hu hI hw₀ hx₀ hx (hsame x hxr).ge

theorem Exec.held (h : Orderly m) (hu : uninterrupted m .exec) (hI : Uninverted m)
    (hctl : m.ctl m.kernel.running = c) (ha : Act m .exec o) (hex : Exec m.kernel c o) {x : Tid}
    (hwrites : c.pc.writesStake = true) (hw : (o.kernel.threads w).lockWaiting = some l)
    (hx : (o.kernel.locks l).holder = some x) :
    (m.settle o).Excused w ∨ (o.kernel.threads w).priority ≤ (o.kernel.threads x).priority := by
  have hpc : m.curPc = c.pc := congrArg Control.pc hctl
  have hmind : c.pc.Minding m.kernel := hpc ▸ hI.cur
  have hprep : c.pc.Prepared m.kernel := hpc ▸ h.donated.prepared
  have hphase : m.lockTable.phase m.kernel.running = c.pc.phase := congrArg Pc.phase hpc
  have hawaits : (m.kernel.threads m.kernel.running).lockWaiting = c.pc.phase.awaited :=
    (h.locked.exclusive.waiting m.kernel.running).trans (congrArg Phase.awaited hphase)
  -- a wait that was there before, at a point that does not lower the holder
  have hold : c.pc.setsOwn = false → (m.kernel.threads w).lockWaiting = some l →
      (m.kernel.locks l).holder = some x →
      (m.settle o).Excused w ∨ (o.kernel.threads w).priority ≤ (o.kernel.threads x).priority := by
    intro hown hw₀ hx₀
    refine ha.held_of_held h hu hI hw₀ hx₀ hx ?_
    rcases ha.priority_effect h (t := x)
      (fun u hemb => h.locked.holder_ne_embryo h.scheduled hemb l hx₀)
      (fun _ hset => absurd hset (by rw [hpc, hown]; simp)) with heq | ⟨hlt, -⟩
    · exact heq.ge
    · exact le_of_lt hlt
  -- the running thread has taken the lock
  have htaken : w ≠ m.kernel.running → (m.kernel.threads w).lockWaiting = some l →
      (m.kernel.Deep w ∨ (m.kernel.threads w).priority ≤ m.kernel.cur.priority) →
      (m.settle o).Excused w ∨ (m.kernel.threads w).priority ≤ m.kernel.cur.priority := by
    intro _ hw₀ hcase
    refine hcase.imp_left fun hdeep => .inl (ha.deep h ?_ hdeep)
    rw [hw₀]
    simp
  cases hex with
  | @setHolder l' st =>
    by_cases hl : l = l'
    · subst hl
      have hholder : (m.kernel.setLock l { m.kernel.locks l with
          holder := some m.kernel.running }).locks l =
          { m.kernel.locks l with holder := some m.kernel.running } := update_self ..
      obtain rfl := Option.some.inj ((congrArg Lock.holder hholder).symm.trans hx)
      have hne : w ≠ m.kernel.running := by
        rintro rfl
        exact absurd (hawaits.symm.trans hw) (by simp [Pc.phase, Phase.awaited])
      exact htaken hne hw (hmind w hne hw)
    · exact hold rfl hw ((congrArg Lock.holder (update_of_ne hl ..)).symm.trans hx)
  | @acquired l' st =>
    have hself : (update m.kernel.threads m.kernel.running { m.kernel.cur with
        lockWaiting := none, locksHolding := m.kernel.cur.locksHolding ++ [l'] }
        m.kernel.running) = { m.kernel.cur with
        lockWaiting := none, locksHolding := m.kernel.cur.locksHolding ++ [l'] } :=
      update_self ..
    have hne : w ≠ m.kernel.running := by
      rintro rfl
      exact absurd ((congrArg Thread.lockWaiting hself).symm.trans hw) (by simp)
    have hother := update_of_ne hne { m.kernel.cur with
      lockWaiting := none, locksHolding := m.kernel.cur.locksHolding ++ [l'] } m.kernel.threads
    have hw₀ := (congrArg Thread.lockWaiting hother).symm.trans hw
    by_cases hl : l = l'
    · subst hl
      have hholder : (m.kernel.setLock l { m.kernel.locks l with
          holder := some m.kernel.running }).locks l =
          { m.kernel.locks l with holder := some m.kernel.running } := update_self ..
      obtain rfl := Option.some.inj ((congrArg Lock.holder hholder).symm.trans hx)
      have hle := htaken hne hw₀ (hmind w hne hw₀)
      rw [← congrArg Thread.priority hother] at hle
      exact hle.imp_right fun hle => hle.trans (congrArg Thread.priority hself).ge
    · exact hold rfl hw₀ ((congrArg Lock.holder (update_of_ne hl ..)).symm.trans hx)
  | @setWaiting l' st =>
    by_cases hwr : w = m.kernel.running
    · -- the donation begins here
      refine .inl (.inr ?_)
      rw [ha.settle_curPc, hwr]
      rfl
    · exact hold rfl ((congrArg Thread.lockWaiting (update_of_ne hwr ..)).symm.trans hw) hx
  | pushHolding | setOrigin | donateRaise =>
    exact hold rfl ((apply_update_same Thread.lockWaiting (by rfl) w).symm.trans hw) hx
  | donateStore => exact hold rfl hw ((apply_update_same Lock.holder (by rfl) l).symm.trans hx)
  | @releaseClear l' st =>
    by_cases hl : l = l'
    · subst hl
      have hcleared : (m.kernel.setLock l ⟨none, priMin⟩).locks l = ⟨none, priMin⟩ :=
        update_self ..
      exact absurd ((congrArg Lock.holder hcleared).symm.trans hx) (by simp)
    · exact hold rfl ((apply_update_same Thread.lockWaiting (by rfl) w).symm.trans hw)
        ((congrArg Lock.holder (update_of_ne hl ..)).symm.trans hx)
  | @updateStore u p st =>
    refine ha.held_of_store h hu hI rfl (by rw [hpc]; rfl) ?_ hw hx
      fun hmem hw₀ => .inr (hmind l hmem w hw₀)
    rw [hpc]
    cases u <;> simp [Pc.phase, Updater.phase]
  | @setStore p old st =>
    refine ha.held_of_store h hu hI rfl (by rw [hpc]; rfl) (by rw [hpc]; simp [Pc.phase]) hw hx
      fun hmem _ => ?_
    rcases hprep with hlt | hnil
    · exact .inl (le_of_lt hlt)
    · rw [hnil] at hmem
      exact absurd hmem List.not_mem_nil
  | updateMlfqs hst =>
    have hmode := (h.scheduled.flow m.kernel.running).mode
    rw [hctl, h.mode] at hmode
    cases hst <;> exact absurd hmode (by simp [Pc.inMode])
  | @createInit p t st k' hi =>
    obtain ⟨-, rfl⟩ := initThread_ok hi
    have hwt : w ≠ t := by
      rintro rfl
      have hfresh : (m.kernel.setThread w (freshThread .blocked p)).threads w =
          freshThread .blocked p := update_self ..
      exact absurd ((congrArg Thread.lockWaiting hfresh).symm.trans hw) (by simp [freshThread])
    exact hold rfl ((congrArg Thread.lockWaiting (update_of_ne hwt ..)).symm.trans hw) hx
  | silent => exact ha.held_of_held h hu hI hw hx hx le_rfl
  | downBlock hpcs | downTake hpcs =>
    rcases hpcs with rfl | rfl <;> exact absurd hwrites (by simp [Pc.writesStake])
  | _ => exact absurd hwrites (by simp [Pc.writesStake])

/-- **A waiter is not above the holder**, after the running thread's code. -/
theorem Act.held (h : Orderly m) (hu : uninterrupted m e) (hI : Uninverted m) (ha : Act m e o)
    {x : Tid} (hw : (o.kernel.threads w).lockWaiting = some l)
    (hx : (o.kernel.locks l).holder = some x) :
    (m.settle o).Excused w ∨ (o.kernel.threads w).priority ≤ (o.kernel.threads x).priority := by
  by_cases hstake : e = .exec → m.curPc.writesStake = false
  · have hf := ha.stakeFrame h.mode hstake
    have hx₀ : (m.kernel.locks l).holder = some x := hf.locks ▸ hx
    exact ha.held_of_held h hu hI ((hf.waiting w).symm.trans hw) hx₀ hx (hf.priority x).ge
  · obtain ⟨rfl, hwrites⟩ := Classical.not_imp.mp hstake
    have hexec := ha
    cases ha with
    | exec hex => exact hex.held h hu hI rfl hexec (Bool.not_eq_false _ ▸ hwrites) hw hx

/-! ### Free locks -/

/-- **A queued waiter of a free lock is not above a woken one**, after the running thread's
code. -/
theorem Act.freed (h : Orderly m) (hu : uninterrupted m e) (hr : setsInRange m e)
    (hI : Uninverted m) (ha : Act m e o) (hv : (o.kernel.semas (.lock l)).value = 1)
    (hw : w ∈ (o.kernel.semas (.lock l)).waiters) :
    ∃ u ∈ Pintos.woken (m.settle o) (.lock l),
      (m.settle o).Excused w ∨ (o.kernel.threads w).priority ≤ (o.kernel.threads u).priority := by
  have hpages : m.kernel.nextPage ≤ (m.settle o).kernel.nextPage := ha.setup.nextPage
  have hpc : ∀ t, t ≠ m.kernel.running → (m.settle o).pc t = m.pc t := fun t ht => by
    rw [settle_pc, if_neg ht]
  cases ha.sema (.lock l) with
  | quiet _ _ hre hsame =>
    rw [hsame] at hv hw
    obtain ⟨u, hmem, hcase⟩ := hI.freed l hv w hw
    have hlist : ((m.settle o).kernel.semas (.lock l)).waiters ⊆
        (m.kernel.semas (.lock l)).waiters := by
      rw [show (m.settle o).kernel.semas (.lock l) = _ from hsame]
      exact List.Subset.refl _
    have hsub := woken_mono hpages hpc hlist
    rw [woken_erase_of_ne hre] at hsub
    refine ⟨u, hsub hmem, ?_⟩
    have hwait := h.locked.waiting_of_retest (h.scheduled.queues.waiting _ w hw).2
    rcases hcase with hexc | hle
    · refine (ha.excused h hu hI hwait hexc).imp_right fun hpassed => ?_
      -- the lock has no holder, so the donation of `w` was worth nothing
      obtain ⟨a, hmove, -⟩ := ha.lockMove h.scheduled h.locked
      have hnone := (h.locked.exclusive.step hmove).holder_eq_none_of_value (l := l)
        (by rw [← hv, ← hsame]; rfl)
      exact (hpassed.2 hnone).trans ((ha.bounded h.scheduled h.mode hr h.donated).1 u).1
    · have hupc : m.pc u = .semaRetest (.lock l) := (Finset.mem_filter.mp hmem).2.1
      have huwait := h.locked.waiting_of_retest hupc
      have hge : (m.kernel.threads u).priority ≤ (o.kernel.threads u).priority := by
        rcases ha.priority_of_waiting h huwait with heq | ⟨hlt, -⟩
        · exact heq.ge
        · exact le_of_lt hlt
      rcases ha.priority_of_waiting h hwait with heq | ⟨-, hexc⟩
      · rw [heq]
        exact .inr (hle.trans hge)
      · exact .inl hexc
  | block _ _ _ _ hsame =>
    rw [hsame] at hv
    cases hv
  | take _ _ hpos hsame =>
    have hone : (m.kernel.semas (.lock l)).value = 1 := h.locked.exclusive.value_eq_one hpos
    rw [hsame] at hv
    rw [hone] at hv
    cases hv
  | up _ _ _ hsame =>
    rw [hsame] at hw
    exact absurd hw List.not_mem_nil
  | wake t hup _ hmem hmax _ hsame =>
    have hcur := curPc_of_performsUp hup
    have hf := ha.stakeFrame h.mode fun _ => by rw [hcur]; rfl
    refine ⟨t, mem_woken_of_wake h.scheduled (by rw [hcur]; simp) hpages hpc hmem
      (by rw [show (m.settle o).kernel.semas (.lock l) = _ from hsame]), .inr ?_⟩
    rw [hf.priority, hf.priority]
    rw [hsame] at hw
    exact hmax w (List.mem_of_mem_erase hw)
  | init heq => cases heq

/-! ### The running thread -/

/-- **Who takes a free lock** is not below anybody who waits for it. -/
theorem Uninverted.taker_highest (hI : Uninverted m) (h : Orderly m)
    (hdonor : m.curPc.donor m.kernel = none) (hunder : m.kernel.Under m.kernel.cur.priority)
    (hv : 0 < (m.kernel.semas (.lock l)).value) (hne : w ≠ m.kernel.running)
    (hw : (m.kernel.threads w).lockWaiting = some l) :
    m.kernel.Deep w ∨ (m.kernel.threads w).priority ≤ m.kernel.cur.priority := by
  have hone : (m.kernel.semas (.lock l)).value = 1 := h.locked.exclusive.value_eq_one hv
  rcases h.woken _ w (h.retest_of_waiting hne hw) hne with hqueued | hready
  · obtain ⟨u, hu, hcase⟩ := hI.freed l hone w hqueued
    obtain ⟨-, hretest, hnot⟩ := Finset.mem_filter.mp hu
    -- the woken thread is the one that takes the lock, or ready
    have hle : (m.kernel.threads u).priority ≤ m.kernel.cur.priority := by
      by_cases hur : u = m.kernel.running
      · rw [hur]
        exact le_rfl
      · exact hunder u ((h.woken _ u hretest hur).resolve_left hnot)
    rcases hcase with (hdeep | hdon) | hwu
    · exact .inl hdeep
    · exact absurd (hdonor.symm.trans hdon) (by simp)
    · exact .inr (hwu.trans hle)
  · exact .inr (hunder w hready)

theorem ret_minding {k : Kernel} (t : Tid) (st : List Frame) : (ret t st).pc.Minding k := by
  cases st with
  | nil => trivial
  | cons f st => cases f <;> trivial

theorem Silent.minding (h : Orderly m) (hctl : m.ctl m.kernel.running = c)
    (hg : waitersRecorded m .exec) (hs : Silent m.kernel c c') (hmind : c.pc.Minding m.kernel) :
    c'.pc.Minding m.kernel := by
  have hpc : m.curPc = c.pc := congrArg Control.pc hctl
  cases hs with
  | donateGo | donateMore | donateAssert | donateBelow | donateAbove => exact hmind
  | donateNext hlw hx => exact hmind.snoc ⟨_, hlw, hx⟩
  | updateNone _ hnil =>
    intro l hl
    rw [hnil] at hl
    exact absurd hl List.not_mem_nil
  | updateStart =>
    intro l hl w hw
    exact hg rfl (by rw [hpc]; rfl) l hl w (h.locked.old_of_waiting h.scheduled hw).1 hw
  | updateScan => exact hmind
  | @updateLast u p mx st =>
    intro l hl w hw
    have hprep : m.curPc.Prepared m.kernel := h.donated.prepared
    rw [hpc] at hprep
    have hlast : Silent m.kernel ⟨.updateScan u p mx [], st⟩
        ⟨.updateStore u (max p (m.kernel.locks mx).priorityDonate), st⟩ := .updateLast
    have hmax : (Pc.updateStore u (max p (m.kernel.locks mx).priorityDonate)).Prepared m.kernel :=
      hlast.prepared hprep
    exact (hmind l hl w hw).trans (max_le (le_max_left _ _) (hmax l hl))
  | _ => first | trivial | exact ret_minding _ _

theorem Exec.minding (h : Orderly m) (hI : Uninverted m) (hctl : m.ctl m.kernel.running = c)
    (hg : waitersRecorded m .exec) (hex : Exec m.kernel c o) : o.ctl.pc.Minding o.kernel := by
  have hpc : m.curPc = c.pc := congrArg Control.pc hctl
  have hmind : c.pc.Minding m.kernel := hpc ▸ hI.cur
  have htop : c.pc.Topmost m.kernel := hpc ▸ h.topmost
  cases hex with
  | silent hs => exact hs.minding h hctl hg hmind
  | @downTake pc s st hpcs hv =>
    cases s with
    | lock l =>
      rcases hpcs with rfl | rfl
      · -- it went on to `sema_down` because the lock was taken
        rw [htop.2] at hv
        exact absurd hv (lt_irrefl 0)
      · exact fun w hne hw => hI.taker_highest h (by rw [hpc]; rfl) htop.2 hv hne hw
    | sema | waiter => exact ret_minding _ _
  | @tryTake l wait st hv =>
    exact fun w hne hw => hI.taker_highest h (by rw [hpc]; rfl) htop.2 hv hne hw
  | setWaiting => exact .zero _
  | donateStore =>
    refine LockFrame.chainTo (.setLock ?_) hmind
    rfl
  | donateRaise =>
    refine LockFrame.chainTo (.setThread ?_ ?_) hmind <;> rfl
  | @updateStore u p st => cases u <;> trivial
  | updateMlfqs hst =>
    cases hst with
    | @clamp u => cases u <;> trivial
    | _ => trivial
  | _ => first | trivial | exact ret_minding _ _

theorem minding_of_resumable {k : Kernel} {pc : Pc} (h : pc.resumable = true) :
    pc.Minding k ∧ pc.donor k = none := by
  cases pc with
  | user | idle | exited | semaRetest | sleepWake | semaDown | broadcast | createInit
  | createMlfqs => exact ⟨trivial, rfl⟩
  | _ => exact absurd h (by simp [Pc.resumable])

theorem Act.minding (h : Orderly m) (hI : Uninverted m) (hu : uninterrupted m e)
    (hg : waitersRecorded m e) (ha : Act m e o) : o.ctl.pc.Minding o.kernel := by
  cases ha with
  | @call c => cases c <;> trivial
  | exec hex => exact hex.minding h hI rfl hg
  | tick =>
    refine (minding_of_resumable ?_).1
    change m.curPc.resumable = true
    rcases hu rfl with hpc | hpc <;> rw [hpc] <;> rfl

/-! ### Whole runs -/

theorem Uninverted.dispatched {k : Kernel} (hI : Uninverted m) (hd : Dispatched m.kernel k)
    (hleft : m.curPc.resumable = true) (hnext : (m.pc k.running).resumable = true) :
    Uninverted ⟨k, m.ctl⟩ := by
  have hf := StakeFrame.dispatched hd
  have hexc : ∀ w, m.Excused w → Machine.Excused ⟨k, m.ctl⟩ w := by
    rintro w (⟨n, hn, hchain⟩ | hdonor)
    · exact .inl ⟨n, hn, LockFrame.chainTo ⟨hf.holding, hf.waiting, fun l => by rw [hf.locks]⟩ hchain⟩
    · exact absurd ((minding_of_resumable hleft).2.symm.trans hdonor) (by simp)
  refine ⟨fun w l x hw hx => ?_, fun l hv w hw => ?_, (minding_of_resumable hnext).1⟩
  · rw [hf.waiting] at hw
    rw [hf.locks] at hx
    rw [hf.priority, hf.priority]
    exact (hI.held w l x hw hx).imp_left (hexc w)
  · rw [hd.semas] at hv hw
    obtain ⟨u, hu, hcase⟩ := hI.freed l hv w hw
    refine ⟨u, ?_, ?_⟩
    · unfold Pintos.woken at hu ⊢
      dsimp only
      rw [hd.nextPage, hd.semas]
      exact hu
    · rw [hf.priority, hf.priority]
      exact hcase.imp_left (hexc w)

/-- **Every step keeps waiters below holders.** -/
theorem Uninverted.step (hI : Uninverted m) (h : Orderly m) (hu : uninterrupted m e)
    (hr : setsInRange m e) (hg : waitersRecorded m e) (hs : Pintos.step m e = .ok m') :
    Uninverted m' := by
  obtain ⟨o, ha, hcase⟩ := step_cases hs
  have hsettled : Uninverted (m.settle o) := by
    refine ⟨fun w l x hw hx => ha.held h hu hI hw hx,
      fun l hv w hw => ha.freed h hu hr hI hv hw, ?_⟩
    rw [ha.settle_curPc]
    exact ha.minding h hI hu hg
  rcases hcase with ⟨-, rfl⟩ | ⟨k, hsw, hk, rfl⟩
  · exact hsettled
  · have hleft := ha.resumable h.scheduled.flow hu hsw
    refine hsettled.dispatched (dispatched_of_schedule hk) (by rw [ha.settle_curPc]; exact hleft) ?_
    exact h.resumable.settle h.scheduled.flow hu ha hsw _

end Code

theorem Uninverted.boot (v : ℕ → ℕ) : Uninverted (boot false v) :=
  ⟨fun _ _ _ _ hx => absurd hx (by simp [Pintos.boot]), fun _ _ _ hw => absurd hw List.not_mem_nil,
    trivial⟩

/-- **No waiter outranks the holder of its lock.** In priority mode, with uninterrupted calls and
no priority set below `PRI_MIN`, in a run in which a recomputed priority never overlooks a waiter:
whenever the running thread is outside the kernel or where it has blocked or yielded, and no chain
of waits has more than eight locks, a thread that waits for a lock is not above the lock's holder.
A cycle has chains of every length, so the bound rules cycles out too. -/
theorem waiter_not_above_holder {v : ℕ → ℕ} {h : List (Machine × Event)} {m : Machine}
    (hrun : Run step (fun m e => uninterrupted m e ∧ setsInRange m e ∧ waitersRecorded m e)
      (boot false v) h m) (hstable : m.curPc.resumable = true)
    (hchain : ∀ s : RelSeries m.kernel.waitsFor, s.length ≤ donateMaxDepth) {l : LockId}
    {x w : Tid} (hx : (m.kernel.locks l).holder = some x)
    (hw : (m.kernel.threads w).lockWaiting = some l) :
    (m.kernel.threads w).priority ≤ (m.kernel.threads x).priority := by
  obtain ⟨-, hI⟩ := hrun.invariant (I := fun m => Orderly m ∧ Uninverted m) ⟨.boot v, .boot v⟩
    fun m e m' ⟨hord, hI⟩ ⟨hu, hr, hg⟩ hs => ⟨hord.step hu hr hs, hI.step hord hu hr hg hs⟩
  rcases hI.held w l x hw hx with (⟨n, hn, s, rfl, -⟩ | hdonor) | hle
  · exact absurd (hchain s) (not_le.mpr hn)
  · exact absurd ((minding_of_resumable hstable).2.symm.trans hdonor) (by simp)
  · exact hle

/-- If only `w` waits, and not for itself, chains have one lock. -/
theorem chain_le_of_single_wait {m : Machine} (hsch : Scheduled m) (hlock : Locked m) {w x : Tid}
    {l : LockId} (hne : w ≠ x) (hw : (m.kernel.threads w).lockWaiting = some l)
    (hx : (m.kernel.locks l).holder = some x)
    (honly : ∀ t < m.kernel.nextPage, t ≠ w → (m.kernel.threads t).lockWaiting = none)
    (s : RelSeries m.kernel.waitsFor) : s.length ≤ donateMaxDepth := by
  have hrank : ∀ p q, (p, q) ∈ m.kernel.waitsFor →
      (if p = w then 0 else 1) < (if q = w then 0 else 1) := by
    rintro p q ⟨l', hp, hq⟩
    have hpw : p = w := by
      by_contra hpw
      have hnone := honly p (hlock.old_of_waiting hsch hp).1 hpw
      exact absurd (hnone.symm.trans hp) (by simp)
    subst hpw
    obtain rfl := Option.some.inj (hw.symm.trans hp)
    obtain rfl := Option.some.inj (hx.symm.trans hq)
    rw [if_pos rfl, if_neg hne.symm]
    exact one_pos
  have hle := ChainTo.le_rank hrank ⟨s, rfl, rfl⟩
  refine hle.trans (le_trans ?_ (show 1 ≤ donateMaxDepth by decide))
  split
  · exact Nat.zero_le 1
  · exact le_rfl

/-- Threads 2 and 3 wait for the lock of the main thread; thread 3, of the higher priority, gets
it, and thread 2 goes on waiting. -/
theorem waiter_not_above_holder_run : ∃ h m,
    Run step (fun m e => uninterrupted m e ∧ setsInRange m e ∧ waitersRecorded m e)
      (boot false fun _ => 0) h m ∧ m.curPc.resumable = true ∧
      (∀ s : RelSeries m.kernel.waitsFor, s.length ≤ donateMaxDepth) ∧
      (m.kernel.locks 5).holder = some 3 ∧ (m.kernel.threads 2).lockWaiting = some 5 ∧
      (m.kernel.threads 2).priority ≤ (m.kernel.threads 3).priority := by
  obtain ⟨h, m, hrun, hp⟩ := exists_run
    (fun m e => uninterrupted m e ∧ setsInRange m e ∧ waitersRecorded m e)
    (fun m e => decide (uninterrupted m e ∧ setsInRange m e ∧ waitersRecorded m e))
    (fun _ _ => of_decide_eq_true) false (fun _ => 0)
    (Call.run (.lockAcquire 5) 5 ++ Call.run (.threadCreate 32 true) 32 ++
      Call.run (.lockAcquire 5) 14 ++ Call.run (.threadCreate 33 true) 32 ++
      Call.run (.lockAcquire 5) 14 ++ Call.run (.lockRelease 5) 8)
    (fun _ m => decide (m.curPc.resumable = true ∧ (m.kernel.locks 5).holder = some 3 ∧
      (m.kernel.threads 2).lockWaiting = some 5 ∧
      ∀ t < m.kernel.nextPage, t ≠ 2 → (m.kernel.threads t).lockWaiting = none))
    (by decide +kernel)
  obtain ⟨hstable, hx, hw, honly⟩ := of_decide_eq_true hp
  obtain ⟨hsch, hlock⟩ := Locked.of_run hrun
  have hchain := chain_le_of_single_wait hsch hlock (by decide) hw hx honly
  exact ⟨h, m, hrun, hstable, hchain, hx, hw, waiter_not_above_holder hrun hstable hchain hx hw⟩

/-- **A waiter outranks the holder.** Threads 2 and 3 wait for lock 5 of the main thread, which
releases it; thread 3 gets it, with a `priority_donate` of `PRI_MIN` although thread 2 still waits.
It lowers its own priority to 10, which takes effect when it acquires and releases lock 6: the
recomputation finds no donation in lock 5. -/
theorem waiter_above_holder : ∃ h m,
    Run step (fun m e => uninterrupted m e ∧ setsInRange m e) (boot false fun _ => 0) h m ∧
      m.curPc.resumable = true ∧
      (∀ s : RelSeries m.kernel.waitsFor, s.length ≤ donateMaxDepth) ∧
      (m.kernel.locks 5).holder = some 3 ∧ (m.kernel.threads 2).lockWaiting = some 5 ∧
      (m.kernel.threads 3).priority < (m.kernel.threads 2).priority := by
  obtain ⟨h, m, hrun, hp⟩ := exists_run (fun m e => uninterrupted m e ∧ setsInRange m e)
    (fun m e => decide (uninterrupted m e ∧ setsInRange m e)) (fun _ _ => of_decide_eq_true) false
    (fun _ => 0)
    (Call.run (.lockAcquire 5) 5 ++ Call.run (.threadCreate 32 true) 32 ++
      Call.run (.lockAcquire 5) 14 ++ Call.run (.threadCreate 33 true) 32 ++
      Call.run (.lockAcquire 5) 14 ++ Call.run (.lockRelease 5) 8 ++
      Call.run (.threadSetPriority 10) 4 ++ Call.run (.lockAcquire 6) 5 ++
      Call.run (.lockRelease 6) 7)
    (fun _ m => decide (m.curPc.resumable = true ∧ (m.kernel.locks 5).holder = some 3 ∧
      (m.kernel.threads 2).lockWaiting = some 5 ∧
      (m.kernel.threads 3).priority < (m.kernel.threads 2).priority ∧
      ∀ t < m.kernel.nextPage, t ≠ 2 → (m.kernel.threads t).lockWaiting = none))
    (by decide +kernel)
  obtain ⟨hstable, hx, hw, hlt, honly⟩ := of_decide_eq_true hp
  obtain ⟨hsch, hlock⟩ := Locked.of_run hrun
  exact ⟨h, m, hrun, hstable, chain_le_of_single_wait hsch hlock (by decide) hw hx honly, hx, hw, hlt⟩

end Pintos
