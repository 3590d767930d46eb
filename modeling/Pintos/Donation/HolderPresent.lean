import Pintos.Sync.Ownership
import Pintos.Donation.Stake

/-!
# The holder that a donation reads

`donate_priority` follows `t->lock_waiting->holder` and asserts that it is not null. A thread
that waits for a lock does not keep the lock from being without a holder: `lock_release` clears
the holder before its `sema_up`, and the next owner records itself only after it has left
`sema_down` or `sema_try_down`. In between the lock is being handed over (`Machine.HandedOver`).

* `donatesSettled` — no donation goes through a lock that is being handed over, and none is
  preempted between its test of `priority_donate` and its last read of the holder;
* `holder_of_not_handedOver` — a lock that is not being handed over has a holder;
* `donation_holder_present` — the assertion cannot fail in a run under this condition.
-/

namespace Pintos

open Transition LockTable

/-- The lock that the code at this point is taking or giving up without being its holder. -/
def Pc.handsOver : Pc → Option LockId
  | .setHolder l | .acquired l | .semaUp (.lock l)
  | .updatePriority (.release l) | .updateScan (.release l) _ _ _ | .updateStore (.release l) _
  | .updateMax (.release l) | .updateCpu (.release l) | .updateNice (.release l)
  | .updateClamp (.release l) => some l
  | _ => none

/-- Lock `l` is between two holders: a thread is about to record itself as its holder, or has
ceased to be that and has not upped the semaphore yet, or nobody has the semaphore. -/
def Machine.HandedOver (m : Machine) (l : LockId) : Prop :=
  (∃ t < m.kernel.nextPage, (m.pc t).handsOver = some l) ∨ (m.kernel.semas (.lock l)).value = 1

instance (m : Machine) (l : LockId) : Decidable (m.HandedOver l) :=
  inferInstanceAs (Decidable (_ ∨ _))

/-- The thread whose `lock_waiting->holder` is read at this point. -/
def Pc.follows : Pc → Option Tid
  | .donateAssert _ t _ | .donateStore _ t _ | .donateCompare _ t _ | .donateRaise _ t _
  | .donateNext _ t _ => some t
  | _ => none

/-- The thread whose priority is compared with `priority_donate` at this point. -/
def Pc.donates : Pc → Option Tid
  | .donateTest _ t _ => some t
  | _ => none

/-- When `donate_priority` finds that `t` has a priority to donate, the lock `t` waits for is not
being handed over, and no timer interrupt comes before the holder is read for the last time. -/
def donatesSettled : Guard Machine Event := fun m e =>
  (e = .tick → m.curPc.follows = none) ∧
    (e = .exec → ∀ t ∈ m.curPc.donates, ∀ lw ∈ (m.kernel.threads t).lockWaiting,
      (m.kernel.locks lw).priorityDonate < (m.kernel.threads t).priority → ¬ m.HandedOver lw)

instance (m : Machine) (e : Event) : Decidable (donatesSettled m e) :=
  inferInstanceAs (Decidable (_ ∧ _))

theorem Pc.handsOver_of_owned {pc : Pc} {l : LockId} (h : pc.phase.owned = some l) :
    pc.handsOver = some l ∨ pc.phase = .marks l := by
  cases pc with
  | pushHolding l' =>
    cases h
    exact .inr rfl
  | semaDown s | semaRetest s => cases s <;> exact absurd h (by simp [Pc.phase, Phase.owned])
  | semaUp s => cases s <;> exact .inl h
  | updatePriority u | updateScan u _ _ _ | updateStore u _ | updateMax u | updateCpu u
  | updateNice u | updateClamp u =>
    cases u <;> exact .inl h
  | _ => exact .inl h

/-- A lock that is not being handed over has a holder. -/
theorem holder_of_not_handedOver {m : Machine} (hsch : Scheduled m) (hlock : Locked m)
    {l : LockId} (h : ¬ m.HandedOver l) : ∃ x, (m.kernel.locks l).holder = some x := by
  obtain ⟨hwindow, hvalue⟩ := not_or.mp h
  obtain ⟨-, x, hx⟩ := hlock.exclusive.taken l hvalue
  refine ⟨x, (hlock.exclusive.holder x l).mpr ?_⟩
  rcases hx with hmem | hph
  · exact .inl hmem
  · rcases Pc.handsOver_of_owned hph with hhand | hmarks
    · -- a page without a thread is not in the code of a lock
      have hpc : m.pc x ≠ .user := by
        intro hu
        rw [hu] at hhand
        exact absurd hhand (by simp [Pc.handsOver])
      exact absurd ⟨x, (hsch.queues.old_of_pc hpc).1, hhand⟩ hwindow
    · exact .inr hmarks

/-! ### The invariant -/

/-- The holder that is read at this point is there. -/
def Pc.Present (k : Kernel) (pc : Pc) : Prop :=
  ∀ t, pc.follows = some t →
    ∃ lw x, (k.threads t).lockWaiting = some lw ∧ (k.locks lw).holder = some x

/-- The running thread's donation finds its holder, and no other thread is inside one. -/
structure Present (m : Machine) : Prop where
  cur : m.curPc.Present m.kernel
  parked : ∀ t, t ≠ m.kernel.running → (m.pc t).follows = none

theorem present_of_not_follows {k : Kernel} {pc : Pc} (h : pc.follows = none) : pc.Present k :=
  fun t ht => absurd (h.symm.trans ht) (by simp)

theorem ret_follows (t : Tid) (st : List Frame) : (ret t st).pc.follows = none := by
  cases st with
  | nil => rfl
  | cons f st => cases f <;> rfl

theorem Updater.next_follows (u : Updater) : u.next.follows = none := by
  cases u <;> rfl

section Code

variable {m m' : Machine} {e : Event} {c c' : Control} {o : Outcome}

theorem Silent.present (hsch : Scheduled m) (hlock : Locked m) (hpc : m.curPc = c.pc)
    (hg : donatesSettled m .exec) (hs : Silent m.kernel c c') (h : c.pc.Present m.kernel) :
    c'.pc.Present m.kernel := by
  cases hs with
  | @donateMore l t dep lw st hw hlt =>
    intro u hu
    cases hu
    have hsettled := hg.2 rfl t (by rw [hpc]; rfl) lw hw hlt
    obtain ⟨x, hx⟩ := holder_of_not_handedOver hsch hlock hsettled
    exact ⟨lw, x, hw, hx⟩
  | donateAssert | donateBelow | donateAbove => exact h
  | _ => first | exact present_of_not_follows rfl | exact present_of_not_follows (ret_follows _ _)

/-- The stores of a donation change neither the lock that is waited for nor its holder. -/
theorem Exec.present (hsch : Scheduled m) (hlock : Locked m)
    (hctl : m.ctl m.kernel.running = c) (hg : donatesSettled m .exec)
    (hex : Exec m.kernel c o) (h : c.pc.Present m.kernel) : o.ctl.pc.Present o.kernel := by
  have hpc : m.curPc = c.pc := congrArg Control.pc hctl
  cases hex with
  | silent hs => exact hs.present hsch hlock hpc hg h
  | donateStore =>
    intro u hu
    obtain ⟨lw, x, hw, hx⟩ := h u hu
    refine ⟨lw, x, hw, (apply_update_same Lock.holder ?_ lw).trans hx⟩
    rfl
  | donateRaise =>
    intro u hu
    obtain ⟨lw, x, hw, hx⟩ := h u hu
    refine ⟨lw, x, (apply_update_same Thread.lockWaiting ?_ u).trans hw, hx⟩
    rfl
  | @downTake pc s st hpcs =>
    cases s with
    | lock l => exact present_of_not_follows rfl
    | _ => exact present_of_not_follows (ret_follows _ _)
  | @updateStore u p st => exact present_of_not_follows u.next_follows
  | updateMlfqs hst =>
    cases hst with
    | @clamp u => exact present_of_not_follows u.next_follows
    | _ => exact present_of_not_follows rfl
  | _ => first | exact present_of_not_follows rfl | exact present_of_not_follows (ret_follows _ _)

theorem Act.present (hsch : Scheduled m) (hlock : Locked m) (hg : donatesSettled m e)
    (h : Present m) (ha : Act m e o) : o.ctl.pc.Present o.kernel := by
  cases ha with
  | @call c => cases c <;> exact present_of_not_follows rfl
  | exec hex => exact hex.present hsch hlock rfl hg h.cur
  | tick => exact present_of_not_follows (hg.1 rfl)

/-- A thread that gives up the CPU is not inside a donation. -/
theorem Act.not_follows (hg : donatesSettled m e) (ha : Act m e o) (hswitch : o.switch = true) :
    o.ctl.pc.follows = none := by
  cases ha with
  | call => cases hswitch
  | exec hex =>
    generalize m.ctl m.kernel.running = c at hex
    cases hex with
    | yield => exact ret_follows _ _
    | idle | downBlock | exit | sleep => rfl
    | _ => cases hswitch
  | tick => exact hg.1 rfl

theorem Present.step (h : Present m) (hsch : Scheduled m) (hlock : Locked m)
    (hg : donatesSettled m e) (hs : Pintos.step m e = .ok m') : Present m' := by
  obtain ⟨o, ha, hcase⟩ := step_cases hs
  rcases hcase with ⟨-, rfl⟩ | ⟨k, hsw, hk, rfl⟩
  · refine ⟨?_, ha.settle_parked (P := fun pc => pc.follows = none) h.parked⟩
    rw [ha.settle_curPc]
    exact ha.present hsch hlock hg h
  · have hparked : ∀ t, ((m.settle o).pc t).follows = none :=
      settle_forall (P := fun pc => pc.follows = none) (ha.not_follows hg hsw) h.parked
    exact ⟨present_of_not_follows (hparked _), fun t _ => hparked t⟩

end Code

theorem Present.boot (v : ℕ → ℕ) : Present (boot false v) := by
  have hpc : ∀ t, ((Pintos.boot false v).pc t).follows = none := by
    intro t
    unfold Machine.pc Pintos.boot
    dsimp only
    split <;> rfl
  exact ⟨present_of_not_follows (hpc 0), fun t _ => hpc t⟩

/-- **The assertion of `donate_priority` cannot fail** in a run in which no donation goes through
a lock that is being handed over and none is preempted after its test: wherever it reads
`t->lock_waiting->holder`, there is one. -/
theorem donation_holder_present {v : ℕ → ℕ} {h : List (Machine × Event)} {m : Machine}
    (hrun : Run step donatesSettled (boot false v) h m) {t : Tid}
    (ht : m.curPc.follows = some t) :
    ∃ lw x, (m.kernel.threads t).lockWaiting = some lw ∧ (m.kernel.locks lw).holder = some x := by
  obtain ⟨-, -, hpresent⟩ := hrun.invariant
    (I := fun m => Scheduled m ∧ Locked m ∧ Present m)
    ⟨.boot false v, .boot false v, .boot v⟩ fun m e m' ⟨hsch, hlock, hpresent⟩ hg hs =>
      ⟨hsch.step hs, hlock.step hsch hs, hpresent.step hsch hlock hg hs⟩
  exact hpresent.cur t ht

/-- Thread 2 donates to the main thread. -/
theorem donation_holder_present_run : ∃ h m,
    Run step donatesSettled (boot false fun _ => 0) h m ∧ m.curPc = .donateAssert 5 2 0 ∧
      ∃ lw x, (m.kernel.threads 2).lockWaiting = some lw ∧
        (m.kernel.locks lw).holder = some x := by
  obtain ⟨h, m, hrun, hp⟩ := exists_run donatesSettled (fun m e => decide (donatesSettled m e))
    (fun _ _ => of_decide_eq_true) false (fun _ => 0)
    (Call.run (.lockAcquire 5) 5 ++ Call.run (.threadCreate 50 true) 32 ++
      Call.run (.lockAcquire 5) 6)
    (fun _ m => decide (m.curPc = .donateAssert 5 2 0)) (by decide +kernel)
  have hpc := of_decide_eq_true hp
  exact ⟨h, m, hrun, hpc, donation_holder_present hrun (by rw [hpc]; rfl)⟩

/-- **The assertion fails.** Thread 2 holds lock 6 and waits for lock 5. The main thread releases
lock 5, which wakes thread 2; thread 3, of the same priority and ready before it, runs first and
acquires lock 6. Its donation goes on from thread 2 to lock 5, which has no holder. -/
theorem donation_holder_missing : ∃ h m,
    Run step uninterrupted (boot false fun _ => 0) h m ∧ m.curPc = .donateAssert 6 2 1 ∧
      (m.kernel.threads 2).lockWaiting = some 5 ∧
      (m.kernel.locks 5).priorityDonate < (m.kernel.threads 2).priority ∧
      (m.kernel.locks 5).holder = none ∧ act m .exec = .error .holderNull := by
  obtain ⟨h, m, hrun, hp⟩ := exists_run uninterrupted (fun m e => decide (uninterrupted m e))
    (fun _ _ => of_decide_eq_true) false (fun _ => 0)
    (Call.run (.lockAcquire 5) 5 ++ Call.run (.threadCreate 33 true) 32 ++
      Call.run (.lockAcquire 6) 5 ++ Call.run (.lockAcquire 5) 14 ++
      Call.run (.threadCreate 33 true) 31 ++ Call.run (.lockRelease 5) 6 ++
      Call.run (.lockAcquire 6) 12)
    (fun _ m => decide (m.curPc = .donateAssert 6 2 1 ∧
      (m.kernel.threads 2).lockWaiting = some 5 ∧
      (m.kernel.locks 5).priorityDonate < (m.kernel.threads 2).priority ∧
      (m.kernel.locks 5).holder = none)) (by decide +kernel)
  obtain ⟨hpc, hw, hlt, hnone⟩ := of_decide_eq_true hp
  refine ⟨h, m, hrun, hpc, hw, hlt, hnone, ?_⟩
  have hstep : act m .exec = execAcquire m.kernel (m.ctl m.kernel.running).stack m.curPc := by
    change exec m.kernel (m.ctl m.kernel.running) = _
    unfold exec
    rw [show (m.ctl m.kernel.running).pc = .donateAssert 6 2 1 from hpc, hpc]
  rw [hstep, hpc]
  simp [execAcquire, waitedLock, hw, hnone, bind, Except.bind]

end Pintos
