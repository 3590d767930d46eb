import Pintos.Donation.Bookkeeping

/-!
# Which waiter `cond_signal` wakes

`cond_signal` takes the maximum of the condition's waiters under `cmp_sema_priority`, which rates
a waiter by the threads queued on its semaphore. A thread puts its waiter on the list before it
releases the lock, and queues itself on the semaphore only in the `sema_down` after that; in
between, the `thread_yield` inside `lock_release` lets others run, and the waiter is rated
`PRI_MIN` whatever the thread's priority is.

* `Kernel.bestWaiter` — the waiter that the scan is looking for; `Scanning` says that an
  uninterrupted scan finds it;
* `semaWaiterPriority_le` / `semaWaiterPriority_of_queued` — what a waiter's rating says about
  its thread;
* `signalsRanked` — a thread of the highest priority on the list is already queued; then the
  waiter that is removed belongs to a thread of the highest priority.
-/

namespace Pintos

open Transition FirstMax

/-! ### The condition -/

/-- One of the threads of the highest priority on the list of `c` is queued on its semaphore. -/
def Kernel.Ranked (k : Kernel) (c : CondId) : Prop :=
  ∃ t ∈ k.conds c, t ∈ (k.semas (.waiter t)).waiters ∧
    ∀ u ∈ k.conds c, (k.threads u).priority ≤ (k.threads t).priority

instance (k : Kernel) (c : CondId) : Decidable (k.Ranked c) :=
  inferInstanceAs (Decidable (∃ t ∈ k.conds c, _))

/-- The condition whose list of waiters is tested at this point. -/
def Pc.signals : Pc → Option CondId
  | .signalTest c => some c
  | _ => none

/-- When `cond_signal` finds waiters, a thread of the highest priority among them has got to its
`sema_down`. -/
def signalsRanked : Guard Machine Event := fun m e =>
  e = .exec → ∀ c ∈ m.curPc.signals, m.kernel.conds c ≠ [] → m.kernel.Ranked c

instance (m : Machine) (e : Event) : Decidable (signalsRanked m e) :=
  inferInstanceAs (Decidable (_ → _))

/-! ### The scan -/

/-- The first maximum of the waiters of `c` under `cmp_sema_priority`. -/
def Kernel.bestWaiter (k : Kernel) (c : CondId) : Option Tid :=
  match k.conds c with
  | [] => none
  | w :: ws => some (firstMax (cmpSemaPriority k) w ws)

/-- What holds of the running thread inside the `list_max` of `cond_signal`, and after it. -/
def Pc.Scanning (k : Kernel) : Pc → Prop
  | .signalScan c m rest =>
    k.bestWaiter c = some (firstMax (cmpSemaPriority k) m rest) ∧ k.Ranked c
  | .signalRemove c w => k.bestWaiter c = some w ∧ k.Ranked c
  | _ => True

theorem scanning_of_resumable {k : Kernel} {pc : Pc} (h : pc.resumable = true) :
    pc.Scanning k := by
  cases pc with
  | signalScan | signalRemove => exact absurd h (by simp [Pc.resumable])
  | _ => trivial

theorem ret_scanning {k : Kernel} (t : Tid) (st : List Frame) : (ret t st).pc.Scanning k := by
  cases st with
  | nil => trivial
  | cons f st => cases f <;> trivial

section Code

variable {m m' : Machine} {e : Event} {c c' : Control} {o : Outcome}

theorem Silent.scanning (hpc : m.curPc = c.pc) (hg : signalsRanked m .exec)
    (hs : Silent m.kernel c c') (h : c.pc.Scanning m.kernel) : c'.pc.Scanning m.kernel := by
  cases hs with
  | @signalStart cv w ws st hcons =>
    have hranked : m.kernel.Ranked cv := hg rfl cv (by rw [hpc]; rfl) (by rw [hcons]; simp)
    refine ⟨?_, hranked⟩
    unfold Kernel.bestWaiter
    rw [hcons]
  -- one comparison is one unfolding of `firstMax`
  | signalScan | signalLast => exact h
  | _ => first | trivial | exact ret_scanning _ _

/-- The scan is entered and left by silent moves. -/
theorem Exec.scanning (hctl : m.ctl m.kernel.running = c) (hg : signalsRanked m .exec)
    (hex : Exec m.kernel c o) (h : c.pc.Scanning m.kernel) : o.ctl.pc.Scanning o.kernel := by
  cases hex with
  | silent hs => exact hs.scanning (congrArg Control.pc hctl) hg h
  | @downTake pc s st =>
    cases s with
    | lock l => trivial
    | sema | waiter => exact ret_scanning _ _
  | @updateStore u p st => cases u <;> trivial
  | updateMlfqs hst =>
    cases hst with
    | @clamp u => cases u <;> trivial
    | _ => trivial
  | _ => first | trivial | exact ret_scanning _ _

/-- A scan is not cut by a timer interrupt, so it sees one state of the kernel. -/
theorem Act.scanning (hu : uninterrupted m e) (hg : signalsRanked m e)
    (h : m.curPc.Scanning m.kernel) (ha : Act m e o) : o.ctl.pc.Scanning o.kernel := by
  cases ha with
  | @call c => cases c <;> trivial
  | exec hex => exact hex.scanning rfl hg h
  | tick =>
    refine scanning_of_resumable ?_
    change m.curPc.resumable = true
    rcases hu rfl with hpc | hpc <;> rw [hpc] <;> rfl

theorem scanning_step (hser : Serial m) (hu : uninterrupted m e) (hg : signalsRanked m e)
    (h : m.curPc.Scanning m.kernel) (hs : step m e = .ok m') : m'.curPc.Scanning m'.kernel := by
  obtain ⟨o, ha, hcase⟩ := step_cases hs
  rcases hcase with ⟨-, rfl⟩ | ⟨k, hsw, -, rfl⟩
  · rw [ha.settle_curPc]
    exact ha.scanning hu hg h
  · exact scanning_of_resumable (hser.resumable.settle hser.scheduled.flow hu ha hsw _)

end Code

/-! ### The rating of a waiter -/

section Rating

variable {m : Machine}

/-- Only the thread in `cond_wait` is ever queued on the semaphore of its waiter. -/
theorem Scheduled.eq_of_queued (hsch : Scheduled m) {t u : Tid}
    (h : u ∈ (m.kernel.semas (.waiter t)).waiters) : u = t :=
  hsch.flow.eq_of_retest (hsch.queues.waiting _ u h).2

/-- The rating of a waiter whose thread is queued is the thread's priority. -/
theorem semaWaiterPriority_of_queued (hsch : Scheduled m) (hb : m.kernel.Bounded) {t : Tid}
    (h : t ∈ (m.kernel.semas (.waiter t)).waiters) :
    semaWaiterPriority m.kernel (.waiter t) = (m.kernel.threads t).priority := by
  unfold semaWaiterPriority
  cases hw : (m.kernel.semas (.waiter t)).waiters with
  | nil =>
    rw [hw] at h
    exact absurd h List.not_mem_nil
  | cons w ws =>
    have hmax : firstMax (cmpThreadPriority m.kernel.threads) w ws = t := by
      apply hsch.eq_of_queued
      rw [hw]
      exact firstMax_mem ws w
    dsimp only
    rw [hmax]
    exact max_eq_right (hb t).1

/-- A waiter is not rated above the priority of its thread. -/
theorem semaWaiterPriority_le (hsch : Scheduled m) (hb : m.kernel.Bounded) (t : Tid) :
    semaWaiterPriority m.kernel (.waiter t) ≤ (m.kernel.threads t).priority := by
  by_cases h : t ∈ (m.kernel.semas (.waiter t)).waiters
  · exact (semaWaiterPriority_of_queued hsch hb h).le
  · have hnil : (m.kernel.semas (.waiter t)).waiters = [] := by
      refine List.eq_nil_iff_forall_not_mem.mpr fun u hu => h ?_
      rwa [hsch.eq_of_queued hu] at hu
    unfold semaWaiterPriority
    rw [hnil]
    exact (hb t).1

/-- The best waiter is on the list and rated no lower than any other. -/
theorem bestWaiter_max {k : Kernel} {c : CondId} {w : Tid} (h : k.bestWaiter c = some w) :
    w ∈ k.conds c ∧ ∀ t ∈ k.conds c,
      semaWaiterPriority k (.waiter t) ≤ semaWaiterPriority k (.waiter w) := by
  unfold Kernel.bestWaiter at h
  split at h
  · cases h
  · next w₀ ws hcons =>
    cases h
    rw [hcons]
    exact ⟨firstMax_mem ws w₀,
      firstMax_key (fun t => semaWaiterPriority k (.waiter t)) ws w₀⟩

end Rating

/-- **`cond_signal` wakes a waiter of the highest priority** in an uninterrupted run in which it
always finds one of these queued already, and in which no priority is set below `PRI_MIN`: the
waiter that is about to be removed is on the list, and no thread on the list has a higher
priority than its thread. -/
theorem signal_removes_highest {v : ℕ → ℕ} {h : List (Machine × Event)} {m : Machine}
    (hrun : Run step (fun m e => uninterrupted m e ∧ setsInRange m e ∧ signalsRanked m e)
      (boot false v) h m) {c : CondId} {w : Tid} (hpc : m.curPc = .signalRemove c w) :
    w ∈ m.kernel.conds c ∧
      ∀ t ∈ m.kernel.conds c, (m.kernel.threads t).priority ≤ (m.kernel.threads w).priority := by
  obtain ⟨hser, hdon, hscan⟩ := hrun.invariant
    (I := fun m => Serial m ∧ Donated m ∧ m.curPc.Scanning m.kernel)
    ⟨.boot v, .boot v, trivial⟩ fun m e m' ⟨hser, hdon, hscan⟩ ⟨hu, hr, hg⟩ hs =>
      ⟨hser.step hu hs, hdon.step hser.scheduled hser.locked hser.mode hu.updatesWhole hr hs,
        scanning_step hser hu hg hscan hs⟩
  rw [hpc] at hscan
  obtain ⟨hbest, best, hmem, hqueued, htop⟩ := hscan
  obtain ⟨hw, hmax⟩ := bestWaiter_max hbest
  refine ⟨hw, fun t ht => ?_⟩
  calc (m.kernel.threads t).priority
      ≤ (m.kernel.threads best).priority := htop t ht
    _ = semaWaiterPriority m.kernel (.waiter best) :=
      (semaWaiterPriority_of_queued hser.scheduled hdon.bounded hqueued).symm
    _ ≤ semaWaiterPriority m.kernel (.waiter w) := hmax best hmem
    _ ≤ (m.kernel.threads w).priority := semaWaiterPriority_le hser.scheduled hdon.bounded w

/-- Threads 2 and 3, of priorities 35 and 40, wait, and the main thread signals. -/
theorem signal_removes_highest_run : ∃ h m,
    Run step (fun m e => uninterrupted m e ∧ setsInRange m e ∧ signalsRanked m e)
      (boot false fun _ => 0) h m ∧ m.curPc = .signalRemove 0 3 ∧ m.kernel.conds 0 = [2, 3] ∧
      (m.kernel.threads 2).priority ≤ (m.kernel.threads 3).priority := by
  obtain ⟨h, m, hrun, hp⟩ := exists_run
    (fun m e => uninterrupted m e ∧ setsInRange m e ∧ signalsRanked m e)
    (fun m e => decide (uninterrupted m e ∧ setsInRange m e ∧ signalsRanked m e))
    (fun _ _ => of_decide_eq_true) false (fun _ => 0)
    (Call.run (.threadCreate 35 true) 30 ++ Call.run (.lockAcquire 5) 5 ++
      Call.run (.condWait 0 5) 9 ++ Call.run (.threadCreate 40 true) 30 ++
      Call.run (.lockAcquire 5) 5 ++ Call.run (.condWait 0 5) 9 ++ Call.run (.lockAcquire 5) 5 ++
      Call.run (.condSignal 0 5) 4)
    (fun _ m => decide (m.curPc = .signalRemove 0 3 ∧ m.kernel.conds 0 = [2, 3]))
    (by decide +kernel)
  obtain ⟨hpc, hlist⟩ := of_decide_eq_true hp
  have hmax := (signal_removes_highest hrun hpc).2
  exact ⟨h, m, hrun, hpc, hlist, hmax 2 (by rw [hlist]; simp)⟩

/-- **A lower waiter is woken.** Thread 2, of priority 35, waits. Thread 3, of priority 40, has put
its waiter on the list and yields inside `lock_release`, before its `sema_down`; the main thread,
of priority 40 too, signals, and thread 2 is taken off the list. -/
theorem signal_removes_lower : ∃ h m,
    Run step (fun m e => uninterrupted m e ∧ setsInRange m e) (boot false fun _ => 0) h m ∧
      m.curPc = .signalRemove 0 2 ∧ 3 ∈ m.kernel.conds 0 ∧
      (m.kernel.threads 2).priority < (m.kernel.threads 3).priority := by
  obtain ⟨h, m, hrun, hp⟩ := exists_run (fun m e => uninterrupted m e ∧ setsInRange m e)
    (fun m e => decide (uninterrupted m e ∧ setsInRange m e)) (fun _ _ => of_decide_eq_true) false
    (fun _ => 0)
    (Call.run (.threadCreate 35 true) 30 ++ Call.run (.lockAcquire 5) 5 ++
      Call.run (.condWait 0 5) 9 ++ Call.run (.threadSetPriority 40) 5 ++
      Call.run (.threadCreate 40 true) 29 ++ Call.run .threadYield 1 ++
      Call.run (.lockAcquire 5) 5 ++ Call.run (.condWait 0 5) 8 ++ Call.run (.lockAcquire 5) 5 ++
      Call.run (.condSignal 0 5) 4)
    (fun _ m => decide (m.curPc = .signalRemove 0 2 ∧ 3 ∈ m.kernel.conds 0 ∧
      (m.kernel.threads 2).priority < (m.kernel.threads 3).priority)) (by decide +kernel)
  obtain ⟨hpc, hmem, hlt⟩ := of_decide_eq_true hp
  exact ⟨h, m, hrun, hpc, hmem, hlt⟩

end Pintos
