import Pintos.Devices.System
import Pintos.Sched.Partition

/-!
# Threads in an interrupt queue

A thread that finds a queue empty, or full, takes the queue's lock and sleeps in `wait`; it holds
the lock until it has been woken. So the lock keeps a second thread away from the member that the
first is stored in. It does not keep the queue from changing while the second thread waits for the
lock, and `wait` asserts that it has not.

* `Driven` — what holds in every run: a thread that is in `wait`, or has been, holds the lock of its
  queue, and a thread that is stored in a member is the one that sleeps there (`Driven.step`);
* `Driven.one_waiter`, `Driven.no_waiter` — nobody is overwritten in a member;
* `Direct` — a thread that finds the lock free goes from the test of the loop to `wait` without
  giving up the CPU, and finds the queue as it was.
-/

namespace Pintos

open Transition LockTable Function

/-! ### The way through `lock_acquire` -/

/-- The lock that a program point of `lock_acquire` is about. -/
def Pc.acquiring : Pc → Option LockId
  | .acquireAssert l | .tryAssert l true | .tryDown l true | .setHolder l | .pushHolding l
  | .setWaiting l | .donate l _ _ | .donateTest l _ _ | .donateAssert l _ _ | .donateStore l _ _
  | .donateCompare l _ _ | .donateRaise l _ _ | .donateNext l _ _ | .sortHeap l
  | .semaDown (.lock l) | .semaRetest (.lock l) | .acquired l => some l
  | _ => none

/-- A call of `lock_acquire` from outside the kernel goes on, or returns with the lock. -/
theorem Exec.acquiring {k : Kernel} {c : Control} {o : Outcome} {l : LockId} (hex : Exec k c o)
    (hst : c.stack = []) (hpc : c.pc.acquiring = some l) :
    (o.ctl.stack = [] ∧ o.ctl.pc.acquiring = some l) ∨
      (o.ctl.pc = .user ∧ l ∈ (o.kernel.threads k.running).locksHolding) := by
  cases hex with
  | silent hs =>
    cases hs with
    | @tryAssert l' wait st =>
      cases wait with
      | true => exact .inl ⟨hst, hpc⟩
      | false => exact absurd hpc (by simp [Pc.acquiring])
    | _ => first | exact .inl ⟨hst, hpc⟩ | exact absurd hpc (by simp [Pc.acquiring])
  | @downBlock pc s st hor hv =>
    cases s with
    | lock l' => rcases hor with rfl | rfl <;> exact .inl ⟨hst, hpc⟩
    | sema n | waiter n => rcases hor with rfl | rfl <;> exact absurd hpc (by simp [Pc.acquiring])
  | @downTake pc s st hor hv =>
    cases s with
    | lock l' => rcases hor with rfl | rfl <;> exact .inl ⟨hst, hpc⟩
    | sema n | waiter n => rcases hor with rfl | rfl <;> exact absurd hpc (by simp [Pc.acquiring])
  | @tryTake l' wait st hv =>
    cases wait with
    | true => exact .inl ⟨hst, hpc⟩
    | false => exact absurd hpc (by simp [Pc.acquiring])
  | pushHolding | acquired =>
    obtain rfl : _ = l := Option.some.inj hpc
    obtain rfl : _ = [] := hst
    exact .inr ⟨rfl, by simp [Kernel.setThread]⟩
  | updateMlfqs hstore => cases hstore <;> exact absurd hpc (by simp [Pc.acquiring])
  | _ => first | exact .inl ⟨hst, hpc⟩ | exact absurd hpc (by simp [Pc.acquiring])

/-! ### The invariant -/

/-- What a stage of the loop of a queue means for the kernel. -/
def Machine.AtStage (m : Machine) (t : Tid) (op : IoOp) : Stage → Prop
  | .test => True
  | .wait => ((m.ctl t).stack = [] ∧ (m.pc t).acquiring = some (intqLock op.queue)) ∨
      (m.pc t = .user ∧ (m.kernel.locks (intqLock op.queue)).holder = some t)
  | .release => m.pc t = .user ∧ (m.kernel.locks (intqLock op.queue)).holder = some t

/-- A thread that does not move and keeps its locks is at the same stage. -/
theorem Machine.AtStage.carry {m m' : Machine} {t : Tid} {op : IoOp} {st : Stage}
    (h : m.AtStage t op st) (hctl : m'.ctl t = m.ctl t)
    (hholder : ∀ l, (m.kernel.locks l).holder = some t → (m'.kernel.locks l).holder = some t) :
    m'.AtStage t op st := by
  have hpc : m'.pc t = m.pc t := congrArg Control.pc hctl
  cases st with
  | test => trivial
  | wait =>
    rw [Machine.AtStage, hctl, hpc]
    exact h.imp id fun hh => ⟨hh.1, hholder _ hh.2⟩
  | release => exact ⟨hpc.trans h.1, hholder _ h.2⟩

/-- A thread is stored in a member of a queue. -/
def Board.Stored (b : Board) (t : Tid) : Prop := ∃ q w, (b.queues q).waiter w = some t

/-- What holds of the threads in the drivers, in every run. -/
structure Driven (s : System) : Prop where
  sched : Scheduled s.machine
  locked : Locked s.machine
  onlyIdle : OnlyIdle s.machine
  known : ∀ t c, s.io t = some c → ¬ s.machine.Unborn t ∧ t ≠ s.board.kernel.idleThread
  stage : ∀ t op st, s.io t = some (.access op st) → s.machine.AtStage t op st
  stored : ∀ q w t, (s.board.queues q).waiter w = some t →
    (s.board.kernel.threads t).status = .blocked ∧
      ∃ op, s.io t = some (.access op .release) ∧ op.queue = q ∧ op.waits = w
  mode : ∀ t c st, s.io t = some (.access (.serialPutc c) st) → s.board.mode = .queue

namespace Driven

variable {s : System}

theorem cur_ne_of_blocked (h : Driven s) {t : Tid}
    (ht : (s.board.kernel.threads t).status = .blocked) : t ≠ s.cur := by
  rintro rfl
  exact absurd (ht.symm.trans h.sched.cpu.status) (by simp)

/-- A thread that is outside the kernel is not the idle thread. -/
theorem cur_ne_idle (h : Driven s) (hpc : s.machine.curPc = .user) :
    s.cur ≠ s.board.kernel.idleThread :=
  h.sched.queues.ne_idle_of_pc (by
    rw [show s.machine.pc s.cur = .user from hpc]
    simp)

theorem cur_not_unborn (h : Driven s) : ¬ s.machine.Unborn s.cur := by
  have hrun : (s.machine.kernel.threads s.cur).status = .running := h.sched.cpu.status
  rintro (hge | ⟨u, hu⟩)
  · exact absurd (hrun.symm.trans (h.sched.queues.fresh _ hge).2) (by simp)
  · exact absurd (hrun.symm.trans (h.sched.queues.embryo u _ hu).2.2) (by simp)

/-- A thread that is outside the kernel is in no queue of the kernel. -/
theorem not_registered (h : Driven s) {t : Tid} (hpc : s.machine.pc t = .user) :
    ¬ s.board.kernel.Registered t := by
  rintro (⟨x, hx⟩ | hx)
  · exact absurd (hpc.symm.trans (h.sched.queues.waiting x t hx).2) (by simp)
  · exact absurd (hpc.symm.trans (h.sched.queues.sleeping t hx).2) (by simp)

/-- **One waiter a queue.** The two members do not hold a thread each: it would have to hold the
queue's lock. -/
theorem one_waiter (h : Driven s) {q : QueueId} {w w' : Waiter} {t t' : Tid}
    (hw : (s.board.queues q).waiter w = some t) (hw' : (s.board.queues q).waiter w' = some t') :
    w = w' ∧ t = t' := by
  obtain ⟨-, op, hio, rfl, rfl⟩ := h.stored q w t hw
  obtain ⟨-, op', hio', hq, rfl⟩ := h.stored _ w' t' hw'
  have hh := (h.stage t op _ hio).2
  have hh' := (h.stage t' op' _ hio').2
  rw [hq] at hh'
  obtain rfl := Option.some.inj (hh.symm.trans hh')
  obtain rfl := (IoCtl.access.inj (Option.some.inj (hio.symm.trans hio'))).1
  exact ⟨rfl, rfl⟩

/-- A thread that is about to wait finds both members empty. -/
theorem no_waiter (h : Driven s) {op : IoOp} (hpc : s.machine.curPc = .user)
    (hio : s.io s.cur = some (.access op .wait)) (w : Waiter) :
    (s.board.queues op.queue).waiter w = none := by
  have hh : (s.board.kernel.locks (intqLock op.queue)).holder = some s.cur := by
    rcases h.stage _ op _ hio with ⟨-, hacq⟩ | ⟨-, hh⟩
    · rw [show s.machine.pc s.cur = .user from hpc] at hacq
      exact absurd hacq (by simp [Pc.acquiring])
    · exact hh
  by_contra hne
  obtain ⟨t, ht⟩ := Option.ne_none_iff_exists'.mp hne
  obtain ⟨-, op', hio', hq, -⟩ := h.stored _ w t ht
  have hh' := (h.stage t op' _ hio').2
  rw [hq] at hh'
  obtain rfl := Option.some.inj (hh.symm.trans hh')
  exact absurd (hio.symm.trans hio') (by simp)

/-- A thread is stored in one place. -/
theorem stored_unique (h : Driven s) {q q' : QueueId} {w w' : Waiter} {t : Tid}
    (hw : (s.board.queues q).waiter w = some t) (hw' : (s.board.queues q').waiter w' = some t) :
    q' = q ∧ w' = w := by
  obtain ⟨-, op, hio, rfl, rfl⟩ := h.stored q w t hw
  obtain ⟨-, op', hio', rfl, rfl⟩ := h.stored q' w' t hw'
  obtain rfl := (IoCtl.access.inj (Option.some.inj (hio.symm.trans hio'))).1
  exact ⟨rfl, rfl⟩

/-! ### Steps of the machine -/

/-- **What a step has to respect** in which the running thread comes to `c` in the drivers: the other
threads stay where they are and keep their locks. -/
theorem of_local (h : Driven s) {s' : System} {c : Option IoCtl} (hsched : Scheduled s'.machine)
    (hlocked : Locked s'.machine) (honly : OnlyIdle s'.machine) (hio : s'.io = update s.io s.cur c)
    (hctl : ∀ t, t ≠ s.cur → s'.ctl t = s.ctl t)
    (hholder : ∀ t, t ≠ s.cur → ∀ l, (s.board.kernel.locks l).holder = some t →
      (s'.board.kernel.locks l).holder = some t)
    (hidle : s'.board.kernel.idleThread = s.board.kernel.idleThread)
    (hborn : ∀ t, s'.machine.Unborn t → s.machine.Unborn t) (hmode : s'.board.mode = s.board.mode)
    (hcidle : c ≠ none → s.cur ≠ s.board.kernel.idleThread)
    (hstage : ∀ op st, c = some (.access op st) → s'.machine.AtStage s.cur op st)
    (hcmode : ∀ x st, c = some (.access (.serialPutc x) st) → s.board.mode = .queue)
    (hstored : ∀ q w t, (s'.board.queues q).waiter w = some t →
      (s'.board.kernel.threads t).status = .blocked ∧
        ∃ op, s'.io t = some (.access op .release) ∧ op.queue = q ∧ op.waits = w) : Driven s' := by
  have hothers : ∀ t, t ≠ s.cur → s'.io t = s.io t := fun t ht => hio ▸ update_of_ne ht ..
  have hself : s'.io s.cur = c := hio ▸ update_self ..
  refine ⟨hsched, hlocked, honly, fun t c' ht => ?_, fun t op st ht => ?_, hstored,
    fun t x st ht => hmode.trans ?_⟩
  · rw [hidle]
    by_cases hr : t = s.cur
    · subst hr
      exact ⟨fun hun => h.cur_not_unborn (hborn _ hun), hcidle (by simp [← hself, ht])⟩
    · obtain ⟨hb, hne⟩ := h.known t c' ((hothers t hr).symm.trans ht)
      exact ⟨fun hun => hb (hborn t hun), hne⟩
  · by_cases hr : t = s.cur
    · subst hr
      exact hstage op st (hself.symm.trans ht)
    · exact (h.stage t op st ((hothers t hr).symm.trans ht)).carry (hctl t hr) (hholder t hr)
  · by_cases hr : t = s.cur
    · subst hr
      exact hcmode x st (hself.symm.trans ht)
    · exact h.mode t x st ((hothers t hr).symm.trans ht)

/-- A step of the machine in which the running thread comes to `c` in the drivers. -/
theorem base (h : Driven s) {e : Event} {m : Machine} {c : Option IoCtl}
    (hs : step s.machine e = .ok m) (hidle : c ≠ none → s.cur ≠ s.board.kernel.idleThread)
    (hstage : ∀ op st, c = some (.access op st) → m.AtStage s.cur op st)
    (hmode : ∀ x st, c = some (.access (.serialPutc x) st) → s.board.mode = .queue) :
    Driven ((s.setIo s.cur c).setMachine m) := by
  obtain ⟨a, hmove, -⟩ := step_lockMove h.sched h.locked hs
  obtain ⟨o, -, hctl, -⟩ := step_act hs
  refine h.of_local (h.sched.step hs) (h.locked.step h.sched hs) (h.onlyIdle.step hs) rfl
    (fun t ht => ?_) (fun t ht l hh => ?_) (step_idleThread hs)
    (fun t hun => (Unborn.of_step h.sched hs hun).1) rfl hidle hstage hmode fun q w t ht => ?_
  · change m.ctl t = _
    rw [hctl]
    exact update_of_ne ht ..
  · -- the holder of a lock stays its holder while others run
    exact Move.holder_of_ne h.locked.exclusive hmove ht hh
  · obtain ⟨hst, op, hop, hqw⟩ := h.stored q w t ht
    obtain ⟨hborn, hnidle⟩ := h.known t _ hop
    exact ⟨h.sched.blocked_step h.onlyIdle hs hst hnidle
      (h.not_registered (h.stage t op _ hop).1) hborn, op,
      (update_of_ne (h.cur_ne_of_blocked hst) ..).trans hop, hqw⟩

/-- A step of the machine that is no business of the drivers. -/
theorem kernel (h : Driven s) {e : Event} {m : Machine} (hallow : s.allows e = true)
    (hs : step s.machine e = .ok m) : Driven (s.setMachine m) := by
  have hself : s.setIo s.cur (s.io s.cur) = s := by
    unfold System.setIo
    rw [update_eq_self]
  have hbase := h.base hs (c := s.io s.cur) (fun hne => ?_) (fun op st hio => ?_)
    fun x st hio => h.mode _ x st hio
  · rwa [hself] at hbase
  · obtain ⟨c, hc⟩ := Option.ne_none_iff_exists'.mp hne
    exact (h.known _ c hc).2
  · have hsched := h.sched.step hs
    have hlocked := h.locked.step h.sched hs
    obtain ⟨o, ha, hctl, hd⟩ := step_act hs
    have hcur : m.ctl s.cur = o.ctl := by
      rw [hctl]
      exact update_self ..
    cases ha with
    | call =>
      rw [show s.io s.cur = none from of_decide_eq_true hallow] at hio
      cases hio
    | tick => exact absurd hio (io_ne_access_of_interruptsOn hallow op st)
    | exec hex =>
      have hold := h.stage _ op st hio
      have huser : s.machine.pc s.cur ≠ .user := hex.pc_inside.1
      cases st with
      | test => trivial
      | release => exact absurd hold.1 huser
      | wait =>
        obtain ⟨hst, hacq⟩ := hold.resolve_right fun hu => huser hu.1
        rcases hex.acquiring hst hacq with ⟨hst', hacq'⟩ | ⟨hu, hmem⟩
        · refine .inl ⟨?_, ?_⟩
          · rw [hcur]
            exact hst'
          · unfold Machine.pc
            rw [hcur]
            exact hacq'
        · refine .inr ⟨?_, ?_⟩
          · unfold Machine.pc
            rw [hcur]
            exact hu
          · obtain ⟨st, hth⟩ := hd.threads s.cur
            refine (hlocked.exclusive.holder s.cur _).mpr (.inl ?_)
            change _ ∈ (m.kernel.threads s.cur).locksHolding
            rw [hth]
            exact hmem

/-! ### Steps of the drivers -/

/-- The running thread comes to `c` in the drivers. -/
theorem setIo (h : Driven s) {c : Option IoCtl} (hpc : s.machine.curPc = .user)
    (hstage : ∀ op st, c = some (.access op st) → s.machine.AtStage s.cur op st)
    (hmode : ∀ x st, c = some (.access (.serialPutc x) st) → s.board.mode = .queue) :
    Driven (s.setIo s.cur c) := by
  refine h.of_local h.sched h.locked h.onlyIdle rfl (fun _ _ => rfl) (fun _ _ _ hh => hh) rfl
    (fun _ hun => hun) rfl (fun _ => h.cur_ne_idle hpc) hstage hmode fun q w t ht => ?_
  obtain ⟨hst, op, hop, hqw⟩ := h.stored q w t ht
  exact ⟨hst, op, (update_of_ne (h.cur_ne_of_blocked hst) ..).trans hop, hqw⟩

/-- A change of the board that readies no thread and stores none. -/
theorem board (h : Driven s) {b : Board} (hk : b.kernel = s.board.kernel)
    (hw : ∀ q w t, (b.queues q).waiter w = some t → (s.board.queues q).waiter w = some t)
    (hmode : s.board.mode = .queue → b.mode = .queue) : Driven { s with board := b } := by
  obtain ⟨k, queues, mode, log⟩ := b
  obtain rfl : k = s.board.kernel := hk
  exact ⟨h.sched, h.locked, h.onlyIdle, h.known, h.stage, fun q w t ht => h.stored q w t (hw q w t ht),
    fun t x st ht => hmode (h.mode t x st ht)⟩

end Driven

/-- The locks after a change of the kernel's memory that touches none. -/
theorem Locked.frame {m : Machine} {k' : Kernel} (h : Locked m) (hf : LockFrame m.kernel k')
    (hsemas : k'.semas = m.kernel.semas) (hnext : k'.nextPage = m.kernel.nextPage) :
    Locked ⟨k', m.ctl⟩ := by
  have htable : Machine.lockTable ⟨k', m.ctl⟩ = m.lockTable := by
    refine Table.ext (funext hf.held) (funext hf.waiting) rfl (funext hf.holder) (funext fun l => ?_)
    change (k'.semas (.lock l)).value = (m.kernel.semas (.lock l)).value
    rw [hsemas]
  refine ⟨htable ▸ h.exclusive, fun t ht => (hf.held t).trans (h.unborn t ?_)⟩
  exact ht.imp (fun hge => hnext ▸ hge) id

section Block

variable {m : Machine} {k : Kernel}

theorem blockPark_status_of_ne {k : Kernel} {t : Tid} (ht : t ≠ k.running) :
    ((blockPark k).threads t).status = (k.threads t).status :=
  status_update_of_ne ht

theorem blockPark_status (k : Kernel) : ((blockPark k).threads k.running).status = .blocked := by
  simp [blockPark, Kernel.setThread]

/-- What `thread_block` leaves to the dispatch. -/
theorem Scheduled.parked (h : Scheduled m) :
    Queues ⟨blockPark m.kernel, m.ctl⟩ ∧ OffCpu (blockPark m.kernel) :=
  ⟨h.queues.parked h.cpu.status (fun _ hu => blockPark_status_of_ne hu) (.inl rfl)
    (fun _ => .inl rfl) (.inl rfl) rfl rfl,
    offCpu_of_park h.cpu (fun _ hu => blockPark_status_of_ne hu)
      (by rw [blockPark_status]; simp)⟩

/-- `thread_block` by a thread outside the kernel. -/
theorem Scheduled.block (h : Scheduled m) (hk : schedule (blockPark m.kernel) = .ok k) :
    Scheduled ⟨k, m.ctl⟩ := by
  obtain ⟨hq, hoff⟩ := h.parked
  obtain ⟨hq', hc⟩ := hq.schedule hoff hk
  refine ⟨fun t => ?_, hq', hc⟩
  have hmlfqs : k.mlfqs = m.kernel.mlfqs := (dispatched_of_schedule hk).mlfqs
  exact hmlfqs.symm ▸ h.flow t

/-- Threads that are blocked, and the one that blocks, are so after the dispatch. -/
theorem Scheduled.block_status (h : Scheduled m) (hk : schedule (blockPark m.kernel) = .ok k)
    {t : Tid} (hidle : t ≠ m.kernel.idleThread)
    (ht : t = m.kernel.running ∨ (m.kernel.threads t).status = .blocked) :
    (k.threads t).status = .blocked := by
  refine Queues.schedule_blocked h.parked.1 hk ?_ hidle
  by_cases hr : t = m.kernel.running
  · rw [hr]
    exact blockPark_status _
  · exact (blockPark_status_of_ne hr).trans (ht.resolve_left hr)

theorem LockFrame.block (hk : schedule (blockPark m.kernel) = .ok k) : LockFrame m.kernel k := by
  have hd := dispatched_of_schedule hk
  have hpark : LockFrame m.kernel (blockPark m.kernel) := .setThread rfl rfl
  refine hpark.trans ⟨fun t => ?_, fun t => ?_, fun l => by rw [hd.locks]⟩ <;>
  · obtain ⟨st, hst⟩ := hd.threads t
    rw [hst]

end Block

/-- **An access to a queue**, as the threads see it: it wakes the thread in one member. -/
structure Signals (b b' : Board) (q : QueueId) (w : Waiter) : Prop where
  wakes : Wakes b.kernel ((b.queues q).waiter w) b'.kernel
  self : (b'.queues q).waiter w = none
  others : ∀ q' w', ¬ (q' = q ∧ w' = w) → (b'.queues q').waiter w' = (b.queues q').waiter w'
  mode : b'.mode = b.mode

section Signals

variable {b b' : Board} {q : QueueId} {c : UInt8}

theorem Signals.getc (h : intqGetc b q = .ok (c, b')) : Signals b b' q .notFull := by
  obtain ⟨-, -, k', hwakes, rfl⟩ := intqGetc_ok h
  refine ⟨hwakes, by simp [Intq.waiter], fun q' w' hne => ?_, rfl⟩
  dsimp only
  by_cases hq : q' = q
  · subst hq
    rw [update_self]
    cases w' with
    | notFull => exact absurd ⟨rfl, rfl⟩ hne
    | notEmpty => rfl
  · rw [update_of_ne hq]

theorem Signals.putc (h : intqPutc b q c = .ok b') : Signals b b' q .notEmpty := by
  obtain ⟨-, k', hwakes, rfl⟩ := intqPutc_ok h
  refine ⟨hwakes, by simp [Intq.waiter], fun q' w' hne => ?_, rfl⟩
  dsimp only
  by_cases hq : q' = q
  · subst hq
    rw [update_self]
    cases w' with
    | notFull => rfl
    | notEmpty => exact absurd ⟨rfl, rfl⟩ hne
  · rw [update_of_ne hq]

end Signals

namespace Driven

variable {s : System} {b : Board}

/-- Waking a thread that sleeps in `wait`. -/
theorem readied (h : Driven s) {q : QueueId} {w : Waiter} {t : Tid} {k : Kernel}
    (ht : (s.board.queues q).waiter w = some t) (hub : threadUnblock s.board.kernel t = .ok k) :
    Readied s.board.kernel k t := by
  obtain ⟨-, op, hio, -, -⟩ := h.stored q w t ht
  have hreg := h.not_registered (h.stage t op _ hio).1
  have hready := Readied.of_unblock s.board.kernel.sleepHeap k.semas hub
    (fun x => ⟨by rw [threadUnblock_semas hub], fun hmem => hreg (.inl ⟨x, ?_⟩)⟩)
    ⟨le_rfl, fun hmem => hreg (.inr hmem)⟩
  · exact hready
  · rwa [threadUnblock_semas hub] at hmem

/-- **An access keeps the invariant.** -/
theorem signals (h : Driven s) {q : QueueId} {w : Waiter} (hsig : Signals s.board b q w) :
    Driven { s with board := b } := by
  -- a member that holds a thread held it before
  have hold : ∀ q' w' t, (b.queues q').waiter w' = some t → ¬ (q' = q ∧ w' = w) ∧
      (s.board.queues q').waiter w' = some t := by
    intro q' w' t ht
    have hne : ¬ (q' = q ∧ w' = w) := by
      rintro ⟨rfl, rfl⟩
      exact absurd (hsig.self.symm.trans ht) (by simp)
    exact ⟨hne, (hsig.others q' w' hne).symm.trans ht⟩
  cases hw : (s.board.queues q).waiter w with
  | none =>
    have hk := hsig.wakes
    rw [hw] at hk
    exact h.board hk (fun q' w' t ht => (hold q' w' t ht).2) fun hm => hsig.mode.trans hm
  | some t =>
    have hub := hsig.wakes
    rw [hw] at hub
    have hready := h.readied hw hub
    obtain ⟨-, op, hio, -, -⟩ := h.stored q w t hw
    obtain ⟨hborn, -⟩ := h.known t _ hio
    have hf := LockFrame.pushReady (threadUnblock_ok hub).2
    refine h.of_local (c := s.io s.cur) ⟨?_, ?_, h.sched.cpu.readied hready⟩
      (h.locked.frame hf (threadUnblock_semas hub) hready.nextPage)
      (fun u hu => (h.onlyIdle u hu).trans hready.idle.symm) (update_eq_self ..).symm
      (fun _ _ => rfl) (fun u _ l hh => (hf.holder l).trans hh) hready.idle
      (fun u hu => hu.imp (fun hge => hready.nextPage ▸ hge) id) hsig.mode (fun hne => ?_)
      (fun op st hc => (h.stage _ op st hc).carry rfl fun l hh => (hf.holder l).trans hh)
      (h.mode _) fun q' w' u hu => ?_
    · intro u
      have hmlfqs := (pushReady_setup (threadUnblock_ok hub).2).mlfqs
      exact hmlfqs.symm ▸ h.sched.flow u
    · exact h.sched.queues.readied hready (not_le.mp fun hge => hborn (.inl hge)) fun u hu =>
        hborn (.inr ⟨u, hu⟩)
    · obtain ⟨c, hc⟩ := Option.ne_none_iff_exists'.mp hne
      exact (h.known _ c hc).2
    · obtain ⟨hne, hu⟩ := hold q' w' u hu
      obtain ⟨hst, hop⟩ := h.stored q' w' u hu
      refine ⟨(hready.status u ?_).trans hst, hop⟩
      rintro rfl
      exact hne (h.stored_unique hw hu)

/-- The accesses of a routine keep the invariant. -/
theorem drives (h : Driven s) (hd : Drives s.board b) : Driven { s with board := b } := by
  refine hd.keeps (I := fun b => Driven { s with board := b }) h fun b₁ b₂ h₁ hdoes => ?_
  cases hdoes with
  | getc hget => exact h₁.signals (.getc hget)
  | send hget => exact (h₁.signals (.getc hget)).board rfl (fun _ _ _ ht => ht) id
  | putc _ hput => exact h₁.signals (.putc hput)
  | ier => exact h₁.board rfl (fun _ _ _ ht => ht) id

theorem perform (h : Driven s) {op : IoOp} (hb : op.perform s.board = .ok b) :
    Driven { s with board := b } := by
  obtain ⟨b₁, ⟨-, c, hget⟩ | ⟨-, c, hput⟩, hd⟩ := IoOp.perform_ok hb
  · exact (h.signals (.getc hget)).drives hd
  · exact (h.signals (.putc hput)).drives hd

/-- Nobody waits for room in `txq` before the port is in queue mode, so setting it up for polling
forgets no thread. -/
theorem polled_waiter (h : Driven s) (q : QueueId) (w : Waiter) :
    (s.board.polled.queues q).waiter w = (s.board.queues q).waiter w := by
  unfold Board.polled
  split
  · next hmode =>
    by_cases hq : q = txQueue
    · subst hq
      have hnone : (s.board.queues txQueue).waiter w = none := by
        by_contra hne
        obtain ⟨t, ht⟩ := Option.ne_none_iff_exists'.mp hne
        obtain ⟨-, op, hio, hop, -⟩ := h.stored _ w t ht
        obtain ⟨c, rfl⟩ := IoOp.queue_eq_tx hop
        exact absurd ((h.mode t c _ hio).symm.trans hmode) (by simp)
      rw [hnone]
      unfold initPoll
      dsimp only
      rw [update_self]
      cases w <;> rfl
    · unfold initPoll
      dsimp only
      rw [update_of_ne hq]
  · rfl

theorem polled_kernel (b : Board) : b.polled.kernel = b.kernel := by
  unfold Board.polled
  split <;> rfl

/-- **`wait`.** The thread is stored in the member and blocks; another thread is dispatched. -/
theorem wait (h : Driven s) {op : IoOp} {k : Kernel} (hpc : s.machine.curPc = .user)
    (hio : s.io s.cur = some (.access op .wait))
    (hk : schedule (blockPark s.board.kernel) = .ok k) :
    Driven ({ s with
      board := { s.board with
        kernel := k
        queues := update s.board.queues op.queue
          ((s.board.queues op.queue).setWaiter op.waits (some s.cur)) } }.setIo s.cur
            (some (.access op .release))) := by
  have hidle := h.cur_ne_idle hpc
  have hd := dispatched_of_schedule hk
  have hf : LockFrame s.machine.kernel k := .block hk
  have hidleThread : k.idleThread = s.board.kernel.idleThread := (schedule_idleThread hk).trans rfl
  -- the thread has come back from `lock_acquire`
  have hstage : s.machine.AtStage s.cur op .release := by
    refine (h.stage _ op _ hio).resolve_left fun hacq => ?_
    rw [show s.machine.pc s.cur = .user from hpc] at hacq
    exact absurd hacq.2 (by simp [Pc.acquiring])
  refine h.of_local (h.sched.block hk) (h.locked.frame hf hd.semas hd.nextPage)
    (fun t ht => (h.onlyIdle t ht).trans hidleThread.symm) rfl (fun _ _ => rfl)
    (fun t _ l hh => (hf.holder l).trans hh) hidleThread
    (fun t ht => ht.imp (fun hge => (hd.nextPage.trans rfl) ▸ hge) id) rfl (fun _ => hidle)
    (fun op' st hc => ?_) (fun x st hc => ?_) fun q w t ht => ?_
  · cases hc
    exact hstage.carry rfl fun l hh => (hf.holder l).trans hh
  · cases hc
    exact h.mode _ x _ hio
  · -- the new waiter, or an old one
    have hcase : (t = s.cur ∧ q = op.queue ∧ w = op.waits) ∨
        (s.board.queues q).waiter w = some t := by
      change (update s.board.queues op.queue _ q).waiter w = some t at ht
      by_cases hq : q = op.queue
      · subst hq
        rw [update_self, Intq.setWaiter_waiter] at ht
        split at ht
        · next hw => exact .inl ⟨(Option.some.inj ht).symm, rfl, hw⟩
        · exact .inr ht
      · rw [update_of_ne hq] at ht
        exact .inr ht
    rcases hcase with ⟨rfl, rfl, rfl⟩ | hold
    · exact ⟨h.sched.block_status hk hidle (.inl rfl), op, update_self .., rfl, rfl⟩
    · obtain ⟨hst, op', hop, hqw⟩ := h.stored q w t hold
      exact ⟨h.sched.block_status hk (h.known t _ hop).2 (.inr hst), op',
        (update_of_ne (h.cur_ne_of_blocked hst) ..).trans hop, hqw⟩

/-- The running thread comes to `c` after an access. -/
theorem leave (h : Driven { s with board := b }) (hrun : b.kernel.running = s.board.kernel.running)
    {c : Option IoCtl} (hpc : s.machine.curPc = .user)
    (hstage : ∀ op st, c = some (.access op st) →
      Machine.AtStage ⟨b.kernel, s.ctl⟩ s.cur op st)
    (hmode : ∀ x st, c = some (.access (.serialPutc x) st) → b.mode = .queue) :
    Driven ({ s with board := b }.setIo s.cur c) := by
  have hcur : System.cur { s with board := b } = s.cur := hrun
  have hset := h.setIo (c := c) ?_ ?_ hmode
  · rwa [hcur] at hset
  · change (s.ctl b.kernel.running).pc = .user
    rw [hrun]
    exact hpc
  · rw [hcur]
    exact hstage

/-- The entry to `lock_acquire`. -/
theorem atStage_of_acquire (h : Driven s) {op : IoOp} {m : Machine}
    (hs : step s.machine (.call (.lockAcquire (intqLock op.queue))) = .ok m) :
    m.AtStage s.cur op .wait := by
  obtain ⟨o, ha, hctl, -⟩ := step_act hs
  have hcur : m.ctl s.cur = o.ctl := by
    rw [hctl]
    exact update_self ..
  cases ha with
  | call hpc =>
    refine .inl ⟨?_, ?_⟩
    · rw [hcur]
      exact h.sched.flow.stack_of_user hpc
    · unfold Machine.pc
      rw [hcur]
      rfl

/-- **Every step keeps the invariant.** -/
theorem step (h : Driven s) {e : SystemEvent} {s' : System} (hs : systemStep s e = .ok s') :
    Driven s' := by
  cases advance_of_step hs with
  | kernel hallow hm => exact h.kernel hallow hm
  | level => exact ⟨h.sched, h.locked, h.onlyIdle, h.known, h.stage, h.stored, h.mode⟩
  | @enter op b hpc hio hd hmode =>
    refine (h.drives hd).leave hd.running hpc (fun op' st hc => ?_) fun x st hc => ?_
    · cases hc
      trivial
    · cases hc
      exact hd.mode.trans (hmode x rfl)
  | poll hpc hio hmode =>
    refine h.board (polled_kernel _) (fun q w t ht => ?_) fun hm => absurd hm hmode
    rw [← h.polled_waiter]
    exact ht
  | flush hpc hio hb => exact h.drives (.transmit hb)
  | init hpc hio hmode =>
    have hb : Driven { s with board := { s.board.polled with mode := .queue } } :=
      h.board (polled_kernel _) (fun q w t ht => by rw [← h.polled_waiter]; exact ht) fun _ => rfl
    exact hb.leave (congrArg Kernel.running (polled_kernel _)) hpc (fun _ _ hc => nomatch hc)
      fun _ _ hc => nomatch hc
  | perform hpc hio hholds hb =>
    exact (h.perform hb).leave (IoOp.perform_running hb) hpc (fun _ _ hc => nomatch hc)
      fun _ _ hc => nomatch hc
  | lock hpc hio hholds hm =>
    refine h.base hm (fun _ => h.cur_ne_idle hpc) (fun op' st hc => ?_) fun x st hc => ?_
    · cases hc
      exact h.atStage_of_acquire hm
    · cases hc
      exact h.mode _ x _ hio
  | wait hpc hio hholds hk => exact h.wait hpc hio hk
  | release hpc hio hm =>
    refine h.base hm (fun _ => h.cur_ne_idle hpc) (fun op' st hc => ?_) fun x st hc => ?_
    · cases hc
      trivial
    · cases hc
      exact h.mode _ x _ hio
  | notify hpc hio =>
    exact (h.drives (.single .ier)).leave rfl hpc (fun _ _ hc => nomatch hc) fun _ _ hc => nomatch hc
  | interrupt hon hb => exact h.drives (.handle hb)

theorem boot (mlfqs : Bool) (v : ℕ → ℕ) (polled : Bool) : Driven (systemBoot mlfqs v polled) where
  sched := .boot mlfqs v
  locked := .boot mlfqs v
  onlyIdle := .boot mlfqs v
  known _ _ h := nomatch h
  stage _ _ _ h := nomatch h
  stored q w t h := by cases w <;> exact nomatch h
  mode _ _ _ h := nomatch h

theorem of_run {G : Guard System SystemEvent} {mlfqs : Bool} {v : ℕ → ℕ} {polled : Bool}
    {h : List (System × SystemEvent)} (hrun : Run systemStep G (systemBoot mlfqs v polled) h s) :
    Driven s :=
  hrun.invariant (boot mlfqs v polled) fun _ _ _ hI _ hs => hI.step hs

end Driven

/-! ### The direct way to `wait` -/

/-- A thread that finds its queue empty, or full, also finds the queue's lock free. -/
def System.lockFree (s : System) : SystemEvent → Bool
  | .io =>
    match s.io s.cur with
    | some (.access op .test) =>
      (s.board.queues op.queue).holds op.waits ||
        (s.board.kernel.semas (.lock (intqLock op.queue))).value != 0
    | _ => true
  | _ => true

/-- The way through `lock_acquire` that does not wait. -/
def Kernel.Direct (k : Kernel) (l : LockId) : Pc → Prop
  | .acquireAssert l' | .tryAssert l' true | .tryDown l' true =>
    l' = l ∧ (k.semas (.lock l)).value ≠ 0
  | .setHolder l' | .pushHolding l' => l' = l
  | .user => True
  | _ => False

/-- A thread that goes this way does not leave it, and keeps the CPU. -/
theorem Exec.direct {k : Kernel} {c : Control} {o : Outcome} {l : LockId} (hex : Exec k c o)
    (hst : c.stack = []) (h : k.Direct l c.pc) :
    o.switch = false ∧ o.kernel.running = k.running ∧ o.kernel.Direct l o.ctl.pc := by
  cases hex with
  | silent hs =>
    refine ⟨rfl, rfl, ?_⟩
    cases hs with
    | acquireAssert => exact h
    | @tryAssert l' wait st =>
      cases wait with
      | true => exact h
      | false => exact h.elim
    | tryFail hv =>
      obtain ⟨rfl, hpos⟩ := h
      exact absurd hv hpos
    | _ => exact h.elim
  | @tryTake l' wait st hv =>
    cases wait with
    | true => exact ⟨rfl, rfl, h.1⟩
    | false => exact h.elim
  | setHolder => exact ⟨rfl, rfl, h⟩
  | pushHolding =>
    obtain rfl : _ = [] := hst
    exact ⟨rfl, rfl, trivial⟩
  | downBlock hpc | downTake hpc => rcases hpc with rfl | rfl <;> exact h.elim
  | updateMlfqs hstore => cases hstore <;> exact h.elim
  | _ => exact h.elim

/-- Only the running thread is on its way to `wait`, and its queue is as it was at the test. -/
def Undisturbed (s : System) : Prop :=
  ∀ t op, s.io t = some (.access op .wait) → t = s.cur ∧
    (s.board.queues op.queue).holds op.waits = false ∧
      s.board.kernel.Direct (intqLock op.queue) s.machine.curPc

section Undisturbed

variable {s s' : System} {e : SystemEvent}

/-- While the running thread is not on its way to `wait`, nobody is. -/
theorem Undisturbed.nobody (h : Undisturbed s) (hcur : ∀ op, s.io s.cur ≠ some (.access op .wait))
    (t : Tid) (op : IoOp) : s.io t ≠ some (.access op .wait) := by
  intro hio
  obtain ⟨rfl, -⟩ := h t op hio
  exact hcur op hio

theorem Undisturbed.of_nobody (h : ∀ t op, s.io t ≠ some (.access op .wait)) : Undisturbed s :=
  fun t op hio => absurd hio (h t op)

/-- The running thread comes to a place that is not on the way to `wait`. -/
theorem Undisturbed.move (h : Undisturbed s) {c : Option IoCtl}
    (hio : s'.io = update s.io s.cur c) (hc : ∀ op, c ≠ some (.access op .wait)) :
    Undisturbed s' := by
  refine .of_nobody fun t op ht => ?_
  rw [hio] at ht
  by_cases hr : t = s.cur
  · rw [hr, update_self] at ht
    exact hc op ht
  · rw [update_of_ne hr] at ht
    exact hr (h t op ht).1

theorem Undisturbed.kernel (h : Undisturbed s) (hd : Driven s) {e : Event} {m : Machine}
    (hallow : s.allows e = true) (hs : step s.machine e = .ok m) : Undisturbed (s.setMachine m) := by
  intro t op hio
  obtain ⟨rfl, hholds, hdir⟩ := h t op hio
  obtain ⟨o, ha, hm⟩ := step_cases hs
  have hcur := ha.settle_curPc
  cases ha with
  | call =>
    have hnone : s.io s.cur = none := of_decide_eq_true hallow
    exact absurd (hnone.symm.trans hio) (by simp)
  | tick => exact absurd hio (io_ne_access_of_interruptsOn hallow op .wait)
  | exec hex =>
    obtain ⟨hst, -⟩ := (hd.stage _ op _ hio).resolve_right fun hu => hex.pc_inside.1 hu.1
    obtain ⟨hsw, hrun, hdir'⟩ := hex.direct hst hdir
    rcases hm with ⟨-, rfl⟩ | ⟨k, hsw', -⟩
    · refine ⟨hrun.symm, hholds, ?_⟩
      change o.kernel.Direct _ (s.machine.settle o).curPc
      rw [hcur]
      exact hdir'
    · exact absurd (hsw.symm.trans hsw') (by simp)

theorem Undisturbed.lock (h : Undisturbed s) {op : IoOp} {m : Machine}
    (hholds : (s.board.queues op.queue).holds op.waits = false)
    (hfree : (s.board.kernel.semas (.lock (intqLock op.queue))).value ≠ 0)
    (hs : step s.machine (.call (.lockAcquire (intqLock op.queue))) = .ok m) :
    Undisturbed ((s.setIo s.cur (some (.access op .wait))).setMachine m) := by
  intro t op' ht
  have ht : update s.io s.cur (some (.access op .wait)) t = some (.access op' .wait) := ht
  obtain rfl : t = s.cur := by
    by_contra hr
    rw [update_of_ne hr] at ht
    exact hr (h t op' ht).1
  rw [update_self] at ht
  obtain rfl := (IoCtl.access.inj (Option.some.inj ht)).1
  obtain ⟨o, ha, hm⟩ := step_cases hs
  have hcur := ha.settle_curPc
  cases ha with
  | call =>
    rcases hm with ⟨-, rfl⟩ | ⟨k, hsw, -⟩
    · refine ⟨rfl, hholds, ?_⟩
      change s.board.kernel.Direct _ (s.machine.settle _).curPc
      rw [hcur]
      exact ⟨rfl, hfree⟩
    · cases hsw

/-- **Every step that meets the condition keeps the way to `wait` clear.** -/
theorem Undisturbed.step (h : Undisturbed s) (hd : Driven s) (hfree : s.lockFree e = true)
    (hs : systemStep s e = .ok s') : Undisturbed s' := by
  cases advance_of_step hs with
  | kernel hallow hm => exact h.kernel hd hallow hm
  | level hpc hio => exact .of_nobody (h.nobody (by rw [hio]; simp))
  | enter | init | perform | release | notify | wait => exact h.move rfl (by simp)
  | poll hpc hio | flush hpc hio => exact .of_nobody (h.nobody (by rw [hio]; simp))
  | @lock op m hpc hio hholds hm =>
    refine h.lock hholds ?_ hm
    simpa [System.lockFree, hio, hholds] using hfree
  | interrupt hon hb =>
    exact .of_nobody (h.nobody fun op => io_ne_access_of_interruptsOn hon op .wait)

end Undisturbed

/-! ### The assertion of `wait` -/

section Assertion

theorem mapError_kernel_ne_wait {α : Type} (x : Except Fault α) :
    x.mapError DeviceFault.kernel ≠ .error .wait := by
  cases x <;> simp [Except.mapError]

theorem bind_ne_error {α β : Type} {x : Except DeviceFault α} {f : α → Except DeviceFault β}
    {d : DeviceFault} (hx : x ≠ .error d) (hf : ∀ a, f a ≠ .error d) : (x >>= f) ≠ .error d := by
  cases x with
  | error d' => exact fun h => hx (congrArg Except.error (Except.error.inj h))
  | ok a => exact hf a

theorem intqSignal_ne_wait (k : Kernel) (q : Intq) (w : Waiter) :
    intqSignal k q w ≠ .error .wait := by
  unfold intqSignal
  split
  · split
    · simp
    · exact bind_ne_error (mapError_kernel_ne_wait _) (by simp)
  · simp

theorem intqGetc_ne_wait (b : Board) (q : QueueId) : intqGetc b q ≠ .error .wait := by
  unfold intqGetc
  dsimp only
  split
  · simp
  · exact bind_ne_error (intqSignal_ne_wait _ _ _) (by simp)

theorem intqPutc_ne_wait (b : Board) (q : QueueId) (c : UInt8) : intqPutc b q c ≠ .error .wait := by
  unfold intqPutc
  dsimp only
  split
  · simp
  · exact bind_ne_error (intqSignal_ne_wait _ _ _) (by simp)

theorem IoOp.perform_ne_wait (op : IoOp) (b : Board) : op.perform b ≠ .error .wait := by
  cases op with
  | intqGetc n | inputGetc => exact bind_ne_error (intqGetc_ne_wait _ _) (by simp)
  | intqPutc n c => exact intqPutc_ne_wait _ _ _
  | serialPutc c => exact bind_ne_error (intqPutc_ne_wait _ _ _) (by simp)

variable {s : System}

theorem kernelStep_ne_wait (s : System) (e : Event) : s.kernelStep e ≠ .error .wait :=
  bind_ne_error (mapError_kernel_ne_wait _) (by simp)

/-- Where the assertion fails. -/
theorem error_wait (h : systemStep s .io = .error .wait) :
    ∃ op, s.machine.curPc = .user ∧ s.io s.cur = some (.access op .wait) ∧
      (s.board.queues op.queue).holds op.waits = true := by
  simp only [systemStep] at h
  split at h
  · next c hio =>
    split at h
    · next hpc =>
      cases c with
      | initQueue => exact absurd h (by simp [System.goOn])
      | access op st =>
        cases st with
        | test =>
          simp only [System.goOn] at h
          split at h
          · exact absurd h (bind_ne_error (IoOp.perform_ne_wait _ _) (by simp))
          · exact absurd h (kernelStep_ne_wait _ _)
        | wait =>
          refine ⟨op, hpc, hio, ?_⟩
          by_contra hholds
          simp only [System.goOn, System.wait, intqWait, if_neg hholds] at h
          exact absurd h (bind_ne_error (by simp) fun _ =>
            bind_ne_error (mapError_kernel_ne_wait _) (by simp))
        | release => exact absurd h (kernelStep_ne_wait _ _)
    · cases h
  · cases h

end Assertion

/-- **The waiters of a queue.** In every run, the two members of a queue never hold a thread each,
and a thread that comes to `wait` overwrites nobody. If in every step of the run a thread that finds
its queue empty, or full, finds the queue's lock free, the assertion of `wait` does not fail. -/
theorem intq_waiters {mlfqs : Bool} {v : ℕ → ℕ} {polled : Bool}
    {h : List (System × SystemEvent)} {s : System}
    (hrun : Run systemStep (fun _ _ => True) (systemBoot mlfqs v polled) h s) :
    (∀ q w w' t t', (s.board.queues q).waiter w = some t → (s.board.queues q).waiter w' = some t' →
        w = w' ∧ t = t') ∧
      (∀ op, s.machine.curPc = .user → s.io s.cur = some (.access op .wait) →
        ∀ w, (s.board.queues op.queue).waiter w = none) ∧
      ((∀ x ∈ h, x.1.lockFree x.2 = true) → systemStep s .io ≠ .error .wait) := by
  obtain ⟨hd, hclear⟩ : Driven s ∧ ((∀ x ∈ h, x.1.lockFree x.2 = true) → Undisturbed s) := by
    refine hrun.invariant_history
      (I := fun h s => Driven s ∧ ((∀ x ∈ h, x.1.lockFree x.2 = true) → Undisturbed s))
      ⟨.boot mlfqs v polled, fun _ _ _ hio => nomatch hio⟩ fun h s e s' hI _ hs => ?_
    refine ⟨hI.1.step hs, fun hfree => ?_⟩
    obtain ⟨hlast, hbefore⟩ := List.forall_mem_cons.mp hfree
    exact (hI.2 hbefore).step hI.1 hlast hs
  refine ⟨fun q w w' t t' hw hw' => hd.one_waiter hw hw', fun op hpc hio w => hd.no_waiter hpc hio w,
    fun hfree hs => ?_⟩
  obtain ⟨op, -, hio, hholds⟩ := error_wait hs
  exact absurd (((hclear hfree) _ op hio).2.1.symm.trans hholds) (by simp)

/-- Thread 2 sleeps for a key in a run that meets the condition, and the main thread goes on. -/
theorem intq_waiters_run : ∃ h s,
    Run systemStep (fun _ _ => True) (systemBoot false (fun _ => 0) true) h s ∧
      (∀ x ∈ h, x.1.lockFree x.2 = true) ∧ (s.board.queues inputQueue).notEmpty = some 2 ∧
      systemStep s .io ≠ .error .wait := by
  obtain ⟨h, s, hrun, hp⟩ := exists_systemHistory (fun _ _ => True) System.lockFree
    (fun _ _ _ => trivial) (systemBoot false (fun _ => 0) true)
    (Call.events (.threadCreate 40 true) 30 ++ IoOp.inputGetc.sleepEvents)
    (fun h s => h.all (fun x => x.1.lockFree x.2) &&
      decide ((s.board.queues inputQueue).notEmpty = some 2)) (by decide +kernel)
  obtain ⟨hall, hsleeps⟩ := (Bool.and_eq_true _ _).mp hp
  have hfree : ∀ x ∈ h, x.1.lockFree x.2 = true := List.all_eq_true.mp hall
  exact ⟨h, s, hrun, hfree, of_decide_eq_true hsleeps, (intq_waiters hrun).2.2 hfree⟩

/-- **The assertion of `wait` fails.** The main thread sleeps in `input_getc`, and thread 2, of the
same priority, waits for the queue's lock in another call. A key is pressed. The main thread runs
again and releases the lock; `sema_up` yields to thread 2 before the byte has been taken, and thread
2 comes to `wait` with a byte in the queue. -/
theorem second_reader_breaks_wait : ∃ h s,
    Run systemStep (fun _ _ => True) (systemBoot false (fun _ => 0) true) h s ∧
      systemStep s .io = .error .wait := by
  obtain ⟨h, s, hrun, hp⟩ := exists_systemRun (fun _ _ => True) (fun _ _ => true)
    (fun _ _ _ => trivial) (systemBoot false (fun _ => 0) true)
    (Call.events (.threadCreate 31 true) 29 ++ IoOp.inputGetc.sleepEvents ++
      [.call (.access .inputGetc), .io] ++ List.replicate 13 (.kernel .exec) ++
      [.interrupt (.keyboard 65), .kernel .exec, .io] ++ List.replicate 8 (.kernel .exec))
    (fun s => match systemStep s .io with
      | .error f => f = .wait
      | .ok _ => false) (by decide +kernel)
  refine ⟨h, s, hrun, ?_⟩
  cases hs : systemStep s .io with
  | error f =>
    rw [hs] at hp
    exact congrArg Except.error (of_decide_eq_true hp)
  | ok s' =>
    rw [hs] at hp
    cases hp

end Pintos
