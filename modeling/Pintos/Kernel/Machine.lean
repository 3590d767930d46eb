import Pintos.Kernel.Thread
import Pintos.Foundation.Transition

/-!
# The kernel as a machine of threads

Every thread is somewhere in the kernel's code: at a program point `Pc`, with a stack of
`Frame`s that say where the enclosing calls go on. A step of the machine is one of

* `Event.call c` — the running thread, which is outside the kernel, makes the call `c`;
* `Event.exec` — the running thread executes the code at its program point;
* `Event.tick` — a timer interrupt.

The code at one program point is a section that the source runs with interrupts off, or, where
interrupts are on, one statement or one controlling expression. A timer interrupt may come
between any two of them (`Machine.interruptsOn`), except that a thread woken inside `sema_down`
is resumed with interrupts still off and tests the semaphore before anything else happens.
Which of these interrupts a run takes is left to its guard: under `uninterrupted` they come
only while the running thread is outside the kernel, which makes every call indivisible up to
the points where it blocks or yields.

`act` computes what the running thread does up to the point where it gives up the CPU, and
whether it does; `step` adds the dispatch.
-/

namespace Pintos

open FirstMax Transition Function

/-- Who called `thread_update_priority` on the running thread, and what follows it. -/
inductive Updater where
  | release (l : LockId)
  | nice
  | create (p : ℤ) (t : Tid)
  deriving DecidableEq, Repr

/-- A program point of the kernel's code. In the points of `donate_priority`, `l` is the lock
being acquired, `t` and `dep` are the function's arguments. -/
inductive Pc where
  /-- Outside the kernel. -/
  | user
  /-- The loop of `idle`, halted. -/
  | idle
  | exited
  -- semaphores
  | semaDown (s : SemaRef)
  /-- Back in the loop of `sema_down`, after `thread_block`; interrupts are off. -/
  | semaRetest (s : SemaRef)
  | semaTryDown (s : SemaRef)
  | semaUp (s : SemaRef)
  | yield
  -- lock_acquire and lock_try_acquire; `wait` tells the first from the second
  | acquireAssert (l : LockId)
  | tryAssert (l : LockId) (wait : Bool)
  | tryDown (l : LockId) (wait : Bool)
  | setHolder (l : LockId)
  | pushHolding (l : LockId)
  | setWaiting (l : LockId)
  | donate (l : LockId) (t : Tid) (dep : ℕ)
  | donateTest (l : LockId) (t : Tid) (dep : ℕ)
  | donateAssert (l : LockId) (t : Tid) (dep : ℕ)
  | donateStore (l : LockId) (t : Tid) (dep : ℕ)
  | donateCompare (l : LockId) (t : Tid) (dep : ℕ)
  | donateRaise (l : LockId) (t : Tid) (dep : ℕ)
  | donateNext (l : LockId) (t : Tid) (dep : ℕ)
  | sortHeap (l : LockId)
  | acquired (l : LockId)
  -- lock_release
  | releaseAssert (l : LockId)
  | releaseClear (l : LockId)
  -- thread_update_priority on the running thread
  | updatePriority (u : Updater)
  | updateScan (u : Updater) (p : ℤ) (max : LockId) (rest : List LockId)
  | updateStore (u : Updater) (p : ℤ)
  | updateMax (u : Updater)
  | updateCpu (u : Updater)
  | updateNice (u : Updater)
  | updateClamp (u : Updater)
  -- condition variables
  | waitAssert (c : CondId) (l : LockId)
  | waitPush (c : CondId) (l : LockId)
  | signalAssert (c : CondId) (l : LockId)
  | signalTest (c : CondId)
  | signalScan (c : CondId) (max : Tid) (rest : List Tid)
  | signalRemove (c : CondId) (w : Tid)
  | broadcast (c : CondId) (l : LockId)
  -- thread_set_priority and thread_set_nice
  | setPriority (p : ℤ)
  | setOrigin (p old : ℤ)
  | setTest (p old : ℤ)
  | setStore (p old : ℤ)
  | setYield (old : ℤ)
  | setNice (n : ℤ)
  -- thread_create, with the palloc_get_page and the allocate_tid inside it
  | create (p : ℤ) (avail : Bool)
  | createScan (p : ℤ) (avail : Bool)
  | createInit (p : ℤ) (page : Option Tid)
  | createTid (p : ℤ) (t : Tid)
  | createMlfqs (p : ℤ) (t : Tid)
  | createUnblock (p : ℤ) (t : Tid)
  | createTest (p : ℤ)
  | exit
  | sleep (n : ℤ)
  /-- Back in `timer_sleep`, after `thread_block`. -/
  | sleepWake
  deriving DecidableEq, Repr

/-- A call in progress that waits for an inner call to return. -/
inductive Frame where
  /-- `cond_wait`, inside `lock_release`. -/
  | waitDown (l : LockId)
  /-- `cond_wait`, inside `sema_down`. -/
  | waitAcquire (l : LockId)
  /-- `cond_broadcast`, inside `cond_signal`. -/
  | broadcast (c : CondId) (l : LockId)
  /-- `palloc_get_page`, inside `lock_acquire`. -/
  | createScan (p : ℤ) (avail : Bool)
  /-- `palloc_get_page`, inside `lock_release`. -/
  | createInit (p : ℤ) (page : Option Tid)
  /-- `allocate_tid`, inside `lock_acquire`. -/
  | createTid (p : ℤ) (t : Tid)
  /-- `allocate_tid`, inside `lock_release`. -/
  | createMlfqs (p : ℤ) (t : Tid)
  deriving DecidableEq, Repr

/-- Where a thread is in the kernel's code. -/
structure Control where
  pc : Pc
  stack : List Frame
  deriving DecidableEq, Repr

/-- Returning from a call made by thread `t`. -/
def ret (t : Tid) : List Frame → Control
  | [] => ⟨.user, []⟩
  | .waitDown l :: st => ⟨.semaDown (.waiter t), .waitAcquire l :: st⟩
  | .waitAcquire l :: st => ⟨.acquireAssert l, st⟩
  | .broadcast c l :: st => ⟨.broadcast c l, st⟩
  | .createScan p avail :: st => ⟨.createScan p avail, st⟩
  | .createInit p page :: st => ⟨.createInit p page, st⟩
  | .createTid p t' :: st => ⟨.createTid p t', st⟩
  | .createMlfqs p t' :: st => ⟨.createMlfqs p t', st⟩

/-- The machine: the kernel's memory and where every thread is in the code. -/
structure Machine where
  kernel : Kernel
  ctl : Tid → Control

/-- What the running thread's code leads to: the memory, where the thread continues, and
whether it gives up the CPU first. -/
structure Outcome where
  kernel : Kernel
  ctl : Control
  switch : Bool

/-- The calls a thread can make. `sema_up` and the like act on a semaphore of their own. -/
inductive Call where
  | semaDown (n : ℕ)
  | semaTryDown (n : ℕ)
  | semaUp (n : ℕ)
  | lockAcquire (l : LockId)
  | lockTryAcquire (l : LockId)
  | lockRelease (l : LockId)
  | condWait (c : CondId) (l : LockId)
  | condSignal (c : CondId) (l : LockId)
  | condBroadcast (c : CondId) (l : LockId)
  | threadYield
  | threadSetPriority (p : ℤ)
  | threadSetNice (n : ℤ)
  /-- `avail` tells whether the pool has a free page. -/
  | threadCreate (p : ℤ) (avail : Bool)
  | threadExit
  | timerSleep (n : ℤ)
  deriving DecidableEq, Repr

/-- Where a call begins. -/
def Call.entry : Call → Pc
  | .semaDown n => .semaDown (.sema n)
  | .semaTryDown n => .semaTryDown (.sema n)
  | .semaUp n => .semaUp (.sema n)
  | .lockAcquire l => .acquireAssert l
  | .lockTryAcquire l => .tryAssert l false
  | .lockRelease l => .releaseAssert l
  | .condWait c l => .waitAssert c l
  | .condSignal c l => .signalAssert c l
  | .condBroadcast c l => .broadcast c l
  | .threadYield => .yield
  | .threadSetPriority p => .setPriority p
  | .threadSetNice n => .setNice n
  | .threadCreate p avail => .create p avail
  | .threadExit => .exit
  | .timerSleep n => .sleep n

inductive Event where
  | call (c : Call)
  | exec
  | tick
  deriving DecidableEq, Repr

/-- A call and the `n` program points that are executed before the next event. -/
def Call.run (c : Call) (n : ℕ) : List Event := .call c :: List.replicate n .exec

/-! ### The code, function by function

Each function gives the outcome of one program point; `st` is the stack of the running
thread. -/

/-- Continue at `pc` without giving up the CPU. -/
def goto (k : Kernel) (pc : Pc) (st : List Frame) : Except Fault Outcome :=
  .ok ⟨k, ⟨pc, st⟩, false⟩

/-- Return to the caller. -/
def done (k : Kernel) (st : List Frame) : Except Fault Outcome :=
  .ok ⟨k, ret k.running st, false⟩

/-- Where `sema_down` returns to: the semaphore of a lock is taken by `lock_acquire` alone. -/
def afterDown (t : Tid) (s : SemaRef) (st : List Frame) : Control :=
  match s with
  | .lock l => ⟨.acquired l, st⟩
  | _ => ret t st

/-- The interrupts-off section of `sema_down`, from a test of the loop to the next. -/
def semaDown (k : Kernel) (s : SemaRef) (st : List Frame) : Except Fault Outcome :=
  let x := k.semas s
  if x.value = 0 then
    let k := k.setSema s { x with waiters := x.waiters ++ [k.running] }
    .ok ⟨blockPark k, ⟨.semaRetest s, st⟩, true⟩
  else
    .ok ⟨k.setSema s { x with value := x.value - 1 }, afterDown k.running s st, false⟩

/-- `sema_try_down`: the memory it leaves, and what it returns. -/
def semaTryDown (k : Kernel) (s : SemaRef) : Kernel × Bool :=
  let x := k.semas s
  if 0 < x.value then (k.setSema s { x with value := x.value - 1 }, true) else (k, false)

/-- The wake-up in `sema_up`: a waiter of the highest priority is unblocked and leaves the
list. -/
def semaWake (k : Kernel) (s : SemaRef) : Except Fault Kernel :=
  match (k.semas s).waiters with
  | [] => .ok k
  | w :: ws => do
    let t := firstMax (cmpThreadPriority k.threads) w ws
    let k ← threadUnblock k t
    let x := k.semas s
    .ok (k.setSema s { x with waiters := x.waiters.erase t })

/-- The interrupts-off section of `sema_up`. `value` is an `unsigned`. -/
def semaUp (k : Kernel) (s : SemaRef) : Except Fault Kernel := do
  let k ← semaWake k s
  let x := k.semas s
  .ok (k.setSema s { x with value := (x.value + 1) % 2 ^ 32 })

/-- `lock_held_by_current_thread`. -/
def lockHeldByCurrentThread (k : Kernel) (l : LockId) : Bool :=
  (k.locks l).holder == some k.running

/-- The lock `t` waits for, as `t->lock_waiting->…` reads it. -/
def waitedLock (k : Kernel) (t : Tid) : Except Fault LockId :=
  match (k.threads t).lockWaiting with
  | none => .error .nullDeref
  | some l => .ok l

/-- The thread `t->lock_waiting->holder`, as `t->lock_waiting->holder->…` reads it. -/
def waitedHolder (k : Kernel) (t : Tid) : Except Fault Tid := do
  let l ← waitedLock k t
  match (k.locks l).holder with
  | none => .error .nullDeref
  | some h => .ok h

/-- What follows a `thread_update_priority` on the running thread. -/
def Updater.next : Updater → Pc
  | .release l => .semaUp (.lock l)
  | .nice => .yield
  | .create p t => .createUnblock p t

/-- `init_thread`, on a page that is not yet shared. -/
def initThread (k : Kernel) (t : Tid) (p : ℤ) : Except Fault Kernel :=
  if priMin ≤ p ∧ p ≤ priMax then
    .ok { k.setThread t
        { status := .blocked, priority := p, priorityOrigin := p, wakeTime := 0, entryOrd := 0,
          nice := 0, recentCpu := 0, locksHolding := [], lockWaiting := none } with
      allList := k.allList ++ [t] }
  else .error .priorityRange

/-- `lock_acquire` and `lock_try_acquire`, with `donate_priority`. -/
def execAcquire (k : Kernel) (st : List Frame) : Pc → Except Fault Outcome
  | .acquireAssert l =>
    if lockHeldByCurrentThread k l then .error .lockHeld else goto k (.tryAssert l true) st
  | .tryAssert l wait =>
    if lockHeldByCurrentThread k l then .error .lockHeld else goto k (.tryDown l wait) st
  | .tryDown l wait =>
    match semaTryDown k (.lock l) with
    | (k, true) => goto k (.setHolder l) st
    | (k, false) => if wait then goto k (.setWaiting l) st else done k st
  | .setHolder l =>
    goto (k.setLock l { k.locks l with holder := some k.running }) (.pushHolding l) st
  | .pushHolding l =>
    done (k.setThread k.running { k.cur with locksHolding := k.cur.locksHolding ++ [l] }) st
  | .setWaiting l =>
    goto (k.setThread k.running { k.cur with lockWaiting := some l }) (.donate l k.running 0) st
  | .donate l t dep =>
    if k.mlfqs then goto k (.sortHeap l) st
    else if dep > donateMaxDepth ∨ (k.threads t).lockWaiting = none then goto k (.sortHeap l) st
    else goto k (.donateTest l t dep) st
  | .donateTest l t dep => do
    let lw ← waitedLock k t
    if (k.locks lw).priorityDonate < (k.threads t).priority then goto k (.donateAssert l t dep) st
    else goto k (.sortHeap l) st
  | .donateAssert l t dep => do
    let lw ← waitedLock k t
    match (k.locks lw).holder with
    | none => .error .holderNull
    | some _ => goto k (.donateStore l t dep) st
  | .donateStore l t dep => do
    let lw ← waitedLock k t
    let k := k.setLock lw { k.locks lw with priorityDonate := (k.threads t).priority }
    goto k (.donateCompare l t dep) st
  | .donateCompare l t dep => do
    let h ← waitedHolder k t
    if (k.threads t).priority > (k.threads h).priority then goto k (.donateRaise l t dep) st
    else goto k (.donateNext l t dep) st
  | .donateRaise l t dep => do
    let h ← waitedHolder k t
    let k := k.setThread h { k.threads h with priority := (k.threads t).priority }
    goto k (.donateNext l t dep) st
  | .donateNext l t dep => do
    let lw ← waitedLock k t
    match (k.locks lw).holder with
    | none => .error .donorNull
    | some h => goto k (.donate l h (dep + 1)) st
  | .sortHeap l =>
    let heap := heapRebuild (cmpThreadPriorityHeap k.threads) k.readyHeap
    goto { k with readyHeap := heap } (.semaDown (.lock l)) st
  | .acquired l =>
    let k := k.setLock l { k.locks l with holder := some k.running }
    done (k.setThread k.running
      { k.cur with lockWaiting := none, locksHolding := k.cur.locksHolding ++ [l] }) st
  | _ => .error .disabled

/-- `lock_release`, and `thread_update_priority` on the running thread. -/
def execRelease (k : Kernel) (st : List Frame) : Pc → Except Fault Outcome
  | .releaseAssert l =>
    if lockHeldByCurrentThread k l then goto k (.releaseClear l) st else .error .lockNotHeld
  | .releaseClear l =>
    let k := k.setLock l { holder := none, priorityDonate := priMin }
    let k := k.setThread k.running { k.cur with locksHolding := k.cur.locksHolding.erase l }
    goto k (.updatePriority (.release l)) st
  | .updatePriority u =>
    if k.mlfqs then goto k (.updateMax u) st
    else
      match k.cur.locksHolding with
      | [] => goto k (.updateStore u k.cur.priorityOrigin) st
      | m :: ls => goto k (.updateScan u k.cur.priorityOrigin m ls) st
  | .updateScan u p m [] =>
    let d := (k.locks m).priorityDonate
    goto k (.updateStore u (if d > p then d else p)) st
  | .updateScan u p m (l :: ls) =>
    goto k (.updateScan u p (if cmpLockPriority k.locks m l then l else m) ls) st
  | .updateStore u p => goto (k.setCurPriority p) u.next st
  | .updateMax u => goto (k.setCurPriority priMax) (.updateCpu u) st
  | .updateCpu u =>
    let p := toInt32 (k.cur.priority - fptoiRound (fpIntDiv k.cur.recentCpu 4))
    goto (k.setCurPriority p) (.updateNice u) st
  | .updateNice u =>
    goto (k.setCurPriority (toInt32 (k.cur.priority - toInt32 (2 * k.cur.nice))))
      (.updateClamp u) st
  | .updateClamp u =>
    let p :=
      if k.cur.priority > priMax then priMax
      else if k.cur.priority < priMin then priMin else k.cur.priority
    goto (k.setCurPriority p) u.next st
  | _ => .error .disabled

/-- `cond_wait`, `cond_signal` and `cond_broadcast`. -/
def execCond (k : Kernel) (st : List Frame) : Pc → Except Fault Outcome
  | .waitAssert c l =>
    if lockHeldByCurrentThread k l then goto k (.waitPush c l) st else .error .lockNotHeld
  | .waitPush c l =>
    let k := k.setSema (.waiter k.running) { value := 0, waiters := [] }
    let k := k.setCond c (k.conds c ++ [k.running])
    goto k (.releaseAssert l) (.waitDown l :: st)
  | .signalAssert c l =>
    if lockHeldByCurrentThread k l then goto k (.signalTest c) st else .error .lockNotHeld
  | .signalTest c =>
    match k.conds c with
    | [] => done k st
    | w :: ws => goto k (.signalScan c w ws) st
  | .signalScan c m [] => goto k (.signalRemove c m) st
  | .signalScan c m (w :: ws) =>
    goto k (.signalScan c (if cmpSemaPriority k m w then w else m) ws) st
  | .signalRemove c w => goto (k.setCond c ((k.conds c).erase w)) (.semaUp (.waiter w)) st
  | .broadcast c l =>
    match k.conds c with
    | [] => done k st
    | _ => goto k (.signalAssert c l) (.broadcast c l :: st)
  | _ => .error .disabled

/-- `thread_set_priority` and `thread_set_nice`. -/
def execPriority (k : Kernel) (st : List Frame) : Pc → Except Fault Outcome
  | .setPriority p => if k.mlfqs then done k st else goto k (.setOrigin p k.cur.priority) st
  | .setOrigin p old =>
    goto (k.setThread k.running { k.cur with priorityOrigin := p }) (.setTest p old) st
  | .setTest p old =>
    if k.cur.priority < p ∨ k.cur.locksHolding = [] then goto k (.setStore p old) st
    else goto k (.setYield old) st
  | .setStore p old => goto (k.setCurPriority p) (.setYield old) st
  | .setYield old => if k.cur.priority < old then goto k .yield st else done k st
  | .setNice n =>
    goto (k.setThread k.running { k.cur with nice := n }) (.updatePriority .nice) st
  | _ => .error .disabled

/-- `thread_create`. -/
def execCreate (k : Kernel) (st : List Frame) : Pc → Except Fault Outcome
  | .create p avail => goto k (.acquireAssert poolLock) (.createScan p avail :: st)
  | .createScan p avail =>
    if avail then
      goto { k with nextPage := k.nextPage + 1 } (.releaseAssert poolLock)
        (.createInit p (some k.nextPage) :: st)
    else goto k (.releaseAssert poolLock) (.createInit p none :: st)
  | .createInit _ none => done k st
  | .createInit p (some t) => do
    let k ← initThread k t p
    goto k (.acquireAssert tidLock) (.createTid p t :: st)
  | .createTid p t => goto k (.releaseAssert tidLock) (.createMlfqs p t :: st)
  | .createMlfqs p t =>
    if k.mlfqs then
      let x := k.threads t
      let x :=
        if k.running ≠ k.initialThread then
          { x with nice := k.cur.nice, recentCpu := k.cur.recentCpu }
        else { x with nice := 0, recentCpu := 0 }
      goto (k.setThread t x) (.updatePriority (.create p t)) st
    else goto k (.createUnblock p t) st
  | .createUnblock p t => do
    let k ← threadUnblock k t
    goto k (.createTest p) st
  | .createTest p => if p > k.cur.priority then goto k .yield st else done k st
  | _ => .error .disabled

/-- The code at the program point of the running thread. -/
def exec (k : Kernel) (c : Control) : Except Fault Outcome :=
  match c.pc with
  | .user | .exited => .error .disabled
  | .idle => .ok ⟨blockPark k, c, true⟩
  | .semaDown s | .semaRetest s => semaDown k s c.stack
  | .semaTryDown s => done (semaTryDown k s).1 c.stack
  | .semaUp s => do
    let k ← semaUp k s
    goto k .yield c.stack
  | .yield => do
    let k' ← yieldPark k
    .ok ⟨k', ret k.running c.stack, true⟩
  | .acquireAssert _ | .tryAssert _ _ | .tryDown _ _ | .setHolder _ | .pushHolding _
  | .setWaiting _ | .donate _ _ _ | .donateTest _ _ _ | .donateAssert _ _ _
  | .donateStore _ _ _ | .donateCompare _ _ _ | .donateRaise _ _ _ | .donateNext _ _ _
  | .sortHeap _ | .acquired _ => execAcquire k c.stack c.pc
  | .releaseAssert _ | .releaseClear _ | .updatePriority _ | .updateScan _ _ _ _
  | .updateStore _ _ | .updateMax _ | .updateCpu _ | .updateNice _ | .updateClamp _ =>
    execRelease k c.stack c.pc
  | .waitAssert _ _ | .waitPush _ _ | .signalAssert _ _ | .signalTest _ | .signalScan _ _ _
  | .signalRemove _ _ | .broadcast _ _ => execCond k c.stack c.pc
  | .setPriority _ | .setOrigin _ _ | .setTest _ _ | .setStore _ _ | .setYield _
  | .setNice _ => execPriority k c.stack c.pc
  | .create _ _ | .createScan _ _ | .createInit _ _ | .createTid _ _ | .createMlfqs _ _
  | .createUnblock _ _ | .createTest _ => execCreate k c.stack c.pc
  | .exit =>
    let k := { k with allList := k.allList.erase k.running }
    .ok ⟨k.setThread k.running { k.cur with status := .dying }, ⟨.exited, []⟩, true⟩
  | .sleep n =>
    if n < 0 then done k c.stack
    else do
      let k' ← sleepPark k n
      .ok ⟨k', ⟨.sleepWake, c.stack⟩, true⟩
  | .sleepWake => done k c.stack

/-! ### Steps -/

/-- Interrupts are off only where a thread is resumed inside `sema_down`. -/
def Machine.interruptsOn (m : Machine) : Bool :=
  match (m.ctl m.kernel.running).pc with
  | .semaRetest _ => false
  | _ => true

/-- The end of `intr_handler`: `thread_yield` if the handler asked for it. -/
def yieldOnReturn (y : Bool) (k : Kernel) : Except Fault Kernel :=
  if y then yieldPark k else .ok k

/-- What happens on an event, up to the dispatch of the next thread. -/
def act (m : Machine) : Event → Except Fault Outcome
  | .call c =>
    if (m.ctl m.kernel.running).pc = .user then
      .ok ⟨m.kernel, ⟨c.entry, (m.ctl m.kernel.running).stack⟩, false⟩
    else .error .disabled
  | .exec => exec m.kernel (m.ctl m.kernel.running)
  | .tick =>
    if m.interruptsOn then do
      let (y, k) ← timerInterrupt m.kernel
      let k ← yieldOnReturn y k
      .ok ⟨k, m.ctl m.kernel.running, y⟩
    else .error .disabled

/-- The dispatch of the next thread, if the running one gives up the CPU. -/
def dispatch (o : Outcome) : Except Fault Kernel :=
  if o.switch then schedule o.kernel else .ok o.kernel

/-- One step of the machine. -/
def step (m : Machine) (e : Event) : Except Fault Machine := do
  let o ← act m e
  let k ← dispatch o
  .ok ⟨k, update m.ctl m.kernel.running o.ctl⟩

/-- The program point of thread `t`. -/
def Machine.pc (m : Machine) (t : Tid) : Pc := (m.ctl t).pc

/-- The program point of the running thread. -/
def Machine.curPc (m : Machine) : Pc := m.pc m.kernel.running

/-- The machine after the running thread's code and before the dispatch. -/
def Machine.settle (m : Machine) (o : Outcome) : Machine :=
  ⟨o.kernel, update m.ctl m.kernel.running o.ctl⟩

/-- Where a thread is after the running thread's code. -/
theorem settle_pc {m : Machine} {o : Outcome} (t : Tid) : (m.settle o).pc t =
    if t = m.kernel.running then o.ctl.pc else m.pc t := by
  unfold Machine.settle Machine.pc
  dsimp only
  split
  · next h =>
    subst h
    rw [update_self]
  · next h => rw [update_of_ne h]

/-- The running thread moves, and the other threads stay where they are. -/
theorem settle_forall {m : Machine} {o : Outcome} {P : Pc → Prop} (hcur : P o.ctl.pc)
    (hothers : ∀ t, t ≠ m.kernel.running → P (m.pc t)) (t : Tid) : P ((m.settle o).pc t) := by
  rw [settle_pc]
  split
  · exact hcur
  · next hne => exact hothers t hne

/-- **What a step is**: the running thread's code, then a dispatch if it gives up the CPU. -/
theorem step_ok {m m' : Machine} {e : Event} (h : step m e = .ok m') :
    ∃ o, act m e = .ok o ∧
      ((o.switch = false ∧ m' = m.settle o) ∨
        ∃ k, o.switch = true ∧ schedule o.kernel = .ok k ∧
          m' = ⟨k, (m.settle o).ctl⟩) := by
  obtain ⟨o, hact, h⟩ := bind_eq_ok.mp h
  obtain ⟨k, hk, h⟩ := bind_eq_ok.mp h
  cases h
  refine ⟨o, hact, ?_⟩
  unfold dispatch at hk
  cases hs : o.switch with
  | false =>
    rw [hs] at hk
    cases hk
    exact .inl ⟨rfl, rfl⟩
  | true =>
    rw [hs] at hk
    exact .inr ⟨k, rfl, hk, rfl⟩

/-- The same the other way round: a step, put together from its parts. -/
theorem step_eq {m : Machine} {e : Event} {o : Outcome} {k : Kernel} (ho : act m e = .ok o)
    (hk : dispatch o = .ok k) :
    step m e = .ok ⟨k, update m.ctl m.kernel.running o.ctl⟩ := by
  unfold step
  rw [ho]
  change (do let k ← dispatch o; _) = _
  rw [hk]
  rfl

/-! ### Which runs -/

/-- Timer interrupts come anywhere interrupts are on. -/
def preemptive : Guard Machine Event := fun _ _ => True

/-- Timer interrupts come only while the running thread is outside the kernel, or idle: a call
is indivisible up to the points where it blocks or yields. -/
def uninterrupted : Guard Machine Event := fun m e =>
  e = .tick → m.curPc = .user ∨ m.curPc = .idle

/-- No thread exits while it holds a lock. -/
def exitsFree : Guard Machine Event := fun m e =>
  e = .call .threadExit → m.kernel.cur.locksHolding = []

instance (m : Machine) (e : Event) : Decidable (uninterrupted m e) :=
  inferInstanceAs (Decidable (_ → _))

instance (m : Machine) (e : Event) : Decidable (exitsFree m e) :=
  inferInstanceAs (Decidable (_ → _))

/-! ### Boot -/

/-- A `struct thread` as `init_thread` leaves it. -/
def freshThread (status : ThreadStatus) (p : ℤ) : Thread where
  status := status
  priority := p
  priorityOrigin := p
  wakeTime := 0
  entryOrd := 0
  nice := 0
  recentCpu := 0
  locksHolding := []
  lockWaiting := none

/-- The machine when `thread_start` has returned: thread 0, `main`, runs, thread 1, the idle
thread, has run once and yielded, all locks are free, and semaphore `n` has been set to
`v n`. In mlfqs mode the creation of the idle thread has recomputed `main`'s priority. -/
def boot (mlfqs : Bool) (v : ℕ → ℕ) : Machine where
  kernel :=
    { mlfqs := mlfqs
      threads := fun t =>
        if t = 0 then
          { freshThread .running (if mlfqs then priMax else priDefault) with
            priorityOrigin := priDefault }
        else if t = 1 then freshThread .ready priMin
        else freshThread .blocked priMin
      semas := fun s =>
        match s with
        | .sema n => ⟨v n % 2 ^ 32, []⟩
        | .lock _ => ⟨1, []⟩
        | .waiter _ => ⟨0, []⟩
      locks := fun _ => ⟨none, priMin⟩
      conds := fun _ => []
      readyHeap := heapInit fun _ => 0
      sleepHeap := heapInit fun _ => 0
      allList := [0, 1]
      running := 0
      idleThread := 1
      initialThread := 0
      ticks := 0
      threadTicks := 0
      loadAvg := 0
      nextPage := 2
      freed := [] }
  ctl := fun t => if t = 1 then ⟨.idle, []⟩ else ⟨.user, []⟩

/-- A list of events that can be executed under the guard gives a run. -/
theorem exists_run (G : Guard Machine Event) (g : Machine → Event → Bool)
    (hg : ∀ m e, g m e = true → G m e) (mlfqs : Bool) (v : ℕ → ℕ) (es : List Event)
    (p : List (Machine × Event) → Machine → Bool)
    (hplay : (play step g (boot mlfqs v) es).any (fun r => p r.1 r.2) = true) :
    ∃ h m, Run step G (boot mlfqs v) h m ∧ p h m = true :=
  exists_run_of_play hg hplay

/-- The same with a computation `f` of the state at the end that does not fail, such as one more
event. -/
theorem exists_run_then {α : Type} (G : Guard Machine Event) (g : Machine → Event → Bool)
    (hg : ∀ m e, g m e = true → G m e) (mlfqs : Bool) (v : ℕ → ℕ) (es : List Event)
    (f : Machine → Except Fault α) (p : Machine → α → Bool)
    (hplay : (play step g (boot mlfqs v) es).any
      (fun r => (f r.2).toOption.any (p r.2)) = true) :
    ∃ h m a, Run step G (boot mlfqs v) h m ∧ f m = .ok a ∧ p m a = true := by
  obtain ⟨h, m, hrun, hp⟩ := exists_run G g hg mlfqs v es
    (fun _ m => (f m).toOption.any (p m)) hplay
  cases ha : f m with
  | error =>
    rw [ha] at hp
    exact absurd hp (by simp [Except.toOption])
  | ok a =>
    rw [ha] at hp
    exact ⟨h, m, a, hrun, ha, hp⟩

end Pintos
