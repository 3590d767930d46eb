import Pintos.Devices.Board
import Pintos.Kernel.Machine

/-!
# The kernel with its drivers

The machine of `Pintos.Kernel.Machine` with interrupt queues. Besides its place in the kernel's
code a thread now has a place in a driver (`IoCtl`), and a level of its own: it may have called
`intr_disable` before the driver. The events are

* `kernel e` — an event of the machine; a call is made from outside the drivers only, and a timer
  interrupt comes where interrupts are on (`System.interruptsOn`);
* `call c` — a thread outside the kernel calls a driver, or changes its level;
* `io` — the running thread goes on in a driver;
* `interrupt i` — an external interrupt other than the timer's.

The loop of `intq_getc` and `intq_putc` is cut where the CPU may change hands: at the test
(`Stage.test`), after `lock_acquire` has returned (`Stage.wait`) and after `wait` has returned
(`Stage.release`). `lock_acquire` and `lock_release` themselves are code of the machine, which the
thread executes program point by program point, with interrupts off: the driver goes on when it is
back outside. A queue's lock is an ordinary lock, and nothing keeps other code from using it.

* `Advance` — what each event does, one case for each way on; `advance_of_step` says that there
  is no other.
-/

namespace Pintos

open Transition Function

/-- `lock` of a queue. -/
def intqLock (q : QueueId) : LockId := q + 2

/-- The calls that may sleep in a queue. The first two stand for code that uses some other queue,
with interrupts off. -/
inductive IoOp where
  | intqGetc (n : ℕ)
  | intqPutc (n : ℕ) (c : UInt8)
  | inputGetc
  | serialPutc (c : UInt8)
  deriving DecidableEq, Repr

namespace IoOp

def queue : IoOp → QueueId
  | .intqGetc n | .intqPutc n _ => otherQueue n
  | .inputGetc => inputQueue
  | .serialPutc _ => txQueue

/-- What the call waits for. -/
def waits : IoOp → Waiter
  | .intqGetc _ | .inputGetc => .notEmpty
  | .intqPutc _ _ | .serialPutc _ => .notFull

/-- The rest of the call, when it need not wait. -/
def perform (b : Board) : IoOp → Except DeviceFault Board
  | .intqGetc n => do
    let (_, b) ← Pintos.intqGetc b (otherQueue n)
    .ok b
  | .intqPutc n c => Pintos.intqPutc b (otherQueue n) c
  | .inputGetc => do
    let (_, b) ← Pintos.intqGetc b inputQueue
    .ok (serialNotify b)
  | .serialPutc c => do
    let b ← Pintos.intqPutc b txQueue c
    .ok (writeIer b)

end IoOp

/-- Where a thread is in the loop of `intq_getc` or `intq_putc`. -/
inductive Stage where
  /-- The test of the loop; before it, if the thread is in the kernel's code, `lock_release`. -/
  | test
  /-- `wait`; before it, if the thread is in the kernel's code, `lock_acquire`. -/
  | wait
  /-- After `wait`. -/
  | release
  deriving DecidableEq, Repr

/-- Where a thread is in a driver. -/
inductive IoCtl where
  | access (op : IoOp) (st : Stage)
  /-- `serial_init_queue`, before its `intr_disable`. -/
  | initQueue
  deriving DecidableEq, Repr

/-- The driver has interrupts off. -/
def IoCtl.masks : IoCtl → Bool
  | .access _ _ => true
  | .initQueue => false

/-- The kernel with its drivers. -/
structure System where
  board : Board
  ctl : Tid → Control
  /-- The thread has called `intr_disable`. -/
  intrOff : Tid → Bool
  io : Tid → Option IoCtl

inductive DeviceCall where
  | intrDisable
  | intrEnable
  | access (op : IoOp)
  | serialFlush
  | serialInitQueue
  deriving DecidableEq, Repr

inductive SystemEvent where
  | kernel (e : Event)
  | call (c : DeviceCall)
  | io
  | interrupt (i : Interrupt)
  deriving DecidableEq, Repr

namespace System

def machine (s : System) : Machine := ⟨s.board.kernel, s.ctl⟩

def setMachine (s : System) (m : Machine) : System :=
  { s with board := { s.board with kernel := m.kernel }, ctl := m.ctl }

/-- The thread on the CPU. -/
def cur (s : System) : Tid := s.board.kernel.running

def setIo (s : System) (t : Tid) (c : Option IoCtl) : System :=
  { s with io := update s.io t c }

/-- Neither the kernel's code, nor the thread's level, nor a driver keeps interrupts off. -/
def interruptsOn (s : System) : Bool :=
  s.machine.interruptsOn && !s.intrOff s.cur && !(s.io s.cur).any IoCtl.masks

/-- The running thread is in neither the kernel nor a driver. -/
def outside (s : System) : Bool := s.machine.curPc = .user && s.io s.cur = none

/-- Whether an event of the machine may come. -/
def allows (s : System) : Event → Bool
  | .call _ => s.io s.cur = none
  | .exec => true
  | .tick => s.interruptsOn

/-- A step of the machine under the drivers. -/
def kernelStep (s : System) (e : Event) : Except DeviceFault System := do
  let m ← (step s.machine e).mapError .kernel
  .ok (s.setMachine m)

/-- What `serial_putc` does first in queue mode: with interrupts off it cannot wait for room, and
sends the oldest byte itself. -/
def makeRoom (s : System) : Except DeviceFault Board :=
  if s.intrOff s.cur && (s.board.queues txQueue).full then do
    let (x, b) ← intqGetc s.board txQueue
    .ok (putcPoll b x)
  else .ok s.board

/-- `serial_putc`, up to its `intq_putc`. -/
def serialPutc (s : System) (c : UInt8) : Except DeviceFault System :=
  if s.board.mode = .queue then do
    let b ← s.makeRoom
    .ok ({ s with board := b }.setIo s.cur (some (.access (.serialPutc c) .test)))
  else .ok { s with board := putcPoll s.board.polled c }

/-- `serial_init_queue`, up to its `intr_disable`. -/
def serialInitQueue (s : System) : Except DeviceFault System :=
  if s.board.polled.mode = .poll then
    .ok ({ s with board := { s.board.polled with mode := .queue } }.setIo s.cur (some .initQueue))
  else .error .mode

/-- The beginning of a call. -/
def call (s : System) : DeviceCall → Except DeviceFault System
  | .intrDisable => .ok { s with intrOff := update s.intrOff s.cur true }
  | .intrEnable => .ok { s with intrOff := update s.intrOff s.cur false }
  | .access (.serialPutc c) => s.serialPutc c
  | .access .inputGetc => .ok (s.setIo s.cur (some (.access .inputGetc .test)))
  | .access op =>
    if s.intrOff s.cur then .ok (s.setIo s.cur (some (.access op .test))) else .error .intrLevel
  | .serialFlush => do
    let b ← Pintos.serialFlush s.board
    .ok { s with board := b }
  | .serialInitQueue => s.serialInitQueue

/-- `wait`, with the dispatch in `thread_block`. -/
def wait (s : System) (op : IoOp) : Except DeviceFault System := do
  let (k, x) ← intqWait s.board.kernel (s.board.queues op.queue) op.waits
  let k ← (schedule k).mapError .kernel
  .ok ({ s with
    board := { s.board with
      kernel := k
      queues := update s.board.queues op.queue x } }.setIo s.cur
        (some (.access op .release)))

/-- The running thread goes on in a driver. -/
def goOn (s : System) : IoCtl → Except DeviceFault System
  | .access op .test =>
    if (s.board.queues op.queue).holds op.waits then do
      let b ← op.perform s.board
      .ok ({ s with board := b }.setIo s.cur none)
    else (s.setIo s.cur (some (.access op .wait))).kernelStep (.call (.lockAcquire (intqLock op.queue)))
  | .access op .wait => s.wait op
  | .access op .release =>
    (s.setIo s.cur (some (.access op .test))).kernelStep (.call (.lockRelease (intqLock op.queue)))
  | .initQueue => .ok ({ s with board := writeIer s.board }.setIo s.cur none)

end System

/-- One step. The handlers never ask for a yield, so an interrupt returns to the thread it came
to. -/
def systemStep (s : System) : SystemEvent → Except DeviceFault System
  | .kernel e => if s.allows e then s.kernelStep e else .error .disabled
  | .call c => if s.outside then s.call c else .error .disabled
  | .io =>
    match s.io s.cur with
    | some c => if s.machine.curPc = .user then s.goOn c else .error .disabled
    | none => .error .disabled
  | .interrupt i =>
    if s.interruptsOn then do
      let b ← i.handle s.board
      .ok { s with board := b }
    else .error .disabled

/-- The system when `thread_start` has returned. The queues are empty; the serial port has been
used by polling, or not at all. -/
def systemBoot (mlfqs : Bool) (v : ℕ → ℕ) (polled : Bool) : System where
  board :=
    { kernel := (boot mlfqs v).kernel
      queues := fun _ => ⟨none, none, fun _ => 0, 0, 0⟩
      mode := if polled then .poll else .uninit
      log := [] }
  ctl := (boot mlfqs v).ctl
  intrOff := fun _ => false
  io := fun _ => none

/-- A list of events that can be executed under the guard gives a run. -/
theorem exists_systemHistory (G : Guard System SystemEvent) (g : System → SystemEvent → Bool)
    (hg : ∀ s e, g s e = true → G s e) (s₀ : System) (es : List SystemEvent)
    (p : List (System × SystemEvent) → System → Bool)
    (hplay : (play systemStep g s₀ es).any (fun r => p r.1 r.2) = true) :
    ∃ h s, Run systemStep G s₀ h s ∧ p h s = true :=
  exists_run_of_play hg hplay

/-- The same, when only the state matters. -/
theorem exists_systemRun (G : Guard System SystemEvent) (g : System → SystemEvent → Bool)
    (hg : ∀ s e, g s e = true → G s e) (s₀ : System) (es : List SystemEvent) (p : System → Bool)
    (hplay : (play systemStep g s₀ es).any (fun r => p r.2) = true) :
    ∃ h s, Run systemStep G s₀ h s ∧ p s = true :=
  exists_systemHistory G g hg s₀ es (fun _ => p) hplay

/-- The same with one more event. -/
theorem exists_systemRun_step (G : Guard System SystemEvent) (g : System → SystemEvent → Bool)
    (hg : ∀ s e, g s e = true → G s e) (s₀ : System) (es : List SystemEvent) (e : SystemEvent)
    (p : System → System → Bool)
    (hplay : (play systemStep g s₀ es).any
      (fun r => (systemStep r.2 e).toOption.any (p r.2)) = true) :
    ∃ h s s', Run systemStep G s₀ h s ∧ systemStep s e = .ok s' ∧ p s s' = true := by
  obtain ⟨h, s, hrun, hp⟩ := exists_systemRun G g hg s₀ es
    (fun s => (systemStep s e).toOption.any (p s)) hplay
  cases hs : systemStep s e with
  | error f =>
    rw [hs] at hp
    exact absurd hp (by simp [Except.toOption])
  | ok s' =>
    rw [hs] at hp
    exact ⟨h, s, s', hrun, hs, hp⟩

/-- A call of the kernel and the `n` program points that are executed before the next event. -/
def Call.events (c : Call) (n : ℕ) : List SystemEvent := (c.run n).map .kernel

/-- A call that comes to `wait` and sleeps, when the lock of its queue is free. -/
def IoOp.sleepEvents (op : IoOp) : List SystemEvent :=
  [.call (.access op), .io] ++ List.replicate 5 (.kernel .exec) ++ [.io]

/-- Only `serial_putc` uses `txq`. -/
theorem IoOp.queue_eq_tx {op : IoOp} (h : op.queue = txQueue) : ∃ c, op = .serialPutc c := by
  cases op with
  | serialPutc c => exact ⟨c, rfl⟩
  | inputGetc => exact absurd h (by decide)
  | intqGetc n | intqPutc n c => exact absurd h (otherQueue_ne_tx n)

/-- **A call that need not wait**: one access to its queue, after which it may write to the
port. -/
theorem IoOp.perform_ok {op : IoOp} {b b' : Board} (h : op.perform b = .ok b') :
    ∃ b₁, ((op.waits = .notEmpty ∧ ∃ c, Pintos.intqGetc b op.queue = .ok (c, b₁)) ∨
      (op.waits = .notFull ∧ ∃ c, Pintos.intqPutc b op.queue c = .ok b₁)) ∧ Drives b₁ b' := by
  cases op with
  | intqGetc n =>
    obtain ⟨⟨c, b₁⟩, hget, h⟩ := bind_eq_ok.mp h
    obtain rfl := Except.ok.inj h
    exact ⟨b₁, Or.inl ⟨rfl, c, hget⟩, .refl⟩
  | intqPutc n c => exact ⟨b', .inr ⟨rfl, c, h⟩, .refl⟩
  | inputGetc =>
    obtain ⟨⟨c, b₁⟩, hget, h⟩ := bind_eq_ok.mp h
    cases h
    exact ⟨b₁, .inl ⟨rfl, c, hget⟩, Drives.notify b₁⟩
  | serialPutc c =>
    obtain ⟨b₁, hput, h⟩ := bind_eq_ok.mp h
    cases h
    exact ⟨b₁, .inr ⟨rfl, c, hput⟩, .single .ier⟩

/-- It keeps the CPU. -/
theorem IoOp.perform_running {op : IoOp} {b b' : Board} (h : op.perform b = .ok b') :
    b'.kernel.running = b.kernel.running := by
  obtain ⟨b₁, ⟨-, c, hget⟩ | ⟨-, c, hput⟩, hd⟩ := IoOp.perform_ok h
  · exact hd.running.trans (intqGetc_running hget)
  · exact hd.running.trans (intqPutc_running hput)

/-- What an event does. -/
inductive Advance (s : System) : SystemEvent → System → Prop where
  | kernel {e m} : s.allows e = true → step s.machine e = .ok m →
      Advance s (.kernel e) (s.setMachine m)
  | level {c b} : s.machine.curPc = .user → s.io s.cur = none → c = .intrDisable ∨ c = .intrEnable →
      Advance s (.call c) { s with intrOff := update s.intrOff s.cur b }
  /-- A call comes to the loop of its queue. A `serial_putc` with interrupts off may have made room
  by sending a byte. -/
  | enter {op b} : s.machine.curPc = .user → s.io s.cur = none → Drives s.board b →
      (∀ c, op = .serialPutc c → s.board.mode = .queue) →
      Advance s (.call (.access op))
        ({ s with board := b }.setIo s.cur (some (.access op .test)))
  | poll {c} : s.machine.curPc = .user → s.io s.cur = none → s.board.mode ≠ .queue →
      Advance s (.call (.access (.serialPutc c))) { s with board := putcPoll s.board.polled c }
  | flush {b} : s.machine.curPc = .user → s.io s.cur = none →
      Pintos.serialFlush s.board = .ok b → Advance s (.call .serialFlush) { s with board := b }
  | init : s.machine.curPc = .user → s.io s.cur = none → s.board.mode ≠ .queue →
      Advance s (.call .serialInitQueue)
        ({ s with board := { s.board.polled with mode := .queue } }.setIo s.cur (some .initQueue))
  | perform {op b} : s.machine.curPc = .user → s.io s.cur = some (.access op .test) →
      (s.board.queues op.queue).holds op.waits = true → op.perform s.board = .ok b →
      Advance s .io ({ s with board := b }.setIo s.cur none)
  | lock {op m} : s.machine.curPc = .user → s.io s.cur = some (.access op .test) →
      (s.board.queues op.queue).holds op.waits = false →
      step s.machine (.call (.lockAcquire (intqLock op.queue))) = .ok m →
      Advance s .io ((s.setIo s.cur (some (.access op .wait))).setMachine m)
  | wait {op k} : s.machine.curPc = .user → s.io s.cur = some (.access op .wait) →
      (s.board.queues op.queue).holds op.waits = false →
      schedule (blockPark s.board.kernel) = .ok k →
      Advance s .io ({ s with
        board := { s.board with
          kernel := k
          queues := update s.board.queues op.queue
            ((s.board.queues op.queue).setWaiter op.waits (some s.cur)) } }.setIo s.cur
              (some (.access op .release)))
  | release {op m} : s.machine.curPc = .user → s.io s.cur = some (.access op .release) →
      step s.machine (.call (.lockRelease (intqLock op.queue))) = .ok m →
      Advance s .io ((s.setIo s.cur (some (.access op .test))).setMachine m)
  | notify : s.machine.curPc = .user → s.io s.cur = some .initQueue →
      Advance s .io ({ s with board := writeIer s.board }.setIo s.cur none)
  | interrupt {i b} : s.interruptsOn = true → i.handle s.board = .ok b →
      Advance s (.interrupt i) { s with board := b }

section Inversion

variable {s s' : System} {e : SystemEvent}

theorem kernelStep_ok {e : Event} (h : s.kernelStep e = .ok s') :
    ∃ m, step s.machine e = .ok m ∧ s' = s.setMachine m := by
  obtain ⟨m, hm, h⟩ := bind_eq_ok.mp h
  cases h
  exact ⟨m, mapError_eq_ok.mp hm, rfl⟩

theorem outside_iff : s.outside = true ↔ s.machine.curPc = .user ∧ s.io s.cur = none := by
  unfold System.outside
  rw [Bool.and_eq_true, decide_eq_true_eq, decide_eq_true_eq]

/-- A thread that is in a queue's loop has interrupts off. -/
theorem io_ne_access_of_interruptsOn (hon : s.interruptsOn = true) (op : IoOp) (st : Stage) :
    s.io s.cur ≠ some (.access op st) := by
  intro hio
  unfold System.interruptsOn at hon
  rw [hio] at hon
  simp [IoCtl.masks] at hon

theorem polled_mode_iff (b : Board) : b.polled.mode = .poll ↔ b.mode ≠ .queue := by
  unfold Board.polled
  cases hm : b.mode <;> simp [initPoll, hm]

theorem advance_of_call {c : DeviceCall} (hpc : s.machine.curPc = .user) (hio : s.io s.cur = none)
    (h : s.call c = .ok s') : Advance s (.call c) s' := by
  cases c with
  | intrDisable | intrEnable =>
    cases h
    exact .level hpc hio (by simp)
  | serialFlush =>
    obtain ⟨b, hb, h⟩ := bind_eq_ok.mp h
    cases h
    exact .flush hpc hio hb
  | serialInitQueue =>
    change s.serialInitQueue = .ok s' at h
    unfold System.serialInitQueue at h
    split at h
    · next hmode =>
      cases h
      exact .init hpc hio ((polled_mode_iff _).mp hmode)
    · cases h
  | access op =>
    cases op with
    | serialPutc c =>
      change s.serialPutc c = .ok s' at h
      unfold System.serialPutc at h
      split at h
      · next hmode =>
        obtain ⟨b, hb, h⟩ := bind_eq_ok.mp h
        cases h
        unfold System.makeRoom at hb
        split at hb
        · obtain ⟨⟨x, b₁⟩, hget, hb⟩ := bind_eq_ok.mp hb
          cases hb
          exact .enter hpc hio (.single (.send hget)) fun _ _ => hmode
        · cases hb
          exact .enter hpc hio .refl fun _ _ => hmode
      · next hmode =>
        cases h
        exact .poll hpc hio hmode
    | inputGetc =>
      cases h
      exact .enter hpc hio .refl fun _ h => nomatch h
    | intqGetc n | intqPutc n =>
      change (if s.intrOff s.cur then _ else _) = Except.ok s' at h
      split at h
      · cases h
        exact .enter hpc hio .refl fun _ h => nomatch h
      · cases h

theorem advance_of_goOn {c : IoCtl} (hpc : s.machine.curPc = .user) (hio : s.io s.cur = some c)
    (h : s.goOn c = .ok s') : Advance s .io s' := by
  cases c with
  | initQueue =>
    cases h
    exact .notify hpc hio
  | access op st =>
    cases st with
    | test =>
      simp only [System.goOn] at h
      split at h
      · next hholds =>
        obtain ⟨b, hb, h⟩ := bind_eq_ok.mp h
        cases h
        exact .perform hpc hio hholds hb
      · next hholds =>
        obtain ⟨m, hm, rfl⟩ := kernelStep_ok h
        exact .lock hpc hio (Bool.eq_false_iff.mpr hholds) hm
    | wait =>
      obtain ⟨⟨k₁, x⟩, hwait, h⟩ := bind_eq_ok.mp h
      obtain ⟨k, hk, h⟩ := bind_eq_ok.mp h
      cases h
      obtain ⟨hholds, rfl, rfl⟩ := intqWait_ok hwait
      exact .wait hpc hio hholds (mapError_eq_ok.mp hk)
    | release =>
      obtain ⟨m, hm, rfl⟩ := kernelStep_ok h
      exact .release hpc hio hm

/-- **What a step is.** -/
theorem advance_of_step (h : systemStep s e = .ok s') : Advance s e s' := by
  cases e with
  | kernel e =>
    simp only [systemStep] at h
    split at h
    · next hallow =>
      obtain ⟨m, hm, rfl⟩ := kernelStep_ok h
      exact .kernel hallow hm
    · cases h
  | call c =>
    simp only [systemStep] at h
    split at h
    · next hout => exact advance_of_call (outside_iff.mp hout).1 (outside_iff.mp hout).2 h
    · cases h
  | io =>
    simp only [systemStep] at h
    split at h
    · next c hio =>
      split at h
      · next hpc => exact advance_of_goOn hpc hio h
      · cases h
    · cases h
  | interrupt i =>
    simp only [systemStep] at h
    split at h
    · next hon =>
      obtain ⟨b, hb, h⟩ := bind_eq_ok.mp h
      cases h
      exact .interrupt hon hb
    · cases h

end Inversion

end Pintos
