import Pintos.Kernel.Thread
import Pintos.Foundation.RingBuffer

/-!
# Interrupt queues, the input buffer and the serial port

`devices/intq.c`, `devices/input.c` and `devices/serial.c`, and the end of the keyboard's interrupt
handler. All of this code runs with interrupts off. What it reads and writes is a `Board`: the
kernel's memory, because a queue wakes the thread that waits for it, the queues, the mode of the
serial port, and a log of the accesses made so far. The log is not memory of the kernel: it records
the bytes that have gone into and out of the queues, and what has been written to the two registers
of the serial port that the driver writes while it runs.

The hardware is not modelled. What it answers is an argument: the bytes that have arrived, and how
often the transmitter is found ready.

`intqGetc` and `intqPutc` are the functions of that name where they do not sleep; how a thread
sleeps in them is the business of `Pintos.Devices.System`.

* `intqGetc_ok`, `intqPutc_ok` — what the two functions do;
* `Drives` — every interrupt handler is a sequence of four primitive accesses.
-/

namespace Pintos

open Function

/-- A queue, by number. -/
abbrev QueueId := ℕ

/-- `buffer` of `input.c`. -/
def inputQueue : QueueId := 0

/-- `txq` of `serial.c`. -/
def txQueue : QueueId := 1

/-- The queues that belong to neither of the two drivers. -/
def otherQueue (n : ℕ) : QueueId := n + 2

/-- `INTQ_BUFSIZE`. -/
def intqBufsize : ℕ := 64

/-- `IER_RECV`. -/
def ierRecv : UInt8 := 0x01

/-- `IER_XMIT`. -/
def ierXmit : UInt8 := 0x02

/-- Why the drivers stop. -/
inductive DeviceFault where
  /-- A function of the kernel stops. -/
  | kernel (f : Fault)
  /-- The event cannot occur in this state. -/
  | disabled
  /-- `ASSERT (intr_get_level () == …)`. -/
  | intrLevel
  /-- `intq_getc` / `intq_putc`: `ASSERT (!intr_context ())`. -/
  | intrContext
  /-- `wait`: the assertion that the queue is still empty, or full. -/
  | wait
  /-- `signal`: the assertion that the queue is not empty, or not full. -/
  | signal
  /-- `input_putc`: `ASSERT (!intq_full (&buffer))`. -/
  | inputFull
  /-- `serial_init_queue`: `ASSERT (mode == POLL)`. -/
  | mode
  deriving DecidableEq, Repr

/-- Transmission mode. -/
inductive SerialMode where
  | uninit
  | poll
  | queue
  deriving DecidableEq, Repr

/-- The two members of a queue that may hold a waiting thread. -/
inductive Waiter where
  | notFull
  | notEmpty
  deriving DecidableEq, Repr

/-- `struct intq`, without its lock. The cells beyond the buffer's size are never used. -/
structure Intq where
  notFull : Option Tid
  notEmpty : Option Tid
  buf : ℕ → UInt8
  head : ℕ
  tail : ℕ

/-- What the drivers do, one access at a time. -/
inductive Access where
  /-- `intq_putc` has stored a byte. -/
  | stored (q : QueueId) (c : UInt8)
  /-- `intq_getc` returns a byte. -/
  | returned (q : QueueId) (c : UInt8)
  /-- `outb (THR_REG, c)`. -/
  | thr (c : UInt8)
  /-- `outb (IER_REG, v)`. -/
  | ier (v : UInt8)
  deriving DecidableEq, Repr

/-- What the drivers read and write. -/
structure Board where
  kernel : Kernel
  queues : QueueId → Intq
  mode : SerialMode
  /-- The accesses so far, the latest last. -/
  log : List Access

def Board.record (b : Board) (a : Access) : Board := { b with log := b.log ++ [a] }

/-! ### intq.c -/

/-- `next`. -/
def intqNext (pos : ℕ) : ℕ := (pos + 1) % intqBufsize

namespace Intq

/-- `intq_init`. The lock of the queue is free at boot, and nothing takes it before. -/
def init (q : Intq) : Intq := { q with notFull := none, notEmpty := none, head := 0, tail := 0 }

/-- `intq_empty`. -/
def empty (q : Intq) : Bool := q.head == q.tail

/-- `intq_full`. -/
def full (q : Intq) : Bool := intqNext q.head == q.tail

def waiter (q : Intq) : Waiter → Option Tid
  | .notFull => q.notFull
  | .notEmpty => q.notEmpty

def setWaiter (q : Intq) (w : Waiter) (t : Option Tid) : Intq :=
  match w with
  | .notFull => { q with notFull := t }
  | .notEmpty => { q with notEmpty := t }

/-- The condition that a member stands for. -/
def holds (q : Intq) : Waiter → Bool
  | .notFull => !q.full
  | .notEmpty => !q.empty

end Intq

/-- `wait`, up to the dispatch in `thread_block`. -/
def intqWait (k : Kernel) (q : Intq) (w : Waiter) : Except DeviceFault (Kernel × Intq) :=
  if q.holds w then .error .wait else .ok (blockPark k, q.setWaiter w (some k.running))

/-- `signal`. -/
def intqSignal (k : Kernel) (q : Intq) (w : Waiter) : Except DeviceFault (Kernel × Intq) :=
  if q.holds w then
    match q.waiter w with
    | none => .ok (k, q)
    | some t => do
      let k ← (threadUnblock k t).mapError .kernel
      .ok (k, q.setWaiter w none)
  else .error .signal

/-- `intq_getc` on a queue that is not empty. On an empty one it sleeps, which an interrupt handler
must not do. -/
def intqGetc (b : Board) (q : QueueId) : Except DeviceFault (UInt8 × Board) :=
  let x := b.queues q
  if x.empty then .error .intrContext
  else do
    let (k, y) ← intqSignal b.kernel { x with tail := intqNext x.tail } .notFull
    .ok (x.buf x.tail, { b with
      kernel := k
      queues := update b.queues q y
      log := b.log ++ [.returned q (x.buf x.tail)] })

/-- `intq_putc` on a queue that is not full. -/
def intqPutc (b : Board) (q : QueueId) (c : UInt8) : Except DeviceFault Board :=
  let x := b.queues q
  if x.full then .error .intrContext
  else do
    let x := { x with buf := update x.buf x.head c, head := intqNext x.head }
    let (k, y) ← intqSignal b.kernel x .notEmpty
    .ok { b with
      kernel := k
      queues := update b.queues q y
      log := b.log ++ [.stored q c] }

/-! ### serial.c and input.c -/

/-- `write_ier`. -/
def writeIer (b : Board) : Board :=
  let ier := if (b.queues txQueue).empty then 0 else ierXmit
  let ier := if (b.queues inputQueue).full then ier else ier ||| ierRecv
  b.record (.ier ier)

/-- `serial_notify`. -/
def serialNotify (b : Board) : Board := if b.mode = .queue then writeIer b else b

/-- `putc_poll`, which waits until the transmitter is ready. -/
def putcPoll (b : Board) (c : UInt8) : Board := b.record (.thr c)

/-- `init_poll`, without the line settings, which nothing reads. -/
def initPoll (b : Board) : Board :=
  { b with
    queues := update b.queues txQueue (b.queues txQueue).init
    mode := .poll
    log := b.log ++ [.ier 0] }

/-- The port set up for polling, if it is not set up at all. -/
def Board.polled (b : Board) : Board := if b.mode = .uninit then initPoll b else b

/-- `input_putc`. -/
def inputPutc (b : Board) (key : UInt8) : Except DeviceFault Board :=
  if (b.queues inputQueue).full then .error .inputFull
  else do
    let b ← intqPutc b inputQueue key
    .ok (serialNotify b)

/-- The receiving loop of `serial_interrupt`, when the port has the bytes `rx` to give. -/
def receive : List UInt8 → Board → Except DeviceFault Board
  | [], b => .ok b
  | c :: rx, b =>
    if (b.queues inputQueue).full then .ok b
    else do
      let b ← inputPutc b c
      receive rx b

/-- The loop that sends what is in `txq`, when the port is ready `n` times in a row. -/
def transmit : ℕ → Board → Except DeviceFault Board
  | 0, b => .ok b
  | n + 1, b =>
    if (b.queues txQueue).empty then .ok b
    else do
      let (c, b) ← intqGetc b txQueue
      transmit n (b.record (.thr c))

/-- `serial_flush`: every byte waits until the port is ready, and no more than the buffer's size
are there. -/
def serialFlush (b : Board) : Except DeviceFault Board := transmit intqBufsize b

/-- `serial_interrupt`, when the port has the bytes `rx` to give and is ready `thre` times in a
row. -/
def serialInterrupt (rx : List UInt8) (thre : ℕ) (b : Board) : Except DeviceFault Board := do
  let b ← receive rx b
  let b ← transmit thre b
  .ok (writeIer b)

/-- `keyboard_interrupt` on a key that has been translated to `c`. -/
def keyboardInterrupt (c : UInt8) (b : Board) : Except DeviceFault Board :=
  if (b.queues inputQueue).full then .ok b else inputPutc b c

/-- External interrupts, the timer's apart. The last two stand for the handler of some other
device, with a queue of its own. -/
inductive Interrupt where
  | keyboard (c : UInt8)
  | serial (rx : List UInt8) (thre : ℕ)
  | putc (n : ℕ) (c : UInt8)
  | getc (n : ℕ)
  deriving DecidableEq, Repr

/-- The handler of an interrupt. -/
def Interrupt.handle (b : Board) : Interrupt → Except DeviceFault Board
  | .keyboard c => keyboardInterrupt c b
  | .serial rx thre => serialInterrupt rx thre b
  | .putc n c => intqPutc b (otherQueue n) c
  | .getc n => do
    let (_, b) ← intqGetc b (otherQueue n)
    .ok b

/-! ### What these functions do -/

theorem mapError_eq_ok {ε ε' α : Type} {f : ε → ε'} {x : Except ε α} {a : α} :
    x.mapError f = .ok a ↔ x = .ok a := by
  cases x <;> simp [Except.mapError]

@[simp] theorem Intq.setWaiter_buf (q : Intq) (w : Waiter) (t : Option Tid) :
    (q.setWaiter w t).buf = q.buf := by cases w <;> rfl

@[simp] theorem Intq.setWaiter_head (q : Intq) (w : Waiter) (t : Option Tid) :
    (q.setWaiter w t).head = q.head := by cases w <;> rfl

@[simp] theorem Intq.setWaiter_tail (q : Intq) (w : Waiter) (t : Option Tid) :
    (q.setWaiter w t).tail = q.tail := by cases w <;> rfl

@[simp] theorem Intq.setWaiter_empty (q : Intq) (w : Waiter) (t : Option Tid) :
    (q.setWaiter w t).empty = q.empty := by cases w <;> rfl

@[simp] theorem Intq.setWaiter_full (q : Intq) (w : Waiter) (t : Option Tid) :
    (q.setWaiter w t).full = q.full := by cases w <;> rfl

theorem Intq.setWaiter_self (q : Intq) (w : Waiter) : q.setWaiter w (q.waiter w) = q := by
  cases w <;> rfl

theorem Intq.setWaiter_waiter (q : Intq) (w w' : Waiter) (t : Option Tid) :
    (q.setWaiter w t).waiter w' = if w' = w then t else q.waiter w' := by
  cases w <;> cases w' <;> rfl

theorem otherQueue_ne_tx (n : ℕ) : otherQueue n ≠ txQueue := fun h =>
  Nat.succ_ne_zero n (Nat.succ.inj h)

theorem otherQueue_ne_input (n : ℕ) : otherQueue n ≠ inputQueue := Nat.succ_ne_zero (n + 1)

/-- Waking the thread that a member holds, if it holds one. -/
def Wakes (k : Kernel) (o : Option Tid) (k' : Kernel) : Prop :=
  match o with
  | none => k' = k
  | some t => threadUnblock k t = .ok k'

theorem Wakes.running {k k' : Kernel} {o : Option Tid} (h : Wakes k o k') :
    k'.running = k.running := by
  cases o with
  | none => exact congrArg Kernel.running h
  | some t =>
    obtain ⟨ord, heap, rfl, -⟩ := pushReady_ok (threadUnblock_ok h).2
    rfl

theorem intqWait_ok {k k' : Kernel} {q q' : Intq} {w : Waiter}
    (h : intqWait k q w = .ok (k', q')) :
    q.holds w = false ∧ k' = blockPark k ∧ q' = q.setWaiter w (some k.running) := by
  unfold intqWait at h
  split at h
  · cases h
  · next hholds =>
    cases h
    exact ⟨Bool.eq_false_iff.mpr hholds, rfl, rfl⟩

theorem intqSignal_ok {k k' : Kernel} {q q' : Intq} {w : Waiter}
    (h : intqSignal k q w = .ok (k', q')) :
    q.holds w = true ∧ Wakes k (q.waiter w) k' ∧ q' = q.setWaiter w none := by
  unfold intqSignal at h
  split at h
  · next hholds =>
    refine ⟨hholds, ?_⟩
    cases hw : q.waiter w with
    | none =>
      rw [hw] at h
      cases h
      refine ⟨rfl, ?_⟩
      rw [← hw, Intq.setWaiter_self]
    | some t =>
      rw [hw] at h
      obtain ⟨k₁, hk, h⟩ := bind_eq_ok.mp h
      cases h
      exact ⟨mapError_eq_ok.mp hk, rfl⟩
  · cases h

/-- **Reading a byte**: the queue is not empty, the byte at `tail` is returned, and the thread that
waits for room is woken. -/
theorem intqGetc_ok {b b' : Board} {q : QueueId} {c : UInt8} (h : intqGetc b q = .ok (c, b')) :
    (b.queues q).empty = false ∧ c = (b.queues q).buf (b.queues q).tail ∧
      ∃ k', Wakes b.kernel (b.queues q).notFull k' ∧ b' =
        { b with
          kernel := k'
          queues := update b.queues q
            { b.queues q with tail := intqNext (b.queues q).tail, notFull := none }
          log := b.log ++ [.returned q c] } := by
  unfold intqGetc at h
  dsimp only at h
  split at h
  · cases h
  · next hempty =>
    obtain ⟨⟨k', y⟩, hsig, h⟩ := bind_eq_ok.mp h
    obtain ⟨-, hwakes, rfl⟩ := intqSignal_ok hsig
    cases h
    exact ⟨Bool.eq_false_iff.mpr hempty, rfl, k', hwakes, rfl⟩

/-- **Storing a byte**: the queue is not full, the byte goes to `head`, and the thread that waits
for a byte is woken. -/
theorem intqPutc_ok {b b' : Board} {q : QueueId} {c : UInt8} (h : intqPutc b q c = .ok b') :
    (b.queues q).full = false ∧
      ∃ k', Wakes b.kernel (b.queues q).notEmpty k' ∧ b' =
        { b with
          kernel := k'
          queues := update b.queues q
            { b.queues q with
              buf := update (b.queues q).buf (b.queues q).head c
              head := intqNext (b.queues q).head, notEmpty := none }
          log := b.log ++ [.stored q c] } := by
  unfold intqPutc at h
  dsimp only at h
  split at h
  · cases h
  · next hfull =>
    obtain ⟨⟨k', y⟩, hsig, h⟩ := bind_eq_ok.mp h
    obtain ⟨-, hwakes, rfl⟩ := intqSignal_ok hsig
    cases h
    exact ⟨Bool.eq_false_iff.mpr hfull, k', hwakes, rfl⟩

section Small

variable {b b' : Board} {q q' : QueueId} {c : UInt8}

theorem intqGetc_mode (h : intqGetc b q = .ok (c, b')) : b'.mode = b.mode := by
  obtain ⟨-, -, k', -, rfl⟩ := intqGetc_ok h
  rfl

theorem intqPutc_mode (h : intqPutc b q c = .ok b') : b'.mode = b.mode := by
  obtain ⟨-, k', -, rfl⟩ := intqPutc_ok h
  rfl

theorem intqGetc_running (h : intqGetc b q = .ok (c, b')) :
    b'.kernel.running = b.kernel.running := by
  obtain ⟨-, -, k', hwakes, rfl⟩ := intqGetc_ok h
  exact hwakes.running

theorem intqPutc_running (h : intqPutc b q c = .ok b') :
    b'.kernel.running = b.kernel.running := by
  obtain ⟨-, k', hwakes, rfl⟩ := intqPutc_ok h
  exact hwakes.running

theorem intqGetc_of_ne (h : intqGetc b q = .ok (c, b')) (hq : q' ≠ q) :
    b'.queues q' = b.queues q' := by
  obtain ⟨-, -, k', -, rfl⟩ := intqGetc_ok h
  exact update_of_ne hq _ _

theorem intqPutc_of_ne (h : intqPutc b q c = .ok b') (hq : q' ≠ q) :
    b'.queues q' = b.queues q' := by
  obtain ⟨-, k', -, rfl⟩ := intqPutc_ok h
  exact update_of_ne hq _ _

theorem serialNotify_queues (b : Board) : (serialNotify b).queues = b.queues := by
  unfold serialNotify
  split <;> rfl

theorem serialNotify_kernel (b : Board) : (serialNotify b).kernel = b.kernel := by
  unfold serialNotify
  split <;> rfl

/-- After a byte has been read nobody waits for room. -/
theorem intqGetc_notFull (h : intqGetc b q = .ok (c, b')) : (b'.queues q).notFull = none := by
  obtain ⟨-, -, k', -, rfl⟩ := intqGetc_ok h
  dsimp only
  rw [update_self]

/-- After a byte has been stored nobody waits for one. -/
theorem intqPutc_notEmpty (h : intqPutc b q c = .ok b') : (b'.queues q).notEmpty = none := by
  obtain ⟨-, k', -, rfl⟩ := intqPutc_ok h
  dsimp only
  rw [update_self]

end Small

/-- The accesses that interrupt handlers make. A byte read from `txq` goes out through the port,
and the handlers leave reading the input buffer and filling `txq` to threads. -/
inductive Does (b : Board) : Board → Prop where
  | getc {n c b'} : intqGetc b (otherQueue n) = .ok (c, b') → Does b b'
  | send {c b'} : intqGetc b txQueue = .ok (c, b') → Does b (b'.record (.thr c))
  | putc {q c b'} : q ≠ txQueue → intqPutc b q c = .ok b' → Does b b'
  | ier : Does b (writeIer b)

theorem Does.mode {b b' : Board} (h : Does b b') : b'.mode = b.mode := by
  cases h with
  | getc hget => exact intqGetc_mode hget
  | @send c b₁ hget => exact (intqGetc_mode hget : b₁.mode = b.mode)
  | putc _ hput => exact intqPutc_mode hput
  | ier => rfl

/-- A sequence of such accesses. -/
def Drives : Board → Board → Prop := Relation.ReflTransGen Does

namespace Drives

variable {b b' b₁ : Board}

/-- What every access keeps is kept by every routine. -/
theorem keeps (h : Drives b b') {I : Board → Prop} (hI : I b)
    (hstep : ∀ b b', I b → Does b b' → I b') : I b' := by
  induction h with
  | refl => exact hI
  | tail _ hd ih => exact hstep _ _ ih hd

/-- No routine gives up the CPU. -/
theorem running (h : Drives b b') : b'.kernel.running = b.kernel.running := by
  refine h.keeps (I := fun b₁ => b₁.kernel.running = b.kernel.running) rfl fun b₁ b₂ h₁ hd => ?_
  cases hd with
  | getc hget | send hget => exact (intqGetc_running hget).trans h₁
  | putc _ hput => exact (intqPutc_running hput).trans h₁
  | ier => exact h₁

theorem mode (h : Drives b b') : b'.mode = b.mode :=
  h.keeps (I := fun b' => b'.mode = b.mode) rfl fun _ _ hI hd => hd.mode.trans hI

theorem notify (b : Board) : Drives b (serialNotify b) := by
  unfold serialNotify
  split
  · exact .single .ier
  · exact .refl

theorem inputPutc {c : UInt8} (h : Pintos.inputPutc b c = .ok b') : Drives b b' := by
  unfold Pintos.inputPutc at h
  split at h
  · cases h
  · obtain ⟨b₁, hput, h⟩ := bind_eq_ok.mp h
    cases h
    exact .head (.putc (by decide) hput) (Drives.notify b₁)

theorem receive : ∀ {rx : List UInt8} {b : Board}, Pintos.receive rx b = .ok b' → Drives b b' := by
  intro rx
  induction rx with
  | nil =>
    intro b h
    cases h
    exact .refl
  | cons c rx ih =>
    intro b h
    unfold Pintos.receive at h
    split at h
    · cases h
      exact .refl
    · obtain ⟨b₁, hput, h⟩ := bind_eq_ok.mp h
      exact .trans (Drives.inputPutc hput) (ih h)

theorem transmit : ∀ {n : ℕ} {b : Board}, Pintos.transmit n b = .ok b' → Drives b b' := by
  intro n
  induction n with
  | zero =>
    intro b h
    cases h
    exact .refl
  | succ n ih =>
    intro b h
    unfold Pintos.transmit at h
    split at h
    · cases h
      exact .refl
    · obtain ⟨⟨c, b₁⟩, hget, h⟩ := bind_eq_ok.mp h
      exact .head (.send hget) (ih h)

theorem serialInterrupt {rx : List UInt8} {thre : ℕ}
    (h : Pintos.serialInterrupt rx thre b = .ok b') : Drives b b' := by
  obtain ⟨b₁, hrx, h⟩ := bind_eq_ok.mp h
  obtain ⟨b₂, htx, h⟩ := bind_eq_ok.mp h
  cases h
  exact .tail (.trans (Drives.receive hrx) (Drives.transmit htx)) .ier

theorem keyboardInterrupt {c : UInt8} (h : Pintos.keyboardInterrupt c b = .ok b') :
    Drives b b' := by
  unfold Pintos.keyboardInterrupt at h
  split at h
  · cases h
    exact .refl
  · exact .inputPutc h

theorem handle {i : Interrupt} (h : i.handle b = .ok b') : Drives b b' := by
  cases i with
  | keyboard c => exact .keyboardInterrupt h
  | serial rx thre => exact .serialInterrupt h
  | putc n c => exact .single (.putc (otherQueue_ne_tx n) h)
  | getc n =>
    obtain ⟨⟨c, b₁⟩, hget, h⟩ := bind_eq_ok.mp h
    cases h
    exact .single (.getc hget)

end Drives

end Pintos
