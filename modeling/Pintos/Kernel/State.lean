import Pintos.Kernel.Heap
import Pintos.Kernel.FixedPoint
import Pintos.Foundation.FirstMax

/-!
# The data of the kernel

`struct thread`, `struct semaphore`, `struct lock` and `struct condition`, and the global
variables of `threads/thread.c` and `devices/timer.c`. A thread is named by its page, a lock
and a condition by a number. Only what the scheduler and the synchronization code read or
write is kept: the name, the saved stack pointer and the magic number of a thread are not, and
list elements are replaced by the lists themselves.

A semaphore is named by where it stands (`SemaRef`): on its own, inside a lock, or on the stack
of a thread that is in `cond_wait`, which has at most one at a time. The place tells which code
uses the semaphore: only `lock_acquire` waits on the semaphore of a lock, only `cond_wait` on
the one of a waiter.
-/

namespace Pintos

open Function

/-- `PRI_MIN`. -/
def priMin : ℤ := 0

/-- `PRI_DEFAULT`. -/
def priDefault : ℤ := 31

/-- `PRI_MAX`. -/
def priMax : ℤ := 63

/-- `DONATE_MAX_DEPTH`. -/
def donateMaxDepth : ℕ := 8

/-- `TIME_SLICE`, in timer ticks. -/
def timeSlice : ℕ := 4

/-- `TIMER_FREQ`, in ticks per second. -/
def timerFreq : ℤ := 100

/-- A thread, named by its page. -/
abbrev Tid := ℕ

abbrev LockId := ℕ

abbrev CondId := ℕ

/-- `tid_lock` of `thread.c`. -/
def tidLock : LockId := 0

/-- `kernel_pool.lock` of `palloc.c`. -/
def poolLock : LockId := 1

/-- Where a semaphore stands. -/
inductive SemaRef where
  | sema (n : ℕ)
  | lock (l : LockId)
  | waiter (t : Tid)
  deriving DecidableEq, Repr

/-- `enum thread_status`. -/
inductive ThreadStatus where
  | running
  | ready
  | blocked
  | dying
  deriving DecidableEq, Repr

/-- `struct thread`. -/
structure Thread where
  status : ThreadStatus
  priority : ℤ
  priorityOrigin : ℤ
  wakeTime : ℤ
  entryOrd : ℤ
  nice : ℤ
  recentCpu : ℤ
  locksHolding : List LockId
  lockWaiting : Option LockId
  deriving DecidableEq, Repr

/-- `struct semaphore`; `value` is an `unsigned`. -/
structure Semaphore where
  value : ℕ
  waiters : List Tid
  deriving DecidableEq, Repr

/-- `struct lock`, without its semaphore. -/
structure Lock where
  holder : Option Tid
  priorityDonate : ℤ
  deriving DecidableEq, Repr

/-- The memory of the kernel. -/
structure Kernel where
  /-- `thread_mlfqs`, fixed at boot. -/
  mlfqs : Bool
  threads : Tid → Thread
  semas : SemaRef → Semaphore
  locks : LockId → Lock
  /-- `struct condition`: the waiters, each named by the thread whose stack it is on. -/
  conds : CondId → List Tid
  readyHeap : Heap Tid
  sleepHeap : Heap Tid
  allList : List Tid
  /-- The thread on the CPU. -/
  running : Tid
  idleThread : Tid
  initialThread : Tid
  ticks : ℤ
  threadTicks : ℕ
  loadAvg : ℤ
  /-- The pages from here on have never been handed out. -/
  nextPage : Tid
  /-- The pages given back by `palloc_free_page`, the latest first. -/
  freed : List Tid

namespace Kernel

/-- The running thread's `struct thread`. -/
def cur (k : Kernel) : Thread := k.threads k.running

def setThread (k : Kernel) (t : Tid) (x : Thread) : Kernel :=
  { k with threads := update k.threads t x }

def setSema (k : Kernel) (s : SemaRef) (x : Semaphore) : Kernel :=
  { k with semas := update k.semas s x }

def setLock (k : Kernel) (l : LockId) (x : Lock) : Kernel :=
  { k with locks := update k.locks l x }

def setCond (k : Kernel) (c : CondId) (x : List Tid) : Kernel :=
  { k with conds := update k.conds c x }

/-- Stores into the running thread's `priority`. -/
def setCurPriority (k : Kernel) (p : ℤ) : Kernel :=
  k.setThread k.running { k.cur with priority := p }

end Kernel

/-- Reading a field that a store does not change. -/
theorem apply_update_same {α β γ : Type} [DecidableEq α] {f : α → β} {a : α} {b : β} (g : β → γ)
    (h : g b = g (f a)) (c : α) : g (update f a b c) = g (f c) := by
  by_cases hc : c = a
  · subst hc
    rw [update_self, h]
  · rw [update_of_ne hc]

/-! ### The comparisons -/

/-- `cmp_thread_priority_heap`: by priority, the earlier entry first among equals. -/
def cmpThreadPriorityHeap (threads : Tid → Thread) (a b : Tid) : Bool :=
  if (threads a).priority ≠ (threads b).priority then
    decide ((threads a).priority < (threads b).priority)
  else decide ((threads b).entryOrd < (threads a).entryOrd)

/-- `cmp_awake_time`: the earlier wake-up time is the greater element. -/
def cmpAwakeTime (threads : Tid → Thread) (a b : Tid) : Bool :=
  decide ((threads b).wakeTime < (threads a).wakeTime)

/-- `cmp_thread_priority`. -/
def cmpThreadPriority (threads : Tid → Thread) (a b : Tid) : Bool :=
  decide ((threads a).priority < (threads b).priority)

/-- `cmp_lock_priority`. -/
def cmpLockPriority (locks : LockId → Lock) (a b : LockId) : Bool :=
  decide ((locks a).priorityDonate < (locks b).priorityDonate)

/-- `sema_waiter_priority`. -/
def semaWaiterPriority (k : Kernel) (s : SemaRef) : ℤ :=
  match (k.semas s).waiters with
  | [] => priMin
  | w :: ws =>
    max priMin (k.threads (FirstMax.firstMax (cmpThreadPriority k.threads) w ws)).priority

/-- `cmp_sema_priority`, on two waiters of a condition. -/
def cmpSemaPriority (k : Kernel) (a b : Tid) : Bool :=
  decide (semaWaiterPriority k (.waiter a) < semaWaiterPriority k (.waiter b))

/-- The ready comparison is a strict weak order, whatever the threads hold. -/
instance cmpThreadPriorityHeap_strictWeak (threads : Tid → Thread) :
    IsStrictWeakOrder Tid (fun a b => cmpThreadPriorityHeap threads a b = true) where
  irrefl a := by simp [cmpThreadPriorityHeap]
  trans a b c := by
    unfold cmpThreadPriorityHeap
    split <;> split <;> split <;> simp only [decide_eq_true_eq] <;> omega
  incomp_trans a b c := by
    unfold cmpThreadPriorityHeap
    split <;> split <;> split <;> split <;> split <;> split <;>
      simp only [decide_eq_true_eq] <;> omega

/-- A thread that is not less than another has at least its priority. -/
theorem priority_le_of_not_cmp {threads : Tid → Thread} {a b : Tid}
    (h : ¬ cmpThreadPriorityHeap threads a b = true) :
    (threads b).priority ≤ (threads a).priority := by
  unfold cmpThreadPriorityHeap at h
  split at h
  · simpa using h
  · next heq => exact le_of_eq (not_not.mp heq).symm

end Pintos
