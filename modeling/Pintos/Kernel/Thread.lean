import Pintos.Kernel.State

/-!
# Scheduling: the interrupts-off code of `threads/thread.c` and `devices/timer.c`

Each function here runs with interrupts off, so it is one indivisible change of the kernel's
memory. Each has one lemma that says everything it does (`pushReady_ok`, `threadUnblock_ok`,
`yieldPark_ok`, `sleepPark_ok`, `schedule_ok`, `timerWakeLoop_induct`, `threadTick_ok`): the
heaps change by one element and stay ordered if they were, and every field that is not named is
as before. The proofs about the kernel use these and do not unfold the functions.

A function that may switch threads is cut at the switch: `thread_yield` and `thread_block` are
what they do before `schedule ()`, and the caller continues with `schedule`.
-/

namespace Pintos

open FirstMax Function

/-! ### Readying a thread -/

/-- The three statements that put a thread into the ready heap: its entry order is the number
of pushes so far, truncated to an `int`. -/
def pushReady (k : Kernel) (t : Tid) : Except Fault Kernel := do
  let (ord, heap) := heapEntryCount k.readyHeap
  let threads := update k.threads t { k.threads t with entryOrd := toInt32 ord }
  let heap ← heapPush (cmpThreadPriorityHeap threads) heap t
  .ok { k with
    threads := update threads t { threads t with status := .ready }
    readyHeap := heap }

/-- `thread_unblock`. -/
def threadUnblock (k : Kernel) (t : Tid) : Except Fault Kernel :=
  if (k.threads t).status = .blocked then pushReady k t else .error .notBlocked

/-- `thread_yield` up to `schedule ()`. The idle thread is not put into the heap. -/
def yieldPark (k : Kernel) : Except Fault Kernel :=
  if k.running ≠ k.idleThread then pushReady k k.running
  else .ok (k.setThread k.running { k.cur with status := .ready })

/-- `thread_block` up to `schedule ()`. -/
def blockPark (k : Kernel) : Kernel :=
  k.setThread k.running { k.cur with status := .blocked }

/-! ### Dispatching -/

/-- `next_thread_to_run`. -/
def nextThreadToRun (k : Kernel) : Except Fault (Tid × Kernel) :=
  if heapEmpty k.readyHeap then .ok (k.idleThread, k)
  else do
    let (t, heap) ← heapPop (cmpThreadPriorityHeap k.threads) k.readyHeap
    .ok (t, { k with readyHeap := heap })

/-- `thread_schedule_tail`, run by the new thread: it is marked running, its time slice
starts, and the page of a dying predecessor is given back. -/
def threadScheduleTail (k : Kernel) (prev : Option Tid) : Kernel :=
  let k := k.setThread k.running { k.cur with status := .running }
  let k := { k with threadTicks := 0 }
  match prev with
  | none => k
  | some p =>
    if (k.threads p).status = .dying ∧ p ≠ k.initialThread then { k with freed := p :: k.freed }
    else k

/-- `schedule`. The switch itself is the change of `running`. -/
def schedule (k : Kernel) : Except Fault Kernel := do
  let cur := k.running
  let (next, k) ← nextThreadToRun k
  let prev := if cur ≠ next then some cur else none
  .ok (threadScheduleTail { k with running := next } prev)

/-! ### Priorities -/

/-- `thread_update_priority` in mlfqs mode, on the fields it reads. -/
def mlfqsPriority (recentCpu nice : ℤ) : ℤ :=
  let p := toInt32 (priMax - fptoiRound (fpIntDiv recentCpu 4))
  let p := toInt32 (p - toInt32 (2 * nice))
  if p > priMax then priMax else if p < priMin then priMin else p

/-- `update_load_avg`. -/
def updateLoadAvg (k : Kernel) : Kernel :=
  let eff1 := fpDiv (itofp 59) (itofp 60)
  let eff2 := fpIntDiv (itofp 1) 60
  let cnt : ℤ := k.readyHeap.size + (if k.running ≠ k.idleThread then 1 else 0)
  { k with loadAvg := fpAdd (fpMul eff1 k.loadAvg) (fpIntMul eff2 cnt) }

/-- `thread_update_recent_cpu`. -/
def threadUpdateRecentCpu (k : Kernel) (t : Tid) : Thread :=
  if t = k.idleThread then k.threads t
  else
    let coef := fpDiv (fpIntMul k.loadAvg 2) (fpAdd (fpIntMul k.loadAvg 2) (itofp 1))
    { k.threads t with
      recentCpu := fpIntAdd (fpMul coef (k.threads t).recentCpu) (k.threads t).nice }

/-- `thread_foreach`: one pass over `all_list`, each call reading what the earlier ones
left. -/
def threadForeach (f : Kernel → Tid → Thread) : List Tid → Kernel → Kernel
  | [], k => k
  | t :: ts, k => threadForeach f ts (k.setThread t (f k t))

/-- `thread_update_priority` as `thread_tick` applies it, in mlfqs mode. -/
def tickUpdatePriority (k : Kernel) (t : Tid) : Thread :=
  { k.threads t with priority := mlfqsPriority (k.threads t).recentCpu (k.threads t).nice }

/-! ### The timer -/

/-- `timer_sleep`, past the test of its argument and up to the `schedule ()` of
`thread_block`. -/
def sleepPark (k : Kernel) (n : ℤ) : Except Fault Kernel := do
  let k := k.setThread k.running { k.cur with wakeTime := toInt64 (k.ticks + n) }
  let heap ← heapPush (cmpAwakeTime k.threads) k.sleepHeap k.running
  .ok (blockPark { k with sleepHeap := heap })

/-- The loop of `timer_wake`; the flag is `yield_on_return`. Each round takes one thread out
of the sleeping heap, so its size is fuel enough. -/
def timerWakeLoop (curTime : ℤ) : ℕ → Bool → Kernel → Except Fault (Bool × Kernel)
  | 0, y, k => .ok (y, k)
  | fuel + 1, y, k =>
    if heapEmpty k.sleepHeap then .ok (y, k)
    else do
      let top ← heapTop k.sleepHeap
      if (k.threads top).wakeTime > curTime then .ok (y, k)
      else do
        let (_, heap) ← heapPop (cmpAwakeTime k.threads) k.sleepHeap
        let k ← threadUnblock { k with sleepHeap := heap } top
        timerWakeLoop curTime fuel (y || decide ((k.threads top).priority > k.cur.priority)) k

/-- `timer_wake`. -/
def timerWake (k : Kernel) (curTime : ℤ) : Except Fault (Bool × Kernel) :=
  timerWakeLoop curTime k.sleepHeap.size false k

/-- The mlfqs part of `thread_tick`. -/
def mlfqsTick (k : Kernel) : Kernel :=
  let k :=
    if k.running ≠ k.idleThread then
      k.setThread k.running { k.cur with recentCpu := fpIntAdd k.cur.recentCpu 1 }
    else k
  let k := if k.ticks % 4 = 0 then threadForeach tickUpdatePriority k.allList k else k
  if k.ticks % timerFreq = 0 then
    let k := updateLoadAvg k
    threadForeach threadUpdateRecentCpu k.allList k
  else k

/-- `thread_tick`. -/
def threadTick (k : Kernel) (y : Bool) : Bool × Kernel :=
  let k := if k.mlfqs then mlfqsTick k else k
  let k := { k with threadTicks := k.threadTicks + 1 }
  (y || decide (timeSlice ≤ k.threadTicks), k)

/-- `timer_interrupt`, with the value of `yield_on_return` it leaves. -/
def timerInterrupt (k : Kernel) : Except Fault (Bool × Kernel) := do
  let k := { k with ticks := toInt64 (k.ticks + 1) }
  let (y, k) ← timerWake k k.ticks
  .ok (threadTick k y)

/-! ### What these functions do -/

theorem bind_eq_ok {ε α β : Type} {x : Except ε α} {f : α → Except ε β} {b : β} :
    x >>= f = .ok b ↔ ∃ a, x = .ok a ∧ f a = .ok b := by
  cases x with
  | error e => simp [bind, Except.bind]
  | ok a => simp [bind, Except.bind]

/-- The ready comparison reads the priority and the entry order alone. -/
theorem cmpThreadPriorityHeap_congr {threads threads' : Tid → Thread} {a b : Tid}
    (ha : (threads' a).priority = (threads a).priority)
    (ha' : (threads' a).entryOrd = (threads a).entryOrd)
    (hb : (threads' b).priority = (threads b).priority)
    (hb' : (threads' b).entryOrd = (threads b).entryOrd) :
    cmpThreadPriorityHeap threads' a b = cmpThreadPriorityHeap threads a b := by
  unfold cmpThreadPriorityHeap
  rw [ha, ha', hb, hb']

/-- The ready heap is in the order of `cmp_thread_priority_heap`. -/
def Kernel.ReadyOrdered (k : Kernel) : Prop :=
  k.readyHeap.Ordered (cmpThreadPriorityHeap k.threads)

instance (k : Kernel) : Decidable k.ReadyOrdered :=
  inferInstanceAs (Decidable (k.readyHeap.Ordered _))

/-- Changing threads that are not in the ready heap, or fields the comparison does not read,
keeps the order. -/
theorem Kernel.ReadyOrdered.congr {k k' : Kernel} (h : k.ReadyOrdered)
    (hheap : k'.readyHeap = k.readyHeap)
    (hthr : ∀ t ∈ k.readyHeap.items, (k'.threads t).priority = (k.threads t).priority ∧
      (k'.threads t).entryOrd = (k.threads t).entryOrd) : k'.ReadyOrdered := by
  unfold Kernel.ReadyOrdered
  rw [hheap]
  refine Heap.Ordered.congr h fun a ha b hb => ?_
  exact cmpThreadPriorityHeap_congr (hthr a ha).1 (hthr a ha).2 (hthr b hb).1 (hthr b hb).2

/-- **Readying a thread.** It becomes ready, gets an entry order and is added to the ready
heap, which stays ordered if the thread was not in it. -/
theorem pushReady_ok {k k' : Kernel} {t : Tid} (h : pushReady k t = .ok k') :
    ∃ ord heap, k' = { k with
        threads := update k.threads t
          { k.threads t with entryOrd := ord, status := .ready }
        readyHeap := heap } ∧
      heap.items = t ::ₘ k.readyHeap.items ∧
      (t ∉ k.readyHeap.items → k.ReadyOrdered → k'.ReadyOrdered) := by
  obtain ⟨heap, hpush, hk⟩ := bind_eq_ok.mp h
  obtain ⟨-, hitems, -, hord⟩ := heapPush_ok hpush
  simp only [update_self, update_idem, Except.ok.injEq] at hk
  subst hk
  refine ⟨_, heap, rfl, hitems, fun hnot hready => ?_⟩
  have hmid := hord inferInstance <| Heap.Ordered.congr hready fun a ha b hb => by
    have hat : a ≠ t := fun heq => hnot (heq ▸ ha)
    have hbt : b ≠ t := fun heq => hnot (heq ▸ hb)
    apply cmpThreadPriorityHeap_congr <;>
      simp only [update_of_ne hat, update_of_ne hbt]
  -- marking the thread ready changes no key
  refine Heap.Ordered.congr hmid fun a _ b _ => ?_
  have hkey : ∀ c, (update k.threads t
        { k.threads t with entryOrd := toInt32 k.readyHeap.pushCnt, status := .ready } c).priority
      = (update k.threads t
        { k.threads t with entryOrd := toInt32 k.readyHeap.pushCnt } c).priority ∧
      (update k.threads t
        { k.threads t with entryOrd := toInt32 k.readyHeap.pushCnt, status := .ready } c).entryOrd
      = (update k.threads t
        { k.threads t with entryOrd := toInt32 k.readyHeap.pushCnt } c).entryOrd := by
    intro c
    by_cases hc : c = t
    · subst hc
      simp only [update_self, and_self]
    · simp only [update_of_ne hc, and_self]
  exact cmpThreadPriorityHeap_congr (hkey a).1 (hkey a).2 (hkey b).1 (hkey b).2

/-- The entry order is the counter of pushes, which then goes up. -/
theorem pushReady_counter {k k' : Kernel} {t : Tid} (h : pushReady k t = .ok k') :
    (k'.threads t).entryOrd = toInt32 k.readyHeap.pushCnt ∧
      k'.readyHeap.pushCnt = (k.readyHeap.pushCnt + 1).bmod (2 ^ 64) ∧
      k'.readyHeap.size = k.readyHeap.size + 1 := by
  obtain ⟨heap, hpush, hk⟩ := bind_eq_ok.mp h
  obtain ⟨hsize, -, hcnt, -⟩ := heapPush_ok hpush
  cases hk
  refine ⟨?_, hcnt, hsize⟩
  simp only [update_self]

/-- A thread can be readied as long as the heap has a cell for it. -/
theorem pushReady_total {k : Kernel} (t : Tid) (h : k.readyHeap.size + 1 < maxHeapSize) :
    ∃ k', pushReady k t = .ok k' := by
  unfold pushReady heapEntryCount heapPush
  dsimp only
  rw [if_pos h.le, if_pos h]
  exact ⟨_, rfl⟩

/-- There is always a thread to dispatch. -/
theorem schedule_total (k : Kernel) : ∃ k', schedule k = .ok k' := by
  unfold schedule nextThreadToRun heapPop
  split
  · exact ⟨_, rfl⟩
  · exact ⟨_, rfl⟩

theorem threadUnblock_ok {k k' : Kernel} {t : Tid} (h : threadUnblock k t = .ok k') :
    (k.threads t).status = .blocked ∧ pushReady k t = .ok k' := by
  unfold threadUnblock at h
  split at h
  · next hb => exact ⟨hb, h⟩
  · cases h

/-- Two states of the kernel that differ in the thread records, the heaps and the clock at
most. -/
structure Kernel.SameTables (k k' : Kernel) : Prop where
  mlfqs : k'.mlfqs = k.mlfqs
  semas : k'.semas = k.semas
  locks : k'.locks = k.locks
  conds : k'.conds = k.conds
  running : k'.running = k.running
  idleThread : k'.idleThread = k.idleThread
  allList : k'.allList = k.allList
  nextPage : k'.nextPage = k.nextPage

theorem Kernel.SameTables.trans {k k₁ k' : Kernel} (h₁ : k.SameTables k₁)
    (h₂ : k₁.SameTables k') : k.SameTables k' :=
  ⟨h₂.1.trans h₁.1, h₂.2.trans h₁.2, h₂.3.trans h₁.3, h₂.4.trans h₁.4, h₂.5.trans h₁.5,
    h₂.6.trans h₁.6, h₂.7.trans h₁.7, h₂.8.trans h₁.8⟩

theorem pushReady_tables {k k' : Kernel} {t : Tid} (h : pushReady k t = .ok k') :
    k.SameTables k' := by
  obtain ⟨ord, heap, rfl, -⟩ := pushReady_ok h
  exact ⟨rfl, rfl, rfl, rfl, rfl, rfl, rfl, rfl⟩

theorem threadUnblock_semas {k k' : Kernel} {t : Tid} (h : threadUnblock k t = .ok k') :
    k'.semas = k.semas :=
  (pushReady_tables (threadUnblock_ok h).2).semas

theorem yieldPark_ok {k k' : Kernel} (h : yieldPark k = .ok k') :
    (k.running ≠ k.idleThread ∧ pushReady k k.running = .ok k') ∨
      (k.running = k.idleThread ∧
        k' = k.setThread k.running { k.cur with status := .ready }) := by
  unfold yieldPark at h
  split at h
  · next hne => exact .inl ⟨hne, h⟩
  · next heq => exact .inr ⟨not_not.mp heq, (Except.ok.inj h).symm⟩

theorem yieldPark_tables {k k' : Kernel} (h : yieldPark k = .ok k') : k.SameTables k' := by
  rcases yieldPark_ok h with ⟨-, hpush⟩ | ⟨-, rfl⟩
  · exact pushReady_tables hpush
  · exact ⟨rfl, rfl, rfl, rfl, rfl, rfl, rfl, rfl⟩

/-- **Going to sleep.** The running thread blocks, with its wake-up time, in the sleeping
heap. -/
theorem sleepPark_ok {k k' : Kernel} {n : ℤ} (h : sleepPark k n = .ok k') :
    ∃ heap, k' = { k with
        threads := update k.threads k.running
          { k.cur with wakeTime := toInt64 (k.ticks + n), status := .blocked }
        sleepHeap := heap } ∧
      heap.items = k.running ::ₘ k.sleepHeap.items := by
  obtain ⟨heap, hpush, h⟩ := bind_eq_ok.mp h
  refine ⟨heap, ?_, (heapPush_ok hpush).2.1⟩
  cases h
  simp only [blockPark, Kernel.setThread, Kernel.cur, update_self, update_idem]

/-- **Dispatching.** The next thread is the idle thread if no thread is ready, and is popped
off the ready heap otherwise; nothing changes but the CPU, that thread's status, the heap, the
time slice and the list of freed pages. -/
theorem schedule_ok {k k' : Kernel} (h : schedule k = .ok k') :
    ∃ next heap freed, k' = { k with
        threads := update k.threads next { k.threads next with status := .running }
        readyHeap := heap
        running := next
        threadTicks := 0
        freed := freed } ∧
      ((k.readyHeap.size = 0 ∧ next = k.idleThread ∧ heap = k.readyHeap) ∨
        heapPop (cmpThreadPriorityHeap k.threads) k.readyHeap = .ok (next, heap)) := by
  unfold schedule nextThreadToRun at h
  obtain ⟨⟨next, k₁⟩, hnext, hk⟩ := bind_eq_ok.mp h
  simp only [Except.ok.injEq] at hk
  split at hnext
  · next hempty =>
    cases hnext
    refine ⟨k.idleThread, k.readyHeap, k'.freed, ?_, .inl ⟨?_, rfl, rfl⟩⟩
    · subst hk
      unfold threadScheduleTail
      dsimp only
      split
      · rfl
      · split <;> rfl
    · simpa [heapEmpty] using hempty
  · obtain ⟨⟨t, heap⟩, hpop, hk₁⟩ := bind_eq_ok.mp hnext
    obtain ⟨rfl, rfl⟩ := Prod.mk.inj (Except.ok.inj hk₁).symm
    refine ⟨next, heap, k'.freed, ?_, .inr hpop⟩
    subst hk
    unfold threadScheduleTail
    dsimp only
    split
    · rfl
    · split <;> rfl

/-- **Waking, round by round.** What every round of `timer_wake` keeps, `timer_wake` keeps: a
round takes the top of the sleeping heap out, unblocks it, and asks for a yield if it has a
higher priority than the running thread. -/
theorem timerWakeLoop_induct {curTime : ℤ} {I : Bool → Kernel → Prop}
    (hround : ∀ y k heap top k', I y k →
      heapPop (cmpAwakeTime k.threads) k.sleepHeap = .ok (top, heap) →
      threadUnblock { k with sleepHeap := heap } top = .ok k' →
      I (y || decide ((k'.threads top).priority > k'.cur.priority)) k') :
    ∀ (fuel : ℕ) (y : Bool) (k : Kernel) (r : Bool × Kernel), I y k →
      timerWakeLoop curTime fuel y k = .ok r → I r.1 r.2 := by
  intro fuel
  induction fuel with
  | zero =>
    intro y k r hI h
    cases h
    exact hI
  | succ fuel ih =>
    intro y k r hI h
    unfold timerWakeLoop at h
    split at h
    · cases h
      exact hI
    obtain ⟨top, htop, h⟩ := bind_eq_ok.mp h
    split at h
    · cases h
      exact hI
    obtain ⟨⟨top', heap⟩, hpop, h⟩ := bind_eq_ok.mp h
    obtain ⟨k₁, hub, h⟩ := bind_eq_ok.mp h
    -- the thread that was looked at is the one that is popped
    have heq : top' = top := by
      unfold heapTop at htop
      unfold heapPop at hpop
      split at htop <;> simp_all
    subst heq
    exact ih _ _ _ (hround y k heap top' k₁ hI hpop hub) h

/-- Two states of a thread that differ in the priority and the CPU usage at most. -/
def Thread.Rescored (x y : Thread) : Prop :=
  ∃ p r, y = { x with priority := p, recentCpu := r }

/-- Two states of the kernel that differ in the priorities, the CPU usage and the load average
at most: what the mlfqs bookkeeping of a tick may write. -/
def Kernel.Rescored (k k' : Kernel) : Prop :=
  ∃ threads la, k' = { k with threads := threads, loadAvg := la } ∧
    ∀ t, (k.threads t).Rescored (threads t)

theorem Kernel.Rescored.refl (k : Kernel) : k.Rescored k :=
  ⟨k.threads, k.loadAvg, rfl, fun _ => ⟨_, _, rfl⟩⟩

theorem Kernel.Rescored.readyHeap {k k' : Kernel} (h : k.Rescored k') :
    k'.readyHeap = k.readyHeap := by
  obtain ⟨threads, la, rfl, -⟩ := h
  rfl

theorem Kernel.Rescored.entryOrd {k k' : Kernel} (h : k.Rescored k') (t : Tid) :
    (k'.threads t).entryOrd = (k.threads t).entryOrd := by
  obtain ⟨threads, la, rfl, hth⟩ := h
  obtain ⟨p, r, hpr⟩ := hth t
  dsimp only
  rw [hpr]

theorem Kernel.Rescored.trans {k k₁ k₂ : Kernel} (h₁ : k.Rescored k₁) (h₂ : k₁.Rescored k₂) :
    k.Rescored k₂ := by
  obtain ⟨th₁, la₁, rfl, hth₁⟩ := h₁
  obtain ⟨th₂, la₂, rfl, hth₂⟩ := h₂
  refine ⟨th₂, la₂, rfl, fun t => ?_⟩
  obtain ⟨p₁, r₁, hpr₁⟩ := hth₁ t
  obtain ⟨p₂, r₂, hpr₂⟩ := hth₂ t
  refine ⟨p₂, r₂, ?_⟩
  rw [hpr₂]
  dsimp only
  rw [hpr₁]

theorem Kernel.Rescored.setThread {k : Kernel} {t : Tid} {x : Thread}
    (h : (k.threads t).Rescored x) : k.Rescored (k.setThread t x) := by
  refine ⟨update k.threads t x, k.loadAvg, rfl, fun u => ?_⟩
  by_cases hut : u = t
  · subst hut
    rw [update_self]
    exact h
  · rw [update_of_ne hut]
    exact ⟨_, _, rfl⟩

theorem threadForeach_rescored {f : Kernel → Tid → Thread}
    (hf : ∀ (k : Kernel) (t : Tid), (k.threads t).Rescored (f k t)) :
    ∀ (ts : List Tid) (k : Kernel), k.Rescored (threadForeach f ts k) := by
  intro ts
  induction ts with
  | nil => intro k; exact .refl k
  | cons u ts ih => intro k; exact (Kernel.Rescored.setThread (hf k u)).trans (ih _)

/-- The first stage of a tick in mlfqs mode: the running thread is charged for it. -/
def chargeTick (k : Kernel) : Kernel :=
  if k.running ≠ k.idleThread then
    k.setThread k.running { k.cur with recentCpu := fpIntAdd k.cur.recentCpu 1 }
  else k

/-- The second stage: the priorities, every fourth tick. -/
def priorityPass (k : Kernel) : Kernel :=
  if k.ticks % 4 = 0 then threadForeach tickUpdatePriority k.allList k else k

/-- The third stage: the load average and everybody's usage, every hundredth tick. -/
def usagePass (k : Kernel) : Kernel :=
  if k.ticks % timerFreq = 0 then
    threadForeach threadUpdateRecentCpu (updateLoadAvg k).allList (updateLoadAvg k)
  else k

theorem mlfqsTick_eq (k : Kernel) : mlfqsTick k = usagePass (priorityPass (chargeTick k)) := rfl

theorem chargeTick_rescored (k : Kernel) : k.Rescored (chargeTick k) := by
  unfold chargeTick
  split
  · exact .setThread ⟨k.cur.priority, _, rfl⟩
  · exact .refl k

theorem priorityPass_rescored (k : Kernel) : k.Rescored (priorityPass k) := by
  unfold priorityPass
  split
  · exact threadForeach_rescored (fun k t => ⟨_, (k.threads t).recentCpu, rfl⟩) _ _
  · exact .refl k

theorem threadUpdateRecentCpu_rescored (k : Kernel) (t : Tid) :
    (k.threads t).Rescored (threadUpdateRecentCpu k t) := by
  unfold threadUpdateRecentCpu
  split
  · exact ⟨_, _, rfl⟩
  · exact ⟨(k.threads t).priority, _, rfl⟩

theorem usagePass_rescored (k : Kernel) : k.Rescored (usagePass k) := by
  unfold usagePass
  split
  · have hload : k.Rescored (updateLoadAvg k) := ⟨k.threads, _, rfl, fun t => ⟨_, _, rfl⟩⟩
    exact hload.trans (threadForeach_rescored threadUpdateRecentCpu_rescored _ _)
  · exact .refl k

theorem mlfqsTick_rescored (k : Kernel) : k.Rescored (mlfqsTick k) := by
  rw [mlfqsTick_eq]
  exact ((chargeTick_rescored k).trans (priorityPass_rescored _)).trans (usagePass_rescored _)

/-- **`thread_tick`** counts the tick, and in mlfqs mode rescores the threads. -/
theorem threadTick_ok {k k' : Kernel} {y y' : Bool} (h : threadTick k y = (y', k')) :
    ∃ k₁, (k.mlfqs = false → k₁ = k) ∧ (k.mlfqs = true → k₁ = mlfqsTick k) ∧ k.Rescored k₁ ∧
      k' = { k₁ with threadTicks := k₁.threadTicks + 1 } ∧
      y' = (y || decide (timeSlice ≤ k.threadTicks + 1)) := by
  unfold threadTick at h
  cases hm : k.mlfqs with
  | false =>
    rw [hm] at h
    cases h
    exact ⟨k, fun _ => rfl, fun h => absurd h (by simp), .refl k, rfl, rfl⟩
  | true =>
    rw [hm] at h
    cases h
    have hres := mlfqsTick_rescored k
    refine ⟨mlfqsTick k, fun h => absurd h (by simp), fun _ => rfl, hres, rfl, ?_⟩
    obtain ⟨th, la, hk, -⟩ := hres
    simp only [if_true]
    rw [hk]

/-- **A timer interrupt**: the clock, then the rounds of `timer_wake`, then `thread_tick`. What
the rounds keep, `thread_tick` finds. -/
theorem timerInterrupt_ok {k k' : Kernel} {y : Bool} {I : Bool → Kernel → Prop}
    (h : timerInterrupt k = .ok (y, k')) (hclock : I false { k with ticks := toInt64 (k.ticks + 1) })
    (hround : ∀ y k heap top k', I y k →
      heapPop (cmpAwakeTime k.threads) k.sleepHeap = .ok (top, heap) →
      threadUnblock { k with sleepHeap := heap } top = .ok k' →
      I (y || decide ((k'.threads top).priority > k'.cur.priority)) k') :
    ∃ y₁ k₁, timerWake { k with ticks := toInt64 (k.ticks + 1) } (toInt64 (k.ticks + 1))
        = .ok (y₁, k₁) ∧ I y₁ k₁ ∧ threadTick k₁ y₁ = (y, k') := by
  obtain ⟨⟨y₁, k₁⟩, hwake, h⟩ := bind_eq_ok.mp h
  exact ⟨y₁, k₁, hwake, timerWakeLoop_induct hround _ _ _ _ hclock hwake, Except.ok.inj h⟩

theorem timerInterrupt_tables {k k' : Kernel} {y : Bool} (h : timerInterrupt k = .ok (y, k')) :
    k.SameTables k' := by
  obtain ⟨y₁, k₁, -, hI, htick⟩ := timerInterrupt_ok (I := fun _ k₁ => k.SameTables k₁) h
    ⟨rfl, rfl, rfl, rfl, rfl, rfl, rfl, rfl⟩ fun y k₁ heap top k₂ hI _ hub => by
      obtain ⟨ord, heap', rfl, -⟩ := pushReady_ok (threadUnblock_ok hub).2
      exact ⟨hI.1, hI.2, hI.3, hI.4, hI.5, hI.6, hI.7, hI.8⟩
  obtain ⟨k₂, -, -, ⟨threads, la, rfl, -⟩, rfl, -⟩ := threadTick_ok htick
  exact ⟨hI.1, hI.2, hI.3, hI.4, hI.5, hI.6, hI.7, hI.8⟩

end Pintos
