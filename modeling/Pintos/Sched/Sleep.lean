import Pintos.Sched.Queues

/-!
# Sleeping threads wake on time

`timer_wake` takes threads off the top of the sleeping heap until the top is not due. It wakes
everybody who is due because the heap is in the order of the wake-up times, and that order is
kept because nobody writes the wake-up time of a thread that sleeps.

* `Kernel.SleepOrdered` — the order; `SleepFrame` says what leaves the sleepers alone, and
  `Exec.sleepers` that every step but a `timer_sleep` and a tick does;
* `timerWakeLoop_exact` — the loop leaves exactly the threads that are not due and readies the
  others;
* `SleptSince` — where a sleeper is, tick by tick, after its `timer_sleep`.
-/

namespace Pintos

open Transition Function

/-! ### The order of the sleeping heap -/

/-- The sleeping comparison is a strict weak order, whatever the threads hold. -/
instance cmpAwakeTime_strictWeak (threads : Tid → Thread) :
    IsStrictWeakOrder Tid (fun a b => cmpAwakeTime threads a b = true) where
  irrefl a := by simp [cmpAwakeTime]
  trans a b c := by
    simp only [cmpAwakeTime, decide_eq_true_eq]
    omega
  incomp_trans a b c := by
    simp only [cmpAwakeTime, decide_eq_true_eq]
    omega

/-- The sleeping heap is in the order of `cmp_awake_time`. -/
def Kernel.SleepOrdered (k : Kernel) : Prop :=
  k.sleepHeap.Ordered (cmpAwakeTime k.threads)

/-- The wake-up times of the sleepers are all the order reads. -/
theorem Kernel.SleepOrdered.congr {k k' : Kernel} (h : k.SleepOrdered)
    (hheap : k'.sleepHeap = k.sleepHeap)
    (htime : ∀ t ∈ k.sleepHeap.items, (k'.threads t).wakeTime = (k.threads t).wakeTime) :
    k'.SleepOrdered := by
  unfold Kernel.SleepOrdered
  rw [hheap]
  refine Heap.Ordered.congr h fun a ha b hb => ?_
  unfold cmpAwakeTime
  rw [htime a ha, htime b hb]

/-- A thread that is not in the heap can go to sleep. -/
theorem sleepPark_ordered {k k' : Kernel} {n : ℤ} (hs : sleepPark k n = .ok k')
    (hcur : k.running ∉ k.sleepHeap.items) (h : k.SleepOrdered) : k'.SleepOrdered := by
  obtain ⟨heap, hpush, hk⟩ := bind_eq_ok.mp hs
  cases hk
  have hset : ∀ a ∈ k.sleepHeap.items, (k.setThread k.running
      { k.cur with wakeTime := toInt64 (k.ticks + n) }).threads a = k.threads a := by
    intro a ha
    have hne : a ≠ k.running := fun heq => hcur (heq ▸ ha)
    exact update_of_ne hne _ _
  have hmid : heap.Ordered (cmpAwakeTime (k.setThread k.running
      { k.cur with wakeTime := toInt64 (k.ticks + n) }).threads) := by
    refine (heapPush_ok hpush).2.2.2 inferInstance ?_
    refine Heap.Ordered.congr h fun a ha b hb => ?_
    unfold cmpAwakeTime
    rw [hset a ha, hset b hb]
  -- blocking the thread changes no wake-up time
  refine Heap.Ordered.congr hmid fun a _ b _ => ?_
  have htime : ∀ c, ((blockPark { k.setThread k.running
      { k.cur with wakeTime := toInt64 (k.ticks + n) } with sleepHeap := heap }).threads c).wakeTime =
      ((k.setThread k.running
        { k.cur with wakeTime := toInt64 (k.ticks + n) }).threads c).wakeTime := by
    intro c
    refine apply_update_same Thread.wakeTime ?_ c
    rfl
  unfold cmpAwakeTime
  rw [htime, htime]

/-! ### What leaves the sleepers alone -/

/-- A change of the kernel's memory that touches neither the clock nor a sleeper's time. -/
structure SleepFrame (k k' : Kernel) : Prop where
  ticks : k'.ticks = k.ticks
  heap : k'.sleepHeap = k.sleepHeap
  time : ∀ t ∈ k.sleepHeap.items, (k'.threads t).wakeTime = (k.threads t).wakeTime

namespace SleepFrame

variable {k k' k₁ k₂ : Kernel} {t : Tid}

theorem refl (k : Kernel) : SleepFrame k k := ⟨rfl, rfl, fun _ _ => rfl⟩

theorem trans (h₁ : SleepFrame k k₁) (h₂ : SleepFrame k₁ k₂) : SleepFrame k k₂ where
  ticks := h₂.ticks.trans h₁.ticks
  heap := h₂.heap.trans h₁.heap
  time t ht := (h₂.time t (h₁.heap ▸ ht)).trans (h₁.time t ht)

/-- Writing into one thread, and not its wake-up time. -/
theorem of_update {x : Thread} (hthreads : k'.threads = update k.threads t x)
    (hheap : k'.sleepHeap = k.sleepHeap) (hticks : k'.ticks = k.ticks)
    (hx : x.wakeTime = (k.threads t).wakeTime) : SleepFrame k k' := by
  refine ⟨hticks, hheap, fun u _ => ?_⟩
  rw [hthreads]
  exact apply_update_same Thread.wakeTime hx u

theorem setThread {x : Thread} (hx : x.wakeTime = (k.threads t).wakeTime) :
    SleepFrame k (k.setThread t x) :=
  of_update rfl rfl rfl hx

theorem pushReady (h : Pintos.pushReady k t = .ok k') : SleepFrame k k' := by
  obtain ⟨ord, heap, rfl, -⟩ := pushReady_ok h
  exact of_update rfl rfl rfl rfl

theorem yieldPark (h : Pintos.yieldPark k = .ok k') : SleepFrame k k' := by
  rcases yieldPark_ok h with ⟨-, hpush⟩ | ⟨-, rfl⟩
  · exact pushReady hpush
  · exact setThread rfl

theorem schedule (h : Pintos.schedule k = .ok k') : SleepFrame k k' := by
  obtain ⟨next, heap, freed, rfl, -⟩ := schedule_ok h
  exact of_update rfl rfl rfl rfl

theorem rescored (h : k.Rescored k') : SleepFrame k k' := by
  obtain ⟨threads, la, rfl, hth⟩ := h
  refine ⟨rfl, rfl, fun u _ => ?_⟩
  obtain ⟨p, r, hpr⟩ := hth u
  dsimp only
  rw [hpr]

theorem ordered (hf : SleepFrame k k') (h : k.SleepOrdered) : k'.SleepOrdered :=
  h.congr hf.heap hf.time

end SleepFrame

section Code

variable {m : Machine} {c : Control} {o : Outcome}

/-- The running thread's code leaves the sleepers alone, or is that of `timer_sleep`. -/
theorem Exec.sleepers (hsch : Scheduled m) (hctl : m.ctl m.kernel.running = c)
    (hex : Exec m.kernel c o) : SleepFrame m.kernel o.kernel ∨
      ∃ n, c.pc = .sleep n ∧ 0 ≤ n ∧ sleepPark m.kernel n = .ok o.kernel := by
  cases hex with
  | sleep hn hs => exact .inr ⟨_, rfl, hn, hs⟩
  | @upWake s st t k₁ _ _ hub =>
    have hf : SleepFrame m.kernel k₁ := .pushReady (threadUnblock_ok hub).2
    exact .inl ⟨hf.ticks, hf.heap, hf.time⟩
  | createUnblock hub => exact .inl (.pushReady (threadUnblock_ok hub).2)
  | yield hy => exact .inl (.yieldPark hy)
  | @createInit p t st k' hi =>
    -- the thread under construction does not sleep
    obtain ⟨-, rfl⟩ := initThread_ok hi
    have hemb := hsch.queues.embryo _ t (by rw [hctl]; rfl)
    refine .inl ⟨rfl, rfl, fun u hu => ?_⟩
    have hut : u ≠ t := by
      rintro rfl
      have hpc := (hsch.queues.sleeping u hu).2
      unfold Machine.pc at hpc
      rw [hemb.2.1] at hpc
      cases hpc
    change (update m.kernel.threads t _ u).wakeTime = _
    rw [update_of_ne hut]
  | silent | upNone | downTake | tryDown | tryTake | sortHeap | setHolder | donateStore | waitPush
  | signalRemove | createPage => exact .inl ⟨rfl, rfl, fun _ _ => rfl⟩
  | _ => exact .inl (.of_update rfl rfl rfl rfl)

end Code

/-! ### The loop of `timer_wake` -/

/-- What the loop of `timer_wake` at time `cur` has done to the kernel `k` when it ends in `k'`. -/
structure Woken (cur : ℤ) (k k' : Kernel) : Prop where
  ticks : k'.ticks = k.ticks
  /-- Exactly those who are not due are left. -/
  left : k'.sleepHeap.items = k.sleepHeap.items.filter fun t => cur < (k.threads t).wakeTime
  time : ∀ t, (k'.threads t).wakeTime = (k.threads t).wakeTime
  ordered : k'.SleepOrdered
  /-- The others are ready. -/
  due : ∀ t ∈ k.sleepHeap.items, (k.threads t).wakeTime ≤ cur → t ∈ k'.readyHeap.items
  ready : k.readyHeap.items ⊆ k'.readyHeap.items

/-- The loop ends at once when nobody is due. -/
theorem Woken.refl {cur : ℤ} {k : Kernel} (hord : k.SleepOrdered)
    (hnone : ∀ t ∈ k.sleepHeap.items, cur < (k.threads t).wakeTime) : Woken cur k k where
  ticks := rfl
  left := (Multiset.filter_eq_self.mpr hnone).symm
  time _ := rfl
  ordered := hord
  due t ht hle := absurd (hnone t ht) (not_lt.mpr hle)
  ready := Multiset.Subset.refl _

/-- The top of the heap is the first to be due. -/
theorem wakeTime_top_le {k : Kernel} (hord : k.SleepOrdered) {top : Tid}
    (htop : heapTop k.sleepHeap = .ok top) {t : Tid} (ht : t ∈ k.sleepHeap.items) :
    (k.threads top).wakeTime ≤ (k.threads t).wakeTime := by
  unfold heapTop at htop
  split at htop
  · cases htop
  · cases htop
    obtain ⟨i, hi1, hin, rfl⟩ := Heap.mem_items.mp ht
    have hroot := HeapOrder.HeapOrdered.root_max
      (r := fun a b => cmpAwakeTime k.threads a b = true) hord i hi1 hin
    simp only [cmpAwakeTime, decide_eq_true_eq, not_lt] at hroot
    exact hroot

/-- **A round of the loop**: the top is due, leaves the heap and is ready. -/
theorem Woken.round {cur : ℤ} {k k₁ k' : Kernel} {heap : Heap Tid} {top : Tid}
    (hpop : heapPop (cmpAwakeTime k.threads) k.sleepHeap = .ok (top, heap))
    (hdue : (k.threads top).wakeTime ≤ cur)
    (hub : threadUnblock { k with sleepHeap := heap } top = .ok k₁) (h : Woken cur k₁ k') :
    Woken cur k k' := by
  obtain ⟨-, hitems, -, -⟩ := heapPop_ok hpop
  obtain ⟨ord, rheap, rfl, hready, -⟩ := pushReady_ok (threadUnblock_ok hub).2
  have htime : ∀ t, (update k.threads top
      { k.threads top with entryOrd := ord, status := .ready } t).wakeTime
        = (k.threads t).wakeTime := apply_update_same Thread.wakeTime rfl
  have hsub : k.readyHeap.items ⊆ rheap.items := by
    rw [hready]
    exact Multiset.subset_cons _ _
  refine ⟨h.ticks, ?_, fun t => (h.time t).trans (htime t), h.ordered, fun t ht hle => ?_,
    Multiset.Subset.trans hsub h.ready⟩
  · calc k'.sleepHeap.items
        = heap.items.filter fun t => cur < (k.threads t).wakeTime := by
          rw [h.left]
          simp only [htime]
      _ = k.sleepHeap.items.filter fun t => cur < (k.threads t).wakeTime := by
          rw [hitems]
          exact (Multiset.filter_cons_of_neg (p := fun t => cur < (k.threads t).wakeTime) _
            (not_lt.mpr hdue)).symm
  · rw [hitems] at ht
    rcases Multiset.mem_cons.mp ht with rfl | ht
    · refine h.ready ?_
      rw [hready]
      exact Multiset.mem_cons_self _ _
    · exact h.due t ht (by rw [htime]; exact hle)

/-- **`timer_wake` wakes exactly those who are due.** The fuel is not the reason the loop ends. -/
theorem timerWakeLoop_exact {cur : ℤ} : ∀ (fuel : ℕ) (y : Bool) (k : Kernel) (r : Bool × Kernel),
    k.sleepHeap.size ≤ fuel → k.SleepOrdered → timerWakeLoop cur fuel y k = .ok r →
      Woken cur k r.2 := by
  intro fuel
  induction fuel with
  | zero =>
    intro y k r hfuel hord h
    cases h
    refine .refl hord fun t ht => absurd ht ?_
    rw [Heap.items_eq_zero_of_size (Nat.le_zero.mp hfuel)]
    exact Multiset.notMem_zero t
  | succ fuel ih =>
    intro y k r hfuel hord h
    unfold timerWakeLoop at h
    split at h
    · next hempty =>
      cases h
      refine .refl hord fun t ht => absurd ht ?_
      rw [Heap.items_eq_zero_of_size (by simpa [heapEmpty] using hempty)]
      exact Multiset.notMem_zero t
    obtain ⟨top, htop, h⟩ := bind_eq_ok.mp h
    split at h
    · -- the first to be due is not due yet
      next hlater =>
      cases h
      exact .refl hord fun t ht => lt_of_lt_of_le hlater (wakeTime_top_le hord htop ht)
    · next hdue =>
      obtain ⟨⟨top', heap⟩, hpop, h⟩ := bind_eq_ok.mp h
      obtain ⟨k₁, hub, h⟩ := bind_eq_ok.mp h
      have heq : top' = top := by
        unfold heapTop at htop
        unfold heapPop at hpop
        split at htop <;> simp_all
      subst heq
      obtain ⟨hsize, -, -, hheap⟩ := heapPop_ok hpop
      obtain ⟨hheap, -⟩ := hheap inferInstance hord
      have hf : SleepFrame { k with sleepHeap := heap } k₁ := .pushReady (threadUnblock_ok hub).2
      refine .round hpop (not_lt.mp hdue) hub (ih _ k₁ r ?_ (hf.ordered hheap) h)
      rw [hf.heap]
      change heap.size ≤ fuel
      omega

/-- The loop does not stop with a fault as long as the ready heap has room for the sleepers. -/
theorem timerWakeLoop_total (cur : ℤ) : ∀ (fuel : ℕ) (y : Bool) (k : Kernel),
    k.readyHeap.size + k.sleepHeap.size < maxHeapSize →
    (∀ t ∈ k.sleepHeap.items, (k.threads t).status = .blocked) → k.sleepHeap.items.Nodup →
      ∃ r, timerWakeLoop cur fuel y k = .ok r := by
  intro fuel
  induction fuel with
  | zero => exact fun y k _ _ _ => ⟨_, rfl⟩
  | succ fuel ih =>
    intro y k hroom hblocked hnodup
    unfold timerWakeLoop
    split
    · exact ⟨_, rfl⟩
    · next hne =>
      have hsize : k.sleepHeap.size ≠ 0 := by simpa [heapEmpty] using hne
      have htop : heapTop k.sleepHeap = .ok (k.sleepHeap.elems 1) := if_neg hne
      obtain ⟨heap, hpop⟩ : ∃ heap, heapPop (cmpAwakeTime k.threads) k.sleepHeap
          = .ok (k.sleepHeap.elems 1, heap) := ⟨_, if_neg hne⟩
      obtain ⟨hsmaller, hitems, -, -⟩ := heapPop_ok hpop
      generalize k.sleepHeap.elems 1 = top at htop hpop hitems
      rw [htop]
      change ∃ r, (if (k.threads top).wakeTime > cur then _ else _) = Except.ok r
      split
      · exact ⟨_, rfl⟩
      · have hmem : top ∈ k.sleepHeap.items := by
          rw [hitems]
          exact Multiset.mem_cons_self _ _
        obtain ⟨k₁, hpush⟩ := pushReady_total (k := { k with sleepHeap := heap }) top (by
          change k.readyHeap.size + 1 < maxHeapSize
          omega)
        have hub : threadUnblock { k with sleepHeap := heap } top = .ok k₁ := by
          unfold threadUnblock
          rw [if_pos (hblocked top hmem), hpush]
        rw [hpop]
        change ∃ r, (do let k ← threadUnblock { k with sleepHeap := heap } top; _) = Except.ok r
        rw [hub]
        -- the rest still sleeps, with one cell of the ready heap less
        obtain ⟨-, -, hgrown⟩ := pushReady_counter hpush
        obtain ⟨ord, rheap, rfl, -⟩ := pushReady_ok hpush
        rw [hitems] at hnodup
        obtain ⟨hnot, hnodup⟩ := Multiset.nodup_cons.mp hnodup
        refine ih _ _ ?_ (fun t ht => ?_) hnodup
        · change rheap.size + heap.size < maxHeapSize
          change rheap.size = k.readyHeap.size + 1 at hgrown
          omega
        · have hne : t ≠ top := fun heq => hnot (heq ▸ ht)
          dsimp only
          rw [update_of_ne hne]
          exact hblocked t (by rw [hitems]; exact Multiset.mem_cons_of_mem ht)

/-! ### A timer interrupt -/

theorem Woken.frame {cur : ℤ} {k k₁ k₂ : Kernel} (h : Woken cur k k₁) (hres : k₁.Rescored k₂) :
    Woken cur k k₂ := by
  have hf := SleepFrame.rescored hres
  have htime : ∀ t, (k₂.threads t).wakeTime = (k₁.threads t).wakeTime := by
    obtain ⟨threads, la, rfl, hth⟩ := hres
    intro t
    obtain ⟨p, r, hpr⟩ := hth t
    dsimp only
    rw [hpr]
  refine ⟨hf.ticks.trans h.ticks, by rw [hf.heap, h.left], fun t => (htime t).trans (h.time t),
    hf.ordered h.ordered, fun t ht hle => ?_, ?_⟩
  · rw [hres.readyHeap]
    exact h.due t ht hle
  · rw [hres.readyHeap]
    exact h.ready

/-- **A timer interrupt wakes exactly those who are due at the new tick.** -/
theorem timerInterrupt_woken {k k' : Kernel} {y : Bool} (hord : k.SleepOrdered)
    (h : timerInterrupt k = .ok (y, k')) :
    Woken (toInt64 (k.ticks + 1)) { k with ticks := toInt64 (k.ticks + 1) } k' := by
  obtain ⟨y₁, k₁, hwake, -, htick⟩ := timerInterrupt_ok (I := fun _ _ => True) h trivial
    fun _ _ _ _ _ _ _ _ => trivial
  have hwoken : Woken (toInt64 (k.ticks + 1)) { k with ticks := toInt64 (k.ticks + 1) } k₁ :=
    timerWakeLoop_exact _ false { k with ticks := toInt64 (k.ticks + 1) } (y₁, k₁) le_rfl
      (hord.congr rfl fun _ _ => rfl) hwake
  obtain ⟨k₂, -, -, hres, rfl, -⟩ := threadTick_ok htick
  have hrescored := hwoken.frame hres
  exact ⟨hrescored.ticks, hrescored.left, hrescored.time, hrescored.ordered, hrescored.due,
    hrescored.ready⟩

theorem timerInterrupt_total {m : Machine} (hsch : Scheduled m)
    (hroom : m.kernel.readyHeap.size + m.kernel.sleepHeap.size < maxHeapSize) :
    ∃ r, timerInterrupt m.kernel = .ok r := by
  obtain ⟨⟨y, k⟩, hwake⟩ := timerWakeLoop_total (toInt64 (m.kernel.ticks + 1))
    m.kernel.sleepHeap.size false { m.kernel with ticks := toInt64 (m.kernel.ticks + 1) } hroom
    (fun t ht => (hsch.queues.sleeping t ht).1) hsch.queues.sleeping_nodup
  refine ⟨threadTick k y, ?_⟩
  unfold timerInterrupt timerWake
  dsimp only
  rw [hwake]
  rfl

/-! ### Runs -/

/-- What every run keeps: the queues, the order of the sleeping heap, and the clock an
`int64_t`. -/
structure Timed (m : Machine) : Prop where
  scheduled : Scheduled m
  ordered : m.kernel.SleepOrdered
  clock : -2 ^ 63 ≤ m.kernel.ticks

theorem toInt64_lower (x : ℤ) : -2 ^ 63 ≤ toInt64 x :=
  Int.le_bmod (by decide)

section Step

variable {m m' : Machine} {e : Event} {o : Outcome} {t : Tid}

/-- A step up to the dispatch, as the sleepers see it. -/
inductive SleepMove (m : Machine) (e : Event) (o : Outcome) : Prop where
  /-- Nothing happens to them. -/
  | stay : e ≠ .tick → SleepFrame m.kernel o.kernel → SleepMove m e o
  /-- The running thread goes to sleep. -/
  | sleep (n : ℤ) : e = .exec → m.curPc = .sleep n → 0 ≤ n →
      sleepPark m.kernel n = .ok o.kernel → SleepMove m e o
  /-- A timer interrupt. -/
  | tick {y : Bool} {k : Kernel} : e = .tick → timerInterrupt m.kernel = .ok (y, k) →
      SleepFrame k o.kernel → SleepMove m e o

theorem Act.sleepMove (hsch : Scheduled m) (ha : Act m e o) : SleepMove m e o := by
  cases ha with
  | call => exact .stay (by simp) (.refl _)
  | exec hex =>
    rcases hex.sleepers hsch rfl with hf | ⟨n, hpc, hn, hs⟩
    · exact .stay (by simp) hf
    · exact .sleep n rfl hpc hn hs
  | @tick y k k' _ hint hy =>
    refine .tick rfl hint ?_
    rcases yieldOnReturn_ok hy with hy | rfl
    · exact .yieldPark hy
    · exact .refl _

theorem step_sleepMove (hsch : Scheduled m) (hs : step m e = .ok m') :
    ∃ o, SleepMove m e o ∧ SleepFrame o.kernel m'.kernel := by
  obtain ⟨o, ha, ⟨-, rfl⟩ | ⟨k, -, hk, rfl⟩⟩ := step_cases hs
  · exact ⟨o, ha.sleepMove hsch, .refl _⟩
  · exact ⟨o, ha.sleepMove hsch, .schedule hk⟩

/-- At `timer_sleep (n)` with `n` not negative, the running thread parks itself. -/
theorem step_sleep {n : ℤ} (hpc : m.curPc = .sleep n) (hn : 0 ≤ n)
    (hs : Pintos.step m .exec = .ok m') :
    ∃ k, sleepPark m.kernel n = .ok k ∧ SleepFrame k m'.kernel := by
  obtain ⟨o, ho, hout⟩ := step_ok hs
  have hpark : sleepPark m.kernel n = .ok o.kernel := by
    have hctl : m.ctl m.kernel.running = ⟨.sleep n, (m.ctl m.kernel.running).stack⟩ := by
      rw [← hpc]
      rfl
    change exec m.kernel (m.ctl m.kernel.running) = _ at ho
    rw [hctl] at ho
    change (if n < 0 then _ else _) = _ at ho
    rw [if_neg (not_lt.mpr hn)] at ho
    obtain ⟨k, hk, ho⟩ := bind_eq_ok.mp ho
    cases ho
    exact hk
  refine ⟨o.kernel, hpark, ?_⟩
  rcases hout with ⟨-, rfl⟩ | ⟨k, -, hk, rfl⟩
  · exact .refl _
  · exact .schedule hk

/-- The running thread does not sleep. -/
theorem Scheduled.cur_notMem_sleep (hsch : Scheduled m) :
    m.kernel.running ∉ m.kernel.sleepHeap.items := by
  intro hmem
  have hst := (hsch.queues.sleeping _ hmem).1
  rw [show (m.kernel.threads m.kernel.running).status = .running from hsch.cpu.status] at hst
  cases hst

theorem Timed.step (h : Timed m) (hs : Pintos.step m e = .ok m') : Timed m' := by
  obtain ⟨o, hmove, hf⟩ := step_sleepMove h.scheduled hs
  have hkeep : o.kernel.SleepOrdered ∧ -2 ^ 63 ≤ o.kernel.ticks := by
    cases hmove with
    | stay _ hf => exact ⟨hf.ordered h.ordered, hf.ticks ▸ h.clock⟩
    | sleep n _ _ _ hpark =>
      refine ⟨sleepPark_ordered hpark h.scheduled.cur_notMem_sleep h.ordered, ?_⟩
      obtain ⟨heap, hk, -⟩ := sleepPark_ok hpark
      rw [hk]
      exact h.clock
    | tick _ hint hf =>
      have hw := timerInterrupt_woken h.ordered hint
      refine ⟨hf.ordered hw.ordered, ?_⟩
      rw [hf.ticks, hw.ticks]
      exact toInt64_lower _
  exact ⟨h.scheduled.step hs, hf.ordered hkeep.1, hf.ticks ▸ hkeep.2⟩

end Step

theorem Timed.boot (mlfqs : Bool) (v : ℕ → ℕ) : Timed (boot mlfqs v) := by
  refine ⟨.boot mlfqs v, fun i h2 hn => ?_, show -2 ^ 63 ≤ (0 : ℤ) by decide⟩
  exact absurd (le_trans h2 hn) (show ¬ 2 ≤ 0 by decide)

theorem Timed.of_run {G : Guard Machine Event} {mlfqs : Bool} {v : ℕ → ℕ}
    {h : List (Machine × Event)} {m : Machine}
    (hrun : Run Pintos.step G (Pintos.boot mlfqs v) h m) : Timed m :=
  hrun.invariant (.boot mlfqs v) fun _ _ _ hI _ hs => hI.step hs

/-! ### A sleeper, tick by tick -/

/-- A step in which `timer_wake` unblocks the sleeper `t`. -/
def unblocksSleeper (t : Tid) (p : Machine × Event) : Bool :=
  decide (p.2 = .tick ∧ t ∈ p.1.kernel.sleepHeap.items) &&
    (timerInterrupt p.1.kernel).toOption.any fun r =>
      decide (t ∉ r.2.sleepHeap.items ∧ t ∈ r.2.readyHeap.items)

/-- How often `timer_wake` has unblocked `t`. -/
def wakeups (t : Tid) (h : List (Machine × Event)) : ℕ := h.countP (unblocksSleeper t)

/-- The timer interrupts in the history. -/
def ticksOf (h : List (Machine × Event)) : ℕ := h.countP fun p => decide (p.2 = .tick)

/-- The argument of the `timer_sleep` at this point. -/
def Pc.sleeps : Pc → Option ℤ
  | .sleep n => some n
  | _ => none

/-- Thread `t` does not call `timer_sleep`. -/
def staysUp (t : Tid) : Guard Machine Event := fun m e =>
  e = .exec → m.kernel.running = t → m.curPc.sleeps = none

instance (t : Tid) (m : Machine) (e : Event) : Decidable (staysUp t m e) :=
  inferInstanceAs (Decidable (_ → _))

section Sleeper

variable {m m' : Machine} {e : Event} {t : Tid}

theorem unblocksSleeper_of_tick {y : Bool} {k : Kernel} (hint : timerInterrupt m.kernel = .ok (y, k)) :
    unblocksSleeper t (m, .tick) = decide (t ∈ m.kernel.sleepHeap.items ∧
      t ∉ k.sleepHeap.items ∧ t ∈ k.readyHeap.items) := by
  unfold unblocksSleeper
  simp only [hint, Except.toOption, Option.any_some, true_and]
  exact (Bool.decide_and _ _).symm

theorem unblocksSleeper_of_ne (he : e ≠ .tick) : unblocksSleeper t (m, e) = false := by
  unfold unblocksSleeper
  rw [decide_eq_false fun h => he h.1]
  rfl

/-- **One step of a sleeper**: it goes on sleeping, or a tick comes that it is due at. -/
theorem asleep_step (h : Timed m) (ht : t ∈ m.kernel.sleepHeap.items) (hs : step m e = .ok m') :
    (t ∈ m'.kernel.sleepHeap.items →
        (m'.kernel.threads t).wakeTime = (m.kernel.threads t).wakeTime) ∧
      ((e ≠ .tick ∧ m'.kernel.ticks = m.kernel.ticks ∧ t ∈ m'.kernel.sleepHeap.items) ∨
        (e = .tick ∧ m'.kernel.ticks = toInt64 (m.kernel.ticks + 1) ∧
          (t ∈ m'.kernel.sleepHeap.items ↔ m'.kernel.ticks < (m.kernel.threads t).wakeTime) ∧
          unblocksSleeper t (m, e) = decide (t ∉ m'.kernel.sleepHeap.items))) := by
  obtain ⟨o, hmove, hf⟩ := step_sleepMove h.scheduled hs
  cases hmove with
  | stay he hstay =>
    have hall := hstay.trans hf
    exact ⟨fun _ => hall.time t ht, .inl ⟨he, hall.ticks, hall.heap ▸ ht⟩⟩
  | sleep n he _ _ hpark =>
    -- somebody else goes to sleep
    have hne : t ≠ m.kernel.running := fun heq => h.scheduled.cur_notMem_sleep (heq ▸ ht)
    obtain ⟨heap, hk, hitems⟩ := sleepPark_ok hpark
    have hmem : t ∈ o.kernel.sleepHeap.items := by
      rw [hk]
      rw [hitems]
      exact Multiset.mem_cons_of_mem ht
    have htime : (o.kernel.threads t).wakeTime = (m.kernel.threads t).wakeTime := by
      rw [hk]
      dsimp only
      rw [update_of_ne hne]
    refine ⟨fun _ => (hf.time t hmem).trans htime, .inl ⟨by rw [he]; simp, ?_, hf.heap ▸ hmem⟩⟩
    rw [hf.ticks, hk]
  | @tick y k he hint hyield =>
    have hw := timerInterrupt_woken h.ordered hint
    have hall := hyield.trans hf
    have hticks : m'.kernel.ticks = toInt64 (m.kernel.ticks + 1) := hall.ticks.trans hw.ticks
    have hiff : t ∈ k.sleepHeap.items ↔
        toInt64 (m.kernel.ticks + 1) < (m.kernel.threads t).wakeTime := by
      rw [hw.left, Multiset.mem_filter]
      exact and_iff_right ht
    refine ⟨?_, .inr ⟨he, hticks, by rw [hall.heap, hticks]; exact hiff, ?_⟩⟩
    · exact fun hin => (hall.time t (hall.heap ▸ hin)).trans (hw.time t)
    · rw [he, unblocksSleeper_of_tick hint, hall.heap]
      refine decide_eq_decide.mpr ⟨fun hd => hd.2.1, fun hnot => ⟨ht, hnot, ?_⟩⟩
      exact hw.due t ht (not_lt.mp fun hlt => hnot (hiff.mpr hlt))

/-- A thread that is awake stays so until it calls `timer_sleep`. -/
theorem awake_step (h : Timed m) (ht : t ∉ m.kernel.sleepHeap.items) (hup : staysUp t m e)
    (hs : step m e = .ok m') :
    t ∉ m'.kernel.sleepHeap.items ∧ unblocksSleeper t (m, e) = false := by
  obtain ⟨o, hmove, hf⟩ := step_sleepMove h.scheduled hs
  have hnot : unblocksSleeper t (m, e) = false := by
    unfold unblocksSleeper
    rw [decide_eq_false fun hd => ht hd.2]
    rfl
  refine ⟨?_, hnot⟩
  rw [hf.heap]
  cases hmove with
  | stay _ hstay =>
    rw [hstay.heap]
    exact ht
  | sleep n he hpc _ hpark =>
    obtain ⟨heap, hk, hitems⟩ := sleepPark_ok hpark
    rw [hk]
    rw [hitems]
    intro hmem
    rcases Multiset.mem_cons.mp hmem with heq | hmem
    · have hsl := hup he heq.symm
      rw [hpc] at hsl
      exact absurd hsl (by simp [Pc.sleeps])
    · exact ht hmem
  | tick _ hint hyield =>
    rw [hyield.heap, (timerInterrupt_woken h.ordered hint).left]
    exact fun hmem => ht (Multiset.mem_filter.mp hmem).1

/-- Where the thread `t` is that has called `timer_sleep (n)` at tick `T`, after the steps `h`:
asleep until `max n 1` ticks have passed, and woken once by the tick at which they have. -/
inductive SleptSince (T n : ℤ) (t : Tid) (h : List (Machine × Event)) (m : Machine) : Prop where
  | asleep : (ticksOf h : ℤ) < max n 1 → m.kernel.ticks = T + ticksOf h →
      t ∈ m.kernel.sleepHeap.items → (m.kernel.threads t).wakeTime = T + n →
      (∀ p ∈ h, unblocksSleeper t p = false) → SleptSince T n t h m
  | awake : max n 1 ≤ (ticksOf h : ℤ) → t ∉ m.kernel.sleepHeap.items → wakeups t h = 1 →
      (∀ p ∈ h, unblocksSleeper t p = true → p.1.kernel.ticks + 1 = max (T + n) (T + 1)) →
      SleptSince T n t h m

theorem wakeups_eq_zero {h : List (Machine × Event)} (hnone : ∀ p ∈ h, unblocksSleeper t p = false) :
    wakeups t h = 0 := by
  refine List.countP_eq_zero.mpr fun p hp => ?_
  rw [hnone p hp]
  exact Bool.false_ne_true

/-- **One step of a thread that has called `timer_sleep`.** -/
theorem SleptSince.step {T n : ℤ} {h : List (Machine × Event)} (hlo : -2 ^ 63 ≤ T)
    (hfit : T + max n 1 < 2 ^ 63) (hT : Timed m) (hI : SleptSince T n t h m)
    (hup : staysUp t m e) (hs : Pintos.step m e = .ok m') : SleptSince T n t ((m, e) :: h) m' := by
  cases hI with
  | asleep hlt hclock hmem hwake hnone =>
    obtain ⟨htime, ⟨he, hticks, hmem'⟩ | ⟨rfl, hticks, hiff, hun⟩⟩ := asleep_step hT hmem hs
    · have hcount : ticksOf ((m, e) :: h) = ticksOf h := List.countP_cons_of_neg (by simpa using he)
      refine .asleep (by rw [hcount]; exact hlt) (by rw [hcount, hticks, hclock]) hmem'
        ((htime hmem').trans hwake) ?_
      exact List.forall_mem_cons.mpr ⟨unblocksSleeper_of_ne he, hnone⟩
    · have hcount : ticksOf ((m, .tick) :: h) = ticksOf h + 1 := List.countP_cons_of_pos (by simp)
      -- the clock does not wrap before the sleeper is due
      have hclock' : m'.kernel.ticks = T + ticksOf ((m, .tick) :: h) := by
        rw [hticks, hclock, hcount, toInt64_of_fits (by omega) (by omega)]
        push_cast
        omega
      rw [hclock', hwake, hcount] at hiff
      by_cases hdue : max n 1 ≤ ((ticksOf h + 1 : ℕ) : ℤ)
      · have hout : t ∉ m'.kernel.sleepHeap.items := fun hin => by
          have := hiff.mp hin
          push_cast at this hdue
          omega
        rw [decide_eq_true hout] at hun
        refine .awake (by rw [hcount]; exact hdue) hout ?_ ?_
        · unfold wakeups
          rw [List.countP_cons_of_pos hun]
          exact congrArg (· + 1) (wakeups_eq_zero hnone)
        · intro p hp hpu
          rcases List.mem_cons.mp hp with rfl | hp
          · dsimp only
            push_cast at hdue
            omega
          · rw [hnone p hp] at hpu
            exact absurd hpu Bool.false_ne_true
      · have hin : t ∈ m'.kernel.sleepHeap.items := hiff.mpr (by
          push_cast at hdue ⊢
          omega)
        rw [decide_eq_false (not_not.mpr hin)] at hun
        exact .asleep (by rw [hcount]; omega) hclock' hin ((htime hin).trans hwake)
          (List.forall_mem_cons.mpr ⟨hun, hnone⟩)
  | awake hge hout hone htick =>
    obtain ⟨hout', hun⟩ := awake_step hT hout hup hs
    refine .awake ?_ hout' ?_ ?_
    · refine hge.trans (Int.ofNat_le.mpr ?_)
      exact List.Sublist.countP_le (List.sublist_cons_self _ _)
    · unfold wakeups
      rw [List.countP_cons_of_neg (by rw [hun]; exact Bool.false_ne_true)]
      exact hone
    · intro p hp hpu
      rcases List.mem_cons.mp hp with rfl | hp
      · rw [hun] at hpu
        exact absurd hpu Bool.false_ne_true
      · exact htick p hp hpu

end Sleeper

/-- **`timer_sleep` wakes a thread at the right tick, once.** In every run, `timer_wake` leaves
exactly the threads whose time has not come, and does not fail while the ready heap has room for
the sleepers. A thread that calls `timer_sleep (n)` at tick `T`, and does not call it again, is
unblocked by the interrupt of tick `max (T + n) (T + 1)` and no other, once that tick has come, and
until then it sleeps. -/
theorem timer_sleep_exact {mlfqs : Bool} {v : ℕ → ℕ} {h₀ : List (Machine × Event)} {m₀ : Machine}
    (hrun₀ : Run step preemptive (boot mlfqs v) h₀ m₀) :
    (∀ cur y k, timerWake m₀.kernel cur = .ok (y, k) → k.sleepHeap.items =
      m₀.kernel.sleepHeap.items.filter fun t => cur < (m₀.kernel.threads t).wakeTime) ∧
    (m₀.kernel.readyHeap.size + m₀.kernel.sleepHeap.size < maxHeapSize →
      ∃ r, timerInterrupt m₀.kernel = .ok r) ∧
    ∀ T n t m₁ h m, m₀.kernel.ticks = T → m₀.kernel.running = t → m₀.curPc = .sleep n → 0 ≤ n →
      max (T + n) (T + 1) < 2 ^ 63 → step m₀ .exec = .ok m₁ → Run step (staysUp t) m₁ h m →
      (∀ p ∈ h, unblocksSleeper t p = true → p.1.kernel.ticks + 1 = max (T + n) (T + 1)) ∧
      wakeups t h = (if max (T + n) (T + 1) ≤ T + ticksOf h then 1 else 0) ∧
      (T + ticksOf h < max (T + n) (T + 1) → m.kernel.ticks = T + ticksOf h ∧
        t ∈ m.kernel.sleepHeap.items ∧ (m.kernel.threads t).status = .blocked) := by
  have hT₀ := Timed.of_run hrun₀
  refine ⟨fun cur y k hwake => ?_, timerInterrupt_total hT₀.scheduled, ?_⟩
  · exact (timerWakeLoop_exact _ _ _ (y, k) le_rfl hT₀.ordered hwake).left
  rintro T n t m₁ h m rfl rfl hpc hn hfit hs hrun
  have hT₁ := hT₀.step hs
  have hfirst : SleptSince m₀.kernel.ticks n m₀.kernel.running [] m₁ := by
    obtain ⟨k, hpark, hf⟩ := step_sleep hpc hn hs
    obtain ⟨heap, rfl, hitems⟩ := sleepPark_ok hpark
    have hmem : m₀.kernel.running ∈ heap.items := by
      rw [hitems]
      exact Multiset.mem_cons_self _ _
    have htime : (m₁.kernel.threads m₀.kernel.running).wakeTime = m₀.kernel.ticks + n := by
      have hlo := hT₀.clock
      rw [hf.time _ hmem]
      dsimp only
      rw [update_self]
      exact toInt64_of_fits (by omega) (by omega)
    refine .asleep (by simp [ticksOf]) ?_ (hf.heap ▸ hmem) htime (by simp)
    rw [hf.ticks]
    simp [ticksOf]
  obtain ⟨hT, hI⟩ : Timed m ∧ SleptSince m₀.kernel.ticks n m₀.kernel.running h m :=
    hrun.invariant_history
      (I := fun h m => Timed m ∧ SleptSince m₀.kernel.ticks n m₀.kernel.running h m)
      ⟨hT₁, hfirst⟩ fun h m e m' ⟨hT, hI⟩ hup hs =>
        ⟨hT.step hs, hI.step hT₀.clock (by omega) hT hup hs⟩
  cases hI with
  | asleep hlt hclock hmem _ hnone =>
    refine ⟨fun p hp hpu => ?_, ?_, fun _ => ⟨hclock, hmem, (hT.scheduled.queues.sleeping _ hmem).1⟩⟩
    · rw [hnone p hp] at hpu
      exact absurd hpu Bool.false_ne_true
    · rw [if_neg (by omega)]
      exact wakeups_eq_zero hnone
  | awake hge _ hone htick =>
    refine ⟨htick, ?_, fun hlt => absurd hlt (by omega)⟩
    rw [if_pos (by omega)]
    exact hone

theorem timer_sleep_exact_run : ∃ h₀ m₀ m₁ h m, Run step preemptive (boot false fun _ => 0) h₀ m₀ ∧
    m₀.kernel.ticks = 1 ∧ step m₀ .exec = .ok m₁ ∧ Run step (staysUp 0) m₁ h m ∧
    ticksOf h = 3 ∧ wakeups 0 h = 1 ∧
    ∀ p ∈ h, unblocksSleeper 0 p = true → p.1.kernel.ticks + 1 = 3 := by
  obtain ⟨h₀, m₀, m₁, hrun₀, hs, hp⟩ := exists_run_then preemptive (fun _ _ => true)
    (fun _ _ _ => trivial) false (fun _ => 0) [.tick, .call (.timerSleep 2)] (step · .exec)
    (fun m₀ m₁ => decide (m₀.kernel.ticks = 1 ∧ m₀.kernel.running = 0 ∧ m₀.curPc = .sleep 2) &&
      (play step (fun m e => decide (staysUp 0 m e)) m₁ [.tick, .tick, .tick]).any
        fun r => decide (ticksOf r.1 = 3)) (by decide +kernel)
  obtain ⟨hp, hplay⟩ := Bool.and_eq_true_iff.mp hp
  obtain ⟨hticks, hcur, hpc⟩ := of_decide_eq_true hp
  obtain ⟨h, m, hrun, hcount⟩ := exists_run_of_play (G := staysUp 0)
    (p := fun h _ => decide (ticksOf h = 3)) (fun _ _ => of_decide_eq_true) hplay
  have hcount := of_decide_eq_true hcount
  obtain ⟨hright, honce, -⟩ := (timer_sleep_exact hrun₀).2.2 1 2 0 m₁ h m hticks hcur hpc
    (by decide) (by decide) hs hrun
  rw [hcount] at honce
  exact ⟨h₀, m₀, m₁, h, m, hrun₀, hticks, hs, hrun, hcount, honce, hright⟩

/-! ### The time slice -/

/-- The running thread keeps the CPU. -/
def staysOn (m : Machine) (e : Event) : Bool := (act m e).toOption.all (!·.switch)

theorem threadUnblock_threadTicks {k k' : Kernel} {t : Tid} (h : threadUnblock k t = .ok k') :
    k'.threadTicks = k.threadTicks := by
  obtain ⟨ord, heap, rfl, -⟩ := pushReady_ok (threadUnblock_ok h).2
  rfl

theorem Exec.threadTicks {k : Kernel} {c : Control} {o : Outcome} (h : Exec k c o)
    (hstay : o.switch = false) : o.kernel.threadTicks = k.threadTicks := by
  cases h with
  | upWake _ _ hub => exact (threadUnblock_threadTicks hub :)
  | createUnblock hub => exact threadUnblock_threadTicks hub
  | createInit hi =>
    rw [(initThread_ok hi).2]
    rfl
  | yield | sleep => cases hstay
  | _ => rfl

/-- **Step lemma.** A tick that does not end in `schedule` is counted, and is not the last of the
slice. -/
theorem step_threadTicks {m m' : Machine} {e : Event} (hstay : staysOn m e)
    (hs : step m e = .ok m') :
    m'.kernel.threadTicks = m.kernel.threadTicks + (if e = .tick then 1 else 0) ∧
      (e = .tick → m'.kernel.threadTicks < timeSlice) := by
  obtain ⟨o, ho, ⟨hsw, rfl⟩ | ⟨k, hsw, -⟩⟩ := step_ok hs
  · cases act_ok ho with
    | call => exact ⟨rfl, nofun⟩
    | exec hex => exact ⟨hex.threadTicks hsw, nofun⟩
    | tick _ hint hy =>
      obtain rfl := hsw
      cases hy
      obtain ⟨y, k, -, hkept, htick⟩ := timerInterrupt_ok
        (I := fun _ k => k.threadTicks = m.kernel.threadTicks) hint rfl
        fun _ _ _ _ _ hI _ hub => (threadUnblock_threadTicks hub).trans hI
      obtain ⟨_, -, -, ⟨th, la, rfl, -⟩, rfl, hy⟩ := threadTick_ok htick
      have hmore : y = false ∧ k.threadTicks + 1 < timeSlice := by simpa using hy
      exact ⟨congrArg (· + 1) hkept, fun _ => hmore.2⟩
  · simp [staysOn, ho, Except.toOption, hsw] at hstay

/-- **A time slice ends.** In a stretch of a run in which `schedule` is not called, fewer than
`TIME_SLICE` timer interrupts happen. -/
theorem time_slice_bounded {m m' : Machine} {h : List (Machine × Event)}
    (hrun : Run step (staysOn · ·) m h m') : ticksOf h < timeSlice := by
  suffices hinv : ticksOf h ≤ m'.kernel.threadTicks ∧ ticksOf h < timeSlice from hinv.2
  induction hrun with
  | refl => exact ⟨Nat.zero_le _, show 0 < timeSlice by decide⟩
  | tail _ hstay hs ih =>
    obtain ⟨hcount, hlast⟩ := step_threadTicks hstay hs
    simp only [ticksOf, List.countP_cons, decide_eq_true_eq] at ih ⊢
    split at hcount
    · next he =>
      have := hlast he
      rw [if_pos he]
      omega
    · next he => rwa [if_neg he, hcount]

/-- The main thread goes on after three ticks. -/
theorem time_slice_bounded_three : ∃ h m, Run step (staysOn · ·) (boot false fun _ => 0) h m ∧
    ticksOf h = 3 ∧ 3 < timeSlice := by
  obtain ⟨h, m, hrun, hp⟩ := exists_run (staysOn · ·) staysOn (fun _ _ => id) false (fun _ => 0)
    [.tick, .tick, .tick] (fun h _ => ticksOf h == 3) (by decide +kernel)
  rw [beq_iff_eq] at hp
  exact ⟨h, m, hrun, hp, hp ▸ time_slice_bounded hrun⟩

end Pintos
