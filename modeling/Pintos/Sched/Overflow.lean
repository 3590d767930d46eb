import Pintos.Sched.Usage
import Pintos.Sched.Sleep
import Pintos.Sched.PriorityFormula

/-!
# Overflow in the mlfqs getters

`thread_get_recent_cpu` and `thread_get_load_avg` multiply by a hundred in 32 bits. If no update of
the load average counts more than four threads, nothing overflows (`mlfqs_no_overflow`). Five are
too many, and here is the run that shows it.

The main thread has niceness 20 and four other threads, the nappers, sleep until the next hundredth
tick. They wake up at the tick that updates the load average, so all five are counted, and go back
to sleep before the next tick, so the main thread is charged for every tick. Its usage tends to
`240 * 5 + 20`, and with the ticks of the last second it goes past `2^31 / 100`.

* `Asleep` — the main thread runs and the nappers sleep; `Asleep.tick` is a tick of that;
* `Asleep.update` — the tick at which they wake up, and `Rousing.nap` — one goes back to sleep;
* `Asleep.second` — a whole second, as a function of the load average and the usage.
-/

namespace Pintos

open Transition Function

/-! ### The scene -/

/-- The four nappers. -/
def nappers : Multiset Tid := {2, 3, 4, 5}

/-- What the scheduler knows at tick `n`: the load average is `la`, the main thread has usage `r`
and niceness 20, and the nappers have neither. -/
@[mk_iff] structure Scene (n : ℕ) (la r : ℤ) (k : Kernel) : Prop where
  mode : k.mlfqs = true
  idle : k.idleThread = 1
  ticks : k.ticks = n
  load : k.loadAvg = la
  listed : k.allList = [0, 1, 2, 3, 4, 5]
  usage : (k.threads 0).recentCpu = r
  nice : (k.threads 0).nice = 20
  priority : (k.threads 0).priority < 63
  napper : ∀ t ∈ nappers, (k.threads t).priority = 63 ∧ (k.threads t).recentCpu = 0 ∧
    (k.threads t).nice = 0

instance (n : ℕ) (la r : ℤ) (k : Kernel) : Decidable (Scene n la r k) :=
  decidable_of_iff _ (scene_iff n la r k).symm

theorem ne_of_mem_nappers {t : Tid} (ht : t ∈ nappers) : t ≠ 0 ∧ t ≠ 1 ∧ t ∈ [0, 1, 2, 3, 4, 5] := by
  have hmem : t = 2 ∨ t = 3 ∨ t = 4 ∨ t = 5 := by simpa [nappers] using ht
  rcases hmem with rfl | rfl | rfl | rfl <;> decide

section Scene

variable {n : ℕ} {la r : ℤ} {k k' : Kernel}

theorem Scene.frame (h : Scene n la r k) (hf : ScoreFrame k k') : Scene n la r k' where
  mode := hf.mlfqs.trans h.mode
  idle := hf.idleThread.trans h.idle
  ticks := hf.ticks.trans h.ticks
  load := hf.loadAvg.trans h.load
  listed := hf.allList.trans h.listed
  usage := (hf.recentCpu 0).trans h.usage
  nice := (hf.nice 0).trans h.nice
  priority := by
    rw [hf.priority]
    exact h.priority
  napper t ht := by
    rw [hf.priority, hf.recentCpu, hf.nice]
    exact h.napper t ht

/-- A niceness of 20 costs forty levels of priority. -/
theorem mlfqsPriority_nice (hlo : 0 ≤ r) (hhi : r < 2 ^ 30) : mlfqsPriority r 20 < 63 := by
  rw [mlfqsPriority_eq (by omega) (by decide), if_pos hlo]
  unfold priMax priMin
  omega

/-- The charge for a tick, as long as it fits. -/
theorem fpIntAdd_one (hlo : 0 ≤ r) (hhi : r < 2 ^ 30) : fpIntAdd r 1 = r + 16384 := by
  unfold fpIntAdd fBits
  rw [toInt32_of_fits (x := 1 * 16384) (by omega) (by omega), toInt32_of_fits (by omega) (by omega)]
  omega

/-- The charge and the pass over the priorities, with the main thread running. -/
theorem Scene.charge (h : Scene n la r k) (hrun : k.running = 0) (hlo : 0 ≤ r) (hhi : r + 16384 < 2 ^ 30) :
    Scene n la (r + 16384) (priorityPass (chargeTick k)) := by
  have hne : k.running ≠ k.idleThread := by rw [hrun, h.idle]; simp
  obtain ⟨hcharge, hload⟩ := chargeTick_usage hne
  obtain ⟨hticks₁, hall₁, -, -, hidle₁, hmode₁, -, hnice₁⟩ := (chargeTick_rescored k).keeps
  obtain ⟨hticks₂, hall₂, -, -, hidle₂, hmode₂, -, hnice₂⟩ := (priorityPass_rescored (chargeTick k)).keeps
  have hother : ∀ t ∈ nappers, (chargeTick k).threads t = k.threads t := by
    intro t ht
    unfold chargeTick
    rw [if_pos hne, hrun]
    exact update_of_ne (ne_of_mem_nappers ht).1 ..
  have husage : ((chargeTick k).threads 0).recentCpu = r + 16384 := by
    rw [hrun] at hcharge
    rw [hcharge]
    unfold Kernel.cur
    rw [hrun, h.usage, fpIntAdd_one hlo (by omega)]
  have hsame : ((chargeTick k).threads 0).priority = (k.threads 0).priority := by
    unfold chargeTick
    rw [if_pos hne, hrun]
    unfold Kernel.cur
    rw [hrun]
    refine apply_update_same Thread.priority ?_ 0
    rfl
  refine ⟨hmode₂.trans (hmode₁.trans h.mode), hidle₂.trans (hidle₁.trans h.idle),
    hticks₂.trans (hticks₁.trans h.ticks), ?_, hall₂.trans (hall₁.trans h.listed), ?_,
    (hnice₂ 0).trans ((hnice₁ 0).trans h.nice), ?_, fun t ht => ⟨?_, ?_, ?_⟩⟩
  · rw [(priorityPass_usage (chargeTick k) 0).2, hload, h.load]
  · rw [(priorityPass_usage (chargeTick k) 0).1, husage]
  · -- recomputed or not, the priority of the main thread is below that of a napper
    unfold priorityPass
    split
    · rw [threadForeach_priority, if_pos (by rw [hall₁, h.listed]; decide)]
      unfold tickUpdatePriority
      dsimp only
      rw [husage, hnice₁, h.nice]
      exact mlfqsPriority_nice (by omega) hhi
    · rw [hsame]
      exact h.priority
  · unfold priorityPass
    split
    · rw [threadForeach_priority, if_pos (by rw [hall₁, h.listed]; exact (ne_of_mem_nappers ht).2.2)]
      unfold tickUpdatePriority
      dsimp only
      rw [hother t ht, (h.napper t ht).2.1, (h.napper t ht).2.2]
      rfl
    · rw [hother t ht]
      exact (h.napper t ht).1
  · rw [(priorityPass_usage (chargeTick k) t).1, hother t ht]
    exact (h.napper t ht).2.1
  · rw [hnice₂, hnice₁]
    exact (h.napper t ht).2.2

/-- The update of a thread reads its own fields and the load average. -/
theorem threadUpdateRecentCpu_congr {t : Tid} (hidle : k'.idleThread = k.idleThread)
    (hload : k'.loadAvg = k.loadAvg) (hthread : k'.threads t = k.threads t) :
    threadUpdateRecentCpu k' t = threadUpdateRecentCpu k t := by
  unfold threadUpdateRecentCpu
  rw [hidle, hload, hthread]

/-- A pass over a list without duplicates updates every thread of it once. -/
theorem threadForeach_recentCpu : ∀ (ts : List Tid), ts.Nodup → ∀ (k : Kernel) (t : Tid),
    ((threadForeach threadUpdateRecentCpu ts k).threads t).recentCpu =
      if t ∈ ts then (threadUpdateRecentCpu k t).recentCpu else (k.threads t).recentCpu := by
  intro ts
  induction ts with
  | nil => exact fun _ k t => rfl
  | cons u ts ih =>
    intro hnd k t
    obtain ⟨hu, hnd⟩ := List.nodup_cons.mp hnd
    rw [threadForeach, ih hnd]
    by_cases htu : t = u
    · subst htu
      rw [if_neg hu, if_pos List.mem_cons_self]
      simp [Kernel.setThread]
    · have hother : (k.setThread u (threadUpdateRecentCpu k u)).threads t = k.threads t :=
        update_of_ne htu ..
      have hupd : (threadUpdateRecentCpu (k.setThread u (threadUpdateRecentCpu k u)) t)
          = threadUpdateRecentCpu k t := threadUpdateRecentCpu_congr rfl rfl hother
      simp only [List.mem_cons, htu, false_or, hupd, hother]

/-- The usage of the main thread after an update with load average `la`. -/
def decayedUsage (la r : ℤ) : ℤ := fpIntAdd (fpMul (decayCoef la) r) 20

/-- The update of a hundredth tick, with five threads counted. -/
theorem Scene.decay (h : Scene n la r k) (hn : (n : ℤ) % 100 = 0) (hcnt : readyThreadsCnt k = 5)
    (hlo : 0 ≤ la) (hhi : la ≤ 16384 * 5) :
    Scene n (loadStep la 5) (decayedUsage (loadStep la 5) r) (usagePass k) := by
  have hload : (updateLoadAvg k).loadAvg = loadStep la 5 := by
    refine (updateLoadAvg_of_checked (updateLoadAvg?_eq (N := 5) (by decide) ?_ ?_ ?_)).trans ?_
    · rw [h.load]
      exact hlo
    · rw [h.load]
      exact hhi
    · exact le_of_eq hcnt
    · rw [h.load, hcnt]
  have hpass : usagePass k = threadForeach threadUpdateRecentCpu k.allList (updateLoadAvg k) := by
    unfold usagePass timerFreq
    rw [h.ticks, if_pos hn]
    rfl
  obtain ⟨hticks, hall, -, -, hidle, hmode, -, hnice⟩ := (usagePass_rescored k).keeps
  have hcpu : ∀ t, ((usagePass k).threads t).recentCpu = if t ∈ [0, 1, 2, 3, 4, 5] then
      (threadUpdateRecentCpu (updateLoadAvg k) t).recentCpu else (k.threads t).recentCpu := by
    intro t
    rw [hpass, threadForeach_recentCpu k.allList (by rw [h.listed]; decide), h.listed]
    rfl
  have hprio : ∀ t, ((usagePass k).threads t).priority = (k.threads t).priority := by
    intro t
    rw [hpass]
    exact threadForeach_recentCpu_priority _ _ t
  have hupd : ∀ t, t ≠ 1 → (threadUpdateRecentCpu (updateLoadAvg k) t).recentCpu
      = fpIntAdd (fpMul (decayCoef (loadStep la 5)) (k.threads t).recentCpu) (k.threads t).nice := by
    intro t ht
    rw [← hload]
    unfold threadUpdateRecentCpu
    rw [if_neg (by change t ≠ k.idleThread; rw [h.idle]; exact ht)]
    rfl
  refine ⟨hmode.trans h.mode, hidle.trans h.idle, hticks.trans h.ticks, ?_, hall.trans h.listed, ?_,
    (hnice 0).trans h.nice, ?_, fun t ht => ⟨?_, ?_, ?_⟩⟩
  · rw [hpass, threadForeach_loadAvg, hload]
  · rw [hcpu, if_pos (by decide), hupd 0 (by decide), h.usage, h.nice]
    rfl
  · rw [hprio]
    exact h.priority
  · rw [hprio]
    exact (h.napper t ht).1
  · -- nothing decays to nothing
    obtain ⟨-, h1, hmem⟩ := ne_of_mem_nappers ht
    rw [hcpu, if_pos hmem, hupd t h1, (h.napper t ht).2.1, (h.napper t ht).2.2]
    simp [fpMul, fpIntAdd, toInt32, toInt64]
  · rw [hnice]
    exact (h.napper t ht).2.2

end Scene

/-! ### The main thread runs, the nappers sleep -/

/-- At tick `n` the main thread is outside the kernel and the nappers sleep until tick `w`. -/
@[mk_iff] structure Asleep (w n : ℕ) (la r : ℤ) (m : Machine) : Prop extends Scene n la r m.kernel where
  running : m.kernel.running = 0
  outside : m.ctl 0 = ⟨.user, []⟩
  ready : m.kernel.readyHeap.size = 0
  asleep : m.kernel.sleepHeap.items = nappers
  wake : ∀ t ∈ nappers, (m.kernel.threads t).wakeTime = w

instance (w n : ℕ) (la r : ℤ) (m : Machine) : Decidable (Asleep w n la r m) :=
  decidable_of_iff _ (asleep_iff w n la r m).symm

section Asleep

variable {w n : ℕ} {la r : ℤ} {m m' : Machine}

theorem Asleep.curPc (h : Asleep w n la r m) : m.curPc = .user := by
  unfold Machine.curPc Machine.pc
  rw [h.running, h.outside]

/-- The clock of the next tick. -/
theorem Scene.clock {k : Kernel} (h : Scene n la r k) (hn : n + 1 < 2 ^ 63) :
    toInt64 (k.ticks + 1) = (n + 1 : ℕ) := by
  rw [h.ticks, toInt64_of_fits (by omega) (by omega)]
  rfl

theorem Scene.setTicks {k : Kernel} (h : Scene n la r k) (n' : ℕ) :
    Scene n' la r { k with ticks := n' } :=
  ⟨h.mode, h.idle, rfl, h.load, h.listed, h.usage, h.nice, h.priority, h.napper⟩

/-- **A tick at which nobody wakes up.** -/
theorem Asleep.tick (h : Asleep w n la r m) (hsch : Scheduled m) (hw : n + 1 < w)
    (hn : n + 1 < 2 ^ 63) (hmod : (n + 1) % 100 ≠ 0) (hlo : 0 ≤ r) (hhi : r + 16384 < 2 ^ 30) :
    ∃ m', step m .tick = .ok m' ∧ Asleep w (n + 1) la (r + 16384) m' := by
  have hclock := h.clock hn
  obtain ⟨m', hs, hctl, hrun, hready, hf⟩ := tick_alone h.mode
    (by rw [h.running, h.idle]; simp) h.curPc h.ready fun t ht => by
      rw [h.asleep] at ht
      rw [hclock, h.wake t ht]
      exact_mod_cast hw
  refine ⟨m', hs, ?_⟩
  rw [hclock] at hf
  have hscene := (h.setTicks (n + 1)).charge h.running hlo hhi
  rw [mlfqsTick_eq, usagePass_of_not (by
    rw [hscene.ticks]
    unfold timerFreq
    omega)] at hf
  have hsleep : m'.kernel.sleepHeap = m.kernel.sleepHeap := by
    rw [hf.sleepHeap, (priorityPass_rescored _).keeps.2.2.2.2.2.2.1,
      (chargeTick_rescored _).keeps.2.2.2.2.2.2.1]
  refine ⟨hscene.frame hf, hrun.trans h.running, ?_, hready, by rw [hsleep, h.asleep], fun t ht => ?_⟩
  · rw [hctl]
    exact h.outside
  · -- nobody is due, so nobody's time is touched
    obtain ⟨o, hmove, hframe⟩ := step_sleepMove hsch hs
    have hmem : t ∈ m.kernel.sleepHeap.items := by rw [h.asleep]; exact ht
    cases hmove with
    | stay he => exact absurd rfl he
    | sleep _ he => cases he
    | @tick y k _ hint hyield =>
      have hq := timerInterrupt_of_quiet (k := m.kernel) fun t ht => by
        rw [h.asleep] at ht
        rw [hclock, h.wake t ht]
        exact_mod_cast hw
      obtain ⟨k₂, -, hmlfqs, hres, hk, -⟩ := threadTick_ok
        (Except.ok.inj (hq.symm.trans hint))
      have hall : SleepFrame { m.kernel with ticks := toInt64 (m.kernel.ticks + 1) } m'.kernel := by
        refine SleepFrame.trans ?_ (hyield.trans hframe)
        rw [hk]
        have hr := SleepFrame.rescored hres
        exact ⟨hr.ticks, hr.heap, hr.time⟩
      rw [hall.time t hmem]
      exact h.wake t ht

/-! ### The tick at which they wake up -/

/-- The memory between two rounds of `timer_wake`, with the value of `yield_on_return`: some
nappers are ready, and the others still sleep. -/
structure Waking (n : ℕ) (la r : ℤ) (y : Bool) (k : Kernel) : Prop extends Scene n la r k where
  running : k.running = 0
  each : k.readyHeap.items + k.sleepHeap.items = nappers
  yields : k.readyHeap.items ≠ 0 → y = true
  ordered : k.ReadyOrdered

/-- A round moves one napper from one heap to the other, and its priority asks for a yield. -/
theorem Waking.round {y : Bool} {k k' : Kernel} {heap : Heap Tid} {top : Tid}
    (h : Waking n la r y k) (hpop : heapPop (cmpAwakeTime k.threads) k.sleepHeap = .ok (top, heap))
    (hub : threadUnblock { k with sleepHeap := heap } top = .ok k') :
    Waking n la r (y || decide ((k'.threads top).priority > k'.cur.priority)) k' := by
  obtain ⟨-, hitems, -, -⟩ := heapPop_ok hpop
  have hpush := (threadUnblock_ok hub).2
  have hscene : Scene n la r { k with sleepHeap := heap } := ⟨h.mode, h.idle, h.ticks, h.load,
    h.listed, h.usage, h.nice, h.priority, h.napper⟩
  have hscene' : Scene n la r k' := hscene.frame (.pushReady hpush)
  have heach : top ::ₘ (k.readyHeap.items + heap.items) = nappers := by
    rw [← Multiset.add_cons, ← hitems, h.each]
  have htop : top ∈ nappers := by
    rw [← heach]
    exact Multiset.mem_cons_self _ _
  have hfresh : top ∉ k.readyHeap.items := by
    have hnd : (top ::ₘ (k.readyHeap.items + heap.items)).Nodup := by
      rw [heach]
      decide
    exact fun hmem => (Multiset.nodup_cons.mp hnd).1 (Multiset.mem_add.mpr (.inl hmem))
  obtain ⟨ord, rheap, hk', hready, hkeep⟩ := pushReady_ok hpush
  have hrun : k'.running = 0 := by
    rw [hk']
    exact h.running
  refine ⟨hscene', hrun, ?_, fun _ => ?_, hkeep hfresh (h.ordered.of_eq rfl rfl)⟩
  · rw [hk']
    rw [hready, Multiset.cons_add]
    exact heach
  · have hcur : k'.cur.priority < 63 := by
      unfold Kernel.cur
      rw [hrun]
      exact hscene'.priority
    rw [(hscene'.napper top htop).1, decide_eq_true hcur, Bool.or_true]

/-- **The rounds of `timer_wake`** at the tick the nappers sleep until: all of them are ready. -/
theorem Asleep.woke (h : Asleep (n + 1) n la r m) (hord : m.kernel.SleepOrdered) {y : Bool}
    {k : Kernel}
    (hwake : timerWake { m.kernel with ticks := ((n + 1 : ℕ) : ℤ) } ((n + 1 : ℕ) : ℤ) = .ok (y, k)) :
    Waking (n + 1) la r y k ∧ y = true ∧ k.readyHeap.items = nappers := by
  have hempty : m.kernel.readyHeap.items = 0 := Heap.items_eq_zero_of_size h.ready
  have hordered : m.kernel.ReadyOrdered := fun i h2 hi => by
    rw [h.ready] at hi
    omega
  have hwaking : Waking (n + 1) la r y k := timerWakeLoop_induct
    (I := fun y k => Waking (n + 1) la r y k) (fun _ _ _ _ _ hw hpop hub => hw.round hpop hub)
    _ _ _ _ ⟨h.setTicks (n + 1), h.running, by
      rw [hempty, zero_add, h.asleep], fun hne => absurd hempty hne, hordered.of_eq rfl rfl⟩ hwake
  have hwoken : Woken (n + 1 : ℕ) { m.kernel with ticks := ((n + 1 : ℕ) : ℤ) } k :=
    timerWakeLoop_exact _ false _ (y, k) le_rfl (hord.congr rfl fun _ _ => rfl) hwake
  -- all of them are due, so nobody is left in the sleeping heap
  have hleft : k.sleepHeap.items = 0 := by
    rw [hwoken.left]
    refine Multiset.filter_eq_nil.mpr fun t ht => ?_
    rw [h.asleep] at ht
    rw [h.wake t ht]
    exact lt_irrefl _
  have hall : k.readyHeap.items = nappers := by
    rw [← hwaking.each, hleft, add_zero]
  exact ⟨hwaking, hwaking.yields (by rw [hall]; decide), hall⟩

/-- A dispatch takes a thread of the highest priority off an ordered heap. -/
theorem schedule_pops {k k' : Kernel} (hord : k.ReadyOrdered) (hne : k.readyHeap.items ≠ 0)
    (hs : schedule k = .ok k') : k.readyHeap.items = k'.running ::ₘ k'.readyHeap.items ∧
      ∀ u ∈ k.readyHeap.items, (k.threads u).priority ≤ (k.threads k'.running).priority := by
  obtain ⟨next, heap, freed, rfl, hcase⟩ := schedule_ok hs
  rcases hcase with ⟨hsize, -, -⟩ | hpop
  · exact absurd (Heap.items_eq_zero_of_size hsize) hne
  · obtain ⟨-, hitems, -, hmax⟩ := heapPop_ok hpop
    exact ⟨hitems, fun u hu => priority_le_of_not_cmp ((hmax inferInstance hord).2 u hu)⟩

/-- Past the update at tick `n`: a napper runs, the nappers in `R` and the main thread are ready,
and the others are asleep again until tick `w`. -/
structure Rousing (w n : ℕ) (la r : ℤ) (R : Multiset Tid) (m : Machine) : Prop
    extends Scene n la r m.kernel where
  each : m.kernel.running ::ₘ (R + m.kernel.sleepHeap.items) = nappers
  ready : m.kernel.readyHeap.items = 0 ::ₘ R
  ordered : m.kernel.ReadyOrdered
  resume : ∀ t ∈ m.kernel.running ::ₘ R, m.ctl t = ⟨.sleepWake, []⟩
  outside : m.ctl 0 = ⟨.user, []⟩
  wake : ∀ t ∈ m.kernel.sleepHeap.items, (m.kernel.threads t).wakeTime = w

/-- If the main thread and nappers are ready, a dispatch takes a napper. -/
theorem Scene.dispatch {k k' : Kernel} (h : Scene n la r k) (hord : k.ReadyOrdered)
    {R : Multiset Tid} (hready : k.readyHeap.items = 0 ::ₘ R) (hR : R ≠ 0) (hsub : R ⊆ nappers)
    (hs : schedule k = .ok k') :
    k'.running ∈ R ∧ R = k'.running ::ₘ R.erase k'.running ∧
      k'.readyHeap.items = 0 ::ₘ R.erase k'.running := by
  obtain ⟨hitems, hmax⟩ := schedule_pops hord (by rw [hready]; simp) hs
  obtain ⟨v, hv⟩ := Multiset.exists_mem_of_ne_zero hR
  have hne : k'.running ≠ 0 := by
    intro hzero
    have hle := hmax v (by rw [hready]; exact Multiset.mem_cons_of_mem hv)
    rw [hzero, (h.napper v (hsub hv)).1] at hle
    exact absurd h.priority (not_lt.mpr hle)
  rw [hready] at hitems
  have hmem : k'.running ∈ R := by
    have hin : k'.running ∈ 0 ::ₘ R := by
      rw [hitems]
      exact Multiset.mem_cons_self _ _
    exact (Multiset.mem_cons.mp hin).resolve_left hne
  have hcons := Multiset.cons_erase hmem
  refine ⟨hmem, hcons.symm, ?_⟩
  rw [← hcons, Multiset.cons_swap] at hitems
  exact ((Multiset.cons_inj_right _).mp hitems).symm

/-- `thread_tick` once all nappers are ready: they are counted, and stay in order because their
priority does not change. -/
theorem Waking.ticked {y : Bool} {k k' : Kernel} (h : Waking n la r true k)
    (hawake : k.readyHeap.items = nappers) (htick : threadTick k true = (y, k'))
    (hmod : n % 100 = 0) (hlo : 0 ≤ r) (hhi : r + 16384 < 2 ^ 30) (hla : 0 ≤ la)
    (hla' : la ≤ 16384 * 5) :
    y = true ∧ k'.readyHeap.items = nappers ∧
      Waking n (loadStep la 5) (decayedUsage (loadStep la 5) (r + 16384)) true k' := by
  obtain ⟨k₂, -, hmlfqs, hres, rfl, hy⟩ := threadTick_ok htick
  obtain rfl := hmlfqs h.mode
  have hcharged := h.charge h.running hlo hhi
  have hcount : readyThreadsCnt (priorityPass (chargeTick k)) = 5 := by
    obtain ⟨-, -, -, hcur₁, -⟩ := (chargeTick_rescored k).keeps
    obtain ⟨-, -, -, hcur₂, -⟩ := (priorityPass_rescored (chargeTick k)).keeps
    unfold readyThreadsCnt
    rw [(priorityPass_rescored _).readyHeap, (chargeTick_rescored _).readyHeap, hcur₂, hcur₁,
      hcharged.idle, h.running, ← Heap.card_items, hawake]
    rfl
  have hscene := hcharged.decay (by omega) hcount hla hla'
  rw [← mlfqsTick_eq] at hscene
  obtain ⟨-, -, -, hcur, -, -, hsleep, -⟩ := hres.keeps
  have hheap := hres.readyHeap
  refine ⟨by rw [hy, Bool.true_or], (congrArg Heap.items hheap).trans hawake,
    ⟨hscene.mode, hscene.idle, hscene.ticks, hscene.load, hscene.listed, hscene.usage, hscene.nice,
      hscene.priority, hscene.napper⟩, hcur.trans h.running, ?_, fun _ => rfl, ?_⟩
  · rw [hheap, hsleep]
    exact h.each
  · refine h.ordered.congr hheap fun t ht => ⟨?_, hres.entryOrd t⟩
    rw [hawake] at ht
    exact (hscene.napper t ht).1.trans (h.napper t ht).1.symm

/-- The main thread yields to a napper. -/
theorem Waking.yield {k : Kernel} (h : Waking n la r true k) (hawake : k.readyHeap.items = nappers) :
    ∃ k₁ k₂, yieldOnReturn true k = .ok k₁ ∧ schedule k₁ = .ok k₂ ∧ Scene n la r k₂ ∧
      k₂.ReadyOrdered ∧ nappers = k₂.running ::ₘ nappers.erase k₂.running ∧
      k₂.readyHeap.items = 0 ::ₘ nappers.erase k₂.running ∧ k₂.sleepHeap.items = 0 := by
  obtain ⟨k₁, hpush⟩ := pushReady_total (k := k) 0 (by
    rw [← Heap.card_items, hawake]
    decide)
  have hyield : yieldOnReturn true k = .ok k₁ := by
    change yieldPark k = _
    unfold yieldPark
    rw [if_pos (by rw [h.running, h.idle]; simp), h.running, hpush]
  obtain ⟨ord, rheap, hk₁, hitems, hkeep⟩ := pushReady_ok hpush
  have hready : k₁.readyHeap.items = 0 ::ₘ nappers := by
    rw [hk₁]
    rw [hitems, hawake]
  have hord : k₁.ReadyOrdered := hkeep (by rw [hawake]; decide) h.ordered
  have hscene := h.frame (.pushReady hpush)
  obtain ⟨k₂, hsched⟩ := schedule_total k₁
  obtain ⟨-, hcons, hready₂⟩ := hscene.dispatch hord hready (by decide) (Multiset.Subset.refl _) hsched
  have hnone : k.sleepHeap.items = 0 := by
    have heach := h.each
    rw [hawake] at heach
    simpa using heach
  refine ⟨k₁, k₂, hyield, hsched, hscene.frame (.schedule hsched), hord.schedule hsched, hcons,
    hready₂, ?_⟩
  rw [(SleepFrame.schedule hsched).heap, (SleepFrame.pushReady hpush).heap, hnone]

/-- **The tick of the update**: the nappers wake up and are counted, and one of them runs. -/
theorem Asleep.update (h : Asleep (n + 1) n la r m) (hti : Timed m) (w : ℕ) (hn : n + 1 < 2 ^ 63)
    (hmod : (n + 1) % 100 = 0) (hlo : 0 ≤ r) (hhi : r + 16384 < 2 ^ 30) (hla : 0 ≤ la)
    (hla' : la ≤ 16384 * 5) :
    ∃ m' R, step m .tick = .ok m' ∧
      Rousing w (n + 1) (loadStep la 5) (decayedUsage (loadStep la 5) (r + 16384)) R m' := by
  have hfour : m.kernel.sleepHeap.size = 4 := by
    rw [← Heap.card_items, h.asleep]
    rfl
  obtain ⟨⟨y, k⟩, hint⟩ := timerInterrupt_total hti.scheduled (by rw [h.ready, hfour]; decide)
  obtain ⟨y₁, k₁, hwake, -, htick⟩ := timerInterrupt_ok (I := fun _ _ => True) hint trivial
    fun _ _ _ _ _ _ _ _ => trivial
  rw [h.clock hn] at hwake
  obtain ⟨hwaking, rfl, hawake⟩ := h.woke hti.ordered hwake
  obtain ⟨rfl, hawake', hwaking'⟩ := hwaking.ticked hawake htick hmod hlo hhi hla hla'
  obtain ⟨k₂, k₃, hyield, hsched, hscene, hord, hcons, hready, hnone⟩ := hwaking'.yield hawake'
  refine ⟨_, nappers.erase k₃.running, step_tick_eq (interruptsOn_of_user h.curPc) hint hyield hsched,
    hscene, ?_, hready, hord, fun t ht => ?_, h.outside, fun t ht => ?_⟩
  · rw [hnone, add_zero]
    exact hcons.symm
  · -- each of them is where it fell asleep
    have hin : t ∈ m.kernel.sleepHeap.items := by
      rw [h.asleep, hcons]
      exact ht
    exact hti.scheduled.flow.ctl_of_sleepWake (hti.scheduled.queues.sleeping t hin).2
  · rw [hnone] at ht
    exact absurd ht (Multiset.notMem_zero t)

/-! ### They go back to sleep -/

/-- A napper returns from `timer_sleep` and calls it again. -/
theorem Rousing.call {R : Multiset Tid} (h : Rousing w n la r R m) : ∃ m₁, m.curPc = .sleepWake ∧
    step m .exec = .ok m₁ ∧ step m₁ (.call (.timerSleep 100)) =
      .ok ⟨m.kernel, update m.ctl m.kernel.running ⟨.sleep 100, []⟩⟩ := by
  have hctl := h.resume _ (Multiset.mem_cons_self _ _)
  have hexec : act m .exec = .ok ⟨m.kernel, ⟨.user, []⟩, false⟩ := by
    change exec m.kernel (m.ctl m.kernel.running) = _
    rw [hctl]
    rfl
  refine ⟨_, congrArg Control.pc hctl, step_eq hexec rfl, ?_⟩
  have hcall : act ⟨m.kernel, update m.ctl m.kernel.running ⟨.user, []⟩⟩
      (.call (.timerSleep 100)) = .ok ⟨m.kernel, ⟨.sleep 100, []⟩, false⟩ := by
    have huser : update m.ctl m.kernel.running ⟨.user, []⟩ m.kernel.running = ⟨.user, []⟩ :=
      update_self ..
    change (if (update m.ctl m.kernel.running ⟨.user, []⟩ m.kernel.running).pc = .user then
      Except.ok (Outcome.mk m.kernel ⟨.sleep 100,
        (update m.ctl m.kernel.running ⟨.user, []⟩ m.kernel.running).stack⟩ false)
      else _) = _
    rw [if_pos (congrArg Control.pc huser), huser]
  refine (step_eq hcall rfl).trans ?_
  simp only [update_idem]

/-- The scores when a napper falls asleep. -/
theorem Scene.park {k k' : Kernel} (h : Scene n la r k) (hpark : sleepPark k 100 = .ok k') :
    Scene n la r k' := by
  obtain ⟨heap, rfl, -⟩ := sleepPark_ok hpark
  have hsame : ∀ {α : Type} (f : Thread → α), f { k.cur with
      wakeTime := toInt64 (k.ticks + 100), status := .blocked } = f (k.threads k.running) → ∀ t,
      f (update k.threads k.running { k.cur with
        wakeTime := toInt64 (k.ticks + 100), status := .blocked } t) = f (k.threads t) :=
    fun f hf t => apply_update_same f hf t
  refine ⟨h.mode, h.idle, h.ticks, h.load, h.listed, ?_, ?_, ?_, fun t ht => ⟨?_, ?_, ?_⟩⟩
  · exact (hsame Thread.recentCpu rfl 0).trans h.usage
  · exact (hsame Thread.nice rfl 0).trans h.nice
  · exact (hsame Thread.priority rfl 0).trans_lt h.priority
  · exact (hsame Thread.priority rfl t).trans (h.napper t ht).1
  · exact (hsame Thread.recentCpu rfl t).trans (h.napper t ht).2.1
  · exact (hsame Thread.nice rfl t).trans (h.napper t ht).2.2

/-- The ready threads stay in order when a napper falls asleep. -/
theorem Rousing.parked {R : Multiset Tid} {k : Kernel} (h : Rousing (n + 100) n la r R m)
    (hn : n + 100 < 2 ^ 63) (hpark : sleepPark m.kernel 100 = .ok k) :
    k.ReadyOrdered ∧ k.readyHeap.items = 0 ::ₘ R ∧ R + k.sleepHeap.items = nappers ∧
      ∀ t ∈ k.sleepHeap.items, (k.threads t).wakeTime = ((n + 100 : ℕ) : ℤ) := by
  obtain ⟨heap, rfl, hitems⟩ := sleepPark_ok hpark
  have hsleep : R + heap.items = nappers := by
    rw [hitems, Multiset.add_cons]
    exact h.each
  refine ⟨h.ordered.congr rfl fun t _ => ⟨?_, ?_⟩, h.ready, hsleep, fun t ht => ?_⟩
  · refine apply_update_same Thread.priority ?_ t
    rfl
  · refine apply_update_same Thread.entryOrd ?_ t
    rfl
  · change (update m.kernel.threads m.kernel.running _ t).wakeTime = _
    by_cases htr : t = m.kernel.running
    · rw [htr, update_self]
      rw [h.ticks, toInt64_of_fits (by omega) (by omega)]
      push_cast
      rfl
    · rw [update_of_ne htr]
      rw [hitems, Multiset.mem_cons] at ht
      exact h.wake t (ht.resolve_left htr)

theorem sleepPark_total {k : Kernel} (i : ℤ) (h : k.sleepHeap.size + 1 < maxHeapSize) :
    ∃ k', sleepPark k i = .ok k' := by
  unfold sleepPark heapPush
  dsimp only
  rw [if_pos (show (k.setThread _ _).sleepHeap.size + 1 ≤ _ from h.le),
    if_pos (show (k.setThread _ _).sleepHeap.size + 1 < _ from h)]
  exact ⟨_, rfl⟩

/-- **A napper goes back to sleep**: the next one runs, or the main thread if it was the last. -/
theorem Rousing.nap {R : Multiset Tid} {s₀ : Machine} {hist : List (Machine × Event)}
    (h : Rousing (n + 100) n la r R m) (hn : n + 100 < 2 ^ 63) (hrun : Run step niceInRange s₀ hist m) :
    ∃ hist' m', Run step niceInRange s₀ hist' m' ∧
      (Asleep (n + 100) n la r m' ∨ ∃ R', R'.card < R.card ∧ Rousing (n + 100) n la r R' m') := by
  obtain ⟨m₁, hpc, hback, hcall⟩ := h.call
  have hrun₂ := (hrun.tail (fun _ n hn => by rw [hpc] at hn; exact absurd hn (by simp)) hback).tail
    (fun he => absurd he (by simp)) hcall
  have hself : update m.ctl m.kernel.running ⟨.sleep 100, []⟩ m.kernel.running
    = ⟨.sleep 100, []⟩ := update_self ..
  -- there is room, since only nappers sleep
  have hfew : m.kernel.sleepHeap.size ≤ 4 := by
    have hle : m.kernel.sleepHeap.items ≤ nappers := by
      rw [← h.each]
      exact (Multiset.le_add_left _ _).trans (Multiset.le_cons_self _ _)
    rw [← Heap.card_items]
    exact Multiset.card_le_card hle
  obtain ⟨k, hpark⟩ := sleepPark_total (k := m.kernel) 100 (by unfold maxHeapSize; omega)
  obtain ⟨k', hsched⟩ := schedule_total k
  have hact : act ⟨m.kernel, update m.ctl m.kernel.running ⟨.sleep 100, []⟩⟩ .exec
      = .ok ⟨k, ⟨.sleepWake, []⟩, true⟩ := by
    change exec m.kernel (update m.ctl m.kernel.running _ m.kernel.running) = _
    rw [hself]
    change (do let k' ← sleepPark m.kernel 100; _) = _
    rw [hpark]
    rfl
  have hrun₃ := hrun₂.tail (fun _ n hn => by
    change (update m.ctl m.kernel.running _ m.kernel.running).pc = _ at hn
    rw [hself] at hn
    exact absurd hn (by simp)) (step_eq hact hsched)
  refine ⟨_, _, hrun₃, ?_⟩
  simp only [update_idem]
  obtain ⟨hord, hready, heach, hwake⟩ := h.parked hn hpark
  have hscene := h.park hpark
  have hsf := SleepFrame.schedule hsched
  have hzero : m.kernel.running ≠ 0 := by
    refine (ne_of_mem_nappers ?_).1
    rw [← h.each]
    exact Multiset.mem_cons_self _ _
  have houtside : update m.ctl m.kernel.running ⟨.sleepWake, []⟩ 0 = ⟨.user, []⟩ := by
    rw [update_of_ne hzero.symm]
    exact h.outside
  have hscene' : Scene n la r k' := hscene.frame (.schedule hsched)
  have hwake' : ∀ t ∈ k'.sleepHeap.items, (k'.threads t).wakeTime = ((n + 100 : ℕ) : ℤ) := by
    intro t ht
    rw [hsf.heap] at ht
    rw [hsf.time t ht]
    exact hwake t ht
  by_cases hR : R = 0
  · -- it was the last: the main thread is the only ready one
    subst hR
    rw [zero_add] at heach
    obtain ⟨hitems, -⟩ := schedule_pops hord (by rw [hready]; simp) hsched
    rw [hready] at hitems
    obtain ⟨hcur, hempty⟩ : k'.running = 0 ∧ k'.readyHeap.items = 0 := by
      have hpair := Multiset.cons_eq_cons.mp hitems
      simpa [eq_comm] using hpair
    rw [← hsf.heap] at heach
    refine .inl ⟨hscene', hcur, houtside, ?_, heach, fun t ht => hwake' t (heach ▸ ht)⟩
    rw [← Heap.card_items]
    exact Multiset.card_eq_zero.mpr hempty
  · have hsub : R ⊆ nappers := by
      rw [← heach]
      exact Multiset.subset_of_le (Multiset.le_add_right _ _)
    obtain ⟨hmem, hcons, hready'⟩ := hscene.dispatch hord hready hR hsub hsched
    refine .inr ⟨R.erase k'.running, Multiset.card_erase_lt_of_mem hmem, hscene', ?_, hready',
      hord.schedule hsched, fun t ht => ?_, houtside, hwake'⟩
    · rw [← Multiset.cons_add, ← hcons, hsf.heap]
      exact heach
    · change update m.ctl m.kernel.running _ t = _
      by_cases ht' : t = m.kernel.running
      · rw [ht', update_self]
      · rw [update_of_ne ht']
        rw [← hcons] at ht
        exact h.resume t (Multiset.mem_cons_of_mem ht)

/-- All of them go back to sleep. -/
theorem Rousing.settle {s₀ : Machine} (hn : n + 100 < 2 ^ 63) : ∀ (c : ℕ) (R : Multiset Tid)
    (m : Machine) (hist : List (Machine × Event)), R.card < c → Rousing (n + 100) n la r R m →
    Run step niceInRange s₀ hist m →
    ∃ hist' m', Run step niceInRange s₀ hist' m' ∧ Asleep (n + 100) n la r m' := by
  intro c
  induction c with
  | zero => exact fun R m hist hc => absurd hc (Nat.not_lt_zero _)
  | succ c ih =>
    intro R m hist hc h hrun
    obtain ⟨hist', m', hrun', hasleep | ⟨R', hlt, hrousing⟩⟩ := h.nap hn hrun
    · exact ⟨hist', m', hrun', hasleep⟩
    · exact ih R' m' hist' (by omega) hrousing hrun'

/-! ### A second, and many of them -/

section Second

variable {v : ℕ → ℕ}

/-- The ticks of a second before the last. -/
theorem Asleep.quiet (hn : n + 100 < 2 ^ 63) (hmod : n % 100 = 0) (hlo : 0 ≤ r)
    (hhi : r + 100 * 16384 < 2 ^ 30) : ∀ i < 100, ∀ (m : Machine) (hist : List (Machine × Event)),
    Asleep (n + 100) n la r m → Run step niceInRange (boot true v) hist m →
    ∃ hist' m', Run step niceInRange (boot true v) hist' m' ∧
      Asleep (n + 100) (n + i) la (r + i * 16384) m' := by
  intro i
  induction i with
  | zero =>
    intro _ m hist h hrun
    refine ⟨hist, m, hrun, ?_⟩
    rw [Nat.cast_zero, zero_mul, add_zero, add_zero]
    exact h
  | succ i ih =>
    intro hi m hist h hrun
    obtain ⟨hist', m', hrun', h'⟩ := ih (Nat.lt_of_succ_lt hi) m hist h hrun
    obtain ⟨m'', hs, h''⟩ := h'.tick (Scheduled.of_run hrun') (by omega) (by omega) (by omega)
      (by omega) (by omega)
    refine ⟨_, m'', hrun'.tail (fun he => absurd he (by simp)) hs, ?_⟩
    rw [show r + ((i + 1 : ℕ) : ℤ) * 16384 = r + i * 16384 + 16384 by push_cast; omega]
    exact h''

/-- **A whole second**, from one update to the next. -/
theorem Asleep.second {hist : List (Machine × Event)} (h : Asleep (n + 100) n la r m)
    (hrun : Run step niceInRange (boot true v) hist m) (hn : n + 200 < 2 ^ 63) (hmod : n % 100 = 0)
    (hla : 0 ≤ la) (hla' : la ≤ 16384 * 5) (hlo : 0 ≤ r) (hhi : r + 100 * 16384 < 2 ^ 30) :
    ∃ hist' m', Run step niceInRange (boot true v) hist' m' ∧
      Asleep (n + 100 + 100) (n + 100) (loadStep la 5)
        (decayedUsage (loadStep la 5) (r + 100 * 16384)) m' := by
  obtain ⟨hist₁, m₁, hrun₁, h₁⟩ := Asleep.quiet (by omega) hmod hlo hhi 99 (by decide) m hist h hrun
  obtain ⟨m₂, R, hs, h₂⟩ := Asleep.update (n := n + 99) h₁ (Timed.of_run hrun₁) (n + 100 + 100)
    (by omega) (by omega) (by omega) (by omega) hla hla'
  rw [show r + ((99 : ℕ) : ℤ) * 16384 + 16384 = r + 100 * 16384 by push_cast; omega] at h₂
  exact h₂.settle (by omega) (R.card + 1) R m₂ _ (Nat.lt_succ_self _)
    (hrun₁.tail (fun he => absurd he (by simp)) hs)

/-- Load average and usage after a number of seconds, as long as they are in range. -/
def afterSeconds : ℕ → Option (ℤ × ℤ)
  | 0 => some (0, 0)
  | i + 1 =>
    match afterSeconds i with
    | none => none
    | some (la, r) =>
      if 0 ≤ la ∧ la ≤ 16384 * 5 ∧ 0 ≤ r ∧ r + 100 * 16384 < 2 ^ 30 then
        some (loadStep la 5, decayedUsage (loadStep la 5) (r + 100 * 16384))
      else none

theorem Asleep.seconds {m₀ : Machine} {hist₀ : List (Machine × Event)} (h₀ : Asleep 100 0 0 0 m₀)
    (hrun₀ : Run step niceInRange (boot true v) hist₀ m₀) : ∀ (i : ℕ), i < 2 ^ 32 → ∀ (la r : ℤ),
    afterSeconds i = some (la, r) → ∃ hist m, Run step niceInRange (boot true v) hist m ∧
      Asleep (100 * i + 100) (100 * i) la r m := by
  intro i
  induction i with
  | zero =>
    intro _ la r hafter
    cases hafter
    exact ⟨hist₀, m₀, hrun₀, h₀⟩
  | succ i ih =>
    intro hi la r hafter
    unfold afterSeconds at hafter
    split at hafter
    · cases hafter
    · next la₁ r₁ hprev =>
      split at hafter
      · next hrange =>
        cases hafter
        obtain ⟨hla, hla', hlo, hhi⟩ := hrange
        obtain ⟨hist, m, hrun, h⟩ := ih (by omega) la₁ r₁ hprev
        exact h.second hrun (by omega) (by omega) hla hla' hlo hhi
      · cases hafter

end Second

end Asleep

/-! ### The run with five threads -/

/-- The main thread makes itself as nice as it can and starts the nappers, each of which goes to
sleep at once. -/
def napperSetup : List Event :=
  Call.run (.threadSetNice 20) 7 ++
    (List.replicate 4 (Call.run (.threadCreate 63 true) 41 ++ Call.run (.timerSleep 100) 1)).flatten

/-- The guard as a test. -/
def niceTest (m : Machine) : Event → Bool
  | .exec => match m.curPc with
    | .setNice n => decide (-20 ≤ n ∧ n ≤ 20)
    | _ => true
  | _ => true

theorem niceInRange_of_test {m : Machine} {e : Event} (h : niceTest m e = true) :
    niceInRange m e := by
  rintro rfl n hpc
  unfold niceTest at h
  rw [hpc] at h
  exact of_decide_eq_true h

theorem exists_asleep : ∃ hist m, Run step niceInRange (boot true fun _ => 0) hist m ∧
    Asleep 100 0 0 0 m := by
  obtain ⟨hist, m, hrun, h⟩ := exists_run niceInRange niceTest (fun _ _ => niceInRange_of_test) true
    (fun _ => 0) napperSetup (fun _ m => decide (Asleep 100 0 0 0 m)) (by decide +kernel)
  exact ⟨hist, m, hrun, of_decide_eq_true h⟩

/-! ### The getters -/

/-- No overflow in the mlfqs code from here: not in the updates of the next tick, if it counts at
most four threads, and not in the getters, which return what they should. -/
structure NoOverflow (m : Machine) : Prop where
  update : ∀ k, atLoadUpdate m.kernel = some k → readyThreadsCnt k ≤ 4 →
    ∀ ts t us, k.allList = ts ++ t :: us →
      threadUpdateRecentCpu? (threadForeach threadUpdateRecentCpu ts (updateLoadAvg k)) t
        = some (threadUpdateRecentCpu (threadForeach threadUpdateRecentCpu ts (updateLoadAvg k))
            t).recentCpu
  loadAvg : threadGetLoadAvg? m.kernel = some (threadGetLoadAvg m.kernel) ∧
    HundredTimes m.kernel.loadAvg (threadGetLoadAvg m.kernel)
  recentCpu : m.curPc = .user →
    threadGetRecentCpu? m.kernel = some (threadGetRecentCpu m.kernel) ∧
      HundredTimes m.kernel.cur.recentCpu (threadGetRecentCpu m.kernel)

/-- **No overflow with at most four threads.** In every run in mlfqs mode in which no update of the
load average counts more than four threads that are ready or running, and every niceness is
between -20 and 20, nothing overflows in `thread_update_recent_cpu`, `thread_get_load_avg` and
`thread_get_recent_cpu`, and the two getters return a hundred times the value, rounded to the
nearest. -/
theorem mlfqs_no_overflow {v : ℕ → ℕ} {h : List (Machine × Event)} {m : Machine}
    (hrun : Run step (fun m e => niceInRange m e ∧ loadAtMost 4 m e) (boot true v) h m) :
    NoOverflow m := by
  obtain ⟨hsch, hall, havg, hused⟩ := hrun.invariant_history
    (I := fun h m => Scheduled m ∧ AllListed m ∧ Averaged 4 h m ∧ Used m.kernel)
    ⟨.boot true v, .boot true v, Averaged.of_run (by decide) .refl, .boot v⟩
    fun h m e m' ⟨hsch, hall, havg, hused⟩ ⟨hnice, hload⟩ hs =>
      ⟨hsch.step hs, hall.step hsch.flow havg.mode hs, havg.step (by decide) hload hs,
        hused.step hsch hall havg hnice hload hs⟩
  have hla := havg.le
  have hla₀ := havg.nonneg
  refine ⟨fun k hat hcnt ts t us hsplit => ?_, hundredfold (by omega) (by omega), fun hpc => ?_⟩
  · -- the pass reaches `t` after the threads before it
    have hloadk : k.loadAvg = m.kernel.loadAvg := atLoadUpdate_loadAvg hat
    have hchecked := updateLoadAvg?_eq (k := k) (N := 4) (by decide) (hloadk ▸ hla₀) (hloadk ▸ hla) hcnt
    have hdec := hused.decayable hat (by
      rw [updateLoadAvg_of_checked hchecked, hloadk]
      exact loadStep_bounds hla₀ hla (readyThreadsCnt_nonneg k) hcnt)
    obtain ⟨hdec', -⟩ := Decayable.foreach ts _ (fun _ => False) hdec
      (fun u hu => hsplit ▸ List.mem_append_left _ hu) (fun _ hf => hf.elim)
    exact (hdec'.checked (t := t) (hsplit ▸ List.mem_append_right _ List.mem_cons_self)).1
  · have hmem := hall _ (hsch.hasThread_running (by rw [hpc]; simp))
    obtain ⟨hlo, hhi⟩ := hused.usage _ hmem
    change _ ≤ m.kernel.cur.recentCpu at hlo
    change m.kernel.cur.recentCpu ≤ _ at hhi
    have hmod : m.kernel.ticks % 100 < 100 := by omega
    exact hundredfold (by omega) (by omega)

/-- The main thread alone, for the first second. -/
theorem mlfqs_no_overflow_solo : ∃ h m,
    Run step (fun m e => niceInRange m e ∧ loadAtMost 4 m e) (boot true fun _ => 0) h m ∧
      m.kernel.ticks = 99 ∧ NoOverflow m := by
  obtain ⟨h, m, hrun, hsolo⟩ := exists_solo (G := fun m e => niceInRange m e ∧ loadAtMost 4 m e)
    (fun _ => 0) (fun n m hn hsolo => by
      have hnone : atLoadUpdate m.kernel = none := by
        rw [hsolo.atLoadUpdate (by omega), if_neg (by omega)]
      exact ⟨fun he => absurd he (by simp), fun _ k hk => absurd (hnone.symm.trans hk) (by simp)⟩)
    99 (by decide)
  exact ⟨h, m, hrun, hsolo.ticks, mlfqs_no_overflow hrun⟩

/-- **Five threads are too many.** After 366 seconds and 99 ticks a hundred times the usage of the
main thread is more than 32 bits hold, and `thread_get_recent_cpu` returns a negative number. -/
theorem recent_cpu_overflows : ∃ h m, Run step niceInRange (boot true fun _ => 0) h m ∧
    m.curPc = .user ∧ 0 < m.kernel.cur.recentCpu ∧ threadGetRecentCpu? m.kernel = none ∧
    threadGetRecentCpu m.kernel < 0 := by
  obtain ⟨hist₀, m₀, hrun₀, h₀⟩ := exists_asleep
  obtain ⟨hist₁, m₁, hrun₁, h₁⟩ := h₀.seconds hrun₀ 366 (by decide) 81419 19853660 (by decide +kernel)
  obtain ⟨hist, m, hrun, h⟩ := Asleep.quiet (by decide) (by decide) (by decide) (by decide) 99
    (by decide) m₁ hist₁ h₁ hrun₁
  have husage : m.kernel.cur.recentCpu = 21475676 := by
    unfold Kernel.cur
    rw [h.running]
    exact h.usage
  refine ⟨hist, m, hrun, h.curPc, ?_, ?_, ?_⟩
  · rw [husage]
    decide
  · unfold threadGetRecentCpu?
    rw [husage]
    decide
  · unfold threadGetRecentCpu
    rw [husage]
    decide

end Pintos
