import Pintos.Sched.Queues

/-!
# The order of the ready heap

The ready heap is ordered by priority and entry order, but it stores pointers: whoever writes
into a thread that is queued there moves its key under the heap's feet. Two places do so,
`donate_priority`, which raises a lock holder wherever it is, and, in mlfqs mode, the
recomputation of all priorities on every fourth tick.

* `Exec.readyOrdered` — everything else keeps the order, at every program point;
* `raiseFits` / `rescoreFits` — the conditions under which those two keep it as well;
* `readyOrdered_act` / `readyOrdered_step` — one step, from which runs follow;
* `dispatchesMax_of_ordered` — an ordered heap gives up a thread of the highest priority.
-/

namespace Pintos

open Transition Function

/-- `next_thread_to_run` returns a thread of the highest priority, if any thread is ready. -/
def DispatchesMax (k : Kernel) : Prop :=
  ∀ t k', k.readyHeap.size ≠ 0 → nextThreadToRun k = .ok (t, k') →
    ∀ u ∈ k.readyHeap.items, (k.threads u).priority ≤ (k.threads t).priority

theorem dispatchesMax_of_ordered {k : Kernel} (h : k.ReadyOrdered) : DispatchesMax k := by
  intro t k' hsize hnext u hu
  unfold nextThreadToRun at hnext
  split at hnext
  · next hempty => exact absurd (by simpa [heapEmpty] using hempty) hsize
  · obtain ⟨⟨top, heap⟩, hpop, hnext⟩ := bind_eq_ok.mp hnext
    obtain ⟨rfl, -⟩ := Prod.mk.inj (Except.ok.inj hnext)
    obtain ⟨-, -, -, hmax⟩ := heapPop_ok hpop
    exact priority_le_of_not_cmp ((hmax inferInstance h).2 u hu)

/-! ### What keeps the order -/

section Keep

variable {k k' : Kernel} {t : Tid} {x : Thread}

/-- Writing into a thread that is not queued, or into fields that are not part of the key. -/
theorem Kernel.ReadyOrdered.setThread (h : k.ReadyOrdered)
    (hx : t ∉ k.readyHeap.items ∨
      x.priority = (k.threads t).priority ∧ x.entryOrd = (k.threads t).entryOrd) :
    (k.setThread t x).ReadyOrdered := by
  refine h.congr rfl fun u hu => ?_
  change (update k.threads t x u).priority = _ ∧
    (update k.threads t x u).entryOrd = _
  rcases hx with hnot | ⟨hp, hord⟩
  · have hut : u ≠ t := fun heq => hnot (heq ▸ hu)
    rw [update_of_ne hut]
    exact ⟨rfl, rfl⟩
  · exact ⟨apply_update_same Thread.priority hp u, apply_update_same Thread.entryOrd hord u⟩

/-- The order only depends on the heap and the threads. -/
theorem Kernel.ReadyOrdered.of_eq (h : k.ReadyOrdered) (hheap : k'.readyHeap = k.readyHeap)
    (hthreads : k'.threads = k.threads) : k'.ReadyOrdered :=
  h.congr hheap fun u _ => by rw [hthreads]; exact ⟨rfl, rfl⟩

theorem Kernel.ReadyOrdered.unblock (h : k.ReadyOrdered)
    (hready : ∀ u ∈ k.readyHeap.items, (k.threads u).status = .ready)
    (hub : threadUnblock k t = .ok k') : k'.ReadyOrdered := by
  obtain ⟨hblocked, hpush⟩ := threadUnblock_ok hub
  obtain ⟨-, -, -, -, hord⟩ := pushReady_ok hpush
  refine hord (fun hmem => ?_) h
  have hst := hready t hmem
  rw [hblocked] at hst
  cases hst

/-- The dispatched thread is taken off the top. -/
theorem Kernel.ReadyOrdered.schedule (h : k.ReadyOrdered) (hs : Pintos.schedule k = .ok k') :
    k'.ReadyOrdered := by
  have hkey : ∀ a, (k'.threads a).priority = (k.threads a).priority ∧
      (k'.threads a).entryOrd = (k.threads a).entryOrd := by
    intro a
    obtain ⟨st, hst⟩ := (dispatched_of_schedule hs).threads a
    rw [hst]
    exact ⟨rfl, rfl⟩
  obtain ⟨next, heap, freed, rfl, hcase⟩ := schedule_ok hs
  have hheap : heap.Ordered (cmpThreadPriorityHeap k.threads) := by
    rcases hcase with ⟨-, -, rfl⟩ | hpop
    · exact h
    · exact ((heapPop_ok hpop).2.2.2 inferInstance h).1
  exact Heap.Ordered.congr hheap fun a _ b _ =>
    cmpThreadPriorityHeap_congr (hkey a).1 (hkey a).2 (hkey b).1 (hkey b).2

end Keep

section Code

variable {m : Machine} {c : Control} {o : Outcome}

theorem yieldPark_readyOrdered {k k' : Kernel} (hnot : k.running ∉ k.readyHeap.items)
    (h : k.ReadyOrdered) (hy : yieldPark k = .ok k') : k'.ReadyOrdered := by
  rcases yieldPark_ok hy with ⟨-, hpush⟩ | ⟨-, rfl⟩
  · obtain ⟨-, -, -, -, hord⟩ := pushReady_ok hpush
    exact hord hnot h
  · exact h.setThread (.inl hnot)

/-- What `donate_priority`'s store does. -/
theorem Exec.donateRaise_ok {k : Kernel} {l : LockId} {t : Tid} {dep : ℕ} (hex : Exec k c o)
    (hpc : c.pc = .donateRaise l t dep) :
    ∃ lw h, (k.threads t).lockWaiting = some lw ∧ (k.locks lw).holder = some h ∧
      o.kernel = k.setThread h { k.threads h with priority := (k.threads t).priority } := by
  cases hex with
  | donateRaise hw hh =>
    obtain ⟨rfl, rfl, rfl⟩ := Pc.donateRaise.inj hpc
    exact ⟨_, _, hw, hh, rfl⟩
  | silent hs => cases hs <;> cases hpc
  | downBlock h | downTake h => rcases h with rfl | rfl <;> cases hpc
  | updateMlfqs hst => cases hst <;> cases hpc
  | _ => cases hpc

/-- **The order at every program point.** No code but `donate_priority`'s store breaks it. -/
theorem Exec.readyOrdered (hsch : Scheduled m) (hctl : m.ctl m.kernel.running = c)
    (hex : Exec m.kernel c o) (hraise : ∀ l t dep, c.pc ≠ .donateRaise l t dep)
    (h : m.kernel.ReadyOrdered) : o.kernel.ReadyOrdered := by
  have hcur : m.kernel.running ∉ m.kernel.readyHeap.items := hsch.queues.cur_notMem_ready hsch.cpu
  have hsame : ∀ {k' : Kernel}, k'.readyHeap = m.kernel.readyHeap →
      k'.threads = m.kernel.threads → k'.ReadyOrdered := fun hh ht => h.of_eq hh ht
  have hself : ∀ x, (m.kernel.setThread m.kernel.running x).ReadyOrdered :=
    fun x => h.setThread (.inl hcur)
  cases hex with
  | silent => exact h
  | idle => exact hself _
  | downBlock => exact (hself _).of_eq rfl rfl
  | downTake | tryDown | upNone | tryTake | setHolder | donateStore | waitPush | signalRemove
  | createPage => exact hsame rfl rfl
  | upWake _ _ hub => exact (h.unblock hsch.queues.ready hub).of_eq rfl rfl
  | yield hy => exact yieldPark_readyOrdered hcur h hy
  | pushHolding | setWaiting | updateStore | updateMlfqs | setOrigin | setStore | setNice =>
    exact hself _
  | acquired | releaseClear => exact (hself _).of_eq rfl rfl
  | donateRaise => exact absurd rfl (hraise _ _ _)
  | sortHeap => exact heapRebuild_ordered _
  | @createInit p t st k₁ hi =>
    obtain ⟨-, rfl⟩ := initThread_ok hi
    have hblocked := (hsch.queues.embryo _ t (by rw [hctl]; rfl)).2.2
    refine Kernel.ReadyOrdered.of_eq (h.setThread (t := t) (.inl fun hmem => ?_)) rfl rfl
    have hst := hsch.queues.ready t hmem
    rw [hblocked] at hst
    cases hst
  | createMlfqs => exact h.setThread (.inr ⟨rfl, rfl⟩)
  | createUnblock hub => exact h.unblock hsch.queues.ready hub
  | exit => exact (hself _).of_eq rfl rfl
  | sleep _ hs =>
    obtain ⟨heap, rfl, -⟩ := sleepPark_ok hs
    exact (hself _).of_eq rfl rfl

end Code

/-! ### The priorities of a tick in mlfqs mode -/

/-- Thread `t` with the priority that `thread_tick` recomputes for it. -/
def rescored (k : Kernel) (t : Tid) : Thread :=
  if t ∈ k.allList then tickUpdatePriority k t else k.threads t

theorem rescored_entryOrd (k : Kernel) (t : Tid) :
    (rescored k t).entryOrd = (k.threads t).entryOrd := by
  unfold rescored
  split <;> rfl

/-- Recomputing every listed thread: each reads only its own fields, so the order does not
matter. -/
theorem threadForeach_priority (ts : List Tid) : ∀ (k : Kernel) (t : Tid),
    ((threadForeach tickUpdatePriority ts k).threads t).priority =
      if t ∈ ts then (tickUpdatePriority k t).priority else (k.threads t).priority := by
  induction ts with
  | nil => intro k t; rfl
  | cons u ts ih =>
    intro k t
    rw [threadForeach, ih]
    by_cases htu : t = u
    · subst htu
      simp [tickUpdatePriority, Kernel.setThread]
    · simp [tickUpdatePriority, Kernel.setThread, htu]

theorem threadForeach_recentCpu_priority (ts : List Tid) : ∀ (k : Kernel) (t : Tid),
    ((threadForeach threadUpdateRecentCpu ts k).threads t).priority = (k.threads t).priority := by
  induction ts with
  | nil => intro k t; rfl
  | cons u ts ih =>
    intro k t
    rw [threadForeach, ih]
    refine apply_update_same Thread.priority ?_ t
    unfold threadUpdateRecentCpu
    split <;> rfl

/-- The priority of a thread that is not running, after the mlfqs part of a tick. -/
theorem mlfqsTick_priority {k : Kernel} {t : Tid} (ht : t ≠ k.running) :
    ((mlfqsTick k).threads t).priority =
      if k.ticks % 4 = 0 then (rescored k t).priority else (k.threads t).priority := by
  -- the tick is charged to somebody else
  have hcharge : (chargeTick k).ticks = k.ticks ∧ (chargeTick k).allList = k.allList ∧
      (chargeTick k).threads t = k.threads t := by
    unfold chargeTick
    split
    · exact ⟨rfl, rfl, update_of_ne ht ..⟩
    · exact ⟨rfl, rfl, rfl⟩
  have hprio : ((priorityPass (chargeTick k)).threads t).priority =
      if k.ticks % 4 = 0 then (rescored k t).priority else (k.threads t).priority := by
    obtain ⟨hticks, hall, hthread⟩ := hcharge
    unfold priorityPass
    rw [hticks]
    split
    · rw [threadForeach_priority, hall, hthread]
      unfold rescored tickUpdatePriority
      rw [hthread]
      split <;> rfl
    · rw [hthread]
  -- the last pass writes the usage only
  rw [mlfqsTick_eq, ← hprio]
  unfold usagePass
  split
  · exact threadForeach_recentCpu_priority _ _ t
  · rfl

/-! ### The two conditions -/

/-- With the threads as in `threads`, no ready thread comes before another one in the order of
dispatch that it did not come before already. -/
def Kernel.NoOvertaking (k : Kernel) (threads : Tid → Thread) : Prop :=
  ∀ a ∈ k.readyHeap.items, ∀ b ∈ k.readyHeap.items,
    cmpThreadPriorityHeap threads a b = true → cmpThreadPriorityHeap k.threads a b = true

instance (k : Kernel) (threads : Tid → Thread) : Decidable (k.NoOvertaking threads) :=
  inferInstanceAs (Decidable (∀ a ∈ k.readyHeap.items, _))

/-- The store that `donate_priority` is about to make: the thread and the priority. -/
def Machine.donation (m : Machine) : Option (Tid × ℤ) :=
  match m.curPc with
  | .donateRaise _ t _ =>
    match (m.kernel.threads t).lockWaiting with
    | none => none
    | some lw => (m.kernel.locks lw).holder.map fun h => (h, (m.kernel.threads t).priority)
  | _ => none

/-- No donation lets a ready thread overtake another. -/
def raiseFits : Guard Machine Event := fun m e =>
  e = .exec → ∀ d ∈ m.donation,
    m.kernel.NoOvertaking
      (m.kernel.setThread d.1 { m.kernel.threads d.1 with priority := d.2 }).threads

instance (m : Machine) (e : Event) : Decidable (raiseFits m e) :=
  inferInstanceAs (Decidable (_ → _))

/-- No recomputation of the priorities lets a ready thread overtake another. The ready threads
are those after `timer_wake`, which runs before `thread_tick`. -/
def rescoreFits : Guard Machine Event := fun m e =>
  e = .tick → ∀ r ∈ (timerWake { m.kernel with ticks := toInt64 (m.kernel.ticks + 1) }
      (toInt64 (m.kernel.ticks + 1))).toOption,
    r.2.ticks % 4 = 0 → r.2.NoOvertaking (rescored r.2)

instance (m : Machine) (e : Event) : Decidable (rescoreFits m e) :=
  inferInstanceAs (Decidable (_ → _))

/-! ### One step -/

section Step

variable {m m' : Machine} {e : Event} {o : Outcome}

theorem tick_readyOrdered (hsch : Scheduled m) (h : m.kernel.ReadyOrdered)
    (hfit : m.kernel.mlfqs = true → rescoreFits m .tick) {y : Bool} {k : Kernel}
    (hint : timerInterrupt m.kernel = .ok (y, k)) : k.ReadyOrdered := by
  obtain ⟨y₁, k₁, hwake, ⟨hq, hc, hm, hord⟩, htick⟩ := timerInterrupt_ok
    (I := fun _ k₁ => Queues ⟨k₁, m.ctl⟩ ∧ OnCpu k₁ ∧ k₁.mlfqs = m.kernel.mlfqs ∧
      k₁.ReadyOrdered) hint
    ⟨hsch.queues.frame ⟨fun _ => rfl, rfl, fun _ => .inl rfl, rfl, rfl, rfl⟩,
      ⟨hsch.cpu.status, hsch.cpu.only⟩, rfl, h.of_eq rfl rfl⟩
    fun y k₁ heap top k₂ hI hpop hub => by
      obtain ⟨hq, hready⟩ := hI.1.wake hpop hub
      have hsame := pushReady_setup (threadUnblock_ok hub).2
      have hpopped : Kernel.ReadyOrdered { k₁ with sleepHeap := heap } := hI.2.2.2.of_eq rfl rfl
      exact ⟨hq, hI.2.1.readied hready, hsame.mlfqs.trans hI.2.2.1,
        hpopped.unblock hI.1.ready hub⟩
  obtain ⟨k₂, hplain, hmlfqs, hres, rfl, -⟩ := threadTick_ok htick
  cases hmode : k₁.mlfqs with
  | false =>
    obtain rfl := hplain hmode
    exact hord.of_eq rfl rfl
  | true =>
    -- the running thread is not in the heap, and the others get the priorities of `rescored`
    have hnot : k₁.running ∉ k₁.readyHeap.items := hq.cur_notMem_ready hc
    have hprio : ∀ t ∈ k₁.readyHeap.items, (k₂.threads t).priority =
        if k₁.ticks % 4 = 0 then (rescored k₁ t).priority else (k₁.threads t).priority := by
      intro t ht
      rw [hmlfqs hmode]
      exact mlfqsTick_priority fun heq => hnot (heq ▸ ht)
    have hentry : ∀ t, (k₂.threads t).entryOrd = (k₁.threads t).entryOrd := hres.entryOrd
    have hheap : k₂.readyHeap = k₁.readyHeap := hres.readyHeap
    by_cases hmod : k₁.ticks % 4 = 0
    · have hnew : k₁.NoOvertaking (rescored k₁) :=
        hfit (hm ▸ hmode) rfl (y₁, k₁) (by rw [hwake]; rfl) hmod
      rw [hheap]
      refine (Heap.Ordered.mono hord hnew).congr fun a ha b hb => ?_
      simp only [if_pos hmod] at hprio
      exact cmpThreadPriorityHeap_congr (hprio a ha) ((hentry a).trans (rescored_entryOrd k₁ a).symm)
        (hprio b hb) ((hentry b).trans (rescored_entryOrd k₁ b).symm)
    · simp only [if_neg hmod] at hprio
      exact Kernel.ReadyOrdered.congr hord hheap fun t ht => ⟨hprio t ht, hentry t⟩

/-- `donate_priority`'s store, under the condition. -/
theorem raise_readyOrdered (h : m.kernel.ReadyOrdered) (hraise : raiseFits m .exec) {l : LockId}
    {t : Tid} {dep : ℕ} (hpc : m.curPc = .donateRaise l t dep)
    (hex : Exec m.kernel (m.ctl m.kernel.running) o) : o.kernel.ReadyOrdered := by
  obtain ⟨lw, x, hw, hx, hk⟩ := hex.donateRaise_ok hpc
  have hfit := hraise rfl (x, (m.kernel.threads t).priority) (by
    unfold Machine.donation
    rw [hpc]
    dsimp only
    rw [hw]
    dsimp only
    rw [hx]
    rfl)
  rw [hk]
  exact Heap.Ordered.mono h hfit

/-- **The order after a step**, before the dispatch. -/
theorem readyOrdered_act (hsch : Scheduled m) (h : m.kernel.ReadyOrdered) (hraise : raiseFits m e)
    (hfit : m.kernel.mlfqs = true → rescoreFits m e) (ha : Act m e o) :
    o.kernel.ReadyOrdered := by
  cases ha with
  | call => exact h
  | exec hex =>
    by_cases hpc : ∃ l t dep, m.curPc = .donateRaise l t dep
    · obtain ⟨l, t, dep, hpc⟩ := hpc
      exact raise_readyOrdered h hraise hpc hex
    · exact hex.readyOrdered hsch rfl (fun l t dep heq => hpc ⟨l, t, dep, heq⟩) h
  | @tick y k k' hon hint hy =>
    have hk := tick_readyOrdered hsch h hfit hint
    rcases yieldOnReturn_ok hy with hy | rfl
    · obtain ⟨hq, hc⟩ := hsch.queues.tick hsch.cpu hint
      exact yieldPark_readyOrdered (hq.cur_notMem_ready hc) hk hy
    · exact hk

/-- **One step keeps the order**, if its donation or its recomputation fits. -/
theorem readyOrdered_step (hsch : Scheduled m) (h : m.kernel.ReadyOrdered)
    (hraise : raiseFits m e) (hfit : m.kernel.mlfqs = true → rescoreFits m e)
    (hs : step m e = .ok m') : m'.kernel.ReadyOrdered := by
  obtain ⟨o, ha, ⟨-, rfl⟩ | ⟨k, -, hk, rfl⟩⟩ := step_cases hs
  · exact readyOrdered_act hsch h hraise hfit ha
  · exact (readyOrdered_act hsch h hraise hfit ha).schedule hk

/-- `donate_priority` raises nobody in mlfqs mode. -/
theorem raiseFits_of_mlfqs (hflow : Flow m) (hm : m.kernel.mlfqs = true) : raiseFits m e := by
  intro _ d hd
  unfold Machine.donation at hd
  split at hd
  · next hpc =>
    have hmode := (hflow m.kernel.running).mode
    change m.curPc.inMode _ = true at hmode
    rw [hpc, hm] at hmode
    exact absurd hmode (by simp [Pc.inMode])
  · cases hd

end Step

/-! ### Whole runs -/

/-- **The order over a run** in which nothing overtakes. -/
theorem readyOrdered_of_run {G : Guard Machine Event} {mlfqs : Bool} {v : ℕ → ℕ}
    (hG : ∀ m e, Flow m → m.kernel.mlfqs = mlfqs → G m e →
      raiseFits m e ∧ (m.kernel.mlfqs = true → rescoreFits m e))
    {h : List (Machine × Event)} {m : Machine} (hrun : Run step G (boot mlfqs v) h m) :
    Scheduled m ∧ m.kernel.mlfqs = mlfqs ∧ m.kernel.ReadyOrdered := by
  refine hrun.invariant (I := fun m => Scheduled m ∧ m.kernel.mlfqs = mlfqs ∧
    m.kernel.ReadyOrdered) ⟨.boot mlfqs v, rfl, ?_⟩ ?_
  · -- one element at most: there is no pair to be out of order
    intro i h2 hn
    exact absurd (le_trans h2 hn) (by simp [boot, heapInit])
  · rintro m e m' ⟨hsch, hm, hord⟩ hg hs
    obtain ⟨hraise, hfit⟩ := hG m e hsch.flow hm hg
    exact ⟨hsch.step hs, (step_mlfqs hs).trans hm, readyOrdered_step hsch hord hraise hfit hs⟩

/-- **Priority mode.** If no donation lets a ready thread overtake another, the ready heap is in
order in every state of the run, with a timer interrupt wherever interrupts are on, and an
interrupt that switches threads dispatches one of the highest priority. -/
theorem readyHeap_ordered_of_raiseFits {v : ℕ → ℕ} {h : List (Machine × Event)} {m : Machine}
    (hrun : Run step raiseFits (boot false v) h m) :
    m.kernel.ReadyOrdered ∧
      ∀ o, act m .tick = .ok o → o.switch = true → DispatchesMax o.kernel := by
  obtain ⟨hsch, hm, hord⟩ := readyOrdered_of_run
    (fun m e _ hm hg => ⟨hg, fun ht => absurd (hm.symm.trans ht) (by simp)⟩) hrun
  refine ⟨hord, fun o ho _ => dispatchesMax_of_ordered ?_⟩
  exact readyOrdered_act hsch hord (fun he => absurd he (by simp))
    (fun ht => absurd (hm.symm.trans ht) (by simp)) (act_ok ho)

/-- Thread 2, of priority 50, donates to the main thread, which is ready and ahead of thread 3. -/
theorem readyHeap_ordered_of_raiseFits_run : ∃ h m,
    Run step raiseFits (boot false fun _ => 0) h m ∧ m.curPc = .donateNext 5 2 0 ∧
      m.kernel.readyHeap.size = 2 ∧ (m.kernel.threads 0).priority = 50 ∧
      m.kernel.ReadyOrdered := by
  obtain ⟨h, m, hrun, hp⟩ := exists_run raiseFits (fun m e => decide (raiseFits m e))
    (fun _ _ => of_decide_eq_true) false (fun _ => 0)
    (Call.run (.threadCreate 50 true) 30 ++ Call.run (.timerSleep 1) 1 ++
      Call.run (.lockAcquire 5) 5 ++ Call.run (.threadCreate 20 true) 31 ++ [.tick, .exec] ++
      Call.run (.lockAcquire 5) 10)
    (fun _ m => decide (m.curPc = .donateNext 5 2 0 ∧ m.kernel.readyHeap.size = 2 ∧
      (m.kernel.threads 0).priority = 50)) (by decide +kernel)
  obtain ⟨hpc, hsize, hprio⟩ := of_decide_eq_true hp
  exact ⟨h, m, hrun, hpc, hsize, hprio, (readyHeap_ordered_of_raiseFits hrun).1⟩

/-- **A donation breaks the order.** Thread 2, of priority 50, donates to the main thread, which
stands in the ready heap below a thread of priority 31; interrupts are on. -/
theorem readyHeap_unordered_by_donation : ∃ h m,
    Run step preemptive (boot false fun _ => 0) h m ∧ m.interruptsOn = true ∧
      ¬ m.kernel.ReadyOrdered := by
  obtain ⟨h, m, hrun, hp⟩ := exists_run preemptive (fun _ _ => true) (fun _ _ _ => trivial)
    false (fun _ => 0)
    (Call.run (.threadCreate 50 true) 30 ++ Call.run (.timerSleep 1) 1 ++
      Call.run (.lockAcquire 5) 5 ++ Call.run (.threadCreate 31 true) 31 ++ [.tick, .exec] ++
      Call.run (.lockAcquire 5) 10)
    (fun _ m => decide (m.interruptsOn = true ∧ ¬ m.kernel.ReadyOrdered)) (by decide +kernel)
  obtain ⟨hon, hord⟩ := of_decide_eq_true hp
  exact ⟨h, m, hrun, hon, hord⟩

/-- **Mlfqs mode.** If no recomputation of the priorities lets a ready thread overtake another,
every dispatch of the run is of a thread of the highest priority. -/
theorem mlfqs_dispatchesMax_of_rescoreFits {v : ℕ → ℕ} {h : List (Machine × Event)} {m : Machine}
    {e : Event} {o : Outcome} (hrun : Run step rescoreFits (boot true v) h m)
    (hfit : rescoreFits m e) (hact : act m e = .ok o) (_hswitch : o.switch = true) :
    DispatchesMax o.kernel := by
  obtain ⟨hsch, hm, hord⟩ := readyOrdered_of_run
    (fun m e hflow hm hg => ⟨raiseFits_of_mlfqs hflow hm, fun _ => hg⟩) hrun
  exact dispatchesMax_of_ordered
    (readyOrdered_act hsch hord (raiseFits_of_mlfqs hsch.flow hm) (fun _ => hfit) (act_ok hact))

/-- Two threads are ready when the fourth tick takes the CPU from the main thread; it gives both
of them priority 63. -/
theorem mlfqs_dispatchesMax_of_rescoreFits_run : ∃ h m o,
    Run step rescoreFits (boot true fun _ => 0) h m ∧ act m .tick = .ok o ∧ o.switch = true ∧
      o.kernel.readyHeap.size = 3 ∧ DispatchesMax o.kernel := by
  obtain ⟨h, m, o, hrun, ho, hp⟩ := exists_run_then rescoreFits
    (fun m e => decide (rescoreFits m e)) (fun _ _ => of_decide_eq_true) true (fun _ => 0)
    (Call.run (.threadCreate 20 true) 40 ++ Call.run (.threadCreate 10 true) 40 ++
      [.tick, .tick, .tick]) (act · .tick)
    (fun m o => decide (rescoreFits m .tick ∧ o.switch = true ∧ o.kernel.readyHeap.size = 3))
    (by decide +kernel)
  obtain ⟨hfit, hswitch, hsize⟩ := of_decide_eq_true hp
  exact ⟨h, m, o, hrun, ho, hswitch, hsize,
    mlfqs_dispatchesMax_of_rescoreFits hrun hfit ho hswitch⟩

/-- **A recomputation breaks the order.** Thread 2 has `nice` 20 and thread 3, created with
priority 0, stands below it in the ready heap. The fourth tick gives thread 3 priority 63 where
it stands, and the main thread, with priority 62, is dispatched before it. -/
theorem mlfqs_dispatches_lower : ∃ h m o,
    Run step uninterrupted (boot true fun _ => 0) h m ∧ act m .tick = .ok o ∧ o.switch = true ∧
      ¬ DispatchesMax o.kernel := by
  obtain ⟨h, m, o, hrun, ho, hp⟩ := exists_run_then uninterrupted
    (fun m e => decide (uninterrupted m e)) (fun _ _ => of_decide_eq_true) true (fun _ => 0)
    (Call.run (.threadCreate 63 true) 40 ++ Call.run .threadYield 1 ++
      Call.run (.threadSetNice 20) 7 ++ Call.run (.threadCreate 0 true) 40 ++
      [.tick, .tick, .tick]) (act · .tick)
    (fun _ o => decide (o.switch = true ∧ o.kernel.readyHeap.size ≠ 0 ∧
      3 ∈ o.kernel.readyHeap.items) && (nextThreadToRun o.kernel).toOption.any fun r =>
        decide ((o.kernel.threads r.1).priority < (o.kernel.threads 3).priority))
    (by decide +kernel)
  obtain ⟨hstate, hnext⟩ := Bool.and_eq_true_iff.mp hp
  obtain ⟨hswitch, hsize, hmem⟩ := of_decide_eq_true hstate
  refine ⟨h, m, o, hrun, ho, hswitch, fun hmax => ?_⟩
  cases hr : nextThreadToRun o.kernel with
  | error f =>
    rw [hr] at hnext
    exact absurd hnext (by simp [Except.toOption])
  | ok r =>
    rw [hr] at hnext
    exact absurd (hmax r.1 r.2 hsize hr 3 hmem) (not_le.mpr (of_decide_eq_true hnext))

end Pintos
