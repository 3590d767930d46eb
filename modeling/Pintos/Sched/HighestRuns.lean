import Pintos.Sched.ReadyOrder
import Pintos.Sync.Ownership
import Pintos.Donation.Stake

/-!
# The highest priority runs

In priority mode and with uninterrupted calls, the running thread has at least the priority of
every ready one whenever it is outside the kernel. Inside a call this is given up and restored:
a thread is readied before the test that yields to it, the running thread is lowered before it
yields, and `donate_priority` leaves the ready heap out of order until `sort_ready_heap`.
`Pc.Topmost` says, program point by program point, what is left of it and what the code ahead
relies on:

* at the points of a donation nothing but that the lock's semaphore is still taken, so that the
  thread is going to block in `sema_down`, after the heap has been sorted;
* at the points that lead to a yield the order of the ready heap, which the dispatch needs;
* in `thread_set_priority` that no ready thread is above the old priority, and after the new
  thread is readied in `thread_create` that none is above both it and the running thread.

The last one needs that a thread under construction keeps the priority it was created with,
while its creator may block in `allocate_tid` (`Newborns`).
-/

namespace Pintos

open Transition LockTable Function

/-! ### Bounds on the ready threads -/

/-- No ready thread has a priority above `b`. -/
def Kernel.Under (k : Kernel) (b : ℤ) : Prop :=
  ∀ t ∈ k.readyHeap.items, (k.threads t).priority ≤ b

section Under

variable {k k' : Kernel} {t : Tid} {x : Thread} {b : ℤ}

theorem Kernel.Under.mono {b' : ℤ} (h : k.Under b) (hb : b ≤ b') : k.Under b' :=
  fun t ht => (h t ht).trans hb

/-- Writing into a thread that is not ready, or not into its priority. -/
theorem Kernel.Under.setThread (h : k.Under b)
    (hx : t ∉ k.readyHeap.items ∨ x.priority = (k.threads t).priority) :
    (k.setThread t x).Under b := by
  intro u hu
  change (update k.threads t x u).priority ≤ b
  rcases hx with hnot | hsame
  · have hut : u ≠ t := fun heq => hnot (heq ▸ hu)
    rw [update_of_ne hut]
    exact h u hu
  · rw [apply_update_same Thread.priority hsame u]
    exact h u hu

/-- Readying a thread that is not above the bound. -/
theorem Kernel.Under.unblock (h : k.Under b) (ht : (k.threads t).priority ≤ b)
    (hub : threadUnblock k t = .ok k') : k'.Under b := by
  have hpush := (threadUnblock_ok hub).2
  have hprio := (StakeFrame.pushReady hpush).priority
  obtain ⟨ord, heap, rfl, hitems, -⟩ := pushReady_ok hpush
  intro u hu
  rw [hprio u]
  rw [hitems] at hu
  rcases Multiset.mem_cons.mp hu with rfl | hu
  · exact ht
  · exact h u hu

/-- The dispatched thread is not below any that stays. -/
theorem under_of_schedule (hord : k.ReadyOrdered) (hs : schedule k = .ok k') :
    k'.Under k'.cur.priority := by
  have hprio : ∀ u, (k'.threads u).priority = (k.threads u).priority := by
    intro u
    obtain ⟨st, hst⟩ := (dispatched_of_schedule hs).threads u
    rw [hst]
  intro u hu
  rw [hprio u]
  change _ ≤ (k'.threads k'.running).priority
  rw [hprio]
  obtain ⟨next, heap, freed, rfl, hcase⟩ := schedule_ok hs
  rcases hcase with ⟨hempty, -, rfl⟩ | hpop
  · rw [Heap.items_eq_zero_of_size hempty] at hu
    exact absurd hu (Multiset.notMem_zero u)
  · obtain ⟨-, hitems, -, hmax⟩ := heapPop_ok hpop
    refine priority_le_of_not_cmp ((hmax inferInstance hord).2 u ?_)
    rw [hitems]
    exact Multiset.mem_cons_of_mem hu

end Under

/-! ### Threads under construction -/

def Updater.newborn : Updater → Option (ℤ × Tid)
  | .create p t => some (p, t)
  | _ => none

/-- The thread that the code at this point has initialized and not yet readied, with the priority
it was given. -/
def Pc.newborn : Pc → Option (ℤ × Tid)
  | .createTid p t | .createMlfqs p t | .createUnblock p t => some (p, t)
  | .updatePriority u | .updateScan u _ _ _ | .updateStore u _ | .updateMax u | .updateCpu u
  | .updateNice u | .updateClamp u => u.newborn
  | _ => none

def Frame.newborn : Frame → Option (ℤ × Tid)
  | .createTid p t | .createMlfqs p t => some (p, t)
  | _ => none

def Control.newborn (c : Control) : Option (ℤ × Tid) :=
  c.pc.newborn.or (c.stack.findSome? Frame.newborn)

/-- A thread keeps the priority it is created with until it is readied. -/
def Newborns (m : Machine) : Prop :=
  ∀ u p t, (m.ctl u).newborn = some (p, t) → (m.kernel.threads t).priority = p

theorem newborn_ret (t : Tid) (st : List Frame) :
    (ret t st).newborn = st.findSome? Frame.newborn := by
  cases st with
  | nil => rfl
  | cons f st => cases f <;> rfl

theorem afterDown_newborn (t : Tid) (s : SemaRef) (st : List Frame) :
    (afterDown t s st).newborn = st.findSome? Frame.newborn := by
  cases s with
  | lock l => rfl
  | sema n => exact newborn_ret t st
  | waiter w => exact newborn_ret t st

theorem Updater.next_newborn (u : Updater) : u.next.newborn = u.newborn := by
  cases u <;> rfl

/-- `thread_create` is not called from inside the kernel. -/
theorem Pc.outermost_of_embryo {pc : Pc} {u : Tid} {st : List Frame}
    (h : pc.enclosed u st = true) : pc.embryo = none ∨ st = [] := by
  have hupdater : ∀ v : Updater, v.enclosed st = true → v.embryo = none ∨ st = [] := by
    intro v hv
    cases v with
    | create p t => exact .inr (stack_nil_of_isEmpty hv)
    | _ => exact .inl rfl
  unfold Pc.enclosed at h
  split at h
  all_goals first
    | exact .inl rfl
    | exact hupdater _ h
    | exact .inr (stack_nil_of_isEmpty h)

theorem Pc.embryo_of_newborn {pc : Pc} {p : ℤ} {t : Tid} (h : pc.newborn = some (p, t)) :
    pc.embryo = some t := by
  have hupdater : ∀ v : Updater, v.newborn = some (p, t) → v.embryo = some t := by
    intro v hv
    cases v with
    | create p t =>
      cases hv
      rfl
    | _ => exact absurd hv (by simp [Updater.newborn])
  cases pc with
  | createTid | createMlfqs | createUnblock =>
    cases h
    rfl
  | updatePriority | updateScan | updateStore | updateMax | updateCpu | updateNice | updateClamp =>
    exact hupdater _ h
  | _ => exact absurd h (by simp [Pc.newborn])

theorem Control.Shaped.embryo_of_newborn {mlfqs : Bool} {c : Control} {u t : Tid} {p : ℤ}
    (h : c.Shaped mlfqs u) (hn : c.newborn = some (p, t)) : c.embryo = some t := by
  obtain ⟨pc, st⟩ := c
  rcases Option.or_eq_some_iff.mp hn with hpc | ⟨hpc, hst⟩
  · change (pc.embryo <|> _) = _
    rw [Pc.embryo_of_newborn hpc]
    rfl
  · rcases Pc.outermost_of_embryo h.enclosed with hnone | hnil
    · rw [Control.embryo_of_pc hnone]
      match st, h.length_le with
      | [], _ => cases hst
      | [f], _ =>
        cases f with
        | createTid | createMlfqs =>
          cases hst
          rfl
        | _ => exact absurd hst (by simp [Frame.newborn])
    · rw [hnil] at hst
      cases hst

theorem Silent.newborn {k : Kernel} {c c' : Control} (h : Silent k c c') :
    c'.newborn = c.newborn := by
  cases h with
  | createFail => exact newborn_ret _ _
  | _ => first | rfl | exact newborn_ret _ _

/-- What a move can do to the thread under construction: nothing, initialize it, or ready it. -/
theorem Exec.newborn_eq {k : Kernel} {c : Control} {o : Outcome} (hex : Exec k c o)
    (hshape : c.Shaped k.mlfqs k.running) : o.ctl.newborn = c.newborn ∨
      (∃ p t, c = ⟨.createInit p (some t), []⟩ ∧ o.ctl.newborn = some (p, t)) ∨
      ∃ p t, c = ⟨.createUnblock p t, []⟩ ∧ o.ctl = ⟨.createTest p, []⟩ := by
  cases hex with
  | silent hs => exact .inl hs.newborn
  | @downBlock pc s st hpc =>
    left
    rcases hpc with rfl | rfl <;> rfl
  | @downTake pc s st hpc =>
    left
    rw [afterDown_newborn]
    rcases hpc with rfl | rfl <;> rfl
  | @updateStore u q st =>
    exact .inl (congrArg (Option.or · (st.findSome? Frame.newborn)) u.next_newborn)
  | @updateMlfqs pc pc' q st hst =>
    left
    cases hst with
    | @clamp u => exact congrArg (Option.or · (st.findSome? Frame.newborn)) u.next_newborn
    | _ => rfl
  | @createInit p t =>
    obtain rfl := stack_nil_of_isEmpty hshape.enclosed
    exact .inr (.inl ⟨p, t, rfl, rfl⟩)
  | @createUnblock p t =>
    obtain rfl := stack_nil_of_isEmpty hshape.enclosed
    exact .inr (.inr ⟨p, t, rfl, rfl⟩)
  | exit =>
    obtain rfl := stack_nil_of_isEmpty hshape.enclosed
    exact .inl rfl
  | _ => first | exact .inl rfl | exact .inl (newborn_ret _ _)

theorem Exec.newborn {k : Kernel} {c : Control} {o : Outcome} (hex : Exec k c o)
    (hshape : c.Shaped k.mlfqs k.running) {p : ℤ} {t : Tid} (hn : o.ctl.newborn = some (p, t)) :
    c.newborn = some (p, t) ∨ c = ⟨.createInit p (some t), []⟩ := by
  rcases hex.newborn_eq hshape with heq | ⟨q, u, hc, hq⟩ | ⟨q, u, -, hc⟩
  · exact .inl (heq ▸ hn)
  · obtain ⟨rfl, rfl⟩ := Prod.mk.inj (Option.some.inj (hq.symm.trans hn))
    exact .inr hc
  · rw [hc] at hn
    exact absurd hn (by simp [Control.newborn, Pc.newborn])

/-- **Who changes a priority**: its own thread, a donation to the holder of a lock, and
`init_thread`. -/
theorem Exec.priority {k : Kernel} {c : Control} {o : Outcome} (hex : Exec k c o) (t : Tid) :
    (o.kernel.threads t).priority = (k.threads t).priority ∨ t = k.running ∨
      (∃ l, (k.locks l).holder = some t) ∨ ∃ p st, c = ⟨.createInit p (some t), st⟩ := by
  have hset : ∀ (u : Tid) (x : Thread), t = u ∨
      (update k.threads u x t).priority = (k.threads t).priority := by
    intro u x
    by_cases ht : t = u
    · exact .inl ht
    · refine .inr ?_
      rw [update_of_ne ht]
  have hcur : ∀ x : Thread, (update k.threads k.running x t).priority
      = (k.threads t).priority ∨ t = k.running ∨ (∃ l, (k.locks l).holder = some t) ∨
        ∃ p st, c = ⟨.createInit p (some t), st⟩ := fun x =>
    (hset k.running x).elim (fun ht => .inr (.inl ht)) .inl
  cases hex with
  | @donateRaise l t' dep lw h st hw hh =>
    rcases hset h { k.threads h with priority := (k.threads t').priority } with rfl | hsame
    · exact .inr (.inr (.inl ⟨lw, hh⟩))
    · exact .inl hsame
  | yield hy => exact .inl ((StakeFrame.yieldPark hy).priority t)
  | upWake _ _ hub | createUnblock hub =>
    exact .inl ((StakeFrame.pushReady (threadUnblock_ok hub).2).priority t)
  | @createInit p u st k' hi =>
    obtain ⟨-, rfl⟩ := initThread_ok hi
    rcases hset u (freshThread .blocked p) with rfl | hsame
    · exact .inr (.inr (.inr ⟨p, st, rfl⟩))
    · exact .inl hsame
  | @createMlfqs p u nice cpu st =>
    refine .inl (apply_update_same Thread.priority ?_ t)
    rfl
  | sleep _ hs =>
    obtain ⟨heap, rfl, -⟩ := sleepPark_ok hs
    exact hcur _
  | _ => first | exact .inl rfl | exact hcur _

/-- A timer interrupt in priority mode changes no priority, and if it asks for no yield, nobody
it has woken is above the running thread. -/
theorem timerInterrupt_under {k k' : Kernel} {y : Bool} (hm : k.mlfqs = false)
    (h : timerInterrupt k = .ok (y, k')) :
    (∀ t, (k'.threads t).priority = (k.threads t).priority) ∧
      (k.Under k.cur.priority → y = false → k'.Under k.cur.priority) := by
  obtain ⟨y₁, k₁, -, ⟨hm₁, hr, hprio, hunder⟩, htick⟩ := timerInterrupt_ok
    (I := fun y k₁ => k₁.mlfqs = false ∧ k₁.running = k.running ∧
      (∀ t, (k₁.threads t).priority = (k.threads t).priority) ∧
      (k.Under k.cur.priority → y = false → k₁.Under k.cur.priority)) h
    ⟨hm, rfl, fun _ => rfl, fun hu _ => hu⟩
    fun y k₁ heap top k₂ hI _ hub => by
      obtain ⟨hm₁, hr, hprio, hunder⟩ := hI
      have hpush := (threadUnblock_ok hub).2
      have hsame := pushReady_setup hpush
      have hprio₂ : ∀ t, (k₂.threads t).priority = (k.threads t).priority := fun t =>
        ((StakeFrame.pushReady hpush).priority t).trans (hprio t)
      refine ⟨hsame.mlfqs.trans hm₁, hsame.running.trans hr, hprio₂, fun hu hy => ?_⟩
      obtain ⟨hy₁, htop⟩ := Bool.or_eq_false_iff.mp hy
      have hle : (k.threads top).priority ≤ k.cur.priority := by
        have hnot := not_lt.mp (of_decide_eq_false htop)
        change (k₂.threads top).priority ≤ (k₂.threads k₂.running).priority at hnot
        rw [hprio₂, hprio₂, show k₂.running = k.running from hsame.running.trans hr] at hnot
        exact hnot
      have hpopped : Kernel.Under { k₁ with sleepHeap := heap } k.cur.priority := hunder hu hy₁
      exact hpopped.unblock ((hprio top).trans_le hle) hub
  obtain ⟨k₂, hplain, -, -, rfl, hy⟩ := threadTick_ok htick
  obtain rfl := hplain hm₁
  refine ⟨hprio, fun hu hyf => hunder hu ?_⟩
  rw [hy] at hyf
  exact (Bool.or_eq_false_iff.mp hyf).1

section Newborns

variable {m m' : Machine} {e : Event} {o : Outcome}

/-- The thread that `u` constructs keeps its priority. -/
theorem Act.newborn_priority (ha : Act m e o) (hsch : Scheduled m) (hlock : Locked m)
    (hm : e = .tick → m.kernel.mlfqs = false) {u : Tid} {p : ℤ} {t : Tid}
    (h : (m.ctl u).newborn = some (p, t) → (m.kernel.threads t).priority = p)
    (hn : ((m.settle o).ctl u).newborn = some (p, t)) : (o.kernel.threads t).priority = p := by
  change (update m.ctl m.kernel.running o.ctl u).newborn = some (p, t) at hn
  -- only the thread that constructs it can write into a thread under construction
  have hkeep : ∀ u, (m.ctl u).embryo = some t →
      (∀ p st, m.ctl m.kernel.running ≠ ⟨.createInit p (some t), st⟩) →
      (o.kernel.threads t).priority = (m.kernel.threads t).priority := by
    intro u hemb hinit
    cases ha with
    | call => rfl
    | exec hex =>
      rcases hex.priority t with hsame | rfl | ⟨l, hl⟩ | ⟨p, st, hc⟩
      · exact hsame
      · have hst := (hsch.queues.embryo u _ hemb).2.2
        exact absurd (hsch.cpu.status.symm.trans hst) (by simp)
      · exact absurd hl (hlock.holder_ne_embryo hsch hemb l)
      · exact absurd hc (hinit p st)
    | tick hon hint hy =>
      exact (Act.stakeFrame (hm rfl) (.tick hon hint hy) (by simp)).priority t
  by_cases hu : u = m.kernel.running
  · subst hu
    rw [update_self] at hn
    have hmove : (m.ctl m.kernel.running).newborn = some (p, t) ∨
        m.ctl m.kernel.running = ⟨.createInit p (some t), []⟩ := by
      cases ha with
      | @call c hpc =>
        change (Option.or c.entry.newborn _) = _ at hn
        rw [hsch.flow.stack_of_user hpc] at hn
        exact absurd hn (by cases c <;> simp [Call.entry, Pc.newborn])
      | exec hex => exact hex.newborn (hsch.flow _) hn
      | tick => exact .inl hn
    rcases hmove with hold | hinit
    · refine (hkeep _ ((hsch.flow _).embryo_of_newborn hold) fun q st heq => ?_).trans (h hold)
      have henc := (hsch.flow m.kernel.running).enclosed
      rw [heq] at hold henc
      obtain rfl := stack_nil_of_isEmpty henc
      exact absurd hold (by simp [Control.newborn, Pc.newborn])
    · cases ha with
      | call hpc =>
        unfold Machine.curPc Machine.pc at hpc
        rw [hinit] at hpc
        cases hpc
      | exec hex =>
        rw [hinit] at hex
        cases hex with
        | silent hs => nomatch hs
        | downBlock hpc | downTake hpc => rcases hpc with hpc | hpc <;> cases hpc
        | updateMlfqs hst => nomatch hst
        | createInit hi =>
          obtain ⟨-, rfl⟩ := initThread_ok hi
          simp [Kernel.setThread, freshThread]
      | tick =>
        rw [hinit] at hn
        exact absurd hn (by simp [Control.newborn, Pc.newborn])
  · rw [update_of_ne hu] at hn
    have hemb := (hsch.flow u).embryo_of_newborn hn
    refine (hkeep u hemb fun q st heq => ?_).trans (h hn)
    refine hu (hsch.queues.embryo_unique u _ t hemb ?_)
    rw [heq]
    rfl

theorem Newborns.act (h : Newborns m) (hsch : Scheduled m) (hlock : Locked m)
    (hm : m.kernel.mlfqs = false) (ha : Act m e o) : Newborns (m.settle o) :=
  fun u p t hn => ha.newborn_priority hsch hlock (fun _ => hm) (h u p t) hn

theorem Newborns.step (h : Newborns m) (hsch : Scheduled m) (hlock : Locked m)
    (hm : m.kernel.mlfqs = false) (hs : Pintos.step m e = .ok m') : Newborns m' := by
  obtain ⟨o, ha, hctl, hd⟩ := step_act hs
  intro u p t hn
  rw [hctl] at hn
  obtain ⟨st, hst⟩ := hd.threads t
  rw [hst]
  exact h.act hsch hlock hm ha u p t hn

end Newborns

/-! ### Program point by program point -/

/-- What holds when the running thread is at a program point. -/
def Pc.Topmost (k : Kernel) : Pc → Prop
  -- the running thread is going to block: its lock is taken
  | .setWaiting l => k.ReadyOrdered ∧ (k.semas (.lock l)).value = 0
  | .donate l _ _ | .donateTest l _ _ | .donateAssert l _ _ | .donateStore l _ _
  | .donateCompare l _ _ | .donateRaise l _ _ | .donateNext l _ _ | .sortHeap l =>
    (k.semas (.lock l)).value = 0
  | .semaDown (.lock l) => k.ReadyOrdered ∧ (k.semas (.lock l)).value = 0
  -- it is going to yield
  | .updatePriority _ | .updateScan _ _ _ _ | .updateStore _ _ | .updateMax _ | .updateCpu _
  | .updateNice _ | .updateClamp _ | .semaUp _ | .yield => k.ReadyOrdered
  -- it is going to yield if its priority turns out to be below this
  | .setOrigin _ old | .setTest _ old | .setStore _ old | .setYield old =>
    k.ReadyOrdered ∧ k.Under old
  | .createTest p => k.ReadyOrdered ∧ k.Under (max p k.cur.priority)
  | _ => k.ReadyOrdered ∧ k.Under k.cur.priority

theorem ret_topmost {k : Kernel} (t : Tid) (st : List Frame)
    (h : k.ReadyOrdered ∧ k.Under k.cur.priority) : (ret t st).pc.Topmost k := by
  cases st with
  | nil => exact h
  | cons f st => cases f <;> exact h

/-- Where a thread may be resumed, the running thread is the highest and nothing else is
owed. -/
theorem topmost_of_resumable {k : Kernel} {pc : Pc} (hpc : pc.resumable = true)
    (h : k.ReadyOrdered ∧ k.Under k.cur.priority) : pc.Topmost k := by
  cases pc with
  | semaDown s =>
    cases s with
    | waiter => exact h
    | _ => exact absurd hpc (by simp [Pc.resumable])
  | _ => first | exact h | exact absurd hpc (by simp [Pc.resumable])

section Code

variable {m m' : Machine} {e : Event} {c : Control} {o : Outcome}

/-- What the running thread's code leaves for the dispatch, or for its next program point. -/
def LeftTopmost (o : Outcome) : Prop :=
  (o.switch = true → o.kernel.ReadyOrdered) ∧ (o.switch = false → o.ctl.pc.Topmost o.kernel)

theorem LeftTopmost.stay {k : Kernel} (h : c.pc.Topmost k) : LeftTopmost ⟨k, c, false⟩ :=
  ⟨fun hs => absurd hs (by simp), fun _ => h⟩

theorem LeftTopmost.leave {k : Kernel} (h : k.ReadyOrdered) : LeftTopmost ⟨k, c, true⟩ :=
  ⟨fun _ => h, fun hs => absurd hs (by simp)⟩

theorem Silent.topmost {k : Kernel} {c' : Control} (hs : Silent k c c') (h : c.pc.Topmost k) :
    c'.pc.Topmost k := by
  cases hs with
  | tryFail hv => exact ⟨h.1, hv⟩
  | releaseAssert | setPriority => exact h
  | setLower | createYield => exact h.1
  | setDone hle => exact ret_topmost _ _ ⟨h.1, h.2.mono hle⟩
  | createDone hle => exact ret_topmost _ _ ⟨h.1, h.2.mono (max_le hle le_rfl)⟩
  | _ => first | exact h | exact ret_topmost _ _ h

theorem Exec.topmost (hsch : Scheduled m) (hnew : Newborns m) (hm : m.kernel.mlfqs = false)
    (hctl : m.ctl m.kernel.running = c) (hex : Exec m.kernel c o) (h : c.pc.Topmost m.kernel) :
    LeftTopmost o := by
  have hcur : m.kernel.running ∉ m.kernel.readyHeap.items := hsch.queues.cur_notMem_ready hsch.cpu
  have hmode : c.pc.inMode false = true := by
    have hshape := (hsch.flow m.kernel.running).mode
    rwa [hctl, hm] at hshape
  -- the order, at every point but those of a donation
  have hord : (∀ l t dep, c.pc ≠ .donateRaise l t dep) → m.kernel.ReadyOrdered →
      o.kernel.ReadyOrdered := fun hraise => hex.readyOrdered hsch hctl hraise
  have hself : ∀ x : Thread, x.priority = m.kernel.cur.priority →
      m.kernel.ReadyOrdered ∧ m.kernel.Under m.kernel.cur.priority →
      (m.kernel.setThread m.kernel.running x).ReadyOrdered ∧
        (m.kernel.setThread m.kernel.running x).Under
          (m.kernel.setThread m.kernel.running x).cur.priority := by
    intro x hx hh
    refine ⟨hh.1.setThread (.inl hcur), ?_⟩
    have hp : (m.kernel.setThread m.kernel.running x).cur.priority = m.kernel.cur.priority := by
      simp only [Kernel.cur, Kernel.setThread, update_self]
      exact hx
    rw [hp]
    exact hh.2.setThread (.inl hcur)
  cases hex with
  | silent hs => exact .stay (hs.topmost h)
  | idle => exact .leave (hord (by simp) h.1)
  | @downBlock pc s st hpc hv =>
    refine .leave (hord ?_ ?_)
    · rcases hpc with rfl | rfl <;> simp
    · rcases hpc with rfl | rfl
      · cases s <;> exact h.1
      · exact h.1
  | @downTake pc s st hpc hv =>
    rcases hpc with rfl | rfl
    · cases s with
      | lock l =>
        rw [h.2] at hv
        exact absurd hv (lt_irrefl 0)
      | sema | waiter => exact .stay (ret_topmost _ _ h)
    · cases s with
      | lock l => exact .stay h
      | sema | waiter => exact .stay (ret_topmost _ _ h)
  | tryDown => exact .stay (ret_topmost _ _ h)
  | upNone | upWake => exact .stay (hord (by simp) h)
  | yield => exact .leave (hord (by simp) h)
  | tryTake | setHolder => exact .stay h
  | pushHolding => exact .stay (ret_topmost _ _ (hself _ rfl h))
  | setWaiting => exact .stay h.2
  | donateStore | donateRaise => exact .stay h
  | sortHeap => exact .stay ⟨heapRebuild_ordered _, h⟩
  | acquired => exact .stay (ret_topmost _ _ (hself _ rfl h))
  | releaseClear => exact .stay (hord (by simp) h.1)
  | @updateStore u p st =>
    have hk := hord (by simp) h
    cases u with
    | release l => exact .stay hk
    | nice => exact .stay hk
    | create p t => exact absurd hmode (by simp [Pc.inMode, Updater.inMode])
  | updateMlfqs hst => cases hst <;> exact absurd hmode (by simp [Pc.inMode])
  | waitPush => exact .stay h
  | signalRemove => exact .stay (hord (by simp) h.1)
  | setOrigin => exact .stay ⟨hord (by simp) h.1, h.2.setThread (.inl hcur)⟩
  | setStore => exact .stay ⟨hord (by simp) h.1, h.2.setThread (.inl hcur)⟩
  | setNice => exact .stay (hord (by simp) h.1)
  | createPage => exact .stay h
  | @createInit p t st k' hi =>
    -- the new thread is not ready yet, and is not the running one
    have hblocked := (hsch.queues.embryo _ t (by rw [hctl]; rfl)).2.2
    have hnot : t ∉ m.kernel.readyHeap.items := fun hmem =>
      absurd ((hsch.queues.ready t hmem).symm.trans hblocked) (by simp)
    have hne : m.kernel.running ≠ t := (Queues.cur_ne_of_status hsch.cpu (by rw [hblocked]; simp)).symm
    have hk := hord (by simp) h.1
    obtain ⟨-, rfl⟩ := initThread_ok hi
    refine .stay ⟨hk, ?_⟩
    have hunder : (m.kernel.setThread t (freshThread .blocked p)).Under m.kernel.cur.priority :=
      h.2.setThread (.inl hnot)
    have hp : (m.kernel.setThread t (freshThread .blocked p)).cur = m.kernel.cur :=
      update_of_ne hne ..
    rw [← hp] at hunder
    exact hunder
  | createMlfqs hmlfqs => rw [hm] at hmlfqs; cases hmlfqs
  | @createUnblock p t st k' hub =>
    have hp : (m.kernel.threads t).priority = p := hnew m.kernel.running p t (by rw [hctl]; rfl)
    have hcur' : k'.cur.priority = m.kernel.cur.priority := by
      have hpush := (threadUnblock_ok hub).2
      change (k'.threads k'.running).priority = _
      rw [(pushReady_setup hpush).running]
      exact (StakeFrame.pushReady hpush).priority _
    refine .stay ⟨hord (by simp) h.1, ?_⟩
    rw [hcur']
    exact (h.2.mono (le_max_right p _)).unblock (hp.trans_le (le_max_left _ _)) hub
  | exit | sleep => exact .leave (hord (by simp) h.1)

/-- What a timer interrupt between calls leaves. -/
theorem tick_topmost (hsch : Scheduled m) (hm : m.kernel.mlfqs = false)
    (h : m.kernel.ReadyOrdered ∧ m.kernel.Under m.kernel.cur.priority)
    (hpc : m.curPc.resumable = true) (ha : Act m .tick o) : LeftTopmost o := by
  have hord := readyOrdered_act hsch h.1 (fun he => absurd he (by simp))
    (fun hmlfqs => absurd (hm.symm.trans hmlfqs) (by simp)) ha
  cases ha with
  | @tick y k k' _ hint hy =>
    refine ⟨fun _ => hord, fun hsw => topmost_of_resumable hpc ⟨hord, ?_⟩⟩
    obtain rfl : y = false := hsw
    cases hy
    obtain ⟨hprio, hunder⟩ := timerInterrupt_under hm hint
    change k.Under (k.threads k.running).priority
    rw [(timerInterrupt_setup hint).running, hprio]
    exact hunder h.2 rfl

theorem Act.topmost (hsch : Scheduled m) (hnew : Newborns m) (hm : m.kernel.mlfqs = false)
    (hu : uninterrupted m e) (h : m.curPc.Topmost m.kernel) (ha : Act m e o) :
    LeftTopmost o := by
  cases e with
  | call c =>
    cases ha with
    | call hpc =>
      rw [hpc] at h
      cases c with
      | semaUp | threadYield => exact .stay h.1
      | _ => exact .stay h
  | exec =>
    cases ha with
    | exec hex => exact hex.topmost hsch hnew hm rfl h
  | tick =>
    rcases hu rfl with hpc | hpc <;>
    · rw [hpc] at h
      exact tick_topmost hsch hm h (by rw [hpc]; rfl) ha

end Code

/-! ### Whole runs -/

/-- What holds in every uninterrupted run in priority mode. -/
structure Calm (m : Machine) : Prop extends Serial m where
  newborns : Newborns m
  topmost : m.curPc.Topmost m.kernel

theorem Calm.boot (v : ℕ → ℕ) : Calm (boot false v) where
  toSerial := .boot v
  newborns u p t hn := by
    unfold Pintos.boot at hn
    dsimp only at hn
    split at hn <;> exact absurd hn (by simp [Control.newborn, Pc.newborn])
  topmost := by
    have hempty : (Pintos.boot false v).kernel.readyHeap.items = 0 :=
      Heap.items_eq_zero_of_size rfl
    refine ⟨fun i h2 hn => absurd (le_trans h2 hn) (by simp [Pintos.boot, heapInit]), ?_⟩
    intro t ht
    rw [hempty] at ht
    exact absurd ht (Multiset.notMem_zero t)

theorem Calm.step {m m' : Machine} {e : Event} (h : Calm m) (hu : uninterrupted m e)
    (hs : step m e = .ok m') : Calm m' := by
  refine ⟨h.toSerial.step hu hs, h.newborns.step h.scheduled h.locked h.mode hs, ?_⟩
  obtain ⟨o, ha, hcase⟩ := step_cases hs
  have hleft := ha.topmost h.scheduled h.newborns h.mode hu h.topmost
  rcases hcase with ⟨hsw, rfl⟩ | ⟨k, hsw, hk, rfl⟩
  · rw [ha.settle_curPc]
    exact hleft.2 hsw
  · -- the dispatched thread is where it may be resumed
    refine topmost_of_resumable ?_ ⟨(hleft.1 hsw).schedule hk, under_of_schedule (hleft.1 hsw) hk⟩
    exact h.resumable.settle h.scheduled.flow hu ha hsw _

/-- The running thread is outside the kernel. -/
def Machine.betweenCalls (m : Machine) : Prop := m.curPc = .user ∨ m.curPc = .idle

/-- **The highest priority runs.** In priority mode, with uninterrupted calls and no thread
exiting with a lock, between calls the ready heap is in order and no ready thread is above the
running one, and every dispatch is of a thread of the highest priority. -/
theorem highest_priority_runs {v : ℕ → ℕ} {h : List (Machine × Event)} {m : Machine}
    (hrun : Run step (fun m e => uninterrupted m e ∧ exitsFree m e) (boot false v) h m) :
    (m.betweenCalls → m.kernel.ReadyOrdered ∧
      ∀ t ∈ m.kernel.readyHeap.items, (m.kernel.threads t).priority ≤ m.kernel.cur.priority) ∧
    ∀ e o, uninterrupted m e → act m e = .ok o → o.switch = true → DispatchesMax o.kernel := by
  have hcalm : Calm m := hrun.invariant (.boot v) fun _ _ _ hI hg hs => hI.step hg.1 hs
  refine ⟨fun hb => ?_, fun e o hu ho hsw => dispatchesMax_of_ordered ?_⟩
  · have htop := hcalm.topmost
    rcases hb with hpc | hpc <;>
    · rw [hpc] at htop
      exact htop
  · exact ((act_ok ho).topmost hcalm.scheduled hcalm.newborns hcalm.mode hu hcalm.topmost).1 hsw

/-- Thread 2, of priority 50, blocks on a lock of the main thread, which then has its priority
and runs although thread 3, of priority 40, is ready. -/
theorem highest_priority_runs_run : ∃ h m,
    Run step (fun m e => uninterrupted m e ∧ exitsFree m e) (boot false fun _ => 0) h m ∧
      m.kernel.running = 0 ∧ m.kernel.cur.priority = 50 ∧ m.kernel.readyHeap.size = 1 ∧
      m.kernel.ReadyOrdered ∧
      ∀ t ∈ m.kernel.readyHeap.items, (m.kernel.threads t).priority ≤ m.kernel.cur.priority := by
  obtain ⟨h, m, hrun, hp⟩ := exists_run (fun m e => uninterrupted m e ∧ exitsFree m e)
    (fun m e => decide (uninterrupted m e ∧ exitsFree m e)) (fun _ _ => of_decide_eq_true) false
    (fun _ => 0)
    (Call.run (.lockAcquire 5) 5 ++ Call.run (.threadCreate 50 true) 32 ++
      Call.run (.threadCreate 40 true) 29 ++ Call.run (.lockAcquire 5) 14)
    (fun _ m => decide (m.curPc = .user ∧ m.kernel.running = 0 ∧ m.kernel.cur.priority = 50 ∧
      m.kernel.readyHeap.size = 1)) (by decide +kernel)
  obtain ⟨hpc, hrunning, hprio, hsize⟩ := of_decide_eq_true hp
  exact ⟨h, m, hrun, hrunning, hprio, hsize, (highest_priority_runs hrun).1 (.inl hpc)⟩

end Pintos
