import Pintos.Sched.ReadyOrder

/-!
# The scheduler data of a tick in mlfqs mode

Every fourth tick recomputes all priorities and every hundredth all CPU usage, and the code does
it in this order. So the priorities are those of the formula on every fourth tick that is not a
hundredth; on a hundredth they are those of the usage of before.

* `Machine.HasThread` — the threads there are; `AllListed` says that `all_list` holds them all,
  so that a pass over it misses nobody;
* `mlfqsTick_fresh` — after the two passes every listed thread has the priority of the formula,
  unless the usage was recomputed.
-/

namespace Pintos

open Transition Function

/-! ### The threads there are -/

/-- The page that `thread_create` has been given and has not initialized yet. -/
def Pc.rawPage : Pc → Option Tid
  | .createInit _ page => page
  | _ => none

def Frame.rawPage : Frame → Option Tid
  | .createInit _ page => page
  | _ => none

def Control.rawPage (c : Control) : Option Tid :=
  c.pc.rawPage <|> c.stack.findSome? Frame.rawPage

/-- Page `t` holds a thread: it was handed out, `init_thread` has run on it, and the thread has
not exited. -/
structure Machine.HasThread (m : Machine) (t : Tid) : Prop where
  page : t < m.kernel.nextPage
  inited : ∀ u, (m.ctl u).rawPage ≠ some t
  alive : m.pc t ≠ .exited

/-- Every thread is in `all_list`. -/
def AllListed (m : Machine) : Prop := ∀ t, m.HasThread t → t ∈ m.kernel.allList

theorem ret_rawPage (t : Tid) (st : List Frame) :
    (ret t st).rawPage = st.findSome? Frame.rawPage := by
  cases st with
  | nil => rfl
  | cons f st =>
    cases f with
    | createInit p page => cases page <;> rfl
    | _ => rfl

section Code

variable {k : Kernel} {c c' : Control} {o : Outcome} {t : Tid}

theorem Silent.rawPage (h : Silent k c c') : c'.rawPage = c.rawPage := by
  cases h with
  | createFail => exact ret_rawPage _ _
  | _ => first | rfl | (rw [ret_rawPage]; rfl)

/-- What becomes of a raw page: it stays one, unless it has just been handed out or `init_thread`
has put the thread into `all_list`. -/
theorem Exec.rawPage_cases (hex : Exec k c o) (hshape : c.Shaped k.mlfqs k.running) :
    o.ctl.rawPage = c.rawPage ∨ (c.rawPage = none ∧ o.ctl.rawPage = some k.nextPage) ∨
      (o.ctl.rawPage = none ∧ ∃ t, c.rawPage = some t ∧ o.kernel.allList = k.allList ++ [t]) := by
  cases hex with
  | silent hs => exact .inl hs.rawPage
  | @downBlock pc s st hpc =>
    refine .inl ?_
    rcases hpc with rfl | rfl <;> rfl
  | @downTake pc s st hpc =>
    have hafter : (afterDown k.running s st).rawPage = st.findSome? Frame.rawPage := by
      cases s with
      | lock l => rfl
      | sema n | waiter n => exact ret_rawPage _ st
    refine .inl (hafter.trans ?_)
    rcases hpc with rfl | rfl <;> rfl
  | createPage =>
    obtain rfl := stack_nil_of_isEmpty hshape.enclosed
    exact .inr (.inl ⟨rfl, rfl⟩)
  | @createInit p t' st k' hi =>
    obtain rfl := stack_nil_of_isEmpty hshape.enclosed
    obtain ⟨-, rfl⟩ := initThread_ok hi
    exact .inr (.inr ⟨rfl, t', rfl, rfl⟩)
  | exit =>
    obtain rfl := stack_nil_of_isEmpty hshape.enclosed
    exact .inl rfl
  | @updateStore u p st =>
    refine .inl ?_
    cases u <;> rfl
  | @updateMlfqs pc pc' p st hst =>
    refine .inl ?_
    cases hst with
    | @clamp u => cases u <;> rfl
    | _ => rfl
  | _ => first | exact .inl rfl | exact .inl (ret_rawPage _ _)

/-- A page stays raw until `init_thread` has put the thread into `all_list`. -/
theorem Exec.rawPage (hex : Exec k c o) (hshape : c.Shaped k.mlfqs k.running)
    (ht : c.rawPage = some t) : o.ctl.rawPage = some t ∨ t ∈ o.kernel.allList := by
  rcases hex.rawPage_cases hshape with hsame | ⟨hnone, -⟩ | ⟨-, t', hraw, hall⟩
  · exact .inl (hsame.trans ht)
  · exact absurd (hnone.symm.trans ht) (by simp)
  · obtain rfl := Option.some.inj (hraw.symm.trans ht)
    refine .inr ?_
    rw [hall]
    exact List.mem_append_right _ (List.mem_singleton.mpr rfl)

/-- How `all_list` changes. -/
theorem Exec.allList_cases (hex : Exec k c o) (hshape : c.Shaped k.mlfqs k.running) :
    o.kernel.allList = k.allList ∨
      (o.ctl.pc = .exited ∧ o.kernel.allList = k.allList.erase k.running) ∨
      ∃ t, c.rawPage = some t ∧ o.ctl.rawPage = none ∧ o.kernel.allList = k.allList ++ [t] := by
  cases hex with
  | exit => exact .inr (.inl ⟨rfl, rfl⟩)
  | @createInit p t st k' hi =>
    obtain rfl := stack_nil_of_isEmpty hshape.enclosed
    obtain ⟨-, rfl⟩ := initThread_ok hi
    exact .inr (.inr ⟨t, rfl, rfl, rfl⟩)
  | upWake _ _ hub | createUnblock hub =>
    obtain ⟨ord, heap, rfl, -⟩ := pushReady_ok (threadUnblock_ok hub).2
    exact .inl rfl
  | yield hy =>
    refine .inl ?_
    rcases yieldPark_ok hy with ⟨-, hpush⟩ | ⟨-, rfl⟩
    · obtain ⟨ord, heap, rfl, -⟩ := pushReady_ok hpush
      rfl
    · rfl
  | sleep _ hs =>
    obtain ⟨heap, rfl, -⟩ := sleepPark_ok hs
    exact .inl rfl
  | _ => exact .inl rfl

/-- Only a thread that exits leaves `all_list`. -/
theorem Exec.mem_allList (hex : Exec k c o) (hshape : c.Shaped k.mlfqs k.running)
    (ht : t ∈ k.allList) : t ∈ o.kernel.allList ∨ (t = k.running ∧ o.ctl.pc = .exited) := by
  rcases hex.allList_cases hshape with hsame | ⟨hexit, herase⟩ | ⟨t', -, -, happ⟩
  · exact .inl (hsame.symm ▸ ht)
  · by_cases heq : t = k.running
    · exact .inr ⟨heq, hexit⟩
    · rw [herase]
      exact .inl ((List.mem_erase_of_ne heq).mpr ht)
  · rw [happ]
    exact .inl (List.mem_append_left _ ht)

/-- A page that is handed out is raw. -/
theorem Exec.raw_of_new (hex : Exec k c o) (hnew : k.nextPage ≤ t)
    (ht : t < o.kernel.nextPage) : o.ctl.rawPage = some t := by
  cases hex with
  | createPage =>
    obtain rfl : k.nextPage = t := le_antisymm hnew (Nat.lt_succ_iff.mp ht)
    rfl
  | upWake _ _ hub | createUnblock hub =>
    obtain ⟨ord, heap, rfl, -⟩ := pushReady_ok (threadUnblock_ok hub).2
    exact absurd ht (not_lt.mpr hnew)
  | yield hy =>
    rcases yieldPark_ok hy with ⟨-, hpush⟩ | ⟨-, rfl⟩
    · obtain ⟨ord, heap, rfl, -⟩ := pushReady_ok hpush
      exact absurd ht (not_lt.mpr hnew)
    · exact absurd ht (not_lt.mpr hnew)
  | createInit hi =>
    obtain ⟨-, rfl⟩ := initThread_ok hi
    exact absurd ht (not_lt.mpr hnew)
  | sleep _ hs =>
    obtain ⟨heap, rfl, -⟩ := sleepPark_ok hs
    exact absurd ht (not_lt.mpr hnew)
  | _ => exact absurd ht (not_lt.mpr hnew)

end Code

/-! ### What a yield and a dispatch leave alone -/

/-- A change of the kernel's memory that touches neither the clock, nor the sleepers, nor the list
of threads, nor what the mlfqs scheduler knows of each of them. -/
structure ScoreFrame (k k' : Kernel) : Prop where
  mlfqs : k'.mlfqs = k.mlfqs
  idleThread : k'.idleThread = k.idleThread
  sleepHeap : k'.sleepHeap = k.sleepHeap
  loadAvg : k'.loadAvg = k.loadAvg
  ticks : k'.ticks = k.ticks
  allList : k'.allList = k.allList
  nextPage : k'.nextPage = k.nextPage
  priority : ∀ t, (k'.threads t).priority = (k.threads t).priority
  recentCpu : ∀ t, (k'.threads t).recentCpu = (k.threads t).recentCpu
  nice : ∀ t, (k'.threads t).nice = (k.threads t).nice

namespace ScoreFrame

variable {k k₁ k₂ k' : Kernel} {t : Tid}

theorem trans (h₁ : ScoreFrame k k₁) (h₂ : ScoreFrame k₁ k₂) : ScoreFrame k k₂ where
  mlfqs := h₂.mlfqs.trans h₁.mlfqs
  idleThread := h₂.idleThread.trans h₁.idleThread
  sleepHeap := h₂.sleepHeap.trans h₁.sleepHeap
  loadAvg := h₂.loadAvg.trans h₁.loadAvg
  ticks := h₂.ticks.trans h₁.ticks
  allList := h₂.allList.trans h₁.allList
  nextPage := h₂.nextPage.trans h₁.nextPage
  priority t := (h₂.priority t).trans (h₁.priority t)
  recentCpu t := (h₂.recentCpu t).trans (h₁.recentCpu t)
  nice t := (h₂.nice t).trans (h₁.nice t)

theorem pushReady (h : Pintos.pushReady k t = .ok k') : ScoreFrame k k' := by
  obtain ⟨ord, heap, rfl, -⟩ := pushReady_ok h
  exact ⟨rfl, rfl, rfl, rfl, rfl, rfl, rfl, apply_update_same Thread.priority rfl,
    apply_update_same Thread.recentCpu rfl, apply_update_same Thread.nice rfl⟩

theorem yieldOnReturn {y : Bool} (h : Pintos.yieldOnReturn y k = .ok k') : ScoreFrame k k' := by
  rcases yieldOnReturn_ok h with h | rfl
  · rcases yieldPark_ok h with ⟨-, hpush⟩ | ⟨-, rfl⟩
    · exact pushReady hpush
    · exact ⟨rfl, rfl, rfl, rfl, rfl, rfl, rfl, apply_update_same Thread.priority rfl,
        apply_update_same Thread.recentCpu rfl, apply_update_same Thread.nice rfl⟩
  · exact ⟨rfl, rfl, rfl, rfl, rfl, rfl, rfl, fun _ => rfl, fun _ => rfl, fun _ => rfl⟩

theorem schedule (h : Pintos.schedule k = .ok k') : ScoreFrame k k' := by
  obtain ⟨next, heap, freed, rfl, -⟩ := schedule_ok h
  exact ⟨rfl, rfl, rfl, rfl, rfl, rfl, rfl, apply_update_same Thread.priority rfl,
    apply_update_same Thread.recentCpu rfl, apply_update_same Thread.nice rfl⟩

end ScoreFrame

/-! ### The passes of a tick -/

/-- The pass over the priorities reads the usage and the niceness and leaves them alone. -/
theorem threadForeach_priority_reads (ts : List Tid) : ∀ (k : Kernel) (t : Tid),
    ((threadForeach tickUpdatePriority ts k).threads t).recentCpu = (k.threads t).recentCpu ∧
      ((threadForeach tickUpdatePriority ts k).threads t).nice = (k.threads t).nice := by
  induction ts with
  | nil => exact fun k t => ⟨rfl, rfl⟩
  | cons u ts ih =>
    intro k t
    obtain ⟨hcpu, hnice⟩ := ih (k.setThread u (tickUpdatePriority k u)) t
    rw [threadForeach, hcpu, hnice]
    refine ⟨apply_update_same Thread.recentCpu ?_ t, apply_update_same Thread.nice ?_ t⟩ <;> rfl

/-- Thread `t` has the priority that `thread_update_priority` would give it now. -/
def Kernel.Fresh (k : Kernel) (t : Tid) : Prop :=
  (k.threads t).priority = mlfqsPriority (k.threads t).recentCpu (k.threads t).nice

instance (k : Kernel) (t : Tid) : Decidable (k.Fresh t) :=
  inferInstanceAs (Decidable (_ = _))

theorem Kernel.Fresh.frame {k k' : Kernel} {t : Tid} (h : k.Fresh t) (hf : ScoreFrame k k') :
    k'.Fresh t := by
  unfold Kernel.Fresh
  rw [hf.priority, hf.recentCpu, hf.nice]
  exact h

/-- What a rescoring leaves alone. -/
theorem Kernel.Rescored.keeps {k k' : Kernel} (h : k.Rescored k') :
    k'.ticks = k.ticks ∧ k'.allList = k.allList ∧ k'.nextPage = k.nextPage ∧
      k'.running = k.running ∧ k'.idleThread = k.idleThread ∧ k'.mlfqs = k.mlfqs ∧
      k'.sleepHeap = k.sleepHeap ∧ ∀ t, (k'.threads t).nice = (k.threads t).nice := by
  obtain ⟨threads, la, rfl, hth⟩ := h
  refine ⟨rfl, rfl, rfl, rfl, rfl, rfl, rfl, fun t => ?_⟩
  obtain ⟨p, r, hpr⟩ := hth t
  dsimp only
  rw [hpr]

/-- The usage is recomputed every hundredth tick only. -/
theorem usagePass_of_not {k : Kernel} (h100 : k.ticks % timerFreq ≠ 0) : usagePass k = k :=
  if_neg h100

/-- **The passes of `thread_tick`.** On a fourth tick that is not a hundredth the priorities are
recomputed last. -/
theorem mlfqsTick_fresh {k : Kernel} (h4 : k.ticks % 4 = 0) (h100 : k.ticks % timerFreq ≠ 0)
    {t : Tid} (ht : t ∈ k.allList) : (mlfqsTick k).Fresh t := by
  obtain ⟨hticks, hall, -⟩ := (chargeTick_rescored k).keeps
  obtain ⟨hticks₂, -⟩ := (priorityPass_rescored (chargeTick k)).keeps
  rw [mlfqsTick_eq, usagePass_of_not (by rw [hticks₂, hticks]; exact h100)]
  unfold priorityPass
  rw [hticks, if_pos h4]
  obtain ⟨hcpu, hnice⟩ := threadForeach_priority_reads (chargeTick k).allList (chargeTick k) t
  unfold Kernel.Fresh
  rw [threadForeach_priority, if_pos (hall ▸ ht), hcpu, hnice]
  rfl

/-- What a timer interrupt does to the clock and the list of threads, and which priorities it
leaves. -/
theorem timerInterrupt_fresh {k k' : Kernel} {y : Bool} (hm : k.mlfqs = true)
    (h : timerInterrupt k = .ok (y, k')) :
    k'.allList = k.allList ∧ k'.nextPage = k.nextPage ∧
      (k'.ticks % 4 = 0 → k'.ticks % timerFreq ≠ 0 → ∀ t ∈ k.allList, k'.Fresh t) := by
  obtain ⟨y₁, k₁, -, ⟨hall, hpage, hmode⟩, htick⟩ := timerInterrupt_ok
    (I := fun _ k₁ => k₁.allList = k.allList ∧ k₁.nextPage = k.nextPage ∧ k₁.mlfqs = k.mlfqs) h
    ⟨rfl, rfl, rfl⟩ fun y k₁ heap top k₂ hI _ hub => by
      have hframe := ScoreFrame.pushReady (threadUnblock_ok hub).2
      exact ⟨hframe.allList.trans hI.1, hframe.nextPage.trans hI.2.1, hframe.mlfqs.trans hI.2.2⟩
  obtain ⟨k₂, -, hmlfqs, hres, rfl, -⟩ := threadTick_ok htick
  obtain rfl := hmlfqs (hmode.trans hm)
  obtain ⟨hticks, hall₂, hpage₂, -⟩ := hres.keeps
  refine ⟨hall₂.trans hall, hpage₂.trans hpage, fun h4 h100 t ht => ?_⟩
  rw [hticks] at h4 h100
  have hfresh : (mlfqsTick k₁).Fresh t := mlfqsTick_fresh h4 h100 (hall.symm ▸ ht)
  exact hfresh

/-! ### The list of threads -/

section Step

variable {m m' : Machine} {e : Event} {o : Outcome}

theorem AllListed.exec (h : AllListed m) (hflow : Flow m)
    (hex : Exec m.kernel (m.ctl m.kernel.running) o) {t : Tid} (ht : (m.settle o).HasThread t) :
    t ∈ o.kernel.allList := by
  have hself : (m.settle o).ctl m.kernel.running = o.ctl := update_self ..
  have hother : ∀ u, u ≠ m.kernel.running → (m.settle o).ctl u = m.ctl u :=
    fun u hu => update_of_ne hu ..
  have hraw : o.ctl.rawPage ≠ some t := fun hr => ht.inited m.kernel.running (by rw [hself, hr])
  -- the page was initialized before this step, or is now
  by_cases hinit : (m.ctl m.kernel.running).rawPage = some t
  · exact (hex.rawPage (hflow _) hinit).resolve_left hraw
  have hold : m.HasThread t := by
    refine ⟨?_, fun u hu => ?_, fun hpc => ?_⟩
    · by_contra hge
      exact hraw (hex.raw_of_new (not_lt.mp hge) ht.page)
    · by_cases hur : u = m.kernel.running
      · exact hinit (hur ▸ hu)
      · exact ht.inited u (by rw [hother u hur, hu])
    · by_cases htr : t = m.kernel.running
      · exact hex.pc_inside.2 (htr ▸ hpc)
      · refine ht.alive ?_
        rw [settle_pc, if_neg htr]
        exact hpc
  rcases hex.mem_allList (hflow _) (h t hold) with hmem | ⟨heq, hexit⟩
  · exact hmem
  · refine absurd ?_ ht.alive
    rw [settle_pc, if_pos heq]
    exact hexit

theorem AllListed.act (h : AllListed m) (hflow : Flow m) (hm : m.kernel.mlfqs = true)
    (ha : Act m e o) : AllListed (m.settle o) := by
  intro t ht
  cases ha with
  | @call c hpc =>
    have hself : (m.settle ⟨m.kernel, ⟨c.entry, (m.ctl m.kernel.running).stack⟩, false⟩).ctl
        m.kernel.running = ⟨c.entry, (m.ctl m.kernel.running).stack⟩ := update_self ..
    have hentry : c.entry.rawPage = none := by cases c <;> rfl
    refine h t ⟨ht.page, fun u hu => ?_, fun hexit => ?_⟩
    · by_cases hur : u = m.kernel.running
      · subst hur
        refine ht.inited m.kernel.running ?_
        rw [hself, ← hu]
        unfold Control.rawPage
        rw [hentry, show (m.ctl m.kernel.running).pc = .user from hpc]
        rfl
      · exact ht.inited u ((congrArg Control.rawPage (update_of_ne hur ..)).trans hu)
    · by_cases htr : t = m.kernel.running
      · rw [htr, show m.pc m.kernel.running = .user from hpc] at hexit
        cases hexit
      · refine ht.alive ?_
        rw [settle_pc, if_neg htr]
        exact hexit
  | exec hex => exact h.exec hflow hex ht
  | @tick y k k' _ hint hy =>
    have hf := ScoreFrame.yieldOnReturn hy
    obtain ⟨hall, hpage, -⟩ := timerInterrupt_fresh hm hint
    have hctl : (m.settle ⟨k', m.ctl m.kernel.running, y⟩).ctl = m.ctl :=
      update_eq_self _ _
    have hold : m.HasThread t := by
      refine ⟨?_, fun u => ?_, ?_⟩
      · rw [← hpage, ← hf.nextPage]
        exact ht.page
      · rw [← hctl]
        exact ht.inited u
      · unfold Machine.pc
        rw [← hctl]
        exact ht.alive
    change t ∈ k'.allList
    rw [hf.allList, hall]
    exact h t hold

/-- **Every step keeps the list of threads complete.** -/
theorem AllListed.step (h : AllListed m) (hflow : Flow m) (hm : m.kernel.mlfqs = true)
    (hs : Pintos.step m e = .ok m') : AllListed m' := by
  obtain ⟨o, ha, hcase⟩ := step_cases hs
  have hset := h.act hflow hm ha
  rcases hcase with ⟨-, rfl⟩ | ⟨k, -, hk, rfl⟩
  · exact hset
  · have hf := ScoreFrame.schedule hk
    intro t ht
    rw [hf.allList]
    exact hset t ⟨hf.nextPage ▸ ht.page, ht.inited, ht.alive⟩

end Step

theorem AllListed.boot (mlfqs : Bool) (v : ℕ → ℕ) : AllListed (boot mlfqs v) := by
  intro t ht
  have hlt : t < 2 := ht.page
  match t, hlt with
  | 0, _ => exact List.mem_cons_self
  | 1, _ => exact List.mem_cons_of_mem _ List.mem_cons_self

/-- A tick of the machine, past the yield and the dispatch. -/
theorem step_tick {m m' : Machine} (hs : step m .tick = .ok m') :
    ∃ y k, timerInterrupt m.kernel = .ok (y, k) ∧ ScoreFrame k m'.kernel := by
  obtain ⟨o, ha, hcase⟩ := step_cases hs
  cases ha with
  | @tick y k k' _ hint hy =>
    refine ⟨y, k, hint, ?_⟩
    rcases hcase with ⟨-, rfl⟩ | ⟨k₂, -, hk, rfl⟩
    · exact ScoreFrame.yieldOnReturn hy
    · exact (ScoreFrame.yieldOnReturn hy).trans (ScoreFrame.schedule hk)

/-- **The priorities after a tick.** In every run in mlfqs mode, on a fourth tick that is not a
hundredth, every thread but the idle thread has the priority of the formula when the timer
interrupt is over. -/
theorem mlfqs_priority_fresh {v : ℕ → ℕ} {h : List (Machine × Event)} {m m' : Machine}
    (hrun : Run step preemptive (boot true v) h m) (hstep : step m .tick = .ok m')
    (h4 : m'.kernel.ticks % 4 = 0) (h100 : m'.kernel.ticks % timerFreq ≠ 0) {t : Tid}
    (ht : m'.HasThread t) (_hidle : t ≠ m'.kernel.idleThread) : m'.kernel.Fresh t := by
  obtain ⟨hsch, hm, hall⟩ := hrun.invariant
    (I := fun m => Scheduled m ∧ m.kernel.mlfqs = true ∧ AllListed m)
    ⟨.boot true v, rfl, .boot true v⟩ fun m e m' ⟨hsch, hm, hall⟩ _ hs =>
      ⟨hsch.step hs, (step_mlfqs hs).trans hm, hall.step hsch.flow hm hs⟩
  have hlisted := hall.step hsch.flow hm hstep t ht
  -- neither the yield nor the dispatch touches what the formula reads
  obtain ⟨y, k, hint, hf⟩ := step_tick hstep
  obtain ⟨hkeep, -, hfresh⟩ := timerInterrupt_fresh hm hint
  rw [hf.ticks] at h4 h100
  rw [hf.allList, hkeep] at hlisted
  exact (hfresh h4 h100 t hlisted).frame hf

/-- A thread is constructed at the outermost level, or inside the calls made for it. -/
theorem stack_nil_of_embryo {mlfqs : Bool} {u t : Tid} {pc : Pc} {st : List Frame}
    (hshape : Control.Shaped mlfqs u ⟨pc, st⟩) (h : pc.embryo = some t) : st = [] := by
  have henc : pc.enclosed u st = true := hshape.enclosed
  cases pc with
  | createInit | createTid | createMlfqs | createUnblock => exact stack_nil_of_isEmpty henc
  | updatePriority w | updateScan w | updateStore w | updateMax w | updateCpu w | updateNice w
  | updateClamp w =>
    cases w with
    | create => exact stack_nil_of_isEmpty henc
    | release | nice => exact absurd h (by simp [Pc.embryo, Updater.embryo])
  | _ => exact absurd h (by simp [Pc.embryo])

/-- A raw page is one that a thread is constructed in. -/
theorem Control.embryo_of_rawPage {mlfqs : Bool} {u t : Tid} {c : Control}
    (hshape : c.Shaped mlfqs u) (h : c.rawPage = some t) : c.embryo = some t := by
  obtain ⟨pc, st⟩ := c
  unfold Control.rawPage at h
  unfold Control.embryo
  have hlen := hshape.length_le
  match st, hlen with
  | [], _ =>
    cases pc with
    | createInit p page => exact h
    | _ => exact absurd h (by simp [Pc.rawPage])
  | [f], _ =>
    -- inside a call the page is in the frame, and the point itself constructs nothing
    have hpc : pc.embryo = none := by
      rw [Option.eq_none_iff_forall_not_mem]
      intro t' ht'
      exact absurd (stack_nil_of_embryo hshape ht') (by simp)
    have hraw : pc.rawPage = none := by
      cases pc with
      | createInit p page => exact hpc
      | _ => rfl
    rw [hraw] at h
    rw [hpc]
    cases f with
    | createInit p page => exact h
    | _ => exact absurd h (by simp [Frame.rawPage])

/-- The thread on the CPU is a thread, if it has not exited. -/
theorem Scheduled.hasThread_running {m : Machine} (h : Scheduled m) (hpc : m.curPc ≠ .exited) :
    m.HasThread m.kernel.running := by
  refine ⟨h.queues.cur_lt h.cpu, fun u hu => ?_, hpc⟩
  have hst := (h.queues.embryo u _ (Control.embryo_of_rawPage (h.flow u) hu)).2.2
  rw [show (m.kernel.threads m.kernel.running).status = .running from h.cpu.status] at hst
  cases hst

/-- The fourth tick, with the main thread running. -/
theorem mlfqs_priority_fresh_run : ∃ h m m', Run step preemptive (boot true fun _ => 0) h m ∧
    step m .tick = .ok m' ∧ m'.kernel.ticks = 4 ∧ m'.HasThread 0 ∧ m'.kernel.Fresh 0 := by
  obtain ⟨h, m, m', hrun, hs, hp⟩ := exists_run_then preemptive (fun _ _ => true)
    (fun _ _ _ => trivial) true (fun _ => 0) [.tick, .tick, .tick] (step · .tick)
    (fun _ m' => decide (m'.kernel.ticks = 4 ∧ m'.kernel.running = 0 ∧ m'.curPc = .user ∧
      m'.kernel.idleThread = 1)) (by decide +kernel)
  obtain ⟨hticks, hcur, hpc, hidle⟩ := of_decide_eq_true hp
  have hthread : m'.HasThread 0 :=
    hcur ▸ ((Scheduled.of_run hrun).step hs).hasThread_running (by rw [hpc]; simp)
  refine ⟨h, m, m', hrun, hs, hticks, hthread, ?_⟩
  exact mlfqs_priority_fresh hrun hs (by rw [hticks]; rfl) (by rw [hticks]; decide) hthread
    (by rw [hidle]; simp)

/-! ### The hundredth tick -/

/-- The main thread has run alone for `n` ticks, less than a hundred. -/
structure Solo (n : ℕ) (m : Machine) : Prop where
  mode : m.kernel.mlfqs = true
  running : m.kernel.running = 0
  idle : m.kernel.idleThread = 1
  outside : m.ctl 0 = ⟨.user, []⟩
  ticks : m.kernel.ticks = n
  ready : m.kernel.readyHeap.size = 0
  sleep : m.kernel.sleepHeap.size = 0
  load : m.kernel.loadAvg = 0
  allList : m.kernel.allList = [0, 1]
  usage : (m.kernel.threads 0).recentCpu = n * fBits
  nice : (m.kernel.threads 0).nice = 0

/-- A tick at which no sleeper is due is `thread_tick`. -/
theorem timerInterrupt_of_quiet {k : Kernel}
    (h : ∀ t ∈ k.sleepHeap.items, toInt64 (k.ticks + 1) < (k.threads t).wakeTime) :
    timerInterrupt k = .ok (threadTick { k with ticks := toInt64 (k.ticks + 1) } false) := by
  have hwake : timerWake { k with ticks := toInt64 (k.ticks + 1) } (toInt64 (k.ticks + 1))
      = .ok (false, { k with ticks := toInt64 (k.ticks + 1) }) := by
    unfold timerWake
    dsimp only
    cases hsize : k.sleepHeap.size with
    | zero => rfl
    | succ n =>
      have hne : heapEmpty k.sleepHeap = false := by
        unfold heapEmpty
        rw [hsize]
        rfl
      have htop : k.sleepHeap.elems 1 ∈ k.sleepHeap.items :=
        Heap.mem_items.mpr ⟨1, le_refl 1, by omega, rfl⟩
      unfold timerWakeLoop heapTop
      dsimp only
      rw [if_neg (by rw [hne]; simp), if_neg (by rw [hne]; simp)]
      exact if_pos (h _ htop)
  unfold timerInterrupt
  dsimp only
  rw [hwake]
  rfl

/-- A yield with nobody else ready comes back to the running thread. -/
theorem yield_alone {k : Kernel} (hrun : k.running ≠ k.idleThread) (hsize : k.readyHeap.size = 0) :
    ∃ k₁ k₂, yieldPark k = .ok k₁ ∧ schedule k₁ = .ok k₂ ∧ k₂.running = k.running ∧
      k₂.readyHeap.size = 0 := by
  obtain ⟨k₁, hpush⟩ := pushReady_total (k := k) k.running (by rw [hsize]; decide)
  obtain ⟨k₂, hsched⟩ := schedule_total k₁
  refine ⟨k₁, k₂, by unfold yieldPark; rw [if_pos hrun, hpush], hsched, ?_⟩
  obtain ⟨-, -, hsize₁⟩ := pushReady_counter hpush
  obtain ⟨ord, heap, rfl, hitems, -⟩ := pushReady_ok hpush
  obtain ⟨next, heap₂, freed, rfl, hcase⟩ := schedule_ok hsched
  rcases hcase with ⟨hzero, -, -⟩ | hpop
  · rw [hsize₁] at hzero
    exact absurd hzero (Nat.succ_ne_zero _)
  · obtain ⟨hs, hpopped, -, -⟩ := heapPop_ok hpop
    rw [hsize₁, hsize] at hs
    have hone : heap.items = {k.running} := by
      rw [hitems, Heap.items_eq_zero_of_size hsize]
      rfl
    refine ⟨?_, (Nat.succ.inj hs).symm⟩
    have hmem : next ∈ heap.items := by
      rw [hpopped]
      exact Multiset.mem_cons_self _ _
    rw [hone] at hmem
    exact Multiset.mem_singleton.mp hmem

/-- The pass over the priorities leaves the usage and the load average alone. -/
theorem priorityPass_usage (k : Kernel) (t : Tid) :
    ((priorityPass k).threads t).recentCpu = (k.threads t).recentCpu ∧
      (priorityPass k).loadAvg = k.loadAvg := by
  have hload : ∀ (ts : List Tid) (k : Kernel),
      (threadForeach tickUpdatePriority ts k).loadAvg = k.loadAvg := by
    intro ts
    induction ts with
    | nil => exact fun k => rfl
    | cons u ts ih => exact fun k => ih (k.setThread u (tickUpdatePriority k u))
  unfold priorityPass
  split
  · exact ⟨(threadForeach_priority_reads k.allList k t).1, hload k.allList k⟩
  · exact ⟨rfl, rfl⟩

/-- The charge for a tick. -/
theorem chargeTick_usage {k : Kernel} (hrun : k.running ≠ k.idleThread) :
    ((chargeTick k).threads k.running).recentCpu = fpIntAdd k.cur.recentCpu 1 ∧
      (chargeTick k).loadAvg = k.loadAvg := by
  unfold chargeTick
  rw [if_pos hrun]
  refine ⟨?_, rfl⟩
  simp only [Kernel.setThread, update_self]

/-- A timer interrupt, put together from its parts. -/
theorem step_tick_eq {m : Machine} {y : Bool} {k₁ k₂ k₃ : Kernel} (hon : m.interruptsOn = true)
    (hint : timerInterrupt m.kernel = .ok (y, k₁)) (hy : yieldOnReturn y k₁ = .ok k₂)
    (hd : dispatch ⟨k₂, m.ctl m.kernel.running, y⟩ = .ok k₃) : step m .tick = .ok ⟨k₃, m.ctl⟩ := by
  have hact : act m .tick = .ok ⟨k₂, m.ctl m.kernel.running, y⟩ := by
    change (if m.interruptsOn = true then _ else _) = _
    rw [if_pos hon, hint]
    change (do let k ← yieldOnReturn y k₁; _) = _
    rw [hy]
    rfl
  have hstep := step_eq hact hd
  rw [update_eq_self] at hstep
  exact hstep

theorem interruptsOn_of_user {m : Machine} (h : m.curPc = .user) : m.interruptsOn = true := by
  unfold Machine.interruptsOn
  rw [show (m.ctl m.kernel.running).pc = .user from h]

/-- A tick at which a thread runs outside the kernel, nobody is ready and no sleeper is due: the
thread goes on, also if the tick ends its time slice. -/
theorem tick_alone {m : Machine} (hmode : m.kernel.mlfqs = true)
    (hne : m.kernel.running ≠ m.kernel.idleThread) (hpc : m.curPc = .user)
    (hready : m.kernel.readyHeap.size = 0)
    (hquiet : ∀ t ∈ m.kernel.sleepHeap.items,
      toInt64 (m.kernel.ticks + 1) < (m.kernel.threads t).wakeTime) :
    ∃ m', step m .tick = .ok m' ∧ m'.ctl = m.ctl ∧ m'.kernel.running = m.kernel.running ∧
      m'.kernel.readyHeap.size = 0 ∧
      ScoreFrame (mlfqsTick { m.kernel with ticks := toInt64 (m.kernel.ticks + 1) }) m'.kernel := by
  have hint := timerInterrupt_of_quiet hquiet
  generalize hk : ({ m.kernel with ticks := toInt64 (m.kernel.ticks + 1) } : Kernel) = k at hint
  obtain ⟨y, k₁, hpair⟩ : ∃ y k₁, threadTick k false = (y, k₁) := ⟨_, _, rfl⟩
  rw [hpair] at hint
  obtain ⟨k₂, -, hmlfqs, hres, hk₁, -⟩ := threadTick_ok hpair
  obtain rfl := hmlfqs (by rw [← hk]; exact hmode)
  obtain ⟨-, -, -, hcur, hidle, -, -, -⟩ := hres.keeps
  have hrun₁ : k₁.running = m.kernel.running := by
    rw [hk₁, show m.kernel.running = k.running from by rw [← hk]]
    exact hcur
  have hidle₁ : k₁.idleThread = m.kernel.idleThread := by
    rw [hk₁, show m.kernel.idleThread = k.idleThread from by rw [← hk]]
    exact hidle
  have hready₁ : k₁.readyHeap.size = 0 := by
    rw [hk₁, ← hready, show m.kernel.readyHeap = k.readyHeap from by rw [← hk]]
    exact congrArg Heap.size hres.readyHeap
  have hf : ScoreFrame (mlfqsTick k) k₁ := by
    rw [hk₁]
    exact ⟨rfl, rfl, rfl, rfl, rfl, rfl, rfl, fun _ => rfl, fun _ => rfl, fun _ => rfl⟩
  have hon := interruptsOn_of_user hpc
  cases y with
  | false => exact ⟨_, step_tick_eq hon hint rfl rfl, rfl, hrun₁, hready₁, hf⟩
  | true =>
    obtain ⟨k₂, k₃, hpark, hsched, hrun₃, hready₃⟩ :=
      yield_alone (k := k₁) (by rw [hrun₁, hidle₁]; exact hne) hready₁
    refine ⟨_, step_tick_eq hon hint hpark hsched, rfl, hrun₃.trans hrun₁, hready₃, ?_⟩
    exact hf.trans ((ScoreFrame.yieldOnReturn (y := true) hpark).trans (ScoreFrame.schedule hsched))

/-- A tick of the solo run, with the yield that ends a time slice. -/
theorem Solo.tick {n : ℕ} {m : Machine} (h : Solo n m) : ∃ m', Pintos.step m .tick = .ok m' ∧
    m'.ctl = m.ctl ∧ m'.kernel.running = 0 ∧ m'.kernel.readyHeap.size = 0 ∧
    ScoreFrame (mlfqsTick { m.kernel with ticks := toInt64 (m.kernel.ticks + 1) }) m'.kernel := by
  have hpc : m.curPc = .user := by
    unfold Machine.curPc Machine.pc
    rw [h.running, h.outside]
  obtain ⟨m', hs, hctl, hrun, hready, hf⟩ := tick_alone h.mode (by rw [h.running, h.idle]; simp) hpc
    h.ready fun t ht => by
      rw [Heap.items_eq_zero_of_size h.sleep] at ht
      exact absurd ht (Multiset.notMem_zero t)
  exact ⟨m', hs, hctl, hrun.trans h.running, hready, hf⟩

/-- The usage grows by one tick at a time until the first hundredth. -/
theorem Solo.step {n : ℕ} {m : Machine} (h : Solo n m) (hn : n + 1 < 100) :
    ∃ m', Pintos.step m .tick = .ok m' ∧ Solo (n + 1) m' := by
  obtain ⟨m', hs, hctl, hrun, hready, hf⟩ := h.tick
  refine ⟨m', hs, ?_⟩
  generalize hk : ({ m.kernel with ticks := toInt64 (m.kernel.ticks + 1) } : Kernel) = k at hf
  have hticks : k.ticks = (n + 1 : ℕ) := by
    rw [← hk]
    change toInt64 (m.kernel.ticks + 1) = _
    rw [h.ticks, toInt64_of_fits (by omega) (by omega)]
    omega
  have hne : k.running ≠ k.idleThread := by
    rw [← hk]
    rw [h.running, h.idle]
    simp
  obtain ⟨hcharge, hload⟩ := chargeTick_usage hne
  obtain ⟨hticks₂, hall₂, -, -, hidle₂, hmode₂, hsleep₂, hnice₂⟩ := (mlfqsTick_rescored k).keeps
  have hpass : mlfqsTick k = priorityPass (chargeTick k) := by
    rw [mlfqsTick_eq, usagePass_of_not]
    obtain ⟨h₁, -⟩ := (chargeTick_rescored k).keeps
    obtain ⟨h₂, -⟩ := (priorityPass_rescored (chargeTick k)).keeps
    rw [h₂, h₁, hticks]
    unfold timerFreq
    omega
  obtain ⟨husage, hload₂⟩ := priorityPass_usage (chargeTick k) 0
  have hcur : k.running = 0 := by
    rw [← hk]
    exact h.running
  refine ⟨hf.mlfqs.trans (hmode₂.trans ?_), hrun, hf.idleThread.trans (hidle₂.trans ?_), ?_,
    hf.ticks.trans (hticks₂.trans hticks), hready, ?_, ?_, hf.allList.trans (hall₂.trans ?_), ?_, ?_⟩
  · rw [← hk]
    exact h.mode
  · rw [← hk]
    exact h.idle
  · rw [hctl]
    exact h.outside
  · rw [hf.sleepHeap, hsleep₂, ← hk]
    exact h.sleep
  · rw [hf.loadAvg, hpass, hload₂, hload, ← hk]
    exact h.load
  · rw [← hk]
    exact h.allList
  · rw [hf.recentCpu, hpass, husage]
    rw [hcur] at hcharge
    rw [hcharge]
    unfold Kernel.cur fpIntAdd
    rw [hcur, ← hk, h.usage]
    unfold fBits
    rw [show toInt32 (1 * 16384) = 16384 from rfl, toInt32_of_fits (by omega) (by omega)]
    omega
  · rw [hf.nice, hnice₂, ← hk]
    exact h.nice

/-- The usage pass over the main and the idle thread. -/
theorem usagePass_main {k : Kernel} (hticks : k.ticks = 100) (hall : k.allList = [0, 1]) :
    ((usagePass k).threads 0).recentCpu = (threadUpdateRecentCpu (updateLoadAvg k) 0).recentCpu ∧
      ((usagePass k).threads 0).priority = (k.threads 0).priority := by
  unfold usagePass
  rw [if_pos (by rw [hticks]; rfl)]
  refine ⟨?_, threadForeach_recentCpu_priority _ _ 0⟩
  change ((threadForeach threadUpdateRecentCpu k.allList (updateLoadAvg k)).threads 0).recentCpu = _
  rw [hall]
  simp [threadForeach, Kernel.setThread]

/-- On the hundredth tick of the solo run the usage decays after the priority was computed. -/
theorem Solo.stale {m : Machine} (h : Solo 99 m) : ∃ m', Pintos.step m .tick = .ok m' ∧
    m'.kernel.ticks = 100 ∧ m'.kernel.running = 0 ∧ m'.curPc = .user ∧
    m'.kernel.idleThread = 1 ∧ ¬ m'.kernel.Fresh 0 := by
  obtain ⟨m', hs, hctl, hrun, -, hf⟩ := h.tick
  generalize hk : ({ m.kernel with ticks := toInt64 (m.kernel.ticks + 1) } : Kernel) = k at hf
  have hticks : k.ticks = 100 := by
    rw [← hk]
    change toInt64 (m.kernel.ticks + 1) = _
    rw [h.ticks]
    rfl
  have hcur : k.running = 0 := by
    rw [← hk]
    exact h.running
  have hidle : k.idleThread = 1 := by
    rw [← hk]
    exact h.idle
  obtain ⟨hcharge, hload⟩ := chargeTick_usage (k := k) (by rw [hcur, hidle]; simp)
  obtain ⟨hticks₁, hall₁, -, hcur₁, hidle₁, -, -, hnice₁⟩ := (chargeTick_rescored k).keeps
  obtain ⟨husage, hload₂⟩ := priorityPass_usage (chargeTick k) 0
  have hres₂ := priorityPass_rescored (chargeTick k)
  have hready₂ : (priorityPass (chargeTick k)).readyHeap.size = 0 := by
    rw [hres₂.readyHeap, (chargeTick_rescored k).readyHeap, ← hk]
    exact h.ready
  obtain ⟨hticks₂, hall₂, -, hcur₂, hidle₂, -, -, hnice₂⟩ := hres₂.keeps
  obtain ⟨hticks₃, -, -, -, hidle₃, -, -, hnice₃⟩ := (mlfqsTick_rescored k).keeps
  -- the usage of a hundred ticks, from which the priority is computed
  have hcpu : ((chargeTick k).threads 0).recentCpu = 100 * fBits := by
    rw [hcur] at hcharge
    rw [hcharge]
    unfold Kernel.cur
    rw [hcur, ← hk, h.usage]
    rfl
  have hnice : ((chargeTick k).threads 0).nice = 0 := by
    rw [hnice₁, ← hk]
    exact h.nice
  have hprio : ((priorityPass (chargeTick k)).threads 0).priority = 38 := by
    unfold priorityPass
    rw [if_pos (by rw [hticks₁, hticks]; rfl), threadForeach_priority,
      if_pos (by rw [hall₁, ← hk]; change 0 ∈ m.kernel.allList; rw [h.allList]; simp)]
    unfold tickUpdatePriority
    dsimp only
    rw [hcpu, hnice]
    rfl
  obtain ⟨hdecay, hkeep⟩ := usagePass_main (k := priorityPass (chargeTick k))
    (by rw [hticks₂, hticks₁, hticks]) (by rw [hall₂, hall₁, ← hk]; exact h.allList)
  have hload₁ : (updateLoadAvg (priorityPass (chargeTick k))).loadAvg = 273 := by
    unfold updateLoadAvg
    dsimp only
    rw [hready₂, hload₂, hload, hcur₂, hcur₁, hidle₂, hidle₁, hcur, hidle, ← hk,
      show ({ m.kernel with ticks := toInt64 (m.kernel.ticks + 1) } : Kernel).loadAvg = 0 from h.load]
    rfl
  have hdecayed : ((mlfqsTick k).threads 0).recentCpu = 52800 := by
    rw [mlfqsTick_eq, hdecay]
    unfold threadUpdateRecentCpu
    rw [if_neg (by
      change 0 ≠ (priorityPass (chargeTick k)).idleThread
      rw [hidle₂, hidle₁, hidle]
      simp), hload₁]
    change fpIntAdd (fpMul _ ((priorityPass (chargeTick k)).threads 0).recentCpu)
      ((priorityPass (chargeTick k)).threads 0).nice = _
    rw [husage, hcpu, hnice₂, hnice]
    rfl
  refine ⟨m', hs, hf.ticks.trans (hticks₃.trans hticks), hrun, ?_,
    hf.idleThread.trans (hidle₃.trans hidle), fun hfresh => ?_⟩
  · unfold Machine.curPc Machine.pc
    rw [hrun, hctl, h.outside]
  · unfold Kernel.Fresh at hfresh
    rw [hf.priority, hf.recentCpu, hf.nice, hdecayed, hnice₃, mlfqsTick_eq, hkeep, hprio, ← hk,
      show (({ m.kernel with ticks := toInt64 (m.kernel.ticks + 1) } : Kernel).threads 0).nice = 0
        from h.nice] at hfresh
    exact absurd hfresh (by decide)

theorem Solo.boot (v : ℕ → ℕ) : Solo 0 (boot true v) :=
  ⟨rfl, rfl, rfl, rfl, rfl, rfl, rfl, rfl, rfl, rfl, rfl⟩

/-- The main thread runs alone for up to ninety-nine ticks. -/
theorem exists_solo {G : Guard Machine Event} (v : ℕ → ℕ)
    (hG : ∀ n m, n + 1 < 100 → Solo n m → G m .tick) : ∀ n < 100,
    ∃ h m, Run Pintos.step G (Pintos.boot true v) h m ∧ Solo n m := by
  intro n
  induction n with
  | zero => exact fun _ => ⟨[], _, .refl, .boot v⟩
  | succ n ih =>
    intro hn
    obtain ⟨h, m, hrun, hsolo⟩ := ih (Nat.lt_of_succ_lt hn)
    obtain ⟨m', hs, hsolo'⟩ := hsolo.step hn
    exact ⟨_, m', .tail hrun (hG n m hn hsolo) hs, hsolo'⟩

/-- **The hundredth tick.** The main thread has run for a hundred ticks. The interrupt gives it
the priority 38 of its usage so far and then lets the usage decay to a value whose priority
is 62. -/
theorem mlfqs_priority_stale : ∃ h m m', Run step preemptive (boot true fun _ => 0) h m ∧
    step m .tick = .ok m' ∧ m'.kernel.ticks % 4 = 0 ∧ m'.HasThread 0 ∧
      0 ≠ m'.kernel.idleThread ∧ ¬ m'.kernel.Fresh 0 := by
  obtain ⟨h, m, hrun, hsolo⟩ := exists_solo (G := preemptive) (fun _ => 0)
    (fun _ _ _ _ => trivial) 99 (by decide)
  obtain ⟨m', hs, hticks, hcur, hpc, hidle, hstale⟩ := hsolo.stale
  have hthread : m'.HasThread 0 :=
    hcur ▸ ((Scheduled.of_run hrun).step hs).hasThread_running (by rw [hpc]; simp)
  exact ⟨h, m, m', hrun, hs, by rw [hticks]; rfl, hthread, by rw [hidle]; simp, hstale⟩

end Pintos
