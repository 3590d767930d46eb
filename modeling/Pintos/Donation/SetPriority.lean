import Pintos.Sched.CreatePriority
import Pintos.Sync.Woken

/-!
# `thread_set_priority` and the donations

The documentation asks that a thread which sets its priority runs at the larger of the new priority
and the priorities donated to it. The code does not look at the donations: it takes over the new
priority if that is larger than the old effective priority or no lock is held, and otherwise leaves the
effective priority as it is (`Kernel.storePriority`). A thread that holds a lock nobody waits for keeps
its old priority.

* `threadSetPriority_eq` — the whole call: the stores, and the yield if the priority has gone down;
* `storePriority_priority_iff` — when the stored priority is the documented one.
-/

namespace Pintos

open Transition Function

/-- The machine when `thread_set_priority (p)`, called by the running thread, has returned. Between the
call and the return no other thread runs, and the call is six program points long. -/
def threadSetPriority (m : Machine) (p : ℤ) : Option Machine := do
  let m' ← (step m (.call (.threadSetPriority p))).toOption
  serve m.kernel.running 7 [] m'

/-- The priorities donated to thread `t`: one for each lock it holds. -/
def Kernel.donations (k : Kernel) (t : Tid) : List ℤ :=
  (k.threads t).locksHolding.map fun l => (k.locks l).priorityDonate

/-- What `thread_set_priority (p)`, called in `m`, is to do: `m'` is the machine after it. -/
structure PrioritySet (m : Machine) (p : ℤ) (m' : Machine) : Prop where
  origin : (m'.kernel.threads m.kernel.running).priorityOrigin = p
  priority : (m'.kernel.threads m.kernel.running).priority =
    (m'.kernel.donations m.kernel.running).foldr max p
  /-- If a ready thread is above the caller, a thread runs that is not below it. -/
  yielded : ∀ u ∈ m.kernel.readyHeap.items,
    (m'.kernel.threads m.kernel.running).priority < (m'.kernel.threads u).priority →
      m'.kernel.running ≠ m.kernel.running ∧
        (m'.kernel.threads u).priority ≤ m'.kernel.cur.priority

/-! ### The call -/

/-- The memory after the stores of `thread_set_priority`. -/
def Kernel.storePriority (k : Kernel) (p : ℤ) : Kernel :=
  k.setThread k.running { k.cur with
    priorityOrigin := p
    priority := if k.cur.priority < p ∨ k.cur.locksHolding = [] then p else k.cur.priority }

section Call

variable {m m' : Machine} {p : ℤ}

/-- Where the running thread is inside the kernel, its code comes next. -/
theorem serve_exec {n : ℕ} (hpc : m.pc m.kernel.running ≠ .user) :
    serve m.kernel.running (n + 1) [] m =
      (step m .exec).toOption.bind (serve m.kernel.running n []) := by
  have hturn : turn m [] = some (.exec, []) := if_neg hpc
  rw [serve, if_neg hpc, hturn]
  rfl

section Points

variable {k k' : Kernel} {u : Tid} {ctl : Tid → Control} {pc pc' : Pc} {n : ℕ}

/-- The code at a point, where the machine is given by its parts. -/
theorem serve_point (hrun : k.running = u) (hpc : pc ≠ .user) :
    serve u (n + 1) [] ⟨k, update ctl u ⟨pc, []⟩⟩ =
      (exec k ⟨pc, []⟩).toOption.bind fun o => (dispatch o).toOption.bind fun k' =>
        serve u n [] ⟨k', update ctl u o.ctl⟩ := by
  subst hrun
  have hctl : update ctl k.running ⟨pc, []⟩ k.running = ⟨pc, []⟩ := update_self ..
  have hact : act ⟨k, update ctl k.running ⟨pc, []⟩⟩ .exec = exec k ⟨pc, []⟩ := by
    change exec k (update ctl k.running ⟨pc, []⟩ k.running) = _
    rw [hctl]
  have hcur : Machine.pc ⟨k, update ctl k.running ⟨pc, []⟩⟩ k.running = pc := by
    unfold Machine.pc
    dsimp only
    rw [hctl]
  refine (serve_exec (m := ⟨k, _⟩) (by rwa [hcur])).trans ?_
  unfold step
  rw [hact]
  cases exec k ⟨pc, []⟩ with
  | error f => rfl
  | ok o =>
    change (dispatch o >>= _).toOption.bind _ = (dispatch o).toOption.bind _
    cases dispatch o with
    | error f => rfl
    | ok k' =>
      change serve _ n [] ⟨k', update (update _ _ _) _ _⟩ = serve _ n [] ⟨k', _⟩
      rw [update_idem]

/-- A point of the code from which the running thread goes on. -/
theorem serve_goto (hrun : k.running = u) (hpc : pc ≠ .user)
    (hex : exec k ⟨pc, []⟩ = goto k' pc' []) :
    serve u (n + 1) [] ⟨k, update ctl u ⟨pc, []⟩⟩ =
      serve u n [] ⟨k', update ctl u ⟨pc', []⟩⟩ := by
  rw [serve_point hrun hpc, hex]
  rfl

end Points

/-- What follows the stores: a yield, if the priority has gone down. -/
def Machine.afterStores (m : Machine) (p : ℤ) : Option Machine :=
  if (m.kernel.storePriority p).cur.priority < m.kernel.cur.priority then
    (yieldPark (m.kernel.storePriority p)).toOption.bind fun k =>
      (schedule k).toOption.bind fun k => some ⟨k, m.ctl⟩
  else some ⟨m.kernel.storePriority p, m.ctl⟩

theorem ctl_of_user (hflow : Flow m) (huser : m.curPc = .user) :
    update m.ctl m.kernel.running ⟨.user, []⟩ = m.ctl := by
  rw [← hflow.stack_of_user huser, ← huser]
  exact update_eq_self _ _

/-- From the last test on. -/
theorem serve_setYield (hflow : Flow m) (huser : m.curPc = .user) (n : ℕ) :
    serve m.kernel.running (n + 3) [] ⟨m.kernel.storePriority p,
      update m.ctl m.kernel.running ⟨.setYield m.kernel.cur.priority, []⟩⟩ =
        m.afterStores p := by
  have hrun : (m.kernel.storePriority p).running = m.kernel.running := rfl
  have hback : ∀ k n, serve m.kernel.running (n + 1) []
      ⟨k, update m.ctl m.kernel.running ⟨.user, []⟩⟩ = some ⟨k, m.ctl⟩ := by
    intro k n
    rw [ctl_of_user hflow huser, serve]
    exact if_pos huser
  unfold Machine.afterStores
  by_cases hlow : (m.kernel.storePriority p).cur.priority < m.kernel.cur.priority
  · have hyield : exec (m.kernel.storePriority p) ⟨.setYield m.kernel.cur.priority, []⟩ =
        goto (m.kernel.storePriority p) .yield [] := if_pos hlow
    rw [if_pos hlow, serve_goto hrun (by simp) hyield]
    rw [serve_point hrun (by simp)]
    change (yieldPark _ >>= _).toOption.bind _ = _
    cases yieldPark (m.kernel.storePriority p) with
    | error f => rfl
    | ok k => exact congrArg (schedule k).toOption.bind (funext fun k' => hback k' n)
  · have hdone : exec (m.kernel.storePriority p) ⟨.setYield m.kernel.cur.priority, []⟩ =
        goto (m.kernel.storePriority p) .user [] := if_neg hlow
    rw [if_neg hlow, serve_goto hrun (by simp) hdone]
    exact hback _ _

/-- **The whole call.** -/
theorem threadSetPriority_eq (hflow : Flow m) (hm : m.kernel.mlfqs = false)
    (huser : m.curPc = .user) : threadSetPriority m p = m.afterStores p := by
  have hcall : step m (.call (.threadSetPriority p)) =
      .ok ⟨m.kernel, update m.ctl m.kernel.running ⟨.setPriority p, []⟩⟩ := by
    refine step_eq (o := ⟨m.kernel, ⟨.setPriority p, []⟩, false⟩) ?_ rfl
    refine (if_pos huser).trans ?_
    rw [hflow.stack_of_user huser]
    rfl
  obtain ⟨k₁, hk₁⟩ : ∃ k₁, k₁ = m.kernel.setThread m.kernel.running
      { m.kernel.cur with priorityOrigin := p } := ⟨_, rfl⟩
  have hrun : k₁.running = m.kernel.running := by rw [hk₁]; rfl
  have hcur : k₁.cur = { m.kernel.cur with priorityOrigin := p } := by
    rw [hk₁]
    exact update_self ..
  -- the points of the code, in order
  have hentry : exec m.kernel ⟨.setPriority p, []⟩ =
      goto m.kernel (.setOrigin p m.kernel.cur.priority) [] := if_neg (by rw [hm]; simp)
  have horigin : exec m.kernel ⟨.setOrigin p m.kernel.cur.priority, []⟩ =
      goto k₁ (.setTest p m.kernel.cur.priority) [] := by rw [hk₁]; rfl
  unfold threadSetPriority
  rw [hcall]
  change serve m.kernel.running 7 [] _ = _
  rw [serve_goto rfl (by simp) hentry, serve_goto rfl (by simp) horigin]
  by_cases htest : m.kernel.cur.priority < p ∨ m.kernel.cur.locksHolding = []
  · have hstore : k₁.setCurPriority p = m.kernel.storePriority p := by
      unfold Kernel.storePriority Kernel.setCurPriority
      rw [if_pos htest, hcur, hrun, hk₁]
      unfold Kernel.setThread
      dsimp only
      rw [update_idem]
    have hpass : exec k₁ ⟨.setTest p m.kernel.cur.priority, []⟩ =
        goto k₁ (.setStore p m.kernel.cur.priority) [] := if_pos (by rwa [hcur])
    have hset : exec k₁ ⟨.setStore p m.kernel.cur.priority, []⟩ =
        goto (k₁.setCurPriority p) (.setYield m.kernel.cur.priority) [] := rfl
    rw [serve_goto hrun (by simp) hpass, serve_goto hrun (by simp) hset, hstore]
    exact serve_setYield hflow huser 0
  · have hstore : k₁ = m.kernel.storePriority p := by
      unfold Kernel.storePriority
      rw [if_neg htest, hk₁]
    have hpass : exec k₁ ⟨.setTest p m.kernel.cur.priority, []⟩ =
        goto k₁ (.setYield m.kernel.cur.priority) [] := if_neg (by rwa [hcur])
    rw [serve_goto hrun (by simp) hpass, hstore]
    exact serve_setYield hflow huser 1

/-- **The call returns**, if the ready heap has room for the caller. -/
theorem afterStores_total (hroom : m.kernel.readyHeap.size + 1 < maxHeapSize) :
    ∃ m', m.afterStores p = some m' := by
  unfold Machine.afterStores
  split
  · obtain ⟨k, hk⟩ : ∃ k, yieldPark (m.kernel.storePriority p) = .ok k := by
      unfold yieldPark
      split
      · exact pushReady_total _ hroom
      · exact ⟨_, rfl⟩
    obtain ⟨k', hk'⟩ := schedule_total k
    rw [hk]
    change ∃ m', (schedule k).toOption.bind _ = some m'
    rw [hk']
    exact ⟨_, rfl⟩
  · exact ⟨_, rfl⟩

/-- What the call leaves: the memory after the stores, or what a yield makes of it. -/
theorem afterStores_cases (h : m.afterStores p = some m') :
    (m.kernel.cur.priority ≤ (m.kernel.storePriority p).cur.priority ∧
        m'.kernel = m.kernel.storePriority p) ∨
      ∃ k, yieldPark (m.kernel.storePriority p) = .ok k ∧ schedule k = .ok m'.kernel := by
  unfold Machine.afterStores at h
  split at h
  · obtain ⟨k, hk, h⟩ := Option.bind_eq_some_iff.mp h
    obtain ⟨k', hk', h⟩ := Option.bind_eq_some_iff.mp h
    cases h
    exact .inr ⟨k, toOption_eq_some.mp hk, toOption_eq_some.mp hk'⟩
  · next hge =>
    cases h
    exact .inl ⟨not_lt.mp hge, rfl⟩

/-- Priorities and locks are those after the stores. -/
theorem afterStores_stake (h : m.afterStores p = some m') :
    StakeFrame (m.kernel.storePriority p) m'.kernel := by
  rcases afterStores_cases h with ⟨-, heq⟩ | ⟨k, hk, hk'⟩
  · rw [heq]
    exact .refl _
  · exact (StakeFrame.yieldPark hk).trans (.dispatched (dispatched_of_schedule hk'))

/-! ### What it is to do -/

/-- **The yield.** The caller was not below a ready thread, so that one above it is there only if its
priority has gone down. -/
theorem afterStores_yielded (hcalm : Calm m) (huser : m.curPc = .user)
    (h : m.afterStores p = some m') {u : Tid} (hu : u ∈ m.kernel.readyHeap.items)
    (hlt : (m'.kernel.threads m.kernel.running).priority < (m'.kernel.threads u).priority) :
    m'.kernel.running ≠ m.kernel.running ∧
      (m'.kernel.threads u).priority ≤ m'.kernel.cur.priority := by
  have htop := hcalm.topmost
  rw [huser] at htop
  obtain ⟨hord, hunder⟩ := htop
  have hnot := hcalm.scheduled.queues.cur_notMem_ready hcalm.scheduled.cpu
  have hne : u ≠ m.kernel.running := fun heq => hnot (heq ▸ hu)
  have hprio := afterStores_stake h |>.priority
  rcases afterStores_cases h with ⟨hge, -⟩ | ⟨k, hk, hk'⟩
  · -- the priority has not gone down
    rw [hprio, hprio] at hlt
    have hsame : ((m.kernel.storePriority p).threads u).priority = (m.kernel.threads u).priority :=
      congrArg Thread.priority (update_of_ne hne ..)
    have := hunder u hu
    exact absurd (hlt.trans_le (hsame.le.trans (this.trans hge))) (lt_irrefl _)
  · have hord' : (m.kernel.storePriority p).ReadyOrdered := hord.setThread (.inl hnot)
    have hready : k.ReadyOrdered :=
      yieldPark_readyOrdered (k := m.kernel.storePriority p) hnot hord' hk
    have hmem : u ∈ k.readyHeap.items := yieldPark_subset hk hu
    have hle := under_of_schedule hready hk'
    by_cases hrun : u = m'.kernel.running
    · subst hrun
      exact ⟨hne, le_rfl⟩
    · have hule := hle u (schedule_ready hk' hmem hrun)
      refine ⟨fun heq => ?_, hule⟩
      unfold Kernel.cur at hule
      rw [heq] at hule
      exact absurd (hlt.trans_le hule) (lt_irrefl _)

theorem foldr_max_le {ds : List ℤ} {p x : ℤ} :
    ds.foldr max p ≤ x ↔ p ≤ x ∧ ∀ d ∈ ds, d ≤ x := by
  induction ds with
  | nil => simp
  | cons d ds ih => rw [List.foldr_cons, max_le_iff, ih, List.forall_mem_cons, and_left_comm]

/-- No donation is above the new priority. -/
theorem eq_foldr_max_iff {ds : List ℤ} {p : ℤ} : p = ds.foldr max p ↔ ∀ d ∈ ds, d ≤ p := by
  have hle : p ≤ ds.foldr max p := (foldr_max_le.mp le_rfl).1
  constructor
  · intro heq
    exact (foldr_max_le.mp heq.symm.le).2
  · intro hall
    exact le_antisymm hle (foldr_max_le.mpr ⟨le_rfl, hall⟩)

/-- When the stored priority is the documented one. -/
theorem storePriority_priority_iff (k : Kernel) (p : ℤ) :
    ((k.storePriority p).threads k.running).priority = (k.donations k.running).foldr max p ↔
      k.cur.locksHolding = [] ∨
        (k.cur.priority < p ∧ ∀ l ∈ k.cur.locksHolding, (k.locks l).priorityDonate ≤ p) ∨
        (p ≤ k.cur.priority ∧ k.cur.priority = (k.donations k.running).foldr max p) := by
  have hstored : ((k.storePriority p).threads k.running).priority =
      if k.cur.priority < p ∨ k.cur.locksHolding = [] then p else k.cur.priority :=
    congrArg Thread.priority (update_self (f := k.threads) ..)
  have hdon : k.donations k.running = k.cur.locksHolding.map fun l => (k.locks l).priorityDonate := rfl
  rw [hstored]
  by_cases hnone : k.cur.locksHolding = []
  · rw [if_pos (.inr hnone), hdon, hnone]
    exact iff_of_true rfl (.inl rfl)
  by_cases hraise : k.cur.priority < p
  · rw [if_pos (.inl hraise), eq_foldr_max_iff, hdon]
    simp only [hnone, hraise, not_le.mpr hraise, false_or, true_and, false_and, or_false,
      List.forall_mem_map]
  · rw [if_neg (not_or.mpr ⟨hraise, hnone⟩)]
    simp only [hnone, hraise, not_lt.mp hraise, false_or, true_and, false_and]

/-- **`thread_set_priority`.** In priority mode, with uninterrupted calls, in every reachable state: the
call returns if the ready heap has room, and the caller is then at the documented priority, and has
yielded if it has to, exactly if it held no lock, or the new priority was above its own and not below a
donation, or its own priority was the larger of the new one and the donations already. -/
theorem set_priority_documented {v : ℕ → ℕ} {h : List (Machine × Event)}
    (hrun : Run step uninterrupted (boot false v) h m) (huser : m.curPc = .user) (p : ℤ) :
    (m.kernel.readyHeap.size + 1 < maxHeapSize → ∃ m', threadSetPriority m p = some m') ∧
      ∀ m', threadSetPriority m p = some m' → (PrioritySet m p m' ↔
        m.kernel.cur.locksHolding = [] ∨
          (m.kernel.cur.priority < p ∧
            ∀ l ∈ m.kernel.cur.locksHolding, (m.kernel.locks l).priorityDonate ≤ p) ∨
          (p ≤ m.kernel.cur.priority ∧
            m.kernel.cur.priority = (m.kernel.donations m.kernel.running).foldr max p)) := by
  have hcalm : Calm m := hrun.invariant (.boot v) fun _ _ _ hI hg hs => hI.step hg hs
  rw [threadSetPriority_eq hcalm.scheduled.flow hcalm.mode huser]
  refine ⟨afterStores_total, fun m' hm' => ?_⟩
  have hstake := afterStores_stake hm'
  have hself : (m.kernel.storePriority p).threads m.kernel.running = { m.kernel.cur with
      priorityOrigin := p
      priority := if m.kernel.cur.priority < p ∨ m.kernel.cur.locksHolding = [] then p
        else m.kernel.cur.priority } := update_self ..
  have hdon : m'.kernel.donations m.kernel.running = m.kernel.donations m.kernel.running := by
    unfold Kernel.donations
    rw [hstake.holding, hself, hstake.locks]
    rfl
  rw [← storePriority_priority_iff, ← hstake.priority, ← hdon]
  refine ⟨PrioritySet.priority, fun hprio => ⟨?_, hprio, fun u hu => ?_⟩⟩
  · rw [hstake.origin, hself]
  · exact afterStores_yielded hcalm huser hm' hu

end Call

/-- The main thread, to which thread 2 donates priority 50, sets its priority to 10 and stays at 50. -/
theorem set_priority_documented_run : ∃ h m m',
    Run step uninterrupted (boot false fun _ => 0) h m ∧ m.curPc = .user ∧
      threadSetPriority m 10 = some m' ∧ m.kernel.cur.priority = 50 ∧ PrioritySet m 10 m' := by
  obtain ⟨h, m, hrun, hp⟩ := exists_run uninterrupted (fun m e => decide (uninterrupted m e))
    (fun _ _ => of_decide_eq_true) false (fun _ => 0)
    (Call.run (.lockAcquire 5) 5 ++ Call.run (.threadCreate 50 true) 32 ++
      Call.run (.lockAcquire 5) 14)
    (fun _ m => decide (m.curPc = .user ∧ m.kernel.readyHeap.size + 1 < maxHeapSize ∧
      m.kernel.cur.priority = 50 ∧ (m.kernel.donations m.kernel.running).foldr max 10 = 50))
    (by decide +kernel)
  obtain ⟨huser, hroom, hprio, hmax⟩ := of_decide_eq_true hp
  obtain ⟨m', hm'⟩ := (set_priority_documented hrun huser 10).1 hroom
  refine ⟨h, m, m', hrun, huser, hm', hprio, ?_⟩
  refine ((set_priority_documented hrun huser 10).2 m' hm').mpr (.inr (.inr ⟨?_, ?_⟩))
  · rw [hprio]
    decide
  · rw [hprio, hmax]

/-- **A lock without donations.** The main thread, which holds a lock that nobody waits for, sets its
priority to 10 and stays at 31. -/
theorem set_priority_ignored : ∃ h m m',
    Run step uninterrupted (boot false fun _ => 0) h m ∧ m.curPc = .user ∧
      threadSetPriority m 10 = some m' ∧ m'.kernel.donations m.kernel.running = [priMin] ∧
      (m'.kernel.threads m.kernel.running).priority = 31 ∧ ¬ PrioritySet m 10 m' := by
  obtain ⟨h, m, hrun, hp⟩ := exists_run uninterrupted (fun m e => decide (uninterrupted m e))
    (fun _ _ => of_decide_eq_true) false (fun _ => 0) (Call.run (.lockAcquire 5) 5)
    (fun _ m => decide (m.curPc = .user) && (threadSetPriority m 10).any fun m' : Machine =>
      decide (m'.kernel.donations m.kernel.running = [priMin] ∧
        (m'.kernel.threads m.kernel.running).priority = 31)) (by decide +kernel)
  obtain ⟨huser, hany⟩ := Bool.and_eq_true_iff.mp hp
  obtain ⟨m', hm', hleft⟩ := (Option.any_eq_true _ _).mp hany
  obtain ⟨hdon, hprio⟩ := of_decide_eq_true hleft
  refine ⟨h, m, m', hrun, of_decide_eq_true huser, hm', hdon, hprio, fun hset => ?_⟩
  have hmax := hset.priority
  rw [hdon, hprio] at hmax
  exact absurd hmax (by decide)

end Pintos
