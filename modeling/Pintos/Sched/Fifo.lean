import Pintos.Kernel.Machine

/-!
# The order of equals in the ready heap

The ready heap orders threads of one priority by `entry_ord`, the number of pushes before theirs.
This file follows the heap through runs of the sections that use it: `thread_unblock` and
`thread_yield` push, `schedule` pops, and in between the priorities of threads that are not
queued may change. The order in which threads were pushed is read off the history (`pushOrder`).

`push_cnt` is an `int64_t`, but `entry_ord` is an `int`: the number is truncated. As long as the
truncated counter is above the entries of the queued threads of the same priority, equals are
dispatched in the order they came (`equals_in_push_order`). The push after the first `2 ^ 31` gets
the entry `-2 ^ 31` and goes first (`equals_out_of_push_order`).

* `Queued` — the invariant: the heap is ordered, and among equals the entries grow with the
  pushes; `Queued.push` and `Queued.schedule` are its two steps.
* `Duel` — two threads of one priority that yield to each other, push after push.
-/

namespace Pintos

open Transition Function

/-! ### The sections that use the ready heap -/

/-- A section with interrupts off, as the ready heap sees it. -/
inductive SchedOp where
  /-- `thread_unblock (t)`. -/
  | unblock (t : Tid)
  /-- `thread_yield ()`. -/
  | yield
  /-- `thread_block ()`. -/
  | block
  /-- `thread_exit ()`. -/
  | exit
  /-- A change of a thread's priority. -/
  | setPriority (t : Tid) (p : ℤ)
  deriving DecidableEq, Repr

namespace SchedOp

/-- The thread that the section pushes. -/
def pushes (k : Kernel) : SchedOp → Option Tid
  | unblock t => some t
  | yield => if k.running ≠ k.idleThread then some k.running else none
  | block | exit | setPriority _ _ => none

/-- The section ends in `schedule ()`. -/
def switches : SchedOp → Bool
  | yield | block | exit => true
  | unblock _ | setPriority _ _ => false

/-- The section up to `schedule ()`. -/
def park (k : Kernel) : SchedOp → Except Fault Kernel
  | unblock t => threadUnblock k t
  | yield => yieldPark k
  | block => .ok (blockPark k)
  | exit =>
    let k := { k with allList := k.allList.erase k.running }
    .ok (k.setThread k.running { k.cur with status := .dying })
  | setPriority t p => .ok (k.setThread t { k.threads t with priority := p })

end SchedOp

/-- One section. -/
def schedStep (k : Kernel) (op : SchedOp) : Except Fault Kernel := do
  let k ← op.park k
  if op.switches then schedule k else .ok k

/-- No priority of a queued thread is changed. -/
def steadyQueue : Guard Kernel SchedOp := fun k op =>
  match op with
  | .setPriority t _ => t ∉ k.readyHeap.items
  | _ => True

/-- The truncated counter is above the entries of the queued threads that have the priority of
the thread to be pushed. -/
def entryFits : Guard Kernel SchedOp := fun k op =>
  ∀ t ∈ op.pushes k, ∀ a ∈ k.readyHeap.items, (k.threads a).priority = (k.threads t).priority →
    (k.threads a).entryOrd < toInt32 k.readyHeap.pushCnt

instance (k : Kernel) (op : SchedOp) : Decidable (steadyQueue k op) := by
  unfold steadyQueue
  split <;> infer_instance

instance (k : Kernel) (op : SchedOp) : Decidable (entryFits k op) :=
  inferInstanceAs (Decidable (∀ t ∈ op.pushes k, ∀ a ∈ k.readyHeap.items, _ → _))

/-- The threads in the order they were pushed, the latest first. -/
def pushOrder (h : List (Kernel × SchedOp)) : List Tid := h.filterMap fun p => p.2.pushes p.1

/-- The latest push of `a` is earlier than the latest push of `b`. -/
def PushedBefore (order : List Tid) (a b : Tid) : Prop := order.idxOf b < order.idxOf a

theorem PushedBefore.total {order : List Tid} {a b : Tid} (ha : a ∈ order) (hne : a ≠ b) :
    PushedBefore order a b ∨ PushedBefore order b a := by
  have hidx : order.idxOf a ≠ order.idxOf b := fun heq => hne ((List.idxOf_inj ha).mp heq)
  unfold PushedBefore
  omega

theorem PushedBefore.of_cons {order : List Tid} {t a b : Tid} (ha : a ≠ t) (hb : b ≠ t)
    (h : PushedBefore (t :: order) a b) : PushedBefore order a b := by
  unfold PushedBefore at h ⊢
  rw [List.idxOf_cons_ne _ ha.symm, List.idxOf_cons_ne _ hb.symm] at h
  exact Nat.lt_of_succ_lt_succ h

theorem not_pushedBefore_head {order : List Tid} {t b : Tid} : ¬ PushedBefore (t :: order) t b := by
  unfold PushedBefore
  rw [List.idxOf_cons_self]
  exact Nat.not_lt_zero _

/-! ### What a run keeps -/

/-- The ready heap after the pushes `order`. -/
structure Queued (order : List Tid) (k : Kernel) : Prop where
  ordered : k.ReadyOrdered
  ready : ∀ t ∈ k.readyHeap.items, (k.threads t).status = .ready
  nodup : k.readyHeap.items.Nodup
  pushed : ∀ t ∈ k.readyHeap.items, t ∈ order
  /-- Among equals, the entries grow with the pushes. -/
  entries : ∀ a ∈ k.readyHeap.items, ∀ b ∈ k.readyHeap.items,
    (k.threads a).priority = (k.threads b).priority → PushedBefore order a b →
    (k.threads a).entryOrd < (k.threads b).entryOrd

section Keep

variable {order : List Tid} {k k' : Kernel} {t : Tid}

/-- A change that leaves the heap and the threads in it alone. -/
theorem Queued.frame (h : Queued order k) (hheap : k'.readyHeap = k.readyHeap)
    (hthr : ∀ t ∈ k.readyHeap.items, k'.threads t = k.threads t) : Queued order k' := by
  refine ⟨h.ordered.congr hheap fun t ht => by rw [hthr t ht]; exact ⟨rfl, rfl⟩, ?_, ?_, ?_, ?_⟩
  · intro t ht
    rw [hheap] at ht
    rw [hthr t ht]
    exact h.ready t ht
  · rw [hheap]
    exact h.nodup
  · rw [hheap]
    exact h.pushed
  · rw [hheap]
    intro a ha b hb
    rw [hthr a ha, hthr b hb]
    exact h.entries a ha b hb

/-- A thread that is not queued may change. -/
theorem Queued.setThread (h : Queued order k) (ht : t ∉ k.readyHeap.items) (x : Thread) :
    Queued order (k.setThread t x) := by
  refine h.frame rfl fun u hu => ?_
  have hut : u ≠ t := fun heq => ht (heq ▸ hu)
  exact update_of_ne hut _ _

/-- **A push.** The newcomer is the last of its equals. -/
theorem Queued.push (h : Queued order k) (hpush : pushReady k t = .ok k')
    (ht : t ∉ k.readyHeap.items) (hfits : ∀ a ∈ k.readyHeap.items,
      (k.threads a).priority = (k.threads t).priority →
      (k.threads a).entryOrd < toInt32 k.readyHeap.pushCnt) : Queued (t :: order) k' := by
  obtain ⟨hord, -, -⟩ := pushReady_counter hpush
  obtain ⟨ord, heap, rfl, hitems, hkeep⟩ := pushReady_ok hpush
  have hne : ∀ a ∈ k.readyHeap.items, a ≠ t := fun a ha heq => ht (heq ▸ ha)
  refine ⟨hkeep ht h.ordered, ?_, ?_, ?_, ?_⟩
  · intro u hu
    rw [hitems] at hu
    change (update k.threads t _ u).status = _
    rcases Multiset.mem_cons.mp hu with rfl | hu
    · rw [update_self]
    · rw [update_of_ne (hne u hu)]
      exact h.ready u hu
  · rw [hitems]
    exact Multiset.nodup_cons.mpr ⟨ht, h.nodup⟩
  · intro u hu
    rw [hitems] at hu
    rcases Multiset.mem_cons.mp hu with rfl | hu
    · exact List.mem_cons_self
    · exact List.mem_cons_of_mem _ (h.pushed u hu)
  · intro a ha b hb hprio hbefore
    rw [hitems] at ha hb
    -- the newcomer comes before nobody
    rcases Multiset.mem_cons.mp ha with rfl | hold
    · exact absurd hbefore not_pushedBefore_head
    have hat := hne a hold
    change (update k.threads t _ a).priority = (update k.threads t _ b).priority
      at hprio
    change (update k.threads t _ a).entryOrd < _
    rw [update_of_ne hat] at hprio ⊢
    rcases Multiset.mem_cons.mp hb with rfl | hbold
    · rw [hord]
      refine hfits a hold (hprio.trans ?_)
      rw [update_self]
    · change _ < (update k.threads t _ b).entryOrd
      rw [update_of_ne (hne b hbold)] at hprio ⊢
      exact h.entries a hold b hbold hprio (hbefore.of_cons hat (hne b hbold))

/-- **A pop.** The thread that is dispatched came before all its equals. -/
theorem Queued.schedule (h : Queued order k) (hs : Pintos.schedule k = .ok k') :
    Queued order k' ∧ k'.cur.status = .running ∧ k'.running ∉ k'.readyHeap.items ∧
      ∀ a ∈ k'.readyHeap.items, (k'.threads a).priority = k'.cur.priority →
        PushedBefore order k'.running a := by
  obtain ⟨next, heap, freed, rfl, hcase⟩ := schedule_ok hs
  have hcpu : (update k.threads next { k.threads next with status := .running } next).status
      = .running := by rw [update_self]
  rcases hcase with ⟨hsize, -, rfl⟩ | hpop
  · -- nobody is queued
    have hempty := Heap.items_eq_zero_of_size hsize
    have hnone : ∀ a, a ∉ k.readyHeap.items := fun a ha => by
      rw [hempty] at ha
      exact Multiset.notMem_zero a ha
    exact ⟨h.frame rfl fun t ht => absurd ht (hnone t), hcpu, hnone next,
      fun a ha => absurd ha (hnone a)⟩
  · obtain ⟨-, hitems, -, hmax⟩ := heapPop_ok hpop
    obtain ⟨hheap, hmax⟩ := hmax inferInstance h.ordered
    have hnd := h.nodup
    rw [hitems] at hnd
    obtain ⟨hnext, hnd⟩ := Multiset.nodup_cons.mp hnd
    have hsub : ∀ a ∈ heap.items, a ∈ k.readyHeap.items := fun a ha => by
      rw [hitems]
      exact Multiset.mem_cons_of_mem ha
    have hmem : next ∈ k.readyHeap.items := by
      rw [hitems]
      exact Multiset.mem_cons_self _ _
    have hrest : Queued order { k with readyHeap := heap } :=
      ⟨hheap, fun t ht => h.ready t (hsub t ht), hnd, fun t ht => h.pushed t (hsub t ht),
        fun a ha b hb => h.entries a (hsub a ha) b (hsub b hb)⟩
    refine ⟨(hrest.setThread hnext _).frame rfl fun _ _ => rfl, hcpu, hnext, fun a ha hprio => ?_⟩
    have hne : a ≠ next := fun heq => hnext (heq ▸ ha)
    change (update k.threads next _ a).priority = (update k.threads next _ next).priority
      at hprio
    rw [update_of_ne hne, update_self] at hprio
    -- an equal pushed earlier has the smaller entry, and would have been the maximum
    refine (PushedBefore.total (h.pushed next hmem) hne.symm).resolve_right fun hbefore => ?_
    apply hmax a (hsub a ha)
    unfold cmpThreadPriorityHeap
    rw [if_neg (not_not.mpr hprio.symm)]
    exact decide_eq_true (h.entries a (hsub a ha) next hmem hprio hbefore)

end Keep

section Step

variable {h : List (Kernel × SchedOp)} {k k' : Kernel} {op : SchedOp}

/-- The invariant of a run: the queue, and the CPU outside it. -/
structure InTurn (h : List (Kernel × SchedOp)) (k : Kernel) : Prop where
  queued : Queued (pushOrder h) k
  cpu : k.cur.status = .running

theorem InTurn.notMem (hI : InTurn h k) : k.running ∉ k.readyHeap.items := by
  intro hmem
  have hst := hI.queued.ready _ hmem
  rw [show (k.threads k.running).status = .running from hI.cpu] at hst
  cases hst

theorem pushOrder_cons (h : List (Kernel × SchedOp)) (k : Kernel) (op : SchedOp) :
    pushOrder ((k, op) :: h) = (op.pushes k).toList ++ pushOrder h := by
  unfold pushOrder
  rw [List.filterMap_cons]
  cases op.pushes k <;> rfl

/-- A section up to its dispatch. -/
theorem InTurn.park (hI : InTurn h k) (hsteady : steadyQueue k op) (hfits : entryFits k op)
    (hp : op.park k = .ok k') : Queued (pushOrder ((k, op) :: h)) k' ∧
      (op.switches = false → k'.cur.status = .running) := by
  rw [pushOrder_cons]
  cases op with
  | unblock t =>
    obtain ⟨hblocked, hpush⟩ := threadUnblock_ok hp
    have ht : t ∉ k.readyHeap.items := fun hmem => by
      rw [hI.queued.ready t hmem] at hblocked
      cases hblocked
    refine ⟨hI.queued.push hpush ht (hfits t rfl), fun _ => ?_⟩
    obtain ⟨ord, heap, rfl, -⟩ := pushReady_ok hpush
    have hne : k.running ≠ t := fun heq => by
      rw [← heq, show (k.threads k.running).status = .running from hI.cpu] at hblocked
      cases hblocked
    change (update k.threads t _ k.running).status = _
    rw [update_of_ne hne]
    exact hI.cpu
  | yield =>
    refine ⟨?_, fun hsw => absurd hsw (by simp [SchedOp.switches])⟩
    unfold SchedOp.pushes
    rcases yieldPark_ok hp with ⟨hne, hpush⟩ | ⟨heq, rfl⟩
    · rw [if_pos hne]
      refine hI.queued.push hpush hI.notMem (hfits _ ?_)
      unfold SchedOp.pushes
      rw [if_pos hne]
      rfl
    · rw [if_neg (not_not.mpr heq)]
      exact hI.queued.setThread hI.notMem _
  | block =>
    cases hp
    exact ⟨hI.queued.setThread hI.notMem _, fun hsw => absurd hsw (by simp [SchedOp.switches])⟩
  | exit =>
    cases hp
    refine ⟨?_, fun hsw => absurd hsw (by simp [SchedOp.switches])⟩
    exact (hI.queued.setThread hI.notMem { k.cur with status := .dying }).frame rfl fun _ _ => rfl
  | setPriority t p =>
    cases hp
    refine ⟨hI.queued.setThread hsteady _, fun _ => ?_⟩
    refine Eq.trans ?_ hI.cpu
    refine apply_update_same Thread.status ?_ k.running
    rfl

/-- **One section**, and whom it dispatches. -/
theorem InTurn.step (hI : InTurn h k) (hsteady : steadyQueue k op) (hfits : entryFits k op)
    (hs : schedStep k op = .ok k') : InTurn ((k, op) :: h) k' ∧
      (op.switches = true → ∀ a ∈ k'.readyHeap.items, (k'.threads a).priority = k'.cur.priority →
        PushedBefore (pushOrder ((k, op) :: h)) k'.running a) := by
  obtain ⟨k₁, hp, hs⟩ := bind_eq_ok.mp hs
  obtain ⟨hq, hcpu⟩ := hI.park hsteady hfits hp
  cases hsw : op.switches with
  | false =>
    rw [hsw] at hs
    cases hs
    exact ⟨⟨hq, hcpu hsw⟩, fun h => absurd h (by simp)⟩
  | true =>
    rw [hsw] at hs
    obtain ⟨hq', hcpu', -, hfirst⟩ := hq.schedule hs
    exact ⟨⟨hq', hcpu'⟩, fun _ => hfirst⟩

theorem InTurn.boot (v : ℕ → ℕ) : InTurn [] (boot false v).kernel := by
  have hnone : ∀ t, t ∉ (Pintos.boot false v).kernel.readyHeap.items := fun t ht =>
    Multiset.notMem_zero t ht
  refine ⟨⟨fun i h2 hn => ?_, fun t ht => absurd ht (hnone t), Multiset.nodup_zero,
    fun t ht => absurd ht (hnone t), fun t ht => absurd ht (hnone t)⟩, rfl⟩
  exact absurd (le_trans h2 hn) (show ¬ 2 ≤ 0 by decide)

end Step

/-- No priority of a queued thread is changed, and the counter is above the entries. -/
def steadyFits : Guard Kernel SchedOp := fun k op => steadyQueue k op ∧ entryFits k op

instance (k : Kernel) (op : SchedOp) : Decidable (steadyFits k op) :=
  inferInstanceAs (Decidable (_ ∧ _))

/-- **Equals are dispatched in the order they were pushed.** In every run in which no queued
thread's priority changes and the truncated counter is above the entries of queued equals at
every push, the thread that a `schedule` dispatches was pushed before every thread of its
priority that stays in the heap. -/
theorem equals_in_push_order {v : ℕ → ℕ} {h : List (Kernel × SchedOp)} {k k' : Kernel}
    {op : SchedOp} (hrun : Run schedStep steadyFits (boot false v).kernel ((k, op) :: h) k')
    (hsw : op.switches = true) {a : Tid} (ha : a ∈ k'.readyHeap.items)
    (hprio : (k'.threads a).priority = k'.cur.priority) :
    PushedBefore (pushOrder ((k, op) :: h)) k'.running a := by
  cases hrun with
  | tail hrun hg hs =>
    have hI : InTurn h k := hrun.invariant_history (I := InTurn) (.boot v)
      fun h k op k' hI hg hs => (hI.step hg.1 hg.2 hs).1
    exact (hI.step hg.1 hg.2 hs).2 hsw a ha hprio

theorem equals_in_push_order_run : ∃ h k k', Run schedStep steadyFits (boot false fun _ => 0).kernel
    ((k, .yield) :: h) k' ∧ k'.running = 2 ∧ 0 ∈ k'.readyHeap.items ∧
    PushedBefore (pushOrder ((k, .yield) :: h)) 2 0 := by
  have hplay : (play schedStep (fun k op => decide (steadyFits k op)) (boot false fun _ => 0).kernel
      [.setPriority 2 31, .unblock 2]).any (fun r => decide (steadyFits r.2 .yield) &&
        (schedStep r.2 .yield).toOption.any fun k' : Kernel => decide (k'.running = 2 ∧
          0 ∈ k'.readyHeap.items ∧ (k'.threads 0).priority = k'.cur.priority)) = true := by
    decide +kernel
  obtain ⟨h, k, hrun, hp⟩ := exists_run_of_play (G := steadyFits)
    (p := fun _ k => decide (steadyFits k .yield) &&
      (schedStep k .yield).toOption.any fun k' : Kernel => decide (k'.running = 2 ∧
        0 ∈ k'.readyHeap.items ∧ (k'.threads 0).priority = k'.cur.priority))
    (fun _ _ => of_decide_eq_true) hplay
  obtain ⟨hg, hp⟩ := Bool.and_eq_true_iff.mp hp
  cases hs : schedStep k .yield with
  | error f =>
    rw [hs] at hp
    exact absurd hp (by simp [Except.toOption])
  | ok k' =>
    rw [hs] at hp
    obtain ⟨hcur, hmem, hprio⟩ := of_decide_eq_true hp
    have hrun' := Run.tail hrun (of_decide_eq_true hg) hs
    exact ⟨h, k, k', hrun', hcur, hmem, hcur ▸ equals_in_push_order hrun' rfl hmem hprio⟩

/-! ### The push that overtakes -/

/-- The running thread and the thread `o`, alone in the heap, have one priority. -/
structure Duel (o : Tid) (k : Kernel) : Prop where
  items : k.readyHeap.items = {o}
  size : k.readyHeap.size = 1
  other : o ≠ k.running
  idle : k.running ≠ k.idleThread
  idle_other : o ≠ k.idleThread
  equal : (k.threads o).priority = k.cur.priority

section Duel

variable {o : Tid} {k : Kernel}

/-- A yield puts the two threads against each other: the one with the smaller entry runs. -/
theorem Duel.yield (h : Duel o k) : ∃ k' next left, schedStep k .yield = .ok k' ∧
    k'.running = next ∧ Duel left k' ∧
    (next = o ∧ left = k.running ∨ next = k.running ∧ left = o) ∧
    k'.readyHeap.pushCnt = (k.readyHeap.pushCnt + 1).bmod (2 ^ 64) ∧
    (k'.threads k.running).entryOrd = toInt32 k.readyHeap.pushCnt ∧
    (k'.threads o).entryOrd = (k.threads o).entryOrd ∧
    (k'.threads next).entryOrd ≤ (k'.threads left).entryOrd := by
  obtain ⟨k₁, hpush⟩ := pushReady_total (k := k) k.running (by rw [h.size]; decide)
  obtain ⟨k', hsched⟩ := schedule_total k₁
  have hstep : schedStep k .yield = .ok k' := by
    change (do let k ← yieldPark k; if true then schedule k else .ok k) = _
    unfold yieldPark
    rw [if_pos h.idle, hpush]
    exact hsched
  have hnot : k.running ∉ k.readyHeap.items := by
    rw [h.items]
    exact fun hmem => h.other (Multiset.mem_singleton.mp hmem).symm
  have hord : k.ReadyOrdered := fun i h2 hn => by
    rw [h.size] at hn
    exact absurd (le_trans h2 hn) (by decide)
  obtain ⟨hentry, hcnt, hsize⟩ := pushReady_counter hpush
  obtain ⟨ord, heap, hk₁, hitems, hkeep⟩ := pushReady_ok hpush
  have hheap : k₁.readyHeap.items = {k.running, o} := by
    rw [hk₁]
    exact hitems.trans (by rw [h.items]; rfl)
  have hprio : ∀ t, (k₁.threads t).priority = (k.threads t).priority := fun t => by
    rw [hk₁]
    exact apply_update_same Thread.priority (by rfl) t
  have hidle : k₁.idleThread = k.idleThread := by rw [hk₁]
  have hother : k₁.threads o = k.threads o := by
    rw [hk₁]
    exact update_of_ne h.other _ _
  obtain ⟨next, rest, freed, rfl, hcase⟩ := schedule_ok hsched
  rcases hcase with ⟨hzero, -, -⟩ | hpop
  · rw [hsize] at hzero
    exact absurd hzero (Nat.succ_ne_zero _)
  obtain ⟨hs, hpopped, hcnt', hmax⟩ := heapPop_ok hpop
  obtain ⟨-, hmax⟩ := hmax inferInstance (hkeep hnot hord)
  rw [hsize, h.size] at hs
  rw [hheap] at hpopped hmax
  have hmarked : ∀ t, (update k₁.threads next
      { k₁.threads next with status := .running } t).priority = (k₁.threads t).priority ∧
      (update k₁.threads next { k₁.threads next with status := .running } t).entryOrd
        = (k₁.threads t).entryOrd :=
    fun t => ⟨apply_update_same Thread.priority (by rfl) t,
      apply_update_same Thread.entryOrd (by rfl) t⟩
  -- the two orders in which the heap can give them out
  obtain ⟨left, hleft, hcase⟩ : ∃ left, rest.items = {left} ∧
      (next = o ∧ left = k.running ∨ next = k.running ∧ left = o) := by
    have hmem : next ∈ ({k.running, o} : Multiset Tid) := by
      rw [hpopped]
      exact Multiset.mem_cons_self _ _
    rcases Multiset.mem_cons.mp hmem with rfl | hmem
    · exact ⟨o, ((Multiset.cons_inj_right _).mp hpopped).symm, .inr ⟨rfl, rfl⟩⟩
    · obtain rfl := Multiset.mem_singleton.mp hmem
      rw [Multiset.pair_comm] at hpopped
      exact ⟨k.running, ((Multiset.cons_inj_right _).mp hpopped).symm, .inl ⟨rfl, rfl⟩⟩
  have hequal : (k₁.threads left).priority = (k₁.threads next).priority := by
    rw [hprio, hprio]
    rcases hcase with ⟨rfl, rfl⟩ | ⟨rfl, rfl⟩
    · exact h.equal.symm
    · exact h.equal
  refine ⟨_, next, left, hstep, rfl, ⟨hleft, Nat.succ.inj hs.symm, ?_, ?_, ?_, ?_⟩, hcase,
    hcnt'.trans hcnt, (hmarked _).2.trans hentry, (hmarked o).2.trans (by rw [hother]), ?_⟩
  · rcases hcase with ⟨rfl, rfl⟩ | ⟨rfl, rfl⟩
    · exact h.other.symm
    · exact h.other
  · rw [hidle]
    rcases hcase with ⟨rfl, -⟩ | ⟨rfl, -⟩
    · exact h.idle_other
    · exact h.idle
  · rw [hidle]
    rcases hcase with ⟨-, rfl⟩ | ⟨-, rfl⟩
    · exact h.idle
    · exact h.idle_other
  · exact (hmarked left).1.trans (hequal.trans (hmarked next).1.symm)
  · rw [(hmarked next).2, (hmarked left).2]
    have hnot := hmax left (by rw [hpopped, hleft]; simp)
    unfold cmpThreadPriorityHeap at hnot
    rw [if_neg (not_not.mpr hequal.symm)] at hnot
    exact not_lt.mp fun hlt => hnot (decide_eq_true hlt)

/-- The duel in the run after `n + 1` pushes: the queued thread came last, with the entry `n`. -/
structure DuelAt (n : ℕ) (o : Tid) (h : List (Kernel × SchedOp)) (k : Kernel) : Prop where
  duel : Duel o k
  counter : k.readyHeap.pushCnt = n + 1
  entry : (k.threads o).entryOrd = n
  last : (pushOrder h).head? = some o

theorem pushOrder_yield {h : List (Kernel × SchedOp)} (hd : Duel o k) :
    pushOrder ((k, .yield) :: h) = k.running :: pushOrder h := by
  rw [pushOrder_cons]
  unfold SchedOp.pushes
  rw [if_pos hd.idle]
  rfl

/-- While the counter fits, the two take turns. -/
theorem DuelAt.step {n : ℕ} {h : List (Kernel × SchedOp)} (hd : DuelAt n o h k)
    (hn : n + 1 < 2 ^ 31) : ∃ k', schedStep k .yield = .ok k' ∧
      DuelAt (n + 1) k.running ((k, .yield) :: h) k' := by
  obtain ⟨k', next, left, hs, hnext, hduel, hcase, hcnt, hentry, hother, hle⟩ := hd.duel.yield
  rw [hd.counter, toInt32_of_fits (by omega) (by omega)] at hentry
  rw [hd.entry] at hother
  rcases hcase with ⟨rfl, rfl⟩ | ⟨rfl, rfl⟩
  · refine ⟨k', hs, hduel, ?_, by rw [hentry]; omega, by rw [pushOrder_yield hd.duel]; rfl⟩
    rw [hcnt, hd.counter, Int.bmod_eq_of_le (by omega) (by omega)]
    omega
  · rw [hentry, hother] at hle
    omega

/-- When the counter no longer fits, the thread that yields goes first. -/
theorem DuelAt.overtake {h : List (Kernel × SchedOp)} (hd : DuelAt (2 ^ 31 - 1) o h k) :
    ∃ k', schedStep k .yield = .ok k' ∧ k'.running = k.running ∧ Duel o k' := by
  obtain ⟨k', next, left, hs, hnext, hduel, hcase, -, hentry, hother, hle⟩ := hd.duel.yield
  rw [hd.counter] at hentry
  rw [hd.entry] at hother
  rcases hcase with ⟨rfl, rfl⟩ | ⟨rfl, rfl⟩
  · rw [hentry, hother] at hle
    exact absurd hle (by decide)
  · exact ⟨k', hs, hnext, hduel⟩

/-- Two threads of one priority yield to each other until the counter is at `2 ^ 31`. -/
theorem exists_duelAt : ∀ n < 2 ^ 31, ∃ h k o,
    Run schedStep steadyQueue (boot false fun _ => 0).kernel h k ∧ DuelAt n o h k := by
  intro n
  induction n with
  | zero =>
    intro _
    have hplay : (play schedStep (fun k op => decide (steadyQueue k op))
        (boot false fun _ => 0).kernel [.setPriority 2 31, .unblock 2]).any (fun r =>
          decide (r.2.readyHeap.items = {2} ∧ r.2.readyHeap.size = 1 ∧ r.2.running = 0 ∧
            r.2.idleThread = 1 ∧ (r.2.threads 2).priority = r.2.cur.priority ∧
            r.2.readyHeap.pushCnt = 1 ∧ (r.2.threads 2).entryOrd = 0 ∧
            (pushOrder r.1).head? = some 2)) = true := by decide +kernel
    obtain ⟨h, k, hrun, hp⟩ := exists_run_of_play (G := steadyQueue)
      (p := fun h k => decide (k.readyHeap.items = {2} ∧ k.readyHeap.size = 1 ∧ k.running = 0 ∧
        k.idleThread = 1 ∧ (k.threads 2).priority = k.cur.priority ∧ k.readyHeap.pushCnt = 1 ∧
        (k.threads 2).entryOrd = 0 ∧ (pushOrder h).head? = some 2))
      (fun _ _ => of_decide_eq_true) hplay
    obtain ⟨hitems, hsize, hcur, hidle, hprio, hcnt, hentry, hlast⟩ := of_decide_eq_true hp
    refine ⟨h, k, 2, hrun, ⟨hitems, hsize, ?_, ?_, ?_, hprio⟩, hcnt, hentry, hlast⟩
    · rw [hcur]
      simp
    · rw [hcur, hidle]
      simp
    · rw [hidle]
      simp
  | succ n ih =>
    intro hn
    obtain ⟨h, k, o, hrun, hd⟩ := ih (Nat.lt_of_succ_lt hn)
    obtain ⟨k', hs, hd'⟩ := hd.step hn
    exact ⟨_, k', _, .tail hrun (show steadyQueue k .yield from trivial) hs, hd'⟩

end Duel

/-- **The entry wraps.** Two threads of one priority have yielded to each other `2 ^ 31` times in
all. The next yield pushes the running thread after the other one, and runs it first. -/
theorem equals_out_of_push_order : ∃ h k k' a,
    Run schedStep steadyQueue (boot false fun _ => 0).kernel ((k, .yield) :: h) k' ∧
    a ∈ k'.readyHeap.items ∧ (k'.threads a).priority = k'.cur.priority ∧
    PushedBefore (pushOrder ((k, .yield) :: h)) a k'.running := by
  obtain ⟨h, k, o, hrun, hd⟩ := exists_duelAt (2 ^ 31 - 1) (by decide)
  obtain ⟨k', hs, hcur, hd'⟩ := hd.overtake
  refine ⟨h, k, k', o, .tail hrun (show steadyQueue k .yield from trivial) hs, ?_, hd'.equal, ?_⟩
  · rw [hd'.items]
    exact Multiset.mem_singleton_self o
  · rw [hcur, pushOrder_yield hd.duel]
    unfold PushedBefore
    rw [List.idxOf_cons_self, List.idxOf_cons_ne _ hd.duel.other.symm]
    exact Nat.succ_pos _

end Pintos
