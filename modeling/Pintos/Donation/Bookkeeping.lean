import Pintos.Sync.Ownership
import Pintos.Donation.Stake

/-!
# The bookkeeping of donations

Every lock caches the highest priority donated through it (`priority_donate`), and a thread's
priority is meant to be the maximum of the priority it was given and of the donations to the
locks it holds. Three functions compute a priority in one statement and store it in a later
one, with interrupts on: `thread_update_priority`, `thread_set_priority` and `donate_priority`.

* `updatesWhole` / `setsInRange` — the conditions under which no donation gets lost: no timer
  interrupt comes between such a computation and its store, and `thread_set_priority` is not
  called with a priority below `PRI_MIN`, which is what `lock_release` leaves in
  `priority_donate`;
* `Donated` — what then holds in every state, with preemption everywhere else: the holder of a
  lock has at least the priority donated through it, unless a donor has stored its donation
  and not raised the holder yet.
-/

namespace Pintos

open Transition LockTable Function

/-! ### The conditions -/

/-- The points between the computation of a priority and its store. -/
def Pc.midUpdate : Pc → Bool
  | .donateRaise _ _ _ | .updateScan _ _ _ _ | .updateStore _ _ | .setStore _ _ => true
  | _ => false

/-- No timer interrupt comes between the computation of a priority and its store. -/
def updatesWhole : Guard Machine Event := fun m e => e = .tick → m.curPc.midUpdate = false

/-- `thread_set_priority` is not called with a priority below `PRI_MIN`. -/
def setsInRange : Guard Machine Event := fun _ e =>
  match e with
  | .call (.threadSetPriority p) => priMin ≤ p
  | _ => True

instance (m : Machine) (e : Event) : Decidable (updatesWhole m e) :=
  inferInstanceAs (Decidable (_ → _))

instance (m : Machine) (e : Event) : Decidable (setsInRange m e) := by
  unfold setsInRange
  split <;> infer_instance

theorem uninterrupted.updatesWhole {m : Machine} {e : Event} (h : uninterrupted m e) :
    updatesWhole m e := by
  intro he
  rcases h he with hpc | hpc <;> rw [hpc] <;> rfl

/-! ### Priorities are at least `PRI_MIN` -/

/-- No thread has or was given a priority below `PRI_MIN`. -/
def Kernel.Bounded (k : Kernel) : Prop :=
  ∀ t, priMin ≤ (k.threads t).priority ∧ priMin ≤ (k.threads t).priorityOrigin

/-- The priority that the code at this point is going to store. -/
def Pc.carried : Pc → Option ℤ
  | .setPriority p | .setOrigin p _ | .setTest p _ | .setStore p _ | .updateScan _ p _ _
  | .updateStore _ p => some p
  | _ => none

theorem ret_carried (t : Tid) (st : List Frame) : (ret t st).pc.carried = none := by
  cases st with
  | nil => rfl
  | cons f st => cases f <;> rfl

theorem afterDown_carried (t : Tid) (s : SemaRef) (st : List Frame) :
    (afterDown t s st).pc.carried = none := by
  cases s with
  | lock l => rfl
  | sema n => exact ret_carried t st
  | waiter w => exact ret_carried t st

theorem Updater.next_carried (u : Updater) : u.next.carried = none := by
  cases u <;> rfl

section Bounded

variable {k k' : Kernel} {t : Tid} {x : Thread} {c c' : Control} {o : Outcome}

theorem Kernel.Bounded.setThread (h : k.Bounded)
    (hx : priMin ≤ x.priority ∧ priMin ≤ x.priorityOrigin) : (k.setThread t x).Bounded := by
  intro u
  change priMin ≤ (update k.threads t x u).priority ∧
    priMin ≤ (update k.threads t x u).priorityOrigin
  by_cases hu : u = t
  · subst hu
    rw [update_self]
    exact hx
  · rw [update_of_ne hu]
    exact h u

theorem Kernel.Bounded.frame (h : k.Bounded) (hf : StakeFrame k k') : k'.Bounded := by
  intro t
  rw [hf.priority, hf.origin]
  exact h t

theorem Silent.carried (hs : Silent k c c') (h : k.Bounded)
    (hc : ∀ p, c.pc.carried = some p → priMin ≤ p) :
    ∀ p, c'.pc.carried = some p → priMin ≤ p := by
  have hnone : ∀ {pc : Pc}, pc.carried = none → ∀ p, pc.carried = some p → priMin ≤ p :=
    fun hpc p hp => absurd (hpc.symm.trans hp) (by simp)
  cases hs with
  | updateNone | updateStart =>
    intro p hp
    cases hp
    exact (h k.running).2
  | @updateLast u q m st =>
    intro p hp
    cases hp
    exact (hc q rfl).trans (le_max_left _ _)
  | _ => first | exact hc | exact hnone rfl | exact hnone (ret_carried _ _)

theorem Exec.bounded (hex : Exec k c o) (hm : k.mlfqs = false) (hmode : c.pc.inMode k.mlfqs = true)
    (h : k.Bounded) (hc : ∀ p, c.pc.carried = some p → priMin ≤ p) :
    o.kernel.Bounded ∧ ∀ p, o.ctl.pc.carried = some p → priMin ≤ p := by
  have hnone : ∀ {pc : Pc}, pc.carried = none → ∀ p, pc.carried = some p → priMin ≤ p :=
    fun hpc p hp => absurd (hpc.symm.trans hp) (by simp)
  have hcur : priMin ≤ k.cur.priority ∧ priMin ≤ k.cur.priorityOrigin := h k.running
  rw [hm] at hmode
  cases hex with
  | silent hs => exact ⟨h, hs.carried h hc⟩
  | @downTake pc s st hpc => exact ⟨h, hnone (afterDown_carried _ _ _)⟩
  | @downBlock pc s st hpc =>
    exact ⟨h.frame (.of_update rfl rfl rfl), hnone rfl⟩
  | setHolder | donateStore => exact ⟨h, hnone rfl⟩
  | setWaiting => exact ⟨h.setThread hcur, hnone rfl⟩
  | pushHolding => exact ⟨h.setThread hcur, hnone (ret_carried _ _)⟩
  | acquired => exact ⟨h.setThread hcur, hnone (ret_carried _ _)⟩
  | releaseClear => exact ⟨h.setThread hcur, hnone rfl⟩
  | @donateRaise l t dep lw x st hw hx => exact ⟨h.setThread ⟨(h t).1, (h x).2⟩, hnone rfl⟩
  | @updateStore u p st => exact ⟨h.setThread ⟨hc p rfl, hcur.2⟩, hnone u.next_carried⟩
  | updateMlfqs hst => cases hst <;> exact absurd hmode (by simp [Pc.inMode])
  | @setOrigin p old st => exact ⟨h.setThread ⟨hcur.1, hc p rfl⟩, hc⟩
  | @setStore p old st => exact ⟨h.setThread ⟨hc p rfl, hcur.2⟩, hnone rfl⟩
  | @createInit p t st k' hi =>
    obtain ⟨hp, rfl⟩ := initThread_ok hi
    exact ⟨h.setThread (x := freshThread .blocked p) ⟨hp.1, hp.1⟩, hnone rfl⟩
  | createMlfqs hmlfqs => exact absurd (hm.symm.trans hmlfqs) (by simp)
  | upWake hmem hmax hub => exact ⟨h.frame ((Exec.upWake hmem hmax hub).stakeFrame rfl), hnone rfl⟩
  | createUnblock hub => exact ⟨h.frame (.pushReady (threadUnblock_ok hub).2), hnone rfl⟩
  | yield hy => exact ⟨h.frame (.yieldPark hy), hnone (ret_carried _ _)⟩
  | sleep _ hs => exact ⟨h.frame (.sleepPark hs), hnone rfl⟩
  | _ => first
    | exact ⟨h, hnone rfl⟩
    | exact ⟨h, hnone (ret_carried _ _)⟩
    | exact ⟨h.setThread hcur, hnone rfl⟩

end Bounded

/-! ### What a store relies on -/

/-- What the running thread has established for the store it is about to make. -/
def Pc.Prepared (k : Kernel) : Pc → Prop
  -- the maximum so far, over the locks already compared
  | .updateScan _ _ max rest => ∀ l ∈ k.cur.locksHolding,
      (k.locks l).priorityDonate ≤ (k.locks max).priorityDonate ∨ l ∈ rest
  | .updateStore _ p => ∀ l ∈ k.cur.locksHolding, (k.locks l).priorityDonate ≤ p
  | .donateRaise _ t _ => ∀ lw h, (k.threads t).lockWaiting = some lw →
      (k.locks lw).holder = some h → (k.threads h).priority < (k.threads t).priority
  | .setStore p _ => k.cur.priority < p ∨ k.cur.locksHolding = []
  | _ => True

theorem prepared_of_not_midUpdate {k : Kernel} {pc : Pc} (h : pc.midUpdate = false) :
    pc.Prepared k := by
  cases pc with
  | donateRaise | updateScan | updateStore | setStore => exact absurd h (by simp [Pc.midUpdate])
  | _ => trivial

theorem ret_not_midUpdate (t : Tid) (st : List Frame) : (ret t st).pc.midUpdate = false := by
  cases st with
  | nil => rfl
  | cons f st => cases f <;> rfl

theorem Updater.next_not_midUpdate (u : Updater) : u.next.midUpdate = false := by
  cases u <;> rfl

section Prepared

variable {k : Kernel} {c c' : Control} {o : Outcome}

theorem Silent.prepared (hs : Silent k c c') (h : c.pc.Prepared k) : c'.pc.Prepared k := by
  cases hs with
  | updateNone _ hnil =>
    intro l hl
    rw [hnil] at hl
    exact absurd hl List.not_mem_nil
  | updateStart _ hcons =>
    intro l hl
    rw [hcons] at hl
    rcases List.mem_cons.mp hl with rfl | hl
    · exact .inl le_rfl
    · exact .inr hl
  | updateLast =>
    intro l hl
    rcases h l hl with hle | hmem
    · exact hle.trans (le_max_right _ _)
    · exact absurd hmem List.not_mem_nil
  | @updateScan u p m l ls st =>
    intro l' hl'
    -- the larger of the two is kept, and `l` leaves the rest of the list
    have hmax : (k.locks m).priorityDonate ≤
          (k.locks (if cmpLockPriority k.locks m l then l else m)).priorityDonate ∧
        (k.locks l).priorityDonate ≤
          (k.locks (if cmpLockPriority k.locks m l then l else m)).priorityDonate := by
      unfold cmpLockPriority
      by_cases hlt : (k.locks m).priorityDonate < (k.locks l).priorityDonate
      · simp only [hlt, decide_true, if_true]
        exact ⟨le_of_lt hlt, le_rfl⟩
      · simp only [hlt, decide_false, Bool.false_eq_true, if_false]
        exact ⟨le_rfl, not_lt.mp hlt⟩
    rcases h l' hl' with hle | hmem
    · exact .inl (hle.trans hmax.1)
    · rcases List.mem_cons.mp hmem with rfl | hmem
      · exact .inl hmax.2
      · exact .inr hmem
  | @donateBelow l t dep lw h' st hw hh hlt =>
    intro lw' x hw' hx
    obtain rfl := Option.some.inj (hw.symm.trans hw')
    obtain rfl := Option.some.inj (hh.symm.trans hx)
    exact hlt
  | setChange hch => exact hch
  | _ => first | trivial | exact prepared_of_not_midUpdate (ret_not_midUpdate _ _)

/-- The stores follow silent moves, so every other move leads to a point that relies on
nothing. -/
theorem Exec.prepared (hex : Exec k c o) (h : c.pc.Prepared k) : o.ctl.pc.Prepared o.kernel := by
  cases hex with
  | silent hs => exact hs.prepared h
  | @downTake pc s st hpc =>
    cases s with
    | lock l => trivial
    | _ => exact prepared_of_not_midUpdate (ret_not_midUpdate _ _)
  | @updateStore u p st => exact prepared_of_not_midUpdate u.next_not_midUpdate
  | updateMlfqs hst =>
    cases hst with
    | @clamp u => exact prepared_of_not_midUpdate u.next_not_midUpdate
    | _ => trivial
  | _ => first | trivial | exact prepared_of_not_midUpdate (ret_not_midUpdate _ _)

/-- No thread gives up the CPU between a computation and its store. -/
theorem Act.not_midUpdate {m : Machine} {e : Event} (hu : updatesWhole m e) (ha : Act m e o)
    (hswitch : o.switch = true) : o.ctl.pc.midUpdate = false := by
  cases ha with
  | call => cases hswitch
  | exec hex =>
    generalize m.ctl m.kernel.running = c at hex
    cases hex with
    | yield => exact ret_not_midUpdate _ _
    | idle | downBlock | exit | sleep => rfl
    | _ => cases hswitch
  | tick => exact hu rfl

end Prepared

/-! ### Donations reach the holder -/

/-- The thread whose priority has been stored in the lock it waits for, and not yet given to the
lock's holder. -/
def Pc.storing : Pc → Option Tid
  | .donateCompare _ t _ | .donateRaise _ t _ => some t
  | _ => none

/-- The donation of `t` to the lock it waits for has not reached the lock's holder yet. -/
def Machine.Storing (m : Machine) (t : Tid) : Prop := ∃ q, (m.pc q).storing = some t

/-- The holder of `l` has the priority donated through `l`, or is about to get it. -/
def Machine.Covered (m : Machine) (l : LockId) : Prop :=
  (∀ h, (m.kernel.locks l).holder = some h →
      (m.kernel.locks l).priorityDonate ≤ (m.kernel.threads h).priority) ∧
    ((m.kernel.locks l).holder = none → (m.kernel.locks l).priorityDonate = priMin) ∨
  ∃ t, m.Storing t ∧ (m.kernel.threads t).lockWaiting = some l ∧
    (m.kernel.locks l).priorityDonate ≤ (m.kernel.threads t).priority

/-- Where a thread may be resumed it is not in the middle of recording a lock or a donation. -/
theorem Pc.resumable_quiet {pc : Pc} (h : pc.resumable = true) :
    (∀ l, pc.phase ≠ .marks l) ∧ pc.storing = none := by
  cases pc with
  | semaRetest s => cases s <;> simp [Pc.phase, Pc.storing]
  | semaDown s => cases s <;> simp [Pc.phase, Pc.storing]
  | user | idle | exited | broadcast | createInit | createMlfqs | sleepWake =>
    exact ⟨by simp [Pc.phase], rfl⟩
  | _ => exact absurd h (by simp [Pc.resumable])

section Covered

variable {m : Machine} {e : Event} {c : Control} {o : Outcome} {t : Tid} {l : LockId}

theorem Machine.Storing.settle (h : m.Storing t)
    (hc : m.curPc.storing = some t → o.ctl.pc.storing = some t) : (m.settle o).Storing t := by
  obtain ⟨q, hq⟩ := h
  refine ⟨q, ?_⟩
  change (update m.ctl m.kernel.running o.ctl q).pc.storing = some t
  by_cases hqr : q = m.kernel.running
  · subst hqr
    rw [update_self]
    exact hc hq
  · rw [update_of_ne hqr]
    exact hq

/-- A change that touches neither this lock nor a priority for the worse. -/
theorem Machine.Covered.mono (h : m.Covered l) (hl : o.kernel.locks l = m.kernel.locks l)
    (hprio : ∀ h, (m.kernel.locks l).holder = some h →
      (m.kernel.threads h).priority ≤ (o.kernel.threads h).priority)
    (hstore : ∀ t, m.Storing t → (m.kernel.threads t).lockWaiting = some l →
      (m.settle o).Storing t ∧ (o.kernel.threads t).lockWaiting = some l ∧
        (m.kernel.threads t).priority ≤ (o.kernel.threads t).priority) :
    (m.settle o).Covered l := by
  rcases h with ⟨hheld, hnone⟩ | ⟨t, ht, hw, hle⟩
  · refine .inl ⟨fun x hx => ?_, fun hx => ?_⟩
    · change (o.kernel.locks l).holder = some x at hx
      change (o.kernel.locks l).priorityDonate ≤ (o.kernel.threads x).priority
      rw [hl] at hx ⊢
      exact (hheld x hx).trans (hprio x hx)
    · change (o.kernel.locks l).holder = none at hx
      change (o.kernel.locks l).priorityDonate = priMin
      rw [hl] at hx ⊢
      exact hnone hx
  · obtain ⟨ht', hw', hle'⟩ := hstore t ht hw
    refine .inr ⟨t, ht', hw', ?_⟩
    change (o.kernel.locks l).priorityDonate ≤ (o.kernel.threads t).priority
    rw [hl]
    exact hle.trans hle'

theorem Machine.Covered.frame (h : m.Covered l) (hf : StakeFrame m.kernel o.kernel)
    (hstore : ∀ t, m.curPc.storing = some t → o.ctl.pc.storing = some t) :
    (m.settle o).Covered l :=
  h.mono (by rw [hf.locks]) (fun x _ => (hf.priority x).ge) fun t ht hw =>
    ⟨ht.settle (hstore t), (hf.waiting t).trans hw, (hf.priority t).ge⟩

/-- A store into one thread that is not waiting for this lock. -/
theorem Machine.Covered.write (h : m.Covered l) {u : Tid} {x : Thread}
    (hthreads : o.kernel.threads = update m.kernel.threads u x)
    (hl : o.kernel.locks l = m.kernel.locks l)
    (hheld : (m.kernel.locks l).holder = some u →
      (m.kernel.locks l).priorityDonate ≤ (m.kernel.threads u).priority →
      (m.kernel.locks l).priorityDonate ≤ x.priority)
    (hwait : (m.kernel.threads u).lockWaiting ≠ some l)
    (hstore : m.curPc.storing = none) : (m.settle o).Covered l := by
  rcases h with ⟨hold, hnone⟩ | ⟨t, ht, hw, hle⟩
  · refine .inl ⟨fun y hy => ?_, fun hy => ?_⟩
    · change (o.kernel.locks l).holder = some y at hy
      change (o.kernel.locks l).priorityDonate ≤ (o.kernel.threads y).priority
      rw [hl] at hy ⊢
      rw [hthreads]
      by_cases hyu : y = u
      · subst hyu
        rw [update_self]
        exact hheld hy (hold y hy)
      · rw [update_of_ne hyu]
        exact hold y hy
    · change (o.kernel.locks l).holder = none at hy
      change (o.kernel.locks l).priorityDonate = priMin
      rw [hl] at hy ⊢
      exact hnone hy
  · have htu : t ≠ u := by
      rintro rfl
      exact hwait hw
    refine .inr ⟨t, ht.settle fun hst => absurd (hstore.symm.trans hst) (by simp), ?_, ?_⟩
    · change (o.kernel.threads t).lockWaiting = some l
      rw [hthreads, update_of_ne htu]
      exact hw
    · change (o.kernel.locks l).priorityDonate ≤ (o.kernel.threads t).priority
      rw [hl, hthreads, update_of_ne htu]
      exact hle

/-- The end of a donation to the holder `x` of the lock that `t` waits for: nobody has a lower
priority than before, and `x` is high enough. -/
theorem Machine.Covered.met {lw : LockId} {x : Tid} {c' : Control} {threads : Tid → Thread}
    (h : m.Covered l) (hstoring : m.curPc.storing = some t)
    (hw : (m.kernel.threads t).lockWaiting = some lw) (hx : (m.kernel.locks lw).holder = some x)
    (hwait : ∀ u, (threads u).lockWaiting = (m.kernel.threads u).lockWaiting)
    (hge : ∀ u, (m.kernel.threads u).priority ≤ (threads u).priority)
    (hle : (m.kernel.threads t).priority ≤ (threads x).priority) :
    (m.settle ⟨{ m.kernel with threads := threads }, c', false⟩).Covered l := by
  rcases h with ⟨hold, hnone⟩ | ⟨t', ht', hw', hle'⟩
  · exact .inl ⟨fun y hy => (hold y hy).trans (hge y), hnone⟩
  · by_cases htt : t' = t
    · subst htt
      obtain rfl := Option.some.inj (hw.symm.trans hw')
      refine .inl ⟨fun y hy => ?_, fun hy => absurd (hx.symm.trans hy) (by simp)⟩
      obtain rfl := Option.some.inj (hx.symm.trans hy)
      exact hle'.trans hle
    · refine .inr ⟨t', ht'.settle fun hst => ?_, (hwait t').trans hw', hle'.trans (hge t')⟩
      exact absurd (Option.some.inj (hstoring.symm.trans hst)).symm htt

/-- The store of a donation into the holder. -/
theorem Machine.Covered.raise {lw : LockId} {x : Tid} {c' : Control} (h : m.Covered l)
    (hstoring : m.curPc.storing = some t) (hw : (m.kernel.threads t).lockWaiting = some lw)
    (hx : (m.kernel.locks lw).holder = some x)
    (hlt : (m.kernel.threads x).priority < (m.kernel.threads t).priority) :
    (m.settle ⟨m.kernel.setThread x
      { m.kernel.threads x with priority := (m.kernel.threads t).priority }, c', false⟩).Covered l := by
  refine h.met hstoring hw hx (apply_update_same Thread.lockWaiting rfl) (fun u => ?_) ?_
  · by_cases hu : u = x
    · subst hu
      rw [update_self]
      exact le_of_lt hlt
    · rw [update_of_ne hu]
  · rw [update_self]

/-- A thread that gets the lock has the priority donated through it. -/
theorem Machine.Covered.take (h : m.Covered l) (hb : m.kernel.Bounded)
    (hnone : (m.kernel.locks l).holder = none)
    (hl : o.kernel.locks l = { m.kernel.locks l with holder := some m.kernel.running })
    (hprio : ∀ u, (o.kernel.threads u).priority = (m.kernel.threads u).priority)
    (hwait : ∀ u, u ≠ m.kernel.running →
      (o.kernel.threads u).lockWaiting = (m.kernel.threads u).lockWaiting)
    (hstore : m.curPc.storing = none) :
    (m.settle o).Covered l := by
  have hcover : (m.kernel.locks l).priorityDonate ≤ (m.kernel.threads m.kernel.running).priority →
      (m.settle o).Covered l := by
    intro hle
    refine .inl ⟨fun y hy => ?_, fun hy => ?_⟩
    · change (o.kernel.locks l).holder = some y at hy
      change (o.kernel.locks l).priorityDonate ≤ (o.kernel.threads y).priority
      rw [hl] at hy ⊢
      cases hy
      rw [hprio]
      exact hle
    · change (o.kernel.locks l).holder = none at hy
      rw [hl] at hy
      cases hy
  rcases h with ⟨-, hfree⟩ | ⟨t, ht, hw, hle⟩
  · apply hcover
    rw [hfree hnone]
    exact (hb _).1
  · by_cases htr : t = m.kernel.running
    · subst htr
      exact hcover hle
    · refine .inr ⟨t, ht.settle fun hst => absurd (hstore.symm.trans hst) (by simp), ?_, ?_⟩
      · change (o.kernel.threads t).lockWaiting = some l
        rw [hwait t htr]
        exact hw
      · change (o.kernel.locks l).priorityDonate ≤ (o.kernel.threads t).priority
        rw [hl, hprio]
        exact hle

theorem Exec.covered (hsch : Scheduled m) (hlock : Locked m) (hm : m.kernel.mlfqs = false)
    (hb : m.kernel.Bounded) (hctl : m.ctl m.kernel.running = c)
    (hprep : c.pc.Prepared m.kernel) (hex : Exec m.kernel c o) (h : m.Covered l) :
    (m.settle o).Covered l := by
  have hpc : m.curPc = c.pc := congrArg Control.pc hctl
  have hphase : m.lockTable.phase m.kernel.running = c.pc.phase := congrArg Pc.phase hpc
  have hmode : c.pc.inMode false = true := by
    have hshape := (hsch.flow m.kernel.running).mode
    rwa [hctl, hm] at hshape
  have hwait : (m.kernel.threads m.kernel.running).lockWaiting = c.pc.phase.awaited :=
    (hlock.exclusive.waiting m.kernel.running).trans (congrArg Phase.awaited hphase)
  have hnotWait : c.pc.phase.awaited = none →
      (m.kernel.threads m.kernel.running).lockWaiting ≠ some l := fun hn hw =>
    absurd (hn.symm.trans (hwait.symm.trans hw)) (by simp)
  have hstore : c.pc.storing = none → m.curPc.storing = none := fun hn => by rw [hpc, hn]
  have hkeep : StakeFrame m.kernel o.kernel → c.pc.storing = none → (m.settle o).Covered l :=
    fun hf hn => h.frame hf fun t ht => absurd ((hstore hn).symm.trans ht) (by simp)
  -- the running thread holds what is on its list, unless it is on the way in
  have hheld : (∀ l', c.pc.phase ≠ .marks l') → ∀ l',
      (m.kernel.locks l').holder = some m.kernel.running →
      l' ∈ m.kernel.cur.locksHolding := by
    intro hmarks l' hl'
    rcases (hlock.exclusive.holder _ l').mp hl' with hmem | hph
    · exact hmem
    · exact absurd (hphase.symm.trans hph) (hmarks l')
  have hnone : ∀ l', c.pc.phase.owned = some l' → c.pc.phase ≠ .marks l' →
      (m.kernel.locks l').holder = none := fun l' ho hmarks =>
    hlock.exclusive.holder_eq_none (t := m.kernel.running) (by rw [hphase]; exact ho)
      (by rw [hphase]; exact hmarks)
  cases hex with
  | silent hs =>
    cases hs with
    | donateAbove hw hh hle =>
      exact h.met (by rw [hpc]; rfl) hw hh (fun _ => rfl) (fun _ => le_rfl) hle
    | donateBelow => exact h.frame (.refl _) fun t ht => by rw [hpc] at ht; exact ht
    | _ => exact hkeep (.refl _) rfl
  | @downBlock pc s st hpcs => rcases hpcs with rfl | rfl <;> exact hkeep (.of_update rfl rfl rfl) rfl
  | @downTake pc s st hpcs => rcases hpcs with rfl | rfl <;> exact hkeep ⟨rfl, fun _ => rfl⟩ rfl
  | @setHolder l' st =>
    by_cases hl : l = l'
    · subst hl
      exact h.take hb (hnone l rfl (by simp [Pc.phase])) (update_self ..) (fun _ => rfl)
        (fun _ _ => rfl) (hstore rfl)
    · exact h.mono (update_of_ne hl ..) (fun _ _ => le_rfl) fun t ht hw =>
        ⟨ht.settle fun hst => absurd ((hstore rfl).symm.trans hst) (by simp), hw, le_rfl⟩
  | pushHolding =>
    exact h.write rfl rfl (fun _ hle => hle) (hnotWait rfl) (hstore rfl)
  | setWaiting =>
    exact h.write rfl rfl (fun _ hle => hle) (hnotWait rfl) (hstore rfl)
  | @donateStore l' t dep lw st hw =>
    by_cases hl : l = lw
    · subst hl
      refine .inr ⟨t, ⟨m.kernel.running, ?_⟩, hw, ?_⟩
      · change (update m.ctl m.kernel.running _ m.kernel.running).pc.storing = some t
        rw [update_self]
        rfl
      · change (update m.kernel.locks l _ l).priorityDonate ≤ _
        rw [update_self]
        exact le_rfl
    · exact h.mono (update_of_ne hl ..) (fun _ _ => le_rfl) fun t ht hw =>
        ⟨ht.settle fun hst => absurd ((hstore rfl).symm.trans hst) (by simp), hw, le_rfl⟩
  | @donateRaise l' t dep lw x st hw hx =>
    exact h.raise (by rw [hpc]; rfl) hw hx (hprep lw x hw hx)
  | @acquired l' st =>
    have hw : (m.kernel.threads m.kernel.running).lockWaiting = some l' := hwait
    by_cases hl : l = l'
    · subst hl
      refine h.take hb (hnone l rfl (by simp [Pc.phase])) (update_self ..)
        (fun u => ?_) (fun u hu => ?_) (hstore rfl)
      · refine apply_update_same Thread.priority ?_ u
        rfl
      · exact congrArg Thread.lockWaiting (update_of_ne hu ..)
    · refine h.write rfl (update_of_ne hl ..) (fun _ hle => hle) (fun hwl => ?_) (hstore rfl)
      exact hl (Option.some.inj (hwl.symm.trans hw))
  | @releaseClear l' st =>
    by_cases hl : l = l'
    · subst hl
      have hcleared : ((m.kernel.setLock l ⟨none, priMin⟩).locks l) = ⟨none, priMin⟩ :=
        update_self ..
      refine .inl ⟨fun y hy => ?_, fun _ => congrArg Lock.priorityDonate hcleared⟩
      exact absurd ((congrArg Lock.holder hcleared).symm.trans hy) (by simp)
    · exact h.write rfl (update_of_ne hl ..) (fun _ hle => hle) (hnotWait rfl) (hstore rfl)
  | @updateStore u p st =>
    have hphases : u.phase.awaited = none ∧ ∀ l', u.phase ≠ .marks l' := by
      cases u <;> simp [Updater.phase, Phase.awaited]
    exact h.write rfl rfl (fun hh _ => hprep l (hheld hphases.2 l hh)) (hnotWait hphases.1)
      (hstore rfl)
  | updateMlfqs hst => cases hst <;> exact absurd hmode (by simp [Pc.inMode])
  | setOrigin => exact h.write rfl rfl (fun _ hle => hle) (hnotWait rfl) (hstore rfl)
  | setStore =>
    refine h.write rfl rfl (fun hh hle => ?_) (hnotWait rfl) (hstore rfl)
    rcases hprep with hlt | hnil
    · exact hle.trans (le_of_lt hlt)
    · have hmem := hheld (by simp [Pc.phase]) l hh
      rw [hnil] at hmem
      exact absurd hmem List.not_mem_nil
  | @createInit p t st k' hi =>
    obtain ⟨-, rfl⟩ := initThread_ok hi
    have hemb : (m.ctl m.kernel.running).embryo = some t := by rw [hctl]; rfl
    refine h.write (u := t) (x := freshThread .blocked p) rfl rfl
      (fun hh _ => absurd hh (hlock.holder_ne_embryo hsch hemb l)) (fun hw => ?_) (hstore rfl)
    have hfree : (m.kernel.threads t).lockWaiting = none := by
      refine (hlock.exclusive.waiting t).trans ?_
      change (m.ctl t).pc.phase.awaited = none
      rw [(hsch.queues.embryo _ t hemb).2.1]
      rfl
    exact absurd (hfree.symm.trans hw) (by simp)
  | upWake hmem hmax hub => exact hkeep ((Exec.upWake hmem hmax hub).stakeFrame rfl) rfl
  | createUnblock hub => exact hkeep (.pushReady (threadUnblock_ok hub).2) rfl
  | yield hy => exact hkeep (.yieldPark hy) rfl
  | sleep _ hs => exact hkeep (.sleepPark hs) rfl
  | createMlfqs | idle | exit | setNice => exact hkeep (.of_update rfl rfl rfl) rfl
  | _ => exact hkeep ⟨rfl, fun _ => rfl⟩ rfl

end Covered

/-! ### The invariant -/

/-- What holds in every run in which every update of a priority is made in one piece. -/
structure Donated (m : Machine) : Prop where
  bounded : m.kernel.Bounded
  carried : ∀ t p, (m.pc t).carried = some p → priMin ≤ p
  prepared : m.curPc.Prepared m.kernel
  parked : ∀ t, t ≠ m.kernel.running → (m.pc t).midUpdate = false
  covered : ∀ l, m.Covered l

section Invariant

variable {m m' : Machine} {e : Event} {o : Outcome}

theorem Donated.boot (v : ℕ → ℕ) : Donated (boot false v) := by
  have hpc : ∀ t, ((Pintos.boot false v).pc t).carried = none ∧
      ((Pintos.boot false v).pc t).midUpdate = false := by
    intro t
    unfold Machine.pc Pintos.boot
    dsimp only
    split <;> exact ⟨rfl, rfl⟩
  refine ⟨fun t => ?_, fun t p hp => absurd ((hpc t).1.symm.trans hp) (by simp), trivial,
    fun t _ => (hpc t).2, fun l => .inl ⟨fun x hx => absurd hx (by simp [Pintos.boot]),
      fun _ => rfl⟩⟩
  unfold Pintos.boot
  dsimp only
  split
  · exact ⟨by decide, by decide⟩
  · split <;> exact ⟨by decide, by decide⟩

theorem Machine.Covered.dispatched {k : Kernel} {l : LockId} (h : m.Covered l)
    (hf : StakeFrame m.kernel k) : Machine.Covered ⟨k, m.ctl⟩ l := by
  unfold Machine.Covered at h ⊢
  dsimp only
  simp only [hf.locks, hf.priority, hf.waiting]
  exact h

theorem Act.bounded (hsch : Scheduled m) (hm : m.kernel.mlfqs = false) (hr : setsInRange m e)
    (h : Donated m) (ha : Act m e o) :
    o.kernel.Bounded ∧ ∀ p, o.ctl.pc.carried = some p → priMin ≤ p := by
  cases ha with
  | @call c hpc =>
    refine ⟨h.bounded, fun p hp => ?_⟩
    cases c with
    | threadSetPriority q =>
      cases hp
      exact hr
    | _ => exact absurd hp (by simp [Call.entry, Pc.carried])
  | exec hex =>
    exact hex.bounded hm (hsch.flow _).mode h.bounded fun p hp => h.carried m.kernel.running p hp
  | tick hon hint hy =>
    exact ⟨h.bounded.frame (Act.stakeFrame hm (.tick hon hint hy) (by simp)),
      fun p hp => h.carried m.kernel.running p hp⟩

theorem Act.prepared (hu : updatesWhole m e) (h : Donated m) (ha : Act m e o) :
    o.ctl.pc.Prepared o.kernel := by
  cases ha with
  | @call c hpc => cases c <;> trivial
  | exec hex => exact hex.prepared h.prepared
  | tick => exact prepared_of_not_midUpdate (hu rfl)

theorem Act.covered (hsch : Scheduled m) (hlock : Locked m) (hm : m.kernel.mlfqs = false)
    (h : Donated m) (ha : Act m e o) (l : LockId) : (m.settle o).Covered l := by
  cases ha with
  | @call c hpc =>
    exact (h.covered l).frame (.refl _) fun t ht => absurd ht (by rw [hpc]; simp [Pc.storing])
  | exec hex => exact hex.covered hsch hlock hm h.bounded rfl h.prepared (h.covered l)
  | tick hon hint hy =>
    exact (h.covered l).frame (Act.stakeFrame hm (.tick hon hint hy) (by simp)) fun t ht => ht

/-- **Every step keeps the bookkeeping**, if it does not cut an update in two. -/
theorem Donated.step (h : Donated m) (hsch : Scheduled m) (hlock : Locked m)
    (hm : m.kernel.mlfqs = false) (hu : updatesWhole m e) (hr : setsInRange m e)
    (hs : Pintos.step m e = .ok m') : Donated m' := by
  obtain ⟨o, ha, hcase⟩ := step_cases hs
  obtain ⟨hb, hcar⟩ := ha.bounded hsch hm hr h
  have hcarried : ∀ t p, ((m.settle o).pc t).carried = some p → priMin ≤ p :=
    settle_forall (P := fun pc => ∀ p, pc.carried = some p → priMin ≤ p) hcar fun t _ => h.carried t
  have hcov := ha.covered hsch hlock hm h
  rcases hcase with ⟨-, rfl⟩ | ⟨k, hsw, hk, rfl⟩
  · refine ⟨hb, hcarried, ?_, ha.settle_parked (P := fun pc => pc.midUpdate = false) h.parked, hcov⟩
    rw [ha.settle_curPc]
    exact ha.prepared hu h
  · have hf := StakeFrame.dispatched (dispatched_of_schedule hk)
    -- whoever is dispatched is not in the middle of an update
    have hparked : ∀ t, ((m.settle o).pc t).midUpdate = false :=
      settle_forall (P := fun pc => pc.midUpdate = false) (ha.not_midUpdate hu hsw) h.parked
    exact ⟨hb.frame hf, hcarried, prepared_of_not_midUpdate (hparked _), fun t _ => hparked t,
      fun l => (hcov l).dispatched hf⟩

end Invariant

/-! ### No donation is lost -/

/-- The program points of `lock_acquire`, `lock_try_acquire`, `lock_release` and
`thread_set_priority`, without those inside `sema_down`. -/
def Pc.inUpdate : Pc → Bool
  | .acquireAssert _ | .tryAssert _ _ | .tryDown _ _ | .setHolder _ | .pushHolding _
  | .setWaiting _ | .donate _ _ _ | .donateTest _ _ _ | .donateAssert _ _ _ | .donateStore _ _ _
  | .donateCompare _ _ _ | .donateRaise _ _ _ | .donateNext _ _ _ | .sortHeap _ | .acquired _
  | .releaseAssert _ | .releaseClear _ | .semaUp (.lock _)
  | .updatePriority (.release _) | .updateScan (.release _) _ _ _ | .updateStore (.release _) _
  | .updateMax (.release _) | .updateCpu (.release _) | .updateNice (.release _)
  | .updateClamp (.release _)
  | .setPriority _ | .setOrigin _ _ | .setTest _ _ | .setStore _ _ | .setYield _ => true
  | _ => false

/-- **No donation is lost** in a run, with preemption everywhere else, in which no timer
interrupt comes between the computation of a priority and its store and `thread_set_priority` is
not called below `PRI_MIN`: when no thread is inside the code of the locks or of
`thread_set_priority`, the holder of a lock has at least the priority donated through it. -/
theorem donation_not_lost {v : ℕ → ℕ} {h : List (Machine × Event)} {m : Machine}
    (hrun : Run step (fun m e => updatesWhole m e ∧ setsInRange m e) (boot false v) h m)
    (hquiet : ∀ t, (m.pc t).inUpdate = false) (l : LockId) (x : Tid)
    (hx : (m.kernel.locks l).holder = some x) :
    (m.kernel.locks l).priorityDonate ≤ (m.kernel.threads x).priority := by
  obtain ⟨-, -, -, hdon⟩ := hrun.invariant
    (I := fun m => Scheduled m ∧ Locked m ∧ m.kernel.mlfqs = false ∧ Donated m)
    ⟨.boot false v, .boot false v, rfl, .boot v⟩ fun m e m' ⟨hsch, hlock, hm, hdon⟩ hg hs =>
      ⟨hsch.step hs, hlock.step hsch hs, (step_mlfqs hs).trans hm,
        hdon.step hsch hlock hm hg.1 hg.2 hs⟩
  rcases hdon.covered l with ⟨hheld, -⟩ | ⟨t, ⟨q, hq⟩, -, -⟩
  · exact hheld x hx
  · -- a donor in the middle of its donation is in `lock_acquire`
    have hout := hquiet q
    cases hpc : m.pc q with
    | donateCompare | donateRaise =>
      rw [hpc] at hout
      exact absurd hout (by simp [Pc.inUpdate])
    | _ =>
      rw [hpc] at hq
      exact absurd hq (by simp [Pc.storing])

/-- Where no thread was ever created, none is in the code of the locks. -/
theorem quiet_of_pages {m : Machine} (hsch : Scheduled m)
    (h : ∀ t < m.kernel.nextPage, (m.pc t).inUpdate = false) (t : Tid) :
    (m.pc t).inUpdate = false := by
  by_cases ht : t < m.kernel.nextPage
  · exact h t ht
  · unfold Machine.pc
    rw [(hsch.queues.fresh t (not_lt.mp ht)).1]
    rfl

/-- Thread 2, of priority 50, preempts the main thread inside `lock_release`, before it
recomputes its priority, and donates to it: the donation is kept. -/
theorem donation_not_lost_run : ∃ h m,
    Run step (fun m e => updatesWhole m e ∧ setsInRange m e) (boot false fun _ => 0) h m ∧
      (∀ t, (m.pc t).inUpdate = false) ∧ (m.kernel.locks 6).holder = some 0 ∧
      (m.kernel.locks 6).priorityDonate = 50 ∧ 50 ≤ (m.kernel.threads 0).priority := by
  obtain ⟨h, m, hrun, hp⟩ := exists_run (fun m e => updatesWhole m e ∧ setsInRange m e)
    (fun m e => decide (updatesWhole m e ∧ setsInRange m e)) (fun _ _ => of_decide_eq_true) false
    (fun _ => 0)
    (Call.run (.threadCreate 50 true) 30 ++ Call.run (.timerSleep 1) 1 ++
      Call.run (.lockAcquire 5) 5 ++ Call.run (.lockAcquire 6) 5 ++ Call.run (.lockRelease 5) 2 ++
      [.tick, .exec] ++ Call.run (.lockAcquire 6) 14 ++ List.replicate 5 .exec)
    (fun _ m => decide ((∀ t < m.kernel.nextPage, (m.pc t).inUpdate = false) ∧
      (m.kernel.locks 6).holder = some 0 ∧ (m.kernel.locks 6).priorityDonate = 50))
    (by decide +kernel)
  obtain ⟨hpages, hh, hd⟩ := of_decide_eq_true hp
  have hquiet := quiet_of_pages (Scheduled.of_run hrun) hpages
  refine ⟨h, m, hrun, hquiet, hh, hd, ?_⟩
  rw [← hd]
  exact donation_not_lost hrun hquiet 6 0 hh

/-- **A donation is lost.** Thread 2 preempts the main thread inside `lock_release`, after it
has computed its new priority and before it stores it, and donates priority 50 to it through
lock 6; the store then writes 31. -/
theorem donation_lost_to_preemption : ∃ h m,
    Run step preemptive (boot false fun _ => 0) h m ∧ (∀ t, (m.pc t).inUpdate = false) ∧
      (m.kernel.locks 6).holder = some 0 ∧
      (m.kernel.threads 0).priority < (m.kernel.locks 6).priorityDonate := by
  obtain ⟨h, m, hrun, hp⟩ := exists_run preemptive (fun _ _ => true) (fun _ _ _ => trivial)
    false (fun _ => 0)
    (Call.run (.threadCreate 50 true) 30 ++ Call.run (.timerSleep 1) 1 ++
      Call.run (.lockAcquire 5) 5 ++ Call.run (.lockAcquire 6) 5 ++ Call.run (.lockRelease 5) 4 ++
      [.tick, .exec] ++ Call.run (.lockAcquire 6) 14 ++ List.replicate 3 .exec)
    (fun _ m => decide ((∀ t < m.kernel.nextPage, (m.pc t).inUpdate = false) ∧
      (m.kernel.locks 6).holder = some 0 ∧
      (m.kernel.threads 0).priority < (m.kernel.locks 6).priorityDonate))
    (by decide +kernel)
  obtain ⟨hpages, hh, hlt⟩ := of_decide_eq_true hp
  exact ⟨h, m, hrun, quiet_of_pages (Scheduled.of_run hrun) hpages, hh, hlt⟩

end Pintos
