import Pintos.Foundation.WaitList
import Pintos.Sync.Ownership

/-!
# Signals are neither lost nor duplicated

`cond_wait`, `cond_signal` and `cond_broadcast` as an instance of `WaitList`, for conditions that
are each used with one lock. A program point tells the phase of its thread (`Control.waitPhase`),
the kernel's memory gives the lists and the values of the waiters' semaphores
(`Machine.waitList`), and every step of the machine is a move of the running thread
(`Act.waitMove`).

The lock is what keeps a thread alone with the list of a condition: whoever is between the
assertion that it holds the lock and the change of the list holds it (`Monitored.holds`), with
timer interrupts wherever interrupts are on, and across the `thread_yield` of every signal.

* `waitEvents` / `signalDeeds` — what has happened to a waiter, and what a signaller has done,
  read off the history of a run;
* `Casting` — a thread in `cond_broadcast`, with the number of steps it still takes.
-/

namespace Pintos

open Transition WaitList Function List

/-! ### The kernel's conditions as wait lists -/

/-- `cond_wait`, inside `lock_release`. -/
def Frame.isWaitDown : Frame → Bool
  | .waitDown _ => true
  | _ => false

/-- Where a thread is between joining, looking, removing and posting. A thread that has joined
waits from the `lock_release` in `cond_wait` to the end of its `sema_down`. -/
def Control.waitPhase (c : Control) : WaitList.Phase Tid CondId :=
  match c.pc with
  | .waitPush c _ => .joins c
  | .signalTest c => .tests c
  | .signalScan c b ws => .scans c b ws
  | .signalRemove c w => .removes c w
  | .semaUp (.waiter w) => .posts w
  | .semaDown (.waiter _) | .semaRetest (.waiter _) => .waits
  | _ => if c.stack.any Frame.isWaitDown then .waits else .out

/-- The conditions of the kernel as wait lists. -/
def Machine.waitList (m : Machine) : WaitList.State Tid CondId where
  list := m.kernel.conds
  value t := (m.kernel.semas (.waiter t)).value
  phase t := (m.ctl t).waitPhase

/-- What the code at a program point does with a condition or the semaphore of a waiter. -/
def Pc.waitLabel (k : Kernel) : Pc → WaitList.Label Tid CondId
  | .waitPush _ _ => .join
  | .signalTest c => if k.conds c = [] then .silent else .look c
  | .signalRemove c w => .remove c w
  | .semaUp (.waiter w) => .post w
  | .semaDown (.waiter w) | .semaRetest (.waiter w) =>
    if 0 < (k.semas (.waiter w)).value then .take else .silent
  | _ => .silent

def waitLabel (p : Machine × Event) : WaitList.Label Tid CondId :=
  if p.2 = .exec then p.1.curPc.waitLabel p.1.kernel else .silent

/-- What has happened to the waiter `w`, the latest first. -/
def waitEvents (w : Tid) (h : List (Machine × Event)) : List WaitList.Event :=
  h.filterMap fun p => (waitLabel p).event p.1.kernel.running w

/-- What thread `u` has done to signal waiters, the latest first. -/
def signalDeeds (u : Tid) (h : List (Machine × Event)) : List (Deed Tid CondId) :=
  h.filterMap fun p => if p.1.kernel.running = u then (waitLabel p).deed else none

/-! ### One lock for each condition -/

/-- The condition and the lock of a call. -/
def Call.condLock : Call → Option (CondId × LockId)
  | .condWait c l | .condSignal c l | .condBroadcast c l => some (c, l)
  | _ => none

/-- A condition `c` is used with the lock `L c` only. -/
def oneLock (L : CondId → LockId) : Guard Machine Event := fun _ e =>
  match e with
  | .call a => ∀ x ∈ a.condLock, x.2 = L x.1
  | _ => True

instance (L : CondId → LockId) (m : Machine) (e : Event) : Decidable (oneLock L m e) := by
  unfold oneLock
  split <;> infer_instance

/-- The condition and the lock that a program point still needs. -/
def Pc.condLock : Pc → Option (CondId × LockId)
  | .waitAssert c l | .waitPush c l | .signalAssert c l | .broadcast c l => some (c, l)
  | _ => none

def Frame.condLock : Frame → Option (CondId × LockId)
  | .broadcast c l => some (c, l)
  | _ => none

/-- The conditions that a thread is in a call on, with the locks given for them. -/
def Control.condLocks (c : Control) : List (CondId × LockId) :=
  c.pc.condLock.toList ++ c.stack.filterMap Frame.condLock

/-- What holds of the conditions in every run in which `L` gives their locks. -/
structure Monitored (L : CondId → LockId) (m : Machine) : Prop where
  locks : ∀ t, ∀ x ∈ (m.ctl t).condLocks, x.2 = L x.1
  holds : ∀ t c, (m.ctl t).waitPhase.inside = some c → (m.kernel.locks (L c)).holder = some t
  sound : WaitList.Sound m.waitList

/-! ### Every step is a move -/

theorem ret_waitPhase (t : Tid) (st : List Frame) :
    (ret t st).waitPhase = if st.any Frame.isWaitDown then .waits else .out := by
  cases st with
  | nil => rfl
  | cons f st => cases f <;> rfl

theorem ret_condLocks (t : Tid) (st : List Frame) :
    (ret t st).condLocks = st.filterMap Frame.condLock := by
  cases st with
  | nil => rfl
  | cons f st => cases f <;> rfl

theorem Updater.next_waitPhase (u : Updater) (st : List Frame) :
    Control.waitPhase ⟨u.next, st⟩ = if st.any Frame.isWaitDown then .waits else .out := by
  cases u <;> rfl

theorem Updater.next_condLock (u : Updater) : u.next.condLock = none := by
  cases u <;> rfl

section Code

variable {m : Machine} {c c' : Control} {o : Outcome} {k : Kernel}

/-- No call is made on a new condition inside the kernel. -/
theorem Silent.condLocks (h : Silent k c c') : ∀ x ∈ c'.condLocks, x ∈ c.condLocks := by
  intro x hx
  cases h with
  | broadcastNext =>
    rcases mem_append.mp hx with hx | hx
    · exact mem_append_left _ hx
    · exact hx
  | _ =>
    first
      | exact hx
      | (rw [ret_condLocks] at hx; exact mem_append_right _ hx)
      | exact mem_append_right _ hx

theorem Exec.condLocks (hex : Exec k c o) : ∀ x ∈ o.ctl.condLocks, x ∈ c.condLocks := by
  intro x hx
  cases hex with
  | silent hs => exact hs.condLocks x hx
  | downBlock => exact mem_append_right _ hx
  | @downTake pc s st hpc =>
    cases s with
    | lock l => exact mem_append_right _ hx
    | sema n | waiter n =>
      change x ∈ (ret k.running st).condLocks at hx
      rw [ret_condLocks] at hx
      exact mem_append_right _ hx
  | @updateStore u p st =>
    change x ∈ u.next.condLock.toList ++ _ at hx
    rw [u.next_condLock] at hx
    exact mem_append_right _ hx
  | @updateMlfqs pc pc' p st hst =>
    cases hst with
    | @clamp u =>
      change x ∈ u.next.condLock.toList ++ _ at hx
      rw [u.next_condLock] at hx
      exact mem_append_right _ hx
    | _ => exact mem_append_right _ hx
  | exit => exact absurd hx (by simp [Control.condLocks, Pc.condLock])
  | _ =>
    first
      | exact hx
      | (rw [ret_condLocks] at hx; exact mem_append_right _ hx)
      | exact mem_append_right _ hx

/-- The wait lists after the running thread's code, field by field. -/
theorem waitList_settle {x : WaitList.State Tid CondId} (hlist : o.kernel.conds = x.list)
    (hvalue : ∀ t, (o.kernel.semas (.waiter t)).value = x.value t)
    (hphase : update (fun t => (m.ctl t).waitPhase) m.kernel.running o.ctl.waitPhase
      = x.phase) : (m.settle o).waitList = x := by
  refine State.ext hlist (funext hvalue) (Eq.trans (funext fun t => ?_) hphase)
  exact Function.apply_update (fun _ => Control.waitPhase) m.ctl m.kernel.running o.ctl t

theorem waitMove_of {e : Event} {a : WaitList.Label Tid CondId} {y : WaitList.State Tid CondId}
    (hmove : Move m.kernel.running m.waitList a y) (hlabel : waitLabel (m, e) = a)
    (hsettle : (m.settle o).waitList = y) :
    Move m.kernel.running m.waitList (waitLabel (m, e)) (m.settle o).waitList := by
  rw [hlabel, hsettle]
  exact hmove

/-- A step that does nothing to the wait lists. -/
theorem waitMove_stay {e : Event} (hlist : o.kernel.conds = m.kernel.conds)
    (hvalue : ∀ t, (o.kernel.semas (.waiter t)).value = (m.kernel.semas (.waiter t)).value)
    (hphase : o.ctl.waitPhase = (m.ctl m.kernel.running).waitPhase)
    (hlabel : waitLabel (m, e) = .silent) :
    Move m.kernel.running m.waitList (waitLabel (m, e)) (m.settle o).waitList := by
  refine waitMove_of .stay hlabel (waitList_settle hlist hvalue ?_)
  rw [hphase]
  exact update_eq_self m.kernel.running fun t => (m.ctl t).waitPhase

theorem waitLabel_exec (hctl : m.ctl m.kernel.running = c) :
    waitLabel (m, .exec) = c.pc.waitLabel m.kernel := by
  unfold waitLabel
  rw [if_pos rfl]
  change (m.ctl m.kernel.running).pc.waitLabel _ = _
  rw [hctl]

/-- Nobody else is inside the list of a condition whose lock the running thread holds. -/
theorem Monitored.nobody_inside {L : CondId → LockId} (hmon : Monitored L m) {x : CondId}
    (hh : (m.kernel.locks (L x)).holder = some m.kernel.running)
    (hout : (m.ctl m.kernel.running).waitPhase.inside ≠ some x) (t : Tid) :
    (m.waitList.phase t).inside ≠ some x := by
  intro hin
  have ht := (hmon.holds t x hin).symm.trans hh
  exact hout (Option.some.inj ht ▸ hin)

/-- `cond_signal` is not called from `cond_wait`. -/
theorem not_waitDown_of_inSignal {st : List Frame} (h : within Frame.inSignal st = true) :
    st.any Frame.isWaitDown = false := by
  match st, h with
  | [], _ => rfl
  | [f], h =>
    cases f with
    | broadcast => rfl
    | _ => exact absurd h Bool.false_ne_true

theorem Silent.waitMove {L : CondId → LockId} (hmon : Monitored L m)
    (hshape : c.Shaped m.kernel.mlfqs m.kernel.running)
    (hctl : m.ctl m.kernel.running = c) (h : Silent m.kernel c c') :
    Move m.kernel.running m.waitList (waitLabel (m, .exec))
      (m.settle ⟨m.kernel, c', false⟩).waitList := by
  have hphase : m.waitList.phase m.kernel.running = c.waitPhase := congrArg Control.waitPhase hctl
  have hlabel := waitLabel_exec hctl
  have hgo : ∀ {a p}, c'.waitPhase = p → c.pc.waitLabel m.kernel = a →
      Move m.kernel.running m.waitList a (m.waitList.goto m.kernel.running p) →
      Move m.kernel.running m.waitList (waitLabel (m, .exec))
        (m.settle ⟨m.kernel, c', false⟩).waitList := by
    intro a p hp ha hmove
    refine waitMove_of hmove (hlabel.trans ha) (waitList_settle rfl (fun _ => rfl) ?_)
    rw [← hp]
    rfl
  have hstay : c'.waitPhase = c.waitPhase → c.pc.waitLabel m.kernel = .silent →
      Move m.kernel.running m.waitList (waitLabel (m, .exec))
        (m.settle ⟨m.kernel, c', false⟩).waitList := by
    intro hp ha
    refine waitMove_stay rfl (fun _ => rfl) ?_ (hlabel.trans ha)
    rw [hctl]
    exact hp
  have henc := hshape.enclosed
  -- a thread that has found the lock in its hands is alone with the list
  have henter : ∀ {x l p}, (x, l) ∈ c.condLocks → (m.kernel.locks l).holder = some m.kernel.running →
      c.waitPhase = .out → p = .joins x ∨ p = .tests x →
      Move m.kernel.running m.waitList .silent (m.waitList.goto m.kernel.running p) := by
    intro x l p hmem hh hout hp
    have hl : l = L x := hmon.locks m.kernel.running (x, l) (hctl ▸ hmem)
    refine .enter (hphase.trans hout) hp (hmon.nobody_inside (hl ▸ hh) ?_)
    rw [hctl, hout]
    simp [WaitList.Phase.inside]
  cases h with
  | @waitAssert x l st hh =>
    obtain rfl := stack_nil_of_isEmpty henc
    exact hgo rfl rfl (henter mem_cons_self hh rfl (.inl rfl))
  | @signalAssert x l st hh =>
    refine hgo rfl rfl (henter mem_cons_self hh ?_ (.inr rfl))
    change (if st.any Frame.isWaitDown then _ else _) = _
    rw [not_waitDown_of_inSignal henc]
    rfl
  | @signalNone x st hnil =>
    refine hgo ?_ (if_pos hnil) (.leave hphase hnil)
    rw [ret_waitPhase, not_waitDown_of_inSignal henc]
    rfl
  | @signalStart x w ws st hlist =>
    refine hgo rfl (if_neg ?_) (.look hphase hlist)
    rw [hlist]
    simp
  | signalLast => exact hgo rfl rfl (.pick hphase)
  | @signalScan x b w ws st =>
    refine hgo rfl rfl (.scan hphase ?_)
    split
    · exact .inr rfl
    · exact .inl rfl
  | _ => first | exact hstay rfl rfl | exact hstay (ret_waitPhase _ _) rfl

/-- The waiter that a thread is going to post for has no unit. -/
theorem Monitored.value_of_posts {L : CondId → LockId} (hmon : Monitored L m) {w : Tid}
    (hph : m.waitList.phase m.kernel.running = .posts w) :
    (m.kernel.semas (.waiter w)).value = 0 := by
  obtain ⟨s, hs⟩ := hmon.sound.stage w
  obtain rfl := hs.of_posts hph
  exact hs.2.2.2

/-- The `sema_down` of `cond_wait` is not inside its `lock_release`. -/
theorem not_waitDown_of_inWait {st : List Frame} (h : within Frame.inWait st = true) :
    st.any Frame.isWaitDown = false := by
  match st, h with
  | [], _ => rfl
  | [f], h =>
    cases f with
    | waitAcquire => rfl
    | _ => exact absurd h Bool.false_ne_true

theorem waiter_value_update {s : SemaRef} {x : Semaphore} {w t : Tid} (hs : s = .waiter w) :
    (update k.semas s x (.waiter t)).value
      = update (fun t => (k.semas (.waiter t)).value) w x.value t := by
  subst hs
  by_cases ht : t = w
  · subst ht
    rw [update_self, update_self]
  · rw [update_of_ne ht, update_of_ne (by simpa using ht)]

theorem Exec.waitMove {L : CondId → LockId} (hmon : Monitored L m)
    (hshape : c.Shaped m.kernel.mlfqs m.kernel.running)
    (hctl : m.ctl m.kernel.running = c) (hex : Exec m.kernel c o) :
    Move m.kernel.running m.waitList (waitLabel (m, .exec)) (m.settle o).waitList := by
  have hphase : m.waitList.phase m.kernel.running = c.waitPhase := congrArg Control.waitPhase hctl
  have hlabel := waitLabel_exec hctl
  have henc := hshape.enclosed
  have hstay : o.kernel.conds = m.kernel.conds →
      (∀ t, (o.kernel.semas (.waiter t)).value = (m.kernel.semas (.waiter t)).value) →
      o.ctl.waitPhase = c.waitPhase → c.pc.waitLabel m.kernel = .silent →
      Move m.kernel.running m.waitList (waitLabel (m, .exec)) (m.settle o).waitList :=
    fun hlist hvalue hp ha => waitMove_stay hlist hvalue (hp.trans (by rw [hctl])) (hlabel.trans ha)
  have hquiet : o.kernel.conds = m.kernel.conds → o.kernel.semas = m.kernel.semas →
      o.ctl.waitPhase = c.waitPhase → c.pc.waitLabel m.kernel = .silent →
      Move m.kernel.running m.waitList (waitLabel (m, .exec)) (m.settle o).waitList :=
    fun hlist hsemas => hstay hlist fun t => by rw [hsemas]
  -- the unit given to a waiter is its first, so the counter does not wrap
  have hpost : ∀ {w}, m.waitList.phase m.kernel.running = .posts w →
      ((m.kernel.semas (.waiter w)).value + 1) % 2 ^ 32 = (m.kernel.semas (.waiter w)).value + 1 := by
    intro w hph
    rw [hmon.value_of_posts hph]
    rfl
  have hup : ∀ {st}, within Frame.inSignal st = true →
      update (fun t => (m.ctl t).waitPhase) m.kernel.running
        (Control.waitPhase ⟨.yield, st⟩)
      = update m.waitList.phase m.kernel.running .out := by
    intro st hst
    change update _ m.kernel.running (if st.any Frame.isWaitDown then _ else _) = _
    rw [not_waitDown_of_inSignal hst]
    rfl
  cases hex with
  | silent hs => exact hs.waitMove hmon hshape hctl
  | @downBlock pc s st hpc hv =>
    refine hstay rfl (fun t => apply_update_same Semaphore.value (by rfl) _) ?_ ?_
    · rcases hpc with rfl | rfl <;> cases s <;> rfl
    · rcases hpc with rfl | rfl <;> cases s <;> first | rfl | exact if_neg (by rw [hv]; simp)
  | @downTake pc s st hpc hv =>
    cases s with
    | sema n | lock n =>
      refine hstay rfl (fun t => by simp [Kernel.setSema]) ?_ ?_
      · rcases hpc with rfl | rfl <;> first | rfl | exact ret_waitPhase _ _
      · rcases hpc with rfl | rfl <;> rfl
    | waiter w =>
      -- the waiter takes its unit
      obtain ⟨hw, hst⟩ : w = m.kernel.running ∧ within Frame.inWait st = true := by
        rcases hpc with rfl | rfl <;>
          exact ⟨beq_iff_eq.mp (Bool.and_eq_true_iff.mp henc).1, (Bool.and_eq_true_iff.mp henc).2⟩
      subst hw
      have hwaits : m.waitList.phase m.kernel.running = .waits := by
        rw [hphase]
        rcases hpc with rfl | rfl <;> rfl
      have htake : waitLabel (m, .exec) = .take := by
        rw [hlabel]
        rcases hpc with rfl | rfl <;> exact if_pos hv
      refine waitMove_of (.take hwaits hv) htake
        (waitList_settle rfl (fun t => waiter_value_update rfl) ?_)
      change update (fun t => (m.ctl t).waitPhase) m.kernel.running
        (ret m.kernel.running st).waitPhase = _
      rw [ret_waitPhase, not_waitDown_of_inWait hst]
      rfl
  | @tryDown s st hv =>
    cases s with
    | sema n =>
      exact hstay rfl (fun t => by simp [Kernel.setSema]) (ret_waitPhase _ _) rfl
    | lock l => exact absurd henc (by simp [Pc.enclosed])
    | waiter w => exact absurd henc (by simp [Pc.enclosed])
  | @upNone s st hw =>
    cases s with
    | sema n | lock n => exact hstay rfl (fun t => by simp [Kernel.setSema]) rfl rfl
    | waiter w =>
      refine waitMove_of (.post hphase) hlabel (waitList_settle rfl (fun t => ?_) (hup henc))
      refine Eq.trans (waiter_value_update rfl) ?_
      rw [hpost hphase]
      rfl
  | @upWake s st t k₁ hmem _ hub =>
    have hpush := (threadUnblock_ok hub).2
    have hsemas := threadUnblock_semas hub
    have hconds : k₁.conds = m.kernel.conds := by
      obtain ⟨ord, heap, rfl, -⟩ := pushReady_ok hpush
      rfl
    cases s with
    | sema n | lock n => exact hstay hconds (fun t => by simp [Kernel.setSema, hsemas]) rfl rfl
    | waiter w =>
      refine waitMove_of (.post hphase) hlabel (waitList_settle hconds (fun t => ?_) (hup henc))
      change (update k₁.semas (.waiter w) _ (.waiter t)).value = _
      rw [hsemas]
      refine Eq.trans (waiter_value_update rfl) ?_
      rw [hpost hphase]
      rfl
  | yield hy =>
    have hk := yieldPark_tables hy
    exact hquiet hk.conds hk.semas (ret_waitPhase _ _) rfl
  | @updateStore u p st => exact hquiet rfl rfl (u.next_waitPhase st) rfl
  | @updateMlfqs pc pc' p st hst =>
    cases hst with
    | @clamp u => exact hquiet rfl rfl (u.next_waitPhase st) rfl
    | _ => exact hquiet rfl rfl rfl rfl
  | @waitPush x l st =>
    exact waitMove_of (.join hphase) hlabel
      (waitList_settle rfl (fun t => waiter_value_update rfl) rfl)
  | @signalRemove x w st =>
    exact waitMove_of (.remove hphase) hlabel (waitList_settle rfl (fun _ => rfl) rfl)
  | createInit hi =>
    obtain ⟨-, rfl⟩ := initThread_ok hi
    exact hquiet rfl rfl rfl rfl
  | createUnblock hub =>
    obtain ⟨ord, heap, rfl, -⟩ := pushReady_ok (threadUnblock_ok hub).2
    exact hquiet rfl rfl rfl rfl
  | sleep _ hs =>
    obtain ⟨heap, rfl, -⟩ := sleepPark_ok hs
    exact hquiet rfl rfl rfl rfl
  | exit =>
    obtain rfl := stack_nil_of_isEmpty henc
    exact hquiet rfl rfl rfl rfl
  | @tryTake l wait st hv => exact hstay rfl (fun t => by simp [Kernel.setSema]) rfl rfl
  | _ => first | exact hquiet rfl rfl rfl rfl | exact hquiet rfl rfl (ret_waitPhase _ _) rfl

/-- A call begins outside all of this. -/
theorem entry_waitPhase (a : Call) : Control.waitPhase ⟨a.entry, []⟩ = .out := by
  cases a <;> rfl

/-- **Refinement.** Every step is a move of the running thread on the wait lists. -/
theorem Act.waitMove {L : CondId → LockId} {e : Event} (hflow : Flow m) (hmon : Monitored L m)
    (ha : Act m e o) :
    Move m.kernel.running m.waitList (waitLabel (m, e)) (m.settle o).waitList := by
  cases ha with
  | @call a hpc =>
    have hnil := hflow.stack_of_user hpc
    refine waitMove_stay rfl (fun _ => rfl) ?_ rfl
    rw [hnil, entry_waitPhase]
    unfold Control.waitPhase
    rw [show (m.ctl m.kernel.running).pc = .user from hpc, hnil]
    rfl
  | exec hex => exact hex.waitMove hmon (hflow _) rfl
  | tick _ hint hy =>
    have hk := tick_tables hint hy
    refine waitMove_stay hk.conds (fun t => ?_) rfl rfl
    rw [hk.semas]

/-- A thread gets inside a list by finding that it holds the lock, and changes no lock there. -/
theorem Silent.inside (h : Silent k c c') {x : CondId} (hin : c'.waitPhase.inside = some x) :
    c.waitPhase.inside = some x ∨
      ∃ l, (x, l) ∈ c.condLocks ∧ (k.locks l).holder = some k.running := by
  have hnone : ∀ {st : List Frame},
      (if st.any Frame.isWaitDown then WaitList.Phase.waits else .out : WaitList.Phase Tid CondId).inside
        ≠ some x := by
    intro st
    split <;> simp [WaitList.Phase.inside]
  cases h with
  | @waitAssert x' l st hh | @signalAssert x' l st hh =>
    cases hin
    exact .inr ⟨l, mem_cons_self, hh⟩
  | signalStart | signalLast | signalScan => exact .inl hin
  | _ => first | exact absurd hin hnone | exact absurd (ret_waitPhase _ _ ▸ hin) hnone

theorem Exec.inside (hex : Exec k c o) {x : CondId} (hin : o.ctl.waitPhase.inside = some x) :
    o.kernel.locks = k.locks ∧ (c.waitPhase.inside = some x ∨
      ∃ l, (x, l) ∈ c.condLocks ∧ (k.locks l).holder = some k.running) := by
  have hnone : ∀ {st : List Frame},
      (if st.any Frame.isWaitDown then WaitList.Phase.waits else .out : WaitList.Phase Tid CondId).inside
        ≠ some x := by
    intro st
    split <;> simp [WaitList.Phase.inside]
  cases hex with
  | silent hs => exact ⟨rfl, hs.inside hin⟩
  | @downBlock pc s st hpc =>
    cases s with
    | waiter w => exact absurd hin (by simp [Control.waitPhase, WaitList.Phase.inside])
    | _ => exact absurd hin hnone
  | @downTake pc s st hpc =>
    cases s with
    | lock l => exact absurd hin hnone
    | _ => exact absurd (ret_waitPhase _ _ ▸ hin) hnone
  | @upNone | @upWake => exact absurd hin hnone
  | @updateStore u p st => exact absurd (u.next_waitPhase st ▸ hin) hnone
  | @updateMlfqs pc pc' p st hst =>
    cases hst with
    | @clamp u => exact absurd (u.next_waitPhase st ▸ hin) hnone
    | _ => exact absurd hin hnone
  | signalRemove | waitPush | exit =>
    exact absurd hin (by simp [Control.waitPhase, WaitList.Phase.inside, Frame.isWaitDown])
  | _ => first | exact absurd hin hnone | exact absurd (ret_waitPhase _ _ ▸ hin) hnone

end Code

/-! ### The invariant of all runs -/

section Invariant

variable {L : CondId → LockId} {m m' : Machine} {e : Event}

/-- **A step on the wait lists**: a move of the thread that was running. -/
theorem step_waitMove (hflow : Flow m) (hmon : Monitored L m) (hs : step m e = .ok m') :
    Move m.kernel.running m.waitList (waitLabel (m, e)) m'.waitList := by
  obtain ⟨o, ha, hctl, hd⟩ := step_act hs
  have hsame : m'.waitList = (m.settle o).waitList := by
    refine State.ext hd.conds (funext fun t => ?_) (funext fun t => ?_)
    · change (m'.kernel.semas (.waiter t)).value = (o.kernel.semas (.waiter t)).value
      rw [hd.semas]
    · change (m'.ctl t).waitPhase = ((m.settle o).ctl t).waitPhase
      rw [hctl]
      rfl
  rw [hsame]
  exact ha.waitMove hflow hmon

/-- Whoever is inside a list goes on holding the lock. -/
theorem Monitored.holds_step (hsch : Scheduled m) (hlock : Locked m) (hmon : Monitored L m)
    (hs : Pintos.step m e = .ok m') {t : Tid} {x : CondId}
    (hin : (m'.ctl t).waitPhase.inside = some x) :
    (m'.kernel.locks (L x)).holder = some t := by
  obtain ⟨o, ha, hctl, hd⟩ := step_act hs
  rw [hctl] at hin
  by_cases ht : t = m.kernel.running
  · subst ht
    rw [update_self] at hin
    rw [hd.locks]
    cases ha with
    | @call a hpc =>
      rw [hsch.flow.stack_of_user hpc, entry_waitPhase] at hin
      exact absurd hin (by simp [WaitList.Phase.inside])
    | exec hex =>
      obtain ⟨hlocks, hold | ⟨l, hmem, hh⟩⟩ := hex.inside hin
      · rw [hlocks]
        exact hmon.holds _ x hold
      · rw [hlocks, ← hmon.locks _ (x, l) hmem]
        exact hh
    | tick _ hint hy =>
      rw [(LockFrame.tick hint hy).holder]
      exact hmon.holds _ x hin
  · rw [update_of_ne ht] at hin
    obtain ⟨a, hmove, -⟩ := step_lockMove hsch hlock hs
    exact LockTable.Move.holder_of_ne hlock.exclusive hmove ht (hmon.holds t x hin)

/-- **Every step keeps the conditions sound.** -/
theorem Monitored.step (hsch : Scheduled m) (hlock : Locked m) (hmon : Monitored L m)
    (hg : oneLock L m e) (hs : Pintos.step m e = .ok m') : Monitored L m' := by
  refine ⟨fun t x hx => ?_, fun t x hin => hmon.holds_step hsch hlock hs hin,
    hmon.sound.step (step_waitMove hsch.flow hmon hs)⟩
  obtain ⟨o, ha, hctl, -⟩ := step_act hs
  rw [hctl] at hx
  by_cases ht : t = m.kernel.running
  · subst ht
    rw [update_self] at hx
    cases ha with
    | @call a hpc =>
      rw [hsch.flow.stack_of_user hpc] at hx
      have hentry : a.entry.condLock = a.condLock := by cases a <;> rfl
      change x ∈ a.entry.condLock.toList ++ [] at hx
      rw [hentry, append_nil] at hx
      exact hg x (Option.mem_toList.mp hx)
    | exec hex => exact hmon.locks _ x (hex.condLocks x hx)
    | tick => exact hmon.locks _ x hx
  · rw [update_of_ne ht] at hx
    exact hmon.locks t x hx

theorem Monitored.boot (L : CondId → LockId) (mlfqs : Bool) (v : ℕ → ℕ) :
    Monitored L (boot mlfqs v) := by
  have hctl : ∀ t, ((Pintos.boot mlfqs v).ctl t).waitPhase = .out ∧
      ((Pintos.boot mlfqs v).ctl t).condLocks = [] := by
    intro t
    unfold Pintos.boot
    dsimp only
    split <;> exact ⟨rfl, rfl⟩
  have hphase : ∀ t, (Pintos.boot mlfqs v).waitList.phase t = .out := fun t => (hctl t).1
  refine ⟨fun t x hx => ?_, fun t x hin => ?_, ⟨fun t u x ht => ?_, fun t x b rest ht => ?_,
    fun t x w ht => ?_, fun t => ⟨.away, ?_, fun _ => not_mem_nil, fun u => ?_, rfl⟩⟩⟩
  · rw [(hctl t).2] at hx
    exact absurd hx not_mem_nil
  · rw [(hctl t).1] at hin
    exact absurd hin (by simp [WaitList.Phase.inside])
  · rw [hphase] at ht
    exact absurd ht (by simp [WaitList.Phase.inside])
  · rw [hphase] at ht
    cases ht
  · rw [hphase] at ht
    cases ht
  · rw [hphase]
    simp
  · rw [hphase]
    simp

/-- What every run keeps in which each condition has its lock. -/
structure Signalled (L : CondId → LockId) (m : Machine) : Prop where
  scheduled : Scheduled m
  locked : Locked m
  monitored : Monitored L m

theorem Signalled.boot (L : CondId → LockId) (mlfqs : Bool) (v : ℕ → ℕ) :
    Signalled L (boot mlfqs v) :=
  ⟨.boot mlfqs v, .boot mlfqs v, .boot L mlfqs v⟩

theorem Signalled.step (h : Signalled L m) (hg : oneLock L m e) (hs : Pintos.step m e = .ok m') :
    Signalled L m' :=
  ⟨h.scheduled.step hs, h.locked.step h.scheduled hs,
    h.monitored.step h.scheduled h.locked hg hs⟩

end Invariant

/-! ### The history -/

section History

variable {L : CondId → LockId} {h : List (Machine × Event)} {m m' : Machine} {e : Event}

theorem waitEvents_cons (w : Tid) (p : Machine × Event) (h : List (Machine × Event)) :
    waitEvents w (p :: h) =
      ((waitLabel p).event p.1.kernel.running w).toList ++ waitEvents w h := by
  unfold waitEvents
  rw [filterMap_cons]
  cases (waitLabel p).event p.1.kernel.running w <;> rfl

theorem signalDeeds_cons (u : Tid) (p : Machine × Event) (h : List (Machine × Event)) :
    signalDeeds u (p :: h) =
      (if p.1.kernel.running = u then (waitLabel p).deed else none).toList ++ signalDeeds u h := by
  unfold signalDeeds
  rw [filterMap_cons]
  cases (if p.1.kernel.running = u then (waitLabel p).deed else none) <;> rfl

/-- The history of a run: every wait and every signal took its course. -/
structure Told (L : CondId → LockId) (h : List (Machine × Event)) (m : Machine) : Prop where
  signalled : Signalled L m
  waits : ∀ w, ∃ s, Story s (waitEvents w h) ∧ m.waitList.At w s
  signals : ∀ u, Deeds (m.waitList.phase u).signalling (signalDeeds u h)

theorem Told.boot (L : CondId → LockId) (mlfqs : Bool) (v : ℕ → ℕ) : Told L [] (boot mlfqs v) := by
  have hctl : ∀ t, (Pintos.boot mlfqs v).waitList.phase t = .out := by
    intro t
    unfold Pintos.boot Machine.waitList
    dsimp only
    split <;> rfl
  refine ⟨.boot L mlfqs v, fun w => ⟨.away, .start, ?_, fun _ => not_mem_nil, fun u => ?_, rfl⟩,
    fun u => ?_⟩
  · rw [hctl]
    simp
  · rw [hctl]
    simp
  · rw [hctl]
    exact .start

theorem Told.step (hI : Told L h m) (hg : oneLock L m e) (hs : Pintos.step m e = .ok m') :
    Told L ((m, e) :: h) m' := by
  have hmove := step_waitMove hI.signalled.scheduled.flow hI.signalled.monitored hs
  refine ⟨hI.signalled.step hg hs, fun w => ?_, fun u => ?_⟩
  · obtain ⟨s, hstory, hat⟩ := hI.waits w
    rw [waitEvents_cons]
    exact hstory.step hI.signalled.monitored.sound hmove hat
  · rw [signalDeeds_cons]
    by_cases hu : m.kernel.running = u
    · subst hu
      rw [if_pos rfl]
      exact (hI.signals _).step hmove
    · rw [if_neg hu, hmove.phase_of_ne (Ne.symm hu)]
      exact hI.signals u

end History

/-! ### Broadcasts -/

/-- How many steps a broadcast to `n` waiters takes. -/
def castSteps : ℕ → ℕ
  | 0 => 1
  | n + 1 => n + 7 + castSteps n

/-- A thread in `cond_broadcast` on `c`, while `n` threads wait, with the number of steps it still
takes. -/
inductive Casting (c : CondId) (l : LockId) (n : ℕ) : Control → ℕ → Prop where
  | test : Casting c l n ⟨.broadcast c l, []⟩ (castSteps n)
  | assert {k} : n = k + 1 →
      Casting c l n ⟨.signalAssert c l, [.broadcast c l]⟩ (k + 6 + castSteps k)
  | look {k} : n = k + 1 → Casting c l n ⟨.signalTest c, [.broadcast c l]⟩ (k + 5 + castSteps k)
  | scan {k b ws} : n = k + 1 →
      Casting c l n ⟨.signalScan c b ws, [.broadcast c l]⟩ (ws.length + 4 + castSteps k)
  | remove {k w} : n = k + 1 →
      Casting c l n ⟨.signalRemove c w, [.broadcast c l]⟩ (3 + castSteps k)
  | up {w} : Casting c l n ⟨.semaUp (.waiter w), [.broadcast c l]⟩ (2 + castSteps n)
  | yield : Casting c l n ⟨.yield, [.broadcast c l]⟩ (1 + castSteps n)
  | back : n = 0 → Casting c l n ⟨.user, []⟩ 0

/-- The steps of thread `u`. -/
def ownSteps (u : Tid) (h : List (Machine × Event)) : ℕ :=
  h.countP fun p => decide (p.2 = .exec ∧ p.1.kernel.running = u)

/-- The condition that a waiter is taken off. -/
def Pc.removesFrom : Pc → Option CondId
  | .signalRemove c _ => some c
  | _ => none

/-- The signals of thread `u` on `c`: the waiters that it has taken off the list. -/
def signals (u : Tid) (c : CondId) (h : List (Machine × Event)) : ℕ :=
  h.countP fun p => decide (p.2 = .exec ∧ p.1.kernel.running = u ∧ p.1.curPc.removesFrom = some c)

/-- Each condition has its lock, and thread `u` is inside the kernel. -/
def oneLockInCall (L : CondId → LockId) (u : Tid) : Guard Machine Event := fun m e =>
  oneLock L m e ∧ m.pc u ≠ .user

instance (L : CondId → LockId) (u : Tid) (m : Machine) (e : Event) :
    Decidable (oneLockInCall L u m e) := inferInstanceAs (Decidable (_ ∧ _))

/-- Thread `u` in its broadcast to the `N` threads that were waiting when it began. -/
structure InBroadcast (L : CondId → LockId) (u : Tid) (c : CondId) (l : LockId) (N : ℕ)
    (h : List (Machine × Event)) (m : Machine) : Prop where
  signalled : Signalled L m
  holder : (m.kernel.locks (L c)).holder = some u
  counted : signals u c h + (m.kernel.conds c).length = N
  casting : ∃ k, Casting c l (m.kernel.conds c).length (m.ctl u) k ∧
    ownSteps u h + k = castSteps N

section Broadcast

variable {L : CondId → LockId} {u : Tid} {c : CondId} {l : LockId} {N : ℕ}
  {h : List (Machine × Event)} {m m' : Machine} {e : Event}

/-- A step of the broadcast itself. -/
theorem Casting.exec {k : Kernel} {ctl : Control} {o : Outcome} {j : ℕ} (hex : Exec k ctl o)
    (hc : Casting c l (k.conds c).length ctl j) (hpc : ctl.pc ≠ .user)
    (hmem : ∀ w, ctl.pc = .signalRemove c w → w ∈ k.conds c) :
    o.kernel.locks = k.locks ∧
      (o.kernel.conds c).length + (if ctl.pc.removesFrom = some c then 1 else 0)
        = (k.conds c).length ∧
      ∃ j', j = j' + 1 ∧ Casting c l (o.kernel.conds c).length o.ctl j' := by
  cases hc with
  | back => exact absurd rfl hpc
  | test =>
    cases hex with
    | downBlock h | downTake h => exact absurd h (by simp)
    | updateMlfqs h => nomatch h
    | silent hs =>
      cases hs with
      | broadcastNone hnil =>
        rw [hnil]
        exact ⟨rfl, rfl, 0, rfl, .back rfl⟩
      | broadcastNext hne =>
        obtain ⟨w, ws, hlist⟩ := exists_cons_of_ne_nil hne
        rw [hlist, length_cons]
        exact ⟨rfl, rfl, ws.length + 6 + castSteps ws.length, by rw [castSteps]; omega, .assert rfl⟩
  | @assert n hn =>
    cases hex with
    | downBlock h | downTake h => exact absurd h (by simp)
    | updateMlfqs h => nomatch h
    | silent hs =>
      cases hs with
      | signalAssert => exact ⟨rfl, rfl, _, by omega, .look hn⟩
  | @look n hn =>
    cases hex with
    | downBlock h | downTake h => exact absurd h (by simp)
    | updateMlfqs h => nomatch h
    | silent hs =>
      cases hs with
      | signalNone hnil =>
        rw [hnil] at hn
        exact absurd hn (by simp)
      | @signalStart _ w ws _ hlist =>
        refine ⟨rfl, rfl, ws.length + 4 + castSteps n, ?_, .scan hn⟩
        rw [hlist, length_cons] at hn
        omega
  | @scan n b ws hn =>
    cases hex with
    | downBlock h | downTake h => exact absurd h (by simp)
    | updateMlfqs h => nomatch h
    | silent hs =>
      cases hs with
      | signalLast => exact ⟨rfl, rfl, _, by rw [length_nil]; omega, .remove hn⟩
      | signalScan => exact ⟨rfl, rfl, _, by rw [length_cons]; omega, .scan hn⟩
  | @remove n w hn =>
    cases hex with
    | downBlock h | downTake h => exact absurd h (by simp)
    | updateMlfqs h => nomatch h
    | silent hs => nomatch hs
    | signalRemove =>
      have hlen : ((k.conds c).erase w).length = n := by
        rw [length_erase_of_mem (hmem w rfl), hn]
        rfl
      have hconds : (k.setCond c ((k.conds c).erase w)).conds c = (k.conds c).erase w :=
        update_self ..
      refine ⟨rfl, ?_, 2 + castSteps n, by omega, ?_⟩
      · rw [hconds, hlen, hn]
        exact congrArg (n + ·) (if_pos rfl)
      · rw [hconds, hlen]
        exact .up
  | @up w =>
    cases hex with
    | downBlock h | downTake h => exact absurd h (by simp)
    | updateMlfqs h => nomatch h
    | silent hs => nomatch hs
    | upNone => exact ⟨rfl, rfl, 1 + castSteps (k.conds c).length, by omega, .yield⟩
    | upWake _ _ hub =>
      obtain ⟨ord, heap, rfl, -⟩ := pushReady_ok (threadUnblock_ok hub).2
      exact ⟨rfl, rfl, 1 + castSteps (k.conds c).length, by omega, .yield⟩
  | yield =>
    cases hex with
    | downBlock h | downTake h => exact absurd h (by simp)
    | updateMlfqs h => nomatch h
    | silent hs => nomatch hs
    | yield hy =>
      have hconds := (yieldPark_tables hy).conds
      refine ⟨(yieldPark_tables hy).locks, ?_, castSteps (k.conds c).length, by omega, ?_⟩
      · rw [hconds]
        rfl
      · rw [hconds]
        exact .test

theorem ownSteps_cons_of_ne (h : List (Machine × Event))
    (hne : ¬ (e = .exec ∧ m.kernel.running = u)) : ownSteps u ((m, e) :: h) = ownSteps u h :=
  countP_cons_of_neg (by simpa using hne)

theorem signals_cons_of_ne (h : List (Machine × Event))
    (hne : ¬ (e = .exec ∧ m.kernel.running = u)) : signals u c ((m, e) :: h) = signals u c h :=
  countP_cons_of_neg fun hp =>
    hne ⟨(of_decide_eq_true hp).1, (of_decide_eq_true hp).2.1⟩

/-- The steps of the others, and the timer interrupts, leave the broadcast alone. -/
theorem InBroadcast.of_frame (hI : InBroadcast L u c l N h m) (hsig : Signalled L m')
    (hne : ¬ (e = .exec ∧ m.kernel.running = u))
    (hholder : (m'.kernel.locks (L c)).holder = some u) (hconds : m'.kernel.conds c = m.kernel.conds c)
    (hctl : m'.ctl u = m.ctl u) : InBroadcast L u c l N ((m, e) :: h) m' := by
  refine ⟨hsig, hholder, ?_, ?_⟩
  · rw [signals_cons_of_ne h hne, hconds]
    exact hI.counted
  · rw [ownSteps_cons_of_ne h hne, hconds, hctl]
    exact hI.casting

/-- **One step of a run during the broadcast.** -/
theorem InBroadcast.step (hI : InBroadcast L u c l N h m) (hg : oneLockInCall L u m e)
    (hs : Pintos.step m e = .ok m') : InBroadcast L u c l N ((m, e) :: h) m' := by
  have hsig := hI.signalled.step hg.1 hs
  have hsch := hI.signalled.scheduled
  have hmove := step_waitMove hsch.flow hI.signalled.monitored hs
  obtain ⟨o, ha, hctl, hd⟩ := step_act hs
  by_cases hu : m.kernel.running = u
  · subst hu
    have hown : m'.ctl m.kernel.running = o.ctl := by rw [hctl, update_self]
    cases ha with
    | call hpc => exact absurd hpc hg.2
    | tick _ hint hy =>
      refine hI.of_frame hsig (by simp) ?_ ?_ hown
      · rw [hd.locks, (LockFrame.tick hint hy).holder]
        exact hI.holder
      · rw [hd.conds, (tick_tables hint hy).conds]
    | exec hex =>
      obtain ⟨j, hc, hj⟩ := hI.casting
      have hmem : ∀ w, m.curPc = .signalRemove c w → w ∈ m.kernel.conds c := by
        intro w hw
        refine hI.signalled.monitored.sound.removes m.kernel.running c w ?_
        change (m.ctl m.kernel.running).waitPhase = _
        unfold Control.waitPhase
        rw [show (m.ctl m.kernel.running).pc = .signalRemove c w from hw]
      obtain ⟨hlocks, hlen, j', rfl, hc'⟩ := hc.exec hex hg.2 hmem
      have hstep : ownSteps m.kernel.running ((m, .exec) :: h) = ownSteps m.kernel.running h + 1 :=
        countP_cons_of_pos (by simp)
      have hsignal : signals m.kernel.running c ((m, .exec) :: h) = signals m.kernel.running c h +
          if m.curPc.removesFrom = some c then 1 else 0 := by
        unfold signals
        rw [countP_cons]
        simp
      refine ⟨hsig, ?_, ?_, j', ?_, ?_⟩
      · rw [hd.locks, hlocks]
        exact hI.holder
      · rw [hsignal, hd.conds]
        change _ + (if m.curPc.removesFrom = some c then 1 else 0) = _ at hlen
        have := hI.counted
        omega
      · rw [hown, hd.conds]
        exact hc'
      · rw [hstep]
        omega
  · -- nobody else can be inside the list while the broadcaster holds the lock
    refine hI.of_frame hsig (fun hp => hu hp.2) ?_ (hmove.list_eq fun hin => hu ?_) ?_
    · obtain ⟨a, hlmove, -⟩ := step_lockMove hsch hI.signalled.locked hs
      exact LockTable.Move.holder_of_ne hI.signalled.locked.exclusive hlmove (Ne.symm hu) hI.holder
    · have hh := hI.signalled.monitored.holds m.kernel.running c hin
      exact Option.some.inj (hh.symm.trans hI.holder)
    · rw [hctl, update_of_ne (Ne.symm hu)]

/-- The broadcast has returned when no steps are left, and then nobody waits. -/
theorem Casting.user_iff {n k : ℕ} {ctl : Control} (hc : Casting c l n ctl k) :
    (ctl.pc = .user ↔ k = 0) ∧ (ctl.pc = .user → n = 0) := by
  cases hc with
  | back hn => exact ⟨iff_of_true rfl rfl, fun _ => hn⟩
  | test =>
    refine ⟨iff_of_false (by simp) ?_, by simp⟩
    cases n <;> simp [castSteps]
  | _ => exact ⟨iff_of_false (by simp) (by omega), by simp⟩

end Broadcast

/-- **Signals are neither lost nor duplicated.** In every state of a run in which each condition
`c` is used with the lock `L c` only:

* what has happened to each waiter is, over and over: it joins a list, is removed from it, gets a
  unit in its semaphore, takes the unit in `sema_down`; in particular its `cond_wait` does not end
  before it has been signalled, and each signal lets it end once, whether or not the waiter had
  come to `sema_down` by then;
* what each signaller has done is, over and over: it finds waiters on a list, removes one from that
  list, gives the unit to that waiter; and that waiter was on the list once;
* a `cond_broadcast` by the thread that holds the lock takes `castSteps N` steps, where `N` is the
  number of waiters at its call: it has returned exactly when it has made them all, and by then has
  signalled `N` times and left the list empty, whatever the other threads and the timer do. -/
theorem condition_signals_exact (L : CondId → LockId) (mlfqs : Bool) (v : ℕ → ℕ)
    {h : List (Machine × Event)} {m : Machine} (hrun : Run step (oneLock L) (boot mlfqs v) h m) :
    (∀ w, ∃ s, Story s (waitEvents w h) ∧ m.waitList.At w s) ∧
      (∀ u, Deeds (m.waitList.phase u).signalling (signalDeeds u h)) ∧
      (∀ u c w, m.pc u = .signalRemove c w → (m.kernel.conds c).count w = 1) ∧
      ∀ u c l, m.ctl u = ⟨.broadcast c l, []⟩ → (m.kernel.locks (L c)).holder = some u →
        ∀ h' m', Run step (oneLockInCall L u) m h' m' →
          signals u c h' + (m'.kernel.conds c).length = (m.kernel.conds c).length ∧
          ownSteps u h' ≤ castSteps (m.kernel.conds c).length ∧
          (m'.pc u = .user ↔ ownSteps u h' = castSteps (m.kernel.conds c).length) ∧
          (m'.pc u = .user →
            signals u c h' = (m.kernel.conds c).length ∧ m'.kernel.conds c = []) := by
  have htold : Told L h m :=
    hrun.invariant_history (I := Told L) (.boot L mlfqs v) fun _ _ _ _ hI hg hs => hI.step hg hs
  refine ⟨htold.waits, htold.signals, fun u c w hpc => ?_, fun u c l hctl hholder h' m' hrun' => ?_⟩
  · have hsound := htold.signalled.monitored.sound
    have hphase : m.waitList.phase u = .removes c w := by
      change (m.ctl u).waitPhase = _
      unfold Control.waitPhase
      rw [show (m.ctl u).pc = .signalRemove c w from hpc]
    have hmem := hsound.removes u c w hphase
    obtain ⟨s, hs⟩ := hsound.stage w
    obtain rfl := hs.of_mem hmem
    obtain ⟨c₀, hone, hother⟩ := hs.2.1
    by_cases hc : c = c₀
    · rw [hc]
      exact hone
    · exact absurd hmem (hother c hc)
  · have hin : InBroadcast L u c l (m.kernel.conds c).length h' m' := by
      refine hrun'.invariant_history (I := InBroadcast L u c l (m.kernel.conds c).length) ?_
        fun _ _ _ _ hI hg hs => hI.step hg hs
      refine ⟨htold.signalled, hholder, Nat.zero_add _, _, ?_, Nat.zero_add _⟩
      rw [hctl]
      exact .test
    obtain ⟨j, hc, hj⟩ := hin.casting
    obtain ⟨hdone, hempty⟩ := hc.user_iff
    have hcount := hin.counted
    refine ⟨hcount, by omega, hdone.trans ⟨fun _ => by omega, fun _ => by omega⟩, fun hu => ?_⟩
    have hnil := hempty hu
    exact ⟨by omega, eq_nil_of_length_eq_zero hnil⟩

/-- Threads 2 and 3 wait, and the main thread broadcasts: 16 steps of its own, between which the
woken threads run as far as the lock. -/
theorem condition_signals_exact_run : ∃ h m h' m',
    Run step (oneLock fun _ => 5) (boot false fun _ => 0) h m ∧
      m.ctl 0 = ⟨.broadcast 0 5, []⟩ ∧ m.kernel.conds 0 = [2, 3] ∧
      (∃ s, Story s (waitEvents 2 h) ∧ m.waitList.At 2 s) ∧
      Run step (oneLockInCall (fun _ => 5) 0) m h' m' ∧ signals 0 0 h' = 2 ∧
      ownSteps 0 h' = 16 := by
  obtain ⟨h, m, hrun, hp⟩ := exists_run (oneLock fun _ => 5)
    (fun m e => decide (oneLock (fun _ => 5) m e)) (fun _ _ => of_decide_eq_true) false
    (fun _ => 0)
    (Call.run (.threadCreate 35 true) 30 ++ Call.run (.lockAcquire 5) 5 ++
      Call.run (.condWait 0 5) 9 ++ Call.run (.threadCreate 40 true) 30 ++
      Call.run (.lockAcquire 5) 5 ++ Call.run (.condWait 0 5) 9 ++ Call.run (.lockAcquire 5) 5 ++
      Call.run (.condBroadcast 0 5) 0)
    (fun _ m => decide (m.ctl 0 = ⟨.broadcast 0 5, []⟩ ∧ m.kernel.conds 0 = [2, 3] ∧
        (m.kernel.locks 5).holder = some 0) &&
      (play step (fun m e => decide (oneLockInCall (fun _ => 5) 0 m e)) m
        (List.replicate 31 .exec)).any fun r => decide (r.2.pc 0 = Pc.user)) (by decide +kernel)
  obtain ⟨hstart, hplay⟩ := Bool.and_eq_true_iff.mp hp
  obtain ⟨hctl, hlist, hholder⟩ := of_decide_eq_true hstart
  obtain ⟨h', m', hrun', hp'⟩ := exists_run_of_play (G := oneLockInCall (fun _ => 5) 0)
    (p := fun _ m => decide (m.pc 0 = Pc.user)) (fun _ _ => of_decide_eq_true) hplay
  obtain ⟨hwaits, -, -, hcast⟩ := condition_signals_exact (fun _ => 5) false (fun _ => 0) hrun
  obtain ⟨-, -, hiff, hret⟩ := hcast 0 0 5 hctl hholder h' m' hrun'
  have huser := of_decide_eq_true hp'
  have hsteps := hiff.mp huser
  have hsignals := (hret huser).1
  rw [hlist] at hsteps hsignals
  exact ⟨h, m, h', m', hrun, hctl, hlist, hwaits 2, hrun', hsignals, hsteps⟩

end Pintos
