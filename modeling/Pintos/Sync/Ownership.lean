import Pintos.Foundation.LockTable
import Pintos.Sync.Semaphore

/-!
# Lock ownership

`lock_acquire`, `lock_try_acquire` and `lock_release` as an instance of `LockTable`: a program
point tells the phase of its thread (`Pc.phase`), and the kernel's memory gives the rest
(`Machine.lockTable`). Every step of the machine is a move of the running thread in that table
(`Act.lockMove`), so mutual exclusion and everything else proved there holds of the kernel, over
all interleavings (`Locked`).

The owners of a lock are read off the history of a run, from the semaphore operations alone
(`owners`): a thread is one from the `sema_down` or the successful `sema_try_down` of its
acquisition to the `sema_up` of its release.
-/

namespace Pintos

open Transition LockTable Function

/-! ### The kernel's locks as a lock table -/

def Updater.phase : Updater → Phase LockId
  | .release l => .gives l
  | _ => .free

/-- Where a program point is on the way in or out of a lock. -/
def Pc.phase : Pc → Phase LockId
  | .donate l _ _ | .donateTest l _ _ | .donateAssert l _ _ | .donateStore l _ _
  | .donateCompare l _ _ | .donateRaise l _ _ | .donateNext l _ _ | .sortHeap l
  | .semaDown (.lock l) | .semaRetest (.lock l) => .waits l
  | .setHolder l => .takes l
  | .pushHolding l => .marks l
  | .acquired l => .wakes l
  | .releaseClear l => .clears l
  | .updatePriority u | .updateScan u _ _ _ | .updateStore u _ | .updateMax u | .updateCpu u
  | .updateNice u | .updateClamp u => u.phase
  | .semaUp (.lock l) => .gives l
  | _ => .free

/-- The locks of the kernel as a lock table. -/
def Machine.lockTable (m : Machine) : Table Tid LockId where
  held t := (m.kernel.threads t).locksHolding
  waiting t := (m.kernel.threads t).lockWaiting
  phase t := (m.pc t).phase
  holder l := (m.kernel.locks l).holder
  value l := (m.kernel.semas (.lock l)).value

/-- A page that is not a thread yet: it was never handed out, or is being made into one. -/
def Machine.Unborn (m : Machine) (t : Tid) : Prop :=
  m.kernel.nextPage ≤ t ∨ ∃ u, (m.ctl u).embryo = some t

/-- What holds of the locks in every run. -/
structure Locked (m : Machine) : Prop where
  exclusive : Exclusive m.lockTable
  unborn : ∀ t, m.Unborn t → (m.kernel.threads t).locksHolding = []

theorem ret_phase (t : Tid) (st : List Frame) : (ret t st).pc.phase = .free := by
  cases st with
  | nil => rfl
  | cons f st => cases f <;> rfl

theorem Updater.next_phase (u : Updater) : u.next.phase = u.phase := by
  cases u <;> rfl

/-- The phase of a silent move changes only where `lock_release` has found its assertion true. -/
theorem Silent.phase {k : Kernel} {c c' : Control} (h : Silent k c c') :
    c'.pc.phase = c.pc.phase ∨ ∃ l, c.pc.phase = .free ∧ c'.pc.phase = .clears l ∧
      (k.locks l).holder = some k.running := by
  cases h with
  | releaseAssert hh => exact .inr ⟨_, rfl, rfl, hh⟩
  | _ => first | exact .inl rfl | exact .inl (ret_phase _ _)

section Refinement

variable {m : Machine} {e : Event} {o : Outcome} {c : Control}

theorem settle_pc_phase (t : Tid) : ((m.settle o).pc t).phase =
    update (fun t => (m.pc t).phase) m.kernel.running o.ctl.pc.phase t := by
  unfold Machine.settle Machine.pc
  by_cases ht : t = m.kernel.running
  · subst ht
    simp only [update_self]
  · simp only [update_of_ne ht]

/-- The table after the running thread's code, field by field. -/
theorem lockTable_settle {x : Table Tid LockId}
    (hheld : ∀ t, (o.kernel.threads t).locksHolding = x.held t)
    (hwaiting : ∀ t, (o.kernel.threads t).lockWaiting = x.waiting t)
    (hphase : update (fun t => (m.pc t).phase) m.kernel.running o.ctl.pc.phase = x.phase)
    (hholder : ∀ l, (o.kernel.locks l).holder = x.holder l)
    (hvalue : ∀ l, (o.kernel.semas (.lock l)).value = x.value l) :
    (m.settle o).lockTable = x :=
  Table.ext (funext hheld) (funext hwaiting)
    ((funext fun t => settle_pc_phase t).trans hphase) (funext hholder) (funext hvalue)

/-- A step as a move on the lock table, with the label that its semaphore operations give it. -/
def LockMove (m : Machine) (e : Event) (o : Outcome) : Prop :=
  ∃ a, Move m.kernel.running m.lockTable a (m.settle o).lockTable ∧
    (∀ l, a = .down l ↔ completesDown (.lock l) (m, e) = true) ∧
    ∀ l, a = .up l ↔ performsUp (.lock l) (m, e) = true

/-- A change of the kernel's memory that touches no lock, apart from the semaphores. -/
structure LockFrame (k k' : Kernel) : Prop where
  held : ∀ t, (k'.threads t).locksHolding = (k.threads t).locksHolding
  waiting : ∀ t, (k'.threads t).lockWaiting = (k.threads t).lockWaiting
  holder : ∀ l, (k'.locks l).holder = (k.locks l).holder

namespace LockFrame

variable {k k' k₁ : Kernel} {t : Tid}

theorem refl (k : Kernel) : LockFrame k k := ⟨fun _ => rfl, fun _ => rfl, fun _ => rfl⟩

theorem trans (h₁ : LockFrame k k₁) (h₂ : LockFrame k₁ k') : LockFrame k k' :=
  ⟨fun t => (h₂.held t).trans (h₁.held t), fun t => (h₂.waiting t).trans (h₁.waiting t),
    fun l => (h₂.holder l).trans (h₁.holder l)⟩

theorem of_update {x : Thread} (hthreads : k'.threads = update k.threads t x)
    (hlocks : k'.locks = k.locks) (hx : x.locksHolding = (k.threads t).locksHolding)
    (hw : x.lockWaiting = (k.threads t).lockWaiting) : LockFrame k k' := by
  refine ⟨fun u => ?_, fun u => ?_, fun l => by rw [hlocks]⟩ <;> rw [hthreads]
  · exact apply_update_same Thread.locksHolding hx u
  · exact apply_update_same Thread.lockWaiting hw u

theorem setThread {x : Thread} (hx : x.locksHolding = (k.threads t).locksHolding)
    (hw : x.lockWaiting = (k.threads t).lockWaiting) : LockFrame k (k.setThread t x) :=
  of_update rfl rfl hx hw

theorem setLock {l : LockId} {x : Lock} (hx : x.holder = (k.locks l).holder) :
    LockFrame k (k.setLock l x) :=
  ⟨fun _ => rfl, fun _ => rfl, apply_update_same Lock.holder hx⟩

theorem pushReady (h : Pintos.pushReady k t = .ok k') : LockFrame k k' := by
  obtain ⟨ord, heap, rfl, -⟩ := pushReady_ok h
  exact of_update rfl rfl rfl rfl

theorem yieldPark (h : Pintos.yieldPark k = .ok k') : LockFrame k k' := by
  rcases yieldPark_ok h with ⟨-, hpush⟩ | ⟨-, rfl⟩
  · exact pushReady hpush
  · exact setThread rfl rfl

theorem sleepPark {n : ℤ} (h : Pintos.sleepPark k n = .ok k') : LockFrame k k' := by
  obtain ⟨heap, rfl, -⟩ := sleepPark_ok h
  exact of_update rfl rfl rfl rfl

theorem timerInterrupt {y : Bool} (h : Pintos.timerInterrupt k = .ok (y, k')) :
    LockFrame k k' := by
  obtain ⟨y₁, k₁, -, hrounds, htick⟩ := timerInterrupt_ok (I := fun _ k₁ => LockFrame k k₁) h
    ⟨fun _ => rfl, fun _ => rfl, fun _ => rfl⟩ fun y k₁ heap top k₂ hI _ hub => by
      have hpush := pushReady (threadUnblock_ok hub).2
      exact ⟨fun t => (hpush.held t).trans (hI.held t),
        fun t => (hpush.waiting t).trans (hI.waiting t),
        fun l => (hpush.holder l).trans (hI.holder l)⟩
  obtain ⟨k₂, -, -, ⟨threads, la, rfl, hth⟩, rfl, -⟩ := threadTick_ok htick
  refine hrounds.trans ⟨fun t => ?_, fun t => ?_, fun _ => rfl⟩ <;>
  · obtain ⟨p, r, hpr⟩ := hth t
    dsimp only
    rw [hpr]

/-- A timer interrupt, with the yield at its end. -/
theorem tick {y : Bool} (hint : Pintos.timerInterrupt k = .ok (y, k₁))
    (hy : yieldOnReturn y k₁ = .ok k') : LockFrame k k' := by
  refine (timerInterrupt hint).trans ?_
  rcases yieldOnReturn_ok hy with hy | rfl
  · exact yieldPark hy
  · exact refl _

end LockFrame

theorem LockMove.of_move {a : Label LockId} {x : Table Tid LockId}
    (hm : Move m.kernel.running m.lockTable a x) (heq : (m.settle o).lockTable = x)
    (hl : (∀ l, a = .down l ↔ completesDown (.lock l) (m, e) = true) ∧
      ∀ l, a = .up l ↔ performsUp (.lock l) (m, e) = true) : LockMove m e o :=
  ⟨a, heq ▸ hm, hl⟩

/-- A step that touches no lock. -/
theorem LockMove.stay (hf : LockFrame m.kernel o.kernel) (hphase : o.ctl.pc.phase = m.curPc.phase)
    (hvalue : ∀ l, (o.kernel.semas (.lock l)).value = (m.kernel.semas (.lock l)).value)
    (hdown : ∀ l, completesDown (.lock l) (m, e) = false)
    (hup : ∀ l, performsUp (.lock l) (m, e) = false) : LockMove m e o := by
  refine ⟨.silent, ?_, fun l => ?_, fun l => ?_⟩
  · have hsame : (m.settle o).lockTable = m.lockTable := by
      refine lockTable_settle hf.held hf.waiting ?_ hf.holder hvalue
      rw [hphase]
      exact update_eq_self _ _
    rw [hsame]
    exact .stay
  · rw [hdown l]
    simp
  · rw [hup l]
    simp

/-- The label of a move that takes the unit of `l`. -/
theorem down_label {l : LockId} (hctl : m.ctl m.kernel.running = c)
    (htake : c.pc.takesFrom = some (.lock l)) (hgive : c.pc.givesTo = none)
    (hv : 0 < (m.kernel.semas (.lock l)).value) :
    (∀ l', Label.down l = .down l' ↔ completesDown (.lock l') (m, .exec) = true) ∧
      ∀ l', Label.down l = .up l' ↔ performsUp (.lock l') (m, .exec) = true := by
  refine ⟨fun l' => ?_, fun l' => ?_⟩
  · rw [completesDown_exec hctl, htake]
    simp only [Label.down.injEq, Option.some.injEq, SemaRef.lock.injEq, decide_eq_true_eq]
    exact ⟨fun heq => ⟨heq, heq ▸ hv⟩, fun h => h.1⟩
  · rw [performsUp_exec hctl, hgive]
    simp

/-- The label of a move that gives the unit of `l` back. -/
theorem up_label {l : LockId} {st : List Frame}
    (hctl : m.ctl m.kernel.running = ⟨.semaUp (.lock l), st⟩) :
    (∀ l', Label.up l = .down l' ↔ completesDown (.lock l') (m, .exec) = true) ∧
      ∀ l', Label.up l = .up l' ↔ performsUp (.lock l') (m, .exec) = true := by
  refine ⟨fun l' => ?_, fun l' => ?_⟩
  · rw [completesDown_exec hctl]
    simp [Pc.takesFrom]
  · rw [performsUp_exec hctl]
    simp [Pc.givesTo]

theorem lock_value_update {k : Kernel} {l : LockId} {x : Semaphore} (l' : LockId) :
    (update k.semas (.lock l) x (.lock l')).value =
      update (fun l => (k.semas (.lock l)).value) l x.value l' := by
  by_cases hl : l' = l
  · subst hl
    simp only [update_self]
  · rw [update_of_ne hl, update_of_ne (by simpa using hl)]

theorem Exec.lockMove (hsch : Scheduled m) (hlock : Locked m) (hctl : m.ctl m.kernel.running = c)
    (hex : Exec m.kernel c o) : LockMove m .exec o := by
  have hshape := hctl ▸ hsch.flow m.kernel.running
  have hcur : m.curPc = c.pc := congrArg Control.pc hctl
  have hphase : m.lockTable.phase m.kernel.running = c.pc.phase := congrArg Pc.phase hcur
  have hsilentLabel : c.pc.givesTo = none →
      (∀ l, c.pc.takesFrom = some (.lock l) → (m.kernel.semas (.lock l)).value = 0) →
      (∀ l, (.silent : Label LockId) = .down l ↔ completesDown (.lock l) (m, .exec) = true) ∧
        ∀ l, (.silent : Label LockId) = .up l ↔ performsUp (.lock l) (m, .exec) = true := by
    intro hgive htake
    refine ⟨fun l => ?_, fun l => ?_⟩
    · rw [completesDown_exec hctl]
      simpa using htake l
    · rw [performsUp_exec hctl, hgive]
      simp
  have hstay : ∀ {k' : Kernel} {c' : Control} {sw : Bool}, LockFrame m.kernel k' →
      c'.pc.phase = c.pc.phase →
      (∀ l, (k'.semas (.lock l)).value = (m.kernel.semas (.lock l)).value) →
      (∀ l, c.pc.takesFrom = some (.lock l) → (m.kernel.semas (.lock l)).value = 0) →
      (∀ l, c.pc.givesTo ≠ some (.lock l)) → LockMove m .exec ⟨k', c', sw⟩ := by
    intro k' c' sw hf hph hval htake hgive
    refine LockMove.stay hf (by rw [hcur, hph]) hval (fun l => ?_) fun l => ?_
    · rw [completesDown_exec hctl]
      refine decide_eq_false fun hd => ?_
      rw [htake l hd.1] at hd
      exact absurd hd.2 (lt_irrefl 0)
    · rw [performsUp_exec hctl]
      exact decide_eq_false (hgive l)
  have hquiet : ∀ {k' : Kernel} {c' : Control} {sw : Bool}, LockFrame m.kernel k' →
      c'.pc.phase = c.pc.phase → k'.semas = m.kernel.semas → c.pc.takesFrom = none →
      c.pc.givesTo = none → LockMove m .exec ⟨k', c', sw⟩ :=
    fun hf hph hs ht hg => hstay hf hph (fun l => by rw [hs]) (fun l h => by simp [ht] at h)
      fun l h => by simp [hg] at h
  -- the unit that is given back was the only one
  have hup : ∀ l, m.lockTable.phase m.kernel.running = .gives l →
      ((m.kernel.semas (.lock l)).value + 1) % 2 ^ 32 = m.lockTable.value l + 1 := by
    intro l hgive
    have hv : m.lockTable.value l = 0 :=
      hlock.exclusive.value_eq_zero (t := m.kernel.running) (.inr (by rw [hgive]; rfl))
    change (m.lockTable.value l + 1) % 2 ^ 32 = _
    rw [hv]
    rfl
  cases hex with
  | silent hs =>
    rcases hs.phase with hph | ⟨l, hfree, hclear, hh⟩
    · exact hstay (.refl _) hph (fun _ => rfl) (fun l => hs.takesFrom)
        fun l h => by simp [(hs.ne_sema (.lock l)).1] at h
    · refine .of_move (.leave (hphase.trans hfree) hh)
        (lockTable_settle (fun _ => rfl) (fun _ => rfl) (by rw [hclear]; rfl) (fun _ => rfl)
          fun _ => rfl) ?_
      exact hsilentLabel (hs.ne_sema (.lock l)).1 fun l' => hs.takesFrom
  | idle => exact hquiet (.setThread rfl rfl) rfl rfl rfl rfl
  | @downBlock pc s st hpc hv =>
    refine hstay (.of_update rfl rfl rfl rfl) ?_ ?_ ?_ ?_
    · rcases hpc with rfl | rfl
      · cases s <;> rfl
      · rfl
    · intro l
      exact apply_update_same (f := m.kernel.semas) (a := s) (b := { m.kernel.semas s with
        waiters := (m.kernel.semas s).waiters ++ [m.kernel.running] }) Semaphore.value rfl (.lock l)
    · rintro l ht
      rcases hpc with rfl | rfl <;>
      · cases ht
        exact hv
    · rcases hpc with rfl | rfl <;> simp [Pc.givesTo]
  | @downTake pc s st hpc hv =>
    cases s with
    | lock l =>
      have hwait : pc.phase = .waits l ∧ pc.takesFrom = some (.lock l) ∧ pc.givesTo = none := by
        rcases hpc with rfl | rfl <;> exact ⟨rfl, rfl, rfl⟩
      refine .of_move (.wake (hphase.trans hwait.1) hv)
        (lockTable_settle (fun _ => rfl) (fun _ => rfl) rfl (fun _ => rfl) lock_value_update)
        (down_label hctl hwait.2.1 hwait.2.2 hv)
    | sema n | waiter n =>
      have hpcs : pc.phase = .free ∧ (∀ l, pc.takesFrom ≠ some (.lock l)) ∧ pc.givesTo = none := by
        rcases hpc with rfl | rfl <;> exact ⟨rfl, by simp [Pc.takesFrom], rfl⟩
      exact hstay ⟨fun _ => rfl, fun _ => rfl, fun _ => rfl⟩
        ((ret_phase _ _).trans hpcs.1.symm) (fun l => by simp [Kernel.setSema])
        (fun l ht => absurd ht (hpcs.2.1 l)) fun l hg => by simp [hpcs.2.2] at hg
  | @tryDown s st hv =>
    -- `sema_try_down` on the semaphore of a lock is in `tryTake`
    cases s with
    | sema n =>
      exact hstay ⟨fun _ => rfl, fun _ => rfl, fun _ => rfl⟩ (ret_phase _ _)
        (fun l => by simp [Kernel.setSema]) (by simp [Pc.takesFrom]) (by simp [Pc.givesTo])
    | lock l => exact absurd hshape.enclosed (by simp [Pc.enclosed])
    | waiter w => exact absurd hshape.enclosed (by simp [Pc.enclosed])
  | @upNone s st hw =>
    cases s with
    | lock l =>
      refine .of_move (.give hphase) (lockTable_settle (fun _ => rfl) (fun _ => rfl) rfl
        (fun _ => rfl) fun l' => ?_) (up_label hctl)
      rw [← hup l hphase]
      exact lock_value_update l'
    | sema n | waiter n =>
      exact hstay ⟨fun _ => rfl, fun _ => rfl, fun _ => rfl⟩ rfl
        (fun l => by simp [Kernel.setSema]) (by simp [Pc.takesFrom]) (by simp [Pc.givesTo])
  | @upWake s st t k₁ hmem _ hub =>
    have hf : LockFrame m.kernel k₁ := .pushReady (threadUnblock_ok hub).2
    have hsemas := threadUnblock_semas hub
    cases s with
    | lock l =>
      refine .of_move (.give hphase) (lockTable_settle hf.held hf.waiting rfl hf.holder
        fun l' => ?_) (up_label hctl)
      rw [← hup l hphase]
      change (update k₁.semas (.lock l) _ (.lock l')).value = _
      rw [hsemas]
      exact lock_value_update l'
    | sema n | waiter n =>
      refine hstay ⟨hf.held, hf.waiting, hf.holder⟩ rfl (fun l => ?_) (by simp [Pc.takesFrom])
        (by simp [Pc.givesTo])
      simp [Kernel.setSema, hsemas]
  | yield hy =>
    exact hquiet (.yieldPark hy) (ret_phase _ _) (yieldPark_tables hy).semas rfl rfl
  | @tryTake l wait st hv =>
    refine .of_move (.take hphase hv)
      (lockTable_settle (fun _ => rfl) (fun _ => rfl) rfl (fun _ => rfl) lock_value_update)
      (down_label hctl rfl rfl hv)
  | @setHolder l st =>
    exact .of_move (.mark hphase) (lockTable_settle (fun _ => rfl) (fun _ => rfl) rfl
      (Function.apply_update (fun _ => Lock.holder) m.kernel.locks l _) fun _ => rfl)
      (hsilentLabel rfl (by simp [Pc.takesFrom]))
  | @pushHolding l st =>
    exact .of_move (.list hphase) (lockTable_settle
      (Function.apply_update (fun _ => Thread.locksHolding) m.kernel.threads _ _)
      (apply_update_same Thread.lockWaiting rfl) (by rw [ret_phase]; rfl) (fun _ => rfl)
      fun _ => rfl) (hsilentLabel rfl (by simp [Pc.takesFrom]))
  | @setWaiting l st =>
    exact .of_move (.wait hphase) (lockTable_settle (apply_update_same Thread.locksHolding rfl)
      (Function.apply_update (fun _ => Thread.lockWaiting) m.kernel.threads _ _) rfl (fun _ => rfl)
      fun _ => rfl) (hsilentLabel rfl (by simp [Pc.takesFrom]))
  | donateStore => exact hquiet (.setLock rfl) rfl rfl rfl rfl
  | donateRaise => exact hquiet (.setThread rfl rfl) rfl rfl rfl rfl
  | sortHeap => exact hquiet ⟨fun _ => rfl, fun _ => rfl, fun _ => rfl⟩ rfl rfl rfl rfl
  | @acquired l st =>
    exact .of_move (.enter hphase) (lockTable_settle
      (Function.apply_update (fun _ => Thread.locksHolding) m.kernel.threads _ _)
      (Function.apply_update (fun _ => Thread.lockWaiting) m.kernel.threads _ _)
      (by rw [ret_phase]; rfl) (Function.apply_update (fun _ => Lock.holder) m.kernel.locks l _)
      fun _ => rfl) (hsilentLabel rfl (by simp [Pc.takesFrom]))
  | @releaseClear l st =>
    exact .of_move (.clear hphase) (lockTable_settle
      (Function.apply_update (fun _ => Thread.locksHolding) m.kernel.threads _ _)
      (apply_update_same Thread.lockWaiting rfl) rfl
      (Function.apply_update (fun _ => Lock.holder) m.kernel.locks l _) fun _ => rfl)
      (hsilentLabel rfl (by simp [Pc.takesFrom]))
  | @updateStore u p st => exact hquiet (.setThread rfl rfl) u.next_phase rfl rfl rfl
  | updateMlfqs hst =>
    cases hst with
    | @clamp u => exact hquiet (.setThread rfl rfl) u.next_phase rfl rfl rfl
    | _ => exact hquiet (.setThread rfl rfl) rfl rfl rfl rfl
  | waitPush =>
    exact hstay ⟨fun _ => rfl, fun _ => rfl, fun _ => rfl⟩ rfl
      (fun l => by simp [Kernel.setCond, Kernel.setSema]) (by simp [Pc.takesFrom])
      (by simp [Pc.givesTo])
  | signalRemove => exact hquiet ⟨fun _ => rfl, fun _ => rfl, fun _ => rfl⟩ rfl rfl rfl rfl
  | setOrigin | setStore | setNice => exact hquiet (.setThread rfl rfl) rfl rfl rfl rfl
  | createPage => exact hquiet ⟨fun _ => rfl, fun _ => rfl, fun _ => rfl⟩ rfl rfl rfl rfl
  | @createInit p t st k₁ hi =>
    -- the page under construction has no lock, and `init_thread` gives it none
    obtain ⟨-, rfl⟩ := initThread_ok hi
    have hemb : (m.ctl m.kernel.running).embryo = some t := by rw [hctl]; rfl
    have hheld := hlock.unborn t (.inr ⟨_, hemb⟩)
    have hwait : (m.kernel.threads t).lockWaiting = none := by
      refine (hlock.exclusive.waiting t).trans ?_
      change (m.ctl t).pc.phase.awaited = none
      rw [(hsch.queues.embryo _ t hemb).2.1]
      rfl
    exact hquiet (.of_update rfl rfl hheld.symm hwait.symm) rfl rfl rfl rfl
  | createMlfqs => exact hquiet (.setThread rfl rfl) rfl rfl rfl rfl
  | createUnblock hub =>
    exact hquiet (.pushReady (threadUnblock_ok hub).2) rfl (threadUnblock_semas hub) rfl rfl
  | exit => exact hquiet (.of_update rfl rfl rfl rfl) rfl rfl rfl rfl
  | sleep _ hs =>
    have hf := LockFrame.sleepPark hs
    obtain ⟨heap, rfl, -⟩ := sleepPark_ok hs
    exact hquiet hf rfl rfl rfl rfl

/-- **Refinement.** Every step is a move of the running thread in the lock table. -/
theorem Act.lockMove (hsch : Scheduled m) (hlock : Locked m) (ha : Act m e o) :
    LockMove m e o := by
  cases ha with
  | @call c hpc =>
    refine .stay (.refl _) ?_ (fun _ => rfl) (fun _ => rfl) fun _ => rfl
    rw [hpc]
    cases c <;> rfl
  | exec hex => exact hex.lockMove hsch hlock rfl
  | tick _ hint hy =>
    refine .stay (LockFrame.tick hint hy) rfl (fun l => ?_) (fun _ => rfl) fun _ => rfl
    exact congrArg (fun semas => (semas (.lock l)).value) (tick_tables hint hy).semas

end Refinement

/-! ### The invariant of all runs -/

section Invariant

variable {m m' : Machine} {e : Event}

/-- **A step on the lock table**: a move of the thread that was running. -/
theorem step_lockMove (hsch : Scheduled m) (hlock : Locked m) (hs : step m e = .ok m') :
    ∃ a, Move m.kernel.running m.lockTable a m'.lockTable ∧
      (∀ l, a = .down l ↔ completesDown (.lock l) (m, e) = true) ∧
      ∀ l, a = .up l ↔ performsUp (.lock l) (m, e) = true := by
  obtain ⟨o, ha, hctl, hd⟩ := step_act hs
  have hsame : m'.lockTable = (m.settle o).lockTable := by
    have hfield : ∀ t, (m'.kernel.threads t).locksHolding = (o.kernel.threads t).locksHolding ∧
        (m'.kernel.threads t).lockWaiting = (o.kernel.threads t).lockWaiting := by
      intro t
      obtain ⟨st, hst⟩ := hd.threads t
      rw [hst]
      exact ⟨rfl, rfl⟩
    refine Table.ext (funext fun t => (hfield t).1) (funext fun t => (hfield t).2) ?_ ?_ ?_
    · unfold Machine.lockTable Machine.pc
      rw [hctl]
      rfl
    · unfold Machine.lockTable
      rw [hd.locks]
      rfl
    · unfold Machine.lockTable
      rw [hd.semas]
      rfl
  rw [hsame]
  exact ha.lockMove hsch hlock

theorem Unborn.of_step (hsch : Scheduled m) (hs : step m e = .ok m') {t : Tid}
    (ht : m'.Unborn t) : m.Unborn t ∧ t ≠ m.kernel.running := by
  have hold : m.Unborn t := by
    obtain ⟨o, ha, hctl, hd⟩ := step_act hs
    rcases ht with hge | ⟨u, hu⟩
    · rw [hd.nextPage] at hge
      exact .inl (ha.setup.nextPage.trans hge)
    · rw [hctl] at hu
      by_cases hur : u = m.kernel.running
      · subst hur
        rw [update_self] at hu
        rcases ha.embryo hsch.flow hu with hemb | rfl
        · exact .inr ⟨_, hemb⟩
        · exact .inl le_rfl
      · rw [update_of_ne hur] at hu
        exact .inr ⟨u, hu⟩
  refine ⟨hold, ?_⟩
  rintro rfl
  -- the running thread is neither fresh nor under construction
  have hst : (m.kernel.threads m.kernel.running).status = .blocked := by
    rcases hold with hge | ⟨u, hu⟩
    · exact (hsch.queues.fresh _ hge).2
    · exact (hsch.queues.embryo u _ hu).2.2
  rw [show (m.kernel.threads m.kernel.running).status = .running from hsch.cpu.status] at hst
  cases hst

/-- A move of `r` leaves the lists of the other threads alone. -/
theorem Move.held_of_ne {x y : Table Tid LockId} {r t : Tid} {a : Label LockId}
    (hm : Move r x a y) (ht : t ≠ r) : y.held t = x.held t := by
  cases hm <;> simp [ht]

/-- **Every step keeps the locks.** -/
theorem Locked.step (hsch : Scheduled m) (h : Locked m) (hs : Pintos.step m e = .ok m') :
    Locked m' := by
  obtain ⟨a, hmove, -⟩ := step_lockMove hsch h hs
  refine ⟨h.exclusive.step hmove, fun t ht => ?_⟩
  obtain ⟨hold, hne⟩ := Unborn.of_step hsch hs ht
  exact (Move.held_of_ne hmove hne).trans (h.unborn t hold)

theorem Locked.boot (mlfqs : Bool) (v : ℕ → ℕ) : Locked (boot mlfqs v) := by
  have hheld : ∀ t, ((Pintos.boot mlfqs v).kernel.threads t).locksHolding = [] := by
    intro t
    unfold Pintos.boot freshThread
    dsimp only
    split
    · rfl
    · split <;> rfl
  have hwaiting : ∀ t, ((Pintos.boot mlfqs v).kernel.threads t).lockWaiting = none := by
    intro t
    unfold Pintos.boot freshThread
    dsimp only
    split
    · rfl
    · split <;> rfl
  have hphase : ∀ t, (Pintos.boot mlfqs v).lockTable.phase t = .free := by
    intro t
    change ((Pintos.boot mlfqs v).ctl t).pc.phase = .free
    unfold Pintos.boot
    dsimp only
    split <;> rfl
  have hnone : ∀ t l, ¬ (Pintos.boot mlfqs v).lockTable.Owns t l := by
    rintro t l (hmem | hph)
    · change l ∈ ((Pintos.boot mlfqs v).kernel.threads t).locksHolding at hmem
      rw [hheld] at hmem
      exact absurd hmem List.not_mem_nil
    · rw [hphase] at hph
      exact absurd hph (by simp [Phase.owned])
  refine ⟨⟨fun t => ?_, fun t l hl => ?_, fun t l hl => ?_, fun t l => ?_, fun t => ?_,
    fun t t' l hl => absurd hl (hnone t l), fun l _ t => hnone t l, fun l hl => absurd rfl hl⟩,
    fun t _ => hheld t⟩
  · change ((Pintos.boot mlfqs v).kernel.threads t).locksHolding.Nodup
    rw [hheld]
    exact List.nodup_nil
  · exact absurd (.inr hl) (hnone t l)
  · rw [hphase] at hl
    cases hl
  · refine ⟨fun hh => absurd hh (by simp [Machine.lockTable, Pintos.boot]), fun hm => ?_⟩
    rcases hm with hmem | hph
    · exact absurd (.inl hmem) (hnone t l)
    · rw [hphase] at hph
      cases hph
  · rw [hphase]
    exact hwaiting t

theorem Locked.of_run {G : Guard Machine Event} {mlfqs : Bool} {v : ℕ → ℕ}
    {h : List (Machine × Event)} (hrun : Run Pintos.step G (Pintos.boot mlfqs v) h m) :
    Scheduled m ∧ Locked m :=
  hrun.invariant (I := fun m => Scheduled m ∧ Locked m) ⟨.boot mlfqs v, .boot mlfqs v⟩
    fun _ _ _ hI _ hs => ⟨hI.1.step hs, hI.2.step hI.1 hs⟩

/-- A thread under construction holds no lock. -/
theorem Locked.holder_ne_embryo (hlock : Locked m) (hsch : Scheduled m) {u t : Tid}
    (hemb : (m.ctl u).embryo = some t) (l : LockId) : (m.kernel.locks l).holder ≠ some t := by
  intro hh
  rcases (hlock.exclusive.holder t l).mp hh with hmem | hph
  · change l ∈ (m.kernel.threads t).locksHolding at hmem
    rw [hlock.unborn t (.inr ⟨u, hemb⟩)] at hmem
    exact absurd hmem List.not_mem_nil
  · change (m.ctl t).pc.phase = _ at hph
    rw [(hsch.queues.embryo u t hemb).2.1] at hph
    exact absurd hph (by simp [Pc.phase])

/-- What every uninterrupted run in priority mode keeps: the queues, the locks, and that a thread
off the CPU has blocked or yielded. -/
structure Serial (m : Machine) : Prop where
  scheduled : Scheduled m
  locked : Locked m
  mode : m.kernel.mlfqs = false
  resumable : Resumable m

theorem Serial.boot (v : ℕ → ℕ) : Serial (boot false v) :=
  ⟨.boot false v, .boot false v, rfl, .boot false v⟩

theorem Serial.step (h : Serial m) (hu : uninterrupted m e) (hs : Pintos.step m e = .ok m') :
    Serial m' :=
  ⟨h.scheduled.step hs, h.locked.step h.scheduled hs, (step_mlfqs hs).trans h.mode,
    h.resumable.step h.scheduled.flow hu hs⟩

end Invariant

/-! ### Owners, from the history of the semaphore -/

/-- The threads between a successful acquisition of `l` and the `sema_up` of its release, read
off the history, the latest first. -/
def owners (l : LockId) : List (Machine × Event) → List Tid
  | [] => []
  | p :: h =>
    if completesDown (.lock l) p then p.1.kernel.running :: owners l h
    else if performsUp (.lock l) p then (owners l h).erase p.1.kernel.running
    else owners l h

/-- The program points of `lock_acquire`, `lock_try_acquire` and `lock_release` on a lock, with
the functions they call. -/
def Pc.lockCode : Pc → Option LockId
  | .acquireAssert l | .tryAssert l _ | .tryDown l _ | .setHolder l | .pushHolding l
  | .setWaiting l | .donate l _ _ | .donateTest l _ _ | .donateAssert l _ _ | .donateStore l _ _
  | .donateCompare l _ _ | .donateRaise l _ _ | .donateNext l _ _ | .sortHeap l
  | .semaDown (.lock l) | .semaRetest (.lock l) | .acquired l
  | .releaseAssert l | .releaseClear l | .semaUp (.lock l)
  | .updatePriority (.release l) | .updateScan (.release l) _ _ _ | .updateStore (.release l) _
  | .updateMax (.release l) | .updateCpu (.release l) | .updateNice (.release l)
  | .updateClamp (.release l) => some l
  | _ => none

section Owners

variable {l : LockId} {h : List (Machine × Event)} {m m' : Machine} {e : Event}

/-- The history and the lock table agree on who owns `l`. -/
def OwnersAgree (l : LockId) (h : List (Machine × Event)) (m : Machine) : Prop :=
  (owners l h = [] ∧ ∀ t, ¬ m.lockTable.Owns t l) ∨
    ∃ t, owners l h = [t] ∧ m.lockTable.Owns t l

theorem OwnersAgree.step (hsch : Scheduled m) (hlock : Locked m) (h₀ : OwnersAgree l h m)
    (hs : Pintos.step m e = .ok m') : OwnersAgree l ((m, e) :: h) m' := by
  obtain ⟨a, hmove, hdown, hup⟩ := step_lockMove hsch hlock hs
  unfold OwnersAgree at h₀ ⊢
  unfold owners
  cases a with
  | silent =>
    rw [if_neg fun hd => absurd ((hdown l).mpr hd) (by simp),
      if_neg fun hu => absurd ((hup l).mpr hu) (by simp)]
    simp only [Move.owns_silent hlock.exclusive hmove]
    exact h₀
  | down l₀ =>
    obtain ⟨hv, howns⟩ := Move.owns_down hmove
    rw [if_neg (c := performsUp (.lock l) (m, e) = true) fun hu =>
      absurd ((hup l).mpr hu) (by simp)]
    by_cases hl : l = l₀
    · -- the unit was there, so nobody owned the lock
      subst hl
      rw [if_pos ((hdown l).mp rfl)]
      have hfree := hlock.exclusive.free l (hlock.exclusive.value_eq_one hv)
      refine .inr ⟨m.kernel.running, ?_, (howns _ _).mpr (.inr ⟨rfl, rfl⟩)⟩
      rcases h₀ with ⟨hnil, -⟩ | ⟨t, -, ht⟩
      · rw [hnil]
      · exact absurd ht (hfree t)
    · rw [if_neg fun hd => hl (Label.down.inj ((hdown l).mpr hd)).symm]
      simpa [howns, hl] using h₀
  | up l₀ =>
    obtain ⟨hown, howns⟩ := Move.owns_up hlock.exclusive hmove
    rw [if_neg fun hd => absurd ((hdown l).mpr hd) (by simp)]
    by_cases hl : l = l₀
    · subst hl
      rw [if_pos ((hup l).mp rfl)]
      rcases h₀ with ⟨-, hnone⟩ | ⟨t, ht, hto⟩
      · exact absurd hown (hnone _)
      · obtain rfl := hlock.exclusive.unique _ _ l hown hto
        refine .inl ⟨by rw [ht]; simp, fun t' ht' => ?_⟩
        obtain ⟨hold, hne⟩ := (howns t' l).mp ht'
        exact hne ⟨hlock.exclusive.unique _ _ l hold hown, rfl⟩
    · rw [if_neg fun hu => hl (Label.up.inj ((hup l).mpr hu)).symm]
      simpa [howns, hl] using h₀

end Owners

/-- Whoever has the unit of a lock without having the lock on its list is in the lock's code. -/
theorem Pc.lockCode_of_owned {pc : Pc} {l : LockId} (h : pc.phase.owned = some l) :
    pc.lockCode = some l := by
  cases pc with
  | semaDown s | semaRetest s => cases s <;> exact absurd h (by simp [Pc.phase, Phase.owned])
  | semaUp s => cases s <;> exact h
  | updatePriority u | updateScan u _ _ _ | updateStore u _ | updateMax u | updateCpu u
  | updateNice u | updateClamp u => cases u <;> exact h
  | _ => first | exact h | exact absurd h (by simp [Pc.phase, Phase.owned])

/-- Outside the code that takes and gives up `l`, the recorded holder is the owner. -/
theorem holder_iff_owns {m : Machine} (hlock : Locked m) {t : Tid} {l : LockId}
    (hout : (m.pc t).lockCode ≠ some l) :
    (m.kernel.locks l).holder = some t ↔ m.lockTable.Owns t l := by
  refine (hlock.exclusive.holder t l).trans ⟨fun hm => ?_, fun ho => ?_⟩
  · exact hlock.exclusive.owns_of_holder ((hlock.exclusive.holder t l).mpr hm)
  · rcases ho with hmem | hph
    · exact .inl hmem
    · exact absurd (Pc.lockCode_of_owned hph) hout

/-- **Mutual exclusion and ownership.** In every run, with a timer interrupt wherever interrupts
are on, at most one thread is between its acquisition of a lock and the `sema_up` of its
release, the lock's semaphore is one minus the number of these threads, and a thread outside the
code of the lock that evaluates `lock_held_by_current_thread` learns whether it is that thread. -/
theorem lock_mutual_exclusion {mlfqs : Bool} {v : ℕ → ℕ} {h : List (Machine × Event)}
    {m : Machine} (hrun : Run step preemptive (boot mlfqs v) h m) (l : LockId) :
    (owners l h).length ≤ 1 ∧
      (m.kernel.semas (.lock l)).value = 1 - (owners l h).length ∧
      (m.curPc.lockCode ≠ some l →
        (lockHeldByCurrentThread m.kernel l = true ↔ m.kernel.running ∈ owners l h)) := by
  obtain ⟨-, hlock, hagree⟩ : Scheduled m ∧ Locked m ∧ OwnersAgree l h m := by
    refine hrun.invariant_history (I := fun h m => Scheduled m ∧ Locked m ∧ OwnersAgree l h m)
      ⟨.boot mlfqs v, .boot mlfqs v, .inl ⟨rfl, ?_⟩⟩ ?_
    · exact (Locked.boot mlfqs v).exclusive.free l rfl
    · intro h m e m' hI _ hs
      exact ⟨hI.1.step hs, hI.2.1.step hI.1 hs, hI.2.2.step hI.1 hI.2.1 hs⟩
  have hvalue : ∀ t, m.lockTable.Owns t l → (m.kernel.semas (.lock l)).value = 0 :=
    fun t ht => hlock.exclusive.value_eq_zero ht
  have hheld : m.curPc.lockCode ≠ some l →
      (lockHeldByCurrentThread m.kernel l = true ↔ m.lockTable.Owns m.kernel.running l) :=
    fun hout => lockHeldByCurrentThread_iff.trans (holder_iff_owns hlock hout)
  rcases hagree with ⟨hnil, hnone⟩ | ⟨t, hone, ht⟩
  · rw [hnil]
    refine ⟨Nat.zero_le 1, ?_, fun hout => ?_⟩
    · by_contra hne
      obtain ⟨-, t, ht⟩ := hlock.exclusive.taken l hne
      exact hnone t ht
    · rw [hheld hout]
      exact ⟨fun ho => absurd ho (hnone _), fun hmem => absurd hmem List.not_mem_nil⟩
  · rw [hone]
    refine ⟨le_rfl, hvalue t ht, fun hout => ?_⟩
    rw [hheld hout, List.mem_singleton]
    refine ⟨fun ho => hlock.exclusive.unique _ _ l ho ht, ?_⟩
    rintro rfl
    exact ht

/-- The main thread acquires lock 5. -/
theorem lock_mutual_exclusion_run : ∃ h m, Run step preemptive (boot false fun _ => 0) h m ∧
    owners 5 h = [0] ∧ (m.kernel.semas (.lock 5)).value = 0 ∧
      lockHeldByCurrentThread m.kernel 5 = true := by
  obtain ⟨h, m, hrun, hp⟩ := exists_run preemptive (fun _ _ => true) (fun _ _ _ => trivial)
    false (fun _ => 0) (Call.run (.lockAcquire 5) 5)
    (fun h m => decide (owners 5 h = [0] ∧ m.curPc = .user ∧ m.kernel.running = 0))
    (by decide +kernel)
  obtain ⟨howners, hpc, hrunning⟩ := of_decide_eq_true hp
  obtain ⟨-, hvalue, hheld⟩ := lock_mutual_exclusion hrun 5
  rw [howners] at hvalue hheld
  refine ⟨h, m, hrun, howners, hvalue, (hheld (by rw [hpc]; simp [Pc.lockCode])).mpr ?_⟩
  rw [hrunning]
  exact List.mem_singleton.mpr rfl

end Pintos
