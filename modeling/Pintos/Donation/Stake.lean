import Pintos.Kernel.Flow

/-!
# What priority donation reads and writes

Donation concerns the locks and four fields of a thread: its priority, the priority it was given
(`priority_origin`), the locks it holds and the lock it waits for. These are the thread's
**stake**. Most of the kernel leaves all stakes and locks alone (`StakeFrame`); the program
points that do not are listed in `Pc.writesStake`, and `Exec.stakeFrame` says that there are no
others.
-/

namespace Pintos

/-- The fields of a thread that donation reads or writes. -/
@[ext]
structure Stake where
  priority : ℤ
  origin : ℤ
  holding : List LockId
  waiting : Option LockId

def Thread.stake (x : Thread) : Stake where
  priority := x.priority
  origin := x.priorityOrigin
  holding := x.locksHolding
  waiting := x.lockWaiting

/-- A change of the kernel's memory that touches no lock and no stake. -/
structure StakeFrame (k k' : Kernel) : Prop where
  locks : k'.locks = k.locks
  stake : ∀ t, (k'.threads t).stake = (k.threads t).stake

namespace StakeFrame

variable {k k₁ k' : Kernel} {t : Tid}

theorem refl (k : Kernel) : StakeFrame k k := ⟨rfl, fun _ => rfl⟩

theorem trans (h₁ : StakeFrame k k₁) (h₂ : StakeFrame k₁ k') : StakeFrame k k' :=
  ⟨h₂.locks.trans h₁.locks, fun t => (h₂.stake t).trans (h₁.stake t)⟩

theorem priority (h : StakeFrame k k') (t : Tid) :
    (k'.threads t).priority = (k.threads t).priority := congrArg Stake.priority (h.stake t)

theorem origin (h : StakeFrame k k') (t : Tid) :
    (k'.threads t).priorityOrigin = (k.threads t).priorityOrigin := congrArg Stake.origin (h.stake t)

theorem holding (h : StakeFrame k k') (t : Tid) :
    (k'.threads t).locksHolding = (k.threads t).locksHolding := congrArg Stake.holding (h.stake t)

theorem waiting (h : StakeFrame k k') (t : Tid) :
    (k'.threads t).lockWaiting = (k.threads t).lockWaiting := congrArg Stake.waiting (h.stake t)

/-- Writing other fields of a thread. -/
theorem of_update {x : Thread} (hthreads : k'.threads = Function.update k.threads t x)
    (hlocks : k'.locks = k.locks) (hx : x.stake = (k.threads t).stake) : StakeFrame k k' := by
  refine ⟨hlocks, fun u => ?_⟩
  rw [hthreads]
  exact apply_update_same Thread.stake hx u

theorem pushReady (h : Pintos.pushReady k t = .ok k') : StakeFrame k k' := by
  obtain ⟨ord, heap, rfl, -⟩ := pushReady_ok h
  exact of_update rfl rfl rfl

theorem yieldPark (h : Pintos.yieldPark k = .ok k') : StakeFrame k k' := by
  rcases yieldPark_ok h with ⟨-, hpush⟩ | ⟨-, rfl⟩
  · exact pushReady hpush
  · exact of_update rfl rfl rfl

theorem sleepPark {n : ℤ} (h : Pintos.sleepPark k n = .ok k') : StakeFrame k k' := by
  obtain ⟨heap, rfl, -⟩ := sleepPark_ok h
  exact of_update rfl rfl rfl

/-- A timer interrupt in priority mode. -/
theorem timerInterrupt {y : Bool} (hm : k.mlfqs = false)
    (h : Pintos.timerInterrupt k = .ok (y, k')) : StakeFrame k k' := by
  obtain ⟨y₁, k₁, -, ⟨hm₁, hrounds⟩, htick⟩ := timerInterrupt_ok
    (I := fun _ k₁ => k₁.mlfqs = false ∧ StakeFrame k k₁) h ⟨hm, rfl, fun _ => rfl⟩
    fun y k₁ heap top k₂ hI _ hub => by
      have hpush := (threadUnblock_ok hub).2
      have hround : StakeFrame { k₁ with sleepHeap := heap } k₂ := pushReady hpush
      exact ⟨(pushReady_setup hpush).mlfqs.trans hI.1,
        hround.locks.trans hI.2.locks, fun t => (hround.stake t).trans (hI.2.stake t)⟩
  obtain ⟨k₂, hplain, -, -, rfl, -⟩ := threadTick_ok htick
  obtain rfl := hplain hm₁
  exact ⟨hrounds.locks, hrounds.stake⟩

theorem dispatched (h : Dispatched k k') : StakeFrame k k' := by
  refine ⟨h.locks, fun t => ?_⟩
  obtain ⟨st, hst⟩ := h.threads t
  rw [hst]
  rfl

end StakeFrame

/-- The program points that write a lock or a stake. -/
def Pc.writesStake : Pc → Bool
  | .setHolder _ | .pushHolding _ | .setWaiting _ | .donateStore _ _ _ | .donateRaise _ _ _
  | .acquired _ | .releaseClear _ | .updateStore _ _ | .updateMax _ | .updateCpu _
  | .updateNice _ | .updateClamp _ | .setOrigin _ _ | .setStore _ _ | .createInit _ _ => true
  | _ => false

/-- **The rest of the kernel** leaves the locks and the stakes alone. -/
theorem Exec.stakeFrame {k : Kernel} {c : Control} {o : Outcome} (hex : Exec k c o)
    (hpc : c.pc.writesStake = false) : StakeFrame k o.kernel := by
  cases hex with
  | upWake _ _ hub =>
    have hpush := StakeFrame.pushReady (threadUnblock_ok hub).2
    exact ⟨hpush.locks, hpush.stake⟩
  | createUnblock hub => exact .pushReady (threadUnblock_ok hub).2
  | yield hy => exact .yieldPark hy
  | sleep _ hs => exact .sleepPark hs
  | idle | downBlock | createMlfqs | setNice | exit => exact .of_update rfl rfl rfl
  | updateMlfqs hst => cases hst <;> exact absurd hpc (by simp [Pc.writesStake])
  | _ => first | exact ⟨rfl, fun _ => rfl⟩ | exact absurd hpc (by simp [Pc.writesStake])

/-- An event other than the execution of such a point. -/
theorem Act.stakeFrame {m : Machine} {e : Event} {o : Outcome} (hm : m.kernel.mlfqs = false)
    (ha : Act m e o) (hpc : e = .exec → m.curPc.writesStake = false) :
    StakeFrame m.kernel o.kernel := by
  cases ha with
  | call => exact .refl _
  | exec hex => exact hex.stakeFrame (hpc rfl)
  | tick _ hint hy =>
    refine (StakeFrame.timerInterrupt hm hint).trans ?_
    rcases yieldOnReturn_ok hy with hy | rfl
    · exact .yieldPark hy
    · exact .refl _

end Pintos
