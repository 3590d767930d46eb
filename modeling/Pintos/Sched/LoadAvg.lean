import Pintos.Sched.Mlfqs
import Mathlib.Tactic.Linarith

/-!
# The load average

Every hundredth tick `update_load_avg` takes `59/60` of the old value and `1/60` of the number of
threads that are ready or running. Both constants are rounded down to 17.14 fixed point and the
product is truncated, so the stored value falls behind the exact one. One update adds an error of
at most one unit and one more per counted thread; an update also shrinks the error there was by
`59/60`, so the error never exceeds sixty times that.

* `Exec.keepsScores` — no code outside the timer interrupt touches the load average or the clock;
* `atLoadUpdate` — the memory in which a tick calls `update_load_avg`, if it does;
* `loadStep_error` — the error of one update;
* `Averaged.step` — bounds and error are kept by every step of a run.
-/

namespace Pintos

open Transition

/-! ### One update -/

/-- `ready_threads_cnt` of `update_load_avg`. -/
def readyThreadsCnt (k : Kernel) : ℤ :=
  k.readyHeap.size + (if k.running ≠ k.idleThread then 1 else 0)

theorem readyThreadsCnt_nonneg (k : Kernel) : 0 ≤ readyThreadsCnt k := by
  unfold readyThreadsCnt
  split <;> omega

/-- The value `update_load_avg` stores, with every intermediate value checked. -/
def updateLoadAvg? (k : Kernel) : Option ℤ := do
  let eff1 ← fpDiv? (← itofp? 59) (← itofp? 60)
  let eff2 ← fpIntDiv? (← itofp? 1) 60
  fpAdd? (← fpMul? eff1 k.loadAvg) (← fpIntMul? eff2 (readyThreadsCnt k))

/-- One update with the constants evaluated: `16110` is `59/60` and `273` is `1/60`, rounded
down. -/
def loadStep (la cnt : ℤ) : ℤ := 16110 * la / 16384 + 273 * cnt

section Update

variable {k : Kernel} {N : ℕ} {la cnt : ℤ}

/-- The value stays between zero and the greatest count. -/
theorem loadStep_bounds (hlo : 0 ≤ la) (hhi : la ≤ 16384 * N) (hcnt : 0 ≤ cnt) (hN : cnt ≤ N) :
    0 ≤ loadStep la cnt ∧ loadStep la cnt ≤ 16384 * N := by
  unfold loadStep
  omega

/-- **No overflow in an update.** -/
theorem updateLoadAvg?_eq (hN : N ≤ 2048) (hlo : 0 ≤ k.loadAvg) (hhi : k.loadAvg ≤ 16384 * N)
    (hcnt : readyThreadsCnt k ≤ N) :
    updateLoadAvg? k = some (loadStep k.loadAvg (readyThreadsCnt k)) := by
  have hpos := readyThreadsCnt_nonneg k
  have hmul : fpMul? 16110 k.loadAvg = some (16110 * k.loadAvg / 16384) := by
    unfold fpMul? fBits
    rw [int64?_of_fits (by omega) (by omega)]
    change int32? ((16110 * k.loadAvg).tdiv 16384) = _
    rw [Int.tdiv_eq_ediv_of_nonneg (by omega), int32?_of_fits (by omega) (by omega)]
  have hcount : fpIntMul? 273 (readyThreadsCnt k) = some (273 * readyThreadsCnt k) :=
    int32?_of_fits (by omega) (by omega)
  change (do fpAdd? (← fpMul? 16110 k.loadAvg) (← fpIntMul? 273 (readyThreadsCnt k))) = _
  rw [hmul, hcount]
  exact int32?_of_fits (by omega) (by omega)

/-- The checked update is the one of the kernel. -/
theorem updateLoadAvg_of_checked {x : ℤ} (h : updateLoadAvg? k = some x) :
    (updateLoadAvg k).loadAvg = x := by
  change (do fpAdd? (← fpMul? 16110 k.loadAvg) (← fpIntMul? 273 (readyThreadsCnt k))) = _ at h
  obtain ⟨a, ha, h⟩ := Option.bind_eq_some_iff.mp h
  obtain ⟨b, hb, h⟩ := Option.bind_eq_some_iff.mp h
  change fpAdd (fpMul 16110 k.loadAvg) (fpIntMul 273 (readyThreadsCnt k)) = x
  rw [fpMul_of_checked ha, fpIntMul_of_checked hb, fpAdd_of_checked h]

/-- **The error of one update.** If the stored value is behind the exact value by at most sixty
times `N + 1`, then it is after an update with at most `N` threads. -/
theorem loadStep_error {x : ℚ} (hhi : la ≤ 16384 * N) (hcnt : 0 ≤ cnt) (hN : cnt ≤ N)
    (hla : 0 ≤ la) (herr : 0 ≤ x - la ∧ x - la ≤ 60 * (N + 1)) :
    0 ≤ 59 / 60 * x + 1 / 60 * (cnt * 2 ^ 14) - loadStep la cnt ∧
      59 / 60 * x + 1 / 60 * (cnt * 2 ^ 14) - loadStep la cnt ≤ 60 * (N + 1) := by
  -- truncation loses less than one unit of the product
  have htrunc : (16110 * la / 16384) * 16384 ≤ 16110 * la ∧
      16110 * la ≤ (16110 * la / 16384) * 16384 + 16384 := by omega
  have hq : ((16110 * la / 16384 : ℤ) : ℚ) * 16384 ≤ 16110 * la ∧
      (16110 * la : ℚ) ≤ ((16110 * la / 16384 : ℤ) : ℚ) * 16384 + 16384 := by
    exact_mod_cast htrunc
  have hstep : ((loadStep la cnt : ℤ) : ℚ) = ((16110 * la / 16384 : ℤ) : ℚ) + 273 * cnt := by
    unfold loadStep
    push_cast
    rfl
  have hla' : (0 : ℚ) ≤ la ∧ (la : ℚ) ≤ 16384 * N := ⟨by exact_mod_cast hla, by exact_mod_cast hhi⟩
  have hcnt' : (0 : ℚ) ≤ cnt ∧ (cnt : ℚ) ≤ N := ⟨by exact_mod_cast hcnt, by exact_mod_cast hN⟩
  rw [hstep]
  generalize ((16110 * la / 16384 : ℤ) : ℚ) = p at hq
  constructor <;> linarith [hq.1, hq.2, hla'.1, hla'.2, hcnt'.1, hcnt'.2, herr.1, herr.2]

end Update

/-! ### Who writes the load average -/

section Code

variable {k k' : Kernel} {c : Control} {o : Outcome}

/-- The code of the running thread leaves the load average, the clock and the mode alone. -/
theorem Exec.keepsScores (hex : Exec k c o) :
    o.kernel.loadAvg = k.loadAvg ∧ o.kernel.ticks = k.ticks ∧ o.kernel.mlfqs = k.mlfqs := by
  cases hex with
  | upWake _ _ hub | createUnblock hub =>
    obtain ⟨ord, heap, rfl, -⟩ := pushReady_ok (threadUnblock_ok hub).2
    exact ⟨rfl, rfl, rfl⟩
  | yield hy =>
    have hf := ScoreFrame.yieldOnReturn (y := true) hy
    exact ⟨hf.loadAvg, hf.ticks, hf.mlfqs⟩
  | createInit hi =>
    obtain ⟨-, rfl⟩ := initThread_ok hi
    exact ⟨rfl, rfl, rfl⟩
  | sleep _ hs =>
    obtain ⟨heap, rfl, -⟩ := sleepPark_ok hs
    exact ⟨rfl, rfl, rfl⟩
  | _ => exact ⟨rfl, rfl, rfl⟩

/-- The memory in which a timer interrupt taken in `k` calls `update_load_avg`, if it does. -/
def atLoadUpdate (k : Kernel) : Option Kernel :=
  match timerWake { k with ticks := toInt64 (k.ticks + 1) } (toInt64 (k.ticks + 1)) with
  | .error _ => none
  | .ok (_, k₁) =>
    if k₁.mlfqs ∧ k₁.ticks % timerFreq = 0 then some (priorityPass (chargeTick k₁)) else none

/-- The rounds of `timer_wake` leave what the scheduler counts with alone. -/
theorem timerWake_scoreFrame {cur : ℤ} {y : Bool} (h : timerWake k cur = .ok (y, k')) :
    k'.mlfqs = k.mlfqs ∧ k'.idleThread = k.idleThread ∧ k'.loadAvg = k.loadAvg ∧
      k'.ticks = k.ticks ∧ k'.allList = k.allList ∧ k'.running = k.running ∧
      ∀ t, (k'.threads t).recentCpu = (k.threads t).recentCpu ∧
        (k'.threads t).nice = (k.threads t).nice := by
  refine timerWakeLoop_induct (I := fun _ k' => k'.mlfqs = k.mlfqs ∧ k'.idleThread = k.idleThread ∧
    k'.loadAvg = k.loadAvg ∧ k'.ticks = k.ticks ∧ k'.allList = k.allList ∧
    k'.running = k.running ∧ ∀ t, (k'.threads t).recentCpu = (k.threads t).recentCpu ∧
        (k'.threads t).nice = (k.threads t).nice) ?_ _ _ _ _
    ⟨rfl, rfl, rfl, rfl, rfl, rfl, fun _ => ⟨rfl, rfl⟩⟩ h
  intro y k₁ heap top k₂ ⟨hm, hi, hl, ht, ha, hr, hth⟩ _ hub
  have hf := ScoreFrame.pushReady (threadUnblock_ok hub).2
  have hrun : k₂.running = k₁.running := by
    obtain ⟨ord, heap', rfl, -⟩ := pushReady_ok (threadUnblock_ok hub).2
    rfl
  exact ⟨hf.mlfqs.trans hm, hf.idleThread.trans hi, hf.loadAvg.trans hl, hf.ticks.trans ht,
    hf.allList.trans ha, hrun.trans hr,
    fun t => ⟨(hf.recentCpu t).trans (hth t).1, (hf.nice t).trans (hth t).2⟩⟩

/-- The usage pass leaves the load average that was computed before it. -/
theorem threadForeach_loadAvg {f : Kernel → Tid → Thread} (ts : List Tid) :
    ∀ k, (threadForeach f ts k).loadAvg = k.loadAvg := by
  induction ts with
  | nil => exact fun _ => rfl
  | cons t ts ih => exact fun k => ih (k.setThread t (f k t))

/-- The load average is as it was when `update_load_avg` is called. -/
theorem atLoadUpdate_loadAvg {k₁ : Kernel} (h : atLoadUpdate k = some k₁) :
    k₁.loadAvg = k.loadAvg := by
  unfold atLoadUpdate at h
  split at h
  · cases h
  next y k₂ hwake =>
  split at h
  · cases h
    rw [(priorityPass_usage (chargeTick k₂) 0).2]
    refine Eq.trans ?_ (timerWake_scoreFrame hwake).2.2.1
    unfold chargeTick
    split <;> rfl
  · cases h

/-- **A tick and the load average**: it is updated in the memory `atLoadUpdate` tells, or is as
before. -/
theorem timerInterrupt_loadAvg {y : Bool} (hm : k.mlfqs = true)
    (h : timerInterrupt k = .ok (y, k')) :
    (∃ k₁, atLoadUpdate k = some k₁ ∧ k₁.loadAvg = k.loadAvg ∧
        k'.loadAvg = (updateLoadAvg k₁).loadAvg) ∨
      (atLoadUpdate k = none ∧ k'.loadAvg = k.loadAvg) := by
  obtain ⟨y₁, k₁, hwake, -, htick⟩ := timerInterrupt_ok (I := fun _ _ => True) h trivial
    fun _ _ _ _ _ _ _ _ => trivial
  obtain ⟨hm₁, -, hl₁, -⟩ := timerWake_scoreFrame hwake
  obtain ⟨k₂, -, hmlfqs, -, rfl, -⟩ := threadTick_ok htick
  obtain rfl := hmlfqs (hm₁.trans hm)
  have hload : (priorityPass (chargeTick k₁)).loadAvg = k.loadAvg := by
    rw [(priorityPass_usage (chargeTick k₁) 0).2]
    refine Eq.trans ?_ hl₁
    unfold chargeTick
    split <;> rfl
  have hticks : (priorityPass (chargeTick k₁)).ticks = k₁.ticks :=
    (priorityPass_rescored _).keeps.1.trans (chargeTick_rescored k₁).keeps.1
  have hat : atLoadUpdate k =
      if k₁.mlfqs ∧ k₁.ticks % timerFreq = 0 then some (priorityPass (chargeTick k₁)) else none := by
    unfold atLoadUpdate
    rw [hwake]
  have htickEq : ({ mlfqsTick k₁ with threadTicks := (mlfqsTick k₁).threadTicks + 1 } : Kernel).loadAvg
      = (usagePass (priorityPass (chargeTick k₁))).loadAvg := rfl
  rw [htickEq, hat]
  by_cases h100 : k₁.ticks % timerFreq = 0
  · refine .inl ⟨_, if_pos ⟨hm₁.trans hm, h100⟩, hload, ?_⟩
    unfold usagePass
    rw [hticks, if_pos h100]
    exact threadForeach_loadAvg _ _
  · refine .inr ⟨if_neg fun hc => h100 hc.2, ?_⟩
    rw [usagePass_of_not (by rw [hticks]; exact h100), hload]

/-- A step other than a tick leaves the load average alone. -/
theorem step_loadAvg {m m' : Machine} {e : Event} (hs : step m e = .ok m') (he : e ≠ .tick) :
    m'.kernel.loadAvg = m.kernel.loadAvg := by
  obtain ⟨o, ho, hcase⟩ := step_ok hs
  have hout : o.kernel.loadAvg = m.kernel.loadAvg := by
    cases act_ok ho with
    | call => rfl
    | exec hex => exact hex.keepsScores.1
    | tick => exact absurd rfl he
  rcases hcase with ⟨-, rfl⟩ | ⟨k, -, hk, rfl⟩
  · exact hout
  · exact (ScoreFrame.schedule hk).loadAvg.trans hout

end Code

/-! ### Runs -/

/-- No `update_load_avg` counts more than `N` threads. -/
def loadAtMost (N : ℕ) : Guard Machine Event := fun m e =>
  e = .tick → ∀ k, atLoadUpdate m.kernel = some k → readyThreadsCnt k ≤ N

/-- The exact value of the recurrence, scaled by `2^14`, on the counts of the updates of a
run. -/
def exactLoad : List (Machine × Event) → ℚ
  | [] => 0
  | (m, .tick) :: h =>
    match atLoadUpdate m.kernel with
    | none => exactLoad h
    | some k => 59 / 60 * exactLoad h + 1 / 60 * (readyThreadsCnt k * 2 ^ 14)
  | _ :: h => exactLoad h

/-- The load average is in its range, and behind the exact value by a bounded amount. -/
structure Averaged (N : ℕ) (h : List (Machine × Event)) (m : Machine) : Prop where
  mode : m.kernel.mlfqs = true
  nonneg : 0 ≤ m.kernel.loadAvg
  le : m.kernel.loadAvg ≤ 16384 * N
  error : 0 ≤ exactLoad h - m.kernel.loadAvg ∧ exactLoad h - m.kernel.loadAvg ≤ 60 * (N + 1)

namespace Averaged

variable {N : ℕ} {h : List (Machine × Event)} {m m' : Machine} {e : Event}

/-- The update of a tick, on a load average that is in its range. -/
theorem checked (ha : Averaged N h m) (hN : N ≤ 2048) {k k₁ : Kernel} {y : Bool}
    (hint : timerInterrupt m.kernel = .ok (y, k)) (hat : atLoadUpdate m.kernel = some k₁)
    (hcnt : readyThreadsCnt k₁ ≤ N) :
    updateLoadAvg? k₁ = some (loadStep m.kernel.loadAvg (readyThreadsCnt k₁)) := by
  rcases timerInterrupt_loadAvg ha.mode hint with ⟨k₂, hat₂, hload, -⟩ | ⟨hnone, -⟩
  · obtain rfl : k₁ = k₂ := Option.some.inj (hat.symm.trans hat₂)
    rw [← hload]
    exact updateLoadAvg?_eq hN (hload ▸ ha.nonneg) (hload ▸ ha.le) hcnt
  · rw [hat] at hnone
    cases hnone

/-- **Every step keeps the bounds and the error.** -/
theorem step (ha : Averaged N h m) (hN : N ≤ 2048) (hG : loadAtMost N m e)
    (hs : Pintos.step m e = .ok m') : Averaged N ((m, e) :: h) m' := by
  have hmode := (step_mlfqs hs).trans ha.mode
  by_cases he : e = .tick
  · subst he
    obtain ⟨y, k, hint, hf⟩ := step_tick hs
    have hexact : exactLoad ((m, .tick) :: h) = match atLoadUpdate m.kernel with
      | none => exactLoad h
      | some k => 59 / 60 * exactLoad h + 1 / 60 * (readyThreadsCnt k * 2 ^ 14) := rfl
    rcases timerInterrupt_loadAvg ha.mode hint with ⟨k₁, hat, hload, hnew⟩ | ⟨hnone, hsame⟩
    · -- an update: the one-step bounds
      have hcnt := hG rfl k₁ hat
      have hpos := readyThreadsCnt_nonneg k₁
      have hval : m'.kernel.loadAvg = loadStep m.kernel.loadAvg (readyThreadsCnt k₁) := by
        rw [hf.loadAvg, hnew]
        exact updateLoadAvg_of_checked (ha.checked hN hint hat hcnt)
      obtain ⟨hlo, hhi⟩ := loadStep_bounds ha.nonneg ha.le hpos hcnt
      refine ⟨hmode, hval ▸ hlo, hval ▸ hhi, ?_⟩
      rw [hexact, hat, hval]
      exact loadStep_error ha.le hpos hcnt ha.nonneg ha.error
    · have hval : m'.kernel.loadAvg = m.kernel.loadAvg := hf.loadAvg.trans hsame
      refine ⟨hmode, hval ▸ ha.nonneg, hval ▸ ha.le, ?_⟩
      rw [hexact, hnone, hval]
      exact ha.error
  · have hval := step_loadAvg hs he
    refine ⟨hmode, hval ▸ ha.nonneg, hval ▸ ha.le, ?_⟩
    have hexact : exactLoad ((m, e) :: h) = exactLoad h := by
      cases e with
      | tick => exact absurd rfl he
      | call | exec => rfl
    rw [hexact, hval]
    exact ha.error

theorem of_run {v : ℕ → ℕ} (hN : N ≤ 2048) (hrun : Run Pintos.step (loadAtMost N) (boot true v) h m) :
    Averaged N h m :=
  hrun.invariant_history ⟨rfl, le_refl 0, by positivity, by norm_num [exactLoad, boot]; positivity⟩
    fun _ _ _ _ ha hG hs => ha.step hN hG hs

end Averaged

/-! ### The decay of the usage -/

/-- The divisor of `thread_update_recent_cpu`, `2 * load_avg + 1`. -/
def decayDivisor (la : ℤ) : ℤ := fpAdd (fpIntMul la 2) (itofp 1)

/-- The coefficient of `thread_update_recent_cpu`. -/
def decayCoef (la : ℤ) : ℤ := fpDiv (fpIntMul la 2) (decayDivisor la)

/-- The two with every intermediate value checked. -/
def decayCoef? (la : ℤ) : Option ℤ := do
  let a ← fpIntMul? la 2
  fpDiv? a (← fpAdd? (← fpIntMul? la 2) (← itofp? 1))

section Decay

variable {la : ℤ}

theorem decayDivisor_eq (hlo : 0 ≤ la) (hhi : la ≤ 2 ^ 25) : decayDivisor la = 2 * la + fBits := by
  unfold decayDivisor fpAdd fpIntMul itofp fBits
  rw [toInt32_of_fits (x := la * 2) (by omega) (by omega),
    toInt32_of_fits (x := 1 * 16384) (by omega) (by omega),
    toInt32_of_fits (by omega) (by omega)]
  omega

/-- The quotient of the two, `2 * load_avg / (2 * load_avg + 1)`, is less than one. -/
theorem decayQuot_bounds (hlo : 0 ≤ la) :
    0 ≤ la * 2 * 16384 / (2 * la + 16384) ∧ la * 2 * 16384 / (2 * la + 16384) < 16384 := by
  refine ⟨Int.ediv_nonneg (by omega) (by omega), Int.ediv_lt_of_lt_mul (by omega) ?_⟩
  linarith

theorem decayCoef?_eq (hlo : 0 ≤ la) (hhi : la ≤ 2 ^ 25) :
    decayCoef? la = some (la * 2 * 16384 / (2 * la + 16384)) := by
  have hmul : fpIntMul? la 2 = some (la * 2) := int32?_of_fits (by omega) (by omega)
  have hadd : fpAdd? (la * 2) 16384 = some (2 * la + 16384) := by
    unfold fpAdd?
    rw [int32?_of_fits (by omega) (by omega), mul_comm la 2]
  obtain ⟨hge, hlt⟩ := decayQuot_bounds hlo
  unfold decayCoef?
  rw [hmul]
  change (do fpDiv? (la * 2) (← fpAdd? (la * 2) 16384)) = _
  rw [hadd]
  unfold fpDiv? fBits
  rw [int64?_of_fits (by omega) (by omega)]
  change (if 2 * la + 16384 = 0 then none else int32? _) = _
  rw [if_neg (by omega), Int.tdiv_eq_ediv_of_nonneg (by omega),
    int32?_of_fits (by omega) (by omega)]

theorem decayCoef_of_checked {x : ℤ} (h : decayCoef? la = some x) : decayCoef la = x := by
  obtain ⟨a, ha, h⟩ := Option.bind_eq_some_iff.mp h
  rw [ha] at h
  change (do fpDiv? a (← fpAdd? a (← itofp? 1))) = some x at h
  obtain ⟨b, hb, h⟩ := Option.bind_eq_some_iff.mp h
  obtain ⟨c, hc, hquot⟩ := Option.bind_eq_some_iff.mp h
  unfold decayCoef decayDivisor
  rw [itofp_of_checked hb, fpIntMul_of_checked ha, fpAdd_of_checked hc, fpDiv_of_checked hquot]

end Decay

/-- **The load average.** In every run in which no update counts more than `N` threads, the load
average is between 0 and `N`, no intermediate value of `update_load_avg` overflows, and the stored
value is behind the exact one by at most `60 * (N + 1)` units. So the divisor of
`thread_update_recent_cpu` is positive and its coefficient is in `[0, 1)`. -/
theorem load_avg_accurate {v : ℕ → ℕ} {N : ℕ} (hN : N ≤ 2048) {h : List (Machine × Event)}
    {m : Machine} (hrun : Run step (loadAtMost N) (boot true v) h m) :
    (0 ≤ m.kernel.loadAvg ∧ m.kernel.loadAvg ≤ 16384 * N) ∧
      (∀ m' k, step m .tick = .ok m' → atLoadUpdate m.kernel = some k → readyThreadsCnt k ≤ N →
        updateLoadAvg? k = some m'.kernel.loadAvg) ∧
      (0 ≤ exactLoad h - m.kernel.loadAvg ∧ exactLoad h - m.kernel.loadAvg ≤ 60 * (N + 1)) ∧
      0 < decayDivisor m.kernel.loadAvg ∧
      decayCoef? m.kernel.loadAvg = some (decayCoef m.kernel.loadAvg) ∧
      0 ≤ decayCoef m.kernel.loadAvg ∧ decayCoef m.kernel.loadAvg < fBits := by
  have ha := Averaged.of_run hN hrun
  have hsmall : m.kernel.loadAvg ≤ 2 ^ 25 := by
    have := ha.le
    omega
  have hcoef := decayCoef?_eq ha.nonneg hsmall
  have hbounds := decayQuot_bounds ha.nonneg
  refine ⟨⟨ha.nonneg, ha.le⟩, fun m' k hs hat hcnt => ?_, ha.error, ?_, ?_, ?_⟩
  · obtain ⟨y, k', hint, hf⟩ := step_tick hs
    have hchecked := ha.checked hN hint hat hcnt
    rcases timerInterrupt_loadAvg ha.mode hint with ⟨k₁, hat₁, -, hnew⟩ | ⟨hnone, -⟩
    · obtain rfl : k = k₁ := Option.some.inj (hat.symm.trans hat₁)
      rw [hf.loadAvg, hnew, updateLoadAvg_of_checked hchecked, hchecked]
    · rw [hat] at hnone
      cases hnone
  · rw [decayDivisor_eq ha.nonneg hsmall]
    have := ha.nonneg
    unfold fBits
    omega
  · rw [hcoef, decayCoef_of_checked hcoef]
  · rw [decayCoef_of_checked hcoef]
    exact hbounds

/-- The memory of the update on the solo run. -/
theorem Solo.atLoadUpdate {n : ℕ} {m : Machine} (h : Solo n m) (hn : n + 1 < 2 ^ 63) :
    Pintos.atLoadUpdate m.kernel = if (n + 1) % 100 = 0 then
      some (priorityPass (chargeTick { m.kernel with ticks := (n + 1 : ℕ) })) else none := by
  have hclock : toInt64 (m.kernel.ticks + 1) = (n + 1 : ℕ) := by
    rw [h.ticks, toInt64_of_fits (by omega) (by omega)]
    rfl
  unfold Pintos.atLoadUpdate timerWake
  dsimp only
  rw [hclock, h.sleep]
  refine if_congr ?_ rfl rfl
  have hmod : ((n + 1 : ℕ) : ℤ) % 100 = ((n + 1) % 100 : ℕ) := (Int.natCast_mod ..).symm
  unfold timerFreq
  rw [h.mode, hmod]
  simp only [true_and]
  exact_mod_cast Iff.rfl

/-- The first update, after the main thread has run alone for a hundred ticks. -/
theorem load_avg_accurate_solo : ∃ h m, Run step (loadAtMost 1) (boot true fun _ => 0) h m ∧
    m.kernel.ticks = 100 ∧ exactLoad h = 16384 / 60 ∧
    0 ≤ exactLoad h - m.kernel.loadAvg ∧ exactLoad h - m.kernel.loadAvg ≤ 120 := by
  -- before the hundredth tick there is no update
  obtain ⟨h, m, hrun, hsolo⟩ := exists_solo (G := fun m e => loadAtMost 1 m e ∧
      (e = .tick → Pintos.atLoadUpdate m.kernel = none)) (fun _ => 0)
    (fun n m hn hsolo => by
      have hnone : Pintos.atLoadUpdate m.kernel = none := by
        rw [hsolo.atLoadUpdate (by omega), if_neg (by omega)]
      exact ⟨fun _ k hk => absurd (hnone.symm.trans hk) (by simp), fun _ => hnone⟩) 99 (by decide)
  have hzero : exactLoad h = 0 := hrun.invariant_history (I := fun h _ => exactLoad h = 0) rfl
    fun h m e m' hI hG _ => by
      cases e with
      | tick =>
        change (match Pintos.atLoadUpdate m.kernel with | none => exactLoad h | some k => _) = 0
        rw [hG.2 rfl]
        exact hI
      | call | exec => exact hI
  obtain ⟨m', hs, hticks, -⟩ := hsolo.stale
  have hat := hsolo.atLoadUpdate (by decide)
  rw [if_pos rfl] at hat
  have hcnt : readyThreadsCnt (priorityPass (chargeTick { m.kernel with ticks := (99 + 1 : ℕ) }))
      = 1 := by
    obtain ⟨-, -, -, hcur₁, hidle₁, -⟩ :=
      (chargeTick_rescored ({ m.kernel with ticks := (99 + 1 : ℕ) } : Kernel)).keeps
    obtain ⟨-, -, -, hcur₂, hidle₂, -⟩ :=
      (priorityPass_rescored (chargeTick { m.kernel with ticks := (99 + 1 : ℕ) })).keeps
    unfold readyThreadsCnt
    rw [(priorityPass_rescored _).readyHeap, (chargeTick_rescored _).readyHeap, hcur₂, hcur₁, hidle₂,
      hidle₁]
    rw [hsolo.ready, hsolo.running, hsolo.idle]
    rfl
  have hrun' : Run step (loadAtMost 1) (boot true fun _ => 0) ((m, .tick) :: h) m' := by
    refine .tail (hrun.mono fun _ _ hG => hG.1) (fun _ k hk => ?_) hs
    rw [hat] at hk
    cases hk
    exact le_of_eq hcnt
  obtain ⟨-, -, herr, -⟩ := load_avg_accurate (by decide) hrun'
  refine ⟨_, m', hrun', hticks, ?_, herr.1, herr.2.trans (by norm_num)⟩
  change (match Pintos.atLoadUpdate m.kernel with | none => exactLoad h | some k => _) = _
  rw [hat]
  change 59 / 60 * exactLoad h + 1 / 60 * (_ * 2 ^ 14) = _
  rw [hzero, hcnt]
  norm_num

end Pintos
