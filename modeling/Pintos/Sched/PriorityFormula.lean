import Pintos.Kernel.Thread
import Mathlib.Data.Rat.Floor

/-!
# The priority formula

`thread_update_priority` in mlfqs mode against the formula of the 4.4BSD scheduler, which is evaluated
over the rationals and rounded down. The code divides `recent_cpu` by four, which truncates, and then
rounds the quotient to the nearest integer, half away from zero; the rest is integers. Both roundings
together are one rounding of `recent_cpu` to the nearest multiple of four (`fptoiRound_fpIntDiv`),
while rounding the result down is rounding `recent_cpu / 4` up. The two agree where the fractional part
is zero or large, and where the difference of one is lost in the clamp.
-/

namespace Pintos

/-- The formula of the specification, for a `recent_cpu` in 17.14 fixed point. -/
def exactPriority (recentCpu nice : ℤ) : ℤ :=
  max priMin (min priMax ⌊(priMax : ℚ) - (recentCpu / fBits : ℚ) / 4 - 2 * nice⌋)

section Formula

variable {r n : ℤ}

/-- Rounding the formula down, in integers: 65536 is a `recent_cpu` of four. -/
theorem floor_formula (r n : ℤ) :
    ⌊(priMax : ℚ) - (r / fBits : ℚ) / 4 - 2 * n⌋ = (63 * 65536 - r - 131072 * n) / 65536 := by
  have hfrac : (priMax : ℚ) - (r / fBits : ℚ) / 4 - 2 * n
      = ((63 * 65536 - r - 131072 * n : ℤ) : ℚ) / (65536 : ℕ) := by
    unfold priMax fBits
    push_cast
    ring
  rw [hfrac, Rat.floor_intCast_div_natCast]
  rfl

/-- The two roundings of the code are one, to the nearest, half away from zero. -/
theorem fptoiRound_fpIntDiv (hlo : -2 ^ 31 ≤ r) (hhi : r < 2 ^ 31) :
    fptoiRound (fpIntDiv r 4) =
      if 0 ≤ r then (r + 32768) / 65536 else -((-r + 32768) / 65536) := by
  unfold fptoiRound fpIntDiv fBits
  by_cases hr : 0 ≤ r
  · have hdiv : toInt32 (r.tdiv 4) = r / 4 := by
      rw [Int.tdiv_eq_ediv_of_nonneg hr]
      exact toInt32_of_fits (by omega) (by omega)
    rw [hdiv, if_pos (by omega), if_pos hr, toInt32_of_fits (by omega) (by omega),
      Int.tdiv_eq_ediv_of_nonneg (by omega)]
    omega
  · -- truncation of a negative number is that of its absolute value
    have hdiv : toInt32 (r.tdiv 4) = -(-r / 4) := by
      rw [← Int.neg_neg r, Int.neg_tdiv, Int.neg_neg, Int.tdiv_eq_ediv_of_nonneg (by omega)]
      exact toInt32_of_fits (by omega) (by omega)
    have hhalf : (toInt32 (-(-r / 4) - 16384 / 2)).tdiv 16384 = -((-r / 4 + 8192) / 16384) := by
      rw [toInt32_of_fits (by omega) (by omega),
        show -(-r / 4) - 16384 / 2 = -(-r / 4 + 8192) by omega, Int.neg_tdiv,
        Int.tdiv_eq_ediv_of_nonneg (by omega)]
    rw [hdiv, if_neg hr, hhalf]
    split
    · next h0 =>
      -- less than one unit of fixed point: both round to zero
      rw [show -r / 4 = 0 by omega, show (-r + 32768) / 65536 = 0 by omega]
      rfl
    · omega

/-- The code, in integers. -/
theorem mlfqsPriority_eq (hr : -2 ^ 31 ≤ r ∧ r < 2 ^ 31) (hn : -20 ≤ n ∧ n ≤ 20) :
    mlfqsPriority r n = max priMin (min priMax
      (63 - (if 0 ≤ r then (r + 32768) / 65536 else -((-r + 32768) / 65536)) - 2 * n)) := by
  unfold mlfqsPriority
  dsimp only
  rw [fptoiRound_fpIntDiv hr.1 hr.2]
  generalize hq : (if 0 ≤ r then (r + 32768) / 65536 else -((-r + 32768) / 65536)) = q
  have hbound : -2 ^ 15 ≤ q ∧ q ≤ 2 ^ 15 := by
    rw [← hq]
    split <;> omega
  unfold priMax priMin
  rw [toInt32_of_fits (x := 63 - q) (by omega) (by omega),
    toInt32_of_fits (x := 2 * n) (by omega) (by omega), toInt32_of_fits (by omega) (by omega)]
  split
  · omega
  · split <;> omega

/-- **The priority formula.** The code stores the documented priority exactly if a quarter of
`recent_cpu` has the fractional part zero, or at least one half (more, if it is negative), or the
formula is out of range. -/
theorem mlfqsPriority_exact (r n : ℤ) (hr : -2 ^ 31 ≤ r ∧ r < 2 ^ 31) (hn : -20 ≤ n ∧ n ≤ 20) :
    mlfqsPriority r n = exactPriority r n ↔
      r % 65536 = 0 ∨ 32768 < r % 65536 ∨ (0 ≤ r ∧ r % 65536 = 32768) ∨
        r + 131072 * n ≤ 0 ∨ 63 * 65536 < r + 131072 * n := by
  rw [mlfqsPriority_eq hr hn]
  unfold exactPriority
  rw [floor_formula]
  unfold priMax priMin
  by_cases h0 : 0 ≤ r
  · rw [if_pos h0]
    omega
  · rw [if_neg h0]
    omega

/-- A `recent_cpu` of three is rounded to four. -/
theorem mlfqsPriority_exact_three : mlfqsPriority (3 * fBits) 0 = exactPriority (3 * fBits) 0 :=
  (mlfqsPriority_exact _ 0 (by decide) (by decide)).mpr (.inr (.inl (by decide)))

/-- **A `recent_cpu` of one** is rounded to zero: the priority is 63, not 62. -/
theorem mlfqsPriority_inexact : mlfqsPriority fBits 0 = 63 ∧ exactPriority fBits 0 = 62 := by
  refine ⟨by decide, ?_⟩
  unfold exactPriority
  rw [floor_formula]
  decide

end Formula

end Pintos
