import Pintos.Kernel.FixedPoint
import Mathlib.Tactic.Linarith

/-!
# 64-bit division

`lib/arithmetic.c`: division of 64-bit integers by the DIVL instruction of the processor, which
divides 64 bits by 32 and traps if the quotient does not fit into 32.

A divisor of more than 32 bits is replaced by its first 32 bits, and the quotient by an estimate. The
first 32 bits `v` of `d` stand for a divisor `v * k`, where `v * k ≤ d < (v + 1) * k`, so that the
estimate is not too small; that it is too large by at most one is `div_prefix_le`.

* `nlz_spec` — the number of leading zeros;
* `udiv64_eq` — the quotient, and no trap;
* `sdiv64_eq` — the signed quotient;
* `umoddi3_eq`, `moddi3_eq` — the remainders, which come back in 32 bits.
-/

namespace Pintos

/-! ### The functions -/

/-- `divl`: `none` is the trap. -/
def divl (n : UInt64) (d : UInt32) : Option UInt32 :=
  if d = 0 ∨ 2 ^ 32 ≤ n.toNat / d.toNat then none else some (.ofNat (n.toNat / d.toNat))

/-- A step of `nlz`: the zeros counted so far, and what is left of the number. -/
def nlzStep (k : ℕ) (p : ℕ × UInt32) : ℕ × UInt32 :=
  if p.2.toNat < 2 ^ (32 - k) then (p.1 + k, p.2 <<< .ofNat k) else p

/-- `nlz`. -/
def nlz (x : UInt32) : ℕ :=
  (nlzStep 1 (nlzStep 2 (nlzStep 4 (nlzStep 8 (nlzStep 16 (0, x)))))).1

/-- `udiv64`. -/
def udiv64 (n d : UInt64) : Option UInt64 :=
  if d >>> 32 = 0 then
    let b : UInt64 := (1 : UInt64) <<< 32
    let n1 := (n >>> 32).toUInt32
    let n0 := n.toUInt32
    let d0 := d.toUInt32
    (divl (b * (n1 % d0).toUInt64 + n0.toUInt64) d0).map fun q =>
      q.toUInt64 + b * (n1 / d0).toUInt64
  else if n < d then some 0
  else
    let d1 := (d >>> 32).toUInt32
    let s := nlz d1
    (divl (n >>> 1) ((d <<< .ofNat s) >>> 32).toUInt32).map fun q =>
      let q := (q >>> .ofNat (31 - s)).toUInt64
      if n - (q - 1) * d < d then q - 1 else q

/-- `umod64`: the remainder is returned as a `uint32_t`. -/
def umod64 (n d : UInt64) : Option UInt32 :=
  (udiv64 n d).map fun q => (n - d * q).toUInt32

/-- The absolute value of an `int64_t`. -/
def abs64 (n : ℤ) : UInt64 :=
  if 0 ≤ n then .ofNat (n % 2 ^ 64).toNat else -.ofNat (n % 2 ^ 64).toNat

/-- `sdiv64`. -/
def sdiv64 (n d : ℤ) : Option ℤ :=
  (udiv64 (abs64 n) (abs64 d)).map fun q =>
    if (n < 0) ↔ (d < 0) then toInt64 q.toNat else toInt64 (-toInt64 q.toNat)

/-- `smod64`: the remainder is returned as an `int32_t`. -/
def smod64 (n d : ℤ) : Option ℤ :=
  (sdiv64 n d).map fun q => toInt32 (toInt64 (n - toInt64 (d * q)))

/-- `__udivdi3`. -/
def udivdi3 (n d : UInt64) : Option UInt64 := udiv64 n d

/-- `__umoddi3`. -/
def umoddi3 (n d : UInt64) : Option UInt64 := (umod64 n d).map UInt32.toUInt64

/-- `__divdi3`. -/
def divdi3 (n d : ℤ) : Option ℤ := sdiv64 n d

/-- `__moddi3`. -/
def moddi3 (n d : ℤ) : Option ℤ := smod64 n d

/-! ### Leading zeros -/

/-- A step leaves a number of which the first `k` bits are not all zero, if that was so for the first
`2 * k`. -/
theorem nlzStep_spec {k : ℕ} {p : ℕ × UInt32} {x : UInt32} (hk : 2 * k ≤ 32)
    (hx : p.2.toNat = x.toNat * 2 ^ p.1) (hlo : 2 ^ (32 - 2 * k) ≤ p.2.toNat) :
    (nlzStep k p).2.toNat = x.toNat * 2 ^ (nlzStep k p).1 ∧
      2 ^ (32 - k) ≤ (nlzStep k p).2.toNat ∧ (nlzStep k p).1 ≤ p.1 + k := by
  unfold nlzStep
  split
  next hlt =>
    have hfits : p.2.toNat * 2 ^ k < 2 ^ 32 := by
      calc p.2.toNat * 2 ^ k < 2 ^ (32 - k) * 2 ^ k := Nat.mul_lt_mul_of_pos_right hlt (by positivity)
        _ = 2 ^ 32 := by rw [← Nat.pow_add, Nat.sub_add_cancel (by omega)]
    have hshift : (p.2 <<< UInt32.ofNat k).toNat = p.2.toNat * 2 ^ k := by
      rw [UInt32.toNat_shiftLeft, UInt32.toNat_ofNat', Nat.shiftLeft_eq,
        Nat.mod_eq_of_lt (show k < 2 ^ 32 by omega), Nat.mod_eq_of_lt (show k < 32 by omega),
        Nat.mod_eq_of_lt hfits]
    refine ⟨?_, ?_, le_rfl⟩
    · rw [hshift, hx, Nat.pow_add, Nat.mul_assoc]
    · rw [hshift]
      calc 2 ^ (32 - k) = 2 ^ (32 - 2 * k) * 2 ^ k := by rw [← Nat.pow_add]; congr 1; omega
        _ ≤ p.2.toNat * 2 ^ k := Nat.mul_le_mul_right _ hlo
  next hge => exact ⟨hx, Nat.le_of_not_lt hge, Nat.le_add_right _ _⟩

/-- **The number of leading zeros**: a shift by it makes the first bit a one, and loses none. -/
theorem nlz_spec {x : UInt32} (hx : x ≠ 0) :
    nlz x ≤ 31 ∧ 2 ^ 31 ≤ x.toNat * 2 ^ nlz x ∧ x.toNat * 2 ^ nlz x < 2 ^ 32 := by
  have hpos : 2 ^ (32 - 2 * 16) ≤ x.toNat := by
    have : x.toNat ≠ 0 := fun h0 => hx (UInt32.toNat_inj.mp h0)
    omega
  obtain ⟨h₁, hlo₁, hle₁⟩ := nlzStep_spec (k := 16) (p := (0, x)) (by decide)
    (Nat.mul_one x.toNat).symm hpos
  obtain ⟨h₂, hlo₂, hle₂⟩ := nlzStep_spec (k := 8) (by decide) h₁ hlo₁
  obtain ⟨h₃, hlo₃, hle₃⟩ := nlzStep_spec (k := 4) (by decide) h₂ hlo₂
  obtain ⟨h₄, hlo₄, hle₄⟩ := nlzStep_spec (k := 2) (by decide) h₃ hlo₃
  obtain ⟨h₅, hlo₅, hle₅⟩ := nlzStep_spec (k := 1) (by decide) h₄ hlo₄
  unfold nlz
  rw [← h₅]
  exact ⟨by omega, hlo₅, UInt32.toNat_lt _⟩

/-! ### The estimate -/

/-- **The estimate is too large by at most one.** The divisor `d` is replaced by `v * k`, and `v` is at
least half of the largest word. -/
theorem div_prefix_le {B v k d n : ℕ} (hk : k = 2 ∨ 4 ≤ k) (hv : B ≤ v) (hpos : 0 < B)
    (hn : n < 4 * (B * B)) (hlo : v * k ≤ d) (hhi : d < v * k + k) :
    n / (v * k) ≤ n / d + 1 := by
  have hvk : 0 < v * k := Nat.mul_pos (by omega) (by omega)
  by_contra hlt
  obtain ⟨r, rfl⟩ := Nat.exists_eq_add_of_le hlo
  generalize hq : n / (v * k + r) = q at hlt
  -- the quotient `q` of `n` by `d`, with which the estimate is at least `q + 2`
  have hle : q * (v * k + r) ≤ n := by
    rw [← hq]
    exact Nat.div_mul_le_self n _
  have hnlt : n < (q + 1) * (v * k + r) := by
    rw [← hq, Nat.mul_comm]
    exact Nat.lt_mul_div_succ n (by omega)
  have hest : (q + 2) * (v * k) ≤ n := (Nat.le_div_iff_mul_le hvk).mp (by omega)
  have hgap : v * k < (q + 1) * r := by nlinarith
  obtain rfl | hk4 := hk
  · -- the divisor is odd, and the quotient would be as large as the divisor
    have hr : r = 1 := by
      by_contra hr
      obtain rfl : r = 0 := by omega
      omega
    subst hr
    have hq : v * 2 ≤ q := by omega
    nlinarith [Nat.mul_le_mul hv hv, Nat.mul_le_mul hq hq]
  · have hqB : B ≤ q := by
      by_contra hqB
      nlinarith [Nat.mul_le_mul_right k hv, Nat.mul_le_mul (show q + 1 ≤ B by omega) (show r ≤ k by omega)]
    nlinarith [Nat.mul_le_mul hqB (Nat.mul_le_mul hv hk4)]

/-! ### The quotient -/

theorem divl_eq {n : UInt64} {d : UInt32} (hd : d ≠ 0) (h : n.toNat / d.toNat < 2 ^ 32) :
    divl n d = some (.ofNat (n.toNat / d.toNat)) :=
  if_neg (by simp only [hd, false_or]; omega)

/-- The high half of a number. -/
theorem toNat_shiftRight_32 (n : UInt64) : (n >>> 32).toNat = n.toNat / 2 ^ 32 := by
  rw [UInt64.toNat_shiftRight, Nat.shiftRight_eq_div_pow]
  rfl

section Quotient

variable {n d : UInt64}

/-- A divisor of 32 bits: the division in two steps. -/
theorem udiv64_small (hd : d ≠ 0) (hsmall : d >>> 32 = 0) :
    ∃ q, udiv64 n d = some q ∧ q.toNat = n.toNat / d.toNat := by
  have hd32 : d.toNat < 2 ^ 32 := by
    have h0 := congrArg UInt64.toNat hsmall
    rw [toNat_shiftRight_32, UInt64.toNat_zero] at h0
    omega
  have hdpos : 0 < d.toNat := by
    have : d.toNat ≠ 0 := fun h0 => hd (UInt64.toNat_inj.mp h0)
    omega
  have hn := n.toNat_lt
  have hb : ((1 : UInt64) <<< 32).toNat = 2 ^ 32 := by decide
  generalize hn1 : n.toNat / 2 ^ 32 = n1
  generalize hn0 : n.toNat % 2 ^ 32 = n0
  have hsplit : n.toNat = 2 ^ 32 * n1 + n0 := by omega
  have hmod : n1 % d.toNat < d.toNat := Nat.mod_lt _ hdpos
  -- the first step leaves a remainder below the divisor, so that the second does not trap
  have hdivisor : d.toUInt32.toNat = d.toNat := by
    rw [UInt64.toNat_toUInt32, Nat.mod_eq_of_lt hd32]
  have hdividend : (((1 : UInt64) <<< 32) * ((n >>> 32).toUInt32 % d.toUInt32).toUInt64
      + n.toUInt32.toUInt64).toNat = 2 ^ 32 * (n1 % d.toNat) + n0 := by
    simp only [UInt64.toNat_add, UInt64.toNat_mul, UInt32.toNat_toUInt64, UInt32.toNat_mod,
      UInt64.toNat_toUInt32, toNat_shiftRight_32, hb, hn1, hn0, Nat.mod_eq_of_lt hd32,
      Nat.mod_eq_of_lt (show n1 < 2 ^ 32 by omega)]
    omega
  have hquot : (2 ^ 32 * (n1 % d.toNat) + n0) / d.toNat < 2 ^ 32 := by
    rw [Nat.div_lt_iff_lt_mul hdpos]
    omega
  have hq : n.toNat / d.toNat
      = (2 ^ 32 * (n1 % d.toNat) + n0) / d.toNat + 2 ^ 32 * (n1 / d.toNat) := by
    have hdm := Nat.div_add_mod n1 d.toNat
    rw [hsplit, ← Nat.add_mul_div_left _ _ hdpos]
    congr 1
    nlinarith
  have hd0 : d.toUInt32 ≠ 0 := by
    intro h0
    rw [h0] at hdivisor
    exact hdpos.ne hdivisor
  unfold udiv64
  rw [if_pos hsmall]
  dsimp only
  rw [divl_eq hd0 (by rwa [hdividend, hdivisor]), hdividend, hdivisor]
  refine ⟨_, rfl, ?_⟩
  have hle : n1 / d.toNat ≤ n1 := Nat.div_le_self _ _
  simp only [UInt64.toNat_add, UInt64.toNat_mul, UInt32.toNat_toUInt64, UInt32.toNat_div,
    UInt32.toNat_ofNat', UInt64.toNat_toUInt32, toNat_shiftRight_32, hb, hn1,
    Nat.mod_eq_of_lt hd32, Nat.mod_eq_of_lt (show n1 < 2 ^ 32 by omega), Nat.mod_eq_of_lt hquot]
  rw [hq, Nat.mod_eq_of_lt (show 2 ^ 32 * (n1 / d.toNat) < 2 ^ 64 by omega), Nat.mod_eq_of_lt]
  generalize (2 ^ 32 * (n1 % d.toNat) + n0) / d.toNat = q at hquot
  omega

/-- The first 32 bits of a divisor with `s` leading zeros. -/
theorem toNat_firstBits {s k : ℕ} (hs : s ≤ 31) (hsk : 2 ^ s * k = 2 ^ 32)
    (hzeros : d.toNat / 2 ^ 32 * 2 ^ s < 2 ^ 32) :
    ((d <<< UInt64.ofNat s) >>> 32).toUInt32.toNat = d.toNat / k := by
  have hkpos : 0 < k := Nat.pos_of_ne_zero fun h0 => by simp [h0] at hsk
  have hdlt : d.toNat / 2 ^ 32 < k := Nat.lt_of_mul_lt_mul_right (a := 2 ^ s) (by linarith)
  have hdk : d.toNat < k * 2 ^ 32 := (Nat.div_lt_iff_lt_mul (by decide)).mp hdlt
  have hfits : d.toNat * 2 ^ s < 2 ^ 64 := by
    calc d.toNat * 2 ^ s < k * 2 ^ 32 * 2 ^ s := Nat.mul_lt_mul_of_pos_right hdk (by positivity)
      _ = 2 ^ 32 * 2 ^ 32 := by rw [Nat.mul_right_comm, Nat.mul_comm k, hsk]
      _ = 2 ^ 64 := by decide
  have hlt : d.toNat / k < 2 ^ 32 := (Nat.div_lt_iff_lt_mul hkpos).mpr (by linarith)
  rw [UInt64.toNat_toUInt32, toNat_shiftRight_32, UInt64.toNat_shiftLeft, UInt64.toNat_ofNat',
    Nat.mod_eq_of_lt (show s < 2 ^ 64 by omega), Nat.mod_eq_of_lt (show s < 64 by omega),
    Nat.shiftLeft_eq, Nat.mod_eq_of_lt hfits]
  have hdiv : d.toNat * 2 ^ s / 2 ^ 32 = d.toNat / k := by
    rw [← hsk, Nat.mul_comm (2 ^ s) k, Nat.mul_div_mul_right _ _ (by positivity)]
  rw [hdiv, Nat.mod_eq_of_lt hlt]

/-- The correction of an estimate that may be one too large. -/
theorem toNat_corrected {q : UInt64} (hpos : 0 < n.toNat / d.toNat)
    (hlo : n.toNat / d.toNat ≤ q.toNat) (hhi : q.toNat ≤ n.toNat / d.toNat + 1) :
    (if n - (q - 1) * d < d then q - 1 else q).toNat = n.toNat / d.toNat := by
  have hd : 0 < d.toNat := Nat.pos_of_ne_zero fun h0 => by simp [h0] at hpos
  have hn := n.toNat_lt
  have hdm := Nat.div_add_mod n.toNat d.toNat
  have hmod := Nat.mod_lt n.toNat hd
  have hpred : (q - 1).toNat = q.toNat - 1 :=
    UInt64.toNat_sub_of_le _ _ (UInt64.le_iff_toNat_le.mpr (by rw [UInt64.toNat_one]; omega))
  have hmul : (q.toNat - 1) * d.toNat ≤ n.toNat := by
    calc (q.toNat - 1) * d.toNat ≤ n.toNat / d.toNat * d.toNat := Nat.mul_le_mul_right _ (by omega)
      _ ≤ n.toNat := Nat.div_mul_le_self _ _
  have hprod : ((q - 1) * d).toNat = (q.toNat - 1) * d.toNat := by
    rw [UInt64.toNat_mul, hpred, Nat.mod_eq_of_lt (by omega)]
  have hdiff : (n - (q - 1) * d).toNat = n.toNat - (q.toNat - 1) * d.toNat := by
    rw [UInt64.toNat_sub_of_le _ _ (UInt64.le_iff_toNat_le.mpr (by rwa [hprod])), hprod]
  have hiff : n - (q - 1) * d < d ↔ n.toNat - (q.toNat - 1) * d.toNat < d.toNat := by
    rw [UInt64.lt_iff_toNat_lt, hdiff]
  obtain heq | heq : q.toNat = n.toNat / d.toNat ∨ q.toNat = n.toNat / d.toNat + 1 := by omega
  · -- the estimate is the quotient: one less leaves at least `d`
    rw [if_neg, heq]
    rw [hiff, heq, Nat.sub_one_mul, Nat.mul_comm]
    have := Nat.le_mul_of_pos_right d.toNat hpos
    omega
  · rw [if_pos, hpred, heq, Nat.add_sub_cancel]
    rw [hiff, heq, Nat.add_sub_cancel, Nat.mul_comm]
    omega

/-- A divisor of more than 32 bits: an estimate, and a correction. -/
theorem udiv64_large (hlarge : d >>> 32 ≠ 0) :
    ∃ q, udiv64 n d = some q ∧ q.toNat = n.toNat / d.toNat := by
  have hn := n.toNat_lt
  have hd := d.toNat_lt
  unfold udiv64
  rw [if_neg hlarge]
  split
  next hlt =>
    refine ⟨0, rfl, ?_⟩
    rw [Nat.div_eq_of_lt (UInt64.lt_iff_toNat_lt.mp hlt)]
    rfl
  next hge =>
    have hle : d.toNat ≤ n.toNat := Nat.le_of_not_lt fun h => hge (UInt64.lt_iff_toNat_lt.mpr h)
    have hd1 : (d >>> 32).toUInt32.toNat = d.toNat / 2 ^ 32 := by
      rw [UInt64.toNat_toUInt32, toNat_shiftRight_32]
      omega
    have hx : (d >>> 32).toUInt32 ≠ 0 := by
      intro h0
      refine hlarge (UInt64.toNat_inj.mp ?_)
      rw [toNat_shiftRight_32, ← hd1, h0]
      rfl
    have hdpos : 0 < d.toNat := by
      refine Nat.pos_of_ne_zero fun h0 => hx (UInt32.toNat_inj.mp ?_)
      rw [hd1, h0]
      rfl
    obtain ⟨hs, hlo, hhi⟩ := nlz_spec hx
    dsimp only
    rw [hd1] at hlo hhi
    generalize nlz (d >>> 32).toUInt32 = s at hs hlo hhi ⊢
    generalize hk : 2 ^ (32 - s) = k
    have hsk : 2 ^ s * k = 2 ^ 32 := by
      rw [← hk, ← Nat.pow_add, Nat.add_sub_cancel' (by omega)]
    have hk2 : 2 ^ (31 - s) * 2 = k := by
      rw [← hk, ← Nat.pow_succ]
      congr 1
      omega
    have hk24 : k = 2 ∨ 4 ≤ k := by
      rw [← hk2]
      obtain rfl | hs' := Nat.eq_or_lt_of_le hs
      · exact .inl rfl
      · have := Nat.pow_le_pow_right (n := 2) (by decide) (show 1 ≤ 31 - s by omega)
        omega
    have hbits := toNat_firstBits hs hsk hhi
    generalize hv : d.toNat / k = v at hbits
    -- what `divl` divides by, and what it stands for
    have hvk : v * k ≤ d.toNat := hv ▸ Nat.div_mul_le_self _ _
    have hvk' : d.toNat < v * k + k := by
      rw [← hv, ← Nat.succ_mul, Nat.mul_comm]
      exact Nat.lt_mul_div_succ _ (by omega)
    have hvlo : 2 ^ 31 ≤ v := by
      rw [← hv, Nat.le_div_iff_mul_le (by omega)]
      calc 2 ^ 31 * k ≤ d.toNat / 2 ^ 32 * 2 ^ s * k := Nat.mul_le_mul_right k hlo
        _ = d.toNat / 2 ^ 32 * 2 ^ 32 := by rw [Nat.mul_assoc, hsk]
        _ ≤ d.toNat := Nat.div_mul_le_self _ _
    have hest := div_prefix_le hk24 hvlo (by decide) (show n.toNat < 4 * (2 ^ 31 * 2 ^ 31) by omega)
      hvk hvk'
    have hhalf : (n >>> 1).toNat = n.toNat / 2 := by
      rw [UInt64.toNat_shiftRight, Nat.shiftRight_eq_div_pow]
      rfl
    have hfits : (n >>> 1).toNat / ((d <<< UInt64.ofNat s) >>> 32).toUInt32.toNat < 2 ^ 32 := by
      rw [hhalf, hbits, Nat.div_lt_iff_lt_mul (by omega)]
      omega
    have hne : ((d <<< UInt64.ofNat s) >>> 32).toUInt32 ≠ 0 := by
      intro h0
      rw [h0] at hbits
      exact absurd hvlo (by rw [← hbits]; decide)
    rw [divl_eq hne hfits]
    refine ⟨_, rfl, ?_⟩
    -- the estimate is the quotient of `n` by `v * k`
    have hq : (UInt32.ofNat ((n >>> 1).toNat / ((d <<< UInt64.ofNat s) >>> 32).toUInt32.toNat) >>>
        UInt32.ofNat (31 - s)).toUInt64.toNat = n.toNat / (v * k) := by
      rw [UInt32.toNat_toUInt64, UInt32.toNat_shiftRight, UInt32.toNat_ofNat', UInt32.toNat_ofNat',
        Nat.mod_eq_of_lt hfits, Nat.mod_eq_of_lt (show 31 - s < 2 ^ 32 by omega),
        Nat.mod_eq_of_lt (show 31 - s < 32 by omega), Nat.shiftRight_eq_div_pow, hhalf, hbits, ← hk2,
        Nat.div_div_eq_div_mul, Nat.div_div_eq_div_mul]
      congr 1
      rw [Nat.mul_comm 2, Nat.mul_assoc]
    refine toNat_corrected (Nat.div_pos hle hdpos) ?_ ?_
    · rw [hq]
      exact Nat.div_le_div_left hvk (Nat.mul_pos (by omega) (by omega))
    · rwa [hq]

/-- **`udiv64` divides**, and does not trap. -/
theorem udiv64_eq (n : UInt64) {d : UInt64} (hd : d ≠ 0) : udiv64 n d = some (n / d) := by
  obtain ⟨q, hq, hval⟩ : ∃ q, udiv64 n d = some q ∧ q.toNat = n.toNat / d.toNat := by
    by_cases hsmall : d >>> 32 = 0
    · exact udiv64_small hd hsmall
    · exact udiv64_large hsmall
  rw [hq, UInt64.toNat_inj.mp (hval.trans (UInt64.toNat_div n d).symm)]

end Quotient

/-! ### Signed division -/

/-- The values of an `int64_t`. -/
def IsInt64 (n : ℤ) : Prop := -2 ^ 63 ≤ n ∧ n < 2 ^ 63

section Signed

variable {n d : ℤ}

theorem toNat_abs64 (hn : IsInt64 n) : (abs64 n).toNat = n.natAbs := by
  obtain ⟨hlo, hhi⟩ := hn
  unfold abs64
  split
  · rw [UInt64.toNat_ofNat']
    omega
  · rw [UInt64.toNat_neg, UInt64.toNat_ofNat', show UInt64.size = 2 ^ 64 from rfl]
    omega

/-- A quotient, by its sign and its absolute value. -/
theorem tdiv_eq (n d : ℤ) : n.tdiv d =
    if n < 0 ↔ d < 0 then ((n.natAbs / d.natAbs : ℕ) : ℤ)
    else -((n.natAbs / d.natAbs : ℕ) : ℤ) := by
  have habs : (n.tdiv d).natAbs = n.natAbs / d.natAbs := Int.natAbs_tdiv n d
  by_cases hn : n < 0
  · have hneg : (-n).tdiv d = -n.tdiv d := Int.neg_tdiv n d
    by_cases hd : d < 0
    · have := Int.tdiv_nonneg_of_nonpos_of_nonpos hn.le hd.le
      rw [if_pos (iff_of_true hn hd)]
      omega
    · have := Int.tdiv_nonneg (show 0 ≤ -n by omega) (not_lt.mp hd)
      rw [if_neg (fun hiff => hd (hiff.mp hn))]
      omega
  · by_cases hd : d < 0
    · have := Int.tdiv_nonpos_of_nonneg_of_nonpos (not_lt.mp hn) hd.le
      rw [if_neg (fun hiff => hn (hiff.mpr hd))]
      omega
    · have := Int.tdiv_nonneg (not_lt.mp hn) (not_lt.mp hd)
      rw [if_pos (iff_of_false hn hd)]
      omega

/-- A quotient of 2 to the 63 has the least number and 1 or -1 behind it. -/
theorem natAbs_div_lt (hn : IsInt64 n) (h0 : d ≠ 0) :
    n.natAbs / d.natAbs < 2 ^ 63 ∨ n.natAbs / d.natAbs = 2 ^ 63 ∧ n = -2 ^ 63 ∧ d.natAbs = 1 := by
  obtain ⟨hlo, hhi⟩ := hn
  by_cases hd : d.natAbs = 1
  · rw [hd, Nat.div_one]
    omega
  · have hle : n.natAbs / d.natAbs ≤ n.natAbs / 2 := Nat.div_le_div_left (by omega) (by decide)
    omega

/-- **`sdiv64` divides**, and rounds towards zero. -/
theorem sdiv64_eq (hn : IsInt64 n) (hd : IsInt64 d) (h0 : d ≠ 0) (hmin : ¬(n = -2 ^ 63 ∧ d = -1)) :
    sdiv64 n d = some (n.tdiv d) := by
  have habs : abs64 d ≠ 0 := by
    intro hzero
    have hval := toNat_abs64 hd
    rw [hzero, UInt64.toNat_zero] at hval
    omega
  have hq : (abs64 n / abs64 d).toNat = n.natAbs / d.natAbs := by
    rw [UInt64.toNat_div, toNat_abs64 hn, toNat_abs64 hd]
  unfold sdiv64
  rw [udiv64_eq _ habs, Option.map_some, hq, tdiv_eq]
  obtain hlt | ⟨heq, hn63, hd1⟩ := natAbs_div_lt hn h0
  · generalize n.natAbs / d.natAbs = q at hlt
    rw [toInt64_of_fits (by omega) (by omega), toInt64_of_fits (by omega) (by omega)]
  · -- the quotient does not fit, and its negation does
    have hsign : ¬((n < 0) ↔ (d < 0)) := by
      rintro hiff
      exact hmin ⟨hn63, by omega⟩
    rw [if_neg hsign, if_neg hsign, heq]
    rfl

/-- **Division of 64-bit integers** is exact, and the processor does not trap. -/
theorem division64_exact :
    (∀ n d : UInt64, d ≠ 0 → ∃ q, udiv64 n d = some q ∧ q.toNat = n.toNat / d.toNat) ∧
      ∀ n d : ℤ, IsInt64 n → IsInt64 d → d ≠ 0 → ¬(n = -2 ^ 63 ∧ d = -1) →
        sdiv64 n d = some (n.tdiv d) :=
  ⟨fun n d hd => ⟨n / d, udiv64_eq n hd, UInt64.toNat_div n d⟩, fun _ _ => sdiv64_eq⟩

theorem division64_exact_large : udiv64 9223372036854775808 8589934591 = some 1073741824 ∧
    sdiv64 (-7) 2 = some (-3) := by
  obtain ⟨q, hq, hval⟩ := division64_exact.1 9223372036854775808 8589934591 (by decide)
  have hq' : q = 1073741824 := UInt64.toNat_inj.mp (hval.trans (by decide))
  refine ⟨hq' ▸ hq, ?_⟩
  exact division64_exact.2 (-7) 2 (by constructor <;> decide) (by constructor <;> decide)
    (by decide) (by decide)

/-! ### Remainders -/

/-- A remainder is the distance to the last multiple. -/
theorem mod_le_sub {n d m : ℕ} (hdvd : d ∣ m) (hle : m ≤ n) : n % d ≤ n - m := by
  obtain ⟨k, rfl⟩ := hdvd
  rw [← Nat.sub_mul_mod hle]
  exact Nat.mod_le _ _

/-- A signed remainder has the sign of the dividend, and lies between it and any multiple of the
divisor that lies between zero and the dividend. -/
theorem tmod_between {m : ℤ} (hdvd : d ∣ m) (hm : 0 ≤ m ∧ m ≤ n ∨ n ≤ m ∧ m ≤ 0) :
    0 ≤ n.tmod d ∧ n.tmod d ≤ n - m ∨ n - m ≤ n.tmod d ∧ n.tmod d ≤ 0 := by
  have habs : (n.tmod d).natAbs = n.natAbs % d.natAbs := Int.natAbs_tmod n d
  have hle := mod_le_sub (Int.natAbs_dvd_natAbs.mpr hdvd) (show m.natAbs ≤ n.natAbs by omega)
  rw [← habs] at hle
  obtain ⟨hpos, hmn⟩ | ⟨hmn, hneg⟩ := hm
  · have := Int.tmod_nonneg d (hpos.trans hmn)
    omega
  · have := Int.tmod_nonneg d (show 0 ≤ -n by omega)
    rw [Int.neg_tmod] at this
    omega

/-- The remainder that is left by the quotient, in 64 bits. -/
theorem sub_mul_div_eq_mod (n d : UInt64) : n - d * (n / d) = n % d := by
  have hdm := Nat.div_add_mod n.toNat d.toNat
  have hprod : (d * (n / d)).toNat = d.toNat * (n.toNat / d.toNat) := by
    rw [UInt64.toNat_mul, UInt64.toNat_div]
    exact Nat.mod_eq_of_lt ((Nat.mul_div_le _ _).trans_lt n.toNat_lt)
  refine UInt64.toNat_inj.mp ?_
  rw [UInt64.toNat_sub_of_le _ _ (UInt64.le_iff_toNat_le.mpr (hprod ▸ Nat.mul_div_le _ _)), hprod,
    UInt64.toNat_mod]
  omega

/-- `__umoddi3` returns the low half of the remainder. -/
theorem umoddi3_eq (n : UInt64) {d : UInt64} (hd : d ≠ 0) :
    umoddi3 n d = some (n % d).toUInt32.toUInt64 := by
  unfold umoddi3 umod64
  rw [udiv64_eq n hd, Option.map_some, Option.map_some, sub_mul_div_eq_mod]

/-- `__moddi3` returns the low half of the remainder, with the sign of its first bit. -/
theorem moddi3_eq (hn : IsInt64 n) (hd : IsInt64 d) (h0 : d ≠ 0) (hmin : ¬(n = -2 ^ 63 ∧ d = -1)) :
    moddi3 n d = some (toInt32 (n.tmod d)) := by
  have hdm := Int.mul_tdiv_add_tmod n d
  have hrem := tmod_between (n := n) (dvd_zero d) (by omega)
  obtain ⟨hlo, hhi⟩ := hn
  have hprod : toInt64 (d * n.tdiv d) = d * n.tdiv d := toInt64_of_fits (by omega) (by omega)
  unfold moddi3 smod64
  rw [sdiv64_eq ⟨hlo, hhi⟩ hd h0 hmin, Option.map_some, hprod,
    toInt64_of_fits (by omega) (by omega)]
  congr 2
  omega

/-- An `int32_t` holds a number if it is the number. -/
theorem toInt32_eq_self_iff (x : ℤ) : toInt32 x = x ↔ -2 ^ 31 ≤ x ∧ x < 2 ^ 31 := by
  refine ⟨fun h => ?_, fun h => toInt32_of_fits h.1 h.2⟩
  rw [← h]
  exact toInt32_bounds x

/-- **Remainders of 64-bit integers** are right where they fit into 32 bits: where the dividend is at
a distance of less than 2 to the 32 (31) from a multiple of the divisor. -/
theorem remainder64_exact (n d : UInt64) (x y : ℤ) (hd : d ≠ 0) (hx : IsInt64 x) (hy : IsInt64 y)
    (hy0 : y ≠ 0) (hmin : ¬(x = -2 ^ 63 ∧ y = -1)) :
    (umoddi3 n d = (udivdi3 n d).map (fun q => n - d * q) ∧ umoddi3 n d = some (n % d) ↔
        ∃ m, d.toNat ∣ m ∧ m ≤ n.toNat ∧ n.toNat - m < 2 ^ 32) ∧
      (moddi3 x y = (divdi3 x y).map (fun q => x - y * q) ∧ moddi3 x y = some (x.tmod y) ↔
        ∃ m, y ∣ m ∧ (0 ≤ m ∧ m ≤ x ∨ x ≤ m ∧ m ≤ 0) ∧ -2 ^ 31 ≤ x - m ∧ x - m < 2 ^ 31) := by
  constructor
  · have hquot : (udivdi3 n d).map (fun q => n - d * q) = some (n % d) := by
      rw [udivdi3, udiv64_eq n hd, Option.map_some, sub_mul_div_eq_mod]
    have hfits : (n % d).toUInt32.toUInt64 = n % d ↔ n.toNat % d.toNat < 2 ^ 32 := by
      rw [← UInt64.toNat_inj, UInt32.toNat_toUInt64, UInt64.toNat_toUInt32, UInt64.toNat_mod]
      omega
    rw [hquot, and_self, umoddi3_eq n hd, Option.some_inj, hfits]
    constructor
    · intro hlt
      refine ⟨d.toNat * (n.toNat / d.toNat), Dvd.intro _ rfl, Nat.mul_div_le _ _, ?_⟩
      have := Nat.div_add_mod n.toNat d.toNat
      omega
    · rintro ⟨m, hdvd, hle, hlt⟩
      exact (mod_le_sub hdvd hle).trans_lt hlt
  · have hdm := Int.mul_tdiv_add_tmod x y
    have hquot : (divdi3 x y).map (fun q => x - y * q) = some (x.tmod y) := by
      rw [divdi3, sdiv64_eq hx hy hy0 hmin, Option.map_some]
      congr 1
      omega
    rw [hquot, and_self, moddi3_eq hx hy hy0 hmin, Option.some_inj, toInt32_eq_self_iff]
    constructor
    · intro hlt
      have hrem := tmod_between (n := x) (dvd_zero y) (by omega)
      exact ⟨y * x.tdiv y, Dvd.intro _ rfl, by omega, by omega, by omega⟩
    · rintro ⟨m, hdvd, hbetween, hlo, hhi⟩
      have := tmod_between hdvd hbetween
      omega

theorem remainder64_exact_small :
    umoddi3 1099511627781 549755813888 = some 5 ∧ moddi3 (-7) 2 = some (-1) := by
  have hexact := remainder64_exact 1099511627781 549755813888 (-7) 2 (by decide)
    (by constructor <;> decide) (by constructor <;> decide) (by decide) (by decide)
  exact ⟨(hexact.1.mpr ⟨2 ^ 40, by decide, by decide, by decide⟩).2,
    (hexact.2.mpr ⟨0, dvd_zero _, .inr (by decide), by decide, by decide⟩).2⟩

/-- A remainder that needs the 33rd bit loses it. -/
theorem remainder64_truncated :
    umoddi3 4294967296 8589934592 = some 0 ∧ moddi3 (2 ^ 31) (2 ^ 32) = some (-2 ^ 31) := by
  decide

end Signed

end Pintos
