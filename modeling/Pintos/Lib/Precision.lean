import Pintos.Lib.Integers

/-!
# Precision

How many digits `format_integer` writes. The loop that appends zeros goes on until the buffer is as long
as the precision, and the commas are in the buffer too; it also stops at the end of the buffer.

* `commas`, `length_digitLoop_eq_iff` — a number has a comma if it has more digits than a group;
* `digitCount_eq` — the digits of the output: those of the value, and the zeros that are appended;
* `precision_digits_iff` — when that are as many as the precision asks for.
-/

namespace Pintos

open List

/-- **The digits that `format_integer` writes**: those of its output that are not there for the width.
The flag '0' pads with zeros, which follow the sign and "0x". -/
def digitCount (value : ℕ) (isSigned negative : Bool) (b : IntegerBase) (c : Conversion) : ℕ :=
  (integerBody b (formatInteger value isSigned negative b c)).countP (b.digits.contains ·) -
    if c.flags.zero then padCount value isSigned negative b c else 0

section Commas

variable {b : IntegerBase} {fuel v : ℕ}

theorem length_numeral_succ (hb : b.Proper) (hv : v ≠ 0) :
    (numeral b v).length = (numeral b (v / b.base)).length + 1 := by
  have hbase := hb.base_ge
  unfold numeral
  rw [Nat.digits_def' (by omega) (Nat.pos_of_ne_zero hv), length_map, length_map,
    length_cons]

theorem length_numeral_zero : (numeral b 0).length = 0 := by
  unfold numeral
  rw [Nat.digits_zero]
  rfl

/-- The commas are what the loop writes beside the digits. -/
theorem length_digitLoop (hb : b.Proper) (group : Bool) (cnt : ℕ) (hv : v < 2 ^ fuel) :
    (digitLoop b group fuel v cnt).length = (numeral b v).length +
      (digitLoop b group fuel v cnt).countP (· = ','.toUInt8) := by
  rw [← filter_digitLoop hb cnt hv, ← countP_eq_length_filter, Nat.add_comm]
  simpa [decide_not] using
    length_eq_countP_add_countP (· = ','.toUInt8) (l := digitLoop b group fuel v cnt)

/-- No comma is written before a group is full. -/
theorem length_digitLoop_short (hb : b.Proper) (cnt : ℕ) (hv : v < 2 ^ fuel)
    (hshort : cnt + (numeral b v).length ≤ b.group) :
    (digitLoop b true fuel v cnt).length = (numeral b v).length := by
  induction fuel generalizing v cnt with
  | zero =>
    obtain rfl : v = 0 := Nat.lt_one_iff.mp hv
    rw [length_numeral_zero]
    rfl
  | succ fuel ih =>
    by_cases h0 : v = 0
    · rw [h0, digitLoop_zero, length_numeral_zero]
      rfl
    · rw [length_numeral_succ hb h0] at hshort
      -- a multiple of the group's size below it is zero
      have hcomma : (true && decide (0 < cnt) && decide (cnt % b.group = 0)) = false := by
        rw [Nat.mod_eq_of_lt (show cnt < b.group by omega)]
        cases cnt <;> simp
      rw [digitLoop_succ fuel cnt h0, hcomma, length_numeral_succ hb h0,
        ← ih (cnt + 1) (div_base_lt hb hv) (by omega)]
      rfl

/-- When a group is full and a digit follows, there is a comma. -/
theorem lt_length_digitLoop (hb : b.Proper) {cnt : ℕ} (hv : v < 2 ^ fuel) (hcnt : cnt ≤ b.group)
    (hlong : b.group < cnt + (numeral b v).length) :
    (numeral b v).length < (digitLoop b true fuel v cnt).length := by
  induction fuel generalizing v cnt with
  | zero =>
    obtain rfl : v = 0 := Nat.lt_one_iff.mp hv
    rw [length_numeral_zero] at hlong
    omega
  | succ fuel ih =>
    have h0 : v ≠ 0 := by
      rintro rfl
      rw [length_numeral_zero] at hlong
      omega
    have hdiv := div_base_lt hb hv
    rw [length_numeral_succ hb h0] at hlong ⊢
    rw [digitLoop_succ fuel cnt h0, length_append, length_cons]
    by_cases hfull : cnt = b.group
    · have hle := length_digitLoop hb true (cnt + 1) hdiv
      have hpos := hb.group_pos
      rw [hfull, if_pos (by simpa using hpos), ← hfull, length_singleton]
      omega
    · have hlt := ih hdiv (show cnt + 1 ≤ b.group by omega) (by omega)
      omega

/-- **Commas.** The loop writes more than the digits iff there are to be groups and the digits do not
fit into one. -/
theorem length_digitLoop_eq_iff (hb : b.Proper) (group : Bool) (hv : v < 2 ^ fuel) :
    (digitLoop b group fuel v 0).length = (numeral b v).length ↔
      ¬(group = true ∧ b.group < (numeral b v).length) := by
  cases group with
  | false => exact iff_of_true (congrArg _ (digitLoop_plain hb 0 hv)) fun h => Bool.noConfusion h.1
  | true =>
    by_cases hlong : b.group < (numeral b v).length
    · have hlt := lt_length_digitLoop hb hv (Nat.zero_le b.group) (by omega)
      exact iff_of_false (by omega) fun h => h ⟨rfl, hlong⟩
    · exact iff_of_true (length_digitLoop_short hb 0 hv (by omega)) fun h => hlong h.2

end Commas

section Digits

variable {value : ℕ} {b : IntegerBase} {c : Conversion}

/-- **The digits of the output.** -/
theorem digitCount_eq (hb : b.Proper) (hv : value < 2 ^ 64) (isSigned negative : Bool)
    (hw : 0 ≤ c.width ∧ c.width < 2 ^ 31) :
    digitCount value isSigned negative b c =
      (numeral b value).length + precisionZeros value b c + octalZero value b c := by
  have hdigit : ∀ n, (List.replicate n '0'.toUInt8).countP (b.digits.contains ·) = n := by
    intro n
    rw [countP_replicate, if_pos (contains_iff_mem.mpr hb.zero_mem)]
  -- among digits and commas, the digits are what is not a comma
  have hloop : (digitLoop b c.flags.group 64 value 0).countP (b.digits.contains ·) =
      (numeral b value).length := by
    rw [← filter_digitLoop hb 0 hv, ← countP_eq_length_filter]
    refine countP_congr fun ch hch => ?_
    rcases mem_cons.mp (mem_digitLoop hb hch) with rfl | hmem
    · have hcomma : ','.toUInt8 ∉ b.digits := fun h => hb.ne_comma h rfl
      simpa using hcomma
    · simpa [hmem] using hb.ne_comma hmem
  unfold digitCount
  rw [integerBody_formatInteger hb hv hw, countP_append, hdigit, countP_reverse,
    integerBuf_eq, countP_append, hdigit, hloop]
  omega

/-- The zero of '#' is written when no zero is there yet. -/
theorem octalZero_eq (hb : b.Proper) (hv : value < 2 ^ 64) (h0 : value ≠ 0)
    (hz : precisionZeros value b c = 0) :
    octalZero value b c = if c.flags.pound && b.base = 8 then 1 else 0 := by
  obtain ⟨d, hd0, hd, hlast⟩ := @getLast_digitLoop b hb c.flags.group 64 value 0 hv h0
  have hdigit := hb.getD_ne_zero hd hd0
  generalize b.digits.getD d 0 = top at hlast hdigit
  unfold octalZero
  rw [hz, replicate_zero, append_nil, hlast]
  simp [hdigit]

/-- After zeros that the precision asked for there is no other one. -/
theorem octalZero_eq_zero (hz : 0 < precisionZeros value b c) : octalZero value b c = 0 := by
  obtain ⟨n, hn⟩ := Nat.exists_eq_succ_of_ne_zero hz.ne'
  unfold octalZero
  rw [hn, replicate_succ', ← append_assoc, List.getLast?_concat]
  exact if_neg (by simp)

/-- A value of 64 bits has at most 22 digits. -/
theorem length_numeral_le (hb : b.Proper) (hv : value < 2 ^ 64) : (numeral b value).length ≤ 22 := by
  have hbase := hb.base_ge
  unfold numeral
  rw [length_map, Nat.digits_length_le_iff (by omega)]
  calc value < 2 ^ 64 := hv
    _ ≤ 8 ^ 22 := by decide
    _ ≤ b.base ^ 22 := Nat.pow_le_pow_left hbase 22

end Digits

/-- **The precision is the least number of digits** iff the value has as many, or the precision fits into
the buffer and there is no comma, or '#' adds the one digit that an octal number lacks. A comma takes the
place of a zero in the buffer. -/
theorem precision_digits_iff {b : IntegerBase} (hb : b ∈ integerBases) {value : ℕ}
    (hv : value < 2 ^ 64) (isSigned negative : Bool) {c : Conversion}
    (hw : 0 ≤ c.width ∧ c.width < 2 ^ 31) {p : ℕ} (hp : c.precision = p) :
    p ≤ digitCount value isSigned negative b c ↔
      p ≤ (Nat.digits b.base value).length ∨
      p ≤ 63 ∧ ¬(c.flags.group = true ∧ b.group < (Nat.digits b.base value).length) ∨
      c.flags.pound = true ∧ b.base = 8 ∧ p = (Nat.digits b.base value).length + 1 := by
  have hproper := proper_of_mem hb
  have hlength : (numeral b value).length = (Nat.digits b.base value).length := length_map _
  have hle := length_numeral_le hproper hv
  have hloop := length_digitLoop hproper c.flags.group 0 hv
  have hcommas := length_digitLoop_eq_iff hproper c.flags.group hv
  have hbuf : (digitLoop b c.flags.group 64 value 0).length ≤ 2 * 22 :=
    length_digitLoop_le hproper 0 (hv.trans (by decide))
  have hzeros : precisionZeros value b c =
      min p 63 - (digitLoop b c.flags.group 64 value 0).length := by
    unfold precisionZeros
    rw [hp, if_neg (by omega), Int.toNat_natCast]
  have hlate : 0 < precisionZeros value b c → octalZero value b c = 0 := octalZero_eq_zero
  have hocta := octalZero_le value b c
  rw [digitCount_eq hproper hv isSigned negative hw, ← hlength, ← hcommas]
  by_cases h0 : value = 0
  · -- nothing is in the buffer: the zeros are the digits
    subst h0
    rw [digitLoop_zero, length_nil] at hzeros ⊢
    rw [length_numeral_zero]
    omega
  · have hearly := octalZero_eq (c := c) hproper hv h0
    by_cases hpound : c.flags.pound = true ∧ b.base = 8
    · rw [if_pos (by simpa using hpound)] at hearly
      simp only [hpound.1, hpound.2, true_and]
      omega
    · rw [if_neg (by simpa using hpound)] at hearly
      rw [← and_assoc]
      simp only [hpound, false_and, or_false]
      omega

/-- A conversion in groups, with a precision. -/
def groupPrecision (p : ℤ) : Conversion := ⟨{ Flags.clear with group := true }, 0, p, .int⟩

/-- **Seven digits for a precision of eight**: "%'.8d" prints 1234567 as "1,234,567". -/
theorem precision_digits_comma :
    formatInteger 1234567 true false baseD (groupPrecision 8) =
        ascii ['1', ',', '2', '3', '4', ',', '5', '6', '7'] ∧
      digitCount 1234567 true false baseD (groupPrecision 8) = 7 := by
  exact ⟨by decide +kernel, by decide +kernel⟩

/-- "%'.3d" prints 7 as "007". -/
theorem precision_digits_iff_short : 3 ≤ digitCount 7 true false baseD (groupPrecision 3) :=
  (precision_digits_iff (b := baseD) mem_cons_self (by decide) true false (by decide) rfl).mpr
    (.inr (.inl ⟨by decide, by decide⟩))

end Pintos
