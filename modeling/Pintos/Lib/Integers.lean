import Pintos.Lib.Stdio
import Mathlib.Data.List.GetD
import Mathlib.Data.Nat.Digits.Lemmas

/-!
# Integer conversions

What `format_integer` prints, read again. A reader undoes the layout step by step: blanks around the
number, the sign, "0x", commas, leading zeros; what is left is a numeral (`readInteger`).

* `IntegerBase.Proper` — what the proofs use of the four bases;
* `filter_digitLoop` — without its commas, the loop over the digits writes the numeral;
* `Grouped`, `digitLoop_grouped` — where the commas are;
* `formatInteger_eq` — the layout of the output, and from it its length and what is read from it.
-/

namespace Pintos

open List

/-! ### Reading a number -/

/-- The output without the blanks around it. -/
def trimBlanks (out : List UInt8) : List UInt8 :=
  ((out.dropWhile (· = ' '.toUInt8)).reverse.dropWhile (· = ' '.toUInt8)).reverse

/-- The sign, and what follows it: whether the number is negative. -/
def takeSign : List UInt8 → Bool × List UInt8
  | [] => (false, [])
  | c :: cs =>
    if c = '-'.toUInt8 then (true, cs)
    else if c = '+'.toUInt8 then (false, cs)
    else (false, c :: cs)

/-- What follows "0x", if the base has one. -/
def skipX (b : IntegerBase) : List UInt8 → List UInt8
  | c :: d :: cs => if b.x ≠ 0 ∧ c = '0'.toUInt8 ∧ d = b.x then cs else c :: d :: cs
  | cs => cs

/-- The digits and commas of the output. -/
def integerBody (b : IntegerBase) (out : List UInt8) : List UInt8 :=
  skipX b (takeSign (trimBlanks out)).2

/-- The number that a list of digits stands for. -/
def readDigits (b : IntegerBase) (cs : List UInt8) : Option ℕ :=
  if cs.all (b.digits.contains ·) then some (Nat.ofDigits b.base (cs.reverse.map b.digits.idxOf))
  else none

/-- The number that the output stands for. -/
def readInteger (b : IntegerBase) (out : List UInt8) : Option ℤ :=
  let digits := ((integerBody b out).filter (· ≠ ','.toUInt8)).dropWhile (· = '0'.toUInt8)
  (readDigits b digits).map fun n => if (takeSign (trimBlanks out)).1 then -n else n

/-- The commas separate groups of digits, which are full except for the first. -/
def Grouped (b : IntegerBase) (body : List UInt8) : Prop :=
  ∃ first rest, body.splitOn ','.toUInt8 = first :: rest ∧
    (0 < first.length ∧ first.length ≤ b.group) ∧ ∀ g ∈ rest, g.length = b.group

/-! ### Bases -/

/-- What the digits of a base are to be. -/
structure IntegerBase.Proper (b : IntegerBase) : Prop where
  base_ge : 8 ≤ b.base
  group_pos : 0 < b.group
  length : b.digits.length = b.base
  nodup : b.digits.Nodup
  zero : b.digits.getD 0 0 = '0'.toUInt8
  plain : ∀ c ∈ b.x :: b.digits, c ∉ ascii [' ', ',', '-', '+']
  x_notMem : b.x ∉ b.digits

/-- The four bases of `__vprintf`. -/
def integerBases : List IntegerBase := [baseD, baseO, baseLowerX, baseUpperX]

theorem proper_of_mem {b : IntegerBase} (hb : b ∈ integerBases) : b.Proper := by
  unfold integerBases at hb
  simp only [mem_cons, not_mem_nil, or_false] at hb
  rcases hb with rfl | rfl | rfl | rfl <;>
    exact ⟨by decide, by decide, rfl, by decide, rfl, by decide +kernel, by decide⟩

section Digits

variable {b : IntegerBase} {v : ℕ}

/-- The digits of a number, the last one first. -/
def numeral (b : IntegerBase) (v : ℕ) : List UInt8 :=
  (Nat.digits b.base v).map fun d => b.digits.getD d 0

namespace IntegerBase.Proper

theorem getD_mem (hb : b.Proper) {d : ℕ} (hd : d < b.base) : b.digits.getD d 0 ∈ b.digits := by
  rw [getD_eq_getElem _ _ (hb.length ▸ hd)]
  exact getElem_mem _

theorem idxOf_getD (hb : b.Proper) {d : ℕ} (hd : d < b.base) :
    b.digits.idxOf (b.digits.getD d 0) = d := by
  rw [getD_eq_getElem _ _ (hb.length ▸ hd)]
  exact hb.nodup.idxOf_getElem d _

/-- Only the digit zero is a '0'. -/
theorem getD_ne_zero (hb : b.Proper) {d : ℕ} (hd : d < b.base) (h0 : d ≠ 0) :
    b.digits.getD d 0 ≠ '0'.toUInt8 := by
  intro heq
  have hidx := hb.idxOf_getD hd
  rw [heq, ← hb.zero, hb.idxOf_getD (by have := hb.base_ge; omega)] at hidx
  exact h0 hidx.symm

theorem zero_mem (hb : b.Proper) : '0'.toUInt8 ∈ b.digits := by
  rw [← hb.zero]
  exact hb.getD_mem (by have := hb.base_ge; omega)

theorem ne_comma (hb : b.Proper) {c : UInt8} (hc : c ∈ b.digits) : c ≠ ','.toUInt8 := by
  rintro rfl
  exact hb.plain _ (mem_cons_of_mem _ hc) (by decide)

end IntegerBase.Proper

theorem mem_numeral (hb : b.Proper) {c : UInt8} (hc : c ∈ numeral b v) : c ∈ b.digits := by
  obtain ⟨d, hd, rfl⟩ := mem_map.mp hc
  exact hb.getD_mem (Nat.digits_lt_base (by have := hb.base_ge; omega) hd)

/-- The number of a numeral. -/
theorem readDigits_numeral (hb : b.Proper) : readDigits b (numeral b v).reverse = some v := by
  have hbase : 1 < b.base := by have := hb.base_ge; omega
  have hmap : (numeral b v).map b.digits.idxOf = Nat.digits b.base v := by
    unfold numeral
    rw [map_map]
    refine (map_congr_left fun d hd => ?_).trans (map_id _)
    exact hb.idxOf_getD (Nat.digits_lt_base hbase hd)
  have hall : (numeral b v).reverse.all (b.digits.contains ·) := by
    rw [all_eq_true]
    exact fun c hc => contains_iff_mem.mpr (mem_numeral hb (mem_reverse.mp hc))
  rw [readDigits, if_pos hall, reverse_reverse, hmap, Nat.ofDigits_digits]

/-- A numeral does not begin with a zero. -/
theorem dropWhile_numeral (hb : b.Proper) :
    (numeral b v).reverse.dropWhile (· = '0'.toUInt8) = (numeral b v).reverse := by
  by_cases hv : v = 0
  · subst hv
    simp [numeral]
  · have hne : Nat.digits b.base v ≠ [] := Nat.digits_ne_nil_iff_ne_zero.mpr hv
    have hlast : (numeral b v).getLast? =
        some (b.digits.getD ((Nat.digits b.base v).getLast hne) 0) := by
      unfold numeral
      rw [List.getLast?_map, List.getLast?_eq_some_getLast hne]
      rfl
    have hdigit := hb.getD_ne_zero (Nat.digits_lt_base (by have := hb.base_ge; omega)
      (getLast_mem hne)) (Nat.getLast_digit_ne_zero b.base hv)
    cases hrev : (numeral b v).reverse with
    | nil => rfl
    | cons c cs =>
      rw [List.getLast?_eq_head?_reverse, hrev] at hlast
      rw [dropWhile_cons_of_neg]
      rw [Option.some.inj hlast]
      simpa using hdigit

end Digits

/-! ### The loop over the digits -/

section Loop

variable {b : IntegerBase} {group : Bool}

/-- What one round writes. -/
theorem digitLoop_succ (fuel cnt : ℕ) {v : ℕ} (hv : v ≠ 0) :
    digitLoop b group (fuel + 1) v cnt =
      (if group && 0 < cnt && cnt % b.group = 0 then [','.toUInt8] else []) ++
        b.digits.getD (v % b.base) 0 :: digitLoop b group fuel (v / b.base) (cnt + 1) := by
  rw [digitLoop, if_neg hv]

theorem digitLoop_zero (fuel cnt : ℕ) : digitLoop b group fuel 0 cnt = [] := by
  cases fuel with
  | zero => rfl
  | succ fuel => exact if_pos rfl

/-- Enough fuel for a number is enough for what is left of it. -/
theorem div_base_lt {fuel v : ℕ} (hb : b.Proper) (hv : v < 2 ^ (fuel + 1)) :
    v / b.base < 2 ^ fuel := by
  have hbase := hb.base_ge
  rw [Nat.div_lt_iff_lt_mul (by omega)]
  calc v < 2 ^ fuel * 2 := by rwa [← Nat.pow_succ]
    _ ≤ 2 ^ fuel * b.base := Nat.mul_le_mul_left _ (by omega)

/-- **Without its commas, the loop writes the numeral.** -/
theorem filter_digitLoop (hb : b.Proper) {fuel v : ℕ} (cnt : ℕ) (hv : v < 2 ^ fuel) :
    (digitLoop b group fuel v cnt).filter (· ≠ ','.toUInt8) = numeral b v := by
  have hbase := hb.base_ge
  induction fuel generalizing v cnt with
  | zero =>
    obtain rfl : v = 0 := Nat.lt_one_iff.mp hv
    simp [digitLoop, numeral]
  | succ fuel ih =>
    by_cases h0 : v = 0
    · subst h0
      simp [digitLoop_zero, numeral]
    · have hcomma : (if group && 0 < cnt && cnt % b.group = 0 then [','.toUInt8] else []).filter
          (· ≠ ','.toUInt8) = [] := by
        split <;> rfl
      have hdigit := hb.ne_comma (hb.getD_mem (Nat.mod_lt v (show 0 < b.base by omega)))
      rw [digitLoop_succ fuel cnt h0, filter_append, hcomma, nil_append,
        filter_cons_of_pos (by simpa using hdigit), ih (cnt + 1) (div_base_lt hb hv)]
      unfold numeral
      rw [Nat.digits_def' (by omega) (Nat.pos_of_ne_zero h0), map_cons]

/-- Without groups, the loop writes the numeral. -/
theorem digitLoop_plain (hb : b.Proper) {fuel v : ℕ} (cnt : ℕ) (hv : v < 2 ^ fuel) :
    digitLoop b false fuel v cnt = numeral b v := by
  have hbase := hb.base_ge
  induction fuel generalizing v cnt with
  | zero =>
    obtain rfl : v = 0 := Nat.lt_one_iff.mp hv
    simp [digitLoop, numeral]
  | succ fuel ih =>
    by_cases h0 : v = 0
    · rw [h0, digitLoop_zero]
      simp [numeral]
    · rw [digitLoop_succ fuel cnt h0, ih (cnt + 1) (div_base_lt hb hv)]
      unfold numeral
      rw [Nat.digits_def' (by omega) (Nat.pos_of_ne_zero h0), map_cons]
      rfl

/-- The loop writes digits and commas. -/
theorem mem_digitLoop (hb : b.Proper) {fuel v cnt : ℕ} {c : UInt8}
    (hc : c ∈ digitLoop b group fuel v cnt) : c ∈ ','.toUInt8 :: b.digits := by
  have hbase := hb.base_ge
  induction fuel generalizing v cnt with
  | zero => exact absurd hc not_mem_nil
  | succ fuel ih =>
    by_cases h0 : v = 0
    · rw [h0, digitLoop_zero] at hc
      exact absurd hc not_mem_nil
    · rw [digitLoop_succ fuel cnt h0, mem_append, mem_cons] at hc
      rcases hc with hc | rfl | hc
      · split at hc
        · exact mem_cons.mpr (.inl (mem_singleton.mp hc))
        · exact absurd hc not_mem_nil
      · exact mem_cons_of_mem _ (hb.getD_mem (Nat.mod_lt v (by omega)))
      · exact ih hc

/-- A round writes two characters at most. -/
theorem length_digitLoop_le (hb : b.Proper) {fuel v n : ℕ} (cnt : ℕ) (hv : v < 8 ^ n) :
    (digitLoop b group fuel v cnt).length ≤ 2 * n := by
  have hbase := hb.base_ge
  induction fuel generalizing v cnt n with
  | zero => exact Nat.zero_le _
  | succ fuel ih =>
    by_cases h0 : v = 0
    · rw [h0, digitLoop_zero]
      exact Nat.zero_le _
    · cases n with
      | zero => exact absurd (Nat.lt_one_iff.mp hv) h0
      | succ n =>
        have hdiv : v / b.base < 8 ^ n := by
          rw [Nat.div_lt_iff_lt_mul (by omega)]
          calc v < 8 ^ n * 8 := by rwa [← Nat.pow_succ]
            _ ≤ 8 ^ n * b.base := Nat.mul_le_mul_left _ hbase
        have hrest := ih (cnt + 1) hdiv
        have hcomma : (if group && 0 < cnt && cnt % b.group = 0 then [','.toUInt8] else []).length
            ≤ 1 := by
          split <;> decide
        rw [digitLoop_succ fuel cnt h0, length_append, length_cons]
        omega

/-! ### Commas -/

theorem splitOn_comma (cs : List UInt8) :
    (','.toUInt8 :: cs).splitOn ','.toUInt8 = [] :: cs.splitOn ','.toUInt8 := by
  unfold List.splitOn
  rw [splitOnP_cons_eq_if_modifyHead, if_pos (by decide)]

theorem splitOn_digit {d : UInt8} (hd : d ≠ ','.toUInt8) (cs : List UInt8) :
    (d :: cs).splitOn ','.toUInt8 = (cs.splitOn ','.toUInt8).modifyHead (d :: ·) := by
  unfold List.splitOn
  rw [splitOnP_cons_eq_if_modifyHead, if_neg (by simpa using hd)]

/-- What the loop has written after `cnt` digits, the last digit last: how far the first group is. -/
def GroupedTo (b : IntegerBase) (cnt : ℕ) (acc : List UInt8) : Prop :=
  ∃ first rest, acc.splitOn ','.toUInt8 = first :: rest ∧
    first.length = (cnt - 1) % b.group + 1 ∧ ∀ g ∈ rest, g.length = b.group

theorem GroupedTo.grouped (hb : b.Proper) {cnt : ℕ} {acc : List UInt8} (h : GroupedTo b cnt acc) :
    Grouped b acc := by
  obtain ⟨first, rest, hsplit, hfirst, hrest⟩ := h
  have := Nat.mod_lt (cnt - 1) hb.group_pos
  exact ⟨first, rest, hsplit, by omega, hrest⟩

/-- One round: a digit is put before a group that is not full, and before a comma if it is. -/
theorem GroupedTo.round {cnt : ℕ} {acc : List UInt8} {d : UInt8} (h : GroupedTo b cnt acc)
    (hg : 0 < b.group) (hcnt : 0 < cnt) (hd : d ≠ ','.toUInt8) :
    GroupedTo b (cnt + 1) (d :: ((if cnt % b.group = 0 then [','.toUInt8] else []) ++ acc)) := by
  obtain ⟨first, rest, hsplit, hfirst, hrest⟩ := h
  unfold GroupedTo
  rw [splitOn_digit hd, Nat.add_sub_cancel]
  by_cases hfull : cnt % b.group = 0
  · rw [if_pos hfull, hfull, singleton_append, splitOn_comma, hsplit]
    refine ⟨[d], first :: rest, rfl, rfl, forall_mem_cons.mpr ⟨?_, hrest⟩⟩
    -- the group before the comma is full: the count before it was the last of a group
    obtain ⟨k, hk⟩ := Nat.dvd_of_mod_eq_zero hfull
    obtain ⟨k, rfl⟩ := Nat.exists_eq_succ_of_ne_zero (show k ≠ 0 by rintro rfl; omega)
    have hpred : cnt - 1 = b.group - 1 + b.group * k := by
      rw [hk, Nat.mul_succ]
      omega
    rw [hfirst, hpred, Nat.add_mul_mod_self_left, Nat.mod_eq_of_lt (by omega)]
    omega
  · rw [if_neg hfull, nil_append, hsplit]
    refine ⟨d :: first, rest, rfl, ?_, hrest⟩
    have hmod := Nat.mod_lt cnt hg
    have hpred : cnt - 1 = cnt % b.group - 1 + b.group * (cnt / b.group) := by
      have := Nat.mod_add_div cnt b.group
      omega
    rw [length_cons, hfirst, hpred, Nat.add_mul_mod_self_left, Nat.mod_eq_of_lt (by omega)]
    omega

/-- **The commas of the loop.** -/
theorem digitLoop_groupedTo (hb : b.Proper) {fuel v cnt : ℕ} {acc : List UInt8} (hcnt : 0 < cnt)
    (h : GroupedTo b cnt acc) : Grouped b ((digitLoop b true fuel v cnt).reverse ++ acc) := by
  have hbase := hb.base_ge
  induction fuel generalizing v cnt acc with
  | zero => exact h.grouped hb
  | succ fuel ih =>
    by_cases h0 : v = 0
    · rw [h0, digitLoop_zero]
      exact h.grouped hb
    · have hd := hb.ne_comma (hb.getD_mem (Nat.mod_lt v (show 0 < b.base by omega)))
      have hcomma : (true && decide (0 < cnt) && decide (cnt % b.group = 0)) =
          decide (cnt % b.group = 0) := by simp [hcnt]
      rw [digitLoop_succ fuel cnt h0, reverse_append, reverse_cons, append_assoc,
        append_assoc]
      have hround := ih (v := v / b.base) (Nat.succ_pos cnt) (h.round hb.group_pos hcnt hd)
      rw [hcomma]
      simpa [apply_ite List.reverse] using hround

theorem digitLoop_grouped (hb : b.Proper) {fuel v : ℕ} (hv : v ≠ 0) :
    Grouped b (digitLoop b true (fuel + 1) v 0).reverse := by
  have hbase := hb.base_ge
  have hd := hb.ne_comma (hb.getD_mem (Nat.mod_lt v (show 0 < b.base by omega)))
  rw [digitLoop_succ fuel 0 hv]
  have hone : GroupedTo b 1 [b.digits.getD (v % b.base) 0] := by
    refine ⟨[_], [], splitOn_digit hd [], ?_, fun g hg => absurd hg not_mem_nil⟩
    rw [Nat.sub_self, Nat.zero_mod]
    rfl
  have hrest : Grouped b ((digitLoop b true fuel (v / b.base) 1).reverse ++ [_]) :=
    digitLoop_groupedTo hb Nat.one_pos hone
  simpa using hrest

end Loop

/-! ### The layout -/

/-- "0x", or nothing. -/
def integerX (value : ℕ) (b : IntegerBase) (c : Conversion) : List UInt8 :=
  if c.flags.pound && 0 < value && b.x ≠ 0 then ['0'.toUInt8, b.x] else []

/-- The length of the output without padding. -/
def naturalLength (value : ℕ) (isSigned negative : Bool) (b : IntegerBase) (c : Conversion) : ℕ :=
  (signOf isSigned negative c.flags).length + (integerX value b c).length +
    (integerBuf value b c).length

/-- How often a pad character is written. -/
def padCount (value : ℕ) (isSigned negative : Bool) (b : IntegerBase) (c : Conversion) : ℕ :=
  c.width.toNat - naturalLength value isSigned negative b c

section Layout

variable {value : ℕ} {isSigned negative : Bool} {b : IntegerBase} {c : Conversion}

/-- The zeros that the precision adds. -/
def precisionZeros (value : ℕ) (b : IntegerBase) (c : Conversion) : ℕ :=
  min (if c.precision < 0 then 1 else c.precision.toNat) 63
    - (digitLoop b c.flags.group 64 value 0).length

/-- The zero that the flag '#' puts before an octal number that has none. -/
def octalZero (value : ℕ) (b : IntegerBase) (c : Conversion) : ℕ :=
  if c.flags.pound && b.base = 8 && (digitLoop b c.flags.group 64 value 0 ++
    List.replicate (precisionZeros value b c) '0'.toUInt8).getLast? ≠ some '0'.toUInt8 then 1 else 0

theorem octalZero_le (value : ℕ) (b : IntegerBase) (c : Conversion) : octalZero value b c ≤ 1 := by
  unfold octalZero
  split <;> decide

/-- What is in `buf`: digits, and zeros. -/
theorem integerBuf_eq (value : ℕ) (b : IntegerBase) (c : Conversion) :
    integerBuf value b c = digitLoop b c.flags.group 64 value 0 ++
      List.replicate (precisionZeros value b c + octalZero value b c) '0'.toUInt8 := by
  unfold octalZero
  generalize hbuf : digitLoop b c.flags.group 64 value 0 ++
    List.replicate (precisionZeros value b c) '0'.toUInt8 = buf
  have hunfold : integerBuf value b c =
      if c.flags.pound && b.base = 8 && buf.getLast? ≠ some '0'.toUInt8 then buf ++ ['0'.toUInt8]
      else buf := by
    rw [← hbuf]
    rfl
  rw [hunfold]
  split
  · rw [← hbuf, append_assoc, replicate_succ']
  · exact hbuf.symm

/-- **The buffer is long enough.** -/
theorem length_integerBuf_le (hb : b.Proper) (hv : value < 2 ^ 64) :
    (integerBuf value b c).length ≤ 64 := by
  have hdigits : (digitLoop b c.flags.group 64 value 0).length ≤ 2 * 22 :=
    length_digitLoop_le hb 0 (hv.trans (by decide))
  have hzero := octalZero_le value b c
  rw [integerBuf_eq, length_append, length_replicate]
  unfold precisionZeros
  omega

theorem mem_integerBuf (hb : b.Proper) {ch : UInt8} (hch : ch ∈ integerBuf value b c) :
    ch ∈ ','.toUInt8 :: b.digits := by
  rw [integerBuf_eq, mem_append] at hch
  rcases hch with hch | hch
  · exact mem_digitLoop hb hch
  · rw [eq_of_mem_replicate hch]
    exact mem_cons_of_mem _ hb.zero_mem

theorem length_signOf_le (isSigned negative : Bool) (f : Flags) :
    (signOf isSigned negative f).length ≤ 1 := by
  unfold signOf
  split_ifs <;> decide

theorem length_integerX_le (value : ℕ) (b : IntegerBase) (c : Conversion) :
    (integerX value b c).length ≤ 2 := by
  unfold integerX
  split
  · exact le_rfl
  · exact Nat.zero_le 2

/-- **The layout**: blanks, the sign, "0x", zeros, the buffer, blanks. -/
theorem formatInteger_eq (hb : b.Proper) (hv : value < 2 ^ 64)
    (hw : 0 ≤ c.width ∧ c.width < 2 ^ 31) :
    formatInteger value isSigned negative b c =
      List.replicate (if c.flags.minus || c.flags.zero then 0
          else padCount value isSigned negative b c) ' '.toUInt8 ++
        signOf isSigned negative c.flags ++ integerX value b c ++
        List.replicate (if c.flags.zero then padCount value isSigned negative b c else 0)
          '0'.toUInt8 ++ (integerBuf value b c).reverse ++
        List.replicate (if c.flags.minus then padCount value isSigned negative b c else 0)
          ' '.toUInt8 := by
  have hpad : (toInt32 (c.width - (integerBuf value b c).length - (integerX value b c).length
      - (signOf isSigned negative c.flags).length)).toNat = padCount value isSigned negative b c := by
    have hbuf := length_integerBuf_le (c := c) hb hv
    have hsign := length_signOf_le isSigned negative c.flags
    have hx := length_integerX_le value b c
    obtain ⟨h0, h1⟩ := hw
    unfold padCount naturalLength
    rw [toInt32_of_fits (by omega) (by omega)]
    omega
  have hunfold : formatInteger value isSigned negative b c =
      (if c.flags.minus || c.flags.zero then [] else List.replicate (toInt32 (c.width
        - (integerBuf value b c).length - (integerX value b c).length
        - (signOf isSigned negative c.flags).length)).toNat ' '.toUInt8) ++
        signOf isSigned negative c.flags ++ integerX value b c ++
        (if c.flags.zero then List.replicate (toInt32 (c.width
          - (integerBuf value b c).length - (integerX value b c).length
          - (signOf isSigned negative c.flags).length)).toNat '0'.toUInt8 else []) ++
        (integerBuf value b c).reverse ++
        (if c.flags.minus then List.replicate (toInt32 (c.width
          - (integerBuf value b c).length - (integerX value b c).length
          - (signOf isSigned negative c.flags).length)).toNat ' '.toUInt8 else []) := rfl
  rw [hunfold, hpad]
  congr 1
  · congr 2
    · congr 3
      split <;> rfl
    · split <;> rfl
  · split <;> rfl

/-- **The length of the output**: with both '-' and '0' it is padded twice. -/
theorem length_formatInteger (hb : b.Proper) (hv : value < 2 ^ 64)
    (hw : 0 ≤ c.width ∧ c.width < 2 ^ 31) :
    (formatInteger value isSigned negative b c).length =
      naturalLength value isSigned negative b c +
        (if c.flags.minus && c.flags.zero then 2 else 1) * padCount value isSigned negative b c := by
  rw [formatInteger_eq hb hv hw]
  unfold naturalLength
  cases c.flags.minus <;> cases c.flags.zero <;> simp <;> omega

/-! ### What is read -/

/-- The characters between the sign and the blanks. -/
theorem mem_core (hb : b.Proper) {n : ℕ} {ch : UInt8}
    (hch : ch ∈ integerX value b c ++ List.replicate n '0'.toUInt8 ++
      (integerBuf value b c).reverse) : ch ∈ ','.toUInt8 :: b.x :: b.digits := by
  have hdigit : ∀ {d : UInt8}, d ∈ b.digits → d ∈ ','.toUInt8 :: b.x :: b.digits :=
    fun hd => mem_cons_of_mem _ (mem_cons_of_mem _ hd)
  rw [mem_append, mem_append, mem_reverse] at hch
  rcases hch with (hch | hch) | hch
  · unfold integerX at hch
    split at hch
    · rcases mem_pair.mp hch with rfl | rfl
      · exact hdigit hb.zero_mem
      · exact mem_cons_of_mem _ mem_cons_self
    · exact absurd hch not_mem_nil
  · rw [eq_of_mem_replicate hch]
    exact hdigit hb.zero_mem
  · rcases mem_cons.mp (mem_integerBuf hb hch) with rfl | hd
    · exact mem_cons_self
    · exact hdigit hd

/-- Blanks around a text that has none. -/
theorem trimBlanks_pad {cs : List UInt8} (hcs : ∀ ch ∈ cs, ch ≠ ' '.toUInt8) (l r : ℕ) :
    trimBlanks (List.replicate l ' '.toUInt8 ++ cs ++ List.replicate r ' '.toUInt8) = cs := by
  have hblank : ∀ (n : ℕ), ∀ ch ∈ List.replicate n ' '.toUInt8,
      decide (ch = ' '.toUInt8) = true := by
    intro n ch hch
    rw [eq_of_mem_replicate hch]
    rfl
  have hkeep : ∀ {xs ys : List UInt8}, (∀ ch ∈ xs, ch ≠ ' '.toUInt8) → xs ≠ [] →
      (xs ++ ys).dropWhile (· = ' '.toUInt8) = xs ++ ys := by
    intro xs ys hxs hne
    cases xs with
    | nil => exact absurd rfl hne
    | cons x xs =>
      rw [cons_append, dropWhile_cons_of_neg]
      simpa using hxs x mem_cons_self
  unfold trimBlanks
  rw [append_assoc, dropWhile_append_of_pos (hblank l)]
  by_cases hne : cs = []
  · subst hne
    rw [nil_append, dropWhile_replicate]
    rfl
  · rw [hkeep hcs hne, reverse_append, reverse_replicate,
      dropWhile_append_of_pos (hblank r), ← append_nil cs.reverse,
      hkeep (fun ch hch => hcs ch (mem_reverse.mp hch)) (by simpa using hne), append_nil,
      reverse_reverse]

theorem takeSign_of_plain {cs : List UInt8} (hcs : ∀ ch ∈ cs, ch ∉ ascii ['-', '+']) :
    takeSign cs = (false, cs) := by
  cases cs with
  | nil => rfl
  | cons ch cs =>
    have hch := hcs ch mem_cons_self
    have hminus : ch ≠ '-'.toUInt8 := by rintro rfl; exact hch (by decide)
    have hplus : ch ≠ '+'.toUInt8 := by rintro rfl; exact hch (by decide)
    rw [takeSign, if_neg hminus, if_neg hplus]

/-- The signs there are. -/
theorem signOf_cases (isSigned negative : Bool) (f : Flags) :
    ((isSigned && negative) = true ∧ signOf isSigned negative f = ['-'.toUInt8]) ∨
      (isSigned && negative) = false ∧ (signOf isSigned negative f = [] ∨
        signOf isSigned negative f = ['+'.toUInt8] ∨ signOf isSigned negative f = [' '.toUInt8]) := by
  unfold signOf
  cases isSigned <;> cases negative <;> cases f.plus <;> cases f.space <;> simp

/-- **The blanks and the sign are found again.** -/
theorem takeSign_trimBlanks {core : List UInt8} (hcore : ∀ ch ∈ core, ch ∉ ascii [' ', '-', '+'])
    (f : Flags) (l r : ℕ) :
    takeSign (trimBlanks (List.replicate l ' '.toUInt8 ++ signOf isSigned negative f ++ core ++
      List.replicate r ' '.toUInt8)) = ((isSigned && negative), core) := by
  have hblank : ∀ ch ∈ core, ch ≠ ' '.toUInt8 := by
    rintro ch hch rfl
    exact hcore _ hch (by decide)
  have hplain : takeSign core = (false, core) := by
    refine takeSign_of_plain fun ch hch hmem => hcore ch hch ?_
    exact mem_cons_of_mem _ hmem
  have hsigned : ∀ s : UInt8, s ≠ ' '.toUInt8 →
      trimBlanks (List.replicate l ' '.toUInt8 ++ [s] ++ core ++ List.replicate r ' '.toUInt8) =
        s :: core := by
    intro s hs
    rw [append_assoc _ [s]]
    exact trimBlanks_pad (forall_mem_cons.mpr ⟨hs, hblank⟩) l r
  rcases signOf_cases isSigned negative f with ⟨hneg, hsign⟩ | ⟨hneg, hsign | hsign | hsign⟩ <;>
    rw [hneg, hsign]
  · rw [hsigned _ (by decide)]
    rfl
  · rw [append_nil, trimBlanks_pad hblank, hplain]
  · rw [hsigned _ (by decide)]
    rfl
  · -- a blank for a sign is one more blank before the number
    rw [← replicate_succ', trimBlanks_pad hblank, hplain]

/-- A list of digits and commas has no "0x". -/
theorem skipX_of_digits (hb : b.Proper) {cs : List UInt8}
    (hcs : ∀ ch ∈ cs, ch ∈ ','.toUInt8 :: b.digits) : skipX b cs = cs := by
  match cs with
  | [] => rfl
  | [ch] => rfl
  | ch :: d :: cs =>
    have hd : d ≠ b.x := by
      rintro rfl
      rcases mem_cons.mp (hcs _ (mem_cons_of_mem _ mem_cons_self)) with heq | hmem
      · exact hb.plain _ mem_cons_self (by rw [heq]; decide)
      · exact hb.x_notMem hmem
    exact if_neg fun h => hd h.2.2

/-- **The digits and commas of the output.** -/
theorem takeSign_formatInteger (hb : b.Proper) (hv : value < 2 ^ 64)
    (hw : 0 ≤ c.width ∧ c.width < 2 ^ 31) :
    takeSign (trimBlanks (formatInteger value isSigned negative b c)) =
      ((isSigned && negative), integerX value b c ++
        List.replicate (if c.flags.zero then padCount value isSigned negative b c else 0) '0'.toUInt8 ++
        (integerBuf value b c).reverse) := by
  rw [formatInteger_eq hb hv hw, append_assoc _ (integerX value b c),
    append_assoc _ (integerX value b c ++ _)]
  refine takeSign_trimBlanks (fun ch hch => ?_) c.flags _ _
  rcases mem_cons.mp (mem_core hb hch) with rfl | hmem
  · decide
  · intro hbad
    refine hb.plain ch hmem ?_
    simp only [ascii, map_cons, map_nil, mem_cons, not_mem_nil,
      or_false] at hbad ⊢
    rcases hbad with rfl | rfl | rfl <;> decide

theorem integerBody_formatInteger (hb : b.Proper) (hv : value < 2 ^ 64)
    (hw : 0 ≤ c.width ∧ c.width < 2 ^ 31) :
    integerBody b (formatInteger value isSigned negative b c) =
      List.replicate (if c.flags.zero then padCount value isSigned negative b c else 0) '0'.toUInt8 ++
        (integerBuf value b c).reverse := by
  unfold integerBody
  rw [takeSign_formatInteger hb hv hw]
  generalize (if c.flags.zero then padCount value isSigned negative b c else 0) = n
  unfold integerX
  split
  next hx =>
    simp only [Bool.and_eq_true, decide_eq_true_eq] at hx
    exact if_pos ⟨hx.2, rfl, rfl⟩
  next =>
    refine skipX_of_digits hb fun ch hch => ?_
    rcases mem_append.mp hch with hch | hch
    · rw [nil_append] at hch
      rw [eq_of_mem_replicate hch]
      exact mem_cons_of_mem _ hb.zero_mem
    · exact mem_integerBuf hb (mem_reverse.mp hch)

/-- **The value is read again.** -/
theorem readInteger_formatInteger (hb : b.Proper) (hv : value < 2 ^ 64)
    (hw : 0 ≤ c.width ∧ c.width < 2 ^ 31) :
    readInteger b (formatInteger value isSigned negative b c) =
      some (if isSigned && negative then -(value : ℤ) else value) := by
  have hzeros : ∀ n, (List.replicate n '0'.toUInt8).filter (· ≠ ','.toUInt8) =
      List.replicate n '0'.toUInt8 := by
    intro n
    rw [filter_replicate]
    rfl
  have hstrip : ((integerBody b (formatInteger value isSigned negative b c)).filter
      (· ≠ ','.toUInt8)).dropWhile (· = '0'.toUInt8) = (numeral b value).reverse := by
    rw [integerBody_formatInteger hb hv hw, integerBuf_eq, filter_append, hzeros,
      filter_reverse, filter_append, hzeros, filter_digitLoop hb 0 hv,
      reverse_append, reverse_replicate, ← append_assoc,
      replicate_append_replicate, dropWhile_append_of_pos, dropWhile_numeral hb]
    intro ch hch
    rw [eq_of_mem_replicate hch]
    rfl
  unfold readInteger
  dsimp only
  rw [hstrip, readDigits_numeral hb, takeSign_formatInteger hb hv hw]
  rfl

/-! ### Groups -/

/-- The first digit is not zero. -/
theorem getLast_digitLoop (hb : b.Proper) {group : Bool} {fuel v : ℕ} (cnt : ℕ) (hv : v < 2 ^ fuel)
    (h0 : v ≠ 0) : ∃ d, d ≠ 0 ∧ d < b.base ∧
      (digitLoop b group fuel v cnt).getLast? = some (b.digits.getD d 0) := by
  have hbase := hb.base_ge
  induction fuel generalizing v cnt with
  | zero => exact absurd (Nat.lt_one_iff.mp hv) h0
  | succ fuel ih =>
    rw [digitLoop_succ fuel cnt h0]
    by_cases hlast : v / b.base = 0
    · refine ⟨v, h0, (Nat.div_eq_zero_iff_lt (by omega)).mp hlast, ?_⟩
      rw [hlast, digitLoop_zero, List.getLast?_concat,
        Nat.mod_eq_of_lt ((Nat.div_eq_zero_iff_lt (by omega)).mp hlast)]
    · obtain ⟨d, hd0, hd, hrest⟩ := ih (cnt + 1) (div_base_lt hb hv) hlast
      refine ⟨d, hd0, hd, ?_⟩
      rw [List.getLast?_append, List.getLast?_cons, hrest]
      rfl

/-- **Groups.** Without a precision and without the flag '0', the commas are where they are to be,
except for the zero that '#' puts before an octal number. -/
theorem grouped_formatInteger (hb : b.Proper) (hv : value < 2 ^ 64)
    (hw : 0 ≤ c.width ∧ c.width < 2 ^ 31) (hgroup : c.flags.group = true) (hprec : c.precision < 0)
    (hzero : c.flags.zero = false) :
    Grouped b (if c.flags.pound && b.base = 8 && 0 < value then
      (integerBody b (formatInteger value isSigned negative b c)).tail
        else integerBody b (formatInteger value isSigned negative b c)) := by
  rw [integerBody_formatInteger hb hv hw, hzero, integerBuf_eq]
  simp only [Bool.false_eq_true, if_false, replicate_zero, nil_append]
  by_cases h0 : value = 0
  · -- the precision makes a zero of nothing
    subst h0
    have hone : precisionZeros 0 b c = 1 := by
      unfold precisionZeros
      rw [if_pos hprec, digitLoop_zero]
      rfl
    have hnone : octalZero 0 b c = 0 := by
      unfold octalZero
      rw [hone, digitLoop_zero]
      exact if_neg (by simp)
    rw [hone, hnone, digitLoop_zero, if_neg (by simp)]
    exact ⟨['0'.toUInt8], [], by decide, ⟨by decide, hb.group_pos⟩,
      fun g hg => absurd hg not_mem_nil⟩
  · obtain ⟨d, hd0, hd, hlast⟩ : ∃ d, d ≠ 0 ∧ d < b.base ∧
        (digitLoop b true 64 value 0).getLast? = some (b.digits.getD d 0) :=
      getLast_digitLoop hb 0 hv h0
    have hnone : precisionZeros value b c = 0 := by
      have hpos : 0 < (digitLoop b true 64 value 0).length := by
        refine length_pos_iff.mpr fun hnil => ?_
        rw [hnil] at hlast
        cases hlast
      unfold precisionZeros
      rw [if_pos hprec, hgroup]
      omega
    have hgrouped : Grouped b (digitLoop b true 64 value 0).reverse := digitLoop_grouped hb h0
    have hdigit : b.digits.getD d 0 ≠ '0'.toUInt8 := hb.getD_ne_zero hd hd0
    generalize b.digits.getD d 0 = top at hlast hdigit
    have hoctal : octalZero value b c = if c.flags.pound && b.base = 8 && 0 < value then 1 else 0 := by
      unfold octalZero
      rw [hnone, hgroup, replicate_zero, append_nil, hlast]
      simp [hdigit, Nat.pos_of_ne_zero h0]
    rw [hnone, hgroup, hoctal, Nat.zero_add]
    split
    · rw [reverse_append]
      exact hgrouped
    · rw [replicate_zero, append_nil]
      exact hgrouped

end Layout

/-- **Integer conversions.** For every value of 64 bits, base, sign, precision and width, and all flags
without '-' and '0' together: the digits fit into the buffer, the output is as long as the width asks
for, and the value is read from it again. With the flag for groups and no precision and no flag '0', the
commas separate full groups, counted from the right, not counting the zero that '#' puts before an octal
number. -/
theorem format_integer_exact {b : IntegerBase} (hb : b ∈ integerBases) {value : ℕ}
    (hv : value < 2 ^ 64) (isSigned negative : Bool) {c : Conversion}
    (hw : 0 ≤ c.width ∧ c.width < 2 ^ 31) (hflags : ¬(c.flags.minus = true ∧ c.flags.zero = true)) :
    (integerBuf value b c).length ≤ 64 ∧
      (formatInteger value isSigned negative b c).length =
        max c.width.toNat (formatInteger value isSigned negative b { c with width := 0 }).length ∧
      readInteger b (formatInteger value isSigned negative b c) =
        some (if isSigned && negative then -(value : ℤ) else value) ∧
      (c.flags.group = true → c.precision < 0 → c.flags.zero = false →
        Grouped b (if c.flags.pound && b.base = 8 && 0 < value then
          (integerBody b (formatInteger value isSigned negative b c)).tail
            else integerBody b (formatInteger value isSigned negative b c))) := by
  have hp := proper_of_mem hb
  have honce : (c.flags.minus && c.flags.zero) = false := by
    rw [← Bool.not_eq_true, Bool.and_eq_true]
    exact hflags
  refine ⟨length_integerBuf_le hp hv, ?_, readInteger_formatInteger hp hv hw,
    grouped_formatInteger hp hv hw⟩
  rw [length_formatInteger hp hv hw,
    length_formatInteger hp hv ⟨le_rfl, show (0 : ℤ) < 2 ^ 31 by decide⟩]
  have hnat : naturalLength value isSigned negative b { c with width := 0 } =
      naturalLength value isSigned negative b c := rfl
  unfold padCount
  rw [hnat]
  simp only [honce, Bool.false_eq_true, if_false]
  omega

/-- A conversion in groups. -/
def groupConversion (pound : Bool) (width : ℤ) : Conversion :=
  ⟨{ Flags.clear with group := true, pound := pound }, width, -1, .int⟩

/-- -1234567, as "%'12d" prints it. -/
theorem format_integer_exact_groups :
    formatInteger 1234567 true true baseD (groupConversion false 12) =
      ascii [' ', ' ', '-', '1', ',', '2', '3', '4', ',', '5', '6', '7'] ∧
    readInteger baseD (formatInteger 1234567 true true baseD (groupConversion false 12)) =
      some (-1234567) := by
  refine ⟨by decide +kernel, ?_⟩
  exact (format_integer_exact (b := baseD) mem_cons_self (by decide) true true
    (by decide) (by decide)).2.2.1

/-- **A zero before a full group.** "%'#o" prints 511 as "0777", without a comma. -/
theorem format_integer_octal_zero :
    formatInteger 511 false false baseO (groupConversion true 0) = ascii ['0', '7', '7', '7'] ∧
      ¬Grouped baseO (integerBody baseO
        (formatInteger 511 false false baseO (groupConversion true 0))) := by
  have hbody : (integerBody baseO (formatInteger 511 false false baseO (groupConversion true 0))).splitOn
      ','.toUInt8 = [ascii ['0', '7', '7', '7']] := by decide +kernel
  refine ⟨by decide +kernel, ?_⟩
  rintro ⟨first, rest, hsplit, ⟨-, hle⟩, -⟩
  obtain ⟨rfl, -⟩ := List.cons.inj (hbody.symm.trans hsplit)
  exact absurd hle (by decide)

end Pintos
