import Pintos.Lib.Integers

/-!
# Field widths

The length of what one conversion of `__vprintf` prints, for every conversion specification that can be
written: flags, a width, a precision, a length modifier and a character (`ConversionSpec`).

`parse_conversion` removes the flag '0' if there is a '-' before it looks at the width, and a negative
width given by a star adds '-' afterwards. An integer is then padded with zeros before its digits and
with blanks behind them.

* `parseConversion_text` — what `parse_conversion` makes of a specification;
* `vprintf_spec` — what `__vprintf` prints for it;
* `length_doConversion` — how long that is.
-/

namespace Pintos

open List

/-! ### Specifications -/

/-- A width or a precision: digits, maybe none, or a star and the argument that it stands for. -/
inductive Field where
  | digits (ds : List UInt8)
  | star (w : UInt32)

/-- The number that digits stand for, after the number `n`. -/
def decimal (n : ℤ) (ds : List UInt8) : ℤ := ds.foldl (fun n d => n * 10 + d.toNat - 48) n

namespace Field

def text : Field → List UInt8
  | digits ds => ds
  | star _ => ['*'.toUInt8]

def value : Field → ℤ
  | digits ds => decimal 0 ds
  | star w => toInt32 w.toNat

/-- The arguments that the field takes. -/
def stars : Field → List UInt32
  | digits _ => []
  | star w => [w]

/-- Digits of a number that an `int` can hold. -/
def Valid : Field → Prop
  | digits ds => (∀ d ∈ ds, isDigit d = true) ∧ decimal 0 ds < 2 ^ 31
  | star _ => True

end Field

/-- The text of a length modifier. -/
def ArgType.text : ArgType → List UInt8
  | .char => ascii ['h', 'h']
  | .short => ascii ['h']
  | .int => []
  | .intmax => ascii ['j']
  | .long => ascii ['l']
  | .longlong => ascii ['l', 'l']
  | .ptrdifft => ascii ['t']
  | .sizet => ascii ['z']

/-- No width at all. -/
theorem Field.valid_nil : (Field.digits []).Valid :=
  ⟨fun _ hd => absurd hd not_mem_nil, by decide⟩

theorem Field.value_nil_gt : -2 ^ 31 < (Field.digits []).value := by decide

/-- A conversion specification, for an integer, a character or a string. -/
structure ConversionSpec where
  flags : List UInt8
  width : Field
  precision : Option Field
  type : ArgType
  ch : UInt8
  flags_valid : ∀ c ∈ flags, isFlag c = true
  width_valid : width.Valid
  /-- A zero would be a flag. -/
  width_head : width.text.head? ≠ some '0'.toUInt8
  /-- The least `int` has no opposite. -/
  width_gt : -2 ^ 31 < width.value
  precision_valid : ∀ f ∈ precision, f.Valid
  ch_valid : ch ∈ ascii ['d', 'i', 'o', 'u', 'x', 'X', 'c', 's']

namespace ConversionSpec

variable (s : ConversionSpec)

/-- The length modifier and the character. -/
def typeText : List UInt8 := s.type.text ++ [s.ch]

/-- The precision, and what follows it. -/
def precisionText : List UInt8 :=
  s.precision.elim [] (fun f => '.'.toUInt8 :: f.text) ++ s.typeText

/-- The width, and what follows it. -/
def widthText : List UInt8 := s.width.text ++ s.precisionText

/-- What follows the percent sign. -/
def text : List UInt8 := s.flags ++ s.widthText

/-- The value of the precision: -1 if there is none. -/
def precisionValue : ℤ :=
  s.precision.elim (-1) fun f => if f.value < 0 then -1 else f.value

/-- The arguments that stars take. -/
def stars : List UInt32 := s.width.stars ++ s.precision.elim [] Field.stars

/-- The same conversion with a width of zero. -/
def unpadded : ConversionSpec :=
  { s with
    width := .digits []
    width_valid := Field.valid_nil
    width_head := (Option.some_ne_none _).symm
    width_gt := Field.value_nil_gt }

/-- The arguments of a call: those of the stars, and then the one to convert. -/
def args (word : UInt32) (dword : UInt64) (string : Option CString) : Args :=
  ⟨fun k => s.stars.getD k word, fun _ => dword, fun _ => string⟩

end ConversionSpec

/-! ### Parsing -/

section Parsing

variable {format : CString} {p k fuel : ℕ} {cs : List UInt8} {args : Args}

theorem CString.At.append {xs ys : List UInt8} (h : format.At p (xs ++ ys)) :
    format.At (p + xs.length) ys := by
  induction xs generalizing p with
  | nil => exact h
  | cons x xs ih =>
    rw [length_cons, Nat.add_comm xs.length, ← Nat.add_assoc]
    exact ih h.next

/-- The flags with those of the characters `fs` added. -/
def Flags.add (f : Flags) (fs : List UInt8) : Flags := fs.foldl (fun f c => (f.set c).getD f) f

theorem parseFlags_text {fs : List UInt8} {c : UInt8} (f : Flags) (hfs : ∀ c ∈ fs, isFlag c = true)
    (hc : isFlag c = false) (hfuel : fs.length < fuel) (h : format.At p (fs ++ c :: cs)) :
    parseFlags format fuel p f = .ok (f.add fs, p + fs.length) := by
  induction fs generalizing fuel p f with
  | nil =>
    obtain ⟨fuel, rfl⟩ := Nat.exists_eq_add_one.mpr hfuel
    rw [parseFlags, h.charAt_cons]
    simp only [bind, Except.bind, Flags.set_eq_none.mpr hc]
    rfl
  | cons d fs ih =>
    obtain ⟨fuel, rfl⟩ := Nat.exists_eq_add_one.mpr (Nat.zero_lt_of_lt hfuel)
    obtain ⟨hd, hfs⟩ := forall_mem_cons.mp hfs
    obtain ⟨f', hset⟩ : ∃ f', f.set d = some f' := by
      refine Option.ne_none_iff_exists'.mp fun hnone => ?_
      rw [Flags.set_eq_none.mp hnone] at hd
      exact Bool.false_ne_true hd
    rw [parseFlags, h.charAt_cons]
    simp only [bind, Except.bind, hset]
    rw [ih f' hfs (Nat.lt_of_succ_lt_succ hfuel) h.next, length_cons, Flags.add, Flags.add,
      foldl_cons, hset, Option.getD_some, Nat.add_assoc, Nat.add_comm 1]

theorem toNat_of_isDigit {d : UInt8} (hd : isDigit d = true) : 48 ≤ d.toNat := by
  unfold isDigit at hd
  rw [Bool.and_eq_true, decide_eq_true_eq, UInt8.le_iff_toNat_le] at hd
  exact hd.1

/-- A character sets its own flag. -/
theorem Flags.set_getD (f : Flags) (c : UInt8) :
    (((f.set c).getD f).minus = true ↔ f.minus = true ∨ c = '-'.toUInt8) ∧
      (((f.set c).getD f).zero = true ↔ f.zero = true ∨ c = '0'.toUInt8) := by
  unfold Flags.set
  split_ifs <;> simp_all <;> exact fun h => absurd h (by decide)

/-- The flags '-' and '0' of a list of flags. -/
theorem Flags.add_minus_zero (f : Flags) (fs : List UInt8) :
    ((f.add fs).minus = true ↔ f.minus = true ∨ '-'.toUInt8 ∈ fs) ∧
      ((f.add fs).zero = true ↔ f.zero = true ∨ '0'.toUInt8 ∈ fs) := by
  induction fs generalizing f with
  | nil => simp [Flags.add]
  | cons c fs ih =>
    obtain ⟨hminus, hzero⟩ := f.set_getD c
    obtain ⟨ihminus, ihzero⟩ := ih ((f.set c).getD f)
    rw [Flags.add, foldl_cons]
    refine ⟨ihminus.trans ?_, ihzero.trans ?_⟩
    · rw [hminus, or_assoc, mem_cons, eq_comm (a := c)]
    · rw [hzero, or_assoc, mem_cons, eq_comm (a := c)]

/-- The number grows with every digit. -/
theorem le_decimal {n : ℤ} {ds : List UInt8} (hn : 0 ≤ n) (hds : ∀ d ∈ ds, isDigit d = true) :
    n ≤ decimal n ds := by
  induction ds generalizing n with
  | nil => exact le_rfl
  | cons d ds ih =>
    obtain ⟨hd, hds⟩ := forall_mem_cons.mp hds
    have hdigit := toNat_of_isDigit hd
    calc n ≤ n * 10 + d.toNat - 48 := by omega
      _ ≤ decimal n (d :: ds) := ih (by omega) hds

theorem parseDigits_text {ds : List UInt8} {c : UInt8} {n : ℤ} (hn : 0 ≤ n)
    (hds : ∀ d ∈ ds, isDigit d = true) (hfits : decimal n ds < 2 ^ 31) (hc : isDigit c = false)
    (hfuel : ds.length < fuel) (h : format.At p (ds ++ c :: cs)) :
    parseDigits format fuel p n = .ok (decimal n ds, p + ds.length) := by
  induction ds generalizing fuel p n with
  | nil =>
    obtain ⟨fuel, rfl⟩ := Nat.exists_eq_add_one.mpr hfuel
    rw [parseDigits, h.charAt_cons]
    simp only [bind, Except.bind, hc]
    rfl
  | cons d ds ih =>
    obtain ⟨fuel, rfl⟩ := Nat.exists_eq_add_one.mpr (Nat.zero_lt_of_lt hfuel)
    obtain ⟨hd, hds⟩ := forall_mem_cons.mp hds
    have hdigit := toNat_of_isDigit hd
    have hnext : decimal n (d :: ds) = decimal (n * 10 + d.toNat - 48) ds := rfl
    have hle : n * 10 + d.toNat - 48 ≤ decimal (n * 10 + d.toNat - 48) ds :=
      le_decimal (by omega) hds
    rw [hnext] at hfits
    rw [parseDigits, h.charAt_cons]
    simp only [bind, Except.bind, hd, if_true]
    rw [toInt32_of_fits (by omega) (by omega), ih (by omega) hds hfits (Nat.lt_of_succ_lt_succ hfuel)
      h.next, hnext, length_cons, Nat.add_assoc, Nat.add_comm 1]

/-- **A width or a precision.** -/
theorem parseNumber_text {f : Field} {c : UInt8} (hf : f.Valid) (hc : isDigit c = false)
    (hstar : c ≠ '*'.toUInt8) (hargs : ∀ w ∈ f.stars, args.word k = w)
    (h : format.At p (f.text ++ c :: cs)) :
    parseNumber args format p k = .ok (f.value, p + f.text.length, k + f.stars.length) := by
  cases f with
  | star w =>
    rw [parseNumber, CString.At.charAt_cons h]
    simp only [bind, Except.bind, if_true, Args.int, hargs w mem_cons_self]
    rfl
  | digits ds =>
    obtain ⟨hds, hfits⟩ := hf
    have hfuel : ds.length < format.chars.length + 1 := by
      have := CString.At.le (CString.At.append h)
      exact Nat.lt_succ_of_le (by change p + ds.length ≤ _ at this; omega)
    have hfirst : ∃ d, format.charAt p = .ok d ∧ d ≠ '*'.toUInt8 := by
      cases ds with
      | nil => exact ⟨c, CString.At.charAt_cons h, hstar⟩
      | cons d ds =>
        refine ⟨d, CString.At.charAt_cons h, ?_⟩
        rintro rfl
        exact absurd (hds _ mem_cons_self) (by decide)
    obtain ⟨d, hd, hne⟩ := hfirst
    rw [parseNumber, hd]
    simp only [bind, Except.bind, hne, if_false]
    rw [parseDigits_text le_rfl hds hfits hc hfuel h]
    rfl

/-- The characters a precision, or what follows it, may begin with. -/
def optionHeads : List UInt8 :=
  ascii ['.', 'h', 'j', 'l', 't', 'z', 'd', 'i', 'o', 'u', 'x', 'X', 'c', 's']

theorem optionHeads_plain : ∀ c ∈ optionHeads, isFlag c = false ∧ isDigit c = false ∧
    c ≠ '*'.toUInt8 ∧ c ≠ '%'.toUInt8 := by
  decide +kernel

/-- A flag that is a digit. -/
theorem eq_zero_of_flag_digit {c : UInt8} (hflag : isFlag c = true) (hdigit : isDigit c = true) :
    c = '0'.toUInt8 := by
  have hall : ∀ c ∈ ascii ['-', '+', ' ', '#', '0', '\''], isDigit c = true →
      c = '0'.toUInt8 := by decide +kernel
  exact hall c (of_decide_eq_true hflag) hdigit

/-- **The length modifier.** -/
theorem parseType_text {ch : UInt8} (type : ArgType)
    (hch : ch ∈ ascii ['d', 'i', 'o', 'u', 'x', 'X', 'c', 's'])
    (h : format.At p (type.text ++ ch :: cs)) :
    parseType format p = .ok (type, p + type.text.length) := by
  have hall : ∀ c ∈ ascii ['d', 'i', 'o', 'u', 'x', 'X', 'c', 's'], c ≠ 'h'.toUInt8 ∧
      c ≠ 'j'.toUInt8 ∧ c ≠ 'l'.toUInt8 ∧ c ≠ 't'.toUInt8 ∧ c ≠ 'z'.toUInt8 := by decide +kernel
  obtain ⟨hh, hj, hl, ht, hz⟩ := hall ch hch
  unfold parseType
  cases type with
  | int =>
    rw [CString.At.charAt_cons h]
    simp only [bind, Except.bind, hh, hj, hl, ht, hz, if_false]
    rfl
  | intmax | ptrdifft | sizet =>
    rw [CString.At.charAt_cons h]
    rfl
  | char | longlong =>
    rw [CString.At.charAt_cons h]
    have hnext := (CString.At.next h).charAt_cons
    simp only [bind, Except.bind, hnext]
    rfl
  | short | long =>
    rw [CString.At.charAt_cons h]
    have hnext := (CString.At.next h).charAt_cons
    simp only [bind, Except.bind, hnext, hh, hl]
    rfl

/-- The flags after `parse_conversion` has looked at the width and the precision. -/
def normalFlags (f : Flags) (width precision : ℤ) : Flags :=
  let f := if f.minus then { f with zero := false } else f
  let f := if f.plus then { f with space := false } else f
  let f := if width < 0 then { f with minus := true } else f
  if 0 ≤ precision then { f with zero := false } else f

theorem normalFlags_eq (f : Flags) (width precision : ℤ) :
    normalFlags f width precision =
      { minus := f.minus || decide (width < 0)
        plus := f.plus
        space := f.space && !f.plus
        pound := f.pound
        zero := f.zero && !f.minus && decide (precision < 0)
        group := f.group } := by
  obtain ⟨minus, plus, space, pound, zero, group⟩ := f
  have hneg : (0 ≤ precision) ↔ ¬precision < 0 := not_lt.symm
  unfold normalFlags
  cases minus <;> cases plus <;> by_cases hw : width < 0 <;> by_cases hp : precision < 0 <;>
    simp [hw, hp, hneg]

/-- **`parse_conversion`**, from its parts. -/
theorem parseConversion_parts {f : Flags} {width precision : ℤ} {type : ArgType}
    {p₁ p₂ p₃ q k₂ k₃ : ℕ}
    (hf : parseFlags format (format.chars.length + 1) p .clear = .ok (f, p₁))
    (hw : parseNumber args format p₁ k = .ok (width, p₂, k₂))
    (hp : parsePrecision args format p₂ k₂ = .ok (precision, p₃, k₃))
    (ht : parseType format p₃ = .ok (type, q)) :
    parseConversion args format p k = .ok (⟨normalFlags f width precision,
      if width < 0 then toInt32 (-width) else width, precision, type⟩, q, k₃) := by
  simp only [parseConversion, hf, hw, hp, ht, bind, Except.bind]
  rfl

end Parsing

namespace ConversionSpec

variable (s : ConversionSpec)

theorem typeText_head : ∃ c cs, s.typeText = c :: cs ∧ c ∈ optionHeads ∧ c ≠ '.'.toUInt8 := by
  have hch : s.ch ∈ optionHeads ∧ s.ch ≠ '.'.toUInt8 := by
    have hall : ∀ c ∈ ascii ['d', 'i', 'o', 'u', 'x', 'X', 'c', 's'],
        c ∈ optionHeads ∧ c ≠ '.'.toUInt8 := by decide +kernel
    exact hall s.ch s.ch_valid
  unfold typeText
  cases s.type with
  | int => exact ⟨s.ch, [], rfl, hch⟩
  | _ => exact ⟨_, _, rfl, by decide, by decide⟩

theorem precisionText_head : ∃ c cs, s.precisionText = c :: cs ∧ c ∈ optionHeads := by
  obtain ⟨c, cs, htype, hc, -⟩ := s.typeText_head
  unfold precisionText
  cases s.precision with
  | none => exact ⟨c, cs, htype, hc⟩
  | some f => exact ⟨_, _, rfl, by decide⟩

/-- The flags end where the width begins. -/
theorem widthText_head : ∃ c cs, s.widthText = c :: cs ∧ isFlag c = false ∧ c ≠ '%'.toUInt8 := by
  obtain ⟨c, cs, hprec, hc⟩ := s.precisionText_head
  have hplain := optionHeads_plain c hc
  have hhead := s.width_head
  have hvalid := s.width_valid
  unfold widthText
  cases hw : s.width with
  | star w => exact ⟨_, _, rfl, by decide, by decide⟩
  | digits ds =>
    cases ds with
    | nil => exact ⟨c, cs, hprec, hplain.1, hplain.2.2.2⟩
    | cons d ds =>
      rw [hw] at hhead hvalid
      have hdigit := hvalid.1 d mem_cons_self
      have hzero : d ≠ '0'.toUInt8 := fun heq => hhead (congrArg some heq)
      refine ⟨d, _, rfl, ?_, ?_⟩
      · rw [← Bool.not_eq_true]
        exact fun hflag => hzero (eq_zero_of_flag_digit hflag hdigit)
      · rintro rfl
        exact absurd hdigit (by decide)

variable {s} {format : CString} {p k : ℕ} {cs : List UInt8} {args : Args}

/-- **The precision.** -/
theorem parsePrecision_text (hargs : ∀ w ∈ s.precision.elim [] Field.stars, args.word k = w)
    (h : format.At p (s.precisionText ++ cs)) :
    parsePrecision args format p k = .ok (s.precisionValue,
      p + (s.precision.elim [] (fun f => '.'.toUInt8 :: f.text)).length,
      k + (s.precision.elim [] Field.stars).length) := by
  obtain ⟨c, cs', htype, hc, hpoint⟩ := s.typeText_head
  have hplain := optionHeads_plain c hc
  have hvalid := s.precision_valid
  unfold precisionText at h
  unfold precisionValue
  rw [htype] at h
  cases hprec : s.precision with
  | none =>
    rw [hprec] at h
    have hchar := CString.At.charAt_cons h
    simp only [parsePrecision, hchar, bind, Except.bind, hpoint, if_false]
    rfl
  | some f =>
    rw [hprec] at h hvalid hargs
    have hrest : format.At (p + 1) (f.text ++ c :: (cs' ++ cs)) := by
      rw [← cons_append, ← append_assoc]
      exact CString.At.next h
    have hnum := parseNumber_text (hvalid f rfl) hplain.2.1 hplain.2.2.1 hargs hrest
    have hchar := CString.At.charAt_cons h
    simp only [parsePrecision, hchar, hnum, bind, Except.bind, if_true]
    rw [Nat.add_assoc, Nat.add_comm 1]
    rfl

/-- What `parse_conversion` makes of the specification. -/
def conversion (s : ConversionSpec) : Conversion where
  flags := normalFlags (Flags.clear.add s.flags) s.width.value s.precisionValue
  width := s.width.value.natAbs
  precision := s.precisionValue
  type := s.type

/-- The width fits into an `int`, and so does its absolute value. -/
theorem width_lt : s.width.value < 2 ^ 31 := by
  have hvalid := s.width_valid
  cases hw : s.width with
  | digits ds =>
    rw [hw] at hvalid
    exact hvalid.2
  | star w => exact (toInt32_bounds _).2

theorem absWidth_eq : (if s.width.value < 0 then toInt32 (-s.width.value) else s.width.value) =
    s.width.value.natAbs := by
  have hlo := s.width_gt
  have hhi := s.width_lt
  split
  · rw [toInt32_of_fits (by omega) (by omega)]
    omega
  · omega

/-- **`parse_conversion`** stops at the character of the conversion. -/
theorem parseConversion_text (hargs : ∀ i, ∀ w ∈ s.stars[i]?, args.word (k + i) = w)
    (h : format.At p (s.text ++ cs)) : ∃ q, format.At q (s.ch :: cs) ∧
      parseConversion args format p k = .ok (s.conversion, q, k + s.stars.length) := by
  obtain ⟨c₁, cs₁, hwidth, hflag, -⟩ := s.widthText_head
  obtain ⟨c₂, cs₂, hprec, hc₂⟩ := s.precisionText_head
  have hplain := optionHeads_plain c₂ hc₂
  -- the places where the parts begin
  have h₁ : format.At (p + s.flags.length) (s.widthText ++ cs) := by
    unfold text at h
    rw [append_assoc] at h
    exact h.append
  have h₂ : format.At (p + s.flags.length + s.width.text.length) (s.precisionText ++ cs) := by
    unfold widthText at h₁
    rw [append_assoc] at h₁
    exact h₁.append
  generalize hpoint : s.precision.elim [] (fun f => '.'.toUInt8 :: f.text) = point
  have h₃ : format.At (p + s.flags.length + s.width.text.length + point.length)
      (s.type.text ++ s.ch :: cs) := by
    unfold precisionText typeText at h₂
    rw [hpoint, append_assoc, append_assoc] at h₂
    exact h₂.append
  refine ⟨_, h₃.append, ?_⟩
  have hfuel : s.flags.length < format.chars.length + 1 := by
    have := h₁.le
    omega
  have hstars : ∀ w ∈ s.width.stars, args.word k = w := by
    intro w hw
    cases hcase : s.width with
    | digits ds =>
      rw [hcase] at hw
      exact absurd hw not_mem_nil
    | star w' =>
      rw [hcase] at hw
      obtain rfl := mem_singleton.mp hw
      refine hargs 0 w ?_
      unfold stars
      rw [hcase]
      rfl
  have hstars' : ∀ w ∈ s.precision.elim [] Field.stars,
      args.word (k + s.width.stars.length) = w := by
    intro w hw
    refine hargs _ w ?_
    unfold stars
    rw [List.getElem?_append_right le_rfl, Nat.sub_self]
    cases hcase : s.precision with
    | none =>
      rw [hcase] at hw
      exact absurd hw not_mem_nil
    | some f =>
      rw [hcase] at hw
      cases f with
      | digits ds => exact absurd hw not_mem_nil
      | star w' =>
        obtain rfl := mem_singleton.mp hw
        rfl
  have hf := parseFlags_text Flags.clear s.flags_valid hflag hfuel
    (by unfold text at h; rwa [hwidth, append_assoc] at h)
  have hw : parseNumber args format (p + s.flags.length) k = _ :=
    parseNumber_text s.width_valid hplain.2.1 hplain.2.2.1 hstars
      (by unfold widthText at h₁; rwa [hprec, append_assoc] at h₁)
  have hp := parsePrecision_text hstars' h₂
  have ht := parseType_text s.type s.ch_valid h₃
  rw [hpoint] at hp
  rw [parseConversion_parts hf hw hp ht, absWidth_eq, Nat.add_assoc k, ← length_append]
  rfl

end ConversionSpec

/-! ### What is printed -/

/-- What a conversion of an integer, a character or a string prints. -/
def printed (args : Args) (k : ℕ) (c : Conversion) (ch : UInt8) : List UInt8 :=
  match conversionKind ch with
  | .signed =>
    formatInteger (signedArg args k c.type).natAbs true (signedArg args k c.type < 0) baseD c
  | .unsigned b => formatInteger (unsignedArg args k c.type) false false b c
  | .char => formatString [(args.word k).toUInt8] c
  | .string => formatString (stringArg args k c.precision) c
  | _ => []

/-- The conversions of a specification. -/
theorem conversionKind_cases {ch : UInt8}
    (hch : ch ∈ ascii ['d', 'i', 'o', 'u', 'x', 'X', 'c', 's']) :
    (ch ∉ ascii ['c', 's'] ∧ (conversionKind ch = .signed ∨
        ∃ b ∈ integerBases, conversionKind ch = .unsigned b)) ∨
      (ch ∈ ascii ['c', 's'] ∧ (conversionKind ch = .char ∨ conversionKind ch = .string)) := by
  simp only [ascii, map_cons, map_nil, mem_cons, not_mem_nil, or_false] at hch
  rcases hch with rfl | rfl | rfl | rfl | rfl | rfl | rfl | rfl
  · exact .inl ⟨by decide, .inl rfl⟩
  · exact .inl ⟨by decide, .inl rfl⟩
  · exact .inl ⟨by decide, .inr ⟨baseO, by simp [integerBases], rfl⟩⟩
  · exact .inl ⟨by decide, .inr ⟨baseD, by simp [integerBases], rfl⟩⟩
  · exact .inl ⟨by decide, .inr ⟨baseLowerX, by simp [integerBases], rfl⟩⟩
  · exact .inl ⟨by decide, .inr ⟨baseUpperX, by simp [integerBases], rfl⟩⟩
  · exact .inr ⟨by decide, .inl rfl⟩
  · exact .inr ⟨by decide, .inr rfl⟩

theorem doConversion_eq {ch : UInt8} (hch : ch ∈ ascii ['d', 'i', 'o', 'u', 'x', 'X', 'c', 's'])
    (report : CString → Args → Except StringFault (List UInt8)) (args : Args) (k : ℕ)
    (c : Conversion) : doConversion report args k c ch = .ok (printed args k c ch, k + 1) := by
  unfold doConversion printed
  obtain ⟨-, hk | ⟨b, -, hk⟩⟩ | ⟨-, hk | hk⟩ := conversionKind_cases hch <;> rw [hk]

/-- Arguments that are the same everywhere. -/
def Args.constant (word : UInt32) (dword : UInt64) (string : Option CString) : Args :=
  ⟨fun _ => word, fun _ => dword, fun _ => string⟩

/-- Only one argument is looked at. -/
theorem printed_eq {args : Args} {k : ℕ} {word : UInt32} {dword : UInt64} {string : Option CString}
    (hword : args.word k = word) (hdword : args.dword k = dword) (hstring : args.string k = string)
    (c : Conversion) (ch : UInt8) :
    printed args k c ch = printed (.constant word dword string) 0 c ch := by
  have hsigned : signedArg args k c.type = signedArg (.constant word dword string) 0 c.type := by
    unfold signedArg Args.int
    rw [hword, hdword]
    rfl
  have hunsigned : unsignedArg args k c.type =
      unsignedArg (.constant word dword string) 0 c.type := by
    unfold unsignedArg
    rw [hword, hdword]
    rfl
  have hchars : stringArg args k c.precision =
      stringArg (.constant word dword string) 0 c.precision := by
    unfold stringArg
    rw [hstring]
    rfl
  unfold printed
  rw [hsigned, hunsigned, hchars, hword]
  rfl

/-! ### How long it is -/

/-- Two conversions that differ in the width and in the flags '-' and '0' at most. -/
structure Conversion.SameOptions (c c' : Conversion) : Prop where
  plus : c.flags.plus = c'.flags.plus
  space : c.flags.space = c'.flags.space
  pound : c.flags.pound = c'.flags.pound
  group : c.flags.group = c'.flags.group
  precision : c.precision = c'.precision
  type : c.type = c'.type

theorem natAbs_signedArg_lt (args : Args) (k : ℕ) (type : ArgType) :
    (signedArg args k type).natAbs < 2 ^ 64 := by
  have hint : -2 ^ 31 ≤ args.int k ∧ args.int k < 2 ^ 31 := toInt32_bounds _
  cases type with
  | char =>
    have hlo := Int.le_bmod (x := args.int k) (m := 2 ^ 8) (by decide)
    have hhi := Int.bmod_lt (x := args.int k) (m := 2 ^ 8) (by decide)
    rw [signedArg]
    omega
  | short =>
    have hlo := Int.le_bmod (x := args.int k) (m := 2 ^ 16) (by decide)
    have hhi := Int.bmod_lt (x := args.int k) (m := 2 ^ 16) (by decide)
    rw [signedArg]
    omega
  | int | long | ptrdifft | sizet =>
    rw [signedArg]
    omega
  | intmax | longlong =>
    have hlo := Int.le_bmod (x := (args.dword k).toNat) (m := 2 ^ 64) (by decide)
    have hhi := Int.bmod_lt (x := (args.dword k).toNat) (m := 2 ^ 64) (by decide)
    rw [signedArg, toInt64]
    omega

theorem unsignedArg_lt (args : Args) (k : ℕ) (type : ArgType) :
    unsignedArg args k type < 2 ^ 64 := by
  have hword := (args.word k).toNat_lt
  cases type with
  | intmax | longlong => exact (args.dword k).toNat_lt
  | _ =>
    rw [unsignedArg]
    omega

section Length

variable {c c₀ : Conversion}

/-- Without padding, the length does not depend on the width, nor on '-' and '0'. -/
theorem naturalLength_congr (h : c.SameOptions c₀) (value : ℕ) (isSigned negative : Bool)
    (b : IntegerBase) :
    naturalLength value isSigned negative b c = naturalLength value isSigned negative b c₀ := by
  unfold naturalLength signOf integerX integerBuf
  rw [h.plus, h.space, h.pound, h.group, h.precision]

theorem length_formatInteger_unpadded (h : c.SameOptions c₀) (hw : 0 ≤ c.width ∧ c.width < 2 ^ 31)
    (hw₀ : c₀.width = 0) {b : IntegerBase} (hb : b ∈ integerBases) {value : ℕ} (hv : value < 2 ^ 64)
    (isSigned negative : Bool) :
    (formatInteger value isSigned negative b c).length =
      (formatInteger value isSigned negative b c₀).length +
        (if c.flags.minus && c.flags.zero then 2 else 1) *
          (c.width.toNat - (formatInteger value isSigned negative b c₀).length) := by
  have hp := proper_of_mem hb
  have hlen₀ : (formatInteger value isSigned negative b c₀).length =
      naturalLength value isSigned negative b c := by
    rw [length_formatInteger hp hv (by rw [hw₀]; decide), naturalLength_congr h]
    unfold padCount
    rw [hw₀, Int.toNat_zero, Nat.zero_sub, Nat.mul_zero, Nat.add_zero]
  rw [length_formatInteger hp hv hw, hlen₀]
  rfl

theorem length_formatString (string : List UInt8) (c : Conversion) :
    (formatString string c).length = max c.width.toNat string.length := by
  unfold formatString
  dsimp only
  split <;> simp only [length_append, length_replicate, length_nil] <;> omega

/-- **The length of a conversion**, and that of the same conversion with a width of zero. -/
theorem length_printed (h : c.SameOptions c₀) (hw : 0 ≤ c.width ∧ c.width < 2 ^ 31)
    (hw₀ : c₀.width = 0) {ch : UInt8}
    (hch : ch ∈ ascii ['d', 'i', 'o', 'u', 'x', 'X', 'c', 's']) (args : Args) (k : ℕ) :
    (printed args k c ch).length = (printed args k c₀ ch).length +
      (if c.flags.minus && c.flags.zero && ch ∉ ascii ['c', 's'] then 2 else 1) *
        (c.width.toNat - (printed args k c₀ ch).length) := by
  unfold printed
  obtain ⟨hint, hk | ⟨b, hb, hk⟩⟩ | ⟨hint, hk | hk⟩ := conversionKind_cases hch <;> rw [hk]
  · simp only [hint, not_false_eq_true, decide_true, Bool.and_true, ← h.type]
    exact length_formatInteger_unpadded h hw hw₀ mem_cons_self
      (natAbs_signedArg_lt args k c.type) _ _
  · simp only [hint, not_false_eq_true, decide_true, Bool.and_true, ← h.type]
    exact length_formatInteger_unpadded h hw hw₀ hb (unsignedArg_lt args k c.type) _ _
  · simp only [hint, not_true_eq_false, decide_false, Bool.and_false, Bool.false_eq_true, if_false,
      length_formatString, hw₀]
    omega
  · simp only [hint, not_true_eq_false, decide_false, Bool.and_false, Bool.false_eq_true, if_false,
      length_formatString, hw₀, ← h.precision]
    omega

end Length

namespace ConversionSpec

variable (s : ConversionSpec)

theorem text_nonzero : 0 ∉ '%'.toUInt8 :: s.text := by
  have hfield : ∀ {f : Field}, f.Valid → 0 ∉ f.text := by
    intro f hf h0
    cases f with
    | digits ds => exact absurd (hf.1 0 h0) (by decide)
    | star w => exact absurd (mem_singleton.mp h0) (by decide)
  have htype : 0 ∉ s.type.text := by cases s.type <;> decide
  have hch : (0 : UInt8) ≠ s.ch := by
    intro h0
    have hvalid := s.ch_valid
    rw [← h0] at hvalid
    exact absurd hvalid (by decide)
  have hprec : 0 ∉ s.precision.elim [] (fun f => '.'.toUInt8 :: f.text) := by
    have hvalid := s.precision_valid
    cases hp : s.precision with
    | none => exact not_mem_nil
    | some f =>
      rw [hp] at hvalid
      exact not_mem_cons_of_ne_of_not_mem (by decide) (hfield (hvalid f rfl))
  unfold text widthText precisionText typeText
  simp only [mem_cons, mem_append, not_mem_nil, not_or, or_false]
  exact ⟨by decide, fun h0 => absurd (s.flags_valid 0 h0) (by decide), hfield s.width_valid, hprec,
    htype, hch⟩

/-- The format that consists of the conversion. -/
def format : CString := ⟨'%'.toUInt8 :: s.text, s.text_nonzero⟩

/-- **What `__vprintf` prints** for the specification. -/
theorem vprintf_spec (word : UInt32) (dword : UInt64) (string : Option CString) (fuel : ℕ) :
    vprintf (fuel + 2) (s.args word dword string) s.format 0 0 =
      .ok (printed (.constant word dword string) 0 s.conversion s.ch) := by
  have hstart : s.format.At 0 ('%'.toUInt8 :: s.text) := .start s.format
  -- the first character behind the percent sign is another one
  obtain ⟨d, ds, htext, hne⟩ : ∃ d ds, s.text = d :: ds ∧ d ≠ '%'.toUInt8 := by
    obtain ⟨c, cs, hwidth, -, hc⟩ := s.widthText_head
    unfold text
    cases hflags : s.flags with
    | nil => exact ⟨c, cs, hwidth, hc⟩
    | cons d ds =>
      refine ⟨d, _, rfl, ?_⟩
      rintro rfl
      have hvalid := s.flags_valid
      rw [hflags] at hvalid
      exact absurd (hvalid _ mem_cons_self) (by decide)
  have hd : s.format.charAt (0 + 1) = .ok d := by
    have hnext := hstart.next
    rw [htext] at hnext
    exact hnext.charAt_cons
  have hargs : ∀ i, ∀ w ∈ s.stars[i]?, (s.args word dword string).word (0 + i) = w := by
    intro i w hw
    unfold args
    dsimp only
    rw [Nat.zero_add, getD_eq_getElem?_getD, hw, Option.getD_some]
  obtain ⟨q, hq, hconv⟩ := parseConversion_text hargs
    (show s.format.At (0 + 1) (s.text ++ []) by rw [append_nil]; exact hstart.next)
  have hlast : (s.args word dword string).word (0 + s.stars.length) = word := by
    unfold args
    dsimp only
    rw [Nat.zero_add, getD_eq_default _ _ le_rfl]
  have hprinted : printed (s.args word dword string) (0 + s.stars.length) s.conversion s.ch =
      printed (.constant word dword string) 0 s.conversion s.ch :=
    printed_eq hlast rfl rfl s.conversion s.ch
  rw [vprintf, hstart.charAt_cons]
  simp only [bind, Except.bind, hstart.ne_zero, hd, hne, hconv, hq.charAt_cons,
    doConversion_eq s.ch_valid, vprintf_nil hq.next, if_false, ne_eq, not_true_eq_false,
    append_nil, hprinted]

theorem sameOptions_unpadded : s.conversion.SameOptions s.unpadded.conversion := by
  unfold conversion
  rw [normalFlags_eq, normalFlags_eq]
  exact ⟨rfl, rfl, rfl, rfl, rfl, rfl⟩

/-- Both '-' and '0' are set. -/
theorem minus_zero_iff : (s.conversion.flags.minus && s.conversion.flags.zero) = true ↔
    '0'.toUInt8 ∈ s.flags ∧ '-'.toUInt8 ∉ s.flags ∧ s.width.value < 0 ∧ s.precisionValue < 0 := by
  obtain ⟨hminus, hzero⟩ := Flags.add_minus_zero .clear s.flags
  have hminus' : (Flags.clear.add s.flags).minus = true ↔ '-'.toUInt8 ∈ s.flags :=
    hminus.trans (or_iff_right Bool.false_ne_true)
  have hzero' : (Flags.clear.add s.flags).zero = true ↔ '0'.toUInt8 ∈ s.flags :=
    hzero.trans (or_iff_right Bool.false_ne_true)
  unfold conversion
  rw [normalFlags_eq]
  simp only [Bool.and_eq_true, Bool.or_eq_true, Bool.not_eq_true', ← Bool.not_eq_true, hminus', hzero',
    decide_eq_true_eq]
  tauto

/-- An integer conversion with the flag '0' and without '-', for which a star has given a negative
width, and no precision. -/
def Doubled : Prop :=
  s.ch ∉ ascii ['c', 's'] ∧ '0'.toUInt8 ∈ s.flags ∧ '-'.toUInt8 ∉ s.flags ∧ s.width.value < 0 ∧
    s.precisionValue < 0

/-- **The field width** is exact for every conversion, except for those that are padded twice. -/
theorem field_width_exact (word : UInt32) (dword : UInt64) (string : Option CString) (fuel : ℕ) :
    ∃ out out₀, vprintf (fuel + 2) (s.args word dword string) s.format 0 0 = .ok out ∧
      vprintf (fuel + 2) (s.unpadded.args word dword string) s.unpadded.format 0 0 = .ok out₀ ∧
      (out.length = max s.width.value.natAbs out₀.length ↔
        ¬(s.Doubled ∧ out₀.length < s.width.value.natAbs)) := by
  refine ⟨_, _, s.vprintf_spec word dword string fuel, s.unpadded.vprintf_spec word dword string fuel,
    ?_⟩
  have hlt := s.width_lt
  have hgt := s.width_gt
  have hlen := length_printed s.sameOptions_unpadded (show 0 ≤ s.conversion.width ∧ _ from
    ⟨Int.natCast_nonneg _, by change (s.width.value.natAbs : ℤ) < _; omega⟩)
    (show s.unpadded.conversion.width = 0 from rfl) s.ch_valid
    (.constant word dword string) 0
  have hdouble : (s.conversion.flags.minus && s.conversion.flags.zero &&
      decide (s.ch ∉ ascii ['c', 's'])) = true ↔ s.Doubled := by
    rw [Bool.and_eq_true, minus_zero_iff, decide_eq_true_eq, and_comm]
    rfl
  have hwidth : s.conversion.width.toNat = s.width.value.natAbs := rfl
  rw [hwidth] at hlen
  change _ = max _ (printed _ 0 s.unpadded.conversion s.ch).length ↔
    ¬(_ ∧ (printed _ 0 s.unpadded.conversion s.ch).length < _)
  by_cases hd : s.Doubled
  · rw [if_pos (hdouble.mpr hd)] at hlen
    simp only [hd, true_and]
    omega
  · rw [if_neg (mt hdouble.mp hd)] at hlen
    simp only [hd, false_and, not_false_eq_true, iff_true]
    omega

end ConversionSpec

theorem zeroStar_flags : ∀ c ∈ ['0'.toUInt8], isFlag c = true := by decide +kernel

theorem zeroStar_head : (Field.star 4294967292).text.head? ≠ some '0'.toUInt8 := by decide

theorem zeroStar_gt : -2 ^ 31 < (Field.star 4294967292).value := by decide

theorem zeroStar_ch : 'd'.toUInt8 ∈ ascii ['d', 'i', 'o', 'u', 'x', 'X', 'c', 's'] := by decide

theorem valid_of_none : ∀ f ∈ (none : Option Field), f.Valid := fun f hf => absurd hf (Option.not_mem_none f)

/-- "%0*d", with the width -4. -/
def zeroStar : ConversionSpec where
  flags := ['0'.toUInt8]
  width := .star 4294967292
  precision := none
  type := .int
  ch := 'd'.toUInt8
  flags_valid := zeroStar_flags
  width_valid := trivial
  width_head := zeroStar_head
  width_gt := zeroStar_gt
  precision_valid := valid_of_none
  ch_valid := zeroStar_ch

/-- **A number in a field of four, printed in seven characters**: "0007   ". -/
theorem field_width_doubled :
    vprintf 2 (zeroStar.args 7 0 none) zeroStar.format 0 0 =
        .ok (ascii ['0', '0', '0', '7', ' ', ' ', ' ']) ∧
      vprintf 2 (zeroStar.unpadded.args 7 0 none) zeroStar.unpadded.format 0 0 = .ok (ascii ['7']) := by
  exact ⟨rfl, rfl⟩

end Pintos
