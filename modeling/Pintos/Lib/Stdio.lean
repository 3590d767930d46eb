import Pintos.Foundation.Ends
import Pintos.Lib.CString
import Pintos.Kernel.FixedPoint

/-!
# Formatted output

`lib/stdio.c`. `__vprintf` goes through a format string and writes characters; here it returns the
list of them. The format is read through `CString.charAt`, so that a look behind its NUL is an
error. The loops have a fuel.

* `Args` — a `va_list`, for a format of which it is not known what arguments it asks for;
* `parseConversion`, `formatInteger`, `formatString`, `vprintf`, `snprintf` — the functions;
* `Finished` — a format in which every conversion comes to its end.
-/

namespace Pintos

open Total

/-! ### Conversions -/

/-- The arguments of a call. The type of an argument is the one that the format asks for: a 32-bit
word, a 64-bit word, or a string, which may be a null pointer. -/
structure Args where
  word : ℕ → UInt32
  dword : ℕ → UInt64
  string : ℕ → Option CString

/-- `va_arg (args, int)`. -/
def Args.int (args : Args) (k : ℕ) : ℤ := toInt32 (args.word k).toNat

/-- The flags of a conversion. -/
structure Flags where
  minus : Bool
  plus : Bool
  space : Bool
  pound : Bool
  zero : Bool
  group : Bool
  deriving DecidableEq

/-- No flag. -/
def Flags.clear : Flags := ⟨false, false, false, false, false, false⟩

/-- The type of the argument of a conversion. -/
inductive ArgType where
  | char
  | short
  | int
  | intmax
  | long
  | longlong
  | ptrdifft
  | sizet
  deriving DecidableEq

/-- `struct printf_conversion`. -/
structure Conversion where
  flags : Flags
  width : ℤ
  precision : ℤ
  type : ArgType
  deriving DecidableEq

/-- The flag of a character, if it is one. -/
def Flags.set (f : Flags) (c : UInt8) : Option Flags :=
  if c = '-'.toUInt8 then some { f with minus := true }
  else if c = '+'.toUInt8 then some { f with plus := true }
  else if c = ' '.toUInt8 then some { f with space := true }
  else if c = '#'.toUInt8 then some { f with pound := true }
  else if c = '0'.toUInt8 then some { f with zero := true }
  else if c = '\''.toUInt8 then some { f with group := true }
  else none

/-- `isdigit`. -/
def isDigit (c : UInt8) : Bool := '0'.toUInt8 ≤ c && c ≤ '9'.toUInt8

/-- The loop over the flags: the flags, and the place of the first character that is none. -/
def parseFlags (format : CString) : ℕ → ℕ → Flags → Except StringFault (Flags × ℕ)
  | 0, _, _ => .error .fuel
  | fuel + 1, p, f => do
    let c ← format.charAt p
    match f.set c with
    | some f => parseFlags format fuel (p + 1) f
    | none => .ok (f, p)

/-- The loop over the digits of a width or a precision, in 32 bits. -/
def parseDigits (format : CString) : ℕ → ℕ → ℤ → Except StringFault (ℤ × ℕ)
  | 0, _, _ => .error .fuel
  | fuel + 1, p, n => do
    let c ← format.charAt p
    if isDigit c then parseDigits format fuel (p + 1) (toInt32 (n * 10 + c.toNat - 48))
    else .ok (n, p)

/-- A width or a precision: its value, the place behind it, and the number of arguments used. -/
def parseNumber (args : Args) (format : CString) (p k : ℕ) : Except StringFault (ℤ × ℕ × ℕ) := do
  let c ← format.charAt p
  if c = '*'.toUInt8 then .ok (args.int k, p + 1, k + 1)
  else do
    let (n, p) ← parseDigits format (format.chars.length + 1) p 0
    .ok (n, p, k)

/-- The precision, which is -1 if there is none. -/
def parsePrecision (args : Args) (format : CString) (p k : ℕ) :
    Except StringFault (ℤ × ℕ × ℕ) := do
  let c ← format.charAt p
  if c = '.'.toUInt8 then do
    let (n, p, k) ← parseNumber args format (p + 1) k
    .ok (if n < 0 then -1 else n, p, k)
  else .ok (-1, p, k)

/-- The type. -/
def parseType (format : CString) (p : ℕ) : Except StringFault (ArgType × ℕ) := do
  let c ← format.charAt p
  if c = 'h'.toUInt8 then do
    let d ← format.charAt (p + 1)
    if d = 'h'.toUInt8 then .ok (.char, p + 2) else .ok (.short, p + 1)
  else if c = 'j'.toUInt8 then .ok (.intmax, p + 1)
  else if c = 'l'.toUInt8 then do
    let d ← format.charAt (p + 1)
    if d = 'l'.toUInt8 then .ok (.longlong, p + 2) else .ok (.long, p + 1)
  else if c = 't'.toUInt8 then .ok (.ptrdifft, p + 1)
  else if c = 'z'.toUInt8 then .ok (.sizet, p + 1)
  else .ok (.int, p)

/-- `parse_conversion`: the conversion, the place of the character that indicates it, and the number
of arguments used. -/
def parseConversion (args : Args) (format : CString) (p k : ℕ) :
    Except StringFault (Conversion × ℕ × ℕ) := do
  let (f, p) ← parseFlags format (format.chars.length + 1) p Flags.clear
  let f := if f.minus then { f with zero := false } else f
  let f := if f.plus then { f with space := false } else f
  let (width, p, k) ← parseNumber args format p k
  let f := if width < 0 then { f with minus := true } else f
  let width := if width < 0 then toInt32 (-width) else width
  let (precision, p, k) ← parsePrecision args format p k
  let f := if 0 ≤ precision then { f with zero := false } else f
  let (type, p) ← parseType format p
  .ok (⟨f, width, precision, type⟩, p, k)

/-! ### Integers and strings -/

/-- `struct integer_base`. -/
structure IntegerBase where
  base : ℕ
  digits : List UInt8
  x : UInt8
  group : ℕ

/-- The characters of a text. -/
def ascii (cs : List Char) : List UInt8 := cs.map Char.toUInt8

/-- `base_d`. -/
def baseD : IntegerBase := ⟨10, ascii ['0', '1', '2', '3', '4', '5', '6', '7', '8', '9'], 0, 3⟩

/-- `base_o`. -/
def baseO : IntegerBase := ⟨8, ascii ['0', '1', '2', '3', '4', '5', '6', '7'], 0, 3⟩

/-- `base_x`. -/
def baseLowerX : IntegerBase :=
  ⟨16, ascii ['0', '1', '2', '3', '4', '5', '6', '7', '8', '9', 'a', 'b', 'c', 'd', 'e', 'f'],
    'x'.toUInt8, 4⟩

/-- `base_X`. -/
def baseUpperX : IntegerBase :=
  ⟨16, ascii ['0', '1', '2', '3', '4', '5', '6', '7', '8', '9', 'A', 'B', 'C', 'D', 'E', 'F'],
    'X'.toUInt8, 4⟩

/-- The digits of a number, the last one first, as they are put into `buf`. -/
def digitLoop (b : IntegerBase) (group : Bool) : ℕ → ℕ → ℕ → List UInt8
  | 0, _, _ => []
  | fuel + 1, value, digitCnt =>
    if value = 0 then []
    else
      (if group && 0 < digitCnt && digitCnt % b.group = 0 then [','.toUInt8] else []) ++
        b.digits.getD (value % b.base) 0 :: digitLoop b group fuel (value / b.base) (digitCnt + 1)

/-- What `format_integer` has in `buf` when it begins to write. A value has 64 bits, and a digit takes
at least one of them. -/
def integerBuf (value : ℕ) (b : IntegerBase) (c : Conversion) : List UInt8 :=
  let buf := digitLoop b c.flags.group 64 value 0
  let precision := if c.precision < 0 then 1 else c.precision.toNat
  let buf := buf ++ List.replicate (min precision 63 - buf.length) '0'.toUInt8
  if c.flags.pound && b.base = 8 && buf.getLast? ≠ some '0'.toUInt8 then buf ++ ['0'.toUInt8] else buf

/-- The sign character of `format_integer`. -/
def signOf (isSigned negative : Bool) (f : Flags) : List UInt8 :=
  if isSigned then
    if f.plus then [if negative then '-'.toUInt8 else '+'.toUInt8]
    else if f.space then [if negative then '-'.toUInt8 else ' '.toUInt8]
    else if negative then ['-'.toUInt8]
    else []
  else []

/-- `format_integer`. -/
def formatInteger (value : ℕ) (isSigned negative : Bool) (b : IntegerBase) (c : Conversion) :
    List UInt8 :=
  let sign := signOf isSigned negative c.flags
  let x := if c.flags.pound && 0 < value && b.x ≠ 0 then ['0'.toUInt8, b.x] else []
  let buf := integerBuf value b c
  let padCnt := (toInt32 (c.width - buf.length - x.length - sign.length)).toNat
  (if c.flags.minus || c.flags.zero then [] else List.replicate padCnt ' '.toUInt8) ++ sign ++ x ++
    (if c.flags.zero then List.replicate padCnt '0'.toUInt8 else []) ++ buf.reverse ++
    (if c.flags.minus then List.replicate padCnt ' '.toUInt8 else [])

/-- `format_string`. -/
def formatString (string : List UInt8) (c : Conversion) : List UInt8 :=
  let pad := List.replicate (c.width - string.length).toNat ' '.toUInt8
  (if c.flags.minus then [] else pad) ++ string ++ if c.flags.minus then pad else []

/-- The argument of a signed integer conversion. -/
def signedArg (args : Args) (k : ℕ) : ArgType → ℤ
  | .char => (args.int k).bmod (2 ^ 8)
  | .short => (args.int k).bmod (2 ^ 16)
  | .int | .long | .ptrdifft | .sizet => args.int k
  | .intmax | .longlong => toInt64 (args.dword k).toNat

/-- The argument of an unsigned integer conversion. -/
def unsignedArg (args : Args) (k : ℕ) : ArgType → ℕ
  | .char => (args.word k).toNat % 2 ^ 8
  | .short => (args.word k).toNat % 2 ^ 16
  | .int | .long | .ptrdifft | .sizet => (args.word k).toNat
  | .intmax | .longlong => (args.dword k).toNat

/-- The string of a string conversion: a precision of -1 is no limit. -/
def stringArg (args : Args) (k : ℕ) (precision : ℤ) : List UInt8 :=
  let s := (args.string k).elim (ascii ['(', 'n', 'u', 'l', 'l', ')']) CString.chars
  if precision = -1 then s else s.take precision.toNat

/-! ### The loop -/

/-- What the character that indicates a conversion stands for. -/
inductive ConversionKind where
  | signed
  | unsigned (b : IntegerBase)
  | char
  | string
  | pointer
  | unsupported
  | unknown

/-- The cases of the `switch` of `__vprintf`. -/
def conversionKind (c : UInt8) : ConversionKind :=
  if c = 'd'.toUInt8 ∨ c = 'i'.toUInt8 then .signed
  else if c = 'o'.toUInt8 then .unsigned baseO
  else if c = 'u'.toUInt8 then .unsigned baseD
  else if c = 'x'.toUInt8 then .unsigned baseLowerX
  else if c = 'X'.toUInt8 then .unsigned baseUpperX
  else if c = 'c'.toUInt8 then .char
  else if c = 's'.toUInt8 then .string
  else if c = 'p'.toUInt8 then .pointer
  else if c ∈ ascii ['f', 'e', 'E', 'g', 'G', 'n'] then .unsupported
  else .unknown

/-- "<<no %%%c in kernel>>" -/
def noInKernel : List UInt8 :=
  ascii ['<', '<', 'n', 'o', ' ', '%', '%', '%', 'c', ' ', 'i', 'n', ' ', 'k', 'e', 'r', 'n', 'e',
    'l', '>', '>']

/-- "<<no %%%c conversion>>" -/
def noConversion : List UInt8 :=
  ascii ['<', '<', 'n', 'o', ' ', '%', '%', '%', 'c', ' ', 'c', 'o', 'n', 'v', 'e', 'r', 's', 'i',
    'o', 'n', '>', '>']

theorem noInKernel_nonzero : 0 ∉ noInKernel := by decide

theorem noConversion_nonzero : 0 ∉ noConversion := by decide

/-- The arguments of a call with one character. -/
def charArgs (c : UInt8) : Args :=
  ⟨fun _ => c.toUInt32, fun _ => c.toUInt64, fun _ => none⟩

/-- The conversion itself: what is written, and the number of arguments used. `report` is the call of
`__printf` for a conversion that there is not. -/
def doConversion (report : CString → Args → Except StringFault (List UInt8)) (args : Args) (k : ℕ)
    (c : Conversion) (ch : UInt8) : Except StringFault (List UInt8 × ℕ) :=
  match conversionKind ch with
  | .signed =>
    let value := signedArg args k c.type
    .ok (formatInteger value.natAbs true (value < 0) baseD c, k + 1)
  | .unsigned b => .ok (formatInteger (unsignedArg args k c.type) false false b c, k + 1)
  | .char => .ok (formatString [(args.word k).toUInt8] c, k + 1)
  | .string => .ok (formatString (stringArg args k c.precision) c, k + 1)
  | .pointer =>
    let c := { c with flags := { Flags.clear with pound := true } }
    .ok (formatInteger (args.word k).toNat false false baseLowerX c, k + 1)
  | .unsupported => do
    let out ← report ⟨noInKernel, noInKernel_nonzero⟩ (charArgs ch)
    .ok (out, k)
  | .unknown => do
    let out ← report ⟨noConversion, noConversion_nonzero⟩ (charArgs ch)
    .ok (out, k)

/-- `__vprintf`, at place `p` of the format and with `k` arguments used: the characters written. -/
def vprintf : ℕ → Args → CString → ℕ → ℕ → Except StringFault (List UInt8)
  | 0, _, _, _, _ => .error .fuel
  | fuel + 1, args, format, p, k => do
    let c ← format.charAt p
    if c = 0 then .ok []
    else if c ≠ '%'.toUInt8 then do
      let out ← vprintf fuel args format (p + 1) k
      .ok (c :: out)
    else do
      let d ← format.charAt (p + 1)
      if d = '%'.toUInt8 then do
        let out ← vprintf fuel args format (p + 2) k
        .ok ('%'.toUInt8 :: out)
      else do
        let (c, p, k) ← parseConversion args format (p + 1) k
        let ch ← format.charAt p
        let (written, k) ← doConversion (fun f a => vprintf fuel a f 0 0) args k c ch
        let out ← vprintf fuel args format (p + 1) k
        .ok (written ++ out)

/-- `snprintf (dst + dofs, size, format, …)`: what `dst` holds afterwards. -/
def snprintf (fuel : ℕ) (dst : Buffer) (dofs size : ℕ) (format : CString) (args : Args) :
    Except StringFault Buffer := do
  let out ← vprintf fuel args format 0 0
  let n := min out.length (size - 1)
  .ok fun i =>
    if dofs ≤ i ∧ i < dofs + n then out.getD (i - dofs) 0
    else if i = dofs + n ∧ 0 < size then 0
    else dst i

/-! ### Formats that are complete -/

/-- The characters that are flags. -/
def isFlag (c : UInt8) : Bool := c ∈ ascii ['-', '+', ' ', '#', '0', '\'']

/-- What is left after a width or a precision. -/
def skipNumber : List UInt8 → List UInt8
  | [] => []
  | c :: cs => if c = '*'.toUInt8 then cs else (c :: cs).dropWhile isDigit

/-- What is left after the point and the precision, if there is a point. -/
def skipPrecision : List UInt8 → List UInt8
  | [] => []
  | c :: cs => if c = '.'.toUInt8 then skipNumber cs else c :: cs

/-- What is left after a length modifier. -/
def skipType : List UInt8 → List UInt8
  | [] => []
  | c :: cs =>
    if c = 'h'.toUInt8 ∨ c = 'l'.toUInt8 then if cs.head? = some c then cs.tail else cs
    else if c = 'j'.toUInt8 ∨ c = 't'.toUInt8 ∨ c = 'z'.toUInt8 then cs
    else c :: cs

/-- What is left after the flags, the width, the precision and the length modifier of a conversion,
each as long as it can be. -/
def afterOptions (cs : List UInt8) : List UInt8 :=
  skipType (skipPrecision (skipNumber (cs.dropWhile isFlag)))

/-- **Every conversion comes to its end**: its options are followed by a character, be it one that
indicates a conversion or not. -/
inductive Finished : List UInt8 → Prop
  | nil : Finished []
  | char {c : UInt8} {cs : List UInt8} (ordinary : c ≠ '%'.toUInt8) (rest : Finished cs) :
      Finished (c :: cs)
  | percent {cs : List UInt8} (rest : Finished cs) :
      Finished ('%'.toUInt8 :: '%'.toUInt8 :: cs)
  | conversion {cs cs' : List UInt8} {c : UInt8} (first : cs.head? ≠ some '%'.toUInt8)
      (options : afterOptions cs = c :: cs') (rest : Finished cs') : Finished ('%'.toUInt8 :: cs)

/-! ### Where the parsing of a conversion ends -/

section Parsing

variable {format : CString} {p : ℕ} {cs : List UInt8}

theorem Flags.set_eq_none {f : Flags} {c : UInt8} : f.set c = none ↔ isFlag c = false := by
  unfold Flags.set isFlag ascii
  split_ifs <;> simp_all

theorem parseFlags_ok {fuel : ℕ} (f : Flags) (h : format.At p cs)
    (hfuel : format.chars.length < p + fuel) :
    ∃ f' q, parseFlags format fuel p f = .ok (f', q) ∧ format.At q (cs.dropWhile isFlag) := by
  induction fuel generalizing p cs f with
  | zero => exact absurd h.le (by omega)
  | succ fuel ih =>
    cases cs with
    | nil =>
      refine ⟨f, p, ?_, h⟩
      rw [parseFlags, h.charAt_nil]
      rfl
    | cons c cs =>
      simp only [parseFlags, h.charAt_cons, bind, Except.bind]
      cases hset : f.set c with
      | none =>
        rw [List.dropWhile_cons_of_neg (by simpa using Flags.set_eq_none.mp hset)]
        exact ⟨f, p, rfl, h⟩
      | some f' =>
        have hflag : isFlag c = true := by
          rw [← Bool.not_eq_false, ← Flags.set_eq_none (f := f), hset]
          exact Option.some_ne_none f'
        rw [List.dropWhile_cons_of_pos hflag]
        exact ih f' h.next (by omega)

theorem parseDigits_ok {fuel : ℕ} (n : ℤ) (h : format.At p cs)
    (hfuel : format.chars.length < p + fuel) :
    ∃ n' q, parseDigits format fuel p n = .ok (n', q) ∧ format.At q (cs.dropWhile isDigit) := by
  induction fuel generalizing p cs n with
  | zero => exact absurd h.le (by omega)
  | succ fuel ih =>
    cases cs with
    | nil =>
      refine ⟨n, p, ?_, h⟩
      rw [parseDigits, h.charAt_nil]
      rfl
    | cons c cs =>
      simp only [parseDigits, h.charAt_cons, bind, Except.bind]
      by_cases hdigit : isDigit c = true
      · rw [if_pos hdigit, List.dropWhile_cons_of_pos hdigit]
        exact ih _ h.next (by omega)
      · rw [if_neg hdigit, List.dropWhile_cons_of_neg hdigit]
        exact ⟨n, p, rfl, h⟩

theorem parseNumber_ok (args : Args) (k : ℕ) (h : format.At p cs) :
    ∃ n q k', parseNumber args format p k = .ok (n, q, k') ∧ format.At q (skipNumber cs) := by
  have hdigits : ∀ c, format.charAt p = .ok c → c ≠ '*'.toUInt8 →
      ∃ n q k', parseNumber args format p k = .ok (n, q, k') ∧
        format.At q (cs.dropWhile isDigit) := by
    intro c hc hne
    obtain ⟨n, q, hn, hq⟩ := parseDigits_ok 0 h (Nat.lt_add_left p (Nat.lt_succ_self _))
    refine ⟨n, q, k, ?_, hq⟩
    simp only [parseNumber, hc, hne, hn, bind, Except.bind, if_false]
  cases cs with
  | nil => exact hdigits 0 h.charAt_nil (by decide)
  | cons c cs =>
    rw [skipNumber]
    by_cases hstar : c = '*'.toUInt8
    · refine ⟨args.int k, p + 1, k + 1, ?_, if_pos hstar ▸ h.next⟩
      simp only [parseNumber, h.charAt_cons, hstar, bind, Except.bind, if_true]
    · rw [if_neg hstar]
      exact hdigits c h.charAt_cons hstar

theorem parsePrecision_ok (args : Args) (k : ℕ) (h : format.At p cs) :
    ∃ n q k', parsePrecision args format p k = .ok (n, q, k') ∧
      format.At q (skipPrecision cs) := by
  cases cs with
  | nil =>
    refine ⟨-1, p, k, ?_, h⟩
    rw [parsePrecision, h.charAt_nil]
    rfl
  | cons c cs =>
    rw [skipPrecision]
    by_cases hpoint : c = '.'.toUInt8
    · obtain ⟨n, q, k', hn, hq⟩ := parseNumber_ok args k h.next
      refine ⟨if n < 0 then -1 else n, q, k', ?_, if_pos hpoint ▸ hq⟩
      simp only [parsePrecision, h.charAt_cons, hpoint, hn, bind, Except.bind, if_true]
    · refine ⟨-1, p, k, ?_, if_neg hpoint ▸ h⟩
      simp only [parsePrecision, h.charAt_cons, hpoint, bind, Except.bind, if_false]

/-- A modifier that may be doubled. -/
theorem parseType_double {c : UInt8} (single double : ArgType) (h : format.At p (c :: cs)) :
    ∃ type q, (do
        let d ← format.charAt (p + 1)
        if d = c then .ok (double, p + 2) else .ok (single, p + 1)) = Except.ok (type, q) ∧
      format.At q (if cs.head? = some c then cs.tail else cs) := by
  cases cs with
  | nil =>
    refine ⟨single, p + 1, ?_, h.next⟩
    have hne : (0 : UInt8) ≠ c := h.ne_zero.symm
    simp only [h.next.charAt_nil, bind, Except.bind, hne, if_false]
  | cons d cs =>
    simp only [h.next.charAt_cons, bind, Except.bind, List.head?_cons, Option.some.injEq,
      List.tail_cons]
    by_cases hd : d = c
    · rw [if_pos hd, if_pos hd]
      exact ⟨double, p + 2, rfl, h.next.next⟩
    · rw [if_neg hd, if_neg hd]
      exact ⟨single, p + 1, rfl, h.next⟩

theorem parseType_ok (h : format.At p cs) :
    ∃ type q, parseType format p = .ok (type, q) ∧ format.At q (skipType cs) := by
  cases cs with
  | nil =>
    refine ⟨.int, p, ?_, h⟩
    rw [parseType, h.charAt_nil]
    rfl
  | cons c cs =>
    rw [parseType, h.charAt_cons, skipType]
    simp only [bind, Except.bind]
    by_cases hh : c = 'h'.toUInt8
    · rw [if_pos hh, if_pos (.inl hh)]
      subst hh
      exact parseType_double .short .char h
    by_cases hj : c = 'j'.toUInt8
    · subst hj
      exact ⟨.intmax, p + 1, rfl, h.next⟩
    by_cases hl : c = 'l'.toUInt8
    · rw [if_neg hh, if_neg hj, if_pos hl, if_pos (.inr hl)]
      subst hl
      exact parseType_double .long .longlong h
    by_cases ht : c = 't'.toUInt8
    · subst ht
      exact ⟨.ptrdifft, p + 1, rfl, h.next⟩
    by_cases hz : c = 'z'.toUInt8
    · subst hz
      exact ⟨.sizet, p + 1, rfl, h.next⟩
    · refine ⟨.int, p, ?_, ?_⟩
      · rw [if_neg hh, if_neg hj, if_neg hl, if_neg ht, if_neg hz]
      · rw [if_neg (by simp [hh, hl]), if_neg (by simp [hj, ht, hz])]
        exact h

/-- **`parse_conversion` stops at the character behind the options**, or at the NUL. -/
theorem parseConversion_ok (args : Args) (k : ℕ) (h : format.At p cs) :
    ∃ c q k', parseConversion args format p k = .ok (c, q, k') ∧
      format.At q (afterOptions cs) := by
  obtain ⟨f, p₁, hf, h₁⟩ := parseFlags_ok .clear h (Nat.lt_add_left p (Nat.lt_succ_self _))
  obtain ⟨width, p₂, k₂, hw, h₂⟩ := parseNumber_ok args k h₁
  obtain ⟨precision, p₃, k₃, hp, h₃⟩ := parsePrecision_ok args k₂ h₂
  obtain ⟨type, q, ht, hq⟩ := parseType_ok h₃
  simp only [parseConversion, hf, hw, hp, ht, bind, Except.bind]
  exact ⟨_, q, k₃, rfl, hq⟩

end Parsing

/-! ### Where the loop looks -/

section Loop

variable {format : CString} {p k fuel : ℕ} {cs : List UInt8} {args : Args}

/-- The call for a conversion that there is not has rounds enough. -/
theorem doConversion_ok (args : Args) (k : ℕ) (c : Conversion) (ch : UInt8) (hfuel : 30 ≤ fuel) :
    ∃ out k', doConversion (fun f a => vprintf fuel a f 0 0) args k c ch = .ok (out, k') := by
  obtain ⟨fuel, rfl⟩ := Nat.exists_eq_add_of_le' hfuel
  unfold doConversion
  cases conversionKind ch with
  | signed => exact ⟨_, _, rfl⟩
  | unsigned b => exact ⟨_, _, rfl⟩
  | char => exact ⟨_, _, rfl⟩
  | string => exact ⟨_, _, rfl⟩
  | pointer => exact ⟨_, _, rfl⟩
  | unsupported => exact ⟨_, _, rfl⟩
  | unknown => exact ⟨_, _, rfl⟩

theorem vprintf_nil (h : format.At p []) : vprintf (fuel + 1) args format p k = .ok [] := by
  rw [vprintf, h.charAt_nil]
  rfl

theorem vprintf_char {c : UInt8} (h : format.At p (c :: cs)) (hc : c ≠ '%'.toUInt8) :
    vprintf (fuel + 1) args format p k = (do
      let out ← vprintf fuel args format (p + 1) k
      .ok (c :: out)) := by
  rw [vprintf, h.charAt_cons]
  simp only [bind, Except.bind, h.ne_zero, hc, if_false, ne_eq, not_false_eq_true, if_true]

theorem vprintf_percent (h : format.At p ('%'.toUInt8 :: '%'.toUInt8 :: cs)) :
    vprintf (fuel + 1) args format p k = (do
      let out ← vprintf fuel args format (p + 2) k
      .ok ('%'.toUInt8 :: out)) := by
  rw [vprintf, h.charAt_cons]
  simp only [bind, Except.bind, h.ne_zero, h.next.charAt_cons, if_false, ne_eq, not_true_eq_false,
    if_true]

/-- A conversion: what is left afterwards begins behind the character that indicates it. -/
theorem vprintf_conversion (args : Args) (k fuel : ℕ) (h : format.At p ('%'.toUInt8 :: cs))
    (hfirst : cs.head? ≠ some '%'.toUInt8) : ∃ c q k', format.At q (afterOptions cs) ∧
      vprintf (fuel + 1) args format p k = (do
        let ch ← format.charAt q
        let r ← doConversion (fun f a => vprintf fuel a f 0 0) args k' c ch
        let out ← vprintf fuel args format (q + 1) r.2
        .ok (r.1 ++ out)) := by
  obtain ⟨c, q, k', hc, hq⟩ := parseConversion_ok args k h.next
  refine ⟨c, q, k', hq, ?_⟩
  have hnext : ∃ d, format.charAt (p + 1) = .ok d ∧ d ≠ '%'.toUInt8 := by
    cases cs with
    | nil => exact ⟨0, h.next.charAt_nil, by decide⟩
    | cons d cs => exact ⟨d, h.next.charAt_cons, fun hd => hfirst (congrArg some hd)⟩
  obtain ⟨d, hd, hne⟩ := hnext
  rw [vprintf, h.charAt_cons]
  simp only [bind, Except.bind, h.ne_zero, hd, hne, hc, if_false, ne_eq, not_true_eq_false]

/-- **A format that is complete is printed**, and only its own characters are looked at. -/
theorem Finished.vprintf_ok (hcs : Finished cs) (args : Args) : ∃ n, ∀ fuel p k, n ≤ fuel →
    format.At p cs → ∃ out, vprintf fuel args format p k = .ok out := by
  induction hcs with
  | nil =>
    refine ⟨1, fun fuel p k hfuel h => ?_⟩
    obtain ⟨fuel, rfl⟩ := Nat.exists_eq_add_of_le' hfuel
    exact ⟨[], vprintf_nil h⟩
  | char hc _ ih =>
    obtain ⟨n, ih⟩ := ih
    refine ⟨n + 1, fun fuel p k hfuel h => ?_⟩
    obtain ⟨fuel, rfl⟩ := Nat.exists_eq_add_of_le' (Nat.le_of_add_left_le hfuel)
    obtain ⟨out, hout⟩ := ih fuel (p + 1) k (by omega) h.next
    rw [vprintf_char h hc, hout]
    exact ⟨_, rfl⟩
  | percent _ ih =>
    obtain ⟨n, ih⟩ := ih
    refine ⟨n + 1, fun fuel p k hfuel h => ?_⟩
    obtain ⟨fuel, rfl⟩ := Nat.exists_eq_add_of_le' (Nat.le_of_add_left_le hfuel)
    obtain ⟨out, hout⟩ := ih fuel (p + 2) k (by omega) h.next.next
    rw [vprintf_percent h, hout]
    exact ⟨_, rfl⟩
  | @conversion cs cs' ch hfirst hopt _ ih =>
    obtain ⟨n, ih⟩ := ih
    -- rounds for what is left, and for the call in `doConversion`
    refine ⟨max n 30 + 1, fun fuel p k hfuel h => ?_⟩
    obtain ⟨fuel, rfl⟩ := Nat.exists_eq_add_of_le' (Nat.le_of_add_left_le hfuel)
    obtain ⟨c, q, k', hq, heq⟩ := vprintf_conversion args k fuel h hfirst
    rw [hopt] at hq
    obtain ⟨written, k'', hconv⟩ := doConversion_ok args k' c ch (show 30 ≤ fuel by omega)
    obtain ⟨out, hout⟩ := ih fuel (q + 1) k'' (by omega) hq.next
    rw [heq, hq.charAt_cons]
    simp only [bind, Except.bind, hconv, hout]
    exact ⟨_, rfl⟩

/-- **A format that is printed is complete**: after a conversion that the NUL cuts off, the loop goes
on behind the NUL. -/
theorem vprintf_yields_finished (h : format.At p cs) :
    Yields (vprintf fuel args format p k) fun _ => Finished cs := by
  induction fuel generalizing p k cs with
  | zero => exact .error StringFault.fuel
  | succ fuel ih =>
    cases cs with
    | nil => exact fun _ _ => .nil
    | cons c cs =>
      by_cases hc : c = '%'.toUInt8
      · subst hc
        by_cases hfirst : cs.head? = some '%'.toUInt8
        · obtain ⟨cs, rfl⟩ := List.head?_eq_some_iff.mp hfirst
          rw [vprintf_percent h]
          exact (ih h.next.next).bind fun _ hrest => .ok (.percent hrest)
        · obtain ⟨c, q, k', hq, heq⟩ := vprintf_conversion args k fuel h hfirst
          rw [heq]
          cases hopt : afterOptions cs with
          | nil =>
            rw [hopt] at hq
            have hpast : ∀ k, Yields (vprintf fuel args format (q + 1) k) fun _ => False := by
              intro k
              cases fuel with
              | zero => exact .error StringFault.fuel
              | succ fuel =>
                rw [vprintf, hq.charAt_past]
                exact .error StringFault.pastNul
            refine .step hq.charAt_nil ?_
            refine Yields.bind (P := fun _ => True) (fun _ _ => trivial) fun r _ => ?_
            exact (hpast r.2).bind fun _ hfalse => hfalse.elim
          | cons ch cs' =>
            rw [hopt] at hq
            refine .step hq.charAt_cons ?_
            refine Yields.bind (P := fun _ => True) (fun _ _ => trivial) fun r _ => ?_
            exact (ih hq.next).bind fun _ hrest => .ok (.conversion hfirst hopt hrest)
      · rw [vprintf_char h hc]
        exact (ih h.next).bind fun _ hrest => .ok (.char hc hrest)

/-- **`printf` never looks behind the NUL of its format**, and ends, iff every conversion of the
format comes to its end before the NUL. -/
theorem printf_stays_in_format (format : CString) (args : Args) :
    (∃ fuel out, vprintf fuel args format 0 0 = .ok out) ↔ Finished format.chars := by
  constructor
  · rintro ⟨fuel, out, hout⟩
    exact vprintf_yields_finished (.start format) out hout
  · intro h
    obtain ⟨n, hn⟩ := h.vprintf_ok args
    obtain ⟨out, hout⟩ := hn n 0 0 le_rfl (.start format)
    exact ⟨n, out, hout⟩

theorem percent_nonzero : 0 ∉ ['%'.toUInt8] := by decide

/-- The format is a percent sign: it is printed as a conversion, and the loop goes on behind the
NUL. -/
theorem printf_looks_past_nul :
    vprintf 32 (charArgs 0) ⟨['%'.toUInt8], percent_nonzero⟩ 0 0 = .error .pastNul := rfl

end Loop

end Pintos
