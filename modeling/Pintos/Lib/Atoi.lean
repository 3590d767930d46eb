import Pintos.Lib.FieldWidth

/-!
# Numbers in text

`atoi` of `lib/stdlib.c`, and that it undoes "%d". The function reads a string in memory: white space, a
sign, digits. It takes the number as negative while it reads the digits, since there is one negative
`int` more than there are positive ones. An `int` expression that overflows is an error here.

* `Buffer.StringAt` — a string in memory, by its characters;
* `skipSpaces_stringAt`, `atoiDigits_stringAt` — the two loops, over any text;
* `printed_signed_text` — what "%d" prints: blanks, a sign, digits, blanks;
* `atoi_snprintf` — the one after the other.
-/

namespace Pintos

open List

/-! ### The function -/

/-- What goes wrong: a signed overflow, or a loop that is cut off. -/
inductive AtoiFault where
  | overflow
  | fuel
  deriving DecidableEq, Repr

/-- The value of an `int` expression. -/
def checkedInt (x : ℤ) : Except AtoiFault ℤ := (int32? x).elim (.error .overflow) .ok

/-- `isspace`. -/
def isSpace (c : UInt8) : Bool :=
  c = ' '.toUInt8 || c = '\x0c'.toUInt8 || c = '\n'.toUInt8 || c = '\r'.toUInt8 || c = '\t'.toUInt8 ||
    c = '\x0b'.toUInt8

/-- The loop over the white space: the place behind it. -/
def skipSpaces (s : Buffer) : ℕ → ℕ → Except AtoiFault ℕ
  | 0, _ => .error .fuel
  | fuel + 1, p => if isSpace (s p) then skipSpaces s fuel (p + 1) else .ok p

/-- The sign: whether it is negative, and the place behind it. -/
def parseSign (s : Buffer) (p : ℕ) : Bool × ℕ :=
  if s p = '+'.toUInt8 then (false, p + 1)
  else if s p = '-'.toUInt8 then (true, p + 1)
  else (false, p)

/-- The loop over the digits. -/
def atoiDigits (s : Buffer) : ℕ → ℕ → ℤ → Except AtoiFault ℤ
  | 0, _, _ => .error .fuel
  | fuel + 1, p, value =>
    if isDigit (s p) then do
      let tens ← checkedInt (value * 10)
      let value ← checkedInt (tens - ((s p).toNat - 48))
      atoiDigits s fuel (p + 1) value
    else .ok value

/-- `atoi (s + p)`. -/
def atoi (fuel : ℕ) (s : Buffer) (p : ℕ) : Except AtoiFault ℤ := do
  let p ← skipSpaces s fuel p
  let value ← atoiDigits s fuel (parseSign s p).2 0
  if (parseSign s p).1 then .ok value else checkedInt (-value)

theorem checkedInt_of_fits {x : ℤ} (hlo : -2 ^ 31 ≤ x) (hhi : x < 2 ^ 31) : checkedInt x = .ok x := by
  unfold checkedInt
  rw [int32?_of_fits hlo hhi]
  rfl

/-! ### Strings in memory -/

/-- **The string at `b + p`** has the characters `cs`, followed by a NUL. -/
structure Buffer.StringAt (b : Buffer) (p : ℕ) (cs : List UInt8) : Prop where
  char : ∀ i < cs.length, b (p + i) = cs.getD i 0
  nul : b (p + cs.length) = 0

namespace Buffer.StringAt

variable {b : Buffer} {p : ℕ} {c : UInt8} {cs : List UInt8}

theorem head (h : Buffer.StringAt b p (c :: cs)) : b p = c := h.char 0 (Nat.succ_pos _)

theorem next (h : Buffer.StringAt b p (c :: cs)) : Buffer.StringAt b (p + 1) cs := by
  refine ⟨fun i hi => ?_, ?_⟩
  · rw [Nat.add_assoc, Nat.add_comm 1, h.char (i + 1) (Nat.succ_lt_succ hi)]
    rfl
  · rw [Nat.add_assoc, Nat.add_comm 1]
    exact h.nul

/-- The character at the pointer. -/
theorem headD (h : Buffer.StringAt b p cs) : b p = cs.headD 0 := by
  cases cs with
  | nil => exact h.nul
  | cons c cs => exact h.head

theorem drop {xs ys : List UInt8} (h : Buffer.StringAt b p (xs ++ ys)) :
    Buffer.StringAt b (p + xs.length) ys := by
  induction xs generalizing p with
  | nil => exact h
  | cons x xs ih =>
    rw [length_cons, Nat.add_comm xs.length, ← Nat.add_assoc]
    exact ih h.next

end Buffer.StringAt

section Loops

variable {s : Buffer} {p fuel : ℕ} {cs : List UInt8}

/-- The white space is skipped. -/
theorem skipSpaces_stringAt {xs : List UInt8} (hxs : ∀ c ∈ xs, isSpace c = true)
    (hcs : isSpace (cs.headD 0) = false) (hfuel : xs.length < fuel)
    (h : Buffer.StringAt s p (xs ++ cs)) : skipSpaces s fuel p = .ok (p + xs.length) := by
  induction xs generalizing fuel p with
  | nil =>
    obtain ⟨fuel, rfl⟩ := Nat.exists_eq_add_one.mpr hfuel
    rw [skipSpaces, h.headD, nil_append, hcs]
    rfl
  | cons x xs ih =>
    obtain ⟨fuel, rfl⟩ := Nat.exists_eq_add_one.mpr (Nat.zero_lt_of_lt hfuel)
    obtain ⟨hx, hxs⟩ := forall_mem_cons.mp hxs
    rw [skipSpaces, h.head, hx, if_pos rfl, ih hxs (Nat.lt_of_succ_lt_succ hfuel) h.next,
      length_cons, Nat.add_assoc, Nat.add_comm 1]

/-- **The digits are read** if their number is at most 2³¹; no intermediate value is larger. -/
theorem atoiDigits_stringAt {ds : List UInt8} {n : ℤ} (hn : 0 ≤ n)
    (hds : ∀ d ∈ ds, isDigit d = true) (hfits : decimal n ds ≤ 2 ^ 31)
    (hcs : isDigit (cs.headD 0) = false) (hfuel : ds.length < fuel)
    (h : Buffer.StringAt s p (ds ++ cs)) : atoiDigits s fuel p (-n) = .ok (-decimal n ds) := by
  induction ds generalizing fuel p n with
  | nil =>
    obtain ⟨fuel, rfl⟩ := Nat.exists_eq_add_one.mpr hfuel
    rw [atoiDigits, h.headD, nil_append, hcs]
    rfl
  | cons d ds ih =>
    obtain ⟨fuel, rfl⟩ := Nat.exists_eq_add_one.mpr (Nat.zero_lt_of_lt hfuel)
    obtain ⟨hd, hds⟩ := forall_mem_cons.mp hds
    have hdigit := toNat_of_isDigit hd
    have hnext : decimal n (d :: ds) = decimal (n * 10 + d.toNat - 48) ds := rfl
    -- the number that all the digits stand for is the largest one on the way
    have hle : n * 10 + d.toNat - 48 ≤ decimal (n * 10 + d.toNat - 48) ds :=
      le_decimal (by omega) hds
    rw [hnext] at hfits ⊢
    have hround : -n * 10 - ((d.toNat : ℤ) - 48) = -(n * 10 + d.toNat - 48) := by ring
    rw [atoiDigits, h.head, if_pos hd, checkedInt_of_fits (by omega) (by omega)]
    simp only [bind, Except.bind]
    rw [hround, checkedInt_of_fits (by omega) (by omega)]
    exact ih (by omega) hds hfits (Nat.lt_of_succ_lt_succ hfuel) h.next

end Loops

/-! ### Digits -/

theorem decimal_append (n : ℤ) (xs ys : List UInt8) :
    decimal n (xs ++ ys) = decimal (decimal n xs) ys := foldl_append

theorem decimal_zeros (k : ℕ) : decimal 0 (List.replicate k '0'.toUInt8) = 0 := by
  induction k with
  | zero => rfl
  | succ k ih => exact ih

/-- The digit `d` of base 10. -/
theorem toNat_digit {d : ℕ} (hd : d < 10) : (baseD.digits.getD d 0).toNat = d + 48 := by
  have hall : ∀ d < 10, (baseD.digits.getD d 0).toNat = d + 48 := by decide
  exact hall d hd

/-- **The number that a numeral stands for.** -/
theorem decimal_numeral (v : ℕ) : decimal 0 (numeral baseD v).reverse = v := by
  have hlist : ∀ ds : List ℕ, (∀ d ∈ ds, d < 10) →
      decimal 0 (ds.map fun d => baseD.digits.getD d 0).reverse = (Nat.ofDigits 10 ds : ℕ) := by
    intro ds hds
    induction ds with
    | nil => rfl
    | cons d ds ih =>
      obtain ⟨hd, hds⟩ := forall_mem_cons.mp hds
      have hlast : ∀ n : ℤ, decimal n [baseD.digits.getD d 0] = n * 10 + d := by
        intro n
        change n * 10 + ((baseD.digits.getD d 0).toNat : ℤ) - 48 = _
        rw [toNat_digit hd]
        push_cast
        ring
      rw [map_cons, reverse_cons, decimal_append, ih hds, hlast, Nat.ofDigits_cons]
      push_cast
      ring
  have hdigits := hlist (Nat.digits 10 v) fun d hd => Nat.digits_lt_base (by decide) hd
  rw [Nat.ofDigits_digits] at hdigits
  exact hdigits

theorem isDigit_of_mem {c : UInt8} (hc : c ∈ baseD.digits) : isDigit c = true := by
  have hall : ∀ c ∈ baseD.digits, isDigit c = true := by decide +kernel
  exact hall c hc

/-- A digit is no white space. -/
theorem isSpace_of_isDigit {c : UInt8} (hc : isDigit c = true) : isSpace c = false := by
  unfold isSpace
  simp only [Bool.or_eq_false_iff, decide_eq_false_iff_not]
  refine ⟨⟨⟨⟨⟨?_, ?_⟩, ?_⟩, ?_⟩, ?_⟩, ?_⟩ <;> rintro rfl <;> exact absurd hc (by decide)

/-! ### What "%d" prints -/

/-- Without the flag for groups, what is in the buffer is zeros and the numeral. -/
theorem reverse_integerBuf_plain {b : IntegerBase} (hb : b.Proper) {value : ℕ} (hv : value < 2 ^ 64)
    {c : Conversion} (hgroup : c.flags.group = false) :
    (integerBuf value b c).reverse =
      List.replicate (precisionZeros value b c + octalZero value b c) '0'.toUInt8 ++
        (numeral b value).reverse := by
  rw [integerBuf_eq, hgroup, digitLoop_plain hb 0 hv, reverse_append, reverse_replicate]

/-- Without a precision there is a digit. -/
theorem integerBuf_ne_nil {value : ℕ} {b : IntegerBase} {c : Conversion} (hprec : c.precision < 0) :
    integerBuf value b c ≠ [] := by
  intro hnil
  have hlen := congrArg List.length hnil
  rw [integerBuf_eq, length_append, length_replicate, length_nil] at hlen
  unfold precisionZeros at hlen
  rw [if_pos hprec] at hlen
  omega

/-- **What "%d" prints**: blanks, a sign, digits that stand for the absolute value, blanks. -/
theorem formatInteger_text {value : ℕ} (hv : value < 2 ^ 64) (negative : Bool) {c : Conversion}
    (hw : 0 ≤ c.width ∧ c.width < 2 ^ 31) (hgroup : c.flags.group = false)
    (hprec : c.precision < 0) : ∃ l ds r,
      formatInteger value true negative baseD c = List.replicate l ' '.toUInt8 ++
        (signOf true negative c.flags ++ (ds ++ List.replicate r ' '.toUInt8)) ∧
      ds ≠ [] ∧ (∀ d ∈ ds, isDigit d = true) ∧ decimal 0 ds = value := by
  have hb : baseD.Proper := proper_of_mem mem_cons_self
  have hx : integerX value baseD c = [] := if_neg (by simp [baseD])
  have hbuf := reverse_integerBuf_plain hb hv hgroup
  refine ⟨if c.flags.minus || c.flags.zero then 0 else padCount value true negative baseD c,
    List.replicate (if c.flags.zero then padCount value true negative baseD c else 0) '0'.toUInt8 ++
      (integerBuf value baseD c).reverse,
    if c.flags.minus then padCount value true negative baseD c else 0, ?_, ?_, ?_, ?_⟩
  · rw [formatInteger_eq hb hv hw, hx]
    simp only [append_assoc, append_nil]
  · intro hnil
    exact integerBuf_ne_nil hprec (reverse_eq_nil_iff.mp (append_eq_nil_iff.mp hnil).2)
  · intro d hd
    refine isDigit_of_mem ?_
    rw [hbuf, mem_append, mem_append, mem_reverse] at hd
    rcases hd with hd | hd | hd
    · rw [eq_of_mem_replicate hd]
      exact hb.zero_mem
    · rw [eq_of_mem_replicate hd]
      exact hb.zero_mem
    · exact mem_numeral hb hd
  · rw [hbuf, ← append_assoc, replicate_append_replicate, decimal_append, decimal_zeros,
      decimal_numeral]

section Reading

variable {s : Buffer} {p q q' fuel l r : ℕ} {ds : List UInt8} {negative : Bool}

/-- **`atoi`**, from the place where the digits begin. -/
theorem atoi_of_sign (hskip : skipSpaces s fuel p = .ok q) (hsign : parseSign s q = (negative, q'))
    (h : Buffer.StringAt s q' (ds ++ List.replicate r ' '.toUInt8))
    (hds : ∀ d ∈ ds, isDigit d = true) (hlow : decimal 0 ds ≤ 2 ^ 31)
    (hhigh : negative = false → decimal 0 ds < 2 ^ 31) (hfuel : ds.length < fuel) :
    atoi fuel s p = .ok (if negative then -decimal 0 ds else decimal 0 ds) := by
  have hblank : isDigit ((List.replicate r ' '.toUInt8).headD 0) = false := by
    cases r <;> rfl
  have hpos : 0 ≤ decimal 0 ds := le_decimal le_rfl hds
  have hdigits : atoiDigits s fuel q' 0 = .ok (-decimal 0 ds) :=
    atoiDigits_stringAt le_rfl hds hlow hblank hfuel h
  unfold atoi
  simp only [bind, Except.bind, hskip, hsign, hdigits]
  cases negative with
  | true => rfl
  | false =>
    have := hhigh rfl
    rw [neg_neg]
    exact checkedInt_of_fits (by omega) this

/-- **A number is read from its text**, the least `int` too. -/
theorem atoi_text {f : Flags} (hne : ds ≠ []) (hds : ∀ d ∈ ds, isDigit d = true)
    (hlow : decimal 0 ds ≤ 2 ^ 31) (hhigh : negative = false → decimal 0 ds < 2 ^ 31)
    (h : Buffer.StringAt s p (List.replicate l ' '.toUInt8 ++
      (signOf true negative f ++ (ds ++ List.replicate r ' '.toUInt8))))
    (hfuel : l + ((signOf true negative f).length + (ds.length + r)) < fuel) :
    atoi fuel s p = .ok (if negative then -decimal 0 ds else decimal 0 ds) := by
  obtain ⟨d, ds', rfl⟩ := exists_cons_of_ne_nil hne
  have hd := hds d mem_cons_self
  have hblanks : ∀ n, ∀ c ∈ List.replicate n ' '.toUInt8, isSpace c = true := by
    intro n c hc
    rw [eq_of_mem_replicate hc]
    rfl
  have hspace : isSpace d = false := isSpace_of_isDigit hd
  have hfuel' : (d :: ds').length < fuel := by omega
  have hskip : ∀ {n : ℕ} {c : UInt8} {cs : List UInt8}, n < fuel → isSpace c = false →
      Buffer.StringAt s p (List.replicate n ' '.toUInt8 ++ c :: cs) →
      skipSpaces s fuel p = .ok (p + n) := by
    intro n c cs hn hc hstr
    have hhead : isSpace ((c :: cs).headD 0) = false := hc
    have := skipSpaces_stringAt (hblanks n) hhead (by rwa [length_replicate]) hstr
    rwa [length_replicate] at this
  have hplain : ∀ {q : ℕ} {cs : List UInt8}, Buffer.StringAt s q (d :: cs) →
      parseSign s q = (false, q) := by
    intro q cs hstr
    unfold parseSign
    rw [hstr.head, if_neg (by rintro rfl; exact absurd hd (by decide)),
      if_neg (by rintro rfl; exact absurd hd (by decide))]
  have hat := h.drop
  rw [length_replicate] at hat
  rcases signOf_cases true negative f with ⟨hneg, hsign⟩ | ⟨hneg, hsign | hsign | hsign⟩ <;>
    rw [Bool.true_and] at hneg <;> subst hneg <;> rw [hsign] at h hat hfuel
  · have hstart := hskip (by omega) (by decide) h
    refine atoi_of_sign hstart ?_ hat.next hds hlow hhigh hfuel'
    unfold parseSign
    rw [hat.head]
    rfl
  · exact atoi_of_sign (hskip (by omega) hspace h) (hplain hat) hat hds hlow hhigh hfuel'
  · have hstart := hskip (by omega) (by decide) h
    refine atoi_of_sign hstart ?_ hat.next hds hlow hhigh hfuel'
    unfold parseSign
    rw [hat.head]
    rfl
  · -- a blank for a sign is one more blank before the number
    have hstart : skipSpaces s fuel p = .ok (p + (l + 1)) := by
      have hlong : Buffer.StringAt s p (List.replicate (l + 1) ' '.toUInt8 ++
          d :: (ds' ++ List.replicate r ' '.toUInt8)) := by
        rw [replicate_succ', append_assoc]
        exact h
      rw [length_singleton] at hfuel
      exact hskip (by omega) hspace hlong
    exact atoi_of_sign hstart (hplain hat.next) hat.next hds hlow hhigh hfuel'

end Reading

/-! ### The one undoes the other -/

theorem Flags.add_group {f : Flags} {fs : List UInt8} (hfs : '\''.toUInt8 ∉ fs) :
    (f.add fs).group = f.group := by
  induction fs generalizing f with
  | nil => rfl
  | cons c fs ih =>
    have hc : c ≠ '\''.toUInt8 := fun heq => hfs (heq ▸ mem_cons_self)
    have hset : ((f.set c).getD f).group = f.group := by
      unfold Flags.set
      split_ifs <;> rfl
    rw [Flags.add, foldl_cons]
    exact (ih fun hmem => hfs (mem_cons_of_mem _ hmem)).trans hset

/-- The string that `snprintf` leaves in a buffer that is large enough. -/
theorem snprintf_stringAt {fuel : ℕ} {args : Args} {format : CString} {out : List UInt8}
    (hout : vprintf fuel args format 0 0 = .ok out) (dst : Buffer) (dofs : ℕ) {size : ℕ}
    (hsize : out.length < size) :
    ∃ b, snprintf fuel dst dofs size format args = .ok b ∧ Buffer.StringAt b dofs out := by
  have hmin : min out.length (size - 1) = out.length := by omega
  unfold snprintf
  simp only [hout, bind, Except.bind, hmin]
  refine ⟨_, rfl, fun i hi => ?_, ?_⟩
  · rw [if_pos ⟨by omega, by omega⟩, Nat.add_sub_cancel_left]
  · rw [if_neg (by omega), if_pos ⟨rfl, by omega⟩]

/-- The flags '+', ' ', '0' and '-'. -/
def plainFlags : List UInt8 := ascii ['+', ' ', '0', '-']

/-- **`atoi` undoes "%d"**, for every `int`, every list of the flags '+', ' ', '0' and '-' and every width,
written or given by a star: what `snprintf` leaves in a buffer that is large enough is read without an
overflow, and gives the `int` again. -/
theorem atoi_snprintf {f : ConversionSpec} (hflags : ∀ c ∈ f.flags, c ∈ plainFlags)
    (hprec : f.precision = none) (htype : f.type = .int) (hch : f.ch = 'd'.toUInt8) (n : UInt32)
    (dword : UInt64) (string : Option CString) (fuel : ℕ) :
    ∃ out, vprintf (fuel + 2) (f.args n dword string) f.format 0 0 = .ok out ∧
      ∀ (dst : Buffer) (dofs size : ℕ), out.length < size →
        ∃ s, snprintf (fuel + 2) dst dofs size f.format (f.args n dword string) = .ok s ∧
          ∀ fuel', size ≤ fuel' → atoi fuel' s dofs = .ok (toInt32 n.toNat) := by
  have hbounds := toInt32_bounds n.toNat
  generalize hvalue : toInt32 n.toNat = value at hbounds ⊢
  have hgroup : f.conversion.flags.group = false := by
    have hquote : '\''.toUInt8 ∉ f.flags := fun hmem => absurd (hflags _ hmem) (by decide)
    unfold ConversionSpec.conversion
    rw [normalFlags_eq]
    exact Flags.add_group hquote
  have hneg : f.conversion.precision < 0 := by
    change f.precisionValue < 0
    unfold ConversionSpec.precisionValue
    rw [hprec]
    decide
  have hw : 0 ≤ f.conversion.width ∧ f.conversion.width < 2 ^ 31 := by
    have hlt := f.width_lt
    have hgt := f.width_gt
    change (0 : ℤ) ≤ f.width.value.natAbs ∧ (f.width.value.natAbs : ℤ) < 2 ^ 31
    omega
  have hout : printed (.constant n dword string) 0 f.conversion f.ch =
      formatInteger value.natAbs true (value < 0) baseD f.conversion := by
    have harg : signedArg (.constant n dword string) 0 f.conversion.type = value := by
      change signedArg _ 0 f.type = value
      rw [htype]
      exact hvalue
    rw [hch, ← harg]
    rfl
  refine ⟨_, f.vprintf_spec n dword string fuel, fun dst dofs size hsize => ?_⟩
  obtain ⟨s, hs, hstr⟩ := snprintf_stringAt (f.vprintf_spec n dword string fuel) dst dofs hsize
  refine ⟨s, hs, fun fuel' hfuel => ?_⟩
  obtain ⟨l, ds, r, htext, hne, hds, hdecimal⟩ :=
    formatInteger_text (show value.natAbs < 2 ^ 64 by omega) (value < 0) hw hgroup hneg
  rw [hout, htext] at hstr hsize
  simp only [length_append, length_replicate] at hsize
  have hread := atoi_text hne hds (by omega) (fun hpos => ?_) hstr
    (show _ < fuel' by omega)
  · rw [hread, hdecimal]
    by_cases hlt : value < 0
    · rw [if_pos (decide_eq_true hlt)]
      exact congrArg _ (by omega)
    · rw [if_neg (by simpa using hlt)]
      exact congrArg _ (by omega)
  · have := of_decide_eq_false hpos
    omega

theorem plusZero_flags : ∀ c ∈ ascii ['+', '0'], isFlag c = true := by decide +kernel

theorem plusZero_width : (Field.digits (ascii ['1', '4'])).Valid := by
  exact ⟨by decide +kernel, by decide⟩

theorem plusZero_head : (Field.digits (ascii ['1', '4'])).text.head? ≠ some '0'.toUInt8 := by decide

theorem plusZero_gt : -2 ^ 31 < (Field.digits (ascii ['1', '4'])).value := by decide

/-- "%+014d" -/
def plusZero : ConversionSpec where
  flags := ascii ['+', '0']
  width := .digits (ascii ['1', '4'])
  precision := none
  type := .int
  ch := 'd'.toUInt8
  flags_valid := plusZero_flags
  width_valid := plusZero_width
  width_head := plusZero_head
  width_gt := plusZero_gt
  precision_valid := valid_of_none
  ch_valid := zeroStar_ch

/-- The least `int` is printed as "-0002147483648" and read again. -/
theorem atoi_snprintf_least :
    ∃ s, snprintf 2 (fun _ => 0) 0 64 plusZero.format (plusZero.args 2147483648 0 none) = .ok s ∧
      atoi 64 s 0 = .ok (-2147483648) := by
  obtain ⟨out, hout, hall⟩ := atoi_snprintf (f := plusZero) (by decide +kernel) rfl rfl rfl
    2147483648 0 none 0
  rw [plusZero.vprintf_spec] at hout
  have hlen : out.length < 64 := by
    rw [← Except.ok.inj hout]
    decide +kernel
  obtain ⟨s, hs, hread⟩ := hall (fun _ => 0) 0 64 hlen
  have hn : toInt32 (2147483648 : UInt32).toNat = -2147483648 := by decide +kernel
  rw [hn] at hread
  exact ⟨s, hs, hread 64 le_rfl⟩

end Pintos
