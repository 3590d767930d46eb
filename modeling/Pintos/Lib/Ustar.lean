import Pintos.Lib.Stdio
import Mathlib.Data.List.GetD
import Mathlib.Data.List.TakeWhile

/-!
# Archive headers

`lib/ustar.c`: the header of a file in an archive is a block of 512 bytes, with a name, a size in
octal, and a checksum over all of it.

* `stripAntisocialPrefixes_ok` — what is left of a name is harmless (`Harmless`), and a harmless name
  is left alone;
* `formatInteger_octal`, `parseOctalField_octalDigits` — a number is written in octal and read again;
* `calculateChksum_update` — the checksum depends on every byte.
-/

namespace Pintos

open Total Function List

/-! ### Names -/

/-- `!memcmp (s + p, t, n)` for a literal `t` of `n` bytes: the comparison stops at the first byte that
is different. -/
def memcmpEq (s : CString) : ℕ → List UInt8 → Except StringFault Bool
  | _, [] => .ok true
  | p, c :: cs => do
    let a ← s.charAt p
    if a = c then memcmpEq s (p + 1) cs else .ok false

/-- `!strcmp (s + p, t)` for a literal `t`: the NUL is compared too. -/
def strcmpEq (s : CString) (p : ℕ) (t : List UInt8) : Except StringFault Bool :=
  memcmpEq s p (t ++ [0])

/-- `strchr (s + p, c)`, as a place in `s`. -/
def strchr (s : CString) (c : UInt8) : ℕ → ℕ → Except StringFault (Option ℕ)
  | 0, _ => .error .fuel
  | fuel + 1, p => do
    let a ← s.charAt p
    if a = c then .ok (some p)
    else if a = 0 then .ok none
    else strchr s c fuel (p + 1)

/-- "/" -/
def slash : List UInt8 := ascii ['/']

/-- "./" -/
def dotSlash : List UInt8 := ascii ['.', '/']

/-- "../" -/
def dotDotSlash : List UInt8 := ascii ['.', '.', '/']

/-- ".." -/
def dotDot : List UInt8 := ascii ['.', '.']

theorem dot_nonzero : 0 ∉ ascii ['.'] := by decide

/-- "." -/
def dot : CString := ⟨ascii ['.'], dot_nonzero⟩

/-- The condition of the loop of `strip_antisocial_prefixes`. -/
def antisocial (s : CString) (p : ℕ) : Except StringFault Bool := do
  let c ← s.charAt p
  if c = '/'.toUInt8 then .ok true
  else do
    let a ← memcmpEq s p dotSlash
    if a then .ok true else memcmpEq s p dotDotSlash

/-- The loop of `strip_antisocial_prefixes`: the place in `s` where it stops. -/
def stripLoop (s : CString) : ℕ → ℕ → Except StringFault ℕ
  | 0, _ => .error .fuel
  | fuel + 1, p => do
    let a ← antisocial s p
    if a then do
      let q ← strchr s '/'.toUInt8 (s.chars.length + 1) p
      match q with
      | some q => stripLoop s fuel (q + 1)
      | none => .error .nullPointer
    else .ok p

/-- `strip_antisocial_prefixes`. -/
def stripAntisocialPrefixes (s : CString) : Except StringFault CString := do
  let p ← stripLoop s (s.chars.length + 1) 0
  let c ← s.charAt p
  if c = 0 then .ok dot
  else do
    let b ← strcmpEq s p dotDot
    .ok (if b then dot else s.drop p)

/-! ### Headers -/

/-- `enum ustar_type`, without the value for the end of an archive. -/
inductive UstarType where
  | regular
  | directory
  deriving DecidableEq, Repr

/-- The value of a type, as it stands in a header. -/
def UstarType.flag : UstarType → UInt8
  | .regular => '0'.toUInt8
  | .directory => '5'.toUInt8

/-- The loop of `calculate_chksum` over the first `n` bytes. -/
def chksumLoop (h : Buffer) : ℕ → ℕ
  | 0 => 0
  | n + 1 => (chksumLoop h n + if 148 ≤ n ∧ n < 156 then 32 else (h n).toNat) % 2 ^ 32

/-- `calculate_chksum`. -/
def calculateChksum (h : Buffer) : ℕ := chksumLoop h 512

theorem octal7_nonzero : 0 ∉ ascii ['%', '0', '7', 'o'] := by decide

theorem octal11_nonzero : 0 ∉ ascii ['%', '0', '1', '1', 'o'] := by decide

theorem sevenZeros_nonzero : 0 ∉ ascii ['0', '0', '0', '0', '0', '0', '0'] := by decide

theorem ustar_nonzero : 0 ∉ ascii ['u', 's', 't', 'a', 'r'] := by decide

theorem root_nonzero : 0 ∉ ascii ['r', 'o', 'o', 't'] := by decide

/-- "%07o" -/
def octal7 : CString := ⟨ascii ['%', '0', '7', 'o'], octal7_nonzero⟩

/-- "%011o" -/
def octal11 : CString := ⟨ascii ['%', '0', '1', '1', 'o'], octal11_nonzero⟩

/-- "0000000" -/
def sevenZeros : CString := ⟨ascii ['0', '0', '0', '0', '0', '0', '0'], sevenZeros_nonzero⟩

/-- "ustar" -/
def ustar : CString := ⟨ascii ['u', 's', 't', 'a', 'r'], ustar_nonzero⟩

/-- "root" -/
def root : CString := ⟨ascii ['r', 'o', 'o', 't'], root_nonzero⟩

/-- The arguments of a call with one number. -/
def intArgs (n : ℕ) : Args := ⟨fun _ => .ofNat n, fun _ => .ofNat n, fun _ => none⟩

/-- `snprintf`, with rounds enough for the formats used here. -/
def snprintfInt (dst : Buffer) (dofs size : ℕ) (format : CString) (n : ℕ) :
    Except StringFault Buffer :=
  snprintf 8 dst dofs size format (intArgs n)

/-- `ustar_make_header`: the header, unless the name is too long. -/
def ustarMakeHeader (fileName : CString) (type : UstarType) (size : ℤ) :
    Except StringFault (Option Buffer) := do
  let name ← stripAntisocialPrefixes fileName
  if 99 < name.chars.length then .ok none
  else do
    let h : Buffer := fun _ => 0
    let h := strlcpy h 0 name 100
    let h ← snprintfInt h 100 8 octal7 (if type = .regular then 0o644 else 0o755)
    let h := strlcpy h 108 sevenZeros 8
    let h := strlcpy h 116 sevenZeros 8
    let h ← snprintfInt h 124 12 octal11 (size % 2 ^ 32).toNat
    let h ← snprintfInt h 136 12 octal11 1136102400
    let h := update h 156 type.flag
    let h := strlcpy h 257 ustar 6
    let h := update (update h 264 '0'.toUInt8) 263 '0'.toUInt8
    let h := strlcpy h 297 root 32
    let h := strlcpy h 265 root 32
    let h ← snprintfInt h 148 8 octal7 (calculateChksum h)
    .ok (some h)

/-- The loop of `parse_octal_field`, with `left` bytes of the field left. -/
def parseOctalLoop (b : Buffer) (s : ℕ) : ℕ → ℕ → ℕ → Option ℕ
  | 0, _, _ => none
  | left + 1, ofs, value =>
    let c := b (s + ofs)
    if '0'.toUInt8 ≤ c ∧ c ≤ '7'.toUInt8 then
      if (2 ^ 32 - 1) / 8 < value then none
      else parseOctalLoop b s left (ofs + 1) (c.toNat - 48 + value * 8)
    else if c = ' '.toUInt8 ∨ c = 0 then if 0 < ofs then some value else none
    else none

/-- `parse_octal_field`. -/
def parseOctalField (b : Buffer) (s size : ℕ) : Option ℕ := parseOctalLoop b s size 0 0

/-- `is_all_zeros`. -/
def isAllZeros (b : Buffer) (cnt : ℕ) : Bool := (List.range cnt).all fun i => b i = 0

/-- The error messages of `ustar_parse_header`. -/
inductive UstarError where
  /-- "not a ustar archive" -/
  | notUstar
  /-- "invalid ustar version" -/
  | version
  /-- "corrupt chksum field" -/
  | chksumField
  /-- "checksum mismatch" -/
  | mismatch
  /-- "file name too long" -/
  | nameTooLong
  /-- "unimplemented file type" -/
  | fileType
  /-- "corrupt file size field" -/
  | sizeField
  /-- "file too large" -/
  | tooLarge
  deriving DecidableEq, Repr

/-- What `ustar_parse_header` finds. -/
inductive UstarEntry where
  | error (e : UstarError)
  | eof
  | file (name : CString) (type : UstarType) (size : ℤ)

theorem takeWhile_nonzero (cs : List UInt8) : 0 ∉ cs.takeWhile (· ≠ 0) := by
  intro hmem
  simpa using mem_takeWhile_imp hmem

/-- `h->name`, up to its NUL. -/
def headerName (h : Buffer) : CString :=
  ⟨((List.range 100).map h).takeWhile (· ≠ 0), takeWhile_nonzero _⟩

theorem chars_headerName (h : Buffer) :
    (headerName h).chars = ((List.range 100).map h).takeWhile (· ≠ 0) := rfl

/-- The size of a file of the given type, or what is wrong with it. -/
def headerSize (h : Buffer) : UstarType → Except UstarError ℕ
  | .directory => .ok 0
  | .regular =>
    match parseOctalField h 124 12 with
    | none => .error .sizeField
    | some size => if 2 ^ 31 - 1 < size then .error .tooLarge else .ok size

/-- `h->typeflag`, as a type. -/
def headerType (h : Buffer) : Option UstarType :=
  if h 156 = UstarType.regular.flag then some .regular
  else if h 156 = UstarType.directory.flag then some .directory
  else none

/-- The checks of `ustar_parse_header` on a header that is not the end of the archive. -/
def checkHeader (h : Buffer) : Except UstarError (UstarType × ℕ) :=
  if (List.range 6).map (fun i => h (257 + i)) ≠ ustar.chars ++ [0] then .error .notUstar
  else if h 263 ≠ '0'.toUInt8 ∨ h 264 ≠ '0'.toUInt8 then .error .version
  else
    match parseOctalField h 148 8 with
    | none => .error .chksumField
    | some chksum =>
      if chksum ≠ calculateChksum h then .error .mismatch
      else if h 99 ≠ 0 ∨ h 345 ≠ 0 then .error .nameTooLong
      else
        match headerType h with
        | none => .error .fileType
        | some type => do
          let size ← headerSize h type
          .ok (type, size)

/-- `ustar_parse_header`. -/
def ustarParseHeader (h : Buffer) : Except StringFault UstarEntry :=
  if isAllZeros h 512 then .ok .eof
  else
    match checkHeader h with
    | .error e => .ok (.error e)
    | .ok r => do
      let name ← stripAntisocialPrefixes (headerName h)
      .ok (.file name r.1 r.2)

/-! ### What is left of a name -/

section Strip

variable {s : CString} {p : ℕ} {cs : List UInt8}

/-- A literal without NUL is compared within the string. -/
theorem memcmpEq_ok {t : List UInt8} (ht : 0 ∉ t) (h : s.At p cs) :
    memcmpEq s p t = .ok (t.isPrefixOf cs) := by
  induction t generalizing p cs with
  | nil => rfl
  | cons c t ih =>
    rw [mem_cons, not_or] at ht
    cases cs with
    | nil =>
      rw [memcmpEq, h.charAt_nil]
      simp only [bind, Except.bind, ht.1, if_false]
      rfl
    | cons a cs =>
      rw [memcmpEq, h.charAt_cons, isPrefixOf_cons_cons]
      simp only [bind, Except.bind]
      by_cases hac : a = c
      · subst hac
        rw [if_pos rfl, ih ht.2 h.next, beq_self_eq_true, Bool.true_and]
      · rw [if_neg hac, beq_eq_false_iff_ne.mpr (Ne.symm hac), Bool.false_and]

/-- A string without NUL is compared with all of the rest. -/
theorem strcmpEq_ok {t : List UInt8} (ht : 0 ∉ t) (h : s.At p cs) :
    strcmpEq s p t = .ok (decide (cs = t)) := by
  unfold strcmpEq
  induction t generalizing p cs with
  | nil =>
    rw [nil_append]
    cases cs with
    | nil =>
      rw [memcmpEq, h.charAt_nil]
      rfl
    | cons a cs =>
      rw [memcmpEq, h.charAt_cons]
      simp only [bind, Except.bind, h.ne_zero, if_false]
      rfl
  | cons c t ih =>
    rw [mem_cons, not_or] at ht
    cases cs with
    | nil =>
      rw [cons_append, memcmpEq, h.charAt_nil]
      simp only [bind, Except.bind, ht.1, if_false]
      rfl
    | cons a cs =>
      rw [cons_append, memcmpEq, h.charAt_cons]
      simp only [bind, Except.bind]
      by_cases hac : a = c
      · subst hac
        rw [if_pos rfl, ih ht.2 h.next]
        simp
      · rw [if_neg hac]
        simp [hac]

theorem strchr_ok {c : UInt8} {pre rest : List UInt8} (hc : c ∉ pre) {fuel : ℕ}
    (hfuel : pre.length < fuel) (h : s.At p (pre ++ c :: rest)) :
    ∃ q, strchr s c fuel p = .ok (some q) ∧ s.At q (c :: rest) := by
  induction pre generalizing p fuel with
  | nil =>
    obtain ⟨fuel, rfl⟩ := Nat.exists_eq_add_of_lt hfuel
    refine ⟨p, ?_, h⟩
    rw [nil_append] at h
    rw [strchr, h.charAt_cons]
    simp only [bind, Except.bind, if_true]
  | cons a pre ih =>
    rw [mem_cons, not_or] at hc
    obtain ⟨fuel, rfl⟩ := Nat.exists_eq_add_one.mpr (show 0 < fuel by omega)
    rw [length_cons] at hfuel
    rw [strchr, h.charAt_cons]
    simp only [bind, Except.bind, Ne.symm hc.1, h.ne_zero, if_false]
    exact ih hc.2 (by omega) h.next

/-- The prefixes that are dropped. -/
def isAntisocial (cs : List UInt8) : Bool :=
  slash.isPrefixOf cs || dotSlash.isPrefixOf cs || dotDotSlash.isPrefixOf cs

theorem slash_isPrefixOf (c : UInt8) (cs : List UInt8) :
    slash.isPrefixOf (c :: cs) = decide (c = '/'.toUInt8) := by
  have hslash : slash = ['/'.toUInt8] := rfl
  rw [hslash, isPrefixOf_cons_cons, isPrefixOf_nil_left, Bool.and_true,
    Bool.beq_eq_decide_eq]
  exact decide_eq_decide.mpr eq_comm

theorem antisocial_ok (h : s.At p cs) : antisocial s p = .ok (isAntisocial cs) := by
  have h₁ := memcmpEq_ok (t := dotSlash) (by decide) h
  have h₂ := memcmpEq_ok (t := dotDotSlash) (by decide) h
  unfold antisocial isAntisocial
  cases cs with
  | nil =>
    rw [h.charAt_nil]
    simp only [h₁, h₂, bind, Except.bind]
    rfl
  | cons c cs =>
    rw [h.charAt_cons, slash_isPrefixOf]
    simp only [h₁, h₂, bind, Except.bind]
    by_cases hc : c = '/'.toUInt8
    · rw [if_pos hc, decide_eq_true hc]
      rfl
    · rw [if_neg hc, decide_eq_false hc]
      cases dotSlash.isPrefixOf (c :: cs) <;> rfl

/-- A prefix that is dropped ends with the first slash. -/
theorem isAntisocial_split (h : isAntisocial cs = true) :
    ∃ pre rest, cs = pre ++ '/'.toUInt8 :: rest ∧ '/'.toUInt8 ∉ pre := by
  simp only [isAntisocial, Bool.or_eq_true, isPrefixOf_iff_prefix] at h
  obtain (⟨rest, rfl⟩ | ⟨rest, rfl⟩) | ⟨rest, rfl⟩ := h
  · exact ⟨[], rest, rfl, by decide⟩
  · exact ⟨ascii ['.'], rest, rfl, by decide⟩
  · exact ⟨ascii ['.', '.'], rest, rfl, by decide⟩

/-- **The loop ends** at a place where no prefix is left to drop, and it does not move if there is
none at the beginning. -/
theorem stripLoop_ok {fuel : ℕ} (hfuel : cs.length < fuel) (h : s.At p cs) :
    ∃ q rest, stripLoop s fuel p = .ok q ∧ s.At q rest ∧ isAntisocial rest = false ∧
      rest.length ≤ cs.length ∧ (isAntisocial cs = false → q = p) := by
  induction fuel generalizing p cs with
  | zero => exact absurd hfuel (Nat.not_lt_zero _)
  | succ fuel ih =>
    rw [stripLoop, antisocial_ok h]
    simp only [bind, Except.bind]
    cases hanti : isAntisocial cs with
    | false => exact ⟨p, cs, rfl, h, hanti, le_rfl, fun _ => rfl⟩
    | true =>
      obtain ⟨pre, rest, rfl, hpre⟩ := isAntisocial_split hanti
      have hlen : (pre ++ '/'.toUInt8 :: rest).length ≤ s.chars.length := by
        rw [← h.rest, length_drop]
        omega
      rw [length_append, length_cons] at hlen hfuel
      obtain ⟨q, hq, hat⟩ := strchr_ok hpre (show pre.length < s.chars.length + 1 by omega) h
      obtain ⟨q', rest', hq', hat', hanti', hle, -⟩ := ih (show rest.length < fuel by omega) hat.next
      simp only [hq, hq', if_true]
      refine ⟨q', rest', rfl, hat', hanti', ?_, fun hfalse => Bool.noConfusion hfalse⟩
      rw [length_append, length_cons]
      omega

end Strip

/-- **A name that does no harm.** -/
structure Harmless (name : CString) : Prop where
  nonempty : name.chars ≠ []
  notDotDot : name.chars ≠ dotDot
  noSlash : ¬slash <+: name.chars
  noDotSlash : ¬dotSlash <+: name.chars
  noDotDotSlash : ¬dotDotSlash <+: name.chars

theorem isAntisocial_eq_false {cs : List UInt8} : isAntisocial cs = false ↔
    ¬slash <+: cs ∧ ¬dotSlash <+: cs ∧ ¬dotDotSlash <+: cs := by
  rw [← Bool.not_eq_true, isAntisocial, Bool.or_eq_true, Bool.or_eq_true, not_or, not_or, and_assoc]
  simp only [ isPrefixOf_iff_prefix]

theorem harmless_dot : Harmless dot := by
  constructor <;> decide

/-- **What is left of a name is harmless**, and a harmless name is left as it is. -/
theorem stripAntisocialPrefixes_ok (s : CString) :
    ∃ r, stripAntisocialPrefixes s = .ok r ∧ Harmless r ∧ r.chars.length ≤ max s.chars.length 1 ∧
      (Harmless s → r = s) := by
  obtain ⟨q, rest, hq, hat, hanti, hle, hstay⟩ :=
    stripLoop_ok (Nat.lt_succ_self s.chars.length) (.start s)
  have hdot : dot.chars.length ≤ max s.chars.length 1 := Nat.le_max_right _ _
  have hself : Harmless s → rest = s.chars := by
    intro hs
    rw [← hat.rest, hstay (isAntisocial_eq_false.mpr ⟨hs.noSlash, hs.noDotSlash, hs.noDotDotSlash⟩)]
    rfl
  unfold stripAntisocialPrefixes
  simp only [hq, bind, Except.bind]
  cases rest with
  | nil =>
    rw [hat.charAt_nil]
    exact ⟨dot, rfl, harmless_dot, hdot, fun hs => absurd (hself hs).symm hs.nonempty⟩
  | cons c cs =>
    rw [hat.charAt_cons]
    simp only [hat.ne_zero, if_false, strcmpEq_ok (t := dotDot) (by decide) hat]
    by_cases hdd : c :: cs = dotDot
    · rw [decide_eq_true hdd]
      refine ⟨dot, rfl, harmless_dot, hdot, fun hs => ?_⟩
      exact absurd ((hself hs).symm.trans hdd) hs.notDotDot
    · rw [decide_eq_false hdd]
      have hchars : (s.drop q).chars = c :: cs := hat.rest
      obtain ⟨h₁, h₂, h₃⟩ := isAntisocial_eq_false.mp hanti
      refine ⟨s.drop q, rfl, ⟨?_, ?_, ?_, ?_, ?_⟩, ?_, fun hs => ?_⟩
      · rw [hchars]
        exact cons_ne_nil c cs
      · rwa [hchars]
      · rwa [hchars]
      · rwa [hchars]
      · rwa [hchars]
      · rw [hchars]
        exact hle.trans (Nat.le_max_left _ _)
      · rw [hstay (isAntisocial_eq_false.mpr ⟨hs.noSlash, hs.noDotSlash, hs.noDotDotSlash⟩)]
        rfl

/-! ### Headers that are accepted -/

/-- What `ustar_parse_header` checks. -/
structure ValidHeader (h : Buffer) (type : UstarType) (size : ℕ) : Prop where
  magic : (List.range 6).map (fun i => h (257 + i)) = ustar.chars ++ [0]
  version : h 263 = '0'.toUInt8 ∧ h 264 = '0'.toUInt8
  chksum : parseOctalField h 148 8 = some (calculateChksum h)
  name : h 99 = 0
  noPrefix : h 345 = 0
  typeflag : headerType h = some type
  size : headerSize h type = .ok size

theorem checkHeader_eq_ok {h : Buffer} {type : UstarType} {size : ℕ} :
    checkHeader h = .ok (type, size) ↔ ValidHeader h type size := by
  constructor
  · intro hok
    unfold checkHeader at hok
    split at hok
    · cases hok
    next hmagic =>
      split at hok
      · cases hok
      next hversion =>
        split at hok
        · cases hok
        next chksum hchksum =>
          split at hok
          · cases hok
          next hsum =>
            split at hok
            · cases hok
            next hname =>
              split at hok
              · cases hok
              next type' htype =>
                simp only [bind, Except.bind] at hok
                cases hsize : headerSize h type' with
                | error e => simp [hsize] at hok
                | ok size' =>
                  simp only [hsize, Except.ok.injEq, Prod.mk.injEq] at hok
                  obtain ⟨rfl, rfl⟩ := hok
                  push Not at hmagic hversion hsum hname
                  exact ⟨hmagic, hversion, hsum ▸ hchksum, hname.1, hname.2, htype, hsize⟩
  · intro hv
    unfold checkHeader
    simp only [hv.magic, hv.version, hv.chksum, hv.name, hv.noPrefix, hv.typeflag, hv.size, bind,
      Except.bind, ne_eq, not_true_eq_false, or_self, if_false]

/-- A name from a header has at most 99 characters. -/
theorem headerName_length {h : Buffer} (hname : h 99 = 0) : (headerName h).chars.length ≤ 99 := by
  by_contra hlen
  have hall : (headerName h).chars = (List.range 100).map h := by
    refine ( takeWhile_prefix _).eq_of_length_le ?_
    rw [length_map, length_range]
    exact Nat.lt_of_not_le hlen
  refine (headerName h).nonzero ?_
  rw [hall]
  exact mem_map.mpr ⟨99, mem_range.mpr (by decide), hname⟩

theorem headerSize_le {h : Buffer} {type : UstarType} {size : ℕ}
    (hsize : headerSize h type = .ok size) : size ≤ 2 ^ 31 - 1 := by
  cases type with
  | directory =>
    cases hsize
    exact Nat.zero_le _
  | regular =>
    simp only [headerSize] at hsize
    split at hsize
    · cases hsize
    · split at hsize
      · cases hsize
      next hle =>
        cases hsize
        exact Nat.le_of_not_lt hle

/-! ### Octal numbers -/

/-- The last `n` octal digits of a number. -/
def octalDigits : ℕ → ℕ → List UInt8
  | 0, _ => []
  | n + 1, v => octalDigits n (v / 8) ++ [UInt8.ofNat (48 + v % 8)]

@[simp] theorem length_octalDigits (n v : ℕ) : (octalDigits n v).length = n := by
  induction n generalizing v with
  | zero => rfl
  | succ n ih => rw [octalDigits, length_append, ih, length_singleton]

theorem octalDigits_zero (n : ℕ) : octalDigits n 0 = List.replicate n '0'.toUInt8 := by
  induction n with
  | zero => rfl
  | succ n ih =>
    rw [octalDigits, Nat.zero_div, ih, replicate_succ']
    rfl

theorem getD_octalDigits {n v j : ℕ} (hj : j < n) :
    (octalDigits n v).getD j 0 = UInt8.ofNat (48 + v / 8 ^ (n - 1 - j) % 8) := by
  induction n generalizing v with
  | zero => exact absurd hj (Nat.not_lt_zero j)
  | succ n ih =>
    rw [octalDigits]
    obtain hj | rfl := Nat.lt_succ_iff_lt_or_eq.mp hj
    · rw [getD_append _ _ _ _ (by simpa using hj), ih hj, Nat.div_div_eq_div_mul, ← Nat.pow_succ',
        show (n - 1 - j).succ = n + 1 - 1 - j by omega]
    · rw [getD_append_right _ _ _ _ (by simp)]
      simp

theorem digit_octal (v : ℕ) : baseO.digits.getD (v % 8) 0 = UInt8.ofNat (48 + v % 8) := by
  have h : ∀ d < 8, baseO.digits.getD d 0 = UInt8.ofNat (48 + d) := by decide
  exact h _ (Nat.mod_lt _ (by decide))

/-- **The digits that `format_integer` makes**, filled up with zeros. -/
theorem digitLoop_octal {m fuel v : ℕ} (cnt : ℕ) (hv : v < 8 ^ m) (hm : m ≤ fuel) :
    (digitLoop baseO false fuel v cnt).length ≤ m ∧
      List.replicate (m - (digitLoop baseO false fuel v cnt).length) '0'.toUInt8 ++
        (digitLoop baseO false fuel v cnt).reverse = octalDigits m v := by
  have hnil : ∀ fuel cnt, digitLoop baseO false fuel 0 cnt = [] := by
    intro fuel cnt
    cases fuel with
    | zero => rfl
    | succ fuel => exact if_pos rfl
  induction m generalizing v fuel cnt with
  | zero =>
    obtain rfl : v = 0 := Nat.lt_one_iff.mp hv
    rw [hnil]
    exact ⟨le_rfl, rfl⟩
  | succ m ih =>
    by_cases h0 : v = 0
    · subst h0
      rw [hnil, octalDigits_zero]
      simp
    · obtain ⟨fuel, rfl⟩ := Nat.exists_eq_add_one.mpr (show 0 < fuel by omega)
      have hstep : digitLoop baseO false (fuel + 1) v cnt
          = UInt8.ofNat (48 + v % 8) :: digitLoop baseO false fuel (v / 8) (cnt + 1) := by
        rw [digitLoop, if_neg h0, ← digit_octal]
        rfl
      have hdiv : v / 8 < 8 ^ m := Nat.div_lt_of_lt_mul (by rwa [← Nat.pow_succ'])
      obtain ⟨hlen, heq⟩ := ih (cnt + 1) hdiv (Nat.le_of_succ_le_succ hm)
      rw [hstep, length_cons, reverse_cons, octalDigits, ← heq,
        Nat.add_sub_add_right, append_assoc]
      exact ⟨Nat.succ_le_succ hlen, rfl⟩

/-- The conversion of "%0`n`o". -/
def octalConversion (n : ℕ) : Conversion := ⟨{ Flags.clear with zero := true }, n, -1, .int⟩

/-- **A number in octal, filled up with zeros.** -/
theorem formatInteger_octal {n v : ℕ} (hpos : 0 < n) (hn : n ≤ 64) (hv : v < 8 ^ n) :
    formatInteger v false false baseO (octalConversion n) = octalDigits n v := by
  obtain ⟨hlen, heq⟩ := digitLoop_octal 0 hv hn
  generalize hd : digitLoop baseO false 64 v 0 = d at hlen heq
  -- a zero has no digits, and the precision makes it one
  have hbuf : integerBuf v baseO (octalConversion n)
      = d ++ List.replicate (1 - d.length) '0'.toUInt8 := by
    rw [← hd]
    rfl
  have hpad : (toInt32 ((n : ℤ) - (d ++ List.replicate (1 - d.length) '0'.toUInt8).length
      - ([] : List UInt8).length - ([] : List UInt8).length)).toNat
        = n - d.length - (1 - d.length) := by
    rw [length_append, length_replicate, length_nil, toInt32_of_fits (by omega)
      (by omega)]
    omega
  calc formatInteger v false false baseO (octalConversion n)
      = List.replicate (n - d.length - (1 - d.length)) '0'.toUInt8
          ++ (d ++ List.replicate (1 - d.length) '0'.toUInt8).reverse ++ [] := by
        rw [← hpad, ← hbuf]
        rfl
    _ = List.replicate (n - d.length - (1 - d.length) + (1 - d.length)) '0'.toUInt8
          ++ d.reverse := by
        rw [append_nil, reverse_append, reverse_replicate, ← append_assoc,
          replicate_append_replicate]
    _ = List.replicate (n - d.length) '0'.toUInt8 ++ d.reverse := by
        rw [Nat.sub_add_cancel (by omega)]
    _ = octalDigits n v := heq

/-- **`parse_octal_field` reads what was written.** -/
theorem parseOctalLoop_octalDigits {b : Buffer} {s n v : ℕ} (hv : v < 2 ^ 32)
    (hdigits : ∀ j < n, b (s + j) = UInt8.ofNat (48 + v / 8 ^ (n - 1 - j) % 8))
    (hend : b (s + n) = 0) {left : ℕ} (hleft : left ≤ n) (hpos : 0 < n) :
    parseOctalLoop b s (left + 1) (n - left) (v / 8 ^ left) = some v := by
  induction left with
  | zero =>
    have hc : ¬('0'.toUInt8 ≤ (0 : UInt8) ∧ (0 : UInt8) ≤ '7'.toUInt8) := by decide
    rw [parseOctalLoop]
    simp only [Nat.sub_zero, hend, hc, if_false, hpos, if_true, or_true, pow_zero, Nat.div_one]
  | succ left ih =>
    obtain ⟨hd, hplace⟩ : v / 8 ^ left % 8 < 8 ∧ n - 1 - (n - (left + 1)) = left :=
      ⟨Nat.mod_lt _ (by decide), by omega⟩
    have hc := hdigits (n - (left + 1)) (by omega)
    rw [hplace] at hc
    have hdigit : ∀ d < 8, ('0'.toUInt8 ≤ UInt8.ofNat (48 + d) ∧ UInt8.ofNat (48 + d) ≤ '7'.toUInt8) ∧
        (UInt8.ofNat (48 + d)).toNat - 48 = d := by decide
    obtain ⟨hrange, hvalue⟩ := hdigit _ hd
    -- the value so far leaves room for one more digit
    have hpow : v / 8 ^ (left + 1) = v / 8 ^ left / 8 := by
      rw [Nat.pow_succ, Nat.div_div_eq_div_mul]
    have hroom : ¬(2 ^ 32 - 1) / 8 < v / 8 ^ (left + 1) := by
      have := Nat.div_le_self v (8 ^ left)
      omega
    rw [parseOctalLoop, hc]
    simp only [hrange, hroom, hvalue, and_self, if_true, if_false]
    have hnext : v / 8 ^ left % 8 + v / 8 ^ (left + 1) * 8 = v / 8 ^ left := by
      rw [hpow]
      omega
    rw [hnext, show n - (left + 1) + 1 = n - left by omega]
    exact ih (by omega)

/-- A number in a field of `n + 1` bytes. -/
theorem parseOctalField_octalDigits {b : Buffer} {s n v : ℕ} (hv : v < 2 ^ 32) (hn : v < 8 ^ n)
    (hpos : 0 < n) (hfield : ∀ j < n, b (s + j) = (octalDigits n v).getD j 0)
    (hend : b (s + n) = 0) : parseOctalField b s (n + 1) = some v := by
  have h := parseOctalLoop_octalDigits hv
    (fun j hj => (hfield j hj).trans (getD_octalDigits hj)) hend le_rfl hpos
  rwa [Nat.sub_self, Nat.div_eq_of_lt hn] at h

/-! ### The checksum -/

section Chksum

variable {h h' : Buffer}

theorem chksumLoop_le (h : Buffer) (n : ℕ) : chksumLoop h n ≤ 255 * n := by
  induction n with
  | zero => exact le_rfl
  | succ n ih =>
    have hbyte := (h n).toNat_lt
    refine (Nat.mod_le _ _).trans ?_
    split <;> omega

theorem calculateChksum_lt (h : Buffer) : calculateChksum h < 8 ^ 7 :=
  Nat.lt_of_le_of_lt (chksumLoop_le h 512) (by decide)

/-- The sum does not wrap around. -/
theorem chksumLoop_succ (h : Buffer) {n : ℕ} (hn : n < 512) : chksumLoop h (n + 1)
    = chksumLoop h n + if 148 ≤ n ∧ n < 156 then 32 else (h n).toNat := by
  have hbyte := (h n).toNat_lt
  have hle := chksumLoop_le h n
  refine Nat.mod_eq_of_lt ?_
  split <;> omega

/-- The field of the checksum does not count. -/
theorem calculateChksum_congr (heq : ∀ i < 512, ¬(148 ≤ i ∧ i < 156) → h' i = h i) :
    calculateChksum h' = calculateChksum h := by
  have hloop : ∀ n ≤ 512, chksumLoop h' n = chksumLoop h n := by
    intro n hn
    induction n with
    | zero => rfl
    | succ n ih =>
      rw [chksumLoop_succ h' hn, chksumLoop_succ h hn, ih (by omega)]
      split
      · rfl
      next hout => rw [heq n hn hout]
  exact hloop 512 le_rfl

/-- **The checksum depends on every byte** outside its field. -/
theorem calculateChksum_update {i : ℕ} (hi : i < 512) (hout : ¬(148 ≤ i ∧ i < 156)) (v : UInt8) :
    calculateChksum (update h i v) + (h i).toNat = calculateChksum h + v.toNat := by
  have hbelow : ∀ n ≤ i, chksumLoop (update h i v) n = chksumLoop h n := by
    intro n hn
    induction n with
    | zero => rfl
    | succ n ih =>
      rw [chksumLoop_succ _ (by omega), chksumLoop_succ _ (by omega), ih (by omega),
        update_of_ne (by omega)]
  have habove : ∀ n, i < n → n ≤ 512 → chksumLoop (update h i v) n + (h i).toNat
      = chksumLoop h n + v.toNat := by
    intro n hlt hle
    induction n with
    | zero => exact absurd hlt (Nat.not_lt_zero i)
    | succ n ih =>
      rw [chksumLoop_succ _ (by omega), chksumLoop_succ _ (by omega)]
      obtain hlt | rfl := Nat.lt_succ_iff_lt_or_eq.mp hlt
      · rw [update_of_ne (by omega)]
        have := ih hlt (by omega)
        omega
      · rw [hbelow i le_rfl, if_neg hout, if_neg hout, update_self]
        omega
  exact habove 512 hi le_rfl

end Chksum

/-! ### The fields of a header -/

/-- The characters of a field, and a NUL behind them. -/
def putString (dst : Buffer) (dofs : ℕ) (cs : List UInt8) : Buffer := fun i =>
  if dofs ≤ i ∧ i < dofs + cs.length then cs.getD (i - dofs) 0
  else if i = dofs + cs.length then 0
  else dst i

section putString

variable {dst : Buffer} {dofs i size : ℕ} {cs : List UInt8}

theorem putString_below (h : i < dofs) : putString dst dofs cs i = dst i := by
  rw [putString, if_neg (by omega), if_neg (by omega)]

theorem putString_above (h : dofs + cs.length < i) : putString dst dofs cs i = dst i := by
  rw [putString, if_neg (by omega), if_neg (by omega)]

theorem putString_inside (h : i < cs.length) : putString dst dofs cs (dofs + i) = cs.getD i 0 := by
  rw [putString, if_pos (by omega), Nat.add_sub_cancel_left]

theorem putString_nul : putString dst dofs cs (dofs + cs.length) = 0 := by
  rw [putString, if_neg (by omega), if_pos rfl]

theorem strlcpy_eq {src : CString} (h : src.chars.length < size) :
    strlcpy dst dofs src size = putString dst dofs src.chars := by
  unfold strlcpy
  rw [Nat.min_eq_left (by omega)]
  rfl

theorem snprintf_eq {fuel : ℕ} {format : CString} {args : Args}
    (hcs : vprintf fuel args format 0 0 = .ok cs) (h : cs.length < size) :
    snprintf fuel dst dofs size format args = .ok (putString dst dofs cs) := by
  unfold snprintf
  simp only [hcs, bind, Except.bind, Nat.min_eq_left (show cs.length ≤ size - 1 by omega)]
  congr 1
  funext i
  simp only [putString, show 0 < size by omega, and_true]

/-- A number in a field of `m + 1` bytes, for a format that converts it to `m` octal digits. -/
theorem snprintfInt_octal {format : CString} {m n : ℕ} (hrun : vprintf 8 (intArgs n) format 0 0
      = .ok (formatInteger (UInt32.ofNat n).toNat false false baseO (octalConversion m) ++ []))
    (hpos : 0 < m) (hm : m ≤ 64) (hn : n < 2 ^ 32) (hdigits : n < 8 ^ m) :
    snprintfInt dst dofs (m + 1) format n = .ok (putString dst dofs (octalDigits m n)) := by
  have hword : (UInt32.ofNat n).toNat = n := Nat.mod_eq_of_lt hn
  rw [hword, formatInteger_octal hpos hm hdigits, append_nil] at hrun
  exact snprintf_eq hrun (by simp)

theorem snprintfInt_octal7 {n : ℕ} (hn : n < 8 ^ 7) :
    snprintfInt dst dofs 8 octal7 n = .ok (putString dst dofs (octalDigits 7 n)) :=
  snprintfInt_octal rfl (by decide) (by decide) (by omega) hn

theorem snprintfInt_octal11 {n : ℕ} (hn : n < 2 ^ 32) :
    snprintfInt dst dofs 12 octal11 n = .ok (putString dst dofs (octalDigits 11 n)) :=
  snprintfInt_octal rfl (by decide) (by decide) hn (by omega)

end putString

/-- The header before its checksum is filled in. -/
def headerBody (name : CString) (type : UstarType) (size : ℕ) : Buffer :=
  let h := putString (fun _ => 0) 0 name.chars
  let h := putString h 100 (octalDigits 7 (if type = .regular then 0o644 else 0o755))
  let h := putString h 108 sevenZeros.chars
  let h := putString h 116 sevenZeros.chars
  let h := putString h 124 (octalDigits 11 size)
  let h := putString h 136 (octalDigits 11 1136102400)
  let h := update h 156 type.flag
  let h := putString h 257 ustar.chars
  let h := update (update h 264 '0'.toUInt8) 263 '0'.toUInt8
  let h := putString h 297 root.chars
  putString h 265 root.chars

/-- The header with its checksum. -/
def madeHeader (name : CString) (type : UstarType) (size : ℕ) : Buffer :=
  putString (headerBody name type size) 148
    (octalDigits 7 (calculateChksum (headerBody name type size)))

theorem ustarMakeHeader_eq {fileName name : CString} (type : UstarType) (size : ℤ)
    (hstrip : stripAntisocialPrefixes fileName = .ok name) (hlen : name.chars.length ≤ 99) :
    ustarMakeHeader fileName type size
      = .ok (some (madeHeader name type (size % 2 ^ 32).toNat)) := by
  have hmode : (if type = .regular then 0o644 else 0o755) < 8 ^ 7 := by
    split <;> decide
  have hsize : (size % 2 ^ 32).toNat < 2 ^ 32 := by omega
  have htime : 1136102400 < 2 ^ 32 := by decide
  unfold ustarMakeHeader
  rw [bind_of_eq_ok hstrip, if_neg (show ¬99 < name.chars.length by omega)]
  dsimp only
  rw [strlcpy_eq (show name.chars.length < 100 by omega), bind_of_eq_ok (snprintfInt_octal7 hmode),
    strlcpy_eq (show sevenZeros.chars.length < 8 by decide),
    strlcpy_eq (show sevenZeros.chars.length < 8 by decide),
    bind_of_eq_ok (snprintfInt_octal11 hsize), bind_of_eq_ok (snprintfInt_octal11 htime),
    strlcpy_eq (show ustar.chars.length < 6 by decide),
    strlcpy_eq (show root.chars.length < 32 by decide),
    strlcpy_eq (show root.chars.length < 32 by decide),
    bind_of_eq_ok (snprintfInt_octal7 (calculateChksum_lt _))]
  rfl

section Fields

variable {name : CString} {type : UstarType} {size : ℕ}

theorem length_seven : sevenZeros.chars.length = 7 := rfl

theorem length_ustar : ustar.chars.length = 5 := rfl

theorem length_root : root.chars.length = 4 := rfl

/-- The bytes of the name. -/
theorem madeHeader_name {i : ℕ} (hi : i < 100) :
    madeHeader name type size i = putString (fun _ => 0) 0 name.chars i := by
  unfold madeHeader headerBody
  simp (disch := omega) only [putString_below, update_of_ne]

/-- The bytes of the size. -/
theorem madeHeader_size {j : ℕ} (hj : j < 11) :
    madeHeader name type size (124 + j) = (octalDigits 11 size).getD j 0 := by
  unfold madeHeader headerBody
  simp (disch := omega) only [putString_below, update_of_ne]
  exact putString_inside (by rwa [length_octalDigits])

theorem madeHeader_size_nul : madeHeader name type size (124 + 11) = 0 := by
  unfold madeHeader headerBody
  simp (disch := omega) only [putString_below, update_of_ne]
  have hnul := @putString_nul (putString (putString (putString (putString (fun _ => 0) 0 name.chars)
    100 (octalDigits 7 (if type = .regular then 0o644 else 0o755))) 108 sevenZeros.chars) 116
      sevenZeros.chars) 124 (octalDigits 11 size)
  rwa [length_octalDigits] at hnul

/-- The bytes of the checksum. -/
theorem madeHeader_chksum {j : ℕ} (hj : j < 7) : madeHeader name type size (148 + j)
    = (octalDigits 7 (calculateChksum (headerBody name type size))).getD j 0 :=
  putString_inside (by rwa [length_octalDigits])

theorem madeHeader_chksum_nul : madeHeader name type size (148 + 7) = 0 := by
  have hnul := @putString_nul (headerBody name type size) 148
    (octalDigits 7 (calculateChksum (headerBody name type size)))
  rwa [length_octalDigits] at hnul

/-- Outside the field of the checksum nothing changes when it is filled in. -/
theorem madeHeader_of_not_chksum {i : ℕ} (hi : ¬(148 ≤ i ∧ i < 156)) :
    madeHeader name type size i = headerBody name type size i := by
  have hlen : (octalDigits 7 (calculateChksum (headerBody name type size))).length = 7 :=
    length_octalDigits _ _
  by_cases hlt : i < 148
  · exact putString_below hlt
  · exact putString_above (by omega)

theorem calculateChksum_madeHeader :
    calculateChksum (madeHeader name type size) = calculateChksum (headerBody name type size) :=
  calculateChksum_congr fun _ _ => madeHeader_of_not_chksum

theorem madeHeader_type : madeHeader name type size 156 = type.flag := by
  rw [madeHeader_of_not_chksum (by decide)]
  unfold headerBody
  simp (disch := omega) only [putString_below, update_of_ne, update_self]

theorem madeHeader_magic : (List.range 6).map (fun i => madeHeader name type size (257 + i))
    = ustar.chars ++ [0] := by
  have hbyte : ∀ i ∈ List.range 6,
      madeHeader name type size (257 + i) = (ustar.chars ++ [0]).getD i 0 := by
    intro i hi
    rw [mem_range] at hi
    rw [madeHeader_of_not_chksum (by omega)]
    unfold headerBody
    simp (disch := omega) only [putString_below, update_of_ne]
    by_cases h5 : i < ustar.chars.length
    · rw [putString_inside h5, getD_append _ _ _ _ h5]
    · obtain rfl : i = ustar.chars.length := by
        rw [length_ustar] at h5 ⊢
        omega
      exact putString_nul
  exact (map_congr_left hbyte).trans rfl

theorem madeHeader_version : madeHeader name type size 263 = '0'.toUInt8 ∧
    madeHeader name type size 264 = '0'.toUInt8 := by
  constructor
  · rw [madeHeader_of_not_chksum (by decide)]
    unfold headerBody
    simp (disch := omega) only [putString_below, update_self]
  · rw [madeHeader_of_not_chksum (by decide)]
    unfold headerBody
    simp (disch := omega) only [putString_below, update_of_ne, update_self]

theorem madeHeader_prefix (hlen : name.chars.length ≤ 99) : madeHeader name type size 345 = 0 := by
  rw [madeHeader_of_not_chksum (by decide)]
  unfold headerBody
  simp (disch := (try simp only [length_octalDigits, length_seven, length_ustar, length_root]); omega)
    only [putString_above, update_of_ne]

/-- The name is found again. -/
theorem headerName_madeHeader (hlen : name.chars.length ≤ 99) :
    headerName (madeHeader name type size) = name := by
  have hlt : name.chars.length < 100 := by omega
  apply CString.ext_chars
  rw [chars_headerName]
  refine CString.takeWhile_range hlt (fun i hi => ?_) ?_
  · rw [madeHeader_name (by omega), ← Nat.zero_add i, putString_inside hi, Nat.zero_add]
  · rw [madeHeader_name (by omega)]
    simpa using @putString_nul (fun _ => 0) 0 name.chars

/-- **The header is accepted.** -/
theorem validHeader_madeHeader (hlen : name.chars.length ≤ 99) (hsize : size ≤ 2 ^ 31 - 1) :
    ValidHeader (madeHeader name type size) type (if type = .regular then size else 0) where
  magic := madeHeader_magic
  version := madeHeader_version
  chksum := by
    rw [calculateChksum_madeHeader]
    have hlt := calculateChksum_lt (headerBody name type size)
    exact parseOctalField_octalDigits (by omega) hlt (by decide) (fun j hj => madeHeader_chksum hj)
      madeHeader_chksum_nul
  name := by
    rw [madeHeader_name (by decide)]
    unfold putString
    rw [if_neg (by omega), ite_self]
  noPrefix := madeHeader_prefix hlen
  typeflag := by
    rw [headerType, madeHeader_type]
    cases type <;> rfl
  size := by
    cases type with
    | directory => rfl
    | regular =>
      have hfield : parseOctalField (madeHeader name .regular size) 124 12 = some size :=
        parseOctalField_octalDigits (by omega) (by omega) (by decide)
          (fun j hj => madeHeader_size hj) madeHeader_size_nul
      simp only [headerSize, hfield, if_true, if_neg (show ¬2 ^ 31 - 1 < size by omega)]

/-- A header whose checksum field has a digit in it is not the end of an archive. -/
theorem isAllZeros_eq_false {h : Buffer} {i : ℕ} (hi : i < 512) (hne : h i ≠ 0) :
    isAllZeros h 512 = false := by
  rw [isAllZeros, all_eq_false]
  exact ⟨i, mem_range.mpr hi, by simpa using hne⟩

theorem madeHeader_digit_ne_zero : madeHeader name type size (148 + 0) ≠ 0 := by
  have hdigit : ∀ d < 8, UInt8.ofNat (48 + d) ≠ 0 := by decide
  rw [madeHeader_chksum (by decide), getD_octalDigits (by decide)]
  exact hdigit _ (Nat.mod_lt _ (by decide))

end Fields

/-- A header of which the checks fail. -/
theorem ustarParseHeader_error {h : Buffer} (hzero : isAllZeros h 512 = false)
    (hinvalid : ∀ type size, ¬ValidHeader h type size) :
    ∃ e, ustarParseHeader h = .ok (.error e) := by
  unfold ustarParseHeader
  rw [hzero]
  cases hcheck : checkHeader h with
  | error e => exact ⟨e, rfl⟩
  | ok r => exact absurd (checkHeader_eq_ok.mp hcheck) (hinvalid r.1 r.2)

/-- **A header that was made is read again.** -/
theorem ustarParseHeader_madeHeader {name : CString} {size : ℕ} (type : UstarType)
    (hharm : Harmless name) (hlen : name.chars.length ≤ 99) (hsize : size ≤ 2 ^ 31 - 1) :
    ustarParseHeader (madeHeader name type size)
      = .ok (.file name type (if type = .regular then size else 0)) := by
  have hcheck : checkHeader (madeHeader name type size)
      = .ok (type, if type = .regular then size else 0) :=
    checkHeader_eq_ok.mpr (validHeader_madeHeader hlen hsize)
  obtain ⟨r, hr, -, -, hself⟩ := stripAntisocialPrefixes_ok name
  rw [hself hharm] at hr
  unfold ustarParseHeader
  rw [isAllZeros_eq_false (by decide) madeHeader_digit_ne_zero, hcheck, headerName_madeHeader hlen, hr]
  cases type <;> rfl

/-- **Headers decode to what was encoded**, and a header of which a byte has changed is refused. -/
theorem ustar_header_roundtrip (fileName : CString) (type : UstarType) (size : ℤ)
    (hlo : 0 ≤ size) (hhi : size ≤ 2 ^ 31 - 1) :
    ∃ name, stripAntisocialPrefixes fileName = .ok name ∧
      (99 < name.chars.length → ustarMakeHeader fileName type size = .ok none) ∧
      (name.chars.length ≤ 99 → ∃ header,
        ustarMakeHeader fileName type size = .ok (some header) ∧
        ustarParseHeader header = .ok (.file name type (if type = .regular then size else 0)) ∧
        ∀ i < 512, ¬(148 ≤ i ∧ i < 156) → ∀ v ≠ header i,
          ∃ e, ustarParseHeader (update header i v) = .ok (.error e)) := by
  obtain ⟨name, hstrip, hharm, -⟩ := stripAntisocialPrefixes_ok fileName
  refine ⟨name, hstrip, fun hlen => ?_, fun hlen => ?_⟩
  · unfold ustarMakeHeader
    simp only [hstrip, bind, Except.bind, hlen, if_true]
  · lift size to ℕ using hlo
    have hmod : ((size : ℤ) % 2 ^ 32).toNat = size := by omega
    have hmake := ustarMakeHeader_eq type size hstrip hlen
    rw [hmod] at hmake
    have hsize : size ≤ 2 ^ 31 - 1 := by omega
    refine ⟨_, hmake, ?_, fun i hi hout v hv => ?_⟩
    · rw [ustarParseHeader_madeHeader type hharm hlen hsize]
    · have hdigit : update (madeHeader name type size) i v (148 + 0) ≠ 0 := by
        rw [update_of_ne (by omega)]
        exact madeHeader_digit_ne_zero
      refine ustarParseHeader_error (isAllZeros_eq_false (by decide) hdigit) ?_
      · intro type' size' hvalid
        -- the field still has the old sum, and the sum is a new one
        have hfield : parseOctalField (update (madeHeader name type size) i v) 148 8
            = some (calculateChksum (madeHeader name type size)) := by
          have hlt := calculateChksum_lt (headerBody name type size)
          rw [calculateChksum_madeHeader]
          refine parseOctalField_octalDigits (by omega) hlt (by decide) (fun j hj => ?_) ?_
          · rw [update_of_ne (by omega)]
            exact madeHeader_chksum hj
          · rw [update_of_ne (by omega)]
            exact madeHeader_chksum_nul
        have hsame := Option.some.inj (hfield.symm.trans hvalid.chksum)
        have hsum := calculateChksum_update (h := madeHeader name type size) hi hout v
        rw [← hsame] at hsum
        exact hv (UInt8.toNat_inj.mp (by omega))

theorem notes_nonzero : 0 ∉ ascii ['n', 'o', 't', 'e', 's'] := by decide

/-- "notes" -/
def notes : CString := ⟨ascii ['n', 'o', 't', 'e', 's'], notes_nonzero⟩

theorem ustar_header_roundtrip_notes : ∃ header,
    ustarMakeHeader notes .regular 5 = .ok (some header) ∧
      ustarParseHeader header = .ok (.file notes .regular 5) := by
  obtain ⟨name, hstrip, -, hmake⟩ := ustar_header_roundtrip notes .regular 5 (by decide) (by decide)
  have hname : stripAntisocialPrefixes notes = .ok notes := rfl
  obtain rfl : notes = name := Except.ok.inj (hname.symm.trans hstrip)
  obtain ⟨header, hheader, hparse, -⟩ := hmake (by decide)
  exact ⟨header, hheader, hparse⟩

/-- **A name from an archive is never dangerous.** -/
theorem parsed_name_harmless (h : Buffer) (name : CString) (type : UstarType) (size : ℤ)
    (hparse : ustarParseHeader h = .ok (.file name type size)) :
    Harmless name ∧ name.chars.length ≤ 99 ∧ 0 ≤ size ∧ size ≤ 2 ^ 31 - 1 ∧
      stripAntisocialPrefixes name = .ok name ∧ ∀ s, ∃ r, stripAntisocialPrefixes s = .ok r := by
  unfold ustarParseHeader at hparse
  split at hparse
  · cases hparse
  · split at hparse
    · cases hparse
    next r hcheck =>
      obtain ⟨type', size'⟩ := r
      obtain ⟨r, hr, hharm, hlen, -⟩ := stripAntisocialPrefixes_ok (headerName h)
      simp only [hr, bind, Except.bind, Except.ok.injEq, UstarEntry.file.injEq] at hparse
      obtain ⟨rfl, rfl, rfl⟩ := hparse
      have hv := checkHeader_eq_ok.mp hcheck
      have hname := headerName_length hv.name
      have hsize := headerSize_le hv.size
      obtain ⟨r', hr', -, -, hself⟩ := stripAntisocialPrefixes_ok r
      refine ⟨hharm, by omega, Int.natCast_nonneg _, by omega, ?_, fun s => ?_⟩
      · rw [hr', hself hharm]
      · obtain ⟨r, hr, -⟩ := stripAntisocialPrefixes_ok s
        exact ⟨r, hr⟩

theorem parsed_name_harmless_notes :
    ustarParseHeader (madeHeader notes .regular 5) = .ok (.file notes .regular 5) ∧
      Harmless notes := by
  have hharm : Harmless notes := by constructor <;> decide
  have hparse : ustarParseHeader (madeHeader notes .regular 5) = .ok (.file notes .regular 5) :=
    ustarParseHeader_madeHeader .regular hharm (by decide) (by decide)
  exact ⟨hparse, (parsed_name_harmless _ notes .regular 5 hparse).1⟩

end Pintos
