import Mathlib.Algebra.Group.Int.Defs
import Mathlib.Algebra.Group.Nat.Defs

/-!
# The 17.14 fixed-point numbers of `threads/fixed-point.h`

A `fixed_point` is an `int`. Every operation is the C expression of the header: sums, products
and quotients of `int` are taken in 32 bits (`toInt32`), `fp_mul` and `fp_div` go through a
64-bit intermediate, and `/` truncates toward zero. An `int` overflow is undefined in C; the
model wraps it, as the compiled code does.

Next to each operation stands its checked version (`fpMul?` for `fpMul`), which has no value if
an intermediate value of the expression does not fit its type. Where the checked version has a
value, the operation has the same.
-/

namespace Pintos

/-- The value an `int` holds after an assignment. -/
def toInt32 (x : ℤ) : ℤ := x.bmod (2 ^ 32)

/-- The value an `int64_t` holds after an assignment. -/
def toInt64 (x : ℤ) : ℤ := x.bmod (2 ^ 64)

/-- A value that fits is stored as it is. -/
theorem toInt32_bounds (x : ℤ) : -2 ^ 31 ≤ toInt32 x ∧ toInt32 x < 2 ^ 31 :=
  ⟨Int.le_bmod (by decide), Int.bmod_lt (by decide)⟩

theorem toInt32_of_fits {x : ℤ} (hlo : -2 ^ 31 ≤ x) (hhi : x < 2 ^ 31) : toInt32 x = x :=
  Int.bmod_eq_of_le (by omega) (by omega)

theorem toInt64_of_fits {x : ℤ} (hlo : -2 ^ 63 ≤ x) (hhi : x < 2 ^ 63) : toInt64 x = x :=
  Int.bmod_eq_of_le (by omega) (by omega)

/-- The value of an `int` expression, if it does not overflow. -/
def int32? (x : ℤ) : Option ℤ := if -2 ^ 31 ≤ x ∧ x < 2 ^ 31 then some x else none

/-- The value of an `int64_t` expression, if it does not overflow. -/
def int64? (x : ℤ) : Option ℤ := if -2 ^ 63 ≤ x ∧ x < 2 ^ 63 then some x else none

theorem int32?_of_fits {x : ℤ} (hlo : -2 ^ 31 ≤ x) (hhi : x < 2 ^ 31) : int32? x = some x :=
  if_pos ⟨hlo, hhi⟩

theorem int64?_of_fits {x : ℤ} (hlo : -2 ^ 63 ≤ x) (hhi : x < 2 ^ 63) : int64? x = some x :=
  if_pos ⟨hlo, hhi⟩

/-- An expression that does not overflow is stored as it is. -/
theorem toInt32_of_int32? {x y : ℤ} (h : int32? x = some y) : x = y ∧ toInt32 x = y := by
  unfold int32? at h
  split at h
  · next hfits =>
    cases h
    exact ⟨rfl, toInt32_of_fits hfits.1 hfits.2⟩
  · cases h

theorem toInt64_of_int64? {x y : ℤ} (h : int64? x = some y) : x = y ∧ toInt64 x = y := by
  unfold int64? at h
  split at h
  · next hfits =>
    cases h
    exact ⟨rfl, toInt64_of_fits hfits.1 hfits.2⟩
  · cases h

/-- `F_BITS`, the scale factor. -/
def fBits : ℤ := 16384

def itofp (x : ℤ) : ℤ := toInt32 (x * fBits)

def fptoi (x : ℤ) : ℤ := x.tdiv fBits

def fptoiRound (x : ℤ) : ℤ :=
  if 0 ≤ x then (toInt32 (x + fBits / 2)).tdiv fBits
  else (toInt32 (x - fBits / 2)).tdiv fBits

def fpAdd (a b : ℤ) : ℤ := toInt32 (a + b)

def fpMul (a b : ℤ) : ℤ := toInt32 ((toInt64 (a * b)).tdiv fBits)

def fpDiv (a b : ℤ) : ℤ := toInt32 ((toInt64 (a * fBits)).tdiv b)

def fpIntAdd (a b : ℤ) : ℤ := toInt32 (a + toInt32 (b * fBits))

def fpIntMul (a b : ℤ) : ℤ := toInt32 (a * b)

def fpIntDiv (a b : ℤ) : ℤ := toInt32 (a.tdiv b)

/-! ### The checked operations -/

def itofp? (x : ℤ) : Option ℤ := int32? (x * fBits)

def fptoiRound? (x : ℤ) : Option ℤ :=
  if 0 ≤ x then (int32? (x + fBits / 2)).map fun y => y.tdiv fBits
  else (int32? (x - fBits / 2)).map fun y => y.tdiv fBits

def fpAdd? (a b : ℤ) : Option ℤ := int32? (a + b)

def fpMul? (a b : ℤ) : Option ℤ := do
  let p ← int64? (a * b)
  int32? (p.tdiv fBits)

def fpDiv? (a b : ℤ) : Option ℤ := do
  let p ← int64? (a * fBits)
  if b = 0 then none else int32? (p.tdiv b)

def fpIntAdd? (a b : ℤ) : Option ℤ := do
  let s ← int32? (b * fBits)
  int32? (a + s)

def fpIntMul? (a b : ℤ) : Option ℤ := int32? (a * b)

def fpIntDiv? (a b : ℤ) : Option ℤ := if b = 0 then none else int32? (a.tdiv b)

section Checked

variable {a b x : ℤ}

theorem itofp_of_checked (h : itofp? a = some x) : itofp a = x := (toInt32_of_int32? h).2

theorem fptoiRound_of_checked (h : fptoiRound? a = some x) : fptoiRound a = x := by
  unfold fptoiRound? at h
  unfold fptoiRound
  split at h <;>
  · next hsign =>
    obtain ⟨y, hy, rfl⟩ := Option.map_eq_some_iff.mp h
    simp only [hsign, if_true, if_false, (toInt32_of_int32? hy).2]

theorem fpAdd_of_checked (h : fpAdd? a b = some x) : fpAdd a b = x := (toInt32_of_int32? h).2

theorem fpMul_of_checked (h : fpMul? a b = some x) : fpMul a b = x := by
  obtain ⟨p, hp, h⟩ := Option.bind_eq_some_iff.mp h
  unfold fpMul
  rw [(toInt64_of_int64? hp).2, (toInt32_of_int32? h).2]

theorem fpDiv_of_checked (h : fpDiv? a b = some x) : fpDiv a b = x := by
  obtain ⟨p, hp, h⟩ := Option.bind_eq_some_iff.mp h
  split at h
  · cases h
  · unfold fpDiv
    rw [(toInt64_of_int64? hp).2, (toInt32_of_int32? h).2]

theorem fpIntAdd_of_checked (h : fpIntAdd? a b = some x) : fpIntAdd a b = x := by
  obtain ⟨s, hs, h⟩ := Option.bind_eq_some_iff.mp h
  unfold fpIntAdd
  rw [(toInt32_of_int32? hs).2, (toInt32_of_int32? h).2]

theorem fpIntMul_of_checked (h : fpIntMul? a b = some x) : fpIntMul a b = x :=
  (toInt32_of_int32? h).2

end Checked

end Pintos
