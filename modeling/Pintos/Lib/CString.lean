import Pintos.Lib.Memory

/-!
# Strings

A string of C ends with a NUL. What is behind the NUL belongs to someone else, so a function that
looks there (`CString.charAt`) goes wrong.
-/

namespace Pintos

open List

/-- A string of C: no character is NUL. -/
structure CString where
  chars : List UInt8
  nonzero : 0 ∉ chars

theorem CString.ext_chars {s t : CString} (h : s.chars = t.chars) : s = t := by
  obtain ⟨chars, nonzero⟩ := s
  obtain ⟨chars', nonzero'⟩ := t
  obtain rfl : chars = chars' := h
  rfl

/-- `strlcpy (dst + dofs, src, size)`. -/
def strlcpy (dst : Buffer) (dofs : ℕ) (src : CString) (size : ℕ) : Buffer :=
  let n := min src.chars.length (size - 1)
  fun i =>
    if dofs ≤ i ∧ i < dofs + n then src.chars.getD (i - dofs) 0
    else if i = dofs + n then 0
    else dst i

/-- What goes wrong with a string: a character behind its NUL is looked at, a null pointer is used, or
a loop is cut off. -/
inductive StringFault where
  | pastNul
  | nullPointer
  | fuel
  deriving DecidableEq, Repr

/-- `s[i]`. -/
def CString.charAt (s : CString) (i : ℕ) : Except StringFault UInt8 :=
  if i < s.chars.length then .ok (s.chars.getD i 0)
  else if i = s.chars.length then .ok 0
  else .error .pastNul

/-- The string at `s + i`. -/
def CString.drop (s : CString) (i : ℕ) : CString :=
  ⟨s.chars.drop i, fun h => s.nonzero (mem_of_mem_drop h)⟩

/-- A pointer into the string, by what is left of the string there. -/
structure CString.At (s : CString) (i : ℕ) (cs : List UInt8) : Prop where
  le : i ≤ s.chars.length
  rest : s.chars.drop i = cs

namespace CString.At

variable {s : CString} {i : ℕ} {c : UInt8} {cs : List UInt8}

theorem lt (h : s.At i (c :: cs)) : i < s.chars.length := by
  have hlen := congrArg List.length h.rest
  rw [length_drop, length_cons] at hlen
  omega

theorem eq_length (h : s.At i []) : i = s.chars.length :=
  Nat.le_antisymm h.le (drop_eq_nil_iff.mp h.rest)

theorem charAt_cons (h : s.At i (c :: cs)) : s.charAt i = .ok c := by
  have hget : s.chars[i]? = some c := by
    rw [← Nat.add_zero i, ← List.getElem?_drop, h.rest]
    rfl
  rw [CString.charAt, if_pos h.lt, getD_eq_getElem?_getD, hget, Option.getD_some]

/-- The NUL is a character of the string. -/
theorem charAt_nil (h : s.At i []) : s.charAt i = .ok 0 := by
  rw [CString.charAt, if_neg h.eq_length.not_lt, if_pos h.eq_length]

/-- What is behind the NUL is none. -/
theorem charAt_past (h : s.At i []) : s.charAt (i + 1) = .error .pastNul := by
  have hi := h.eq_length
  rw [CString.charAt, if_neg (by omega), if_neg (by omega)]

theorem next (h : s.At i (c :: cs)) : s.At (i + 1) cs := by
  refine ⟨h.lt, ?_⟩
  rw [← drop_drop, h.rest]
  rfl

theorem ne_zero (h : s.At i (c :: cs)) : c ≠ 0 := by
  rintro rfl
  refine s.nonzero (mem_of_mem_drop (i := i) ?_)
  rw [h.rest]
  exact mem_cons_self

theorem start (s : CString) : s.At 0 s.chars := ⟨Nat.zero_le _, rfl⟩

end CString.At

/-- **A string in a buffer** of `n` bytes, read up to its NUL. -/
theorem CString.takeWhile_range {s : CString} {b : Buffer} {n : ℕ} (hlen : s.chars.length < n)
    (hchars : ∀ i < s.chars.length, b i = s.chars.getD i 0) (hnul : b s.chars.length = 0) :
    ((List.range n).map b).takeWhile (· ≠ 0) = s.chars := by
  have hsplit : List.range n = List.range s.chars.length ++
      (s.chars.length :: List.range' (s.chars.length + 1) (n - 1 - s.chars.length)) := by
    have happend := List.range'_append_1 (s := 0) (m := s.chars.length)
      (n := n - 1 - s.chars.length + 1)
    rw [Nat.zero_add] at happend
    rw [range_eq_range', range_eq_range', ← List.range'_succ, happend]
    congr 1
    omega
  have hfirst : (List.range s.chars.length).map b = s.chars := by
    refine ext_getElem (by simp) fun i _ hi => ?_
    rw [getElem_map, getElem_range, hchars i hi]
    simp [getD_eq_getElem?_getD, hi]
  rw [hsplit, map_append, map_cons, hfirst, hnul, takeWhile_append_of_pos]
  · simp
  · intro c hc
    exact decide_eq_true fun hzero => s.nonzero (hzero ▸ hc)

end Pintos
