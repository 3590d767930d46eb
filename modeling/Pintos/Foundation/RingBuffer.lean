import Mathlib.Data.List.Range

/-!
# Ring buffers

A ring of `n` cells with two positions, `head`, where the next element is stored, and `tail`, where
the next one is read. The ring is empty when they are equal, so at most `n - 1` elements fit. What
the ring holds is the list of the cells from `tail` on, up to `head` and around the end
(`contents`).

* `contents_put` — a store at `head` appends to the list, unless the ring is full;
* `contents_get` — the element at `tail` is the first of the list, unless the ring is empty.

Cells outside the span between `tail` and `head` keep what they held, and the list does not depend
on them.
-/

namespace RingBuffer

open List

variable {α : Type} {n : ℕ}

/-- The position after `pos`. -/
def next (n pos : ℕ) : ℕ := (pos + 1) % n

/-- How many elements the ring holds. -/
def span (n tail head : ℕ) : ℕ := (head + n - tail) % n

/-- The elements from `tail` to `head`, in the order in which they were stored. -/
def contents (n : ℕ) (buf : ℕ → α) (tail head : ℕ) : List α :=
  (List.range (span n tail head)).map fun i => buf ((tail + i) % n)

section Span

variable {tail head : ℕ}

theorem next_lt (hn : 0 < n) (pos : ℕ) : next n pos < n := Nat.mod_lt _ hn

/-- The successor of a position, without the remainder. -/
theorem next_eq (h : head < n) : next n head = if head + 1 = n then 0 else head + 1 := by
  unfold next
  split
  · next hlast => rw [hlast, Nat.mod_self]
  · next hlast => exact Nat.mod_eq_of_lt (by omega)

/-- The number of elements, without the remainder. -/
theorem span_eq (ht : tail < n) (hh : head < n) :
    span n tail head = if tail ≤ head then head - tail else head + n - tail := by
  unfold span
  split
  · next hle =>
    rw [show head + n - tail = (head - tail) + n by omega, Nat.add_mod_right]
    exact Nat.mod_eq_of_lt (by omega)
  · next hle => exact Nat.mod_eq_of_lt (by omega)

theorem span_lt (hn : 0 < n) : span n tail head < n := Nat.mod_lt _ hn

theorem span_eq_zero_iff (ht : tail < n) (hh : head < n) : span n tail head = 0 ↔ head = tail := by
  rw [span_eq ht hh]
  split <;> omega

theorem span_next_head (ht : tail < n) (hh : head < n) (hfull : next n head ≠ tail) :
    span n tail (next n head) = span n tail head + 1 := by
  rw [span_eq ht (next_lt (by omega) head), span_eq ht hh]
  rw [next_eq hh] at hfull ⊢
  by_cases hlast : head + 1 = n
  · rw [if_pos hlast] at hfull ⊢
    split <;> split <;> omega
  · rw [if_neg hlast] at hfull ⊢
    split <;> split <;> omega

theorem span_next_tail (ht : tail < n) (hh : head < n) (hempty : head ≠ tail) :
    span n tail head = span n (next n tail) head + 1 := by
  rw [span_eq ht hh, span_eq (next_lt (by omega) tail) hh, next_eq ht]
  by_cases hlast : tail + 1 = n
  · rw [if_pos hlast]
    split <;> split <;> omega
  · rw [if_neg hlast]
    split <;> split <;> omega

/-- Walking all the way from `tail` ends at `head`. -/
theorem tail_add_span (ht : tail < n) (hh : head < n) : (tail + span n tail head) % n = head := by
  rw [span_eq ht hh]
  split
  · rw [show tail + (head - tail) = head by omega]
    exact Nat.mod_eq_of_lt hh
  · rw [show tail + (head + n - tail) = head + n by omega, Nat.add_mod_right]
    exact Nat.mod_eq_of_lt hh

/-- The walk from `tail` meets `head` at its end only. -/
theorem tail_add_ne_head (ht : tail < n) (hh : head < n) {i : ℕ} (hi : i < span n tail head) :
    (tail + i) % n ≠ head := by
  rw [span_eq ht hh] at hi
  by_cases hwrap : tail + i < n
  · rw [Nat.mod_eq_of_lt hwrap]
    split at hi <;> omega
  · rw [Nat.mod_eq_sub_mod (not_lt.mp hwrap)]
    have hlt : tail + i - n < n := by split at hi <;> omega
    rw [Nat.mod_eq_of_lt hlt]
    split at hi <;> omega

end Span

section Contents

variable {buf : ℕ → α} {tail head : ℕ}

theorem length_contents : (contents n buf tail head).length = span n tail head := by
  rw [contents, length_map, length_range]

theorem contents_eq_nil_iff (ht : tail < n) (hh : head < n) :
    contents n buf tail head = [] ↔ head = tail := by
  rw [← length_eq_zero_iff, length_contents, span_eq_zero_iff ht hh]

/-- **Storing** appends an element. -/
theorem contents_put (ht : tail < n) (hh : head < n) (hfull : next n head ≠ tail) (x : α) :
    contents n (Function.update buf head x) tail (next n head) =
      contents n buf tail head ++ [x] := by
  unfold contents
  rw [span_next_head ht hh hfull, range_succ, map_append, map_singleton,
    tail_add_span ht hh, Function.update_self]
  congr 1
  -- the cells in front of `head` are those from before
  refine map_congr_left fun i hi => ?_
  rw [Function.update_of_ne (tail_add_ne_head ht hh (mem_range.mp hi))]

/-- **Reading** removes the first element. -/
theorem contents_get (ht : tail < n) (hh : head < n) (hempty : head ≠ tail) :
    contents n buf tail head = buf tail :: contents n buf (next n tail) head := by
  unfold contents
  rw [span_next_tail ht hh hempty, range_succ_eq_map, map_cons, map_map,
    Nat.add_zero, Nat.mod_eq_of_lt ht]
  congr 1
  refine map_congr_left fun i _ => congrArg buf ?_
  change (tail + (i + 1)) % n = ((tail + 1) % n + i) % n
  rw [Nat.mod_add_mod, show tail + (i + 1) = tail + 1 + i by omega]

end Contents

end RingBuffer
