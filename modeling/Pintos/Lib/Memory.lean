import Mathlib.Algebra.Order.Group.Nat

/-!
# Buffer in memory

The buffers the kernel passes around are functions from an index to a byte; the caller knows how
many of them are there. `memcpy` copies a range, and a little-endian 32-bit word is read and
written byte by byte, as the processor does it.

* `memcpy_memcpy` — two copies in a row that continue each other are one;
* `memmove_eq` — `memmove` copies in the right direction, and `memmove_contract_iff` — the pointer it
  returns is the end of the destination after the upward loop;
* `le32_of_putLe32` — a word that is stored and loaded again.
-/

namespace Pintos

/-- What stops the kernel: a failed assertion, a `PANIC`, a pointer that points nowhere, or a
caller that breaks the rules. -/
inductive Panic where
  /-- `ASSERT` -/
  | assertion
  /-- `check_sector`: "Access past end of device" -/
  | pastEnd
  /-- `free_map_init`: "bitmap creation failed--file system device is too large" -/
  | tooLarge
  /-- `free_map_create`: "free map creation failed" -/
  | freeMapCreation
  /-- `free_map_create`, `free_map_open`: "can't open free map" -/
  | freeMapOpen
  /-- `free_map_create`: "can't write free map" -/
  | freeMapWrite
  /-- `free_map_open`: "can't read free map" -/
  | freeMapRead
  /-- `do_format`: "root directory creation failed" -/
  | rootCreation
  /-- `read_partition_table`: "Failed to allocate memory for partition table." -/
  | tableMemory
  /-- `found_partition`: "Failed to allocate memory for partition descriptor" -/
  | partitionMemory
  /-- `block_register`: "Failed to allocate memory for block device descriptor" -/
  | blockMemory
  /-- `init_pool`: "Not enough memory in %s for bitmap." -/
  | poolMemory
  /-- `NOT_REACHED` -/
  | notReached
  /-- A null pointer is followed. -/
  | nullPointer
  /-- The caller uses a file that is not open. -/
  | badHandle
  deriving DecidableEq, Repr

/-- A buffer. -/
abbrev Buffer := ℕ → UInt8

/-- `memcpy (dst + dofs, src + sofs, n)`: what `dst` holds afterwards. -/
def memcpy (dst : Buffer) (dofs : ℕ) (src : Buffer) (sofs n : ℕ) : Buffer := fun i =>
  if dofs ≤ i ∧ i < dofs + n then src (sofs + (i - dofs)) else dst i

section memcpy

variable {dst src : Buffer} {dofs sofs n m i : ℕ}

theorem memcpy_inside (hlo : dofs ≤ i) (hhi : i < dofs + n) :
    memcpy dst dofs src sofs n i = src (sofs + (i - dofs)) :=
  if_pos ⟨hlo, hhi⟩

theorem memcpy_outside (h : i < dofs ∨ dofs + n ≤ i) : memcpy dst dofs src sofs n i = dst i :=
  if_neg (by omega)

@[simp] theorem memcpy_zero : memcpy dst dofs src sofs 0 = dst := by
  funext i
  exact memcpy_outside (by omega)

/-- A copy that continues where the last one stopped. -/
theorem memcpy_memcpy : memcpy (memcpy dst dofs src sofs n) (dofs + n) src (sofs + n) m
    = memcpy dst dofs src sofs (n + m) := by
  funext i
  by_cases hlo : dofs ≤ i
  · by_cases hn : i < dofs + n
    · rw [memcpy_outside (by omega), memcpy_inside hlo hn, memcpy_inside hlo (by omega)]
    · by_cases hm : i < dofs + n + m
      · rw [memcpy_inside (by omega) hm, memcpy_inside hlo (by omega)]
        congr 1
        omega
      · rw [memcpy_outside (by omega), memcpy_outside (by omega), memcpy_outside (by omega)]
  · rw [memcpy_outside (by omega), memcpy_outside (by omega), memcpy_outside (by omega)]

end memcpy

/-! ### Ranges that overlap -/

/-- `while (size-- > 0) *dst++ = *src++;` and the `dst` it ends with. Here the two ranges are in one
memory; they end in it, so the addresses do not wrap. -/
def copyUp : ℕ → ℕ → ℕ → Buffer → ℕ × Buffer
  | 0, dst, _, mem => (dst, mem)
  | size + 1, dst, src, mem => copyUp size (dst + 1) (src + 1) (Function.update mem dst (mem src))

/-- `while (size-- > 0) *--dst = *--src;` and the `dst` it ends with. -/
def copyDown : ℕ → ℕ → ℕ → Buffer → ℕ × Buffer
  | 0, dst, _, mem => (dst, mem)
  | size + 1, dst, src, mem =>
    copyDown size (dst - 1) (src - 1) (Function.update mem (dst - 1) (mem (src - 1)))

/-- `memmove`: what it returns, and the memory afterwards. -/
def memmove (mem : Buffer) (dst src size : ℕ) : Except Panic (ℕ × Buffer) :=
  if (dst ≠ 0 ∨ size = 0) ∧ (src ≠ 0 ∨ size = 0) then
    if dst < src then .ok (copyUp size dst src mem) else .ok (copyDown size (dst + size) (src + size) mem)
  else .error .assertion

/-- A range of memory, in which there is no byte at the null pointer. -/
def InMemory (a size : ℕ) : Prop := (a ≠ 0 ∨ size = 0) ∧ a + size ≤ 2 ^ 32

instance (a size : ℕ) : Decidable (InMemory a size) := inferInstanceAs (Decidable (_ ∧ _))

/-- **What `memmove` is for**: the bytes at `src` are at `dst`, nothing else has changed, and `dst` is
returned. -/
structure Moved (mem : Buffer) (dst src size : ℕ) (r : ℕ × Buffer) : Prop where
  bytes : ∀ i < size, r.2 (dst + i) = mem (src + i)
  frame : ∀ a, a < dst ∨ dst + size ≤ a → r.2 a = mem a
  pointer : r.1 = dst

section memmove

variable {mem : Buffer} {dst src size : ℕ}

/-- Going up, a byte that is overwritten has been read. -/
theorem copyUp_eq (h : dst ≤ src) : copyUp size dst src mem = (dst + size, memcpy mem dst mem src size) := by
  induction size generalizing dst src mem with
  | zero => rw [memcpy_zero, copyUp, Nat.add_zero]
  | succ size ih =>
    rw [copyUp, ih (Nat.add_le_add_right h 1), Nat.add_assoc, Nat.add_comm 1]
    congr 1
    funext i
    by_cases hi : i < dst + 1 ∨ dst + 1 + size ≤ i
    · rw [memcpy_outside hi]
      by_cases hd : i = dst
      · rw [hd, Function.update_self, memcpy_inside le_rfl (by omega), Nat.sub_self, Nat.add_zero]
      · rw [Function.update_of_ne hd, memcpy_outside (by omega)]
    · rw [memcpy_inside (by omega) (by omega), memcpy_inside (by omega) (by omega),
        Function.update_of_ne (by omega)]
      congr 1
      omega

/-- And so it has going down, from the ends of the ranges. -/
theorem copyDown_eq (h : src ≤ dst) :
    copyDown size (dst + size) (src + size) mem = (dst, memcpy mem dst mem src size) := by
  induction size generalizing mem with
  | zero => rw [memcpy_zero, copyDown, Nat.add_zero]
  | succ size ih =>
    rw [copyDown, Nat.add_succ_sub_one, Nat.add_succ_sub_one, ih]
    congr 1
    funext i
    by_cases hi : i < dst ∨ dst + size ≤ i
    · rw [memcpy_outside hi]
      by_cases hd : i = dst + size
      · rw [hd, Function.update_self, memcpy_inside (by omega) (by omega), Nat.add_sub_cancel_left]
      · rw [Function.update_of_ne hd, memcpy_outside (by omega)]
    · rw [memcpy_inside (by omega) (by omega), memcpy_inside (by omega) (by omega),
        Function.update_of_ne (by omega)]

/-- **`memmove`** is a copy out of the memory as it was. -/
theorem memmove_eq (hdst : InMemory dst size) (hsrc : InMemory src size) :
    memmove mem dst src size =
      .ok (if dst < src then dst + size else dst, memcpy mem dst mem src size) := by
  unfold memmove
  rw [if_pos ⟨hdst.1, hsrc.1⟩]
  by_cases h : dst < src
  · rw [if_pos h, if_pos h, copyUp_eq h.le]
  · rw [if_neg h, if_neg h, copyDown_eq (not_lt.mp h)]

/-- **`memmove` does what it is for** unless the destination is below the source. Then the loop that runs
leaves `dst` behind the last byte, and that is what is returned. -/
theorem memmove_contract_iff (hdst : InMemory dst size) (hsrc : InMemory src size) :
    (∃ r, memmove mem dst src size = .ok r ∧ Moved mem dst src size r) ↔ ¬ (dst < src ∧ 0 < size) := by
  rw [memmove_eq hdst hsrc]
  constructor
  · rintro ⟨r, hr, hmoved⟩ ⟨hlt, hpos⟩
    have hend := hmoved.pointer
    rw [← Except.ok.inj hr, if_pos hlt] at hend
    omega
  · intro hnot
    refine ⟨_, rfl, fun i hi => ?_, fun a ha => memcpy_outside ha, ?_⟩
    · exact (memcpy_inside (by omega) (by omega)).trans (by rw [Nat.add_sub_cancel_left])
    · split <;> omega

/-- Four bytes are moved two bytes up. -/
theorem memmove_contract_iff_up :
    ∃ r, memmove (fun a => UInt8.ofNat a) 12 10 4 = .ok r ∧ Moved (fun a => UInt8.ofNat a) 12 10 4 r :=
  (memmove_contract_iff (by decide) (by decide)).mpr (by decide)

/-- Four bytes are moved two bytes down, and the end of the destination is returned. -/
theorem memmove_returns_end : ∃ mem', memmove (fun a => UInt8.ofNat a) 10 12 4 = .ok (14, mem') :=
  ⟨_, rfl⟩

end memmove

/-! ### Words -/

/-- The 32-bit word at `b + o`. -/
def le32 (b : Buffer) (o : ℕ) : ℕ :=
  (b o).toNat + 2 ^ 8 * (b (o + 1)).toNat + 2 ^ 16 * (b (o + 2)).toNat + 2 ^ 24 * (b (o + 3)).toNat

/-- Byte `i` of a word. -/
def putLe32 (x i : ℕ) : UInt8 := UInt8.ofNat (x / 2 ^ (8 * i))

theorem le32_lt (b : Buffer) (o : ℕ) : le32 b o < 2 ^ 32 := by
  have h0 := (b o).toNat_lt
  have h1 := (b (o + 1)).toNat_lt
  have h2 := (b (o + 2)).toNat_lt
  have h3 := (b (o + 3)).toNat_lt
  unfold le32
  omega

/-- A word depends on its four bytes. -/
theorem le32_congr {b b' : Buffer} {o o' : ℕ} (h : ∀ i < 4, b (o + i) = b' (o' + i)) :
    le32 b o = le32 b' o' := by
  unfold le32
  have h0 : b o = b' o' := h 0 (by decide)
  rw [h0, h 1 (by decide), h 2 (by decide), h 3 (by decide)]

/-- A word that is stored can be loaded again. -/
theorem le32_of_putLe32 {b : Buffer} {o x : ℕ} (hx : x < 2 ^ 32)
    (h : ∀ i < 4, b (o + i) = putLe32 x i) : le32 b o = x := by
  have h0 : b o = putLe32 x 0 := h 0 (by decide)
  unfold le32
  rw [h0, h 1 (by decide), h 2 (by decide), h 3 (by decide)]
  simp only [putLe32, UInt8.toNat_ofNat']
  omega

/-- A word that is loaded can be stored again. -/
theorem putLe32_le32 {b : Buffer} {o i : ℕ} (hi : i < 4) : putLe32 (le32 b o) i = b (o + i) := by
  have h₀ := (b o).toNat_lt
  have h₁ := (b (o + 1)).toNat_lt
  have h₂ := (b (o + 2)).toNat_lt
  have h₃ := (b (o + 3)).toNat_lt
  refine UInt8.toNat_inj.mp ?_
  obtain rfl | rfl | rfl | rfl : i = 0 ∨ i = 1 ∨ i = 2 ∨ i = 3 := by omega
  all_goals
    simp only [putLe32, le32, UInt8.toNat_ofNat', Nat.add_zero]
    omega

end Pintos
