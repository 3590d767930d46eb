import Pintos.Foundation.Ends
import Pintos.Lib.Memory

/-!
# `lib/kernel/bitmap.c`

A bitmap is an array of 32-bit elements, and its bits are reached by a shift and a mask. Everything
else in the kernel thinks of it as a sequence of bits, `Bitmap.bit`, and the lemmas of this module
say what each function does to that sequence. A function that asserts something about its arguments
returns in `Except Panic`.

* `Bitmap.ext_bit` — a bitmap is its sequence of bits;
* `bitmapSetMultiple_ends`, `bitmapContains_ends` — ranges of bits;
* `bitmapScan_ends` — the scan finds the first run of equal bits;
* `bitmapScanAndFlip_ends` — and flips it.
-/

namespace Pintos

open Total Function

/-- `struct bitmap`. -/
structure Bitmap where
  bitCnt : ℕ
  bits : ℕ → BitVec 32

/-- `elem_idx`, with `ELEM_BITS` 32. -/
def elemIdx (bitIdx : ℕ) : ℕ := bitIdx / 32

/-- `bit_mask`. -/
def bitMask (bitIdx : ℕ) : BitVec 32 := 1#32 <<< (bitIdx % 32)

/-- `elem_cnt`: the rounding up is done in 32 bits. -/
def elemCnt (bitCnt : ℕ) : ℕ := (bitCnt + 31) % 2 ^ 32 / 32

/-- `byte_cnt`. -/
def byteCnt (bitCnt : ℕ) : ℕ := 4 * elemCnt bitCnt

/-- `last_mask`. -/
def lastMask (b : Bitmap) : BitVec 32 :=
  let lastBits := b.bitCnt % 32
  if lastBits ≠ 0 then (1#32 <<< lastBits) - 1#32 else BitVec.allOnes 32

/-- `bitmap_mark`. -/
def bitmapMark (b : Bitmap) (bitIdx : ℕ) : Bitmap :=
  { b with
    bits := update b.bits (elemIdx bitIdx) (b.bits (elemIdx bitIdx) ||| bitMask bitIdx) }

/-- `bitmap_reset`. -/
def bitmapReset (b : Bitmap) (bitIdx : ℕ) : Bitmap :=
  { b with
    bits := update b.bits (elemIdx bitIdx) (b.bits (elemIdx bitIdx) &&& ~~~ bitMask bitIdx) }

/-- `bitmap_flip`. -/
def bitmapFlip (b : Bitmap) (bitIdx : ℕ) : Bitmap :=
  { b with
    bits := update b.bits (elemIdx bitIdx) (b.bits (elemIdx bitIdx) ^^^ bitMask bitIdx) }

/-- `bitmap_set`. -/
def bitmapSet (b : Bitmap) (idx : ℕ) (value : Bool) : Except Panic Bitmap :=
  if idx < b.bitCnt then .ok (if value then bitmapMark b idx else bitmapReset b idx)
  else .error .assertion

/-- `bitmap_test`. -/
def bitmapTest (b : Bitmap) (idx : ℕ) : Except Panic Bool :=
  if idx < b.bitCnt then .ok (decide (b.bits (elemIdx idx) &&& bitMask idx ≠ 0#32))
  else .error .assertion

/-- The assertions about a range: its end is computed in 32 bits. -/
def inRange (b : Bitmap) (start cnt : ℕ) : Bool :=
  decide (start ≤ b.bitCnt) && decide ((start + cnt) % 2 ^ 32 ≤ b.bitCnt)

/-- The loop of `bitmap_set_multiple`. -/
def setFrom (value : Bool) : ℕ → ℕ → Bitmap → Except Panic Bitmap
  | 0, _, b => .ok b
  | cnt + 1, start, b => do
    let b ← bitmapSet b start value
    setFrom value cnt (start + 1) b

/-- `bitmap_set_multiple`. -/
def bitmapSetMultiple (b : Bitmap) (start cnt : ℕ) (value : Bool) : Except Panic Bitmap :=
  if inRange b start cnt then setFrom value cnt start b else .error .assertion

/-- `bitmap_set_all`. -/
def bitmapSetAll (b : Bitmap) (value : Bool) : Except Panic Bitmap :=
  bitmapSetMultiple b 0 b.bitCnt value

/-- The loop of `bitmap_contains`. -/
def containsFrom (b : Bitmap) (value : Bool) : ℕ → ℕ → Except Panic Bool
  | 0, _ => .ok false
  | cnt + 1, start => do
    let bit ← bitmapTest b start
    if bit = value then .ok true else containsFrom b value cnt (start + 1)

/-- `bitmap_contains`. -/
def bitmapContains (b : Bitmap) (start cnt : ℕ) (value : Bool) : Except Panic Bool :=
  if inRange b start cnt then containsFrom b value cnt start else .error .assertion

/-- `bitmap_all`. -/
def bitmapAll (b : Bitmap) (start cnt : ℕ) : Except Panic Bool := do
  let found ← bitmapContains b start cnt false
  .ok (!found)

/-- The loop of `bitmap_scan`, with the number of rounds left. -/
def scanFrom (b : Bitmap) (cnt : ℕ) (value : Bool) : ℕ → ℕ → Except Panic (Option ℕ)
  | 0, _ => .ok none
  | rounds + 1, i => do
    let found ← bitmapContains b i cnt (!value)
    if found then scanFrom b cnt value rounds (i + 1) else .ok (some i)

/-- `bitmap_scan`; `none` is `BITMAP_ERROR`. -/
def bitmapScan (b : Bitmap) (start cnt : ℕ) (value : Bool) : Except Panic (Option ℕ) :=
  if start ≤ b.bitCnt then
    if cnt ≤ b.bitCnt then scanFrom b cnt value (b.bitCnt - cnt + 1 - start) start else .ok none
  else .error .assertion

/-- `bitmap_scan_and_flip`. -/
def bitmapScanAndFlip (b : Bitmap) (start cnt : ℕ) (value : Bool) :
    Except Panic (Option ℕ × Bitmap) := do
  match ← bitmapScan b start cnt value with
  | none => .ok (none, b)
  | some idx =>
    let b ← bitmapSetMultiple b idx cnt (!value)
    .ok (some idx, b)

/-! ### The bits of a bitmap -/

/-- Bit `i`. -/
def Bitmap.bit (b : Bitmap) (i : ℕ) : Bool := (b.bits (i / 32)).getLsbD (i % 32)

theorem Bitmap.ext_bit {b b' : Bitmap} (hcnt : b.bitCnt = b'.bitCnt) (h : ∀ i, b.bit i = b'.bit i) :
    b = b' := by
  obtain ⟨n, bits⟩ := b
  obtain ⟨n', bits'⟩ := b'
  congr 1
  funext k
  refine BitVec.eq_of_getLsbD_eq fun j hj => ?_
  have hk := h (32 * k + j)
  unfold Bitmap.bit at hk
  rw [show (32 * k + j) / 32 = k by omega, show (32 * k + j) % 32 = j by omega] at hk
  exact hk

theorem getLsbD_bitMask (i : ℕ) {j : ℕ} (hj : j < 32) :
    (bitMask i).getLsbD j = decide (j = i % 32) := by
  unfold bitMask
  rw [BitVec.getLsbD_shiftLeft, BitVec.getLsbD_one, decide_eq_true hj, Bool.true_and]
  by_cases hlt : j < i % 32
  · simp [hlt, hlt.ne]
  · simp only [hlt, decide_false, Bool.not_false, Bool.true_and]
    rw [show decide (0 < 32) = true from rfl, Bool.true_and, decide_eq_decide]
    omega

theorem bit_mark (b : Bitmap) (i j : ℕ) :
    (bitmapMark b i).bit j = (decide (j = i) || b.bit j) := by
  unfold bitmapMark Bitmap.bit elemIdx
  dsimp only
  by_cases hw : j / 32 = i / 32
  · rw [hw, update_self, BitVec.getLsbD_or, getLsbD_bitMask i (Nat.mod_lt _ (by decide)),
      Bool.or_comm]
    congr 1
    rw [decide_eq_decide]
    omega
  · rw [update_of_ne hw, decide_eq_false (show j ≠ i from fun h => hw (by rw [h])),
      Bool.false_or]

theorem bit_reset (b : Bitmap) (i j : ℕ) :
    (bitmapReset b i).bit j = (!decide (j = i) && b.bit j) := by
  unfold bitmapReset Bitmap.bit elemIdx
  dsimp only
  by_cases hw : j / 32 = i / 32
  · rw [hw, update_self, BitVec.getLsbD_and, BitVec.getLsbD_not,
      getLsbD_bitMask i (Nat.mod_lt _ (by decide)), Bool.and_comm]
    congr 1
    rw [decide_eq_true (Nat.mod_lt j (show 32 > 0 by decide)), Bool.true_and]
    congr 1
    rw [decide_eq_decide]
    omega
  · rw [update_of_ne hw, decide_eq_false (show j ≠ i from fun h => hw (by rw [h])),
      Bool.not_false, Bool.true_and]

theorem bit_flip (b : Bitmap) (i j : ℕ) :
    (bitmapFlip b i).bit j = (b.bit j ^^ decide (j = i)) := by
  unfold bitmapFlip Bitmap.bit elemIdx
  dsimp only
  by_cases hw : j / 32 = i / 32
  · rw [hw, update_self, BitVec.getLsbD_xor, getLsbD_bitMask i (Nat.mod_lt _ (by decide))]
    congr 1
    rw [decide_eq_decide]
    omega
  · rw [update_of_ne hw, decide_eq_false (show j ≠ i from fun h => hw (by rw [h])),
      Bool.xor_false]

/-- The mask lets one bit through. -/
theorem and_bitMask_ne_zero (x : BitVec 32) (i : ℕ) :
    x &&& bitMask i ≠ 0#32 ↔ x.getLsbD (i % 32) = true := by
  have hbit : ∀ l < 32, (x &&& bitMask i).getLsbD l = (x.getLsbD l && decide (l = i % 32)) := by
    intro l hl
    rw [BitVec.getLsbD_and, getLsbD_bitMask i hl]
  constructor
  · intro hne
    by_contra hx
    refine hne (BitVec.eq_of_getLsbD_eq fun l hl => ?_)
    rw [hbit l hl, BitVec.getLsbD_zero]
    by_cases hli : l = i % 32
    · rw [hli, Bool.eq_false_iff.mpr hx, Bool.false_and]
    · rw [decide_eq_false hli, Bool.and_false]
  · intro hx hzero
    have hset := hbit (i % 32) (Nat.mod_lt _ (by decide))
    rw [hzero, hx, BitVec.getLsbD_zero] at hset
    simp at hset

theorem bitmapTest_eq {b : Bitmap} {i : ℕ} (hi : i < b.bitCnt) : bitmapTest b i = .ok (b.bit i) := by
  unfold bitmapTest Bitmap.bit elemIdx
  rw [if_pos hi]
  congr 1
  exact Bool.eq_iff_iff.mpr (decide_eq_true_iff.trans (and_bitMask_ne_zero _ i))

/-- `bitmap_set`, as bits. -/
theorem bitmapSet_ends {b : Bitmap} {i : ℕ} {v : Bool} (hi : i < b.bitCnt) :
    Ends (bitmapSet b i v) fun b' => b'.bitCnt = b.bitCnt ∧
      ∀ j, b'.bit j = if j = i then v else b.bit j := by
  unfold bitmapSet
  rw [if_pos hi]
  refine .ok ?_
  cases v with
  | true =>
    refine ⟨rfl, fun j => ?_⟩
    rw [if_pos rfl, bit_mark]
    by_cases hj : j = i <;> simp [hj]
  | false =>
    refine ⟨rfl, fun j => ?_⟩
    rw [if_neg (by simp), bit_reset]
    by_cases hj : j = i <;> simp [hj]

/-! ### Ranges -/

theorem setFrom_ends (v : Bool) : ∀ (cnt start : ℕ) (b : Bitmap), start + cnt ≤ b.bitCnt →
    Ends (setFrom v cnt start b) fun b' => b'.bitCnt = b.bitCnt ∧
      ∀ j, b'.bit j = if start ≤ j ∧ j < start + cnt then v else b.bit j := by
  intro cnt
  induction cnt with
  | zero => exact fun start b _ => .ok ⟨rfl, fun j => (if_neg (by omega)).symm⟩
  | succ cnt ih =>
    intro start b hle
    refine (bitmapSet_ends (by omega)).bind fun b₁ ⟨hcnt₁, hbit₁⟩ => ?_
    refine (ih (start + 1) b₁ (by omega)).mono fun b₂ ⟨hcnt₂, hbit₂⟩ =>
      ⟨hcnt₂.trans hcnt₁, fun j => ?_⟩
    rw [hbit₂, hbit₁]
    -- the first bit of the range is the one just set
    by_cases hj : j = start
    · rw [if_neg (by omega), if_pos hj, if_pos (by omega)]
    · rw [if_neg hj]
      exact if_congr (by omega) rfl rfl

theorem inRange_of_le {b : Bitmap} {start cnt : ℕ} (hle : start + cnt ≤ b.bitCnt) :
    inRange b start cnt = true := by
  unfold inRange
  have hmod := Nat.mod_le (start + cnt) (2 ^ 32)
  rw [decide_eq_true (by omega), decide_eq_true (by omega)]
  rfl

/-- `bitmap_set_multiple` sets exactly the range. -/
theorem bitmapSetMultiple_ends {b : Bitmap} {start cnt : ℕ} (v : Bool)
    (hle : start + cnt ≤ b.bitCnt) :
    Ends (bitmapSetMultiple b start cnt v) fun b' => b'.bitCnt = b.bitCnt ∧
      ∀ j, b'.bit j = if start ≤ j ∧ j < start + cnt then v else b.bit j := by
  unfold bitmapSetMultiple
  rw [if_pos (inRange_of_le hle)]
  exact setFrom_ends v cnt start b hle

theorem containsFrom_ends (b : Bitmap) (v : Bool) : ∀ (cnt start : ℕ), start + cnt ≤ b.bitCnt →
    Ends (containsFrom b v cnt start) fun r =>
      r = true ↔ ∃ j, start ≤ j ∧ j < start + cnt ∧ b.bit j = v := by
  intro cnt
  induction cnt with
  | zero => exact fun start _ => .ok ⟨fun h => absurd h (by simp), fun ⟨j, hj⟩ => by omega⟩
  | succ cnt ih =>
    intro start hle
    unfold containsFrom
    rw [bitmapTest_eq (by omega)]
    change Ends (if b.bit start = v then _ else _) _
    split
    · next hv => exact .ok ⟨fun _ => ⟨start, le_rfl, by omega, hv⟩, fun _ => rfl⟩
    · next hv =>
      refine (ih (start + 1) (by omega)).mono fun r hr => hr.trans ⟨?_, ?_⟩
      · rintro ⟨j, hlo, hhi, hj⟩
        exact ⟨j, by omega, by omega, hj⟩
      · rintro ⟨j, hlo, hhi, hj⟩
        have hne : j ≠ start := fun heq => hv (heq ▸ hj)
        exact ⟨j, by omega, by omega, hj⟩

/-- `bitmap_contains` searches exactly the range. -/
theorem bitmapContains_ends {b : Bitmap} {start cnt : ℕ} (v : Bool)
    (hle : start + cnt ≤ b.bitCnt) :
    Ends (bitmapContains b start cnt v) fun r =>
      r = true ↔ ∃ j, start ≤ j ∧ j < start + cnt ∧ b.bit j = v := by
  unfold bitmapContains
  rw [if_pos (inRange_of_le hle)]
  exact containsFrom_ends b v cnt start hle

/-- `bitmap_all`, on a range whose bits are all set. -/
theorem bitmapAll_ends {b : Bitmap} {start cnt : ℕ} (hle : start + cnt ≤ b.bitCnt)
    (hall : ∀ j, start ≤ j → j < start + cnt → b.bit j = true) :
    Ends (bitmapAll b start cnt) fun r => r = true := by
  refine (bitmapContains_ends false hle).bind fun r hr => .ok ?_
  rw [Bool.not_eq_true']
  refine Bool.eq_false_iff.mpr fun htrue => ?_
  obtain ⟨j, hlo, hhi, hj⟩ := hr.mp htrue
  rw [hall j hlo hhi] at hj
  cases hj

/-! ### The scan -/

/-- `cnt` bits from `i` on are there and equal `v`. -/
def Bitmap.IsRun (b : Bitmap) (v : Bool) (cnt i : ℕ) : Prop :=
  i + cnt ≤ b.bitCnt ∧ ∀ j, i ≤ j → j < i + cnt → b.bit j = v

/-- What a scan from `start` on finds. -/
def Bitmap.FirstRun (b : Bitmap) (v : Bool) (cnt start : ℕ) : Option ℕ → Prop
  | none => ∀ i, start ≤ i → ¬ b.IsRun v cnt i
  | some i => start ≤ i ∧ b.IsRun v cnt i ∧ ∀ i', start ≤ i' → i' < i → ¬ b.IsRun v cnt i'

theorem scanFrom_ends (b : Bitmap) (v : Bool) (cnt : ℕ) : ∀ (rounds i : ℕ),
    i + rounds = b.bitCnt - cnt + 1 → cnt ≤ b.bitCnt →
    Ends (scanFrom b cnt v rounds i) (b.FirstRun v cnt i) := by
  intro rounds
  induction rounds with
  | zero =>
    intro i hi hcnt
    refine .ok fun i' hi' hrun => ?_
    have hend := hrun.1
    omega
  | succ rounds ih =>
    intro i hi hcnt
    refine (bitmapContains_ends (!v) (by omega)).bind fun found hfound => ?_
    cases found with
    | true =>
      -- no run starts here, and the rest of the scan looks at the rest
      have hnot : ¬ b.IsRun v cnt i := by
        intro hrun
        obtain ⟨j, hlo, hhi, hj⟩ := hfound.mp rfl
        rw [hrun.2 j hlo hhi] at hj
        exact absurd hj (by simp)
      refine (ih (i + 1) (by omega) hcnt).mono fun r hr => ?_
      have hpast : ∀ i', i ≤ i' → b.IsRun v cnt i' → i + 1 ≤ i' := by
        intro i' hle hrun
        have hne : i' ≠ i := fun heq => hnot (heq ▸ hrun)
        omega
      cases r with
      | none => exact fun i' hle hrun => hr i' (hpast i' hle hrun) hrun
      | some r =>
        obtain ⟨hle, hrun, hfirst⟩ := hr
        exact ⟨by omega, hrun, fun i' hi' hlt hrun' => hfirst i' (hpast i' hi' hrun') hlt hrun'⟩
    | false =>
      refine .ok ⟨le_rfl, ⟨by omega, fun j hlo hhi => ?_⟩, fun i' hi' hlt => by omega⟩
      by_contra hne
      refine absurd (hfound.mpr ⟨j, hlo, hhi, ?_⟩) (by simp)
      rw [Bool.eq_not]
      exact hne

/-- `bitmap_scan` finds the first run. -/
theorem bitmapScan_ends {b : Bitmap} {start : ℕ} (cnt : ℕ) (v : Bool) (hstart : start ≤ b.bitCnt) :
    Ends (bitmapScan b start cnt v) (b.FirstRun v cnt start) := by
  unfold bitmapScan
  rw [if_pos hstart]
  split
  · next hcnt =>
    by_cases hroom : start ≤ b.bitCnt - cnt + 1
    · exact scanFrom_ends b v cnt _ start (by omega) hcnt
    · -- there is no room at all after `start`
      rw [show b.bitCnt - cnt + 1 - start = 0 by omega]
      refine .ok fun i hi hrun => ?_
      have hend := hrun.1
      omega
  · next hcnt =>
    refine .ok fun i hi hrun => ?_
    have hend := hrun.1
    omega

/-- `bitmap_scan_and_flip` flips the run it finds and nothing else. -/
theorem bitmapScanAndFlip_ends {b : Bitmap} {start : ℕ} (cnt : ℕ) (v : Bool)
    (hstart : start ≤ b.bitCnt) :
    Ends (bitmapScanAndFlip b start cnt v) fun r => b.FirstRun v cnt start r.1 ∧
      r.2.bitCnt = b.bitCnt ∧ ∀ j, r.2.bit j =
        match r.1 with
        | none => b.bit j
        | some i => if i ≤ j ∧ j < i + cnt then !v else b.bit j := by
  refine (bitmapScan_ends cnt v hstart).bind fun r hr => ?_
  cases r with
  | none => exact .ok ⟨hr, rfl, fun _ => rfl⟩
  | some i =>
    refine (bitmapSetMultiple_ends (!v) hr.2.1.1).bind fun b' ⟨hcnt, hbit⟩ => ?_
    exact .ok ⟨hr, hcnt, hbit⟩

end Pintos
