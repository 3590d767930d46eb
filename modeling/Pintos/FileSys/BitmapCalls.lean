import Pintos.FileSys.Mount

/-!
# What the functions of a bitmap do

The functions of `lib/kernel/bitmap.c` act on the sequence of bits that `bitmap_test` shows (`Bitmap.Shows`):
the single-bit functions change one bit, `bitmap_set_multiple` a range, `bitmap_scan` looks for the first run
of equal bits and `bitmap_scan_and_flip` flips it, and a bitmap that is written to a file can be read back.

The number of bytes of a bitmap is rounded up in 32 bits (`elem_cnt`). For the last 31 sizes of type `size_t`
the sum wraps around, and `bitmap_write` writes nothing, and reports success.

* `bitmapWrite_bitmapRead` — what is written is read back;
* `bitmapWrite_wraps` — the sizes for which nothing is written;
* `bitmap_acts_iff` — the functions do what they are for, for all other sizes.
-/

namespace Pintos

open Total Function

/-- The sequence of bits that `bitmap_test` shows. -/
def Bitmap.Shows (b : Bitmap) (n : ℕ) (f : ℕ → Bool) : Prop :=
  b.bitCnt = n ∧ ∀ i < n, bitmapTest b i = .ok (f i)

/-- Where a scan could stop: there are `cnt` bits from here on, and they equal `v`. -/
def runsFrom (n : ℕ) (f : ℕ → Bool) (start cnt : ℕ) (v : Bool) : Set ℕ :=
  {i | start ≤ i ∧ i + cnt ≤ n ∧ ∀ j, i ≤ j → j < i + cnt → f j = v}

/-- **The result of a scan**: the least place where it could stop, or an error if there is none. -/
def Scans (places : Set ℕ) : Option ℕ → Prop
  | some i => IsLeast places i
  | none => places = ∅

/-- The bits after a range was set. -/
def setRange (f : ℕ → Bool) (start cnt : ℕ) (v : Bool) (j : ℕ) : Bool :=
  if start ≤ j ∧ j < start + cnt then v else f j

/-- The fields of an inode have values of their types. -/
structure InodeDisk.InTypes (data : InodeDisk) : Prop where
  start : data.start < 2 ^ 32
  low : -2 ^ 31 ≤ data.length
  high : data.length < 2 ^ 31

/-- **What the functions are for**, on bitmaps of `n` bits. In the last clause both transfers succeed. -/
structure ActsOnBits (n : ℕ) : Prop where
  set : ∀ b f i v, b.Shows n f → i < n →
    Ends (bitmapSet b i v) fun b' => b'.Shows n (update f i v)
  mark : ∀ b f i, b.Shows n f → i < n → (bitmapMark b i).Shows n (update f i true)
  reset : ∀ b f i, b.Shows n f → i < n → (bitmapReset b i).Shows n (update f i false)
  flip : ∀ b f i, b.Shows n f → i < n → (bitmapFlip b i).Shows n (update f i (!f i))
  setMultiple : ∀ b f start cnt v, b.Shows n f → start + cnt ≤ n →
    Ends (bitmapSetMultiple b start cnt v) fun b' => b'.Shows n (setRange f start cnt v)
  scan : ∀ b f start cnt v, b.Shows n f → start ≤ n →
    Ends (bitmapScan b start cnt v) (Scans (runsFrom n f start cnt v))
  scanAndFlip : ∀ b f start cnt v, b.Shows n f → start ≤ n →
    Ends (bitmapScanAndFlip b start cnt v) fun r =>
      Scans (runsFrom n f start cnt v) r.1 ∧
        r.2.Shows n (r.1.elim f fun i => setRange f i cnt (!v))
  writeRead : ∀ b f b₁ b₂ s s₁ s₂ file, b.Shows n f → b₁.bitCnt = n →
    (s.inodes file.inode).data.InTypes → bitmapWrite s b file = .ok (true, s₁) →
    bitmapRead s₁ b₁ file = .ok (true, b₂, s₂) → b₂.Shows n f

section Bits

variable {b : Bitmap} {n : ℕ} {f : ℕ → Bool}

theorem Bitmap.shows_iff : b.Shows n f ↔ b.bitCnt = n ∧ ∀ i < n, b.bit i = f i := by
  refine and_congr_right fun hcnt => forall₂_congr fun i hi => ?_
  rw [bitmapTest_eq (hcnt ▸ hi), Except.ok.injEq]

/-- The places where a scan could stop are the beginnings of runs. -/
theorem Bitmap.Shows.mem_runsFrom (h : b.Shows n f) {start cnt : ℕ} {v : Bool} {i : ℕ} :
    i ∈ runsFrom n f start cnt v ↔ start ≤ i ∧ b.IsRun v cnt i := by
  obtain ⟨rfl, hbit⟩ := Bitmap.shows_iff.mp h
  refine and_congr_right fun _ => and_congr_right fun hle => ?_
  refine forall_congr' fun j => forall₂_congr fun _ hj => ?_
  rw [hbit j (by omega)]

theorem Bitmap.Shows.scans_of_firstRun (h : b.Shows n f) {start cnt : ℕ} {v : Bool} {r : Option ℕ}
    (hr : b.FirstRun v cnt start r) : Scans (runsFrom n f start cnt v) r := by
  cases r with
  | none =>
    refine Set.eq_empty_of_forall_notMem fun i hi => ?_
    obtain ⟨hle, hrun⟩ := h.mem_runsFrom.mp hi
    exact hr i hle hrun
  | some i =>
    obtain ⟨hle, hrun, hfirst⟩ := hr
    refine ⟨h.mem_runsFrom.mpr ⟨hle, hrun⟩, fun i' hi' => ?_⟩
    obtain ⟨hle', hrun'⟩ := h.mem_runsFrom.mp hi'
    exact not_lt.mp fun hlt => hfirst i' hle' hlt hrun'

/-- One bit was changed. -/
theorem Bitmap.Shows.update (h : b.Shows n f) {b' : Bitmap} {i : ℕ} {v : Bool}
    (hcnt : b'.bitCnt = b.bitCnt) (hself : b'.bit i = v) (hother : ∀ j, j ≠ i → b'.bit j = b.bit j) :
    b'.Shows n (update f i v) := by
  obtain ⟨hn, hf⟩ := Bitmap.shows_iff.mp h
  refine Bitmap.shows_iff.mpr ⟨hcnt.trans hn, fun j hj => ?_⟩
  by_cases hji : j = i
  · rw [hji, hself, update_self]
  · rw [hother j hji, hf j hj, update_of_ne hji]

/-- A range of bits was changed. -/
theorem Bitmap.Shows.setRange (h : b.Shows n f) {b' : Bitmap} {start cnt : ℕ} {v : Bool}
    (hcnt : b'.bitCnt = b.bitCnt)
    (hbit : ∀ j, b'.bit j = if start ≤ j ∧ j < start + cnt then v else b.bit j) :
    b'.Shows n (Pintos.setRange f start cnt v) := by
  obtain ⟨hn, hf⟩ := Bitmap.shows_iff.mp h
  refine Bitmap.shows_iff.mpr ⟨hcnt.trans hn, fun j hj => ?_⟩
  rw [hbit j, hf j hj]
  rfl

end Bits

/-! ### Writing and reading back -/

section Files

variable {s s₁ s₂ : FileSys} {b b₁ b₂ : Bitmap} {file : File} {n : ℕ}

/-- `inode_write_at` changes the disk only. -/
theorem inodeWriteAt_yields {p : InodePtr} {buffer : Buffer} {size offset : ℤ} :
    Yields (inodeWriteAt s p buffer size offset) fun r =>
      r.2 = { s with disk := r.2.disk, mallocs := r.2.mallocs } := by
  unfold inodeWriteAt
  split
  · exact .ok rfl
  · exact Yields.bind (P := fun _ => True) (fun _ _ => trivial) fun _ _ => .ok rfl

/-- `bitmap_write`, if it succeeds. -/
theorem bitmapWrite_yields : Yields (bitmapWrite s b file) fun r => r.1 = true →
    inodeWriteAt s file.inode b.bytes (byteCnt b.bitCnt) 0 = .ok (byteCnt b.bitCnt, r.2) := by
  refine Yields.bind (P := fun r => inodeWriteAt s file.inode b.bytes (byteCnt b.bitCnt) 0 = .ok r)
    (fun _ h => h) fun r hr => .ok fun hall => ?_
  rw [hr, ← beq_iff_eq.mp hall]

/-- **What is written is read back.** If the read succeeds, the data of the file lie on the device, and the write
was a copy. -/
theorem bitmapWrite_bitmapRead (hn : n + 31 < 2 ^ 32) (hb : b.bitCnt = n) (hb₁ : b₁.bitCnt = n)
    (htypes : (s.inodes file.inode).data.InTypes) (hwrite : bitmapWrite s b file = .ok (true, s₁))
    (hread : bitmapRead s₁ b₁ file = .ok (true, b₂, s₂)) :
    b₂.bitCnt = n ∧ ∀ i < n, b₂.bit i = b.bit i := by
  have hwrite := bitmapWrite_yields _ hwrite rfl
  have hrest := inodeWriteAt_yields _ hwrite
  dsimp only at hwrite hrest
  rcases Nat.eq_zero_or_pos n with rfl | hpos
  · unfold bitmapRead at hread
    rw [if_neg (by omega)] at hread
    cases hread
    exact ⟨hb₁, fun i hi => absurd hi (Nat.not_lt_zero i)⟩
  have hbits := byteCnt_bits hn
  have hdata : (s₁.inodes file.inode).data = (s.inodes file.inode).data := by rw [hrest]
  obtain ⟨-, hcnt, hfile⟩ := bitmapRead_yields hdata htypes.start htypes.low htypes.high (hb₁ ▸ hpos)
    (hb₁ ▸ hn) _ hread
  obtain ⟨hle, hdev, hbit⟩ := hfile rfl
  rw [hb₁] at hle hdev hbit
  rw [hb] at hwrite
  refine ⟨hcnt.trans hb₁, fun i hi => ?_⟩
  -- a write that is denied writes nothing
  have hallowed : (s.inodes file.inode).denyWriteCnt = 0 := by
    by_contra hdenied
    unfold inodeWriteAt at hwrite
    rw [if_pos hdenied] at hwrite
    have hzero := (Prod.mk.inj (Except.ok.inj hwrite)).1
    omega
  have hclip : clip (s.inodes file.inode).data (byteCnt n) 0 = byteCnt n := by
    unfold clip
    omega
  rw [hrest] at hdev
  have hcopy := @inodeWriteAt_eq s file.inode _ 0 _ rfl hallowed b.bytes (byteCnt n) (by decide) hdev
    fun _ => by omega
  rw [hclip] at hcopy
  have hdone := Except.ok.inj (hwrite.symm.trans hcopy)
  obtain ⟨hmoved, hs₁⟩ := Prod.mk.inj hdone
  rw [hbit i hi, ← bitOfBytes_bytes]
  refine bitOfBytes_congr ?_
  rw [hs₁, ← hmoved]
  show memcpy s.disk _ b.bytes 0 _ _ = _
  rw [memcpy_inside (by omega) (by omega)]
  congr 1
  omega

/-- **For the last sizes nothing is written**, and nothing is read. -/
theorem bitmapWrite_wraps (hn : n < 2 ^ 32) (hwraps : 2 ^ 32 ≤ n + 31) (hb : b.bitCnt = n)
    (hb₁ : b₁.bitCnt = n) :
    bitmapWrite s b file = .ok (true, s) ∧
      ∃ b₂, bitmapRead s b₁ file = .ok (true, b₂, s) ∧ b₂.bitCnt = n ∧ b₂.bit 0 = b₁.bit 0 := by
  have helems : elemCnt n = 0 := by
    unfold elemCnt
    omega
  have hbytes : byteCnt n = 0 := by
    rw [byteCnt, helems]
  constructor
  · unfold bitmapWrite fileWriteAt inodeWriteAt
    rw [hb, hbytes]
    split
    · rfl
    · rfl
  · refine ⟨(b₁.load b₁.bytes).masked, ?_, hb₁, ?_⟩
    · unfold bitmapRead
      rw [if_pos (by omega), show byteCnt b₁.bitCnt = 0 from hb₁ ▸ hbytes]
      rfl
    · -- the element that is masked is not one of the bitmap
      have hlast : (0 : ℕ) / 32 ≠ (elemCnt (b₁.load b₁.bytes).bitCnt + (2 ^ 32 - 1)) % 2 ^ 32 := by
        rw [show (b₁.load b₁.bytes).bitCnt = n from hb₁, helems]
        decide
      unfold Bitmap.masked Bitmap.bit
      dsimp only
      rw [update_of_ne hlast]
      exact (bit_load b₁ b₁.bytes 0).trans (bitOfBytes_bytes b₁ 0)

end Files

/-- The functions, on bitmaps whose number of bytes does not wrap around. -/
theorem actsOnBits {n : ℕ} (hn : n + 31 < 2 ^ 32) : ActsOnBits n where
  set b f i v hb hi :=
    (bitmapSet_ends (hb.1.symm ▸ hi)).mono fun b' hb' =>
      hb.update hb'.1 ((hb'.2 i).trans (if_pos rfl)) fun j hj => (hb'.2 j).trans (if_neg hj)
  mark b f i hb _ := hb.update rfl (by simp [bit_mark]) fun j hj => by simp [bit_mark, hj]
  reset b f i hb _ := hb.update rfl (by simp [bit_reset]) fun j hj => by simp [bit_reset, hj]
  flip b f i hb hi := by
    have hbit := (Bitmap.shows_iff.mp hb).2 i hi
    exact hb.update rfl (by simp [bit_flip, hbit]) fun j hj => by simp [bit_flip, hj]
  setMultiple b f start cnt v hb hle :=
    (bitmapSetMultiple_ends v (hb.1.symm ▸ hle)).mono fun b' hb' => hb.setRange hb'.1 hb'.2
  scan b f start cnt v hb hstart :=
    (bitmapScan_ends cnt v (hb.1.symm ▸ hstart)).mono fun r hr => hb.scans_of_firstRun hr
  scanAndFlip b f start cnt v hb hstart := by
    refine (bitmapScanAndFlip_ends cnt v (hb.1.symm ▸ hstart)).mono fun r hr => ?_
    obtain ⟨found, b'⟩ := r
    obtain ⟨hfirst, hcnt, hbit⟩ := hr
    refine ⟨hb.scans_of_firstRun hfirst, ?_⟩
    cases found with
    | none =>
      obtain rfl : b' = b := Bitmap.ext_bit hcnt hbit
      exact hb
    | some i => exact hb.setRange hcnt hbit
  writeRead b f b₁ b₂ s s₁ s₂ file hb hb₁ htypes hwrite hread := by
    obtain ⟨hcnt, hf⟩ := Bitmap.shows_iff.mp hb
    obtain ⟨hcnt₂, hbit⟩ := bitmapWrite_bitmapRead hn hcnt hb₁ htypes hwrite hread
    exact Bitmap.shows_iff.mpr ⟨hcnt₂, fun i hi => (hbit i hi).trans (hf i hi)⟩

/-- A file system with nothing in it. -/
def emptyFileSys : FileSys :=
  ⟨⟨0, Nat.two_pow_pos 32⟩, fun _ => 0, ⟨0, fun _ => 0⟩, none, fun _ => ⟨0, 1, false, 0, ⟨0, 0, 0⟩⟩, [], 0, []⟩

/-- **The functions of a bitmap do what they are for**, unless the number of bytes wraps around. -/
theorem bitmap_acts_iff (n : ℕ) (hn : n < 2 ^ 32) : ActsOnBits n ↔ n + 31 < 2 ^ 32 := by
  refine ⟨fun h => ?_, actsOnBits⟩
  by_contra hwraps
  -- a bitmap of ones is written, and read into a bitmap of zeros
  obtain ⟨hwrite, b₂, hread, -, hbit₂⟩ := @bitmapWrite_wraps emptyFileSys
    ⟨n, fun _ => BitVec.allOnes 32⟩ ⟨n, fun _ => 0#32⟩ ⟨0, 0, false⟩ n hn (not_lt.mp hwraps) rfl rfl
  have hb : (⟨n, fun _ => BitVec.allOnes 32⟩ : Bitmap).Shows n fun _ => true :=
    Bitmap.shows_iff.mpr ⟨rfl, fun i _ =>
      (BitVec.getLsbD_allOnes (i := i % 32)).trans (decide_eq_true (Nat.mod_lt i (by decide)))⟩
  have hback := h.writeRead _ _ _ b₂ _ _ _ _ hb rfl ⟨by decide, by decide, by decide⟩ hwrite hread
  have htrue := (Bitmap.shows_iff.mp hback).2 0 (by omega)
  rw [hbit₂] at htrue
  simp [Bitmap.bit] at htrue

/-- A bitmap of a hundred bits. -/
theorem bitmap_acts_iff_hundred : ActsOnBits 100 := (bitmap_acts_iff 100 (by decide)).mpr (by decide)

/-- **A bitmap of 2³² - 1 bits** is written and read back, both with success, and its first bit is lost. -/
theorem bitmap_lost_bit : ∃ s file b b₁ b₂,
    b.bitCnt = 2 ^ 32 - 1 ∧ b₁.bitCnt = 2 ^ 32 - 1 ∧ bitmapWrite s b file = .ok (true, s) ∧
      bitmapRead s b₁ file = .ok (true, b₂, s) ∧ bitmapTest b 0 = .ok true ∧
      bitmapTest b₂ 0 = .ok false := by
  obtain ⟨hwrite, b₂, hread, hcnt₂, hbit₂⟩ := @bitmapWrite_wraps emptyFileSys
    ⟨2 ^ 32 - 1, fun _ => BitVec.allOnes 32⟩ ⟨2 ^ 32 - 1, fun _ => 0#32⟩ ⟨0, 0, false⟩ (2 ^ 32 - 1)
    (by decide) (by decide) rfl rfl
  refine ⟨_, _, _, _, b₂, rfl, rfl, hwrite, hread, rfl, ?_⟩
  rw [bitmapTest_eq (by rw [hcnt₂]; decide), hbit₂]
  rfl

end Pintos
