import Pintos.Lib.Bitmap
import Pintos.Kernel.FixedPoint

/-!
# The disk and the transfer of bytes

The file system device is a sequence of sectors of 512 bytes. Since the data of a file is a
contiguous extent, it pays to look at the device as one sequence of bytes: byte `o` of a file that
starts at sector `s` is byte `512 * s + o` of the device, whatever sector and whatever offset in it
that is.

`inode_read_at` and `inode_write_at` go through the sectors of a file in the same loop
(`transferLoop`), one chunk at a time. A chunk that is not a whole sector goes through a bounce
buffer, which is allocated when it is first needed, and the loop ends early if there is no memory.

* `malloc` — memory may run out at any call: the state carries the outcomes to come;
* `transferLoop_eq` — how many bytes the loop moves, and which allocations it makes;
* `readMove_eq`, `writeMove_eq` — what the two functions do with a chunk, as a copy of bytes.
-/

namespace Pintos

/-! ### Memory that may run out -/

/-- A call of `malloc` or `calloc`: whether it succeeds, and the outcomes left. No outcome left
means that memory no longer runs out. -/
def malloc : List Bool → Bool × List Bool
  | [] => (true, [])
  | b :: bs => (b, bs)

@[simp] theorem malloc_nil : malloc [] = (true, []) := rfl

/-! ### The device -/

/-- A block device: sector numbers are 32-bit. -/
structure Block where
  size : ℕ
  lt : size < 2 ^ 32

/-- `block_read`: the sector, as a buffer. -/
def blockRead (dev : Block) (disk : Buffer) (sector : ℕ) : Except Panic Buffer :=
  if sector < dev.size then .ok fun o => disk (512 * sector + o) else .error .pastEnd

/-- `block_write`: the device afterwards. -/
def blockWrite (dev : Block) (disk : Buffer) (sector : ℕ) (buffer : Buffer) : Except Panic Buffer :=
  if sector < dev.size then .ok (memcpy disk (512 * sector) buffer 0 512) else .error .pastEnd

/-! ### Inodes on disk -/

/-- `struct inode_disk`, without the unused part. -/
structure InodeDisk where
  start : ℕ
  length : ℤ
  magic : ℕ
  deriving DecidableEq

/-- `INODE_MAGIC`. -/
def inodeMagic : ℕ := 0x494e4f44

/-- The sector an inode is written to. -/
def InodeDisk.write (d : InodeDisk) : Buffer := fun i =>
  if i < 4 then putLe32 d.start i
  else if i < 8 then putLe32 (d.length % 2 ^ 32).toNat (i - 4)
  else if i < 12 then putLe32 d.magic (i - 8)
  else 0

/-- The inode in a sector. -/
def InodeDisk.read (b : Buffer) : InodeDisk := ⟨le32 b 0, toInt32 (le32 b 4), le32 b 8⟩

/-- `bytes_to_sectors`: the rounding up is done in 32 bits, signed. -/
def bytesToSectors (size : ℤ) : ℕ := ((toInt32 (size + 511)).tdiv 512 % 2 ^ 32).toNat

/-- `byte_to_sector`. -/
def byteToSector (data : InodeDisk) (pos : ℤ) : ℕ :=
  if pos < data.length then ((data.start + pos.tdiv 512) % 2 ^ 32).toNat else 2 ^ 32 - 1

/-! ### The loop of `inode_read_at` and `inode_write_at` -/

/-- What is done in one round: `size` bytes at `sectorOfs` in a sector, with `done` bytes of the
buffer done before. -/
structure Chunk where
  sector : ℕ
  sectorOfs : ℕ
  size : ℕ
  done : ℕ

/-- Whether the chunk is a whole sector, so that no bounce buffer is needed. -/
def Chunk.whole (c : Chunk) : Bool := c.sectorOfs == 0 && c.size == 512

/-- The loop. `move` does one round, on the buffer in `inode_read_at` and on the disk in
`inode_write_at`; `bounce` tells whether there is a bounce buffer. Every round moves a byte, so
`size` is fuel enough. -/
def transferLoop (data : InodeDisk) (move : Chunk → Buffer → Except Panic Buffer) :
    ℕ → List Bool → Bool → Buffer → ℤ → ℤ → ℕ → Except Panic (ℕ × Buffer × List Bool)
  | 0, mallocs, _, b, _, _, done => .ok (done, b, mallocs)
  | fuel + 1, mallocs, bounce, b, size, offset, done =>
    if size ≤ 0 then .ok (done, b, mallocs)
    else
      let sectorOfs := offset.tmod 512
      let inodeLeft := toInt32 (data.length - offset)
      let sectorLeft := 512 - sectorOfs
      let minLeft := if inodeLeft < sectorLeft then inodeLeft else sectorLeft
      let chunkSize := if size < minLeft then size else minLeft
      if chunkSize ≤ 0 then .ok (done, b, mallocs)
      else
        let c : Chunk := ⟨byteToSector data offset, sectorOfs.toNat, chunkSize.toNat, done⟩
        let (got, mallocs) := if c.whole || bounce then (true, mallocs) else malloc mallocs
        if got then do
          let b ← move c b
          transferLoop data move fuel mallocs (bounce || !c.whole) b (size - chunkSize)
            (offset + chunkSize) (done + chunkSize.toNat)
        else .ok (done, b, mallocs)

/-- A round of `inode_read_at`. -/
def readMove (dev : Block) (disk : Buffer) (c : Chunk) (buffer : Buffer) : Except Panic Buffer := do
  let sector ← blockRead dev disk c.sector
  if c.whole then .ok (memcpy buffer c.done sector 0 512)
  else .ok (memcpy buffer c.done sector c.sectorOfs c.size)

/-- A round of `inode_write_at`. -/
def writeMove (dev : Block) (buffer : Buffer) (c : Chunk) (disk : Buffer) : Except Panic Buffer := do
  if c.whole then blockWrite dev disk c.sector fun i => buffer (c.done + i)
  else
    let bounce ← if c.sectorOfs > 0 || c.size < 512 - c.sectorOfs then blockRead dev disk c.sector
      else .ok fun _ => 0
    blockWrite dev disk c.sector (memcpy bounce c.sectorOfs buffer c.done c.size)

/-! ### What a round does -/

section Moves

variable {dev : Block} {disk buffer : Buffer} {start o n d : ℕ}

/-- A chunk at byte `o` of a file that starts at sector `start`. -/
def chunkAt (start o n d : ℕ) : Chunk := ⟨start + o / 512, o % 512, n, d⟩

theorem readMove_eq (hsec : start + o / 512 < dev.size) (hn : o % 512 + n ≤ 512) :
    readMove dev disk (chunkAt start o n d) buffer
      = .ok (memcpy buffer d disk (512 * start + o) n) := by
  unfold readMove blockRead
  rw [if_pos (show (chunkAt start o n d).sector < dev.size from hsec)]
  change (if Chunk.whole _ then _ else _) = _
  split
  · next hw =>
    obtain ⟨hofs, hsize⟩ : o % 512 = 0 ∧ n = 512 := by
      simpa [Chunk.whole, chunkAt] using hw
    congr 1
    funext i
    subst hsize
    refine if_congr Iff.rfl (congrArg disk ?_) rfl
    change 512 * (start + o / 512) + (0 + (i - d)) = 512 * start + o + (i - d)
    omega
  · congr 1
    funext i
    refine if_congr Iff.rfl (congrArg disk ?_) rfl
    change 512 * (start + o / 512) + (o % 512 + (i - d)) = 512 * start + o + (i - d)
    omega

theorem writeMove_eq (hsec : start + o / 512 < dev.size) (hn : o % 512 + n ≤ 512) :
    writeMove dev buffer (chunkAt start o n d) disk
      = .ok (memcpy disk (512 * start + o) buffer d n) := by
  unfold writeMove
  split
  · next hw =>
    obtain ⟨hofs, rfl⟩ : o % 512 = 0 ∧ n = 512 := by
      simpa [Chunk.whole, chunkAt] using hw
    unfold blockWrite
    rw [if_pos (show (chunkAt start o 512 d).sector < dev.size from hsec)]
    congr 1
    change memcpy disk (512 * (start + o / 512)) _ 0 512 = _
    rw [show 512 * (start + o / 512) = 512 * start + o by omega]
    funext i
    refine if_congr Iff.rfl (congrArg buffer ?_) rfl
    change d + (0 + (i - (512 * start + o))) = d + (i - (512 * start + o))
    omega
  · next hw =>
    -- a chunk that is not a whole sector leaves a part of the sector as it was
    have hpart : (decide ((chunkAt start o n d).sectorOfs > 0) ||
        decide ((chunkAt start o n d).size < 512 - (chunkAt start o n d).sectorOfs)) = true := by
      change (decide (o % 512 > 0) || decide (n < 512 - o % 512)) = true
      have hne : ¬ (o % 512 = 0 ∧ n = 512) := by
        simpa [Chunk.whole, chunkAt] using hw
      by_cases hofs : o % 512 > 0
      · rw [decide_eq_true hofs, Bool.true_or]
      · rw [decide_eq_true (show n < 512 - o % 512 by omega), Bool.or_true]
    rw [if_pos hpart]
    unfold blockRead blockWrite
    rw [if_pos (show (chunkAt start o n d).sector < dev.size from hsec)]
    change (if (chunkAt start o n d).sector < dev.size then _ else _) = _
    rw [if_pos (show (chunkAt start o n d).sector < dev.size from hsec)]
    congr 1
    funext i
    change memcpy disk (512 * (start + o / 512)) _ 0 512 i = _
    by_cases hin : 512 * (start + o / 512) ≤ i ∧ i < 512 * (start + o / 512) + 512
    · rw [memcpy_inside hin.1 hin.2]
      change memcpy (fun j => disk (512 * (start + o / 512) + j)) (o % 512) buffer d n _ = _
      by_cases hchunk : 512 * start + o ≤ i ∧ i < 512 * start + o + n
      · rw [memcpy_inside (by omega) (by omega), memcpy_inside hchunk.1 hchunk.2]
        congr 1
        omega
      · rw [memcpy_outside (by omega), memcpy_outside (by omega)]
        congr 1
        omega
    · rw [memcpy_outside (by omega), memcpy_outside (by omega)]

end Moves

/-! ### What the loop does -/

/-- How many of `size` bytes at `offset` a file has. -/
def clip (data : InodeDisk) (size : ℤ) (offset : ℕ) : ℕ := (min size (data.length - offset)).toNat

/-- How many of `k` bytes at `offset` are moved before a bounce buffer is needed. -/
def unbounced (offset k : ℕ) : ℕ := if offset % 512 = 0 then k / 512 * 512 else 0

/-- How many of `k` bytes at `offset` are moved. -/
def moved (mallocs : List Bool) (bounce : Bool) (offset k : ℕ) : ℕ :=
  if unbounced offset k = k ∨ bounce = true ∨ (malloc mallocs).1 = true then k
  else unbounced offset k

/-- The outcomes of `malloc` that are left. -/
def mallocsAfter (mallocs : List Bool) (bounce : Bool) (offset k : ℕ) : List Bool :=
  if unbounced offset k = k ∨ bounce = true then mallocs else (malloc mallocs).2

/-- The bytes moved are in the file. -/
theorem add_clip_le {data : InodeDisk} {size : ℤ} {o : ℕ} (hk : clip data size o ≠ 0) :
    o + clip data size o ≤ data.length.toNat := by
  unfold clip at hk ⊢
  omega

theorem unbounced_le (offset k : ℕ) : unbounced offset k ≤ k := by
  unfold unbounced
  split
  · exact Nat.div_mul_le_self k 512
  · exact Nat.zero_le k

theorem moved_le (mallocs : List Bool) (bounce : Bool) (offset k : ℕ) :
    moved mallocs bounce offset k ≤ k := by
  unfold moved
  split
  · exact le_rfl
  · exact unbounced_le offset k

/-- A whole sector first. -/
theorem moved_whole (mallocs : List Bool) (bounce : Bool) {o k : ℕ} (ho : o % 512 = 0)
    (hk : 512 ≤ k) : 512 + moved mallocs bounce (o + 512) (k - 512) = moved mallocs bounce o k ∧
      mallocsAfter mallocs bounce (o + 512) (k - 512) = mallocsAfter mallocs bounce o k := by
  have hun : unbounced o k = 512 + unbounced (o + 512) (k - 512) := by
    unfold unbounced
    rw [if_pos ho, if_pos (by omega)]
    omega
  have hiff : unbounced (o + 512) (k - 512) = k - 512 ↔ unbounced o k = k := by omega
  refine ⟨?_, if_congr (or_congr_left hiff) rfl rfl⟩
  unfold moved
  rw [if_congr (or_congr_left hiff) rfl rfl]
  split
  · omega
  · exact hun.symm

/-- If the first chunk is no whole sector, it needs a bounce buffer. -/
theorem unbounced_part {o k : ℕ} (h : ¬ (o % 512 = 0 ∧ min k (512 - o % 512) = 512)) :
    unbounced o k = 0 := by
  unfold unbounced
  split
  · omega
  · rfl

section Loop

variable {data : InodeDisk} {move : Chunk → Buffer → Except Panic Buffer}
  {put : ℕ → ℕ → ℕ → Buffer → Buffer} {hi : ℕ}

/-- One round, with the arithmetic done. -/
theorem transferLoop_succ {fuel : ℕ} {mallocs : List Bool} {bounce : Bool} {b : Buffer} {size : ℤ}
    {o d : ℕ} (hpos : 0 ≤ data.length) (hlen : data.length < 2 ^ 31) (ho : o < 2 ^ 31)
    (hk : 0 < clip data size o) (hsec : data.start + o / 512 < 2 ^ 32) :
    transferLoop data move (fuel + 1) mallocs bounce b size o d =
      let n := min (clip data size o) (512 - o % 512)
      let c := chunkAt data.start o n d
      let (got, mallocs) := if c.whole || bounce then (true, mallocs) else malloc mallocs
      if got then do
        let b ← move c b
        transferLoop data move fuel mallocs (bounce || !c.whole) b (size - n) (o + n : ℕ) (d + n)
      else .ok (d, b, mallocs) := by
  have hclip : (clip data size o : ℤ) = min size (data.length - o) := by
    unfold clip at hk ⊢
    omega
  have hofs : (o : ℤ).tmod 512 = (o % 512 : ℕ) := by
    rw [Int.tmod_eq_emod_of_nonneg (by omega)]
    omega
  have hleft : toInt32 (data.length - o) = data.length - o :=
    toInt32_of_fits (by omega) (by omega)
  have hsector : byteToSector data o = data.start + o / 512 := by
    unfold byteToSector
    rw [if_pos (by omega), Int.tdiv_eq_ediv_of_nonneg (by omega)]
    omega
  -- the chunk is the least of three numbers
  have hchunk : (if size < (if data.length - o < 512 - ((o % 512 : ℕ) : ℤ) then data.length - o
      else 512 - ((o % 512 : ℕ) : ℤ)) then size else if data.length - o < 512 - ((o % 512 : ℕ) : ℤ)
      then data.length - o else 512 - ((o % 512 : ℕ) : ℤ))
      = (min (clip data size o) (512 - o % 512) : ℕ) := by
    split_ifs <;> omega
  rw [transferLoop, if_neg (by omega)]
  simp only [hofs, hleft, hsector, hchunk, Int.toNat_natCast]
  rw [if_neg (by omega)]
  rfl

/-- There is nothing to move, or the file ends here. -/
theorem transferLoop_stop {fuel : ℕ} {mallocs : List Bool} {bounce : Bool} {b : Buffer} {size : ℤ}
    {o d : ℕ} (hend : size ≤ 0 ∨ toInt32 (data.length - o) ≤ 0) :
    transferLoop data move fuel mallocs bounce b size o d = .ok (d, b, mallocs) := by
  cases fuel with
  | zero => rfl
  | succ fuel =>
    rw [transferLoop]
    by_cases hsize : size ≤ 0
    · rw [if_pos hsize]
    · have hleft : toInt32 (data.length - o) ≤ 0 := by omega
      rw [if_neg hsize]
      rw [if_pos (by split_ifs <;> omega)]

/-- None of the bytes are in the file. -/
theorem transferLoop_none {fuel : ℕ} {mallocs : List Bool} {bounce : Bool} {b : Buffer} {size : ℤ}
    {o d : ℕ} (hpos : 0 ≤ data.length) (hlen : data.length < 2 ^ 31) (ho : o < 2 ^ 31)
    (hnone : clip data size o = 0) :
    transferLoop data move fuel mallocs bounce b size o d = .ok (d, b, mallocs) := by
  refine transferLoop_stop ?_
  by_cases hsize : size ≤ 0
  · exact .inl hsize
  · unfold clip at hnone
    rw [toInt32_of_fits (by omega) (by omega)]
    omega

/-- **The loop.** If a round does `put`, and `put` of consecutive ranges is `put` of their union,
the loop does `put` of everything it moves. -/
theorem transferLoop_eq (hpos : 0 ≤ data.length) (hlen : data.length < 2 ^ 31)
    (hfit : ∀ o < hi, data.start + o / 512 < 2 ^ 32) (hzero : ∀ o d b, put o d 0 b = b)
    (hadd : ∀ o d n m b, put (o + n) (d + n) m (put o d n b) = put o d (n + m) b)
    (hmove : ∀ o n d b, 0 < n → o % 512 + n ≤ 512 → o + n ≤ hi →
      move (chunkAt data.start o n d) b = .ok (put o d n b)) :
    ∀ (fuel : ℕ) (mallocs : List Bool) (bounce : Bool) (b : Buffer) (size : ℤ) (o d : ℕ),
    size ≤ fuel → o < 2 ^ 31 → (clip data size o ≠ 0 → o + clip data size o ≤ hi) →
    transferLoop data move fuel mallocs bounce b size o d
      = .ok (d + moved mallocs bounce o (clip data size o),
          put o d (moved mallocs bounce o (clip data size o)) b,
          mallocsAfter mallocs bounce o (clip data size o)) := by
  have hstop : ∀ (mallocs : List Bool) (bounce : Bool) (b : Buffer) (size : ℤ) (o d : ℕ),
      clip data size o = 0 → (.ok (d, b, mallocs) : Except Panic (ℕ × Buffer × List Bool))
        = .ok (d + moved mallocs bounce o (clip data size o),
          put o d (moved mallocs bounce o (clip data size o)) b,
          mallocsAfter mallocs bounce o (clip data size o)) := by
    intro mallocs bounce b size o d hclip
    have hnone : unbounced o 0 = 0 := Nat.le_zero.mp (unbounced_le o 0)
    rw [hclip, moved, mallocsAfter, if_pos (Or.inl hnone), if_pos (Or.inl hnone), hzero, Nat.add_zero]
  intro fuel
  induction fuel with
  | zero =>
    intro mallocs bounce b size o d hfuel _ _
    exact hstop mallocs bounce b size o d (by unfold clip; omega)
  | succ fuel ih =>
    intro mallocs bounce b size o d hfuel ho hhi
    by_cases hk : clip data size o = 0
    · exact (transferLoop_none hpos hlen ho hk).trans (hstop mallocs bounce b size o d hk)
    have hhi := hhi hk
    have hk := Nat.pos_of_ne_zero hk
    rw [transferLoop_succ hpos hlen ho hk (hfit o (by omega))]
    have hfile : (clip data size o : ℤ) ≤ data.length - o := by unfold clip at hk ⊢; omega
    have hwant : (clip data size o : ℤ) ≤ size := by unfold clip at hk ⊢; omega
    obtain ⟨n, hn⟩ : ∃ n, n = min (clip data size o) (512 - o % 512) := ⟨_, rfl⟩
    have hrest : clip data (size - n) (o + n) = clip data size o - n := by
      unfold clip at hn ⊢
      omega
    rw [← hn]
    generalize clip data size o = k at *
    have hn₀ : 0 < n := by omega
    have hstep : ∀ (ms : List Bool) (bo : Bool), (do
        let b ← move (chunkAt data.start o n d) b
        transferLoop data move fuel ms bo b (size - n) (o + n : ℕ) (d + n))
          = .ok (d + (n + moved ms bo (o + n) (k - n)), put o d (n + moved ms bo (o + n) (k - n)) b,
            mallocsAfter ms bo (o + n) (k - n)) := by
      intro ms bo
      rw [hmove o n d b hn₀ (by omega) (by omega)]
      refine (ih ms bo _ (size - n) (o + n) (d + n) (by omega) (by omega) fun _ => by omega).trans ?_
      rw [hrest, hadd, Nat.add_assoc]
    dsimp only
    by_cases hw : (chunkAt data.start o n d).whole = true
    · obtain ⟨ho₀, rfl⟩ : o % 512 = 0 ∧ n = 512 := by simpa [Chunk.whole, chunkAt] using hw
      obtain ⟨hmoved, hmallocs⟩ := moved_whole mallocs bounce ho₀
        (show 512 ≤ k by omega)
      rw [hw, Bool.true_or, if_pos rfl]
      rw [if_pos rfl, Bool.not_true, Bool.or_false, hstep, hmoved, hmallocs]
    · have hun : unbounced o k = 0 := by
        refine unbounced_part fun hwhole => hw ?_
        rw [← hn] at hwhole
        simpa [Chunk.whole, chunkAt] using hwhole
      -- with a bounce buffer, the rest of the loop goes through
      have hall : ∀ ms, n + moved ms true (o + n) (k - n) = k ∧
          mallocsAfter ms true (o + n) (k - n) = ms := by
        intro ms
        unfold moved mallocsAfter
        rw [if_pos (Or.inr (Or.inl rfl)), if_pos (Or.inr rfl)]
        exact ⟨by omega, rfl⟩
      rw [Bool.eq_false_iff.mpr hw, Bool.false_or, Bool.not_false, Bool.or_true]
      unfold moved mallocsAfter
      cases bounce with
      | true =>
        rw [if_pos rfl, if_pos (Or.inr (Or.inl rfl)), if_pos (Or.inr rfl)]
        rw [if_pos rfl, hstep, (hall mallocs).1, (hall mallocs).2]
      | false =>
        have hne : unbounced o k ≠ k := by omega
        rw [if_neg Bool.false_ne_true,
          if_neg (not_or.mpr ⟨hne, Bool.false_ne_true⟩ : ¬ (unbounced o k = k ∨ false = true))]
        obtain ⟨got, ms⟩ := malloc mallocs
        cases got with
        | true =>
          rw [if_pos rfl, hstep, (hall ms).1, (hall ms).2, if_pos (Or.inr (Or.inr rfl))]
        | false =>
          rw [if_neg Bool.false_ne_true, if_neg (by simp [hne]), hun, hzero, Nat.add_zero]

end Loop

end Pintos
