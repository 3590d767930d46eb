import Pintos.FileSys.Calls

/-!
# Mounting the file system

`free_map_open` reads the free map from its file. What is on the disk is arbitrary: if the read
succeeds, the sectors of the file have been read, so they are on the device, and the map in memory
is what they hold.

* `transferLoop_reads` — a read of all the bytes that were asked for has found them on the device;
* `Synced` — the file of the free map holds what the map in memory holds;
* `freeMapOpen_yields` — after mounting, the free map is `Mounted` and `Synced`.
-/

namespace Pintos

open Total Function

/-! ### A read that succeeds -/

/-- **A read of everything** has read from sectors on the device. The next sector has a number
because the one before is on the device. -/
theorem transferLoop_reads {data : InodeDisk} {dev : Block} {disk : Buffer}
    (hstart : data.start < 2 ^ 32) (hlo : -2 ^ 31 ≤ data.length) (hhi : data.length < 2 ^ 31) :
    ∀ (fuel : ℕ) (ms : List Bool) (bounce : Bool) (b : Buffer) (size : ℤ) (o d : ℕ), o < 2 ^ 31 →
    (o = 0 ∨ ((o : ℤ) ≤ data.length ∧ data.start + (o - 1) / 512 < dev.size)) → 0 < size →
    Yields (transferLoop data (readMove dev disk) fuel ms bounce b size o d) fun r =>
      r.1 = d + size.toNat → o + size ≤ data.length ∧
        ∀ a, o ≤ a → (a : ℤ) < o + size → data.start + a / 512 < dev.size := by
  intro fuel
  induction fuel with
  | zero =>
    intro ms bounce b size o d _ _ hsize
    refine .ok fun hall => ?_
    omega
  | succ fuel ih =>
    intro ms bounce b size o d ho hprev hsize
    have hleft : toInt32 (data.length - o) = data.length - o := by
      apply toInt32_of_fits <;> omega
    by_cases hend : data.length ≤ o
    · rw [transferLoop_stop (.inr (by rw [hleft]; omega))]
      refine .ok fun hall => ?_
      omega
    have hsec : data.start + o / 512 < 2 ^ 32 := by
      have hlt := dev.lt
      omega
    have hclip : (clip data size o : ℤ) = min size (data.length - o) := by
      unfold clip
      omega
    rw [transferLoop_succ (by omega) hhi ho (by omega) hsec]
    obtain ⟨n, hn⟩ : ∃ n, n = min (clip data size o) (512 - o % 512) := ⟨_, rfl⟩
    rw [← hn]
    have hstep : ∀ (ms : List Bool) (bounce : Bool), Yields (do
        let b ← readMove dev disk (chunkAt data.start o n d) b
        transferLoop data (readMove dev disk) fuel ms bounce b (size - n) (o + n : ℕ) (d + n))
        fun r => r.1 = d + size.toNat → o + size ≤ data.length ∧
          ∀ a, o ≤ a → (a : ℤ) < o + size → data.start + a / 512 < dev.size := by
      intro ms bounce
      refine Yields.bind (P := fun _ => data.start + o / 512 < dev.size) ?_ fun b' hdev => ?_
      · unfold readMove blockRead
        by_cases hin : data.start + o / 512 < dev.size
        · exact fun _ _ => hin
        · rw [if_neg (show ¬ (chunkAt data.start o n d).sector < dev.size from hin)]
          exact Yields.error _
      by_cases hrest : (n : ℤ) < size
      · -- the rest is read from where this chunk ends
        have hlast : data.start + (o + n - 1) / 512 < dev.size := by omega
        refine (ih _ _ b' (size - n) (o + n) (d + n) (by omega) (.inr ⟨by omega, hlast⟩)
          (by omega)).mono fun r hr hall => ?_
        obtain ⟨hle, hsectors⟩ := hr (by omega)
        refine ⟨by omega, fun a hlo' hhi' => ?_⟩
        by_cases ha : a < o + n
        · have hsame : a / 512 = o / 512 := by omega
          rw [hsame]
          exact hdev
        · exact hsectors a (by omega) (by omega)
      · refine (fun r _ hall => ⟨by omega, fun a hlo' hhi' => ?_⟩)
        have hsame : a / 512 = o / 512 := by omega
        rw [hsame]
        exact hdev
    dsimp only
    split
    · exact hstep _ _
    · split
      · exact hstep _ _
      · refine .ok fun hall => ?_
        omega

/-- With memory enough, there is memory enough after the loop. -/
theorem transferLoop_nil {data : InodeDisk} {move : Chunk → Buffer → Except Panic Buffer} :
    ∀ (fuel : ℕ) (bounce : Bool) (b : Buffer) (size o : ℤ) (d : ℕ),
    Yields (transferLoop data move fuel [] bounce b size o d) fun r => r.2.2 = [] := by
  intro fuel
  induction fuel with
  | zero => exact fun _ _ _ _ _ => .ok rfl
  | succ fuel ih =>
    intro bounce b size o d
    unfold transferLoop
    split
    · exact .ok rfl
    · dsimp only
      generalize (if size < (if toInt32 (data.length - o) < 512 - o.tmod 512 then
        toInt32 (data.length - o) else 512 - o.tmod 512) then size else
        if toInt32 (data.length - o) < 512 - o.tmod 512 then toInt32 (data.length - o)
        else 512 - o.tmod 512) = chunk
      split
      · exact .ok rfl
      · rw [malloc_nil, ite_self, if_pos rfl]
        exact Yields.bind (P := fun _ => True) (fun _ _ => trivial) fun b' _ => ih _ b' _ _ _

/-- **`inode_read_at`** of the first `size` bytes, if it reads them all. -/
theorem inodeReadAt_whole {s : FileSys} {p : InodePtr} {data : InodeDisk} {buffer : Buffer} {size : ℕ}
    (hdata : (s.inodes p).data = data) (hstart : data.start < 2 ^ 32) (hlo : -2 ^ 31 ≤ data.length)
    (hhi : data.length < 2 ^ 31) (hpos : 0 < size) :
    Yields (inodeReadAt s p buffer size 0) fun r => (∃ ms, r.2.2 = { s with mallocs := ms } ∧
      (s.mallocs = [] → ms = [])) ∧ (r.1 = size → (size : ℤ) ≤ data.length ∧
        data.OnDevice s.dev size ∧ ∀ o < size, r.2.1 o = s.disk (512 * data.start + o)) := by
  intro r hr
  have hloop : Yields (inodeReadAt s p buffer size 0) fun r => (∃ ms, r.2.2 = { s with mallocs := ms } ∧
      (s.mallocs = [] → ms = [])) ∧ (r.1 = size → (size : ℤ) ≤ data.length ∧
        data.OnDevice s.dev size) := by
    unfold inodeReadAt
    rw [hdata]
    refine Yields.bind (P := fun r : ℕ × Buffer × List Bool => (s.mallocs = [] → r.2.2 = []) ∧
      (r.1 = size → (size : ℤ) ≤ data.length ∧ data.OnDevice s.dev size)) (fun r hr => ⟨?_, ?_⟩)
      fun r hr => .ok ⟨⟨_, rfl, hr.1⟩, hr.2⟩
    · intro hnil
      rw [hnil] at hr
      exact transferLoop_nil _ _ _ _ _ _ _ hr
    · intro hall
      obtain ⟨hle, hsectors⟩ := transferLoop_reads hstart hlo hhi _ _ _ _ (size : ℤ) 0 0 (by decide)
        (.inl rfl) (by omega) r hr (by
          rw [Nat.zero_add, Int.toNat_natCast]
          exact hall)
      exact ⟨by omega, by omega, hhi, fun o ho => hsectors o (Nat.zero_le o) (by omega)⟩
  obtain ⟨hms, hwhole⟩ := hloop r hr
  refine ⟨hms, fun hall => ?_⟩
  obtain ⟨hle, hdev⟩ := hwhole hall
  refine ⟨hle, hdev, fun o ho => ?_⟩
  -- now that the sectors are on the device, the read is a copy
  have hclip : clip data (size : ℤ) 0 = size := by
    unfold clip
    omega
  have hcopy := @inodeReadAt_eq s p data 0 _ hdata buffer (size : ℤ) (by decide) hdev
    fun _ => by rw [hclip, Nat.zero_add]
  rw [hclip] at hcopy
  obtain rfl := Except.ok.inj (hr.symm.trans hcopy)
  have hmoved : moved s.mallocs false 0 size = size := hall
  show memcpy buffer 0 s.disk _ (moved s.mallocs false 0 size) o = _
  rw [hmoved, memcpy_inside (Nat.zero_le o) (by omega)]
  rfl

/-! ### Reading the map -/

/-- A loaded bitmap has the bits of the buffer. -/
theorem bit_load (b : Bitmap) (buffer : Buffer) (i : ℕ) : (b.load buffer).bit i = bitOfBytes buffer i := by
  rw [← bitOfBytes_bytes]
  unfold bitOfBytes Bitmap.bytes Bitmap.load
  dsimp only
  rw [BitVec.toNat_ofNat, Nat.mod_eq_of_lt (le32_lt _ _), putLe32_le32 (Nat.mod_lt _ (by decide)),
    Nat.div_add_mod]

/-- `last_mask` keeps the bits that are there. -/
theorem getLsbD_lastMask {b : Bitmap} {j : ℕ} (hj : j < 32)
    (hlt : b.bitCnt % 32 ≠ 0 → j < b.bitCnt % 32) : (lastMask b).getLsbD j = true := by
  unfold lastMask
  dsimp only
  split
  · next hne =>
    have hmask : (1#32 <<< (b.bitCnt % 32) - 1#32).toNat = 2 ^ (b.bitCnt % 32) - 1 := by
      have hpow : 2 ^ (b.bitCnt % 32) < 2 ^ 32 :=
        Nat.pow_lt_pow_right (by decide) (Nat.mod_lt _ (by decide))
      have hpos : 0 < 2 ^ (b.bitCnt % 32) := Nat.two_pow_pos _
      rw [BitVec.toNat_sub, BitVec.toNat_shiftLeft]
      simp only [BitVec.toNat_ofNat, Nat.shiftLeft_eq]
      omega
    rw [BitVec.getLsbD, hmask, Nat.testBit_two_pow_sub_one, decide_eq_true (hlt hne)]
  · rw [BitVec.getLsbD_allOnes]
    exact decide_eq_true hj

/-- What `bitmap_read` makes of the elements it has read. -/
def Bitmap.masked (b : Bitmap) : Bitmap :=
  let last := (elemCnt b.bitCnt + (2 ^ 32 - 1)) % 2 ^ 32
  ⟨b.bitCnt, update b.bits last (b.bits last &&& lastMask b)⟩

/-- Masking the last element leaves the bits of the map alone. -/
theorem bit_masked {b : Bitmap} {i : ℕ} (hi : i < b.bitCnt) (hfits : b.bitCnt + 31 < 2 ^ 32) :
    b.masked.bit i = b.bit i := by
  unfold Bitmap.bit Bitmap.masked
  dsimp only
  by_cases hlast : i / 32 = (elemCnt b.bitCnt + (2 ^ 32 - 1)) % 2 ^ 32
  · rw [hlast, update_self, BitVec.getLsbD_and, getLsbD_lastMask (Nat.mod_lt _ (by decide)),
      Bool.and_true]
    unfold elemCnt at hlast
    omega
  · rw [update_of_ne hlast]

/-- The bytes of the file of the free map. -/
def FileSys.mapFile (s : FileSys) : Buffer := fun o => s.disk (512 * s.mapData.start + o)

/-- **The file of the free map** holds what the map in memory holds. -/
def Synced (s : FileSys) : Prop := ∀ i < s.dev.size, bitOfBytes s.mapFile i = s.freeMap.bit i

theorem bitOfBytes_congr {b b' : Buffer} {i : ℕ} (h : b (i / 8) = b' (i / 8)) :
    bitOfBytes b i = bitOfBytes b' i := by
  unfold bitOfBytes
  rw [h]

/-- **`bitmap_read`**, if it succeeds. -/
theorem bitmapRead_yields {s : FileSys} {b : Bitmap} {file : File} {data : InodeDisk}
    (hdata : (s.inodes file.inode).data = data) (hstart : data.start < 2 ^ 32)
    (hlo : -2 ^ 31 ≤ data.length) (hhi : data.length < 2 ^ 31) (hpos : 0 < b.bitCnt)
    (hfits : b.bitCnt + 31 < 2 ^ 32) :
    Yields (bitmapRead s b file) fun r => (∃ ms, r.2.2 = { s with mallocs := ms } ∧
        (s.mallocs = [] → ms = [])) ∧ r.2.1.bitCnt = b.bitCnt ∧ (r.1 = true →
      (byteCnt b.bitCnt : ℤ) ≤ data.length ∧ data.OnDevice s.dev (byteCnt b.bitCnt) ∧
      ∀ i < b.bitCnt, r.2.1.bit i = bitOfBytes (fun o => s.disk (512 * data.start + o)) i) := by
  have hbits := byteCnt_bits hfits
  have hsize : 0 < byteCnt b.bitCnt := by omega
  unfold bitmapRead
  rw [if_pos hpos]
  refine Yields.bind (inodeReadAt_whole hdata hstart hlo hhi hsize) ?_
  rintro ⟨n, buffer, s₁⟩ ⟨⟨ms, rfl, hms⟩, hwhole⟩
  refine .ok ⟨⟨ms, rfl, hms⟩, rfl, fun hok => ?_⟩
  obtain ⟨hle, hdev, hcopy⟩ := hwhole (beq_iff_eq.mp hok)
  refine ⟨hle, hdev, fun i hi => ?_⟩
  show (b.load buffer).masked.bit i = _
  rw [@bit_masked (b.load buffer) i hi hfits, bit_load]
  exact bitOfBytes_congr (hcopy (i / 8) (by omega))

/-! ### `free_map_open` -/

/-- The free map has been opened: its inode is the only one that is open. -/
structure FreshMount (s s' : FileSys) : Prop where
  mounted : Mounted s'
  synced : Synced s'
  dev : s'.dev = s.dev
  disk : s'.disk = s.disk
  file : s'.freeMapFile = some ⟨s.nextInode, 0, false⟩
  inodes : s'.inodes = update s.inodes s.nextInode ⟨freeMapSector, 1, false, 0, s.inodeAt freeMapSector⟩
  openInodes : s'.openInodes = [s.nextInode]
  nextInode : s'.nextInode = s.nextInode + 1
  mallocs : s.mallocs = [] → s'.mallocs = []

theorem inodeAt_bounds (s : FileSys) (x : ℕ) : (s.inodeAt x).start < 2 ^ 32 ∧
    -2 ^ 31 ≤ (s.inodeAt x).length := by
  have hlo : ∀ z : ℤ, -2 ^ 31 ≤ toInt32 z := by
    intro z
    unfold toInt32
    rw [Int.bmod_def]
    omega
  simp only [FileSys.inodeAt, InodeDisk.read]
  exact ⟨le32_lt _ _, hlo _⟩

/-- **`free_map_open`**, if it does not panic. -/
theorem freeMapOpen_yields {s : FileSys} (hnone : s.openInodes = [])
    (hcnt : s.freeMap.bitCnt = s.dev.size) (hpos : 0 < s.dev.size) (hfits : s.dev.size + 31 < 2 ^ 32) :
    Yields (freeMapOpen s) (FreshMount s) := by
  have hclosed : freeMapSector ∉ s.opened := by
    rintro ⟨p, hp, -⟩
    rw [hnone] at hp
    exact absurd hp List.not_mem_nil
  unfold freeMapOpen
  refine (inodeOpen_ends (show freeMapSector < s.dev.size from hpos)).yields.bind fun ⟨inode, s₁⟩ ho => ?_
  cases ho with
  | shared p hp hsector => exact absurd ⟨p, hp, hsector⟩ hclosed
  | failed _ hm =>
    refine Yields.step (fileOpen_null _) ?_
    exact Yields.error _
  | fresh _ hm =>
    dsimp only
    obtain ⟨s₁, hs₁⟩ : ∃ s₁, s₁ = s.opening freeMapSector := ⟨_, rfl⟩
    rw [← hs₁]
    by_cases hm' : (malloc s₁.mallocs).1 = true
    · refine Yields.step (fileOpen_some hm') ?_
      have hself : s₁.inodes s.nextInode = ⟨freeMapSector, 1, false, 0, s.inodeAt freeMapSector⟩ := by
        rw [hs₁]
        exact update_self ..
      have hdev : s₁.dev = s.dev := by rw [hs₁]; rfl
      have hmap : s₁.freeMap = s.freeMap := by rw [hs₁]; rfl
      have hdisk : s₁.disk = s.disk := by rw [hs₁]; rfl
      obtain ⟨hstart, hlo⟩ := inodeAt_bounds s freeMapSector
      have hread := @bitmapRead_yields { s₁ with mallocs := (malloc s₁.mallocs).2 } s₁.freeMap
        ⟨s.nextInode, 0, false⟩ (s.inodeAt freeMapSector) (by
          show (s₁.inodes s.nextInode).data = _
          rw [hself]) hstart hlo (inodeAt_length_lt s freeMapSector) (by rw [hmap, hcnt]; exact hpos)
        (by rw [hmap, hcnt]; exact hfits)
      refine hread.bind ?_
      rintro ⟨read, map, s₂⟩ ⟨⟨ms, rfl, hms⟩, hcnt₂, hok⟩
      cases read with
      | false => exact Yields.error _
      | true =>
        obtain ⟨hle, hond, hbit⟩ := hok rfl
        rw [hmap, hcnt] at hle hond hbit hcnt₂
        refine .ok ⟨⟨?_, ?_, ⟨⟨s.nextInode, 0, false⟩, rfl, ?_⟩, ?_, ?_⟩, fun i hi => ?_, hdev, hdisk, rfl, ?_,
          ?_, ?_, fun hnil => hms ?_⟩
        · exact hcnt₂.trans (congrArg Block.size hdev).symm
        · show s₁.dev.size + 31 < 2 ^ 32
          rw [hdev]
          exact hfits
        · show (s₁.inodes s.nextInode).denyWriteCnt = 0
          rw [hself]
        · show (byteCnt s₁.dev.size : ℤ) ≤ (s₁.inodes s.nextInode).data.length
          rw [hself, hdev]
          exact hle
        · show (s₁.inodes s.nextInode).data.OnDevice s₁.dev (byteCnt s₁.dev.size)
          rw [hself, hdev]
          rw [show ({ s₁ with mallocs := (malloc s₁.mallocs).2 } : FileSys).dev = s.dev from hdev] at hond
          exact hond
        · change i < s₁.dev.size at hi
          rw [hdev] at hi
          show bitOfBytes (fun o => s₁.disk (512 * (s₁.inodes s.nextInode).data.start + o)) i = map.bit i
          rw [hself]
          exact (hbit i hi).symm
        · show s₁.inodes = _
          rw [hs₁]
          rfl
        · show s₁.openInodes = _
          rw [hs₁]
          show s.nextInode :: s.openInodes = _
          rw [hnone]
        · show s₁.nextInode = _
          rw [hs₁]
          rfl
        · show (malloc s₁.mallocs).2 = []
          rw [show s₁.mallocs = (malloc s.mallocs).2 by rw [hs₁]; rfl, hnil]
          rfl
    · -- without memory for the file, the inode is closed
      rw [fileOpen_none (Bool.eq_false_iff.mpr hm'), bind_assoc]
      exact Yields.bind (P := fun _ => True) (fun _ _ => trivial) fun _ _ => Yields.error _

end Pintos
