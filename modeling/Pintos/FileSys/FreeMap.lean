import Pintos.FileSys.Directory
import Pintos.Foundation.Transition

/-!
# The free map in memory and on disk

`free_map_allocate` and `free_map_release` change the free map in memory and write it to its file.
The file is written one sector after the other, and its last sector, unless the map fills it, goes
through a bounce buffer. If there is no memory for that, the sectors before are written all the
same.

* `Mounted` — the free map and its file fit together;
* `FileSys.store` — the state after the map has been written as far as memory allowed;
* `freeMapAllocate_ends`, `freeMapRelease_ends` — the two calls, as outcomes in terms of `store`.
-/

namespace Pintos

open Total Transition

/-! ### A bitmap and its bytes -/

/-- Bit `i` of a bitmap, among its bytes. -/
def bitOfBytes (b : Buffer) (i : ℕ) : Bool := (b (i / 8)).toNat.testBit (i % 8)

theorem bitOfBytes_bytes (b : Bitmap) (i : ℕ) : bitOfBytes b.bytes i = b.bit i := by
  unfold bitOfBytes Bitmap.bytes putLe32 Bitmap.bit
  rw [UInt8.toNat_ofNat', Nat.testBit_mod_two_pow, Nat.testBit_div_two_pow,
    decide_eq_true (Nat.mod_lt i (show 8 > 0 by decide)), Bool.true_and, BitVec.getLsbD,
    show i / 8 / 4 = i / 32 by omega, show i % 8 + 8 * (i / 8 % 4) = i % 32 by omega]

theorem byteCnt_bits {n : ℕ} (hn : n + 31 < 2 ^ 32) : n ≤ 8 * byteCnt n ∧ 8 * byteCnt n < n + 32 := by
  unfold byteCnt elemCnt
  omega

/-- Bytes are equal if their bits are. -/
theorem byte_eq_of_bits {b b' : Buffer} {o : ℕ} (h : ∀ i < 8, bitOfBytes b (8 * o + i)
    = bitOfBytes b' (8 * o + i)) : b o = b' o := by
  refine UInt8.toNat_inj.mp (Nat.eq_of_testBit_eq fun i => ?_)
  by_cases hi : i < 8
  · have hb := h i hi
    unfold bitOfBytes at hb
    rw [show (8 * o + i) / 8 = o by omega, show (8 * o + i) % 8 = i by omega] at hb
    exact hb
  · have hlt : ∀ x : UInt8, x.toNat.testBit i = false := fun x =>
      Nat.testBit_lt_two_pow (x.toNat_lt.trans_le (Nat.pow_le_pow_right (by decide) (by omega)))
    rw [hlt, hlt]

/-! ### Writing the map -/

/-- The inode of the free map's file. -/
def FileSys.mapData (s : FileSys) : InodeDisk :=
  match s.freeMapFile with
  | none => ⟨0, 0, 0⟩
  | some file => (s.inodes file.inode).data

/-- The bytes of the free map. -/
def FileSys.mapSize (s : FileSys) : ℕ := byteCnt s.dev.size

/-- The last sector of the map needs a bounce buffer, and there is no memory for one. -/
def FileSys.mapFails (s : FileSys) : Prop := s.mapSize % 512 ≠ 0 ∧ (malloc s.mallocs).1 = false

instance (s : FileSys) : Decidable s.mapFails := inferInstanceAs (Decidable (_ ∧ _))

/-- The map after `bitmap_write`, which got as far as memory allowed. -/
def FileSys.store (s : FileSys) (map : Bitmap) : FileSys :=
  { s with
    freeMap := map
    disk := memcpy s.disk (512 * s.mapData.start) map.bytes 0 (moved s.mallocs false 0 s.mapSize)
    mallocs := mallocsAfter s.mallocs false 0 s.mapSize }

theorem moved_of_fails {s : FileSys} (h : s.mapFails) :
    moved s.mallocs false 0 s.mapSize = s.mapSize / 512 * 512 ∧ s.mapSize / 512 * 512 < s.mapSize := by
  obtain ⟨hpart, hnone⟩ := h
  have hun : unbounced 0 s.mapSize = s.mapSize / 512 * 512 := if_pos rfl
  have hne : unbounced 0 s.mapSize ≠ s.mapSize := by omega
  unfold moved
  rw [if_neg (by simp [hne, hnone]), hun]
  exact ⟨rfl, by omega⟩

theorem moved_of_not_fails {s : FileSys} (h : ¬ s.mapFails) :
    moved s.mallocs false 0 s.mapSize = s.mapSize := by
  refine if_pos ?_
  by_cases hwhole : s.mapSize % 512 = 0
  · refine .inl ?_
    unfold unbounced
    rw [if_pos rfl]
    omega
  · refine .inr (.inr ?_)
    by_contra hnone
    exact h ⟨hwhole, Bool.eq_false_iff.mpr hnone⟩

/-- The free map has one bit per sector, and a file large enough that can be written. -/
structure Mounted (s : FileSys) : Prop where
  bitCnt : s.freeMap.bitCnt = s.dev.size
  fits : s.dev.size + 31 < 2 ^ 32
  file : ∃ file, s.freeMapFile = some file ∧ (s.inodes file.inode).denyWriteCnt = 0
  length : (s.mapSize : ℤ) ≤ s.mapData.length
  onDevice : s.mapData.OnDevice s.dev s.mapSize

theorem clip_map {s : FileSys} (h : Mounted s) : clip s.mapData s.mapSize 0 = s.mapSize := by
  have hlen := h.length
  unfold clip
  omega

/-- **`bitmap_write`** of a map in memory. -/
theorem bitmapWrite_eq {s : FileSys} {map : Bitmap} {file : File} (h : Mounted s)
    (hfile : s.freeMapFile = some file) (hcnt : map.bitCnt = s.dev.size) :
    bitmapWrite { s with freeMap := map } map file = .ok (decide (¬ s.mapFails), s.store map) := by
  obtain ⟨file', hfile', hallowed⟩ := h.file
  obtain rfl : file' = file := Option.some.inj (hfile'.symm.trans hfile)
  have hdata : (s.inodes file'.inode).data = s.mapData := by
    unfold FileSys.mapData
    rw [hfile]
  have hsize : byteCnt map.bitCnt = s.mapSize := by
    rw [hcnt]
    rfl
  have hwrite := @inodeWriteAt_eq { s with freeMap := map } file'.inode s.mapData 0 _ hdata hallowed
    map.bytes s.mapSize (by decide) h.onDevice fun _ => by rw [clip_map h, Nat.zero_add]
  rw [clip_map h, Nat.add_zero, show ((0 : ℕ) : ℤ) = 0 from rfl] at hwrite
  unfold bitmapWrite fileWriteAt
  rw [hsize]
  dsimp only
  rw [hwrite]
  change Except.ok (moved s.mallocs false 0 s.mapSize == s.mapSize, _) = _
  congr 2
  rw [Bool.eq_iff_iff, beq_iff_eq, decide_eq_true_iff]
  constructor
  · intro hall hfails
    have hpart := moved_of_fails hfails
    omega
  · exact moved_of_not_fails

/-! ### The two calls -/

/-- `b'` is `b` with `cnt` bits from `i` on set to `v`. -/
def Bitmap.Sets (b : Bitmap) (v : Bool) (i cnt : ℕ) (b' : Bitmap) : Prop :=
  b'.bitCnt = b.bitCnt ∧ ∀ j, b'.bit j = if i ≤ j ∧ j < i + cnt then v else b.bit j

/-- Setting and clearing a range that was clear. -/
theorem Bitmap.Sets.undo {b b' b'' : Bitmap} {i cnt : ℕ} (h : b.Sets true i cnt b')
    (h' : b'.Sets false i cnt b'') (hclear : ∀ j, i ≤ j → j < i + cnt → b.bit j = false) : b'' = b := by
  refine Bitmap.ext_bit (h'.1.trans h.1) fun j => ?_
  rw [h'.2 j, h.2 j]
  split
  · next hj => exact (hclear j hj.1 hj.2).symm
  · rfl

/-- **What `free_map_allocate` does**: there is no run of clear bits; or the first one is taken and
the map is written; or it is taken and given back because the map could not be written. -/
inductive Allocates (s : FileSys) (cnt : ℕ) : Option ℕ × FileSys → Prop where
  | full : (∀ i, ¬ s.freeMap.IsRun false cnt i) → Allocates s cnt (none, s)
  | done {i : ℕ} {map : Bitmap} : s.freeMap.FirstRun false cnt 0 (some i) →
      s.freeMap.Sets true i cnt map → ¬ s.mapFails → Allocates s cnt (some i, s.store map)
  | undone {i : ℕ} {map : Bitmap} : s.freeMap.FirstRun false cnt 0 (some i) →
      s.freeMap.Sets true i cnt map → s.mapFails →
      Allocates s cnt (none, { s.store map with freeMap := s.freeMap })

theorem freeMapAllocate_ends {s : FileSys} (h : Mounted s) (cnt : ℕ) :
    Ends (freeMapAllocate s cnt) (Allocates s cnt) := by
  obtain ⟨file, hfile, -⟩ := h.file
  refine (bitmapScanAndFlip_ends cnt false (Nat.zero_le _)).bind fun ⟨found, map⟩ hscan => ?_
  obtain ⟨hrun, hcnt, hbit⟩ := hscan
  cases found with
  | none => exact .ok (.full fun i => hrun i (Nat.zero_le i))
  | some i =>
    have hsets : s.freeMap.Sets true i cnt map := ⟨hcnt, hbit⟩
    rw [hfile]
    dsimp only
    rw [← hfile, bitmapWrite_eq h hfile (hcnt.trans h.bitCnt)]
    change Ends (if decide (¬ s.mapFails) = true then _ else _) _
    split
    · next hok => exact .ok (.done hrun hsets (of_decide_eq_true hok))
    · next hfail =>
      have hfails : s.mapFails := by simpa using hfail
      have hle : i + cnt ≤ (s.store map).freeMap.bitCnt := hrun.2.1.1.trans_eq hcnt.symm
      refine (bitmapSetMultiple_ends false hle).bind fun map' hmap' => .ok ?_
      -- clearing the bits again gives the old map
      obtain rfl : map' = s.freeMap := hsets.undo hmap' hrun.2.1.2
      exact .undone hrun hsets hfails

/-- **What `free_map_release` does**, of a range in use. -/
theorem freeMapRelease_ends {s : FileSys} (h : Mounted s) {i cnt : ℕ} (hle : i + cnt ≤ s.dev.size)
    (hused : ∀ j, i ≤ j → j < i + cnt → s.freeMap.bit j = true) :
    Ends (freeMapRelease s i cnt) fun s' =>
      ∃ map, s.freeMap.Sets false i cnt map ∧ s' = s.store map := by
  obtain ⟨file, hfile, -⟩ := h.file
  have hle' : i + cnt ≤ s.freeMap.bitCnt := by rw [h.bitCnt]; exact hle
  refine (bitmapAll_ends hle' hused).bind fun all hall => ?_
  rw [hall, if_pos rfl]
  refine (bitmapSetMultiple_ends false hle').bind fun map hmap => ?_
  rw [hfile]
  dsimp only
  rw [← hfile, bitmapWrite_eq h hfile (hmap.1.trans h.bitCnt)]
  exact .ok ⟨map, hmap, rfl⟩

/-- A search that runs off the bitmap has found what it looked for before. -/
theorem containsFrom_of_past (b : Bitmap) (v : Bool) : ∀ (cnt start : ℕ), start ≤ b.bitCnt →
    b.bitCnt < start + cnt → Yields (containsFrom b v cnt start) fun r => r = true := by
  intro cnt
  induction cnt with
  | zero => exact fun start _ _ => by omega
  | succ cnt ih =>
    intro start hle hpast
    unfold containsFrom
    by_cases hstart : start < b.bitCnt
    · rw [bitmapTest_eq hstart]
      change Yields (if b.bit start = v then _ else _) _
      split
      · exact .ok rfl
      · exact ih (start + 1) hstart (by omega)
    · unfold bitmapTest
      rw [if_neg hstart]
      exact Yields.error _

/-- **What `free_map_release` does if it returns**: its assertion has held. -/
theorem freeMapRelease_yields {s : FileSys} (h : Mounted s) (i cnt : ℕ) :
    Yields (freeMapRelease s i cnt) fun s' =>
      ∃ map, s.freeMap.Sets false i cnt map ∧ s' = s.store map := by
  by_cases hle : i + cnt ≤ s.freeMap.bitCnt
  · -- either the assertion holds, or the call stops
    have hall : Yields (bitmapAll s.freeMap i cnt) fun all =>
        all = true → ∀ j, i ≤ j → j < i + cnt → s.freeMap.bit j = true := by
      refine Ends.yields ((bitmapContains_ends false hle).bind fun r hr => .ok fun hnot j hlo hhi => ?_)
      by_contra hj
      rw [hr.mpr ⟨j, hlo, hhi, Bool.eq_false_iff.mpr hj⟩] at hnot
      cases hnot
    intro s' hs'
    obtain ⟨all, hok, hrest⟩ : ∃ all, bitmapAll s.freeMap i cnt = .ok all ∧ all = true := by
      unfold freeMapRelease at hs'
      cases hres : bitmapAll s.freeMap i cnt with
      | error e =>
        rw [hres] at hs'
        exact nomatch hs'
      | ok all =>
        refine ⟨all, rfl, ?_⟩
        by_contra hne
        rw [hres] at hs'
        change (if all = true then _ else Except.error Panic.assertion) = _ at hs'
        rw [if_neg hne] at hs'
        exact nomatch hs'
    exact (freeMapRelease_ends h (h.bitCnt ▸ hle) (hall all hok hrest)).of_eq hs'
  · refine Yields.bind (P := fun all => all = false) ?_ fun all hall => ?_
    · refine Yields.bind (P := fun r => r = true) ?_ fun r hr => .ok (by rw [hr]; rfl)
      unfold bitmapContains
      split
      · next hin =>
        have hstart : i ≤ s.freeMap.bitCnt := by
          unfold inRange at hin
          simp only [Bool.and_eq_true, decide_eq_true_eq] at hin
          exact hin.1
        exact containsFrom_of_past s.freeMap false cnt i hstart (by omega)
      · exact Yields.error _
    · rw [hall, if_neg (by simp)]
      exact Yields.error _

/-! ### What a stored map leaves alone -/

section store

variable {s : FileSys} {map : Bitmap}

@[simp] theorem store_freeMap : (s.store map).freeMap = map := rfl

@[simp] theorem store_mapData : (s.store map).mapData = s.mapData := rfl

/-- With memory enough there is memory enough afterwards. -/
theorem store_mallocs (h : s.mallocs = []) : (s.store map).mallocs = [] := by
  show mallocsAfter s.mallocs false 0 s.mapSize = []
  unfold mallocsAfter
  rw [h]
  exact ite_self _

/-- Storing a map of the right size leaves the file system mounted. -/
theorem Mounted.store (h : Mounted s) (hcnt : map.bitCnt = s.dev.size) : Mounted (s.store map) :=
  ⟨hcnt, h.fits, h.file, h.length, h.onDevice⟩

/-- Only the bytes of the file are written. -/
theorem store_disk {a : ℕ} (h : a < 512 * s.mapData.start ∨ 512 * s.mapData.start + s.mapSize ≤ a) :
    (s.store map).disk a = s.disk a := by
  have hle := moved_le s.mallocs false 0 s.mapSize
  exact memcpy_outside (by omega)

end store

end Pintos
