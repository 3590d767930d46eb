import Pintos.FileSys.Mount
import Pintos.FileSys.Removal

/-!
# Formatting

`do_format` makes an inode for the free map's file in sector 0, writes the map to it, and makes an
empty root directory in sector 1. Then the file is closed, and `free_map_open` reads the map back.

* `Formatted` — what is on the disk after formatting;
* `filesysInit_mounts` — after `filesys_init`, the free map is mounted, be the device formatted or not;
* `filesysInit_intact` — after formatting, the invariant holds.
-/

namespace Pintos

open Total

/-! ### A new map -/

/-- The state at the beginning: nothing is open, and the free map marks two sectors. -/
structure Blank (s : FileSys) (dev : Block) (disk : Buffer) (ms : List Bool) : Prop where
  dev : s.dev = dev
  disk : s.disk = disk
  bitCnt : s.freeMap.bitCnt = s.dev.size
  pos : 0 < s.dev.size
  fits : s.dev.size + 31 < 2 ^ 32
  bit : ∀ i < s.dev.size, s.freeMap.bit i = decide (i = freeMapSector ∨ i = rootDirSector)
  file : s.freeMapFile = none
  openInodes : s.openInodes = []
  mallocs : ms = [] → s.mallocs = []

theorem malloc_snd_nil {ms : List Bool} (h : ms = []) : (malloc ms).2 = [] := by
  rw [h]
  rfl

/-- **`bitmap_create`**: the rounding up overflows for the last few sizes, and then there is nothing
to allocate. -/
theorem bitmapCreate_yields (junk : ℕ → BitVec 32) (ms : List Bool) {n : ℕ} (hn : n < 2 ^ 32) :
    Yields (bitmapCreate junk ms n) fun r => (ms = [] → r.2 = []) ∧ ∀ b, r.1 = some b →
      b.bitCnt = n ∧ (∀ i < n, b.bit i = false) ∧ (byteCnt n ≠ 0 → 0 < n ∧ n + 31 < 2 ^ 32) := by
  have hsize : byteCnt n ≠ 0 → 0 < n ∧ n + 31 < 2 ^ 32 := by
    unfold byteCnt elemCnt
    omega
  unfold bitmapCreate
  dsimp only
  split
  · obtain ⟨q, hq⟩ : ∃ q, q = if byteCnt n = 0 then (false, (malloc ms).2) else malloc (malloc ms).2 :=
      ⟨_, rfl⟩
    have hnil : ms = [] → q.2 = [] := by
      intro hms
      rw [hq]
      split
      · exact malloc_snd_nil hms
      · exact malloc_snd_nil (malloc_snd_nil hms)
    rw [← hq]
    split
    · refine Yields.bind (bitmapSetMultiple_ends false (show 0 + n ≤ (⟨n, junk⟩ : Bitmap).bitCnt from
        (Nat.zero_add n).le)).yields fun b hb => .ok ⟨hnil, fun b' hb' => ?_⟩
      obtain rfl : b = b' := Option.some.inj hb'
      exact ⟨hb.1, fun i hi => (hb.2 i).trans (if_pos ⟨Nat.zero_le i, by omega⟩), hsize⟩
    · exact .ok ⟨hnil, fun b hb => nomatch hb⟩
  · exact .ok ⟨fun hms => malloc_snd_nil hms, fun b hb => nomatch hb⟩

theorem freeMapInit_yields (dev : Block) (disk : Buffer) (junk : ℕ → BitVec 32) (ms : List Bool) :
    Yields (freeMapInit dev disk junk ms) fun s => Blank s dev disk ms := by
  refine (bitmapCreate_yields junk ms dev.lt).bind fun ⟨map, ms'⟩ hmap => ?_
  obtain ⟨hms, hmap⟩ := hmap
  cases map with
  | none => exact Yields.error _
  | some map =>
    obtain ⟨hcnt, hclear, hsize⟩ := hmap map rfl
    dsimp only
    split
    · exact Yields.error _
    · next hne =>
      obtain ⟨hpos, hfits⟩ := hsize hne
      refine .ok ⟨rfl, rfl, hcnt, hpos, hfits, fun i hi => ?_, rfl, rfl, hms⟩
      rw [bit_mark, bit_mark, hclear i hi, Bool.or_false, Bool.or_comm, Bool.decide_or]

/-! ### The file of the free map -/

/-- **`free_map_allocate`** while the free map has no file. -/
theorem freeMapAllocate_bare {s : FileSys} (hfile : s.freeMapFile = none) (cnt : ℕ) :
    Ends (freeMapAllocate s cnt) fun r => r = (none, s) ∨ ∃ i map, s.freeMap.IsRun false cnt i ∧
      s.freeMap.Sets true i cnt map ∧ r = (some i, { s with freeMap := map }) := by
  refine (bitmapScanAndFlip_ends cnt false (Nat.zero_le _)).bind fun ⟨found, map⟩ hscan => ?_
  obtain ⟨hrun, hcnt, hbit⟩ := hscan
  cases found with
  | none => exact .ok (.inl rfl)
  | some i =>
    rw [hfile]
    exact .ok (.inr ⟨i, map, hrun.2.1, ⟨hcnt, hbit⟩, by rw [← hfile]⟩)

/-- The free map has a file, from sector `M` on, and it is open. -/
structure MapMade (s s' : FileSys) (M : ℕ) : Prop where
  dev : s'.dev = s.dev
  mounted : Mounted s'
  file : s'.freeMapFile = some ⟨s.nextInode, 0, false⟩
  openInodes : s'.openInodes = [s.nextInode]
  inode : s'.inodes s.nextInode = ⟨freeMapSector, 1, false, 0, ⟨M, s.mapSize, inodeMagic⟩⟩
  inodeAt : s'.inodeAt freeMapSector = ⟨M, s.mapSize, inodeMagic⟩
  run : s.freeMap.IsRun false (bytesToSectors s.mapSize) M
  sets : s.freeMap.Sets true M (bytesToSectors s.mapSize) s'.freeMap
  mallocs : s.mallocs = [] → s'.mallocs = []

theorem mapSize_lt {s : FileSys} (hfits : s.dev.size + 31 < 2 ^ 32) : s.mapSize < 2 ^ 31 := by
  have hbits := byteCnt_bits hfits
  unfold FileSys.mapSize
  omega

/-- **`free_map_create`**, if it does not panic. -/
theorem freeMapCreate_yields {s : FileSys} {dev : Block} {disk : Buffer} {ms : List Bool}
    (h : Blank s dev disk ms) : Yields (freeMapCreate s) fun s' => ∃ M, MapMade s s' M := by
  have hlt := mapSize_lt h.fits
  have hsize : byteCnt s.freeMap.bitCnt = s.mapSize := by
    rw [h.bitCnt]
    rfl
  have hzero : s.freeMap.bit freeMapSector = true := by
    rw [h.bit freeMapSector h.pos]
    exact decide_eq_true (.inl rfl)
  unfold freeMapCreate
  rw [hsize]
  have hcreate := inodeCreate_ends (s := s) (x := freeMapSector) (Int.natCast_nonneg s.mapSize)
    (@freeMapAllocate_bare { s with mallocs := (malloc s.mallocs).2 } h.file _) (by
      rintro start s₁ (hbad | ⟨i, map, hrun, -, heq⟩)
      · exact nomatch hbad
      · obtain ⟨hi, rfl⟩ := Prod.mk.inj heq
        cases hi
        exact ⟨h.pos, hrun.1.trans_eq h.bitCnt⟩)
  refine hcreate.yields.bind fun ⟨created, s₁⟩ hc => ?_
  cases hc with
  | noMemory => exact Yields.error _
  | noSpace => exact Yields.error _
  | @done M s₁ hm ha =>
    rcases ha with hbad | ⟨i, map, hrun, hsets, heq⟩
    · exact nomatch hbad
    obtain ⟨hi, rfl⟩ := Prod.mk.inj heq
    cases hi
    -- the state with the inode of the file on disk
    obtain ⟨s₁, hs₁⟩ : ∃ s₁ : FileSys, s₁ = ({ s with
      freeMap := map, mallocs := (malloc s.mallocs).2 } : FileSys).initInode freeMapSector M s.mapSize :=
      ⟨_, rfl⟩
    have hle : M + bytesToSectors s.mapSize ≤ s.dev.size := hrun.1.trans_eq h.bitCnt
    have hapart : freeMapSector ∉ Set.Ico M (M + bytesToSectors s.mapSize) := by
      intro hmem
      rw [hrun.2 _ hmem.1 hmem.2] at hzero
      exact Bool.false_ne_true hzero
    obtain ⟨hread, -, -⟩ := @initInode_spec { s with
      freeMap := map, mallocs := (malloc s.mallocs).2 } freeMapSector M s.mapSize hapart
      (by have hdev := s.dev.lt; omega) (Int.natCast_nonneg _) (by omega)
    dsimp only
    rw [← hs₁] at hread ⊢
    rw [if_pos rfl]
    have hopen₁ : s₁.openInodes = [] := by rw [hs₁]; exact h.openInodes
    have hnext₁ : s₁.nextInode = s.nextInode := by rw [hs₁]; rfl
    have hdev₁ : s₁.dev = s.dev := by rw [hs₁]; rfl
    have hmap₁ : s₁.freeMap = map := by rw [hs₁]; rfl
    have hms₁ : s₁.mallocs = (malloc s.mallocs).2 := by rw [hs₁]; rfl
    refine (inodeOpen_ends (show freeMapSector < s₁.dev.size by rw [hdev₁]; exact h.pos)).yields.bind
      fun ⟨inode, s₂⟩ ho => ?_
    cases ho with
    | shared p hp _ =>
      rw [hopen₁] at hp
      exact absurd hp List.not_mem_nil
    | failed =>
      refine Yields.step (fileOpen_null _) ?_
      exact Yields.error _
    | fresh _ hm₁ =>
      obtain ⟨s₂, hs₂⟩ : ∃ s₂, s₂ = s₁.opening freeMapSector := ⟨_, rfl⟩
      rw [← hs₂]
      by_cases hm₂ : (malloc s₂.mallocs).1 = true
      swap
      · rw [fileOpen_none (Bool.eq_false_iff.mpr hm₂), bind_assoc]
        exact Yields.bind (P := fun _ => True) (fun _ _ => trivial) fun _ _ => Yields.error _
      refine Yields.step (fileOpen_some hm₂) ?_
      have hself : s₂.inodes s.nextInode = ⟨freeMapSector, 1, false, 0, ⟨M, s.mapSize, inodeMagic⟩⟩ := by
        rw [hs₂, ← hnext₁, ← hread]
        exact Function.update_self ..
      obtain ⟨s₃, hs₃⟩ : ∃ s₃ : FileSys, s₃ = { s₂ with
        mallocs := (malloc s₂.mallocs).2, freeMapFile := some ⟨s₁.nextInode, 0, false⟩ } := ⟨_, rfl⟩
      have hdev₃ : s₃.dev = s.dev := by rw [hs₃, hs₂]; exact hdev₁
      have hmap₃ : s₃.freeMap = map := by rw [hs₃, hs₂]; exact hmap₁
      have hfile₃ : s₃.freeMapFile = some ⟨s.nextInode, 0, false⟩ := by rw [hs₃, hnext₁]
      have hself₃ : s₃.inodes s.nextInode = ⟨freeMapSector, 1, false, 0, ⟨M, s.mapSize, inodeMagic⟩⟩ := by
        rw [hs₃]
        exact hself
      have hdata₃ : s₃.mapData = ⟨M, s.mapSize, inodeMagic⟩ := by
        unfold FileSys.mapData
        rw [hfile₃]
        dsimp only
        rw [hself₃]
      have hsize₃ : s₃.mapSize = s.mapSize := by
        unfold FileSys.mapSize
        rw [hdev₃]
      have hmounted : Mounted s₃ := by
        refine ⟨?_, ?_, ⟨_, hfile₃, by rw [hself₃]⟩, ?_, ?_⟩
        · rw [hmap₃, hsets.1, hdev₃]
          exact h.bitCnt
        · rw [hdev₃]
          exact h.fits
        · rw [hdata₃, hsize₃]
        · rw [hdata₃, hsize₃, hdev₃]
          refine ⟨Int.natCast_nonneg _, show (s.mapSize : ℤ) < 2 ^ 31 by omega, fun o ho => ?_⟩
          have hsector := @lt_bytesToSectors o s.mapSize (by omega) (by omega)
          show M + o / 512 < s.dev.size
          omega
      have hwrite := @bitmapWrite_eq s₃ s₃.freeMap _ hmounted hfile₃ hmounted.bitCnt
      have hwrite₂ : bitmapWrite { s₂ with
          mallocs := (malloc s₂.mallocs).2, freeMapFile := some ⟨s₁.nextInode, 0, false⟩ } s₂.freeMap
          ⟨s₁.nextInode, 0, false⟩ = .ok (decide (¬ s₃.mapFails), s₃.store s₃.freeMap) := by
        rw [hnext₁]
        rw [hs₃, hnext₁] at hwrite ⊢
        exact hwrite
      refine Yields.step hwrite₂ ?_
      by_cases hfails : s₃.mapFails
      · rw [decide_eq_false (not_not.mpr hfails)]
        exact Yields.error _
      · rw [decide_eq_true hfails]
        refine .ok ⟨M, hdev₃, hmounted.store hmounted.bitCnt, hfile₃, ?_, hself₃, ?_, hrun, ?_, fun hnil => ?_⟩
        · rw [hs₃, hs₂, ← hnext₁]
          show s₁.nextInode :: s₁.openInodes = _
          rw [hopen₁]
        · -- the inode is not among the sectors of the map
          have hread₃ : s₃.inodeAt freeMapSector = ⟨M, s.mapSize, inodeMagic⟩ := by
            rw [hs₃, hs₂]
            exact hread
          refine (DiskSame.inodeAt (A := Set.Ico M (M + bytesToSectors s.mapSize)) ?_ hapart).trans hread₃
          have hle := moved_le s₃.mallocs false 0 s₃.mapSize
          refine DiskSame.memcpy fun i hi => ?_
          have hsector := @lt_bytesToSectors i s.mapSize (by omega) (by omega)
          rw [hdata₃, Set.mem_Ico]
          dsimp only
          omega
        · rw [hmap₃]
          exact hsets
        · refine store_mallocs ?_
          rw [hs₃, hs₂]
          show (malloc (malloc s₁.mallocs).2).2 = []
          rw [hms₁, hnil]
          rfl

/-! ### The root directory -/

/-- **A formatted disk** that nobody has opened yet: the data of the free map's file begins in
sector `M`, and the root directory has sector `R`. -/
structure Formatted (s s' : FileSys) (M R : ℕ) : Prop where
  dev : s'.dev = s.dev
  openInodes : s'.openInodes = []
  bitCnt : s'.freeMap.bitCnt = s.dev.size
  map : s'.inodeAt freeMapSector = ⟨M, s.mapSize, inodeMagic⟩
  root : s'.inodeAt rootDirSector = ⟨R, 320, inodeMagic⟩
  zero : ∀ o < 320, s'.disk (512 * R + o) = 0
  fitsMap : M + bytesToSectors s.mapSize ≤ s.dev.size
  fitsRoot : R < s.dev.size
  apartMap : 1 < M
  apartRoot : 1 < R ∧ R ∉ Set.Ico M (M + bytesToSectors s.mapSize)
  used : ∀ i < s.dev.size, i ≤ 1 ∨ i ∈ Set.Ico M (M + bytesToSectors s.mapSize) ∨ i = R →
    bitOfBytes (fun o => s'.disk (512 * M + o)) i = true
  mallocs : s.mallocs = [] → s'.mallocs = []

/-- **Making the root directory**, with the free map mounted. -/
theorem dirCreate_root {s : FileSys} (h : Mounted s) (hdev : rootDirSector < s.dev.size) :
    Ends (dirCreate s rootDirSector 16) fun r => r.1 = true → ∃ R map ms, R < s.dev.size ∧
      s.freeMap.bit R = false ∧ s.freeMap.Sets true R 1 map ∧ (s.mallocs = [] → ms = []) ∧
      r.2 = ({ s with
        freeMap := map
        disk := memcpy s.disk (512 * s.mapData.start) map.bytes 0 s.mapSize
        mallocs := ms } : FileSys).initInode rootDirSector R 320 := by
  have hone : bytesToSectors 320 = 1 := by decide
  have hmounted : Mounted { s with mallocs := (malloc s.mallocs).2 } :=
    ⟨h.bitCnt, h.fits, h.file, h.length, h.onDevice⟩
  have hcreate := inodeCreate_ends (s := s) (x := rootDirSector) (show (0 : ℤ) ≤ 320 by decide)
    (freeMapAllocate_ends hmounted _) (by
      intro start s' ha
      cases ha with
      | done hrun _ _ => exact ⟨hdev, hrun.2.1.1.trans_eq h.bitCnt⟩)
  refine hcreate.mono fun ⟨created, s'⟩ hc hok => ?_
  cases hc with
  | noMemory => exact nomatch hok
  | noSpace => exact nomatch hok
  | @done R s' _ ha =>
    cases ha with
    | @done _ map hrun hsets hstored =>
      rw [hone] at hrun hsets
      refine ⟨R, map, (({ s with mallocs := (malloc s.mallocs).2 } : FileSys).store map).mallocs,
        hrun.2.1.1.trans_eq h.bitCnt, hrun.2.1.2 R le_rfl (Nat.lt_succ_self R), hsets,
        fun hnil => store_mallocs (malloc_snd_nil hnil), ?_⟩
      unfold FileSys.store
      rw [moved_of_not_fails hstored]
      rfl

theorem doFormat_yields {s : FileSys} {dev : Block} {disk : Buffer} {ms : List Bool}
    (h : Blank s dev disk ms) : Yields (doFormat s) fun s' => ∃ M R, Formatted s s' M R := by
  unfold doFormat
  refine (freeMapCreate_yields h).bind fun s₁ hmade => ?_
  obtain ⟨M, hmade⟩ := hmade
  have hlt := mapSize_lt h.fits
  have hbits := byteCnt_bits h.fits
  have hpos : 0 < bytesToSectors s.mapSize := by
    have hfirst := @lt_bytesToSectors 0 s.mapSize (by unfold FileSys.mapSize; have := h.pos; omega) (by omega)
    exact hfirst
  have hfits : M + bytesToSectors s.mapSize ≤ s.dev.size := hmade.run.1.trans_eq h.bitCnt
  -- the two inodes are marked, hence the data is elsewhere
  have hM : 1 < M := by
    by_contra hle
    have hclear := hmade.run.2 M le_rfl (by omega)
    rw [h.bit M (by omega), decide_eq_false_iff_not] at hclear
    exact hclear (by unfold freeMapSector rootDirSector; omega)
  have hmarked : ∀ i, i ≤ 1 ∨ i ∈ Set.Ico M (M + bytesToSectors s.mapSize) → s₁.freeMap.bit i = true := by
    rintro i (hi | hi)
    · refine (hmade.sets.2 i).trans ?_
      rw [if_neg (by omega), h.bit i (by omega)]
      exact decide_eq_true (by unfold freeMapSector rootDirSector; omega)
    · exact (hmade.sets.2 i).trans (if_pos hi)
  have hsize₁ : s₁.mapSize = s.mapSize := by
    unfold FileSys.mapSize
    rw [hmade.dev]
  have hdata₁ : s₁.mapData = ⟨M, s.mapSize, inodeMagic⟩ := by
    unfold FileSys.mapData
    rw [hmade.file]
    dsimp only
    rw [hmade.inode]
  have hdev₁ : rootDirSector < s₁.dev.size := by
    rw [hmade.dev]
    show 1 < s.dev.size
    omega
  refine (dirCreate_root hmade.mounted hdev₁).yields.bind fun ⟨created, s₂⟩ hc => ?_
  cases created with
  | false => exact Yields.error _
  | true =>
    obtain ⟨R, map, ms', hR, hfree, hsets, hms, rfl⟩ := hc rfl
    rw [hmade.dev] at hR
    rw [hdata₁, hsize₁]
    dsimp only
    rw [if_pos rfl]
    obtain ⟨s₂, hs₂⟩ : ∃ s₂ : FileSys, s₂ = { s₁ with
      freeMap := map
      disk := memcpy s₁.disk (512 * M) map.bytes 0 s.mapSize
      mallocs := ms' } := ⟨_, rfl⟩
    rw [← hs₂]
    -- the directory's sector is elsewhere, too
    have hR₁ : 1 < R := by
      by_contra hle
      rw [hmarked R (.inl (by omega))] at hfree
      exact nomatch hfree
    have hRM : R ∉ Set.Ico M (M + bytesToSectors s.mapSize) := by
      intro hmem
      rw [hmarked R (.inr hmem)] at hfree
      exact nomatch hfree
    have hone : bytesToSectors 320 = 1 := by decide
    have hroot : rootDirSector ∉ Set.Ico R (R + bytesToSectors 320) := by
      rw [hone, Set.mem_Ico]
      unfold rootDirSector
      omega
    obtain ⟨hread, hzero, hsame⟩ := @initInode_spec s₂ rootDirSector R 320 hroot
      (by have hdev := s.dev.lt; omega) (by decide) (by decide)
    obtain ⟨s₃, hs₃⟩ : ∃ s₃, s₃ = s₂.initInode rootDirSector R 320 := ⟨_, rfl⟩
    rw [← hs₃] at hread hzero hsame ⊢
    have hinodes₃ : s₃.inodes = s₁.inodes := by rw [hs₃, hs₂]; rfl
    have hopen₃ : s₃.openInodes = [s.nextInode] := by rw [hs₃, hs₂]; exact hmade.openInodes
    have hfile₃ : s₃.freeMapFile = some ⟨s.nextInode, 0, false⟩ := by rw [hs₃, hs₂]; exact hmade.file
    have hclose : freeMapClose s₃ = .ok (s₃.closing s.nextInode) := by
      unfold freeMapClose
      rw [hfile₃]
      refine inodeClose_eq ?_
      rw [hinodes₃, hmade.inode]
      exact fun hbad => nomatch hbad.2
    rw [hclose]
    -- the map's file is neither an inode nor the directory
    have hstored : ∀ o < s.mapSize, s₃.disk (512 * M + o) = map.bytes o := by
      intro o ho
      have hsector := @lt_bytesToSectors o s.mapSize (by omega) (by omega)
      rw [hsame.byte, hs₂]
      · dsimp only
        rw [memcpy_inside (by omega) (by omega)]
        congr 1
        omega
      · rw [Set.mem_insert_iff, hone, Set.mem_Ico]
        rw [Set.mem_Ico] at hRM
        unfold rootDirSector
        omega
    refine .ok ⟨M, R, ?_, ?_, ?_, ?_, hread, ?_, hfits, hR, hM, ⟨hR₁, hRM⟩, ?_, ?_⟩
    · show s₃.dev = s.dev
      rw [hs₃, hs₂]
      exact hmade.dev
    · show (if (s₃.inodes s.nextInode).openCnt - 1 = 0 then s₃.openInodes.erase s.nextInode
        else s₃.openInodes) = []
      rw [hinodes₃, hmade.inode, hopen₃, if_pos (show (1 : ℤ) - 1 = 0 from rfl),
        List.erase_cons_head]
    · show s₃.freeMap.bitCnt = _
      rw [hs₃, hs₂]
      show map.bitCnt = _
      rw [hsets.1, hmade.mounted.bitCnt, hmade.dev]
    · -- the inode of the map is written neither with the map nor with the directory
      have hmap₂ : DiskSame (Set.Ico M (M + bytesToSectors s.mapSize)) s₁.disk s₂.disk := by
        rw [hs₂]
        refine DiskSame.memcpy fun i hi => ?_
        have hsector := @lt_bytesToSectors i s.mapSize (by omega) (by omega)
        rw [Set.mem_Ico]
        omega
      calc s₃.inodeAt freeMapSector
        _ = s₂.inodeAt freeMapSector := by
          refine DiskSame.inodeAt hsame ?_
          rw [Set.mem_insert_iff, hone, Set.mem_Ico]
          unfold freeMapSector rootDirSector
          omega
        _ = s₁.inodeAt freeMapSector := by
          refine DiskSame.inodeAt hmap₂ ?_
          rw [Set.mem_Ico]
          unfold freeMapSector
          omega
        _ = ⟨M, s.mapSize, inodeMagic⟩ := hmade.inodeAt
    · exact fun o ho => hzero o (by omega)
    · intro i hi hmem
      show bitOfBytes (fun o => s₃.disk (512 * M + o)) i = true
      rw [@bitOfBytes_congr _ map.bytes i (hstored (i / 8) (by unfold FileSys.mapSize; omega)),
        bitOfBytes_bytes, hsets.2 i]
      split
      · rfl
      · next hne =>
        obtain hi | hi | rfl := hmem
        · exact hmarked i (.inl hi)
        · exact hmarked i (.inr hi)
        · exact absurd ⟨le_rfl, Nat.lt_succ_self i⟩ hne
    · intro hnil
      show s₃.mallocs = []
      rw [hs₃, hs₂]
      exact hms (hmade.mallocs hnil)

/-! ### `filesys_init` -/

/-- **After `filesys_init`** the free map is mounted, and its file holds what it holds. -/
theorem filesysInit_mounts (dev : Block) (disk : Buffer) (junk : ℕ → BitVec 32) (ms : List Bool)
    (format : Bool) : Yields (filesysInit dev disk junk ms format) fun s => Mounted s ∧ Synced s := by
  refine (freeMapInit_yields dev disk junk ms).bind fun s₁ hblank => ?_
  cases format with
  | false =>
    refine Yields.step rfl ?_
    exact (freeMapOpen_yields hblank.openInodes hblank.bitCnt hblank.pos hblank.fits).mono
      fun s hs => ⟨hs.mounted, hs.synced⟩
  | true =>
    refine (doFormat_yields hblank).bind fun s₂ hformat => ?_
    obtain ⟨M, R, hformat⟩ := hformat
    have hdev := hformat.dev
    refine (freeMapOpen_yields hformat.openInodes (hformat.bitCnt.trans (by rw [hdev]))
      (by rw [hdev]; exact hblank.pos) (by rw [hdev]; exact hblank.fits)).mono
      fun s hs => ⟨hs.mounted, hs.synced⟩

/-- **A new file system**: the root directory is empty, and the free map's file is open, once, and
nothing else. -/
structure NewFileSys (s : FileSys) (p : InodePtr) : Prop where
  file : s.freeMapFile = some ⟨p, 0, false⟩
  intact : Intact s fun q => if q = p then 1 else 0
  openInodes : s.openInodes = [p]
  sector : (s.inodes p).sector = freeMapSector
  empty : ∀ i < 16, entryInUse (s.slot i) = false

/-- The two inodes of a formatted disk own different sectors, and they are marked in the map that
is read back. -/
theorem formatted_layout {s s₁ s₂ : FileSys} {M R : ℕ} (hfits : s₁.dev.size + 31 < 2 ^ 32)
    (hf : Formatted s₁ s₂ M R) (hs : FreshMount s₂ s) : Layout s {freeMapSector, rootDirSector} := by
  have hdev : s.dev = s₁.dev := hs.dev.trans hf.dev
  have hat : ∀ x, s.inodeAt x = s₂.inodeAt x := by
    intro x
    unfold FileSys.inodeAt
    rw [hs.disk]
  have hmap : s.inodeAt freeMapSector = ⟨M, s₁.mapSize, inodeMagic⟩ := (hat _).trans hf.map
  have hroot : s.inodeAt rootDirSector = ⟨R, 320, inodeMagic⟩ := (hat _).trans hf.root
  have hmapSectors : (s.inodeAt freeMapSector).sectors = Set.Ico M (M + bytesToSectors s₁.mapSize) := by
    rw [hmap]
    rfl
  have hrootSectors : (s.inodeAt rootDirSector).sectors = {R} := by
    rw [hroot]
    exact Set.ext fun y => by
      show R ≤ y ∧ y < R + 1 ↔ y = R
      omega
  have hM := hf.apartMap
  obtain ⟨hR, hRM⟩ := hf.apartRoot
  have hfitsMap := hf.fitsMap
  have hfitsRoot := hf.fitsRoot
  have hbit : ∀ i < s₁.dev.size, i ≤ 1 ∨ i ∈ Set.Ico M (M + bytesToSectors s₁.mapSize) ∨ i = R →
      s.freeMap.bit i = true := by
    intro i hi hmem
    rw [← hs.synced i (by rw [hdev]; exact hi), ← hf.used i hi hmem]
    unfold FileSys.mapFile FileSys.mapData
    rw [hs.file, hs.disk]
    dsimp only
    rw [hs.inodes, Function.update_self, hf.map]
  have hempty : Layout s ∅ :=
    ⟨fun _ hx => hx.elim, fun _ hx => hx.elim, fun _ hx => hx.elim, Set.pairwiseDisjoint_empty,
      fun _ hx => hx.elim⟩
  have hrootLayout : Layout s (insert rootDirSector ∅) := by
    refine hempty.insert ?_ ?_ ?_ ?_ fun z hz => hz.elim
    · rw [hroot]
      exact Int.natCast_nonneg 320
    · rw [hroot, hdev]
      exact hfitsRoot
    · rw [hrootSectors, Set.mem_singleton_iff]
      exact fun heq => absurd hR (heq ▸ lt_irrefl 1)
    · rintro y (rfl | hy)
      · refine ⟨by rw [hdev]; exact hR.trans hfitsRoot, hbit _ (hR.trans hfitsRoot) (.inl le_rfl)⟩
      · rw [hrootSectors, Set.mem_singleton_iff] at hy
        rw [hy, hdev]
        exact ⟨hfitsRoot, hbit R hfitsRoot (.inr (.inr rfl))⟩
  rw [← insert_empty_eq]
  refine hrootLayout.insert ?_ ?_ ?_ ?_ ?_
  · rw [hmap]
    exact Int.natCast_nonneg _
  · rw [hmap, hdev]
    exact hfitsMap
  · rw [hmapSectors, Set.mem_Ico]
    unfold freeMapSector
    omega
  · rintro y (rfl | hy)
    · have hpos : freeMapSector < s₁.dev.size := by
        unfold freeMapSector
        omega
      exact ⟨by rw [hdev]; exact hpos, hbit _ hpos (.inl (by decide))⟩
    · rw [hmapSectors] at hy
      have hlt : y < s₁.dev.size := hy.2.trans_le hfitsMap
      exact ⟨by rw [hdev]; exact hlt, hbit y hlt (.inr (.inl hy))⟩
  · rintro z (rfl | hz)
    · refine Set.disjoint_left.mpr ?_
      rintro y (rfl | hy) (hz | hz)
      · exact absurd hz (by decide)
      · rw [hrootSectors, Set.mem_singleton_iff] at hz
        unfold freeMapSector at hz
        omega
      · rw [hmapSectors, hz, Set.mem_Ico] at hy
        unfold rootDirSector at hy
        omega
      · rw [hrootSectors, Set.mem_singleton_iff] at hz
        rw [hmapSectors, hz] at hy
        exact hRM hy
    · exact hz.elim

theorem filesysInit_intact (dev : Block) (disk : Buffer) (junk : ℕ → BitVec 32) (ms : List Bool) :
    Yields (filesysInit dev disk junk ms true) fun s => (ms = [] → s.mallocs = []) ∧
      ∃ p, NewFileSys s p := by
  refine (freeMapInit_yields dev disk junk ms).bind fun s₁ hblank => ?_
  refine (doFormat_yields hblank).bind fun s₂ hformat => ?_
  obtain ⟨M, R, hformat⟩ := hformat
  have hdev := hformat.dev
  refine (freeMapOpen_yields hformat.openInodes (hformat.bitCnt.trans (by rw [hdev]))
    (by rw [hdev]; exact hblank.pos) (by rw [hdev]; exact hblank.fits)).mono fun s hs => ⟨?_, s₂.nextInode, ?_⟩
  · exact fun hnil => hs.mallocs (hformat.mallocs (hblank.mallocs hnil))
  have hat : ∀ x, s.inodeAt x = s₂.inodeAt x := by
    intro x
    unfold FileSys.inodeAt
    rw [hs.disk]
  have hself : s.inodes s₂.nextInode = ⟨freeMapSector, 1, false, 0, s₂.inodeAt freeMapSector⟩ := by
    rw [hs.inodes, Function.update_self]
  have hroot : s.root = ⟨R, 320, inodeMagic⟩ := (hat rootDirSector).trans hformat.root
  have hempty : ∀ i < 16, entryInUse (s.slot i) = false := by
    intro i hi
    have hzero : s.slot i 19 = 0 := by
      show s.disk (512 * s.root.start + (20 * i + 19)) = 0
      rw [hroot, hs.disk]
      exact hformat.zero (20 * i + 19) (by omega)
    unfold entryInUse
    rw [hzero]
    rfl
  have hnamed : ∀ x, x ∉ s.named := by
    rintro x ⟨i, hi, huse, -⟩
    rw [hempty i hi] at huse
    exact nomatch huse
  have hopen : ∀ q, q ∈ s.openInodes ↔ q = s₂.nextInode := by
    intro q
    rw [hs.openInodes, List.mem_singleton]
  refine ⟨hs.file, ⟨hs.mounted, ?_, ?_, ?_, ?_, ?_, ?_, ?_⟩, hs.openInodes, by rw [hself], hempty⟩
  · intro file hfile
    obtain rfl := Option.some.inj (hs.file.symm.trans hfile)
    exact ⟨(hopen _).mpr rfl, by rw [hself]⟩
  · rw [hroot]
  · refine ⟨?_, ?_, ?_, ?_, ?_, ?_, ?_, ?_⟩
    · rw [hs.openInodes]
      exact List.nodup_cons.mpr ⟨List.not_mem_nil, List.nodup_nil⟩
    all_goals intro q hq
    · rw [(hopen q).mp hq, hs.nextInode]
      exact Nat.lt_succ_self _
    · rw [if_pos ((hopen q).mp hq)]
      exact Int.zero_lt_one
    · exact if_neg fun heq => hq ((hopen q).mpr heq)
    · rw [if_pos ((hopen q).mp hq), (hopen q).mp hq, hself]
    · rw [(hopen q).mp hq, hself]
    · rw [(hopen q).mp hq, hself]
      exact (hat _).symm
    · exact fun r hr _ => ((hopen q).mp hq).trans ((hopen r).mp hr).symm
  · intro i hi j _ huse
    rw [hempty i hi] at huse
    exact nomatch huse
  · exact fun x hx => absurd hx (hnamed x)
  · intro q hq hr
    rw [(hopen q).mp hq, hself] at hr
    exact nomatch hr
  · refine (formatted_layout hblank.fits hformat hs).mono ?_
    rintro x (rfl | rfl | hx | ⟨q, hq, rfl⟩)
    · exact .inl rfl
    · exact .inr rfl
    · exact absurd hx (hnamed x)
    · rw [(hopen q).mp hq, hself]
      exact .inl rfl

end Pintos
