import Pintos.FileSys.Integrity
import Mathlib.Order.CompletePartialOrder
import Mathlib.Order.Interval.Set.Disjoint

/-!
# Who owns which sector

A file owns the sector of its inode and the sectors of its data. The free map tells which sectors
are owned, but not by whom: that follows from the inodes on the disk, the entries of the root
directory and the open inodes. An inode is *live* if one of these refers to it, and the invariant
of the file system is that no two live inodes own the same sector (`Layout`). It does not depend on
memory: when an allocation fails sectors may be lost, but they are never owned twice.

A sector that has been allocated and belongs to no live inode is *reserved*; a call allocates
sectors, fills them in, and only then makes an inode live.

* `FileSys.live`, `FileSys.extent` — the live inodes, and what an inode owns;
* `Intact` — the invariant, with the references to open inodes that callers hold;
* `Intact.redisk` — writing to sectors that belong to the data of one file, or to none;
* `Intact.of_allocates`, `Intact.release` — the free map's calls keep the invariant.
-/

namespace Pintos

open Total

/-! ### Sectors -/

/-- The inode in sector `x`. -/
def FileSys.inodeAt (s : FileSys) (x : ℕ) : InodeDisk := InodeDisk.read fun o => s.disk (512 * x + o)

/-- The sectors of the data of an inode. -/
def InodeDisk.sectors (d : InodeDisk) : Set ℕ := Set.Ico d.start (d.start + bytesToSectors d.length)

/-- The sectors that the inode in sector `x` owns. -/
def FileSys.extent (s : FileSys) (x : ℕ) : Set ℕ := insert x (s.inodeAt x).sectors

/-- The inode of the root directory. -/
def FileSys.root (s : FileSys) : InodeDisk := s.inodeAt rootDirSector

/-- Slot `i` of the root directory. -/
def FileSys.slot (s : FileSys) (i : ℕ) : Buffer := s.slotOf s.root i

/-- The inodes that the root directory names. -/
def FileSys.named (s : FileSys) : Set ℕ :=
  {x | ∃ i < 16, entryInUse (s.slot i) = true ∧ entrySector (s.slot i) = x}

/-- The inodes that are open. -/
def FileSys.opened (s : FileSys) : Set ℕ := {x | ∃ p ∈ s.openInodes, (s.inodes p).sector = x}

/-- The inodes that something refers to. -/
def FileSys.live (s : FileSys) : Set ℕ :=
  {x | x = freeMapSector ∨ x = rootDirSector ∨ x ∈ s.named ∨ x ∈ s.opened}

/-- Every byte of a file lies in one of its sectors. If the rounding up overflows, there are far
too many. -/
theorem lt_bytesToSectors {o : ℕ} {length : ℤ} (ho : (o : ℤ) < length) (hlt : length < 2 ^ 31) :
    o / 512 < bytesToSectors length := by
  unfold bytesToSectors
  by_cases hfit : length + 511 < 2 ^ 31
  · rw [toInt32_of_fits (by omega) hfit, Int.tdiv_eq_ediv_of_nonneg (by omega)]
    omega
  · have hwrap : toInt32 (length + 511) = -(2 ^ 32 - (length + 511)) := by
      unfold toInt32
      rw [Int.bmod_def]
      omega
    rw [hwrap, Int.neg_tdiv, Int.tdiv_eq_ediv_of_nonneg (by omega)]
    omega

theorem InodeDisk.mem_sectors {d : InodeDisk} {o : ℕ} (ho : (o : ℤ) < d.length)
    (hlt : d.length < 2 ^ 31) : d.start + o / 512 ∈ d.sectors :=
  ⟨Nat.le_add_right _ _, Nat.add_lt_add_left (lt_bytesToSectors ho hlt) _⟩

theorem inodeAt_length_lt (s : FileSys) (x : ℕ) : (s.inodeAt x).length < 2 ^ 31 := by
  have hlt : ∀ z : ℤ, toInt32 z < 2 ^ 31 := by
    intro z
    unfold toInt32
    rw [Int.bmod_def]
    omega
  simp only [FileSys.inodeAt, InodeDisk.read]
  apply hlt

/-! ### Writing to some sectors only -/

/-- The disks differ in the sectors `A` at most. -/
def DiskSame (A : Set ℕ) (d d' : Buffer) : Prop :=
  ∀ x ∉ A, ∀ o < 512, d' (512 * x + o) = d (512 * x + o)

section DiskSame

variable {A B : Set ℕ} {d d' d'' : Buffer} {s s' : FileSys} {x o : ℕ}

theorem DiskSame.refl (A : Set ℕ) (d : Buffer) : DiskSame A d d := fun _ _ _ _ => rfl

theorem DiskSame.trans (h : DiskSame A d d') (h' : DiskSame A d' d'') : DiskSame A d d'' :=
  fun x hx o ho => (h' x hx o ho).trans (h x hx o ho)

theorem DiskSame.byte (h : DiskSame A d d') {a : ℕ} (ha : a / 512 ∉ A) : d' a = d a := by
  have hbyte := h (a / 512) ha (a % 512) (Nat.mod_lt a (by decide))
  rwa [Nat.div_add_mod] at hbyte

/-- Bytes are copied to the sectors `A`. -/
theorem DiskSame.memcpy {dofs sofs n : ℕ} {src : Buffer} (h : ∀ i < n, (dofs + i) / 512 ∈ A) :
    DiskSame A d (memcpy d dofs src sofs n) := by
  intro x hx o ho
  refine memcpy_outside ?_
  by_contra hin
  refine hx ?_
  have hmem := h (512 * x + o - dofs) (by omega)
  rwa [show dofs + (512 * x + o - dofs) = 512 * x + o by omega,
    show (512 * x + o) / 512 = x by omega] at hmem

theorem DiskSame.inodeAt (h : DiskSame A s.disk s'.disk) (hx : x ∉ A) : s'.inodeAt x = s.inodeAt x := by
  have hle : ∀ k, k + 4 ≤ 512 →
      le32 (fun o => s'.disk (512 * x + o)) k = le32 (fun o => s.disk (512 * x + o)) k :=
    fun k hk => le32_congr fun i hi => h x hx (k + i) (by omega)
  unfold FileSys.inodeAt InodeDisk.read
  rw [hle 0 (by decide), hle 4 (by decide), hle 8 (by decide)]

/-- A byte of a file none of whose sectors is written. -/
theorem DiskSame.data (h : DiskSame A d d') {data : InodeDisk} (hA : ∀ y ∈ data.sectors, y ∉ A)
    (ho : (o : ℤ) < data.length) (hlt : data.length < 2 ^ 31) :
    d' (512 * data.start + o) = d (512 * data.start + o) := by
  refine h.byte ?_
  rw [show (512 * data.start + o) / 512 = data.start + o / 512 by omega]
  exact hA _ (data.mem_sectors ho hlt)

end DiskSame

/-! ### The invariant -/

/-- The inodes `L` are sound and own sectors that are in use, each for itself. -/
structure Layout (s : FileSys) (L : Set ℕ) : Prop where
  nonneg : ∀ x ∈ L, 0 ≤ (s.inodeAt x).length
  fits : ∀ x ∈ L, (s.inodeAt x).start + bytesToSectors (s.inodeAt x).length ≤ s.dev.size
  apart : ∀ x ∈ L, x ∉ (s.inodeAt x).sectors
  disjoint : L.PairwiseDisjoint s.extent
  used : ∀ x ∈ L, ∀ y ∈ s.extent x, y < s.dev.size ∧ s.freeMap.bit y = true

/-- The table of open inodes: `refs p` references to the inode at `p` are held. -/
structure InodeTable (s : FileSys) (refs : InodePtr → ℤ) : Prop where
  nodup : s.openInodes.Nodup
  fresh : ∀ p ∈ s.openInodes, p < s.nextInode
  held : ∀ p ∈ s.openInodes, 0 < refs p
  free : ∀ p ∉ s.openInodes, refs p = 0
  openCnt : ∀ p ∈ s.openInodes, (s.inodes p).openCnt = refs p
  allowed : ∀ p ∈ s.openInodes, (s.inodes p).denyWriteCnt = 0
  data : ∀ p ∈ s.openInodes, (s.inodes p).data = s.inodeAt (s.inodes p).sector
  shared : ∀ p ∈ s.openInodes, ∀ q ∈ s.openInodes, (s.inodes p).sector = (s.inodes q).sector → p = q

/-- **The invariant** of the file system, between calls and between the stages of a call. -/
structure Intact (s : FileSys) (refs : InodePtr → ℤ) : Prop where
  mounted : Mounted s
  map : ∀ file, s.freeMapFile = some file →
    file.inode ∈ s.openInodes ∧ (s.inodes file.inode).sector = freeMapSector
  root : s.root.length = 320
  table : InodeTable s refs
  /-- No inode is named twice. -/
  once : ∀ i < 16, ∀ j < 16, entryInUse (s.slot i) = true → entryInUse (s.slot j) = true →
    entrySector (s.slot i) = entrySector (s.slot j) → i = j
  special : ∀ x ∈ s.named, x ≠ freeMapSector ∧ x ≠ rootDirSector
  removed : ∀ p ∈ s.openInodes, (s.inodes p).removed = true → (s.inodes p).sector ∉ s.named ∧
    (s.inodes p).sector ≠ freeMapSector ∧ (s.inodes p).sector ≠ rootDirSector
  layout : Layout s s.live

/-- The sectors `B` are in use, but no live inode owns them. -/
def FileSys.Reserved (s : FileSys) (B : Set ℕ) : Prop :=
  ∀ y ∈ B, y < s.dev.size ∧ s.freeMap.bit y = true ∧ ∀ x ∈ s.live, y ∉ s.extent x

section Layout

variable {s s' : FileSys} {refs : InodePtr → ℤ} {L L' B B' : Set ℕ} {x y z : ℕ} {p : InodePtr}

theorem mem_live_map (s : FileSys) : freeMapSector ∈ s.live := .inl rfl

theorem mem_live_root (s : FileSys) : rootDirSector ∈ s.live := .inr (.inl rfl)

theorem mem_live_named (h : x ∈ s.named) : x ∈ s.live := .inr (.inr (.inl h))

theorem mem_live_open (hp : p ∈ s.openInodes) : (s.inodes p).sector ∈ s.live :=
  .inr (.inr (.inr ⟨p, hp, rfl⟩))

theorem mem_extent_self (s : FileSys) (x : ℕ) : x ∈ s.extent x := Set.mem_insert x _

theorem mem_extent_of_sectors (h : y ∈ (s.inodeAt x).sectors) : y ∈ s.extent x :=
  Set.mem_insert_of_mem x h

theorem Layout.mono (h : Layout s L) (hsub : L' ⊆ L) : Layout s L' :=
  ⟨fun x hx => h.nonneg x (hsub hx), fun x hx => h.fits x (hsub hx), fun x hx => h.apart x (hsub hx),
    h.disjoint.subset hsub, fun x hx => h.used x (hsub hx)⟩

/-- What matters of the disk and of the free map. -/
theorem Layout.congr (h : Layout s L) (hdev : s'.dev = s.dev)
    (hinode : ∀ x ∈ L, s'.inodeAt x = s.inodeAt x)
    (hbit : ∀ x ∈ L, ∀ y ∈ s.extent x, s'.freeMap.bit y = true) : Layout s' L := by
  have hextent : ∀ x ∈ L, s'.extent x = s.extent x := fun x hx =>
    congrArg (fun d : InodeDisk => insert x d.sectors) (hinode x hx)
  refine ⟨fun x hx => ?_, fun x hx => ?_, fun x hx => ?_, fun x hx y hy hne => ?_, fun x hx y hy => ?_⟩
  · rw [hinode x hx]
    exact h.nonneg x hx
  · rw [hinode x hx, hdev]
    exact h.fits x hx
  · rw [hinode x hx]
    exact h.apart x hx
  · show Disjoint (s'.extent x) (s'.extent y)
    rw [hextent x hx, hextent y hy]
    exact h.disjoint hx hy hne
  · rw [hextent x hx] at hy
    rw [hdev]
    exact ⟨(h.used x hx y hy).1, hbit x hx y hy⟩

/-- An inode that owns reserved sectors can become live. -/
theorem Layout.insert (h : Layout s L) (hnonneg : 0 ≤ (s.inodeAt x).length)
    (hfits : (s.inodeAt x).start + bytesToSectors (s.inodeAt x).length ≤ s.dev.size)
    (hapart : x ∉ (s.inodeAt x).sectors)
    (hused : ∀ y ∈ s.extent x, y < s.dev.size ∧ s.freeMap.bit y = true)
    (hfree : ∀ z ∈ L, Disjoint (s.extent x) (s.extent z)) : Layout s (insert x L) := by
  refine ⟨?_, ?_, ?_, h.disjoint.insert fun z hz _ => hfree z hz, ?_⟩
  · rintro z (rfl | hz)
    · exact hnonneg
    · exact h.nonneg z hz
  · rintro z (rfl | hz)
    · exact hfits
    · exact h.fits z hz
  · rintro z (rfl | hz)
    · exact hapart
    · exact h.apart z hz
  · rintro z (rfl | hz)
    · exact hused
    · exact h.used z hz

/-- The inode of a live file is not among the data of one. -/
theorem Layout.not_mem_sectors (h : Layout s L) (hx : x ∈ L) (hz : z ∈ L) :
    x ∉ (s.inodeAt z).sectors := by
  intro hmem
  by_cases hxz : x = z
  · subst hxz
    exact h.apart x hx hmem
  · exact Set.disjoint_left.mp (h.disjoint hx hz hxz) (mem_extent_self s x)
      (mem_extent_of_sectors hmem)

/-- The data of two files. -/
theorem Layout.sectors_disjoint (h : Layout s L) (hx : x ∈ L) (hz : z ∈ L) (hne : x ≠ z)
    (hy : y ∈ (s.inodeAt x).sectors) : y ∉ (s.inodeAt z).sectors := fun hmem =>
  Set.disjoint_left.mp (h.disjoint hx hz hne) (mem_extent_of_sectors hy) (mem_extent_of_sectors hmem)

theorem Layout.onDevice (h : Layout s L) (hx : x ∈ L) :
    (s.inodeAt x).OnDevice s.dev (s.inodeAt x).length.toNat := by
  refine ⟨h.nonneg x hx, inodeAt_length_lt s x, fun o ho => ?_⟩
  have hmem := (s.inodeAt x).mem_sectors (o := o) (by omega) (inodeAt_length_lt s x)
  exact (h.used x hx _ (mem_extent_of_sectors hmem)).1

/-! ### The same layout -/

/-- The live inodes are the same and on the disk as they were. -/
structure SameLayout (s s' : FileSys) : Prop where
  dev : s'.dev = s.dev
  named : s'.named = s.named
  live : s'.live = s.live
  inodeAt : ∀ x ∈ s.live, s'.inodeAt x = s.inodeAt x

theorem SameLayout.extent (h : SameLayout s s') (hx : x ∈ s.live) : s'.extent x = s.extent x :=
  congrArg (fun d : InodeDisk => insert x d.sectors) (h.inodeAt x hx)

theorem SameLayout.refl (s : FileSys) : SameLayout s s := ⟨rfl, rfl, rfl, fun _ _ => rfl⟩

theorem SameLayout.withMallocs (s : FileSys) (ms : List Bool) :
    SameLayout s { s with mallocs := ms } := ⟨rfl, rfl, rfl, fun _ _ => rfl⟩

theorem SameLayout.trans {s'' : FileSys} (h : SameLayout s s') (h' : SameLayout s' s'') :
    SameLayout s s'' :=
  ⟨h'.dev.trans h.dev, h'.named.trans h.named, h'.live.trans h.live, fun x hx =>
    (h'.inodeAt x (h.live ▸ hx)).trans (h.inodeAt x hx)⟩

theorem FileSys.Reserved.mono (h : s.Reserved B) (hsub : B' ⊆ B) : s.Reserved B' :=
  fun y hy => h y (hsub hy)

/-- Reserved sectors stay reserved. -/
theorem FileSys.Reserved.same (h : s.Reserved B) (hl : SameLayout s s')
    (hbit : ∀ y ∈ B, s'.freeMap.bit y = true) : s'.Reserved B := by
  intro y hy
  refine ⟨hl.dev ▸ (h y hy).1, hbit y hy, fun x hx => ?_⟩
  rw [hl.live] at hx
  rw [hl.extent hx]
  exact (h y hy).2.2 x hx

end Layout

/-! ### Writing to the disk -/

/-- The slots of the root directory hold what they held. -/
def SameSlots (s s' : FileSys) : Prop := ∀ i < 16, ∀ o < 20, s'.slot i o = s.slot i o

section Disk

variable {s s' : FileSys} {refs : InodePtr → ℤ} {A B : Set ℕ} {x : ℕ}

theorem SameSlots.named (h : SameSlots s s') : s'.named = s.named := by
  refine Set.ext fun x => exists_congr fun i => and_congr_right fun hi => ?_
  obtain ⟨huse, -, hsector⟩ := entry_congr (h i hi)
  rw [huse, hsector]

theorem Intact.mapData (h : Intact s refs) : s.mapData = s.inodeAt freeMapSector := by
  obtain ⟨file, hfile, -⟩ := h.mounted.file
  obtain ⟨hmem, hsector⟩ := h.map file hfile
  unfold FileSys.mapData
  rw [hfile]
  dsimp only
  rw [h.table.data _ hmem, hsector]

/-- **Writing to the disk** where neither a live inode nor an entry of the root directory is, with
another free map in memory. -/
theorem Intact.redisk (h : Intact s refs) {disk : Buffer} (map : Bitmap) (ms : List Bool)
    (hsame : DiskSame A s.disk disk) (hlive : ∀ x ∈ s.live, x ∉ A)
    (hroot : ∀ y ∈ s.root.sectors, y ∉ A) (hcnt : map.bitCnt = s.dev.size)
    (hbit : ∀ x ∈ s.live, ∀ y ∈ s.extent x, map.bit y = true) :
    let s' := { s with disk := disk, freeMap := map, mallocs := ms }
    Intact s' refs ∧ SameLayout s s' ∧ SameSlots s s' := by
  intro s'
  have hinode : ∀ x ∈ s.live, s'.inodeAt x = s.inodeAt x := fun x hx =>
    DiskSame.inodeAt hsame (hlive x hx)
  have hroot' : s'.root = s.root := hinode _ (mem_live_root s)
  have hslots : SameSlots s s' := by
    intro i hi o ho
    have hbyte := hsame.data hroot (o := 20 * i + o) (by rw [h.root]; omega)
      (inodeAt_length_lt s rootDirSector)
    show disk (512 * s'.root.start + (20 * i + o)) = s.disk (512 * s.root.start + (20 * i + o))
    rw [hroot']
    exact hbyte
  have hnamed : s'.named = s.named := hslots.named
  have hsameLive : s'.live = s.live := by
    show {x | x = freeMapSector ∨ x = rootDirSector ∨ x ∈ s'.named ∨ x ∈ s.opened} = _
    rw [hnamed]
    rfl
  refine ⟨?_, ⟨rfl, hnamed, hsameLive, hinode⟩, hslots⟩
  exact
    { mounted := ⟨hcnt, h.mounted.fits, h.mounted.file, h.mounted.length, h.mounted.onDevice⟩
      map := h.map
      root := by rw [hroot']; exact h.root
      table :=
        { h.table with
          data := fun p hp => (h.table.data p hp).trans (hinode _ (mem_live_open hp)).symm }
      once := fun i hi j hj hui huj hij => by
        obtain ⟨hui', -, hsi'⟩ := entry_congr (hslots i hi)
        obtain ⟨huj', -, hsj'⟩ := entry_congr (hslots j hj)
        exact h.once i hi j hj (hui' ▸ hui) (huj' ▸ huj) (by rw [← hsi', ← hsj']; exact hij)
      special := fun x hx => h.special x (hnamed ▸ hx)
      removed := fun p hp hr => by
        rw [hnamed]
        exact h.removed p hp hr
      layout := by
        rw [hsameLive]
        exact h.layout.congr rfl hinode hbit }

/-- Storing a map writes to the file of the free map. -/
theorem Intact.store_same (h : Intact s refs) (map : Bitmap) :
    DiskSame (s.inodeAt freeMapSector).sectors s.disk (s.store map).disk := by
  refine DiskSame.memcpy fun i hi => ?_
  have hle := moved_le s.mallocs false 0 s.mapSize
  have hlen := h.mounted.length
  rw [h.mapData] at hlen ⊢
  rw [show (512 * (s.inodeAt freeMapSector).start + i) / 512
    = (s.inodeAt freeMapSector).start + i / 512 by omega]
  exact InodeDisk.mem_sectors (by omega) (inodeAt_length_lt s freeMapSector)

/-- **Storing a map** in which the sectors of the live inodes are in use. -/
theorem Intact.store (h : Intact s refs) {map : Bitmap} (hcnt : map.bitCnt = s.dev.size)
    (hbit : ∀ x ∈ s.live, ∀ y ∈ s.extent x, map.bit y = true) :
    Intact (s.store map) refs ∧ SameLayout s (s.store map) ∧ SameSlots s (s.store map) := by
  refine h.redisk map _ (h.store_same map) (fun x hx => ?_) (fun y hy => ?_) hcnt hbit
  · exact h.layout.not_mem_sectors hx (mem_live_map s)
  · exact h.layout.sectors_disjoint (mem_live_root s) (mem_live_map s) (by decide) hy

/-- Only the allocations to come have changed. -/
theorem Intact.withMallocs (h : Intact s refs) (ms : List Bool) : Intact { s with mallocs := ms } refs :=
  (h.redisk s.freeMap ms (DiskSame.refl ∅ s.disk) (fun _ _ => Set.notMem_empty _) (fun _ _ => Set.notMem_empty _)
    h.mounted.bitCnt fun x hx y hy => (h.layout.used x hx y hy).2).1

/-! ### Allocating and releasing sectors -/

/-- **`free_map_allocate`** keeps the invariant, and what it returns is reserved. -/
theorem Intact.of_allocates (h : Intact s refs) {cnt : ℕ} {r : Option ℕ × FileSys}
    (ha : Allocates s cnt r) : Intact r.2 refs ∧ SameLayout s r.2 ∧ SameSlots s r.2 ∧
      DiskSame (s.inodeAt freeMapSector).sectors s.disk r.2.disk ∧
      (∀ B, s.Reserved B → r.2.Reserved B) ∧
      ∀ i, r.1 = some i → r.2.Reserved (Set.Ico i (i + cnt)) ∧
        ∀ B, s.Reserved B → Disjoint B (Set.Ico i (i + cnt)) := by
  have hset : ∀ {i : ℕ} {map : Bitmap}, s.freeMap.Sets true i cnt map → ∀ y,
      s.freeMap.bit y = true → map.bit y = true := by
    intro i map hsets y hy
    rw [hsets.2 y, hy, ite_self]
  cases ha with
  | full hfull =>
    exact ⟨h, .refl s, fun _ _ _ _ => rfl, .refl _ _, fun B hB => hB, fun i hi => nomatch hi⟩
  | @undone i map hrun hsets hfails =>
    -- the map in memory is the old one again
    obtain ⟨hsound, hlayout, hslots⟩ := h.redisk s.freeMap (s.store map).mallocs
      (h.store_same map) (fun x hx => h.layout.not_mem_sectors hx (mem_live_map s))
      (fun y hy => h.layout.sectors_disjoint (mem_live_root s) (mem_live_map s) (by decide) hy)
      h.mounted.bitCnt (fun x hx y hy => (h.layout.used x hx y hy).2)
    exact ⟨hsound, hlayout, hslots, h.store_same map, fun B hB => hB.same hlayout fun y hy =>
      (hB y hy).2.1, fun i hi => nomatch hi⟩
  | @done i map hrun hsets hok =>
    obtain ⟨-, ⟨hle, hclear⟩, -⟩ := hrun
    have hcnt : map.bitCnt = s.dev.size := hsets.1.trans h.mounted.bitCnt
    obtain ⟨hsound, hlayout, hslots⟩ := h.store hcnt fun x hx y hy =>
      hset hsets y (h.layout.used x hx y hy).2
    refine ⟨hsound, hlayout, hslots, h.store_same map, fun B hB => hB.same hlayout fun y hy =>
      hset hsets y (hB y hy).2.1, fun j hj => ?_⟩
    obtain rfl : i = j := Option.some.inj hj
    refine ⟨fun y hy => ⟨?_, ?_, fun x hx hmem => ?_⟩, fun B hB => ?_⟩
    · have hlt : y < i + cnt := hy.2
      rw [h.mounted.bitCnt] at hle
      exact hlt.trans_le hle
    · exact (hsets.2 y).trans (if_pos hy)
    · -- what a live inode owns was in use before
      rw [hlayout.live] at hx
      rw [hlayout.extent hx] at hmem
      have hused := (h.layout.used x hx y hmem).2
      rw [hclear y hy.1 hy.2] at hused
      exact Bool.false_ne_true hused
    · refine Set.disjoint_left.mpr fun y hy hmem => ?_
      have hused := (hB y hy).2.1
      rw [hclear y hmem.1 hmem.2] at hused
      exact Bool.false_ne_true hused

/-- **`free_map_release`** of reserved sectors. -/
theorem Intact.release (h : Intact s refs) {i cnt : ℕ} (hle : i + cnt ≤ s.dev.size)
    (hB : s.Reserved (Set.Ico i (i + cnt))) :
    Ends (freeMapRelease s i cnt) fun s' => (∃ map, s.freeMap.Sets false i cnt map ∧ s' = s.store map) ∧
      Intact s' refs ∧ SameLayout s s' ∧ SameSlots s s' ∧
      ∀ C, s.Reserved C → Disjoint C (Set.Ico i (i + cnt)) → s'.Reserved C := by
  refine (freeMapRelease_ends h.mounted hle fun j hlo hhi => (hB j ⟨hlo, hhi⟩).2.1).mono ?_
  rintro _ ⟨map, hsets, rfl⟩
  have hkeep : ∀ y ∉ Set.Ico i (i + cnt), s.freeMap.bit y = true → map.bit y = true := by
    intro y hy hbit
    exact (hsets.2 y).trans ((if_neg hy).trans hbit)
  obtain ⟨hsound, hlayout, hslots⟩ := h.store (hsets.1.trans h.mounted.bitCnt) fun x hx y hy =>
    hkeep y (fun hmem => (hB y hmem).2.2 x hx hy) (h.layout.used x hx y hy).2
  refine ⟨⟨map, hsets, rfl⟩, hsound, hlayout, hslots, fun C hC hdis => hC.same hlayout fun y hy => ?_⟩
  exact hkeep y (Set.disjoint_left.mp hdis hy) (hC y hy).2.1

end Disk

end Pintos
