import Pintos.FileSys.OpenInodes

/-!
# The stages of the calls

`filesys_create` reserves a sector, makes an inode there (`inode_create`), and enters it in the root
directory (`dir_add`). `filesys_remove` frees an entry and marks its inode as removed. Here is what
each stage does to the invariant.

* `SameFile` — a file and what it holds are on disk as they were;
* `Creates`, `Intact.of_creates` — `inode_create` in a reserved sector;
* `Intact.of_adds` — `dir_add` of a reserved inode makes it live;
* `Intact.freeSlot` — an entry of an open inode is freed.
-/

namespace Pintos

open Total

/-! ### Files on disk -/

/-- The inode in sector `x` and its data are as they were. -/
def SameFile (s s' : FileSys) (x : ℕ) : Prop :=
  s'.inodeAt x = s.inodeAt x ∧ ∀ o : ℕ, (o : ℤ) < (s.inodeAt x).length →
    s'.disk (512 * (s.inodeAt x).start + o) = s.disk (512 * (s.inodeAt x).start + o)

/-- All live files are as they were, but for the free map. -/
def SameFiles (s s' : FileSys) : Prop := ∀ x ∈ s.live, x ≠ freeMapSector → SameFile s s' x

section SameFile

variable {s s' s'' : FileSys} {refs : InodePtr → ℤ} {A : Set ℕ} {x : ℕ}

theorem SameFile.trans (h : SameFile s s' x) (h' : SameFile s' s'' x) : SameFile s s'' x := by
  obtain ⟨hinode, hbytes⟩ := h
  obtain ⟨hinode', hbytes'⟩ := h'
  rw [hinode] at hinode' hbytes'
  exact ⟨hinode', fun o ho => (hbytes' o ho).trans (hbytes o ho)⟩

theorem SameFile.of_diskSame (h : DiskSame A s.disk s'.disk) (hx : ∀ y ∈ s.extent x, y ∉ A) :
    SameFile s s' x :=
  ⟨h.inodeAt (hx x (mem_extent_self s x)), fun _ ho =>
    h.data (fun y hy => hx y (mem_extent_of_sectors hy)) ho (inodeAt_length_lt s x)⟩

theorem SameFiles.trans (h : SameFiles s s') (h' : SameFiles s' s'') (hlive : s.live ⊆ s'.live) :
    SameFiles s s'' := fun x hx hne => (h x hx hne).trans (h' x (hlive hx) hne)

/-- Writing to the file of the free map. -/
theorem Intact.sameFiles_of_map (h : Intact s refs)
    (hsame : DiskSame (s.inodeAt freeMapSector).sectors s.disk s'.disk) : SameFiles s s' := by
  intro x hx hne
  refine .of_diskSame hsame fun y hy hmem => ?_
  exact Set.disjoint_left.mp (h.layout.disjoint hx (mem_live_map s) hne) hy
    (mem_extent_of_sectors hmem)

/-- Writing to reserved sectors. -/
theorem SameFiles.of_reserved (h : s.Reserved A) (hsame : DiskSame A s.disk s'.disk) :
    SameFiles s s' := fun x hx _ =>
  .of_diskSame hsame fun y hy hmem => (h y hmem).2.2 x hx hy

/-- The slots are data of the root directory. -/
theorem SameFile.slots (h : SameFile s s' rootDirSector) (hroot : s.root.length = 320) :
    SameSlots s s' := by
  intro i hi o ho
  have hbyte := h.2 (20 * i + o) (by
    rw [show s.inodeAt rootDirSector = s.root from rfl, hroot]
    omega)
  show s'.disk (512 * (s'.inodeAt rootDirSector).start + (20 * i + o)) = _
  rw [h.1]
  exact hbyte

end SameFile

/-! ### `inode_create` -/

/-- An inode that is written can be read. -/
theorem InodeDisk.read_of_write {d : InodeDisk} {b : Buffer} (hstart : d.start < 2 ^ 32)
    (hlo : -2 ^ 31 ≤ d.length) (hhi : d.length < 2 ^ 31) (hmagic : d.magic < 2 ^ 32)
    (h : ∀ o < 12, b o = d.write o) : InodeDisk.read b = d := by
  have hs : le32 b 0 = d.start := by
    refine le32_of_putLe32 hstart fun i hi => ?_
    rw [Nat.zero_add, h i (by omega)]
    exact if_pos hi
  have hl : le32 b 4 = (d.length % 2 ^ 32).toNat := by
    refine le32_of_putLe32 (by omega) fun i hi => ?_
    rw [h (4 + i) (by omega)]
    unfold InodeDisk.write
    rw [if_neg (by omega), if_pos (by omega), Nat.add_sub_cancel_left]
  have hm : le32 b 8 = d.magic := by
    refine le32_of_putLe32 hmagic fun i hi => ?_
    rw [h (8 + i) (by omega)]
    unfold InodeDisk.write
    rw [if_neg (by omega), if_neg (by omega), if_pos (by omega), Nat.add_sub_cancel_left]
  have hlen : toInt32 (d.length % 2 ^ 32).toNat = d.length := by
    unfold toInt32
    rw [Int.bmod_def]
    omega
  unfold InodeDisk.read
  rw [hs, hl, hm, hlen]

/-- The loop that clears the data. -/
theorem zeroSectors_eq {dev : Block} : ∀ (k start : ℕ) (disk : Buffer), start + k ≤ dev.size →
    zeroSectors dev k start disk = .ok (memcpy disk (512 * start) (fun _ => 0) 0 (512 * k)) := by
  intro k
  induction k with
  | zero => exact fun start disk _ => congrArg Except.ok memcpy_zero.symm
  | succ k ih =>
    intro start disk hle
    unfold zeroSectors blockWrite
    rw [if_pos (by omega)]
    refine (ih (start + 1) _ (by omega)).trans ?_
    congr 1
    funext a
    by_cases hrest : 512 * (start + 1) ≤ a ∧ a < 512 * (start + 1) + 512 * k
    · rw [memcpy_inside hrest.1 hrest.2, memcpy_inside (by omega) (by omega)]
    · rw [memcpy_outside (by omega)]
      by_cases hfirst : 512 * start ≤ a ∧ a < 512 * start + 512
      · rw [memcpy_inside hfirst.1 hfirst.2, memcpy_inside (by omega) (by omega)]
      · rw [memcpy_outside (by omega), memcpy_outside (by omega)]

/-- The disk with a new inode in sector `x` whose data, from `start` on, is clear. -/
def FileSys.initInode (s : FileSys) (x start : ℕ) (length : ℤ) : FileSys :=
  { s with
    disk := memcpy (memcpy s.disk (512 * x) (InodeDisk.write ⟨start, length, inodeMagic⟩) 0 512)
      (512 * start) (fun _ => 0) 0 (512 * bytesToSectors length) }

/-- **What `inode_create` does**, if `A` is what allocating the data does. -/
inductive Creates (s : FileSys) (x : ℕ) (length : ℤ) (A : Option ℕ × FileSys → Prop) :
    Bool × FileSys → Prop where
  | noMemory : (malloc s.mallocs).1 = false →
      Creates s x length A (false, { s with mallocs := (malloc s.mallocs).2 })
  | noSpace {s₁ : FileSys} : (malloc s.mallocs).1 = true → A (none, s₁) →
      Creates s x length A (false, s₁)
  | done {start : ℕ} {s₁ : FileSys} : (malloc s.mallocs).1 = true → A (some start, s₁) →
      Creates s x length A (true, s₁.initInode x start length)

theorem inodeCreate_ends {s : FileSys} {x : ℕ} {length : ℤ} {A : Option ℕ × FileSys → Prop}
    (hlen : 0 ≤ length) (hA : Ends (freeMapAllocate { s with mallocs := (malloc s.mallocs).2 }
      (bytesToSectors length)) A)
    (hfit : ∀ start s₁, A (some start, s₁) →
      x < s₁.dev.size ∧ start + bytesToSectors length ≤ s₁.dev.size) :
    Ends (inodeCreate s x length) (Creates s x length A) := by
  unfold inodeCreate
  rw [if_neg (not_lt.mpr hlen)]
  cases hm : malloc s.mallocs with
  | mk got ms =>
    obtain rfl : ms = (malloc s.mallocs).2 := by rw [hm]
    cases got with
    | false => exact .ok (.noMemory (by rw [hm]))
    | true =>
      have hgot : (malloc s.mallocs).1 = true := by rw [hm]
      dsimp only
      rw [if_pos rfl]
      refine hA.bind fun ⟨start, s₁⟩ hs₁ => ?_
      cases start with
      | none => exact .ok (.noSpace hgot hs₁)
      | some start =>
        obtain ⟨hx, hle⟩ := hfit start s₁ hs₁
        refine Ends.step (if_pos hx) (Ends.step (zeroSectors_eq _ start _ hle) ?_)
        exact .ok (.done hgot hs₁)

section Create

variable {s : FileSys} {refs : InodePtr → ℤ} {x start : ℕ} {length : ℤ}

/-- The new inode and its data can be read. -/
theorem initInode_spec (hx : x ∉ Set.Ico start (start + bytesToSectors length))
    (hstart : start < 2 ^ 32) (hlo : 0 ≤ length) (hhi : length < 2 ^ 31) :
    (s.initInode x start length).inodeAt x = ⟨start, length, inodeMagic⟩ ∧
      (∀ o : ℕ, (o : ℤ) < length → (s.initInode x start length).disk (512 * start + o) = 0) ∧
      DiskSame (insert x (Set.Ico start (start + bytesToSectors length))) s.disk
        (s.initInode x start length).disk := by
  rw [Set.mem_Ico] at hx
  refine ⟨?_, fun o ho => ?_, ?_⟩
  · have hneg : -2 ^ 31 ≤ length := by omega
    have hmagic : inodeMagic < 2 ^ 32 := by decide
    refine InodeDisk.read_of_write hstart hneg hhi hmagic fun o ho => ?_
    -- the data does not overwrite the inode
    unfold FileSys.initInode
    dsimp only
    rw [memcpy_outside (by omega), memcpy_inside (by omega) (by omega)]
    congr 1
    omega
  · have hlt := lt_bytesToSectors ho hhi
    unfold FileSys.initInode
    dsimp only
    rw [memcpy_inside (by omega) (by omega)]
  · have hinode : ∀ i < 512, (512 * x + i) / 512 ∈
        insert x (Set.Ico start (start + bytesToSectors length)) := fun i hi => .inl (by omega)
    have hdata : ∀ i < 512 * bytesToSectors length, (512 * start + i) / 512 ∈
        insert x (Set.Ico start (start + bytesToSectors length)) :=
      fun i hi => .inr ⟨by omega, by omega⟩
    unfold FileSys.initInode
    dsimp only
    exact (DiskSame.memcpy hinode).trans (DiskSame.memcpy hdata)

/-- **`inode_create`** in a reserved sector. -/
theorem Intact.of_creates (h : Intact s refs) (hx : s.Reserved {x}) (hlo : 0 ≤ length)
    (hhi : length < 2 ^ 31) {r : Bool × FileSys} (hc : Creates s x length
      (Allocates { s with mallocs := (malloc s.mallocs).2 } (bytesToSectors length)) r) :
    Intact r.2 refs ∧ SameLayout s r.2 ∧ SameFiles s r.2 ∧
      (r.1 = false → r.2.Reserved {x} ∧ r.2.freeMap = s.freeMap) ∧
      (r.1 = true → ∃ start, r.2.Reserved (r.2.extent x) ∧ r.2.inodeAt x = ⟨start, length, inodeMagic⟩ ∧
        start + bytesToSectors length ≤ s.dev.size ∧ x ∉ (r.2.inodeAt x).sectors ∧
        (∀ o : ℕ, (o : ℤ) < length → r.2.disk (512 * start + o) = 0) ∧
        s.freeMap.IsRun false (bytesToSectors length) start ∧
        s.freeMap.Sets true start (bytesToSectors length) r.2.freeMap) := by
  have h₀ := h.withMallocs (malloc s.mallocs).2
  have hx₀ : ({ s with mallocs := (malloc s.mallocs).2 } : FileSys).Reserved {x} := hx
  cases hc with
  | noMemory hm =>
    exact ⟨h₀, .withMallocs s _, fun _ _ _ => ⟨rfl, fun _ _ => rfl⟩,
      fun _ => ⟨hx₀, rfl⟩, fun hok => nomatch hok⟩
  | @noSpace s₁ hm ha =>
    obtain ⟨hsound, hlayout, -, hsame, hres, -⟩ := h₀.of_allocates ha
    have hmap : s₁.freeMap = s.freeMap := by cases ha <;> rfl
    exact ⟨hsound, (SameLayout.withMallocs s _).trans hlayout, h₀.sameFiles_of_map hsame, fun _ => ⟨hres _ hx₀, hmap⟩,
      fun hok => nomatch hok⟩
  | @done start s₁ hm ha =>
    obtain ⟨hsound, hlayout, -, hsame, hres, hnew⟩ := h₀.of_allocates ha
    obtain ⟨hrange, hdis⟩ := hnew start rfl
    obtain ⟨hrun, hsets⟩ : s.freeMap.IsRun false (bytesToSectors length) start ∧
        s.freeMap.Sets true start (bytesToSectors length) s₁.freeMap := by
      cases ha with
      | done hrun hsets hok => exact ⟨hrun.2.1, hsets⟩
    have hle : start + bytesToSectors length ≤ s.dev.size := h.mounted.bitCnt ▸ hrun.1
    have hdev : s₁.dev = s.dev := hlayout.dev
    have hapart : x ∉ Set.Ico start (start + bytesToSectors length) :=
      Set.disjoint_left.mp (hdis {x} hx₀) rfl
    have hstart : start < 2 ^ 32 := by
      have hlt := s.dev.lt
      omega
    obtain ⟨hread, hzero, hdisk⟩ := initInode_spec (s := s₁) hapart hstart hlo hhi
    -- the inode and its data are written to reserved sectors
    have hall : s₁.Reserved (insert x (Set.Ico start (start + bytesToSectors length))) := by
      rintro y (rfl | hy)
      · exact hres _ hx₀ y rfl
      · exact hrange y hy
    obtain ⟨hsound', hlayout', -⟩ := hsound.redisk s₁.freeMap s₁.mallocs hdisk
      (fun z hz hmem => (hall z hmem).2.2 z hz (mem_extent_self s₁ z))
      (fun y hy hmem => (hall y hmem).2.2 _ (mem_live_root s₁) (mem_extent_of_sectors hy))
      hsound.mounted.bitCnt (fun z hz y hy => (hsound.layout.used z hz y hy).2)
    have hextent : (s₁.initInode x start length).extent x
        = insert x (Set.Ico start (start + bytesToSectors length)) := by
      unfold FileSys.extent InodeDisk.sectors
      rw [hread]
    refine ⟨hsound', ((SameLayout.withMallocs s _).trans hlayout).trans hlayout', ?_, fun hok => (nomatch hok), fun _ => ?_⟩
    · exact (h₀.sameFiles_of_map hsame).trans (.of_reserved hall hdisk) hlayout.live.superset
    · refine ⟨start, ?_, hread, hle, ?_, hzero, hrun, hsets⟩
      · rw [hextent]
        exact hall.same hlayout' fun y hy => (hall y hy).2.1
      · rw [hread]
        exact hapart

end Create

/-! ### The entries of the root directory -/

section Slots

variable {s : FileSys} {refs : InodePtr → ℤ} {x w : ℕ} {e : Buffer}

/-- The disk with slot `w` of the root directory written. -/
def FileSys.putSlot (s : FileSys) (w : ℕ) (e : Buffer) (ms : List Bool) : FileSys :=
  { s with disk := memcpy s.disk (512 * s.root.start + 20 * w) e 0 20, mallocs := ms }

theorem Intact.slotCnt (h : Intact s refs) : s.root.slotCnt = 16 := by
  unfold InodeDisk.slotCnt
  rw [h.root]
  rfl

/-- A slot is written: the inodes stay, and the other slots. -/
theorem Intact.putSlot_spec (h : Intact s refs) (hw : w < 16) (e : Buffer) (ms : List Bool) :
    DiskSame s.root.sectors s.disk (s.putSlot w e ms).disk ∧ (s.putSlot w e ms).root = s.root ∧
      ∀ i, ∀ o < 20, (s.putSlot w e ms).slot i o = if i = w then e o else s.slot i o := by
  have hsame : DiskSame s.root.sectors s.disk (s.putSlot w e ms).disk := by
    refine DiskSame.memcpy fun i hi => ?_
    rw [show (512 * s.root.start + 20 * w + i) / 512 = s.root.start + (20 * w + i) / 512 by omega]
    refine InodeDisk.mem_sectors ?_ (inodeAt_length_lt s rootDirSector)
    rw [h.root]
    omega
  have hroot : (s.putSlot w e ms).root = s.root :=
    hsame.inodeAt (h.layout.apart _ (mem_live_root s))
  refine ⟨hsame, hroot, fun i o ho => ?_⟩
  unfold FileSys.slot
  rw [hroot]
  exact memcpy_slot ho

/-- **Another entry**: the invariant holds if no inode is named twice and the inodes that are live
now own what they own alone. -/
theorem Intact.withSlot (h : Intact s refs) (hw : w < 16) {ms : List Bool} {s' : FileSys}
    (hs' : s' = s.putSlot w e ms) (honce : ∀ i < 16, i ≠ w → entryInUse e = true →
      entryInUse (s.slot i) = true → entrySector (s.slot i) ≠ entrySector e)
    (hspecial : entryInUse e = true → entrySector e ≠ freeMapSector ∧ entrySector e ≠ rootDirSector)
    (hremoved : entryInUse e = true → ∀ p ∈ s.openInodes, (s.inodes p).removed = true →
      (s.inodes p).sector ≠ entrySector e)
    (hlayout : Layout s s'.live) : Intact s' refs := by
  subst hs'
  obtain ⟨hsame, hroot, hslot⟩ := h.putSlot_spec hw e ms
  have hself : entryInUse ((s.putSlot w e ms).slot w) = entryInUse e ∧
      entrySector ((s.putSlot w e ms).slot w) = entrySector e := by
    have hcongr := @entry_congr ((s.putSlot w e ms).slot w) e fun o ho => by
      rw [hslot w o ho, if_pos rfl]
    exact ⟨hcongr.1, hcongr.2.2⟩
  have hother : ∀ i, i ≠ w → entryInUse ((s.putSlot w e ms).slot i) = entryInUse (s.slot i) ∧
      entrySector ((s.putSlot w e ms).slot i) = entrySector (s.slot i) := by
    intro i hi
    have hcongr := @entry_congr ((s.putSlot w e ms).slot i) (s.slot i) fun o ho => by
      rw [hslot i o ho, if_neg hi]
    exact ⟨hcongr.1, hcongr.2.2⟩
  have hnamed : ∀ y ∈ (s.putSlot w e ms).named, (entryInUse e = true ∧ y = entrySector e) ∨
      y ∈ s.named := by
    rintro y ⟨i, hi, hui, rfl⟩
    by_cases hiw : i = w
    · subst hiw
      exact .inl ⟨hself.1 ▸ hui, hself.2⟩
    · exact .inr ⟨i, hi, (hother i hiw).1 ▸ hui, (hother i hiw).2.symm⟩
  have hinode : ∀ y ∈ (s.putSlot w e ms).live, (s.putSlot w e ms).inodeAt y = s.inodeAt y :=
    fun y hy => hsame.inodeAt (hlayout.not_mem_sectors hy (mem_live_root _))
  refine ⟨h.mounted.withDisk _ _, h.map, ?_, ?_, fun i hi j hj hui huj hij => ?_, fun y hy => ?_,
    fun p hp hr => ⟨fun hmem => ?_, (h.removed p hp hr).2⟩, ?_⟩
  · rw [hroot]
    exact h.root
  · exact ⟨h.table.nodup, h.table.fresh, h.table.held, h.table.free, h.table.openCnt,
      h.table.allowed, fun p hp => (h.table.data p hp).trans (hinode _ (mem_live_open hp)).symm,
      h.table.shared⟩
  · by_cases hiw : i = w
    · by_cases hjw : j = w
      · rw [hiw, hjw]
      · subst hiw
        rw [hself.2, (hother j hjw).2] at hij
        exact absurd hij.symm (honce j hj hjw (hself.1 ▸ hui) ((hother j hjw).1 ▸ huj))
    · rw [(hother i hiw).1] at hui
      rw [(hother i hiw).2] at hij
      by_cases hjw : j = w
      · subst hjw
        rw [hself.2] at hij
        exact absurd hij (honce i hi hiw (hself.1 ▸ huj) hui)
      · rw [(hother j hjw).1] at huj
        rw [(hother j hjw).2] at hij
        exact h.once i hi j hj hui huj hij
  · rcases hnamed y hy with ⟨hue, rfl⟩ | hy
    · exact hspecial hue
    · exact h.special y hy
  · rcases hnamed _ hmem with ⟨hue, hsector⟩ | hmem
    · exact hremoved hue p hp hr hsector
    · exact (h.removed p hp hr).1 hmem
  · exact hlayout.congr rfl hinode fun y hy z hz => (hlayout.used y hy z hz).2

/-- **An entry for a reserved inode** makes it live. -/
theorem Intact.addSlot (h : Intact s refs) (hw : w < 16) (ms : List Bool)
    (hres : s.Reserved (s.extent x)) (hnonneg : 0 ≤ (s.inodeAt x).length)
    (hfits : (s.inodeAt x).start + bytesToSectors (s.inodeAt x).length ≤ s.dev.size)
    (hapart : x ∉ (s.inodeAt x).sectors) (hsector : entrySector e = x) :
    Intact (s.putSlot w e ms) refs := by
  have hdead : x ∉ s.live := fun hmem =>
    (hres x (mem_extent_self s x)).2.2 x hmem (mem_extent_self s x)
  have hlayout : Layout s (insert x s.live) :=
    h.layout.insert hnonneg hfits hapart (fun y hy => ⟨(hres y hy).1, (hres y hy).2.1⟩)
      fun z hz => Set.disjoint_left.mpr fun y hy => (hres y hy).2.2 z hz
  refine h.withSlot hw rfl (fun i hi _ _ hui hsec => ?_) (fun _ => ?_) (fun _ p hp _ hpx => ?_)
    (hlayout.mono ?_)
  · exact hdead (mem_live_named ⟨i, hi, hui, hsec.trans hsector⟩)
  · rw [hsector]
    exact ⟨fun hx => hdead (hx ▸ mem_live_map s), fun hx => hdead (hx ▸ mem_live_root s)⟩
  · exact hdead ((hpx.trans hsector) ▸ mem_live_open hp)
  · obtain ⟨-, -, hslot⟩ := h.putSlot_spec hw e ms
    rintro y (rfl | rfl | ⟨i, hi, hui, rfl⟩ | hy)
    · exact .inr (mem_live_map s)
    · exact .inr (mem_live_root s)
    · by_cases hiw : i = w
      · have hcongr := @entry_congr _ e fun o ho => (hslot i o ho).trans (if_pos hiw)
        rw [hcongr.2.2]
        exact .inl hsector
      · have hcongr := @entry_congr _ (s.slot i) fun o ho => (hslot i o ho).trans (if_neg hiw)
        rw [hcongr.1] at hui
        exact .inr (mem_live_named ⟨i, hi, hui, hcongr.2.2.symm⟩)
    · exact .inr (.inr (.inr (.inr hy)))

/-- **An entry is freed.** -/
theorem Intact.freeSlot (h : Intact s refs) (hw : w < 16) (ms : List Bool)
    (hfree : entryInUse e = false) : Intact (s.putSlot w e ms) refs ∧
      (s.putSlot w e ms).live ⊆ s.live ∧ (entryInUse (s.slot w) = true → entrySector (s.slot w) ∉ (s.putSlot w e ms).named) := by
  obtain ⟨-, -, hslot⟩ := h.putSlot_spec hw e ms
  have hused : ∀ i, entryInUse ((s.putSlot w e ms).slot i) = true →
      i ≠ w ∧ entryInUse (s.slot i) = true ∧
      entrySector ((s.putSlot w e ms).slot i) = entrySector (s.slot i) := by
    intro i hui
    by_cases hiw : i = w
    · have hcongr := @entry_congr _ e fun o ho => (hslot i o ho).trans (if_pos hiw)
      rw [hcongr.1, hfree] at hui
      exact absurd hui Bool.false_ne_true
    · have hcongr := @entry_congr _ (s.slot i) fun o ho => (hslot i o ho).trans (if_neg hiw)
      exact ⟨hiw, hcongr.1 ▸ hui, hcongr.2.2⟩
  have hnot : entryInUse e ≠ true := by
    rw [hfree]
    exact Bool.false_ne_true
  have hsub : (s.putSlot w e ms).live ⊆ s.live := by
    rintro y (rfl | rfl | ⟨i, hi, hui, rfl⟩ | hy)
    · exact mem_live_map s
    · exact mem_live_root s
    · obtain ⟨-, hui', hsec⟩ := hused i hui
      exact mem_live_named ⟨i, hi, hui', hsec.symm⟩
    · exact .inr (.inr (.inr hy))
  refine ⟨h.withSlot hw rfl (fun _ _ _ hue => absurd hue hnot) (fun hue => absurd hue hnot)
    (fun hue => absurd hue hnot) (h.layout.mono hsub), hsub, ?_⟩
  · rintro huw ⟨i, hi, hui, hsec⟩
    obtain ⟨hiw, hui', hsec'⟩ := hused i hui
    exact hiw (h.once i hi w hw hui' huw (hsec'.symm.trans hsec))

/-- Files other than the root directory do not notice. -/
theorem Intact.putSlot_sameFile (h : Intact s refs) (hw : w < 16) (ms : List Bool) {y : ℕ}
    (hy : y ∈ s.live) (hne : y ≠ rootDirSector) : SameFile s (s.putSlot w e ms) y := by
  obtain ⟨hsame, -, -⟩ := h.putSlot_spec hw e ms
  refine .of_diskSame hsame fun z hz hmem => ?_
  exact Set.disjoint_left.mp (h.layout.disjoint hy (mem_live_root s) hne) hz
    (mem_extent_of_sectors hmem)

/-- An entry that is not added changes nothing: the slots fill the root directory. -/
theorem Adds.eq_of_false (h : Intact s refs) {name : CString} {s' : FileSys}
    (ha : Adds s s.root name x (false, s')) : ∃ ms, s' = { s with mallocs := ms } ∧
      (s.mallocs = [] → ms = []) := by
  cases ha with
  | invalid _ => exact ⟨s.mallocs, rfl, id⟩
  | present _ => exact ⟨_, rfl, fun hnil => lookupReach_nil hnil name⟩
  | failed f hf hslot hm =>
    refine ⟨_, rfl, fun hnil => ?_⟩
    rw [hf, freeReach_nil hnil]
    rfl
  | past e f k ms hf hend hk hms =>
    have hk₀ : k = 0 := by
      rw [h.root] at hk
      exact Nat.le_zero.mp hk
    subst hk₀
    rw [memcpy_zero]
    exact ⟨ms, rfl, fun hnil => hms (by rw [hf, freeReach_nil hnil])⟩

end Slots

end Pintos
