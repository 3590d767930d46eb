import Pintos.FileSys.Entries

/-!
# A directory when memory runs out

`dir_add` looks for the name and then for a free slot, and both loops take a slot that cannot be
read for the end of the directory. So it can add a name twice, or write over an entry, if memory
runs out in one of the loops and is there again for the write (`Spoils`). Otherwise the entries of
the directory stay in order, and with `dir_remove` they always do.

* `OpenDir` — a directory that is open in a mounted file system;
* `inodeClose_yields` — closing an inode writes to nothing but the file of the free map;
* `dir_integrity` — `dir_add` and `dir_remove` on a directory.
-/

namespace Pintos

open Total Function

/-! ### Opening and closing another inode -/

/-- A change to the table of inodes that a holder of an inode does not notice. -/
structure Bystander (s s' : FileSys) : Prop where
  dev : s'.dev = s.dev
  disk : s'.disk = s.disk
  freeMap : s'.freeMap = s.freeMap
  freeMapFile : s'.freeMapFile = s.freeMapFile
  nextInode : s.nextInode ≤ s'.nextInode
  data : ∀ p < s.nextInode, (s'.inodes p).data = (s.inodes p).data
  deny : ∀ p < s.nextInode, (s'.inodes p).denyWriteCnt = (s.inodes p).denyWriteCnt

section Bystander

variable {s s' s'' : FileSys}

theorem Bystander.trans (h : Bystander s s') (h' : Bystander s' s'') : Bystander s s'' where
  dev := h'.dev.trans h.dev
  disk := h'.disk.trans h.disk
  freeMap := h'.freeMap.trans h.freeMap
  freeMapFile := h'.freeMapFile.trans h.freeMapFile
  nextInode := h.nextInode.trans h'.nextInode
  data p hp := (h'.data p (hp.trans_le h.nextInode)).trans (h.data p hp)
  deny p hp := (h'.deny p (hp.trans_le h.nextInode)).trans (h.deny p hp)

/-- An inode of which something else changes. -/
theorem Bystander.of_update {p : InodePtr} {i : Inode} (hdata : i.data = (s.inodes p).data)
    (hdeny : i.denyWriteCnt = (s.inodes p).denyWriteCnt) :
    Bystander s { s with inodes := update s.inodes p i } := by
  refine ⟨rfl, rfl, rfl, rfl, le_rfl, fun q _ => ?_, fun q _ => ?_⟩
  · by_cases hq : q = p
    · subst hq
      exact (congrArg Inode.data (update_self ..)).trans hdata
    · exact congrArg Inode.data (update_of_ne hq ..)
  · by_cases hq : q = p
    · subst hq
      exact (congrArg Inode.denyWriteCnt (update_self ..)).trans hdeny
    · exact congrArg Inode.denyWriteCnt (update_of_ne hq ..)

/-- The table of open inodes and the allocations to come do not matter. -/
theorem Bystander.withOpen (os : List InodePtr) (ms : List Bool) :
    Bystander s { s with openInodes := os, mallocs := ms } :=
  ⟨rfl, rfl, rfl, rfl, le_rfl, fun _ _ => rfl, fun _ _ => rfl⟩

theorem Bystander.inodeRemove (s : FileSys) (p : InodePtr) : Bystander s (inodeRemove s p) :=
  .of_update rfl rfl

theorem inodeOpen_yields (s : FileSys) (x : ℕ) :
    Yields (inodeOpen s x) fun r => Bystander s r.2 := by
  unfold inodeOpen
  split
  · exact .ok (.of_update rfl rfl)
  · dsimp only
    split
    · refine Yields.bind (P := fun _ => True) (fun _ _ => trivial) fun data _ => .ok ?_
      refine ⟨rfl, rfl, rfl, rfl, Nat.le_succ _, fun q hq => ?_, fun q hq => ?_⟩
      · exact congrArg Inode.data (update_of_ne (Nat.ne_of_lt hq) ..)
      · exact congrArg Inode.denyWriteCnt (update_of_ne (Nat.ne_of_lt hq) ..)
    · exact .ok (.withOpen s.openInodes _)

/-- A file system whose free map a bystander has left alone is still mounted. -/
theorem Bystander.mounted (h : Bystander s s') (hm : Mounted s)
    (hmap : ∀ file, s.freeMapFile = some file → file.inode < s.nextInode) :
    Mounted s' ∧ s'.mapData = s.mapData := by
  obtain ⟨file, hfile, hdeny⟩ := hm.file
  have hlt := hmap file hfile
  have hfile' : s'.freeMapFile = some file := h.freeMapFile.trans hfile
  have hdata : s'.mapData = s.mapData := by
    unfold FileSys.mapData
    rw [hfile', hfile]
    exact h.data _ hlt
  have hsize : s'.mapSize = s.mapSize := by
    unfold FileSys.mapSize
    rw [h.dev]
  refine ⟨⟨?_, ?_, ⟨file, hfile', ?_⟩, ?_, ?_⟩, hdata⟩
  · rw [h.freeMap, h.dev]
    exact hm.bitCnt
  · rw [h.dev]
    exact hm.fits
  · rw [h.deny _ hlt]
    exact hdeny
  · rw [hsize, hdata]
    exact hm.length
  · rw [hsize, hdata, h.dev]
    exact hm.onDevice

/-- What is on the disk does not matter for that. -/
theorem Mounted.withDisk (hm : Mounted s) (disk : Buffer) (ms : List Bool) :
    Mounted { s with disk := disk, mallocs := ms } :=
  ⟨hm.bitCnt, hm.fits, hm.file, hm.length, hm.onDevice⟩

end Bystander

/-- **Closing an inode** writes to nothing but the file of the free map. -/
theorem inodeClose_yields {s : FileSys} (hm : Mounted s)
    (hmap : ∀ file, s.freeMapFile = some file → file.inode < s.nextInode) (p : InodePtr) :
    Yields (inodeClose s (some p)) fun s' => ∀ a, (a < 512 * s.mapData.start ∨
      512 * s.mapData.start + s.mapSize ≤ a) → s'.disk a = s.disk a := by
  have hclosed : ∀ (n : ℤ) (os : List InodePtr), Bystander s { s with
      inodes := update s.inodes p { s.inodes p with openCnt := n }, openInodes := os } :=
    fun n os => (Bystander.of_update (p := p) (i := { s.inodes p with openCnt := n }) rfl rfl).trans
      (.withOpen os _)
  unfold inodeClose
  dsimp only
  split
  · split
    · -- both releases store the map
      obtain ⟨hm₁, hdata₁⟩ := (hclosed ((s.inodes p).openCnt - 1) (s.openInodes.erase p)).mounted hm hmap
      refine (freeMapRelease_yields hm₁ _ _).bind fun s₂ hs₂ => ?_
      obtain ⟨map₂, hsets₂, rfl⟩ := hs₂
      have hm₂ := hm₁.store (hsets₂.1.trans hm₁.bitCnt)
      refine (freeMapRelease_yields hm₂ _ _).mono fun s₃ hs₃ a ha => ?_
      obtain ⟨map₃, -, rfl⟩ := hs₃
      rw [store_disk (by rw [store_mapData, hdata₁]; exact ha), store_disk (by rw [hdata₁]; exact ha)]
    · exact .ok fun a _ => rfl
  · exact .ok fun a _ => rfl

/-! ### A directory -/

/-- An open directory in a mounted file system: its entries are on the device, apart from the file
of the free map. -/
structure OpenDir (s : FileSys) (dir : Dir) (data : InodeDisk) : Prop where
  mounted : Mounted s
  mapInode : ∀ file, s.freeMapFile = some file → file.inode < s.nextInode
  inode : dir.inode < s.nextInode
  holds : (s.inodes dir.inode).data = data
  allowed : (s.inodes dir.inode).denyWriteCnt = 0
  onDevice : data.OnDevice s.dev data.length.toNat
  apart : ∀ o < data.length.toNat, 512 * data.start + o < 512 * s.mapData.start ∨
    512 * s.mapData.start + s.mapSize ≤ 512 * data.start + o

/-- The entries in use have distinct names. -/
def FileSys.DistinctNames (s : FileSys) (data : InodeDisk) : Prop :=
  ∀ i < data.slotCnt, ∀ j < data.slotCnt, entryInUse (s.slotOf data i) = true →
    entryInUse (s.slotOf data j) = true →
    entryName (s.slotOf data i) = entryName (s.slotOf data j) → i = j

/-- Slot `i` has not changed. -/
def SameSlot (s s' : FileSys) (data : InodeDisk) (i : ℕ) : Prop :=
  ∀ o < 20, s'.slotOf data i o = s.slotOf data i o

/-- What `dir_add` should do: a free slot gets the entry, or nothing changes. -/
structure AddsOne (s s' : FileSys) (data : InodeDisk) (name : CString) (x : ℕ) (ok : Bool) : Prop where
  distinct : s'.DistinctNames data
  added : ok = true → ∃ w < data.slotCnt, entryInUse (s.slotOf data w) = false ∧
    entryInUse (s'.slotOf data w) = true ∧ entryName (s'.slotOf data w) = name.chars ∧
    entrySector (s'.slotOf data w) = x ∧ ∀ i < data.slotCnt, i ≠ w → SameSlot s s' data i
  same : ok = false → ∀ i < data.slotCnt, SameSlot s s' data i

/-- What `dir_remove` should do: the slot with the name is freed, or nothing changes. -/
structure RemovesOne (s s' : FileSys) (data : InodeDisk) (name : CString) (ok : Bool) : Prop where
  distinct : s'.DistinctNames data
  removed : ok = true → ∃ w < data.slotCnt, entryInUse (s.slotOf data w) = true ∧
    entryName (s.slotOf data w) = name.chars ∧ entryInUse (s'.slotOf data w) = false ∧
    ∀ i < data.slotCnt, i ≠ w → SameSlot s s' data i
  same : ok = false → ∀ i < data.slotCnt, SameSlot s s' data i

/-- Memory runs out in `dir_add` where it does harm: `lookup` does not get to the entry with the
name, or the search for a free slot ends at an entry in use, and the write goes through. -/
def Spoils (s : FileSys) (data : InodeDisk) (name : CString) : Prop :=
  let l := s.lookupReach data name
  let f := s.freeReach data l.mallocs
  (name.chars ≠ [] ∧ name.chars.length ≤ nameMax) ∧ l.found = false ∧ f.slot < data.slotCnt ∧
    (malloc f.mallocs).1 = true ∧ (entryInUse (s.slotOf data f.slot) = true ∨
      ∃ j < data.slotCnt, entryInUse (s.slotOf data j) = true ∧
        entryName (s.slotOf data j) = name.chars)

section Slots

variable {s s' : FileSys} {data : InodeDisk}

/-- Entries with the same bytes have the same names. -/
theorem FileSys.DistinctNames.of_same (h : s.DistinctNames data)
    (hsame : ∀ i < data.slotCnt, SameSlot s s' data i) : s'.DistinctNames data := by
  intro i hi j hj hui huj hname
  obtain ⟨hui', hni', -⟩ := entry_congr (hsame i hi)
  obtain ⟨huj', hnj', -⟩ := entry_congr (hsame j hj)
  exact h i hi j hj (hui' ▸ hui) (huj' ▸ huj) (by rw [← hni', ← hnj']; exact hname)

/-- A slot is written, and the others stay. -/
theorem memcpy_slot {w i o : ℕ} {e : Buffer} (ho : o < 20) :
    memcpy s.disk (512 * data.start + 20 * w) e 0 20 (512 * data.start + (20 * i + o))
      = if i = w then e o else s.slotOf data i o := by
  split
  · next hiw =>
    rw [memcpy_inside (by omega) (by omega)]
    congr 1
    omega
  · next hiw => exact memcpy_outside (by omega)

end Slots

/-- **`dir_add`** does what it should, unless memory runs out where it does harm. -/
theorem Adds.addsOne_iff {s : FileSys} {data : InodeDisk} {name : CString} {x : ℕ} {r : Bool × FileSys}
    (hd : s.DistinctNames data) (hx : x < 2 ^ 32) (h : Adds s data name x r) :
    AddsOne s r.2 data name x r.1 ↔ ¬ Spoils s data name := by
  have hkeep : ∀ (s' : FileSys), (∀ i < data.slotCnt, SameSlot s s' data i) →
      AddsOne s s' data name x false := fun s' hsame =>
    ⟨hd.of_same hsame, fun hok => absurd hok (by simp), fun _ => hsame⟩
  cases h with
  | invalid hinvalid =>
    refine iff_of_true (hkeep s fun i _ o _ => rfl) fun ⟨⟨hne, hle⟩, _⟩ => ?_
    rcases hinvalid with hnil | hlong
    · exact hne hnil
    · omega
  | present hfound =>
    refine iff_of_true (hkeep _ fun i _ o _ => rfl) fun ⟨_, hnot, _⟩ => ?_
    rw [hfound] at hnot
    cases hnot
  | failed f hf hslot hm =>
    subst hf
    refine iff_of_true (hkeep _ fun i _ o _ => rfl) fun ⟨_, _, _, hok, _⟩ => ?_
    rw [hm] at hok
    cases hok
  | past e f k ms hf hend hk _ =>
    subst hf
    refine iff_of_true (hkeep _ fun i hi o ho => ?_) fun ⟨_, _, hlt, _⟩ => absurd hend hlt.ne
    -- what is written lies after the last slot
    exact memcpy_outside (by omega)
  | written e f hf hne hlen hnot hslot hm =>
    subst hf
    obtain ⟨w, hw⟩ : ∃ w, w = (s.freeReach data (s.lookupReach data name).mallocs).slot := ⟨_, rfl⟩
    rw [← hw] at hslot ⊢
    obtain ⟨s', hs'⟩ : ∃ s' : FileSys, s' = { s with
      disk := memcpy s.disk (512 * data.start + 20 * w) (setEntry e name x) 0 20
      mallocs := (malloc (s.freeReach data (s.lookupReach data name).mallocs).mallocs).2 } := ⟨_, rfl⟩
    rw [← hs']
    have hnew : ∀ o < 20, s'.slotOf data w o = setEntry e name x o := by
      intro o ho
      rw [hs']
      exact (memcpy_slot ho).trans (if_pos rfl)
    have hold : ∀ i, i ≠ w → SameSlot s s' data i := by
      intro i hi o ho
      rw [hs']
      exact (memcpy_slot ho).trans (if_neg hi)
    obtain ⟨huse, hname, hsector⟩ := entry_congr hnew
    rw [entryInUse_setEntry hlen] at huse
    rw [entryName_setEntry hlen] at hname
    rw [entrySector_setEntry name hx] at hsector
    constructor
    · rintro hone ⟨-, -, -, -, husew | ⟨j, hj, husej, hnamej⟩⟩
      · -- the slot was in use, so no free slot has got the entry
        obtain ⟨w', -, hfree, huse', -⟩ := hone.added rfl
        rw [← hw] at husew
        have hne' : w' ≠ w := by
          rintro rfl
          rw [hfree] at husew
          cases husew
        rw [(entry_congr (hold w' hne')).1, hfree] at huse'
        cases huse'
      · by_cases hjw : j = w
        · subst hjw
          obtain ⟨w', -, hfree, huse', -⟩ := hone.added rfl
          have hne' : w' ≠ j := by
            rintro rfl
            rw [hfree] at husej
            cases husej
          rw [(entry_congr (hold w' hne')).1, hfree] at huse'
          cases huse'
        · -- two entries with the name
          obtain ⟨husej', hnamej', -⟩ := entry_congr (hold j hjw)
          exact hjw (hone.distinct j hj w hslot (husej'.trans husej) huse
            (hnamej'.trans (hnamej.trans hname.symm)))
    · intro hspoils
      have hfree : entryInUse (s.slotOf data w) = false := by
        refine Bool.eq_false_iff.mpr fun husew => hspoils ?_
        exact ⟨⟨hne, hlen⟩, hnot, hw ▸ hslot, hm, .inl (hw ▸ husew)⟩
      have hfresh : ∀ j < data.slotCnt, entryInUse (s.slotOf data j) = true →
          entryName (s.slotOf data j) ≠ name.chars := fun j hj husej hnamej =>
        hspoils ⟨⟨hne, hlen⟩, hnot, hw ▸ hslot, hm, .inr ⟨j, hj, husej, hnamej⟩⟩
      refine ⟨fun i hi j hj hui huj hij => ?_, fun _ => ⟨w, hslot, hfree, huse, hname, hsector,
        fun i _ hi => hold i hi⟩, fun hok => absurd hok (by simp)⟩
      by_cases hiw : i = w
      · by_cases hjw : j = w
        · rw [hiw, hjw]
        · subst hiw
          obtain ⟨husej', hnamej', -⟩ := entry_congr (hold j hjw)
          exact absurd (hnamej'.symm.trans (hij.symm.trans hname)) (hfresh j hj (husej' ▸ huj))
      · obtain ⟨husei', hnamei', -⟩ := entry_congr (hold i hiw)
        by_cases hjw : j = w
        · subst hjw
          exact absurd (hnamei'.symm.trans (hij.trans hname)) (hfresh i hi (husei' ▸ hui))
        · obtain ⟨husej', hnamej', -⟩ := entry_congr (hold j hjw)
          exact hd i hi j hj (husei' ▸ hui) (husej' ▸ huj) (by rw [← hnamei', ← hnamej']; exact hij)

/-- **`dir_remove`** does what it should, whatever memory there is. -/
theorem dirRemove_yields {s : FileSys} {dir : Dir} {data : InodeDisk} (h : OpenDir s dir data)
    (hd : s.DistinctNames data) (name : CString) :
    Yields (dirRemove s dir name) fun r => RemovesOne s r.2 data name r.1 := by
  have hkeep : ∀ (s' : FileSys), (∀ i < data.slotCnt, SameSlot s s' data i) →
      RemovesOne s s' data name false := fun s' hsame =>
    ⟨hd.of_same hsame, fun hok => absurd hok (by simp), fun _ => hsame⟩
  obtain ⟨e, he, hlookup⟩ := lookup_eq h.holds h.onDevice name
  refine Yields.step hlookup ?_
  by_cases hfound : (s.lookupReach data name).found = true
  swap
  · rw [if_neg hfound]
    exact .ok (hkeep _ fun i _ o _ => rfl)
  rw [if_pos hfound]
  obtain ⟨hw, huse, hname⟩ := lookupReach_found hfound
  have he := he hfound
  generalize (s.lookupReach data name).slot = w at *
  refine (inodeOpen_yields _ _).bind fun ⟨p, s₁⟩ hb' => ?_
  have hb : Bystander s s₁ := (Bystander.withOpen s.openInodes _).trans hb'
  cases p with
  | none => exact .ok (hkeep _ fun i _ o _ => by unfold FileSys.slotOf; rw [hb.disk])
  | some p =>
    obtain ⟨hm₁, hdata₁⟩ := hb.mounted h.mounted h.mapInode
    have hmap₁ : ∀ file, s₁.freeMapFile = some file → file.inode < s₁.nextInode :=
      fun file hfile => (h.mapInode file (hb.freeMapFile ▸ hfile)).trans_le hb.nextInode
    have hpos := h.onDevice.nonneg
    have hlen := h.onDevice.lt
    have hclip : clip data 20 (20 * w) = 20 := by
      unfold InodeDisk.slotCnt at hw
      unfold clip
      omega
    have hwrite := @inodeWriteAt_eq s₁ dir.inode data (20 * w) _ ((hb.data _ h.inode).trans h.holds)
      ((hb.deny _ h.inode).trans h.allowed) (freeEntry e) 20 (by unfold InodeDisk.slotCnt at hw; omega)
      (hb.dev ▸ h.onDevice) add_clip_le
    rw [hclip, moved_slot.1, moved_slot.2, hb.disk] at hwrite
    -- what comes after the write leaves the entries alone
    have hclose : ∀ s₂ : FileSys, Mounted s₂ → s₂.mapData = s.mapData → s₂.mapSize = s.mapSize →
        (∀ file, s₂.freeMapFile = some file → file.inode < s₂.nextInode) →
        Yields (inodeClose s₂ (some p)) fun s₃ => ∀ i < data.slotCnt, SameSlot s₂ s₃ data i := by
      intro s₂ hm₂ hdata₂ hsize₂ hmap₂
      refine (inodeClose_yields hm₂ hmap₂ p).mono fun s₃ hdisk i hi o ho => hdisk _ ?_
      rw [hdata₂, hsize₂]
      exact h.apart (20 * i + o) (by unfold InodeDisk.slotCnt at hi; omega)
    have hsize : s₁.mapSize = s.mapSize := by
      unfold FileSys.mapSize
      rw [hb.dev]
    refine Yields.step hwrite ?_
    by_cases hm : (malloc s₁.mallocs).1 = true
    · -- the entry is freed
      rw [if_pos hm]
      have hm₂ := hm₁.withDisk (memcpy s.disk (512 * data.start + 20 * w) (freeEntry e) 0 20)
        (malloc s₁.mallocs).2
      obtain ⟨hm₃, hdata₃⟩ := (Bystander.inodeRemove _ p).mounted hm₂ hmap₁
      dsimp only
      rw [if_pos rfl]
      refine Yields.bind (hclose _ hm₃ (hdata₃.trans hdata₁) hsize hmap₁) fun s₄ hs₄ => .ok ?_
      have hslot : ∀ i < data.slotCnt, ∀ o < 20,
          s₄.slotOf data i o = if i = w then freeEntry e o else s.slotOf data i o :=
        fun i hi o ho => (hs₄ i hi o ho).trans (memcpy_slot ho)
      have hold : ∀ i < data.slotCnt, i ≠ w → SameSlot s s₄ data i := by
        intro i hi hiw o ho
        rw [hslot i hi o ho, if_neg hiw]
      have hfreed : entryInUse (s₄.slotOf data w) = false := by
        rw [(@entry_congr _ (freeEntry e) fun o ho => by rw [hslot w hw o ho, if_pos rfl]).1]
        exact entryInUse_freeEntry
      refine ⟨fun i hi j hj hui huj hij => ?_, fun _ => ⟨w, hw, huse, hname, hfreed, hold⟩,
        fun hok => absurd hok (by simp)⟩
      -- the entries in use are entries that were in use
      have hne : ∀ l, entryInUse (s₄.slotOf data l) = true → l ≠ w := by
        rintro l hl rfl
        rw [hfreed] at hl
        cases hl
      obtain ⟨hui', hni', -⟩ := entry_congr (hold i hi (hne i hui))
      obtain ⟨huj', hnj', -⟩ := entry_congr (hold j hj (hne j huj))
      exact hd i hi j hj (hui' ▸ hui) (huj' ▸ huj) (by rw [← hni', ← hnj']; exact hij)
    · rw [if_neg hm, memcpy_zero]
      have hm₂ := hm₁.withDisk s.disk (malloc s₁.mallocs).2
      dsimp only
      rw [if_neg (by decide)]
      exact Yields.bind (hclose _ hm₂ hdata₁ hsize hmap₁) fun s₃ hs₃ => .ok (hkeep _ hs₃)

/-- **Directory integrity.** `dir_add` returns, and it leaves the directory in order if and only if
memory does not run out where it does harm. `dir_remove` always leaves the directory in order. -/
theorem dir_integrity {s : FileSys} {dir : Dir} {data : InodeDisk} (h : OpenDir s dir data)
    (hd : s.DistinctNames data) (name : CString) {x : ℕ} (hx : x < 2 ^ 32) :
    Ends (dirAdd s dir name x) (fun r => AddsOne s r.2 data name x r.1 ↔ ¬ Spoils s data name) ∧
      Yields (dirRemove s dir name) fun r => RemovesOne s r.2 data name r.1 :=
  ⟨(dirAdd_ends h.holds h.onDevice h.allowed name x).mono fun _ hadds => hadds.addsOne_iff hd hx,
    dirRemove_yields h hd name⟩

/-! ### A directory with one entry -/

/-- A device of twelve sectors is formatted, a file `a` is created, and the directory is opened. -/
def smallDir : Except Panic (Dir × FileSys) := do
  let s ← filesysInit ⟨12, by decide⟩ (fun _ => 0) (fun _ => 0) [] true
  let (_, s) ← filesysCreate s ⟨[97], by decide⟩ 0
  let (dir, s) ← dirOpenRoot s
  match dir with
  | none => .error .nullPointer
  | some dir => .ok (dir, s)

/-- The inode of the root directory there. -/
def smallRoot : InodeDisk := ⟨3, 320, inodeMagic⟩

/-- What is found there. -/
def smallTest (r : Dir × FileSys) : Bool :=
  r.1.inode == 3 && r.2.dev.size == 12 && r.2.freeMap.bitCnt == 12 && r.2.nextInode == 4 &&
    r.2.freeMapFile == some ⟨1, 0, false⟩ && (r.2.inodes 1).denyWriteCnt == 0 &&
    (r.2.inodes 1).data == ⟨2, 4, inodeMagic⟩ && (r.2.inodes 3).denyWriteCnt == 0 &&
    (r.2.inodes 3).data == smallRoot &&
    (List.range 16).all fun i => entryInUse (r.2.slotOf smallRoot i) == (i == 0)

theorem openDir_of_test {dir : Dir} {s : FileSys} (h : smallTest (dir, s) = true) (ms : List Bool) :
    OpenDir { s with mallocs := ms } dir smallRoot ∧
      ({ s with mallocs := ms } : FileSys).DistinctNames smallRoot := by
  unfold smallTest at h
  simp only [Bool.and_eq_true, beq_iff_eq] at h
  obtain ⟨⟨⟨⟨⟨⟨⟨⟨⟨hinode, hdev⟩, hcnt⟩, hnext⟩, hfile⟩, hdeny⟩, hmap⟩, hdeny'⟩, hdata⟩, huse⟩ := h
  have hmapData : ({ s with mallocs := ms } : FileSys).mapData = ⟨2, 4, inodeMagic⟩ := by
    rw [hfile]
    exact hmap
  have hmapSize : ({ s with mallocs := ms } : FileSys).mapSize = 4 := by
    unfold FileSys.mapSize
    rw [hdev]
    rfl
  refine ⟨⟨⟨by rw [hcnt, hdev], by rw [hdev]; decide, ⟨_, hfile, hdeny⟩, ?_, ?_, ?_, fun o ho => ?_⟩,
    fun file hf => ?_, ?_, ?_, ?_, ⟨by decide, by decide, fun o ho => ?_⟩, fun o ho => ?_⟩, ?_⟩
  · rw [hmapData, hmapSize]
    decide
  · rw [hmapData]
    decide
  · rw [hmapData]
    decide
  · rw [hmapSize] at ho
    rw [hmapData, hdev]
    change 2 + o / 512 < 12
    omega
  · obtain rfl := Option.some.inj (hfile.symm.trans hf)
    rw [hnext]
    decide
  · rw [hnext, hinode]
    decide
  · rw [hinode]
    exact hdata
  · rw [hinode]
    exact hdeny'
  · change o < 320 at ho
    rw [hdev]
    change 3 + o / 512 < 12
    omega
  · rw [hmapData, hmapSize]
    change 512 * 3 + o < 512 * 2 ∨ 512 * 2 + 4 ≤ 512 * 3 + o
    omega
  · -- only the first slot is in use
    have hone : ∀ i < smallRoot.slotCnt, entryInUse (s.slotOf smallRoot i) = true → i = 0 := by
      intro i hi hui
      have hall := List.all_eq_true.mp huse i (List.mem_range.mpr hi)
      rw [beq_iff_eq, hui] at hall
      exact beq_iff_eq.mp hall.symm
    exact fun i hi j hj hui huj _ => (hone i hi hui).trans (hone j hj huj).symm

/-- A second file is added without trouble. -/
theorem dir_integrity_small : ∃ dir s, smallDir = .ok (dir, s) ∧
    Ends (dirAdd s dir ⟨[98], by decide⟩ 5) fun r =>
      AddsOne s r.2 smallRoot ⟨[98], by decide⟩ 5 r.1 := by
  obtain ⟨⟨dir, s⟩, hrun, hp⟩ := Ends.of_run (x := smallDir) (p := fun r => smallTest r &&
    !entryInUse (r.2.slotOf smallRoot (r.2.freeReach smallRoot
      (r.2.lookupReach smallRoot ⟨[98], by decide⟩).mallocs).slot) &&
    (List.range 16).all fun j => entryName (r.2.slotOf smallRoot j) != [98]) (by decide +kernel)
  rw [Bool.and_eq_true, Bool.and_eq_true, Bool.not_eq_true'] at hp
  obtain ⟨⟨htest, hfree⟩, hnames⟩ := hp
  obtain ⟨hopen, hdistinct⟩ := openDir_of_test htest s.mallocs
  refine ⟨dir, s, hrun, ?_⟩
  refine (dir_integrity hopen hdistinct ⟨[98], by decide⟩ (show 5 < 2 ^ 32 by decide)).1.mono
    fun r hr => hr.mpr ?_
  rintro ⟨-, -, -, -, huse | ⟨j, hj, -, hname⟩⟩
  · exact absurd (huse.symm.trans hfree) (by simp)
  · have hne := List.all_eq_true.mp hnames j (List.mem_range.mpr hj)
    exact absurd hname (by simpa using hne)

/-- **A name is added twice.** The first entry cannot be read for lack of memory, and the name of
that entry is added again. -/
theorem dir_add_duplicates : ∃ s dir, OpenDir s dir smallRoot ∧ s.DistinctNames smallRoot ∧
    ∃ s', dirAdd s dir ⟨[97], by decide⟩ 5 = .ok (true, s') ∧ ¬ s'.DistinctNames smallRoot := by
  obtain ⟨⟨dir, s⟩, -, hp⟩ := Ends.of_run (x := smallDir) (p := fun r => smallTest r &&
    (dirAdd { r.2 with mallocs := [false] } r.1 ⟨[97], by decide⟩ 5).toOption.any fun r' => r'.1 &&
      entryInUse (r'.2.slotOf smallRoot 0) && entryInUse (r'.2.slotOf smallRoot 1) &&
      entryName (r'.2.slotOf smallRoot 0) == entryName (r'.2.slotOf smallRoot 1)) (by decide +kernel)
  rw [Bool.and_eq_true] at hp
  obtain ⟨hopen, hdistinct⟩ := openDir_of_test hp.1 [false]
  obtain ⟨⟨ok, s'⟩, hadd, hafter⟩ := Ends.of_run hp.2
  simp only [Bool.and_eq_true, beq_iff_eq] at hafter
  obtain ⟨⟨⟨rfl, huse₀⟩, huse₁⟩, hname⟩ := hafter
  refine ⟨_, dir, hopen, hdistinct, s', hadd, fun hd => ?_⟩
  exact absurd (hd 0 (by decide) 1 (by decide) huse₀ huse₁ hname) (by decide)

end Pintos
