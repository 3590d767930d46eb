import Pintos.FileSys.Stages

/-!
# The calls of the file system

What `filesys_create`, `filesys_open`, `filesys_remove` and the calls on files do, as outcomes in
terms of the invariant. The root directory is opened at the start of a call and closed at its end,
so between calls it is not open.

* `Quiet` — nothing but the table of inodes has changed;
* `FileSys.CanStore` — there is memory and space for a new file, so that `filesys_create` gets as
  far as `dir_add`;
* `Makes`, `Finds`, `Removes` — the outcomes of the three calls.
-/

namespace Pintos

open Total Function

/-! ### Nothing on disk changes -/

/-- Nothing but the table of inodes has changed. -/
structure Quiet (s s' : FileSys) : Prop where
  dev : s'.dev = s.dev
  disk : s'.disk = s.disk
  freeMap : s'.freeMap = s.freeMap
  freeMapFile : s'.freeMapFile = s.freeMapFile
  kept : SameInodes s s'

section Quiet

variable {s s' s'' : FileSys} {refs : InodePtr → ℤ} {p : InodePtr} {x : ℕ}

theorem Quiet.trans (h : Quiet s s') (h' : Quiet s' s'') : Quiet s s'' :=
  ⟨h'.dev.trans h.dev, h'.disk.trans h.disk, h'.freeMap.trans h.freeMap,
    h'.freeMapFile.trans h.freeMapFile, h.kept.trans h'.kept⟩

theorem Quiet.withMallocs (s : FileSys) (ms : List Bool) : Quiet s { s with mallocs := ms } :=
  ⟨rfl, rfl, rfl, rfl, le_rfl, fun _ _ => rfl, fun _ _ => rfl⟩

theorem Quiet.closing (s : FileSys) (p : InodePtr) : Quiet s (s.closing p) :=
  ⟨rfl, rfl, rfl, rfl, .modify s p _ _ rfl rfl⟩

theorem Quiet.inodeAt (h : Quiet s s') (x : ℕ) : s'.inodeAt x = s.inodeAt x := by
  unfold FileSys.inodeAt
  rw [h.disk]

theorem Quiet.slot (h : Quiet s s') (i : ℕ) : s'.slot i = s.slot i := by
  unfold FileSys.slot FileSys.slotOf FileSys.root
  rw [h.inodeAt, h.disk]

theorem Quiet.named (h : Quiet s s') : s'.named = s.named := by
  unfold FileSys.named
  simp only [h.slot]

theorem Quiet.sameFile (h : Quiet s s') (x : ℕ) : SameFile s s' x :=
  ⟨h.inodeAt x, fun o _ => by rw [h.disk]⟩

/-- The same references are held to the same inodes. -/
theorem opened_of_kept (h : Intact s refs) (h' : Intact s' refs) (hk : SameInodes s s') :
    s'.opened = s.opened := by
  have hopen : ∀ {q}, q ∈ s'.openInodes ↔ q ∈ s.openInodes := fun {q} => by
    rw [h.table.mem_iff, h'.table.mem_iff]
  refine Set.ext fun x => exists_congr fun q => ?_
  rw [hopen]
  refine and_congr_right fun hq => ?_
  rw [hk.sector q (h.table.fresh q hq)]

theorem SameLayout.of_named (h : Intact s refs) (h' : Intact s' refs) (hk : SameInodes s s')
    (hdev : s'.dev = s.dev) (hnamed : s'.named = s.named)
    (hinode : ∀ x ∈ s.live, s'.inodeAt x = s.inodeAt x) : SameLayout s s' := by
  refine ⟨hdev, hnamed, ?_, hinode⟩
  unfold FileSys.live
  rw [hnamed, opened_of_kept h h' hk]

end Quiet

/-! ### Memory and space for a new file -/

/-- The next `n` allocations succeed. -/
def enough : ℕ → List Bool → Prop
  | 0, _ => True
  | n + 1, ms => (malloc ms).1 = true ∧ enough n (malloc ms).2

/-- How many allocations storing the map takes. -/
def FileSys.mapCost (s : FileSys) : ℕ := if s.mapSize % 512 = 0 then 0 else 1

/-- There is memory for the inode and the structure of the root directory, for storing the map
twice, and for the inode on disk; and there are sectors for the inode and for the data. -/
def FileSys.CanStore (s : FileSys) (size : ℤ) : Prop :=
  enough (2 + s.mapCost + 1 + s.mapCost) s.mallocs ∧
    ∃ i j, s.freeMap.FirstRun false 1 0 (some i) ∧
      s.freeMap.IsRun false (bytesToSectors size) j ∧
      ∀ b, j ≤ b → b < j + bytesToSectors size → b ≠ i

theorem enough_nil : ∀ n, enough n []
  | 0 => trivial
  | n + 1 => ⟨rfl, enough_nil n⟩

theorem enough_mono : ∀ {n m : ℕ} {ms : List Bool}, enough (n + m) ms → enough n ms
  | 0, _, _, _ => trivial
  | n + 1, m, ms, h => by
    rw [Nat.succ_add] at h
    exact ⟨h.1, enough_mono h.2⟩

theorem enough_mapCost (s : FileSys) (map : Bitmap) (n : ℕ) :
    enough (s.mapCost + n) s.mallocs ↔ ¬ s.mapFails ∧ enough n (s.store map).mallocs := by
  have hun : unbounced 0 s.mapSize = s.mapSize / 512 * 512 := if_pos rfl
  unfold FileSys.mapCost FileSys.mapFails
  show _ ↔ _ ∧ enough n (mallocsAfter s.mallocs false 0 s.mapSize)
  unfold mallocsAfter
  rw [hun]
  by_cases hwhole : s.mapSize % 512 = 0
  · rw [if_pos hwhole, if_pos (.inl (by omega)), Nat.zero_add]
    exact ⟨fun h => ⟨fun hfails => hfails.1 hwhole, h⟩, fun h => h.2⟩
  · have hne : ¬ (s.mapSize / 512 * 512 = s.mapSize ∨ false = true) := by
      rintro (heq | hbad)
      · omega
      · exact Bool.false_ne_true hbad
    rw [if_neg hwhole, if_neg hne, Nat.add_comm]
    refine and_congr_left fun _ => ?_
    rw [not_and, Bool.not_eq_false]
    exact ⟨fun h _ => h, fun h => h hwhole⟩

/-! ### The root directory -/

section Root

variable {s : FileSys} {refs : InodePtr → ℤ} {p : InodePtr}

theorem update_update_sub (refs : InodePtr → ℤ) (p : InodePtr) :
    update (update refs p (refs p + 1)) p
      (update refs p (refs p + 1) p - 1) = refs := by
  rw [update_self, update_idem, Int.add_sub_cancel, update_eq_self]

/-- References to two inodes. -/
theorem update_swap (refs : InodePtr → ℤ) {d p : InodePtr} (hne : d ≠ p) :
    update (update refs p (refs p + 1)) d
        (update refs p (refs p + 1) d + 1) =
      update (update refs d (refs d + 1)) p
        (update refs d (refs d + 1) p + 1) := by
  rw [update_of_ne hne.symm, update_of_ne hne, update_comm hne]

/-- An inode that is not removed is closed without further ado. -/
theorem Intact.close_kept (h : Intact s (update refs p (refs p + 1))) (hp : p ∈ s.openInodes)
    (hmap : (s.inodes p).sector ≠ freeMapSector)
    (hlive : (s.inodes p).sector = rootDirSector ∨ (s.inodes p).sector ∈ s.named ∨ 0 < refs p) :
    inodeClose s (some p) = .ok (s.closing p) ∧ Intact (s.closing p) refs := by
  have hkeep : ¬ ((s.inodes p).openCnt = 1 ∧ (s.inodes p).removed = true) := by
    rintro ⟨hcnt, hr⟩
    obtain ⟨hnamed, -, hroot⟩ := h.removed p hp hr
    rw [h.table.openCnt p hp, update_self] at hcnt
    rcases hlive with hx | hx | hx
    · exact hroot hx
    · exact hnamed hx
    · omega
  have hsound := (h.closing hp hmap).1
  rw [update_update_sub] at hsound
  exact ⟨inodeClose_eq hkeep, hsound⟩

/-- The root directory has been opened. -/
structure RootOpen (s : FileSys) (refs : InodePtr → ℤ) (dir : Dir) : Prop where
  sound : Intact s (update refs dir.inode (refs dir.inode + 1))
  mem : dir.inode ∈ s.openInodes
  sector : (s.inodes dir.inode).sector = rootDirSector

/-- It can be read and written. -/
theorem RootOpen.holds {dir : Dir} (h : RootOpen s refs dir) :
    (s.inodes dir.inode).data = s.root ∧ s.root.OnDevice s.dev s.root.length.toNat ∧
      (s.inodes dir.inode).denyWriteCnt = 0 := by
  refine ⟨?_, h.sound.layout.onDevice (mem_live_root s), h.sound.table.allowed _ h.mem⟩
  rw [h.sound.table.data _ h.mem, h.sector]
  rfl

theorem dirOpen_some (hm : (malloc s.mallocs).1 = true) : dirOpen s (some p) =
    .ok (some ⟨p, 0⟩, { s with mallocs := (malloc s.mallocs).2 }) := by
  unfold dirOpen
  revert hm
  obtain ⟨got, ms⟩ := malloc s.mallocs
  rintro rfl
  rfl

theorem dirOpen_none (hm : (malloc s.mallocs).1 = false) : dirOpen s (some p) = (do
    let s ← inodeClose { s with mallocs := (malloc s.mallocs).2 } (some p)
    .ok (none, s)) := by
  unfold dirOpen
  revert hm
  obtain ⟨got, ms⟩ := malloc s.mallocs
  rintro rfl
  rfl

/-- **`dir_open_root`.** -/
theorem Intact.dirOpenRoot_ends (h : Intact s refs) (hclosed : rootDirSector ∉ s.opened) :
    Ends (dirOpenRoot s) fun r => Quiet s r.2 ∧
      (r.1 = none → Intact r.2 refs ∧ ¬ enough 2 s.mallocs) ∧
      ∀ dir, r.1 = some dir → RootOpen r.2 refs dir ∧ r.2.live = s.live ∧
        (∀ n, enough (2 + n) s.mallocs ↔ enough n r.2.mallocs) ∧
        (s.mallocs = [] → r.2.mallocs = []) := by
  have hlive := mem_live_root s
  have hlt := (h.layout.used _ hlive _ (mem_extent_self s _)).1
  refine (inodeOpen_ends hlt).bind fun ⟨r, s₁⟩ ho => ?_
  obtain ⟨hnone, hsome⟩ := h.of_opens hlive ho
  cases ho with
  | shared p hp hsector => exact absurd ⟨p, hp, hsector⟩ hclosed
  | failed _ hm =>
    -- without an inode, `dir_open` only gives up
    refine .ok ⟨(Quiet.withMallocs s _).trans (.withMallocs _ _), fun _ => ⟨?_, fun he => ?_⟩,
      fun dir hdir => nomatch hdir⟩
    · exact (hnone rfl).withMallocs _
    · exact Bool.false_ne_true (hm.symm.trans he.1)
  | fresh _ hm =>
    obtain ⟨hsound, hmem, hsector, hlayout, -, -, -, hkept⟩ := hsome s.nextInode rfl
    have hquiet : Quiet s (s.opening rootDirSector) := ⟨rfl, rfl, rfl, rfl, hkept⟩
    obtain ⟨s₁, hs₁⟩ : ∃ s₁, s₁ = s.opening rootDirSector := ⟨_, rfl⟩
    have hms : s₁.mallocs = (malloc s.mallocs).2 := by rw [hs₁]; rfl
    rw [← hs₁] at hsound hmem hsector hlayout hquiet ⊢
    have hsound' := hsound.withMallocs (malloc s₁.mallocs).2
    have hquiet' := hquiet.trans (.withMallocs _ (malloc s₁.mallocs).2)
    dsimp only
    by_cases hm' : (malloc s₁.mallocs).1 = true
    · rw [dirOpen_some hm']
      refine .ok ⟨hquiet', fun hnone => (nomatch hnone), fun dir hdir => ?_⟩
      obtain rfl : (⟨s.nextInode, 0⟩ : Dir) = dir := Option.some.inj hdir
      refine ⟨⟨hsound', hmem, hsector⟩, hlayout.live, fun n => ?_, fun hnil => ?_⟩
      · rw [Nat.add_comm]
        show (malloc s.mallocs).1 = true ∧ (malloc (malloc s.mallocs).2).1 = true ∧
          enough n (malloc (malloc s.mallocs).2).2 ↔ enough n (malloc s₁.mallocs).2
        rw [← hms]
        exact ⟨fun he => he.2.2, fun he => ⟨hm, hm', he⟩⟩
      · rw [hms, hnil]
        rfl
    · have hfalse := Bool.eq_false_iff.mpr hm'
      have hne : (s₁.inodes s.nextInode).sector ≠ freeMapSector := by
        rw [hsector]
        decide
      obtain ⟨hclose, hsound''⟩ := hsound'.close_kept hmem hne (.inl hsector)
      rw [dirOpen_none hfalse]
      refine Ends.step hclose (.ok ⟨hquiet'.trans (.closing _ _), fun _ => ⟨hsound'', fun he => hm' ?_⟩,
        fun dir hdir => nomatch hdir⟩)
      rw [hms]
      exact he.2.1

/-- The root directory is closed at the end of a call. -/
theorem RootOpen.close {dir : Dir} (h : RootOpen s refs dir) :
    dirClose s (some dir) = .ok (s.closing dir.inode) ∧ Intact (s.closing dir.inode) refs :=
  h.sound.close_kept h.mem (by rw [h.sector]; decide) (.inl h.sector)

end Root

/-! ### `filesys_create` -/

/-- The open inodes are the same. -/
structure SameTable (s s' : FileSys) : Prop where
  dev : s'.dev = s.dev
  freeMapFile : s'.freeMapFile = s.freeMapFile
  inodes : s'.inodes = s.inodes
  openInodes : s'.openInodes = s.openInodes
  nextInode : s'.nextInode = s.nextInode

section Stages

variable {s s' s'' : FileSys} {refs : InodePtr → ℤ} {dir : Dir} {cnt i : ℕ} {size : ℤ}

theorem SameTable.trans (h : SameTable s s') (h' : SameTable s' s'') : SameTable s s'' :=
  ⟨h'.dev.trans h.dev, h'.freeMapFile.trans h.freeMapFile, h'.inodes.trans h.inodes,
    h'.openInodes.trans h.openInodes, h'.nextInode.trans h.nextInode⟩

theorem SameTable.kept (h : SameTable s s') : SameInodes s s' := by
  refine ⟨h.nextInode.ge, fun q _ => ?_, fun q _ => ?_⟩
  all_goals rw [h.inodes]

theorem RootOpen.same (h : RootOpen s refs dir) (ht : SameTable s s')
    (hsound : Intact s' (update refs dir.inode (refs dir.inode + 1))) :
    RootOpen s' refs dir := by
  refine ⟨hsound, ?_, ?_⟩
  · rw [ht.openInodes]
    exact h.mem
  · rw [ht.inodes]
    exact h.sector

/-- An allocation that fails has not enough memory or no space. -/
theorem Allocates.not_enough (h : Allocates s cnt (none, s')) (n : ℕ) :
    SameTable s s' ∧ s'.freeMap = s.freeMap ∧ (s.mallocs = [] → s'.mallocs = []) ∧
      ¬ (enough (s.mapCost + n) s.mallocs ∧ ∃ j, s.freeMap.IsRun false cnt j) := by
  cases h with
  | full hfull => exact ⟨⟨rfl, rfl, rfl, rfl, rfl⟩, rfl, id, fun ⟨_, j, hj⟩ => hfull j hj⟩
  | @undone i map hrun hsets hfails =>
    exact ⟨⟨rfl, rfl, rfl, rfl, rfl⟩, rfl, @store_mallocs s map, fun ⟨he, _⟩ =>
      ((enough_mapCost s map n).mp he).1 hfails⟩

/-- An allocation that succeeds has had memory and space. -/
theorem Allocates.was_enough (h : Allocates s cnt (some i, s')) :
    SameTable s s' ∧ s.freeMap.FirstRun false cnt 0 (some i) ∧ s.freeMap.Sets true i cnt s'.freeMap ∧
      (s.mallocs = [] → s'.mallocs = []) ∧
      ∀ n, enough (s.mapCost + n) s.mallocs ↔ enough n s'.mallocs := by
  cases h with
  | @done i map hrun hsets hok =>
    refine ⟨⟨rfl, rfl, rfl, rfl, rfl⟩, hrun, hsets, store_mallocs, fun n => ?_⟩
    rw [enough_mapCost s map n]
    exact and_iff_right hok

/-- The same for `inode_create`. -/
theorem Creates.enough_iff {x : ℕ} {r : Bool × FileSys} (h : Creates s x size
    (Allocates { s with mallocs := (malloc s.mallocs).2 } (bytesToSectors size)) r) :
    SameTable s r.2 ∧ (s.mallocs = [] → r.2.mallocs = []) ∧
      (r.1 = true ↔ enough (1 + s.mapCost) s.mallocs ∧
        ∃ j, s.freeMap.IsRun false (bytesToSectors size) j) := by
  have hone : enough (1 + s.mapCost) s.mallocs ↔ (malloc s.mallocs).1 = true ∧
      enough (s.mapCost + 0) (malloc s.mallocs).2 := by
    rw [Nat.add_comm]
    exact Iff.rfl
  have hnil : s.mallocs = [] → (malloc s.mallocs).2 = [] := by
    intro hnil
    rw [hnil]
    rfl
  cases h with
  | noMemory hm =>
    refine ⟨⟨rfl, rfl, rfl, rfl, rfl⟩, hnil, iff_of_false Bool.false_ne_true fun he => ?_⟩
    exact Bool.false_ne_true (hm.symm.trans (hone.mp he.1).1)
  | noSpace hm ha =>
    obtain ⟨htable, -, hms, hnot⟩ := ha.not_enough 0
    refine ⟨⟨htable.1, htable.2, htable.3, htable.4, htable.5⟩, fun h => hms (hnil h),
      iff_of_false Bool.false_ne_true fun he => hnot ?_⟩
    exact ⟨(hone.mp he.1).2, he.2⟩
  | done hm ha =>
    obtain ⟨htable, hrun, -, hms, he⟩ := ha.was_enough
    refine ⟨⟨htable.1, htable.2, htable.3, htable.4, htable.5⟩, fun h => hms (hnil h),
      iff_of_true rfl ⟨hone.mpr ⟨hm, ?_⟩, _, hrun.2.1⟩⟩
    exact (he 0).mpr trivial

/-- The first run is one. -/
theorem Bitmap.FirstRun.unique {b : Bitmap} {v : Bool} {cnt start i j : ℕ}
    (h : b.FirstRun v cnt start (some i)) (h' : b.FirstRun v cnt start (some j)) : i = j := by
  obtain ⟨hi, hrun, hmin⟩ := h
  obtain ⟨hj, hrun', hmin'⟩ := h'
  refine le_antisymm (not_lt.mp fun hlt => ?_) (not_lt.mp fun hlt => ?_)
  · exact hmin j hj hlt hrun'
  · exact hmin' i hi hlt hrun

/-- Space for the data besides the sector of the inode. -/
theorem isRun_iff {b b' : Bitmap} (hsets : b.Sets true i 1 b') (k j : ℕ) :
    b'.IsRun false k j ↔ b.IsRun false k j ∧ ∀ l, j ≤ l → l < j + k → l ≠ i := by
  unfold Bitmap.IsRun
  rw [hsets.1, and_assoc, ← forall_and]
  refine and_congr_right fun _ => forall_congr' fun l => ?_
  rw [hsets.2 l]
  by_cases hl : l = i
  · subst hl
    rw [if_pos ⟨le_rfl, Nat.lt_succ_self _⟩]
    constructor
    · exact fun h => ⟨fun hlo hhi => absurd (h hlo hhi) (by simp), fun hlo hhi => absurd (h hlo hhi) (by simp)⟩
    · exact fun h hlo hhi => absurd rfl (h.2 hlo hhi)
  · rw [if_neg (by omega)]
    exact ⟨fun h => ⟨h, fun _ _ => hl⟩, fun h => h.1⟩

end Stages

/-- `dir_add` has a reason to refuse a name. -/
def FileSys.Refuses (s : FileSys) (name : CString) : Prop :=
  name.chars = [] ∨ nameMax < name.chars.length ∨
    (∃ i < 16, entryInUse (s.slot i) = true ∧ entryName (s.slot i) = name.chars) ∨
    ∀ i < 16, entryInUse (s.slot i) = true

/-- A new file: an entry in slot `w`, with an inode in sector `x`. -/
structure NewFile (s s' : FileSys) (name : CString) (size : ℤ) (w x : ℕ) : Prop where
  slot : w < 16
  valid : name.chars ≠ [] ∧ name.chars.length ≤ nameMax
  used : entryInUse (s'.slot w) = true
  named : entryName (s'.slot w) = name.chars
  sector : entrySector (s'.slot w) = x
  others : ∀ i < 16, i ≠ w → ∀ o < 20, s'.slot i o = s.slot i o
  fresh : x ∉ s.live
  length : (s'.inodeAt x).length = size
  zero : ∀ o : ℕ, (o : ℤ) < size → s'.disk (512 * (s'.inodeAt x).start + o) = 0
  files : ∀ y ∈ s.live, y ≠ freeMapSector → y ≠ rootDirSector → SameFile s s' y
  /-- With memory enough, the slot was free and the name was not in use. -/
  free : s.mallocs = [] → entryInUse (s.slot w) = false ∧
    ∀ i < 16, entryInUse (s.slot i) = true → entryName (s.slot i) ≠ name.chars

/-- **What `filesys_create` does**: it does not get as far as `dir_add` and undoes what it did; or
`dir_add` fails, and the data is not given back; or there is a new file. -/
inductive Makes (s : FileSys) (refs : InodePtr → ℤ) (name : CString) (size : ℤ) :
    Bool × FileSys → Prop where
  | early {s' : FileSys} : ¬ s.CanStore size → Intact s' refs → SameInodes s s' → SameLayout s s' →
      SameFiles s s' → s'.freeMap = s.freeMap → Makes s refs name size (false, s')
  | late {s' : FileSys} (j : ℕ) : s.CanStore size → Intact s' refs → SameInodes s s' → SameLayout s s' →
      SameFiles s s' → s.freeMap.IsRun false (bytesToSectors size) j →
      s.freeMap.Sets true j (bytesToSectors size) s'.freeMap → (s.mallocs = [] → s.Refuses name) →
      Makes s refs name size (false, s')
  | made {s' : FileSys} (w x : ℕ) : Intact s' refs → SameInodes s s' → NewFile s s' name size w x →
      Makes s refs name size (true, s')

section Create

variable {s s' : FileSys} {refs : InodePtr → ℤ} {dir : Dir} {name : CString} {size : ℤ}

/-- Memory and space, once the root directory is open. -/
def FileSys.Stores (s : FileSys) (size : ℤ) : Prop :=
  enough (s.mapCost + (1 + s.mapCost)) s.mallocs ∧
    ∃ i j, s.freeMap.FirstRun false 1 0 (some i) ∧
      s.freeMap.IsRun false (bytesToSectors size) j ∧
      ∀ b, j ≤ b → b < j + bytesToSectors size → b ≠ i

/-- With memory enough, a name that `lookup` does not find is not there. -/
theorem Intact.absent_of_nil (h : Intact s refs) (hnil : s.mallocs = [])
    (hnot : (s.lookupReach s.root name).found = false) :
    ∀ i < 16, entryInUse (s.slot i) = true → entryName (s.slot i) ≠ name.chars := by
  have hcnt := h.slotCnt
  unfold FileSys.lookupReach at hnot
  rw [hnil] at hnot
  obtain ⟨-, hend⟩ := reach_nil (fun j => entryInUse (s.slotOf s.root j) &&
    entryName (s.slotOf s.root j) == name.chars) s.root.partSlot s.root.slotCnt 0
  obtain ⟨-, -, hbefore, -⟩ := reach_spec (fun j => entryInUse (s.slotOf s.root j) &&
    entryName (s.slotOf s.root j) == name.chars) s.root.partSlot s.root.slotCnt 0 []
  rw [hend hnot] at hbefore
  intro i hi hui hname
  have hstop := hbefore i (Nat.zero_le i) (by omega)
  rw [Bool.and_eq_false_iff, show entryInUse (s.slotOf s.root i) = true from hui] at hstop
  rcases hstop with hstop | hstop
  · cases hstop
  · exact absurd (beq_iff_eq.mpr hname) (by rw [show s.slot i = s.slotOf s.root i from rfl, hstop]; simp)

/-- With memory enough, `dir_add` finds a free slot. -/
theorem Intact.free_of_nil (h : Intact s refs) (hnil : s.mallocs = [])
    (hslot : (s.freeReach s.root (s.lookupReach s.root name).mallocs).slot < 16) :
    entryInUse (s.slot (s.freeReach s.root (s.lookupReach s.root name).mallocs).slot) = false := by
  have hcnt := h.slotCnt
  rw [lookupReach_nil hnil] at hslot ⊢
  unfold FileSys.freeReach at hslot ⊢
  obtain ⟨-, hfull⟩ := reach_nil (fun j => !entryInUse (s.slotOf s.root j))
    s.root.partSlot s.root.slotCnt 0
  obtain ⟨-, -, -, hfound⟩ := reach_spec (fun j => !entryInUse (s.slotOf s.root j))
    s.root.partSlot s.root.slotCnt 0 []
  by_cases hf : (reach (fun j => !entryInUse (s.slotOf s.root j)) s.root.partSlot
      s.root.slotCnt 0 []).found = true
  · have hstop := (hfound hf).2
    rwa [Bool.not_eq_true'] at hstop
  · -- a search that finds nothing goes to the end
    have hover := hfull (Bool.eq_false_iff.mpr hf)
    omega

/-- With memory enough, `dir_add` does not fail without a reason. -/
theorem Intact.refuses_of_nil (h : Intact s refs) (hnil : s.mallocs = []) {x : ℕ}
    (ha : Adds s s.root name x (false, s')) : s.Refuses name := by
  have hcnt := h.slotCnt
  cases ha with
  | invalid hbad => exact hbad.elim .inl fun hlong => .inr (.inl hlong)
  | present hfound =>
    obtain ⟨hw, huse, hname⟩ := lookupReach_found hfound
    exact .inr (.inr (.inl ⟨_, hcnt ▸ hw, huse, hname⟩))
  | failed f hf _ hm =>
    rw [hf, freeReach_nil hnil] at hm
    exact nomatch hm
  | past e f k ms hf hend _ _ =>
    refine .inr (.inr (.inr fun i hi => ?_))
    -- every slot before the end has been seen
    rw [lookupReach_nil hnil] at hf
    obtain ⟨-, -, hbefore, -⟩ := reach_spec (fun j => !entryInUse (s.slotOf s.root j))
      s.root.partSlot s.root.slotCnt 0 []
    have hstop := hbefore i (Nat.zero_le i) (hi.trans_eq (hcnt.symm.trans (hend.symm.trans (by rw [hf]; rfl))))
    rwa [Bool.not_eq_false'] at hstop

/-- What makes `dir_add` refuse a name is in the root directory. -/
theorem FileSys.Refuses.of_slots (h : s'.Refuses name) (hslots : SameSlots s s') : s.Refuses name := by
  refine h.imp_right (Or.imp_right (Or.imp ?_ fun hall i hi => ?_))
  · rintro ⟨i, hi, huse, hname⟩
    obtain ⟨huse', hname', -⟩ := entry_congr (hslots i hi)
    exact ⟨i, hi, huse'.symm.trans huse, hname'.symm.trans hname⟩
  · exact (entry_congr (hslots i hi)).1.symm.trans (hall i hi)

/-- The stages of `filesys_create` between opening and closing the root directory. -/
def createStages (s : FileSys) (dir : Dir) (name : CString) (size : ℤ) :
    Except Panic (Bool × FileSys) := do
  let (success, inodeSector, s) ← (do
    let (sector, s) ← freeMapAllocate s 1
    match sector with
    | none => .ok (false, 0, s)
    | some sector =>
      let (created, s) ← inodeCreate s sector size
      if created then
        let (added, s) ← dirAdd s dir name sector
        .ok (added, sector, s)
      else .ok (false, sector, s) : Except Panic (Bool × ℕ × FileSys))
  let s ← if !success && inodeSector != 0 then freeMapRelease s inodeSector 1 else .ok s
  .ok (success, s)

/-- What the stages do. -/
inductive Staged (s : FileSys) (refs : InodePtr → ℤ) (name : CString) (size : ℤ) :
    Bool × FileSys → Prop where
  | early {s' : FileSys} : ¬ s.Stores size → Intact s' refs → SameTable s s' → SameLayout s s' →
      SameFiles s s' → s'.freeMap = s.freeMap → Staged s refs name size (false, s')
  | late {s' : FileSys} (j : ℕ) : s.Stores size → Intact s' refs → SameTable s s' → SameLayout s s' →
      SameFiles s s' → s.freeMap.IsRun false (bytesToSectors size) j →
      s.freeMap.Sets true j (bytesToSectors size) s'.freeMap → (s.mallocs = [] → s.Refuses name) →
      Staged s refs name size (false, s')
  | made {s' : FileSys} (w x : ℕ) : Intact s' refs → SameTable s s' → NewFile s s' name size w x →
      Staged s refs name size (true, s')

/-- **Giving the sector of the inode back.** -/
theorem Intact.release_one {refs : InodePtr → ℤ} (h : Intact s refs) {x : ℕ} (hx : s.Reserved {x}) :
    Ends (freeMapRelease s x 1) fun s' => Intact s' refs ∧ SameLayout s s' ∧ SameFiles s s' ∧
      SameTable s s' ∧ s.freeMap.Sets false x 1 s'.freeMap ∧ (s.mallocs = [] → s'.mallocs = []) := by
  have hone : ∀ {y}, y ∈ Set.Ico x (x + 1) → y = x := fun hy => by
    have hlo := hy.1
    have hhi := hy.2
    omega
  refine (h.release (hx x rfl).1 (hx.mono fun y hy => hone hy)).mono ?_
  rintro _ ⟨⟨map, hsets, rfl⟩, hsound, hlayout, -, -⟩
  exact ⟨hsound, hlayout, h.sameFiles_of_map (h.store_same map), ⟨rfl, rfl, rfl, rfl, rfl⟩, hsets,
    store_mallocs⟩

/-- The entry of a new inode, with what was there before. -/
theorem Intact.newFile {s₂ : FileSys} {e : Buffer} {w x start : ℕ} (h : Intact s refs)
    (h₂ : Intact s₂ refs) (hlayout : SameLayout s s₂) (hfiles : SameFiles s s₂) (hw : w < 16)
    (hvalid : name.chars ≠ [] ∧ name.chars.length ≤ nameMax) (hx : x < 2 ^ 32)
    (hres : s₂.Reserved (s₂.extent x)) (hread : s₂.inodeAt x = ⟨start, size, inodeMagic⟩)
    (hzero : ∀ o : ℕ, (o : ℤ) < size → s₂.disk (512 * start + o) = 0) (ms : List Bool)
    (hfree : s.mallocs = [] → entryInUse (s₂.slot w) = false ∧
      ∀ i < 16, entryInUse (s₂.slot i) = true → entryName (s₂.slot i) ≠ name.chars) :
    NewFile s (s₂.putSlot w (setEntry e name x) ms) name size w x := by
  obtain ⟨hsame, -, hslot⟩ := h₂.putSlot_spec hw (setEntry e name x) ms
  obtain ⟨huse, hname, hsector⟩ := entry_congr fun o ho => (hslot w o ho).trans (if_pos rfl)
  have hslots := (hfiles _ (mem_live_root s) (by decide)).slots h.root
  -- the root directory does not own what is reserved
  have hnew : SameFile s₂ (s₂.putSlot w (setEntry e name x) ms) x :=
    .of_diskSame hsame fun y hy hmem =>
      (hres y hy).2.2 _ (mem_live_root s₂) (mem_extent_of_sectors hmem)
  have hdead : x ∉ s₂.live := fun hmem =>
    (hres x (mem_extent_self s₂ x)).2.2 x hmem (mem_extent_self s₂ x)
  exact
    { slot := hw
      valid := hvalid
      used := huse.trans (entryInUse_setEntry hvalid.2 x)
      named := hname.trans (entryName_setEntry hvalid.2 x)
      sector := hsector.trans (entrySector_setEntry name hx)
      others := fun i hi hiw o ho => ((hslot i o ho).trans (if_neg hiw)).trans (hslots i hi o ho)
      fresh := hlayout.live ▸ hdead
      length := by rw [hnew.1, hread]
      zero := fun o ho => by
        have hbyte := hnew.2 o (by rw [hread]; exact ho)
        rw [hread] at hbyte
        rw [hnew.1, hread]
        exact hbyte.trans (hzero o ho)
      files := fun y hy hmap hroot => (hfiles y hy hmap).trans
        (h₂.putSlot_sameFile hw ms (hlayout.live ▸ hy) hroot)
      free := fun hnil => by
        obtain ⟨hclear, hnames⟩ := hfree hnil
        refine ⟨(entry_congr (hslots w hw)).1 ▸ hclear, fun i hi hui => ?_⟩
        obtain ⟨hui', hname', -⟩ := entry_congr (hslots i hi)
        exact hname' ▸ hnames i hi (hui'.trans hui) }

theorem createStages_ends (h : RootOpen s refs dir) (name : CString) (hlo : 0 ≤ size)
    (hhi : size < 2 ^ 31) : Ends (createStages s dir name size) fun r =>
      Staged s (update refs dir.inode (refs dir.inode + 1)) name size r ∧
      (s.mallocs = [] → r.2.mallocs = []) := by
  have hsound := h.sound
  unfold createStages
  rw [bind_assoc]
  refine (freeMapAllocate_ends hsound.mounted 1).bind fun ⟨sector, s₁⟩ ha => ?_
  obtain ⟨hsound₁, hlayout₁, -, hdisk₁, -, hnew⟩ := hsound.of_allocates ha
  have hfiles₁ := hsound.sameFiles_of_map hdisk₁
  cases sector with
  | none =>
    obtain ⟨htable, hmap, hms, hnot⟩ := ha.not_enough (1 + s.mapCost)
    refine .ok ⟨.early (fun hst => hnot ⟨hst.1, ?_⟩) hsound₁ htable hlayout₁ hfiles₁ hmap, hms⟩
    obtain ⟨-, i, -, hrun, -⟩ := hst
    exact ⟨i, hrun.2.1⟩
  | some x =>
    obtain ⟨htable₁, hfirst, hsets₁, hms₁, henough₁⟩ := ha.was_enough
    obtain ⟨hrange, -⟩ := hnew x rfl
    have hx₁ : s₁.Reserved {x} := hrange.mono fun y hy => by
      rw [Set.mem_singleton_iff.mp hy]
      exact ⟨le_rfl, Nat.lt_succ_self x⟩
    have hx₀ : x ≠ 0 := by
      rintro rfl
      have hused := (hsound.layout.used _ (mem_live_map s) _ (mem_extent_self s _)).2
      rw [show freeMapSector = 0 from rfl, hfirst.2.1.2 0 le_rfl Nat.zero_lt_one] at hused
      exact Bool.false_ne_true hused
    have hcost : s₁.mapCost = s.mapCost := by
      unfold FileSys.mapCost FileSys.mapSize
      rw [htable₁.dev]
    -- memory and space are what `inode_create` needs
    have hstores : s.Stores size ↔ enough (1 + s₁.mapCost) s₁.mallocs ∧
        ∃ j, s₁.freeMap.IsRun false (bytesToSectors size) j := by
      unfold FileSys.Stores
      rw [henough₁, hcost]
      refine and_congr_right fun _ => ⟨?_, ?_⟩
      · rintro ⟨i, j, hi, hj, hne⟩
        obtain rfl := hi.unique hfirst
        exact ⟨j, (isRun_iff hsets₁ _ j).mpr ⟨hj, hne⟩⟩
      · rintro ⟨j, hj⟩
        obtain ⟨hrun, hne⟩ := (isRun_iff hsets₁ _ j).mp hj
        exact ⟨x, j, hfirst, hrun, hne⟩
    have hcreate : Ends (inodeCreate s₁ x size) (Creates s₁ x size
        (Allocates { s₁ with mallocs := (malloc s₁.mallocs).2 } (bytesToSectors size))) := by
      refine inodeCreate_ends hlo (freeMapAllocate_ends (hsound₁.withMallocs _).mounted _)
        fun start s₂ ha₂ => ?_
      obtain ⟨htable₂, hfirst₂, -, -, -⟩ := ha₂.was_enough
      rw [htable₂.dev]
      refine ⟨(hx₁ x rfl).1, ?_⟩
      rw [← hsound₁.mounted.bitCnt]
      exact hfirst₂.2.1.1
    rw [bind_assoc]
    refine hcreate.bind fun ⟨created, s₂⟩ hc => ?_
    obtain ⟨htable₂, hms₂, hok⟩ := hc.enough_iff
    obtain ⟨hsound₂, hlayout₂, hfiles₂, hfalse, htrue⟩ := hsound₁.of_creates hx₁ hlo hhi hc
    have hlayout := hlayout₁.trans hlayout₂
    have hfiles := hfiles₁.trans hfiles₂ hlayout₁.live.superset
    have htable := htable₁.trans htable₂
    have hms : s.mallocs = [] → s₂.mallocs = [] := fun hnil => hms₂ (hms₁ hnil)
    have hrelease : ∀ b : Bool, (!b && x != 0) = !b := fun b => by
      rw [show (x != 0) = true by simpa using hx₀, Bool.and_true]
    cases created with
    | false =>
      obtain ⟨hx₂, hmap₂⟩ := hfalse rfl
      dsimp only
      rw [if_neg Bool.false_ne_true]
      refine Ends.step rfl ?_
      rw [hrelease, Bool.not_false, if_pos rfl]
      refine (hsound₂.release_one hx₂).bind fun s₃ hs₃ => .ok ?_
      obtain ⟨hsound₃, hlayout₃, hfiles₃, htable₃, hsets₃, hms₃⟩ := hs₃
      rw [hmap₂] at hsets₃
      refine ⟨.early (fun hst => ?_) hsound₃ (htable.trans htable₃) (hlayout.trans hlayout₃)
        (hfiles.trans hfiles₃ hlayout.live.superset) ?_, fun hnil => hms₃ (hms hnil)⟩
      · exact Bool.false_ne_true (hok.mpr (hstores.mp hst))
      · exact hsets₁.undo hsets₃ fun j hlo hhi => hfirst.2.1.2 j hlo hhi
    | true =>
      obtain ⟨start, hres₂, hread, hfits, hapart, hzero, hrun, hsets₂⟩ := htrue rfl
      have hopen₂ := h.same htable hsound₂
      obtain ⟨hdata, hdev, hallowed⟩ := hopen₂.holds
      dsimp only
      rw [if_pos rfl, bind_assoc]
      refine (dirAdd_ends hdata hdev hallowed name x).bind fun ⟨added, s₃⟩ hadds => ?_
      refine Ends.step rfl ?_
      rw [hrelease]
      cases added with
      | false =>
        have hrefuses : s₂.mallocs = [] → s.Refuses name := fun hnil =>
          (hsound₂.refuses_of_nil hnil hadds).of_slots
            ((hfiles _ (mem_live_root s) (by decide)).slots hsound.root)
        obtain ⟨ms, rfl, hms₃⟩ := hadds.eq_of_false hsound₂
        rw [Bool.not_false, if_pos rfl]
        have hx₃ : ({ s₂ with mallocs := ms } : FileSys).Reserved {x} := hres₂.mono fun y hy => by
          rw [Set.mem_singleton_iff.mp hy]
          exact mem_extent_self s₂ x
        refine ((hsound₂.withMallocs ms).release_one hx₃).bind fun s₄ hs₄ => .ok ?_
        obtain ⟨hsound₄, hlayout₄, hfiles₄, htable₄, hsets₄, hms₄⟩ := hs₄
        have hlayout₃ := hlayout.trans (.withMallocs s₂ ms)
        have htable₃ : SameTable s₂ { s₂ with mallocs := ms } := ⟨rfl, rfl, rfl, rfl, rfl⟩
        obtain ⟨hrun₀, hne⟩ := (isRun_iff hsets₁ _ start).mp hrun
        refine ⟨.late start (hstores.mpr (hok.mp rfl)) hsound₄ ((htable.trans htable₃).trans htable₄)
          (hlayout₃.trans hlayout₄) (hfiles.trans hfiles₄ hlayout.live.superset) hrun₀ ⟨?_, fun j => ?_⟩
          fun hnil => hrefuses (hms hnil), fun hnil => hms₄ (hms₃ (hms hnil))⟩
        · exact hsets₄.1.trans (hsets₂.1.trans hsets₁.1)
        · -- the sector of the inode is free again, the data is not
          rw [hsets₄.2 j, hsets₂.2 j, hsets₁.2 j]
          have hclear := hfirst.2.1.2 x le_rfl (Nat.lt_succ_self x)
          by_cases hj : j = x
          · subst hj
            rw [if_pos ⟨le_rfl, Nat.lt_succ_self j⟩, if_neg (fun hin => hne j hin.1 hin.2 rfl), hclear]
          · have hout : ¬ (x ≤ j ∧ j < x + 1) := by omega
            rw [if_neg hout, if_neg hout]
      | true =>
        rw [Bool.not_true, if_neg Bool.false_ne_true]
        refine .ok ?_
        obtain ⟨e, w, ms, hw, hne, hlen, rfl, hms₃, hfree⟩ : ∃ e w ms, w < 16 ∧ name.chars ≠ [] ∧
            name.chars.length ≤ nameMax ∧ s₃ = s₂.putSlot w (setEntry e name x) ms ∧
            (s₂.mallocs = [] → ms = []) ∧ (s₂.mallocs = [] → entryInUse (s₂.slot w) = false ∧
              ∀ i < 16, entryInUse (s₂.slot i) = true → entryName (s₂.slot i) ≠ name.chars) := by
          cases hadds with
          | written e f hf hne hlen hnot hslot hm =>
            rw [hsound₂.slotCnt] at hslot
            refine ⟨e, f.slot, _, hslot, hne, hlen, rfl, fun hnil => ?_, fun hnil => ?_⟩
            · rw [hf, freeReach_nil hnil]
              rfl
            · subst hf
              exact ⟨hsound₂.free_of_nil hnil hslot, hsound₂.absent_of_nil hnil hnot⟩
        exact ⟨.made w x (hsound₂.addSlot hw ms hres₂ (by rw [hread]; exact hlo)
          (by rw [hread, htable₂.dev]; exact hfits) hapart
          (entrySector_setEntry name ((hx₁ x rfl).1.trans s₁.dev.lt)))
          (htable.trans ⟨rfl, rfl, rfl, rfl, rfl⟩)
          (hsound.newFile hsound₂ hlayout hfiles hw ⟨hne, hlen⟩ ((hx₁ x rfl).1.trans s₁.dev.lt) hres₂ hread
            hzero ms fun hnil => hfree (hms hnil)),
          fun hnil => hms₃ (hms hnil)⟩

/-- A new file, seen from before the root directory was opened and after it was closed. -/
theorem NewFile.quiet {s₁ s₂ s₃ : FileSys} {w x : ℕ} (h : NewFile s₁ s₂ name size w x)
    (hq : Quiet s s₁) (hq' : Quiet s₂ s₃) (hlive : s₁.live = s.live)
    (hms : s.mallocs = [] → s₁.mallocs = []) : NewFile s s₃ name size w x where
  slot := h.slot
  valid := h.valid
  used := by rw [hq'.slot]; exact h.used
  named := by rw [hq'.slot]; exact h.named
  sector := by rw [hq'.slot]; exact h.sector
  others i hi hiw o ho := by
    rw [hq'.slot, ← hq.slot i]
    exact h.others i hi hiw o ho
  fresh := hlive ▸ h.fresh
  length := by rw [hq'.inodeAt]; exact h.length
  zero o ho := by
    rw [hq'.inodeAt, hq'.disk]
    exact h.zero o ho
  files y hy hmap hroot := (hq.sameFile y).trans
    ((h.files y (hlive ▸ hy) hmap hroot).trans (hq'.sameFile y))
  free hnil := by
    have hfree := h.free (hms hnil)
    simp only [hq.slot] at hfree
    exact hfree

/-- **`filesys_create`**: it returns, with one of three outcomes. -/
theorem filesysCreate_ends (h : Intact s refs) (hclosed : rootDirSector ∉ s.opened) (name : CString)
    (hlo : 0 ≤ size) (hhi : size < 2 ^ 31) : Ends (filesysCreate s name size) fun r =>
      Makes s refs name size r ∧ (s.mallocs = [] → r.2.mallocs = []) := by
  refine (h.dirOpenRoot_ends hclosed).bind fun ⟨dir, s₁⟩ hroot => ?_
  obtain ⟨hq, hnone, hsome⟩ := hroot
  cases dir with
  | none =>
    obtain ⟨hsound, hnot⟩ := hnone rfl
    have hcan : ¬ s.CanStore size := fun hcan => by
      have he := hcan.1
      rw [Nat.add_assoc, Nat.add_assoc] at he
      exact hnot (enough_mono he)
    refine .ok ⟨.early hcan hsound hq.kept ?_ (fun x _ _ => hq.sameFile x) hq.freeMap, fun hnil => ?_⟩
    · exact .of_named h hsound hq.kept hq.dev hq.named fun x _ => hq.inodeAt x
    · rw [hnil] at hnot
      exact absurd (enough_nil 2) hnot
  | some dir =>
    obtain ⟨hopen, hlive, henough, hms⟩ := hsome dir rfl
    have hcan : s.CanStore size ↔ s₁.Stores size := by
      have hcost : s₁.mapCost = s.mapCost := by
        unfold FileSys.mapCost FileSys.mapSize
        rw [hq.dev]
      unfold FileSys.CanStore FileSys.Stores
      rw [hcost, Nat.add_assoc, Nat.add_assoc, henough, hq.freeMap]
    have hcode : ∀ s₁, (do
        let (success, inodeSector, s) ← (do
          let (sector, s) ← freeMapAllocate s₁ 1
          match sector with
          | none => .ok (false, 0, s)
          | some sector =>
            let (created, s) ← inodeCreate s sector size
            if created then
              let (added, s) ← dirAdd s dir name sector
              .ok (added, sector, s)
            else .ok (false, sector, s) : Except Panic (Bool × ℕ × FileSys))
        let s ← if !success && inodeSector != 0 then freeMapRelease s inodeSector 1 else .ok s
        let s ← dirClose s (some dir)
        .ok (success, s)) = (do
          let (success, s) ← createStages s₁ dir name size
          let s ← dirClose s (some dir)
          .ok (success, s) : Except Panic (Bool × FileSys)) := by
      intro s₁
      unfold createStages
      simp only [bind_assoc]
      refine bind_congr fun a => bind_congr fun b => ?_
      by_cases hfail : (!b.1 && b.2.1 != 0) = true
      · rw [if_pos hfail, if_pos hfail, bind_assoc]
        rfl
      · rw [if_neg hfail, if_neg hfail]
        rfl
    refine (congrArg (Ends · _) (hcode s₁)).mpr ?_
    refine (createStages_ends hopen name hlo hhi).bind fun ⟨ok, s₂⟩ ⟨hstaged, hms₂⟩ => ?_
    have hclose : ∀ {s₂ : FileSys}, SameTable s₁ s₂ →
        Intact s₂ (update refs dir.inode (refs dir.inode + 1)) →
        dirClose s₂ (some dir) = .ok (s₂.closing dir.inode) ∧ Intact (s₂.closing dir.inode) refs ∧
          SameInodes s (s₂.closing dir.inode) := fun htable hsound => by
      obtain ⟨heq, hsound'⟩ := (hopen.same htable hsound).close
      exact ⟨heq, hsound', (hq.kept.trans htable.kept).trans (Quiet.closing _ _).kept⟩
    have hafter : ∀ {s₂ : FileSys}, SameTable s₁ s₂ → SameLayout s₁ s₂ → SameFiles s₁ s₂ →
        Intact (s₂.closing dir.inode) refs → SameInodes s (s₂.closing dir.inode) →
        SameLayout s (s₂.closing dir.inode) ∧ SameFiles s (s₂.closing dir.inode) := by
      intro s₂ htable hlayout hfiles hsound' hkept
      have hq' := Quiet.closing s₂ dir.inode
      refine ⟨.of_named h hsound' hkept ?_ ?_ fun x hx => ?_, fun x hx hne => ?_⟩
      · rw [hq'.dev, htable.dev, hq.dev]
      · rw [hq'.named, hlayout.named, hq.named]
      · rw [hq'.inodeAt, hlayout.inodeAt x (hlive ▸ hx), hq.inodeAt]
      · exact (hq.sameFile x).trans ((hfiles x (hlive ▸ hx) hne).trans (hq'.sameFile x))
    cases hstaged with
    | early hst hsound htable hlayout hfiles hmap =>
      obtain ⟨heq, hsound', hkept⟩ := hclose htable hsound
      obtain ⟨hlayout', hfiles'⟩ := hafter htable hlayout hfiles hsound' hkept
      refine Ends.step heq (.ok ⟨.early (fun hc => hst (hcan.mp hc)) hsound' hkept hlayout' hfiles' ?_,
        fun hnil => hms₂ (hms hnil)⟩)
      exact hmap.trans hq.freeMap
    | late j hst hsound htable hlayout hfiles hrun hsets hrefuses =>
      obtain ⟨heq, hsound', hkept⟩ := hclose htable hsound
      obtain ⟨hlayout', hfiles'⟩ := hafter htable hlayout hfiles hsound' hkept
      refine Ends.step heq (.ok ⟨.late j (hcan.mpr hst) hsound' hkept hlayout' hfiles' ?_ ?_
        (fun hnil => (hrefuses (hms hnil)).of_slots fun i _ o _ => by rw [hq.slot]),
        fun hnil => hms₂ (hms hnil)⟩)
      · rw [← hq.freeMap]
        exact hrun
      · rw [← hq.freeMap]
        exact hsets
    | made w x hsound htable hnew =>
      obtain ⟨heq, hsound', hkept⟩ := hclose htable hsound
      exact Ends.step heq (.ok ⟨.made w x hsound' hkept (hnew.quiet hq (.closing _ _) hlive hms),
        fun hnil => hms₂ (hms hnil)⟩)

end Create

/-! ### `filesys_open` -/

/-- **What `filesys_open` does**: the name is not found, or memory runs out, and nothing changes; or
there is one reference more to the inode of an entry with the name. -/
inductive Finds (s : FileSys) (refs : InodePtr → ℤ) (name : CString) :
    Option File × FileSys → Prop where
  | none {s' : FileSys} : Intact s' refs → Quiet s s' → (s.mallocs = [] → ∀ i < 16,
      entryInUse (s.slot i) = true → entryName (s.slot i) ≠ name.chars) → Finds s refs name (none, s')
  | some {s' : FileSys} (w : ℕ) (p : InodePtr) : w < 16 → entryInUse (s.slot w) = true →
      entryName (s.slot w) = name.chars → Intact s' (update refs p (refs p + 1)) →
      Quiet s s' → p ∈ s'.openInodes → (s'.inodes p).sector = entrySector (s.slot w) →
      Finds s refs name (some ⟨p, 0, false⟩, s')

section Open

variable {s : FileSys} {refs : InodePtr → ℤ} {dir : Dir} {p : InodePtr}

theorem fileOpen_some (hm : (malloc s.mallocs).1 = true) : fileOpen s (some p) =
    .ok (some ⟨p, 0, false⟩, { s with mallocs := (malloc s.mallocs).2 }) := by
  unfold fileOpen
  revert hm
  obtain ⟨got, ms⟩ := malloc s.mallocs
  rintro rfl
  rfl

theorem fileOpen_none (hm : (malloc s.mallocs).1 = false) : fileOpen s (some p) = (do
    let s ← inodeClose { s with mallocs := (malloc s.mallocs).2 } (some p)
    .ok (none, s)) := by
  unfold fileOpen
  revert hm
  obtain ⟨got, ms⟩ := malloc s.mallocs
  rintro rfl
  rfl

/-- **`file_open`** of an inode that is named, or held by another. -/
theorem Intact.fileOpen_ends (h : Intact s (update refs p (refs p + 1)))
    (hp : p ∈ s.openInodes) (hmap : (s.inodes p).sector ≠ freeMapSector)
    (hlive : (s.inodes p).sector = rootDirSector ∨ (s.inodes p).sector ∈ s.named ∨ 0 < refs p) :
    Ends (fileOpen s (some p)) fun r => Quiet s r.2 ∧ (s.mallocs = [] → r.2.mallocs = []) ∧
      ((r.1 = none ∧ s.mallocs ≠ [] ∧ Intact r.2 refs) ∨ (r.1 = some ⟨p, 0, false⟩ ∧
        Intact r.2 (update refs p (refs p + 1)) ∧ p ∈ r.2.openInodes)) := by
  have hsound := h.withMallocs (malloc s.mallocs).2
  have hq := Quiet.withMallocs s (malloc s.mallocs).2
  have hnil : s.mallocs = [] → (malloc s.mallocs).2 = [] := fun hnil => by
    rw [hnil]
    rfl
  by_cases hm : (malloc s.mallocs).1 = true
  · rw [fileOpen_some hm]
    exact .ok ⟨hq, hnil, .inr ⟨rfl, hsound, hp⟩⟩
  · rw [fileOpen_none (Bool.eq_false_iff.mpr hm)]
    obtain ⟨heq, hsound'⟩ := hsound.close_kept hp hmap hlive
    refine Ends.step heq (.ok ⟨hq.trans (.closing _ _), hnil, .inl ⟨rfl, fun h₀ => hm ?_, hsound'⟩⟩)
    rw [h₀]
    rfl

/-- Without an inode, `file_open` gives up. -/
theorem fileOpen_null (s : FileSys) :
    fileOpen s none = .ok (none, { s with mallocs := (malloc s.mallocs).2 }) := by
  unfold fileOpen
  obtain ⟨got, ms⟩ := malloc s.mallocs
  rfl

/-- **A named inode is opened** while the root directory is open. -/
theorem RootOpen.open_named (h : RootOpen s refs dir) {x : ℕ} (hx : x ∈ s.named) :
    Ends (inodeOpen s x) fun r => Quiet s r.2 ∧ (s.mallocs = [] → r.2.mallocs = []) ∧
      ((r.1 = none ∧ s.mallocs ≠ [] ∧ RootOpen r.2 refs dir) ∨ ∃ p, r.1 = some p ∧
        RootOpen r.2 (update refs p (refs p + 1)) dir ∧ p ∈ r.2.openInodes ∧
        (r.2.inodes p).sector = x ∧ dir.inode ≠ p ∧ r.2.live = s.live ∧
        ((p ∈ s.openInodes ∧ (r.2.inodes p).removed = (s.inodes p).removed) ∨
          s.nextInode ≤ p)) := by
  have hlive := mem_live_named hx
  have hroot : x ≠ rootDirSector := (h.sound.special x hx).2
  refine (inodeOpen_ends (h.sound.layout.used x hlive x (mem_extent_self s x)).1).mono ?_
  rintro ⟨r, s'⟩ ho
  obtain ⟨hnone, hsome⟩ := h.sound.of_opens hlive ho
  cases r with
  | none =>
    cases ho with
    | failed hclosed hm =>
      refine ⟨.withMallocs s _, fun h₀ => by rw [h₀]; rfl, .inl ⟨rfl, fun h₀ => ?_, hnone rfl, h.mem,
        h.sector⟩⟩
      rw [h₀] at hm
      cases hm
  | some p =>
    obtain ⟨hsound, hmem, hsector, hlayout, hdisk, hmap, hfile, hkept⟩ := hsome p rfl
    have hdir : (s'.inodes dir.inode).sector = rootDirSector :=
      (hkept.sector _ (h.sound.table.fresh _ h.mem)).trans h.sector
    have hne : dir.inode ≠ p := by
      rintro rfl
      exact hroot (hsector.symm.trans hdir)
    have hopen : dir.inode ∈ s'.openInodes := by
      rw [hsound.table.mem_iff, update_of_ne hne, ← h.sound.table.mem_iff]
      exact h.mem
    refine ⟨⟨hlayout.dev, hdisk, hmap, hfile, hkept⟩, fun h₀ => ?_, .inr ⟨p, rfl, ⟨?_, hopen, hdir⟩,
      hmem, hsector, hne, hlayout.live, ?_⟩⟩
    · cases ho with
      | shared => exact h₀
      | fresh _ hm =>
        show (malloc s.mallocs).2 = []
        rw [h₀]
        rfl
    · rw [update_swap refs hne]
      exact hsound
    · cases ho with
      | shared _ hp _ => exact .inl ⟨hp, hkept.removed p (h.sound.table.fresh p hp)⟩
      | fresh _ hm => exact .inr le_rfl

/-- **`lookup`** in the root directory. -/
theorem RootOpen.lookup_ends (h : RootOpen s refs dir) (name : CString) :
    Ends (lookup s dir name) fun r => (∃ ms, r.2 = { s with mallocs := ms } ∧
        (s.mallocs = [] → ms = [])) ∧
      ((r.1 = none ∧ (s.mallocs = [] → ∀ i < 16, entryInUse (s.slot i) = true →
          entryName (s.slot i) ≠ name.chars)) ∨
        ∃ e w, r.1 = some (e, ((20 * w : ℕ) : ℤ)) ∧ w < 16 ∧ entryInUse (s.slot w) = true ∧
          entryName (s.slot w) = name.chars ∧ entrySector e = entrySector (s.slot w)) := by
  obtain ⟨hdata, hdev, -⟩ := h.holds
  obtain ⟨e, he, hlookup⟩ := lookup_eq hdata hdev name
  rw [hlookup]
  refine .ok ⟨⟨_, rfl, fun hnil => lookupReach_nil hnil name⟩, ?_⟩
  by_cases hfound : (s.lookupReach s.root name).found = true
  · obtain ⟨hw, huse, hname⟩ := lookupReach_found hfound
    rw [h.sound.slotCnt] at hw
    rw [if_pos hfound]
    exact .inr ⟨e, _, rfl, hw, huse, hname, (entry_congr (he hfound)).2.2⟩
  · rw [if_neg hfound]
    exact .inl ⟨rfl, fun hnil => h.sound.absent_of_nil hnil (Bool.eq_false_iff.mpr hfound)⟩

/-- **`filesys_open`.** -/
theorem filesysOpen_ends (h : Intact s refs) (hclosed : rootDirSector ∉ s.opened) (name : CString) :
    Ends (filesysOpen s name) fun r =>
      Finds s refs name r ∧ (s.mallocs = [] → r.2.mallocs = []) := by
  have hnil : ∀ {ms : List Bool}, ms = [] → (malloc ms).2 = [] := fun hms => by
    rw [hms]
    rfl
  refine (h.dirOpenRoot_ends hclosed).bind fun ⟨dir, s₁⟩ hroot => ?_
  obtain ⟨hq, hnone, hsome⟩ := hroot
  cases dir with
  | none =>
    obtain ⟨hsound, hnot⟩ := hnone rfl
    have hmem : s.mallocs ≠ [] := fun h₀ => hnot (h₀ ▸ enough_nil 2)
    refine Ends.step rfl (Ends.step rfl ?_)
    rw [fileOpen_null]
    exact .ok ⟨.none (hsound.withMallocs _) (hq.trans (.withMallocs _ _)) fun h₀ => absurd h₀ hmem,
      fun h₀ => absurd h₀ hmem⟩
  | some dir =>
    obtain ⟨hopen, hlive, -, hms⟩ := hsome dir rfl
    -- the end of the call when there is no inode
    have hgiveUp : ∀ {s₂ : FileSys}, RootOpen s₂ refs dir → Quiet s s₂ →
        (s.mallocs = [] → s₂.mallocs = []) → (s.mallocs = [] → ∀ i < 16,
          entryInUse (s.slot i) = true → entryName (s.slot i) ≠ name.chars) →
        Ends (do let s ← dirClose s₂ (some dir); fileOpen s none) fun r =>
          Finds s refs name r ∧ (s.mallocs = [] → r.2.mallocs = []) := by
      intro s₂ hopen₂ hq₂ hms₂ habsent
      obtain ⟨heq, hsound⟩ := hopen₂.close
      refine Ends.step heq ?_
      rw [fileOpen_null]
      refine .ok ⟨.none (hsound.withMallocs _) ?_ habsent, fun h₀ => hnil (hms₂ h₀)⟩
      exact (hq₂.trans (.closing _ _)).trans (.withMallocs _ _)
    refine Ends.bind (P := fun r : Option InodePtr × FileSys => Quiet s r.2 ∧
      (s.mallocs = [] → r.2.mallocs = []) ∧ ((r.1 = none ∧ RootOpen r.2 refs dir ∧
        (s.mallocs = [] → ∀ i < 16, entryInUse (s.slot i) = true →
          entryName (s.slot i) ≠ name.chars)) ∨
        ∃ w p, r.1 = some p ∧ w < 16 ∧ entryInUse (s.slot w) = true ∧
          entryName (s.slot w) = name.chars ∧
          RootOpen r.2 (update refs p (refs p + 1)) dir ∧ p ∈ r.2.openInodes ∧
          (r.2.inodes p).sector = entrySector (s.slot w) ∧ dir.inode ≠ p)) ?_ ?_
    · refine (hopen.lookup_ends name).bind fun ⟨found, s₂⟩ hlook => ?_
      obtain ⟨⟨ms, rfl, hms₂⟩, hcase⟩ := hlook
      have hopen₂ : RootOpen { s₁ with mallocs := ms } refs dir :=
        ⟨hopen.sound.withMallocs ms, hopen.mem, hopen.sector⟩
      have hq₂ := hq.trans (.withMallocs s₁ ms)
      rcases hcase with ⟨rfl, habsent⟩ | ⟨e, w, rfl, hw, huse, hname, hsector⟩
      · refine .ok ⟨hq₂, fun h₀ => hms₂ (hms h₀), .inl ⟨rfl, hopen₂, fun h₀ i hi hui => ?_⟩⟩
        rw [← hq.slot i] at hui ⊢
        exact habsent (hms h₀) i hi hui
      · have hx : entrySector e ∈ ({ s₁ with mallocs := ms } : FileSys).named :=
          ⟨w, hw, huse, hsector.symm⟩
        refine (hopen₂.open_named hx).mono ?_
        rintro ⟨r, s₃⟩ ⟨hq₃, hms₃, hcase⟩
        refine ⟨hq₂.trans hq₃, fun h₀ => hms₃ (hms₂ (hms h₀)), ?_⟩
        rcases hcase with ⟨rfl, hmem, hopen₃⟩ | ⟨p, rfl, hopen₃, hp, hpx, hne, -, -⟩
        · exact .inl ⟨rfl, hopen₃, fun h₀ => absurd (hms₂ (hms h₀)) hmem⟩
        · rw [hq.slot w] at huse hname hsector
          exact .inr ⟨w, p, rfl, hw, huse, hname, hopen₃, hp, hpx.trans hsector, hne⟩
    · rintro ⟨inode, s₂⟩ ⟨hq₂, hms₂, ⟨rfl, hopen₂, habsent⟩ |
        ⟨w, p, rfl, hw, huse, hname, hopen₂, hp, hsector, hne⟩⟩
      · exact hgiveUp hopen₂ hq₂ hms₂ habsent
      · -- the directory is closed, and the file gets the inode
        obtain ⟨heq, hsound⟩ := hopen₂.close
        have hq₃ := hq₂.trans (.closing s₂ dir.inode)
        have hkept := (Quiet.closing s₂ dir.inode).kept
        have hp₃ : p ∈ (s₂.closing dir.inode).openInodes := by
          rw [hsound.table.mem_iff, update_self]
          have hpos := hopen₂.sound.table.held p hp
          rwa [update_of_ne hne.symm, update_self] at hpos
        have hpx : ((s₂.closing dir.inode).inodes p).sector = entrySector (s.slot w) :=
          (hkept.sector p (hopen₂.sound.table.fresh p hp)).trans hsector
        have hnamed : ((s₂.closing dir.inode).inodes p).sector ∈ (s₂.closing dir.inode).named := by
          rw [hq₃.named, hpx]
          exact ⟨w, hw, huse, rfl⟩
        have hmap := (hsound.special _ hnamed).1
        refine Ends.step heq ((hsound.fileOpen_ends hp₃ hmap (.inr (.inl hnamed))).mono ?_)
        rintro ⟨r, s₄⟩ ⟨hq₄, hms₄, ⟨rfl, hmem, hsound₄⟩ | ⟨rfl, hsound₄, hp₄⟩⟩
        · exact ⟨.none hsound₄ (hq₃.trans hq₄) fun h₀ => absurd (hms₂ h₀) hmem,
            fun h₀ => hms₄ (hms₂ h₀)⟩
        · refine ⟨.some w p hw huse hname hsound₄ (hq₃.trans hq₄) hp₄ ?_, fun h₀ => hms₄ (hms₂ h₀)⟩
          exact (hq₄.kept.sector p (hsound.table.fresh p hp₃)).trans hpx

end Open

end Pintos
