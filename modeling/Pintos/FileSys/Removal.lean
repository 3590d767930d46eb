import Pintos.FileSys.Calls

/-!
# Removing a file

`filesys_remove` frees the entry with a name and marks its inode as removed. The sectors are given
back when the last reference to the inode is closed, which may be at the end of the call itself.

* `Removes`, `filesysRemove_ends` — the outcomes of `filesys_remove`.
-/

namespace Pintos

open Total Function

/-- The entry in slot `w` has been removed. -/
structure Gone (s s' : FileSys) (name : CString) (w : ℕ) : Prop where
  slot : w < 16
  used : entryInUse (s.slot w) = true
  named : entryName (s.slot w) = name.chars
  free : entryInUse (s'.slot w) = false
  others : ∀ i < 16, i ≠ w → ∀ o < 20, s'.slot i o = s.slot i o
  files : ∀ y ∈ s'.live, y ≠ freeMapSector → y ≠ rootDirSector → SameFile s s' y
  sector : ∀ q ∈ s.openInodes, (s'.inodes q).sector = (s.inodes q).sector
  removed : ∀ q ∈ s.openInodes, (s'.inodes q).removed = ((s.inodes q).removed ||
    (s.inodes q).sector == entrySector (s.slot w))

/-- **What `filesys_remove` does**: the name is not found, or memory runs out, and nothing changes;
or an entry with the name is freed. -/
inductive Removes (s : FileSys) (refs : InodePtr → ℤ) (name : CString) : Bool × FileSys → Prop where
  | kept {s' : FileSys} : Intact s' refs → Quiet s s' → (s.mallocs = [] → ∀ i < 16,
      entryInUse (s.slot i) = true → entryName (s.slot i) ≠ name.chars) → Removes s refs name (false, s')
  | gone {s' : FileSys} (w : ℕ) : Intact s' refs → s.nextInode ≤ s'.nextInode → s'.dev = s.dev →
      Gone s s' name w → Removes s refs name (true, s')

section Remove

variable {s : FileSys} {refs : InodePtr → ℤ} {dir : Dir} {p : InodePtr}

/-- **`inode_remove`** of an inode that is not named any more. -/
theorem Intact.inodeRemove (h : Intact s refs) (hp : p ∈ s.openInodes)
    (hremoved : (s.inodes p).sector ∉ s.named ∧ (s.inodes p).sector ≠ freeMapSector ∧
      (s.inodes p).sector ≠ rootDirSector) : Intact (inodeRemove s p) refs := by
  have hsound := (h.modify hp (h.table.held p hp) (i := { s.inodes p with removed := true }) rfl rfl
    (h.table.allowed p hp) (h.table.openCnt p hp) fun _ => hremoved).1
  rwa [update_eq_self] at hsound

theorem inodeRemove_inodes (s : FileSys) (p q : InodePtr) :
    ((inodeRemove s p).inodes q).sector = (s.inodes q).sector ∧
      ((inodeRemove s p).inodes q).removed = ((s.inodes q).removed || q == p) := by
  show (update s.inodes p _ q).sector = _ ∧ (update s.inodes p _ q).removed = _
  by_cases hq : q = p
  · subst hq
    rw [update_self, beq_self_eq_true, Bool.or_true]
    exact ⟨rfl, rfl⟩
  · rw [update_of_ne hq, beq_eq_false_iff_ne.mpr hq, Bool.or_false]
    exact ⟨rfl, rfl⟩

/-- **The write of `dir_remove`**: the entry is freed, if there is memory. -/
theorem RootOpen.write_slot (h : RootOpen s refs dir) {w : ℕ} (hw : w < 16) (e : Buffer) :
    inodeWriteAt s dir.inode e 20 ((20 * w : ℕ) : ℤ) = .ok (if (malloc s.mallocs).1 then 20 else 0,
      if (malloc s.mallocs).1 then s.putSlot w e (malloc s.mallocs).2
      else { s with mallocs := (malloc s.mallocs).2 }) := by
  obtain ⟨hdata, hdev, hallowed⟩ := h.holds
  have hroot := h.sound.root
  have hclip : clip s.root 20 (20 * w) = 20 := by
    unfold clip
    rw [hroot]
    omega
  have hwrite := @inodeWriteAt_eq s dir.inode s.root (20 * w) _ hdata hallowed e 20 (by omega) hdev
    add_clip_le
  rw [hclip, moved_slot.1, moved_slot.2] at hwrite
  rw [hwrite]
  by_cases hm : (malloc s.mallocs).1 = true
  · rw [if_pos hm, if_pos hm]
    rfl
  · rw [if_neg hm, if_neg hm, memcpy_zero]

/-- **`dir_remove`** in the root directory. -/
theorem RootOpen.dirRemove_ends (h : RootOpen s refs dir) (name : CString) :
    Ends (dirRemove s dir name) fun r => RootOpen r.2 refs dir ∧
      (s.mallocs = [] → r.2.mallocs = []) ∧
      ((r.1 = false ∧ Quiet s r.2 ∧ (s.mallocs = [] → ∀ i < 16, entryInUse (s.slot i) = true →
          entryName (s.slot i) ≠ name.chars)) ∨
        (r.1 = true ∧ s.nextInode ≤ r.2.nextInode ∧ r.2.dev = s.dev ∧ ∃ w, Gone s r.2 name w)) := by
  refine (h.lookup_ends name).bind fun ⟨found, s₁⟩ hlook => ?_
  obtain ⟨⟨ms, rfl, hms⟩, hcase⟩ := hlook
  have h₁ : RootOpen { s with mallocs := ms } refs dir := ⟨h.sound.withMallocs ms, h.mem, h.sector⟩
  have hq₁ := Quiet.withMallocs s ms
  rcases hcase with ⟨rfl, habsent⟩ | ⟨e, w, rfl, hw, huse, hname, hsector⟩
  · exact .ok ⟨h₁, hms, .inl ⟨rfl, hq₁, habsent⟩⟩
  have hx : entrySector e ∈ ({ s with mallocs := ms } : FileSys).named := ⟨w, hw, huse, hsector.symm⟩
  refine (h₁.open_named hx).bind fun ⟨inode, s₂⟩ hopen => ?_
  obtain ⟨hq₂, hms₂, hcase⟩ := hopen
  have hq := hq₁.trans hq₂
  rcases hcase with ⟨rfl, hmem, h₂⟩ | ⟨p, rfl, h₂, hp, hpx, hne, -, -⟩
  · exact .ok ⟨h₂, fun h₀ => hms₂ (hms h₀), .inl ⟨rfl, hq, fun h₀ => absurd (hms h₀) hmem⟩⟩
  have hnamed : (s₂.inodes p).sector ∈ s₂.named := by
    rw [hpx, hq₂.named]
    exact hx
  obtain ⟨hmap, hroot⟩ := h₂.sound.special _ hnamed
  refine Ends.step (h₂.write_slot hw (freeEntry e)) ?_
  dsimp only
  have hpos : 0 < refs dir.inode + 1 := by
    have hheld := h.sound.table.held _ h.mem
    rwa [update_self] at hheld
  by_cases hm : (malloc s₂.mallocs).1 = true
  swap
  · -- the entry cannot be written, and the inode is closed again
    rw [if_neg hm, if_neg hm, if_neg (by decide)]
    have h₃ := h₂.sound.withMallocs (malloc s₂.mallocs).2
    rw [update_swap refs hne] at h₃
    obtain ⟨heq, hsound⟩ := h₃.close_kept hp hmap (.inr (.inl hnamed))
    have hq₃ := (Quiet.withMallocs s₂ (malloc s₂.mallocs).2).trans (.closing _ p)
    have hopen : dir.inode ∈ (({ s₂ with mallocs := (malloc s₂.mallocs).2 } : FileSys).closing
        p).openInodes := by
      rw [hsound.table.mem_iff, update_self]
      exact hpos
    refine Ends.step heq (.ok ⟨⟨hsound, hopen, ?_⟩, fun h₀ => ?_, .inl ⟨rfl, hq.trans hq₃,
      fun h₀ => absurd ?_ hm⟩⟩)
    · exact (hq₃.kept.sector _ (h₂.sound.table.fresh _ h₂.mem)).trans h₂.sector
    · rw [hms₂ (hms h₀)]
      rfl
    · rw [hms₂ (hms h₀)]
      rfl
  rw [if_pos hm, if_pos hm, if_pos rfl]
  -- the entry is freed
  have huse₂ : entryInUse (s₂.slot w) = true := by rw [hq.slot]; exact huse
  have hsector₂ : entrySector (s₂.slot w) = (s₂.inodes p).sector := by
    rw [hq.slot, hpx, hsector]
  obtain ⟨hsound₃, hlive₃, hgone⟩ := h₂.sound.freeSlot hw (malloc s₂.mallocs).2
    (@entryInUse_freeEntry e)
  obtain ⟨-, -, hslot₃⟩ := h₂.sound.putSlot_spec hw (freeEntry e) (malloc s₂.mallocs).2
  have hfiles₃ := fun {y : ℕ} => @Intact.putSlot_sameFile s₂ _ w (freeEntry e) h₂.sound hw
    (malloc s₂.mallocs).2 y
  obtain ⟨s₃, hs₃⟩ : ∃ s₃, s₃ = s₂.putSlot w (freeEntry e) (malloc s₂.mallocs).2 := ⟨_, rfl⟩
  have hinodes₃ : s₃.inodes = s₂.inodes := by rw [hs₃]; rfl
  have hopen₃ : s₃.openInodes = s₂.openInodes := by rw [hs₃]; rfl
  rw [← hs₃] at hsound₃ hlive₃ hgone hslot₃ hfiles₃ ⊢
  have hp₃ : p ∈ s₃.openInodes := hopen₃ ▸ hp
  have hsound₄ := hsound₃.inodeRemove hp₃ (by
    rw [hinodes₃]
    exact ⟨hsector₂ ▸ hgone huse₂, hmap, hroot⟩)
  have hself₄ : ((inodeRemove s₃ p).inodes p).sector = (s₂.inodes p).sector := by
    show (update s₃.inodes p _ p).sector = _
    rw [update_self, hinodes₃]
  refine (hsound₄.inodeClose_ends hp₃ (by rw [hself₄]; exact hmap)).bind fun s₅ hs₅ => ?_
  obtain ⟨hsound₅, hdisk₅, hkept₅, hdev₅, hlive₅, hms₅, -⟩ := hs₅
  rw [update_swap refs hne, update_update_sub] at hsound₅
  have hfiles₅ := hsound₄.sameFiles_of_map hdisk₅
  have hslots₅ : SameSlots s₃ s₅ := (hfiles₅ _ (mem_live_root _) (by decide)).slots hsound₃.root
  have hlive₄ : (inodeRemove s₃ p).live ⊆ s₂.live := by
    refine Set.Subset.trans ?_ hlive₃
    rintro y (rfl | rfl | hy | ⟨q, hq₄, rfl⟩)
    · exact mem_live_map s₃
    · exact mem_live_root s₃
    · exact mem_live_named hy
    · rw [(inodeRemove_inodes s₃ p q).1]
      exact mem_live_open hq₄
  have hfresh₅ : ∀ q ∈ s.openInodes, q < (inodeRemove s₃ p).nextInode := by
    intro q hq₀
    rw [show (inodeRemove s₃ p).nextInode = s₂.nextInode by rw [hs₃]; rfl]
    exact (h.sound.table.fresh q hq₀).trans_le hq.kept.nextInode
  have hold₅ : ∀ q ∈ s.openInodes, (s₅.inodes q).sector = (s.inodes q).sector ∧
      (s₅.inodes q).removed = ((s.inodes q).removed || q == p) := by
    intro q hq₀
    have hlt := h.sound.table.fresh q hq₀
    rw [hkept₅.sector q (hfresh₅ q hq₀), hkept₅.removed q (hfresh₅ q hq₀), (inodeRemove_inodes s₃ p q).1,
      (inodeRemove_inodes s₃ p q).2, hinodes₃, hq.kept.sector q hlt, hq.kept.removed q hlt]
    exact ⟨rfl, rfl⟩
  have hdir₅ : dir.inode ∈ s₅.openInodes := by
    rw [hsound₅.table.mem_iff, update_self]
    exact hpos
  refine .ok ⟨⟨hsound₅, hdir₅, (hold₅ _ h.mem).1.trans h.sector⟩, fun h₀ => hms₅ ?_, .inr ⟨rfl, ?_, ?_, w, ?_⟩⟩
  · rw [hs₃]
    rw [hms₂ (hms h₀)]
    rfl
  · refine hq.kept.nextInode.trans (le_trans ?_ hkept₅.nextInode)
    rw [show (inodeRemove s₃ p).nextInode = s₂.nextInode by rw [hs₃]; rfl]
  · rw [hdev₅, show (inodeRemove s₃ p).dev = s₂.dev by rw [hs₃]; rfl, hq.dev]
  have hslot₅ : ∀ i < 16, ∀ o < 20, s₅.slot i o = if i = w then freeEntry e o else s.slot i o := by
    intro i hi o ho
    rw [hslots₅ i hi o ho, hslot₃ i o ho, hq.slot]
  exact
    { slot := hw
      used := huse
      named := hname
      free := by
        rw [(entry_congr fun o ho => (hslot₅ w hw o ho).trans (if_pos rfl)).1]
        exact entryInUse_freeEntry
      others := fun i hi hiw o ho => (hslot₅ i hi o ho).trans (if_neg hiw)
      files := fun y hy hmap hroot => by
        have hy₄ := hlive₅ hy
        have hfile₄ : SameFile s₃ s₅ y := hfiles₅ y hy₄ hmap
        exact ((hq.sameFile y).trans (hfiles₃ (hlive₄ hy₄) hroot)).trans hfile₄
      sector := fun q hq₀ => (hold₅ q hq₀).1
      removed := fun q hq₀ => by
        rw [(hold₅ q hq₀).2]
        congr 1
        -- an open inode in the sector is this one
        rw [Bool.eq_iff_iff, beq_iff_eq, beq_iff_eq]
        have hlt := h.sound.table.fresh q hq₀
        have hsec : (s₂.inodes q).sector = (s.inodes q).sector := hq.kept.sector q hlt
        have hq₂ : q ∈ s₂.openInodes := by
          have hheld := h.sound.table.held q hq₀
          rw [h₂.sound.table.mem_iff, update_swap refs hne]
          by_cases hqp : q = p
          · subst hqp
            rw [update_self]
            omega
          · rw [update_of_ne hqp]
            exact hheld
        constructor
        · rintro rfl
          rw [← hsec, hpx, hsector]
        · intro hx
          refine h₂.sound.table.shared q hq₂ p hp ?_
          rw [hsec, hx, hpx, hsector] }

/-- **`filesys_remove`.** -/
theorem filesysRemove_ends (h : Intact s refs) (hclosed : rootDirSector ∉ s.opened) (name : CString) :
    Ends (filesysRemove s name) fun r =>
      Removes s refs name r ∧ (s.mallocs = [] → r.2.mallocs = []) := by
  refine (h.dirOpenRoot_ends hclosed).bind fun ⟨dir, s₁⟩ hroot => ?_
  obtain ⟨hq, hnone, hsome⟩ := hroot
  cases dir with
  | none =>
    obtain ⟨hsound, hnot⟩ := hnone rfl
    have hmem : s.mallocs ≠ [] := fun h₀ => hnot (h₀ ▸ enough_nil 2)
    exact .ok ⟨.kept hsound hq fun h₀ => absurd h₀ hmem, fun h₀ => absurd h₀ hmem⟩
  | some dir =>
    obtain ⟨hopen, -, -, hms⟩ := hsome dir rfl
    refine (hopen.dirRemove_ends name).bind fun ⟨ok, s₂⟩ hremove => ?_
    obtain ⟨h₂, hms₂, hcase⟩ := hremove
    obtain ⟨heq, hsound⟩ := h₂.close
    have hq₃ := Quiet.closing s₂ dir.inode
    refine Ends.step heq (.ok ⟨?_, fun h₀ => hms₂ (hms h₀)⟩)
    rcases hcase with ⟨rfl, hq₂, habsent⟩ | ⟨rfl, hnext, hdev, w, hgone⟩
    · refine .kept hsound ((hq.trans hq₂).trans hq₃) fun h₀ i hi hui => ?_
      rw [← hq.slot i] at hui ⊢
      exact habsent (hms h₀) i hi hui
    · have hdirmap : (s₂.inodes dir.inode).sector ≠ freeMapSector := by
        rw [h₂.sector]
        decide
      obtain ⟨-, hlive, -⟩ := h₂.sound.closing h₂.mem hdirmap
      -- what was open before the call was open in between
      have hopened : ∀ q ∈ s.openInodes, q ∈ s₁.openInodes ∧ q < s₂.nextInode := by
        intro q hq₀
        have hheld := h.table.held q hq₀
        refine ⟨?_, (h.table.fresh q hq₀).trans_le (hq.kept.nextInode.trans hnext)⟩
        rw [hopen.sound.table.mem_iff]
        by_cases hqd : q = dir.inode
        · subst hqd
          rw [update_self]
          omega
        · rw [update_of_ne hqd]
          exact hheld
      refine .gone w hsound (hq.kept.nextInode.trans hnext) (hdev.trans hq.dev) ?_
      exact
        { slot := hgone.slot
          used := by rw [← hq.slot]; exact hgone.used
          named := by rw [← hq.slot]; exact hgone.named
          free := by rw [hq₃.slot]; exact hgone.free
          others := fun i hi hiw o ho => by
            rw [hq₃.slot, ← hq.slot i]
            exact hgone.others i hi hiw o ho
          files := fun y hy hmap hroot => (hq.sameFile y).trans
            ((hgone.files y (hlive hy) hmap hroot).trans (hq₃.sameFile y))
          sector := fun q hq₀ => by
            obtain ⟨hq₁, hlt⟩ := hopened q hq₀
            rw [hq₃.kept.sector q hlt, hgone.sector q hq₁, hq.kept.sector q (h.table.fresh q hq₀)]
          removed := fun q hq₀ => by
            obtain ⟨hq₁, hlt⟩ := hopened q hq₀
            have hlt₀ := h.table.fresh q hq₀
            rw [hq₃.kept.removed q hlt, hgone.removed q hq₁, hq.kept.removed q hlt₀,
              hq.kept.sector q hlt₀, hq.slot] }

end Remove

end Pintos
