import Pintos.FileSys.Layout

/-!
# Opening and closing inodes

`inode_open` shares an inode that is open already, `inode_close` gives the sectors of a removed
inode back when the last reference goes away. Both keep the invariant, with one reference more or
less. What is released at the last close is reserved at that moment: nothing refers to the inode any
more.

* `Opens`, `inodeOpen_ends` — the outcomes of `inode_open`;
* `Intact.of_opens`, `Intact.closing`, `Intact.inodeClose_ends` — the invariant.
-/

namespace Pintos

open Total Function

/-! ### The table of open inodes -/

/-- Inodes stay what they are: where they are on disk, and whether they are removed. -/
structure SameInodes (s s' : FileSys) : Prop where
  nextInode : s.nextInode ≤ s'.nextInode
  sector : ∀ q < s.nextInode, (s'.inodes q).sector = (s.inodes q).sector
  removed : ∀ q < s.nextInode, (s'.inodes q).removed = (s.inodes q).removed

section InodeTable

variable {s s' s'' : FileSys} {refs refs' : InodePtr → ℤ} {p q : InodePtr} {x : ℕ} {i : Inode}

theorem SameInodes.trans (h : SameInodes s s') (h' : SameInodes s' s'') : SameInodes s s'' :=
  ⟨h.nextInode.trans h'.nextInode,
    fun q hq => (h'.sector q (hq.trans_le h.nextInode)).trans (h.sector q hq),
    fun q hq => (h'.removed q (hq.trans_le h.nextInode)).trans (h.removed q hq)⟩

/-- An update of the number of references. -/
theorem SameInodes.modify (s : FileSys) (p : InodePtr) (i : Inode) (os : List InodePtr)
    (hsector : i.sector = (s.inodes p).sector) (hremoved : i.removed = (s.inodes p).removed) :
    SameInodes s { s with inodes := update s.inodes p i, openInodes := os } := by
  refine ⟨le_rfl, fun q _ => ?_, fun q _ => ?_⟩
  all_goals
    by_cases hq : q = p
    · subst hq
      simp only [update_self, hsector, hremoved]
    · simp only [update_of_ne hq]

theorem sector_update (hsector : i.sector = (s.inodes p).sector) (q : InodePtr) :
    (update s.inodes p i q).sector = (s.inodes q).sector := by
  by_cases hq : q = p
  · subst hq
    rw [update_self, hsector]
  · rw [update_of_ne hq]

/-- An inode is open if there is a reference to it. -/
theorem InodeTable.mem_iff (h : InodeTable s refs) : p ∈ s.openInodes ↔ 0 < refs p := by
  refine ⟨h.held p, fun hpos => ?_⟩
  by_contra hp
  rw [h.free p hp] at hpos
  exact lt_irrefl 0 hpos

/-- An update of one inode that leaves its place on disk alone. -/
theorem InodeTable.modify (h : InodeTable s refs) (hp : p ∈ s.openInodes) {n : ℤ} (hn : 0 < n)
    (hsector : i.sector = (s.inodes p).sector) (hdata : i.data = (s.inodes p).data)
    (hdeny : i.denyWriteCnt = 0) (hcnt : i.openCnt = n) :
    InodeTable { s with inodes := update s.inodes p i } (update refs p n) := by
  have hsectors := sector_update hsector
  refine ⟨h.nodup, h.fresh, fun q hq => ?_, fun q hq => ?_, fun q hq => ?_, fun q hq => ?_,
    fun q hq => ?_, fun q hq r hr hqr => ?_⟩
  · by_cases hqp : q = p
    · subst hqp
      rw [update_self]
      exact hn
    · rw [update_of_ne hqp]
      exact h.held q hq
  · have hqp : q ≠ p := by
      rintro rfl
      exact hq hp
    rw [update_of_ne hqp]
    exact h.free q hq
  · show (update s.inodes p i q).openCnt = _
    by_cases hqp : q = p
    · subst hqp
      rw [update_self, update_self, hcnt]
    · rw [update_of_ne hqp, update_of_ne hqp]
      exact h.openCnt q hq
  · show (update s.inodes p i q).denyWriteCnt = 0
    by_cases hqp : q = p
    · subst hqp
      rw [update_self, hdeny]
    · rw [update_of_ne hqp]
      exact h.allowed q hq
  · show (update s.inodes p i q).data = s.inodeAt (update s.inodes p i q).sector
    rw [hsectors q]
    by_cases hqp : q = p
    · subst hqp
      rw [update_self, hdata]
      exact h.data q hq
    · rw [update_of_ne hqp]
      exact h.data q hq
  · refine h.shared q hq r hr ?_
    rw [← hsectors q, ← hsectors r]
    exact hqr

/-- An inode that nothing refers to any more leaves the table. -/
theorem InodeTable.erase (h : InodeTable s refs) (hp : p ∈ s.openInodes) :
    InodeTable { s with inodes := update s.inodes p i, openInodes := s.openInodes.erase p }
      (update refs p 0) := by
  have hmem : ∀ {q}, q ∈ s.openInodes.erase p ↔ q ≠ p ∧ q ∈ s.openInodes := h.nodup.mem_erase_iff
  have hother : ∀ {q}, q ∈ s.openInodes.erase p → update s.inodes p i q = s.inodes q :=
    fun hq => update_of_ne (hmem.mp hq).1 ..
  refine ⟨h.nodup.erase p, fun q hq => h.fresh q (hmem.mp hq).2, fun q hq => ?_, fun q hq => ?_,
    fun q hq => ?_, fun q hq => ?_, fun q hq => ?_, fun q hq r hr hqr => ?_⟩
  · rw [update_of_ne (hmem.mp hq).1]
    exact h.held q (hmem.mp hq).2
  · by_cases hqp : q = p
    · subst hqp
      exact update_self ..
    · rw [update_of_ne hqp]
      exact h.free q fun hopen => hq (hmem.mpr ⟨hqp, hopen⟩)
  · show (update s.inodes p i q).openCnt = _
    rw [hother hq, update_of_ne (hmem.mp hq).1]
    exact h.openCnt q (hmem.mp hq).2
  · show (update s.inodes p i q).denyWriteCnt = 0
    rw [hother hq]
    exact h.allowed q (hmem.mp hq).2
  · show (update s.inodes p i q).data = s.inodeAt (update s.inodes p i q).sector
    rw [hother hq]
    exact h.data q (hmem.mp hq).2
  · change (update s.inodes p i q).sector = (update s.inodes p i r).sector at hqr
    rw [hother hq, hother hr] at hqr
    exact h.shared q (hmem.mp hq).2 r (hmem.mp hr).2 hqr

/-- The table after an inode has been read from sector `x`. -/
def FileSys.opening (s : FileSys) (x : ℕ) : FileSys :=
  { s with
    inodes := update s.inodes s.nextInode ⟨x, 1, false, 0, s.inodeAt x⟩
    openInodes := s.nextInode :: s.openInodes
    nextInode := s.nextInode + 1
    mallocs := (malloc s.mallocs).2 }

/-- A new inode enters the table. -/
theorem InodeTable.opening (h : InodeTable s refs) (hx : x ∉ s.opened) :
    InodeTable (s.opening x) (update refs s.nextInode 1) := by
  have hnew : s.nextInode ∉ s.openInodes := fun hmem => lt_irrefl _ (h.fresh _ hmem)
  have hne : ∀ {q}, q ∈ s.openInodes → q ≠ s.nextInode := fun hq => ne_of_mem_of_not_mem hq hnew
  have hself : (s.opening x).inodes s.nextInode = ⟨x, 1, false, 0, s.inodeAt x⟩ :=
    update_self ..
  have hother : ∀ {q}, q ∈ s.openInodes → (s.opening x).inodes q = s.inodes q :=
    fun hq => update_of_ne (hne hq) ..
  refine ⟨List.nodup_cons.mpr ⟨hnew, h.nodup⟩, ?_, ?_, fun q hq => ?_, ?_, ?_, ?_, ?_⟩
  · rintro q (_ | ⟨_, hq⟩)
    · exact Nat.lt_succ_self _
    · exact (h.fresh q hq).trans (Nat.lt_succ_self _)
  · rintro q (_ | ⟨_, hq⟩)
    · rw [update_self]
      exact zero_lt_one
    · rw [update_of_ne (hne hq)]
      exact h.held q hq
  · have hq' := List.mem_cons.not.mp hq
    rw [not_or] at hq'
    rw [update_of_ne hq'.1]
    exact h.free q hq'.2
  · rintro q (_ | ⟨_, hq⟩)
    · rw [hself, update_self]
    · rw [hother hq, update_of_ne (hne hq)]
      exact h.openCnt q hq
  · rintro q (_ | ⟨_, hq⟩)
    · rw [hself]
    · rw [hother hq]
      exact h.allowed q hq
  · rintro q (_ | ⟨_, hq⟩)
    · rw [hself]
      rfl
    · rw [hother hq]
      exact h.data q hq
  · rintro q (_ | ⟨_, hq⟩) r (_ | ⟨_, hr⟩) hqr
    · rfl
    · rw [hself, hother hr] at hqr
      exact absurd ⟨r, hr, hqr.symm⟩ hx
    · rw [hself, hother hq] at hqr
      exact absurd ⟨q, hq, hqr⟩ hx
    · rw [hother hq, hother hr] at hqr
      exact h.shared q hq r hr hqr

end InodeTable

/-! ### The invariant, with another table -/

section Intact

variable {s : FileSys} {refs refs' : InodePtr → ℤ} {p : InodePtr} {x : ℕ}

/-- **The table changes** and nothing else does. -/
theorem Intact.retable (h : Intact s refs) {inodes : InodePtr → Inode} {os : List InodePtr}
    {next : InodePtr} {ms : List Bool} (s' : FileSys) (hs' : s' = { s with
      inodes := inodes, openInodes := os, nextInode := next, mallocs := ms })
    (htable : InodeTable s' refs') (hmap : ∀ file, s.freeMapFile = some file →
      file.inode ∈ os ∧ (inodes file.inode).sector = freeMapSector)
    (hremoved : ∀ p ∈ os, (inodes p).removed = true → (inodes p).sector ∉ s.named ∧
      (inodes p).sector ≠ freeMapSector ∧ (inodes p).sector ≠ rootDirSector)
    (hlive : s'.opened ⊆ s.live) : Intact s' refs' ∧ s'.live ⊆ s.live := by
  subst hs'
  obtain ⟨file, hfile, -⟩ := h.mounted.file
  obtain ⟨hmem, hsector⟩ := hmap file hfile
  have hdata : ({ s with inodes := inodes, openInodes := os, nextInode := next, mallocs := ms }
      : FileSys).mapData = s.mapData := by
    rw [h.mapData]
    rw [hfile]
    refine (htable.data _ hmem).trans ?_
    rw [hsector]
    rfl
  have hsub : ({ s with inodes := inodes, openInodes := os, nextInode := next, mallocs := ms }
      : FileSys).live ⊆ s.live := by
    rintro x (rfl | rfl | hx | hx)
    · exact mem_live_map s
    · exact mem_live_root s
    · exact mem_live_named hx
    · exact hlive hx
  refine ⟨⟨⟨h.mounted.bitCnt, h.mounted.fits, ⟨file, hfile, htable.allowed _ hmem⟩, ?_, ?_⟩, hmap,
    h.root, htable, h.once, h.special, hremoved, ?_⟩, hsub⟩
  · rw [hdata]
    exact h.mounted.length
  · rw [hdata]
    exact h.mounted.onDevice
  · exact (h.layout.mono hsub).congr rfl (fun _ _ => rfl) fun x hx y hy =>
      (h.layout.used x (hsub hx) y hy).2

/-- One inode is updated, and stays where it is. -/
theorem Intact.modify (h : Intact s refs) (hp : p ∈ s.openInodes) {i : Inode} {n : ℤ} (hn : 0 < n)
    (hsector : i.sector = (s.inodes p).sector) (hdata : i.data = (s.inodes p).data)
    (hdeny : i.denyWriteCnt = 0) (hcnt : i.openCnt = n)
    (hremoved : i.removed = true → (s.inodes p).sector ∉ s.named ∧
      (s.inodes p).sector ≠ freeMapSector ∧ (s.inodes p).sector ≠ rootDirSector) :
    Intact { s with inodes := update s.inodes p i } (update refs p n) ∧
      ({ s with inodes := update s.inodes p i } : FileSys).opened = s.opened := by
  have hsectors := sector_update hsector
  have hopened : ({ s with inodes := update s.inodes p i } : FileSys).opened = s.opened := by
    refine Set.ext fun x => exists_congr fun q => and_congr_right fun _ => ?_
    rw [hsectors q]
  refine ⟨(h.retable _ rfl (h.table.modify hp hn hsector hdata hdeny hcnt) (fun file hfile => ?_)
    (fun q hq hr => ?_) ?_).1, hopened⟩
  · obtain ⟨hmem, hmap⟩ := h.map file hfile
    exact ⟨hmem, (hsectors _).trans hmap⟩
  · rw [hsectors q]
    by_cases hqp : q = p
    · subst hqp
      rw [update_self] at hr
      exact hremoved hr
    · rw [update_of_ne hqp] at hr
      exact h.removed q hq hr
  · rw [hopened]
    exact fun x hx => .inr (.inr (.inr hx))

/-! ### Opening -/

/-- **What `inode_open` does**: it shares an open inode, or reads one, or there is no memory. -/
inductive Opens (s : FileSys) (x : ℕ) : Option InodePtr × FileSys → Prop where
  | shared (p : InodePtr) : p ∈ s.openInodes → (s.inodes p).sector = x →
      Opens s x (some p, inodeReopen s p)
  | fresh : x ∉ s.opened → (malloc s.mallocs).1 = true → Opens s x (some s.nextInode, s.opening x)
  | failed : x ∉ s.opened → (malloc s.mallocs).1 = false →
      Opens s x (none, { s with mallocs := (malloc s.mallocs).2 })

theorem inodeOpen_ends (hx : x < s.dev.size) : Ends (inodeOpen s x) (Opens s x) := by
  unfold inodeOpen
  split
  · next p hfind =>
    have hsector := List.find?_some hfind
    rw [beq_iff_eq] at hsector
    exact .ok (.shared p (List.mem_of_find?_eq_some hfind) hsector)
  · next hfind =>
    have hclosed : x ∉ s.opened := by
      rintro ⟨p, hp, hsector⟩
      exact absurd (beq_iff_eq.mpr hsector) (List.find?_eq_none.mp hfind p hp)
    cases hm : malloc s.mallocs with
    | mk got ms =>
      have hms : ms = (malloc s.mallocs).2 := by rw [hm]
      cases got with
      | false =>
        subst hms
        exact .ok (.failed hclosed (by rw [hm]))
      | true =>
        subst hms
        refine Ends.step (if_pos hx) (.ok ?_)
        exact .fresh hclosed (by rw [hm])

/-- **`inode_open`** of a live inode keeps the invariant, with one reference more. -/
theorem Intact.of_opens (h : Intact s refs) (hx : x ∈ s.live) {r : Option InodePtr × FileSys}
    (ho : Opens s x r) : (r.1 = none → Intact r.2 refs) ∧ ∀ p, r.1 = some p →
      Intact r.2 (update refs p (refs p + 1)) ∧ p ∈ r.2.openInodes ∧
        (r.2.inodes p).sector = x ∧ SameLayout s r.2 ∧ r.2.disk = s.disk ∧ r.2.freeMap = s.freeMap ∧
        r.2.freeMapFile = s.freeMapFile ∧ SameInodes s r.2 := by
  cases ho with
  | failed hclosed hm => exact ⟨fun _ => h.withMallocs _, fun p hp => nomatch hp⟩
  | shared p hp hsector =>
    refine ⟨fun hnone => (nomatch hnone), fun q hq => ?_⟩
    obtain rfl : p = q := Option.some.inj hq
    have hpos := h.table.held p hp
    obtain ⟨hsound, hopened⟩ := h.modify hp (show 0 < refs p + 1 by omega)
      (i := { s.inodes p with openCnt := (s.inodes p).openCnt + 1 }) rfl rfl (h.table.allowed p hp)
      (by rw [h.table.openCnt p hp]) (h.removed p hp)
    refine ⟨hsound, hp, ?_, ⟨rfl, rfl, ?_, fun _ _ => rfl⟩, rfl, rfl, rfl,
      .modify s p _ s.openInodes rfl rfl⟩
    · show (update s.inodes p _ p).sector = x
      rw [update_self]
      exact hsector
    · show {x | x = freeMapSector ∨ x = rootDirSector ∨ x ∈ s.named ∨ x ∈ (inodeReopen s p).opened}
        = s.live
      rw [show (inodeReopen s p).opened = s.opened from hopened]
      rfl
  | fresh hclosed hm =>
    refine ⟨fun hnone => (nomatch hnone), fun q hq => ?_⟩
    obtain rfl : s.nextInode = q := Option.some.inj hq
    have hnew : s.nextInode ∉ s.openInodes := fun hmem => lt_irrefl _ (h.table.fresh _ hmem)
    have hself : (s.opening x).inodes s.nextInode = ⟨x, 1, false, 0, s.inodeAt x⟩ :=
      update_self ..
    have hother : ∀ {q}, q ∈ s.openInodes → (s.opening x).inodes q = s.inodes q :=
      fun hq => update_of_ne (ne_of_mem_of_not_mem hq hnew) ..
    have hopened : (s.opening x).opened = insert x s.opened := by
      refine Set.ext fun y => ⟨?_, ?_⟩
      · rintro ⟨q, _ | ⟨_, hq⟩, rfl⟩
        · rw [hself]
          exact Set.mem_insert x _
        · rw [hother hq]
          exact Set.mem_insert_of_mem x ⟨q, hq, rfl⟩
      · rintro (rfl | ⟨q, hq, rfl⟩)
        · exact ⟨s.nextInode, List.mem_cons_self, by rw [hself]⟩
        · exact ⟨q, List.mem_cons_of_mem _ hq, by rw [hother hq]⟩
    have hsub : (s.opening x).opened ⊆ s.live := by
      rw [hopened]
      rintro y (rfl | hy)
      · exact hx
      · exact .inr (.inr (.inr hy))
    have htable : InodeTable (s.opening x) (update refs s.nextInode (refs s.nextInode + 1)) := by
      rw [h.table.free _ hnew, zero_add]
      exact h.table.opening hclosed
    have hmap : ∀ file, s.freeMapFile = some file → file.inode ∈ (s.opening x).openInodes ∧
        ((s.opening x).inodes file.inode).sector = freeMapSector := by
      intro file hfile
      obtain ⟨hmem, hmap⟩ := h.map file hfile
      refine ⟨List.mem_cons_of_mem _ hmem, ?_⟩
      rw [hother hmem, hmap]
    have hremoved : ∀ q ∈ (s.opening x).openInodes, ((s.opening x).inodes q).removed = true →
        ((s.opening x).inodes q).sector ∉ s.named ∧
        ((s.opening x).inodes q).sector ≠ freeMapSector ∧
        ((s.opening x).inodes q).sector ≠ rootDirSector := by
      rintro q (_ | ⟨_, hq⟩) hr
      · rw [hself] at hr
        exact absurd hr Bool.false_ne_true
      · rw [hother hq] at hr ⊢
        exact h.removed q hq hr
    obtain ⟨hsound, hlive⟩ := h.retable (s.opening x) rfl htable hmap hremoved hsub
    refine ⟨hsound, List.mem_cons_self, by rw [hself], ⟨rfl, rfl, ?_, fun _ _ => rfl⟩, rfl, rfl, rfl,
      ⟨Nat.le_succ _, fun q hq => ?_, fun q hq => ?_⟩⟩
    · refine hlive.antisymm ?_
      rintro y (rfl | rfl | hy | hy)
      · exact mem_live_map _
      · exact mem_live_root _
      · exact mem_live_named hy
      · exact .inr (.inr (.inr (hopened ▸ Set.mem_insert_of_mem x hy)))
    · exact congrArg Inode.sector (update_of_ne (Nat.ne_of_lt hq) ..)
    · exact congrArg Inode.removed (update_of_ne (Nat.ne_of_lt hq) ..)

/-! ### Closing -/

/-- The table after a reference to `p` has been given up. -/
def FileSys.closing (s : FileSys) (p : InodePtr) : FileSys :=
  { s with
    inodes := update s.inodes p { s.inodes p with openCnt := (s.inodes p).openCnt - 1 }
    openInodes := if (s.inodes p).openCnt - 1 = 0 then s.openInodes.erase p else s.openInodes }

/-- **Closing** keeps the invariant, with one reference less. The free map's file has a reference
of its own. -/
theorem Intact.closing (h : Intact s refs) (hp : p ∈ s.openInodes)
    (hne : (s.inodes p).sector ≠ freeMapSector) :
    Intact (s.closing p) (update refs p (refs p - 1)) ∧ (s.closing p).live ⊆ s.live ∧
      SameInodes s (s.closing p) := by
  have hkept : SameInodes s (s.closing p) := .modify s p _ _ rfl rfl
  have hpos := h.table.held p hp
  have hcnt := h.table.openCnt p hp
  by_cases hlast : (s.inodes p).openCnt - 1 = 0
  · have hmem : ∀ {q}, q ∈ s.openInodes.erase p ↔ q ≠ p ∧ q ∈ s.openInodes :=
      h.table.nodup.mem_erase_iff
    have hs' : s.closing p = { s with
        inodes := update s.inodes p { s.inodes p with openCnt := (s.inodes p).openCnt - 1 }
        openInodes := s.openInodes.erase p } := by
      unfold FileSys.closing
      rw [if_pos hlast]
    have hother : ∀ {q}, q ∈ s.openInodes.erase p → (s.closing p).inodes q = s.inodes q :=
      fun hq => update_of_ne (hmem.mp hq).1 ..
    have htable : InodeTable (s.closing p) (update refs p (refs p - 1)) := by
      rw [show refs p - 1 = 0 by omega, hs']
      exact h.table.erase hp
    have hmap : ∀ file, s.freeMapFile = some file → file.inode ∈ s.openInodes.erase p ∧
        ((s.closing p).inodes file.inode).sector = freeMapSector := by
      intro file hfile
      obtain ⟨hopen, hmap⟩ := h.map file hfile
      have hfp : file.inode ∈ s.openInodes.erase p :=
        hmem.mpr ⟨fun hfp => hne (hfp ▸ hmap), hopen⟩
      exact ⟨hfp, by rw [hother hfp, hmap]⟩
    have hremoved : ∀ q ∈ s.openInodes.erase p, ((s.closing p).inodes q).removed = true →
        ((s.closing p).inodes q).sector ∉ s.named ∧
        ((s.closing p).inodes q).sector ≠ freeMapSector ∧
        ((s.closing p).inodes q).sector ≠ rootDirSector := by
      intro q hq hr
      rw [hother hq] at hr ⊢
      exact h.removed q (hmem.mp hq).2 hr
    have hopened : (s.closing p).opened ⊆ s.live := by
      rintro x ⟨q, hq, rfl⟩
      rw [hs'] at hq
      rw [hother hq]
      exact mem_live_open (hmem.mp hq).2
    obtain ⟨hsound, hlive⟩ := h.retable (s.closing p) hs' htable hmap hremoved hopened
    exact ⟨hsound, hlive, hkept⟩
  · have hs' : s.closing p = { s with
        inodes := update s.inodes p
          { s.inodes p with openCnt := (s.inodes p).openCnt - 1 } } := by
      unfold FileSys.closing
      rw [if_neg hlast]
    obtain ⟨hsound, hopened⟩ := h.modify hp (show 0 < refs p - 1 by omega)
      (i := { s.inodes p with openCnt := (s.inodes p).openCnt - 1 }) rfl rfl (h.table.allowed p hp)
      (by rw [hcnt]) (h.removed p hp)
    rw [← hs'] at hsound hopened
    refine ⟨hsound, ?_, hkept⟩
    rintro x (rfl | rfl | hx | hx)
    · exact mem_live_map s
    · exact mem_live_root s
    · refine mem_live_named ?_
      rwa [hs'] at hx
    · exact .inr (.inr (.inr (hopened ▸ hx)))

/-- An inode that is not removed, or still held, is just closed. -/
theorem inodeClose_eq (hkeep : ¬ ((s.inodes p).openCnt = 1 ∧ (s.inodes p).removed = true)) :
    inodeClose s (some p) = .ok (s.closing p) := by
  unfold inodeClose FileSys.closing
  dsimp only
  by_cases hlast : (s.inodes p).openCnt - 1 = 0
  · rw [if_pos hlast, if_pos hlast]
    simp only [update_self]
    rw [if_neg (fun hr => hkeep ⟨by omega, hr⟩)]
  · rw [if_neg hlast, if_neg hlast]

/-- **`inode_close`.** The sectors of a removed inode that nothing refers to are released, and that
changes the file of the free map only. -/
theorem Intact.inodeClose_ends (h : Intact s refs) (hp : p ∈ s.openInodes)
    (hne : (s.inodes p).sector ≠ freeMapSector) :
    Ends (inodeClose s (some p)) fun s' => Intact s' (update refs p (refs p - 1)) ∧
      DiskSame (s.inodeAt freeMapSector).sectors s.disk s'.disk ∧ SameInodes s s' ∧ s'.dev = s.dev ∧
      s'.live ⊆ s.live ∧
      (s.mallocs = [] → s'.mallocs = []) ∧
      (¬ (refs p = 1 ∧ (s.inodes p).removed = true) → s' = s.closing p) := by
  obtain ⟨hsound, hlive, hkept⟩ := h.closing hp hne
  have hcnt := h.table.openCnt p hp
  by_cases hkeep : (s.inodes p).openCnt = 1 ∧ (s.inodes p).removed = true
  swap
  · rw [inodeClose_eq hkeep]
    exact .ok ⟨hsound, .refl _ _, hkept, rfl, hlive, id, fun _ => rfl⟩
  obtain ⟨hlast, hr⟩ := hkeep
  obtain ⟨hnamed, hmap, hroot⟩ := h.removed p hp hr
  have hs' : s.closing p = { s with
      inodes := update s.inodes p { s.inodes p with openCnt := (s.inodes p).openCnt - 1 }
      openInodes := s.openInodes.erase p } := by
    unfold FileSys.closing
    rw [if_pos (by omega)]
  -- nothing refers to the inode any more
  have hdead : (s.inodes p).sector ∉ (s.closing p).live := by
    rintro (hx | hx | hx | ⟨q, hq, hqp⟩)
    · exact hmap hx
    · exact hroot hx
    · rw [hs'] at hx
      exact hnamed hx
    · rw [hs'] at hq
      obtain ⟨hqne, hopen⟩ := h.table.nodup.mem_erase_iff.mp hq
      rw [show (s.closing p).inodes q = s.inodes q from update_of_ne hqne ..] at hqp
      exact hqne (h.table.shared q hopen p hp hqp)
  have hx : (s.inodes p).sector ∈ s.live := mem_live_open hp
  have hreserved : (s.closing p).Reserved (s.extent (s.inodes p).sector) := by
    intro y hy
    refine ⟨(h.layout.used _ hx y hy).1, (h.layout.used _ hx y hy).2, fun z hz hmem => ?_⟩
    have hzx : (s.inodes p).sector ≠ z := fun hzx => hdead (hzx ▸ hz)
    exact Set.disjoint_left.mp (h.layout.disjoint hx (hlive hz) hzx) hy hmem
  have hdata : ((s.closing p).inodes p).data = s.inodeAt (s.inodes p).sector := by
    show (update s.inodes p _ p).data = _
    rw [update_self]
    exact h.table.data p hp
  obtain ⟨x, hxp⟩ : ∃ x, x = (s.inodes p).sector := ⟨_, rfl⟩
  rw [← hxp] at hreserved hx hdata hne
  have hcode : inodeClose s (some p) = (do
      let s₁ ← freeMapRelease (s.closing p) x 1
      freeMapRelease s₁ (s₁.inodes p).data.start (bytesToSectors (s₁.inodes p).data.length)) := by
    unfold inodeClose
    dsimp only
    rw [if_pos (by omega)]
    simp only [update_self]
    rw [if_pos hr, hs', hxp]
  rw [hcode]
  have hsingle : ∀ {y}, y ∈ Set.Ico x (x + 1) → y = x := fun hy => by
    have h₁ := hy.1
    have h₂ := hy.2
    omega
  have hlt : x + 1 ≤ s.dev.size := (h.layout.used x hx x (mem_extent_self s x)).1
  have hone : (s.closing p).Reserved (Set.Ico x (x + 1)) := hreserved.mono fun y hy => by
    rw [hsingle hy]
    exact mem_extent_self s x
  refine (hsound.release hlt hone).bind fun s₁ hs₁ => ?_
  obtain ⟨⟨map₁, -, rfl⟩, hsound₁, hlayout₁, -, hres₁⟩ := hs₁
  have hdata₁ : (((s.closing p).store map₁).inodes p).data = s.inodeAt x := hdata
  rw [hdata₁]
  -- the data does not hold the inode, so it is still reserved
  have hrest : ((s.closing p).store map₁).Reserved (s.inodeAt x).sectors := by
    refine hres₁ _ (hreserved.mono fun y hy => mem_extent_of_sectors hy) ?_
    refine Set.disjoint_left.mpr fun y hy hmem => h.layout.apart x hx ?_
    rwa [hsingle hmem] at hy
  have hle := h.layout.fits x hx
  refine (hsound₁.release hle hrest).mono fun s₂ hs₂ => ?_
  obtain ⟨⟨map₂, -, rfl⟩, hsound₂, hlayout₂, -, -⟩ := hs₂
  refine ⟨hsound₂, ?_, hkept.trans ⟨le_rfl, fun _ _ => rfl, fun _ _ => rfl⟩, rfl, ?_, fun hnil => ?_, ?_⟩
  · refine (hsound.store_same map₁).trans ?_
    have hsame := hsound₁.store_same map₂
    rwa [hlayout₁.inodeAt _ (mem_live_map _)] at hsame
  · rw [hlayout₂.live, hlayout₁.live]
    exact hlive
  · exact store_mallocs (store_mallocs hnil)
  · intro hnot
    exact absurd ⟨by omega, hr⟩ hnot

end Intact

end Pintos
