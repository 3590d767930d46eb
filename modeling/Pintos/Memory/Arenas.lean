import Pintos.Foundation.Extents
import Pintos.Memory.Malloc

/-!
# Live blocks, free blocks and arenas

`Layout s live` says how the store and the set of live blocks fit together: the arenas tile the
pages that `palloc` has handed out, every live block is a block of an arena, and the free list of a
descriptor holds the blocks of its arenas that are not live, each counted in the header of its
arena. Every change `malloc.c` makes is one of six, and each keeps the layout:

* `Layout.take`, `Layout.give` — a block leaves a free list or comes back to one;
* `Layout.grow`, `Layout.shrink` — a small arena is made or given back;
* `Layout.growBig`, `Layout.shrinkBig` — the same for a big block.

`malloc_ends` and `free_ends` put them together: under the contract, no assertion fails. The
property of all sessions is `blocks_apart`.
-/

namespace Pintos.Malloc

open Total Transition Extents Function List

/-- The number of pages of an arena. -/
def Arena.pages (a : Arena) : ℕ :=
  match a.desc with
  | some _ => 1
  | none => a.freeCnt

/-- `block_size`: the number of bytes of a block of the arena. -/
def Arena.blockSize (a : Arena) : ℕ :=
  match a.desc with
  | some d => d.blockSize
  | none => 4096 * a.freeCnt - 12

/-- The blocks of the arena on page `p`. -/
def Arena.blocks (a : Arena) (p : ℕ) : List ℕ :=
  match a.desc with
  | some d => slots d p
  | none => [p * 4096 + 12]

/-- The descriptor of the arena on page `p`. -/
def Store.descAt (s : Store) (p : ℕ) : Option DescPtr := (s.arenas p).bind Arena.desc

/-- The number of bytes of the block `b`. -/
def Store.blockSize (s : Store) (b : ℕ) : ℕ := ((s.arenas (b / 4096)).map Arena.blockSize).getD 0

/-- How the headers, the free lists and the live blocks fit together. -/
structure Layout (s : Store) (live : Finset ℕ) : Prop where
  tiles : Tiles Arena.pages s.arenas s.held
  zero : 0 ∉ s.held
  nodup : ∀ d, (s.freeList d).Nodup
  listed : ∀ {d b}, b ∈ s.freeList d ↔
    s.descAt (b / 4096) = some d ∧ b ∈ slots d (b / 4096) ∧ b ∉ live
  counted : ∀ {p d c}, s.arenas p = some ⟨some d, c⟩ →
    (s.freeList d).countP (fun b => b / 4096 = p) = c
  owned : ∀ {b}, b ∈ live → ∃ a, s.arenas (b / 4096) = some a ∧ b ∈ a.blocks (b / 4096)
  big : ∀ {p n}, s.arenas p = some ⟨none, n⟩ → p * 4096 + 12 ∈ live

/-- Every small arena has a block in use. -/
def Slack (s : Store) : Prop := ∀ {p d c}, s.arenas p = some ⟨some d, c⟩ → c < d.blocksPerArena

variable {s : Store} {live live' : Finset ℕ} {d e : DescPtr} {p q b c n : ℕ} {a : Arena} {l : List ℕ}

theorem div_of_mem_blocks (hb : b ∈ a.blocks p) : b / 4096 = p := by
  unfold Arena.blocks at hb
  split at hb
  · exact div_of_mem_slots hb
  · simp only [mem_singleton] at hb
    omega

theorem descAt_eq_some_iff : s.descAt p = some d ↔ ∃ c, s.arenas p = some ⟨some d, c⟩ := by
  unfold Store.descAt
  rw [Option.bind_eq_some_iff]
  constructor
  · rintro ⟨⟨_, c⟩, ha, rfl⟩
    exact ⟨c, ha⟩
  · rintro ⟨c, ha⟩
    exact ⟨_, ha, rfl⟩

theorem descAt_of_arenas (ha : s.arenas p = some ⟨some d, c⟩) : s.descAt p = some d :=
  descAt_eq_some_iff.mpr ⟨c, ha⟩

theorem blockSize_of_arenas (ha : s.arenas (b / 4096) = some a) : s.blockSize b = a.blockSize := by
  simp [Store.blockSize, ha]

theorem blockSize_congr {s' : Store} (h : s'.arenas (b / 4096) = s.arenas (b / 4096)) :
    s'.blockSize b = s.blockSize b := by
  simp [Store.blockSize, h]

/-- A new count in a header leaves the sizes of the blocks. -/
theorem blockSize_recount (ha : s.arenas p = some ⟨some d, c⟩) :
    ((s.setFree d l).setArena p ⟨some d, n⟩).blockSize b = s.blockSize b := by
  by_cases hb : b / 4096 = p
  · simp [Store.blockSize, Store.setArena, hb, ha, Arena.blockSize]
  · exact blockSize_congr (by simp [Store.setArena, Store.setFree, update_of_ne hb])

namespace Layout

theorem arena_pos (h : Layout s live) (ha : s.arenas p = some a) : 0 < p := by
  refine Nat.pos_of_ne_zero ?_
  rintro rfl
  exact h.zero (h.tiles.start_mem ha)

theorem page_mem_of_live (h : Layout s live) (hb : b ∈ live) : b / 4096 ∈ s.held := by
  obtain ⟨a, ha, -⟩ := h.owned hb
  exact h.tiles.start_mem ha

theorem page_mem_of_free (h : Layout s live) (hb : b ∈ s.freeList d) : b / 4096 ∈ s.held := by
  obtain ⟨c, ha⟩ := descAt_eq_some_iff.mp (h.listed.mp hb).1
  exact h.tiles.start_mem ha

/-- Of a small arena at most all blocks are free, and if as many are, then all are. -/
theorem count_le (h : Layout s live) (ha : s.arenas p = some ⟨some d, c⟩) :
    c ≤ d.blocksPerArena ∧ (c = d.blocksPerArena → slots d p ⊆ s.freeList d) := by
  have hsub : ((s.freeList d).filter fun b => b / 4096 = p) ⊆ slots d p := by
    intro b hb
    obtain ⟨hb, hp⟩ := mem_filter.mp hb
    have hp : b / 4096 = p := by simpa using hp
    exact hp ▸ (h.listed.mp hb).2.1
  have hperm := ((h.nodup d).filter _).subperm hsub
  have hcount : ((s.freeList d).filter fun b => b / 4096 = p).length = c := by
    rw [← countP_eq_length_filter]
    exact h.counted ha
  constructor
  · calc c = _ := hcount.symm
      _ ≤ (slots d p).length := hperm.length_le
      _ = d.blocksPerArena := length_slots
  · intro hc b hb
    have hall := hperm.perm_of_length_le (by rw [length_slots, hcount, hc])
    exact (mem_filter.mp (hall.symm.subset hb)).1

/-- The blocks of one small arena change hands: the free list of its descriptor becomes `l`, its
counter follows, and everything else stays. -/
theorem recount (h : Layout s live) (ha : s.arenas p = some ⟨some d, c⟩) (hnodup : l.Nodup)
    (hl : ∀ b, b ∈ l ↔ s.descAt (b / 4096) = some d ∧ b ∈ slots d (b / 4096) ∧ b ∉ live')
    (hlive : ∀ b, b ∉ slots d p → (b ∈ live' ↔ b ∈ live))
    (hcount : ∀ q, q ≠ p →
      l.countP (fun b => b / 4096 = q) = (s.freeList d).countP fun b => b / 4096 = q)
    (hc : l.countP (fun b => b / 4096 = p) = n) :
    Layout ((s.setFree d l).setArena p ⟨some d, n⟩) live' := by
  have hdesc : ∀ q, ((s.setFree d l).setArena p ⟨some d, n⟩).descAt q = s.descAt q := by
    intro q
    by_cases hq : q = p
    · subst hq
      rw [descAt_of_arenas ha]
      exact descAt_of_arenas (update_self ..)
    · simp [Store.descAt, Store.setArena, Store.setFree, update_of_ne hq]
  have hother : ∀ {q a'}, q ≠ p → ((s.setFree d l).setArena p ⟨some d, n⟩).arenas q = some a' →
      s.arenas q = some a' := by
    intro q a' hq hq'
    simpa [Store.setArena, Store.setFree, update_of_ne hq] using hq'
  refine ⟨h.tiles.replace ha rfl, h.zero, fun e => ?_, fun {e b} => ?_, fun {q e c'} hq => ?_,
    fun {b} hb => ?_, fun {q m} hq => ?_⟩
  · by_cases he : e = d
    · subst he
      simpa [Store.setArena, Store.setFree] using hnodup
    · simpa [Store.setArena, Store.setFree, update_of_ne he] using h.nodup e
  · rw [hdesc]
    by_cases he : e = d
    · subst he
      simpa [Store.setArena, Store.setFree] using hl b
    · have hfree : ((s.setFree d l).setArena p ⟨some d, n⟩).freeList e = s.freeList e := by
        simp [Store.setArena, Store.setFree, update_of_ne he]
      rw [hfree, h.listed]
      -- A block of another descriptor lies on another page.
      refine and_congr_right fun hde => and_congr_right fun _ => not_congr (hlive b fun hin => ?_).symm
      rw [div_of_mem_slots hin, descAt_of_arenas ha] at hde
      exact he (Option.some.inj hde).symm
  · by_cases hqp : q = p
    · subst hqp
      have hsame : some (⟨some d, n⟩ : Arena) = some ⟨some e, c'⟩ := by
        simpa [Store.setArena] using hq
      cases hsame
      simpa [Store.setArena, Store.setFree] using hc
    · have hold := h.counted (hother hqp hq)
      by_cases he : e = d
      · subst he
        simpa [Store.setArena, Store.setFree, ← hcount q hqp] using hold
      · simpa [Store.setArena, Store.setFree, update_of_ne he] using hold
  · by_cases hin : b ∈ slots d p
    · have hpage := div_of_mem_slots hin
      exact ⟨⟨some d, n⟩, by simp [Store.setArena, hpage], by simpa [Arena.blocks, hpage] using hin⟩
    · obtain ⟨a', ha', hblocks⟩ := h.owned ((hlive b hin).mp hb)
      have hpage : b / 4096 ≠ p := by
        intro hpage
        rw [hpage, ha] at ha'
        cases ha'
        exact hin (hpage ▸ hblocks)
      exact ⟨a', by simpa [Store.setArena, Store.setFree, update_of_ne hpage] using ha', hblocks⟩
  · have hqp : q ≠ p := by
      rintro rfl
      simp [Store.setArena] at hq
    refine (hlive _ fun hin => hqp ?_).mpr (h.big (hother hqp hq))
    have := div_of_mem_slots hin
    omega

/-- A block is taken from the front of a free list. -/
theorem take (h : Layout s live) {rest : List ℕ} (hl : s.freeList d = b :: rest) :
    ∃ c, s.arenas (b / 4096) = some ⟨some d, c + 1⟩ ∧ b ∈ slots d (b / 4096) ∧ b ∉ live ∧
      Layout ((s.setFree d rest).setArena (b / 4096) ⟨some d, c⟩) (insert b live) := by
  obtain ⟨hdesc, hslot, hnot⟩ := h.listed.mp (hl ▸ mem_cons_self : b ∈ s.freeList d)
  obtain ⟨c, ha⟩ := descAt_eq_some_iff.mp hdesc
  have hcount := h.counted ha
  have hnodup := h.nodup d
  rw [hl, countP_cons_of_pos (by simp)] at hcount
  rw [hl] at hnodup
  obtain ⟨hb, hrest⟩ := nodup_cons.mp hnodup
  refine ⟨rest.countP fun x => x / 4096 = b / 4096, hcount ▸ ha, hslot, hnot,
    h.recount ha hrest (fun x => ?_) (fun x hx => ?_) (fun q hq => ?_) rfl⟩
  · -- The rest of the list is the list without `b`.
    have hmem : x ∈ rest ↔ x ∈ s.freeList d ∧ x ≠ b := by
      rw [hl, mem_cons]
      constructor
      · exact fun hx => ⟨.inr hx, fun hxb => hb (hxb ▸ hx)⟩
      · exact fun hx => hx.1.resolve_left hx.2
    rw [hmem, h.listed, Finset.mem_insert]
    tauto
  · have hxb : x ≠ b := by
      rintro rfl
      exact hx hslot
    simp [hxb]
  · have hne : ¬ decide (b / 4096 = q) = true := by
      simp only [decide_eq_true_eq]
      exact Ne.symm hq
    rw [hl, countP_cons, if_neg hne, Nat.add_zero]

/-- A live block of a small arena comes back to the front of its free list. -/
theorem give (h : Layout s live) (hb : b ∈ live) (ha : s.arenas (b / 4096) = some ⟨some d, c⟩) :
    Layout ((s.setFree d (b :: s.freeList d)).setArena (b / 4096) ⟨some d, c + 1⟩)
      (live.erase b) := by
  have hslot : b ∈ slots d (b / 4096) := by
    obtain ⟨a', ha', hblocks⟩ := h.owned hb
    rw [ha] at ha'
    cases ha'
    exact hblocks
  refine h.recount ha (nodup_cons.mpr ⟨fun hin => (h.listed.mp hin).2.2 hb, h.nodup d⟩)
    (fun x => ?_) (fun x hx => ?_) (fun q hq => ?_) ?_
  · rw [mem_cons, h.listed, Finset.mem_erase]
    constructor
    · rintro (rfl | ⟨hd, hs, hx⟩)
      · exact ⟨descAt_of_arenas ha, hslot, fun hx => hx.1 rfl⟩
      · exact ⟨hd, hs, fun hx' => hx hx'.2⟩
    · rintro ⟨hd, hs, hx⟩
      by_cases hxb : x = b
      · exact .inl hxb
      · exact .inr ⟨hd, hs, fun hx' => hx ⟨hxb, hx'⟩⟩
  · have hxb : x ≠ b := by
      rintro rfl
      exact hx hslot
    simp [hxb]
  · have hne : ¬ decide (b / 4096 = q) = true := by
      simp only [decide_eq_true_eq]
      exact Ne.symm hq
    rw [countP_cons, if_neg hne, Nat.add_zero]
  · rw [countP_cons_of_pos (by simp), h.counted ha]

/-- A page becomes a small arena with all blocks free. -/
theorem grow (h : Layout s live) (hp : 0 < p) (hfree : p ∉ s.held) :
    Layout (((s.obtain p 1).setArena p ⟨some d, d.blocksPerArena⟩).setFree d
      (s.freeList d ++ slots d p)) live := by
  have hlive : ∀ b ∈ live, b / 4096 ≠ p := fun b hb hbp => hfree (hbp ▸ h.page_mem_of_live hb)
  have hlist : ∀ e, ∀ b ∈ s.freeList e, b / 4096 ≠ p :=
    fun e b hb hbp => hfree (hbp ▸ h.page_mem_of_free hb)
  have hnone : s.arenas p = none := by
    by_contra hsome
    obtain ⟨a, ha⟩ := Option.ne_none_iff_exists'.mp hsome
    exact hfree (h.tiles.start_mem ha)
  obtain ⟨s', hs'⟩ : ∃ s', s' = ((s.obtain p 1).setArena p ⟨some d, d.blocksPerArena⟩).setFree d
      (s.freeList d ++ slots d p) := ⟨_, rfl⟩
  have hself : s'.arenas p = some ⟨some d, d.blocksPerArena⟩ := by simp [hs', Store.setFree, Store.setArena]
  have hother : ∀ q, q ≠ p → s'.arenas q = s.arenas q := by
    intro q hq
    simp [hs', Store.setFree, Store.setArena, Store.obtain, update_of_ne hq]
  have hfd : s'.freeList d = s.freeList d ++ slots d p := by simp [hs', Store.setFree]
  have hfe : ∀ e, e ≠ d → s'.freeList e = s.freeList e := by
    intro e he
    simp [hs', Store.setFree, Store.setArena, Store.obtain, update_of_ne he]
  have hcell : ∀ q, p ≤ q → q < p + 1 → q ∉ s.held := by
    intro q hlo hhi
    rwa [show q = p by omega]
  have hpos : 0 < Arena.pages ⟨some d, d.blocksPerArena⟩ := Nat.one_pos
  rw [← hs']
  refine ⟨hs' ▸ h.tiles.place hpos hcell, ?_, fun e => ?_,
    fun {e b} => ?_, fun {q e c} hq => ?_, fun {b} hb => ?_, fun {q m} hq => ?_⟩
  · rw [hs']
    simp only [Store.setFree, Store.setArena, Store.obtain, Finset.mem_union, Finset.mem_Ico, not_or]
    exact ⟨h.zero, by omega⟩
  · by_cases he : e = d
    · subst he
      rw [hfd]
      refine (h.nodup e).append nodup_slots fun b hb hin => hlist e b hb (div_of_mem_slots hin)
    · exact hfe e he ▸ h.nodup e
  · by_cases hbp : b / 4096 = p
    · -- On the new page, the list holds exactly the new blocks.
      have hdesc : s'.descAt (b / 4096) = some d := hbp ▸ descAt_of_arenas hself
      have hnot : b ∉ live := fun hb => hlive b hb hbp
      rw [hdesc]
      by_cases he : e = d
      · subst he
        have hold : b ∉ s.freeList e := fun hb => hlist e b hb hbp
        simp [hfd, hold, hbp, hnot]
      · have hold : b ∉ s.freeList e := fun hb => hlist e b hb hbp
        simp [hfe e he, hold, Ne.symm he]
    · have hdesc : s'.descAt (b / 4096) = s.descAt (b / 4096) := by
        rw [Store.descAt, hother _ hbp, Store.descAt]
      rw [hdesc, ← h.listed]
      by_cases he : e = d
      · subst he
        have hnew : b ∉ slots e p := fun hin => hbp (div_of_mem_slots hin)
        simp [hfd, hnew]
      · rw [hfe e he]
  · by_cases hqp : q = p
    · subst hqp
      rw [hself] at hq
      cases hq
      have hzero : (s.freeList d).countP (fun b => b / 4096 = q) = 0 := by
        rw [countP_eq_zero]
        exact fun b hb => by simpa using hlist d b hb
      have hall : (slots d q).countP (fun b => b / 4096 = q) = (slots d q).length := by
        rw [countP_eq_length]
        exact fun b hb => by simpa using div_of_mem_slots hb
      rw [hfd, countP_append, hzero, hall, length_slots, Nat.zero_add]
    · rw [hother q hqp] at hq
      by_cases he : e = d
      · subst he
        have hzero : (slots e p).countP (fun b => b / 4096 = q) = 0 := by
          rw [countP_eq_zero]
          intro b hb
          have := div_of_mem_slots hb
          simp only [decide_eq_true_eq]
          omega
        rw [hfd, countP_append, h.counted hq, hzero, Nat.add_zero]
      · rw [hfe e he, h.counted hq]
  · rw [hother _ (hlive b hb)]
    exact h.owned hb
  · have hqp : q ≠ p := by
      rintro rfl
      rw [hself] at hq
      cases hq
    exact h.big (hother q hqp ▸ hq)

/-- A small arena without live blocks is given back, and its blocks leave the free list. -/
theorem shrink (h : Layout s live) (ha : s.arenas p = some ⟨some d, c⟩)
    (hdead : ∀ b ∈ slots d p, b ∉ live) :
    Layout ((s.setFree d ((s.freeList d).diff (slots d p))).release p 1) live := by
  obtain ⟨s', hs'⟩ : ∃ s', s' = (s.setFree d ((s.freeList d).diff (slots d p))).release p 1 :=
    ⟨_, rfl⟩
  have hself : s'.arenas p = none := by simp [hs', Store.release]
  have hother : ∀ q, q ≠ p → s'.arenas q = s.arenas q := by
    intro q hq
    rw [hs']
    exact if_neg (by omega)
  have hfd : s'.freeList d = (s.freeList d).diff (slots d p) := by
    simp [hs', Store.release, Store.setFree]
  have hfe : ∀ e, e ≠ d → s'.freeList e = s.freeList e := by
    intro e he
    simp [hs', Store.release, Store.setFree, update_of_ne he]
  have hlive : ∀ b ∈ live, b / 4096 ≠ p := by
    intro b hb hbp
    obtain ⟨a', ha', hblocks⟩ := h.owned hb
    rw [hbp] at ha' hblocks
    rw [ha] at ha'
    cases ha'
    exact hdead b hblocks hb
  -- On the page of the arena, the list held the blocks of the arena only.
  have hpage : ∀ b, b ∈ s.freeList d → b / 4096 = p → b ∈ slots d p :=
    fun b hb hbp => hbp ▸ (h.listed.mp hb).2.1
  rw [← hs']
  refine ⟨hs' ▸ h.tiles.lift ha, ?_, fun e => ?_, fun {e b} => ?_, fun {q e c'} hq => ?_,
    fun {b} hb => ?_, fun {q m} hq => ?_⟩
  · rw [hs']
    exact fun h0 => h.zero (Finset.mem_sdiff.mp h0).1
  · by_cases he : e = d
    · subst he
      exact hfd ▸ (h.nodup e).diff
    · exact hfe e he ▸ h.nodup e
  · by_cases hbp : b / 4096 = p
    · have hdesc : s'.descAt (b / 4096) = none := by simp [Store.descAt, hbp, hself]
      rw [hdesc]
      by_cases he : e = d
      · subst he
        have hgone : b ∈ s.freeList e → b ∈ slots e p := fun hb => hpage b hb hbp
        simpa [hfd, (h.nodup e).mem_sdiff_iff] using hgone
      · have hgone : b ∉ s.freeList e := by
          intro hb
          have hde := (h.listed.mp hb).1
          rw [hbp, descAt_of_arenas ha] at hde
          exact he (Option.some.inj hde).symm
        simp [hfe e he, hgone]
    · have hdesc : s'.descAt (b / 4096) = s.descAt (b / 4096) := by
        rw [Store.descAt, hother _ hbp, Store.descAt]
      rw [hdesc, ← h.listed]
      by_cases he : e = d
      · subst he
        have hout : b ∉ slots e p := fun hin => hbp (div_of_mem_slots hin)
        simp [hfd, (h.nodup e).mem_sdiff_iff, hout]
      · rw [hfe e he]
  · have hqp : q ≠ p := by
      rintro rfl
      simp [hself] at hq
    rw [hother q hqp] at hq
    by_cases he : e = d
    · subst he
      rw [hfd, (h.nodup e).sdiff_eq_filter, countP_filter, ← h.counted hq]
      refine countP_congr fun b _ => ?_
      simp only [Bool.and_eq_true, decide_eq_true_eq, and_iff_left_iff_imp]
      intro hbq hin
      exact hqp (hbq ▸ div_of_mem_slots hin)
    · rw [hfe e he, h.counted hq]
  · rw [hother _ (hlive b hb)]
    exact h.owned hb
  · have hqp : q ≠ p := by
      rintro rfl
      simp [hself] at hq
    exact h.big (hother q hqp ▸ hq)

/-- A group of pages becomes a big block. -/
theorem growBig (h : Layout s live) (hp : 0 < p) (hn : 0 < n)
    (hfree : ∀ q, p ≤ q → q < p + n → q ∉ s.held) :
    Layout ((s.obtain p n).setArena p ⟨none, n⟩) (insert (p * 4096 + 12) live) := by
  have hpheld : p ∉ s.held := hfree p le_rfl (by omega)
  have hother : ∀ q, q ≠ p → ((s.obtain p n).setArena p ⟨none, n⟩).arenas q = s.arenas q := by
    intro q hq
    simp [Store.setArena, Store.obtain, update_of_ne hq]
  have hself : ((s.obtain p n).setArena p ⟨none, n⟩).arenas p = some ⟨none, n⟩ := by
    simp [Store.setArena]
  have hpage : (p * 4096 + 12) / 4096 = p := by omega
  refine ⟨h.tiles.place (show 0 < Arena.pages ⟨none, n⟩ from hn) hfree, ?_, h.nodup,
    fun {e b} => ?_, fun {q e c'} hq => ?_, fun {b} hb => ?_, fun {q m} hq => ?_⟩
  · simp only [Store.setArena, Store.obtain, Finset.mem_union, Finset.mem_Ico, not_or]
    exact ⟨h.zero, by omega⟩
  · have hlist : ((s.obtain p n).setArena p ⟨none, n⟩).freeList e = s.freeList e := rfl
    rw [hlist]
    by_cases hbp : b / 4096 = p
    · have hdesc : ((s.obtain p n).setArena p ⟨none, n⟩).descAt (b / 4096) = none := by
        simp [Store.descAt, hbp, hself]
      have hold : b ∉ s.freeList e := fun hb => hpheld (hbp ▸ h.page_mem_of_free hb)
      simp [hdesc, hold]
    · have hdesc : ((s.obtain p n).setArena p ⟨none, n⟩).descAt (b / 4096) = s.descAt (b / 4096) := by
        rw [Store.descAt, hother _ hbp, Store.descAt]
      have hne : b ≠ p * 4096 + 12 := by
        rintro rfl
        exact hbp hpage
      rw [hdesc, h.listed, Finset.mem_insert, or_iff_right hne]
  · have hqp : q ≠ p := by
      rintro rfl
      simp [hself] at hq
    exact h.counted (hother q hqp ▸ hq)
  · obtain rfl | hb := Finset.mem_insert.mp hb
    · rw [hpage]
      exact ⟨_, hself, by simp [Arena.blocks]⟩
    · rw [hother _ fun hbp => hpheld (hbp ▸ h.page_mem_of_live hb)]
      exact h.owned hb
  · by_cases hqp : q = p
    · exact hqp ▸ Finset.mem_insert_self ..
    · exact Finset.mem_insert_of_mem (h.big (hother q hqp ▸ hq))

/-- A big block is given back. -/
theorem shrinkBig (h : Layout s live) (ha : s.arenas p = some ⟨none, n⟩) :
    Layout (s.release p n) (live.erase (p * 4096 + 12)) := by
  have hpos : 0 < n := h.tiles.pos ha
  have hother : ∀ q a', s.arenas q = some a' → q ≠ p → (s.release p n).arenas q = some a' := by
    intro q a' hq hqp
    have hout : ¬ (p ≤ q ∧ q < p + n) := by
      rintro ⟨hlo, hhi⟩
      have hnone := h.tiles.apart ha (by omega) hhi
      simp [hq] at hnone
    simp [Store.release, hout, hq]
  have hold : ∀ q a', (s.release p n).arenas q = some a' → q ≠ p ∧ s.arenas q = some a' := by
    intro q a' hq
    simp only [Store.release] at hq
    split at hq
    · exact nomatch hq
    · exact ⟨by omega, hq⟩
  have hpage : (p * 4096 + 12) / 4096 = p := by omega
  refine ⟨h.tiles.lift ha, fun h0 => h.zero (Finset.mem_sdiff.mp h0).1, h.nodup, fun {e b} => ?_,
    fun {q e c'} hq => h.counted (hold _ _ hq).2, fun {b} hb => ?_, fun {q m} hq => ?_⟩
  · have hlist : (s.release p n).freeList e = s.freeList e := rfl
    rw [hlist, h.listed, descAt_eq_some_iff, descAt_eq_some_iff, Finset.mem_erase]
    constructor
    · rintro ⟨⟨c', hc'⟩, hslot, hnot⟩
      have hbp : b / 4096 ≠ p := by
        rintro rfl
        rw [ha] at hc'
        exact nomatch hc'
      exact ⟨⟨c', hother _ _ hc' hbp⟩, hslot, fun hb => hnot hb.2⟩
    · rintro ⟨⟨c', hc'⟩, hslot, hnot⟩
      obtain ⟨hbp, hc'⟩ := hold _ _ hc'
      refine ⟨⟨c', hc'⟩, hslot, fun hb => hnot ⟨?_, hb⟩⟩
      rintro rfl
      exact hbp hpage
  · obtain ⟨hne, hb⟩ := Finset.mem_erase.mp hb
    obtain ⟨a', ha', hblocks⟩ := h.owned hb
    refine ⟨a', hother _ _ ha' fun hbp => hne ?_, hblocks⟩
    rw [hbp, ha] at ha'
    cases ha'
    rw [hbp] at hblocks
    simpa [Arena.blocks] using hblocks
  · obtain ⟨hqp, hq⟩ := hold _ _ hq
    exact Finset.mem_erase.mpr ⟨by omega, h.big hq⟩

end Layout

/-! ### `malloc` and `free` keep the layout -/

/-- What a call that returns the block `b` achieves: it is a new block, and the blocks that were
live before keep their size. -/
structure Handed (s : Store) (live : Finset ℕ) (s' : Store) (b : ℕ) : Prop where
  fresh : b ∉ live
  layout : Layout s' (insert b live)
  slack : Slack s'
  size : ∀ x ∈ live, s'.blockSize x = s.blockSize x

/-- Taking a block leaves slack, if every other arena has some. -/
theorem takeBlock_ends (h : Layout s live)
    (hslack : ∀ {p e c}, s.arenas p = some ⟨some e, c⟩ →
      c < e.blocksPerArena ∨ ∃ b rest, s.freeList d = b :: rest ∧ b / 4096 = p)
    (hne : s.freeList d ≠ []) :
    Ends (takeBlock s d) fun r => ∃ b, r.1 = some b ∧ r.2.blockSize b = d.blockSize ∧
      Handed s live r.2 b := by
  obtain ⟨b, rest, hl⟩ := exists_cons_of_ne_nil hne
  obtain ⟨c, ha, hslot, hfresh, hlayout⟩ := h.take hl
  have hc := (h.count_le ha).1
  have hle := blocksPerArena_le d
  have hcount : (c + 1 + 2 ^ 32 - 1) % 2 ^ 32 = c := by omega
  have hself : ((s.setFree d rest).setArena (b / 4096) ⟨some d, c⟩).arenas (b / 4096) =
      some ⟨some d, c⟩ := by simp [Store.setArena]
  have hother : ∀ q, q ≠ b / 4096 →
      ((s.setFree d rest).setArena (b / 4096) ⟨some d, c⟩).arenas q = s.arenas q := by
    intro q hq
    simp [Store.setArena, Store.setFree, update_of_ne hq]
  have htake : takeBlock s d =
      .ok (some b, (s.setFree d rest).setArena (b / 4096) ⟨some d, c⟩) := by
    rw [takeBlock, hl]
    refine (bind_of_eq_ok (blockToArena_of_mem_slots (h.arena_pos ha) ha hslot) _).trans ?_
    simp only [hcount]
  refine ⟨_, htake, b, rfl, ?_, hfresh, hlayout, fun {p e c'} hp => ?_,
    fun x _ => blockSize_recount ha⟩
  · exact blockSize_of_arenas hself
  · by_cases hpb : p = b / 4096
    · subst hpb
      rw [hself] at hp
      cases hp
      omega
    · rw [hother p hpb] at hp
      obtain hlt | ⟨b', rest', hl', hb'⟩ := hslack hp
      · exact hlt
      · rw [hl] at hl'
        cases hl'
        exact absurd hb'.symm hpb

/-- The page count of a big request is exact unless the sum with the header wraps around. -/
theorem le_blockSize_big {size : ℕ} (hsize : size ≤ 2 ^ 32 - 12) (hpages : 0 < pageCount size) :
    size ≤ 4096 * pageCount size - 12 := by
  unfold pageCount at *
  omega

/-- **`malloc`.** Either nothing happens and a null pointer is returned, or a new block is, with
enough bytes for every size that is not just below `2 ^ 32`. -/
theorem malloc_ends {size : ℕ} {answer : Option ℕ} (h : Layout s live) (hslack : Slack s)
    (hgrant : Granted s size answer) :
    Ends (malloc s size answer) fun r => r = (none, s) ∨
      ∃ b, r.1 = some b ∧ (size ≤ 2 ^ 32 - 12 → size ≤ r.2.blockSize b) ∧ Handed s live r.2 b := by
  unfold malloc
  by_cases hzero : size = 0
  · rw [if_pos hzero]
    exact .ok (.inl rfl)
  rw [if_neg hzero]
  cases hfind : findDesc size with
  | none =>
    simp only [mallocBig]
    cases hanswer : pallocGetMultiple (pageCount size) answer with
    | none => exact .ok (.inl rfl)
    | some p =>
      -- The page allocator never answers a request for no pages.
      unfold pallocGetMultiple at hanswer
      split at hanswer
      · exact nomatch hanswer
      next hcount =>
        have hwanted : pagesWanted size = pageCount size := by simp [pagesWanted, hfind]
        obtain ⟨hp, -, hfree⟩ := hgrant p hanswer
        rw [hwanted] at hfree
        have hpage : (p * 4096 + 12) / 4096 = p := by omega
        have hpheld : p ∉ s.held := hfree p le_rfl (by omega)
        refine .ok (.inr ⟨_, rfl, fun hsize => ?_, fun hin => ?_, h.growBig hp (by omega) hfree,
          fun {q e c} hq => ?_, fun x hx => ?_⟩)
        · rw [blockSize_of_arenas (show _ = some ⟨none, pageCount size⟩ by simp [Store.setArena, hpage])]
          exact le_blockSize_big hsize (by omega)
        · exact hpheld (hpage ▸ h.page_mem_of_live hin)
        · have hqp : q ≠ p := by
            rintro rfl
            simp [Store.setArena] at hq
          exact hslack (by simpa [Store.setArena, Store.obtain, update_of_ne hqp] using hq)
        · have hxp : x / 4096 ≠ p := fun hxp => hpheld (hxp ▸ h.page_mem_of_live hx)
          exact blockSize_congr (by simp [Store.setArena, Store.obtain, update_of_ne hxp])
  | some d =>
    have hsize := le_blockSize_of_findDesc hfind
    by_cases hempty : s.freeList d = []
    · simp only [if_pos hempty, pallocGetMultiple, Nat.one_ne_zero, if_false]
      cases hanswer : answer with
      | none => exact .ok (.inl rfl)
      | some p =>
        obtain ⟨hp, -, hfree⟩ := hgrant p hanswer
        have hpheld : p ∉ s.held := hfree p le_rfl (by simp [pagesWanted, hfind])
        refine Ends.step (newArena_eq hp) ?_
        have hgrown := h.grow (d := d) hp hpheld
        rw [hempty, nil_append] at hgrown ⊢
        -- The new arena is the one the block comes from.
        have hhead : ∃ b rest, slots d p = b :: rest ∧ b / 4096 = p := by
          cases hslots : slots d p with
          | nil =>
            have hlen := length_slots (d := d) (p := p)
            have hpos := blocksPerArena_pos d
            rw [hslots, length_nil] at hlen
            omega
          | cons b rest =>
            exact ⟨b, rest, rfl, div_of_mem_slots (hslots ▸ mem_cons_self)⟩
        have hlist : (((s.obtain p 1).setArena p ⟨some d, d.blocksPerArena⟩).setFree d
            (slots d p)).freeList d = slots d p := by simp [Store.setFree]
        have hother : ∀ q, q ≠ p → (((s.obtain p 1).setArena p ⟨some d, d.blocksPerArena⟩).setFree d
            (slots d p)).arenas q = s.arenas q := by
          intro q hq
          simp [Store.setFree, Store.setArena, Store.obtain, update_of_ne hq]
        refine (takeBlock_ends hgrown (fun {q e c} hq => ?_) ?_).mono ?_
        · by_cases hqp : q = p
          · rw [hlist, hqp]
            exact .inr hhead
          · exact .inl (hslack (hother q hqp ▸ hq))
        · obtain ⟨b, rest, hslots, -⟩ := hhead
          rw [hlist, hslots]
          exact cons_ne_nil b rest
        · rintro r ⟨b, hr, hspan, hhanded⟩
          refine .inr ⟨b, hr, fun _ => hspan ▸ hsize, hhanded.fresh, hhanded.layout, hhanded.slack,
            fun x hx => ?_⟩
          have hxp : x / 4096 ≠ p := fun hxp => hpheld (hxp ▸ h.page_mem_of_live hx)
          rw [hhanded.size x hx]
          exact blockSize_congr (hother _ hxp)
    · simp only [if_neg hempty]
      refine (takeBlock_ends h (fun hp => .inl (hslack hp)) hempty).mono ?_
      rintro r ⟨b, hr, hspan, hhanded⟩
      exact .inr ⟨b, hr, fun _ => hspan ▸ hsize, hhanded⟩

/-- **`free`.** A live block is freed, and the other live blocks keep their size. -/
theorem free_ends (h : Layout s live) (hslack : Slack s) (hb : b ∈ live) :
    Ends (free s b) fun s' => Layout s' (live.erase b) ∧ Slack s' ∧
      ∀ x ∈ live.erase b, s'.blockSize x = s.blockSize x := by
  obtain ⟨⟨desc, c⟩, ha, hblock⟩ := h.owned hb
  have hp := h.arena_pos ha
  have hb0 : b ≠ 0 := by omega
  rw [free, if_neg hb0]
  cases desc with
  | none =>
    -- A big block.
    have hofs : b = b / 4096 * 4096 + 12 := by simpa [Arena.blocks] using hblock
    have hfind : blockToArena s b = .ok ⟨none, c⟩ := by
      rw [blockToArena, if_neg (by omega), ha]
      exact if_pos (by omega)
    have hc : 0 < c := h.tiles.pos ha
    have hsub : Finset.Ico (b / 4096) (b / 4096 + c) ⊆ s.held := by
      intro q hq
      obtain ⟨hlo, hhi⟩ := Finset.mem_Ico.mp hq
      exact h.tiles.mem ha hlo hhi
    have hfree : pallocFreeMultiple s (b / 4096) c = .ok (s.release (b / 4096) c) := by
      rw [pallocFreeMultiple, if_neg (by omega), if_pos hsub]
    refine Ends.step hfind ⟨_, hfree, ?_, fun {q e c'} hq => ?_, fun x hx => ?_⟩
    · have hgone := h.shrinkBig ha
      rwa [← hofs] at hgone
    · simp only [Store.release] at hq
      split at hq
      · exact nomatch hq
      · exact hslack hq
    · obtain ⟨hne, hx⟩ := Finset.mem_erase.mp hx
      obtain ⟨a', ha', hblocks⟩ := h.owned hx
      have hout : ¬ (b / 4096 ≤ x / 4096 ∧ x / 4096 < b / 4096 + c) := by
        intro hin
        have heq := h.tiles.eq_of_mem ha ha' hin ⟨le_rfl, by have := h.tiles.pos ha'; omega⟩
        rw [← heq, ha] at ha'
        cases ha'
        rw [← heq] at hblocks
        exact hne ((mem_singleton.mp hblocks).trans hofs.symm)
      exact blockSize_congr (if_neg hout)
  | some d =>
    have hfind := blockToArena_of_mem_slots hp ha hblock
    have hgiven := h.give hb ha
    have hself : ((s.setFree d (b :: s.freeList d)).setArena (b / 4096) ⟨some d, c + 1⟩).arenas
        (b / 4096) = some ⟨some d, c + 1⟩ := by simp [Store.setArena]
    have hother : ∀ q, q ≠ b / 4096 →
        ((s.setFree d (b :: s.freeList d)).setArena (b / 4096) ⟨some d, c + 1⟩).arenas q =
          s.arenas q := by
      intro q hq
      simp [Store.setArena, Store.setFree, update_of_ne hq]
    obtain ⟨hle, hall⟩ := hgiven.count_le hself
    have hmax := blocksPerArena_le d
    have hcount : (c + 1) % 2 ^ 32 = c + 1 := Nat.mod_eq_of_lt (by omega)
    refine Ends.step hfind ?_
    simp only [freeNormal, hcount]
    by_cases hfull : d.blocksPerArena ≤ c + 1
    · -- The arena is entirely unused.
      have hsub := hall (by omega)
      rw [if_pos hfull, if_pos (by omega), bind_of_eq_ok (clearArena_eq hp hself hsub)]
      have hdead : ∀ x ∈ slots d (b / 4096), x ∉ live.erase b := fun x hx =>
        (hgiven.listed.mp (hsub hx)).2.2
      have hheld : Finset.Ico (b / 4096) (b / 4096 + 1) ⊆ s.held := by
        intro q hq
        obtain ⟨hlo, hhi⟩ := Finset.mem_Ico.mp hq
        exact h.tiles.mem ha hlo hhi
      have hgone := hgiven.shrink hself hdead
      refine ⟨_, (if_neg (by omega)).trans (if_pos hheld), hgone, fun {q e c'} hq => ?_,
        fun x hx => ?_⟩
      · simp only [Store.release] at hq
        split at hq
        · exact nomatch hq
        next hout => exact hslack (hother q (by omega) ▸ hq)
      · refine Eq.trans (blockSize_congr (if_neg fun hin => ?_)) (blockSize_recount ha)
        obtain ⟨a', ha', hblocks⟩ := hgiven.owned hx
        have hxb : x / 4096 = b / 4096 := by omega
        rw [hxb, hself] at ha'
        cases ha'
        exact hdead x (hxb ▸ hblocks) hx
    · rw [if_neg hfull]
      refine .ok ⟨hgiven, fun {q e c'} hq => ?_, fun x _ => blockSize_recount ha⟩
      by_cases hqb : q = b / 4096
      · subst hqb
        rw [hself] at hq
        cases hq
        omega
      · exact hslack (hother q hqb ▸ hq)

end Pintos.Malloc
