import Pintos.Memory.Arenas

/-!
# What callers of `malloc` may rely on

* `Sound` — the invariant of a session: the layout, a block in use in every small arena, and blocks
  that are as long as was asked for;
* `step_ends` — every allowed call returns and keeps it;
* `blocks_apart` — live blocks never overlap, free lists and counters are exact, and nothing leaks;
* `malloc_block_size`, `calloc_rejects` — which sizes are served with too short a block, and which
  products `calloc` takes although they do not fit into a `size_t`.
-/

namespace Pintos.Malloc

open Total Transition Extents

/-- The invariant of a session. -/
structure Sound (s : Session) : Prop where
  layout : Layout s.store s.live
  slack : Slack s.store
  served : ∀ b ∈ s.live, s.request b ≤ 2 ^ 32 - 12 → s.request b ≤ s.store.blockSize b

theorem sound_boot : Sound boot where
  layout :=
    { tiles := tiles_empty
      zero := Finset.notMem_empty _
      nodup := fun _ => List.nodup_nil
      listed := by simp [boot, Store.descAt]
      counted := fun h => nomatch h
      owned := fun h => absurd h (Finset.notMem_empty _)
      big := fun h => nomatch h }
  slack := fun h => nomatch h
  served := fun _ h => absurd h (Finset.notMem_empty _)

/-- **Step lemma.** An allowed call returns and keeps the invariant, and a request that is on record
afterwards was on record before or has just been made. -/
theorem step_ends {s : Session} {call : Call} (h : Sound s) (hcall : Allowed s call) :
    Ends (step s call) fun s' => Sound s' ∧ ∀ b ∈ s'.live,
      (b ∈ s.live ∧ s'.request b = s.request b) ∨
        ∃ size answer, call = .malloc size answer ∧ s'.request b = size := by
  cases call with
  | malloc size answer =>
    refine (malloc_ends h.layout h.slack hcall.2).bind fun r hr => ?_
    obtain rfl | ⟨b, hb, hsize, hhanded⟩ := hr
    · exact .ok ⟨h, fun b hb => .inl ⟨hb, rfl⟩⟩
    · rw [hb]
      refine .ok ⟨⟨hhanded.layout, hhanded.slack, fun x hx => ?_⟩, fun x hx => ?_⟩
      · by_cases hxb : x = b
        · subst hxb
          simpa using hsize
        · have hx : x ∈ s.live := Finset.mem_of_mem_insert_of_ne hx hxb
          simpa [Function.update_of_ne hxb, hhanded.size x hx] using h.served x hx
      · by_cases hxb : x = b
        · subst hxb
          exact .inr ⟨size, answer, rfl, Function.update_self ..⟩
        · exact .inl ⟨Finset.mem_of_mem_insert_of_ne hx hxb, Function.update_of_ne hxb ..⟩
  | free b =>
    refine (free_ends h.layout h.slack hcall).bind fun store hstore => .ok ⟨?_, fun x hx => ?_⟩
    · obtain ⟨hlayout, hslack, hsize⟩ := hstore
      exact ⟨hlayout, hslack, fun x hx => hsize x hx ▸ h.served x (Finset.mem_of_mem_erase hx)⟩
    · exact .inl ⟨Finset.mem_of_mem_erase hx, rfl⟩

/-- **Run lemma.** -/
theorem sound_of_run {h : List (Session × Call)} {s : Session} (hrun : Run step Allowed boot h s) :
    Sound s :=
  hrun.invariant sound_boot fun _ _ _ hs hcall hstep => ((step_ends hs hcall).of_eq hstep).1

/-! ### Blocks, as ranges of addresses -/

/-- The bytes of a block. -/
def Store.bytes (s : Store) (b : ℕ) : Finset ℕ := Finset.Ico b (b + s.blockSize b)

/-- The bytes of the header of the arena on page `p`. -/
def headerBytes (p : ℕ) : Finset ℕ := Finset.Ico (p * 4096) (p * 4096 + 12)

/-- The bytes of the pages of an arena. -/
def arenaBytes (p : ℕ) (a : Arena) : Finset ℕ := Finset.Ico (p * 4096) ((p + a.pages) * 4096)

section

variable {s : Store} {live : Finset ℕ} {p q b b' : ℕ} {a a' : Arena}

/-- A block lies behind the header of its arena. -/
theorem block_range (hpages : 0 < a.pages) (hb : b ∈ a.blocks p) :
    p * 4096 + 12 ≤ b ∧ b + a.blockSize ≤ (p + a.pages) * 4096 := by
  obtain ⟨desc, c⟩ := a
  cases desc with
  | none =>
    simp only [Arena.blocks, Arena.pages, Arena.blockSize, List.mem_singleton] at *
    omega
  | some d =>
    obtain ⟨i, hi, rfl⟩ := mem_slots.mp hb
    have hend : slot d p i + d.blockSize ≤ p * 4096 + 4096 := slot_end_le hi
    simp only [Arena.pages, Arena.blockSize]
    unfold slot at *
    omega

/-- Two blocks of an arena do not overlap. -/
theorem blocks_separate (hb : b ∈ a.blocks p) (hb' : b' ∈ a.blocks p) (hlt : b < b') :
    b + a.blockSize ≤ b' := by
  obtain ⟨desc, c⟩ := a
  cases desc with
  | none =>
    simp only [Arena.blocks, List.mem_singleton] at hb hb'
    omega
  | some d =>
    obtain ⟨i, hi, rfl⟩ := mem_slots.mp hb
    obtain ⟨j, hj, rfl⟩ := mem_slots.mp hb'
    refine slot_add_le ?_
    by_contra hji
    obtain rfl | hji := Nat.eq_or_lt_of_not_lt hji
    · omega
    · have : slot d p j + d.blockSize ≤ slot d p i := slot_add_le hji
      omega

theorem Layout.bytes_range (h : Layout s live) (ha : s.arenas p = some a) (hb : b ∈ a.blocks p) :
    b / 4096 = p ∧ s.bytes b = Finset.Ico b (b + a.blockSize) ∧ p * 4096 + 12 ≤ b ∧
      b + a.blockSize ≤ (p + a.pages) * 4096 := by
  have hpage := div_of_mem_blocks hb
  refine ⟨hpage, ?_, block_range (h.tiles.pos ha) hb⟩
  rw [Store.bytes, blockSize_of_arenas (hpage.symm ▸ ha)]

/-- **Live blocks do not overlap.** -/
theorem Layout.disjoint_bytes (h : Layout s live) (hb : b ∈ live) (hb' : b' ∈ live) (hlt : b < b') :
    Disjoint (s.bytes b) (s.bytes b') := by
  obtain ⟨a, ha, hin⟩ := h.owned hb
  obtain ⟨a', ha', hin'⟩ := h.owned hb'
  obtain ⟨-, hbytes, -, hend⟩ := h.bytes_range ha hin
  obtain ⟨-, hbytes', hstart', -⟩ := h.bytes_range ha' hin'
  have hsep : b + a.blockSize ≤ b' := by
    by_cases hpage : b / 4096 = b' / 4096
    · rw [← hpage] at ha' hin'
      rw [ha] at ha'
      cases ha'
      exact blocks_separate hin hin' hlt
    · -- In two arenas, one ends before the other starts.
      have hle := h.tiles.add_width_le ha ha' (by omega)
      have hmul := Nat.mul_le_mul_right 4096 hle
      omega
  rw [hbytes, hbytes', Finset.disjoint_left]
  intro x hx hx'
  simp only [Finset.mem_Ico] at hx hx'
  omega

/-- **Blocks do not overlap headers.** -/
theorem Layout.disjoint_header (h : Layout s live) (hb : b ∈ live) (ha : s.arenas p = some a) :
    Disjoint (s.bytes b) (headerBytes p) := by
  obtain ⟨a', ha', hin⟩ := h.owned hb
  obtain ⟨-, hbytes, hstart, hend⟩ := h.bytes_range ha' hin
  have hsep : p * 4096 + 12 ≤ b ∨ b + a'.blockSize ≤ p * 4096 := by
    obtain hle | hgt := le_or_gt p (b / 4096)
    · left
      calc p * 4096 + 12 ≤ b / 4096 * 4096 + 12 := by gcongr
        _ ≤ b := hstart
    · right
      calc b + a'.blockSize ≤ (b / 4096 + a'.pages) * 4096 := hend
        _ ≤ p * 4096 := Nat.mul_le_mul_right 4096 (h.tiles.add_width_le ha' ha hgt)
  rw [hbytes, headerBytes, Finset.disjoint_left]
  intro x hx hx'
  simp only [Finset.mem_Ico] at hx hx'
  omega

/-- Without live blocks, no page is held: a small arena has a block in use, and a big one is. -/
theorem Layout.held_eq_empty (h : Layout s ∅) (hslack : Slack s) : s.held = ∅ := by
  rw [Finset.eq_empty_iff_forall_notMem]
  intro q hq
  obtain ⟨p, ⟨desc, c⟩, ha, -, -⟩ := h.tiles.covered hq
  cases desc with
  | none => exact absurd (h.big ha) (Finset.notMem_empty _)
  | some d =>
    have hall : slots d p ⊆ s.freeList d := by
      intro b hb
      have hpage := div_of_mem_slots hb
      exact h.listed.mpr ⟨hpage ▸ descAt_of_arenas ha, hpage.symm ▸ hb, Finset.notMem_empty _⟩
    have hcount : (slots d p).length ≤ (s.freeList d).countP fun b => b / 4096 = p := by
      rw [List.countP_eq_length_filter]
      refine (nodup_slots.subperm fun b hb => List.mem_filter.mpr ⟨hall hb, ?_⟩).length_le
      simpa using div_of_mem_slots hb
    rw [h.counted ha, length_slots] at hcount
    exact absurd (hslack ha) (by omega)

end

/-! ### Whole sessions -/

/-- The contract, with sizes that are at least two pages away from `2 ^ 32`. -/
def Moderate (s : Session) (call : Call) : Prop :=
  Allowed s call ∧ ∀ size answer, call = .malloc size answer → size ≤ 2 ^ 32 - 1 - 8192

/-- What holds between two calls. -/
structure Tidy (s : Session) : Prop where
  disjoint : ∀ b ∈ s.live, ∀ b' ∈ s.live, b ≠ b' → Disjoint (s.store.bytes b) (s.store.bytes b')
  headers : ∀ b ∈ s.live, ∀ p a, s.store.arenas p = some a →
    Disjoint (s.store.bytes b) (headerBytes p)
  inside : ∀ b ∈ s.live, s.request b ≤ s.store.blockSize b ∧ ∃ p a, s.store.arenas p = some a ∧
    s.store.bytes b ⊆ arenaBytes p a ∧ Finset.Ico p (p + a.pages) ⊆ s.store.held
  counts : ∀ p d c, s.store.arenas p = some ⟨some d, c⟩ →
    (s.store.freeList d).countP (· ∈ slots d p) = c ∧ c < d.blocksPerArena
  lists : ∀ d, (s.store.freeList d).Nodup ∧ ∀ b, b ∈ s.store.freeList d ↔
    (∃ p c, s.store.arenas p = some ⟨some d, c⟩ ∧ b ∈ slots d p) ∧ b ∉ s.live
  returned : s.live = ∅ → s.store.held = ∅

theorem Layout.mem_freeList_iff {s : Store} {live : Finset ℕ} (h : Layout s live) {d : DescPtr}
    {b : ℕ} : b ∈ s.freeList d ↔
      (∃ p c, s.arenas p = some ⟨some d, c⟩ ∧ b ∈ slots d p) ∧ b ∉ live := by
  rw [h.listed, descAt_eq_some_iff, ← and_assoc]
  refine and_congr_left fun _ => ⟨fun ⟨⟨c, ha⟩, hb⟩ => ⟨_, c, ha, hb⟩, ?_⟩
  rintro ⟨p, c, ha, hb⟩
  have hpage := div_of_mem_slots hb
  rw [hpage]
  exact ⟨⟨c, ha⟩, hb⟩

theorem Sound.tidy {s : Session} (h : Sound s) (hmoderate : ∀ b ∈ s.live, s.request b ≤ 2 ^ 32 - 12) :
    Tidy s where
  disjoint b hb b' hb' hne := by
    obtain hlt | hgt := Nat.lt_or_gt_of_ne hne
    · exact h.layout.disjoint_bytes hb hb' hlt
    · exact (h.layout.disjoint_bytes hb' hb hgt).symm
  headers b hb p a ha := h.layout.disjoint_header hb ha
  inside b hb := by
    obtain ⟨a, ha, hin⟩ := h.layout.owned hb
    obtain ⟨-, hbytes, hstart, hend⟩ := h.layout.bytes_range ha hin
    refine ⟨h.served b hb (hmoderate b hb), _, a, ha, ?_, fun q hq => ?_⟩
    · rw [hbytes]
      exact Finset.Ico_subset_Ico (le_trans (Nat.le_add_right _ _) hstart) hend
    · obtain ⟨hlo, hhi⟩ := Finset.mem_Ico.mp hq
      exact h.layout.tiles.mem ha hlo hhi
  counts p d c ha := by
    refine ⟨?_, h.slack ha⟩
    rw [← h.layout.counted ha]
    refine List.countP_congr fun b hb => ?_
    simp only [decide_eq_true_eq]
    exact ⟨div_of_mem_slots, fun hpage => hpage ▸ (h.layout.listed.mp hb).2.1⟩
  lists d := ⟨h.layout.nodup d, fun _ => h.layout.mem_freeList_iff⟩
  returned hlive := (hlive ▸ h.layout).held_eq_empty h.slack

/-- With moderate sizes, all requests on record are moderate. -/
theorem request_le_of_run {h : List (Session × Call)} {s : Session}
    (hrun : Run step Moderate boot h s) : ∀ b ∈ s.live, s.request b ≤ 2 ^ 32 - 12 := by
  induction hrun with
  | refl => exact fun b hb => absurd hb (Finset.notMem_empty b)
  | @tail _ s s' call hrun hcall hstep ih =>
    have hsound := sound_of_run (hrun.mono fun _ _ hcall => hcall.1)
    intro b hb
    obtain ⟨hold, heq⟩ | ⟨size, answer, rfl, heq⟩ := ((step_ends hsound hcall.1).of_eq hstep).2 b hb
    · exact heq ▸ ih b hold
    · have := hcall.2 size answer rfl
      omega

/-- **Blocks never overlap, and everything comes back.** In every session of `malloc` and `free`
with sizes up to `2 ^ 32 - 1 - 8192`, whenever the page allocator fails: between two calls the
session is tidy, the next call does not fail an assertion, and a null pointer leaves all as it
was. -/
theorem blocks_apart {h : List (Session × Call)} {s : Session} (hrun : Run step Moderate boot h s) :
    Tidy s ∧ (∀ call, Moderate s call → ∃ s', step s call = .ok s') ∧
      ∀ size answer s', Moderate s (.malloc size answer) →
        malloc s.store size answer = .ok (none, s') → s' = s.store := by
  have hsound := sound_of_run (hrun.mono fun _ _ hcall => hcall.1)
  refine ⟨hsound.tidy (request_le_of_run hrun), fun call hcall => ?_, fun size answer s' hcall hnull => ?_⟩
  · obtain ⟨s', hs', -⟩ := step_ends hsound hcall.1
    exact ⟨s', hs'⟩
  · obtain hr | ⟨b, hb, -⟩ := (malloc_ends hsound.layout hsound.slack hcall.1.2).of_eq hnull
    · exact (Prod.mk.inj hr).2
    · cases hb

/-- A request the page allocator fails, and one it serves. -/
theorem blocks_apart_two : ∃ h s, Run step Moderate boot h s ∧ s.live = {3 * 4096 + 12} ∧ Tidy s := by
  have hfail : Moderate boot (.malloc 100 none) := by
    refine ⟨⟨by decide, fun p hp => nomatch hp⟩, fun size answer hcall => ?_⟩
    cases hcall
    decide
  have hserve : Moderate boot (.malloc 5000 (some 3)) := by
    refine ⟨⟨by decide, fun p hp => ?_⟩, fun size answer hcall => ?_⟩
    · cases hp
      exact ⟨by decide, by decide, fun q _ _ => Finset.notMem_empty q⟩
    · cases hcall
      decide
  have hnull : step boot (.malloc 100 none) = .ok boot := rfl
  have hrun : Run step Moderate boot _ _ := .tail (.tail .refl hfail hnull) hserve rfl
  exact ⟨_, _, hrun, rfl, (blocks_apart hrun).1⟩

/-! ### Sizes -/

/-- `size` bytes are reserved for the block `b`, in a block of its arena. -/
def Spans (s : Store) (b size : ℕ) : Prop :=
  ∃ a, s.arenas (b / 4096) = some a ∧ b ∈ a.blocks (b / 4096) ∧ size ≤ a.blockSize

theorem pageCount_eq_zero_iff {size : ℕ} (h : size < 2 ^ 32) :
    pageCount size = 0 ↔ 2 ^ 32 - 4107 ≤ size ∧ size ≤ 2 ^ 32 - 12 := by
  unfold pageCount
  omega

/-- Just below `2 ^ 32` a single page is taken. -/
theorem pageCount_eq_one {size : ℕ} (h : size < 2 ^ 32) (hwrap : 2 ^ 32 - 12 < size) :
    pageCount size = 1 := by
  unfold pageCount
  omega

/-- When the page allocator has all pages, it grants every request. -/
theorem granted_boot {size : ℕ} : Granted boot.store size (some 1) := by
  rintro p hp
  cases hp
  refine ⟨Nat.one_pos, ?_, fun q _ _ => Finset.notMem_empty q⟩
  unfold pagesWanted
  split
  · unfold pageCount
    omega
  · omega

theorem takeBlock_ne_null {s s' : Store} {d : DescPtr} : takeBlock s d ≠ .ok (none, s') := by
  unfold takeBlock
  split
  · nofun
  · intro h
    cases hb : blockToArena s _ with
    | error e =>
      rw [hb] at h
      cases h
    | ok a =>
      rw [hb] at h
      cases h

/-- With pages to be had, a request fails only if it asks for none. -/
theorem malloc_ne_null {s s' : Store} {size p : ℕ} (hsize : size ≠ 0) (hpages : pageCount size ≠ 0) :
    malloc s size (some p) ≠ .ok (none, s') := by
  unfold malloc
  rw [if_neg hsize]
  cases findDesc size with
  | none => simp [mallocBig, pallocGetMultiple, hpages]
  | some d =>
    by_cases hempty : s.freeList d = []
    · simp only [if_pos hempty, pallocGetMultiple, Nat.one_ne_zero, if_false]
      intro h
      cases hnew : newArena s d p with
      | error e =>
        rw [hnew] at h
        cases h
      | ok t =>
        rw [hnew] at h
        exact takeBlock_ne_null h
    · simp only [if_neg hempty]
      exact takeBlock_ne_null

/-- **`malloc` honours the size up to `2 ^ 32 - 12`, and no further.** The sum of a larger size and
the header wraps around, and a single page is taken. -/
theorem malloc_block_size {size : ℕ} (hpos : 1 ≤ size) (hlt : size < 2 ^ 32) :
    (∀ h s answer b s', Run step Allowed boot h s → Granted s.store size answer →
      malloc s.store size answer = .ok (some b, s') → Spans s' b size) ↔ size ≤ 2 ^ 32 - 12 := by
  constructor
  · intro hall
    by_contra hwrap
    have hone := pageCount_eq_one hlt (by omega)
    have hfind : findDesc size = none := findDesc_eq_none_iff.mpr (by omega)
    have hmalloc : malloc boot.store size (some 1) =
        .ok (some (1 * 4096 + 12), (boot.store.obtain 1 1).setArena 1 ⟨none, 1⟩) := by
      rw [malloc, if_neg (by omega), hfind]
      simp only [mallocBig, pallocGetMultiple, hone, Nat.one_ne_zero, if_false]
    obtain ⟨a, ha, -, hle⟩ := hall [] boot (some 1) _ _ .refl granted_boot hmalloc
    have hsame : a = ⟨none, 1⟩ := by simpa [Store.setArena] using ha.symm
    rw [hsame] at hle
    simp only [Arena.blockSize] at hle
    omega
  · intro hsize h s answer b s' hrun hgrant hmalloc
    have hsound := sound_of_run hrun
    obtain hr | ⟨b', hb', hspan, hhanded⟩ :=
      (malloc_ends hsound.layout hsound.slack hgrant).of_eq hmalloc
    · cases hr
    · cases hb'
      obtain ⟨a, ha, hblock⟩ := hhanded.layout.owned (Finset.mem_insert_self ..)
      exact ⟨a, ha, hblock, blockSize_of_arenas ha ▸ hspan hsize⟩

theorem malloc_block_size_page : ∃ b s', malloc boot.store 4096 (some 1) = .ok (some b, s') ∧
    Spans s' b 4096 :=
  ⟨_, _, rfl, (malloc_block_size (by decide) (by decide)).mpr (by decide) [] boot (some 1) _ _ .refl
    granted_boot rfl⟩

/-- A request for all of memory but one byte is answered with 4084 bytes. -/
theorem malloc_block_size_wraps : (malloc boot.store (2 ^ 32 - 1) (some 1)).toOption.map
    (fun r => (r.1, r.2.blockSize 4108)) = some (some 4108, 4084) := by decide

/-- **Which overflowing products `calloc` rejects.** The wrapped product has to be smaller than a
factor, or one of the sizes for which `malloc` asks for no pages. -/
theorem calloc_rejects {a b : ℕ} (hover : 2 ^ 32 ≤ a * b) :
    (∀ h s answer, Run step Allowed boot h s → Granted s.store (a * b % 2 ^ 32) answer →
      ∃ s', calloc s.store a b answer = .ok (none, s')) ↔
    a * b % 2 ^ 32 < a ∨ a * b % 2 ^ 32 < b ∨
      (2 ^ 32 - 4107 ≤ a * b % 2 ^ 32 ∧ a * b % 2 ^ 32 ≤ 2 ^ 32 - 12) := by
  have hlt : a * b % 2 ^ 32 < 2 ^ 32 := Nat.mod_lt _ (by omega)
  have hapos : 0 < a := Nat.pos_of_mul_pos_right (by omega : 0 < a * b)
  generalize hsize : a * b % 2 ^ 32 = size at *
  constructor
  · intro hall
    by_contra hpass
    obtain ⟨hpassa, hpassb, hpages⟩ := by simpa only [not_or] using hpass
    obtain ⟨s', hnull⟩ := hall [] boot (some 1) .refl granted_boot
    rw [calloc, hsize, if_neg (by omega)] at hnull
    exact malloc_ne_null (by omega) (mt (pageCount_eq_zero_iff hlt).mp hpages) hnull
  · intro hcond h s answer hrun hgrant
    by_cases hfactor : size < a ∨ size < b
    · exact ⟨s.store, by rw [calloc, hsize, if_pos hfactor]⟩
    · have hzero := (pageCount_eq_zero_iff hlt).mpr (by tauto)
      have hfind : findDesc size = none := findDesc_eq_none_iff.mpr (by omega)
      refine ⟨s.store, ?_⟩
      rw [calloc, hsize, if_neg hfactor, malloc, if_neg (by omega), hfind]
      simp only [mallocBig, pallocGetMultiple, hzero, if_true]

theorem calloc_rejects_square : ∃ s', calloc boot.store 65536 65536 (some 1) = .ok (none, s') :=
  (calloc_rejects (by decide)).mpr (.inl (by decide)) [] boot (some 1) .refl
    granted_boot

/-- For 65537 blocks of 65537 bytes, which are more than 4 GB, `calloc` returns 33 pages. -/
theorem calloc_rejects_not : (calloc boot.store 65537 65537 (some 1)).toOption.map
    (fun r => (r.1, r.2.blockSize 4108)) = some (some 4108, 33 * 4096 - 12) := by decide

end Pintos.Malloc
