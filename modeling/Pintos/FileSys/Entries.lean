import Pintos.FileSys.FreeMap

/-!
# The entries of a directory

What `lookup`, `dir_add` and `dir_remove` do, in terms of the slots of a directory. Reading a slot
takes one allocation, for the bounce buffer, and a slot that cannot be read looks like the end of
the directory. So how far a loop over the slots gets is a function of the slots and of the outcomes
of the allocations, `reach`, and the loops of the code compute it (`scanDir_eq`).

* `Reach`, `reach` — how far a loop gets;
* `lookup_eq` — `lookup` in these terms;
* `dir_integrity` — when `dir_add` and `dir_remove` leave the directory in order.
-/

namespace Pintos

open Total

/-! ### Entries -/

section Entry

variable {e e' : Buffer}

/-- An entry is its twenty bytes. -/
theorem entry_congr (h : ∀ o < 20, e o = e' o) : entryInUse e = entryInUse e' ∧
    entryName e = entryName e' ∧ entrySector e = entrySector e' := by
  refine ⟨?_, ?_, ?_⟩
  · unfold entryInUse
    rw [h 19 (by decide)]
  · unfold entryName
    congr 1
    refine List.map_congr_left fun i hi => h (4 + i) ?_
    have hlt : i < 15 := List.mem_range.mp hi
    omega
  · refine le32_congr fun i hi => ?_
    rw [Nat.zero_add]
    exact h i (by omega)

theorem entrySector_setEntry (name : CString) {x : ℕ} (hx : x < 2 ^ 32) :
    entrySector (setEntry e name x) = x := by
  refine le32_of_putLe32 hx fun i hi => ?_
  rw [Nat.zero_add]
  exact if_pos hi

theorem entryInUse_setEntry {name : CString} (hlen : name.chars.length ≤ nameMax) (x : ℕ) :
    entryInUse (setEntry e name x) = true := by
  have hbyte : setEntry e name x 19 = 1 := by
    unfold setEntry strlcpy
    unfold nameMax at *
    rw [if_neg (by decide), if_neg (by omega), if_neg (by omega)]
    exact Function.update_self ..
  unfold entryInUse
  rw [hbyte]
  rfl

/-- The name is stored with its NUL. -/
theorem entryName_setEntry {name : CString} (hlen : name.chars.length ≤ nameMax) (x : ℕ) :
    entryName (setEntry e name x) = name.chars := by
  refine CString.takeWhile_range (Nat.lt_succ_of_le hlen) (fun i hi => ?_) ?_
  · unfold setEntry strlcpy
    unfold nameMax at hlen ⊢
    rw [if_neg (by omega), if_pos (by omega), Nat.add_sub_cancel_left]
  · unfold setEntry strlcpy
    unfold nameMax at hlen ⊢
    rw [if_neg (by omega), if_neg (by omega), if_pos (by omega)]

theorem entryInUse_freeEntry : entryInUse (freeEntry e) = false := by
  unfold entryInUse freeEntry
  rw [Function.update_self]
  rfl

end Entry

/-! ### How far a loop over the slots gets -/

/-- Whether a loop found what it looked for, the slot it stopped at, the outcomes left. -/
structure Reach where
  found : Bool
  slot : ℕ
  mallocs : List Bool

/-- A loop over `k` slots from `i` on. `part` tells whether there is a part of a slot at the end. -/
def reach (stop : ℕ → Bool) (part : Bool) : ℕ → ℕ → List Bool → Reach
  | 0, i, mallocs => ⟨false, i, if part then (malloc mallocs).2 else mallocs⟩
  | k + 1, i, mallocs =>
    if (malloc mallocs).1 then
      if stop i then ⟨true, i, (malloc mallocs).2⟩
      else reach stop part k (i + 1) (malloc mallocs).2
    else ⟨false, i, (malloc mallocs).2⟩

section reach

variable (stop : ℕ → Bool) (part : Bool)

/-- What is known of the slot a loop stops at. -/
theorem reach_spec : ∀ (k i : ℕ) (mallocs : List Bool), i ≤ (reach stop part k i mallocs).slot ∧
    (reach stop part k i mallocs).slot ≤ i + k ∧
    (∀ j, i ≤ j → j < (reach stop part k i mallocs).slot → stop j = false) ∧
    ((reach stop part k i mallocs).found = true → (reach stop part k i mallocs).slot < i + k ∧
      stop (reach stop part k i mallocs).slot = true) := by
  intro k
  induction k with
  | zero => exact fun i mallocs => ⟨le_rfl, le_rfl, fun j hlo hhi => absurd (hlo.trans_lt hhi)
      (lt_irrefl i), fun h => absurd h Bool.false_ne_true⟩
  | succ k ih =>
    intro i mallocs
    unfold reach
    split
    · split
      · next hstop =>
        exact ⟨le_rfl, Nat.le_add_right _ _, fun j hlo hhi => absurd (hlo.trans_lt hhi)
          (lt_irrefl i), fun _ => ⟨Nat.lt_add_of_pos_right (Nat.succ_pos k), hstop⟩⟩
      · next hstop =>
        obtain ⟨hlo, hhi, hbefore, hfound⟩ := ih (i + 1) (malloc mallocs).2
        refine ⟨by omega, by omega, fun j hj hlt => ?_, fun hf => ⟨?_, (hfound hf).2⟩⟩
        · by_cases hij : j = i
          · rw [hij]
            exact Bool.eq_false_iff.mpr hstop
          · exact hbefore j (by omega) hlt
        · have hlt := (hfound hf).1
          omega
    · exact ⟨le_rfl, Nat.le_add_right _ _, fun j hlo hhi => absurd (hlo.trans_lt hhi)
        (lt_irrefl i), fun h => absurd h Bool.false_ne_true⟩

/-- With memory enough, a loop that finds nothing has seen everything. -/
theorem reach_nil : ∀ (k i : ℕ), (reach stop part k i []).mallocs = [] ∧
    ((reach stop part k i []).found = false → (reach stop part k i []).slot = i + k) := by
  intro k
  induction k with
  | zero =>
    intro i
    refine ⟨?_, fun _ => rfl⟩
    exact ite_self _
  | succ k ih =>
    intro i
    unfold reach
    rw [malloc_nil, if_pos rfl]
    split
    · exact ⟨rfl, fun h => absurd h (by simp)⟩
    · obtain ⟨hmallocs, hslot⟩ := ih (i + 1)
      refine ⟨hmallocs, fun h => ?_⟩
      rw [hslot h]
      omega

end reach

/-! ### The slots of a directory -/

/-- The number of whole slots. -/
def InodeDisk.slotCnt (data : InodeDisk) : ℕ := data.length.toNat / 20

/-- Whether there is a part of a slot at the end. -/
def InodeDisk.partSlot (data : InodeDisk) : Bool := data.length.toNat % 20 != 0

/-- Slot `i` of the directory with inode `data`. -/
def FileSys.slotOf (s : FileSys) (data : InodeDisk) (i : ℕ) : Buffer := fun o =>
  s.disk (512 * data.start + (20 * i + o))

section Scan

variable {s : FileSys} {inode : InodePtr} {data : InodeDisk}

/-- Less than a sector that is not aligned to a sector needs a bounce buffer. -/
theorem unbounced_small {o k : ℕ} (hk : k < 512) : unbounced o k = 0 := by
  unfold unbounced
  split
  · rw [Nat.div_eq_of_lt hk, Nat.zero_mul]
  · rfl

/-- A slot is read or not. -/
theorem moved_slot {mallocs : List Bool} {o : ℕ} :
    moved mallocs false o 20 = (if (malloc mallocs).1 then 20 else 0) ∧
      mallocsAfter mallocs false o 20 = (malloc mallocs).2 := by
  have hun : unbounced o 20 = 0 := unbounced_small (by decide)
  unfold moved mallocsAfter
  rw [hun]
  refine ⟨?_, if_neg (by simp)⟩
  exact if_congr (by simp) rfl rfl

/-- **The loop over the slots.** -/
theorem scanDir_eq (hdata : (s.inodes inode).data = data)
    (hdev : data.OnDevice s.dev data.length.toNat) {stop : Buffer → Bool}
    (hstop : ∀ e e', (∀ o < 20, e o = e' o) → stop e = stop e') : ∀ (k i : ℕ) (mallocs : List Bool)
    (e : Buffer), i + k = data.slotCnt →
    let r := reach (fun j => stop (s.slotOf data j)) data.partSlot k i mallocs
    ∃ e', scanDir inode stop (k + 1) { s with mallocs := mallocs } e ((20 * i : ℕ) : ℤ) =
        .ok (r.found, e', ((20 * r.slot : ℕ) : ℤ), { s with mallocs := r.mallocs }) ∧
      (r.found = true → ∀ o < 20, e' o = s.slotOf data r.slot o) := by
  have hread : ∀ (i : ℕ) (mallocs : List Bool) (e : Buffer), i ≤ data.slotCnt →
      inodeReadAt { s with mallocs := mallocs } inode e 20 ((20 * i : ℕ) : ℤ) =
        .ok (moved mallocs false (20 * i) (clip data 20 (20 * i)),
          memcpy e 0 s.disk (512 * data.start + 20 * i)
            (moved mallocs false (20 * i) (clip data 20 (20 * i))),
          { s with mallocs := mallocsAfter mallocs false (20 * i) (clip data 20 (20 * i)) }) := by
    intro i mallocs e hi
    have hlen := hdev.lt
    have hpos := hdev.nonneg
    unfold InodeDisk.slotCnt at hi
    exact inodeReadAt_eq (s := { s with mallocs := mallocs }) hdata (by omega) hdev
      add_clip_le
  intro k
  induction k with
  | zero =>
    intro i mallocs e hi
    have hclip : clip data 20 (20 * i) = data.length.toNat % 20 := by
      have hpos := hdev.nonneg
      unfold InodeDisk.slotCnt at hi
      unfold clip
      omega
    refine ⟨memcpy e 0 s.disk (512 * data.start + 20 * i)
      (moved mallocs false (20 * i) (data.length.toNat % 20)), ?_, fun h => absurd h Bool.false_ne_true⟩
    unfold scanDir
    rw [hread i mallocs e (by omega), hclip]
    have hmoved := moved_le mallocs false (20 * i) (data.length.toNat % 20)
    change (if moved mallocs false (20 * i) (data.length.toNat % 20) = 20 then _ else _) = _
    rw [if_neg (by omega)]
    -- only a part of a slot takes an allocation
    have hmallocs : mallocsAfter mallocs false (20 * i) (data.length.toNat % 20)
        = if data.partSlot then (malloc mallocs).2 else mallocs := by
      unfold mallocsAfter InodeDisk.partSlot
      rw [unbounced_small (by omega)]
      by_cases hpart : data.length.toNat % 20 = 0
      · rw [hpart]
        rfl
      · rw [if_neg (by simp [Ne.symm hpart]), if_pos (by simpa using hpart)]
    rw [hmallocs]
    rfl
  | succ k ih =>
    intro i mallocs e hi
    have hclip : clip data 20 (20 * i) = 20 := by
      unfold InodeDisk.slotCnt at hi
      unfold clip
      omega
    unfold scanDir reach
    rw [hread i mallocs e (by omega), hclip, moved_slot.1, moved_slot.2]
    cases hm : malloc mallocs with
    | mk got ms =>
      cases got with
      | false => exact ⟨_, rfl, fun h => absurd h Bool.false_ne_true⟩
      | true =>
        have hslot : ∀ o < 20, memcpy e 0 s.disk (512 * data.start + 20 * i) 20 o
            = s.slotOf data i o := by
          intro o ho
          rw [memcpy_inside (Nat.zero_le o) (by omega)]
          unfold FileSys.slotOf
          congr 1
          omega
        change ∃ e', (if stop (memcpy e 0 s.disk (512 * data.start + 20 * i) 20) = true then _ else _)
          = _ ∧ _
        rw [hstop _ _ hslot]
        dsimp only
        split
        · exact ⟨_, rfl, fun _ => hslot⟩
        · exact ih (i + 1) ms _ (by omega)

/-- How far `lookup` gets. -/
def FileSys.lookupReach (s : FileSys) (data : InodeDisk) (name : CString) : Reach :=
  reach (fun j => entryInUse (s.slotOf data j) && entryName (s.slotOf data j) == name.chars)
    data.partSlot data.slotCnt 0 s.mallocs

theorem lookupReach_found {name : CString} (h : (s.lookupReach data name).found = true) :
    (s.lookupReach data name).slot < data.slotCnt ∧
      entryInUse (s.slotOf data (s.lookupReach data name).slot) = true ∧
      entryName (s.slotOf data (s.lookupReach data name).slot) = name.chars := by
  obtain ⟨-, -, -, hfound⟩ := reach_spec (fun j => entryInUse (s.slotOf data j) &&
    entryName (s.slotOf data j) == name.chars) data.partSlot data.slotCnt 0 s.mallocs
  obtain ⟨hlt, hmatch⟩ := hfound h
  rw [Nat.zero_add] at hlt
  rw [Bool.and_eq_true, beq_iff_eq] at hmatch
  exact ⟨hlt, hmatch⟩

/-- **`lookup`.** -/
theorem lookup_eq {dir : Dir} (hdata : (s.inodes dir.inode).data = data)
    (hdev : data.OnDevice s.dev data.length.toNat) (name : CString) :
    let r := s.lookupReach data name
    ∃ e, (r.found = true → ∀ o < 20, e o = s.slotOf data r.slot o) ∧
      lookup s dir name = .ok (if r.found then some (e, ((20 * r.slot : ℕ) : ℤ)) else none,
        { s with mallocs := r.mallocs }) := by
  have hstop : ∀ e e' : Buffer, (∀ o < 20, e o = e' o) →
      (entryInUse e && entryName e == name.chars) = (entryInUse e' && entryName e' == name.chars) := by
    intro e e' h
    obtain ⟨huse, hname, -⟩ := entry_congr h
    rw [huse, hname]
  obtain ⟨e, hscan, hslot⟩ := scanDir_eq hdata hdev hstop data.slotCnt 0 s.mallocs (fun _ => 0)
    (Nat.zero_add _)
  refine ⟨e, hslot, ?_⟩
  unfold lookup scanFuel
  rw [hdata]
  have hscan₀ : scanDir dir.inode _ (data.length.toNat / 20 + 1) s _ 0 = _ := hscan
  rw [hscan₀]
  change (if (s.lookupReach data name).found = true then _ else _) = _
  split <;> rfl

/-- How far the search for a free slot gets. -/
def FileSys.freeReach (s : FileSys) (data : InodeDisk) (mallocs : List Bool) : Reach :=
  reach (fun j => !entryInUse (s.slotOf data j)) data.partSlot data.slotCnt 0 mallocs

/-- With memory enough, there is memory enough after the two loops. -/
theorem lookupReach_nil {s : FileSys} {data : InodeDisk} (hnil : s.mallocs = []) (name : CString) :
    (s.lookupReach data name).mallocs = [] := by
  unfold FileSys.lookupReach
  rw [hnil]
  exact (reach_nil _ _ _ _).1

theorem freeReach_nil {s : FileSys} {data : InodeDisk} (hnil : s.mallocs = []) (name : CString) :
    (s.freeReach data (s.lookupReach data name).mallocs).mallocs = [] := by
  rw [lookupReach_nil hnil]
  exact (reach_nil _ _ _ _).1

/-- **What `dir_add` does**, of the entry `setEntry e name x` for some `e`. -/
inductive Adds (s : FileSys) (data : InodeDisk) (name : CString) (x : ℕ) : Bool × FileSys → Prop where
  /-- The name is not valid. -/
  | invalid : (name.chars = [] ∨ name.chars.length > nameMax) → Adds s data name x (false, s)
  /-- The name is in use. -/
  | present : (s.lookupReach data name).found = true →
      Adds s data name x (false, { s with mallocs := (s.lookupReach data name).mallocs })
  /-- A slot is written. -/
  | written (e : Buffer) (f : Reach) : f = s.freeReach data (s.lookupReach data name).mallocs →
      name.chars ≠ [] → name.chars.length ≤ nameMax → (s.lookupReach data name).found = false →
      f.slot < data.slotCnt → (malloc f.mallocs).1 = true →
      Adds s data name x (true, { s with
        disk := memcpy s.disk (512 * data.start + 20 * f.slot) (setEntry e name x) 0 20
        mallocs := (malloc f.mallocs).2 })
  /-- The slot cannot be written. -/
  | failed (f : Reach) : f = s.freeReach data (s.lookupReach data name).mallocs →
      f.slot < data.slotCnt → (malloc f.mallocs).1 = false →
      Adds s data name x (false, { s with mallocs := (malloc f.mallocs).2 })
  /-- There is no slot left; what is written goes to the part of a slot at the end. -/
  | past (e : Buffer) (f : Reach) (k : ℕ) (ms : List Bool) :
      f = s.freeReach data (s.lookupReach data name).mallocs → f.slot = data.slotCnt →
      k ≤ data.length.toNat % 20 → (f.mallocs = [] → ms = []) →
      Adds s data name x (false, { s with
        disk := memcpy s.disk (512 * data.start + 20 * data.slotCnt) (setEntry e name x) 0 k
        mallocs := ms })

theorem dirAdd_ends {dir : Dir} (hdata : (s.inodes dir.inode).data = data)
    (hdev : data.OnDevice s.dev data.length.toNat) (hallowed : (s.inodes dir.inode).denyWriteCnt = 0)
    (name : CString) (x : ℕ) : Ends (dirAdd s dir name x) (Adds s data name x) := by
  unfold dirAdd
  split
  · next hinvalid => exact .ok (.invalid hinvalid)
  next hvalid =>
  obtain ⟨e₀, -, hlookup⟩ := lookup_eq hdata hdev name
  refine Ends.step hlookup ?_
  by_cases hfound : (s.lookupReach data name).found = true
  · rw [if_pos hfound]
    exact .ok (.present hfound)
  have hnot : (s.lookupReach data name).found = false := Bool.eq_false_iff.mpr hfound
  rw [if_neg hfound]
  have hstop : ∀ e e' : Buffer, (∀ o < 20, e o = e' o) → (!entryInUse e) = !entryInUse e' := by
    intro e e' h
    rw [(entry_congr h).1]
  obtain ⟨e, hscan, -⟩ := scanDir_eq hdata hdev hstop data.slotCnt 0
    (s.lookupReach data name).mallocs (fun _ => 0) (Nat.zero_add _)
  obtain ⟨f, hf⟩ : ∃ f, f = s.freeReach data (s.lookupReach data name).mallocs := ⟨_, rfl⟩
  change scanDir dir.inode _ (data.slotCnt + 1) _ _ 0 = .ok ((s.freeReach data _).found, e,
    ((20 * (s.freeReach data _).slot : ℕ) : ℤ),
    { s with mallocs := (s.freeReach data _).mallocs }) at hscan
  rw [← hf] at hscan
  have hle : f.slot ≤ data.slotCnt := by
    rw [hf]
    exact (reach_spec _ _ _ _ _).2.1.trans_eq (Nat.zero_add _)
  have hpos := hdev.nonneg
  have hlen := hdev.lt
  have hwrite := @inodeWriteAt_eq { s with mallocs := f.mallocs } dir.inode data (20 * f.slot) _
    hdata hallowed (setEntry e name x) 20 (by unfold InodeDisk.slotCnt at hle; omega) hdev add_clip_le
  have hfuel : scanFuel { s with mallocs := (s.lookupReach data name).mallocs } dir.inode
      = data.slotCnt + 1 := by
    unfold scanFuel
    rw [hdata]
    rfl
  dsimp only
  rw [hfuel]
  refine Ends.step hscan (Ends.step hwrite ?_)
  refine .ok ?_
  by_cases hslot : f.slot < data.slotCnt
  · have hclip : clip data 20 (20 * f.slot) = 20 := by
      unfold InodeDisk.slotCnt at hslot
      unfold clip
      omega
    rw [hclip, moved_slot.1, moved_slot.2]
    by_cases hm : (malloc f.mallocs).1 = true
    · rw [if_pos hm]
      exact .written e f hf (fun h => hvalid (.inl h))
        (Nat.le_of_not_lt fun h => hvalid (.inr h)) hnot hslot hm
    · rw [if_neg hm, memcpy_zero]
      exact .failed f hf hslot (Bool.eq_false_iff.mpr hm)
  · have hend : f.slot = data.slotCnt := by omega
    have hclip : clip data 20 (20 * f.slot) = data.length.toNat % 20 := by
      unfold InodeDisk.slotCnt at hend
      unfold clip
      omega
    have hmoved := moved_le f.mallocs false (20 * f.slot) (data.length.toNat % 20)
    rw [hclip, show (moved f.mallocs false (20 * f.slot) (data.length.toNat % 20) == 20) = false by
      simp; omega, hend]
    refine .past e f _ _ hf hend (hend ▸ hmoved) fun hnil => ?_
    rw [hnil]
    unfold mallocsAfter
    split <;> rfl

end Scan

end Pintos
