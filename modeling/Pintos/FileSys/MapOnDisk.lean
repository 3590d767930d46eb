import Pintos.FileSys.Format

/-!
# The free map on disk

After mounting, the file of the free map holds what the map in memory holds (`filesysInit_mounts`).
Each call writes the whole map. If there is no memory for the bounce buffer, the whole sectors of the
file are written and the last one is not. `free_map_allocate` then takes its bits back, in memory
only; `free_map_release` does not look at the result.

* `bit_mapFile_store` — which bits of the file are the new ones after the map has been stored;
* `MapCall.Harmless` — the failures that leave no trace: a run of sectors that is taken back must
  not be in the part that has been written, and one that is released must not be in the other part;
* `free_map_synced` — the file and the map agree along every run of harmless calls.
-/

namespace Pintos

open Total Transition

/-! ### Storing the map -/

/-- The number of bits in the whole sectors of the file. -/
def FileSys.wholeBits (s : FileSys) : ℕ := 8 * (s.mapSize / 512 * 512)

section Store

variable {s : FileSys} {map : Bitmap} {i : ℕ}

/-- The bits up to the last sector are those of the new map; the last sector's are if it has been
written. -/
theorem bit_mapFile_store (hm : Mounted s) (hi : i < s.dev.size) :
    bitOfBytes (s.store map).mapFile i
      = if s.mapFails ∧ s.wholeBits ≤ i then bitOfBytes s.mapFile i else map.bit i := by
  have hbits := byteCnt_bits hm.fits
  have hmem : i / 8 < s.mapSize := by
    unfold FileSys.mapSize
    omega
  have hbyte : (s.store map).mapFile (i / 8)
      = if i / 8 < moved s.mallocs false 0 s.mapSize then map.bytes (i / 8) else s.mapFile (i / 8) := by
    show memcpy s.disk _ map.bytes 0 _ (512 * s.mapData.start + i / 8) = _
    split
    · next hlt =>
      rw [memcpy_inside (Nat.le_add_right _ _) (by omega)]
      congr 1
      omega
    · next hle => exact memcpy_outside (by omega)
  split
  · next hfails =>
    obtain ⟨hmoved, -⟩ := moved_of_fails hfails.1
    have hpast : s.mapSize / 512 * 512 ≤ i / 8 := by
      have hge := hfails.2
      unfold FileSys.wholeBits at hge
      omega
    exact bitOfBytes_congr (hbyte.trans (if_neg (by omega)))
  · next hok =>
    have hlt : i / 8 < moved s.mallocs false 0 s.mapSize := by
      by_cases hfails : s.mapFails
      · have hwhole : ¬ s.wholeBits ≤ i := fun hge => hok ⟨hfails, hge⟩
        unfold FileSys.wholeBits at hwhole
        rw [(moved_of_fails hfails).1]
        omega
      · rw [moved_of_not_fails hfails]
        exact hmem
    rw [bitOfBytes_congr (hbyte.trans (if_pos hlt)), bitOfBytes_bytes]

/-- The whole sectors hold bits of the map only. -/
theorem wholeBits_le (hm : Mounted s) (hfails : s.mapFails) : s.wholeBits ≤ s.dev.size := by
  have hbits := byteCnt_bits hm.fits
  have hpart := (moved_of_fails hfails).2
  have hfour : s.mapSize % 4 = 0 := Nat.mul_mod_right 4 _
  unfold FileSys.wholeBits
  unfold FileSys.mapSize at hpart hfour ⊢
  omega

end Store

/-! ### The calls -/

/-- A call to the free map. -/
inductive MapCall where
  | allocate (cnt : ℕ)
  | release (sector cnt : ℕ)

/-- The state after a call that has returned. -/
def MapCall.step (s : FileSys) : MapCall → Except Panic FileSys
  | .allocate cnt => do
    let (_, s) ← freeMapAllocate s cnt
    .ok s
  | .release sector cnt => freeMapRelease s sector cnt

/-- **Harmless calls.** The last sector of the map can be written; or, if it cannot, no run that
could be allocated begins before it, and nothing that is released lies in it. -/
def MapCall.Harmless (s : FileSys) : MapCall → Prop
  | .allocate cnt => s.mapFails → cnt = 0 ∨ ∀ i, s.freeMap.IsRun false cnt i → s.wholeBits ≤ i
  | .release sector cnt => s.mapFails → ∀ j, sector ≤ j → j < sector + cnt → j < s.wholeBits

section Calls

variable {s s' : FileSys} {cnt : ℕ}

/-- **A harmless allocation that fails** leaves the map and its file alone. -/
theorem allocate_none (hm : Mounted s) (hs : Synced s) (hg : (MapCall.allocate cnt).Harmless s)
    (hcall : freeMapAllocate s cnt = .ok (none, s')) :
    s'.freeMap = s.freeMap ∧ ∀ o < s.mapSize, s'.mapFile o = s.mapFile o := by
  have ha := (freeMapAllocate_ends hm cnt).of_eq hcall
  cases ha with
  | full => exact ⟨rfl, fun _ _ => rfl⟩
  | @undone i map hrun hsets hfails =>
    refine ⟨rfl, fun o ho => ?_⟩
    show (s.store map).mapFile o = s.mapFile o
    -- whole sectors hold the same bits; the last one has not been written
    by_cases hwhole : o < s.mapSize / 512 * 512
    · refine byte_eq_of_bits fun k hk => ?_
      have hle := wholeBits_le hm hfails
      have hlt : 8 * o + k < s.wholeBits := by
        unfold FileSys.wholeBits
        omega
      have hdev : 8 * o + k < s.dev.size := hlt.trans_le hle
      rw [bit_mapFile_store hm hdev, if_neg (fun hin => absurd hin.2 (not_le.mpr hlt)), hs _ hdev,
        hsets.2, if_neg]
      rintro ⟨hlo, hhi⟩
      obtain hzero | hruns := hg hfails
      · omega
      · have hpast := hruns i hrun.2.1
        omega
    · refine memcpy_outside ?_
      rw [(moved_of_fails hfails).1, store_mapData]
      omega

/-- **A harmless call** keeps the file up to date. -/
theorem step_synced (hm : Mounted s) (hs : Synced s) {e : MapCall} (hg : e.Harmless s)
    (hstep : MapCall.step s e = .ok s') : Mounted s' ∧ Synced s' := by
  cases e with
  | allocate cnt =>
    obtain ⟨⟨found, s₁⟩, hcall, ha⟩ := freeMapAllocate_ends hm cnt
    obtain rfl : s₁ = s' := by
      simp only [MapCall.step] at hstep
      rw [hcall] at hstep
      exact Except.ok.inj hstep
    cases ha with
    | full => exact ⟨hm, hs⟩
    | @done i map hrun hsets hstored =>
      refine ⟨hm.store (hsets.1.trans hm.bitCnt), fun j hj => ?_⟩
      exact (bit_mapFile_store hm hj).trans (if_neg fun hfails => hstored hfails.1)
    | @undone i map hrun hsets hfails =>
      obtain ⟨-, hfile⟩ := allocate_none hm hs hg hcall
      refine ⟨⟨hm.bitCnt, hm.fits, hm.file, hm.length, hm.onDevice⟩, fun j hj => ?_⟩
      have hbits := byteCnt_bits hm.fits
      have hj' : j < s.dev.size := hj
      have hmem : j / 8 < s.mapSize := by
        unfold FileSys.mapSize
        omega
      exact (bitOfBytes_congr (hfile _ hmem)).trans (hs j hj)
  | release sector cnt =>
    obtain ⟨map, hsets, rfl⟩ := freeMapRelease_yields hm sector cnt s' hstep
    refine ⟨hm.store (hsets.1.trans hm.bitCnt), fun j hj => ?_⟩
    refine (bit_mapFile_store hm hj).trans ?_
    split
    · next hfails =>
      -- what is not written has not changed
      rw [hs j hj, store_freeMap, hsets.2 j, if_neg]
      rintro ⟨hlo, hhi⟩
      exact absurd hfails.2 (not_le.mpr (hg hfails.1 j hlo hhi))
    · rfl

end Calls

/-- **The free map on disk** follows the one in memory: after mounting, and after every harmless
call, and a harmless allocation that fails leaves both alone. -/
theorem free_map_synced {dev : Block} {disk : Buffer} {junk : ℕ → BitVec 32} {ms : List Bool}
    {format : Bool} {s₀ s : FileSys} {h : List (FileSys × MapCall)}
    (h₀ : filesysInit dev disk junk ms format = .ok s₀)
    (hrun : Run MapCall.step (fun s e => e.Harmless s) s₀ h s) :
    Synced s ∧ ∀ cnt s', (MapCall.allocate cnt).Harmless s → freeMapAllocate s cnt = .ok (none, s') →
      s'.freeMap = s.freeMap ∧ ∀ o < s.mapSize, s'.mapFile o = s.mapFile o := by
  obtain ⟨hm, hs⟩ := hrun.invariant (I := fun s => Mounted s ∧ Synced s)
    (filesysInit_mounts dev disk junk ms format s₀ h₀)
    fun _ _ _ hinv hg hstep => step_synced hinv.1 hinv.2 hg hstep
  exact ⟨hs, fun _ _ => allocate_none hm hs⟩


/-- A device of twelve sectors is formatted, and a sector is allocated and released. -/
theorem free_map_synced_small : ∃ s₀ h s,
    filesysInit ⟨12, by decide⟩ (fun _ => 0) (fun _ => 0) [] true = .ok s₀ ∧
    Run MapCall.step (fun s e => e.Harmless s) s₀ h s ∧ h.length = 2 ∧ Synced s := by
  obtain ⟨s₀, h₀, hplay⟩ := Ends.of_run
    (x := filesysInit ⟨12, by decide⟩ (fun _ => 0) (fun _ => 0) [] true)
    (p := fun s₀ => (play MapCall.step (fun s _ => decide (¬ s.mapFails)) s₀
      [.allocate 1, .release 4 1]).any fun r => r.1.length == 2) (by decide +kernel)
  have hguard : ∀ (s : FileSys) (e : MapCall), decide (¬ s.mapFails) = true → e.Harmless s := by
    intro s e hok
    cases e with
    | allocate cnt => exact fun hfails => absurd hfails (of_decide_eq_true hok)
    | release sector cnt => exact fun hfails => absurd hfails (of_decide_eq_true hok)
  obtain ⟨h, s, hrun, hlen⟩ := exists_run_of_play (p := fun h _ => h.length == 2) hguard hplay
  exact ⟨s₀, h, s, h₀, hrun, beq_iff_eq.mp hlen, (free_map_synced h₀ hrun).1⟩

/-- **A release that is not written.** The device is formatted and a sector is allocated. There is no
memory for the bounce buffer when the sector is released: it is free in memory and in use on disk. -/
theorem free_map_release_unwritten : ∃ ms s₀ i s₁ s₂,
    filesysInit ⟨12, by decide⟩ (fun _ => 0) (fun _ => 0) ms true = .ok s₀ ∧
    freeMapAllocate s₀ 1 = .ok (some i, s₁) ∧ freeMapRelease s₁ i 1 = .ok s₂ ∧
    Synced s₁ ∧ ¬ Synced s₂ := by
  obtain ⟨s₀, h₀, hp⟩ := Ends.of_run (x := filesysInit ⟨12, by decide⟩ (fun _ => 0) (fun _ => 0)
      (List.replicate 12 true ++ [false]) true)
    (p := fun s₀ => (freeMapAllocate s₀ 1).toOption.any fun r =>
      r.1 == some 4 && r.2.dev.size == 12 &&
      ((List.range 12).all fun i => bitOfBytes r.2.mapFile i == r.2.freeMap.bit i) &&
      (freeMapRelease r.2 4 1).toOption.any fun s₂ => s₂.dev.size == 12 &&
        (bitOfBytes s₂.mapFile 4 != s₂.freeMap.bit 4)) (by decide +kernel)
  obtain ⟨⟨found, s₁⟩, h₁, hp⟩ := Ends.of_run hp
  simp only [Bool.and_eq_true, beq_iff_eq] at hp
  obtain ⟨⟨⟨rfl, hdev₁⟩, hall⟩, hp⟩ := hp
  obtain ⟨s₂, h₂, hp⟩ := Ends.of_run hp
  simp only [Bool.and_eq_true, beq_iff_eq, bne_iff_ne] at hp
  refine ⟨_, s₀, 4, s₁, s₂, h₀, h₁, h₂, fun i hi => ?_, fun hs => ?_⟩
  · rw [hdev₁] at hi
    exact beq_iff_eq.mp (List.all_eq_true.mp hall i (List.mem_range.mpr hi))
  · exact hp.2 (hs 4 (by rw [hp.1]; decide))

end Pintos
