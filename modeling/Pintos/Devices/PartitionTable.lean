import Pintos.FileSys.Disk

/-!
# Partition tables

`partition_scan` looks for partitions on a disk. The partition table in sector 0 has four entries;
an entry may be that of an extended partition, which has a partition table of its own, and
`read_partition_table` calls itself for it. The sector of that table is an argument of the call, but
the sector that is read is always sector 0.

The recursion has a fuel, which bounds its depth. Since a table has four entries, a scan makes
finitely many calls iff some fuel is enough for it.

* `readPartitionTable_calm`, `readPartitionTable_mono` — what a scan does while there is memory, and
  that more fuel changes nothing;
* `readPartitionTable_loops` — an extended entry that is found again in its own place;
* `readPartitionTable_reread` — what is found otherwise: the entries of sector 0, and again in the
  place of every extended one;
* `TableTree` — the partitions of a disk, by the tables that its entries point to.
-/

namespace Pintos

open List

/-! ### Tables -/

/-- `struct partition_table_entry`, without the flag of the boot loader and the geometry. -/
structure TableEntry where
  type : UInt8
  offset : ℕ
  size : ℕ
  deriving DecidableEq

/-- What an entry is taken for. -/
inductive EntryKind where
  | empty
  | extended
  | partition
  deriving DecidableEq

/-- The branches of the loop of `read_partition_table`. -/
def TableEntry.kind (e : TableEntry) : EntryKind :=
  if e.size = 0 ∨ e.type = 0 then .empty
  else if e.type = 0x05 ∨ e.type = 0x0f ∨ e.type = 0x85 ∨ e.type = 0xc5 then .extended
  else .partition

/-- `pt->partitions[i]`. -/
def tableEntry (pt : Buffer) (i : ℕ) : TableEntry :=
  ⟨pt (446 + 16 * i + 4), le32 pt (446 + 16 * i + 8), le32 pt (446 + 16 * i + 12)⟩

/-- `pt->partitions`. -/
def tableEntries (pt : Buffer) : List TableEntry :=
  [tableEntry pt 0, tableEntry pt 1, tableEntry pt 2, tableEntry pt 3]

/-- `pt->signature`. -/
def tableSignature (pt : Buffer) : ℕ := (pt 510).toNat + 2 ^ 8 * (pt 511).toNat

/-- The sector of a disk, as a buffer. -/
def sectorOf (disk : Buffer) (sector : ℕ) : Buffer := fun o => disk (512 * sector + o)

/-! ### The scan -/

/-- `enum block_type`. -/
inductive BlockType where
  | kernel
  | filesys
  | scratch
  | swap
  | raw
  | foreign
  deriving DecidableEq

/-- A partition: its type, its first sector and its number of sectors. -/
structure Part where
  type : UInt8
  start : ℕ
  size : ℕ
  deriving DecidableEq

/-- A call of `found_partition`. -/
structure Found where
  partNr : ℕ
  part : Part
  deriving DecidableEq

/-- What `block_register` is given for a partition. -/
structure PartitionBlock where
  name : String
  type : BlockType
  size : ℕ
  start : ℕ
  deriving DecidableEq

/-- What is printed, after the name of the device. -/
inductive ScanMessage where
  /-- "Device contains no partitions" -/
  | noPartitions
  /-- "Partition table at sector %u past end of device." -/
  | tablePastEnd (sector : ℕ)
  /-- "Invalid partition table signature" -/
  | invalidSignature
  /-- "Invalid extended partition table in sector %u" -/
  | invalidExtended (sector : ℕ)
  /-- "Extended partition in sector %u" -/
  | extendedIn (sector : ℕ)
  /-- "Partition starts past end of device (sector %u)" -/
  | startsPastEnd (partNr start : ℕ)
  /-- "Partition end (%u) past end of device (%u)" -/
  | endsPastEnd (partNr stop size : ℕ)
  deriving DecidableEq

/-- The state of a scan: the outcomes of `malloc` to come, `*part_nr`, the calls of
`found_partition` made, the block devices registered and what was printed. -/
structure Scan where
  mallocs : List Bool
  partNr : ℕ
  found : List Found
  blocks : List PartitionBlock
  messages : List ScanMessage
  deriving DecidableEq

/-- `printf`. -/
def Scan.print (s : Scan) (m : ScanMessage) : Scan := { s with messages := s.messages ++ [m] }

/-- The type of the block device for a partition type. -/
def partitionBlockType (type : UInt8) : BlockType :=
  if type = 0x20 then .kernel
  else if type = 0x21 then .filesys
  else if type = 0x22 then .scratch
  else if type = 0x23 then .swap
  else .foreign

/-- `block_register`, for a partition. -/
def blockRegister (s : Scan) (b : PartitionBlock) : Except Panic Scan :=
  if (malloc s.mallocs).1 then
    .ok { s with mallocs := (malloc s.mallocs).2, blocks := s.blocks ++ [b] }
  else .error .blockMemory

/-- `found_partition`. A name is cut off after 15 characters, and the end of the partition is
computed in 32 bits. -/
def foundPartition (name : String) (dev : Block) (f : Found) (s : Scan) : Except Panic Scan :=
  let stop := (f.part.start + f.part.size) % 2 ^ 32
  if dev.size ≤ f.part.start then .ok (s.print (.startsPastEnd f.partNr f.part.start))
  else if stop < f.part.start ∨ dev.size < stop then
    .ok (s.print (.endsPastEnd f.partNr stop dev.size))
  else if (malloc s.mallocs).1 then
    blockRegister { s with mallocs := (malloc s.mallocs).2 }
      ⟨String.ofList ((name ++ toString f.partNr).toList.take 15), partitionBlockType f.part.type,
        f.part.size, f.part.start⟩
  else .error .partitionMemory

/-- The arguments of the recursive call for an extended entry of the table in `sector`: the sector
of its table, and the primary extended sector. -/
def TableEntry.nested (e : TableEntry) (sector primary : ℕ) : ℕ × ℕ :=
  if sector = 0 then (e.offset, e.offset) else ((e.offset + primary) % 2 ^ 32, primary)

theorem TableEntry.nested_top (e : TableEntry) (primary : ℕ) :
    e.nested 0 primary = (e.offset, e.offset) :=
  if_pos rfl

theorem TableEntry.nested_of_ne (e : TableEntry) {sector : ℕ} (h : sector ≠ 0) (primary : ℕ) :
    e.nested sector primary = ((e.offset + primary) % 2 ^ 32, primary) :=
  if_neg h

/-- The partition of an entry of the table in `sector`. -/
def TableEntry.part (e : TableEntry) (sector : ℕ) : Part :=
  ⟨e.type, (e.offset + sector) % 2 ^ 32, e.size⟩

/-- A round of the loop of `read_partition_table`, with `recur` for the recursive call. There is no
result if that has none. -/
def scanEntry (name : String) (dev : Block) (recur : ℕ → ℕ → Scan → Option (Except Panic Scan))
    (sector primary : ℕ) (e : TableEntry) (s : Scan) : Option (Except Panic Scan) :=
  match e.kind with
  | .empty => some (.ok s)
  | .extended =>
    recur (e.nested sector primary).1 (e.nested sector primary).2 (s.print (.extendedIn sector))
  | .partition =>
    let f : Found := ⟨s.partNr + 1, e.part sector⟩
    some (foundPartition name dev f { s with partNr := s.partNr + 1, found := s.found ++ [f] })

/-- The loop of `read_partition_table`. -/
def scanEntries (round : TableEntry → Scan → Option (Except Panic Scan)) :
    List TableEntry → Scan → Option (Except Panic Scan)
  | [], s => some (.ok s)
  | e :: es, s =>
    match round e s with
    | some (.ok s') => scanEntries round es s'
    | r => r

/-- `read_partition_table`. The table that is read is the one in sector 0, whatever `sector` is. -/
def readPartitionTable (name : String) (dev : Block) (disk : Buffer) :
    ℕ → ℕ → ℕ → Scan → Option (Except Panic Scan)
  | 0, _, _, _ => none
  | fuel + 1, sector, primary, s =>
    if dev.size ≤ sector then some (.ok (s.print (.tablePastEnd sector)))
    else if (malloc s.mallocs).1 then
      match blockRead dev disk 0 with
      | .error p => some (.error p)
      | .ok pt =>
        let s := { s with mallocs := (malloc s.mallocs).2 }
        if tableSignature pt ≠ 0xaa55 then
          some (.ok (s.print (if primary = 0 then .invalidSignature else .invalidExtended sector)))
        else
          scanEntries (scanEntry name dev (readPartitionTable name dev disk fuel) sector primary)
            (tableEntries pt) s
    else some (.error .tableMemory)

/-- The state when a scan begins. -/
def Scan.begin (mallocs : List Bool) : Scan := ⟨mallocs, 0, [], [], []⟩

/-- `partition_scan`. -/
def partitionScan (fuel : ℕ) (name : String) (dev : Block) (disk : Buffer) (mallocs : List Bool) :
    Option (Except Panic Scan) :=
  match readPartitionTable name dev disk fuel 0 0 (.begin mallocs) with
  | some (.ok s) => some (.ok (if s.partNr = 0 then s.print .noPartitions else s))
  | r => r

/-! ### One call

The loop of a call, and then the call, by what its recursive calls do. -/

section Loop

variable {name : String} {dev : Block} {recur recur' : ℕ → ℕ → Scan → Option (Except Panic Scan)}
  {round round' : TableEntry → Scan → Option (Except Panic Scan)} {sector primary : ℕ}
  {e : TableEntry} {es : List TableEntry} {s s' : Scan}

theorem scanEntries_cons (h : round e s = some (.ok s')) :
    scanEntries round (e :: es) s = scanEntries round es s' := by
  rw [scanEntries, h]

theorem scanEntry_extended (hk : e.kind = .extended) :
    scanEntry name dev recur sector primary e s = recur (e.nested sector primary).1
      (e.nested sector primary).2 (s.print (.extendedIn sector)) := by
  rw [scanEntry, hk]

/-- **The loop ends** if its rounds do. -/
theorem scanEntries_ne_none (h : ∀ e ∈ es, ∀ s, round e s ≠ none) (s : Scan) :
    scanEntries round es s ≠ none := by
  induction es generalizing s with
  | nil => exact Option.some_ne_none _
  | cons e es ih =>
    rw [scanEntries]
    split
    · exact ih (fun e' he' => h e' (mem_cons_of_mem _ he')) _
    · exact h e mem_cons_self s

theorem scanEntry_ne_none (h : e.kind = .extended → ∀ s,
      recur (e.nested sector primary).1 (e.nested sector primary).2 s ≠ none) (s : Scan) :
    scanEntry name dev recur sector primary e s ≠ none := by
  unfold scanEntry
  split
  · exact Option.some_ne_none _
  next hk => exact h hk _
  · exact Option.some_ne_none _

/-- **More fuel changes nothing** in a loop that ends. -/
theorem scanEntries_mono (h : ∀ e s r, round e s = some r → round' e s = some r)
    {r : Except Panic Scan} (hr : scanEntries round es s = some r) :
    scanEntries round' es s = some r := by
  induction es generalizing s with
  | nil => exact hr
  | cons e es ih =>
    rw [scanEntries] at hr ⊢
    cases hc : round e s with
    | none =>
      rw [hc] at hr
      exact absurd hr.symm (Option.some_ne_none r)
    | some c =>
      rw [hc] at hr
      rw [h _ _ _ hc]
      cases c with
      | error p => exact hr
      | ok s' => exact ih hr

theorem scanEntry_mono (h : ∀ a b s r, recur a b s = some r → recur' a b s = some r)
    {r : Except Panic Scan} (hr : scanEntry name dev recur sector primary e s = some r) :
    scanEntry name dev recur' sector primary e s = some r := by
  unfold scanEntry at hr ⊢
  split at hr
  · exact hr
  · exact h _ _ _ _ hr
  · exact hr

/-- There is no result, or a next state in which there is still memory. -/
def CalmScan (r : Option (Except Panic Scan)) : Prop :=
  r = none ∨ ∃ s, r = some (.ok s) ∧ s.mallocs = []

/-- While there is memory, `found_partition` returns. -/
theorem foundPartition_ok (name : String) (dev : Block) (f : Found) (hs : s.mallocs = []) :
    ∃ s', foundPartition name dev f s = .ok s' ∧ s'.mallocs = [] ∧ s'.partNr = s.partNr ∧
      s'.found = s.found := by
  unfold foundPartition
  dsimp only
  split
  · exact ⟨_, rfl, hs, rfl, rfl⟩
  split
  · exact ⟨_, rfl, hs, rfl, rfl⟩
  rw [hs]
  exact ⟨_, rfl, rfl, rfl, rfl⟩

/-- A partition is reported under the next number. -/
theorem scanEntry_partition (name : String) (dev : Block)
    (recur : ℕ → ℕ → Scan → Option (Except Panic Scan)) (sector primary : ℕ)
    (hk : e.kind = .partition) (hs : s.mallocs = []) :
    ∃ s', scanEntry name dev recur sector primary e s = some (.ok s') ∧ s'.mallocs = [] ∧
      s'.partNr = s.partNr + 1 ∧ s'.found = s.found ++ [⟨s.partNr + 1, e.part sector⟩] := by
  rw [scanEntry, hk]
  obtain ⟨s', hf, hrest⟩ := foundPartition_ok name dev ⟨s.partNr + 1, e.part sector⟩
    (s := { s with partNr := s.partNr + 1, found := s.found ++ [⟨s.partNr + 1, e.part sector⟩] }) hs
  exact ⟨s', congrArg some hf, hrest⟩

theorem scanEntry_calm (h : ∀ a b s, s.mallocs = [] → CalmScan (recur a b s)) (hs : s.mallocs = []) :
    CalmScan (scanEntry name dev recur sector primary e s) := by
  cases hk : e.kind with
  | empty =>
    rw [scanEntry, hk]
    exact .inr ⟨s, rfl, hs⟩
  | extended =>
    rw [scanEntry_extended hk]
    exact h _ _ _ hs
  | partition =>
    obtain ⟨s', hs', hm, -⟩ := scanEntry_partition name dev recur sector primary hk hs
    exact .inr ⟨s', hs', hm⟩

theorem scanEntries_calm (h : ∀ e s, s.mallocs = [] → CalmScan (round e s)) (hs : s.mallocs = []) :
    CalmScan (scanEntries round es s) := by
  induction es generalizing s with
  | nil => exact .inr ⟨s, rfl, hs⟩
  | cons e es ih =>
    obtain hn | ⟨s', hs', hm⟩ := h e s hs
    · rw [scanEntries, hn]
      exact .inl rfl
    · rw [scanEntries_cons hs']
      exact ih hm

/-- **The loop does not end** if one of its rounds does not. -/
theorem scanEntries_none (h : ∀ e s, s.mallocs = [] → CalmScan (round e s)) (he : e ∈ es)
    (hloop : ∀ s, s.mallocs = [] → round e s = none) (hs : s.mallocs = []) :
    scanEntries round es s = none := by
  induction es generalizing s with
  | nil => exact absurd he not_mem_nil
  | cons e' es ih =>
    obtain hn | ⟨s', hs', hm⟩ := h e' s hs
    · rw [scanEntries, hn]
    · rw [scanEntries_cons hs']
      obtain rfl | he := mem_cons.mp he
      · exact absurd ((hloop s hs).symm.trans hs') (Option.some_ne_none _).symm
      · exact ih he hm

end Loop

/-- The entries of the table in sector 0. -/
def mbr (disk : Buffer) : List TableEntry := tableEntries (sectorOf disk 0)

section Call

variable {name : String} {dev : Block} {disk : Buffer} {fuel sector primary : ℕ} {s : Scan}

/-- A sector that is past the end of the device ends the recursion. -/
theorem readPartitionTable_pastEnd (h : dev.size ≤ sector) :
    readPartitionTable name dev disk (fuel + 1) sector primary s
      = some (.ok (s.print (.tablePastEnd sector))) :=
  if_pos h

/-- **A call reads sector 0** and goes through its entries. -/
theorem readPartitionTable_eq (hsec : sector < dev.size)
    (hsig : tableSignature (sectorOf disk 0) = 0xaa55) (hs : s.mallocs = []) :
    readPartitionTable name dev disk (fuel + 1) sector primary s
      = scanEntries (scanEntry name dev (readPartitionTable name dev disk fuel) sector primary)
        (mbr disk) s := by
  have hread : blockRead dev disk 0 = .ok (sectorOf disk 0) := if_pos (by omega)
  obtain ⟨mallocs, partNr, found, blocks, messages⟩ := s
  obtain rfl : mallocs = [] := hs
  rw [readPartitionTable, if_neg (by omega), hread]
  simp only [malloc_nil, if_true, hsig, ne_eq, not_true_eq_false, if_false]
  rfl

/-- A call whose table has no signature ends; so does one for which there is no memory. -/
theorem readPartitionTable_ne_none (h : tableSignature (sectorOf disk 0) = 0xaa55 →
      sector < dev.size → ∀ e ∈ mbr disk, e.kind = .extended → ∀ s, readPartitionTable name dev disk
        fuel (e.nested sector primary).1 (e.nested sector primary).2 s ≠ none) (s : Scan) :
    readPartitionTable name dev disk (fuel + 1) sector primary s ≠ none := by
  by_cases hsec : sector < dev.size
  · have hread : blockRead dev disk 0 = .ok (sectorOf disk 0) := if_pos (by omega)
    rw [readPartitionTable, if_neg (by omega), hread]
    dsimp only
    split
    · split
      · exact Option.some_ne_none _
      next hsig =>
        refine scanEntries_ne_none (fun e he s => ?_) _
        exact scanEntry_ne_none (h (not_not.mp hsig) hsec e he) s
    · exact Option.some_ne_none _
  · rw [readPartitionTable_pastEnd (by omega)]
    exact Option.some_ne_none _

/-- **More fuel changes nothing.** -/
theorem readPartitionTable_mono {r : Except Panic Scan}
    (h : readPartitionTable name dev disk fuel sector primary s = some r) :
    readPartitionTable name dev disk (fuel + 1) sector primary s = some r := by
  induction fuel generalizing sector primary s r with
  | zero => exact absurd h.symm (Option.some_ne_none r)
  | succ fuel ih =>
    rw [readPartitionTable] at h ⊢
    split at h
    next hsec => exact (if_pos hsec).trans h
    next hsec =>
      rw [if_neg hsec]
      split at h
      next hgot =>
        rw [if_pos hgot]
        split at h
        · exact h
        · split at h
          next hsig => exact (if_pos hsig).trans h
          next hsig =>
            rw [if_neg hsig]
            exact scanEntries_mono (fun e s r => scanEntry_mono fun a b s r => ih) h
      next hgot => exact (if_neg hgot).trans h

theorem readPartitionTable_le {fuel' : ℕ} (hle : fuel ≤ fuel') {r : Except Panic Scan}
    (h : readPartitionTable name dev disk fuel sector primary s = some r) :
    readPartitionTable name dev disk fuel' sector primary s = some r := by
  induction hle with
  | refl => exact h
  | step _ ih => exact readPartitionTable_mono ih

/-- **While there is memory nothing goes wrong.** -/
theorem readPartitionTable_calm (hs : s.mallocs = []) :
    CalmScan (readPartitionTable name dev disk fuel sector primary s) := by
  induction fuel generalizing sector primary s with
  | zero => exact .inl rfl
  | succ fuel ih =>
    by_cases hsec : sector < dev.size
    · by_cases hsig : tableSignature (sectorOf disk 0) = 0xaa55
      · rw [readPartitionTable_eq hsec hsig hs]
        exact scanEntries_calm (fun e s => scanEntry_calm fun a b s => ih) hs
      · have hread : blockRead dev disk 0 = .ok (sectorOf disk 0) := if_pos (by omega)
        rw [readPartitionTable, if_neg (by omega), hread, hs]
        simp only [malloc_nil, if_true, ne_eq, hsig, not_false_eq_true]
        exact .inr ⟨_, rfl, rfl⟩
    · rw [readPartitionTable_pastEnd (by omega)]
      exact .inr ⟨_, rfl, hs⟩

end Call

/-! ### Whether the scan ends -/

section Loops

variable {name : String} {dev : Block} {disk : Buffer} {e f : TableEntry}

/-- An extended entry of sector 0. -/
def IsExtended (disk : Buffer) (e : TableEntry) : Prop := e ∈ mbr disk ∧ e.kind = .extended

/-- **A scan that does not end.** The call for `e` finds sector 0 again, and with it `f`, whose table
it takes to be on the device, and so on for ever. -/
theorem readPartitionTable_loops (hsig : tableSignature (sectorOf disk 0) = 0xaa55)
    (he : IsExtended disk e) (hf : IsExtended disk f) (hin : e.offset < dev.size)
    (hsum : (e.offset + f.offset) % 2 ^ 32 < dev.size) {fuel sector primary : ℕ} {s : Scan}
    (hsec : sector < dev.size) (hp : sector = 0 ∨ primary = e.offset) (hs : s.mallocs = []) :
    readPartitionTable name dev disk fuel sector primary s = none := by
  induction fuel generalizing sector primary s with
  | zero => rfl
  | succ fuel ih =>
    -- the entry that leads on: `e` from a table in sector 0, `f` from any other
    obtain ⟨g, hg, hin', hp'⟩ : ∃ g, IsExtended disk g ∧ (g.nested sector primary).1 < dev.size ∧
        ((g.nested sector primary).1 = 0 ∨ (g.nested sector primary).2 = e.offset) := by
      by_cases h0 : sector = 0
      · subst h0
        refine ⟨e, he, ?_⟩
        rw [e.nested_top]
        exact ⟨hin, .inr rfl⟩
      · obtain rfl := hp.resolve_left h0
        refine ⟨f, hf, ?_⟩
        rw [f.nested_of_ne h0, Nat.add_comm f.offset]
        exact ⟨hsum, .inr rfl⟩
    rw [readPartitionTable_eq hsec hsig hs]
    refine scanEntries_none (fun e s => scanEntry_calm fun a b s => readPartitionTable_calm) hg.1
      (fun s hs => ?_) hs
    rw [scanEntry_extended hg.2]
    exact ih hin' hp' hs

/-- **A scan that ends**, at the latest with the calls made from the second reading of sector 0. -/
theorem readPartitionTable_ends (h : tableSignature (sectorOf disk 0) = 0xaa55 →
      ∀ e f, IsExtended disk e → IsExtended disk f → e.offset < dev.size →
        dev.size ≤ (e.offset + f.offset) % 2 ^ 32) (s : Scan) :
    readPartitionTable name dev disk 3 0 0 s ≠ none := by
  refine readPartitionTable_ne_none (fun hsig _ e he hke => ?_) s
  refine readPartitionTable_ne_none fun _ hin f hf hkf s => ?_
  rw [e.nested_top] at hin ⊢
  have hsum := h hsig e f ⟨he, hke⟩ ⟨hf, hkf⟩ hin
  have h0 : e.offset ≠ 0 := by
    intro h0
    have hself := h hsig e e ⟨he, hke⟩ ⟨he, hke⟩ hin
    rw [h0] at hself hin
    omega
  rw [f.nested_of_ne h0, Nat.add_comm f.offset, readPartitionTable_pastEnd hsum]
  exact Option.some_ne_none _

theorem partitionScan_none {fuel : ℕ} {mallocs : List Bool} :
    partitionScan fuel name dev disk mallocs = none ↔
      readPartitionTable name dev disk fuel 0 0 (.begin mallocs) = none := by
  unfold partitionScan
  split
  next h => simp [h]
  · rfl

/-- The bytes of a partition table in `sector` that has one entry, and nothing elsewhere. -/
def oneEntry (sector : ℕ) (type offset size : UInt8) : Buffer := fun i =>
  if i = 512 * sector + 450 then type
  else if i = 512 * sector + 454 then offset
  else if i = 512 * sector + 458 then size
  else if i = 512 * sector + 510 then 0x55
  else if i = 512 * sector + 511 then 0xaa
  else 0

theorem four_lt : 4 < 2 ^ 32 := by decide

/-- **When a scan ends**: unless sector 0 is a partition table with an extended entry that starts on
the device and another one, or the same again, such that the sum of their offsets is a sector of the
device. -/
theorem partition_scan_terminates (name : String) (dev : Block) (disk : Buffer) :
    (∀ mallocs, ∃ fuel, partitionScan fuel name dev disk mallocs ≠ none) ↔
      (tableSignature (sectorOf disk 0) = 0xaa55 →
        ∀ e f, IsExtended disk e → IsExtended disk f → e.offset < dev.size →
          dev.size ≤ (e.offset + f.offset) % 2 ^ 32) := by
  constructor
  · intro h hsig e f he hf hin
    by_contra hsum
    obtain ⟨fuel, hfuel⟩ := h []
    refine hfuel (partitionScan_none.mpr ?_)
    exact readPartitionTable_loops hsig he hf hin (by omega) (by omega) (.inl rfl) rfl
  · intro h mallocs
    refine ⟨3, fun hnone => ?_⟩
    exact readPartitionTable_ends h _ (partitionScan_none.mp hnone)

/-- An extended partition in sector 1 of a device of 4 sectors. -/
theorem partition_scan_loops :
    ¬∃ fuel, partitionScan fuel "hda" ⟨4, four_lt⟩ (oneEntry 0 0x05 1 3) [] ≠ none := by
  have hext : IsExtended (oneEntry 0 0x05 1 3) ⟨0x05, 1, 3⟩ := ⟨by decide, by decide⟩
  rintro ⟨fuel, hends⟩
  refine hends (partitionScan_none.mpr ?_)
  exact readPartitionTable_loops (by decide) hext hext (by decide) (by decide) (by decide)
    (.inl rfl) rfl

end Loops

/-! ### What the scan reports -/

/-- Partitions under consecutive numbers, the first after `n`. -/
def numbered : ℕ → List Part → List Found
  | _, [] => []
  | n, p :: ps => ⟨n + 1, p⟩ :: numbered (n + 1) ps

theorem numbered_append (n : ℕ) (ps qs : List Part) :
    numbered n (ps ++ qs) = numbered n ps ++ numbered (n + ps.length) qs := by
  induction ps generalizing n with
  | nil => rfl
  | cons p ps ih =>
    rw [cons_append, numbered, ih, numbered, length_cons, Nat.add_right_comm n,
      Nat.add_assoc n, cons_append]

theorem numbered_injective (n : ℕ) : Function.Injective (numbered n) := by
  have hback : ∀ n ps, (numbered n ps).map Found.part = ps := by
    intro n ps
    induction ps generalizing n with
    | nil => rfl
    | cons p ps ih => rw [numbered, map_cons, ih]
  intro ps qs h
  rw [← hback n ps, h, hback]

/-- What a part of the scan adds to the calls of `found_partition`. -/
structure Scan.Adds (s s' : Scan) (ps : List Part) : Prop where
  memory : s'.mallocs = []
  partNr : s'.partNr = s.partNr + ps.length
  found : s'.found = s.found ++ numbered s.partNr ps

theorem Scan.Adds.append {s s₁ s₂ : Scan} {ps qs : List Part} (h₁ : s.Adds s₁ ps)
    (h₂ : s₁.Adds s₂ qs) : s.Adds s₂ (ps ++ qs) where
  memory := h₂.memory
  partNr := by rw [h₂.partNr, h₁.partNr, length_append, Nat.add_assoc]
  found := by rw [h₂.found, h₁.found, h₁.partNr, numbered_append, append_assoc]

/-- The partitions of an entry of the table in `sector`, if `inner` has those of an extended one. -/
def TableEntry.parts (e : TableEntry) (sector : ℕ) (inner : List Part) : List Part :=
  match e.kind with
  | .empty => []
  | .extended => inner
  | .partition => [e.part sector]

/-- The partitions found by reading sector 0 as the table of an extended partition in `sector`. -/
def partsAgain (disk : Buffer) (sector : ℕ) : List Part :=
  (mbr disk).flatMap fun e => e.parts sector []

/-- The partitions found by reading sector 0, and once more for every extended entry. -/
def partsFound (dev : Block) (disk : Buffer) : List Part :=
  (mbr disk).flatMap fun e =>
    e.parts 0 (if e.offset < dev.size then partsAgain disk e.offset else [])

section Reports

variable {name : String} {dev : Block} {disk : Buffer}

theorem scanEntries_adds {round : TableEntry → Scan → Option (Except Panic Scan)}
    {parts : TableEntry → List Part} {es : List TableEntry}
    (h : ∀ e ∈ es, ∀ s, s.mallocs = [] → ∃ s', round e s = some (.ok s') ∧ s.Adds s' (parts e))
    {s : Scan} (hs : s.mallocs = []) :
    ∃ s', scanEntries round es s = some (.ok s') ∧ s.Adds s' (es.flatMap parts) := by
  induction es generalizing s with
  | nil => exact ⟨s, rfl, hs, rfl, (append_nil _).symm⟩
  | cons e es ih =>
    obtain ⟨s₁, hs₁, hadd₁⟩ := h e mem_cons_self s hs
    obtain ⟨s₂, hs₂, hadd₂⟩ := ih (fun e' he' => h e' (mem_cons_of_mem _ he')) hadd₁.memory
    refine ⟨s₂, (scanEntries_cons hs₁).trans hs₂, ?_⟩
    rw [flatMap_cons]
    exact hadd₁.append hadd₂

/-- A round, by what the recursive call adds. -/
theorem scanEntry_adds {recur : ℕ → ℕ → Scan → Option (Except Panic Scan)} {sector primary : ℕ}
    {e : TableEntry} {inner : List Part} {s : Scan} (hs : s.mallocs = [])
    (h : e.kind = .extended → ∀ s, s.mallocs = [] → ∃ s', recur (e.nested sector primary).1
      (e.nested sector primary).2 s = some (.ok s') ∧ s.Adds s' inner) :
    ∃ s', scanEntry name dev recur sector primary e s = some (.ok s') ∧
      s.Adds s' (e.parts sector inner) := by
  unfold TableEntry.parts
  cases hk : e.kind with
  | empty =>
    rw [scanEntry, hk]
    exact ⟨s, rfl, hs, rfl, (append_nil _).symm⟩
  | extended =>
    rw [scanEntry_extended hk]
    obtain ⟨s', hs', hadd⟩ := h hk (s.print (.extendedIn sector)) hs
    exact ⟨s', hs', hadd.memory, hadd.partNr, hadd.found⟩
  | partition =>
    obtain ⟨s', hs', hm, hn, hf⟩ := scanEntry_partition name dev recur sector primary hk hs
    exact ⟨s', hs', hm, hn, hf⟩

/-- **What is found by a scan that ends.** -/
theorem readPartitionTable_reread (name : String) (hsize : 0 < dev.size)
    (hsig : tableSignature (sectorOf disk 0) = 0xaa55)
    (h : ∀ e f, IsExtended disk e → IsExtended disk f → e.offset < dev.size →
      dev.size ≤ (e.offset + f.offset) % 2 ^ 32) {s : Scan} (hs : s.mallocs = []) :
    ∃ s', readPartitionTable name dev disk 3 0 0 s = some (.ok s') ∧
      s.Adds s' (partsFound dev disk) := by
  have hpast : ∀ sector primary fuel, dev.size ≤ sector → ∀ s : Scan, s.mallocs = [] →
      ∃ s', readPartitionTable name dev disk (fuel + 1) sector primary s = some (.ok s') ∧
        s.Adds s' [] := fun sector primary fuel hsec s hs =>
    ⟨_, readPartitionTable_pastEnd hsec, hs, rfl, (append_nil _).symm⟩
  rw [readPartitionTable_eq hsize hsig hs, partsFound]
  refine scanEntries_adds (fun e he s hs => ?_) hs
  refine scanEntry_adds hs fun hke s hs => ?_
  rw [e.nested_top]
  split
  · next hin =>
    rw [readPartitionTable_eq hin hsig hs, partsAgain]
    refine scanEntries_adds (fun f hf s hs => ?_) hs
    refine scanEntry_adds hs fun hkf s hs => ?_
    -- the third reading is of a sector that is past the end
    have h0 : e.offset ≠ 0 := by
      intro h0
      have hself := h e e ⟨he, hke⟩ ⟨he, hke⟩ hin
      rw [h0] at hself
      omega
    rw [f.nested_of_ne h0, Nat.add_comm f.offset]
    exact hpast _ _ _ (h e f ⟨he, hke⟩ ⟨hf, hkf⟩ hin) s hs
  · next hin => exact hpast _ _ _ (by omega) s hs

end Reports

/-! ### The partitions of a disk -/

/-- **The partitions of a disk**, depth first: `TableTree dev disk sector primary es ps` if `ps` are
the partitions of the entries `es` of the table in `sector`, and of the tables they point to. An
extended entry of sector 0 points to an absolute sector, one of another table to a sector relative
to the primary extended one. Every table that is pointed to is on the device and has the signature,
and since this is an inductive definition there are finitely many of them. -/
inductive TableTree (dev : Block) (disk : Buffer) :
    ℕ → ℕ → List TableEntry → List Part → Prop
  | nil {sector primary : ℕ} : TableTree dev disk sector primary [] []
  | empty {sector primary : ℕ} {e : TableEntry} {es : List TableEntry} {ps : List Part}
      (kind : e.kind = .empty) (rest : TableTree dev disk sector primary es ps) :
      TableTree dev disk sector primary (e :: es) ps
  | partition {sector primary : ℕ} {e : TableEntry} {es : List TableEntry} {ps : List Part}
      (kind : e.kind = .partition) (rest : TableTree dev disk sector primary es ps) :
      TableTree dev disk sector primary (e :: es) (⟨e.type, e.offset + sector, e.size⟩ :: ps)
  | primary {primary : ℕ} {e : TableEntry} {es : List TableEntry} {ps qs : List Part}
      (kind : e.kind = .extended) (inside : e.offset < dev.size)
      (signature : tableSignature (sectorOf disk e.offset) = 0xaa55)
      (inner : TableTree dev disk e.offset e.offset (tableEntries (sectorOf disk e.offset)) ps)
      (rest : TableTree dev disk 0 primary es qs) :
      TableTree dev disk 0 primary (e :: es) (ps ++ qs)
  | logical {sector primary : ℕ} {e : TableEntry} {es : List TableEntry} {ps qs : List Part}
      (kind : e.kind = .extended) (hsec : sector ≠ 0) (inside : e.offset + primary < dev.size)
      (signature : tableSignature (sectorOf disk (e.offset + primary)) = 0xaa55)
      (inner : TableTree dev disk (e.offset + primary) primary
        (tableEntries (sectorOf disk (e.offset + primary))) ps)
      (rest : TableTree dev disk sector primary es qs) :
      TableTree dev disk sector primary (e :: es) (ps ++ qs)

/-- The extended entries of sector 0 point to sectors of the device. -/
theorem TableTree.inside {dev : Block} {disk : Buffer} {primary : ℕ} {es : List TableEntry}
    {ps : List Part} (h : TableTree dev disk 0 primary es ps) :
    ∀ e ∈ es, e.kind = .extended → e.offset < dev.size := by
  generalize hsec : (0 : ℕ) = sector at h
  induction h with
  | nil => exact fun e he => absurd he not_mem_nil
  | empty hk _ ih =>
    refine forall_mem_cons.mpr ⟨fun hext => ?_, ih hsec⟩
    exact absurd (hk.symm.trans hext) (by decide)
  | partition hk _ ih =>
    refine forall_mem_cons.mpr ⟨fun hext => ?_, ih hsec⟩
    exact absurd (hk.symm.trans hext) (by decide)
  | primary _ hin _ _ _ _ ih => exact forall_mem_cons.mpr ⟨fun _ => hin, ih hsec⟩
  | logical _ hne => exact absurd hsec.symm hne

/-- The partitions of the disk whose tables are in order. -/
structure DiskParts (dev : Block) (disk : Buffer) (ps : List Part) : Prop where
  size : 0 < dev.size
  signature : tableSignature (sectorOf disk 0) = 0xaa55
  tree : TableTree dev disk 0 0 (mbr disk) ps

/-- The calls of `found_partition` made by the scan of a disk. -/
def Reports (name : String) (dev : Block) (disk : Buffer) (fs : List Found) : Prop :=
  ∃ fuel s, partitionScan fuel name dev disk [] = some (.ok s) ∧ s.found = fs

/-- What the scan reports does not depend on the fuel. -/
theorem reports_iff {name : String} {dev : Block} {disk : Buffer} {fuel : ℕ} {s : Scan}
    (h : readPartitionTable name dev disk fuel 0 0 (.begin []) = some (.ok s))
    (fs : List Found) : Reports name dev disk fs ↔ s.found = fs := by
  have hscan : ∀ fuel s, readPartitionTable name dev disk fuel 0 0 (.begin [])
      = some (.ok s) → ∃ s', partitionScan fuel name dev disk [] = some (.ok s') ∧
        s'.found = s.found := by
    intro fuel s hs
    rw [partitionScan, hs]
    refine ⟨_, rfl, ?_⟩
    split <;> rfl
  constructor
  · rintro ⟨fuel', t, ht, rfl⟩
    -- both scans end, so they agree on the larger fuel
    have hcalm : CalmScan (readPartitionTable name dev disk fuel' 0 0 (.begin [])) :=
      readPartitionTable_calm rfl
    obtain hn | ⟨s', hs', -⟩ := hcalm
    · rw [partitionScan_none.mpr hn] at ht
      exact absurd ht.symm (Option.some_ne_none _)
    · obtain ⟨t', ht', hfound⟩ := hscan fuel' s' hs'
      obtain rfl : t' = t := Except.ok.inj (Option.some.inj (ht'.symm.trans ht))
      have h₁ := readPartitionTable_le (Nat.le_max_left fuel fuel') h
      have h₂ := readPartitionTable_le (Nat.le_max_right fuel fuel') hs'
      rw [hfound, Except.ok.inj (Option.some.inj (h₁.symm.trans h₂))]
  · rintro rfl
    obtain ⟨s', hs', hfound⟩ := hscan fuel s h
    exact ⟨fuel, s', hs', hfound⟩

/-- **The scan reports the partitions of the disk** iff sector 0, read again in the place of every
extended table, has them too: that is so if it has no extended entry. -/
theorem partition_scan_reports (name : String) (dev : Block) (disk : Buffer) (ps : List Part)
    (h : DiskParts dev disk ps) :
    Reports name dev disk (numbered 0 ps) ↔
      (∀ e f, IsExtended disk e → IsExtended disk f → dev.size ≤ (e.offset + f.offset) % 2 ^ 32) ∧
        partsFound dev disk = ps := by
  by_cases hends : ∀ e f, IsExtended disk e → IsExtended disk f →
      dev.size ≤ (e.offset + f.offset) % 2 ^ 32
  · obtain ⟨s, hs, hadd⟩ := readPartitionTable_reread name h.size h.signature
      (fun e f he hf _ => hends e f he hf) (s := .begin []) rfl
    have hfound : s.found = numbered 0 (partsFound dev disk) := hadd.found
    rw [reports_iff hs, hfound, (numbered_injective 0).eq_iff]
    exact (and_iff_right hends).symm
  · refine iff_of_false ?_ fun hcond => hends hcond.1
    rintro ⟨fuel, s, hs, -⟩
    push Not at hends
    obtain ⟨e, f, he, hf, hsum⟩ := hends
    have hin := h.tree.inside e he.1 he.2
    have hnone : readPartitionTable name dev disk fuel 0 0 (.begin []) = none :=
      readPartitionTable_loops h.signature he hf hin hsum h.size (.inl rfl) rfl
    rw [partitionScan_none.mpr hnone] at hs
    exact absurd hs.symm (Option.some_ne_none _)

theorem partition_scan_reports_primary :
    DiskParts ⟨4, four_lt⟩ (oneEntry 0 0x21 1 2) [⟨0x21, 1, 2⟩] ∧
      Reports "hda" ⟨4, four_lt⟩ (oneEntry 0 0x21 1 2) [⟨1, ⟨0x21, 1, 2⟩⟩] := by
  have hparts : DiskParts ⟨4, four_lt⟩ (oneEntry 0 0x21 1 2) [⟨0x21, 1, 2⟩] := by
    refine ⟨by decide, by decide, .partition (by decide) ?_⟩
    exact .empty (by decide) (.empty (by decide) (.empty (by decide) .nil))
  refine ⟨hparts, (partition_scan_reports "hda" _ _ _ hparts).mpr ⟨?_, by decide⟩⟩
  intro e f he
  have hnone : ∀ e ∈ mbr (oneEntry 0 0x21 1 2), e.kind ≠ .extended := by decide
  exact absurd he.2 (hnone e he.1)

/-- A disk with an extended partition, the table of which is in sector 2. -/
def extendedDisk : Buffer := fun i =>
  if i < 512 then oneEntry 0 0x05 2 2 i else oneEntry 2 0x20 1 1 i

theorem partition_scan_misses_logical :
    DiskParts ⟨4, four_lt⟩ extendedDisk [⟨0x20, 3, 1⟩] ∧
      ¬Reports "hda" ⟨4, four_lt⟩ extendedDisk (numbered 0 [⟨0x20, 3, 1⟩]) ∧
      Reports "hda" ⟨4, four_lt⟩ extendedDisk [] := by
  have hread : readPartitionTable "hda" ⟨4, four_lt⟩ extendedDisk 3 0 0 (.begin [])
      = some (.ok ⟨[], 0, [], [], [.extendedIn 0, .extendedIn 2, .tablePastEnd 4]⟩) := rfl
  refine ⟨⟨by decide, by decide, ?_⟩, ?_, (reports_iff hread []).mpr rfl⟩
  · have hinner : TableTree ⟨4, four_lt⟩ extendedDisk 2 2 (tableEntries (sectorOf extendedDisk 2))
        [⟨0x20, 3, 1⟩] := by
      refine .partition (e := tableEntry (sectorOf extendedDisk 2) 0) (by decide) ?_
      exact .empty (by decide) (.empty (by decide) (.empty (by decide) .nil))
    have hrest : TableTree ⟨4, four_lt⟩ extendedDisk 0 0 (mbr extendedDisk).tail [] :=
      .empty (by decide) (.empty (by decide) (.empty (by decide) .nil))
    exact .primary (e := tableEntry (sectorOf extendedDisk 0) 0) (by decide) (by decide) (by decide)
      hinner hrest
  · rw [reports_iff hread]
    exact (cons_ne_nil _ _).symm

end Pintos
