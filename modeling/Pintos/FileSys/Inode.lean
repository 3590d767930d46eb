import Pintos.FileSys.Disk

/-!
# Inodes, files and the free map

`filesys/inode.c`, `filesys/file.c`, `filesys/free-map.c` and the file part of `bitmap.c`, which
call each other: an inode is created with sectors from the free map, the free map is written to a
file, and a file is an open inode with a position.

In-memory inodes are shared, so they live in a table under a pointer. A `struct file` or a
`struct dir` belongs to one caller; it is passed and returned as a value.

* `inodeReadAt_eq`, `inodeWriteAt_eq` — the two transfers, as a copy of bytes;
* `inode_bytes` — a file is an array of bytes.
-/

namespace Pintos

open Total Function

/-- A pointer to a `struct inode`. -/
abbrev InodePtr := ℕ

/-- `struct inode`, without its list element. -/
structure Inode where
  sector : ℕ
  openCnt : ℤ
  removed : Bool
  denyWriteCnt : ℤ
  data : InodeDisk

/-- `struct file`. -/
structure File where
  inode : InodePtr
  pos : ℤ
  denyWrite : Bool
  deriving DecidableEq

/-- The state of the file system: the device, the free map and its file, and the open inodes. -/
structure FileSys where
  dev : Block
  disk : Buffer
  freeMap : Bitmap
  freeMapFile : Option File
  inodes : InodePtr → Inode
  openInodes : List InodePtr
  /-- The next pointer `malloc` returns for an inode. -/
  nextInode : InodePtr
  /-- The outcomes of the calls of `malloc` to come. -/
  mallocs : List Bool

/-- `FREE_MAP_SECTOR`. -/
def freeMapSector : ℕ := 0

/-- `ROOT_DIR_SECTOR`. -/
def rootDirSector : ℕ := 1

/-! ### Reading and writing -/

/-- `inode_read_at`: the bytes read, and the buffer. -/
def inodeReadAt (s : FileSys) (inode : InodePtr) (buffer : Buffer) (size offset : ℤ) :
    Except Panic (ℕ × Buffer × FileSys) := do
  let (bytesRead, buffer, mallocs) ← transferLoop (s.inodes inode).data (readMove s.dev s.disk)
    size.toNat s.mallocs false buffer size offset 0
  .ok (bytesRead, buffer, { s with mallocs := mallocs })

/-- `inode_write_at`: the bytes written. -/
def inodeWriteAt (s : FileSys) (inode : InodePtr) (buffer : Buffer) (size offset : ℤ) :
    Except Panic (ℕ × FileSys) :=
  if (s.inodes inode).denyWriteCnt ≠ 0 then .ok (0, s)
  else do
    let (bytesWritten, disk, mallocs) ← transferLoop (s.inodes inode).data (writeMove s.dev buffer)
      size.toNat s.mallocs false s.disk size offset 0
    .ok (bytesWritten, { s with disk := disk, mallocs := mallocs })

/-- `file_read_at`. -/
def fileReadAt (s : FileSys) (file : File) (buffer : Buffer) (size fileOfs : ℤ) :
    Except Panic (ℕ × Buffer × FileSys) :=
  inodeReadAt s file.inode buffer size fileOfs

/-- `file_write_at`. -/
def fileWriteAt (s : FileSys) (file : File) (buffer : Buffer) (size fileOfs : ℤ) :
    Except Panic (ℕ × FileSys) :=
  inodeWriteAt s file.inode buffer size fileOfs

/-- `file_read`: the bytes read, the buffer, and the file with its new position. -/
def fileRead (s : FileSys) (file : File) (buffer : Buffer) (size : ℤ) :
    Except Panic (ℕ × Buffer × File × FileSys) := do
  let (bytesRead, buffer, s) ← inodeReadAt s file.inode buffer size file.pos
  .ok (bytesRead, buffer, { file with pos := file.pos + bytesRead }, s)

/-- `file_write`. -/
def fileWrite (s : FileSys) (file : File) (buffer : Buffer) (size : ℤ) :
    Except Panic (ℕ × File × FileSys) := do
  let (bytesWritten, s) ← inodeWriteAt s file.inode buffer size file.pos
  .ok (bytesWritten, { file with pos := file.pos + bytesWritten }, s)

/-- `file_seek`. -/
def fileSeek (file : File) (newPos : ℤ) : Except Panic File :=
  if newPos ≥ 0 then .ok { file with pos := newPos } else .error .assertion

/-! ### The free map -/

/-- The elements of a bitmap as they lie in memory. -/
def Bitmap.bytes (b : Bitmap) : Buffer := fun i => putLe32 (b.bits (i / 4)).toNat (i % 4)

/-- A bitmap whose elements are loaded from memory. -/
def Bitmap.load (b : Bitmap) (buffer : Buffer) : Bitmap :=
  { b with bits := fun k => BitVec.ofNat 32 (le32 buffer (4 * k)) }

/-- `bitmap_read`. The index of the last element is computed in 32 bits. -/
def bitmapRead (s : FileSys) (b : Bitmap) (file : File) : Except Panic (Bool × Bitmap × FileSys) :=
  if b.bitCnt > 0 then do
    let size := byteCnt b.bitCnt
    let (n, buffer, s) ← fileReadAt s file b.bytes size 0
    let b := b.load buffer
    let last := (elemCnt b.bitCnt + (2 ^ 32 - 1)) % 2 ^ 32
    let b := { b with bits := update b.bits last (b.bits last &&& lastMask b) }
    .ok (n == size, b, s)
  else .ok (true, b, s)

/-- `bitmap_write`. -/
def bitmapWrite (s : FileSys) (b : Bitmap) (file : File) : Except Panic (Bool × FileSys) := do
  let size := byteCnt b.bitCnt
  let (n, s) ← fileWriteAt s file b.bytes size 0
  .ok (n == size, s)

/-- `free_map_allocate`. -/
def freeMapAllocate (s : FileSys) (cnt : ℕ) : Except Panic (Option ℕ × FileSys) := do
  let (found, map) ← bitmapScanAndFlip s.freeMap 0 cnt false
  match found with
  | none => .ok (none, s)
  | some sector =>
    let s := { s with freeMap := map }
    match s.freeMapFile with
    | none => .ok (some sector, s)
    | some file =>
      let (written, s) ← bitmapWrite s s.freeMap file
      if written then .ok (some sector, s)
      else
        let map ← bitmapSetMultiple s.freeMap sector cnt false
        .ok (none, { s with freeMap := map })

/-- `free_map_release`. -/
def freeMapRelease (s : FileSys) (sector cnt : ℕ) : Except Panic FileSys := do
  let all ← bitmapAll s.freeMap sector cnt
  if all then
    let map ← bitmapSetMultiple s.freeMap sector cnt false
    let s := { s with freeMap := map }
    match s.freeMapFile with
    | none => .error .nullPointer
    | some file =>
      let (_, s) ← bitmapWrite s s.freeMap file
      .ok s
  else .error .assertion

/-! ### Inodes -/

/-- The loop of `inode_create` that clears the data sectors. -/
def zeroSectors (dev : Block) : ℕ → ℕ → Buffer → Except Panic Buffer
  | 0, _, disk => .ok disk
  | sectors + 1, start, disk => do
    let disk ← blockWrite dev disk start fun _ => 0
    zeroSectors dev sectors (start + 1) disk

/-- `inode_create`. -/
def inodeCreate (s : FileSys) (sector : ℕ) (length : ℤ) : Except Panic (Bool × FileSys) :=
  if length < 0 then .error .assertion
  else
    let (got, mallocs) := malloc s.mallocs
    let s := { s with mallocs := mallocs }
    if got then do
      let sectors := bytesToSectors length
      let (start, s) ← freeMapAllocate s sectors
      match start with
      | none => .ok (false, s)
      | some start =>
        let disk ← blockWrite s.dev s.disk sector (InodeDisk.write ⟨start, length, inodeMagic⟩)
        let disk ← zeroSectors s.dev sectors start disk
        .ok (true, { s with disk := disk })
    else .ok (false, s)

/-- `inode_reopen`. -/
def inodeReopen (s : FileSys) (inode : InodePtr) : FileSys :=
  { s with
    inodes := update s.inodes inode
      { s.inodes inode with openCnt := (s.inodes inode).openCnt + 1 } }

/-- `inode_open`. -/
def inodeOpen (s : FileSys) (sector : ℕ) : Except Panic (Option InodePtr × FileSys) :=
  match s.openInodes.find? fun inode => (s.inodes inode).sector == sector with
  | some inode => .ok (some inode, inodeReopen s inode)
  | none =>
    let (got, mallocs) := malloc s.mallocs
    let s := { s with mallocs := mallocs }
    if got then do
      let data ← blockRead s.dev s.disk sector
      let inode := s.nextInode
      .ok (some inode, { s with
        inodes := update s.inodes inode ⟨sector, 1, false, 0, InodeDisk.read data⟩
        openInodes := inode :: s.openInodes
        nextInode := inode + 1 })
    else .ok (none, s)

/-- `inode_close`. -/
def inodeClose (s : FileSys) : Option InodePtr → Except Panic FileSys
  | none => .ok s
  | some inode =>
    let openCnt := (s.inodes inode).openCnt - 1
    let s := { s with
      inodes := update s.inodes inode { s.inodes inode with openCnt := openCnt } }
    if openCnt = 0 then
      let s := { s with openInodes := s.openInodes.erase inode }
      if (s.inodes inode).removed then do
        let s ← freeMapRelease s (s.inodes inode).sector 1
        freeMapRelease s (s.inodes inode).data.start (bytesToSectors (s.inodes inode).data.length)
      else .ok s
    else .ok s

/-- `inode_remove`. -/
def inodeRemove (s : FileSys) (inode : InodePtr) : FileSys :=
  { s with inodes := update s.inodes inode { s.inodes inode with removed := true } }

/-- `inode_deny_write`. -/
def inodeDenyWrite (s : FileSys) (inode : InodePtr) : Except Panic FileSys :=
  let cnt := (s.inodes inode).denyWriteCnt + 1
  if cnt ≤ (s.inodes inode).openCnt then
    .ok { s with
      inodes := update s.inodes inode { s.inodes inode with denyWriteCnt := cnt } }
  else .error .assertion

/-- `inode_allow_write`. -/
def inodeAllowWrite (s : FileSys) (inode : InodePtr) : Except Panic FileSys :=
  let cnt := (s.inodes inode).denyWriteCnt
  if cnt > 0 ∧ cnt ≤ (s.inodes inode).openCnt then
    .ok { s with
      inodes := update s.inodes inode { s.inodes inode with denyWriteCnt := cnt - 1 } }
  else .error .assertion

/-! ### Files -/

/-- `file_open`. -/
def fileOpen (s : FileSys) (inode : Option InodePtr) : Except Panic (Option File × FileSys) :=
  let (got, mallocs) := malloc s.mallocs
  let s := { s with mallocs := mallocs }
  match inode, got with
  | some inode, true => .ok (some ⟨inode, 0, false⟩, s)
  | inode, _ => do
    let s ← inodeClose s inode
    .ok (none, s)

/-- `file_reopen`. -/
def fileReopen (s : FileSys) (file : File) : Except Panic (Option File × FileSys) :=
  fileOpen (inodeReopen s file.inode) (some file.inode)

/-- `file_deny_write`. -/
def fileDenyWrite (s : FileSys) (file : File) : Except Panic (File × FileSys) :=
  if file.denyWrite then .ok (file, s)
  else do
    let s ← inodeDenyWrite s file.inode
    .ok ({ file with denyWrite := true }, s)

/-- `file_allow_write`. -/
def fileAllowWrite (s : FileSys) (file : File) : Except Panic (File × FileSys) :=
  if file.denyWrite then do
    let s ← inodeAllowWrite s file.inode
    .ok ({ file with denyWrite := false }, s)
  else .ok (file, s)

/-- `file_close`. -/
def fileClose (s : FileSys) : Option File → Except Panic FileSys
  | none => .ok s
  | some file => do
    let (file, s) ← fileAllowWrite s file
    inodeClose s (some file.inode)

/-- `file_length`. -/
def fileLength (s : FileSys) (file : File) : ℤ := (s.inodes file.inode).data.length

/-! ### The file of the free map -/

/-- `free_map_create`. -/
def freeMapCreate (s : FileSys) : Except Panic FileSys := do
  let (created, s) ← inodeCreate s freeMapSector (byteCnt s.freeMap.bitCnt)
  if created then
    let (inode, s) ← inodeOpen s freeMapSector
    let (file, s) ← fileOpen s inode
    let s := { s with freeMapFile := file }
    match file with
    | none => .error .freeMapOpen
    | some file =>
      let (written, s) ← bitmapWrite s s.freeMap file
      if written then .ok s else .error .freeMapWrite
  else .error .freeMapCreation

/-- `free_map_open`. -/
def freeMapOpen (s : FileSys) : Except Panic FileSys := do
  let (inode, s) ← inodeOpen s freeMapSector
  let (file, s) ← fileOpen s inode
  match file with
  | none => .error .freeMapOpen
  | some file =>
    let (read, map, s) ← bitmapRead s s.freeMap file
    if read then .ok { s with freeMap := map, freeMapFile := some file } else .error .freeMapRead

/-- `free_map_close`. -/
def freeMapClose (s : FileSys) : Except Panic FileSys := fileClose s s.freeMapFile

/-! ### The two transfers -/

section Transfers

variable {s : FileSys} {inode : InodePtr} {data : InodeDisk} {o hi : ℕ}

/-- The bytes of a file up to `hi` lie on the device, and its length is a length. -/
structure InodeDisk.OnDevice (data : InodeDisk) (dev : Block) (hi : ℕ) : Prop where
  nonneg : 0 ≤ data.length
  lt : data.length < 2 ^ 31
  sector : ∀ o < hi, data.start + o / 512 < dev.size

/-- **`inode_read_at`** copies from the extent of the file. -/
theorem inodeReadAt_eq (hdata : (s.inodes inode).data = data) {buffer : Buffer} {size : ℤ}
    (ho : o < 2 ^ 31) (hdev : data.OnDevice s.dev hi)
    (hhi : clip data size o ≠ 0 → o + clip data size o ≤ hi) :
    inodeReadAt s inode buffer size o =
      .ok (moved s.mallocs false o (clip data size o),
        memcpy buffer 0 s.disk (512 * data.start + o) (moved s.mallocs false o (clip data size o)),
        { s with mallocs := mallocsAfter s.mallocs false o (clip data size o) }) := by
  have hloop := @transferLoop_eq data (readMove s.dev s.disk)
    (fun o d n b => memcpy b d s.disk (512 * data.start + o) n) _ hdev.nonneg hdev.lt
    (fun o ho => (hdev.sector o ho).trans s.dev.lt) (fun _ _ _ => memcpy_zero)
    (fun o d n m b => by
      rw [show 512 * data.start + (o + n) = 512 * data.start + o + n by omega]
      exact memcpy_memcpy)
    (fun o n d b hn hsec hhi => readMove_eq (hdev.sector o (by omega)) hsec)
    size.toNat s.mallocs false buffer size o 0 (Int.self_le_toNat size) ho hhi
  unfold inodeReadAt
  rw [hdata, hloop]
  simp only [Nat.zero_add]
  rfl

/-- **`inode_write_at`** copies into the extent of the file. -/
theorem inodeWriteAt_eq (hdata : (s.inodes inode).data = data)
    (hallowed : (s.inodes inode).denyWriteCnt = 0) (buffer : Buffer) {size : ℤ}
    (ho : o < 2 ^ 31) (hdev : data.OnDevice s.dev hi)
    (hhi : clip data size o ≠ 0 → o + clip data size o ≤ hi) :
    inodeWriteAt s inode buffer size o =
      .ok (moved s.mallocs false o (clip data size o),
        { s with
          disk := memcpy s.disk (512 * data.start + o) buffer 0
            (moved s.mallocs false o (clip data size o))
          mallocs := mallocsAfter s.mallocs false o (clip data size o) }) := by
  have hloop := @transferLoop_eq data (writeMove s.dev buffer)
    (fun o d n disk => memcpy disk (512 * data.start + o) buffer d n) _ hdev.nonneg hdev.lt
    (fun o ho => (hdev.sector o ho).trans s.dev.lt) (fun _ _ _ => memcpy_zero)
    (fun o d n m b => by
      rw [show 512 * data.start + (o + n) = 512 * data.start + o + n by omega]
      exact memcpy_memcpy)
    (fun o n d b hn hsec hhi => writeMove_eq (hdev.sector o (by omega)) hsec)
    size.toNat s.mallocs false s.disk size o 0 (Int.self_le_toNat size) ho hhi
  unfold inodeWriteAt
  rw [if_neg (not_not.mpr hallowed), hdata, hloop]
  simp only [Nat.zero_add]
  rfl

/-! ### Files as arrays of bytes -/

/-- Byte `i` of a file. -/
def FileSys.fileByte (s : FileSys) (inode : InodePtr) (i : ℕ) : UInt8 :=
  s.disk (512 * (s.inodes inode).data.start + i)

/-- **Bytes of a file were written**: the `k` bytes at `offset`, and no other byte of the device. -/
structure BytesWritten (s s' : FileSys) (inode : InodePtr) (buffer : Buffer) (offset k : ℕ) : Prop where
  file : ∀ i < k, s'.fileByte inode (offset + i) = buffer i
  outside : ∀ x, x < 512 * (s.inodes inode).data.start + offset ∨
    512 * (s.inodes inode).data.start + offset + k ≤ x → s'.disk x = s.disk x
  rest : s' = { s with disk := s'.disk, mallocs := s'.mallocs }

/-- **Bytes of a file were read**: the `k` bytes at `offset`, into the beginning of the buffer. -/
structure BytesRead (s s' : FileSys) (inode : InodePtr) (buffer buffer' : Buffer) (offset k : ℕ) :
    Prop where
  file : ∀ i < k, buffer' i = s.fileByte inode (offset + i)
  outside : ∀ i, k ≤ i → buffer' i = buffer i
  rest : s' = { s with mallocs := s'.mallocs }

/-- With a bounce buffer everything is moved. -/
theorem moved_of_malloc {mallocs : List Bool} (h : ∀ got ∈ mallocs, got = true) (bounce : Bool) (k : ℕ) :
    moved mallocs bounce o k = k := by
  have hgot : (malloc mallocs).1 = true := by
    cases mallocs with
    | nil => rfl
    | cons got mallocs => exact h got (List.mem_cons_self ..)
  exact if_pos (.inr (.inr hgot))

section Bytes

variable (hextent : (s.inodes inode).data.OnDevice s.dev (s.inodes inode).data.length.toNat)
  (hmalloc : ∀ got ∈ s.mallocs, got = true) (ho : o < 2 ^ 31)

include hextent hmalloc ho

/-- `inode_read_at`, of which `malloc` does not fail. -/
theorem inodeReadAt_clip (buffer : Buffer) (size : ℤ) :
    ∃ ms, inodeReadAt s inode buffer size o =
      .ok (clip (s.inodes inode).data size o,
        memcpy buffer 0 s.disk (512 * (s.inodes inode).data.start + o) (clip (s.inodes inode).data size o),
        { s with mallocs := ms }) := by
  have hread := @inodeReadAt_eq s inode _ o _ rfl buffer size ho hextent add_clip_le
  rw [moved_of_malloc hmalloc] at hread
  exact ⟨_, hread⟩

/-- `inode_write_at`, of which `malloc` does not fail. -/
theorem inodeWriteAt_clip (hallowed : (s.inodes inode).denyWriteCnt = 0) (buffer : Buffer) (size : ℤ) :
    ∃ ms, inodeWriteAt s inode buffer size o =
      .ok (clip (s.inodes inode).data size o,
        { s with
          disk := memcpy s.disk (512 * (s.inodes inode).data.start + o) buffer 0
            (clip (s.inodes inode).data size o)
          mallocs := ms }) := by
  have hwrite := @inodeWriteAt_eq s inode _ o _ rfl hallowed buffer size ho hextent add_clip_le
  rw [moved_of_malloc hmalloc] at hwrite
  exact ⟨_, hwrite⟩

end Bytes

/-- **A file is an array of bytes**, of which `inode_write_at` writes a range and `inode_read_at` reads one.
-/
theorem inode_bytes {size offset : ℤ}
    (hextent : (s.inodes inode).data.OnDevice s.dev (s.inodes inode).data.length.toNat)
    (hmalloc : ∀ got ∈ s.mallocs, got = true) (hoffset : 0 ≤ offset ∧ offset < 2 ^ 31)
    (hallowed : (s.inodes inode).denyWriteCnt = 0) (buffer : Buffer) :
    (Ends (inodeWriteAt s inode buffer size offset) fun r =>
      (r.1 : ℤ) = max 0 (min size ((s.inodes inode).data.length - offset)) ∧
        BytesWritten s r.2 inode buffer offset.toNat r.1) ∧
    Ends (inodeReadAt s inode buffer size offset) fun r =>
      (r.1 : ℤ) = max 0 (min size ((s.inodes inode).data.length - offset)) ∧
        BytesRead s r.2.2 inode buffer r.2.1 offset.toNat r.1 := by
  obtain ⟨o, rfl⟩ := Int.eq_ofNat_of_zero_le hoffset.1
  have ho : o < 2 ^ 31 := by exact_mod_cast hoffset.2
  have hclip : (clip (s.inodes inode).data size o : ℤ)
      = max 0 (min size ((s.inodes inode).data.length - o)) := by
    rw [clip, Int.toNat_eq_max, max_comm]
  rw [Int.toNat_natCast]
  constructor
  · obtain ⟨ms, hcall⟩ := inodeWriteAt_clip hextent hmalloc ho hallowed buffer size
    rw [hcall]
    refine .ok ⟨hclip, fun i hi => ?_, fun x hx => memcpy_outside hx, rfl⟩
    show memcpy s.disk _ buffer 0 _ (512 * (s.inodes inode).data.start + (o + i)) = buffer i
    rw [memcpy_inside (by omega) (by omega)]
    congr 1
    omega
  · obtain ⟨ms, hcall⟩ := inodeReadAt_clip hextent hmalloc ho buffer size
    rw [hcall]
    refine .ok ⟨hclip, fun i hi => ?_, fun i hi => ?_, rfl⟩
    · show memcpy buffer 0 s.disk _ _ i = s.disk _
      rw [memcpy_inside (Nat.zero_le i) (by omega)]
      congr 1
      omega
    · exact memcpy_outside (.inr (by omega))

/-- A file of 1000 bytes that starts in sector 3 of a device of 16 sectors: of 600 bytes at 500, the first 500
are written, a part of the first sector and a part of the second. -/
theorem inode_bytes_two_sectors :
    ∃ s : FileSys, (s.inodes 1).data = ⟨3, 1000, inodeMagic⟩ ∧ s.dev.size = 16 ∧
      Ends (inodeWriteAt s 1 (fun _ => 7) 600 500) fun r =>
        (r.1 : ℤ) = 500 ∧ BytesWritten s r.2 1 (fun _ => 7) 500 r.1 := by
  let s : FileSys :=
    ⟨⟨16, by decide⟩, fun _ => 0, ⟨16, fun _ => 0⟩, none,
      fun _ => ⟨2, 1, false, 0, ⟨3, 1000, inodeMagic⟩⟩, [1], 2, []⟩
  have hextent : (s.inodes 1).data.OnDevice s.dev (s.inodes 1).data.length.toNat :=
    ⟨by decide, by decide, fun o (ho : o < 1000) => (show 3 + o / 512 < 16 by omega)⟩
  exact ⟨s, rfl, rfl, (inode_bytes hextent (fun got hgot => absurd hgot (List.not_mem_nil))
    ⟨by decide, by decide⟩ rfl fun _ => 7).1⟩

end Transfers

end Pintos
