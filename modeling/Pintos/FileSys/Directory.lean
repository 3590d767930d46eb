import Pintos.FileSys.Inode
import Pintos.Lib.CString

/-!
# Directories and the calls of the file system

`filesys/directory.c` and `filesys/filesys.c`. A directory is a file of 20-byte entries: the sector
of an inode, a name of at most 14 characters, and whether the entry is in use. An entry that is
read is a buffer of 20 bytes; a variable that is not initialized holds zeros.

* `scanDir` — the loop that `lookup` and `dir_add` share: entries are read until one is found, and
  a short read ends the loop, be it the end of the directory or a lack of memory;
* `filesysCreate`, `filesysOpen`, `filesysRemove`, `filesysInit` — the calls.
-/

namespace Pintos

/-- `NAME_MAX`. -/
def nameMax : ℕ := 14

/-! ### Entries -/

/-- `e.inode_sector`. -/
def entrySector (e : Buffer) : ℕ := le32 e 0

/-- `e.name`, up to its NUL. -/
def entryName (e : Buffer) : List UInt8 :=
  ((List.range (nameMax + 1)).map fun i => e (4 + i)).takeWhile (· ≠ 0)

/-- `e.in_use`. -/
def entryInUse (e : Buffer) : Bool := e 19 != 0

/-- `e` with its fields set by `dir_add`. -/
def setEntry (e : Buffer) (name : CString) (inodeSector : ℕ) : Buffer := fun i =>
  if i < 4 then putLe32 inodeSector i
  else strlcpy (Function.update e 19 1) 4 name (nameMax + 1) i

/-- `e.in_use = false`. -/
def freeEntry (e : Buffer) : Buffer := Function.update e 19 0

/-! ### Directories -/

/-- `struct dir`. -/
structure Dir where
  inode : InodePtr
  pos : ℤ

/-- `dir_create`. -/
def dirCreate (s : FileSys) (sector entryCnt : ℕ) : Except Panic (Bool × FileSys) :=
  inodeCreate s sector (toInt32 (entryCnt * 20))

/-- `dir_open`. -/
def dirOpen (s : FileSys) (inode : Option InodePtr) : Except Panic (Option Dir × FileSys) :=
  let (got, mallocs) := malloc s.mallocs
  let s := { s with mallocs := mallocs }
  match inode, got with
  | some inode, true => .ok (some ⟨inode, 0⟩, s)
  | inode, _ => do
    let s ← inodeClose s inode
    .ok (none, s)

/-- `dir_open_root`. -/
def dirOpenRoot (s : FileSys) : Except Panic (Option Dir × FileSys) := do
  let (inode, s) ← inodeOpen s rootDirSector
  dirOpen s inode

/-- `dir_close`. -/
def dirClose (s : FileSys) : Option Dir → Except Panic FileSys
  | none => .ok s
  | some dir => inodeClose s (some dir.inode)

/-- The loop over the entries of a directory: whether it stopped at an entry, the last entry read,
its offset. Every round but the last reads a whole entry. -/
def scanDir (inode : InodePtr) (stop : Buffer → Bool) :
    ℕ → FileSys → Buffer → ℤ → Except Panic (Bool × Buffer × ℤ × FileSys)
  | 0, s, e, ofs => .ok (false, e, ofs, s)
  | fuel + 1, s, e, ofs => do
    let (n, e, s) ← inodeReadAt s inode e 20 ofs
    if n = 20 then
      if stop e then .ok (true, e, ofs, s) else scanDir inode stop fuel s e (ofs + 20)
    else .ok (false, e, ofs, s)

/-- Rounds enough for a directory. -/
def scanFuel (s : FileSys) (inode : InodePtr) : ℕ := (s.inodes inode).data.length.toNat / 20 + 1

/-- `lookup`: the entry and its offset. -/
def lookup (s : FileSys) (dir : Dir) (name : CString) :
    Except Panic (Option (Buffer × ℤ) × FileSys) := do
  let (found, e, ofs, s) ← scanDir dir.inode (fun e => entryInUse e && entryName e == name.chars)
    (scanFuel s dir.inode) s (fun _ => 0) 0
  if found then .ok (some (e, ofs), s) else .ok (none, s)

/-- `dir_lookup`. -/
def dirLookup (s : FileSys) (dir : Dir) (name : CString) :
    Except Panic (Option InodePtr × FileSys) := do
  let (found, s) ← lookup s dir name
  match found with
  | none => .ok (none, s)
  | some (e, _) => inodeOpen s (entrySector e)

/-- `dir_add`. -/
def dirAdd (s : FileSys) (dir : Dir) (name : CString) (inodeSector : ℕ) :
    Except Panic (Bool × FileSys) :=
  if name.chars = [] ∨ name.chars.length > nameMax then .ok (false, s)
  else do
    let (found, s) ← lookup s dir name
    match found with
    | some _ => .ok (false, s)
    | none =>
      let (_, e, ofs, s) ← scanDir dir.inode (fun e => !entryInUse e) (scanFuel s dir.inode) s
        (fun _ => 0) 0
      let (n, s) ← inodeWriteAt s dir.inode (setEntry e name inodeSector) 20 ofs
      .ok (n == 20, s)

/-- `dir_remove`. -/
def dirRemove (s : FileSys) (dir : Dir) (name : CString) : Except Panic (Bool × FileSys) := do
  let (found, s) ← lookup s dir name
  match found with
  | none => .ok (false, s)
  | some (e, ofs) =>
    let (inode, s) ← inodeOpen s (entrySector e)
    match inode with
    | none => .ok (false, s)
    | some inode =>
      let (n, s) ← inodeWriteAt s dir.inode (freeEntry e) 20 ofs
      let s := if n = 20 then inodeRemove s inode else s
      let s ← inodeClose s (some inode)
      .ok (n == 20, s)

/-! ### The calls -/

/-- `filesys_create`. The number in the result of the three stages is `inode_sector`. -/
def filesysCreate (s : FileSys) (name : CString) (initialSize : ℤ) :
    Except Panic (Bool × FileSys) := do
  let (dir, s) ← dirOpenRoot s
  let (success, inodeSector, s) ← (match dir with
    | none => .ok (false, 0, s)
    | some dir => do
      let (sector, s) ← freeMapAllocate s 1
      match sector with
      | none => .ok (false, 0, s)
      | some sector =>
        let (created, s) ← inodeCreate s sector initialSize
        if created then
          let (added, s) ← dirAdd s dir name sector
          .ok (added, sector, s)
        else .ok (false, sector, s) : Except Panic (Bool × ℕ × FileSys))
  let s ← if !success && inodeSector != 0 then freeMapRelease s inodeSector 1 else .ok s
  let s ← dirClose s dir
  .ok (success, s)

/-- `filesys_open`. -/
def filesysOpen (s : FileSys) (name : CString) : Except Panic (Option File × FileSys) := do
  let (dir, s) ← dirOpenRoot s
  let (inode, s) ← match dir with
    | none => .ok (none, s)
    | some dir => dirLookup s dir name
  let s ← dirClose s dir
  fileOpen s inode

/-- `filesys_remove`. -/
def filesysRemove (s : FileSys) (name : CString) : Except Panic (Bool × FileSys) := do
  let (dir, s) ← dirOpenRoot s
  let (success, s) ← match dir with
    | none => .ok (false, s)
    | some dir => dirRemove s dir name
  let s ← dirClose s dir
  .ok (success, s)

/-! ### Initialization -/

/-- `bitmap_create`: `junk` is what the new elements hold. `malloc` of nothing returns nothing. -/
def bitmapCreate (junk : ℕ → BitVec 32) (mallocs : List Bool) (bitCnt : ℕ) :
    Except Panic (Option Bitmap × List Bool) :=
  let (got, mallocs) := malloc mallocs
  if got then do
    let (got, mallocs) := if byteCnt bitCnt = 0 then (false, mallocs) else malloc mallocs
    if got || bitCnt == 0 then
      let b ← bitmapSetAll ⟨bitCnt, junk⟩ false
      .ok (some b, mallocs)
    else .ok (none, mallocs)
  else .ok (none, mallocs)

/-- `free_map_init`, after `inode_init`. A bitmap without elements has no memory to mark bits in. -/
def freeMapInit (dev : Block) (disk : Buffer) (junk : ℕ → BitVec 32) (mallocs : List Bool) :
    Except Panic FileSys := do
  let (map, mallocs) ← bitmapCreate junk mallocs dev.size
  match map with
  | none => .error .tooLarge
  | some map =>
    if byteCnt dev.size = 0 then .error .nullPointer
    else
      .ok { dev := dev
            disk := disk
            freeMap := bitmapMark (bitmapMark map freeMapSector) rootDirSector
            freeMapFile := none
            inodes := fun _ => ⟨0, 0, false, 0, ⟨0, 0, 0⟩⟩
            openInodes := []
            nextInode := 0
            mallocs := mallocs }

/-- `do_format`. -/
def doFormat (s : FileSys) : Except Panic FileSys := do
  let s ← freeMapCreate s
  let (created, s) ← dirCreate s rootDirSector 16
  if created then freeMapClose s else .error .rootCreation

/-- `filesys_init`. -/
def filesysInit (dev : Block) (disk : Buffer) (junk : ℕ → BitVec 32) (mallocs : List Bool)
    (format : Bool) : Except Panic FileSys := do
  let s ← freeMapInit dev disk junk mallocs
  let s ← if format then doFormat s else .ok s
  freeMapOpen s

end Pintos
