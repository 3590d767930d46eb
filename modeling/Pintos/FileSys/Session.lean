import Pintos.FileSys.Format

/-!
# A caller of the file system

One caller creates, opens, reads, writes, removes and closes files. A handle is the place of an
opened file in the list of all that have been opened. The calls and their answers are recorded, so
that a run of the system can be compared with what a simpler system would have answered.

* `Session.step` — one call;
* `Session.Valid` — what the caller must see to: handles are open, offsets and sizes are those of a
  file;
* `Effect` — what a valid call does, as far as memory allows, and `Session.step_ends` says that it
  returns;
* `Session.Ok` — the invariant: the references held are those of the handles and of the free map's
  file;
* `create_failure_clean`, `sectors_owned_once` — a call of `filesys_create` that fails, and the
  owners of the sectors, in every state of every run.
-/

namespace Pintos

open Total Transition Function List

/-! ### Calls and answers -/

/-- A call. -/
inductive FileCall where
  | create (name : CString) (size : ℤ)
  | openFile (name : CString)
  | reopen (h : ℕ)
  | read (h : ℕ) (size : ℤ)
  | readAt (h : ℕ) (size ofs : ℤ)
  | write (h : ℕ) (data : Buffer) (size : ℤ)
  | writeAt (h : ℕ) (data : Buffer) (size ofs : ℤ)
  | seek (h : ℕ) (pos : ℤ)
  | remove (name : CString)
  | close (h : ℕ)

/-- What a call returns. -/
inductive Answer where
  | ok (success : Bool)
  | bytes (bs : List UInt8)
  | count (n : ℕ)
  | done

/-- The file system and its caller. A handle is `none` if it could not be opened, or is closed. -/
structure Session where
  fs : FileSys
  handles : List (Option File)
  log : List (FileCall × Answer)

/-- The file of a handle; the caller crashes if it uses a null pointer. -/
def Session.file (s : Session) (h : ℕ) : Except Panic File :=
  match s.handles[h]? with
  | some (some file) => .ok file
  | _ => .error .nullPointer

/-- **One call.** -/
def Session.step (s : Session) (c : FileCall) : Except Panic Session :=
  match c with
  | .create name size => do
    let (success, fs) ← filesysCreate s.fs name size
    .ok ⟨fs, s.handles, (c, .ok success) :: s.log⟩
  | .openFile name => do
    let (file, fs) ← filesysOpen s.fs name
    .ok ⟨fs, s.handles ++ [file], (c, .ok file.isSome) :: s.log⟩
  | .reopen h => do
    let file ← s.file h
    let (file, fs) ← fileReopen s.fs file
    .ok ⟨fs, s.handles ++ [file], (c, .ok file.isSome) :: s.log⟩
  | .read h size => do
    let file ← s.file h
    let (n, buffer, file, fs) ← fileRead s.fs file (fun _ => 0) size
    .ok ⟨fs, s.handles.set h (some file), (c, .bytes ((List.range n).map buffer)) :: s.log⟩
  | .readAt h size ofs => do
    let file ← s.file h
    let (n, buffer, fs) ← fileReadAt s.fs file (fun _ => 0) size ofs
    .ok ⟨fs, s.handles, (c, .bytes ((List.range n).map buffer)) :: s.log⟩
  | .write h data size => do
    let file ← s.file h
    let (n, file, fs) ← fileWrite s.fs file data size
    .ok ⟨fs, s.handles.set h (some file), (c, .count n) :: s.log⟩
  | .writeAt h data size ofs => do
    let file ← s.file h
    let (n, fs) ← fileWriteAt s.fs file data size ofs
    .ok ⟨fs, s.handles, (c, .count n) :: s.log⟩
  | .seek h pos => do
    let file ← s.file h
    let file ← fileSeek file pos
    .ok ⟨s.fs, s.handles.set h (some file), (c, .done) :: s.log⟩
  | .remove name => do
    let (success, fs) ← filesysRemove s.fs name
    .ok ⟨fs, s.handles, (c, .ok success) :: s.log⟩
  | .close h => do
    let file ← s.file h
    let fs ← fileClose s.fs (some file)
    .ok ⟨fs, s.handles.set h none, (c, .done) :: s.log⟩

/-- The handle is open. -/
def Session.IsOpen (s : Session) (h : ℕ) : Prop := ∃ file, s.handles[h]? = some (some file)

/-- An offset is one of `off_t` and not negative. -/
def IsOffset (o : ℤ) : Prop := 0 ≤ o ∧ o < 2 ^ 31

instance (o : ℤ) : Decidable (IsOffset o) := inferInstanceAs (Decidable (_ ∧ _))

/-- **Valid calls.** -/
def Session.Valid (s : Session) : FileCall → Prop
  | .create _ size => IsOffset size
  | .openFile _ => True
  | .reopen h => s.IsOpen h
  | .read h _ => s.IsOpen h
  | .readAt h _ ofs => s.IsOpen h ∧ IsOffset ofs
  | .write h _ _ => s.IsOpen h
  | .writeAt h _ _ ofs => s.IsOpen h ∧ IsOffset ofs
  | .seek h pos => s.IsOpen h ∧ IsOffset pos
  | .remove _ => True
  | .close h => s.IsOpen h

/-- The session after `filesys_init`. -/
def Session.begin (fs : FileSys) : Session := ⟨fs, [], []⟩

/-! ### References -/

/-- The number of handles whose inode is `p`. -/
def handleRefs (handles : List (Option File)) (p : InodePtr) : ℤ :=
  handles.countP fun file => file.any fun file => file.inode == p

/-- The references that are held, if the inode of the free map's file is `m`. -/
def Session.refs (s : Session) (m p : InodePtr) : ℤ :=
  handleRefs s.handles p + if p = m then 1 else 0

section References

variable {hs : List (Option File)} {h : ℕ} {file : File} {old : Option File} {p : InodePtr}

theorem handleRefs_nonneg (hs : List (Option File)) (p : InodePtr) : 0 ≤ handleRefs hs p :=
  Int.natCast_nonneg _

theorem handleRefs_append_none : handleRefs (hs ++ [none]) p = handleRefs hs p := by
  unfold handleRefs
  rw [countP_append]
  rfl

theorem handleRefs_append : handleRefs (hs ++ [some file]) p
    = handleRefs hs p + if p = file.inode then 1 else 0 := by
  unfold handleRefs
  rw [countP_append, countP_singleton, Int.natCast_add]
  congr 1
  by_cases hp : p = file.inode
  · subst hp
    rw [if_pos rfl, Option.any_some, beq_self_eq_true, if_pos rfl]
    rfl
  · rw [if_neg hp, Option.any_some, beq_eq_false_iff_ne.mpr (Ne.symm hp), if_neg Bool.false_ne_true]
    rfl

/-- A handle is replaced. -/
theorem handleRefs_set (hold : hs[h]? = some old) (new : Option File) :
    handleRefs (hs.set h new) p = handleRefs hs p
      - (if old.any (fun file => file.inode == p) then 1 else 0)
      + if new.any (fun file => file.inode == p) then 1 else 0 := by
  obtain ⟨hlt, heq⟩ := List.getElem?_eq_some_iff.mp hold
  have hpos : (if old.any (fun file => file.inode == p) then 1 else 0) ≤
      hs.countP fun file => file.any fun file => file.inode == p := by
    split
    · next hany => exact countP_pos_iff.mpr ⟨old, heq ▸ getElem_mem hlt, hany⟩
    · exact Nat.zero_le _
  unfold handleRefs
  rw [countP_set hlt, heq]
  split
  · next hany =>
    rw [if_pos hany] at hpos
    split
    · omega
    · omega
  · split
    · omega
    · omega

section Session

variable {s : Session} {m : InodePtr} {fs : FileSys} {log : List (FileCall × Answer)}

theorem refs_append_none : Session.refs ⟨fs, s.handles ++ [none], log⟩ m = s.refs m := by
  funext p
  unfold Session.refs
  rw [handleRefs_append_none]

theorem refs_append : Session.refs ⟨fs, s.handles ++ [some file], log⟩ m
    = update (s.refs m) file.inode (s.refs m file.inode + 1) := by
  funext p
  by_cases hp : p = file.inode
  · subst hp
    rw [update_self, Session.refs, handleRefs_append, if_pos rfl, Session.refs]
    omega
  · rw [update_of_ne hp, Session.refs, handleRefs_append, if_neg hp, Session.refs]
    omega

theorem refs_set (hold : s.handles[h]? = some (some file)) (pos : ℤ) :
    Session.refs ⟨fs, s.handles.set h (some { file with pos := pos }), log⟩ m = s.refs m := by
  funext p
  unfold Session.refs
  rw [handleRefs_set hold, Option.any_some, Option.any_some, Int.sub_add_cancel]

theorem refs_close (hold : s.handles[h]? = some (some file)) :
    Session.refs ⟨fs, s.handles.set h none, log⟩ m
      = update (s.refs m) file.inode (s.refs m file.inode - 1) := by
  funext p
  by_cases hp : p = file.inode
  · subst hp
    rw [update_self, Session.refs, handleRefs_set hold, Option.any_some, beq_self_eq_true,
      if_pos rfl, Option.any_none, if_neg Bool.false_ne_true, Session.refs]
    omega
  · rw [update_of_ne hp, Session.refs, handleRefs_set hold, Option.any_some,
      beq_eq_false_iff_ne.mpr (Ne.symm hp), if_neg Bool.false_ne_true, Option.any_none,
      if_neg Bool.false_ne_true, Session.refs]
    omega

end Session

theorem handleRefs_pos (hold : hs[h]? = some (some file)) : 0 < handleRefs hs file.inode := by
  refine Int.natCast_pos.mpr (countP_pos_iff.mpr ⟨some file, mem_of_getElem? hold, ?_⟩)
  rw [Option.any_some]
  exact beq_self_eq_true _

end References

/-! ### Calls on an open file -/

section File

variable {s : FileSys} {refs : InodePtr → ℤ} {p : InodePtr} {o : ℕ}

/-- The file lies on the device. -/
theorem Intact.onDevice (h : Intact s refs) (hp : p ∈ s.openInodes) :
    (s.inodes p).data.OnDevice s.dev (s.inodes p).data.length.toNat := by
  rw [h.table.data p hp]
  exact h.layout.onDevice (mem_live_open hp)

/-- **Reading** an open file. -/
theorem Intact.read_eq (h : Intact s refs) (hp : p ∈ s.openInodes) (buffer : Buffer) (size : ℤ)
    (ho : o < 2 ^ 31) : ∃ n ms, n = moved s.mallocs false o (clip (s.inodes p).data size o) ∧
      (s.mallocs = [] → ms = []) ∧ inodeReadAt s p buffer size o = .ok (n,
        memcpy buffer 0 s.disk (512 * (s.inodes p).data.start + o) n, { s with mallocs := ms }) := by
  refine ⟨_, _, rfl, fun hnil => ?_, inodeReadAt_eq rfl ho (h.onDevice hp) add_clip_le⟩
  rw [hnil]
  exact ite_self _

/-- `n` bytes have been written to an open file, from `o` on. -/
structure Wrote (s s' : FileSys) (refs : InodePtr → ℤ) (p : InodePtr) (o n : ℕ) (buffer : Buffer) : Prop where
  intact : Intact s' refs
  table : SameTable s s'
  layout : SameLayout s s'
  slots : SameSlots s s'
  freeMap : s'.freeMap = s.freeMap
  disk : s'.disk = memcpy s.disk (512 * (s.inodes p).data.start + o) buffer 0 n
  within : DiskSame (s.inodes p).data.sectors s.disk s'.disk

/-- **Writing** to an open file changes nothing but its own data. -/
theorem Intact.write_eq (h : Intact s refs) (hp : p ∈ s.openInodes)
    (hroot : (s.inodes p).sector ≠ rootDirSector) (buffer : Buffer) (size : ℤ) (ho : o < 2 ^ 31) :
    ∃ n s', n = moved s.mallocs false o (clip (s.inodes p).data size o) ∧
      (s.mallocs = [] → s'.mallocs = []) ∧ inodeWriteAt s p buffer size o = .ok (n, s') ∧
      Wrote s s' refs p o n buffer := by
  have hlive := mem_live_open hp
  have hdev := h.onDevice hp
  have hdata := h.table.data p hp
  have hwrite := @inodeWriteAt_eq s p _ o _ rfl (h.table.allowed p hp) buffer size ho hdev add_clip_le
  have hle := moved_le s.mallocs false o (clip (s.inodes p).data size o)
  obtain ⟨n, hn⟩ : ∃ n, n = moved s.mallocs false o (clip (s.inodes p).data size o) := ⟨_, rfl⟩
  rw [← hn] at hwrite hle
  -- the bytes written are bytes of the file
  have hsame : DiskSame (s.inodes p).data.sectors s.disk
      (memcpy s.disk (512 * (s.inodes p).data.start + o) buffer 0 n) := by
    refine DiskSame.memcpy fun i hi => ?_
    have hmem := (s.inodes p).data.mem_sectors (o := o + i) (by unfold clip at hle; omega) hdev.lt
    rwa [show (512 * (s.inodes p).data.start + o + i) / 512 = (s.inodes p).data.start + (o + i) / 512 by omega]
  obtain ⟨hsound, hlayout, hslots⟩ := h.redisk s.freeMap _ hsame
    (fun x hx => by
      rw [hdata]
      exact h.layout.not_mem_sectors hx hlive)
    (fun y hy => by
      rw [hdata]
      exact h.layout.sectors_disjoint (mem_live_root s) hlive hroot.symm hy)
    h.mounted.bitCnt fun x hx y hy => (h.layout.used x hx y hy).2
  refine ⟨n, _, hn, fun hnil => ?_, hwrite, hsound, ⟨rfl, rfl, rfl, rfl, rfl⟩, hlayout, hslots, rfl, rfl, hsame⟩
  show mallocsAfter s.mallocs false o (clip (s.inodes p).data size o) = []
  rw [hnil]
  exact ite_self _

/-- **Reopening** a file. -/
theorem Intact.fileReopen_ends (h : Intact s refs) (hp : p ∈ s.openInodes)
    (hmap : (s.inodes p).sector ≠ freeMapSector) {file : File} (hfile : file.inode = p) :
    Ends (fileReopen s file) fun r => Quiet s r.2 ∧ (s.mallocs = [] → r.2.mallocs = []) ∧
      ((r.1 = none ∧ s.mallocs ≠ [] ∧ Intact r.2 refs) ∨ (r.1 = some ⟨p, 0, false⟩ ∧
        Intact r.2 (update refs p (refs p + 1)))) := by
  subst hfile
  have hpos := h.table.held _ hp
  obtain ⟨hsound, -⟩ := h.modify hp (show 0 < refs file.inode + 1 by omega)
    (i := { s.inodes file.inode with openCnt := (s.inodes file.inode).openCnt + 1 }) rfl rfl
    (h.table.allowed _ hp) (by rw [h.table.openCnt _ hp]) (h.removed _ hp)
  have hq : Quiet s (inodeReopen s file.inode) := ⟨rfl, rfl, rfl, rfl, .modify s _ _ _ rfl rfl⟩
  have hself : ((inodeReopen s file.inode).inodes file.inode).sector = (s.inodes file.inode).sector := by
    show (update s.inodes file.inode _ file.inode).sector = _
    rw [update_self]
  refine (hsound.fileOpen_ends hp (hself ▸ hmap) (.inr (.inr hpos))).mono ?_
  rintro r ⟨hq', hms, hcase⟩
  refine ⟨hq.trans hq', hms, hcase.imp id fun hsome => ⟨hsome.1, hsome.2.1⟩⟩

end File

/-! ### What a call does -/

/-- The bytes of an open file from `o` on. -/
def FileSys.bytesAt (s : FileSys) (p : InodePtr) (o n : ℕ) : List UInt8 :=
  (List.range n).map fun i => s.disk (512 * (s.inodes p).data.start + o + i)

/-- How many bytes of a request for `size` bytes from `o` on are moved. -/
def FileSys.amount (s : FileSys) (p : InodePtr) (size : ℤ) (o : ℕ) : ℕ :=
  moved s.mallocs false o (clip (s.inodes p).data size o)

/-- What a read puts into the buffer. -/
theorem bytesAt_eq (s : FileSys) (p : InodePtr) (o n : ℕ) (buffer : Buffer) :
    (List.range n).map (memcpy buffer 0 s.disk (512 * (s.inodes p).data.start + o) n) = s.bytesAt p o n := by
  refine map_congr_left fun i hi => ?_
  rw [mem_range] at hi
  rw [memcpy_inside (Nat.zero_le i) (by omega), Nat.sub_zero]

/-- A handle has been closed. -/
structure HandleClosed (s s' : FileSys) (refs : InodePtr → ℤ) (p : InodePtr) : Prop where
  intact : Intact s' (update refs p (refs p - 1))
  within : DiskSame (s.inodeAt freeMapSector).sectors s.disk s'.disk
  kept : SameInodes s s'
  dev : s'.dev = s.dev
  live : s'.live ⊆ s.live

/-- **What a valid call does.** -/
inductive Effect (s : Session) (m : InodePtr) : FileCall → Session → Prop where
  | create {name : CString} {size : ℤ} {success : Bool} {fs : FileSys} :
      Makes s.fs (s.refs m) name size (success, fs) →
      Effect s m (.create name size) ⟨fs, s.handles, (.create name size, .ok success) :: s.log⟩
  | openFile {name : CString} {file : Option File} {fs : FileSys} :
      Finds s.fs (s.refs m) name (file, fs) →
      Effect s m (.openFile name) ⟨fs, s.handles ++ [file], (.openFile name, .ok file.isSome) :: s.log⟩
  | reopenFailed {h : ℕ} {fs : FileSys} : s.fs.mallocs ≠ [] → Intact fs (s.refs m) → Quiet s.fs fs →
      Effect s m (.reopen h) ⟨fs, s.handles ++ [none], (.reopen h, .ok false) :: s.log⟩
  | reopen {h : ℕ} {file : File} {fs : FileSys} : s.handles[h]? = some (some file) →
      Intact fs (update (s.refs m) file.inode (s.refs m file.inode + 1)) → Quiet s.fs fs →
      Effect s m (.reopen h)
        ⟨fs, s.handles ++ [some ⟨file.inode, 0, false⟩], (.reopen h, .ok true) :: s.log⟩
  | read {h : ℕ} {size : ℤ} {file : File} {n : ℕ} (ms : List Bool) :
      s.handles[h]? = some (some file) → n = s.fs.amount file.inode size file.pos.toNat →
      Effect s m (.read h size) ⟨{ s.fs with mallocs := ms },
        s.handles.set h (some { file with pos := file.pos + n }),
        (.read h size, .bytes (s.fs.bytesAt file.inode file.pos.toNat n)) :: s.log⟩
  | readAt {h : ℕ} {size ofs : ℤ} {file : File} {n : ℕ} (ms : List Bool) :
      s.handles[h]? = some (some file) → n = s.fs.amount file.inode size ofs.toNat →
      Effect s m (.readAt h size ofs) ⟨{ s.fs with mallocs := ms }, s.handles,
        (.readAt h size ofs, .bytes (s.fs.bytesAt file.inode ofs.toNat n)) :: s.log⟩
  | write {h : ℕ} {data : Buffer} {size : ℤ} {file : File} {n : ℕ} {fs : FileSys} :
      s.handles[h]? = some (some file) → n = s.fs.amount file.inode size file.pos.toNat →
      Wrote s.fs fs (s.refs m) file.inode file.pos.toNat n data →
      Effect s m (.write h data size) ⟨fs, s.handles.set h (some { file with pos := file.pos + n }),
        (.write h data size, .count n) :: s.log⟩
  | writeAt {h : ℕ} {data : Buffer} {size ofs : ℤ} {file : File} {n : ℕ} {fs : FileSys} :
      s.handles[h]? = some (some file) → n = s.fs.amount file.inode size ofs.toNat →
      Wrote s.fs fs (s.refs m) file.inode ofs.toNat n data →
      Effect s m (.writeAt h data size ofs) ⟨fs, s.handles, (.writeAt h data size ofs, .count n) :: s.log⟩
  | seek {h : ℕ} {pos : ℤ} {file : File} : s.handles[h]? = some (some file) → IsOffset pos →
      Effect s m (.seek h pos)
        ⟨s.fs, s.handles.set h (some { file with pos := pos }), (.seek h pos, .done) :: s.log⟩
  | remove {name : CString} {success : Bool} {fs : FileSys} :
      Removes s.fs (s.refs m) name (success, fs) →
      Effect s m (.remove name) ⟨fs, s.handles, (.remove name, .ok success) :: s.log⟩
  | close {h : ℕ} {file : File} {fs : FileSys} : s.handles[h]? = some (some file) →
      HandleClosed s.fs fs (s.refs m) file.inode →
      Effect s m (.close h) ⟨fs, s.handles.set h none, (.close h, .done) :: s.log⟩

/-- **The invariant of a session**: the free map's file has the inode `m`. -/
structure Session.Ok (s : Session) (m : InodePtr) : Prop where
  intact : Intact s.fs (s.refs m)
  map : (s.fs.inodes m).sector = freeMapSector
  closed : rootDirSector ∉ s.fs.opened
  user : ∀ file, some file ∈ s.handles → (s.fs.inodes file.inode).sector ≠ freeMapSector ∧
    file.denyWrite = false ∧ IsOffset file.pos

section Step

variable {s s' : Session} {m : InodePtr} {h : ℕ} {file : File} {c : FileCall}

theorem Session.file_eq (hfile : s.handles[h]? = some (some file)) : s.file h = .ok file := by
  unfold Session.file
  rw [hfile]

/-- The inode of a handle is open, and it is one of a user's file. -/
theorem Session.Ok.open_of_handle (hok : s.Ok m) (hmem : some file ∈ s.handles) :
    file.inode ∈ s.fs.openInodes ∧ (s.fs.inodes file.inode).sector ≠ freeMapSector ∧
      (s.fs.inodes file.inode).sector ≠ rootDirSector := by
  have hopen : file.inode ∈ s.fs.openInodes := by
    obtain ⟨h, hh⟩ := List.getElem?_of_mem hmem
    have hpos := handleRefs_pos hh
    rw [hok.intact.table.mem_iff]
    unfold Session.refs
    split
    all_goals omega
  exact ⟨hopen, (hok.user file hmem).1, fun hroot => hok.closed ⟨_, hopen, hroot⟩⟩

/-- **A valid call returns**, and does what `Effect` says. -/
theorem Session.step_ends (hok : s.Ok m) (hv : s.Valid c) :
    Ends (s.step c) fun s' => Effect s m c s' ∧ (s.fs.mallocs = [] → s'.fs.mallocs = []) := by
  cases c with
  | create name size =>
    refine (filesysCreate_ends hok.intact hok.closed name hv.1 hv.2).bind fun ⟨success, fs⟩ hmakes => ?_
    exact .ok ⟨.create hmakes.1, hmakes.2⟩
  | openFile name =>
    refine (filesysOpen_ends hok.intact hok.closed name).bind fun ⟨file, fs⟩ hfinds => ?_
    exact .ok ⟨.openFile hfinds.1, hfinds.2⟩
  | reopen h =>
    obtain ⟨file, hfile⟩ := hv
    obtain ⟨hopen, hmap, -⟩ := hok.open_of_handle (mem_of_getElem? hfile)
    refine Ends.step (Session.file_eq hfile) ?_
    refine (hok.intact.fileReopen_ends hopen hmap rfl).bind fun ⟨file', fs⟩ hr => ?_
    obtain ⟨hq, hms, ⟨rfl, hmem, hsound⟩ | ⟨rfl, hsound⟩⟩ := hr
    · exact .ok ⟨.reopenFailed hmem hsound hq, hms⟩
    · exact .ok ⟨.reopen hfile hsound hq, hms⟩
  | read h size =>
    obtain ⟨file, hfile⟩ := hv
    have hmem := mem_of_getElem? hfile
    obtain ⟨hopen, -, -⟩ := hok.open_of_handle hmem
    obtain ⟨-, -, hpos, hlt⟩ := hok.user file hmem
    obtain ⟨n, ms, hn, hms, heq⟩ := hok.intact.read_eq hopen (fun _ => 0) size
      (show file.pos.toNat < 2 ^ 31 by omega)
    rw [Int.toNat_of_nonneg hpos] at heq
    refine Ends.step (Session.file_eq hfile) ?_
    refine Ends.step (show fileRead s.fs file (fun _ => 0) size = _ by rw [fileRead, heq]; rfl) ?_
    dsimp only
    rw [bytesAt_eq]
    exact .ok ⟨.read ms hfile hn, hms⟩
  | readAt h size ofs =>
    obtain ⟨⟨file, hfile⟩, hpos, hlt⟩ := hv
    obtain ⟨hopen, -, -⟩ := hok.open_of_handle (mem_of_getElem? hfile)
    obtain ⟨n, ms, hn, hms, heq⟩ := hok.intact.read_eq hopen (fun _ => 0) size
      (show ofs.toNat < 2 ^ 31 by omega)
    rw [Int.toNat_of_nonneg hpos] at heq
    refine Ends.step (Session.file_eq hfile) (Ends.step heq ?_)
    dsimp only
    rw [bytesAt_eq]
    exact .ok ⟨.readAt ms hfile hn, hms⟩
  | write h data size =>
    obtain ⟨file, hfile⟩ := hv
    have hmem := mem_of_getElem? hfile
    obtain ⟨hopen, -, hroot⟩ := hok.open_of_handle hmem
    obtain ⟨-, -, hpos, hlt⟩ := hok.user file hmem
    obtain ⟨n, fs, hn, hms, heq, hwrote⟩ := hok.intact.write_eq hopen hroot data size
      (show file.pos.toNat < 2 ^ 31 by omega)
    rw [Int.toNat_of_nonneg hpos] at heq
    refine Ends.step (Session.file_eq hfile) ?_
    refine Ends.step (show fileWrite s.fs file data size = _ by rw [fileWrite, heq]; rfl) ?_
    exact .ok ⟨.write hfile hn hwrote, hms⟩
  | writeAt h data size ofs =>
    obtain ⟨⟨file, hfile⟩, hpos, hlt⟩ := hv
    obtain ⟨hopen, -, hroot⟩ := hok.open_of_handle (mem_of_getElem? hfile)
    obtain ⟨n, fs, hn, hms, heq, hwrote⟩ := hok.intact.write_eq hopen hroot data size
      (show ofs.toNat < 2 ^ 31 by omega)
    rw [Int.toNat_of_nonneg hpos] at heq
    refine Ends.step (Session.file_eq hfile) (Ends.step heq ?_)
    exact .ok ⟨.writeAt hfile hn hwrote, hms⟩
  | seek h pos =>
    obtain ⟨⟨file, hfile⟩, hpos⟩ := hv
    refine Ends.step (Session.file_eq hfile) (Ends.step (if_pos hpos.1) ?_)
    exact .ok ⟨.seek hfile hpos, id⟩
  | remove name =>
    refine (filesysRemove_ends hok.intact hok.closed name).bind fun ⟨success, fs⟩ hr => ?_
    exact .ok ⟨.remove hr.1, hr.2⟩
  | close h =>
    obtain ⟨file, hfile⟩ := hv
    have hmem := mem_of_getElem? hfile
    obtain ⟨hopen, hmap, -⟩ := hok.open_of_handle hmem
    have hclose : fileClose s.fs (some file) = inodeClose s.fs (some file.inode) := by
      unfold fileClose fileAllowWrite
      dsimp only
      rw [(hok.user file hmem).2.1]
      rfl
    refine Ends.step (Session.file_eq hfile) ?_
    rw [hclose]
    refine (hok.intact.inodeClose_ends hopen hmap).bind fun fs hfs => ?_
    obtain ⟨hsound, hdisk, hkept, hdev, hlive, hms, -⟩ := hfs
    exact .ok ⟨.close hfile ⟨hsound, hdisk, hkept, hdev, hlive⟩, hms⟩

/-- Every reference is one of a handle, or that of the free map's file. -/
theorem Session.mem_of_refs {p : InodePtr} (hpos : 0 < s.refs m p) :
    (∃ file, some file ∈ s.handles ∧ file.inode = p) ∨ p = m := by
  by_cases hm : p = m
  · exact .inr hm
  · unfold Session.refs handleRefs at hpos
    rw [if_neg hm, Int.add_zero] at hpos
    obtain ⟨o, hmem, hany⟩ := countP_pos_iff.mp (Int.natCast_pos.mp hpos)
    cases o with
    | none => exact nomatch hany
    | some file => exact .inl ⟨file, hmem, beq_iff_eq.mp hany⟩

/-- The invariant after a call: the open inodes stay where they are, and a new handle is one of a
named file. -/
theorem Session.Ok.next (hok : s.Ok m) (hintact : Intact s'.fs (s'.refs m))
    (hsector : ∀ q ∈ s.fs.openInodes, (s'.fs.inodes q).sector = (s.fs.inodes q).sector)
    (hhandles : ∀ file, some file ∈ s'.handles → file.denyWrite = false ∧ IsOffset file.pos ∧
      ((∃ file₀, some file₀ ∈ s.handles ∧ file₀.inode = file.inode) ∨
        (s'.fs.inodes file.inode).sector ∈ s.fs.named)) : s'.Ok m := by
  have hm : m ∈ s.fs.openInodes := by
    have hnonneg := handleRefs_nonneg s.handles m
    rw [hok.intact.table.mem_iff, Session.refs, if_pos rfl]
    omega
  have hmap : (s'.fs.inodes m).sector = freeMapSector := (hsector m hm).trans hok.map
  have huser : ∀ file, some file ∈ s'.handles → (s'.fs.inodes file.inode).sector ≠ freeMapSector ∧
      (s'.fs.inodes file.inode).sector ≠ rootDirSector := by
    intro file hmem
    obtain ⟨-, -, ⟨file₀, hmem₀, hinode⟩ | hnamed⟩ := hhandles file hmem
    · obtain ⟨hopen, hne⟩ := hok.open_of_handle hmem₀
      rw [← hinode, hsector _ hopen]
      exact hne
    · exact hok.intact.special _ hnamed
  refine ⟨hintact, hmap, ?_, fun file hmem => ?_⟩
  · rintro ⟨p, hp, hroot⟩
    rw [hintact.table.mem_iff] at hp
    obtain ⟨file, hmem, rfl⟩ | rfl := Session.mem_of_refs hp
    · exact (huser file hmem).2 hroot
    · rw [hmap] at hroot
      exact absurd hroot (by decide)
  · obtain ⟨hdeny, hpos, -⟩ := hhandles file hmem
    exact ⟨(huser file hmem).1, hdeny, hpos⟩

/-- The position after a transfer is still one in a file. -/
theorem Session.Ok.pos_of_amount (hok : s.Ok m) (hmem : some file ∈ s.handles) (size : ℤ) :
    IsOffset (file.pos + s.fs.amount file.inode size file.pos.toNat) := by
  obtain ⟨hopen, -, -⟩ := hok.open_of_handle hmem
  obtain ⟨-, -, hlo, hhi⟩ := hok.user file hmem
  have hdev := hok.intact.layout.onDevice (mem_live_open hopen)
  rw [← hok.intact.table.data _ hopen] at hdev
  have hlt := hdev.lt
  have hle := moved_le s.fs.mallocs false file.pos.toNat
    (clip (s.fs.inodes file.inode).data size file.pos.toNat)
  unfold IsOffset FileSys.amount
  unfold clip at hle ⊢
  omega

/-- A handle whose position has changed. -/
theorem Session.Ok.handles_set (hok : s.Ok m) (hfile : s.handles[h]? = some (some file)) {pos : ℤ}
    (hpos : IsOffset pos) : ∀ file', some file' ∈ s.handles.set h (some { file with pos := pos }) →
      file'.denyWrite = false ∧ IsOffset file'.pos ∧ ∃ file₀, some file₀ ∈ s.handles ∧
        file₀.inode = file'.inode := by
  intro file' hmem
  obtain hmem | heq := mem_or_eq_of_mem_set hmem
  · exact ⟨(hok.user file' hmem).2.1, (hok.user file' hmem).2.2, file', hmem, rfl⟩
  · cases heq
    have hold := mem_of_getElem? hfile
    exact ⟨(hok.user file hold).2.1, hpos, file, hold, rfl⟩

/-- **Every valid call keeps the invariant.** -/
theorem Effect.ok (he : Effect s m c s') (hok : s.Ok m) : s'.Ok m := by
  have hfresh := hok.intact.table.fresh
  have hsame : ∀ file, some file ∈ s.handles → file.denyWrite = false ∧ IsOffset file.pos ∧
      ∃ file₀, some file₀ ∈ s.handles ∧ file₀.inode = file.inode := fun file hmem =>
    ⟨(hok.user file hmem).2.1, (hok.user file hmem).2.2, file, hmem, rfl⟩
  have hkeep : ∀ {fs : FileSys} {hs : List (Option File)} {log : List (FileCall × Answer)},
      Intact fs (Session.refs ⟨fs, hs, log⟩ m) →
      (∀ q ∈ s.fs.openInodes, (fs.inodes q).sector = (s.fs.inodes q).sector) →
      (∀ file, some file ∈ hs → file.denyWrite = false ∧ IsOffset file.pos ∧
        ∃ file₀, some file₀ ∈ s.handles ∧ file₀.inode = file.inode) →
      Session.Ok ⟨fs, hs, log⟩ m := fun hintact hsector hhandles =>
    hok.next hintact hsector fun file hmem =>
      ⟨(hhandles file hmem).1, (hhandles file hmem).2.1, .inl (hhandles file hmem).2.2⟩
  cases he with
  | create hmakes =>
    obtain ⟨hintact, hkept⟩ : Intact _ (s.refs m) ∧ SameInodes s.fs _ := by
      cases hmakes with
      | early _ hintact hkept => exact ⟨hintact, hkept⟩
      | late _ _ hintact hkept => exact ⟨hintact, hkept⟩
      | made _ _ hintact hkept => exact ⟨hintact, hkept⟩
    exact hkeep hintact (fun q hq => hkept.sector q (hfresh q hq)) hsame
  | openFile hfinds =>
    cases hfinds with
    | none hintact hq =>
      refine hkeep (by rw [refs_append_none]; exact hintact)
        (fun q hq₀ => hq.kept.sector q (hfresh q hq₀)) fun file hmem => ?_
      exact hsame file ((mem_append.mp hmem).resolve_right fun hbad => nomatch mem_singleton.mp hbad)
    | some w p hw huse _ hintact hq hp hsector =>
      refine hok.next (by rw [refs_append]; exact hintact) (fun q hq₀ => hq.kept.sector q (hfresh q hq₀))
        fun file hmem => ?_
      obtain hmem | hmem := mem_append.mp hmem
      · exact ⟨(hsame file hmem).1, (hsame file hmem).2.1, .inl (hsame file hmem).2.2⟩
      · obtain rfl := Option.some.inj (mem_singleton.mp hmem)
        exact ⟨rfl, ⟨le_rfl, show (0 : ℤ) < 2 ^ 31 by decide⟩, .inr ⟨w, hw, huse, hsector.symm⟩⟩
  | reopenFailed _ hintact hq =>
    refine hkeep (by rw [refs_append_none]; exact hintact)
      (fun q hq₀ => hq.kept.sector q (hfresh q hq₀)) fun file hmem => ?_
    exact hsame file ((mem_append.mp hmem).resolve_right fun hbad => nomatch mem_singleton.mp hbad)
  | @reopen h file fs hfile hintact hq =>
    refine hkeep (by rw [refs_append]; exact hintact)
      (fun q hq₀ => hq.kept.sector q (hfresh q hq₀)) fun file' hmem => ?_
    obtain hmem | hmem := mem_append.mp hmem
    · exact hsame file' hmem
    · obtain rfl := Option.some.inj (mem_singleton.mp hmem)
      exact ⟨rfl, ⟨le_rfl, show (0 : ℤ) < 2 ^ 31 by decide⟩, file, mem_of_getElem? hfile, rfl⟩
  | read ms hfile hn =>
    subst hn
    exact hkeep (by rw [refs_set hfile]; exact hok.intact.withMallocs ms) (fun _ _ => rfl)
      (hok.handles_set hfile (hok.pos_of_amount (mem_of_getElem? hfile) _))
  | readAt ms hfile hn => exact hkeep (hok.intact.withMallocs ms) (fun _ _ => rfl) hsame
  | write hfile hn hw =>
    subst hn
    exact hkeep (by rw [refs_set hfile]; exact hw.intact) (fun q _ => by rw [hw.table.inodes])
      (hok.handles_set hfile (hok.pos_of_amount (mem_of_getElem? hfile) _))
  | writeAt hfile hn hw =>
    exact hkeep hw.intact (fun q _ => by rw [hw.table.inodes]) hsame
  | seek hfile hpos =>
    exact hkeep (by rw [refs_set hfile]; exact hok.intact) (fun _ _ => rfl) (hok.handles_set hfile hpos)
  | remove hr =>
    cases hr with
    | kept hintact hq => exact hkeep hintact (fun q hq₀ => hq.kept.sector q (hfresh q hq₀)) hsame
    | gone w hintact hnext hdev hgone => exact hkeep hintact hgone.sector hsame
  | close hfile hc =>
    refine hkeep (by rw [refs_close hfile]; exact hc.intact)
      (fun q hq => hc.kept.sector q (hfresh q hq)) fun file hmem => ?_
    exact hsame file ((mem_or_eq_of_mem_set hmem).resolve_right fun hbad => nomatch hbad)

end Step

/-! ### Runs -/

/-- A run of valid calls. -/
abbrev Session.Runs (s₀ : FileSys) (h : List (Session × FileCall)) (s : Session) : Prop :=
  Run Session.step Session.Valid (Session.begin s₀) h s

section Runs

variable {dev : Block} {disk : Buffer} {junk : ℕ → BitVec 32} {ms : List Bool} {s₀ : FileSys}
  {h : List (Session × FileCall)} {s : Session}

theorem NewFileSys.ok {p : InodePtr} (hnew : NewFileSys s₀ p) : (Session.begin s₀).Ok p := by
  have hrefs : (Session.begin s₀).refs p = fun q => if q = p then 1 else 0 := by
    funext q
    exact Int.zero_add _
  refine ⟨by rw [hrefs]; exact hnew.intact, hnew.sector, ?_, fun file hmem => absurd hmem not_mem_nil⟩
  rintro ⟨q, hq, hroot⟩
  change q ∈ s₀.openInodes at hq
  rw [hnew.openInodes, mem_singleton] at hq
  subst hq
  exact absurd (hnew.sector.symm.trans hroot) (by decide)

/-- **The invariant holds in every run** from a formatted device. -/
theorem Session.ok_of_run (h₀ : filesysInit dev disk junk ms true = .ok s₀) (hrun : Session.Runs s₀ h s) :
    ∃ m, s.Ok m ∧ (ms = [] → s.fs.mallocs = []) := by
  obtain ⟨hms, m, hnew⟩ := filesysInit_intact dev disk junk ms s₀ h₀
  refine hrun.invariant (I := fun s => ∃ m, s.Ok m ∧ (ms = [] → s.fs.mallocs = [])) ⟨m, hnew.ok, hms⟩ ?_
  rintro s c s' ⟨m, hok, hnil⟩ hv hstep
  obtain ⟨heffect, hms'⟩ := (Session.step_ends hok hv).of_eq hstep
  exact ⟨m, heffect.ok hok, fun hms => hms' (hnil hms)⟩

end Runs

/-! ### A file that is not created -/

/-- The free map, the entries of the root directory and the files are as before. -/
structure Unchanged (s s' : FileSys) : Prop where
  freeMap : s'.freeMap = s.freeMap
  slots : SameSlots s s'
  files : SameFiles s s'

theorem bytesToSectors_pos {size : ℤ} (hlo : 0 < size) (hhi : size < 2 ^ 31) : 0 < bytesToSectors size :=
  @lt_bytesToSectors 0 size hlo hhi

/-- **A call of `filesys_create` that fails** leaves everything as it was if and only if it got no
sectors for the data: it asked for none, or there was no space or no memory before `dir_add`. -/
theorem create_failure_clean {dev : Block} {disk : Buffer} {junk : ℕ → BitVec 32} {ms : List Bool}
    {s₀ : FileSys} {h : List (Session × FileCall)} {s : Session}
    (h₀ : filesysInit dev disk junk ms true = .ok s₀) (hrun : Session.Runs s₀ h s)
    (name : CString) {size : ℤ} (hsize : IsOffset size) :
    Ends (filesysCreate s.fs name size) fun r =>
      r.1 = false → (Unchanged s.fs r.2 ↔ size = 0 ∨ ¬ s.fs.CanStore size) := by
  obtain ⟨m, hok, -⟩ := Session.ok_of_run h₀ hrun
  refine (filesysCreate_ends hok.intact hok.closed name hsize.1 hsize.2).mono ?_
  rintro ⟨success, fs⟩ ⟨hmakes, -⟩ hfail
  have hroot := hok.intact.root
  cases hmakes with
  | early hcan _ _ _ hfiles hmap =>
    refine iff_of_true ⟨hmap, ?_, hfiles⟩ (.inr hcan)
    exact (hfiles _ (mem_live_root _) (by decide)).slots hroot
  | late j hcan _ _ _ hfiles hrun hsets _ =>
    constructor
    · -- otherwise the first sector of the data has been marked
      intro hsame
      by_contra hne
      rw [not_or] at hne
      have hpos := bytesToSectors_pos (lt_of_le_of_ne hsize.1 (Ne.symm hne.1)) hsize.2
      have hset := (hsets.2 j).trans (if_pos ⟨le_rfl, by omega⟩)
      rw [hsame.freeMap, hrun.2 j le_rfl (by omega)] at hset
      exact Bool.false_ne_true hset
    · rintro (rfl | hnot)
      · refine ⟨?_, (hfiles _ (mem_live_root _) (by decide)).slots hroot, hfiles⟩
        refine Bitmap.ext_bit hsets.1 fun i => (hsets.2 i).trans (if_neg ?_)
        rw [show bytesToSectors 0 = 0 by decide]
        omega
      · exact absurd hcan hnot
  | made => exact nomatch hfail

/-- Validity of a call, decided. -/
def Session.isValid (s : Session) : FileCall → Bool
  | .create _ size => decide (IsOffset size)
  | .openFile _ => true
  | .reopen h => s.handles[h]?.join.isSome
  | .read h _ => s.handles[h]?.join.isSome
  | .readAt h _ ofs => s.handles[h]?.join.isSome && decide (IsOffset ofs)
  | .write h _ _ => s.handles[h]?.join.isSome
  | .writeAt h _ _ ofs => s.handles[h]?.join.isSome && decide (IsOffset ofs)
  | .seek h pos => s.handles[h]?.join.isSome && decide (IsOffset pos)
  | .remove _ => true
  | .close h => s.handles[h]?.join.isSome

theorem Session.valid_of_isValid (s : Session) (c : FileCall) (hv : s.isValid c = true) : s.Valid c := by
  have hopen : ∀ h, s.handles[h]?.join.isSome = true → s.IsOpen h := by
    intro h hsome
    obtain ⟨file, hfile⟩ := Option.isSome_iff_exists.mp hsome
    exact ⟨file, Option.join_eq_some_iff.mp hfile⟩
  cases c with
  | create name size => exact (of_decide_eq_true hv : IsOffset size)
  | openFile name => trivial
  | reopen h => exact hopen h hv
  | read h size => exact hopen h hv
  | readAt h size ofs =>
    obtain ⟨hsome, hofs⟩ := Bool.and_eq_true_iff.mp hv
    exact ⟨hopen h hsome, of_decide_eq_true hofs⟩
  | write h data size => exact hopen h hv
  | writeAt h data size ofs =>
    obtain ⟨hsome, hofs⟩ := Bool.and_eq_true_iff.mp hv
    exact ⟨hopen h hsome, of_decide_eq_true hofs⟩
  | seek h pos =>
    obtain ⟨hsome, hpos⟩ := Bool.and_eq_true_iff.mp hv
    exact ⟨hopen h hsome, of_decide_eq_true hpos⟩
  | remove name => trivial
  | close h => exact hopen h hv

/-- A device of twelve sectors. -/
theorem twelve_lt : 12 < 2 ^ 32 := by decide

/-- It is formatted. -/
def smallFs : Except Panic FileSys := filesysInit ⟨12, twelve_lt⟩ (fun _ => 0) (fun _ => 0) [] true

theorem nameA_nonzero : (0 : UInt8) ∉ [97] := by decide

theorem nameB_nonzero : (0 : UInt8) ∉ [98] := by decide

/-- The names `a` and `b`. -/
def nameA : CString := ⟨[97], nameA_nonzero⟩

def nameB : CString := ⟨[98], nameB_nonzero⟩

/-- The result of some calls on the small device. -/
theorem small_run (cs : List FileCall) (p : Session → Bool)
    (hplay : (smallFs.toOption.any fun s₀ => (play Session.step Session.isValid (Session.begin s₀) cs).any
      fun r => p r.2) = true) :
    ∃ s₀ h s, smallFs = .ok s₀ ∧ Session.Runs s₀ h s ∧ p s = true := by
  obtain ⟨s₀, h₀, hp⟩ := Ends.of_run hplay
  obtain ⟨h, s, hrun, hs⟩ := exists_run_of_play (p := fun _ s => p s) Session.valid_of_isValid hp
  exact ⟨s₀, h, s, h₀, hrun, hs⟩

/-- A file of no bytes whose name is in use. -/
theorem create_failure_clean_empty : ∃ s₀ h s, smallFs = .ok s₀ ∧ Session.Runs s₀ h s ∧
    Ends (filesysCreate s.fs nameA 0) fun r => r.1 = false ∧ Unchanged s.fs r.2 := by
  obtain ⟨s₀, h, s, h₀, hrun, hp⟩ := small_run [.create nameA 512]
    (fun s => (filesysCreate s.fs nameA 0).toOption.any fun r => !r.1) (by decide +kernel)
  obtain ⟨r, hr, hfail⟩ := Ends.of_run hp
  rw [Bool.not_eq_true'] at hfail
  obtain ⟨r', hr', hclean⟩ := create_failure_clean h₀ hrun nameA (show IsOffset 0 from ⟨le_rfl, by decide⟩)
  obtain rfl := Except.ok.inj (hr.symm.trans hr')
  exact ⟨s₀, h, s, h₀, hrun, r, hr, hfail, (hclean hfail).mpr (.inl rfl)⟩

/-- **A name that is in use costs sectors.** The second call fails, and a sector that was free is
lost. -/
theorem create_failure_leaks : ∃ s₀ h s, smallFs = .ok s₀ ∧ Session.Runs s₀ h s ∧
    Ends (filesysCreate s.fs nameA 512) fun r => r.1 = false ∧
      ∃ i, s.fs.freeMap.bit i = false ∧ r.2.freeMap.bit i = true := by
  obtain ⟨s₀, h, s, h₀, hrun, hp⟩ := small_run [.create nameA 512]
    (fun s => (filesysCreate s.fs nameA 512).toOption.any fun r =>
      !r.1 && !s.fs.freeMap.bit 7 && r.2.freeMap.bit 7) (by decide +kernel)
  obtain ⟨r, hr, hp⟩ := Ends.of_run hp
  simp only [Bool.and_eq_true, Bool.not_eq_true'] at hp
  exact ⟨s₀, h, s, h₀, hrun, r, hr, hp.1.1, 7, hp.1.2, hp.2⟩

/-! ### The owners of the sectors -/

/-- What can own sectors: the free map's file, the root directory, the file of an entry, and an
inode that is removed but still open. -/
inductive Owner where
  | freeMap
  | rootDir
  | entry (i : ℕ)
  | orphan (p : InodePtr)

/-- The owners there are. -/
def Owner.Present (s : FileSys) : Owner → Prop
  | .freeMap => True
  | .rootDir => True
  | .entry i => i < 16 ∧ entryInUse (s.slot i) = true
  | .orphan p => p ∈ s.openInodes ∧ (s.inodes p).removed = true

/-- The sector of an owner's inode. -/
def Owner.sector (s : FileSys) : Owner → ℕ
  | .freeMap => freeMapSector
  | .rootDir => rootDirSector
  | .entry i => entrySector (s.slot i)
  | .orphan p => (s.inodes p).sector

/-- The sectors an owner has: that of its inode, and as many as its length takes. -/
def Owner.sectors (s : FileSys) (w : Owner) : Set ℕ :=
  insert (w.sector s) (Set.Ico (s.inodeAt (w.sector s)).start
    ((s.inodeAt (w.sector s)).start + ((s.inodeAt (w.sector s)).length.toNat + 511) / 512))

section Owner

variable {s : FileSys} {refs : InodePtr → ℤ} {w w' : Owner}

theorem Owner.sector_live (hw : w.Present s) : w.sector s ∈ s.live := by
  cases w with
  | freeMap => exact mem_live_map s
  | rootDir => exact mem_live_root s
  | entry i => exact mem_live_named ⟨i, hw.1, hw.2, rfl⟩
  | orphan p => exact mem_live_open hw.1

/-- Different owners have different inodes. -/
theorem Intact.owner_sector (h : Intact s refs) (hw : w.Present s) (hw' : w'.Present s)
    (heq : w.sector s = w'.sector s) : w = w' := by
  have hentry : ∀ {i}, (Owner.entry i).Present s → (Owner.entry i).sector s ∈ s.named := fun {i} hi =>
    ⟨i, hi.1, hi.2, rfl⟩
  cases w with
  | freeMap =>
    cases w' with
    | freeMap => rfl
    | rootDir => exact absurd heq (show freeMapSector ≠ rootDirSector by decide)
    | entry i => exact absurd heq.symm (h.special _ (hentry hw')).1
    | orphan p => exact absurd heq.symm (h.removed p hw'.1 hw'.2).2.1
  | rootDir =>
    cases w' with
    | freeMap => exact absurd heq (show rootDirSector ≠ freeMapSector by decide)
    | rootDir => rfl
    | entry i => exact absurd heq.symm (h.special _ (hentry hw')).2
    | orphan p => exact absurd heq.symm (h.removed p hw'.1 hw'.2).2.2
  | entry i =>
    cases w' with
    | freeMap => exact absurd heq (h.special _ (hentry hw)).1
    | rootDir => exact absurd heq (h.special _ (hentry hw)).2
    | entry j => exact congrArg Owner.entry (h.once i hw.1 j hw'.1 hw.2 hw'.2 heq)
    | orphan p => exact absurd (Set.mem_of_eq_of_mem heq.symm (hentry hw)) (h.removed p hw'.1 hw'.2).1
  | orphan p =>
    cases w' with
    | freeMap => exact absurd heq (h.removed p hw.1 hw.2).2.1
    | rootDir => exact absurd heq (h.removed p hw.1 hw.2).2.2
    | entry i => exact absurd (Set.mem_of_eq_of_mem heq (hentry hw')) (h.removed p hw.1 hw.2).1
    | orphan q => exact congrArg Owner.orphan (h.table.shared p hw.1 q hw'.1 heq)

/-- The sectors that the length takes are among those that were allocated. -/
theorem Intact.owner_sectors (h : Intact s refs) (hw : w.Present s) : w.sectors s ⊆ s.extent (w.sector s) := by
  have hnonneg := h.layout.nonneg _ (Owner.sector_live hw)
  have hlt := inodeAt_length_lt s (w.sector s)
  refine Set.insert_subset_insert fun y hy => ?_
  obtain ⟨hlo, hhi⟩ := hy
  obtain ⟨k, rfl⟩ := Nat.exists_eq_add_of_le hlo
  have hmem := (s.inodeAt (w.sector s)).mem_sectors (o := 512 * k) (by omega) hlt
  rwa [Nat.mul_div_cancel_left k (by decide)] at hmem

end Owner

/-- **No sector has two owners**: in every state of every run from a formatted device, the sectors of
the owners are disjoint, lie on the device and are marked as used; and every valid call returns, so
that no assertion fails. -/
theorem sectors_owned_once {dev : Block} {disk : Buffer} {junk : ℕ → BitVec 32} {ms : List Bool}
    {s₀ : FileSys} {h : List (Session × FileCall)} {s : Session}
    (h₀ : filesysInit dev disk junk ms true = .ok s₀) (hrun : Session.Runs s₀ h s) :
    (∀ w w' : Owner, w.Present s.fs → w'.Present s.fs → w ≠ w' → Disjoint (w.sectors s.fs) (w'.sectors s.fs)) ∧
      (∀ w : Owner, w.Present s.fs → ∀ y ∈ w.sectors s.fs, y < s.fs.dev.size ∧ s.fs.freeMap.bit y = true) ∧
      ∀ c, s.Valid c → ∃ s', s.step c = .ok s' := by
  obtain ⟨m, hok, -⟩ := Session.ok_of_run h₀ hrun
  refine ⟨fun w w' hw hw' hne => ?_, fun w hw y hy => ?_, fun c hv => ?_⟩
  · refine (hok.intact.layout.disjoint (Owner.sector_live hw) (Owner.sector_live hw') fun heq => ?_).mono
      (hok.intact.owner_sectors hw) (hok.intact.owner_sectors hw')
    exact hne (hok.intact.owner_sector hw hw' heq)
  · exact hok.intact.layout.used _ (Owner.sector_live hw) y (hok.intact.owner_sectors hw hy)
  · obtain ⟨s', hs', -⟩ := Session.step_ends hok hv
    exact ⟨s', hs'⟩

/-- Two files are created, and one of them is removed while it is open. -/
theorem sectors_owned_once_small : ∃ s₀ h s, smallFs = .ok s₀ ∧ Session.Runs s₀ h s ∧
    (Owner.orphan 5).Present s.fs ∧ (Owner.entry 1).Present s.fs ∧
    Disjoint ((Owner.orphan 5).sectors s.fs) ((Owner.entry 1).sectors s.fs) := by
  obtain ⟨s₀, h, s, h₀, hrun, hp⟩ := small_run
    [.create nameA 512, .create nameB 512, .openFile nameA, .remove nameA]
    (fun s => s.fs.openInodes.contains 5 && (s.fs.inodes 5).removed && entryInUse (s.fs.slot 1))
    (by decide +kernel)
  simp only [Bool.and_eq_true, contains_iff_mem] at hp
  have horphan : (Owner.orphan 5).Present s.fs := ⟨hp.1.1, hp.1.2⟩
  have hentry : (Owner.entry 1).Present s.fs := ⟨by decide, hp.2⟩
  exact ⟨s₀, h, s, h₀, hrun, horphan, hentry,
    (sectors_owned_once h₀ hrun).1 _ _ horphan hentry fun heq => nomatch heq⟩

end Pintos
