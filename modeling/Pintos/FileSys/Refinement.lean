import Pintos.FileSys.Session
import Mathlib.Data.List.Forall2

/-!
# Files as byte arrays

Seen by its caller, the file system is a map from names to files, and a file is an array of bytes of
a fixed length. A name can be removed while the file is open, and be given to another file
afterwards; therefore names and handles both refer to files by a number that is never used again.
Sectors, inodes and the free map do not occur, but for one thing: whether there is room for a new
file is not determined.

* `AbsFs.step` — a call, as the caller sees it;
* `Represents` — the file system is in such a state: `place` tells in which sector the inode of a
  file is;
* `Effect.refines` — every call does what `AbsFs.step` does;
* `filesys_refines` — so does every run, and a write changes nothing but the file it writes to.
-/

namespace Pintos

open Total Transition Function List

/-! ### The abstract file system -/

/-- A file. -/
structure AbsFile where
  length : ℕ
  byte : ℕ → UInt8

/-- How much of a request for `size` bytes from `o` on lies in the file. -/
def AbsFile.clip (f : AbsFile) (o : ℕ) (size : ℤ) : ℕ := (min size (f.length - o)).toNat

/-- The bytes that a request gets. -/
def AbsFile.read (f : AbsFile) (o : ℕ) (size : ℤ) : List UInt8 :=
  (List.range (f.clip o size)).map fun i => f.byte (o + i)

/-- The file after a write. Its length does not change. -/
def AbsFile.write (f : AbsFile) (o : ℕ) (data : Buffer) (size : ℤ) : AbsFile :=
  { f with byte := fun i => if o ≤ i ∧ i < o + f.clip o size then data (i - o) else f.byte i }

/-- The file system: which file has which name, what the files hold, and for every handle its file
and its position. -/
structure AbsFs where
  names : List UInt8 → Option ℕ
  files : ℕ → AbsFile
  handles : List (Option (ℕ × ℕ))
  /-- The number of the next file. -/
  next : ℕ

/-- No name, no handle. -/
def AbsFs.empty : AbsFs := ⟨fun _ => none, fun _ => ⟨0, fun _ => 0⟩, [], 0⟩

/-- A name that a file can have. -/
def CString.IsName (name : CString) : Prop := name.chars ≠ [] ∧ name.chars.length ≤ nameMax

instance (name : CString) : Decidable name.IsName := inferInstanceAs (Decidable (_ ∧ _))

/-- **A call**, with its answer. `room` tells if there is room for a new file; a closed handle is not
used. -/
def AbsFs.step (a : AbsFs) (room : Bool) (c : FileCall) : Answer × AbsFs :=
  match c with
  | .create name size =>
    if name.IsName ∧ a.names name.chars = none ∧ room = true then
      (.ok true, { a with
        names := update a.names name.chars (some a.next)
        files := update a.files a.next ⟨size.toNat, fun _ => 0⟩
        next := a.next + 1 })
    else (.ok false, a)
  | .openFile name => (.ok (a.names name.chars).isSome, { a with
      handles := a.handles ++ [(a.names name.chars).map fun id => (id, 0)] })
  | .reopen h => (.ok true, { a with handles := a.handles ++ [a.handles[h]?.join.map fun f => (f.1, 0)] })
  | .read h size =>
    match a.handles[h]?.join with
    | none => (.done, a)
    | some (id, pos) => (.bytes ((a.files id).read pos size), { a with
        handles := a.handles.set h (some (id, pos + (a.files id).clip pos size)) })
  | .readAt h size ofs =>
    match a.handles[h]?.join with
    | none => (.done, a)
    | some (id, _) => (.bytes ((a.files id).read ofs.toNat size), a)
  | .write h data size =>
    match a.handles[h]?.join with
    | none => (.done, a)
    | some (id, pos) => (.count ((a.files id).clip pos size), { a with
        files := update a.files id ((a.files id).write pos data size)
        handles := a.handles.set h (some (id, pos + (a.files id).clip pos size)) })
  | .writeAt h data size ofs =>
    match a.handles[h]?.join with
    | none => (.done, a)
    | some (id, _) => (.count ((a.files id).clip ofs.toNat size), { a with
        files := update a.files id ((a.files id).write ofs.toNat data size) })
  | .seek h pos =>
    match a.handles[h]?.join with
    | none => (.done, a)
    | some (id, _) => (.done, { a with handles := a.handles.set h (some (id, pos.toNat)) })
  | .remove name => (.ok (a.names name.chars).isSome, { a with
      names := update a.names name.chars none })
  | .close h => (.done, { a with handles := a.handles.set h none })

/-- **The answers are explained**: the abstract file system gives the same answers to the same calls,
and is then in the state `a`. The calls are listed latest first. -/
inductive AbsFs.Explains : List (FileCall × Answer) → AbsFs → Prop where
  | empty : AbsFs.Explains [] .empty
  | call {log : List (FileCall × Answer)} {a : AbsFs} (c : FileCall) (room : Bool) :
      AbsFs.Explains log a → AbsFs.Explains ((c, (a.step room c).1) :: log) (a.step room c).2

/-- A file that can still be reached. -/
def AbsFs.Live (a : AbsFs) (id : ℕ) : Prop :=
  (∃ name, a.names name = some id) ∨ ∃ pos, some (id, pos) ∈ a.handles

/-! ### The relation -/

/-- The file whose inode is in sector `x`. -/
structure HoldsFile (s : FileSys) (x : ℕ) (f : AbsFile) : Prop where
  length : (s.inodeAt x).length = f.length
  byte : ∀ o < f.length, s.disk (512 * (s.inodeAt x).start + o) = f.byte o

/-- A handle. -/
inductive SameHandle (s : FileSys) (place : ℕ → ℕ) : Option File → Option (ℕ × ℕ) → Prop where
  | closed : SameHandle s place none none
  | opened {file : File} {id pos : ℕ} : (s.inodes file.inode).sector = place id → file.pos = pos →
      SameHandle s place (some file) (some (id, pos))

/-- **The file system represents an abstract one.** -/
structure Represents (s : Session) (a : AbsFs) (place : ℕ → ℕ) : Prop where
  entries : ∀ i < 16, entryInUse (s.fs.slot i) = true →
    ∃ id, a.names (entryName (s.fs.slot i)) = some id ∧ place id = entrySector (s.fs.slot i)
  names : ∀ name id, a.names name = some id → ∃ i < 16, entryInUse (s.fs.slot i) = true ∧
    entryName (s.fs.slot i) = name ∧ entrySector (s.fs.slot i) = place id
  handles : List.Forall₂ (SameHandle s.fs place) s.handles a.handles
  inj : ∀ id id', a.Live id → a.Live id' → place id = place id' → id = id'
  holds : ∀ id, a.Live id → HoldsFile s.fs (place id) (a.files id)
  fresh : ∀ id, a.Live id → id < a.next

/-! ### Lists of handles -/

section Forall2

variable {α β : Type} {R S : α → β → Prop} {l : List α} {l' : List β} {h : ℕ} {x : α} {y : β}

theorem forall₂_get (hl : List.Forall₂ R l l') : ∀ {h : ℕ}, l[h]? = some x →
    ∃ y, l'[h]? = some y ∧ R x y := by
  induction hl with
  | nil => exact nofun
  | @cons a b _ _ hab _ ih =>
    intro h hx
    cases h with
    | zero =>
      obtain rfl : a = x := Option.some.inj hx
      exact ⟨b, rfl, hab⟩
    | succ h => exact ih hx

/-- What follows for the members follows for the lists. -/
theorem forall₂_imp_mem (hl : List.Forall₂ R l l') (himp : ∀ x ∈ l, ∀ y ∈ l', R x y → S x y) :
    List.Forall₂ S l l' := by
  induction hl with
  | nil => exact .nil
  | cons hab _ ih =>
    refine .cons (himp _ mem_cons_self _ mem_cons_self hab) (ih fun x hx y hy => ?_)
    exact himp x (mem_cons_of_mem _ hx) y (mem_cons_of_mem _ hy)

theorem forall₂_set (hl : List.Forall₂ R l l') (hxy : R x y) : ∀ h,
    List.Forall₂ R (l.set h x) (l'.set h y) := by
  induction hl with
  | nil => exact fun _ => .nil
  | cons hab hl ih =>
    intro h
    cases h with
    | zero => exact .cons hxy hl
    | succ h => exact .cons hab (ih h)

end Forall2

section Represents

variable {s s' : Session} {a : AbsFs} {place : ℕ → ℕ} {m : InodePtr} {fs : FileSys} {id pos h : ℕ}

theorem HoldsFile.same {s s' : FileSys} {x : ℕ} {f : AbsFile} (hf : HoldsFile s x f)
    (hs : SameFile s s' x) : HoldsFile s' x f := by
  refine ⟨hs.1 ▸ hf.length, fun o ho => ?_⟩
  have hbyte := hs.2 o (by rw [hf.length]; omega)
  rw [hs.1]
  exact hbyte.trans (hf.byte o ho)

/-- The inode of a handle. -/
theorem Represents.handle (hr : Represents s a place) {file : File} (hfile : s.handles[h]? = some (some file)) :
    ∃ id pos, a.handles[h]? = some (some (id, pos)) ∧ (s.fs.inodes file.inode).sector = place id ∧
      file.pos = pos ∧ a.Live id := by
  obtain ⟨y, hy, hsame⟩ := forall₂_get hr.handles hfile
  cases hsame with
  | @opened _ id pos hsector hpos =>
    exact ⟨id, pos, hy, hsector, hpos, .inr ⟨pos, mem_of_getElem? hy⟩⟩

/-- The file of a handle, and its bytes. -/
theorem Represents.openHandle (hr : Represents s a place) (hok : s.Ok m) {file : File}
    (hfile : s.handles[h]? = some (some file)) :
    ∃ id pos, a.handles[h]? = some (some (id, pos)) ∧ (s.fs.inodes file.inode).sector = place id ∧
      file.pos = pos ∧ a.Live id ∧ file.inode ∈ s.fs.openInodes ∧
        HoldsFile s.fs (s.fs.inodes file.inode).sector (a.files id) := by
  obtain ⟨id, pos, hh, hat, hpos, hid⟩ := hr.handle hfile
  obtain ⟨hopen, -, -⟩ := hok.open_of_handle (mem_of_getElem? hfile)
  exact ⟨id, pos, hh, hat, hpos, hid, hopen, hat ▸ hr.holds id hid⟩

theorem Represents.names_eq_none (hr : Represents s a place) {name : List UInt8}
    (habsent : ∀ i < 16, entryInUse (s.fs.slot i) = true → entryName (s.fs.slot i) ≠ name) :
    a.names name = none := by
  by_contra hsome
  obtain ⟨id, hid⟩ := Option.ne_none_iff_exists'.mp hsome
  obtain ⟨i, hi, huse, hname, -⟩ := hr.names _ id hid
  exact habsent i hi huse hname

/-- A file that can be reached is live, and it is a user's. -/
theorem Represents.place_live (hr : Represents s a place) (hok : s.Ok m) (hid : a.Live id) :
    place id ∈ s.fs.live ∧ place id ≠ freeMapSector ∧ place id ≠ rootDirSector := by
  obtain ⟨name, hname⟩ | ⟨pos, hmem⟩ := hid
  · obtain ⟨i, hi, huse, -, hsector⟩ := hr.names name id hname
    have hnamed : place id ∈ s.fs.named := ⟨i, hi, huse, hsector⟩
    exact ⟨mem_live_named hnamed, hok.intact.special _ hnamed⟩
  · obtain ⟨h, hh⟩ := List.getElem?_of_mem hmem
    obtain ⟨x, hx, hsame⟩ := forall₂_get hr.handles.flip hh
    cases hsame with
    | opened hsector _ =>
      obtain ⟨hopen, hmap, hroot⟩ := hok.open_of_handle (mem_of_getElem? hx)
      rw [← hsector]
      exact ⟨mem_live_open hopen, hmap, hroot⟩

/-- The handles, after a call that leaves the open inodes in their sectors. -/
theorem Represents.same_handles (hr : Represents s a place) (hok : s.Ok m)
    (hsector : ∀ q ∈ s.fs.openInodes, (fs.inodes q).sector = (s.fs.inodes q).sector) {place' : ℕ → ℕ}
    (hplace : ∀ id, a.Live id → place' id = place id) :
    List.Forall₂ (SameHandle fs place') s.handles a.handles := by
  refine forall₂_imp_mem hr.handles fun x hx y hy hsame => ?_
  cases hsame with
  | closed => exact .closed
  | opened hat hpos =>
    refine .opened ?_ hpos
    rw [hsector _ (hok.open_of_handle hx).1, hat, hplace _ (.inr ⟨_, hy⟩)]

/-- **A call that changes no name.** -/
theorem Represents.frame (hr : Represents s a place) {files : ℕ → AbsFile} {hs : List (Option File)}
    {ahs : List (Option (ℕ × ℕ))} {log : List (FileCall × Answer)} (hslots : SameSlots s.fs fs)
    (hfiles : ∀ id, a.Live id → HoldsFile fs (place id) (files id))
    (hhandles : List.Forall₂ (SameHandle fs place) hs ahs)
    (hold : ∀ id pos, some (id, pos) ∈ ahs → a.Live id) :
    Represents ⟨fs, hs, log⟩ { a with files := files, handles := ahs } place := by
  have hlive : ∀ id, AbsFs.Live { a with files := files, handles := ahs } id → a.Live id := by
    rintro id (hname | ⟨pos, hmem⟩)
    · exact .inl hname
    · exact hold id pos hmem
  refine ⟨fun i hi huse => ?_, fun name id hname => ?_, hhandles, fun id id' hid hid' => ?_,
    fun id hid => hfiles id (hlive id hid), fun id hid => hr.fresh id (hlive id hid)⟩
  · obtain ⟨huse', hname', hsector'⟩ := entry_congr (hslots i hi)
    obtain ⟨id, hid, hplace⟩ := hr.entries i hi (huse'.symm.trans huse)
    refine ⟨id, ?_, ?_⟩
    · rw [hname']
      exact hid
    · rw [hplace]
      exact hsector'.symm
  · obtain ⟨i, hi, huse, hn, hsector⟩ := hr.names name id hname
    obtain ⟨huse', hname', hsector'⟩ := entry_congr (hslots i hi)
    exact ⟨i, hi, huse'.trans huse, hname'.trans hn, hsector'.trans hsector⟩
  · exact hr.inj id id' (hlive id hid) (hlive id' hid')

/-- The same handles belong to the same files. -/
theorem AbsFs.live_of_handle (hmem : some (id, pos) ∈ a.handles) : a.Live id := .inr ⟨pos, hmem⟩

/-- A handle at another position belongs to the same file. -/
theorem AbsFs.live_of_set {pos' : ℕ} (hh : a.handles[h]? = some (some (id, pos))) :
    ∀ id' pos'', some (id', pos'') ∈ a.handles.set h (some (id, pos')) → a.Live id' := by
  intro id' pos'' hmem
  obtain hmem | heq := mem_or_eq_of_mem_set hmem
  · exact AbsFs.live_of_handle hmem
  · obtain ⟨rfl, -⟩ := Prod.mk.inj (Option.some.inj heq)
    exact AbsFs.live_of_handle (mem_of_getElem? hh)

theorem Quiet.sameSlots {s s' : FileSys} (h : Quiet s s') : SameSlots s s' := fun i _ o _ => by rw [h.slot]

/-- A name stands in one slot only. -/
theorem Represents.slot_unique (hr : Represents s a place) (hok : s.Ok m) {i j : ℕ} (hi : i < 16)
    (hj : j < 16) (hui : entryInUse (s.fs.slot i) = true) (huj : entryInUse (s.fs.slot j) = true)
    (hname : entryName (s.fs.slot i) = entryName (s.fs.slot j)) : i = j := by
  obtain ⟨id, hid, hplace⟩ := hr.entries i hi hui
  obtain ⟨id', hid', hplace'⟩ := hr.entries j hj huj
  rw [hname, hid'] at hid
  cases hid
  exact hok.intact.once i hi j hj hui huj (hplace.symm.trans hplace')

/-- **A new file.** -/
theorem Represents.create (hr : Represents s a place) (hok : s.Ok m) {name : CString} {size : ℤ} {w x : ℕ}
    (hsize : 0 ≤ size) (hkept : SameInodes s.fs fs) (hnew : NewFile s.fs fs name size w x)
    (hfree : entryInUse (s.fs.slot w) = false ∧ ∀ i < 16, entryInUse (s.fs.slot i) = true →
      entryName (s.fs.slot i) ≠ name.chars) (log : List (FileCall × Answer)) :
    Represents ⟨fs, s.handles, log⟩ { a with
      names := update a.names name.chars (some a.next)
      files := update a.files a.next ⟨size.toNat, fun _ => 0⟩
      next := a.next + 1 } (update place a.next x) := by
  have hplace : ∀ id, a.Live id → update place a.next x id = place id := fun id hid =>
    update_of_ne (Nat.ne_of_lt (hr.fresh id hid)) ..
  have hfile : ∀ id, a.Live id → update a.files a.next ⟨size.toNat, fun _ => 0⟩ id = a.files id :=
    fun id hid => update_of_ne (Nat.ne_of_lt (hr.fresh id hid)) ..
  have hnamed : ∀ {n : List UInt8} {id : ℕ}, a.names n = some id → n ≠ name.chars := by
    rintro n id hn rfl
    obtain ⟨i, hi, huse, hname, -⟩ := hr.names _ id hn
    exact hfree.2 i hi huse hname
  have hlive : ∀ id, AbsFs.Live { a with
      names := update a.names name.chars (some a.next)
      files := update a.files a.next ⟨size.toNat, fun _ => 0⟩
      next := a.next + 1 } id → a.Live id ∨ id = a.next := by
    rintro id (⟨n, hn⟩ | ⟨pos, hmem⟩)
    · change update a.names name.chars (some a.next) n = some id at hn
      by_cases hname : n = name.chars
      · rw [hname, update_self] at hn
        exact .inr (Option.some.inj hn).symm
      · rw [update_of_ne hname] at hn
        exact .inl (.inl ⟨n, hn⟩)
    · exact .inl (.inr ⟨pos, hmem⟩)
  -- the new inode is in a sector of its own
  have hown : ∀ id, a.Live id → place id ≠ x := fun id hid heq =>
    hnew.fresh (heq ▸ (hr.place_live hok hid).1)
  refine ⟨fun i hi huse => ?_, fun n id hn => ?_, ?_, fun id id' hid hid' heq => ?_, fun id hid => ?_,
    fun id hid => ?_⟩
  · by_cases hiw : i = w
    · subst hiw
      refine ⟨a.next, ?_, ?_⟩
      · show update a.names name.chars (some a.next) (entryName (fs.slot i)) = _
        rw [hnew.named, update_self]
      · rw [update_self]
        exact hnew.sector.symm
    · obtain ⟨huse', hname', hsector'⟩ := entry_congr (hnew.others i hi hiw)
      obtain ⟨id, hid, hat⟩ := hr.entries i hi (huse'.symm.trans huse)
      refine ⟨id, ?_, ?_⟩
      · show update a.names name.chars (some a.next) (entryName (fs.slot i)) = _
        rw [hname', update_of_ne (hnamed hid)]
        exact hid
      · rw [hplace id (.inl ⟨_, hid⟩), hat]
        exact hsector'.symm
  · change update a.names name.chars (some a.next) n = some id at hn
    by_cases hname : n = name.chars
    · rw [hname, update_self] at hn
      cases hn
      refine ⟨w, hnew.slot, hnew.used, hnew.named.trans hname.symm, ?_⟩
      rw [update_self]
      exact hnew.sector
    · rw [update_of_ne hname] at hn
      obtain ⟨i, hi, huse, hi', hsector⟩ := hr.names n id hn
      have hiw : i ≠ w := by
        rintro rfl
        rw [hfree.1] at huse
        exact nomatch huse
      obtain ⟨huse', hname', hsector'⟩ := entry_congr (hnew.others i hi hiw)
      refine ⟨i, hi, huse'.trans huse, hname'.trans hi', ?_⟩
      rw [hplace id (.inl ⟨n, hn⟩)]
      exact hsector'.trans hsector
  · exact hr.same_handles hok (fun q hq => hkept.sector q (hok.intact.table.fresh q hq)) hplace
  · obtain hid | rfl := hlive id hid
    · obtain hid' | rfl := hlive id' hid'
      · rw [hplace id hid, hplace id' hid'] at heq
        exact hr.inj id id' hid hid' heq
      · rw [hplace id hid, update_self] at heq
        exact absurd heq (hown id hid)
    · obtain hid' | rfl := hlive id' hid'
      · rw [hplace id' hid', update_self] at heq
        exact absurd heq.symm (hown id' hid')
      · rfl
  · obtain hid | rfl := hlive id hid
    · obtain ⟨hmem, hmap, hroot⟩ := hr.place_live hok hid
      show HoldsFile fs (update place a.next x id) (update a.files a.next _ id)
      rw [hplace id hid, hfile id hid]
      exact (hr.holds id hid).same (hnew.files _ hmem hmap hroot)
    · show HoldsFile fs (update place a.next x a.next) (update a.files a.next _ a.next)
      rw [update_self, update_self]
      exact ⟨hnew.length.trans (Int.toNat_of_nonneg hsize).symm, fun o ho => hnew.zero o (by
        change o < size.toNat at ho
        omega)⟩
  · obtain hid | rfl := hlive id hid
    · exact (hr.fresh id hid).trans (Nat.lt_succ_self _)
    · exact Nat.lt_succ_self _

/-- **A name is removed.** Its file stays as long as it is open. -/
theorem Represents.remove (hr : Represents s a place) (hok : s.Ok m) {name : CString} {w : ℕ}
    (hgone : Gone s.fs fs name w) (hok' : Session.Ok ⟨fs, s.handles, s.log⟩ m)
    (log : List (FileCall × Answer)) :
    Represents ⟨fs, s.handles, log⟩ { a with names := update a.names name.chars none } place := by
  have hnames : ∀ {n : List UInt8} {id : ℕ}, update a.names name.chars none n = some id →
      n ≠ name.chars ∧ a.names n = some id := by
    intro n id hn
    by_cases hname : n = name.chars
    · rw [hname, update_self] at hn
      exact nomatch hn
    · rw [update_of_ne hname] at hn
      exact ⟨hname, hn⟩
  have hlive : ∀ id, AbsFs.Live { a with names := update a.names name.chars none } id → a.Live id := by
    rintro id (⟨n, hn⟩ | hmem)
    · exact .inl ⟨n, (hnames hn).2⟩
    · exact .inr hmem
  have hslot : ∀ i < 16, i ≠ w → entryInUse (fs.slot i) = entryInUse (s.fs.slot i) ∧
      entryName (fs.slot i) = entryName (s.fs.slot i) ∧
      entrySector (fs.slot i) = entrySector (s.fs.slot i) := fun i hi hiw =>
    entry_congr (hgone.others i hi hiw)
  have hentries : ∀ i < 16, entryInUse (fs.slot i) = true → ∃ id,
      update a.names name.chars none (entryName (fs.slot i)) = some id ∧
        place id = entrySector (fs.slot i) := by
    intro i hi huse
    have hiw : i ≠ w := by
      rintro rfl
      rw [hgone.free] at huse
      exact nomatch huse
    obtain ⟨huse', hname', hsector'⟩ := hslot i hi hiw
    rw [huse'] at huse
    obtain ⟨id, hid, hat⟩ := hr.entries i hi huse
    refine ⟨id, ?_, hat.trans hsector'.symm⟩
    rw [hname', update_of_ne]
    · exact hid
    · -- the name is not in another slot
      intro hname
      exact hiw (hr.slot_unique hok hi hgone.slot huse hgone.used (hname.trans hgone.named.symm))
  have hplaces : ∀ n id, update a.names name.chars none n = some id → ∃ i < 16,
      entryInUse (fs.slot i) = true ∧ entryName (fs.slot i) = n ∧ entrySector (fs.slot i) = place id := by
    intro n id hn
    obtain ⟨hne, hn⟩ := hnames hn
    obtain ⟨i, hi, huse, hname, hsector⟩ := hr.names n id hn
    have hiw : i ≠ w := by
      rintro rfl
      exact hne (hname.symm.trans hgone.named)
    obtain ⟨huse', hname', hsector'⟩ := hslot i hi hiw
    exact ⟨i, hi, huse'.trans huse, hname'.trans hname, hsector'.trans hsector⟩
  have hhandles := hr.same_handles hok hgone.sector fun _ _ => rfl
  refine ⟨hentries, hplaces, hhandles, fun id id' hid hid' => hr.inj id id' (hlive id hid) (hlive id' hid'),
    fun id hid => (hr.holds id (hlive id hid)).same ?_, fun id hid => hr.fresh id (hlive id hid)⟩
  -- what can be reached afterwards is live afterwards
  obtain ⟨-, hmap, hroot⟩ := hr.place_live hok (hlive id hid)
  refine hgone.files _ ?_ hmap hroot
  obtain ⟨n, hn⟩ | ⟨pos, hmem⟩ := hid
  · obtain ⟨i, hi, huse, -, hsector⟩ := hplaces n id hn
    exact mem_live_named ⟨i, hi, huse, hsector⟩
  · obtain ⟨h, hh⟩ := List.getElem?_of_mem hmem
    obtain ⟨x, hx, hsame⟩ := forall₂_get hhandles.flip hh
    cases hsame with
    | opened hsector _ =>
      rw [← hsector]
      exact mem_live_open (hok'.open_of_handle (mem_of_getElem? hx)).1

section Transfer

variable {file : File} {f : AbsFile} {o : ℕ} {size : ℤ}

/-- The data of an open file. -/
theorem HoldsFile.of_open (hok : s.Ok m) (hopen : file.inode ∈ s.fs.openInodes)
    (hf : HoldsFile s.fs (s.fs.inodes file.inode).sector f) :
    (s.fs.inodes file.inode).data.length = f.length ∧
      ∀ o < f.length, s.fs.disk (512 * (s.fs.inodes file.inode).data.start + o) = f.byte o := by
  rw [hok.intact.table.data _ hopen]
  exact ⟨hf.length, hf.byte⟩

/-- With memory enough, everything within the file is moved. -/
theorem amount_eq (hok : s.Ok m) (hnil : s.fs.mallocs = []) (hopen : file.inode ∈ s.fs.openInodes)
    (hf : HoldsFile s.fs (s.fs.inodes file.inode).sector f) :
    s.fs.amount file.inode size o = f.clip o size := by
  have hwhole : ∀ k, moved [] false o k = k := fun k => if_pos (.inr (.inr rfl))
  unfold FileSys.amount AbsFile.clip
  rw [hnil, hwhole, clip, (hf.of_open hok hopen).1]

/-- The bytes that are read. -/
theorem bytesAt_eq_read (hok : s.Ok m) (hnil : s.fs.mallocs = []) (hopen : file.inode ∈ s.fs.openInodes)
    (hf : HoldsFile s.fs (s.fs.inodes file.inode).sector f) :
    s.fs.bytesAt file.inode o (s.fs.amount file.inode size o) = f.read o size := by
  rw [amount_eq hok hnil hopen hf]
  refine map_congr_left fun i hi => ?_
  rw [mem_range] at hi
  rw [Nat.add_assoc]
  refine (hf.of_open hok hopen).2 (o + i) ?_
  unfold AbsFile.clip at hi
  omega

/-- **A write** changes the file it writes to, and no other. -/
theorem Represents.write_files (hr : Represents s a place) (hok : s.Ok m) (hnil : s.fs.mallocs = [])
    (hopen : file.inode ∈ s.fs.openInodes) (hid : a.Live id)
    (hat : (s.fs.inodes file.inode).sector = place id) {data : Buffer}
    (hw : Wrote s.fs fs (s.refs m) file.inode o (s.fs.amount file.inode size o) data) :
    ∀ id', a.Live id' → HoldsFile fs (place id')
      (update a.files id ((a.files id).write o data size) id') := by
  intro id' hid'
  have hf : HoldsFile s.fs (s.fs.inodes file.inode).sector (a.files id) := hat ▸ hr.holds id hid
  by_cases heq : id' = id
  · subst heq
    rw [update_self, ← hat]
    have hinode := hw.layout.inodeAt _ (mem_live_open hopen)
    refine ⟨by rw [hinode]; exact hf.length, fun b hb => ?_⟩
    rw [hinode, ← hok.intact.table.data _ hopen, hw.disk, amount_eq hok hnil hopen hf]
    show memcpy _ _ _ _ _ _ = if o ≤ b ∧ b < o + (a.files id').clip o size then data (b - o) else _
    split
    · rw [memcpy_inside (by omega) (by omega)]
      congr 1
      omega
    · rw [memcpy_outside (by omega)]
      exact (hf.of_open hok hopen).2 b hb
  · rw [update_of_ne heq]
    refine (hr.holds id' hid').same (.of_diskSame hw.within fun y hy hmem => ?_)
    have hne : place id' ≠ (s.fs.inodes file.inode).sector := fun hsame =>
      heq (hr.inj id' id hid' hid (hsame.trans hat))
    rw [hok.intact.table.data _ hopen] at hmem
    exact Set.disjoint_left.mp (hok.intact.layout.disjoint (hr.place_live hok hid').1 (mem_live_open hopen) hne)
      hy (mem_extent_of_sectors hmem)

end Transfer

end Represents

/-! ### Every call -/

/-- There is no room for a new file: no free slot, or not enough sectors. -/
def FileSys.NoRoom (s : FileSys) : FileCall → Prop
  | .create _ size => ¬ s.CanStore size ∨ ∀ i < 16, entryInUse (s.slot i) = true
  | _ => False

section Refines

variable {s s' : Session} {a : AbsFs} {place : ℕ → ℕ} {m : InodePtr} {c : FileCall}

/-- **A call does what the abstract file system does**, if there is memory enough. -/
theorem Effect.refines (he : Effect s m c s') (hok : s.Ok m) (hok' : s'.Ok m) (hv : s.Valid c)
    (hnil : s.fs.mallocs = []) (hr : Represents s a place) :
    ∃ room place', (room = false → s.fs.NoRoom c) ∧ s'.log = (c, (a.step room c).1) :: s.log ∧
      Represents s' (a.step room c).2 place' := by
  have hfresh := hok.intact.table.fresh
  have hhold : ∀ id pos, some (id, pos) ∈ a.handles → a.Live id := fun id pos hmem => .inr ⟨pos, hmem⟩
  have hroot := hok.intact.root
  -- a call that changes neither files nor names
  have hquiet : ∀ {fs : FileSys}, Quiet s.fs fs → SameSlots s.fs fs ∧
      (∀ id, a.Live id → HoldsFile fs (place id) (a.files id)) ∧
      List.Forall₂ (SameHandle fs place) s.handles a.handles := fun hq =>
    ⟨hq.sameSlots, fun id hid => (hr.holds id hid).same (hq.sameFile _),
      hr.same_handles hok (fun q hq₀ => hq.kept.sector q (hfresh q hq₀)) fun _ _ => rfl⟩
  cases he with
  | @create name size success fs hmakes =>
    have hfail : ∀ {fs : FileSys}, SameInodes s.fs fs → SameFiles s.fs fs →
        Represents ⟨fs, s.handles, (.create name size, .ok false) :: s.log⟩ a place := by
      intro fs hkept hfiles
      refine hr.frame ((hfiles _ (mem_live_root _) (by decide)).slots hroot) (fun id hid => ?_)
        (hr.same_handles hok (fun q hq => hkept.sector q (hfresh q hq)) fun _ _ => rfl) hhold
      obtain ⟨hlive, hmap, -⟩ := hr.place_live hok hid
      exact (hr.holds id hid).same (hfiles _ hlive hmap)
    have hstep : ∀ room, ¬ (name.IsName ∧ a.names name.chars = none ∧ room = true) →
        a.step room (.create name size) = (.ok false, a) := fun room hno => if_neg hno
    cases hmakes with
    | early hcan _ hkept _ hfiles _ =>
      refine ⟨false, place, fun _ => .inl hcan, ?_⟩
      rw [hstep false fun hbad => nomatch hbad.2.2]
      exact ⟨rfl, hfail hkept hfiles⟩
    | late j _ _ hkept _ hfiles _ _ hrefuses =>
      by_cases hfull : ∀ i < 16, entryInUse (s.fs.slot i) = true
      · refine ⟨false, place, fun _ => .inr hfull, ?_⟩
        rw [hstep false fun hbad => nomatch hbad.2.2]
        exact ⟨rfl, hfail hkept hfiles⟩
      · refine ⟨true, place, nofun, ?_⟩
        rw [hstep true ?_]
        · exact ⟨rfl, hfail hkept hfiles⟩
        · rintro ⟨hname, hnone, -⟩
          obtain hbad | hbad | ⟨i, hi, huse, hbad⟩ | hbad := hrefuses hnil
          · exact hname.1 hbad
          · exact absurd hname.2 (not_le.mpr hbad)
          · obtain ⟨id, hid, -⟩ := hr.entries i hi huse
            rw [hbad, hnone] at hid
            exact nomatch hid
          · exact hfull hbad
    | made w x _ hkept hnew =>
      have hfree := hnew.free hnil
      have hnone := hr.names_eq_none hfree.2
      refine ⟨true, update place a.next x, nofun, ?_⟩
      rw [show a.step true (.create name size) = (.ok true, _) from if_pos ⟨hnew.valid, hnone, rfl⟩]
      exact ⟨rfl, hr.create hok hv.1 hkept hnew hfree _⟩
  | @openFile name file fs hfinds =>
    refine ⟨true, place, nofun, ?_⟩
    cases hfinds with
    | none _ hq habsent =>
      have hnone := hr.names_eq_none (habsent hnil)
      obtain ⟨hslots, hfiles, hhandles⟩ := hquiet hq
      simp only [AbsFs.step, hnone]
      refine ⟨rfl, hr.frame hslots hfiles (rel_append hhandles (.cons .closed .nil)) fun id pos hmem => ?_⟩
      exact hhold id pos ((mem_append.mp hmem).resolve_right fun hbad => nomatch mem_singleton.mp hbad)
    | some w p hw huse hname _ hq _ hsector =>
      obtain ⟨id, hid, hat⟩ := hr.entries w hw huse
      rw [hname] at hid
      obtain ⟨hslots, hfiles, hhandles⟩ := hquiet hq
      simp only [AbsFs.step, hid]
      refine ⟨rfl, hr.frame hslots hfiles (rel_append hhandles (.cons (.opened ?_ rfl) .nil))
        fun id' pos hmem => ?_⟩
      · exact hsector.trans hat.symm
      · obtain hmem | hmem := mem_append.mp hmem
        · exact hhold id' pos hmem
        · obtain ⟨rfl, -⟩ := Prod.mk.inj (Option.some.inj (mem_singleton.mp hmem))
          exact .inl ⟨_, hid⟩
  | reopenFailed hmem => exact absurd hnil hmem
  | @reopen h file fs hfile _ hq =>
    obtain ⟨id, pos, hh, hat, hpos, hid⟩ := hr.handle hfile
    obtain ⟨hslots, hfiles, hhandles⟩ := hquiet hq
    refine ⟨true, place, nofun, ?_⟩
    simp only [AbsFs.step, hh]
    refine ⟨trivial, hr.frame hslots hfiles (rel_append hhandles (.cons (.opened ?_ rfl) .nil))
      fun id' pos' hmem => ?_⟩
    · obtain ⟨hopen, -, -⟩ := hok.open_of_handle (mem_of_getElem? hfile)
      exact (hq.kept.sector _ (hfresh _ hopen)).trans hat
    · obtain hmem | hmem := mem_append.mp hmem
      · exact hhold id' pos' hmem
      · obtain ⟨rfl, -⟩ := Prod.mk.inj (Option.some.inj (mem_singleton.mp hmem))
        exact hid
  | @read h size file n ms hfile hn =>
    obtain ⟨id, pos, hh, hat, hpos, hid, hopen, hf⟩ := hr.openHandle hok hfile
    obtain ⟨hslots, hfiles, hhandles⟩ := hquiet (.withMallocs s.fs ms)
    have htoNat : file.pos.toNat = pos := by rw [hpos, Int.toNat_natCast]
    refine ⟨true, place, nofun, ?_⟩
    rw [htoNat] at hn
    rw [htoNat, hn, bytesAt_eq_read hok hnil hopen hf, amount_eq hok hnil hopen hf]
    simp only [AbsFs.step, hh]
    refine ⟨rfl, hr.frame hslots hfiles (forall₂_set hhandles (.opened ?_ ?_) h) (AbsFs.live_of_set hh)⟩
    · exact hat
    · rw [hpos, Int.natCast_add]
  | @readAt h size ofs file n ms hfile hn =>
    obtain ⟨id, pos, hh, hat, -, hid, hopen, hf⟩ := hr.openHandle hok hfile
    obtain ⟨hslots, hfiles, hhandles⟩ := hquiet (.withMallocs s.fs ms)
    refine ⟨true, place, nofun, ?_⟩
    rw [hn, bytesAt_eq_read hok hnil hopen hf]
    simp only [AbsFs.step, hh]
    exact ⟨rfl, hr.frame hslots hfiles hhandles hhold⟩
  | @write h data size file n fs hfile hn hw =>
    obtain ⟨id, pos, hh, hat, hpos, hid, hopen, hf⟩ := hr.openHandle hok hfile
    have htoNat : file.pos.toNat = pos := by rw [hpos, Int.toNat_natCast]
    have hhandles := @Represents.same_handles s a place m fs hr hok (fun q _ => by rw [hw.table.inodes])
      place fun _ _ => rfl
    refine ⟨true, place, nofun, ?_⟩
    subst hn
    rw [htoNat] at hw ⊢
    have hfiles := hr.write_files hok hnil hopen hid hat hw
    rw [amount_eq hok hnil hopen hf]
    simp only [AbsFs.step, hh]
    refine ⟨rfl, hr.frame hw.slots hfiles (forall₂_set hhandles (.opened ?_ ?_) h) (AbsFs.live_of_set hh)⟩
    · rw [hw.table.inodes]
      exact hat
    · rw [hpos, Int.natCast_add]
  | @writeAt h data size ofs file n fs hfile hn hw =>
    obtain ⟨id, pos, hh, hat, -, hid, hopen, hf⟩ := hr.openHandle hok hfile
    have hhandles := @Represents.same_handles s a place m fs hr hok (fun q _ => by rw [hw.table.inodes])
      place fun _ _ => rfl
    refine ⟨true, place, nofun, ?_⟩
    subst hn
    have hfiles := hr.write_files hok hnil hopen hid hat hw
    rw [amount_eq hok hnil hopen hf]
    simp only [AbsFs.step, hh]
    exact ⟨rfl, hr.frame hw.slots hfiles hhandles hhold⟩
  | @seek h pos file hfile hpos =>
    obtain ⟨id, pos', hh, hat, -, -⟩ := hr.handle hfile
    refine ⟨true, place, nofun, ?_⟩
    simp only [AbsFs.step, hh]
    refine ⟨rfl, hr.frame (fun _ _ _ _ => rfl) hr.holds (forall₂_set hr.handles (.opened ?_ ?_) h)
      (AbsFs.live_of_set hh)⟩
    · exact hat
    · exact (Int.toNat_of_nonneg hpos.1).symm
  | @remove name success fs hremoves =>
    refine ⟨true, place, nofun, ?_⟩
    cases hremoves with
    | kept _ hq habsent =>
      have hnone := hr.names_eq_none (habsent hnil)
      obtain ⟨hslots, hfiles, hhandles⟩ := hquiet hq
      have hsame : update a.names name.chars none = a.names := by
        rw [← hnone, update_eq_self]
      simp only [AbsFs.step, hsame, hnone]
      exact ⟨rfl, hr.frame hslots hfiles hhandles hhold⟩
    | gone w _ _ _ hgone =>
      obtain ⟨id, hid, -⟩ := hr.entries w hgone.slot hgone.used
      rw [hgone.named] at hid
      have hrep := hr.remove hok hgone ⟨hok'.intact, hok'.map, hok'.closed, hok'.user⟩
        ((.remove name, .ok true) :: s.log)
      simp only [AbsFs.step, hid]
      exact ⟨rfl, hrep⟩
  | @close h file fs hfile hc =>
    refine ⟨true, place, nofun, rfl, ?_⟩
    have hfiles := hok.intact.sameFiles_of_map hc.within
    have hhandles := @Represents.same_handles s a place m fs hr hok
      (fun q hq => hc.kept.sector q (hfresh q hq)) place fun _ _ => rfl
    refine hr.frame ((hfiles _ (mem_live_root _) (by decide)).slots hroot) (fun id hid => ?_)
      (forall₂_set hhandles .closed h) fun id pos hmem => ?_
    · obtain ⟨hlive, hmap, -⟩ := hr.place_live hok hid
      exact (hr.holds id hid).same (hfiles _ hlive hmap)
    · exact hhold id pos ((mem_or_eq_of_mem_set hmem).resolve_right nofun)

end Refines

/-! ### Every run -/

/-- The handle that is written to. -/
def FileCall.target : FileCall → Option ℕ
  | .write h _ _ => some h
  | .writeAt h _ _ _ => some h
  | _ => none

/-- **A write through the handle `h`** leaves everything else alone: the free map and its file, the
root directory and its entries, and every other file that is open or has a name. -/
def Isolated (s s' : Session) (h : ℕ) : Prop :=
  s'.fs.freeMap = s.fs.freeMap ∧ SameSlots s.fs s'.fs ∧ ∀ file, s.handles[h]? = some (some file) →
    ∀ x ∈ s.fs.live, x ≠ (s.fs.inodes file.inode).sector → SameFile s.fs s'.fs x

section Run

variable {dev : Block} {disk : Buffer} {junk : ℕ → BitVec 32} {s₀ : FileSys} {s s' : Session}
  {h : List (Session × FileCall)} {m : InodePtr} {c : FileCall} {k : ℕ}

theorem Wrote.isolated {fs : FileSys} {file : File} {o n : ℕ} {data : Buffer} (hok : s.Ok m)
    (hfile : s.handles[k]? = some (some file)) (hw : Wrote s.fs fs (s.refs m) file.inode o n data)
    (hs : List (Option File)) (log : List (FileCall × Answer)) : Isolated s ⟨fs, hs, log⟩ k := by
  refine ⟨hw.freeMap, hw.slots, fun file' hfile' x hx hne => .of_diskSame hw.within fun y hy hmem => ?_⟩
  obtain rfl := Option.some.inj (Option.some.inj (hfile.symm.trans hfile'))
  obtain ⟨hopen, -, -⟩ := hok.open_of_handle (mem_of_getElem? hfile)
  rw [hok.intact.table.data _ hopen] at hmem
  exact Set.disjoint_left.mp (hok.intact.layout.disjoint hx (mem_live_open hopen) hne) hy
    (mem_extent_of_sectors hmem)

theorem Effect.isolated (he : Effect s m c s') (hok : s.Ok m) (hk : c.target = some k) : Isolated s s' k := by
  cases he with
  | write hfile _ hw =>
    cases hk
    exact hw.isolated hok hfile _ _
  | writeAt hfile _ hw =>
    cases hk
    exact hw.isolated hok hfile _ _
  | _ => exact nomatch hk

/-- A new file system is the empty one. -/
theorem NewFileSys.represents {p : InodePtr} (hnew : NewFileSys s₀ p) :
    Represents (Session.begin s₀) .empty fun _ => 0 := by
  have hlive : ∀ id, ¬ AbsFs.empty.Live id := by
    rintro id (⟨name, hname⟩ | ⟨pos, hmem⟩)
    · exact nomatch hname
    · exact absurd hmem not_mem_nil
  refine ⟨fun i hi huse => ?_, fun name id hname => (nomatch hname), .nil, fun id _ hid => absurd hid (hlive id),
    fun id hid => absurd hid (hlive id), fun id hid => absurd hid (hlive id)⟩
  rw [show entryInUse ((Session.begin s₀).fs.slot i) = false from hnew.empty i hi] at huse
  exact nomatch huse

/-- The relation holds along every run. -/
theorem Session.represents_of_run (h₀ : filesysInit dev disk junk [] true = .ok s₀)
    (hrun : Session.Runs s₀ h s) : ∃ m a place, s.Ok m ∧ s.fs.mallocs = [] ∧ AbsFs.Explains s.log a ∧
      Represents s a place := by
  obtain ⟨hms, m, hnew⟩ := filesysInit_intact dev disk junk [] s₀ h₀
  refine hrun.invariant (I := fun s => ∃ m a place, s.Ok m ∧ s.fs.mallocs = [] ∧
    AbsFs.Explains s.log a ∧ Represents s a place)
    ⟨m, .empty, _, hnew.ok, hms rfl, .empty, hnew.represents⟩ ?_
  rintro s c s' ⟨m, a, place, hok, hnil, hexplains, hr⟩ hv hstep
  obtain ⟨heffect, hms'⟩ := (Session.step_ends hok hv).of_eq hstep
  have hok' := heffect.ok hok
  obtain ⟨room, place', -, hlog, hr'⟩ := heffect.refines hok hok' hv hnil hr
  exact ⟨m, _, place', hok', hms' hnil, hlog ▸ hexplains.call c room, hr'⟩

end Run

/-- **The file system refines a map from names to byte arrays.** In every run from a formatted
device, with memory enough: the answers so far are those of the abstract file system, which is now
represented; every valid call returns, and does the same there; and a write changes nothing but the
file it writes to. -/
theorem filesys_refines {dev : Block} {disk : Buffer} {junk : ℕ → BitVec 32} {s₀ : FileSys}
    {h : List (Session × FileCall)} {s : Session}
    (h₀ : filesysInit dev disk junk [] true = .ok s₀) (hrun : Session.Runs s₀ h s) :
    ∃ a place, AbsFs.Explains s.log a ∧ Represents s a place ∧ ∀ c, s.Valid c →
      Ends (s.step c) fun s' =>
        (∃ room place', (room = false → s.fs.NoRoom c) ∧ s'.log = (c, (a.step room c).1) :: s.log ∧
          Represents s' (a.step room c).2 place') ∧
        ∀ k, c.target = some k → Isolated s s' k := by
  obtain ⟨m, a, place, hok, hnil, hexplains, hr⟩ := Session.represents_of_run h₀ hrun
  refine ⟨a, place, hexplains, hr, fun c hv => (Session.step_ends hok hv).mono fun s' hs' => ⟨?_, fun k hk => ?_⟩⟩
  · exact hs'.1.refines hok (hs'.1.ok hok) hv hnil hr
  · exact hs'.1.isolated hok hk

/-- What the last call has read. -/
def Session.lastBytes (s : Session) : List UInt8 :=
  match s.log with
  | (_, .bytes bs) :: _ => bs
  | _ => []

/-- A file is written, removed while it is open, and created again; the old file can still be read. -/
theorem filesys_refines_removed : ∃ s₀ h s, smallFs = .ok s₀ ∧ Session.Runs s₀ h s ∧
    s.lastBytes = [2, 3] ∧ ∃ a place, AbsFs.Explains s.log a ∧ Represents s a place := by
  obtain ⟨s₀, h, s, h₀, hrun, hp⟩ := small_run
    [.create nameA 3, .openFile nameA, .write 0 (fun i => UInt8.ofNat (i + 1)) 9, .remove nameA,
      .create nameA 600, .openFile nameA, .writeAt 1 (fun _ => 7) 600 0, .readAt 0 9 1]
    (fun s => s.lastBytes == [2, 3]) (by decide +kernel)
  obtain ⟨a, place, hexplains, hr, -⟩ := filesys_refines h₀ hrun
  exact ⟨s₀, h, s, h₀, hrun, beq_iff_eq.mp hp, a, place, hexplains, hr⟩

/-- **The disk keeps the files.** When the disk that a run leaves is mounted again, whatever was
open, all names and files of the abstract file system that explains the run are there again. -/
theorem remount_keeps_files {dev : Block} {disk : Buffer} {junk : ℕ → BitVec 32} {ms : List Bool}
    {s₀ s₁ : FileSys} {h : List (Session × FileCall)} {s : Session}
    (h₀ : filesysInit dev disk junk [] true = .ok s₀) (hrun : Session.Runs s₀ h s)
    (hmount : filesysInit s.fs.dev s.fs.disk junk ms false = .ok s₁) : ∃ a place,
      AbsFs.Explains s.log a ∧ Represents (Session.begin s₁) { a with handles := [] } place := by
  obtain ⟨m, a, place, -, -, hexplains, hr⟩ := Session.represents_of_run h₀ hrun
  have hdisk : s₁.disk = s.fs.disk :=
    ((freeMapInit_yields _ _ junk ms).bind fun s₂ hblank => Yields.step rfl
      ((freeMapOpen_yields hblank.openInodes hblank.bitCnt hblank.pos hblank.fits).mono
        fun _ hs => hs.disk.trans hblank.disk)) s₁ hmount
  refine ⟨a, place, hexplains, hr.frame (fun i _ o _ => ?_) (fun id hid => ?_) .nil nofun⟩
  · simp only [FileSys.slot, FileSys.slotOf, FileSys.root, FileSys.inodeAt, hdisk]
  · refine (hr.holds id hid).same ?_
    simp only [SameFile, FileSys.inodeAt, hdisk, implies_true, and_self]

/-- A disk with one file is mounted again. -/
theorem remount_keeps_files_small : ∃ (s : Session) (s₁ : FileSys) (a : AbsFs) (place : ℕ → ℕ),
    filesysInit s.fs.dev s.fs.disk (fun _ => 0) [] false = .ok s₁ ∧ AbsFs.Explains s.log a ∧
      Represents (Session.begin s₁) { a with handles := [] } place := by
  obtain ⟨s₀, h, s, h₀, hrun, hp⟩ := small_run [.create nameA 3]
    (fun s => (filesysInit s.fs.dev s.fs.disk (fun _ => 0) [] false).toOption.any fun _ => true)
    (by decide +kernel)
  obtain ⟨s₁, hmount, -⟩ := Ends.of_run hp
  obtain ⟨a, place, hr⟩ := remount_keeps_files h₀ hrun hmount
  exact ⟨s, s₁, a, place, hmount, hr⟩

end Pintos
