import Pintos.Foundation.Ends
import Pintos.Foundation.Transition
import Pintos.Lib.Memory
import Mathlib.Order.Interval.Finset.Nat

/-!
# `threads/malloc.c`

Memory is a sequence of pages of 4096 bytes, and an address is a number. An **arena** is a page, or
a group of pages, that starts with a `struct arena` of 12 bytes. A small arena belongs to a
descriptor and is cut into blocks of one size; a big one holds a single block. `Store` is what
`malloc.c` writes: the headers of the arenas, found by page number, and the free list of every
descriptor, as the list of the addresses of its blocks.

The page allocator is the environment. What `palloc_get_multiple` returns is an argument of the call,
the number of the first page or `none`, so that it may fail at any point; `Store.held` are the pages
it has handed out and not got back.

A `Session` adds what the callers know: which blocks are live, and how many bytes were asked for.
`step` is one call of `malloc` or `free`, and `Allowed` is the contract of the callers and of the
page allocator.

* `mallocInit_eq` — the descriptors after `malloc_init`.
* `newArena_eq`, `clearArena_eq` — the two loops over the blocks of an arena.
-/

namespace Pintos.Malloc

open Total Function List

/-! ### The descriptors -/

/-- `struct desc`, without its free list, which is in `Store`. -/
structure Desc where
  blockSize : ℕ
  blocksPerArena : ℕ
  deriving DecidableEq, Repr

/-- The loop of `malloc_init`, from `blockSize` on, with `room` entries of `descs` left. -/
def mallocInitLoop : ℕ → ℕ → Except Panic (List Desc)
  | 0, blockSize => if blockSize < 4096 / 2 then .error .assertion else .ok []
  | room + 1, blockSize =>
    if blockSize < 4096 / 2 then do
      let rest ← mallocInitLoop room (blockSize * 2)
      .ok (⟨blockSize, (4096 - 12) / blockSize⟩ :: rest)
    else .ok []

/-- `malloc_init`, with `descs[10]`. -/
def mallocInit : Except Panic (List Desc) := mallocInitLoop 10 16

/-- The descriptors after `malloc_init`. -/
def descs : List Desc :=
  [⟨16, 255⟩, ⟨32, 127⟩, ⟨64, 63⟩, ⟨128, 31⟩, ⟨256, 15⟩, ⟨512, 7⟩, ⟨1024, 3⟩]

theorem mallocInit_eq : mallocInit = .ok descs := by decide

/-- A `struct desc *`. -/
abbrev DescPtr := Fin descs.length

/-- `d->block_size`. -/
def DescPtr.blockSize (d : DescPtr) : ℕ := (descs.get d).blockSize

/-- `d->blocks_per_arena`. -/
def DescPtr.blocksPerArena (d : DescPtr) : ℕ := (descs.get d).blocksPerArena

theorem blockSize_pos : ∀ d : DescPtr, 0 < d.blockSize := by decide

theorem blocksPerArena_pos : ∀ d : DescPtr, 0 < d.blocksPerArena := by decide

/-- The blocks of an arena fit behind its header. -/
theorem blocks_fit : ∀ d : DescPtr, 12 + d.blocksPerArena * d.blockSize ≤ 4096 := by decide

theorem blocksPerArena_le : ∀ d : DescPtr, d.blocksPerArena ≤ 255 := by decide

/-- The search of `malloc` for the smallest descriptor that satisfies the request. -/
def findDesc (size : ℕ) : Option DescPtr :=
  (List.finRange descs.length).find? fun d => size ≤ d.blockSize

theorem le_blockSize_of_findDesc {size : ℕ} {d : DescPtr} (h : findDesc size = some d) :
    size ≤ d.blockSize := by
  simpa using List.find?_some h

theorem findDesc_eq_none_iff {size : ℕ} : findDesc size = none ↔ 1024 < size := by
  have hlast : ∀ d : DescPtr, d.blockSize ≤ 1024 := by decide
  rw [findDesc, List.find?_eq_none]
  constructor
  · intro h
    simpa [DescPtr.blockSize, descs] using h (Fin.last 6) (mem_finRange _)
  · intro h d _
    have := hlast d
    simp only [decide_eq_true_eq]
    omega

/-! ### Arenas -/

/-- `struct arena`. The magic number is right in every header that is modelled. -/
structure Arena where
  desc : Option DescPtr
  freeCnt : ℕ
  deriving DecidableEq, Repr

/-- The memory `malloc.c` works on. -/
structure Store where
  /-- The header at the start of a page, if there is one. -/
  arenas : ℕ → Option Arena
  /-- `d->free_list`. -/
  freeList : DescPtr → List ℕ
  /-- The pages that `palloc` has handed out. -/
  held : Finset ℕ

/-- `block_to_arena`. The subtraction in the alignment check is unsigned. -/
def blockToArena (s : Store) (b : ℕ) : Except Panic Arena :=
  if b / 4096 = 0 then .error .assertion
  else match s.arenas (b / 4096) with
    | none => .error .assertion
    | some a => match a.desc with
      | some d =>
        if (b % 4096 + 2 ^ 32 - 12) % 2 ^ 32 % d.blockSize = 0 then .ok a else .error .assertion
      | none => if b % 4096 = 12 then .ok a else .error .assertion

/-- `arena_to_block`, for the arena on page `p`. -/
def arenaToBlock (s : Store) (p idx : ℕ) : Except Panic ℕ :=
  if p = 0 then .error .assertion
  else match s.arenas p with
    | none => .error .assertion
    | some a => match a.desc with
      | none => .error .nullPointer
      | some d =>
        if idx < d.blocksPerArena then .ok (p * 4096 + 12 + idx * d.blockSize)
        else .error .assertion

/-! ### The page allocator -/

/-- `palloc_get_multiple`: the answer of the page allocator, which never hands out zero pages. -/
def pallocGetMultiple (pageCnt : ℕ) (answer : Option ℕ) : Option ℕ :=
  if pageCnt = 0 then none else answer

/-- The pages are given back; they are filled with `0xcc`, and the headers on them are gone. -/
def Store.release (s : Store) (p pageCnt : ℕ) : Store :=
  { s with
    arenas := fun q => if p ≤ q ∧ q < p + pageCnt then none else s.arenas q
    held := s.held \ Finset.Ico p (p + pageCnt) }

/-- `palloc_free_multiple`, with the assertion that the pages are in use. -/
def pallocFreeMultiple (s : Store) (p pageCnt : ℕ) : Except Panic Store :=
  if p = 0 ∨ pageCnt = 0 then .ok s
  else if Finset.Ico p (p + pageCnt) ⊆ s.held then .ok (s.release p pageCnt)
  else .error .assertion

/-! ### `malloc` -/

/-- `DIV_ROUND_UP (size + sizeof *a, PGSIZE)`, in 32 bits. -/
def pageCount (size : ℕ) : ℕ := ((size + 12) % 2 ^ 32 + 4096 - 1) % 2 ^ 32 / 4096

/-- Writes a header. -/
def Store.setArena (s : Store) (p : ℕ) (a : Arena) : Store :=
  { s with arenas := update s.arenas p (some a) }

/-- Writes a free list. -/
def Store.setFree (s : Store) (d : DescPtr) (l : List ℕ) : Store :=
  { s with freeList := update s.freeList d l }

/-- Records the pages `palloc` has handed out. -/
def Store.obtain (s : Store) (p pageCnt : ℕ) : Store :=
  { s with held := s.held ∪ Finset.Ico p (p + pageCnt) }

/-- The big-block branch of `malloc`. -/
def mallocBig (s : Store) (size : ℕ) (answer : Option ℕ) : Option ℕ × Store :=
  match pallocGetMultiple (pageCount size) answer with
  | none => (none, s)
  | some p =>
    (some (p * 4096 + 12), (s.obtain p (pageCount size)).setArena p ⟨none, pageCount size⟩)

/-- Block `i` of the arena on page `p` is put on the free list. -/
def addBlock (d : DescPtr) (p : ℕ) (s : Store) (i : ℕ) : Except Panic Store := do
  let b ← arenaToBlock s p i
  .ok (s.setFree d (s.freeList d ++ [b]))

/-- The new arena on page `p` is initialised, and its blocks are put on the free list. -/
def newArena (s : Store) (d : DescPtr) (p : ℕ) : Except Panic Store :=
  (List.range d.blocksPerArena).foldlM (addBlock d p)
    ((s.obtain p 1).setArena p ⟨some d, d.blocksPerArena⟩)

/-- The end of `malloc`: a block is taken from the free list. -/
def takeBlock (s : Store) (d : DescPtr) : Except Panic (Option ℕ × Store) :=
  match s.freeList d with
  | [] => .error .assertion
  | b :: rest => do
    let a ← blockToArena s b
    .ok (some b,
      (s.setFree d rest).setArena (b / 4096) { a with freeCnt := (a.freeCnt + 2 ^ 32 - 1) % 2 ^ 32 })

/-- `malloc`. -/
def malloc (s : Store) (size : ℕ) (answer : Option ℕ) : Except Panic (Option ℕ × Store) :=
  if size = 0 then .ok (none, s)
  else match findDesc size with
    | none => .ok (mallocBig s size answer)
    | some d =>
      if s.freeList d = [] then
        match pallocGetMultiple 1 answer with
        | none => .ok (none, s)
        | some p => do
          let s ← newArena s d p
          takeBlock s d
      else takeBlock s d

/-- `calloc`: the block is also cleared. -/
def calloc (s : Store) (a b : ℕ) (answer : Option ℕ) : Except Panic (Option ℕ × Store) :=
  let size := a * b % 2 ^ 32
  if size < a ∨ size < b then .ok (none, s) else malloc s size answer

/-! ### `free` -/

/-- `list_remove`, of a block on the free list of `d`. -/
def listRemove (s : Store) (d : DescPtr) (b : ℕ) : Except Panic Store :=
  if b ∈ s.freeList d then .ok (s.setFree d ((s.freeList d).erase b)) else .error .assertion

/-- Block `i` of the arena on page `p` is taken off the free list. -/
def dropBlock (d : DescPtr) (p : ℕ) (s : Store) (i : ℕ) : Except Panic Store := do
  let b ← arenaToBlock s p i
  listRemove s d b

/-- The blocks of the arena on page `p` are taken off the free list. -/
def clearArena (s : Store) (d : DescPtr) (p : ℕ) : Except Panic Store :=
  (List.range d.blocksPerArena).foldlM (dropBlock d p) s

/-- The normal-block branch of `free`, for a block `b` of the arena `a`. -/
def freeNormal (s : Store) (d : DescPtr) (a : Arena) (b : ℕ) : Except Panic Store :=
  let freeCnt := (a.freeCnt + 1) % 2 ^ 32
  let s := (s.setFree d (b :: s.freeList d)).setArena (b / 4096) { a with freeCnt }
  if d.blocksPerArena ≤ freeCnt then
    if freeCnt = d.blocksPerArena then do
      let s ← clearArena s d (b / 4096)
      pallocFreeMultiple s (b / 4096) 1
    else .error .assertion
  else .ok s

/-- `free`. -/
def free (s : Store) (b : ℕ) : Except Panic Store :=
  if b = 0 then .ok s
  else do
    let a ← blockToArena s b
    match a.desc with
    | some d => freeNormal s d a b
    | none => pallocFreeMultiple s (b / 4096) a.freeCnt

/-! ### Sessions -/

/-- The store, and what the callers know of it. -/
structure Session where
  store : Store
  /-- The blocks that `malloc` has returned and that were not freed since. -/
  live : Finset ℕ
  /-- The number of bytes that was asked for, of a live block. -/
  request : ℕ → ℕ

/-- After `malloc_init`. -/
def boot : Session := ⟨⟨fun _ => none, fun _ => [], ∅⟩, ∅, fun _ => 0⟩

/-- One call. -/
inductive Call where
  | malloc (size : ℕ) (answer : Option ℕ)
  | free (b : ℕ)

/-- What a call does. -/
def step (s : Session) : Call → Except Panic Session
  | .malloc size answer => do
    let r ← malloc s.store size answer
    match r.1 with
    | none => .ok { s with store := r.2 }
    | some b =>
      .ok { store := r.2, live := insert b s.live, request := update s.request b size }
  | .free b => do
    let store ← free s.store b
    .ok { s with store, live := s.live.erase b }

/-- The number of pages a request asks the page allocator for, if it asks at all. -/
def pagesWanted (size : ℕ) : ℕ :=
  match findDesc size with
  | none => pageCount size
  | some _ => 1

/-- The page allocator hands out pages that it has, in the 32-bit address space. -/
def Granted (s : Store) (size : ℕ) (answer : Option ℕ) : Prop :=
  ∀ p, answer = some p → 0 < p ∧ p + pagesWanted size ≤ 2 ^ 20 ∧
    ∀ q, p ≤ q → q < p + pagesWanted size → q ∉ s.held

/-- The contract: a size is a `size_t`, the page allocator does its work, and only live blocks are
freed. -/
def Allowed (s : Session) : Call → Prop
  | .malloc size answer => size < 2 ^ 32 ∧ Granted s.store size answer
  | .free b => b ∈ s.live

/-! ### The loops over the blocks of an arena -/

/-- The address of block `i` of a small arena. -/
def slot (d : DescPtr) (p i : ℕ) : ℕ := p * 4096 + 12 + i * d.blockSize

/-- The blocks of a small arena. -/
def slots (d : DescPtr) (p : ℕ) : List ℕ := (List.range d.blocksPerArena).map (slot d p)

variable {s : Store} {d : DescPtr} {p i j b : ℕ}

theorem mem_slots : b ∈ slots d p ↔ ∃ i, i < d.blocksPerArena ∧ slot d p i = b := by
  simp [slots]

@[simp] theorem length_slots : (slots d p).length = d.blocksPerArena := by simp [slots]

theorem slot_end_le (hi : i < d.blocksPerArena) : slot d p i + d.blockSize ≤ p * 4096 + 4096 := by
  have hmul : (i + 1) * d.blockSize ≤ d.blocksPerArena * d.blockSize := Nat.mul_le_mul_right _ hi
  have hfit := blocks_fit d
  rw [Nat.add_one_mul] at hmul
  unfold slot
  omega

theorem slot_div (hi : i < d.blocksPerArena) : slot d p i / 4096 = p := by
  have hend : slot d p i + d.blockSize ≤ p * 4096 + 4096 := slot_end_le hi
  have hpos := blockSize_pos d
  unfold slot at hend ⊢
  omega

theorem slot_mod (hi : i < d.blocksPerArena) : slot d p i % 4096 = 12 + i * d.blockSize := by
  have hend : slot d p i + d.blockSize ≤ p * 4096 + 4096 := slot_end_le hi
  have hpos := blockSize_pos d
  unfold slot at hend ⊢
  omega

theorem slot_add_le (hij : i < j) : slot d p i + d.blockSize ≤ slot d p j := by
  have hmul : (i + 1) * d.blockSize ≤ j * d.blockSize := Nat.mul_le_mul_right _ hij
  rw [Nat.add_one_mul] at hmul
  unfold slot
  omega

theorem slot_injective : Function.Injective (slot d p) := by
  have hpos := blockSize_pos d
  intro i j hij
  obtain hlt | heq | hgt := lt_trichotomy i j
  · have := slot_add_le (d := d) (p := p) hlt
    omega
  · exact heq
  · have := slot_add_le (d := d) (p := p) hgt
    omega

theorem nodup_slots : (slots d p).Nodup := nodup_range.map slot_injective

theorem div_of_mem_slots (hb : b ∈ slots d p) : b / 4096 = p := by
  obtain ⟨i, hi, rfl⟩ := mem_slots.mp hb
  exact slot_div hi

/-- A block of a small arena passes the checks of `block_to_arena`. -/
theorem blockToArena_of_mem_slots {c : ℕ} (hp : 0 < p) (ha : s.arenas p = some ⟨some d, c⟩)
    (hb : b ∈ slots d p) : blockToArena s b = .ok ⟨some d, c⟩ := by
  obtain ⟨i, hi, rfl⟩ := mem_slots.mp hb
  have hend : slot d p i + d.blockSize ≤ p * 4096 + 4096 := slot_end_le hi
  have hmod : slot d p i % 4096 = 12 + i * d.blockSize := slot_mod hi
  have haligned : (slot d p i % 4096 + 2 ^ 32 - 12) % 2 ^ 32 % d.blockSize = 0 := by
    have hsub : (slot d p i % 4096 + 2 ^ 32 - 12) % 2 ^ 32 = i * d.blockSize := by
      have hlt : slot d p i % 4096 < 4096 := Nat.mod_lt _ (by omega)
      omega
    rw [hsub, Nat.mul_mod_left]
  unfold blockToArena
  rw [slot_div hi, if_neg (by omega), ha]
  exact if_pos haligned

theorem arenaToBlock_eq {c : ℕ} (hp : 0 < p) (ha : s.arenas p = some ⟨some d, c⟩)
    (hi : i < d.blocksPerArena) : arenaToBlock s p i = .ok (slot d p i) := by
  unfold arenaToBlock
  rw [if_neg (by omega), ha]
  exact if_pos hi

/-- **The loop of a new arena.** All its blocks end up at the back of the free list, in order. -/
theorem newArena_eq (hp : 0 < p) :
    newArena s d p = .ok (((s.obtain p 1).setArena p ⟨some d, d.blocksPerArena⟩).setFree d
      (s.freeList d ++ slots d p)) := by
  -- The header stays as it is while the loop runs; the list grows by the blocks gone through.
  have hloop : ∀ (l : List ℕ) (s : Store), (∀ i ∈ l, i < d.blocksPerArena) →
      s.arenas p = some ⟨some d, d.blocksPerArena⟩ →
      l.foldlM (addBlock d p) s = .ok (s.setFree d (s.freeList d ++ l.map (slot d p))) := by
    intro l
    induction l with
    | nil =>
      intro s _ _
      simp [Store.setFree, pure, Except.pure]
    | cons i l ih =>
      intro s hl ha
      have hadd : addBlock d p s i = .ok (s.setFree d (s.freeList d ++ [slot d p i])) :=
        bind_of_eq_ok (arenaToBlock_eq hp ha (hl i (by simp))) _
      rw [foldlM_cons, bind_of_eq_ok hadd, ih (s.setFree d _) (fun j hj => hl j (by simp [hj])) ha]
      simp [Store.setFree]
  exact hloop (List.range d.blocksPerArena) _ (fun i hi => mem_range.mp hi)
    (update_self ..)

/-- **The loop of a dying arena.** If all its blocks are free, they all leave the free list. -/
theorem clearArena_eq {c : ℕ} (hp : 0 < p) (ha : s.arenas p = some ⟨some d, c⟩)
    (hfree : slots d p ⊆ s.freeList d) :
    clearArena s d p = .ok (s.setFree d ((s.freeList d).diff (slots d p))) := by
  have hloop : ∀ (l : List ℕ) (s : Store), l.Nodup → (∀ i ∈ l, i < d.blocksPerArena) →
      s.arenas p = some ⟨some d, c⟩ → l.map (slot d p) ⊆ s.freeList d →
      l.foldlM (dropBlock d p) s = .ok (s.setFree d ((s.freeList d).diff (l.map (slot d p)))) := by
    intro l
    induction l with
    | nil =>
      intro s _ _ _ _
      simp [Store.setFree, pure, Except.pure]
    | cons i l ih =>
      intro s hnodup hl ha hsub
      obtain ⟨hil, hnodup⟩ := nodup_cons.mp hnodup
      have hdrop : dropBlock d p s i = .ok (s.setFree d ((s.freeList d).erase (slot d p i))) := by
        rw [dropBlock, bind_of_eq_ok (arenaToBlock_eq hp ha (hl i (by simp)))]
        exact if_pos (hsub (by simp))
      -- The other blocks are still on the list, for they are other addresses.
      have hrest : l.map (slot d p) ⊆ (s.freeList d).erase (slot d p i) := by
        intro b hb
        obtain ⟨j, hj, rfl⟩ := mem_map.mp hb
        have hne : slot d p j ≠ slot d p i := fun h => hil (slot_injective h ▸ hj)
        exact (mem_erase_of_ne hne).mpr (hsub (mem_cons_of_mem _ hb))
      rw [foldlM_cons, bind_of_eq_ok hdrop, ih (s.setFree d _) hnodup
        (fun j hj => hl j (by simp [hj])) ha (by simpa [Store.setFree] using hrest)]
      simp [Store.setFree]
  exact hloop (List.range d.blocksPerArena) s nodup_range (fun i hi => mem_range.mp hi) ha
    hfree

end Pintos.Malloc
