import Pintos.Foundation.Ends
import Pintos.Foundation.Strands

/-!
# Linked lists

`lib/kernel/list.c`. A list has two header elements, the head before its first element and the tail behind
its last one. The functions work on pointers to elements; all that they change is the two links of an
element. An element is its address, and what it is embedded in plays no part, except for the comparison
`less`, which is given the elements.

An assertion that fails and a null pointer that is followed are errors. Loops have a fuel.

* `listInsert`, `listSplice`, `listRemove`, … — the functions;
* `Lists` — lists in memory, and what is in them;
* `listInsert_lists`, `listSplice_lists`, … — what the functions do to the lists.

Where a function takes a pointer to an element, the theorem about it says where the element is: the list
is `xs ++ ys`, and the pointer is to the first element of `ys`, or to the tail if there is none
(`LinkedList.front`).
-/

namespace Pintos

open Linked Total Function List

/-- What goes wrong: an assertion fails, a null pointer is followed, or a loop is cut off. -/
inductive ListFault where
  | assertion
  | nullPointer
  | fuel
  deriving DecidableEq, Repr

/-- `struct list`: where its two header elements are. -/
structure LinkedList (α : Type) where
  head : α
  tail : α

variable {α ι : Type}

/-! ### The functions -/

section Functions

variable [DecidableEq α]

/-- `ASSERT (condition)`. -/
def listAssert (condition : Bool) : Except ListFault Unit :=
  if condition then .ok () else .error .assertion

/-- The element that a pointer points to. -/
def deref : Option α → Except ListFault α
  | none => .error .nullPointer
  | some e => .ok e

/-- `is_head`. -/
def isHead (m : Links α) (elem : Option α) : Bool :=
  elem.any fun e => (m.prev e).isNone && (m.next e).isSome

/-- `is_interior`. -/
def isInterior (m : Links α) (elem : Option α) : Bool :=
  elem.any fun e => (m.prev e).isSome && (m.next e).isSome

/-- `is_tail`. -/
def isTail (m : Links α) (elem : Option α) : Bool :=
  elem.any fun e => (m.prev e).isSome && (m.next e).isNone

/-- `list_init`. -/
def listInit (m : Links α) (l : LinkedList α) : Links α :=
  (((m.setPrev l.head none).setNext l.head (some l.tail)).setPrev l.tail (some l.head)).setNext
    l.tail none

/-- `list_begin`. -/
def listBegin (m : Links α) (l : LinkedList α) : Option α := m.next l.head

/-- `list_next`. -/
def listNext (m : Links α) (elem : Option α) : Except ListFault (Option α) := do
  listAssert (isHead m elem || isInterior m elem)
  let e ← deref elem
  .ok (m.next e)

/-- `list_end`. -/
def listEnd (l : LinkedList α) : Option α := some l.tail

/-- `list_prev`. -/
def listPrev (m : Links α) (elem : Option α) : Except ListFault (Option α) := do
  listAssert (isInterior m elem || isTail m elem)
  let e ← deref elem
  .ok (m.prev e)

/-- `list_insert`. -/
def listInsert (m : Links α) (before elem : Option α) : Except ListFault (Links α) := do
  listAssert (isInterior m before || isTail m before)
  listAssert elem.isSome
  let e ← deref elem
  let b ← deref before
  let m := m.setPrev e (m.prev b)
  let m := m.setNext e before
  let p ← deref (m.prev b)
  let m := m.setNext p elem
  .ok (m.setPrev b elem)

/-- `list_splice`. -/
def listSplice (m : Links α) (before first last : Option α) : Except ListFault (Links α) := do
  listAssert (isInterior m before || isTail m before)
  if first = last then .ok m
  else do
    let last ← listPrev m last
    listAssert (isInterior m first)
    listAssert (isInterior m last)
    let f ← deref first
    let l ← deref last
    let b ← deref before
    -- Cleanly remove FIRST...LAST from its current list.
    let p ← deref (m.prev f)
    let m := m.setNext p (m.next l)
    let n ← deref (m.next l)
    let m := m.setPrev n (m.prev f)
    -- Splice FIRST...LAST into new list.
    let m := m.setPrev f (m.prev b)
    let m := m.setNext l before
    let p ← deref (m.prev b)
    let m := m.setNext p first
    .ok (m.setPrev b last)

/-- `list_push_front`. -/
def listPushFront (m : Links α) (l : LinkedList α) (elem : Option α) : Except ListFault (Links α) :=
  listInsert m (listBegin m l) elem

/-- `list_push_back`. -/
def listPushBack (m : Links α) (l : LinkedList α) (elem : Option α) : Except ListFault (Links α) :=
  listInsert m (listEnd l) elem

/-- `list_remove`. -/
def listRemove (m : Links α) (elem : Option α) : Except ListFault (Option α × Links α) := do
  listAssert (isInterior m elem)
  let e ← deref elem
  let p ← deref (m.prev e)
  let m := m.setNext p (m.next e)
  let n ← deref (m.next e)
  let m := m.setPrev n (m.prev e)
  .ok (m.next e, m)

/-- `list_empty`. -/
def listEmpty (m : Links α) (l : LinkedList α) : Bool := listBegin m l = listEnd l

/-- `list_front`. -/
def listFront (m : Links α) (l : LinkedList α) : Except ListFault (Option α) := do
  listAssert !listEmpty m l
  .ok (m.next l.head)

/-- `list_back`. -/
def listBack (m : Links α) (l : LinkedList α) : Except ListFault (Option α) := do
  listAssert !listEmpty m l
  .ok (m.prev l.tail)

/-- `list_pop_front`. -/
def listPopFront (m : Links α) (l : LinkedList α) : Except ListFault (Option α × Links α) := do
  let front ← listFront m l
  let (_, m) ← listRemove m front
  .ok (front, m)

/-- `list_pop_back`. -/
def listPopBack (m : Links α) (l : LinkedList α) : Except ListFault (Option α × Links α) := do
  let back ← listBack m l
  let (_, m) ← listRemove m back
  .ok (back, m)

/-- The loop of `list_reverse`: `swap (&e->prev, &e->next)` for each element. -/
def reverseLoop (l : LinkedList α) : ℕ → Links α → Option α → Except ListFault (Links α)
  | 0, _, _ => .error .fuel
  | fuel + 1, m, elem =>
    if elem = listEnd l then .ok m
    else do
      let e ← deref elem
      let m := m.turn e
      reverseLoop l fuel m (m.prev e)

/-- `list_reverse`. -/
def listReverse (fuel : ℕ) (m : Links α) (l : LinkedList α) : Except ListFault (Links α) :=
  if listEmpty m l then .ok m
  else do
    let m ← reverseLoop l fuel m (listBegin m l)
    let m := (m.setNext l.head (m.prev l.tail)).setPrev l.tail (m.next l.head)
    let f ← deref (m.next l.head)
    let b ← deref (m.prev l.tail)
    .ok ((m.setPrev f (m.next b)).setNext b (m.prev f))

/-- `less (a, b, aux)`. -/
def callLess (less : α → α → Bool) (a b : Option α) : Except ListFault Bool := do
  let a ← deref a
  let b ← deref b
  .ok (less a b)

/-- The loop of `list_unique`. -/
def uniqueLoop (l : LinkedList α) (duplicates : Option (LinkedList α)) (less : α → α → Bool) :
    ℕ → Links α → Option α → Except ListFault (Links α)
  | 0, _, _ => .error .fuel
  | fuel + 1, m, elem => do
    let next ← listNext m elem
    if next = listEnd l then .ok m
    else do
      let smaller ← callLess less elem next
      let larger ← callLess less next elem
      if !smaller && !larger then do
        let (_, m) ← listRemove m next
        let m ← duplicates.elim (.ok m) fun d => listPushBack m d next
        uniqueLoop l duplicates less fuel m elem
      else uniqueLoop l duplicates less fuel m next

/-- `list_unique`. -/
def listUnique (fuel : ℕ) (m : Links α) (l : LinkedList α) (duplicates : Option (LinkedList α))
    (less : α → α → Bool) : Except ListFault (Links α) :=
  if listEmpty m l then .ok m
  else uniqueLoop l duplicates less fuel m (listBegin m l)

end Functions

/-! ### Lists in memory -/

namespace LinkedList

variable (l : LinkedList α)

/-- All elements of the list, with its headers. -/
def nodes (xs : List α) : List α := l.head :: (xs ++ [l.tail])

/-- The first element of `xs`, or the tail of the list. -/
def front (xs : List α) : α := xs.headD l.tail

/-- The last element of `xs`, or the head of the list. -/
def back (xs : List α) : α := xs.getLastD l.head

/-- What is before the last element of `xs`. -/
def left (xs : List α) : List α := (l.head :: xs).dropLast

/-- What is behind the first element of `xs`. -/
def right (xs : List α) : List α := (xs ++ [l.tail]).tail

@[simp] theorem front_cons (x : α) (xs : List α) : l.front (x :: xs) = x := rfl

@[simp] theorem front_nil : l.front [] = l.tail := rfl

@[simp] theorem back_concat (xs : List α) (x : α) : l.back (xs ++ [x]) = x := getLastD_concat ..

theorem left_append_back (xs : List α) : l.left xs ++ [l.back xs] = l.head :: xs := by
  rcases eq_nil_or_concat xs with rfl | ⟨ys, y, rfl⟩
  · rfl
  · rw [concat_eq_append, back_concat, left, ← cons_append, dropLast_concat]

theorem front_cons_right (xs : List α) : l.front xs :: l.right xs = xs ++ [l.tail] := by
  cases xs with
  | nil => rfl
  | cons x xs => rfl

/-- **A list around a part of it.** -/
theorem nodes_append (xs mid ys : List α) :
    l.nodes (xs ++ (mid ++ ys)) = l.left xs ++ l.back xs :: (mid ++ l.front ys :: l.right ys) := by
  rw [front_cons_right, ← singleton_append (x := l.back xs), ← append_assoc (l.left xs),
    left_append_back, nodes]
  simp

end LinkedList

/-- **Lists in memory**: in list `i` there is `c i`, and no two lists have an element in common. -/
def Lists (m : Links α) (lists : ι → LinkedList α) (c : ι → List α) : Prop :=
  Strands m fun i => (lists i).nodes (c i)

/-- An element that is in no list. -/
def Unlisted (lists : ι → LinkedList α) (c : ι → List α) (e : α) : Prop :=
  ∀ i, e ∉ (lists i).nodes (c i)

section Pointers

variable {m : Links α} {e : α}

theorem deref_some (e : α) : deref (some e) = .ok e := rfl

theorem isInterior_or_isTail (h : (m.prev e).isSome) :
    (isInterior m (some e) || isTail m (some e)) = true := by
  unfold isInterior isTail
  rw [Option.any_some, Option.any_some, h]
  cases m.next e <;> rfl

theorem isHead_or_isInterior (h : (m.next e).isSome) :
    (isHead m (some e) || isInterior m (some e)) = true := by
  unfold isHead isInterior
  rw [Option.any_some, Option.any_some, h]
  cases m.prev e <;> rfl

theorem isInterior_of_isSome (hprev : (m.prev e).isSome) (hnext : (m.next e).isSome) :
    isInterior m (some e) = true := by
  unfold isInterior
  rw [Option.any_some, hprev, hnext]
  rfl

end Pointers

namespace Lists

variable {m : Links α} {lists : ι → LinkedList α} {c : ι → List α} {i : ι} {e x : α}
  {xs ys mid : List α}

/-- **Neighbours.** -/
theorem joined (h : Lists m lists c) (hi : c i = xs ++ ys) :
    m.Joined ((lists i).back xs) ((lists i).front ys) := by
  have hchain := (h.strand i).chain
  rw [hi] at hchain
  have hnodes := (lists i).nodes_append xs [] ys
  rw [nil_append, nil_append] at hnodes
  rw [hnodes] at hchain
  exact joined_of_chain hchain

/-- The two neighbours of an element. -/
theorem links (h : Lists m lists c) (hi : c i = xs ++ x :: ys) :
    m.prev x = some ((lists i).back xs) ∧ m.next x = some ((lists i).front ys) := by
  have hright := h.joined (show c i = (xs ++ [x]) ++ ys by rw [hi]; simp)
  rw [LinkedList.back_concat] at hright
  exact ⟨(h.joined hi).2, hright.1⟩

theorem isInterior (h : Lists m lists c) (hi : c i = xs ++ x :: ys) :
    Pintos.isInterior m (some x) = true := by
  obtain ⟨hprev, hnext⟩ := h.links hi
  exact isInterior_of_isSome (by rw [hprev]; rfl) (by rw [hnext]; rfl)

theorem listBegin (h : Lists m lists c) : Pintos.listBegin m (lists i) = some ((lists i).front (c i)) :=
  (h.joined (show c i = [] ++ c i from rfl)).1

/-- **`list_next`.** -/
theorem listNext (h : Lists m lists c) (hi : c i = xs ++ ys) :
    Pintos.listNext m (some ((lists i).back xs)) = .ok (some ((lists i).front ys)) := by
  have hnext := (h.joined hi).1
  unfold Pintos.listNext
  rw [isHead_or_isInterior (by rw [hnext]; rfl)]
  exact congrArg _ hnext

theorem listNext_elem (h : Lists m lists c) (hi : c i = xs ++ x :: ys) :
    Pintos.listNext m (some x) = .ok (some ((lists i).front ys)) := by
  have hnext := h.listNext (show c i = (xs ++ [x]) ++ ys by rw [hi]; simp)
  rwa [LinkedList.back_concat] at hnext

/-- **`list_prev`.** -/
theorem listPrev (h : Lists m lists c) (hi : c i = xs ++ ys) :
    Pintos.listPrev m (some ((lists i).front ys)) = .ok (some ((lists i).back xs)) := by
  have hprev := (h.joined hi).2
  unfold Pintos.listPrev
  rw [isInterior_or_isTail (by rw [hprev]; rfl)]
  exact congrArg _ hprev

/-- An element, or the tail, has one before it. -/
theorem prev_isSome (h : Lists m lists c) (hx : x ∈ c i ++ [(lists i).tail]) : (m.prev x).isSome := by
  rcases mem_append.mp hx with hx | hx
  · obtain ⟨xs, ys, hi⟩ := append_of_mem hx
    rw [(h.links hi).1]
    rfl
  · obtain rfl := mem_singleton.mp hx
    have hlast := (h.joined (i := i) (append_nil (c i)).symm).2
    rw [LinkedList.front_nil] at hlast
    rw [hlast]
    rfl

/-- The elements of a list are different, and none of them is a header. -/
theorem nodup (h : Lists m lists c) (i : ι) :
    (c i).Nodup ∧ ∀ x ∈ c i, x ≠ (lists i).head ∧ x ≠ (lists i).tail := by
  obtain ⟨hhead, hrest⟩ := nodup_cons.mp (h.strand i).nodup
  refine ⟨hrest.of_append_left, fun x hx => ⟨?_, ?_⟩⟩
  · rintro rfl
    exact hhead (mem_append_left _ hx)
  · rintro rfl
    exact disjoint_of_nodup_append hrest hx mem_cons_self

/-- A pointer to an element is not the end of the list. -/
theorem ne_end [DecidableEq α] (h : Lists m lists c) (hi : c i = xs ++ x :: ys) :
    some x ≠ listEnd (lists i) :=
  fun heq => ((h.nodup i).2 x (by rw [hi]; simp)).2 (Option.some.inj heq)

end Lists

theorem LinkedList.front_mem (l : LinkedList α) (xs : List α) : l.front xs ∈ xs ++ [l.tail] := by
  rw [← l.front_cons_right]
  exact mem_cons_self

theorem LinkedList.back_mem (l : LinkedList α) (xs : List α) : l.back xs ∈ l.head :: xs := by
  rw [← l.left_append_back]
  exact mem_append_right _ mem_cons_self

theorem LinkedList.mem_nodes {l : LinkedList α} {xs : List α} {x : α} :
    x ∈ l.nodes xs ↔ x = l.head ∨ x ∈ xs ∨ x = l.tail := by
  simp [LinkedList.nodes]

theorem LinkedList.front_mem_nodes (l : LinkedList α) (xs ys : List α) :
    l.front ys ∈ l.nodes (xs ++ ys) := by
  have hmem := l.front_mem ys
  simp only [mem_nodes, mem_append, mem_singleton] at hmem ⊢
  tauto

theorem LinkedList.back_mem_nodes (l : LinkedList α) (xs ys : List α) :
    l.back xs ∈ l.nodes (xs ++ ys) := by
  have hmem := l.back_mem xs
  simp only [mem_nodes, mem_append, mem_cons] at hmem ⊢
  tauto

/-- An element that is in no list is no neighbour of a place in one. -/
theorem Unlisted.ne {lists : ι → LinkedList α} {c : ι → List α} {e : α} (h : Unlisted lists c e) {i : ι}
    {xs ys : List α} (hi : c i = xs ++ ys) : (lists i).back xs ≠ e ∧ (lists i).front ys ≠ e := by
  have hnot := h i
  rw [hi] at hnot
  exact ⟨fun heq => hnot (heq ▸ (lists i).back_mem_nodes xs ys),
    fun heq => hnot (heq ▸ (lists i).front_mem_nodes xs ys)⟩

theorem nodes_update [DecidableEq ι] (lists : ι → LinkedList α) (c : ι → List α) (i : ι) (xs : List α) :
    (fun j => (lists j).nodes (update c i xs j)) =
      update (fun j => (lists j).nodes (c j)) i ((lists i).nodes xs) :=
  funext fun j => Function.apply_update (fun j => (lists j).nodes) c i xs j

/-! ### What the functions do -/

section Surgery

variable [DecidableEq α] [DecidableEq ι] {m : Links α} {lists : ι → LinkedList α} {c : ι → List α}
  {i j : ι} {e x : α} {xs ys us vs mid : List α}

/-- **A part of a list is taken out.** It stays a chain, outside of all lists. -/
theorem Lists.cut (h : Lists m lists c) (hi : c i = xs ++ (mid ++ ys)) :
    Lists (m.join ((lists i).back xs) ((lists i).front ys)) lists (update c i (xs ++ ys)) ∧
      mid.IsChain (m.join ((lists i).back xs) ((lists i).front ys)).Joined ∧ mid.Nodup ∧
      ∀ x ∈ mid, Unlisted lists (update c i (xs ++ ys)) x := by
  have hnodes := (lists i).nodes_append xs [] ys
  rw [nil_append, nil_append] at hnodes
  obtain ⟨hcut, hmid, hnodup, hfree⟩ := Strands.cut h (i := i)
    (by rw [hi]; exact (lists i).nodes_append xs mid ys)
  rw [← hnodes, ← nodes_update] at hcut hfree
  exact ⟨hcut, hmid, hnodup, fun x hx j => hfree j hx⟩

/-- **A chain that is in no list is put into a list.** -/
theorem Lists.paste (h : Lists m lists c) (hi : c i = xs ++ ys) (hmid : mid.IsChain m.Joined)
    {f l : α} (hf : mid.head? = some f) (hl : mid.getLast? = some l) (hnodup : mid.Nodup)
    (hfree : ∀ x ∈ mid, Unlisted lists c x) :
    Lists ((m.join ((lists i).back xs) f).join l ((lists i).front ys)) lists
      (update c i (xs ++ (mid ++ ys))) := by
  have hnodes := (lists i).nodes_append xs [] ys
  rw [nil_append, nil_append] at hnodes
  unfold Lists
  rw [nodes_update, (lists i).nodes_append]
  exact Strands.paste h (by rw [hi]; exact hnodes) hmid hf hl hnodup
    fun j x hx => hfree x hx j

/-- **`list_insert`.** -/
theorem listInsert_lists (h : Lists m lists c) (hi : c i = xs ++ ys) (he : Unlisted lists c e) :
    Ends (listInsert m (some ((lists i).front ys)) (some e)) fun m' =>
      Lists m' lists (update c i (xs ++ e :: ys)) := by
  have hprev := (h.joined hi).2
  obtain ⟨hback, hfront⟩ := he.ne hi
  refine ⟨(m.join ((lists i).back xs) e).join e ((lists i).front ys), ?_,
    h.paste hi (.singleton e) rfl rfl (nodup_singleton e) ?_⟩
  · unfold listInsert
    rw [isInterior_or_isTail (by rw [hprev]; rfl)]
    simp only [listAssert, deref, bind, Except.bind, Option.isSome_some, if_true, hprev,
      Links.setNext_prev, Links.setPrev_prev, update_of_ne hfront]
    congr 1
    ext1
    · rfl
    · exact (update_comm hback _ _ _).symm
  · intro x hx
    rwa [mem_singleton.mp hx]

/-- **`list_push_front`.** -/
theorem listPushFront_lists (h : Lists m lists c) (he : Unlisted lists c e) :
    Ends (listPushFront m (lists i) (some e)) fun m' =>
      Lists m' lists (update c i (e :: c i)) := by
  unfold listPushFront
  rw [h.listBegin]
  exact listInsert_lists h (show c i = [] ++ c i from rfl) he

/-- **`list_push_back`.** -/
theorem listPushBack_lists (h : Lists m lists c) (he : Unlisted lists c e) :
    Ends (listPushBack m (lists i) (some e)) fun m' =>
      Lists m' lists (update c i (c i ++ [e])) :=
  listInsert_lists h (append_nil _).symm he

/-- **`list_remove`.** -/
theorem listRemove_lists (h : Lists m lists c) (hi : c i = xs ++ x :: ys) :
    Ends (listRemove m (some x)) fun r => r.1 = some ((lists i).front ys) ∧
      Lists r.2 lists (update c i (xs ++ ys)) ∧
      Unlisted lists (update c i (xs ++ ys)) x := by
  obtain ⟨hprev, hnext⟩ := h.links hi
  obtain ⟨hcut, -, -, hfree⟩ := h.cut (show c i = xs ++ ([x] ++ ys) from hi)
  have hx := hfree x mem_cons_self
  obtain ⟨hback, hfront⟩ := hx.ne (update_self i (xs ++ ys) c)
  refine ⟨(_, _), ?_, rfl, hcut, hx⟩
  unfold listRemove
  rw [h.isInterior hi]
  simp only [listAssert, deref, bind, Except.bind, if_true, hprev, hnext, Links.setNext_prev,
    Links.setPrev_next, Links.setNext_next, update_of_ne hback.symm]
  rfl

omit [DecidableEq ι] in
theorem listEmpty_eq (h : Lists m lists c) : listEmpty m (lists i) = (c i).isEmpty := by
  unfold listEmpty listEnd
  rw [h.listBegin]
  cases hc : c i with
  | nil => simp
  | cons x xs => exact decide_eq_false (h.ne_end (show c i = [] ++ x :: xs from hc))

/-- **`list_pop_front`.** -/
theorem listPopFront_lists (h : Lists m lists c) (hi : c i = x :: xs) :
    Ends (listPopFront m (lists i)) fun r => r.1 = some x ∧
      Lists r.2 lists (update c i xs) ∧ Unlisted lists (update c i xs) x := by
  have hfront : listFront m (lists i) = .ok (some x) := by
    unfold listFront
    rw [listEmpty_eq h, hi]
    have hbegin := h.listBegin (i := i)
    rw [hi] at hbegin
    exact congrArg _ hbegin
  refine .step hfront (.bind (listRemove_lists h (show c i = [] ++ x :: xs from hi)) fun r hr => ?_)
  exact .ok ⟨rfl, hr.2⟩

/-- **`list_pop_back`.** -/
theorem listPopBack_lists (h : Lists m lists c) (hi : c i = xs ++ [x]) :
    Ends (listPopBack m (lists i)) fun r => r.1 = some x ∧
      Lists r.2 lists (update c i xs) ∧ Unlisted lists (update c i xs) x := by
  have hback : listBack m (lists i) = .ok (some x) := by
    unfold listBack
    rw [listEmpty_eq h, hi]
    have hlast := (h.joined (i := i) (append_nil (c i)).symm).2
    rw [hi, LinkedList.back_concat, LinkedList.front_nil] at hlast
    rw [hlast]
    cases xs <;> rfl
  refine .step hback (.bind (listRemove_lists h hi) fun r hr => ?_)
  rw [append_nil] at hr
  exact .ok ⟨rfl, hr.2⟩

omit [DecidableEq ι] in
/-- `list_splice` joins three pairs of elements: the neighbours of the part, and each end of the part and
an element at the place. -/
theorem listSplice_eq {f l b p n q : α} (hb : (m.prev b).isSome) (hfprev : m.prev f = some p)
    (hfnext : (m.next f).isSome) (hlprev : (m.prev l).isSome) (hlnext : m.next l = some n)
    (hn : m.prev n = some l) (hfn : f ≠ n) (hpl : p ≠ l) (hq : (m.join p n).prev b = some q)
    (hbf : b ≠ f) (hql : q ≠ l) :
    listSplice m (some b) (some f) (some n) = .ok (((m.join p n).join q f).join l b) := by
  have hlast : listPrev m (some n) = .ok (some l) := by
    unfold listPrev
    rw [isInterior_or_isTail (by rw [hn]; rfl)]
    exact congrArg _ hn
  have hout : (m.setNext p (some n)).setPrev n (some p) = m.join p n := rfl
  unfold listSplice
  rw [isInterior_or_isTail hb, hlast]
  simp only [listAssert, deref, bind, Except.bind, if_true, Option.some.injEq, hfn, if_false,
    isInterior_of_isSome (m := m) (e := f) (by rw [hfprev]; rfl) hfnext,
    isInterior_of_isSome (m := m) (e := l) hlprev (by rw [hlnext]; rfl), hfprev, hlnext,
    Links.setNext_next, Links.setNext_prev, update_of_ne hpl.symm, hout, hq,
    Links.setPrev_prev, update_of_ne hbf]
  congr 1
  ext1
  · rfl
  · exact (update_comm hql _ _ _).symm

/-- **`list_splice`.** The part `mid` of list `i` is taken out, and put into list `j`, which may be the
same: `us` and `vs` are what is before and behind the place when the part is out. -/
theorem listSplice_lists (h : Lists m lists c) (hi : c i = xs ++ (mid ++ ys))
    (hj : update c i (xs ++ ys) j = us ++ vs) :
    Ends (listSplice m (some ((lists j).front vs)) (some ((lists i).front (mid ++ ys)))
        (some ((lists i).front ys))) fun m' =>
      Lists m' lists (update (update c i (xs ++ ys)) j (us ++ (mid ++ vs))) := by
  -- the place is one of a list also before the part is taken out
  have hplace : (m.prev ((lists j).front vs)).isSome := by
    refine h.prev_isSome (i := j) ?_
    have hmem := (lists j).front_mem vs
    by_cases hij : j = i
    · subst hij
      rw [update_self] at hj
      have hsub : vs ⊆ xs ++ ys := hj ▸ subset_append_right us vs
      rw [hi]
      rcases mem_append.mp hmem with hmem | hmem
      · rcases mem_append.mp (hsub hmem) with hmem | hmem <;> simp [hmem]
      · simp [mem_singleton.mp hmem]
    · rw [update_of_ne hij] at hj
      rw [hj, append_assoc]
      exact mem_append_right _ hmem
  cases mid with
  | nil =>
    have hsame : update c i (xs ++ ys) = c := by
      rw [← nil_append ys, ← hi, update_eq_self]
    rw [hsame] at hj ⊢
    rw [nil_append, nil_append, ← hj, update_eq_self]
    refine ⟨m, ?_, h⟩
    unfold listSplice
    rw [isInterior_or_isTail hplace]
    exact if_pos rfl
  | cons f t =>
    obtain ⟨init, l, hmid⟩ : ∃ init l, f :: t = init ++ [l] :=
      ⟨_, _, (dropLast_append_getLast (cons_ne_nil f t)).symm⟩
    obtain ⟨hcut, hchain, hnodup, hfree⟩ := h.cut hi
    have hself := update_self i (xs ++ ys) c
    have hf := hfree f mem_cons_self
    have hl := hfree l (hmid ▸ by simp)
    have hfirst := h.links (show c i = xs ++ f :: (t ++ ys) from hi)
    have hlast := h.links (show c i = (xs ++ init) ++ l :: ys by rw [hi, hmid]; simp)
    have hend := (h.joined (show c i = (xs ++ (init ++ [l])) ++ ys by rw [hi, hmid]; simp)).2
    rw [← append_assoc, LinkedList.back_concat] at hend
    rw [cons_append, LinkedList.front_cons]
    refine ⟨_, listSplice_eq hplace hfirst.1 (by rw [hfirst.2]; rfl) (by rw [hlast.1]; rfl) hlast.2
      hend (hf.ne hself).2.symm (hl.ne hself).1 (hcut.joined hj).2 (hf.ne hj).2 (hl.ne hj).1, ?_⟩
    exact hcut.paste hj hchain rfl (by rw [hmid, List.getLast?_concat]) hnodup hfree

omit [DecidableEq ι] in
/-- The loop of `list_reverse` exchanges the links of each element. -/
theorem reverseLoop_turned (h : Lists m lists c) {m' : Links α} {fuel : ℕ} (hi : c i = xs ++ ys)
    (hturned : m.Turned m' xs) (hfuel : ys.length < fuel) :
    Ends (reverseLoop (lists i) fuel m' (some ((lists i).front ys))) (m.Turned · (c i)) := by
  induction ys generalizing xs m' fuel with
  | nil =>
    obtain ⟨fuel, rfl⟩ := Nat.exists_eq_add_one.mpr hfuel
    rw [hi, append_nil]
    exact ⟨m', if_pos rfl, hturned⟩
  | cons x ys ih =>
    obtain ⟨fuel, rfl⟩ := Nat.exists_eq_add_one.mpr (Nat.zero_lt_of_lt hfuel)
    have hmem : x ∉ xs := by
      have hnodup := (h.nodup i).1
      rw [hi] at hnodup
      exact fun hx => disjoint_of_nodup_append hnodup hx mem_cons_self
    have hnext := hturned.turn hmem
    have hlink : (m'.turn x).prev x = some ((lists i).front ys) :=
      (hnext.inside x (by simp)).1.trans (h.links hi).2
    rw [LinkedList.front_cons, reverseLoop, if_neg (h.ne_end hi)]
    refine .step (deref_some x) ?_
    dsimp only
    rw [hlink]
    exact ih (by rw [hi]; simp) hnext (Nat.lt_of_succ_lt_succ hfuel)

/-- **`list_reverse`.** -/
theorem listReverse_lists (h : Lists m lists c) {fuel : ℕ} (hfuel : (c i).length < fuel) :
    Ends (listReverse fuel m (lists i)) fun m' =>
      Lists m' lists (update c i (c i).reverse) := by
  unfold listReverse
  rw [listEmpty_eq h]
  by_cases hnil : c i = []
  · rw [hnil, reverse_nil, ← hnil, update_eq_self, if_pos (by rw [hnil]; rfl)]
    exact .ok h
  · obtain ⟨f, t, hf⟩ := exists_cons_of_ne_nil hnil
    obtain ⟨init, l, hl⟩ : ∃ init l, c i = init ++ [l] :=
      ⟨_, _, (dropLast_append_getLast hnil).symm⟩
    have hstart : m.Turned m [] := ⟨fun x hx => absurd hx not_mem_nil, fun x _ => ⟨rfl, rfl⟩⟩
    rw [if_neg (by simpa using hnil), h.listBegin]
    refine .bind (reverseLoop_turned h (show c i = [] ++ c i from rfl) hstart hfuel) fun m' hturned => ?_
    have hfmem : f ∈ c i := hf ▸ mem_cons_self
    have hlmem : l ∈ c i := hl ▸ by simp
    have hne := (h.nodup i).2
    -- the links of the headers, of the first element and of the last one after the loop
    have hhead : m'.next (lists i).head = some f := by
      rw [(hturned.outside _ fun hmem => (hne _ hmem).1 rfl).2]
      exact h.listBegin.trans (by rw [hf]; rfl)
    have htail : m'.prev (lists i).tail = some l := by
      rw [(hturned.outside _ fun hmem => (hne _ hmem).2 rfl).1]
      exact (h.joined (show c i = c i ++ [] by simp)).2.trans
        (by rw [hl, LinkedList.back_concat])
    have hfirst : m'.next f = some (lists i).head :=
      (hturned.inside f hfmem).2.trans (h.links (show c i = [] ++ f :: t from hf)).1
    have hlast : m'.prev l = some (lists i).tail := (hturned.inside l hlmem).1.trans (h.links hl).2
    refine ⟨(m'.join (lists i).head l).join f (lists i).tail, ?_, ?_⟩
    · simp only [deref, bind, Except.bind, hhead, htail, hfirst, hlast, Links.setPrev_next,
        Links.setPrev_prev, Links.setNext_next, Links.setNext_prev, update_self,
        update_of_ne (hne f hfmem).1, update_of_ne (hne l hlmem).2]
      congr 1
      ext1
      · exact update_comm (hne l hlmem).2.symm _ _ _
      · rfl
    · unfold Lists
      rw [nodes_update]
      exact Strands.turn h rfl hturned (by rw [hf]; rfl) (by rw [hl, List.getLast?_concat])

end Surgery

end Pintos
