import Pintos.Foundation.MergeRuns
import Pintos.Lib.LinkedList

/-!
# Lists as sequences

What the functions of `lib/kernel/list.c` do to lists in memory, as calls (`ListCall`): each does to the
contents of the lists what its name says (`ListCall.Does`), and leaves all of them well-formed.

* `runs`, `listUnique_lists` — the runs of equivalent elements, of which `list_unique` keeps the first;
* `Lists.forward`, `Lists.backward` — the elements in the one and in the other direction;
* `list_calls_refine` — the calls.
-/

namespace Pintos

open Linked Total MergeRuns Function List

variable {α ι : Type}

/-! ### Runs of equivalent elements -/

/-- **The runs of a list**: an element, and those behind it that are equivalent to it. -/
def runs (less : α → α → Bool) : List α → List (α × List α)
  | [] => []
  | x :: xs => (x, xs.takeWhile (equivalent less x)) :: runs less (xs.dropWhile (equivalent less x))
termination_by xs => xs.length
decreasing_by exact Nat.lt_succ_of_le (dropWhile_sublist _).length_le

/-- The first elements of the runs. -/
def keptOf (less : α → α → Bool) (xs : List α) : List α := (runs less xs).map Prod.fst

/-- The others. -/
def repeatsOf (less : α → α → Bool) (xs : List α) : List α := (runs less xs).flatMap Prod.snd

section Runs

variable {less : α → α → Bool} {e x : α}

theorem runs_singleton : runs less [e] = [(e, [])] := by
  rw [runs]
  simp [runs]

theorem kept_repeat (h : equivalent less e x = true) (xs : List α) :
    keptOf less (e :: x :: xs) = keptOf less (e :: xs) ∧
      repeatsOf less (e :: x :: xs) = x :: repeatsOf less (e :: xs) := by
  unfold keptOf repeatsOf
  rw [runs, runs, takeWhile_cons_of_pos h, dropWhile_cons_of_pos h]
  exact ⟨rfl, rfl⟩

theorem kept_other (h : equivalent less e x = false) (xs : List α) :
    keptOf less (e :: x :: xs) = e :: keptOf less (x :: xs) ∧
      repeatsOf less (e :: x :: xs) = repeatsOf less (x :: xs) := by
  have hnot : ¬equivalent less e x = true := by simp [h]
  unfold keptOf repeatsOf
  rw [runs, takeWhile_cons_of_neg hnot, dropWhile_cons_of_neg hnot]
  exact ⟨rfl, rfl⟩

end Runs

section Unique

variable [DecidableEq α] [DecidableEq ι] {m : Links α} {lists : ι → LinkedList α} {c : ι → List α}
  {i : ι} {duplicates : Option ι} {less : α → α → Bool} {e x : α} {xs ys : List α}

/-- In list `i` there is `kept`, and `repeats` is appended to the list of duplicates, if there is one. -/
def divide (c : ι → List α) (i : ι) (duplicates : Option ι) (kept repeats : List α) : ι → List α :=
  duplicates.elim (update c i kept) fun j =>
    update (update c i kept) j (c j ++ repeats)

omit [DecidableEq α] in
/-- One repeated element more. -/
theorem divide_divide (hd : ∀ j ∈ duplicates, j ≠ i) (kept kept' : List α) (repeats : List α) :
    divide (divide c i duplicates kept [x]) i duplicates kept' repeats =
      divide c i duplicates kept' (x :: repeats) := by
  cases duplicates with
  | none => exact update_idem ..
  | some j =>
    have hj := hd j rfl
    funext k
    simp only [divide, Option.elim_some, update_apply]
    split_ifs <;> simp_all

/-- A repeated element is appended to the duplicates. -/
theorem pushRepeat (h : Lists m lists (update c i xs))
    (hx : Unlisted lists (update c i xs) x) (hd : ∀ j ∈ duplicates, j ≠ i) :
    Ends ((duplicates.map lists).elim (.ok m) fun d => listPushBack m d (some x)) fun m' =>
      Lists m' lists (divide c i duplicates xs [x]) := by
  cases duplicates with
  | none => exact .ok h
  | some j =>
    refine (listPushBack_lists (i := j) h hx).mono fun m' hm' => ?_
    rwa [update_of_ne (hd j rfl)] at hm'

/-- **The loop of `list_unique`**, from element `e` on. -/
theorem uniqueLoop_lists (h : Lists m lists c) (hi : c i = xs ++ e :: ys)
    (hd : ∀ j ∈ duplicates, j ≠ i) {fuel : ℕ} (hfuel : ys.length < fuel) :
    Ends (uniqueLoop (lists i) (duplicates.map lists) less fuel m (some e)) fun m' =>
      Lists m' lists
        (divide c i duplicates (xs ++ keptOf less (e :: ys)) (repeatsOf less (e :: ys))) := by
  induction ys generalizing xs e c m fuel with
  | nil =>
    obtain ⟨fuel, rfl⟩ := Nat.exists_eq_add_one.mpr hfuel
    refine .step (h.listNext_elem hi) ?_
    have hsame : divide c i duplicates (xs ++ keptOf less [e]) (repeatsOf less [e]) = c := by
      unfold keptOf repeatsOf divide
      rw [runs_singleton, map_singleton, ← hi]
      cases duplicates <;> simp
    rw [hsame]
    exact ⟨m, if_pos rfl, h⟩
  | cons x ys ih =>
    obtain ⟨fuel, rfl⟩ := Nat.exists_eq_add_one.mpr (Nat.zero_lt_of_lt hfuel)
    have hfuel' := Nat.lt_of_succ_lt_succ hfuel
    have hi' : c i = (xs ++ [e]) ++ x :: ys := by rw [hi]; simp
    refine .step (h.listNext_elem hi) ?_
    rw [LinkedList.front_cons, if_neg (h.ne_end hi')]
    refine .step (a := less e x) rfl (.step (a := less x e) rfl ?_)
    by_cases heq : equivalent less e x = true
    · -- the element is one more of the run of `e`
      obtain ⟨hkept, hrepeats⟩ := kept_repeat heq ys
      rw [if_pos (show (!less e x && !less x e) = true from heq), hkept, hrepeats]
      refine .bind (listRemove_lists h hi') fun r hr => ?_
      refine .bind (pushRepeat hr.2.1 hr.2.2 hd) fun m' hm' => ?_
      have hnow : divide c i duplicates (xs ++ [e] ++ ys) [x] i = xs ++ e :: ys := by
        unfold divide
        cases duplicates with
        | none => simp
        | some j => simp [update_of_ne (hd j rfl).symm]
      have hrest := ih hm' hnow hfuel'
      rwa [divide_divide hd] at hrest
    · -- a run begins
      obtain ⟨hkept, hrepeats⟩ := kept_other (Bool.eq_false_iff.mpr heq) ys
      rw [if_neg (show ¬(!less e x && !less x e) = true from heq), hkept, hrepeats]
      have hrest := ih h hi' hfuel'
      rwa [append_assoc] at hrest

/-- **`list_unique`.** -/
theorem listUnique_lists (h : Lists m lists c) (hd : ∀ j ∈ duplicates, j ≠ i) {fuel : ℕ}
    (hfuel : (c i).length < fuel) :
    Ends (listUnique fuel m (lists i) (duplicates.map lists) less) fun m' =>
      Lists m' lists (divide c i duplicates (keptOf less (c i)) (repeatsOf less (c i))) := by
  unfold listUnique
  rw [listEmpty_eq h]
  cases hc : c i with
  | nil =>
    have hsame : divide c i duplicates (keptOf less []) (repeatsOf less []) = c := by
      unfold keptOf repeatsOf divide
      rw [runs, map_nil, ← hc]
      cases duplicates <;> simp
    rw [hsame]
    exact .ok h
  | cons e ys =>
    rw [hc] at hfuel
    rw [h.listBegin, hc]
    exact uniqueLoop_lists h (show c i = [] ++ e :: ys from hc) hd (Nat.lt_of_succ_lt hfuel)

end Unique

/-! ### The elements in order -/

section Walk

variable [DecidableEq α]

/-- The elements that are met on the way from a pointer to the element `stop`, if it is reached. -/
def walk (link : α → Option α) (stop : α) : ℕ → Option α → Option (List α)
  | 0, _ => none
  | _ + 1, none => none
  | fuel + 1, some e => if e = stop then some [] else (walk link stop fuel (link e)).map (e :: ·)

variable {link : α → Option α} {stop : α}

/-- **A walk along a chain.** -/
theorem walk_chain {xs : List α} {start : Option α} {fuel : ℕ} (hstart : start = some (xs.headD stop))
    (hchain : (xs ++ [stop]).IsChain fun a b => link a = some b) (hstop : stop ∉ xs)
    (hfuel : xs.length < fuel) : walk link stop fuel start = some xs := by
  induction xs generalizing start fuel with
  | nil =>
    obtain ⟨fuel, rfl⟩ := Nat.exists_eq_add_one.mpr hfuel
    rw [hstart]
    exact if_pos rfl
  | cons x xs ih =>
    obtain ⟨fuel, rfl⟩ := Nat.exists_eq_add_one.mpr (Nat.zero_lt_of_lt hfuel)
    obtain ⟨hx, hxs⟩ := ne_and_not_mem_of_not_mem_cons hstop
    have hlink : link x = some (xs.headD stop) := by
      cases xs with
      | nil => exact (isChain_cons_cons.mp hchain).1
      | cons y ys => exact (isChain_cons_cons.mp hchain).1
    rw [hstart, headD_cons, walk, if_neg hx.symm,
      ih hlink hchain.tail hxs (Nat.lt_of_succ_lt_succ hfuel)]
    rfl

variable {m : Links α} {lists : ι → LinkedList α} {c : ι → List α}

/-- **Forward**, from the head to the tail. -/
theorem Lists.forward (h : Lists m lists c) (i : ι) {fuel : ℕ} (hfuel : (c i).length < fuel) :
    walk m.next (lists i).tail fuel (m.next (lists i).head) = some (c i) := by
  refine walk_chain h.listBegin ?_ (fun hmem => ((h.nodup i).2 _ hmem).2 rfl) hfuel
  exact ((h.strand i).chain.imp fun a b hab => hab.1).tail

/-- **Backward**, from the tail to the head. -/
theorem Lists.backward (h : Lists m lists c) (i : ι) {fuel : ℕ} (hfuel : (c i).length < fuel) :
    walk m.prev (lists i).head fuel (m.prev (lists i).tail) = some (c i).reverse := by
  have hstart := (h.joined (i := i) (append_nil _).symm).2
  have hchain := isChain_reverse.mpr ((h.strand i).chain.imp fun a b hab => hab.2)
  refine walk_chain (hstart.trans ?_) ?_ (fun hmem => ((h.nodup i).2 _ (mem_reverse.mp hmem)).1 rfl)
    (by rwa [length_reverse])
  · rw [LinkedList.back, getLastD_eq_getLast?, headD_eq_head?_getD, List.head?_reverse]
  · rw [LinkedList.nodes, ← cons_append, reverse_append] at hchain
    simpa using hchain.tail

end Walk

/-! ### Calls -/

/-- A call of a function of `list.c` that changes lists. -/
inductive ListCall (α ι : Type) where
  | insert (before elem : α)
  | remove (elem : α)
  | pushFront (list : ι) (elem : α)
  | pushBack (list : ι) (elem : α)
  | popFront (list : ι)
  | popBack (list : ι)
  | splice (before first last : α)
  | reverse (list : ι)
  | unique (list : ι) (duplicates : Option ι)

section Calls

variable [DecidableEq α]

/-- The element that the call returns, if it returns one, and the links afterwards. -/
def ListCall.run (lists : ι → LinkedList α) (less : α → α → Bool) (fuel : ℕ) (m : Links α) :
    ListCall α ι → Except ListFault (Option α × Links α)
  | .insert before elem => (listInsert m (some before) (some elem)).map (none, ·)
  | .remove elem => listRemove m (some elem)
  | .pushFront i elem => (listPushFront m (lists i) (some elem)).map (none, ·)
  | .pushBack i elem => (listPushBack m (lists i) (some elem)).map (none, ·)
  | .popFront i => listPopFront m (lists i)
  | .popBack i => listPopBack m (lists i)
  | .splice before first last =>
    (listSplice m (some before) (some first) (some last)).map (none, ·)
  | .reverse i => (listReverse fuel m (lists i)).map (none, ·)
  | .unique i duplicates =>
    (listUnique fuel m (lists i) (duplicates.map lists) less).map (none, ·)

/-- **What a call does to sequences**: the sequences before, the element that is returned, and the
sequences afterwards.

A pointer before which something is put is to the first element of a part of a list, or to the tail. The
range of `splice` is the part `mid` of list `i`; it is put before an element that is not in it. -/
inductive ListCall.Does [DecidableEq ι] (lists : ι → LinkedList α) (less : α → α → Bool) :
    ListCall α ι → (ι → List α) → Option α → (ι → List α) → Prop
  | insert {c : ι → List α} {i : ι} {xs ys : List α} {e : α} (list : c i = xs ++ ys)
      (unlisted : Unlisted lists c e) :
      Does lists less (.insert ((lists i).front ys) e) c none (update c i (xs ++ e :: ys))
  | remove {c : ι → List α} {i : ι} {xs ys : List α} {x : α} (list : c i = xs ++ x :: ys) :
      Does lists less (.remove x) c (some ((lists i).front ys)) (update c i (xs ++ ys))
  | pushFront {c : ι → List α} {i : ι} {e : α} (unlisted : Unlisted lists c e) :
      Does lists less (.pushFront i e) c none (update c i (e :: c i))
  | pushBack {c : ι → List α} {i : ι} {e : α} (unlisted : Unlisted lists c e) :
      Does lists less (.pushBack i e) c none (update c i (c i ++ [e]))
  | popFront {c : ι → List α} {i : ι} {x : α} {xs : List α} (list : c i = x :: xs) :
      Does lists less (.popFront i) c (some x) (update c i xs)
  | popBack {c : ι → List α} {i : ι} {x : α} {xs : List α} (list : c i = xs ++ [x]) :
      Does lists less (.popBack i) c (some x) (update c i xs)
  | splice {c c₁ : ι → List α} {i j : ι} {xs mid ys us vs : List α}
      (source : c i = xs ++ (mid ++ ys)) (out : c₁ = update c i (xs ++ ys))
      (target : c₁ j = us ++ vs) :
      Does lists less
        (.splice ((lists j).front vs) ((lists i).front (mid ++ ys)) ((lists i).front ys)) c none
        (update c₁ j (us ++ (mid ++ vs)))
  | reverse {c : ι → List α} {i : ι} :
      Does lists less (.reverse i) c none (update c i (c i).reverse)
  | unique {c : ι → List α} {i : ι} {duplicates : Option ι} (other : ∀ j ∈ duplicates, j ≠ i) :
      Does lists less (.unique i duplicates) c none
        (divide c i duplicates (keptOf less (c i)) (repeatsOf less (c i)))

omit [DecidableEq α] in
/-- A function that returns nothing. -/
theorem ends_void {x : Except ListFault (Links α)} {P : Links α → Prop} (h : Ends x P) :
    Ends (x.map (Prod.mk (none : Option α))) fun o => o.1 = none ∧ P o.2 := by
  obtain ⟨m, rfl, hm⟩ := h
  exact ⟨(none, m), rfl, rfl, hm⟩

variable [DecidableEq ι] {lists : ι → LinkedList α} {less : α → α → Bool} {call : ListCall α ι}
  {c c' : ι → List α} {r : Option α}

/-- A call returns, with enough fuel for its loop. -/
theorem ListCall.Does.ends (hdoes : call.Does lists less c r c') {m : Links α} (h : Lists m lists c) :
    ∃ n, ∀ fuel, n < fuel →
      Ends (call.run lists less fuel m) fun o => o.1 = r ∧ Lists o.2 lists c' := by
  cases hdoes with
  | insert list unlisted => exact ⟨0, fun _ _ => ends_void (listInsert_lists h list unlisted)⟩
  | remove list =>
    exact ⟨0, fun _ _ => (listRemove_lists h list).mono fun o ho => ⟨ho.1, ho.2.1⟩⟩
  | pushFront unlisted => exact ⟨0, fun _ _ => ends_void (listPushFront_lists h unlisted)⟩
  | pushBack unlisted => exact ⟨0, fun _ _ => ends_void (listPushBack_lists h unlisted)⟩
  | popFront list =>
    exact ⟨0, fun _ _ => (listPopFront_lists h list).mono fun o ho => ⟨ho.1, ho.2.1⟩⟩
  | popBack list =>
    exact ⟨0, fun _ _ => (listPopBack_lists h list).mono fun o ho => ⟨ho.1, ho.2.1⟩⟩
  | splice source out target =>
    subst out
    exact ⟨0, fun _ _ => ends_void (listSplice_lists h source target)⟩
  | @reverse _ i => exact ⟨(c i).length, fun _ hfuel => ends_void (listReverse_lists h hfuel)⟩
  | @unique _ i duplicates other =>
    exact ⟨(c i).length, fun _ hfuel => ends_void (listUnique_lists h other hfuel)⟩

/-- **Calls refine operations on sequences.** Of lists that are well-formed and have no element in common,
every call makes such lists again; no assertion fails, the loops end, and in the lists is what the call is
to put there, in the one direction and, the other way round, in the other. -/
theorem list_calls_refine (hdoes : call.Does lists less c r c') {m : Links α}
    (h : Lists m lists c) :
    ∃ n, ∀ fuel, n < fuel → ∃ m', call.run lists less fuel m = .ok (r, m') ∧ Lists m' lists c' ∧
      ∀ i k, (c' i).length < k →
        walk m'.next (lists i).tail k (m'.next (lists i).head) = some (c' i) ∧
        walk m'.prev (lists i).head k (m'.prev (lists i).tail) = some (c' i).reverse := by
  obtain ⟨n, hn⟩ := hdoes.ends h
  refine ⟨n, fun fuel hfuel => ?_⟩
  obtain ⟨⟨r', m'⟩, hrun, rfl, hlists⟩ := hn fuel hfuel
  exact ⟨m', hrun, hlists, fun i k hk => ⟨hlists.forward i hk, hlists.backward i hk⟩⟩

end Calls

/-- Two lists. -/
def twoLists : Bool → LinkedList ℕ
  | false => ⟨0, 1⟩
  | true => ⟨2, 3⟩

/-- Their elements. -/
def twoContents : Bool → List ℕ
  | false => [10, 11]
  | true => [12]

/-- Their links. -/
def twoLinks : Links ℕ where
  prev x := [(10, 0), (11, 10), (1, 11), (12, 2), (3, 12)].lookup x
  next x := [(0, 10), (10, 11), (11, 1), (2, 12), (12, 3)].lookup x

theorem twoLinks_lists : Lists twoLinks twoLists twoContents where
  strand := by
    intro i
    cases i with
    | false =>
      refine ⟨by decide, ?_, fun a ha => ?_, fun a ha => ?_⟩
      · exact .cons_cons ⟨rfl, rfl⟩ (.cons_cons ⟨rfl, rfl⟩ (.cons_cons ⟨rfl, rfl⟩ (.singleton 1)))
      · cases ha
        rfl
      · cases ha
        rfl
    | true =>
      refine ⟨by decide, ?_, fun a ha => ?_, fun a ha => ?_⟩
      · exact .cons_cons ⟨rfl, rfl⟩ (.cons_cons ⟨rfl, rfl⟩ (.singleton 3))
      · cases ha
        rfl
      · cases ha
        rfl
  apart := by
    intro i j hij
    cases i <;> cases j <;> simp_all [LinkedList.nodes, twoLists, twoContents]

/-- The first list is moved into the second one, before its element. -/
theorem list_calls_refine_splice :
    ∃ fuel m', (ListCall.splice 12 10 1).run twoLists (fun a b => a < b) fuel twoLinks =
        .ok (none, m') ∧ walk m'.next 3 9 (m'.next 2) = some [10, 11, 12] := by
  have hdoes : (ListCall.splice 12 10 1).Does twoLists (fun a b => a < b) twoContents none
      (update (update twoContents false []) true [10, 11, 12]) :=
    @ListCall.Does.splice ℕ Bool _ twoLists _ twoContents _ false true [] [10, 11] [] [] [12] rfl rfl
      rfl
  obtain ⟨n, hn⟩ := list_calls_refine hdoes twoLinks_lists
  obtain ⟨m', hrun, -, hwalk⟩ := hn (n + 1) (Nat.lt_succ_self n)
  exact ⟨n + 1, m', hrun, (hwalk true 9 (by decide)).1⟩

end Pintos
