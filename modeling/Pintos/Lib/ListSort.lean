import Pintos.Foundation.MergeRuns
import Pintos.Lib.LinkedList

/-!
# Sorting a list

`list_sort` of `lib/kernel/list.c`: passes over the list, in each of which neighbouring runs are merged in
place, until a pass puts out one run only.

* `findEndOfRun_lists`, `inplaceMerge_lists` — the two functions that `list_sort` uses, on sequences;
* `sortPass_lists` — one pass: half as many runs as before, and the elements rearranged;
* `list_sort_stable` — the whole function.
-/

namespace Pintos

open Linked Total MergeRuns Function List

variable {α ι : Type}

/-! ### The functions -/

section Functions

variable [DecidableEq α]

/-- The loop of `is_sorted`. -/
def isSortedLoop (m : Links α) (less : α → α → Bool) (b : Option α) :
    ℕ → Option α → Except ListFault Bool
  | 0, _ => .error .fuel
  | fuel + 1, a => do
    let a ← listNext m a
    if a = b then .ok true
    else do
      let p ← listPrev m a
      let smaller ← callLess less a p
      if smaller then .ok false else isSortedLoop m less b fuel a

/-- `is_sorted`. -/
def isSorted (fuel : ℕ) (m : Links α) (a b : Option α) (less : α → α → Bool) : Except ListFault Bool :=
  if a = b then .ok true else isSortedLoop m less b fuel a

/-- The loop of `find_end_of_run`. -/
def findEndOfRunLoop (m : Links α) (less : α → α → Bool) (b : Option α) :
    ℕ → Option α → Except ListFault (Option α)
  | 0, _ => .error .fuel
  | fuel + 1, a => do
    let a ← listNext m a
    if a = b then .ok a
    else do
      let p ← listPrev m a
      let smaller ← callLess less a p
      if smaller then .ok a else findEndOfRunLoop m less b fuel a

/-- `find_end_of_run`. -/
def findEndOfRun (fuel : ℕ) (m : Links α) (a b : Option α) (less : α → α → Bool) :
    Except ListFault (Option α) := do
  listAssert a.isSome
  listAssert b.isSome
  listAssert (a ≠ b)
  findEndOfRunLoop m less b fuel a

/-- The loop of `inplace_merge`. -/
def mergeLoop (less : α → α → Bool) (b1 : Option α) :
    ℕ → Links α → Option α → Option α → Except ListFault (Links α)
  | 0, _, _, _ => .error .fuel
  | fuel + 1, m, a0, a1b0 =>
    if a0 ≠ a1b0 ∧ a1b0 ≠ b1 then do
      let smaller ← callLess less a1b0 a0
      if !smaller then do
        let a0 ← listNext m a0
        mergeLoop less b1 fuel m a0 a1b0
      else do
        let a1b0 ← listNext m a1b0
        let p ← listPrev m a1b0
        let m ← listSplice m a0 p a1b0
        mergeLoop less b1 fuel m a0 a1b0
    else .ok m

/-- `inplace_merge`. -/
def inplaceMerge (fuel : ℕ) (m : Links α) (a0 a1b0 b1 : Option α) (less : α → α → Bool) :
    Except ListFault (Links α) := do
  listAssert a0.isSome
  listAssert a1b0.isSome
  listAssert b1.isSome
  let sorted ← isSorted fuel m a0 a1b0 less
  listAssert sorted
  let sorted ← isSorted fuel m a1b0 b1 less
  listAssert sorted
  mergeLoop less b1 fuel m a0 a1b0

/-- A pass of `list_sort`, from `a0` on: the links afterwards, and `output_run_cnt`. The loops of the
functions that it calls have the fuel `n`. -/
def sortPass (n : ℕ) (l : LinkedList α) (less : α → α → Bool) :
    ℕ → Links α → Option α → ℕ → Except ListFault (Links α × ℕ)
  | 0, _, _, _ => .error .fuel
  | fuel + 1, m, a0, outputRunCnt =>
    if a0 = listEnd l then .ok (m, outputRunCnt)
    else do
      let a1b0 ← findEndOfRun n m a0 (listEnd l) less
      if a1b0 = listEnd l then .ok (m, outputRunCnt + 1)
      else do
        let b1 ← findEndOfRun n m a1b0 (listEnd l) less
        let m ← inplaceMerge n m a0 a1b0 b1 less
        sortPass n l less fuel m b1 (outputRunCnt + 1)

/-- The passes of `list_sort`. -/
def sortLoop (n : ℕ) (l : LinkedList α) (less : α → α → Bool) :
    ℕ → Links α → Except ListFault (Links α)
  | 0, _ => .error .fuel
  | fuel + 1, m => do
    let (m, outputRunCnt) ← sortPass n l less n m (listBegin m l) 0
    if 1 < outputRunCnt then sortLoop n l less fuel m else .ok m

/-- `list_sort`. -/
def listSort (fuel : ℕ) (m : Links α) (l : LinkedList α) (less : α → α → Bool) :
    Except ListFault (Links α) := do
  let m ← sortLoop fuel l less fuel m
  let sorted ← isSorted fuel m (listBegin m l) (listEnd l) less
  listAssert sorted
  .ok m

end Functions

/-! ### Runs -/

section Runs

variable {m : Links α} {lists : ι → LinkedList α} {c : ι → List α} {i : ι} {less : α → α → Bool}
  {a : α} {xs ys zs : List α} {fuel : ℕ}

/-- A pointer to an element is not one to a later place. -/
theorem Lists.ne_front (h : Lists m lists c) (hi : c i = xs ++ a :: (ys ++ zs)) :
    a ≠ (lists i).front zs := by
  obtain ⟨hnodup, hne⟩ := h.nodup i
  cases zs with
  | nil => exact (hne a (by rw [hi]; simp)).2
  | cons z zs =>
    rintro rfl
    rw [hi] at hnodup
    simp [nodup_append] at hnodup

/-- The step that both loops over a run make: the next element, and the one before it. -/
theorem Lists.advance (h : Lists m lists c) {b : α} (hi : c i = xs ++ a :: b :: ys) :
    Pintos.listNext m (some a) = .ok (some b) ∧ Pintos.listPrev m (some b) = .ok (some a) := by
  refine ⟨h.listNext_elem hi, ?_⟩
  have hprev := h.listPrev (show c i = (xs ++ [a]) ++ b :: ys by rw [hi]; simp)
  rwa [LinkedList.back_concat] at hprev

variable [DecidableEq α]

theorem isSortedLoop_lists (h : Lists m lists c) (hi : c i = xs ++ a :: (ys ++ zs))
    (hrun : Ascending less (a :: ys)) (hfuel : ys.length < fuel) :
    isSortedLoop m less (some ((lists i).front zs)) fuel (some a) = .ok true := by
  induction ys generalizing xs a fuel with
  | nil =>
    obtain ⟨fuel, rfl⟩ := Nat.exists_eq_add_one.mpr hfuel
    exact (bind_of_eq_ok (h.listNext_elem hi) _).trans (if_pos rfl)
  | cons b ys ih =>
    obtain ⟨fuel, rfl⟩ := Nat.exists_eq_add_one.mpr (Nat.zero_lt_of_lt hfuel)
    have hi' : c i = (xs ++ [a]) ++ b :: (ys ++ zs) := by rw [hi]; simp
    obtain ⟨hnext, hprev⟩ := h.advance hi
    obtain ⟨hab, hrest⟩ := isChain_cons_cons.mp hrun
    have hne : some b ≠ some ((lists i).front zs) := fun heq => h.ne_front hi' (Option.some.inj heq)
    have hless : callLess less (some b) (some a) = .ok false := congrArg _ hab
    simp only [isSortedLoop, bind, Except.bind, hnext, hne, if_false, hprev, hless,
      Bool.false_eq_true]
    exact ih hi' hrest (Nat.lt_of_succ_lt_succ hfuel)

/-- **`is_sorted`** of a run. -/
theorem isSorted_lists (h : Lists m lists c) (hi : c i = xs ++ (ys ++ zs)) (hrun : Ascending less ys)
    (hfuel : ys.length < fuel) :
    isSorted fuel m (some ((lists i).front (ys ++ zs))) (some ((lists i).front zs)) less =
      .ok true := by
  unfold isSorted
  cases ys with
  | nil => exact if_pos rfl
  | cons y ys =>
    rw [cons_append, LinkedList.front_cons,
      if_neg fun heq => h.ne_front hi (Option.some.inj heq)]
    exact isSortedLoop_lists h hi hrun (Nat.lt_of_succ_lt hfuel)

/-- A list begins with the run `us ++ [e]`, and the run ends there. -/
structure RunAt (less : α → α → Bool) (us : List α) (e : α) (zs : List α) : Prop where
  run : Ascending less (us ++ [e])
  stop : ∀ z ∈ zs.head?, less z e = true

theorem findEndOfRunLoop_lists (h : Lists m lists c) (hi : c i = xs ++ a :: ys)
    (hfuel : ys.length < fuel) :
    Ends (findEndOfRunLoop m less (listEnd (lists i)) fuel (some a)) fun p =>
      ∃ us e zs, a :: ys = us ++ [e] ++ zs ∧ p = some ((lists i).front zs) ∧ RunAt less us e zs := by
  induction ys generalizing xs a fuel with
  | nil =>
    obtain ⟨fuel, rfl⟩ := Nat.exists_eq_add_one.mpr hfuel
    refine .step (h.listNext_elem hi) ⟨_, if_pos rfl, [], a, [], rfl, rfl, .singleton a, ?_⟩
    exact fun z hz => absurd hz (Option.not_mem_none z)
  | cons b ys ih =>
    obtain ⟨fuel, rfl⟩ := Nat.exists_eq_add_one.mpr (Nat.zero_lt_of_lt hfuel)
    have hi' : c i = (xs ++ [a]) ++ b :: ys := by rw [hi]; simp
    obtain ⟨hnext, hprev⟩ := h.advance hi
    refine .step hnext ?_
    rw [if_neg (h.ne_end hi')]
    refine .step hprev (.step (show callLess less (some b) (some a) = .ok (less b a) from rfl) ?_)
    cases hless : less b a with
    | true =>
      refine ⟨_, rfl, [], a, b :: ys, rfl, rfl, .singleton a, fun z hz => ?_⟩
      rwa [← Option.some.inj hz]
    | false =>
      refine (ih hi' (Nat.lt_of_succ_lt_succ hfuel)).mono fun p hp => ?_
      obtain ⟨us, e, zs, hsplit, hp, hrun⟩ := hp
      refine ⟨a :: us, e, zs, by rw [hsplit]; rfl, hp, ?_, hrun.stop⟩
      -- the run begins one element earlier
      cases us with
      | nil =>
        obtain rfl := (List.cons.inj hsplit).1
        exact .cons_cons hless hrun.run
      | cons u us =>
        obtain rfl := (List.cons.inj hsplit).1
        exact .cons_cons hless hrun.run

/-- **`find_end_of_run`.** -/
theorem findEndOfRun_lists (h : Lists m lists c) (hi : c i = xs ++ a :: ys) (hfuel : ys.length < fuel) :
    Ends (findEndOfRun fuel m (some a) (listEnd (lists i)) less) fun p =>
      ∃ us e zs, a :: ys = us ++ [e] ++ zs ∧ p = some ((lists i).front zs) ∧ RunAt less us e zs := by
  unfold findEndOfRun
  rw [decide_eq_true (h.ne_end hi)]
  exact findEndOfRunLoop_lists h hi hfuel

end Runs

section Merging

variable [DecidableEq α] [DecidableEq ι] {m : Links α} {lists : ι → LinkedList α} {c : ι → List α}
  {i : ι} {less : α → α → Bool} {pre as bs post : List α} {fuel : ℕ}

/-- **The loop of `inplace_merge`.** -/
theorem mergeLoop_lists (h : Lists m lists c) (hi : c i = pre ++ (as ++ (bs ++ post)))
    (hfuel : as.length + bs.length < fuel) :
    Ends (mergeLoop less (some ((lists i).front post)) fuel m
        (some ((lists i).front (as ++ (bs ++ post)))) (some ((lists i).front (bs ++ post)))) fun m' =>
      Lists m' lists (update c i (pre ++ (as.merge bs (inOrder less) ++ post))) := by
  induction fuel generalizing pre as bs m c with
  | zero => exact absurd hfuel (Nat.not_lt_zero _)
  | succ fuel ih =>
    cases as with
    | nil =>
      rw [nil_merge, ← nil_append (bs ++ post), ← hi, update_eq_self]
      exact ⟨m, if_neg fun hne => hne.1 rfl, h⟩
    | cons a as =>
      cases bs with
      | nil =>
        rw [merge_right, ← nil_append post, ← hi, update_eq_self]
        exact ⟨m, if_neg fun hne => hne.2 rfl, h⟩
      | cons b bs =>
        have hia : c i = pre ++ a :: (as ++ (b :: bs ++ post)) := hi
        have hib : c i = (pre ++ a :: as) ++ b :: (bs ++ post) := by rw [hi]; simp
        have hmore : some a ≠ some b ∧ some b ≠ some ((lists i).front post) :=
          ⟨fun heq => h.ne_front hia (Option.some.inj heq),
            fun heq => h.ne_front hib (Option.some.inj heq)⟩
        rw [length_cons, length_cons] at hfuel
        rw [mergeLoop, cons_append, cons_append, LinkedList.front_cons,
          LinkedList.front_cons, if_pos hmore]
        refine .step (show callLess less (some b) (some a) = .ok (less b a) from rfl) ?_
        cases hless : less b a with
        | false =>
          -- `a` stays where it is
          have hi' : c i = (pre ++ [a]) ++ (as ++ (b :: bs ++ post)) := by rw [hi]; simp
          rw [cons_merge_cons_pos _ _ _ (by rw [inOrder, hless]; rfl)]
          refine .step (h.listNext_elem hia) ?_
          have hrest := ih h hi' (by rw [length_cons]; omega)
          rwa [append_assoc, singleton_append] at hrest
        | true =>
          -- `b` is moved before `a`
          rw [cons_merge_cons_neg _ _ _ (by rw [inOrder, hless]; decide)]
          refine .step (h.listNext_elem hib) ?_
          have hprev := h.listPrev (show c i = (pre ++ a :: as ++ [b]) ++ (bs ++ post) by
            rw [hib]; simp)
          rw [LinkedList.back_concat] at hprev
          refine .step hprev (.bind (listSplice_lists h (show c i = (pre ++ a :: as) ++
            ([b] ++ (bs ++ post)) from hib) (show _ = pre ++ (a :: as ++ (bs ++ post)) by
              rw [update_self]; simp)) fun m' hm' => ?_)
          rw [update_idem] at hm'
          have hrest := ih hm' (show _ = (pre ++ [b]) ++ (a :: as ++ (bs ++ post)) by
            rw [update_self]; simp) (by rw [length_cons]; omega)
          rw [update_idem, append_assoc, singleton_append] at hrest
          exact hrest

/-- **`inplace_merge`** of two runs. -/
theorem inplaceMerge_lists (h : Lists m lists c) (hi : c i = pre ++ (as ++ (bs ++ post)))
    (ha : Ascending less as) (hb : Ascending less bs) (hfuel : as.length + bs.length < fuel) :
    Ends (inplaceMerge fuel m (some ((lists i).front (as ++ (bs ++ post))))
        (some ((lists i).front (bs ++ post))) (some ((lists i).front post)) less) fun m' =>
      Lists m' lists (update c i (pre ++ (as.merge bs (inOrder less) ++ post))) := by
  have hsorted := isSorted_lists h hi ha (show as.length < fuel by omega)
  have hsorted' := isSorted_lists h (show c i = (pre ++ as) ++ (bs ++ post) by rw [hi]; simp) hb
    (show bs.length < fuel by omega)
  refine .step rfl (.step rfl (.step rfl (.step hsorted (.step rfl (.step hsorted' (.step rfl ?_))))))
  exact mergeLoop_lists h hi hfuel

end Merging

/-! ### Passes -/

/-- What a pass makes of a list, and the number of runs that it puts out: every run but the last one
is made of two of the old ones. -/
structure PassResult (less : α → α → Bool) (ys ys' : List α) (cnt : ℕ) : Prop where
  rearranged : Rearranged less ys ys'
  nothing : ys = [] → cnt = 0
  fewer : ys ≠ [] → descents less ys' + 1 ≤ cnt
  halved : ys ≠ [] → 2 * cnt ≤ descents less ys + 2

section Results

variable {less : α → α → Bool} {ys : List α} {cnt : ℕ}

/-- The list is one run. -/
theorem passResult_one (hrun : Ascending less ys) (hne : ys ≠ []) : PassResult less ys ys 1 := by
  have hzero := descents_eq_zero.mpr hrun
  exact ⟨.refl less ys, fun hnil => absurd hnil hne, fun _ => by omega, fun _ => by omega⟩

/-- Two runs are merged, and the rest is done. -/
theorem passResult_merge [IsStrictWeakOrder α fun a b => less a b = true] {us vs zs zs' : List α} {e e' : α}
    (hrun : RunAt less us e (vs ++ [e'] ++ zs)) (hrun' : RunAt less vs e' zs)
    (hrest : PassResult less zs zs' cnt) :
    PassResult less (us ++ [e] ++ (vs ++ [e'] ++ zs))
      ((us ++ [e]).merge (vs ++ [e']) (inOrder less) ++ zs') (cnt + 1) := by
  have hmerged := ascending_merge hrun.run hrun'.run
  have hperm := (rearranged_merge hrun.run (vs ++ [e'])).append hrest.rearranged
  rw [append_assoc (us ++ [e])] at hperm
  have hle : descents less ((us ++ [e]).merge (vs ++ [e']) (inOrder less) ++ zs') ≤ _ :=
    descents_append_le hmerged
  -- the second run begins where the first one ends
  have hfirst : descents less (us ++ [e] ++ (vs ++ [e'] ++ zs)) =
      descents less (vs ++ [e'] ++ zs) + 1 := by
    obtain ⟨b, t, hb⟩ : ∃ b t, vs ++ [e'] ++ zs = b :: t :=
      exists_cons_of_ne_nil (by simp)
    have hstop := hrun.stop
    rw [hb] at hstop ⊢
    exact descents_run hrun.run (hstop b rfl)
  refine ⟨hperm, fun hnil => absurd hnil (by simp), fun _ => ?_, fun _ => ?_⟩
  · cases zs with
    | nil =>
      have hnil := hrest.rearranged.perm.eq_nil
      subst hnil
      rw [append_nil, descents_eq_zero.mpr hmerged]
      omega
    | cons z zs =>
      have := hrest.fewer (cons_ne_nil z zs)
      omega
  · rw [hfirst]
    cases zs with
    | nil =>
      have := hrest.nothing rfl
      omega
    | cons z zs =>
      have := hrest.halved (cons_ne_nil z zs)
      rw [descents_run hrun'.run (hrun'.stop z rfl)]
      omega

end Results

section Passes

variable [DecidableEq α] [DecidableEq ι] {m : Links α} {lists : ι → LinkedList α} {c : ι → List α}
  {i : ι} {less : α → α → Bool} [IsStrictWeakOrder α fun a b => less a b = true] {pre ys : List α}
  {n fuel cnt : ℕ}

/-- **One pass.** -/
theorem sortPass_lists (h : Lists m lists c) (hi : c i = pre ++ ys) (hn : ys.length < n)
    (hfuel : ys.length < fuel) :
    Ends (sortPass n (lists i) less fuel m (some ((lists i).front ys)) cnt) fun o =>
      ∃ ys' k, o.2 = cnt + k ∧ Lists o.1 lists (update c i (pre ++ ys')) ∧
        PassResult less ys ys' k := by
  induction fuel generalizing pre ys m c cnt with
  | zero => exact absurd hfuel (Nat.not_lt_zero _)
  | succ fuel ih =>
    cases ys with
    | nil =>
      refine ⟨_, if_pos rfl, [], 0, rfl, ?_, .refl less [], fun _ => rfl, ?_, ?_⟩
      · rwa [← hi, update_eq_self]
      · exact fun hne => absurd rfl hne
      · exact fun hne => absurd rfl hne
    | cons a t =>
      rw [length_cons] at hn hfuel
      rw [sortPass, LinkedList.front_cons, if_neg (h.ne_end hi)]
      refine .bind (findEndOfRun_lists h hi (Nat.lt_of_succ_lt hn)) fun p hp => ?_
      obtain ⟨us, e, zs, hsplit, rfl, hrun⟩ := hp
      cases zs with
      | nil =>
        rw [append_nil] at hsplit
        refine ⟨_, if_pos rfl, a :: t, 1, rfl, ?_, passResult_one (hsplit ▸ hrun.run) ?_⟩
        · rwa [← hi, update_eq_self]
        · exact cons_ne_nil a t
      | cons z zs =>
        have hiz : c i = (pre ++ (us ++ [e])) ++ z :: zs := by rw [hi, hsplit]; simp
        have hlen := congrArg List.length hsplit
        simp only [length_cons, length_append, length_nil] at hlen
        rw [LinkedList.front_cons, if_neg (h.ne_end hiz)]
        refine .bind (findEndOfRun_lists h hiz (by omega)) fun p hp => ?_
        obtain ⟨vs, e', ws, hsplit', rfl, hrun'⟩ := hp
        rw [hsplit'] at hsplit hrun
        have hlen' := congrArg List.length hsplit'
        simp only [length_cons, length_append, length_nil] at hlen'
        have him : c i = pre ++ (us ++ [e] ++ (vs ++ [e'] ++ ws)) := by rw [hi, hsplit]
        have hmerge := inplaceMerge_lists h him hrun.run hrun'.run
          (show (us ++ [e]).length + (vs ++ [e']).length < n by
            simp only [length_append, length_cons, length_nil]; omega)
        rw [← hsplit, ← hsplit', LinkedList.front_cons, LinkedList.front_cons] at hmerge
        refine .bind hmerge fun m' hm' => ?_
        refine (ih hm' (show _ = (pre ++ (us ++ [e]).merge (vs ++ [e']) (inOrder less)) ++ ws by
          rw [update_self, append_assoc]) (by omega) (by omega)).mono fun o ho => ?_
        obtain ⟨ws', k, hcnt, hlists, hrest⟩ := ho
        rw [update_idem, append_assoc] at hlists
        refine ⟨_, k + 1, by omega, hlists, ?_⟩
        rw [hsplit]
        exact passResult_merge hrun hrun' hrest

/-- **The passes.** Each but the last one leaves fewer runs than there were. -/
theorem sortLoop_lists (h : Lists m lists c) (hn : (c i).length < n)
    (hfuel : descents less (c i) + 1 < fuel) :
    Ends (sortLoop n (lists i) less fuel m) fun m' =>
      ∃ ys, Lists m' lists (update c i ys) ∧ Rearranged less (c i) ys ∧ Ascending less ys := by
  induction fuel generalizing m c with
  | zero => exact absurd hfuel (Nat.not_lt_zero _)
  | succ fuel ih =>
    unfold sortLoop
    rw [h.listBegin]
    refine .bind (sortPass_lists h (show c i = [] ++ c i from rfl) hn hn) fun o ho => ?_
    obtain ⟨ys, k, hcnt, hlists, hpass⟩ := ho
    obtain ⟨m', cnt⟩ := o
    obtain rfl : cnt = k := hcnt.trans (Nat.zero_add k)
    rw [nil_append] at hlists
    by_cases hmore : 1 < cnt
    · have hne : c i ≠ [] := by
        intro hnil
        have := hpass.nothing hnil
        omega
      have hfewer := hpass.fewer hne
      have hhalved := hpass.halved hne
      have hself := update_self i ys c
      obtain ⟨m'', hrun, zs, hlists', hrearranged, hsorted⟩ :=
        ih hlists (by rw [hself, hpass.rearranged.perm.length_eq]; exact hn) (by rw [hself]; omega)
      rw [update_idem] at hlists'
      rw [hself] at hrearranged
      exact ⟨m'', (if_pos hmore).trans hrun, zs, hlists', hpass.rearranged.trans hrearranged, hsorted⟩
    · refine ⟨m', if_neg hmore, ys, hlists, hpass.rearranged, ?_⟩
      by_cases hnil : c i = []
      · have hys := hpass.rearranged.perm
        rw [hnil] at hys
        rw [hys.eq_nil]
        exact .nil
      · have := hpass.fewer hnil
        exact descents_eq_zero.mp (by omega)

/-- **`list_sort`.** For every strict weak order, the function ends without a failed assertion and leaves
a well-formed list: the same elements, in order, and equivalent elements in the order in which they were.
The other lists are left as they are. -/
theorem list_sort_stable (h : Lists m lists c) (i : ι) (hfuel : (c i).length + 1 < fuel) :
    ∃ m' ys, listSort fuel m (lists i) less = .ok m' ∧ Lists m' lists (update c i ys) ∧
      ys.Perm (c i) ∧ ys.Pairwise (fun a b => less b a = false) ∧
      ∀ x, ys.filter (equivalent less x) = (c i).filter (equivalent less x) := by
  have hdescents : descents less (c i) ≤ (c i).length := by
    by_cases hne : c i = []
    · rw [hne]
      exact Nat.zero_le _
    · exact (descents_lt_length hne).le
  have hloop : Ends (sortLoop fuel (lists i) less fuel m) _ := sortLoop_lists h (by omega) (by omega)
  obtain ⟨m', hrun, ys, hlists, hrearranged, hsorted⟩ := hloop
  have hlen := hrearranged.perm.length_eq
  have hself := update_self i ys c
  have hcheck := isSorted_lists hlists (show _ = [] ++ (ys ++ []) by rw [hself]; simp) hsorted
    (show ys.length < fuel by omega)
  rw [append_nil, LinkedList.front_nil] at hcheck
  refine ⟨m', ys, ?_, hlists, hrearranged.perm, hsorted.pairwise, hrearranged.stable⟩
  unfold listSort
  rw [bind_of_eq_ok hrun]
  rw [hlists.listBegin, hself, listEnd, bind_of_eq_ok hcheck]
  rfl

end Passes

/-- Numbers, compared by their tens. -/
def tensLess (a b : ℕ) : Bool := a / 10 < b / 10

theorem tensLess_weak : IsStrictWeakOrder ℕ fun a b => tensLess a b = true where
  irrefl a := by simp [tensLess]
  trans a b c := by
    simp only [tensLess, decide_eq_true_eq]
    omega
  incomp_trans a b c := by
    simp only [tensLess, decide_eq_true_eq]
    omega

/-- The links of a list of four elements. -/
def fourLinks : Links ℕ where
  prev x := [(21, 0), (10, 21), (20, 10), (11, 20), (1, 11)].lookup x
  next x := [(0, 21), (21, 10), (10, 20), (20, 11), (11, 1)].lookup x

theorem fourLinks_lists : Lists fourLinks (fun _ : Unit => ⟨0, 1⟩) fun _ => [21, 10, 20, 11] where
  strand := by
    intro i
    refine ⟨show [0, 21, 10, 20, 11, 1].Nodup by decide, ?_, fun a ha => ?_, fun a ha => ?_⟩
    · exact .cons_cons ⟨rfl, rfl⟩ (.cons_cons ⟨rfl, rfl⟩ (.cons_cons ⟨rfl, rfl⟩
        (.cons_cons ⟨rfl, rfl⟩ (.cons_cons ⟨rfl, rfl⟩ (.singleton 1)))))
    · cases ha
      rfl
    · cases ha
      rfl
  apart := fun i j hij => absurd rfl hij

/-- 21, 10, 20, 11 is sorted by tens. -/
theorem list_sort_stable_tens :
    ∃ m', ∃ ys : List ℕ, listSort 6 fourLinks ⟨0, 1⟩ tensLess = .ok m' ∧ ys.Perm [21, 10, 20, 11] ∧
      ys.Pairwise (fun a b => tensLess b a = false) ∧
      ys.filter (equivalent tensLess 10) = [10, 11] := by
  have := tensLess_weak
  obtain ⟨m', ys, hrun, -, hperm, hsorted, hstable⟩ : ∃ m', ∃ ys : List ℕ,
      listSort 6 fourLinks ⟨0, 1⟩ tensLess = .ok m' ∧ _ :=
    list_sort_stable fourLinks_lists () (show 5 < 6 by decide)
  exact ⟨m', ys, hrun, hperm, hsorted, hstable 10⟩

end Pintos
