import Mathlib.Data.List.Chain
import Mathlib.Data.List.Nodup

/-!
# Doubly linked nodes

A memory of nodes, each with a link to the previous and to the next one, both of which may be null
(`Links`). A strand is a sequence of different nodes that are linked in this order, and whose two ends have
no neighbour on the other side.

All surgery is made of one step, `Links.join a b`, which makes `a` and `b` neighbours. Whatever hung on
them before is left as it is, as a chain that no strand goes through any more.

* `Strand` — a sequence of nodes in memory; `Strands` — several, no two of which have a node in common;
* `Strands.cut` — the nodes between two nodes are taken out;
* `Strands.paste` — a chain of nodes is put between two neighbours;
* `Strand.turn` — all links the other way round.
-/

namespace Linked

open Function List

/-- The links of the nodes in a memory. -/
@[ext]
structure Links (α : Type) where
  prev : α → Option α
  next : α → Option α

variable {α ι : Type}

/-- `a` and `b` are neighbours. -/
def Links.Joined (m : Links α) (a b : α) : Prop := m.next a = some b ∧ m.prev b = some a

/-- **`m'` is `m` with the two links of each of the nodes `ns` exchanged.** -/
structure Links.Turned (m m' : Links α) (ns : List α) : Prop where
  inside : ∀ x ∈ ns, m'.prev x = m.next x ∧ m'.next x = m.prev x
  outside : ∀ x ∉ ns, m'.prev x = m.prev x ∧ m'.next x = m.next x

section Join

variable [DecidableEq α]

namespace Links

def setPrev (m : Links α) (a : α) (p : Option α) : Links α :=
  { m with prev := update m.prev a p }

def setNext (m : Links α) (a : α) (p : Option α) : Links α :=
  { m with next := update m.next a p }

variable (m : Links α) (a : α) (p : Option α)

@[simp] theorem setPrev_next : (m.setPrev a p).next = m.next := rfl

@[simp] theorem setNext_prev : (m.setNext a p).prev = m.prev := rfl

@[simp] theorem setPrev_prev : (m.setPrev a p).prev = update m.prev a p := rfl

@[simp] theorem setNext_next : (m.setNext a p).next = update m.next a p := rfl

/-- The two links of a node are exchanged. -/
def turn (m : Links α) (a : α) : Links α := (m.setPrev a (m.next a)).setNext a (m.prev a)

/-- **`a` and `b` become neighbours.** -/
def join (m : Links α) (a b : α) : Links α := (m.setNext a (some b)).setPrev b (some a)

variable {m} {a b c : α}

theorem join_next_self : (m.join a b).next a = some b := update_self _ _ _

theorem join_prev_self : (m.join a b).prev b = some a := update_self _ _ _

theorem join_next_of_ne (h : c ≠ a) : (m.join a b).next c = m.next c := update_of_ne h _ _

theorem join_prev_of_ne (h : c ≠ b) : (m.join a b).prev c = m.prev c := update_of_ne h _ _

/-- One node after the other. -/
theorem Turned.turn {m' : Links α} {ns : List α} (h : m.Turned m' ns) (ha : a ∉ ns) :
    m.Turned (m'.turn a) (ns ++ [a]) := by
  obtain ⟨hprev, hnext⟩ := h.outside a ha
  refine ⟨fun x hx => ?_, fun x hx => ?_⟩
  · by_cases hxa : x = a
    · subst hxa
      exact ⟨(update_self ..).trans hnext, (update_self ..).trans hprev⟩
    · have hmem : x ∈ ns := by simpa [hxa] using hx
      have hin := h.inside x hmem
      exact ⟨(update_of_ne hxa ..).trans hin.1, (update_of_ne hxa ..).trans hin.2⟩
  · simp only [mem_append, mem_singleton, not_or] at hx
    have hout := h.outside x hx.1
    exact ⟨(update_of_ne hx.2 ..).trans hout.1, (update_of_ne hx.2 ..).trans hout.2⟩

end Links

end Join

/-! ### Chains -/

/-- A chain depends on the links inside it. -/
theorem chain_congr {m m' : Links α} {ns : List α} (h : ns.IsChain m.Joined)
    (hnext : ∀ a ∈ ns.dropLast, m'.next a = m.next a) (hprev : ∀ b ∈ ns.tail, m'.prev b = m.prev b) :
    ns.IsChain m'.Joined := by
  induction h with
  | nil => exact .nil
  | singleton a => exact .singleton a
  | cons_cons hab _ ih =>
    rename_i a b ns _
    refine .cons_cons ⟨?_, ?_⟩ (ih (fun x hx => ?_) fun x hx => ?_)
    · exact (hnext a mem_cons_self).trans hab.1
    · exact (hprev b mem_cons_self).trans hab.2
    · exact hnext x (mem_cons_of_mem _ hx)
    · exact hprev x (mem_cons_of_mem _ hx)

/-- Neighbours in a chain. -/
theorem joined_of_chain {m : Links α} {p q : List α} {a b : α}
    (h : (p ++ a :: b :: q).IsChain m.Joined) : m.Joined a b :=
  (isChain_append_cons_cons.mp h).2.1

/-- Two neighbours, and the nodes to the left and to the right of them. -/
theorem notMem_of_nodup {p q : List α} {a b : α} (h : (p ++ a :: b :: q).Nodup) :
    a ∉ p ∧ b ∉ p ++ [a] ∧ a ∉ b :: q ∧ b ∉ q := by
  have hright := h.of_append_right
  have hleft := disjoint_of_nodup_append h
  have hab := (nodup_cons.mp hright).1
  refine ⟨fun ha => hleft ha mem_cons_self, fun hb => ?_, hab,
    (nodup_cons.mp (nodup_cons.mp hright).2).1⟩
  rcases mem_append.mp hb with hb | hb
  · exact hleft hb (mem_cons_of_mem _ mem_cons_self)
  · exact hab (mem_singleton.mp hb ▸ mem_cons_self)

section Surgery

variable [DecidableEq α] {m : Links α} {a b : α} {p q mid ns : List α}

/-- A chain without the two nodes stays. -/
theorem chain_join_of_notMem (h : ns.IsChain m.Joined) (ha : a ∉ ns) (hb : b ∉ ns) :
    ns.IsChain (m.join a b).Joined :=
  chain_congr h (fun _ hx => Links.join_next_of_ne fun heq => ha (heq ▸ dropLast_subset _ hx))
    fun _ hx => Links.join_prev_of_ne fun heq => hb (heq ▸ mem_of_mem_tail hx)

/-- **Two chains become one** when the last node of the one and the first of the other are joined. -/
theorem chain_join (hp : (p ++ [a]).IsChain m.Joined) (hq : (b :: q).IsChain m.Joined)
    (hnodup : (p ++ a :: b :: q).Nodup) : (p ++ a :: b :: q).IsChain (m.join a b).Joined := by
  obtain ⟨hap, hbp, haq, hbq⟩ := notMem_of_nodup hnodup
  refine isChain_append_cons_cons.mpr ⟨chain_congr hp (fun x hx => ?_) fun x hx => ?_,
    ⟨Links.join_next_self, Links.join_prev_self⟩, chain_congr hq (fun x hx => ?_) fun x hx => ?_⟩
  · rw [dropLast_concat] at hx
    exact Links.join_next_of_ne fun heq => hap (heq ▸ hx)
  · exact Links.join_prev_of_ne fun heq => hbp (heq ▸ mem_of_mem_tail hx)
  · exact Links.join_next_of_ne fun heq => haq (heq ▸ dropLast_subset _ hx)
  · exact Links.join_prev_of_ne fun heq => hbq (heq ▸ hx)

end Surgery

/-! ### Strands -/

/-- **A sequence of nodes in memory**, whose ends have no other neighbour. -/
structure Strand (m : Links α) (ns : List α) : Prop where
  nodup : ns.Nodup
  chain : ns.IsChain m.Joined
  first : ∀ a ∈ ns.head?, m.prev a = none
  last : ∀ a ∈ ns.getLast?, m.next a = none

/-- **Sequences of nodes in memory**, no two of which have a node in common. -/
structure Strands (m : Links α) (ns : ι → List α) : Prop where
  strand : ∀ i, Strand m (ns i)
  apart : ∀ i j, i ≠ j → (ns i).Disjoint (ns j)

/-- A strand depends on its nodes. -/
theorem Strand.congr {m m' : Links α} {ns : List α} (h : Strand m ns)
    (hsame : ∀ a ∈ ns, m'.next a = m.next a ∧ m'.prev a = m.prev a) : Strand m' ns where
  nodup := h.nodup
  chain := chain_congr h.chain (fun a ha => (hsame a (dropLast_subset _ ha)).1)
    fun b hb => (hsame b (mem_of_mem_tail hb)).2
  first := fun a ha => (hsame a (mem_of_mem_head? ha)).2.trans (h.first a ha)
  last := fun a ha => (hsame a (mem_of_mem_getLast? ha)).1.trans (h.last a ha)

/-- Two chains that were joined make a strand if their other ends are ends. -/
theorem strand_of_join {m : Links α} {p q : List α} {a b : α} (hnodup : (p ++ a :: b :: q).Nodup)
    (hchain : (p ++ a :: b :: q).IsChain m.Joined) (hfirst : ∀ x ∈ (p ++ [a]).head?, m.prev x = none)
    (hlast : ∀ x ∈ (b :: q).getLast?, m.next x = none) : Strand m (p ++ a :: b :: q) := by
  refine ⟨hnodup, hchain, fun x hx => hfirst x ?_, fun x hx => hlast x ?_⟩
  · cases p with
    | nil => exact hx
    | cons c p => exact hx
  · rwa [List.getLast?_append, List.getLast?_cons_cons, Option.or_of_isSome (by simp)] at hx

/-- The parts of a strand. -/
theorem Strand.parts {m : Links α} {p q mid : List α} {a b : α}
    (h : Strand m (p ++ a :: (mid ++ b :: q))) :
    ((p ++ [a]).IsChain m.Joined ∧ ∀ x ∈ (p ++ [a]).head?, m.prev x = none) ∧
      mid.IsChain m.Joined ∧ (b :: q).IsChain m.Joined ∧ ∀ x ∈ (b :: q).getLast?, m.next x = none := by
  obtain ⟨hleft, hright⟩ := isChain_split.mp h.chain
  refine ⟨⟨hleft, fun x hx => h.first x ?_⟩, ?_, ?_, fun x hx => h.last x ?_⟩
  · cases p with
    | nil => exact hx
    | cons c p => exact hx
  · exact List.IsChain.infix hright ⟨[a], b :: q, by simp⟩
  · exact List.IsChain.infix hright ⟨a :: mid, [], by simp⟩
  · rw [List.getLast?_append, List.getLast?_cons, List.getLast?_append]
    obtain ⟨y, hy⟩ := Option.isSome_iff_exists.mp (show (b :: q).getLast?.isSome by simp)
    rw [hy] at hx ⊢
    simpa using hx

section Surgery

variable [DecidableEq α] {m : Links α} {a b f l : α} {p q mid ns : List α}

/-- The first node of a chain keeps its link if it is not the node that gets a new one. -/
theorem first_join (h : ∀ x ∈ ns.head?, m.prev x = none) (hb : b ∉ ns) :
    ∀ x ∈ ns.head?, (m.join a b).prev x = none := by
  intro x hx
  have hne : x ≠ b := fun heq => hb (heq ▸ mem_of_mem_head? hx)
  rw [Links.join_prev_of_ne hne]
  exact h x hx

theorem last_join (h : ∀ x ∈ ns.getLast?, m.next x = none) (ha : a ∉ ns) :
    ∀ x ∈ ns.getLast?, (m.join a b).next x = none := by
  intro x hx
  have hne : x ≠ a := fun heq => ha (heq ▸ mem_of_mem_getLast? hx)
  rw [Links.join_next_of_ne hne]
  exact h x hx

/-- A strand without the two nodes stays. -/
theorem Strand.join_of_notMem (h : Strand m ns) (ha : a ∉ ns) (hb : b ∉ ns) :
    Strand (m.join a b) ns where
  nodup := h.nodup
  chain := chain_join_of_notMem h.chain ha hb
  first := first_join h.first hb
  last := last_join h.last ha

/-- **The nodes between `a` and `b` are taken out.** They stay a chain. -/
theorem Strand.cut (h : Strand m (p ++ a :: (mid ++ b :: q))) :
    Strand (m.join a b) (p ++ a :: b :: q) ∧ mid.IsChain (m.join a b).Joined := by
  obtain ⟨⟨hleft, hfirst⟩, hmid, hright, hlast⟩ := h.parts
  have hnodup : (p ++ a :: b :: q).Nodup :=
    h.nodup.sublist (.append_left (.cons_cons _ (sublist_append_right _ _)) _)
  obtain ⟨-, hb, ha, -⟩ := notMem_of_nodup hnodup
  have hinner := (nodup_cons.mp h.nodup.of_append_right)
  refine ⟨strand_of_join hnodup (chain_join hleft hright hnodup) (first_join hfirst hb)
    (last_join hlast ha), chain_join_of_notMem hmid (fun hmem => ?_) fun hmem => ?_⟩
  · exact hinner.1 (mem_append_left _ hmem)
  · exact disjoint_of_nodup_append hinner.2 hmem mem_cons_self

/-- **Three chains become a strand.** -/
theorem strand_of_chains (hleft : (p ++ [a]).IsChain m.Joined)
    (hfirst : ∀ x ∈ (p ++ [a]).head?, m.prev x = none) (hmid : mid.IsChain m.Joined)
    (hright : (b :: q).IsChain m.Joined) (hlast : ∀ x ∈ (b :: q).getLast?, m.next x = none)
    (hf : mid.head? = some f) (hl : mid.getLast? = some l)
    (hnodup : (p ++ a :: (mid ++ b :: q)).Nodup) :
    Strand ((m.join a f).join l b) (p ++ a :: (mid ++ b :: q)) := by
  have hinner := nodup_cons.mp hnodup.of_append_right
  have haq : a ∉ b :: q := fun hmem => hinner.1 (mem_append_right _ hmem)
  have hfq : f ∉ b :: q := disjoint_of_nodup_append hinner.2 (mem_of_mem_head? hf)
  -- first the left chain and the one in the middle become one
  obtain ⟨t, rfl⟩ := List.head?_eq_some_iff.mp hf
  have hleftmid : (p ++ a :: f :: t).Nodup :=
    hnodup.sublist (.append_left (.cons_cons _ (sublist_append_left _ _)) _)
  obtain ⟨-, hfp, -, -⟩ := notMem_of_nodup hleftmid
  have hchain := chain_join hleft hmid hleftmid
  have hright' := chain_join_of_notMem hright haq hfq
  have hfirst' := first_join (a := a) hfirst hfp
  have hlast' := last_join (b := f) hlast haq
  -- and then it and the right one
  obtain ⟨i, hi⟩ := List.getLast?_eq_some_iff.mp hl
  have hsplit : p ++ a :: (f :: t ++ b :: q) = (p ++ a :: i) ++ l :: b :: q := by
    rw [hi]
    simp
  rw [hi] at hchain
  rw [hsplit] at hnodup ⊢
  obtain ⟨-, hb, hl, -⟩ := notMem_of_nodup hnodup
  refine strand_of_join hnodup (chain_join (by simpa using hchain) hright' hnodup)
    (first_join (fun x hx => hfirst' x ?_) hb) (last_join hlast' hl)
  cases p with
  | nil => exact hx
  | cons c p => exact hx

/-- **A chain is put between two neighbours.** -/
theorem Strand.paste (h : Strand m (p ++ a :: b :: q)) (hmid : mid.IsChain m.Joined)
    (hf : mid.head? = some f) (hl : mid.getLast? = some l)
    (hnodup : (p ++ a :: (mid ++ b :: q)).Nodup) :
    Strand ((m.join a f).join l b) (p ++ a :: (mid ++ b :: q)) := by
  obtain ⟨⟨hleft, hfirst⟩, -, hright, hlast⟩ := (show Strand m (p ++ a :: ([] ++ b :: q)) from h).parts
  exact strand_of_chains hleft hfirst hmid hright hlast hf hl hnodup

/-- **The nodes between the ends of a strand are turned round**, and the ends are joined to the other end
of the chain. -/
theorem Strand.turn {m' : Links α} (h : Strand m (a :: (mid ++ [b]))) (hturned : m.Turned m' mid)
    (hf : mid.head? = some f) (hl : mid.getLast? = some l) :
    Strand ((m'.join a l).join f b) (a :: (mid.reverse ++ [b])) := by
  obtain ⟨⟨-, hfirst⟩, hmid, -, hlast⟩ := Strand.parts (p := []) h
  have hinner := nodup_cons.mp h.nodup
  have ha : a ∉ mid := fun hmem => hinner.1 (mem_append_left _ hmem)
  have hb : b ∉ mid := fun hmem => disjoint_of_nodup_append hinner.2 hmem mem_cons_self
  have hchain : mid.reverse.IsChain m'.Joined := by
    refine isChain_reverse.mpr (hmid.imp_of_mem_imp fun x y hx hy hxy => ?_)
    exact ⟨(hturned.inside y hy).2.trans hxy.2, (hturned.inside x hx).1.trans hxy.1⟩
  refine strand_of_chains (p := []) (.singleton a) (fun x hx => ?_) hchain (.singleton b)
    (fun x hx => ?_) (List.head?_reverse.trans hl) (List.getLast?_reverse.trans hf) ?_
  · cases hx
    exact (hturned.outside a ha).1.trans (hfirst a rfl)
  · cases hx
    exact (hturned.outside b hb).2.trans (hlast b rfl)
  · refine (List.Perm.cons a ?_).nodup_iff.mpr h.nodup
    exact (reverse_perm mid).append_right [b]

end Surgery

/-! ### Several strands -/

section Several

variable [DecidableEq ι] {m m' : Links α} {ns : ι → List α} {i : ι}

/-- **One strand is replaced**, and the nodes of the others are left alone. -/
theorem Strands.replace (h : Strands m ns) {ns' : List α} (hi : Strand m' ns')
    (hothers : ∀ j, j ≠ i → Strand m' (ns j)) (hapart : ∀ j, j ≠ i → ns'.Disjoint (ns j)) :
    Strands m' (update ns i ns') where
  strand := by
    intro j
    by_cases hj : j = i
    · subst hj
      rwa [update_self]
    · rw [update_of_ne hj]
      exact hothers j hj
  apart := by
    intro j k hjk
    by_cases hj : j = i
    · subst hj
      rw [update_self, update_of_ne hjk.symm]
      exact hapart k hjk.symm
    · rw [update_of_ne hj]
      by_cases hk : k = i
      · subst hk
        rw [update_self]
        exact fun x hx hx' => hapart j hj hx' hx
      · rw [update_of_ne hk]
        exact h.apart j k hjk

variable {a b f l : α} {p q mid : List α}

omit [DecidableEq ι] in
theorem perm_between : (p ++ a :: (mid ++ b :: q)).Perm (mid ++ (p ++ a :: b :: q)) := by
  have hcomm := perm_append_comm_assoc (p ++ [a]) mid (b :: q)
  rwa [append_assoc, append_assoc] at hcomm

variable [DecidableEq α]

/-- **The nodes between two nodes of a strand are taken out.** They stay a chain, outside of all
strands. -/
theorem Strands.cut (h : Strands m ns) (hi : ns i = p ++ a :: (mid ++ b :: q)) :
    Strands (m.join a b) (update ns i (p ++ a :: b :: q)) ∧
      mid.IsChain (m.join a b).Joined ∧ mid.Nodup ∧
      ∀ j, mid.Disjoint (update ns i (p ++ a :: b :: q) j) := by
  have hstrand := h.strand i
  rw [hi] at hstrand
  obtain ⟨hcut, hmid⟩ := hstrand.cut
  have hnodup := perm_between.nodup_iff.mp hstrand.nodup
  have hsub : mid ++ (p ++ a :: b :: q) ⊆ ns i := by
    rw [hi]
    exact perm_between.symm.subset
  have haside : ∀ j, j ≠ i → ∀ x ∈ mid ++ (p ++ a :: b :: q), x ∉ ns j :=
    fun j hj x hx hx' => h.apart j i hj hx' (hsub hx)
  refine ⟨h.replace hcut (fun j hj => ?_) fun j hj x hx => haside j hj x ?_, hmid,
    hnodup.of_append_left, fun j => ?_⟩
  · exact (h.strand j).join_of_notMem (haside j hj a (by simp)) (haside j hj b (by simp))
  · exact mem_append_right _ hx
  · by_cases hj : j = i
    · subst hj
      rw [update_self]
      exact disjoint_of_nodup_append hnodup
    · rw [update_of_ne hj]
      exact fun x hx => haside j hj x (mem_append_left _ hx)

/-- **A chain that belongs to no strand is put between two neighbours.** -/
theorem Strands.paste (h : Strands m ns) (hi : ns i = p ++ a :: b :: q)
    (hmid : mid.IsChain m.Joined) (hf : mid.head? = some f) (hl : mid.getLast? = some l)
    (hnodup : mid.Nodup) (hfree : ∀ j, mid.Disjoint (ns j)) :
    Strands ((m.join a f).join l b) (update ns i (p ++ a :: (mid ++ b :: q))) := by
  have hstrand := h.strand i
  have hfreei := hfree i
  rw [hi] at hstrand hfreei
  have hnodup' : (p ++ a :: (mid ++ b :: q)).Nodup :=
    perm_between.nodup_iff.mpr (hnodup.append hstrand.nodup hfreei)
  have haside : ∀ j, j ≠ i → ∀ x ∈ p ++ a :: (mid ++ b :: q), x ∉ ns j := by
    intro j hj x hx hx'
    rcases mem_append.mp (perm_between.subset hx) with hx | hx
    · exact hfree j hx hx'
    · exact h.apart j i hj hx' (hi ▸ hx)
  refine h.replace (hstrand.paste hmid hf hl hnodup') (fun j hj => ?_) fun j hj x hx => haside j hj x hx
  have hout := haside j hj
  refine ((h.strand j).join_of_notMem (hout a (by simp)) (hout f ?_)).join_of_notMem (hout l ?_)
    (hout b (by simp))
  · simp [mem_of_mem_head? hf]
  · simp [mem_of_mem_getLast? hl]

/-- **A strand is turned round.** -/
theorem Strands.turn (h : Strands m ns) (hi : ns i = a :: (mid ++ [b])) (hturned : m.Turned m' mid)
    (hf : mid.head? = some f) (hl : mid.getLast? = some l) :
    Strands ((m'.join a l).join f b) (update ns i (a :: (mid.reverse ++ [b]))) := by
  have hstrand := h.strand i
  rw [hi] at hstrand
  have haside : ∀ j, j ≠ i → ∀ x ∈ a :: (mid.reverse ++ [b]), x ∉ ns j := by
    intro j hj x hx hx'
    refine h.apart j i hj hx' ?_
    rw [hi]
    simpa using hx
  refine h.replace (hstrand.turn hturned hf hl) (fun j hj => ?_) fun j hj x hx => haside j hj x hx
  have hnot := haside j hj
  have hsame : Strand m' (ns j) := by
    refine (h.strand j).congr fun x hx => ?_
    have hx' := hturned.outside x fun hmem => hnot x (by simp [hmem]) hx
    exact ⟨hx'.2, hx'.1⟩
  refine (hsame.join_of_notMem (hnot a (by simp)) (hnot l ?_)).join_of_notMem (hnot f ?_)
    (hnot b (by simp))
  · simp [mem_of_mem_getLast? hl]
  · simp [mem_of_mem_head? hf]

end Several

end Linked
