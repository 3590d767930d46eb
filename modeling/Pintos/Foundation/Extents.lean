import Mathlib.Order.Interval.Finset.Nat

/-!
# Items that tile a set of cells

An item that starts at cell `p` and is `width` cells wide occupies the cells `p`, …,
`p + width - 1`. A partial map from cells to the items that start there **tiles** a set of cells
when the items do not overlap and together occupy exactly that set. A page allocator that hands out
groups of pages, and whoever writes down where the groups are, keep such a tiling.

* `Tiles.eq_of_mem` — no cell lies in two items;
* `Tiles.place`, `Tiles.lift`, `Tiles.replace` — an item is put on free cells, taken away, or
  exchanged for one of the same width.
-/

namespace Extents

open Function

variable {α : Type}

/-- The items of `items` are nonempty, do not overlap and occupy exactly `held`. -/
structure Tiles (width : α → ℕ) (items : ℕ → Option α) (held : Finset ℕ) : Prop where
  pos : ∀ {p a}, items p = some a → 0 < width a
  mem : ∀ {p a q}, items p = some a → p ≤ q → q < p + width a → q ∈ held
  apart : ∀ {p a q}, items p = some a → p < q → q < p + width a → items q = none
  covered : ∀ {q}, q ∈ held → ∃ p a, items p = some a ∧ p ≤ q ∧ q < p + width a

variable {width : α → ℕ} {items : ℕ → Option α} {held : Finset ℕ} {p q r : ℕ} {a b : α}

theorem tiles_empty : Tiles width (fun _ => none) ∅ where
  pos h := nomatch h
  mem h := nomatch h
  apart h := nomatch h
  covered h := absurd h (Finset.notMem_empty _)

namespace Tiles

theorem start_mem (h : Tiles width items held) (hp : items p = some a) : p ∈ held :=
  h.mem hp le_rfl (by have := h.pos hp; omega)

/-- An item ends before the next one starts. -/
theorem add_width_le (h : Tiles width items held) (hp : items p = some a) (hq : items q = some b)
    (hlt : p < q) : p + width a ≤ q := by
  by_contra hover
  have hnone := h.apart hp hlt (by omega)
  simp [hq] at hnone

/-- **No cell lies in two items.** -/
theorem eq_of_mem (h : Tiles width items held) (hp : items p = some a) (hq : items q = some b)
    (hpr : p ≤ r ∧ r < p + width a) (hqr : q ≤ r ∧ r < q + width b) : p = q := by
  obtain hlt | heq | hgt := lt_trichotomy p q
  · have := h.add_width_le hp hq hlt
    omega
  · exact heq
  · have := h.add_width_le hq hp hgt
    omega

/-- An item is put on cells that are free. -/
theorem place (h : Tiles width items held) (hpos : 0 < width a)
    (hfree : ∀ q, p ≤ q → q < p + width a → q ∉ held) :
    Tiles width (update items p (some a)) (held ∪ Finset.Ico p (p + width a)) := by
  have hnew : ∀ {r b}, update items p (some a) r = some b →
      (r = p ∧ b = a) ∨ (r ≠ p ∧ items r = some b) := by
    intro r b hr
    by_cases hrp : r = p
    · subst hrp
      rw [update_self] at hr
      exact .inl ⟨rfl, (Option.some.inj hr).symm⟩
    · rw [update_of_ne hrp] at hr
      exact .inr ⟨hrp, hr⟩
  refine ⟨fun hr => ?_, fun hr hlo hhi => ?_, fun {r b q} hr hlo hhi => ?_, fun {q} hq => ?_⟩
  · obtain ⟨rfl, rfl⟩ | ⟨-, hr⟩ := hnew hr
    · exact hpos
    · exact h.pos hr
  · obtain ⟨rfl, rfl⟩ | ⟨-, hr⟩ := hnew hr
    · exact Finset.mem_union_right _ (Finset.mem_Ico.mpr ⟨hlo, hhi⟩)
    · exact Finset.mem_union_left _ (h.mem hr hlo hhi)
  · obtain ⟨rfl, rfl⟩ | ⟨hrp, hold⟩ := hnew hr
    · rw [update_of_ne (by omega)]
      -- An item that started inside the new one would occupy a cell that is free.
      by_contra hsome
      obtain ⟨b', hb'⟩ := Option.ne_none_iff_exists'.mp hsome
      exact hfree q (by omega) hhi (h.start_mem hb')
    · have hqp : q ≠ p := by
        rintro rfl
        exact hfree q le_rfl (by omega) (h.mem hold (by omega) hhi)
      rw [update_of_ne hqp]
      exact h.apart hold hlo hhi
  · obtain hq | hq := Finset.mem_union.mp hq
    · obtain ⟨r, b, hr, hlo, hhi⟩ := h.covered hq
      have hrp : r ≠ p := by
        rintro rfl
        exact hfree r le_rfl (by omega) (h.start_mem hr)
      exact ⟨r, b, by rw [update_of_ne hrp]; exact hr, hlo, hhi⟩
    · obtain ⟨hlo, hhi⟩ := Finset.mem_Ico.mp hq
      exact ⟨p, a, update_self .., hlo, hhi⟩

/-- An item is taken away: nothing starts on its cells any more. -/
theorem lift (h : Tiles width items held) (hp : items p = some a) :
    Tiles width (fun q => if p ≤ q ∧ q < p + width a then none else items q)
      (held \ Finset.Ico p (p + width a)) := by
  have hold : ∀ {r b}, (if p ≤ r ∧ r < p + width a then none else items r) = some b →
      ¬ (p ≤ r ∧ r < p + width a) ∧ items r = some b := by
    intro r b hr
    split at hr
    · exact nomatch hr
    · exact ⟨‹_›, hr⟩
  refine ⟨fun hr => ?_, fun {r b q} hr hlo hhi => ?_, fun hr hlo hhi => ?_, fun {q} hq => ?_⟩
  · exact h.pos (hold hr).2
  · obtain ⟨hout, hr⟩ := hold hr
    refine Finset.mem_sdiff.mpr ⟨h.mem hr hlo hhi, fun hin => hout ?_⟩
    have heq := h.eq_of_mem hp hr (Finset.mem_Ico.mp hin) ⟨hlo, hhi⟩
    have := h.pos hp
    omega
  · split
    · rfl
    · exact h.apart (hold hr).2 hlo hhi
  · obtain ⟨hq, hout⟩ := Finset.mem_sdiff.mp hq
    obtain ⟨r, b, hr, hlo, hhi⟩ := h.covered hq
    refine ⟨r, b, ?_, hlo, hhi⟩
    rw [if_neg, hr]
    intro hin
    have heq := h.eq_of_mem hp hr hin ⟨le_rfl, by omega⟩
    subst heq
    rw [hp] at hr
    cases hr
    exact hout (Finset.mem_Ico.mpr ⟨hlo, hhi⟩)

/-- An item is exchanged for one of the same width. -/
theorem replace (h : Tiles width items held) (hp : items p = some a) (hw : width b = width a) :
    Tiles width (update items p (some b)) held := by
  have hold : ∀ {r c}, update items p (some b) r = some c →
      ∃ c', items r = some c' ∧ width c' = width c := by
    intro r c hr
    by_cases hrp : r = p
    · subst hrp
      rw [update_self] at hr
      cases hr
      exact ⟨a, hp, hw.symm⟩
    · rw [update_of_ne hrp] at hr
      exact ⟨c, hr, rfl⟩
  refine ⟨fun hr => ?_, fun hr hlo hhi => ?_, fun {r c q} hr hlo hhi => ?_, fun {q} hq => ?_⟩
  · obtain ⟨c', hc', hwc⟩ := hold hr
    exact hwc ▸ h.pos hc'
  · obtain ⟨c', hc', hwc⟩ := hold hr
    exact h.mem hc' hlo (hwc ▸ hhi)
  · obtain ⟨c', hc', hwc⟩ := hold hr
    have hnone := h.apart hc' hlo (hwc ▸ hhi)
    rw [update_of_ne, hnone]
    rintro rfl
    simp [hp] at hnone
  · obtain ⟨r, c, hr, hlo, hhi⟩ := h.covered hq
    by_cases hrp : r = p
    · subst hrp
      rw [hp] at hr
      cases hr
      exact ⟨r, b, update_self .., hlo, hw ▸ hhi⟩
    · exact ⟨r, c, by rw [update_of_ne hrp]; exact hr, hlo, hhi⟩

end Tiles

end Extents
