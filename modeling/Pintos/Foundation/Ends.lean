import Mathlib.Init

/-!
# Computations that do not fail

A fallible computation is a value of `Except ε α`. `Ends x Q` says that `x` returns, and that what
it returns satisfies `Q`: total correctness. A function of a program gets one theorem of the form
`Ends (f s) Q`, and the theorem of its caller is put together from those with `Ends.bind`, in the
order of the calls; no caller looks into a callee.

`Yields x Q` is the weaker judgement for a computation that may fail for good reason: if it returns,
the result satisfies `Q`.
-/

namespace Total

variable {ε α β : Type}

/-- `x` returns, and its result satisfies `Q`. -/
def Ends (x : Except ε α) (Q : α → Prop) : Prop := ∃ a, x = .ok a ∧ Q a

variable {x : Except ε α} {f : α → Except ε β} {P Q : α → Prop} {R : β → Prop}

theorem Ends.ok {a : α} (h : Q a) : Ends (.ok a : Except ε α) Q := ⟨a, rfl, h⟩

/-- **Composition.** -/
theorem Ends.bind (hx : Ends x P) (hf : ∀ a, P a → Ends (f a) R) : Ends (x >>= f) R := by
  obtain ⟨a, rfl, ha⟩ := hx
  exact hf a ha

/-- Composition with a computation whose result is known. -/
theorem Ends.step {a : α} (hx : x = .ok a) (hf : Ends (f a) R) : Ends (x >>= f) R := by
  subst hx
  exact hf

/-- **Consequence.** -/
theorem Ends.mono (hx : Ends x P) (h : ∀ a, P a → Q a) : Ends x Q := by
  obtain ⟨a, rfl, ha⟩ := hx
  exact ⟨a, rfl, h a ha⟩

/-- Of a computation whose result is known, the result is what matters. -/
theorem Ends.of_eq {a : α} (hx : Ends x Q) (h : x = .ok a) : Q a := by
  obtain ⟨b, rfl, hb⟩ := hx
  cases h
  exact hb

/-- A closed computation can be run. -/
theorem Ends.of_run {p : α → Bool} (h : x.toOption.any p = true) : Ends x fun a => p a = true := by
  cases x with
  | error e => exact absurd h (by simp [Except.toOption])
  | ok a => exact ⟨a, rfl, h⟩

/-- A computation whose first part has a known result is its second part. -/
theorem bind_of_eq_ok {a : α} (h : x = .ok a) (f : α → Except ε β) : (x >>= f) = f a := by
  subst h
  rfl

/-- If `x` returns, its result satisfies `Q`. -/
def Yields (x : Except ε α) (Q : α → Prop) : Prop := ∀ a, x = .ok a → Q a

theorem Ends.yields (hx : Ends x Q) : Yields x Q := fun _ h => hx.of_eq h

theorem Yields.ok {a : α} (h : Q a) : Yields (.ok a : Except ε α) Q := by
  intro b hb
  cases hb
  exact h

theorem Yields.error (e : ε) : Yields (.error e : Except ε α) Q := fun _ h => nomatch h

theorem Yields.bind (hx : Yields x P) (hf : ∀ a, P a → Yields (f a) R) : Yields (x >>= f) R := by
  intro b hb
  cases x with
  | error e => exact nomatch hb
  | ok a => exact hf a (hx a rfl) b hb

theorem Yields.step {a : α} (hx : x = .ok a) (hf : Yields (f a) R) : Yields (x >>= f) R := by
  subst hx
  exact hf

theorem Yields.mono (hx : Yields x P) (h : ∀ a, P a → Q a) : Yields x Q := fun a ha => h a (hx a ha)

end Total
