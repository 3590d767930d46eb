import Mathlib.Data.List.Basic

/-!
# Runs of a guarded, failing transition system

A system is a step function `step : State → Event → Except Fault State`: an event either
leads to one next state or stops the system with a fault. A run is recorded together with
its **history**, the list of pairs (state, event taken there), the latest first. A `Guard`
restricts which events a run may take in which states; every assumption on the environment
(when an interrupt may come, which arguments a caller may pass) is such a guard, so that one
step function serves every set of assumptions.

* `Run step G s₀ h s` — a run from `s₀` to `s` with history `h`, every step of it meeting `G`.
* `Run.invariant` / `Run.invariant_history` — the two induction rules: over the states of a
  run, and over the states together with the history that led there.
* `Run.mono` — a run under a stronger guard is a run under a weaker one.
* `play` — executes a list of events, checking a decidable guard at every step;
  `exists_run_of_play` turns a successful execution into a run.
-/

namespace Transition

variable {State Event Fault : Type}

/-- Which events may be taken in which states. -/
abbrev Guard (State Event : Type) := State → Event → Prop

/-- `Run step G s₀ h s`: the system gets from `s₀` to `s`, every step meets `G`, and `h`
lists the states and events of the run, the latest first. -/
inductive Run (step : State → Event → Except Fault State) (G : Guard State Event)
    (s₀ : State) : List (State × Event) → State → Prop where
  | refl : Run step G s₀ [] s₀
  | tail {h : List (State × Event)} {s s' : State} {e : Event} :
      Run step G s₀ h s → G s e → step s e = .ok s' → Run step G s₀ ((s, e) :: h) s'

variable {step : State → Event → Except Fault State} {G G' : Guard State Event} {s₀ : State}

/-- **Invariant rule.** What holds initially and is kept by every step that meets the guard
holds in every state of a run. -/
theorem Run.invariant {I : State → Prop} (h₀ : I s₀)
    (hstep : ∀ s e s', I s → G s e → step s e = .ok s' → I s')
    {h : List (State × Event)} {s : State} (hrun : Run step G s₀ h s) : I s := by
  induction hrun with
  | refl => exact h₀
  | tail _ hG hs ih => exact hstep _ _ _ ih hG hs

/-- **Invariant rule with history.** The invariant may also speak of the steps taken so
far. -/
theorem Run.invariant_history {I : List (State × Event) → State → Prop} (h₀ : I [] s₀)
    (hstep : ∀ h s e s', I h s → G s e → step s e = .ok s' → I ((s, e) :: h) s')
    {h : List (State × Event)} {s : State} (hrun : Run step G s₀ h s) : I h s := by
  induction hrun with
  | refl => exact h₀
  | tail _ hG hs ih => exact hstep _ _ _ _ ih hG hs

/-- Weakening the guard keeps a run. -/
theorem Run.mono (hG : ∀ s e, G s e → G' s e) {h : List (State × Event)} {s : State}
    (hrun : Run step G s₀ h s) : Run step G' s₀ h s := by
  induction hrun with
  | refl => exact .refl
  | tail _ hg hs ih => exact .tail ih (hG _ _ hg) hs

/-! ### Executing a list of events -/

/-- Runs the events in order from a state reached with history `h`, checking the guard `g` before
every step, and returns the history and the state it ends in. -/
def playFrom (step : State → Event → Except Fault State) (g : State → Event → Bool) :
    List (State × Event) → State → List Event → Option (List (State × Event) × State)
  | h, s, [] => some (h, s)
  | h, s, e :: es =>
    match g s e, step s e with
    | true, .ok s' => playFrom step g ((s, e) :: h) s' es
    | _, _ => none

/-- Runs the events in order, from the start. -/
def play (step : State → Event → Except Fault State) (g : State → Event → Bool) (s₀ : State)
    (es : List Event) : Option (List (State × Event) × State) :=
  playFrom step g [] s₀ es

/-- A successful execution extends a run by its steps. -/
theorem Run.append_play {g : State → Event → Bool} (hg : ∀ s e, g s e = true → G s e) :
    ∀ (es : List Event) {h h' : List (State × Event)} {s t : State}, Run step G s₀ h s →
      playFrom step g h s es = some (h', t) → Run step G s₀ h' t := by
  intro es
  induction es with
  | nil =>
    intro h h' s t hrun hplay
    cases hplay
    exact hrun
  | cons e es ih =>
    intro h h' s t hrun hplay
    rw [playFrom] at hplay
    split at hplay
    · next s' hgs hst => exact ih (.tail hrun (hg _ _ hgs) hst) hplay
    · cases hplay

/-- **Executions are runs.** A successful `play` with a property is a run with it. -/
theorem exists_run_of_play {g : State → Event → Bool} (hg : ∀ s e, g s e = true → G s e)
    {es : List Event} {p : List (State × Event) → State → Bool}
    (hplay : (play step g s₀ es).any (fun r => p r.1 r.2) = true) :
    ∃ h s, Run step G s₀ h s ∧ p h s = true := by
  cases hr : play step g s₀ es with
  | none =>
    rw [hr] at hplay
    cases hplay
  | some r =>
    rw [hr] at hplay
    exact ⟨r.1, r.2, Run.append_play hg es .refl hr, hplay⟩

end Transition
