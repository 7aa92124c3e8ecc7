/-
Module: Yalnix.Lib.Transition
Purpose: Labelled transition systems: what is reachable, runs that keep to a guard, the
  invariant rule, and runs with the list of their labels.
Trusted boundary: none
Main exports: Transition.Reaches, Transition.Guarded, Transition.Preserves, Reaches.invariant,
  Transition.Trace, Trace.simulated
-/
import Mathlib.Logic.Relation

namespace Transition

variable {σ ι : Type*}

/-- `t` is reached from `s` by finitely many labelled steps. -/
def Reaches (step : σ → ι → σ → Prop) : σ → σ → Prop :=
  Relation.ReflTransGen fun s t => ∃ i, step s i t

/-- The steps whose label is allowed in the state it is taken from. -/
def Guarded (step : σ → ι → σ → Prop) (guard : σ → ι → Prop) (s : σ) (i : ι) (t : σ) : Prop :=
  guard s i ∧ step s i t

/-- Every step keeps the predicate. -/
def Preserves (step : σ → ι → σ → Prop) (P : σ → Prop) : Prop :=
  ∀ s i t, P s → step s i t → P t

namespace Reaches

variable {step step' : σ → ι → σ → Prop} {s t u : σ}

theorem refl (s : σ) : Reaches step s s := Relation.ReflTransGen.refl

theorem tail (run : Reaches step s t) {i : ι} (last : step t i u) : Reaches step s u :=
  Relation.ReflTransGen.tail run ⟨i, last⟩

theorem trans (first : Reaches step s t) (second : Reaches step t u) : Reaches step s u :=
  Relation.ReflTransGen.trans first second

/-- A preserved predicate that holds at the start holds wherever a run leads. -/
theorem invariant {P : σ → Prop} (preserved : Preserves step P) (run : Reaches step s t)
    (start : P s) : P t := by
  induction run with
  | refl => exact start
  | tail _ last inductionHypothesis =>
      obtain ⟨i, taken⟩ := last
      exact preserved _ i _ inductionHypothesis taken

/-- A run is a run of every system that has its steps. -/
theorem mono (sub : ∀ s i t, step s i t → step' s i t) (run : Reaches step s t) :
    Reaches step' s t := by
  induction run with
  | refl => exact refl s
  | tail _ last inductionHypothesis =>
      obtain ⟨i, taken⟩ := last
      exact inductionHypothesis.tail (sub _ i _ taken)

/-- The same, if the steps have other labels there. -/
theorem relabel {κ : Type*} {step' : σ → κ → σ → Prop}
    (sub : ∀ s i t, step s i t → ∃ k, step' s k t) (run : Reaches step s t) :
    Reaches step' s t := by
  induction run with
  | refl => exact refl s
  | tail _ last inductionHypothesis =>
      obtain ⟨i, taken⟩ := last
      obtain ⟨k, taken'⟩ := sub _ i _ taken
      exact inductionHypothesis.tail taken'

/-- Forgetting the guard of a run. -/
theorem unguarded {guard : σ → ι → Prop} (run : Reaches (Guarded step guard) s t) :
    Reaches step s t :=
  run.mono fun _ _ _ guarded => guarded.2

end Reaches

/-- A run with its labels, first one first. -/
inductive Trace (step : σ → ι → σ → Prop) (s : σ) : List ι → σ → Prop where
  | nil : Trace step s [] s
  | snoc {labels : List ι} {i : ι} {t u : σ} (run : Trace step s labels t) (last : step t i u) :
      Trace step s (labels ++ [i]) u

theorem Trace.cons {step : σ → ι → σ → Prop} {s t u : σ} {labels : List ι} {i : ι}
    (first : step s i t) (trace : Trace step t labels u) : Trace step s (i :: labels) u := by
  induction trace with
  | nil => exact Trace.nil.snoc first
  | snoc _ last inductionHypothesis => exact inductionHypothesis.snoc last

/-- The end of a trace is reached. -/
theorem Trace.reaches {step : σ → ι → σ → Prop} {s t : σ} {labels : List ι}
    (trace : Trace step s labels t) : Reaches step s t := by
  induction trace with
  | nil => exact Reaches.refl s
  | snoc _ last inductionHypothesis => exact inductionHypothesis.tail last

/-- A system whose steps are matched by those of another one has its traces. -/
theorem Trace.simulated {α : Type*} {step : σ → ι → σ → Prop} {step' : α → ι → α → Prop}
    {R : σ → α → Prop} (matched : ∀ s i t a, R s a → step s i t → ∃ b, step' a i b ∧ R t b)
    {s t : σ} {a : α} {labels : List ι} (trace : Trace step s labels t) (start : R s a) :
    ∃ b, Trace step' a labels b ∧ R t b := by
  induction trace with
  | nil => exact ⟨a, Trace.nil, start⟩
  | snoc _ last inductionHypothesis =>
      obtain ⟨b, before, related⟩ := inductionHypothesis
      obtain ⟨c, taken, related'⟩ := matched _ _ _ _ related last
      exact ⟨c, before.snoc taken, related'⟩

end Transition
