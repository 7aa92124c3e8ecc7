/-
Module: Yalnix.Lib.Fifo
Purpose: Transition systems that serve a waiting line: entries join at its end, and a step that
  serves takes the first one.
Trusted boundary: none
Main exports: Transition.Counted, Fifo.Discipline, Discipline.position, Discipline.served
-/
import Mathlib.Data.List.Infix
import Yalnix.Lib.Transition

namespace Transition

variable {σ ι : Type*}

/-- A run with the number of its steps that end in a marked state. -/
inductive Counted (step : σ → ι → σ → Prop) (mark : σ → Prop) : σ → Nat → σ → Prop where
  | refl (s : σ) : Counted step mark s 0 s
  | unmarked {s t u : σ} {i : ι} {n : Nat} (first : step s i t) (plain : ¬ mark t)
      (rest : Counted step mark t n u) : Counted step mark s n u
  | marked {s t u : σ} {i : ι} {n : Nat} (first : step s i t) (marks : mark t)
      (rest : Counted step mark t n u) : Counted step mark s (n + 1) u

end Transition

namespace Fifo

open Transition

variable {σ ι α : Type*}

/-- Entries join a line at its end. -/
theorem getElem?_of_joined {old new : List α} {k : Nat} {a : α} (joined : old <+: new)
    (entry : old[k]? = some a) : new[k]? = some a := by
  obtain ⟨last, rfl⟩ := joined
  obtain ⟨inside, value⟩ := List.getElem?_eq_some_iff.mp entry
  rw [List.getElem?_append_left inside]
  exact entry

/-- The system keeps a line while `known` holds: a step that serves nobody lets entries join, and a
step that serves takes the first entry of a line that was not empty. -/
structure Discipline (step : σ → ι → σ → Prop) (known : σ → Prop) (serving : σ → Prop)
    (line : σ → List α) (server : σ → α) : Prop where
  keeps : ∀ s i t, known s → step s i t → known t
  joins : ∀ s i t, known s → step s i t → ¬ serving t → line s <+: line t
  serves : ∀ s i t, known s → step s i t → serving t → line s ≠ [] →
    ∃ rest, line s <+: server t :: rest ∧ rest <+: line t

namespace Discipline

variable {step : σ → ι → σ → Prop} {known serving : σ → Prop} {line : σ → List α}
  {server : σ → α} {s t u : σ} {i : ι} {n k : Nat} {a : α}

/-- The first entry is the one that is served. -/
theorem head (discipline : Discipline step known serving line server) (start : known s)
    (taken : step s i t) (serve : serving t) (entry : (line s)[0]? = some a) : server t = a := by
  have busy : line s ≠ [] := by
    intro empty
    rw [empty] at entry
    cases entry
  obtain ⟨rest, joined, -⟩ := discipline.serves s i t start taken serve busy
  exact Option.some.inj (getElem?_of_joined joined entry)

/-- Every other entry moves up by one. -/
theorem moves_up (discipline : Discipline step known serving line server) (start : known s)
    (taken : step s i t) (serve : serving t) (entry : (line s)[k + 1]? = some a) :
    (line t)[k]? = some a := by
  have busy : line s ≠ [] := by
    intro empty
    rw [empty] at entry
    cases entry
  obtain ⟨rest, joined, left⟩ := discipline.serves s i t start taken serve busy
  have next : (server t :: rest)[k + 1]? = some a := getElem?_of_joined joined entry
  rw [List.getElem?_cons_succ] at next
  exact getElem?_of_joined left next

/-- After `n` services an entry is `n` places further ahead. -/
theorem position (discipline : Discipline step known serving line server) (start : known s)
    (run : Counted step serving s n t) (entry : (line s)[n + k]? = some a) :
    (line t)[k]? = some a := by
  induction run with
  | refl s =>
      rw [Nat.zero_add] at entry
      exact entry
  | unmarked first plain rest inductionHypothesis =>
      apply inductionHypothesis (discipline.keeps _ _ _ start first)
      exact getElem?_of_joined (discipline.joins _ _ _ start first plain) entry
  | marked first marks rest inductionHypothesis =>
      apply inductionHypothesis (discipline.keeps _ _ _ start first)
      rw [Nat.add_right_comm] at entry
      exact discipline.moves_up start first marks entry

/-- What is known stays known along a run. -/
theorem known_after (discipline : Discipline step known serving line server) (start : known s)
    (run : Counted step serving s n t) : known t := by
  induction run with
  | refl s => exact start
  | unmarked first plain rest inductionHypothesis =>
      exact inductionHypothesis (discipline.keeps _ _ _ start first)
  | marked first marks rest inductionHypothesis =>
      exact inductionHypothesis (discipline.keeps _ _ _ start first)

/-- The entry with `n` entries before it is served by the service after `n` others. -/
theorem served (discipline : Discipline step known serving line server) (start : known s)
    (run : Counted step serving s n t) (entry : (line s)[n]? = some a) (taken : step t i u)
    (serve : serving u) : server u = a := by
  have first := discipline.position (k := 0) start run entry
  exact discipline.head (discipline.known_after start run) taken serve first

end Discipline

end Fifo
