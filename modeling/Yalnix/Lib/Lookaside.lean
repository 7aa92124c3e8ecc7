/-
Module: Yalnix.Lib.Lookaside
Purpose: Lookaside buffers: a partial copy of a table that is filled on a miss and emptied by
  flushes, and the rules by which it stays a faithful copy while the table changes.
Trusted boundary: none
Main exports: Lookaside, Lookaside.fill, Lookaside.flush, Lookaside.Coherent, Coherent.retable,
  Coherent.retable_flush
-/
import Mathlib.Logic.Function.Basic

/-- The entries of a table that are held for its keys, where any is. -/
abbrev Lookaside (Key Entry : Type*) := Key → Option Entry

namespace Lookaside

variable {Key Entry : Type*} {buffer : Lookaside Key Entry} {table table' : Key → Entry}
  {usable : Entry → Prop} {flushed : Key → Prop}

def empty : Lookaside Key Entry := fun _ => none

/-- Look a key up: a miss takes the table's entry, if it is usable. -/
def fill [DecidableEq Key] (usable : Entry → Prop) [DecidablePred usable]
    (buffer : Lookaside Key Entry) (table : Key → Entry) (key : Key) : Lookaside Key Entry :=
  if buffer key = none ∧ usable (table key) then Function.update buffer key (some (table key))
  else buffer

/-- Drop the entries of the flushed keys. -/
def flush (buffer : Lookaside Key Entry) (flushed : Key → Prop) [DecidablePred flushed] :
    Lookaside Key Entry :=
  fun key => if flushed key then none else buffer key

/-- Every entry held is the table's, and usable. -/
def Coherent (usable : Entry → Prop) (buffer : Lookaside Key Entry) (table : Key → Entry) : Prop :=
  ∀ key entry, buffer key = some entry → table key = entry ∧ usable entry

theorem flush_eq_some [DecidablePred flushed] {key : Key} {entry : Entry} :
    buffer.flush flushed key = some entry ↔ ¬ flushed key ∧ buffer key = some entry := by
  unfold flush
  split
  · rename_i dropped
    simp [dropped]
  · rename_i kept
    simp [kept]

theorem flush_eq_none [DecidablePred flushed] {key : Key} (absent : buffer key = none) :
    buffer.flush flushed key = none := by
  unfold flush
  rw [absent, ite_self]

namespace Coherent

theorem empty : Coherent usable Lookaside.empty table := fun _ _ held => by cases held

/-- A key whose entry is not usable is not held. -/
theorem eq_none (coherent : Coherent usable buffer table) {key : Key}
    (unusable : ¬ usable (table key)) : buffer key = none := by
  rcases held : buffer key with _ | entry
  · rfl
  · obtain ⟨same, fit⟩ := coherent key entry held
    rw [← same] at fit
    exact absurd fit unusable

theorem fill [DecidableEq Key] [DecidablePred usable] (coherent : Coherent usable buffer table)
    (key : Key) : Coherent usable (buffer.fill usable table key) table := by
  unfold Lookaside.fill
  by_cases miss : buffer key = none ∧ usable (table key)
  · rw [if_pos miss]
    intro other entry held
    by_cases same : other = key
    · subst same
      rw [Function.update_self, Option.some.injEq] at held
      subst held
      exact ⟨rfl, miss.2⟩
    · rw [Function.update_of_ne same] at held
      exact coherent other entry held
  · rw [if_neg miss]
    exact coherent

/-- The table may change at the keys that are not held. -/
theorem retable (coherent : Coherent usable buffer table)
    (same : ∀ key, buffer key ≠ none → table' key = table key) :
    Coherent usable buffer table' := by
  intro key entry held
  rw [same key (by rw [held]; exact Option.some_ne_none entry)]
  exact coherent key entry held

/-- The table may change at the keys that are flushed afterwards or not held. -/
theorem retable_flush [DecidablePred flushed] (coherent : Coherent usable buffer table)
    (same : ∀ key, ¬ flushed key → buffer key ≠ none → table' key = table key) :
    Coherent usable (buffer.flush flushed) table' := by
  intro key entry held
  obtain ⟨kept, held⟩ := flush_eq_some.mp held
  rw [same key kept (by rw [held]; exact Option.some_ne_none entry)]
  exact coherent key entry held

end Coherent

end Lookaside
