/-
Module: Yalnix.Lib.Linked
Purpose: Doubly linked lists in a store of cells: the segment between two pointers, what it shows
  of its cells, and how it changes when a cell at one of its ends is linked anew.
Trusted boundary: none
Main exports: Linked.first, Linked.last, Linked.Segment, segment_append, Segment.congr,
  Segment.exchange, Segment.follow, Segment.relinkNext, Segment.relinkPrev
-/
import Mathlib.Data.List.Nodup
import Mathlib.Logic.Function.Basic

namespace Linked

variable {κ ν α : Type*} {entries front back : List (κ × α)} {before after : Option κ}

/-- The address of the first entry, or the pointer that follows an empty segment. -/
def first (after : Option κ) : List (κ × α) → Option κ
  | [] => after
  | (k, _) :: _ => some k

/-- The address of the last entry, or the pointer that precedes an empty segment. -/
def last (before : Option κ) : List (κ × α) → Option κ
  | [] => before
  | (k, _) :: rest => last (some k) rest

@[simp] theorem first_nil : first after ([] : List (κ × α)) = after := rfl
@[simp] theorem first_cons {k : κ} {x : α} : first after ((k, x) :: entries) = some k := rfl
@[simp] theorem last_nil : last before ([] : List (κ × α)) = before := rfl
@[simp] theorem last_cons {k : κ} {x : α} :
    last before ((k, x) :: entries) = last (some k) entries := rfl

theorem first_append : first after (front ++ back) = first (first after back) front := by
  cases front with
  | nil => rfl
  | cons entry rest => rfl

theorem last_append : last before (front ++ back) = last (last before front) back := by
  induction front generalizing before with
  | nil => rfl
  | cons entry rest inductionHypothesis => exact inductionHypothesis

theorem first_eq_none : first none entries = none ↔ entries = [] := by
  cases entries with
  | nil => simp
  | cons entry rest => simp [first]

theorem last_eq_none : last none entries = none ↔ entries = [] := by
  rcases List.eq_nil_or_concat' entries with rfl | ⟨rest, ⟨k, x⟩, rfl⟩
  · simp
  · simp [last_append]

/-- The cells of the entries, in order, lie between the pointers `before` and `after`: each cell is
its item with the address of the next cell and that of the previous one.  `cell` builds a cell. -/
def Segment (cell : α → Option κ → Option κ → ν) (cells : κ → Option ν) :
    Option κ → List (κ × α) → Option κ → Prop
  | _, [], _ => True
  | before, (k, x) :: rest, after =>
      cells k = some (cell x (first after rest) before) ∧ Segment cell cells (some k) rest after

variable {cell : α → Option κ → Option κ → ν} {cells cells' : κ → Option ν}

@[simp] theorem segment_nil : Segment cell cells before [] after := trivial

theorem segment_cons {k : κ} {x : α} : Segment cell cells before ((k, x) :: entries) after ↔
    cells k = some (cell x (first after entries) before) ∧
      Segment cell cells (some k) entries after := Iff.rfl

/-- A segment is cut anywhere. -/
theorem segment_append : Segment cell cells before (front ++ back) after ↔
    Segment cell cells before front (first after back) ∧
      Segment cell cells (last before front) back after := by
  induction front generalizing before with
  | nil => simp
  | cons entry rest inductionHypothesis =>
      obtain ⟨k, x⟩ := entry
      rw [List.cons_append, segment_cons, segment_cons, inductionHypothesis, first_append,
        last_cons, and_assoc]

namespace Segment

/-- A segment reads the cells of its entries alone. -/
theorem congr (chain : Segment cell cells before entries after)
    (agree : ∀ k ∈ entries.map Prod.fst, cells' k = cells k) :
    Segment cell cells' before entries after := by
  induction entries generalizing before with
  | nil => trivial
  | cons entry rest inductionHypothesis =>
      obtain ⟨k, x⟩ := entry
      obtain ⟨here, later⟩ := chain
      refine ⟨?_, inductionHypothesis later fun j listed => agree j (List.mem_cons_of_mem _ listed)⟩
      rw [agree k List.mem_cons_self, here]

/-- The cell of an entry. -/
theorem cell_eq {k : κ} {x : α}
    (chain : Segment cell cells before (front ++ (k, x) :: back) after) :
    cells k = some (cell x (first after back) (last before front)) :=
  (segment_append.mp chain).2.1

/-- Every address of a segment has a cell. -/
theorem isSome (chain : Segment cell cells before entries after) {k : κ}
    (listed : k ∈ entries.map Prod.fst) : (cells k).isSome := by
  obtain ⟨⟨_, x⟩, member, rfl⟩ := List.mem_map.mp listed
  obtain ⟨front, back, rfl⟩ := List.append_of_mem member
  rw [chain.cell_eq]
  rfl

/-- The middle of a segment is exchanged for one that begins with the same cell, if anything follows
it is linked to the new middle. -/
theorem exchange {middle middle' : List (κ × α)}
    (chain : Segment cell cells before (front ++ (middle ++ back)) after)
    (start : first (first after back) middle' = first (first after back) middle)
    (agree : ∀ k ∈ front.map Prod.fst, cells' k = cells k)
    (placed : Segment cell cells' (last before front) middle' (first after back))
    (follow : Segment cell cells' (last (last before front) middle') back after) :
    Segment cell cells' before (front ++ (middle' ++ back)) after := by
  rw [segment_append, first_append] at chain ⊢
  refine ⟨?_, segment_append.mpr ⟨placed, follow⟩⟩
  rw [start]
  exact chain.1.congr agree

/-- What follows is linked to another predecessor. -/
theorem follow {before' : Option κ} (chain : Segment cell cells before entries after)
    (head : ∀ k x rest, entries = (k, x) :: rest →
      cells' k = some (cell x (first after rest) before'))
    (agree : ∀ k ∈ entries.tail.map Prod.fst, cells' k = cells k) :
    Segment cell cells' before' entries after := by
  cases entries with
  | nil => trivial
  | cons entry rest =>
      obtain ⟨k, x⟩ := entry
      exact ⟨head k x rest rfl, chain.2.congr agree⟩

variable [DecidableEq κ]

/-- Cells elsewhere do not matter. -/
theorem update_of_notMem (chain : Segment cell cells before entries after) {k : κ}
    (elsewhere : k ∉ entries.map Prod.fst) (value : Option ν) :
    Segment cell (Function.update cells k value) before entries after := by
  refine chain.congr fun j listed => Function.update_of_ne ?_ ..
  rintro rfl
  exact elsewhere listed

/-- The last cell is given another successor. -/
theorem relinkNext {k : κ} {x : α} (chain : Segment cell cells before (front ++ [(k, x)]) after)
    (distinct : ((front ++ [(k, x)]).map Prod.fst).Nodup) (after' : Option κ) :
    Segment cell (Function.update cells k (some (cell x after' (last before front)))) before
      (front ++ [(k, x)]) after' := by
  have elsewhere : k ∉ front.map Prod.fst := by
    rw [List.map_append, List.nodup_append] at distinct
    intro listed
    exact distinct.2.2 k listed k (by simp) rfl
  rw [segment_append] at chain ⊢
  refine ⟨chain.1.update_of_notMem elsewhere _, ?_, segment_nil⟩
  rw [Function.update_self]
  rfl

/-- The first cell is given another predecessor. -/
theorem relinkPrev {k : κ} {x : α} (chain : Segment cell cells before ((k, x) :: back) after)
    (distinct : (((k, x) :: back).map Prod.fst).Nodup) (before' : Option κ) :
    Segment cell (Function.update cells k (some (cell x (first after back) before'))) before'
      ((k, x) :: back) after := by
  have elsewhere : k ∉ back.map Prod.fst := (List.nodup_cons.mp distinct).1
  refine ⟨Function.update_self .., ?_⟩
  exact chain.2.update_of_notMem elsewhere _

end Segment

end Linked
