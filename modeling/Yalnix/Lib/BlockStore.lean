/-
Module: Yalnix.Lib.BlockStore
Purpose: Memory as a program that allocates it sees it: blocks of data at addresses, no two of which
  overlap, that are added, erased and written.
Trusted boundary: none
Main exports: BlockStore, BlockStore.erase, BlockStore.store, BlockStore.Added
-/
import Mathlib.Data.List.Basic
import Mathlib.Logic.Function.Basic

/-- Blocks of data, each at its address; different blocks lie apart. -/
@[ext]
structure BlockStore (β : Type*) where
  block : Nat → Option (List β)
  apart : ∀ p q data data', block p = some data → block q = some data' →
    p = q ∨ p + data.length ≤ q ∨ q + data'.length ≤ p

namespace BlockStore

variable {β : Type*} {s s' : BlockStore β} {p q addr : Nat} {data data' bytes : List β}

/-- Blocks that are those of before and one more. -/
theorem eq_update_of_iff {f g : Nat → Option (List β)} (absent : f p = none)
    (blocks : ∀ q data', g q = some data' ↔ (q = p ∧ data' = data) ∨ f q = some data') :
    g = Function.update f p (some data) := by
  refine funext fun q => Option.ext fun data' => ?_
  rw [blocks]
  by_cases here : q = p
  · rw [here, Function.update_self, absent]
    simp [eq_comm]
  · rw [Function.update_of_ne here]
    simp [here]

/-- No blocks at all. -/
def empty : BlockStore β := ⟨fun _ => none, fun _ _ _ _ none => nomatch none⟩

/-- The block at an address is given back. -/
def erase (s : BlockStore β) (p : Nat) : BlockStore β where
  block := Function.update s.block p none
  apart q r data data' first second := by
    have kept (x : Nat) (d : List β) (found : Function.update s.block p none x = some d) :
        s.block x = some d := by
      by_cases here : x = p
      · rw [here, Function.update_self] at found
        cases found
      · rwa [Function.update_of_ne here] at found
    exact s.apart q r data data' (kept q data first) (kept r data' second)

@[simp] theorem erase_block_self : (s.erase p).block p = none := Function.update_self ..

theorem erase_block_of_ne (other : q ≠ p) : (s.erase p).block q = s.block q :=
  Function.update_of_ne other ..

/-- A new block at an address that has none. -/
def Added (s s' : BlockStore β) (p : Nat) (data : List β) : Prop :=
  s.block p = none ∧ s'.block = Function.update s.block p (some data)

theorem Added.block_of_some (added : s.Added s' p data) (old : s.block q = some data') :
    s'.block q = some data' := by
  have other : q ≠ p := by
    rintro rfl
    cases added.1.symm.trans old
  rw [added.2, Function.update_of_ne other, old]

/-- The data of a block at `p` once `bytes` are written from `addr` on. -/
def overwrite (p : Nat) (data : List β) (addr : Nat) (bytes : List β) : List β :=
  data.mapIdx fun i b => if addr ≤ p + i then bytes.getD (p + i - addr) b else b

@[simp] theorem length_overwrite : (overwrite p data addr bytes).length = data.length := by
  simp [overwrite]

/-- Write `bytes` from `addr` on, wherever there are blocks. -/
def store (s : BlockStore β) (addr : Nat) (bytes : List β) : BlockStore β where
  block p := (s.block p).map fun data => overwrite p data addr bytes
  apart p q data data' first second := by
    obtain ⟨old, here, rfl⟩ := Option.map_eq_some_iff.mp first
    obtain ⟨old', there, rfl⟩ := Option.map_eq_some_iff.mp second
    rw [length_overwrite, length_overwrite]
    exact s.apart p q old old' here there

theorem overwrite_apart (apart : p + data.length ≤ addr ∨ addr + bytes.length ≤ p) :
    overwrite p data addr bytes = data := by
  apply List.ext_getElem length_overwrite
  intro i inside inside'
  simp only [overwrite, List.getElem_mapIdx]
  split
  · rename_i reached
    have beyond : bytes.length ≤ p + i - addr := by omega
    simp [beyond]
  · rfl

end BlockStore
