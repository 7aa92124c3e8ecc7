/-
Module: Yalnix.Lib.Tally
Purpose: Counting the places at which a token is entered: sums over finitely many places of which
  one changes, and lists that gain or lose one entry.
Trusted boundary: none
Main exports: Tally.sum_exchange, Tally.entry_le_sum, Tally.count_push, Tally.count_pop
-/
import Mathlib.Algebra.BigOperators.Group.Finset.Basic
import Mathlib.Algebra.Order.BigOperators.Group.Finset

namespace Tally

variable {ι α : Type*}

section Sums

variable [Fintype ι] [DecidableEq ι]

/-- A sum over all places, of which one changes. -/
theorem sum_exchange {f g : ι → Nat} (i : ι) (same : ∀ j, j ≠ i → f j = g j) :
    ∑ j, f j + g i = ∑ j, g j + f i := by
  have split : ∀ h : ι → Nat, ∑ j, h j = h i + ∑ j ∈ Finset.univ.erase i, h j :=
    fun h => (Finset.add_sum_erase _ h (Finset.mem_univ i)).symm
  have rest : ∑ j ∈ Finset.univ.erase i, f j = ∑ j ∈ Finset.univ.erase i, g j :=
    Finset.sum_congr rfl fun j member => same j (Finset.ne_of_mem_erase member)
  rw [split f, split g, rest]
  omega

omit [DecidableEq ι] in
/-- The entries of one place are among all entries. -/
theorem entry_le_sum (f : ι → Nat) (i : ι) : f i ≤ ∑ j, f j :=
  Finset.single_le_sum (fun _ _ => Nat.zero_le _) (Finset.mem_univ i)

end Sums

section Lists

variable [DecidableEq α]

/-- Whether two tokens are the same, as a count. -/
def same (a b : α) : Nat := if a = b then 1 else 0

@[simp] theorem same_self (a : α) : same a a = 1 := if_pos rfl

theorem same_of_ne {a b : α} (different : a ≠ b) : same a b = 0 := if_neg different

theorem same_le_one (a b : α) : same a b ≤ 1 := by
  unfold same
  split
  · exact Nat.le_refl 1
  · exact Nat.zero_le 1

/-- A list that may gain an entry at its end. -/
theorem count_push (l : List α) (a b : α) (kept : Bool) :
    (if kept then l ++ [a] else l).count b = l.count b + if kept then same a b else 0 := by
  rcases kept with _ | _
  · simp
  · by_cases equal : a = b
    · subst equal
      simp
    · simp [same_of_ne equal, equal]

/-- A list that loses its head. -/
theorem count_pop (l : List α) (a b : α) : (a :: l).count b = l.count b + same a b := by
  by_cases equal : a = b
  · subst equal
    simp
  · simp [same_of_ne equal, equal]

/-- A list that loses the first entry of a token. -/
theorem count_remove (l : List α) (a b : α) : (l.erase a).count b = l.count b - same a b := by
  by_cases equal : a = b
  · subst equal
    simp
  · rw [same_of_ne equal, List.count_erase_of_ne (fun other => equal other.symm), Nat.sub_zero]

end Lists

end Tally
