/-
Module: Yalnix.Proofs.Slots
Purpose: Which slots of the process table are in use, compared with the PCBs that exist.
Trusted boundary: the hardware library hands out no pid that equals the error code
Main exports: Kernel.SlotsRecycled, slots_recycled_iff
-/
import Mathlib.Data.Set.Card
import Mathlib.Order.Interval.Finset.Nat
import Yalnix.Proofs.Always
import Yalnix.Proofs.Family

namespace Yalnix.Kernel

open Transition

variable {env : Env} {cfg : BootConfig} {guard : Kernel → Input → Prop} {boot s : Kernel}

/-- The slots of `proc_table` that are not `NULL`. -/
def usedSlots (s : Kernel) : Set Nat := { i | i < maxProcs ∧ s.procTable i ≠ none }

/-- The PCBs that were created and not freed. -/
def existingPcbs (s : Kernel) : Set PcbPtr := { p | s.heap p ≠ none }

/-- As many slots are used as processes exist, so that the table is full only when there are
`MAX_PROCS` of them, and no slot points to a freed PCB. -/
structure SlotsRecycled (s : Kernel) : Prop where
  count : s.usedSlots.ncard = s.existingPcbs.ncard
  full : s.freeSlot = none → s.existingPcbs.ncard = maxProcs
  live : ∀ i p, i < maxProcs → s.procTable i = some p → s.heap p ≠ none

/-- Some `Wait` came back with the pid of a child. -/
def WaitReaped (s : Kernel) : Prop :=
  ∃ p statusPtr rc, rc ≠ Status.error.code ∧ .waitReturned p statusPtr rc ∈ s.history

/-- The slots used are those of all PCBs ever created. -/
theorem usedSlots_eq (inv : Sched.Always env s.sched) : s.usedSlots = Set.Iio s.nextPcb := by
  ext i
  have slot : s.procTable i = if i < s.nextPcb then some i else none := inv.slots i
  have room : s.nextPcb ≤ maxProcs := inv.room
  simp only [usedSlots, Set.mem_ofPred_eq, Set.mem_Iio]
  constructor
  · rintro ⟨-, used⟩
    by_contra beyond
    exact used (by rw [slot, if_neg beyond])
  · intro before
    refine ⟨Nat.lt_of_lt_of_le before room, ?_⟩
    rw [slot, if_pos before]
    exact Option.some_ne_none i

theorem existingPcbs_subset (inv : Sched.Always env s.sched) :
    s.existingPcbs ⊆ Set.Iio s.nextPcb := by
  intro p found
  by_contra beyond
  have absent := inv.fresh p (Nat.le_of_not_lt beyond)
  exact found (by simpa using absent)

/-- Slots are recycled in a state exactly when no `Wait` has reaped anybody. -/
theorem slots_recycled_iff (valid : ∀ k, env.helperNewPid k ≠ Status.error.code)
    (started : kernelStart env cfg = .ok boot) (run : Reaches (Guarded (Step env) guard) boot s) :
    s.SlotsRecycled ↔ ¬ s.WaitReaped := by
  have inv := always_reaches valid started run
  have reaped : s.WaitReaped ↔ s.sched.Reaped := by
    simp [WaitReaped, Sched.Reaped, Event.isFamily]
  rw [reaped, inv.gone]
  have used := usedSlots_eq inv
  have subset := existingPcbs_subset inv
  constructor
  · rintro recycled ⟨p, before, absent⟩
    have missing : s.heap p = none := by simpa using absent
    have slot : s.procTable p = some p := (inv.slots p).trans (if_pos before)
    exact recycled.live p p (Nat.lt_of_lt_of_le before inv.room) slot missing
  · intro complete
    have all : s.existingPcbs = Set.Iio s.nextPcb := by
      refine subset.antisymm ?_
      intro p before missing
      exact complete ⟨p, before, by simpa using missing⟩
    constructor
    case count => rw [used, all]
    case full =>
      intro full
      have taken : s.procTable s.nextPcb ≠ none ∨ maxProcs ≤ s.nextPcb := by
        by_contra vacant
        rw [not_or, not_not, not_le] at vacant
        have found := List.find?_eq_none.mp full s.nextPcb (List.mem_range.mpr vacant.2)
        rw [vacant.1] at found
        exact found rfl
      have room : s.nextPcb ≤ maxProcs := inv.room
      have reached : s.nextPcb = maxProcs := by
        rcases taken with taken | beyond
        · have slot : s.procTable s.nextPcb = none :=
            (inv.slots s.nextPcb).trans (if_neg (Nat.lt_irrefl _))
          exact absurd slot taken
        · exact Nat.le_antisymm room beyond
      rw [all, reached, ← Finset.coe_Iio, Set.ncard_coe_finset, Nat.card_Iio]
    case live =>
      intro i p inside slot missing
      have held : i ∈ s.usedSlots := ⟨inside, by rw [slot]; exact Option.some_ne_none p⟩
      rw [used] at held
      have entry : s.procTable i = some i := (inv.slots i).trans (if_pos held)
      obtain rfl : i = p := Option.some.inj (entry.symm.trans slot)
      have existing : i ∈ s.existingPcbs := by
        rw [all]
        exact held
      exact existing missing

/-- Init and its child both have a slot and a PCB. -/
theorem slots_recycled_sample : ∃ s : Kernel, s.nextPcb = 3 ∧ s.SlotsRecycled := by
  have answer : runs sampleEnv sampleBoot (fun _ _ => true)
      [.tick, .resume, .call yalnixFork 0 0 0]
      (fun s => decide (s.nextPcb = 3 ∧ s.history = [.forked 1 2 2])) = .ok true := by
    decide +kernel
  obtain ⟨boot, s, started, run, both⟩ := runs_sound (fun _ _ => True) (fun _ _ _ => trivial) answer
  obtain ⟨created, history⟩ := of_decide_eq_true both
  refine ⟨s, created, (slots_recycled_iff ?_ started run).mpr ?_⟩
  · exact fun k => sampleEnv_pids.valid k
  · rintro ⟨p, ptr, rc, -, member⟩
    simp [history] at member

/-- The slot of a reaped child stays in use. -/
theorem slots_not_recycled : ¬ ∀ env cfg boot s,
    (∀ k, env.helperNewPid k ≠ Status.error.code) → kernelStart env cfg = .ok boot →
    Reaches (Guarded (Step env) fun _ i => i.among [yalnixFork, yalnixExit, yalnixWait]) boot s →
    s.SlotsRecycled := by
  intro recycled
  have answer : runs sampleEnv sampleBoot
      (fun _ i => i.among [yalnixFork, yalnixExit, yalnixWait])
      [.tick, .resume, .call yalnixFork 0 0 0, .call yalnixWait 0 0 0, .resume,
        .call yalnixExit 7 0 0, .resume]
      (fun s => decide (s.procTable 2 = some 2) && (s.heap 2).isNone) = .ok true := by
    decide +kernel
  obtain ⟨boot, s, started, run, both⟩ := runs_sound _ (fun _ _ => id) answer
  obtain ⟨slot, freed⟩ := Bool.and_eq_true_iff.mp both
  exact (recycled _ _ boot s (fun k => sampleEnv_pids.valid k) started run).live 2 2 (by decide)
    (of_decide_eq_true slot) (Option.isNone_iff_eq_none.mp freed)

end Yalnix.Kernel
