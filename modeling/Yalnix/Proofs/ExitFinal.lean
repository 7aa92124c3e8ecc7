/-
Module: Yalnix.Proofs.ExitFinal
Purpose: An exit is final as long as nobody exits whose parent's waiting_for_child_pid still holds
  the value that allocNewPCB gave it.  Such an exit wakes a parent that is not waiting, and the
  parent may be a zombie.
Trusted boundary: the pids of the hardware library do not repeat
Main exports: ParentFlagWritten, ExitsWritten, registered_reaches, exit_is_final
-/
import Yalnix.Proofs.Start
import Yalnix.Run

namespace Yalnix.Kernel

open Transition

variable {env : Env} {cfg : BootConfig} {s : Kernel}

/-- The PCB that `Exit`, called now, would find behind the `parent` field. -/
def parentPcb (s : Kernel) : Option PCB := do
  let c ← s.heap s.currentProcess
  let parent ← c.parent
  s.heap parent

/-- The parent's `waiting_for_child_pid` was assigned since the parent's creation: the parent has
blocked in `Wait`, or a child of it has exited before. -/
def ParentFlagWritten (s : Kernel) : Prop :=
  ∀ parent ∈ s.parentPcb, parent.waitingForChildPid ≠ invalidPid

instance : Decidable s.ParentFlagWritten :=
  inferInstanceAs (Decidable (∀ parent ∈ s.parentPcb, parent.waitingForChildPid ≠ invalidPid))

/-- If the step runs `Exit`, then below a parent whose flag was assigned. -/
def ExitsWritten (s : Kernel) (i : Input) : Prop := s.CallsExit i → s.ParentFlagWritten

theorem ParentFlagWritten.sched (written : s.ParentFlagWritten) : s.sched.ParentFlagWritten := by
  intro c q b current parent live
  simp only [sched_procs, sched_current, Option.map_eq_some_iff] at current live
  obtain ⟨c, current, rfl⟩ := current
  obtain ⟨b, live, rfl⟩ := live
  have found : s.parentPcb = some b := by
    have parent' : c.parent = some q := parent
    simp [parentPcb, current, parent', live]
  exact written b found

/-- Nothing is asked but that exits find a parent whose flag was assigned. -/
def exitLimits : Limits where
  exit := fun t _ => t.ParentFlagWritten
  fork := fun _ => True
  reap := fun _ _ => True
  fail := True
  delay := True
  tty := True

theorem ExitsWritten.allows {i : Input} (guard : s.ExitsWritten i) :
    exitLimits.Allows env s i where
  exit := fun calls => (guard calls).sched
  fork := fun _ => trivial
  reap := fun _ _ => trivial
  fail := fun _ => trivial
  delay := fun _ => trivial
  tty := fun _ => trivial

theorem fresh_of_registered (inv : Sched.Registered env s.sched) : s.heap s.nextPcb = none := by
  have absent := inv.fresh s.nextPcb (Nat.le_refl _)
  simpa using absent

/-- One step keeps every process registered at most once. -/
theorem registered_step (distinct : Function.Injective env.helperNewPid) :
    Preserves (Guarded (Step env) ExitsWritten) fun s => Sched.Registered env s.sched := by
  intro s i t inv guarded
  obtain ⟨guard, step⟩ := guarded
  exact inv.moves distinct id (deliver_moves (fresh_of_registered inv) guard.allows step)

theorem registered_reaches {boot : Kernel} (distinct : Function.Injective env.helperNewPid)
    (started : kernelStart env cfg = .ok boot)
    (run : Reaches (Guarded (Step env) ExitsWritten) boot s) : Sched.Registered env s.sched := by
  have start : Sched.Registered env boot.sched := by
    obtain ⟨ready, view⟩ := kernelStart_sched started
    rw [view]
    exact Sched.registered_booted
  exact run.invariant (P := fun s => Sched.Registered env s.sched) (registered_step distinct) start

/-- Idle stays idle. -/
theorem idleProc_reaches {boot : Kernel} (distinct : Function.Injective env.helperNewPid)
    (started : kernelStart env cfg = .ok boot)
    (run : Reaches (Guarded (Step env) ExitsWritten) boot s) : s.idleProc = boot.idleProc := by
  induction run with
  | refl => rfl
  | tail before last inductionHypothesis =>
      obtain ⟨i, guarded⟩ := last
      have known := registered_reaches distinct started before
      have moves := deliver_moves (fresh_of_registered known) guarded.1.allows guarded.2
      exact (Sched.Moves.idleProc_eq moves).trans inductionHypothesis

/-- A process that called `Exit` is neither ready nor current, and the process that runs is not
inside `Exit`. -/
theorem exit_is_final {boot : Kernel} (distinct : Function.Injective env.helperNewPid)
    (started : kernelStart env cfg = .ok boot)
    (run : Reaches (Guarded (Step env) ExitsWritten) boot s) :
    (∀ p status, .exited p status ∈ s.history → p ∉ s.queues .ready ∧ s.currentProcess ≠ p) ∧
      (s.currentProcess ≠ s.idleProc → ∀ c, s.heap s.currentProcess = some c →
        c.kernelContext.isExit = false) := by
  have inv := registered_reaches distinct started run
  constructor
  · intro p status exited
    have recorded : .exited p status ∈ s.sched.history := List.mem_filter.mpr ⟨exited, rfl⟩
    obtain ⟨notIdle, -, dead⟩ := inv.exited p status recorded
    have once := inv.once p notIdle
    -- a freed PCB counts as registered, and so does one inside `Exit`
    have taken : 1 ≤ Sched.pcbEntries (s.sched.procs p) := by
      rcases found : s.sched.procs p with _ | b
      · exact Nat.le_refl 1
      · simp only [Sched.pcbEntries, Proc.entries, Proc.exited, dead b found, if_true]
        omega
    simp only [Sched.registrations] at once
    constructor
    · intro member
      have counted : 0 < (s.sched.queues .ready).count p := List.count_pos_iff.mpr member
      omega
    · intro current
      have counted : Tally.same s.sched.current p = 1 := if_pos current
      omega
  · intro busy c live
    rcases inExit : c.kernelContext.isExit with _ | _
    · rfl
    · exact absurd rfl (inv.exit_is_off busy (procs_of_heap live) inExit).1

/-- Init waits for its child, which has exited and was not run again. -/
theorem exit_is_final_sample : ∃ s : Kernel, .exited 2 7 ∈ s.history ∧ 2 ∉ s.queues .ready ∧
    s.currentProcess ≠ 2 := by
  have answer : runs sampleEnv sampleBoot (fun s _ => decide s.ParentFlagWritten)
      [.tick, .resume, .call yalnixFork 0 0 0, .call yalnixWait 0 0 0, .resume,
        .call yalnixExit 7 0 0]
      (fun s => decide (.exited 2 7 ∈ s.history)) = .ok true := by
    decide +kernel
  obtain ⟨boot, s, started, run, exited⟩ := runs_sound ExitsWritten
    (fun s i written _ => of_decide_eq_true written) answer
  have recorded := of_decide_eq_true exited
  exact ⟨s, recorded, (exit_is_final sampleEnv_distinct started run).1 2 7 recorded⟩

/-- A child whose parent is a zombie that never waited puts that parent back in the ready queue. -/
theorem exit_is_not_final : ¬ ∀ env cfg boot s, Function.Injective env.helperNewPid →
    kernelStart env cfg = .ok boot →
    Reaches (Guarded (Step env) fun _ i => i.among [yalnixFork, yalnixExit, yalnixWait]) boot s →
    ∀ p status, .exited p status ∈ s.history → p ∉ s.queues .ready ∧ s.currentProcess ≠ p := by
  intro final
  -- init waits; its child 2 forks 3 and exits, and then 3 exits
  have answer : runs sampleEnv sampleBoot
      (fun _ i => i.among [yalnixFork, yalnixExit, yalnixWait])
      [.tick, .resume, .call yalnixFork 0 0 0, .call yalnixWait 0 0 0, .resume,
        .call yalnixFork 0 0 0, .tick, .resume, .tick, .resume, .call yalnixExit 7 0 0, .resume,
        .call yalnixExit 8 0 0]
      (fun s => decide (.exited 2 7 ∈ s.history ∧ 2 ∈ s.queues .ready)) = .ok true := by
    decide +kernel
  obtain ⟨boot, s, started, run, both⟩ := runs_sound _ (fun _ _ => id) answer
  obtain ⟨exited, ready⟩ := of_decide_eq_true both
  exact (final _ _ boot s sampleEnv_distinct started run 2 7 exited).1 ready

end Yalnix.Kernel
