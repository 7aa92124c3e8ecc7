/-
Module: Yalnix.Run
Purpose: Running the machine along a list of inputs from KernelStart, and what such a run says
  about reachable states; a small machine on which runs are shown.
Trusted boundary: none
Main exports: Input.among, Kernel.run, Kernel.runs, run_trace, run_reaches, runs_sound, sampleEnv,
  sampleBoot
-/
import Yalnix.Machine

namespace Yalnix

open Transition

/-- The input is one of the listed system calls, a clock or terminal trap, or the return of the
process that was switched to. -/
def Input.among (calls : List Word) : Input → Bool
  | .kernelTrap ctx _ => decide (ctx.code ∈ calls)
  | .clockTrap _ | .ttyReceiveTrap .. | .ttyTransmitTrap .. | .resume => true
  | .memoryTrap _ | .mathTrap _ | .illegalTrap _ | .userStore .. | .kernelBrk _ => false

namespace Kernel

/-- Deliver a list of inputs, each of which has to be enabled and to pass `check`. -/
def run (env : Env) (check : Kernel → Input → Bool) : List Input → Kernel → Except Stop Kernel
  | [], s => .ok s
  | i :: rest, s =>
      if s.Enabled i ∧ check s i then do
        let s ← s.deliver env i
        run env check rest s
      else .error .unfinished

/-- The same from boot, with the answer to a question about the state it leads to. -/
def runs (env : Env) (cfg : BootConfig) (check : Kernel → Input → Bool) (inputs : List Input)
    (ask : Kernel → Bool) : Except Stop Bool := do
  let s ← kernelStart env cfg
  let s ← run env check inputs s
  return ask s

variable {env : Env} {check : Kernel → Input → Bool}

theorem run_trace (guard : Kernel → Input → Prop)
    (sound : ∀ s i, check s i = true → guard s i) {inputs : List Input}
    {s s' : Kernel} (h : run env check inputs s = .ok s') :
    Trace (Guarded (Step env) guard) s inputs s' := by
  induction inputs generalizing s with
  | nil =>
      cases h
      exact Trace.nil
  | cons i rest inductionHypothesis =>
      unfold run at h
      by_cases admitted : s.Enabled i ∧ check s i = true
      · rw [if_pos admitted, bind_eq_ok] at h
        obtain ⟨t, delivered, h⟩ := h
        have first : Guarded (Step env) guard s i t :=
          ⟨sound s i admitted.2, admitted.1, delivered⟩
        exact Trace.cons first (inductionHypothesis h)
      · rw [if_neg admitted] at h
        cases h

theorem run_reaches (guard : Kernel → Input → Prop)
    (sound : ∀ s i, check s i = true → guard s i) {inputs : List Input}
    {s s' : Kernel} (h : run env check inputs s = .ok s') :
    Reaches (Guarded (Step env) guard) s s' := (run_trace guard sound h).reaches

/-- A run from boot that answers yes shows a reachable state for which the answer is yes. -/
theorem runs_sound (guard : Kernel → Input → Prop)
    (sound : ∀ s i, check s i = true → guard s i) {cfg : BootConfig}
    {inputs : List Input} {ask : Kernel → Bool} (h : runs env cfg check inputs ask = .ok true) :
    ∃ boot s, kernelStart env cfg = .ok boot ∧ Reaches (Guarded (Step env) guard) boot s ∧
      ask s = true := by
  simp only [runs, bind_eq_ok, pure_eq_ok] at h
  obtain ⟨boot, started, s, ran, answer⟩ := h
  exact ⟨boot, s, started, run_reaches guard sound ran, answer⟩

end Kernel

/-! ### A small machine -/

/-- Pids are 0, 1, 2, ..., and there is always memory. -/
def sampleEnv : Env where
  helperNewPid := fun k => k
  mallocOk := fun _ => true
  brkFuel := 8

theorem sampleEnv_distinct : Function.Injective sampleEnv.helperNewPid := fun _ _ same =>
  Int.ofNat.inj same

/-- A program of one page of text and one page of data. -/
def sampleProgram : LoadRequest where
  info := some
    { entry := 0x100000, tVaddr := 0x100000, tNpg := 1, idVaddr := 0x102000, idNpg := 1,
      idEnd := 0x104000, udNpg := 0, udEnd := 0x104000 }
  text := some (0x2000, fun _ => 0)
  data := some (0x2000, fun _ => 0)

/-- The address of the zeros that its data begins with: a vector that ends at once. -/
def noArguments : ArgVector := .user 0x102000

def sampleBoot : BootConfig where
  nframes := 200
  firstKernelTextPage := 2
  firstKernelDataPage := 5
  origKernelBrkPage := 10
  doIdle := 0x4000
  phys := fun _ _ => 0
  init := sampleProgram
  cmdArgs := []

/-- The system call `code` with its first three arguments. -/
def Input.call (code : Word) (r0 r1 r2 : Word) : Input :=
  .kernelTrap
    { UserContext.zero with
      code := code
      regs := fun i => if i = 0 then r0 else if i = 1 then r1 else if i = 2 then r2 else 0 }
    sampleProgram

def Input.tick : Input := .clockTrap UserContext.zero

end Yalnix
