/-
Module: Yalnix.Boot
Purpose: KernelStart: the frame table and region 0 as the machine comes up, the idle process, and
  the first user process loaded into a PCB of its own.
Trusted boundary: translated from src/kernel.c, src/init.c and src/proc.c.  The allocations made
  before the idle process exists (frame table, process table, queues, terminals) are taken to
  succeed, and no allocation moves the kernel break
Main exports: BootConfig, initializeFreeFrameList, bootMemory, createIdlePCB, createInitPCB, kernelStart
-/
import Yalnix.Trap

namespace Yalnix

/-- What the boot loader and the command line fix. -/
structure BootConfig where
  nframes : Nat
  firstKernelTextPage : Nat
  firstKernelDataPage : Nat
  origKernelBrkPage : Nat
  /-- The address of `DoIdle`. -/
  doIdle : Word
  /-- The contents of memory at power-on. -/
  phys : Nat → Page
  /-- The program of the first user process. -/
  init : LoadRequest
  /-- `cmd_args`, the command line of the first user process. -/
  cmdArgs : List CString

/-- The loop of `InitializeFreeFrameList`, over the frames still to enter. -/
def enterFrames (textSectionBasePage kernelBrkPfn : Int) : List Nat → Memory → Memory
  | [], m => m
  | i :: rest, m =>
      if textSectionBasePage ≤ i ∧ i < kernelBrkPfn then
        enterFrames textSectionBasePage kernelBrkPfn rest
          { m with frameTable := Function.update m.frameTable i .kernel }
      else
        enterFrames textSectionBasePage kernelBrkPfn rest
          { m with
            frameTable := Function.update m.frameTable i .free
            freeNframes := m.freeNframes + 1 }

/-- `InitializeFreeFrameList`, over a frame table that `malloc` has just returned. -/
def initializeFreeFrameList (textSectionBasePage kernelBrkPfn : Int) (pmemSize : Nat)
    (m : Memory) : Memory :=
  let nframes := pmemSize / pageSize
  enterFrames textSectionBasePage kernelBrkPfn (List.range nframes)
    { m with nframes := nframes, freeNframes := 0 }

/-- `InitializeFreeFrameList` and `InitializeVM`.  `text_section_base_page` is never assigned, so
that every frame below the break belongs to the kernel. -/
def bootMemory (cfg : BootConfig) : Memory where
  nframes := cfg.nframes
  freeNframes := (cfg.nframes - cfg.origKernelBrkPage : Nat)
  frameTable := fun pfn => if pfn < cfg.origKernelBrkPage then .kernel else .free
  ptRegion0 := fun vpn =>
    if kstackStartPage ≤ vpn ∧ vpn < kstackStartPage + kstackPages then ⟨true, protReadWrite, vpn⟩
    else if cfg.firstKernelDataPage ≤ vpn ∧ vpn < cfg.origKernelBrkPage then
      ⟨true, protReadWrite, vpn⟩
    else if cfg.firstKernelTextPage ≤ vpn ∧ vpn < cfg.firstKernelDataPage then
      ⟨true, protReadExec, vpn⟩
    else Pte.zero
  kernelBrkPage := cfg.origKernelBrkPage
  phys := cfg.phys

namespace Kernel

/-- The state once memory, the process table, the terminals and the queues are initialised and no
process exists yet. -/
def beforeProcesses (cfg : BootConfig) : Kernel where
  mem := bootMemory cfg
  heap := fun _ => none
  nextPcb := 0
  queues := fun _ => []
  procTable := fun _ => none
  terminals := fun _ => Terminal.initial
  idleProc := 0
  currentProcess := 0
  ptbr1 := 0
  ptlr1 := maxPtLen
  mode := .user
  ctx := UserContext.zero
  mallocCalls := 0
  pidCalls := 0
  history := []

/-- The loop of `InitializeKernelStackIdle`, over the entries still to fill: the results of
`allocSpecificFrame` are ignored. -/
def initKernelStackIdlePages : List Nat → Memory → PageTable → Except Stop (Memory × PageTable)
  | [], m, kstack => .ok (m, kstack)
  | i :: rest, m, kstack => do
      let pfn := kstackStartPage + i
      let (_, m) ← m.allocSpecificFrame pfn .kernel
      initKernelStackIdlePages rest m (Function.update kstack i ⟨true, protReadWrite, pfn⟩)

/-- `CreateIdlePCB`. -/
def createIdlePCB (env : Env) (cfg : BootConfig) (s : Kernel) : Except Stop (PcbPtr × Kernel) := do
  let (slot, s) ← s.getFreePCB env
  match slot with
  | none => throw .halt
  | some idle =>
      let ustackVpn := maxPtLen - 1
      let allocated := s.mem.allocFrame .user
      let s := match allocated with
        | some (_, m) => s.setMem m
        | none => s
      let s ← s.modifyPcb idle fun b =>
        { b with
          ptbr := Function.update b.ptbr ustackVpn ⟨true, protReadWrite, storedPfn allocated⟩ }
      let (kstackOk, s) := s.malloc env
      if !kstackOk then throw .nullPointer
      else
        let (m, kstack) ←
          initKernelStackIdlePages (List.range kstackPages) s.mem fun _ => Pte.zero
        let s ← (s.setMem m).modifyPcb idle fun b =>
          { b with
            userContext :=
              { UserContext.zero with sp := BitVec.ofNat 32 (vmem1Limit - 4), pc := cfg.doIdle }
            kstack := some kstack
            state := .running }
        return (idle, s)

/-- The creation and loading of the first user process in `KernelStart`. -/
def createInitPCB (env : Env) (cfg : BootConfig) (s : Kernel) : Except Stop (PcbPtr × Kernel) := do
  let (slot, s) ← s.getFreePCB env
  match slot with
  | none => throw .nullPointer
  | some init =>
      let (kstack, s) ← s.initializeKernelStackProcess env
      let s ← s.modifyPcb init fun b => { b with kstack := kstack, userContext := s.ctx }
      let (status, s) ←
        { s with ptbr1 := init }.loadProgram env cfg.init (.commandLine cfg.cmdArgs) init
      if status ≠ .success then throw .halt else return (init, s)

/-- `KernelStart`. -/
def kernelStart (env : Env) (cfg : BootConfig) : Except Stop Kernel := do
  let (idle, s) ← (beforeProcesses cfg).createIdlePCB env cfg
  let s := { s with idleProc := idle, currentProcess := idle, ptbr1 := idle }
  let s ← s.restoreContext
  let (init, s) ← s.createInitPCB env cfg
  let s := { s with ptbr1 := idle }
  let s := s.queueEnqueue env .ready init
  let s ← s.kcCopy env .kernelStart init
  s.restoreContext

end Kernel

end Yalnix
