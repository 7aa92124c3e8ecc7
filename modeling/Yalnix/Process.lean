/-
Module: Yalnix.Process
Purpose: Creation and deletion of PCBs, the kernel context switch, and the process system calls
  Fork, Exit, Wait, GetPid, Delay and Brk.
Trusted boundary: translated from src/proc.c, src/kernel.c, src/mem.c and src/syscalls/process.c
Main exports: allocNewPCB, getFreePCB, deletePCB, kcSwitch, kcCopy, dispatch, fork, exit, wait,
  delay, brk
-/
import Yalnix.Kernel

namespace Yalnix.Kernel

/-! ### Creating and deleting PCBs -/

/-- `allocNewPCB`: three allocations (the PCB, its region 1 table, its children queue), each undone
by the failure of a later one. -/
def allocNewPCB (env : Env) (s : Kernel) : Option PcbPtr × Kernel :=
  let (pcbOk, s) := s.malloc env
  if !pcbOk then (none, s)
  else
    let (ptbrOk, s) := s.malloc env
    if !ptbrOk then (none, s)
    else
      let (childrenOk, s) := s.malloc env
      if !childrenOk then (none, s)
      else
        let process := s.nextPcb
        (some process,
          ({ s with nextPcb := process + 1 }.setPcb process PCB.fresh).setQueue
            (.children process) [])

/-- The first empty slot of `proc_table`. -/
def freeSlot (s : Kernel) : Option Nat :=
  (List.range maxProcs).find? fun i => (s.procTable i).isNone

/-- `getFreePCB`.  The result of `allocNewPCB` is stored and dereferenced unchecked. -/
def getFreePCB (env : Env) (s : Kernel) : Except Stop (Option PcbPtr × Kernel) :=
  match s.freeSlot with
  | none => .ok (none, s)
  | some i =>
      match allocNewPCB env s with
      | (none, _) => .error .nullPointer
      | (some pcb, s) => do
          let s := { s with procTable := Function.update s.procTable i (some pcb) }
          let pid := env.helperNewPid s.pidCalls
          let s := { s with pidCalls := s.pidCalls + 1 }
          let s ← s.modifyPcb pcb fun b => { b with state := .running, pid := pid }
          return (some pcb, s)

/-- `queueIterate(children_processes, NULL, deletePCBHelper)`. -/
def orphanChildren : List PcbPtr → Kernel → Except Stop Kernel
  | [], s => .ok s
  | child :: rest, s => do
      let s ← s.modifyPcb child fun b => { b with parent := none, state := .orphan }
      orphanChildren rest s

/-- `deletePCB`.  Neither the frames of the process nor its `proc_table` slot are given back. -/
def deletePCB (s : Kernel) (process : PcbPtr) : Except Stop Kernel := do
  let _ ← s.deref process
  let s ← orphanChildren (s.queues (.children process)) s
  let s := s.setQueue (.children process) []
  return { s with heap := Function.update s.heap process none }

/-! ### Kernel context switches

`KernelContextSwitch` itself succeeds: the errors for which the hardware returns -1 are outside the
model. -/

/-- `KCSwitch(kc, curr, next)`: save the context of `curr`, map the kernel stack of `next`, and make
it the current process. -/
def kcSwitch (s : Kernel) (kc : KernelContext) (curr next : PcbPtr) : Except Stop Kernel := do
  let s ← s.modifyPcb curr fun b => { b with kernelContext := kc }
  let n ← s.deref next
  match n.kstack with
  | none => throw .nullPointer
  | some kstack =>
      let pt0 := fun vpn =>
        if kstackStartPage ≤ vpn ∧ vpn < kstackStartPage + kstackPages then
          kstack (vpn - kstackStartPage)
        else s.mem.ptRegion0 vpn
      let s := s.setMem { s.mem with ptRegion0 := pt0 }
      let s := { s with currentProcess := next, mode := .kernel }
      let s ← s.modifyPcb next fun b => { b with state := .running }
      return { s with ptbr1 := next, ptlr1 := n.ptlr }

/-- `is_empty(ready_queue) ? idle_proc : queueDequeue(ready_queue)`, which `Exit`, `Wait`, `TtyRead`
and `TtyWrite` spell out and `Delay` writes with a `NULL` test. -/
def nextToRun (s : Kernel) : PcbPtr × Kernel :=
  match s.queueDequeue .ready with
  | (some next, s) => (next, s)
  | (none, s) => (s.idleProc, s)

/-- Leave the processor to the next ready process, to come back through `kc`. -/
def dispatch (s : Kernel) (kc : KernelContext) : Except Stop Kernel :=
  let curr := s.currentProcess
  let (next, s) := s.nextToRun
  s.kcSwitch kc curr next

/-- `InitializeKernelStackProcess`, after its `malloc`: the entries from `i` on. -/
def initKernelStackPages : Nat → Nat → Memory → PageTable → Except Stop (Memory × PageTable)
  | 0, _, m, kstack => .ok (m, kstack)
  | n + 1, i, m, kstack =>
      match m.allocFrame .kernel with
      | none => .error .halt
      | some (pfn, m) =>
          initKernelStackPages n (i + 1) m (Function.update kstack i ⟨true, protReadWrite, pfn⟩)

/-- `InitializeKernelStackProcess`. -/
def initializeKernelStackProcess (env : Env) (s : Kernel) :
    Except Stop (Option PageTable × Kernel) :=
  let (allocated, s) := s.malloc env
  if !allocated then .ok (none, s)
  else do
    let (m, kstack) ← initKernelStackPages kstackPages 0 s.mem fun _ => Pte.zero
    return (some kstack, s.setMem m)

/-- The copying loop of `KCCopy`. -/
def copyKernelStack (src dst : PageTable) (m : Memory) : Memory :=
  (List.range kstackPages).foldl (fun m i => m.cloneFrame (src i).pfn (dst i).pfn) m

/-- `KCCopy(kc, new)`: give the new process a copy of the running kernel context and stack. -/
def kcCopy (env : Env) (s : Kernel) (kc : KernelContext) (new : PcbPtr) : Except Stop Kernel := do
  let s ← s.modifyPcb new fun b => { b with kernelContext := kc }
  let n ← s.deref new
  let (kstackNew, s) ←
    match n.kstack with
    | some kstack => pure (some kstack, s)
    | none => do
        let (kstack, s) ← initializeKernelStackProcess env s
        let s ← s.modifyPcb new fun b => { b with kstack := kstack }
        pure (kstack, s)
  let c ← s.deref s.currentProcess
  match kstackNew, c.kstack with
  | some kstack, some kstackCurrent => return s.setMem (copyKernelStack kstackCurrent kstack s.mem)
  | _, _ => throw .nullPointer

/-! ### Fork -/

/-- `CopyPT(src, dst)`. -/
def copyPT (s : Kernel) (src dst : PcbPtr) : Except Stop (Status × Kernel) := do
  let srcPcb ← s.deref src
  let dstPcb ← s.deref dst
  let (status, m, pt) := Memory.copyPTEntries srcPcb.ptbr (List.range maxPtLen) s.mem dstPcb.ptbr
  return (status, (s.setMem m).setPcb dst { dstPcb with ptbr := pt })

/-- The end of `Fork`, which both processes execute: the parent at once, the child when it is first
switched to. -/
def forkReturn (env : Env) (s : Kernel) (child parent : PcbPtr) : Except Stop Kernel := do
  let c ← s.deref s.currentProcess
  let p ← s.deref parent
  if c.pid = p.pid then
    let s ← s.modifyPcb child fun b => { b with state := .ready }
    let s := s.queueEnqueue env .ready child
    let s := s.queueEnqueue env (.children parent) child
    let childPcb ← s.deref child
    let s := s.log (.forked parent child childPcb.pid)
    s.modifyPcb s.currentProcess fun b =>
      { b with userContext := b.userContext.setReturn childPcb.pid }
  else
    s.modifyPcb s.currentProcess fun b =>
      { b with userContext := b.userContext.setReturn 0, parent := some parent }

/-- `Fork`, as the parent executes it. -/
def fork (env : Env) (s : Kernel) : Except Stop (Status × Kernel) := do
  let (slot, s) ← s.getFreePCB env
  match slot with
  | none => return (.error, s)
  | some child =>
      let parent := s.currentProcess
      let p ← s.deref parent
      let s ← s.modifyPcb child fun b => { b with ppid := p.pid, userContext := p.userContext }
      let (status, s) ← s.copyPT parent child
      if status = .error then return (.error, s)
      else
        let s ← s.kcCopy env (.fork child parent) child
        let s ← s.forkReturn env child parent
        return (.success, s)

/-! ### Exit and Wait -/

/-- What `Exit` does for the parent of the exiting process. -/
def wakeParent (env : Env) (s : Kernel) : Option PcbPtr → Except Stop Kernel
  | none => .ok s
  | some parent => do
      let p ← s.deref parent
      if p.waitingForChildPid ≠ 0 then
        let s ← s.modifyPcb parent fun b => { b with state := .ready, waitingForChildPid := 0 }
        return s.queueEnqueue env .ready parent
      else return s

/-- `Exit(status)`, called from `origin` over the trap frame `s.ctx`. -/
def exit (env : Env) (status : Int) (origin : ExitOrigin) (s : Kernel) : Except Stop Kernel := do
  let curr := s.currentProcess
  let c ← s.deref curr
  if c.pid = 1 then
    let _ ← s.deletePCB curr
    throw .halt
  else
    let s := s.queueEnqueue env .zombie curr
    let s ← s.modifyPcb curr fun b => { b with exitStatus := status, state := .zombie }
    let s := s.log (.exited curr status)
    let s ← s.wakeParent env c.parent
    s.dispatch (.exit s.ctx origin)

/-- The scan of `zombie_queue` for a child of the process with pid `pid`. -/
def findZombieChild (s : Kernel) (pid : Int) : List PcbPtr → Except Stop (Option PcbPtr)
  | [] => .ok none
  | z :: rest => do
      let b ← s.deref z
      if b.ppid = pid then return some z else findZombieChild s pid rest

/-- Reap the zombie `z`: the body that `Wait` repeats before and after blocking. -/
def reap (s : Kernel) (z : PcbPtr) (statusPtr : Word) : Except Stop (Int × Kernel) := do
  let b ← s.deref z
  let s ← if statusPtr ≠ 0 then s.storeUser statusPtr (intBytes b.exitStatus) else pure s
  let s := s.queueRemove (.children s.currentProcess) z
  let s := s.queueRemove .zombie z
  let s ← s.deletePCB z
  return (b.pid, s)

/-- One scan of `Wait`, and the reaping of the child it finds. -/
def waitScan (s : Kernel) (statusPtr : Word) : Except Stop (Option Int × Kernel) := do
  let c ← s.deref s.currentProcess
  match ← s.findZombieChild c.pid (s.queues .zombie) with
  | some z =>
      let (pid, s) ← s.reap z statusPtr
      return (some pid, s)
  | none => return (none, s)

/-- `Wait(status_ptr)` up to its return or its context switch; `none` means that the call is still
in progress. -/
def wait (s : Kernel) (statusPtr : Word) : Except Stop (Option Int × Kernel) := do
  let curr := s.currentProcess
  if s.isEmpty (.children curr) then return (some Status.error.code, s)
  else
    match ← s.waitScan statusPtr with
    | (some pid, s) => return (some pid, s)
    | (none, s) =>
        let s ← s.modifyPcb curr fun b => { b with state := .blocked, waitingForChildPid := 1 }
        let s ← s.dispatch (.wait statusPtr)
        return (none, s)

/-- `Wait` after its context switch. -/
def waitResumed (s : Kernel) (statusPtr : Word) : Except Stop (Int × Kernel) := do
  match ← s.waitScan statusPtr with
  | (some pid, s) => return (pid, s)
  | (none, s) => return (Status.error.code, s)

/-! ### GetPid, Delay and Brk -/

/-- `GetPid`. -/
def getPid (s : Kernel) : Except Stop Int := do
  let c ← s.deref s.currentProcess
  return c.pid

/-- `Delay(clock_ticks)` up to its return or its context switch. -/
def delay (env : Env) (s : Kernel) (clockTicks : Int) : Except Stop (Option Int × Kernel) :=
  if clockTicks = 0 then .ok (some Status.success.code, s)
  else if clockTicks < -1 then .ok (some Status.error.code, s)
  else do
    let curr := s.currentProcess
    let s ← s.modifyPcb curr fun b => { b with delayTicks := clockTicks, state := .blocked }
    let s := s.queueEnqueue env .blocked curr
    let s ← s.dispatch .delay
    return (none, s)

/-- `Brk(addr)`. -/
def brk (env : Env) (s : Kernel) (addr : Word) : Except Stop (Status × Kernel) := do
  if addr = 0 then return (.error, s)
  else
    let curr := s.currentProcess
    let c ← s.deref curr
    let targetVpn := pageOf (upToPage addr)
    let heapVpn := pageOf (upToPage c.userHeapEndVaddr)
    let (status, m, pt) ← Memory.brkGrow (targetVpn - heapVpn) heapVpn s.mem c.ptbr
    if status = .error then return (.error, (s.setMem m).setPcb curr { c with ptbr := pt })
    else
      let (vpn, m, pt) ← Memory.brkShrink targetVpn env.brkFuel (max heapVpn targetVpn) m pt
      let heapEnd := BitVec.ofNat 32 (vpn * pageSize + vmem1Base)
      return (.success,
        (s.setMem m).setPcb curr { c with ptbr := pt, userHeapEndVaddr := heapEnd })

end Yalnix.Kernel
