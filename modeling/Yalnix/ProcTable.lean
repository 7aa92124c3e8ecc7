/-
Module: Yalnix.ProcTable
Purpose: The creation of PCBs with the blocks that it allocates and frees, and the process table.
Trusted boundary: translated from src/proc.c; helper_new_pid enters through the pids it returns
Main exports: ProcStore, Blocks.allocNewPCB, ProcStore.getFreePCB
-/
import Yalnix.Queue

namespace Yalnix

/-- `allocNewPCB`. -/
def Blocks.allocNewPCB (A : Allocator) (b : Blocks) : Except Fault (Option Addr × Blocks) :=
  match b.malloc A with
  | (none, b) => .ok (none, b)
  | (some process, b) => do
      let b := { b with pcbs := Function.update b.pcbs process (some A.garbagePcb) }
      let b ← b.modifyPcb (some process) fun _ => PcbRecord.zero
      let b ← b.modifyPcb (some process) fun r =>
        { r with ppid := invalidPid, state := .free, exitStatus := 0 }
      match b.malloc A with
      | (none, b) =>
          let b ← b.modifyPcb (some process) fun r => { r with ptbr := none }
          let b ← b.freePcb (some process)
          return (none, b)
      | (some ptbr, b) =>
          let b := { b with tables := Function.update b.tables ptbr (some A.garbageTable) }
          let b ← b.modifyPcb (some process) fun r => { r with ptbr := some ptbr }
          let b ← b.modifyTable (some ptbr) fun _ _ => Pte.zero
          let b ← b.modifyPcb (some process) fun r =>
            { r with
              ptlr := maxPtLen
              userHeapStartVaddr := BitVec.ofNat 32 vmem1Base
              userHeapEndVaddr := BitVec.ofNat 32 vmem1Base
              userStackBaseVaddr := BitVec.ofNat 32 vmem1Limit
              kstack := none
              userContext := UserContext.zero
              kernelContext := .unsaved
              next := none
              prev := none
              parent := none }
          let children ← b.queueCreate A
          let b ← children.2.modifyPcb (some process) fun r =>
            { r with childrenProcesses := children.1 }
          match children.1 with
          | none =>
              let r ← readAt b.pcbs (some process)
              let b ← b.freeTable r.ptbr
              let b ← b.freePcb (some process)
              return (none, b)
          | some _ =>
              let b ← b.modifyPcb (some process) fun r =>
                { r with waitingForChildPid := invalidPid, lastRunTick := 0, delayTicks := 0 }
              return (some process, b)

/-- `proc_table`, `NULL` before `InitializeProcTable`, over the allocated blocks, and the tables
that `helper_new_pid` was called with so far. -/
structure ProcStore where
  blocks : Blocks
  procTable : Option (Nat → Option Addr)
  pidRequests : List (Option Addr)

namespace ProcStore

/-- The first empty slot of a table. -/
def emptySlot (table : Nat → Option Addr) : Option Nat :=
  (List.range maxProcs).find? fun i => (table i).isNone

/-- `getFreePCB`: what `allocNewPCB` returns goes into the slot and is dereferenced unchecked.  The
`k`-th call of `helper_new_pid` returns `newPid k`. -/
def getFreePCB (A : Allocator) (newPid : Nat → Int) (s : ProcStore) :
    Except Fault (Option Addr × ProcStore) :=
  match s.procTable with
  | none => .ok (none, s)
  | some table =>
      match emptySlot table with
      | none => .ok (none, s)
      | some i => do
          let r ← s.blocks.allocNewPCB A
          let pcb := r.1
          let table := Function.update table i pcb
          let b ← r.2.modifyPcb pcb fun p => { p with state := .running }
          let p ← readAt b.pcbs pcb
          let pid := newPid s.pidRequests.length
          let b ← b.modifyPcb pcb fun p => { p with pid := pid }
          return (pcb, ⟨b, some table, s.pidRequests ++ [p.ptbr]⟩)

end ProcStore

end Yalnix
