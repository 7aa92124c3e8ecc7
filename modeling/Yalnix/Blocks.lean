/-
Module: Yalnix.Blocks
Purpose: The blocks the kernel gets from malloc, each behind its address: PCBs, region 1 tables,
  queues and queue nodes.
Trusted boundary: the records are those of proc.h and queue.h; malloc enters through `Allocator`
Main exports: Addr, QueueNode, Queue, PcbRecord, Blocks, Allocator, Fault, readAt, assignAt, freeAt
-/
import Yalnix.Kernel

namespace Yalnix

/-- The address of a block.  A pointer is an `Option Addr`, `NULL` being `none`. -/
abbrev Addr := Nat

/-- `QueueNode_t`. -/
structure QueueNode where
  process : Option Addr
  next : Option Addr
  prev : Option Addr
deriving DecidableEq, Repr

/-- `queue_t`. -/
structure Queue where
  head : Option Addr
  tail : Option Addr
deriving DecidableEq, Repr

/-- `struct pcb`, with its pointers. -/
structure PcbRecord where
  pid : Int
  state : ProcState
  ppid : Int
  exitStatus : Int
  ptbr : Option Addr
  ptlr : Nat
  userContext : UserContext
  kernelContext : KernelContext
  kstack : Option Addr
  userHeapStartVaddr : Word
  userHeapEndVaddr : Word
  userStackBaseVaddr : Word
  next : Option Addr
  prev : Option Addr
  parent : Option Addr
  childrenProcesses : Option Addr
  waitingForChildPid : Int
  lastRunTick : Int
  delayTicks : Int
  ttyReadBuf : Word
  ttyReadLen : Nat
  ttyWriteBuf : Word
  ttyWriteLen : Nat
  ttyKernelReadBuf : Option Addr
  kernelReadSize : Nat

/-- A `struct pcb` filled with zeros. -/
def PcbRecord.zero : PcbRecord where
  pid := 0
  state := .free
  ppid := 0
  exitStatus := 0
  ptbr := none
  ptlr := 0
  userContext := UserContext.zero
  kernelContext := .unsaved
  kstack := none
  userHeapStartVaddr := 0
  userHeapEndVaddr := 0
  userStackBaseVaddr := 0
  next := none
  prev := none
  parent := none
  childrenProcesses := none
  waitingForChildPid := 0
  lastRunTick := 0
  delayTicks := 0
  ttyReadBuf := 0
  ttyReadLen := 0
  ttyWriteBuf := 0
  ttyWriteLen := 0
  ttyKernelReadBuf := none
  kernelReadSize := 0

/-- The allocated blocks, by their kind, and how often `malloc` was called. -/
structure Blocks where
  pcbs : Addr → Option PcbRecord
  tables : Addr → Option PageTable
  queues : Addr → Option Queue
  nodes : Addr → Option QueueNode
  mallocCalls : Nat

/-- How a function that works on blocks fails to come back. -/
inductive Fault where
  /-- `Halt()` was called. -/
  | halt
  /-- A `NULL` pointer is dereferenced. -/
  | nullPointer
  /-- A block that is not allocated is accessed or freed. -/
  | notAllocated (addr : Addr)
  /-- The loop was not followed to its end. -/
  | unfinished
deriving DecidableEq, Repr

/-- `malloc`: what the `k`-th call returns while the given addresses are in use, `none` when there
is no memory, and what the new blocks hold.  An address is handed out only when it is not in use. -/
structure Allocator where
  malloc : Nat → (Addr → Bool) → Option Addr
  fresh : ∀ {call inUse addr}, malloc call inUse = some addr → inUse addr = false
  garbagePcb : PcbRecord
  garbageTable : PageTable
  garbageQueue : Queue
  garbageNode : QueueNode

@[simp] theorem ok_bind {α β : Type} (value : α) (rest : α → Except Fault β) :
    (Except.ok value >>= rest) = rest value := rfl

/-! ### Pointers into one kind of blocks -/

section Store

variable {β : Type} {store : Addr → Option β} {addr : Addr} {value : β}

/-- Read through a pointer. -/
def readAt (store : Addr → Option β) : Option Addr → Except Fault β
  | none => .error .nullPointer
  | some addr =>
      match store addr with
      | some value => .ok value
      | none => .error (.notAllocated addr)

/-- Assign through a pointer. -/
def assignAt (store : Addr → Option β) (f : β → β) : Option Addr → Except Fault (Addr → Option β)
  | none => .error .nullPointer
  | some addr =>
      match store addr with
      | some value => .ok (Function.update store addr (some (f value)))
      | none => .error (.notAllocated addr)

/-- `free`, which accepts `NULL`. -/
def freeAt (store : Addr → Option β) : Option Addr → Except Fault (Addr → Option β)
  | none => .ok store
  | some addr =>
      match store addr with
      | some _ => .ok (Function.update store addr none)
      | none => .error (.notAllocated addr)

theorem readAt_some (here : store addr = some value) : readAt store (some addr) = .ok value := by
  simp [readAt, here]

theorem assignAt_some (here : store addr = some value) (f : β → β) :
    assignAt store f (some addr) = .ok (Function.update store addr (some (f value))) := by
  simp [assignAt, here]

theorem freeAt_some (here : store addr = some value) :
    freeAt store (some addr) = .ok (Function.update store addr none) := by
  simp [freeAt, here]

end Store

namespace Blocks

/-- The address is that of an allocated block. -/
def inUse (b : Blocks) (addr : Addr) : Bool :=
  (b.pcbs addr).isSome || (b.tables addr).isSome || (b.queues addr).isSome ||
    (b.nodes addr).isSome

/-- `malloc`, before the block has a kind. -/
def malloc (A : Allocator) (b : Blocks) : Option Addr × Blocks :=
  (A.malloc b.mallocCalls b.inUse, { b with mallocCalls := b.mallocCalls + 1 })

/-- Assign to fields of the PCB behind a pointer. -/
def modifyPcb (b : Blocks) (p : Option Addr) (f : PcbRecord → PcbRecord) : Except Fault Blocks := do
  let pcbs ← assignAt b.pcbs f p
  return { b with pcbs := pcbs }

/-- Assign to entries of the table behind a pointer. -/
def modifyTable (b : Blocks) (p : Option Addr) (f : PageTable → PageTable) :
    Except Fault Blocks := do
  let tables ← assignAt b.tables f p
  return { b with tables := tables }

/-- Assign to fields of the queue behind a pointer. -/
def modifyQueue (b : Blocks) (p : Option Addr) (f : Queue → Queue) : Except Fault Blocks := do
  let queues ← assignAt b.queues f p
  return { b with queues := queues }

/-- Assign to fields of the node behind a pointer. -/
def modifyNode (b : Blocks) (p : Option Addr) (f : QueueNode → QueueNode) :
    Except Fault Blocks := do
  let nodes ← assignAt b.nodes f p
  return { b with nodes := nodes }

/-- `free` of a PCB. -/
def freePcb (b : Blocks) (p : Option Addr) : Except Fault Blocks := do
  let pcbs ← freeAt b.pcbs p
  return { b with pcbs := pcbs }

/-- `free` of a table. -/
def freeTable (b : Blocks) (p : Option Addr) : Except Fault Blocks := do
  let tables ← freeAt b.tables p
  return { b with tables := tables }

/-- `free` of a queue node. -/
def freeNode (b : Blocks) (p : Option Addr) : Except Fault Blocks := do
  let nodes ← freeAt b.nodes p
  return { b with nodes := nodes }

section Spec

variable {b : Blocks} {addr : Addr}

theorem modifyPcb_some {record : PcbRecord} (here : b.pcbs addr = some record)
    (f : PcbRecord → PcbRecord) : b.modifyPcb (some addr) f =
      .ok { b with pcbs := Function.update b.pcbs addr (some (f record)) } := by
  rw [modifyPcb, assignAt_some here]
  rfl

theorem modifyQueue_some {queue : Queue} (here : b.queues addr = some queue)
    (f : Queue → Queue) : b.modifyQueue (some addr) f =
      .ok { b with queues := Function.update b.queues addr (some (f queue)) } := by
  rw [modifyQueue, assignAt_some here]
  rfl

theorem modifyNode_some {node : QueueNode} (here : b.nodes addr = some node)
    (f : QueueNode → QueueNode) : b.modifyNode (some addr) f =
      .ok { b with nodes := Function.update b.nodes addr (some (f node)) } := by
  rw [modifyNode, assignAt_some here]
  rfl

theorem freeNode_some {node : QueueNode} (here : b.nodes addr = some node) :
    b.freeNode (some addr) = .ok { b with nodes := Function.update b.nodes addr none } := by
  rw [freeNode, freeAt_some here]
  rfl

end Spec

end Blocks

end Yalnix
