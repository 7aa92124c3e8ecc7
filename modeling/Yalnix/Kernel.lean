/-
Module: Yalnix.Kernel
Purpose: The kernel's data: process control blocks, queues, terminals and the global state, with
  the primitive accesses every kernel function is written in.
Trusted boundary: translated from proc.h, tty.h, queue.c and proc.c; the libraries outside the
  repository enter through `Env`
Main exports: Env, PCB, KernelContext, Terminal, Event, Kernel, deref, modifyPcb, queueEnqueue,
  queueDequeue, queueRemove, loadUser, storeUser
-/
import Mathlib.Tactic.Simps.Basic
import Yalnix.Memory

namespace Yalnix

/-- The address of a PCB.  An address that was freed is never handed out again, so that a stale
pointer stays recognisable. -/
abbrev PcbPtr := Nat

/-- What the kernel takes from the libraries it is linked with: the pid returned by the `k`-th call
of `helper_new_pid`, whether the `k`-th call of `malloc` returns memory, and how many iterations of
the shrinking loop of `Brk` are followed. -/
structure Env where
  helperNewPid : Nat → Int
  mallocOk : Nat → Bool
  brkFuel : Nat

/-- `proc_state_t`. -/
inductive ProcState where
  | free
  | ready
  | running
  | blocked
  | zombie
  | orphan
deriving DecidableEq, Repr, Inhabited

/-- The kernel path that called `Exit`. -/
inductive ExitOrigin where
  | syscall
  | memoryTrap
  | fatalTrap
deriving DecidableEq, Repr

/-- A saved kernel context: the `KernelContextSwitch` call a process will return from, with the
local variables its kernel stack still holds there. -/
inductive KernelContext where
  /-- Zeroed by `allocNewPCB`: nothing was saved yet. -/
  | unsaved
  /-- The copy that `KernelStart` makes for init. -/
  | kernelStart
  /-- The copy that `Fork` makes for the child. -/
  | fork (child parent : PcbPtr)
  | clockTrap
  | delay
  | wait (statusPtr : Word)
  | ttyRead (tty : TtyId) (buf : Word) (len : Nat)
  /-- In `TtyWrite`, waiting for the terminal. -/
  | ttyWriteLock (tty : TtyId) (buf : Word) (len : Nat)
  /-- In `TtyWrite`, waiting for the last chunk. -/
  | ttyWriteDone (tty : TtyId) (len : Nat)
  /-- In `Exit`; `frame` is the trap frame below it on the kernel stack. -/
  | exit (frame : UserContext) (origin : ExitOrigin)

def KernelContext.isExit : KernelContext → Bool
  | .exit .. => true
  | _ => false

def KernelContext.isWait : KernelContext → Bool
  | .wait _ => true
  | _ => false

def KernelContext.isFork : KernelContext → Bool
  | .fork .. => true
  | _ => false

/-- `INVALID_PID`. -/
@[simp] def invalidPid : Int := -1

/-- `PCB`.  Left out: the fields no function reads (`next`, `prev`, `last_run_tick`,
`tty_write_buf`, `tty_write_len`); `children_processes` is the queue `QueueId.children`. -/
structure PCB where
  pid : Int
  state : ProcState
  ppid : Int
  exitStatus : Int
  ptbr : PageTable
  ptlr : Nat
  userContext : UserContext
  kernelContext : KernelContext
  kstack : Option PageTable
  userHeapStartVaddr : Word
  userHeapEndVaddr : Word
  userStackBaseVaddr : Word
  parent : Option PcbPtr
  waitingForChildPid : Int
  delayTicks : Int
  ttyReadBuf : Word
  ttyReadLen : Nat
  ttyKernelReadBuf : Option (List Byte)
  kernelReadSize : Nat

/-- The PCB as `allocNewPCB` initialises it. -/
def PCB.fresh : PCB where
  pid := 0
  state := .free
  ppid := invalidPid
  exitStatus := 0
  ptbr := fun _ => Pte.zero
  ptlr := maxPtLen
  userContext := UserContext.zero
  kernelContext := .unsaved
  kstack := none
  userHeapStartVaddr := BitVec.ofNat 32 vmem1Base
  userHeapEndVaddr := BitVec.ofNat 32 vmem1Base
  userStackBaseVaddr := BitVec.ofNat 32 vmem1Limit
  parent := none
  waitingForChildPid := invalidPid
  delayTicks := 0
  ttyReadBuf := 0
  ttyReadLen := 0
  ttyKernelReadBuf := none
  kernelReadSize := 0

/-- The `queue_t` objects, by their owner.  `waiting_parents` is left out: no function uses it. -/
inductive QueueId where
  | ready
  | blocked
  | zombie
  | children (p : PcbPtr)
  | readers (tty : TtyId)
  | writers (tty : TtyId)
deriving DecidableEq, Repr

/-- `terminal_t`; `blocked_readers` and `blocked_writers` are queues. -/
structure Terminal where
  readBuffer : List Byte
  readBufferLen : Nat
  writeBuffer : Option (List Byte)
  writeBufferLen : Nat
  writeBufferPosition : Nat
  currentWriter : Option PcbPtr
  inUse : Bool

/-- What an observer of the machine sees, in order: the calls the kernel makes to the terminals,
the traps they answer with, and the progress of the system calls. -/
inductive Event where
  | forked (parent child : PcbPtr) (pid : Int)
  | exited (p : PcbPtr) (status : Int)
  | waitReturned (p : PcbPtr) (statusPtr : Word) (rc : Int)
  | ttyWriteCalled (p : PcbPtr) (tty : TtyId) (bytes : List Byte)
  | ttyTransmit (tty : TtyId) (bytes : List Byte)
  | ttyTransmitTrap (tty : TtyId)
  | ttyWriteReturned (p : PcbPtr) (tty : TtyId) (rc : Int)
  | ttyReceive (tty : TtyId) (bytes : List Byte)
  /-- `TtyRead` blocks the caller; `queued` tells whether it entered `blocked_readers`. -/
  | ttyReadBlocked (p : PcbPtr) (tty : TtyId) (queued : Bool)
  /-- A block of bytes leaves the read buffer for `p`. -/
  | ttyReadTaken (p : PcbPtr) (tty : TtyId) (bytes : List Byte)
  /-- The receive handler serves the blocked reader `p`. -/
  | ttyReaderServed (p : PcbPtr) (tty : TtyId)
  | ttyReadReturned (p : PcbPtr) (tty : TtyId) (buf : Word) (len : Int) (rc : Int)
deriving DecidableEq

/-- Whether the current process runs its program, or is still inside the kernel, just switched to
and about to return from the `KernelContextSwitch` it saved. -/
inductive Mode where
  | user
  | kernel
deriving DecidableEq, Repr

/-- The state of the machine while the kernel is in charge of it.  `ptbr1` and `ptlr1` are the
registers `REG_PTBR1` and `REG_PTLR1`, the first one read as the PCB whose table it points to;
`ctx` is the trap frame the current process returns to user mode with; `history` records the events
so far and is read by no kernel function. -/
structure Kernel where
  mem : Memory
  heap : PcbPtr → Option PCB
  nextPcb : PcbPtr
  queues : QueueId → List PcbPtr
  procTable : Nat → Option PcbPtr
  terminals : TtyId → Terminal
  idleProc : PcbPtr
  currentProcess : PcbPtr
  ptbr1 : PcbPtr
  ptlr1 : Nat
  mode : Mode
  ctx : UserContext
  mallocCalls : Nat
  pidCalls : Nat
  history : List Event

namespace Kernel

/-! ### Memory cells -/

/-- Read the PCB behind a pointer. -/
def deref (s : Kernel) (p : PcbPtr) : Except Stop PCB :=
  match s.heap p with
  | some pcb => .ok pcb
  | none => .error (.danglingPcb p)

/-- Overwrite a PCB. -/
@[simps -fullyApplied]
def setPcb (s : Kernel) (p : PcbPtr) (pcb : PCB) : Kernel :=
  { s with heap := Function.update s.heap p (some pcb) }

/-- Assign to fields of the PCB behind a pointer. -/
def modifyPcb (s : Kernel) (p : PcbPtr) (f : PCB → PCB) : Except Stop Kernel := do
  let pcb ← s.deref p
  return s.setPcb p (f pcb)

@[simps -fullyApplied]
def setTerminal (s : Kernel) (tty : TtyId) (terminal : Terminal) : Kernel :=
  { s with terminals := Function.update s.terminals tty terminal }

@[simps -fullyApplied]
def setQueue (s : Kernel) (q : QueueId) (entries : List PcbPtr) : Kernel :=
  { s with queues := Function.update s.queues q entries }

@[simps -fullyApplied]
def setMem (s : Kernel) (m : Memory) : Kernel := { s with mem := m }

@[simps -fullyApplied]
def log (s : Kernel) (e : Event) : Kernel := { s with history := s.history ++ [e] }

/-- `malloc`: whether it returns memory, and the state after the call. -/
@[simps -fullyApplied]
def malloc (env : Env) (s : Kernel) : Bool × Kernel :=
  (env.mallocOk s.mallocCalls, { s with mallocCalls := s.mallocCalls + 1 })

/-- `memcpy(&current_process->user_context, ctx, sizeof(UserContext))`. -/
def saveContext (s : Kernel) : Except Stop Kernel :=
  s.modifyPcb s.currentProcess fun pcb => { pcb with userContext := s.ctx }

/-- `memcpy(ctx, &current_process->user_context, sizeof(UserContext))`, and back to user mode. -/
def restoreContext (s : Kernel) : Except Stop Kernel := do
  let pcb ← s.deref s.currentProcess
  return { s with ctx := pcb.userContext, mode := .user }

/-- As `restoreContext`, with `ctx->regs[0] = rc`. -/
def returnToUser (s : Kernel) (rc : Int) : Except Stop Kernel := do
  let s ← s.restoreContext
  return { s with ctx := s.ctx.setReturn rc }

/-! ### Queues

A queue is the list of its entries, head first. -/

/-- `queueEnqueue`: when the node cannot be allocated the queue is left alone. -/
def queueEnqueue (env : Env) (s : Kernel) (q : QueueId) (p : PcbPtr) : Kernel :=
  let (allocated, s) := s.malloc env
  if allocated then s.setQueue q (s.queues q ++ [p]) else s

/-- `queueDequeue`. -/
def queueDequeue (s : Kernel) (q : QueueId) : Option PcbPtr × Kernel :=
  match s.queues q with
  | [] => (none, s)
  | p :: rest => (some p, s.setQueue q rest)

/-- `queueRemove`: the first entry for the process, if there is one. -/
@[simps! -fullyApplied]
def queueRemove (s : Kernel) (q : QueueId) (p : PcbPtr) : Kernel :=
  s.setQueue q ((s.queues q).erase p)

/-- `is_empty`. -/
def isEmpty (s : Kernel) (q : QueueId) : Bool := (s.queues q).isEmpty

/-! ### User memory -/

/-- Read user memory through `REG_PTBR1`. -/
def loadUser (s : Kernel) (va : Word) (n : Nat) : Except Stop (List Byte) := do
  let pcb ← s.deref s.ptbr1
  s.mem.loadRange pcb.ptbr va.toNat n

/-- Write user memory through `REG_PTBR1`.  A store of the kernel through a pointer into region 0,
which would overwrite the kernel itself, is not modelled: it ends the path. -/
def storeUser (s : Kernel) (va : Word) (bytes : List Byte) : Except Stop Kernel := do
  let pcb ← s.deref s.ptbr1
  let m ← s.mem.storeRange pcb.ptbr va.toNat bytes
  return s.setMem m

/-- The bytes the region 1 table of `p` gives for `[va, va + n)`. -/
def userBytes (s : Kernel) (p : PcbPtr) (va : Word) (n : Nat) : List Byte :=
  match s.heap p with
  | some pcb => s.mem.bytesAt pcb.ptbr va.toNat n
  | none => []

end Kernel

end Yalnix
