/-
Module: Yalnix.Sched
Purpose: What the scheduler is for, apart from memory and terminal data: which processes exist,
  where each of them is registered, and the moves that take a process from one place to another.
Trusted boundary: an abstract model; the simulation of the kernel's steps by its moves is proved
Main exports: Proc, Sched, Kernel.sched, Limits, Sched.Dispatch, Sched.WakeParent,
  Sched.Shift, Sched.Move
-/
import Mathlib.Logic.Relation
import Yalnix.Machine

namespace Yalnix

/-- The scheduling fields of a PCB. -/
structure Proc where
  pid : Int
  ppid : Int
  parent : Option PcbPtr
  exitStatus : Int
  waitingForChildPid : Int
  delayTicks : Int
  kernelContext : KernelContext

def PCB.proc (b : PCB) : Proc where
  pid := b.pid
  ppid := b.ppid
  parent := b.parent
  exitStatus := b.exitStatus
  waitingForChildPid := b.waitingForChildPid
  delayTicks := b.delayTicks
  kernelContext := b.kernelContext

/-- The events about processes; the others are about terminal data. -/
def Event.isFamily : Event → Bool
  | .forked .. | .exited .. | .waitReturned .. => true
  | _ => false

/-- The scheduler's state.  `writer` is `current_writer` of each terminal and `history` keeps the
events about processes. -/
structure Sched where
  procs : PcbPtr → Option Proc
  nextPcb : PcbPtr
  pidCalls : Nat
  procTable : Nat → Option PcbPtr
  queues : QueueId → List PcbPtr
  writer : TtyId → Option PcbPtr
  idleProc : PcbPtr
  current : PcbPtr
  ptbr1 : PcbPtr
  mode : Mode
  history : List Event

/-- The scheduler's view of the machine. -/
@[simps -fullyApplied]
def Kernel.sched (s : Kernel) : Sched where
  procs := fun p => (s.heap p).map PCB.proc
  nextPcb := s.nextPcb
  pidCalls := s.pidCalls
  procTable := s.procTable
  queues := s.queues
  writer := fun tty => (s.terminals tty).currentWriter
  idleProc := s.idleProc
  current := s.currentProcess
  ptbr1 := s.ptbr1
  mode := s.mode
  history := s.history.filter Event.isFamily

namespace Sched

/-! ### Elementary changes -/

@[simps -fullyApplied]
def setProc (s : Sched) (p : PcbPtr) (b : Proc) : Sched :=
  { s with procs := Function.update s.procs p (some b) }

@[simps -fullyApplied]
def free (s : Sched) (p : PcbPtr) : Sched :=
  { s with procs := Function.update s.procs p none }

@[simps -fullyApplied]
def setQueue (s : Sched) (q : QueueId) (entries : List PcbPtr) : Sched :=
  { s with queues := Function.update s.queues q entries }

/-- Append to a queue, if there is memory for the node. -/
@[simps! -fullyApplied]
def push (s : Sched) (allocated : Bool) (q : QueueId) (p : PcbPtr) : Sched :=
  s.setQueue q (if allocated then s.queues q ++ [p] else s.queues q)

/-- Unlink the first entry for a process. -/
@[simps! -fullyApplied]
def remove (s : Sched) (q : QueueId) (p : PcbPtr) : Sched :=
  s.setQueue q ((s.queues q).erase p)

@[simps -fullyApplied]
def setWriter (s : Sched) (tty : TtyId) (p : Option PcbPtr) : Sched :=
  { s with writer := Function.update s.writer tty p }

@[simps -fullyApplied]
def log (s : Sched) (e : Event) : Sched := { s with history := s.history ++ [e] }

@[simps -fullyApplied]
def toUser (s : Sched) : Sched := { s with mode := .user }

/-- Give the processor to `next`, inside the kernel. -/
@[simps -fullyApplied]
def enter (s : Sched) (next : PcbPtr) : Sched :=
  { s with current := next, ptbr1 := next, mode := .kernel }

/-- Clear the parent of every listed process. -/
@[simps -fullyApplied]
def orphan (s : Sched) (children : List PcbPtr) : Sched :=
  { s with
    procs := fun p =>
      if p ∈ children then (s.procs p).map fun b => { b with parent := none } else s.procs p }

/-- Forget a process: orphan its children and free its PCB. -/
@[simps! -fullyApplied]
def delete (s : Sched) (p : PcbPtr) : Sched :=
  ((s.orphan (s.queues (.children p))).setQueue (.children p) []).free p

/-- The first empty slot of the process table. -/
def freeSlot (s : Sched) : Option Nat :=
  (List.range maxProcs).find? fun i => (s.procTable i).isNone

/-- The process table once the next PCB has taken the first empty slot. -/
def slotTaken (s : Sched) : Nat → Option PcbPtr :=
  match s.freeSlot with
  | some i => Function.update s.procTable i (some s.nextPcb)
  | none => s.procTable

/-- The PCB of a process forked by the current one, `b` being the parent's PCB. -/
def newProc (env : Env) (s : Sched) (b : Proc) : Proc :=
  { PCB.fresh.proc with
    pid := env.helperNewPid s.pidCalls
    ppid := b.pid
    kernelContext := .fork s.nextPcb s.current }

/-- The state after a fork, given which of the two queue nodes get memory. -/
@[simps! -fullyApplied]
def spawn (env : Env) (s : Sched) (b : Proc) (inReady inChildren : Bool) : Sched :=
  ((((({ s with
    nextPcb := s.nextPcb + 1
    pidCalls := s.pidCalls + 1
    procTable := s.slotTaken }.setProc s.nextPcb (newProc env s b)).setQueue
      (.children s.nextPcb) []).push inReady .ready s.nextPcb).push
        inChildren (.children s.current) s.nextPcb).log
          (.forked s.current s.nextPcb (env.helperNewPid s.pidCalls)))

/-- The state in which `Exit` looks at the parent; `b` is the PCB of the exiting process. -/
@[simps! -fullyApplied]
def zombified (s : Sched) (b : Proc) (status : Int) (kept : Bool) : Sched :=
  ((s.push kept .zombie s.current).setProc s.current { b with exitStatus := status }).log
    (.exited s.current status)

/-! ### Moves -/

/-- The current process saves `kc` and the next ready process, or idle, gets the processor. -/
inductive Dispatch (kc : KernelContext) : Sched → Sched → Prop where
  | next {s : Sched} {b n : Proc} {p : PcbPtr} {rest : List PcbPtr}
      (current : s.procs s.current = some b) (ready : s.queues .ready = p :: rest)
      (live : s.procs p = some n) :
      Dispatch kc s
        (((s.setQueue .ready rest).setProc s.current { b with kernelContext := kc }).enter p)
  | idle {s : Sched} {b n : Proc}
      (current : s.procs s.current = some b) (ready : s.queues .ready = [])
      (live : s.procs s.idleProc = some n) :
      Dispatch kc s ((s.setProc s.current { b with kernelContext := kc }).enter s.idleProc)

/-- What an exit does to the parent of the exiting process. -/
inductive WakeParent (env : Env) (s : Sched) : Option PcbPtr → Sched → Prop where
  | noParent : WakeParent env s none s
  | waiting {q : PcbPtr} {b : Proc} {k : Nat} (live : s.procs q = some b)
      (flag : b.waitingForChildPid ≠ 0) :
      WakeParent env s (some q)
        ((s.setProc q { b with waitingForChildPid := 0 }).push (env.mallocOk k) .ready q)
  | notWaiting {q : PcbPtr} {b : Proc} (live : s.procs q = some b)
      (flag : b.waitingForChildPid = 0) : WakeParent env s (some q) s

/-- No zombie is a child of the process with this pid. -/
def NoZombieChild (s : Sched) (pid : Int) : Prop :=
  ∀ z ∈ s.queues .zombie, ∀ b, s.procs z = some b → b.ppid ≠ pid

end Sched

/-- Restrictions on the moves of a run: in which states a process may exit, given whether its entry
in the zombie queue gets memory; whether a fork may lose the entry in the children queue; which
zombies may be reaped in which state; and whether failing calls of `Wait`, calls of `Delay` and
terminal calls occur. -/
structure Limits where
  exit : Sched → Bool → Prop
  fork : Bool → Prop
  reap : Sched → PcbPtr → Prop
  fail : Prop
  delay : Prop
  tty : Prop

namespace Sched

/-- Moves that only take processes from one place to another. -/
inductive Shift (env : Env) (limits : Limits) : Sched → Sched → Prop where
  | toUser (s : Sched) : Shift env limits s s.toUser
  /-- A clock tick that leaves the process delayed. -/
  | tick {s : Sched} {p : PcbPtr} {b : Proc} (live : s.procs p = some b)
      (delayed : 1 < b.delayTicks) :
      Shift env limits s (s.setProc p { b with delayTicks := b.delayTicks - 1 })
  /-- The last clock tick of a delay. -/
  | wakeDelayed {s : Sched} {p : PcbPtr} {b : Proc} {k : Nat} (live : s.procs p = some b)
      (delayed : b.delayTicks = 1) :
      Shift env limits s
        (((s.setProc p { b with delayTicks := 0 }).remove .blocked p).push
          (env.mallocOk k) .ready p)
  | wakeReader {s : Sched} {tty : TtyId} {p : PcbPtr} {b : Proc} {rest : List PcbPtr} {k : Nat}
      (live : s.procs p = some b) (queue : s.queues (.readers tty) = p :: rest) :
      Shift env limits s
        (((s.setQueue (.readers tty) rest).remove .blocked p).push (env.mallocOk k) .ready p)
  /-- The terminal is handed to the first blocked writer. -/
  | wakeWriter {s : Sched} {tty : TtyId} {p : PcbPtr} {b : Proc} {rest : List PcbPtr} {k : Nat}
      (live : s.procs p = some b) (queue : s.queues (.writers tty) = p :: rest) :
      Shift env limits s
        (((s.setQueue (.writers tty) rest).remove .blocked p).push (env.mallocOk k) .ready p)
  /-- The same after `BeginTtyTransmit` failed: the writer stays in the blocked queue. -/
  | wakeWriterBlocked {s : Sched} {tty : TtyId} {p : PcbPtr} {b : Proc} {rest : List PcbPtr}
      {k k' : Nat} (failed : env.mallocOk k' = false)
      (live : s.procs p = some b) (queue : s.queues (.writers tty) = p :: rest) :
      Shift env limits s ((s.setQueue (.writers tty) rest).push (env.mallocOk k) .ready p)
  /-- The last chunk of the current writer was sent. -/
  | wakeWriting {s : Sched} {tty : TtyId} {p : PcbPtr} {b : Proc} {k : Nat}
      (live : s.procs p = some b) (writer : s.writer tty = some p) :
      Shift env limits s
        (((s.setWriter tty none).remove .blocked p).push (env.mallocOk k) .ready p)
  | delay {s s' : Sched} {b : Proc} {ticks : Int} {k : Nat} (allowed : limits.delay)
      (user : s.mode = .user) (busy : s.current ≠ s.idleProc)
      (live : s.procs s.current = some b)
      (switch : Dispatch .delay
        ((s.setProc s.current { b with delayTicks := ticks }).push
          (env.mallocOk k) .blocked s.current) s') :
      Shift env limits s s'
  | blockReader {s s' : Sched} {tty : TtyId} {buf : Word} {len k k' : Nat} (allowed : limits.tty)
      (user : s.mode = .user) (busy : s.current ≠ s.idleProc)
      (switch : Dispatch (.ttyRead tty buf len)
        ((s.push (env.mallocOk k) (.readers tty) s.current).push
          (env.mallocOk k') .blocked s.current) s') :
      Shift env limits s s'
  | blockWriter {s s' : Sched} {tty : TtyId} {buf : Word} {len k k' : Nat} (allowed : limits.tty)
      (user : s.mode = .user) (busy : s.current ≠ s.idleProc)
      (switch : Dispatch (.ttyWriteLock tty buf len)
        ((s.push (env.mallocOk k) (.writers tty) s.current).push
          (env.mallocOk k') .blocked s.current) s') :
      Shift env limits s s'
  /-- The terminal is the current process's: it called `TtyWrite`, or was handed the terminal. -/
  | blockWriting {s s' : Sched} {tty : TtyId} {len k : Nat}
      (allowed : limits.tty ∨ ∃ b buf n,
        s.procs s.current = some b ∧ b.kernelContext = .ttyWriteLock tty buf n)
      (switch : Dispatch (.ttyWriteDone tty len)
        ((s.setWriter tty (some s.current)).push (env.mallocOk k) .blocked s.current) s') :
      Shift env limits s s'
  /-- `Wait` finds no zombie and blocks. -/
  | blockWait {s s' : Sched} {b : Proc} {statusPtr : Word}
      (user : s.mode = .user) (busy : s.current ≠ s.idleProc)
      (live : s.procs s.current = some b) (none : s.NoZombieChild b.pid)
      (switch : Dispatch (.wait statusPtr)
        (s.setProc s.current { b with waitingForChildPid := 1 }) s') :
      Shift env limits s s'
  /-- The clock gives the processor to the next ready process; `kept` tells whether the interrupted
  one is put in the ready queue. -/
  | preempt {s : Sched} {b n : Proc} {p : PcbPtr} {rest : List PcbPtr} {kept : Bool}
      (user : s.mode = .user) (live : s.procs s.current = some b)
      (ready : s.queues .ready = p :: rest) (next : s.procs p = some n) :
      Shift env limits s
        ((((s.setQueue .ready rest).push kept .ready s.current).setProc s.current
          { b with kernelContext := .clockTrap }).enter p)

/-- One move of the scheduler. -/
inductive Move (env : Env) (limits : Limits) : Sched → Sched → Prop where
  | shift {s s' : Sched} (moved : Shift env limits s s') : Move env limits s s'
  | exit {s woken s' : Sched} {b : Proc} {status : Int} {frame : UserContext}
      {origin : ExitOrigin} {k : Nat} (allowed : limits.exit s (env.mallocOk k))
      (user : s.mode = .user) (busy : s.current ≠ s.idleProc)
      (live : s.procs s.current = some b) (notInit : b.pid ≠ 1)
      (wake : WakeParent env (s.zombified b status (env.mallocOk k)) b.parent woken)
      (switch : Dispatch (.exit frame origin) woken s') :
      Move env limits s s'
  | fork {s : Sched} {b : Proc} {k k' i : Nat} (allowed : limits.fork (env.mallocOk k'))
      (user : s.mode = .user) (busy : s.current ≠ s.idleProc)
      (live : s.procs s.current = some b) (other : s.current ≠ s.nextPcb)
      (slot : s.freeSlot = some i) :
      Move env limits s
        (s.spawn env b (env.mallocOk k) (env.mallocOk k'))
  /-- A forked child runs for the first time. -/
  | childReturn {s : Sched} {b q : Proc} {child parent : PcbPtr} (inKernel : s.mode = .kernel)
      (live : s.procs s.current = some b) (saved : b.kernelContext = .fork child parent)
      (parentLive : s.procs parent = some q) (pids : b.pid ≠ q.pid) :
      Move env limits s (s.setProc s.current { b with parent := some parent }).toUser
  /-- A forked child whose pid is its parent's runs the parent's part of `Fork`. -/
  | forkAgain {s : Sched} {b q c : Proc} {child parent : PcbPtr} {k k' : Nat}
      (inKernel : s.mode = .kernel) (live : s.procs s.current = some b)
      (saved : b.kernelContext = .fork child parent) (parentLive : s.procs parent = some q)
      (childLive : s.procs child = some c) (pids : b.pid = q.pid) :
      Move env limits s
        (((s.push (env.mallocOk k) .ready child).push
          (env.mallocOk k') (.children parent) child).log (.forked parent child c.pid)).toUser
  | reap {s : Sched} {b c : Proc} {z : PcbPtr} {statusPtr : Word} (allowed : limits.reap s z)
      (live : s.procs s.current = some b) (zombie : z ∈ s.queues .zombie)
      (dead : s.procs z = some c) (child : c.ppid = b.pid) :
      Move env limits s
        (((((s.remove (.children s.current) z).remove .zombie z).delete z).log
          (.waitReturned s.current statusPtr c.pid)).toUser)
  /-- `Wait` returns at once because its caller has no entry in its children queue. -/
  | noChildren {s : Sched} {statusPtr : Word} (allowed : limits.fail) (user : s.mode = .user)
      (busy : s.current ≠ s.idleProc) (empty : s.queues (.children s.current) = []) :
      Move env limits s (s.log (.waitReturned s.current statusPtr (-1)))
  /-- `Wait` was woken and finds no zombie. -/
  | noZombie {s : Sched} {b : Proc} {statusPtr : Word} (allowed : limits.fail)
      (inKernel : s.mode = .kernel) (live : s.procs s.current = some b)
      (saved : b.kernelContext = .wait statusPtr) (none : s.NoZombieChild b.pid) :
      Move env limits s (s.log (.waitReturned s.current statusPtr (-1))).toUser

/-- A sequence of moves. -/
abbrev Moves (env : Env) (limits : Limits) : Sched → Sched → Prop :=
  Relation.ReflTransGen (Move env limits)

end Sched

end Yalnix
