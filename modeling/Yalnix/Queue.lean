/-
Module: Yalnix.Queue
Purpose: The queues of queue.c with their nodes and pointers.
Trusted boundary: translated from src/queue.c and src/traps/trap.c; what TracePrintf prints is
  left out, a loop is followed for `fuel` iterations, and queueIterate also returns the processes
  it visits
Main exports: newNode, queueCreate, queueRemove, queueEnqueue, queueDequeue, queueIterate,
  isInQueue, isEmpty, trapHandlerHelper
-/
import Yalnix.Blocks

namespace Yalnix.Blocks

/-- `newNode`. -/
def newNode (A : Allocator) (b : Blocks) : Except Fault (Option Addr × Blocks) :=
  match b.malloc A with
  | (none, b) => .ok (none, b)
  | (some node, b) => do
      let b := { b with nodes := Function.update b.nodes node (some A.garbageNode) }
      let b ← b.modifyNode (some node) fun n =>
        { n with process := none, next := none, prev := none }
      return (some node, b)

/-- `queueCreate`. -/
def queueCreate (A : Allocator) (b : Blocks) : Except Fault (Option Addr × Blocks) :=
  match b.malloc A with
  | (none, b) => .ok (none, b)
  | (some queue, b) => do
      let b := { b with queues := Function.update b.queues queue (some A.garbageQueue) }
      let b ← b.modifyQueue (some queue) fun q => { q with head := none, tail := none }
      return (some queue, b)

/-- `if (prev == NULL) queue->head = next; else prev->next = next;` -/
def linkNext (queue : Addr) (prev next : Option Addr) (b : Blocks) : Except Fault Blocks :=
  if prev = none then b.modifyQueue (some queue) fun q => { q with head := next }
  else b.modifyNode prev fun n => { n with next := next }

/-- `if (next == NULL) queue->tail = prev; else next->prev = prev;` -/
def linkPrev (queue : Addr) (next prev : Option Addr) (b : Blocks) : Except Fault Blocks :=
  if next = none then b.modifyQueue (some queue) fun q => { q with tail := prev }
  else b.modifyNode next fun n => { n with prev := prev }

/-- What `queueRemove` does with the node it looks for. -/
def removeNode (queue node : Addr) (b : Blocks) : Except Fault Blocks := do
  let n ← readAt b.nodes (some node)
  let b ← b.linkNext queue n.prev n.next
  let n ← readAt b.nodes (some node)
  let b ← b.linkPrev queue n.next n.prev
  b.freeNode (some node)

/-- The loop of `queueRemove`, at `node`. -/
def queueRemoveLoop (queue process : Addr) : Nat → Option Addr → Blocks → Except Fault Blocks
  | _, none, b => .ok b
  | 0, some _, _ => .error .unfinished
  | fuel + 1, some node, b => do
      let n ← readAt b.nodes (some node)
      if n.process = some process then removeNode queue node b
      else queueRemoveLoop queue process fuel n.next b

/-- `queueRemove`. -/
def queueRemove (fuel : Nat) (queue process : Option Addr) (b : Blocks) : Except Fault Blocks :=
  match queue, process with
  | none, _ => .error .halt
  | some _, none => .error .halt
  | some queue, some process => do
      let q ← readAt b.queues (some queue)
      queueRemoveLoop queue process fuel q.head b

/-- `queueEnqueue`. -/
def queueEnqueue (A : Allocator) (queue process : Option Addr) (b : Blocks) : Except Fault Blocks :=
  match queue, process with
  | none, _ => .error .halt
  | some _, none => .error .halt
  | some queue, some process => do
      let r ← b.newNode A
      match r.1 with
      | none => return r.2
      | some node =>
          let b := r.2
          let q ← readAt b.queues (some queue)
          let b ← b.modifyNode (some node) fun n =>
            { n with process := some process, next := none, prev := q.tail }
          let b ← (if q.head = none then
              b.modifyQueue (some queue) fun q => { q with head := some node }
            else b.modifyNode q.tail fun n => { n with next := some node })
          b.modifyQueue (some queue) fun q => { q with tail := some node }

/-- `queueDequeue`.  After `queue->head = node->next` the new head is `node->next`. -/
def queueDequeue (queue : Option Addr) (b : Blocks) : Except Fault (Option Addr × Blocks) :=
  match queue with
  | none => .error .halt
  | some queue => do
      let q ← readAt b.queues (some queue)
      match q.head with
      | none => return (none, b)
      | some node =>
          let n ← readAt b.nodes (some node)
          let b ← b.modifyQueue (some queue) fun q => { q with head := n.next }
          let b ← b.linkPrev queue n.next none
          let b ← b.freeNode (some node)
          return (n.process, b)

/-- The loop of `queueIterate`, at `node`: `itemfunc` works on the blocks and on whatever else it
changes.  The processes it is called with are returned. -/
def queueIterateLoop {σ : Type} (itemfunc : Option Addr → σ × Blocks → Except Fault (σ × Blocks)) :
    Nat → Option Addr → σ × Blocks → Except Fault (List (Option Addr) × σ × Blocks)
  | _, none, t => .ok ([], t)
  | 0, some _, _ => .error .unfinished
  | fuel + 1, some node, t => do
      let n ← readAt t.2.nodes (some node)
      let t ← itemfunc n.process t
      let r ← queueIterateLoop itemfunc fuel n.next t
      return (n.process :: r.1, r.2)

/-- `queueIterate`. -/
def queueIterate {σ : Type} (fuel : Nat) (queue : Option Addr)
    (itemfunc : Option Addr → σ × Blocks → Except Fault (σ × Blocks)) (t : σ × Blocks) :
    Except Fault (List (Option Addr) × σ × Blocks) :=
  match queue with
  | none => .ok ([], t)
  | some queue => do
      let q ← readAt t.2.queues (some queue)
      queueIterateLoop itemfunc fuel q.head t

/-- The loop of `is_in_queue`, at `node`. -/
def isInQueueLoop (process : Addr) (b : Blocks) : Nat → Option Addr → Except Fault Bool
  | _, none => .ok false
  | 0, some _ => .error .unfinished
  | fuel + 1, some node => do
      let n ← readAt b.nodes (some node)
      if n.process = some process then return true
      else isInQueueLoop process b fuel n.next

/-- `is_in_queue`. -/
def isInQueue (fuel : Nat) (queue process : Option Addr) (b : Blocks) : Except Fault Bool :=
  match queue, process with
  | none, _ => .error .halt
  | some _, none => .error .halt
  | some queue, some process => do
      let q ← readAt b.queues (some queue)
      isInQueueLoop process b fuel q.head

/-- `is_empty`. -/
def isEmpty (queue : Option Addr) (b : Blocks) : Except Fault Bool :=
  match queue with
  | none => .error .halt
  | some queue => do
      let q ← readAt b.queues (some queue)
      return q.head.isNone

/-- `trapHandlerHelper`, the callback of the clock trap handler. -/
def trapHandlerHelper (A : Allocator) (blockedQueue readyQueue : Option Addr) (fuel : Nat)
    (process : Option Addr) (b : Blocks) : Except Fault Blocks := do
  let r ← readAt b.pcbs process
  if 0 < r.delayTicks then
    let b ← b.modifyPcb process fun r => { r with delayTicks := r.delayTicks - 1 }
    if r.delayTicks - 1 = 0 then
      let b ← b.queueRemove fuel blockedQueue process
      let b ← b.modifyPcb process fun r => { r with state := .ready }
      b.queueEnqueue A readyQueue process
    else return b
  else return b

end Yalnix.Blocks
