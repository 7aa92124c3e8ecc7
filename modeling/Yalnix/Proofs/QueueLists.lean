/-
Module: Yalnix.Proofs.QueueLists
Purpose: The queues of queue.c refine lists: a call does what the list operation does, a run is a
  run of lists, and every queue is a well formed doubly linked list.
Trusted boundary: none
Main exports: QueueCall, QueueStep, ListStep, Represents.call, trace_refines, WellLinked,
  Represents.wellLinked, Mirrors
-/
import Yalnix.Lib.Transition
import Yalnix.Proofs.Queues

namespace Yalnix

open Linked Blocks Transition

variable {A : Allocator} {b b' b₀ : Blocks} {q a a' : Addr} {L L' : Layout}
  {entries front back : List (Addr × Addr)} {process : Addr}

/-! ### Calls -/

/-- A call of an operation on queues. -/
inductive QueueCall where
  | queueCreate
  | queueEnqueue (queue process : Addr)
  | queueDequeue (queue : Addr)
  | queueRemove (queue process : Addr)
  | isInQueue (queue process : Addr)
  | isEmpty (queue : Addr)
deriving DecidableEq, Repr

/-- What a call returns. -/
inductive QueueReply where
  | void
  | pointer (p : Option Addr)
  | flag (value : Bool)
deriving DecidableEq, Repr

namespace QueueCall

/-- Run a call, its loop followed for `fuel` iterations. -/
def run (A : Allocator) (fuel : Nat) : QueueCall → Blocks → Except Fault (QueueReply × Blocks)
  | queueCreate, b => do
      let r ← b.queueCreate A
      return (.pointer r.1, r.2)
  | queueEnqueue queue process, b => do
      let b ← b.queueEnqueue A (some queue) (some process)
      return (.void, b)
  | queueDequeue queue, b => do
      let r ← b.queueDequeue (some queue)
      return (.pointer r.1, r.2)
  | queueRemove queue process, b => do
      let b ← b.queueRemove fuel (some queue) (some process)
      return (.void, b)
  | isInQueue queue process, b => do
      let found ← b.isInQueue fuel (some queue) (some process)
      return (.flag found, b)
  | isEmpty queue, b => do
      let empty ← b.isEmpty (some queue)
      return (.flag empty, b)

/-- The queue of the call exists, and there is memory for the node it needs. -/
def Callable (A : Allocator) (b : Blocks) : QueueCall → Prop
  | queueCreate => True
  | queueEnqueue queue _ =>
      (b.queues queue).isSome ∧ (A.malloc b.mallocCalls b.inUse).isSome
  | queueDequeue queue => (b.queues queue).isSome
  | queueRemove queue _ => (b.queues queue).isSome
  | isInQueue queue _ => (b.queues queue).isSome
  | isEmpty queue => (b.queues queue).isSome

/-- The call ends, with this result however long its loop is followed from some point on. -/
def Returns (A : Allocator) (b : Blocks) (call : QueueCall) (reply : QueueReply) (b' : Blocks) :
    Prop :=
  ∃ enough, ∀ fuel ≥ enough, call.run A fuel b = .ok (reply, b')

theorem Returns.deterministic {call : QueueCall} {reply reply' : QueueReply}
    (one : Returns A b call reply b') {b'' : Blocks} (two : Returns A b call reply' b'') :
    reply = reply' ∧ b' = b'' := by
  obtain ⟨enough, ran⟩ := one
  obtain ⟨enough', ran'⟩ := two
  have first := ran (max enough enough') (Nat.le_max_left ..)
  rw [ran' (max enough enough') (Nat.le_max_right ..)] at first
  cases first
  exact ⟨rfl, rfl⟩

end QueueCall

open QueueCall

/-- A call with its reply, or anything else the kernel does. -/
abbrev QueueEvent := Option (QueueCall × QueueReply)

/-- One step: a call, or a change to other blocks than queues and their nodes. -/
def QueueStep (A : Allocator) (b : Blocks) : QueueEvent → Blocks → Prop
  | none, b' => b'.queues = b.queues ∧ b'.nodes = b.nodes
  | some (call, reply), b' => call.Callable A b ∧ call.Returns A b reply b'

/-! ### What the calls do to lists -/

/-- The queues that exist, each with its processes. -/
abbrev Lists := Addr → Option (List Addr)

/-- The operations as those of lists. -/
inductive ListStep (lists : Lists) : QueueCall → QueueReply → Lists → Prop where
  | created {q : Addr} (new : lists q = none) :
      ListStep lists .queueCreate (.pointer (some q)) (Function.update lists q (some []))
  | noMemory : ListStep lists .queueCreate (.pointer none) lists
  | enqueued {q : Addr} {list : List Addr} (here : lists q = some list) (process : Addr) :
      ListStep lists (.queueEnqueue q process) .void
        (Function.update lists q (some (list ++ [process])))
  | dequeued {q : Addr} {list : List Addr} (here : lists q = some list) :
      ListStep lists (.queueDequeue q) (.pointer list.head?)
        (Function.update lists q (some list.tail))
  | removed {q : Addr} {list : List Addr} (here : lists q = some list) (process : Addr) :
      ListStep lists (.queueRemove q process) .void
        (Function.update lists q (some (list.erase process)))
  | searched {q : Addr} {list : List Addr} (here : lists q = some list) (process : Addr) :
      ListStep lists (.isInQueue q process) (.flag (decide (process ∈ list))) lists
  | tested {q : Addr} {list : List Addr} (here : lists q = some list) :
      ListStep lists (.isEmpty q) (.flag list.isEmpty) lists

/-- What a step does to lists. -/
def ListEvent (lists : Lists) : QueueEvent → Lists → Prop
  | none, lists' => lists' = lists
  | some (call, reply), lists' => ListStep lists call reply lists'

/-- The same on layouts: an enqueued process gets a node, the other nodes stay. -/
inductive LayoutStep (L : Layout) : QueueCall → QueueReply → Layout → Prop where
  | created {q : Addr} (new : L q = none) :
      LayoutStep L .queueCreate (.pointer (some q)) (Function.update L q (some []))
  | noMemory : LayoutStep L .queueCreate (.pointer none) L
  | enqueued {q : Addr} {entries : List (Addr × Addr)} (here : L q = some entries)
      (node process : Addr) :
      LayoutStep L (.queueEnqueue q process) .void
        (Function.update L q (some (entries ++ [(node, process)])))
  | dequeued {q : Addr} {entries : List (Addr × Addr)} (here : L q = some entries) :
      LayoutStep L (.queueDequeue q) (.pointer (entries.map Prod.snd).head?)
        (Function.update L q (some entries.tail))
  | removed {q : Addr} {entries : List (Addr × Addr)} (here : L q = some entries)
      (process : Addr) :
      LayoutStep L (.queueRemove q process) .void
        (Function.update L q (some (entries.eraseP fun e => e.2 = process)))
  | searched {q : Addr} {entries : List (Addr × Addr)} (here : L q = some entries)
      (process : Addr) :
      LayoutStep L (.isInQueue q process)
        (.flag (decide (process ∈ entries.map Prod.snd))) L
  | tested {q : Addr} {entries : List (Addr × Addr)} (here : L q = some entries) :
      LayoutStep L (.isEmpty q) (.flag entries.isEmpty) L

/-- The processes of a layout. -/
def items (L : Layout) : Lists := fun q => (L q).map (List.map Prod.snd)

theorem items_of_eq (here : L q = some entries) : items L q = some (entries.map Prod.snd) := by
  rw [items, here]
  rfl

theorem items_update (q : Addr) (entries : List (Addr × Addr)) :
    items (Function.update L q (some entries)) =
      Function.update (items L) q (some (entries.map Prod.snd)) := by
  funext q'
  by_cases same : q' = q
  · subst same
    simp [items]
  · simp [items, same]

/-- On the processes, a step of the layout is one of lists. -/
theorem LayoutStep.items {call : QueueCall} {reply : QueueReply}
    (taken : LayoutStep L call reply L') : ListStep (items L) call reply (items L') := by
  cases taken with
  | created new =>
      rw [items_update]
      refine .created ?_
      rw [Yalnix.items, new]
      rfl
  | noMemory => exact .noMemory
  | enqueued here node process =>
      rw [items_update, List.map_append]
      exact .enqueued (items_of_eq here) process
  | dequeued here =>
      rw [items_update, List.map_tail]
      exact .dequeued (items_of_eq here)
  | @removed q entries here process =>
      have erased : (entries.eraseP fun e => e.2 = process).map Prod.snd =
          (entries.map Prod.snd).erase process := by
        rw [List.erase_eq_eraseP', List.eraseP_map]
        congr 1
      rw [items_update, erased]
      exact .removed (items_of_eq here) process
  | searched here process => exact .searched (items_of_eq here) process
  | @tested q entries here =>
      rw [← @List.isEmpty_map _ _ entries Prod.snd]
      exact .tested (items_of_eq here)

/-- A queue that exists is laid out. -/
theorem Represents.laidOut (rep : Represents b L) (exists_ : (b.queues q).isSome) :
    ∃ entries, L q = some entries := by
  rw [rep.ends, Option.isSome_map] at exists_
  exact Option.isSome_iff_exists.mp exists_

/-- Every call on queues that are laid out comes back, and changes the layout accordingly. -/
theorem Represents.call (rep : Represents b L) {call : QueueCall}
    (callable : call.Callable A b) :
    ∃ reply b' L', call.Returns A b reply b' ∧ Represents b' L' ∧ LayoutStep L call reply L' := by
  cases call with
  | queueCreate =>
      have created := queueCreate_spec A b
      rcases got : A.malloc b.mallocCalls b.inUse with _ | node
      · rw [got] at created
        refine ⟨.pointer none, { b with mallocCalls := b.mallocCalls + 1 }, L,
          ⟨0, fun fuel _ => ?_⟩, rep.congr rfl rfl, .noMemory⟩
        rw [run, created]
        rfl
      · rw [got] at created
        have new := (nodes_of_fresh got).1
        have absent : L node = none := by
          rw [rep.ends] at new
          exact Option.map_eq_none_iff.mp new
        refine ⟨.pointer (some node), { b with
            queues := Function.update b.queues node (some ⟨none, none⟩)
            mallocCalls := b.mallocCalls + 1 }, _,
          ⟨0, fun fuel _ => ?_⟩, rep.create new rfl rfl, .created absent⟩
        rw [run, created]
        rfl
  | queueEnqueue q process =>
      obtain ⟨entries, here⟩ := rep.laidOut callable.1
      obtain ⟨node, got⟩ := Option.isSome_iff_exists.mp callable.2
      obtain ⟨b', ran, rep', -⟩ := queueEnqueue_spec rep here got process
      refine ⟨.void, b', _, ⟨0, fun fuel _ => ?_⟩, rep', .enqueued here node process⟩
      rw [run, ran]
      rfl
  | queueDequeue q =>
      obtain ⟨entries, here⟩ := rep.laidOut callable
      obtain ⟨b', ran, rep', -⟩ := queueDequeue_spec rep here
      refine ⟨_, b', _, ⟨0, fun fuel _ => ?_⟩, rep', .dequeued here⟩
      rw [run, ran]
      rfl
  | queueRemove q process =>
      obtain ⟨entries, here⟩ := rep.laidOut callable
      obtain ⟨b', ran, rep', -⟩ := queueRemove_spec rep here process
      refine ⟨.void, b', _, ⟨entries.length, fun fuel enough => ?_⟩, rep', .removed here process⟩
      rw [run, ran fuel enough]
      rfl
  | isInQueue q process =>
      obtain ⟨entries, here⟩ := rep.laidOut callable
      refine ⟨_, b, L, ⟨entries.length, fun fuel enough => ?_⟩, rep, .searched here process⟩
      rw [run, isInQueue_spec rep here process enough]
      rfl
  | isEmpty q =>
      obtain ⟨entries, here⟩ := rep.laidOut callable
      refine ⟨_, b, L, ⟨0, fun fuel _ => ?_⟩, rep, .tested here⟩
      rw [run, isEmpty_spec rep here]
      rfl

/-! ### Runs -/

/-- A step keeps the queues laid out, and does to the processes what the list operation does. -/
theorem QueueStep.layout {event : QueueEvent} (rep : Represents b L)
    (taken : QueueStep A b event b') :
    ∃ L', Represents b' L' ∧ (event = none → L' = L) ∧
      ∀ call reply, event = some (call, reply) → LayoutStep L call reply L' := by
  rcases event with _ | ⟨call, reply⟩
  · exact ⟨L, rep.congr taken.1 taken.2, fun _ => rfl, nofun⟩
  · obtain ⟨callable, returned⟩ := taken
    obtain ⟨reply', b'', L', returned', rep', change⟩ := rep.call callable
    obtain ⟨rfl, rfl⟩ := returned.deterministic returned'
    refine ⟨L', rep', nofun, ?_⟩
    rintro _ _ ⟨⟩
    exact change

theorem QueueStep.listEvent {event : QueueEvent} (rep : Represents b L)
    (taken : QueueStep A b event b') :
    ∃ L', Represents b' L' ∧ ListEvent (items L) event (items L') := by
  obtain ⟨L', rep', other, change⟩ := taken.layout rep
  refine ⟨L', rep', ?_⟩
  rcases event with _ | ⟨call, reply⟩
  · rw [other rfl]
    rfl
  · exact (change call reply rfl).items

/-- Blocks without queues and nodes are laid out. -/
theorem represents_empty (noQueues : ∀ a, b.queues a = none) (noNodes : ∀ a, b.nodes a = none) :
    Represents b fun _ => none where
  ends := noQueues
  chain := nofun
  distinct := nofun
  apart := nofun
  owned := fun {a} allocated => by
    rw [noNodes] at allocated
    cases allocated

/-- Every run from there is a run of lists, with the same calls and replies. -/
theorem trace_refines (noQueues : ∀ a, b₀.queues a = none) (noNodes : ∀ a, b₀.nodes a = none)
    {events : List QueueEvent} (trace : Trace (QueueStep A) b₀ events b) :
    ∃ L, Represents b L ∧ Trace ListEvent (fun _ => none) events (items L) := by
  induction trace with
  | nil => exact ⟨fun _ => none, represents_empty noQueues noNodes, Trace.nil⟩
  | snoc run taken inductionHypothesis =>
      obtain ⟨L, rep, lists⟩ := inductionHypothesis
      obtain ⟨L', rep', change⟩ := taken.listEvent rep
      exact ⟨L', rep', lists.snoc change⟩

/-! ### Pointers -/

/-- `next` of a node points to another. -/
def Next (b : Blocks) (a a' : Addr) : Prop := ∃ n, b.nodes a = some n ∧ n.next = some a'

/-- `prev` of a node points to another. -/
def Prev (b : Blocks) (a a' : Addr) : Prop := ∃ n, b.nodes a = some n ∧ n.prev = some a'

/-- A node is reached from the head of a queue. -/
def InQueue (b : Blocks) (q a : Addr) : Prop :=
  ∃ r f, b.queues q = some r ∧ r.head = some f ∧ Relation.ReflTransGen (Next b) f a

/-- The queues are well formed doubly linked lists. -/
structure WellLinked (b : Blocks) : Prop where
  ends : ∀ {q r}, b.queues q = some r → (r.head = none ↔ r.tail = none)
  inverse : ∀ a a', Next b a a' ↔ Prev b a' a
  acyclic : ∀ a, ¬ Relation.TransGen (Next b) a a
  headFirst : ∀ {q r f}, b.queues q = some r → r.head = some f → ∀ a, ¬ Prev b f a
  tailLast : ∀ {q r t}, b.queues q = some r → r.tail = some t →
    InQueue b q t ∧ ∀ a, ¬ Next b t a
  unshared : ∀ {q q' a}, InQueue b q a → InQueue b q' a → q = q'
  allocated : ∀ {q a}, InQueue b q a → (b.nodes a).isSome

namespace Represents

/-- A node that is allocated is somewhere in a queue. -/
theorem located {n : QueueNode} (rep : Represents b L) (node : b.nodes a = some n) :
    ∃ q front p back, L q = some (front ++ (a, p) :: back) ∧
      n = nodeOf p (first none back) (last none front) := by
  obtain ⟨q, entries, here, listed⟩ := rep.owned (by rw [node]; rfl)
  obtain ⟨⟨_, p⟩, member, rfl⟩ := List.mem_map.mp listed
  obtain ⟨front, back, rfl⟩ := List.append_of_mem member
  refine ⟨q, front, p, back, here, ?_⟩
  have cell := (rep.chain here).cell_eq
  rw [node] at cell
  exact Option.some.inj cell

theorem next_eq {p : Addr} (rep : Represents b L) (here : L q = some (front ++ (a, p) :: back))
    (next : Next b a a') : first none back = some a' := by
  obtain ⟨n, node, points⟩ := next
  rw [(rep.chain here).cell_eq] at node
  cases node
  exact points

theorem inverse (rep : Represents b L) : Next b a a' ↔ Prev b a' a := by
  constructor
  · rintro ⟨n, node, points⟩
    obtain ⟨q, front, p, back, here, rfl⟩ := rep.located node
    rcases back with _ | ⟨⟨k, x⟩, back⟩
    · cases points
    · cases points
      have here' : L q = some ((front ++ [(a, p)]) ++ (a', x) :: back) := by
        rw [here, List.append_assoc]
        rfl
      refine ⟨_, (rep.chain here').cell_eq, ?_⟩
      rw [nodeOf, last_append]
      rfl
  · rintro ⟨n, node, points⟩
    obtain ⟨q, front, x, back, here, rfl⟩ := rep.located node
    rcases List.eq_nil_or_concat' front with rfl | ⟨init, ⟨k, p⟩, rfl⟩
    · cases points
    · rw [nodeOf, last_append] at points
      cases points
      rw [List.append_assoc] at here
      exact ⟨_, (rep.chain here).cell_eq, rfl⟩

/-- Following `next` goes down the list. -/
theorem after {p : Addr} (rep : Represents b L) (here : L q = some (front ++ (a, p) :: back))
    (path : Relation.TransGen (Next b) a a') : a' ∈ addrs back := by
  induction path with
  | single next =>
      have firstBack := rep.next_eq here next
      cases back with
      | nil => cases firstBack
      | cons entry rest =>
          cases firstBack
          exact List.mem_cons_self
  | tail _ next inductionHypothesis =>
      obtain ⟨⟨k, x⟩, member, rfl⟩ := List.mem_map.mp inductionHypothesis
      obtain ⟨middle, rest, rfl⟩ := List.append_of_mem member
      have here' : L q = some ((front ++ (a, p) :: middle) ++ (k, x) :: rest) := by
        rw [here, List.append_assoc]
        rfl
      have firstRest := rep.next_eq here' next
      cases rest with
      | nil => cases firstRest
      | cons entry rest =>
          cases firstRest
          simp

theorem acyclic (rep : Represents b L) (a : Addr) : ¬ Relation.TransGen (Next b) a a := by
  intro cycle
  obtain ⟨k, ⟨n, node, -⟩, -⟩ := Relation.TransGen.head'_iff.mp cycle
  obtain ⟨q, front, p, back, here, -⟩ := rep.located node
  have distinct := rep.distinct here
  rw [addrs, List.map_append, List.map_cons, List.nodup_append, List.nodup_cons] at distinct
  exact distinct.2.1.1 (rep.after here cycle)

theorem listed (rep : Represents b L) (inQueue : InQueue b q a) :
    ∃ entries, L q = some entries ∧ a ∈ addrs entries := by
  obtain ⟨r, f, queue, head, path⟩ := inQueue
  obtain ⟨entries, here⟩ := rep.laidOut (by rw [queue]; rfl)
  rw [rep.queue here] at queue
  cases queue
  rcases entries with _ | ⟨⟨k, p⟩, back⟩
  · cases head
  · cases head
    refine ⟨_, here, ?_⟩
    rcases Relation.reflTransGen_iff_eq_or_transGen.mp path with rfl | onwards
    · exact List.mem_cons_self
    · exact List.mem_cons_of_mem _ (@after b q f a L [] back p rep here onwards)

/-- Every node of a list is reached from its head. -/
theorem inQueue {p : Addr} (rep : Represents b L)
    (here : L q = some (front ++ (a, p) :: back)) : InQueue b q a := by
  induction front using List.reverseRecOn generalizing a p back with
  | nil => exact ⟨_, a, rep.queue here, rfl, Relation.ReflTransGen.refl⟩
  | append_singleton init entry inductionHypothesis =>
      obtain ⟨k, x⟩ := entry
      rw [List.append_assoc] at here
      obtain ⟨r, f, queue, head, path⟩ := inductionHypothesis here
      exact ⟨r, f, queue, head, path.tail ⟨_, (rep.chain here).cell_eq, rfl⟩⟩

/-- Queues that are laid out are well formed. -/
theorem wellLinked (rep : Represents b L) : WellLinked b where
  ends := by
    intro q r queue
    obtain ⟨entries, here⟩ := rep.laidOut (by rw [queue]; rfl)
    rw [rep.queue here] at queue
    cases queue
    exact first_eq_none.trans last_eq_none.symm
  inverse := fun _ _ => rep.inverse
  acyclic := rep.acyclic
  headFirst := by
    intro q r f queue head a prev
    obtain ⟨entries, here⟩ := rep.laidOut (by rw [queue]; rfl)
    rw [rep.queue here] at queue
    cases queue
    rcases entries with _ | ⟨⟨k, p⟩, rest⟩
    · cases head
    · cases head
      obtain ⟨n, node, points⟩ := prev
      rw [(segment_cons.mp (rep.chain here)).1] at node
      cases node
      cases points
  tailLast := by
    intro q r t queue tail
    obtain ⟨entries, here⟩ := rep.laidOut (by rw [queue]; rfl)
    rw [rep.queue here] at queue
    cases queue
    rcases List.eq_nil_or_concat' entries with rfl | ⟨init, ⟨k, p⟩, rfl⟩
    · cases tail
    · rw [last_append] at tail
      cases tail
      refine ⟨rep.inQueue here, fun a next => ?_⟩
      cases rep.next_eq here next
  unshared := by
    intro q q' a one two
    obtain ⟨entries, here, inOne⟩ := rep.listed one
    obtain ⟨entries', here', inTwo⟩ := rep.listed two
    by_contra ne
    exact rep.apart here here' ne inOne inTwo
  allocated := by
    intro q a inQueue
    obtain ⟨entries, here, isListed⟩ := rep.listed inQueue
    exact (rep.chain here).isSome isListed

end Represents

/-! ### The queues of the kernel -/

/-- The lists that the kernel's queues are in the model of its data, under addresses for the queues
that exist and for the PCBs. -/
def Mirrors (queueAddr : QueueId → Addr) (pcbAddr : PcbPtr → Addr) (exist : QueueId → Prop)
    (s : Kernel) (lists : Lists) : Prop :=
  ∀ q, exist q → lists (queueAddr q) = some ((s.queues q).map pcbAddr)

namespace Mirrors

variable {queueAddr : QueueId → Addr} {pcbAddr : PcbPtr → Addr} {exist : QueueId → Prop}
  {s s' : Kernel} {lists : Lists} {env : Env} {id : QueueId}

theorem update (mirrors : Mirrors queueAddr pcbAddr exist s lists)
    (apart : Function.Injective queueAddr) {list : List PcbPtr}
    (queues : s'.queues = Function.update s.queues id list) :
    Mirrors queueAddr pcbAddr exist s'
      (Function.update lists (queueAddr id) (some (list.map pcbAddr))) := by
  intro q known
  rw [queues]
  by_cases same : q = id
  · subst same
    rw [Function.update_self, Function.update_self]
  · rw [Function.update_of_ne same, Function.update_of_ne (apart.ne same), mirrors q known]

theorem queueEnqueue (mirrors : Mirrors queueAddr pcbAddr exist s lists)
    (apart : Function.Injective queueAddr) (known : exist id)
    (memory : env.mallocOk s.mallocCalls = true) (p : PcbPtr) :
    ∃ lists', ListStep lists (.queueEnqueue (queueAddr id) (pcbAddr p)) .void lists' ∧
      Mirrors queueAddr pcbAddr exist (s.queueEnqueue env id p) lists' := by
  refine ⟨_, .enqueued (mirrors id known) (pcbAddr p), ?_⟩
  have queues : (s.queueEnqueue env id p).queues =
      Function.update s.queues id (s.queues id ++ [p]) := by
    simp [Kernel.queueEnqueue, memory]
  have mirrored := mirrors.update apart queues
  rw [List.map_append] at mirrored
  exact mirrored

theorem queueDequeue (mirrors : Mirrors queueAddr pcbAddr exist s lists)
    (apart : Function.Injective queueAddr) (known : exist id) :
    ∃ lists', ListStep lists (.queueDequeue (queueAddr id))
        (.pointer ((s.queueDequeue id).1.map pcbAddr)) lists' ∧
      Mirrors queueAddr pcbAddr exist (s.queueDequeue id).2 lists' := by
  have head : (s.queueDequeue id).1.map pcbAddr = ((s.queues id).map pcbAddr).head? := by
    rw [Kernel.queueDequeue]
    rcases s.queues id with _ | ⟨p, rest⟩
    · rfl
    · rfl
  have queues : (s.queueDequeue id).2.queues =
      Function.update s.queues id (s.queues id).tail := by
    rw [Kernel.queueDequeue]
    split
    · rename_i empty
      rw [empty, List.tail_nil, ← empty, Function.update_eq_self]
    · rename_i full
      rw [full]
      rfl
  rw [head]
  refine ⟨_, .dequeued (mirrors id known), ?_⟩
  have mirrored := mirrors.update apart queues
  rw [List.map_tail] at mirrored
  exact mirrored

theorem queueRemove (mirrors : Mirrors queueAddr pcbAddr exist s lists)
    (apart : Function.Injective queueAddr) (distinct : Function.Injective pcbAddr)
    (known : exist id) (p : PcbPtr) :
    ∃ lists', ListStep lists (.queueRemove (queueAddr id) (pcbAddr p)) .void lists' ∧
      Mirrors queueAddr pcbAddr exist (s.queueRemove id p) lists' := by
  refine ⟨_, .removed (mirrors id known) (pcbAddr p), ?_⟩
  have queues : (s.queueRemove id p).queues =
      Function.update s.queues id ((s.queues id).erase p) := rfl
  have mirrored := mirrors.update apart queues
  rw [List.map_erase distinct] at mirrored
  exact mirrored

theorem isEmpty (mirrors : Mirrors queueAddr pcbAddr exist s lists) (known : exist id) :
    ListStep lists (.isEmpty (queueAddr id)) (.flag (s.isEmpty id)) lists := by
  have flag : s.isEmpty id = ((s.queues id).map pcbAddr).isEmpty := by
    rw [Kernel.isEmpty, List.isEmpty_map]
  rw [flag]
  exact .tested (mirrors id known)

end Mirrors

end Yalnix
