/-
Module: Yalnix.Proofs.QueueIterate
Purpose: queueIterate with a callback that may take out the entry it is called with, the clock's
  callback among them; and what holds of the queues in every run.
Trusted boundary: none
Main exports: MayRemoveVisited, queueIterate_visits, clockItem_mayRemoveVisited,
  queues_refine_lists
-/
import Yalnix.Proofs.QueueLists

namespace Yalnix

open Linked Blocks Transition

variable {A : Allocator} {b b' : Blocks} {q : Addr} {L L' : Layout}
  {entries front back : List (Addr × Addr)}

/-! ### Callbacks -/

/-- The event does nothing to `q` but take `process` out of it. -/
def Spares (q process : Addr) : QueueEvent → Prop
  | some (.queueEnqueue q' _, _) => q' ≠ q
  | some (.queueDequeue q', _) => q' ≠ q
  | some (.queueRemove q' process', _) => q' = q → process' = process
  | _ => True

/-- Steps that do nothing to `q` but take `process` out of it. -/
abbrev SparingRun (A : Allocator) (q process : Addr) : Blocks → Blocks → Prop :=
  Reaches (Guarded (QueueStep A) fun _ event => Spares q process event)

theorem SparingRun.step {process : Addr} {b'' : Blocks} (run : SparingRun A q process b b')
    {event : QueueEvent} (taken : QueueStep A b' event b'') (spares : Spares q process event) :
    SparingRun A q process b b'' :=
  Reaches.tail run ⟨spares, taken⟩

/-- A callback of `queueIterate`: it works on blocks and on whatever else it has, its own loops
followed for `fuel` iterations. -/
abbrev ItemFunc (σ : Type) := Nat → Option Addr → σ × Blocks → Except Fault (σ × Blocks)

/-- A callback that may take the process it is called with out of `q`: called with an entry of
`list` while `known` holds it comes back, `known` holds again, and nothing else was done to `q`. -/
def MayRemoveVisited {σ : Type} (A : Allocator) (q : Addr) (list : List Addr)
    (known : σ × Blocks → Prop) (itemfunc : ItemFunc σ) : Prop :=
  ∀ process ∈ list, ∀ t, known t →
    ∃ t', (∃ enough, ∀ fuel ≥ enough, itemfunc fuel (some process) t = .ok t') ∧ known t' ∧
      SparingRun A q process t.2 t'.2

/-- The queue ends in the entries that are still to be visited. -/
def StillToVisit (q : Addr) (rest : List (Addr × Addr)) (b : Blocks) : Prop :=
  ∃ L kept, Represents b L ∧ L q = some (kept ++ rest) ∧ ((kept ++ rest).map Prod.snd).Nodup

/-- The first entry of a process comes out of the part of a list that has one. -/
theorem eraseP_append_of_notMem {process : Addr} (absent : process ∉ back.map Prod.snd) :
    ((front ++ back).eraseP fun e => e.2 = process) =
      (front.eraseP fun e => e.2 = process) ++ back := by
  have notBack : ∀ e ∈ back, ¬ decide (e.2 = process) = true := by
    intro e member isIt
    exact absent (List.mem_map.mpr ⟨e, member, of_decide_eq_true isIt⟩)
  rw [List.eraseP_append]
  split
  · rfl
  · rename_i notFront
    rw [List.eraseP_of_forall_not notBack, List.eraseP_of_forall_not]
    intro e member isIt
    exact notFront (List.any_eq_true.mpr ⟨e, member, isIt⟩)

/-- Taking an entry out that has been visited leaves those to come. -/
theorem StillToVisit.preserved {rest : List (Addr × Addr)} {process : Addr}
    (visited : process ∉ rest.map Prod.snd) :
    Preserves (Guarded (QueueStep A) fun _ event => Spares q process event)
      (StillToVisit q rest) := by
  rintro b event b' ⟨L, kept, rep, here, distinct⟩ ⟨spares, taken⟩
  obtain ⟨L', rep', other, change⟩ := taken.layout rep
  have untouched : L' q = L q → StillToVisit q rest b' :=
    fun same => ⟨L', kept, rep', same.trans here, distinct⟩
  rcases event with _ | ⟨call, reply⟩
  · exact untouched (by rw [other rfl])
  · cases change call reply rfl with
    | created new =>
        refine untouched (Function.update_of_ne ?_ ..)
        rintro rfl
        rw [new] at here
        cases here
    | noMemory => exact untouched rfl
    | enqueued here' node process => exact untouched (Function.update_of_ne (Ne.symm spares) ..)
    | dequeued here' => exact untouched (Function.update_of_ne (Ne.symm spares) ..)
    | @removed q' entries here' process' =>
        by_cases same : q' = q
        · subst same
          obtain rfl := spares rfl
          rw [here] at here'
          cases here'
          have erased := @eraseP_append_of_notMem kept rest process' visited
          refine ⟨_, kept.eraseP fun e => e.2 = process', rep', ?_, ?_⟩
          · rw [Function.update_self, erased]
          · rw [← erased]
            exact distinct.sublist ((List.eraseP_sublist ..).map _)
        · exact untouched (Function.update_of_ne (Ne.symm same) ..)
    | searched here' process => exact untouched rfl
    | tested here' => exact untouched rfl

/-- The loop of `queueIterate`, when the entries of `rest` are still to be visited. -/
theorem queueIterateLoop_visits {σ : Type} {known : σ × Blocks → Prop} {itemfunc : ItemFunc σ}
    {list : List Addr} (safe : MayRemoveVisited A q list known itemfunc)
    {rest : List (Addr × Addr)} (listed : ∀ e ∈ rest, e.2 ∈ list) {t : σ × Blocks}
    (pending : StillToVisit q rest t.2) (holds : known t) :
    ∃ t' enough, ∀ more ≥ enough, ∀ fuel ≥ rest.length,
      queueIterateLoop (itemfunc more) fuel (first none rest) t =
        .ok (rest.map fun e => some e.2, t') := by
  induction rest generalizing t with
  | nil => exact ⟨t, 0, fun more _ fuel _ => by rw [first_nil, queueIterateLoop]; rfl⟩
  | cons entry rest inductionHypothesis =>
      obtain ⟨a, process⟩ := entry
      obtain ⟨L, kept, rep, here, distinct⟩ := pending
      have inList := listed _ List.mem_cons_self
      obtain ⟨t₁, ⟨enough, ran⟩, holds₁, onwards⟩ := safe process inList t holds
      have visited : process ∉ rest.map Prod.snd := by
        rw [List.map_append, List.map_cons, List.nodup_append, List.nodup_cons] at distinct
        exact distinct.2.1.1
      have pending₁ : StillToVisit q rest t₁.2 := by
        refine onwards.invariant (StillToVisit.preserved visited)
          ⟨L, kept ++ [(a, process)], rep, ?_, ?_⟩
        · rw [here, List.append_assoc]
          rfl
        · rw [List.append_assoc]
          exact distinct
      obtain ⟨t', enough', rest'⟩ := inductionHypothesis
        (fun e member => listed e (List.mem_cons_of_mem _ member)) pending₁ holds₁
      refine ⟨t', max enough enough', fun more manyMore fuel manyFuel => ?_⟩
      obtain ⟨fuel, rfl⟩ := Nat.exists_eq_add_one_of_ne_zero (Nat.ne_zero_of_lt manyFuel)
      have node := (rep.chain here).cell_eq
      rw [first_cons, queueIterateLoop, readAt_some node]
      simp only [ok_bind, nodeOf]
      rw [ran more (le_of_max_le_left manyMore), ok_bind,
        rest' more (le_of_max_le_right manyMore) fuel (Nat.le_of_succ_le_succ manyFuel)]
      rfl

/-- `queueIterate` visits the entries the queue has at the start, each once and in order. -/
theorem queueIterate_visits {σ : Type} {known : σ × Blocks → Prop} {itemfunc : ItemFunc σ}
    (rep : Represents b L) (here : L q = some entries)
    (distinct : (entries.map Prod.snd).Nodup)
    (safe : MayRemoveVisited A q (entries.map Prod.snd) known itemfunc) {arg : σ}
    (holds : known (arg, b)) :
    ∃ t' enough, ∀ fuel ≥ enough, queueIterate fuel (some q) (itemfunc fuel) (arg, b) =
      .ok ((entries.map Prod.snd).map some, t') := by
  have pending : StillToVisit q entries b := ⟨L, [], rep, here, distinct⟩
  obtain ⟨t', enough, ran⟩ := queueIterateLoop_visits safe
    (fun e member => List.mem_map_of_mem member)
    (show StillToVisit q entries (arg, b).2 from pending) holds
  refine ⟨t', max enough entries.length, fun fuel many => ?_⟩
  rw [queueIterate, readAt_some (rep.queue here), List.map_map]
  exact ran fuel (le_of_max_le_left many) fuel (le_of_max_le_right many)

/-! ### The clock's callback -/

/-- What the clock's callback relies on: both queues exist, and the processes are allocated. -/
structure ClockReady (blockedQueue readyQueue : Addr) (list : List Addr) (b : Blocks) : Prop where
  laidOut : ∃ L blocked ready, Represents b L ∧ L blockedQueue = some blocked ∧
    L readyQueue = some ready
  pcbs : ∀ p ∈ list, (b.pcbs p).isSome

namespace ClockReady

variable {blockedQueue readyQueue process : Addr} {list : List Addr}

/-- Assigning to a PCB. -/
theorem modifyPcb (ready : ClockReady blockedQueue readyQueue list b) {r : PcbRecord}
    (here : b.pcbs process = some r) (f : PcbRecord → PcbRecord) :
    ∃ b', b.modifyPcb (some process) f = .ok b' ∧ QueueStep A b none b' ∧
      ClockReady blockedQueue readyQueue list b' ∧ b'.pcbs process = some (f r) := by
  obtain ⟨⟨L, blocked, readyList, rep, isBlocked, isReady⟩, pcbs⟩ := ready
  refine ⟨_, modifyPcb_some here f, ⟨rfl, rfl⟩,
    ⟨⟨L, blocked, readyList, rep.congr rfl rfl, isBlocked, isReady⟩, ?_⟩,
    Function.update_self ..⟩
  intro p listed
  by_cases same : p = process
  · subst same
    simp
  · simp only [Function.update_of_ne same]
    exact pcbs p listed

/-- Taking the process out of the blocked queue. -/
theorem queueRemove (ready : ClockReady blockedQueue readyQueue list b)
    (apart : readyQueue ≠ blockedQueue) (process : Addr) :
    ∃ b' enough,
      (∀ fuel ≥ enough, b.queueRemove fuel (some blockedQueue) (some process) = .ok b') ∧
      QueueStep A b (some (.queueRemove blockedQueue process, .void)) b' ∧
      ClockReady blockedQueue readyQueue list b' ∧ b'.pcbs = b.pcbs := by
  obtain ⟨⟨L, blocked, readyList, rep, isBlocked, isReady⟩, pcbs⟩ := ready
  obtain ⟨b', ran, rep', same⟩ := queueRemove_spec rep isBlocked process
  have exists_ : (b.queues blockedQueue).isSome := by
    rw [rep.queue isBlocked]
    rfl
  refine ⟨b', blocked.length, ran, ⟨exists_, blocked.length, fun fuel enough => ?_⟩,
    ⟨⟨_, _, readyList, rep', Function.update_self .., ?_⟩, ?_⟩, same.pcbs⟩
  · rw [QueueCall.run, ran fuel enough]
    rfl
  · rw [Function.update_of_ne apart, isReady]
  · rw [same.pcbs]
    exact pcbs

/-- Appending the process to the ready queue, or finding no memory for it. -/
theorem queueEnqueue (ready : ClockReady blockedQueue readyQueue list b)
    (apart : readyQueue ≠ blockedQueue) (process : Addr) :
    ∃ b' event, b.queueEnqueue A (some readyQueue) (some process) = .ok b' ∧
      QueueStep A b event b' ∧ Spares blockedQueue process event ∧
      ClockReady blockedQueue readyQueue list b' := by
  obtain ⟨⟨L, blocked, readyList, rep, isBlocked, isReady⟩, pcbs⟩ := ready
  rcases got : A.malloc b.mallocCalls b.inUse with _ | node
  · exact ⟨_, none, queueEnqueue_failed got readyQueue process, ⟨rfl, rfl⟩, trivial,
      ⟨L, blocked, readyList, rep.congr rfl rfl, isBlocked, isReady⟩, pcbs⟩
  · obtain ⟨b', ran, rep', same⟩ := queueEnqueue_spec rep isReady got process
    have exists_ : (b.queues readyQueue).isSome := by
      rw [rep.queue isReady]
      rfl
    refine ⟨b', some (.queueEnqueue readyQueue process, .void), ran,
      ⟨⟨exists_, by rw [got]; rfl⟩, 0, fun fuel _ => ?_⟩, apart,
      ⟨_, blocked, _, rep', ?_, Function.update_self ..⟩, ?_⟩
    · rw [QueueCall.run, ran]
      rfl
    · rw [Function.update_of_ne (Ne.symm apart), isBlocked]
    · rw [same.pcbs]
      exact pcbs

/-- `trapHandlerHelper` takes the process it is called with out of the blocked queue, or leaves the
queue alone. -/
theorem trapHandlerHelper (ready : ClockReady blockedQueue readyQueue list b)
    (apart : readyQueue ≠ blockedQueue) (listed : process ∈ list) :
    ∃ b', (∃ enough, ∀ fuel ≥ enough, trapHandlerHelper A (some blockedQueue) (some readyQueue)
        fuel (some process) b = .ok b') ∧
      ClockReady blockedQueue readyQueue list b' ∧
      SparingRun A blockedQueue process b b' := by
  obtain ⟨r, here⟩ := Option.isSome_iff_exists.mp (ready.pcbs process listed)
  obtain ⟨b₁, counted, step₁, ready₁, here₁⟩ :=
    @modifyPcb A b blockedQueue readyQueue process list ready r here
      fun r => { r with delayTicks := r.delayTicks - 1 }
  have start : SparingRun A blockedQueue process b b := Reaches.refl b
  have reached₁ : SparingRun A blockedQueue process b b₁ := start.step step₁ trivial
  by_cases delayed : 0 < r.delayTicks
  · by_cases elapsed : r.delayTicks - 1 = 0
    · obtain ⟨b₂, enough, removed, step₂, ready₂, same₂⟩ :=
        @queueRemove A b₁ blockedQueue readyQueue list ready₁ apart process
      obtain ⟨b₃, marked, step₃, ready₃, -⟩ :=
        @modifyPcb A b₂ blockedQueue readyQueue process list ready₂ _ (same₂ ▸ here₁)
          fun r => { r with state := .ready }
      obtain ⟨b₄, event, entered, step₄, spares, ready₄⟩ :=
        @queueEnqueue A b₃ blockedQueue readyQueue list ready₃ apart process
      refine ⟨b₄, ⟨enough, fun fuel many => ?_⟩, ready₄,
        ((reached₁.step step₂ fun _ => rfl).step step₃ trivial).step step₄ spares⟩
      rw [Blocks.trapHandlerHelper, readAt_some here, ok_bind, if_pos delayed, counted, ok_bind,
        if_pos elapsed, removed fuel many, ok_bind, marked, ok_bind, entered]
    · refine ⟨b₁, ⟨0, fun fuel _ => ?_⟩, ready₁, reached₁⟩
      rw [Blocks.trapHandlerHelper, readAt_some here, ok_bind, if_pos delayed, counted, ok_bind,
        if_neg elapsed]
      rfl
  · refine ⟨b, ⟨0, fun fuel _ => ?_⟩, ready, start⟩
    rw [Blocks.trapHandlerHelper, readAt_some here, ok_bind, if_neg delayed]
    rfl

end ClockReady

/-- The callback of the clock trap handler as one of `queueIterate`. -/
def clockItem (A : Allocator) (blockedQueue readyQueue : Addr) : ItemFunc Unit :=
  fun fuel process t => do
    let b ← trapHandlerHelper A (some blockedQueue) (some readyQueue) fuel process t.2
    return (t.1, b)

theorem clockItem_mayRemoveVisited (A : Allocator) {blockedQueue readyQueue : Addr}
    (apart : readyQueue ≠ blockedQueue) (list : List Addr) :
    MayRemoveVisited A blockedQueue list
      (fun t => ClockReady blockedQueue readyQueue list t.2)
      (clockItem A blockedQueue readyQueue) := by
  intro process listed t ready
  obtain ⟨b', ⟨enough, ran⟩, ready', reached⟩ :=
    @ClockReady.trapHandlerHelper A t.2 blockedQueue readyQueue process list ready apart listed
  refine ⟨(t.1, b'), ⟨enough, fun fuel many => ?_⟩, ready', reached⟩
  rw [clockItem, ran fuel many]
  rfl

/-- Any sequence of calls on queues that exist, with memory for the nodes, and whatever the kernel
does to other blocks in between: the queues are well formed, the calls and their replies are those
of lists, a further call comes back, and `queueIterate` over distinct entries, with a callback that
may take out the one it visits, visits each entry once and in order. -/
theorem queues_refine_lists (A : Allocator) (b₀ b : Blocks) (events : List QueueEvent)
    (noQueues : ∀ a, b₀.queues a = none) (noNodes : ∀ a, b₀.nodes a = none)
    (trace : Trace (QueueStep A) b₀ events b) :
    WellLinked b ∧ ∃ L, Represents b L ∧ Trace ListEvent (fun _ => none) events (items L) ∧
      (∀ call : QueueCall, call.Callable A b → ∃ reply b', call.Returns A b reply b' ∧
        ∃ lists', ListStep (items L) call reply lists') ∧
      ∀ (σ : Type) (q : Addr) (list : List Addr) (known : σ × Blocks → Prop)
        (itemfunc : ItemFunc σ) (arg : σ), items L q = some list → list.Nodup →
        MayRemoveVisited A q list known itemfunc → known (arg, b) →
        ∃ t' enough, ∀ fuel ≥ enough, queueIterate fuel (some q) (itemfunc fuel) (arg, b) =
          .ok (list.map some, t') := by
  obtain ⟨L, rep, lists⟩ := trace_refines noQueues noNodes trace
  refine ⟨rep.wellLinked, L, rep, lists, ?_, ?_⟩
  · intro call callable
    obtain ⟨reply, b', L', returned, -, change⟩ := rep.call callable
    exact ⟨reply, b', returned, _, change.items⟩
  · intro σ q list known itemfunc arg here distinct safe holds
    obtain ⟨entries, laidOut, rfl⟩ := Option.map_eq_some_iff.mp here
    exact queueIterate_visits rep laidOut distinct safe holds

/-- An allocator that never uses an address again. -/
def countingAllocator : Allocator where
  malloc := fun call inUse => if inUse call then none else some call
  fresh := by
    intro call inUse addr got
    split at got
    · cases got
    · rename_i unused
      cases got
      exact Bool.eq_false_of_not_eq_true unused
  garbagePcb := PcbRecord.zero
  garbageTable := fun _ => Pte.zero
  garbageQueue := ⟨none, none⟩
  garbageNode := ⟨none, none, none⟩

/-- Two PCBs, the first one delayed for a tick and the second one for two. -/
def twoPcbs : Blocks where
  pcbs := fun p =>
    if p = 100 then some { PcbRecord.zero with delayTicks := 1 }
    else if p = 101 then some { PcbRecord.zero with delayTicks := 2 }
    else none
  tables := fun _ => none
  queues := fun _ => none
  nodes := fun _ => none
  mallocCalls := 0

/-- The list of a queue is read off its nodes. -/
theorem entries_of_head {before next : Option Addr} {nodes : Addr → Option QueueNode} {a p : Addr}
    (chain : Segment nodeOf nodes before entries none) (head : first none entries = some a)
    (node : nodes a = some ⟨some p, next, before⟩) :
    ∃ rest, entries = (a, p) :: rest ∧ first none rest = next ∧
      Segment nodeOf nodes (some a) rest none := by
  cases entries with
  | nil => cases head
  | cons entry rest =>
      cases head
      obtain ⟨here, later⟩ := chain
      rw [node] at here
      cases here
      exact ⟨rest, rfl, rfl, later⟩

/-- A blocked and a ready queue are made and both processes blocked; the clock visits both of them,
and takes the first one out of the queue. -/
theorem queues_refine_lists_sample : ∃ b t' enough, WellLinked b ∧
    ∀ fuel ≥ enough, queueIterate fuel (some 0) (clockItem countingAllocator 0 1 fuel) ((), b) =
      .ok ([some 100, some 101], t') := by
  obtain ⟨b, trace, blocked, ready, node, node', pcbs⟩ : ∃ b,
      Trace (QueueStep countingAllocator) twoPcbs
        [some (.queueCreate, .pointer (some 0)), some (.queueCreate, .pointer (some 1)),
          some (.queueEnqueue 0 100, .void), some (.queueEnqueue 0 101, .void)] b ∧
      b.queues 0 = some ⟨some 2, some 3⟩ ∧ b.queues 1 = some ⟨none, none⟩ ∧
      b.nodes 2 = some ⟨some 100, some 3, none⟩ ∧ b.nodes 3 = some ⟨some 101, none, some 2⟩ ∧
      b.pcbs = twoPcbs.pcbs :=
    ⟨_, Trace.cons ⟨trivial, 0, fun fuel _ => rfl⟩ (Trace.cons ⟨trivial, 0, fun fuel _ => rfl⟩
      (Trace.cons ⟨⟨rfl, rfl⟩, 0, fun fuel _ => rfl⟩
        (Trace.cons ⟨⟨rfl, rfl⟩, 0, fun fuel _ => rfl⟩ Trace.nil))), rfl, rfl, rfl, rfl, rfl⟩
  obtain ⟨wellLinked, L, rep, -, -, iterate⟩ := queues_refine_lists countingAllocator twoPcbs b _
    (fun _ => rfl) (fun _ => rfl) trace
  have holds : L 0 = some [(2, 100), (3, 101)] := by
    obtain ⟨entries, here⟩ := rep.laidOut (q := 0) (by rw [blocked]; rfl)
    have ends := rep.queue here
    rw [blocked, Option.some.injEq, Queue.mk.injEq] at ends
    obtain ⟨rest, rfl, next, chain⟩ := entries_of_head (rep.chain here) ends.1.symm node
    obtain ⟨rest, rfl, next', chain'⟩ := entries_of_head chain next node'
    rw [first_eq_none.mp next'] at here
    exact here
  obtain ⟨readyList, isReady⟩ := rep.laidOut (q := 1) (by rw [ready]; rfl)
  have clock : ClockReady 0 1 [100, 101] b := ⟨⟨L, _, readyList, rep, holds, isReady⟩, by
    rw [pcbs]
    decide⟩
  obtain ⟨t', enough, ran⟩ := iterate Unit 0 [100, 101] _ (clockItem countingAllocator 0 1) ()
    (by rw [items_of_eq holds]; rfl) (by decide)
    (clockItem_mayRemoveVisited countingAllocator (by decide) [100, 101]) clock
  exact ⟨b, t', enough, wellLinked, ran⟩

end Yalnix
