/-
Module: Yalnix.Proofs.Queues
Purpose: The queues of queue.c hold lists: what their nodes look like, and what each operation does
  to them.
Trusted boundary: none
Main exports: Layout, Represents, Represents.edit, newNode_spec, queueCreate_spec,
  queueEnqueue_spec, queueDequeue_spec, queueRemove_spec, isInQueue_spec, isEmpty_spec
-/
import Yalnix.Lib.Linked
import Yalnix.Queue

namespace Yalnix

open Linked Blocks

variable {A : Allocator} {b b' : Blocks} {q : Addr} {entries front back : List (Addr × Addr)}
  {process : Addr}

/-- The node of a process between two others. -/
def nodeOf (process : Addr) (next prev : Option Addr) : QueueNode := ⟨some process, next, prev⟩

/-- The addresses of the nodes of a list. -/
abbrev addrs (entries : List (Addr × Addr)) : List Addr := entries.map Prod.fst

/-- The queues that exist, each with the addresses of its nodes and their processes. -/
abbrev Layout := Addr → Option (List (Addr × Addr))

/-- The blocks are queues laid out in a given way: each queue points to the ends of a chain of
nodes, no node is in two places, and there are no others. -/
structure Represents (b : Blocks) (L : Layout) : Prop where
  ends : ∀ q, b.queues q = (L q).map fun entries => ⟨first none entries, last none entries⟩
  chain : ∀ {q entries}, L q = some entries → Segment nodeOf b.nodes none entries none
  distinct : ∀ {q entries}, L q = some entries → (addrs entries).Nodup
  apart : ∀ {q q' entries entries'}, L q = some entries → L q' = some entries' → q ≠ q' →
    (addrs entries).Disjoint (addrs entries')
  owned : ∀ {a}, (b.nodes a).isSome → ∃ q entries, L q = some entries ∧ a ∈ addrs entries

theorem getD_of_eq {L : Layout} (here : L q = some entries) : (L q).getD [] = entries := by
  rw [here]
  rfl

namespace Represents

variable {L : Layout}

theorem queue (rep : Represents b L) (here : L q = some entries) :
    b.queues q = some ⟨first none entries, last none entries⟩ := by
  rw [rep.ends, here]
  rfl

/-- A node that is not allocated is in no queue. -/
theorem notMem (rep : Represents b L) {a : Addr} (free : b.nodes a = none)
    (here : L q = some entries) : a ∉ addrs entries := by
  intro listed
  have allocated := (rep.chain here).isSome listed
  rw [free] at allocated
  cases allocated

/-- What becomes of the layout when one queue is changed or made: its nodes are the old ones,
without those that were freed and with those that are new. -/
theorem edit (rep : Represents b L) (here : (L q).getD [] = entries)
    {entries' : List (Addr × Addr)}
    (queues : b'.queues =
      Function.update b.queues q (some ⟨first none entries', last none entries'⟩))
    (chain : Segment nodeOf b'.nodes none entries' none) (distinct : (addrs entries').Nodup)
    (others : ∀ a, a ∉ addrs entries → a ∉ addrs entries' → b'.nodes a = b.nodes a)
    (new : ∀ a ∈ addrs entries', a ∈ addrs entries ∨ b.nodes a = none)
    (freed : ∀ a ∈ addrs entries, a ∉ addrs entries' → b'.nodes a = none) :
    Represents b' (Function.update L q (some entries')) := by
  have apartOld : ∀ {q' list}, q' ≠ q → L q' = some list →
      (addrs list).Disjoint (addrs entries) := by
    intro q' list ne there
    rcases known : L q with _ | old
    · rw [known] at here
      rw [← here]
      exact List.disjoint_nil_right _
    · rw [known] at here
      cases here
      exact rep.apart there known ne
  have outside : ∀ {q' list}, q' ≠ q → L q' = some list →
      (addrs list).Disjoint (addrs entries') := by
    intro q' list ne there a listed listed'
    rcases new a listed' with old | free
    · exact apartOld ne there listed old
    · exact rep.notMem free there listed
  have untouched : ∀ {q' list}, q' ≠ q → L q' = some list →
      ∀ a ∈ addrs list, b'.nodes a = b.nodes a := by
    intro q' list ne there a listed
    exact others a (fun old => apartOld ne there listed old)
      (fun new => outside ne there listed new)
  refine ⟨?_, ?_, ?_, ?_, ?_⟩
  · intro q'
    rw [queues]
    by_cases same : q' = q
    · subst same
      simp
    · rw [Function.update_of_ne same, Function.update_of_ne same, rep.ends]
  · intro q' list there
    by_cases same : q' = q
    · subst same
      rw [Function.update_self] at there
      cases there
      exact chain
    · rw [Function.update_of_ne same] at there
      exact (rep.chain there).congr (untouched same there)
  · intro q' list there
    by_cases same : q' = q
    · subst same
      rw [Function.update_self] at there
      cases there
      exact distinct
    · rw [Function.update_of_ne same] at there
      exact rep.distinct there
  · intro q' q'' list list' there there' ne
    by_cases same : q' = q
    · subst same
      rw [Function.update_self] at there
      rw [Function.update_of_ne (Ne.symm ne)] at there'
      cases there
      exact (outside (Ne.symm ne) there').symm
    · rw [Function.update_of_ne same] at there
      by_cases same' : q'' = q
      · subst same'
        rw [Function.update_self] at there'
        cases there'
        exact outside same there
      · rw [Function.update_of_ne same'] at there'
        exact rep.apart there there' ne
  · intro a allocated
    by_cases inNew : a ∈ addrs entries'
    · exact ⟨q, entries', Function.update_self .., inNew⟩
    · by_cases inOld : a ∈ addrs entries
      · rw [freed a inOld inNew] at allocated
        cases allocated
      · rw [others a inOld inNew] at allocated
        obtain ⟨q', list, there, listed⟩ := rep.owned allocated
        have ne : q' ≠ q := by
          rintro rfl
          rw [there] at here
          cases here
          exact inOld listed
        exact ⟨q', list, by rw [Function.update_of_ne ne, there], listed⟩

/-- Blocks of other kinds do not matter. -/
theorem congr (rep : Represents b L) (queues : b'.queues = b.queues) (nodes : b'.nodes = b.nodes) :
    Represents b' L where
  ends := by
    rw [queues]
    exact rep.ends
  chain := by
    rw [nodes]
    exact rep.chain
  distinct := rep.distinct
  apart := rep.apart
  owned := by
    rw [nodes]
    exact rep.owned

end Represents

/-! ### Linking the ends of a segment -/

/-- The pointer to the first node of what follows `front` is replaced: it is the successor of the
last node of `front`, or the head of the queue. -/
theorem linkNext_spec {head after tail : Option Addr}
    (chain : Segment nodeOf b.nodes none front after) (distinct : (addrs front).Nodup)
    (here : b.queues q = some ⟨head, tail⟩) (isHead : head = first after front)
    (next : Option Addr) :
    ∃ nodes,
      b.linkNext q (last none front) next = .ok { b with
        queues := Function.update b.queues q (some ⟨first next front, tail⟩)
        nodes := nodes } ∧
      Segment nodeOf nodes none front next ∧ ∀ a ∉ addrs front, nodes a = b.nodes a := by
  rcases List.eq_nil_or_concat' front with rfl | ⟨init, ⟨a, p⟩, rfl⟩
  · refine ⟨b.nodes, ?_, segment_nil, fun a _ => rfl⟩
    rw [linkNext, last_nil, if_pos rfl, modifyQueue_some here]
    rfl
  · have isLast : last none (init ++ [(a, p)]) = some a := by rw [last_append, last_cons, last_nil]
    have node := chain.cell_eq
    refine ⟨_, ?_, chain.relinkNext distinct next, ?_⟩
    · have unchanged : Function.update b.queues q
          (some ⟨first next (init ++ [(a, p)]), tail⟩) = b.queues := by
        rw [Function.update_eq_self_iff, here, isHead, first_append, first_append]
        rfl
      rw [linkNext, isLast, if_neg (by simp), modifyNode_some node, unchanged]
      rfl
    · intro other elsewhere
      refine Function.update_of_ne ?_ ..
      rintro rfl
      simp at elsewhere

/-- The pointer to the last node of what precedes `back` is replaced: it is the predecessor of the
first node of `back`, or the tail of the queue. -/
theorem linkPrev_spec {head before tail : Option Addr}
    (chain : Segment nodeOf b.nodes before back none) (distinct : (addrs back).Nodup)
    (here : b.queues q = some ⟨head, tail⟩) (isTail : tail = last before back)
    (prev : Option Addr) :
    ∃ nodes,
      b.linkPrev q (first none back) prev = .ok { b with
        queues := Function.update b.queues q (some ⟨head, last prev back⟩)
        nodes := nodes } ∧
      Segment nodeOf nodes prev back none ∧ ∀ a ∉ addrs back, nodes a = b.nodes a := by
  cases back with
  | nil =>
      refine ⟨b.nodes, ?_, segment_nil, fun a _ => rfl⟩
      rw [linkPrev, first_nil, if_pos rfl, modifyQueue_some here]
      rfl
  | cons entry rest =>
      obtain ⟨a, p⟩ := entry
      have node := (segment_cons.mp chain).1
      refine ⟨_, ?_, chain.relinkPrev distinct prev, ?_⟩
      · have unchanged : Function.update b.queues q
            (some ⟨head, last prev ((a, p) :: rest)⟩) = b.queues := by
          rw [Function.update_eq_self_iff, here, isTail]
          rfl
        rw [linkPrev, first_cons, if_neg (by simp), modifyNode_some node, unchanged]
        rfl
      · intro other elsewhere
        refine Function.update_of_ne ?_ ..
        rintro rfl
        simp at elsewhere

/-! ### Specifications -/

/-- The blocks of the other kinds are as they were. -/
structure SameRecords (b b' : Blocks) : Prop where
  pcbs : b'.pcbs = b.pcbs
  tables : b'.tables = b.tables

theorem newNode_spec (A : Allocator) (b : Blocks) : b.newNode A = .ok
    (match A.malloc b.mallocCalls b.inUse with
    | none => (none, { b with mallocCalls := b.mallocCalls + 1 })
    | some a => (some a, { b with
        nodes := Function.update b.nodes a (some ⟨none, none, none⟩)
        mallocCalls := b.mallocCalls + 1 })) := by
  rw [newNode, malloc]
  rcases A.malloc b.mallocCalls b.inUse with _ | a
  · rfl
  · simp [modifyNode, assignAt, pure, Except.pure]

theorem queueCreate_spec (A : Allocator) (b : Blocks) : b.queueCreate A = .ok
    (match A.malloc b.mallocCalls b.inUse with
    | none => (none, { b with mallocCalls := b.mallocCalls + 1 })
    | some a => (some a, { b with
        queues := Function.update b.queues a (some ⟨none, none⟩)
        mallocCalls := b.mallocCalls + 1 })) := by
  rw [queueCreate, malloc]
  rcases A.malloc b.mallocCalls b.inUse with _ | a
  · rfl
  · simp [modifyQueue, assignAt, pure, Except.pure]

/-- Unlinking a node: its neighbours become neighbours. -/
theorem removeNode_spec {L : Layout} {a p : Addr} (rep : Represents b L)
    (here : L q = some (front ++ (a, p) :: back)) :
    ∃ b', removeNode q a b = .ok b' ∧
      Represents b' (Function.update L q (some (front ++ back))) ∧ SameRecords b b' := by
  have distinct := rep.distinct here
  have node := (rep.chain here).cell_eq
  obtain ⟨frontChain, -, backChain⟩ := segment_append.mp (rep.chain here)
  rw [addrs, List.map_append, List.map_cons, List.nodup_append, List.nodup_cons] at distinct
  obtain ⟨frontDistinct, ⟨notBack, backDistinct⟩, across⟩ := distinct
  have notFront : a ∉ addrs front := fun listed => across a listed a (by simp) rfl
  have apart : ∀ k ∈ addrs back, k ∉ addrs front :=
    fun k inBack inFront => across k inFront k (List.mem_cons_of_mem _ inBack) rfl
  have queue : b.queues q = some ⟨first none (front ++ (a, p) :: back), last (some a) back⟩ := by
    rw [rep.queue here, last_append, last_cons]
  obtain ⟨nodes₁, ran₁, chain₁, same₁⟩ :=
    linkNext_spec frontChain frontDistinct queue first_append (first none back)
  obtain ⟨b₁, isB₁⟩ : ∃ b₁ : Blocks, b₁ = { b with
      queues := Function.update b.queues q
        (some ⟨first (first none back) front, last (some a) back⟩)
      nodes := nodes₁ } := ⟨_, rfl⟩
  have nodes₁Eq : b₁.nodes = nodes₁ := by rw [isB₁]
  have queue₁ : b₁.queues q = some ⟨first (first none back) front, last (some a) back⟩ := by
    rw [isB₁]
    exact Function.update_self ..
  have backChain₁ : Segment nodeOf b₁.nodes (some a) back none := by
    rw [nodes₁Eq]
    exact backChain.congr fun k inBack => same₁ k (apart k inBack)
  obtain ⟨nodes₂, ran₂, chain₂, same₂⟩ :=
    linkPrev_spec backChain₁ backDistinct queue₁ rfl (last none front)
  have node₁ : b₁.nodes a = b.nodes a := by rw [nodes₁Eq, same₁ a notFront]
  have node₂ : nodes₂ a = b.nodes a := (same₂ a notBack).trans node₁
  obtain ⟨b', isB'⟩ : ∃ b' : Blocks, b' = { b₁ with
      queues := Function.update b₁.queues q
        (some ⟨first (first none back) front, last (last none front) back⟩)
      nodes := Function.update nodes₂ a none } := ⟨_, rfl⟩
  have nodesEq : b'.nodes = Function.update nodes₂ a none := by rw [isB']
  have same : SameRecords b b' := by
    rw [isB', isB₁]
    exact ⟨rfl, rfl⟩
  refine ⟨b', ?_, rep.edit (getD_of_eq here) ?_ ?_ ?_ ?_ ?_ ?_, same⟩
  · rw [removeNode, readAt_some node]
    simp only [ok_bind, nodeOf]
    rw [ran₁, ok_bind, ← isB₁, readAt_some (node₁.trans node)]
    simp only [ok_bind, nodeOf]
    rw [ran₂, ok_bind, freeNode_some (node₂.trans node), isB']
  · rw [isB', isB₁, first_append, last_append]
    exact Function.update_idem ..
  · rw [nodesEq, segment_append]
    constructor
    · refine chain₁.congr fun k inFront => ?_
      have ne : k ≠ a := by
        rintro rfl
        exact notFront inFront
      have notInBack : k ∉ addrs back := fun inBack => apart k inBack inFront
      rw [Function.update_of_ne ne, same₂ k notInBack, nodes₁Eq]
    · exact chain₂.update_of_notMem notBack none
  · rw [addrs, List.map_append, List.nodup_append]
    exact ⟨frontDistinct, backDistinct, fun k inFront j inBack =>
      across k inFront j (List.mem_cons_of_mem _ inBack)⟩
  · intro k notOld notNew
    simp only [addrs, List.map_append, List.map_cons, List.mem_append, List.mem_cons,
      not_or] at notOld
    obtain ⟨notInFront, ne, notInBack⟩ := notOld
    rw [nodesEq, Function.update_of_ne ne, same₂ k notInBack, nodes₁Eq, same₁ k notInFront]
  · intro k listed
    left
    simp only [addrs, List.map_append, List.map_cons, List.mem_append, List.mem_cons] at listed ⊢
    tauto
  · intro k old notNew
    simp only [addrs, List.map_append, List.map_cons, List.mem_append, List.mem_cons,
      not_or] at old notNew
    have isA : k = a := by tauto
    rw [nodesEq, isA]
    exact Function.update_self ..

/-- Taking the head off a queue is removing its node. -/
theorem queueDequeue_eq_removeNode {L : Layout} {a p : Addr} (rep : Represents b L)
    (here : L q = some ((a, p) :: back)) : queueDequeue (some q) b = do
      let b ← removeNode q a b
      return (some p, b) := by
  have queue := rep.queue here
  have node := (segment_cons.mp (rep.chain here)).1
  rw [queueDequeue, readAt_some queue]
  simp only [ok_bind, first_cons]
  rw [removeNode, readAt_some node]
  simp only [ok_bind, nodeOf, linkNext, if_true]
  rw [modifyQueue_some queue]
  simp only [ok_bind]
  rw [readAt_some (show _ = some (nodeOf p (first none back) none) from node)]
  simp only [ok_bind, nodeOf, bind_assoc]

/-- `queueDequeue` takes the head. -/
theorem queueDequeue_spec {L : Layout} (rep : Represents b L) (here : L q = some entries) :
    ∃ b', queueDequeue (some q) b = .ok ((entries.map Prod.snd).head?, b') ∧
      Represents b' (Function.update L q (some entries.tail)) ∧ SameRecords b b' := by
  cases entries with
  | nil =>
      refine ⟨b, ?_, ?_, rfl, rfl⟩
      · rw [queueDequeue, readAt_some (rep.queue here)]
        rfl
      · rw [List.tail_nil, ← here, Function.update_eq_self]
        exact rep
  | cons entry back =>
      obtain ⟨a, p⟩ := entry
      obtain ⟨b', ran, rep', same⟩ := @removeNode_spec b q [] back L a p rep here
      refine ⟨b', ?_, rep', same⟩
      rw [queueDequeue_eq_removeNode rep here, ran]
      rfl

/-- `queueEnqueue` without memory for a node. -/
theorem queueEnqueue_failed (failed : A.malloc b.mallocCalls b.inUse = none) (q p : Addr) :
    queueEnqueue A (some q) (some p) b = .ok { b with mallocCalls := b.mallocCalls + 1 } := by
  rw [queueEnqueue, newNode_spec, failed]
  rfl

/-- A new address is that of no node. -/
theorem nodes_of_fresh {a : Addr} (got : A.malloc b.mallocCalls b.inUse = some a) :
    b.queues a = none ∧ b.nodes a = none := by
  have unused := A.fresh got
  simp only [inUse, Bool.or_eq_false_iff, Option.isSome_eq_false_iff, Option.isNone_iff_eq_none]
    at unused
  exact ⟨unused.1.2, unused.2⟩

/-- `queueEnqueue` appends the process at the end. -/
theorem queueEnqueue_spec {L : Layout} {a : Addr} (rep : Represents b L)
    (here : L q = some entries) (got : A.malloc b.mallocCalls b.inUse = some a) (p : Addr) :
    ∃ b', queueEnqueue A (some q) (some p) b = .ok b' ∧
      Represents b' (Function.update L q (some (entries ++ [(a, p)]))) ∧ SameRecords b b' := by
  have free := (nodes_of_fresh got).2
  have absent := rep.notMem free here
  have queue := rep.queue here
  obtain ⟨b₁, isB₁⟩ : ∃ b₁ : Blocks, b₁ = { b with
      nodes := Function.update b.nodes a (some (nodeOf p none (last none entries)))
      mallocCalls := b.mallocCalls + 1 } := ⟨_, rfl⟩
  have nodes₁Eq : b₁.nodes = Function.update b.nodes a
      (some (nodeOf p none (last none entries))) := by rw [isB₁]
  have queue₁ : b₁.queues q = some ⟨first none entries, last none entries⟩ := by
    rw [isB₁]
    exact queue
  have chain₁ : Segment nodeOf b₁.nodes none entries none := by
    rw [nodes₁Eq]
    exact (rep.chain here).update_of_notMem absent _
  obtain ⟨nodes₂, ran₂, chain₂, same₂⟩ :=
    linkNext_spec chain₁ (rep.distinct here) queue₁ rfl (some a)
  obtain ⟨b', isB'⟩ : ∃ b' : Blocks, b' = { b₁ with
      queues := Function.update b₁.queues q
        (some ⟨first (some a) entries, some a⟩)
      nodes := nodes₂ } := ⟨_, rfl⟩
  have nodesEq : b'.nodes = nodes₂ := by rw [isB']
  have same : SameRecords b b' := by
    rw [isB', isB₁]
    exact ⟨rfl, rfl⟩
  refine ⟨b', ?_, rep.edit (getD_of_eq here) ?_ ?_ ?_ ?_ ?_ ?_, same⟩
  · have sameTest : (if first none entries = none then
          b₁.modifyQueue (some q) fun r => { r with head := some a }
        else b₁.modifyNode (last none entries) fun n => { n with next := some a }) =
        b₁.linkNext q (last none entries) (some a) := by
      rw [linkNext]
      exact if_congr (first_eq_none.trans last_eq_none.symm) rfl rfl
    rw [queueEnqueue, newNode_spec, got]
    simp only [ok_bind]
    rw [readAt_some queue]
    simp only [ok_bind]
    rw [modifyNode_some (Function.update_self ..)]
    simp only [ok_bind, Function.update_idem]
    rw [show { b with
        nodes := Function.update b.nodes a (some ⟨some p, none, last none entries⟩)
        mallocCalls := b.mallocCalls + 1 } = b₁ from isB₁.symm, sameTest, ran₂, ok_bind,
      modifyQueue_some (Function.update_self ..), Function.update_idem, isB']
  · rw [isB', isB₁, first_append, last_append]
    rfl
  · rw [nodesEq, segment_append]
    refine ⟨chain₂, ?_, segment_nil⟩
    rw [same₂ a absent, nodes₁Eq]
    exact Function.update_self ..
  · rw [addrs, List.map_append, List.nodup_append]
    refine ⟨rep.distinct here, List.nodup_singleton _, fun k inOld j isNew => ?_⟩
    rw [List.map_singleton, List.mem_singleton] at isNew
    rintro rfl
    rw [isNew] at inOld
    exact absent inOld
  · intro k notOld notNew
    simp only [addrs, List.map_append, List.map_cons, List.map_nil, List.mem_append,
      List.mem_singleton, not_or] at notNew
    rw [nodesEq, same₂ k notOld, nodes₁Eq, Function.update_of_ne notNew.2]
  · intro k listed
    simp only [addrs, List.map_append, List.map_cons, List.map_nil, List.mem_append,
      List.mem_singleton] at listed
    rcases listed with old | rfl
    · exact Or.inl old
    · exact Or.inr free
  · intro k old notNew
    simp only [addrs, List.map_append, List.mem_append, not_or] at notNew
    exact absurd old notNew.1

/-- The loop of `queueRemove`, when `front` has been passed. -/
theorem queueRemoveLoop_spec {L : Layout} (rep : Represents b L) (p : Addr)
    (here : L q = some (front ++ back)) :
    ∃ b', (∀ fuel ≥ back.length, queueRemoveLoop q p fuel (first none back) b = .ok b') ∧
      Represents b' (Function.update L q (some (front ++ back.eraseP fun e => e.2 = p))) ∧
      SameRecords b b' := by
  induction back generalizing front with
  | nil =>
      refine ⟨b, fun fuel _ => by rw [first_nil, queueRemoveLoop], ?_, rfl, rfl⟩
      rw [List.eraseP_nil, ← here, Function.update_eq_self]
      exact rep
  | cons entry rest inductionHypothesis =>
      obtain ⟨a, x⟩ := entry
      have node := (rep.chain here).cell_eq
      have turn : ∀ fuel, queueRemoveLoop q p (fuel + 1) (first none ((a, x) :: rest)) b =
          if x = p then removeNode q a b else queueRemoveLoop q p fuel (first none rest) b := by
        intro fuel
        rw [first_cons, queueRemoveLoop, readAt_some node]
        simp only [ok_bind, nodeOf, Option.some.injEq]
      by_cases found : x = p
      · obtain ⟨b', ran, rep', same⟩ := removeNode_spec rep here
        refine ⟨b', fun fuel enough => ?_, ?_, same⟩
        · obtain ⟨fuel, rfl⟩ := Nat.exists_eq_add_one_of_ne_zero (Nat.ne_zero_of_lt enough)
          rw [turn, if_pos found, ran]
        · rw [List.eraseP_cons_of_pos (by simpa using found)]
          exact rep'
      · have here' : L q = some ((front ++ [(a, x)]) ++ rest) := by
          rw [here, List.append_assoc]
          rfl
        obtain ⟨b', ran, rep', same⟩ := inductionHypothesis here'
        refine ⟨b', fun fuel enough => ?_, ?_, same⟩
        · obtain ⟨fuel, rfl⟩ := Nat.exists_eq_add_one_of_ne_zero (Nat.ne_zero_of_lt enough)
          rw [turn, if_neg found, ran fuel (Nat.le_of_succ_le_succ enough)]
        · rw [List.eraseP_cons_of_neg (by simpa using found)]
          rw [List.append_assoc] at rep'
          exact rep'

/-- `queueRemove` deletes the first node of the process. -/
theorem queueRemove_spec {L : Layout} (rep : Represents b L) (here : L q = some entries)
    (p : Addr) :
    ∃ b', (∀ fuel ≥ entries.length, queueRemove fuel (some q) (some p) b = .ok b') ∧
      Represents b' (Function.update L q (some (entries.eraseP fun e => e.2 = p))) ∧
      SameRecords b b' := by
  obtain ⟨b', ran, rep', same⟩ := @queueRemoveLoop_spec b q [] entries L rep p here
  refine ⟨b', fun fuel enough => ?_, rep', same⟩
  rw [queueRemove, readAt_some (rep.queue here)]
  exact ran fuel enough

/-- The loop of `is_in_queue`, when `front` has been passed. -/
theorem isInQueueLoop_spec {L : Layout} (rep : Represents b L) (p : Addr) {fuel : Nat}
    (here : L q = some (front ++ back)) (enough : back.length ≤ fuel) :
    isInQueueLoop p b fuel (first none back) = .ok (decide (p ∈ back.map Prod.snd)) := by
  induction back generalizing front fuel with
  | nil => rw [first_nil, isInQueueLoop, List.map_nil, decide_eq_false List.not_mem_nil]
  | cons entry rest inductionHypothesis =>
      obtain ⟨a, x⟩ := entry
      obtain ⟨fuel, rfl⟩ := Nat.exists_eq_add_one_of_ne_zero (Nat.ne_zero_of_lt enough)
      have node := (rep.chain here).cell_eq
      rw [first_cons, isInQueueLoop, readAt_some node]
      simp only [ok_bind, nodeOf, Option.some.injEq]
      by_cases found : x = p
      · rw [if_pos found, found, decide_eq_true (by simp)]
        rfl
      · have here' : L q = some ((front ++ [(a, x)]) ++ rest) := by
          rw [here, List.append_assoc]
          rfl
        rw [if_neg found, inductionHypothesis here' (Nat.le_of_succ_le_succ enough)]
        simp [Ne.symm found]

/-- `is_in_queue` is membership. -/
theorem isInQueue_spec {L : Layout} (rep : Represents b L) (here : L q = some entries)
    (p : Addr) {fuel : Nat} (enough : entries.length ≤ fuel) :
    isInQueue fuel (some q) (some p) b = .ok (decide (p ∈ entries.map Prod.snd)) := by
  rw [isInQueue, readAt_some (rep.queue here)]
  exact @isInQueueLoop_spec b q [] entries L rep p fuel here enough

/-- `is_empty` tests for the empty list. -/
theorem isEmpty_spec {L : Layout} (rep : Represents b L) (here : L q = some entries) :
    isEmpty (some q) b = .ok entries.isEmpty := by
  rw [isEmpty, readAt_some (rep.queue here)]
  cases entries with
  | nil => rfl
  | cons entry rest => rfl

/-- `queueCreate` adds an empty queue. -/
theorem Represents.create {L : Layout} {a : Addr} (rep : Represents b L)
    (new : b.queues a = none) (queues : b'.queues = Function.update b.queues a (some ⟨none, none⟩))
    (nodes : b'.nodes = b.nodes) : Represents b' (Function.update L a (some [])) := by
  have absent : L a = none := by
    have unknown := rep.ends a
    rw [new] at unknown
    exact Option.map_eq_none_iff.mp unknown.symm
  have old : (L a).getD [] = [] := by
    rw [absent]
    rfl
  refine rep.edit old queues segment_nil List.nodup_nil ?_ ?_ ?_
  · intro k _ _
    rw [nodes]
  · exact fun k listed => absurd listed List.not_mem_nil
  · exact fun k listed => absurd listed List.not_mem_nil

end Yalnix
