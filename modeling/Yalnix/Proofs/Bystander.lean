/-
Module: Yalnix.Proofs.Bystander
Purpose: What a step of the machine can do to a process that is not the current one: give it a
  result, wake it, orphan it, count its delay down.
Trusted boundary: none
Main exports: UserContext.SameButResult, PCB.Undisturbed, Kernel.Bystander, bystander_step
-/
import Yalnix.Proofs.Registration

namespace Yalnix

/-- The input is a clock interrupt. -/
def Input.isClock : Input → Bool
  | .clockTrap _ => true
  | _ => false

/-- Two contexts that differ at most in the register of the result. -/
def UserContext.SameButResult (c c' : UserContext) : Prop :=
  ∃ result, c' = { c with regs := Function.update c.regs 0 result }

namespace UserContext.SameButResult

theorem refl (c : UserContext) : SameButResult c c :=
  ⟨c.regs 0, by rw [Function.update_eq_self]⟩

theorem trans {c c' c'' : UserContext} (first : SameButResult c c')
    (second : SameButResult c' c'') : SameButResult c c'' := by
  obtain ⟨result, rfl⟩ := first
  obtain ⟨result', rfl⟩ := second
  exact ⟨result', by simp only [Function.update_idem]⟩

theorem setReturn (c : UserContext) (rc : Int) : SameButResult c (c.setReturn rc) := ⟨_, rfl⟩

end UserContext.SameButResult

/-- What the step on which a process looks on is known not to do: write a result into its context,
count delays down, or take a terminal over that is writing for it. -/
structure Occasion where
  quiet : Prop
  untimed : Prop
  exclusive : Prop

/-- What a terminal writes into the PCB of a process it answers. -/
def PCB.answer (b : PCB) : UserContext × Option (List Byte) × Nat :=
  (b.userContext, b.ttyKernelReadBuf, b.kernelReadSize)

/-- The fields that others may write are the state, the result, the parent, the flag of `Wait` and
the parked block; a process that no terminal answers keeps its context and the block, and its delay
changes with the clock only. -/
structure PCB.Undisturbed (o : Occasion) (b b' : PCB) : Prop where
  rest : b' =
    { b with
      state := b'.state
      userContext := b'.userContext
      parent := b'.parent
      waitingForChildPid := b'.waitingForChildPid
      delayTicks := b'.delayTicks
      ttyKernelReadBuf := b'.ttyKernelReadBuf
      kernelReadSize := b'.kernelReadSize }
  context : b.userContext.SameButResult b'.userContext
  untouched : o.quiet → b'.answer = b.answer
  delay : o.untimed → b'.delayTicks = b.delayTicks

namespace PCB.Undisturbed

variable {o : Occasion} {b b' b'' : PCB}

theorem refl (b : PCB) : Undisturbed o b b := ⟨rfl, .refl _, fun _ => rfl, fun _ => rfl⟩

theorem trans (first : Undisturbed o b b') (second : Undisturbed o b' b'') :
    Undisturbed o b b'' where
  rest := by
    rw [second.rest, first.rest]
  context := first.context.trans second.context
  untouched quietly := (second.untouched quietly).trans (first.untouched quietly)
  delay still := (second.delay still).trans (first.delay still)

end PCB.Undisturbed

/-- The event belongs to a call of `TtyRead` of the process. -/
def Event.isReadOf (p : PcbPtr) : Event → Bool
  | .ttyReadBlocked q .. | .ttyReadTaken q .. | .ttyReaderServed q _ | .ttyReadReturned q .. =>
      decide (q = p)
  | _ => false

/-- The queues in which blocked processes wait. -/
def QueueId.isWaiting : QueueId → Bool
  | .blocked | .readers _ | .writers _ => true
  | .ready | .zombie | .children _ => false

namespace Kernel

variable {env : Env} {o : Occasion} {p q : PcbPtr} {s s' t u : Kernel} {b b' : PCB}

/-- The process was blocked before, nobody made it ready, and what it waits for is still there. -/
structure StillBlocked (o : Occasion) (p : PcbPtr) (b b' : PCB) (s s' : Kernel) : Prop where
  before : b.state = .blocked
  unready : p ∈ s'.queues .ready → p ∈ s.queues .ready
  current : s'.currentProcess = p → s.currentProcess = p
  queued : ∀ queue, queue.isWaiting = true → p ∈ s.queues queue → p ∈ s'.queues queue
  writing : o.exclusive → ∀ tty, (s.terminals tty).currentWriter = some p →
    (s'.terminals tty).currentWriter = some p
  delay : 0 < b.delayTicks → 0 < b'.delayTicks
  flag : b'.waitingForChildPid = b.waitingForChildPid

/-- What happened so far in the calls of `TtyRead` of a process. -/
def readHistory (s : Kernel) (p : PcbPtr) : List Event := s.history.filter (Event.isReadOf p)

theorem readHistory_log (s : Kernel) (p : PcbPtr) (e : Event) : (s.log e).readHistory p =
    s.readHistory p ++ if e.isReadOf p then [e] else [] := by
  rw [readHistory, log_history, List.filter_append, List.filter_singleton, cond_eq_ite]
  rfl

/-- The process stays undisturbed; if it is blocked afterwards it was all along; it enters no queue
to wait in; and it leaves no queue of readers, and its reading goes no further, unless its terminal
answers it. -/
structure Bystander (o : Occasion) (p : PcbPtr) (s s' : Kernel) : Prop where
  pcb : ∀ b, s.heap p = some b → ∃ b', s'.heap p = some b' ∧ b.Undisturbed o b' ∧
    (b'.state = .blocked → StillBlocked o p b b' s s')
  queued : ∀ queue, queue.isWaiting = true → p ∈ s'.queues queue → p ∈ s.queues queue
  writing : ∀ tty, (s'.terminals tty).currentWriter = some p →
    (s.terminals tty).currentWriter = some p
  reading : o.quiet → ∀ tty, p ∈ s.queues (.readers tty) → p ∈ s'.queues (.readers tty)
  history : o.quiet → s'.readHistory p = s.readHistory p

namespace StillBlocked

theorem refl (asleep : b.state = .blocked) : StillBlocked o p b b s s :=
  ⟨asleep, id, id, fun _ _ => id, fun _ _ => id, id, rfl⟩

theorem trans {b'' : PCB} (first : StillBlocked o p b b' s t)
    (second : StillBlocked o p b' b'' t u) :
    StillBlocked o p b b'' s u where
  before := first.before
  unready member := first.unready (second.unready member)
  current same := first.current (second.current same)
  queued queue waits member := second.queued queue waits (first.queued queue waits member)
  writing exclusive tty writer := second.writing exclusive tty (first.writing exclusive tty writer)
  delay positive := second.delay (first.delay positive)
  flag := second.flag.trans first.flag

end StillBlocked

namespace Bystander

theorem refl (s : Kernel) : Bystander o p s s where
  pcb b live := ⟨b, live, .refl b, .refl⟩
  queued _ _ := id
  writing _ := id
  reading _ _ := id
  history _ := rfl

theorem trans (first : Bystander o p s t) (second : Bystander o p t u) : Bystander o p s u where
  pcb b live := by
    obtain ⟨b', live', same, still⟩ := first.pcb b live
    obtain ⟨b'', live'', same', still'⟩ := second.pcb b' live'
    refine ⟨b'', live'', same.trans same', fun asleep => ?_⟩
    have last := still' asleep
    exact (still last.before).trans last
  queued queue waits member := first.queued queue waits (second.queued queue waits member)
  writing tty writer := first.writing tty (second.writing tty writer)
  reading quietly tty member := second.reading quietly tty (first.reading quietly tty member)
  history quietly := (second.history quietly).trans (first.history quietly)

/-- Nothing happens to the PCBs, the queues, the current process and the writers. -/
theorem of_same (heap : s'.heap = s.heap) (queues : s'.queues = s.queues)
    (current : s'.currentProcess = s.currentProcess) (history : s'.history = s.history)
    (writers : ∀ tty, (s'.terminals tty).currentWriter = (s.terminals tty).currentWriter) :
    Bystander o p s s' where
  pcb b live := by
    refine ⟨b, heap ▸ live, .refl b, fun asleep => ?_⟩
    exact ⟨asleep, fun member => queues ▸ member, fun same => current ▸ same,
      fun _ _ member => queues ▸ member, fun _ tty writer => (writers tty).trans writer, id, rfl⟩
  queued _ _ member := queues ▸ member
  writing tty writer := (writers tty).symm.trans writer
  reading _ _ member := queues ▸ member
  history _ := congrArg (List.filter (Event.isReadOf p)) history

/-- A terminal changes, but not the process it writes for. -/
theorem setTerminal (tty : TtyId) (terminal : Terminal)
    (same : terminal.currentWriter = (s.terminals tty).currentWriter) :
    Bystander o p s (s.setTerminal tty terminal) := by
  refine of_same rfl rfl rfl rfl fun other => ?_
  rw [setTerminal_terminals]
  by_cases here : other = tty
  · subst here
    rw [Function.update_self, same]
  · rw [Function.update_of_ne here]

/-- Only the PCB of one process changes. -/
theorem of_pcb (others : s'.queues = s.queues ∧ s'.currentProcess = s.currentProcess ∧
      s'.terminals = s.terminals ∧ s'.history = s.history)
    (pcb : ∀ b, s.heap p = some b → ∃ b', s'.heap p = some b' ∧ b.Undisturbed o b' ∧
      (b'.state = .blocked → b.state = .blocked ∧ (0 < b.delayTicks → 0 < b'.delayTicks) ∧
        b'.waitingForChildPid = b.waitingForChildPid)) : Bystander o p s s' where
  pcb b live := by
    obtain ⟨queues, current, terminals, -⟩ := others
    obtain ⟨b', live', same, still⟩ := pcb b live
    refine ⟨b', live', same, fun asleep => ?_⟩
    obtain ⟨before, delay, flag⟩ := still asleep
    exact ⟨before, fun member => queues ▸ member, fun same => current ▸ same,
      fun _ _ member => queues ▸ member, fun _ _ writer => terminals ▸ writer, delay, flag⟩
  queued _ _ member := others.1 ▸ member
  writing _ writer := others.2.2.1 ▸ writer
  reading _ _ member := others.1 ▸ member
  history _ := congrArg (List.filter (Event.isReadOf p)) others.2.2.2

theorem setPcb_other (other : q ≠ p) : Bystander o p s (s.setPcb q b) := by
  refine of_pcb ⟨rfl, rfl, rfl, rfl⟩ fun c live => ?_
  exact ⟨c, (Function.update_of_ne other.symm ..).trans live, .refl c,
    fun asleep => ⟨asleep, id, rfl⟩⟩

theorem setPcb_self (live : s.heap p = some b) (same : b.Undisturbed o b')
    (still : b'.state = .blocked → b.state = .blocked ∧ (0 < b.delayTicks → 0 < b'.delayTicks) ∧
      b'.waitingForChildPid = b.waitingForChildPid) :
    Bystander o p s (s.setPcb p b') := by
  refine of_pcb ⟨rfl, rfl, rfl, rfl⟩ fun c found => ?_
  obtain rfl := Option.some.inj (found.symm.trans live)
  exact ⟨b', Function.update_self .., same, still⟩

theorem modifyPcb {f : PCB → PCB} (h : s.modifyPcb q f = .ok s')
    (same : q = p → ∀ b : PCB, b.Undisturbed o (f b) ∧ (f b).state ≠ .blocked) :
    Bystander o p s s' := by
  obtain ⟨b, live, rfl⟩ := modifyPcb_eq_ok.mp h
  by_cases here : q = p
  · obtain ⟨undisturbed, awake⟩ := same here b
    subst here
    exact setPcb_self live undisturbed fun asleep => absurd asleep awake
  · exact setPcb_other here

/-- A queue changes, in which the process waits if and only if it did. -/
theorem setQueue (queue : QueueId) (entries : List PcbPtr) (other : queue ≠ .ready)
    (same : queue.isWaiting = true → (p ∈ entries ↔ p ∈ s.queues queue)) :
    Bystander o p s (s.setQueue queue entries) := by
  have ready : (s.setQueue queue entries).queues .ready = s.queues .ready := by
    rw [setQueue_queues, Function.update_of_ne other.symm]
  have iff : ∀ waiting : QueueId, waiting.isWaiting = true →
      (p ∈ (s.setQueue queue entries).queues waiting ↔ p ∈ s.queues waiting) := by
    intro waiting waits
    rw [setQueue_queues]
    by_cases here : waiting = queue
    · subst here
      rw [Function.update_self]
      exact same waits
    · rw [Function.update_of_ne here]
  exact
    { pcb := fun b live => ⟨b, live, .refl b, fun asleep =>
        ⟨asleep, fun member => ready ▸ member, id, fun queue waits => (iff queue waits).mpr,
          fun _ _ => id, id, rfl⟩⟩
      queued := fun queue waits => (iff queue waits).mp
      writing := fun _ => id
      reading := fun _ tty => (iff (.readers tty) rfl).mpr
      history := fun _ => rfl }

/-- Appending to a queue; if processes wait in it, another process. -/
theorem enqueue (env : Env) (queue : QueueId) (q : PcbPtr) (other : queue ≠ .ready)
    (apart : queue.isWaiting = true → q ≠ p) : Bystander o p s (s.queueEnqueue env queue q) := by
  have counted : Bystander o p s { s with mallocCalls := s.mallocCalls + 1 } :=
    of_same rfl rfl rfl rfl fun _ => rfl
  have entered : s.queueEnqueue env queue q =
      Kernel.setQueue { s with mallocCalls := s.mallocCalls + 1 } queue
        (if env.mallocOk s.mallocCalls then s.queues queue ++ [q] else s.queues queue) :=
    queueEnqueue_eq queue q
  rw [entered]
  refine counted.trans (setQueue queue _ other fun waits => ?_)
  split
  · simp [(apart waits).symm]
  · exact Iff.rfl

/-- A process that enters the ready queue is not blocked. -/
theorem enqueueReady (env : Env) (awake : q = p → ∀ b, s.heap p = some b → b.state ≠ .blocked) :
    Bystander o p s (s.queueEnqueue env .ready q) where
  pcb b live := by
    refine ⟨b, ?_, .refl b, fun asleep => ⟨asleep, ?_, ?_, ?_, ?_, id, rfl⟩⟩
    · rw [queueEnqueue_heap]
      exact live
    · rw [queueEnqueue_queues, Function.update_self]
      split
      · intro member
        rcases List.mem_append.mp member with before | last
        · exact before
        · exact absurd asleep (awake (List.mem_singleton.mp last).symm b live)
      · exact id
    · rw [queueEnqueue_currentProcess]
      exact id
    · intro queue waits
      rw [queueEnqueue_queues, Function.update_of_ne (by rintro rfl; cases waits)]
      exact id
    · rw [queueEnqueue_terminals]
      exact fun _ _ => id
  queued queue waits := by
    rw [queueEnqueue_queues, Function.update_of_ne (by rintro rfl; cases waits)]
    exact id
  writing tty := by
    rw [queueEnqueue_terminals]
    exact id
  reading _ tty := by
    rw [queueEnqueue_queues, Function.update_of_ne (by simp)]
    exact id
  history _ := congrArg (List.filter (Event.isReadOf p)) (queueEnqueue_history ..)

/-- A process that was just marked ready is not blocked. -/
theorem awake {f : PCB → PCB} (h : s.modifyPcb q f = .ok t) (ready : ∀ b, (f b).state = .ready) :
    q = p → ∀ b, t.heap p = some b → b.state ≠ .blocked := by
  intro here b live
  obtain ⟨c, -, rfl⟩ := modifyPcb_eq_ok.mp h
  subst here
  rw [setPcb_heap, Function.update_self] at live
  obtain rfl := Option.some.inj live
  rw [ready]
  exact ProcState.noConfusion

/-- Marking a process ready, and nothing else. -/
theorem markReady (h : s.modifyPcb q (fun b => { b with state := .ready }) = .ok t) :
    Bystander o p s t :=
  modifyPcb h fun _ _ => ⟨⟨rfl, .refl _, fun _ => rfl, fun _ => rfl⟩, ProcState.noConfusion⟩

/-- A process leaves the blocked queue and is not blocked any more. -/
theorem unblock (awake : q = p → ∀ b, s.heap p = some b → b.state ≠ .blocked) :
    Bystander o p s (s.queueRemove .blocked q) := by
  have kept : ∀ queue, p ∈ (s.queueRemove .blocked q).queues queue → p ∈ s.queues queue := by
    intro queue
    rw [queueRemove_queues]
    by_cases here : queue = .blocked
    · subst here
      rw [Function.update_self]
      exact List.mem_of_mem_erase
    · rw [Function.update_of_ne here]
      exact id
  refine ⟨fun b live => ⟨b, live, .refl b, fun asleep => ?_⟩, fun queue _ => kept queue,
    fun _ => id, fun _ tty => ?_, fun _ => rfl⟩
  · refine ⟨asleep, kept .ready, id, fun queue _ member => ?_, fun _ _ => id, id, rfl⟩
    rw [queueRemove_queues]
    by_cases here : queue = .blocked
    · subst here
      have other : p ≠ q := fun same => awake same.symm b live asleep
      rw [Function.update_self]
      exact (List.mem_erase_of_ne other).mpr member
    · rw [Function.update_of_ne here]
      exact member
  · rw [queueRemove_queues, Function.update_of_ne (by simp)]
    exact id

/-- A process is marked ready, leaves the blocked queue and enters the ready queue. -/
theorem wakeUp {f : PCB → PCB} (h : s.modifyPcb q f = .ok t) (ready : ∀ b, (f b).state = .ready)
    (same : q = p → ∀ b : PCB, b.Undisturbed o (f b)) :
    Bystander o p s ((t.queueRemove .blocked q).queueEnqueue env .ready q) := by
  have marked : Bystander o p s t :=
    modifyPcb h fun here b => ⟨same here b, by rw [ready]; exact ProcState.noConfusion⟩
  exact (marked.trans (unblock (awake h ready))).trans
    (enqueueReady env fun here b live => awake h ready here b live)

/-- The first of the waiting writers is marked ready. -/
theorem popWriter {tty : TtyId} {rest : List PcbPtr} (writers : s.queues (.writers tty) = q :: rest)
    (h : (s.setQueue (.writers tty) rest).modifyPcb q (fun b => { b with state := .ready }) =
      .ok t) :
    Bystander o p s t := by
  obtain ⟨c, found, rfl⟩ := modifyPcb_eq_ok.mp h
  by_cases here : q = p
  · subst here
    refine ⟨fun b live => ?_, fun queue _ member => ?_, fun _ => id, fun _ other member => ?_,
      fun _ => rfl⟩
    · obtain rfl := Option.some.inj (live.symm.trans found)
      exact ⟨_, Function.update_self .., ⟨rfl, .refl _, fun _ => rfl, fun _ => rfl⟩,
        fun asleep => ProcState.noConfusion asleep⟩
    · rw [setPcb_queues, setQueue_queues] at member
      by_cases here : queue = .writers tty
      · subst here
        rw [Function.update_self] at member
        rw [writers]
        exact List.mem_cons_of_mem _ member
      · rw [Function.update_of_ne here] at member
        exact member
    · rw [setPcb_queues, setQueue_queues, Function.update_of_ne (by simp)]
      exact member
  · have popped : Bystander o p s (s.setQueue (.writers tty) rest) := by
      refine setQueue _ _ (by simp) fun _ => ?_
      rw [writers, List.mem_cons, or_iff_right (Ne.symm here)]
    exact popped.trans (setPcb_other here)

/-- A context switch from another process. -/
theorem kcSwitch {kc : KernelContext} {curr next : PcbPtr} (other : curr ≠ p)
    (h : s.kcSwitch kc curr next = .ok s') : Bystander o p s s' := by
  obtain ⟨c, n, kstack, live, nextLive, -, rfl⟩ := kcSwitch_eq_ok h
  refine ⟨fun b found => ?_, fun _ _ => id, fun _ => id, fun _ _ => id, fun _ => rfl⟩
  by_cases here : next = p
  · subst here
    rw [setPcb_heap, Function.update_of_ne other.symm, found] at nextLive
    obtain rfl := Option.some.inj nextLive
    refine ⟨_, Function.update_self .., ⟨rfl, .refl _, fun _ => rfl, fun _ => rfl⟩, ?_⟩
    exact fun asleep => ProcState.noConfusion asleep
  · refine ⟨b, ?_, .refl b, fun asleep =>
      ⟨asleep, id, fun same => absurd same here, fun _ _ => id, fun _ _ => id, id, rfl⟩⟩
    rw [setPcb_heap, Function.update_of_ne (Ne.symm here), setPcb_heap,
      Function.update_of_ne other.symm]
    exact found

/-- The head of the ready queue leaves it. -/
theorem popReady {rest : List PcbPtr} (ready : s.queues .ready = q :: rest) :
    Bystander o p s (s.setQueue .ready rest) := by
  have others : ∀ queue : QueueId, queue.isWaiting = true →
      (s.setQueue .ready rest).queues queue = s.queues queue := by
    intro queue waits
    rw [setQueue_queues, Function.update_of_ne (by rintro rfl; cases waits)]
  refine ⟨fun b live => ⟨b, live, .refl b, fun asleep => ?_⟩, fun queue waits member => ?_,
    fun _ => id, fun _ tty member => ?_, fun _ => rfl⟩
  · refine ⟨asleep, fun member => ?_, id, fun queue waits member => ?_, fun _ _ => id, id, rfl⟩
    · rw [setQueue_queues, Function.update_self] at member
      rw [ready]
      exact List.mem_cons_of_mem _ member
    · rw [others queue waits]
      exact member
  · rw [others queue waits] at member
    exact member
  · rw [others (.readers tty) rfl]
    exact member

theorem dispatch {kc : KernelContext} (other : s.currentProcess ≠ p)
    (h : s.dispatch kc = .ok s') : Bystander o p s s' := by
  rcases dispatch_eq_ok h with ⟨next, rest, ready, switched⟩ | ⟨-, switched⟩
  · exact (popReady ready).trans (kcSwitch other switched)
  · exact kcSwitch other switched

theorem log (e : Event) (other : e.isReadOf p = false) : Bystander o p s (s.log e) := by
  have recorded : (s.log e).readHistory p = s.readHistory p := by
    rw [readHistory_log, other]
    exact List.append_nil _
  exact ⟨fun b live => ⟨b, live, .refl b,
    fun asleep => ⟨asleep, id, id, fun _ _ => id, fun _ _ => id, id, rfl⟩⟩,
    fun _ _ => id, fun _ => id, fun _ _ => id, fun _ => recorded⟩

theorem saveContext (other : s.currentProcess ≠ p) (h : s.saveContext = .ok s') :
    Bystander o p s s' :=
  modifyPcb h fun here => absurd here other

theorem restoreContext (h : s.restoreContext = .ok s') : Bystander o p s s' := by
  obtain ⟨b, -, rfl⟩ := restoreContext_eq_ok.mp h
  exact of_same rfl rfl rfl rfl fun _ => rfl

theorem returnToUser {rc : Int} (h : s.returnToUser rc = .ok s') : Bystander o p s s' := by
  obtain ⟨b, -, rfl⟩ := returnToUser_eq_ok.mp h
  exact of_same rfl rfl rfl rfl fun _ => rfl

theorem storeUser {va : Word} {bytes : List Byte} (h : s.storeUser va bytes = .ok s') :
    Bystander o p s s' := by
  obtain ⟨b, m, -, -, rfl⟩ := storeUser_eq_ok.mp h
  exact of_same rfl rfl rfl rfl fun _ => rfl

/-! ### The clock -/

theorem trapHandlerHelper (clock : ¬ o.untimed) (h : s.trapHandlerHelper env q = .ok s') :
    Bystander o p s s' := by
  obtain ⟨b, live, ⟨-, rfl⟩ | ⟨many, rfl⟩ | ⟨-, rfl⟩⟩ := trapHandlerHelper_eq_ok h
  · exact refl _
  · by_cases here : q = p
    · subst here
      refine setPcb_self live ⟨rfl, .refl _, fun _ => rfl, fun still => absurd still clock⟩ ?_
      intro asleep
      refine ⟨asleep, fun _ => ?_, rfl⟩
      change 0 < b.delayTicks - 1
      omega
    · exact setPcb_other here
  · have marked : s.modifyPcb q (fun b => { b with delayTicks := 0, state := .ready }) =
        .ok (s.setPcb q { b with delayTicks := 0, state := .ready }) :=
      modifyPcb_eq_ok.mpr ⟨b, live, rfl⟩
    exact wakeUp marked (fun _ => rfl)
      fun _ _ => ⟨rfl, .refl _, fun _ => rfl, fun still => absurd still clock⟩

theorem iterateBlocked {blocked : List PcbPtr} (clock : ¬ o.untimed)
    (h : iterateBlocked env blocked s = .ok s') : Bystander o p s s' := by
  induction blocked generalizing s with
  | nil =>
      cases h
      exact refl _
  | cons process rest inductionHypothesis =>
      simp only [Kernel.iterateBlocked, bind_eq_ok] at h
      obtain ⟨t, visited, h⟩ := h
      exact (trapHandlerHelper clock visited).trans (inductionHypothesis h)

theorem clockTrapHandler (clock : ¬ o.untimed) (other : s.currentProcess ≠ p)
    (h : s.clockTrapHandler env = .ok s') : Bystander o p s s' := by
  obtain ⟨t, u, saved, iterated, tail⟩ := clockTrapHandler_eq_ok h
  have first : Bystander o p s u :=
    (saveContext other saved).trans (iterateBlocked clock iterated)
  rcases tail with ⟨-, restored⟩ | ⟨next, rest, c, ready, -, tail⟩
  · exact first.trans (restoreContext restored)
  · have popped := first.trans (popReady ready)
    rcases tail with ⟨-, -, v, readied, switched⟩ | ⟨-, switched⟩
    · have requeued : Bystander o p (u.setQueue .ready rest)
          (v.queueEnqueue env .ready s.currentProcess) :=
        (markReady readied).trans (enqueueReady env (awake readied fun _ => rfl))
      exact (popped.trans requeued).trans (kcSwitch other switched)
    · exact popped.trans (kcSwitch other switched)

/-! ### Terminals -/

/-- Another process becomes the writer of a terminal. -/
theorem setWriter {tty : TtyId} {terminal : Terminal} (other : terminal.currentWriter = some q)
    (apart : q ≠ p) (free : o.exclusive → (s.terminals tty).currentWriter ≠ some p) :
    Bystander o p s (s.setTerminal tty terminal) := by
  have writer : ∀ t, ((s.setTerminal tty terminal).terminals t).currentWriter =
      if t = tty then some q else (s.terminals t).currentWriter := by
    intro t
    rw [setTerminal_terminals]
    by_cases here : t = tty
    · subst here
      rw [Function.update_self, other, if_pos rfl]
    · rw [Function.update_of_ne here, if_neg here]
  refine ⟨fun b live => ⟨b, live, .refl b, fun asleep => ?_⟩, fun _ _ => id, fun t writing => ?_,
    fun _ _ => id, fun _ => rfl⟩
  · refine ⟨asleep, id, id, fun _ _ => id, fun exclusive t writing => ?_, id, rfl⟩
    rw [writer, if_neg]
    · exact writing
    · rintro rfl
      exact free exclusive writing
  · rw [writer] at writing
    split at writing
    · exact absurd (Option.some.inj writing) apart
    · exact writing

theorem ttyReadValid {tty : TtyId} {buf : Word} {len : Nat} {result : Option Int × Kernel}
    (other : s.currentProcess ≠ p) (h : s.ttyReadValid env tty buf len = .ok result) :
    Bystander o p s result.2 := by
  rcases ttyReadValid_eq_ok h with
    ⟨-, -, rfl⟩ | ⟨-, -, n, b, -, live, rfl⟩ | ⟨-, t, u, parked, switched, rfl⟩
  · exact of_same rfl rfl rfl rfl fun _ => rfl
  · have counted : Bystander o p s (s.malloc env).2 := of_same rfl rfl rfl rfl fun _ => rfl
    have parked := counted.trans (setPcb_other
      (b := { b with
        ttyKernelReadBuf := some ((s.terminals tty).readBuffer.take n),
        kernelReadSize := n }) other)
    exact (parked.trans (log (.ttyReadTaken ..) (decide_eq_false other))).trans
      (setTerminal _ _ rfl)
  · have current : t.currentProcess = s.currentProcess := by
      obtain ⟨b, -, rfl⟩ := modifyPcb_eq_ok.mp parked
      simp
    have first : Bystander o p s
        (s.log (.ttyReadBlocked s.currentProcess tty (env.mallocOk s.mallocCalls))) :=
      log _ (decide_eq_false other)
    have second := (first.trans
      (enqueue env (.readers tty) s.currentProcess (by simp) fun _ => other)).trans
      (enqueue env .blocked s.currentProcess (by simp) fun _ => other)
    have third := second.trans (modifyPcb parked fun here => absurd here other)
    exact third.trans (dispatch (by rw [current]; exact other) switched)

theorem ttyWriteLocked {tty : TtyId} {buf : Word} {len : Nat} {result : Option Int × Kernel}
    (other : s.currentProcess ≠ p) (free : o.exclusive → (s.terminals tty).currentWriter ≠ some p)
    (h : s.ttyWriteLocked env tty buf len = .ok result) : Bystander o p s result.2 := by
  have counted : Bystander o p s (s.malloc env).2 := of_same rfl rfl rfl rfl fun _ => rfl
  obtain ⟨b, -, outcome⟩ := ttyWriteLocked_eq_ok h
  have refused : Bystander o p s (s.refuseWrite env tty b) :=
    (counted.trans (setTerminal tty
      { s.terminals tty with writeBuffer := none, inUse := false } rfl)).trans (setPcb_other other)
  rcases outcome with ⟨-, -, rfl⟩ | ⟨-, next, rest, t, writers, readied, rfl⟩ |
    ⟨-, bytes, u, -, switched, rfl⟩
  · exact refused
  · exact (refused.trans (popWriter writers readied)).trans
      (enqueueReady env (awake readied fun _ => rfl))
  · have handed : Bystander o p (s.malloc env).2
        ((s.malloc env).2.log (.ttyTransmit tty (bytes.take (firstChunk len)))) := log _ rfl
    have owned : Bystander o p s
        (((s.malloc env).2.log (.ttyTransmit tty (bytes.take (firstChunk len)))).setTerminal tty
          { s.terminals tty with
            writeBuffer := some bytes
            writeBufferLen := len
            writeBufferPosition := firstChunk len
            currentWriter := some s.currentProcess
            inUse := true }) := (counted.trans handed).trans (setWriter rfl other free)
    have begun : Bystander o p s (s.beginWrite env tty bytes len b) :=
      (owned.trans (setPcb_other other)).trans
        (enqueue env .blocked s.currentProcess (by simp) fun _ => other)
    refine begun.trans (dispatch ?_ switched)
    rw [beginWrite, queueEnqueue_currentProcess]
    exact other

theorem ttyWriteValid {tty : TtyId} {buf : Word} {len : Nat} {result : Option Int × Kernel}
    (other : s.currentProcess ≠ p)
    (free : o.exclusive → (s.terminals tty).inUse = false →
      (s.terminals tty).currentWriter ≠ some p)
    (h : s.ttyWriteValid env tty buf len = .ok result) : Bystander o p s result.2 := by
  unfold Kernel.ttyWriteValid at h
  have first : Bystander o p s
      (s.log (.ttyWriteCalled s.currentProcess tty (s.userBytes s.currentProcess buf len))) :=
    log _ rfl
  by_cases locked : (s.terminals tty).inUse = true
  · simp only [log_terminals, locked, if_true, bind_eq_ok, pure_eq_ok] at h
    obtain ⟨t, blocked, u, switched, rfl⟩ := h
    have current : t.currentProcess = s.currentProcess := by
      obtain ⟨b, -, rfl⟩ := modifyPcb_eq_ok.mp blocked
      simp
    have second := first.trans
      (enqueue env (.writers tty) s.currentProcess (by simp) fun _ => other)
    have third := second.trans (modifyPcb blocked fun here => absurd here other)
    refine (third.trans (enqueue env .blocked s.currentProcess (by simp) fun _ => other)).trans
      (dispatch ?_ switched)
    rw [queueEnqueue_currentProcess, current]
    exact other
  · have unlocked : (s.terminals tty).inUse = false := by simpa using locked
    simp only [log_terminals, locked] at h
    have rest : Bystander o p
        (s.log (.ttyWriteCalled s.currentProcess tty (s.userBytes s.currentProcess buf len)))
        result.2 := ttyWriteLocked other (fun exclusive => free exclusive unlocked) h
    exact first.trans rest

/-- Handing the terminal to the next writer, or releasing it. -/
theorem handOver {tty : TtyId} (h : HandOver env s tty s') : Bystander o p s s' := by
  cases h with
  | free none => exact setTerminal _ _ rfl
  | @next next rest u writers readied =>
      have popped : Bystander o p s u := popWriter writers readied
      exact (popped.trans (unblock (awake readied fun _ => rfl))).trans
        (enqueueReady env fun here b live => awake readied (fun _ => rfl) here b live)

/-- The writer of a terminal is given its result and made ready. -/
theorem wakeWriter {tty : TtyId} {terminal : Terminal} {n : Int}
    (writer : (s.terminals tty).currentWriter = some q) (cleared : terminal.currentWriter = none)
    (calm : o.quiet → q ≠ p)
    (h : (s.setTerminal tty terminal).modifyPcb q
      (fun b => { b with state := .ready, userContext := b.userContext.setReturn n }) = .ok t) :
    Bystander o p s ((t.queueRemove .blocked q).queueEnqueue env .ready q) := by
  have others : ∀ other, (((s.setTerminal tty terminal).terminals other).currentWriter = some p →
      (s.terminals other).currentWriter = some p) ∧ (q ≠ p →
      (s.terminals other).currentWriter = some p →
      ((s.setTerminal tty terminal).terminals other).currentWriter = some p) := by
    intro other
    rw [setTerminal_terminals]
    by_cases here : other = tty
    · subst here
      rw [Function.update_self, cleared, writer]
      exact ⟨fun absurd => (by cases absurd), fun apart same => absurd (Option.some.inj same) apart⟩
    · rw [Function.update_of_ne here]
      exact ⟨id, fun _ => id⟩
  obtain ⟨c, live, rfl⟩ := modifyPcb_eq_ok.mp h
  have marked : Bystander o p s ((s.setTerminal tty terminal).setPcb q
      { c with state := .ready, userContext := c.userContext.setReturn n }) := by
    by_cases here : q = p
    · subst here
      refine ⟨fun b found => ?_, fun _ _ => id, fun other => (others other).1, fun _ _ => id,
        fun _ => rfl⟩
      obtain rfl := Option.some.inj (found.symm.trans live)
      exact ⟨_, Function.update_self .., ⟨rfl, .setReturn _ _,
        fun quietly => absurd rfl (calm quietly), fun _ => rfl⟩,
        fun asleep => ProcState.noConfusion asleep⟩
    · have passed : Bystander o p s (s.setTerminal tty terminal) :=
        ⟨fun b found => ⟨b, found, .refl b, fun asleep => ⟨asleep, id, id, fun _ _ => id,
          fun _ other => (others other).2 here, id, rfl⟩⟩, fun _ _ => id,
          fun other => (others other).1, fun _ _ => id, fun _ => rfl⟩
      exact passed.trans (setPcb_other here)
  exact (marked.trans (unblock (awake h fun _ => rfl))).trans
    (enqueueReady env fun here b live => awake h (fun _ => rfl) here b live)

theorem ttyTrapTransmitHandler {tty : TtyId}
    (calm : o.quiet → (s.terminals tty).currentWriter ≠ some p)
    (h : s.ttyTrapTransmitHandler env tty = .ok s') : Bystander o p s s' := by
  have first : Bystander o p s (s.log (.ttyTransmitTrap tty)) := log _ rfl
  cases ttyTrapTransmitHandler_eq_ok h with
  | chunk left => exact (first.trans (log _ rfl)).trans (setTerminal _ _ rfl)
  | unowned through none handed =>
      have cleared : Bystander o p (s.log (.ttyTransmitTrap tty))
          ((s.log (.ttyTransmitTrap tty)).clearWrite tty) := setTerminal _ _ none.symm
      exact (first.trans cleared).trans (handOver handed)
  | @owned w u _ through some woken handed =>
      have woke : Bystander o p (s.log (.ttyTransmitTrap tty))
          ((u.queueRemove .blocked w).queueEnqueue env .ready w) := by
        refine wakeWriter some rfl (fun quietly same => ?_) woken
        exact calm quietly (same ▸ some)
      exact (first.trans woke).trans (handOver handed)

/-- A reader that was served is ready. -/
theorem servedReader {tty : TtyId} {rest : List PcbPtr} {w : Kernel} {r r' : PCB}
    (queue : s.queues (.readers tty) = p :: rest) (live : s.heap p = some r)
    (same : r.Undisturbed o { r' with state := .ready }) (noisy : ¬ o.quiet)
    (queues : w.queues = Function.update s.queues (.readers tty) rest)
    (writers : ∀ t, (w.terminals t).currentWriter = (s.terminals t).currentWriter) :
    Bystander o p s (readyReader env w p r') where
  pcb b found := by
    obtain rfl := Option.some.inj (found.symm.trans live)
    refine ⟨{ r' with state := .ready }, ?_, same, fun asleep => ProcState.noConfusion asleep⟩
    rw [readyReader, queueEnqueue_heap, setPcb_heap, Function.update_self]
  queued waiting waits := by
    rw [readyReader, queueEnqueue_queues, Function.update_of_ne (by rintro rfl; cases waits),
      setPcb_queues, queueRemove_queues, queues]
    by_cases blocked : waiting = .blocked
    · subst blocked
      rw [Function.update_self, Function.update_of_ne (by simp)]
      exact List.mem_of_mem_erase
    · rw [Function.update_of_ne blocked]
      by_cases here : waiting = .readers tty
      · subst here
        rw [Function.update_self, queue]
        exact List.mem_cons_of_mem _
      · rw [Function.update_of_ne here]
        exact id
  writing t := by
    rw [readyReader, queueEnqueue_terminals]
    exact fun writer => (writers t).symm.trans writer
  reading quietly := absurd quietly noisy
  history quietly := absurd quietly noisy

theorem readyReader (apart : q ≠ p) : Bystander o p s (readyReader env s q b) := by
  have removed : Bystander o p s (s.queueRemove .blocked q) :=
    unblock fun here => absurd here apart
  have readied : Bystander o p (s.queueRemove .blocked q)
      ((s.queueRemove .blocked q).setPcb q { b with state := .ready }) := setPcb_other apart
  exact (removed.trans readied).trans (enqueueReady env fun here => absurd here apart)

/-- Another reader leaves the queue. -/
theorem unlinkOther {tty : TtyId} {rest : List PcbPtr}
    (queue : s.queues (.readers tty) = q :: rest) (apart : q ≠ p) :
    Bystander o p s (unlinkReader env s tty q rest) := by
  have popped : Bystander o p s (s.setQueue (.readers tty) rest) := by
    refine setQueue _ _ (by simp) fun _ => ?_
    rw [queue, List.mem_cons, or_iff_right (Ne.symm apart)]
  have counted : Bystander o p (s.setQueue (.readers tty) rest)
      ((s.setQueue (.readers tty) rest).malloc env).2 := of_same rfl rfl rfl rfl fun _ => rfl
  exact (popped.trans counted).trans (log _ (decide_eq_false apart))

/-- Another reader is served with the first `n` bytes. -/
theorem serveOther {tty : TtyId} {rest : List PcbPtr}
    (queue : s.queues (.readers tty) = q :: rest) (apart : q ≠ p) (r : PCB) (n : Nat) (b : PCB) :
    Bystander o p s
      (Kernel.readyReader env (parkBlock (unlinkReader env s tty q rest) tty q r n) q b) := by
  have unlinked : Bystander o p s (unlinkReader env s tty q rest) := unlinkOther queue apart
  have parked := unlinked.trans (setPcb_other (b := { r with
    ttyKernelReadBuf := some ((s.terminals tty).readBuffer.take n)
    kernelReadSize := n
    userContext := r.userContext.setReturn n }) apart)
  have taken : Bystander o p s (parkBlock (unlinkReader env s tty q rest) tty q r n) :=
    (parked.trans (log (.ttyReadTaken ..) (decide_eq_false apart))).trans (setTerminal _ _ rfl)
  exact taken.trans (readyReader apart)

/-- Another reader is served with nothing, for want of memory. -/
theorem starveOther {tty : TtyId} {rest : List PcbPtr}
    (queue : s.queues (.readers tty) = q :: rest) (apart : q ≠ p) (r b : PCB) :
    Bystander o p s
      (Kernel.readyReader env ((unlinkReader env s tty q rest).setPcb q r) q b) := by
  have unlinked : Bystander o p s (unlinkReader env s tty q rest) := unlinkOther queue apart
  exact (unlinked.trans (setPcb_other apart)).trans (readyReader apart)

theorem serveReaders {tty : TtyId} {readers : List PcbPtr}
    (queue : s.queues (.readers tty) = readers) (calm : o.quiet → p ∉ readers)
    (h : serveReaders env tty readers s = .ok s') : Bystander o p s s' := by
  induction readers generalizing s with
  | nil =>
      cases h
      exact refl _
  | cons reader rest inductionHypothesis =>
      by_cases empty : (s.terminals tty).readBufferLen = 0
      · rw [Kernel.serveReaders, if_pos empty] at h
        cases h
        exact refl _
      · obtain ⟨r, live, served⟩ := serveReaders_cons empty h
        have calm' : o.quiet → p ∉ rest := fun quietly member =>
          calm quietly (List.mem_cons_of_mem _ member)
        have writers : ∀ t, (((parkBlock (unlinkReader env s tty reader rest) tty reader r
            (readAmount r (s.terminals tty))).terminals t).currentWriter =
              (s.terminals t).currentWriter) := by
          intro t
          rw [parkBlock, setTerminal_terminals]
          by_cases here : t = tty
          · subst here
            rw [Function.update_self]
            rfl
          · rw [Function.update_of_ne here]
            rfl
        by_cases here : reader = p
        · subst here
          have noisy : ¬ o.quiet := fun quietly => calm quietly List.mem_cons_self
          rcases served with ⟨-, h⟩ | ⟨-, h⟩
          · have taken : Bystander o reader s (Kernel.readyReader env
                (parkBlock (unlinkReader env s tty reader rest) tty reader r
                  (readAmount r (s.terminals tty))) reader
                { r with
                  ttyKernelReadBuf :=
                    some ((s.terminals tty).readBuffer.take (readAmount r (s.terminals tty)))
                  kernelReadSize := readAmount r (s.terminals tty)
                  userContext := r.userContext.setReturn (readAmount r (s.terminals tty)) }) :=
              servedReader queue live ⟨rfl, .setReturn _ _, fun quietly => absurd quietly noisy,
                fun _ => rfl⟩ noisy rfl writers
            refine taken.trans (inductionHypothesis ?_ calm' h)
            simp [Kernel.readyReader, parkBlock, unlinkReader]
          · have given : Bystander o reader s (Kernel.readyReader env
                ((unlinkReader env s tty reader rest).setPcb reader
                  { r with userContext := r.userContext.setReturn 0 }) reader
                { r with userContext := r.userContext.setReturn 0 }) :=
              servedReader queue live ⟨rfl, .setReturn _ _, fun quietly => absurd quietly noisy,
                fun _ => rfl⟩ noisy rfl fun _ => rfl
            refine given.trans (inductionHypothesis ?_ calm' h)
            simp [Kernel.readyReader, unlinkReader]
        · rcases served with ⟨-, h⟩ | ⟨-, h⟩
          · refine (serveOther queue here r _ _).trans (inductionHypothesis ?_ calm' h)
            simp [Kernel.readyReader, parkBlock, unlinkReader]
          · refine (starveOther queue here _ _).trans (inductionHypothesis ?_ calm' h)
            simp [Kernel.readyReader, unlinkReader]

theorem ttyTrapReceiveHandler {tty : TtyId} {data : List Byte}
    (calm : o.quiet → p ∉ s.queues (.readers tty))
    (h : s.ttyTrapReceiveHandler env tty data = .ok s') : Bystander o p s s' := by
  simp only [Kernel.ttyTrapReceiveHandler] at h
  have first : Bystander o p s (s.log (.ttyReceive tty data)) := log _ rfl
  refine (first.trans (setTerminal tty _ ?_)).trans (serveReaders ?_ calm h)
  · rfl
  · rfl

/-! ### Exit and Wait -/

theorem wakeParent {parent : Option PcbPtr} (h : s.wakeParent env parent = .ok s') :
    Bystander o p s s' := by
  rcases parent with _ | q
  · cases h
    exact refl _
  · simp only [Kernel.wakeParent, bind_eq_ok] at h
    obtain ⟨b, -, h⟩ := h
    by_cases flag : b.waitingForChildPid ≠ 0
    · rw [if_pos flag] at h
      simp only [bind_eq_ok, pure_eq_ok] at h
      obtain ⟨t, readied, rfl⟩ := h
      have marked : Bystander o p s t :=
        modifyPcb readied fun _ _ =>
          ⟨⟨rfl, .refl _, fun _ => rfl, fun _ => rfl⟩, ProcState.noConfusion⟩
      exact marked.trans (enqueueReady env (awake readied fun _ => rfl))
    · rw [if_neg flag] at h
      cases h
      exact refl _

theorem exit {status : Int} {origin : ExitOrigin} (other : s.currentProcess ≠ p)
    (h : s.exit env status origin = .ok s') : Bystander o p s s' := by
  simp only [Kernel.exit, bind_eq_ok] at h
  obtain ⟨b, -, h⟩ := h
  by_cases init : b.pid = 1
  · rw [if_pos init] at h
    obtain ⟨-, -, stopped⟩ := bind_eq_ok.mp h
    cases stopped
  · rw [if_neg init] at h
    simp only [bind_eq_ok] at h
    obtain ⟨t, zombie, u, woken, switched⟩ := h
    have current : u.sched.current = s.sched.current := by
      rw [(wakeParent_sched woken).current_eq]
      obtain ⟨c, -, rfl⟩ := modifyPcb_eq_ok.mp zombie
      simp
    have kept : Bystander o p s (s.queueEnqueue env .zombie s.currentProcess) :=
      enqueue env .zombie s.currentProcess (by simp) fun _ => other
    have marked := kept.trans (modifyPcb zombie fun here => absurd here other)
    refine ((marked.trans (log _ rfl)).trans (wakeParent woken)).trans (dispatch ?_ switched)
    exact fun here => other (current.symm.trans here)

theorem orphanChildren {children : List PcbPtr} (h : orphanChildren children s = .ok s') :
    Bystander o p s s' := by
  induction children generalizing s with
  | nil =>
      cases h
      exact refl _
  | cons child rest inductionHypothesis =>
      simp only [Kernel.orphanChildren, bind_eq_ok] at h
      obtain ⟨t, orphaned, h⟩ := h
      have first : Bystander o p s t :=
        modifyPcb orphaned fun _ _ =>
          ⟨⟨rfl, .refl _, fun _ => rfl, fun _ => rfl⟩, ProcState.noConfusion⟩
      exact first.trans (inductionHypothesis h)

/-- Another process is freed. -/
theorem deletePCB (other : q ≠ p) (h : s.deletePCB q = .ok s') :
    Bystander o p s s' := by
  simp only [Kernel.deletePCB, bind_eq_ok, pure_eq_ok] at h
  obtain ⟨-, -, t, orphaned, rfl⟩ := h
  have emptied : Bystander o p s (t.setQueue (.children q) []) :=
    (orphanChildren orphaned).trans (setQueue _ _ (by simp) fun waits => by cases waits)
  refine emptied.trans (of_pcb ⟨rfl, rfl, rfl, rfl⟩ fun b live => ?_)
  exact ⟨b, (Function.update_of_ne other.symm ..).trans live, .refl b,
    fun asleep => ⟨asleep, id, rfl⟩⟩

theorem reap {z : PcbPtr} {statusPtr : Word} {pid : Int} (other : z ≠ p)
    (h : s.reap z statusPtr = .ok (pid, s')) : Bystander o p s s' := by
  obtain ⟨b, t, -, -, stored, deleted⟩ := reap_eq_ok h
  have written : Bystander o p s t := by
    rcases stored with ⟨-, stored⟩ | ⟨-, rfl⟩
    · exact storeUser stored
    · exact refl _
  have unlinked : Bystander o p s
      ((t.queueRemove (.children t.currentProcess) z).queueRemove .zombie z) :=
    (written.trans (setQueue _ _ (by simp) fun waits => by cases waits)).trans
      (setQueue _ _ (by simp) fun waits => by cases waits)
  exact unlinked.trans (deletePCB other deleted)

theorem waitScan {statusPtr : Word} {result : Option Int × Kernel} (other : p ∉ s.queues .zombie)
    (h : s.waitScan statusPtr = .ok result) : Bystander o p s result.2 := by
  simp only [Kernel.waitScan, bind_eq_ok] at h
  obtain ⟨c, -, found, scanned, h⟩ := h
  rcases found with _ | z
  · cases h
    exact refl _
  · simp only [bind_eq_ok, pure_eq_ok] at h
    obtain ⟨⟨pid, t⟩, reaped, rfl⟩ := h
    refine reap ?_ reaped
    rintro rfl
    exact other (findZombieChild_some scanned).1

theorem finishWait {statusPtr : Word} {rc : Int} (h : s.finishWait statusPtr rc = .ok s') :
    Bystander o p s s' := by
  have recorded : Bystander o p s (s.log (.waitReturned s.currentProcess statusPtr rc)) :=
    log _ rfl
  exact recorded.trans (returnToUser h)

theorem wait {statusPtr : Word} {result : Option Int × Kernel} (other : s.currentProcess ≠ p)
    (alive : p ∉ s.queues .zombie) (h : s.wait statusPtr = .ok result) :
    Bystander o p s result.2 := by
  simp only [Kernel.wait] at h
  by_cases childless : s.isEmpty (.children s.currentProcess) = true
  · rw [if_pos childless] at h
    cases h
    exact refl _
  · rw [if_neg childless, bind_eq_ok] at h
    obtain ⟨⟨found, t⟩, scanned, h⟩ := h
    have first : Bystander o p s t := waitScan alive scanned
    rcases found with _ | pid
    · simp only [bind_eq_ok, pure_eq_ok] at h
      obtain ⟨u, blocked, v, switched, rfl⟩ := h
      have same : t = s := by
        rcases waitScan_sched scanned with ⟨z, c, d, -, -, -, -, -, returned, -⟩ | ⟨unchanged, -⟩
        · cases returned
        · exact (Prod.mk.inj unchanged).2
      subst same
      have second := first.trans (modifyPcb blocked fun here => absurd here other)
      refine second.trans (dispatch ?_ switched)
      obtain ⟨b, -, rfl⟩ := modifyPcb_eq_ok.mp blocked
      exact other
    · cases h
      exact first

/-! ### Fork -/

theorem fork (fresh : s.heap s.nextPcb = none) (started : s.currentProcess ≠ s.nextPcb)
    (other : s.currentProcess ≠ p) (h : s.fork env = .ok (.success, s')) :
    Bystander o p s s' := by
  obtain ⟨i, b, m, pt, m', pages, current, -, -, -, -, -, rfl⟩ := fork_eq_ok started h
  refine ⟨fun c live => ?_, fun queue waits => ?_, fun tty => ?_, fun _ tty => ?_, fun _ => ?_⟩
  · have unborn : p ≠ s.nextPcb := by
      rintro rfl
      rw [fresh] at live
      cases live
    refine ⟨c, ?_, .refl c, fun asleep => ⟨asleep, fun member => ?_, fun same => ?_,
      fun queue waits => ?_, fun _ tty => ?_, id, rfl⟩⟩
    · simpa [Function.update_of_ne other.symm, Function.update_of_ne unborn] using live
    · simp only [setPcb_queues, log_queues, queueEnqueue_queues, setQueue_queues, ne_eq,
        reduceCtorEq, not_false_eq_true, Function.update_of_ne, Function.update_self] at member
      split at member
      · rcases List.mem_append.mp member with before | last
        · exact before
        · exact absurd (List.mem_singleton.mp last) unborn
      · exact member
    · simpa using same
    · cases queue with
      | blocked => simp
      | readers tty => simp
      | writers tty => simp
      | _ => cases waits
    · simp
  · cases queue with
    | blocked => simp
    | readers tty => simp
    | writers tty => simp
    | _ => cases waits
  · simp
  · simp
  · simp [readHistory, List.filter_append, Event.isReadOf]

theorem forkReturn {child parent : PcbPtr} (other : s.currentProcess ≠ p)
    (h : s.forkReturn env child parent = .ok s') : Bystander o p s s' := by
  simp only [Kernel.forkReturn, bind_eq_ok] at h
  obtain ⟨c, -, b, -, h⟩ := h
  by_cases pids : c.pid = b.pid
  · simp only [pids, if_true, bind_eq_ok] at h
    obtain ⟨t, readied, d, -, returned⟩ := h
    have first : Bystander o p s (t.queueEnqueue env .ready child) :=
      (markReady readied).trans (enqueueReady env (awake readied fun _ => rfl))
    have second := first.trans
      (enqueue env (.children parent) child (by simp) fun waits => by cases waits)
    have third : Bystander o p s
        (((t.queueEnqueue env .ready child).queueEnqueue env (.children parent) child).log
          (.forked parent child d.pid)) := second.trans (log _ rfl)
    refine third.trans (modifyPcb returned fun here => absurd ?_ other)
    obtain ⟨e, -, rfl⟩ := modifyPcb_eq_ok.mp readied
    simpa using here
  · simp only [pids, if_false] at h
    exact modifyPcb h fun here => absurd here other

/-! ### Memory -/

theorem brk {addr : Word} {status : Status} (other : s.currentProcess ≠ p)
    (h : s.brk env addr = .ok (status, s')) : Bystander o p s s' := by
  unfold Kernel.brk at h
  by_cases zero : addr = 0
  · rw [if_pos zero] at h
    cases h
    exact refl _
  · rw [if_neg zero] at h
    simp only [bind_eq_ok] at h
    obtain ⟨c, -, ⟨grown, m, pt⟩, -, h⟩ := h
    have mapped : Bystander o p s (s.setMem m) := of_same rfl rfl rfl rfl fun _ => rfl
    by_cases failed : grown = .error
    · simp only [failed, if_true] at h
      cases h
      exact mapped.trans (setPcb_other other)
    · simp only [failed, if_false, bind_eq_ok, pure_eq_ok] at h
      obtain ⟨⟨vpn, m', pt'⟩, -, h⟩ := h
      cases h
      have remapped : Bystander o p s (s.setMem m') := of_same rfl rfl rfl rfl fun _ => rfl
      exact remapped.trans (setPcb_other other)

theorem growStack {addr : Word} {status : Status} (other : s.currentProcess ≠ p)
    (h : s.growStack addr = .ok (status, s')) : Bystander o p s s' := by
  simp only [Kernel.growStack, bind_eq_ok] at h
  obtain ⟨c, -, ⟨grown, m, pt⟩, -, h⟩ := h
  have mapped : Bystander o p s (s.setMem m) := of_same rfl rfl rfl rfl fun _ => rfl
  by_cases failed : grown = .kill
  · simp only [failed, if_true] at h
    cases h
    exact mapped.trans (setPcb_other other)
  · simp only [failed, if_false] at h
    cases h
    exact mapped.trans (setPcb_other other)

theorem loadProgram {req : LoadRequest} {argv : ArgVector} {status : Status} (other : q ≠ p)
    (h : s.loadProgram env req argv q = .ok (status, s')) : Bystander o p s s' := by
  obtain ⟨b, -, ⟨-, rfl, -⟩ | ⟨li, args, plan, -, -, -, loaded⟩⟩ := loadProgram_eq_ok h
  · exact refl _
  · rcases loaded with ⟨-, -, rfl⟩ | ⟨-, m, b', -, rfl⟩
    · have counted : Bystander o p s (s.malloc env).2 := of_same rfl rfl rfl rfl fun _ => rfl
      exact counted.trans (setPcb_other other)
    · have mapped : Bystander o p s ((s.malloc env).2.setMem m) :=
        of_same rfl rfl rfl rfl fun _ => rfl
      exact mapped.trans (setPcb_other other)

theorem exec {req : LoadRequest} {argv : Word} {rc : Int} (other : s.currentProcess ≠ p)
    (h : s.exec env req argv = .ok (rc, s')) : Bystander o p s s' := by
  simp only [Kernel.exec, bind_eq_ok] at h
  obtain ⟨⟨status, t⟩, loaded, h⟩ := h
  by_cases failed : status = .error
  · simp only [failed, if_true] at h
    cases h
    exact loadProgram other loaded
  · simp only [failed, if_false] at h
    cases h
    exact loadProgram other loaded

/-! ### System calls -/

theorem unpackRead {tty : TtyId} {buf : Word} {len rc : Int} (other : s.currentProcess ≠ p)
    (h : s.unpackRead tty buf len rc = .ok s') : Bystander o p s s' := by
  obtain ⟨c, -, ⟨block, t, u, -, -, stored, cleared, h⟩ | ⟨-, h⟩⟩ := unpackRead_eq_ok h
  · have copied : Bystander o p s u :=
      (storeUser stored).trans (modifyPcb cleared fun here => absurd here other)
    have recorded : Bystander o p s
        (u.log (.ttyReadReturned s.currentProcess tty buf len rc)) :=
      copied.trans (log _ (decide_eq_false other))
    exact recorded.trans (returnToUser h)
  · have recorded : Bystander o p s
        (s.log (.ttyReadReturned s.currentProcess tty buf len rc)) :=
      log _ (decide_eq_false other)
    exact recorded.trans (returnToUser h)

theorem finishTtyWrite {tty : Option TtyId} {rc : Int} (h : s.finishTtyWrite tty rc = .ok s') :
    Bystander o p s s' := by
  rcases tty with _ | tty
  · exact returnToUser h
  · have recorded : Bystander o p s
        (s.log (.ttyWriteReturned s.currentProcess tty rc)) :=
      log _ rfl
    exact recorded.trans (returnToUser h)

/-- What is left of a call that came back. -/
theorem finish {result : Option Int × Kernel} {done : Int → Kernel → Except Stop Kernel}
    (first : Bystander o p s result.2)
    (last : ∀ {rc : Int}, result.1 = some rc → done rc result.2 = .ok s' →
      Bystander o p result.2 s')
    (h : finish result done = .ok s') : Bystander o p s s' := by
  rcases result with ⟨_ | rc, t⟩
  · cases h
    exact first
  · exact first.trans (last rfl h)

theorem trapDelay (other : s.currentProcess ≠ p) (h : s.trapDelay env = .ok s') :
    Bystander o p s s' := by
  simp only [Kernel.trapDelay, bind_eq_ok] at h
  obtain ⟨t, saved, result, called, h⟩ := h
  have current := congrArg Sched.current (sched_saveContext saved)
  have first : Bystander o p s t := saveContext other saved
  have second : Bystander o p t result.2 := by
    unfold Kernel.delay at called
    split at called
    · cases called
      exact refl _
    · split at called
      · cases called
        exact refl _
      · simp only [bind_eq_ok, pure_eq_ok] at called
        obtain ⟨u, blocked, v, switched, rfl⟩ := called
        have other' : t.currentProcess ≠ p := fun here => other (current.symm.trans here)
        have marked : Bystander o p t u :=
          modifyPcb blocked fun here => absurd here other'
        refine (marked.trans
          (enqueue env .blocked t.currentProcess (by simp) fun _ => other')).trans
          (dispatch ?_ switched)
        obtain ⟨b, -, rfl⟩ := modifyPcb_eq_ok.mp blocked
        simpa using other'
  refine finish (first.trans second) (fun {rc} _ returned => ?_) h
  split at returned
  · cases returned
  · exact returnToUser returned

theorem trapTtyRead (other : s.currentProcess ≠ p) (h : s.trapTtyRead env = .ok s') :
    Bystander o p s s' := by
  unfold Kernel.trapTtyRead at h
  simp only at h
  by_cases checked : checkBuffer (s.ctx.regs 1) (s.ctx.regs 2) = true
  · rw [if_pos checked] at h
    simp only [bind_eq_ok] at h
    obtain ⟨t, saved, result, called, h⟩ := h
    have current := congrArg Sched.current (sched_saveContext saved)
    have other' : t.currentProcess ≠ p := fun here => other (current.symm.trans here)
    have first : Bystander o p s t := saveContext other saved
    unfold Kernel.ttyRead at called
    rcases arguments : ttyArguments (s.ctx.intReg 0) (s.ctx.regs 1) (s.ctx.intReg 2) with
      _ | ⟨tty, len⟩
    · rw [arguments] at called
      cases called
      rw [arguments] at h
      exact first.trans (returnToUser h)
    · rw [arguments] at called h
      refine finish (first.trans (ttyReadValid other' called)) (fun {rc} returned h => ?_) h
      have stays : result.2.currentProcess = t.currentProcess := by
        rcases ttyReadValid_eq_ok called with
          ⟨-, -, rfl⟩ | ⟨-, -, n, b, -, -, rfl⟩ | ⟨-, u, v, -, -, rfl⟩
        · rfl
        · rfl
        · cases returned
      exact unpackRead (fun here => other' (stays.symm.trans here)) h
  · rw [if_neg checked] at h
    cases h
    exact of_same rfl rfl rfl rfl fun _ => rfl

theorem trapTtyWrite (other : s.currentProcess ≠ p)
    (free : o.exclusive → ∀ tty, (s.terminals tty).inUse = false →
      (s.terminals tty).currentWriter ≠ some p)
    (h : s.trapTtyWrite env = .ok s') : Bystander o p s s' := by
  unfold Kernel.trapTtyWrite at h
  simp only at h
  by_cases checked : checkBuffer (s.ctx.regs 1) (s.ctx.regs 2) = true
  · rw [if_pos checked] at h
    simp only [bind_eq_ok] at h
    obtain ⟨t, saved, result, called, h⟩ := h
    have current := congrArg Sched.current (sched_saveContext saved)
    have other' : t.currentProcess ≠ p := fun here => other (current.symm.trans here)
    have first : Bystander o p s t := saveContext other saved
    unfold Kernel.ttyWrite at called
    split at called
    · cases called
      exact first.trans (finishTtyWrite h)
    · rename_i tty len arguments
      have free' : o.exclusive → (t.terminals tty).inUse = false →
          (t.terminals tty).currentWriter ≠ some p := by
        obtain ⟨b, -, rfl⟩ := saveContext_eq_ok.mp saved
        exact fun exclusive => free exclusive tty
      exact finish (first.trans (ttyWriteValid other' free' called)) (fun _ h => finishTtyWrite h) h
  · rw [if_neg checked] at h
    cases h
    exact of_same rfl rfl rfl rfl fun _ => rfl

theorem kernelTrapHandler {req : LoadRequest} (fresh : s.heap s.nextPcb = none)
    (other : s.currentProcess ≠ p) (alive : p ∉ s.queues .zombie)
    (free : o.exclusive → s.ctx.code = yalnixTtyWrite → ∀ tty, (s.terminals tty).inUse = false →
      (s.terminals tty).currentWriter ≠ some p)
    (h : s.kernelTrapHandler env req = .ok s') : Bystander o p s s' := by
  have save : ∀ {t : Kernel}, s.saveContext = .ok t → Bystander o p s t ∧
      t.sched = s.sched ∧ t.currentProcess ≠ p := by
    intro t saved
    have view := sched_saveContext saved
    exact ⟨saveContext other saved, view,
      fun here => other ((congrArg Sched.current view).symm.trans here)⟩
  cases kernelTrapHandler_eq_ok h with
  | delay _ ran => exact trapDelay other ran
  | brk _ ran =>
      simp only [trapBrk, bind_eq_ok] at ran
      obtain ⟨t, saved, ⟨status, u⟩, moved, ran⟩ := ran
      obtain ⟨first, -, other'⟩ := save saved
      by_cases failed : status = .error
      · simp only [failed, if_true] at ran
        cases ran
      · simp only [failed, if_false] at ran
        exact (first.trans (brk other' moved)).trans (returnToUser ran)
  | fork _ ran =>
      simp only [trapFork, bind_eq_ok] at ran
      obtain ⟨t, saved, ⟨status, u⟩, forked, ran⟩ := ran
      obtain ⟨first, view, other'⟩ := save saved
      rcases fork_status forked with rfl | rfl
      · simp only [reduceCtorEq, if_false] at ran
        obtain ⟨b, live, rfl⟩ := saveContext_eq_ok.mp saved
        have started : s.currentProcess ≠ s.nextPcb := by
          intro same
          rw [same, fresh] at live
          cases live
        have fresh' : (s.setPcb s.currentProcess { b with userContext := s.ctx }).heap s.nextPcb =
            none := by
          rw [setPcb_heap, Function.update_of_ne started.symm]
          exact fresh
        exact (first.trans (fork fresh' started other' forked)).trans (restoreContext ran)
      · cases ran
  | getPid _ ran =>
      simp only [trapGetPid, bind_eq_ok] at ran
      obtain ⟨t, saved, pid, -, ran⟩ := ran
      obtain ⟨first, -, -⟩ := save saved
      by_cases failed : pid = -1
      · simp only [failed, if_true] at ran
        cases ran
      · simp only [failed, if_false] at ran
        exact first.trans (returnToUser ran)
  | wait _ ran =>
      simp only [trapWait, bind_eq_ok] at ran
      obtain ⟨t, saved, result, waited, ran⟩ := ran
      obtain ⟨first, view, other'⟩ := save saved
      have alive' : p ∉ t.queues .zombie := by
        rw [← sched_queues, view]
        exact alive
      exact finish (first.trans (wait other' alive' waited)) (fun _ => finishWait) ran
  | exit _ ran => exact exit other ran
  | exec _ ran =>
      simp only [trapExec, bind_eq_ok] at ran
      obtain ⟨t, saved, ⟨rc, u⟩, loaded, ran⟩ := ran
      obtain ⟨first, -, other'⟩ := save saved
      exact (first.trans (exec other' loaded)).trans (returnToUser ran)
  | ttyRead _ ran => exact trapTtyRead other ran
  | ttyWrite code ran => exact trapTtyWrite other (fun exclusive => free exclusive code) ran
  | unknown _ same =>
      subst same
      exact refl _

theorem memoryTrapHandler (other : s.currentProcess ≠ p) (h : s.memoryTrapHandler env = .ok s') :
    Bystander o p s s' := by
  simp only [Kernel.memoryTrapHandler, bind_eq_ok] at h
  obtain ⟨c, -, h⟩ := h
  rcases action : memoryTrapAction c s.ctx with _ | _ | _
  · simp only [action, bind_eq_ok] at h
    obtain ⟨⟨status, t⟩, grown, h⟩ := h
    have first : Bystander o p s t := growStack other grown
    by_cases failed : status = .kill
    · simp only [failed, if_true] at h
      have view := (growStack_sched grown).1
      exact first.trans (exit (fun here => other ((congrArg Sched.current view).symm.trans here)) h)
    · simp only [failed, if_false] at h
      cases h
      exact first
  · simp only [action] at h
    exact exit other h
  · simp only [action] at h
    cases h
    exact refl _

theorem resume (other : s.currentProcess ≠ p) (alive : p ∉ s.queues .zombie)
    (free : o.exclusive → ∀ c tty buf len, s.heap s.currentProcess = some c →
      c.kernelContext = .ttyWriteLock tty buf len → (s.terminals tty).currentWriter ≠ some p)
    (h : s.resume env = .ok s') : Bystander o p s s' := by
  simp only [Kernel.resume, bind_eq_ok, deref_eq_ok] at h
  obtain ⟨c, live, h⟩ := h
  cases saved : c.kernelContext with
  | unsaved =>
      rw [saved] at h
      cases h
  | kernelStart =>
      rw [saved] at h
      exact restoreContext h
  | fork child parent =>
      rw [saved] at h
      simp only [bind_eq_ok] at h
      obtain ⟨t, returned, h⟩ := h
      exact (forkReturn other returned).trans (restoreContext h)
  | clockTrap =>
      rw [saved] at h
      exact restoreContext h
  | delay =>
      rw [saved] at h
      exact returnToUser h
  | wait statusPtr =>
      rw [saved] at h
      simp only [bind_eq_ok] at h
      obtain ⟨⟨rc, t⟩, resumed, h⟩ := h
      simp only [waitResumed, bind_eq_ok] at resumed
      obtain ⟨⟨found, u⟩, scanned, resumed⟩ := resumed
      have first : Bystander o p s u := waitScan alive scanned
      rcases found with _ | pid
      · cases resumed
        exact first.trans (finishWait h)
      · cases resumed
        exact first.trans (finishWait h)
  | ttyRead tty buf len =>
      rw [saved] at h
      exact unpackRead other h
  | ttyWriteLock tty buf len =>
      rw [saved] at h
      simp only [bind_eq_ok] at h
      obtain ⟨result, locked, h⟩ := h
      have free' := fun exclusive => free exclusive c tty buf len live saved
      exact finish (ttyWriteLocked other free' locked) (fun _ => finishTtyWrite) h
  | ttyWriteDone tty len =>
      rw [saved] at h
      exact finishTtyWrite h
  | exit frame origin =>
      rw [saved] at h
      rcases origin with _ | _ | _
      · cases h
        exact of_same rfl rfl rfl rfl fun _ => rfl
      · cases h
        exact of_same rfl rfl rfl rfl fun _ => rfl
      · cases h

end Bystander

/-- The step may write a result into the context of the process. -/
def AnswersTo (s : Kernel) (p : PcbPtr) : Input → Prop
  | .ttyReceiveTrap _ tty _ => p ∈ s.queues (.readers tty)
  | .ttyTransmitTrap _ tty => (s.terminals tty).currentWriter = some p
  | _ => False

/-- The step may begin to write on a terminal that still writes for the process. -/
def TakesOver (s : Kernel) (p : PcbPtr) : Input → Prop
  | .kernelTrap ctx _ => ctx.code = yalnixTtyWrite ∧ ∃ tty, (s.terminals tty).inUse = false ∧
      (s.terminals tty).currentWriter = some p
  | .resume => ∃ c tty buf len, s.heap s.currentProcess = some c ∧
      c.kernelContext = .ttyWriteLock tty buf len ∧ (s.terminals tty).currentWriter = some p
  | _ => False

def occasion (s : Kernel) (p : PcbPtr) (i : Input) : Occasion where
  quiet := ¬ s.AnswersTo p i
  untimed := ¬ i.isClock = true
  exclusive := ¬ s.TakesOver p i

/-- A process that is neither current nor a zombie looks on. -/
theorem bystander_step {i : Input} (fresh : s.heap s.nextPcb = none)
    (other : s.currentProcess ≠ p) (alive : p ∉ s.queues .zombie) (step : s.Step env i s') :
    Bystander (s.occasion p i) p s s' := by
  obtain ⟨-, h⟩ := step
  have trapped : ∀ {o : Occasion} {ctx : UserContext},
      Bystander o p (s.trap ctx) s' → Bystander o p s s' := by
    intro o ctx looksOn
    have entered : Bystander o p s (s.trap ctx) := Bystander.of_same rfl rfl rfl rfl fun _ => rfl
    exact entered.trans looksOn
  cases i with
  | kernelTrap ctx req =>
      refine trapped (Bystander.kernelTrapHandler (s := s.trap ctx) fresh other alive ?_ h)
      exact fun exclusive code tty free writer => exclusive ⟨code, tty, free, writer⟩
  | clockTrap ctx =>
      exact trapped (Bystander.clockTrapHandler (s := s.trap ctx) (fun still => still rfl) other h)
  | memoryTrap ctx => exact trapped (Bystander.memoryTrapHandler (s := s.trap ctx) other h)
  | mathTrap ctx => exact trapped (Bystander.exit (s := s.trap ctx) other h)
  | illegalTrap ctx => exact trapped (Bystander.exit (s := s.trap ctx) other h)
  | ttyReceiveTrap ctx tty data =>
      exact trapped (Bystander.ttyTrapReceiveHandler (s := s.trap ctx) id h)
  | ttyTransmitTrap ctx tty =>
      exact trapped (Bystander.ttyTrapTransmitHandler (s := s.trap ctx) id h)
  | resume =>
      refine Bystander.resume other alive ?_ h
      exact fun exclusive c tty buf len live saved writer =>
        exclusive ⟨c, tty, buf, len, live, saved, writer⟩
  | userStore va bytes => exact Bystander.storeUser h
  | kernelBrk addr =>
      cases h
      exact Bystander.of_same rfl rfl rfl rfl fun _ => rfl

end Kernel

end Yalnix
