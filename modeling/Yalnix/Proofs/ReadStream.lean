/-
Module: Yalnix.Proofs.ReadStream
Purpose: The reading side of each terminal is a channel: what was received is what was taken and
  what is unread, and blocked readers are served in order.
Trusted boundary: the pids of the hardware library do not repeat
Main exports: Kernel.channel, Kernel.StreamIntact, stream_step, stream_reaches
-/
import Yalnix.Lib.Channel
import Yalnix.Proofs.ExitFinal
import Yalnix.Proofs.Terminals

namespace Yalnix

open Transition

/-! ### What the events say about one terminal -/

namespace Event

/-- The bytes `TtyReceive` returned. -/
def received (tty : TtyId) : Event → List Byte
  | .ttyReceive t bytes => if t = tty then bytes else []
  | _ => []

/-- The bytes that were taken for a reader. -/
def taken (tty : TtyId) : Event → List Byte
  | .ttyReadTaken _ t bytes => if t = tty then bytes else []
  | _ => []

/-- The reader that entered `blocked_readers`. -/
def blocked (tty : TtyId) : Event → List PcbPtr
  | .ttyReadBlocked p t queued => if t = tty ∧ queued then [p] else []
  | _ => []

/-- The reader that the receive handler served. -/
def served (tty : TtyId) : Event → List PcbPtr
  | .ttyReaderServed p t => if t = tty then [p] else []
  | _ => []

/-- The event says nothing about the channel of a terminal. -/
def isSilent : Event → Bool
  | .ttyReceive .. | .ttyReadTaken .. | .ttyReadBlocked .. | .ttyReaderServed .. => false
  | _ => true

end Event

namespace Kernel

variable {env : Env} {cfg : BootConfig} {boot s s' t u : Kernel} {p q : PcbPtr} {b : PCB}
  {tty : TtyId}

/-- The reading side of a terminal. -/
def channel (s : Kernel) (tty : TtyId) : Channel Byte PcbPtr where
  buffer := (s.terminals tty).readBuffer
  len := (s.terminals tty).readBufferLen
  waiting := s.queues (.readers tty)
  received := s.history.flatMap (Event.received tty)
  taken := s.history.flatMap (Event.taken tty)
  blocked := s.history.flatMap (Event.blocked tty)
  served := s.history.flatMap (Event.served tty)

/-- Each channel is balanced. -/
def StreamAccounted (s : Kernel) : Prop := ∀ tty, (s.channel tty).Accounted terminalMaxLine

/-- Each channel is balanced, and nobody waits while bytes are unread. -/
def StreamIntact (s : Kernel) : Prop :=
  s.StreamAccounted ∧ ∀ tty, (s.channel tty).waiting ≠ [] → (s.channel tty).len = 0

/-! ### Steps that do not concern the channels -/

/-- No channel changes. -/
def SameChannels (s s' : Kernel) : Prop := ∀ tty, s'.channel tty = s.channel tty

theorem SameChannels.intact (same : SameChannels s s') (intact : s.StreamIntact) :
    s'.StreamIntact := by
  refine ⟨fun tty => ?_, fun tty => ?_⟩
  · rw [same]
    exact intact.1 tty
  · rw [same]
    exact intact.2 tty

namespace SameChannels

theorem refl (s : Kernel) : SameChannels s s := fun _ => rfl

theorem trans (first : SameChannels s t) (second : SameChannels t u) : SameChannels s u :=
  fun tty => (second tty).trans (first tty)

/-- Events about processes do not count, nor do steps away from the terminals. -/
theorem of_frame (frame : TtyFrame s s') : SameChannels s s' := by
  intro tty
  have tell : ∀ {β : Type} (tell : Event → List β), (∀ e, Event.isTty e = false → tell e = []) →
      s'.history.flatMap tell = s.history.flatMap tell := by
    intro β tell quiet
    have kept : ∀ events : List Event, (events.filter Event.isTty).flatMap tell =
        events.flatMap tell := by
      intro events
      induction events with
      | nil => rfl
      | cons e rest inductionHypothesis =>
          cases kind : Event.isTty e with
          | false =>
              rw [List.filter_cons_of_neg (by simp [kind]), inductionHypothesis, List.flatMap_cons,
                quiet e kind, List.nil_append]
          | true =>
              rw [List.filter_cons_of_pos kind, List.flatMap_cons, inductionHypothesis,
                List.flatMap_cons]
    rw [← kept s'.history, ← kept s.history]
    exact congrArg (List.flatMap tell) frame.history
  have quiet : ∀ e, Event.isTty e = false → Event.received tty e = [] ∧ Event.taken tty e = [] ∧
      Event.blocked tty e = [] ∧ Event.served tty e = [] := by
    intro e family
    cases e with
    | forked => exact ⟨rfl, rfl, rfl, rfl⟩
    | exited => exact ⟨rfl, rfl, rfl, rfl⟩
    | waitReturned => exact ⟨rfl, rfl, rfl, rfl⟩
    | _ => cases family
  have queue := frame.queues (.readers tty) rfl
  simp only [channel, frame.terminals, queue, tell _ fun e family => (quiet e family).1,
    tell _ fun e family => (quiet e family).2.1, tell _ fun e family => (quiet e family).2.2.1,
    tell _ fun e family => (quiet e family).2.2.2]

theorem modifyPcb {f : PCB → PCB} (h : s.modifyPcb q f = .ok s') : SameChannels s s' :=
  of_frame (TtyFrame.modifyPcb h)

theorem log {e : Event} (silent : e.isSilent = true) : SameChannels s (s.log e) := by
  intro tty
  have nothing : Event.received tty e = [] ∧ Event.taken tty e = [] ∧
      Event.blocked tty e = [] ∧ Event.served tty e = [] := by
    cases e with
    | ttyReceive => cases silent
    | ttyReadTaken => cases silent
    | ttyReadBlocked => cases silent
    | ttyReaderServed => cases silent
    | _ => exact ⟨rfl, rfl, rfl, rfl⟩
  simp only [channel, log_terminals, log_queues, log_history, List.flatMap_append,
    List.flatMap_singleton, nothing, List.append_nil]

/-- The writing side of a terminal changes. -/
theorem setTerminal (tty : TtyId) (terminal : Terminal)
    (buffer : terminal.readBuffer = (s.terminals tty).readBuffer)
    (len : terminal.readBufferLen = (s.terminals tty).readBufferLen) :
    SameChannels s (s.setTerminal tty terminal) := by
  intro other
  by_cases here : other = tty
  · subst here
    simp only [channel, setTerminal_terminals, Function.update_self, buffer, len,
      setTerminal_queues, setTerminal_history]
  · simp only [channel, setTerminal_terminals, Function.update_of_ne here, setTerminal_queues,
      setTerminal_history]

theorem setQueue (queue : QueueId) (entries : List PcbPtr)
    (other : ∀ tty, queue ≠ .readers tty) : SameChannels s (s.setQueue queue entries) := by
  intro tty
  simp only [channel, setQueue_terminals, setQueue_queues, Function.update_of_ne (other tty).symm,
    setQueue_history]

theorem enqueue (env : Env) (queue : QueueId) (q : PcbPtr)
    (other : ∀ tty, queue ≠ .readers tty) : SameChannels s (s.queueEnqueue env queue q) := by
  intro tty
  simp only [channel, queueEnqueue_terminals, queueEnqueue_queues,
    Function.update_of_ne (other tty).symm, queueEnqueue_history]

theorem remove (q : PcbPtr) : SameChannels s (s.queueRemove .blocked q) :=
  setQueue _ _ fun _ => QueueId.noConfusion

/-! ### Writing -/

theorem ttyWriteLocked {buf : Word} {len : Nat} {result : Option Int × Kernel}
    (h : s.ttyWriteLocked env tty buf len = .ok result) : SameChannels s result.2 := by
  have counted : SameChannels s (s.malloc env).2 := fun _ => rfl
  obtain ⟨b, -, outcome⟩ := ttyWriteLocked_eq_ok h
  have refused : SameChannels s (s.refuseWrite env tty b) :=
    (counted.trans (setTerminal tty
      { s.terminals tty with writeBuffer := none, inUse := false } rfl rfl)).trans
        (of_frame TtyFrame.setPcb)
  rcases outcome with ⟨-, -, rfl⟩ | ⟨-, next, rest, t, -, readied, rfl⟩ |
    ⟨-, bytes, u, -, switched, rfl⟩
  · exact refused
  · have popped := refused.trans (setQueue (.writers tty) rest fun _ => QueueId.noConfusion)
    exact (popped.trans (modifyPcb readied)).trans
      (enqueue env .ready _ fun _ => QueueId.noConfusion)
  · have handed := counted.trans (log (e := .ttyTransmit tty (bytes.take (firstChunk len))) rfl)
    have owned := handed.trans (setTerminal tty
      { s.terminals tty with
        writeBuffer := some bytes
        writeBufferLen := len
        writeBufferPosition := firstChunk len
        currentWriter := some s.currentProcess
        inUse := true } rfl rfl)
    have begun : SameChannels s (s.beginWrite env tty bytes len b) :=
      (owned.trans (of_frame TtyFrame.setPcb)).trans
        (enqueue env .blocked s.currentProcess fun _ => QueueId.noConfusion)
    exact begun.trans (of_frame (TtyFrame.dispatch switched))

theorem ttyWriteValid {buf : Word} {len : Nat} {result : Option Int × Kernel}
    (h : s.ttyWriteValid env tty buf len = .ok result) : SameChannels s result.2 := by
  unfold Kernel.ttyWriteValid at h
  have first : SameChannels s
      (s.log (.ttyWriteCalled s.currentProcess tty (s.userBytes s.currentProcess buf len))) :=
    log rfl
  by_cases locked : (s.terminals tty).inUse = true
  · simp only [log_terminals, locked, if_true, bind_eq_ok, pure_eq_ok] at h
    obtain ⟨t, blocked, u, switched, rfl⟩ := h
    have queued := first.trans
      (enqueue env (.writers tty) s.currentProcess fun _ => QueueId.noConfusion)
    have asleep := (queued.trans (modifyPcb blocked)).trans
      (enqueue env .blocked s.currentProcess fun _ => QueueId.noConfusion)
    exact asleep.trans (of_frame (TtyFrame.dispatch switched))
  · simp only [log_terminals, locked] at h
    have rest : SameChannels
        (s.log (.ttyWriteCalled s.currentProcess tty (s.userBytes s.currentProcess buf len)))
        result.2 := ttyWriteLocked h
    exact first.trans rest

theorem finishTtyWrite {tty : Option TtyId} {rc : Int} (h : s.finishTtyWrite tty rc = .ok s') :
    SameChannels s s' := by
  cases tty with
  | none => exact of_frame (TtyFrame.returnToUser h)
  | some tty =>
      have recorded : SameChannels s (s.log (.ttyWriteReturned s.currentProcess tty rc)) := log rfl
      exact recorded.trans (of_frame (TtyFrame.returnToUser h))

/-- Handing the terminal to the next writer, or releasing it. -/
theorem handOver (h : HandOver env s tty s') : SameChannels s s' := by
  cases h with
  | free none => exact setTerminal _ _ rfl rfl
  | @next next rest u writers readied =>
      have popped : SameChannels s (s.setQueue (.writers tty) rest) :=
        setQueue _ _ fun _ => QueueId.noConfusion
      exact ((popped.trans (modifyPcb readied)).trans (remove next)).trans
        (enqueue env .ready _ fun _ => QueueId.noConfusion)

theorem ttyTrapTransmitHandler (h : s.ttyTrapTransmitHandler env tty = .ok s') :
    SameChannels s s' := by
  have first : SameChannels s (s.log (.ttyTransmitTrap tty)) := log rfl
  have cleared : SameChannels s ((s.log (.ttyTransmitTrap tty)).clearWrite tty) :=
    first.trans (setTerminal _ _ rfl rfl)
  cases ttyTrapTransmitHandler_eq_ok h with
  | chunk left => exact (first.trans (log rfl)).trans (setTerminal _ _ rfl rfl)
  | unowned through none handed => exact cleared.trans (handOver handed)
  | @owned w u _ through some readied handed =>
      have woken := ((cleared.trans (modifyPcb readied)).trans (remove w)).trans
        (enqueue env .ready w fun _ => QueueId.noConfusion)
      exact woken.trans (handOver handed)

theorem readyReader (reader : PcbPtr) (b : PCB) :
    SameChannels s (readyReader env s reader b) := by
  have removed : SameChannels s (s.queueRemove .blocked reader) := remove reader
  have readied : SameChannels (s.queueRemove .blocked reader)
      ((s.queueRemove .blocked reader).setPcb reader { b with state := .ready }) := fun _ => rfl
  exact (removed.trans readied).trans (enqueue env .ready reader fun _ => QueueId.noConfusion)

end SameChannels

/-! ### Reading -/

/-- One channel takes a step, and the others do not. -/
def ChannelStep (s s' : Kernel) (tty : TtyId) (c : Channel Byte PcbPtr) : Prop :=
  s'.channel tty = c ∧ ∀ other, other ≠ tty → s'.channel other = s.channel other

namespace ChannelStep

variable {c : Channel Byte PcbPtr}

theorem then_same (first : ChannelStep s t tty c) (second : SameChannels t u) :
    ChannelStep s u tty c :=
  ⟨(second tty).trans first.1, fun other apart => (second other).trans (first.2 other apart)⟩

theorem after_same (first : SameChannels s t) (second : ChannelStep t u tty c) :
    ChannelStep s u tty c :=
  ⟨second.1, fun other apart => (second.2 other apart).trans (first other)⟩

theorem trans {c' : Channel Byte PcbPtr} (first : ChannelStep s t tty c)
    (second : ChannelStep t u tty c') : ChannelStep s u tty c' :=
  ⟨second.1, fun other apart => (second.2 other apart).trans (first.2 other apart)⟩

theorem accounted (step : ChannelStep s s' tty c) (before : s.StreamAccounted)
    (balanced : c.Accounted terminalMaxLine) : s'.StreamAccounted := by
  intro other
  by_cases here : other = tty
  · subst here
    rw [step.1]
    exact balanced
  · rw [step.2 other here]
    exact before other

theorem idle (step : ChannelStep s s' tty c)
    (others : ∀ other, other ≠ tty → (s.channel other).waiting ≠ [] → (s.channel other).len = 0) :
    ∀ other, other ≠ tty → (s'.channel other).waiting ≠ [] → (s'.channel other).len = 0 := by
  intro other apart
  rw [step.2 other apart]
  exact others other apart

/-- `TtyReceive` delivers bytes. -/
theorem receive (data : List Byte) :
    ChannelStep s
      ((s.log (.ttyReceive tty data)).setTerminal tty
        { s.terminals tty with
          readBuffer :=
            (s.terminals tty).readBuffer.take (s.terminals tty).readBufferLen ++ data ++
              (s.terminals tty).readBuffer.drop
                ((s.terminals tty).readBufferLen + data.length)
          readBufferLen := (s.terminals tty).readBufferLen + data.length })
      tty ((s.channel tty).receive data) := by
  constructor
  · simp [channel, Channel.receive, Event.received, Event.taken, Event.blocked, Event.served]
  · intro other apart
    simp [channel, apart, apart.symm, Event.received, Event.taken, Event.blocked, Event.served]

/-- A block leaves the read buffer. -/
theorem take (tty : TtyId) (p : PcbPtr) (n : Nat) :
    ChannelStep s
      ((s.log (.ttyReadTaken p tty ((s.terminals tty).readBuffer.take n))).setTerminal tty
        ((s.terminals tty).shiftRead n))
      tty ((s.channel tty).take n) := by
  constructor
  · simp [channel, Channel.take, Terminal.shiftRead, Event.received, Event.taken, Event.blocked,
      Event.served]
  · intro other apart
    simp [channel, apart, apart.symm, Event.received, Event.taken, Event.blocked, Event.served]

/-- A reader enters `blocked_readers`, if there is memory for the node. -/
theorem block (env : Env) (s : Kernel) (tty : TtyId) (p : PcbPtr) :
    ChannelStep s
      ((s.log (.ttyReadBlocked p tty (env.mallocOk s.mallocCalls))).queueEnqueue env
        (.readers tty) p)
      tty ((s.channel tty).block p (env.mallocOk s.mallocCalls)) := by
  constructor
  · by_cases allocated : env.mallocOk s.mallocCalls = true
    · simp [channel, Channel.block, allocated, Event.received, Event.taken, Event.blocked,
        Event.served]
    · simp [channel, Channel.block, allocated, Event.received, Event.taken, Event.blocked,
        Event.served]
  · intro other apart
    simp [channel, apart, apart.symm, Event.received, Event.taken, Event.blocked, Event.served]

/-- The head of `blocked_readers` is served. -/
theorem serve {reader : PcbPtr} {rest : List PcbPtr} :
    ChannelStep s (unlinkReader env s tty reader rest) tty
      ((s.channel tty).serve reader rest) := by
  constructor
  · simp [channel, Channel.serve, unlinkReader, Event.received, Event.taken, Event.blocked,
      Event.served]
  · intro other apart
    simp [channel, unlinkReader, apart, apart.symm, Event.received, Event.taken, Event.blocked,
      Event.served]

/-- A blocked reader is served with the first `n` bytes. -/
theorem serveBlock (env : Env) (s : Kernel) (tty : TtyId) (reader : PcbPtr) (rest : List PcbPtr)
    (r : PCB) (n : Nat) (b : PCB) :
    ChannelStep s
      (readyReader env (parkBlock (unlinkReader env s tty reader rest) tty reader r n) reader b)
      tty (((s.channel tty).serve reader rest).take n) := by
  have unlinked : ChannelStep s (unlinkReader env s tty reader rest) tty
      ((s.channel tty).serve reader rest) := serve
  have parked : SameChannels (unlinkReader env s tty reader rest)
      ((unlinkReader env s tty reader rest).setPcb reader
        { r with
          ttyKernelReadBuf := some ((s.terminals tty).readBuffer.take n)
          kernelReadSize := n
          userContext := r.userContext.setReturn n }) := fun _ => rfl
  have took := (unlinked.then_same parked).trans (take tty reader n)
  rw [(unlinked.then_same parked).1] at took
  exact took.then_same (SameChannels.readyReader reader b)

/-- A blocked reader is served with nothing, for want of memory. -/
theorem serveNothing (env : Env) (s : Kernel) (tty : TtyId) (reader : PcbPtr)
    (rest : List PcbPtr) (r b : PCB) :
    ChannelStep s (readyReader env ((unlinkReader env s tty reader rest).setPcb reader r) reader b)
      tty ((s.channel tty).serve reader rest) := by
  have unlinked : ChannelStep s (unlinkReader env s tty reader rest) tty
      ((s.channel tty).serve reader rest) := serve
  have given : SameChannels (unlinkReader env s tty reader rest)
      ((unlinkReader env s tty reader rest).setPcb reader r) := fun _ => rfl
  exact (unlinked.then_same given).then_same (SameChannels.readyReader reader b)

end ChannelStep

theorem readAmount_le (r : PCB) (terminal : Terminal) :
    readAmount r terminal ≤ terminal.readBufferLen := by
  unfold readAmount
  split
  · omega
  · exact Nat.le_refl _

theorem SameChannels.unpackRead {buf : Word} {len rc : Int}
    (h : s.unpackRead tty buf len rc = .ok s') : SameChannels s s' := by
  obtain ⟨c, -, ⟨block, t, u, -, -, stored, cleared, h⟩ | ⟨-, h⟩⟩ := unpackRead_eq_ok h
  · have copied : SameChannels s u :=
        (of_frame (TtyFrame.storeUser stored)).trans (modifyPcb cleared)
    have recorded : SameChannels s (u.log (.ttyReadReturned s.currentProcess tty buf len rc)) :=
      copied.trans (SameChannels.log rfl)
    exact recorded.trans (of_frame (TtyFrame.returnToUser h))
  · have recorded : SameChannels s (s.log (.ttyReadReturned s.currentProcess tty buf len rc)) :=
      SameChannels.log rfl
    exact recorded.trans (of_frame (TtyFrame.returnToUser h))

theorem StreamAccounted.intact (accounted : s.StreamAccounted)
    (others : ∀ other, other ≠ tty → (s.channel other).waiting ≠ [] → (s.channel other).len = 0)
    (here : (s.channel tty).waiting ≠ [] → (s.channel tty).len = 0) : s.StreamIntact := by
  refine ⟨accounted, fun other => ?_⟩
  by_cases same : other = tty
  · subst same
    exact here
  · exact others other same

theorem ttyReadValid_intact {buf : Word} {len : Nat} {result : Option Int × Kernel}
    (intact : s.StreamIntact) (h : s.ttyReadValid env tty buf len = .ok result) :
    result.2.StreamIntact := by
  have others : ∀ other, other ≠ tty → (s.channel other).waiting ≠ [] →
      (s.channel other).len = 0 := fun other _ => intact.2 other
  rcases ttyReadValid_eq_ok h with
    ⟨-, -, rfl⟩ | ⟨available, -, n, b, amount, live, rfl⟩ | ⟨empty, t, u, parked, switched, rfl⟩
  · have counted : SameChannels s (s.malloc env).2 := fun _ => rfl
    exact counted.intact intact
  · have parked : SameChannels s ((s.malloc env).2.setPcb s.currentProcess
        { b with
          ttyKernelReadBuf := some ((s.terminals tty).readBuffer.take n), kernelReadSize := n }) :=
      fun _ => rfl
    have step := ChannelStep.after_same parked (ChannelStep.take tty s.currentProcess n)
    have enough : n ≤ (s.channel tty).len := by
      rw [amount]
      exact Nat.min_le_left _ _
    refine (step.accounted intact.1 ((intact.1 tty).take enough)).intact (step.idle others) ?_
    intro waits
    have nothing : (s.terminals tty).readBufferLen = 0 := intact.2 tty fun none =>
      waits ((congrArg Channel.waiting step.1).trans none)
    omega
  · have blocked := ChannelStep.block env s tty s.currentProcess
    have rest : SameChannels _ u :=
      ((SameChannels.enqueue env .blocked s.currentProcess fun _ => QueueId.noConfusion).trans
        (SameChannels.modifyPcb parked)).trans (SameChannels.of_frame (TtyFrame.dispatch switched))
    have step := blocked.then_same rest
    refine (step.accounted intact.1 ((intact.1 tty).block _ _)).intact (step.idle others) ?_
    intro _
    rw [step.1]
    exact empty

/-- Serving the blocked readers ends with none of them left, or with nothing unread. -/
theorem serveReaders_intact {readers : List PcbPtr} (queue : s.queues (.readers tty) = readers)
    (accounted : s.StreamAccounted)
    (others : ∀ other, other ≠ tty → (s.channel other).waiting ≠ [] → (s.channel other).len = 0)
    (h : serveReaders env tty readers s = .ok s') : s'.StreamIntact := by
  induction readers generalizing s with
  | nil =>
      cases h
      exact accounted.intact others fun waits => absurd queue waits
  | cons reader rest inductionHypothesis =>
      by_cases empty : (s.terminals tty).readBufferLen = 0
      · rw [serveReaders, if_pos empty] at h
        cases h
        exact accounted.intact others fun _ => empty
      · obtain ⟨r, live, served⟩ := serveReaders_cons empty h
        have balanced := (accounted tty).serve queue
        rcases served with ⟨-, h⟩ | ⟨-, h⟩
        · have step := ChannelStep.serveBlock env s tty reader rest r
            (readAmount r (s.terminals tty))
          have taken := balanced.take (n := readAmount r (s.terminals tty)) (readAmount_le r _)
          refine inductionHypothesis ?_ ((step _).accounted accounted taken)
            ((step _).idle others) h
          simp [readyReader, parkBlock, unlinkReader]
        · have step := ChannelStep.serveNothing env s tty reader rest
          refine inductionHypothesis ?_ ((step _ _).accounted accounted balanced)
            ((step _ _).idle others) h
          simp [readyReader, unlinkReader]

/-! ### Steps -/

theorem ttyTrapReceiveHandler_intact {data : List Byte} (intact : s.StreamIntact)
    (fits : data.length ≤ terminalMaxLine - (s.terminals tty).readBufferLen)
    (h : s.ttyTrapReceiveHandler env tty data = .ok s') : s'.StreamIntact := by
  have step : ChannelStep s _ tty ((s.channel tty).receive data) := ChannelStep.receive data
  exact serveReaders_intact rfl (step.accounted intact.1 ((intact.1 tty).receive fits))
    (step.idle fun other _ => intact.2 other) h

theorem trapTtyRead_intact (intact : s.StreamIntact) (h : s.trapTtyRead env = .ok s') :
    s'.StreamIntact := by
  unfold trapTtyRead at h
  simp only at h
  by_cases checked : checkBuffer (s.ctx.regs 1) (s.ctx.regs 2) = true
  · rw [if_pos checked] at h
    simp only [bind_eq_ok] at h
    obtain ⟨t, saved, result, called, h⟩ := h
    have first : t.StreamIntact := (SameChannels.modifyPcb saved).intact intact
    unfold ttyRead at called
    rcases arguments : ttyArguments (s.ctx.intReg 0) (s.ctx.regs 1) (s.ctx.intReg 2) with
      _ | ⟨tty, len⟩
    · rw [arguments] at called h
      cases called
      exact (SameChannels.of_frame (TtyFrame.returnToUser h)).intact first
    · rw [arguments] at called h
      have second := ttyReadValid_intact first called
      rcases result with ⟨_ | rc, u⟩
      · cases h
        exact second
      · exact (SameChannels.unpackRead h).intact second
  · rw [if_neg checked] at h
    cases h
    have same : SameChannels s { s with ctx := s.ctx.setReturn Status.error.code } := fun _ => rfl
    exact same.intact intact

theorem SameChannels.trapTtyWrite (h : s.trapTtyWrite env = .ok s') : SameChannels s s' := by
  unfold Kernel.trapTtyWrite at h
  simp only at h
  by_cases checked : checkBuffer (s.ctx.regs 1) (s.ctx.regs 2) = true
  · rw [if_pos checked] at h
    simp only [bind_eq_ok] at h
    obtain ⟨t, saved, result, called, h⟩ := h
    have first : SameChannels s t := SameChannels.modifyPcb saved
    have second : SameChannels t result.2 := by
      unfold Kernel.ttyWrite at called
      split at called
      · cases called
        exact SameChannels.refl t
      · exact SameChannels.ttyWriteValid called
    rcases result with ⟨_ | rc, u⟩
    · cases h
      exact first.trans second
    · exact (first.trans second).trans (SameChannels.finishTtyWrite h)
  · rw [if_neg checked] at h
    cases h
    exact fun _ => rfl

/-- Every step keeps the channels intact. -/
theorem stream_step {i : Input} (fresh : s.heap s.nextPcb = none) (intact : s.StreamIntact)
    (step : s.Step env i s') : s'.StreamIntact := by
  by_cases elsewhere : s.AtTerminals i
  · obtain ⟨enabled, h⟩ := step
    have entered : ∀ ctx, (s.trap ctx).StreamIntact := fun ctx => by
      have same : SameChannels s (s.trap ctx) := fun _ => rfl
      exact same.intact intact
    cases i with
    | kernelTrap ctx req =>
        change (s.trap ctx).kernelTrapHandler env req = .ok s' at h
        rcases elsewhere with code | code
        · rw [kernelTrapHandler_ttyRead code] at h
          exact trapTtyRead_intact (entered ctx) h
        · rw [kernelTrapHandler_ttyWrite code] at h
          exact (SameChannels.trapTtyWrite h).intact (entered ctx)
    | ttyReceiveTrap ctx tty data =>
        exact ttyTrapReceiveHandler_intact (entered ctx) enabled.2 h
    | ttyTransmitTrap ctx tty =>
        exact (SameChannels.ttyTrapTransmitHandler h).intact (entered ctx)
    | resume =>
        obtain ⟨c, live, isTty⟩ := elsewhere
        simp only [deliver, resume, bind_eq_ok, deref_eq_ok] at h
        obtain ⟨c', live', h⟩ := h
        obtain rfl := Option.some.inj (live'.symm.trans live)
        cases saved : c'.kernelContext with
        | ttyRead tty buf len =>
            rw [saved] at h
            exact (SameChannels.unpackRead h).intact intact
        | ttyWriteLock tty buf len =>
            rw [saved] at h
            simp only [bind_eq_ok] at h
            obtain ⟨⟨_ | rc, t⟩, locked, h⟩ := h
            · cases h
              exact (SameChannels.ttyWriteLocked locked).intact intact
            · have finished : t.finishTtyWrite (some tty) rc = .ok s' := h
              exact ((SameChannels.ttyWriteLocked locked).trans
                (SameChannels.finishTtyWrite finished)).intact intact
        | ttyWriteDone tty len =>
            rw [saved] at h
            exact (SameChannels.finishTtyWrite h).intact intact
        | _ =>
            rw [saved] at isTty
            cases isTty
    | _ => cases elsewhere
  · exact (SameChannels.of_frame (ttyFrame_step fresh elsewhere step)).intact intact

/-- No byte was received and nobody waits before the first process exists. -/
theorem intact_before : (beforeProcesses cfg).StreamIntact := by
  refine ⟨fun tty => ⟨List.length_replicate, Nat.zero_le _, rfl, rfl⟩, fun tty waits => ?_⟩
  exact absurd rfl waits

/-- In every state of a run the channels are intact.  A run in which nobody exits keeps to
`ExitsWritten`. -/
theorem stream_reaches (distinct : Function.Injective env.helperNewPid)
    (started : kernelStart env cfg = .ok boot)
    (run : Reaches (Guarded (Step env) ExitsWritten) boot s) : s.StreamIntact := by
  induction run with
  | refl => exact (SameChannels.of_frame (TtyFrame.kernelStart started)).intact intact_before
  | @tail u v before last inductionHypothesis =>
      obtain ⟨i, taken⟩ := last
      exact stream_step (fresh_of_registered (registered_reaches distinct started before))
        inductionHypothesis taken.2

end Kernel

end Yalnix
