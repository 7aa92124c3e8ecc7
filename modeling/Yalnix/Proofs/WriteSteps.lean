/-
Module: Yalnix.Proofs.WriteSteps
Purpose: What a step does to the writing side of the terminals: the buffers being written, the
  writers that wait, the events about writing, and the processes inside TtyWrite.
Trusted boundary: the pids of the hardware library do not repeat
Main exports: Writes, Kernel.writes, Kernel.WriteStep, write_step
-/
import Yalnix.Proofs.FailedWrites
import Yalnix.Proofs.Inside

namespace Yalnix

open Transition

/-- The contexts of processes that wait inside `TtyWrite`. -/
def KernelContext.isWrite : KernelContext → Bool
  | .ttyWriteLock .. | .ttyWriteDone .. => true
  | _ => false

theorem KernelContext.isWrite_lasts {kc : KernelContext} (write : kc.isWrite = true) :
    kc.isExit = false ∧ kc.isFork = false := by
  cases kc with
  | ttyWriteLock | ttyWriteDone => exact ⟨rfl, rfl⟩
  | _ => cases write

/-- The events about writing. -/
def Event.isWrite : Event → Bool
  | .ttyWriteCalled .. | .ttyTransmit .. | .ttyTransmitTrap _ | .ttyWriteReturned .. => true
  | _ => false

/-- A terminal without what was read from it. -/
def Terminal.writing (terminal : Terminal) : Terminal :=
  { terminal with readBuffer := [], readBufferLen := 0 }

/-- The writing side of the terminals, the writers that wait for each of them, and the events about
writing. -/
@[ext] structure Writes where
  terminals : TtyId → Terminal
  writers : TtyId → List PcbPtr
  history : List Event

namespace Writes

variable {w : Writes} {tty : TtyId}

@[simps -fullyApplied]
def log (w : Writes) (e : Event) : Writes := { w with history := w.history ++ [e] }

@[simps -fullyApplied]
def setTerminal (w : Writes) (tty : TtyId) (terminal : Terminal) : Writes :=
  { w with terminals := Function.update w.terminals tty terminal }

@[simps -fullyApplied]
def setWriters (w : Writes) (tty : TtyId) (entries : List PcbPtr) : Writes :=
  { w with writers := Function.update w.writers tty entries }

/-- The first chunk of a buffer is handed over for a writer. -/
@[simps! -fullyApplied]
def begin (w : Writes) (tty : TtyId) (writer : PcbPtr) (bytes : List Byte) : Writes :=
  (w.log (.ttyTransmit tty (bytes.take (Kernel.firstChunk bytes.length)))).setTerminal tty
    { w.terminals tty with
      writeBuffer := some bytes
      writeBufferLen := bytes.length
      writeBufferPosition := Kernel.firstChunk bytes.length
      currentWriter := some writer
      inUse := true }

/-- The length of the next chunk of the buffer being written. -/
def nextLength (terminal : Terminal) : Nat :=
  Kernel.firstChunk (terminal.writeBufferLen - terminal.writeBufferPosition)

/-- The next chunk of the buffer being written. -/
def nextChunk (terminal : Terminal) : List Byte :=
  ((terminal.writeBuffer.getD []).drop terminal.writeBufferPosition).take (nextLength terminal)

/-- The terminal is through with a chunk, and the next one is handed over. -/
@[simps! -fullyApplied terminals writers]
def next (w : Writes) (tty : TtyId) : Writes :=
  ((w.log (.ttyTransmitTrap tty)).log (.ttyTransmit tty (nextChunk (w.terminals tty)))).setTerminal
    tty { w.terminals tty with
      writeBufferPosition :=
        (w.terminals tty).writeBufferPosition + nextLength (w.terminals tty) }

theorem next_history : (w.next tty).history =
    w.history ++ [.ttyTransmitTrap tty] ++ [.ttyTransmit tty (nextChunk (w.terminals tty))] := rfl

/-- The terminal is through with the last chunk, and is handed to the first writer that waits. -/
@[simps! -fullyApplied]
def finish (w : Writes) (tty : TtyId) : Writes :=
  ((w.log (.ttyTransmitTrap tty)).setTerminal tty
    { w.terminals tty with
      writeBuffer := none
      writeBufferLen := 0
      writeBufferPosition := 0
      currentWriter := none
      inUse := (w.terminals tty).inUse && !(w.writers tty).isEmpty }).setWriters tty
        (w.writers tty).tail

theorem setTerminal_self {terminal : Terminal} (same : terminal = w.terminals tty) :
    w.setTerminal tty terminal = w := by
  rw [setTerminal, same, Function.update_eq_self]

theorem setWriters_self {entries : List PcbPtr} (same : entries = w.writers tty) :
    w.setWriters tty entries = w := by
  rw [setWriters, same, Function.update_eq_self]

end Writes

namespace Kernel

variable {env : Env} {s s' t u : Kernel} {p : PcbPtr} {tty : TtyId} {buf : Word} {len : Nat}
  {b : PCB}

@[simps -fullyApplied]
def writes (s : Kernel) : Writes where
  terminals tty := (s.terminals tty).writing
  writers tty := s.queues (.writers tty)
  history := s.history.filter Event.isWrite

/-! ### The view of elementary changes -/

theorem writes_log {e : Event} (write : e.isWrite = true) :
    (s.log e).writes = s.writes.log e := by
  simp [writes, Writes.log, List.filter_append, write]

theorem writes_log_other {e : Event} (other : e.isWrite = false) :
    (s.log e).writes = s.writes := by
  simp [writes, List.filter_append, other]

theorem writes_setTerminal (terminal : Terminal) :
    (s.setTerminal tty terminal).writes = s.writes.setTerminal tty terminal.writing := by
  apply Writes.ext
  · funext other
    by_cases here : other = tty
    · subst here
      simp
    · simp [here]
  · rfl
  · rfl

theorem writes_setQueue_other {queue : QueueId} {entries : List PcbPtr}
    (other : ∀ tty, queue ≠ .writers tty) : (s.setQueue queue entries).writes = s.writes := by
  apply Writes.ext
  · rfl
  · funext tty
    simp [(other tty).symm]
  · rfl

theorem writes_setQueue (entries : List PcbPtr) :
    (s.setQueue (.writers tty) entries).writes = s.writes.setWriters tty entries := by
  apply Writes.ext
  · rfl
  · funext other
    by_cases here : other = tty
    · subst here
      simp
    · simp [here]
  · rfl

theorem writes_queueRemove : (s.queueRemove .blocked p).writes = s.writes :=
  writes_setQueue_other (by simp)

theorem writes_queueEnqueue_other {queue : QueueId} (other : ∀ tty, queue ≠ .writers tty) :
    (s.queueEnqueue env queue p).writes = s.writes := by
  rw [queueEnqueue_eq]
  exact writes_setQueue_other (s := { s with mallocCalls := s.mallocCalls + 1 }) other

theorem writes_queueEnqueue (allocated : env.mallocOk s.mallocCalls = true) :
    (s.queueEnqueue env (.writers tty) p).writes =
      s.writes.setWriters tty (s.queues (.writers tty) ++ [p]) := by
  rw [queueEnqueue_eq, if_pos allocated]
  exact writes_setQueue (s := { s with mallocCalls := s.mallocCalls + 1 }) _

theorem writes_modifyPcb {f : PCB → PCB} (h : s.modifyPcb p f = .ok t) : t.writes = s.writes := by
  obtain ⟨b, -, rfl⟩ := modifyPcb_eq_ok.mp h
  rfl

/-- Steps that leave the terminals alone do not write. -/
theorem TtyFrame.writes (frame : TtyFrame s t) : t.writes = s.writes := by
  have silent : ∀ history : List Event, (history.filter Event.isTty).filter Event.isWrite =
      history.filter Event.isWrite := by
    intro history
    rw [List.filter_filter]
    congr 1
    funext e
    cases e <;> rfl
  apply Writes.ext
  · funext tty
    simp only [writes_terminals, frame.terminals]
  · funext tty
    exact frame.queues (.writers tty) rfl
  · have same := congrArg (List.filter Event.isWrite) frame.history
    rw [ttyHistory, ttyHistory, silent, silent] at same
    exact same

theorem writes_readyReader : (readyReader env s p b).writes = s.writes := by
  rw [readyReader, writes_queueEnqueue_other (by simp)]
  exact @writes_queueRemove s p

/-- Reading does not write. -/
theorem writes_serveReaders {readers : List PcbPtr}
    (h : serveReaders env tty readers s = .ok s') : s'.writes = s.writes := by
  induction readers generalizing s with
  | nil =>
      cases h
      rfl
  | cons reader rest inductionHypothesis =>
      by_cases empty : (s.terminals tty).readBufferLen = 0
      · rw [serveReaders, if_pos empty] at h
        cases h
        rfl
      · have unlinked : (unlinkReader env s tty reader rest).writes = s.writes := by
          rw [unlinkReader, writes_log_other rfl]
          exact @writes_setQueue_other s (.readers tty) rest (by simp)
        obtain ⟨r, -, ⟨-, h⟩ | ⟨-, h⟩⟩ := serveReaders_cons empty h
        · rw [inductionHypothesis h, writes_readyReader, parkBlock, writes_setTerminal,
            Writes.setTerminal_self (by rfl), writes_log_other rfl]
          exact unlinked
        · rw [inductionHypothesis h, writes_readyReader]
          exact unlinked

theorem writes_ttyTrapReceiveHandler {data : List Byte}
    (h : s.ttyTrapReceiveHandler env tty data = .ok s') : s'.writes = s.writes := by
  simp only [ttyTrapReceiveHandler] at h
  rw [writes_serveReaders h, writes_setTerminal, Writes.setTerminal_self (by rfl),
    writes_log_other rfl]

theorem writes_unpackRead {n rc : Int} (h : s.unpackRead tty buf n rc = .ok s') :
    s'.writes = s.writes := by
  obtain ⟨c, -, ⟨block, t, u, -, -, stored, cleared, h⟩ | ⟨-, h⟩⟩ := unpackRead_eq_ok h
  · rw [(TtyFrame.returnToUser h).writes, writes_log_other rfl, writes_modifyPcb cleared,
      (TtyFrame.storeUser stored).writes]
  · rw [(TtyFrame.returnToUser h).writes, writes_log_other rfl]

theorem writes_trapTtyRead (h : s.trapTtyRead env = .ok s') : s'.writes = s.writes := by
  unfold trapTtyRead at h
  simp only at h
  split at h
  · simp only [bind_eq_ok] at h
    obtain ⟨t, saved, result, called, h⟩ := h
    have first := (TtyFrame.saveContext saved).writes
    unfold ttyRead at called
    rcases arguments : ttyArguments (s.ctx.intReg 0) (s.ctx.regs 1) (s.ctx.intReg 2) with
      _ | ⟨tty, n⟩
    · rw [arguments] at called h
      cases called
      exact (TtyFrame.returnToUser h).writes.trans first
    · rw [arguments] at called h
      rcases ttyReadValid_eq_ok called with
        ⟨-, -, rfl⟩ | ⟨-, -, n, b, -, -, rfl⟩ | ⟨-, v, w, blocked, switched, rfl⟩
      · have last : (t.malloc env).2.unpackRead tty (s.ctx.regs 1) (s.ctx.intReg 2)
            Status.error.code = .ok s' := h
        rw [writes_unpackRead last]
        exact first
      · simp only [finish] at h
        rw [writes_unpackRead h, writes_setTerminal, Writes.setTerminal_self (by rfl),
          writes_log_other rfl]
        exact first
      · cases h
        rw [(TtyFrame.dispatch switched).writes, writes_modifyPcb blocked,
          writes_queueEnqueue_other (by simp), writes_queueEnqueue_other (by simp),
          writes_log_other rfl]
        exact first
  · cases h
    rfl

/-! ### Steps -/

/-- The step is a call of `TtyWrite` with valid arguments that finds the terminal in use. -/
def QueuesWriter (s : Kernel) (tty : TtyId) : Input → Prop
  | .kernelTrap ctx _ => ctx.code = yalnixTtyWrite ∧
      checkBuffer (ctx.regs 1) (ctx.regs 2) = true ∧
      (ttyArguments (ctx.intReg 0) (ctx.regs 1) (ctx.intReg 2)).map Prod.fst = some tty ∧
      (s.terminals tty).inUse = true
  | _ => False

instance (s : Kernel) (tty : TtyId) : (i : Input) → Decidable (s.QueuesWriter tty i)
  | .kernelTrap ctx _ => inferInstanceAs (Decidable (ctx.code = yalnixTtyWrite ∧
      checkBuffer (ctx.regs 1) (ctx.regs 2) = true ∧
      (ttyArguments (ctx.intReg 0) (ctx.regs 1) (ctx.intReg 2)).map Prod.fst = some tty ∧
      (s.terminals tty).inUse = true))
  | .clockTrap _ | .memoryTrap _ | .mathTrap _ | .illegalTrap _ | .ttyReceiveTrap ..
  | .ttyTransmitTrap .. | .resume | .userStore .. | .kernelBrk _ =>
      inferInstanceAs (Decidable False)

/-- The allocations that decide what becomes of a writer succeed: the copy of its buffer, and its
entry in `blocked_writers`. -/
structure WriteMemory (env : Env) (s : Kernel) (i : Input) : Prop where
  buffer : ∀ tty, s.BeginsWrite tty i → env.mallocOk s.mallocCalls = true
  entry : ∀ tty, s.QueuesWriter tty i → env.mallocOk s.mallocCalls = true

/-- What a step does to the writing side of the terminals, and to the place of the process that was
current. -/
inductive WriteStep (s s' : Kernel) : Prop where
  | quiet (same : s'.writes = s.writes)
      (before : ∀ kc : KernelContext, kc.isWrite = true → ¬ s.Inside s.currentProcess kc)
      (after : ∀ kc : KernelContext, kc.isWrite = true → ¬ s'.Inside s.currentProcess kc)
  /-- A call finds the terminal in use. -/
  | waits {tty : TtyId} {buf : Word} {bytes : List Byte} (user : s.Runs s.currentProcess)
      (busy : (s.terminals tty).inUse = true) (nonempty : bytes ≠ [])
      (content : bytes = s.userBytes s.currentProcess buf bytes.length)
      (written : s'.writes = (s.writes.log (.ttyWriteCalled s.currentProcess tty bytes)).setWriters
        tty (s.queues (.writers tty) ++ [s.currentProcess]))
      (after : s'.Inside s.currentProcess (.ttyWriteLock tty buf bytes.length))
  /-- A call finds the terminal free. -/
  | begins {tty : TtyId} {bytes : List Byte} (user : s.Runs s.currentProcess)
      (free : (s.terminals tty).inUse = false) (nonempty : bytes ≠ [])
      (written : s'.writes = (s.writes.log (.ttyWriteCalled s.currentProcess tty bytes)).begin tty
        s.currentProcess bytes)
      (after : s'.Inside s.currentProcess (.ttyWriteDone tty bytes.length))
  /-- A writer comes back from waiting for the terminal. -/
  | starts {tty : TtyId} {buf : Word} {bytes : List Byte}
      (before : s.Inside s.currentProcess (.ttyWriteLock tty buf bytes.length))
      (content : bytes = s.userBytes s.currentProcess buf bytes.length)
      (written : s'.writes = s.writes.begin tty s.currentProcess bytes)
      (after : s'.Inside s.currentProcess (.ttyWriteDone tty bytes.length))
  | chunk {tty : TtyId} (user : s.Runs s.currentProcess)
      (owned : (s.terminals tty).currentWriter ≠ none)
      (left : (s.terminals tty).writeBufferPosition < (s.terminals tty).writeBufferLen)
      (written : s'.writes = s.writes.next tty) (after : s'.Runs s.currentProcess)
  | finishes {tty : TtyId} (user : s.Runs s.currentProcess)
      (owned : (s.terminals tty).currentWriter ≠ none)
      (through : ¬ (s.terminals tty).writeBufferPosition < (s.terminals tty).writeBufferLen)
      (written : s'.writes = s.writes.finish tty) (after : s'.Runs s.currentProcess)
  /-- A writer comes back from its last chunk. -/
  | returns {tty : TtyId} {len : Nat} (before : s.Inside s.currentProcess (.ttyWriteDone tty len))
      (written : s'.writes = s.writes.log (.ttyWriteReturned s.currentProcess tty len))
      (after : s'.Runs s.currentProcess)

theorem not_inside_of_runs {kc : KernelContext} (runs : s.Runs p) : ¬ s.Inside p kc :=
  fun inside => inside.away runs

theorem inside_dispatch {kc : KernelContext} (h : s.dispatch kc = .ok s') :
    s'.Inside s.currentProcess kc := by
  have inKernel := dispatch_mode h
  have left : s.Leaves (fun saved => saved = kc) s' := Leaves.dispatch h rfl
  refine ⟨fun runs => ?_, left inKernel⟩
  rw [runs.1] at inKernel
  cases inKernel

theorem userBytes_length {b : PCB} (live : s.heap p = some b) :
    (s.userBytes p buf len).length = len := by
  simp [userBytes, live, Memory.bytesAt]

theorem loadUser_userBytes {bytes : List Byte} (h : s.loadUser buf len = .ok bytes) :
    bytes = s.userBytes s.ptbr1 buf len := by
  obtain ⟨b, live, loaded⟩ := loadUser_eq_ok.mp h
  unfold Memory.loadRange at loaded
  split at loaded
  · cases loaded
    simp [userBytes, live]
  · cases loaded

/-- With the terminal its own and memory for the copy, a writer hands its first chunk over. -/
theorem ttyWriteLocked_writes {result : Option Int × Kernel}
    (memory : env.mallocOk s.mallocCalls = true) (table : s.ptbr1 = s.currentProcess)
    (h : s.ttyWriteLocked env tty buf len = .ok result) :
    ∃ bytes u, result = (none, u) ∧ bytes = s.userBytes s.currentProcess buf len ∧
      bytes.length = len ∧ u.writes = s.writes.begin tty s.currentProcess bytes ∧
      u.Inside s.currentProcess (.ttyWriteDone tty len) := by
  obtain ⟨b, live, outcome⟩ := ttyWriteLocked_eq_ok h
  rcases outcome with ⟨failed, -, -⟩ | ⟨failed, -⟩ | ⟨-, bytes, u, loaded, switched, rfl⟩
  · rw [memory] at failed
    cases failed
  · rw [memory] at failed
    cases failed
  · have content : bytes = s.userBytes s.currentProcess buf len := by
      rw [← table]
      exact loadUser_userBytes loaded
    have size : bytes.length = len := by
      rw [content]
      exact userBytes_length live
    refine ⟨bytes, u, rfl, content, size, ?_, ?_⟩
    · rw [(TtyFrame.dispatch switched).writes, beginWrite, writes_queueEnqueue_other (by simp)]
      have begun := @writes_setTerminal
        ((s.malloc env).2.log (.ttyTransmit tty (bytes.take (firstChunk len)))) tty
        { s.terminals tty with
          writeBuffer := some bytes
          writeBufferLen := len
          writeBufferPosition := firstChunk len
          currentWriter := some s.currentProcess
          inUse := true }
      rw [writes_log rfl] at begun
      subst size
      exact begun
    · have inside := inside_dispatch switched
      have current : (s.beginWrite env tty bytes len b).currentProcess = s.currentProcess := by
        simp [beginWrite]
      rw [← current]
      exact inside

/-- Handing the terminal over takes the first writer out of the queue, or sets the terminal free. -/
theorem HandOver.writes (h : HandOver env s tty s') :
    s'.writes = (s.writes.setTerminal tty
      { s.writes.terminals tty with
        inUse := (s.writes.terminals tty).inUse && !(s.writes.writers tty).isEmpty }).setWriters
          tty (s.writes.writers tty).tail := by
  cases h with
  | free none =>
      have nobody : s.writes.writers tty = [] := none
      rw [writes_setTerminal, nobody, Writes.setWriters_self]
      · simp [Terminal.writing]
      · exact nobody.symm
  | @next q rest t line readied =>
      have waits : s.writes.writers tty = q :: rest := line
      rw [writes_queueEnqueue_other (by simp), writes_queueRemove, writes_modifyPcb readied,
        writes_setQueue, waits, Writes.setTerminal_self]
      · rfl
      · simp

/-- A transmit trap for a terminal that writes for somebody. -/
theorem ttyTrapTransmitHandler_writes (owned : (s.terminals tty).currentWriter ≠ none)
    (h : s.ttyTrapTransmitHandler env tty = .ok s') :
    ((s.terminals tty).writeBufferPosition < (s.terminals tty).writeBufferLen ∧
      s'.writes = s.writes.next tty) ∨
    (¬ (s.terminals tty).writeBufferPosition < (s.terminals tty).writeBufferLen ∧
      s'.writes = s.writes.finish tty) := by
  have logged : (s.log (.ttyTransmitTrap tty)).writes = s.writes.log (.ttyTransmitTrap tty) :=
    writes_log rfl
  cases ttyTrapTransmitHandler_eq_ok h with
  | chunk left =>
      refine Or.inl ⟨left, ?_⟩
      rw [nextChunk, writes_setTerminal, ttyTransmit, writes_log rfl, logged]
      rfl
  | unowned through none handed => exact absurd none owned
  | @owned w t _ through some woken handed =>
      refine Or.inr ⟨through, ?_⟩
      have view : ((t.queueRemove .blocked w).queueEnqueue env .ready w).writes =
          (s.writes.log (.ttyTransmitTrap tty)).setTerminal tty
            { s.writes.terminals tty with
              writeBuffer := none
              writeBufferLen := 0
              writeBufferPosition := 0
              currentWriter := none } := by
        rw [writes_queueEnqueue_other (by simp), writes_queueRemove, writes_modifyPcb woken,
          clearWrite, writes_setTerminal, logged]
        rfl
      rw [handed.writes, view]
      simp [Writes.setTerminal, Writes.finish, Writes.setWriters]

/-- A call of `TtyWrite` is refused, waits for the terminal, or begins to write. -/
theorem trapTtyWrite_writes (user : s.mode = .user) (table : s.ptbr1 = s.currentProcess)
    (memory : ∀ tty, checkBuffer (s.ctx.regs 1) (s.ctx.regs 2) = true →
      (ttyArguments (s.ctx.intReg 0) (s.ctx.regs 1) (s.ctx.intReg 2)).map Prod.fst = some tty →
      env.mallocOk s.mallocCalls = true)
    (h : s.trapTtyWrite env = .ok s') : WriteStep s s' := by
  have runs : s.Runs s.currentProcess := ⟨user, rfl⟩
  have refused : s'.writes = s.writes → s'.Runs s.currentProcess → WriteStep s s' :=
    fun same after => .quiet same (fun _ _ => not_inside_of_runs runs)
      fun _ _ => not_inside_of_runs after
  unfold trapTtyWrite at h
  simp only at h
  by_cases checked : checkBuffer (s.ctx.regs 1) (s.ctx.regs 2) = true
  · rw [if_pos checked] at h
    simp only [bind_eq_ok] at h
    obtain ⟨t, saved, result, called, h⟩ := h
    obtain ⟨b, live, rfl⟩ := saveContext_eq_ok.mp saved
    unfold ttyWrite at called
    rcases arguments : ttyArguments (s.ctx.intReg 0) (s.ctx.regs 1) (s.ctx.intReg 2) with
      _ | ⟨tty, len⟩
    · rw [arguments] at called h
      cases called
      have returned : (s.setPcb s.currentProcess { b with userContext := s.ctx }).returnToUser
          Status.error.code = .ok s' := h
      obtain ⟨c, -, rfl⟩ := returnToUser_eq_ok.mp returned
      exact refused rfl ⟨rfl, rfl⟩
    · rw [arguments] at called h
      have allocated : env.mallocOk s.mallocCalls = true := by
        refine memory tty checked ?_
        rw [arguments]
        rfl
      obtain ⟨positive, natural⟩ := ttyArguments_some arguments
      have same : (s.setPcb s.currentProcess { b with userContext := s.ctx }).userBytes
          s.currentProcess (s.ctx.regs 1) len =
          s.userBytes s.currentProcess (s.ctx.regs 1) len := by
        simp [userBytes, live]
      have size : (s.userBytes s.currentProcess (s.ctx.regs 1) len).length = len :=
        userBytes_length live
      have nonempty : s.userBytes s.currentProcess (s.ctx.regs 1) len ≠ [] := by
        intro empty
        rw [empty, List.length_nil] at size
        omega
      have content : s.userBytes s.currentProcess (s.ctx.regs 1) len =
          s.userBytes s.currentProcess (s.ctx.regs 1)
            (s.userBytes s.currentProcess (s.ctx.regs 1) len).length := by
        rw [size]
      simp only [ttyWriteValid, log_terminals, setPcb_terminals, setPcb_currentProcess,
        same] at called
      have logged : ((s.setPcb s.currentProcess { b with userContext := s.ctx }).log
          (.ttyWriteCalled s.currentProcess tty
            (s.userBytes s.currentProcess (s.ctx.regs 1) len))).writes =
          s.writes.log (.ttyWriteCalled s.currentProcess tty
            (s.userBytes s.currentProcess (s.ctx.regs 1) len)) := writes_log rfl
      by_cases busy : (s.terminals tty).inUse = true
      · simp only [busy, if_true, bind_eq_ok, pure_eq_ok] at called
        obtain ⟨v, blocked, w, switched, rfl⟩ := called
        cases h
        refine .waits runs busy nonempty content ?_ ?_
        · rw [(TtyFrame.dispatch switched).writes, writes_queueEnqueue_other (by simp),
            writes_modifyPcb blocked, writes_queueEnqueue (by exact allocated), logged]
          rfl
        · obtain ⟨c, -, rfl⟩ := modifyPcb_eq_ok.mp blocked
          have inside := inside_dispatch switched
          rw [size]
          simpa using inside
      · rw [if_neg busy] at called
        obtain ⟨bytes, u, rfl, loaded, -, written, after⟩ :=
          ttyWriteLocked_writes (by exact allocated) (by exact table) called
        cases h
        have read : bytes = s.userBytes s.currentProcess (s.ctx.regs 1) len := loaded.trans same
        subst read
        refine .begins runs (by simpa using busy) nonempty ?_ ?_
        · rw [← logged]
          exact written
        · rw [size]
          exact after
  · rw [if_neg checked] at h
    cases h
    exact refused rfl ⟨user, rfl⟩

/-- The current process comes back inside the kernel. -/
theorem resume_writes (inKernel : s.mode = .kernel) (table : s.ptbr1 = s.currentProcess)
    (memory : ∀ c ∈ s.heap s.currentProcess, ∀ tty, c.kernelContext.awaited = some tty →
      env.mallocOk s.mallocCalls = true)
    (fresh : s.heap s.nextPcb = none) (step : s.Step env .resume s') : WriteStep s s' := by
  have away : ¬ s.Runs s.currentProcess := by
    intro runs
    rw [runs.1] at inKernel
    cases inKernel
  have h := step.2
  simp only [deliver, resume, bind_eq_ok, deref_eq_ok] at h
  obtain ⟨c, live, h⟩ := h
  have here : s.Inside s.currentProcess c.kernelContext := ⟨away, c, live, rfl⟩
  have silent : c.kernelContext.isWrite = false → s'.writes = s.writes → WriteStep s s' := by
    intro plain same
    refine .quiet same (fun kc write inside => ?_) fun kc write inside => ?_
    · rw [here.unique inside, write] at plain
      cases plain
    · obtain ⟨tty, buf, len, inside', -⟩ : s.Saves .resume kc := inside_current fresh step inside
      rw [here.unique inside'] at plain
      cases plain
  have elsewhere : c.kernelContext.isTty = false → WriteStep s s' := by
    intro plain
    refine silent ?_ ?_
    · cases saved : c.kernelContext with
      | ttyWriteLock | ttyWriteDone =>
          rw [saved] at plain
          cases plain
      | _ => rfl
    · refine (ttyFrame_step fresh ?_ step).writes
      rintro ⟨d, live', atTerminals⟩
      rw [Option.some.inj (live'.symm.trans live), plain] at atTerminals
      cases atTerminals
  cases saved : c.kernelContext with
  | ttyRead tty buf len =>
      rw [saved] at h
      exact silent (by rw [saved]; rfl) (writes_unpackRead h)
  | ttyWriteLock tty buf len =>
      rw [saved] at h here
      simp only [bind_eq_ok] at h
      obtain ⟨result, locked, h⟩ := h
      have allocated : env.mallocOk s.mallocCalls = true := by
        refine memory c live tty ?_
        rw [saved]
        rfl
      obtain ⟨bytes, u, rfl, content, rfl, written, after⟩ :=
        ttyWriteLocked_writes allocated table locked
      cases h
      exact .starts here content written after
  | ttyWriteDone tty len =>
      rw [saved] at h here
      have returned : (s.log (.ttyWriteReturned s.currentProcess tty len)).returnToUser len =
          .ok s' := h
      refine .returns here ?_ ?_
      · rw [(TtyFrame.returnToUser returned).writes, writes_log rfl]
      · obtain ⟨d, -, rfl⟩ := returnToUser_eq_ok.mp returned
        exact ⟨rfl, rfl⟩
  | _ => exact elsewhere (by rw [saved]; rfl)

theorem inside_trap {ctx : UserContext} {kc : KernelContext} :
    (s.trap ctx).Inside p kc ↔ s.Inside p kc :=
  ⟨fun inside => ⟨inside.away, inside.pcb⟩, fun inside => ⟨inside.away, inside.pcb⟩⟩

theorem WriteStep.untrapped {ctx : UserContext} (entered : WriteStep (s.trap ctx) s') :
    WriteStep s s' := by
  cases entered with
  | quiet same before after =>
      exact .quiet same (fun kc write inside => before kc write (inside_trap.mpr inside)) after
  | waits user busy nonempty content written after =>
      exact .waits user busy nonempty content written after
  | begins user free nonempty written after => exact .begins user free nonempty written after
  | starts before content written after =>
      exact .starts (inside_trap.mp before) content written after
  | chunk user owned left written after => exact .chunk user owned left written after
  | finishes user owned through written after => exact .finishes user owned through written after
  | returns before written after => exact .returns (inside_trap.mp before) written after

/-- What a step of the machine does to the writing side of the terminals. -/
theorem write_step {i : Input} (known : Sched.Registered env s.sched)
    (table : s.ptbr1 = s.currentProcess) (memory : s.WriteMemory env i)
    (owned : ∀ ctx tty, i = .ttyTransmitTrap ctx tty → (s.terminals tty).currentWriter ≠ none)
    (step : s.Step env i s') : WriteStep s s' := by
  have fresh := fresh_of_registered known
  have quiet : s.mode = .user → (∀ kc : KernelContext, kc.isWrite = true → ¬ s.Saves i kc) →
      s'.writes = s.writes → WriteStep s s' := by
    intro user unsaved same
    refine .quiet same (fun _ _ => not_inside_of_runs ⟨user, rfl⟩) fun kc write inside => ?_
    exact unsaved kc write (inside_current fresh step inside)
  have elsewhere : s.mode = .user → ¬ s.AtTerminals i →
      (∀ kc : KernelContext, kc.isWrite = true → ¬ s.Saves i kc) → WriteStep s s' :=
    fun user away unsaved => quiet user unsaved (ttyFrame_step fresh away step).writes
  have h := step.2
  have enabled := step.1
  cases i with
  | kernelTrap ctx req =>
      by_cases isWrite : ctx.code = yalnixTtyWrite
      · have ran : (s.trap ctx).trapTtyWrite env = .ok s' := by
          rw [← kernelTrapHandler_ttyWrite isWrite]
          exact h
        have entered : WriteStep (s.trap ctx) s' := by
          refine trapTtyWrite_writes enabled.1 table (fun tty accepted arguments => ?_) ran
          by_cases busy : (s.terminals tty).inUse = true
          · exact memory.entry tty ⟨isWrite, accepted, arguments, busy⟩
          · exact memory.buffer tty ⟨isWrite, accepted, arguments, by simpa using busy⟩
        exact entered.untrapped
      · have unsaved : ∀ kc : KernelContext, kc.isWrite = true →
            ¬ s.Saves (.kernelTrap ctx req) kc := by
          intro kc write saves
          cases kc with
          | ttyWriteLock | ttyWriteDone => exact isWrite saves
          | _ => cases write
        by_cases isRead : ctx.code = yalnixTtyRead
        · have ran : (s.trap ctx).trapTtyRead env = .ok s' := by
            rw [← kernelTrapHandler_ttyRead isRead]
            exact h
          exact quiet enabled.1 unsaved (writes_trapTtyRead (s := s.trap ctx) ran)
        · exact elsewhere enabled.1 (fun atTerminals => atTerminals.elim isRead isWrite) unsaved
  | clockTrap ctx =>
      refine elsewhere enabled id fun kc write saves => ?_
      have same : kc = .clockTrap := saves
      rw [same] at write
      cases write
  | memoryTrap ctx | mathTrap ctx | illegalTrap ctx =>
      refine elsewhere enabled.1 id fun kc write saves => ?_
      have exits : kc.isExit = true := saves
      cases kc with
      | exit => cases write
      | _ => cases exits
  | ttyReceiveTrap ctx tty data =>
      exact quiet enabled.1 (fun _ _ => id) (writes_ttyTrapReceiveHandler (s := s.trap ctx) h)
  | ttyTransmitTrap ctx tty =>
      have runs : s.Runs s.currentProcess := ⟨enabled, rfl⟩
      have frame := SameFrame.ttyTrapTransmitHandler (s := s.trap ctx) h
      have after : s'.Runs s.currentProcess := ⟨frame.2.1.trans enabled, frame.1⟩
      have wrote := ttyTrapTransmitHandler_writes (s := s.trap ctx) (owned ctx tty rfl) h
      rcases wrote with ⟨left, written⟩ | ⟨through, written⟩
      · exact .chunk runs (owned ctx tty rfl) left written after
      · exact .finishes runs (owned ctx tty rfl) through written after
  | resume =>
      refine resume_writes enabled table (fun c live tty awaits => ?_) fresh step
      exact memory.buffer tty ⟨c, live, awaits⟩
  | userStore va bytes => exact elsewhere enabled.1 id fun _ _ => id
  | kernelBrk addr => exact elsewhere enabled id fun _ _ => id

end Kernel

end Yalnix
