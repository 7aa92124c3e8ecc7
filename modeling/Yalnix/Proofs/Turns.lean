/-
Module: Yalnix.Proofs.Turns
Purpose: Each terminal is a line whose jobs are the calls of TtyWrite: who waits for it, who was
  handed it and who writes can be told from the calls made so far, whatever is scheduled when.
Trusted boundary: the allocations that decide what becomes of a writer succeed, and a transmit trap
  answers a call of TtyTransmit
Main exports: askedOn, signalsOn, Kernel.Open, Kernel.Turns, Kernel.Sends, turns_step
-/
import Yalnix.Lib.Line
import Yalnix.Proofs.WriteSteps

namespace Yalnix

open Transition

/-! ### Calls and signals -/

namespace Event

/-- The call of `TtyWrite` that the event records, if it is on this terminal. -/
def asks (tty : TtyId) : Event → Option (PcbPtr × List Byte)
  | .ttyWriteCalled p asked bytes => if asked = tty then some (p, bytes) else none
  | _ => none

/-- What passes between the kernel and this terminal. -/
def signal (tty : TtyId) : Event → Option (Line.Signal Byte)
  | .ttyTransmit sent bytes => if sent = tty then some (.sent bytes) else none
  | .ttyTransmitTrap sent => if sent = tty then some .through else none
  | _ => none

/-- The process whose call of `TtyWrite` begins or ends. -/
def writer : Event → Option PcbPtr
  | .ttyWriteCalled p .. | .ttyWriteReturned p .. => some p
  | _ => none

end Event

/-- The calls of `TtyWrite` on a terminal, with their callers and buffers, oldest first. -/
def askedOn (tty : TtyId) (history : List Event) : List (PcbPtr × List Byte) :=
  history.filterMap (Event.asks tty)

/-- The signals between the kernel and a terminal, oldest first. -/
def signalsOn (tty : TtyId) (history : List Event) : List (Line.Signal Byte) :=
  history.filterMap (Event.signal tty)

theorem askedOn_append {tty : TtyId} {history events : List Event} :
    askedOn tty (history ++ events) = askedOn tty history ++ askedOn tty events :=
  List.filterMap_append ..

theorem signalsOn_append {tty : TtyId} {history events : List Event} :
    signalsOn tty (history ++ events) = signalsOn tty history ++ signalsOn tty events :=
  List.filterMap_append ..

section

variable {tty other : TtyId} {p : PcbPtr} {bytes : List Byte}

theorem askedOn_called_other (apart : other ≠ tty) :
    askedOn tty [.ttyWriteCalled p other bytes] = [] := by
  simp [askedOn, Event.asks, apart]

theorem askedOn_transmit : askedOn tty [.ttyTransmit other bytes] = [] := rfl

theorem askedOn_trap : askedOn tty [.ttyTransmitTrap other] = [] := rfl

theorem signalsOn_called : signalsOn tty [.ttyWriteCalled p other bytes] = [] := rfl

theorem signalsOn_returned {rc : Int} : signalsOn tty [.ttyWriteReturned p other rc] = [] := rfl

theorem signalsOn_transmit : signalsOn tty [.ttyTransmit tty bytes] = [.sent bytes] := by
  simp [signalsOn, Event.signal]

theorem signalsOn_trap : signalsOn tty [.ttyTransmitTrap tty] = [.through] := by
  simp [signalsOn, Event.signal]

theorem signalsOn_transmit_other (apart : other ≠ tty) :
    signalsOn tty [.ttyTransmit other bytes] = [] := by
  simp [signalsOn, Event.signal, apart]

theorem signalsOn_trap_other (apart : other ≠ tty) :
    signalsOn tty [.ttyTransmitTrap other] = [] := by
  simp [signalsOn, Event.signal, apart]

end

namespace Kernel

variable {env : Env} {s s' : Kernel} {p : PcbPtr} {tty : TtyId} {buf : Word} {len k : Nat}
  {bytes : List Byte} {history events : List Event} {entries : List PcbPtr} {kc : KernelContext}

/-- The last call of `TtyWrite` by the process is the `k`-th on the terminal, and did not return. -/
def Open (history : List Event) (p : PcbPtr) (tty : TtyId) (k : Nat) (bytes : List Byte) : Prop :=
  ∃ before after, history = before ++ .ttyWriteCalled p tty bytes :: after ∧
    (∀ e ∈ after, e.writer ≠ some p) ∧ k = (askedOn tty before).length

namespace Open

theorem called : Open (history ++ [.ttyWriteCalled p tty bytes]) p tty
    (askedOn tty history).length bytes :=
  ⟨history, [], rfl, by simp, rfl⟩

theorem append (opened : Open history p tty k bytes) (silent : ∀ e ∈ events, e.writer ≠ some p) :
    Open (history ++ events) p tty k bytes := by
  obtain ⟨before, after, rfl, quiet, rfl⟩ := opened
  refine ⟨before, after ++ events, by simp, fun e member => ?_, rfl⟩
  rcases List.mem_append.mp member with old | new
  · exact quiet e old
  · exact silent e new

theorem asked (opened : Open history p tty k bytes) :
    (askedOn tty history)[k]? = some (p, bytes) := by
  obtain ⟨before, after, rfl, -, rfl⟩ := opened
  rw [askedOn_append, List.getElem?_append_right (Nat.le_refl _), Nat.sub_self]
  simp [askedOn, Event.asks]

end Open

/-! ### Terminals as lines -/

/-- The terminal that a process inside `TtyWrite` writes to. -/
def writesTo : KernelContext → Option TtyId
  | .ttyWriteLock tty .. | .ttyWriteDone tty _ => some tty
  | _ => none

theorem firstChunk_eq_min (n : Nat) : firstChunk n = min terminalMaxLine n := by
  unfold firstChunk
  split
  · omega
  · omega

/-- A terminal that has been given the first items of the current job. -/
def Sending (terminal : Terminal) (l : Line PcbPtr Byte) (position : Nat) : Prop :=
  ∃ job, l.current = some job ∧ terminal.currentWriter = some job.1 ∧
    terminal.writeBufferLen = job.2.length ∧ terminal.writeBufferPosition = position

/-- The terminal is a line.  Those who wait for it or were handed it are inside `TtyWrite`, and the
buffer they asked with is as `content` says. -/
structure Turns (content : PcbPtr → Word → List Byte → Prop) (s : Kernel) (tty : TtyId)
    (l : Line PcbPtr Byte) : Prop where
  asked : l.asked = askedOn tty s.writes.history
  nonempty : ∀ job ∈ l.asked, job.2 ≠ []
  ordered : l.Ordered
  inUse : (s.writes.terminals tty).inUse = true ↔ l.turn ≠ .free
  writers : s.writes.writers tty = l.waiting
  unowned : (∀ position, l.turn ≠ .sending position) →
    (s.writes.terminals tty).currentWriter = none
  sending : ∀ position, l.turn = .sending position →
    Sending (s.writes.terminals tty) l position
  locked : ∀ p buf len, s.Inside p (.ttyWriteLock tty buf len) →
    ∃ k bytes, Open s.writes.history p tty k bytes ∧ bytes.length = len ∧ content p buf bytes ∧
      (l.served < k ∨ l.served = k ∧ l.turn = .handed)
  done : ∀ p len, s.Inside p (.ttyWriteDone tty len) →
    ∃ k bytes, Open s.writes.history p tty k bytes ∧ bytes.length = len ∧
      (k < l.served ∨ k = l.served ∧ ∃ position, l.turn = .sending position)
  owed : Line.Balanced (signalsOn tty s.writes.history) l.turn.owed

/-- The processes that are not current are inside `TtyWrite` only if they were before. -/
def OthersStay (s s' : Kernel) : Prop :=
  ∀ p kc, p ≠ s.currentProcess → kc.isWrite = true → s'.Inside p kc → s.Inside p kc

namespace Turns

variable {content : PcbPtr → Word → List Byte → Prop} {l : Line PcbPtr Byte}

/-- A step that concerns another terminal, or none. -/
theorem aside (turns : Turns content s tty l) (others : OthersStay s s')
    (history : s'.writes.history = s.writes.history ++ events)
    (asks : askedOn tty events = []) (signals : signalsOn tty events = [])
    (writer : ∀ e ∈ events, ∀ p, e.writer = some p → p = s.currentProcess)
    (terminal : s'.writes.terminals tty = s.writes.terminals tty)
    (writers : s'.writes.writers tty = s.writes.writers tty)
    (outside : ∀ kc, writesTo kc = some tty → s'.Inside s.currentProcess kc →
      events = [] ∧ s.Inside s.currentProcess kc) : Turns content s' tty l := by
  have stays : ∀ p kc, writesTo kc = some tty → s'.Inside p kc →
      s.Inside p kc ∧ ∀ e ∈ events, e.writer ≠ some p := by
    intro p kc here inside
    by_cases current : p = s.currentProcess
    · subst current
      obtain ⟨rfl, before⟩ := outside kc here inside
      exact ⟨before, by simp⟩
    · have write : kc.isWrite = true := by
        cases kc with
        | ttyWriteLock | ttyWriteDone => rfl
        | _ => cases here
      exact ⟨others p kc current write inside, fun e member mine =>
        current (writer e member p mine)⟩
  have asked : askedOn tty s'.writes.history = askedOn tty s.writes.history := by
    rw [history, askedOn_append, asks, List.append_nil]
  have signalled : signalsOn tty s'.writes.history = signalsOn tty s.writes.history := by
    rw [history, signalsOn_append, signals, List.append_nil]
  constructor
  case asked => exact turns.asked.trans asked.symm
  case nonempty => exact turns.nonempty
  case ordered => exact turns.ordered
  case inUse =>
    rw [terminal]
    exact turns.inUse
  case writers => exact writers.trans turns.writers
  case unowned =>
    rw [terminal]
    exact turns.unowned
  case sending =>
    rw [terminal]
    exact turns.sending
  case locked =>
    intro p buf len inside
    obtain ⟨before, silent⟩ := stays p _ rfl inside
    obtain ⟨k, bytes, opened, size, holds, place⟩ := turns.locked p buf len before
    rw [history]
    exact ⟨k, bytes, opened.append silent, size, holds, place⟩
  case done =>
    intro p len inside
    obtain ⟨before, silent⟩ := stays p _ rfl inside
    obtain ⟨k, bytes, opened, size, place⟩ := turns.done p len before
    rw [history]
    exact ⟨k, bytes, opened.append silent, size, place⟩
  case owed =>
    rw [signalled]
    exact turns.owed

/-- A call that finds the terminal in use. -/
theorem waits (turns : Turns content s tty l) (others : OthersStay s s')
    (busy : (s.writes.terminals tty).inUse = true) (nonempty : bytes ≠ [])
    (holds : content s.currentProcess buf bytes)
    (written : s'.writes = (s.writes.log (.ttyWriteCalled s.currentProcess tty bytes)).setWriters
      tty (s.queues (.writers tty) ++ [s.currentProcess]))
    (after : s'.Inside s.currentProcess (.ttyWriteLock tty buf bytes.length)) :
    Turns content s' tty (l.ask (s.currentProcess, bytes)) := by
  have turn := turns.inUse.mp busy
  have some := turns.ordered.busy turn
  have asked : askedOn tty s'.writes.history = l.asked ++ [(s.currentProcess, bytes)] := by
    rw [written, Writes.setWriters_history, Writes.log_history, askedOn_append, ← turns.asked]
    simp [askedOn, Event.asks]
  have signals : signalsOn tty s'.writes.history = signalsOn tty s.writes.history := by
    rw [written, Writes.setWriters_history, Writes.log_history, signalsOn_append]
    simp [signalsOn, Event.signal]
  have terminal : s'.writes.terminals tty = s.writes.terminals tty := by
    rw [written]
    rfl
  have opened : ∀ p k bytes', p ≠ s.currentProcess → Open s.writes.history p tty k bytes' →
      Open s'.writes.history p tty k bytes' := by
    intro p k bytes' other earlier
    rw [written]
    exact earlier.append (by simpa [Event.writer] using other.symm)
  constructor
  case asked => exact asked.symm
  case nonempty =>
    intro job member
    rcases List.mem_append.mp member with old | new
    · exact turns.nonempty job old
    · rw [List.mem_singleton.mp new]
      exact nonempty
  case ordered => exact turns.ordered.ask turn
  case inUse =>
    rw [terminal]
    exact turns.inUse
  case writers =>
    have line : s.queues (.writers tty) = l.waiting := turns.writers
    rw [Line.waiting_ask some, written, Writes.setWriters_writers, Function.update_self, line]
  case unowned =>
    rw [terminal]
    exact turns.unowned
  case sending =>
    rw [terminal]
    intro position sending
    obtain ⟨job, current, rest⟩ := turns.sending position sending
    exact ⟨job, (List.getElem?_append_left some).trans current, rest⟩
  case locked =>
    intro p buf' len inside
    by_cases current : p = s.currentProcess
    · subst current
      cases after.unique inside
      refine ⟨l.asked.length, bytes, ?_, rfl, holds, Or.inl some⟩
      rw [written, turns.asked]
      exact Open.called
    · obtain ⟨k, bytes', earlier, size, holds', place⟩ :=
        turns.locked p buf' len (others p _ current rfl inside)
      exact ⟨k, bytes', opened p k bytes' current earlier, size, holds', place⟩
  case done =>
    intro p len inside
    by_cases current : p = s.currentProcess
    · subst current
      cases after.unique inside
    · obtain ⟨k, bytes', earlier, size, place⟩ :=
        turns.done p len (others p _ current rfl inside)
      exact ⟨k, bytes', opened p k bytes' current earlier, size, place⟩
  case owed =>
    rw [signals]
    exact turns.owed

/-- The first chunk of the current job is handed over. -/
theorem started (others : OthersStay s s') {l : Line PcbPtr Byte} (job : PcbPtr × List Byte)
    (asked : l.asked = askedOn tty s'.writes.history) (nonempty : ∀ job ∈ l.asked, job.2 ≠ [])
    (ordered : (l.start terminalMaxLine bytes).Ordered)
    (terminal : s'.writes.terminals tty =
      { s.writes.terminals tty with
        writeBuffer := some bytes
        writeBufferLen := bytes.length
        writeBufferPosition := firstChunk bytes.length
        currentWriter := some s.currentProcess
        inUse := true })
    (writers : s'.writes.writers tty = l.waiting) (current : l.current = some job)
    (caller : job.1 = s.currentProcess) (size : job.2.length = bytes.length)
    (opened : Open s'.writes.history s.currentProcess tty l.served job.2)
    (after : s'.Inside s.currentProcess (.ttyWriteDone tty bytes.length))
    (locked : ∀ p buf len, p ≠ s.currentProcess → s.Inside p (.ttyWriteLock tty buf len) →
      ∃ k bytes, Open s'.writes.history p tty k bytes ∧ bytes.length = len ∧ content p buf bytes ∧
        l.served < k)
    (done : ∀ p len, p ≠ s.currentProcess → s.Inside p (.ttyWriteDone tty len) →
      ∃ k bytes, Open s'.writes.history p tty k bytes ∧ bytes.length = len ∧ k < l.served)
    (owed : Line.Balanced (signalsOn tty s'.writes.history) 1) :
    Turns content s' tty (l.start terminalMaxLine bytes) where
  asked := asked
  nonempty := nonempty
  ordered := ordered
  inUse := by
    rw [terminal]
    simp [Line.start]
  writers := writers
  unowned idle := absurd rfl (idle _)
  sending := by
    intro position sending
    cases sending
    rw [terminal]
    exact ⟨job, current, congrArg some caller.symm, size.symm, firstChunk_eq_min _⟩
  locked := by
    intro p buf len inside
    by_cases isCurrent : p = s.currentProcess
    · subst isCurrent
      cases after.unique inside
    · obtain ⟨k, bytes', earlier, size', holds, behind⟩ :=
        locked p buf len isCurrent (others p _ isCurrent rfl inside)
      exact ⟨k, bytes', earlier, size', holds, Or.inl behind⟩
  done := by
    intro p len inside
    by_cases isCurrent : p = s.currentProcess
    · subst isCurrent
      cases after.unique inside
      exact ⟨l.served, job.2, opened, size, Or.inr ⟨rfl, _, rfl⟩⟩
    · obtain ⟨k, bytes', earlier, size', before⟩ :=
        done p len isCurrent (others p _ isCurrent rfl inside)
      exact ⟨k, bytes', earlier, size', Or.inl before⟩
  owed := owed

theorem free (turns : Turns content s tty l) (free : (s.writes.terminals tty).inUse = false) :
    l.turn = .free := by
  by_contra busy
  rw [turns.inUse.mpr busy] at free
  cases free

/-- A call that finds the terminal free. -/
theorem begins (turns : Turns content s tty l) (others : OthersStay s s')
    (free : (s.writes.terminals tty).inUse = false) (nonempty : bytes ≠ [])
    (written : s'.writes = (s.writes.log (.ttyWriteCalled s.currentProcess tty bytes)).begin tty
      s.currentProcess bytes)
    (after : s'.Inside s.currentProcess (.ttyWriteDone tty bytes.length)) :
    Turns content s' tty
      ((l.ask (s.currentProcess, bytes)).start terminalMaxLine bytes) := by
  have turn := turns.free free
  have all := turns.ordered.free.mp turn
  have history : s'.writes.history = s.writes.history ++
      [.ttyWriteCalled s.currentProcess tty bytes] ++
      [.ttyTransmit tty (bytes.take (firstChunk bytes.length))] := by
    rw [written, Writes.begin_history, Writes.log_history]
  have asked : askedOn tty s'.writes.history = l.asked ++ [(s.currentProcess, bytes)] := by
    rw [history, askedOn_append, askedOn_append, ← turns.asked]
    simp [askedOn, Event.asks]
  have line := Line.waiting_eq_nil (by omega : l.asked.length ≤ l.served + 1)
  have opened : ∀ p k bytes', p ≠ s.currentProcess → Open s.writes.history p tty k bytes' →
      Open s'.writes.history p tty k bytes' := by
    intro p k bytes' other earlier
    rw [history, List.append_assoc]
    refine earlier.append fun e member => ?_
    rcases List.mem_append.mp member with called | sent
    · rw [List.mem_singleton.mp called]
      simpa [Event.writer] using other.symm
    · rw [List.mem_singleton.mp sent]
      simp [Event.writer]
  refine started others (s.currentProcess, bytes) asked.symm ?_
    (turns.ordered.begin turn bytes) ?_ ?_ ?_ rfl rfl ?_ after ?_ ?_ ?_
  · intro job member
    rcases List.mem_append.mp member with old | new
    · exact turns.nonempty job old
    · rw [List.mem_singleton.mp new]
      exact nonempty
  · rw [written, Writes.begin_terminals, Function.update_self]
    rfl
  · have nobody : (l.ask (s.currentProcess, bytes)).waiting = [] := by
      apply Line.waiting_eq_nil
      simp only [Line.ask, List.length_append, List.length_singleton]
      omega
    rw [nobody, written, Writes.begin_writers, Writes.log_writers, turns.writers, line]
  · simp [Line.current, Line.ask, all]
  · rw [history]
    refine Open.append ?_ (by simp [Event.writer])
    have position : (l.ask (s.currentProcess, bytes)).served =
        (askedOn tty s.writes.history).length := by
      rw [← turns.asked]
      exact all
    rw [position]
    exact Open.called
  · intro p buf len other before
    obtain ⟨k, bytes', earlier, size, holds, behind | ⟨-, handed⟩⟩ := turns.locked p buf len before
    · exact ⟨k, bytes', opened p k bytes' other earlier, size, holds, behind⟩
    · rw [turn] at handed
      cases handed
  · intro p len other before
    obtain ⟨k, bytes', earlier, size, through | ⟨-, position, sending⟩⟩ := turns.done p len before
    · exact ⟨k, bytes', opened p k bytes' other earlier, size, through⟩
    · rw [turn] at sending
      cases sending
  · have owed := turns.owed
    rw [turn] at owed
    rw [history, signalsOn_append, signalsOn_append, signalsOn_called, signalsOn_transmit,
      List.append_nil]
    exact owed.sent _

/-- A process that comes back from waiting, and does not wait any more, was handed the terminal. -/
theorem handed (turns : Turns content s tty l) (unqueued : p ∉ s.writes.writers tty)
    (inside : s.Inside p (.ttyWriteLock tty buf len)) :
    l.turn = .handed ∧ ∃ asked, l.current = some (p, asked) ∧ asked.length = len ∧
      content p buf asked ∧ Open s.writes.history p tty l.served asked := by
  obtain ⟨k, asked, opened, size, holds, place⟩ := turns.locked p buf len inside
  have entry := opened.asked
  rw [← turns.asked] at entry
  rcases place with behind | ⟨rfl, turn⟩
  · have waits := Line.mem_waiting behind entry
    rw [← turns.writers] at waits
    exact absurd waits unqueued
  · exact ⟨turn, asked, entry, size, holds, opened⟩

/-- A writer comes back from waiting for the terminal. -/
theorem starts (turns : Turns content s tty l) (others : OthersStay s s')
    (unqueued : s.currentProcess ∉ s.writes.writers tty)
    (before : s.Inside s.currentProcess (.ttyWriteLock tty buf bytes.length))
    (written : s'.writes = s.writes.begin tty s.currentProcess bytes)
    (after : s'.Inside s.currentProcess (.ttyWriteDone tty bytes.length)) :
    Turns content s' tty (l.start terminalMaxLine bytes) := by
  obtain ⟨turn, asked, current, size, -, opened⟩ := turns.handed unqueued before
  have history : s'.writes.history = s.writes.history ++
      [.ttyTransmit tty (bytes.take (firstChunk bytes.length))] := by
    rw [written, Writes.begin_history]
  have kept : ∀ p k bytes', Open s.writes.history p tty k bytes' →
      Open s'.writes.history p tty k bytes' := by
    intro p k bytes' earlier
    rw [history]
    exact earlier.append (by simp [Event.writer])
  refine started others (s.currentProcess, asked) ?_ turns.nonempty
    (turns.ordered.start (by simp [turn]) bytes) ?_ ?_ current rfl size (kept _ _ _ opened)
    after ?_ ?_ ?_
  · rw [history, askedOn_append, askedOn_transmit, List.append_nil]
    exact turns.asked
  · rw [written, Writes.begin_terminals, Function.update_self]
  · rw [written]
    exact turns.writers
  · intro p buf len other inside
    obtain ⟨k, bytes', earlier, size', holds, behind | ⟨rfl, -⟩⟩ := turns.locked p buf len inside
    · exact ⟨k, bytes', kept p k bytes' earlier, size', holds, behind⟩
    · have entry := earlier.asked
      rw [← turns.asked] at entry
      have same := Option.some.inj (entry.symm.trans current)
      exact absurd (congrArg Prod.fst same) other
  · intro p len other inside
    obtain ⟨k, bytes', earlier, size', through | ⟨-, position, sending⟩⟩ :=
      turns.done p len inside
    · exact ⟨k, bytes', kept p k bytes' earlier, size', through⟩
    · rw [turn] at sending
      cases sending
  · have owed := turns.owed
    rw [turn] at owed
    rw [history, signalsOn_append, signalsOn_transmit]
    exact owed.sent _

/-- A terminal that writes for somebody was given the first items of the current job. -/
theorem sending_of_owned (turns : Turns content s tty l)
    (owned : (s.writes.terminals tty).currentWriter ≠ none) :
    ∃ position, l.turn = .sending position := by
  by_contra unsent
  exact owned (turns.unowned fun position sending => unsent ⟨position, sending⟩)

/-- The next chunk. -/
theorem chunk {position : Nat} {job : PcbPtr × List Byte} (turns : Turns content s tty l)
    (others : OthersStay s s') (sending : l.turn = .sending position)
    (current : l.current = some job)
    (written : s'.writes = s.writes.next tty) (after : s'.Runs s.currentProcess) :
    Turns content s' tty (l.next terminalMaxLine job.2 position) := by
  have busy : l.turn ≠ .free := by simp [sending]
  obtain ⟨job', current', owner, length, reached⟩ := turns.sending position sending
  obtain rfl := Option.some.inj (current'.symm.trans current)
  have terminal : s'.writes.terminals tty =
      { s.writes.terminals tty with
        writeBufferPosition := (s.writes.terminals tty).writeBufferPosition +
          Writes.nextLength (s.writes.terminals tty) } := by
    rw [written, Writes.next_terminals, Function.update_self]
  have inside : ∀ p kc, kc.isWrite = true → s'.Inside p kc → s.Inside p kc := by
    intro p kc write inside
    by_cases isCurrent : p = s.currentProcess
    · subst isCurrent
      exact absurd after inside.away
    · exact others p kc isCurrent write inside
  have history : s'.writes.history = s.writes.history ++ [.ttyTransmitTrap tty] ++
      [.ttyTransmit tty (Writes.nextChunk (s.writes.terminals tty))] := by
    rw [written, Writes.next_history]
  have kept : ∀ p k bytes', Open s.writes.history p tty k bytes' →
      Open s'.writes.history p tty k bytes' := by
    intro p k bytes' earlier
    rw [history, List.append_assoc]
    exact earlier.append (by simp [Event.writer])
  constructor
  case asked =>
    rw [history, askedOn_append, askedOn_append, askedOn_trap, askedOn_transmit, List.append_nil,
      List.append_nil]
    exact turns.asked
  case nonempty => exact turns.nonempty
  case ordered => exact turns.ordered.next busy job'.2
  case inUse =>
    rw [terminal]
    exact iff_of_true (turns.inUse.mpr busy) (by simp [Line.next])
  case writers =>
    rw [written]
    exact turns.writers
  case unowned => exact fun idle => absurd rfl (idle _)
  case sending =>
    intro later same
    cases same
    rw [terminal]
    refine ⟨job', current, owner, length, ?_⟩
    rw [reached, Writes.nextLength, firstChunk_eq_min, length, reached]
  case locked =>
    intro p buf len isInside
    obtain ⟨k, bytes', earlier, size, holds, behind | ⟨-, handed⟩⟩ :=
      turns.locked p buf len (inside p _ rfl isInside)
    · exact ⟨k, bytes', kept p k bytes' earlier, size, holds, Or.inl behind⟩
    · rw [sending] at handed
      cases handed
  case done =>
    intro p len isInside
    obtain ⟨k, bytes', earlier, size, place⟩ := turns.done p len (inside p _ rfl isInside)
    refine ⟨k, bytes', kept p k bytes' earlier, size, ?_⟩
    rcases place with through | ⟨isCurrent, -⟩
    · exact Or.inl through
    · exact Or.inr ⟨isCurrent, _, rfl⟩
  case owed =>
    have owed := turns.owed
    rw [sending] at owed
    rw [history, signalsOn_append, signalsOn_append, signalsOn_trap, signalsOn_transmit]
    exact owed.through.sent _

/-- The last chunk is through, and the next writer gets its turn. -/
theorem finishes {position : Nat} (turns : Turns content s tty l) (others : OthersStay s s')
    (sending : l.turn = .sending position) (written : s'.writes = s.writes.finish tty)
    (after : s'.Runs s.currentProcess) : Turns content s' tty l.finish := by
  have busy : l.turn ≠ .free := by simp [sending]
  have some := turns.ordered.busy busy
  have terminal : s'.writes.terminals tty =
      { s.writes.terminals tty with
        writeBuffer := none
        writeBufferLen := 0
        writeBufferPosition := 0
        currentWriter := none
        inUse := (s.writes.terminals tty).inUse && !(s.writes.writers tty).isEmpty } := by
    rw [written, Writes.finish_terminals, Function.update_self]
  have inside : ∀ p kc, kc.isWrite = true → s'.Inside p kc → s.Inside p kc := by
    intro p kc write inside
    by_cases isCurrent : p = s.currentProcess
    · subst isCurrent
      exact absurd after inside.away
    · exact others p kc isCurrent write inside
  have kept : ∀ p k bytes', Open s.writes.history p tty k bytes' →
      Open s'.writes.history p tty k bytes' := by
    intro p k bytes' earlier
    rw [written, Writes.finish_history]
    exact earlier.append (by simp [Event.writer])
  constructor
  case asked =>
    rw [written, Writes.finish_history, askedOn_append, askedOn_trap, List.append_nil]
    exact turns.asked
  case nonempty => exact turns.nonempty
  case ordered => exact turns.ordered.finish busy
  case inUse =>
    have used := turns.inUse.mpr busy
    rw [terminal, turns.writers, Line.waiting_isEmpty]
    simp only [Line.finish, used, Bool.true_and]
    split
    · rename_i more
      simp [more]
    · rename_i all
      simp [all]
  case writers =>
    rw [written, Writes.finish_writers, Function.update_self, turns.writers, Line.waiting_finish]
  case unowned =>
    rw [terminal]
    exact fun _ => rfl
  case sending =>
    intro later same
    simp only [Line.finish] at same
    split at same
    · cases same
    · cases same
  case locked =>
    intro p buf len isInside
    obtain ⟨k, bytes', earlier, size, holds, behind | ⟨-, handed⟩⟩ :=
      turns.locked p buf len (inside p _ rfl isInside)
    · refine ⟨k, bytes', kept p k bytes' earlier, size, holds, ?_⟩
      have entry := earlier.asked
      rw [← turns.asked] at entry
      obtain ⟨within, -⟩ := List.getElem?_eq_some_iff.mp entry
      simp only [Line.finish]
      rcases Nat.lt_or_eq_of_le (Nat.succ_le_of_lt behind) with further | next
      · exact Or.inl further
      · exact Or.inr ⟨next, if_pos (by omega)⟩
    · rw [sending] at handed
      cases handed
  case done =>
    intro p len isInside
    obtain ⟨k, bytes', earlier, size, place⟩ := turns.done p len (inside p _ rfl isInside)
    refine ⟨k, bytes', kept p k bytes' earlier, size, Or.inl ?_⟩
    simp only [Line.finish]
    rcases place with through | ⟨isCurrent, -⟩
    · omega
    · omega
  case owed =>
    have quiet : l.finish.turn.owed = 0 := Line.finish_owed
    have owed := turns.owed
    rw [sending] at owed
    rw [written, Writes.finish_history, signalsOn_append, signalsOn_trap, quiet]
    exact owed.through

end Turns

/-! ### What is sent -/

/-- A call of `TtyWrite` on the terminal returns its length, when it and those before it were handed
over. -/
def Answers (tty : TtyId) (before : List Event) (e : Event) : Prop :=
  ∀ p (rc : Int), e = .ttyWriteReturned p tty rc → ∃ k bytes, Open before p tty k bytes ∧
    rc = bytes.length ∧ ((askedOn tty before).take (k + 1)).flatMap Prod.snd <+:
      (signalsOn tty before).flatMap Line.Signal.items

/-- The line's accounts are those of the terminal, whose buffer is the current job. -/
structure Sends (s : Kernel) (tty : TtyId) (l : Line PcbPtr Byte) : Prop where
  signals : l.signals = signalsOn tty s.writes.history
  accounted : l.Accounted terminalMaxLine
  buffer : ∀ position job, l.turn = .sending position → l.current = some job →
    (s.writes.terminals tty).writeBuffer = some job.2
  answers : Record.Each (Answers tty) s.writes.history

namespace Sends

variable {content : PcbPtr → Word → List Byte → Prop} {l : Line PcbPtr Byte} {e : Event}

/-- An event that is no return from `TtyWrite` on the terminal answers nothing. -/
theorem answers_snoc (each : Record.Each (Answers tty) history)
    (other : ∀ p rc, e ≠ .ttyWriteReturned p tty rc) :
    Record.Each (Answers tty) (history ++ [e]) :=
  each.snoc fun p rc same => absurd same (other p rc)

theorem answers_append (each : Record.Each (Answers tty) history)
    (others : ∀ e ∈ events, ∀ p rc, e ≠ .ttyWriteReturned p tty rc) :
    Record.Each (Answers tty) (history ++ events) := by
  induction events using List.reverseRecOn with
  | nil => rwa [List.append_nil]
  | append_singleton front e inductionHypothesis =>
      rw [← List.append_assoc]
      refine answers_snoc (inductionHypothesis fun e' member => ?_) (others e (by simp))
      exact others e' (List.mem_append_left _ member)

theorem aside (sends : Sends s tty l) (signals : signalsOn tty s'.writes.history =
      signalsOn tty s.writes.history) (answers : Record.Each (Answers tty) s'.writes.history)
    (terminal : s'.writes.terminals tty = s.writes.terminals tty) : Sends s' tty l where
  signals := sends.signals.trans signals.symm
  accounted := sends.accounted
  buffer := by
    rw [terminal]
    exact sends.buffer
  answers := answers

theorem waits (sends : Sends s tty l) (turns : Turns content s tty l)
    (busy : (s.writes.terminals tty).inUse = true)
    (written : s'.writes = (s.writes.log (.ttyWriteCalled p tty bytes)).setWriters tty entries) :
    Sends s' tty (l.ask (p, bytes)) := by
  have some := turns.ordered.busy (turns.inUse.mp busy)
  constructor
  case signals =>
    rw [written, Writes.setWriters_history, Writes.log_history, signalsOn_append, signalsOn_called,
      List.append_nil]
    exact sends.signals
  case accounted => exact sends.accounted.ask turns.ordered.room
  case buffer =>
    intro position job sending current
    rw [written]
    refine sends.buffer position job sending ?_
    rwa [← show (l.ask (p, bytes)).current = l.current from List.getElem?_append_left some]
  case answers =>
    rw [written]
    exact answers_snoc sends.answers (by simp)

/-- The first chunk of the current job is handed over. -/
theorem started (job : PcbPtr × List Byte) (signals : l.signals = signalsOn tty history)
    (accounted : l.Accounted terminalMaxLine) (answers : Record.Each (Answers tty) history)
    (unsent : ∀ position, l.turn ≠ .sending position) (current : l.current = some job)
    (nonempty : job.2 ≠ [])
    (recorded : s'.writes.history = history ++ [.ttyTransmit tty (job.2.take
      (firstChunk job.2.length))])
    (buffer : (s'.writes.terminals tty).writeBuffer = some job.2) :
    Sends s' tty (l.start terminalMaxLine job.2) where
  signals := by
    rw [recorded, signalsOn_append, signalsOn_transmit, ← signals, firstChunk_eq_min]
    rfl
  accounted := accounted.start (by decide) unsent current nonempty
  buffer := by
    intro position job' sending current'
    obtain rfl := Option.some.inj (current.symm.trans current')
    exact buffer
  answers := by
    rw [recorded]
    exact answers_snoc answers (by simp)

theorem chunk {position : Nat} {job : PcbPtr × List Byte} (sends : Sends s tty l)
    (turns : Turns content s tty l) (sending : l.turn = .sending position)
    (current : l.current = some job)
    (left : (s.writes.terminals tty).writeBufferPosition < (s.writes.terminals tty).writeBufferLen)
    (written : s'.writes = s.writes.next tty) :
    Sends s' tty (l.next terminalMaxLine job.2 position) := by
  obtain ⟨job', current', owner, length, reached⟩ := turns.sending position sending
  obtain rfl := Option.some.inj (current'.symm.trans current)
  rw [length, reached] at left
  have chunk : Writes.nextChunk (s.writes.terminals tty) =
      (job'.2.drop position).take (min terminalMaxLine (job'.2.length - position)) := by
    rw [Writes.nextChunk, Writes.nextLength, sends.buffer position job' sending current, length,
      reached, firstChunk_eq_min]
    rfl
  constructor
  case signals =>
    rw [written, Writes.next_history, signalsOn_append, signalsOn_append, signalsOn_trap,
      signalsOn_transmit, ← sends.signals, chunk]
    rfl
  case accounted => exact sends.accounted.next (by decide) sending current left
  case buffer =>
    intro later job same current'
    obtain rfl := Option.some.inj (current.symm.trans current')
    rw [written, Writes.next_terminals, Function.update_self]
    exact sends.buffer position job' sending current
  case answers =>
    rw [written, Writes.next_history]
    exact answers_snoc (answers_snoc sends.answers (by simp)) (by simp)

theorem finishes {position : Nat} {job : PcbPtr × List Byte} (sends : Sends s tty l)
    (turns : Turns content s tty l) (sending : l.turn = .sending position)
    (current : l.current = some job)
    (through : ¬ (s.writes.terminals tty).writeBufferPosition <
      (s.writes.terminals tty).writeBufferLen)
    (written : s'.writes = s.writes.finish tty) : Sends s' tty l.finish := by
  obtain ⟨job', current', owner, length, reached⟩ := turns.sending position sending
  obtain rfl := Option.some.inj (current'.symm.trans current)
  rw [length, reached] at through
  constructor
  case signals =>
    rw [written, Writes.finish_history, signalsOn_append, signalsOn_trap, ← sends.signals]
    rfl
  case accounted => exact sends.accounted.finish sending current (Nat.le_of_not_lt through)
  case buffer =>
    intro later job same _
    have quiet : l.finish.turn.owed = 0 := Line.finish_owed
    rw [same] at quiet
    cases quiet
  case answers =>
    rw [written, Writes.finish_history]
    exact answers_snoc sends.answers (by simp)

/-- A call that returns was handed over. -/
theorem returns (sends : Sends s tty l) (turns : Turns content s tty l)
    (unowned : (s.writes.terminals tty).currentWriter ≠ some p)
    (inside : s.Inside p (.ttyWriteDone tty len)) :
    Answers tty s.writes.history (.ttyWriteReturned p tty len) := by
  intro q rc same
  cases same
  obtain ⟨k, bytes, opened, size, through | ⟨rfl, position, sending⟩⟩ := turns.done p len inside
  · refine ⟨k, bytes, opened, by rw [size], ?_⟩
    rw [← turns.asked, ← sends.signals]
    exact sends.accounted.through_sent through
  · obtain ⟨job, current, owner, -⟩ := turns.sending position sending
    have entry := opened.asked
    rw [← turns.asked] at entry
    have mine : job = (p, bytes) := Option.some.inj (current.symm.trans entry)
    rw [mine] at owner
    exact absurd owner unowned

end Sends

/-! ### Steps -/

/-- No two buffers of one length are as `content` says. -/
def Faithful (content : PcbPtr → Word → List Byte → Prop) : Prop :=
  ∀ p buf bytes bytes', content p buf bytes → content p buf bytes' →
    bytes.length = bytes'.length → bytes = bytes'

variable {content : PcbPtr → Word → List Byte → Prop} {l : Line PcbPtr Byte}

/-- A step on another terminal, or on none. -/
theorem turns_elsewhere (turns : Turns content s tty l) (others : OthersStay s s')
    (history : s'.writes.history = s.writes.history ++ events)
    (asks : askedOn tty events = []) (signals : signalsOn tty events = [])
    (writer : ∀ e ∈ events, ∀ p, e.writer = some p → p = s.currentProcess)
    (returned : ∀ e ∈ events, ∀ p rc, e ≠ .ttyWriteReturned p tty rc)
    (terminal : s'.writes.terminals tty = s.writes.terminals tty)
    (writers : s'.writes.writers tty = s.writes.writers tty)
    (outside : ∀ kc, writesTo kc = some tty → ¬ s'.Inside s.currentProcess kc) :
    ∃ l', Turns content s' tty l' ∧ (Faithful content → Sends s tty l → Sends s' tty l') := by
  refine ⟨l, turns.aside others history asks signals writer terminal writers
    fun kc here inside => absurd inside (outside kc here), fun _ sends => ?_⟩
  refine sends.aside ?_ ?_ terminal
  · rw [history, signalsOn_append, signals, List.append_nil]
  · rw [history]
    exact Sends.answers_append sends.answers returned

/-- A step moves each terminal along as its line goes, and what is sent along with it. -/
theorem turns_step (turns : Turns content s tty l) (others : OthersStay s s')
    (unqueued : ∀ tty buf len, s.Inside s.currentProcess (.ttyWriteLock tty buf len) →
      s.currentProcess ∉ s.queues (.writers tty))
    (unowned : ∀ tty, (s.terminals tty).currentWriter ≠ some s.currentProcess)
    (holds : ∀ buf bytes, bytes = s.userBytes s.currentProcess buf bytes.length →
      content s.currentProcess buf bytes)
    (step : WriteStep s s') :
    ∃ l', Turns content s' tty l' ∧ (Faithful content → Sends s tty l → Sends s' tty l') := by
  have there : ∀ {other : TtyId} {kc : KernelContext}, other ≠ tty → writesTo kc = some other →
      s'.Inside s.currentProcess kc →
      ∀ kc', writesTo kc' = some tty → ¬ s'.Inside s.currentProcess kc' := by
    intro other kc apart isThere inside kc' isHere inside'
    rw [← inside.unique inside', isThere] at isHere
    exact apart (Option.some.inj isHere)
  cases step with
  | quiet same before after =>
      have history : s'.writes.history = s.writes.history ++ [] := by
        rw [same, List.append_nil]
      refine turns_elsewhere turns others history rfl rfl (by simp) (by simp) (by rw [same])
        (by rw [same]) fun kc here inside => ?_
      cases kc with
      | ttyWriteLock | ttyWriteDone => exact after _ rfl inside
      | _ => cases here
  | @waits other buf bytes user busy nonempty content written after =>
      by_cases here : other = tty
      · subst here
        exact ⟨_, turns.waits others busy nonempty (holds buf bytes content) written after,
          fun _ sends => sends.waits turns busy written⟩
      · refine turns_elsewhere turns others (by rw [written]; rfl) (askedOn_called_other here)
          signalsOn_called (by simp [Event.writer]) (by simp) (by rw [written]; rfl) ?_
          (there here rfl after)
        rw [written, Writes.setWriters_writers, Function.update_of_ne (Ne.symm here)]
        rfl
  | @begins other bytes user free nonempty written after =>
      have history : s'.writes.history = s.writes.history ++
          [.ttyWriteCalled s.currentProcess other bytes] ++
          [.ttyTransmit other (bytes.take (firstChunk bytes.length))] := by
        rw [written, Writes.begin_history, Writes.log_history]
      by_cases here : other = tty
      · subst here
        have turn := turns.free free
        refine ⟨_, turns.begins others free nonempty written after, fun _ sends => ?_⟩
        refine Sends.started (s.currentProcess, bytes) ?_
          (sends.accounted.ask turns.ordered.room) (Sends.answers_snoc sends.answers (by simp))
          (fun position sending => ?_) ?_ nonempty history ?_
        · rw [signalsOn_append, signalsOn_called, List.append_nil]
          exact sends.signals
        · cases turn.symm.trans sending
        · simp [Line.current, Line.ask, turns.ordered.free.mp turn]
        · rw [written, Writes.begin_terminals, Function.update_self]
      · rw [List.append_assoc] at history
        refine turns_elsewhere turns others history ?_ ?_ (by simp [Event.writer]) (by simp) ?_
          (by rw [written]; rfl) (there here rfl after)
        · rw [askedOn_append, askedOn_called_other here]
          rfl
        · rw [signalsOn_append, signalsOn_transmit_other here]
          rfl
        · rw [written, Writes.begin_terminals, Function.update_of_ne (Ne.symm here)]
          rfl
  | @starts other buf bytes before content written after =>
      by_cases here : other = tty
      · subst here
        refine ⟨_, turns.starts others (unqueued other _ _ before) before written after, ?_⟩
        intro faithful sends
        obtain ⟨turn, asked, current, size, holds', -⟩ :=
          turns.handed (unqueued other _ _ before) before
        obtain rfl := faithful _ buf asked bytes holds' (holds buf bytes content) size
        refine Sends.started (s.currentProcess, asked) sends.signals sends.accounted
          sends.answers (fun position sending => ?_) current ?_
          (by rw [written, Writes.begin_history]) ?_
        · cases turn.symm.trans sending
        · exact turns.nonempty _ (List.mem_of_getElem? current)
        · rw [written, Writes.begin_terminals, Function.update_self]
      · refine turns_elsewhere turns others (by rw [written, Writes.begin_history]) rfl
          (signalsOn_transmit_other here) (by simp [Event.writer]) (by simp) ?_
          (by rw [written]; rfl) (there here rfl after)
        rw [written, Writes.begin_terminals, Function.update_of_ne (Ne.symm here)]
  | @chunk other user owned left written after =>
      by_cases here : other = tty
      · subst here
        obtain ⟨position, sending⟩ := turns.sending_of_owned owned
        obtain ⟨job, current, -⟩ := turns.sending position sending
        exact ⟨_, turns.chunk others sending current written after,
          fun _ sends => sends.chunk turns sending current left written⟩
      · have history := congrArg Writes.history written
        rw [Writes.next_history, List.append_assoc] at history
        refine turns_elsewhere turns others history rfl ?_ (by simp [Event.writer]) (by simp) ?_
          (by rw [written]; rfl) fun kc _ inside => inside.away after
        · rw [signalsOn_append, signalsOn_trap_other here, signalsOn_transmit_other here]
          rfl
        · rw [written, Writes.next_terminals, Function.update_of_ne (Ne.symm here)]
  | @finishes other user owned through written after =>
      by_cases here : other = tty
      · subst here
        obtain ⟨position, sending⟩ := turns.sending_of_owned owned
        obtain ⟨job, current, -⟩ := turns.sending position sending
        exact ⟨_, turns.finishes others sending written after,
          fun _ sends => sends.finishes turns sending current through written⟩
      · refine turns_elsewhere turns others (by rw [written, Writes.finish_history]) rfl
          (signalsOn_trap_other here) (by simp [Event.writer]) (by simp) ?_ ?_
          fun kc _ inside => inside.away after
        · rw [written, Writes.finish_terminals, Function.update_of_ne (Ne.symm here)]
        · rw [written, Writes.finish_writers, Function.update_of_ne (Ne.symm here)]
  | @returns other len before written after =>
      have history : s'.writes.history = s.writes.history ++
          [.ttyWriteReturned s.currentProcess other len] := by
        rw [written]
        rfl
      refine ⟨l, turns.aside others history rfl rfl (by simp [Event.writer]) (by rw [written]; rfl)
        (by rw [written]; rfl) fun kc _ inside => absurd after inside.away, fun _ sends => ?_⟩
      refine sends.aside ?_ ?_ (by rw [written]; rfl)
      · rw [history, signalsOn_append, signalsOn_returned, List.append_nil]
      · rw [history]
        by_cases here : other = tty
        · subst here
          exact sends.answers.snoc (sends.returns turns (unowned other) before)
        · exact Sends.answers_snoc sends.answers (by simp [here])

end Kernel

end Yalnix
