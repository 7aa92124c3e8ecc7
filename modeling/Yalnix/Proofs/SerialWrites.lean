/-
Module: Yalnix.Proofs.SerialWrites
Purpose: Whatever is scheduled when, each terminal is handed the buffers of the calls of TtyWrite in
  the order of the calls, whole, in chunks it acknowledges one by one, and each call returns when
  its bytes were handed over; the one exception is a writer that is not entered among those who
  wait.
Trusted boundary: the allocation in BeginTtyTransmit succeeds, and a transmit trap answers a call of
  TtyTransmit
Main exports: Kernel.SerialWrites, Kernel.Preparing, Kernel.Writing, Kernel.EntersWriters,
  writes_serial
-/
import Yalnix.Proofs.SameMemory
import Yalnix.Proofs.Turns

namespace Yalnix

open Transition

/-! ### What a terminal observes -/

namespace Event

/-- The bytes handed over to the terminal. -/
def transmitted (tty : TtyId) : Event → List Byte
  | .ttyTransmit t bytes => if t = tty then bytes else []
  | _ => []

/-- The event is a call of `TtyTransmit` on the terminal. -/
def transmits (tty : TtyId) : Event → Bool
  | .ttyTransmit t _ => t = tty
  | _ => false

/-- The event is a trap that acknowledges a call of `TtyTransmit` on the terminal. -/
def acknowledges (tty : TtyId) : Event → Bool
  | .ttyTransmitTrap t => t = tty
  | _ => false

end Event

section

variable {tty : TtyId} {history before after : List Event} {e : Event}

theorem askedOn_filter : askedOn tty (history.filter Event.isWrite) = askedOn tty history := by
  rw [askedOn, List.filterMap_filter]
  refine List.filterMap_congr fun e _ => ?_
  cases e <;> rfl

theorem signalsOn_filter :
    signalsOn tty (history.filter Event.isWrite) = signalsOn tty history := by
  rw [signalsOn, List.filterMap_filter]
  refine List.filterMap_congr fun e _ => ?_
  cases e <;> rfl

theorem signalsOn_cons :
    signalsOn tty (e :: history) = signalsOn tty [e] ++ signalsOn tty history := by
  rw [← signalsOn_append]
  rfl

/-- The bytes of the signals are the bytes handed over. -/
theorem signalsOn_items : (signalsOn tty history).flatMap Line.Signal.items =
    history.flatMap (Event.transmitted tty) := by
  induction history with
  | nil => rfl
  | cons e rest inductionHypothesis =>
      rw [signalsOn_cons, List.flatMap_append, inductionHypothesis, List.flatMap_cons]
      congr 1
      cases e with
      | ttyTransmit t bytes =>
          by_cases here : t = tty
          · subst here
            simp [signalsOn_transmit, Line.Signal.items, Event.transmitted]
          · simp [signalsOn_transmit_other here, Event.transmitted, here]
      | ttyTransmitTrap t =>
          by_cases here : t = tty
          · subst here
            simp [signalsOn_trap, Line.Signal.items, Event.transmitted]
          · simp [signalsOn_trap_other here, Event.transmitted]
      | _ => rfl

theorem countP_transmits :
    history.countP (Event.transmits tty) = (signalsOn tty history).countP Line.Signal.isSent := by
  rw [signalsOn, List.countP_filterMap]
  refine List.countP_congr fun e _ => ?_
  cases e with
  | ttyTransmit t bytes =>
      by_cases here : t = tty
      · simp [Event.transmits, Event.signal, Line.Signal.isSent, here]
      · simp [Event.transmits, Event.signal, here]
  | ttyTransmitTrap t =>
      by_cases here : t = tty
      · simp [Event.transmits, Event.signal, Line.Signal.isSent, here]
      · simp [Event.transmits, Event.signal, here]
  | _ => simp [Event.transmits, Event.signal]

theorem countP_acknowledges : history.countP (Event.acknowledges tty) =
    (signalsOn tty history).countP Line.Signal.isThrough := by
  rw [signalsOn, List.countP_filterMap]
  refine List.countP_congr fun e _ => ?_
  cases e with
  | ttyTransmit t bytes =>
      by_cases here : t = tty
      · simp [Event.acknowledges, Event.signal, Line.Signal.isThrough, here]
      · simp [Event.acknowledges, Event.signal, here]
  | ttyTransmitTrap t =>
      by_cases here : t = tty
      · simp [Event.acknowledges, Event.signal, Line.Signal.isThrough, here]
      · simp [Event.acknowledges, Event.signal, here]
  | _ => simp [Event.acknowledges, Event.signal]

end

namespace Kernel

variable {env : Env} {cfg : BootConfig} {boot start s s' : Kernel} {p : PcbPtr} {tty : TtyId}
  {k : Nat} {bytes : List Byte} {history : List Event}

/-- The last call among the events about writing is the last call. -/
theorem Open.of_filter (opened : Open (history.filter Event.isWrite) p tty k bytes) :
    Open history p tty k bytes := by
  obtain ⟨before, after, split, quiet, rfl⟩ := opened
  obtain ⟨front, rest, rfl, rfl, tail⟩ := List.filter_eq_append_iff.mp split
  obtain ⟨silent, last, rfl, nothing, -, rfl⟩ := List.filter_eq_cons_iff.mp tail
  refine ⟨front ++ silent, last, by simp, fun e member mine => ?_, ?_⟩
  · have write : e.isWrite = true := by
      cases e with
      | ttyWriteCalled | ttyWriteReturned => rfl
      | _ => cases mine
    exact quiet e (List.mem_filter.mpr ⟨member, write⟩) mine
  · have none : askedOn tty silent = [] := by
      rw [← askedOn_filter, List.filter_eq_nil_iff.mpr nothing]
      rfl
    rw [askedOn_filter, askedOn_append, none, List.append_nil]

/-- The terminal was handed a prefix of the buffers of the calls, one after the other, in chunks of
bounded size, each of them after the one before was acknowledged; and each call that returned gave
its length, after its bytes and those of the calls before it were handed over. -/
structure SerialWrites (s : Kernel) (tty : TtyId) : Prop where
  order : s.history.flatMap (Event.transmitted tty) <+:
    (askedOn tty s.history).flatMap Prod.snd
  chunks : ∀ before bytes after, s.history = before ++ .ttyTransmit tty bytes :: after →
    1 ≤ bytes.length ∧ bytes.length ≤ terminalMaxLine
  single : ∀ before bytes after, s.history = before ++ .ttyTransmit tty bytes :: after →
    before.countP (Event.transmits tty) = before.countP (Event.acknowledges tty)
  returns : ∀ before p (rc : Int) after, s.history = before ++ .ttyWriteReturned p tty rc :: after →
    ∃ k bytes, Open before p tty k bytes ∧ rc = bytes.length ∧
      ((askedOn tty before).take (k + 1)).flatMap Prod.snd <+:
        before.flatMap (Event.transmitted tty)

/-- A terminal whose line is accounted for. -/
theorem Sends.serial {l : Line PcbPtr Byte} {content : PcbPtr → Word → List Byte → Prop}
    (sends : Sends s tty l) (turns : Turns content s tty l) : s.SerialWrites tty := by
  have signals : l.signals = signalsOn tty s.history := by
    rw [← signalsOn_filter]
    exact sends.signals
  have asked : l.asked = askedOn tty s.history := by
    rw [← askedOn_filter]
    exact turns.asked
  have serial : ∀ before bytes after, s.history = before ++ .ttyTransmit tty bytes :: after →
      Line.Serial terminalMaxLine (signalsOn tty before) (.sent bytes) := by
    intro before bytes after split
    refine sends.accounted.serial (signalsOn tty before) (.sent bytes) (signalsOn tty after) ?_
    rw [signals, split, signalsOn_append, signalsOn_cons, signalsOn_transmit]
    rfl
  constructor
  case order =>
    rw [← signalsOn_items, ← signals, ← asked]
    exact sends.accounted.sent_prefix
  case chunks =>
    intro before bytes after split
    obtain ⟨some, bounded, -⟩ := serial before bytes after split
    exact ⟨some, bounded⟩
  case single =>
    intro before bytes after split
    obtain ⟨-, -, settled⟩ := serial before bytes after split
    rw [countP_transmits, countP_acknowledges]
    exact settled
  case returns =>
    intro before p rc after split
    have filtered : s.writes.history = before.filter Event.isWrite ++
        .ttyWriteReturned p tty rc :: after.filter Event.isWrite := by
      rw [writes_history, split, List.filter_append]
      rfl
    obtain ⟨k, bytes, opened, size, handed⟩ := sends.answers _ _ _ filtered p rc rfl
    refine ⟨k, bytes, opened.of_filter, size, ?_⟩
    rwa [askedOn_filter, signalsOn_filter, signalsOn_items] at handed

/-! ### Nobody reads or waits for a child -/

/-- Only `Wait` and `TtyRead` lead where a process is stored to when it goes on. -/
theorem saves_stores {i : Input} {kc : KernelContext} (stores : kc.stores = true)
    (saves : s.Saves i kc) : Calls yalnixWait i ∨ Calls yalnixTtyRead i := by
  cases kc with
  | wait =>
      cases i with
      | kernelTrap => exact Or.inl saves
      | resume =>
          obtain ⟨tty, buf, len, inside, other⟩ := saves
          cases other
      | _ => cases saves
  | ttyRead =>
      cases i with
      | kernelTrap => exact Or.inr saves
      | resume =>
          obtain ⟨tty, buf, len, inside, other⟩ := saves
          cases other
      | _ => cases saves
  | _ => cases stores

/-- Only `TtyWrite` leads inside itself. -/
theorem saves_write {i : Input} {kc : KernelContext} (write : kc.isWrite = true)
    (saves : s.Saves i kc) : Calls yalnixTtyWrite i ∨
      ∃ tty buf len, s.Inside s.currentProcess (.ttyWriteLock tty buf len) := by
  cases kc with
  | ttyWriteLock | ttyWriteDone =>
      cases i with
      | kernelTrap => exact Or.inl saves
      | resume =>
          obtain ⟨tty, buf, len, inside, -⟩ := saves
          exact Or.inr ⟨tty, buf, len, inside⟩
      | _ => cases saves
  | _ => cases write

/-- Without calls of `Wait` and `TtyRead` nobody gets inside them. -/
theorem nobody_stores_step {i : Input} (distinct : Function.Injective env.helperNewPid)
    (known : Sched.Registered env s.sched) (idle : s.IdleCalm)
    (nobody : ∀ p kc, s.Inside p kc → kc.stores = false)
    (calls : ¬ (Calls yalnixWait i ∨ Calls yalnixTtyRead i))
    (taken : Guarded (Step env) ExitsWritten s i s') :
    ∀ p kc, s'.Inside p kc → kc.stores = false := by
  intro p kc inside
  by_contra stores
  rw [Bool.not_eq_false] at stores
  have lasts : kc.isExit = false ∧ kc.isFork = false := by
    cases kc with
    | wait | ttyRead => exact ⟨rfl, rfl⟩
    | _ => cases stores
  rcases inside_or_saves distinct known idle lasts.1 lasts.2 taken inside with before | ⟨-, saves⟩
  · rw [nobody p kc before] at stores
    cases stores
  · exact calls (saves_stores stores saves)

/-- Without calls of `TtyWrite` nobody gets inside it. -/
theorem nobody_writes_step {i : Input} (distinct : Function.Injective env.helperNewPid)
    (known : Sched.Registered env s.sched) (idle : s.IdleCalm)
    (nobody : ∀ p kc, s.Inside p kc → kc.isWrite = false) (calls : ¬ Calls yalnixTtyWrite i)
    (taken : Guarded (Step env) ExitsWritten s i s') :
    ∀ p kc, s'.Inside p kc → kc.isWrite = false := by
  intro p kc inside
  by_contra write
  rw [Bool.not_eq_false] at write
  have lasts := KernelContext.isWrite_lasts write
  rcases inside_or_saves distinct known idle lasts.1 lasts.2 taken inside with before | ⟨-, saves⟩
  · rw [nobody p kc before] at write
    cases write
  · rcases saves_write write saves with call | ⟨tty, buf, len, before⟩
    · exact calls call
    · cases nobody _ _ before

/-- Without calls of `TtyRead` nobody gets into a queue of readers. -/
theorem unread_step {i : Input} (fresh : s.heap s.nextPcb = none)
    (unread : ∀ tty, s.queues (.readers tty) = []) (quiet : ¬ Calls yalnixTtyRead i)
    (step : s.Step env i s') : ∀ tty, s'.queues (.readers tty) = [] := by
  have same : ∀ {t : Kernel}, t.queues = s.queues → SameChannels t s' →
      ∀ tty, s'.queues (.readers tty) = [] := by
    intro t queues same tty
    have waiting : s'.queues (.readers tty) = t.queues (.readers tty) :=
      congrArg Channel.waiting (same tty)
    rw [waiting, queues]
    exact unread tty
  by_cases elsewhere : s.AtTerminals i
  · obtain ⟨enabled, h⟩ := step
    cases i with
    | kernelTrap ctx req =>
        change (s.trap ctx).kernelTrapHandler env req = .ok s' at h
        rcases elsewhere with code | code
        · exact absurd code quiet
        · rw [kernelTrapHandler_ttyWrite code] at h
          exact @same (s.trap ctx) rfl (SameChannels.trapTtyWrite h)
    | ttyReceiveTrap ctx tty data =>
        simp only [deliver, ttyTrapReceiveHandler, setTerminal_queues, log_queues,
          show (s.trap ctx).queues (.readers tty) = [] from unread tty, serveReaders] at h
        cases h
        exact unread
    | ttyTransmitTrap ctx tty =>
        exact @same (s.trap ctx) rfl (SameChannels.ttyTrapTransmitHandler h)
    | resume =>
        obtain ⟨c, live, isTty⟩ := elsewhere
        simp only [deliver, resume, bind_eq_ok, deref_eq_ok] at h
        obtain ⟨c', live', h⟩ := h
        obtain rfl := Option.some.inj (live'.symm.trans live)
        cases saved : c'.kernelContext with
        | ttyRead tty buf len =>
            rw [saved] at h
            exact same rfl (SameChannels.unpackRead h)
        | ttyWriteLock tty buf len =>
            rw [saved] at h
            simp only [bind_eq_ok] at h
            obtain ⟨⟨_ | rc, t⟩, locked, h⟩ := h
            · cases h
              exact same rfl (SameChannels.ttyWriteLocked locked)
            · have finished : t.finishTtyWrite (some tty) rc = .ok s' := h
              exact same rfl ((SameChannels.ttyWriteLocked locked).trans
                (SameChannels.finishTtyWrite finished))
        | ttyWriteDone tty len =>
            rw [saved] at h
            exact same rfl (SameChannels.finishTtyWrite h)
        | _ =>
            rw [saved] at isTty
            cases isTty
    | _ => cases elsewhere
  · exact same rfl (SameChannels.of_frame (ttyFrame_step fresh elsewhere step))

/-! ### Before the writes -/

/-- The processes do what they like, but none of them waits for a child or calls a terminal. -/
structure Preparing (s : Kernel) (i : Input) : Prop where
  exits : s.ExitsWritten i
  waits : ¬ Calls yalnixWait i
  reads : ¬ Calls yalnixTtyRead i
  writes : ¬ Calls yalnixTtyWrite i
  transmits : ∀ ctx tty, i ≠ .ttyTransmitTrap ctx tty

/-- Nobody is inside a terminal call or `Wait`, and nobody has written. -/
structure Prepared (s : Kernel) : Prop where
  stores : ∀ p kc, s.Inside p kc → kc.stores = false
  outside : ∀ p kc, s.Inside p kc → kc.isWrite = false
  unread : ∀ tty, s.queues (.readers tty) = []
  history : s.writes.history = []
  idle : ∀ tty, (s.writes.terminals tty).inUse = false ∧
    (s.writes.terminals tty).currentWriter = none ∧ s.writes.writers tty = []

theorem prepared_boot (started : kernelStart env cfg = .ok boot) : boot.Prepared := by
  obtain ⟨ready, view⟩ := kernelStart_sched started
  have frame := TtyFrame.kernelStart started
  have contexts : ∀ p kc, boot.Inside p kc → kc = .unsaved ∨ kc = .kernelStart := by
    intro p kc inside
    obtain ⟨b, live, rfl⟩ := inside.pcb
    have found : boot.sched.procs p = some b.proc := procs_of_heap live
    rw [view, Sched.booted_procs] at found
    split at found
    · exact Or.inr (congrArg Proc.kernelContext (Option.some.inj found)).symm
    · split at found
      · exact Or.inl (congrArg Proc.kernelContext (Option.some.inj found)).symm
      · cases found
  have writes : boot.writes = (beforeProcesses cfg).writes := frame.writes
  constructor
  case stores =>
    intro p kc inside
    rcases contexts p kc inside with rfl | rfl
    · rfl
    · rfl
  case outside =>
    intro p kc inside
    rcases contexts p kc inside with rfl | rfl
    · rfl
    · rfl
  case unread => exact fun tty => frame.queues (.readers tty) rfl
  case history =>
    rw [writes]
    rfl
  case idle =>
    intro tty
    rw [writes]
    exact ⟨rfl, rfl, rfl⟩

theorem Prepared.step {i : Input} (prepared : s.Prepared)
    (distinct : Function.Injective env.helperNewPid) (known : Sched.Registered env s.sched)
    (idle : s.IdleCalm) (preparing : s.Preparing i) (step : s.Step env i s') : s'.Prepared := by
  have fresh := fresh_of_registered known
  have taken : Guarded (Step env) ExitsWritten s i s' := ⟨preparing.exits, step⟩
  have calls : ¬ (Calls yalnixWait i ∨ Calls yalnixTtyRead i) :=
    fun call => call.elim preparing.waits preparing.reads
  have writes : s'.writes = s.writes := by
    by_cases receives : ∃ ctx tty data, i = .ttyReceiveTrap ctx tty data
    · obtain ⟨ctx, tty, data, rfl⟩ := receives
      exact writes_ttyTrapReceiveHandler (s := s.trap ctx) step.2
    · refine (ttyFrame_step fresh (fun elsewhere => ?_) step).writes
      cases i with
      | kernelTrap ctx req => exact elsewhere.elim preparing.reads preparing.writes
      | ttyReceiveTrap ctx tty data => exact receives ⟨ctx, tty, data, rfl⟩
      | ttyTransmitTrap ctx tty => exact preparing.transmits ctx tty rfl
      | resume =>
          obtain ⟨c, live, isTty⟩ := elsewhere
          have inKernel : s.mode = .kernel := step.1
          have inside : s.Inside s.currentProcess c.kernelContext := by
            refine ⟨fun runs => ?_, c, live, rfl⟩
            rw [runs.1] at inKernel
            cases inKernel
          have stores := prepared.stores _ _ inside
          have outside := prepared.outside _ _ inside
          cases saved : c.kernelContext with
          | ttyRead =>
              rw [saved] at stores
              cases stores
          | ttyWriteLock | ttyWriteDone =>
              rw [saved] at outside
              cases outside
          | _ =>
              rw [saved] at isTty
              cases isTty
      | _ => cases elsewhere
  constructor
  case stores =>
    exact nobody_stores_step distinct known idle prepared.stores calls taken
  case outside =>
    exact nobody_writes_step distinct known idle prepared.outside preparing.writes taken
  case unread => exact unread_step fresh prepared.unread preparing.reads step
  case history =>
    rw [writes]
    exact prepared.history
  case idle =>
    rw [writes]
    exact prepared.idle

theorem prepared_reaches (distinct : Function.Injective env.helperNewPid)
    (started : kernelStart env cfg = .ok boot)
    (run : Reaches (Guarded (Step env) Preparing) boot s) : s.Prepared := by
  induction run with
  | refl => exact prepared_boot started
  | @tail u v before last inductionHypothesis =>
      obtain ⟨i, preparing, step⟩ := last
      have written : Reaches (Guarded (Step env) ExitsWritten) boot u :=
        Reaches.mono (fun _ _ _ taken => ⟨taken.1.exits, taken.2⟩) before
      exact inductionHypothesis.step distinct (registered_reaches distinct started written)
        (idleCalm_reaches distinct started written) preparing step

/-! ### The writes -/

/-- The terminal was handed more chunks than it acknowledged. -/
def Unacknowledged (s : Kernel) (tty : TtyId) : Prop :=
  s.history.countP (Event.acknowledges tty) < s.history.countP (Event.transmits tty)

/-- If the step is a transmit trap, it answers a call of `TtyTransmit`. -/
def TransmitOwed (s : Kernel) : Input → Prop
  | .ttyTransmitTrap _ tty => s.Unacknowledged tty
  | _ => True

/-- The processes write to terminals and delay, a transmit trap answers a call of `TtyTransmit`, and
there is memory for the copy of a buffer. -/
structure Writing (env : Env) (s : Kernel) (i : Input) : Prop where
  among : i.among [yalnixTtyWrite, yalnixDelay] = true
  owed : s.TransmitOwed i
  memory : ∀ tty, s.BeginsWrite tty i → env.mallocOk s.mallocCalls = true

instance (s : Kernel) (tty : TtyId) : Decidable (s.Unacknowledged tty) :=
  inferInstanceAs (Decidable (_ < _))

instance (s : Kernel) : (i : Input) → Decidable (s.TransmitOwed i)
  | .ttyTransmitTrap _ tty => inferInstanceAs (Decidable (s.Unacknowledged tty))
  | .kernelTrap .. | .clockTrap _ | .memoryTrap _ | .mathTrap _ | .illegalTrap _
  | .ttyReceiveTrap .. | .resume | .userStore .. | .kernelBrk _ => inferInstanceAs (Decidable True)

instance (s : Kernel) (i : Input) : Decidable (s.Writing env i) :=
  decidable_of_iff
    (i.among [yalnixTtyWrite, yalnixDelay] = true ∧ s.TransmitOwed i ∧
      ∀ tty, s.BeginsWrite tty i → env.mallocOk s.mallocCalls = true)
    ⟨fun writing => ⟨writing.1, writing.2.1, writing.2.2⟩,
      fun writing => ⟨writing.among, writing.owed, writing.memory⟩⟩

/-- A writer that finds the terminal in use is entered in `blocked_writers`. -/
def EntersWriters (env : Env) (s : Kernel) (i : Input) : Prop :=
  ∀ tty, s.QueuesWriter tty i → env.mallocOk s.mallocCalls = true

/-- Calls of `TtyWrite` and `Delay` do not exit. -/
theorem Writing.exitsWritten {i : Input} (writing : s.Writing env i) : s.ExitsWritten i := by
  have among := writing.among
  intro calls
  cases i with
  | kernelTrap ctx req =>
      have code : ctx.code = yalnixExit := calls
      simp [Input.among, code] at among
  | memoryTrap | mathTrap | illegalTrap => cases among
  | _ => cases calls

theorem Writing.unread {i : Input} (writing : s.Writing env i) :
    ¬ Calls yalnixTtyRead i ∧ ¬ Calls yalnixWait i := by
  have among := writing.among
  constructor
  · intro calls
    cases i with
    | kernelTrap ctx req =>
        have code : ctx.code = yalnixTtyRead := calls
        simp [Input.among, code] at among
    | _ => cases calls
  · intro calls
    cases i with
    | kernelTrap ctx req =>
        have code : ctx.code = yalnixWait := calls
        simp [Input.among, code] at among
    | _ => cases calls

/-- The bytes that the process finds in a buffer at the start. -/
def Had (start : Kernel) (p : PcbPtr) (buf : Word) (bytes : List Byte) : Prop :=
  bytes = start.userBytes p buf bytes.length

theorem had_faithful : Faithful start.Had := by
  intro p buf bytes bytes' had had' size
  rw [had, had', size]

/-- Since the start nobody's memory has changed, nobody reads or waits for a child, and each
terminal is a line. -/
structure Serving (start s : Kernel) : Prop where
  memory : SameMemory start s
  stores : ∀ p kc, s.Inside p kc → kc.stores = false
  unread : ∀ tty, s.queues (.readers tty) = []
  lines : ∀ tty, ∃ l, Turns start.Had s tty l ∧ Sends s tty l

theorem Prepared.serving (prepared : start.Prepared) : Serving start start where
  memory := .refl start
  stores := prepared.stores
  unread := prepared.unread
  lines tty := by
    obtain ⟨free, unowned, nobody⟩ := prepared.idle tty
    refine ⟨Line.idle, ?_, ?_⟩
    · constructor
      case asked =>
        rw [prepared.history]
        rfl
      case nonempty => exact fun job member => absurd member List.not_mem_nil
      case ordered => exact Line.Ordered.idle
      case inUse =>
        rw [free]
        exact iff_of_false Bool.false_ne_true fun busy => busy rfl
      case writers => exact nobody
      case unowned => exact fun _ => unowned
      case sending => exact fun position sending => nomatch sending
      case locked =>
        intro p buf len inside
        cases prepared.outside _ _ inside
      case done =>
        intro p len inside
        cases prepared.outside _ _ inside
      case owed =>
        rw [prepared.history]
        rfl
    · constructor
      case signals =>
        rw [prepared.history]
        rfl
      case accounted => exact Line.Accounted.idle
      case buffer => exact fun position job sending => nomatch sending
      case answers =>
        rw [prepared.history]
        exact Record.each_nil

/-- A terminal that owes an acknowledgement writes for somebody. -/
theorem Turns.owned {content : PcbPtr → Word → List Byte → Prop} {l : Line PcbPtr Byte}
    (turns : Turns content s tty l) (owes : s.Unacknowledged tty) :
    (s.terminals tty).currentWriter ≠ none := by
  have balanced : (signalsOn tty s.history).countP Line.Signal.isSent =
      (signalsOn tty s.history).countP Line.Signal.isThrough + l.turn.owed := by
    rw [← signalsOn_filter]
    exact turns.owed
  rw [Unacknowledged, countP_acknowledges, countP_transmits, balanced] at owes
  cases turn : l.turn with
  | free | handed =>
      rw [turn] at owes
      exact absurd owes (Nat.lt_irrefl _)
  | sending position =>
      obtain ⟨job, -, owner, -⟩ := turns.sending position turn
      have owner' : (s.terminals tty).currentWriter = some job.1 := owner
      rw [owner']
      exact Option.some_ne_none _

/-- The current process, if it is not idle, waits for no terminal. -/
theorem current_unqueued (known : Sched.Registered env s.sched)
    (notIdle : s.currentProcess ≠ s.idleProc) : s.currentProcess ∉ s.queues (.writers tty) := by
  intro member
  have once := known.once s.currentProcess notIdle
  have here : Tally.same s.sched.current s.currentProcess = 1 := if_pos rfl
  have entered : 0 < (s.queues (.writers tty)).count s.currentProcess :=
    List.count_pos_iff.mpr member
  have counted : s.sched.terminalEntries s.currentProcess tty ≤
      s.sched.ttyEntries s.currentProcess := Tally.entry_le_sum _ tty
  simp only [Sched.registrations] at once
  simp only [Sched.terminalEntries, sched_queues] at counted
  omega

/-- A process that comes back to write has left the queue it waited in. -/
theorem unqueued_locked {buf : Word} {len : Nat} (known : Sched.Registered env s.sched)
    (idle : s.IdleCalm) (inside : s.Inside s.currentProcess (.ttyWriteLock tty buf len)) :
    s.currentProcess ∉ s.queues (.writers tty) := by
  obtain ⟨b, live, saved⟩ := inside.pcb
  exact current_unqueued known (idle.ne_idle live (by simp [saved]) (by simp [saved]))

theorem Serving.step {i : Input} (serving : Serving start s)
    (distinct : Function.Injective env.helperNewPid) (known : Sched.Registered env s.sched)
    (idle : s.IdleCalm) (table : s.ptbr1 = s.currentProcess) (calm : s.Calm s.currentProcess)
    (writing : s.Writing env i) (enters : s.EntersWriters env i) (step : s.Step env i s') :
    Serving start s' := by
  have fresh := fresh_of_registered known
  have taken : Guarded (Step env) ExitsWritten s i s' := ⟨writing.exitsWritten, step⟩
  obtain ⟨readsNothing, waitsForNobody⟩ := writing.unread
  constructor
  case memory =>
    refine serving.memory.trans (sameMemory_step writing.among serving.unread ?_ step)
    intro inKernel c live
    refine serving.stores s.currentProcess c.kernelContext ⟨fun runs => ?_, c, live, rfl⟩
    rw [runs.1] at inKernel
    cases inKernel
  case stores =>
    exact nobody_stores_step distinct known idle serving.stores
      (fun call => call.elim waitsForNobody readsNothing) taken
  case unread => exact unread_step fresh serving.unread readsNothing step
  case lines =>
    have owned : ∀ ctx tty, i = .ttyTransmitTrap ctx tty →
        (s.terminals tty).currentWriter ≠ none := by
      intro ctx tty same
      obtain ⟨l, turns, -⟩ := serving.lines tty
      subst same
      exact turns.owned writing.owed
    have wrote := write_step known table ⟨writing.memory, enters⟩ owned step
    have others : OthersStay s s' := by
      intro p kc other write inside
      have lasts := KernelContext.isWrite_lasts write
      exact inside.before distinct known idle lasts.1 lasts.2 (Ne.symm other) taken
    have unqueued : ∀ tty buf len, s.Inside s.currentProcess (.ttyWriteLock tty buf len) →
        s.currentProcess ∉ s.queues (.writers tty) :=
      fun _ _ _ inside => unqueued_locked known idle inside
    intro tty
    obtain ⟨l, turns, sends⟩ := serving.lines tty
    obtain ⟨l', turns', sends'⟩ := turns_step turns others unqueued calm.writer
      (fun buf bytes content => content.trans (serving.memory.userBytes _ _ _)) wrote
    exact ⟨l', turns', sends' had_faithful sends⟩

/-- As long as every writer that has to wait is entered among those who wait, each terminal is
handed what the calls asked for, in their order, whatever is scheduled when. -/
theorem writes_serial (distinct : Function.Injective env.helperNewPid)
    (started : kernelStart env cfg = .ok boot)
    (prepared : Reaches (Guarded (Step env) Preparing) boot start)
    (run : Reaches (Guarded (Step env) fun s i => s.Writing env i ∧ s.EntersWriters env i) start s)
    (tty : TtyId) : s.SerialWrites tty := by
  have before : Reaches (Guarded (Step env) ExitsWritten) boot start :=
    Reaches.mono (fun _ _ _ taken => ⟨taken.1.exits, taken.2⟩) prepared
  have written : ∀ {u : Kernel},
      Reaches (Guarded (Step env) fun s i => s.Writing env i ∧ s.EntersWriters env i) start u →
      Reaches (Guarded (Step env) ExitsWritten) boot u := fun later =>
    before.trans (Reaches.mono (fun _ _ _ taken => ⟨taken.1.1.exitsWritten, taken.2⟩) later)
  have serving : Serving start s := by
    induction run with
    | refl => exact (prepared_reaches distinct started prepared).serving
    | @tail u v earlier last inductionHypothesis =>
        obtain ⟨i, ⟨writing, enters⟩, step⟩ := last
        have reached := written earlier
        exact inductionHypothesis.step distinct (registered_reaches distinct started reached)
          (idleCalm_reaches distinct started reached) (table_reaches distinct started reached)
          (current_calm distinct started reached) writing enters step
  obtain ⟨l, turns, sends⟩ := serving.lines tty
  exact sends.serial turns

/-! ### Three writers -/

/-- Forks, stores and what the clock does. -/
def prepares : Input → Bool
  | .kernelTrap ctx _ => decide (ctx.code = yalnixFork)
  | .clockTrap _ | .resume | .userStore .. => true
  | _ => false

theorem preparing_of_prepares {i : Input} (checked : prepares i = true) : s.Preparing i := by
  cases i with
  | kernelTrap ctx req =>
      have code : ctx.code = yalnixFork := of_decide_eq_true checked
      have other : ∀ {called : Word}, called ≠ yalnixFork → ¬ Calls called (.kernelTrap ctx req) :=
        fun apart calls => apart (calls.symm.trans code)
      exact ⟨fun exits => absurd exits (other (by decide)), other (by decide), other (by decide),
        other (by decide), fun _ _ => by simp⟩
  | clockTrap | resume | userStore => exact ⟨False.elim, id, id, id, fun _ _ => by simp⟩
  | _ => cases checked

/-- Init fills a buffer and forks twice. -/
def threeProcesses : List Input :=
  [.tick, .resume, .userStore 0x102000 [7, 8, 9, 4, 5, 6, 1, 2, 3], .call yalnixFork 0 0 0,
    .call yalnixFork 0 0 0]

/-- Init and its children write three bytes each, and the terminal is through with the first ones.
Init returns, and the writer that was handed the terminal comes back. -/
def threeWrites (tty : TtyId) : List Input :=
  let write := fun buf => Input.call yalnixTtyWrite (BitVec.ofNat 32 tty) buf 3
  [write 0x102000, .resume, write 0x102003, .resume, write 0x102006, .resume,
    .ttyTransmitTrap UserContext.zero tty, .tick, .resume, .tick, .resume]

/-- The second writer is handed the terminal while the third one waits. -/
theorem writes_serial_sample : ∃ s : Kernel,
    s.history.flatMap (Event.transmitted 0) = [7, 8, 9, 4, 5, 6] ∧
      s.queues (.writers 0) = [3] ∧ s.SerialWrites 0 := by
  have answer : (do
      let boot ← kernelStart sampleEnv sampleBoot
      let start ← run sampleEnv (fun _ i => prepares i) threeProcesses boot
      let s ← run sampleEnv (fun s i => decide (s.Writing sampleEnv i)) (threeWrites 0) start
      return decide (s.history.flatMap (Event.transmitted 0) = [7, 8, 9, 4, 5, 6] ∧
        s.queues (.writers 0) = [3]) : Except Stop Bool) = .ok true := by
    decide +kernel
  simp only [bind_eq_ok, pure_eq_ok, decide_eq_true_iff] at answer
  obtain ⟨boot, started, start, prepared, s, ran, sent, waits⟩ := answer
  have run := run_reaches (fun s i => s.Writing sampleEnv i ∧ s.EntersWriters sampleEnv i)
    (fun s i checked => ⟨of_decide_eq_true checked, fun _ _ => rfl⟩) ran
  exact ⟨s, sent, waits, writes_serial sampleEnv_distinct started
    (run_reaches Preparing (fun _ _ => preparing_of_prepares) prepared) run 0⟩

/-- The node for the second writer is not allocated, and the third writer overtakes it for good. -/
theorem writer_overtaken : ¬ ∀ env cfg boot start s, Function.Injective env.helperNewPid →
    kernelStart env cfg = .ok boot → Reaches (Guarded (Step env) Preparing) boot start →
    Reaches (Guarded (Step env) (Writing env)) start s → ∀ tty, s.SerialWrites tty := by
  intro serial
  have answer : (do
      let boot ← kernelStart (failingEnv 24) sampleBoot
      let start ← run (failingEnv 24) (fun _ i => prepares i) threeProcesses boot
      let s ← run (failingEnv 24) (fun s i => decide (s.Writing (failingEnv 24) i))
        (threeWrites 0) start
      return decide (s.history.flatMap (Event.transmitted 0) = [7, 8, 9, 1, 2, 3] ∧
        (askedOn 0 s.history).flatMap Prod.snd = [7, 8, 9, 4, 5, 6, 1, 2, 3]) :
      Except Stop Bool) = .ok true := by
    decide +kernel
  simp only [bind_eq_ok, pure_eq_ok, decide_eq_true_iff] at answer
  obtain ⟨boot, started, start, prepared, s, ran, sent, asked⟩ := answer
  have run := run_reaches (Writing (failingEnv 24)) (fun s i => of_decide_eq_true) ran
  have order := (serial _ _ boot start s (failingEnv_distinct 24) started
    (run_reaches Preparing (fun _ _ => preparing_of_prepares) prepared) run 0).order
  rw [sent, asked] at order
  exact absurd order (by decide)

end Kernel

end Yalnix
