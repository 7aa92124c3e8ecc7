/-
Module: Yalnix.Proofs.ReadCalls
Purpose: One call of TtyRead, from its trap to its return: it is refused, or fails for want of
  memory, or returns the length of the one block that was taken for it and copies that block.
Trusted boundary: the pids of the hardware library do not repeat
Main exports: Kernel.ReadOutcome, Kernel.ReadAway, read_returns
-/
import Yalnix.Proofs.Buffers
import Yalnix.Proofs.ReadStream
import Yalnix.Proofs.Returns
import Yalnix.Proofs.UserMemory
import Yalnix.Proofs.Always

namespace Yalnix

open Transition

namespace Kernel

variable {env : Env} {cfg : BootConfig} {boot s s' t u v : Kernel} {p q : PcbPtr} {b : PCB}
  {ctx : UserContext} {tty : TtyId} {before : List Event} {buf : Word} {len : Nat}

/-- What the states of a run know when a call of `TtyRead` is under way. -/
structure ReadKnown (env : Env) (p : PcbPtr) (s : Kernel) : Prop where
  registered : Sched.Registered env s.sched
  table : s.ptbr1 = s.currentProcess
  stream : s.StreamIntact
  notIdle : p ≠ s.idleProc

/-- How a call of `TtyRead` that `p` made over the frame `ctx` came back in `t`; `before` is what
had happened in its calls until then. -/
inductive ReadOutcome (env : Env) (p : PcbPtr) (ctx : UserContext) (before : List Event)
    (t : Kernel) : Int → Prop where
  | refused (invalid : checkBuffer (ctx.regs 1) (ctx.regs 2) = false ∨
      ttyArguments (ctx.intReg 0) (ctx.regs 1) (ctx.intReg 2) = none) :
      ReadOutcome env p ctx before t Status.error.code
  | noMemory {k : Nat} {rc : Int} (failed : env.mallocOk k = false)
      (nothing : rc = Status.error.code ∨ rc = 0) : ReadOutcome env p ctx before t rc
  /-- `block` is the one block taken for the call, and it is in the caller's buffer. -/
  | read {tty : TtyId} {len : Nat} {block : List Byte} {waited : List Event}
      (arguments : ttyArguments (ctx.intReg 0) (ctx.regs 1) (ctx.intReg 2) = some (tty, len))
      (nonempty : block ≠ []) (fits : block.length ≤ len)
      (waiting : waited = [] ∨ waited = [.ttyReadBlocked p tty true, .ttyReaderServed p tty])
      (own : t.readHistory p = before ++ waited ++
        [.ttyReadTaken p tty block, .ttyReadReturned p tty (ctx.regs 1) len block.length])
      (copied : t.userBytes p (ctx.regs 1) block.length = block) :
      ReadOutcome env p ctx before t block.length

/-- How far a blocked call has come: it waits in the queue, or was served with a block or, for want
of memory, with nothing. -/
inductive ReadPhase (env : Env) (s : Kernel) (p : PcbPtr) (tty : TtyId) (len : Nat)
    (ctx : UserContext) (before : List Event) (b : PCB) : Prop where
  | waiting (context : b.userContext = ctx) (queued : p ∈ s.queues (.readers tty))
      (history : s.readHistory p = before ++ [.ttyReadBlocked p tty true])
  | served {block : List Byte} (context : b.userContext = ctx.setReturn block.length)
      (parked : b.ttyKernelReadBuf = some block) (size : b.kernelReadSize = block.length)
      (nonempty : block ≠ []) (fits : block.length ≤ len) (short : block.length ≤ terminalMaxLine)
      (calm : s.Calm p)
      (history : s.readHistory p = before ++
        [.ttyReadBlocked p tty true, .ttyReaderServed p tty, .ttyReadTaken p tty block])
  | starved {k : Nat} (failed : env.mallocOk k = false) (context : b.userContext = ctx.setReturn 0)
      (calm : s.Calm p)

/-- The process is blocked in `TtyRead`, or was woken from it and has not returned yet; without
memory for its entry in the queue it is lost. -/
structure ReadAway (env : Env) (p : PcbPtr) (tty : TtyId) (buf : Word) (len : Nat)
    (ctx : UserContext) (before : List Event) (s : Kernel) : Prop where
  away : ¬ s.Runs p
  call : (∃ b, s.heap p = some b ∧ b.kernelContext = .ttyRead tty buf len ∧ b.ttyReadLen = len ∧
      ReadPhase env s p tty len ctx before b) ∨
    ∃ k, env.mallocOk k = false ∧ s.sched.registrations p = 0

/-! ### Being served -/

/-- A reader that no terminal answers keeps its PCB's part in the call. -/
theorem Bystander.kept {o : Occasion} (looksOn : Bystander o p s s') (quietly : o.quiet)
    (live : s.heap p = some b) : ∃ b', s'.heap p = some b' ∧ b'.kernelContext = b.kernelContext ∧
      b'.ttyReadLen = b.ttyReadLen ∧ b'.answer = b.answer := by
  obtain ⟨b', live', undisturbed, -⟩ := looksOn.pcb b live
  refine ⟨b', live', ?_, ?_, undisturbed.untouched quietly⟩
  · rw [undisturbed.rest]
  · rw [undisturbed.rest]

theorem ReadPhase.look {o : Occasion} {b' : PCB} (phase : ReadPhase env s p tty len ctx before b)
    (looksOn : Bystander o p s s') (quietly : o.quiet) (same : b'.answer = b.answer) :
    ReadPhase env s' p tty len ctx before b' := by
  obtain ⟨context', rest⟩ := Prod.mk.inj same
  obtain ⟨parked', size'⟩ := Prod.mk.inj rest
  have history' := looksOn.history quietly
  cases phase with
  | waiting context queued history =>
      exact .waiting (context'.trans context) (looksOn.reading quietly tty queued)
        (history'.trans history)
  | served context parked size nonempty fits short calm history =>
      exact .served (context'.trans context) (parked'.trans parked) (size'.trans size) nonempty fits
        short (calm.step looksOn) (history'.trans history)
  | starved failed context calm =>
      exact .starved failed (context'.trans context) (calm.step looksOn)

/-- The process has its place in one queue of readers, and nowhere else. -/
theorem queued_once (known : ReadKnown env p s) (queued : p ∈ s.queues (.readers tty)) :
    (s.queues (.readers tty)).count p = 1 ∧ s.currentProcess ≠ p ∧
      (∀ other, other ≠ tty → p ∉ s.queues (.readers other)) ∧
      ∀ other, (s.terminals other).currentWriter ≠ some p := by
  have once := known.registered.once p known.notIdle
  have here : 1 ≤ (s.queues (.readers tty)).count p := List.count_pos_iff.mpr queued
  have split : ∀ other, other ≠ tty →
      s.sched.terminalEntries p tty + s.sched.terminalEntries p other ≤ s.sched.ttyEntries p := by
    intro other apart
    have both : ∑ t ∈ ({tty, other} : Finset TtyId), s.sched.terminalEntries p t ≤
        s.sched.ttyEntries p :=
      Finset.sum_le_sum_of_subset (Finset.subset_univ _)
    rwa [Finset.sum_pair apart.symm] at both
  have one : s.sched.terminalEntries p tty ≤ s.sched.ttyEntries p :=
    Finset.single_le_sum (f := fun t => s.sched.terminalEntries p t) (fun _ _ => Nat.zero_le _)
      (Finset.mem_univ tty)
  have entry : (s.queues (.readers tty)).count p ≤ s.sched.terminalEntries p tty := by
    simp only [Sched.terminalEntries, sched_queues]
    omega
  simp only [Sched.registrations] at once
  refine ⟨by omega, fun current => ?_, fun other apart member => ?_, fun other writer => ?_⟩
  · have counted : Tally.same s.sched.current p = 1 := if_pos current
    omega
  · have counted : 1 ≤ (s.queues (.readers other)).count p := List.count_pos_iff.mpr member
    have entry' : (s.queues (.readers other)).count p ≤ s.sched.terminalEntries p other := by
      simp only [Sched.terminalEntries, sched_queues]
      omega
    have total := split other apart
    omega
  · have counted : (s.queues (.readers other)).count p + 1 ≤ s.sched.terminalEntries p other := by
      have view : s.sched.writer other = some p := writer
      simp only [Sched.terminalEntries, sched_queues, view, Tally.same_self]
      omega
    by_cases same : other = tty
    · subst same
      omega
    · have total := split other same
      omega

theorem readAmount_bounds {r : PCB} {terminal : Terminal} (positive : 0 < r.ttyReadLen)
    (available : terminal.readBufferLen ≠ 0) :
    0 < readAmount r terminal ∧ readAmount r terminal ≤ r.ttyReadLen := by
  unfold readAmount
  split
  · omega
  · omega

theorem readHistory_log_own (s : Kernel) {e : Event} (own : e.isReadOf p = true) :
    (s.log e).readHistory p = s.readHistory p ++ [e] := by
  rw [readHistory_log, if_pos own]

section Served

variable {rest : List PcbPtr} {r : PCB} {n : Nat}

theorem readyReader_heap : (readyReader env s p b).heap p = some { b with state := .ready } := by
  rw [readyReader, queueEnqueue_heap, setPcb_heap, Function.update_self]

theorem readyReader_readers : (readyReader env s p b).queues (.readers tty) =
    s.queues (.readers tty) := by
  simp [readyReader]

theorem readyReader_terminals : (readyReader env s p b).terminals = s.terminals := by
  rw [readyReader, queueEnqueue_terminals]
  rfl

theorem readyReader_readHistory : (readyReader env s p b).readHistory q = s.readHistory q := by
  simp [readyReader, readHistory]

/-- A reader whose last entry was taken out of its queue is calm. -/
theorem calm_of_unlinked {w : Kernel} (left : w.queues (.readers tty) = rest) (absent : p ∉ rest)
    (same : ∀ other, other ≠ tty → w.queues (.readers other) = s.queues (.readers other))
    (kept : ∀ other, (w.terminals other).currentWriter = (s.terminals other).currentWriter)
    (others : ∀ other, other ≠ tty → p ∉ s.queues (.readers other))
    (writers : ∀ other, (s.terminals other).currentWriter ≠ some p) : w.Calm p := by
  refine ⟨fun other member => ?_, fun other => ?_⟩
  · by_cases here : other = tty
    · subst here
      rw [left] at member
      exact absent member
    · rw [same other here] at member
      exact others other here member
  · rw [kept]
    exact writers other

/-- The reader at the head of the queue is served with the first bytes. -/
theorem served_phase (absent : p ∉ rest) (others : ∀ other, other ≠ tty →
      p ∉ s.queues (.readers other)) (writers : ∀ other, (s.terminals other).currentWriter ≠ some p)
    (history : s.readHistory p = before ++ [.ttyReadBlocked p tty true])
    (long : ((s.terminals tty).readBuffer.take n).length = n) (positive : 0 < n)
    (fits : n ≤ r.ttyReadLen) (short : n ≤ terminalMaxLine)
    (context : b.userContext = r.userContext.setReturn n)
    (parked : b.ttyKernelReadBuf = some ((s.terminals tty).readBuffer.take n))
    (size : b.kernelReadSize = n) :
    ReadPhase env (readyReader env (parkBlock (unlinkReader env s tty p rest) tty p r n) p b) p tty
      r.ttyReadLen r.userContext before { b with state := .ready } := by
  have calm :
      (readyReader env (parkBlock (unlinkReader env s tty p rest) tty p r n) p b).Calm p := by
    refine calm_of_unlinked ?_ absent (fun other apart => ?_) (fun other => ?_) others writers
    · rw [readyReader_readers]
      simp [parkBlock, unlinkReader]
    · rw [readyReader_readers]
      simp [parkBlock, unlinkReader, apart]
    · rw [readyReader_terminals, parkBlock, setTerminal_terminals]
      by_cases here : other = tty
      · subst here
        rw [Function.update_self]
        rfl
      · rw [Function.update_of_ne here]
        rfl
  have recorded : (readyReader env (parkBlock (unlinkReader env s tty p rest) tty p r n)
      p b).readHistory p = before ++ [.ttyReadBlocked p tty true, .ttyReaderServed p tty,
        .ttyReadTaken p tty ((s.terminals tty).readBuffer.take n)] := by
    have unlinked : (unlinkReader env s tty p rest).readHistory p =
        s.readHistory p ++ [.ttyReaderServed p tty] := readHistory_log_own _ (decide_eq_true rfl)
    have taken : (parkBlock (unlinkReader env s tty p rest) tty p r n).readHistory p =
        (unlinkReader env s tty p rest).readHistory p ++
          [.ttyReadTaken p tty ((s.terminals tty).readBuffer.take n)] :=
      readHistory_log_own _ (decide_eq_true rfl)
    rw [readyReader_readHistory, taken, unlinked, history]
    simp
  refine .served ?_ parked ?_ ?_ ?_ ?_ calm recorded
  · rw [long]
    exact context
  · rw [long]
    exact size
  · intro nothing
    rw [nothing] at long
    exact absurd long.symm (Nat.ne_of_gt positive)
  · rw [long]
    exact fits
  · rw [long]
    exact short

/-- The reader at the head of the queue is served with nothing. -/
theorem starved_phase {k : Nat} (failed : env.mallocOk k = false) (absent : p ∉ rest)
    (others : ∀ other, other ≠ tty → p ∉ s.queues (.readers other))
    (writers : ∀ other, (s.terminals other).currentWriter ≠ some p)
    (context : b.userContext = ctx.setReturn 0) :
    ReadPhase env (readyReader env ((unlinkReader env s tty p rest).setPcb p r) p b) p tty len ctx
      before { b with state := .ready } := by
  refine .starved failed context ?_
  refine calm_of_unlinked ?_ absent (fun other apart => ?_) (fun other => ?_) others writers
  · rw [readyReader_readers]
    simp [unlinkReader]
  · rw [readyReader_readers]
    simp [unlinkReader, apart]
  · rw [readyReader_terminals]
    rfl

end Served

/-- What the loop does for a reader that is in the queue once: it serves it, or ends before. -/
theorem serveReaders_answers {readers : List PcbPtr} (queue : s.queues (.readers tty) = readers)
    (once : readers.count p = 1) (accounted : s.StreamAccounted) (live : s.heap p = some b)
    (positive : 0 < b.ttyReadLen) (others : ∀ other, other ≠ tty → p ∉ s.queues (.readers other))
    (writers : ∀ other, (s.terminals other).currentWriter ≠ some p)
    (history : s.readHistory p = before ++ [.ttyReadBlocked p tty true])
    (h : serveReaders env tty readers s = .ok s') :
    ∃ b', s'.heap p = some b' ∧ b'.kernelContext = b.kernelContext ∧
      b'.ttyReadLen = b.ttyReadLen ∧
      ReadPhase env s' p tty b.ttyReadLen b.userContext before b' := by
  induction readers generalizing s b with
  | nil => cases once
  | cons reader rest inductionHypothesis =>
      by_cases empty : (s.terminals tty).readBufferLen = 0
      · rw [serveReaders, if_pos empty] at h
        cases h
        refine ⟨b, live, rfl, rfl, .waiting rfl ?_ history⟩
        rw [queue, ← List.count_pos_iff, once]
        exact Nat.one_pos
      · obtain ⟨r, found, served⟩ := serveReaders_cons empty h
        by_cases here : reader = p
        · subst here
          obtain rfl := Option.some.inj (found.symm.trans live)
          have absent : reader ∉ rest := by
            rw [← List.count_eq_zero]
            simpa using once
          -- the rest of the loop serves other readers
          have finish : ∀ {w : Kernel} {c : PCB}, w.queues (.readers tty) = rest →
              serveReaders env tty rest w = .ok s' → w.heap reader = some c →
              c.kernelContext = r.kernelContext → c.ttyReadLen = r.ttyReadLen →
              ReadPhase env w reader tty r.ttyReadLen r.userContext before c →
              ∃ b', s'.heap reader = some b' ∧ b'.kernelContext = r.kernelContext ∧
                b'.ttyReadLen = r.ttyReadLen ∧
                ReadPhase env s' reader tty r.ttyReadLen r.userContext before b' := by
            intro w c queue' h live' saved size phase
            have looksOn : Bystander ⟨True, True, True⟩ reader w s' :=
              Bystander.serveReaders queue' (fun _ => absent) h
            obtain ⟨b', live'', saved', size', answer⟩ := looksOn.kept trivial live'
            exact ⟨b', live'', saved'.trans saved, size'.trans size,
              phase.look looksOn trivial answer⟩
          rcases served with ⟨-, h⟩ | ⟨failed, h⟩
          · have bounds := readAmount_bounds positive empty
            have size : (s.terminals tty).readBuffer.length = terminalMaxLine :=
              (accounted tty).size
            have bound : (s.terminals tty).readBufferLen ≤ terminalMaxLine := (accounted tty).bound
            have le := readAmount_le r (s.terminals tty)
            have long : ((s.terminals tty).readBuffer.take
                (readAmount r (s.terminals tty))).length = readAmount r (s.terminals tty) := by
              rw [List.length_take]
              omega
            refine finish ?_ h readyReader_heap rfl rfl
              (served_phase absent others writers history long bounds.1 bounds.2 (by omega) rfl rfl
                rfl)
            simp [readyReader, parkBlock, unlinkReader]
          · refine finish ?_ h readyReader_heap rfl rfl
              (starved_phase failed absent others writers rfl)
            simp [readyReader, unlinkReader]
        · rw [List.count_cons_of_ne here] at once
          have balanced := (accounted tty).serve queue
          have next : ∀ {w : Kernel}, Bystander ⟨True, True, True⟩ p s w → w.StreamAccounted →
              w.queues (.readers tty) = rest → serveReaders env tty rest w = .ok s' →
              ∃ b', s'.heap p = some b' ∧ b'.kernelContext = b.kernelContext ∧
                b'.ttyReadLen = b.ttyReadLen ∧
                ReadPhase env s' p tty b.ttyReadLen b.userContext before b' := by
            intro w looksOn accounted' queue' h
            obtain ⟨c, live', saved, size, answer⟩ := looksOn.kept trivial live
            obtain ⟨b', live'', saved', size', phase⟩ :=
              inductionHypothesis queue' once accounted' live' (by rw [size]; exact positive)
                (fun other apart member => others other apart (looksOn.queued _ rfl member))
                (fun other writer => writers other (looksOn.writing other writer))
                ((looksOn.history trivial).trans history) h
            rw [size, (Prod.mk.inj answer).1] at phase
            exact ⟨b', live'', saved'.trans saved, size'.trans size, phase⟩
          rcases served with ⟨-, h⟩ | ⟨-, h⟩
          · refine next (Bystander.serveOther queue here _ _ _)
              ((ChannelStep.serveBlock env s tty reader rest r _ _).accounted accounted
                (balanced.take (readAmount_le r _))) ?_ h
            simp [readyReader, parkBlock, unlinkReader]
          · refine next (Bystander.starveOther queue here _ _)
              ((ChannelStep.serveNothing env s tty reader rest _ _).accounted accounted
                balanced) ?_ h
            simp [readyReader, unlinkReader]

/-! ### Coming back -/

theorem intReg_setReturn {n : Nat} (small : n ≤ terminalMaxLine) :
    (ctx.setReturn n).intReg 0 = n := by
  simp only [terminalMaxLine] at small
  simp only [UserContext.intReg, UserContext.setReturn, Function.update_self, BitVec.toInt_ofInt]
  rw [Int.bmod_eq_of_le]
  · omega
  · omega

/-- A parked block is copied to the caller, and its length returned. -/
theorem unpackRead_block {block : List Byte} {asked rc : Int} (table : s.ptbr1 = s.currentProcess)
    (live : s.heap s.currentProcess = some b) (parked : b.ttyKernelReadBuf = some block)
    (size : b.kernelReadSize = block.length) (nonempty : block ≠ [])
    (short : block.length ≤ terminalMaxLine) (answer : rc = block.length)
    (h : s.unpackRead tty buf asked rc = .ok s') :
    s'.Runs s.currentProcess ∧ s'.ctx = b.userContext.setReturn block.length ∧
      s'.readHistory s.currentProcess = s.readHistory s.currentProcess ++
        [.ttyReadReturned s.currentProcess tty buf asked block.length] ∧
      s'.userBytes s.currentProcess buf block.length = block := by
  subst answer
  have positive : (0 : Int) < block.length := by
    have := List.length_pos_of_ne_nil nonempty
    omega
  obtain ⟨c, live', ⟨block', t, u, parked', -, stored, cleared, h⟩ | ⟨nothing, -⟩⟩ :=
    unpackRead_eq_ok h
  · obtain rfl := Option.some.inj (live'.symm.trans live)
    obtain rfl := Option.some.inj (parked'.symm.trans parked)
    rw [size, List.take_length] at stored
    have copied := storeUser_userBytes
      (Nat.le_trans short (show terminalMaxLine ≤ pageSize by decide)) stored
    rw [table] at copied
    obtain ⟨d, m, -, -, rfl⟩ := storeUser_eq_ok.mp stored
    obtain ⟨e, found, rfl⟩ := modifyPcb_eq_ok.mp cleared
    obtain rfl : e = c := Option.some.inj (found.symm.trans live)
    obtain ⟨f, found', rfl⟩ := returnToUser_eq_ok.mp h
    have answered : { e with ttyKernelReadBuf := none, kernelReadSize := 0 } = f := by
      simpa using found'
    refine ⟨⟨rfl, rfl⟩, by rw [← answered], ?_, ?_⟩
    · exact readHistory_log_own _ (decide_eq_true rfl)
    · refine Eq.trans (userBytes_congr (s := s.setMem m) rfl ?_) copied
      simp [live]
  · rcases nothing with nothing | nothing
    · rw [live] at live'
      obtain rfl := Option.some.inj live'
      rw [parked] at nothing
      cases nothing
    · exact absurd positive nothing

/-- Without bytes to return nothing is copied. -/
theorem unpackRead_nothing {asked rc : Int} (live : s.heap s.currentProcess = some b)
    (nothing : rc ≤ 0) (h : s.unpackRead tty buf asked rc = .ok s') :
    s'.Runs s.currentProcess ∧ s'.ctx = b.userContext.setReturn rc := by
  obtain ⟨c, live', ⟨block, t, u, -, positive, -⟩ | ⟨-, h⟩⟩ := unpackRead_eq_ok h
  · omega
  · obtain ⟨d, found, rfl⟩ := returnToUser_eq_ok.mp h
    obtain rfl : d = b := Option.some.inj (found.symm.trans live)
    exact ⟨⟨rfl, rfl⟩, rfl⟩

/-! ### Away from the processor -/

/-- Another process's step, or a trap, takes a blocked call at most to being served. -/
theorem ReadAway.elsewhere {i : Input} (distinct : Function.Injective env.helperNewPid)
    (positive : 0 < len) (known : ReadKnown env p u)
    (waits : ReadAway env p tty buf len ctx before u) (other : u.currentProcess ≠ p)
    (guarded : Guarded (Step env) ExitsWritten u i v) :
    ReadAway env p tty buf len ctx before v := by
  have away := away_step known.registered other guarded.2
  rcases waits.call with ⟨b, live, saved, size, phase⟩ | ⟨k, failed, gone⟩
  · have alive : b.kernelContext.isExit = false := by
      rw [saved]
      rfl
    have looksOn := looks_on known.registered live alive other guarded.2
    by_cases answers : u.AnswersTo p i
    · cases phase with
      | served context parked size nonempty fits short calm history =>
          exact absurd answers calm.unanswered
      | starved failed context calm => exact absurd answers calm.unanswered
      | waiting context queued history =>
          obtain ⟨once, -, others, writers⟩ := queued_once known queued
          cases i with
          | ttyTransmitTrap ctx' tty' => exact absurd answers (writers tty')
          | ttyReceiveTrap ctx' tty' data =>
              obtain rfl : tty' = tty := by
                by_contra apart
                exact others tty' apart answers
              have step : ChannelStep (u.trap ctx') _ tty'
                  (((u.trap ctx').channel tty').receive data) := ChannelStep.receive data
              have balanced := (known.stream.1 tty').receive guarded.2.1.2
              have accounted := step.accounted known.stream.1 balanced
              have recorded : ((u.trap ctx').log (.ttyReceive tty' data)).readHistory p =
                  before ++ [.ttyReadBlocked p tty' true] := by
                rw [readHistory_log]
                exact (List.append_nil _).trans history
              have kept : ∀ t, ((((u.trap ctx').log (.ttyReceive tty' data)).setTerminal tty'
                  { u.terminals tty' with
                    readBuffer :=
                      (u.terminals tty').readBuffer.take (u.terminals tty').readBufferLen ++ data ++
                        (u.terminals tty').readBuffer.drop
                          ((u.terminals tty').readBufferLen + data.length)
                    readBufferLen := (u.terminals tty').readBufferLen + data.length }).terminals
                  t).currentWriter ≠ some p := by
                intro t
                rw [setTerminal_terminals]
                by_cases here : t = tty'
                · subst here
                  rw [Function.update_self]
                  exact writers t
                · rw [Function.update_of_ne here]
                  exact writers t
              obtain ⟨b', live', saved', size', phase'⟩ := serveReaders_answers (by rfl) once
                accounted live (size ▸ positive) others kept recorded guarded.2.2
              rw [size, context] at phase'
              exact ⟨away, Or.inl ⟨b', live', saved'.trans saved, size'.trans size, phase'⟩⟩
          | _ => cases answers
    · obtain ⟨b', live', saved', size', answer⟩ := looksOn.kept answers live
      exact ⟨away, Or.inl ⟨b', live', saved'.trans saved, size'.trans size,
        phase.look looksOn answers answer⟩⟩
  · refine ⟨away, Or.inr ⟨k, failed, ?_⟩⟩
    have moves := deliver_moves (fresh_of_registered known.registered) guarded.1.allows guarded.2
    have fewer := Sched.Registered.registrations_le distinct id known.registered moves known.notIdle
    omega

/-- The outcome of a call, with the frame it returns to. -/
def ReadBack (env : Env) (p : PcbPtr) (ctx : UserContext) (before : List Event) (t : Kernel) :
    Prop :=
  ∃ rc, t.ctx = ctx.setReturn rc ∧ ReadOutcome env p ctx before t rc

theorem ReadAway.resumes
    (arguments : ttyArguments (ctx.intReg 0) (ctx.regs 1) (ctx.intReg 2) = some (tty, len))
    (known : ReadKnown env p u)
    (waits : ReadAway env p tty (ctx.regs 1) len ctx before u)
    (current : u.currentProcess = p) (h : u.resume env = .ok v) :
    v.Runs p ∧ ReadBack env p ctx before v := by
  have registered : 1 ≤ u.sched.registrations p := by
    have counted : Tally.same u.sched.current p = 1 := if_pos current
    simp only [Sched.registrations]
    omega
  rcases waits.call with ⟨b, live, saved, size, phase⟩ | ⟨k, failed, gone⟩
  · subst current
    simp only [resume, bind_eq_ok, deref_eq_ok] at h
    obtain ⟨c, live', h⟩ := h
    obtain rfl := Option.some.inj (live'.symm.trans live)
    rw [saved] at h
    cases phase with
    | waiting context queued history =>
        exact absurd rfl (queued_once known queued).2.1
    | @served block context parked size nonempty fits short calm history =>
        have answer : c.userContext.intReg 0 = block.length := by
          rw [context]
          exact intReg_setReturn short
        obtain ⟨runs, returned, recorded, copied⟩ :=
          unpackRead_block known.table live parked size nonempty short answer h
        refine ⟨runs, block.length, ?_, .read arguments nonempty fits (Or.inr rfl) ?_ copied⟩
        · rw [returned, context, UserContext.SameButResult.setReturn_eq (.setReturn ctx _)]
        · rw [recorded, history]
          simp
    | starved failed context calm =>
        have answer : c.userContext.intReg 0 = 0 := by
          rw [context]
          exact intReg_setReturn (n := 0) (Nat.zero_le _)
        rw [answer] at h
        obtain ⟨runs, returned⟩ := unpackRead_nothing live (Int.le_refl 0) h
        refine ⟨runs, 0, ?_, .noMemory failed (Or.inr rfl)⟩
        rw [returned, context, UserContext.SameButResult.setReturn_eq (.setReturn ctx _)]
  · omega

/-! ### The call -/

theorem readHistory_of_frame (frame : TtyFrame s s') : s'.readHistory p = s.readHistory p := by
  have narrow : ∀ h : List Event, h.filter (Event.isReadOf p) =
      (h.filter Event.isTty).filter (Event.isReadOf p) := by
    intro h
    rw [List.filter_filter]
    refine List.filter_congr fun e _ => ?_
    cases e with
    | _ => simp [Event.isReadOf, Event.isTty, Event.isFamily]
  rw [readHistory, narrow, readHistory, narrow s.history]
  exact congrArg (List.filter (Event.isReadOf p)) frame.history

/-- A caller that finds bytes is given the first of them. -/
theorem takeBlock_back {n : Nat} {asked : Int} (known : ReadKnown env s.currentProcess s)
    (positive : 0 < len)
    (available : 0 < (s.terminals tty).readBufferLen)
    (amount : n = min (s.terminals tty).readBufferLen len)
    (h : ((((s.malloc env).2.setPcb s.currentProcess
      { b with
        ttyKernelReadBuf := some ((s.terminals tty).readBuffer.take n)
        kernelReadSize := n }).log
          (.ttyReadTaken s.currentProcess tty ((s.terminals tty).readBuffer.take n))).setTerminal
            tty ((s.terminals tty).shiftRead n)).unpackRead tty buf asked n = .ok t) :
    t.Runs s.currentProcess ∧ ∃ block : List Byte, t.ctx = b.userContext.setReturn block.length ∧
      block ≠ [] ∧ block.length ≤ len ∧ t.readHistory s.currentProcess =
        s.readHistory s.currentProcess ++ [.ttyReadTaken s.currentProcess tty block,
          .ttyReadReturned s.currentProcess tty buf asked block.length] ∧
      t.userBytes s.currentProcess buf block.length = block := by
  have size : (s.terminals tty).readBuffer.length = terminalMaxLine := (known.stream.1 tty).size
  have bound : (s.terminals tty).readBufferLen ≤ terminalMaxLine := (known.stream.1 tty).bound
  have long : ((s.terminals tty).readBuffer.take n).length = n := by
    rw [List.length_take]
    omega
  have nonempty : (s.terminals tty).readBuffer.take n ≠ [] := by
    rw [← List.length_pos_iff_ne_nil, long]
    omega
  have cell : ((s.malloc env).2.setPcb s.currentProcess
      { b with
        ttyKernelReadBuf := some ((s.terminals tty).readBuffer.take n)
        kernelReadSize := n }).heap s.currentProcess =
      some { b with
        ttyKernelReadBuf := some ((s.terminals tty).readBuffer.take n)
        kernelReadSize := n } := Function.update_self ..
  have taken := readHistory_log_own ((s.malloc env).2.setPcb s.currentProcess
      { b with
        ttyKernelReadBuf := some ((s.terminals tty).readBuffer.take n)
        kernelReadSize := n }) (p := s.currentProcess)
    (e := .ttyReadTaken s.currentProcess tty ((s.terminals tty).readBuffer.take n))
    (decide_eq_true rfl)
  obtain ⟨runs, returned, recorded, copied⟩ := unpackRead_block
    (s := (((s.malloc env).2.setPcb s.currentProcess
      { b with
        ttyKernelReadBuf := some ((s.terminals tty).readBuffer.take n)
        kernelReadSize := n }).log
          (.ttyReadTaken s.currentProcess tty ((s.terminals tty).readBuffer.take n))).setTerminal
            tty ((s.terminals tty).shiftRead n))
    known.table cell rfl long.symm nonempty (by omega) (by rw [long]) h
  refine ⟨runs, _, returned, nonempty, by omega, ?_, copied⟩
  refine recorded.trans ?_
  refine (congrArg (fun events => events ++ _) taken).trans ?_
  rw [List.append_assoc]
  rfl

/-- A caller that finds no bytes blocks, in the queue if there is memory for its entry. -/
theorem blockReader_away (known : ReadKnown env s.currentProcess s)
    (live : s.heap s.currentProcess = some b) (context : b.userContext = ctx)
    (parked : (((s.log (.ttyReadBlocked s.currentProcess tty (env.mallocOk
      s.mallocCalls))).queueEnqueue env (.readers tty) s.currentProcess).queueEnqueue env .blocked
        s.currentProcess).modifyPcb s.currentProcess
        (fun b => { b with state := .blocked, ttyReadBuf := buf, ttyReadLen := len }) = .ok t)
    (switched : t.dispatch (.ttyRead tty buf len) = .ok u) :
    ReadAway env s.currentProcess tty buf len ctx (s.readHistory s.currentProcess) u := by
  have view := sched_modifyPcb_self parked fun _ => rfl
  obtain ⟨c, live', rfl⟩ := modifyPcb_eq_ok.mp parked
  have same : c = b := by
    rw [queueEnqueue_heap, queueEnqueue_heap, log_heap] at live'
    exact Option.some.inj (live'.symm.trans live)
  subst same
  have frame := TtyFrame.dispatch switched
  have current : (((((s.log (.ttyReadBlocked s.currentProcess tty (env.mallocOk
      s.mallocCalls))).queueEnqueue env (.readers tty) s.currentProcess).queueEnqueue env .blocked
        s.currentProcess).setPcb s.currentProcess
          { c with state := .blocked, ttyReadBuf := buf, ttyReadLen := len }).currentProcess =
      s.currentProcess) := by simp
  obtain ⟨inKernel, state, found⟩ := dispatch_parks
    (b := { c with state := .blocked, ttyReadBuf := buf, ttyReadLen := len })
    (by rw [current, setPcb_heap, Function.update_self]) switched
  rw [current] at found
  have away : ¬ u.Runs s.currentProcess := by
    rintro ⟨user, -⟩
    rw [inKernel] at user
    cases user
  refine ⟨away, ?_⟩
  by_cases allocated : env.mallocOk s.mallocCalls = true
  · refine Or.inl ⟨_, found, rfl, rfl, .waiting context ?_ ?_⟩
    · rw [frame.queues (.readers tty) rfl]
      simp [allocated]
    · rw [readHistory_of_frame frame]
      have recorded := readHistory_log_own s (p := s.currentProcess)
        (e := .ttyReadBlocked s.currentProcess tty true) (decide_eq_true rfl)
      rw [allocated]
      simpa [readHistory] using recorded
  · have failed : env.mallocOk s.mallocCalls = false := by simpa using allocated
    refine Or.inr ⟨s.mallocCalls, failed, ?_⟩
    have once := known.registered.once s.currentProcess known.notIdle
    have moved := Sched.registrations_dispatch (p := s.currentProcess) 0 (dispatch_sched switched)
      (by rw [view]; simpa using known.notIdle) fun isExit => by cases isExit
    have unchanged : ((s.sched.push false (.readers tty) s.currentProcess).push
        (env.mallocOk (s.mallocCalls + 1)) .blocked s.currentProcess).registrations
          s.currentProcess = s.sched.registrations s.currentProcess := by
      rw [Sched.registrations_push_blocked]
      have same : s.sched.push false (.readers tty) s.currentProcess = s.sched := by
        rw [Sched.push, if_neg Bool.false_ne_true, Sched.setQueue, Function.update_eq_self]
      rw [same]
    rw [view, sched_queueEnqueue, sched_queueEnqueue, sched_log_other rfl,
      queueEnqueue_mallocCalls, log_mallocCalls, failed, unchanged] at moved
    simp only [Sched.push_current, sched_current, Tally.same_self, Nat.zero_mul] at moved
    omega

theorem ReadKnown.saved (known : ReadKnown env p s) (h : s.saveContext = .ok t) :
    ReadKnown env p t := by
  have view := sched_saveContext h
  have intact := (SameChannels.modifyPcb h).intact known.stream
  obtain ⟨b, -, rfl⟩ := saveContext_eq_ok.mp h
  exact ⟨by rw [view]; exact known.registered, known.table, intact, known.notIdle⟩

/-- A call of `TtyRead` comes back at once or blocks the caller. -/
theorem trapTtyRead_begins (known : ReadKnown env s.currentProcess s) (user : s.mode = .user)
    (h : s.trapTtyRead env = .ok t) :
    (∃ tty len, ttyArguments (s.ctx.intReg 0) (s.ctx.regs 1) (s.ctx.intReg 2) = some (tty, len) ∧
      ReadAway env s.currentProcess tty (s.ctx.regs 1) len s.ctx
        (s.readHistory s.currentProcess) t) ∨
    t.Runs s.currentProcess ∧
      ReadBack env s.currentProcess s.ctx (s.readHistory s.currentProcess) t := by
  unfold trapTtyRead at h
  simp only at h
  by_cases checked : checkBuffer (s.ctx.regs 1) (s.ctx.regs 2) = true
  · rw [if_pos checked] at h
    simp only [bind_eq_ok] at h
    obtain ⟨u, saved, result, called, h⟩ := h
    have known' := known.saved saved
    obtain ⟨b, live, rfl⟩ := saveContext_eq_ok.mp saved
    have live' : (s.setPcb s.currentProcess { b with userContext := s.ctx }).heap
        s.currentProcess = some { b with userContext := s.ctx } := Function.update_self ..
    unfold ttyRead at called
    rcases arguments : ttyArguments (s.ctx.intReg 0) (s.ctx.regs 1) (s.ctx.intReg 2) with
      _ | ⟨tty, len⟩
    · rw [arguments] at called h
      cases called
      obtain ⟨c, found, rfl⟩ := returnToUser_eq_ok.mp h
      obtain rfl := Option.some.inj (found.symm.trans live')
      exact Or.inr ⟨⟨rfl, rfl⟩, _, rfl, .refused (Or.inr arguments)⟩
    · rw [arguments] at called h
      have valid := ttyArguments_some arguments
      rcases ttyReadValid_eq_ok called with ⟨-, failed, rfl⟩ |
        ⟨available, -, n, c, amount, found, rfl⟩ | ⟨-, v, w, parked, switched, rfl⟩
      · simp only [finish] at h
        obtain ⟨runs, returned⟩ := unpackRead_nothing
          (s := ((s.setPcb s.currentProcess { b with userContext := s.ctx }).malloc env).2) live'
          (by decide) h
        exact Or.inr ⟨runs, _, returned, .noMemory failed (Or.inl rfl)⟩
      · simp only [finish] at h
        obtain rfl := Option.some.inj (found.symm.trans live')
        obtain ⟨runs, block, returned, nonempty, fits, own, copied⟩ := takeBlock_back
          (s := s.setPcb s.currentProcess { b with userContext := s.ctx }) known' (by omega)
          available amount h
        have asked : s.ctx.intReg 2 = (len : Int) := by omega
        rw [asked] at own
        refine Or.inr ⟨runs, _, returned, .read arguments nonempty fits (Or.inl rfl) ?_ copied⟩
        rw [List.append_nil]
        exact own
      · cases h
        have away := blockReader_away
          (s := s.setPcb s.currentProcess { b with userContext := s.ctx }) known' live' rfl parked
          switched
        exact Or.inl ⟨tty, len, rfl, away⟩
  · rw [if_neg checked] at h
    cases h
    have refused : checkBuffer (s.ctx.regs 1) (s.ctx.regs 2) = false := by simpa using checked
    exact Or.inr ⟨⟨user, rfl⟩, _, rfl, .refused (Or.inl refused)⟩

/-! ### Runs -/

theorem readKnown_reaches (distinct : Function.Injective env.helperNewPid)
    (started : kernelStart env cfg = .ok boot)
    (run : Reaches (Guarded (Step env) ExitsWritten) boot s) (notIdle : p ≠ boot.idleProc) :
    ReadKnown env p s := by
  have idle := idleProc_reaches distinct started run
  exact
    { registered := registered_reaches distinct started run
      table := table_reaches distinct started run
      stream := stream_reaches distinct started run
      notIdle := by rw [idle]; exact notIdle }

/-- From the trap of a call of `TtyRead` to the caller's first return to user mode. -/
theorem read_returns {req : LoadRequest} (distinct : Function.Injective env.helperNewPid)
    (started : kernelStart env cfg = .ok boot)
    (run : Reaches (Guarded (Step env) ExitsWritten) boot s) (code : ctx.code = yalnixTtyRead)
    (call : Step env s (.kernelTrap ctx req) u)
    (away : Reaches (Guarded (Step env) (Absent s.currentProcess)) u t)
    (returned : t.Runs s.currentProcess) :
    ReadBack env s.currentProcess ctx (s.readHistory s.currentProcess) t := by
  have notIdle : s.currentProcess ≠ boot.idleProc := by
    rw [← idleProc_reaches distinct started run]
    exact call.1.2
  have guarded : Guarded (Step env) ExitsWritten s (.kernelTrap ctx req) u := by
    refine ⟨fun exits => ?_, call⟩
    have clash : yalnixTtyRead = yalnixExit := code.symm.trans exits
    exact absurd clash (by decide)
  have known : ∀ {v : Kernel}, Reaches (Guarded (Step env) ExitsWritten) boot v →
      ReadKnown env s.currentProcess v :=
    fun reached => readKnown_reaches distinct started reached notIdle
  have before := known run
  have ran : (s.trap ctx).trapTtyRead env = .ok u := by
    have same : (s.trap ctx).kernelTrapHandler env req = (s.trap ctx).trapTtyRead env :=
      kernelTrapHandler_ttyRead code
    exact same.symm.trans call.2
  have entered : ReadKnown env s.currentProcess (s.trap ctx) :=
    ⟨before.registered, before.table, before.stream, before.notIdle⟩
  have begun := trapTtyRead_begins (s := s.trap ctx) entered call.1.1 ran
  have start := run.tail guarded
  rcases begun with ⟨tty, len, arguments, blocked⟩ | ⟨runs, back⟩
  · have positive : 0 < len := by
      have valid := ttyArguments_some arguments
      omega
    have later : ∀ v, Reaches (Guarded (Step env) ExitsWritten) u v →
        ReadKnown env s.currentProcess v := fun v reached => known (start.trans reached)
    exact first_return later (fun v waits => waits.away)
      (fun v i w known' _ waits other step => waits.elsewhere distinct positive known' other step)
      (fun v w known' _ waits current h => Or.inr (waits.resumes arguments known' current h))
      blocked away returned
  · rw [already_returned runs away]
    exact back

end Kernel

end Yalnix
