/-
Module: Yalnix.Proofs.FailedWrites
Purpose: TtyWrite hands the terminal over in two places.  Where its allocation failed, the next
  writer keeps its entry in the blocked queue and the terminal is up for grabs; as long as no such
  writer waits, nobody is entered twice in the ready or the blocked queue.
Trusted boundary: the pids of the hardware library do not repeat
Main exports: Sched.Spotted, Kernel.WriteFails, Kernel.FailedWriteIntact, failed_writes_intact,
  failed_write_unprotected
-/
import Yalnix.Proofs.UserContexts

namespace Yalnix

open Tally

/-! ### Where a process stands -/

namespace Sched

/-- Being current, and the entries in the ready and the blocked queue. -/
def spots (s : Sched) (p : PcbPtr) : Nat :=
  same s.current p + (s.queues .ready).count p + (s.queues .blocked).count p

/-- Nobody has two spots.  Idle is neither blocked nor a writer, and nobody reads. -/
structure Spotted (s : Sched) : Prop where
  once : ∀ p, s.spots p ≤ 1
  blocked : ∀ p ∈ s.queues .blocked, p ≠ s.idleProc ∧ p < s.nextPcb
  writers : ∀ tty, s.idleProc ∉ s.queues (.writers tty)
  readers : ∀ tty, s.queues (.readers tty) = []

/-- The process neither runs nor is ready. -/
def Off (s : Sched) (p : PcbPtr) : Prop := same s.current p + (s.queues .ready).count p = 0

variable {env : Env} {limits : Limits} {s t s' : Sched} {p q : PcbPtr}

/-- A process that a terminal refers to is off. -/
theorem Registered.off_of_tty (known : Registered env s) (notIdle : p ≠ s.idleProc)
    (referred : 1 ≤ s.ttyEntries p) : s.Off p := by
  have once := known.once p notIdle
  simp only [registrations] at once
  unfold Off
  omega

/-- So is one whose delay has not ended. -/
theorem Registered.off_of_delayed (known : Registered env s) (notIdle : p ≠ s.idleProc) {b : Proc}
    (live : s.procs p = some b) (delayed : 0 < b.delayTicks) : s.Off p := by
  have once := known.once p notIdle
  have counted : b.delayed = 1 := if_pos delayed
  simp only [registrations, live, pcbEntries, Proc.entries] at once
  unfold Off
  omega

namespace Spotted

/-- Only the current process and four kinds of queues matter. -/
theorem of_same (inv : Spotted s) (current : t.current = s.current)
    (idle : t.idleProc = s.idleProc) (nextPcb : t.nextPcb = s.nextPcb)
    (queues : ∀ queue, queue ≠ .zombie → (∀ z, queue ≠ .children z) →
      t.queues queue = s.queues queue) : Spotted t where
  once p := by
    have once := inv.once p
    rw [spots, current, queues .ready (by simp) (by simp), queues .blocked (by simp) (by simp)]
    exact once
  blocked p member := by
    rw [queues .blocked (by simp) (by simp)] at member
    rw [idle, nextPcb]
    exact inv.blocked p member
  writers tty := by
    rw [idle, queues (.writers tty) (by simp) (by simp)]
    exact inv.writers tty
  readers tty := by
    rw [queues (.readers tty) (by simp) (by simp)]
    exact inv.readers tty

theorem setProc (inv : Spotted s) (b : Proc) : Spotted (s.setProc q b) :=
  inv.of_same rfl rfl rfl fun _ _ _ => rfl

theorem setWriter (inv : Spotted s) (tty : TtyId) (w : Option PcbPtr) :
    Spotted (s.setWriter tty w) := inv.of_same rfl rfl rfl fun _ _ _ => rfl

theorem toUser (inv : Spotted s) : Spotted s.toUser := inv.of_same rfl rfl rfl fun _ _ _ => rfl

theorem log (inv : Spotted s) (e : Event) : Spotted (s.log e) :=
  inv.of_same rfl rfl rfl fun _ _ _ => rfl

/-- The queues of the writers give no spot. -/
theorem setWriters (inv : Spotted s) (tty : TtyId) {entries : List PcbPtr}
    (others : s.idleProc ∉ entries) : Spotted (s.setQueue (.writers tty) entries) where
  once p := by
    have once := inv.once p
    simpa [spots] using once
  blocked p member := by
    simp only [setQueue_queues, ne_eq, reduceCtorEq, not_false_eq_true,
      Function.update_of_ne] at member
    exact inv.blocked p member
  writers tty' := by
    by_cases equal : tty' = tty
    · subst equal
      rw [setQueue_queues, Function.update_self]
      exact others
    · rw [setQueue_queues, Function.update_of_ne (by simpa using equal)]
      exact inv.writers tty'
  readers tty' := by
    rw [setQueue_queues, Function.update_of_ne (by simp)]
    exact inv.readers tty'

theorem popWriter (inv : Spotted s) {tty : TtyId} {rest : List PcbPtr}
    (line : s.queues (.writers tty) = q :: rest) : Spotted (s.setQueue (.writers tty) rest) := by
  apply inv.setWriters tty
  intro member
  apply inv.writers tty
  rw [line]
  exact List.mem_cons_of_mem q member

theorem pushWriter (inv : Spotted s) (tty : TtyId) (kept : Bool) (busy : q ≠ s.idleProc) :
    Spotted (s.push kept (.writers tty) q) := by
  apply inv.setWriters tty
  intro member
  split at member
  · rcases List.mem_append.mp member with old | new
    · exact inv.writers tty old
    · exact busy (List.mem_singleton.mp new).symm
  · exact inv.writers tty member

/-- A process that was off leaves the blocked queue and becomes ready. -/
theorem wake (inv : Spotted s) (off : s.Off q) (kept : Bool) :
    Spotted ((s.remove .blocked q).push kept .ready q) where
  once p := by
    have once := inv.once p
    unfold Off at off
    simp only [spots, push_current, push_queues, remove_current, remove_queues, ne_eq,
      reduceCtorEq, not_false_eq_true, Function.update_of_ne, Function.update_self,
      count_push, count_remove] at once ⊢
    by_cases equal : q = p
    · subst equal
      rw [same_self]
      split
      · omega
      · omega
    · rw [same_of_ne equal, ite_self]
      omega
  blocked p member := by
    simp only [push_queues, remove_queues, ne_eq, reduceCtorEq, not_false_eq_true,
      Function.update_of_ne, Function.update_self] at member
    exact inv.blocked p (List.mem_of_mem_erase member)
  writers tty := by
    simpa using inv.writers tty
  readers tty := by
    simpa using inv.readers tty

/-- The current process blocks and the next one, or idle, gets the processor. -/
theorem block (inv : Spotted s) {kc : KernelContext} {kept : Bool} (busy : s.current ≠ s.idleProc)
    (known : s.current < s.nextPcb)
    (switch : Dispatch kc (s.push kept .blocked s.current) s') : Spotted s' := by
  have count : ∀ p, ((s.push kept .blocked s.current).queues .blocked).count p ≤
      (s.queues .blocked).count p + same s.current p := by
    intro p
    rw [push_queues, Function.update_self, count_push]
    split
    · omega
    · omega
  have members : ∀ p ∈ (s.push kept .blocked s.current).queues .blocked,
      p ≠ s.idleProc ∧ p < s.nextPcb := by
    intro p member
    rw [push_queues, Function.update_self] at member
    split at member
    · rcases List.mem_append.mp member with old | new
      · exact inv.blocked p old
      · rw [List.mem_singleton.mp new]
        exact ⟨busy, known⟩
    · exact inv.blocked p member
  generalize pushed : s.push kept .blocked s.current = u at switch count members
  have current : u.current = s.current := by rw [← pushed]; rfl
  have idle : u.idleProc = s.idleProc := by rw [← pushed]; rfl
  have nextPcb : u.nextPcb = s.nextPcb := by rw [← pushed]; rfl
  have others : ∀ queue, queue ≠ .blocked → u.queues queue = s.queues queue := by
    intro queue other
    rw [← pushed, push_queues, Function.update_of_ne other]
  cases switch with
  | @next b n r rest live ready found =>
      rw [others .ready (by simp)] at ready
      constructor
      case once =>
        intro p
        have once := inv.once p
        have counted := count p
        simp only [spots, ready, count_pop] at once
        simp only [spots, enter_current, enter_queues, setProc_queues, setQueue_queues,
          Function.update_self, ne_eq, reduceCtorEq, not_false_eq_true, Function.update_of_ne]
        omega
      case blocked => simpa [idle, nextPcb] using members
      case writers => simpa [idle, others] using inv.writers
      case readers => simpa [others] using inv.readers
  | @idle b n live ready found =>
      constructor
      case once =>
        intro p
        have once := inv.once p
        have counted := count p
        simp only [spots, enter_current, enter_queues, setProc_queues, ready, List.count_nil]
        by_cases isIdle : p = s.idleProc
        · have outside : (u.queues .blocked).count p = 0 :=
            List.count_eq_zero.mpr fun member => (members p member).1 isIdle
          have atMost := same_le_one u.idleProc p
          omega
        · rw [idle, same_of_ne (Ne.symm isIdle)]
          simp only [spots] at once
          omega
      case blocked => simpa [idle, nextPcb] using members
      case writers => simpa [idle, others] using inv.writers
      case readers => simpa [others] using inv.readers

/-- The clock gives the processor to the next ready process. -/
theorem preempt (inv : Spotted s) {rest : List PcbPtr} (ready : s.queues .ready = q :: rest)
    (kept : Bool) (b : Proc) :
    Spotted ((((s.setQueue .ready rest).push kept .ready s.current).setProc s.current b).enter
      q) where
  once p := by
    have once := inv.once p
    simp only [spots, ready, count_pop] at once
    simp only [spots, enter_current, enter_queues, setProc_queues, push_queues, setQueue_queues,
      Function.update_self, count_push, ne_eq, reduceCtorEq, not_false_eq_true,
      Function.update_of_ne]
    split
    · omega
    · omega
  blocked := by simpa using inv.blocked
  writers := by simpa using inv.writers
  readers := by simpa using inv.readers

/-- A new process has no spot but the one that it gets. -/
theorem spawn (inv : Spotted s) (known : Registered env s) (other : s.current ≠ s.nextPcb)
    (b : Proc) (inReady inChildren : Bool) : Spotted (s.spawn env b inReady inChildren) where
  once p := by
    have once := inv.once p
    simp only [spots, spawn_current, spawn_queues, ne_eq, reduceCtorEq, not_false_eq_true,
      Function.update_of_ne, Function.update_self, count_push] at once ⊢
    by_cases new : p = s.nextPcb
    · subst new
      have absent := known.fresh s.nextPcb (Nat.le_refl _)
      have registered := known.once s.nextPcb (Nat.ne_of_gt known.idle)
      have blocked : (s.queues .blocked).count s.nextPcb = 0 :=
        List.count_eq_zero.mpr fun member => Nat.lt_irrefl _ (inv.blocked _ member).2
      simp only [registrations, absent, pcbEntries] at registered
      rw [same_self, same_of_ne other, blocked]
      split
      · omega
      · omega
    · rw [same_of_ne (Ne.symm new), ite_self]
      omega
  blocked p member := by
    simp only [spawn_queues, ne_eq, reduceCtorEq, not_false_eq_true,
      Function.update_of_ne] at member
    obtain ⟨notIdle, below⟩ := inv.blocked p member
    exact ⟨notIdle, Nat.lt_succ_of_lt below⟩
  writers := by simpa using inv.writers
  readers := by simpa using inv.readers

end Spotted

end Sched

/-! ### Steps of the machine -/

/-- The terminal that a process inside `TtyWrite` waits for. -/
def KernelContext.awaited : KernelContext → Option TtyId
  | .ttyWriteLock tty _ _ => some tty
  | _ => none

theorem KernelContext.awaited_eq_some {kc : KernelContext} {tty : TtyId} :
    kc.awaited = some tty ↔ ∃ buf len, kc = .ttyWriteLock tty buf len := by
  constructor
  · intro awaits
    cases kc with
    | ttyWriteLock tty' buf len =>
        cases awaits
        exact ⟨buf, len, rfl⟩
    | _ => cases awaits
  · rintro ⟨buf, len, rfl⟩
    rfl

namespace Kernel

open Transition

variable {env : Env} {cfg : BootConfig} {boot s t s' : Kernel} {tty : TtyId}

/-- The step enters `BeginTtyTransmit`: `TtyWrite` finds the terminal free, or its caller comes back
from waiting for the terminal. -/
def BeginsWrite (s : Kernel) (tty : TtyId) : Input → Prop
  | .kernelTrap ctx _ => ctx.code = yalnixTtyWrite ∧
      checkBuffer (ctx.regs 1) (ctx.regs 2) = true ∧
      (ttyArguments (ctx.intReg 0) (ctx.regs 1) (ctx.intReg 2)).map Prod.fst = some tty ∧
      (s.terminals tty).inUse = false
  | .resume => ∃ c ∈ s.heap s.currentProcess, c.kernelContext.awaited = some tty
  | _ => False

instance (s : Kernel) (tty : TtyId) : (i : Input) → Decidable (s.BeginsWrite tty i)
  | .kernelTrap ctx _ => inferInstanceAs (Decidable (ctx.code = yalnixTtyWrite ∧
      checkBuffer (ctx.regs 1) (ctx.regs 2) = true ∧
      (ttyArguments (ctx.intReg 0) (ctx.regs 1) (ctx.intReg 2)).map Prod.fst = some tty ∧
      (s.terminals tty).inUse = false))
  | .resume => inferInstanceAs (Decidable
      (∃ c ∈ s.heap s.currentProcess, c.kernelContext.awaited = some tty))
  | .clockTrap _ | .memoryTrap _ | .mathTrap _ | .illegalTrap _ | .ttyReceiveTrap ..
  | .ttyTransmitTrap .. | .userStore .. | .kernelBrk _ => inferInstanceAs (Decidable False)

/-- The step enters `BeginTtyTransmit`, whose `malloc` fails. -/
def WriteFails (env : Env) (s : Kernel) (tty : TtyId) (i : Input) : Prop :=
  s.BeginsWrite tty i ∧ env.mallocOk s.mallocCalls = false

instance (s : Kernel) (tty : TtyId) (i : Input) : Decidable (s.WriteFails env tty i) :=
  inferInstanceAs (Decidable (s.BeginsWrite tty i ∧ env.mallocOk s.mallocCalls = false))

/-- Processes fork and write, and whoever finds no memory for its write finds nobody waiting for the
terminal. -/
def UncontendedFailures (env : Env) (s : Kernel) (i : Input) : Prop :=
  i.among [yalnixFork, yalnixTtyWrite] = true ∧
    ∀ tty, s.WriteFails env tty i → s.queues (.writers tty) = []

/-- What one step relies on and keeps. -/
structure Orderly (env : Env) (s : Kernel) : Prop where
  registered : Sched.Registered env s.sched
  spotted : Sched.Spotted s.sched

theorem Orderly.of_sched (inv : s.Orderly env) (same : t.sched = s.sched) : t.Orderly env := by
  constructor
  · rw [same]
    exact inv.registered
  · rw [same]
    exact inv.spotted

theorem Orderly.shift {limits : Limits} (inv : s.Orderly env)
    (shift : Sched.Shift env limits s.sched t.sched) (spotted : Sched.Spotted t.sched) :
    t.Orderly env :=
  ⟨inv.registered.steady shift.steady fun _ notIdle =>
    shift.registrations_le notIdle, spotted⟩

/-- One visit of the clock handler to the blocked queue. -/
theorem orderly_trapHandlerHelper {p : PcbPtr} (inv : s.Orderly env) (notIdle : p ≠ s.idleProc)
    (h : s.trapHandlerHelper env p = .ok t) : t.Orderly env ∧ t.idleProc = s.idleProc := by
  obtain ⟨b, live, ⟨-, rfl⟩ | ⟨many, rfl⟩ | ⟨one, rfl⟩⟩ := trapHandlerHelper_eq_ok h
  · exact ⟨inv, rfl⟩
  · have shift : Sched.Shift env exitLimits s.sched
        (s.setPcb p { b with delayTicks := b.delayTicks - 1 }).sched := by
      rw [sched_setPcb]
      exact .tick (procs_of_heap live) many
    refine ⟨inv.shift shift ?_, rfl⟩
    rw [sched_setPcb]
    exact inv.spotted.setProc _
  · have shift : Sched.Shift env exitLimits s.sched
        (((s.setPcb p { b with delayTicks := 0, state := .ready }).queueRemove .blocked
          p).queueEnqueue env .ready p).sched := by
      rw [sched_queueEnqueue, sched_queueRemove, sched_setPcb]
      exact .wakeDelayed (procs_of_heap live) one
    refine ⟨inv.shift shift ?_, by simp⟩
    have delayed : 0 < b.proc.delayTicks := by
      have counts : b.proc.delayTicks = b.delayTicks := rfl
      omega
    have off := inv.registered.off_of_delayed notIdle (procs_of_heap live) delayed
    rw [sched_queueEnqueue, sched_queueRemove, sched_setPcb]
    exact (inv.spotted.setProc _).wake off _

theorem orderly_iterateBlocked {blocked : List PcbPtr} (inv : s.Orderly env)
    (others : ∀ p ∈ blocked, p ≠ s.idleProc) (h : iterateBlocked env blocked s = .ok t) :
    t.Orderly env := by
  induction blocked generalizing s with
  | nil =>
      cases h
      exact inv
  | cons process rest inductionHypothesis =>
      simp only [iterateBlocked, bind_eq_ok] at h
      obtain ⟨u, visited, h⟩ := h
      obtain ⟨inv', idle⟩ :=
        orderly_trapHandlerHelper inv (others process List.mem_cons_self) visited
      refine inductionHypothesis inv' ?_ h
      intro p member
      rw [idle]
      exact others p (List.mem_cons_of_mem process member)

theorem spotted_clockTrapHandler (inv : s.Orderly env) (h : s.clockTrapHandler env = .ok s') :
    Sched.Spotted s'.sched := by
  obtain ⟨saved, t, savedEq, iterated, tail⟩ := clockTrapHandler_eq_ok h
  have view := sched_saveContext savedEq
  have start := inv.of_sched view
  have inv' : t.Orderly env :=
    orderly_iterateBlocked start (fun p member => (start.spotted.blocked p member).1) iterated
  have current : s.currentProcess = t.sched.current := by
    rw [(iterateBlocked_moves exitLimits iterated).2.2, view]
    rfl
  rcases tail with ⟨-, restored⟩ | ⟨next, rest, c, ready, live, tail⟩
  · rw [sched_restoreContext restored]
    exact inv'.spotted.toUser
  · rcases tail with ⟨-, -, u, readied, switched⟩ | ⟨-, switched⟩
    · obtain ⟨d, n, -, -, view'⟩ := sched_kcSwitch switched
      rw [view', sched_queueEnqueue, sched_modifyPcb_self readied fun _ => rfl, sched_setQueue,
        current]
      exact inv'.spotted.preempt ready _ _
    · obtain ⟨d, n, -, -, view'⟩ := sched_kcSwitch switched
      have unkept : t.sched.setQueue .ready rest =
          (t.sched.setQueue .ready rest).push false .ready t.sched.current := by
        simp [Sched.push, Sched.setQueue]
      rw [view', sched_setQueue, unkept, current]
      exact inv'.spotted.preempt ready false _

/-- Handing the terminal over takes the next writer out of the blocked queue. -/
theorem spotted_handOver (inv : s.Orderly env) (h : HandOver env s tty t) :
    Sched.Spotted t.sched := by
  cases h with
  | free none =>
      rw [sched_setTerminal_self (by rfl)]
      exact inv.spotted
  | @next q rest u line readied =>
      have referred := Sched.ttyEntries_pop (s := s.sched) (p := q)
        (Or.inr (rfl : _ = QueueId.writers tty)) line
      rw [same_self] at referred
      have waits : q ∈ s.sched.queues (.writers tty) := by
        rw [sched_queues, line]
        exact List.mem_cons_self
      have notIdle : q ≠ s.idleProc := by
        rintro rfl
        exact inv.spotted.writers tty waits
      have off := inv.registered.off_of_tty notIdle (by omega)
      rw [sched_queueEnqueue, sched_queueRemove, sched_modifyPcb_self readied fun _ => rfl,
        sched_setQueue]
      exact (inv.spotted.popWriter line).wake off _

theorem spotted_ttyTrapTransmitHandler (inv : s.Orderly env) (calm : s.Calm s.idleProc)
    (h : s.ttyTrapTransmitHandler env tty = .ok s') : Sched.Spotted s'.sched := by
  have logged : (s.log (.ttyTransmitTrap tty)).sched = s.sched := sched_log_other rfl
  have cleared : ((s.log (.ttyTransmitTrap tty)).clearWrite tty).sched =
      s.sched.setWriter tty none := by
    rw [sched_clearWrite, logged]
  cases ttyTrapTransmitHandler_eq_ok h with
  | chunk left =>
      rw [nextChunk, sched_setTerminal_self (by rfl), ttyTransmit, sched_log_other rfl, logged]
      exact inv.spotted
  | unowned through none handed =>
      refine spotted_handOver (inv.of_sched ?_) handed
      have unowned : s.sched.writer tty = Option.none := none
      rw [cleared, ← unowned]
      exact Sched.setWriter_self
  | @owned w t _ through some woken handed =>
      obtain ⟨b, live, -⟩ := modifyPcb_eq_ok.mp woken
      have view : ((t.queueRemove .blocked w).queueEnqueue env .ready w).sched =
          ((s.sched.setWriter tty Option.none).remove .blocked w).push
            (env.mallocOk (t.queueRemove .blocked w).mallocCalls) .ready w := by
        rw [sched_queueEnqueue, sched_queueRemove, sched_modifyPcb_self woken fun _ => rfl, cleared]
      have referred := Sched.ttyEntries_clearWriter (s := s.sched) (p := w) some
      rw [same_self] at referred
      have notIdle : w ≠ s.idleProc := by
        rintro rfl
        exact calm.writer tty some
      have off := inv.registered.off_of_tty notIdle (by omega)
      have shift : Sched.Shift env exitLimits s.sched
          ((t.queueRemove .blocked w).queueEnqueue env .ready w).sched := by
        rw [view]
        exact .wakeWriting (procs_of_heap (s := s) live) some
      refine spotted_handOver (inv.shift shift ?_) handed
      rw [view]
      exact (inv.spotted.setWriter tty Option.none).wake off _

/-- With the terminal its own, a writer blocks, or finds no memory and nobody waiting. -/
theorem spotted_ttyWriteLocked {buf : Word} {len : Nat} {result : Option Int × Kernel}
    (inv : s.Orderly env) (busy : s.currentProcess ≠ s.idleProc)
    (alone : env.mallocOk s.mallocCalls = false → s.queues (.writers tty) = [])
    (h : s.ttyWriteLocked env tty buf len = .ok result) : Sched.Spotted result.2.sched := by
  obtain ⟨b, live, outcome⟩ := ttyWriteLocked_eq_ok h
  rcases outcome with ⟨-, -, rfl⟩ | ⟨failed, next, rest, u, line, -, -⟩ |
    ⟨-, bytes, u, -, switched, rfl⟩
  · rw [sched_refuseWrite live]
    exact inv.spotted
  · rw [alone failed] at line
    cases line
  · have known := inv.registered.known (procs_of_heap live)
    have switch := dispatch_sched switched
    rw [sched_beginWrite live] at switch
    exact (inv.spotted.setWriter tty _).block busy known switch

theorem spotted_ttyWriteValid {buf : Word} {len : Nat} {result : Option Int × Kernel}
    (inv : s.Orderly env) (busy : s.currentProcess ≠ s.idleProc)
    (alone : (s.terminals tty).inUse = false → env.mallocOk s.mallocCalls = false →
      s.queues (.writers tty) = [])
    (h : s.ttyWriteValid env tty buf len = .ok result) : Sched.Spotted result.2.sched := by
  unfold ttyWriteValid at h
  by_cases locked : (s.terminals tty).inUse = true
  · simp only [log_terminals, locked, if_true, bind_eq_ok, pure_eq_ok] at h
    obtain ⟨t, blocked, u, switched, rfl⟩ := h
    obtain ⟨b, live, -⟩ := modifyPcb_eq_ok.mp blocked
    rw [queueEnqueue_heap, log_heap] at live
    have known := inv.registered.known (procs_of_heap live)
    have view := sched_modifyPcb_self blocked fun _ => rfl
    have switch := dispatch_sched switched
    rw [sched_queueEnqueue, view, sched_queueEnqueue, sched_log_other rfl] at switch
    exact (inv.spotted.pushWriter tty _ busy).block busy known switch
  · have free : (s.terminals tty).inUse = false := by simpa using locked
    simp only [log_terminals, locked] at h
    have logged : (s.log (.ttyWriteCalled s.currentProcess tty
        (s.userBytes s.currentProcess buf len))).sched = s.sched := sched_log_other rfl
    exact spotted_ttyWriteLocked (inv.of_sched logged) busy (alone free) h

/-- What a call that came back still does leads to user mode. -/
theorem spotted_finish {result : Option Int × Kernel} {asked : Option TtyId}
    (inv : Sched.Spotted result.2.sched) (h : finish result (finishTtyWrite asked) = .ok s') :
    Sched.Spotted s'.sched := by
  rcases result with ⟨_ | rc, t⟩
  · cases h
    exact inv
  · rw [finishTtyWrite_sched h]
    exact inv.toUser

theorem spotted_trapTtyWrite (inv : s.Orderly env) (busy : s.currentProcess ≠ s.idleProc)
    (alone : ∀ tty, checkBuffer (s.ctx.regs 1) (s.ctx.regs 2) = true →
      (ttyArguments (s.ctx.intReg 0) (s.ctx.regs 1) (s.ctx.intReg 2)).map Prod.fst = some tty →
      (s.terminals tty).inUse = false → env.mallocOk s.mallocCalls = false →
      s.queues (.writers tty) = [])
    (h : s.trapTtyWrite env = .ok s') : Sched.Spotted s'.sched := by
  unfold trapTtyWrite at h
  by_cases accepted : checkBuffer (s.ctx.regs 1) (s.ctx.regs 2) = true
  · simp only [accepted, if_true, bind_eq_ok] at h
    obtain ⟨t, saved, result, written, h⟩ := h
    have inv' : t.Orderly env := inv.of_sched (sched_saveContext saved)
    obtain ⟨b, live, rfl⟩ := saveContext_eq_ok.mp saved
    refine spotted_finish ?_ h
    unfold ttyWrite at written
    rcases arguments : ttyArguments (s.ctx.intReg 0) (s.ctx.regs 1) (s.ctx.intReg 2) with
      _ | ⟨tty, len⟩
    · rw [arguments] at written
      cases written
      exact inv'.spotted
    · rw [arguments] at written
      exact spotted_ttyWriteValid inv' busy
        (fun free failed => alone tty accepted (by rw [arguments]; rfl) free failed) written
  · simp only [accepted] at h
    cases h
    exact inv.spotted

theorem spotted_trapFork (inv : s.Orderly env) (h : s.trapFork env = .ok s') :
    Sched.Spotted s'.sched := by
  simp only [trapFork, bind_eq_ok] at h
  obtain ⟨t, saved, ⟨status, u⟩, forked, h⟩ := h
  rcases fork_status forked with rfl | rfl
  · simp only [reduceCtorEq, if_false] at h
    have inv' : t.Orderly env := inv.of_sched (sched_saveContext saved)
    have other : t.currentProcess ≠ t.nextPcb := by
      obtain ⟨b, live, rfl⟩ := saveContext_eq_ok.mp saved
      exact Nat.ne_of_lt (inv.registered.known (procs_of_heap live))
    obtain ⟨i, p, m, pt, m', pages, current, free, parentLive, -, -, -, rfl⟩ :=
      fork_eq_ok other forked
    have parentLive' : Function.update t.heap t.nextPcb (some (forkedPcb env t p pt pages))
        t.currentProcess = some p := by
      rw [Function.update_of_ne other, parentLive]
    have spawned := inv'.spotted.spawn inv'.registered other p.proc
      (env.mallocOk (t.mallocCalls + 4)) (env.mallocOk (t.mallocCalls + 5))
    rw [Sched.spawn, sched_slotTaken free] at spawned
    rw [sched_restoreContext h, sched_setPcb_self (b := p) (by simpa using parentLive') (by rfl),
      sched_log_family rfl, sched_queueEnqueue, sched_queueEnqueue, sched_setQueue, sched_setPcb]
    simp only [queueEnqueue_mallocCalls, setQueue_mallocCalls, setPcb_mallocCalls]
    exact spawned.toUser
  · rw [if_pos rfl] at h
    cases h

/-- What is left of `Wait` touches the zombies and the children only. -/
theorem spotted_finishWait {statusPtr : Word} {rc : Int} {found : Option Int}
    (inv : Sched.Spotted s.sched) (scanned : s.waitScan statusPtr = .ok (found, t))
    (h : t.finishWait statusPtr rc = .ok s') : Sched.Spotted s'.sched := by
  rw [finishWait_sched h]
  refine Sched.Spotted.toUser (Sched.Spotted.log ?_ _)
  rcases waitScan_sched scanned with ⟨z, b, d, -, -, -, -, -, -, reaped⟩ | ⟨unchanged, -⟩
  · have view : t.sched =
        ((s.sched.remove (.children s.sched.current) z).remove .zombie z).delete z := reaped
    rw [view]
    refine inv.of_same rfl rfl rfl fun queue notZombie notChildren => ?_
    simp [notZombie, notChildren]
  · obtain ⟨-, rfl⟩ := Prod.mk.inj unchanged
    exact inv

/-- The child of a fork has a pid of its own, so that it is not queued again. -/
theorem spotted_forkReturn {c : PCB} {child parent : PcbPtr} (inv : s.Orderly env)
    (live : s.heap s.currentProcess = some c) (saved : c.kernelContext = .fork child parent)
    (h : s.forkReturn env child parent = .ok t) : Sched.Spotted t.sched := by
  simp only [forkReturn, bind_eq_ok, deref_eq_ok] at h
  obtain ⟨c', live', p, parentLive, h⟩ := h
  obtain rfl : c' = c := Option.some.inj (live'.symm.trans live)
  have differ : p.pid ≠ c'.pid :=
    (inv.registered.forked _ _ child parent (procs_of_heap live) saved).2.2 p.proc
      (procs_of_heap parentLive)
  rw [if_neg differ.symm] at h
  obtain ⟨d, -, rfl⟩ := modifyPcb_eq_ok.mp h
  rw [sched_setPcb]
  exact inv.spotted.setProc _

theorem spotted_resume (inv : s.Orderly env) (idle : s.IdleCalm)
    (alone : ∀ tty, s.WriteFails env tty .resume → s.queues (.writers tty) = [])
    (h : s.resume env = .ok s') : Sched.Spotted s'.sched := by
  simp only [resume, bind_eq_ok, deref_eq_ok] at h
  obtain ⟨c, live, h⟩ := h
  rcases saved : c.kernelContext with
    _ | _ | ⟨child, parent⟩ | _ | _ | statusPtr | ⟨tty, buf, len⟩ | ⟨tty, buf, len⟩ | ⟨tty, len⟩ |
      ⟨frame, origin⟩
  case unsaved =>
    rw [saved] at h
    cases h
  case kernelStart =>
    rw [saved] at h
    rw [sched_restoreContext h]
    exact inv.spotted.toUser
  case fork =>
    rw [saved] at h
    simp only [bind_eq_ok] at h
    obtain ⟨t, returned, h⟩ := h
    rw [sched_restoreContext h]
    exact (spotted_forkReturn inv live saved returned).toUser
  case clockTrap =>
    rw [saved] at h
    rw [sched_restoreContext h]
    exact inv.spotted.toUser
  case delay =>
    rw [saved] at h
    rw [sched_returnToUser h]
    exact inv.spotted.toUser
  case wait =>
    rw [saved] at h
    simp only [bind_eq_ok] at h
    obtain ⟨⟨rc, t⟩, resumed, h⟩ := h
    simp only [waitResumed, bind_eq_ok] at resumed
    obtain ⟨⟨found, u⟩, scanned, resumed⟩ := resumed
    rcases found with _ | pid
    · cases resumed
      exact spotted_finishWait inv.spotted scanned h
    · cases resumed
      exact spotted_finishWait inv.spotted scanned h
  case ttyRead =>
    rw [saved] at h
    rw [unpackRead_sched h]
    exact inv.spotted.toUser
  case ttyWriteLock =>
    rw [saved] at h
    simp only [bind_eq_ok] at h
    obtain ⟨result, locked, h⟩ := h
    have busy : s.currentProcess ≠ s.idleProc :=
      idle.ne_idle live (by simp [saved]) (by simp [saved])
    refine spotted_finish (spotted_ttyWriteLocked inv busy (fun failed => ?_) locked) h
    exact alone tty ⟨⟨c, live, KernelContext.awaited_eq_some.mpr ⟨buf, len, saved⟩⟩, failed⟩
  case ttyWriteDone =>
    rw [saved] at h
    rw [finishTtyWrite_sched h]
    exact inv.spotted.toUser
  case exit =>
    rw [saved] at h
    rcases origin with _ | _ | _
    · cases h
      exact inv.spotted.toUser
    · cases h
      exact inv.spotted.toUser
    · cases h

/-- Calls of `Fork` and `TtyWrite` do not exit. -/
theorem UncontendedFailures.exitsWritten {i : Input} (alone : s.UncontendedFailures env i) :
    s.ExitsWritten i := by
  intro calls
  cases i with
  | kernelTrap ctx req =>
      have code : ctx.code = yalnixExit := calls
      have among := alone.1
      simp [Input.among, code] at among
  | memoryTrap | mathTrap | illegalTrap => exact absurd alone.1 (by simp [Input.among])
  | _ => cases calls

/-- As long as failing writes find nobody waiting, no step gives a process a second spot. -/
theorem spotted_step {i : Input} (inv : s.Orderly env) (idle : s.IdleCalm)
    (alone : s.UncontendedFailures env i) (step : s.Step env i s') : Sched.Spotted s'.sched := by
  obtain ⟨among, alone⟩ := alone
  obtain ⟨enabled, h⟩ := step
  cases i with
  | kernelTrap ctx req =>
      have inv' : (s.trap ctx).Orderly env := inv.of_sched (sched_trap ctx)
      have code : ctx.code = yalnixFork ∨ ctx.code = yalnixTtyWrite := by
        simpa [Input.among] using among
      rcases code with isFork | isWrite
      · have ran : (s.trap ctx).trapFork env = .ok s' := by
          rw [← kernelTrapHandler_fork isFork]
          exact h
        exact spotted_trapFork inv' ran
      · have ran : (s.trap ctx).trapTtyWrite env = .ok s' := by
          rw [← kernelTrapHandler_ttyWrite isWrite]
          exact h
        refine spotted_trapTtyWrite inv' enabled.2 ?_ ran
        intro tty accepted arguments free failed
        exact alone tty ⟨⟨isWrite, accepted, arguments, free⟩, failed⟩
  | clockTrap ctx => exact spotted_clockTrapHandler (inv.of_sched (sched_trap ctx)) h
  | ttyReceiveTrap ctx tty data =>
      simp only [deliver, ttyTrapReceiveHandler] at h
      have nobody : (s.trap ctx).queues (.readers tty) = [] := inv.spotted.readers tty
      simp only [setTerminal_queues, log_queues, nobody, serveReaders] at h
      cases h
      rw [sched_setTerminal_self (by rfl), sched_log_other rfl]
      exact inv.spotted
  | ttyTransmitTrap ctx tty =>
      exact spotted_ttyTrapTransmitHandler (inv.of_sched (sched_trap ctx)) (idle.calm.trap ctx) h
  | resume => exact spotted_resume inv idle alone h
  | _ => cases among

theorem spotted_booted {ready : Bool} : Sched.Spotted (Sched.booted env ready) where
  once p := by
    cases ready with
    | false =>
        simp only [Sched.spots, Sched.booted_queue, Sched.booted_queues, Function.update_self,
          ne_eq, reduceCtorEq, not_false_eq_true]
        exact same_le_one _ _
    | true =>
        simp only [Sched.spots, Sched.booted_queue, Sched.booted_queues, Function.update_self,
          ne_eq, reduceCtorEq, not_false_eq_true, if_true, List.count_nil]
        by_cases init : p = 1
        · subst init
          have elsewhere : same (Sched.booted env true).current 1 = 0 :=
            same_of_ne (by exact Nat.zero_ne_one)
          have once : List.count 1 [1] = 1 := rfl
          omega
        · have absent : List.count p [1] = 0 := by simpa [List.count_eq_zero] using init
          have atMost := same_le_one (Sched.booted env true).current p
          omega
  blocked p member := by
    rw [Sched.booted_queue (by simp)] at member
    cases member
  writers tty := by
    rw [Sched.booted_queue (by simp)]
    exact List.not_mem_nil
  readers tty := Sched.booted_queue (by simp)

theorem spotted_reaches (distinct : Function.Injective env.helperNewPid)
    (started : kernelStart env cfg = .ok boot)
    (run : Reaches (Guarded (Step env) (UncontendedFailures env)) boot s) :
    Sched.Spotted s.sched := by
  induction run with
  | refl =>
      obtain ⟨ready, view⟩ := kernelStart_sched started
      rw [view]
      exact spotted_booted
  | @tail u v before last inductionHypothesis =>
      obtain ⟨i, alone, step⟩ := last
      have written : Reaches (Guarded (Step env) ExitsWritten) boot u :=
        Reaches.mono (fun _ _ _ taken => ⟨taken.1.exitsWritten, taken.2⟩) before
      exact spotted_step ⟨registered_reaches distinct started written, inductionHypothesis⟩
        (idleCalm_reaches distinct started written) alone step

/-! ### Failed writes -/

/-- Nobody is entered twice in the blocked queue, or twice in the ready queue. -/
def NobodyTwice (s : Kernel) : Prop :=
  ∀ p, (s.queues .blocked).count p ≤ 1 ∧ (s.queues .ready).count p ≤ 1

/-- What a failed write leaves: the caller runs on with its error, and if a writer waited, then the
terminal is in use and nobody's but the first such writer's, which waits in no queue any more. -/
structure FailedWriteIntact (s : Kernel) (tty : TtyId) (s' : Kernel) : Prop where
  answered : s'.Runs s.currentProcess ∧ s'.ctx.regs 0 = BitVec.ofInt 32 Status.error.code
  handed : ∀ next rest, s.queues (.writers tty) = next :: rest →
    (s'.terminals tty).inUse = true ∧
      (∀ w, (s'.terminals tty).currentWriter = some w → w = next) ∧
      s'.queues (.writers tty) = rest ∧ next ∉ s'.queues .blocked

/-- The end of the call answers the caller and touches no terminal. -/
theorem finishTtyWrite_answers {asked : Option TtyId} {rc : Int}
    (h : s.finishTtyWrite asked rc = .ok s') :
    s'.Runs s.currentProcess ∧ s'.ctx.regs 0 = BitVec.ofInt 32 rc ∧ s'.terminals = s.terminals := by
  cases asked with
  | none =>
      obtain ⟨b, -, rfl⟩ := returnToUser_eq_ok.mp h
      exact ⟨⟨rfl, rfl⟩, by simp [UserContext.setReturn], rfl⟩
  | some tty =>
      obtain ⟨b, -, rfl⟩ := returnToUser_eq_ok.mp h
      exact ⟨⟨rfl, rfl⟩, by simp [UserContext.setReturn], rfl⟩

/-- A failed write comes back with the error and sets the terminal free, whoever waits for it. -/
theorem ttyWriteLocked_fails {buf : Word} {len : Nat} {result : Option Int × Kernel}
    {asked : Option TtyId} (failed : env.mallocOk s.mallocCalls = false)
    (called : s.ttyWriteLocked env tty buf len = .ok result)
    (h : finish result (finishTtyWrite asked) = .ok s') :
    (s'.Runs s.currentProcess ∧ s'.ctx.regs 0 = BitVec.ofInt 32 Status.error.code) ∧
      (s'.terminals tty).inUse = false := by
  obtain ⟨b, live, outcome⟩ := ttyWriteLocked_eq_ok called
  rcases outcome with ⟨-, -, rfl⟩ | ⟨-, next, rest, u, -, readied, rfl⟩ | ⟨allocated, -⟩
  · obtain ⟨runs, result, terminals⟩ := finishTtyWrite_answers h
    refine ⟨⟨runs, result⟩, ?_⟩
    rw [terminals]
    simp [refuseWrite]
  · obtain ⟨c, -, rfl⟩ := modifyPcb_eq_ok.mp readied
    obtain ⟨runs, result, terminals⟩ := finishTtyWrite_answers h
    refine ⟨⟨by simpa [refuseWrite] using runs, result⟩, ?_⟩
    rw [terminals]
    simp [refuseWrite]
  · rw [failed] at allocated
    cases allocated

theorem writeFails_step {i : Input} (fails : s.WriteFails env tty i) (step : s.Step env i s') :
    (s'.Runs s.currentProcess ∧ s'.ctx.regs 0 = BitVec.ofInt 32 Status.error.code) ∧
      (s'.terminals tty).inUse = false := by
  obtain ⟨begins, failed⟩ := fails
  obtain ⟨-, h⟩ := step
  cases i with
  | kernelTrap ctx req =>
      obtain ⟨code, accepted, arguments, free⟩ := begins
      have ran : (s.trap ctx).trapTtyWrite env = .ok s' := by
        rw [← kernelTrapHandler_ttyWrite code]
        exact h
      obtain ⟨⟨asked, len⟩, valid, same⟩ := Option.map_eq_some_iff.mp arguments
      obtain rfl : asked = tty := same
      unfold trapTtyWrite at ran
      rw [if_pos (by exact accepted)] at ran
      simp only [bind_eq_ok] at ran
      obtain ⟨t, saved, result, written, ran⟩ := ran
      obtain ⟨b, live, rfl⟩ := saveContext_eq_ok.mp saved
      have valid' : ttyArguments ((s.trap ctx).ctx.intReg 0) ((s.trap ctx).ctx.regs 1)
          ((s.trap ctx).ctx.intReg 2) = some (asked, len) := valid
      have unlocked : ¬ ((s.trap ctx).terminals asked).inUse = true := by
        intro locked
        have taken : (s.terminals asked).inUse = true := locked
        rw [free] at taken
        cases taken
      unfold ttyWrite at written
      rw [valid'] at written
      simp only [ttyWriteValid, log_terminals, setPcb_terminals] at written
      rw [if_neg unlocked] at written
      have answered := ttyWriteLocked_fails (by exact failed) written ran
      exact answered
  | resume =>
      obtain ⟨c, live, awaits⟩ := begins
      obtain ⟨buf, len, saved⟩ := KernelContext.awaited_eq_some.mp awaits
      simp only [deliver, resume, bind_eq_ok, deref_eq_ok] at h
      obtain ⟨d, found, h⟩ := h
      obtain rfl := Option.some.inj (found.symm.trans live)
      rw [saved] at h
      simp only [bind_eq_ok] at h
      obtain ⟨result, locked, h⟩ := h
      exact ttyWriteLocked_fails failed locked h
  | _ => cases begins

/-- As long as no writer waits for the terminal when a write fails, nobody is entered twice in a
queue; and a failed write leaves what it should exactly if no writer waits. -/
theorem failed_writes_intact (distinct : Function.Injective env.helperNewPid)
    (started : kernelStart env cfg = .ok boot)
    (run : Reaches (Guarded (Step env) (UncontendedFailures env)) boot s) :
    s.NobodyTwice ∧ ∀ tty i s', s.WriteFails env tty i → s.Step env i s' →
      (s.FailedWriteIntact tty s' ↔ s.queues (.writers tty) = []) := by
  constructor
  · intro p
    have once := (spotted_reaches distinct started run).once p
    simp only [Sched.spots, sched_queues] at once
    omega
  · intro tty i s' fails step
    obtain ⟨answered, free⟩ := writeFails_step fails step
    constructor
    · intro intact
      rcases line : s.queues (.writers tty) with _ | ⟨next, rest⟩
      · rfl
      · have locked := (intact.handed next rest line).1
        rw [free] at locked
        cases locked
    · intro nobody
      refine ⟨answered, ?_⟩
      intro next rest line
      rw [nobody] at line
      cases line

/-- The sample machine when one allocation fails. -/
def failingEnv (call : Nat) : Env := { sampleEnv with mallocOk := fun k => k != call }

theorem failingEnv_distinct (call : Nat) : Function.Injective (failingEnv call).helperNewPid :=
  sampleEnv_distinct

/-- Write three bytes of the data page to the first terminal. -/
def writeCall : Input := .call yalnixTtyWrite 0 0x102000 3

/-- Init forks and finds no memory for a write. -/
theorem failed_writes_intact_sample : ∃ s s' : Kernel,
    s.WriteFails (failingEnv 16) 0 writeCall ∧ s.Step (failingEnv 16) writeCall s' ∧
      s.NobodyTwice ∧ s.FailedWriteIntact 0 s' := by
  have answer : runs (failingEnv 16) sampleBoot
      (fun s i => i.among [yalnixFork, yalnixTtyWrite] && (failingEnv 16).mallocOk s.mallocCalls)
      [.tick, .resume, .call yalnixFork 0 0 0]
      (fun s => decide (s.Enabled writeCall ∧ s.WriteFails (failingEnv 16) 0 writeCall ∧
        s.queues (.writers 0) = [] ∧ (s.deliver (failingEnv 16) writeCall).toBool = true)) =
        .ok true := by
    decide +kernel
  obtain ⟨boot, s, started, run, asked⟩ := runs_sound (UncontendedFailures (failingEnv 16))
    (fun s i checked => by
      rw [Bool.and_eq_true] at checked
      refine ⟨checked.1, fun tty fails => ?_⟩
      rw [fails.2] at checked
      cases checked.2) answer
  obtain ⟨enabled, fails, nobody, returns⟩ := of_decide_eq_true asked
  rcases delivered : s.deliver (failingEnv 16) writeCall with _ | s'
  · rw [delivered] at returns
    cases returns
  · have step : s.Step (failingEnv 16) writeCall s' := ⟨enabled, delivered⟩
    obtain ⟨once, intact⟩ := failed_writes_intact (failingEnv_distinct 16) started run
    exact ⟨s, s', fails, step, once, (intact 0 writeCall s' fails step).mpr nobody⟩

/-- Init writes, two children wait, and the first of them is handed the terminal. -/
def contendedWrites : List Input :=
  [.tick, .resume, .call yalnixFork 0 0 0, .call yalnixFork 0 0 0, writeCall, .resume, writeCall,
    .resume, writeCall, .resume, .ttyTransmitTrap UserContext.zero 0, .tick, .resume, .tick]

/-- A failed write sets the terminal free although a writer waits, and leaves that writer in the
blocked queue; when the caller writes again first, the writer is blocked a second time. -/
theorem failed_write_unprotected :
    (¬ ∀ env cfg boot s, Function.Injective env.helperNewPid → kernelStart env cfg = .ok boot →
      Reaches (Guarded (Step env) fun _ i => i.among [yalnixFork, yalnixTtyWrite]) boot s →
      ∀ tty i s', s.WriteFails env tty i → s.Step env i s' → s.FailedWriteIntact tty s') ∧
    ¬ ∀ env cfg boot s, Function.Injective env.helperNewPid → kernelStart env cfg = .ok boot →
      Reaches (Guarded (Step env) fun _ i => i.among [yalnixFork, yalnixTtyWrite]) boot s →
      s.NobodyTwice := by
  constructor
  · intro intact
    have answer : runs (failingEnv 31) sampleBoot
        (fun _ i => i.among [yalnixFork, yalnixTtyWrite]) contendedWrites
        (fun s => decide (s.Enabled .resume ∧ s.WriteFails (failingEnv 31) 0 .resume ∧
          s.queues (.writers 0) = [3] ∧ (s.deliver (failingEnv 31) .resume).toBool = true)) =
          .ok true := by
      decide +kernel
    obtain ⟨boot, s, started, run, asked⟩ := runs_sound _ (fun _ _ => id) answer
    obtain ⟨enabled, fails, waits, returns⟩ := of_decide_eq_true asked
    rcases delivered : s.deliver (failingEnv 31) .resume with _ | s'
    · rw [delivered] at returns
      cases returns
    · have step : s.Step (failingEnv 31) .resume s' := ⟨enabled, delivered⟩
      have kept := intact _ _ boot s (failingEnv_distinct 31) started run 0 .resume s' fails step
      have locked := (kept.handed 3 [] waits).1
      rw [(writeFails_step fails step).2] at locked
      cases locked
  · intro once
    have answer : runs (failingEnv 31) sampleBoot
        (fun _ i => i.among [yalnixFork, yalnixTtyWrite])
        (contendedWrites ++ [.resume, writeCall, .resume, .tick, .resume])
        (fun s => decide ((s.queues .blocked).count 3 = 2)) = .ok true := by
      decide +kernel
    obtain ⟨boot, s, started, run, asked⟩ := runs_sound _ (fun _ _ => id) answer
    have twice : (s.queues .blocked).count 3 = 2 := of_decide_eq_true asked
    have bound := (once _ _ boot s (failingEnv_distinct 31) started run 3).1
    omega

end Kernel

end Yalnix
