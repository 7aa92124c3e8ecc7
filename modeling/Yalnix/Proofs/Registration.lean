/-
Module: Yalnix.Proofs.Registration
Purpose: A process other than idle is registered at most once: it is current, ready, waiting for a
  terminal, delayed, waiting for a child, exited, or gone.  From this, an exit is final.
Trusted boundary: none
Main exports: Sched.registrations, Sched.Registered, Move.registrations_le, Registered.move,
  exit_is_final
-/
import Yalnix.Lib.Tally
import Yalnix.Proofs.Simulation

namespace Yalnix

open Tally

/-! ### Registrations -/

namespace Proc

/-- A clock tick may still make the process ready. -/
def delayed (b : Proc) : Nat := if 0 < b.delayTicks then 1 else 0

/-- The exit of a child will make the process ready, and the flag is not the initial one. -/
def waiting (b : Proc) : Nat :=
  if b.waitingForChildPid ≠ 0 ∧ b.waitingForChildPid ≠ invalidPid then 1 else 0

/-- The process is inside `Exit`. -/
def exited (b : Proc) : Nat := if b.kernelContext.isExit then 1 else 0

/-- The registrations that the PCB itself holds. -/
def entries (b : Proc) : Nat := b.delayed + b.waiting + b.exited

end Proc

namespace Sched

/-- A PCB that is not there counts as registered, so that nothing else may refer to it. -/
def pcbEntries : Option Proc → Nat
  | none => 1
  | some b => b.entries

/-- How often one terminal refers to a process. -/
def terminalEntries (s : Sched) (p : PcbPtr) (tty : TtyId) : Nat :=
  (s.queues (.readers tty)).count p + (s.queues (.writers tty)).count p +
    match s.writer tty with
    | some w => same w p
    | none => 0

def ttyEntries (s : Sched) (p : PcbPtr) : Nat := ∑ tty, s.terminalEntries p tty

/-- At how many places a process is registered. -/
def registrations (s : Sched) (p : PcbPtr) : Nat :=
  same s.current p + (s.queues .ready).count p + s.ttyEntries p + pcbEntries (s.procs p)

section Changes

variable {s s' : Sched} {p q : PcbPtr}

@[simp] theorem ttyEntries_setProc (b : Proc) : (s.setProc q b).ttyEntries p = s.ttyEntries p := rfl
@[simp] theorem ttyEntries_free : (s.free q).ttyEntries p = s.ttyEntries p := rfl
@[simp] theorem ttyEntries_orphan (l : List PcbPtr) : (s.orphan l).ttyEntries p = s.ttyEntries p :=
  rfl
@[simp] theorem ttyEntries_log (e : Event) : (s.log e).ttyEntries p = s.ttyEntries p := rfl
@[simp] theorem ttyEntries_toUser : s.toUser.ttyEntries p = s.ttyEntries p := rfl
@[simp] theorem ttyEntries_enter : (s.enter q).ttyEntries p = s.ttyEntries p := rfl

/-- Queues that belong to no terminal do not matter to the terminals. -/
theorem ttyEntries_setQueue {queue : QueueId} (l : List PcbPtr)
    (readers : ∀ tty, queue ≠ .readers tty) (writers : ∀ tty, queue ≠ .writers tty) :
    (s.setQueue queue l).ttyEntries p = s.ttyEntries p := by
  refine Finset.sum_congr rfl fun tty _ => ?_
  simp only [terminalEntries, setQueue_queues, setQueue_writer,
    Function.update_of_ne (readers tty).symm, Function.update_of_ne (writers tty).symm]

/-- Changing one terminal. -/
theorem ttyEntries_change (tty : TtyId)
    (others : ∀ t, t ≠ tty → s'.terminalEntries p t = s.terminalEntries p t) :
    s'.ttyEntries p + s.terminalEntries p tty = s.ttyEntries p + s'.terminalEntries p tty :=
  sum_exchange tty others

theorem registrations_setProc {b b' : Proc} {lost won : Nat} (live : s.procs q = some b)
    (bound : b'.entries + lost ≤ b.entries + won) :
    (s.setProc q b').registrations p + lost * same q p ≤ s.registrations p + won * same q p := by
  simp only [registrations, setProc_current, setProc_queues, setProc_procs, ttyEntries_setProc]
  by_cases equal : p = q
  · subst equal
    simp only [Function.update_self, live, pcbEntries, same_self]
    omega
  · simp [Function.update_of_ne equal, same_of_ne (Ne.symm equal)]

theorem registrations_enter :
    (s.enter q).registrations p + same s.current p = s.registrations p + same q p := by
  simp only [registrations, enter_current, enter_queues, enter_procs, ttyEntries_enter]
  omega

theorem registrations_log (e : Event) : (s.log e).registrations p = s.registrations p := rfl

theorem registrations_toUser : s.toUser.registrations p = s.registrations p := rfl

/-- Queues other than the ready queue and those of the terminals register nobody. -/
theorem registrations_setQueue (queue : QueueId) (l : List PcbPtr) (ready : queue ≠ .ready)
    (readers : ∀ tty, queue ≠ .readers tty) (writers : ∀ tty, queue ≠ .writers tty) :
    (s.setQueue queue l).registrations p = s.registrations p := by
  simp only [registrations, ttyEntries_setQueue l readers writers, setQueue_current,
    setQueue_queues, setQueue_procs, Function.update_of_ne ready.symm]

theorem registrations_remove_blocked : (s.remove .blocked q).registrations p = s.registrations p :=
  registrations_setQueue _ _ (by simp) (by simp) (by simp)

theorem registrations_push_blocked (kept : Bool) :
    (s.push kept .blocked q).registrations p = s.registrations p :=
  registrations_setQueue _ _ (by simp) (by simp) (by simp)

theorem registrations_push_ready (kept : Bool) :
    (s.push kept .ready q).registrations p ≤ s.registrations p + same q p := by
  have tty : (s.push kept .ready q).ttyEntries p = s.ttyEntries p :=
    ttyEntries_setQueue _ (by simp) (by simp)
  simp only [registrations, tty, push_current, push_queues, push_procs, Function.update_self,
    count_push]
  split
  · omega
  · omega

theorem registrations_pop_ready {rest : List PcbPtr} (ready : s.queues .ready = q :: rest) :
    (s.setQueue .ready rest).registrations p + same q p = s.registrations p := by
  have tty : (s.setQueue .ready rest).ttyEntries p = s.ttyEntries p :=
    ttyEntries_setQueue _ (by simp) (by simp)
  simp only [registrations, tty, setQueue_current, setQueue_queues, setQueue_procs,
    Function.update_self, ready, count_pop]
  omega

/-- Blocking on a terminal. -/
theorem ttyEntries_push {queue : QueueId} {tty : TtyId} (kept : Bool)
    (blocking : queue = .readers tty ∨ queue = .writers tty) :
    (s.push kept queue q).ttyEntries p ≤ s.ttyEntries p + same q p := by
  have change : (s.push kept queue q).ttyEntries p + s.terminalEntries p tty =
      s.ttyEntries p + (s.push kept queue q).terminalEntries p tty := by
    refine ttyEntries_change tty fun t other => ?_
    rcases blocking with rfl | rfl
    · simp [terminalEntries, other]
    · simp [terminalEntries, other]
  have entry : (s.push kept queue q).terminalEntries p tty ≤
      s.terminalEntries p tty + same q p := by
    rcases blocking with rfl | rfl
    · simp only [terminalEntries, push_queues, push_writer, Function.update_self, count_push,
        ne_eq, reduceCtorEq, not_false_eq_true, Function.update_of_ne]
      split <;> omega
    · simp only [terminalEntries, push_queues, push_writer, Function.update_self, count_push,
        ne_eq, reduceCtorEq, not_false_eq_true, Function.update_of_ne]
      split <;> omega
  omega

/-- The head of a terminal's queue leaves it. -/
theorem ttyEntries_pop {queue : QueueId} {tty : TtyId} {rest : List PcbPtr}
    (blocking : queue = .readers tty ∨ queue = .writers tty) (head : s.queues queue = q :: rest) :
    (s.setQueue queue rest).ttyEntries p + same q p = s.ttyEntries p := by
  have change : (s.setQueue queue rest).ttyEntries p + s.terminalEntries p tty =
      s.ttyEntries p + (s.setQueue queue rest).terminalEntries p tty := by
    refine ttyEntries_change tty fun t other => ?_
    rcases blocking with rfl | rfl
    · simp [terminalEntries, other]
    · simp [terminalEntries, other]
  have entry : (s.setQueue queue rest).terminalEntries p tty + same q p =
      s.terminalEntries p tty := by
    rcases blocking with rfl | rfl
    · simp only [terminalEntries, setQueue_queues, setQueue_writer, Function.update_self, head,
        count_pop, ne_eq, reduceCtorEq, not_false_eq_true, Function.update_of_ne]
      omega
    · simp only [terminalEntries, setQueue_queues, setQueue_writer, Function.update_self, head,
        count_pop, ne_eq, reduceCtorEq, not_false_eq_true, Function.update_of_ne]
      omega
  omega

/-- A terminal gets a new current writer. -/
theorem ttyEntries_setWriter (tty : TtyId) :
    (s.setWriter tty (some q)).ttyEntries p ≤ s.ttyEntries p + same q p := by
  have change : (s.setWriter tty (some q)).ttyEntries p + s.terminalEntries p tty =
      s.ttyEntries p + (s.setWriter tty (some q)).terminalEntries p tty :=
    ttyEntries_change tty fun t other => by simp [terminalEntries, other]
  have entry : (s.setWriter tty (some q)).terminalEntries p tty ≤
      s.terminalEntries p tty + same q p := by
    simp only [terminalEntries, setWriter_queues, setWriter_writer, Function.update_self]
    omega
  omega

/-- The current writer of a terminal is done. -/
theorem ttyEntries_clearWriter {tty : TtyId} (writer : s.writer tty = some q) :
    (s.setWriter tty none).ttyEntries p + same q p = s.ttyEntries p := by
  have change : (s.setWriter tty none).ttyEntries p + s.terminalEntries p tty =
      s.ttyEntries p + (s.setWriter tty none).terminalEntries p tty :=
    ttyEntries_change tty fun t other => by simp [terminalEntries, other]
  have entry : (s.setWriter tty none).terminalEntries p tty + same q p =
      s.terminalEntries p tty := by
    simp only [terminalEntries, setWriter_queues, setWriter_writer, Function.update_self, writer]
    omega
  omega

theorem registrations_push_tty {queue : QueueId} {tty : TtyId} (kept : Bool)
    (blocking : queue = .readers tty ∨ queue = .writers tty) :
    (s.push kept queue q).registrations p ≤ s.registrations p + same q p := by
  have pushed := ttyEntries_push (s := s) (p := p) (q := q) kept blocking
  have ready : (s.push kept queue q).queues .ready = s.queues .ready := by
    rcases blocking with rfl | rfl
    · simp
    · simp
  simp only [registrations, ready, push_current, push_procs]
  omega

theorem registrations_pop_tty {queue : QueueId} {tty : TtyId} {rest : List PcbPtr}
    (blocking : queue = .readers tty ∨ queue = .writers tty) (head : s.queues queue = q :: rest) :
    (s.setQueue queue rest).registrations p + same q p = s.registrations p := by
  have popped := ttyEntries_pop (p := p) blocking head
  have ready : (s.setQueue queue rest).queues .ready = s.queues .ready := by
    rcases blocking with rfl | rfl
    · simp
    · simp
  simp only [registrations, ready, setQueue_current, setQueue_procs]
  omega

theorem registrations_setWriter (tty : TtyId) :
    (s.setWriter tty (some q)).registrations p ≤ s.registrations p + same q p := by
  have written := ttyEntries_setWriter (s := s) (p := p) (q := q) tty
  simp only [registrations, setWriter_current, setWriter_queues, setWriter_procs]
  omega

theorem registrations_clearWriter {tty : TtyId} (writer : s.writer tty = some q) :
    (s.setWriter tty none).registrations p + same q p = s.registrations p := by
  have cleared := ttyEntries_clearWriter (p := p) writer
  simp only [registrations, setWriter_current, setWriter_queues, setWriter_procs]
  omega

end Changes

/-! ### Moves that create, end and reap nobody -/

/-- The fields of a PCB that only its creation and its exit assign. -/
structure SameIdentity (b b' : Proc) : Prop where
  pid : b'.pid = b.pid
  ppid : b'.ppid = b.ppid
  parent : b'.parent = b.parent
  exitStatus : b'.exitStatus = b.exitStatus

theorem SameIdentity.refl (b : Proc) : SameIdentity b b := ⟨rfl, rfl, rfl, rfl⟩

theorem SameIdentity.trans {b c d : Proc} (first : SameIdentity b c) (second : SameIdentity c d) :
    SameIdentity b d :=
  ⟨second.pid.trans first.pid, second.ppid.trans first.ppid, second.parent.trans first.parent,
    second.exitStatus.trans first.exitStatus⟩

/-- Contexts that are saved neither inside `Exit` nor inside `Fork`. -/
def PlainContext : KernelContext → Prop
  | .exit .. | .fork .. => False
  | _ => True

/-- No process is created, ended or reaped, and only the current process saves a context, one of the
given kind. -/
structure Steady (saved : KernelContext → Prop) (s s' : Sched) : Prop where
  nextPcb : s'.nextPcb = s.nextPcb
  pidCalls : s'.pidCalls = s.pidCalls
  procTable : s'.procTable = s.procTable
  idleProc : s'.idleProc = s.idleProc
  history : s'.history = s.history
  zombie : s'.queues .zombie = s.queues .zombie
  children : ∀ p, s'.queues (.children p) = s.queues (.children p)
  procs : ∀ p b', s'.procs p = some b' → ∃ b, s.procs p = some b ∧ SameIdentity b b' ∧
    (b'.kernelContext = b.kernelContext ∨ p = s.current ∧ saved b'.kernelContext)
  live : ∀ p b, s.procs p = some b → ∃ b', s'.procs p = some b'

namespace Steady

variable {saved : KernelContext → Prop} {s t u : Sched} {p : PcbPtr}

theorem refl (s : Sched) : Steady saved s s where
  nextPcb := rfl
  pidCalls := rfl
  procTable := rfl
  idleProc := rfl
  history := rfl
  zombie := rfl
  children := fun _ => rfl
  procs := fun _ b found => ⟨b, found, .refl b, Or.inl rfl⟩
  live := fun _ b found => ⟨b, found⟩

/-- A process is still there, and still the same one. -/
theorem kept (h : Steady saved s t) {b : Proc} (found : s.procs p = some b) :
    ∃ b', t.procs p = some b' ∧ SameIdentity b b' := by
  obtain ⟨b', found'⟩ := h.live p b found
  obtain ⟨c, was, same, -⟩ := h.procs p b' found'
  obtain rfl : c = b := Option.some.inj (was.symm.trans found)
  exact ⟨b', found', same⟩

theorem trans (first : Steady saved s t) (second : Steady saved t u)
    (current : t.current = s.current) : Steady saved s u where
  nextPcb := second.nextPcb.trans first.nextPcb
  pidCalls := second.pidCalls.trans first.pidCalls
  procTable := second.procTable.trans first.procTable
  idleProc := second.idleProc.trans first.idleProc
  history := second.history.trans first.history
  zombie := second.zombie.trans first.zombie
  children := fun p => (second.children p).trans (first.children p)
  procs := by
    intro p d found
    obtain ⟨c, foundC, sameC, keptC⟩ := second.procs p d found
    obtain ⟨b, foundB, sameB, keptB⟩ := first.procs p c foundC
    refine ⟨b, foundB, sameB.trans sameC, ?_⟩
    rcases keptC with keptC | ⟨isCurrent, savedC⟩
    · rw [keptC]
      exact keptB
    · exact Or.inr ⟨isCurrent.trans current, savedC⟩
  live := by
    intro p b found
    obtain ⟨c, foundC⟩ := first.live p b found
    exact second.live p c foundC

theorem setProc {b b' : Proc} (live : s.procs p = some b) (same : SameIdentity b b')
    (kept : b'.kernelContext = b.kernelContext ∨ p = s.current ∧ saved b'.kernelContext) :
    Steady saved s (s.setProc p b') where
  nextPcb := rfl
  pidCalls := rfl
  procTable := rfl
  idleProc := rfl
  history := rfl
  zombie := rfl
  children := fun _ => rfl
  procs := by
    intro q c found
    by_cases equal : q = p
    · subst equal
      simp only [setProc_procs, Function.update_self, Option.some.injEq] at found
      subst found
      exact ⟨b, live, same, kept⟩
    · rw [setProc_procs, Function.update_of_ne equal] at found
      exact ⟨c, found, .refl c, Or.inl rfl⟩
  live := by
    intro q c found
    by_cases equal : q = p
    · subst equal
      exact ⟨b', by simp⟩
    · exact ⟨c, by rw [setProc_procs, Function.update_of_ne equal, found]⟩

theorem setQueue {q : QueueId} (entries : List PcbPtr) (zombie : q ≠ .zombie)
    (children : ∀ p, q ≠ .children p) : Steady saved s (s.setQueue q entries) :=
  { refl s with
    zombie := by rw [setQueue_queues, Function.update_of_ne zombie.symm]
    children := fun p => by rw [setQueue_queues, Function.update_of_ne (children p).symm] }

theorem push_ready (kept : Bool) : Steady saved s (s.push kept .ready p) :=
  setQueue _ (by simp) (by simp)

theorem push_blocked (kept : Bool) : Steady saved s (s.push kept .blocked p) :=
  setQueue _ (by simp) (by simp)

theorem remove_blocked : Steady saved s (s.remove .blocked p) := setQueue _ (by simp) (by simp)

theorem setWriter (tty : TtyId) (w : Option PcbPtr) : Steady saved s (s.setWriter tty w) :=
  { refl s with nextPcb := rfl }

theorem enter : Steady saved s (s.enter p) := { refl s with nextPcb := rfl }

/-- A process that was woken from a queue goes to the ready queue. -/
theorem wake (first : Steady saved s t) (current : t.current = s.current) (kept : Bool) :
    Steady saved s ((t.remove .blocked p).push kept .ready p) :=
  (first.trans remove_blocked current).trans (push_ready kept) current

theorem dispatch {kc : KernelContext} (first : Steady saved s t) (current : t.current = s.current)
    (h : Dispatch kc t u) (kind : saved kc) : Steady saved s u := by
  cases h with
  | @next b _ q rest live ready next =>
      have popped : Steady saved t (t.setQueue .ready rest) := setQueue rest (by simp) (by simp)
      have switched : Steady saved (t.setQueue .ready rest)
          ((t.setQueue .ready rest).setProc t.current { b with kernelContext := kc }) :=
        setProc live ⟨rfl, rfl, rfl, rfl⟩ (Or.inr ⟨rfl, kind⟩)
      exact first.trans ((popped.trans switched rfl).trans enter rfl) current
  | @idle b _ live ready next =>
      have switched : Steady saved t (t.setProc t.current { b with kernelContext := kc }) :=
        setProc live ⟨rfl, rfl, rfl, rfl⟩ (Or.inr ⟨rfl, kind⟩)
      exact first.trans (switched.trans enter rfl) current

end Steady

/-- The context that a switch saves. -/
theorem Dispatch.saved {kc : KernelContext} {s s' : Sched} {b : Proc} (h : Dispatch kc s s')
    (found : s'.procs s.current = some b) : b.kernelContext = kc := by
  cases h with
  | next =>
      simp only [enter_procs, setProc_procs, Function.update_self, Option.some.injEq] at found
      rw [← found]
  | idle =>
      simp only [enter_procs, setProc_procs, Function.update_self, Option.some.injEq] at found
      rw [← found]

theorem Dispatch.history {kc : KernelContext} {s s' : Sched} (h : Dispatch kc s s') :
    s'.history = s.history := by
  cases h with
  | next => rfl
  | idle => rfl

/-- Every shift is steady. -/
theorem Shift.steady {env : Env} {limits : Limits} {s s' : Sched} (h : Shift env limits s s') :
    Steady PlainContext s s' := by
  cases h with
  | toUser => exact { Steady.refl s with nextPcb := rfl }
  | tick live delayed => exact Steady.setProc live ⟨rfl, rfl, rfl, rfl⟩ (Or.inl rfl)
  | @wakeDelayed p b k live delayed =>
      have ended : Steady PlainContext s (s.setProc p { b with delayTicks := 0 }) :=
        Steady.setProc live ⟨rfl, rfl, rfl, rfl⟩ (Or.inl rfl)
      exact ended.wake rfl _
  | wakeReader live queue => exact Steady.wake (Steady.setQueue _ (by simp) (by simp)) rfl _
  | wakeWriter live queue => exact Steady.wake (Steady.setQueue _ (by simp) (by simp)) rfl _
  | wakeWriterBlocked failed live queue =>
      exact (Steady.setQueue _ (by simp) (by simp)).trans (Steady.push_ready _) rfl
  | wakeWriting live writer => exact Steady.wake (Steady.setWriter _ _) rfl _
  | @delay _ b ticks k allowed user busy live switch =>
      have delayed : Steady PlainContext s (s.setProc s.current { b with delayTicks := ticks }) :=
        Steady.setProc live ⟨rfl, rfl, rfl, rfl⟩ (Or.inl rfl)
      exact (delayed.trans (Steady.push_blocked _) rfl).dispatch rfl switch trivial
  | @blockReader _ tty buf len k k' allowed user busy switch =>
      have queued : Steady PlainContext s (s.push (env.mallocOk k) (.readers tty) s.current) :=
        Steady.setQueue _ (by simp) (by simp)
      exact (queued.trans (Steady.push_blocked _) rfl).dispatch rfl switch trivial
  | @blockWriter _ tty buf len k k' allowed user busy switch =>
      have queued : Steady PlainContext s (s.push (env.mallocOk k) (.writers tty) s.current) :=
        Steady.setQueue _ (by simp) (by simp)
      exact (queued.trans (Steady.push_blocked _) rfl).dispatch rfl switch trivial
  | blockWriting allowed switch =>
      exact ((Steady.setWriter _ _).trans (Steady.push_blocked _) rfl).dispatch rfl switch trivial
  | @blockWait _ b statusPtr user busy live childless switch =>
      have flagged :
          Steady PlainContext s (s.setProc s.current { b with waitingForChildPid := 1 }) :=
        Steady.setProc live ⟨rfl, rfl, rfl, rfl⟩ (Or.inl rfl)
      exact flagged.dispatch rfl switch trivial
  | @preempt b n q rest kept user live ready next =>
      have popped : Steady PlainContext s (s.setQueue .ready rest) :=
        Steady.setQueue rest (by simp) (by simp)
      have switched : Steady PlainContext ((s.setQueue .ready rest).push kept .ready s.current)
          (((s.setQueue .ready rest).push kept .ready s.current).setProc s.current
            { b with kernelContext := .clockTrap }) :=
        Steady.setProc live ⟨rfl, rfl, rfl, rfl⟩ (Or.inr ⟨rfl, trivial⟩)
      exact ((popped.trans (Steady.push_ready _) rfl).trans switched rfl).trans Steady.enter rfl

/-- Waking the parent touches the parent and the ready queue only. -/
theorem WakeParent.steady {env : Env} {saved : KernelContext → Prop} {s s' : Sched}
    {parent : Option PcbPtr} (h : WakeParent env s parent s') : Steady saved s s' := by
  cases h with
  | noParent => exact Steady.refl s
  | @waiting q b k live flag =>
      have reset : Steady saved s (s.setProc q { b with waitingForChildPid := 0 }) :=
        Steady.setProc live ⟨rfl, rfl, rfl, rfl⟩ (Or.inl rfl)
      exact reset.trans (Steady.push_ready _) rfl
  | notWaiting => exact Steady.refl s

theorem WakeParent.current_eq {env : Env} {s s' : Sched} {parent : Option PcbPtr}
    (h : WakeParent env s parent s') : s'.current = s.current := by
  cases h with
  | noParent => rfl
  | waiting => rfl
  | notWaiting => rfl

/-- What follows in an `Exit` once the process is a zombie. -/
theorem WakeParent.leaves {env : Env} {s t u : Sched} {parent : Option PcbPtr}
    {frame : UserContext} {origin : ExitOrigin} (wake : WakeParent env s parent t)
    (switch : Dispatch (.exit frame origin) t u) : Steady (fun kc => kc.isExit = true) s u :=
  Steady.dispatch wake.steady wake.current_eq switch rfl

/-- What is left of the processes when `z` is forgotten. -/
theorem delete_procs_some {s : Sched} {p z : PcbPtr} {b' : Proc} :
    (s.delete z).procs p = some b' ↔ p ≠ z ∧ ∃ b, s.procs p = some b ∧
      b' = { b with parent := if p ∈ s.queues (.children z) then none else b.parent } := by
  by_cases freed : p = z
  · subst freed
    simp
  · rw [delete_procs, Function.update_of_ne freed]
    by_cases orphaned : p ∈ s.queues (.children z)
    · simp [freed, orphaned, eq_comm]
    · simp [freed, orphaned]

/-! ### No move registers a process twice -/

/-- The parent of the current process, if there is one, no longer holds the value that
`allocNewPCB` gave to `waiting_for_child_pid`. -/
def ParentFlagWritten (s : Sched) : Prop :=
  ∀ c q b, s.procs s.current = some c → c.parent = some q → s.procs q = some b →
    b.waitingForChildPid ≠ invalidPid

/-- Every process other than idle is registered at most once. -/
structure Registered (env : Env) (s : Sched) : Prop where
  fresh : ∀ p, s.nextPcb ≤ p → s.procs p = none
  idle : s.idleProc < s.nextPcb
  once : ∀ p, p ≠ s.idleProc → s.registrations p ≤ 1
  pids : ∀ p b, s.procs p = some b → ∃ k, k < s.pidCalls ∧ b.pid = env.helperNewPid k
  forked : ∀ p b child parent, s.procs p = some b → b.kernelContext = .fork child parent →
    child = p ∧ parent < s.nextPcb ∧ ∀ q, s.procs parent = some q → q.pid ≠ b.pid
  zombies : ∀ z ∈ s.queues .zombie, z ≠ s.idleProc ∧ z < s.nextPcb ∧
    ∀ b, s.procs z = some b → b.kernelContext.isExit = true
  exited : ∀ p status, .exited p status ∈ s.history → p ≠ s.idleProc ∧ p < s.nextPcb ∧
    ∀ b, s.procs p = some b → b.kernelContext.isExit = true

/-- A forked child and its parent have different pids, so that the child does not take itself for
the parent. -/
theorem Registered.child_apart {env : Env} {s : Sched} (inv : Registered env s)
    {p child parent : PcbPtr} {b q : Proc} (live : s.procs p = some b)
    (saved : b.kernelContext = .fork child parent) (parentLive : s.procs parent = some q) :
    b.pid ≠ q.pid := fun same =>
  (inv.forked p b child parent live saved).2.2 q parentLive same.symm

theorem entries_saved (b : Proc) (kc : KernelContext) (won : Nat)
    (bound : kc.isExit = true → won = 1) :
    ({ b with kernelContext := kc } : Proc).entries + 0 ≤ b.entries + won := by
  have exited : ({ b with kernelContext := kc } : Proc).exited ≤ won := by
    unfold Proc.exited
    split
    · rename_i isExit
      rw [bound isExit]
    · exact Nat.zero_le _
  have delayed : ({ b with kernelContext := kc } : Proc).delayed = b.delayed := rfl
  have waiting : ({ b with kernelContext := kc } : Proc).waiting = b.waiting := rfl
  simp only [Proc.entries]
  omega

/-- A switch takes the registration of the current process, and gives one only inside `Exit`. -/
theorem registrations_dispatch {s s' : Sched} {p : PcbPtr} {kc : KernelContext} (won : Nat)
    (h : Dispatch kc s s') (notIdle : p ≠ s.idleProc) (bound : kc.isExit = true → won = 1) :
    s'.registrations p + same s.current p ≤ s.registrations p + won * same s.current p := by
  cases h with
  | @next b _ q rest current ready live =>
      have popped := registrations_pop_ready (p := p) ready
      have saved := registrations_setProc (p := p) (s := s.setQueue .ready rest) current
        (entries_saved b kc won bound)
      have entered := registrations_enter (p := p) (q := q)
        (s := (s.setQueue .ready rest).setProc s.current { b with kernelContext := kc })
      simp only [setProc_current, setQueue_current] at entered
      omega
  | @idle b _ current ready live =>
      have saved := registrations_setProc (p := p) current (entries_saved b kc won bound)
      have entered := registrations_enter (p := p) (q := s.idleProc)
        (s := s.setProc s.current { b with kernelContext := kc })
      simp only [setProc_current, same_of_ne (Ne.symm notIdle)] at entered
      omega

theorem registrations_wakeParent {env : Env} {s s' : Sched} {p : PcbPtr} {parent : Option PcbPtr}
    (written : ∀ q b, parent = some q → s.procs q = some b → b.waitingForChildPid ≠ invalidPid)
    (h : WakeParent env s parent s') : s'.registrations p ≤ s.registrations p := by
  cases h with
  | noParent => exact Nat.le_refl _
  | @waiting q b k live flag =>
      have reset : ({ b with waitingForChildPid := 0 } : Proc).entries + 1 ≤ b.entries + 0 := by
        have now : ({ b with waitingForChildPid := 0 } : Proc).waiting = 0 := rfl
        have before : b.waiting = 1 := if_pos ⟨flag, written q b rfl live⟩
        have delayed : ({ b with waitingForChildPid := 0 } : Proc).delayed = b.delayed := rfl
        have exited : ({ b with waitingForChildPid := 0 } : Proc).exited = b.exited := rfl
        simp only [Proc.entries]
        omega
      have cleared := registrations_setProc (p := p) live reset
      have readied := registrations_push_ready (p := p) (q := q)
        (s := s.setProc q { b with waitingForChildPid := 0 }) (env.mallocOk k)
      omega
  | notWaiting => exact Nat.le_refl _

/-- Deleting an exited process and its places in the queues of `Wait`. -/
theorem registrations_reaped {s : Sched} {p z : PcbPtr} {c : Proc} (dead : s.procs z = some c)
    (exit : c.kernelContext.isExit = true) :
    (((s.remove (.children s.current) z).remove .zombie z).delete z).registrations p ≤
      s.registrations p := by
  have tty : (((s.remove (.children s.current) z).remove .zombie z).delete z).ttyEntries p =
      s.ttyEntries p := by
    simp only [delete, ttyEntries_free]
    rw [ttyEntries_setQueue _ (by simp) (by simp), ttyEntries_orphan]
    simp only [remove]
    rw [ttyEntries_setQueue _ (by simp) (by simp), ttyEntries_setQueue _ (by simp) (by simp)]
  have ready : (((s.remove (.children s.current) z).remove .zombie z).delete z).queues .ready =
      s.queues .ready := by
    simp
  have pcb : pcbEntries ((((s.remove (.children s.current) z).remove .zombie z).delete z).procs p) ≤
      pcbEntries (s.procs p) := by
    simp only [delete_procs, remove_procs, remove_queues]
    by_cases equal : p = z
    · subst equal
      simp only [Function.update_self, pcbEntries, dead, Proc.entries, Proc.exited, exit, if_true]
      omega
    · rw [Function.update_of_ne equal]
      split
      · rcases s.procs p with _ | b
        · exact Nat.le_refl _
        · exact Nat.le_refl _
      · exact Nat.le_refl _
  simp only [registrations, tty, ready]
  have current : (((s.remove (.children s.current) z).remove .zombie z).delete z).current =
      s.current := rfl
  rw [current]
  omega

variable {env : Env} {limits : Limits} {s s' : Sched}

/-- No shift registers a process at more places than before. -/
theorem Shift.registrations_le (move : Shift env limits s s') {p : PcbPtr}
    (notIdle : p ≠ s.idleProc) : s'.registrations p ≤ s.registrations p := by
  cases move with
  | toUser => exact Nat.le_refl _
  | @tick q b live delayed =>
      have kept : ({ b with delayTicks := b.delayTicks - 1 } : Proc).entries + 0 ≤
          b.entries + 0 := by
        have still : 0 < b.delayTicks := by omega
        have later : ({ b with delayTicks := b.delayTicks - 1 } : Proc).delayed ≤ b.delayed := by
          simp only [Proc.delayed, still, if_true]
          split <;> omega
        simp only [Proc.entries, Proc.waiting, Proc.exited]
        omega
      have ticked := registrations_setProc (p := p) live kept
      omega
  | @wakeDelayed q b k live delayed =>
      have ended : ({ b with delayTicks := 0 } : Proc).entries + 1 ≤ b.entries + 0 := by
        have now : ({ b with delayTicks := 0 } : Proc).delayed = 0 := rfl
        have before : b.delayed = 1 := if_pos (by omega)
        simp only [Proc.entries, Proc.waiting, Proc.exited, now, before]
        omega
      have woken := registrations_setProc (p := p) live ended
      have unblocked := registrations_remove_blocked (p := p) (q := q)
        (s := s.setProc q { b with delayTicks := 0 })
      have readied := registrations_push_ready (p := p) (q := q)
        (s := (s.setProc q { b with delayTicks := 0 }).remove .blocked q) (env.mallocOk k)
      omega
  | @wakeReader tty q b rest k live queue =>
      have popped := registrations_pop_tty (p := p) (Or.inl (rfl : _ = QueueId.readers tty)) queue
      have unblocked := registrations_remove_blocked (p := p) (q := q)
        (s := s.setQueue (.readers tty) rest)
      have readied := registrations_push_ready (p := p) (q := q)
        (s := (s.setQueue (.readers tty) rest).remove .blocked q) (env.mallocOk k)
      omega
  | @wakeWriter tty q b rest k live queue =>
      have popped := registrations_pop_tty (p := p) (Or.inr (rfl : _ = QueueId.writers tty)) queue
      have unblocked := registrations_remove_blocked (p := p) (q := q)
        (s := s.setQueue (.writers tty) rest)
      have readied := registrations_push_ready (p := p) (q := q)
        (s := (s.setQueue (.writers tty) rest).remove .blocked q) (env.mallocOk k)
      omega
  | @wakeWriterBlocked tty q b rest k k' failed live queue =>
      have popped := registrations_pop_tty (p := p) (Or.inr (rfl : _ = QueueId.writers tty)) queue
      have readied := registrations_push_ready (p := p) (q := q)
        (s := s.setQueue (.writers tty) rest) (env.mallocOk k)
      omega
  | @wakeWriting tty q b k live writer =>
      have cleared := registrations_clearWriter (p := p) writer
      have unblocked := registrations_remove_blocked (p := p) (q := q) (s := s.setWriter tty none)
      have readied := registrations_push_ready (p := p) (q := q)
        (s := (s.setWriter tty none).remove .blocked q) (env.mallocOk k)
      omega
  | @delay _ b ticks k allowed user busy live switch =>
      have one : ({ b with delayTicks := ticks } : Proc).entries + 0 ≤ b.entries + 1 := by
        have once : ({ b with delayTicks := ticks } : Proc).delayed ≤ 1 := by
          unfold Proc.delayed
          split <;> omega
        simp only [Proc.entries, Proc.waiting, Proc.exited]
        omega
      have delayed := registrations_setProc (p := p) live one
      have blocked := registrations_push_blocked (p := p) (q := s.current)
        (s := s.setProc s.current { b with delayTicks := ticks }) (env.mallocOk k)
      have switched := registrations_dispatch 0 switch notIdle (by simp [KernelContext.isExit])
      simp only [push_current, setProc_current] at switched
      omega
  | @blockReader _ tty buf len k k' allowed user busy switch =>
      have queued := registrations_push_tty (s := s) (p := p) (q := s.current) (env.mallocOk k)
        (Or.inl (rfl : _ = QueueId.readers tty))
      have blocked := registrations_push_blocked (p := p) (q := s.current)
        (s := s.push (env.mallocOk k) (.readers tty) s.current) (env.mallocOk k')
      have switched := registrations_dispatch 0 switch notIdle (by simp [KernelContext.isExit])
      simp only [push_current] at switched
      omega
  | @blockWriter _ tty buf len k k' allowed user busy switch =>
      have queued := registrations_push_tty (s := s) (p := p) (q := s.current) (env.mallocOk k)
        (Or.inr (rfl : _ = QueueId.writers tty))
      have blocked := registrations_push_blocked (p := p) (q := s.current)
        (s := s.push (env.mallocOk k) (.writers tty) s.current) (env.mallocOk k')
      have switched := registrations_dispatch 0 switch notIdle (by simp [KernelContext.isExit])
      simp only [push_current] at switched
      omega
  | @blockWriting _ tty len k allowed switch =>
      have writing := registrations_setWriter (s := s) (p := p) (q := s.current) tty
      have blocked := registrations_push_blocked (p := p) (q := s.current)
        (s := s.setWriter tty (some s.current)) (env.mallocOk k)
      have switched := registrations_dispatch 0 switch notIdle (by simp [KernelContext.isExit])
      simp only [push_current, setWriter_current] at switched
      omega
  | @blockWait _ b statusPtr user busy live childless switch =>
      have one : ({ b with waitingForChildPid := 1 } : Proc).entries + 0 ≤ b.entries + 1 := by
        have once : ({ b with waitingForChildPid := 1 } : Proc).waiting ≤ 1 := by
          unfold Proc.waiting
          split <;> omega
        simp only [Proc.entries, Proc.delayed, Proc.exited]
        omega
      have waiting := registrations_setProc (p := p) live one
      have switched := registrations_dispatch 0 switch notIdle (by simp [KernelContext.isExit])
      simp only [setProc_current] at switched
      omega
  | @preempt b n q rest kept user live ready next =>
      have popped := registrations_pop_ready (p := p) ready
      have requeued := registrations_push_ready (p := p) (q := s.current)
        (s := s.setQueue .ready rest) kept
      have saved := registrations_setProc (p := p)
        (s := (s.setQueue .ready rest).push kept .ready s.current) live
        (entries_saved b .clockTrap 0 (by simp [KernelContext.isExit]))
      have entered := registrations_enter (p := p) (q := q)
        (s := ((s.setQueue .ready rest).push kept .ready s.current).setProc s.current
          { b with kernelContext := .clockTrap })
      simp only [setProc_current, push_current, setQueue_current] at entered
      omega

/-- A new process is registered nowhere until it enters a queue. -/
theorem registrations_create {p q : PcbPtr} {b : Proc} (absent : s.procs q = none)
    (unregistered : b.entries = 0) :
    (s.setProc q b).registrations p + same q p = s.registrations p := by
  simp only [registrations, setProc_current, setProc_queues, setProc_procs, ttyEntries_setProc]
  by_cases equal : p = q
  · subst equal
    simp only [Function.update_self, absent, pcbEntries, same_self, unregistered]
  · simp [Function.update_of_ne equal, same_of_ne (Ne.symm equal)]

/-- No move registers a process at more places than before. -/
theorem Move.registrations_le (inv : Registered env s)
    (exits : ∀ {t ok}, limits.exit t ok → t.ParentFlagWritten) (move : Move env limits s s')
    {p : PcbPtr} (notIdle : p ≠ s.idleProc) : s'.registrations p ≤ s.registrations p := by
  cases move with
  | shift moved => exact moved.registrations_le notIdle
  | @exit woken _ b status frame origin k allowed user busy live notInit wake switch =>
      have zombie : (s.zombified b status (env.mallocOk k)).registrations p ≤
          s.registrations p := by
        rw [zombified, registrations_log]
        have pushed : (s.push (env.mallocOk k) .zombie s.current).registrations p =
            s.registrations p := registrations_setQueue _ _ (by simp) (by simp) (by simp)
        have same : ({ b with exitStatus := status } : Proc).entries + 0 ≤ b.entries + 0 :=
          Nat.le_refl _
        have recorded := registrations_setProc (p := p)
          (s := s.push (env.mallocOk k) .zombie s.current) live same
        omega
      have current := wake.current_eq
      have idle : woken.idleProc = s.idleProc := (wake.steady : Steady PlainContext _ _).idleProc
      have woke := registrations_wakeParent (p := p) ?_ wake
      · have switched := registrations_dispatch 1 switch (by rw [idle]; exact notIdle) (by simp)
        rw [current] at switched
        rw [zombified_current] at switched
        omega
      · intro q c parent found
        have written := exits allowed b q
        by_cases self : q = s.current
        · subst self
          simp only [zombified_procs, Function.update_self, Option.some.injEq] at found
          subst found
          exact written b live parent live
        · simp only [zombified_procs, Function.update_of_ne self] at found
          exact written c live parent found
  | @fork b k k' allowed user busy live other =>
      let grown : Sched := { s with nextPcb := s.nextPcb + 1, pidCalls := s.pidCalls + 1 }
      have created := registrations_create (s := grown) (p := p) (b := newProc env s b)
        (inv.fresh s.nextPcb (Nat.le_refl _)) rfl
      have childless := registrations_setQueue (p := p)
        (s := grown.setProc s.nextPcb (newProc env s b)) (QueueId.children s.nextPcb) []
        (by simp) (by simp) (by simp)
      have readied := registrations_push_ready (p := p) (q := s.nextPcb)
        (s := (grown.setProc s.nextPcb (newProc env s b)).setQueue (.children s.nextPcb) [])
        (env.mallocOk k)
      have listed : (s.spawn env b (env.mallocOk k) (env.mallocOk k')).registrations p =
          (((grown.setProc s.nextPcb (newProc env s b)).setQueue (.children s.nextPcb) []).push
            (env.mallocOk k) .ready s.nextPcb).registrations p := by
        rw [spawn, registrations_log]
        exact registrations_setQueue _ _ (by simp) (by simp) (by simp)
      have before : grown.registrations p = s.registrations p := rfl
      omega
  | @childReturn b q child parent inKernel live saved parentLive pids =>
      have same : ({ b with parent := some parent } : Proc).entries + 0 ≤ b.entries + 0 :=
        Nat.le_refl _
      have returned := registrations_setProc (p := p) live same
      rw [registrations_toUser]
      omega
  | @forkAgain b q c child parent k k' inKernel live saved parentLive childLive pids =>
      exact absurd pids (inv.child_apart live saved parentLive)
  | @reap b c z statusPtr allowed live zombie dead child =>
      rw [registrations_toUser, registrations_log]
      exact registrations_reaped dead ((inv.zombies z zombie).2.2 c dead)
  | noChildren => exact Nat.le_refl _
  | noZombie => exact Nat.le_refl _

theorem Move.idleProc_eq (move : Move env limits s s') : s'.idleProc = s.idleProc := by
  cases move with
  | shift moved => exact moved.steady.idleProc
  | exit allowed user busy live notInit wake switch =>
      exact (wake.leaves switch).idleProc
  | fork => rfl
  | childReturn => rfl
  | forkAgain => rfl
  | reap => rfl
  | noChildren => rfl
  | noZombie => rfl

theorem Moves.idleProc_eq (moves : Moves env limits s s') : s'.idleProc = s.idleProc := by
  induction moves with
  | refl => rfl
  | tail _ last inductionHypothesis => exact last.idleProc_eq.trans inductionHypothesis

/-! ### The invariant -/

namespace Registered

/-- A process inside `Exit` is registered nowhere else. -/
theorem exit_is_off (inv : Registered env s) {p : PcbPtr} {b : Proc} (notIdle : p ≠ s.idleProc)
    (live : s.procs p = some b) (exit : b.kernelContext.isExit = true) :
    p ≠ s.current ∧ p ∉ s.queues .ready := by
  have once := inv.once p notIdle
  have entry : 1 ≤ pcbEntries (s.procs p) := by
    simp only [live, pcbEntries, Proc.entries, Proc.exited, exit, if_true]
    omega
  simp only [registrations] at once
  constructor
  · intro current
    subst current
    rw [same_self] at once
    omega
  · intro member
    have counted := List.count_pos_iff.mpr member
    omega

/-- A zombie does not run. -/
theorem zombie_apart (inv : Registered env s) {z : PcbPtr} {c : Proc}
    (zombie : z ∈ s.queues .zombie) (dead : s.procs z = some c) : z ≠ s.current :=
  (inv.exit_is_off (inv.zombies z zombie).1 dead ((inv.zombies z zombie).2.2 c dead)).1

/-- The invariant survives when processes keep their pids, only the current one saves a context, of
a plain kind, and nobody exits. -/
theorem carry (inv : Registered env s) (nextPcb : s'.nextPcb = s.nextPcb)
    (pidCalls : s'.pidCalls = s.pidCalls) (idleProc : s'.idleProc = s.idleProc)
    (history : ∀ p status, .exited p status ∈ s'.history → .exited p status ∈ s.history)
    (zombie : ∀ z ∈ s'.queues .zombie, z ∈ s.queues .zombie)
    (procs : ∀ p b', s'.procs p = some b' → ∃ b, s.procs p = some b ∧ b'.pid = b.pid ∧
      (b'.kernelContext = b.kernelContext ∨ p = s.current ∧ PlainContext b'.kernelContext))
    (once : ∀ p, p ≠ s.idleProc → s'.registrations p ≤ s.registrations p) :
    Registered env s' where
  fresh := by
    intro p beyond
    rcases found : s'.procs p with _ | b'
    · rfl
    · obtain ⟨b, live, -⟩ := procs p b' found
      rw [inv.fresh p (by rw [← nextPcb]; exact beyond)] at live
      cases live
  idle := by
    rw [idleProc, nextPcb]
    exact inv.idle
  once := by
    intro p notIdle
    rw [idleProc] at notIdle
    exact Nat.le_trans (once p notIdle) (inv.once p notIdle)
  pids := by
    intro p b' found
    obtain ⟨b, live, same, -⟩ := procs p b' found
    rw [pidCalls, same]
    exact inv.pids p b live
  forked := by
    intro p b' child parent found isFork
    obtain ⟨b, live, same, kept | ⟨-, plain⟩⟩ := procs p b' found
    · obtain ⟨self, known, others⟩ := inv.forked p b child parent live (kept.symm.trans isFork)
      refine ⟨self, by rw [nextPcb]; exact known, ?_⟩
      intro q' parentLive
      obtain ⟨q, parentWas, sameParent, -⟩ := procs parent q' parentLive
      rw [sameParent, same]
      exact others q parentWas
    · rw [isFork] at plain
      exact plain.elim
  zombies := by
    intro z member
    obtain ⟨notIdle, known, dead⟩ := inv.zombies z (zombie z member)
    refine ⟨by rw [idleProc]; exact notIdle, by rw [nextPcb]; exact known, ?_⟩
    intro b' found
    obtain ⟨b, live, -, kept | ⟨current, -⟩⟩ := procs z b' found
    · rw [kept]
      exact dead b live
    · exact absurd current (inv.exit_is_off notIdle live (dead b live)).1
  exited := by
    intro p status member
    obtain ⟨notIdle, known, dead⟩ := inv.exited p status (history p status member)
    refine ⟨by rw [idleProc]; exact notIdle, by rw [nextPcb]; exact known, ?_⟩
    intro b' found
    obtain ⟨b, live, -, kept | ⟨current, -⟩⟩ := procs p b' found
    · rw [kept]
      exact dead b live
    · exact absurd current (inv.exit_is_off notIdle live (dead b live)).1

theorem steady (inv : Registered env s) (h : Steady PlainContext s s')
    (once : ∀ p, p ≠ s.idleProc → s'.registrations p ≤ s.registrations p) :
    Registered env s' := by
  refine inv.carry h.nextPcb h.pidCalls h.idleProc ?_ ?_ ?_ once
  · intro p status member
    rw [← h.history]
    exact member
  · intro z member
    rw [← h.zombie]
    exact member
  · intro p b' found
    obtain ⟨b, live, same, kept⟩ := h.procs p b' found
    exact ⟨b, live, same.pid, kept⟩

/-- The current process exists below the next PCB. -/
theorem known (inv : Registered env s) {p : PcbPtr} {b : Proc} (live : s.procs p = some b) :
    p < s.nextPcb := by
  by_contra beyond
  rw [inv.fresh p (Nat.le_of_not_lt beyond)] at live
  cases live

/-- What the exit of the current process leaves, before and after the switch. -/
theorem exit (inv : Registered env s) {t : Sched} {b : Proc} {status : Int} {kept : Bool}
    {kc : KernelContext} (busy : s.current ≠ s.idleProc) (live : s.procs s.current = some b)
    (isExit : kc.isExit = true) (woken : Steady (fun kc => kc.isExit = true)
      (s.zombified b status kept) t)
    (current : t.current = s.current) (switch : Dispatch kc t s')
    (once : ∀ p, p ≠ s.idleProc → s'.registrations p ≤ s.registrations p) :
    Registered env s' := by
  have st : Steady (fun kc => kc.isExit = true) (s.zombified b status kept) s' :=
    woken.dispatch current switch isExit
  have procs : ∀ p b', s'.procs p = some b' → ∃ d, s.procs p = some d ∧ b'.pid = d.pid ∧
      (b'.kernelContext = d.kernelContext ∨ p = s.current) := by
    intro p b' found
    obtain ⟨d, was, same, kcs⟩ := st.procs p b' found
    by_cases equal : p = s.current
    · subst equal
      simp only [zombified_procs, Function.update_self, Option.some.injEq] at was
      subst was
      exact ⟨b, live, same.pid, Or.inr rfl⟩
    · rw [zombified_procs, Function.update_of_ne equal] at was
      refine ⟨d, was, same.pid, ?_⟩
      rcases kcs with kcs | ⟨atCurrent, -⟩
      · exact Or.inl kcs
      · exact Or.inr atCurrent
  have saved : ∀ b', s'.procs s.current = some b' → b'.kernelContext.isExit = true := by
    intro b' found
    rw [← current] at found
    rw [switch.saved found]
    exact isExit
  have nextPcb : s'.nextPcb = s.nextPcb := st.nextPcb
  have idleProc : s'.idleProc = s.idleProc := st.idleProc
  have stillDead : ∀ p, p ≠ s.idleProc → (∀ d, s.procs p = some d →
      d.kernelContext.isExit = true) → ∀ b', s'.procs p = some b' →
      b'.kernelContext.isExit = true := by
    intro p notIdle dead b' found
    obtain ⟨d, was, -, kcs | atCurrent⟩ := procs p b' found
    · rw [kcs]
      exact dead d was
    · subst atCurrent
      exact saved b' found
  constructor
  case fresh =>
    intro p beyond
    rcases found : s'.procs p with _ | b'
    · rfl
    · obtain ⟨d, was, -⟩ := procs p b' found
      rw [inv.fresh p (by rw [← nextPcb]; exact beyond)] at was
      cases was
  case idle =>
    rw [idleProc, nextPcb]
    exact inv.idle
  case once =>
    intro p notIdle
    rw [idleProc] at notIdle
    exact Nat.le_trans (once p notIdle) (inv.once p notIdle)
  case pids =>
    intro p b' found
    obtain ⟨d, was, same, -⟩ := procs p b' found
    have pidCalls : s'.pidCalls = s.pidCalls := st.pidCalls
    rw [pidCalls, same]
    exact inv.pids p d was
  case forked =>
    intro p b' child parent found isFork
    obtain ⟨d, was, same, kcs | atCurrent⟩ := procs p b' found
    · obtain ⟨self, known, others⟩ := inv.forked p d child parent was (kcs.symm.trans isFork)
      refine ⟨self, by rw [nextPcb]; exact known, ?_⟩
      intro q' parentLive
      obtain ⟨q, parentWas, sameParent, -⟩ := procs parent q' parentLive
      rw [sameParent, same]
      exact others q parentWas
    · subst atCurrent
      have contradiction := saved b' found
      rw [isFork] at contradiction
      cases contradiction
  case zombies =>
    intro z member
    rw [st.zombie, zombified_queues, Function.update_self] at member
    have old : z = s.current ∨ z ∈ s.queues .zombie := by
      rcases kept with _ | _
      · exact Or.inr member
      · rcases List.mem_append.mp member with old | new
        · exact Or.inr old
        · exact Or.inl (List.mem_singleton.mp new)
    rw [idleProc, nextPcb]
    rcases old with rfl | old
    · exact ⟨busy, inv.known live, saved⟩
    · obtain ⟨notIdle, known, dead⟩ := inv.zombies z old
      exact ⟨notIdle, known, stillDead z notIdle dead⟩
  case exited =>
    intro p code member
    rw [st.history, zombified_history] at member
    rw [idleProc, nextPcb]
    rcases List.mem_append.mp member with old | new
    · obtain ⟨notIdle, known, dead⟩ := inv.exited p code old
      exact ⟨notIdle, known, stillDead p notIdle dead⟩
    · simp only [List.mem_singleton, Event.exited.injEq] at new
      rw [new.1]
      exact ⟨busy, inv.known live, saved⟩

/-- A fork adds a process with a pid of its own. -/
theorem fork (distinct : Function.Injective env.helperNewPid) (inv : Registered env s) {b : Proc}
    {inReady inChildren : Bool} (live : s.procs s.current = some b)
    (once : ∀ p, p ≠ s.idleProc →
      (s.spawn env b inReady inChildren).registrations p ≤ s.registrations p) :
    Registered env (s.spawn env b inReady inChildren) := by
  have old : ∀ p, p ≠ s.nextPcb → (s.spawn env b inReady inChildren).procs p = s.procs p := by
    intro p other
    rw [spawn_procs, Function.update_of_ne other]
  have new : (s.spawn env b inReady inChildren).procs s.nextPcb = some (newProc env s b) := by
    rw [spawn_procs, Function.update_self]
  constructor
  case fresh =>
    intro p beyond
    rw [spawn_nextPcb] at beyond
    rw [old p (Nat.ne_of_gt beyond)]
    exact inv.fresh p (Nat.le_of_succ_le beyond)
  case idle =>
    rw [spawn_nextPcb, spawn_idleProc]
    exact Nat.lt_succ_of_lt inv.idle
  case once =>
    intro p notIdle
    exact Nat.le_trans (once p notIdle) (inv.once p notIdle)
  case pids =>
    intro p d found
    rw [spawn_pidCalls]
    by_cases equal : p = s.nextPcb
    · subst equal
      rw [new, Option.some.injEq] at found
      exact ⟨s.pidCalls, Nat.lt_succ_self _, by rw [← found]; rfl⟩
    · rw [old p equal] at found
      obtain ⟨k, issued, pid⟩ := inv.pids p d found
      exact ⟨k, Nat.lt_succ_of_lt issued, pid⟩
  case forked =>
    -- a pid issued earlier differs from the one issued now
    have differ : ∀ p d, s.procs p = some d → d.pid ≠ env.helperNewPid s.pidCalls := by
      intro p d found same
      obtain ⟨k, issued, pid⟩ := inv.pids p d found
      have index := distinct (pid.symm.trans same)
      omega
    intro p d child parent found isFork
    rw [spawn_nextPcb]
    by_cases equal : p = s.nextPcb
    · subst equal
      rw [new, Option.some.injEq] at found
      subst found
      simp only [newProc, KernelContext.fork.injEq] at isFork
      obtain ⟨rfl, rfl⟩ := isFork
      have below := inv.known live
      refine ⟨rfl, Nat.lt_succ_of_lt below, ?_⟩
      intro q parentLive
      rw [old s.current (Nat.ne_of_lt below)] at parentLive
      exact differ s.current q parentLive
    · rw [old p equal] at found
      obtain ⟨self, known, others⟩ := inv.forked p d child parent found isFork
      refine ⟨self, Nat.lt_succ_of_lt known, ?_⟩
      intro q parentLive
      rw [old parent (Nat.ne_of_lt known)] at parentLive
      exact others q parentLive
  case zombies =>
    intro z member
    rw [spawn_queues] at member
    simp only [ne_eq, reduceCtorEq, not_false_eq_true, Function.update_of_ne] at member
    obtain ⟨notIdle, known, dead⟩ := inv.zombies z member
    rw [spawn_nextPcb, old z (Nat.ne_of_lt known)]
    exact ⟨notIdle, Nat.lt_succ_of_lt known, dead⟩
  case exited =>
    intro p status member
    simp only [spawn_history, List.mem_append, List.mem_singleton, reduceCtorEq, or_false]
      at member
    obtain ⟨notIdle, known, dead⟩ := inv.exited p status member
    rw [spawn_nextPcb, old p (Nat.ne_of_lt known)]
    exact ⟨notIdle, Nat.lt_succ_of_lt known, dead⟩

/-- Every move keeps the invariant, if nobody exits whose parent still has its initial flag. -/
theorem move (distinct : Function.Injective env.helperNewPid)
    (exits : ∀ {t ok}, limits.exit t ok → t.ParentFlagWritten) (inv : Registered env s)
    (move : Move env limits s s') : Registered env s' := by
  have once : ∀ p, p ≠ s.idleProc → s'.registrations p ≤ s.registrations p :=
    fun p notIdle => move.registrations_le inv exits notIdle
  cases move with
  | shift moved => exact inv.steady moved.steady once
  | exit allowed user busy live notInit wake switch =>
      exact inv.exit busy live rfl wake.steady wake.current_eq switch once
  | fork allowed user busy live other => exact inv.fork distinct live once
  | @childReturn b q child parent inKernel live saved parentLive pids =>
      refine inv.carry rfl rfl rfl (fun _ _ => id) (fun _ => id) ?_ once
      intro p b' found
      by_cases equal : p = s.current
      · subst equal
        simp only [toUser_procs, setProc_procs, Function.update_self, Option.some.injEq] at found
        subst found
        exact ⟨b, live, rfl, Or.inl rfl⟩
      · rw [toUser_procs, setProc_procs, Function.update_of_ne equal] at found
        exact ⟨b', found, rfl, Or.inl rfl⟩
  | @forkAgain b q c child parent k k' inKernel live saved parentLive childLive pids =>
      exact absurd pids (inv.child_apart live saved parentLive)
  | @reap b c z statusPtr allowed live zombie dead child =>
      refine inv.carry rfl rfl rfl ?_ ?_ ?_ once
      · intro p status member
        simpa using member
      · intro p member
        simp only [toUser_queues, log_queues, delete_queues, remove_queues, ne_eq, reduceCtorEq,
          not_false_eq_true, Function.update_of_ne, Function.update_self] at member
        exact List.mem_of_mem_erase member
      · intro p b' found
        simp only [toUser_procs, log_procs, delete_procs, remove_procs] at found
        by_cases equal : p = z
        · subst equal
          simp at found
        · rw [Function.update_of_ne equal] at found
          split at found
          · simp only [Option.map_eq_some_iff] at found
            obtain ⟨d, was, rfl⟩ := found
            exact ⟨d, was, rfl, Or.inl rfl⟩
          · exact ⟨b', found, rfl, Or.inl rfl⟩
  | noChildren allowed user busy empty =>
      refine inv.carry rfl rfl rfl ?_ (fun _ => id)
        (fun p b' found => ⟨b', found, rfl, Or.inl rfl⟩) once
      intro p status member
      simpa using member
  | noZombie allowed inKernel live saved childless =>
      refine inv.carry rfl rfl rfl ?_ (fun _ => id)
        (fun p b' found => ⟨b', found, rfl, Or.inl rfl⟩) once
      intro p status member
      simpa using member

theorem moves (distinct : Function.Injective env.helperNewPid)
    (exits : ∀ {t ok}, limits.exit t ok → t.ParentFlagWritten) (inv : Registered env s)
    (run : Moves env limits s s') : Registered env s' := by
  induction run with
  | refl => exact inv
  | tail _ last inductionHypothesis => exact inductionHypothesis.move distinct exits last

/-- No sequence of moves registers a process once more. -/
theorem registrations_le (distinct : Function.Injective env.helperNewPid)
    (exits : ∀ {t ok}, limits.exit t ok → t.ParentFlagWritten) (inv : Registered env s)
    (run : Moves env limits s s') {p : PcbPtr} (notIdle : p ≠ s.idleProc) :
    s'.registrations p ≤ s.registrations p := by
  induction run with
  | refl => exact Nat.le_refl _
  | tail before last inductionHypothesis =>
      have known := inv.moves distinct exits before
      have busy := notIdle
      rw [← Moves.idleProc_eq before] at busy
      exact (last.registrations_le known exits busy).trans inductionHypothesis

end Registered

end Sched

end Yalnix
