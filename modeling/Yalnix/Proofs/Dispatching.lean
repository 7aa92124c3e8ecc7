/-
Module: Yalnix.Proofs.Dispatching
Purpose: The ready queue is a line: what every step does to it, that the idle process never stands
  in a queue, and that the processes are served in the order in which they joined.
Trusted boundary: none
Main exports: Sched.IdleApart, Sched.Serves, serves_step, ready_fifo
-/
import Yalnix.Lib.Fifo
import Yalnix.Proofs.Always
import Yalnix.Proofs.Returns

namespace Yalnix

/-- The PCB of `p` names the idle process neither as a parent nor in the context of a fork; the idle
process itself has the pid that the clock handler tests for, is not delayed, and comes back from the
clock alone. -/
structure Proc.Apart (idle p : PcbPtr) (b : Proc) : Prop where
  parent : b.parent ≠ some idle
  fork : ∀ child parent, b.kernelContext = .fork child parent → child ≠ idle ∧ parent ≠ idle
  pid : p = idle → b.pid = 0
  delay : p = idle → b.delayTicks ≤ 0
  saved : p = idle → b.kernelContext = .unsaved ∨ b.kernelContext = .clockTrap

namespace Sched

variable {env : Env} {limits : Limits} {s s' t t' u : Sched} {p : PcbPtr} {b b' : Proc}

/-- The idle process stands in no queue but possibly the ready queue, writes to no terminal, and is
nobody's relative. -/
structure IdleApart (s : Sched) : Prop where
  numbered : s.idleProc < s.nextPcb
  fresh : ∀ p, s.nextPcb ≤ p → s.procs p = none
  queues : ∀ queue, queue ≠ .ready → s.idleProc ∉ s.queues queue
  writer : ∀ tty, s.writer tty ≠ some s.idleProc
  procs : ∀ p b, s.procs p = some b → b.Apart s.idleProc p

theorem WakeParent.same {parent : Option PcbPtr} (wake : WakeParent env s parent t) :
    t.current = s.current ∧ t.idleProc = s.idleProc := by
  cases wake with
  | noParent => exact ⟨rfl, rfl⟩
  | waiting => exact ⟨rfl, rfl⟩
  | notWaiting => exact ⟨rfl, rfl⟩

namespace IdleApart

theorem setProc (apart : IdleApart s) (live : s.procs p = some b)
    (kept : b'.Apart s.idleProc p) : IdleApart (s.setProc p b') where
  numbered := apart.numbered
  fresh q beyond := by
    have other : q ≠ p := by
      rintro rfl
      rw [apart.fresh q beyond] at live
      cases live
    rw [setProc_procs, Function.update_of_ne other]
    exact apart.fresh q beyond
  queues := apart.queues
  writer := apart.writer
  procs q c found := by
    by_cases same : q = p
    · subst same
      rw [setProc_procs, Function.update_self] at found
      obtain rfl := Option.some.inj found
      exact kept
    · rw [setProc_procs, Function.update_of_ne same] at found
      exact apart.procs q c found

theorem setQueue (apart : IdleApart s) (queue : QueueId) {entries : List PcbPtr}
    (outside : queue ≠ .ready → s.idleProc ∉ entries) : IdleApart (s.setQueue queue entries) where
  numbered := apart.numbered
  fresh := apart.fresh
  queues other notReady := by
    by_cases same : other = queue
    · subst same
      rw [setQueue_queues, Function.update_self]
      exact outside notReady
    · rw [setQueue_queues, Function.update_of_ne same]
      exact apart.queues other notReady
  writer := apart.writer
  procs := apart.procs

theorem push (apart : IdleApart s) (allocated : Bool) (queue : QueueId)
    (other : queue ≠ .ready → p ≠ s.idleProc) : IdleApart (s.push allocated queue p) := by
  apply apart.setQueue queue
  intro notReady
  cases allocated with
  | false => exact apart.queues queue notReady
  | true =>
      rw [if_pos rfl, List.mem_append, List.mem_singleton, not_or]
      exact ⟨apart.queues queue notReady, fun same => other notReady same.symm⟩

theorem push_ready (apart : IdleApart s) (allocated : Bool) :
    IdleApart (s.push allocated .ready p) :=
  apart.push allocated .ready fun ready => absurd rfl ready

theorem remove (apart : IdleApart s) (queue : QueueId) (p : PcbPtr) :
    IdleApart (s.remove queue p) := by
  apply apart.setQueue queue
  intro notReady member
  exact apart.queues queue notReady (List.mem_of_mem_erase member)

theorem pop (apart : IdleApart s) {queue : QueueId} {rest : List PcbPtr}
    (line : s.queues queue = p :: rest) : IdleApart (s.setQueue queue rest) := by
  apply apart.setQueue queue
  intro notReady member
  apply apart.queues queue notReady
  rw [line]
  exact List.mem_cons_of_mem p member

theorem setWriter (apart : IdleApart s) {tty : TtyId} {w : Option PcbPtr}
    (other : w ≠ some s.idleProc) : IdleApart (s.setWriter tty w) where
  numbered := apart.numbered
  fresh := apart.fresh
  queues := apart.queues
  writer tty' := by
    by_cases same : tty' = tty
    · subst same
      rw [setWriter_writer, Function.update_self]
      exact other
    · rw [setWriter_writer, Function.update_of_ne same]
      exact apart.writer tty'
  procs := apart.procs

theorem log (apart : IdleApart s) (e : Event) : IdleApart (s.log e) :=
  ⟨apart.numbered, apart.fresh, apart.queues, apart.writer, apart.procs⟩

theorem toUser (apart : IdleApart s) : IdleApart s.toUser :=
  ⟨apart.numbered, apart.fresh, apart.queues, apart.writer, apart.procs⟩

theorem enter (apart : IdleApart s) (next : PcbPtr) : IdleApart (s.enter next) :=
  ⟨apart.numbered, apart.fresh, apart.queues, apart.writer, apart.procs⟩

theorem orphan (apart : IdleApart s) (children : List PcbPtr) :
    IdleApart (s.orphan children) where
  numbered := apart.numbered
  fresh q beyond := by
    have absent := apart.fresh q beyond
    simp only [orphan_procs, absent, Option.map_none, ite_self]
  queues := apart.queues
  writer := apart.writer
  procs q c found := by
    simp only [orphan_procs] at found
    by_cases child : q ∈ children
    · rw [if_pos child, Option.map_eq_some_iff] at found
      obtain ⟨d, live, rfl⟩ := found
      have kept := apart.procs q d live
      exact ⟨by simp, kept.fork, kept.pid, kept.delay, kept.saved⟩
    · rw [if_neg child] at found
      exact apart.procs q c found

theorem free (apart : IdleApart s) (p : PcbPtr) : IdleApart (s.free p) where
  numbered := apart.numbered
  fresh q beyond := by
    by_cases same : q = p
    · subst same
      rw [free_procs, Function.update_self]
    · rw [free_procs, Function.update_of_ne same]
      exact apart.fresh q beyond
  queues := apart.queues
  writer := apart.writer
  procs q c found := by
    by_cases same : q = p
    · subst same
      rw [free_procs, Function.update_self] at found
      cases found
    · rw [free_procs, Function.update_of_ne same] at found
      exact apart.procs q c found

theorem delete (apart : IdleApart s) (p : PcbPtr) : IdleApart (s.delete p) := by
  apply free
  apply (apart.orphan _).setQueue
  intro _ member
  cases member

/-- Saving a context that is not that of a fork; the idle process saves the clock's. -/
theorem save (apart : IdleApart s) {kc : KernelContext} (live : s.procs p = some b)
    (plain : ∀ child parent, kc ≠ .fork child parent) (other : kc ≠ .clockTrap → p ≠ s.idleProc) :
    IdleApart (s.setProc p { b with kernelContext := kc }) := by
  have kept := apart.procs p b live
  refine apart.setProc live ⟨kept.parent, ?_, kept.pid, kept.delay, ?_⟩
  · intro child parent saved
    exact absurd saved (plain child parent)
  · intro idles
    by_cases clock : kc = .clockTrap
    · exact Or.inr clock
    · exact absurd idles (other clock)

theorem dispatch (apart : IdleApart s) {kc : KernelContext} (switch : Dispatch kc s s')
    (plain : ∀ child parent, kc ≠ .fork child parent) (busy : s.current ≠ s.idleProc) :
    IdleApart s' := by
  cases switch with
  | next current ready live => exact ((apart.pop ready).save current plain fun _ => busy).enter _
  | idle current ready live => exact (apart.save current plain fun _ => busy).enter _

/-- Changes of a PCB's own fields, other than its pid, its parent and its context. -/
theorem update (apart : IdleApart s) (b' : Proc) (live : s.procs p = some b)
    (parent : b'.parent = b.parent) (context : b'.kernelContext = b.kernelContext)
    (pid : b'.pid = b.pid) (delay : p = s.idleProc → b'.delayTicks ≤ 0) :
    IdleApart (s.setProc p b') := by
  have kept := apart.procs p b live
  refine apart.setProc live ⟨?_, ?_, ?_, delay, ?_⟩
  · rw [parent]
    exact kept.parent
  · rw [context]
    exact kept.fork
  · rw [pid]
    exact kept.pid
  · rw [context]
    exact kept.saved

/-- The idle process calls no terminal. -/
theorem shift (apart : IdleApart s) (shift : Shift env limits s s')
    (calls : limits.tty → s.current ≠ s.idleProc) : IdleApart s' := by
  cases shift with
  | toUser => exact apart.toUser
  | @tick p b live delayed =>
      apply apart.update { b with delayTicks := b.delayTicks - 1 } live rfl rfl rfl
      intro same
      have undelayed := (apart.procs p b live).delay same
      simp only
      omega
  | @wakeDelayed p b k live delayed =>
      have counted := apart.update { b with delayTicks := 0 } live rfl rfl rfl
        fun _ => Int.le_refl 0
      exact (counted.remove .blocked p).push_ready _
  | wakeReader live queue => exact ((apart.pop queue).remove .blocked _).push_ready _
  | wakeWriter live queue => exact ((apart.pop queue).remove .blocked _).push_ready _
  | wakeWriterBlocked failed live queue => exact (apart.pop queue).push_ready _
  | @wakeWriting tty p b k live writer =>
      have released : IdleApart (s.setWriter tty none) := apart.setWriter (by simp)
      exact (released.remove .blocked _).push_ready _
  | @delay _ b ticks k allowed user busy live switch =>
      have started := apart.update { b with delayTicks := ticks } live rfl rfl rfl
        fun same => absurd same busy
      exact (started.push _ _ fun _ => busy).dispatch switch (by simp) busy
  | blockReader allowed user busy switch =>
      exact ((apart.push _ _ fun _ => busy).push _ _ fun _ => busy).dispatch switch (by simp) busy
  | blockWriter allowed user busy switch =>
      exact ((apart.push _ _ fun _ => busy).push _ _ fun _ => busy).dispatch switch (by simp) busy
  | @blockWriting _ tty len k allowed switch =>
      have busy : s.current ≠ s.idleProc := by
        rcases allowed with allowed | ⟨b, buf, n, live, saved⟩
        · exact calls allowed
        · intro same
          rcases (apart.procs _ b live).saved same with other | other
          · rw [other] at saved
            cases saved
          · rw [other] at saved
            cases saved
      have owned : IdleApart (s.setWriter tty (some s.current)) :=
        apart.setWriter (by simpa using busy)
      exact (owned.push _ _ fun _ => busy).dispatch switch (by simp) busy
  | @blockWait _ b statusPtr user busy live none switch =>
      have waits := apart.update { b with waitingForChildPid := 1 } live rfl rfl rfl
        (apart.procs _ b live).delay
      exact waits.dispatch switch (by simp) busy
  | @preempt b n p rest kept user live ready next =>
      have requeued := (apart.pop ready).push_ready (p := s.current) kept
      exact (requeued.save live (by simp) fun other => absurd rfl other).enter _

theorem wakeParent {parent : Option PcbPtr} (apart : IdleApart s)
    (wake : WakeParent env s parent t) : IdleApart t := by
  cases wake with
  | noParent => exact apart
  | @waiting q b k live flag =>
      have cleared := apart.update { b with waitingForChildPid := 0 } live rfl rfl rfl
        (apart.procs q b live).delay
      exact cleared.push_ready _
  | notWaiting live flag => exact apart

theorem spawn (apart : IdleApart s) (busy : s.current ≠ s.idleProc) (b : Proc)
    (inReady inChildren : Bool) : IdleApart (s.spawn env b inReady inChildren) := by
  have child : s.nextPcb ≠ s.idleProc := Nat.ne_of_gt apart.numbered
  have born : IdleApart ({ s with
      nextPcb := s.nextPcb + 1
      pidCalls := s.pidCalls + 1
      procTable := s.slotTaken }.setProc s.nextPcb (newProc env s b)) := by
    refine ⟨Nat.lt_succ_of_lt apart.numbered, ?_, apart.queues, apart.writer, ?_⟩
    · intro q beyond
      have other : q ≠ s.nextPcb := Nat.ne_of_gt beyond
      rw [setProc_procs, Function.update_of_ne other]
      exact apart.fresh q (Nat.le_of_lt beyond)
    · intro q c found
      by_cases same : q = s.nextPcb
      · subst same
        rw [setProc_procs, Function.update_self] at found
        obtain rfl := Option.some.inj found
        refine ⟨by simp [newProc, PCB.fresh, PCB.proc], ?_, fun idles => absurd idles child,
          fun idles => absurd idles child, fun idles => absurd idles child⟩
        intro young old saved
        obtain ⟨rfl, rfl⟩ := KernelContext.fork.inj saved
        exact ⟨child, busy⟩
      · rw [setProc_procs, Function.update_of_ne same] at found
        exact apart.procs q c found
  have childless := born.setQueue (.children s.nextPcb) fun _ => List.not_mem_nil
  exact ((childless.push_ready inReady).push inChildren _ fun _ => child).log _

theorem move (apart : IdleApart s) (move : Move env limits s s')
    (calls : limits.tty → s.current ≠ s.idleProc) : IdleApart s' := by
  cases move with
  | shift moved => exact apart.shift moved calls
  | @exit woken _ b status frame origin k allowed user busy live notInit wake switch =>
      have queued := apart.push (env.mallocOk k) .zombie fun _ => busy
      have ended := queued.update { b with exitStatus := status } live rfl rfl rfl
        (apart.procs _ b live).delay
      have told := (ended.log (.exited s.current status)).wakeParent wake
      apply told.dispatch switch (by simp)
      rw [wake.same.1, wake.same.2]
      exact busy
  | fork allowed user busy live other slot => exact apart.spawn busy _ _ _
  | @childReturn b q child parent inKernel live saved parentLive pids =>
      have kept := apart.procs _ b live
      have named := kept.fork child parent saved
      have known : Proc.Apart s.idleProc s.current { b with parent := some parent } :=
        ⟨by simpa using named.2, kept.fork, kept.pid, kept.delay, kept.saved⟩
      exact (apart.setProc live known).toUser
  | @forkAgain b q c child parent k k' inKernel live saved parentLive childLive pids =>
      have named := (apart.procs _ b live).fork child parent saved
      have queued := (apart.push_ready (p := child) (env.mallocOk k)).push (env.mallocOk k')
        (.children parent) fun _ => named.1
      exact (queued.log _).toUser
  | reap allowed live zombie dead child =>
      exact ((((apart.remove _ _).remove _ _).delete _).log _).toUser
  | noChildren => exact apart.log _
  | noZombie => exact (apart.log _).toUser

theorem moves (apart : IdleApart s) (moves : Moves env limits s s') (noTty : ¬ limits.tty) :
    IdleApart s' := by
  induction moves with
  | refl => exact apart
  | tail _ last inductionHypothesis =>
      exact inductionHypothesis.move last fun allowed => absurd allowed noTty

/-- After boot the idle process has the first pid. -/
theorem booted {ready : Bool} (idlePid : env.helperNewPid 0 = 0) :
    IdleApart (booted env ready) := by
  constructor
  case numbered => exact Nat.zero_lt_two
  case fresh =>
    intro p beyond
    have above : 2 ≤ p := beyond
    rw [booted_procs, if_neg (Nat.ne_of_gt above),
      if_neg (Nat.ne_of_gt (Nat.lt_of_lt_of_le Nat.two_pos above))]
  case queues =>
    intro queue notReady
    rw [booted_queue notReady]
    exact List.not_mem_nil
  case writer =>
    intro tty owned
    cases owned
  case procs =>
    intro p b found
    rw [booted_procs] at found
    split at found
    · rename_i init
      cases found
      have other : p ≠ 0 := by
        rw [init]
        exact Nat.one_ne_zero
      exact ⟨by simp [PCB.fresh, PCB.proc], (fun _ _ fork => by cases fork),
        fun idle => absurd idle other, fun idle => absurd idle other,
        fun idle => absurd idle other⟩
    · split at found
      · cases found
        exact ⟨by simp [PCB.fresh, PCB.proc], (fun _ _ fork => by cases fork), fun _ => idlePid,
          fun _ => Int.le_refl 0, fun _ => Or.inl rfl⟩
      · cases found

end IdleApart

/-! ### What becomes of the ready queue -/

/-- The ready queue grows at its end, by processes other than idle; the current process stays. -/
structure Keeps (s t : Sched) : Prop where
  ready : ∃ woken, t.queues .ready = s.queues .ready ++ woken ∧ s.idleProc ∉ woken
  current : t.current = s.current
  idle : t.idleProc = s.idleProc

namespace Keeps

theorem of_same (ready : t.queues .ready = s.queues .ready) (current : t.current = s.current)
    (idle : t.idleProc = s.idleProc) : Keeps s t :=
  ⟨⟨[], by rw [ready, List.append_nil], by simp⟩, current, idle⟩

theorem refl (s : Sched) : Keeps s s := of_same rfl rfl rfl

theorem of_eq (same : t = s) : Keeps s t := by
  subst same
  exact refl t

theorem trans (first : Keeps s t) (second : Keeps t u) : Keeps s u := by
  obtain ⟨woken, ready, others⟩ := first.ready
  obtain ⟨woken', ready', others'⟩ := second.ready
  refine ⟨⟨woken ++ woken', by rw [ready', ready, List.append_assoc], ?_⟩,
    second.current.trans first.current, second.idle.trans first.idle⟩
  rw [List.mem_append, not_or, ← first.idle]
  exact ⟨first.idle ▸ others, others'⟩

/-- A process other than idle is made ready. -/
theorem push_ready (kept : Keeps s t) (allocated : Bool) (other : p ≠ s.idleProc) :
    Keeps s (t.push allocated .ready p) := by
  apply kept.trans
  refine ⟨?_, rfl, rfl⟩
  rw [push_queues, Function.update_self]
  cases allocated with
  | false => exact ⟨[], by simp⟩
  | true =>
      refine ⟨[p], by simp, ?_⟩
      rw [List.mem_singleton, kept.idle]
      exact other.symm

/-- Another queue changes. -/
theorem setQueue (kept : Keeps s t) {queue : QueueId} (entries : List PcbPtr)
    (notReady : queue ≠ .ready) : Keeps s (t.setQueue queue entries) := by
  apply kept.trans
  apply of_same
  · rw [setQueue_queues, Function.update_of_ne notReady.symm]
  · rfl
  · rfl

theorem push (kept : Keeps s t) (allocated : Bool) {queue : QueueId} (p : PcbPtr)
    (notReady : queue ≠ .ready) : Keeps s (t.push allocated queue p) := kept.setQueue _ notReady

theorem log (kept : Keeps s t) (e : Event) : Keeps s (t.log e) :=
  kept.trans (of_same rfl rfl rfl)

theorem wakeParent {parent : Option PcbPtr} (kept : Keeps s t)
    (named : parent ≠ some t.idleProc) (wake : WakeParent env t parent u) : Keeps s u := by
  cases wake with
  | noParent => exact kept
  | @waiting q b k live flag =>
      have cleared : Keeps s (t.setProc q { b with waitingForChildPid := 0 }) :=
        kept.trans (of_same rfl rfl rfl)
      apply cleared.push_ready
      rw [← kept.idle]
      simpa using named
  | notWaiting live flag => exact kept

end Keeps

/-- What a step does to the ready queue.  Either the current process stays and the queue grows at
its end; or the processor goes to the first process of a queue that grew at its end before, and the
interrupted process may then join it; or the queue is empty and the processor goes to idle. -/
inductive Serves (s s' : Sched) : Prop where
  | stays (user : s'.mode = .user) (kept : Keeps s s')
  | head (woken rest : List PcbPtr) (inKernel : s'.mode = .kernel)
      (line : s.queues .ready ++ woken = s'.current :: rest) (others : s.idleProc ∉ woken)
      (left : s'.queues .ready = rest ∨
        s.current ≠ s.idleProc ∧ s'.queues .ready = rest ++ [s.current])
      (same : s'.idleProc = s.idleProc)
  | idle (inKernel : s'.mode = .kernel) (empty : s.queues .ready = [])
      (left : s'.queues .ready = []) (idles : s'.current = s.idleProc)
      (same : s'.idleProc = s.idleProc)

namespace Serves

/-- Changes before the step that keep the line. -/
theorem after (kept : Keeps s t) (serves : Serves t s') : Serves s s' := by
  obtain ⟨woken, ready, others⟩ := kept.ready
  cases serves with
  | stays user kept' => exact .stays user (kept.trans kept')
  | head woken' rest inKernel line others' left same =>
      refine .head (woken ++ woken') rest inKernel ?_ ?_ ?_ (same.trans kept.idle)
      · rw [← line, ready, List.append_assoc]
      · rw [List.mem_append, not_or]
        exact ⟨others, kept.idle ▸ others'⟩
      · rw [← kept.current, ← kept.idle]
        exact left
  | idle inKernel empty left idles same =>
      have before : s.queues .ready = [] := by
        rw [ready] at empty
        exact (List.append_eq_nil_iff.mp empty).1
      exact .idle inKernel before left (idles.trans kept.idle) (same.trans kept.idle)

theorem of_dispatch {kc : KernelContext} (kept : Keeps s t) (switch : Dispatch kc t s') :
    Serves s s' := by
  apply Serves.after kept
  cases switch with
  | @next b n p rest current ready live =>
      refine .head [] rest rfl ?_ (by simp) (Or.inl ?_) rfl
      · rw [List.append_nil]
        exact ready
      · simp
  | idle current ready live => exact .idle rfl ready ready rfl rfl

theorem toUser (kept : Keeps s t) : Serves s t.toUser :=
  .stays rfl (kept.trans (.of_same rfl rfl rfl))

/-- The idle process does not get into the ready queue. -/
theorem idle_out (serves : Serves s s') (out : s.idleProc ∉ s.queues .ready) :
    s'.idleProc ∉ s'.queues .ready := by
  cases serves with
  | stays user kept =>
      obtain ⟨woken, ready, others⟩ := kept.ready
      rw [kept.idle, ready, List.mem_append, not_or]
      exact ⟨out, others⟩
  | head woken rest inKernel line others left same =>
      have outside : s.idleProc ∉ rest := by
        intro member
        have joined : s.idleProc ∈ s.queues .ready ++ woken := by
          rw [line]
          exact List.mem_cons_of_mem _ member
        rcases List.mem_append.mp joined with there | there
        · exact out there
        · exact others there
      rw [same]
      rcases left with left | ⟨other, left⟩
      · rw [left]
        exact outside
      · rw [left, List.mem_append, not_or, List.mem_singleton]
        exact ⟨outside, fun current => other current.symm⟩
  | idle inKernel empty left idles same =>
      rw [left]
      exact List.not_mem_nil

end Serves

end Sched

namespace Kernel

open Transition
open Sched (IdleApart Keeps Serves)

variable {env : Env} {s s' t u : Kernel} {kc : KernelContext}

theorem serves_dispatch (kept : Keeps s.sched t.sched) (h : t.dispatch kc = .ok s') :
    Serves s.sched s'.sched := .of_dispatch kept (dispatch_sched h)

theorem serves_return {v : Sched} (kept : Keeps s.sched v) (view : s'.sched = v.toUser) :
    Serves s.sched s'.sched := by
  rw [view]
  exact .toUser kept

/-- A call that came back returns to user mode. -/
theorem serves_finish {rc : Int} {done : Int → Kernel → Except Stop Kernel}
    (h : finish (some rc, t) done = .ok s')
    (returns : ∀ rc (v u : Kernel), done rc v = .ok u → u.sched = v.sched.toUser)
    (kept : Keeps s.sched t.sched) : Serves s.sched s'.sched :=
  serves_return kept (returns rc t s' h)

/-- Everything may happen, except for calls of the terminals. -/
def noTty : Limits := { noLimits with tty := False }

/-! ### Clock -/

theorem keeps_trapHandlerHelper {p : PcbPtr} (apart : IdleApart s.sched)
    (h : s.trapHandlerHelper env p = .ok t) : Keeps s.sched t.sched := by
  obtain ⟨b, live, ⟨-, rfl⟩ | ⟨-, rfl⟩ | ⟨one, rfl⟩⟩ := trapHandlerHelper_eq_ok h
  · exact .refl _
  · exact .of_same rfl rfl rfl
  · have other : p ≠ s.sched.idleProc := by
      intro same
      have undelayed : b.delayTicks ≤ 0 := (apart.procs p b.proc (procs_of_heap live)).delay same
      omega
    rw [sched_queueEnqueue, sched_queueRemove, sched_setPcb]
    have counted : Keeps s.sched
        (s.sched.setProc p { b with delayTicks := 0, state := .ready }.proc) := .of_same rfl rfl rfl
    exact (counted.setQueue _ (by simp)).push_ready _ other

theorem keeps_iterateBlocked {blocked : List PcbPtr} (apart : IdleApart s.sched)
    (h : iterateBlocked env blocked s = .ok t) : Keeps s.sched t.sched ∧ IdleApart t.sched := by
  induction blocked generalizing s with
  | nil =>
      cases h
      exact ⟨.refl _, apart⟩
  | cons process rest inductionHypothesis =>
      simp only [iterateBlocked, bind_eq_ok] at h
      obtain ⟨u, visited, h⟩ := h
      have kept := keeps_trapHandlerHelper apart visited
      have moved := apart.moves (trapHandlerHelper_moves noTty visited).1 not_false
      obtain ⟨kept', apart'⟩ := inductionHypothesis moved h
      exact ⟨kept.trans kept', apart'⟩

theorem serves_clockTrapHandler (apart : IdleApart s.sched)
    (h : s.clockTrapHandler env = .ok s') : Serves s.sched s'.sched := by
  obtain ⟨t, u, saved, iterated, tail⟩ := clockTrapHandler_eq_ok h
  have view := sched_saveContext saved
  rw [← view] at apart ⊢
  obtain ⟨kept, apart'⟩ := keeps_iterateBlocked apart iterated
  have current : u.currentProcess = s.currentProcess :=
    kept.current.trans (congrArg Sched.current view)
  rcases tail with ⟨-, restored⟩ | ⟨next, rest, c, ready, live, tail⟩
  · exact serves_return kept (sched_restoreContext restored)
  apply Serves.after kept
  rcases tail with ⟨-, named, v, readied, switched⟩ | ⟨-, switched⟩
  · have other : u.sched.current ≠ u.sched.idleProc := by
      intro same
      have live' : u.sched.procs u.sched.current = some c.proc := by
        apply procs_of_heap
        change u.heap u.currentProcess = some c
        rw [current]
        exact live
      exact named ((apart'.procs _ c.proc live').pid same)
    obtain ⟨d, n, -, -, after⟩ := sched_kcSwitch switched
    rw [after, sched_queueEnqueue, sched_modifyPcb_self readied fun _ => rfl, sched_setQueue]
    refine .head [] rest rfl ?_ (by simp) ?_ rfl
    · rw [List.append_nil]
      exact ready
    · rw [← current]
      cases env.mallocOk v.mallocCalls with
      | false => exact Or.inl (by simp)
      | true => exact Or.inr ⟨other, by simp⟩
  · obtain ⟨d, n, -, -, after⟩ := sched_kcSwitch switched
    rw [after, sched_setQueue]
    refine .head [] rest rfl ?_ (by simp) (Or.inl (by simp)) rfl
    rw [List.append_nil]
    exact ready

/-! ### System calls -/

theorem serves_exit {status : Int} {origin : ExitOrigin} (apart : IdleApart s.sched)
    (h : s.exit env status origin = .ok s') : Serves s.sched s'.sched := by
  obtain ⟨b, woken, live, -, wake, frame, switch⟩ := exit_sched h
  have queued : Keeps s.sched (s.sched.push (env.mallocOk s.mallocCalls) .zombie s.sched.current) :=
    (Keeps.refl _).push _ _ (by simp)
  have ended : Keeps s.sched (s.sched.zombified b status (env.mallocOk s.mallocCalls)) :=
    queued.trans (.of_same rfl rfl rfl)
  exact .of_dispatch (ended.wakeParent (apart.procs _ b live).parent wake) switch

theorem serves_ttyReadValid {tty : TtyId} {buf : Word} {len : Int} {n : Nat}
    {result : Option Int × Kernel} (called : s.ttyReadValid env tty buf n = .ok result)
    (h : finish result (fun rc t => t.unpackRead tty buf len rc) = .ok s') :
    Serves s.sched s'.sched := by
  rcases ttyReadValid_eq_ok called with
    ⟨-, -, rfl⟩ | ⟨-, -, n, b, -, -, rfl⟩ | ⟨-, t, u, parked, switched, rfl⟩
  · exact serves_finish h (fun _ _ _ => unpackRead_sched) (.of_same rfl rfl rfl)
  · exact serves_finish h (fun _ _ _ => unpackRead_sched) (.of_same rfl rfl rfl)
  · cases h
    refine serves_dispatch ?_ switched
    rw [sched_modifyPcb_self parked fun _ => rfl, sched_queueEnqueue, sched_queueEnqueue,
      sched_log_other rfl]
    exact ((Keeps.refl _).push _ _ (by simp)).push _ _ (by simp)

theorem serves_ttyWriteLocked {tty : TtyId} {buf : Word} {n : Nat}
    {result : Option Int × Kernel} {asked : Option TtyId} (apart : IdleApart s.sched)
    (called : s.ttyWriteLocked env tty buf n = .ok result)
    (h : finish result (finishTtyWrite asked) = .ok s') : Serves s.sched s'.sched := by
  obtain ⟨b, live, ⟨-, -, rfl⟩ | ⟨-, next, rest, t, writers, readied, rfl⟩ |
    ⟨-, bytes, u, -, switched, rfl⟩⟩ := ttyWriteLocked_eq_ok called
  · exact serves_finish h (fun _ _ _ => finishTtyWrite_sched) (.of_same rfl rfl rfl)
  · refine serves_finish h (fun _ _ _ => finishTtyWrite_sched) ?_
    rw [sched_queueEnqueue, sched_modifyPcb_self readied fun _ => rfl, sched_setQueue]
    have refused : Keeps s.sched (s.refuseWrite env tty b).sched := .of_same rfl rfl rfl
    apply (refused.setQueue rest (by simp)).push_ready
    have member : next ∈ s.sched.queues (.writers tty) := by
      rw [sched_queues, writers]
      exact List.mem_cons_self
    intro same
    rw [same] at member
    exact apart.queues _ (by simp) member
  · cases h
    refine serves_dispatch ?_ switched
    have begun : Keeps s.sched (s.beginWrite env tty bytes n b).sched := by
      rw [beginWrite, sched_queueEnqueue]
      apply Keeps.push
      · exact .of_same rfl rfl rfl
      · simp
    exact begun

theorem serves_ttyWriteValid {tty : TtyId} {buf : Word} {n : Nat}
    {result : Option Int × Kernel} {asked : Option TtyId} (apart : IdleApart s.sched)
    (called : s.ttyWriteValid env tty buf n = .ok result)
    (h : finish result (finishTtyWrite asked) = .ok s') : Serves s.sched s'.sched := by
  unfold ttyWriteValid at called
  by_cases locked : (s.terminals tty).inUse = true
  · simp only [log_terminals, locked, if_true, bind_eq_ok, pure_eq_ok] at called
    obtain ⟨t, blocked, u, switched, rfl⟩ := called
    cases h
    refine serves_dispatch ?_ switched
    rw [sched_queueEnqueue, sched_modifyPcb_self blocked fun _ => rfl, sched_queueEnqueue,
      sched_log_other rfl]
    exact ((Keeps.refl _).push _ _ (by simp)).push _ _ (by simp)
  · simp only [log_terminals, locked] at called
    have same : (s.log (.ttyWriteCalled s.currentProcess tty
      (s.userBytes s.currentProcess buf n))).sched = s.sched := sched_log_other rfl
    rw [← same] at apart ⊢
    exact serves_ttyWriteLocked apart called h

/-! ### Calls of the terminals and the idle process -/

theorem apart_finish {result : Option Int × Kernel} {done : Int → Kernel → Except Stop Kernel}
    (apart : IdleApart result.2.sched) (h : finish result done = .ok s')
    (returns : ∀ rc (v u : Kernel), done rc v = .ok u → u.sched = v.sched.toUser) :
    IdleApart s'.sched := by
  rcases result with ⟨_ | rc, t⟩
  · cases h
    exact apart
  · rw [returns rc t s' h]
    exact apart.toUser

theorem apart_ttyReadValid {tty : TtyId} {buf : Word} {n : Nat} {result : Option Int × Kernel}
    (apart : IdleApart s.sched) (user : s.mode = .user) (busy : s.currentProcess ≠ s.idleProc)
    (called : s.ttyReadValid env tty buf n = .ok result) : IdleApart result.2.sched := by
  have allowed : noLimits.tty := trivial
  rcases ttyReadValid_move allowed user busy called with ⟨-, move⟩ | ⟨-, same⟩
  · exact apart.move move fun _ => busy
  · rw [same]
    exact apart

theorem apart_ttyWriteLocked {tty : TtyId} {buf : Word} {n : Nat}
    {result : Option Int × Kernel} (apart : IdleApart s.sched)
    (busy : s.currentProcess ≠ s.idleProc)
    (called : s.ttyWriteLocked env tty buf n = .ok result) : IdleApart result.2.sched := by
  obtain ⟨b, live, outcome⟩ := ttyWriteLocked_eq_ok called
  rcases outcome with ⟨-, -, rfl⟩ | ⟨-, next, rest, t, writers, readied, rfl⟩ |
    ⟨-, bytes, u, -, switched, rfl⟩
  · rw [sched_refuseWrite live]
    exact apart
  · rw [sched_queueEnqueue, sched_modifyPcb_self readied fun _ => rfl, sched_setQueue,
      sched_refuseWrite live]
    exact (apart.pop writers).push_ready _
  · have owned : IdleApart (s.sched.setWriter tty (some s.currentProcess)) :=
      apart.setWriter (by simpa using busy)
    have switch := dispatch_sched switched
    rw [sched_beginWrite live] at switch
    exact (owned.push _ _ fun _ => busy).dispatch switch (by simp) busy

theorem apart_ttyWriteValid {tty : TtyId} {buf : Word} {n : Nat} {result : Option Int × Kernel}
    (apart : IdleApart s.sched) (busy : s.currentProcess ≠ s.idleProc)
    (called : s.ttyWriteValid env tty buf n = .ok result) : IdleApart result.2.sched := by
  unfold ttyWriteValid at called
  by_cases locked : (s.terminals tty).inUse = true
  · simp only [log_terminals, locked, if_true, bind_eq_ok, pure_eq_ok] at called
    obtain ⟨t, blocked, u, switched, rfl⟩ := called
    have switch := dispatch_sched switched
    rw [sched_queueEnqueue, sched_modifyPcb_self blocked fun _ => rfl, sched_queueEnqueue,
      sched_log_other rfl] at switch
    exact ((apart.push _ _ fun _ => busy).push _ _ fun _ => busy).dispatch switch (by simp) busy
  · simp only [log_terminals, locked] at called
    have same : (s.log (.ttyWriteCalled s.currentProcess tty
      (s.userBytes s.currentProcess buf n))).sched = s.sched := sched_log_other rfl
    rw [← same] at apart
    exact apart_ttyWriteLocked apart busy called

theorem apart_trapTtyRead (apart : IdleApart s.sched) (user : s.mode = .user)
    (busy : s.currentProcess ≠ s.idleProc) (h : s.trapTtyRead env = .ok s') :
    IdleApart s'.sched := by
  unfold trapTtyRead at h
  by_cases checked : checkBuffer (s.ctx.regs 1) (s.ctx.regs 2) = true
  · simp only [checked, if_true, bind_eq_ok] at h
    obtain ⟨t, saved, result, read, h⟩ := h
    obtain ⟨b, live, rfl⟩ := saveContext_eq_ok.mp saved
    rw [← sched_saveContext saved] at apart
    refine apart_finish ?_ h ?_
    · unfold ttyRead at read
      split at read
      · cases read
        exact apart
      · exact apart_ttyReadValid apart user busy read
    · intro rc u v returned
      split at returned
      · exact unpackRead_sched returned
      · exact sched_returnToUser returned
  · simp only [checked] at h
    cases h
    exact apart

theorem apart_trapTtyWrite (apart : IdleApart s.sched) (busy : s.currentProcess ≠ s.idleProc)
    (h : s.trapTtyWrite env = .ok s') : IdleApart s'.sched := by
  unfold trapTtyWrite at h
  by_cases checked : checkBuffer (s.ctx.regs 1) (s.ctx.regs 2) = true
  · simp only [checked, if_true, bind_eq_ok] at h
    obtain ⟨t, saved, result, written, h⟩ := h
    obtain ⟨b, live, rfl⟩ := saveContext_eq_ok.mp saved
    rw [← sched_saveContext saved] at apart
    refine apart_finish ?_ h fun _ _ _ => finishTtyWrite_sched
    unfold ttyWrite at written
    split at written
    · cases written
      exact apart
    · exact apart_ttyWriteValid apart busy written
  · simp only [checked] at h
    cases h
    exact apart

/-- Every step keeps the idle process apart. -/
theorem apart_step {i : Input} (apart : IdleApart s.sched) (step : s.Step env i s') :
    IdleApart s'.sched := by
  have fresh : s.heap s.nextPcb = none := by
    have absent := apart.fresh s.nextPcb (Nat.le_refl _)
    simpa using absent
  by_cases terminal : Calls yalnixTtyRead i ∨ Calls yalnixTtyWrite i
  · obtain ⟨enabled, h⟩ := step
    cases i with
    | kernelTrap ctx req =>
        change (s.trap ctx).kernelTrapHandler env req = .ok s' at h
        rcases terminal with code | code
        · rw [kernelTrapHandler_ttyRead (s := s.trap ctx) code] at h
          exact apart_trapTtyRead (s := s.trap ctx) apart enabled.1 enabled.2 h
        · rw [kernelTrapHandler_ttyWrite (s := s.trap ctx) code] at h
          exact apart_trapTtyWrite (s := s.trap ctx) apart enabled.2 h
    | _ => exact absurd terminal (by simp [Calls])
  · have allowed : noTty.Allows env s i :=
      ⟨fun _ => trivial, fun _ => trivial, fun _ _ => trivial, fun _ => trivial,
        fun _ => trivial, fun calls => terminal calls⟩
    exact apart.moves (deliver_moves fresh allowed step) not_false

/-! ### Every step serves the line -/

theorem serves_trapDelay (h : s.trapDelay env = .ok s') : Serves s.sched s'.sched := by
  simp only [trapDelay, bind_eq_ok] at h
  obtain ⟨t, saved, result, called, h⟩ := h
  rw [← sched_saveContext saved]
  have returns : ∀ rc (v u : Kernel),
      (if rc = Status.error.code then .error .halt else v.returnToUser rc) = .ok u →
        u.sched = v.sched.toUser := by
    intro rc v u returned
    split at returned
    · cases returned
    · exact sched_returnToUser returned
  unfold delay at called
  split at called
  · cases called
    exact serves_finish h returns (.refl _)
  · split at called
    · cases called
      exact serves_finish h returns (.refl _)
    · simp only [bind_eq_ok, pure_eq_ok] at called
      obtain ⟨u, delayed, v, switched, rfl⟩ := called
      cases h
      obtain ⟨b, -, rfl⟩ := modifyPcb_eq_ok.mp delayed
      refine serves_dispatch ?_ switched
      rw [sched_queueEnqueue]
      apply Keeps.push
      · exact .of_same rfl rfl rfl
      · simp

theorem keeps_fork (other : s.currentProcess ≠ s.nextPcb) (child : s.nextPcb ≠ s.idleProc)
    (h : s.fork env = .ok (.success, t)) : Keeps s.sched t.sched := by
  obtain ⟨i, c, m, pt, m', pages, current, -, -, -, -, -, rfl⟩ := fork_eq_ok other h
  have born : Keeps s.sched (({ s with
      mallocCalls := s.mallocCalls + 4
      nextPcb := s.nextPcb + 1
      procTable := Function.update s.procTable i (some s.nextPcb)
      pidCalls := s.pidCalls + 1
      mem := copyKernelStack current pages m' }.setPcb s.nextPcb
        (forkedPcb env s c pt pages)).setQueue (.children s.nextPcb) []).sched :=
    .of_same (by simp) rfl rfl
  generalize (({ s with
      mallocCalls := s.mallocCalls + 4
      nextPcb := s.nextPcb + 1
      procTable := Function.update s.procTable i (some s.nextPcb)
      pidCalls := s.pidCalls + 1
      mem := copyKernelStack current pages m' }.setPcb s.nextPcb
        (forkedPcb env s c pt pages)).setQueue (.children s.nextPcb) []) = v at born
  have queued : Keeps s.sched ((v.queueEnqueue env .ready s.nextPcb).queueEnqueue env
      (.children s.currentProcess) s.nextPcb).sched := by
    rw [sched_queueEnqueue, sched_queueEnqueue]
    exact (born.push_ready _ child).push _ _ (by simp)
  exact queued.trans (.of_same rfl rfl rfl)

theorem serves_trapFork (apart : IdleApart s.sched) (h : s.trapFork env = .ok s') :
    Serves s.sched s'.sched := by
  simp only [trapFork, bind_eq_ok] at h
  obtain ⟨t, saved, ⟨status, u⟩, forked, h⟩ := h
  obtain ⟨b, live, same⟩ := saveContext_eq_ok.mp saved
  have current : t.heap t.currentProcess ≠ none := by
    rw [same, setPcb_currentProcess, setPcb_heap, Function.update_self]
    exact Option.some_ne_none _
  have view := sched_saveContext saved
  rw [← view] at apart ⊢
  rcases fork_status forked with rfl | rfl
  · simp only [reduceCtorEq, if_false] at h
    have other : t.currentProcess ≠ t.nextPcb := by
      intro fresh
      have absent := apart.fresh t.nextPcb (Nat.le_refl _)
      rw [sched_procs, Option.map_eq_none_iff] at absent
      rw [fresh] at current
      exact current absent
    exact serves_return (keeps_fork other (Nat.ne_of_gt apart.numbered) forked)
      (sched_restoreContext h)
  · cases h

/-- What a reaping scan leaves behind. -/
theorem keeps_reap {z : PcbPtr} {e : Event}
    (reaped : t.sched =
      ((s.sched.remove (.children s.sched.current) z).remove .zombie z).delete z) :
    Keeps s.sched (t.sched.log e) := by
  rw [reaped]
  exact .of_same (by simp) rfl rfl

theorem serves_trapWait (h : s.trapWait = .ok s') : Serves s.sched s'.sched := by
  simp only [trapWait, bind_eq_ok] at h
  obtain ⟨t, saved, result, waited, h⟩ := h
  rw [← sched_saveContext saved]
  simp only [wait] at waited
  by_cases childless : t.isEmpty (.children t.currentProcess) = true
  · rw [if_pos childless] at waited
    cases waited
    exact serves_return ((Keeps.refl _).log _) (finishWait_sched h)
  · rw [if_neg childless, bind_eq_ok] at waited
    obtain ⟨⟨found, u⟩, scanned, waited⟩ := waited
    rcases waitScan_sched scanned with ⟨z, b, c, -, -, -, -, -, rfl, reaped⟩ | ⟨unchanged, -⟩
    · cases waited
      exact serves_return (keeps_reap reaped) (finishWait_sched h)
    · obtain ⟨rfl, rfl⟩ := Prod.mk.inj unchanged
      simp only [bind_eq_ok, pure_eq_ok] at waited
      obtain ⟨w, blocked, x, switched, rfl⟩ := waited
      cases h
      obtain ⟨b, -, rfl⟩ := modifyPcb_eq_ok.mp blocked
      refine serves_dispatch ?_ switched
      exact .of_same rfl rfl rfl

theorem serves_kernelTrapHandler {req : LoadRequest} (user : s.mode = .user)
    (apart : IdleApart s.sched) (h : s.kernelTrapHandler env req = .ok s') :
    Serves s.sched s'.sched := by
  cases kernelTrapHandler_eq_ok h with
  | delay _ ran => exact serves_trapDelay ran
  | brk _ ran => exact serves_return (.refl _) (quietTrap_sched env req (Or.inl ran))
  | fork _ ran => exact serves_trapFork apart ran
  | getPid _ ran => exact serves_return (.refl _) (quietTrap_sched env req (Or.inr (Or.inl ran)))
  | wait _ ran => exact serves_trapWait ran
  | exit _ ran => exact serves_exit apart ran
  | exec _ ran => exact serves_return (.refl _) (quietTrap_sched env req (Or.inr (Or.inr ran)))
  | ttyRead _ ran =>
      unfold trapTtyRead at ran
      by_cases checked : checkBuffer (s.ctx.regs 1) (s.ctx.regs 2) = true
      · simp only [checked, if_true, bind_eq_ok] at ran
        obtain ⟨t, saved, result, called, ran⟩ := ran
        rw [← sched_saveContext saved]
        unfold ttyRead at called
        rcases arguments : ttyArguments (s.ctx.intReg 0) (s.ctx.regs 1) (s.ctx.intReg 2) with
          _ | ⟨tty, len⟩
        · rw [arguments] at called ran
          cases called
          exact serves_return (.refl _) (sched_returnToUser ran)
        · rw [arguments] at called ran
          exact serves_ttyReadValid called ran
      · simp only [checked] at ran
        cases ran
        exact .stays user (.refl _)
  | ttyWrite _ ran =>
      unfold trapTtyWrite at ran
      by_cases checked : checkBuffer (s.ctx.regs 1) (s.ctx.regs 2) = true
      · simp only [checked, if_true, bind_eq_ok] at ran
        obtain ⟨t, saved, result, called, ran⟩ := ran
        rw [← sched_saveContext saved] at apart ⊢
        unfold ttyWrite at called
        split at called
        · cases called
          exact serves_return (.refl _) (finishTtyWrite_sched ran)
        · exact serves_ttyWriteValid apart called ran
      · simp only [checked] at ran
        cases ran
        exact .stays user (.refl _)
  | unknown _ same =>
      subst same
      exact .stays user (.refl _)

theorem serves_memoryTrapHandler (user : s.mode = .user) (apart : IdleApart s.sched)
    (h : s.memoryTrapHandler env = .ok s') : Serves s.sched s'.sched := by
  simp only [memoryTrapHandler, bind_eq_ok] at h
  obtain ⟨c, -, h⟩ := h
  rcases action : memoryTrapAction c s.ctx with _ | _ | _
  · simp only [action, bind_eq_ok] at h
    obtain ⟨⟨status, t⟩, grown, h⟩ := h
    have view := (growStack_sched grown).1
    have user' : t.sched.mode = .user := by
      rw [view]
      exact user
    rw [← view] at apart ⊢
    by_cases failed : status = .kill
    · simp only [failed, if_true] at h
      exact serves_exit apart h
    · simp only [failed, if_false] at h
      cases h
      exact .stays user' (.refl _)
  · simp only [action] at h
    exact serves_exit apart h
  · simp only [action] at h
    cases h
    exact .stays user (.refl _)

/-! ### Terminal traps -/

theorem keeps_handOver {tty : TtyId} (apart : IdleApart s.sched) (h : HandOver env s tty s') :
    Keeps s.sched s'.sched := by
  cases h with
  | free none => exact .of_same rfl rfl rfl
  | @next next rest u writers readied =>
      rw [sched_queueEnqueue, sched_queueRemove, sched_modifyPcb_self readied fun _ => rfl,
        sched_setQueue]
      apply (((Keeps.refl _).setQueue rest (by simp)).setQueue _ (by simp)).push_ready
      have member : next ∈ s.sched.queues (.writers tty) := by
        rw [sched_queues, writers]
        exact List.mem_cons_self
      intro same
      rw [same] at member
      exact apart.queues _ (by simp) member

theorem keeps_ttyTrapTransmitHandler {tty : TtyId} (apart : IdleApart s.sched)
    (h : s.ttyTrapTransmitHandler env tty = .ok s') : Keeps s.sched s'.sched := by
  have released : IdleApart (s.sched.setWriter tty none) := apart.setWriter (by simp)
  have view : ((s.log (.ttyTransmitTrap tty)).clearWrite tty).sched =
      s.sched.setWriter tty none := by
    rw [sched_clearWrite, sched_log_other rfl]
  cases ttyTrapTransmitHandler_eq_ok h with
  | chunk left => exact .of_same rfl rfl rfl
  | unowned through none handed =>
      refine Keeps.trans ?_ (keeps_handOver ?_ handed)
      · exact .of_same rfl rfl rfl
      · rw [view]
        exact released
  | @owned w u _ through some woken handed =>
      have other : w ≠ s.sched.idleProc := by
        intro same
        apply apart.writer tty
        rw [← same]
        exact some
      refine Keeps.trans ?_ (keeps_handOver ?_ handed)
      · rw [sched_queueEnqueue, sched_queueRemove, sched_modifyPcb_self woken fun _ => rfl, view]
        apply Keeps.push_ready _ _ other
        apply Keeps.setQueue
        · exact .of_same rfl rfl rfl
        · simp
      · rw [sched_queueEnqueue, sched_queueRemove, sched_modifyPcb_self woken fun _ => rfl, view]
        exact (released.remove .blocked w).push_ready _

theorem keeps_serveReaders {tty : TtyId} {readers : List PcbPtr} (apart : IdleApart s.sched)
    (queue : s.queues (.readers tty) = readers) (h : serveReaders env tty readers s = .ok s') :
    Keeps s.sched s'.sched := by
  induction readers generalizing s with
  | nil =>
      cases h
      exact .refl _
  | cons reader rest inductionHypothesis =>
      by_cases empty : (s.terminals tty).readBufferLen = 0
      · rw [serveReaders, if_pos empty] at h
        cases h
        exact .refl _
      · obtain ⟨r, live, served⟩ := serveReaders_cons empty h
        have unlinked : (unlinkReader env s tty reader rest).sched =
            s.sched.setQueue (.readers tty) rest := by
          rw [unlinkReader, sched_log_other rfl, sched_malloc, sched_setQueue]
        have other : reader ≠ s.sched.idleProc := by
          intro same
          apply apart.queues (.readers tty) (by simp)
          rw [sched_queues, queue, same]
          exact List.mem_cons_self
        have readied : ∀ (v : Kernel) (b : PCB), b.proc = r.proc →
            v.sched = s.sched.setQueue (.readers tty) rest →
            Keeps s.sched (readyReader env v reader b).sched ∧
              IdleApart (readyReader env v reader b).sched := by
          intro v b same view
          constructor
          · rw [readyReader, sched_queueEnqueue, sched_setPcb, sched_queueRemove, view]
            have popped : Keeps s.sched ((s.sched.setQueue (.readers tty) rest).remove .blocked
                reader) := ((Keeps.refl _).setQueue rest (by simp)).setQueue _ (by simp)
            apply Keeps.push_ready _ _ other
            exact popped.trans (.of_same rfl rfl rfl)
          · have move : Sched.Move env noTty s.sched (readyReader env v reader b).sched :=
              readyReader_move live queue view same
            exact apart.move move not_false.elim
        have liveU : (unlinkReader env s tty reader rest).heap reader = some r := live
        rcases served with ⟨-, h⟩ | ⟨-, h⟩
        · have parked : (parkBlock (unlinkReader env s tty reader rest) tty reader r
              (readAmount r (s.terminals tty))).sched = s.sched.setQueue (.readers tty) rest := by
            rw [parkBlock, sched_setTerminal_self (by rfl), sched_log_other rfl,
              sched_setPcb_self liveU (by rfl), unlinked]
          refine Keeps.trans (readied _ _ (by rfl) parked).1
            (inductionHypothesis (readied _ _ (by rfl) parked).2 ?_ h)
          simp [readyReader, parkBlock, unlinkReader]
        · have refused : ((unlinkReader env s tty reader rest).setPcb reader
              { r with userContext := r.userContext.setReturn 0 }).sched =
              s.sched.setQueue (.readers tty) rest := by
            rw [sched_setPcb_self liveU (by rfl), unlinked]
          refine Keeps.trans (readied _ _ (by rfl) refused).1
            (inductionHypothesis (readied _ _ (by rfl) refused).2 ?_ h)
          simp [readyReader, unlinkReader]

theorem keeps_ttyTrapReceiveHandler {tty : TtyId} {data : List Byte} (apart : IdleApart s.sched)
    (h : s.ttyTrapReceiveHandler env tty data = .ok s') : Keeps s.sched s'.sched := by
  unfold ttyTrapReceiveHandler at h
  refine Keeps.trans ?_ (keeps_serveReaders ?_ rfl h)
  · exact .of_same rfl rfl rfl
  · rw [sched_setTerminal_self (by rfl), sched_log_other rfl]
    exact apart

/-! ### Coming back from a context switch -/

theorem keeps_forkReturn {child parent : PcbPtr} (other : child ≠ s.idleProc)
    (h : s.forkReturn env child parent = .ok t) : Keeps s.sched t.sched := by
  simp only [forkReturn, bind_eq_ok] at h
  obtain ⟨c, -, q, -, h⟩ := h
  by_cases pids : c.pid = q.pid
  · simp only [pids, if_true, bind_eq_ok] at h
    obtain ⟨u, readied, d, -, answered⟩ := h
    rw [sched_modifyPcb_self answered fun _ => rfl, sched_log_family rfl, sched_queueEnqueue,
      sched_queueEnqueue, sched_modifyPcb_self readied fun _ => rfl]
    exact (((Keeps.refl s.sched).push_ready _ other).push _ _ (by simp)).log _
  · simp only [pids, if_false] at h
    obtain ⟨d, -, rfl⟩ := modifyPcb_eq_ok.mp h
    exact .of_same rfl rfl rfl

theorem serves_resume (apart : IdleApart s.sched) (h : s.resume env = .ok s') :
    Serves s.sched s'.sched := by
  simp only [resume, bind_eq_ok, deref_eq_ok] at h
  obtain ⟨c, live, h⟩ := h
  cases saved : c.kernelContext with
  | unsaved =>
      rw [saved] at h
      cases h
  | kernelStart =>
      rw [saved] at h
      exact serves_return (.refl _) (sched_restoreContext h)
  | fork child parent =>
      rw [saved] at h
      simp only [bind_eq_ok] at h
      obtain ⟨t, forked, h⟩ := h
      have named := (apart.procs _ c.proc (procs_of_heap live)).fork child parent saved
      exact serves_return (keeps_forkReturn named.1 forked) (sched_restoreContext h)
  | clockTrap =>
      rw [saved] at h
      exact serves_return (.refl _) (sched_restoreContext h)
  | delay =>
      rw [saved] at h
      exact serves_return (.refl _) (sched_returnToUser h)
  | wait statusPtr =>
      rw [saved] at h
      simp only [bind_eq_ok] at h
      obtain ⟨⟨rc, t⟩, resumed, h⟩ := h
      simp only [waitResumed, bind_eq_ok] at resumed
      obtain ⟨⟨found, u⟩, scanned, resumed⟩ := resumed
      rcases waitScan_sched scanned with ⟨z, b, d, -, -, -, -, -, rfl, reaped⟩ | ⟨unchanged, -⟩
      · cases resumed
        exact serves_return (keeps_reap reaped) (finishWait_sched h)
      · obtain ⟨rfl, rfl⟩ := Prod.mk.inj unchanged
        cases resumed
        exact serves_return ((Keeps.refl _).log _) (finishWait_sched h)
  | ttyRead tty buf len =>
      rw [saved] at h
      exact serves_return (.refl _) (unpackRead_sched h)
  | ttyWriteLock tty buf len =>
      rw [saved] at h
      simp only [bind_eq_ok] at h
      obtain ⟨result, locked, h⟩ := h
      exact serves_ttyWriteLocked apart locked h
  | ttyWriteDone tty len =>
      rw [saved] at h
      exact serves_return (.refl _) (finishTtyWrite_sched h)
  | exit frame origin =>
      rw [saved] at h
      rcases origin with _ | _ | _
      · cases h
        exact .stays rfl (.of_same rfl rfl rfl)
      · cases h
        exact .stays rfl (.of_same rfl rfl rfl)
      · cases h

/-! ### Runs -/

/-- What a step does to the ready queue of a machine whose idle process is apart. -/
theorem serves_step {i : Input} (apart : IdleApart s.sched) (step : s.Step env i s') :
    Serves s.sched s'.sched := by
  obtain ⟨enabled, h⟩ := step
  cases i with
  | kernelTrap ctx req =>
      exact serves_kernelTrapHandler (s := s.trap ctx) enabled.1 apart h
  | clockTrap ctx => exact serves_clockTrapHandler (s := s.trap ctx) apart h
  | memoryTrap ctx => exact serves_memoryTrapHandler (s := s.trap ctx) enabled.1 apart h
  | mathTrap ctx => exact serves_exit (s := s.trap ctx) apart h
  | illegalTrap ctx => exact serves_exit (s := s.trap ctx) apart h
  | ttyReceiveTrap ctx tty data =>
      have user : s'.mode = .user := (SameFrame.ttyTrapReceiveHandler h).2.1.trans enabled.1
      exact .stays user (keeps_ttyTrapReceiveHandler (s := s.trap ctx) apart h)
  | ttyTransmitTrap ctx tty =>
      have user : s'.mode = .user := (SameFrame.ttyTrapTransmitHandler h).2.1.trans enabled
      exact .stays user (keeps_ttyTrapTransmitHandler (s := s.trap ctx) apart h)
  | resume => exact serves_resume apart h
  | userStore va bytes =>
      have view := sched_storeUser h
      exact .stays ((congrArg Sched.mode view).trans enabled.1) (.of_eq view)
  | kernelBrk addr =>
      cases h
      exact .stays enabled (.of_same rfl rfl rfl)

/-- The idle process is apart, and not ready either. -/
structure IdleOut (s : Kernel) : Prop where
  apart : IdleApart s.sched
  ready : s.idleProc ∉ s.queues .ready

theorem IdleOut.step {i : Input} (out : s.IdleOut) (step : s.Step env i s') : s'.IdleOut :=
  ⟨apart_step out.apart step, (serves_step out.apart step).idle_out out.ready⟩

theorem idleOut_start {cfg : BootConfig} (idlePid : env.helperNewPid 0 = 0)
    (started : kernelStart env cfg = .ok s) : s.IdleOut := by
  obtain ⟨ready, view⟩ := kernelStart_sched started
  constructor
  · rw [view]
    exact .booted idlePid
  · have idle : s.idleProc = 0 := congrArg Sched.idleProc view
    have queue : s.queues .ready = (Sched.booted env ready).queues .ready :=
      congrFun (congrArg Sched.queues view) .ready
    rw [idle, queue, Sched.booted_queues, Function.update_self]
    cases ready with
    | false => exact List.not_mem_nil
    | true => simp

theorem idleOut_reaches {cfg : BootConfig} {boot : Kernel} (idlePid : env.helperNewPid 0 = 0)
    (started : kernelStart env cfg = .ok boot) (run : Reaches (Step env) boot s) : s.IdleOut :=
  run.invariant (fun _ _ _ out step => out.step step) (idleOut_start idlePid started)

/-- What a step of a run does to the ready queue: without a switch the current process stays and
entries join at the end; a switch goes to the first entry of the queue once those woken in the step
have joined, and leaves the others in their order, the interrupted process behind them if it is to
run again; it goes to idle when the queue is empty. -/
inductive Dispatches (s s' : Kernel) : Prop where
  | stays (user : s'.mode = .user) (same : s'.currentProcess = s.currentProcess)
      (joined : s.queues .ready <+: s'.queues .ready)
  | head (line rest : List PcbPtr) (inKernel : s'.mode = .kernel)
      (joined : s.queues .ready <+: line) (first : line = s'.currentProcess :: rest)
      (left : s'.queues .ready = rest ∨ s'.queues .ready = rest ++ [s.currentProcess])
      (busy : s'.currentProcess ≠ s.idleProc)
  | idle (inKernel : s'.mode = .kernel) (empty : s.queues .ready = [])
      (left : s'.queues .ready = []) (idles : s'.currentProcess = s.idleProc)

theorem IdleOut.dispatches {i : Input} (out : s.IdleOut) (step : s.Step env i s') :
    s.Dispatches s' := by
  cases serves_step out.apart step with
  | stays user kept =>
      obtain ⟨woken, ready, -⟩ := kept.ready
      exact .stays user kept.current ⟨woken, ready.symm⟩
  | head woken rest inKernel line others left same =>
      refine .head (s.queues .ready ++ woken) rest inKernel ⟨woken, rfl⟩ line ?_ ?_
      · rcases left with left | ⟨-, left⟩
        · exact Or.inl left
        · exact Or.inr left
      · intro idles
        have first : s'.currentProcess ∈ s.queues .ready ++ woken := by
          have line' : s.queues .ready ++ woken = s'.currentProcess :: rest := line
          rw [line']
          exact List.mem_cons_self
        rw [idles] at first
        rcases List.mem_append.mp first with there | there
        · exact out.ready there
        · exact others there
  | idle inKernel empty left idles same => exact .idle inKernel empty left idles

/-- The ready queue is a line, and a context switch serves it. -/
theorem ready_discipline : Fifo.Discipline (Step env) IdleOut (fun s => s.mode = .kernel)
    (fun s => s.queues .ready) (fun s => s.currentProcess) where
  keeps _ _ _ out step := out.step step
  joins _ _ _ out step plain := by
    cases out.dispatches step with
    | stays user same joined => exact joined
    | head _ _ inKernel => exact absurd inKernel plain
    | idle inKernel => exact absurd inKernel plain
  serves _ _ _ out step inKernel busy := by
    cases out.dispatches step with
    | stays user =>
        rw [user] at inKernel
        cases inKernel
    | head _ _ _ joined first left _ =>
        subst first
        refine ⟨_, joined, ?_⟩
        rcases left with left | left
        · rw [left]
        · rw [left]
          exact List.prefix_append ..
    | idle _ empty => exact absurd empty busy

/-- In every run: the idle process stands in no queue; every step treats the ready queue as a line;
and an entry with `k` entries before it is `n` places further ahead after `n` switches and is given
the processor by the one after `k` switches, whatever joins meanwhile. -/
theorem ready_fifo {cfg : BootConfig} {boot : Kernel} (idlePid : env.helperNewPid 0 = 0)
    (started : kernelStart env cfg = .ok boot) (run : Reaches (Step env) boot s) :
    (∀ queue, s.idleProc ∉ s.queues queue) ∧
    (∀ i s', s.Step env i s' → s.Dispatches s') ∧
    ∀ k p, (s.queues .ready)[k]? = some p →
      (∀ n t, n ≤ k → Counted (Step env) (fun s => s.mode = .kernel) s n t →
        (t.queues .ready)[k - n]? = some p) ∧
      ∀ t i u, Counted (Step env) (fun s => s.mode = .kernel) s k t → t.Step env i u →
        u.mode = .kernel → u.currentProcess = p := by
  have out := idleOut_reaches idlePid started run
  refine ⟨?_, fun i s' step => out.dispatches step, fun k p entry => ⟨?_, ?_⟩⟩
  · intro queue
    by_cases ready : queue = .ready
    · rw [ready]
      exact out.ready
    · exact out.apart.queues queue ready
  · intro n t within counted
    have split : n + (k - n) = k := Nat.add_sub_cancel' within
    rw [← split] at entry
    exact ready_discipline.position out counted entry
  · intro t i u counted step switched
    exact ready_discipline.served out counted entry step switched

/-- Init has two children that are ready: the second one runs after the next switch but one. -/
theorem ready_fifo_sample : ∃ boot s, kernelStart sampleEnv sampleBoot = .ok boot ∧
    Reaches (Step sampleEnv) boot s ∧ s.queues .ready = [2, 3] ∧
    ∀ t i u, Counted (Step sampleEnv) (fun s => s.mode = .kernel) s 1 t → t.Step sampleEnv i u →
      u.mode = .kernel → u.currentProcess = 3 := by
  have answer : runs sampleEnv sampleBoot (fun _ _ => true)
      [.tick, .resume, .call yalnixFork 0 0 0, .call yalnixFork 0 0 0]
      (fun s => decide (s.queues .ready = [2, 3])) = .ok true := by
    decide +kernel
  obtain ⟨boot, s, started, run, known⟩ :=
    runs_sound (fun _ _ => True) (fun _ _ _ => trivial) answer
  have line := of_decide_eq_true known
  have second : (s.queues .ready)[1]? = some 3 := by
    rw [line]
    rfl
  exact ⟨boot, s, started, run.unguarded, line,
    ((ready_fifo rfl started run.unguarded).2.2 1 3 second).2⟩

end Kernel

end Yalnix
