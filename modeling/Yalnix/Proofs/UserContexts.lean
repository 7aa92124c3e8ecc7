/-
Module: Yalnix.Proofs.UserContexts
Purpose: The context a process returns to user mode with is the one of its last trap, but for the
  result of its own system call; a forked child starts with its parent's.
Trusted boundary: the pids of the hardware library do not repeat
Main exports: Input.Interrupts, Kernel.Suspended, Kernel.WriteOutcome, Kernel.OwnResult,
  user_context_isolation
-/
import Yalnix.Proofs.ReadCalls

namespace Yalnix

open Transition

/-- The input interrupts a program that runs in the frame `ctx`, and is no call of it. -/
def Input.Interrupts (ctx : UserContext) : Input → Prop
  | .clockTrap frame | .ttyReceiveTrap frame .. | .ttyTransmitTrap frame _ => frame = ctx
  | _ => False

namespace Kernel

variable {env : Env} {cfg : BootConfig} {boot s s' t u v : Kernel} {p q : PcbPtr} {b : PCB}
  {ctx : UserContext} {tty : TtyId} {buf : Word} {len : Nat}

/-! ### Interrupts -/

/-- The process was switched away by the clock, and no terminal will answer it. -/
structure Suspended (s : Kernel) (p : PcbPtr) (ctx : UserContext) : Prop where
  away : ¬ s.Runs p
  calm : s.Calm p
  pcb : ∃ b, s.heap p = some b ∧ b.kernelContext = .clockTrap ∧ b.userContext = ctx

theorem Suspended.step {i : Input} (known : Sched.Registered env s.sched)
    (suspended : s.Suspended p ctx) (other : s.currentProcess ≠ p) (step : s.Step env i s') :
    s'.Suspended p ctx := by
  obtain ⟨-, calm, b, live, saved, context⟩ := suspended
  have alive : b.kernelContext.isExit = false := by
    rw [saved]
    rfl
  have looksOn := looks_on known live alive other step
  obtain ⟨b', live', saved', -, answer⟩ := looksOn.kept calm.unanswered live
  have context' : b'.userContext = b.userContext := (Prod.mk.inj answer).1
  exact ⟨away_step known other step, calm.step looksOn, b', live', saved'.trans saved,
    context'.trans context⟩

theorem Suspended.resumes (suspended : s.Suspended p ctx) (current : s.currentProcess = p)
    (h : s.resume env = .ok t) : t.Runs p ∧ t.ctx = ctx := by
  obtain ⟨-, -, b, live, saved, context⟩ := suspended
  subst current
  simp only [resume, bind_eq_ok, deref_eq_ok] at h
  obtain ⟨c, live', h⟩ := h
  obtain rfl := Option.some.inj (live'.symm.trans live)
  rw [saved] at h
  obtain ⟨d, found, rfl⟩ := restoreContext_eq_ok.mp h
  obtain rfl := Option.some.inj (found.symm.trans live)
  exact ⟨⟨rfl, rfl⟩, context⟩

/-- The current process, if it is not idle, waits at no terminal. -/
theorem calm_of_current (known : Sched.Registered env s.sched)
    (notIdle : s.currentProcess ≠ s.idleProc) : s.Calm s.currentProcess := by
  have once := known.once s.currentProcess notIdle
  have here : Tally.same s.sched.current s.currentProcess = 1 := if_pos rfl
  have nowhere : s.sched.ttyEntries s.currentProcess = 0 := by
    simp only [Sched.registrations] at once
    omega
  have absent : ∀ tty, s.sched.terminalEntries s.currentProcess tty = 0 := fun tty =>
    Finset.sum_eq_zero_iff.mp nowhere tty (Finset.mem_univ tty)
  constructor
  · intro tty member
    have counted : 0 < (s.queues (.readers tty)).count s.currentProcess :=
      List.count_pos_iff.mpr member
    have zero := absent tty
    simp only [Sched.terminalEntries, sched_queues] at zero
    omega
  · intro tty writer
    have view : s.sched.writer tty = some s.currentProcess := writer
    have zero := absent tty
    simp only [Sched.terminalEntries, view, Tally.same_self] at zero
    omega

theorem Calm.of_frame (calm : s.Calm p) (frame : TtyFrame s t) : t.Calm p where
  reader tty member := by
    rw [frame.queues (.readers tty) rfl] at member
    exact calm.reader tty member
  writer tty := by
    rw [frame.terminals]
    exact calm.writer tty

theorem Calm.trap (calm : s.Calm p) (ctx : UserContext) : (s.trap ctx).Calm p :=
  calm.of_frame (TtyFrame.of_same rfl rfl rfl)

theorem Bystander.after_trap {o : Occasion} (looksOn : Bystander o p (s.trap ctx) t) :
    Bystander o p s t := by
  have entered : Bystander o p s (s.trap ctx) := of_same rfl rfl rfl rfl fun _ => rfl
  exact entered.trans looksOn

/-- The clock either lets the process go on or suspends it, with the frame it was interrupted in. -/
theorem clockTrapHandler_suspends (calm : s.Calm s.currentProcess)
    (h : s.clockTrapHandler env = .ok t) :
    t.Suspended s.currentProcess s.ctx ∨
    t.Runs s.currentProcess ∧ t.ctx = s.ctx ∧ ∃ b c, s.heap s.currentProcess = some b ∧
      t.heap s.currentProcess = some c ∧ c.kernelContext = b.kernelContext := by
  have calm' : t.Calm s.currentProcess := calm.of_frame (TtyFrame.clockTrapHandler h)
  obtain ⟨u, v, saved, iterated, tail⟩ := clockTrapHandler_eq_ok h
  obtain ⟨c, live, rfl⟩ := saveContext_eq_ok.mp saved
  have counted : Bystander ⟨True, False, True⟩ s.currentProcess
      (s.setPcb s.currentProcess { c with userContext := s.ctx }) v :=
    Bystander.iterateBlocked id iterated
  obtain ⟨d, live', kept, -, answer⟩ := counted.kept trivial (Function.update_self ..)
  have context : d.userContext = s.ctx := (Prod.mk.inj answer).1
  have current : v.currentProcess = s.currentProcess :=
    (iterateBlocked_moves exitLimits iterated).2.2
  rcases tail with ⟨-, restored⟩ | ⟨next, rest, e, -, -, tail⟩
  · obtain ⟨e, found', rfl⟩ := restoreContext_eq_ok.mp restored
    rw [current] at found'
    obtain rfl := Option.some.inj (found'.symm.trans live')
    exact Or.inr ⟨⟨rfl, current⟩, context, c, e, live, live', kept⟩
  · -- the process is switched away, ready again unless it is idle
    have parked : ∀ {w : Kernel} {f : PCB}, w.heap s.currentProcess = some f →
        f.userContext = s.ctx → w.kcSwitch .clockTrap s.currentProcess next = .ok t →
        t.Suspended s.currentProcess s.ctx := by
      intro w f found'' same switched
      obtain ⟨inKernel, state, last⟩ := kcSwitch_parks found'' switched
      refine ⟨fun runs => ?_, calm', _, last, rfl, same⟩
      rw [runs.1] at inKernel
      cases inKernel
    rcases tail with ⟨-, -, w, readied, switched⟩ | ⟨-, switched⟩
    · obtain ⟨f, found'', rfl⟩ := modifyPcb_eq_ok.mp readied
      obtain rfl := Option.some.inj (found''.symm.trans live')
      refine Or.inl (parked (f := { f with state := .ready }) ?_ context switched)
      rw [queueEnqueue_heap, setPcb_heap, Function.update_self]
    · exact Or.inl (parked (w := v.setQueue .ready rest) live' context switched)

/-! ### Idle -/

/-- Idle waits at no terminal, and comes back from the clock alone. -/
structure IdleCalm (s : Kernel) : Prop where
  calm : s.Calm s.idleProc
  pcb : ∃ b, s.heap s.idleProc = some b ∧
    (b.kernelContext = .unsaved ∨ b.kernelContext = .clockTrap)

/-- The idle process comes back from no call. -/
theorem IdleCalm.ne_idle (idle : s.IdleCalm) (live : s.heap p = some b)
    (saved : b.kernelContext ≠ .unsaved) (unclocked : b.kernelContext ≠ .clockTrap) :
    p ≠ s.idleProc := by
  rintro rfl
  obtain ⟨c, found, plain⟩ := idle.pcb
  obtain rfl := Option.some.inj (found.symm.trans live)
  exact plain.elim saved unclocked

/-- What a terminal does keeps idle calm. -/
theorem IdleCalm.look {o : Occasion} (idle : s.IdleCalm) (same : t.idleProc = s.idleProc)
    (looksOn : Bystander o s.idleProc s t) : t.IdleCalm := by
  obtain ⟨b, live, saved⟩ := idle.pcb
  obtain ⟨b', live', undisturbed, -⟩ := looksOn.pcb b live
  have saved' : b'.kernelContext = b.kernelContext := by
    rw [undisturbed.rest]
  constructor
  · rw [same]
    exact idle.calm.step looksOn
  · rw [same]
    exact ⟨b', live', by rwa [saved']⟩

theorem idleProc_step {i : Input} (known : Sched.Registered env s.sched)
    (taken : Guarded (Step env) ExitsWritten s i t) : t.idleProc = s.idleProc :=
  Sched.Moves.idleProc_eq
    (deliver_moves (fresh_of_registered known) taken.1.allows taken.2)

theorem idleCalm_step {i : Input} (known : Sched.Registered env s.sched) (idle : s.IdleCalm)
    (taken : Guarded (Step env) ExitsWritten s i t) : t.IdleCalm := by
  have same := idleProc_step known taken
  obtain ⟨b, live, saved⟩ := idle.pcb
  by_cases current : s.currentProcess = s.idleProc
  · obtain ⟨enabled, h⟩ := taken.2
    cases i with
    | clockTrap ctx =>
        change (s.trap ctx).clockTrapHandler env = .ok t at h
        have calm : s.Calm s.currentProcess := by
          rw [current]
          exact idle.calm
        have calm' := (calm.trap ctx).of_frame (TtyFrame.clockTrapHandler h)
        have cell : ∃ c, t.heap s.currentProcess = some c ∧
            (c.kernelContext = .unsaved ∨ c.kernelContext = .clockTrap) := by
          rcases clockTrapHandler_suspends (calm.trap ctx) h with suspended |
            ⟨-, -, b', c, live', found, kept⟩
          · obtain ⟨c, found, isClock, -⟩ := suspended.pcb
            exact ⟨c, found, Or.inr isClock⟩
          · have same' : s.heap s.currentProcess = some b' := live'
            rw [current] at same'
            obtain rfl := Option.some.inj (same'.symm.trans live)
            exact ⟨c, found, by rwa [kept]⟩
        constructor
        · rw [same, ← current]
          exact calm'
        · rw [same, ← current]
          exact cell
    | ttyReceiveTrap ctx tty data =>
        have looksOn : Bystander ⟨False, True, True⟩ s.idleProc (s.trap ctx) t :=
          Bystander.ttyTrapReceiveHandler (fun quiet => quiet.elim) h
        exact idle.look same (looksOn.after_trap)
    | ttyTransmitTrap ctx tty =>
        have looksOn : Bystander ⟨False, True, True⟩ s.idleProc (s.trap ctx) t :=
          Bystander.ttyTrapTransmitHandler (fun quiet => quiet.elim) h
        exact idle.look same (looksOn.after_trap)
    | resume =>
        simp only [deliver, resume, bind_eq_ok, deref_eq_ok] at h
        obtain ⟨c, live', h⟩ := h
        rw [current] at live'
        obtain rfl := Option.some.inj (live'.symm.trans live)
        rcases saved with unsaved | isClock
        · rw [unsaved] at h
          cases h
        · rw [isClock] at h
          have looksOn : Bystander ⟨False, True, True⟩ s.idleProc s t := Bystander.restoreContext h
          exact idle.look same looksOn
    | kernelBrk addr =>
        cases h
        exact ⟨idle.calm.of_frame TtyFrame.setMem, idle.pcb⟩
    | _ => exact absurd current enabled.2
  · have alive : b.kernelContext.isExit = false := by
      rcases saved with unsaved | isClock
      · rw [unsaved]
        rfl
      · rw [isClock]
        rfl
    exact idle.look same (looks_on known live alive current taken.2)

theorem idleCalm_reaches (distinct : Function.Injective env.helperNewPid)
    (started : kernelStart env cfg = .ok boot)
    (run : Reaches (Guarded (Step env) ExitsWritten) boot s) : s.IdleCalm := by
  induction run with
  | refl =>
      obtain ⟨ready, view⟩ := kernelStart_sched started
      have frame := TtyFrame.kernelStart started
      have idle : boot.idleProc = 0 := congrArg Sched.idleProc view
      constructor
      · refine ⟨fun tty member => ?_, fun tty writer => ?_⟩
        · rw [frame.queues (.readers tty) rfl] at member
          cases member
        · rw [frame.terminals] at writer
          cases writer
      · have procs : boot.sched.procs 0 =
            some { PCB.fresh.proc with pid := env.helperNewPid 0 } := by
          rw [view, Sched.booted_procs]
          rfl
        simp only [sched_procs, Option.map_eq_some_iff] at procs
        obtain ⟨b, live, same⟩ := procs
        rw [idle]
        exact ⟨b, live, Or.inl (congrArg Proc.kernelContext same)⟩
  | @tail u v before last inductionHypothesis =>
      obtain ⟨i, taken⟩ := last
      exact idleCalm_step (registered_reaches distinct started before) inductionHypothesis taken

/-- In every state of a run the current process waits at no terminal. -/
theorem current_calm (distinct : Function.Injective env.helperNewPid)
    (started : kernelStart env cfg = .ok boot)
    (run : Reaches (Guarded (Step env) ExitsWritten) boot s) : s.Calm s.currentProcess := by
  by_cases idle : s.currentProcess = s.idleProc
  · rw [idle]
    exact (idleCalm_reaches distinct started run).calm
  · exact calm_of_current (registered_reaches distinct started run) idle

/-! ### Calls that wait in one place -/

theorem parked_of_dispatch {kc : KernelContext} (live : s.heap p = some b)
    (current : s.currentProcess = p) (same : ctx.SameButResult b.userContext)
    (h : s.dispatch kc = .ok t) : t.Parked p kc ctx := by
  subst current
  obtain ⟨inKernel, state, found⟩ := dispatch_parks live h
  refine ⟨fun runs => ?_, _, found, rfl, same⟩
  rw [runs.1] at inKernel
  cases inKernel

/-- A parked process returns as its context switch resumes. -/
theorem parked_returns {kc : KernelContext} {Back : Kernel → Prop}
    (known : ∀ u, Reaches (Guarded (Step env) ExitsWritten) s u → Sched.Registered env u.sched)
    (alive : kc.isExit = false) (parked : s.Parked p kc ctx)
    (resumes : ∀ u v : Kernel, Sched.Registered env u.sched → u.Parked p kc ctx →
      u.currentProcess = p → u.resume env = .ok v → v.Runs p ∧ Back v)
    (run : Reaches (Guarded (Step env) (Absent p)) s t) (returned : t.Runs p) : Back t :=
  first_return known (fun _ waits => Parked.away waits)
    (fun _ _ _ known' _ waits other taken => Parked.step known' waits alive other taken.2)
    (fun u v known' _ waits current h => Or.inr (resumes u v known' waits current h))
    parked run returned

/-- `Delay` returns at once or parks its caller. -/
theorem trapDelay_begins (h : s.trapDelay env = .ok t) :
    t.Parked s.currentProcess .delay s.ctx ∨
    t.Runs s.currentProcess ∧ t.ctx = s.ctx.setReturn Status.success.code := by
  simp only [trapDelay, bind_eq_ok] at h
  obtain ⟨u, saved, result, called, h⟩ := h
  obtain ⟨b, live, rfl⟩ := saveContext_eq_ok.mp saved
  unfold delay at called
  by_cases zero : s.ctx.intReg 0 = 0
  · rw [if_pos zero] at called
    cases called
    simp only [finish] at h
    rw [if_neg (by decide)] at h
    obtain ⟨c, found, rfl⟩ := returnToUser_eq_ok.mp h
    rw [setPcb_heap, setPcb_currentProcess, Function.update_self] at found
    obtain rfl := Option.some.inj found
    exact Or.inr ⟨⟨rfl, rfl⟩, rfl⟩
  · rw [if_neg zero] at called
    by_cases negative : s.ctx.intReg 0 < -1
    · rw [if_pos negative] at called
      cases called
      simp [finish] at h
    · rw [if_neg negative] at called
      simp only [bind_eq_ok, pure_eq_ok] at called
      obtain ⟨v, parked, w, switched, rfl⟩ := called
      cases h
      obtain ⟨c, found, rfl⟩ := modifyPcb_eq_ok.mp parked
      rw [setPcb_heap, setPcb_currentProcess, Function.update_self] at found
      obtain rfl := Option.some.inj found
      refine Or.inl (parked_of_dispatch
        (b := { b with
          userContext := s.ctx
          delayTicks := s.ctx.intReg 0
          state := .blocked }) ?_ ?_ (.refl _) switched)
      · rw [queueEnqueue_heap, setPcb_heap, setPcb_currentProcess, Function.update_self]
      · rw [queueEnqueue_currentProcess]
        rfl

theorem delay_resumes (parked : u.Parked p .delay ctx) (current : u.currentProcess = p)
    (h : u.resume env = .ok v) : v.Runs p ∧ v.ctx = ctx.setReturn Status.success.code := by
  obtain ⟨-, b, live, saved, same⟩ := parked
  subst current
  simp only [resume, bind_eq_ok, deref_eq_ok] at h
  obtain ⟨c, live', h⟩ := h
  obtain rfl := Option.some.inj (live'.symm.trans live)
  rw [saved] at h
  obtain ⟨d, found, rfl⟩ := returnToUser_eq_ok.mp h
  obtain rfl := Option.some.inj (found.symm.trans live)
  exact ⟨⟨rfl, rfl⟩, same.setReturn_eq _⟩

/-- `Fork` returns the child's pid to the parent, and leaves the child a copy of its context. -/
theorem trapFork_begins (fresh : s.heap s.nextPcb = none) (h : s.trapFork env = .ok t) :
    t.Runs s.currentProcess ∧ t.Parked s.nextPcb (.fork s.nextPcb s.currentProcess) s.ctx ∧
      ∃ c, t.heap s.nextPcb = some c ∧ t.ctx = s.ctx.setReturn c.pid := by
  simp only [trapFork, bind_eq_ok] at h
  obtain ⟨u, saved, ⟨status, w⟩, forked, h⟩ := h
  obtain ⟨b, live, rfl⟩ := saveContext_eq_ok.mp saved
  have started : s.currentProcess ≠ s.nextPcb := by
    intro same
    rw [same, fresh] at live
    cases live
  rcases fork_status forked with rfl | rfl
  · simp only [reduceCtorEq, if_false] at h
    obtain ⟨i, c, m, pt, m', pages, current, -, found, -, -, -, rfl⟩ :=
      fork_eq_ok (s := s.setPcb s.currentProcess { b with userContext := s.ctx }) started forked
    rw [setPcb_heap, setPcb_currentProcess, Function.update_self] at found
    obtain rfl := Option.some.inj found
    obtain ⟨d, found', rfl⟩ := restoreContext_eq_ok.mp h
    simp only [setPcb_heap, setPcb_currentProcess, log_currentProcess,
      queueEnqueue_currentProcess, setQueue_currentProcess, Function.update_self,
      Option.some.injEq] at found'
    subst found'
    have apart : s.nextPcb ≠ s.currentProcess := started.symm
    refine ⟨⟨rfl, by simp⟩, ⟨fun runs => ?_, forkedPcb env (s.setPcb s.currentProcess
      { b with userContext := s.ctx }) { b with userContext := s.ctx } pt pages, ?_, rfl, .refl _⟩,
      forkedPcb env (s.setPcb s.currentProcess
      { b with userContext := s.ctx }) { b with userContext := s.ctx } pt pages, ?_, ?_⟩
    · have here : s.currentProcess = s.nextPcb := by simpa using runs.2
      exact started here
    · simp [apart]
    · simp [apart]
    · simp [forkedPcb]
  · cases h

/-- A forked child that runs for the first time returns 0 from `Fork`. -/
theorem fork_resumes (known : Sched.Registered env u.sched) (parked : u.Parked q (.fork q p) ctx)
    (current : u.currentProcess = q) (h : u.resume env = .ok v) :
    v.Runs q ∧ v.ctx = ctx.setReturn 0 := by
  obtain ⟨-, b, live, saved, same⟩ := parked
  subst current
  simp only [resume, bind_eq_ok, deref_eq_ok] at h
  obtain ⟨c, live', h⟩ := h
  obtain rfl := Option.some.inj (live'.symm.trans live)
  rw [saved] at h
  simp only [bind_eq_ok, forkReturn, deref_eq_ok] at h
  obtain ⟨w, ⟨d, found, parent, parentLive, h⟩, restored⟩ := h
  obtain rfl := Option.some.inj (found.symm.trans live)
  have pids := (known.forked _ _ _ _ (procs_of_heap live) saved).2.2 _ (procs_of_heap parentLive)
  have apart : ¬ d.pid = parent.pid := fun equal => pids equal.symm
  rw [if_neg apart] at h
  obtain ⟨e, found', rfl⟩ := modifyPcb_eq_ok.mp h
  obtain rfl := Option.some.inj (found'.symm.trans live)
  obtain ⟨f, found'', rfl⟩ := restoreContext_eq_ok.mp restored
  rw [setPcb_heap, setPcb_currentProcess, Function.update_self] at found''
  obtain rfl := Option.some.inj found''
  exact ⟨⟨rfl, rfl⟩, same.setReturn_eq 0⟩

theorem trapGetPid_returns (h : s.trapGetPid = .ok t) :
    t.Runs s.currentProcess ∧ ∃ b, s.heap s.currentProcess = some b ∧
      t.ctx = s.ctx.setReturn b.pid := by
  simp only [trapGetPid, getPid, bind_eq_ok, deref_eq_ok, pure_eq_ok] at h
  obtain ⟨u, saved, pid, ⟨c, found, rfl⟩, h⟩ := h
  obtain ⟨b, live, rfl⟩ := saveContext_eq_ok.mp saved
  rw [setPcb_heap, setPcb_currentProcess, Function.update_self] at found
  obtain rfl := Option.some.inj found
  by_cases failed : b.pid = -1
  · rw [if_pos failed] at h
    cases h
  · rw [if_neg failed] at h
    obtain ⟨d, found', rfl⟩ := returnToUser_eq_ok.mp h
    rw [setPcb_heap, setPcb_currentProcess, Function.update_self] at found'
    obtain rfl := Option.some.inj found'
    exact ⟨⟨rfl, rfl⟩, b, live, rfl⟩

/-! ### TtyWrite -/

/-- How a call of `TtyWrite` over the frame `ctx` came back. -/
inductive WriteOutcome (env : Env) (ctx : UserContext) : Int → Prop where
  | refused (invalid : checkBuffer (ctx.regs 1) (ctx.regs 2) = false ∨
      ttyArguments (ctx.intReg 0) (ctx.regs 1) (ctx.intReg 2) = none) :
      WriteOutcome env ctx Status.error.code
  | noMemory {k : Nat} (failed : env.mallocOk k = false) : WriteOutcome env ctx Status.error.code
  | written {tty : TtyId} {len : Nat}
      (arguments : ttyArguments (ctx.intReg 0) (ctx.regs 1) (ctx.intReg 2) = some (tty, len)) :
      WriteOutcome env ctx len

/-- The writer waits for the terminal or for its last chunk. -/
def WriteAway (p : PcbPtr) (tty : TtyId) (buf : Word) (len : Nat) (ctx : UserContext)
    (s : Kernel) : Prop :=
  s.Parked p (.ttyWriteLock tty buf len) ctx ∨ s.Parked p (.ttyWriteDone tty len) ctx

theorem finishTtyWrite_returns {asked : Option TtyId} {rc : Int} (live : s.heap p = some b)
    (current : s.currentProcess = p) (same : ctx.SameButResult b.userContext)
    (h : s.finishTtyWrite asked rc = .ok t) : t.Runs p ∧ t.ctx = ctx.setReturn rc := by
  subst current
  cases asked with
  | none =>
      obtain ⟨c, found, rfl⟩ := returnToUser_eq_ok.mp h
      obtain rfl := Option.some.inj (found.symm.trans live)
      exact ⟨⟨rfl, rfl⟩, same.setReturn_eq rc⟩
  | some tty =>
      obtain ⟨c, found, rfl⟩ := returnToUser_eq_ok.mp h
      obtain rfl := Option.some.inj (found.symm.trans live)
      exact ⟨⟨rfl, rfl⟩, same.setReturn_eq rc⟩

theorem WriteAway.away (waits : WriteAway p tty buf len ctx s) : ¬ s.Runs p := by
  rcases waits with parked | parked
  · exact parked.away
  · exact parked.away

/-- With the terminal its own, the writer hands over its first chunk and waits, or finds no memory
and returns. -/
theorem ttyWriteLocked_begins {result : Option Int × Kernel} {asked : Option TtyId}
    (live : s.heap s.currentProcess = some b) (same : ctx.SameButResult b.userContext)
    (called : s.ttyWriteLocked env tty buf len = .ok result)
    (h : finish result (Kernel.finishTtyWrite asked) = .ok t) :
    t.Parked s.currentProcess (.ttyWriteDone tty len) ctx ∨
    t.Runs s.currentProcess ∧ t.ctx = ctx.setReturn Status.error.code ∧
      ∃ k, env.mallocOk k = false := by
  obtain ⟨c, found, outcome⟩ := ttyWriteLocked_eq_ok called
  obtain rfl := Option.some.inj (found.symm.trans live)
  have same' := same.trans (.setReturn c.userContext Status.error.code)
  have refused : (s.refuseWrite env tty c).heap s.currentProcess =
      some { c with userContext := c.userContext.setReturn Status.error.code } :=
    Function.update_self ..
  rcases outcome with ⟨failed, -, rfl⟩ | ⟨failed, next, rest, u, -, readied, rfl⟩ |
    ⟨-, bytes, u, -, switched, rfl⟩
  · obtain ⟨runs, returned⟩ := finishTtyWrite_returns refused (by rfl) same' h
    exact Or.inr ⟨runs, returned, _, failed⟩
  · have marked : Bystander ⟨True, True, True⟩ s.currentProcess
        ((s.refuseWrite env tty c).setQueue (.writers tty) rest) u := Bystander.markReady readied
    obtain ⟨d, live', -, -, answer⟩ := marked.kept trivial refused
    have context : d.userContext = c.userContext.setReturn Status.error.code :=
      (Prod.mk.inj answer).1
    have current : u.currentProcess = s.currentProcess := by
      obtain ⟨e, -, rfl⟩ := modifyPcb_eq_ok.mp readied
      rfl
    have returning : (u.queueEnqueue env .ready next).finishTtyWrite asked Status.error.code =
        .ok t := h
    obtain ⟨runs, returned⟩ := finishTtyWrite_returns (by rw [queueEnqueue_heap]; exact live')
      (by rw [queueEnqueue_currentProcess]; exact current) (context ▸ same') returning
    exact Or.inr ⟨runs, returned, _, failed⟩
  · cases h
    refine Or.inl (parked_of_dispatch (b := { c with state := .blocked }) ?_ ?_ same switched)
    · rw [beginWrite, queueEnqueue_heap, setPcb_heap]
      exact Function.update_self ..
    · rw [beginWrite, queueEnqueue_currentProcess]
      rfl

theorem ttyWriteValid_begins {result : Option Int × Kernel} {asked : Option TtyId}
    (live : s.heap s.currentProcess = some b) (same : ctx.SameButResult b.userContext)
    (called : s.ttyWriteValid env tty buf len = .ok result)
    (h : finish result (Kernel.finishTtyWrite asked) = .ok t) :
    WriteAway s.currentProcess tty buf len ctx t ∨
    t.Runs s.currentProcess ∧ t.ctx = ctx.setReturn Status.error.code ∧
      ∃ k, env.mallocOk k = false := by
  unfold ttyWriteValid at called
  by_cases locked : (s.terminals tty).inUse = true
  · simp only [log_terminals, locked, if_true, bind_eq_ok, pure_eq_ok] at called
    obtain ⟨v, blocked, w, switched, rfl⟩ := called
    cases h
    obtain ⟨c, found, rfl⟩ := modifyPcb_eq_ok.mp blocked
    rw [queueEnqueue_heap, log_heap] at found
    obtain rfl := Option.some.inj (found.symm.trans live)
    refine Or.inl (Or.inl (parked_of_dispatch (b := { c with state := .blocked }) ?_ ?_ same
      switched))
    · rw [queueEnqueue_heap, setPcb_heap, Function.update_self]
    · simp
  · simp only [log_terminals, locked] at called
    have begun := ttyWriteLocked_begins
      (s := s.log (.ttyWriteCalled s.currentProcess tty (s.userBytes s.currentProcess buf len)))
      live same called h
    rcases begun with parked | refused
    · exact Or.inl (Or.inr parked)
    · exact Or.inr refused

/-- The frame of a call that came back, and how. -/
def WriteBack (env : Env) (ctx : UserContext) (t : Kernel) : Prop :=
  ∃ rc, t.ctx = ctx.setReturn rc ∧ WriteOutcome env ctx rc

/-- A call of `TtyWrite` comes back at once or leaves the writer waiting. -/
theorem trapTtyWrite_begins (user : s.mode = .user) (h : s.trapTtyWrite env = .ok t) :
    (∃ tty len, ttyArguments (s.ctx.intReg 0) (s.ctx.regs 1) (s.ctx.intReg 2) = some (tty, len) ∧
      WriteAway s.currentProcess tty (s.ctx.regs 1) len s.ctx t) ∨
    t.Runs s.currentProcess ∧ WriteBack env s.ctx t := by
  unfold trapTtyWrite at h
  simp only at h
  by_cases checked : checkBuffer (s.ctx.regs 1) (s.ctx.regs 2) = true
  · rw [if_pos checked] at h
    simp only [bind_eq_ok] at h
    obtain ⟨u, saved, result, called, h⟩ := h
    obtain ⟨b, live, rfl⟩ := saveContext_eq_ok.mp saved
    have live' : (s.setPcb s.currentProcess { b with userContext := s.ctx }).heap
        s.currentProcess = some { b with userContext := s.ctx } := Function.update_self ..
    unfold ttyWrite at called
    rcases arguments : ttyArguments (s.ctx.intReg 0) (s.ctx.regs 1) (s.ctx.intReg 2) with
      _ | ⟨tty, len⟩
    · rw [arguments] at called h
      cases called
      simp only [finish] at h
      obtain ⟨runs, returned⟩ := finishTtyWrite_returns live' (by rfl) (.refl _) h
      exact Or.inr ⟨runs, _, returned, .refused (Or.inr arguments)⟩
    · rw [arguments] at called h
      have begun := ttyWriteValid_begins live' (.refl _) called h
      rcases begun with waits | ⟨runs, returned, k, failed⟩
      · exact Or.inl ⟨tty, len, rfl, waits⟩
      · exact Or.inr ⟨runs, _, returned, .noMemory failed⟩
  · rw [if_neg checked] at h
    cases h
    have refused : checkBuffer (s.ctx.regs 1) (s.ctx.regs 2) = false := by simpa using checked
    exact Or.inr ⟨⟨user, rfl⟩, _, rfl, .refused (Or.inl refused)⟩

theorem WriteAway.resumes
    (arguments : ttyArguments (ctx.intReg 0) (ctx.regs 1) (ctx.intReg 2) = some (tty, len))
    (waits : WriteAway p tty buf len ctx u) (current : u.currentProcess = p)
    (h : u.resume env = .ok v) :
    WriteAway p tty buf len ctx v ∨ v.Runs p ∧ WriteBack env ctx v := by
  subst current
  simp only [resume, bind_eq_ok, deref_eq_ok] at h
  obtain ⟨c, live', h⟩ := h
  rcases waits with ⟨-, b, live, saved, same⟩ | ⟨-, b, live, saved, same⟩
  · obtain rfl := Option.some.inj (live'.symm.trans live)
    rw [saved] at h
    simp only [bind_eq_ok] at h
    obtain ⟨result, called, h⟩ := h
    rcases ttyWriteLocked_begins live same called h with parked | ⟨runs, returned, k, failed⟩
    · exact Or.inl (Or.inr parked)
    · exact Or.inr ⟨runs, _, returned, .noMemory failed⟩
  · obtain rfl := Option.some.inj (live'.symm.trans live)
    rw [saved] at h
    obtain ⟨runs, returned⟩ := finishTtyWrite_returns live rfl same h
    exact Or.inr ⟨runs, _, returned, .written arguments⟩

theorem WriteAway.elsewhere {i : Input} (known : Sched.Registered env u.sched)
    (waits : WriteAway p tty buf len ctx u) (other : u.currentProcess ≠ p)
    (step : u.Step env i v) : WriteAway p tty buf len ctx v := by
  rcases waits with parked | parked
  · exact Or.inl (parked.step known rfl other step)
  · exact Or.inr (parked.step known rfl other step)

/-! ### The contexts of a run -/

/-- What the call that the current process of `s` makes over the frame `ctx` answers it. -/
inductive OwnResult (env : Env) (s : Kernel) (ctx : UserContext) (t : Kernel) : Int → Prop where
  | getPid {b : PCB} (code : ctx.code = yalnixGetPid) (live : s.heap s.currentProcess = some b) :
      OwnResult env s ctx t b.pid
  | delay (code : ctx.code = yalnixDelay) : OwnResult env s ctx t Status.success.code
  | fork {c : PCB} (code : ctx.code = yalnixFork) (new : s.heap s.nextPcb = none)
      (child : t.heap s.nextPcb = some c) : OwnResult env s ctx t c.pid
  | ttyRead {rc : Int} (code : ctx.code = yalnixTtyRead)
      (outcome : ReadOutcome env s.currentProcess ctx (s.readHistory s.currentProcess) t rc) :
      OwnResult env s ctx t rc
  | ttyWrite {rc : Int} (code : ctx.code = yalnixTtyWrite) (outcome : WriteOutcome env ctx rc) :
      OwnResult env s ctx t rc

/-- An interrupted process goes on in the frame it was interrupted in. -/
theorem interrupt_returns {i : Input} (distinct : Function.Injective env.helperNewPid)
    (started : kernelStart env cfg = .ok boot)
    (run : Reaches (Guarded (Step env) ExitsWritten) boot s) (interrupts : i.Interrupts ctx)
    (taken : Guarded (Step env) ExitsWritten s i u)
    (away : Reaches (Guarded (Step env) (Absent s.currentProcess)) u t)
    (returned : t.Runs s.currentProcess) : t.ctx = ctx := by
  have known : ∀ v, Reaches (Guarded (Step env) ExitsWritten) u v →
      Sched.Registered env v.sched :=
    fun v later => registered_reaches distinct started ((run.tail taken).trans later)
  have at_once : s.mode = .user → (s.trap ctx).SameFrame u → t.ctx = ctx := by
    intro user same
    have runs : u.Runs s.currentProcess := ⟨same.2.1.trans user, same.1⟩
    rw [already_returned runs away]
    exact same.2.2
  obtain ⟨enabled, h⟩ := taken.2
  cases i with
  | clockTrap frame =>
      obtain rfl : frame = ctx := interrupts
      have calm := current_calm distinct started run
      rcases clockTrapHandler_suspends (calm.trap frame) h with suspended | ⟨runs, same, -⟩
      · exact first_return known (fun _ waits => Suspended.away waits)
          (fun _ _ _ known' _ waits other step => Suspended.step known' waits other step.2)
          (fun _ _ _ _ waits current h => Or.inr (Suspended.resumes waits current h))
          suspended away returned
      · rw [already_returned runs away]
        exact same
  | ttyReceiveTrap frame tty data =>
      obtain rfl : frame = ctx := interrupts
      exact at_once enabled.1 (SameFrame.ttyTrapReceiveHandler h)
  | ttyTransmitTrap frame tty =>
      obtain rfl : frame = ctx := interrupts
      exact at_once enabled (SameFrame.ttyTrapTransmitHandler h)
  | _ => cases interrupts

theorem not_listed {codes : List Word} {code other : Word} (listed : code ∈ codes)
    (absent : other ∉ codes) : code ≠ other := by
  rintro rfl
  exact absent listed

/-- A call of `Fork`, `GetPid`, `Delay`, `TtyRead` or `TtyWrite` gives its caller its frame back,
with the call's own result. -/
theorem call_returns {req : LoadRequest} (distinct : Function.Injective env.helperNewPid)
    (started : kernelStart env cfg = .ok boot)
    (run : Reaches (Guarded (Step env) ExitsWritten) boot s)
    (code : ctx.code ∈ [yalnixFork, yalnixGetPid, yalnixDelay, yalnixTtyRead, yalnixTtyWrite])
    (call : Step env s (.kernelTrap ctx req) u)
    (away : Reaches (Guarded (Step env) (Absent s.currentProcess)) u t)
    (returned : t.Runs s.currentProcess) :
    ∃ rc, t.ctx = ctx.setReturn rc ∧ OwnResult env s ctx t rc := by
  have taken : Guarded (Step env) ExitsWritten s (.kernelTrap ctx req) u := by
    refine ⟨fun exits => ?_, call⟩
    have isExit : ctx.code = yalnixExit := exits
    rw [isExit] at code
    exact absurd code (by decide)
  have known : ∀ v, Reaches (Guarded (Step env) ExitsWritten) u v →
      Sched.Registered env v.sched :=
    fun v later => registered_reaches distinct started ((run.tail taken).trans later)
  have fresh := fresh_of_registered (registered_reaches distinct started run)
  have handled : (s.trap ctx).kernelTrapHandler env req = .ok u := call.2
  cases kernelTrapHandler_eq_ok handled with
  | delay isDelay ran =>
      rcases trapDelay_begins ran with parked | ⟨runs, same⟩
      · exact ⟨_, parked_returns known rfl parked
          (fun v w _ waits current h => delay_resumes waits current h) away returned,
          .delay isDelay⟩
      · rw [already_returned runs away]
        exact ⟨_, same, .delay isDelay⟩
  | fork isFork ran =>
      obtain ⟨runs, -, c, child, same⟩ := trapFork_begins (s := s.trap ctx) fresh ran
      rw [already_returned runs away]
      exact ⟨_, same, .fork isFork fresh child⟩
  | getPid isGetPid ran =>
      obtain ⟨runs, b, live, same⟩ := trapGetPid_returns ran
      rw [already_returned runs away]
      exact ⟨_, same, .getPid isGetPid live⟩
  | ttyRead isRead ran =>
      obtain ⟨rc, same, outcome⟩ := read_returns distinct started run isRead call away returned
      exact ⟨rc, same, .ttyRead isRead outcome⟩
  | ttyWrite isWrite ran =>
      have begun := trapTtyWrite_begins (s := s.trap ctx) call.1.1 ran
      rcases begun with ⟨tty, len, arguments, waits⟩ | ⟨runs, back⟩
      · obtain ⟨rc, same, outcome⟩ := first_return known
          (fun v waits => WriteAway.away waits)
          (fun v i w known' _ waits other step => WriteAway.elsewhere known' waits other step.2)
          (fun v w _ _ waits current h => WriteAway.resumes arguments waits current h)
          waits away returned
        exact ⟨rc, same, .ttyWrite isWrite outcome⟩
      · rw [already_returned runs away]
        obtain ⟨rc, same, outcome⟩ := back
        exact ⟨rc, same, .ttyWrite isWrite outcome⟩
  | unknown other same =>
      have known' : ctx.code ∉ [yalnixDelay, yalnixBrk, yalnixFork, yalnixGetPid, yalnixWait,
        yalnixExit, yalnixExec, yalnixTtyRead, yalnixTtyWrite] := other
      simp only [List.mem_cons, List.not_mem_nil, or_false, not_or] at code known'
      tauto
  | brk other ran =>
    exact absurd (show ctx.code = yalnixBrk from other) (not_listed code (by decide))
  | wait other ran =>
    exact absurd (show ctx.code = yalnixWait from other) (not_listed code (by decide))
  | exit other ran =>
    exact absurd (show ctx.code = yalnixExit from other) (not_listed code (by decide))
  | exec other ran =>
    exact absurd (show ctx.code = yalnixExec from other) (not_listed code (by decide))

/-- A forked child that returns to user mode for the first time has its parent's frame, and 0. -/
theorem forked_returns {req : LoadRequest} (distinct : Function.Injective env.helperNewPid)
    (started : kernelStart env cfg = .ok boot)
    (run : Reaches (Guarded (Step env) ExitsWritten) boot s) (code : ctx.code = yalnixFork)
    (call : Step env s (.kernelTrap ctx req) u)
    (away : Reaches (Guarded (Step env) (Absent s.nextPcb)) u t)
    (returned : t.Runs s.nextPcb) : t.ctx = ctx.setReturn 0 := by
  have taken : Guarded (Step env) ExitsWritten s (.kernelTrap ctx req) u := by
    refine ⟨fun exits => ?_, call⟩
    have clash : yalnixFork = yalnixExit := code.symm.trans exits
    exact absurd clash (by decide)
  have known : ∀ v, Reaches (Guarded (Step env) ExitsWritten) u v →
      Sched.Registered env v.sched :=
    fun v later => registered_reaches distinct started ((run.tail taken).trans later)
  have fresh := fresh_of_registered (registered_reaches distinct started run)
  have handled : (s.trap ctx).trapFork env = .ok u := by
    have same : (s.trap ctx).kernelTrapHandler env req = (s.trap ctx).trapFork env :=
      kernelTrapHandler_fork code
    exact same.symm.trans call.2
  obtain ⟨-, parked, -⟩ := trapFork_begins (s := s.trap ctx) fresh handled
  exact parked_returns known rfl parked
    (fun v w known' waits current h => fork_resumes known' waits current h) away returned

/-- A process that returns to user mode does so in the frame of its last trap: unchanged after an
interrupt, with its own result after a call; and a forked child starts in its parent's frame.  A run
in which nobody exits keeps to `ExitsWritten`. -/
theorem user_context_isolation (distinct : Function.Injective env.helperNewPid)
    (started : kernelStart env cfg = .ok boot)
    (run : Reaches (Guarded (Step env) ExitsWritten) boot s) :
    (∀ (i : Input) (ctx : UserContext) (u t : Kernel), i.Interrupts ctx →
      Guarded (Step env) ExitsWritten s i u →
      Reaches (Guarded (Step env) (Absent s.currentProcess)) u t → t.Runs s.currentProcess →
      t.ctx = ctx) ∧
    (∀ (ctx : UserContext) (req : LoadRequest) (u t : Kernel),
      ctx.code ∈ [yalnixFork, yalnixGetPid, yalnixDelay, yalnixTtyRead, yalnixTtyWrite] →
      Step env s (.kernelTrap ctx req) u →
      Reaches (Guarded (Step env) (Absent s.currentProcess)) u t → t.Runs s.currentProcess →
      ∃ rc, t.ctx = ctx.setReturn rc ∧ OwnResult env s ctx t rc) ∧
    ∀ (ctx : UserContext) (req : LoadRequest) (u t : Kernel), ctx.code = yalnixFork →
      Step env s (.kernelTrap ctx req) u →
      Reaches (Guarded (Step env) (Absent s.nextPcb)) u t → t.Runs s.nextPcb →
      t.ctx = ctx.setReturn 0 := by
  refine ⟨fun i ctx u t interrupts taken away returned => ?_,
    fun ctx req u t code call away returned => ?_, fun ctx req u t code call away returned => ?_⟩
  · exact interrupt_returns distinct started run interrupts taken away returned
  · exact call_returns distinct started run code call away returned
  · exact forked_returns distinct started run code call away returned

/-- Init forks; its child starts with init's registers and 0 for a result. -/
theorem user_context_isolation_sample : ∃ t : Kernel, t.Runs 2 ∧
    t.ctx = (UserContext.setReturn { UserContext.zero with
      code := yalnixFork
      regs := fun i => if i = 0 then 7 else if i = 1 then 8 else if i = 2 then 9 else 0 } 0) := by
  have answer : (do
      let boot ← kernelStart sampleEnv sampleBoot
      let s ← run sampleEnv (fun s _ => decide s.ParentFlagWritten) [.tick, .resume] boot
      let u ← s.deliver sampleEnv (.call yalnixFork 7 8 9)
      let t ← run sampleEnv
        (fun s _ => decide s.ParentFlagWritten && !decide (s.mode = .user ∧ s.currentProcess = 2))
        [.tick, .resume] u
      return decide (s.mode = .user ∧ s.currentProcess = 1 ∧ s.idleProc = 0 ∧ s.nextPcb = 2 ∧
        t.mode = .user ∧ t.currentProcess = 2) : Except Stop Bool) = .ok true := by
    decide +kernel
  simp only [bind_eq_ok, pure_eq_ok, decide_eq_true_iff] at answer
  obtain ⟨boot, started, s, first, u, called, t, waited, user, current, idle, next, user',
    current'⟩ := answer
  have sound : ∀ s i, decide (ParentFlagWritten s) = true → ExitsWritten s i :=
    fun s i written _ => of_decide_eq_true written
  have absent : ∀ s i, (decide (ParentFlagWritten s) &&
      !decide (s.mode = .user ∧ s.currentProcess = 2)) = true → Absent 2 s i := by
    intro s i both
    rw [Bool.and_eq_true, Bool.not_eq_true', decide_eq_false_iff_not] at both
    exact ⟨sound s i both.1, both.2⟩
  have busy : s.currentProcess ≠ s.idleProc := by
    rw [current, idle]
    decide
  have isolated := user_context_isolation sampleEnv_distinct started
    (run_reaches ExitsWritten sound first)
  rw [next] at isolated
  have child := isolated.2.2 _ _ u t rfl ⟨⟨user, busy⟩, called⟩
    (run_reaches (Absent 2) absent waited) ⟨user', current'⟩
  exact ⟨t, ⟨user', current'⟩, child⟩

end Kernel

end Yalnix
