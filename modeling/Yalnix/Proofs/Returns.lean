/-
Module: Yalnix.Proofs.Returns
Purpose: From a trap to the first return to user mode: only a switch changes the current process, a
  process that is away keeps what it saved, and how a run leads to its return.
Trusted boundary: the pids of the hardware library do not repeat
Main exports: Kernel.Runs, Kernel.Absent, Kernel.Parked, Kernel.Calm, step_current, first_return
-/
import Yalnix.Proofs.ExitFinal
import Yalnix.Proofs.Terminals

namespace Yalnix

open Transition

theorem UserContext.SameButResult.setReturn_eq {c c' : UserContext}
    (same : c.SameButResult c') (rc : Int) : c'.setReturn rc = c.setReturn rc := by
  obtain ⟨result, rfl⟩ := same
  simp only [UserContext.setReturn, Function.update_idem]

namespace Kernel

variable {env : Env} {cfg : BootConfig} {boot s s' t u v : Kernel} {p q : PcbPtr} {b : PCB}
  {ctx : UserContext} {kc : KernelContext}

/-- The process runs its program. -/
def Runs (s : Kernel) (p : PcbPtr) : Prop := s.mode = .user ∧ s.currentProcess = p

/-- Steps on which the process runs no program of its own. -/
def Absent (p : PcbPtr) (s : Kernel) (i : Input) : Prop := s.ExitsWritten i ∧ ¬ s.Runs p

/-! ### Only a switch changes the current process -/

theorem kcSwitch_mode {curr next : PcbPtr} (h : s.kcSwitch kc curr next = .ok s') :
    s'.mode = .kernel := by
  obtain ⟨c, n, kstack, -, -, -, rfl⟩ := kcSwitch_eq_ok h
  rfl

theorem dispatch_mode (h : s.dispatch kc = .ok s') : s'.mode = .kernel := by
  rcases dispatch_eq_ok h with ⟨next, rest, -, switched⟩ | ⟨-, switched⟩
  · exact kcSwitch_mode switched
  · exact kcSwitch_mode switched

/-- In user mode afterwards, the current process is the same as before. -/
def Stays (s s' : Kernel) : Prop := s'.mode = .user → s'.currentProcess = s.currentProcess

namespace Stays

theorem of_sched (same : t.sched.current = s.sched.current) (rest : Stays t s') : Stays s s' :=
  fun user => (rest user).trans same

theorem dispatch (h : s.dispatch kc = .ok s') : Stays t s' := by
  intro user
  rw [dispatch_mode h] at user
  cases user

theorem restoreContext (h : s.restoreContext = .ok s') : Stays s s' := by
  intro _
  obtain ⟨b, -, rfl⟩ := restoreContext_eq_ok.mp h
  rfl

theorem returned {rc : Int} (h : t.returnToUser rc = .ok s')
    (same : t.currentProcess = s.currentProcess) : Stays s s' := by
  intro _
  obtain ⟨b, -, rfl⟩ := returnToUser_eq_ok.mp h
  exact same

theorem returnToUser {rc : Int} (h : s.returnToUser rc = .ok s') : Stays s s' := returned h rfl

theorem modifyPcb {f : PCB → PCB} (h : s.modifyPcb q f = .ok t) (rest : Stays t s') :
    Stays s s' := by
  obtain ⟨b, -, rfl⟩ := modifyPcb_eq_ok.mp h
  exact rest

theorem clockTrapHandler (h : s.clockTrapHandler env = .ok s') : Stays s s' := by
  obtain ⟨t, u, saved, iterated, tail⟩ := clockTrapHandler_eq_ok h
  have current : u.sched.current = s.sched.current :=
    (iterateBlocked_moves exitLimits iterated).2.2.trans
      (congrArg Sched.current (sched_saveContext saved))
  rcases tail with ⟨-, restored⟩ | ⟨next, rest, c, -, -, ⟨-, -, w, -, switched⟩ | ⟨-, switched⟩⟩
  · exact of_sched current (restoreContext restored)
  · intro user
    rw [kcSwitch_mode switched] at user
    cases user
  · intro user
    rw [kcSwitch_mode switched] at user
    cases user

theorem exit {status : Int} {origin : ExitOrigin} (h : s.exit env status origin = .ok s') :
    Stays t s' := by
  simp only [Kernel.exit, bind_eq_ok] at h
  obtain ⟨b, -, h⟩ := h
  by_cases init : b.pid = 1
  · rw [if_pos init] at h
    obtain ⟨-, -, stopped⟩ := bind_eq_ok.mp h
    cases stopped
  · rw [if_neg init] at h
    simp only [bind_eq_ok] at h
    obtain ⟨_, _, _, _, switched⟩ := h
    exact dispatch switched

theorem unpackRead {tty : TtyId} {buf : Word} {len rc : Int}
    (h : s.unpackRead tty buf len rc = .ok s') : Stays s s' := by
  obtain ⟨c, -, ⟨block, t, u, -, -, stored, cleared, h⟩ | ⟨-, h⟩⟩ := unpackRead_eq_ok h
  · have rest : Stays u s' := returned h rfl
    exact of_sched (congrArg Sched.current (sched_storeUser stored)) (modifyPcb cleared rest)
  · exact returned h rfl

theorem finishTtyWrite {tty : Option TtyId} {rc : Int} (h : s.finishTtyWrite tty rc = .ok s') :
    Stays s s' := by
  cases tty with
  | none => exact returnToUser h
  | some tty => exact returned h rfl

theorem ttyReadValid {tty : TtyId} {buf : Word} {len : Int} {n : Nat}
    {result : Option Int × Kernel} (called : s.ttyReadValid env tty buf n = .ok result)
    (h : finish result (fun rc t => t.unpackRead tty buf len rc) = .ok s') : Stays s s' := by
  rcases ttyReadValid_eq_ok called with
    ⟨-, -, rfl⟩ | ⟨-, -, n, b, -, -, rfl⟩ | ⟨-, t, u, -, switched, rfl⟩
  · have last : (s.malloc env).2.unpackRead tty buf len Status.error.code = .ok s' := h
    refine of_sched ?_ (unpackRead last)
    rfl
  · simp only [finish] at h
    refine of_sched ?_ (unpackRead h)
    rfl
  · cases h
    exact dispatch switched

theorem ttyWriteLocked {tty : TtyId} {buf : Word} {n : Nat} {result : Option Int × Kernel}
    {asked : Option TtyId} (called : s.ttyWriteLocked env tty buf n = .ok result)
    (h : finish result (Kernel.finishTtyWrite asked) = .ok s') : Stays s s' := by
  obtain ⟨b, -, outcome⟩ := ttyWriteLocked_eq_ok called
  rcases outcome with ⟨-, -, rfl⟩ | ⟨-, next, rest, t, -, readied, rfl⟩ |
    ⟨-, bytes, u, -, switched, rfl⟩
  · exact finishTtyWrite (s := s.refuseWrite env tty b) h
  · obtain ⟨c, -, rfl⟩ := modifyPcb_eq_ok.mp readied
    simp only [finish] at h
    intro user
    rw [finishTtyWrite h user, queueEnqueue_currentProcess]
    rfl
  · cases h
    exact dispatch switched

theorem ttyWriteValid {tty : TtyId} {buf : Word} {n : Nat} {result : Option Int × Kernel}
    {asked : Option TtyId} (called : s.ttyWriteValid env tty buf n = .ok result)
    (h : finish result (Kernel.finishTtyWrite asked) = .ok s') : Stays s s' := by
  unfold Kernel.ttyWriteValid at called
  by_cases locked : (s.terminals tty).inUse = true
  · simp only [log_terminals, locked, if_true, bind_eq_ok, pure_eq_ok] at called
    obtain ⟨t, -, u, switched, rfl⟩ := called
    cases h
    exact dispatch switched
  · simp only [log_terminals, locked] at called
    have rest : Stays
        (s.log (.ttyWriteCalled s.currentProcess tty (s.userBytes s.currentProcess buf n))) s' :=
      ttyWriteLocked called h
    exact rest

/-- The calls that save the context first. -/
theorem saved {t : Kernel} (h : s.saveContext = .ok t) (rest : Stays t s') : Stays s s' :=
  of_sched (congrArg Sched.current (sched_saveContext h)) rest

theorem waitScan {statusPtr : Word} {rc : Int} (h : s.waitScan statusPtr = .ok (some rc, t)) :
    t.sched.current = s.sched.current := by
  rcases waitScan_sched h with ⟨z, c, d, -, -, -, -, -, -, view⟩ | ⟨none, -⟩
  · rw [show t.sched = _ from view]
    rfl
  · cases none

theorem kernelTrapHandler {req : LoadRequest} (fresh : s.heap s.nextPcb = none)
    (h : s.kernelTrapHandler env req = .ok s') : Stays s s' := by
  cases kernelTrapHandler_eq_ok h with
  | delay _ ran =>
      simp only [trapDelay, bind_eq_ok] at ran
      obtain ⟨t, kept, result, called, ran⟩ := ran
      refine saved kept ?_
      unfold Kernel.delay at called
      split at called
      · cases called
        simp only [finish] at ran
        split at ran
        · cases ran
        · exact returnToUser ran
      · split at called
        · cases called
          simp [finish] at ran
        · simp only [bind_eq_ok, pure_eq_ok] at called
          obtain ⟨u, -, w, switched, rfl⟩ := called
          cases ran
          exact dispatch switched
  | brk _ ran =>
      simp only [trapBrk, bind_eq_ok] at ran
      obtain ⟨t, kept, ⟨status, u⟩, moved, ran⟩ := ran
      by_cases failed : status = .error
      · simp only [failed, if_true] at ran
        cases ran
      · simp only [failed, if_false] at ran
        exact saved kept (of_sched (congrArg Sched.current (brk_sched moved)) (returnToUser ran))
  | fork _ ran =>
      simp only [trapFork, bind_eq_ok] at ran
      obtain ⟨t, kept, ⟨status, u⟩, forked, ran⟩ := ran
      rcases fork_status forked with rfl | rfl
      · simp only [reduceCtorEq, if_false] at ran
        refine saved kept (of_sched ?_ (restoreContext ran))
        obtain ⟨b, live, rfl⟩ := saveContext_eq_ok.mp kept
        have started : s.currentProcess ≠ s.nextPcb := by
          intro same
          rw [same, fresh] at live
          cases live
        obtain ⟨i, c, m, pt, m', pages, current, -, -, -, -, -, rfl⟩ :=
          fork_eq_ok (s := s.setPcb s.currentProcess { b with userContext := s.ctx }) started forked
        simp
      · cases ran
  | getPid _ ran =>
      simp only [trapGetPid, bind_eq_ok] at ran
      obtain ⟨t, kept, pid, -, ran⟩ := ran
      by_cases failed : pid = -1
      · simp only [failed, if_true] at ran
        cases ran
      · simp only [failed, if_false] at ran
        exact saved kept (returnToUser ran)
  | wait _ ran =>
      simp only [trapWait, bind_eq_ok] at ran
      obtain ⟨t, kept, result, waited, ran⟩ := ran
      refine saved kept ?_
      simp only [Kernel.wait] at waited
      by_cases childless : t.isEmpty (.children t.currentProcess) = true
      · rw [if_pos childless] at waited
        cases waited
        exact returned (t := t.log _) ran rfl
      · rw [if_neg childless, bind_eq_ok] at waited
        obtain ⟨⟨found, u⟩, scanned, waited⟩ := waited
        rcases found with _ | pid
        · simp only [bind_eq_ok, pure_eq_ok] at waited
          obtain ⟨w, -, x, switched, rfl⟩ := waited
          cases ran
          exact dispatch switched
        · cases waited
          have last : (u.log (.waitReturned u.currentProcess (s.ctx.regs 0) pid)).returnToUser pid =
            .ok s' := ran
          exact of_sched (waitScan scanned) (returned last rfl)
  | exit _ ran => exact exit ran
  | exec _ ran =>
      simp only [trapExec, bind_eq_ok] at ran
      obtain ⟨t, kept, ⟨rc, u⟩, loaded, ran⟩ := ran
      exact saved kept (of_sched (congrArg Sched.current (exec_sched loaded)) (returnToUser ran))
  | ttyRead _ ran =>
      unfold trapTtyRead at ran
      simp only at ran
      by_cases checked : checkBuffer (s.ctx.regs 1) (s.ctx.regs 2) = true
      · rw [if_pos checked] at ran
        simp only [bind_eq_ok] at ran
        obtain ⟨t, kept, result, called, ran⟩ := ran
        refine saved kept ?_
        unfold Kernel.ttyRead at called
        rcases arguments : ttyArguments (s.ctx.intReg 0) (s.ctx.regs 1) (s.ctx.intReg 2) with
          _ | ⟨tty, len⟩
        · rw [arguments] at called ran
          cases called
          exact returnToUser ran
        · rw [arguments] at called ran
          exact ttyReadValid called ran
      · rw [if_neg checked] at ran
        cases ran
        exact fun _ => rfl
  | ttyWrite _ ran =>
      unfold trapTtyWrite at ran
      simp only at ran
      by_cases checked : checkBuffer (s.ctx.regs 1) (s.ctx.regs 2) = true
      · rw [if_pos checked] at ran
        simp only [bind_eq_ok] at ran
        obtain ⟨t, kept, result, called, ran⟩ := ran
        refine saved kept ?_
        unfold Kernel.ttyWrite at called
        split at called
        · cases called
          exact finishTtyWrite ran
        · exact ttyWriteValid called ran
      · rw [if_neg checked] at ran
        cases ran
        exact fun _ => rfl
  | unknown _ same =>
      subst same
      exact fun _ => rfl

theorem memoryTrapHandler (h : s.memoryTrapHandler env = .ok s') : Stays s s' := by
  simp only [Kernel.memoryTrapHandler, bind_eq_ok] at h
  obtain ⟨c, -, h⟩ := h
  rcases action : memoryTrapAction c s.ctx with _ | _ | _
  · simp only [action, bind_eq_ok] at h
    obtain ⟨⟨status, t⟩, grown, h⟩ := h
    by_cases failed : status = .kill
    · simp only [failed, if_true] at h
      exact exit h
    · simp only [failed, if_false] at h
      cases h
      exact fun _ => congrArg Sched.current (growStack_sched grown).1
  · simp only [action] at h
    exact exit h
  · simp only [action] at h
    cases h
    exact fun _ => rfl

theorem resume (h : s.resume env = .ok s') : Stays s s' := by
  simp only [Kernel.resume, bind_eq_ok] at h
  obtain ⟨c, -, h⟩ := h
  cases saved : c.kernelContext with
  | unsaved =>
      rw [saved] at h
      cases h
  | kernelStart =>
      rw [saved] at h
      exact restoreContext h
  | fork child parent =>
      rw [saved] at h
      simp only [bind_eq_ok] at h
      obtain ⟨t, forked, h⟩ := h
      refine of_sched ?_ (restoreContext h)
      simp only [forkReturn, bind_eq_ok] at forked
      obtain ⟨d, -, e, -, forked⟩ := forked
      by_cases pids : d.pid = e.pid
      · simp only [pids, if_true, bind_eq_ok] at forked
        obtain ⟨u, readied, f, -, answered⟩ := forked
        obtain ⟨_, -, rfl⟩ := modifyPcb_eq_ok.mp readied
        obtain ⟨_, -, rfl⟩ := modifyPcb_eq_ok.mp answered
        simp
      · simp only [pids, if_false] at forked
        obtain ⟨_, -, rfl⟩ := modifyPcb_eq_ok.mp forked
        rfl
  | clockTrap =>
      rw [saved] at h
      exact restoreContext h
  | delay =>
      rw [saved] at h
      exact returnToUser h
  | wait statusPtr =>
      rw [saved] at h
      simp only [bind_eq_ok] at h
      obtain ⟨⟨rc, t⟩, resumed, h⟩ := h
      simp only [waitResumed, bind_eq_ok] at resumed
      obtain ⟨⟨found, u⟩, scanned, resumed⟩ := resumed
      have last : (t.log (.waitReturned t.currentProcess statusPtr rc)).returnToUser rc = .ok s' :=
        h
      rcases found with _ | pid
      · cases resumed
        refine of_sched ?_ (returned last rfl)
        rcases waitScan_sched scanned with ⟨z, d, e, -, -, -, -, -, some, -⟩ | ⟨same, -⟩
        · cases some
        · rw [(Prod.mk.inj same).2]
          rfl
      · cases resumed
        exact of_sched (waitScan scanned) (returned last rfl)
  | ttyRead tty buf len =>
      rw [saved] at h
      exact unpackRead h
  | ttyWriteLock tty buf len =>
      rw [saved] at h
      simp only [bind_eq_ok] at h
      obtain ⟨result, locked, h⟩ := h
      exact ttyWriteLocked locked h
  | ttyWriteDone tty len =>
      rw [saved] at h
      exact finishTtyWrite h
  | exit frame origin =>
      rw [saved] at h
      rcases origin with _ | _ | _
      · cases h
        exact fun _ => rfl
      · cases h
        exact fun _ => rfl
      · cases h

end Stays

/-! ### The terminal traps return at once -/

/-- The same process goes on in the same frame. -/
def SameFrame (s s' : Kernel) : Prop :=
  s'.currentProcess = s.currentProcess ∧ s'.mode = s.mode ∧ s'.ctx = s.ctx

namespace SameFrame

theorem trans (first : SameFrame s t) (second : SameFrame t u) : SameFrame s u :=
  ⟨second.1.trans first.1, second.2.1.trans first.2.1, second.2.2.trans first.2.2⟩

theorem modifyPcb {f : PCB → PCB} (h : s.modifyPcb q f = .ok s') : SameFrame s s' := by
  obtain ⟨b, -, rfl⟩ := modifyPcb_eq_ok.mp h
  exact ⟨rfl, rfl, rfl⟩

theorem enqueue {queue : QueueId} : SameFrame s (s.queueEnqueue env queue q) :=
  ⟨queueEnqueue_currentProcess .., queueEnqueue_mode .., queueEnqueue_ctx ..⟩

theorem readyReader : SameFrame s (readyReader env s q b) :=
  enqueue (s := (s.queueRemove .blocked q).setPcb q { b with state := .ready })

theorem serveReaders {tty : TtyId} {readers : List PcbPtr}
    (h : serveReaders env tty readers s = .ok s') : SameFrame s s' := by
  induction readers generalizing s with
  | nil =>
      cases h
      exact ⟨rfl, rfl, rfl⟩
  | cons reader rest inductionHypothesis =>
      by_cases empty : (s.terminals tty).readBufferLen = 0
      · rw [Kernel.serveReaders, if_pos empty] at h
        cases h
        exact ⟨rfl, rfl, rfl⟩
      · obtain ⟨r, -, ⟨-, h⟩ | ⟨-, h⟩⟩ := serveReaders_cons empty h
        · refine SameFrame.trans ?_ (inductionHypothesis h)
          refine SameFrame.trans ?_ readyReader
          exact ⟨rfl, rfl, rfl⟩
        · refine SameFrame.trans ?_ (inductionHypothesis h)
          refine SameFrame.trans ?_ readyReader
          exact ⟨rfl, rfl, rfl⟩

theorem ttyTrapReceiveHandler {tty : TtyId} {data : List Byte}
    (h : s.ttyTrapReceiveHandler env tty data = .ok s') : SameFrame s s' := by
  simp only [Kernel.ttyTrapReceiveHandler] at h
  refine SameFrame.trans ?_ (serveReaders h)
  exact ⟨rfl, rfl, rfl⟩

/-- The next writer, if there is one, is made ready. -/
theorem handOver {tty : TtyId} (h : HandOver env s tty s') : SameFrame s s' := by
  cases h with
  | free none => exact ⟨rfl, rfl, rfl⟩
  | @next next rest u writers readied =>
      have marked : SameFrame s u := modifyPcb (s := s.setQueue (.writers tty) rest) readied
      exact marked.trans (enqueue (s := u.queueRemove .blocked next))

theorem ttyTrapTransmitHandler {tty : TtyId} (h : s.ttyTrapTransmitHandler env tty = .ok s') :
    SameFrame s s' := by
  have cleared : SameFrame s ((s.log (.ttyTransmitTrap tty)).clearWrite tty) := ⟨rfl, rfl, rfl⟩
  cases ttyTrapTransmitHandler_eq_ok h with
  | chunk left => exact ⟨rfl, rfl, rfl⟩
  | unowned through none handed => exact cleared.trans (handOver handed)
  | @owned w u _ through some answered handed =>
      have woken : SameFrame u ((u.queueRemove .blocked w).queueEnqueue env .ready w) :=
        enqueue (s := u.queueRemove .blocked w)
      exact (cleared.trans (modifyPcb answered)).trans (woken.trans (handOver handed))

end SameFrame

/-- A step that ends in user mode leaves the current process current. -/
theorem step_current {i : Input} (fresh : s.heap s.nextPcb = none) (step : s.Step env i s') :
    Stays s s' := by
  obtain ⟨-, h⟩ := step
  have entered : ∀ {ctx : UserContext}, Stays (s.trap ctx) s' → Stays s s' := id
  cases i with
  | kernelTrap ctx req => exact entered (Stays.kernelTrapHandler (s := s.trap ctx) fresh h)
  | clockTrap ctx => exact entered (Stays.clockTrapHandler h)
  | memoryTrap ctx => exact entered (Stays.memoryTrapHandler h)
  | mathTrap ctx => exact Stays.exit h
  | illegalTrap ctx => exact Stays.exit h
  | ttyReceiveTrap ctx tty data =>
      exact fun _ => (SameFrame.ttyTrapReceiveHandler (s := s.trap ctx) h).1
  | ttyTransmitTrap ctx tty =>
      exact fun _ => (SameFrame.ttyTrapTransmitHandler (s := s.trap ctx) h).1
  | resume => exact Stays.resume h
  | userStore va bytes => exact fun _ => congrArg Sched.current (sched_storeUser h)
  | kernelBrk addr =>
      cases h
      exact fun _ => rfl

/-! ### A process that is away -/

/-- No terminal has an answer for the process. -/
structure Calm (s : Kernel) (p : PcbPtr) : Prop where
  reader : ∀ tty, p ∉ s.queues (.readers tty)
  writer : ∀ tty, (s.terminals tty).currentWriter ≠ some p

/-- The process does not run, and comes back through `kc` to a context that is `ctx` but for the
result. -/
structure Parked (s : Kernel) (p : PcbPtr) (kc : KernelContext) (ctx : UserContext) : Prop where
  away : ¬ s.Runs p
  pcb : ∃ b, s.heap p = some b ∧ b.kernelContext = kc ∧ ctx.SameButResult b.userContext

theorem Calm.unanswered {i : Input} (calm : s.Calm p) : ¬ s.AnswersTo p i := by
  intro answers
  cases i with
  | ttyReceiveTrap ctx tty data => exact calm.reader tty answers
  | ttyTransmitTrap ctx tty => exact calm.writer tty answers
  | _ => cases answers

/-- A process that is not inside `Exit` is no zombie, and looks on while another one is current. -/
theorem looks_on {i : Input} (known : Sched.Registered env s.sched) (live : s.heap p = some b)
    (alive : b.kernelContext.isExit = false) (other : s.currentProcess ≠ p)
    (step : s.Step env i s') : Bystander (s.occasion p i) p s s' := by
  refine bystander_step (fresh_of_registered known) other (fun zombie => ?_) step
  have dead := (known.zombies p zombie).2.2 b.proc (procs_of_heap live)
  have same : b.kernelContext.isExit = true := dead
  rw [alive] at same
  cases same

theorem Calm.step {o : Occasion} (calm : s.Calm p) (looksOn : Bystander o p s s') :
    s'.Calm p where
  reader tty member := calm.reader tty (looksOn.queued (.readers tty) rfl member)
  writer tty writer := calm.writer tty (looksOn.writing tty writer)

theorem away_step {i : Input} (known : Sched.Registered env s.sched)
    (other : s.currentProcess ≠ p) (step : s.Step env i s') : ¬ s'.Runs p := by
  rintro ⟨user, current⟩
  exact other ((step_current (fresh_of_registered known) step user).symm.trans current)

theorem Parked.step {i : Input} (known : Sched.Registered env s.sched) (parked : s.Parked p kc ctx)
    (alive : kc.isExit = false) (other : s.currentProcess ≠ p) (step : s.Step env i s') :
    s'.Parked p kc ctx := by
  obtain ⟨-, b, live, rfl, same⟩ := parked
  obtain ⟨b', live', undisturbed, -⟩ := (looks_on known live alive other step).pcb b live
  refine ⟨away_step known other step, b', live', ?_, same.trans undisturbed.context⟩
  rw [undisturbed.rest]

/-- Inside the kernel the current process goes on from where it was switched away. -/
theorem resumes_in_kernel {i : Input} (inKernel : s.mode = .kernel) (step : s.Step env i s') :
    s.resume env = .ok s' := by
  obtain ⟨enabled, h⟩ := step
  cases i with
  | resume => exact h
  | ttyReceiveTrap ctx tty data =>
      rw [enabled.1] at inKernel
      cases inKernel
  | clockTrap ctx =>
      rw [show s.mode = .user from enabled] at inKernel
      cases inKernel
  | ttyTransmitTrap ctx tty =>
      rw [show s.mode = .user from enabled] at inKernel
      cases inKernel
  | kernelBrk addr =>
      rw [show s.mode = .user from enabled] at inKernel
      cases inKernel
  | _ =>
      rw [enabled.1] at inKernel
      cases inKernel

/-- A switch of the process away saves its context. -/
theorem kcSwitch_parks {curr next : PcbPtr} (live : s.heap curr = some b)
    (h : s.kcSwitch kc curr next = .ok s') :
    s'.mode = .kernel ∧ ∃ state, s'.heap curr =
      some { b with kernelContext := kc, state := state } := by
  obtain ⟨c, n, kstack, live', nextLive, -, rfl⟩ := kcSwitch_eq_ok h
  obtain rfl := Option.some.inj (live'.symm.trans live)
  refine ⟨rfl, ?_⟩
  by_cases here : curr = next
  · subst here
    rw [setPcb_heap, Function.update_self] at nextLive
    obtain rfl := Option.some.inj nextLive
    exact ⟨.running, Function.update_self ..⟩
  · refine ⟨c.state, ?_⟩
    rw [setPcb_heap, Function.update_of_ne here, setPcb_heap, Function.update_self]

theorem dispatch_parks (live : s.heap s.currentProcess = some b) (h : s.dispatch kc = .ok s') :
    s'.mode = .kernel ∧ ∃ state, s'.heap s.currentProcess =
      some { b with kernelContext := kc, state := state } := by
  rcases dispatch_eq_ok h with ⟨next, rest, -, switched⟩ | ⟨-, switched⟩
  · exact kcSwitch_parks (s := s.setQueue .ready rest) live switched
  · exact kcSwitch_parks live switched

/-! ### The first return -/

/-- A process that runs has returned: no later state is reached without it. -/
theorem already_returned (runs : s.Runs p)
    (run : Reaches (Guarded (Step env) (Absent p)) s t) : t = s := by
  rcases Relation.ReflTransGen.cases_head run with rfl | ⟨u, ⟨i, guarded⟩, -⟩
  · rfl
  · exact absurd runs guarded.1.2

/-- Away from the processor the process stays away; when it comes back it is away again or has
returned.  So the state of its first return is as the returns say. -/
theorem first_return {Known Away Back : Kernel → Prop}
    (known : ∀ u, Reaches (Guarded (Step env) ExitsWritten) s u → Known u)
    (away : ∀ u, Away u → ¬ u.Runs p)
    (elsewhere : ∀ u i v, Known u → Known v → Away u → u.currentProcess ≠ p →
      Guarded (Step env) ExitsWritten u i v → Away v)
    (resumes : ∀ u v, Known u → Known v → Away u → u.currentProcess = p →
      u.resume env = .ok v → Away v ∨ v.Runs p ∧ Back v)
    (start : Away s)
    (run : Reaches (Guarded (Step env) (Absent p)) s t) (returned : t.Runs p) : Back t := by
  have either : Away t ∨ t.Runs p ∧ Back t := by
    clear returned
    induction run with
    | refl => exact Or.inl start
    | @tail u v before last inductionHypothesis =>
        obtain ⟨i, guard, step⟩ := last
        have reached : Reaches (Guarded (Step env) ExitsWritten) s u :=
          Reaches.mono (fun _ _ _ taken => ⟨taken.1.1, taken.2⟩) before
        have next := reached.tail ⟨guard.1, step⟩
        rcases inductionHypothesis with waits | ⟨back, -⟩
        · by_cases current : u.currentProcess = p
          · have inKernel : u.mode = .kernel := by
              cases mode : u.mode with
              | kernel => rfl
              | user => exact absurd ⟨mode, current⟩ guard.2
            exact resumes u v (known u reached) (known v next) waits current
              (resumes_in_kernel inKernel step)
          · exact Or.inl
              (elsewhere u i v (known u reached) (known v next) waits current ⟨guard.1, step⟩)
        · exact absurd back guard.2
  rcases either with waits | ⟨-, back⟩
  · exact absurd returned (away t waits)
  · exact back

end Kernel

end Yalnix
