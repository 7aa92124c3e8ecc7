/-
Module: Yalnix.Proofs.Inside
Purpose: Inside which kernel path a process is while it does not run: a step leaves every process
  but the current one where it is, and the current one goes where its trap or its call takes it.
Trusted boundary: the pids of the hardware library do not repeat
Main exports: Sched.Gone, Kernel.Inside, Kernel.Saves, leaves_step
-/
import Yalnix.Proofs.UserContexts

namespace Yalnix

open Transition

/-! ### Processes that are gone -/

namespace Sched

variable {env : Env} {limits : Limits} {s s' : Sched} {p : PcbPtr}

/-- The process does not exist, or has called `Exit`. -/
def Gone (s : Sched) (p : PcbPtr) : Prop :=
  ∀ b, s.procs p = some b → b.kernelContext.isExit = true

namespace Gone

theorem steady {saved : KernelContext → Prop} (gone : s.Gone p) (known : Registered env s)
    (notIdle : p ≠ s.idleProc) (h : Steady saved s s') : s'.Gone p := by
  intro b' found
  obtain ⟨b, live, -, kept | ⟨current, -⟩⟩ := h.procs p b' found
  · rw [kept]
    exact gone b live
  · exact absurd current (known.exit_is_off notIdle live (gone b live)).1

/-- Only a fork brings a process into being. -/
theorem move (gone : s.Gone p) (known : Registered env s) (notIdle : p ≠ s.idleProc)
    (noFork : ∀ ok, ¬ limits.fork ok) (move : Move env limits s s') : s'.Gone p := by
  cases move with
  | shift moved => exact gone.steady known notIdle moved.steady
  | @exit woken _ b status frame origin k allowed user busy live notInit wake switch =>
      have left := wake.leaves switch
      intro b' found
      obtain ⟨c, zombie, -, kept | ⟨-, exited⟩⟩ := left.procs p b' found
      · rw [kept]
        by_cases current : p = s.current
        · subst current
          rw [zombified_procs, Function.update_self] at zombie
          obtain rfl := Option.some.inj zombie
          exact gone b live
        · rw [zombified_procs, Function.update_of_ne current] at zombie
          exact gone c zombie
      · exact exited
  | fork allowed => exact absurd allowed (noFork _)
  | @childReturn b q child parent inKernel live saved parentLive pids =>
      intro b' found
      by_cases current : p = s.current
      · subst current
        simp only [toUser_procs, setProc_procs, Function.update_self, Option.some.injEq] at found
        subst found
        exact gone b live
      · rw [toUser_procs, setProc_procs, Function.update_of_ne current] at found
        exact gone b' found
  | forkAgain => exact gone
  | @reap b c z statusPtr allowed live zombie dead child =>
      intro b' found
      rw [toUser_procs, log_procs, delete_procs_some] at found
      obtain ⟨-, d, was, rfl⟩ := found
      exact gone d was
  | noChildren => exact gone
  | noZombie => exact gone

theorem moves (gone : s.Gone p) (distinct : Function.Injective env.helperNewPid)
    (known : Registered env s) (notIdle : p ≠ s.idleProc) (noFork : ∀ ok, ¬ limits.fork ok)
    (exits : ∀ {t ok}, limits.exit t ok → t.ParentFlagWritten) (run : Moves env limits s s') :
    s'.Gone p := by
  induction run with
  | refl => exact gone
  | tail before last inductionHypothesis =>
      refine inductionHypothesis.move (known.moves distinct exits before) ?_ noFork last
      rw [Moves.idleProc_eq before]
      exact notIdle

end Gone

end Sched

namespace Kernel

variable {env : Env} {s s' t : Kernel} {p : PcbPtr} {kc kc' : KernelContext} {b : PCB}

/-! ### The other processes -/

/-- The process does not run, and comes back through `kc`. -/
structure Inside (s : Kernel) (p : PcbPtr) (kc : KernelContext) : Prop where
  away : ¬ s.Runs p
  pcb : ∃ b, s.heap p = some b ∧ b.kernelContext = kc

theorem Inside.unique (inside : s.Inside p kc) (inside' : s.Inside p kc') : kc = kc' := by
  obtain ⟨b, live, rfl⟩ := inside.pcb
  obtain ⟨b', live', rfl⟩ := inside'.pcb
  rw [Option.some.inj (live.symm.trans live')]

/-- A process that is not current stays where it is, unless it is reaped. -/
theorem Inside.step {i : Input} (inside : s.Inside p kc) (known : Sched.Registered env s.sched)
    (alive : kc.isExit = false) (other : s.currentProcess ≠ p) (step : s.Step env i s') :
    s'.Inside p kc := by
  obtain ⟨b, live, rfl⟩ := inside.pcb
  obtain ⟨b', live', undisturbed, -⟩ := (looks_on known live alive other step).pcb b live
  refine ⟨away_step known other step, b', live', ?_⟩
  rw [undisturbed.rest]

/-- `Fork` touches its caller and the child it creates. -/
theorem trapFork_elsewhere (fresh : s.heap s.nextPcb = none) (h : s.trapFork env = .ok t)
    (other : p ≠ s.currentProcess) (old : p ≠ s.nextPcb) : t.heap p = s.heap p := by
  simp only [trapFork, bind_eq_ok] at h
  obtain ⟨u, saved, ⟨status, w⟩, forked, h⟩ := h
  obtain ⟨b, live, rfl⟩ := saveContext_eq_ok.mp saved
  have started : s.currentProcess ≠ s.nextPcb := by
    intro same
    rw [same, fresh] at live
    cases live
  rcases fork_status forked with rfl | rfl
  · simp only [reduceCtorEq, if_false] at h
    obtain ⟨i, c, m, pt, m', pages, current, -, found, -, -, -, rfl⟩ :=
      fork_eq_ok (s := s.setPcb s.currentProcess { b with userContext := s.ctx }) started forked
    obtain ⟨d, -, rfl⟩ := restoreContext_eq_ok.mp h
    simp [other, old]
  · cases h

/-- The limits of a step that is no fork. -/
def unforkedLimits : Limits := { exitLimits with fork := fun _ => False }

theorem ExitsWritten.allowsUnforked {i : Input} (guard : s.ExitsWritten i)
    (unforked : ¬ Calls yalnixFork i) : unforkedLimits.Allows env s i :=
  { @ExitsWritten.allows env s i guard with fork := fun forks => absurd forks unforked }

/-- A process that was not current got nowhere but into its first context. -/
theorem Inside.before {i : Input} (inside : s'.Inside p kc)
    (distinct : Function.Injective env.helperNewPid) (known : Sched.Registered env s.sched)
    (idle : s.IdleCalm) (alive : kc.isExit = false) (old : kc.isFork = false)
    (other : s.currentProcess ≠ p) (taken : Guarded (Step env) ExitsWritten s i s') :
    s.Inside p kc := by
  have away : ¬ s.Runs p := fun runs => other runs.2
  obtain ⟨b', live', saved⟩ := inside.pcb
  have fresh := fresh_of_registered known
  by_cases forks : Calls yalnixFork i
  · cases i with
    | kernelTrap ctx req =>
        have ran : (s.trap ctx).trapFork env = .ok s' := by
          rw [← kernelTrapHandler_fork (by exact forks)]
          exact taken.2.2
        by_cases new : p = s.nextPcb
        · subst new
          obtain ⟨-, parked, -⟩ := trapFork_begins (s := s.trap ctx) fresh ran
          obtain ⟨c, child, isFork, -⟩ := parked.pcb
          have same : s'.heap s.nextPcb = some c := child
          obtain rfl := Option.some.inj (same.symm.trans live')
          rw [← saved, isFork] at old
          cases old
        · have kept : s'.heap p = s.heap p :=
            trapFork_elsewhere (s := s.trap ctx) fresh ran (Ne.symm other) new
          exact ⟨away, b', kept.symm.trans live', saved⟩
    | _ => cases forks
  · by_cases there : ∃ b, s.heap p = some b ∧ b.kernelContext.isExit = false
    · obtain ⟨b, live, notExit⟩ := there
      have stayed : s.Inside p b.kernelContext := ⟨away, b, live, rfl⟩
      have same := (stayed.step known notExit other taken.2).unique inside
      exact ⟨away, b, live, same⟩
    · exfalso
      have gone : s.sched.Gone p := by
        intro d found
        obtain ⟨b, live, rfl⟩ := Option.map_eq_some_iff.mp found
        by_contra notExit
        exact there ⟨b, live, Bool.eq_false_iff.mpr notExit⟩
      have notIdle : p ≠ s.idleProc := by
        intro isIdle
        obtain ⟨b, live, plain⟩ := idle.pcb
        refine there ⟨b, isIdle ▸ live, ?_⟩
        rcases plain with isUnsaved | isClock
        · rw [isUnsaved]
          rfl
        · rw [isClock]
          rfl
      have moves := deliver_moves fresh (taken.1.allowsUnforked forks) taken.2
      have after := gone.moves distinct known notIdle (fun _ => id) id moves
      have dead : b'.kernelContext.isExit = true := after b'.proc (procs_of_heap live')
      rw [saved, alive] at dead
      cases dead

/-! ### The current process -/

/-- What the current process saves when a step takes it off the processor. -/
def Saves (s : Kernel) : Input → KernelContext → Prop
  | .kernelTrap ctx _, kc =>
      match kc with
      | .delay => ctx.code = yalnixDelay
      | .wait _ => ctx.code = yalnixWait
      | .exit .. => ctx.code = yalnixExit
      | .ttyRead .. => ctx.code = yalnixTtyRead
      | .ttyWriteLock .. | .ttyWriteDone .. => ctx.code = yalnixTtyWrite
      | .unsaved | .kernelStart | .fork .. | .clockTrap => False
  | .clockTrap _, kc => kc = .clockTrap
  | .memoryTrap _, kc | .mathTrap _, kc | .illegalTrap _, kc => kc.isExit = true
  | .resume, kc => ∃ tty buf len, s.Inside s.currentProcess (.ttyWriteLock tty buf len) ∧
      kc = .ttyWriteDone tty len
  | .ttyReceiveTrap .., _ | .ttyTransmitTrap .., _ | .userStore .., _ | .kernelBrk _, _ => False

/-- The switch is reached, and through `kc`. -/
def Leaves (s : Kernel) (saves : KernelContext → Prop) (s' : Kernel) : Prop :=
  s'.mode = .kernel → ∃ b', s'.heap s.currentProcess = some b' ∧ saves b'.kernelContext

namespace Leaves

variable {saves : KernelContext → Prop}

theorem of_user (user : s'.mode = .user) : s.Leaves saves s' := by
  intro inKernel
  rw [user] at inKernel
  cases inKernel

theorem of_current (same : t.currentProcess = s.currentProcess) (rest : t.Leaves saves s') :
    s.Leaves saves s' := by
  rw [Leaves, ← same]
  exact rest

theorem dispatch (h : s.dispatch kc = .ok s') (saved : saves kc) : s.Leaves saves s' := by
  intro _
  rcases dispatch_eq_ok h with ⟨next, rest, -, switched⟩ | ⟨-, switched⟩
  · obtain ⟨c, n, kstack, live, -, -, -⟩ := kcSwitch_eq_ok switched
    obtain ⟨-, state, found⟩ := dispatch_parks (by exact live) h
    exact ⟨_, found, saved⟩
  · obtain ⟨c, n, kstack, live, -, -, -⟩ := kcSwitch_eq_ok switched
    obtain ⟨-, state, found⟩ := dispatch_parks live h
    exact ⟨_, found, saved⟩

theorem restoreContext (h : t.restoreContext = .ok s') : s.Leaves saves s' := by
  obtain ⟨b, -, rfl⟩ := restoreContext_eq_ok.mp h
  exact of_user rfl

theorem returnToUser {rc : Int} (h : t.returnToUser rc = .ok s') : s.Leaves saves s' := by
  obtain ⟨b, -, rfl⟩ := returnToUser_eq_ok.mp h
  exact of_user rfl

theorem finishTtyWrite {asked : Option TtyId} {rc : Int}
    (h : t.finishTtyWrite asked rc = .ok s') : s.Leaves saves s' := by
  cases asked with
  | none => exact returnToUser h
  | some tty => exact returnToUser h

theorem unpackRead {tty : TtyId} {buf : Word} {len rc : Int}
    (h : t.unpackRead tty buf len rc = .ok s') : s.Leaves saves s' := by
  obtain ⟨c, -, ⟨block, u, v, -, -, -, -, h⟩ | ⟨-, h⟩⟩ := unpackRead_eq_ok h
  · exact returnToUser h
  · exact returnToUser h

theorem clockTrapHandler (h : s.clockTrapHandler env = .ok s') :
    s.Leaves (fun kc => kc = .clockTrap) s' := by
  obtain ⟨t, u, saved, iterated, tail⟩ := clockTrapHandler_eq_ok h
  rcases tail with ⟨-, restored⟩ | ⟨next, rest, c, -, live, tail⟩
  · exact restoreContext restored
  · intro _
    rcases tail with ⟨-, -, v, readied, switched⟩ | ⟨-, switched⟩
    · obtain ⟨d, n, kstack, found, -, -, -⟩ := kcSwitch_eq_ok switched
      obtain ⟨-, state, parked⟩ := kcSwitch_parks found switched
      exact ⟨_, parked, rfl⟩
    · obtain ⟨-, state, parked⟩ := kcSwitch_parks (s := u.setQueue .ready rest) live switched
      exact ⟨_, parked, rfl⟩

theorem exit {status : Int} {origin : ExitOrigin} (h : s.exit env status origin = .ok s') :
    s.Leaves (fun kc => kc.isExit = true) s' := by
  simp only [Kernel.exit, bind_eq_ok] at h
  obtain ⟨b, -, h⟩ := h
  by_cases init : b.pid = 1
  · rw [if_pos init] at h
    obtain ⟨-, -, stopped⟩ := bind_eq_ok.mp h
    cases stopped
  · rw [if_neg init] at h
    simp only [bind_eq_ok] at h
    obtain ⟨t, marked, u, woken, switched⟩ := h
    obtain ⟨c, -, rfl⟩ := modifyPcb_eq_ok.mp marked
    have current : u.currentProcess = _ := (wakeParent_sched woken).current_eq
    refine of_current (current.trans ?_) (dispatch switched rfl)
    simp

theorem memoryTrapHandler (user : s.mode = .user) (h : s.memoryTrapHandler env = .ok s') :
    s.Leaves (fun kc => kc.isExit = true) s' := by
  simp only [Kernel.memoryTrapHandler, bind_eq_ok] at h
  obtain ⟨c, -, h⟩ := h
  rcases action : memoryTrapAction c s.ctx with _ | _ | _
  · simp only [action, bind_eq_ok] at h
    obtain ⟨⟨status, t⟩, grown, h⟩ := h
    have view := (growStack_sched grown).1
    by_cases failed : status = .kill
    · simp only [failed, if_true] at h
      exact of_current (congrArg Sched.current view) (exit h)
    · simp only [failed, if_false] at h
      have mode : t.mode = s.mode := congrArg Sched.mode view
      cases h
      exact of_user (mode.trans user)
  · simp only [action] at h
    exact exit h
  · simp only [action] at h
    cases h
    exact of_user user

/-- The calls that save the context first. -/
theorem saved {t : Kernel} (h : s.saveContext = .ok t) (rest : t.Leaves saves s') :
    s.Leaves saves s' :=
  of_current (congrArg Sched.current (sched_saveContext h)) rest

theorem ttyReadValid {tty : TtyId} {buf : Word} {len : Int} {n : Nat}
    {result : Option Int × Kernel} (called : s.ttyReadValid env tty buf n = .ok result)
    (h : finish result (fun rc t => t.unpackRead tty buf len rc) = .ok s')
    (parks : saves (.ttyRead tty buf n)) : s.Leaves saves s' := by
  rcases ttyReadValid_eq_ok called with
    ⟨-, -, rfl⟩ | ⟨-, -, n, b, -, -, rfl⟩ | ⟨-, t, u, blocked, switched, rfl⟩
  · exact unpackRead (t := (s.malloc env).2) h
  · simp only [finish] at h
    exact unpackRead h
  · cases h
    obtain ⟨c, -, rfl⟩ := modifyPcb_eq_ok.mp blocked
    refine of_current ?_ (dispatch switched parks)
    simp

theorem ttyWriteLocked {tty : TtyId} {buf : Word} {n : Nat} {result : Option Int × Kernel}
    {asked : Option TtyId} (called : s.ttyWriteLocked env tty buf n = .ok result)
    (h : finish result (Kernel.finishTtyWrite asked) = .ok s')
    (parks : saves (.ttyWriteDone tty n)) : s.Leaves saves s' := by
  obtain ⟨b, -, outcome⟩ := ttyWriteLocked_eq_ok called
  rcases outcome with ⟨-, -, rfl⟩ | ⟨-, next, rest, t, -, readied, rfl⟩ |
    ⟨-, bytes, u, -, switched, rfl⟩
  · exact finishTtyWrite (t := s.refuseWrite env tty b) h
  · exact finishTtyWrite (t := t.queueEnqueue env .ready next) h
  · cases h
    refine of_current ?_ (dispatch switched parks)
    simp [beginWrite]

theorem ttyWriteValid {tty : TtyId} {buf : Word} {n : Nat} {result : Option Int × Kernel}
    {asked : Option TtyId} (called : s.ttyWriteValid env tty buf n = .ok result)
    (h : finish result (Kernel.finishTtyWrite asked) = .ok s')
    (waits : saves (.ttyWriteLock tty buf n)) (parks : saves (.ttyWriteDone tty n)) :
    s.Leaves saves s' := by
  unfold Kernel.ttyWriteValid at called
  by_cases locked : (s.terminals tty).inUse = true
  · simp only [log_terminals, locked, if_true, bind_eq_ok, pure_eq_ok] at called
    obtain ⟨t, blocked, u, switched, rfl⟩ := called
    cases h
    obtain ⟨c, -, rfl⟩ := modifyPcb_eq_ok.mp blocked
    refine of_current ?_ (dispatch switched waits)
    simp
  · simp only [log_terminals, locked] at called
    have rest : Leaves
        (s.log (.ttyWriteCalled s.currentProcess tty (s.userBytes s.currentProcess buf n)))
        saves s' := ttyWriteLocked called h parks
    exact rest

theorem kernelTrapHandler {ctx : UserContext} {req : LoadRequest} (user : s.mode = .user)
    (h : (s.trap ctx).kernelTrapHandler env req = .ok s') :
    (s.trap ctx).Leaves (s.Saves (.kernelTrap ctx req)) s' := by
  cases kernelTrapHandler_eq_ok h with
  | delay code ran =>
      simp only [trapDelay, bind_eq_ok] at ran
      obtain ⟨t, kept, result, called, ran⟩ := ran
      refine saved kept ?_
      unfold Kernel.delay at called
      split at called
      · cases called
        simp only [finish] at ran
        split at ran
        · cases ran
        · exact returnToUser ran
      · split at called
        · cases called
          simp [finish] at ran
        · simp only [bind_eq_ok, pure_eq_ok] at called
          obtain ⟨u, parked, w, switched, rfl⟩ := called
          cases ran
          obtain ⟨c, -, rfl⟩ := modifyPcb_eq_ok.mp parked
          refine of_current ?_ (dispatch switched code)
          simp
  | brk _ ran =>
      simp only [trapBrk, bind_eq_ok] at ran
      obtain ⟨t, kept, ⟨status, u⟩, moved, ran⟩ := ran
      by_cases failed : status = .error
      · simp only [failed, if_true] at ran
        cases ran
      · simp only [failed, if_false] at ran
        exact returnToUser ran
  | fork _ ran =>
      simp only [trapFork, bind_eq_ok] at ran
      obtain ⟨t, kept, ⟨status, u⟩, forked, ran⟩ := ran
      by_cases failed : status = .error
      · simp only [failed, if_true] at ran
        cases ran
      · simp only [failed, if_false] at ran
        exact restoreContext ran
  | getPid _ ran =>
      simp only [trapGetPid, bind_eq_ok] at ran
      obtain ⟨t, kept, pid, -, ran⟩ := ran
      by_cases failed : pid = -1
      · simp only [failed, if_true] at ran
        cases ran
      · simp only [failed, if_false] at ran
        exact returnToUser ran
  | wait code ran =>
      simp only [trapWait, bind_eq_ok] at ran
      obtain ⟨t, kept, result, waited, ran⟩ := ran
      refine saved kept ?_
      simp only [Kernel.wait] at waited
      by_cases childless : t.isEmpty (.children t.currentProcess) = true
      · rw [if_pos childless] at waited
        cases waited
        exact returnToUser (t := t.log _) ran
      · rw [if_neg childless, bind_eq_ok] at waited
        obtain ⟨⟨found, u⟩, scanned, waited⟩ := waited
        rcases found with _ | pid
        · simp only [bind_eq_ok, pure_eq_ok] at waited
          obtain ⟨w, blocked, x, switched, rfl⟩ := waited
          cases ran
          obtain ⟨c, -, rfl⟩ := modifyPcb_eq_ok.mp blocked
          refine of_current ?_ (dispatch switched code)
          rcases waitScan_sched scanned with ⟨z, d, e, -, -, -, -, -, some, -⟩ | ⟨same, -⟩
          · cases some
          · rw [(Prod.mk.inj same).2]
            rfl
        · cases waited
          exact returnToUser (t := u.log _) ran
  | exit code ran =>
      intro inKernel
      obtain ⟨b', live', isExit⟩ := exit ran inKernel
      refine ⟨b', live', ?_⟩
      cases saved : b'.kernelContext with
      | exit frame origin => exact code
      | _ =>
          rw [saved] at isExit
          cases isExit
  | exec _ ran =>
      simp only [trapExec, bind_eq_ok] at ran
      obtain ⟨t, kept, ⟨rc, u⟩, loaded, ran⟩ := ran
      exact returnToUser ran
  | ttyRead code ran =>
      unfold trapTtyRead at ran
      simp only at ran
      split at ran
      · simp only [bind_eq_ok] at ran
        obtain ⟨t, kept, result, called, ran⟩ := ran
        refine saved kept ?_
        unfold Kernel.ttyRead at called
        rcases arguments : ttyArguments ((s.trap ctx).ctx.intReg 0) ((s.trap ctx).ctx.regs 1)
            ((s.trap ctx).ctx.intReg 2) with _ | ⟨tty, len⟩
        · rw [arguments] at called ran
          cases called
          exact returnToUser ran
        · rw [arguments] at called ran
          exact ttyReadValid called ran code
      · cases ran
        exact of_user user
  | ttyWrite code ran =>
      unfold trapTtyWrite at ran
      simp only at ran
      split at ran
      · simp only [bind_eq_ok] at ran
        obtain ⟨t, kept, result, called, ran⟩ := ran
        refine saved kept ?_
        unfold Kernel.ttyWrite at called
        split at called
        · cases called
          exact finishTtyWrite ran
        · exact ttyWriteValid called ran code code
      · cases ran
        exact of_user user
  | unknown _ same =>
      subst same
      exact of_user user

theorem resume (inKernel : s.mode = .kernel) (h : s.resume env = .ok s') :
    s.Leaves (s.Saves .resume) s' := by
  simp only [Kernel.resume, bind_eq_ok, deref_eq_ok] at h
  obtain ⟨c, live, h⟩ := h
  cases saved : c.kernelContext with
  | unsaved =>
      rw [saved] at h
      cases h
  | kernelStart =>
      rw [saved] at h
      exact restoreContext h
  | fork child parent =>
      rw [saved] at h
      simp only [bind_eq_ok] at h
      obtain ⟨t, forked, h⟩ := h
      exact restoreContext h
  | clockTrap =>
      rw [saved] at h
      exact restoreContext h
  | delay =>
      rw [saved] at h
      exact returnToUser h
  | wait statusPtr =>
      rw [saved] at h
      simp only [bind_eq_ok] at h
      obtain ⟨⟨rc, t⟩, resumed, h⟩ := h
      exact returnToUser h
  | ttyRead tty buf len =>
      rw [saved] at h
      exact unpackRead h
  | ttyWriteLock tty buf len =>
      rw [saved] at h
      simp only [bind_eq_ok] at h
      obtain ⟨result, locked, h⟩ := h
      have away : ¬ s.Runs s.currentProcess := by
        intro runs
        rw [runs.1] at inKernel
        cases inKernel
      exact ttyWriteLocked locked h ⟨tty, buf, len, ⟨away, c, live, saved⟩, rfl⟩
  | ttyWriteDone tty len =>
      rw [saved] at h
      exact finishTtyWrite h
  | exit frame origin =>
      rw [saved] at h
      rcases origin with _ | _ | _
      · cases h
        exact of_user rfl
      · cases h
        exact of_user rfl
      · cases h

end Leaves

/-- A step that takes the current process off the processor saves what its trap or call saves. -/
theorem leaves_step {i : Input} (step : s.Step env i s') : s.Leaves (s.Saves i) s' := by
  obtain ⟨enabled, h⟩ := step
  have entered : ∀ {ctx : UserContext} {saves : KernelContext → Prop},
      (s.trap ctx).Leaves saves s' → s.Leaves saves s' := id
  cases i with
  | kernelTrap ctx req => exact entered (Leaves.kernelTrapHandler enabled.1 h)
  | clockTrap ctx => exact entered (Leaves.clockTrapHandler h)
  | memoryTrap ctx => exact entered (Leaves.memoryTrapHandler (s := s.trap ctx) enabled.1 h)
  | mathTrap ctx => exact entered (Leaves.exit h)
  | illegalTrap ctx => exact entered (Leaves.exit h)
  | ttyReceiveTrap ctx tty data =>
      have frame := SameFrame.ttyTrapReceiveHandler (s := s.trap ctx) h
      exact Leaves.of_user (frame.2.1.trans enabled.1)
  | ttyTransmitTrap ctx tty =>
      have frame := SameFrame.ttyTrapTransmitHandler (s := s.trap ctx) h
      exact Leaves.of_user (frame.2.1.trans enabled)
  | resume => exact Leaves.resume enabled h
  | userStore va bytes =>
      have mode : s'.mode = s.mode := congrArg Sched.mode (sched_storeUser h)
      exact Leaves.of_user (mode.trans enabled.1)
  | kernelBrk addr =>
      cases h
      exact Leaves.of_user enabled

/-- After a step the process that was current runs on, or is inside what it saved. -/
theorem inside_current {i : Input} (fresh : s.heap s.nextPcb = none) (step : s.Step env i s')
    (inside : s'.Inside s.currentProcess kc) : s.Saves i kc := by
  have inKernel : s'.mode = .kernel := by
    cases mode : s'.mode with
    | kernel => rfl
    | user => exact absurd ⟨mode, step_current fresh step mode⟩ inside.away
  obtain ⟨b, live, saved⟩ := leaves_step step inKernel
  obtain ⟨b', live', rfl⟩ := inside.pcb
  rw [Option.some.inj (live'.symm.trans live)]
  exact saved

/-- A process is inside a call because it was before, or because the step takes it there. -/
theorem inside_or_saves {i : Input} (distinct : Function.Injective env.helperNewPid)
    (known : Sched.Registered env s.sched) (idle : s.IdleCalm) (alive : kc.isExit = false)
    (old : kc.isFork = false) (taken : Guarded (Step env) ExitsWritten s i s')
    (inside : s'.Inside p kc) : s.Inside p kc ∨ p = s.currentProcess ∧ s.Saves i kc := by
  by_cases current : p = s.currentProcess
  · subst current
    exact Or.inr ⟨rfl, inside_current (fresh_of_registered known) taken.2 inside⟩
  · exact Or.inl (inside.before distinct known idle alive old (Ne.symm current) taken)

end Kernel

end Yalnix
