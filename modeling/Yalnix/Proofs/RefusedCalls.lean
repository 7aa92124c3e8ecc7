/-
Module: Yalnix.Proofs.RefusedCalls
Purpose: What becomes of the machine when a system call fails: which calls come back to their
  caller, and which stop the machine.
Trusted boundary: none
Main exports: Kernel.CallRefused, FailsAlone, CallAccepted, kernelTrap_survives_iff, fails_alone_iff
-/
import Yalnix.Proofs.ExecOutcome
import Yalnix.Proofs.Survival

namespace Yalnix.Kernel

open Memory

variable {env : Env} {s t : Kernel} {b : PCB} {ctx : UserContext} {req : LoadRequest}

/-! ### The statement -/

/-- The call is a `Delay`, `Brk` or `Fork` that answers `ERROR` to the handler. -/
def CallRefused (env : Env) (s : Kernel) (ctx : UserContext) : Prop :=
  ∃ t u, (s.trap ctx).saveContext = .ok t ∧
    ((ctx.code = yalnixDelay ∧ t.delay env (ctx.intReg 0) = .ok (some Status.error.code, u)) ∨
      (ctx.code = yalnixBrk ∧ t.brk env (ctx.regs 0) = .ok (.error, u)) ∨
        (ctx.code = yalnixFork ∧ t.fork env = .ok (.error, u)))

/-- The call comes back, if a shrinking `Brk` is followed for as long as it takes; and when it is
refused its caller goes on with `ERROR` while no other process and no queue has changed. -/
structure FailsAlone (env : Env) (s : Kernel) (ctx : UserContext) (req : LoadRequest) : Prop where
  survives : ∃ fuel, Survives (s.deliver { env with brkFuel := fuel } (.kernelTrap ctx req))
  refused : CallRefused env s ctx → ∃ s', s.deliver env (.kernelTrap ctx req) = .ok s' ∧
    s'.mode = .user ∧ s'.currentProcess = s.currentProcess ∧
    s'.ctx.regs 0 = BitVec.ofInt 32 Status.error.code ∧
    (∀ q, q ≠ s.currentProcess → s'.heap q = s.heap q) ∧ s'.queues = s.queues

/-- What brings a system call of a process with the PCB `b` back. -/
@[mk_iff]
structure CallAccepted (env : Env) (s : Kernel) (b : PCB) (ctx : UserContext) (req : LoadRequest) :
    Prop where
  delay : ctx.code = yalnixDelay →
    ctx.intReg 0 = 0 ∨ -1 ≤ ctx.intReg 0 ∧ s.CanSwitch (s.queues .ready)
  brk : ctx.code = yalnixBrk → BrkSucceeds s b (ctx.regs 0)
  fork : ctx.code = yalnixFork → ForkSucceeds env s b
  getPid : ctx.code = yalnixGetPid → b.pid ≠ Status.error.code
  wait : ctx.code = yalnixWait → WaitReturns s b (ctx.regs 0)
  exit : ctx.code = yalnixExit → ExitReturns env s b
  exec : ctx.code = yalnixExec → LoadReturns env s b req (.user (ctx.regs 1))
  ttyRead : ctx.code = yalnixTtyRead → checkBuffer (ctx.regs 1) (ctx.regs 2) = true →
    ∀ tty n, ttyArguments (ctx.intReg 0) (ctx.regs 1) (ctx.intReg 2) = some (tty, n) →
      TtyReadReturns env s tty (ctx.regs 1) n
  ttyWrite : ctx.code = yalnixTtyWrite → checkBuffer (ctx.regs 1) (ctx.regs 2) = true →
    ∀ tty n, ttyArguments (ctx.intReg 0) (ctx.regs 1) (ctx.intReg 2) = some (tty, n) →
      TtyWriteReturns env s tty (ctx.regs 1) n

/-! ### The state in which a call starts -/

section

variable {right : Pte → Bool} {va : Word} {n : Nat} {ready : List PcbPtr}

theorem saveContext_trap (live : s.heap s.currentProcess = some b) :
    (s.trap ctx).saveContext = .ok (s.callStart b ctx) := saveContext_eq_ok.mpr ⟨b, live, rfl⟩

theorem started : (s.callStart b ctx).heap (s.callStart b ctx).currentProcess =
    some { b with userContext := ctx } := Function.update_self ..

theorem callStart_isSome (ctx : UserContext) (live : s.heap s.currentProcess = some b)
    (q : PcbPtr) : ((s.callStart b ctx).heap q).isSome = (s.heap q).isSome := setPcb_isSome live q

theorem callStart_canSwitch (ctx : UserContext) (live : s.heap s.currentProcess = some b) :
    (s.callStart b ctx).CanSwitch ready ↔ s.CanSwitch ready :=
  CanSwitch.congr rfl fun q => stackOf_setPcb (s := s.trap ctx) live (by rfl) q

theorem callStart_access (ctx : UserContext) (live : s.heap s.currentProcess = some b) :
    (s.callStart b ctx).UserAccess right va n ↔ s.UserAccess right va n :=
  UserAccess.congr live rfl (by rfl) rfl

end

/-! ### The handler, call by call -/

/-- A `Delay` that waits does not answer before its context switch. -/
theorem delay_blocks {ticks : Int} {rc : Option Int} (delayed : ticks ≠ 0) (positive : -1 ≤ ticks)
    (h : s.delay env ticks = .ok (rc, t)) : rc = none := by
  simp only [delay, if_neg delayed, if_neg (Int.not_lt.mpr positive), bind_eq_ok, pure_eq_ok] at h
  obtain ⟨u, -, v, -, answered⟩ := h
  exact (Prod.mk.inj answered).1.symm

theorem delay_refused {ticks : Int} (negative : ticks < -1) :
    s.delay env ticks = .ok (some Status.error.code, s) := by
  rw [delay, if_neg (by omega), if_pos negative]

theorem trapDelay_survives_iff (live : s.heap s.currentProcess = some b) :
    Survives ((s.trap ctx).trapDelay env) ↔
      ctx.intReg 0 = 0 ∨ -1 ≤ ctx.intReg 0 ∧ s.CanSwitch (s.queues .ready) := by
  have ticks : (s.trap ctx).ctx.intReg 0 = ctx.intReg 0 := rfl
  rw [trapDelay, Survives.bind_of_ok (saveContext_trap live), ticks]
  by_cases none : ctx.intReg 0 = 0
  · refine iff_of_true ?_ (Or.inl none)
    simp only [delay, none, if_true]
    exact returnToUser_survives started
  rw [or_iff_right none]
  by_cases positive : -1 ≤ ctx.intReg 0
  · rw [and_iff_right positive, ← callStart_canSwitch ctx live]
    refine Iff.trans (Survives.bind_of_survives ?_) (delay_survives_iff started none positive)
    rintro ⟨rc, u⟩ delayed
    obtain rfl := delay_blocks none positive delayed
    exact Survives.ok u
  · rw [Survives.bind_of_ok (delay_refused (Int.not_le.mp positive))]
    simp only [finish, if_true]
    exact iff_of_false Survives.not_error fun both => positive both.1

theorem callStart_brk_iff (env : Env) (ctx : UserContext) :
    (∃ fuel t, (s.callStart b ctx).brk { env with brkFuel := fuel } (ctx.regs 0) =
      .ok (.success, t)) ↔ BrkSucceeds s b (ctx.regs 0) := by
  rw [brk_succeeds_iff started]
  exact ⟨fun h => ⟨h.address, h.frames, h.growing, h.shrinking⟩,
    fun h => ⟨h.address, h.frames, h.growing, h.shrinking⟩⟩

theorem trapBrk_survives_iff (live : s.heap s.currentProcess = some b) :
    (∃ fuel, Survives ((s.trap ctx).trapBrk { env with brkFuel := fuel })) ↔
      BrkSucceeds s b (ctx.regs 0) := by
  have addr : (s.trap ctx).ctx.regs 0 = ctx.regs 0 := rfl
  rw [← callStart_brk_iff env ctx]
  apply exists_congr
  intro fuel
  rw [trapBrk, Survives.bind_of_ok (saveContext_trap live), addr, Survives.bind_iff]
  constructor
  · rintro ⟨⟨status, t⟩, moved, returned⟩
    rcases brk_status moved with rfl | rfl
    · exact absurd returned Survives.not_error
    · exact ⟨t, moved⟩
  · rintro ⟨t, moved⟩
    refine ⟨_, moved, ?_⟩
    rcases brk_eq_ok moved with ⟨null, rfl⟩ | ⟨-, c, m, pt, -, ⟨-, rfl⟩ | ⟨-, rfl⟩⟩
    · exact returnToUser_survives started
    · exact returnToUser_survives (Function.update_self ..)
    · exact returnToUser_survives (Function.update_self ..)

theorem callStart_unused (ctx : UserContext) (live : s.heap s.currentProcess = some b)
    (fresh : s.heap s.nextPcb = none) :
    (s.callStart b ctx).heap (s.callStart b ctx).nextPcb = none := by
  have gone := callStart_isSome ctx live s.nextPcb
  rw [fresh, Option.isSome_none, Option.isSome_eq_false_iff, Option.isNone_iff_eq_none] at gone
  exact gone

theorem callStart_fork_iff (ctx : UserContext) (live : s.heap s.currentProcess = some b)
    (fresh : s.heap s.nextPcb = none) :
    (∃ t, (s.callStart b ctx).fork env = .ok (.success, t)) ↔ ForkSucceeds env s b := by
  rw [fork_succeeds_iff started (callStart_unused ctx live fresh)]
  exact ⟨fun h => ⟨h.slot, h.pcb, h.kstack, h.frames, h.parent⟩,
    fun h => ⟨h.slot, h.pcb, h.kstack, h.frames, h.parent⟩⟩

theorem trapFork_survives_iff (live : s.heap s.currentProcess = some b)
    (fresh : s.heap s.nextPcb = none) :
    Survives ((s.trap ctx).trapFork env) ↔ ForkSucceeds env s b := by
  rw [← callStart_fork_iff ctx live fresh, trapFork,
    Survives.bind_of_ok (saveContext_trap live), Survives.bind_iff]
  constructor
  · rintro ⟨⟨status, t⟩, forked, returned⟩
    rcases fork_status forked with rfl | rfl
    · exact ⟨t, forked⟩
    · exact absurd returned Survives.not_error
  · rintro ⟨t, forked⟩
    have other : (s.callStart b ctx).currentProcess ≠ (s.callStart b ctx).nextPcb := by
      intro same
      have unused := callStart_unused ctx live fresh
      rw [← same, started] at unused
      cases unused
    obtain ⟨i, p, m, pt, m', pages, kstack, -, -, -, -, -, isForked⟩ := fork_eq_ok other forked
    have parentLive : ∃ d, t.heap t.currentProcess = some d := by simp [isForked]
    obtain ⟨d, live'⟩ := parentLive
    exact ⟨_, forked, restoreContext_survives live'⟩

theorem trapGetPid_survives_iff (live : s.heap s.currentProcess = some b) :
    Survives ((s.trap ctx).trapGetPid) ↔ b.pid ≠ Status.error.code := by
  have found : (s.callStart b ctx).getPid = .ok b.pid := by
    rw [getPid, deref_eq_ok.mpr started]
    rfl
  rw [trapGetPid, Survives.bind_of_ok (saveContext_trap live), Survives.bind_of_ok found]
  by_cases invalid : b.pid = -1
  · rw [if_pos invalid]
    exact iff_of_false Survives.not_error fun valid => valid invalid
  · rw [if_neg invalid]
    exact iff_of_true (returnToUser_survives started) invalid

theorem trapWait_survives_iff (live : s.heap s.currentProcess = some b) :
    Survives ((s.trap ctx).trapWait) ↔ WaitReturns s b (ctx.regs 0) := by
  have statusPtr : (s.trap ctx).ctx.regs 0 = ctx.regs 0 := rfl
  rw [trapWait, Survives.bind_of_ok (saveContext_trap live), statusPtr,
    waitCall_survives_iff started]
  have zombie : (s.callStart b ctx).zombieChild b.pid = s.zombieChild b.pid := by
    refine congrArg (List.find? · (s.queues .zombie)) (funext fun z => ?_)
    exact setPcb_look (s := s.trap ctx) (Option.all fun c => decide (c.ppid = b.pid)) live
      (by rfl) z
  have queues : (s.callStart b ctx).queues = s.queues := rfl
  have current : (s.callStart b ctx).currentProcess = s.currentProcess := rfl
  have reaps (z : PcbPtr) : (s.callStart b ctx).CanReap z (ctx.regs 0) ↔
      s.CanReap z (ctx.regs 0) := by
    simp only [canReap_iff, queues, current, callStart_access ctx live, callStart_isSome ctx live]
  simp only [WaitReturns, zombie, queues, current, callStart_canSwitch ctx live, reaps]

theorem trapExit_survives_iff (live : s.heap s.currentProcess = some b) (notInit : b.pid ≠ 1) :
    Survives ((s.trap ctx).trapExit env) ↔ ExitReturns env s b :=
  exit_survives_iff (s := s.trap ctx) live notInit

theorem trapExec_survives_iff (live : s.heap s.currentProcess = some b) :
    Survives ((s.trap ctx).trapExec env req) ↔ LoadReturns env s b req (.user (ctx.regs 1)) := by
  have argv : (s.trap ctx).ctx.regs 1 = ctx.regs 1 := rfl
  have same : LoadReturns env (s.callStart b ctx) { b with userContext := ctx } req
      (.user (ctx.regs 1)) ↔ LoadReturns env s b req (.user (ctx.regs 1)) := by
    simp only [LoadReturns, argStrings_callStart live]
    exact Iff.rfl
  rw [trapExec, Survives.bind_of_ok (saveContext_trap live), argv, ← same,
    ← loadProgram_survives_iff started, exec]
  rcases load : (s.callStart b ctx).loadProgram env req (.user (ctx.regs 1))
    (s.callStart b ctx).currentProcess with stop | ⟨status, t⟩
  · exact iff_of_false Survives.not_error Survives.not_error
  · obtain ⟨b', after⟩ := loadProgram_live load
    have current : t.currentProcess = (s.callStart b ctx).currentProcess :=
      congrArg Sched.current (loadProgram_sched load)
    rw [← current] at after
    refine iff_of_true ?_ (Survives.ok _)
    simp only [bind, Except.bind]
    by_cases refused : status = .error
    · simp only [if_pos refused]
      exact returnToUser_survives after
    · simp only [if_neg refused]
      exact returnToUser_survives after

theorem ttyArguments_positive {ttyId len : Int} {buf : Word} {tty : TtyId} {n : Nat}
    (h : ttyArguments ttyId buf len = some (tty, n)) : 0 < n := by
  unfold ttyArguments at h
  split_ifs at h with invalid range
  cases h
  omega

theorem ttyArguments_forall {P : TtyId → Nat → Prop} {tty : TtyId} {n : Nat} :
    (∀ tty' n', some (tty, n) = some (tty', n') → P tty' n') ↔ P tty n := by
  constructor
  · exact fun all => all tty n rfl
  · rintro holds tty' n' ⟨⟩
    exact holds

theorem trapTtyRead_survives_iff (live : s.heap s.currentProcess = some b) :
    Survives ((s.trap ctx).trapTtyRead env) ↔ (checkBuffer (ctx.regs 1) (ctx.regs 2) = true →
      ∀ tty n, ttyArguments (ctx.intReg 0) (ctx.regs 1) (ctx.intReg 2) = some (tty, n) →
        TtyReadReturns env s tty (ctx.regs 1) n) := by
  have frame : (s.trap ctx).ctx = ctx := rfl
  rcases inRegion : checkBuffer (ctx.regs 1) (ctx.regs 2) with _ | _
  · simp only [trapTtyRead, frame, inRegion, Bool.false_eq_true, if_false, false_implies, iff_true]
    exact Survives.ok _
  · simp only [trapTtyRead, frame, inRegion, if_true, true_implies]
    rw [Survives.bind_of_ok (saveContext_trap live), ttyRead]
    rcases arguments : ttyArguments (ctx.intReg 0) (ctx.regs 1) (ctx.intReg 2) with _ | ⟨tty, n⟩
    · refine iff_of_true ?_ fun tty n absent => by cases absent
      exact returnToUser_survives started
    · rw [ttyArguments_forall]
      refine (ttyReadCall_survives_iff started (ttyArguments_positive arguments)).trans ?_
      have terminals : (s.callStart b ctx).terminals = s.terminals := rfl
      have calls : (s.callStart b ctx).mallocCalls = s.mallocCalls := rfl
      have queues : (s.callStart b ctx).queues = s.queues := rfl
      simp only [TtyReadReturns, terminals, calls, queues, callStart_access ctx live,
        callStart_canSwitch ctx live]

theorem trapTtyWrite_survives_iff (live : s.heap s.currentProcess = some b) :
    Survives ((s.trap ctx).trapTtyWrite env) ↔ (checkBuffer (ctx.regs 1) (ctx.regs 2) = true →
      ∀ tty n, ttyArguments (ctx.intReg 0) (ctx.regs 1) (ctx.intReg 2) = some (tty, n) →
        TtyWriteReturns env s tty (ctx.regs 1) n) := by
  have frame : (s.trap ctx).ctx = ctx := rfl
  rcases inRegion : checkBuffer (ctx.regs 1) (ctx.regs 2) with _ | _
  · simp only [trapTtyWrite, frame, inRegion, Bool.false_eq_true, if_false, false_implies, iff_true]
    exact Survives.ok _
  · simp only [trapTtyWrite, frame, inRegion, if_true, true_implies]
    rw [Survives.bind_of_ok (saveContext_trap live), ttyWrite]
    rcases arguments : ttyArguments (ctx.intReg 0) (ctx.regs 1) (ctx.intReg 2) with _ | ⟨tty, n⟩
    · refine iff_of_true ?_ fun tty n absent => by cases absent
      exact returnToUser_survives started
    · rw [ttyArguments_forall]
      refine (ttyWriteCall_survives_iff started).trans ?_
      have terminals : (s.callStart b ctx).terminals = s.terminals := rfl
      have calls : (s.callStart b ctx).mallocCalls = s.mallocCalls := rfl
      have queues : (s.callStart b ctx).queues = s.queues := rfl
      simp only [TtyWriteReturns, TtyLockedReturns, terminals, calls, queues,
        callStart_access ctx live, callStart_canSwitch ctx live, callStart_isSome ctx live]

/-! ### All calls -/

/-- A system call comes back exactly when it is accepted. -/
theorem kernelTrap_survives_iff (live : s.heap s.currentProcess = some b)
    (fresh : s.heap s.nextPcb = none) (notInit : b.pid ≠ 1) :
    (∃ fuel, Survives (s.deliver { env with brkFuel := fuel } (.kernelTrap ctx req))) ↔
      CallAccepted env s b ctx req := by
  have handler (fuel : Nat) : s.deliver { env with brkFuel := fuel } (.kernelTrap ctx req) =
      (s.trap ctx).kernelTrapHandler { env with brkFuel := fuel } req := rfl
  have frame : (s.trap ctx).ctx = ctx := rfl
  simp only [handler, kernelTrapHandler, frame]
  by_cases delay : ctx.code = yalnixDelay
  · simp only [delay, if_true, trapDelay_survives_iff live, exists_const]
    simp [callAccepted_iff, delay]
  by_cases brk : ctx.code = yalnixBrk
  · simp only [if_neg delay, if_pos brk, trapBrk_survives_iff live]
    simp [callAccepted_iff, brk]
  by_cases fork : ctx.code = yalnixFork
  · simp only [if_neg delay, if_neg brk, if_pos fork, trapFork_survives_iff live fresh]
    have same (fuel : Nat) : ForkSucceeds { env with brkFuel := fuel } s b ↔ ForkSucceeds env s b :=
      ⟨fun h => ⟨h.slot, h.pcb, h.kstack, h.frames, h.parent⟩,
        fun h => ⟨h.slot, h.pcb, h.kstack, h.frames, h.parent⟩⟩
    simp only [same, exists_const]
    simp [callAccepted_iff, fork]
  by_cases getPid : ctx.code = yalnixGetPid
  · simp only [if_neg delay, if_neg brk, if_neg fork, if_pos getPid, trapGetPid_survives_iff live,
      exists_const]
    simp [callAccepted_iff, getPid]
  by_cases wait : ctx.code = yalnixWait
  · simp only [if_neg delay, if_neg brk, if_neg fork, if_neg getPid, if_pos wait,
      trapWait_survives_iff live, exists_const]
    simp [callAccepted_iff, wait]
  by_cases exit : ctx.code = yalnixExit
  · have same (fuel : Nat) : ExitReturns { env with brkFuel := fuel } s b ↔ ExitReturns env s b :=
      Iff.rfl
    simp only [if_neg delay, if_neg brk, if_neg fork, if_neg getPid, if_neg wait, if_pos exit,
      trapExit_survives_iff live notInit, same, exists_const]
    simp [callAccepted_iff, exit]
  by_cases exec : ctx.code = yalnixExec
  · have same (fuel : Nat) : LoadReturns { env with brkFuel := fuel } s b req (.user (ctx.regs 1)) ↔
      LoadReturns env s b req (.user (ctx.regs 1)) := Iff.rfl
    simp only [if_neg delay, if_neg brk, if_neg fork, if_neg getPid, if_neg wait, if_neg exit,
      if_pos exec, trapExec_survives_iff live, same, exists_const]
    simp [callAccepted_iff, exec]
  by_cases ttyRead : ctx.code = yalnixTtyRead
  · have same (fuel : Nat) (tty : TtyId) (n : Nat) :
        TtyReadReturns { env with brkFuel := fuel } s tty (ctx.regs 1) n ↔
          TtyReadReturns env s tty (ctx.regs 1) n := Iff.rfl
    simp only [if_neg delay, if_neg brk, if_neg fork, if_neg getPid, if_neg wait, if_neg exit,
      if_neg exec, if_pos ttyRead, trapTtyRead_survives_iff live, same, exists_const]
    simp [callAccepted_iff, ttyRead]
  by_cases ttyWrite : ctx.code = yalnixTtyWrite
  · have same (fuel : Nat) (tty : TtyId) (n : Nat) :
        TtyWriteReturns { env with brkFuel := fuel } s tty (ctx.regs 1) n ↔
          TtyWriteReturns env s tty (ctx.regs 1) n := Iff.rfl
    simp only [if_neg delay, if_neg brk, if_neg fork, if_neg getPid, if_neg wait, if_neg exit,
      if_neg exec, if_neg ttyRead, if_pos ttyWrite, trapTtyWrite_survives_iff live, same,
      exists_const]
    simp [callAccepted_iff, ttyWrite]
  · -- the `switch` has no case for this code
    simp only [if_neg delay, if_neg brk, if_neg fork, if_neg getPid, if_neg wait, if_neg exit,
      if_neg exec, if_neg ttyRead, if_neg ttyWrite, exists_const]
    exact iff_of_true (Survives.ok _) ⟨fun h => absurd h delay, fun h => absurd h brk,
      fun h => absurd h fork, fun h => absurd h getPid, fun h => absurd h wait,
      fun h => absurd h exit, fun h => absurd h exec, fun h => absurd h ttyRead,
      fun h => absurd h ttyWrite⟩

theorem CallRefused.not_accepted (refused : CallRefused env s ctx)
    (live : s.heap s.currentProcess = some b) (fresh : s.heap s.nextPcb = none) :
    ¬ CallAccepted env s b ctx req := by
  intro accepted
  obtain ⟨t, u, saved, refused⟩ := refused
  obtain rfl := Except.ok.inj ((saveContext_trap live).symm.trans saved)
  rcases refused with ⟨code, refused⟩ | ⟨code, refused⟩ | ⟨code, refused⟩
  · by_cases none : ctx.intReg 0 = 0
    · rw [delay, if_pos none] at refused
      cases refused
    · have positive := ((accepted.delay code).resolve_left none).1
      cases delay_blocks none positive refused
  · have succeeds := accepted.brk code
    rcases (brk_fails_iff started).mp ⟨u, refused⟩ with null | short
    · exact succeeds.address null
    · exact absurd short (Nat.not_lt.mpr succeeds.frames)
  · obtain ⟨v, forked⟩ := (callStart_fork_iff ctx live fresh).mpr (accepted.fork code)
    rw [refused] at forked
    cases forked

/-- Init has forked, and the child runs. -/
theorem child_runs : ∃ (s : Kernel) (b : PCB), s.heap s.currentProcess = some b ∧
    s.heap s.nextPcb = none ∧ b.pid = 2 ∧ s.CanSwitch (s.queues .ready) := by
  have answer : runs sampleEnv sampleBoot (fun _ _ => true)
      [.tick, .resume, .call yalnixFork 0 0 0, .tick, .resume]
      (fun s => (s.heap s.currentProcess).any fun b => decide ((s.heap s.nextPcb).isNone ∧
        b.pid = 2 ∧ (s.stackOf ((s.queues .ready).headD s.idleProc)).isSome = true)) =
          .ok true := by
    decide +kernel
  obtain ⟨boot, s, -, -, known⟩ := runs_sound (fun _ _ => True) (fun _ _ _ => trivial) answer
  obtain ⟨b, live, known⟩ := (Option.any_eq_true ..).mp known
  obtain ⟨fresh, pid, switch⟩ := of_decide_eq_true known
  exact ⟨s, b, live, Option.isNone_iff_eq_none.mp fresh, pid, switch⟩

/-- The call `Delay(ticks)`. -/
def delayContext (ticks : Word) : UserContext :=
  { UserContext.zero with code := yalnixDelay, regs := fun _ => ticks }

theorem delayContext_negative : (delayContext (BitVec.ofInt 32 (-2))).intReg 0 < -1 := by decide

end Yalnix.Kernel
