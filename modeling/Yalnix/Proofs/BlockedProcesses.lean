/-
Module: Yalnix.Proofs.BlockedProcesses
Purpose: A call that blocks registers its process with what will wake it, and a blocked process
  stays registered until that happens.
Trusted boundary: malloc succeeds; the pids of the hardware library do not repeat and are not
  negative; a transmit trap answers a call of TtyTransmit
Main exports: Kernel.Awaited, Kernel.FallsAsleep, fallsAsleep_step, Kernel.Sleepers, Sleepers.step,
  sleepers_reaches, blocked_awaited
-/
import Yalnix.Proofs.Children
import Yalnix.Proofs.RefusedCalls
import Yalnix.Proofs.WakeUps
import Yalnix.Proofs.Wakeful

namespace Yalnix.Kernel

open Transition

variable {env : Env} {cfg : BootConfig} {boot s s' t u : Kernel} {p q c : PcbPtr} {b b' : PCB}
  {kc : KernelContext}

/-- A child of the process has not called `Exit`. -/
def ChildLeft (s : Kernel) (p : PcbPtr) : Prop :=
  ∃ c ∈ s.queues (.children p), ∀ status, .exited c status ∉ s.history

/-- What will wake the process is still to come, and will find it: ticks that the clock counts down,
a terminal that it reads or writes, or the exit of a child. -/
def Awaited (s : Kernel) (p : PcbPtr) (b : PCB) : Prop :=
  (p ∈ s.queues .blocked ∧ 0 < b.delayTicks) ∨
    (∃ tty, p ∈ s.queues (.readers tty) ∨ p ∈ s.queues (.writers tty) ∨
      (s.terminals tty).currentWriter = some p) ∨
    b.waitingForChildPid = 1 ∧ s.ChildLeft p

theorem childLeft_iff :
    s.ChildLeft p ↔ ∃ c ∈ s.queues (.children p), ¬ s.sched.Exited c := by
  have same : ∀ c, (∀ status, .exited c status ∉ s.history) ↔ ¬ s.sched.Exited c := by
    intro c
    rw [Sched.Exited, not_exists]
    refine forall_congr' fun status => not_congr ?_
    simp [sched, Event.isFamily]
  simp only [ChildLeft, same]

/-- The process stays registered. -/
theorem Awaited.carry (awaited : s.Awaited p b)
    (waiting : ∀ queue, queue.isWaiting = true → p ∈ s.queues queue → p ∈ s'.queues queue)
    (writing : ∀ tty, (s.terminals tty).currentWriter = some p →
      (s'.terminals tty).currentWriter = some p)
    (delay : 0 < b.delayTicks → 0 < b'.delayTicks)
    (child : b.waitingForChildPid = 1 → s.ChildLeft p →
      b'.waitingForChildPid = 1 ∧ s'.ChildLeft p) : s'.Awaited p b' := by
  rcases awaited with ⟨queued, ticks⟩ | ⟨tty, registered⟩ | ⟨flag, left⟩
  · exact Or.inl ⟨waiting .blocked rfl queued, delay ticks⟩
  · refine Or.inr (Or.inl ⟨tty, ?_⟩)
    exact registered.imp (waiting _ rfl) (Or.imp (waiting _ rfl) (writing tty))
  · exact Or.inr (Or.inr (child flag left))

/-! ### Falling asleep -/

/-- A process that is blocked after a switch was so before, and what will wake it is the same. -/
theorem Awaited.kcSwitch {curr next : PcbPtr} (h : s.kcSwitch kc curr next = .ok s')
    (live : s'.heap p = some b') (asleep : b'.state = .blocked) :
    ∃ b, s.heap p = some b ∧ (s.Awaited p b → s'.Awaited p b') := by
  obtain ⟨d, n, kstack, there, nextLive, -, rfl⟩ := kcSwitch_eq_ok h
  have kept {b : PCB} (delay : b'.delayTicks = b.delayTicks)
      (flag : b'.waitingForChildPid = b.waitingForChildPid) (awaited : s.Awaited p b) :
      Awaited _ p b' :=
    awaited.carry (fun _ _ => id) (fun _ => id) (fun ticks => delay ▸ ticks)
      fun waits left => ⟨flag.trans waits, left⟩
  by_cases entered : p = next
  · subst entered
    simp at live
    subst live
    cases asleep
  · by_cases here : p = curr
    · subst here
      simp [entered] at live
      subst live
      exact ⟨d, there, kept rfl rfl⟩
    · simp [entered, here] at live
      exact ⟨b', live, kept rfl rfl⟩

theorem Awaited.dispatch (h : s.dispatch kc = .ok s') (live : s'.heap p = some b')
    (asleep : b'.state = .blocked) :
    ∃ b, s.heap p = some b ∧ (s.Awaited p b → s'.Awaited p b') := by
  rcases dispatch_eq_ok h with ⟨next, rest, -, switched⟩ | ⟨-, switched⟩
  · obtain ⟨b, there, kept⟩ := Awaited.kcSwitch switched live asleep
    refine ⟨b, there, fun awaited => kept (awaited.carry ?_ (fun _ => id) id fun flag left => ?_)⟩
    · intro queue waits member
      have other : queue ≠ .ready := by
        rintro rfl
        cases waits
      rw [setQueue_queues, Function.update_of_ne other]
      exact member
    · obtain ⟨c, child, unexited⟩ := left
      exact ⟨flag, c, by simpa using child, unexited⟩
  · exact Awaited.kcSwitch switched live asleep

/-- Nobody falls asleep but the current process, which is registered with what will wake it, and the
processor goes to nobody who sleeps. -/
structure FallsAsleep (s s' : Kernel) : Prop where
  blocked : ∀ p b', s'.heap p = some b' → b'.state = .blocked →
    s.Blocked p ∨ p = s.currentProcess ∧ s'.Awaited p b'
  current : ¬ s.Blocked s.currentProcess → ¬ s'.Blocked s'.currentProcess

theorem Wakeful.fallsAsleep (wakeful : Wakeful s s') : FallsAsleep s s' where
  blocked p b' live asleep := Or.inl (wakeful.blocked p ⟨b', live, asleep⟩)
  current awake := by
    rcases wakeful.current with same | awake'
    · rw [same]
      exact fun asleep => awake (wakeful.blocked _ asleep)
    · exact awake'

/-- Before, nobody falls asleep. -/
theorem FallsAsleep.after (asleep : FallsAsleep t s') (first : Wakeful s t)
    (same : t.currentProcess = s.currentProcess) : FallsAsleep s s' where
  blocked p b' live state := by
    rcases asleep.blocked p b' live state with before | ⟨current, awaited⟩
    · exact Or.inl (first.blocked p before)
    · exact Or.inr ⟨current.trans same, awaited⟩
  current awake := by
    refine asleep.current fun blocked => awake ?_
    rw [← same]
    exact first.blocked _ blocked

/-- The current process is put to sleep, registered, and leaves the processor. -/
theorem FallsAsleep.dispatch (before : ∀ p, t.Blocked p → p = s.currentProcess ∨ s.Blocked p)
    (registered : ∀ b, t.heap s.currentProcess = some b → t.Awaited s.currentProcess b)
    (switched : t.dispatch kc = .ok s') : FallsAsleep s s' where
  blocked p b' live asleep := by
    obtain ⟨wakeful, -⟩ := Wakeful.dispatch switched
    rcases before p (wakeful.blocked p ⟨b', live, asleep⟩) with rfl | earlier
    · obtain ⟨b, there, kept⟩ := Awaited.dispatch switched live asleep
      exact Or.inr ⟨rfl, kept (registered b there)⟩
    · exact Or.inl earlier
  current _ := (Wakeful.dispatch switched).2

theorem blocked_modifyPcb {f : PCB → PCB} (h : s.modifyPcb q f = .ok t) (asleep : t.Blocked p) :
    p = q ∨ s.Blocked p := by
  obtain ⟨b, -, rfl⟩ := modifyPcb_eq_ok.mp h
  exact (blocked_setPcb asleep).imp_left And.left

/-- A call that comes back puts nobody to sleep. -/
structure Sleeps (s : Kernel) (result : Option Int × Kernel) : Prop where
  waits : result.1 = none → FallsAsleep s result.2
  returns : ∀ rc, result.1 = some rc → Wakeful s result.2

theorem Sleeps.of_none (asleep : FallsAsleep s s') : Sleeps s (none, s') where
  waits _ := asleep
  returns _ absent := by cases absent

theorem Sleeps.of_some {rc : Int} (wakeful : Wakeful s s') : Sleeps s (some rc, s') where
  waits absent := by cases absent
  returns _ _ := wakeful

/-- Before the call, nobody falls asleep. -/
theorem Sleeps.after {result : Option Int × Kernel} (called : Sleeps t result)
    (first : Wakeful s t) (same : t.currentProcess = s.currentProcess) : Sleeps s result where
  waits none := (called.waits none).after first same
  returns rc some := first.trans (called.returns rc some)

/-- What is left of a call. -/
theorem Sleeps.finish {result : Option Int × Kernel} {done : Int → Kernel → Except Stop Kernel}
    (called : Sleeps s result)
    (last : ∀ rc, result.1 = some rc → done rc result.2 = .ok s' → Wakeful result.2 s')
    (h : finish result done = .ok s') : FallsAsleep s s' := by
  rcases result with ⟨_ | rc, t⟩
  · cases h
    exact called.waits rfl
  · exact ((called.returns rc rfl).trans (last rc rfl h)).fallsAsleep

/-! ### The calls that block -/

theorem saveContext_current (h : s.saveContext = .ok t) : t.currentProcess = s.currentProcess :=
  congrArg Sched.current (sched_saveContext h)

/-- A delay that ends is registered with the clock. -/
theorem delay_sleeps {ticks : Int} {result : Option Int × Kernel}
    (memory : ∀ k, env.mallocOk k = true) (ends : ticks ≠ -1)
    (h : s.delay env ticks = .ok result) : Sleeps s result := by
  unfold delay at h
  split at h
  · cases h
    exact .of_some (.refl s)
  · rename_i nonzero
    split at h
    · cases h
      exact .of_some (.refl s)
    · rename_i above
      simp only [bind_eq_ok, pure_eq_ok] at h
      obtain ⟨t, marked, u, switched, rfl⟩ := h
      refine .of_none (.dispatch (fun p asleep => ?_) (fun b live => ?_) switched)
      · exact blocked_modifyPcb marked ((Wakeful.queueEnqueue env t _ _).blocked p asleep)
      · obtain ⟨d, -, rfl⟩ := modifyPcb_eq_ok.mp marked
        simp only [queueEnqueue_heap, setPcb_heap, Function.update_self, Option.some.injEq] at live
        subst live
        refine Or.inl ⟨?_, ?_⟩
        · simp [queueEnqueue_queues, memory]
        · change 0 < ticks
          omega

theorem trapDelay_asleep (memory : ∀ k, env.mallocOk k = true) (ends : s.ctx.intReg 0 ≠ -1)
    (h : s.trapDelay env = .ok s') : FallsAsleep s s' := by
  simp only [trapDelay, bind_eq_ok] at h
  obtain ⟨t, saved, result, called, h⟩ := h
  refine ((delay_sleeps memory ends called).after (.saveContext saved)
    (saveContext_current saved)).finish (fun rc _ returned => ?_) h
  split at returned
  · cases returned
  · exact .returnToUser returned

/-- A reader that blocks is registered with its terminal. -/
theorem ttyReadValid_sleeps {tty : TtyId} {buf : Word} {len : Nat} {result : Option Int × Kernel}
    (memory : ∀ k, env.mallocOk k = true) (h : s.ttyReadValid env tty buf len = .ok result) :
    Sleeps s result := by
  rcases ttyReadValid_eq_ok h with
    ⟨-, -, rfl⟩ | ⟨-, -, n, b, -, live, rfl⟩ | ⟨-, t, u, parked, switched, rfl⟩
  · exact .of_some (.of_heap rfl rfl)
  · exact .of_some (.update live rfl rfl id)
  · refine .of_none (.dispatch (fun p asleep => ?_) (fun b live => ?_) switched)
    · refine (blocked_modifyPcb parked asleep).imp_right fun before => ?_
      have logged : Wakeful s
          (s.log (.ttyReadBlocked s.currentProcess tty (env.mallocOk s.mallocCalls))) :=
        .of_heap rfl rfl
      exact ((logged.trans (.queueEnqueue env _ _ _)).trans (.queueEnqueue env _ _ _)).blocked p
        before
    · obtain ⟨d, -, rfl⟩ := modifyPcb_eq_ok.mp parked
      refine Or.inr (Or.inl ⟨tty, Or.inl ?_⟩)
      simp [queueEnqueue_queues, memory]

theorem trapTtyRead_asleep (memory : ∀ k, env.mallocOk k = true)
    (h : s.trapTtyRead env = .ok s') : FallsAsleep s s' := by
  unfold trapTtyRead at h
  simp only at h
  split at h
  · simp only [bind_eq_ok] at h
    obtain ⟨t, saved, result, called, h⟩ := h
    have sleeps : Sleeps t result := by
      unfold ttyRead at called
      split at called
      · cases called
        exact .of_some (.refl t)
      · exact ttyReadValid_sleeps memory called
    refine (sleeps.after (.saveContext saved) (saveContext_current saved)).finish
      (fun rc _ returned => ?_) h
    split at returned
    · exact .unpackRead returned
    · exact .returnToUser returned
  · cases h
    refine Wakeful.fallsAsleep ?_
    exact .of_heap rfl rfl

/-- A writer with its terminal blocks as the one that the terminal writes for. -/
theorem ttyWriteLocked_sleeps {tty : TtyId} {buf : Word} {len : Nat}
    {result : Option Int × Kernel} (memory : ∀ k, env.mallocOk k = true)
    (h : s.ttyWriteLocked env tty buf len = .ok result) : Sleeps s result := by
  obtain ⟨d, live, ⟨failed, -⟩ | ⟨failed, -⟩ | ⟨-, bytes, u, -, switched, rfl⟩⟩ :=
    ttyWriteLocked_eq_ok h
  · rw [memory] at failed
    cases failed
  · rw [memory] at failed
    cases failed
  · refine .of_none (.dispatch (fun p asleep => ?_) (fun b there => ?_) switched)
    · rw [beginWrite] at asleep
      rcases blocked_setPcb ((Wakeful.queueEnqueue env _ _ _).blocked p asleep) with
        ⟨here, -⟩ | before
      · exact Or.inl here
      · exact Or.inr before
    · refine Or.inr (Or.inl ⟨tty, Or.inr (Or.inr ?_)⟩)
      simp [beginWrite]

/-- A writer that finds its terminal in use is registered with it. -/
theorem ttyWriteValid_sleeps {tty : TtyId} {buf : Word} {len : Nat}
    {result : Option Int × Kernel} (memory : ∀ k, env.mallocOk k = true)
    (h : s.ttyWriteValid env tty buf len = .ok result) : Sleeps s result := by
  have logged : Wakeful s
      (s.log (.ttyWriteCalled s.currentProcess tty (s.userBytes s.currentProcess buf len))) :=
    .of_heap rfl rfl
  unfold ttyWriteValid at h
  simp only at h
  split at h
  · simp only [bind_eq_ok, pure_eq_ok] at h
    obtain ⟨t, marked, u, switched, rfl⟩ := h
    refine .of_none (.dispatch (fun p asleep => ?_) (fun b live => ?_) switched)
    · refine (blocked_modifyPcb marked
        ((Wakeful.queueEnqueue env t _ _).blocked p asleep)).imp_right fun before => ?_
      exact (logged.trans (.queueEnqueue env _ _ _)).blocked p before
    · obtain ⟨d, -, rfl⟩ := modifyPcb_eq_ok.mp marked
      refine Or.inr (Or.inl ⟨tty, Or.inr (Or.inl ?_)⟩)
      simp [queueEnqueue_queues, memory]
  · exact (ttyWriteLocked_sleeps memory h).after logged rfl

theorem trapTtyWrite_asleep (memory : ∀ k, env.mallocOk k = true)
    (h : s.trapTtyWrite env = .ok s') : FallsAsleep s s' := by
  unfold trapTtyWrite at h
  simp only at h
  split at h
  · simp only [bind_eq_ok] at h
    obtain ⟨t, saved, result, called, h⟩ := h
    have sleeps : Sleeps t result := by
      unfold ttyWrite at called
      split at called
      · cases called
        exact .of_some (.refl t)
      · exact ttyWriteValid_sleeps memory called
    exact (sleeps.after (.saveContext saved) (saveContext_current saved)).finish
      (fun rc _ returned => .finishTtyWrite returned) h
  · cases h
    refine Wakeful.fallsAsleep ?_
    exact .of_heap rfl rfl

/-- A process that has children and no zombie among them has a child that has not exited. -/
theorem childLeft_of_waits (nursery : Sched.Nursery env s.sched)
    (children : s.queues (.children s.currentProcess) ≠ []) {d : Proc}
    (live : s.sched.procs s.sched.current = some d) (none : s.sched.NoZombieChild d.pid) :
    s.ChildLeft s.currentProcess := by
  obtain ⟨c, member⟩ := List.exists_mem_of_ne_nil _ children
  refine childLeft_iff.mpr ⟨c, member, fun exited => ?_⟩
  obtain ⟨e, found, ppid⟩ := nursery.siblings.children s.currentProcess c member
  have zombie := nursery.zombies c e exited found
  have pid := nursery.family.pids s.sched.current d live
  exact none c zombie e found (ppid.trans pid.symm)

/-- A process that waits has a child that has not exited. -/
theorem wait_sleeps {statusPtr : Word} {result : Option Int × Kernel}
    (nursery : Sched.Nursery env s.sched) (h : s.wait statusPtr = .ok result) :
    Sleeps s result := by
  simp only [wait] at h
  by_cases childless : s.isEmpty (.children s.currentProcess) = true
  · rw [if_pos childless] at h
    cases h
    exact .of_some (.refl s)
  · rw [if_neg childless, bind_eq_ok] at h
    obtain ⟨⟨found, t⟩, scanned, h⟩ := h
    rcases found with _ | pid
    · simp only [bind_eq_ok, pure_eq_ok] at h
      obtain ⟨u, marked, v, switched, rfl⟩ := h
      rcases waitScan_sched scanned with ⟨z, _, _, -, -, -, -, -, returned, -⟩ |
        ⟨unchanged, d, live, none⟩
      · cases returned
      · obtain rfl : t = s := (Prod.mk.inj unchanged).2
        have left := childLeft_of_waits nursery (by simpa [isEmpty] using childless) live none
        refine .of_none (.dispatch (fun p => blocked_modifyPcb marked) (fun b there => ?_) switched)
        obtain ⟨e, -, rfl⟩ := modifyPcb_eq_ok.mp marked
        simp only [setPcb_heap, Function.update_self, Option.some.injEq] at there
        subst there
        exact Or.inr (Or.inr ⟨rfl, left⟩)
    · cases h
      exact .of_some (Wakeful.waitScan scanned)

theorem trapWait_asleep (nursery : Sched.Nursery env s.sched) (h : s.trapWait = .ok s') :
    FallsAsleep s s' := by
  simp only [trapWait, bind_eq_ok] at h
  obtain ⟨t, saved, result, waited, h⟩ := h
  have nursery' : Sched.Nursery env t.sched := by
    rw [sched_saveContext saved]
    exact nursery
  have sleeps := (wait_sleeps nursery' waited).after (.saveContext saved)
    (saveContext_current saved)
  exact sleeps.finish (fun rc _ returned => .finishWait returned) h

/-! ### Steps -/

theorem kernelTrapHandler_asleep {req : LoadRequest} (memory : ∀ k, env.mallocOk k = true)
    (nursery : Sched.Nursery env s.sched) (ends : s.ctx.code = yalnixDelay → s.ctx.intReg 0 ≠ -1)
    (h : s.kernelTrapHandler env req = .ok s') : FallsAsleep s s' := by
  cases kernelTrapHandler_eq_ok h with
  | delay code ran => exact trapDelay_asleep memory (ends code) ran
  | brk _ ran =>
      simp only [trapBrk, bind_eq_ok] at ran
      obtain ⟨t, saved, ⟨status, u⟩, moved, ran⟩ := ran
      split at ran
      · cases ran
      · exact (((Wakeful.saveContext saved).trans (.brk moved)).trans
          (.returnToUser ran)).fallsAsleep
  | fork _ ran =>
      simp only [trapFork, bind_eq_ok] at ran
      obtain ⟨t, saved, ⟨status, u⟩, forked, ran⟩ := ran
      have other : t.currentProcess ≠ t.nextPcb := by
        obtain ⟨d, live, rfl⟩ := saveContext_eq_ok.mp saved
        exact Nat.ne_of_lt (nursery.registered.known (procs_of_heap live))
      rcases fork_status forked with rfl | rfl
      · simp only [reduceCtorEq, if_false] at ran
        exact (((Wakeful.saveContext saved).trans (.fork other forked)).trans
          (.restoreContext ran)).fallsAsleep
      · cases ran
  | getPid _ ran =>
      simp only [trapGetPid, bind_eq_ok] at ran
      obtain ⟨t, saved, pid, -, ran⟩ := ran
      split at ran
      · cases ran
      · exact ((Wakeful.saveContext saved).trans (.returnToUser ran)).fallsAsleep
  | wait _ ran => exact trapWait_asleep nursery ran
  | exit _ ran => exact (Wakeful.exit ran).fallsAsleep
  | exec _ ran =>
      simp only [trapExec, bind_eq_ok] at ran
      obtain ⟨t, saved, ⟨rc, u⟩, loaded, ran⟩ := ran
      exact (((Wakeful.saveContext saved).trans (.exec loaded)).trans
        (.returnToUser ran)).fallsAsleep
  | ttyRead _ ran => exact trapTtyRead_asleep memory ran
  | ttyWrite _ ran => exact trapTtyWrite_asleep memory ran
  | unknown _ same =>
      subst same
      exact (Wakeful.refl s').fallsAsleep

/-- A process that comes back from a switch may go on to write, and block. -/
theorem resume_asleep (memory : ∀ k, env.mallocOk k = true) (h : s.resume env = .ok s') :
    FallsAsleep s s' := by
  simp only [resume, bind_eq_ok, deref_eq_ok] at h
  obtain ⟨d, live, h⟩ := h
  cases saved : d.kernelContext with
  | unsaved =>
      rw [saved] at h
      cases h
  | kernelStart | clockTrap =>
      rw [saved] at h
      exact (Wakeful.restoreContext h).fallsAsleep
  | fork child parent =>
      rw [saved] at h
      simp only [bind_eq_ok] at h
      obtain ⟨t, returned, h⟩ := h
      exact ((Wakeful.forkReturn returned).trans (.restoreContext h)).fallsAsleep
  | delay =>
      rw [saved] at h
      exact (Wakeful.returnToUser h).fallsAsleep
  | wait statusPtr =>
      rw [saved] at h
      simp only [bind_eq_ok] at h
      obtain ⟨⟨rc, t⟩, resumed, h⟩ := h
      simp only [waitResumed, bind_eq_ok] at resumed
      obtain ⟨⟨found, u⟩, scanned, resumed⟩ := resumed
      have first : Wakeful s u := .waitScan scanned
      rcases found with _ | pid
      · cases resumed
        exact (first.trans (.finishWait h)).fallsAsleep
      · cases resumed
        exact (first.trans (.finishWait h)).fallsAsleep
  | ttyRead tty buf len =>
      rw [saved] at h
      exact (Wakeful.unpackRead h).fallsAsleep
  | ttyWriteLock tty buf len =>
      rw [saved] at h
      simp only [bind_eq_ok] at h
      obtain ⟨result, locked, h⟩ := h
      exact (ttyWriteLocked_sleeps memory locked).finish
        (fun rc _ returned => .finishTtyWrite returned) h
  | ttyWriteDone tty len =>
      rw [saved] at h
      exact (Wakeful.finishTtyWrite h).fallsAsleep
  | exit frame origin =>
      rw [saved] at h
      refine Wakeful.fallsAsleep ?_
      rcases origin with _ | _ | _
      · cases h
        exact .of_heap rfl rfl
      · cases h
        exact .of_heap rfl rfl
      · cases h

/-- Every step. -/
theorem fallsAsleep_step {i : Input} (memory : ∀ k, env.mallocOk k = true)
    (nursery : Sched.Nursery env s.sched) (ends : DelayEnds i) (step : s.Step env i s') :
    FallsAsleep s s' := by
  have entered (ctx : UserContext) : Wakeful s (s.trap ctx) := .of_heap rfl rfl
  have h := step.2
  cases i with
  | kernelTrap ctx req =>
      have handled := kernelTrapHandler_asleep (s := s.trap ctx) memory nursery ends h
      exact handled.after (entered ctx) rfl
  | clockTrap ctx => exact ((entered ctx).trans (.clockTrapHandler h)).fallsAsleep
  | memoryTrap ctx => exact ((entered ctx).trans (.memoryTrapHandler h)).fallsAsleep
  | mathTrap ctx | illegalTrap ctx => exact ((entered ctx).trans (.exit h)).fallsAsleep
  | ttyReceiveTrap ctx tty data =>
      exact ((entered ctx).trans (.ttyTrapReceiveHandler h)).fallsAsleep
  | ttyTransmitTrap ctx tty =>
      exact ((entered ctx).trans (.ttyTrapTransmitHandler h)).fallsAsleep
  | resume => exact resume_asleep memory h
  | userStore va bytes => exact (Wakeful.storeUser h).fallsAsleep
  | kernelBrk addr =>
      cases h
      refine Wakeful.fallsAsleep ?_
      exact .of_heap rfl rfl

/-! ### Staying registered -/

/-- Nobody who is blocked has the processor, and what will wake them is still to come. -/
structure Sleepers (s : Kernel) : Prop where
  current : ¬ s.Blocked s.currentProcess
  awaited : ∀ p b, s.heap p = some b → b.state = .blocked → s.Awaited p b

/-- Who is registered to be woken is no zombie. -/
theorem Awaited.alive (awaited : s.Awaited p b) (known : Sched.Registered env s.sched)
    (placed : p ≠ s.idleProc → Sched.PlacedAt s.sched p) (live : s.heap p = some b) :
    p ∉ s.queues .zombie := by
  intro zombie
  obtain ⟨once, backed⟩ := placed (known.zombies p zombie).1
  have listed : 0 < (s.queues .zombie).count p := List.count_pos_iff.mpr zombie
  simp only [Sched.places, Sched.standing, sched_queues, procs_of_heap live, Sched.pcbPlace] at once
  simp only [sched_queues] at backed
  rcases awaited with ⟨queued, -⟩ | ⟨tty, registered⟩ | ⟨flag, -⟩
  · have waits := List.count_pos_iff.mpr queued
    omega
  · have waits := pending_pos registered
    omega
  · have flag' : b.proc.waitingForChildPid = 1 := flag
    have place : 1 ≤ b.proc.place := by
      rw [Proc.place, flag', if_neg (by decide)]
      split
      · exact Nat.le_refl 1
      · exact Nat.le_succ 1
    omega

/-- No step takes a terminal over that still writes for a process. -/
theorem Attended.exclusive {i : Input} (attended : s.Attended)
    (unqueued : ∀ tty buf len, s.Inside s.currentProcess (.ttyWriteLock tty buf len) →
      s.currentProcess ∉ s.queues (.writers tty)) (enabled : s.Enabled i) :
    ¬ s.TakesOver p i := by
  have unowned {tty : TtyId} (writer : (s.terminals tty).currentWriter = some p)
      (nobody : s.sched.writer tty = none) : False := by
    have same : (s.terminals tty).currentWriter = none := nobody
    rw [same] at writer
    cases writer
  intro takes
  cases i with
  | kernelTrap ctx req =>
      obtain ⟨-, tty, free, writer⟩ := takes
      exact unowned writer (attended.unowned (p := p) (Or.inl free))
  | resume =>
      obtain ⟨d, tty, buf, len, live, saved, writer⟩ := takes
      have inside : s.Inside s.currentProcess (.ttyWriteLock tty buf len) := by
        refine ⟨fun runs => ?_, d, live, saved⟩
        have inKernel : s.mode = .kernel := enabled
        rw [runs.1] at inKernel
        cases inKernel
      exact unowned writer (attended.unowned (Or.inr ⟨buf, len, unqueued _ _ _ inside, inside⟩))
  | _ => cases takes

/-- The last child of a process that waits does not exit without waking it. -/
theorem childLeft_step {i : Input} (pids : env.PidsDistinct)
    (memory : ∀ k, env.mallocOk k = true) (nursery : Sched.Nursery env s.sched)
    (knows : s.ParentsKnown) (taken : Guarded (Step env) ExitsWritten s i s')
    (apart : p ≠ s.currentProcess) (live : s.heap p = some b) (live' : s'.heap p = some b')
    (waits : b'.waitingForChildPid = 1) (left : s.ChildLeft p) : s'.ChildLeft p := by
  obtain ⟨c, member, unexited⟩ := childLeft_iff.mp left
  have unexited' : ¬ s'.sched.Exited c := by
    intro exited
    rcases exited_before pids memory nursery taken exited with before | ⟨rfl, calls⟩
    · exact unexited before
    · -- the child that exits knows its parent and clears its flag
      have user : s.mode = .user := (calls.enabled taken.2.1).1
      have fathered : s.sched.Fathered p s.currentProcess := by
        rcases knows p s.currentProcess member with fathered | ⟨child, inside⟩
        · exact fathered
        · exact absurd ⟨user, rfl⟩ inside.away
      have clear := exit_clears_flag calls fathered apart taken.2 live'
      rw [clear] at waits
      cases waits
  have kin := kinship_step pids memory nursery taken
  have created : p < s.sched.nextPcb := nursery.registered.known (procs_of_heap live)
  obtain ⟨-, member' | exited | gone⟩ := kin.outstanding p c ⟨created, Or.inl member⟩
  · exact childLeft_iff.mpr ⟨c, member', unexited'⟩
  · exact absurd exited unexited'
  · rw [procs_of_heap live'] at gone
    cases gone

theorem Sleepers.step {i : Input} (sleepers : s.Sleepers) (pids : env.PidsDistinct)
    (memory : ∀ k, env.mallocOk k = true) (nursery : Sched.Nursery env s.sched)
    (knows : s.ParentsKnown) (attended : s.Attended) (idle : s.IdleCalm)
    (placed : ∀ p, p ≠ s.idleProc → Sched.PlacedAt s.sched p)
    (taken : Guarded (Step env) Awaitable s i s') : s'.Sleepers := by
  obtain ⟨guard, step⟩ := taken
  have known := nursery.registered
  have falls := fallsAsleep_step memory nursery guard.delay step
  refine ⟨falls.current sleepers.current, fun p b' live' asleep => ?_⟩
  rcases falls.blocked p b' live' asleep with blocked | ⟨-, awaited⟩
  · obtain ⟨b, live, slept⟩ := blocked
    have apart : p ≠ s.currentProcess := by
      rintro rfl
      exact sleepers.current ⟨b, live, slept⟩
    have awaited := sleepers.awaited p b live slept
    have alive := awaited.alive known (placed p) live
    have bystander := bystander_step (fresh_of_registered known) (Ne.symm apart) alive step
    obtain ⟨c, found, -, still⟩ := bystander.pcb b live
    obtain rfl : c = b' := Option.some.inj (found.symm.trans live')
    have still := still asleep
    have exclusive := attended.exclusive (p := p)
      (fun _ _ _ inside => unqueued_locked known idle inside) step.1
    refine awaited.carry still.queued (still.writing exclusive) still.delay fun flag left => ?_
    have waits := still.flag.trans flag
    exact ⟨waits, childLeft_step pids memory nursery knows ⟨guard.exits, step⟩ apart live live'
      waits left⟩
  · exact awaited

theorem sleepers_reaches (pids : env.PidsDistinct) (idlePid : env.helperNewPid 0 = 0)
    (memory : ∀ k, env.mallocOk k = true) (started : kernelStart env cfg = .ok boot)
    (run : Reaches (Guarded (Step env) fun s i => s.Awaitable i ∧ s.TransmitOwed i) boot s) :
    s.Sleepers := by
  induction run with
  | refl =>
      exact ⟨nobody_blocked_boot started,
        fun p b live asleep => absurd ⟨b, live, asleep⟩ (nobody_blocked_boot started)⟩
  | @tail u v before last inductionHypothesis =>
      obtain ⟨i, ⟨guard, owed⟩, step⟩ := last
      have written : Reaches (Guarded (Step env) ExitsWritten) boot u :=
        Reaches.mono (fun _ _ _ taken => ⟨taken.1.1.exits, taken.2⟩) before
      have answered : Reaches (Guarded (Step env) fun s i => s.ExitsWritten i ∧ s.TransmitOwed i)
          boot u := Reaches.mono (fun _ _ _ taken => ⟨⟨taken.1.1.exits, taken.1.2⟩, taken.2⟩) before
      obtain ⟨nursery, knows⟩ := nursery_reaches pids memory started written
      exact inductionHypothesis.step pids memory nursery knows
        (attended_reaches pids.injective idlePid memory started answered)
        (idleCalm_reaches pids.injective started written)
        (fun p => placed_reaches pids.injective memory started written) ⟨guard, step⟩

/-- Every blocked process waits for something that is still to come and will find it; and `Delay`
refuses the negative numbers, but for -1. -/
theorem blocked_awaited (pids : env.PidsDistinct) (idlePid : env.helperNewPid 0 = 0)
    (memory : ∀ k, env.mallocOk k = true) (started : kernelStart env cfg = .ok boot)
    (run : Reaches (Guarded (Step env) fun s i => s.Awaitable i ∧ s.TransmitOwed i) boot s) :
    (∀ p b, s.heap p = some b → b.state = .blocked → s.Awaited p b) ∧
      ∀ ticks < 0, s.delay env ticks = .ok (some Status.error.code, s) ↔ ticks ≠ -1 := by
  refine ⟨(sleepers_reaches pids idlePid memory started run).awaited, fun ticks negative => ?_⟩
  constructor
  · rintro refused rfl
    cases delay_blocks (by decide) (by decide) refused
  · exact fun other => delay_refused (by omega)

/-- Init waits for its child, which delays. -/
theorem blocked_awaited_sample : ∃ (s : Kernel) (b c : PCB), s.heap 1 = some b ∧
    s.heap 2 = some c ∧ b.state = .blocked ∧ c.state = .blocked ∧ s.Awaited 1 b ∧
      s.Awaited 2 c := by
  have answer : runs sampleEnv sampleBoot
      (fun s i => i.among [yalnixFork, yalnixDelay, yalnixWait] &&
        decide (DelayEnds i ∧ s.TransmitOwed i))
      [.tick, .resume, .call yalnixFork 0 0 0, .call yalnixWait 0 0 0, .resume,
        .call yalnixDelay 2 0 0]
      (fun s => (s.heap 1).any (fun b => decide (b.state = .blocked)) &&
        (s.heap 2).any fun c => decide (c.state = .blocked)) = .ok true := by
    decide +kernel
  obtain ⟨boot, s, started, run, known⟩ := runs_sound
    (fun s i => s.Awaitable i ∧ s.TransmitOwed i)
    (fun s i checked => by
      obtain ⟨among, both⟩ := Bool.and_eq_true_iff.mp checked
      obtain ⟨ends, owed⟩ := of_decide_eq_true both
      exact ⟨⟨exitsWritten_of_among (by decide) among, ends⟩, owed⟩) answer
  obtain ⟨first, second⟩ := Bool.and_eq_true_iff.mp known
  obtain ⟨b, live, waits⟩ := (Option.any_eq_true _ _).mp first
  obtain ⟨c, live', delays⟩ := (Option.any_eq_true _ _).mp second
  have waits := of_decide_eq_true waits
  have delays := of_decide_eq_true delays
  obtain ⟨awaited, -⟩ :=
    blocked_awaited sampleEnv_pids rfl (fun _ => rfl) started run
  exact ⟨s, b, c, live, live', waits, delays, awaited 1 b live waits, awaited 2 c live' delays⟩

/-- A process that delays for -1 ticks is counted down by nobody. -/
theorem blocked_unawaited : ¬ ∀ env cfg boot s, env.PidsDistinct → env.helperNewPid 0 = 0 →
    (∀ k, env.mallocOk k = true) → kernelStart env cfg = .ok boot →
    Reaches (Guarded (Step env) fun s i => i.among [yalnixFork, yalnixExit, yalnixWait,
      yalnixDelay, yalnixTtyRead, yalnixTtyWrite] = true ∧ s.TransmitOwed i) boot s →
    ∀ p b, s.heap p = some b → b.state = .blocked → s.Awaited p b := by
  intro all
  have answer : runs sampleEnv sampleBoot
      (fun s i => i.among [yalnixFork, yalnixExit, yalnixWait, yalnixDelay, yalnixTtyRead,
        yalnixTtyWrite] && decide (s.TransmitOwed i))
      [.tick, .resume, .call yalnixDelay 0xffffffff 0 0]
      (fun s => (s.heap 1).any (fun b => decide (b.state = .blocked ∧ b.delayTicks = -1 ∧
        b.waitingForChildPid ≠ 1)) && decide (∀ tty, 1 ∉ s.queues (.readers tty) ∧
          1 ∉ s.queues (.writers tty) ∧ (s.terminals tty).currentWriter ≠ some 1)) =
      .ok true := by
    decide +kernel
  obtain ⟨boot, s, started, run, known⟩ := runs_sound
    (fun s i => i.among [yalnixFork, yalnixExit, yalnixWait, yalnixDelay, yalnixTtyRead,
      yalnixTtyWrite] = true ∧ s.TransmitOwed i)
    (fun s i checked => by
      obtain ⟨among, owed⟩ := Bool.and_eq_true_iff.mp checked
      exact ⟨among, of_decide_eq_true owed⟩) answer
  obtain ⟨delays, apart⟩ := Bool.and_eq_true_iff.mp known
  obtain ⟨b, live, delays⟩ := (Option.any_eq_true _ _).mp delays
  obtain ⟨blocked, ticks, flag⟩ := of_decide_eq_true delays
  have apart := of_decide_eq_true apart
  rcases all _ _ boot s sampleEnv_pids rfl (fun _ => rfl) started run 1 b live blocked with
    ⟨-, counts⟩ | ⟨tty, registered⟩ | ⟨waits, -⟩
  · rw [ticks] at counts
    exact absurd counts (by decide)
  · obtain ⟨reads, writes, owns⟩ := apart tty
    exact registered.elim reads fun other => other.elim writes owns
  · exact flag waits

end Yalnix.Kernel
