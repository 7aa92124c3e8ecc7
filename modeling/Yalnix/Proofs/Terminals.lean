/-
Module: Yalnix.Proofs.Terminals
Purpose: Which steps concern the terminals: every other step leaves them, their queues and the
  events about them alone.
Trusted boundary: none
Main exports: Kernel.TtyFrame, Kernel.AtTerminals, ttyFrame_step
-/
import Yalnix.Proofs.Bystander

namespace Yalnix

/-- The events about terminal data. -/
def Event.isTty (e : Event) : Bool := !e.isFamily

/-- The queues of the terminals. -/
def QueueId.isTty : QueueId → Bool
  | .readers _ | .writers _ => true
  | .ready | .blocked | .zombie | .children _ => false

namespace Kernel

variable {env : Env} {p q : PcbPtr} {s s' t u : Kernel} {b : PCB}

/-- The events about terminal data, oldest first. -/
def ttyHistory (s : Kernel) : List Event := s.history.filter Event.isTty

/-- Nothing happens at the terminals. -/
structure TtyFrame (s s' : Kernel) : Prop where
  terminals : s'.terminals = s.terminals
  queues : ∀ queue, queue.isTty = true → s'.queues queue = s.queues queue
  history : s'.ttyHistory = s.ttyHistory

namespace TtyFrame

theorem refl (s : Kernel) : TtyFrame s s := ⟨rfl, fun _ _ => rfl, rfl⟩

theorem trans (first : TtyFrame s t) (second : TtyFrame t u) : TtyFrame s u where
  terminals := second.terminals.trans first.terminals
  queues queue isTty := (second.queues queue isTty).trans (first.queues queue isTty)
  history := second.history.trans first.history

/-- Neither the terminals, nor a queue, nor the events change. -/
theorem of_same (terminals : s'.terminals = s.terminals) (queues : s'.queues = s.queues)
    (history : s'.history = s.history) : TtyFrame s s' :=
  ⟨terminals, fun _ _ => congrFun queues _, congrArg (List.filter Event.isTty) history⟩

theorem setPcb : TtyFrame s (s.setPcb q b) := of_same rfl rfl rfl

theorem modifyPcb {f : PCB → PCB} (h : s.modifyPcb q f = .ok s') : TtyFrame s s' := by
  obtain ⟨b, -, rfl⟩ := modifyPcb_eq_ok.mp h
  exact setPcb

theorem setMem {m : Memory} : TtyFrame s (s.setMem m) := of_same rfl rfl rfl

theorem log (e : Event) (family : e.isFamily = true) : TtyFrame s (s.log e) where
  terminals := rfl
  queues _ _ := rfl
  history := by
    have silent : Event.isTty e = false := by
      rw [Event.isTty, family]
      rfl
    rw [ttyHistory, log_history, List.filter_append, List.filter_singleton, silent]
    exact List.append_nil _

theorem setQueue (queue : QueueId) (entries : List PcbPtr) (other : queue.isTty = false) :
    TtyFrame s (s.setQueue queue entries) where
  terminals := rfl
  queues tty isTty := by
    rw [setQueue_queues, Function.update_of_ne]
    rintro rfl
    rw [other] at isTty
    cases isTty
  history := rfl

theorem enqueue (env : Env) (queue : QueueId) (q : PcbPtr) (other : queue.isTty = false) :
    TtyFrame s (s.queueEnqueue env queue q) := by
  have counted : TtyFrame s { s with mallocCalls := s.mallocCalls + 1 } := of_same rfl rfl rfl
  have entered : s.queueEnqueue env queue q =
      Kernel.setQueue { s with mallocCalls := s.mallocCalls + 1 } queue
        (if env.mallocOk s.mallocCalls then s.queues queue ++ [q] else s.queues queue) :=
    queueEnqueue_eq queue q
  rw [entered]
  exact counted.trans (setQueue queue _ other)

theorem remove (queue : QueueId) (q : PcbPtr) (other : queue.isTty = false) :
    TtyFrame s (s.queueRemove queue q) := setQueue queue _ other

theorem kcSwitch {kc : KernelContext} {curr next : PcbPtr} (h : s.kcSwitch kc curr next = .ok s') :
    TtyFrame s s' := by
  obtain ⟨c, n, kstack, -, -, -, rfl⟩ := kcSwitch_eq_ok h
  exact of_same rfl rfl rfl

theorem dispatch {kc : KernelContext} (h : s.dispatch kc = .ok s') : TtyFrame s s' := by
  rcases dispatch_eq_ok h with ⟨next, rest, -, switched⟩ | ⟨-, switched⟩
  · have popped : TtyFrame s (s.setQueue .ready rest) := setQueue _ _ rfl
    exact popped.trans (kcSwitch switched)
  · exact kcSwitch switched

theorem saveContext (h : s.saveContext = .ok s') : TtyFrame s s' := modifyPcb h

theorem restoreContext (h : s.restoreContext = .ok s') : TtyFrame s s' := by
  obtain ⟨b, -, rfl⟩ := restoreContext_eq_ok.mp h
  exact of_same rfl rfl rfl

theorem returnToUser {rc : Int} (h : s.returnToUser rc = .ok s') : TtyFrame s s' := by
  obtain ⟨b, -, rfl⟩ := returnToUser_eq_ok.mp h
  exact of_same rfl rfl rfl

theorem storeUser {va : Word} {bytes : List Byte} (h : s.storeUser va bytes = .ok s') :
    TtyFrame s s' := by
  obtain ⟨b, m, -, -, rfl⟩ := storeUser_eq_ok.mp h
  exact setMem

/-! ### The clock -/

theorem trapHandlerHelper (h : s.trapHandlerHelper env q = .ok s') : TtyFrame s s' := by
  obtain ⟨b, -, ⟨-, rfl⟩ | ⟨-, rfl⟩ | ⟨-, rfl⟩⟩ := trapHandlerHelper_eq_ok h
  · exact refl _
  · exact setPcb
  · exact (setPcb.trans (remove .blocked q rfl)).trans (enqueue env .ready q rfl)

theorem iterateBlocked {blocked : List PcbPtr} (h : iterateBlocked env blocked s = .ok s') :
    TtyFrame s s' := by
  induction blocked generalizing s with
  | nil =>
      cases h
      exact refl _
  | cons process rest inductionHypothesis =>
      simp only [Kernel.iterateBlocked, bind_eq_ok] at h
      obtain ⟨t, visited, h⟩ := h
      exact (trapHandlerHelper visited).trans (inductionHypothesis h)

theorem clockTrapHandler (h : s.clockTrapHandler env = .ok s') : TtyFrame s s' := by
  obtain ⟨t, u, saved, iterated, tail⟩ := clockTrapHandler_eq_ok h
  have first := (saveContext saved).trans (iterateBlocked iterated)
  rcases tail with ⟨-, restored⟩ | ⟨next, rest, c, -, -, tail⟩
  · exact first.trans (restoreContext restored)
  · have popped : TtyFrame u (u.setQueue .ready rest) := setQueue _ _ rfl
    rcases tail with ⟨-, -, v, readied, switched⟩ | ⟨-, switched⟩
    · have requeued := (modifyPcb readied).trans (enqueue env .ready s.currentProcess rfl)
      exact ((first.trans popped).trans requeued).trans (kcSwitch switched)
    · exact (first.trans popped).trans (kcSwitch switched)

/-! ### Exit, Wait and Fork -/

theorem wakeParent {parent : Option PcbPtr} (h : s.wakeParent env parent = .ok s') :
    TtyFrame s s' := by
  rcases parent with _ | q
  · cases h
    exact refl _
  · simp only [Kernel.wakeParent, bind_eq_ok] at h
    obtain ⟨b, -, h⟩ := h
    by_cases flag : b.waitingForChildPid ≠ 0
    · rw [if_pos flag] at h
      simp only [bind_eq_ok, pure_eq_ok] at h
      obtain ⟨t, readied, rfl⟩ := h
      exact (modifyPcb readied).trans (enqueue env .ready q rfl)
    · rw [if_neg flag] at h
      cases h
      exact refl _

theorem exit {status : Int} {origin : ExitOrigin} (h : s.exit env status origin = .ok s') :
    TtyFrame s s' := by
  simp only [Kernel.exit, bind_eq_ok] at h
  obtain ⟨b, -, h⟩ := h
  by_cases init : b.pid = 1
  · rw [if_pos init] at h
    obtain ⟨-, -, stopped⟩ := bind_eq_ok.mp h
    cases stopped
  · rw [if_neg init] at h
    simp only [bind_eq_ok] at h
    obtain ⟨t, zombie, u, woken, switched⟩ := h
    have kept : TtyFrame s (s.queueEnqueue env .zombie s.currentProcess) :=
      enqueue env .zombie s.currentProcess rfl
    have marked := (kept.trans (modifyPcb zombie)).trans 
      (log (.exited s.currentProcess status) rfl)
    exact (marked.trans (wakeParent woken)).trans (dispatch switched)

theorem orphanChildren {children : List PcbPtr} (h : orphanChildren children s = .ok s') :
    TtyFrame s s' := by
  induction children generalizing s with
  | nil =>
      cases h
      exact refl _
  | cons child rest inductionHypothesis =>
      simp only [Kernel.orphanChildren, bind_eq_ok] at h
      obtain ⟨t, orphaned, h⟩ := h
      exact (modifyPcb orphaned).trans (inductionHypothesis h)

theorem deletePCB (h : s.deletePCB q = .ok s') : TtyFrame s s' := by
  simp only [Kernel.deletePCB, bind_eq_ok, pure_eq_ok] at h
  obtain ⟨-, -, t, orphaned, rfl⟩ := h
  have emptied : TtyFrame t (t.setQueue (.children q) []) := setQueue _ _ rfl
  exact ((orphanChildren orphaned).trans emptied).trans (of_same rfl rfl rfl)

theorem waitScan {statusPtr : Word} {result : Option Int × Kernel}
    (h : s.waitScan statusPtr = .ok result) : TtyFrame s result.2 := by
  simp only [Kernel.waitScan, bind_eq_ok] at h
  obtain ⟨c, -, found, -, h⟩ := h
  rcases found with _ | z
  · cases h
    exact refl _
  · simp only [bind_eq_ok, pure_eq_ok] at h
    obtain ⟨⟨pid, t⟩, reaped, rfl⟩ := h
    obtain ⟨b, u, -, -, stored, deleted⟩ := reap_eq_ok reaped
    have written : TtyFrame s u := by
      rcases stored with ⟨-, stored⟩ | ⟨-, rfl⟩
      · exact storeUser stored
      · exact refl _
    exact ((written.trans (remove (.children u.currentProcess) z rfl)).trans
      (remove .zombie z rfl)).trans (deletePCB deleted)

theorem finishWait {statusPtr : Word} {rc : Int} (h : s.finishWait statusPtr rc = .ok s') :
    TtyFrame s s' :=
  (log (.waitReturned s.currentProcess statusPtr rc) rfl).trans (returnToUser h)

theorem wait {statusPtr : Word} {result : Option Int × Kernel} (h : s.wait statusPtr = .ok result) :
    TtyFrame s result.2 := by
  simp only [Kernel.wait] at h
  by_cases childless : s.isEmpty (.children s.currentProcess) = true
  · rw [if_pos childless] at h
    cases h
    exact refl _
  · rw [if_neg childless, bind_eq_ok] at h
    obtain ⟨⟨found, t⟩, scanned, h⟩ := h
    have first : TtyFrame s t := waitScan scanned
    rcases found with _ | pid
    · simp only [bind_eq_ok, pure_eq_ok] at h
      obtain ⟨u, blocked, v, switched, rfl⟩ := h
      exact (first.trans (modifyPcb blocked)).trans (dispatch switched)
    · cases h
      exact first

theorem fork (started : s.currentProcess ≠ s.nextPcb) (h : s.fork env = .ok (.success, s')) :
    TtyFrame s s' := by
  obtain ⟨i, b, m, pt, m', pages, current, -, -, -, -, -, rfl⟩ := fork_eq_ok started h
  have allocated : TtyFrame s { s with
      mallocCalls := s.mallocCalls + 4
      nextPcb := s.nextPcb + 1
      procTable := Function.update s.procTable i (some s.nextPcb)
      pidCalls := s.pidCalls + 1
      mem := copyKernelStack current pages m' } := of_same rfl rfl rfl
  have created := (allocated.trans
    (setPcb (q := s.nextPcb) (b := forkedPcb env s b pt pages))).trans
    (setQueue (.children s.nextPcb) [] rfl)
  have entered := (created.trans (enqueue env .ready s.nextPcb rfl)).trans
    (enqueue env (.children s.currentProcess) s.nextPcb rfl)
  have recorded := entered.trans
    (log (.forked s.currentProcess s.nextPcb (env.helperNewPid s.pidCalls)) rfl)
  exact recorded.trans setPcb

theorem forkReturn {child parent : PcbPtr} (h : s.forkReturn env child parent = .ok s') :
    TtyFrame s s' := by
  simp only [Kernel.forkReturn, bind_eq_ok] at h
  obtain ⟨c, -, b, -, h⟩ := h
  by_cases pids : c.pid = b.pid
  · simp only [pids, if_true, bind_eq_ok] at h
    obtain ⟨t, readied, d, -, returned⟩ := h
    have first := ((modifyPcb readied).trans (enqueue env .ready child rfl)).trans
      (enqueue env (.children parent) child rfl)
    exact (first.trans (log (.forked parent child d.pid) rfl)).trans (modifyPcb returned)
  · simp only [pids, if_false] at h
    exact modifyPcb h

/-! ### Memory -/

theorem brk {addr : Word} {status : Status} (h : s.brk env addr = .ok (status, s')) :
    TtyFrame s s' := by
  unfold Kernel.brk at h
  by_cases zero : addr = 0
  · rw [if_pos zero] at h
    cases h
    exact refl _
  · rw [if_neg zero] at h
    simp only [bind_eq_ok] at h
    obtain ⟨c, -, ⟨grown, m, pt⟩, -, h⟩ := h
    by_cases failed : grown = .error
    · simp only [failed, if_true] at h
      cases h
      exact setMem.trans setPcb
    · simp only [failed, if_false, bind_eq_ok, pure_eq_ok] at h
      obtain ⟨⟨vpn, m', pt'⟩, -, h⟩ := h
      cases h
      exact setMem.trans setPcb

theorem growStack {addr : Word} {status : Status} (h : s.growStack addr = .ok (status, s')) :
    TtyFrame s s' := by
  simp only [Kernel.growStack, bind_eq_ok] at h
  obtain ⟨c, -, ⟨grown, m, pt⟩, -, h⟩ := h
  by_cases failed : grown = .kill
  · simp only [failed, if_true] at h
    cases h
    exact setMem.trans setPcb
  · simp only [failed, if_false] at h
    cases h
    exact setMem.trans setPcb

/-! ### Boot -/

theorem getFreePCB {slot : Option PcbPtr} (h : s.getFreePCB env = .ok (slot, s')) :
    TtyFrame s s' := by
  rcases getFreePCB_eq_ok h with ⟨-, rfl⟩ | ⟨i, -, -, rfl⟩
  · exact refl _
  · have counted : TtyFrame s { s with
        mallocCalls := s.mallocCalls + 3
        nextPcb := s.nextPcb + 1
        procTable := Function.update s.procTable i (some s.nextPcb)
        pidCalls := s.pidCalls + 1 } := of_same rfl rfl rfl
    exact (counted.trans setPcb).trans (setQueue _ _ rfl)

theorem initializeKernelStackProcess {kstack : Option PageTable}
    (h : s.initializeKernelStackProcess env = .ok (kstack, s')) : TtyFrame s s' := by
  rcases initializeKernelStackProcess_eq_ok h with ⟨-, rfl⟩ | ⟨m, pages, -, -, rfl⟩
  · exact of_same rfl rfl rfl
  · exact of_same rfl rfl rfl

theorem kcCopy {kc : KernelContext} {new : PcbPtr} (h : s.kcCopy env kc new = .ok s') :
    TtyFrame s s' := by
  simp only [Kernel.kcCopy, bind_eq_ok] at h
  obtain ⟨t, saved, n, -, h⟩ := h
  rcases stack : n.kstack with _ | kstack
  · simp only [stack, bind_eq_ok] at h
    obtain ⟨⟨pages, u⟩, filled, v, stored, ⟨pages', w⟩, paired, c, -, h⟩ := h
    obtain ⟨rfl, rfl⟩ := Prod.mk.inj (pure_eq_ok.mp paired)
    have first := ((modifyPcb saved).trans (initializeKernelStackProcess filled)).trans
      (modifyPcb stored)
    split at h
    · cases h
      exact first.trans setMem
    · cases h
  · simp only [stack, bind_eq_ok] at h
    obtain ⟨⟨pages', w⟩, paired, c, -, h⟩ := h
    obtain ⟨rfl, rfl⟩ := Prod.mk.inj (pure_eq_ok.mp paired)
    split at h
    · cases h
      exact (modifyPcb saved).trans setMem
    · cases h

theorem loadProgram {req : LoadRequest} {argv : ArgVector} {status : Status}
    (h : s.loadProgram env req argv q = .ok (status, s')) : TtyFrame s s' := by
  obtain ⟨b, -, ⟨-, rfl, -⟩ | ⟨li, args, plan, -, -, -, loaded⟩⟩ := loadProgram_eq_ok h
  · exact refl _
  · rcases loaded with ⟨-, -, rfl⟩ | ⟨-, m, b', -, rfl⟩
    · exact of_same rfl rfl rfl
    · exact of_same rfl rfl rfl

theorem createIdlePCB {cfg : BootConfig} (h : s.createIdlePCB env cfg = .ok (q, s')) :
    TtyFrame s s' := by
  simp only [Kernel.createIdlePCB, bind_eq_ok] at h
  obtain ⟨⟨slot, t⟩, found, h⟩ := h
  rcases slot with _ | idle
  · cases h
  · simp only [bind_eq_ok] at h
    obtain ⟨u, mapped, h⟩ := h
    have first : TtyFrame s u := by
      refine (getFreePCB found).trans (TtyFrame.trans ?_ (modifyPcb mapped))
      rcases t.mem.allocFrame .user with _ | ⟨pfn, m⟩
      · exact refl t
      · exact setMem
    by_cases allocated : env.mallocOk u.mallocCalls = true
    · simp only [malloc_fst, allocated, Bool.not_true, Bool.false_eq_true, if_false,
        bind_eq_ok, pure_eq_ok] at h
      obtain ⟨⟨m, kstack⟩, -, v, prepared, h⟩ := h
      obtain ⟨-, rfl⟩ := Prod.mk.inj h
      have counted : TtyFrame u ((u.malloc env).2.setMem m) := of_same rfl rfl rfl
      exact (first.trans counted).trans (modifyPcb prepared)
    · simp only [malloc_fst, allocated] at h
      cases h

theorem createInitPCB {cfg : BootConfig} (h : s.createInitPCB env cfg = .ok (q, s')) :
    TtyFrame s s' := by
  simp only [Kernel.createInitPCB, bind_eq_ok] at h
  obtain ⟨⟨slot, t⟩, found, h⟩ := h
  rcases slot with _ | init
  · cases h
  · simp only [bind_eq_ok] at h
    obtain ⟨⟨kstack, u⟩, stacked, v, prepared, ⟨status, w⟩, loaded, h⟩ := h
    by_cases failed : status ≠ .success
    · rw [if_pos failed] at h
      cases h
    · rw [if_neg failed] at h
      obtain ⟨-, rfl⟩ := Prod.mk.inj (pure_eq_ok.mp h)
      have first := (getFreePCB found).trans (initializeKernelStackProcess stacked)
      have inForce : TtyFrame v { v with ptbr1 := init } := of_same rfl rfl rfl
      exact ((first.trans (modifyPcb prepared)).trans inForce).trans (loadProgram loaded)

/-- Boot leaves the terminals as `InitializeTerminals` made them. -/
theorem kernelStart {cfg : BootConfig} (h : kernelStart env cfg = .ok s) :
    TtyFrame (beforeProcesses cfg) s := by
  simp only [Kernel.kernelStart, bind_eq_ok] at h
  obtain ⟨⟨idle, a⟩, idleMade, b, restored, ⟨init, c⟩, initMade, d, copied, h⟩ := h
  have idled : TtyFrame a { a with idleProc := idle, currentProcess := idle, ptbr1 := idle } :=
    of_same rfl rfl rfl
  have first := ((createIdlePCB idleMade).trans idled).trans (restoreContext restored)
  have back : TtyFrame c { c with ptbr1 := idle } := of_same rfl rfl rfl
  have second := ((first.trans (createInitPCB initMade)).trans back).trans
    (enqueue env .ready init rfl)
  exact (second.trans (kcCopy copied)).trans (restoreContext h)

/-! ### System calls -/

theorem exec {req : LoadRequest} {argv : Word} {rc : Int} (h : s.exec env req argv = .ok (rc, s')) :
    TtyFrame s s' := by
  simp only [Kernel.exec, bind_eq_ok] at h
  obtain ⟨⟨status, t⟩, loaded, h⟩ := h
  by_cases failed : status = .error
  · simp only [failed, if_true] at h
    cases h
    exact loadProgram loaded
  · simp only [failed, if_false] at h
    cases h
    exact loadProgram loaded

theorem kernelTrapHandler {req : LoadRequest} (fresh : s.heap s.nextPcb = none)
    (reads : s.ctx.code ≠ yalnixTtyRead) (writes : s.ctx.code ≠ yalnixTtyWrite)
    (h : s.kernelTrapHandler env req = .ok s') : TtyFrame s s' := by
  cases kernelTrapHandler_eq_ok h with
  | delay _ ran =>
      simp only [trapDelay, bind_eq_ok] at ran
      obtain ⟨t, saved, result, called, ran⟩ := ran
      have first := saveContext saved
      have second : TtyFrame t result.2 := by
        unfold Kernel.delay at called
        split at called
        · cases called
          exact refl _
        · split at called
          · cases called
            exact refl _
          · simp only [bind_eq_ok, pure_eq_ok] at called
            obtain ⟨u, blocked, v, switched, rfl⟩ := called
            exact ((modifyPcb blocked).trans (enqueue env .blocked t.currentProcess rfl)).trans
              (dispatch switched)
      rcases result with ⟨_ | rc, u⟩
      · cases ran
        exact first.trans second
      · simp only [finish] at ran
        split at ran
        · cases ran
        · exact (first.trans second).trans (returnToUser ran)
  | brk _ ran =>
      simp only [trapBrk, bind_eq_ok] at ran
      obtain ⟨t, saved, ⟨status, u⟩, moved, ran⟩ := ran
      by_cases failed : status = .error
      · simp only [failed, if_true] at ran
        cases ran
      · simp only [failed, if_false] at ran
        exact ((saveContext saved).trans (brk moved)).trans (returnToUser ran)
  | fork _ ran =>
      simp only [trapFork, bind_eq_ok] at ran
      obtain ⟨t, saved, ⟨status, u⟩, forked, ran⟩ := ran
      rcases fork_status forked with rfl | rfl
      · simp only [reduceCtorEq, if_false] at ran
        have started : t.currentProcess ≠ t.nextPcb := by
          obtain ⟨b, live, rfl⟩ := saveContext_eq_ok.mp saved
          intro same
          have current : s.currentProcess = s.nextPcb := same
          rw [current, fresh] at live
          cases live
        exact ((saveContext saved).trans (fork started forked)).trans (restoreContext ran)
      · cases ran
  | getPid _ ran =>
      simp only [trapGetPid, bind_eq_ok] at ran
      obtain ⟨t, saved, pid, -, ran⟩ := ran
      by_cases failed : pid = -1
      · simp only [failed, if_true] at ran
        cases ran
      · simp only [failed, if_false] at ran
        exact (saveContext saved).trans (returnToUser ran)
  | wait _ ran =>
      simp only [trapWait, bind_eq_ok] at ran
      obtain ⟨t, saved, result, waited, ran⟩ := ran
      have first := (saveContext saved).trans (wait waited)
      rcases result with ⟨_ | rc, u⟩
      · cases ran
        exact first
      · exact first.trans (finishWait ran)
  | exit _ ran => exact exit ran
  | exec _ ran =>
      simp only [trapExec, bind_eq_ok] at ran
      obtain ⟨t, saved, ⟨rc, u⟩, loaded, ran⟩ := ran
      exact ((saveContext saved).trans (exec loaded)).trans (returnToUser ran)
  | ttyRead code _ => exact absurd code reads
  | ttyWrite code _ => exact absurd code writes
  | unknown _ same =>
      subst same
      exact refl _

theorem memoryTrapHandler (h : s.memoryTrapHandler env = .ok s') : TtyFrame s s' := by
  simp only [Kernel.memoryTrapHandler, bind_eq_ok] at h
  obtain ⟨c, -, h⟩ := h
  rcases action : memoryTrapAction c s.ctx with _ | _ | _
  · simp only [action, bind_eq_ok] at h
    obtain ⟨⟨status, t⟩, grown, h⟩ := h
    have first : TtyFrame s t := growStack grown
    by_cases failed : status = .kill
    · simp only [failed, if_true] at h
      exact first.trans (exit h)
    · simp only [failed, if_false] at h
      cases h
      exact first
  · simp only [action] at h
    exact exit h
  · simp only [action] at h
    cases h
    exact refl _

end TtyFrame

end Kernel

/-- A context saved in a terminal call. -/
def KernelContext.isTty : KernelContext → Bool
  | .ttyRead .. | .ttyWriteLock .. | .ttyWriteDone .. => true
  | .unsaved | .kernelStart | .fork .. | .clockTrap | .delay | .wait _ | .exit .. => false

namespace Kernel

variable {env : Env} {s s' : Kernel}

/-- The step is a terminal call, a terminal trap, or the return from a context saved in a terminal
call. -/
def AtTerminals (s : Kernel) : Input → Prop
  | .kernelTrap ctx _ => ctx.code = yalnixTtyRead ∨ ctx.code = yalnixTtyWrite
  | .ttyReceiveTrap .. | .ttyTransmitTrap .. => True
  | .resume => ∃ c, s.heap s.currentProcess = some c ∧ c.kernelContext.isTty = true
  | _ => False

/-- Every other step leaves the terminals alone. -/
theorem ttyFrame_step {i : Input} (fresh : s.heap s.nextPcb = none) (elsewhere : ¬ s.AtTerminals i)
    (step : s.Step env i s') : TtyFrame s s' := by
  obtain ⟨-, h⟩ := step
  have entered : ∀ ctx, TtyFrame s (s.trap ctx) := fun _ => .of_same rfl rfl rfl
  cases i with
  | kernelTrap ctx req =>
      exact (entered ctx).trans (TtyFrame.kernelTrapHandler (s := s.trap ctx) fresh
        (fun reads => elsewhere (Or.inl reads)) (fun writes => elsewhere (Or.inr writes)) h)
  | clockTrap ctx => exact (entered ctx).trans (TtyFrame.clockTrapHandler h)
  | memoryTrap ctx => exact (entered ctx).trans (TtyFrame.memoryTrapHandler h)
  | mathTrap ctx => exact (entered ctx).trans (TtyFrame.exit h)
  | illegalTrap ctx => exact (entered ctx).trans (TtyFrame.exit h)
  | ttyReceiveTrap ctx tty data => exact absurd trivial elsewhere
  | ttyTransmitTrap ctx tty => exact absurd trivial elsewhere
  | userStore va bytes => exact TtyFrame.storeUser h
  | kernelBrk addr =>
      cases h
      exact TtyFrame.setMem
  | resume =>
      simp only [deliver, resume, bind_eq_ok, deref_eq_ok] at h
      obtain ⟨c, live, h⟩ := h
      have notTty : c.kernelContext.isTty = false :=
        Bool.eq_false_iff.mpr fun isTty => elsewhere ⟨c, live, isTty⟩
      cases saved : c.kernelContext with
      | unsaved =>
          rw [saved] at h
          cases h
      | kernelStart =>
          rw [saved] at h
          exact TtyFrame.restoreContext h
      | fork child parent =>
          rw [saved] at h
          simp only [bind_eq_ok] at h
          obtain ⟨t, returned, h⟩ := h
          exact (TtyFrame.forkReturn returned).trans (TtyFrame.restoreContext h)
      | clockTrap =>
          rw [saved] at h
          exact TtyFrame.restoreContext h
      | delay =>
          rw [saved] at h
          exact TtyFrame.returnToUser h
      | wait statusPtr =>
          rw [saved] at h
          simp only [bind_eq_ok] at h
          obtain ⟨⟨rc, t⟩, resumed, h⟩ := h
          simp only [waitResumed, bind_eq_ok] at resumed
          obtain ⟨⟨found, u⟩, scanned, resumed⟩ := resumed
          have first : TtyFrame s u := TtyFrame.waitScan scanned
          rcases found with _ | pid
          · cases resumed
            exact first.trans (TtyFrame.finishWait h)
          · cases resumed
            exact first.trans (TtyFrame.finishWait h)
      | exit frame origin =>
          rw [saved] at h
          rcases origin with _ | _ | _
          · cases h
            exact TtyFrame.of_same rfl rfl rfl
          · cases h
            exact TtyFrame.of_same rfl rfl rfl
          · cases h
      | _ =>
          rw [saved] at notTty
          cases notTty

end Kernel

end Yalnix
