/-
Module: Yalnix.Proofs.SpaceSteps
Purpose: What a step of the machine does to the frames that page tables hold, handler by handler.
Trusted boundary: none
Main exports: Kernel.SpaceAllowed, Kernel.SpaceReady, SpaceMoves.deliver
-/
import Yalnix.Proofs.SpaceOps

namespace Yalnix.Kernel

variable {env : Env} {s s' t u : Kernel} {p q : PcbPtr} {b : PCB} {req : LoadRequest}
  {lossy sharing : Prop}

namespace SpaceMoves

theorem setQueue (queue : QueueId) (entries : List PcbPtr) :
    SpaceMoves lossy sharing s (s.setQueue queue entries) := of_same rfl rfl rfl rfl

theorem setTerminal (tty : TtyId) (terminal : Terminal) :
    SpaceMoves lossy sharing s (s.setTerminal tty terminal) := of_same rfl rfl rfl rfl

theorem malloc (env : Env) : SpaceMoves lossy sharing s (s.malloc env).2 := of_same rfl rfl rfl rfl

/-- A state that differs in one PCB with the same tables, and in nothing that concerns frames. -/
theorem of_update {b' : PCB} (live : s.heap p = some b)
    (heap : s'.heap = Function.update s.heap p (some b')) (next : s'.nextPcb = s.nextPcb)
    (mem : s'.mem = s.mem) (current : s'.currentProcess = s.currentProcess)
    (table : b'.ptbr = b.ptbr) (stack : b'.kstack = b.kstack) : SpaceMoves lossy sharing s s' := by
  have written : SpaceMoves lossy sharing s (s.setPcb p b') := setPcb live table stack
  exact written.trans (of_same heap next mem current)

theorem saveContext (h : s.saveContext = .ok s') : SpaceMoves lossy sharing s s' :=
  modifyPcb h fun _ => ⟨rfl, rfl⟩

theorem restoreContext (h : s.restoreContext = .ok s') : SpaceMoves lossy sharing s s' := by
  obtain ⟨b, -, rfl⟩ := restoreContext_eq_ok.mp h
  exact of_same rfl rfl rfl rfl

theorem returnToUser {rc : Int} (h : s.returnToUser rc = .ok s') :
    SpaceMoves lossy sharing s s' := by
  obtain ⟨b, -, rfl⟩ := returnToUser_eq_ok.mp h
  exact of_same rfl rfl rfl rfl

/-! ### The clock -/

theorem trapHandlerHelper (h : s.trapHandlerHelper env q = .ok s') :
    SpaceMoves lossy sharing s s' := by
  obtain ⟨b, live, ⟨-, rfl⟩ | ⟨-, rfl⟩ | ⟨-, rfl⟩⟩ := trapHandlerHelper_eq_ok h
  · exact refl _
  · exact setPcb live rfl rfl
  · have readied : SpaceMoves lossy sharing s
        (s.setPcb q { b with delayTicks := 0, state := .ready }) := setPcb live rfl rfl
    have removed : SpaceMoves lossy sharing
        (s.setPcb q { b with delayTicks := 0, state := .ready })
        ((s.setPcb q { b with delayTicks := 0, state := .ready }).queueRemove .blocked q) :=
      setQueue _ _
    exact (readied.trans removed).trans (queueEnqueue env .ready q)

theorem iterateBlocked {blocked : List PcbPtr} (h : iterateBlocked env blocked s = .ok s') :
    SpaceMoves lossy sharing s s' := by
  induction blocked generalizing s with
  | nil =>
      cases h
      exact refl _
  | cons process rest inductionHypothesis =>
      simp only [Kernel.iterateBlocked, bind_eq_ok] at h
      obtain ⟨t, visited, h⟩ := h
      exact (trapHandlerHelper visited).trans (inductionHypothesis h)

theorem clockTrapHandler (h : s.clockTrapHandler env = .ok s') : SpaceMoves lossy sharing s s' := by
  obtain ⟨t, u, saved, iterated, tail⟩ := clockTrapHandler_eq_ok h
  have first : SpaceMoves lossy sharing s u := (saveContext saved).trans (iterateBlocked iterated)
  rcases tail with ⟨-, restored⟩ | ⟨next, rest, c, -, -, tail⟩
  · exact first.trans (restoreContext restored)
  · have popped := first.trans (setQueue .ready rest)
    rcases tail with ⟨-, -, v, readied, switched⟩ | ⟨-, switched⟩
    · have requeued := (popped.trans (modifyPcb readied fun _ => ⟨rfl, rfl⟩)).trans
        (queueEnqueue env .ready s.currentProcess)
      exact requeued.trans (kcSwitch switched)
    · exact popped.trans (kcSwitch switched)

/-! ### Terminals -/

/-- A process is taken out of the blocked queue and made ready. -/
theorem readied {f : PCB → PCB} (h : s.modifyPcb q f = .ok t)
    (same : ∀ b, (f b).ptbr = b.ptbr ∧ (f b).kstack = b.kstack) :
    SpaceMoves lossy sharing s ((t.queueRemove .blocked q).queueEnqueue env .ready q) := by
  have removed : SpaceMoves lossy sharing t (t.queueRemove .blocked q) := setQueue _ _
  exact ((modifyPcb h same).trans removed).trans (queueEnqueue env .ready q)

theorem handOver {tty : TtyId} (handed : HandOver env s tty s') :
    SpaceMoves lossy sharing s s' := by
  cases handed with
  | free none => exact setTerminal _ _
  | next writers woken => exact (setQueue _ _).trans (readied woken fun _ => ⟨rfl, rfl⟩)

theorem ttyTrapTransmitHandler {tty : TtyId} (h : s.ttyTrapTransmitHandler env tty = .ok s') :
    SpaceMoves lossy sharing s s' := by
  refine (log s (.ttyTransmitTrap tty)).trans ?_
  cases ttyTrapTransmitHandler_eq_ok h with
  | chunk left => exact (log _ _).trans (setTerminal _ _)
  | unowned through none handed => exact (setTerminal _ _).trans (handOver handed)
  | owned through some woken handed =>
      exact ((setTerminal _ _).trans (readied woken fun _ => ⟨rfl, rfl⟩)).trans (handOver handed)

theorem serveReaders {tty : TtyId} {readers : List PcbPtr}
    (h : serveReaders env tty readers s = .ok s') : SpaceMoves lossy sharing s s' := by
  induction readers generalizing s with
  | nil =>
      cases h
      exact refl _
  | cons reader rest inductionHypothesis =>
      by_cases empty : (s.terminals tty).readBufferLen = 0
      · unfold Kernel.serveReaders at h
        rw [if_pos empty] at h
        cases h
        exact refl _
      · obtain ⟨r, live, outcome⟩ := serveReaders_cons empty h
        have unlinked : SpaceMoves lossy sharing s (unlinkReader env s tty reader rest) :=
          of_same rfl rfl rfl rfl
        have live' : (unlinkReader env s tty reader rest).heap reader = some r := live
        rcases outcome with ⟨-, h⟩ | ⟨-, h⟩
        · have parked : SpaceMoves lossy sharing (unlinkReader env s tty reader rest)
              (parkBlock (unlinkReader env s tty reader rest) tty reader r
                (readAmount r (s.terminals tty))) := of_update live' rfl rfl rfl rfl rfl rfl
          refine ((unlinked.trans parked).trans ?_).trans (inductionHypothesis h)
          exact of_update (Function.update_self ..) (queueEnqueue_heap _ _)
            (by rw [readyReader, queueEnqueue_eq]; rfl) (queueEnqueue_mem _ _)
            (queueEnqueue_currentProcess _ _) rfl rfl
        · have answered : SpaceMoves lossy sharing (unlinkReader env s tty reader rest)
              ((unlinkReader env s tty reader rest).setPcb reader
                { r with userContext := r.userContext.setReturn 0 }) := setPcb live' rfl rfl
          refine ((unlinked.trans answered).trans ?_).trans (inductionHypothesis h)
          exact of_update (Function.update_self ..) (queueEnqueue_heap _ _)
            (by rw [readyReader, queueEnqueue_eq]; rfl) (queueEnqueue_mem _ _)
            (queueEnqueue_currentProcess _ _) rfl rfl

theorem ttyTrapReceiveHandler {tty : TtyId} {data : List Byte}
    (h : s.ttyTrapReceiveHandler env tty data = .ok s') : SpaceMoves lossy sharing s s' := by
  unfold Kernel.ttyTrapReceiveHandler at h
  exact ((log _ _).trans (setTerminal _ _)).trans (serveReaders h)

theorem ttyReadValid {tty : TtyId} {buf : Word} {len : Nat} {result : Option Int × Kernel}
    (h : s.ttyReadValid env tty buf len = .ok result) : SpaceMoves lossy sharing s result.2 := by
  rcases ttyReadValid_eq_ok h with ⟨-, -, rfl⟩ | ⟨-, -, n, b, -, live, rfl⟩ |
    ⟨-, t, u, parked, switched, rfl⟩
  · exact malloc env
  · exact of_update live rfl rfl rfl rfl rfl rfl
  · have queued : SpaceMoves lossy sharing s t :=
      (((log s _).trans (queueEnqueue env (.readers tty) s.currentProcess)).trans
        (queueEnqueue env .blocked s.currentProcess)).trans (modifyPcb parked fun _ => ⟨rfl, rfl⟩)
    exact queued.trans (dispatch switched)

theorem ttyRead {ttyId len : Int} {buf : Word} {result : Option Int × Kernel}
    (h : s.ttyRead env ttyId buf len = .ok result) : SpaceMoves lossy sharing s result.2 := by
  unfold Kernel.ttyRead at h
  split at h
  · cases h
    exact refl _
  · exact ttyReadValid h

theorem refuseWrite {tty : TtyId} (live : s.heap s.currentProcess = some b) :
    SpaceMoves lossy sharing s (s.refuseWrite env tty b) := of_update live rfl rfl rfl rfl rfl rfl

theorem ttyWriteLocked {tty : TtyId} {buf : Word} {len : Nat} {result : Option Int × Kernel}
    (h : s.ttyWriteLocked env tty buf len = .ok result) : SpaceMoves lossy sharing s result.2 := by
  obtain ⟨b, live, ⟨-, -, rfl⟩ | ⟨-, next, rest, t, -, readied, rfl⟩ |
    ⟨-, bytes, u, -, switched, rfl⟩⟩ := ttyWriteLocked_eq_ok h
  · exact refuseWrite live
  · have popped : SpaceMoves lossy sharing s
        ((s.refuseWrite env tty b).setQueue (.writers tty) rest) :=
      (refuseWrite live).trans (setQueue _ _)
    exact (popped.trans (modifyPcb readied fun _ => ⟨rfl, rfl⟩)).trans
      (queueEnqueue env .ready next)
  · have begun : SpaceMoves lossy sharing s (s.beginWrite env tty bytes len b) :=
      of_update live (queueEnqueue_heap _ _) (by rw [beginWrite, queueEnqueue_eq]; rfl)
        (queueEnqueue_mem _ _) (queueEnqueue_currentProcess _ _) rfl rfl
    exact begun.trans (dispatch switched)

theorem ttyWriteValid {tty : TtyId} {buf : Word} {len : Nat} {result : Option Int × Kernel}
    (h : s.ttyWriteValid env tty buf len = .ok result) : SpaceMoves lossy sharing s result.2 := by
  unfold Kernel.ttyWriteValid at h
  simp only at h
  split at h
  · simp only [bind_eq_ok, pure_eq_ok] at h
    obtain ⟨t, blocked, u, switched, rfl⟩ := h
    have queued : SpaceMoves lossy sharing s t :=
      ((log s _).trans (queueEnqueue env (.writers tty) s.currentProcess)).trans
        (modifyPcb blocked fun _ => ⟨rfl, rfl⟩)
    exact (queued.trans (queueEnqueue env .blocked s.currentProcess)).trans (dispatch switched)
  · exact (log s _).trans (ttyWriteLocked h)

theorem ttyWrite {ttyId len : Int} {buf : Word} {result : Option Int × Kernel}
    (h : s.ttyWrite env ttyId buf len = .ok result) : SpaceMoves lossy sharing s result.2 := by
  unfold Kernel.ttyWrite at h
  split at h
  · cases h
    exact refl _
  · exact ttyWriteValid h

theorem unpackRead {tty : TtyId} {buf : Word} {len rc : Int}
    (h : s.unpackRead tty buf len rc = .ok s') : SpaceMoves lossy sharing s s' := by
  obtain ⟨c, -, ⟨block, t, u, -, -, stored, cleared, h⟩ | ⟨-, h⟩⟩ := unpackRead_eq_ok h
  · have copied : SpaceMoves lossy sharing s u :=
      (storeUser stored).trans (modifyPcb cleared fun _ => ⟨rfl, rfl⟩)
    exact (copied.trans (log _ _)).trans (returnToUser h)
  · exact (log _ _).trans (returnToUser h)

theorem finishTtyWrite {tty : Option TtyId} {rc : Int} (h : s.finishTtyWrite tty rc = .ok s') :
    SpaceMoves lossy sharing s s' := by
  rcases tty with _ | tty
  · exact returnToUser h
  · exact (log _ _).trans (returnToUser h)

theorem finishWait {statusPtr : Word} {rc : Int} (h : s.finishWait statusPtr rc = .ok s') :
    SpaceMoves lossy sharing s s' := (log _ _).trans (returnToUser h)

/-- What is left of a call. -/
theorem finish {result : Option Int × Kernel} {done : Int → Kernel → Except Stop Kernel}
    (returned : ∀ rc u v, done rc u = .ok v → SpaceMoves lossy sharing u v)
    (h : finish result done = .ok s') : SpaceMoves lossy sharing result.2 s' := by
  rcases result with ⟨_ | rc, u⟩
  · cases h
    exact refl _
  · exact returned rc u s' h

/-! ### Calls that take or lose frames -/

theorem exec {argv : Word} {rc : Int}
    (allowed : s.LoadAllowed lossy sharing env req (.user argv) s.currentProcess)
    (h : s.exec env req argv = .ok (rc, s')) : SpaceMoves lossy sharing s s' := by
  simp only [Kernel.exec, bind_eq_ok] at h
  obtain ⟨⟨status, t⟩, loaded, h⟩ := h
  have moved : SpaceMoves lossy sharing s t := loadProgram allowed loaded
  by_cases failed : status = .error
  · simp only [failed, if_true] at h
    cases h
    exact moved
  · simp only [failed, if_false] at h
    cases h
    exact moved

theorem memoryTrapHandler (allowed : ∀ c, s.heap s.currentProcess = some c →
      memoryTrapAction c s.ctx = .grow → s.GrowthAllowed lossy s.ctx.addr)
    (h : s.memoryTrapHandler env = .ok s') : SpaceMoves lossy sharing s s' := by
  simp only [Kernel.memoryTrapHandler, bind_eq_ok, deref_eq_ok] at h
  obtain ⟨c, live, h⟩ := h
  rcases action : memoryTrapAction c s.ctx with _ | _ | _
  · simp only [action, bind_eq_ok] at h
    obtain ⟨⟨status, t⟩, grown, h⟩ := h
    have first : SpaceMoves lossy sharing s t := growStack (allowed c live action) grown
    by_cases failed : status = .kill
    · simp only [failed, if_true] at h
      exact first.trans (exit h)
    · simp only [failed, if_false] at h
      cases h
      exact first
  · simp only [action] at h
    exact exit h
  · simp only [action] at h
    cases h
    exact refl _

theorem delay {ticks : Int} {result : Option Int × Kernel} (h : s.delay env ticks = .ok result) :
    SpaceMoves lossy sharing s result.2 := by
  unfold Kernel.delay at h
  split at h
  · cases h
    exact refl _
  · split at h
    · cases h
      exact refl _
    · simp only [bind_eq_ok, pure_eq_ok] at h
      obtain ⟨u, blocked, v, switched, rfl⟩ := h
      exact ((modifyPcb blocked fun _ => ⟨rfl, rfl⟩).trans
        (queueEnqueue env .blocked s.currentProcess)).trans (dispatch switched)

end SpaceMoves

/-! ### Steps -/

/-- What a step may do with frames: lose some only if `lossy`, share some only if `sharing`. -/
structure SpaceAllowed (lossy sharing : Prop) (env : Env) (s : Kernel) (i : Input) : Prop where
  reaps : ∀ z, s.Reaps z i → lossy
  loads : ∀ ctx req, i = .kernelTrap ctx req → ctx.code = yalnixExec →
    s.LoadAllowed lossy sharing env req (.user (ctx.regs 1)) s.currentProcess
  grows : ∀ ctx c, i = .memoryTrap ctx → s.heap s.currentProcess = some c →
    memoryTrapAction c ctx = .grow → s.GrowthAllowed lossy ctx.addr
  heap : ∀ addr, i = .kernelBrk addr → lossy

/-- No PCB exists beyond the next one, the current process is before it, and the kernel heap ends
below the kernel stack. -/
structure SpaceReady (s : Kernel) : Prop where
  fresh : ∀ p, s.nextPcb ≤ p → s.heap p = none
  current : s.currentProcess < s.nextPcb
  heapBelow : s.mem.kernelBrkPage ≤ kstackStartPage

theorem SpaceMoves.kernelTrapHandler {ctx : UserContext} (ready : s.SpaceReady)
    (scratch : s.mem.ScratchFree ∨ lossy)
    (allowed : s.SpaceAllowed lossy sharing env (.kernelTrap ctx req))
    (h : (s.trap ctx).kernelTrapHandler env req = .ok s') :
    SpaceMoves lossy sharing (s.trap ctx) s' := by
  cases kernelTrapHandler_eq_ok h with
  | delay _ ran =>
      simp only [trapDelay, bind_eq_ok] at ran
      obtain ⟨t, saved, result, called, ran⟩ := ran
      refine ((SpaceMoves.saveContext saved).trans (.delay called)).trans (.finish ?_ ran)
      intro rc u v returned
      split at returned
      · cases returned
      · exact .returnToUser returned
  | brk _ ran =>
      simp only [trapBrk, bind_eq_ok] at ran
      obtain ⟨t, saved, ⟨status, u⟩, moved, ran⟩ := ran
      by_cases failed : status = .error
      · simp only [failed, if_true] at ran
        cases ran
      · simp only [failed, if_false] at ran
        exact ((SpaceMoves.saveContext saved).trans (.brk moved)).trans (.returnToUser ran)
  | fork _ ran =>
      simp only [trapFork, bind_eq_ok] at ran
      obtain ⟨t, saved, ⟨status, u⟩, forked, ran⟩ := ran
      have first : SpaceMoves lossy sharing (s.trap ctx) t := .saveContext saved
      have absent : t.heap t.nextPcb = none := first.fresh ready.fresh _ le_rfl
      have other : t.currentProcess ≠ t.nextPcb := by
        obtain ⟨b, live, rfl⟩ := saveContext_eq_ok.mp saved
        exact Nat.ne_of_lt ready.current
      have second : SpaceMoves lossy sharing t u :=
        .fork other absent (first.scratch scratch) forked
      by_cases failed : status = .error
      · simp only [failed, if_true] at ran
        cases ran
      · simp only [failed, if_false] at ran
        exact (first.trans second).trans (.restoreContext ran)
  | getPid _ ran =>
      simp only [trapGetPid, bind_eq_ok] at ran
      obtain ⟨t, saved, pid, -, ran⟩ := ran
      by_cases failed : pid = -1
      · simp only [failed, if_true] at ran
        cases ran
      · simp only [failed, if_false] at ran
        exact (SpaceMoves.saveContext saved).trans (.returnToUser ran)
  | wait code ran =>
      simp only [trapWait, bind_eq_ok] at ran
      obtain ⟨t, saved, result, waited, ran⟩ := ran
      have view : t.sched = s.sched := (sched_saveContext saved).trans (sched_trap ctx)
      refine ((SpaceMoves.saveContext saved).trans (.wait ?_ waited)).trans
        (.finish (fun rc u v returned => .finishWait returned) ran)
      rintro children ⟨z, finds⟩
      refine allowed.reaps z ⟨code, ?_, finds.congr view⟩
      have current : t.currentProcess = s.currentProcess := congrArg Sched.current view
      rw [← current]
      exact fun empty => children ((congrFun (congrArg Sched.queues view) _).trans empty)
  | exit _ ran => exact .exit ran
  | exec code ran =>
      simp only [trapExec, bind_eq_ok] at ran
      obtain ⟨t, saved, ⟨rc, u⟩, loaded, ran⟩ := ran
      have first : SpaceMoves lossy sharing (s.trap ctx) t := .saveContext saved
      obtain ⟨b, live, rfl⟩ := saveContext_eq_ok.mp saved
      refine (first.trans (.exec ?_ loaded)).trans (.returnToUser ran)
      intro c found
      obtain ⟨fits, once⟩ := allowed.loads ctx req rfl code b live
      constructor
      · exact fits.imp_left fun enough short =>
          enough (runsShort_saveContext (s := s.trap ctx) live saved found short)
      · intro li args plan information strings
        rw [argStrings_saveContext saved] at strings
        obtain rfl := Option.some.inj (found.symm.trans (Function.update_self ..))
        exact once li args plan information strings
  | ttyRead code ran =>
      unfold trapTtyRead at ran
      simp only at ran
      split at ran
      · simp only [bind_eq_ok] at ran
        obtain ⟨t, saved, result, called, ran⟩ := ran
        refine ((SpaceMoves.saveContext saved).trans (.ttyRead called)).trans (.finish ?_ ran)
        intro rc u v returned
        split at returned
        · exact .unpackRead returned
        · exact .returnToUser returned
      · cases ran
        exact .of_same rfl rfl rfl rfl
  | ttyWrite code ran =>
      unfold trapTtyWrite at ran
      simp only at ran
      split at ran
      · simp only [bind_eq_ok] at ran
        obtain ⟨t, saved, result, called, ran⟩ := ran
        exact ((SpaceMoves.saveContext saved).trans (.ttyWrite called)).trans
          (.finish (fun rc u v returned => .finishTtyWrite returned) ran)
      · cases ran
        exact .of_same rfl rfl rfl rfl
  | unknown _ same =>
      subst same
      exact .refl _

theorem SpaceMoves.resume (allowed : s.SpaceAllowed lossy sharing env .resume)
    (h : s.resume env = .ok s') : SpaceMoves lossy sharing s s' := by
  simp only [Kernel.resume, bind_eq_ok, deref_eq_ok] at h
  obtain ⟨c, live, h⟩ := h
  cases saved : c.kernelContext with
  | unsaved =>
      rw [saved] at h
      cases h
  | kernelStart =>
      rw [saved] at h
      exact .restoreContext h
  | clockTrap =>
      rw [saved] at h
      exact .restoreContext h
  | fork child parent =>
      rw [saved] at h
      simp only [bind_eq_ok] at h
      obtain ⟨t, returned, h⟩ := h
      exact (SpaceMoves.forkReturn returned).trans (.restoreContext h)
  | delay =>
      rw [saved] at h
      exact .returnToUser h
  | wait statusPtr =>
      rw [saved] at h
      simp only [bind_eq_ok] at h
      obtain ⟨⟨rc, t⟩, resumed, h⟩ := h
      refine SpaceMoves.trans (.waitResumed ?_ resumed) (.finishWait h)
      rintro ⟨z, finds⟩
      exact allowed.reaps z ⟨⟨c, statusPtr, live, saved⟩, finds⟩
  | ttyRead tty buf len =>
      rw [saved] at h
      exact .unpackRead h
  | ttyWriteLock tty buf len =>
      rw [saved] at h
      simp only [bind_eq_ok] at h
      obtain ⟨result, called, h⟩ := h
      exact (SpaceMoves.ttyWriteLocked called).trans
        (.finish (fun rc u v returned => .finishTtyWrite returned) h)
  | ttyWriteDone tty len =>
      rw [saved] at h
      exact .finishTtyWrite h
  | exit frame origin =>
      rw [saved] at h
      rcases origin with _ | _ | _
      · cases h
        exact .of_same rfl rfl rfl rfl
      · cases h
        exact .of_same rfl rfl rfl rfl
      · cases h

theorem SpaceMoves.ready (moved : SpaceMoves lossy sharing s s') (ready : s.SpaceReady) :
    s'.SpaceReady :=
  ⟨moved.fresh ready.fresh, moved.current ready.fresh ready.current,
    moved.heapBelow ready.heapBelow⟩

/-- Every reaction of the kernel, with what it may do. -/
theorem SpaceMoves.deliver {i : Input} (ready : s.SpaceReady) (scratch : s.mem.ScratchFree ∨ lossy)
    (allowed : s.SpaceAllowed lossy sharing env i) (h : s.deliver env i = .ok s') :
    SpaceMoves lossy sharing s s' := by
  have entered : ∀ ctx, SpaceMoves lossy sharing s (s.trap ctx) := fun _ => .of_same rfl rfl rfl rfl
  cases i with
  | kernelTrap ctx req =>
      exact (entered ctx).trans (.kernelTrapHandler ready scratch allowed h)
  | clockTrap ctx => exact (entered ctx).trans (.clockTrapHandler h)
  | memoryTrap ctx =>
      exact (entered ctx).trans (.memoryTrapHandler (allowed.grows ctx · rfl) h)
  | mathTrap ctx => exact (entered ctx).trans (.exit h)
  | illegalTrap ctx => exact (entered ctx).trans (.exit h)
  | ttyReceiveTrap ctx tty data => exact (entered ctx).trans (.ttyTrapReceiveHandler h)
  | ttyTransmitTrap ctx tty => exact (entered ctx).trans (.ttyTrapTransmitHandler h)
  | resume => exact .resume allowed h
  | userStore va bytes => exact .storeUser h
  | kernelBrk addr =>
      cases h
      have lost := allowed.heap addr rfl
      refine ⟨?_, fun start => start, fun _ known => known, fun start => ?_, fun _ => Or.inr lost⟩
      · have moved : SpaceMoves True sharing s (s.setMem (s.mem.setKernelBrk addr).2) :=
          .setKernelBrk ready.heapBelow addr
        have changes := moved.changes
        rwa [← eq_true lost] at changes
      · exact (Memory.StackEntriesKept.setKernelBrk addr start).1

end Yalnix.Kernel
