/-
Module: Yalnix.Proofs.SameMemory
Purpose: Writing to terminals, delaying and what the clock and the terminals do leave every process
  what it finds in its memory.
Trusted boundary: none
Main exports: Kernel.SameMemory, SameMemory.userBytes, sameMemory_step
-/
import Yalnix.Proofs.UserMemory
import Yalnix.Run

namespace Yalnix

/-- The kernel paths that store to user memory when they go on. -/
def KernelContext.stores : KernelContext → Bool
  | .wait _ | .ttyRead .. => true
  | _ => false

namespace Kernel

variable {env : Env} {s s' t u : Kernel} {p q : PcbPtr} {b : PCB} {tty : TtyId} {buf : Word}
  {len : Nat}

/-- Neither the bytes in memory nor the table of a process changes. -/
structure SameMemory (s s' : Kernel) : Prop where
  phys : s'.mem.phys = s.mem.phys
  tables : ∀ p, (s'.heap p).map PCB.ptbr = (s.heap p).map PCB.ptbr

namespace SameMemory

theorem refl (s : Kernel) : SameMemory s s := ⟨rfl, fun _ => rfl⟩

theorem trans (first : SameMemory s t) (second : SameMemory t u) : SameMemory s u where
  phys := second.phys.trans first.phys
  tables p := (second.tables p).trans (first.tables p)

/-- Each process finds the same bytes. -/
theorem userBytes (same : SameMemory s s') (p : PcbPtr) (va : Word) (n : Nat) :
    s'.userBytes p va n = s.userBytes p va n := by
  have kept : ∀ pt, s'.mem.bytesAt pt va.toNat n = s.mem.bytesAt pt va.toNat n := by
    intro pt
    simp only [Memory.bytesAt, Memory.byteAt, same.phys]
  have table := same.tables p
  unfold Kernel.userBytes
  rcases left : s'.heap p with _ | b'
  · rcases right : s.heap p with _ | b
    · rfl
    · simp [left, right] at table
  · rcases right : s.heap p with _ | b
    · simp [left, right] at table
    · have sameTable : b'.ptbr = b.ptbr := by simpa [left, right] using table
      simp only [sameTable, kept]

/-! ### Elementary changes -/

/-- The PCBs and the bytes stay. -/
theorem of_same (heap : s'.heap = s.heap) (phys : s'.mem.phys = s.mem.phys) : SameMemory s s' :=
  ⟨phys, fun p => by rw [heap]⟩

/-- A state that differs in one PCB with the same table. -/
theorem of_update {b' : PCB} (live : s.heap q = some b)
    (heap : s'.heap = Function.update s.heap q (some b')) (table : b'.ptbr = b.ptbr)
    (phys : s'.mem.phys = s.mem.phys) : SameMemory s s' where
  phys := phys
  tables p := by
    rw [heap]
    by_cases here : p = q
    · subst here
      simp [live, table]
    · simp [here]

theorem setPcb {b' : PCB} (live : s.heap q = some b) (table : b'.ptbr = b.ptbr) :
    SameMemory s (s.setPcb q b') := of_update live rfl table rfl

theorem modifyPcb {f : PCB → PCB} (h : s.modifyPcb q f = .ok s')
    (table : ∀ b, (f b).ptbr = b.ptbr) : SameMemory s s' := by
  obtain ⟨b, live, rfl⟩ := modifyPcb_eq_ok.mp h
  exact setPcb live (table b)

theorem log (e : Event) : SameMemory s (s.log e) := of_same rfl rfl

theorem setQueue (queue : QueueId) (entries : List PcbPtr) :
    SameMemory s (s.setQueue queue entries) := of_same rfl rfl

theorem setTerminal (tty : TtyId) (terminal : Terminal) :
    SameMemory s (s.setTerminal tty terminal) := of_same rfl rfl

theorem enqueue (env : Env) (queue : QueueId) (q : PcbPtr) :
    SameMemory s (s.queueEnqueue env queue q) :=
  of_same (queueEnqueue_heap queue q) (congrArg Memory.phys (queueEnqueue_mem queue q))

theorem kcSwitch {kc : KernelContext} {curr next : PcbPtr} (h : s.kcSwitch kc curr next = .ok s') :
    SameMemory s s' := by
  obtain ⟨c, n, kstack, live, found, -, rfl⟩ := kcSwitch_eq_ok h
  have saved : SameMemory s (s.setPcb curr { c with kernelContext := kc }) := setPcb live rfl
  exact saved.trans (of_update found rfl rfl rfl)

theorem dispatch {kc : KernelContext} (h : s.dispatch kc = .ok s') : SameMemory s s' := by
  rcases dispatch_eq_ok h with ⟨next, rest, -, switched⟩ | ⟨-, switched⟩
  · exact (setQueue .ready rest).trans (kcSwitch switched)
  · exact kcSwitch switched

theorem saveContext (h : s.saveContext = .ok s') : SameMemory s s' := modifyPcb h fun _ => rfl

theorem restoreContext (h : s.restoreContext = .ok s') : SameMemory s s' := by
  obtain ⟨b, -, rfl⟩ := restoreContext_eq_ok.mp h
  exact of_same rfl rfl

theorem returnToUser {rc : Int} (h : s.returnToUser rc = .ok s') : SameMemory s s' := by
  obtain ⟨b, -, rfl⟩ := returnToUser_eq_ok.mp h
  exact of_same rfl rfl

/-! ### The clock and the terminals -/

theorem trapHandlerHelper (h : s.trapHandlerHelper env q = .ok s') : SameMemory s s' := by
  obtain ⟨b, live, ⟨-, rfl⟩ | ⟨-, rfl⟩ | ⟨-, rfl⟩⟩ := trapHandlerHelper_eq_ok h
  · exact refl _
  · exact setPcb live rfl
  · have removed : SameMemory s
        ((s.setPcb q { b with delayTicks := 0, state := .ready }).queueRemove .blocked q) :=
      of_update live rfl rfl rfl
    exact removed.trans (enqueue env .ready q)

theorem iterateBlocked {blocked : List PcbPtr} (h : iterateBlocked env blocked s = .ok s') :
    SameMemory s s' := by
  induction blocked generalizing s with
  | nil =>
      cases h
      exact refl _
  | cons process rest inductionHypothesis =>
      simp only [Kernel.iterateBlocked, bind_eq_ok] at h
      obtain ⟨t, visited, h⟩ := h
      exact (trapHandlerHelper visited).trans (inductionHypothesis h)

theorem clockTrapHandler (h : s.clockTrapHandler env = .ok s') : SameMemory s s' := by
  obtain ⟨t, u, saved, iterated, tail⟩ := clockTrapHandler_eq_ok h
  have first := (saveContext saved).trans (iterateBlocked iterated)
  rcases tail with ⟨-, restored⟩ | ⟨next, rest, c, -, -, tail⟩
  · exact first.trans (restoreContext restored)
  · have popped : SameMemory s (u.setQueue .ready rest) := first.trans (setQueue _ _)
    rcases tail with ⟨-, -, v, readied, switched⟩ | ⟨-, switched⟩
    · have requeued := (modifyPcb readied fun _ => rfl).trans
        (enqueue env .ready s.currentProcess)
      exact (popped.trans requeued).trans (kcSwitch switched)
    · exact popped.trans (kcSwitch switched)

/-- A process is taken out of the blocked queue and made ready. -/
theorem readied {f : PCB → PCB} (h : s.modifyPcb q f = .ok t)
    (table : ∀ b, (f b).ptbr = b.ptbr) :
    SameMemory s ((t.queueRemove .blocked q).queueEnqueue env .ready q) := by
  have removed : SameMemory t (t.queueRemove .blocked q) := setQueue _ _
  exact ((modifyPcb h table).trans removed).trans (enqueue env .ready q)

theorem handOver (handed : HandOver env s tty s') : SameMemory s s' := by
  cases handed with
  | free none => exact setTerminal _ _
  | next writers woken => exact (setQueue _ _).trans (readied woken fun _ => rfl)

theorem ttyTrapTransmitHandler (h : s.ttyTrapTransmitHandler env tty = .ok s') :
    SameMemory s s' := by
  refine (log (.ttyTransmitTrap tty)).trans ?_
  cases ttyTrapTransmitHandler_eq_ok h with
  | chunk left => exact (log _).trans (setTerminal _ _)
  | unowned through none handed => exact (setTerminal _ _).trans (handOver handed)
  | owned through some woken handed =>
      exact ((setTerminal _ _).trans (readied woken fun _ => rfl)).trans (handOver handed)

/-- Data that nobody waits for goes to the read buffer. -/
theorem ttyTrapReceiveHandler {data : List Byte} (nobody : s.queues (.readers tty) = [])
    (h : s.ttyTrapReceiveHandler env tty data = .ok s') : SameMemory s s' := by
  simp only [Kernel.ttyTrapReceiveHandler, setTerminal_queues, log_queues, nobody,
    Kernel.serveReaders] at h
  cases h
  exact (log _).trans (setTerminal _ _)

/-! ### Calls -/

theorem ttyWriteLocked {result : Option Int × Kernel}
    (h : s.ttyWriteLocked env tty buf len = .ok result) : SameMemory s result.2 := by
  obtain ⟨b, live, ⟨-, -, rfl⟩ | ⟨-, next, rest, t, -, readied, rfl⟩ |
    ⟨-, bytes, u, -, switched, rfl⟩⟩ := ttyWriteLocked_eq_ok h
  · exact of_update live rfl rfl rfl
  · have refused : SameMemory s (s.refuseWrite env tty b) := of_update live rfl rfl rfl
    exact ((refused.trans (setQueue _ _)).trans (modifyPcb readied fun _ => rfl)).trans
      (enqueue env .ready next)
  · have begun : SameMemory s (s.beginWrite env tty bytes len b) :=
      of_update live (queueEnqueue_heap _ _) rfl (congrArg Memory.phys (queueEnqueue_mem _ _))
    exact begun.trans (dispatch switched)

theorem ttyWriteValid {result : Option Int × Kernel}
    (h : s.ttyWriteValid env tty buf len = .ok result) : SameMemory s result.2 := by
  unfold Kernel.ttyWriteValid at h
  simp only at h
  split at h
  · simp only [bind_eq_ok, pure_eq_ok] at h
    obtain ⟨t, blocked, u, switched, rfl⟩ := h
    have queued : SameMemory s t :=
      ((log _).trans (enqueue env (.writers tty) s.currentProcess)).trans
        (modifyPcb blocked fun _ => rfl)
    exact (queued.trans (enqueue env .blocked s.currentProcess)).trans (dispatch switched)
  · exact (log _).trans (ttyWriteLocked h)

theorem finishTtyWrite {asked : Option TtyId} {rc : Int} (h : s.finishTtyWrite asked rc = .ok s') :
    SameMemory s s' := by
  cases asked with
  | none => exact returnToUser h
  | some tty => exact (log _).trans (returnToUser h)

/-- What is left of a call. -/
theorem finish {result : Option Int × Kernel} {done : Int → Kernel → Except Stop Kernel}
    (ends : ∀ {rc : Int} {u v : Kernel}, done rc u = .ok v → SameMemory u v)
    (h : finish result done = .ok s') : SameMemory result.2 s' := by
  rcases result with ⟨_ | rc, u⟩
  · cases h
    exact refl _
  · exact ends h

theorem trapTtyWrite (h : s.trapTtyWrite env = .ok s') : SameMemory s s' := by
  unfold Kernel.trapTtyWrite at h
  simp only at h
  split at h
  · simp only [bind_eq_ok] at h
    obtain ⟨t, saved, result, called, h⟩ := h
    have written : SameMemory t result.2 := by
      unfold Kernel.ttyWrite at called
      split at called
      · cases called
        exact refl _
      · exact ttyWriteValid called
    exact ((saveContext saved).trans written).trans (finish finishTtyWrite h)
  · cases h
    exact of_same rfl rfl

theorem trapDelay (h : s.trapDelay env = .ok s') : SameMemory s s' := by
  simp only [Kernel.trapDelay, bind_eq_ok] at h
  obtain ⟨t, saved, result, called, h⟩ := h
  have delayed : SameMemory t result.2 := by
    unfold Kernel.delay at called
    split at called
    · cases called
      exact refl _
    · split at called
      · cases called
        exact refl _
      · simp only [bind_eq_ok, pure_eq_ok] at called
        obtain ⟨u, blocked, v, switched, rfl⟩ := called
        exact ((modifyPcb blocked fun _ => rfl).trans
          (enqueue env .blocked t.currentProcess)).trans (dispatch switched)
  refine ((saveContext saved).trans delayed).trans (finish (fun {rc u v} ended => ?_) h)
  split at ended
  · cases ended
  · exact returnToUser ended

theorem forkReturn {child parent : PcbPtr} (h : s.forkReturn env child parent = .ok s') :
    SameMemory s s' := by
  simp only [Kernel.forkReturn, bind_eq_ok, deref_eq_ok] at h
  obtain ⟨c, -, p, -, h⟩ := h
  split at h
  · simp only [bind_eq_ok, deref_eq_ok] at h
    obtain ⟨t, readied, d, -, h⟩ := h
    have first : SameMemory s t := modifyPcb readied fun _ => rfl
    have second := (first.trans (enqueue env .ready child)).trans
      (enqueue env (.children parent) child)
    exact (second.trans (log _)).trans (modifyPcb h fun _ => rfl)
  · exact modifyPcb h fun _ => rfl

/-- The current process goes on, inside no path that stores to its memory. -/
theorem resume (plain : ∀ c, s.heap s.currentProcess = some c → c.kernelContext.stores = false)
    (h : s.resume env = .ok s') : SameMemory s s' := by
  simp only [Kernel.resume, bind_eq_ok, deref_eq_ok] at h
  obtain ⟨c, live, h⟩ := h
  have silent := plain c live
  cases saved : c.kernelContext with
  | unsaved =>
      rw [saved] at h
      cases h
  | kernelStart | clockTrap =>
      rw [saved] at h
      exact restoreContext h
  | fork child parent =>
      rw [saved] at h
      simp only [bind_eq_ok] at h
      obtain ⟨t, returned, h⟩ := h
      exact (forkReturn returned).trans (restoreContext h)
  | delay =>
      rw [saved] at h
      exact returnToUser h
  | wait | ttyRead =>
      rw [saved] at silent
      cases silent
  | ttyWriteLock tty buf len =>
      rw [saved] at h
      simp only [bind_eq_ok] at h
      obtain ⟨result, called, h⟩ := h
      exact (ttyWriteLocked called).trans (finish finishTtyWrite h)
  | ttyWriteDone tty len =>
      rw [saved] at h
      exact finishTtyWrite h
  | exit frame origin =>
      rw [saved] at h
      rcases origin with _ | _ | _
      · cases h
        exact of_same rfl rfl
      · cases h
        exact of_same rfl rfl
      · cases h

end SameMemory

/-- Writing and delaying, the clock and the terminals leave the processes' memory alone, while
nobody waits for a child or for data. -/
theorem sameMemory_step {i : Input} (among : i.among [yalnixTtyWrite, yalnixDelay] = true)
    (unread : ∀ tty, s.queues (.readers tty) = [])
    (plain : s.mode = .kernel →
      ∀ c, s.heap s.currentProcess = some c → c.kernelContext.stores = false)
    (step : s.Step env i s') : SameMemory s s' := by
  obtain ⟨enabled, h⟩ := step
  have entered : ∀ ctx, SameMemory s (s.trap ctx) := fun _ => .of_same rfl rfl
  cases i with
  | kernelTrap ctx req =>
      have code : ctx.code = yalnixTtyWrite ∨ ctx.code = yalnixDelay := by
        simpa [Input.among] using among
      rcases code with isWrite | isDelay
      · have ran : (s.trap ctx).trapTtyWrite env = .ok s' := by
          rw [← kernelTrapHandler_ttyWrite isWrite]
          exact h
        exact (entered ctx).trans (SameMemory.trapTtyWrite ran)
      · have ran : (s.trap ctx).trapDelay env = .ok s' := by
          have code : (s.trap ctx).ctx.code = yalnixDelay := isDelay
          have called : (s.trap ctx).kernelTrapHandler env req = .ok s' := h
          rwa [kernelTrapHandler, if_pos code] at called
        exact (entered ctx).trans (SameMemory.trapDelay ran)
  | clockTrap ctx => exact (entered ctx).trans (SameMemory.clockTrapHandler h)
  | ttyReceiveTrap ctx tty data =>
      exact (entered ctx).trans (SameMemory.ttyTrapReceiveHandler (by exact unread tty) h)
  | ttyTransmitTrap ctx tty => exact (entered ctx).trans (SameMemory.ttyTrapTransmitHandler h)
  | resume => exact SameMemory.resume (plain enabled) h
  | _ => cases among

end Kernel

end Yalnix
