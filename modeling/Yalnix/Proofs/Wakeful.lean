/-
Module: Yalnix.Proofs.Wakeful
Purpose: A handler puts nobody to sleep, unless it runs a call that blocks its caller, and a context
  switch goes to a process that is running.
Trusted boundary: none
Main exports: Kernel.Blocked, Kernel.Wakeful, Wakeful.dispatch, Wakeful.exit, nobody_blocked_boot
-/
import Yalnix.Proofs.HeapStack
import Yalnix.Proofs.Inside

namespace Yalnix.Kernel

variable {env : Env} {s s' t u : Kernel} {p q : PcbPtr} {b b' : PCB} {kc : KernelContext}

/-- The process is in the state `PROC_BLOCKED`. -/
def Blocked (s : Kernel) (p : PcbPtr) : Prop := ∃ b, s.heap p = some b ∧ b.state = .blocked

/-- Nobody falls asleep, and the processor goes to nobody who sleeps. -/
structure Wakeful (s s' : Kernel) : Prop where
  blocked : ∀ p, s'.Blocked p → s.Blocked p
  current : s'.currentProcess = s.currentProcess ∨ ¬ s'.Blocked s'.currentProcess

/-- Only the state of one process may have changed. -/
theorem blocked_setPcb (asleep : (s.setPcb q b).Blocked p) :
    p = q ∧ b.state = .blocked ∨ s.Blocked p := by
  obtain ⟨c, live, state⟩ := asleep
  by_cases here : p = q
  · rw [here, setPcb_heap, Function.update_self] at live
    obtain rfl := Option.some.inj live
    exact Or.inl ⟨here, state⟩
  · rw [setPcb_heap, Function.update_of_ne here] at live
    exact Or.inr ⟨c, live, state⟩

namespace Wakeful

/-! ### Elementary changes -/

theorem refl (s : Kernel) : Wakeful s s := ⟨fun _ => id, Or.inl rfl⟩

theorem trans (first : Wakeful s t) (second : Wakeful t u) : Wakeful s u where
  blocked p asleep := first.blocked p (second.blocked p asleep)
  current := by
    rcases second.current with stays | awake
    · rcases first.current with stays' | awake
      · exact Or.inl (stays.trans stays')
      · refine Or.inr fun asleep => awake ?_
        rw [stays] at asleep
        exact second.blocked _ asleep
    · exact Or.inr awake

theorem of_heap (heap : s'.heap = s.heap) (current : s'.currentProcess = s.currentProcess) :
    Wakeful s s' where
  blocked p asleep := by
    rw [Blocked, heap] at asleep
    exact asleep
  current := Or.inl current

/-- A PCB is written, but its process is not put to sleep. -/
theorem setPcb (live : s.heap q = some b) (state : b'.state = .blocked → b.state = .blocked) :
    Wakeful s (s.setPcb q b') where
  blocked p asleep := by
    rcases blocked_setPcb asleep with ⟨here, slept⟩ | before
    · exact ⟨b, here ▸ live, state slept⟩
    · exact before
  current := Or.inl rfl

/-- A state that differs in one PCB, whose process is not put to sleep. -/
theorem update (live : s.heap q = some b) (heap : s'.heap = Function.update s.heap q (some b'))
    (current : s'.currentProcess = s.currentProcess)
    (state : b'.state = .blocked → b.state = .blocked) : Wakeful s s' := by
  have wrote : Wakeful s (s.setPcb q b') := setPcb live state
  exact wrote.trans (of_heap heap current)

theorem modifyPcb {f : PCB → PCB} (h : s.modifyPcb q f = .ok s')
    (state : ∀ b, (f b).state = .blocked → b.state = .blocked) : Wakeful s s' := by
  obtain ⟨b, live, rfl⟩ := modifyPcb_eq_ok.mp h
  exact setPcb live (state b)

/-- A PCB is written in which the process is ready. -/
theorem readied {f : PCB → PCB} (h : s.modifyPcb q f = .ok s') (ready : ∀ b, (f b).state = .ready) :
    Wakeful s s' :=
  modifyPcb h fun b slept => by
    rw [ready] at slept
    cases slept

theorem queueEnqueue (env : Env) (s : Kernel) (queue : QueueId) (q : PcbPtr) :
    Wakeful s (s.queueEnqueue env queue q) :=
  of_heap (queueEnqueue_heap ..) (queueEnqueue_currentProcess ..)

theorem saveContext (h : s.saveContext = .ok s') : Wakeful s s' := modifyPcb h fun _ => id

theorem restoreContext (h : s.restoreContext = .ok s') : Wakeful s s' := by
  obtain ⟨b, -, rfl⟩ := restoreContext_eq_ok.mp h
  exact of_heap rfl rfl

theorem returnToUser {rc : Int} (h : s.returnToUser rc = .ok s') : Wakeful s s' := by
  obtain ⟨b, -, rfl⟩ := returnToUser_eq_ok.mp h
  exact of_heap rfl rfl

theorem storeUser {va : Word} {bytes : List Byte} (h : s.storeUser va bytes = .ok s') :
    Wakeful s s' := by
  obtain ⟨b, m, -, -, rfl⟩ := storeUser_eq_ok.mp h
  exact of_heap rfl rfl

/-- The process that is switched to is running. -/
theorem kcSwitch {curr next : PcbPtr} (h : s.kcSwitch kc curr next = .ok s') :
    Wakeful s s' ∧ ¬ s'.Blocked s'.currentProcess := by
  obtain ⟨c, n, kstack, live, nextLive, -, rfl⟩ := kcSwitch_eq_ok h
  have awake : ¬ ((s.setPcb curr { c with kernelContext := kc }).setPcb next
      { n with state := .running }).Blocked next := by
    rintro ⟨b, found, state⟩
    rw [setPcb_heap, Function.update_self] at found
    obtain rfl := Option.some.inj found
    cases state
  refine ⟨⟨fun p asleep => ?_, Or.inr awake⟩, awake⟩
  have saved : Wakeful s (s.setPcb curr { c with kernelContext := kc }) := setPcb live id
  have switched : Wakeful s ((s.setPcb curr { c with kernelContext := kc }).setPcb next
      { n with state := .running }) := saved.trans (setPcb nextLive ProcState.noConfusion)
  exact switched.blocked p asleep

theorem dispatch (h : s.dispatch kc = .ok s') :
    Wakeful s s' ∧ ¬ s'.Blocked s'.currentProcess := by
  rcases dispatch_eq_ok h with ⟨next, rest, -, switched⟩ | ⟨-, switched⟩
  · obtain ⟨wakeful, awake⟩ := kcSwitch switched
    have popped : Wakeful s (s.setQueue .ready rest) := of_heap rfl rfl
    exact ⟨popped.trans wakeful, awake⟩
  · exact kcSwitch switched

/-! ### The clock and the terminals -/

theorem trapHandlerHelper (h : s.trapHandlerHelper env q = .ok s') : Wakeful s s' := by
  obtain ⟨b, live, ⟨-, rfl⟩ | ⟨-, rfl⟩ | ⟨-, rfl⟩⟩ := trapHandlerHelper_eq_ok h
  · exact refl _
  · exact setPcb live id
  · have readied : Wakeful s (s.setPcb q { b with delayTicks := 0, state := .ready }) :=
      setPcb live ProcState.noConfusion
    have removed : Wakeful s
        ((s.setPcb q { b with delayTicks := 0, state := .ready }).queueRemove .blocked q) :=
      readied.trans (of_heap rfl rfl)
    exact removed.trans (queueEnqueue env _ .ready q)

theorem iterateBlocked {blocked : List PcbPtr} (h : iterateBlocked env blocked s = .ok s') :
    Wakeful s s' := by
  induction blocked generalizing s with
  | nil =>
      cases h
      exact refl _
  | cons process rest inductionHypothesis =>
      simp only [Kernel.iterateBlocked, bind_eq_ok] at h
      obtain ⟨t, visited, h⟩ := h
      exact (trapHandlerHelper visited).trans (inductionHypothesis h)

theorem clockTrapHandler (h : s.clockTrapHandler env = .ok s') : Wakeful s s' := by
  obtain ⟨t, u, saved, iterated, tail⟩ := clockTrapHandler_eq_ok h
  have first : Wakeful s u := (saveContext saved).trans (iterateBlocked iterated)
  rcases tail with ⟨-, restored⟩ | ⟨next, rest, c, -, -, tail⟩
  · exact first.trans (restoreContext restored)
  · have popped : Wakeful s (u.setQueue .ready rest) := first.trans (of_heap rfl rfl)
    rcases tail with ⟨-, -, v, marked, switched⟩ | ⟨-, switched⟩
    · have requeued := (popped.trans (readied marked fun _ => rfl)).trans
        (queueEnqueue env v .ready s.currentProcess)
      exact requeued.trans (kcSwitch switched).1
    · exact popped.trans (kcSwitch switched).1

/-- A process is made ready and leaves the blocked queue. -/
theorem wakeUp {f : PCB → PCB} (h : s.modifyPcb q f = .ok t) (ready : ∀ b, (f b).state = .ready) :
    Wakeful s ((t.queueRemove .blocked q).queueEnqueue env .ready q) := by
  have removed : Wakeful s (t.queueRemove .blocked q) :=
    (readied h ready).trans (of_heap rfl rfl)
  exact removed.trans (queueEnqueue env _ .ready q)

theorem handOver {tty : TtyId} (handed : HandOver env s tty s') : Wakeful s s' := by
  cases handed with
  | free none => exact of_heap rfl rfl
  | @next _ rest _ writers woken =>
      have popped : Wakeful s (s.setQueue (.writers tty) rest) := of_heap rfl rfl
      exact popped.trans (wakeUp woken fun _ => rfl)

theorem ttyTrapTransmitHandler {tty : TtyId} (h : s.ttyTrapTransmitHandler env tty = .ok s') :
    Wakeful s s' := by
  have cleared : Wakeful s (clearWrite (s.log (.ttyTransmitTrap tty)) tty) := of_heap rfl rfl
  cases ttyTrapTransmitHandler_eq_ok h with
  | chunk left => exact of_heap rfl rfl
  | unowned through none handed => exact cleared.trans (handOver handed)
  | owned through some woken handed =>
      exact (cleared.trans (wakeUp woken fun _ => rfl)).trans (handOver handed)

theorem readyReader {r : PCB} (live : s.heap q = some b) : Wakeful s (readyReader env s q r) := by
  have marked : Wakeful s ((s.queueRemove .blocked q).setPcb q { r with state := .ready }) :=
    update live rfl rfl ProcState.noConfusion
  exact marked.trans (queueEnqueue env _ .ready q)

theorem serveReaders {tty : TtyId} {readers : List PcbPtr}
    (h : serveReaders env tty readers s = .ok s') : Wakeful s s' := by
  induction readers generalizing s with
  | nil =>
      cases h
      exact refl _
  | cons reader rest inductionHypothesis =>
      by_cases empty : (s.terminals tty).readBufferLen = 0
      · unfold Kernel.serveReaders at h
        rw [if_pos empty] at h
        cases h
        exact refl _
      · obtain ⟨r, live, outcome⟩ := serveReaders_cons empty h
        have unlinked : Wakeful s (unlinkReader env s tty reader rest) := of_heap rfl rfl
        have live' : (unlinkReader env s tty reader rest).heap reader = some r := live
        rcases outcome with ⟨-, h⟩ | ⟨-, h⟩
        · have parked : Wakeful s (parkBlock (unlinkReader env s tty reader rest) tty reader r
              (readAmount r (s.terminals tty))) := unlinked.trans (update live' rfl rfl id)
          exact (parked.trans (readyReader (Function.update_self ..))).trans (inductionHypothesis h)
        · have answered : Wakeful s ((unlinkReader env s tty reader rest).setPcb reader
              { r with userContext := r.userContext.setReturn 0 }) :=
            unlinked.trans (setPcb live' id)
          exact (answered.trans (readyReader (Function.update_self ..))).trans
            (inductionHypothesis h)

theorem ttyTrapReceiveHandler {tty : TtyId} {data : List Byte}
    (h : s.ttyTrapReceiveHandler env tty data = .ok s') : Wakeful s s' := by
  simp only [Kernel.ttyTrapReceiveHandler] at h
  refine Wakeful.trans ?_ (serveReaders h)
  exact of_heap rfl rfl

theorem unpackRead {tty : TtyId} {buf : Word} {len rc : Int}
    (h : s.unpackRead tty buf len rc = .ok s') : Wakeful s s' := by
  obtain ⟨c, -, ⟨block, t, u, -, -, stored, cleared, h⟩ | ⟨-, h⟩⟩ := unpackRead_eq_ok h
  · have copied : Wakeful s u := (storeUser stored).trans (modifyPcb cleared fun _ => id)
    have logged : Wakeful s (u.log (.ttyReadReturned s.currentProcess tty buf len rc)) :=
      copied.trans (of_heap rfl rfl)
    exact logged.trans (returnToUser h)
  · have logged : Wakeful s (s.log (.ttyReadReturned s.currentProcess tty buf len rc)) :=
      of_heap rfl rfl
    exact logged.trans (returnToUser h)

theorem finishTtyWrite {tty : Option TtyId} {rc : Int} (h : s.finishTtyWrite tty rc = .ok s') :
    Wakeful s s' := by
  rcases tty with _ | tty
  · exact returnToUser h
  · have logged : Wakeful s (s.log (.ttyWriteReturned s.currentProcess tty rc)) := of_heap rfl rfl
    exact logged.trans (returnToUser h)

/-! ### Exit and Wait -/

theorem wakeParent {parent : Option PcbPtr} (h : s.wakeParent env parent = .ok s') :
    Wakeful s s' := by
  rcases parent with _ | q
  · cases h
    exact refl s
  · simp only [Kernel.wakeParent, bind_eq_ok] at h
    obtain ⟨b, -, h⟩ := h
    split at h
    · simp only [bind_eq_ok, pure_eq_ok] at h
      obtain ⟨t, woken, rfl⟩ := h
      exact (readied woken fun _ => rfl).trans (queueEnqueue env t .ready q)
    · cases h
      exact refl s

theorem exit {status : Int} {origin : ExitOrigin} (h : s.exit env status origin = .ok s') :
    Wakeful s s' := by
  simp only [Kernel.exit, bind_eq_ok] at h
  obtain ⟨c, -, h⟩ := h
  split at h
  · simp only [bind_eq_ok] at h
    obtain ⟨-, -, h⟩ := h
    cases h
  · simp only [bind_eq_ok] at h
    obtain ⟨t, marked, u, woken, h⟩ := h
    have before := (queueEnqueue env s .zombie s.currentProcess).trans
      (modifyPcb marked fun _ => ProcState.noConfusion)
    have logged : Wakeful s (t.log (.exited s.currentProcess status)) :=
      before.trans (of_heap rfl rfl)
    exact (logged.trans (wakeParent woken)).trans (dispatch h).1

theorem orphanChildren {children : List PcbPtr} (h : orphanChildren children s = .ok s') :
    Wakeful s s' := by
  induction children generalizing s with
  | nil =>
      cases h
      exact refl _
  | cons child rest inductionHypothesis =>
      simp only [Kernel.orphanChildren, bind_eq_ok] at h
      obtain ⟨t, orphaned, h⟩ := h
      exact (modifyPcb orphaned fun _ => ProcState.noConfusion).trans (inductionHypothesis h)

theorem deletePCB (h : s.deletePCB q = .ok s') : Wakeful s s' := by
  simp only [Kernel.deletePCB, bind_eq_ok, pure_eq_ok] at h
  obtain ⟨-, -, t, orphaned, rfl⟩ := h
  refine (orphanChildren orphaned).trans ⟨fun p asleep => ?_, Or.inl rfl⟩
  obtain ⟨b, live, state⟩ := asleep
  by_cases here : p = q
  · simp [here] at live
  · exact ⟨b, by simpa [here] using live, state⟩

theorem waitScan {statusPtr : Word} {result : Option Int × Kernel}
    (h : s.waitScan statusPtr = .ok result) : Wakeful s result.2 := by
  simp only [Kernel.waitScan, bind_eq_ok] at h
  obtain ⟨c, -, found, -, h⟩ := h
  rcases found with _ | z
  · cases h
    exact refl _
  · simp only [bind_eq_ok, pure_eq_ok] at h
    obtain ⟨⟨pid, t⟩, reaped, rfl⟩ := h
    obtain ⟨b, u, -, -, stored, deleted⟩ := reap_eq_ok reaped
    have written : Wakeful s u := by
      rcases stored with ⟨-, stored⟩ | ⟨-, rfl⟩
      · exact storeUser stored
      · exact refl _
    have unlinked : Wakeful s
        ((u.queueRemove (.children u.currentProcess) z).queueRemove .zombie z) :=
      written.trans (of_heap rfl rfl)
    exact unlinked.trans (deletePCB deleted)

theorem finishWait {statusPtr : Word} {rc : Int} (h : s.finishWait statusPtr rc = .ok s') :
    Wakeful s s' := by
  have logged : Wakeful s (s.log (.waitReturned s.currentProcess statusPtr rc)) := of_heap rfl rfl
  exact logged.trans (returnToUser h)

/-! ### Fork, Brk and Exec -/

/-- A forked child is ready. -/
theorem fork (other : s.currentProcess ≠ s.nextPcb) (h : s.fork env = .ok (.success, s')) :
    Wakeful s s' := by
  obtain ⟨i, d, m, pt, m', pages, stack, -, live, -, -, -, isForked⟩ := fork_eq_ok other h
  refine ⟨fun p asleep => ?_, Or.inl (by simp [isForked])⟩
  obtain ⟨b, found, state⟩ := asleep
  rw [isForked] at found
  by_cases current : p = s.currentProcess
  · subst current
    rw [setPcb_heap, Function.update_self] at found
    obtain rfl := Option.some.inj found
    exact ⟨d, live, state⟩
  · by_cases newborn : p = s.nextPcb
    · simp only [setPcb_heap, newborn] at found
      simp [Ne.symm other] at found
      subst found
      cases state
    · refine ⟨b, ?_, state⟩
      simpa [current, newborn] using found

theorem forkReturn {child parent : PcbPtr} (h : s.forkReturn env child parent = .ok s') :
    Wakeful s s' := by
  simp only [Kernel.forkReturn, bind_eq_ok] at h
  obtain ⟨c, -, d, -, h⟩ := h
  split at h
  · simp only [bind_eq_ok] at h
    obtain ⟨t, marked, e, -, h⟩ := h
    have queued := ((readied marked fun _ => rfl).trans (queueEnqueue env t .ready child)).trans
      (queueEnqueue env _ (.children parent) child)
    refine (queued.trans ?_).trans (modifyPcb h fun _ => id)
    exact of_heap rfl rfl
  · exact modifyPcb h fun _ => id

theorem brk {addr : Word} {status : Status} (h : s.brk env addr = .ok (status, s')) :
    Wakeful s s' := by
  rcases brk_eq_ok h with ⟨-, rfl⟩ | ⟨-, c, m, pt, live, ⟨-, rfl⟩ | ⟨-, rfl⟩⟩
  · exact refl _
  · have mapped : Wakeful s (s.setMem m) := of_heap rfl rfl
    exact mapped.trans (setPcb (s := s.setMem m) live id)
  · have mapped : Wakeful s (s.setMem m) := of_heap rfl rfl
    exact mapped.trans (setPcb (s := s.setMem m) live id)

theorem growStack {addr : Word} {status : Status} (h : s.growStack addr = .ok (status, s')) :
    Wakeful s s' := by
  obtain ⟨c, m, pt, live, -, ⟨-, rfl⟩ | ⟨-, rfl⟩⟩ := growStack_eq_ok h
  · have mapped : Wakeful s (s.setMem m) := of_heap rfl rfl
    exact mapped.trans (setPcb (s := s.setMem m) live id)
  · have mapped : Wakeful s (s.setMem m) := of_heap rfl rfl
    exact mapped.trans (setPcb (s := s.setMem m) live id)

theorem loadProgram {req : LoadRequest} {argv : ArgVector} {status : Status}
    (h : s.loadProgram env req argv q = .ok (status, s')) : Wakeful s s' := by
  have counted : Wakeful s (s.malloc env).2 := of_heap rfl rfl
  obtain ⟨b, live, ⟨-, rfl, -⟩ | ⟨li, args, plan, -, -, -, loaded⟩⟩ := loadProgram_eq_ok h
  · exact refl _
  · rcases loaded with ⟨-, -, rfl⟩ | ⟨-, m, b', image, rfl⟩
    · exact counted.trans (setPcb (s := (s.malloc env).2) live id)
    · obtain ⟨pt, context, heapStart, heapEnd, stackBase, rfl⟩ := loadImage_pcb image
      have mapped : Wakeful s ((s.malloc env).2.setMem m) := counted.trans (of_heap rfl rfl)
      exact mapped.trans (setPcb (s := (s.malloc env).2.setMem m) live id)

theorem exec {req : LoadRequest} {argv : Word} {rc : Int} (h : s.exec env req argv = .ok (rc, s')) :
    Wakeful s s' := by
  simp only [Kernel.exec, bind_eq_ok] at h
  obtain ⟨⟨status, t⟩, loaded, h⟩ := h
  split at h
  · cases h
    exact loadProgram loaded
  · cases h
    exact loadProgram loaded

theorem memoryTrapHandler (h : s.memoryTrapHandler env = .ok s') : Wakeful s s' := by
  simp only [Kernel.memoryTrapHandler, bind_eq_ok] at h
  obtain ⟨c, -, h⟩ := h
  rcases action : memoryTrapAction c s.ctx with _ | _ | _
  · simp only [action, bind_eq_ok] at h
    obtain ⟨⟨status, t⟩, grown, h⟩ := h
    split at h
    · exact (growStack grown).trans (exit h)
    · cases h
      exact growStack grown
  · simp only [action] at h
    exact exit h
  · simp only [action] at h
    cases h
    exact refl _

/-! ### Boot -/

theorem getFreePCB {slot : Option PcbPtr} (h : s.getFreePCB env = .ok (slot, s')) :
    Wakeful s s' := by
  rcases getFreePCB_eq_ok h with ⟨-, rfl⟩ | ⟨i, -, -, rfl⟩
  · exact refl _
  · refine ⟨fun p asleep => ?_, Or.inl rfl⟩
    obtain ⟨b, live, state⟩ := asleep
    by_cases newborn : p = s.nextPcb
    · subst newborn
      simp at live
      subst live
      cases state
    · exact ⟨b, by simpa [newborn] using live, state⟩

theorem initializeKernelStackProcess {kstack : Option PageTable}
    (h : s.initializeKernelStackProcess env = .ok (kstack, s')) : Wakeful s s' := by
  rcases initializeKernelStackProcess_eq_ok h with ⟨-, rfl⟩ | ⟨m, pages, -, -, rfl⟩
  · exact of_heap rfl rfl
  · exact of_heap rfl rfl

theorem kcCopy {new : PcbPtr} (h : s.kcCopy env kc new = .ok s') : Wakeful s s' := by
  simp only [Kernel.kcCopy, bind_eq_ok] at h
  obtain ⟨t, saved, n, -, h⟩ := h
  have first : Wakeful s t := modifyPcb saved fun _ => id
  rcases stack : n.kstack with _ | pages
  · simp only [stack, bind_eq_ok, pure_eq_ok] at h
    obtain ⟨⟨kstack, u⟩, made, v, written, _, rfl, c, -, h⟩ := h
    have second := first.trans (initializeKernelStackProcess made)
    split at h
    · cases h
      refine (second.trans (modifyPcb written fun _ => id)).trans ?_
      exact of_heap rfl rfl
    · cases h
  · simp only [stack, bind_eq_ok, pure_eq_ok] at h
    obtain ⟨_, rfl, c, -, h⟩ := h
    split at h
    · cases h
      exact first.trans (of_heap rfl rfl)
    · cases h

theorem createIdlePCB {cfg : BootConfig} (h : s.createIdlePCB env cfg = .ok (q, s')) :
    Wakeful s s' := by
  simp only [Kernel.createIdlePCB, bind_eq_ok] at h
  obtain ⟨⟨slot, t⟩, found, h⟩ := h
  rcases slot with _ | idle
  · cases h
  · simp only [bind_eq_ok] at h
    obtain ⟨u, mapped, h⟩ := h
    have first : Wakeful s u := by
      refine (getFreePCB found).trans (Wakeful.trans ?_ (modifyPcb mapped fun _ => id))
      rcases t.mem.allocFrame .user with _ | ⟨pfn, m⟩
      · exact refl t
      · exact of_heap rfl rfl
    split_ifs at h with failed
    simp only [bind_eq_ok, pure_eq_ok] at h
    obtain ⟨⟨m, kstack⟩, -, v, prepared, h⟩ := h
    cases h
    have counted : Wakeful u ((u.malloc env).2.setMem m) := of_heap rfl rfl
    exact (first.trans counted).trans (modifyPcb prepared fun _ => ProcState.noConfusion)

theorem createInitPCB {cfg : BootConfig} (h : s.createInitPCB env cfg = .ok (q, s')) :
    Wakeful s s' := by
  simp only [Kernel.createInitPCB, bind_eq_ok] at h
  obtain ⟨⟨slot, t⟩, found, h⟩ := h
  rcases slot with _ | init
  · cases h
  · simp only [bind_eq_ok] at h
    obtain ⟨⟨kstack, u⟩, stacked, v, prepared, ⟨status, w⟩, loaded, h⟩ := h
    split_ifs at h with failed
    cases h
    have first := (getFreePCB found).trans (initializeKernelStackProcess stacked)
    have inForce : Wakeful v { v with ptbr1 := q } := of_heap rfl rfl
    exact ((first.trans (modifyPcb prepared fun _ => id)).trans inForce).trans (loadProgram loaded)

end Wakeful

/-- The kernel starts with no process that is blocked. -/
theorem nobody_blocked_boot {cfg : BootConfig} (started : kernelStart env cfg = .ok s) :
    ¬ s.Blocked p := by
  simp only [kernelStart, bind_eq_ok] at started
  obtain ⟨⟨idle, a⟩, idleMade, t, restored, ⟨init, c⟩, initMade, d, copied, returned⟩ := started
  have second : Wakeful t c := Wakeful.createInitPCB initMade
  have back : Wakeful c { c with ptbr1 := idle } := .of_heap rfl rfl
  have queued := (second.trans back).trans (.queueEnqueue env _ .ready init)
  have later := (queued.trans (.kcCopy copied)).trans (.restoreContext returned)
  intro asleep
  have idling : a.Blocked p := (Wakeful.restoreContext restored).blocked p (later.blocked p asleep)
  obtain ⟨b, live, -⟩ := (Wakeful.createIdlePCB idleMade).blocked p idling
  cases live

end Yalnix.Kernel
