/-
Module: Yalnix.Proofs.StepRule
Purpose: One rule for relations between the states before and after: what holds of the elementary
  changes of a state holds of every handler, and of every step whose operations on frames keep to
  it as well.
Trusted boundary: none
Main exports: Kernel.StepRule, Kernel.FrameSteps, StepRule.deliver
-/
import Yalnix.Proofs.HeapStack
import Yalnix.Proofs.Simulation

namespace Yalnix.Kernel

variable {env : Env} {s s' t u : Kernel} {p q : PcbPtr} {b b' : PCB} {req : LoadRequest}
  {stores : PcbPtr → Prop} {R : Kernel → Kernel → Prop}

/-- A relation that the elementary changes keep to.  The kernel writes user memory through the
tables of the processes that `stores` names. -/
structure StepRule (stores : PcbPtr → Prop) (R : Kernel → Kernel → Prop) : Prop where
  trans : ∀ {s t u}, R s t → R t u → R s u
  /-- Queues, terminals, registers, the history and the counts of the libraries change. -/
  same : ∀ {s s' : Kernel}, s'.heap = s.heap → s'.nextPcb = s.nextPcb → s'.mem = s.mem →
    s'.currentProcess = s.currentProcess → R s s'
  /-- A PCB is written, but not its memory. -/
  setPcb : ∀ {s q b b'}, s.heap q = some b → b'.region1 = b.region1 → b'.kstack = b.kstack →
    R s (s.setPcb q b')
  kcSwitch : ∀ {s s' : Kernel} {kc curr next}, s.kcSwitch kc curr next = .ok s' → R s s'
  storeUser : ∀ {s s' : Kernel} {va bytes}, stores s.ptbr1 → s.storeUser va bytes = .ok s' → R s s'

namespace StepRule

/-! ### Elementary changes -/

theorem refl (rule : StepRule stores R) (s : Kernel) : R s s := rule.same rfl rfl rfl rfl

theorem modifyPcb (rule : StepRule stores R) {f : PCB → PCB} (h : s.modifyPcb q f = .ok s')
    (same : ∀ b, (f b).region1 = b.region1 ∧ (f b).kstack = b.kstack) : R s s' := by
  obtain ⟨b, live, rfl⟩ := modifyPcb_eq_ok.mp h
  exact rule.setPcb live (same b).1 (same b).2

/-- A state that differs in one PCB, and in nothing that concerns memory. -/
theorem update (rule : StepRule stores R) (live : s.heap q = some b)
    (heap : s'.heap = Function.update s.heap q (some b')) (next : s'.nextPcb = s.nextPcb)
    (mem : s'.mem = s.mem) (current : s'.currentProcess = s.currentProcess)
    (region : b'.region1 = b.region1) (stack : b'.kstack = b.kstack) : R s s' := by
  have wrote : R s (s.setPcb q b') := rule.setPcb live region stack
  exact rule.trans wrote (rule.same heap next mem current)

theorem log (rule : StepRule stores R) (s : Kernel) (e : Event) : R s (s.log e) :=
  rule.same rfl rfl rfl rfl

theorem setQueue (rule : StepRule stores R) (s : Kernel) (queue : QueueId)
    (entries : List PcbPtr) : R s (s.setQueue queue entries) := rule.same rfl rfl rfl rfl

theorem setTerminal (rule : StepRule stores R) (s : Kernel) (tty : TtyId) (terminal : Terminal) :
    R s (s.setTerminal tty terminal) := rule.same rfl rfl rfl rfl

theorem queueEnqueue (rule : StepRule stores R) (s : Kernel) (env : Env) (queue : QueueId)
    (q : PcbPtr) : R s (s.queueEnqueue env queue q) :=
  rule.same (queueEnqueue_heap _ _) (by rw [queueEnqueue_eq]) (queueEnqueue_mem _ _)
    (queueEnqueue_currentProcess _ _)

theorem saveContext (rule : StepRule stores R) (h : s.saveContext = .ok s') : R s s' :=
  rule.modifyPcb h fun _ => ⟨rfl, rfl⟩

theorem restoreContext (rule : StepRule stores R) (h : s.restoreContext = .ok s') : R s s' := by
  obtain ⟨b, -, rfl⟩ := restoreContext_eq_ok.mp h
  exact rule.same rfl rfl rfl rfl

theorem returnToUser (rule : StepRule stores R) {rc : Int} (h : s.returnToUser rc = .ok s') :
    R s s' := by
  obtain ⟨b, -, rfl⟩ := returnToUser_eq_ok.mp h
  exact rule.same rfl rfl rfl rfl

theorem dispatch (rule : StepRule stores R) {kc : KernelContext} (h : s.dispatch kc = .ok s') :
    R s s' := by
  rcases dispatch_eq_ok h with ⟨next, rest, -, switched⟩ | ⟨-, switched⟩
  · exact rule.trans (rule.setQueue s .ready rest) (rule.kcSwitch switched)
  · exact rule.kcSwitch switched

/-! ### The clock -/

theorem trapHandlerHelper (rule : StepRule stores R) (h : s.trapHandlerHelper env q = .ok s') :
    R s s' := by
  obtain ⟨b, live, ⟨-, rfl⟩ | ⟨-, rfl⟩ | ⟨-, rfl⟩⟩ := trapHandlerHelper_eq_ok h
  · exact rule.refl _
  · exact rule.setPcb live rfl rfl
  · have readied : R s (s.setPcb q { b with delayTicks := 0, state := .ready }) :=
      rule.setPcb live rfl rfl
    exact rule.trans (rule.trans readied (rule.setQueue _ _ _)) (rule.queueEnqueue _ env .ready q)

theorem iterateBlocked (rule : StepRule stores R) {blocked : List PcbPtr}
    (h : iterateBlocked env blocked s = .ok s') : R s s' := by
  induction blocked generalizing s with
  | nil =>
      cases h
      exact rule.refl _
  | cons process rest inductionHypothesis =>
      simp only [Kernel.iterateBlocked, bind_eq_ok] at h
      obtain ⟨t, visited, h⟩ := h
      exact rule.trans (rule.trapHandlerHelper visited) (inductionHypothesis h)

theorem clockTrapHandler (rule : StepRule stores R) (h : s.clockTrapHandler env = .ok s') :
    R s s' := by
  obtain ⟨t, u, saved, iterated, tail⟩ := clockTrapHandler_eq_ok h
  have first : R s u := rule.trans (rule.saveContext saved) (rule.iterateBlocked iterated)
  rcases tail with ⟨-, restored⟩ | ⟨next, rest, c, -, -, tail⟩
  · exact rule.trans first (rule.restoreContext restored)
  · have popped := rule.trans first (rule.setQueue u .ready rest)
    rcases tail with ⟨-, -, v, readied, switched⟩ | ⟨-, switched⟩
    · have requeued := rule.trans (rule.trans popped (rule.modifyPcb readied fun _ => ⟨rfl, rfl⟩))
        (rule.queueEnqueue v env .ready s.currentProcess)
      exact rule.trans requeued (rule.kcSwitch switched)
    · exact rule.trans popped (rule.kcSwitch switched)

/-! ### Terminals -/

/-- A process is taken out of the blocked queue and made ready. -/
theorem readied (rule : StepRule stores R) {f : PCB → PCB} (h : s.modifyPcb q f = .ok t)
    (same : ∀ b, (f b).region1 = b.region1 ∧ (f b).kstack = b.kstack) :
    R s ((t.queueRemove .blocked q).queueEnqueue env .ready q) :=
  rule.trans (rule.trans (rule.modifyPcb h same) (rule.setQueue _ _ _))
    (rule.queueEnqueue _ env .ready q)

theorem handOver (rule : StepRule stores R) {tty : TtyId} (handed : HandOver env s tty s') :
    R s s' := by
  cases handed with
  | free none => exact rule.setTerminal _ _ _
  | next writers woken =>
      exact rule.trans (rule.setQueue _ _ _) (rule.readied woken fun _ => ⟨rfl, rfl⟩)

theorem ttyTrapTransmitHandler (rule : StepRule stores R) {tty : TtyId}
    (h : s.ttyTrapTransmitHandler env tty = .ok s') : R s s' := by
  apply rule.trans (rule.log s (.ttyTransmitTrap tty))
  cases ttyTrapTransmitHandler_eq_ok h with
  | chunk left => exact rule.trans (rule.log _ _) (rule.setTerminal _ _ _)
  | unowned through none handed => exact rule.trans (rule.setTerminal _ _ _) (rule.handOver handed)
  | owned through some woken handed =>
      exact rule.trans (rule.trans (rule.setTerminal _ _ _)
        (rule.readied woken fun _ => ⟨rfl, rfl⟩)) (rule.handOver handed)

theorem serveReaders (rule : StepRule stores R) {tty : TtyId} {readers : List PcbPtr}
    (h : serveReaders env tty readers s = .ok s') : R s s' := by
  induction readers generalizing s with
  | nil =>
      cases h
      exact rule.refl _
  | cons reader rest inductionHypothesis =>
      by_cases empty : (s.terminals tty).readBufferLen = 0
      · unfold Kernel.serveReaders at h
        rw [if_pos empty] at h
        cases h
        exact rule.refl _
      · obtain ⟨r, live, outcome⟩ := serveReaders_cons empty h
        have unlinked : R s (unlinkReader env s tty reader rest) := rule.same rfl rfl rfl rfl
        have live' : (unlinkReader env s tty reader rest).heap reader = some r := live
        -- the PCB is written, then written again as the reader is made ready
        have ready {v : Kernel} {c c' : PCB} (here : v.heap reader = some c)
            (region : c'.region1 = c.region1) (stack : c'.kstack = c.kstack) :
            R v (readyReader env v reader c') :=
          rule.update here (queueEnqueue_heap _ _) (by rw [readyReader, queueEnqueue_eq]; rfl)
            (queueEnqueue_mem _ _) (queueEnqueue_currentProcess _ _) region stack
        rcases outcome with ⟨-, h⟩ | ⟨-, h⟩
        · have parked : R (unlinkReader env s tty reader rest)
              (parkBlock (unlinkReader env s tty reader rest) tty reader r
                (readAmount r (s.terminals tty))) := rule.update live' rfl rfl rfl rfl rfl rfl
          refine rule.trans (rule.trans (rule.trans unlinked parked) ?_) (inductionHypothesis h)
          exact ready (Function.update_self ..) rfl rfl
        · have answered : R (unlinkReader env s tty reader rest)
              ((unlinkReader env s tty reader rest).setPcb reader
                { r with userContext := r.userContext.setReturn 0 }) := rule.setPcb live' rfl rfl
          refine rule.trans (rule.trans (rule.trans unlinked answered) ?_) (inductionHypothesis h)
          exact ready (Function.update_self ..) rfl rfl

theorem ttyTrapReceiveHandler (rule : StepRule stores R) {tty : TtyId} {data : List Byte}
    (h : s.ttyTrapReceiveHandler env tty data = .ok s') : R s s' := by
  unfold Kernel.ttyTrapReceiveHandler at h
  exact rule.trans (rule.trans (rule.log _ _) (rule.setTerminal _ _ _)) (rule.serveReaders h)

theorem ttyReadValid (rule : StepRule stores R) {tty : TtyId} {buf : Word} {len : Nat}
    {result : Option Int × Kernel} (h : s.ttyReadValid env tty buf len = .ok result) :
    R s result.2 := by
  rcases ttyReadValid_eq_ok h with ⟨-, -, rfl⟩ | ⟨-, -, n, b, -, live, rfl⟩ |
    ⟨-, t, u, parked, switched, rfl⟩
  · exact rule.same rfl rfl rfl rfl
  · exact rule.update live rfl rfl rfl rfl rfl rfl
  · have queued := rule.trans (rule.trans (rule.trans (rule.log s _)
      (rule.queueEnqueue _ env (.readers tty) s.currentProcess))
      (rule.queueEnqueue _ env .blocked s.currentProcess))
      (rule.modifyPcb parked fun _ => ⟨rfl, rfl⟩)
    exact rule.trans queued (rule.dispatch switched)

theorem ttyRead (rule : StepRule stores R) {ttyId len : Int} {buf : Word}
    {result : Option Int × Kernel} (h : s.ttyRead env ttyId buf len = .ok result) :
    R s result.2 := by
  unfold Kernel.ttyRead at h
  split at h
  · cases h
    exact rule.refl _
  · exact rule.ttyReadValid h

/-- A read that returns at once leaves the table in force. -/
theorem ttyRead_ptbr1 {ttyId len : Int} {buf : Word} {rc : Int}
    (h : s.ttyRead env ttyId buf len = .ok (some rc, u)) : u.ptbr1 = s.ptbr1 := by
  unfold Kernel.ttyRead at h
  split at h
  · cases h
    rfl
  · rcases ttyReadValid_eq_ok h with ⟨-, -, same⟩ | ⟨-, -, n, b, -, -, same⟩ | ⟨-, _, _, -, -, same⟩
    · cases same
      rfl
    · cases same
      rfl
    · cases same

theorem ttyWriteLocked (rule : StepRule stores R) {tty : TtyId} {buf : Word} {len : Nat}
    {result : Option Int × Kernel} (h : s.ttyWriteLocked env tty buf len = .ok result) :
    R s result.2 := by
  obtain ⟨b, live, outcome⟩ := ttyWriteLocked_eq_ok h
  have refused : R s (s.refuseWrite env tty b) := rule.update live rfl rfl rfl rfl rfl rfl
  rcases outcome with ⟨-, -, rfl⟩ | ⟨-, next, rest, t, -, readied, rfl⟩ |
    ⟨-, bytes, u, -, switched, rfl⟩
  · exact refused
  · have popped := rule.trans refused (rule.setQueue _ (.writers tty) rest)
    exact rule.trans (rule.trans popped (rule.modifyPcb readied fun _ => ⟨rfl, rfl⟩))
      (rule.queueEnqueue t env .ready next)
  · have begun : R s (s.beginWrite env tty bytes len b) :=
      rule.update live (queueEnqueue_heap _ _) (by rw [beginWrite, queueEnqueue_eq]; rfl)
        (queueEnqueue_mem _ _) (queueEnqueue_currentProcess _ _) rfl rfl
    exact rule.trans begun (rule.dispatch switched)

theorem ttyWrite (rule : StepRule stores R) {ttyId len : Int} {buf : Word}
    {result : Option Int × Kernel} (h : s.ttyWrite env ttyId buf len = .ok result) :
    R s result.2 := by
  unfold Kernel.ttyWrite at h
  split at h
  · cases h
    exact rule.refl _
  · unfold Kernel.ttyWriteValid at h
    simp only at h
    split at h
    · simp only [bind_eq_ok, pure_eq_ok] at h
      obtain ⟨t, blocked, u, switched, rfl⟩ := h
      have queued := rule.trans (rule.trans (rule.log s _) (rule.queueEnqueue _ env _ _))
        (rule.modifyPcb blocked fun _ => ⟨rfl, rfl⟩)
      exact rule.trans (rule.trans queued (rule.queueEnqueue t env .blocked s.currentProcess))
        (rule.dispatch switched)
    · exact rule.trans (rule.log s _) (rule.ttyWriteLocked h)

theorem unpackRead (rule : StepRule stores R) {tty : TtyId} {buf : Word} {len rc : Int}
    (own : stores s.ptbr1) (h : s.unpackRead tty buf len rc = .ok s') : R s s' := by
  obtain ⟨c, -, ⟨block, t, u, -, -, stored, cleared, h⟩ | ⟨-, h⟩⟩ := unpackRead_eq_ok h
  · have copied : R s u :=
      rule.trans (rule.storeUser own stored) (rule.modifyPcb cleared fun _ => ⟨rfl, rfl⟩)
    exact rule.trans (rule.trans copied (rule.log _ _)) (rule.returnToUser h)
  · exact rule.trans (rule.log _ _) (rule.returnToUser h)

theorem finishTtyWrite (rule : StepRule stores R) {tty : Option TtyId} {rc : Int}
    (h : s.finishTtyWrite tty rc = .ok s') : R s s' := by
  rcases tty with _ | tty
  · exact rule.returnToUser h
  · exact rule.trans (rule.log _ _) (rule.returnToUser h)

theorem finishWait (rule : StepRule stores R) {statusPtr : Word} {rc : Int}
    (h : s.finishWait statusPtr rc = .ok s') : R s s' :=
  rule.trans (rule.log _ _) (rule.returnToUser h)

/-- What is left of a call. -/
theorem finish (rule : StepRule stores R) {result : Option Int × Kernel}
    {done : Int → Kernel → Except Stop Kernel}
    (returned : ∀ rc u v, result = (some rc, u) → done rc u = .ok v → R u v)
    (h : finish result done = .ok s') : R result.2 s' := by
  rcases result with ⟨_ | rc, u⟩
  · cases h
    exact rule.refl _
  · exact returned rc u s' rfl h

/-! ### Processes -/

theorem delay (rule : StepRule stores R) {ticks : Int} {result : Option Int × Kernel}
    (h : s.delay env ticks = .ok result) : R s result.2 := by
  unfold Kernel.delay at h
  split at h
  · cases h
    exact rule.refl _
  · split at h
    · cases h
      exact rule.refl _
    · simp only [bind_eq_ok, pure_eq_ok] at h
      obtain ⟨u, blocked, v, switched, rfl⟩ := h
      exact rule.trans (rule.trans (rule.modifyPcb blocked fun _ => ⟨rfl, rfl⟩)
        (rule.queueEnqueue u env .blocked s.currentProcess)) (rule.dispatch switched)

theorem wakeParent (rule : StepRule stores R) {parent : Option PcbPtr}
    (h : s.wakeParent env parent = .ok s') : R s s' := by
  rcases parent with _ | q
  · cases h
    exact rule.refl s
  · simp only [Kernel.wakeParent, bind_eq_ok] at h
    obtain ⟨b, -, h⟩ := h
    split at h
    · simp only [bind_eq_ok, pure_eq_ok] at h
      obtain ⟨t, readied, rfl⟩ := h
      exact rule.trans (rule.modifyPcb readied fun _ => ⟨rfl, rfl⟩)
        (rule.queueEnqueue t env .ready q)
    · cases h
      exact rule.refl s

theorem exit (rule : StepRule stores R) {code : Int} {origin : ExitOrigin}
    (h : s.exit env code origin = .ok s') : R s s' := by
  simp only [Kernel.exit, bind_eq_ok, deref_eq_ok] at h
  obtain ⟨c, -, h⟩ := h
  split at h
  · simp only [bind_eq_ok] at h
    obtain ⟨_, -, h⟩ := h
    cases h
  · simp only [bind_eq_ok] at h
    obtain ⟨t, marked, u, woken, h⟩ := h
    have before := rule.trans (rule.queueEnqueue s env .zombie s.currentProcess)
      (rule.modifyPcb marked fun _ => ⟨rfl, rfl⟩)
    exact rule.trans (rule.trans (rule.trans before (rule.log _ _)) (rule.wakeParent woken))
      (rule.dispatch h)

theorem orphanChildren (rule : StepRule stores R) {children : List PcbPtr}
    (h : orphanChildren children s = .ok s') : R s s' := by
  induction children generalizing s with
  | nil =>
      cases h
      exact rule.refl _
  | cons child rest inductionHypothesis =>
      simp only [Kernel.orphanChildren, bind_eq_ok] at h
      obtain ⟨t, orphaned, h⟩ := h
      exact rule.trans (rule.modifyPcb orphaned fun _ => ⟨rfl, rfl⟩) (inductionHypothesis h)

/-- A scan of `Wait` deletes the zombie that it finds. -/
theorem waitScan (rule : StepRule stores R) {statusPtr : Word} {result : Option Int × Kernel}
    (own : stores s.ptbr1)
    (deletes : ∀ z t u, s.ScanFinds z → t.deletePCB z = .ok u → R t u)
    (h : s.waitScan statusPtr = .ok result) : R s result.2 := by
  simp only [Kernel.waitScan, bind_eq_ok, deref_eq_ok] at h
  obtain ⟨c, live, found, scanned, h⟩ := h
  rcases found with _ | z
  · cases h
    exact rule.refl _
  · simp only [bind_eq_ok, pure_eq_ok] at h
    obtain ⟨⟨pid, t⟩, reaped, rfl⟩ := h
    obtain ⟨b, u, -, -, stored, deleted⟩ := reap_eq_ok reaped
    have written : R s u := by
      rcases stored with ⟨-, stored⟩ | ⟨-, rfl⟩
      · exact rule.storeUser own stored
      · exact rule.refl _
    have unlinked : R u ((u.queueRemove (.children u.currentProcess) z).queueRemove .zombie z) :=
      rule.same rfl rfl rfl rfl
    exact rule.trans (rule.trans written unlinked) (deletes z _ _ ⟨c, live, scanned⟩ deleted)

theorem wait (rule : StepRule stores R) {statusPtr : Word} {result : Option Int × Kernel}
    (own : stores s.ptbr1)
    (deletes : s.queues (.children s.currentProcess) ≠ [] → ∀ z t u, s.ScanFinds z →
      t.deletePCB z = .ok u → R t u) (h : s.wait statusPtr = .ok result) : R s result.2 := by
  simp only [Kernel.wait] at h
  by_cases childless : s.isEmpty (.children s.currentProcess) = true
  · rw [if_pos childless] at h
    cases h
    exact rule.refl _
  · rw [if_neg childless, bind_eq_ok] at h
    obtain ⟨⟨found, t⟩, scanned, h⟩ := h
    have children : s.queues (.children s.currentProcess) ≠ [] := by
      intro empty
      rw [isEmpty, empty] at childless
      exact childless rfl
    have first : R s t := rule.waitScan own (deletes children) scanned
    rcases found with _ | pid
    · simp only [bind_eq_ok, pure_eq_ok] at h
      obtain ⟨u, blocked, v, switched, rfl⟩ := h
      exact rule.trans (rule.trans first (rule.modifyPcb blocked fun _ => ⟨rfl, rfl⟩))
        (rule.dispatch switched)
    · cases h
      exact first

theorem waitResumed (rule : StepRule stores R) {statusPtr : Word} {result : Int × Kernel}
    (own : stores s.ptbr1)
    (deletes : ∀ z t u, s.ScanFinds z → t.deletePCB z = .ok u → R t u)
    (h : s.waitResumed statusPtr = .ok result) : R s result.2 := by
  simp only [Kernel.waitResumed, bind_eq_ok] at h
  obtain ⟨⟨found, t⟩, scanned, h⟩ := h
  have first : R s t := rule.waitScan own deletes scanned
  rcases found with _ | pid
  · cases h
    exact first
  · cases h
    exact first

theorem forkReturn (rule : StepRule stores R) {child parent : PcbPtr}
    (h : s.forkReturn env child parent = .ok s') : R s s' := by
  simp only [Kernel.forkReturn, bind_eq_ok, deref_eq_ok] at h
  obtain ⟨c, -, p, -, h⟩ := h
  split at h
  · simp only [bind_eq_ok, deref_eq_ok] at h
    obtain ⟨t, readied, d, -, h⟩ := h
    have queued := rule.trans (rule.trans (rule.modifyPcb readied fun _ => ⟨rfl, rfl⟩)
      (rule.queueEnqueue t env .ready child)) (rule.queueEnqueue _ env (.children parent) child)
    exact rule.trans (rule.trans queued (rule.log _ _)) (rule.modifyPcb h fun _ => ⟨rfl, rfl⟩)
  · exact rule.modifyPcb h fun _ => ⟨rfl, rfl⟩

end StepRule

/-! ### Steps -/

/-- The operations of a step that take, give back or hand on frames keep to the relation. -/
structure FrameSteps (R : Kernel → Kernel → Prop) (env : Env) (s : Kernel) (i : Input) : Prop where
  fork : ∀ ctx req t status u, i = .kernelTrap ctx req → (s.trap ctx).saveContext = .ok t →
    t.fork env = .ok (status, u) → R t u
  brk : ∀ ctx req t status u, i = .kernelTrap ctx req → ctx.code = yalnixBrk →
    (s.trap ctx).saveContext = .ok t → t.brk env (ctx.regs 0) = .ok (status, u) → R t u
  exec : ∀ ctx req t rc u, i = .kernelTrap ctx req → ctx.code = yalnixExec →
    (s.trap ctx).saveContext = .ok t → t.exec env req (ctx.regs 1) = .ok (rc, u) →
    R t u
  grow : ∀ ctx c status t, i = .memoryTrap ctx → s.heap s.currentProcess = some c →
    memoryTrapAction c ctx = .grow → (s.trap ctx).growStack ctx.addr = .ok (status, t) →
    R (s.trap ctx) t
  reap : ∀ z t u, s.Reaps z i → t.deletePCB z = .ok u → R t u
  heap : ∀ addr, i = .kernelBrk addr → R s (s.setMem (s.mem.setKernelBrk addr).2)

namespace StepRule

theorem kernelTrapHandler (rule : StepRule stores R) {ctx : UserContext} (own : stores s.ptbr1)
    (steps : FrameSteps R env s (.kernelTrap ctx req))
    (h : (s.trap ctx).kernelTrapHandler env req = .ok s') : R (s.trap ctx) s' := by
  cases kernelTrapHandler_eq_ok h with
  | delay _ ran =>
      simp only [trapDelay, bind_eq_ok] at ran
      obtain ⟨t, saved, result, called, ran⟩ := ran
      refine rule.trans (rule.trans (rule.saveContext saved) (rule.delay called))
        (rule.finish ?_ ran)
      intro rc u v _ returned
      split at returned
      · cases returned
      · exact rule.returnToUser returned
  | brk code ran =>
      simp only [trapBrk, bind_eq_ok] at ran
      obtain ⟨t, saved, ⟨status, u⟩, moved, ran⟩ := ran
      by_cases failed : status = .error
      · simp only [failed, if_true] at ran
        cases ran
      · simp only [failed, if_false] at ran
        have step : R t u := steps.brk ctx req t status u rfl code saved moved
        exact rule.trans (rule.trans (rule.saveContext saved) step) (rule.returnToUser ran)
  | fork _ ran =>
      simp only [trapFork, bind_eq_ok] at ran
      obtain ⟨t, saved, ⟨status, u⟩, forked, ran⟩ := ran
      by_cases failed : status = .error
      · simp only [failed, if_true] at ran
        cases ran
      · simp only [failed, if_false] at ran
        have step : R t u := steps.fork ctx req t status u rfl saved forked
        exact rule.trans (rule.trans (rule.saveContext saved) step) (rule.restoreContext ran)
  | getPid _ ran =>
      simp only [trapGetPid, bind_eq_ok] at ran
      obtain ⟨t, saved, pid, -, ran⟩ := ran
      by_cases failed : pid = -1
      · simp only [failed, if_true] at ran
        cases ran
      · simp only [failed, if_false] at ran
        exact rule.trans (rule.saveContext saved) (rule.returnToUser ran)
  | wait code ran =>
      simp only [trapWait, bind_eq_ok] at ran
      obtain ⟨t, saved, result, waited, ran⟩ := ran
      have view : t.sched = s.sched := (sched_saveContext saved).trans (sched_trap ctx)
      have table : t.ptbr1 = s.ptbr1 := congrArg Sched.ptbr1 view
      have current : t.currentProcess = s.currentProcess := congrArg Sched.current view
      have queues := congrFun (congrArg Sched.queues view) (.children s.currentProcess)
      have call : R t result.2 := by
        apply rule.wait (table ▸ own) _ waited
        intro children z v w finds deleted
        refine steps.reap z v w ⟨code, fun empty => children ?_, finds.congr view⟩ deleted
        rw [current]
        exact queues.trans empty
      exact rule.trans (rule.trans (rule.saveContext saved) call)
        (rule.finish (fun rc u v _ returned => rule.finishWait returned) ran)
  | exit _ ran => exact rule.exit ran
  | exec code ran =>
      simp only [trapExec, bind_eq_ok] at ran
      obtain ⟨t, saved, ⟨rc, u⟩, loaded, ran⟩ := ran
      have step : R t u := steps.exec ctx req t rc u rfl code saved loaded
      exact rule.trans (rule.trans (rule.saveContext saved) step) (rule.returnToUser ran)
  | ttyRead _ ran =>
      unfold trapTtyRead at ran
      simp only at ran
      split at ran
      · simp only [bind_eq_ok] at ran
        obtain ⟨t, saved, ⟨rc, u⟩, called, ran⟩ := ran
        refine rule.trans (rule.trans (rule.saveContext saved) (rule.ttyRead called))
          (rule.finish ?_ ran)
        intro rc u v same returned
        obtain ⟨rfl, rfl⟩ := Prod.mk.inj same
        split at returned
        · have view : t.sched = s.sched := (sched_saveContext saved).trans (sched_trap ctx)
          have table : t.ptbr1 = s.ptbr1 := congrArg Sched.ptbr1 view
          exact rule.unpackRead ((ttyRead_ptbr1 called).trans table ▸ own) returned
        · exact rule.returnToUser returned
      · cases ran
        exact rule.same rfl rfl rfl rfl
  | ttyWrite _ ran =>
      unfold trapTtyWrite at ran
      simp only at ran
      split at ran
      · simp only [bind_eq_ok] at ran
        obtain ⟨t, saved, result, called, ran⟩ := ran
        exact rule.trans (rule.trans (rule.saveContext saved) (rule.ttyWrite called))
          (rule.finish (fun rc u v _ returned => rule.finishTtyWrite returned) ran)
      · cases ran
        exact rule.same rfl rfl rfl rfl
  | unknown _ same =>
      subst same
      exact rule.refl _

theorem memoryTrapHandler (rule : StepRule stores R) {ctx : UserContext}
    (steps : FrameSteps R env s (.memoryTrap ctx))
    (h : (s.trap ctx).memoryTrapHandler env = .ok s') : R (s.trap ctx) s' := by
  simp only [Kernel.memoryTrapHandler, bind_eq_ok, deref_eq_ok] at h
  obtain ⟨c, live, h⟩ := h
  rcases action : memoryTrapAction c (s.trap ctx).ctx with _ | _ | _
  · simp only [action, bind_eq_ok] at h
    obtain ⟨⟨status, t⟩, grown, h⟩ := h
    have first : R (s.trap ctx) t := steps.grow ctx c status t rfl live action grown
    by_cases failed : status = .kill
    · simp only [failed, if_true] at h
      exact rule.trans first (rule.exit h)
    · simp only [failed, if_false] at h
      cases h
      exact first
  · simp only [action] at h
    exact rule.exit h
  · simp only [action] at h
    cases h
    exact rule.refl _

theorem resume (rule : StepRule stores R) (own : stores s.ptbr1)
    (steps : FrameSteps R env s .resume) (h : s.resume env = .ok s') : R s s' := by
  simp only [Kernel.resume, bind_eq_ok, deref_eq_ok] at h
  obtain ⟨c, live, h⟩ := h
  cases saved : c.kernelContext with
  | unsaved =>
      rw [saved] at h
      cases h
  | kernelStart =>
      rw [saved] at h
      exact rule.restoreContext h
  | clockTrap =>
      rw [saved] at h
      exact rule.restoreContext h
  | fork child parent =>
      rw [saved] at h
      simp only [bind_eq_ok] at h
      obtain ⟨t, returned, h⟩ := h
      exact rule.trans (rule.forkReturn returned) (rule.restoreContext h)
  | delay =>
      rw [saved] at h
      exact rule.returnToUser h
  | wait statusPtr =>
      rw [saved] at h
      simp only [bind_eq_ok] at h
      obtain ⟨⟨rc, t⟩, resumed, h⟩ := h
      refine rule.trans (rule.waitResumed own ?_ resumed) (rule.finishWait h)
      intro z v w finds deleted
      exact steps.reap z v w ⟨⟨c, statusPtr, live, saved⟩, finds⟩ deleted
  | ttyRead tty buf len =>
      rw [saved] at h
      exact rule.unpackRead own h
  | ttyWriteLock tty buf len =>
      rw [saved] at h
      simp only [bind_eq_ok] at h
      obtain ⟨result, called, h⟩ := h
      exact rule.trans (rule.ttyWriteLocked called)
        (rule.finish (fun rc u v _ returned => rule.finishTtyWrite returned) h)
  | ttyWriteDone tty len =>
      rw [saved] at h
      exact rule.finishTtyWrite h
  | exit frame origin =>
      rw [saved] at h
      rcases origin with _ | _ | _
      · cases h
        exact rule.same rfl rfl rfl rfl
      · cases h
        exact rule.same rfl rfl rfl rfl
      · cases h

/-- Every step. -/
theorem deliver (rule : StepRule stores R) {i : Input} (own : stores s.ptbr1)
    (steps : FrameSteps R env s i) (h : s.deliver env i = .ok s') : R s s' := by
  have entered (ctx : UserContext) : R s (s.trap ctx) := rule.same rfl rfl rfl rfl
  cases i with
  | kernelTrap ctx req => exact rule.trans (entered ctx) (rule.kernelTrapHandler own steps h)
  | clockTrap ctx => exact rule.trans (entered ctx) (rule.clockTrapHandler h)
  | memoryTrap ctx => exact rule.trans (entered ctx) (rule.memoryTrapHandler steps h)
  | mathTrap ctx => exact rule.trans (entered ctx) (rule.exit h)
  | illegalTrap ctx => exact rule.trans (entered ctx) (rule.exit h)
  | ttyReceiveTrap ctx tty data => exact rule.trans (entered ctx) (rule.ttyTrapReceiveHandler h)
  | ttyTransmitTrap ctx tty => exact rule.trans (entered ctx) (rule.ttyTrapTransmitHandler h)
  | resume => exact rule.resume own steps h
  | userStore va bytes => exact rule.storeUser own h
  | kernelBrk addr =>
      cases h
      exact steps.heap addr rfl

end StepRule

end Yalnix.Kernel
