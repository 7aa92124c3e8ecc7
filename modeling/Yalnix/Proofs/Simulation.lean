/-
Module: Yalnix.Proofs.Simulation
Purpose: Every step of the machine is a sequence of moves of the scheduler.
Trusted boundary: none
Main exports: CallsExit, CallsFork, Reaps, Limits.Allows, dispatch_sched, exit_move, deliver_moves
-/
import Yalnix.Proofs.Effects

namespace Yalnix

namespace Sched

theorem setProc_self {s : Sched} {p : PcbPtr} {b : Proc} (live : s.procs p = some b) :
    s.setProc p b = s := by
  have same : Function.update s.procs p (some b) = s.procs := by
    rw [← live, Function.update_eq_self]
  rw [setProc, same]

theorem setWriter_self {s : Sched} {tty : TtyId} : s.setWriter tty (s.writer tty) = s := by
  rw [setWriter, Function.update_eq_self]

end Sched

namespace Kernel

variable {env : Env} {limits : Limits} {s s' : Kernel}

/-! ### The view of the primitives -/

@[simp] theorem sched_setPcb (p : PcbPtr) (b : PCB) :
    (s.setPcb p b).sched = s.sched.setProc p b.proc := by
  have procs : (fun q => ((s.setPcb p b).heap q).map PCB.proc) =
      Function.update (fun q => (s.heap q).map PCB.proc) p (some b.proc) := by
    funext q
    by_cases same : q = p
    · subst same
      simp
    · simp [same]
  simp only [sched, Sched.setProc, procs, setPcb_nextPcb, setPcb_pidCalls, setPcb_procTable,
    setPcb_queues, setPcb_terminals, setPcb_idleProc, setPcb_currentProcess, setPcb_ptbr1,
    setPcb_mode, setPcb_history]

/-- Changing fields outside the scheduler's view is invisible to it. -/
theorem sched_setPcb_self {p : PcbPtr} {b b' : PCB} (live : s.heap p = some b)
    (same : b'.proc = b.proc) : (s.setPcb p b').sched = s.sched := by
  rw [sched_setPcb, Sched.setProc_self]
  simp [live, same]

@[simp] theorem sched_setQueue (q : QueueId) (entries : List PcbPtr) :
    (s.setQueue q entries).sched = s.sched.setQueue q entries := rfl

@[simp] theorem sched_setTerminal (tty : TtyId) (terminal : Terminal) :
    (s.setTerminal tty terminal).sched = s.sched.setWriter tty terminal.currentWriter := by
  have writer : (fun t => ((s.setTerminal tty terminal).terminals t).currentWriter) =
      Function.update (fun t => (s.terminals t).currentWriter) tty terminal.currentWriter := by
    funext t
    by_cases same : t = tty
    · subst same
      simp
    · simp [same]
  simp only [sched, Sched.setWriter, writer, setTerminal_heap, setTerminal_nextPcb,
    setTerminal_pidCalls, setTerminal_procTable, setTerminal_queues, setTerminal_idleProc,
    setTerminal_currentProcess, setTerminal_ptbr1, setTerminal_mode, setTerminal_history]

/-- Changing fields of a terminal other than its writer. -/
theorem sched_setTerminal_self {tty : TtyId} {terminal : Terminal}
    (same : terminal.currentWriter = (s.terminals tty).currentWriter) :
    (s.setTerminal tty terminal).sched = s.sched := by
  rw [sched_setTerminal, same]
  exact Sched.setWriter_self

@[simp] theorem sched_malloc : (s.malloc env).2.sched = s.sched := rfl

@[simp] theorem sched_setMem (m : Memory) : (s.setMem m).sched = s.sched := rfl

@[simp] theorem sched_trap (ctx : UserContext) : (s.trap ctx).sched = s.sched := rfl

@[simp] theorem sched_log_family {e : Event} (family : e.isFamily = true) :
    (s.log e).sched = s.sched.log e := by
  simp [sched, Sched.log, family]

@[simp] theorem sched_log_other {e : Event} (other : e.isFamily = false) :
    (s.log e).sched = s.sched := by
  simp [sched, other]

@[simp] theorem sched_queueEnqueue (q : QueueId) (p : PcbPtr) :
    (s.queueEnqueue env q p).sched = s.sched.push (env.mallocOk s.mallocCalls) q p := by
  rw [queueEnqueue_eq]
  rfl

@[simp] theorem sched_queueRemove (q : QueueId) (p : PcbPtr) :
    (s.queueRemove q p).sched = s.sched.remove q p := rfl

/-- The process table after a PCB took the slot that `getFreePCB` finds. -/
theorem sched_slotTaken {i : Nat} (free : s.freeSlot = some i) :
    s.sched.slotTaken = Function.update s.procTable i (some s.nextPcb) := by
  have slot : s.sched.freeSlot = some i := free
  rw [Sched.slotTaken, slot]
  rfl

/-- Assigning fields of a PCB that the scheduler does not see. -/
theorem sched_modifyPcb_self {p : PcbPtr} {f : PCB → PCB} (h : s.modifyPcb p f = .ok s')
    (same : ∀ b, (f b).proc = b.proc) : s'.sched = s.sched := by
  obtain ⟨b, live, rfl⟩ := modifyPcb_eq_ok.mp h
  exact sched_setPcb_self live (same b)

theorem procs_of_heap {p : PcbPtr} {b : PCB} (live : s.heap p = some b) :
    s.sched.procs p = some b.proc := by
  simp only [sched_procs, live, Option.map_some]

theorem sched_saveContext (h : s.saveContext = .ok s') : s'.sched = s.sched := by
  obtain ⟨b, live, rfl⟩ := saveContext_eq_ok.mp h
  exact sched_setPcb_self live rfl

theorem sched_restoreContext (h : s.restoreContext = .ok s') : s'.sched = s.sched.toUser := by
  obtain ⟨b, -, rfl⟩ := restoreContext_eq_ok.mp h
  rfl

theorem sched_returnToUser {rc : Int} (h : s.returnToUser rc = .ok s') :
    s'.sched = s.sched.toUser := by
  obtain ⟨b, -, rfl⟩ := returnToUser_eq_ok.mp h
  rfl

theorem sched_storeUser {va : Word} {bytes : List Byte} (h : s.storeUser va bytes = .ok s') :
    s'.sched = s.sched := by
  obtain ⟨b, m, -, -, rfl⟩ := storeUser_eq_ok.mp h
  rfl

/-! ### Switching -/

/-- In the scheduler's view a context switch saves a context and changes the current process. -/
theorem sched_kcSwitch {kc : KernelContext} {curr next : PcbPtr}
    (h : s.kcSwitch kc curr next = .ok s') :
    ∃ c n, s.heap curr = some c ∧ s.heap next = some n ∧
      s'.sched =
        (s.sched.setProc curr { c.proc with kernelContext := kc }).enter next := by
  obtain ⟨c, n, kstack, currLive, nextLive, -, rfl⟩ := kcSwitch_eq_ok h
  have live : ∃ n', s.heap next = some n' := by
    by_cases same : next = curr
    · exact ⟨c, same ▸ currLive⟩
    · exact ⟨n, by simpa [same] using nextLive⟩
  obtain ⟨n', live⟩ := live
  refine ⟨c, n', currLive, live, ?_⟩
  have view := sched_setPcb_self nextLive (rfl : { n with state := .running }.proc = n.proc)
  exact congrArg (fun view => Sched.enter view next) (view.trans (sched_setPcb ..))

theorem dispatch_sched {kc : KernelContext} (h : s.dispatch kc = .ok s') :
    Sched.Dispatch kc s.sched s'.sched := by
  rcases dispatch_eq_ok h with ⟨next, rest, ready, switched⟩ | ⟨ready, switched⟩
  · obtain ⟨c, n, currLive, nextLive, view⟩ := sched_kcSwitch switched
    rw [view]
    simp only [setQueue_heap] at currLive nextLive
    exact Sched.Dispatch.next (b := c.proc) (n := n.proc) (by simp [currLive]) ready
      (by simp [nextLive])
  · obtain ⟨c, n, currLive, nextLive, view⟩ := sched_kcSwitch switched
    rw [view]
    exact Sched.Dispatch.idle (b := c.proc) (n := n.proc) (by simp [currLive]) ready
      (by simp [nextLive])

/-! ### Clock and delays -/

theorem delay_move {ticks : Int} {result : Option Int × Kernel} (allowed : limits.delay)
    (user : s.mode = .user) (busy : s.currentProcess ≠ s.idleProc)
    (h : s.delay env ticks = .ok result) :
    (result.1 = none ∧ Sched.Move env limits s.sched result.2.sched) ∨
      (result.1 ≠ none ∧ result.2 = s) := by
  unfold delay at h
  split at h
  · cases h
    exact Or.inr ⟨by simp, rfl⟩
  · split at h
    · cases h
      exact Or.inr ⟨by simp, rfl⟩
    · simp only [bind_eq_ok, modifyPcb_eq_ok, pure_eq_ok] at h
      obtain ⟨_, ⟨b, live, rfl⟩, t, switched, rfl⟩ := h
      have switch := dispatch_sched switched
      rw [sched_queueEnqueue, sched_setPcb] at switch
      exact Or.inl ⟨rfl, .shift <| .delay (b := b.proc) allowed user busy (by simp [live]) switch⟩

/-- One visit of the clock handler to the blocked queue. -/
theorem trapHandlerHelper_moves (limits : Limits) {p : PcbPtr}
    (h : s.trapHandlerHelper env p = .ok s') :
    Sched.Moves env limits s.sched s'.sched ∧ s'.sched.mode = s.sched.mode ∧
      s'.sched.current = s.sched.current := by
  obtain ⟨b, live, ⟨-, rfl⟩ | ⟨many, rfl⟩ | ⟨one, rfl⟩⟩ := trapHandlerHelper_eq_ok h
  · exact ⟨Relation.ReflTransGen.refl, rfl, rfl⟩
  · rw [sched_setPcb]
    exact ⟨Relation.ReflTransGen.single (.shift <| .tick (procs_of_heap live) many), rfl, rfl⟩
  · rw [sched_queueEnqueue, sched_queueRemove, sched_setPcb]
    exact ⟨Relation.ReflTransGen.single (.shift <| .wakeDelayed (procs_of_heap live) one), rfl, rfl⟩

theorem iterateBlocked_moves (limits : Limits) {blocked : List PcbPtr}
    (h : iterateBlocked env blocked s = .ok s') :
    Sched.Moves env limits s.sched s'.sched ∧ s'.sched.mode = s.sched.mode ∧
      s'.sched.current = s.sched.current := by
  induction blocked generalizing s with
  | nil =>
      cases h
      exact ⟨Relation.ReflTransGen.refl, rfl, rfl⟩
  | cons process rest inductionHypothesis =>
      simp only [iterateBlocked, bind_eq_ok] at h
      obtain ⟨t, visited, h⟩ := h
      obtain ⟨first, mode, current⟩ := trapHandlerHelper_moves limits visited
      obtain ⟨others, mode', current'⟩ := inductionHypothesis h
      exact ⟨first.trans others, mode'.trans mode, current'.trans current⟩

/-- The switch at the end of the clock handler. -/
theorem clockSwitch_move {t : Kernel} {c : PCB} {next : PcbPtr} {rest : List PcbPtr} (kept : Bool)
    (user : s.sched.mode = .user) (live : s.heap s.currentProcess = some c)
    (ready : s.queues .ready = next :: rest)
    (requeued : t.sched = (s.sched.setQueue .ready rest).push kept .ready s.currentProcess)
    (h : t.kcSwitch .clockTrap s.currentProcess next = .ok s') :
    Sched.Move env limits s.sched s'.sched := by
  obtain ⟨d, n, liveD, nextLive, view⟩ := sched_kcSwitch h
  have procs : t.sched.procs = s.sched.procs := by
    rw [requeued]
    rfl
  have same : d.proc = c.proc := by
    have found := procs_of_heap liveD
    rw [procs, procs_of_heap live] at found
    exact (Option.some.inj found).symm
  have next' : s.sched.procs next = some n.proc := by
    rw [← procs, procs_of_heap nextLive]
  rw [view, same, requeued]
  exact .shift <| .preempt user (procs_of_heap live) ready next'

theorem clockTrapHandler_moves (user : s.mode = .user) (h : s.clockTrapHandler env = .ok s') :
    Sched.Moves env limits s.sched s'.sched := by
  obtain ⟨saved, t, savedEq, iterated, tail⟩ := clockTrapHandler_eq_ok h
  obtain ⟨moves, mode, current⟩ := iterateBlocked_moves limits iterated
  rw [sched_saveContext savedEq] at moves mode current
  refine moves.trans ?_
  have inUser : t.sched.mode = .user := mode.trans user
  have currentEq : s.currentProcess = t.currentProcess := current.symm
  rw [currentEq] at tail
  rcases tail with ⟨-, restored⟩ | ⟨next, rest, c, ready, live, tail⟩
  · rw [sched_restoreContext restored]
    exact Relation.ReflTransGen.single (.shift <| .toUser _)
  · rcases tail with ⟨-, -, u, readied, switched⟩ | ⟨-, switched⟩
    · refine Relation.ReflTransGen.single
        (clockSwitch_move (env.mallocOk u.mallocCalls) inUser live ready ?_ switched)
      rw [sched_queueEnqueue, sched_modifyPcb_self readied fun _ => rfl, sched_setQueue]
    · refine Relation.ReflTransGen.single (clockSwitch_move false inUser live ready ?_ switched)
      simp [Sched.push, Sched.setQueue]

/-! ### Exit -/

theorem wakeParent_sched {parent : Option PcbPtr} (h : s.wakeParent env parent = .ok s') :
    Sched.WakeParent env s.sched parent s'.sched := by
  rcases parent with _ | q
  · cases h
    exact Sched.WakeParent.noParent
  · simp only [wakeParent, bind_eq_ok, deref_eq_ok] at h
    obtain ⟨b, live, h⟩ := h
    by_cases flag : b.waitingForChildPid ≠ 0
    · rw [if_pos flag] at h
      simp only [bind_eq_ok, modifyPcb_eq_ok, pure_eq_ok] at h
      obtain ⟨_, ⟨b', live', rfl⟩, rfl⟩ := h
      obtain rfl : b' = b := Option.some.inj (live'.symm.trans live)
      rw [sched_queueEnqueue, sched_setPcb]
      exact Sched.WakeParent.waiting (b := b'.proc) (procs_of_heap live) flag
    · rw [if_neg flag] at h
      cases h
      exact Sched.WakeParent.notWaiting (procs_of_heap live) (not_not.mp flag)

/-- The scheduler's part of `Exit`: the exiting process becomes a zombie, its parent may be woken,
and the processor is given away. -/
theorem exit_sched {status : Int} {origin : ExitOrigin} (h : s.exit env status origin = .ok s') :
    ∃ b woken, s.sched.procs s.sched.current = some b ∧ b.pid ≠ 1 ∧
      Sched.WakeParent env (s.sched.zombified b status (env.mallocOk s.mallocCalls)) b.parent
        woken ∧
      ∃ frame, Sched.Dispatch (.exit frame origin) woken s'.sched := by
  simp only [exit, bind_eq_ok, deref_eq_ok] at h
  obtain ⟨b, live, h⟩ := h
  by_cases init : b.pid = 1
  · rw [if_pos init] at h
    obtain ⟨-, -, stopped⟩ := bind_eq_ok.mp h
    cases stopped
  · rw [if_neg init] at h
    simp only [bind_eq_ok, modifyPcb_eq_ok, queueEnqueue_heap] at h
    obtain ⟨_, ⟨b', live', rfl⟩, woken, wake, switched⟩ := h
    obtain rfl : b' = b := Option.some.inj (live'.symm.trans live)
    have woke := wakeParent_sched wake
    rw [sched_log_family rfl, sched_setPcb, sched_queueEnqueue] at woke
    exact ⟨b'.proc, woken.sched, procs_of_heap live, init, woke, _, dispatch_sched switched⟩

theorem exit_move {status : Int} {origin : ExitOrigin}
    (allowed : limits.exit s.sched (env.mallocOk s.mallocCalls))
    (user : s.mode = .user) (busy : s.currentProcess ≠ s.idleProc)
    (h : s.exit env status origin = .ok s') : Sched.Move env limits s.sched s'.sched := by
  obtain ⟨b, woken, live, notInit, wake, frame, switch⟩ := exit_sched h
  exact Sched.Move.exit allowed user busy live notInit wake switch

/-! ### Wait -/

theorem orphanChildren_sched {children : List PcbPtr} (h : orphanChildren children s = .ok s') :
    s'.sched = s.sched.orphan children := by
  induction children generalizing s with
  | nil =>
      cases h
      simp only [Sched.orphan, List.not_mem_nil, if_false]
  | cons child rest inductionHypothesis =>
      simp only [orphanChildren, bind_eq_ok, modifyPcb_eq_ok] at h
      obtain ⟨_, ⟨b, live, rfl⟩, h⟩ := h
      rw [inductionHypothesis h, sched_setPcb]
      have procs : (fun p => if p ∈ rest then
            (Function.update s.sched.procs child (some { b.proc with parent := none }) p).map
              fun c => { c with parent := none }
          else Function.update s.sched.procs child (some { b.proc with parent := none }) p) =
          fun p => if p ∈ child :: rest then
            (s.sched.procs p).map fun c => { c with parent := none }
          else s.sched.procs p := by
        funext p
        by_cases same : p = child
        · subst same
          simp [live, PCB.proc]
        · simp [same]
      exact congrArg (fun procs => { s.sched with procs := procs }) procs

theorem deletePCB_sched {p : PcbPtr} (h : s.deletePCB p = .ok s') :
    s'.sched = s.sched.delete p := by
  simp only [deletePCB, bind_eq_ok, pure_eq_ok] at h
  obtain ⟨-, -, t, orphaned, rfl⟩ := h
  have view := orphanChildren_sched orphaned
  have freed : (fun q => (Function.update t.heap p none q).map PCB.proc) =
      Function.update t.sched.procs p none := by
    funext q
    by_cases same : q = p
    · subst same
      simp
    · simp [same]
  have result : ({ t.setQueue (.children p) [] with
      heap := Function.update (t.setQueue (.children p) []).heap p none } : Kernel).sched =
      (t.sched.setQueue (.children p) []).free p := by
    simp only [sched, Sched.free, Sched.setQueue, setQueue_heap, freed]
    rfl
  rw [result, view]
  rfl

theorem findZombieChild_some {pid : Int} {zombies : List PcbPtr} {z : PcbPtr}
    (h : s.findZombieChild pid zombies = .ok (some z)) :
    z ∈ zombies ∧ ∃ b, s.heap z = some b ∧ b.ppid = pid := by
  induction zombies with
  | nil => cases h
  | cons first rest inductionHypothesis =>
      simp only [findZombieChild, bind_eq_ok, deref_eq_ok] at h
      obtain ⟨b, live, h⟩ := h
      by_cases child : b.ppid = pid
      · rw [if_pos child] at h
        cases h
        exact ⟨List.mem_cons_self, b, live, child⟩
      · rw [if_neg child] at h
        obtain ⟨member, found⟩ := inductionHypothesis h
        exact ⟨List.mem_cons_of_mem _ member, found⟩

theorem findZombieChild_none {pid : Int} {zombies : List PcbPtr}
    (h : s.findZombieChild pid zombies = .ok none) :
    ∀ z ∈ zombies, ∀ b, s.heap z = some b → b.ppid ≠ pid := by
  induction zombies with
  | nil => simp
  | cons first rest inductionHypothesis =>
      simp only [findZombieChild, bind_eq_ok, deref_eq_ok] at h
      obtain ⟨b, live, h⟩ := h
      by_cases child : b.ppid = pid
      · rw [if_pos child] at h
        cases h
      · rw [if_neg child] at h
        intro z member c found
        rcases List.mem_cons.mp member with rfl | later
        · obtain rfl : c = b := Option.some.inj (found.symm.trans live)
          exact child
        · exact inductionHypothesis h z later c found

/-- The scan only reads what the scheduler sees. -/
theorem findZombieChild_congr {t : Kernel} (same : s.sched.procs = t.sched.procs) (pid : Int)
    (zombies : List PcbPtr) : s.findZombieChild pid zombies = t.findZombieChild pid zombies := by
  induction zombies with
  | nil => rfl
  | cons z rest inductionHypothesis =>
      have view : (s.heap z).map PCB.proc = (t.heap z).map PCB.proc := congrFun same z
      rcases left : s.heap z with _ | b
      · rcases right : t.heap z with _ | c
        · simp [findZombieChild, deref, left, right, bind, Except.bind]
        · simp [left, right] at view
      · rcases right : t.heap z with _ | c
        · simp [left, right] at view
        · have ppid : b.ppid = c.ppid := by
            simp only [left, right, Option.map_some, Option.some.injEq] at view
            exact congrArg Proc.ppid view
          simp [findZombieChild, deref, left, right, bind, Except.bind, ppid, inductionHypothesis]

/-- The zombie that a scan of `Wait` finds. -/
def ScanFinds (s : Kernel) (z : PcbPtr) : Prop :=
  ∃ c, s.heap s.currentProcess = some c ∧
    s.findZombieChild c.pid (s.queues .zombie) = .ok (some z)

theorem ScanFinds.congr {t : Kernel} {z : PcbPtr} (same : s.sched = t.sched)
    (found : s.ScanFinds z) : t.ScanFinds z := by
  obtain ⟨c, live, scanned⟩ := found
  have current : s.currentProcess = t.currentProcess := congrArg Sched.current same
  have zombies : s.queues .zombie = t.queues .zombie := congrFun (congrArg Sched.queues same) _
  have view := procs_of_heap live
  rw [same, current, sched_procs, Option.map_eq_some_iff] at view
  obtain ⟨c', live', proc⟩ := view
  have pid : c'.pid = c.pid := congrArg Proc.pid proc
  refine ⟨c', live', ?_⟩
  rw [pid, ← zombies, ← findZombieChild_congr (congrArg Sched.procs same)]
  exact scanned

/-- One scan of `Wait` either reaps a child or changes nothing. -/
theorem waitScan_sched {statusPtr : Word} {result : Option Int × Kernel}
    (h : s.waitScan statusPtr = .ok result) :
    (∃ z b c, s.ScanFinds z ∧ s.sched.procs s.sched.current = some b ∧
      z ∈ s.sched.queues .zombie ∧ s.sched.procs z = some c ∧ c.ppid = b.pid ∧
      result.1 = some c.pid ∧ result.2.sched =
        ((s.sched.remove (.children s.sched.current) z).remove .zombie z).delete z) ∨
      (result = (none, s) ∧ ∃ b, s.sched.procs s.sched.current = some b ∧
        s.sched.NoZombieChild b.pid) := by
  simp only [waitScan, bind_eq_ok, deref_eq_ok] at h
  obtain ⟨c, live, found, scanned, h⟩ := h
  rcases found with _ | z
  · cases h
    refine Or.inr ⟨rfl, c.proc, procs_of_heap live, ?_⟩
    intro z member b zombie
    simp only [sched_procs, Option.map_eq_some_iff] at zombie
    obtain ⟨b', zombie, rfl⟩ := zombie
    exact findZombieChild_none scanned z member b' zombie
  · simp only [bind_eq_ok, pure_eq_ok] at h
    obtain ⟨⟨pid, u⟩, reaped, rfl⟩ := h
    obtain ⟨member, b, zombie, child⟩ := findZombieChild_some scanned
    obtain ⟨b', t, zombie', rfl, stored, deleted⟩ := reap_eq_ok reaped
    obtain rfl : b' = b := Option.some.inj (zombie'.symm.trans zombie)
    refine Or.inl ⟨z, c.proc, b'.proc, ⟨c, live, scanned⟩, procs_of_heap live, member,
      procs_of_heap zombie, child, rfl, ?_⟩
    rcases stored with ⟨-, stored⟩ | ⟨-, rfl⟩
    · obtain ⟨-, m, -, -, rfl⟩ := storeUser_eq_ok.mp stored
      exact deletePCB_sched deleted
    · exact deletePCB_sched deleted

theorem finishWait_sched {statusPtr : Word} {rc : Int}
    (h : s.finishWait statusPtr rc = .ok s') :
    s'.sched = (s.sched.log (.waitReturned s.sched.current statusPtr rc)).toUser := by
  rw [sched_returnToUser h, sched_log_family rfl]
  rfl

/-- The scheduler's part of a reaping scan and of the return from `Wait` behind it. -/
theorem reap_move {z : PcbPtr} {b c : Proc} {u : Kernel} {statusPtr : Word}
    (allowed : limits.reap s.sched z) (live : s.sched.procs s.sched.current = some b)
    (zombie : z ∈ s.sched.queues .zombie) (dead : s.sched.procs z = some c)
    (child : c.ppid = b.pid)
    (reaped : u.sched = ((s.sched.remove (.children s.sched.current) z).remove .zombie z).delete z)
    (h : u.finishWait statusPtr c.pid = .ok s') : Sched.Move env limits s.sched s'.sched := by
  rw [finishWait_sched h, reaped]
  exact Sched.Move.reap allowed live zombie dead child

theorem trapWait_moves
    (allowed : ∀ z, s.queues (.children s.currentProcess) ≠ [] → s.ScanFinds z →
      limits.reap s.sched z)
    (fails : limits.fail) (user : s.mode = .user) (busy : s.currentProcess ≠ s.idleProc)
    (h : s.trapWait = .ok s') : Sched.Moves env limits s.sched s'.sched := by
  simp only [trapWait, bind_eq_ok] at h
  obtain ⟨t, saved, result, waited, h⟩ := h
  have view := sched_saveContext saved
  rw [← view] at allowed ⊢
  have user' : t.sched.mode = .user := by
    rw [view]
    exact user
  have busy' : t.sched.current ≠ t.sched.idleProc := by
    rw [view]
    exact busy
  unfold wait at waited
  by_cases empty : t.isEmpty (.children t.currentProcess) = true
  · rw [if_pos empty] at waited
    cases waited
    have childless : t.sched.queues (.children t.sched.current) = [] := by
      simpa [isEmpty] using empty
    rw [finishWait_sched h]
    exact (Relation.ReflTransGen.single (Sched.Move.noChildren fails user' busy' childless)).tail
      (.shift <| .toUser _)
  · rw [if_neg empty] at waited
    have parent : s.queues (.children s.currentProcess) ≠ [] := by
      have children : t.sched.queues (.children t.sched.current) ≠ [] := by
        simpa [isEmpty] using empty
      rw [view] at children
      exact children
    simp only [bind_eq_ok] at waited
    obtain ⟨⟨found, u⟩, scanned, waited⟩ := waited
    rcases waitScan_sched scanned with
      ⟨z, b, c, finds, live, zombie, dead, child, rfl, reaped⟩ | ⟨unchanged, b, live, noZombie⟩
    · cases waited
      exact Relation.ReflTransGen.single (reap_move (allowed z parent (finds.congr view)) live
        zombie dead child reaped h)
    · obtain ⟨rfl, rfl⟩ := Prod.mk.inj unchanged
      simp only [bind_eq_ok, modifyPcb_eq_ok, pure_eq_ok] at waited
      obtain ⟨_, ⟨d, liveD, rfl⟩, v, switched, rfl⟩ := waited
      cases h
      have switch := dispatch_sched switched
      rw [sched_setPcb] at switch
      have same : b = d.proc := by
        have found : _ = some d.proc := procs_of_heap liveD
        exact Option.some.inj (live.symm.trans found)
      subst same
      exact Relation.ReflTransGen.single (.shift <| .blockWait user' busy' live noZombie switch)

/-! ### Fork -/

theorem trapFork_moves (allowed : limits.fork (env.mallocOk (s.mallocCalls + 5)))
    (user : s.mode = .user) (busy : s.currentProcess ≠ s.idleProc)
    (fresh : s.heap s.nextPcb = none) (h : s.trapFork env = .ok s') :
    Sched.Moves env limits s.sched s'.sched := by
  simp only [trapFork, bind_eq_ok] at h
  obtain ⟨t, saved, ⟨status, u⟩, forked, h⟩ := h
  rcases fork_status forked with rfl | rfl
  · simp only [reduceCtorEq, if_false] at h
    obtain ⟨b, live, frame⟩ := saveContext_eq_ok.mp saved
    have view := sched_saveContext saved
    have calls : t.mallocCalls = s.mallocCalls := by
      rw [frame]
      rfl
    have other' : t.currentProcess ≠ t.nextPcb := by
      intro same
      have absent : s.heap s.currentProcess = none := by
        rw [frame] at same
        exact (congrArg s.heap same).trans fresh
      rw [absent] at live
      cases live
    obtain ⟨i, p, m, pt, m', pages, current, free, parentLive, -, -, -, rfl⟩ :=
      fork_eq_ok other' forked
    rw [sched_restoreContext h, ← view]
    refine Relation.ReflTransGen.tail (Relation.ReflTransGen.single ?_) (.shift <| .toUser _)
    have parentLive' : Function.update t.heap t.nextPcb (some (forkedPcb env t p pt pages))
        t.currentProcess = some p := by
      rw [Function.update_of_ne other', parentLive]
    rw [sched_setPcb_self (b := p) (by simpa using parentLive') (by rfl), sched_log_family rfl,
      sched_queueEnqueue, sched_queueEnqueue, sched_setQueue, sched_setPcb]
    have inChildren : limits.fork (env.mallocOk (t.mallocCalls + 4 + 1)) := by
      rw [calls]
      exact allowed
    have move := Sched.Move.fork (k := t.mallocCalls + 4) inChildren (view ▸ user) (view ▸ busy)
      (procs_of_heap parentLive) other' free
    rw [Sched.spawn, sched_slotTaken free] at move
    simp only [queueEnqueue_mallocCalls, setQueue_mallocCalls, setPcb_mallocCalls]
    exact move
  · rw [if_pos rfl] at h
    cases h

/-! ### Terminals -/

theorem ttyReadValid_move {tty : TtyId} {buf : Word} {len : Nat} {result : Option Int × Kernel}
    (allowed : limits.tty) (user : s.mode = .user) (busy : s.currentProcess ≠ s.idleProc)
    (h : s.ttyReadValid env tty buf len = .ok result) :
    (result.1 = none ∧ Sched.Move env limits s.sched result.2.sched) ∨
      (result.1 ≠ none ∧ result.2.sched = s.sched) := by
  rcases ttyReadValid_eq_ok h with
    ⟨-, -, rfl⟩ | ⟨-, -, n, b, -, live, rfl⟩ | ⟨-, t, u, parked, switched, rfl⟩
  · exact Or.inr ⟨by simp, rfl⟩
  · refine Or.inr ⟨by simp, ?_⟩
    rw [sched_setTerminal_self (by rfl), sched_log_other rfl]
    exact sched_setPcb_self (s := (s.malloc env).2) live rfl
  · have view := sched_modifyPcb_self parked fun _ => rfl
    rw [sched_queueEnqueue, sched_queueEnqueue, sched_log_other rfl] at view
    have switch := dispatch_sched switched
    rw [view] at switch
    exact Or.inl ⟨rfl, .shift <| .blockReader allowed user busy switch⟩

/-- A refused write changes nothing that the scheduler sees. -/
theorem sched_refuseWrite {tty : TtyId} {b : PCB} (live : s.heap s.currentProcess = some b) :
    (s.refuseWrite env tty b).sched = s.sched := by
  rw [refuseWrite, sched_setPcb_self (b := b) (by exact live) (by rfl),
    sched_setTerminal_self (by rfl), sched_malloc]

/-- A write that begins gives the terminal to the current process, which blocks. -/
theorem sched_beginWrite {tty : TtyId} {bytes : List Byte} {len : Nat} {b : PCB}
    (live : s.heap s.currentProcess = some b) : (s.beginWrite env tty bytes len b).sched =
      (s.sched.setWriter tty (some s.currentProcess)).push (env.mallocOk (s.mallocCalls + 1))
        .blocked s.currentProcess := by
  rw [beginWrite, sched_queueEnqueue, sched_setPcb_self (b := b) (by exact live) (by rfl),
    sched_setTerminal, sched_log_other rfl, sched_malloc]
  rfl

theorem ttyWriteLocked_moves {tty : TtyId} {buf : Word} {len : Nat} {result : Option Int × Kernel}
    (allowed : limits.tty ∨ ∃ b buf n, s.sched.procs s.sched.current = some b ∧
      b.kernelContext = .ttyWriteLock tty buf n)
    (h : s.ttyWriteLocked env tty buf len = .ok result) :
    Sched.Moves env limits s.sched result.2.sched := by
  obtain ⟨b, live, outcome⟩ := ttyWriteLocked_eq_ok h
  rcases outcome with ⟨-, -, rfl⟩ | ⟨failed, next, rest, t, writers, readied, rfl⟩ |
    ⟨-, bytes, u, -, switched, rfl⟩
  · rw [sched_refuseWrite live]
  · obtain ⟨c, found, -⟩ := modifyPcb_eq_ok.mp readied
    have nextLive : s.sched.procs next = some c.proc := by
      rw [← sched_refuseWrite live]
      exact procs_of_heap (s := s.refuseWrite env tty b) found
    rw [sched_queueEnqueue, sched_modifyPcb_self readied fun _ => rfl, sched_setQueue,
      sched_refuseWrite live]
    exact Relation.ReflTransGen.single (.shift <| .wakeWriterBlocked failed nextLive writers)
  · have switch := dispatch_sched switched
    rw [sched_beginWrite live] at switch
    exact Relation.ReflTransGen.single (.shift <| .blockWriting allowed switch)

theorem ttyWriteValid_moves {tty : TtyId} {buf : Word} {len : Nat} {result : Option Int × Kernel}
    (allowed : limits.tty) (user : s.mode = .user) (busy : s.currentProcess ≠ s.idleProc)
    (h : s.ttyWriteValid env tty buf len = .ok result) :
    Sched.Moves env limits s.sched result.2.sched := by
  unfold ttyWriteValid at h
  by_cases locked : (s.terminals tty).inUse = true
  · simp only [log_terminals, locked, if_true, bind_eq_ok, pure_eq_ok] at h
    obtain ⟨t, blocked, u, switched, rfl⟩ := h
    have view := sched_modifyPcb_self blocked fun _ => rfl
    have switch := dispatch_sched switched
    rw [sched_queueEnqueue, view, sched_queueEnqueue, sched_log_other rfl] at switch
    exact Relation.ReflTransGen.single (.shift <| .blockWriter allowed user busy switch)
  · simp only [log_terminals, locked] at h
    have moves : Sched.Moves env limits _ _ := ttyWriteLocked_moves (Or.inl allowed) h
    rw [sched_log_other rfl] at moves
    exact moves

/-- Handing the terminal to the next blocked writer, or releasing it. -/
theorem handOver_moves {tty : TtyId} (h : HandOver env s tty s') :
    Sched.Moves env limits s.sched s'.sched := by
  cases h with
  | free none => rw [sched_setTerminal_self (by rfl)]
  | next writers readied =>
      obtain ⟨b, live, -⟩ := modifyPcb_eq_ok.mp readied
      rw [sched_queueEnqueue, sched_queueRemove, sched_modifyPcb_self readied fun _ => rfl,
        sched_setQueue]
      exact Relation.ReflTransGen.single (.shift <| .wakeWriter (procs_of_heap live) writers)

/-- In the scheduler's view a finished write leaves the terminal without a writer. -/
theorem sched_clearWrite {tty : TtyId} :
    (s.clearWrite tty).sched = s.sched.setWriter tty none := sched_setTerminal ..

theorem ttyTrapTransmitHandler_moves {tty : TtyId}
    (h : s.ttyTrapTransmitHandler env tty = .ok s') :
    Sched.Moves env limits s.sched s'.sched := by
  have logged : (s.log (.ttyTransmitTrap tty)).sched = s.sched := sched_log_other rfl
  cases ttyTrapTransmitHandler_eq_ok h with
  | chunk left =>
      rw [nextChunk, sched_setTerminal_self (by rfl), ttyTransmit, sched_log_other rfl, logged]
  | unowned through none handed =>
      have unowned : s.sched.writer tty = Option.none := none
      have moves : Sched.Moves env limits _ _ := handOver_moves handed
      rw [sched_clearWrite, logged, ← unowned, Sched.setWriter_self] at moves
      exact moves
  | owned through some woken handed =>
      have moves : Sched.Moves env limits _ _ := handOver_moves handed
      obtain ⟨b, live, -⟩ := modifyPcb_eq_ok.mp woken
      rw [sched_queueEnqueue, sched_queueRemove, sched_modifyPcb_self woken fun _ => rfl,
        sched_clearWrite, logged] at moves
      refine Relation.ReflTransGen.head ?_ moves
      exact .shift <| .wakeWriting (procs_of_heap (s := s) live) some

/-- Serving a reader moves it from the readers of the terminal to the ready queue. -/
theorem readyReader_move {t : Kernel} {tty : TtyId} {reader : PcbPtr} {rest : List PcbPtr}
    {r r' : PCB} (live : s.heap reader = some r) (queue : s.queues (.readers tty) = reader :: rest)
    (parked : t.sched = s.sched.setQueue (.readers tty) rest) (same : r'.proc = r.proc) :
    Sched.Move env limits s.sched (readyReader env t reader r').sched := by
  have liveT : t.sched.procs reader = some r.proc := by
    rw [parked]
    exact procs_of_heap live
  have readied : ((t.queueRemove .blocked reader).setPcb reader { r' with state := .ready }).sched =
      t.sched.remove .blocked reader := by
    rw [sched_setPcb, Sched.setProc_self, sched_queueRemove]
    rw [sched_queueRemove]
    exact liveT.trans (congrArg some same.symm)
  rw [readyReader, sched_queueEnqueue, readied, parked]
  exact .shift <| .wakeReader (procs_of_heap live) queue

theorem serveReaders_moves {tty : TtyId} {readers : List PcbPtr}
    (queue : s.queues (.readers tty) = readers) (h : serveReaders env tty readers s = .ok s') :
    Sched.Moves env limits s.sched s'.sched := by
  induction readers generalizing s with
  | nil =>
      cases h
      exact Relation.ReflTransGen.refl
  | cons reader rest inductionHypothesis =>
      by_cases empty : (s.terminals tty).readBufferLen = 0
      · rw [serveReaders, if_pos empty] at h
        cases h
        exact Relation.ReflTransGen.refl
      · have unlinked : (unlinkReader env s tty reader rest).sched =
            s.sched.setQueue (.readers tty) rest := by
          rw [unlinkReader, sched_log_other rfl, sched_malloc, sched_setQueue]
        obtain ⟨r, live, served⟩ := serveReaders_cons empty h
        have liveU : (unlinkReader env s tty reader rest).heap reader = some r := live
        rcases served with ⟨-, h⟩ | ⟨-, h⟩
        · refine Relation.ReflTransGen.head (readyReader_move live queue ?_ (by rfl))
            (inductionHypothesis ?_ h)
          · rw [parkBlock, sched_setTerminal_self (by rfl), sched_log_other rfl,
              sched_setPcb_self liveU (by rfl), unlinked]
          · simp [readyReader, parkBlock, unlinkReader]
        · refine Relation.ReflTransGen.head (readyReader_move live queue ?_ (by rfl))
            (inductionHypothesis ?_ h)
          · rw [sched_setPcb_self liveU (by rfl), unlinked]
          · simp [readyReader, unlinkReader]

theorem ttyTrapReceiveHandler_moves {tty : TtyId} {data : List Byte}
    (h : s.ttyTrapReceiveHandler env tty data = .ok s') :
    Sched.Moves env limits s.sched s'.sched := by
  unfold ttyTrapReceiveHandler at h
  have moves : Sched.Moves env limits _ _ := serveReaders_moves rfl h
  rw [sched_setTerminal_self (by rfl), sched_log_other rfl] at moves
  exact moves

/-! ### Calls that the scheduler does not see -/

theorem brk_sched {addr : Word} {status : Status} (h : s.brk env addr = .ok (status, s')) :
    s'.sched = s.sched := by
  unfold brk at h
  by_cases zero : addr = 0
  · rw [if_pos zero] at h
    cases h
    rfl
  · rw [if_neg zero] at h
    simp only [bind_eq_ok, deref_eq_ok] at h
    obtain ⟨c, live, ⟨grown, m, pt⟩, -, h⟩ := h
    by_cases failed : grown = .error
    · simp only [failed, if_true] at h
      cases h
      exact sched_setPcb_self live rfl
    · simp only [failed, if_false, bind_eq_ok, pure_eq_ok] at h
      obtain ⟨⟨vpn, m', pt'⟩, -, h⟩ := h
      cases h
      exact sched_setPcb_self live rfl

theorem growStack_sched {addr : Word} {status : Status}
    (h : s.growStack addr = .ok (status, s')) :
    s'.sched = s.sched ∧ s'.mallocCalls = s.mallocCalls := by
  simp only [growStack, bind_eq_ok, deref_eq_ok] at h
  obtain ⟨c, live, ⟨grown, m, pt⟩, -, h⟩ := h
  by_cases failed : grown = .kill
  · simp only [failed, if_true] at h
    cases h
    exact ⟨sched_setPcb_self live rfl, rfl⟩
  · simp only [failed, if_false] at h
    cases h
    exact ⟨sched_setPcb_self live rfl, rfl⟩

theorem loadImage_proc {req : LoadRequest} {li : LoadInfo} {plan : LoadPlan} {argbuf : ArgBuf}
    {m m' : Memory} {b b' : PCB} {status : Status}
    (h : loadImage req li plan argbuf m b = .ok (status, m', b')) : b'.proc = b.proc := by
  obtain ⟨pt, context, heapStart, heapEnd, stackBase, rfl⟩ := loadImage_pcb h
  rfl

theorem loadProgram_sched {req : LoadRequest} {argv : ArgVector} {p : PcbPtr} {status : Status}
    (h : s.loadProgram env req argv p = .ok (status, s')) : s'.sched = s.sched := by
  obtain ⟨b, live, ⟨-, rfl, -⟩ | ⟨li, args, plan, -, -, -, loaded⟩⟩ := loadProgram_eq_ok h
  · rfl
  · rcases loaded with ⟨-, -, rfl⟩ | ⟨-, m, b', image, rfl⟩
    · exact sched_setPcb_self (b := b) live rfl
    · exact sched_setPcb_self (b := b) live ((loadImage_proc image).trans rfl)

theorem exec_sched {req : LoadRequest} {argv : Word} {rc : Int}
    (h : s.exec env req argv = .ok (rc, s')) : s'.sched = s.sched := by
  simp only [exec, bind_eq_ok] at h
  obtain ⟨⟨status, t⟩, loaded, h⟩ := h
  by_cases failed : status = .error
  · simp only [failed, if_true] at h
    cases h
    exact loadProgram_sched loaded
  · simp only [failed, if_false] at h
    cases h
    exact loadProgram_sched loaded

theorem unpackRead_sched {tty : TtyId} {buf : Word} {len rc : Int}
    (h : s.unpackRead tty buf len rc = .ok s') : s'.sched = s.sched.toUser := by
  obtain ⟨c, live, ⟨block, t, u, -, -, stored, cleared, h⟩ | ⟨-, h⟩⟩ := unpackRead_eq_ok h
  · rw [sched_returnToUser h, sched_log_other rfl, sched_modifyPcb_self cleared fun _ => rfl,
      sched_storeUser stored]
  · rw [sched_returnToUser h, sched_log_other rfl]

/-! ### One step of the machine -/

/-- The step runs `Exit`. -/
def CallsExit (s : Kernel) : Input → Prop
  | .kernelTrap ctx _ => ctx.code = yalnixExit
  | .memoryTrap ctx =>
      ∃ c, s.heap s.currentProcess = some c ∧
        (memoryTrapAction c ctx = .kill ∨
          memoryTrapAction c ctx = .grow ∧ ∃ t, (s.trap ctx).growStack ctx.addr = .ok (.kill, t))
  | .mathTrap _ | .illegalTrap _ => True
  | _ => False

/-- The step is the system call with this number. -/
def Calls (code : Word) : Input → Prop
  | .kernelTrap ctx _ => ctx.code = code
  | _ => False

/-- The current process is about to return from the context switch inside `Wait`. -/
def WaitResumes (s : Kernel) : Prop :=
  ∃ c statusPtr, s.heap s.currentProcess = some c ∧ c.kernelContext = .wait statusPtr

/-- The step runs `Wait`, from its start or from its context switch. -/
def RunsWait (s : Kernel) : Input → Prop
  | .kernelTrap ctx _ => ctx.code = yalnixWait
  | .resume => s.WaitResumes
  | _ => False

/-- The step is a scan of `Wait` that finds the zombie `z`. -/
def Reaps (s : Kernel) (z : PcbPtr) : Input → Prop
  | .kernelTrap ctx _ =>
      ctx.code = yalnixWait ∧ s.queues (.children s.currentProcess) ≠ [] ∧ s.ScanFinds z
  | .resume => s.WaitResumes ∧ s.ScanFinds z
  | _ => False

theorem Reaps.zombie {s : Kernel} {z : PcbPtr} {i : Input} (reaps : s.Reaps z i) :
    z ∈ s.queues .zombie := by
  have finds : s.ScanFinds z := by
    cases i with
    | kernelTrap ctx req => exact reaps.2.2
    | resume => exact reaps.2
    | _ => cases reaps
  obtain ⟨c, -, scanned⟩ := finds
  exact (findZombieChild_some scanned).1

end Kernel

/-- The step keeps to the limits. -/
structure Limits.Allows (limits : Limits) (env : Env) (s : Kernel) (i : Input) : Prop where
  exit : s.CallsExit i → limits.exit s.sched (env.mallocOk s.mallocCalls)
  fork : Kernel.Calls yalnixFork i → limits.fork (env.mallocOk (s.mallocCalls + 5))
  reap : ∀ z, s.Reaps z i → limits.reap s.sched z
  fail : s.RunsWait i → limits.fail
  delay : Kernel.Calls yalnixDelay i → limits.delay
  tty : Kernel.Calls yalnixTtyRead i ∨ Kernel.Calls yalnixTtyWrite i → limits.tty

namespace Kernel

variable {env : Env} {limits : Limits} {s s' : Kernel}

/-- What is left of a call that came back leads to user mode. -/
theorem finish_moves {result : Option Int × Kernel} {done : Int → Kernel → Except Stop Kernel}
    (returns : ∀ {rc : Int} {t u : Kernel}, done rc t = .ok u → u.sched = t.sched.toUser)
    (h : finish result done = .ok s') : Sched.Moves env limits result.2.sched s'.sched := by
  rcases result with ⟨_ | rc, t⟩
  · cases h
    exact Relation.ReflTransGen.refl
  · rw [returns h]
    exact Relation.ReflTransGen.single (.shift <| .toUser _)

theorem finishTtyWrite_sched {tty : Option TtyId} {rc : Int}
    (h : s.finishTtyWrite tty rc = .ok s') : s'.sched = s.sched.toUser := by
  rcases tty with _ | tty
  · exact sched_returnToUser h
  · simp only [finishTtyWrite] at h
    rw [sched_returnToUser h, sched_log_other rfl]

/-- The end of `Fork` in a process that returns from the context switch inside it. -/
theorem forkResumed_move {c : PCB} {child parent : PcbPtr} {t : Kernel}
    (inKernel : s.mode = .kernel) (live : s.heap s.currentProcess = some c)
    (saved : c.kernelContext = .fork child parent) (h : s.forkReturn env child parent = .ok t)
    (restored : t.restoreContext = .ok s') : Sched.Move env limits s.sched s'.sched := by
  simp only [forkReturn, bind_eq_ok, deref_eq_ok] at h
  obtain ⟨c', live', p, parentLive, h⟩ := h
  obtain rfl : c' = c := Option.some.inj (live'.symm.trans live)
  rw [sched_restoreContext restored]
  by_cases pids : c'.pid = p.pid
  · simp only [pids, if_true, bind_eq_ok, deref_eq_ok] at h
    obtain ⟨u, readied, d, childLive, returned⟩ := h
    have view := sched_modifyPcb_self readied fun _ => rfl
    have childView : s.sched.procs child = some d.proc := by
      rw [← view]
      exact procs_of_heap (by simpa using childLive)
    rw [sched_modifyPcb_self returned fun _ => rfl, sched_log_family rfl, sched_queueEnqueue,
      sched_queueEnqueue, view]
    exact Sched.Move.forkAgain inKernel (procs_of_heap live) saved (procs_of_heap parentLive)
      childView pids
  · simp only [pids, if_false] at h
    obtain ⟨c2, live2, rfl⟩ := modifyPcb_eq_ok.mp h
    obtain rfl : c2 = c' := Option.some.inj (live2.symm.trans live)
    rw [sched_setPcb]
    exact Sched.Move.childReturn inKernel (procs_of_heap live) saved (procs_of_heap parentLive) pids

theorem resume_moves (inKernel : s.mode = .kernel) (allowed : limits.Allows env s .resume)
    (h : s.resume env = .ok s') : Sched.Moves env limits s.sched s'.sched := by
  simp only [resume, bind_eq_ok, deref_eq_ok] at h
  obtain ⟨c, live, h⟩ := h
  have view := procs_of_heap live
  have toUser : Sched.Moves env limits s.sched s.sched.toUser :=
    Relation.ReflTransGen.single (.shift <| .toUser _)
  rcases saved : c.kernelContext with
    _ | _ | ⟨child, parent⟩ | _ | _ | statusPtr | ⟨tty, buf, len⟩ | ⟨tty, buf, len⟩ | ⟨tty, len⟩ |
      ⟨frame, origin⟩
  case unsaved =>
    rw [saved] at h
    cases h
  case kernelStart =>
    rw [saved] at h
    rw [sched_restoreContext h]
    exact toUser
  case fork =>
    rw [saved] at h
    simp only [bind_eq_ok] at h
    obtain ⟨t, returned, h⟩ := h
    exact Relation.ReflTransGen.single (forkResumed_move inKernel live saved returned h)
  case clockTrap =>
    rw [saved] at h
    rw [sched_restoreContext h]
    exact toUser
  case delay =>
    rw [saved] at h
    rw [sched_returnToUser h]
    exact toUser
  case wait =>
    rw [saved] at h
    simp only [bind_eq_ok] at h
    obtain ⟨⟨rc, t⟩, resumed, h⟩ := h
    simp only [waitResumed, bind_eq_ok] at resumed
    obtain ⟨⟨found, u⟩, scanned, resumed⟩ := resumed
    rcases waitScan_sched scanned with
      ⟨z, b, d, finds, current, zombie, dead, childOf, rfl, reaped⟩ | ⟨unchanged, b, current, none⟩
    · cases resumed
      have allowed' := allowed.reap z ⟨⟨c, statusPtr, live, saved⟩, finds⟩
      exact Relation.ReflTransGen.single (reap_move allowed' current zombie dead childOf reaped h)
    · obtain ⟨rfl, rfl⟩ := Prod.mk.inj unchanged
      cases resumed
      rw [finishWait_sched h]
      have same : b = c.proc := Option.some.inj (current.symm.trans view)
      subst same
      exact Relation.ReflTransGen.single
        (Sched.Move.noZombie (allowed.fail ⟨c, statusPtr, live, saved⟩) inKernel view saved none)
  case ttyRead =>
    rw [saved] at h
    rw [unpackRead_sched h]
    exact toUser
  case ttyWriteLock =>
    rw [saved] at h
    simp only [bind_eq_ok] at h
    obtain ⟨result, locked, h⟩ := h
    have moves : Sched.Moves env limits _ _ :=
      ttyWriteLocked_moves (Or.inr ⟨c.proc, buf, len, view, saved⟩) locked
    exact moves.trans (finish_moves finishTtyWrite_sched h)
  case ttyWriteDone =>
    rw [saved] at h
    rw [finishTtyWrite_sched h]
    exact toUser
  case exit =>
    rw [saved] at h
    rcases origin with _ | _ | _
    · cases h
      exact toUser
    · cases h
      exact toUser
    · cases h

theorem trapTtyRead_moves (allowed : limits.tty) (user : s.mode = .user)
    (busy : s.currentProcess ≠ s.idleProc) (h : s.trapTtyRead env = .ok s') :
    Sched.Moves env limits s.sched s'.sched := by
  unfold trapTtyRead at h
  by_cases accepted : checkBuffer (s.ctx.regs 1) (s.ctx.regs 2) = true
  · simp only [accepted, if_true, bind_eq_ok] at h
    obtain ⟨t, saved, result, read, h⟩ := h
    have view := sched_saveContext saved
    have user' : t.sched.mode = .user := by
      rw [view]
      exact user
    have busy' : t.sched.current ≠ t.sched.idleProc := by
      rw [view]
      exact busy
    rw [← view]
    have moves : Sched.Moves env limits t.sched result.2.sched := by
      unfold ttyRead at read
      split at read
      · cases read
        exact Relation.ReflTransGen.refl
      · rcases ttyReadValid_move allowed user' busy' read with ⟨-, move⟩ | ⟨-, same⟩
        · exact Relation.ReflTransGen.single move
        · rw [same]
    refine moves.trans (finish_moves ?_ h)
    intro rc u v returned
    split at returned
    · exact unpackRead_sched returned
    · exact sched_returnToUser returned
  · simp only [accepted] at h
    cases h
    exact Relation.ReflTransGen.refl

theorem trapTtyWrite_moves (allowed : limits.tty) (user : s.mode = .user)
    (busy : s.currentProcess ≠ s.idleProc) (h : s.trapTtyWrite env = .ok s') :
    Sched.Moves env limits s.sched s'.sched := by
  unfold trapTtyWrite at h
  by_cases accepted : checkBuffer (s.ctx.regs 1) (s.ctx.regs 2) = true
  · simp only [accepted, if_true, bind_eq_ok] at h
    obtain ⟨t, saved, result, written, h⟩ := h
    have view := sched_saveContext saved
    have user' : t.sched.mode = .user := by
      rw [view]
      exact user
    have busy' : t.sched.current ≠ t.sched.idleProc := by
      rw [view]
      exact busy
    rw [← view]
    refine Relation.ReflTransGen.trans ?_ (finish_moves finishTtyWrite_sched h)
    unfold ttyWrite at written
    split at written
    · cases written
      exact Relation.ReflTransGen.refl
    · exact ttyWriteValid_moves allowed user' busy' written
  · simp only [accepted] at h
    cases h
    exact Relation.ReflTransGen.refl

theorem trapDelay_moves (allowed : limits.delay) (user : s.mode = .user)
    (busy : s.currentProcess ≠ s.idleProc) (h : s.trapDelay env = .ok s') :
    Sched.Moves env limits s.sched s'.sched := by
  simp only [trapDelay, bind_eq_ok] at h
  obtain ⟨t, saved, result, delayed, h⟩ := h
  have view := sched_saveContext saved
  have user' : t.sched.mode = .user := by
    rw [view]
    exact user
  have busy' : t.sched.current ≠ t.sched.idleProc := by
    rw [view]
    exact busy
  rw [← view]
  refine Relation.ReflTransGen.trans ?_ (finish_moves ?_ h)
  · rcases delay_move allowed user' busy' delayed with ⟨-, move⟩ | ⟨-, rfl⟩
    · exact Relation.ReflTransGen.single move
    · exact Relation.ReflTransGen.refl
  · intro rc u v returned
    split at returned
    · cases returned
    · exact sched_returnToUser returned

/-- The system calls that the scheduler does not see. -/
theorem quietTrap_sched (env : Env) (req : LoadRequest)
    (h : s.trapBrk env = .ok s' ∨ s.trapGetPid = .ok s' ∨ s.trapExec env req = .ok s') :
    s'.sched = s.sched.toUser := by
  rcases h with h | h | h
  · simp only [trapBrk, bind_eq_ok] at h
    obtain ⟨t, saved, ⟨status, u⟩, moved, h⟩ := h
    by_cases failed : status = .error
    · simp only [failed, if_true] at h
      cases h
    · simp only [failed, if_false] at h
      rw [sched_returnToUser h, brk_sched moved, sched_saveContext saved]
  · simp only [trapGetPid, bind_eq_ok] at h
    obtain ⟨t, saved, pid, -, h⟩ := h
    by_cases failed : pid = -1
    · simp only [failed, if_true] at h
      cases h
    · simp only [failed, if_false] at h
      rw [sched_returnToUser h, sched_saveContext saved]
  · simp only [trapExec, bind_eq_ok] at h
    obtain ⟨t, saved, ⟨rc, u⟩, loaded, h⟩ := h
    rw [sched_returnToUser h, exec_sched loaded, sched_saveContext saved]

theorem kernelTrapHandler_moves {req : LoadRequest} (user : s.mode = .user)
    (busy : s.currentProcess ≠ s.idleProc) (fresh : s.heap s.nextPcb = none)
    (allowed : limits.Allows env s (.kernelTrap s.ctx req))
    (h : s.kernelTrapHandler env req = .ok s') : Sched.Moves env limits s.sched s'.sched := by
  have quiet : ∀ {t : Kernel}, t.sched = s.sched.toUser →
      Sched.Moves env limits s.sched t.sched := by
    intro t view
    rw [view]
    exact Relation.ReflTransGen.single (.shift <| .toUser _)
  cases kernelTrapHandler_eq_ok h with
  | delay code ran => exact trapDelay_moves (allowed.delay code) user busy ran
  | brk _ ran => exact quiet (quietTrap_sched env req (Or.inl ran))
  | fork code ran => exact trapFork_moves (allowed.fork code) user busy fresh ran
  | getPid _ ran => exact quiet (quietTrap_sched env req (Or.inr (Or.inl ran)))
  | wait code ran =>
      exact trapWait_moves (fun z parent finds => allowed.reap z ⟨code, parent, finds⟩)
        (allowed.fail code) user busy ran
  | exit code ran =>
      exact Relation.ReflTransGen.single (exit_move (allowed.exit code) user busy ran)
  | exec _ ran => exact quiet (quietTrap_sched env req (Or.inr (Or.inr ran)))
  | ttyRead code ran => exact trapTtyRead_moves (allowed.tty (Or.inl code)) user busy ran
  | ttyWrite code ran => exact trapTtyWrite_moves (allowed.tty (Or.inr code)) user busy ran
  | unknown _ same =>
      subst same
      exact Relation.ReflTransGen.refl

theorem memoryTrapHandler_moves (user : s.mode = .user) (busy : s.currentProcess ≠ s.idleProc)
    (allowed : limits.Allows env s (.memoryTrap s.ctx)) (h : s.memoryTrapHandler env = .ok s') :
    Sched.Moves env limits s.sched s'.sched := by
  simp only [memoryTrapHandler, bind_eq_ok, deref_eq_ok] at h
  obtain ⟨c, live, h⟩ := h
  rcases action : memoryTrapAction c s.ctx with _ | _ | _
  · simp only [action, bind_eq_ok] at h
    obtain ⟨⟨status, t⟩, grown, h⟩ := h
    obtain ⟨view, calls⟩ := growStack_sched grown
    by_cases failed : status = .kill
    · subst failed
      simp only [if_true] at h
      have limit := allowed.exit ⟨c, live, Or.inr ⟨action, t, grown⟩⟩
      rw [← view] at limit ⊢
      rw [← calls] at limit
      exact Relation.ReflTransGen.single
        (exit_move limit (by rw [← sched_mode, view]; exact user) (by
          rw [← sched_current, ← sched_idleProc, view]
          exact busy) h)
    · simp only [failed, if_false] at h
      cases h
      rw [view]
  · simp only [action] at h
    exact Relation.ReflTransGen.single
      (exit_move (allowed.exit ⟨c, live, Or.inl action⟩) user busy h)
  · simp only [action] at h
    cases h
    exact Relation.ReflTransGen.refl

/-- A step that calls `Exit` ends with it. -/
theorem step_exit {i : Input} (calls : s.CallsExit i) (h : s.deliver env i = .ok s') :
    ∃ t status origin, t.sched = s.sched ∧ t.mallocCalls = s.mallocCalls ∧
      exit env status origin t = .ok s' := by
  cases i with
  | kernelTrap ctx req =>
      have code : (s.trap ctx).ctx.code = yalnixExit := calls
      refine ⟨s.trap ctx, (s.trap ctx).ctx.intReg 0, .syscall, rfl, rfl, ?_⟩
      simpa [deliver, kernelTrapHandler, code, trapExit] using h
  | memoryTrap ctx =>
      obtain ⟨c, live, reason⟩ := calls
      have found : (s.trap ctx).deref (s.trap ctx).currentProcess = .ok c := deref_eq_ok.mpr live
      simp only [deliver, memoryTrapHandler, bind_eq_ok] at h
      obtain ⟨c', live', h⟩ := h
      obtain rfl : c' = c := Except.ok.inj (live'.symm.trans found)
      rcases reason with kill | ⟨grow, t, grown⟩
      · have action : memoryTrapAction c' (s.trap ctx).ctx = .kill := kill
        simp only [action] at h
        exact ⟨s.trap ctx, _, .memoryTrap, rfl, rfl, h⟩
      · have action : memoryTrapAction c' (s.trap ctx).ctx = .grow := grow
        simp only [action, bind_eq_ok] at h
        obtain ⟨⟨status, u⟩, grown', h⟩ := h
        obtain ⟨rfl, rfl⟩ := Prod.mk.inj (Except.ok.inj (grown'.symm.trans grown))
        obtain ⟨view, count⟩ := growStack_sched grown
        exact ⟨u, _, .memoryTrap, view, count, h⟩
  | mathTrap ctx => exact ⟨s.trap ctx, _, .fatalTrap, rfl, rfl, h⟩
  | illegalTrap ctx => exact ⟨s.trap ctx, _, .fatalTrap, rfl, rfl, h⟩
  | _ => cases calls

/-- Every step of the machine that keeps to the limits is a sequence of moves. -/
theorem deliver_moves {i : Input} (fresh : s.heap s.nextPcb = none)
    (allowed : limits.Allows env s i) (step : s.Step env i s') :
    Sched.Moves env limits s.sched s'.sched := by
  obtain ⟨enabled, h⟩ := step
  cases i with
  | kernelTrap ctx req =>
      have allowed' : limits.Allows env (s.trap ctx) (.kernelTrap ctx req) :=
        ⟨allowed.exit, allowed.fork,
          fun z ⟨code, parent, finds⟩ =>
            allowed.reap z ⟨code, parent, finds.congr (sched_trap ctx)⟩,
          allowed.fail, allowed.delay, allowed.tty⟩
      exact kernelTrapHandler_moves (s := s.trap ctx) enabled.1 enabled.2 fresh allowed' h
  | clockTrap ctx => exact clockTrapHandler_moves (s := s.trap ctx) enabled h
  | memoryTrap ctx =>
      have allowed' : limits.Allows env (s.trap ctx) (.memoryTrap ctx) :=
        ⟨allowed.exit, allowed.fork, fun _ reaps => reaps.elim, fun waits => waits.elim,
          allowed.delay, allowed.tty⟩
      exact memoryTrapHandler_moves (s := s.trap ctx) enabled.1 enabled.2 allowed' h
  | mathTrap ctx =>
      exact Relation.ReflTransGen.single
        (exit_move (s := s.trap ctx) (allowed.exit trivial) enabled.1 enabled.2 h)
  | illegalTrap ctx =>
      exact Relation.ReflTransGen.single
        (exit_move (s := s.trap ctx) (allowed.exit trivial) enabled.1 enabled.2 h)
  | ttyReceiveTrap ctx tty data => exact ttyTrapReceiveHandler_moves (s := s.trap ctx) h
  | ttyTransmitTrap ctx tty => exact ttyTrapTransmitHandler_moves (s := s.trap ctx) h
  | resume => exact resume_moves enabled allowed h
  | userStore va bytes =>
      rw [sched_storeUser h]
  | kernelBrk addr =>
      cases h
      exact Relation.ReflTransGen.refl

end Kernel

end Yalnix
