/-
Module: Yalnix.Proofs.WakeUps
Purpose: Nobody who waits is forgotten: a process inside Delay, Wait, TtyRead or TtyWrite has the
  processor, is ready, or is registered with what will make it ready.
Trusted boundary: malloc succeeds; for the writers, a transmit trap answers a call of TtyTransmit
Main exports: Sched.Watched, Move.watched, Kernel.WakesLater, nobody_forgotten, Kernel.Attended,
  no_writer_forgotten
-/
import Yalnix.Proofs.Dispatching
import Yalnix.Proofs.Places
import Yalnix.Proofs.SerialWrites

namespace Yalnix

open Transition

/-! ### The scheduler -/

namespace Sched

variable {env : Env} {limits : Limits} {s s' t : Sched} {p q : PcbPtr} {b b' : Proc}

/-- What a process waits for inside a call is still to come, and will find the process. -/
def Expects (s : Sched) (p : PcbPtr) (b : Proc) : Prop :=
  match b.kernelContext with
  | .delay => 0 < b.delayTicks
  | .wait _ => b.waitingForChildPid = 1
  | .ttyRead tty .. => p ∈ s.queues (.readers tty)
  | .ttyWriteLock tty .. => p ∈ s.queues (.writers tty)
  | .unsaved | .kernelStart | .fork .. | .clockTrap | .ttyWriteDone .. | .exit .. => True

/-- The process has the processor, is ready, or waits for something that will find it. -/
def Watched (s : Sched) (p : PcbPtr) : Prop :=
  ∀ b, s.procs p = some b → p = s.current ∨ p ∈ s.queues .ready ∨ s.Expects p b

/-- The process gets from no queue of ready processes, readers or writers, and waits for what it
waited for. -/
structure Spared (s s' : Sched) (p : PcbPtr) : Prop where
  current : p = s.current → p = s'.current
  ready : p ∈ s.queues .ready → p ∈ s'.queues .ready
  readers : ∀ tty, p ∈ s.queues (.readers tty) → p ∈ s'.queues (.readers tty)
  writers : ∀ tty, p ∈ s.queues (.writers tty) → p ∈ s'.queues (.writers tty)
  procs : ∀ b', s'.procs p = some b' → ∃ b, s.procs p = some b ∧
    b'.kernelContext = b.kernelContext ∧ (0 < b.delayTicks → 0 < b'.delayTicks) ∧
      b'.waitingForChildPid = b.waitingForChildPid

theorem Expects.spared (expects : s.Expects p b) (context : b'.kernelContext = b.kernelContext)
    (delay : 0 < b.delayTicks → 0 < b'.delayTicks)
    (flag : b'.waitingForChildPid = b.waitingForChildPid)
    (readers : ∀ tty, p ∈ s.queues (.readers tty) → p ∈ s'.queues (.readers tty))
    (writers : ∀ tty, p ∈ s.queues (.writers tty) → p ∈ s'.queues (.writers tty)) :
    s'.Expects p b' := by
  unfold Expects at expects ⊢
  rw [context]
  cases saved : b.kernelContext with
  | delay =>
      rw [saved] at expects
      exact delay expects
  | wait statusPtr =>
      rw [saved] at expects
      exact flag.trans expects
  | ttyRead tty buf len =>
      rw [saved] at expects
      exact readers tty expects
  | ttyWriteLock tty buf len =>
      rw [saved] at expects
      exact writers tty expects
  | _ => trivial

theorem Spared.watched (spared : Spared s s' p) (watched : s.Watched p) : s'.Watched p := by
  intro b' found
  obtain ⟨b, was, context, delay, flag⟩ := spared.procs b' found
  rcases watched b was with current | ready | expects
  · exact Or.inl (spared.current current)
  · exact Or.inr (Or.inl (spared.ready ready))
  · exact Or.inr (Or.inr (expects.spared context delay flag spared.readers spared.writers))

/-! ### Elementary changes -/

namespace Watched

/-- Neither the PCB of the process, nor the processor, nor its queues change. -/
theorem of_same (watched : s.Watched p) (procs : s'.procs p = s.procs p)
    (current : s'.current = s.current)
    (queues : ∀ queue, p ∈ s.queues queue → p ∈ s'.queues queue) : s'.Watched p :=
  Spared.watched
    { current := fun same => same.trans current.symm
      ready := queues .ready
      readers := fun tty => queues (.readers tty)
      writers := fun tty => queues (.writers tty)
      procs := fun b' found => ⟨b', procs ▸ found, rfl, id, rfl⟩ } watched

theorem push (watched : s.Watched p) (kept : Bool) (queue : QueueId) :
    (s.push kept queue q).Watched p := by
  refine watched.of_same rfl rfl fun other member => ?_
  rw [push_queues]
  by_cases here : other = queue
  · subst here
    rw [Function.update_self]
    split
    · exact List.mem_append_left _ member
    · exact member
  · rw [Function.update_of_ne here]
    exact member

/-- The blocked queue, the zombies and the children are not what a process is woken from. -/
theorem setQueue (watched : s.Watched p) {queue : QueueId} (entries : List PcbPtr)
    (ready : queue ≠ .ready) (readers : ∀ tty, queue ≠ .readers tty)
    (writers : ∀ tty, queue ≠ .writers tty) : (s.setQueue queue entries).Watched p := by
  have kept : ∀ place, queue ≠ place → p ∈ s.queues place →
      p ∈ (s.setQueue queue entries).queues place := by
    intro place other member
    rw [setQueue_queues, Function.update_of_ne other.symm]
    exact member
  have spared : Spared s (s.setQueue queue entries) p :=
    ⟨id, kept _ ready, fun tty => kept _ (readers tty), fun tty => kept _ (writers tty),
      fun b' found => ⟨b', found, rfl, id, rfl⟩⟩
  exact spared.watched watched

theorem remove_blocked (watched : s.Watched p) : (s.remove .blocked q).Watched p :=
  watched.setQueue _ (by simp) (by simp) (by simp)

/-- Another process leaves a queue at the head. -/
theorem pop (watched : s.Watched p) {queue : QueueId} {rest : List PcbPtr}
    (head : s.queues queue = q :: rest) (other : p ≠ q) : (s.setQueue queue rest).Watched p := by
  refine watched.of_same rfl rfl fun place member => ?_
  rw [setQueue_queues]
  by_cases here : place = queue
  · subst here
    rw [Function.update_self]
    rw [head] at member
    exact (List.mem_cons.mp member).resolve_left other
  · rw [Function.update_of_ne here]
    exact member

theorem setProc_other (watched : s.Watched p) (other : p ≠ q) : (s.setProc q b).Watched p :=
  watched.of_same (Function.update_of_ne other ..) rfl fun _ => id

/-- A PCB is written, but not what it waits for. -/
theorem setProc (watched : s.Watched p) (live : s.procs q = some b)
    (context : b'.kernelContext = b.kernelContext) (delay : 0 < b.delayTicks → 0 < b'.delayTicks)
    (flag : b'.waitingForChildPid = b.waitingForChildPid) : (s.setProc q b').Watched p := by
  by_cases here : p = q
  · subst here
    have spared : Spared s (s.setProc p b') p := by
      refine ⟨id, id, fun _ => id, fun _ => id, fun c found => ?_⟩
      rw [setProc_procs, Function.update_self] at found
      obtain rfl := Option.some.inj found
      exact ⟨b, live, context, delay, flag⟩
    exact spared.watched watched
  · exact watched.setProc_other here

/-- A process that enters the ready queue may lose everything else. -/
theorem readied (others : p ≠ q → t.Watched p) : (t.push true .ready q).Watched p := by
  by_cases here : p = q
  · subst here
    intro b found
    refine Or.inr (Or.inl ?_)
    rw [push_queues, Function.update_self, if_pos rfl]
    exact List.mem_append_right _ (List.mem_singleton.mpr rfl)
  · exact (others here).push true .ready

/-- Leaving the blocked queue for the ready queue. -/
theorem woken (others : p ≠ q → t.Watched p) :
    ((t.remove .blocked q).push true .ready q).Watched p :=
  readied fun other => (others other).remove_blocked

/-- The processor goes to `q`, and the process it is taken from waits for something. -/
theorem enter {kc : KernelContext}
    (others : p ≠ q → p ≠ s.current → s.Watched p)
    (own : s.Expects s.current { b with kernelContext := kc }) :
    ((s.setProc s.current { b with kernelContext := kc }).enter q).Watched p := by
  intro c found
  by_cases entered : p = q
  · exact Or.inl entered
  · refine Or.inr ?_
    rw [enter_procs, setProc_procs] at found
    by_cases left : p = s.current
    · rw [left, Function.update_self] at found
      obtain rfl := Option.some.inj found
      rw [left]
      exact Or.inr own
    · rw [Function.update_of_ne left] at found
      exact (others entered left c found).resolve_left left

/-- The current process leaves the processor to wait for something; the first ready process gets
it. -/
theorem dispatch {kc : KernelContext} (switch : Dispatch kc t s')
    (others : p ≠ t.current → t.Watched p)
    (own : ∀ b, t.procs t.current = some b →
      t.Expects t.current { b with kernelContext := kc }) : s'.Watched p := by
  cases switch with
  | @next b n q rest live ready next =>
      refine enter (s := t.setQueue .ready rest) (fun entered left => ?_) (own b live)
      exact (others left).pop ready entered
  | @idle b n found ready next => exact enter (fun _ left => others left) (own b found)

/-- A reaped process is forgotten, and its children lose their parent. -/
theorem delete (watched : s.Watched p) : (s.delete q).Watched p := by
  have spared : Spared s (s.delete q) p := by
    refine ⟨id, fun member => ?_, fun tty member => ?_, fun tty member => ?_, fun b' found => ?_⟩
    · simpa using member
    · simpa using member
    · simpa using member
    · obtain ⟨-, b, was, rfl⟩ := delete_procs_some.mp found
      exact ⟨b, was, rfl, id, rfl⟩
  exact spared.watched watched

/-- A new process waits for nothing. -/
theorem spawn (watched : s.Watched p) (env : Env) (b : Proc) (inReady inChildren : Bool) :
    (s.spawn env b inReady inChildren).Watched p := by
  let grown : Sched :=
    { s with
      nextPcb := s.nextPcb + 1
      pidCalls := s.pidCalls + 1
      procTable := s.slotTaken }
  have same : grown.Watched p := watched.of_same rfl rfl fun _ => id
  have made : (grown.setProc s.nextPcb (newProc env s b)).Watched p := by
    by_cases new : p = s.nextPcb
    · subst new
      intro c found
      rw [setProc_procs, Function.update_self] at found
      obtain rfl := Option.some.inj found
      exact Or.inr (Or.inr trivial)
    · exact same.setProc_other new
  have childless : ((grown.setProc s.nextPcb (newProc env s b)).setQueue
      (.children s.nextPcb) []).Watched p := made.setQueue [] (by simp) (by simp) (by simp)
  have entered := (childless.push (q := s.nextPcb) inReady .ready).push (q := s.nextPcb) inChildren
    (.children s.current)
  exact entered.of_same rfl rfl fun _ => id

end Watched

theorem Dispatch.writer {kc : KernelContext} (switch : Dispatch kc s s') :
    s'.writer = s.writer := by
  cases switch with
  | next => rfl
  | idle => rfl

/-! ### Moves -/

theorem Shift.watched (memory : ∀ k, env.mallocOk k = true) (undelayed : ¬ limits.delay)
    (move : Shift env limits s s') (watched : s.Watched p) : s'.Watched p := by
  cases move with
  | toUser => exact watched
  | tick live delayed => exact watched.setProc live rfl (fun _ => by simp; omega) rfl
  | wakeDelayed live delayed =>
      rw [memory]
      exact .woken watched.setProc_other
  | wakeReader live queue =>
      rw [memory]
      exact .woken (watched.pop queue)
  | wakeWriter live queue =>
      rw [memory]
      exact .woken (watched.pop queue)
  | wakeWriterBlocked failed =>
      rw [memory] at failed
      cases failed
  | wakeWriting live writer =>
      rw [memory]
      exact .woken fun _ => watched.of_same rfl rfl fun _ => id
  | delay allowed => exact absurd allowed undelayed
  | @blockReader _ tty buf len k k' allowed user busy switch =>
      refine .dispatch switch (fun _ => (watched.push _ _).push _ _) fun b live => ?_
      simp [Expects, memory]
  | @blockWriter _ tty buf len k k' allowed user busy switch =>
      refine .dispatch switch (fun _ => (watched.push _ _).push _ _) fun b live => ?_
      simp [Expects, memory]
  | @blockWriting _ tty len k allowed switch =>
      have written : (s.setWriter tty (some s.current)).Watched p :=
        watched.of_same rfl rfl fun _ => id
      exact .dispatch switch (fun _ => written.push _ _) fun b live => trivial
  | @blockWait _ b statusPtr user busy live none switch =>
      refine .dispatch switch (fun other => watched.setProc_other other) fun c found => ?_
      rw [setProc_procs, setProc_current, Function.update_self] at found
      obtain rfl := Option.some.inj found
      rfl
  | @preempt b n q rest kept user live ready next =>
      refine Watched.enter (s := (s.setQueue .ready rest).push kept .ready s.current)
        (fun entered _ => (watched.pop ready entered).push _ _) trivial

/-- The parent of an exiting process is woken if it waits. -/
theorem WakeParent.watched {parent : Option PcbPtr} (memory : ∀ k, env.mallocOk k = true)
    (wake : WakeParent env s parent s') (watched : s.Watched p) : s'.Watched p := by
  cases wake with
  | noParent => exact watched
  | waiting live flag =>
      rw [memory]
      exact .readied watched.setProc_other
  | notWaiting => exact watched

theorem Move.watched (memory : ∀ k, env.mallocOk k = true) (undelayed : ¬ limits.delay)
    (move : Move env limits s s') (watched : s.Watched p) : s'.Watched p := by
  cases move with
  | shift moved => exact moved.watched memory undelayed watched
  | @exit woken _ b status frame origin k allowed user busy live notInit wake switch =>
      have marked : (s.zombified b status (env.mallocOk k)).Watched p := by
        have queued := watched.push (q := s.current) (env.mallocOk k) .zombie
        have ended : ((s.push (env.mallocOk k) .zombie s.current).setProc s.current
            { b with exitStatus := status }).Watched p := queued.setProc live rfl id rfl
        exact ended.of_same rfl rfl fun _ => id
      exact .dispatch switch (fun _ => wake.watched memory marked) fun c found => trivial
  | fork => exact watched.spawn env _ _ _
  | @childReturn b q child parent inKernel live saved parentLive pids =>
      exact watched.setProc live rfl id rfl
  | forkAgain => exact ((watched.push _ _).push _ _).of_same rfl rfl fun _ => id
  | @reap b c z statusPtr allowed live zombie dead child =>
      have unlinked : ((s.remove (.children s.current) z).remove .zombie z).Watched p :=
        (watched.setQueue _ (by simp) (by simp) (by simp)).setQueue _ (by simp) (by simp) (by simp)
      exact unlinked.delete.of_same rfl rfl fun _ => id
  | noChildren => exact watched.of_same rfl rfl fun _ => id
  | noZombie => exact watched.of_same rfl rfl fun _ => id

theorem Moves.watched (memory : ∀ k, env.mallocOk k = true) (undelayed : ¬ limits.delay)
    (run : Moves env limits s s') (watched : s.Watched p) : s'.Watched p := by
  induction run with
  | refl => exact watched
  | tail _ last inductionHypothesis => exact last.watched memory undelayed inductionHypothesis

theorem watched_booted {ready : Bool} : (booted env ready).Watched p := by
  intro b found
  refine Or.inr (Or.inr ?_)
  rw [booted_procs] at found
  split at found
  · obtain rfl := Option.some.inj found
    trivial
  · split at found
    · obtain rfl := Option.some.inj found
      trivial
    · cases found

end Sched

/-! ### The machine -/

namespace Kernel

variable {env : Env} {cfg : BootConfig} {boot s s' : Kernel} {p : PcbPtr} {b : PCB}

/-- What a process waits for inside a call is still to come, and will find the process: a clock
tick, an exit of a child, a received line, or the end of the writes before. -/
def WakesLater (s : Kernel) (p : PcbPtr) (b : PCB) : Prop :=
  match b.kernelContext with
  | .delay => p ∈ s.queues .blocked ∧ 0 < b.delayTicks
  | .wait _ => b.waitingForChildPid = 1
  | .ttyRead tty .. => p ∈ s.queues .blocked ∧ p ∈ s.queues (.readers tty)
  | .ttyWriteLock tty .. => p ∈ s.queues .blocked ∧ p ∈ s.queues (.writers tty)
  | .unsaved | .kernelStart | .fork .. | .clockTrap | .ttyWriteDone .. | .exit .. => True

/-- `Delay` is not called with -1, which passes its test and is never counted down. -/
def DelayEnds : Input → Prop
  | .kernelTrap ctx _ => ctx.code = yalnixDelay → ctx.intReg 0 ≠ -1
  | _ => True

/-- Exits as `ExitsWritten` says, and delays that end. -/
structure Awaitable (s : Kernel) (i : Input) : Prop where
  exits : s.ExitsWritten i
  delay : DelayEnds i

instance : (i : Input) → Decidable (DelayEnds i)
  | .kernelTrap ctx _ =>
      inferInstanceAs (Decidable (ctx.code = yalnixDelay → ctx.intReg 0 ≠ -1))
  | .clockTrap _ | .memoryTrap _ | .mathTrap _ | .illegalTrap _ | .ttyReceiveTrap ..
  | .ttyTransmitTrap .. | .resume | .userStore .. | .kernelBrk _ =>
      inferInstanceAs (Decidable True)

/-- The limits of a step that is no call of `Delay`. -/
def undelayedLimits : Limits := { exitLimits with delay := False }

theorem ExitsWritten.allowsUndelayed {i : Input} (guard : s.ExitsWritten i)
    (undelayed : ¬ Calls yalnixDelay i) : undelayedLimits.Allows env s i :=
  { @ExitsWritten.allows env s i guard with delay := fun delays => absurd delays undelayed }

/-- A delay that ends is registered as such. -/
theorem trapDelay_watched (ends : s.ctx.intReg 0 ≠ -1) (h : s.trapDelay env = .ok s')
    (watched : s.sched.Watched p) : s'.sched.Watched p := by
  simp only [trapDelay, bind_eq_ok] at h
  obtain ⟨t, saved, result, called, h⟩ := h
  rw [← sched_saveContext saved] at watched
  have finished : result.2.sched.Watched p → s'.sched.Watched p := by
    intro stays
    rcases result with ⟨_ | rc, u⟩
    · cases h
      exact stays
    · simp only [finish] at h
      split at h
      · cases h
      · rw [sched_returnToUser h]
        exact stays
  apply finished
  unfold delay at called
  split at called
  · cases called
    exact watched
  · rename_i nonzero
    split at called
    · cases called
      exact watched
    · rename_i above
      simp only [bind_eq_ok, modifyPcb_eq_ok, pure_eq_ok] at called
      obtain ⟨_, ⟨c, live, rfl⟩, u, switched, rfl⟩ := called
      have switch := dispatch_sched switched
      rw [sched_queueEnqueue, sched_setPcb] at switch
      refine Sched.Watched.dispatch switch
        (fun other => (watched.setProc_other other).push _ _) fun d found => ?_
      have current : (t.sched.setProc t.currentProcess
          { c with delayTicks := s.ctx.intReg 0, state := .blocked }.proc).procs
            t.currentProcess = some d := found
      rw [Sched.setProc_procs, Function.update_self] at current
      obtain rfl := Option.some.inj current
      change 0 < s.ctx.intReg 0
      omega

theorem watched_step {i : Input} (memory : ∀ k, env.mallocOk k = true)
    (known : Sched.Registered env s.sched) (guard : s.Awaitable i) (step : s.Step env i s')
    (watched : s.sched.Watched p) : s'.sched.Watched p := by
  by_cases delays : Calls yalnixDelay i
  · cases i with
    | kernelTrap ctx req =>
        have code : (s.trap ctx).ctx.code = yalnixDelay := delays
        have ran : (s.trap ctx).trapDelay env = .ok s' := by
          simpa [deliver, kernelTrapHandler, code] using step.2
        exact trapDelay_watched (s := s.trap ctx) (guard.delay code) ran watched
    | _ => cases delays
  · have moves := deliver_moves (fresh_of_registered known) (guard.exits.allowsUndelayed delays) step
    exact moves.watched memory id watched

theorem Awaitable.written (run : Reaches (Guarded (Step env) Awaitable) boot s) :
    Reaches (Guarded (Step env) ExitsWritten) boot s :=
  Reaches.mono (fun _ _ _ taken => ⟨taken.1.exits, taken.2⟩) run

theorem watched_reaches (distinct : Function.Injective env.helperNewPid)
    (memory : ∀ k, env.mallocOk k = true) (started : kernelStart env cfg = .ok boot)
    (run : Reaches (Guarded (Step env) Awaitable) boot s) (p : PcbPtr) : s.sched.Watched p := by
  induction run with
  | refl =>
      obtain ⟨ready, view⟩ := kernelStart_sched started
      rw [view]
      exact Sched.watched_booted
  | @tail u v before last inductionHypothesis =>
      obtain ⟨i, guard, step⟩ := last
      have written := Awaitable.written before
      exact watched_step memory (registered_reaches distinct started written) guard step
        inductionHypothesis

/-- What a terminal or a delay holds of a process counts as pending. -/
theorem pending_pos {tty : TtyId} (entered : p ∈ s.queues (.readers tty) ∨
    p ∈ s.queues (.writers tty) ∨ (s.terminals tty).currentWriter = some p) :
    0 < s.sched.pending p := by
  have entries : 0 < s.sched.terminalEntries p tty := by
    unfold Sched.terminalEntries
    rcases entered with reads | writes | owns
    · have counted := List.count_pos_iff.mpr reads
      simp only [sched_queues]
      omega
    · have counted := List.count_pos_iff.mpr writes
      simp only [sched_queues]
      omega
    · have owner : s.sched.writer tty = some p := owns
      rw [owner]
      simp only [Tally.same_self]
      omega
  have sum : s.sched.terminalEntries p tty ≤ s.sched.ttyEntries p := Tally.entry_le_sum _ tty
  unfold Sched.pending
  omega

/-- A process that comes back from `Delay`, `Wait` or `TtyRead`, or from waiting for its terminal in
`TtyWrite`, and neither has the processor nor is ready, is registered with what will make it ready,
in the queue where that will look for it. -/
theorem nobody_forgotten (distinct : Function.Injective env.helperNewPid)
    (memory : ∀ k, env.mallocOk k = true) (started : kernelStart env cfg = .ok boot)
    (run : Reaches (Guarded (Step env) Awaitable) boot s) (live : s.heap p = some b)
    (away : p ≠ s.currentProcess) (unready : p ∉ s.queues .ready) : s.WakesLater p b := by
  have written := Awaitable.written run
  have expects : s.sched.Expects p b.proc := by
    rcases watched_reaches distinct memory started run p b.proc (procs_of_heap live) with
      current | ready | expects
    · exact absurd current away
    · exact absurd ready unready
    · exact expects
  have blocked : p ≠ s.idleProc → 0 < s.sched.pending p → p ∈ s.queues .blocked := by
    intro notIdle waits
    have backed := (placed_reaches distinct memory started written notIdle).backed
    exact List.count_pos_iff.mp (Nat.lt_of_lt_of_le waits backed)
  have notIdle := (idleCalm_reaches distinct started written).ne_idle live
  unfold Sched.Expects at expects
  unfold WakesLater
  have context : b.proc.kernelContext = b.kernelContext := rfl
  rw [context] at expects
  cases saved : b.kernelContext with
  | delay =>
      rw [saved] at expects notIdle
      have delays : 0 < b.delayTicks := expects
      refine ⟨blocked (notIdle (by simp) (by simp)) ?_, delays⟩
      have counted : Sched.pcbDelay (s.sched.procs p) = 1 := by
        rw [procs_of_heap live]
        exact if_pos delays
      unfold Sched.pending
      omega
  | wait statusPtr =>
      rw [saved] at expects
      exact expects
  | ttyRead tty buf len =>
      rw [saved] at expects notIdle
      have reads : p ∈ s.queues (.readers tty) := expects
      exact ⟨blocked (notIdle (by simp) (by simp)) (pending_pos (Or.inl reads)), reads⟩
  | ttyWriteLock tty buf len =>
      rw [saved] at expects notIdle
      have waits : p ∈ s.queues (.writers tty) := expects
      exact ⟨blocked (notIdle (by simp) (by simp)) (pending_pos (Or.inr (Or.inl waits))), waits⟩
  | _ => trivial

/-- Who calls nothing but listed calls, and `Exit` is none of them, does not exit. -/
theorem exitsWritten_of_among {i : Input} {calls : List Word} (absent : yalnixExit ∉ calls)
    (among : i.among calls = true) : s.ExitsWritten i := by
  intro exits
  cases i with
  | kernelTrap ctx req =>
      have code : ctx.code = yalnixExit := exits
      have listed : ctx.code ∈ calls := of_decide_eq_true among
      exact absurd (code ▸ listed) absent
  | memoryTrap | mathTrap | illegalTrap => cases among
  | _ => cases exits

/-- Init delays, its child reads, and idle has the processor. -/
theorem nobody_forgotten_sample : ∃ (s : Kernel) (b c : PCB), s.heap 1 = some b ∧
    s.heap 2 = some c ∧ b.delayTicks = 2 ∧ s.queues (.readers 0) = [2] ∧ s.WakesLater 1 b ∧
      s.WakesLater 2 c := by
  have answer : runs sampleEnv sampleBoot
      (fun _ i => i.among [yalnixFork, yalnixDelay, yalnixTtyRead, yalnixTtyWrite] &&
        decide (DelayEnds i))
      [.tick, .resume, .call yalnixFork 0 0 0, .call yalnixDelay 2 0 0, .resume,
        .call yalnixTtyRead 0 0x102000 4]
      (fun s => decide (s.queues (.readers 0) = [2] ∧ s.queues .ready = [] ∧
        s.currentProcess = 0) && (s.heap 1).any (fun b => decide (b.delayTicks = 2)) &&
          (s.heap 2).isSome) = .ok true := by
    decide +kernel
  obtain ⟨boot, s, started, run, known⟩ := runs_sound Awaitable
    (fun s i checked => by
      obtain ⟨among, ends⟩ := Bool.and_eq_true_iff.mp checked
      exact ⟨exitsWritten_of_among (by decide) among, of_decide_eq_true ends⟩) answer
  simp only [Bool.and_eq_true_iff, decide_eq_true_iff] at known
  obtain ⟨⟨⟨readers, ready, current⟩, delays⟩, there⟩ := known
  obtain ⟨b, live, delays⟩ := (Option.any_eq_true _ _).mp delays
  obtain ⟨c, live'⟩ := Option.isSome_iff_exists.mp there
  have unready : ∀ p, p ∉ s.queues .ready := by
    intro p
    rw [ready]
    exact List.not_mem_nil
  have away : 1 ≠ s.currentProcess ∧ 2 ≠ s.currentProcess := by
    rw [current]
    exact ⟨by decide, by decide⟩
  exact ⟨s, b, c, live, live', of_decide_eq_true delays, readers,
    nobody_forgotten sampleEnv_distinct (fun _ => rfl) started run live away.1 (unready 1),
    nobody_forgotten sampleEnv_distinct (fun _ => rfl) started run live' away.2 (unready 2)⟩

/-! ### Writers whose bytes are being sent -/

variable {tty other : TtyId} {len : Nat}

/-- A call of `TtyWrite` leaves the terminals to those they write for. -/
theorem trapTtyWrite_owner (memory : ∀ k, env.mallocOk k = true)
    (unowned : (s.terminals tty).inUse = false → (s.terminals tty).currentWriter = none)
    (owner : s.sched.writer tty = some p) (h : s.trapTtyWrite env = .ok s') :
    s'.sched.writer tty = some p := by
  unfold trapTtyWrite at h
  simp only at h
  by_cases checked : checkBuffer (s.ctx.regs 1) (s.ctx.regs 2) = true
  · rw [if_pos checked] at h
    simp only [bind_eq_ok] at h
    obtain ⟨t, saved, result, called, h⟩ := h
    obtain ⟨c, -, frame⟩ := saveContext_eq_ok.mp saved
    have owner' : t.sched.writer tty = some p := by
      rw [sched_saveContext saved]
      exact owner
    unfold ttyWrite at called
    rcases arguments : ttyArguments (s.ctx.intReg 0) (s.ctx.regs 1) (s.ctx.intReg 2) with
      _ | ⟨line, n⟩
    · rw [arguments] at called h
      cases called
      have returned : t.finishTtyWrite none Status.error.code = .ok s' := h
      rw [finishTtyWrite_sched returned]
      exact owner'
    · rw [arguments] at called h
      simp only [ttyWriteValid, log_terminals] at called
      by_cases busy : (t.terminals line).inUse = true
      · simp only [busy, if_true, bind_eq_ok, pure_eq_ok] at called
        obtain ⟨v, blocked, w, switched, rfl⟩ := called
        cases h
        rw [(dispatch_sched switched).writer, sched_queueEnqueue,
          sched_modifyPcb_self blocked fun _ => rfl, sched_queueEnqueue, sched_log_other rfl]
        exact owner'
      · rw [if_neg busy] at called
        have apart : tty ≠ line := by
          rintro rfl
          rw [frame] at busy
          have nobody : s.sched.writer tty = none := unowned (Bool.eq_false_iff.mpr busy)
          rw [nobody] at owner
          cases owner
        obtain ⟨d, live, ⟨failed, -⟩ | ⟨failed, -⟩ | ⟨-, bytes, u, -, switched, rfl⟩⟩ :=
          ttyWriteLocked_eq_ok called
        · rw [memory] at failed
          cases failed
        · rw [memory] at failed
          cases failed
        · cases h
          rw [(dispatch_sched switched).writer, sched_beginWrite live, sched_log_other rfl,
            Sched.push_writer, Sched.setWriter_writer, Function.update_of_ne apart]
          exact owner'
  · rw [if_neg checked] at h
    cases h
    exact owner

/-- Handing a terminal over leaves those who are ready and the writers. -/
theorem HandOver.keeps (h : HandOver env s tty s') : s'.sched.writer = s.sched.writer ∧
    ∀ p ∈ s.queues .ready, p ∈ s'.queues .ready := by
  cases h with
  | free none =>
      refine ⟨?_, fun p => id⟩
      rw [sched_setTerminal_self (by rfl)]
  | @next q rest t writers readied =>
      have view := sched_modifyPcb_self readied fun _ => rfl
      have queues : t.queues .ready = s.queues .ready := by
        have same := congrFun (congrArg Sched.queues view) .ready
        simpa using same
      constructor
      · rw [sched_queueEnqueue, sched_queueRemove, view]
        rfl
      · intro p member
        rw [queueEnqueue_queues, Function.update_self, queueRemove_queues,
          Function.update_of_ne (by simp), queues]
        split
        · exact List.mem_append_left _ member
        · exact member

/-- A terminal that is through with the bytes of a process makes it ready. -/
theorem transmit_owner (memory : ∀ k, env.mallocOk k = true) (owner : s.sched.writer tty = some p)
    (h : s.ttyTrapTransmitHandler env other = .ok s') :
    s'.sched.writer tty = some p ∨ p ∈ s'.queues .ready := by
  have logged : (s.log (.ttyTransmitTrap other)).sched = s.sched := sched_log_other rfl
  cases ttyTrapTransmitHandler_eq_ok h with
  | chunk left =>
      refine Or.inl ?_
      rw [nextChunk, sched_setTerminal_self (by rfl), ttyTransmit, sched_log_other rfl, logged]
      exact owner
  | unowned through none handed =>
      refine Or.inl ?_
      have nobody : s.sched.writer other = Option.none := none
      rw [handed.keeps.1, sched_clearWrite, logged, ← nobody, Sched.setWriter_self]
      exact owner
  | @owned w t _ through some woken handed =>
      have view := sched_modifyPcb_self woken fun _ => rfl
      by_cases here : tty = other
      · subst here
        have same : s.sched.writer tty = Option.some w := some
        obtain rfl := Option.some.inj (same.symm.trans owner)
        refine Or.inr (handed.keeps.2 w ?_)
        rw [queueEnqueue_queues, Function.update_self, if_pos (memory _)]
        exact List.mem_append_right _ (List.mem_singleton.mpr rfl)
      · refine Or.inl ?_
        rw [handed.keeps.1, sched_queueEnqueue, sched_queueRemove, view, sched_clearWrite, logged,
          Sched.push_writer, Sched.remove_writer, Sched.setWriter_writer, Function.update_of_ne here]
        exact owner

/-- Each terminal is a line; and a process whose bytes are being sent has the processor, is ready,
or is the one that its terminal writes for. -/
structure Attended (s : Kernel) : Prop where
  lines : ∀ tty, ∃ l, Turns (fun _ _ _ => True) s tty l
  owners : ∀ p tty len, s.Inside p (.ttyWriteDone tty len) →
    p = s.currentProcess ∨ p ∈ s.queues .ready ∨ s.sched.writer tty = some p

theorem Turns.idle (free : (s.writes.terminals tty).inUse = false)
    (unowned : (s.writes.terminals tty).currentWriter = none) (nobody : s.writes.writers tty = [])
    (history : s.writes.history = []) (outside : ∀ p kc, s.Inside p kc → kc.isWrite = false)
    {content : PcbPtr → Word → List Byte → Prop} : Turns content s tty Line.idle := by
  constructor
  case asked =>
    rw [history]
    rfl
  case nonempty => exact fun job member => absurd member List.not_mem_nil
  case ordered => exact Line.Ordered.idle
  case inUse =>
    rw [free]
    exact iff_of_false Bool.false_ne_true fun busy => busy rfl
  case writers => exact nobody
  case unowned => exact fun _ => unowned
  case sending => exact fun position sending => nomatch sending
  case locked =>
    intro p buf len inside
    cases outside _ _ inside
  case done =>
    intro p len inside
    cases outside _ _ inside
  case owed =>
    rw [history]
    rfl

theorem attended_boot (started : kernelStart env cfg = .ok boot) : boot.Attended := by
  have prepared := prepared_boot started
  constructor
  case lines =>
    intro tty
    obtain ⟨free, unowned, nobody⟩ := prepared.idle tty
    exact ⟨Line.idle, .idle free unowned nobody prepared.history prepared.outside⟩
  case owners =>
    intro p tty len inside
    cases prepared.outside _ _ inside

/-- A terminal that nobody uses, or that was handed to the process that comes back, writes for
nobody. -/
theorem Attended.unowned (attended : s.Attended)
    (unused : (s.terminals tty).inUse = false ∨ ∃ buf len, p ∉ s.queues (.writers tty) ∧
      s.Inside p (.ttyWriteLock tty buf len)) : s.sched.writer tty = none := by
  obtain ⟨l, turns⟩ := attended.lines tty
  refine turns.unowned fun position sending => ?_
  rcases unused with free | ⟨buf, len, unqueued, inside⟩
  · rw [turns.free free] at sending
    cases sending
  · rw [(turns.handed unqueued inside).1] at sending
    cases sending

/-- A step leaves a terminal to the process it writes for, or makes that ready. -/
theorem owner_step {i : Input} (memory : ∀ k, env.mallocOk k = true)
    (known : Sched.Registered env s.sched) (attended : s.Attended)
    (unqueued : ∀ tty buf len, s.Inside s.currentProcess (.ttyWriteLock tty buf len) →
      s.currentProcess ∉ s.queues (.writers tty)) (wrote : WriteStep s s')
    (step : s.Step env i s') (owner : s.sched.writer tty = some p) :
    s'.sched.writer tty = some p ∨ p ∈ s'.queues .ready := by
  have same : s'.writes = s.writes → s'.sched.writer tty = some p ∨ p ∈ s'.queues .ready := by
    intro writes
    have writer : (s'.writes.terminals tty).currentWriter = some p := by
      rw [writes]
      exact owner
    exact Or.inl writer
  by_cases elsewhere : s.AtTerminals i
  · have h := step.2
    have enabled := step.1
    cases i with
    | kernelTrap ctx req =>
        rcases elsewhere with code | code
        · have ran : (s.trap ctx).trapTtyRead env = .ok s' := by
            rw [← kernelTrapHandler_ttyRead code]
            exact h
          exact same (writes_trapTtyRead (s := s.trap ctx) ran)
        · have ran : (s.trap ctx).trapTtyWrite env = .ok s' := by
            rw [← kernelTrapHandler_ttyWrite code]
            exact h
          exact Or.inl (trapTtyWrite_owner (s := s.trap ctx) memory
            (fun free => attended.unowned (p := p) (Or.inl free)) owner ran)
    | ttyReceiveTrap ctx line data =>
        exact same (writes_ttyTrapReceiveHandler (s := s.trap ctx) h)
    | ttyTransmitTrap ctx line => exact transmit_owner (s := s.trap ctx) memory owner h
    | resume =>
        have unruly : ¬ s.Runs s.currentProcess := by
          intro runs
          have inKernel : s.mode = .kernel := enabled
          rw [runs.1] at inKernel
          cases inKernel
        cases wrote with
        | quiet writes before after => exact same writes
        | @starts line buf bytes before content written after =>
            have apart : tty ≠ line := by
              rintro rfl
              have nobody := attended.unowned (Or.inr ⟨buf, _, unqueued _ _ _ before, before⟩)
              rw [nobody] at owner
              cases owner
            have writer : (s'.writes.terminals tty).currentWriter = some p := by
              rw [written, Writes.begin_terminals, Function.update_of_ne apart]
              exact owner
            exact Or.inl writer
        | returns before written after =>
            have writer : (s'.writes.terminals tty).currentWriter = some p := by
              rw [written]
              exact owner
            exact Or.inl writer
        | waits user | begins user | chunk user | finishes user => exact absurd user unruly
    | _ => cases elsewhere
  · exact same (ttyFrame_step (fresh_of_registered known) elsewhere step).writes

/-- A process that is ready stays so until it gets the processor. -/
theorem ready_step {i : Input} (apart : Sched.IdleApart s.sched) (step : s.Step env i s')
    (ready : p ∈ s.queues .ready) : p = s'.currentProcess ∨ p ∈ s'.queues .ready := by
  cases serves_step apart step with
  | stays user kept =>
      obtain ⟨woken, joined, -⟩ := kept.ready
      have queue : s'.queues .ready = s.queues .ready ++ woken := joined
      rw [queue]
      exact Or.inr (List.mem_append_left _ ready)
  | head woken rest inKernel line others left same =>
      have member : p ∈ s'.currentProcess :: rest := by
        have queue : s.queues .ready ++ woken = s'.currentProcess :: rest := line
        rw [← queue]
        exact List.mem_append_left _ ready
      rcases List.mem_cons.mp member with current | behind
      · exact Or.inl current
      · refine Or.inr ?_
        have queue : s'.queues .ready = rest ∨ s'.queues .ready = rest ++ [s.currentProcess] :=
          left.imp_right And.right
        rcases queue with queue | queue
        · rw [queue]
          exact behind
        · rw [queue]
          exact List.mem_append_left _ behind
  | idle inKernel empty left idles same =>
      have queue : s.queues .ready = [] := empty
      rw [queue] at ready
      cases ready

theorem Attended.step {i : Input} (attended : s.Attended)
    (distinct : Function.Injective env.helperNewPid) (memory : ∀ k, env.mallocOk k = true)
    (known : Sched.Registered env s.sched) (idle : s.IdleCalm) (apart : Sched.IdleApart s.sched)
    (table : s.ptbr1 = s.currentProcess) (calm : s.Calm s.currentProcess)
    (taken : Guarded (Step env) ExitsWritten s i s') (owed : s.TransmitOwed i) : s'.Attended := by
  have step := taken.2
  have owned : ∀ ctx tty, i = .ttyTransmitTrap ctx tty →
      (s.terminals tty).currentWriter ≠ none := by
    rintro ctx tty rfl
    obtain ⟨l, turns⟩ := attended.lines tty
    exact turns.owned owed
  have wrote := write_step known table ⟨fun _ _ => memory _, fun _ _ => memory _⟩ owned step
  have others : OthersStay s s' := by
    intro p kc other write inside
    have lasts := KernelContext.isWrite_lasts write
    exact inside.before distinct known idle lasts.1 lasts.2 (Ne.symm other) taken
  have unqueued : ∀ tty buf len, s.Inside s.currentProcess (.ttyWriteLock tty buf len) →
      s.currentProcess ∉ s.queues (.writers tty) :=
    fun _ _ _ inside => unqueued_locked known idle inside
  constructor
  case lines =>
    intro tty
    obtain ⟨l, turns⟩ := attended.lines tty
    obtain ⟨l', turns', -⟩ :=
      turns_step turns others unqueued calm.writer (fun _ _ _ => trivial) wrote
    exact ⟨l', turns'⟩
  case owners =>
    intro p tty len inside
    by_cases current : p = s.currentProcess
    · subst current
      -- the current process gets there only by beginning to write
      have begun {line : TtyId} {bytes : List Byte} {w : Writes}
          (written : s'.writes = w.begin line s.currentProcess bytes)
          (after : s'.Inside s.currentProcess (.ttyWriteDone line bytes.length)) :
          s'.sched.writer tty = some s.currentProcess := by
        cases inside.unique after
        have writer : (s'.writes.terminals tty).currentWriter = some s.currentProcess := by
          rw [written, Writes.begin_terminals, Function.update_self]
        exact writer
      cases wrote with
      | quiet same before after => exact absurd inside (after _ rfl)
      | waits user busy nonempty content written after => cases inside.unique after
      | begins user free nonempty written after => exact Or.inr (Or.inr (begun written after))
      | starts before content written after => exact Or.inr (Or.inr (begun written after))
      | chunk user owned left written after => exact absurd after inside.away
      | finishes user owned through written after => exact absurd after inside.away
      | returns before written after => exact absurd after inside.away
    · have before := others p _ current rfl inside
      rcases attended.owners p tty len before with here | ready | owner
      · exact absurd here current
      · exact (ready_step apart step ready).imp_right Or.inl
      · rcases owner_step memory known attended unqueued wrote step owner with owner' | ready
        · exact Or.inr (Or.inr owner')
        · exact Or.inr (Or.inl ready)

theorem attended_reaches (distinct : Function.Injective env.helperNewPid)
    (idlePid : env.helperNewPid 0 = 0) (memory : ∀ k, env.mallocOk k = true)
    (started : kernelStart env cfg = .ok boot)
    (run : Reaches (Guarded (Step env) fun s i => s.ExitsWritten i ∧ s.TransmitOwed i) boot s) :
    s.Attended := by
  induction run with
  | refl => exact attended_boot started
  | @tail u v before last inductionHypothesis =>
      obtain ⟨i, ⟨exits, owed⟩, step⟩ := last
      have written : Reaches (Guarded (Step env) ExitsWritten) boot u :=
        Reaches.mono (fun _ _ _ taken => ⟨taken.1.1, taken.2⟩) before
      have steps : Reaches (Step env) boot u := Reaches.mono (fun _ _ _ taken => taken.2) before
      exact inductionHypothesis.step distinct memory (registered_reaches distinct started written)
        (idleCalm_reaches distinct started written) (idleOut_reaches idlePid started steps).apart
        (table_reaches distinct started written) (current_calm distinct started written)
        ⟨exits, step⟩ owed

/-- A process whose bytes are being sent and that neither has the processor nor is ready is the
writer of its terminal, in the blocked queue, and the terminal still owes a transmit trap. -/
theorem no_writer_forgotten (distinct : Function.Injective env.helperNewPid)
    (idlePid : env.helperNewPid 0 = 0) (memory : ∀ k, env.mallocOk k = true)
    (started : kernelStart env cfg = .ok boot)
    (run : Reaches (Guarded (Step env) fun s i => s.ExitsWritten i ∧ s.TransmitOwed i) boot s)
    (inside : s.Inside p (.ttyWriteDone tty len)) (away : p ≠ s.currentProcess)
    (unready : p ∉ s.queues .ready) :
    (s.terminals tty).currentWriter = some p ∧ p ∈ s.queues .blocked ∧ s.Unacknowledged tty := by
  have written : Reaches (Guarded (Step env) ExitsWritten) boot s :=
    Reaches.mono (fun _ _ _ taken => ⟨taken.1.1, taken.2⟩) run
  have attended := attended_reaches distinct idlePid memory started run
  have owner : (s.terminals tty).currentWriter = some p := by
    rcases attended.owners p tty len inside with current | ready | owner
    · exact absurd current away
    · exact absurd ready unready
    · exact owner
  obtain ⟨b, live, saved⟩ := inside.pcb
  have notIdle : p ≠ s.idleProc :=
    (idleCalm_reaches distinct started written).ne_idle live (by simp [saved]) (by simp [saved])
  refine ⟨owner, ?_, ?_⟩
  · have backed := (placed_reaches distinct memory started written notIdle).backed
    have waits : 0 < s.sched.pending p := pending_pos (Or.inr (Or.inr owner))
    exact List.count_pos_iff.mp (Nat.lt_of_lt_of_le waits backed)
  · obtain ⟨l, turns⟩ := attended.lines tty
    have owned : (s.writes.terminals tty).currentWriter ≠ none := by
      have same : (s.writes.terminals tty).currentWriter = some p := owner
      rw [same]
      exact Option.some_ne_none _
    obtain ⟨position, sending⟩ := turns.sending_of_owned owned
    have balanced := turns.owed
    rw [sending] at balanced
    rw [Unacknowledged, countP_acknowledges, countP_transmits, ← signalsOn_filter]
    have counts : (signalsOn tty s.writes.history).countP Line.Signal.isSent =
        (signalsOn tty s.writes.history).countP Line.Signal.isThrough + 1 := balanced
    have filtered : s.writes.history = s.history.filter Event.isWrite := rfl
    rw [← filtered]
    omega

/-- Init writes, and its child waits for the terminal. -/
theorem no_writer_forgotten_sample : ∃ s : Kernel, s.queues (.writers 0) = [2] ∧
    (s.terminals 0).currentWriter = some 1 ∧ 1 ∈ s.queues .blocked ∧ s.Unacknowledged 0 := by
  have answer : runs sampleEnv sampleBoot
      (fun s i => i.among [yalnixFork, yalnixDelay, yalnixTtyRead, yalnixTtyWrite] &&
        decide (s.TransmitOwed i))
      [.tick, .resume, .call yalnixFork 0 0 0, .call yalnixTtyWrite 0 0x102000 3, .resume,
        .call yalnixTtyWrite 0 0x102000 3]
      (fun s => decide (s.queues (.writers 0) = [2] ∧ s.queues .ready = [] ∧
        s.currentProcess = 0 ∧ s.mode = .kernel) && (s.heap 1).any fun b =>
          decide (writesTo b.kernelContext = some 0 ∧ b.kernelContext.awaited = none)) =
      .ok true := by
    decide +kernel
  obtain ⟨boot, s, started, run, known⟩ :=
    runs_sound (fun s i => s.ExitsWritten i ∧ s.TransmitOwed i)
      (fun s i checked => by
        obtain ⟨among, owed⟩ := Bool.and_eq_true_iff.mp checked
        exact ⟨exitsWritten_of_among (by decide) among, of_decide_eq_true owed⟩) answer
  simp only [Bool.and_eq_true_iff, decide_eq_true_iff] at known
  obtain ⟨⟨waits, ready, current, inKernel⟩, writes⟩ := known
  obtain ⟨b, live, context⟩ := (Option.any_eq_true _ _).mp writes
  obtain ⟨writes, begun⟩ := of_decide_eq_true context
  obtain ⟨len, saved⟩ : ∃ len, b.kernelContext = .ttyWriteDone 0 len := by
    cases saved : b.kernelContext with
    | ttyWriteDone tty len =>
        rw [saved] at writes
        exact ⟨len, by rw [Option.some.inj writes]⟩
    | ttyWriteLock tty buf len =>
        rw [saved] at begun
        cases begun
    | _ =>
        rw [saved] at writes
        cases writes
  have inside : s.Inside 1 (.ttyWriteDone 0 len) := by
    refine ⟨fun runs => ?_, b, live, saved⟩
    rw [runs.1] at inKernel
    cases inKernel
  have away : 1 ≠ s.currentProcess := by
    rw [current]
    decide
  have unready : 1 ∉ s.queues .ready := by
    rw [ready]
    exact List.not_mem_nil
  exact ⟨s, waits, no_writer_forgotten sampleEnv_distinct rfl (fun _ => rfl) started run inside
    away unready⟩

end Kernel

end Yalnix
