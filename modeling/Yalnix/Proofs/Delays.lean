/-
Module: Yalnix.Proofs.Delays
Purpose: A delay of n ticks ends with the n-th clock trap: until then the process is neither ready
  nor running, and then it is entered in the ready queue once.
Trusted boundary: the pids of the hardware library do not repeat
Main exports: Kernel.Delayed, clockTraps, iterateBlocked_once, delay_is_exact
-/
import Yalnix.Proofs.Bystander
import Yalnix.Proofs.Places

namespace Yalnix

open Transition

/-- How many of the inputs are clock traps. -/
def clockTraps (inputs : List Input) : Nat := inputs.countP Input.isClock

namespace Kernel

variable {env : Env} {cfg : BootConfig} {boot s s' t u : Kernel} {p q : PcbPtr} {b : PCB}

/-- The clock still has to count down `n` ticks for the process. -/
def Delayed (s : Kernel) (p : PcbPtr) (n : Int) : Prop :=
  ∃ b, s.heap p = some b ∧ b.delayTicks = n

/-- The clock trap has counted the delays down and has not yet given the processor away. -/
def CountedDown (env : Env) (s : Kernel) (ctx : UserContext) (v : Kernel) : Prop :=
  ∃ t, (s.trap ctx).saveContext = .ok t ∧ iterateBlocked env (t.queues .blocked) t = .ok v

/-! ### Counting down -/

/-- A visit to another process. -/
theorem trapHandlerHelper_other (other : q ≠ p) (h : s.trapHandlerHelper env q = .ok s') :
    s'.heap p = s.heap p ∧ ∃ woken, s'.queues .ready = s.queues .ready ++ woken ∧
      woken.count p = 0 := by
  obtain ⟨b, -, ⟨-, rfl⟩ | ⟨-, rfl⟩ | ⟨-, rfl⟩⟩ := trapHandlerHelper_eq_ok h
  · exact ⟨rfl, [], (List.append_nil _).symm, rfl⟩
  · exact ⟨Function.update_of_ne other.symm .., [], (List.append_nil _).symm, rfl⟩
  · refine ⟨?_, if env.mallocOk s.mallocCalls then [q] else [], ?_, ?_⟩
    · rw [queueEnqueue_heap, queueRemove_heap, setPcb_heap, Function.update_of_ne other.symm]
    · rw [queueEnqueue_queues, Function.update_self]
      simp only [queueRemove_queues, setPcb_queues, ne_eq, reduceCtorEq, not_false_eq_true,
        Function.update_of_ne, queueRemove_mallocCalls, setPcb_mallocCalls]
      split
      · rfl
      · exact (List.append_nil _).symm
    · split
      · exact List.count_eq_zero_of_not_mem fun member => other (List.mem_singleton.mp member).symm
      · rfl

/-- The clock does not wake a process that is not in the blocked queue. -/
theorem iterateBlocked_absent {blocked : List PcbPtr} (absent : p ∉ blocked)
    (h : iterateBlocked env blocked s = .ok s') :
    s'.heap p = s.heap p ∧ ∃ woken, s'.queues .ready = s.queues .ready ++ woken ∧
      woken.count p = 0 := by
  induction blocked generalizing s with
  | nil =>
      cases h
      exact ⟨rfl, [], (List.append_nil _).symm, rfl⟩
  | cons process rest inductionHypothesis =>
      simp only [iterateBlocked, bind_eq_ok] at h
      obtain ⟨t, visited, h⟩ := h
      have other : process ≠ p := fun same => absent (same ▸ List.mem_cons_self)
      obtain ⟨same, first, ready, none⟩ := trapHandlerHelper_other other visited
      obtain ⟨same', second, ready', none'⟩ :=
        inductionHypothesis (fun member => absent (List.mem_cons_of_mem _ member)) h
      refine ⟨same'.trans same, first ++ second, ?_, ?_⟩
      · rw [ready', ready, List.append_assoc]
      · rw [List.count_append, none, none']

/-- A process that is in the blocked queue once is counted down once, and woken when its last tick
has come. -/
theorem iterateBlocked_once {blocked : List PcbPtr} (memory : ∀ k, env.mallocOk k = true)
    (once : blocked.count p = 1) (live : s.heap p = some b) (positive : 0 < b.delayTicks)
    (h : iterateBlocked env blocked s = .ok s') :
    s'.Delayed p (b.delayTicks - 1) ∧ ∃ woken, s'.queues .ready = s.queues .ready ++ woken ∧
      woken.count p = if b.delayTicks = 1 then 1 else 0 := by
  induction blocked generalizing s with
  | nil => cases once
  | cons process rest inductionHypothesis =>
      simp only [iterateBlocked, bind_eq_ok] at h
      obtain ⟨t, visited, h⟩ := h
      by_cases here : process = p
      · subst here
        have absent : process ∉ rest := by
          rw [← List.count_eq_zero]
          simpa using once
        obtain ⟨same, second, ready', none'⟩ := iterateBlocked_absent absent h
        obtain ⟨c, live', effect⟩ := trapHandlerHelper_eq_ok visited
        obtain rfl : c = b := Option.some.inj (live'.symm.trans live)
        rcases effect with ⟨idle, -⟩ | ⟨many, rfl⟩ | ⟨one, rfl⟩
        · omega
        · rw [setPcb_heap, Function.update_self] at same
          refine ⟨⟨_, same, rfl⟩, second, ready', ?_⟩
          rw [none', if_neg (by omega)]
        · rw [queueEnqueue_heap, queueRemove_heap, setPcb_heap, Function.update_self] at same
          refine ⟨⟨_, same, by rw [one]; rfl⟩, process :: second, ?_, ?_⟩
          · rw [ready', queueEnqueue_queues, Function.update_self, memory, if_pos rfl]
            simp
          · rw [List.count_cons_self, none', if_pos one]
      · obtain ⟨same, first, ready, none⟩ := trapHandlerHelper_other here visited
        rw [List.count_cons_of_ne here] at once
        obtain ⟨ticked, second, ready', counted⟩ :=
          inductionHypothesis once (same.trans live) h
        refine ⟨ticked, first ++ second, ?_, ?_⟩
        · rw [ready', ready, List.append_assoc]
        · rw [List.count_append, none, counted, Nat.zero_add]

/-! ### The delayed process -/

/-- A delayed process has its place in the blocked queue, once. -/
theorem Delayed.parked {n : Int} (delayed : s.Delayed p n) (positive : 0 < n)
    (placed : Sched.PlacedAt s.sched p) :
    s.currentProcess ≠ p ∧ p ∉ s.queues .ready ∧ (s.queues .blocked).count p = 1 ∧
      p ∉ s.queues .zombie := by
  obtain ⟨b, live, rfl⟩ := delayed
  have view := procs_of_heap live
  have waits : b.proc.delayed = 1 := if_pos positive
  have backed := placed.backed
  have once := placed.once
  simp only [Sched.pending, view, Sched.pcbDelay, waits, sched_queues] at backed
  simp only [Sched.places, Sched.standing, sched_queues, sched_current] at once
  refine ⟨fun current => ?_, fun member => ?_, by omega, fun member => ?_⟩
  · rw [current, Tally.same_self] at once
    omega
  · have := List.count_pos_iff.mpr member
    omega
  · have := List.count_pos_iff.mpr member
    omega

/-- Between two clock traps nothing happens to a delay. -/
theorem Delayed.between {n : Int} {i : Input} (delayed : s.Delayed p n)
    (fresh : s.heap s.nextPcb = none) (other : s.currentProcess ≠ p)
    (alive : p ∉ s.queues .zombie) (between : ¬ i.isClock = true) (step : s.Step env i s') :
    s'.Delayed p n := by
  obtain ⟨b, live, ticks⟩ := delayed
  obtain ⟨b', live', undisturbed, -⟩ := (bystander_step fresh other alive step).pcb b live
  exact ⟨b', live', (undisturbed.delay between).trans ticks⟩

theorem Delayed.kcSwitch {n : Int} {kc : KernelContext} {curr next : PcbPtr}
    (delayed : s.Delayed p n) (h : s.kcSwitch kc curr next = .ok s') : s'.Delayed p n := by
  obtain ⟨b, live, rfl⟩ := delayed
  obtain ⟨c, d, kstack, currLive, nextLive, -, rfl⟩ := kcSwitch_eq_ok h
  have saved : (s.setPcb curr { c with kernelContext := kc }).Delayed p b.delayTicks := by
    by_cases here : p = curr
    · subst here
      obtain rfl := Option.some.inj (currLive.symm.trans live)
      exact ⟨_, Function.update_self .., rfl⟩
    · exact ⟨b, (Function.update_of_ne here ..).trans live, rfl⟩
  obtain ⟨e, found, ticks⟩ := saved
  by_cases here : p = next
  · subst here
    obtain rfl := Option.some.inj (found.symm.trans nextLive)
    exact ⟨_, Function.update_self .., ticks⟩
  · exact ⟨e, (Function.update_of_ne here ..).trans found, ticks⟩

/-- Giving the processor to the head of the ready queue, after another process was appended to it
or not. -/
theorem runnable_kcSwitch {kc : KernelContext} {curr next : PcbPtr} {rest : List PcbPtr}
    (ready : u.queues .ready = next :: rest) (idle : u.currentProcess ≠ p)
    (kept : (t.queues .ready).count p = rest.count p) (h : t.kcSwitch kc curr next = .ok s') :
    s'.runnable p = u.runnable p := by
  obtain ⟨c, d, kstack, -, -, -, rfl⟩ := kcSwitch_eq_ok h
  have before : u.runnable p = (next :: rest).count p := by
    rw [runnable, if_neg idle, ready, Nat.zero_add]
  rw [before, Tally.count_pop, ← kept]
  exact Nat.add_comm _ _

/-- A clock trap counts the delay of a blocked process down. -/
theorem clockTrap_counts {n : Int} {ctx : UserContext} (memory : ∀ k, env.mallocOk k = true)
    (delayed : s.Delayed p n) (positive : 0 < n) (other : s.currentProcess ≠ p)
    (once : (s.queues .blocked).count p = 1) (step : s.Step env (.clockTrap ctx) s') :
    s'.Delayed p (n - 1) ∧ ∃ v woken, s.CountedDown env ctx v ∧
      v.queues .ready = s.queues .ready ++ woken ∧ (woken.count p = if n = 1 then 1 else 0) ∧
      s'.runnable p = (v.queues .ready).count p := by
  obtain ⟨b, live, rfl⟩ := delayed
  obtain ⟨t, v, saved, iterated, tail⟩ := clockTrapHandler_eq_ok step.2
  have savedLive : t.heap p = some b ∧ t.queues = s.queues := by
    obtain ⟨c, -, rfl⟩ := saveContext_eq_ok.mp saved
    exact ⟨(Function.update_of_ne other.symm ..).trans live, rfl⟩
  rw [← savedLive.2] at once
  obtain ⟨ticked, woken, ready, counted⟩ :=
    iterateBlocked_once memory once savedLive.1 positive iterated
  have current : v.currentProcess = s.currentProcess := by
    have stays := (iterateBlocked_moves exitLimits iterated).2.2
    exact stays.trans (congrArg Sched.current (sched_saveContext saved))
  have idle : v.currentProcess ≠ p := fun same => other (current.symm.trans same)
  have standing : v.runnable p = (v.queues .ready).count p := by
    rw [runnable, if_neg idle, Nat.zero_add]
  rw [savedLive.2] at ready
  have rest : s'.Delayed p (b.delayTicks - 1) ∧ s'.runnable p = v.runnable p := by
    rcases tail with ⟨-, restored⟩ | ⟨next, rest, c, head, -, tail⟩
    · obtain ⟨c, -, rfl⟩ := restoreContext_eq_ok.mp restored
      exact ⟨ticked, rfl⟩
    · rcases tail with ⟨-, -, w, readied, switched⟩ | ⟨-, switched⟩
      · obtain ⟨c, -, rfl⟩ := modifyPcb_eq_ok.mp readied
        obtain ⟨d, found, ticks⟩ := ticked
        have requeued : Delayed (queueEnqueue env ((v.setQueue .ready rest).setPcb s.currentProcess
            { c with state := .ready }) .ready s.currentProcess) p (b.delayTicks - 1) := by
          refine ⟨d, ?_, ticks⟩
          rw [queueEnqueue_heap, setPcb_heap, Function.update_of_ne other.symm]
          exact found
        refine ⟨requeued.kcSwitch switched, runnable_kcSwitch head idle ?_ switched⟩
        have none : Tally.same (s.trap ctx).currentProcess p = 0 := Tally.same_of_ne other
        rw [queueEnqueue_queues, Function.update_self, Tally.count_push, none]
        simp
      · have popped : (v.setQueue .ready rest).Delayed p (b.delayTicks - 1) := ticked
        refine ⟨popped.kcSwitch switched, runnable_kcSwitch head idle ?_ switched⟩
        rw [setQueue_queues, Function.update_self]
  exact ⟨rest.1, v, woken, ⟨t, saved, iterated⟩, ready, counted, rest.2.trans standing⟩

/-- A call of `Delay` with a positive argument sets the delay. -/
theorem trapDelay_delays {n : Int} (ticks : s.ctx.intReg 0 = n) (positive : 0 < n)
    (h : s.trapDelay env = .ok s') : s'.Delayed s.currentProcess n := by
  simp only [trapDelay, bind_eq_ok] at h
  obtain ⟨t, saved, result, called, h⟩ := h
  obtain ⟨b, live, rfl⟩ := saveContext_eq_ok.mp saved
  rw [ticks] at called
  simp only [delay, if_neg (show ¬ n = 0 by omega), if_neg (show ¬ n < -1 by omega), bind_eq_ok,
    pure_eq_ok, modifyPcb_eq_ok] at called
  obtain ⟨_, ⟨c, -, rfl⟩, u, switched, rfl⟩ := called
  cases h
  have entered : Delayed (queueEnqueue env ((s.setPcb s.currentProcess
      { b with userContext := s.ctx }).setPcb s.currentProcess
        { c with delayTicks := n, state := .blocked }) .blocked s.currentProcess)
      s.currentProcess n := by
    refine ⟨{ c with delayTicks := n, state := .blocked }, ?_, rfl⟩
    rw [queueEnqueue_heap, setPcb_heap, Function.update_self]
  rcases dispatch_eq_ok switched with ⟨next, rest, -, switched⟩ | ⟨-, switched⟩
  · obtain ⟨d, found, ticks⟩ := entered
    have popped : Delayed ((queueEnqueue env ((s.setPcb s.currentProcess
        { b with userContext := s.ctx }).setPcb s.currentProcess
          { c with delayTicks := n, state := .blocked }) .blocked s.currentProcess).setQueue
            .ready rest) s.currentProcess n := ⟨d, found, ticks⟩
    exact popped.kcSwitch switched
  · exact entered.kcSwitch switched

/-! ### Runs -/

/-- What every state of such a run knows about a process. -/
theorem standing_reaches (distinct : Function.Injective env.helperNewPid)
    (memory : ∀ k, env.mallocOk k = true) (started : kernelStart env cfg = .ok boot)
    (run : Reaches (Guarded (Step env) ExitsWritten) boot s) (notIdle : p ≠ boot.idleProc) :
    s.heap s.nextPcb = none ∧ Sched.PlacedAt s.sched p := by
  rw [← idleProc_reaches distinct started run] at notIdle
  exact ⟨fresh_of_registered (registered_reaches distinct started run),
    placed_reaches distinct memory started run notIdle⟩

/-- As long as fewer clock traps came than the process was delayed for, the rest is what is left of
its delay. -/
theorem Delayed.trace {n : Int} {inputs : List Input}
    (distinct : Function.Injective env.helperNewPid) (memory : ∀ k, env.mallocOk k = true)
    (started : kernelStart env cfg = .ok boot)
    (run : Reaches (Guarded (Step env) ExitsWritten) boot s) (notIdle : p ≠ boot.idleProc)
    (delayed : s.Delayed p n) (trace : Trace (Guarded (Step env) ExitsWritten) s inputs t)
    (early : clockTraps inputs < n) : t.Delayed p (n - clockTraps inputs) := by
  induction trace with
  | nil =>
      rw [clockTraps, List.countP_nil, Nat.cast_zero, Int.sub_zero]
      exact delayed
  | @snoc labels i t u trace last inductionHypothesis =>
      have earlier : (clockTraps labels : Int) ≤ clockTraps (labels ++ [i]) := by
        rw [clockTraps, clockTraps, List.countP_append]
        omega
      have before := inductionHypothesis (by omega)
      obtain ⟨fresh, placed⟩ :=
        standing_reaches distinct memory started (run.trans trace.reaches) notIdle
      obtain ⟨other, -, once, alive⟩ := before.parked (by omega) placed
      by_cases clock : i.isClock = true
      · have counted : clockTraps (labels ++ [i]) = clockTraps labels + 1 := by
          rw [clockTraps, List.countP_append, List.countP_singleton, if_pos clock]
          rfl
        cases i with
        | clockTrap ctx =>
            have after := (clockTrap_counts memory before (by omega) other once last.2).1
            rw [counted]
            have same : n - (clockTraps labels : Int) - 1 =
                n - ((clockTraps labels + 1 : Nat) : Int) := by
              omega
            rw [← same]
            exact after
        | _ => cases clock
      · have counted : clockTraps (labels ++ [i]) = clockTraps labels := by
          rw [clockTraps, List.countP_append, List.countP_singleton, if_neg clock]
          rfl
        rw [counted]
        exact before.between fresh other alive clock last.2

/-- A process that calls `Delay(n)` is neither ready nor running before the `n`-th clock trap after
the call, which enters it in the ready queue once.  A run in which nobody exits keeps to
`ExitsWritten`. -/
theorem delay_is_exact {ctx : UserContext} {req : LoadRequest} {n : Nat} {inputs : List Input}
    (distinct : Function.Injective env.helperNewPid) (memory : ∀ k, env.mallocOk k = true)
    (started : kernelStart env cfg = .ok boot)
    (run : Reaches (Guarded (Step env) ExitsWritten) boot s) (code : ctx.code = yalnixDelay)
    (ticks : ctx.intReg 0 = n) (positive : 1 ≤ n)
    (call : Step env s (.kernelTrap ctx req) t)
    (trace : Trace (Guarded (Step env) ExitsWritten) t inputs u) :
    (clockTraps inputs < n →
      s.currentProcess ∉ u.queues .ready ∧ u.currentProcess ≠ s.currentProcess) ∧
    (clockTraps inputs + 1 = n → ∀ ctx' u', Step env u (.clockTrap ctx') u' →
      ∃ v woken, u.CountedDown env ctx' v ∧ v.queues .ready = u.queues .ready ++ woken ∧
        woken.count s.currentProcess = 1 ∧ u'.runnable s.currentProcess = 1) := by
  have notIdle : s.currentProcess ≠ boot.idleProc := by
    rw [← idleProc_reaches distinct started run]
    exact call.1.2
  have guarded : Guarded (Step env) ExitsWritten s (.kernelTrap ctx req) t := by
    refine ⟨fun exits => ?_, call⟩
    have clash : yalnixDelay = yalnixExit := code.symm.trans exits
    exact absurd clash (by decide)
  have called : t.Delayed s.currentProcess n := by
    have ran : (s.trap ctx).kernelTrapHandler env req = .ok t := call.2
    have isDelay : (s.trap ctx).ctx.code = yalnixDelay := code
    rw [kernelTrapHandler, if_pos isDelay] at ran
    exact trapDelay_delays (s := s.trap ctx) ticks (by omega) ran
  have start := run.tail guarded
  have reached := start.trans trace.reaches
  obtain ⟨-, placed⟩ := standing_reaches distinct memory started reached notIdle
  have left := fun early =>
    called.trace distinct memory started start notIdle trace (Int.ofNat_lt.mpr early)
  constructor
  · intro early
    obtain ⟨other, unready, -, -⟩ := (left early).parked (by omega) placed
    exact ⟨unready, other⟩
  · intro last ctx' u' step
    have early : clockTraps inputs < n := by omega
    obtain ⟨other, unready, once, -⟩ := (left early).parked (by omega) placed
    obtain ⟨-, v, woken, down, ready, counted, runs⟩ :=
      clockTrap_counts memory (left early) (by omega) other once step
    rw [if_pos (by omega)] at counted
    refine ⟨v, woken, down, ready, counted, ?_⟩
    rw [runs, ready, List.count_append, counted, List.count_eq_zero_of_not_mem unready]

/-- Init delays for two ticks: the first finds it asleep, the second wakes it. -/
theorem delay_is_exact_sample : ∃ u u' : Kernel,
    (1 ∉ u.queues .ready ∧ u.currentProcess ≠ 1) ∧ u'.runnable 1 = 1 := by
  have answer : (do
      let boot ← kernelStart sampleEnv sampleBoot
      let s ← run sampleEnv (fun s _ => decide s.ParentFlagWritten) [.tick, .resume] boot
      let t ← s.deliver sampleEnv (.call yalnixDelay 2 0 0)
      let u ← run sampleEnv (fun s _ => decide s.ParentFlagWritten) [.resume, .tick] t
      let u' ← u.deliver sampleEnv .tick
      return decide (s.currentProcess = 1 ∧ s.idleProc = 0 ∧ s.mode = .user ∧ u.mode = .user ∧
        u'.mode = .kernel) : Except Stop Bool) = .ok true := by
    decide +kernel
  simp only [bind_eq_ok, pure_eq_ok, decide_eq_true_iff] at answer
  obtain ⟨boot, started, s, first, t, called, u, waited, u', woken, current, idle, user, user',
    -⟩ := answer
  have sound : ∀ s i, decide (ParentFlagWritten s) = true → ExitsWritten s i :=
    fun s i written _ => of_decide_eq_true written
  have busy : s.currentProcess ≠ s.idleProc := by
    rw [current, idle]
    decide
  obtain ⟨before, after⟩ := delay_is_exact (n := 2) sampleEnv_distinct (fun _ => rfl) started
    (run_reaches ExitsWritten sound first) rfl (by decide) (by decide) ⟨⟨user, busy⟩, called⟩
    (run_trace ExitsWritten sound waited)
  obtain ⟨v, entries, -, -, -, once⟩ := after (by decide) _ u' ⟨user', woken⟩
  rw [current] at before once
  exact ⟨u, u', before (by decide), once⟩

end Kernel

end Yalnix
