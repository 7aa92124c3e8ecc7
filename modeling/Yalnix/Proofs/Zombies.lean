/-
Module: Yalnix.Proofs.Zombies
Purpose: Each zombie has a parent that is there, has not exited and knows it as a child, as long as
  nobody exits after its parent or before its zombie children were reaped.
Trusted boundary: the pids of the hardware library do not repeat and are not negative
Main exports: Sched.Held, Held.move, ExitsInOrder, zombies_reapable
-/
import Yalnix.Proofs.Family

namespace Yalnix

namespace Sched

/-- The process with this pid is there and has not exited. -/
def AliveAs (s : Sched) (q : PcbPtr) (pid : Int) : Prop :=
  (∃ b, s.procs q = some b ∧ b.pid = pid) ∧ ∀ status, .exited q status ∉ s.history

/-- The parent of every zombie is alive. -/
def Held (s : Sched) : Prop :=
  ∀ z ∈ s.queues .zombie, ∀ c, s.procs z = some c → ∃ q, s.AliveAs q c.ppid

/-- The parent of the current process is alive. -/
def ParentAlive (s : Sched) : Prop :=
  ∀ b, s.procs s.current = some b → ∃ q, q ≠ s.current ∧ s.AliveAs q b.ppid

/-- No zombie is a child of the current process. -/
def ChildrenReaped (s : Sched) : Prop :=
  ∀ b, s.procs s.current = some b → s.NoZombieChild b.pid

section Alive

variable {s s' : Sched} {q z : PcbPtr} {pid : Int}

/-- A process that keeps its pid stays alive while it does not exit. -/
theorem AliveAs.carry (alive : s.AliveAs q pid)
    (procs : ∀ b, s.procs q = some b → ∃ b', s'.procs q = some b' ∧ b'.pid = b.pid)
    (history : ∀ status, .exited q status ∈ s'.history → .exited q status ∈ s.history) :
    s'.AliveAs q pid := by
  obtain ⟨⟨b, live, same⟩, running⟩ := alive
  obtain ⟨b', live', pid'⟩ := procs b live
  exact ⟨⟨b', live', pid'.trans same⟩, fun status exited => running status (history status exited)⟩

theorem AliveAs.steady {saved : KernelContext → Prop} (alive : s.AliveAs q pid)
    (h : Steady saved s s') : s'.AliveAs q pid := by
  refine alive.carry ?_ ?_
  · intro b live
    obtain ⟨b', live', same⟩ := h.kept live
    exact ⟨b', live', same.pid⟩
  · intro status exited
    rw [h.history] at exited
    exact exited

theorem AliveAs.log {e : Event} (alive : s.AliveAs q pid) (other : ∀ status, e ≠ .exited q status) :
    (s.log e).AliveAs q pid := by
  refine alive.carry (fun b live => ⟨b, live, rfl⟩) ?_
  intro status exited
  rw [log_history, List.mem_append, List.mem_singleton] at exited
  rcases exited with earlier | now
  · exact earlier
  · exact absurd now.symm (other status)

end Alive

namespace Held

variable {env : Env} {limits : Limits} {s s' : Sched}

/-- Moves that create, end and reap nobody. -/
theorem steady {saved : KernelContext → Prop} (held : Held s) (h : Steady saved s s') :
    Held s' := by
  intro z member c' found
  rw [h.zombie] at member
  obtain ⟨c, was, same, -⟩ := h.procs z c' found
  obtain ⟨q, alive⟩ := held z member c was
  rw [same.ppid]
  exact ⟨q, alive.steady h⟩

/-- The exiting process joins the zombies. -/
theorem zombified (held : Held s) {b : Proc} {status : Int} {kept : Bool}
    (live : s.procs s.current = some b) (parent : s.ParentAlive) (reaped : s.ChildrenReaped) :
    Held (s.zombified b status kept) := by
  have carried : ∀ q pid, q ≠ s.current → s.AliveAs q pid →
      (s.zombified b status kept).AliveAs q pid := by
    intro q pid other alive
    refine alive.carry ?_ ?_
    · intro d found
      exact ⟨d, by rw [zombified_procs, Function.update_of_ne other, found], rfl⟩
    · intro code exited
      rw [zombified_history, List.mem_append, List.mem_singleton] at exited
      rcases exited with earlier | now
      · exact earlier
      · exact absurd (Event.exited.inj now).1 other
  intro z member c' found
  by_cases equal : z = s.current
  · subst equal
    rw [zombified_procs, Function.update_self, Option.some.injEq] at found
    subst found
    obtain ⟨q, other, alive⟩ := parent b live
    exact ⟨q, carried q _ other alive⟩
  · rw [zombified_procs, Function.update_of_ne equal] at found
    have earlier : z ∈ s.queues .zombie := by
      rw [zombified_queues, Function.update_self] at member
      rcases kept with _ | _
      · exact member
      · simpa [equal] using member
    obtain ⟨q, alive⟩ := held z earlier c' found
    refine ⟨q, carried q _ ?_ alive⟩
    rintro rfl
    obtain ⟨⟨d, there, pid⟩, -⟩ := alive
    obtain rfl : d = b := Option.some.inj (there.symm.trans live)
    exact reaped d live z earlier c' found pid.symm

/-- A fork makes nobody a zombie. -/
theorem spawn (held : Held s) (family : Family env s) (known : Registered env s) {b : Proc}
    {inReady inChildren : Bool} : Held (s.spawn env b inReady inChildren) := by
  have old : ∀ p d, s.procs p = some d → (s.spawn env b inReady inChildren).procs p = some d := by
    intro p d found
    rw [spawn_procs, Function.update_of_ne (Nat.ne_of_lt (known.known found)), found]
  intro z member c found
  have earlier : z ∈ s.queues .zombie := by simpa using member
  obtain ⟨d, was, -⟩ := family.zombies z earlier
  obtain rfl : c = d := Option.some.inj (found.symm.trans (old z d was))
  obtain ⟨q, alive⟩ := held z earlier c was
  refine ⟨q, alive.carry (fun d there => ⟨d, old q d there, rfl⟩) ?_⟩
  intro status exited
  rw [spawn_history, List.mem_append, List.mem_singleton] at exited
  rcases exited with before | now
  · exact before
  · cases now

/-- Reaping a zombie takes no parent from another one: the reaped process had exited. -/
theorem reap (held : Held s) (family : Family env s) {z : PcbPtr} {e : Event}
    (zombie : z ∈ s.queues .zombie) (returned : ∀ q status, e ≠ .exited q status) :
    Held ((((s.remove (.children s.current) z).remove .zombie z).delete z).log e) := by
  obtain ⟨dead, -, exitedZ⟩ := family.zombies z zombie
  have left : ((((s.remove (.children s.current) z).remove .zombie z).delete z).log e).queues
      .zombie = (s.queues .zombie).erase z := by
    simp
  intro y member c' found
  rw [log_procs, delete_procs_some] at found
  obtain ⟨other, c, was, rfl⟩ := found
  rw [left] at member
  have earlier : y ∈ s.queues .zombie := List.mem_of_mem_erase member
  obtain ⟨q, alive⟩ := held y earlier c was
  refine ⟨q, AliveAs.log ?_ (returned q)⟩
  have notZ : q ≠ z := by
    rintro rfl
    exact alive.2 _ exitedZ
  refine alive.carry ?_ (fun _ exited => exited)
  intro d there
  exact ⟨_, delete_procs_some.mpr ⟨notZ, d, there, rfl⟩, rfl⟩

/-- A forked child records its parent. -/
theorem childReturn (held : Held s) {b : Proc} {parent : PcbPtr}
    (live : s.procs s.current = some b) :
    Held (s.setProc s.current { b with parent := some parent }) := by
  have kept : ∀ p d, s.procs p = some d →
      ∃ d', (s.setProc s.current { b with parent := some parent }).procs p = some d' ∧
        d'.pid = d.pid := by
    intro p d found
    by_cases equal : p = s.current
    · subst equal
      obtain rfl : d = b := Option.some.inj (found.symm.trans live)
      exact ⟨_, Function.update_self .., rfl⟩
    · exact ⟨d, by rw [setProc_procs, Function.update_of_ne equal, found], rfl⟩
  intro z member c' found
  have was : ∃ c, s.procs z = some c ∧ c'.ppid = c.ppid := by
    by_cases equal : z = s.current
    · subst equal
      rw [setProc_procs, Function.update_self, Option.some.injEq] at found
      subst found
      exact ⟨b, live, rfl⟩
    · rw [setProc_procs, Function.update_of_ne equal] at found
      exact ⟨c', found, rfl⟩
  obtain ⟨c, before, ppid⟩ := was
  obtain ⟨q, alive⟩ := held z member c before
  rw [ppid]
  exact ⟨q, alive.carry (kept q) fun _ exited => exited⟩

/-- A record that is not an exit. -/
theorem log (held : Held s) {e : Event} (other : ∀ q status, e ≠ .exited q status) :
    Held (s.log e) := by
  intro z member c found
  obtain ⟨q, alive⟩ := held z member c found
  exact ⟨q, alive.log (other q)⟩

theorem toUser (held : Held s) : Held s.toUser := held

/-- Every move keeps the parents of the zombies, if the limits ask this of exits. -/
theorem move (exits : ∀ {t ok}, limits.exit t ok → t.ParentAlive ∧ t.ChildrenReaped)
    (known : Registered env s) (family : Family env s) (held : Held s)
    (move : Move env limits s s') : Held s' := by
  cases move with
  | shift moved => exact held.steady moved.steady
  | @exit woken _ b status frame origin k allowed user busy live notInit wake switch =>
      obtain ⟨parent, reaped⟩ := exits allowed
      have st := wake.leaves switch
      exact (held.zombified live parent reaped).steady st
  | fork allowed user busy live other => exact held.spawn family known
  | childReturn inKernel live saved parentLive pids => exact (held.childReturn live).toUser
  | @forkAgain b q c child parent k k' inKernel live saved parentLive childLive same =>
      exact absurd same (known.child_apart live saved parentLive)
  | reap allowed live zombie dead child =>
      exact (held.reap family zombie fun q status => by simp).toUser
  | noChildren allowed user busy empty => exact held.log fun q status => by simp
  | noZombie allowed inKernel live saved childless =>
      exact (held.log fun q status => by simp).toUser

end Held

/-- What the families of a run keep. -/
structure HeldFamily (env : Env) (s : Sched) : Prop where
  registered : Registered env s
  family : Family env s
  held : Held s

theorem HeldFamily.moves {env : Env} {limits : Limits} {s s' : Sched} (pids : env.PidsDistinct)
    (exits : ∀ {t ok}, limits.exit t ok →
      t.ParentFlagWritten ∧ t.ParentAlive ∧ t.ChildrenReaped)
    (forks : ∀ {ok}, limits.fork ok → ok = true) (inv : HeldFamily env s)
    (run : Moves env limits s s') : HeldFamily env s' := by
  induction run with
  | refl => exact inv
  | tail _ move inductionHypothesis =>
      obtain ⟨registered, family, held⟩ := inductionHypothesis
      exact ⟨registered.move pids.injective (fun allowed => (exits allowed).1) move,
        family.move pids forks registered move,
        held.move (fun allowed => (exits allowed).2) registered family move⟩

theorem heldFamily_booted {env : Env} {ready : Bool} : HeldFamily env (booted env ready) := by
  refine ⟨registered_booted, family_booted, ?_⟩
  intro z member
  rw [booted_queue (by simp)] at member
  cases member

/-- A live process was forked by the process whose pid is its `ppid`, and is in its children
queue. -/
theorem Family.known_child {env : Env} {s : Sched} {q z : PcbPtr} {b c : Proc}
    (family : Family env s) (pids : env.PidsDistinct) (live : s.procs q = some b)
    (child : s.procs z = some c) (ppid : b.pid = c.ppid) :
    .forked q z c.pid ∈ s.history ∧ z ∈ s.queues (.children q) := by
  have pidQ := family.pids q b live
  have pidZ := family.pids z c child
  rcases family.lineage z c child with orphan | ⟨p, parent, forked⟩
  · rw [← ppid, pidQ] at orphan
    exact absurd orphan (pids.valid q)
  · obtain rfl : q = p := pids.injective (pidQ.symm.trans (ppid.trans parent))
    refine ⟨forked, ?_⟩
    rcases family.children q z c.pid b forked live with ⟨ptr, returned⟩ | ⟨member, -⟩
    · rcases family.returned q ptr c.pid returned with failed | ⟨y, -, same, gone⟩
      · rw [pidZ] at failed
        exact absurd failed (pids.valid z)
      · obtain rfl : z = y := pids.injective (pidZ.symm.trans same)
        rw [gone] at child
        cases child
    · exact member

end Sched

/-! ### The system calls -/

namespace Kernel

open Transition

variable {env : Env} {cfg : BootConfig} {boot s : Kernel}

/-- Exits come in order and children are known to their parents: a process exits only while its
parent has not exited, when it has no zombie child left and when its parent's flag was assigned;
and the node of the parent's children queue gets memory in every `Fork`. -/
structure ExitsInOrder (env : Env) (s : Kernel) (i : Input) : Prop where
  exit : s.CallsExit i → s.ParentFlagWritten ∧ s.sched.ParentAlive ∧ s.sched.ChildrenReaped
  fork : Calls yalnixFork i → env.mallocOk (s.mallocCalls + 5) = true

/-- The restrictions that `ExitsInOrder` puts on a step. -/
def orderLimits : Limits where
  exit := fun t _ => t.ParentFlagWritten ∧ t.ParentAlive ∧ t.ChildrenReaped
  fork := fun ok => ok = true
  reap := fun _ _ => True
  fail := True
  delay := True
  tty := True

theorem ExitsInOrder.allows {i : Input} (guard : ExitsInOrder env s i) :
    orderLimits.Allows env s i where
  exit := by
    intro calls
    obtain ⟨written, ordered⟩ := guard.exit calls
    exact ⟨written.sched, ordered⟩
  fork := guard.fork
  reap := fun _ _ => trivial
  fail := fun _ => trivial
  delay := fun _ => trivial
  tty := fun _ => trivial

theorem heldFamily_reaches (pids : env.PidsDistinct) (started : kernelStart env cfg = .ok boot)
    (run : Reaches (Guarded (Step env) (ExitsInOrder env)) boot s) :
    Sched.HeldFamily env s.sched := by
  have start : Sched.HeldFamily env boot.sched := by
    obtain ⟨ready, view⟩ := kernelStart_sched started
    rw [view]
    exact Sched.heldFamily_booted
  refine run.invariant (P := fun s => Sched.HeldFamily env s.sched) ?_ start
  intro s i t inv guarded
  exact inv.moves pids id id
    (deliver_moves (fresh_of_registered inv.registered) guarded.1.allows guarded.2)

/-- The zombie was forked by a process that is there, knows it as a child and is no zombie. -/
def Reclaimable (s : Kernel) (z : PcbPtr) : Prop :=
  ∃ (c : PCB) (q : PcbPtr) (b : PCB), s.heap z = some c ∧ s.heap q = some b ∧ b.pid = c.ppid ∧
    .forked q z c.pid ∈ s.history ∧ z ∈ s.queues (.children q) ∧ q ∉ s.queues .zombie ∧
      ∀ status, .exited q status ∉ s.history

/-- Every zombie of a run in which exits come in order can be reaped. -/
theorem zombies_reapable (pids : env.PidsDistinct) (started : kernelStart env cfg = .ok boot)
    (run : Reaches (Guarded (Step env) (ExitsInOrder env)) boot s) :
    ∀ z ∈ s.queues .zombie, s.Reclaimable z := by
  intro z zombie
  obtain ⟨-, family, held⟩ := heldFamily_reaches pids started run
  obtain ⟨c, dead, -⟩ := family.zombies z zombie
  obtain ⟨q, ⟨b, live, pid⟩, running⟩ := held z zombie c dead
  obtain ⟨forked, member⟩ := family.known_child pids live dead pid
  obtain ⟨pcbZ, thereZ, rfl⟩ := Option.map_eq_some_iff.mp dead
  obtain ⟨pcbQ, thereQ, rfl⟩ := Option.map_eq_some_iff.mp live
  refine ⟨pcbZ, q, pcbQ, thereZ, thereQ, pid, (List.mem_filter.mp forked).1, member, ?_, ?_⟩
  · intro isZombie
    obtain ⟨d, -, exited⟩ := family.zombies q isZombie
    exact running _ exited
  · intro status exited
    exact running status (List.mem_filter.mpr ⟨exited, rfl⟩)

/-- Whether an exit of the current process would be in order, found out PCB by PCB. -/
def exitInOrder (s : Kernel) : Bool :=
  decide s.ParentFlagWritten && (s.heap s.currentProcess).all fun c =>
    ((List.range s.nextPcb).any fun q => decide (q ≠ s.currentProcess) &&
      (s.heap q).any (fun b => decide (b.pid = c.ppid)) && s.history.all fun e =>
        match e with
        | .exited p _ => decide (p ≠ q)
        | _ => true) &&
      (s.queues .zombie).all fun z => (s.heap z).all fun d => decide (d.ppid ≠ c.pid)

/-- Other calls than `Exit` are in order, and so is an `Exit` that passes the test. -/
def stepInOrder (s : Kernel) : Input → Bool
  | .kernelTrap ctx _ => decide (ctx.code ≠ yalnixExit) || s.exitInOrder
  | .clockTrap _ | .resume => true
  | _ => false

theorem ExitsInOrder.sample {i : Input} (h : s.stepInOrder i = true) :
    ExitsInOrder sampleEnv s i where
  exit := by
    intro calls
    have passed : s.exitInOrder = true := by
      cases i with
      | kernelTrap ctx req =>
          rw [stepInOrder, show ctx.code = yalnixExit from calls] at h
          simpa using h
      | clockTrap ctx => exact calls.elim
      | resume => exact calls.elim
      | memoryTrap ctx => cases h
      | mathTrap ctx => cases h
      | illegalTrap ctx => cases h
      | ttyReceiveTrap ctx tty data => cases h
      | ttyTransmitTrap ctx tty => cases h
      | userStore va bytes => cases h
      | kernelBrk addr => cases h
    obtain ⟨written, tested⟩ := Bool.and_eq_true_iff.mp passed
    refine ⟨of_decide_eq_true written, ?_, ?_⟩
    · intro b current
      obtain ⟨c, live, rfl⟩ := Option.map_eq_some_iff.mp current
      rw [show s.heap s.currentProcess = some c from live, Option.all_some,
        Bool.and_eq_true_iff] at tested
      obtain ⟨q, -, found⟩ := List.any_eq_true.mp tested.1
      obtain ⟨first, running⟩ := Bool.and_eq_true_iff.mp found
      obtain ⟨other, alive⟩ := Bool.and_eq_true_iff.mp first
      obtain ⟨d, there, pid⟩ := (Option.any_eq_true ..).mp alive
      refine ⟨q, of_decide_eq_true other, ⟨d.proc, procs_of_heap there, of_decide_eq_true pid⟩, ?_⟩
      intro status exited
      have named := List.all_eq_true.mp running _ (List.mem_filter.mp exited).1
      simp at named
    · intro b current z zombie d dead
      obtain ⟨c, live, rfl⟩ := Option.map_eq_some_iff.mp current
      obtain ⟨e, there, rfl⟩ := Option.map_eq_some_iff.mp dead
      rw [show s.heap s.currentProcess = some c from live, Option.all_some,
        Bool.and_eq_true_iff] at tested
      have named := List.all_eq_true.mp tested.2 z zombie
      rw [show s.heap z = some e from there, Option.all_some] at named
      exact of_decide_eq_true named
  fork := fun _ => rfl

/-- Init waits for its child, which has just exited. -/
theorem zombies_reapable_sample : ∃ s : Kernel, s.queues .zombie = [2] ∧ s.Reclaimable 2 := by
  have answer : runs sampleEnv sampleBoot stepInOrder
      [.tick, .resume, .call yalnixFork 0 0 0, .call yalnixWait 0 0 0, .resume,
        .call yalnixExit 7 0 0]
      (fun s => decide (s.queues .zombie = [2])) = .ok true := by
    decide +kernel
  obtain ⟨boot, s, started, run, zombie⟩ :=
    runs_sound (ExitsInOrder sampleEnv) (fun _ _ => .sample) answer
  have zombie := of_decide_eq_true zombie
  exact ⟨s, zombie, zombies_reapable sampleEnv_pids started run 2 (by simp [zombie])⟩

/-- A process forks a child and exits; the child exits after it and stays a zombie for ever: init
reaps the process, and nobody has the child's `ppid` any more. -/
theorem zombie_unreapable : ¬ ∀ env cfg boot s, env.PidsDistinct → kernelStart env cfg = .ok boot →
    Reaches (Guarded (Step env) fun _ i => i.among [yalnixFork, yalnixExit, yalnixWait]) boot s →
    ∀ z ∈ s.queues .zombie, s.Reclaimable z := by
  intro reapable
  -- 2 waits for 3 first, so that its flag is assigned; then it forks 4 and exits before it
  have answer : runs sampleEnv sampleBoot
      (fun _ i => i.among [yalnixFork, yalnixExit, yalnixWait])
      [.tick, .resume, .call yalnixFork 0 0 0, .call yalnixWait 0 0 0, .resume,
        .call yalnixFork 0 0 0, .call yalnixWait 0 0 0, .resume, .call yalnixExit 5 0 0, .resume,
        .call yalnixFork 0 0 0, .call yalnixExit 6 0 0, .resume, .call yalnixExit 7 0 0, .resume]
      (fun s => decide (s.queues .zombie = [4]) && (s.heap 2).isNone &&
        decide (s.history = [.forked 1 2 2, .forked 2 3 3, .exited 3 5, .waitReturned 2 0 3,
          .forked 2 4 4, .exited 2 6, .exited 4 7, .waitReturned 1 0 2])) = .ok true := by
    decide +kernel
  obtain ⟨boot, s, started, run, all⟩ := runs_sound _ (fun _ _ => id) answer
  obtain ⟨both, history⟩ := Bool.and_eq_true_iff.mp all
  obtain ⟨zombie, freed⟩ := Bool.and_eq_true_iff.mp both
  have zombie := of_decide_eq_true zombie
  have history := of_decide_eq_true history
  obtain ⟨c, q, b, -, live, -, forked, -⟩ :=
    reapable _ _ boot s sampleEnv_pids started run 4 (by simp [zombie])
  have parent : q = 2 := by
    rw [history] at forked
    simp at forked
    exact forked.1
  rw [parent] at live
  rw [live] at freed
  cases freed

end Kernel

end Yalnix
