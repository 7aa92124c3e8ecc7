/-
Module: Yalnix.Proofs.Family
Purpose: What the queues and PCBs say about who forked whom agrees with the calls that were made:
  zombies are the exited children, each live child is in its parent's children queue, and a child is
  returned by one Wait.
Trusted boundary: the pids of the hardware library do not repeat and are not negative
Main exports: Sched.Family, Family.steady, Family.zombified, Family.spawn, Family.reap, Family.move
-/
import Mathlib.Tactic.Set
import Yalnix.Proofs.ExitFinal

namespace Yalnix

/-- Pids are not reused and are told from the error code. -/
structure Env.PidsDistinct (env : Env) : Prop where
  injective : Function.Injective env.helperNewPid
  nonneg : ∀ k, 0 ≤ env.helperNewPid k

theorem Env.PidsDistinct.valid {env : Env} (pids : env.PidsDistinct) (k : Nat) :
    env.helperNewPid k ≠ invalidPid := by
  have nonneg := pids.nonneg k
  simp only [invalidPid]
  omega

theorem sampleEnv_pids : sampleEnv.PidsDistinct where
  injective := sampleEnv_distinct
  nonneg := Int.natCast_nonneg

/-- A PCB holds the pointer in its `parent` field, or in the variable `parent` of a `Fork` in which
it was not run yet. -/
def Proc.RefersTo (b : Proc) (q : PcbPtr) : Prop :=
  b.parent = some q ∨ ∃ child, b.kernelContext = .fork child q

namespace Sched

/-- Some `Wait` of the process returned the pid. -/
def Returned (s : Sched) (p : PcbPtr) (pid : Int) : Prop :=
  ∃ statusPtr, .waitReturned p statusPtr pid ∈ s.history

/-- The queues and PCBs agree with the calls made so far. -/
structure Family (env : Env) (s : Sched) : Prop where
  counts : s.nextPcb = s.pidCalls
  pids : ∀ p b, s.procs p = some b → b.pid = env.helperNewPid p
  distinct : (s.queues .zombie).Nodup
  zombies : ∀ z ∈ s.queues .zombie, ∃ c, s.procs z = some c ∧
    .exited z c.exitStatus ∈ s.history
  statuses : ∀ z status c, .exited z status ∈ s.history → s.procs z = some c →
    c.exitStatus = status
  lineage : ∀ z c, s.procs z = some c → c.ppid = invalidPid ∨
    ∃ p, c.ppid = env.helperNewPid p ∧ .forked p z c.pid ∈ s.history
  parents : ∀ z c q, s.procs z = some c → c.RefersTo q → c.ppid = env.helperNewPid q
  forked : ∀ p z pid, .forked p z pid ∈ s.history → pid = env.helperNewPid z ∧ p < s.nextPcb
  children : ∀ p z pid b, .forked p z pid ∈ s.history → s.procs p = some b →
    s.Returned p pid ∨ z ∈ s.queues (.children p) ∧
      ∃ c, s.procs z = some c ∧ c.ppid = env.helperNewPid p
  returned : ∀ p statusPtr rc, .waitReturned p statusPtr rc ∈ s.history →
    rc = Status.error.code ∨ ∃ z, z < s.nextPcb ∧ rc = env.helperNewPid z ∧ s.procs z = none

namespace Family

variable {env : Env} {limits : Limits} {s s' : Sched}

/-- Moves that create, end and reap nobody. -/
theorem steady {saved : KernelContext → Prop} (inv : Family env s) (h : Steady saved s s')
    (notFork : ∀ kc, saved kc → ∀ child parent, kc ≠ .fork child parent) : Family env s' where
  counts := by rw [h.nextPcb, h.pidCalls, inv.counts]
  pids := by
    intro p b' found
    obtain ⟨b, was, same, -⟩ := h.procs p b' found
    rw [same.pid, inv.pids p b was]
  distinct := by rw [h.zombie]; exact inv.distinct
  zombies := by
    intro z member
    rw [h.zombie] at member
    obtain ⟨c, was, exited⟩ := inv.zombies z member
    obtain ⟨c', found⟩ := h.live z c was
    obtain ⟨d, was', same, -⟩ := h.procs z c' found
    obtain rfl : d = c := Option.some.inj (was'.symm.trans was)
    refine ⟨c', found, ?_⟩
    rw [same.exitStatus, h.history]
    exact exited
  statuses := by
    intro z status c' exited found
    rw [h.history] at exited
    obtain ⟨c, was, same, -⟩ := h.procs z c' found
    rw [same.exitStatus]
    exact inv.statuses z status c exited was
  lineage := by
    intro z c' found
    obtain ⟨c, was, same, -⟩ := h.procs z c' found
    rw [same.ppid, same.pid, h.history]
    exact inv.lineage z c was
  parents := by
    intro z c' q found refers
    obtain ⟨c, was, same, kept⟩ := h.procs z c' found
    rw [same.ppid]
    refine inv.parents z c q was ?_
    rcases refers with parent | ⟨child, isFork⟩
    · exact Or.inl (same.parent.symm.trans parent)
    · rcases kept with kept | ⟨-, kind⟩
      · exact Or.inr ⟨child, kept.symm.trans isFork⟩
      · exact absurd isFork (notFork _ kind child q)
  forked := by
    intro p z pid event
    rw [h.history] at event
    rw [h.nextPcb]
    exact inv.forked p z pid event
  children := by
    intro p z pid b' event found
    rw [h.history] at event
    obtain ⟨b, was, -⟩ := h.procs p b' found
    rw [h.children]
    rcases inv.children p z pid b event was with ⟨statusPtr, returned⟩ | ⟨member, c, live, ppid⟩
    · exact Or.inl ⟨statusPtr, by rw [h.history]; exact returned⟩
    · obtain ⟨c', live'⟩ := h.live z c live
      obtain ⟨d, was', same, -⟩ := h.procs z c' live'
      obtain rfl : d = c := Option.some.inj (was'.symm.trans live)
      exact Or.inr ⟨member, c', live', same.ppid.trans ppid⟩
  returned := by
    intro p statusPtr rc event
    rw [h.history] at event
    rcases inv.returned p statusPtr rc event with failed | ⟨z, known, pid, gone⟩
    · exact Or.inl failed
    · refine Or.inr ⟨z, by rw [h.nextPcb]; exact known, pid, ?_⟩
      rcases found : s'.procs z with _ | c'
      · rfl
      · obtain ⟨c, was, -⟩ := h.procs z c' found
        rw [gone] at was
        cases was

/-- The exiting process becomes a zombie. -/
theorem zombified (inv : Family env s) (known : Registered env s) {b : Proc} {status : Int}
    {kept : Bool} (live : s.procs s.current = some b) (busy : s.current ≠ s.idleProc) :
    Family env (s.zombified b status kept) := by
  -- a process inside Exit does not run
  have unexited : ∀ code, .exited s.current code ∉ s.history := fun code member =>
    (known.exit_is_off busy live ((known.exited s.current code member).2.2 b live)).1 rfl
  have notZombie : s.current ∉ s.queues .zombie := fun member =>
    (known.exit_is_off busy live ((known.zombies s.current member).2.2 b live)).1 rfl
  have old : ∀ p, p ≠ s.current → (s.zombified b status kept).procs p = s.procs p := by
    intro p other
    rw [zombified_procs, Function.update_of_ne other]
  have new : (s.zombified b status kept).procs s.current =
      some { b with exitStatus := status } := by
    rw [zombified_procs, Function.update_self]
  have history : ∀ e, e ∈ (s.zombified b status kept).history ↔
      e ∈ s.history ∨ e = .exited s.current status := by
    intro e
    rw [zombified_history, List.mem_append, List.mem_singleton]
  have was : ∀ p c', (s.zombified b status kept).procs p = some c' → ∃ c, s.procs p = some c ∧
      c'.pid = c.pid ∧ c'.ppid = c.ppid ∧ c'.parent = c.parent ∧
      c'.kernelContext = c.kernelContext := by
    intro p c' found
    by_cases equal : p = s.current
    · subst equal
      rw [new, Option.some.injEq] at found
      subst found
      exact ⟨b, live, rfl, rfl, rfl, rfl⟩
    · rw [old p equal] at found
      exact ⟨c', found, rfl, rfl, rfl, rfl⟩
  constructor
  case counts => exact inv.counts
  case pids =>
    intro p c' found
    obtain ⟨c, before, pid, -⟩ := was p c' found
    rw [pid]
    exact inv.pids p c before
  case distinct =>
    rw [zombified_queues, Function.update_self]
    rcases kept with _ | _
    · exact inv.distinct
    · exact inv.distinct.append (List.nodup_singleton _) (by simpa using notZombie)
  case zombies =>
    intro z member
    rw [zombified_queues, Function.update_self] at member
    by_cases equal : z = s.current
    · subst equal
      exact ⟨_, new, (history _).mpr (Or.inr rfl)⟩
    · have earlier : z ∈ s.queues .zombie := by
        rcases kept with _ | _
        · exact member
        · simpa [equal] using member
      obtain ⟨c, found, exited⟩ := inv.zombies z earlier
      exact ⟨c, by rw [old z equal]; exact found, (history _).mpr (Or.inl exited)⟩
  case statuses =>
    intro z code c' exited found
    rcases (history _).mp exited with earlier | now
    · by_cases equal : z = s.current
      · subst equal
        exact absurd earlier (unexited code)
      · rw [old z equal] at found
        exact inv.statuses z code c' earlier found
    · obtain ⟨rfl, rfl⟩ := Event.exited.inj now
      rw [new, Option.some.injEq] at found
      rw [← found]
  case lineage =>
    intro z c' found
    obtain ⟨c, before, pid, ppid, -⟩ := was z c' found
    rw [pid, ppid]
    rcases inv.lineage z c before with orphan | ⟨p, parent, event⟩
    · exact Or.inl orphan
    · exact Or.inr ⟨p, parent, (history _).mpr (Or.inl event)⟩
  case parents =>
    intro z c' q found refers
    obtain ⟨c, before, -, ppid, parent, kc⟩ := was z c' found
    rw [ppid]
    refine inv.parents z c q before ?_
    rcases refers with isParent | ⟨child, isFork⟩
    · exact Or.inl (parent.symm.trans isParent)
    · exact Or.inr ⟨child, kc.symm.trans isFork⟩
  case forked =>
    intro p z pid event
    rcases (history _).mp event with earlier | now
    · exact inv.forked p z pid earlier
    · cases now
  case children =>
    intro p z pid b' event found
    obtain ⟨d, before, -⟩ := was p b' found
    rcases (history _).mp event with earlier | now
    · rcases inv.children p z pid d earlier before with
        ⟨statusPtr, returned⟩ | ⟨member, c, there, ppid⟩
      · exact Or.inl ⟨statusPtr, (history _).mpr (Or.inl returned)⟩
      · refine Or.inr ⟨by simpa using member, ?_⟩
        by_cases equal : z = s.current
        · subst equal
          obtain rfl : c = b := Option.some.inj (there.symm.trans live)
          exact ⟨_, new, ppid⟩
        · exact ⟨c, by rw [old z equal]; exact there, ppid⟩
    · cases now
  case returned =>
    intro p statusPtr rc event
    rcases (history _).mp event with earlier | now
    · rcases inv.returned p statusPtr rc earlier with failed | ⟨z, issued, pid, gone⟩
      · exact Or.inl failed
      · refine Or.inr ⟨z, issued, pid, ?_⟩
        have other : z ≠ s.current := by
          rintro rfl
          rw [gone] at live
          cases live
        rw [old z other]
        exact gone
    · cases now

/-- A fork adds a child to the children queue of the current process. -/
theorem spawn (inv : Family env s) (known : Registered env s) {b : Proc}
    {inReady : Bool} (live : s.procs s.current = some b) :
    Family env (s.spawn env b inReady true) := by
  have issued : env.helperNewPid s.pidCalls = env.helperNewPid s.nextPcb := by rw [inv.counts]
  have absent := known.fresh s.nextPcb (Nat.le_refl _)
  have below := known.known live
  have old : ∀ p, p ≠ s.nextPcb → (s.spawn env b inReady true).procs p = s.procs p := by
    intro p other
    rw [spawn_procs, Function.update_of_ne other]
  have new : (s.spawn env b inReady true).procs s.nextPcb = some (newProc env s b) := by
    rw [spawn_procs, Function.update_self]
  have history : ∀ e, e ∈ (s.spawn env b inReady true).history ↔ e ∈ s.history ∨
      e = .forked s.current s.nextPcb (env.helperNewPid s.pidCalls) := by
    intro e
    rw [spawn_history, List.mem_append, List.mem_singleton]
  have zombie : (s.spawn env b inReady true).queues .zombie = s.queues .zombie := by
    simp
  have someone : ∀ z c, s.procs z = some c → z ≠ s.nextPcb := by
    rintro z c found rfl
    rw [absent] at found
    cases found
  have children : ∀ p z, z ∈ s.queues (.children p) → p ≠ s.nextPcb →
      z ∈ (s.spawn env b inReady true).queues (.children p) := by
    intro p z member other
    by_cases parent : p = s.current
    · subst parent
      simp [member, other]
    · simp [member, other, parent]
  constructor
  case counts =>
    rw [spawn_nextPcb, spawn_pidCalls, inv.counts]
  case pids =>
    intro p c found
    by_cases equal : p = s.nextPcb
    · subst equal
      rw [new, Option.some.injEq] at found
      rw [← found, ← issued]
      rfl
    · rw [old p equal] at found
      exact inv.pids p c found
  case distinct =>
    rw [zombie]
    exact inv.distinct
  case zombies =>
    intro z member
    rw [zombie] at member
    obtain ⟨c, found, exited⟩ := inv.zombies z member
    exact ⟨c, by rw [old z (someone z c found)]; exact found, (history _).mpr (Or.inl exited)⟩
  case statuses =>
    intro z status c exited found
    rcases (history _).mp exited with earlier | now
    · have other : z ≠ s.nextPcb := Nat.ne_of_lt (known.exited z status earlier).2.1
      rw [old z other] at found
      exact inv.statuses z status c earlier found
    · cases now
  case lineage =>
    intro z c found
    by_cases equal : z = s.nextPcb
    · subst equal
      rw [new, Option.some.injEq] at found
      subst found
      exact Or.inr ⟨s.current, inv.pids _ b live, (history _).mpr (Or.inr rfl)⟩
    · rw [old z equal] at found
      rcases inv.lineage z c found with orphan | ⟨p, parent, event⟩
      · exact Or.inl orphan
      · exact Or.inr ⟨p, parent, (history _).mpr (Or.inl event)⟩
  case parents =>
    intro z c q found refers
    by_cases equal : z = s.nextPcb
    · subst equal
      rw [new, Option.some.injEq] at found
      subst found
      rcases refers with parent | ⟨child, isFork⟩
      · cases parent
      · cases isFork
        exact inv.pids _ b live
    · rw [old z equal] at found
      exact inv.parents z c q found refers
  case forked =>
    intro p z pid event
    rcases (history _).mp event with earlier | now
    · obtain ⟨pid, before⟩ := inv.forked p z pid earlier
      exact ⟨pid, Nat.lt_succ_of_lt before⟩
    · obtain ⟨rfl, rfl, rfl⟩ := Event.forked.inj now
      exact ⟨issued, Nat.lt_succ_of_lt below⟩
  case children =>
    intro p z pid d event found
    rcases (history _).mp event with earlier | now
    · by_cases equal : p = s.nextPcb
      · -- the new process has not forked
        exact absurd (inv.forked p z pid earlier).2 (Nat.not_lt_of_le (Nat.le_of_eq equal.symm))
      · rw [old p equal] at found
        rcases inv.children p z pid d earlier found with
          ⟨statusPtr, returned⟩ | ⟨member, c, there, ppid⟩
        · exact Or.inl ⟨statusPtr, (history _).mpr (Or.inl returned)⟩
        · exact Or.inr ⟨children p z member equal, c,
            by rw [old z (someone z c there)]; exact there, ppid⟩
    · obtain ⟨rfl, rfl, rfl⟩ := Event.forked.inj now
      refine Or.inr ⟨?_, _, new, inv.pids _ b live⟩
      simp [Nat.ne_of_lt below]
  case returned =>
    intro p statusPtr rc event
    rcases (history _).mp event with earlier | now
    · rcases inv.returned p statusPtr rc earlier with failed | ⟨z, before, pid, gone⟩
      · exact Or.inl failed
      · refine Or.inr ⟨z, Nat.lt_succ_of_lt before, pid, ?_⟩
        rw [old z (Nat.ne_of_lt before)]
        exact gone
    · cases now

/-- Reaping a zombie child of the current process. -/
theorem reap (pids : env.PidsDistinct) (inv : Family env s) (known : Registered env s)
    {b c : Proc} {z : PcbPtr} {statusPtr : Word} (live : s.procs s.current = some b)
    (zombie : z ∈ s.queues .zombie) (dead : s.procs z = some c) (child : c.ppid = b.pid) :
    Family env ((((s.remove (.children s.current) z).remove .zombie z).delete z).log
      (.waitReturned s.current statusPtr c.pid)) := by
  set u := (((s.remove (.children s.current) z).remove .zombie z).delete z).log
    (.waitReturned s.current statusPtr c.pid) with uEq
  have history : ∀ e, e ∈ u.history ↔
      e ∈ s.history ∨ e = .waitReturned s.current statusPtr c.pid := by
    intro e
    simp [uEq]
  have gone : u.procs z = none := by
    simp [uEq]
  have was : ∀ p d', u.procs p = some d' → p ≠ z ∧ ∃ d, s.procs p = some d ∧ d'.pid = d.pid ∧
      d'.ppid = d.ppid ∧ d'.exitStatus = d.exitStatus ∧ d'.kernelContext = d.kernelContext ∧
      (d'.parent = d.parent ∨ d'.parent = none) := by
    intro p d' found
    rw [uEq, log_procs, delete_procs_some] at found
    obtain ⟨other, d, before, rfl⟩ := found
    refine ⟨other, d, before, rfl, rfl, rfl, rfl, ?_⟩
    simp only
    split
    · exact Or.inr rfl
    · exact Or.inl rfl
  have stays : ∀ p d, s.procs p = some d → p ≠ z → ∃ d', u.procs p = some d' := by
    intro p d found other
    exact ⟨_, by rw [uEq, log_procs, delete_procs_some]; exact ⟨other, d, found, rfl⟩⟩
  have zombies : u.queues .zombie = (s.queues .zombie).erase z := by
    simp [uEq]
  have ppidOf : c.ppid = env.helperNewPid s.current := child.trans (inv.pids _ b live)
  constructor
  case counts => exact inv.counts
  case pids =>
    intro p d' found
    obtain ⟨-, d, before, pid, -⟩ := was p d' found
    rw [pid]
    exact inv.pids p d before
  case distinct =>
    rw [zombies]
    exact inv.distinct.erase z
  case zombies =>
    intro y member
    rw [zombies, inv.distinct.mem_erase_iff] at member
    obtain ⟨d, before, exited⟩ := inv.zombies y member.2
    obtain ⟨d', found⟩ := stays y d before member.1
    obtain ⟨-, e, before', -, -, status, -⟩ := was y d' found
    obtain rfl : e = d := Option.some.inj (before'.symm.trans before)
    refine ⟨d', found, (history _).mpr (Or.inl ?_)⟩
    rw [status]
    exact exited
  case statuses =>
    intro y status d' exited found
    obtain ⟨-, d, before, -, -, same, -⟩ := was y d' found
    rcases (history _).mp exited with earlier | now
    · rw [same]
      exact inv.statuses y status d earlier before
    · cases now
  case lineage =>
    intro y d' found
    obtain ⟨-, d, before, pid, ppid, -⟩ := was y d' found
    rw [pid, ppid]
    rcases inv.lineage y d before with orphan | ⟨p, parent, event⟩
    · exact Or.inl orphan
    · exact Or.inr ⟨p, parent, (history _).mpr (Or.inl event)⟩
  case parents =>
    intro y d' q found refers
    obtain ⟨-, d, before, -, ppid, -, kc, parent⟩ := was y d' found
    rw [ppid]
    refine inv.parents y d q before ?_
    rcases refers with isParent | ⟨forkChild, isFork⟩
    · rcases parent with same | cleared
      · exact Or.inl (same.symm.trans isParent)
      · rw [cleared] at isParent
        cases isParent
    · exact Or.inr ⟨forkChild, kc.symm.trans isFork⟩
  case forked =>
    intro p y pid event
    rcases (history _).mp event with earlier | now
    · exact inv.forked p y pid earlier
    · cases now
  case children =>
    intro p y pid d' event found
    obtain ⟨other, d, before, -⟩ := was p d' found
    rcases (history _).mp event with earlier | now
    · rcases inv.children p y pid d earlier before with ⟨ptr, returned⟩ | ⟨member, e, there, ppid⟩
      · exact Or.inl ⟨ptr, (history _).mpr (Or.inl returned)⟩
      · by_cases equal : y = z
        · -- the child just returned
          subst equal
          obtain rfl : e = c := Option.some.inj (there.symm.trans dead)
          obtain rfl : s.current = p := pids.injective (ppidOf.symm.trans ppid)
          refine Or.inl ⟨statusPtr, (history _).mpr (Or.inr ?_)⟩
          rw [(inv.forked _ y pid earlier).1, inv.pids y e dead]
        · obtain ⟨e', found'⟩ := stays y e there equal
          obtain ⟨-, f, there', -, ppid', -⟩ := was y e' found'
          obtain rfl : f = e := Option.some.inj (there'.symm.trans there)
          refine Or.inr ⟨?_, e', found', ppid'.trans ppid⟩
          have kept : y ∈ (s.queues (.children s.current)).erase z ∨ p ≠ s.current := by
            by_cases parent : p = s.current
            · subst parent
              exact Or.inl ((List.mem_erase_of_ne equal).mpr member)
            · exact Or.inr parent
          by_cases parent : p = s.current
          · subst parent
            simpa [uEq, other] using kept
          · simp [uEq, other, parent, member]
    · cases now
  case returned =>
    intro p ptr rc event
    rcases (history _).mp event with earlier | now
    · rcases inv.returned p ptr rc earlier with failed | ⟨y, issued, pid, absent⟩
      · exact Or.inl failed
      · refine Or.inr ⟨y, issued, pid, ?_⟩
        rcases found : u.procs y with _ | d'
        · rfl
        · obtain ⟨-, d, before, -⟩ := was y d' found
          rw [absent] at before
          cases before
    · obtain ⟨rfl, rfl, rfl⟩ := Event.waitReturned.inj now
      exact Or.inr ⟨z, known.known dead, inv.pids z c dead, gone⟩

/-- A `Wait` that fails is recorded. -/
theorem waitFailed (inv : Family env s) (p : PcbPtr) (statusPtr : Word) :
    Family env (s.log (.waitReturned p statusPtr (-1))) := by
  have history : ∀ e, e ∈ (s.log (.waitReturned p statusPtr (-1))).history ↔
      e ∈ s.history ∨ e = .waitReturned p statusPtr (-1) := by
    intro e
    simp
  refine
    { inv with
      zombies := ?_
      statuses := ?_
      lineage := ?_
      forked := ?_
      children := ?_
      returned := ?_ }
  · intro z member
    obtain ⟨c, found, exited⟩ := inv.zombies z member
    exact ⟨c, found, (history _).mpr (Or.inl exited)⟩
  · intro z status c exited found
    rcases (history _).mp exited with earlier | now
    · exact inv.statuses z status c earlier found
    · cases now
  · intro z c found
    rcases inv.lineage z c found with orphan | ⟨q, parent, event⟩
    · exact Or.inl orphan
    · exact Or.inr ⟨q, parent, (history _).mpr (Or.inl event)⟩
  · intro q z pid event
    rcases (history _).mp event with earlier | now
    · exact inv.forked q z pid earlier
    · cases now
  · intro q z pid b event found
    rcases (history _).mp event with earlier | now
    · rcases inv.children q z pid b earlier found with ⟨ptr, returned⟩ | there
      · exact Or.inl ⟨ptr, (history _).mpr (Or.inl returned)⟩
      · exact Or.inr there
    · cases now
  · intro q ptr rc event
    rcases (history _).mp event with earlier | now
    · exact inv.returned q ptr rc earlier
    · obtain ⟨-, -, rfl⟩ := Event.waitReturned.inj now
      exact Or.inl rfl

/-- A forked child that runs for the first time records its parent. -/
theorem childReturn (inv : Family env s) {b : Proc} {child parent : PcbPtr}
    (live : s.procs s.current = some b) (saved : b.kernelContext = .fork child parent) :
    Family env (s.setProc s.current { b with parent := some parent }) := by
  have was : ∀ p d', (s.setProc s.current { b with parent := some parent }).procs p = some d' →
      ∃ d, s.procs p = some d ∧ d'.pid = d.pid ∧ d'.ppid = d.ppid ∧
        d'.exitStatus = d.exitStatus ∧ ∀ q, d'.RefersTo q → d.RefersTo q := by
    intro p d' found
    by_cases equal : p = s.current
    · subst equal
      rw [setProc_procs, Function.update_self, Option.some.injEq] at found
      subst found
      refine ⟨b, live, rfl, rfl, rfl, ?_⟩
      rintro q (isParent | isFork)
      · cases isParent
        exact Or.inr ⟨child, saved⟩
      · exact Or.inr isFork
    · rw [setProc_procs, Function.update_of_ne equal] at found
      exact ⟨d', found, rfl, rfl, rfl, fun _ => id⟩
  have stays : ∀ p d, s.procs p = some d →
      ∃ d', (s.setProc s.current { b with parent := some parent }).procs p = some d' ∧
        d'.ppid = d.ppid ∧ d'.exitStatus = d.exitStatus := by
    intro p d found
    by_cases equal : p = s.current
    · subst equal
      obtain rfl : d = b := Option.some.inj (found.symm.trans live)
      exact ⟨_, Function.update_self .., rfl, rfl⟩
    · exact ⟨d, by rw [setProc_procs, Function.update_of_ne equal, found], rfl, rfl⟩
  refine
    { inv with
      pids := ?_
      zombies := ?_
      statuses := ?_
      lineage := ?_
      parents := ?_
      children := ?_
      returned := ?_ }
  · intro p d' found
    obtain ⟨d, before, pid, -⟩ := was p d' found
    rw [pid]
    exact inv.pids p d before
  · intro z member
    obtain ⟨c, found, exited⟩ := inv.zombies z member
    obtain ⟨c', found', -, status⟩ := stays z c found
    refine ⟨c', found', ?_⟩
    rw [status]
    exact exited
  · intro z status d' exited found
    obtain ⟨d, before, -, -, same, -⟩ := was z d' found
    rw [same]
    exact inv.statuses z status d exited before
  · intro z d' found
    obtain ⟨d, before, pid, ppid, -⟩ := was z d' found
    rw [pid, ppid]
    exact inv.lineage z d before
  · intro z d' q found refers
    obtain ⟨d, before, -, ppid, -, kept⟩ := was z d' found
    rw [ppid]
    exact inv.parents z d q before (kept q refers)
  · intro p z pid d' event found
    obtain ⟨d, before, -⟩ := was p d' found
    rcases inv.children p z pid d event before with returned | ⟨member, c, there, ppid⟩
    · exact Or.inl returned
    · obtain ⟨c', there', same, -⟩ := stays z c there
      exact Or.inr ⟨member, c', there', same.trans ppid⟩
  · intro p ptr rc event
    rcases inv.returned p ptr rc event with failed | ⟨z, issued, pid, gone⟩
    · exact Or.inl failed
    · refine Or.inr ⟨z, issued, pid, ?_⟩
      rcases found : (s.setProc s.current { b with parent := some parent }).procs z with _ | d'
      · rfl
      · obtain ⟨d, before, -⟩ := was z d' found
        rw [gone] at before
        cases before

theorem toUser (inv : Family env s) : Family env s.toUser := { inv with counts := inv.counts }

/-- Every move keeps the agreement, if no fork loses the entry in the children queue. -/
theorem move (pids : env.PidsDistinct) (forks : ∀ {ok}, limits.fork ok → ok = true)
    (known : Registered env s) (inv : Family env s) (move : Move env limits s s') :
    Family env s' := by
  cases move with
  | shift moved =>
      refine inv.steady moved.steady ?_
      rintro kc plain child parent rfl
      exact plain
  | @exit woken _ b status frame origin k allowed user busy live notInit wake switch =>
      have st := wake.leaves switch
      refine (inv.zombified known live busy).steady st ?_
      rintro kc isExit child parent rfl
      cases isExit
  | fork allowed user busy live other =>
      rw [forks allowed]
      exact inv.spawn known live
  | childReturn inKernel live saved parentLive pidsDiffer =>
      exact (inv.childReturn live saved).toUser
  | @forkAgain b q c child parent k k' inKernel live saved parentLive childLive same =>
      exact absurd same (known.child_apart live saved parentLive)
  | reap allowed live zombie dead child => exact (inv.reap pids known live zombie dead child).toUser
  | noChildren allowed user busy empty => exact inv.waitFailed _ _
  | noZombie allowed inKernel live saved childless => exact (inv.waitFailed _ _).toUser

end Family

theorem family_booted {env : Env} {ready : Bool} : Family env (booted env ready) := by
  have history : ∀ e, e ∉ (booted env ready).history := by
    intro e member
    cases member
  constructor
  case counts => rfl
  case pids =>
    intro p b found
    rw [booted_procs] at found
    split at found
    · rename_i init
      cases found
      rw [init]
    · split at found
      · rename_i idle
        cases found
        rw [idle]
      · cases found
  case distinct =>
    rw [booted_queue (by simp)]
    exact List.nodup_nil
  case zombies =>
    intro z member
    rw [booted_queue (by simp)] at member
    cases member
  case statuses => exact fun z status c exited => absurd exited (history _)
  case lineage =>
    intro z c found
    rw [booted_procs] at found
    split at found
    · cases found
      exact Or.inl rfl
    · split at found
      · cases found
        exact Or.inl rfl
      · cases found
  case parents =>
    intro z c q found refers
    rw [booted_procs] at found
    split at found
    · cases found
      rcases refers with parent | ⟨child, isFork⟩
      · cases parent
      · cases isFork
    · split at found
      · cases found
        rcases refers with parent | ⟨child, isFork⟩
        · cases parent
        · cases isFork
      · cases found
  case forked => exact fun p z pid event => absurd event (history _)
  case children => exact fun p z pid b event => absurd event (history _)
  case returned => exact fun p ptr rc event => absurd event (history _)

end Sched

end Yalnix
