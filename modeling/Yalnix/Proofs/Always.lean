/-
Module: Yalnix.Proofs.Always
Purpose: What holds in every run, whatever is called and whichever allocations fail: the numbering
  of PCBs and slots, the region 1 table in force, and what became of the PCBs that are gone.
Trusted boundary: none
Main exports: Sched.Always, Always.move, always_reaches
-/
import Yalnix.Proofs.ExitFinal

namespace Yalnix

namespace Sched

variable {env : Env} {limits : Limits} {s s' : Sched}

/-- The table in force is the current process's. -/
theorem Move.table (move : Move env limits s s')
    (table : s.ptbr1 = s.current) : s'.ptbr1 = s'.current := by
  have switched : ∀ {kc : KernelContext} {t t' : Sched}, Dispatch kc t t' →
      t'.ptbr1 = t'.current := by
    intro kc t t' h
    cases h with
    | next => rfl
    | idle => rfl
  cases move with
  | shift moved =>
      cases moved with
      | delay allowed user busy live switch => exact switched switch
      | blockReader allowed user busy switch => exact switched switch
      | blockWriter allowed user busy switch => exact switched switch
      | blockWriting allowed switch => exact switched switch
      | blockWait user busy live childless switch => exact switched switch
      | preempt => rfl
      | _ => exact table
  | exit allowed user busy live notInit wake switch => exact switched switch
  | _ => exact table

theorem Moves.table (moves : Moves env limits s s') (table : s.ptbr1 = s.current) :
    s'.ptbr1 = s'.current := by
  induction moves with
  | refl => exact table
  | tail _ last inductionHypothesis => exact last.table inductionHypothesis

/-- Some `Wait` came back with the pid of a child. -/
def Reaped (s : Sched) : Prop :=
  ∃ p statusPtr rc, rc ≠ Status.error.code ∧ .waitReturned p statusPtr rc ∈ s.history

/-- PCBs are handed out in order, each one with the slot of its number, and the only ones that are
gone were reaped. -/
structure Always (env : Env) (s : Sched) : Prop where
  table : s.ptbr1 = s.current
  fresh : ∀ p, s.nextPcb ≤ p → s.procs p = none
  room : s.nextPcb ≤ maxProcs
  slots : ∀ i, s.procTable i = if i < s.nextPcb then some i else none
  pids : ∀ p b, s.procs p = some b → ∃ k, b.pid = env.helperNewPid k
  gone : s.Reaped ↔ ∃ p, p < s.nextPcb ∧ s.procs p = none

/-- The first empty slot has the number of the next PCB. -/
theorem freeSlot_eq (slots : ∀ i, s.procTable i = if i < s.nextPcb then some i else none) {i : Nat}
    (free : s.freeSlot = some i) : i = s.nextPcb ∧ s.nextPcb < maxProcs := by
  obtain ⟨vacant, before, after, split, taken⟩ := List.find?_eq_some_iff_append.mp free
  have beyond : s.nextPcb ≤ i := by
    by_contra below
    rw [slots i, if_pos (Nat.lt_of_not_le below)] at vacant
    cases vacant
  have inRange : i < maxProcs := by
    have member : i ∈ List.range maxProcs := by
      rw [split]
      simp
    exact List.mem_range.mp member
  have index : before.length = i := by
    have entry : (List.range maxProcs)[before.length]? = some i := by
      rw [split, List.getElem?_append_right (Nat.le_refl _), Nat.sub_self]
      rfl
    rw [List.getElem?_eq_some_iff] at entry
    obtain ⟨bound, value⟩ := entry
    rw [List.getElem_range] at value
    exact value
  have first : i ≤ s.nextPcb := by
    by_contra above
    have earlier : s.nextPcb ∈ before := by
      have entry : (List.range maxProcs)[s.nextPcb]? = some s.nextPcb := by
        rw [List.getElem?_range (by omega)]
      rw [split, List.getElem?_append_left (by omega)] at entry
      exact List.mem_of_getElem? entry
    have occupied := taken s.nextPcb earlier
    rw [slots, if_neg (Nat.lt_irrefl _)] at occupied
    cases occupied
  exact ⟨Nat.le_antisymm first beyond, Nat.lt_of_le_of_lt beyond inRange⟩

namespace Always

/-- Changes after which the same PCBs exist with the same pids. -/
theorem carry (inv : Always env s) (table : s'.ptbr1 = s'.current)
    (nextPcb : s'.nextPcb = s.nextPcb) (procTable : s'.procTable = s.procTable)
    (procs : ∀ p b', s'.procs p = some b' → ∃ b, s.procs p = some b ∧ b'.pid = b.pid)
    (live : ∀ p b, s.procs p = some b → ∃ b', s'.procs p = some b')
    (history : s'.Reaped ↔ s.Reaped) : Always env s' := by
  have absent : ∀ p, s'.procs p = none ↔ s.procs p = none := by
    intro p
    constructor
    · intro gone
      rcases found : s.procs p with _ | b
      · rfl
      · obtain ⟨b', there⟩ := live p b found
        rw [gone] at there
        cases there
    · intro gone
      rcases found : s'.procs p with _ | b'
      · rfl
      · obtain ⟨b, was, -⟩ := procs p b' found
        rw [gone] at was
        cases was
  constructor
  case table => exact table
  case fresh =>
    intro p beyond
    rw [nextPcb] at beyond
    exact (absent p).mpr (inv.fresh p beyond)
  case room =>
    rw [nextPcb]
    exact inv.room
  case slots =>
    intro i
    rw [procTable, nextPcb]
    exact inv.slots i
  case pids =>
    intro p b' found
    obtain ⟨b, was, same⟩ := procs p b' found
    rw [same]
    exact inv.pids p b was
  case gone =>
    rw [history, nextPcb, inv.gone]
    exact exists_congr fun p => and_congr_right fun _ => (absent p).symm

theorem steady {saved : KernelContext → Prop} (inv : Always env s) (h : Steady saved s s')
    (table : s'.ptbr1 = s'.current) : Always env s' := by
  refine inv.carry table h.nextPcb h.procTable ?_ h.live (by rw [Reaped, Reaped, h.history])
  intro p b' found
  obtain ⟨b, was, same, -⟩ := h.procs p b' found
  exact ⟨b, was, same.pid⟩

/-- The PCB of the current process is overwritten, under the same pid. -/
theorem setProc (inv : Always env s) {b b' : Proc} (live : s.procs s.current = some b)
    (pid : b'.pid = b.pid) : Always env (s.setProc s.current b') := by
  refine inv.carry inv.table rfl rfl ?_ ?_ Iff.rfl
  · intro p c found
    by_cases equal : p = s.current
    · subst equal
      rw [setProc_procs, Function.update_self, Option.some.injEq] at found
      exact ⟨b, live, by rw [← found, pid]⟩
    · rw [setProc_procs, Function.update_of_ne equal] at found
      exact ⟨c, found, rfl⟩
  · intro p c found
    by_cases equal : p = s.current
    · subst equal
      exact ⟨b', by simp⟩
    · exact ⟨c, by rw [setProc_procs, Function.update_of_ne equal, found]⟩

theorem push (inv : Always env s) (kept : Bool) (queue : QueueId) (p : PcbPtr) :
    Always env (s.push kept queue p) := { inv with table := inv.table }

/-- An event that is no return from `Wait` is recorded. -/
theorem log (inv : Always env s) {e : Event} (other : ∀ p ptr rc, e ≠ .waitReturned p ptr rc) :
    Always env (s.log e) := by
  refine inv.carry inv.table rfl rfl (fun _ b found => ⟨b, found, rfl⟩)
    (fun _ b found => ⟨b, found⟩) ?_
  constructor
  · rintro ⟨p, ptr, rc, valid, member⟩
    rw [log_history, List.mem_append, List.mem_singleton] at member
    rcases member with earlier | now
    · exact ⟨p, ptr, rc, valid, earlier⟩
    · exact absurd now.symm (other p ptr rc)
  · rintro ⟨p, ptr, rc, valid, member⟩
    exact ⟨p, ptr, rc, valid, List.mem_append_left _ member⟩

/-- A forked child takes the next PCB and the slot of its number. -/
theorem spawn (inv : Always env s) {b : Proc} {inReady inChildren : Bool} {i : Nat}
    (slot : s.freeSlot = some i) : Always env (s.spawn env b inReady inChildren) := by
  obtain ⟨rfl, room⟩ := freeSlot_eq inv.slots slot
  have taken : s.slotTaken = Function.update s.procTable s.nextPcb (some s.nextPcb) := by
    rw [slotTaken, slot]
  have old : ∀ p, p ≠ s.nextPcb → (s.spawn env b inReady inChildren).procs p = s.procs p := by
    intro p other
    rw [spawn_procs, Function.update_of_ne other]
  constructor
  case table => exact inv.table
  case fresh =>
    intro p beyond
    rw [spawn_nextPcb] at beyond
    rw [old p (Nat.ne_of_gt beyond)]
    exact inv.fresh p (Nat.le_of_succ_le beyond)
  case room => exact room
  case slots =>
    intro i
    rw [spawn_procTable, spawn_nextPcb, taken]
    by_cases new : i = s.nextPcb
    · subst new
      simp
    · rw [Function.update_of_ne new, inv.slots]
      by_cases before : i < s.nextPcb
      · rw [if_pos before, if_pos (Nat.lt_succ_of_lt before)]
      · rw [if_neg before, if_neg (by omega)]
  case pids =>
    intro p c found
    by_cases new : p = s.nextPcb
    · subst new
      rw [spawn_procs, Function.update_self, Option.some.injEq] at found
      exact ⟨s.pidCalls, by rw [← found]; rfl⟩
    · rw [old p new] at found
      exact inv.pids p c found
  case gone =>
    have reaped : (s.spawn env b inReady inChildren).Reaped ↔ s.Reaped := by
      simp [Reaped]
    rw [reaped, inv.gone, spawn_nextPcb]
    constructor
    · rintro ⟨p, before, absent⟩
      exact ⟨p, Nat.lt_succ_of_lt before, by rw [old p (Nat.ne_of_lt before)]; exact absent⟩
    · rintro ⟨p, before, absent⟩
      by_cases new : p = s.nextPcb
      · subst new
        rw [spawn_procs, Function.update_self] at absent
        cases absent
      · rw [old p new] at absent
        exact ⟨p, Nat.lt_of_le_of_ne (Nat.le_of_lt_succ before) new, absent⟩

/-- A PCB is freed and the return from `Wait` is recorded. -/
theorem reap (valid : ∀ k, env.helperNewPid k ≠ Status.error.code) (inv : Always env s)
    {c : Proc} {z : PcbPtr} {statusPtr : Word} (dead : s.procs z = some c) :
    Always env ((((s.remove (.children s.current) z).remove .zombie z).delete z).log
      (.waitReturned s.current statusPtr c.pid)) := by
  have known : z < s.nextPcb := by
    by_contra beyond
    rw [inv.fresh z (Nat.le_of_not_lt beyond)] at dead
    cases dead
  constructor
  case table => exact inv.table
  case fresh =>
    intro p beyond
    rcases found : ((((s.remove (.children s.current) z).remove .zombie z).delete z).log
      (.waitReturned s.current statusPtr c.pid)).procs p with _ | b'
    · rfl
    · obtain ⟨-, b, was, -⟩ := delete_procs_some.mp found
      rw [remove_procs, remove_procs, inv.fresh p beyond] at was
      cases was
  case room => exact inv.room
  case slots => exact inv.slots
  case pids =>
    intro p b' found
    obtain ⟨-, b, was, rfl⟩ := delete_procs_some.mp found
    exact inv.pids p b was
  case gone =>
    have returned : ((((s.remove (.children s.current) z).remove .zombie z).delete z).log
        (.waitReturned s.current statusPtr c.pid)).Reaped := by
      obtain ⟨k, pid⟩ := inv.pids z c dead
      refine ⟨s.current, statusPtr, c.pid, ?_, by simp⟩
      rw [pid]
      exact valid k
    refine iff_of_true returned ⟨z, known, ?_⟩
    simp

/-- A `Wait` that fails reaps nobody. -/
theorem waitFailed (inv : Always env s) (statusPtr : Word) :
    Always env (s.log (.waitReturned s.current statusPtr (-1))) where
  table := inv.table
  fresh := inv.fresh
  room := inv.room
  slots := inv.slots
  pids := inv.pids
  gone := by
    have same : (s.log (.waitReturned s.current statusPtr (-1))).Reaped ↔ s.Reaped := by
      constructor
      · rintro ⟨p, ptr, rc, valid, member⟩
        rw [log_history, List.mem_append, List.mem_singleton] at member
        rcases member with earlier | now
        · exact ⟨p, ptr, rc, valid, earlier⟩
        · obtain ⟨-, -, rfl⟩ := Event.waitReturned.inj now
          exact absurd rfl valid
      · rintro ⟨p, ptr, rc, valid, member⟩
        exact ⟨p, ptr, rc, valid, List.mem_append_left _ member⟩
    rw [same]
    exact inv.gone

theorem toUser (inv : Always env s) : Always env s.toUser := { inv with table := inv.table }

/-- Every move, of any run. -/
theorem move (valid : ∀ k, env.helperNewPid k ≠ Status.error.code) (inv : Always env s)
    (move : Move env limits s s') : Always env s' := by
  have table := move.table inv.table
  cases move with
  | shift moved => exact inv.steady moved.steady table
  | @exit woken _ b status frame origin k allowed user busy live notInit wake switch =>
      have zombie : Always env (s.zombified b status (env.mallocOk k)) := by
        refine Always.log ?_ (fun _ _ _ equal => by cases equal)
        exact (inv.push _ .zombie s.current).setProc live rfl
      have steady : Steady (fun kc => kc.isExit = true)
          (s.zombified b status (env.mallocOk k)) s' :=
        Steady.dispatch wake.steady wake.current_eq switch rfl
      exact zombie.steady steady table
  | fork allowed user busy live other slot => exact inv.spawn slot
  | @childReturn b q child parent inKernel live saved parentLive pidsDiffer =>
      have recorded : Always env (s.setProc s.current { b with parent := some parent }) :=
        inv.setProc live rfl
      exact recorded.toUser
  | forkAgain =>
      refine toUser (Always.log ?_ (fun _ _ _ equal => by cases equal))
      exact (inv.push _ .ready _).push _ _ _
  | reap allowed live zombie dead child => exact (inv.reap valid dead).toUser
  | noChildren => exact inv.waitFailed _
  | noZombie => exact (inv.waitFailed _).toUser

theorem moves (valid : ∀ k, env.helperNewPid k ≠ Status.error.code) (inv : Always env s)
    (run : Moves env limits s s') : Always env s' := by
  induction run with
  | refl => exact inv
  | tail _ last inductionHypothesis => exact inductionHypothesis.move valid last

theorem booted {ready : Bool} : Always env (booted env ready) where
  table := rfl
  fresh := by
    intro p beyond
    have notInit : p ≠ 1 := by
      rintro rfl
      exact Nat.not_succ_le_self 1 beyond
    have notIdle : p ≠ 0 := by
      rintro rfl
      exact Nat.not_succ_le_zero 1 beyond
    rw [booted_procs, if_neg notInit, if_neg notIdle]
  room := by
    have two : (Sched.booted env ready).nextPcb = 2 := rfl
    rw [two]
    decide
  slots := by
    intro i
    have table : (Sched.booted env ready).procTable =
        Function.update (Function.update (fun _ => none) 0 (some 0)) 1 (some 1) := rfl
    have two : (Sched.booted env ready).nextPcb = 2 := rfl
    rw [table, two]
    by_cases second : i = 1
    · subst second
      rfl
    · by_cases first : i = 0
      · subst first
        rfl
      · rw [Function.update_of_ne second, Function.update_of_ne first, if_neg (by omega)]
  pids := by
    intro p b found
    rw [booted_procs] at found
    split at found
    · cases found
      exact ⟨1, rfl⟩
    · split at found
      · cases found
        exact ⟨0, rfl⟩
      · cases found
  gone := by
    constructor
    · rintro ⟨p, ptr, rc, -, member⟩
      cases member
    · rintro ⟨p, before, absent⟩
      have bound : p < 2 := before
      rw [booted_procs] at absent
      split at absent
      · cases absent
      · rename_i notInit
        split at absent
        · cases absent
        · rename_i notIdle
          rcases Nat.lt_succ_iff_lt_or_eq.mp bound with first | second
          · exact absurd (Nat.lt_one_iff.mp first) notIdle
          · exact absurd second notInit

end Always

end Sched

namespace Kernel

open Transition

variable {env : Env} {cfg : BootConfig} {guard : Kernel → Input → Prop} {boot s : Kernel}

/-- No restriction at all. -/
def noLimits : Limits where
  exit := fun _ _ => True
  fork := fun _ => True
  reap := fun _ _ => True
  fail := True
  delay := True
  tty := True

theorem noLimits_allows {i : Input} : noLimits.Allows env s i :=
  ⟨fun _ => trivial, fun _ => trivial, fun _ _ => trivial, fun _ => trivial, fun _ => trivial,
    fun _ => trivial⟩

theorem always_reaches (valid : ∀ k, env.helperNewPid k ≠ Status.error.code)
    (started : kernelStart env cfg = .ok boot) (run : Reaches (Guarded (Step env) guard) boot s) :
    Sched.Always env s.sched := by
  have start : Sched.Always env boot.sched := by
    obtain ⟨ready, view⟩ := kernelStart_sched started
    rw [view]
    exact .booted
  refine run.unguarded.invariant (P := fun s => Sched.Always env s.sched) ?_ start
  intro s i t inv step
  have fresh : s.heap s.nextPcb = none := by
    have absent := inv.fresh s.nextPcb (Nat.le_refl _)
    simpa using absent
  have allowed : noLimits.Allows env s i := noLimits_allows
  exact inv.moves valid (deliver_moves fresh allowed step)

/-- The table in force is the current process's, whatever the pids of the hardware library are as
long as they do not repeat. -/
theorem table_reaches (distinct : Function.Injective env.helperNewPid)
    (started : kernelStart env cfg = .ok boot)
    (run : Reaches (Guarded (Step env) ExitsWritten) boot s) : s.ptbr1 = s.currentProcess := by
  induction run with
  | refl =>
      obtain ⟨ready, view⟩ := kernelStart_sched started
      have table : boot.sched.ptbr1 = boot.sched.current := by
        rw [view]
        rfl
      exact table
  | tail before last inductionHypothesis =>
      obtain ⟨i, guarded⟩ := last
      have known := registered_reaches distinct started before
      have moves := deliver_moves (fresh_of_registered known) guarded.1.allows guarded.2
      exact moves.table inductionHypothesis

end Kernel

end Yalnix
