/-
Module: Yalnix.Proofs.Children
Purpose: A child that has not exited stays in the children queue of its parent as long as that
  exists, an exited one is a zombie until it is reaped, and a child that runs knows its parent.
Trusted boundary: the pids of the hardware library do not repeat and are not negative
Main exports: Sched.Nursery, Sched.Outstanding, Nursery.kinship, Kernel.ParentsKnown,
  kinship_step, exited_before, nursery_reaches
-/
import Yalnix.Proofs.Inside
import Yalnix.Proofs.Links
import Yalnix.Proofs.Reaping

namespace Yalnix

open Transition

namespace Sched

variable {env : Env} {limits : Limits} {s s' : Sched} {p c : PcbPtr}

/-! ### Children that have not exited -/

/-- The process has called `Exit`. -/
def Exited (s : Sched) (p : PcbPtr) : Prop := ∃ status, .exited p status ∈ s.history

/-- Who has exited and was not reaped is a zombie. -/
def Buried (s : Sched) : Prop := ∀ z b, s.Exited z → s.procs z = some b → z ∈ s.queues .zombie

/-- Children queues and zombies agree with who was forked and who has exited. -/
structure Nursery (env : Env) (s : Sched) : Prop where
  registered : Registered env s
  family : Family env s
  siblings : Siblings env s
  zombies : s.Buried

/-- The process is an entry of the children queue of a parent that was created, or has exited, or
its parent is gone. -/
def Outstanding (s : Sched) (p c : PcbPtr) : Prop :=
  p < s.nextPcb ∧ (c ∈ s.queues (.children p) ∨ s.Exited c ∨ s.procs p = none)

theorem Exited.of_history (exited : s.Exited p) (history : ∀ e ∈ s.history, e ∈ s'.history) :
    s'.Exited p := by
  obtain ⟨status, member⟩ := exited
  exact ⟨status, history _ member⟩

theorem Exited.before (exited : s'.Exited p) (history : s'.history = s.history) : s.Exited p :=
  exited.of_history fun _ member => history ▸ member

/-- An event that is no exit of the process is logged. -/
theorem Exited.before_log {e : Event} (exited : s'.Exited p)
    (history : s'.history = s.history ++ [e]) (other : ∀ status, e ≠ .exited p status) : s.Exited p := by
  obtain ⟨status, member⟩ := exited
  rw [history] at member
  rcases List.mem_append.mp member with before | last
  · exact ⟨status, before⟩
  · exact absurd (List.mem_singleton.mp last).symm (other status)

namespace Outstanding

/-- Nobody is created or reaped. -/
theorem carry (out : s.Outstanding p c) (nextPcb : s'.nextPcb = s.nextPcb)
    (children : s'.queues (.children p) = s.queues (.children p))
    (history : ∀ e ∈ s.history, e ∈ s'.history)
    (procs : s.procs p = none → s'.procs p = none) : s'.Outstanding p c := by
  obtain ⟨created, member | exited | gone⟩ := out
  · exact ⟨nextPcb ▸ created, Or.inl (children ▸ member)⟩
  · exact ⟨nextPcb ▸ created, Or.inr (Or.inl (exited.of_history history))⟩
  · exact ⟨nextPcb ▸ created, Or.inr (Or.inr (procs gone))⟩

theorem steady {saved : KernelContext → Prop} (out : s.Outstanding p c) (h : Steady saved s s') :
    s'.Outstanding p c := by
  refine out.carry h.nextPcb (h.children p) (fun e member => ?_) fun gone => ?_
  · rw [h.history]
    exact member
  · rcases found : s'.procs p with _ | b'
    · rfl
    · obtain ⟨b, was, -⟩ := h.procs p b' found
      rw [gone] at was
      cases was

theorem spawn (out : s.Outstanding p c) (b : Proc) (inReady inChildren : Bool) :
    (s.spawn env b inReady inChildren).Outstanding p c := by
  obtain ⟨created, state⟩ := out
  have old : p ≠ s.nextPcb := Nat.ne_of_lt created
  refine ⟨Nat.lt_succ_of_lt created, ?_⟩
  rcases state with member | exited | gone
  · refine Or.inl ?_
    by_cases current : p = s.current
    · subst current
      simp only [spawn_queues, Function.update_self]
      split
      · simp [old, member]
      · simp [old, member]
    · simpa [old, current] using member
  · exact Or.inr (Or.inl (exited.of_history fun e member => by simp [member]))
  · refine Or.inr (Or.inr ?_)
    rw [spawn_procs, Function.update_of_ne old]
    exact gone

/-- A process that has not exited is not reaped. -/
theorem reap (out : s.Outstanding p c) (family : Family env s) {z : PcbPtr} {e : Event}
    (zombie : z ∈ s.queues .zombie) (apart : z ≠ s.current) :
    (((((s.remove (.children s.current) z).remove .zombie z).delete z).log
      e).toUser).Outstanding p c := by
  obtain ⟨created, state⟩ := out
  refine ⟨created, ?_⟩
  rcases state with member | exited | gone
  · by_cases freed : p = z
    · subst freed
      exact Or.inr (Or.inr (by simp))
    · by_cases here : c = z
      · subst here
        obtain ⟨d, -, exited⟩ := family.zombies c zombie
        exact Or.inr (Or.inl ⟨d.exitStatus, List.mem_append_left _ exited⟩)
      · refine Or.inl ?_
        rw [Siblings.reap_queues apart, if_neg freed]
        split
        · exact (List.mem_erase_of_ne here).mpr member
        · exact member
  · exact Or.inr (Or.inl (exited.of_history fun e member => List.mem_append_left _ member))
  · refine Or.inr (Or.inr ?_)
    rcases found : (((((s.remove (.children s.current) z).remove .zombie z).delete z).log
      e).toUser).procs p with _ | b'
    · rfl
    · obtain ⟨-, b, was, -⟩ := delete_procs_some.mp found
      have there : s.procs p = some b := was
      rw [gone] at there
      cases there

theorem move (out : s.Outstanding p c) (known : Registered env s) (family : Family env s)
    (move : Move env limits s s') : s'.Outstanding p c := by
  cases move with
  | shift moved => exact out.steady moved.steady
  | @exit woken _ b status frame origin k allowed user busy live notInit wake switch =>
      have zombie : (s.zombified b status (env.mallocOk k)).Outstanding p c := by
        refine out.carry rfl (by simp) (fun e member => by simp [member]) fun gone => ?_
        have other : p ≠ s.current := by
          rintro rfl
          rw [gone] at live
          cases live
        rw [zombified_procs, Function.update_of_ne other]
        exact gone
      have left := wake.leaves switch
      exact zombie.steady left
  | @fork b k k' => exact out.spawn b _ _
  | @childReturn b q child parent inKernel live saved parentLive pids =>
      refine out.carry rfl rfl (fun _ => id) fun gone => ?_
      have other : p ≠ s.current := by
        rintro rfl
        rw [gone] at live
        cases live
      rw [toUser_procs, setProc_procs, Function.update_of_ne other]
      exact gone
  | @forkAgain b q d child parent k k' inKernel live saved parentLive childLive same =>
      exact absurd same (known.child_apart live saved parentLive)
  | @reap b d z statusPtr allowed live zombie dead child =>
      exact out.reap family zombie (known.zombie_apart zombie dead)
  | noChildren => exact out.carry rfl rfl (fun e member => by simp [member]) id
  | noZombie => exact out.carry rfl rfl (fun e member => by simp [member]) id

end Outstanding

namespace Buried

/-- Nobody is created, exits or is reaped. -/
theorem carry (buried : s.Buried) (procs : ∀ z b', s'.procs z = some b' → ∃ b, s.procs z = some b)
    (zombie : s'.queues .zombie = s.queues .zombie) (exited : ∀ z, s'.Exited z → s.Exited z) :
    s'.Buried := by
  intro z b' gone found
  obtain ⟨b, was⟩ := procs z b' found
  rw [zombie]
  exact buried z b (exited z gone) was

theorem steady {saved : KernelContext → Prop} (buried : s.Buried) (h : Steady saved s s') :
    s'.Buried := by
  refine buried.carry (fun z b' found => ?_) h.zombie fun z exited => exited.before h.history
  obtain ⟨b, was, -⟩ := h.procs z b' found
  exact ⟨b, was⟩

theorem zombified (buried : s.Buried) (b : Proc) (status : Int) :
    (s.zombified b status true).Buried := by
  rintro z d exited found
  have queue : (s.zombified b status true).queues .zombie = s.queues .zombie ++ [s.current] := by
    simp
  rw [queue]
  by_cases current : z = s.current
  · subst current
    simp
  · rw [zombified_procs, Function.update_of_ne current] at found
    refine List.mem_append_left _ (buried z d (exited.before_log (zombified_history ..) ?_) found)
    exact fun status' same => current (Event.exited.inj same).1.symm

/-- An exit that finds memory makes a zombie, and only a zombie is reaped. -/
theorem move (buried : s.Buried) (known : Registered env s)
    (exits : ∀ {t ok}, limits.exit t ok → ok = true) (move : Move env limits s s') :
    s'.Buried := by
  cases move with
  | shift moved => exact buried.steady moved.steady
  | @exit woken _ b status frame origin k allowed user busy live notInit wake switch =>
      rw [exits allowed] at wake
      have left := wake.leaves switch
      exact (buried.zombified b status).steady left
  | @fork b k k' i allowed user busy live other =>
      intro z d exited found
      have before := exited.before_log (spawn_history ..) fun _ => Event.noConfusion
      obtain ⟨status, member⟩ := before
      have old : z ≠ s.nextPcb := Nat.ne_of_lt (known.exited z status member).2.1
      rw [spawn_procs, Function.update_of_ne old] at found
      simpa using buried z d ⟨status, member⟩ found
  | @childReturn b q child parent inKernel live saved parentLive differ =>
      refine buried.carry (fun z d found => ?_) rfl fun z exited => exited.before rfl
      by_cases current : z = s.current
      · exact ⟨b, current ▸ live⟩
      · rw [toUser_procs, setProc_procs, Function.update_of_ne current] at found
        exact ⟨d, found⟩
  | @forkAgain b q d child parent k k' inKernel live saved parentLive childLive same =>
      exact absurd same (known.child_apart live saved parentLive)
  | @reap b d z statusPtr allowed live zombie dead child =>
      intro y e exited found
      obtain ⟨others, e', was, -⟩ := delete_procs_some.mp found
      have before := exited.before_log rfl fun _ => Event.noConfusion
      simpa using (List.mem_erase_of_ne others).mpr (buried y e' before was)
  | noChildren | noZombie =>
      exact buried.carry (fun z b found => ⟨b, found⟩) rfl
        fun z exited => exited.before_log rfl fun _ => Event.noConfusion

end Buried

/-- The PCB of the current process is written, but not the pid of its parent. -/
theorem Siblings.setCurrent (inv : Siblings env s) {b b' : Proc} (live : s.procs s.current = some b)
    (procs : s'.procs = Function.update s.procs s.current (some b')) (ppid : b'.ppid = b.ppid)
    (children : ∀ p, s'.queues (.children p) = s.queues (.children p)) : Siblings env s' := by
  refine inv.carry (fun p d found => ?_) children
  by_cases current : p = s.current
  · subst current
    obtain rfl : d = b := Option.some.inj (found.symm.trans live)
    exact ⟨b', by rw [procs, Function.update_self], ppid⟩
  · exact ⟨d, by rw [procs, Function.update_of_ne current, found], rfl⟩

namespace Nursery

theorem siblings_move (inv : Nursery env s) (pids : env.PidsDistinct)
    (forks : ∀ {ok}, limits.fork ok → ok = true) (move : Move env limits s s') :
    Siblings env s' := by
  cases move with
  | shift moved => exact inv.siblings.steady moved.steady
  | @exit woken _ b status frame origin k allowed user busy live notInit wake switch =>
      have zombie : Siblings env (s.zombified b status (env.mallocOk k)) :=
        inv.siblings.setCurrent live (zombified_procs ..) rfl fun p => by simp
      have left := wake.leaves switch
      exact zombie.steady left
  | @fork b k k' i allowed user busy live other =>
      rw [forks allowed]
      exact inv.siblings.spawn inv.registered inv.family live other
  | @childReturn b q child parent inKernel live saved parentLive differ =>
      exact inv.siblings.setCurrent live rfl rfl fun p => rfl
  | @forkAgain b q d child parent k k' inKernel live saved parentLive childLive same =>
      exact absurd same (inv.registered.child_apart live saved parentLive)
  | @reap b d z statusPtr allowed live zombie dead child =>
      have apart := inv.registered.zombie_apart zombie dead
      exact inv.siblings.reap pids inv.family live apart dead child
  | noChildren | noZombie =>
      exact inv.siblings.carry (fun p b found => ⟨b, found, rfl⟩) fun p => rfl

/-- Every move keeps the agreement, if exits and forks find memory. -/
theorem move (inv : Nursery env s) (pids : env.PidsDistinct)
    (exits : ∀ {t ok}, limits.exit t ok → t.ParentFlagWritten ∧ ok = true)
    (forks : ∀ {ok}, limits.fork ok → ok = true) (move : Move env limits s s') :
    Nursery env s' where
  registered := inv.registered.move pids.injective (fun allowed => (exits allowed).1) move
  family := inv.family.move pids forks inv.registered move
  siblings := inv.siblings_move pids forks move
  zombies := inv.zombies.move inv.registered (fun allowed => (exits allowed).2) move

theorem booted {ready : Bool} : Nursery env (booted env ready) where
  registered := registered_booted
  family := family_booted
  siblings := linked_booted.links.siblings
  zombies := by
    rintro z b ⟨status, member⟩
    cases member

end Nursery

/-! ### Children that know their parent -/

/-- The parent pointer of the process leads to `p`. -/
def Fathered (s : Sched) (p c : PcbPtr) : Prop := ∃ d, s.procs c = some d ∧ d.parent = some p

/-- Only a fork adds an entry to a children queue. -/
theorem Nursery.children_before (inv : Nursery env s) (move : Move env limits s s')
    (member : c ∈ s'.queues (.children p)) :
    c ∈ s.queues (.children p) ∨ c = s.nextPcb ∧ ∃ ok, limits.fork ok := by
  cases move with
  | shift moved =>
      rw [moved.steady.children] at member
      exact Or.inl member
  | @exit woken _ b status frame origin k allowed user busy live notInit wake switch =>
      have left := wake.leaves switch
      rw [left.children] at member
      exact Or.inl (by simpa using member)
  | @fork b k k' i allowed user busy live other =>
      by_cases newborn : c = s.nextPcb
      · exact Or.inr ⟨newborn, _, allowed⟩
      · refine Or.inl ?_
        by_cases child : p = s.nextPcb
        · simp [child, Ne.symm other] at member
        · by_cases current : p = s.current
          · subst current
            simp only [spawn_queues, Function.update_self] at member
            split at member
            · simpa [child, newborn] using member
            · simpa [child] using member
          · simpa [child, current] using member
  | childReturn => exact Or.inl member
  | @forkAgain b q d child parent k k' inKernel live saved parentLive childLive same =>
      exact absurd same (inv.registered.child_apart live saved parentLive)
  | @reap b d z statusPtr allowed live zombie dead child =>
      rw [Siblings.reap_queues (inv.registered.zombie_apart zombie dead)] at member
      split at member
      · cases member
      · split at member
        · exact Or.inl (List.mem_of_mem_erase member)
        · exact Or.inl member
  | noChildren => exact Or.inl member
  | noZombie => exact Or.inl member

/-- A switch writes no PCB but that of the process that leaves. -/
theorem Dispatch.procs_other {kc : KernelContext} (switch : Dispatch kc s s')
    (other : p ≠ s.current) : s'.procs p = s.procs p := by
  cases switch with
  | next => rw [enter_procs, setProc_procs, Function.update_of_ne other, setQueue_procs]
  | idle => rw [enter_procs, setProc_procs, Function.update_of_ne other]

/-- Only an exit of the current process logs one. -/
theorem Move.exited_before (move : Move env limits s s') (exited : s'.Exited c) :
    s.Exited c ∨ c = s.current ∧ ∃ ok, limits.exit s ok := by
  cases move with
  | shift moved => exact Or.inl (exited.before moved.steady.history)
  | @exit woken _ b status frame origin k allowed user busy live notInit wake switch =>
      by_cases current : c = s.current
      · exact Or.inr ⟨current, _, allowed⟩
      · have left := wake.leaves switch
        refine Or.inl (exited.before_log (left.history.trans (zombified_history ..)) ?_)
        exact fun status' same => current (Event.exited.inj same).1.symm
  | @fork b k k' i allowed user busy live other =>
      exact Or.inl (exited.before_log (spawn_history ..) fun _ => Event.noConfusion)
  | childReturn => exact Or.inl (exited.before rfl)
  | forkAgain | reap | noChildren | noZombie =>
      exact Or.inl (exited.before_log rfl fun _ => Event.noConfusion)

/-- An entry of one children queue is in no other. -/
theorem Siblings.unique (inv : Siblings env s) (pids : env.PidsDistinct) {q : PcbPtr}
    (member : c ∈ s.queues (.children p)) (member' : c ∈ s.queues (.children q)) : p = q := by
  obtain ⟨d, found, ppid⟩ := inv.children p c member
  obtain ⟨d', found', ppid'⟩ := inv.children q c member'
  obtain rfl := Option.some.inj (found.symm.trans found')
  exact pids.injective (ppid.symm.trans ppid')

/-- A child keeps the pointer to its parent while it is in the children queue. -/
theorem Nursery.fathered_move (inv : Nursery env s) (pids : env.PidsDistinct)
    (created : c < s.nextPcb) (knows : c ∈ s.queues (.children p) → s.Fathered p c)
    (move : Move env limits s s') (member : c ∈ s'.queues (.children p)) : s'.Fathered p c := by
  have old : c ≠ s.nextPcb := Nat.ne_of_lt created
  have before := (inv.children_before move member).resolve_right fun newborn => old newborn.1
  obtain ⟨d, found, father⟩ := knows before
  cases move with
  | shift moved =>
      obtain ⟨d', found', same⟩ := moved.steady.kept found
      exact ⟨d', found', same.parent.trans father⟩
  | @exit woken _ b status frame origin k allowed user busy live notInit wake switch =>
      have zombie : ∃ d', (s.zombified b status (env.mallocOk k)).procs c = some d' ∧
          d'.parent = some p := by
        by_cases current : c = s.current
        · subst current
          obtain rfl : b = d := Option.some.inj (live.symm.trans found)
          exact ⟨{ b with exitStatus := status }, by simp, father⟩
        · exact ⟨d, by rw [zombified_procs, Function.update_of_ne current, found], father⟩
      obtain ⟨d', found', father'⟩ := zombie
      have left := wake.leaves switch
      obtain ⟨e, found'', same⟩ := left.kept found'
      exact ⟨e, found'', same.parent.trans father'⟩
  | fork => exact ⟨d, by rw [spawn_procs, Function.update_of_ne old, found], father⟩
  | @childReturn b q child parent inKernel live saved parentLive differ =>
      by_cases current : c = s.current
      · subst current
        obtain rfl : b = d := Option.some.inj (live.symm.trans found)
        refine ⟨_, Function.update_self .., ?_⟩
        -- the variable of the fork and the field agree
        have field := inv.family.parents s.current b p live (Or.inl father)
        have held := inv.family.parents s.current b parent live (Or.inr ⟨child, saved⟩)
        exact congrArg some (pids.injective (held.symm.trans field))
      · exact ⟨d, by rw [toUser_procs, setProc_procs, Function.update_of_ne current, found], father⟩
  | forkAgain => exact ⟨d, found, father⟩
  | @reap b e z statusPtr allowed live zombie dead child =>
      have apart := inv.registered.zombie_apart zombie dead
      have siblings := inv.siblings.reap (e := .waitReturned s.current statusPtr e.pid)
        pids inv.family live apart dead child
      obtain ⟨f, there, -⟩ := siblings.children p c member
      obtain ⟨others, -⟩ := delete_procs_some.mp there
      rw [Siblings.reap_queues apart] at member
      split at member
      · cases member
      rename_i notFreed
      refine ⟨_, delete_procs_some.mpr ⟨others, d, found, rfl⟩, ?_⟩
      have elsewhere : c ∉ ((s.remove (.children s.current) z).remove .zombie z).queues
          (.children z) := by
        intro orphan
        have orphan' : c ∈ s.queues (.children z) := by simpa [apart] using orphan
        exact notFreed (inv.siblings.unique pids before orphan')
      rw [if_neg elsewhere]
      exact father
  | noChildren => exact ⟨d, found, father⟩
  | noZombie => exact ⟨d, found, father⟩

/-! ### Runs of moves -/

theorem Move.nextPcb_le (move : Move env limits s s') : s.nextPcb ≤ s'.nextPcb := by
  cases move with
  | shift moved => exact moved.steady.nextPcb.ge
  | exit allowed user busy live notInit wake switch =>
      have left := wake.leaves switch
      exact left.nextPcb.ge
  | fork => exact Nat.le_succ _
  | _ => exact Nat.le_refl _

/-- What moves that find memory leave of parents and children; only forks add a child. -/
structure Kinship (env : Env) (limits : Limits) (s s' : Sched) : Prop where
  later : s.nextPcb ≤ s'.nextPcb
  nursery : Nursery env s'
  outstanding : ∀ p c, s.Outstanding p c → s'.Outstanding p c
  fathered : ∀ p c, c < s.nextPcb → (c ∈ s.queues (.children p) → s.Fathered p c) →
    c ∈ s'.queues (.children p) → s'.Fathered p c
  before : (∀ ok, ¬ limits.fork ok) → ∀ p, ∀ c ∈ s'.queues (.children p),
    c ∈ s.queues (.children p)
  exited : (∀ t ok, ¬ limits.exit t ok) → ∀ c, s'.Exited c → s.Exited c

theorem Nursery.kinship (inv : Nursery env s) (pids : env.PidsDistinct)
    (exits : ∀ {t ok}, limits.exit t ok → t.ParentFlagWritten ∧ ok = true)
    (forks : ∀ {ok}, limits.fork ok → ok = true) (run : Moves env limits s s') :
    Kinship env limits s s' := by
  induction run with
  | refl =>
      exact ⟨Nat.le_refl _, inv, fun _ _ => id, fun _ _ _ => id, fun _ _ _ => id, fun _ _ => id⟩
  | tail _ last inductionHypothesis =>
      have kin := inductionHypothesis
      constructor
      case later => exact Nat.le_trans kin.later last.nextPcb_le
      case nursery => exact kin.nursery.move pids exits forks last
      case outstanding =>
        intro p c out
        exact (kin.outstanding p c out).move kin.nursery.registered kin.nursery.family last
      case fathered =>
        intro p c created knows
        exact kin.nursery.fathered_move pids (Nat.lt_of_lt_of_le created kin.later)
          (kin.fathered p c created knows) last
      case before =>
        intro none p c member
        refine kin.before none p c ((kin.nursery.children_before last member).resolve_right ?_)
        rintro ⟨-, ok, forks⟩
        exact none ok forks
      case exited =>
        intro none c exited
        refine kin.exited none c ((last.exited_before exited).resolve_right ?_)
        rintro ⟨-, ok, exits⟩
        exact none _ ok exits

end Sched

/-! ### The machine -/

namespace Kernel

variable {env : Env} {cfg : BootConfig} {boot s s' : Kernel} {p c child : PcbPtr}

/-- Every entry of a children queue points to its parent, or has not returned from the `Fork` that
will set the pointer. -/
def ParentsKnown (s : Kernel) : Prop :=
  ∀ p, ∀ c ∈ s.queues (.children p),
    s.sched.Fathered p c ∨ ∃ child, s.Inside c (.fork child p)

/-- A forked child that runs for the first time stores the pointer to its parent. -/
theorem resume_fathered (known : Sched.Registered env s.sched)
    (inside : s.Inside s.currentProcess (.fork child p)) (h : s.resume env = .ok s') :
    s'.sched.Fathered p s.currentProcess := by
  obtain ⟨b, live, saved⟩ := inside.pcb
  simp only [resume, bind_eq_ok, deref_eq_ok] at h
  obtain ⟨c, found, h⟩ := h
  obtain rfl : c = b := Option.some.inj (found.symm.trans live)
  rw [saved] at h
  simp only [bind_eq_ok] at h
  obtain ⟨t, returned, restored⟩ := h
  simp only [forkReturn, bind_eq_ok, deref_eq_ok] at returned
  obtain ⟨d, found', q, parentLive, returned⟩ := returned
  obtain rfl : d = c := Option.some.inj (found'.symm.trans found)
  have differ : d.pid ≠ q.pid := fun same =>
    (known.forked _ d.proc child p (procs_of_heap live) saved).2.2 q.proc
      (procs_of_heap parentLive) same.symm
  rw [if_neg differ] at returned
  obtain ⟨e, found'', rfl⟩ := modifyPcb_eq_ok.mp returned
  rw [sched_restoreContext restored]
  exact ⟨_, procs_of_heap (Function.update_self ..), rfl⟩

/-- A forked child is inside the `Fork` of its parent. -/
theorem trapFork_inside (fresh : s.heap s.nextPcb = none) (h : s.trapFork env = .ok s')
    (member : c ∈ s'.queues (.children p)) (newborn : c ∉ s.queues (.children p)) :
    s'.Inside c (.fork c p) := by
  simp only [trapFork, bind_eq_ok] at h
  obtain ⟨t, kept, ⟨status, u⟩, forked, h⟩ := h
  obtain ⟨b, live, frame⟩ := saveContext_eq_ok.mp kept
  have other : t.currentProcess ≠ t.nextPcb := by
    intro same
    have absent : s.heap s.currentProcess = none := by
      rw [frame] at same
      exact (congrArg s.heap same).trans fresh
    rw [absent] at live
    cases live
  have queues : t.queues = s.queues := by rw [frame]; rfl
  rw [← queues] at newborn
  rcases fork_status forked with rfl | rfl
  · simp only [reduceCtorEq, if_false] at h
    obtain ⟨i, d, m, pt, m', pages, stack, -, -, -, -, -, isForked⟩ := fork_eq_ok other forked
    obtain ⟨e, -, rfl⟩ := restoreContext_eq_ok.mp h
    have current : u.currentProcess = t.currentProcess := by simp [isForked]
    have entered : c ∈ u.queues (.children p) := member
    rw [isForked] at entered
    have own : c = t.nextPcb ∧ p = t.currentProcess := by
      by_cases parent : p = t.currentProcess
      · subst parent
        refine ⟨?_, rfl⟩
        simp only [setPcb_queues, log_queues, queueEnqueue_queues, setQueue_queues,
          Function.update_self] at entered
        split at entered
        · simpa [other, newborn] using entered
        · simp [other, newborn] at entered
      · by_cases child : p = t.nextPcb
        · simp [child, Ne.symm other] at entered
        · simp [parent, child, newborn] at entered
    obtain ⟨rfl, rfl⟩ := own
    refine ⟨fun runs => other (current.symm.trans runs.2), forkedPcb env t d pt pages, ?_, rfl⟩
    have there : u.heap t.nextPcb = some (forkedPcb env t d pt pages) := by
      simp [isForked, Function.update_of_ne (Ne.symm other)]
    exact there
  · cases h

theorem ExitsWritten.familyKept {i : Input} (guard : s.ExitsWritten i)
    (memory : ∀ k, env.mallocOk k = true) : FamilyKept env s i where
  exit calls := ⟨guard calls, memory _⟩
  fork _ := memory _

/-- What a step that finds memory leaves of parents and children. -/
theorem kinship_step {i : Input} (pids : env.PidsDistinct) (memory : ∀ k, env.mallocOk k = true)
    (nursery : Sched.Nursery env s.sched) (taken : Guarded (Step env) ExitsWritten s i s') :
    Sched.Kinship env familyLimits s.sched s'.sched := by
  have kept := taken.1.familyKept memory
  exact nursery.kinship pids id id
    (deliver_moves (fresh_of_registered nursery.registered) kept.allows taken.2)

/-- A step that is no `Fork` adds no child. -/
theorem children_before {i : Input} (pids : env.PidsDistinct) (memory : ∀ k, env.mallocOk k = true)
    (nursery : Sched.Nursery env s.sched) (taken : Guarded (Step env) ExitsWritten s i s')
    (unforked : ¬ Calls yalnixFork i) (member : c ∈ s'.queues (.children p)) :
    c ∈ s.queues (.children p) := by
  have kept := taken.1.familyKept memory
  have allowed : ({ familyLimits with fork := fun _ => False } : Limits).Allows env s i :=
    { kept.allows with fork := fun forks => absurd forks unforked }
  have kin := nursery.kinship pids id False.elim
    (deliver_moves (fresh_of_registered nursery.registered) allowed taken.2)
  exact kin.before (fun _ => id) p c member

theorem CallsExit.enabled {i : Input} (calls : s.CallsExit i) (enabled : s.Enabled i) :
    s.mode = .user ∧ s.currentProcess ≠ s.idleProc := by
  cases i with
  | kernelTrap | memoryTrap | mathTrap | illegalTrap => exact enabled
  | _ => cases calls

/-- Only a step that runs `Exit` logs one, that of the current process. -/
theorem exited_before {i : Input} (pids : env.PidsDistinct)
    (memory : ∀ k, env.mallocOk k = true) (nursery : Sched.Nursery env s.sched)
    (taken : Guarded (Step env) ExitsWritten s i s') (exited : s'.sched.Exited c) :
    s.sched.Exited c ∨ c = s.currentProcess ∧ s.CallsExit i := by
  have kept := taken.1.familyKept memory
  by_cases calls : s.CallsExit i
  · obtain ⟨t, status, origin, view, counts, exits⟩ := step_exit calls taken.2.2
    obtain ⟨user, busy⟩ := calls.enabled taken.2.1
    have current : t.currentProcess = s.currentProcess := congrArg Sched.current view
    have allowed : familyLimits.exit t.sched (env.mallocOk t.mallocCalls) := by
      rw [view, counts]
      exact kept.allows.exit calls
    have move := exit_move allowed ((congrArg Sched.mode view).trans user)
      (by rw [current]; exact fun idle => busy (idle.trans (congrArg Sched.idleProc view))) exits
    rcases move.exited_before exited with before | ⟨same, -⟩
    · rw [view] at before
      exact Or.inl before
    · exact Or.inr ⟨same.trans current, calls⟩
  · have allowed : ({ familyLimits with exit := fun _ _ => False } : Limits).Allows env s i :=
      { kept.allows with exit := fun exits => absurd exits calls }
    have kin := nursery.kinship pids False.elim id
      (deliver_moves (fresh_of_registered nursery.registered) allowed taken.2)
    exact Or.inl (kin.exited (fun _ _ => id) c exited)

/-- After an `Exit` the flag of the parent is clear. -/
theorem exit_clears_flag {i : Input} {b : PCB} (calls : s.CallsExit i)
    (fathered : s.sched.Fathered p s.currentProcess) (apart : p ≠ s.currentProcess)
    (step : s.Step env i s') (live : s'.heap p = some b) : b.waitingForChildPid = 0 := by
  obtain ⟨t, status, origin, view, -, exits⟩ := step_exit calls step.2
  obtain ⟨c, woken, found, -, wake, frame, switch⟩ := exit_sched exits
  rw [view] at found wake
  obtain ⟨d, found', parent⟩ := fathered
  obtain rfl : c = d := Option.some.inj (found.symm.trans found')
  rw [parent] at wake
  have clear : ∀ d, woken.procs p = some d → d.waitingForChildPid = 0 := by
    intro d waits
    cases wake with
    | waiting =>
        rw [Sched.push_procs, Sched.setProc_procs, Function.update_self] at waits
        rw [← Option.some.inj waits]
    | notWaiting was flag =>
        rw [← Option.some.inj (was.symm.trans waits)]
        exact flag
  have current : woken.current = s.currentProcess := wake.current_eq
  have found : s'.sched.procs p = some b.proc := procs_of_heap live
  rw [switch.procs_other fun same => apart (same.trans current)] at found
  exact clear _ found

theorem ParentsKnown.step {i : Input} (knows : s.ParentsKnown) (pids : env.PidsDistinct)
    (memory : ∀ k, env.mallocOk k = true) (nursery : Sched.Nursery env s.sched)
    (taken : Guarded (Step env) ExitsWritten s i s') : s'.ParentsKnown := by
  have known := nursery.registered
  have kin := kinship_step pids memory nursery taken
  have step := taken.2
  intro p c member
  by_cases old : c ∈ s.queues (.children p)
  · obtain ⟨d, found, -⟩ := nursery.siblings.children p c old
    rcases knows p c old with fathered | ⟨child, inside⟩
    · exact Or.inl (kin.fathered p c (known.known found) (fun _ => fathered) member)
    · by_cases current : c = s.currentProcess
      · subst current
        have inKernel : s.mode ≠ .user := fun user => inside.away ⟨user, rfl⟩
        cases i with
        | resume => exact Or.inl (resume_fathered known inside step.2)
        | clockTrap | ttyTransmitTrap | kernelBrk => exact absurd step.1 inKernel
        | _ => exact absurd step.1.1 inKernel
      · exact Or.inr ⟨child, inside.step known rfl (Ne.symm current) step⟩
  · have forks : Calls yalnixFork i := by
      by_contra unforked
      exact old (children_before pids memory nursery taken unforked member)
    cases i with
    | kernelTrap ctx req =>
        have code : (s.trap ctx).ctx.code = yalnixFork := forks
        have ran : (s.trap ctx).trapFork env = .ok s' := by
          simpa [deliver, kernelTrapHandler, code] using step.2
        have fresh : (s.trap ctx).heap (s.trap ctx).nextPcb = none := fresh_of_registered known
        exact Or.inr ⟨c, trapFork_inside fresh ran member old⟩
    | _ => cases forks

theorem nursery_reaches (pids : env.PidsDistinct) (memory : ∀ k, env.mallocOk k = true)
    (started : kernelStart env cfg = .ok boot)
    (run : Reaches (Guarded (Step env) ExitsWritten) boot s) :
    Sched.Nursery env s.sched ∧ s.ParentsKnown := by
  induction run with
  | refl =>
      obtain ⟨ready, view⟩ := kernelStart_sched started
      refine ⟨by rw [view]; exact Sched.Nursery.booted, fun p c member => ?_⟩
      have empty : boot.queues (.children p) = [] := by
        have same := congrFun (congrArg Sched.queues view) (.children p)
        exact same.trans (Sched.booted_queue (by simp))
      rw [empty] at member
      cases member
  | tail _ last inductionHypothesis =>
      obtain ⟨i, taken⟩ := last
      obtain ⟨nursery, knows⟩ := inductionHypothesis
      exact ⟨(kinship_step pids memory nursery taken).nursery,
        knows.step pids memory nursery taken⟩

end Kernel

end Yalnix
