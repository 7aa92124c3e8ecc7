/-
Module: Yalnix.Proofs.Links
Purpose: No pointer the kernel may still follow leads to a freed PCB, as long as no process is
  reaped before its forked children have run.
Trusted boundary: the pids of the hardware library do not repeat and are not negative
Main exports: Sched.PointsTo, Sched.Links, Links.move, LinksKept, no_dangling_pcb
-/
import Yalnix.Proofs.Family

namespace Yalnix

open Tally

namespace Sched

variable {env : Env} {limits : Limits} {s s' : Sched} {p q z : PcbPtr}

/-! ### Who holds a pointer to its parent -/

def Live (s : Sched) (p : PcbPtr) : Prop := ∃ b, s.procs p = some b

/-- The process has not returned from its saved context. -/
def Suspended (s : Sched) (p : PcbPtr) : Prop := p ≠ s.current ∨ s.mode = .kernel

/-- The process will follow a pointer to `q` as its parent: the one in its `parent` field, or the
variable of a `Fork` that it has not returned from. -/
def PointsTo (s : Sched) (p q : PcbPtr) : Prop :=
  ∃ b, s.procs p = some b ∧
    (b.parent = some q ∨ s.Suspended p ∧ ∃ child, b.kernelContext = .fork child q)

/-- The entries of the children queues exist, and know the pid of the process whose children they
are. -/
structure Siblings (env : Env) (s : Sched) : Prop where
  children : ∀ p, ∀ z ∈ s.queues (.children p),
    ∃ c, s.procs z = some c ∧ c.ppid = env.helperNewPid p
  distinct : ∀ p, (s.queues (.children p)).Nodup

/-- Children queues and parent pointers lead to processes that exist and agree with each other. -/
structure Links (env : Env) (s : Sched) : Prop where
  children : ∀ p, ∀ z ∈ s.queues (.children p),
    ∃ c, s.procs z = some c ∧ c.ppid = env.helperNewPid p
  distinct : ∀ p, (s.queues (.children p)).Nodup
  holders : ∀ p q, s.PointsTo p q → s.Live q ∧ p ∈ s.queues (.children q)
  idle : s.Live s.idleProc

/-- Nobody is in the blocked queue or on the way to write to a terminal. -/
structure Quiet (s : Sched) : Prop where
  blocked : s.queues .blocked = []
  contexts : ∀ p b tty buf len, s.procs p = some b → b.kernelContext ≠ .ttyWriteLock tty buf len

/-- A registered process exists. -/
theorem Registered.live (known : Registered env s) (notIdle : p ≠ s.idleProc)
    (registered : 0 < same s.current p + (s.queues .ready).count p + s.ttyEntries p) :
    s.Live p := by
  have once := known.once p notIdle
  rcases found : s.procs p with _ | b
  · simp only [registrations, found, pcbEntries] at once
    omega
  · exact ⟨b, found⟩

namespace Siblings

theorem carry (inv : Siblings env s)
    (live : ∀ p b, s.procs p = some b → ∃ b', s'.procs p = some b' ∧ b'.ppid = b.ppid)
    (children : ∀ p, s'.queues (.children p) = s.queues (.children p)) : Siblings env s' where
  children := by
    intro p z member
    rw [children] at member
    obtain ⟨c, found, ppid⟩ := inv.children p z member
    obtain ⟨c', found', same⟩ := live z c found
    exact ⟨c', found', same.trans ppid⟩
  distinct := by
    intro p
    rw [children]
    exact inv.distinct p

/-- Moves that create and reap nobody. -/
theorem steady {saved : KernelContext → Prop} (inv : Siblings env s) (h : Steady saved s s') :
    Siblings env s' := by
  refine inv.carry (fun p b found => ?_) h.children
  obtain ⟨b', found', same⟩ := h.kept found
  exact ⟨b', found', same.ppid⟩

/-- A forked child enters the children queue of its parent at once. -/
theorem spawn (inv : Siblings env s) (known : Registered env s) (family : Family env s) {b : Proc}
    {ready : Bool} (live : s.procs s.current = some b) (other : s.current ≠ s.nextPcb) :
    Siblings env (s.spawn env b ready true) := by
  have exists_old : ∀ p d, s.procs p = some d → p ≠ s.nextPcb := by
    rintro p d found rfl
    rw [known.fresh _ (Nat.le_refl _)] at found
    cases found
  have newborn : (s.spawn env b ready true).queues (.children s.nextPcb) = [] := by
    simp [Ne.symm other]
  have own : (s.spawn env b ready true).queues (.children s.current) =
      s.queues (.children s.current) ++ [s.nextPcb] := by
    simp [other]
  have others : ∀ p, p ≠ s.current → p ≠ s.nextPcb →
      (s.spawn env b ready true).queues (.children p) = s.queues (.children p) := by
    intro p notCurrent before
    simp [notCurrent, before]
  constructor
  case children =>
    intro p z member
    have earlier : ∀ q, z ∈ s.queues (.children q) →
        ∃ c, (s.spawn env b ready true).procs z = some c ∧ c.ppid = env.helperNewPid q := by
      intro q was
      obtain ⟨c, found, ppid⟩ := inv.children q z was
      refine ⟨c, ?_, ppid⟩
      rw [spawn_procs, Function.update_of_ne (exists_old z c found)]
      exact found
    by_cases before : p = s.nextPcb
    · subst before
      rw [newborn] at member
      cases member
    · by_cases current : p = s.current
      · subst current
        rw [own, List.mem_append, List.mem_singleton] at member
        rcases member with was | rfl
        · exact earlier _ was
        · refine ⟨newProc env s b, by simp, ?_⟩
          exact family.pids _ b live
      · rw [others p current before] at member
        exact earlier p member
  case distinct =>
    intro p
    by_cases before : p = s.nextPcb
    · subst before
      rw [newborn]
      exact List.nodup_nil
    · by_cases current : p = s.current
      · subst current
        rw [own]
        refine (inv.distinct _).append (List.nodup_singleton _) ?_
        rw [List.disjoint_singleton]
        intro member
        obtain ⟨c, found, -⟩ := inv.children _ _ member
        exact exists_old _ c found rfl
      · rw [others p current before]
        exact inv.distinct p

/-- The children queues once a zombie was reaped. -/
theorem reap_queues {e : Event} (other : z ≠ s.current) (p : PcbPtr) :
    (((((s.remove (.children s.current) z).remove .zombie z).delete z).log e).toUser).queues
      (.children p) = if p = z then [] else
        if p = s.current then (s.queues (.children p)).erase z else s.queues (.children p) := by
  by_cases freed : p = z
  · subst freed
    simp
  · by_cases current : p = s.current
    · subst current
      simp [freed]
    · simp [freed, current]

/-- A reaped zombie leaves the children queue of its parent, which is the only one it was in. -/
theorem reap (inv : Siblings env s) (pids : env.PidsDistinct) (family : Family env s) {b c : Proc}
    {e : Event} (live : s.procs s.current = some b) (other : z ≠ s.current)
    (dead : s.procs z = some c) (child : c.ppid = b.pid) :
    Siblings env
      (((((s.remove (.children s.current) z).remove .zombie z).delete z).log e).toUser) := by
  have ppid : c.ppid = env.helperNewPid s.current := child.trans (family.pids _ b live)
  have earlier : ∀ p, ∀ y ∈ (((((s.remove (.children s.current) z).remove .zombie z).delete
      z).log e).toUser).queues (.children p), y ≠ z ∧ y ∈ s.queues (.children p) := by
    intro p y member
    rw [reap_queues other] at member
    split at member
    · cases member
    · split at member
      · rw [(inv.distinct p).mem_erase_iff] at member
        exact member
      · rename_i notCurrent
        refine ⟨?_, member⟩
        rintro rfl
        obtain ⟨d, found, parent⟩ := inv.children p y member
        obtain rfl : d = c := Option.some.inj (found.symm.trans dead)
        exact notCurrent (pids.injective (ppid.symm.trans parent)).symm
  constructor
  case children =>
    intro p y member
    obtain ⟨others, before⟩ := earlier p y member
    obtain ⟨d, found, parent⟩ := inv.children p y before
    exact ⟨_, delete_procs_some.mpr ⟨others, d, found, rfl⟩, parent⟩
  case distinct =>
    intro p
    rw [reap_queues other]
    split
    · exact List.nodup_nil
    · split
      · exact (inv.distinct p).erase z
      · exact inv.distinct p

end Siblings

theorem Links.siblings (inv : Links env s) : Siblings env s := ⟨inv.children, inv.distinct⟩

namespace Links

/-! ### Moves that create and reap nobody -/

/-- Who still holds a pointer after a steady change held it before, unless the processor moved on
without a context being saved. -/
theorem pointsTo_of_steady {saved : KernelContext → Prop} (h : Steady saved s s')
    (notFork : ∀ kc, saved kc → ∀ child parent, kc ≠ .fork child parent)
    (switches : s'.current = s.current ∧ (s'.mode = .kernel → s.mode = .kernel) ∨
      ∀ b, s'.procs s.current = some b → saved b.kernelContext) (held : s'.PointsTo p q) :
    s.PointsTo p q := by
  obtain ⟨b', found, pointer⟩ := held
  obtain ⟨b, was, same, kept⟩ := h.procs p b' found
  refine ⟨b, was, ?_⟩
  rcases pointer with parent | ⟨suspended, child, isFork⟩
  · exact Or.inl (same.parent.symm.trans parent)
  · rcases kept with kept | ⟨-, kind⟩
    · refine Or.inr ⟨?_, child, kept.symm.trans isFork⟩
      by_cases current : p = s.current
      · subst current
        rcases switches with ⟨stays, mode⟩ | kind
        · rcases suspended with other | inKernel
          · exact absurd stays.symm other
          · exact Or.inr (mode inKernel)
        · exact absurd isFork (notFork _ (kind b' found) child q)
      · exact Or.inl current
    · exact absurd isFork (notFork _ kind child q)

/-- The links survive changes under which processes, children queues and holders stay. -/
theorem carry (inv : Links env s) (idleProc : s'.idleProc = s.idleProc)
    (live : ∀ p b, s.procs p = some b → ∃ b', s'.procs p = some b' ∧ b'.ppid = b.ppid)
    (children : ∀ p, s'.queues (.children p) = s.queues (.children p))
    (holds : ∀ p q, s'.PointsTo p q → s.PointsTo p q) : Links env s' where
  children := (inv.siblings.carry live children).children
  distinct := (inv.siblings.carry live children).distinct
  holders := by
    intro p q held
    obtain ⟨⟨b, found⟩, member⟩ := inv.holders p q (holds p q held)
    obtain ⟨b', found', -⟩ := live q b found
    exact ⟨⟨b', found'⟩, by rw [children]; exact member⟩
  idle := by
    obtain ⟨b, found⟩ := inv.idle
    obtain ⟨b', found', -⟩ := live _ b found
    exact ⟨b', by rw [idleProc]; exact found'⟩

theorem steady {saved : KernelContext → Prop} (inv : Links env s) (h : Steady saved s s')
    (notFork : ∀ kc, saved kc → ∀ child parent, kc ≠ .fork child parent)
    (switches : s'.current = s.current ∧ (s'.mode = .kernel → s.mode = .kernel) ∨
      ∀ b, s'.procs s.current = some b → saved b.kernelContext) : Links env s' := by
  refine inv.carry h.idleProc ?_ h.children fun p q => pointsTo_of_steady h notFork switches
  intro p b found
  obtain ⟨b', found', same⟩ := h.kept found
  exact ⟨b', found', same.ppid⟩

/-- Recording an event, and returning to user mode. -/
theorem log (inv : Links env s) (e : Event) : Links env (s.log e) :=
  inv.carry rfl (fun _ b found => ⟨b, found, rfl⟩) (fun _ => rfl) fun _ _ held => held

theorem toUser (inv : Links env s) : Links env s.toUser := by
  refine inv.carry rfl (fun _ b found => ⟨b, found, rfl⟩) (fun _ => rfl) ?_
  rintro p q ⟨b, found, parent | ⟨other | inKernel, isFork⟩⟩
  · exact ⟨b, found, Or.inl parent⟩
  · exact ⟨b, found, Or.inr ⟨Or.inl other, isFork⟩⟩
  · cases inKernel

end Links

/-- A shift leaves the processor where it is, or saves the context of the process that had it. -/
theorem Shift.switches (move : Shift env limits s s') :
    s'.current = s.current ∧ (s'.mode = .kernel → s.mode = .kernel) ∨
      ∀ b, s'.procs s.current = some b → PlainContext b.kernelContext := by
  cases move with
  | toUser => exact Or.inl ⟨rfl, fun inKernel => by cases inKernel⟩
  | tick => exact Or.inl ⟨rfl, id⟩
  | wakeDelayed => exact Or.inl ⟨rfl, id⟩
  | wakeReader => exact Or.inl ⟨rfl, id⟩
  | wakeWriter => exact Or.inl ⟨rfl, id⟩
  | wakeWriterBlocked => exact Or.inl ⟨rfl, id⟩
  | wakeWriting => exact Or.inl ⟨rfl, id⟩
  | delay allowed user busy live switch =>
      refine Or.inr fun b found => ?_
      rw [switch.saved found]
      trivial
  | blockReader allowed user busy switch =>
      refine Or.inr fun b found => ?_
      rw [switch.saved found]
      trivial
  | blockWriter allowed user busy switch =>
      refine Or.inr fun b found => ?_
      rw [switch.saved found]
      trivial
  | blockWriting allowed switch =>
      refine Or.inr fun b found => ?_
      rw [switch.saved found]
      trivial
  | blockWait user busy live childless switch =>
      refine Or.inr fun b found => ?_
      rw [switch.saved found]
      trivial
  | preempt user live ready next =>
      refine Or.inr fun b found => ?_
      simp only [enter_procs, setProc_procs, Function.update_self, Option.some.injEq] at found
      rw [← found]
      trivial

/-! ### Exit, Fork and Wait -/

namespace Links

/-- The exiting process becomes a zombie. -/
theorem zombified (inv : Links env s) {b : Proc} {status : Int} {kept : Bool}
    (live : s.procs s.current = some b) : Links env (s.zombified b status kept) := by
  refine inv.carry rfl ?_ (fun p => ?_) ?_
  · intro p d found
    by_cases equal : p = s.current
    · subst equal
      obtain rfl : d = b := Option.some.inj (found.symm.trans live)
      exact ⟨{ d with exitStatus := status }, by simp, rfl⟩
    · exact ⟨d, by rw [zombified_procs, Function.update_of_ne equal]; exact found, rfl⟩
  · rw [zombified_queues, Function.update_of_ne (by simp)]
  · rintro p q ⟨d, found, pointer⟩
    by_cases equal : p = s.current
    · subst equal
      rw [zombified_procs, Function.update_self, Option.some.injEq] at found
      subst found
      exact ⟨b, live, pointer⟩
    · rw [zombified_procs, Function.update_of_ne equal] at found
      exact ⟨d, found, pointer⟩

/-- Exiting switches to another process. -/
theorem exit (inv : Links env s) {t : Sched} {b : Proc} {status : Int} {kept : Bool}
    {frame : UserContext} {origin : ExitOrigin} {parent : Option PcbPtr}
    (live : s.procs s.current = some b)
    (wake : WakeParent env (s.zombified b status kept) parent t)
    (switch : Dispatch (.exit frame origin) t s') : Links env s' := by
  have steady : Steady (fun kc => kc.isExit = true) (s.zombified b status kept) s' :=
    Steady.dispatch wake.steady wake.current_eq switch rfl
  refine (inv.zombified live).steady steady ?_ (Or.inr fun c found => ?_)
  · rintro kc isExit child parent rfl
    cases isExit
  · rw [← wake.current_eq] at found
    rw [switch.saved found]
    rfl

/-- A forked child enters the children queue of its parent at once. -/
theorem spawn (inv : Links env s) (known : Registered env s) (family : Family env s) {b : Proc}
    {ready : Bool} (live : s.procs s.current = some b) (other : s.current ≠ s.nextPcb) :
    Links env (s.spawn env b ready true) := by
  have siblings : Siblings env (s.spawn env b ready true) :=
    inv.siblings.spawn known family live other
  have old : ∀ p, p ≠ s.nextPcb → (s.spawn env b ready true).procs p = s.procs p := by
    intro p before
    rw [spawn_procs, Function.update_of_ne before]
  have exists_old : ∀ p d, s.procs p = some d → p ≠ s.nextPcb := by
    rintro p d found rfl
    rw [known.fresh _ (Nat.le_refl _)] at found
    cases found
  have own : (s.spawn env b ready true).queues (.children s.current) =
      s.queues (.children s.current) ++ [s.nextPcb] := by
    simp [other]
  have grown : ∀ p, p ≠ s.nextPcb → ∀ z ∈ s.queues (.children p),
      z ∈ (s.spawn env b ready true).queues (.children p) := by
    intro p before z member
    by_cases current : p = s.current
    · subst current
      rw [own]
      exact List.mem_append_left _ member
    · simpa [current, before] using member
  have kept : ∀ p, s.Live p → (s.spawn env b ready true).Live p := by
    rintro p ⟨d, found⟩
    exact ⟨d, by rw [old p (exists_old p d found)]; exact found⟩
  constructor
  case children => exact siblings.children
  case distinct => exact siblings.distinct
  case holders =>
    rintro p q ⟨d, found, pointer⟩
    by_cases before : p = s.nextPcb
    · subst before
      rw [spawn_procs, Function.update_self, Option.some.injEq] at found
      subst found
      rcases pointer with parent | ⟨-, child, isFork⟩
      · cases parent
      · obtain ⟨-, rfl⟩ := KernelContext.fork.inj isFork
        exact ⟨kept _ ⟨b, live⟩, by rw [own]; simp⟩
    · rw [old p before] at found
      obtain ⟨there, member⟩ := inv.holders p q ⟨d, found, pointer⟩
      obtain ⟨c, parentFound⟩ := there
      exact ⟨kept q ⟨c, parentFound⟩, grown q (exists_old q c parentFound) p member⟩
  case idle => exact kept _ inv.idle

/-- A forked child that runs for the first time stores the pointer its `Fork` held. -/
theorem childReturn (inv : Links env s) {b : Proc} {child parent : PcbPtr}
    (inKernel : s.mode = .kernel) (live : s.procs s.current = some b)
    (saved : b.kernelContext = .fork child parent) :
    Links env (s.setProc s.current { b with parent := some parent }) := by
  refine inv.carry rfl ?_ (fun _ => rfl) ?_
  · intro p d found
    by_cases equal : p = s.current
    · subst equal
      obtain rfl : d = b := Option.some.inj (found.symm.trans live)
      exact ⟨_, Function.update_self .., rfl⟩
    · exact ⟨d, by rw [setProc_procs, Function.update_of_ne equal]; exact found, rfl⟩
  · rintro p q ⟨d, found, pointer⟩
    by_cases equal : p = s.current
    · subst equal
      rw [setProc_procs, Function.update_self, Option.some.injEq] at found
      subst found
      rcases pointer with isParent | held
      · cases isParent
        exact ⟨b, live, Or.inr ⟨Or.inr inKernel, child, saved⟩⟩
      · exact ⟨b, live, Or.inr held⟩
    · rw [setProc_procs, Function.update_of_ne equal] at found
      exact ⟨d, found, pointer⟩

/-- A reaped zombie whose children have all run leaves no pointer to itself behind. -/
theorem reap (inv : Links env s) (pids : env.PidsDistinct) (known : Registered env s)
    (family : Family env s) {b c : Proc} {e : Event} (live : s.procs s.current = some b)
    (zombie : z ∈ s.queues .zombie) (dead : s.procs z = some c) (child : c.ppid = b.pid)
    (haveRun : ∀ p ∈ s.queues (.children z), p ≠ s.current → ∀ d, s.procs p = some d →
      ∀ y, d.kernelContext ≠ .fork y z) :
    Links env
      (((((s.remove (.children s.current) z).remove .zombie z).delete z).log e).toUser) := by
  set t := (s.remove (.children s.current) z).remove .zombie z with tEq
  set u := ((t.delete z).log e).toUser with uEq
  have other := known.zombie_apart zombie dead
  have siblings : Siblings env u := inv.siblings.reap pids family live other dead child
  have orphans : t.queues (.children z) = s.queues (.children z) := by
    simp [tEq, other]
  have stays : ∀ p, p ≠ z → ∀ d, s.procs p = some d → ∃ d', u.procs p = some d' := by
    intro p others d found
    exact ⟨_, delete_procs_some.mpr ⟨others, d, found, rfl⟩⟩
  constructor
  case children => exact siblings.children
  case distinct => exact siblings.distinct
  case holders =>
    rintro p q ⟨d', found', pointer⟩
    obtain ⟨others, d, found, rfl⟩ := delete_procs_some.mp found'
    have held : s.PointsTo p q ∧ q ≠ z := by
      rcases pointer with parent | ⟨suspended, y, isFork⟩
      · simp only at parent
        split at parent
        · cases parent
        · rename_i kept
          refine ⟨⟨d, found, Or.inl parent⟩, ?_⟩
          rintro rfl
          rw [orphans] at kept
          exact kept (inv.holders p q ⟨d, found, Or.inl parent⟩).2
      · have notCurrent : p ≠ s.current := by
          rcases suspended with notCurrent | inKernel
          · exact notCurrent
          · cases inKernel
        have before : s.PointsTo p q := ⟨d, found, Or.inr ⟨Or.inl notCurrent, y, isFork⟩⟩
        refine ⟨before, ?_⟩
        rintro rfl
        exact haveRun p (inv.holders p q before).2 notCurrent d found y isFork
    obtain ⟨⟨parent, there⟩, member⟩ := inv.holders p q held.1
    obtain ⟨parent', there'⟩ := stays q held.2 parent there
    refine ⟨⟨parent', there'⟩, ?_⟩
    rw [uEq, tEq, Siblings.reap_queues other, if_neg held.2]
    split
    · exact (List.mem_erase_of_ne others).mpr member
    · exact member
  case idle =>
    obtain ⟨d, found⟩ := inv.idle
    obtain ⟨d', found'⟩ := stays _ (known.zombies z zombie).1.symm d found
    exact ⟨d', found'⟩

/-- Every move keeps the links. -/
theorem move (inv : Links env s) (pids : env.PidsDistinct)
    (forks : ∀ {ok}, limits.fork ok → ok = true)
    (reaps : ∀ {t z}, limits.reap t z → ∀ p ∈ t.queues (.children z), p ≠ t.current →
      ∀ d, t.procs p = some d → ∀ y, d.kernelContext ≠ .fork y z)
    (known : Registered env s) (family : Family env s) (move : Move env limits s s') :
    Links env s' := by
  cases move with
  | shift moved =>
      refine inv.steady moved.steady ?_ moved.switches
      rintro kc plain child parent rfl
      exact plain
  | exit allowed user busy live notInit wake switch => exact inv.exit live wake switch
  | fork allowed user busy live other =>
      rw [forks allowed]
      exact inv.spawn known family live other
  | childReturn inKernel live saved parentLive pidsDiffer =>
      exact (inv.childReturn inKernel live saved).toUser
  | @forkAgain b q c child parent k k' inKernel live saved parentLive childLive same =>
      exact absurd same (known.child_apart live saved parentLive)
  | reap allowed live zombie dead child =>
      exact inv.reap pids known family live zombie dead child (reaps allowed)
  | noChildren allowed user busy empty => exact inv.log _
  | noZombie allowed inKernel live saved childless => exact (inv.log _).toUser

end Links

/-! ### No terminal call and no delay -/

/-- The context is not one saved on the way to a terminal. -/
def Lockless (kc : KernelContext) : Prop := ∀ tty buf len, kc ≠ .ttyWriteLock tty buf len

namespace Quiet

theorem carry (inv : Quiet s) (blocked : ∀ p ∈ s'.queues .blocked, p ∈ s.queues .blocked)
    (procs : ∀ p b', s'.procs p = some b' →
      (∃ b, s.procs p = some b ∧ b'.kernelContext = b.kernelContext) ∨
        Lockless b'.kernelContext) : Quiet s' where
  blocked := by
    rw [List.eq_nil_iff_forall_not_mem]
    intro p member
    have earlier := blocked p member
    rw [inv.blocked] at earlier
    cases earlier
  contexts := by
    intro p b' tty buf len found
    rcases procs p b' found with ⟨b, was, same⟩ | lockless
    · rw [same]
      exact inv.contexts p b tty buf len was
    · exact lockless tty buf len

theorem steady (inv : Quiet s) (h : Steady Lockless s s')
    (blocked : ∀ p ∈ s'.queues .blocked, p ∈ s.queues .blocked) : Quiet s' := by
  refine inv.carry blocked ?_
  intro p b' found
  obtain ⟨b, was, -, kept | ⟨-, lockless⟩⟩ := h.procs p b' found
  · exact Or.inl ⟨b, was, kept⟩
  · exact Or.inr lockless

theorem wake {kept : Bool} {t : Sched} (inv : Quiet s) (h : Steady Lockless s t)
    (current : t.current = s.current) (blocked : t.queues .blocked = s.queues .blocked) :
    Quiet ((t.remove .blocked p).push kept .ready p) := by
  refine inv.steady (h.wake current kept) ?_
  intro q member
  rw [← blocked]
  simpa using List.mem_of_mem_erase (by simpa using member)

theorem dispatch {kc : KernelContext} {t : Sched} (inv : Quiet s) (h : Steady Lockless s t)
    (current : t.current = s.current) (blocked : t.queues .blocked = s.queues .blocked)
    (switch : Dispatch kc t s') (lockless : Lockless kc) : Quiet s' := by
  refine inv.steady (h.dispatch current switch lockless) ?_
  intro q member
  rw [← blocked]
  cases switch with
  | next => simpa using member
  | idle => simpa using member

theorem shift (inv : Quiet s) (delay : ¬ limits.delay) (tty : ¬ limits.tty)
    (move : Shift env limits s s') : Quiet s' := by
  cases move with
  | toUser =>
      refine inv.steady { Steady.refl s with nextPcb := rfl } ?_
      exact fun p member => member
  | tick live delayed =>
      refine inv.steady (Steady.setProc live ⟨rfl, rfl, rfl, rfl⟩ (Or.inl rfl)) ?_
      exact fun p member => member
  | @wakeDelayed p b k live delayed =>
      exact inv.wake (Steady.setProc live ⟨rfl, rfl, rfl, rfl⟩ (Or.inl rfl)) rfl rfl
  | wakeReader live queue =>
      exact inv.wake (Steady.setQueue _ (by simp) (by simp)) rfl (by simp)
  | wakeWriter live queue =>
      exact inv.wake (Steady.setQueue _ (by simp) (by simp)) rfl (by simp)
  | wakeWriterBlocked failed live queue =>
      apply inv.steady ((Steady.setQueue _ (by simp) (by simp)).trans (Steady.push_ready _) rfl)
      intro p member
      simpa using member
  | wakeWriting live writer => exact inv.wake (Steady.setWriter _ _) rfl rfl
  | delay allowed => exact absurd allowed delay
  | blockReader allowed => exact absurd allowed tty
  | blockWriter allowed => exact absurd allowed tty
  | blockWriting allowed switch =>
      rcases allowed with allowed | ⟨b, buf, n, live, saved⟩
      · exact absurd allowed tty
      · exact absurd saved (inv.contexts _ b _ buf n live)
  | @blockWait _ b statusPtr user busy live childless switch =>
      have flagged : Steady Lockless s (s.setProc s.current { b with waitingForChildPid := 1 }) :=
        Steady.setProc live ⟨rfl, rfl, rfl, rfl⟩ (Or.inl rfl)
      exact inv.dispatch flagged rfl rfl switch (by simp [Lockless])
  | @preempt b n q rest kept user live ready next =>
      refine inv.carry (fun p member => by simpa using member) ?_
      intro p d found
      by_cases equal : p = s.current
      · subst equal
        simp only [enter_procs, setProc_procs, Function.update_self, Option.some.injEq] at found
        rw [← found]
        exact Or.inr (by simp [Lockless])
      · simp only [enter_procs, setProc_procs, Function.update_of_ne equal] at found
        exact Or.inl ⟨d, found, rfl⟩

theorem move (inv : Quiet s) (delay : ¬ limits.delay) (tty : ¬ limits.tty)
    (move : Move env limits s s') : Quiet s' := by
  cases move with
  | shift moved => exact inv.shift delay tty moved
  | @exit woken _ b status frame origin k allowed user busy live notInit wake switch =>
      have zombie : Quiet (s.zombified b status (env.mallocOk k)) := by
        refine inv.carry (fun p member => by simpa using member) ?_
        intro p d found
        by_cases equal : p = s.current
        · subst equal
          rw [zombified_procs, Function.update_self, Option.some.injEq] at found
          exact Or.inl ⟨b, live, by rw [← found]⟩
        · rw [zombified_procs, Function.update_of_ne equal] at found
          exact Or.inl ⟨d, found, rfl⟩
      have blocked : woken.queues .blocked =
          (s.zombified b status (env.mallocOk k)).queues .blocked := by
        generalize b.parent = parent at wake
        cases wake with
        | noParent => rfl
        | waiting => simp
        | notWaiting => rfl
      exact zombie.dispatch wake.steady wake.current_eq blocked switch (by simp [Lockless])
  | fork allowed user busy live other =>
      refine inv.carry (fun p member => by simpa using member) ?_
      intro p d found
      by_cases equal : p = s.nextPcb
      · subst equal
        rw [spawn_procs, Function.update_self, Option.some.injEq] at found
        rw [← found]
        exact Or.inr (by simp [Lockless, newProc])
      · rw [spawn_procs, Function.update_of_ne equal] at found
        exact Or.inl ⟨d, found, rfl⟩
  | @childReturn b q child parent inKernel live saved parentLive pidsDiffer =>
      refine inv.carry (fun p member => member) ?_
      intro p d found
      by_cases equal : p = s.current
      · subst equal
        rw [toUser_procs, setProc_procs, Function.update_self, Option.some.injEq] at found
        exact Or.inl ⟨b, live, by rw [← found]⟩
      · rw [toUser_procs, setProc_procs, Function.update_of_ne equal] at found
        exact Or.inl ⟨d, found, rfl⟩
  | forkAgain =>
      refine inv.carry (fun p member => by simpa using member) ?_
      exact fun p d found => Or.inl ⟨d, found, rfl⟩
  | reap allowed live zombie dead child =>
      refine inv.carry (fun p member => by simpa using member) ?_
      intro p d found
      obtain ⟨-, b, before, rfl⟩ := delete_procs_some.mp found
      exact Or.inl ⟨b, before, rfl⟩
  | noChildren =>
      refine inv.carry (fun p member => member) ?_
      exact fun p d found => Or.inl ⟨d, found, rfl⟩
  | noZombie =>
      refine inv.carry (fun p member => member) ?_
      exact fun p d found => Or.inl ⟨d, found, rfl⟩

end Quiet

/-! ### Runs -/

/-- What the argument about pointers needs of a state. -/
structure Linked (env : Env) (s : Sched) : Prop where
  registered : Registered env s
  family : Family env s
  links : Links env s
  quiet : Quiet s

namespace Linked

theorem moves (inv : Linked env s) (pids : env.PidsDistinct)
    (exits : ∀ {t ok}, limits.exit t ok → t.ParentFlagWritten)
    (forks : ∀ {ok}, limits.fork ok → ok = true)
    (reaps : ∀ {t z}, limits.reap t z → ∀ p ∈ t.queues (.children z), p ≠ t.current →
      ∀ d, t.procs p = some d → ∀ y, d.kernelContext ≠ .fork y z)
    (delay : ¬ limits.delay) (tty : ¬ limits.tty) (moves : Moves env limits s s') :
    Linked env s' := by
  induction moves with
  | refl => exact inv
  | tail first last inductionHypothesis =>
      constructor
      · exact inductionHypothesis.registered.move pids.injective exits last
      · exact inductionHypothesis.family.move pids forks inductionHypothesis.registered last
      · exact inductionHypothesis.links.move pids forks reaps inductionHypothesis.registered
          inductionHypothesis.family last
      · exact inductionHypothesis.quiet.move delay tty last

/-- Whoever is queued anywhere exists. -/
theorem queued_live (inv : Linked env s) {queue : QueueId} (member : p ∈ s.queues queue) :
    s.Live p := by
  by_cases idle : p = s.idleProc
  · rw [idle]
    exact inv.links.idle
  · cases queue with
    | ready =>
        have counted := List.count_pos_iff.mpr member
        exact inv.registered.live idle (by omega)
    | blocked =>
        rw [inv.quiet.blocked] at member
        cases member
    | zombie =>
        obtain ⟨c, found, -⟩ := inv.family.zombies p member
        exact ⟨c, found⟩
    | children q =>
        obtain ⟨c, found, -⟩ := inv.links.children q p member
        exact ⟨c, found⟩
    | readers tty =>
        have counted := List.count_pos_iff.mpr member
        have entries : s.terminalEntries p tty ≤ s.ttyEntries p := entry_le_sum _ tty
        exact inv.registered.live idle (by simp only [terminalEntries] at entries; omega)
    | writers tty =>
        have counted := List.count_pos_iff.mpr member
        have entries : s.terminalEntries p tty ≤ s.ttyEntries p := entry_le_sum _ tty
        exact inv.registered.live idle (by simp only [terminalEntries] at entries; omega)

/-- The current writer of a terminal exists. -/
theorem writer_live (inv : Linked env s) {tty : TtyId} (writer : s.writer tty = some p) :
    s.Live p := by
  by_cases idle : p = s.idleProc
  · rw [idle]
    exact inv.links.idle
  · have entries : s.terminalEntries p tty ≤ s.ttyEntries p := entry_le_sum _ tty
    refine inv.registered.live idle ?_
    simp only [terminalEntries, writer, same_self] at entries
    omega

end Linked

/-- The processes of boot hold no pointer. -/
theorem booted_plain {ready : Bool} {b : Proc} (found : (booted env ready).procs p = some b) :
    b.parent = none ∧ PlainContext b.kernelContext ∧ Lockless b.kernelContext := by
  rw [booted_procs] at found
  split at found
  · cases found
    exact ⟨rfl, trivial, by simp [Lockless]⟩
  · split at found
    · cases found
      exact ⟨rfl, trivial, by simp [Lockless, PCB.fresh, PCB.proc]⟩
    · cases found

theorem linked_booted {ready : Bool} : Linked env (booted env ready) where
  registered := registered_booted
  family := family_booted
  links := by
    constructor
    case children =>
      intro p z member
      rw [booted_queue (by simp)] at member
      cases member
    case distinct =>
      intro p
      rw [booted_queue (by simp)]
      exact List.nodup_nil
    case holders =>
      rintro p q ⟨b, found, parent | ⟨-, child, isFork⟩⟩
      · rw [(booted_plain found).1] at parent
        cases parent
      · have plain := (booted_plain found).2.1
        rw [isFork] at plain
        exact plain.elim
    case idle => exact ⟨_, booted_procs 0⟩
  quiet := ⟨booted_queue (by simp), fun p b tty buf len found =>
    (booted_plain found).2.2 tty buf len⟩

end Sched

namespace Kernel

open Transition

variable {env : Env} {cfg : BootConfig} {boot s : Kernel}

/-- Nobody exits whose parent still has its initial flag; a forked child enters its parent's
children queue; a process is reaped when no child of it waits for its first run; and nobody calls
`Delay`, `TtyRead` or `TtyWrite`. -/
structure LinksKept (env : Env) (s : Kernel) (i : Input) : Prop where
  exit : s.CallsExit i → s.ParentFlagWritten
  fork : Calls yalnixFork i → env.mallocOk (s.mallocCalls + 5) = true
  reap : ∀ z, s.Reaps z i → ∀ p ∈ s.queues (.children z), p ≠ s.currentProcess →
    ∀ b, s.heap p = some b → b.kernelContext.isFork = false
  delay : ¬ Calls yalnixDelay i
  tty : ¬ (Calls yalnixTtyRead i ∨ Calls yalnixTtyWrite i)

/-- The restrictions that `LinksKept` puts on a step. -/
def linksLimits : Limits where
  exit := fun t _ => t.ParentFlagWritten
  fork := fun ok => ok = true
  reap := fun t z => ∀ p ∈ t.queues (.children z), p ≠ t.current →
    ∀ d, t.procs p = some d → ∀ y, d.kernelContext ≠ .fork y z
  fail := True
  delay := False
  tty := False

theorem LinksKept.allows {i : Input} (guard : LinksKept env s i) :
    linksLimits.Allows env s i where
  exit := fun calls => (guard.exit calls).sched
  fork := guard.fork
  reap := by
    intro z reaps p member other d found y isFork
    obtain ⟨b, live, rfl⟩ := Option.map_eq_some_iff.mp found
    have ran := guard.reap z reaps p member other b live
    rw [show b.kernelContext = .fork y z from isFork] at ran
    cases ran
  fail := fun _ => trivial
  delay := guard.delay
  tty := guard.tty

theorem linked_reaches (pids : env.PidsDistinct) (started : kernelStart env cfg = .ok boot)
    (run : Reaches (Guarded (Step env) (LinksKept env)) boot s) : Sched.Linked env s.sched := by
  have start : Sched.Linked env boot.sched := by
    obtain ⟨ready, view⟩ := kernelStart_sched started
    rw [view]
    exact Sched.linked_booted
  refine run.invariant (P := fun s => Sched.Linked env s.sched) ?_ start
  intro s i t inv guarded
  exact inv.moves pids id id id id id
    (deliver_moves (fresh_of_registered inv.registered) guarded.1.allows guarded.2)

/-- The PCB has not been freed. -/
def Allocated (s : Kernel) (p : PcbPtr) : Prop := ∃ b, s.heap p = some b

theorem allocated_of_live {p : PcbPtr} (live : s.sched.Live p) : s.Allocated p := by
  obtain ⟨b, found⟩ := live
  obtain ⟨c, there, -⟩ := Option.map_eq_some_iff.mp found
  exact ⟨c, there⟩

/-- Every PCB pointer the kernel may follow leads to a PCB that was not freed: queue entries,
current writers, parent fields, and the parent variable of a child that was not run yet; and the
children queue of the parent has the child. -/
structure NoDangling (s : Kernel) : Prop where
  queues : ∀ queue, ∀ p ∈ s.queues queue, s.Allocated p
  writers : ∀ tty p, (s.terminals tty).currentWriter = some p → s.Allocated p
  parents : ∀ p b q, s.heap p = some b → b.parent = some q →
    s.Allocated q ∧ p ∈ s.queues (.children q)
  forks : ∀ p b child q, s.heap p = some b → b.kernelContext = .fork child q →
    p ≠ s.currentProcess ∨ s.mode = .kernel → s.Allocated q ∧ p ∈ s.queues (.children q)

theorem no_dangling_pcb (pids : env.PidsDistinct) (started : kernelStart env cfg = .ok boot)
    (run : Reaches (Guarded (Step env) (LinksKept env)) boot s) : s.NoDangling := by
  have inv := linked_reaches pids started run
  have held : ∀ p q, s.sched.PointsTo p q → s.Allocated q ∧ p ∈ s.queues (.children q) := by
    intro p q pointsTo
    obtain ⟨live, member⟩ := inv.links.holders p q pointsTo
    exact ⟨allocated_of_live live, member⟩
  constructor
  case queues =>
    intro queue p member
    exact allocated_of_live (inv.queued_live member)
  case writers =>
    intro tty p writer
    exact allocated_of_live (inv.writer_live writer)
  case parents =>
    intro p b q found parent
    exact held p q ⟨b.proc, procs_of_heap found, Or.inl parent⟩
  case forks =>
    intro p b child q found isFork suspended
    exact held p q ⟨b.proc, procs_of_heap found, Or.inr ⟨suspended, child, isFork⟩⟩

/-- Every child of a zombie has run, and its parent's flag was written. -/
def childrenRan (s : Kernel) : Bool :=
  decide s.ParentFlagWritten && (s.queues .zombie).all fun z =>
    (s.queues (.children z)).all fun p =>
      match s.heap p with
      | some b => decide (p = s.currentProcess) || !b.kernelContext.isFork
      | none => true

/-- On the small machine this, and the absence of other calls, is enough. -/
theorem LinksKept.sample {i : Input}
    (h : (s.childrenRan && i.among [yalnixFork, yalnixExit, yalnixWait]) = true) :
    LinksKept sampleEnv s i := by
  obtain ⟨ran, listed⟩ := Bool.and_eq_true_iff.mp h
  obtain ⟨written, zombies⟩ := Bool.and_eq_true_iff.mp ran
  constructor
  case exit => exact fun _ => of_decide_eq_true written
  case fork => exact fun _ => rfl
  case reap =>
    intro z reaps p member other b live
    have zombie := reaps.zombie
    have all := List.all_eq_true.mp (List.all_eq_true.mp zombies z zombie) p member
    rw [live] at all
    simpa [other] using all
  case delay =>
    intro calls
    cases i with
    | kernelTrap ctx req =>
        rw [Input.among, show ctx.code = yalnixDelay from calls] at listed
        exact absurd listed (by decide)
    | _ => exact calls
  case tty =>
    rintro (calls | calls)
    · cases i with
      | kernelTrap ctx req =>
          rw [Input.among, show ctx.code = yalnixTtyRead from calls] at listed
          exact absurd listed (by decide)
      | _ => exact calls
    · cases i with
      | kernelTrap ctx req =>
          rw [Input.among, show ctx.code = yalnixTtyWrite from calls] at listed
          exact absurd listed (by decide)
      | _ => exact calls

/-- Init reaped one child, and the next one has run. -/
theorem no_dangling_pcb_sample : ∃ s : Kernel, .waitReturned 1 0 2 ∈ s.history ∧
    s.Allocated 1 ∧ 3 ∈ s.queues (.children 1) := by
  have answer : runs sampleEnv sampleBoot
      (fun s i => s.childrenRan && i.among [yalnixFork, yalnixExit, yalnixWait])
      [.tick, .resume, .call yalnixFork 0 0 0, .call yalnixWait 0 0 0, .resume,
        .call yalnixExit 7 0 0, .resume, .call yalnixFork 0 0 0, .call yalnixWait 0 0 0, .resume]
      (fun s => decide (.waitReturned 1 0 2 ∈ s.history) &&
        decide ((s.heap 3).bind PCB.parent = some 1)) = .ok true := by
    decide +kernel
  obtain ⟨boot, s, started, run, both⟩ := runs_sound (LinksKept sampleEnv)
    (fun s i => LinksKept.sample) answer
  obtain ⟨returned, parent⟩ := Bool.and_eq_true_iff.mp both
  obtain ⟨b, live, isParent⟩ := Option.bind_eq_some_iff.mp (of_decide_eq_true parent)
  exact ⟨s, of_decide_eq_true returned,
    (no_dangling_pcb sampleEnv_pids started run).parents 3 b 1 live isParent⟩

/-- The process holds this pointer in its `Fork`. -/
def heldByFork (s : Kernel) (p q : PcbPtr) : Bool :=
  match (s.heap p).map PCB.kernelContext with
  | some (.fork _ parent) => decide (parent = q)
  | _ => false

theorem heldByFork_eq {p q : PcbPtr} (h : s.heldByFork p q = true) :
    ∃ b child, s.heap p = some b ∧ b.kernelContext = .fork child q := by
  unfold heldByFork at h
  split at h
  · rename_i child parent saved
    obtain ⟨b, live, isFork⟩ := Option.map_eq_some_iff.mp saved
    exact ⟨b, child, live, by rw [isFork, of_decide_eq_true h]⟩
  · cases h

/-- A child forked before the exit of its parent and run after the grandparent reaped the parent
holds a pointer to a freed PCB. -/
theorem dangling_pcb : ¬ ∀ env cfg boot s, env.PidsDistinct → kernelStart env cfg = .ok boot →
    Reaches (Guarded (Step env) fun _ i => i.among [yalnixFork, yalnixExit, yalnixWait]) boot s →
    s.NoDangling := by
  intro safe
  -- init reaps 2, so that its flag is written; 3 is forked, forks 4 behind init, and exits
  have answer : runs sampleEnv sampleBoot
      (fun _ i => i.among [yalnixFork, yalnixExit, yalnixWait])
      [.tick, .resume, .call yalnixFork 0 0 0, .call yalnixWait 0 0 0, .resume,
        .call yalnixExit 7 0 0, .resume, .call yalnixFork 0 0 0, .tick, .resume,
        .call yalnixFork 0 0 0, .call yalnixExit 8 0 0, .resume, .call yalnixWait 0 0 0]
      (fun s => s.heldByFork 4 3 && (s.heap 3).isNone && decide (4 ≠ s.currentProcess)) =
        .ok true := by
    decide +kernel
  obtain ⟨boot, s, started, run, all⟩ := runs_sound _ (fun _ _ => id) answer
  obtain ⟨both, other⟩ := Bool.and_eq_true_iff.mp all
  obtain ⟨held, freed⟩ := Bool.and_eq_true_iff.mp both
  obtain ⟨b, child, live, isFork⟩ := heldByFork_eq held
  obtain ⟨c, there⟩ := ((safe _ _ boot s sampleEnv_pids started run).forks 4 b child 3 live isFork
    (Or.inl (of_decide_eq_true other))).1
  rw [there] at freed
  cases freed

end Kernel

end Yalnix
