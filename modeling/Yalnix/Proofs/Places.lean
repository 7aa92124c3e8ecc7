/-
Module: Yalnix.Proofs.Places
Purpose: While memory lasts, a process other than idle has one place: it runs, or it has one entry
  in the ready, the blocked or the zombie queue, or it waits inside Wait.
Trusted boundary: the pids of the hardware library do not repeat
Main exports: Sched.places, Sched.Placed, Placed.move, scheduling_place
-/
import Yalnix.Proofs.ExitFinal

namespace Yalnix

open Tally

/-- What a PCB says about waiting for a child.  Saying so outside `Wait` counts twice, so that the
bound below excludes it. -/
def Proc.place (b : Proc) : Nat :=
  if b.waitingForChildPid = 0 ∨ b.waitingForChildPid = invalidPid then 0
  else if b.kernelContext.isWait then 1 else 2

namespace Proc

theorem place_eq_zero {b : Proc} :
    b.place = 0 ↔ b.waitingForChildPid = 0 ∨ b.waitingForChildPid = invalidPid := by
  unfold place
  split
  · rename_i clear
    exact iff_of_true rfl clear
  · rename_i set
    refine iff_of_false ?_ set
    split
    · exact Nat.one_ne_zero
    · exact Nat.succ_ne_zero 1

theorem delayed_le_one (b : Proc) : b.delayed ≤ 1 := by
  unfold delayed
  split
  · exact Nat.le_refl 1
  · exact Nat.zero_le 1

end Proc

namespace Sched

/-- Being current, and the entries in the queues of the scheduler. -/
def standing (s : Sched) (p : PcbPtr) : Nat :=
  same s.current p + (s.queues .ready).count p + (s.queues .blocked).count p +
    (s.queues .zombie).count p

/-- A PCB that is not there counts as placed, so that no queue may refer to it. -/
def pcbPlace : Option Proc → Nat
  | none => 1
  | some b => b.place

/-- The places at which a process stands. -/
def places (s : Sched) (p : PcbPtr) : Nat := s.standing p + pcbPlace (s.procs p)

def pcbDelay : Option Proc → Nat
  | none => 0
  | some b => b.delayed

/-- The terminals and delays that will make a process ready. -/
def pending (s : Sched) (p : PcbPtr) : Nat := s.ttyEntries p + pcbDelay (s.procs p)

/-- A process has one place, and what it waits for will find it in the blocked queue. -/
structure PlacedAt (s : Sched) (p : PcbPtr) : Prop where
  once : s.places p ≤ 1
  backed : s.pending p ≤ (s.queues .blocked).count p

/-- A queue whose entries are places. -/
def Holds (queue : QueueId) : Prop := queue = .ready ∨ queue = .blocked ∨ queue = .zombie

section Changes

variable {s s' : Sched} {p q : PcbPtr}

theorem standing_setProc (b : Proc) : (s.setProc q b).standing p = s.standing p := rfl

theorem standing_log (e : Event) : (s.log e).standing p = s.standing p := rfl

theorem standing_push {queue : QueueId} (kept : Bool) (holds : Holds queue) :
    (s.push kept queue q).standing p ≤ s.standing p + same q p := by
  have gain : (if kept then same q p else 0) ≤ same q p := by
    split
    · exact Nat.le_refl _
    · exact Nat.zero_le _
  rcases holds with rfl | rfl | rfl
  all_goals
    simp only [standing, push_current, push_queues, Function.update_self, count_push, ne_eq,
      reduceCtorEq, not_false_eq_true, Function.update_of_ne]
    omega

/-- The other queues give no place. -/
theorem standing_setQueue {queue : QueueId} (l : List PcbPtr) (other : ¬ Holds queue) :
    (s.setQueue queue l).standing p = s.standing p := by
  have ready : QueueId.ready ≠ queue := fun same => other (Or.inl same.symm)
  have blocked : QueueId.blocked ≠ queue := fun same => other (Or.inr (Or.inl same.symm))
  have zombie : QueueId.zombie ≠ queue := fun same => other (Or.inr (Or.inr same.symm))
  simp only [standing, setQueue_current, setQueue_queues, Function.update_of_ne ready,
    Function.update_of_ne blocked, Function.update_of_ne zombie]

theorem standing_pop_ready {rest : List PcbPtr} (ready : s.queues .ready = q :: rest) :
    (s.setQueue .ready rest).standing p + same q p = s.standing p := by
  simp only [standing, setQueue_current, setQueue_queues, Function.update_self,
    ne_eq, reduceCtorEq, not_false_eq_true, Function.update_of_ne, ready, count_pop]
  omega

theorem standing_remove {queue : QueueId} (holds : queue = .blocked ∨ queue = .zombie)
    (counted : same q p ≤ (s.queues queue).count p) :
    (s.remove queue q).standing p + same q p = s.standing p := by
  rcases holds with rfl | rfl
  all_goals
    simp only [standing, remove_current, remove_queues, Function.update_self,
      ne_eq, reduceCtorEq, not_false_eq_true, Function.update_of_ne, count_remove]
    omega

theorem standing_enter : (s.enter q).standing p + same s.current p = s.standing p + same q p := by
  simp only [standing, enter_current, enter_queues]
  omega

/-- The queues that are places are not those of the terminals. -/
theorem ttyEntries_hold {queue : QueueId} (l : List PcbPtr) (holds : Holds queue) :
    (s.setQueue queue l).ttyEntries p = s.ttyEntries p := by
  rcases holds with rfl | rfl | rfl
  · exact ttyEntries_setQueue l (by simp) (by simp)
  · exact ttyEntries_setQueue l (by simp) (by simp)
  · exact ttyEntries_setQueue l (by simp) (by simp)

theorem ttyEntries_push_hold {queue : QueueId} (kept : Bool) (holds : Holds queue) :
    (s.push kept queue q).ttyEntries p = s.ttyEntries p := by
  rw [push]
  exact ttyEntries_hold _ holds

/-- The part of the state that a switch leaves alone, and the PCB it writes. -/
theorem Dispatch.effect {kc : KernelContext} (h : Dispatch kc s s') (notIdle : p ≠ s.idleProc) :
    s'.standing p + same s.current p = s.standing p ∧ s'.ttyEntries p = s.ttyEntries p ∧
      s'.queues .blocked = s.queues .blocked ∧ ∃ b, s.procs s.current = some b ∧
        s'.procs = Function.update s.procs s.current (some { b with kernelContext := kc }) := by
  cases h with
  | @next b _ q rest current ready live =>
      have popped := standing_pop_ready (p := p) ready
      have entered := standing_enter (p := p) (q := q)
        (s := (s.setQueue .ready rest).setProc s.current { b with kernelContext := kc })
      have tty := ttyEntries_hold (s := s) (p := p) rest (Or.inl rfl : Holds .ready)
      have saved := standing_setProc (p := p) (q := s.current)
        (s := s.setQueue .ready rest) { b with kernelContext := kc }
      simp only [setProc_current, setQueue_current] at entered
      refine ⟨by omega, ?_, by simp, b, current, rfl⟩
      rw [ttyEntries_enter, ttyEntries_setProc, tty]
  | @idle b _ current ready live =>
      have entered := standing_enter (p := p) (q := s.idleProc)
        (s := s.setProc s.current { b with kernelContext := kc })
      have saved := standing_setProc (p := p) (q := s.current) (s := s)
        { b with kernelContext := kc }
      simp only [setProc_current, same_of_ne (Ne.symm notIdle)] at entered
      refine ⟨by omega, ?_, rfl, b, current, rfl⟩
      rw [ttyEntries_enter, ttyEntries_setProc]

end Changes

/-! ### Moves -/

/-- The process that runs waits for nothing. -/
theorem PlacedAt.current_clear {s : Sched} {b : Proc} (inv : PlacedAt s s.current)
    (live : s.procs s.current = some b) : s.standing s.current = 1 ∧ b.place = 0 ∧
      (s.queues .blocked).count s.current = 0 ∧ s.ttyEntries s.current = 0 ∧ b.delayed = 0 := by
  have once := inv.once
  have backed := inv.backed
  simp only [places, standing, same_self, live, pcbPlace] at once
  simp only [pending, live, pcbDelay] at backed
  simp only [standing, same_self]
  omega

/-- The current process takes a new place, `t` being the state in which it leaves the processor. -/
theorem PlacedAt.leave {s t s' : Sched} {p : PcbPtr} {kc : KernelContext} (inv : PlacedAt s p)
    (h : Dispatch kc t s') (notIdle : p ≠ t.idleProc) (current : t.current = s.current)
    (others : p ≠ s.current → t.places p ≤ s.places p ∧ t.pending p ≤ s.pending p ∧
      (s.queues .blocked).count p ≤ (t.queues .blocked).count p)
    (own : p = s.current → ∀ b, t.procs p = some b →
      t.standing p + ({ b with kernelContext := kc } : Proc).place ≤ 2 ∧
        t.ttyEntries p + b.delayed ≤ (t.queues .blocked).count p) : PlacedAt s' p := by
  obtain ⟨standing, tty, blocked, b, live, procs⟩ := h.effect notIdle
  by_cases isCurrent : p = s.current
  · subst isCurrent
    rw [current] at live procs standing
    obtain ⟨place, backed⟩ := own rfl b live
    rw [same_self] at standing
    have delayed : ({ b with kernelContext := kc } : Proc).delayed = b.delayed := rfl
    constructor
    · simp only [places, procs, Function.update_self, pcbPlace]
      omega
    · simp only [pending, procs, Function.update_self, pcbDelay, tty, blocked, delayed]
      exact backed
  · obtain ⟨place, waits, kept⟩ := others isCurrent
    have once := inv.once
    have backed := inv.backed
    have elsewhere : p ≠ t.current := by
      rw [current]
      exact isCurrent
    rw [same_of_ne (Ne.symm elsewhere)] at standing
    constructor
    · simp only [places, procs, Function.update_of_ne elsewhere] at place ⊢
      simp only [places] at once
      omega
    · simp only [pending, procs, Function.update_of_ne elsewhere, tty, blocked] at waits ⊢
      simp only [pending] at backed
      omega

/-- A process is taken out of the blocked queue and made ready; `t` is the state in which what it
waited for is gone. -/
theorem PlacedAt.wake {s t : Sched} {p q : PcbPtr} (inv : PlacedAt s p) (kept : Bool)
    (standing : t.standing p = s.standing p) (blocked : t.queues .blocked = s.queues .blocked)
    (place : pcbPlace (t.procs p) = pcbPlace (s.procs p))
    (waits : t.pending p + same q p ≤ s.pending p) :
    PlacedAt ((t.remove .blocked q).push kept .ready q) p := by
  have backed := inv.backed
  have once := inv.once
  have removed := standing_remove (s := t) (p := p) (q := q) (Or.inl rfl : _ = QueueId.blocked ∨ _)
    (by rw [blocked]; omega)
  have readied := standing_push (s := t.remove .blocked q) (p := p) (q := q) kept
    (Or.inl rfl : Holds .ready)
  constructor
  · simp only [places, push_procs, remove_procs] at once readied ⊢
    omega
  · have tty : ((t.remove .blocked q).push kept .ready q).ttyEntries p = t.ttyEntries p := by
      rw [ttyEntries_push_hold _ (Or.inl rfl), remove, ttyEntries_hold _ (Or.inr (Or.inl rfl))]
    simp only [pending] at waits backed
    simp only [pending, tty, push_procs, push_queues, remove_procs, remove_queues, blocked, ne_eq,
      reduceCtorEq, not_false_eq_true, Function.update_of_ne, Function.update_self, count_remove]
    omega

/-- The current process blocks; `u` is the state in which what it waits for is recorded. -/
theorem PlacedAt.block {s u s' : Sched} {p : PcbPtr} {kc : KernelContext} (inv : PlacedAt s p)
    (h : Dispatch kc (u.push true .blocked s.current) s') (notIdle : p ≠ u.idleProc)
    (current : u.current = s.current) (standing : u.standing p = s.standing p)
    (blocked : u.queues .blocked = s.queues .blocked)
    (place : pcbPlace (u.procs p) = pcbPlace (s.procs p))
    (waits : u.pending p ≤ s.pending p + same s.current p) : PlacedAt s' p := by
  have pushed := standing_push (s := u) (p := p) (q := s.current) true
    (Or.inr (Or.inl rfl) : Holds .blocked)
  have tty : (u.push true .blocked s.current).ttyEntries p = u.ttyEntries p :=
    ttyEntries_push_hold true (Or.inr (Or.inl rfl))
  have count : ((u.push true .blocked s.current).queues .blocked).count p =
      (s.queues .blocked).count p + same s.current p := by
    rw [push_queues, Function.update_self, count_push, blocked, if_pos rfl]
  have backed := inv.backed
  apply inv.leave h notIdle current
  · intro other
    rw [same_of_ne (Ne.symm other)] at waits pushed count
    refine ⟨?_, ?_, by omega⟩
    · simp only [places, push_procs]
      omega
    · simp only [pending, tty, push_procs] at waits ⊢
      omega
  · intro isCurrent b live
    subst isCurrent
    simp only [push_procs] at live
    have once := inv.once
    have here : 1 ≤ s.standing s.current ∧
        (s.queues .blocked).count s.current + 1 ≤ s.standing s.current := by
      simp only [Sched.standing, same_self]
      omega
    rw [live] at place
    have clear : b.place = 0 := by
      have same : b.place = pcbPlace (s.procs s.current) := place
      simp only [places] at once
      omega
    have flag := Proc.place_eq_zero.mp clear
    have kept : ({ b with kernelContext := kc } : Proc).place = 0 := Proc.place_eq_zero.mpr flag
    rw [same_self] at count waits pushed
    simp only [places] at once
    simp only [pending, live, pcbDelay] at waits backed
    constructor
    · omega
    · omega

variable {env : Env} {limits : Limits} {s s' : Sched} {p : PcbPtr}

/-- Changing fields of a PCB that concern neither places nor delays. -/
theorem PlacedAt.setProc {q : PcbPtr} {b b' : Proc} (inv : PlacedAt s p)
    (live : s.procs q = some b) (place : b'.place = b.place) (delayed : b'.delayed = b.delayed) :
    PlacedAt (s.setProc q b') p := by
  have once := inv.once
  have backed := inv.backed
  by_cases equal : p = q
  · subst equal
    simp only [places, pending, live, pcbPlace, pcbDelay] at once backed
    constructor
    · simp only [places, standing_setProc, setProc_procs, Function.update_self, pcbPlace, place]
      exact once
    · simp only [pending, ttyEntries_setProc, setProc_procs, Function.update_self, pcbDelay,
        delayed]
      exact backed
  · constructor
    · simp only [places, standing_setProc, setProc_procs, Function.update_of_ne equal]
      exact once
    · simp only [pending, ttyEntries_setProc, setProc_procs, Function.update_of_ne equal]
      exact backed

/-- No shift gives a process a second place. -/
theorem Shift.placed (memory : ∀ k, env.mallocOk k = true) (inv : PlacedAt s p)
    (move : Shift env limits s s') (notIdle : p ≠ s.idleProc) : PlacedAt s' p := by
  cases move with
  | toUser => exact ⟨inv.once, inv.backed⟩
  | @tick q b live delayed =>
      have still : ({ b with delayTicks := b.delayTicks - 1 } : Proc).delayed = b.delayed := by
        have now : 0 < b.delayTicks - 1 := by omega
        have before : 0 < b.delayTicks := by omega
        simp only [Proc.delayed, now, before]
      exact inv.setProc live rfl still
  | @wakeDelayed q b k live delayed =>
      have before : b.delayed = 1 := if_pos (by omega)
      refine inv.wake (env.mallocOk k) rfl rfl ?_ ?_
      · by_cases equal : p = q
        · subst equal
          simp only [setProc_procs, Function.update_self, live]
          rfl
        · simp only [setProc_procs, Function.update_of_ne equal]
      · by_cases equal : p = q
        · subst equal
          have now : ({ b with delayTicks := 0 } : Proc).delayed = 0 := rfl
          simp only [pending, ttyEntries_setProc, setProc_procs, Function.update_self, live,
            pcbDelay, now, before, same_self]
          omega
        · simp only [pending, ttyEntries_setProc, setProc_procs, Function.update_of_ne equal,
            same_of_ne (Ne.symm equal)]
          omega
  | @wakeReader tty q b rest k live queue =>
      have popped := ttyEntries_pop (p := p) (Or.inl (rfl : _ = QueueId.readers tty)) queue
      refine inv.wake (env.mallocOk k) (standing_setQueue rest (by simp [Holds])) (by simp) rfl ?_
      simp only [pending, setQueue_procs]
      omega
  | @wakeWriter tty q b rest k live queue =>
      have popped := ttyEntries_pop (p := p) (Or.inr (rfl : _ = QueueId.writers tty)) queue
      refine inv.wake (env.mallocOk k) (standing_setQueue rest (by simp [Holds])) (by simp) rfl ?_
      simp only [pending, setQueue_procs]
      omega
  | @wakeWriterBlocked tty q b rest k k' failed live queue =>
      rw [memory] at failed
      cases failed
  | @wakeWriting tty q b k live writer =>
      have cleared := ttyEntries_clearWriter (p := p) writer
      refine inv.wake (env.mallocOk k) rfl rfl rfl ?_
      simp only [pending, setWriter_procs]
      omega
  | @delay _ b ticks k allowed user busy live switch =>
      rw [memory] at switch
      refine inv.block switch notIdle rfl rfl rfl ?_ ?_
      · by_cases equal : p = s.current
        · subst equal
          simp only [setProc_procs, Function.update_self, live]
          rfl
        · simp only [setProc_procs, Function.update_of_ne equal]
      · by_cases equal : p = s.current
        · subst equal
          have one := Proc.delayed_le_one { b with delayTicks := ticks }
          simp only [pending, ttyEntries_setProc, setProc_procs, Function.update_self, pcbDelay,
            same_self]
          omega
        · simp only [pending, ttyEntries_setProc, setProc_procs, Function.update_of_ne equal]
          omega
  | @blockReader _ tty buf len k k' allowed user busy switch =>
      rw [memory k'] at switch
      have queued := ttyEntries_push (s := s) (p := p) (q := s.current) (env.mallocOk k)
        (Or.inl (rfl : _ = QueueId.readers tty))
      refine inv.block switch notIdle rfl (standing_setQueue _ (by simp [Holds])) (by simp) rfl ?_
      simp only [pending, push_procs]
      omega
  | @blockWriter _ tty buf len k k' allowed user busy switch =>
      rw [memory k'] at switch
      have queued := ttyEntries_push (s := s) (p := p) (q := s.current) (env.mallocOk k)
        (Or.inr (rfl : _ = QueueId.writers tty))
      refine inv.block switch notIdle rfl (standing_setQueue _ (by simp [Holds])) (by simp) rfl ?_
      simp only [pending, push_procs]
      omega
  | @blockWriting _ tty len k allowed switch =>
      rw [memory] at switch
      have written := ttyEntries_setWriter (s := s) (p := p) (q := s.current) tty
      refine inv.block switch notIdle rfl rfl rfl rfl ?_
      simp only [pending, setWriter_procs]
      omega
  | @blockWait _ b statusPtr user busy live childless switch =>
      apply inv.leave switch notIdle rfl
      · intro other
        simp only [places, pending, standing_setProc, ttyEntries_setProc, setProc_procs,
          Function.update_of_ne other, setProc_queues, Nat.le_refl, and_self]
      · intro isCurrent c found
        subst isCurrent
        obtain ⟨standing, -, blocked, tty, delayed⟩ := inv.current_clear live
        simp only [setProc_procs, Function.update_self, Option.some.injEq] at found
        subst found
        have place : ({ b with waitingForChildPid := 1, kernelContext := .wait statusPtr } :
          Proc).place = 1 := rfl
        have still : ({ b with waitingForChildPid := 1 } : Proc).delayed = b.delayed := rfl
        rw [standing_setProc, ttyEntries_setProc, place, still]
        omega
  | @preempt b n q rest kept user live ready next =>
      let requeued := (s.setQueue .ready rest).push kept .ready s.current
      let saved := requeued.setProc s.current { b with kernelContext := .clockTrap }
      change PlacedAt (saved.enter q) p
      have popped := standing_pop_ready (p := p) ready
      have pushed : requeued.standing p ≤ _ := standing_push kept (Or.inl rfl)
      have entered : (saved.enter q).standing p + same s.current p = requeued.standing p + _ :=
        standing_enter
      have tty : (saved.enter q).ttyEntries p = s.ttyEntries p := by
        rw [ttyEntries_enter, ttyEntries_setProc]
        exact (ttyEntries_push_hold kept (Or.inl rfl)).trans (ttyEntries_hold rest (Or.inl rfl))
      have blocked : (saved.enter q).queues .blocked = s.queues .blocked := by
        simp [saved, requeued]
      have once := inv.once
      have backed := inv.backed
      simp only [places] at once
      simp only [pending] at backed
      by_cases equal : p = s.current
      · subst equal
        obtain ⟨-, clear, -⟩ := inv.current_clear live
        have flag := Proc.place_eq_zero.mp clear
        have place : ({ b with kernelContext := .clockTrap } : Proc).place = 0 :=
          Proc.place_eq_zero.mpr flag
        have now : (saved.enter q).procs s.current =
            some { b with kernelContext := .clockTrap } := Function.update_self ..
        have still : ({ b with kernelContext := .clockTrap } : Proc).delayed = b.delayed := rfl
        rw [live] at once backed
        constructor
        · simp only [places, now, pcbPlace, place]
          omega
        · simp only [pending, now, tty, blocked, pcbDelay, still] at backed ⊢
          exact backed
      · have same' : (saved.enter q).procs p = s.procs p := Function.update_of_ne equal ..
        constructor
        · simp only [places, same']
          omega
        · simp only [pending, same', tty, blocked]
          exact backed

/-- Waking the parent of an exiting process takes it out of `Wait`, if its flag was assigned. -/
theorem WakeParent.effect {parent : Option PcbPtr} (p : PcbPtr)
    (written : ∀ q b, parent = some q → s.procs q = some b → b.waitingForChildPid ≠ invalidPid)
    (h : WakeParent env s parent s') : s'.places p ≤ s.places p ∧ s'.pending p = s.pending p ∧
      s'.queues .blocked = s.queues .blocked ∧ s'.queues .zombie = s.queues .zombie := by
  cases h with
  | noParent => exact ⟨Nat.le_refl _, rfl, rfl, rfl⟩
  | notWaiting => exact ⟨Nat.le_refl _, rfl, rfl, rfl⟩
  | @waiting q b k live flag =>
      have readied := standing_push (s := s.setProc q { b with waitingForChildPid := 0 }) (p := p)
        (q := q) (env.mallocOk k) (Or.inl rfl : Holds .ready)
      have tty : ((s.setProc q { b with waitingForChildPid := 0 }).push (env.mallocOk k) .ready
          q).ttyEntries p = s.ttyEntries p := ttyEntries_push_hold _ (Or.inl rfl)
      have set : 1 ≤ b.place := by
        by_contra clear
        have none := Proc.place_eq_zero.mp (Nat.lt_one_iff.mp (Nat.lt_of_not_le clear))
        exact none.elim flag (written q b rfl live)
      rw [standing_setProc] at readied
      refine ⟨?_, ?_, by simp, by simp⟩
      · by_cases equal : p = q
        · subst equal
          have place : ({ b with waitingForChildPid := 0 } : Proc).place = 0 := rfl
          rw [same_self] at readied
          simp only [places, push_procs, setProc_procs, Function.update_self, live, pcbPlace,
            place]
          omega
        · rw [same_of_ne (Ne.symm equal)] at readied
          simp only [places, push_procs, setProc_procs, Function.update_of_ne equal]
          omega
      · by_cases equal : p = q
        · subst equal
          simp only [pending, tty, push_procs, setProc_procs, Function.update_self, live]
          rfl
        · simp only [pending, tty, push_procs, setProc_procs, Function.update_of_ne equal]

/-- The exiting process moves to the zombie queue. -/
theorem PlacedAt.exit {woken : Sched} {b : Proc} {status : Int} {kc : KernelContext}
    (inv : PlacedAt s p) (live : s.procs s.current = some b) (notIdle : p ≠ s.idleProc)
    (written : s.ParentFlagWritten)
    (wake : WakeParent env (s.zombified b status true) b.parent woken)
    (switch : Dispatch kc woken s') : PlacedAt s' p := by
  have assigned : ∀ q d, b.parent = some q → (s.zombified b status true).procs q = some d →
      d.waitingForChildPid ≠ invalidPid := by
    intro q d parent found
    by_cases self : q = s.current
    · subst self
      simp only [zombified_procs, Function.update_self, Option.some.injEq] at found
      subst found
      exact written b s.current b live parent live
    · rw [zombified_procs, Function.update_of_ne self] at found
      exact written b q d live parent found
  obtain ⟨places', pending', blocked', zombie'⟩ := wake.effect p assigned
  have idle : woken.idleProc = s.idleProc := (wake.steady : Steady PlainContext _ _).idleProc
  have pushed := standing_push (s := s) (p := p) (q := s.current) true
    (Or.inr (Or.inr rfl) : Holds .zombie)
  have standing' : (s.zombified b status true).standing p =
      (s.push true .zombie s.current).standing p := by
    rw [zombified, standing_log, standing_setProc]
  have tty : (s.zombified b status true).ttyEntries p = s.ttyEntries p := by
    rw [zombified, ttyEntries_log, ttyEntries_setProc]
    exact ttyEntries_push_hold true (Or.inr (Or.inr rfl))
  have blocked : (s.zombified b status true).queues .blocked = s.queues .blocked := by simp
  have pcb : pcbPlace ((s.zombified b status true).procs p) = pcbPlace (s.procs p) ∧
      pcbDelay ((s.zombified b status true).procs p) = pcbDelay (s.procs p) := by
    rw [zombified_procs]
    by_cases self : p = s.current
    · subst self
      rw [Function.update_self, live]
      exact ⟨rfl, rfl⟩
    · rw [Function.update_of_ne self]
      exact ⟨rfl, rfl⟩
  have once := inv.once
  have backed := inv.backed
  simp only [places, pending] at places' pending' once backed
  apply inv.leave switch (by rw [idle]; exact notIdle) wake.current_eq
  · intro other
    rw [same_of_ne (Ne.symm other)] at pushed
    refine ⟨?_, ?_, by rw [blocked', blocked]⟩
    · simp only [places]
      omega
    · simp only [pending]
      omega
  · intro isCurrent d found
    subst isCurrent
    rw [same_self] at pushed
    -- being current and a zombie are two places already, so that the flag is clear
    have zombie : 0 < (woken.queues .zombie).count s.current := by
      rw [zombie', zombified_queues, Function.update_self, if_pos rfl]
      simp
    have current : same woken.current s.current = 1 := by
      rw [wake.current_eq]
      exact same_self _
    have two : 2 ≤ woken.standing s.current := by
      simp only [standing, current]
      omega
    rw [found] at places' pending'
    have clear : d.place = 0 := by
      have same : pcbPlace (some d) = d.place := rfl
      omega
    have flag := Proc.place_eq_zero.mp clear
    have saved : ({ d with kernelContext := kc } : Proc).place = 0 := Proc.place_eq_zero.mpr flag
    have delay : pcbDelay (some d) = d.delayed := rfl
    rw [blocked', blocked]
    omega

/-- A new process stands in the ready queue. -/
theorem PlacedAt.fork {b : Proc} {inReady inChildren : Bool} (inv : PlacedAt s p)
    (absent : s.procs s.nextPcb = none) :
    PlacedAt (s.spawn env b inReady inChildren) p := by
  let grown : Sched := { s with nextPcb := s.nextPcb + 1, pidCalls := s.pidCalls + 1 }
  let made := (grown.setProc s.nextPcb (newProc env s b)).setQueue (.children s.nextPcb) []
  have childless : made.standing p = s.standing p := standing_setQueue [] (by simp [Holds])
  have quiet : made.ttyEntries p = s.ttyEntries p := by
    have cleared : made.ttyEntries p = (grown.setProc s.nextPcb (newProc env s b)).ttyEntries p :=
      ttyEntries_setQueue [] (by simp) (by simp)
    rw [cleared, ttyEntries_setProc]
    rfl
  have readied := standing_push (s := made) (p := p) (q := s.nextPcb) inReady
    (Or.inl rfl : Holds .ready)
  have standing' : (s.spawn env b inReady inChildren).standing p =
      (made.push inReady .ready s.nextPcb).standing p := by
    rw [spawn, standing_log]
    exact standing_setQueue _ (by simp [Holds])
  have tty : (s.spawn env b inReady inChildren).ttyEntries p = s.ttyEntries p := by
    rw [spawn, ttyEntries_log, push, ttyEntries_setQueue _ (by simp) (by simp)]
    exact (ttyEntries_push_hold inReady (Or.inl rfl)).trans quiet
  have blocked : (s.spawn env b inReady inChildren).queues .blocked = s.queues .blocked := by simp
  have once := inv.once
  have backed := inv.backed
  by_cases equal : p = s.nextPcb
  · subst equal
    rw [same_self] at readied
    have place : pcbPlace (some (newProc env s b)) = 0 := rfl
    have delay : pcbDelay (some (newProc env s b)) = 0 := rfl
    simp only [places, pending, absent, pcbPlace, pcbDelay] at once backed
    constructor
    · simp only [places, spawn_procs, Function.update_self, place]
      omega
    · simp only [pending, spawn_procs, Function.update_self, delay, blocked, tty]
      omega
  · rw [same_of_ne (Ne.symm equal)] at readied
    simp only [places] at once
    simp only [pending] at backed
    constructor
    · simp only [places, spawn_procs, Function.update_of_ne equal]
      omega
    · simp only [pending, spawn_procs, Function.update_of_ne equal, blocked, tty]
      exact backed

/-- Queues that are no places and belong to no terminal do not matter. -/
theorem PlacedAt.remove_children {q z : PcbPtr} (inv : PlacedAt s p) :
    PlacedAt (s.remove (.children q) z) p := by
  have standing : (s.remove (.children q) z).standing p = s.standing p :=
    standing_setQueue _ (by simp [Holds])
  have tty : (s.remove (.children q) z).ttyEntries p = s.ttyEntries p :=
    ttyEntries_setQueue _ (by simp) (by simp)
  have once := inv.once
  have backed := inv.backed
  simp only [places, pending] at once backed
  constructor
  · simp only [places, standing, remove_procs]
    exact once
  · simp only [pending, tty, remove_procs, remove_queues, ne_eq, reduceCtorEq,
      not_false_eq_true, Function.update_of_ne]
    exact backed

theorem standing_delete {z : PcbPtr} : (s.delete z).standing p = s.standing p := by
  change ((s.orphan (s.queues (.children z))).setQueue (.children z) []).standing p = _
  rw [standing_setQueue [] (by simp [Holds])]
  rfl

theorem ttyEntries_delete {z : PcbPtr} : (s.delete z).ttyEntries p = s.ttyEntries p := by
  rw [delete, ttyEntries_free, ttyEntries_setQueue _ (by simp) (by simp), ttyEntries_orphan]

/-- A deleted zombie leaves the zombie queue, its only place. -/
theorem PlacedAt.bury {z : PcbPtr} (inv : PlacedAt s p) (zombie : z ∈ s.queues .zombie) :
    PlacedAt ((s.remove .zombie z).delete z) p := by
  have counted : same z p ≤ (s.queues .zombie).count p := by
    by_cases equal : z = p
    · subst equal
      rw [same_self]
      exact List.count_pos_iff.mpr zombie
    · rw [same_of_ne equal]
      exact Nat.zero_le _
  have removed := standing_remove (s := s) (p := p) (q := z) (Or.inr rfl) counted
  have tty : ((s.remove .zombie z).delete z).ttyEntries p = s.ttyEntries p := by
    rw [ttyEntries_delete]
    exact ttyEntries_hold _ (Or.inr (Or.inr rfl))
  have blocked : ((s.remove .zombie z).delete z).queues .blocked = s.queues .blocked := by simp
  have once := inv.once
  have backed := inv.backed
  simp only [places] at once
  simp only [pending] at backed
  by_cases equal : p = z
  · subst equal
    rw [same_self] at removed
    have gone : ((s.remove .zombie p).delete p).procs p = none := by simp
    constructor
    · simp only [places, gone, pcbPlace, standing_delete]
      omega
    · simp only [pending, gone, pcbDelay, blocked, tty]
      omega
  · rw [same_of_ne (Ne.symm equal)] at removed
    have kept : pcbPlace (((s.remove .zombie z).delete z).procs p) = pcbPlace (s.procs p) ∧
        pcbDelay (((s.remove .zombie z).delete z).procs p) = pcbDelay (s.procs p) := by
      simp only [delete_procs, Function.update_of_ne equal, remove_procs]
      split
      · rcases s.procs p with _ | b
        · exact ⟨rfl, rfl⟩
        · exact ⟨rfl, rfl⟩
      · exact ⟨rfl, rfl⟩
    constructor
    · simp only [places, kept.1, standing_delete]
      omega
    · simp only [pending, kept.2, tty, blocked]
      exact backed

/-- While memory lasts, and if nobody exits whose parent still has its initial flag, no move gives a
process a second place. -/
theorem Move.placed (memory : ∀ k, env.mallocOk k = true)
    (exits : ∀ {t ok}, limits.exit t ok → t.ParentFlagWritten) (known : Registered env s)
    (inv : PlacedAt s p) (move : Move env limits s s') (notIdle : p ≠ s.idleProc) :
    PlacedAt s' p := by
  cases move with
  | shift moved => exact moved.placed memory inv notIdle
  | exit allowed user busy live notInit wake switch =>
      have written := exits allowed
      rw [memory] at wake
      exact inv.exit live notIdle written wake switch
  | fork allowed user busy live other => exact inv.fork (known.fresh _ (Nat.le_refl _))
  | @childReturn b q child parent inKernel live saved parentLive pids =>
      have returned : PlacedAt (s.setProc s.current { b with parent := some parent }) p :=
        inv.setProc live rfl rfl
      exact ⟨returned.once, returned.backed⟩
  | @forkAgain b q c child parent k k' inKernel live saved parentLive childLive pids =>
      exact absurd pids (known.child_apart live saved parentLive)
  | @reap b c z statusPtr allowed live zombie dead child =>
      have unlisted : z ∈ (s.remove (.children s.current) z).queues .zombie := by
        rw [remove_queues, Function.update_of_ne (by simp)]
        exact zombie
      have reaped := inv.remove_children.bury unlisted
      exact ⟨reaped.once, reaped.backed⟩
  | noChildren => exact ⟨inv.once, inv.backed⟩
  | noZombie => exact ⟨inv.once, inv.backed⟩

theorem Moves.placed (distinct : Function.Injective env.helperNewPid)
    (memory : ∀ k, env.mallocOk k = true)
    (exits : ∀ {t ok}, limits.exit t ok → t.ParentFlagWritten) (known : Registered env s)
    (placed : ∀ p, p ≠ s.idleProc → PlacedAt s p) (run : Moves env limits s s') :
    Registered env s' ∧ ∀ p, p ≠ s'.idleProc → PlacedAt s' p := by
  induction run with
  | refl => exact ⟨known, placed⟩
  | tail _ move inductionHypothesis =>
      obtain ⟨known, placed⟩ := inductionHypothesis
      refine ⟨known.move distinct exits move, ?_⟩
      intro p notIdle
      rw [move.idleProc_eq] at notIdle
      exact move.placed memory exits known (placed p notIdle) notIdle

theorem placed_booted {ready : Bool} (notIdle : p ≠ (booted env ready).idleProc) :
    PlacedAt (booted env ready) p := by
  have tty : (booted env ready).ttyEntries p = 0 := booted_ttyEntries
  have current : same (booted env ready).current p = 0 := same_of_ne fun same => notIdle same.symm
  have notZero : p ≠ 0 := notIdle
  by_cases init : p = 1
  · subst init
    constructor
    · simp only [places, standing, current, booted_queue, booted_queues, Function.update_self,
        booted_procs, if_true, pcbPlace, Proc.place, ne_eq, reduceCtorEq, not_false_eq_true]
      rcases ready with _ | _
      · exact Nat.zero_le 1
      · exact Nat.le_refl 1
    · simp only [pending, tty, booted_procs, if_true]
      exact Nat.zero_le _
  · have absent : p ∉ (if ready then [1] else [] : List PcbPtr) := by
      split
      · simpa using init
      · simp
    constructor
    · simp only [places, standing, current, booted_queue, booted_queues, Function.update_self,
        List.count_eq_zero.mpr absent, booted_procs, if_neg init, if_neg notZero, pcbPlace, ne_eq,
        reduceCtorEq, not_false_eq_true, List.count_nil]
      exact Nat.le_refl 1
    · simp only [pending, tty, booted_procs, if_neg init, if_neg notZero]
      exact Nat.zero_le _

end Sched

/-! ### Runs of the machine -/

namespace Kernel

open Transition

variable {env : Env} {cfg : BootConfig} {boot s : Kernel}

/-- The process is blocked inside `Wait`: it saved its context there, and the flag that `Wait` set
is still set. -/
def InsideWait (s : Kernel) (p : PcbPtr) : Prop :=
  ∃ b ∈ s.heap p, b.kernelContext.isWait = true ∧ b.waitingForChildPid ≠ 0 ∧
    b.waitingForChildPid ≠ invalidPid

instance (s : Kernel) (p : PcbPtr) : Decidable (s.InsideWait p) :=
  inferInstanceAs (Decidable (∃ b ∈ s.heap p, b.kernelContext.isWait = true ∧
    b.waitingForChildPid ≠ 0 ∧ b.waitingForChildPid ≠ invalidPid))

/-- How often the process may be given the processor: it has it, or is in the ready queue. -/
def runnable (s : Kernel) (p : PcbPtr) : Nat :=
  (if s.currentProcess = p then 1 else 0) + (s.queues .ready).count p

/-- How many scheduling places the process occupies, each as often as it occupies it. -/
def schedulingPlaces (s : Kernel) (p : PcbPtr) : Nat :=
  s.runnable p + (s.queues .blocked).count p + (if s.InsideWait p then 1 else 0) +
    (s.queues .zombie).count p

theorem InsideWait.place {p : PcbPtr} (inside : s.InsideWait p) :
    1 ≤ Sched.pcbPlace (s.sched.procs p) := by
  obtain ⟨b, live, -, notZero, notInitial⟩ := inside
  rw [procs_of_heap live]
  by_contra clear
  have none := Proc.place_eq_zero.mp (Nat.lt_one_iff.mp (Nat.lt_of_not_le clear))
  exact none.elim notZero notInitial

theorem schedulingPlaces_le {p : PcbPtr} : s.schedulingPlaces p ≤ s.sched.places p := by
  have inside : (if s.InsideWait p then 1 else 0) ≤ Sched.pcbPlace (s.sched.procs p) := by
    split
    · rename_i inside
      exact inside.place
    · exact Nat.zero_le _
  simp only [schedulingPlaces, runnable, Sched.places, Sched.standing, same, sched_current,
    sched_queues]
  omega

/-- One step keeps every process other than idle at one place. -/
theorem placed_step (distinct : Function.Injective env.helperNewPid)
    (memory : ∀ k, env.mallocOk k = true) :
    Preserves (Guarded (Step env) ExitsWritten) fun s => Sched.Registered env s.sched ∧
      ∀ p, p ≠ s.sched.idleProc → Sched.PlacedAt s.sched p := by
  intro s i t inv guarded
  obtain ⟨known, placed⟩ := inv
  exact Sched.Moves.placed distinct memory id known placed
    (deliver_moves (fresh_of_registered known) guarded.1.allows guarded.2)

theorem placed_reaches (distinct : Function.Injective env.helperNewPid)
    (memory : ∀ k, env.mallocOk k = true) (started : kernelStart env cfg = .ok boot)
    (run : Reaches (Guarded (Step env) ExitsWritten) boot s) {p : PcbPtr}
    (notIdle : p ≠ s.idleProc) : Sched.PlacedAt s.sched p := by
  have start : Sched.Registered env boot.sched ∧
      ∀ p, p ≠ boot.sched.idleProc → Sched.PlacedAt boot.sched p := by
    obtain ⟨ready, view⟩ := kernelStart_sched started
    rw [view]
    exact ⟨Sched.registered_booted, fun _ => Sched.placed_booted⟩
  have inv := run.invariant (P := fun s => Sched.Registered env s.sched ∧
    ∀ p, p ≠ s.sched.idleProc → Sched.PlacedAt s.sched p) (placed_step distinct memory) start
  exact inv.2 p notIdle

/-- A switch lets nobody run who was not ready. -/
theorem Dispatch.runnable {kc : KernelContext} {t t' : Sched} {q : PcbPtr}
    (h : Sched.Dispatch kc t t') (notIdle : q ≠ t.idleProc) :
    same t'.current q + (t'.queues .ready).count q = (t.queues .ready).count q := by
  cases h with
  | @next b _ p rest current ready live =>
      rw [Sched.enter_current, Sched.enter_queues, Sched.setProc_queues, Sched.setQueue_queues,
        Function.update_self, ready, count_pop]
      omega
  | idle current ready live =>
      rw [Sched.enter_current, Sched.enter_queues, Sched.setProc_queues, ready,
        same_of_ne (Ne.symm notIdle)]
      rfl

/-- Whom an exit makes ready was inside `Wait`. -/
theorem exit_wakes_waiting {i : Input} {s' : Kernel} {q : PcbPtr}
    (placed : Sched.PlacedAt s.sched q) (step : s.Step env i s') (written : s.ExitsWritten i)
    (calls : s.CallsExit i) (notIdle : q ≠ s.idleProc) (gain : s.runnable q < s'.runnable q) :
    s.InsideWait q := by
  obtain ⟨t, status, origin, view, -, ended⟩ := step_exit calls step.2
  obtain ⟨b, woken, live, -, wake, frame, switch⟩ := exit_sched ended
  rw [view] at live wake
  have idle : woken.idleProc = s.idleProc :=
    (wake.steady : Sched.Steady Sched.PlainContext _ _).idleProc
  have chances := Dispatch.runnable switch (by rw [idle]; exact notIdle)
  have more : same s.currentProcess q + (s.queues .ready).count q <
      (woken.queues .ready).count q := by
    rw [← chances]
    exact gain
  generalize parent : b.parent = q' at wake
  cases wake with
  | noParent =>
      simp only [Sched.zombified_queues, ne_eq, reduceCtorEq, not_false_eq_true,
        Function.update_of_ne, sched_queues] at more
      omega
  | notWaiting =>
      simp only [Sched.zombified_queues, ne_eq, reduceCtorEq, not_false_eq_true,
        Function.update_of_ne, sched_queues] at more
      omega
  | @waiting p d k found flag =>
      rw [Sched.push_queues, Function.update_self, count_push] at more
      simp only [Sched.setProc_queues, Sched.zombified_queues, ne_eq, reduceCtorEq,
        not_false_eq_true, Function.update_of_ne, sched_queues] at more
      have bound : (if env.mallocOk k = true then same p q else 0) ≤ same p q := by
        split
        · exact Nat.le_refl _
        · exact Nat.zero_le _
      have isParent : p = q := by
        by_contra other
        rw [same_of_ne other, ite_self] at more
        omega
      subst isParent
      have notCurrent : p ≠ s.sched.current := by
        intro current
        have here : same s.currentProcess p = 1 := if_pos current.symm
        have self := same_le_one p p
        omega
      rw [Sched.zombified_procs, Function.update_of_ne notCurrent] at found
      have initial : d.waitingForChildPid ≠ invalidPid :=
        (written calls).sched b p d live parent found
      have once := placed.once
      simp only [Sched.places, found, Sched.pcbPlace, Proc.place, flag, initial, or_self,
        if_false] at once
      simp only [sched_procs, Option.map_eq_some_iff] at found
      obtain ⟨pcb, found, rfl⟩ := found
      refine ⟨pcb, found, ?_, flag, initial⟩
      by_contra outside
      have notWait : ¬ pcb.proc.kernelContext.isWait = true := outside
      rw [if_neg notWait] at once
      omega

/-- Every process other than idle has at most one scheduling place, and `Exit` makes nobody ready
but a process blocked inside `Wait`. -/
theorem scheduling_place (distinct : Function.Injective env.helperNewPid)
    (memory : ∀ k, env.mallocOk k = true) (started : kernelStart env cfg = .ok boot)
    (run : Reaches (Guarded (Step env) ExitsWritten) boot s) {p : PcbPtr}
    (notIdle : p ≠ s.idleProc) :
    s.schedulingPlaces p ≤ 1 ∧ ∀ i s', Guarded (Step env) ExitsWritten s i s' → s.CallsExit i →
      s.runnable p < s'.runnable p → s.InsideWait p := by
  have placed := placed_reaches distinct memory started run notIdle
  constructor
  · exact Nat.le_trans schedulingPlaces_le placed.once
  · intro i s' guarded calls gain
    exact exit_wakes_waiting placed guarded.2 guarded.1 calls notIdle gain

/-- Init waits for its child, which runs. -/
theorem scheduling_place_sample : ∃ s : Kernel, s.InsideWait 1 ∧ s.schedulingPlaces 1 ≤ 1 := by
  have answer : runs sampleEnv sampleBoot (fun s _ => decide s.ParentFlagWritten)
      [.tick, .resume, .call yalnixFork 0 0 0, .call yalnixWait 0 0 0, .resume]
      (fun s => decide (s.InsideWait 1 ∧ 1 ≠ s.idleProc)) = .ok true := by
    decide +kernel
  obtain ⟨boot, s, started, run, both⟩ := runs_sound ExitsWritten
    (fun s i written _ => of_decide_eq_true written) answer
  obtain ⟨inside, notIdle⟩ := of_decide_eq_true both
  exact ⟨s, inside,
    (scheduling_place sampleEnv_distinct (fun _ => rfl) started run notIdle).1⟩

/-- The exit of a child puts a parent that never waited in the ready queue a second time. -/
theorem no_scheduling_place : ¬ ∀ env cfg boot s, Function.Injective env.helperNewPid →
    (∀ k, env.mallocOk k = true) → kernelStart env cfg = .ok boot →
    Reaches (Guarded (Step env) fun _ i => i.among [yalnixFork, yalnixExit]) boot s →
    ∀ p, p ≠ s.idleProc → s.schedulingPlaces p ≤ 1 := by
  intro once
  -- the clock takes the processor from init, whose child exits
  have answer : runs sampleEnv sampleBoot (fun _ i => i.among [yalnixFork, yalnixExit])
      [.tick, .resume, .call yalnixFork 0 0 0, .tick, .resume, .call yalnixExit 7 0 0]
      (fun s => decide (1 ≠ s.idleProc ∧ s.schedulingPlaces 1 = 2)) = .ok true := by
    decide +kernel
  obtain ⟨boot, s, started, run, both⟩ := runs_sound _ (fun _ _ => id) answer
  obtain ⟨notIdle, twice⟩ := of_decide_eq_true both
  have bound := once _ _ boot s sampleEnv_distinct (fun _ => rfl) started run 1 notIdle
  omega

end Kernel

end Yalnix
