/-
Module: Yalnix.Proofs.Reaping
Purpose: Wait returns each exited child of its caller once, with the status the child exited with,
  and fails only when no child is left.
Trusted boundary: the pids of the hardware library do not repeat and are not negative
Main exports: Sched.Waits, Waits.move, WaitOutcome, FamilyKept, reaping_is_exact
-/
import Yalnix.Proofs.Always
import Yalnix.Proofs.Family
import Yalnix.Proofs.UserMemory

namespace Yalnix

open Tally

namespace Sched

/-- A zombie child is there for the process with this pid. -/
def HasZombie (s : Sched) (pid : Int) : Prop :=
  ∃ z ∈ s.queues .zombie, ∃ c, s.procs z = some c ∧ c.ppid = pid

/-- A process whose context was saved inside `Wait` expects nothing but the exit of a child, and is
ready, or about to return, only when there is a zombie for it. -/
structure Waits (s : Sched) : Prop where
  idle : ∀ b, s.procs s.idleProc = some b → b.kernelContext.isWait = false
  clean : ∀ p b, p ≠ s.current → s.procs p = some b → b.kernelContext.isWait = true →
    s.ttyEntries p = 0 ∧ b.delayTicks ≤ 0
  woken : ∀ p b, s.procs p = some b → b.kernelContext.isWait = true →
    p ∈ s.queues .ready ∨ p = s.current ∧ s.mode = .kernel → s.HasZombie b.pid

theorem HasZombie.steady {saved : KernelContext → Prop} {s s' : Sched} {pid : Int}
    (zombie : s.HasZombie pid) (h : Steady saved s s') : s'.HasZombie pid := by
  obtain ⟨z, member, c, found, child⟩ := zombie
  obtain ⟨c', found', same⟩ := h.kept found
  exact ⟨z, by rw [h.zombie]; exact member, c', found', same.ppid.trans child⟩

namespace Waits

variable {env : Env} {limits : Limits} {s t s' : Sched} {p q : PcbPtr}

/-- Who is registered for something else did not save a context inside `Wait`. -/
theorem elsewhere (inv : Waits s) (known : Registered env s) {b : Proc}
    (live : s.procs q = some b) (registered : 0 < s.ttyEntries q ∨ 0 < b.delayTicks) :
    b.kernelContext.isWait = false := by
  rcases inWait : b.kernelContext.isWait with _ | _
  · rfl
  · by_cases current : q = s.current
    · by_cases idle : q = s.idleProc
      · rw [idle] at live
        exact absurd (inv.idle b live) (by simp [inWait])
      · have once := known.once q idle
        have here : same s.current q = 1 := if_pos current.symm
        simp only [registrations, live, pcbEntries, Proc.entries, here] at once
        rcases registered with tty | delayed
        · omega
        · have counted : b.delayed = 1 := if_pos delayed
          omega
    · obtain ⟨tty, delayed⟩ := inv.clean q b current live inWait
      rcases registered with entered | ticking
      · exact absurd tty (Nat.ne_of_gt entered)
      · exact absurd delayed (not_le.mpr ticking)

/-- What a move may do without waking anybody inside `Wait` wrongly. -/
theorem carry (inv : Waits s) (current : s'.current = s.current)
    (idleProc : s'.idleProc = s.idleProc) (mode : s'.mode = .kernel → s.mode = .kernel)
    (procs : ∀ p b', s'.procs p = some b' → b'.kernelContext.isWait = true →
      ∃ b, s.procs p = some b ∧ b.kernelContext.isWait = true ∧ b'.pid = b.pid ∧
        (p ≠ s.current → b'.delayTicks ≤ b.delayTicks))
    (tty : ∀ p, p ≠ s.current → s'.ttyEntries p ≤ s.ttyEntries p)
    (ready : ∀ p ∈ s'.queues .ready, p ∈ s.queues .ready ∨
      ∀ b, s.procs p = some b → b.kernelContext.isWait = true → s'.HasZombie b.pid)
    (zombies : ∀ pid, s.HasZombie pid → s'.HasZombie pid) : Waits s' where
  idle := by
    intro b' found
    rcases inWait : b'.kernelContext.isWait with _ | _
    · rfl
    · obtain ⟨b, was, waiting, -⟩ := procs _ b' found inWait
      rw [idleProc] at was
      rw [inv.idle b was] at waiting
      cases waiting
  clean := by
    intro p b' other found inWait
    rw [current] at other
    obtain ⟨b, was, waiting, -, delay⟩ := procs p b' found inWait
    obtain ⟨none, ended⟩ := inv.clean p b other was waiting
    have bound := tty p other
    exact ⟨by omega, le_trans (delay other) ended⟩
  woken := by
    intro p b' found inWait runs
    obtain ⟨b, was, waiting, pid, -⟩ := procs p b' found inWait
    rw [pid]
    rcases runs with member | ⟨isCurrent, inKernel⟩
    · rcases ready p member with earlier | child
      · exact zombies _ (inv.woken p b was waiting (Or.inl earlier))
      · exact child b was waiting
    · rw [current] at isCurrent
      exact zombies _ (inv.woken p b was waiting (Or.inr ⟨isCurrent, mode inKernel⟩))

/-- The current process saves a context. -/
theorem save (inv : Waits s) {b' : Proc}
    (fits : b'.kernelContext.isWait = true →
      s.current ≠ s.idleProc ∧ s.mode = .user ∧ s.current ∉ s.queues .ready)
    {b : Proc} (live : s.procs s.current = some b) (same : SameIdentity b b') :
    Waits (s.setProc s.current b') := by
  have kept : Steady (fun _ => True) s (s.setProc s.current b') :=
    Steady.setProc live same (Or.inr ⟨rfl, trivial⟩)
  constructor
  case idle =>
    intro c found
    rcases inWait : c.kernelContext.isWait with _ | _
    · rfl
    · by_cases equal : s.idleProc = s.current
      · rw [setProc_procs, setProc_idleProc, equal, Function.update_self,
          Option.some.injEq] at found
        subst found
        exact absurd equal.symm (fits inWait).1
      · rw [setProc_procs, setProc_idleProc, Function.update_of_ne equal] at found
        rw [inv.idle c found] at inWait
        cases inWait
  case clean =>
    intro p c other found inWait
    rw [setProc_current] at other
    rw [setProc_procs, Function.update_of_ne other] at found
    exact inv.clean p c other found inWait
  case woken =>
    intro p c found inWait runs
    by_cases equal : p = s.current
    · subst equal
      rw [setProc_procs, Function.update_self, Option.some.injEq] at found
      subst found
      obtain ⟨-, user, absent⟩ := fits inWait
      rcases runs with member | ⟨-, inKernel⟩
      · exact absurd member absent
      · rw [setProc_mode, user] at inKernel
        cases inKernel
    · rw [setProc_procs, Function.update_of_ne equal] at found
      exact (inv.woken p c found inWait runs).steady kept

/-- The processor goes to `q`. -/
theorem enter (inv : Waits s)
    (own : ∀ b, s.procs s.current = some b → b.kernelContext.isWait = true →
      s.ttyEntries s.current = 0 ∧ b.delayTicks ≤ 0)
    (next : ∀ b, s.procs q = some b → b.kernelContext.isWait = true → s.HasZombie b.pid) :
    Waits (s.enter q) where
  idle := inv.idle
  clean := by
    intro p b other found inWait
    by_cases equal : p = s.current
    · subst equal
      exact own b found inWait
    · exact inv.clean p b equal found inWait
  woken := by
    intro p b found inWait runs
    rcases runs with member | ⟨rfl, -⟩
    · exact inv.woken p b found inWait (Or.inl member)
    · exact next b found inWait

/-- The head of the ready queue leaves it. -/
theorem pop_ready (inv : Waits s) {rest : List PcbPtr} (ready : s.queues .ready = q :: rest) :
    Waits (s.setQueue .ready rest) := by
  refine inv.carry rfl rfl id ?_ ?_ ?_ ?_
  · exact fun p b' found inWait => ⟨b', found, inWait, rfl, fun _ => le_refl _⟩
  · intro p other
    exact Nat.le_of_eq (ttyEntries_setQueue rest (by simp) (by simp))
  · intro p member
    rw [setQueue_queues, Function.update_self] at member
    exact Or.inl (by rw [ready]; exact List.mem_cons_of_mem q member)
  · exact fun pid zombie => zombie

/-- The current process gives the processor away. -/
theorem dispatch {kc : KernelContext} (inv : Waits t) (h : Dispatch kc t s')
    (own : kc.isWait = true → t.current ≠ t.idleProc ∧ t.mode = .user ∧
      t.current ∉ t.queues .ready ∧ t.ttyEntries t.current = 0 ∧
        ∀ b, t.procs t.current = some b → b.delayTicks ≤ 0) : Waits s' := by
  cases h with
  | @next b _ q rest live ready next =>
      have popped := inv.pop_ready ready
      have saved : Waits ((t.setQueue .ready rest).setProc t.current
          { b with kernelContext := kc }) := by
        refine popped.save ?_ live ⟨rfl, rfl, rfl, rfl⟩
        intro inWait
        obtain ⟨busy, user, absent, -⟩ := own inWait
        refine ⟨busy, user, fun member => absent ?_⟩
        rw [setQueue_queues, Function.update_self] at member
        rw [ready]
        exact List.mem_cons_of_mem q member
      refine saved.enter ?_ ?_
      · intro c found inWait
        rw [setProc_procs, setProc_current, setQueue_current, Function.update_self,
          Option.some.injEq] at found
        subst found
        obtain ⟨-, -, -, tty, delay⟩ := own inWait
        rw [ttyEntries_setProc, ttyEntries_setQueue rest (by simp) (by simp)]
        exact ⟨tty, delay b live⟩
      · intro c found inWait
        by_cases equal : q = t.current
        · subst equal
          rw [setProc_procs, Function.update_self, Option.some.injEq] at found
          subst found
          exact absurd (by rw [ready]; exact List.mem_cons_self) (own inWait).2.2.1
        · rw [setProc_procs, Function.update_of_ne equal] at found
          have zombie := inv.woken q c found inWait
            (Or.inl (by rw [ready]; exact List.mem_cons_self))
          have kept : Steady (fun _ => True) t ((t.setQueue .ready rest).setProc t.current
              { b with kernelContext := kc }) :=
            (Steady.setQueue rest (by simp) (by simp)).trans
              (Steady.setProc live ⟨rfl, rfl, rfl, rfl⟩ (Or.inr ⟨rfl, trivial⟩)) rfl
          exact zombie.steady kept
  | @idle b _ live ready next =>
      have saved : Waits (t.setProc t.current { b with kernelContext := kc }) := by
        refine inv.save ?_ live ⟨rfl, rfl, rfl, rfl⟩
        intro inWait
        obtain ⟨busy, user, absent, -⟩ := own inWait
        exact ⟨busy, user, absent⟩
      refine saved.enter ?_ ?_
      · intro c found inWait
        rw [setProc_procs, setProc_current, Function.update_self, Option.some.injEq] at found
        subst found
        obtain ⟨-, -, -, tty, delay⟩ := own inWait
        exact ⟨tty, delay b live⟩
      · intro c found inWait
        exact absurd (saved.idle c found) (by simp [inWait])

/-- Changes that save no context and leave the ready queue alone. -/
theorem prepare (inv : Waits s) (steady : Steady PlainContext s t) (current : t.current = s.current)
    (mode : t.mode = s.mode) (ready : t.queues .ready = s.queues .ready)
    (procs : ∀ p b', t.procs p = some b' → ∃ b, s.procs p = some b ∧
      b'.kernelContext = b.kernelContext ∧ (p ≠ s.current → b'.delayTicks ≤ b.delayTicks))
    (tty : ∀ p, p ≠ s.current → t.ttyEntries p ≤ s.ttyEntries p) : Waits t := by
  refine inv.carry current steady.idleProc ?_ ?_ tty ?_ ?_
  · intro inKernel
    rw [← mode]
    exact inKernel
  · intro p b' found inWait
    obtain ⟨c, was, kc, delay⟩ := procs p b' found
    obtain ⟨d, was', same, -⟩ := steady.procs p b' found
    obtain rfl : d = c := Option.some.inj (was'.symm.trans was)
    exact ⟨d, was, by rw [← kc]; exact inWait, same.pid, delay⟩
  · intro p member
    rw [ready] at member
    exact Or.inl member
  · exact fun pid zombie => zombie.steady steady

/-- A process that was not inside `Wait` becomes ready. -/
theorem push_ready (inv : Waits s) (kept : Bool)
    (outside : ∀ b, s.procs q = some b → b.kernelContext.isWait = false) :
    Waits (s.push kept .ready q) := by
  refine inv.carry rfl rfl id ?_ ?_ ?_ ?_
  · exact fun p b' found inWait => ⟨b', found, inWait, rfl, fun _ => le_refl _⟩
  · intro p other
    exact Nat.le_of_eq (ttyEntries_setQueue _ (by simp) (by simp))
  · intro p member
    rw [push_queues, Function.update_self] at member
    by_cases equal : p = q
    · subst equal
      refine Or.inr fun b found inWait => ?_
      rw [outside b found] at inWait
      cases inWait
    · rcases kept with _ | _
      · exact Or.inl member
      · exact Or.inl (by simpa [equal] using member)
  · exact fun pid zombie => zombie

/-- A process is woken by a terminal; `t` is the state in which the terminal forgot it. -/
theorem wake (inv : Waits s) (known : Registered env s) (kept : Bool)
    (registered : 0 < s.ttyEntries q)
    (steady : Steady PlainContext s t) (current : t.current = s.current) (mode : t.mode = s.mode)
    (ready : t.queues .ready = s.queues .ready) (procs : t.procs = s.procs)
    (tty : ∀ p, t.ttyEntries p ≤ s.ttyEntries p) : Waits (t.push kept .ready q) := by
  have prepared : Waits t := by
    refine inv.prepare steady current mode ready ?_ fun p _ => tty p
    intro p b' found
    rw [procs] at found
    exact ⟨b', found, rfl, fun _ => le_refl _⟩
  apply prepared.push_ready kept
  intro c found
  rw [procs] at found
  exact inv.elsewhere known found (Or.inl registered)

/-- The current process blocks on a terminal or is delayed. -/
theorem block {kc : KernelContext} {tty : TtyId} {queue : QueueId} {kept kept' : Bool}
    (inv : Waits s) (blocking : queue = .readers tty ∨ queue = .writers tty)
    (h : Dispatch kc ((s.push kept queue s.current).push kept' .blocked s.current) s')
    (outside : kc.isWait = false) : Waits s' := by
  have prepared : Waits ((s.push kept queue s.current).push kept' .blocked s.current) := by
    refine inv.prepare ?_ rfl rfl ?_ ?_ ?_
    · refine Steady.trans ?_ (Steady.push_blocked kept') rfl
      rcases blocking with rfl | rfl
      · exact Steady.setQueue _ (by simp) (by simp)
      · exact Steady.setQueue _ (by simp) (by simp)
    · rcases blocking with rfl | rfl
      · simp
      · simp
    · exact fun p b' found => ⟨b', found, rfl, fun _ => le_refl _⟩
    · intro p other
      have queued := ttyEntries_push (s := s) (p := p) (q := s.current) kept blocking
      have blocked : ((s.push kept queue s.current).push kept' .blocked s.current).ttyEntries p =
          (s.push kept queue s.current).ttyEntries p := ttyEntries_setQueue _ (by simp) (by simp)
      rw [same_of_ne (Ne.symm other)] at queued
      omega
  exact prepared.dispatch h fun inWait => by simp [outside] at inWait

theorem shift (inv : Waits s) (known : Registered env s) (move : Shift env limits s s') :
    Waits s' := by
  cases move with
  | toUser =>
      refine inv.carry rfl rfl (fun inKernel => by cases inKernel) ?_ ?_ ?_ ?_
      · exact fun p b' found inWait => ⟨b', found, inWait, rfl, fun _ => le_refl _⟩
      · exact fun p _ => Nat.le_refl _
      · exact fun p member => Or.inl member
      · exact fun pid zombie => zombie
  | @tick q b live delayed =>
      refine inv.prepare (Steady.setProc live ⟨rfl, rfl, rfl, rfl⟩ (Or.inl rfl)) rfl rfl rfl ?_
        fun p _ => Nat.le_refl _
      intro p b' found
      by_cases equal : p = q
      · subst equal
        rw [setProc_procs, Function.update_self, Option.some.injEq] at found
        subst found
        exact ⟨b, live, rfl, fun _ => Int.sub_le_self _ Int.one_nonneg⟩
      · rw [setProc_procs, Function.update_of_ne equal] at found
        exact ⟨b', found, rfl, fun _ => le_refl _⟩
  | @wakeDelayed q b k live delayed =>
      have ended : Steady PlainContext s (s.setProc q { b with delayTicks := 0 }) :=
        Steady.setProc live ⟨rfl, rfl, rfl, rfl⟩ (Or.inl rfl)
      have procs : ∀ p b', (s.setProc q { b with delayTicks := 0 }).procs p = some b' →
          ∃ c, s.procs p = some c ∧ b'.kernelContext = c.kernelContext ∧
            b'.delayTicks ≤ c.delayTicks := by
        intro p b' found
        by_cases equal : p = q
        · subst equal
          rw [setProc_procs, Function.update_self, Option.some.injEq] at found
          subst found
          refine ⟨b, live, rfl, ?_⟩
          rw [delayed]
          exact Int.one_nonneg
        · rw [setProc_procs, Function.update_of_ne equal] at found
          exact ⟨b', found, rfl, le_refl _⟩
      have prepared : Waits ((s.setProc q { b with delayTicks := 0 }).remove .blocked q) := by
        refine inv.prepare (ended.trans Steady.remove_blocked rfl) rfl rfl (by simp) ?_ ?_
        · intro p b' found
          obtain ⟨c, was, kc, delay⟩ := procs p b' found
          exact ⟨c, was, kc, fun _ => delay⟩
        · intro p _
          rw [remove, ttyEntries_setQueue _ (by simp) (by simp), ttyEntries_setProc]
      apply prepared.push_ready
      intro c found
      obtain ⟨d, was, kc, -⟩ := procs q c found
      obtain rfl : d = b := Option.some.inj (was.symm.trans live)
      rw [kc]
      exact inv.elsewhere known live (Or.inr (by omega))
  | @wakeReader tty q b rest k live queue =>
      have popped : ∀ p, _ = s.ttyEntries p := fun p =>
        ttyEntries_pop (p := p) (Or.inl (rfl : _ = QueueId.readers tty)) queue
      have registered := popped q
      rw [same_self] at registered
      refine inv.wake known _ (by omega)
        ((Steady.setQueue rest (by simp) (by simp)).trans Steady.remove_blocked rfl) rfl rfl
        (by simp) rfl ?_
      intro p
      have before := popped p
      rw [remove, ttyEntries_setQueue _ (by simp) (by simp)]
      omega
  | @wakeWriter tty q b rest k live queue =>
      have popped : ∀ p, _ = s.ttyEntries p := fun p =>
        ttyEntries_pop (p := p) (Or.inr (rfl : _ = QueueId.writers tty)) queue
      have registered := popped q
      rw [same_self] at registered
      refine inv.wake known _ (by omega)
        ((Steady.setQueue rest (by simp) (by simp)).trans Steady.remove_blocked rfl) rfl rfl
        (by simp) rfl ?_
      intro p
      have before := popped p
      rw [remove, ttyEntries_setQueue _ (by simp) (by simp)]
      omega
  | @wakeWriterBlocked tty q b rest k k' failed live queue =>
      have popped : ∀ p, _ = s.ttyEntries p := fun p =>
        ttyEntries_pop (p := p) (Or.inr (rfl : _ = QueueId.writers tty)) queue
      have registered := popped q
      rw [same_self] at registered
      refine inv.wake known _ (by omega) (Steady.setQueue rest (by simp) (by simp)) rfl rfl
        (by simp) rfl ?_
      intro p
      have before := popped p
      omega
  | @wakeWriting tty q b k live writer =>
      have cleared : ∀ p, _ = s.ttyEntries p := fun p => ttyEntries_clearWriter (p := p) writer
      have registered := cleared q
      rw [same_self] at registered
      refine inv.wake known _ (by omega)
        ((Steady.setWriter tty none).trans Steady.remove_blocked rfl) rfl rfl (by simp) rfl ?_
      intro p
      have before := cleared p
      rw [remove, ttyEntries_setQueue _ (by simp) (by simp)]
      omega
  | @delay _ b ticks k allowed user busy live switch =>
      have delayed : Steady PlainContext s (s.setProc s.current { b with delayTicks := ticks }) :=
        Steady.setProc live ⟨rfl, rfl, rfl, rfl⟩ (Or.inl rfl)
      have prepared : Waits ((s.setProc s.current { b with delayTicks := ticks }).push
          (env.mallocOk k) .blocked s.current) := by
        refine inv.prepare (delayed.trans (Steady.push_blocked _) rfl) rfl rfl (by simp) ?_ ?_
        · intro p b' found
          by_cases equal : p = s.current
          · subst equal
            rw [push_procs, setProc_procs, Function.update_self, Option.some.injEq] at found
            subst found
            exact ⟨b, live, rfl, fun other => absurd rfl other⟩
          · rw [push_procs, setProc_procs, Function.update_of_ne equal] at found
            exact ⟨b', found, rfl, fun _ => le_refl _⟩
        · intro p _
          exact Nat.le_of_eq (ttyEntries_setQueue _ (by simp) (by simp))
      exact prepared.dispatch switch fun inWait => by cases inWait
  | blockReader allowed user busy switch => exact inv.block (Or.inl rfl) switch rfl
  | blockWriter allowed user busy switch => exact inv.block (Or.inr rfl) switch rfl
  | @blockWriting _ tty len k allowed switch =>
      have prepared : Waits ((s.setWriter tty (some s.current)).push (env.mallocOk k) .blocked
          s.current) := by
        refine inv.prepare ((Steady.setWriter _ _).trans (Steady.push_blocked _) rfl) rfl rfl
          (by simp) ?_ ?_
        · exact fun p b' found => ⟨b', found, rfl, fun _ => le_refl _⟩
        · intro p other
          have written := ttyEntries_setWriter (s := s) (p := p) (q := s.current) tty
          rw [same_of_ne (Ne.symm other)] at written
          rw [push, ttyEntries_setQueue _ (by simp) (by simp)]
          exact written
      exact prepared.dispatch switch fun inWait => by cases inWait
  | @blockWait _ b statusPtr user busy live childless switch =>
      have prepared : Waits (s.setProc s.current { b with waitingForChildPid := 1 }) := by
        refine inv.prepare (Steady.setProc live ⟨rfl, rfl, rfl, rfl⟩ (Or.inl rfl)) rfl rfl rfl ?_
          fun p _ => Nat.le_refl _
        intro p b' found
        by_cases equal : p = s.current
        · subst equal
          rw [setProc_procs, Function.update_self, Option.some.injEq] at found
          subst found
          exact ⟨b, live, rfl, fun _ => le_refl _⟩
        · rw [setProc_procs, Function.update_of_ne equal] at found
          exact ⟨b', found, rfl, fun _ => le_refl _⟩
      refine prepared.dispatch switch fun _ => ?_
      -- the process that runs is registered nowhere else
      have once := known.once s.current busy
      simp only [registrations, live, pcbEntries, Proc.entries, same_self] at once
      refine ⟨busy, user, ?_, ?_, ?_⟩
      · intro member
        have counted : 0 < (s.queues .ready).count s.current := List.count_pos_iff.mpr member
        omega
      · rw [setProc_current, ttyEntries_setProc]
        omega
      · intro c found
        rw [setProc_procs, setProc_current, Function.update_self, Option.some.injEq] at found
        subst found
        by_contra ticking
        have counted : b.delayed = 1 := if_pos (not_le.mp ticking)
        omega
  | @preempt b n q rest kept user live ready next =>
      have popped : Steady (fun _ => True) s (s.setQueue .ready rest) :=
        Steady.setQueue rest (by simp) (by simp)
      have switched : Steady (fun _ => True) s ((s.setQueue .ready rest).setProc s.current
          { b with kernelContext := .clockTrap }) :=
        popped.trans (Steady.setProc live ⟨rfl, rfl, rfl, rfl⟩ (Or.inr ⟨rfl, trivial⟩)) rfl
      have saved : Waits ((s.setQueue .ready rest).setProc s.current
          { b with kernelContext := .clockTrap }) :=
        (inv.pop_ready ready).save (fun inWait => by cases inWait) live ⟨rfl, rfl, rfl, rfl⟩
      have outside : ∀ c, ((s.setQueue .ready rest).setProc s.current
          { b with kernelContext := .clockTrap }).procs s.current = some c →
          c.kernelContext.isWait = false := by
        intro c found
        rw [setProc_procs, Function.update_self, Option.some.injEq] at found
        rw [← found]
        rfl
      refine (saved.push_ready kept outside).enter ?_ ?_
      · intro c found inWait
        exact absurd (outside c found) (by simp [inWait])
      · intro c found inWait
        by_cases equal : q = s.current
        · subst equal
          exact absurd (outside c found) (by simp [inWait])
        · rw [push_procs, setProc_procs, Function.update_of_ne equal] at found
          have zombie := inv.woken q c found inWait
            (Or.inl (by rw [ready]; exact List.mem_cons_self))
          exact zombie.steady (switched.trans (Steady.push_ready kept) rfl)

/-- The exit of a child leaves a zombie for the parent it wakes. -/
theorem exit {b : Proc} {woken : Sched} {status : Int} {kc : KernelContext} (inv : Waits s)
    (family : Family env s) (live : s.procs s.current = some b) (isExit : kc.isExit = true)
    (wake : WakeParent env (s.zombified b status true) b.parent woken)
    (switch : Dispatch kc woken s') : Waits s' := by
  have zombified : ∀ pid, s.HasZombie pid → (s.zombified b status true).HasZombie pid := by
    rintro pid ⟨z, member, c, found, child⟩
    have listed : z ∈ (s.zombified b status true).queues .zombie := by
      simp [member]
    by_cases equal : z = s.current
    · subst equal
      obtain rfl : c = b := Option.some.inj (found.symm.trans live)
      exact ⟨_, listed, _, Function.update_self .., child⟩
    · exact ⟨z, listed, c, by rw [zombified_procs, Function.update_of_ne equal, found], child⟩
  have steady : Steady PlainContext (s.zombified b status true) woken := wake.steady
  have procs : ∀ p b', woken.procs p = some b' → ∃ c, s.procs p = some c ∧
      b'.kernelContext = c.kernelContext ∧ b'.pid = c.pid ∧ b'.delayTicks = c.delayTicks := by
    have before : ∀ p b', (s.zombified b status true).procs p = some b' →
        ∃ c, s.procs p = some c ∧ b'.kernelContext = c.kernelContext ∧ b'.pid = c.pid ∧
          b'.delayTicks = c.delayTicks := by
      intro p b' found
      by_cases equal : p = s.current
      · subst equal
        rw [zombified_procs, Function.update_self, Option.some.injEq] at found
        subst found
        exact ⟨b, live, rfl, rfl, rfl⟩
      · rw [zombified_procs, Function.update_of_ne equal] at found
        exact ⟨b', found, rfl, rfl, rfl⟩
    intro p b' found
    generalize parent : b.parent = q at wake
    cases wake with
    | noParent => exact before p b' found
    | notWaiting => exact before p b' found
    | @waiting q d k parentLive flag =>
        by_cases equal : p = q
        · subst equal
          rw [push_procs, setProc_procs, Function.update_self, Option.some.injEq] at found
          subst found
          exact before p d parentLive
        · rw [push_procs, setProc_procs, Function.update_of_ne equal] at found
          exact before p b' found
  have prepared : Waits woken := by
    refine inv.carry wake.current_eq steady.idleProc ?_ ?_ ?_ ?_ ?_
    · intro inKernel
      have mode : woken.mode = s.mode := by
        generalize b.parent = q at wake
        cases wake with
        | noParent => rfl
        | notWaiting => rfl
        | waiting => rfl
      rw [← mode]
      exact inKernel
    · intro p b' found inWait
      obtain ⟨c, was, same, pid, delay⟩ := procs p b' found
      exact ⟨c, was, by rw [← same]; exact inWait, pid, fun _ => le_of_eq delay⟩
    · intro p _
      have first : (s.zombified b status true).ttyEntries p = s.ttyEntries p := by
        rw [Sched.zombified, ttyEntries_log, ttyEntries_setProc]
        exact ttyEntries_setQueue _ (by simp) (by simp)
      rw [← first]
      generalize parent : b.parent = q at wake
      cases wake with
      | noParent => exact Nat.le_refl _
      | notWaiting => exact Nat.le_refl _
      | waiting => exact Nat.le_of_eq (ttyEntries_setQueue _ (by simp) (by simp))
    · intro p member
      generalize parent : b.parent = q at wake
      cases wake with
      | noParent => exact Or.inl (by simpa using member)
      | notWaiting => exact Or.inl (by simpa using member)
      | @waiting q d k parentLive flag =>
          by_cases equal : p = q
          · -- the exiting process is the zombie its parent will find
            subst equal
            refine Or.inr fun c found _ => ?_
            have ppid : b.ppid = c.pid := by
              rw [family.parents _ b p live (Or.inl parent), family.pids p c found]
            have there : (s.zombified b status true).HasZombie c.pid :=
              ⟨s.current, by simp, _, Function.update_self .., ppid⟩
            exact there.steady steady
          · refine Or.inl ?_
            rw [push_queues, Function.update_self] at member
            split at member
            · simpa [equal] using member
            · simpa using member
    · exact fun pid zombie => (zombified pid zombie).steady steady
  apply prepared.dispatch switch
  intro inWait
  cases kc with
  | exit => cases inWait
  | _ => cases isExit

theorem fork {b : Proc} {inReady inChildren : Bool} (inv : Waits s) (known : Registered env s) :
    Waits (s.spawn env b inReady inChildren) := by
  have absent := known.fresh s.nextPcb (Nat.le_refl _)
  have old : ∀ p c, s.procs p = some c → (s.spawn env b inReady inChildren).procs p = some c := by
    intro p c found
    have other : p ≠ s.nextPcb := by
      rintro rfl
      rw [absent] at found
      cases found
    rw [spawn_procs, Function.update_of_ne other, found]
  refine inv.carry rfl rfl id ?_ ?_ ?_ ?_
  · intro p b' found inWait
    by_cases equal : p = s.nextPcb
    · subst equal
      rw [spawn_procs, Function.update_self, Option.some.injEq] at found
      subst found
      cases inWait
    · rw [spawn_procs, Function.update_of_ne equal] at found
      exact ⟨b', found, inWait, rfl, fun _ => le_refl _⟩
  · intro p _
    rw [spawn, ttyEntries_log, push, ttyEntries_setQueue _ (by simp) (by simp), push,
      ttyEntries_setQueue _ (by simp) (by simp), ttyEntries_setQueue _ (by simp) (by simp),
      ttyEntries_setProc]
    exact Nat.le_refl _
  · intro p member
    by_cases equal : p = s.nextPcb
    · subst equal
      refine Or.inr fun c found _ => ?_
      rw [absent] at found
      cases found
    · refine Or.inl ?_
      rcases inReady with _ | _
      · simpa using member
      · simpa [equal] using member
  · rintro pid ⟨z, member, c, found, child⟩
    exact ⟨z, by simpa using member, c, old z c found, child⟩

/-- Reaping takes no zombie that another process was woken for. -/
theorem reap (pids : env.PidsDistinct) (inv : Waits s) (known : Registered env s)
    (family : Family env s) {b c : Proc} {z : PcbPtr} {statusPtr : Word}
    (live : s.procs s.current = some b) (dead : s.procs z = some c) (child : c.ppid = b.pid) :
    Waits (((((s.remove (.children s.current) z).remove .zombie z).delete z).log
      (.waitReturned s.current statusPtr c.pid)).toUser) := by
  set u := (((((s.remove (.children s.current) z).remove .zombie z).delete z).log
    (.waitReturned s.current statusPtr c.pid)).toUser) with uEq
  have was : ∀ p d', u.procs p = some d' → p ≠ z ∧ ∃ d, s.procs p = some d ∧ d'.pid = d.pid ∧
      d'.kernelContext = d.kernelContext ∧ d'.delayTicks = d.delayTicks := by
    intro p d' found
    by_cases equal : p = z
    · subst equal
      simp [uEq] at found
    · refine ⟨equal, ?_⟩
      simp only [uEq, toUser_procs, log_procs, delete_procs, remove_procs,
        Function.update_of_ne equal] at found
      split at found
      · obtain ⟨d, before, rfl⟩ := Option.map_eq_some_iff.mp found
        exact ⟨d, before, rfl, rfl, rfl⟩
      · exact ⟨d', found, rfl, rfl, rfl⟩
  constructor
  case idle =>
    intro d' found
    obtain ⟨-, d, before, -, kc, -⟩ := was _ d' found
    rw [kc]
    exact inv.idle d before
  case clean =>
    intro p d' other found inWait
    obtain ⟨-, d, before, -, kc, delay⟩ := was p d' found
    have tty : u.ttyEntries p = s.ttyEntries p := by
      rw [uEq, ttyEntries_toUser, ttyEntries_log, delete, ttyEntries_free,
        ttyEntries_setQueue _ (by simp) (by simp), ttyEntries_orphan, remove,
        ttyEntries_setQueue _ (by simp) (by simp), remove,
        ttyEntries_setQueue _ (by simp) (by simp)]
    rw [tty, delay]
    exact inv.clean p d other before (by rw [← kc]; exact inWait)
  case woken =>
    intro p d' found inWait runs
    obtain ⟨-, d, before, pid, kc, -⟩ := was p d' found
    have waiting : d.kernelContext.isWait = true := by rw [← kc]; exact inWait
    rcases runs with member | ⟨-, inKernel⟩
    · have ready : p ∈ s.queues .ready := by simpa [uEq] using member
      obtain ⟨y, zombie, e, there, ppid⟩ := inv.woken p d before waiting (Or.inl ready)
      -- the process that runs is not ready, so that the other's zombie is another one
      have other : p ≠ s.current := by
        rintro rfl
        by_cases idle : s.current = s.idleProc
        · rw [idle] at before
          rw [inv.idle d before] at waiting
          cases waiting
        · have once := known.once s.current idle
          have counted : 0 < (s.queues .ready).count s.current := List.count_pos_iff.mpr ready
          simp only [registrations, same_self] at once
          omega
      have different : y ≠ z := by
        rintro rfl
        obtain rfl : e = c := Option.some.inj (there.symm.trans dead)
        rw [child, family.pids _ b live, family.pids p d before] at ppid
        exact other (pids.injective ppid).symm
      have stays : ∃ e', u.procs y = some e' ∧ e'.ppid = e.ppid := by
        simp only [uEq, toUser_procs, log_procs, delete_procs, remove_procs,
          Function.update_of_ne different, there]
        split
        · exact ⟨_, rfl, rfl⟩
        · exact ⟨_, rfl, rfl⟩
      obtain ⟨e', there', same⟩ := stays
      refine ⟨y, ?_, e', there', by rw [same, ppid, pid]⟩
      have listed : y ∈ (s.queues .zombie).erase z := (List.mem_erase_of_ne different).mpr zombie
      simpa [uEq] using listed
    · cases inKernel

theorem log (inv : Waits s) (e : Event) : Waits (s.log e) :=
  ⟨inv.idle, inv.clean, inv.woken⟩

theorem toUser (inv : Waits s) : Waits s.toUser where
  idle := inv.idle
  clean := inv.clean
  woken := by
    intro p b found inWait runs
    rcases runs with member | ⟨-, inKernel⟩
    · exact inv.woken p b found inWait (Or.inl member)
    · cases inKernel

theorem booted {ready : Bool} : Waits (booted env ready) := by
  have outside : ∀ p b, (Sched.booted env ready).procs p = some b →
      b.kernelContext.isWait = false := by
    intro p b found
    rw [booted_procs] at found
    split at found
    · cases found
      rfl
    · split at found
      · cases found
        rfl
      · cases found
  constructor
  case idle => exact fun b found => outside _ b found
  case clean => exact fun p b _ found inWait => absurd inWait (by simp [outside p b found])
  case woken => exact fun p b found inWait => absurd inWait (by simp [outside p b found])

/-- Every move wakes a process inside `Wait` only with a zombie for it. -/
theorem move (pids : env.PidsDistinct) (exits : ∀ {t ok}, limits.exit t ok → ok = true)
    (known : Registered env s) (family : Family env s) (inv : Waits s)
    (move : Move env limits s s') : Waits s' := by
  cases move with
  | shift moved => exact inv.shift known moved
  | exit allowed user busy live notInit wake switch =>
      rw [exits allowed] at wake
      exact inv.exit family live rfl wake switch
  | fork allowed user busy live other => exact inv.fork known
  | @childReturn b q child parent inKernel live saved parentLive pidsDiffer =>
      have outside : b.kernelContext.isWait = false := by rw [saved]; rfl
      have returned : Waits (s.setProc s.current { b with parent := some parent }) := by
        refine inv.carry rfl rfl id ?_ (fun p _ => Nat.le_refl _) (fun p => Or.inl) ?_
        · intro p b' found inWait
          by_cases equal : p = s.current
          · subst equal
            rw [setProc_procs, Function.update_self, Option.some.injEq] at found
            subst found
            exact absurd inWait (by simp [outside])
          · rw [setProc_procs, Function.update_of_ne equal] at found
            exact ⟨b', found, inWait, rfl, fun _ => le_refl _⟩
        · rintro pid ⟨z, member, c, found, ppid⟩
          by_cases equal : z = s.current
          · subst equal
            obtain rfl : c = b := Option.some.inj (found.symm.trans live)
            exact ⟨_, member, _, Function.update_self .., ppid⟩
          · exact ⟨z, member, c, by rw [setProc_procs, Function.update_of_ne equal, found], ppid⟩
      exact returned.toUser
  | @forkAgain b q c child parent k k' inKernel live saved parentLive childLive same =>
      exact absurd same (known.child_apart live saved parentLive)
  | reap allowed live zombie dead child => exact inv.reap pids known family live dead child
  | noChildren allowed user busy empty => exact inv.log _
  | noZombie allowed inKernel live saved childless => exact (inv.log _).toUser

end Waits

/-- What the exits, forks and waits of a run keep. -/
structure Reapable (env : Env) (s : Sched) : Prop where
  registered : Registered env s
  family : Family env s
  waits : Waits s
  table : s.ptbr1 = s.current

theorem Reapable.moves {env : Env} {limits : Limits} {s s' : Sched} (pids : env.PidsDistinct)
    (exits : ∀ {t ok}, limits.exit t ok → t.ParentFlagWritten ∧ ok = true)
    (forks : ∀ {ok}, limits.fork ok → ok = true) (inv : Reapable env s)
    (run : Moves env limits s s') : Reapable env s' := by
  induction run with
  | refl => exact inv
  | tail _ move inductionHypothesis =>
      obtain ⟨registered, family, waits, table⟩ := inductionHypothesis
      exact ⟨registered.move pids.injective (fun allowed => (exits allowed).1) move,
        family.move pids forks registered move,
        waits.move pids (fun allowed => (exits allowed).2) registered family move,
        move.table table⟩

theorem reapable_booted {env : Env} {ready : Bool} : Reapable env (booted env ready) :=
  ⟨registered_booted, family_booted, Waits.booted, rfl⟩

/-- Moves that run no `Wait` record no return from it. -/
theorem Moves.unreturned {env : Env} {limits : Limits} {s s' : Sched}
    (unreaped : ∀ t z, ¬ limits.reap t z) (unfailed : ¬ limits.fail) (run : Moves env limits s s')
    (p : PcbPtr) (statusPtr : Word) (rc : Int) :
    s'.history.count (.waitReturned p statusPtr rc) =
      s.history.count (.waitReturned p statusPtr rc) := by
  induction run with
  | refl => rfl
  | tail _ move inductionHypothesis =>
      rw [← inductionHypothesis]
      cases move with
      | shift moved => rw [moved.steady.history]
      | exit allowed user busy live notInit wake switch =>
          have woken : Steady PlainContext _ _ := wake.steady
          rw [switch.history, woken.history, zombified_history, List.count_append]
          simp
      | fork => simp
      | childReturn => rfl
      | forkAgain => simp
      | reap allowed => exact absurd allowed (unreaped _ _)
      | noChildren allowed => exact absurd allowed unfailed
      | noZombie allowed => exact absurd allowed unfailed

end Sched

/-! ### The system call -/

namespace Kernel

open Transition

variable {env : Env} {cfg : BootConfig} {boot s s' t : Kernel}

theorem orphanChildren_table {children : List PcbPtr} (p : PcbPtr)
    (h : orphanChildren children s = .ok s') :
    s'.mem = s.mem ∧ (s'.heap p).map PCB.ptbr = (s.heap p).map PCB.ptbr := by
  induction children generalizing s with
  | nil =>
      cases h
      exact ⟨rfl, rfl⟩
  | cons child rest inductionHypothesis =>
      simp only [orphanChildren, bind_eq_ok, modifyPcb_eq_ok] at h
      obtain ⟨_, ⟨b, live, rfl⟩, h⟩ := h
      obtain ⟨mem, table⟩ := inductionHypothesis h
      refine ⟨mem, table.trans ?_⟩
      by_cases same : p = child
      · subst same
        simp [live]
      · simp [same]

theorem deletePCB_table {p z : PcbPtr} (other : p ≠ z) (h : s.deletePCB z = .ok s') :
    s'.mem = s.mem ∧ (s'.heap p).map PCB.ptbr = (s.heap p).map PCB.ptbr := by
  simp only [deletePCB, bind_eq_ok, pure_eq_ok] at h
  obtain ⟨-, -, u, orphaned, rfl⟩ := h
  obtain ⟨mem, table⟩ := orphanChildren_table p orphaned
  refine ⟨mem, ?_⟩
  simp only [setQueue_heap, Function.update_of_ne other]
  exact table

theorem intBytes_length (value : Int) : (intBytes value).length = 4 := by
  simp [intBytes]

/-- How a `Wait` of the current process came back with `rc`. -/
inductive WaitOutcome (s s' : Kernel) (statusPtr : Word) (rc : Int) : Prop where
  | noChildren {b : Proc} (failed : rc = Status.error.code)
      (live : s.sched.procs s.currentProcess = some b)
      (empty : s.queues (.children s.currentProcess) = [])
  | noZombie {b : Proc} (failed : rc = Status.error.code) (inKernel : s.mode = .kernel)
      (live : s.sched.procs s.currentProcess = some b) (saved : b.kernelContext.isWait = true)
      (childless : s.sched.NoZombieChild b.pid)
  | child {z : PcbPtr} {b c : Proc} (live : s.sched.procs s.currentProcess = some b)
      (zombie : z ∈ s.queues .zombie) (dead : s.sched.procs z = some c) (parent : c.ppid = b.pid)
      (pid : rc = c.pid)
      (stored : s.ptbr1 = s.currentProcess → s.currentProcess ≠ z → statusPtr ≠ 0 →
        s'.userBytes s.currentProcess statusPtr 4 = intBytes c.exitStatus)

/-- A scan of `Wait` that finds a child stores the status of that child. -/
theorem waitScan_found {statusPtr : Word} {rc : Int} (h : s.waitScan statusPtr = .ok (some rc, t)) :
    t.sched.history = s.sched.history ∧ t.currentProcess = s.currentProcess ∧
      WaitOutcome s t statusPtr rc := by
  have view : t.sched.history = s.sched.history ∧ t.sched.current = s.sched.current := by
    rcases waitScan_sched h with ⟨z, b, c, -, -, -, -, -, -, reaped⟩ | ⟨unchanged, -⟩
    · simp only at reaped
      rw [reaped]
      exact ⟨rfl, rfl⟩
    · cases unchanged
  simp only [waitScan, bind_eq_ok, deref_eq_ok] at h
  obtain ⟨b, live, found, scanned, h⟩ := h
  rcases found with _ | z
  · cases h
  · simp only [bind_eq_ok, pure_eq_ok, Prod.mk.injEq, Option.some.injEq] at h
    obtain ⟨⟨pid, u⟩, reaped, rfl, rfl⟩ := h
    obtain ⟨member, c, zombie, child⟩ := findZombieChild_some scanned
    obtain ⟨c', v, zombie', rfl, stored, deleted⟩ := reap_eq_ok reaped
    obtain rfl : c' = c := Option.some.inj (zombie'.symm.trans zombie)
    refine ⟨view.1, view.2, .child (b := b.proc) (c := c'.proc) (procs_of_heap live) member
      (procs_of_heap zombie) child rfl ?_⟩
    intro table other given
    rcases stored with ⟨-, stored⟩ | ⟨none, -⟩
    · obtain ⟨mem, same⟩ := deletePCB_table other deleted
      have written := storeUser_userBytes (by rw [intBytes_length]; decide) stored
      rw [intBytes_length, table] at written
      exact (userBytes_congr mem same).trans written
    · exact absurd none given

/-- Returning to user mode keeps what was stored. -/
theorem finishWait_outcome {statusPtr : Word} {rc : Int} (h : t.finishWait statusPtr rc = .ok s')
    (view : t.sched.history = s.sched.history) (current : t.currentProcess = s.currentProcess)
    (outcome : WaitOutcome s t statusPtr rc) :
    s'.sched.history = s.sched.history ++ [.waitReturned s.currentProcess statusPtr rc] ∧
      WaitOutcome s s' statusPtr rc := by
  constructor
  · rw [finishWait_sched h, ← current, ← view]
    rfl
  · have same : ∀ p va n, s'.userBytes p va n = t.userBytes p va n := by
      obtain ⟨b, -, rfl⟩ := returnToUser_eq_ok.mp h
      exact fun _ _ _ => rfl
    cases outcome with
    | noChildren failed live empty => exact .noChildren failed live empty
    | noZombie failed inKernel live saved childless =>
        exact .noZombie failed inKernel live saved childless
    | child live zombie dead parent pid stored =>
        refine .child live zombie dead parent pid ?_
        intro table other given
        rw [same]
        exact stored table other given

theorem trapWait_outcome (h : s.trapWait = .ok s') : s'.sched.history = s.sched.history ∨
    ∃ rc, s'.sched.history =
        s.sched.history ++ [.waitReturned s.currentProcess (s.ctx.regs 0) rc] ∧
      WaitOutcome s s' (s.ctx.regs 0) rc := by
  simp only [trapWait, bind_eq_ok] at h
  obtain ⟨t, saved, result, waited, h⟩ := h
  have view := sched_saveContext saved
  have current : t.currentProcess = s.currentProcess := congrArg Sched.current view
  have queues : t.queues = s.queues := congrArg Sched.queues view
  unfold wait at waited
  by_cases empty : t.isEmpty (.children t.currentProcess) = true
  · rw [if_pos empty] at waited
    cases waited
    have childless : s.queues (.children s.currentProcess) = [] := by
      rw [← queues, ← current]
      simpa [isEmpty] using empty
    obtain ⟨b, live, -⟩ := saveContext_eq_ok.mp saved
    refine Or.inr ⟨_, finishWait_outcome h (by rw [view]) current ?_⟩
    exact .noChildren rfl (procs_of_heap live) childless
  · rw [if_neg empty] at waited
    simp only [bind_eq_ok] at waited
    obtain ⟨⟨found, u⟩, scanned, waited⟩ := waited
    rcases found with _ | rc
    · -- the call blocks
      rcases waitScan_sched scanned with
        ⟨z, b, c, -, -, -, -, -, none, -⟩ | ⟨unchanged, -⟩
      · cases none
      · obtain ⟨-, rfl⟩ := Prod.mk.inj unchanged
        simp only [bind_eq_ok, modifyPcb_eq_ok, pure_eq_ok] at waited
        obtain ⟨_, ⟨d, live, rfl⟩, v, switched, rfl⟩ := waited
        cases h
        have kept := (dispatch_sched switched).history
        rw [sched_setPcb, Sched.setProc_history, view] at kept
        exact Or.inl kept
    · cases waited
      obtain ⟨history, still, outcome⟩ := waitScan_found scanned
      refine Or.inr ⟨rc, finishWait_outcome h (by rw [history, view]) (still.trans current) ?_⟩
      cases outcome with
      | noChildren failed live empty =>
          rw [view, current] at live
          exact .noChildren failed live (by rw [← queues, ← current]; exact empty)
      | noZombie failed inKernel live saved childless =>
          rw [view, current] at live
          rw [view] at childless
          exact .noZombie failed ((congrArg Sched.mode view).symm.trans inKernel) live saved
            childless
      | child live zombie dead parent pid stored =>
          rw [view, current] at live
          rw [view] at dead
          rw [queues] at zombie
          rw [current] at stored
          refine .child live zombie dead parent pid ?_
          intro table
          exact stored ((congrArg Sched.ptbr1 view).trans table)

theorem resumeWait_outcome {c : PCB} {statusPtr : Word} (live : s.heap s.currentProcess = some c)
    (saved : c.kernelContext = .wait statusPtr) (inKernel : s.mode = .kernel)
    (h : s.resume env = .ok s') : ∃ rc, s'.sched.history =
        s.sched.history ++ [.waitReturned s.currentProcess statusPtr rc] ∧
      WaitOutcome s s' statusPtr rc := by
  simp only [resume, bind_eq_ok, deref_eq_ok] at h
  obtain ⟨c', live', h⟩ := h
  obtain rfl : c' = c := Option.some.inj (live'.symm.trans live)
  simp only [saved, waitResumed, bind_eq_ok] at h
  obtain ⟨⟨rc, t⟩, ⟨⟨found, u⟩, scanned, returned⟩, h⟩ := h
  rcases found with _ | pid
  · cases returned
    rcases waitScan_sched scanned with
      ⟨z, b, d, -, -, -, -, -, none, -⟩ | ⟨unchanged, b, current, childless⟩
    · cases none
    · obtain ⟨-, rfl⟩ := Prod.mk.inj unchanged
      obtain rfl : b = c'.proc := Option.some.inj (current.symm.trans (procs_of_heap live))
      refine ⟨_, finishWait_outcome h rfl rfl (.noZombie rfl inKernel current ?_ childless)⟩
      simp [PCB.proc, saved, KernelContext.isWait]
  · cases returned
    obtain ⟨history, still, outcome⟩ := waitScan_found scanned
    exact ⟨_, finishWait_outcome h history still outcome⟩

/-- The queue nodes that keep a zombie for its parent, and a child for its own, find memory, and
nobody exits whose parent still has its initial flag.  The sixth allocation of `Fork` is the node in
the children queue; the first one of `Exit` is the node in the zombie queue. -/
structure FamilyKept (env : Env) (s : Kernel) (i : Input) : Prop where
  exit : s.CallsExit i → s.ParentFlagWritten ∧ env.mallocOk s.mallocCalls = true
  fork : Calls yalnixFork i → env.mallocOk (s.mallocCalls + 5) = true

/-- The restrictions that `FamilyKept` puts on a step. -/
def familyLimits : Limits where
  exit := fun t ok => t.ParentFlagWritten ∧ ok = true
  fork := fun ok => ok = true
  reap := fun _ _ => True
  fail := True
  delay := True
  tty := True

theorem FamilyKept.allows {i : Input} (guard : FamilyKept env s i) :
    familyLimits.Allows env s i where
  exit := fun calls => ⟨(guard.exit calls).1.sched, (guard.exit calls).2⟩
  fork := guard.fork
  reap := fun _ _ => trivial
  fail := fun _ => trivial
  delay := fun _ => trivial
  tty := fun _ => trivial

theorem reapable_reaches (pids : env.PidsDistinct) (started : kernelStart env cfg = .ok boot)
    (run : Reaches (Guarded (Step env) (FamilyKept env)) boot s) :
    Sched.Reapable env s.sched := by
  have start : Sched.Reapable env boot.sched := by
    obtain ⟨ready, view⟩ := kernelStart_sched started
    rw [view]
    exact Sched.reapable_booted
  refine run.invariant (P := fun s => Sched.Reapable env s.sched) ?_ start
  intro s i t inv guarded
  exact inv.moves pids id id
    (deliver_moves (fresh_of_registered inv.registered) guarded.1.allows guarded.2)

/-- A step that records one more return from `Wait` is one that runs it. -/
theorem step_outcome {i : Input} {p : PcbPtr} {statusPtr : Word} {rc : Int}
    (fresh : s.heap s.nextPcb = none) (step : s.Step env i s')
    (returned : s.history.count (.waitReturned p statusPtr rc) <
      s'.history.count (.waitReturned p statusPtr rc)) :
    p = s.currentProcess ∧ WaitOutcome s s' statusPtr rc := by
  have counted : ∀ u : Kernel, u.sched.history.count (.waitReturned p statusPtr rc) =
      u.history.count (.waitReturned p statusPtr rc) := fun u => List.count_filter rfl
  rw [← counted, ← counted] at returned
  have appended : ∀ ptr code, s'.sched.history =
      s.sched.history ++ [.waitReturned s.currentProcess ptr code] →
      WaitOutcome s s' ptr code → p = s.currentProcess ∧ WaitOutcome s s' statusPtr rc := by
    intro ptr code history outcome
    rw [history, List.count_append, List.count_singleton] at returned
    split at returned
    · rename_i same
      obtain ⟨rfl, rfl, rfl⟩ := Event.waitReturned.inj (beq_iff_eq.mp same)
      exact ⟨rfl, outcome⟩
    · omega
  by_cases runs : s.RunsWait i
  · cases i with
    | kernelTrap ctx req =>
        have code : ctx.code = yalnixWait := runs
        have h : (s.trap ctx).trapWait = .ok s' := by
          have delivered := step.2
          simpa [deliver, kernelTrapHandler, trap, code] using delivered
        rcases trapWait_outcome h with same | ⟨code, history, outcome⟩
        · rw [same] at returned
          exact absurd returned (Nat.lt_irrefl _)
        · refine appended _ code history ?_
          cases outcome with
          | noChildren failed live empty => exact .noChildren failed live empty
          | noZombie failed inKernel live saved childless =>
              exact .noZombie failed inKernel live saved childless
          | child live zombie dead parent pid stored =>
              exact .child live zombie dead parent pid stored
    | resume =>
        obtain ⟨c, ptr, live, saved⟩ := runs
        obtain ⟨code, history, outcome⟩ := resumeWait_outcome live saved step.1 step.2
        exact appended ptr code history outcome
    | _ => cases runs
  · have allowed : Limits.Allows ⟨fun _ _ => True, fun _ => True, fun _ _ => False, False, True,
        True⟩ env s i := by
      refine ⟨fun _ => trivial, fun _ => trivial, ?_, runs, fun _ => trivial, fun _ => trivial⟩
      intro z reaps
      cases i with
      | kernelTrap ctx req => exact runs reaps.1
      | resume => exact runs reaps.1
      | _ => cases reaps
    have same := Sched.Moves.unreturned (fun _ _ => id) id
      (deliver_moves fresh allowed step) p statusPtr rc
    rw [same] at returned
    exact absurd returned (Nat.lt_irrefl _)

/-- A `Wait` that returns a pid returns that of a child of the caller that exited and that no `Wait`
returned before, and leaves the child's status in the caller's buffer; one that fails leaves the
caller without a child that was not returned. -/
theorem reaping_is_exact {i : Input} {p : PcbPtr} {statusPtr : Word} {rc : Int}
    (pids : env.PidsDistinct) (started : kernelStart env cfg = .ok boot)
    (run : Reaches (Guarded (Step env) (FamilyKept env)) boot s)
    (step : Guarded (Step env) (FamilyKept env) s i s')
    (returned : s.history.count (.waitReturned p statusPtr rc) <
      s'.history.count (.waitReturned p statusPtr rc)) :
    (rc ≠ Status.error.code → ∃ z, .forked p z rc ∈ s.history ∧
      (∃ status, .exited z status ∈ s.history) ∧
      (∀ status, .exited z status ∈ s.history → statusPtr ≠ 0 →
        s'.userBytes p statusPtr 4 = intBytes status) ∧
      ∀ q ptr, .waitReturned q ptr rc ∉ s.history) ∧
    (rc = Status.error.code → ∀ z pid, .forked p z pid ∈ s.history →
      ∃ ptr, .waitReturned p ptr pid ∈ s.history) := by
  obtain ⟨registered, family, waits, table⟩ := reapable_reaches pids started run
  have seen : ∀ e : Event, e.isFamily = true → (e ∈ s.sched.history ↔ e ∈ s.history) :=
    fun e isFamily => by simp [isFamily]
  obtain ⟨rfl, outcome⟩ := step_outcome (fresh_of_registered registered) step.2 returned
  cases outcome with
  | noChildren failed live empty =>
      refine ⟨fun valid => absurd failed valid, fun _ z pid forked => ?_⟩
      rcases family.children _ z pid _ ((seen _ rfl).mpr forked) live with
        ⟨ptr, before⟩ | ⟨member, -⟩
      · exact ⟨ptr, (seen _ rfl).mp before⟩
      · rw [sched_queues, empty] at member
        cases member
  | @noZombie b failed inKernel live saved childless =>
      obtain ⟨z, member, c, found, child⟩ :=
        waits.woken _ b live saved (Or.inr ⟨rfl, inKernel⟩)
      exact absurd child (childless z member c found)
  | @child z b c live zombie dead parent pid stored =>
      have exited := (family.zombies z zombie)
      have valid : rc ≠ Status.error.code := by
        rw [pid, family.pids z c dead]
        exact pids.valid z
      refine ⟨fun _ => ⟨z, ?_, ?_, ?_, ?_⟩, fun failed => absurd failed valid⟩
      · rcases family.lineage z c dead with orphan | ⟨q, ppid, forked⟩
        · rw [parent, family.pids _ b live] at orphan
          exact absurd orphan (pids.valid _)
        · have same : q = s.currentProcess := by
            rw [parent, family.pids _ b live] at ppid
            exact (pids.injective ppid).symm
          rw [same, ← pid] at forked
          exact (seen _ rfl).mp forked
      · obtain ⟨d, -, recorded⟩ := exited
        exact ⟨_, (seen _ rfl).mp recorded⟩
      · intro status recorded given
        have other : s.currentProcess ≠ z := (registered.zombie_apart zombie dead).symm
        rw [stored table other given, family.statuses z status c ((seen _ rfl).mpr recorded) dead]
      · intro q ptr before
        rcases family.returned q ptr rc ((seen _ rfl).mpr before) with failed | ⟨y, -, same, gone⟩
        · exact absurd failed valid
        · rw [pid, family.pids z c dead] at same
          obtain rfl : z = y := pids.injective same
          rw [dead] at gone
          cases gone

/-- On the small machine there is memory for every queue node. -/
theorem FamilyKept.sample {i : Input} (written : s.ParentFlagWritten) :
    FamilyKept sampleEnv s i where
  exit := fun _ => ⟨written, rfl⟩
  fork := fun _ => rfl

/-- Whether the current process comes back from its context switch with this event. -/
def resumesWith (env : Env) (s : Kernel) (e : Event) : Bool :=
  match s.deliver env .resume with
  | .ok s' => decide (s.mode = .kernel) && decide (s.history.count e < s'.history.count e)
  | .error _ => false

theorem resumesWith_step {e : Event} (h : resumesWith env s e = true) :
    ∃ s', s.Step env .resume s' ∧ s.history.count e < s'.history.count e := by
  rcases delivered : s.deliver env .resume with stop | s'
  · rw [resumesWith, delivered] at h
    cases h
  · rw [resumesWith, delivered] at h
    obtain ⟨inKernel, more⟩ := Bool.and_eq_true_iff.mp h
    exact ⟨s', ⟨of_decide_eq_true inKernel, delivered⟩, of_decide_eq_true more⟩

/-- Init blocks in `Wait` until its child exits, and finds the child's status in its buffer. -/
theorem reaping_is_exact_sample : ∃ s s' : Kernel,
    s.history = [.forked 1 2 2, .exited 2 7] ∧ s'.userBytes 1 0x102000 4 = intBytes 7 := by
  have answer : runs sampleEnv sampleBoot (fun s _ => decide s.ParentFlagWritten)
      [.tick, .resume, .call yalnixFork 0 0 0, .call yalnixWait 0x102000 0 0, .resume,
        .call yalnixExit 7 0 0]
      (fun s => decide s.ParentFlagWritten &&
        decide (s.history = [.forked 1 2 2, .exited 2 7]) &&
        resumesWith sampleEnv s (.waitReturned 1 0x102000 2)) = .ok true := by
    decide +kernel
  obtain ⟨boot, s, started, run, all⟩ := runs_sound (FamilyKept sampleEnv)
    (fun s i written => .sample (of_decide_eq_true written)) answer
  obtain ⟨earlier, resumes⟩ := Bool.and_eq_true_iff.mp all
  obtain ⟨written, known⟩ := Bool.and_eq_true_iff.mp earlier
  have history := of_decide_eq_true known
  obtain ⟨s', step, returned⟩ := resumesWith_step resumes
  have guarded : Guarded (Step sampleEnv) (FamilyKept sampleEnv) s .resume s' :=
    ⟨.sample (of_decide_eq_true written), step⟩
  obtain ⟨z, forked, -, stored, -⟩ :=
    (reaping_is_exact sampleEnv_pids started run guarded returned).1 (by decide)
  have child : z = 2 := by simpa [history] using forked
  refine ⟨s, s', history, stored 7 ?_ (by decide)⟩
  simp [history, child]

/-- A child that exits while its parent is ready makes the parent ready twice, and the second entry
ends a later `Wait` of the parent while the child it waits for is alive. -/
theorem reaping_is_not_exact : ¬ ∀ env cfg boot s s' i p statusPtr rc, env.PidsDistinct →
    kernelStart env cfg = .ok boot →
    Reaches (Guarded (Step env) fun _ i => i.among [yalnixFork, yalnixExit, yalnixWait]) boot s →
    i.among [yalnixFork, yalnixExit, yalnixWait] = true → s.Step env i s' →
    s.history.count (.waitReturned p statusPtr rc) <
      s'.history.count (.waitReturned p statusPtr rc) →
    rc = Status.error.code → ∀ z pid, .forked p z pid ∈ s.history →
      ∃ ptr, .waitReturned p ptr pid ∈ s.history := by
  intro exact
  have answer : runs sampleEnv sampleBoot
      (fun _ i => i.among [yalnixFork, yalnixExit, yalnixWait])
      [.tick, .resume, .call yalnixFork 0 0 0, .tick, .resume, .call yalnixExit 7 0 0, .resume,
        .call yalnixWait 0 0 0, .call yalnixFork 0 0 0, .call yalnixWait 0 0 0]
      (fun s => decide (s.history = [.forked 1 2 2, .exited 2 7, .waitReturned 1 0 2,
          .forked 1 3 3]) &&
        resumesWith sampleEnv s (.waitReturned 1 0 (-1))) = .ok true := by
    decide +kernel
  obtain ⟨boot, s, started, run, both⟩ := runs_sound _ (fun _ _ => id) answer
  obtain ⟨known, resumes⟩ := Bool.and_eq_true_iff.mp both
  have history := of_decide_eq_true known
  obtain ⟨s', step, returned⟩ := resumesWith_step resumes
  obtain ⟨ptr, before⟩ := exact _ _ boot s s' .resume 1 0 (-1) sampleEnv_pids started run rfl step
    returned rfl 3 3 (by simp [history])
  simp [history] at before

end Kernel

end Yalnix
