/-
Module: Yalnix.Proofs.Start
Purpose: The scheduler's state when KernelStart hands the machine over to the idle process.
Trusted boundary: none
Main exports: Sched.booted, kernelStart_sched, registered_booted
-/
import Yalnix.Proofs.Registration

namespace Yalnix

namespace Sched

/-- Before any process exists. -/
def empty : Sched where
  procs := fun _ => none
  nextPcb := 0
  pidCalls := 0
  procTable := fun _ => none
  queues := fun _ => []
  writer := fun _ => none
  idleProc := 0
  current := 0
  ptbr1 := 0
  mode := .user
  history := []

/-- A PCB comes out of `getFreePCB`. -/
def allocate (env : Env) (s : Sched) : Sched :=
  ({ s with
    nextPcb := s.nextPcb + 1
    pidCalls := s.pidCalls + 1
    procTable := s.slotTaken }.setProc s.nextPcb
    { PCB.fresh.proc with pid := env.helperNewPid s.pidCalls }).setQueue (.children s.nextPcb) []

/-- After boot: idle runs, and the first user process is ready unless its queue node found no
memory. -/
def booted (env : Env) (ready : Bool) : Sched :=
  (((empty.allocate env).allocate env).push ready .ready 1).setProc 1
    { PCB.fresh.proc with pid := env.helperNewPid 1, kernelContext := .kernelStart }

end Sched

namespace Kernel

variable {env : Env} {cfg : BootConfig} {s s' : Kernel}

theorem getFreePCB_sched {p : PcbPtr} (h : s.getFreePCB env = .ok (some p, s')) :
    p = s.nextPcb ∧ s'.sched = s.sched.allocate env ∧
      s'.heap p =
        some { PCB.fresh with state := .running, pid := env.helperNewPid s.pidCalls } := by
  rcases getFreePCB_eq_ok h with ⟨none, -⟩ | ⟨i, free, some, rfl⟩
  · cases none
  · obtain rfl := Option.some.inj some
    refine ⟨rfl, ?_, by simp⟩
    rw [sched_setQueue, sched_setPcb, Sched.allocate, sched_slotTaken free]
    rfl

theorem createIdlePCB_sched {p : PcbPtr} (h : s.createIdlePCB env cfg = .ok (p, s')) :
    p = s.nextPcb ∧ s'.sched = s.sched.allocate env := by
  simp only [createIdlePCB, bind_eq_ok] at h
  obtain ⟨⟨slot, t⟩, found, h⟩ := h
  rcases slot with _ | idle
  · cases h
  · obtain ⟨rfl, view, -⟩ := getFreePCB_sched found
    simp only [bind_eq_ok] at h
    obtain ⟨u, mapped, h⟩ := h
    have mappedView := sched_modifyPcb_self mapped fun _ => rfl
    have same : u.sched = t.sched := by
      rw [mappedView]
      rcases t.mem.allocFrame .user with _ | ⟨pfn, m⟩
      · rfl
      · rfl
    by_cases allocated : env.mallocOk u.mallocCalls = true
    · simp only [malloc_fst, allocated, Bool.not_true, Bool.false_eq_true, if_false,
        bind_eq_ok, pure_eq_ok] at h
      obtain ⟨⟨m, kstack⟩, -, v, prepared, h⟩ := h
      obtain ⟨rfl, rfl⟩ := Prod.mk.inj h
      refine ⟨rfl, ?_⟩
      rw [sched_modifyPcb_self prepared fun _ => rfl, sched_setMem, sched_malloc, same, view]
    · simp only [malloc_fst, allocated] at h
      cases h

theorem createInitPCB_sched {p : PcbPtr} (h : s.createInitPCB env cfg = .ok (p, s')) :
    p = s.nextPcb ∧ s'.sched = { s.sched.allocate env with ptbr1 := s.nextPcb } ∧
      ∃ b, s'.heap p = some b := by
  simp only [createInitPCB, bind_eq_ok] at h
  obtain ⟨⟨slot, t⟩, found, h⟩ := h
  rcases slot with _ | init
  · cases h
  · obtain ⟨rfl, view, -⟩ := getFreePCB_sched found
    simp only [bind_eq_ok] at h
    obtain ⟨⟨kstack, u⟩, stacked, v, prepared, ⟨status, w⟩, loaded, h⟩ := h
    by_cases failed : status ≠ .success
    · rw [if_pos failed] at h
      cases h
    · rw [if_neg failed] at h
      obtain ⟨rfl, rfl⟩ := Prod.mk.inj (pure_eq_ok.mp h)
      have stackView : u.sched = t.sched := by
        rcases initializeKernelStackProcess_eq_ok stacked with ⟨-, rfl⟩ | ⟨m, pages, -, -, rfl⟩
        · rfl
        · rfl
      have prepView := sched_modifyPcb_self prepared fun _ => rfl
      refine ⟨rfl, ?_, ?_⟩
      · rw [loadProgram_sched loaded]
        have atInit : ({ v with ptbr1 := s.nextPcb } : Kernel).sched =
            { v.sched with ptbr1 := s.nextPcb } := rfl
        rw [atInit, prepView, stackView, view]
      · obtain ⟨b, live, ⟨-, rfl, -⟩ |
          ⟨li, args, plan, -, -, -, ⟨-, -, rfl⟩ | ⟨-, m, b', -, rfl⟩⟩⟩ := loadProgram_eq_ok loaded
        · exact ⟨b, live⟩
        · exact ⟨_, Function.update_self ..⟩
        · exact ⟨_, Function.update_self ..⟩

/-- In the scheduler's view `KCCopy` saves a context for the new process. -/
theorem kcCopy_sched {kc : KernelContext} {new : PcbPtr} {n : PCB} (live : s.heap new = some n)
    (h : s.kcCopy env kc new = .ok s') :
    s'.sched = s.sched.setProc new { n.proc with kernelContext := kc } := by
  simp only [kcCopy, bind_eq_ok] at h
  obtain ⟨t, saved, n', live', h⟩ := h
  obtain ⟨n'', live'', rfl⟩ := modifyPcb_eq_ok.mp saved
  obtain rfl : n'' = n := Option.some.inj (live''.symm.trans live)
  rcases stack : n'.kstack with _ | kstack
  · simp only [stack, bind_eq_ok] at h
    obtain ⟨⟨pages, u⟩, filled, v, stored, ⟨pages', w⟩, paired, c, -, h⟩ := h
    obtain ⟨rfl, rfl⟩ := Prod.mk.inj (pure_eq_ok.mp paired)
    have view := sched_modifyPcb_self stored fun _ => rfl
    have filledView : u.sched = s.sched.setProc new { n''.proc with kernelContext := kc } := by
      rcases initializeKernelStackProcess_eq_ok filled with ⟨-, rfl⟩ | ⟨m, pages, -, -, rfl⟩
      · exact sched_setPcb ..
      · exact sched_setPcb ..
    split at h
    · cases h
      rw [sched_setMem, view, filledView]
    · cases h
  · simp only [stack, bind_eq_ok] at h
    obtain ⟨⟨pages', w⟩, paired, c, -, h⟩ := h
    obtain ⟨rfl, rfl⟩ := Prod.mk.inj (pure_eq_ok.mp paired)
    split at h
    · cases h
      rw [sched_setMem]
      exact sched_setPcb ..
    · cases h

/-- What the scheduler sees after boot. -/
theorem kernelStart_sched (h : kernelStart env cfg = .ok s) :
    ∃ ready, s.sched = Sched.booted env ready := by
  simp only [kernelStart, bind_eq_ok] at h
  obtain ⟨⟨idle, a⟩, idleMade, b, restored, ⟨init, c⟩, initMade, d, copied, h⟩ := h
  obtain ⟨idleIs, idleView⟩ := createIdlePCB_sched idleMade
  obtain ⟨initIs, initView, n, initLive⟩ := createInitPCB_sched initMade
  have first : idle = 0 := idleIs
  subst first
  have atIdle : b.sched = Sched.allocate env .empty := by
    rw [sched_restoreContext restored]
    have moved : ({ a with idleProc := 0, currentProcess := 0, ptbr1 := 0 } : Kernel).sched =
        { a.sched with idleProc := 0, current := 0, ptbr1 := 0 } := rfl
    rw [moved, idleView]
    rfl
  have second : init = 1 := by
    rw [initIs]
    exact congrArg Sched.nextPcb atIdle
  subst second
  rw [atIdle] at initView
  have view := kcCopy_sched (by simpa using initLive) copied
  rw [sched_restoreContext h, view, sched_queueEnqueue]
  have procs : n.proc = { PCB.fresh.proc with pid := env.helperNewPid 1 } := by
    have found := procs_of_heap initLive
    rw [initView] at found
    exact (Option.some.inj found).symm
  have atInit : ({ c with ptbr1 := 0 } : Kernel).sched = { c.sched with ptbr1 := 0 } := rfl
  refine ⟨env.mallocOk c.mallocCalls, ?_⟩
  rw [atInit, initView, procs]
  rfl

end Kernel

namespace Sched

variable {env : Env} {ready : Bool}

theorem booted_procs (p : PcbPtr) : (booted env ready).procs p =
    if p = 1 then
      some { PCB.fresh.proc with pid := env.helperNewPid 1, kernelContext := .kernelStart }
    else if p = 0 then some { PCB.fresh.proc with pid := env.helperNewPid 0 } else none := by
  by_cases init : p = 1
  · subst init
    simp [booted]
  · by_cases idle : p = 0
    · subst idle
      simp [booted, allocate, empty]
    · simp [booted, allocate, empty, init, idle]

theorem allocate_queues {s : Sched} (empty : s.queues = fun _ => []) :
    (s.allocate env).queues = fun _ => [] := by
  funext q
  by_cases new : q = .children s.nextPcb
  · subst new
    simp [allocate]
  · simp [allocate, new, empty]

theorem booted_queues : (booted env ready).queues =
    Function.update (fun _ => []) .ready (if ready then [1] else []) := by
  have none : ((empty.allocate env).allocate env).queues = fun _ => [] :=
    allocate_queues (allocate_queues rfl)
  simp [booted, none]

theorem booted_queue {q : QueueId} (other : q ≠ .ready) : (booted env ready).queues q = [] := by
  rw [booted_queues, Function.update_of_ne other]

/-- No terminal refers to anybody. -/
theorem booted_ttyEntries {p : PcbPtr} : (booted env ready).ttyEntries p = 0 := by
  refine Finset.sum_eq_zero fun tty _ => ?_
  have writer : (booted env ready).writer tty = none := rfl
  simp [terminalEntries, booted_queue, writer]

/-- The registration invariant holds after boot. -/
theorem registered_booted : Registered env (booted env ready) := by
  constructor
  case fresh =>
    intro p beyond
    have beyond' : 2 ≤ p := beyond
    rw [booted_procs, if_neg (Nat.ne_of_gt beyond'),
      if_neg (Nat.ne_of_gt (Nat.lt_of_lt_of_le Nat.two_pos beyond'))]
  case idle => exact Nat.two_pos
  case once =>
    intro p notIdle
    have current : (booted env ready).current ≠ p := fun same => notIdle same.symm
    simp only [registrations, booted_ttyEntries, Tally.same_of_ne current, booted_procs,
      booted_queues, Function.update_self]
    by_cases init : p = 1
    · subst init
      have unregistered : pcbEntries (some { PCB.fresh.proc with
          pid := env.helperNewPid 1, kernelContext := .kernelStart }) = 0 := rfl
      rw [if_pos rfl, unregistered]
      rcases ready with _ | _
      · exact Nat.zero_le 1
      · exact Nat.le_refl 1
    · have absent : p ∉ (if ready then [1] else [] : List PcbPtr) := by
        split
        · simpa using init
        · simp
      have notZero : p ≠ 0 := notIdle
      rw [List.count_eq_zero.mpr absent, if_neg init, if_neg notZero]
      exact Nat.le_refl 1
  case pids =>
    intro p b found
    rw [booted_procs] at found
    split at found
    · cases found
      exact ⟨1, Nat.one_lt_two, rfl⟩
    · split at found
      · cases found
        exact ⟨0, Nat.two_pos, rfl⟩
      · cases found
  case forked =>
    intro p b child parent found isFork
    rw [booted_procs] at found
    split at found
    · cases found
      cases isFork
    · split at found
      · cases found
        cases isFork
      · cases found
  case zombies =>
    intro z member
    simp [booted_queue] at member
  case exited =>
    intro p status member
    cases member

end Sched

end Yalnix
