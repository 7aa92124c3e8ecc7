/-
Module: Yalnix.Proofs.StatusStore
Purpose: Where Wait stores the exit status: through the caller's pointer, which nothing checks.
Trusted boundary: the hardware library hands out no pid that equals the error code
Main exports: Kernel.StatusPtr, WritableRange, WaitConfined, wait_confined_iff
-/
import Yalnix.Proofs.Always
import Yalnix.Proofs.Buffers
import Yalnix.Proofs.Reaping

namespace Yalnix.Kernel

open Transition

variable {env : Env} {cfg : BootConfig} {guard : Kernel → Input → Prop} {boot s s' : Kernel}
  {i : Input} {z : PcbPtr} {ptr : Word}

/-- The step runs `Wait` with this status pointer, from its start or from its context switch. -/
def StatusPtr (s : Kernel) (ptr : Word) : Input → Prop
  | .kernelTrap ctx _ => ctx.code = yalnixWait ∧ ctx.regs 0 = ptr
  | .resume => ∃ c, s.heap s.currentProcess = some c ∧ c.kernelContext = .wait ptr
  | _ => False

/-- The range lies in region 1 and the process may write every page of it. -/
def WritableRange (s : Kernel) (p : PcbPtr) (va : Word) (n : Nat) : Prop :=
  ∃ b, s.heap p = some b ∧ vmem1Base ≤ va.toNat ∧ va.toNat + n ≤ vmem1Limit ∧
    ∀ vpn ∈ Memory.rangePages va.toNat n, (b.ptbr vpn).writable = true

/-- Where memory changes, the byte is in a frame that the process may write for the range. -/
def ChangesWithin (s s' : Kernel) (p : PcbPtr) (va : Word) (n : Nat) : Prop :=
  ∀ pfn off, s'.mem.phys pfn off ≠ s.mem.phys pfn off → ∃ b, s.heap p = some b ∧
    ∃ vpn ∈ Memory.rangePages va.toNat n, (b.ptbr vpn).writable = true ∧ (b.ptbr vpn).pfn = pfn ∧
      va.toNat ≤ vmem1Base + vpn * pageSize + off ∧
      vmem1Base + vpn * pageSize + off < va.toNat + n

/-- A step of `Wait` that reaps a child and was given a status pointer stores inside the writable
pages of its caller, or else returns an error and leaves the child a zombie. -/
def WaitConfined (env : Env) (s : Kernel) (i : Input) : Prop :=
  ∀ z ptr, s.Reaps z i → s.StatusPtr ptr i → ptr ≠ 0 →
    (NeverStrays (s.deliver env i) ∧
      ∀ s', s.deliver env i = .ok s' → s.ChangesWithin s' s.currentProcess ptr 4) ∨
    ∃ s', s.deliver env i = .ok s' ∧ z ∈ s'.queues .zombie ∧
      s'.history = s.history ++ [.waitReturned s.currentProcess ptr Status.error.code]

/-! ### Reaping -/

theorem storeUser_bad {bytes : List Byte} {b : PCB} (live : s.heap s.ptbr1 = some b)
    (some : 0 < bytes.length) (bad : ¬ s.WritableRange s.ptbr1 ptr bytes.length) :
    s.storeUser ptr bytes = .error (.badAddress ptr.toNat) := by
  have refused : ¬ (Memory.inRegion1 ptr.toNat bytes.length &&
      (Memory.rangePages ptr.toNat bytes.length).all fun vpn => (b.ptbr vpn).writable) = true := by
    intro accessible
    obtain ⟨inside, pages⟩ := Bool.and_eq_true_iff.mp accessible
    obtain ⟨low, high⟩ := (of_decide_eq_true inside).resolve_left (Nat.ne_of_gt some)
    exact bad ⟨b, live, low, high, List.all_eq_true.mp pages⟩
  have table : s.deref s.ptbr1 = .ok b := deref_eq_ok.mpr live
  simp only [storeUser, table, bind, Except.bind, Memory.storeRange, Memory.storeFun]
  rw [if_neg refused]

/-- A write to a range of writable pages succeeds and changes nothing else. -/
theorem storeUser_good {bytes : List Byte} (good : s.WritableRange s.ptbr1 ptr bytes.length) :
    ∃ t, s.storeUser ptr bytes = .ok t ∧ s.ChangesWithin t s.ptbr1 ptr bytes.length := by
  obtain ⟨b, live, low, high, pages⟩ := good
  have accepted : (Memory.inRegion1 ptr.toNat bytes.length &&
      (Memory.rangePages ptr.toNat bytes.length).all fun vpn => (b.ptbr vpn).writable) = true :=
    Bool.and_eq_true_iff.mpr ⟨decide_eq_true (Or.inr ⟨low, high⟩), List.all_eq_true.mpr pages⟩
  have table : s.deref s.ptbr1 = .ok b := deref_eq_ok.mpr live
  obtain ⟨m, stored, phys⟩ : ∃ m, s.mem.storeRange b.ptbr ptr.toNat bytes = .ok m ∧
      ∀ pfn off, Memory.pageCovering b.ptbr ptr.toNat bytes.length pfn off = none →
        m.phys pfn off = s.mem.phys pfn off := by
    rw [Memory.storeRange, Memory.storeFun, if_pos accepted]
    exact ⟨_, rfl, fun _ _ uncovered => by simp only [uncovered]⟩
  refine ⟨s.setMem m, storeUser_eq_ok.mpr ⟨b, m, live, stored, rfl⟩, ?_⟩
  intro pfn off changed
  rw [setMem_mem] at changed
  rcases covering : Memory.pageCovering b.ptbr ptr.toNat bytes.length pfn off with _ | vpn
  · exact absurd (phys pfn off covering) changed
  · have member := List.mem_reverse.mp (List.mem_of_find?_eq_some covering)
    have fits := of_decide_eq_true (List.find?_eq_some_iff_append.mp covering).1
    exact ⟨b, live, vpn, member, pages vpn member, fits.1, fits.2.2.1, fits.2.2.2⟩

theorem orphanChildren_neverStrays {children : List PcbPtr} :
    NeverStrays (orphanChildren children s) := by
  induction children generalizing s with
  | nil => exact .ok _
  | cons child rest inductionHypothesis =>
      exact (NeverStrays.modifyPcb s _ _).bind fun _ _ => inductionHypothesis

theorem deletePCB_neverStrays : NeverStrays (s.deletePCB z) :=
  (NeverStrays.deref s z).bind fun _ _ => orphanChildren_neverStrays.bind fun _ _ => .pure _

theorem deletePCB_mem (h : s.deletePCB z = .ok s') : s'.mem = s.mem := by
  simp only [deletePCB, bind_eq_ok, pure_eq_ok] at h
  obtain ⟨-, -, u, orphaned, rfl⟩ := h
  exact (orphanChildren_table z orphaned).1

/-- Reap the zombie and return to the caller of `Wait`. -/
def reapAndReturn (s : Kernel) (z : PcbPtr) (ptr : Word) : Except Stop Kernel := do
  let (pid, s) ← s.reap z ptr
  finishWait ptr pid s

/-- With a writable target the zombie is reaped and the store stays inside it. -/
theorem reapAndReturn_good (good : s.WritableRange s.ptbr1 ptr 4) :
    NeverStrays (s.reapAndReturn z ptr) ∧
      ∀ s', s.reapAndReturn z ptr = .ok s' → s.ChangesWithin s' s.ptbr1 ptr 4 := by
  constructor
  · refine NeverStrays.bind ?_ fun _ _ => NeverStrays.returnToUser _ _
    refine (NeverStrays.deref s z).bind fun b _ => ?_
    have rest : ∀ t : Kernel, NeverStrays (do
        let s ← ((t.queueRemove (.children t.currentProcess) z).queueRemove .zombie z).deletePCB z
        return (b.pid, s)) := fun t => deletePCB_neverStrays.bind fun _ _ => .pure _
    split
    · rw [← intBytes_length b.exitStatus] at good
      obtain ⟨t, stored, -⟩ := storeUser_good good
      rw [stored]
      exact (NeverStrays.ok t).bind fun t _ => rest t
    · exact (NeverStrays.pure s).bind fun t _ => rest t
  · intro s' h
    simp only [reapAndReturn, bind_eq_ok] at h
    obtain ⟨⟨pid, u⟩, reaped, returned⟩ := h
    obtain ⟨b, t, -, -, stored, deleted⟩ := reap_eq_ok reaped
    obtain ⟨c, -, rfl⟩ := returnToUser_eq_ok.mp returned
    have kept : u.mem = t.mem := (deletePCB_mem deleted).trans rfl
    have within : s.ChangesWithin t s.ptbr1 ptr 4 := by
      rcases stored with ⟨-, stored⟩ | ⟨-, rfl⟩
      · rw [← intBytes_length b.exitStatus] at good
        obtain ⟨t', stored', within⟩ := storeUser_good good
        obtain rfl : t = t' := Except.ok.inj (stored.symm.trans stored')
        rw [intBytes_length] at within
        exact within
      · intro pfn off changed
        exact absurd rfl changed
    intro pfn off changed
    apply within pfn off
    rw [← kept]
    exact changed

/-- With any other target the kernel strays before the zombie is unlinked. -/
theorem reapAndReturn_bad {b c : PCB} (live : s.heap s.ptbr1 = some b) (dead : s.heap z = some c)
    (given : ptr ≠ 0) (bad : ¬ s.WritableRange s.ptbr1 ptr 4) :
    s.reapAndReturn z ptr = .error (.badAddress ptr.toNat) := by
  have zombie : s.deref z = .ok c := deref_eq_ok.mpr dead
  have some : 0 < (intBytes c.exitStatus).length := by
    rw [intBytes_length]
    decide
  rw [← intBytes_length c.exitStatus] at bad
  simp only [reapAndReturn, reap, zombie, bind, Except.bind, if_pos given,
    storeUser_bad live some bad]

/-! ### The step -/

theorem waitScan_finds (found : s.ScanFinds z) : s.waitScan ptr = (do
    let (pid, s) ← s.reap z ptr
    return (some pid, s)) := by
  obtain ⟨c, live, scanned⟩ := found
  have current : s.deref s.currentProcess = .ok c := deref_eq_ok.mpr live
  simp only [waitScan, current, scanned, bind, Except.bind]

/-- A step of `Wait` that finds a zombie reaps it, in the state after the trap frame was saved. -/
theorem deliver_reaps (reaps : s.Reaps z i) (given : s.StatusPtr ptr i) :
    ∃ t : Kernel, s.deliver env i = t.reapAndReturn z ptr ∧ t.mem = s.mem ∧ t.sched = s.sched ∧
      t.ScanFinds z ∧ t.history = s.history ∧
      ∀ p, (t.heap p).map PCB.ptbr = (s.heap p).map PCB.ptbr := by
  cases i with
  | kernelTrap ctx req =>
      obtain ⟨code, children, found⟩ := reaps
      obtain ⟨-, rfl⟩ := given
      obtain ⟨c, live, scanned⟩ := found
      have handler : s.deliver env (.kernelTrap ctx req) = (s.trap ctx).trapWait := by
        simp [deliver, kernelTrapHandler, trap, code]
      have saved : (s.trap ctx).saveContext =
          .ok ((s.trap ctx).setPcb s.currentProcess { c with userContext := ctx }) :=
        saveContext_eq_ok.mpr ⟨c, live, rfl⟩
      set t := (s.trap ctx).setPcb s.currentProcess { c with userContext := ctx }
      have view : t.sched = s.sched := (sched_saveContext saved).trans rfl
      have finds : t.ScanFinds z := ScanFinds.congr view.symm ⟨c, live, scanned⟩
      have nonempty : ¬ t.isEmpty (.children t.currentProcess) = true := by
        intro empty
        exact children (List.isEmpty_iff.mp empty)
      refine ⟨t, ?_, rfl, view, finds, rfl, ?_⟩
      · rw [handler, trapWait, saved]
        simp only [bind, Except.bind, wait, if_neg nonempty, waitScan_finds finds, reapAndReturn,
          trap]
        rcases t.reap z (ctx.regs 0) with stop | ⟨pid, u⟩
        · rfl
        · rfl
      · intro p
        by_cases same : p = s.currentProcess
        · subst same
          have before : (s.trap ctx).heap s.currentProcess = some c := live
          simp [t, live]
        · simp [t, same, trap]
  | resume =>
      obtain ⟨⟨c, saved, live, waiting⟩, found⟩ := reaps
      obtain ⟨c', live', waiting'⟩ := given
      obtain rfl : c' = c := Option.some.inj (live'.symm.trans live)
      obtain rfl : saved = ptr := KernelContext.wait.inj (waiting.symm.trans waiting')
      refine ⟨s, ?_, rfl, rfl, found, rfl, fun _ => rfl⟩
      have current : s.deref s.currentProcess = .ok c' := deref_eq_ok.mpr live
      simp only [deliver, resume, current, waiting, bind, Except.bind, waitResumed,
        waitScan_finds found, reapAndReturn]
      rcases s.reap z saved with stop | ⟨pid, u⟩
      · rfl
      · rfl
  | _ => cases reaps

theorem WritableRange.congr {t : Kernel} {p : PcbPtr} {n : Nat}
    (same : (t.heap p).map PCB.ptbr = (s.heap p).map PCB.ptbr) :
    t.WritableRange p ptr n ↔ s.WritableRange p ptr n := by
  have transfer : ∀ {u v : Kernel}, (v.heap p).map PCB.ptbr = (u.heap p).map PCB.ptbr →
      u.WritableRange p ptr n → v.WritableRange p ptr n := by
    rintro u v same ⟨b, live, low, high, pages⟩
    rw [live, Option.map_some, Option.map_eq_some_iff] at same
    obtain ⟨c, found, table⟩ := same
    rw [← table] at pages
    exact ⟨c, found, low, high, pages⟩
  exact ⟨transfer same.symm, transfer same⟩

/-- A step that reaps a child with a pointer its caller may not write strays. -/
theorem deliver_strays (table : s.ptbr1 = s.currentProcess) (reaps : s.Reaps z i)
    (given : s.StatusPtr ptr i) (some : ptr ≠ 0) (bad : ¬ s.WritableRange s.currentProcess ptr 4) :
    s.deliver env i = .error (.badAddress ptr.toNat) := by
  obtain ⟨t, delivered, -, view, finds, -, tables⟩ := deliver_reaps reaps given
  have inForce : t.ptbr1 = s.currentProcess := (congrArg Sched.ptbr1 view).trans table
  obtain ⟨b, live, scanned⟩ := finds
  obtain ⟨-, c, dead, -⟩ := findZombieChild_some scanned
  have current : t.currentProcess = t.ptbr1 := (congrArg Sched.current view).trans inForce.symm
  rw [current] at live
  rw [delivered]
  apply reapAndReturn_bad live dead some
  rw [inForce, WritableRange.congr (tables _)]
  exact bad

/-- `Wait` is confined in a step exactly when the status pointer it reaps a child with is `NULL` or
points to memory that the caller may write. -/
theorem wait_confined_iff (valid : ∀ k, env.helperNewPid k ≠ Status.error.code)
    (started : kernelStart env cfg = .ok boot)
    (run : Reaches (Guarded (Step env) guard) boot s) (i : Input) :
    WaitConfined env s i ↔
      ∀ z ptr, s.Reaps z i → s.StatusPtr ptr i → ptr ≠ 0 →
        s.WritableRange s.currentProcess ptr 4 := by
  have table : s.ptbr1 = s.currentProcess := (always_reaches valid started run).table
  constructor
  · intro confined z ptr reaps given some
    by_contra bad
    have strays : s.deliver env i = .error (.badAddress ptr.toNat) :=
      deliver_strays table reaps given some bad
    rcases confined z ptr reaps given some with ⟨never, -⟩ | ⟨s', returned, -⟩
    · exact never ptr.toNat strays
    · rw [strays] at returned
      cases returned
  · intro good z ptr reaps given some
    obtain ⟨t, (delivered : s.deliver env i = _), mem, view, -, -, tables⟩ :=
      deliver_reaps reaps given
    have inForce : t.ptbr1 = s.currentProcess := (congrArg Sched.ptbr1 view).trans table
    have writable : t.WritableRange t.ptbr1 ptr 4 := by
      rw [inForce, WritableRange.congr (tables _)]
      exact good z ptr reaps given some
    obtain ⟨never, within⟩ := reapAndReturn_good (z := z) writable
    rw [delivered]
    refine Or.inl ⟨never, ?_⟩
    intro s' returned pfn off changed
    rw [← mem] at changed
    obtain ⟨b, live, rest⟩ := within s' returned pfn off changed
    have same := tables t.ptbr1
    rw [live, Option.map_some, inForce] at same
    obtain ⟨c, found, ptbr⟩ := Option.map_eq_some_iff.mp same.symm
    rw [← ptbr] at rest
    exact ⟨c, found, rest⟩

/-- The current process is about to reap the zombie `z`, with this status pointer. -/
def resumesToReap (s : Kernel) (z : PcbPtr) (ptr : Word) : Bool :=
  match s.heap s.currentProcess with
  | some c =>
      (match c.kernelContext with
        | .wait saved => decide (saved = ptr)
        | _ => false) &&
      match s.findZombieChild c.pid (s.queues .zombie) with
      | .ok (some found) => decide (found = z)
      | _ => false
  | none => false

theorem resumesToReap_sound (h : s.resumesToReap z ptr = true) :
    s.Reaps z .resume ∧ s.StatusPtr ptr .resume := by
  unfold resumesToReap at h
  split at h
  · rename_i c live
    obtain ⟨waiting, scan⟩ := Bool.and_eq_true_iff.mp h
    split at waiting
    · rename_i saved context
      split at scan
      · rename_i found scanned
        obtain rfl := of_decide_eq_true waiting
        obtain rfl := of_decide_eq_true scan
        exact ⟨⟨⟨c, saved, live, context⟩, c, live, scanned⟩, c, live, context⟩
      · cases scan
    · cases waiting
  · cases h

/-- Init reaps its child with a pointer into its data page. -/
theorem wait_confined_sample : ∃ s : Kernel, s.Reaps 2 .resume ∧
    s.StatusPtr 0x102000 .resume ∧ WaitConfined sampleEnv s .resume := by
  have answer : runs sampleEnv sampleBoot (fun _ _ => true)
      [.tick, .resume, .call yalnixFork 0 0 0, .call yalnixWait 0x102000 0 0, .resume,
        .call yalnixExit 7 0 0]
      (fun s => s.resumesToReap 2 0x102000 &&
        (s.heap s.currentProcess).any fun b => (b.ptbr 1).writable) = .ok true := by
    decide +kernel
  obtain ⟨boot, s, started, run, both⟩ := runs_sound (fun _ _ => True) (fun _ _ _ => trivial) answer
  obtain ⟨resumes, page⟩ := Bool.and_eq_true_iff.mp both
  obtain ⟨reaps, given⟩ := resumesToReap_sound resumes
  obtain ⟨b, live, writable⟩ := (Option.any_eq_true _ _).mp page
  refine ⟨s, reaps, given, (wait_confined_iff ?_ started run .resume).mpr ?_⟩
  · exact fun k => sampleEnv_pids.valid k
  · rintro z ptr - ⟨c, found, saved⟩ -
    obtain ⟨d, found', saved'⟩ := given
    obtain rfl : d = c := Option.some.inj (found'.symm.trans found)
    obtain rfl : 0x102000 = ptr := KernelContext.wait.inj (saved'.symm.trans saved)
    refine ⟨b, live, by decide, by decide, ?_⟩
    intro vpn member
    have single : Memory.rangePages (0x102000 : Word).toNat 4 = [1] := by decide
    rw [single, List.mem_singleton] at member
    rw [member]
    exact writable

/-- Init reaps its child with a pointer into the kernel's own pages. -/
theorem wait_not_confined : ¬ ∀ env cfg boot s i,
    (∀ k, env.helperNewPid k ≠ Status.error.code) → kernelStart env cfg = .ok boot →
    Reaches (Guarded (Step env) fun _ i => i.among [yalnixFork, yalnixExit, yalnixWait]) boot s →
    WaitConfined env s i := by
  intro confined
  have answer : runs sampleEnv sampleBoot
      (fun _ i => i.among [yalnixFork, yalnixExit, yalnixWait])
      [.tick, .resume, .call yalnixFork 0 0 0, .call yalnixWait 0x4000 0 0, .resume,
        .call yalnixExit 7 0 0]
      (fun s => s.resumesToReap 2 0x4000) = .ok true := by
    decide +kernel
  obtain ⟨boot, s, started, run, resumes⟩ := runs_sound _ (fun _ _ => id) answer
  obtain ⟨reaps, given⟩ := resumesToReap_sound resumes
  have valid : ∀ k, sampleEnv.helperNewPid k ≠ Status.error.code := fun k => sampleEnv_pids.valid k
  have table : s.ptbr1 = s.currentProcess := (always_reaches valid started run).table
  have strays : s.deliver sampleEnv .resume = .error (.badAddress (0x4000 : Word).toNat) := by
    apply deliver_strays table reaps given (by decide)
    rintro ⟨-, -, low, -⟩
    exact absurd low (by decide)
  rcases confined sampleEnv sampleBoot boot s .resume valid started run 2 0x4000 reaps given
    (by decide) with ⟨never, -⟩ | ⟨s', returned, -⟩
  · exact never _ strays
  · rw [strays] at returned
    cases returned

end Yalnix.Kernel
