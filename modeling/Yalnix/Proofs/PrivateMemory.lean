/-
Module: Yalnix.Proofs.PrivateMemory
Purpose: Memory is private: while a process does not run, nothing that the kernel and the other
  processes do changes what it finds in its region 1.
Trusted boundary: none
Main exports: Kernel.Settled, settled_reaches, memory_private
-/
import Yalnix.Proofs.Always
import Yalnix.Proofs.Isolation
import Yalnix.Proofs.PagesKept

namespace Yalnix

open Memory Transition

/-! ### Reading -/

/-- What a range reads is decided by the entries of its pages and by the frames that they name. -/
theorem loadRange_congr {m m' : Memory} {pt pt' : PageTable} {va n : Nat}
    (same : ∀ vpn ∈ rangePages va n, pt' vpn = pt vpn)
    (kept : ∀ vpn ∈ rangePages va n, vpn < maxPtLen → ∀ f, (pt vpn).frame = some f →
      m'.phys f = m.phys f) :
    m'.loadRange pt' va n = m.loadRange pt va n := by
  have readable : (rangePages va n).all (fun vpn => (pt' vpn).readable) =
      (rangePages va n).all fun vpn => (pt vpn).readable := by
    rw [Bool.eq_iff_iff, List.all_eq_true, List.all_eq_true]
    apply forall₂_congr
    intro vpn member
    rw [same vpn member]
  unfold loadRange
  rw [readable]
  split
  next accessible =>
    obtain ⟨region, readable⟩ := Bool.and_eq_true_iff.mp accessible
    have region : n = 0 ∨ vmem1Base ≤ va ∧ va + n ≤ vmem1Limit := of_decide_eq_true region
    apply congrArg Except.ok
    apply List.map_congr_left
    intro i member
    have inside := List.mem_range.mp member
    have page := @mem_rangePages va n i inside
    have bounds := region.resolve_left (Nat.ne_of_gt (pos_of_mem_rangePages page))
    have valid : (pt ((va + i - vmem1Base) / pageSize)).valid = true :=
      (Bool.and_eq_true_iff.mp (List.all_eq_true.mp readable _ page)).1
    have frame := kept _ page (rangePages_lt bounds.2 bounds.1 _ page) _ (Pte.frame_of_valid valid)
    rw [byteAt, byteAt, same _ page, frame]
  next => rfl

namespace Kernel

variable {env : Env} {cfg : BootConfig} {boot s s' : Kernel} {p : PcbPtr} {b : PCB}

/-! ### What holds in every state -/

/-- No two entries name one frame, and the table in force is the current process's. -/
structure Settled (s : Kernel) : Prop where
  ready : s.SpaceReady
  exclusive : s.holdings.Exclusive
  table : s.ptbr1 = s.currentProcess

theorem settled_step {i : Input} (settled : s.Settled) (table : s'.ptbr1 = s'.currentProcess)
    (fits : s.LoadFits env i) (h : s.deliver env i = .ok s') : s'.Settled := by
  have moved : SpaceMoves True False s s' :=
    .deliver settled.ready (Or.inr trivial) fits.allowed h
  exact ⟨moved.ready settled.ready, settled.exclusive.changes moved.changes, table⟩

theorem settled_reaches (valid : ∀ k, env.helperNewPid k ≠ Status.error.code)
    (ordered : cfg.Ordered) (enough : cfg.Enough) (started : kernelStart env cfg = .ok boot)
    (run : Reaches (Guarded (Step env) (LoadFits env)) boot s) : s.Settled := by
  induction run with
  | refl =>
      have booted : SpaceMoves True False (beforeProcesses cfg) boot :=
        boot_moves ordered (Or.inr trivial) (Or.inl enough) (Or.inr trivial) started
      have exclusive := (exclusive_beforeProcesses ordered).changes booted.changes
      have start : Reaches (Guarded (Step env) (LoadFits env)) boot boot := .refl boot
      exact ⟨boot_ready ordered started, exclusive, (always_reaches valid started start).table⟩
  | tail before last inductionHypothesis =>
      obtain ⟨i, taken⟩ := last
      have run := Reaches.tail before taken
      exact settled_step inductionHypothesis (always_reaches valid started run).table taken.1
        taken.2.2

/-! ### Runs -/

/-- The step is taken while another process runs, and does not reap `p`. -/
def LeavesAlone (env : Env) (p : PcbPtr) (s : Kernel) (i : Input) : Prop :=
  s.LoadFits env i ∧ s.currentProcess ≠ p ∧ ¬ s.Reaps p i

theorem pagesKept_run (valid : ∀ k, env.helperNewPid k ≠ Status.error.code)
    (ordered : cfg.Ordered) (enough : cfg.Enough) (started : kernelStart env cfg = .ok boot)
    (before : Reaches (Guarded (Step env) (LoadFits env)) boot s)
    (run : Reaches (Guarded (Step env) (LeavesAlone env p)) s s') :
    PagesKept False p s s' := by
  induction run with
  | refl => exact (PagesKept.rule False p).refl s
  | tail run last inductionHypothesis =>
      obtain ⟨i, ⟨fits, other, alive⟩, step⟩ := last
      have fitting : Reaches (Guarded (Step env) (LoadFits env)) s _ :=
        Reaches.mono (fun _ _ _ taken => ⟨taken.1.1, taken.2⟩) run
      have settled := settled_reaches valid ordered enough started (before.trans fitting)
      exact inductionHypothesis.trans (pagesKept_step settled.ready settled.table fits alive
        (fun own => absurd own other) step.2)

/-- Whatever the kernel and the other processes do while a process does not run, it keeps its
region 1 table and its bounds, and every range of its memory reads as before, or is refused as
before. -/
theorem memory_private (valid : ∀ k, env.helperNewPid k ≠ Status.error.code)
    (ordered : cfg.Ordered) (enough : cfg.Enough) (started : kernelStart env cfg = .ok boot)
    (before : Reaches (Guarded (Step env) (LoadFits env)) boot s) (live : s.heap p = some b)
    (run : Reaches (Guarded (Step env) (LeavesAlone env p)) s s') :
    ∃ b', s'.heap p = some b' ∧ b'.region1 = b.region1 ∧
      ∀ va n, s'.mem.loadRange b'.ptbr va n = s.mem.loadRange b.ptbr va n := by
  have kept := pagesKept_run valid ordered enough started before run
  have exclusive := (settled_reaches valid ordered enough started before).exclusive
  obtain ⟨b', live', same⟩ := kept.region b live
  have table : b'.ptbr = b.ptbr := congrArg Prod.fst same
  refine ⟨b', live', same, fun va n => ?_⟩
  rw [table]
  apply loadRange_congr (fun _ _ => rfl)
  intro vpn _ inside f named
  exact (kept.bytes exclusive b live vpn f inside named).resolve_left id

/-- The input loads no program. -/
def loadsNothing (_ : Kernel) : Input → Bool
  | .kernelTrap ctx _ => decide (ctx.code ≠ yalnixExec)
  | _ => true

theorem loadsNothing_fits {i : Input} (checked : loadsNothing s i = true) : s.LoadFits env i := by
  cases i with
  | kernelTrap ctx req => exact fun code => absurd code (of_decide_eq_true checked)
  | _ => trivial

/-- The child of init writes the address that init has written, and grows its heap. -/
theorem memory_private_sample : ∃ s s' : Kernel, ∃ b b' : PCB, s.heap 1 = some b ∧
    s'.heap 1 = some b' ∧ s.userBytes 1 0x102000 1 = [5] ∧ s'.userBytes 2 0x102000 1 = [7] ∧
      ∀ va n, s'.mem.loadRange b'.ptbr va n = s.mem.loadRange b.ptbr va n := by
  let away (s : Kernel) (i : Input) : Bool :=
    loadsNothing s i && decide (s.currentProcess ≠ 1 ∧ 1 ∉ s.queues .zombie)
  have away_sound (s : Kernel) (i : Input) (checked : away s i = true) :
      s.LeavesAlone sampleEnv 1 i := by
    obtain ⟨quiet, other⟩ := Bool.and_eq_true_iff.mp checked
    have other := of_decide_eq_true other
    exact ⟨loadsNothing_fits quiet, other.1, fun reaps => other.2 reaps.zombie⟩
  have answer : (do
      let boot ← kernelStart sampleEnv sampleBoot
      let s ← run sampleEnv loadsNothing
        [.tick, .resume, .call yalnixFork 0 0 0, .userStore 0x102000 [5], .tick] boot
      let s' ← run sampleEnv away
        [.resume, .userStore 0x102000 [7], .call yalnixBrk 0x106000 0 0, .tick] s
      return decide ((s.heap 1).isSome ∧ s.userBytes 1 0x102000 1 = [5] ∧
        s'.userBytes 2 0x102000 1 = [7]) : Except Stop Bool) = .ok true := by
    decide +kernel
  simp only [bind_eq_ok, pure_eq_ok, decide_eq_true_iff] at answer
  obtain ⟨boot, started, s, ran, s', ran', here, own, child⟩ := answer
  obtain ⟨b, live⟩ := Option.isSome_iff_exists.mp here
  have enough : sampleBoot.Enough := by
    rintro li ⟨⟩
    decide
  have before : Reaches (Guarded (Step sampleEnv) (LoadFits sampleEnv)) boot s :=
    run_reaches _ (fun _ _ => loadsNothing_fits) ran
  have later : Reaches (Guarded (Step sampleEnv) (LeavesAlone sampleEnv 1)) s s' :=
    run_reaches _ away_sound ran'
  have valid (k : Nat) : sampleEnv.helperNewPid k ≠ Status.error.code := by
    intro same
    cases same
  obtain ⟨b', live', -, reads⟩ := memory_private valid ⟨by decide, by decide, by decide⟩ enough
    started before live later
  exact ⟨s, s', b, b', live, live', own, child, reads⟩

end Kernel

end Yalnix
