/-
Module: Yalnix.Proofs.KernelHeap
Purpose: Calls of SetKernelBrk from any memory: growing in steps and back again, growing without
  frames, and what CloneFrame's scratch pages do to a heap that reaches up to the kernel stack.
Trusted boundary: none
Main exports: setKernelBrk_success, kernelBrk_reversible, kernelBrk_atomic_iff,
  cloneFrame_keepsHeap_iff
-/
import Mathlib.Logic.Relation
import Yalnix.Boot
import Yalnix.Proofs.FailedCalls
import Yalnix.Proofs.ForkMemory
import Yalnix.Proofs.FreshPages
import Yalnix.Proofs.RegionZero

namespace Yalnix

open Kernel Memory

variable {m m' m₁ : Memory} {addr a b : Word} {n n' cur vpn : Nat} {status : Status}

/-! ### The loops -/

/-- Growing by two stretches is growing by the first and then by the second. -/
theorem growKernelHeap_add (first : growKernelHeap n cur m = (.success, m₁)) :
    growKernelHeap (n + n') cur m = growKernelHeap n' (cur + n) m₁ := by
  induction n generalizing cur m with
  | zero =>
      cases first
      rw [Nat.zero_add, Nat.add_zero]
  | succ n inductionHypothesis =>
      rw [Nat.add_right_comm]
      rw [growKernelHeap] at first ⊢
      rcases allocated : m.allocFrame .kernel with _ | ⟨pfn, m₂⟩
      · rw [allocated] at first
        cases first
      · rw [allocated] at first
        simp only at first ⊢
        rw [inductionHypothesis first, Nat.add_right_comm, Nat.add_assoc]

/-- The loop does not look at the recorded break. -/
theorem growKernelHeap_setBrk (page : Nat) : growKernelHeap n cur { m with kernelBrkPage := page } =
    ((growKernelHeap n cur m).1, { (growKernelHeap n cur m).2 with kernelBrkPage := page }) := by
  induction n generalizing cur m with
  | zero => rfl
  | succ n inductionHypothesis =>
      have same : Memory.allocFrame { m with kernelBrkPage := page } .kernel =
          (m.allocFrame .kernel).map fun taken =>
            (taken.1, { taken.2 with kernelBrkPage := page }) := by
        unfold allocFrame
        simp only
        cases (List.range m.nframes).find? fun pfn => m.frameTable pfn = .free with
        | none => rfl
        | some pfn => rfl
      unfold growKernelHeap
      rw [same]
      rcases m.allocFrame .kernel with _ | ⟨pfn, m₁⟩
      · rfl
      · have mapped : Memory.mapRegion0 { m₁ with kernelBrkPage := page } cur pfn =
            { m₁.mapRegion0 cur pfn with kernelBrkPage := page } := by
          unfold mapRegion0
          split
          · rfl
          · rfl
        simp only [Option.map_some, mapped]
        exact inductionHypothesis

/-- Growing fails exactly if the frames do not suffice, and then none is left. -/
theorem growKernelHeap_short (scarce : m.freeFrames.card < n) :
    ∃ m', growKernelHeap n cur m = (.error, m') ∧ m'.freeFrames = ∅ ∧
      m'.nframes = m.nframes ∧ (m.freeFrames = ∅ → m' = m) := by
  induction n generalizing cur m with
  | zero => exact absurd scarce (Nat.not_lt_zero _)
  | succ n inductionHypothesis =>
      unfold growKernelHeap
      rcases allocated : m.allocFrame .kernel with _ | ⟨pfn, m₁⟩
      · exact ⟨m, rfl, allocFrame_eq_none.mp allocated, rfl, fun _ => rfl⟩
      · obtain ⟨free, rfl⟩ := allocFrame_eq_some allocated
        have left := card_freeFrames_takeFrame (show FrameUsage.kernel ≠ .free by decide) free
        have scarce' : ((m.takeFrame pfn .kernel).mapRegion0 cur pfn).freeFrames.card < n := by
          rw [mapRegion0_freeFrames]
          omega
        obtain ⟨m', failed, exhausted, frames, -⟩ := @inductionHypothesis _ (cur + 1) scarce'
        rw [(mapRegion0_frames ..).1] at frames
        refine ⟨m', failed, exhausted, frames, fun none => ?_⟩
        rw [none] at free
        exact absurd free (Finset.notMem_empty _)

theorem growKernelHeap_enough (grown : growKernelHeap n cur m = (.success, m')) :
    n ≤ m.freeFrames.card := by
  by_contra scarce
  obtain ⟨m₁, failed, -⟩ := @growKernelHeap_short m n cur (Nat.not_le.mp scarce)
  rw [grown] at failed
  cases failed

/-! ### One call -/

/-- The page `SetKernelBrk` moves the break to. -/
def brkTarget (addr : Word) : Nat := (upToPage addr).toNat / pageSize

theorem brkTarget_eq (fits : addr.toNat ≤ 0xffffe000) :
    brkTarget addr = (addr.toNat + 0x1fff) / 0x2000 := by
  rw [brkTarget, upToPage_toNat fits]
  simp only [pageSize]
  omega

theorem setKernelBrk_grows (some : addr ≠ 0) (below : brkTarget addr < kstackStartPage)
    (upward : m.kernelBrkPage ≤ brkTarget addr)
    (grown : growKernelHeap (brkTarget addr - m.kernelBrkPage) m.kernelBrkPage m =
      (.success, m')) :
    m.setKernelBrk addr = (.success, { m' with kernelBrkPage := brkTarget addr }) := by
  rw [brkTarget] at *
  unfold setKernelBrk
  simp only
  rw [if_neg some, if_neg (Nat.not_le.mpr below), grown]
  simp only
  rw [Nat.sub_eq_zero_of_le upward]
  rfl

theorem setKernelBrk_short (some : addr ≠ 0) (below : brkTarget addr < kstackStartPage)
    (failed : growKernelHeap (brkTarget addr - m.kernelBrkPage) m.kernelBrkPage m =
      (.error, m')) :
    m.setKernelBrk addr = (.error, m') := by
  rw [brkTarget] at *
  unfold setKernelBrk
  simp only
  rw [if_neg some, if_neg (Nat.not_le.mpr below), failed]

theorem setKernelBrk_shrinks (some : addr ≠ 0) (below : brkTarget addr < kstackStartPage)
    (downward : brkTarget addr ≤ m.kernelBrkPage)
    (shrunk : shrinkKernelHeap (m.kernelBrkPage - brkTarget addr) m.kernelBrkPage m =
      (.success, m')) :
    m.setKernelBrk addr = (.success, { m' with kernelBrkPage := brkTarget addr }) := by
  rw [brkTarget] at *
  unfold setKernelBrk
  simp only
  rw [if_neg some, if_neg (Nat.not_le.mpr below), Nat.sub_eq_zero_of_le downward]
  simp only [growKernelHeap]
  rw [shrunk]

theorem setKernelBrk_collides (collides : kstackStartPage ≤ brkTarget addr) :
    m.setKernelBrk addr = (.error, m) := by
  rw [brkTarget] at collides
  unfold setKernelBrk
  simp only
  rw [if_pos collides]
  exact ite_self _

/-- What a call that succeeds has done. -/
theorem setKernelBrk_success (h : m.setKernelBrk addr = (.success, m')) :
    addr ≠ 0 ∧ brkTarget addr < kstackStartPage ∧ m'.kernelBrkPage = brkTarget addr ∧
      (m.kernelBrkPage ≤ brkTarget addr ∧ (∃ grown,
          growKernelHeap (brkTarget addr - m.kernelBrkPage) m.kernelBrkPage m = (.success, grown) ∧
          m' = { grown with kernelBrkPage := brkTarget addr }) ∨
        brkTarget addr < m.kernelBrkPage ∧ ∃ shrunk,
          shrinkKernelHeap (m.kernelBrkPage - brkTarget addr) m.kernelBrkPage m =
            (.success, shrunk) ∧
          m' = { shrunk with kernelBrkPage := brkTarget addr }) := by
  by_cases null : addr = 0
  · rw [setKernelBrk, if_pos null] at h
    cases h
  by_cases collides : kstackStartPage ≤ brkTarget addr
  · rw [setKernelBrk_collides collides] at h
    cases h
  refine ⟨null, Nat.not_le.mp collides, ?_⟩
  unfold setKernelBrk at h
  simp only at h
  rw [← brkTarget, if_neg null, if_neg collides] at h
  rcases grew : growKernelHeap (brkTarget addr - m.kernelBrkPage) m.kernelBrkPage m with
    ⟨status, grown⟩
  rw [grew] at h
  cases status
  case error => cases h
  case kill => cases h
  simp only at h
  rcases shrank : shrinkKernelHeap (m.kernelBrkPage - brkTarget addr) m.kernelBrkPage grown with
    ⟨status, shrunk⟩
  rw [shrank] at h
  cases status
  case error => cases h
  case kill => cases h
  simp only [Prod.mk.injEq, true_and] at h
  refine ⟨by rw [← h], ?_⟩
  rcases Nat.lt_or_ge (brkTarget addr) m.kernelBrkPage with downward | upward
  · rw [Nat.sub_eq_zero_of_le (Nat.le_of_lt downward)] at grew
    cases grew
    exact Or.inr ⟨downward, shrunk, shrank, h.symm⟩
  · rw [Nat.sub_eq_zero_of_le upward] at shrank
    cases shrank
    exact Or.inl ⟨upward, grown, rfl, h.symm⟩

/-! ### Growing in steps and back -/

/-- The address of the break. -/
def Memory.brkAddr (m : Memory) : Word := BitVec.ofNat 32 (m.kernelBrkPage * pageSize)

/-- No page from the break up to the kernel stack is mapped. -/
def Memory.ClearAbove (m : Memory) : Prop :=
  ∀ vpn < kstackStartPage, m.kernelBrkPage ≤ vpn → (m.ptRegion0 vpn).valid = false

/-- The mapped pages below the break name frames in use, each its own. -/
def Memory.OwnBelow (m : Memory) : Prop :=
  ∀ vpn < m.kernelBrkPage, (m.ptRegion0 vpn).valid = true →
    m.frameTable (m.ptRegion0 vpn).pfn ≠ .free ∧
    ∀ other < m.kernelBrkPage, (m.ptRegion0 other).valid = true →
      (m.ptRegion0 other).pfn = (m.ptRegion0 vpn).pfn → other = vpn

/-- Moving the break to `a` and then to `b` gives the same memory as moving it to `b`; moving it
back restores the valid pages, the usage of every frame and the break. -/
structure KernelBrkReversible (m : Memory) (a b : Word) : Prop where
  adds : ∃ m₁ m', m.setKernelBrk a = (.success, m₁) ∧ m₁.setKernelBrk b = (.success, m') ∧
    m.setKernelBrk b = (.success, m')
  reverses : ∃ m' m'', m.setKernelBrk b = (.success, m') ∧
    m'.setKernelBrk m.brkAddr = (.success, m'') ∧
    (∀ vpn, (m''.ptRegion0 vpn).valid = (m.ptRegion0 vpn).valid) ∧
    m''.frameTable = m.frameTable ∧ m''.kernelBrkPage = m.kernelBrkPage

/-- Recording the break changes no page and no frame. -/
theorem FreshPages.recorded {usage : FrameUsage} {pages : Finset Nat} {pt pt' : PageTable}
    (fresh : FreshPages usage pages m pt m' pt') (page : Nat) :
    FreshPages usage pages m pt { m' with kernelBrkPage := page } pt' where
  mapped := fresh.mapped
  wasFree := fresh.wasFree
  distinct := fresh.distinct
  kept := fresh.kept
  taken := fresh.taken
  untaken := fresh.untaken
  nframes := fresh.nframes
  phys := fresh.phys

/-- A call that grows the heap with enough frames. -/
theorem setKernelBrk_fresh (some : addr ≠ 0) (below : brkTarget addr < kstackStartPage)
    (upward : m.kernelBrkPage ≤ brkTarget addr)
    (enough : brkTarget addr - m.kernelBrkPage ≤ m.freeFrames.card) :
    ∃ m', growKernelHeap (brkTarget addr - m.kernelBrkPage) m.kernelBrkPage m = (.success, m') ∧
      m.setKernelBrk addr = (.success, { m' with kernelBrkPage := brkTarget addr }) ∧
      FreshPages .kernel (Finset.Ico m.kernelBrkPage (brkTarget addr)) m m.ptRegion0 m'
        m'.ptRegion0 := by
  have reach : m.kernelBrkPage + (brkTarget addr - m.kernelBrkPage) = brkTarget addr :=
    Nat.add_sub_cancel' upward
  have inside : m.kernelBrkPage + (brkTarget addr - m.kernelBrkPage) ≤ maxPtLen := by
    rw [reach]
    simp only [kstackStartPage, maxPtLen] at below ⊢
    omega
  obtain ⟨m', grown, -, fresh⟩ := growKernelHeap_fresh inside enough
  rw [reach] at fresh
  exact ⟨m', grown, setKernelBrk_grows some below upward grown, fresh⟩

/-- Every growth by any two addresses, page-aligned or not, from a break that is not `NULL`. -/
theorem kernelBrk_reversible (clear : m.ClearAbove) (some : m.brkAddr ≠ 0)
    (low : m.kernelBrkPage * pageSize ≤ a.toNat) (order : a.toNat ≤ b.toNat)
    (below : (b.toNat + 0x1fff) / 0x2000 < kstackStartPage)
    (enough : (b.toNat + 0x1fff) / 0x2000 - m.kernelBrkPage ≤ m.freeFrames.card) :
    KernelBrkReversible m a b := by
  simp only [kstackStartPage] at below
  have targetA : brkTarget a = (a.toNat + 0x1fff) / 0x2000 := brkTarget_eq (by omega)
  have targetB : brkTarget b = (b.toNat + 0x1fff) / 0x2000 := brkTarget_eq (by omega)
  rw [← targetB] at below enough
  have toA : m.kernelBrkPage ≤ brkTarget a := by
    simp only [pageSize] at low
    omega
  have toB : brkTarget a ≤ brkTarget b := by omega
  have brkAddr : m.brkAddr.toNat = m.kernelBrkPage * 0x2000 := by
    simp only [Memory.brkAddr, pageSize, BitVec.toNat_ofNat]
    omega
  have positive : 0 < m.kernelBrkPage := by
    by_contra zero
    apply some
    rw [Memory.brkAddr, Nat.eq_zero_of_not_pos zero, Nat.zero_mul]
    rfl
  have null : (0 : Word).toNat = 0 := rfl
  simp only [pageSize] at low
  have someA : a ≠ 0 := by
    rintro rfl
    omega
  have someB : b ≠ 0 := by
    rintro rfl
    omega
  obtain ⟨m', grown, whole, fresh⟩ := setKernelBrk_fresh someB below (toA.trans toB) enough
  constructor
  case adds =>
    obtain ⟨m₁, first, half, -⟩ :=
      setKernelBrk_fresh someA (Nat.lt_of_le_of_lt toB below) toA (by omega)
    refine ⟨_, _, half, ?_, whole⟩
    have split : brkTarget b - m.kernelBrkPage =
        brkTarget a - m.kernelBrkPage + (brkTarget b - brkTarget a) := by omega
    rw [split, growKernelHeap_add first, Nat.add_sub_cancel' toA] at grown
    obtain ⟨m₂, isHalf⟩ : ∃ m₂, m₂ = { m₁ with kernelBrkPage := brkTarget a } := ⟨_, rfl⟩
    obtain ⟨m₃, isWhole⟩ : ∃ m₃, m₃ = { m' with kernelBrkPage := brkTarget a } := ⟨_, rfl⟩
    have halfBrk : m₂.kernelBrkPage = brkTarget a := by rw [isHalf]
    have grown' : growKernelHeap (brkTarget b - m₂.kernelBrkPage) m₂.kernelBrkPage m₂ =
        (.success, m₃) := by
      rw [halfBrk, isHalf, growKernelHeap_setBrk, grown, isWhole]
    have toB' : m₂.kernelBrkPage ≤ brkTarget b := by
      rw [halfBrk]
      exact toB
    have last := setKernelBrk_grows someB below toB' grown'
    rw [isHalf, isWhole] at last
    exact last
  case reverses =>
    have back : brkTarget m.brkAddr = m.kernelBrkPage := by
      rw [brkTarget_eq (by omega), brkAddr]
      omega
    obtain ⟨raised, isRaised⟩ : ∃ raised, raised =
        { m' with kernelBrkPage := brkTarget b } := ⟨_, rfl⟩
    have fresh' : FreshPages .kernel (Finset.Ico m.kernelBrkPage (brkTarget b)) m m.ptRegion0
        raised raised.ptRegion0 := by
      rw [isRaised]
      exact fresh.recorded _
    have reach : m.kernelBrkPage + (brkTarget b - m.kernelBrkPage) = brkTarget b :=
      Nat.add_sub_cancel' (toA.trans toB)
    have inside : m.kernelBrkPage + (brkTarget b - m.kernelBrkPage) ≤ maxPtLen := by
      simp only [maxPtLen]
      omega
    have mapped : ∀ vpn, m.kernelBrkPage ≤ vpn →
        vpn < m.kernelBrkPage + (brkTarget b - m.kernelBrkPage) →
        (raised.ptRegion0 vpn).valid = true := by
      intro vpn fromBrk toTarget
      rw [reach] at toTarget
      rw [fresh'.mapped vpn (Finset.mem_Ico.mpr ⟨fromBrk, toTarget⟩)]
    obtain ⟨m₂, shrunk, -, freed⟩ := shrinkKernelHeap_freed inside mapped
    have raisedBrk : raised.kernelBrkPage = brkTarget b := by rw [isRaised]
    have shrunk' : shrinkKernelHeap (raised.kernelBrkPage - brkTarget m.brkAddr)
        raised.kernelBrkPage raised = (.success, m₂) := by
      rw [raisedBrk, back]
      rw [reach] at shrunk
      exact shrunk
    have returned := setKernelBrk_shrinks some
      (by rw [back]; exact Nat.lt_of_le_of_lt (toA.trans toB) below)
      (by rw [back, raisedBrk]; exact toA.trans toB) shrunk'
    have gap : ∀ vpn ∈ Finset.Ico m.kernelBrkPage (brkTarget b),
        (m.ptRegion0 vpn).valid = false := by
      intro vpn member
      obtain ⟨fromBrk, toTarget⟩ := Finset.mem_Ico.mp member
      exact clear vpn (Nat.lt_trans toTarget below) fromBrk
    rw [reach] at freed
    refine ⟨raised, _, by rw [isRaised]; exact whole, returned, ?_, ?_, back⟩
    · exact fresh'.unmappedBack freed gap
    · have usages := fresh'.givenBack freed
      exact usages

/-- The kernel heap grows from page 10 to page 14 in two steps, and back. -/
theorem kernelBrk_reversible_sample : ∃ m a b, m = bootMemory sampleBoot ∧ a = 0x17001 ∧
    b = 0x1a004 ∧ KernelBrkReversible m a b := by
  have clear : (bootMemory sampleBoot).ClearAbove := by
    unfold Memory.ClearAbove
    decide +kernel
  exact ⟨_, _, _, rfl, rfl, rfl, kernelBrk_reversible clear (by decide) (by decide) (by decide)
    (by decide) (by decide +kernel)⟩

/-- From page 0 there is no way back: the address of the break is `NULL`. -/
theorem kernelBrk_irreversible : ¬ ∀ (m : Memory) (a b : Word), m.ClearAbove → m.OwnBelow →
    m.kernelBrkPage * pageSize ≤ a.toNat → a.toNat ≤ b.toNat →
    (b.toNat + 0x1fff) / 0x2000 < kstackStartPage →
    (b.toNat + 0x1fff) / 0x2000 - m.kernelBrkPage ≤ m.freeFrames.card →
    KernelBrkReversible m a b := by
  intro reversible
  obtain ⟨m, isEmpty⟩ : ∃ m : Memory, m = bootMemory { sampleBoot with
    firstKernelTextPage := 0, firstKernelDataPage := 0, origKernelBrkPage := 0 } := ⟨_, rfl⟩
  have page : m.kernelBrkPage = 0 := by rw [isEmpty]; rfl
  have clear : m.ClearAbove := by
    rw [isEmpty]
    unfold Memory.ClearAbove
    decide +kernel
  have own : m.OwnBelow := by
    intro vpn low
    rw [page] at low
    exact absurd low (Nat.not_lt_zero _)
  have enough : ((0x2000 : Word).toNat + 0x1fff) / 0x2000 - m.kernelBrkPage ≤
      m.freeFrames.card := by
    rw [isEmpty]
    decide +kernel
  obtain ⟨m', m'', -, back, -⟩ := (reversible m 0x2000 0x2000 clear own (by rw [page]; decide)
    (Nat.le_refl _) (by decide) enough).reverses
  have null : m.brkAddr = 0 := by
    rw [Memory.brkAddr, page]
    rfl
  rw [null, setKernelBrk, if_pos rfl] at back
  cases back

/-! ### Growing without frames -/

/-- The call fails and leaves valid pages, frames and break as they are, so that, if no page above
the break was mapped, no later call that succeeds maps a mapped page again, however many frames
were freed in between. -/
structure KernelBrkFailsAtomically (m : Memory) (addr : Word) (m' : Memory) : Prop where
  failed : m.setKernelBrk addr = (.error, m')
  valid : ∀ vpn, (m'.ptRegion0 vpn).valid = (m.ptRegion0 vpn).valid
  usages : m'.frameTable = m.frameTable
  free : m'.freeNframes = m.freeNframes
  brk : m'.kernelBrkPage = m.kernelBrkPage
  keeps : m.ClearAbove → ∀ (m₁ : Memory) (later : Word) (m₂ : Memory),
    m₁.ptRegion0 = m'.ptRegion0 → m₁.kernelBrkPage = m'.kernelBrkPage →
    m₁.setKernelBrk later = (.success, m₂) → ∀ vpn, (m₁.ptRegion0 vpn).valid = true →
      (m₂.ptRegion0 vpn).valid = true → m₂.ptRegion0 vpn = m₁.ptRegion0 vpn

/-- A call that succeeds maps no mapped page again. -/
theorem Memory.ClearAbove.keeps (clear : m.ClearAbove)
    (moved : m.setKernelBrk addr = (.success, m')) (before : (m.ptRegion0 vpn).valid = true)
    (after : (m'.ptRegion0 vpn).valid = true) : m'.ptRegion0 vpn = m.ptRegion0 vpn := by
  obtain ⟨-, below, -, ⟨upward, grown, grew, rfl⟩ | ⟨-, shrunk, shrank, rfl⟩⟩ :=
    setKernelBrk_success moved
  · apply growKernelHeap_eq grew
    rintro ⟨fromBrk, toTarget⟩
    rw [clear vpn (by omega) fromBrk] at before
    cases before
  · have left : (shrunk.ptRegion0 vpn).valid = true := after
    have same := shrinkKernelHeap_left shrank left
    exact same

/-- A failing call that returns the memory it was given. -/
theorem kernelBrk_atomic_of_same (same : m.setKernelBrk addr = (.error, m)) :
    KernelBrkFailsAtomically m addr m where
  failed := same
  valid := fun _ => rfl
  usages := rfl
  free := rfl
  brk := rfl
  keeps := by
    intro clear m₁ later m₂ table brk moved vpn before after
    have clear₁ : m₁.ClearAbove := by
      intro page below fromBrk
      rw [table]
      rw [brk] at fromBrk
      exact clear page below fromBrk
    exact clear₁.keeps moved before after

/-- Every target for which there are too few frames, in every memory. -/
theorem kernelBrk_atomic_iff (scarce : m.freeFrames.card < brkTarget addr - m.kernelBrkPage) :
    (∃ m', KernelBrkFailsAtomically m addr m') ↔
      kstackStartPage ≤ brkTarget addr ∨ m.freeFrames = ∅ := by
  have some : addr ≠ 0 := by
    rintro rfl
    have null : brkTarget 0 = 0 := rfl
    omega
  obtain ⟨m₁, failed, exhausted, frames, same⟩ :=
    @growKernelHeap_short m (brkTarget addr - m.kernelBrkPage) m.kernelBrkPage scarce
  constructor
  · rintro ⟨m', atomic⟩
    by_contra reached
    obtain ⟨below, left⟩ := not_or.mp reached
    have short := setKernelBrk_short some (Nat.not_le.mp below) failed
    obtain rfl : m₁ = m' := by
      have result := short.symm.trans atomic.failed
      cases result
      rfl
    exact left ((freeFrames_congr frames atomic.usages).symm.trans exhausted)
  · rintro (collides | none)
    · exact ⟨m, kernelBrk_atomic_of_same (setKernelBrk_collides collides)⟩
    · obtain rfl := same none
      by_cases collides : kstackStartPage ≤ brkTarget addr
      · exact ⟨m₁, kernelBrk_atomic_of_same (setKernelBrk_collides collides)⟩
      · exact ⟨m₁, kernelBrk_atomic_of_same
          (setKernelBrk_short some (Nat.not_le.mp collides) failed)⟩

/-- Without a free frame the kernel heap does not grow by a single page. -/
theorem kernelBrk_atomic_full : ∃ m addr m', m.freeFrames = ∅ ∧
    KernelBrkFailsAtomically m addr m' := by
  have none : (bootMemory { sampleBoot with nframes := 10 }).freeFrames = ∅ := by decide +kernel
  have scarce : (bootMemory { sampleBoot with nframes := 10 }).freeFrames.card <
      brkTarget 0x18000 - (bootMemory { sampleBoot with nframes := 10 }).kernelBrkPage := by
    rw [none]
    decide
  obtain ⟨m', atomic⟩ := (kernelBrk_atomic_iff scarce).mpr (Or.inr none)
  exact ⟨_, _, m', none, atomic⟩

/-- Two frames are left and four pages asked for: two are mapped, and stay mapped. -/
theorem kernelBrk_keeps_pages : ¬ ∀ (m : Memory) (addr : Word),
    m.freeFrames.card < brkTarget addr - m.kernelBrkPage →
    ∃ m', KernelBrkFailsAtomically m addr m' := by
  intro atomic
  have answer : runs sampleEnv tightBoot (fun _ _ => true) [.tick, .resume]
      (fun s => decide (s.mem.freeFrames.card < brkTarget 0xf8000 - s.mem.kernelBrkPage ∧
        s.mem.freeFrames.Nonempty)) = .ok true := by
    decide +kernel
  obtain ⟨boot, s, -, -, known⟩ := runs_sound (fun _ _ => True) (fun _ _ _ => trivial) answer
  obtain ⟨scarce, left⟩ := of_decide_eq_true known
  obtain ⟨m', unchanged⟩ := atomic s.mem 0xf8000 scarce
  have some : (0xf8000 : Word) ≠ 0 := by decide
  obtain ⟨m₁, failed, exhausted, frames, -⟩ :=
    @growKernelHeap_short s.mem (brkTarget 0xf8000 - s.mem.kernelBrkPage) s.mem.kernelBrkPage
      scarce
  have result := (setKernelBrk_short some (by decide) failed).symm.trans unchanged.failed
  cases result
  rw [freeFrames_congr frames unchanged.usages] at exhausted
  rw [exhausted] at left
  exact Finset.not_nonempty_empty left

/-! ### Copying a frame -/

/-- The break lies below the kernel stack, and the pages from `low` up to it are mapped. -/
structure Memory.HeapMapped (low : Nat) (m : Memory) : Prop where
  below : m.kernelBrkPage < kstackStartPage
  mapped : ∀ vpn, low ≤ vpn → vpn < m.kernelBrkPage → (m.ptRegion0 vpn).valid = true

/-- The memories that calls of `SetKernelBrk`, all of them successful, lead to. -/
def KernelBrkRun : Memory → Memory → Prop :=
  Relation.ReflTransGen fun m m' => ∃ addr, m.setKernelBrk addr = (.success, m')

/-- What boot sets up, from the first page of the kernel's text on. -/
theorem bootMemory_heapMapped {cfg : BootConfig} (below : cfg.origKernelBrkPage < kstackStartPage) :
    (bootMemory cfg).HeapMapped cfg.firstKernelTextPage where
  below := below
  mapped := by
    intro vpn fromText toBrk
    have brk : vpn < cfg.origKernelBrkPage := toBrk
    have notStack : ¬ (kstackStartPage ≤ vpn ∧ vpn < kstackStartPage + kstackPages) := by omega
    simp only [bootMemory, if_neg notStack]
    by_cases data : cfg.firstKernelDataPage ≤ vpn
    · rw [if_pos ⟨data, brk⟩]
    · rw [if_neg (fun range => data range.1), if_pos ⟨fromText, Nat.not_le.mp data⟩]

/-- One successful call. -/
theorem Memory.HeapMapped.step {low : Nat} (heap : m.HeapMapped low)
    (moved : m.setKernelBrk addr = (.success, m')) : m'.HeapMapped low := by
  obtain ⟨-, below, brk, ⟨upward, grown, grew, rfl⟩ | ⟨downward, shrunk, shrank, rfl⟩⟩ :=
    setKernelBrk_success moved
  · -- the heap grows
    have reach : m.kernelBrkPage + (brkTarget addr - m.kernelBrkPage) = brkTarget addr :=
      Nat.add_sub_cancel' upward
    have inside : m.kernelBrkPage + (brkTarget addr - m.kernelBrkPage) ≤ maxPtLen := by
      rw [reach]
      simp only [kstackStartPage, maxPtLen] at below ⊢
      omega
    obtain ⟨m₁, again, -, fresh⟩ := growKernelHeap_fresh inside (growKernelHeap_enough grew)
    obtain rfl : m₁ = grown := by
      have result := again.symm.trans grew
      cases result
      rfl
    refine ⟨below, fun vpn fromLow toTarget => fresh.valid_iff.mpr ?_⟩
    by_cases old : vpn < m.kernelBrkPage
    · exact Or.inr (heap.mapped vpn fromLow old)
    · exact Or.inl (Finset.mem_Ico.mpr ⟨Nat.not_lt.mp old, by rw [reach]; exact toTarget⟩)
  · -- the heap shrinks
    refine ⟨below, fun vpn fromLow toTarget => ?_⟩
    have target : vpn < brkTarget addr := toTarget
    have kept : shrunk.ptRegion0 vpn = m.ptRegion0 vpn :=
      shrinkKernelHeap_kept shrank (by omega)
    simp only
    rw [kept]
    exact heap.mapped vpn fromLow (Nat.lt_trans target downward)

/-- Every run of successful calls. -/
theorem Memory.HeapMapped.run {low : Nat} (heap : m.HeapMapped low) (run : KernelBrkRun m m') :
    m'.HeapMapped low := by
  induction run with
  | refl => exact heap
  | tail _ call inductionHypothesis =>
      obtain ⟨addr, moved⟩ := call
      exact inductionHypothesis.step moved

/-- `CloneFrame` copies the contents of the frame and keeps the pages of the kernel heap. -/
structure CloneKeepsHeap (m : Memory) (pfnSrc pfnDst : Nat) : Prop where
  copied : (m.cloneFrame pfnSrc pfnDst).phys pfnDst = m.phys pfnSrc
  kept : ∀ vpn < m.kernelBrkPage, (m.ptRegion0 vpn).valid = true →
    (m.cloneFrame pfnSrc pfnDst).ptRegion0 vpn = m.ptRegion0 vpn

/-- A heap that reaches over the lower scratch page loses the page there. -/
theorem Memory.HeapMapped.loses {low : Nat} (heap : m.HeapMapped low) (text : low ≤ scratchVpnSrc)
    (above : scratchVpnSrc < m.kernelBrkPage) (pfnSrc pfnDst : Nat) :
    ¬ CloneKeepsHeap m pfnSrc pfnDst := by
  intro keeps
  have mapped := heap.mapped scratchVpnSrc text above
  have kept := keeps.kept scratchVpnSrc above mapped
  rw [← kept, (cloneFrame_scratch m pfnSrc pfnDst).1] at mapped
  cases mapped

/-- Every pair of frames, in every memory that successful calls lead to from a boot: the heap is
kept as long as it ends at or below the lower scratch page. -/
theorem cloneFrame_keepsHeap_iff {cfg : BootConfig}
    (below : cfg.origKernelBrkPage < kstackStartPage)
    (text : cfg.firstKernelTextPage ≤ scratchVpnSrc) (run : KernelBrkRun (bootMemory cfg) m)
    (pfnSrc pfnDst : Nat) : CloneKeepsHeap m pfnSrc pfnDst ↔ m.kernelBrkPage ≤ scratchVpnSrc := by
  have heap := (bootMemory_heapMapped below).run run
  constructor
  · intro keeps
    by_contra above
    exact heap.loses text (Nat.not_le.mp above) pfnSrc pfnDst keeps
  · intro short
    constructor
    · rw [cloneFrame_phys, Function.update_self]
    · intro vpn inHeap _
      have low : vpn < scratchVpnSrc := Nat.lt_of_lt_of_le inHeap short
      have order : scratchVpnSrc < scratchVpnDst := by decide
      exact cloneFrame_region0 m _ _ (Nat.ne_of_lt low) (Nat.ne_of_lt (Nat.lt_trans low order))

/-- The call of `SetKernelBrk(addr)` that boot could make first. -/
theorem kernelBrkRun_single {cfg : BootConfig} {addr : Word} {page : Nat}
    (moved : ((bootMemory cfg).setKernelBrk addr).1 = .success) (target : brkTarget addr = page) :
    ∃ m, KernelBrkRun (bootMemory cfg) m ∧ m.kernelBrkPage = page := by
  have call : (bootMemory cfg).setKernelBrk addr =
      (.success, ((bootMemory cfg).setKernelBrk addr).2) := Prod.ext moved rfl
  obtain ⟨-, -, brk, -⟩ := setKernelBrk_success call
  exact ⟨_, .single ⟨addr, call⟩, brk.trans target⟩

/-- The heap ends just below the scratch pages. -/
theorem cloneFrame_keepsHeap_sample : ∃ m, KernelBrkRun (bootMemory sampleBoot) m ∧
    m.kernelBrkPage = 124 ∧ CloneKeepsHeap m 3 150 := by
  obtain ⟨m, run, brk⟩ : ∃ m, KernelBrkRun (bootMemory sampleBoot) m ∧ m.kernelBrkPage = 124 :=
    @kernelBrkRun_single sampleBoot 0xf8000 124 (by decide +kernel) (by decide)
  have short : m.kernelBrkPage ≤ scratchVpnSrc := by
    rw [brk]
    decide
  exact ⟨m, run, brk, (cloneFrame_keepsHeap_iff (by decide) (by decide) run 3 150).mpr short⟩

/-- The last page below the upper scratch page may be in the heap, and then it is lost. -/
theorem cloneFrame_unmaps_heap : ¬ ∀ (cfg : BootConfig) (m : Memory) (pfnSrc pfnDst : Nat),
    cfg.origKernelBrkPage < kstackStartPage → cfg.firstKernelTextPage ≤ scratchVpnSrc →
    KernelBrkRun (bootMemory cfg) m → CloneKeepsHeap m pfnSrc pfnDst := by
  intro keeps
  obtain ⟨m, run, brk⟩ : ∃ m, KernelBrkRun (bootMemory sampleBoot) m ∧ m.kernelBrkPage = 125 :=
    @kernelBrkRun_single sampleBoot 0xfa000 125 (by decide +kernel) (by decide)
  have heap : m.HeapMapped sampleBoot.firstKernelTextPage :=
    (bootMemory_heapMapped (by decide)).run run
  have above : scratchVpnSrc < m.kernelBrkPage := by
    rw [brk]
    decide
  exact heap.loses (by decide) above 3 150
    (keeps sampleBoot m 3 150 (by decide) (by decide) run)

end Yalnix
