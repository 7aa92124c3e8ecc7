/-
Module: Yalnix.Proofs.RegionZero
Purpose: Which entries of the region 0 table each memory operation can change: the kernel heap and
  the scratch pages, never the pages of the kernel stack.
Trusted boundary: none
Main exports: Memory.Region0Kept, Memory.StackEntriesKept, StackEntriesKept.setKernelBrk,
  growKernelHeap_eq, shrinkKernelHeap_kept
-/
import Yalnix.Proofs.Loading

namespace Yalnix.Memory

variable {m m' m₁ m₂ m₃ : Memory} {pt pt' : PageTable}

/-- The region 0 table and the kernel break are left alone. -/
structure Region0Kept (m m' : Memory) : Prop where
  table : m'.ptRegion0 = m.ptRegion0
  brk : m'.kernelBrkPage = m.kernelBrkPage

/-- With the kernel heap below the kernel stack, it stays there and the entries from the kernel
stack on are left alone. -/
def StackEntriesKept (m m' : Memory) : Prop :=
  m.kernelBrkPage ≤ kstackStartPage → m'.kernelBrkPage ≤ kstackStartPage ∧
    ∀ vpn, kstackStartPage ≤ vpn → m'.ptRegion0 vpn = m.ptRegion0 vpn

namespace Region0Kept

theorem refl (m : Memory) : Region0Kept m m := ⟨rfl, rfl⟩

theorem trans (first : Region0Kept m₁ m₂) (second : Region0Kept m₂ m₃) : Region0Kept m₁ m₃ :=
  ⟨second.table.trans first.table, second.brk.trans first.brk⟩

theorem stack (h : Region0Kept m m') : StackEntriesKept m m' := by
  intro below
  rw [h.brk, h.table]
  exact ⟨below, fun _ _ => rfl⟩

theorem writesOnly (h : WritesOnly m m') : Region0Kept m m' := by
  obtain ⟨phys, rfl⟩ := h
  exact ⟨rfl, rfl⟩

theorem takeFrame (pfn : Nat) (usage : FrameUsage) : Region0Kept m (m.takeFrame pfn usage) :=
  ⟨rfl, rfl⟩

theorem freeFrame (pfn : Int) : Region0Kept m (m.freeFrame pfn) :=
  ⟨freeFrame_ptRegion0, freeFrame_kernelBrkPage⟩

theorem allocFrame {usage : FrameUsage} {pfn : Nat} (h : m.allocFrame usage = some (pfn, m')) :
    Region0Kept m m' := by
  obtain ⟨-, rfl⟩ := allocFrame_eq_some h
  exact takeFrame pfn usage

theorem allocSpecificFrame {usage : FrameUsage} {pfn : Int} {result : Option Nat}
    (h : m.allocSpecificFrame pfn usage = .ok (result, m')) : Region0Kept m m' := by
  unfold Memory.allocSpecificFrame at h
  split at h
  · cases h
    exact refl _
  · split at h
    · cases h
    · split at h
      · cases h
        exact refl _
      · cases h
        exact takeFrame ..

theorem undoGrowStack {targetVpn n : Nat} (h : undoGrowStack targetVpn n m pt = (m', pt')) :
    Region0Kept m m' := by
  induction n generalizing m' pt' with
  | zero =>
      cases h
      exact refl _
  | succ n inductionHypothesis =>
      cases h
      exact (inductionHypothesis rfl).trans (freeFrame _)

theorem growStackPages {targetVpn n i : Nat} {status : Status}
    (h : growStackPages targetVpn n i m pt = .ok (status, m', pt')) : Region0Kept m m' := by
  induction n generalizing i m pt with
  | zero =>
      cases h
      exact refl _
  | succ n inductionHypothesis =>
      unfold Memory.growStackPages at h
      rcases allocated : m.allocFrame .user with _ | ⟨pfn, m₁⟩
      · simp only [allocated] at h
        cases h
        exact undoGrowStack rfl
      · simp only [allocated, bind_eq_ok] at h
        obtain ⟨vpn, -, h⟩ := h
        exact (allocFrame allocated).trans (inductionHypothesis h)

theorem brkGrow {n vpn : Nat} {status : Status} (h : brkGrow n vpn m pt = .ok (status, m', pt')) :
    Region0Kept m m' := by
  induction n generalizing vpn m pt with
  | zero =>
      cases h
      exact refl _
  | succ n inductionHypothesis =>
      simp only [Memory.brkGrow, bind_eq_ok] at h
      obtain ⟨i, -, h⟩ := h
      by_cases valid : (pt i).valid = true
      · rw [if_pos valid] at h
        exact inductionHypothesis h
      · rw [if_neg valid] at h
        rcases allocated : m.allocFrame .user with _ | ⟨pfn, m₁⟩
        · simp only [allocated] at h
          cases h
          exact refl _
        · simp only [allocated] at h
          exact (allocFrame allocated).trans (inductionHypothesis h)

theorem brkShrink {targetVpn fuel vpn vpn' : Nat}
    (h : brkShrink targetVpn fuel vpn m pt = .ok (vpn', m', pt')) : Region0Kept m m' := by
  induction fuel generalizing vpn m pt with
  | zero =>
      unfold Memory.brkShrink at h
      split at h
      · cases h
        exact refl _
      · cases h
  | succ fuel inductionHypothesis =>
      unfold Memory.brkShrink at h
      split at h
      · cases h
        exact refl _
      · simp only [bind_eq_ok] at h
        obtain ⟨i, -, h⟩ := h
        split at h
        · exact (freeFrame _).trans (inductionHypothesis h)
        · exact inductionHypothesis h

theorem clearRegion1 {entries : List Nat} (h : clearRegion1 entries m pt = (m', pt')) :
    Region0Kept m m' := by
  induction entries generalizing m pt with
  | nil =>
      cases h
      exact refl _
  | cons vpn rest inductionHypothesis =>
      unfold Yalnix.clearRegion1 at h
      split at h
      · exact (freeFrame _).trans (inductionHypothesis h)
      · exact inductionHypothesis h

theorem loadSegment {base : Int} {n i : Nat} (h : loadSegment base n i m pt = .ok (m', pt')) :
    Region0Kept m m' := by
  induction n generalizing i m pt with
  | zero =>
      cases h
      exact refl _
  | succ n inductionHypothesis =>
      obtain ⟨vpn, -, -, ⟨pfn, -, h⟩ | ⟨-, h⟩⟩ := loadSegment_succ h
      · exact (takeFrame pfn .user).trans (inductionHypothesis h)
      · exact inductionHypothesis h

theorem loadSegments {plan : LoadPlan} (h : loadSegments plan m pt = .ok (m', pt')) :
    Region0Kept m m' := by
  simp only [Yalnix.loadSegments, bind_eq_ok] at h
  obtain ⟨⟨m₁, pt₁⟩, text, ⟨m₂, pt₂⟩, data, stack⟩ := h
  exact ((loadSegment text).trans (loadSegment data)).trans (loadSegment stack)

theorem initKernelStackPages {n i : Nat}
    (h : Kernel.initKernelStackPages n i m pt = .ok (m', pt')) : Region0Kept m m' := by
  induction n generalizing i m pt with
  | zero =>
      cases h
      exact refl _
  | succ n inductionHypothesis =>
      unfold Kernel.initKernelStackPages at h
      rcases allocated : m.allocFrame .kernel with _ | ⟨pfn, m₁⟩
      · simp only [allocated] at h
        cases h
      · simp only [allocated] at h
        exact (allocFrame allocated).trans (inductionHypothesis h)

end Region0Kept

namespace StackEntriesKept

theorem refl (m : Memory) : StackEntriesKept m m := (Region0Kept.refl m).stack

theorem trans (first : StackEntriesKept m₁ m₂) (second : StackEntriesKept m₂ m₃) :
    StackEntriesKept m₁ m₃ := by
  intro below
  obtain ⟨below₂, same⟩ := first below
  obtain ⟨below₃, same'⟩ := second below₂
  exact ⟨below₃, fun vpn stack => (same' vpn stack).trans (same vpn stack)⟩

/-- Updating an entry below the kernel stack. -/
theorem update {vpn : Nat} (below : vpn < kstackStartPage) (e : Pte) :
    StackEntriesKept m { m with ptRegion0 := Function.update m.ptRegion0 vpn e } := by
  intro heap
  refine ⟨heap, fun other stack => ?_⟩
  exact Function.update_of_ne (Nat.ne_of_gt (Nat.lt_of_lt_of_le below stack)) ..

theorem mapRegion0 {vpn pfn : Nat} (below : vpn < kstackStartPage) :
    StackEntriesKept m (m.mapRegion0 vpn pfn) := by
  unfold Memory.mapRegion0
  split
  · exact update below _
  · exact refl _

theorem unmapRegion0 {vpn : Nat} (below : vpn < kstackStartPage) :
    StackEntriesKept m (m.unmapRegion0 vpn) := by
  unfold Memory.unmapRegion0
  split
  · exact update below _
  · exact refl _

/-- The scratch pages lie below the kernel stack. -/
theorem cloneFrame (src dst : Nat) : StackEntriesKept m (m.cloneFrame src dst) := by
  intro heap
  refine ⟨heap, fun vpn stack => ?_⟩
  have notSrc : vpn ≠ scratchVpnSrc := Nat.ne_of_gt (Nat.lt_of_lt_of_le (by decide) stack)
  have notDst : vpn ≠ scratchVpnDst := Nat.ne_of_gt (Nat.lt_of_lt_of_le (by decide) stack)
  simp only [Memory.cloneFrame, copyPage, PageTable.invalidate, Function.update_of_ne notSrc,
    Function.update_of_ne notDst]

theorem copyPTEntries {entries : List Nat} {status : Status} {src : PageTable}
    (h : copyPTEntries src entries m pt = (status, m', pt')) : StackEntriesKept m m' := by
  induction entries generalizing m pt with
  | nil =>
      cases h
      exact refl _
  | cons i rest inductionHypothesis =>
      unfold Memory.copyPTEntries at h
      split at h
      · rcases allocated : m.allocFrame .user with _ | ⟨pfn, m₁⟩
        · simp only [allocated] at h
          cases h
          exact refl _
        · simp only [allocated] at h
          have taken := (Region0Kept.allocFrame allocated).stack
          exact (taken.trans (cloneFrame _ _)).trans (inductionHypothesis h)
      · exact inductionHypothesis h

theorem copyKernelStack (src dst : PageTable) :
    StackEntriesKept m (Kernel.copyKernelStack src dst m) := by
  unfold Kernel.copyKernelStack
  induction List.range kstackPages generalizing m with
  | nil => exact refl _
  | cons i rest inductionHypothesis => exact (cloneFrame _ _).trans inductionHypothesis

/-- The growing loop maps pages below its target. -/
theorem growKernelHeap {n cur : Nat} {status : Status} (below : cur + n ≤ kstackStartPage)
    (h : growKernelHeap n cur m = (status, m')) : StackEntriesKept m m' := by
  induction n generalizing cur m with
  | zero =>
      cases h
      exact refl _
  | succ n inductionHypothesis =>
      unfold Memory.growKernelHeap at h
      rcases allocated : m.allocFrame .kernel with _ | ⟨pfn, m₁⟩
      · simp only [allocated] at h
        cases h
        exact refl _
      · simp only [allocated] at h
        have taken := (Region0Kept.allocFrame allocated).stack
        have mapped : StackEntriesKept m₁ (m₁.mapRegion0 cur pfn) := mapRegion0 (by omega)
        exact (taken.trans mapped).trans (inductionHypothesis (by omega) h)

/-- The shrinking loop unmaps pages below the old break. -/
theorem shrinkKernelHeap {n cur : Nat} {status : Status} (below : cur ≤ kstackStartPage)
    (some : n ≤ cur) (h : shrinkKernelHeap n cur m = (status, m')) : StackEntriesKept m m' := by
  induction n generalizing cur m with
  | zero =>
      cases h
      exact refl _
  | succ n inductionHypothesis =>
      unfold Memory.shrinkKernelHeap at h
      simp only at h
      split at h
      · cases h
        exact refl _
      · have page : cur - 1 < kstackStartPage := by omega
        split at h
        · have unmapped : StackEntriesKept m (m.unmapRegion0 (cur - 1)) := unmapRegion0 page
          have freed := (Region0Kept.freeFrame (m := m.unmapRegion0 (cur - 1))
            (m.ptRegion0 (cur - 1)).pfn).stack
          exact (unmapped.trans freed).trans (inductionHypothesis (by omega) (by omega) h)
        · exact inductionHypothesis (by omega) (by omega) h

/-- Whatever address the break is moved to, the entries of the kernel stack are left alone. -/
theorem setKernelBrk (addr : Word) : StackEntriesKept m (m.setKernelBrk addr).2 := by
  intro below
  unfold Memory.setKernelBrk
  generalize (upToPage addr).toNat / pageSize = target
  split
  · exact refl m below
  · simp only
    split
    · exact refl m below
    · rename_i inside
      have fits : target ≤ kstackStartPage := Nat.le_of_not_le inside
      rcases grown : Memory.growKernelHeap (target - m.kernelBrkPage) m.kernelBrkPage m with
        ⟨status, m₁⟩
      have room : m.kernelBrkPage + (target - m.kernelBrkPage) ≤ kstackStartPage := by omega
      have grew : StackEntriesKept m m₁ := growKernelHeap room grown
      rcases status with _ | _ | _
      · rcases shrunk : Memory.shrinkKernelHeap (m.kernelBrkPage - target) m.kernelBrkPage m₁ with
          ⟨status, m₂⟩
        have shrank : StackEntriesKept m₁ m₂ := shrinkKernelHeap below (Nat.sub_le _ _) shrunk
        obtain ⟨below₂, same⟩ := (grew.trans shrank) below
        rcases status with _ | _ | _
        · simp only [shrunk]
          exact ⟨fits, same⟩
        · simp only [shrunk]
          exact ⟨below₂, same⟩
        · simp only [shrunk]
          exact ⟨below₂, same⟩
      · exact grew below
      · exact grew below

end StackEntriesKept

/-! ### The pages the loops of SetKernelBrk reach -/

/-- The growing loop maps the pages from `cur` on, as far as there are frames. -/
theorem growKernelHeap_eq {n cur vpn : Nat} {status : Status}
    (h : growKernelHeap n cur m = (status, m'))
    (outside : ¬ (cur ≤ vpn ∧ vpn < cur + min n m.freeFrames.card)) :
    m'.ptRegion0 vpn = m.ptRegion0 vpn := by
  induction n generalizing cur m with
  | zero =>
      cases h
      rfl
  | succ n inductionHypothesis =>
      unfold growKernelHeap at h
      rcases allocated : m.allocFrame .kernel with _ | ⟨pfn, m₁⟩
      · simp only [allocated] at h
        cases h
        rfl
      · simp only [allocated] at h
        obtain ⟨free, rfl⟩ := allocFrame_eq_some allocated
        have used : FrameUsage.kernel ≠ .free := by decide
        have left := card_freeFrames_takeFrame used free
        rw [inductionHypothesis h (by rw [mapRegion0_freeFrames]; omega)]
        exact mapRegion0_of_ne (by omega)

/-- Pages below the stretch that is given back stay as they are. -/
theorem shrinkKernelHeap_kept {n cur vpn : Nat} {status : Status}
    (h : shrinkKernelHeap n cur m = (status, m')) (low : vpn < cur - n) :
    m'.ptRegion0 vpn = m.ptRegion0 vpn := by
  induction n generalizing cur m with
  | zero =>
      cases h
      rfl
  | succ n inductionHypothesis =>
      have ne : vpn ≠ cur - 1 := by omega
      unfold shrinkKernelHeap at h
      simp only at h
      by_cases outside : ¬ cur - 1 < maxPtLen
      · rw [if_pos outside] at h
        cases h
        rfl
      · rw [if_neg outside] at h
        by_cases valid : (m.ptRegion0 (cur - 1)).valid = true
        · rw [if_pos valid] at h
          rw [inductionHypothesis h (by omega), freeFrame_ptRegion0, unmapRegion0_of_ne ne]
        · rw [if_neg valid] at h
          exact inductionHypothesis h (by omega)

/-- A page that is mapped afterwards was left alone. -/
theorem shrinkKernelHeap_left {n cur vpn : Nat} {status : Status}
    (h : shrinkKernelHeap n cur m = (status, m')) (after : (m'.ptRegion0 vpn).valid = true) :
    m'.ptRegion0 vpn = m.ptRegion0 vpn := by
  induction n generalizing cur m with
  | zero =>
      cases h
      rfl
  | succ n inductionHypothesis =>
      unfold shrinkKernelHeap at h
      simp only at h
      by_cases outside : ¬ cur - 1 < maxPtLen
      · rw [if_pos outside] at h
        cases h
        rfl
      · rw [if_neg outside] at h
        by_cases valid : (m.ptRegion0 (cur - 1)).valid = true
        · rw [if_pos valid] at h
          have step := inductionHypothesis h
          rw [freeFrame_ptRegion0] at step
          by_cases same : vpn = cur - 1
          · subst same
            rw [step, unmapRegion0_self (not_not.mp outside)] at after
            cases after
          · rw [step, unmapRegion0_of_ne same]
        · rw [if_neg valid] at h
          exact inductionHypothesis h

end Yalnix.Memory
