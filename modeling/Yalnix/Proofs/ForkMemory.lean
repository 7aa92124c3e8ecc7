/-
Module: Yalnix.Proofs.ForkMemory
Purpose: The memory that a successful Fork leaves: the child's pages and kernel stack are copies of
  the parent's on frames that were free, and nothing that was in use has changed.
Trusted boundary: the frame table marks the frames that page tables name as in use
Main exports: PagesCopied, copyPTEntries_copies, StackCopied, FramesInUse, Kernel.SpaceCopied,
  fork_copies_space
-/
import Yalnix.Proofs.AddressSpace
import Yalnix.Proofs.Slots

namespace Yalnix

open Memory Kernel

variable {m m' m₁ : Memory} {src dst dst' pages : PageTable} {entries : List Nat} {pfn : Nat}

/-! ### One page -/

theorem cloneFrame_phys (m : Memory) (source target : Nat) :
    (m.cloneFrame source target).phys = Function.update m.phys target (m.phys source) := by
  have apart : scratchVpnSrc ≠ scratchVpnDst := by decide
  simp only [cloneFrame, copyPage, Function.update_self, Function.update_of_ne apart]

theorem cloneFrame_scratch (m : Memory) (source target : Nat) :
    ((m.cloneFrame source target).ptRegion0 scratchVpnSrc).valid = false ∧
      ((m.cloneFrame source target).ptRegion0 scratchVpnDst).valid = false := by
  simp [cloneFrame, copyPage, PageTable.invalidate]

theorem cloneFrame_region0 (m : Memory) (source target : Nat) {vpn : Nat}
    (notSrc : vpn ≠ scratchVpnSrc) (notDst : vpn ≠ scratchVpnDst) :
    (m.cloneFrame source target).ptRegion0 vpn = m.ptRegion0 vpn := by
  simp only [cloneFrame, copyPage, PageTable.invalidate, Function.update_of_ne notSrc,
    Function.update_of_ne notDst]

/-! ### The pages of region 1 -/

/-- The listed pages of `src` that are mapped are mapped in `dst` as well, each on a frame of its
own that was free and now holds what the page held; and what was in use is as it was. -/
structure PagesCopied (src dst : PageTable) (entries : List Nat) (m m' : Memory) : Prop where
  mapped : ∀ i ∈ entries, (src i).valid = true →
    (dst i).valid = true ∧ (dst i).prot = (src i).prot
  taken : ∀ i ∈ entries, (src i).valid = true →
    (dst i).pfn ∈ m.freeFrames ∧ (dst i).pfn ∉ m'.freeFrames
  contents : ∀ i ∈ entries, (src i).valid = true →
    m'.phys (dst i).pfn = m.phys (src i).pfn
  distinct : ∀ i ∈ entries, ∀ j ∈ entries, (src i).valid = true → (src j).valid = true →
    (dst i).pfn = (dst j).pfn → i = j
  fewer : m'.freeFrames ⊆ m.freeFrames
  others : ∀ pfn, pfn ∉ m.freeFrames → m'.phys pfn = m.phys pfn
  region0 : ∀ vpn, vpn ≠ scratchVpnSrc → vpn ≠ scratchVpnDst →
    m'.ptRegion0 vpn = m.ptRegion0 vpn

/-- The entries that the loop does not write. -/
theorem copyPTEntries_untouched {status : Status} {i : Nat}
    (h : copyPTEntries src entries m dst = (status, m', dst'))
    (skipped : i ∉ entries ∨ (src i).valid = false) : dst' i = dst i := by
  induction entries generalizing m dst with
  | nil =>
      cases h
      rfl
  | cons vpn rest inductionHypothesis =>
      have later : i ∉ rest ∨ (src i).valid = false := by
        rcases skipped with absent | invalid
        · exact Or.inl fun member => absent (List.mem_cons_of_mem _ member)
        · exact Or.inr invalid
      unfold copyPTEntries at h
      by_cases valid : (src vpn).valid = true
      · rw [if_pos valid] at h
        rcases allocated : m.allocFrame .user with _ | ⟨pfn, m₁⟩
        · simp only [allocated] at h
          cases h
          rfl
        · simp only [allocated] at h
          have ne : i ≠ vpn := by
            rintro rfl
            rcases skipped with absent | invalid
            · exact absent List.mem_cons_self
            · rw [valid] at invalid
              cases invalid
          rw [inductionHypothesis h later, Function.update_of_ne ne]
      · rw [if_neg valid] at h
        exact inductionHypothesis h later

/-- The loop of `CopyPT`: a frame once taken is not handed out again, and the sources are never
free, so that no copy overwrites a page still to be copied. -/
theorem copyPTEntries_copies (nodup : entries.Nodup)
    (inUse : ∀ i ∈ entries, (src i).valid = true → (src i).pfn ∉ m.freeFrames)
    (h : copyPTEntries src entries m dst = (.success, m', dst')) :
    PagesCopied src dst' entries m m' := by
  induction entries generalizing m dst with
  | nil =>
      cases h
      constructor
      case fewer => exact Finset.Subset.refl _
      case others => exact fun _ _ => rfl
      case region0 => exact fun _ _ _ => rfl
      all_goals
        intro i member
        cases member
  | cons vpn rest inductionHypothesis =>
      obtain ⟨fresh, nodup⟩ := List.nodup_cons.mp nodup
      unfold copyPTEntries at h
      by_cases valid : (src vpn).valid = true
      · rw [if_pos valid] at h
        rcases allocated : m.allocFrame .user with _ | ⟨pfn, m₁⟩
        · simp only [allocated] at h
          cases h
        · simp only [allocated] at h
          obtain ⟨free, rfl⟩ := allocFrame_eq_some allocated
          have left : ((m.takeFrame pfn .user).cloneFrame (src vpn).pfn pfn).freeFrames =
              m.freeFrames.erase pfn := by
            rw [cloneFrame_frames, freeFrames_takeFrame (by decide)]
          have source : (src vpn).pfn ∉ m.freeFrames := inUse vpn List.mem_cons_self valid
          have here : dst' vpn = ⟨true, (src vpn).prot, pfn⟩ := by
            rw [copyPTEntries_untouched h (Or.inl fresh), Function.update_self]
          have rest' : PagesCopied src dst' rest
              ((m.takeFrame pfn .user).cloneFrame (src vpn).pfn pfn) m' := by
            apply inductionHypothesis nodup _ h
            intro i member mapped taken
            rw [left] at taken
            exact inUse i (List.mem_cons_of_mem _ member) mapped (Finset.mem_of_mem_erase taken)
          have notLeft : pfn ∉
              ((m.takeFrame pfn .user).cloneFrame (src vpn).pfn pfn).freeFrames := by
            rw [left]
            exact Finset.notMem_erase pfn _
          have written : ∀ other, other ≠ pfn →
              ((m.takeFrame pfn .user).cloneFrame (src vpn).pfn pfn).phys other = m.phys other := by
            intro other ne
            rw [cloneFrame_phys, Function.update_of_ne ne, takeFrame_phys]
          constructor
          case mapped =>
            intro i member mapped
            rcases List.mem_cons.mp member with rfl | member
            · rw [here]
              exact ⟨rfl, rfl⟩
            · exact rest'.mapped i member mapped
          case taken =>
            intro i member mapped
            rcases List.mem_cons.mp member with rfl | member
            · rw [here]
              exact ⟨free, fun later => notLeft (rest'.fewer later)⟩
            · obtain ⟨before, after⟩ := rest'.taken i member mapped
              rw [left] at before
              exact ⟨Finset.mem_of_mem_erase before, after⟩
          case contents =>
            intro i member mapped
            rcases List.mem_cons.mp member with rfl | member
            · rw [here, rest'.others pfn notLeft, cloneFrame_phys, Function.update_self,
                takeFrame_phys]
            · rw [rest'.contents i member mapped]
              apply written
              rintro same
              exact inUse i (List.mem_cons_of_mem _ member) mapped (same ▸ free)
          case distinct =>
            -- the later frames are among those left when the frame of `vpn` was taken
            have apart : ∀ j ∈ rest, (src j).valid = true → (dst' j).pfn ≠ pfn := by
              intro j member mapped same
              have before := (rest'.taken j member mapped).1
              rw [same] at before
              exact notLeft before
            intro i memberI j memberJ mappedI mappedJ same
            rcases List.mem_cons.mp memberI with rfl | laterI
            · rcases List.mem_cons.mp memberJ with rfl | laterJ
              · rfl
              · rw [here] at same
                exact absurd same.symm (apart j laterJ mappedJ)
            · rcases List.mem_cons.mp memberJ with rfl | laterJ
              · rw [here] at same
                exact absurd same (apart i laterI mappedI)
              · exact rest'.distinct i laterI j laterJ mappedI mappedJ same
          case fewer =>
            intro other member
            have before := rest'.fewer member
            rw [left] at before
            exact Finset.mem_of_mem_erase before
          case others =>
            intro other used
            have ne : other ≠ pfn := by
              rintro rfl
              exact used free
            rw [rest'.others other, written other ne]
            rw [left]
            exact fun member => used (Finset.mem_of_mem_erase member)
          case region0 =>
            intro other notSrc notDst
            rw [rest'.region0 other notSrc notDst, cloneFrame_region0 _ _ _ notSrc notDst,
              takeFrame_ptRegion0]
      · rw [if_neg valid] at h
        have rest' := inductionHypothesis nodup
          (fun i member => inUse i (List.mem_cons_of_mem _ member)) h
        have later : ∀ i ∈ vpn :: rest, (src i).valid = true → i ∈ rest := by
          intro i member mapped
          rcases List.mem_cons.mp member with rfl | member
          · exact absurd mapped valid
          · exact member
        constructor
        case mapped => exact fun i member mapped => rest'.mapped i (later i member mapped) mapped
        case taken => exact fun i member mapped => rest'.taken i (later i member mapped) mapped
        case contents =>
          exact fun i member mapped => rest'.contents i (later i member mapped) mapped
        case distinct =>
          intro i memberI j memberJ mappedI mappedJ
          exact rest'.distinct i (later i memberI mappedI) j (later j memberJ mappedJ) mappedI
            mappedJ
        case fewer => exact rest'.fewer
        case others => exact rest'.others
        case region0 => exact rest'.region0

/-! ### The kernel stack -/

/-- The pages of a new kernel stack are on frames of their own that were free. -/
structure StackAllotted (pages : PageTable) (low high : Nat) (m m' : Memory) : Prop where
  taken : ∀ i, low ≤ i → i < high → (pages i).valid = true ∧
    (pages i).pfn ∈ m.freeFrames ∧ (pages i).pfn ∉ m'.freeFrames
  distinct : ∀ i j, low ≤ i → i < high → low ≤ j → j < high →
    (pages i).pfn = (pages j).pfn → i = j
  fewer : m'.freeFrames ⊆ m.freeFrames
  phys : m'.phys = m.phys
  region0 : m'.ptRegion0 = m.ptRegion0

theorem initKernelStackPages_untouched {n i k : Nat}
    (h : initKernelStackPages n i m dst = .ok (m', pages)) (below : k < i) :
    pages k = dst k := by
  induction n generalizing i m dst with
  | zero =>
      cases h
      rfl
  | succ n inductionHypothesis =>
      unfold initKernelStackPages at h
      rcases allocated : m.allocFrame .kernel with _ | ⟨pfn, m₁⟩
      · simp only [allocated] at h
        cases h
      · simp only [allocated] at h
        rw [inductionHypothesis h (by omega), Function.update_of_ne (Nat.ne_of_lt below)]

theorem initKernelStackPages_allots {n i : Nat}
    (h : initKernelStackPages n i m dst = .ok (m', pages)) :
    StackAllotted pages i (i + n) m m' := by
  induction n generalizing i m dst with
  | zero =>
      cases h
      constructor
      case taken => exact fun k above below => absurd below (by omega)
      case distinct => exact fun k _ above below => absurd below (by omega)
      case fewer => exact Finset.Subset.refl _
      case phys => rfl
      case region0 => rfl
  | succ n inductionHypothesis =>
      unfold initKernelStackPages at h
      rcases allocated : m.allocFrame .kernel with _ | ⟨pfn, m₁⟩
      · simp only [allocated] at h
        cases h
      · simp only [allocated] at h
        obtain ⟨free, rfl⟩ := allocFrame_eq_some allocated
        have left : (m.takeFrame pfn .kernel).freeFrames = m.freeFrames.erase pfn :=
          freeFrames_takeFrame (by decide)
        have here : pages i = ⟨true, protReadWrite, pfn⟩ := by
          rw [initKernelStackPages_untouched h (Nat.lt_succ_self i), Function.update_self]
        have rest := inductionHypothesis h
        have later : ∀ k, i ≤ k → k ≠ i → i + 1 ≤ k := by omega
        have apart : ∀ k, i + 1 ≤ k → k < i + (n + 1) → (pages k).pfn ≠ pfn := by
          intro k above below same
          have before := (rest.taken k above (by omega)).2.1
          rw [same, left] at before
          exact Finset.notMem_erase pfn _ before
        constructor
        case taken =>
          intro k above below
          by_cases first : k = i
          · subst first
            rw [here]
            refine ⟨rfl, free, fun member => ?_⟩
            have before := rest.fewer member
            rw [left] at before
            exact Finset.notMem_erase pfn _ before
          · obtain ⟨valid, before, after⟩ := rest.taken k (later k above first) (by omega)
            rw [left] at before
            exact ⟨valid, Finset.mem_of_mem_erase before, after⟩
        case distinct =>
          intro j k aboveJ belowJ aboveK belowK same
          by_cases firstJ : j = i
          · by_cases firstK : k = i
            · exact firstJ.trans firstK.symm
            · rw [firstJ, here] at same
              exact absurd same.symm (apart k (later k aboveK firstK) belowK)
          · by_cases firstK : k = i
            · rw [firstK, here] at same
              exact absurd same (apart j (later j aboveJ firstJ) belowJ)
            · exact rest.distinct j k (later j aboveJ firstJ) (by omega) (later k aboveK firstK)
                (by omega) same
        case fewer =>
          intro other member
          have before := rest.fewer member
          rw [left] at before
          exact Finset.mem_of_mem_erase before
        case phys => exact rest.phys
        case region0 => exact rest.region0

/-- The loop of `KCCopy`, when no frame is both copied and written. -/
structure StackCopied (src dst : PageTable) (entries : List Nat) (m m' : Memory) : Prop where
  contents : ∀ i ∈ entries, m'.phys (dst i).pfn = m.phys (src i).pfn
  others : ∀ pfn, (∀ i ∈ entries, (dst i).pfn ≠ pfn) → m'.phys pfn = m.phys pfn
  frames : m'.freeFrames = m.freeFrames
  region0 : ∀ vpn, vpn ≠ scratchVpnSrc → vpn ≠ scratchVpnDst →
    m'.ptRegion0 vpn = m.ptRegion0 vpn
  scratch : entries ≠ [] → (m'.ptRegion0 scratchVpnSrc).valid = false ∧
    (m'.ptRegion0 scratchVpnDst).valid = false

theorem cloneFrames_copied (nodup : entries.Nodup)
    (distinct : ∀ i ∈ entries, ∀ j ∈ entries, (dst i).pfn = (dst j).pfn → i = j)
    (apart : ∀ i ∈ entries, ∀ j ∈ entries, (src i).pfn ≠ (dst j).pfn) :
    StackCopied src dst entries m
      (entries.foldl (fun m i => m.cloneFrame (src i).pfn (dst i).pfn) m) := by
  induction entries generalizing m with
  | nil =>
      constructor
      case contents =>
        intro i member
        cases member
      case others => exact fun _ _ => rfl
      case frames => rfl
      case region0 => exact fun _ _ _ => rfl
      case scratch => exact fun empty => absurd rfl empty
  | cons first rest inductionHypothesis =>
      obtain ⟨fresh, nodup⟩ := List.nodup_cons.mp nodup
      rw [List.foldl_cons]
      have rest' := inductionHypothesis (m := m.cloneFrame (src first).pfn (dst first).pfn) nodup
        (fun i memberI j memberJ =>
          distinct i (List.mem_cons_of_mem _ memberI) j (List.mem_cons_of_mem _ memberJ))
        (fun i memberI j memberJ =>
          apart i (List.mem_cons_of_mem _ memberI) j (List.mem_cons_of_mem _ memberJ))
      have written : ∀ pfn, pfn ≠ (dst first).pfn →
          (m.cloneFrame (src first).pfn (dst first).pfn).phys pfn = m.phys pfn := by
        intro pfn ne
        rw [cloneFrame_phys, Function.update_of_ne ne]
      constructor
      case contents =>
        intro i member
        rcases List.mem_cons.mp member with rfl | member
        · rw [rest'.others, cloneFrame_phys, Function.update_self]
          intro j inRest same
          have equal := distinct j (List.mem_cons_of_mem _ inRest) i List.mem_cons_self same
          exact fresh (equal ▸ inRest)
        · rw [rest'.contents i member]
          exact written _ (apart i (List.mem_cons_of_mem _ member) first List.mem_cons_self)
      case others =>
        intro pfn unwritten
        rw [rest'.others pfn fun i member => unwritten i (List.mem_cons_of_mem _ member)]
        exact written pfn (unwritten first List.mem_cons_self).symm
      case frames => exact rest'.frames.trans (cloneFrame_frames ..)
      case region0 =>
        intro vpn notSrc notDst
        rw [rest'.region0 vpn notSrc notDst, cloneFrame_region0 _ _ _ notSrc notDst]
      case scratch =>
        intro _
        rcases rest with _ | ⟨second, rest⟩
        · exact cloneFrame_scratch ..
        · exact rest'.scratch (List.cons_ne_nil _ _)

theorem copyKernelStack_frames (current pages : PageTable) (m : Memory) :
    (copyKernelStack current pages m).freeFrames = m.freeFrames := by
  unfold copyKernelStack
  induction List.range kstackPages generalizing m with
  | nil => rfl
  | cons i rest inductionHypothesis =>
      rw [List.foldl_cons, inductionHypothesis, cloneFrame_frames]

/-! ### Fork -/

/-- The frame table marks what the processes use: the frames of their mapped pages and of their
kernel stacks. -/
structure Kernel.FramesInUse (s : Kernel) : Prop where
  pages : ∀ p b, s.heap p = some b → ∀ vpn < maxPtLen, (b.ptbr vpn).valid = true →
    (b.ptbr vpn).pfn ∉ s.mem.freeFrames
  kernelStacks : ∀ p b kstack, s.heap p = some b → b.kstack = some kstack → ∀ i < kstackPages,
    (kstack i).pfn ∉ s.mem.freeFrames

namespace Kernel

variable {env : Env} {s s' : Kernel} {b : PCB}

/-- The child `c` has the address space and the kernel stack that its parent had in `s`, on frames
that were free, and the memory of all processes is as it was. -/
structure SpaceCopied (s s' : Kernel) (b c : PCB) : Prop where
  ready : c.state = .ready
  pages : ∀ vpn < maxPtLen, (c.ptbr vpn).valid = (b.ptbr vpn).valid
  copies : ∀ vpn < maxPtLen, (b.ptbr vpn).valid = true →
    (c.ptbr vpn).prot = (b.ptbr vpn).prot ∧ (c.ptbr vpn).pfn ∈ s.mem.freeFrames ∧
      s'.mem.phys (c.ptbr vpn).pfn = s.mem.phys (b.ptbr vpn).pfn
  distinct : c.ptbr.DistinctFrames
  stack : ∃ old new, b.kstack = some old ∧ c.kstack = some new ∧
    ∀ i < kstackPages, (new i).valid = true ∧ (new i).pfn ∈ s.mem.freeFrames ∧
      s'.mem.phys (new i).pfn = s.mem.phys (old i).pfn ∧
      (∀ j < kstackPages, (new i).pfn = (new j).pfn → i = j) ∧
      ∀ vpn < maxPtLen, (c.ptbr vpn).valid = true → (c.ptbr vpn).pfn ≠ (new i).pfn
  parent : ∃ b', s'.heap s.currentProcess = some b' ∧ b'.ptbr = b.ptbr ∧ b'.kstack = b.kstack
  others : ∀ p, p ≠ s.currentProcess → p ≠ s.nextPcb → s'.heap p = s.heap p
  contents : ∀ p q, s.heap p = some q → ∀ vpn < maxPtLen, (q.ptbr vpn).valid = true →
    s'.mem.phys (q.ptbr vpn).pfn = s.mem.phys (q.ptbr vpn).pfn
  stackContents : ∀ p q kstack, s.heap p = some q → q.kstack = some kstack → ∀ i < kstackPages,
    s'.mem.phys (kstack i).pfn = s.mem.phys (kstack i).pfn
  region0 : ∀ vpn, vpn ≠ scratchVpnSrc → vpn ≠ scratchVpnDst →
    s'.mem.ptRegion0 vpn = s.mem.ptRegion0 vpn
  scratch : (s'.mem.ptRegion0 scratchVpnSrc).valid = false ∧
    (s'.mem.ptRegion0 scratchVpnDst).valid = false

/-- A successful `Fork` gives the child a copy of the parent's address space and kernel stack. -/
theorem fork_copies_space (inUse : s.FramesInUse) (live : s.heap s.currentProcess = some b)
    (fresh : s.heap s.nextPcb = none) (forked : s.fork env = .ok (.success, s')) :
    ∃ c, s'.heap s.nextPcb = some c ∧ SpaceCopied s s' b c := by
  have other : s.currentProcess ≠ s.nextPcb := by
    intro same
    rw [same, fresh] at live
    cases live
  obtain ⟨i, p, m, pt, m', pages, current, -, parent, copied, allotted, stack, rfl⟩ :=
    fork_eq_ok other forked
  obtain rfl : p = b := Option.some.inj (parent.symm.trans live)
  have region1 : PagesCopied p.ptbr pt (List.range maxPtLen) s.mem m := by
    apply copyPTEntries_copies List.nodup_range _ copied
    intro vpn member
    exact inUse.pages _ p live vpn (List.mem_range.mp member)
  have kernelStack := initKernelStackPages_allots allotted
  rw [Nat.zero_add] at kernelStack
  -- what was in use before the call is neither a page of the copy nor one of the new stack
  have taken : ∀ pfn, pfn ∉ s.mem.freeFrames → ∀ i ∈ List.range kstackPages,
      (pages i).pfn ≠ pfn := by
    rintro pfn used i member rfl
    have free := (kernelStack.taken i (Nat.zero_le i) (List.mem_range.mp member)).2.1
    exact used (region1.fewer free)
  have stackUsed := inUse.kernelStacks _ p current live stack
  have copiedStack : StackCopied current pages (List.range kstackPages) m'
      (copyKernelStack current pages m') := by
    apply cloneFrames_copied List.nodup_range
    · intro i memberI j memberJ
      exact kernelStack.distinct i j (Nat.zero_le i) (List.mem_range.mp memberI) (Nat.zero_le j)
        (List.mem_range.mp memberJ)
    · intro i memberI j memberJ same
      exact taken _ (stackUsed i (List.mem_range.mp memberI)) j memberJ same.symm
  have kept : ∀ pfn, pfn ∉ s.mem.freeFrames →
      (copyKernelStack current pages m').phys pfn = s.mem.phys pfn := by
    intro pfn used
    rw [copiedStack.others pfn (taken pfn used), kernelStack.phys, region1.others pfn used]
  have unmapped : ∀ vpn < maxPtLen, (p.ptbr vpn).valid = false → (pt vpn).valid = false := by
    intro vpn _ invalid
    rw [copyPTEntries_untouched copied (Or.inr invalid)]
    rfl
  have mapped : ∀ vpn < maxPtLen, (pt vpn).valid = true → (p.ptbr vpn).valid = true := by
    intro vpn inside valid
    by_contra invalid
    rw [unmapped vpn inside (Bool.not_eq_true _ ▸ invalid)] at valid
    cases valid
  -- the frames of the copy are taken when the stack's are handed out
  have apart : ∀ vpn < maxPtLen, (pt vpn).valid = true → ∀ i < kstackPages,
      (pt vpn).pfn ≠ (pages i).pfn := by
    intro vpn inside valid i page same
    have notLeft := (region1.taken vpn (List.mem_range.mpr inside) (mapped vpn inside valid)).2
    rw [same] at notLeft
    exact notLeft (kernelStack.taken i (Nat.zero_le i) page).2.1
  refine ⟨forkedPcb env s p pt pages, ?_, ?_⟩
  · simp [Function.update_of_ne other.symm]
  · constructor
    case ready => rfl
    case pages =>
      intro vpn inside
      by_cases valid : (p.ptbr vpn).valid = true
      · rw [valid]
        exact (region1.mapped vpn (List.mem_range.mpr inside) valid).1
      · rw [Bool.not_eq_true] at valid
        rw [valid]
        exact unmapped vpn inside valid
    case copies =>
      intro vpn inside valid
      have member := List.mem_range.mpr inside
      refine ⟨(region1.mapped vpn member valid).2, (region1.taken vpn member valid).1, ?_⟩
      have untouched : ∀ i ∈ List.range kstackPages, (pages i).pfn ≠ (pt vpn).pfn := by
        intro i page same
        exact apart vpn inside (region1.mapped vpn member valid).1 i (List.mem_range.mp page)
          same.symm
      simp only [setPcb_mem, log_mem, queueEnqueue_mem, setQueue_mem]
      exact (copiedStack.others _ untouched).trans
        ((congrFun kernelStack.phys _).trans (region1.contents vpn member valid))
    case distinct =>
      intro u insideU v insideV validU validV
      exact region1.distinct u (List.mem_range.mpr insideU) v (List.mem_range.mpr insideV)
        (mapped u insideU validU) (mapped v insideV validV)
    case stack =>
      refine ⟨current, pages, stack, rfl, fun i page => ?_⟩
      obtain ⟨valid, free, -⟩ := kernelStack.taken i (Nat.zero_le i) page
      refine ⟨valid, region1.fewer free, ?_, ?_, ?_⟩
      · simp only [setPcb_mem, log_mem, queueEnqueue_mem, setQueue_mem]
        refine (copiedStack.contents i (List.mem_range.mpr page)).trans ?_
        rw [kernelStack.phys]
        exact region1.others _ (stackUsed i page)
      · intro j page'
        exact kernelStack.distinct i j (Nat.zero_le i) page (Nat.zero_le j) page'
      · intro vpn inside valid'
        exact apart vpn inside valid' i page
    case parent => exact ⟨_, Function.update_self .., rfl, rfl⟩
    case others =>
      intro q notParent notChild
      simp [Function.update_of_ne notParent, Function.update_of_ne notChild]
    case contents =>
      intro q c found vpn inside valid
      simp only [setPcb_mem, log_mem, queueEnqueue_mem, setQueue_mem]
      exact kept _ (inUse.pages q c found vpn inside valid)
    case stackContents =>
      intro q c kstack found held i page
      simp only [setPcb_mem, log_mem, queueEnqueue_mem, setQueue_mem]
      exact kept _ (inUse.kernelStacks q c kstack found held i page)
    case region0 =>
      intro vpn notSrc notDst
      simp only [setPcb_mem, log_mem, queueEnqueue_mem, setQueue_mem]
      rw [copiedStack.region0 vpn notSrc notDst, kernelStack.region0,
        region1.region0 vpn notSrc notDst]
    case scratch =>
      simp only [setPcb_mem, log_mem, queueEnqueue_mem, setQueue_mem]
      exact copiedStack.scratch (by decide)

/-- Whether the frames of all processes are marked, found out process by process and page by
page. -/
def framesInUseCheck (s : Kernel) : Bool :=
  (List.range s.nextPcb).all fun p => (s.heap p).all fun b =>
    decide (∀ vpn < maxPtLen, (b.ptbr vpn).valid = true →
      s.mem.frameTable (b.ptbr vpn).pfn ≠ .free) &&
    b.kstack.all fun kstack => decide (∀ i < kstackPages, s.mem.frameTable (kstack i).pfn ≠ .free)

theorem framesInUse_of_check (inv : Sched.Always env s.sched)
    (checked : s.framesInUseCheck = true) : s.FramesInUse := by
  have known : ∀ p b, s.heap p = some b →
      (∀ vpn < maxPtLen, (b.ptbr vpn).valid = true → s.mem.frameTable (b.ptbr vpn).pfn ≠ .free) ∧
      ∀ kstack, b.kstack = some kstack → ∀ i < kstackPages,
        s.mem.frameTable (kstack i).pfn ≠ .free := by
    intro p b live
    have existing : p ∈ s.existingPcbs := by
      intro absent
      rw [live] at absent
      cases absent
    have result := List.all_eq_true.mp checked p
      (List.mem_range.mpr (existingPcbs_subset inv existing))
    rw [live, Option.all_some, Bool.and_eq_true] at result
    refine ⟨of_decide_eq_true result.1, fun kstack stack => ?_⟩
    have onStack := result.2
    rw [stack, Option.all_some] at onStack
    exact of_decide_eq_true onStack
  constructor
  case pages =>
    intro p b live vpn inside valid free
    exact (known p b live).1 vpn inside valid (mem_freeFrames.mp free).2
  case kernelStacks =>
    intro p b kstack live stack i page free
    exact (known p b live).2 kstack stack i page (mem_freeFrames.mp free).2

/-- Init forks on the sample machine. -/
theorem fork_copies_space_sample : ∃ (s s' : Kernel) (b c : PCB), SpaceCopied s s' b c := by
  have answer : (do
      let boot ← kernelStart sampleEnv sampleBoot
      let s ← run sampleEnv (fun _ _ => true) [.tick, .resume] boot
      let result ← s.fork sampleEnv
      return (s.heap s.currentProcess).isSome && (s.heap s.nextPcb).isNone && s.framesInUseCheck &&
        decide (result.1 = .success) : Except Stop Bool) = .ok true := by
    decide +kernel
  simp only [bind_eq_ok, pure_eq_ok, Bool.and_eq_true, decide_eq_true_eq] at answer
  obtain ⟨boot, started, s, ran, ⟨status, s'⟩, forked, ⟨⟨live, fresh⟩, checked⟩, success⟩ := answer
  have reached := run_reaches (fun _ _ => True) (fun _ _ _ => trivial) ran
  have inv : Sched.Always sampleEnv s.sched := 
    always_reaches (fun k => sampleEnv_pids.valid k) started reached
  obtain ⟨b, live⟩ := Option.isSome_iff_exists.mp live
  obtain rfl : status = .success := success
  obtain ⟨c, -, copied⟩ := fork_copies_space (framesInUse_of_check inv checked) live
    (Option.isNone_iff_eq_none.mp fresh) forked
  exact ⟨s, s', b, c, copied⟩

end Kernel

end Yalnix
