/-
Module: Yalnix.Proofs.BootMemory
Purpose: Memory between InitializeVM and InitializeKernelStackIdle, while the kernel's allocator
  moves the kernel break: which frames the region 0 pages map, and that the two frames of the idle
  process's kernel stack stay free.
Trusted boundary: the allocation inside InitializeFreeFrameList does not move the break
Main exports: brkCalls, BrkRule, BrkRule.setKernelBrk, Memory.Identity, Memory.StackSpared,
  boot_memory_consistent
-/
import Yalnix.Proofs.Frames
import Yalnix.Run

namespace Yalnix

open Memory

variable {m m' : Memory} {b e cur n : Nat}

/-! ### Moving the break -/

/-- The calls of `SetKernelBrk` with these addresses. -/
def brkCalls (addrs : List Word) (m : Memory) : Memory :=
  addrs.foldl (fun m addr => (m.setKernelBrk addr).2) m

/-- A property of memory with the break at a page of the heap above `b` that one page of growth and
one page of shrinking carry along. -/
structure BrkRule (b : Nat) (P : Nat → Memory → Prop) : Prop where
  grow : ∀ cur m, b ≤ cur → cur + 1 < kstackStartPage → P cur m →
    ∃ pfn, m.allocFrame .kernel = some (pfn, m.takeFrame pfn .kernel) ∧
      P (cur + 1) ((m.takeFrame pfn .kernel).mapRegion0 cur pfn)
  shrink : ∀ cur m, b ≤ cur → cur + 1 < kstackStartPage → P (cur + 1) m →
    (m.ptRegion0 cur).valid = true ∧
      P cur ((m.unmapRegion0 cur).freeFrame (m.ptRegion0 cur).pfn)
  brk : ∀ cur m page, P cur m → P cur { m with kernelBrkPage := page }

namespace BrkRule

variable {P : Nat → Memory → Prop}

theorem growLoop (rule : BrkRule b P) (above : b ≤ cur) (room : cur + n < kstackStartPage)
    (holds : P cur m) : ∃ m', growKernelHeap n cur m = (.success, m') ∧ P (cur + n) m' := by
  induction n generalizing cur m with
  | zero => exact ⟨m, rfl, holds⟩
  | succ n inductionHypothesis =>
      obtain ⟨pfn, allocated, next⟩ := rule.grow cur m above (by omega) holds
      obtain ⟨m', grown, last⟩ := inductionHypothesis (by omega) (by omega) next
      refine ⟨m', ?_, ?_⟩
      · rw [growKernelHeap, allocated]
        exact grown
      · rw [← Nat.add_right_comm] at last
        exact last

theorem shrinkLoop (rule : BrkRule b P) (above : b + n ≤ cur) (room : cur < kstackStartPage)
    (holds : P cur m) : ∃ m', shrinkKernelHeap n cur m = (.success, m') ∧ P (cur - n) m' := by
  induction n generalizing cur m with
  | zero => exact ⟨m, rfl, holds⟩
  | succ n inductionHypothesis =>
      obtain ⟨page, rfl⟩ : ∃ page, cur = page + 1 := ⟨cur - 1, by omega⟩
      have inTable : page < maxPtLen := by
        simp only [kstackStartPage, maxPtLen] at room ⊢
        omega
      obtain ⟨valid, next⟩ := rule.shrink page m (by omega) room holds
      obtain ⟨m', shrunk, last⟩ := inductionHypothesis (by omega) (by omega) next
      refine ⟨m', ?_, ?_⟩
      · rw [shrinkKernelHeap, Nat.add_sub_cancel, if_neg (not_not.mpr inTable), if_pos valid]
        exact shrunk
      · rw [Nat.add_sub_add_right]
        exact last

/-- One call, with an address that is not rounded up past the end of the address space. -/
theorem setKernelBrk (rule : BrkRule b P) (holds : P m.kernelBrkPage m)
    (above : b ≤ m.kernelBrkPage) (room : m.kernelBrkPage < kstackStartPage) {addr : Word}
    (fits : addr.toNat ≤ 0xffffe000) (target : b * pageSize ≤ addr.toNat) :
    P (m.setKernelBrk addr).2.kernelBrkPage (m.setKernelBrk addr).2 ∧
      b ≤ (m.setKernelBrk addr).2.kernelBrkPage ∧
      (m.setKernelBrk addr).2.kernelBrkPage < kstackStartPage := by
  have page : (upToPage addr).toNat / pageSize = (addr.toNat + 0x1fff) / 0x2000 := by
    rw [upToPage_toNat fits]
    simp only [pageSize]
    omega
  have reached : b ≤ (upToPage addr).toNat / pageSize := by
    rw [page]
    simp only [pageSize] at target
    omega
  unfold Memory.setKernelBrk
  generalize (upToPage addr).toNat / pageSize = vpn at reached
  by_cases null : addr = 0
  · rw [if_pos null]
    exact ⟨holds, above, room⟩
  · rw [if_neg null]
    simp only
    by_cases collides : kstackStartPage ≤ vpn
    · rw [if_pos collides]
      exact ⟨holds, above, room⟩
    · rw [if_neg collides]
      have fits := Nat.not_le.mp collides
      rcases Nat.le_total m.kernelBrkPage vpn with upward | downward
      · -- the heap grows
        obtain ⟨m', grown, last⟩ :=
          rule.growLoop (n := vpn - m.kernelBrkPage) above (by omega) holds
        rw [Nat.add_sub_cancel' upward] at last
        rw [grown, Nat.sub_eq_zero_of_le upward]
        exact ⟨rule.brk vpn m' vpn last, reached, fits⟩
      · -- the heap shrinks
        obtain ⟨m', shrunk, last⟩ :=
          rule.shrinkLoop (n := m.kernelBrkPage - vpn) (by omega) room holds
        rw [Nat.sub_sub_self downward] at last
        rw [Nat.sub_eq_zero_of_le downward]
        simp only [growKernelHeap, shrunk]
        exact ⟨rule.brk vpn m' vpn last, reached, fits⟩

/-- Every sequence of such calls. -/
theorem brkCalls (rule : BrkRule b P) (holds : P m.kernelBrkPage m) (above : b ≤ m.kernelBrkPage)
    (room : m.kernelBrkPage < kstackStartPage) {addrs : List Word}
    (fits : ∀ addr ∈ addrs, addr.toNat ≤ 0xffffe000)
    (target : ∀ addr ∈ addrs, b * pageSize ≤ addr.toNat) :
    P (brkCalls addrs m).kernelBrkPage (brkCalls addrs m) ∧
      b ≤ (brkCalls addrs m).kernelBrkPage ∧
      (brkCalls addrs m).kernelBrkPage < kstackStartPage := by
  induction addrs generalizing m with
  | nil => exact ⟨holds, above, room⟩
  | cons addr rest inductionHypothesis =>
      obtain ⟨holds, above, room⟩ := rule.setKernelBrk holds above room
        (fits addr List.mem_cons_self) (target addr List.mem_cons_self)
      exact inductionHypothesis holds above room
        (fun other member => fits other (List.mem_cons_of_mem _ member))
        (fun other member => target other (List.mem_cons_of_mem _ member))

end BrkRule

/-! ### Before virtual memory is on -/

/-- The frames in use are those below `cur`, the pages from `b` up to there are mapped, and every
mapped page names the frame with its own number. -/
structure Memory.Identity (b cur : Nat) (m : Memory) : Prop where
  nframes : maxPtLen ≤ m.nframes
  free : ∀ pfn < m.nframes, m.frameTable pfn = .free ↔ cur ≤ pfn
  own : ∀ vpn < maxPtLen, (m.ptRegion0 vpn).valid = true → (m.ptRegion0 vpn).pfn = vpn
  heap : ∀ vpn, b ≤ vpn → vpn < cur → (m.ptRegion0 vpn).valid = true

/-- One page of growth takes the frame of the page. -/
theorem Memory.Identity.grow (identity : Identity b cur m) (room : cur + 1 < kstackStartPage) :
    ∃ pfn, m.allocFrame .kernel = some (pfn, m.takeFrame pfn .kernel) ∧
      Identity b (cur + 1) ((m.takeFrame pfn .kernel).mapRegion0 cur pfn) := by
  have many := identity.nframes
  have inTable : cur < maxPtLen := by
    simp only [kstackStartPage, maxPtLen] at room ⊢
    omega
  have next : cur ∈ m.freeFrames :=
    mem_freeFrames.mpr ⟨by omega, (identity.free cur (by omega)).mpr le_rfl⟩
  obtain ⟨pfn, low, isFree, -, allocated⟩ := allocFrame_lowest .kernel next
  obtain ⟨inRange, unused⟩ := mem_freeFrames.mp isFree
  obtain rfl : pfn = cur := Nat.le_antisymm low ((identity.free pfn inRange).mp unused)
  refine ⟨pfn, allocated, ?_⟩
  obtain ⟨sameFrames, sameTable⟩ := mapRegion0_frames (m.takeFrame pfn .kernel) pfn pfn
  constructor
  case nframes =>
    rw [sameFrames]
    exact many
  case free =>
    intro other existing
    rw [sameFrames] at existing
    rw [sameTable, takeFrame_frameTable]
    by_cases same : other = pfn
    · subst same
      rw [Function.update_self]
      simp
    · rw [Function.update_of_ne same, identity.free other existing]
      omega
  case own =>
    intro vpn inside valid
    by_cases same : vpn = pfn
    · subst same
      rw [mapRegion0_self inTable]
    · rw [mapRegion0_of_ne same] at valid ⊢
      exact identity.own vpn inside valid
  case heap =>
    intro vpn above below
    by_cases same : vpn = pfn
    · subst same
      rw [mapRegion0_self inTable]
    · rw [mapRegion0_of_ne same]
      exact identity.heap vpn above (by omega)

/-- One page of shrinking gives it back. -/
theorem Memory.Identity.shrink (identity : Identity b (cur + 1) m) (above : b ≤ cur)
    (room : cur + 1 < kstackStartPage) : (m.ptRegion0 cur).valid = true ∧
      Identity b cur ((m.unmapRegion0 cur).freeFrame (m.ptRegion0 cur).pfn) := by
  have many := identity.nframes
  have inTable : cur < maxPtLen := by
    simp only [kstackStartPage, maxPtLen] at room ⊢
    omega
  have mapped := identity.heap cur above (Nat.lt_succ_self cur)
  refine ⟨mapped, ?_⟩
  rw [identity.own cur inTable mapped]
  obtain ⟨sameFrames, sameTable⟩ := unmapRegion0_frames m cur
  constructor
  case nframes =>
    rw [freeFrame_nframes, sameFrames]
    exact many
  case free =>
    intro other existing
    rw [freeFrame_nframes, sameFrames] at existing
    rw [freeFrame_frameTable, sameFrames, sameTable, if_pos (by omega)]
    by_cases same : other = cur
    · subst same
      rw [Function.update_self]
      simp
    · rw [Function.update_of_ne same, identity.free other existing]
      omega
  case own =>
    intro vpn inside valid
    rw [freeFrame_ptRegion0] at valid ⊢
    by_cases same : vpn = cur
    · subst same
      rw [unmapRegion0_self inTable] at valid
      cases valid
    · rw [unmapRegion0_of_ne same] at valid ⊢
      exact identity.own vpn inside valid
  case heap =>
    intro vpn from_b below
    rw [freeFrame_ptRegion0, unmapRegion0_of_ne (Nat.ne_of_lt below)]
    exact identity.heap vpn from_b (by omega)

theorem Memory.Identity.rule (b : Nat) : BrkRule b (Identity b) where
  grow _ _ _ room identity := identity.grow room
  shrink _ _ above room identity := identity.shrink above room
  brk _ _ _ identity := ⟨identity.nframes, identity.free, identity.own, identity.heap⟩

/-- What `InitializeFreeFrameList` and `InitializeVM` set up. -/
theorem identity_boot {cfg : BootConfig} (frames : maxPtLen ≤ cfg.nframes) :
    Identity cfg.origKernelBrkPage cfg.origKernelBrkPage (bootMemory cfg) where
  nframes := frames
  free := by
    intro pfn _
    simp only [bootMemory]
    by_cases low : pfn < cfg.origKernelBrkPage
    · simp [low]
    · simp [low, Nat.not_lt.mp low]
  own := by
    intro vpn _ valid
    simp only [bootMemory] at valid ⊢
    split at valid
    · rw [if_pos ‹_›]
    · rw [if_neg ‹_›]
      split at valid
      · rw [if_pos ‹_›]
      · rw [if_neg ‹_›]
        split at valid
        · rw [if_pos ‹_›]
        · cases valid
  heap := by
    intro vpn above below
    omega

/-! ### Up to the kernel stack of the idle process -/

/-- The frames in use below the kernel stack. -/
def Memory.lowUsed (m : Memory) : Finset Nat :=
  (Finset.range kstackStartPage).filter fun pfn => m.frameTable pfn ≠ .free

/-- All frames in use lie below the kernel stack, at most one of them does not belong to a page
below `cur`, and the heap pages from `b` on have frames of their own. -/
structure Memory.StackSpared (b cur : Nat) (m : Memory) : Prop where
  nframes : maxPtLen ≤ m.nframes
  below : ∀ pfn < m.nframes, m.frameTable pfn ≠ .free → pfn < kstackStartPage
  count : m.lowUsed.card ≤ cur + 1
  heap : ∀ vpn, b ≤ vpn → vpn < cur → (m.ptRegion0 vpn).valid = true ∧
    (m.ptRegion0 vpn).pfn < m.nframes ∧ m.frameTable (m.ptRegion0 vpn).pfn ≠ .free
  distinct : ∀ u, b ≤ u → u < cur → ∀ v, b ≤ v → v < cur →
    (m.ptRegion0 u).pfn = (m.ptRegion0 v).pfn → u = v

theorem mem_lowUsed {pfn : Nat} :
    pfn ∈ m.lowUsed ↔ pfn < kstackStartPage ∧ m.frameTable pfn ≠ .free := by
  rw [lowUsed, Finset.mem_filter, Finset.mem_range]

/-- While fewer frames are in use than lie below the kernel stack, the lowest free one is there. -/
theorem allocFrame_low (usage : FrameUsage) (frames : maxPtLen ≤ m.nframes)
    (few : m.lowUsed.card < kstackStartPage) : ∃ pfn < kstackStartPage, pfn ∈ m.freeFrames ∧
      m.allocFrame usage = some (pfn, m.takeFrame pfn usage) := by
  obtain ⟨free, low, unused⟩ : ∃ free ∈ Finset.range kstackStartPage, free ∉ m.lowUsed := by
    apply Finset.exists_mem_notMem_of_card_lt_card
    rw [Finset.card_range]
    exact few
  have low := Finset.mem_range.mp low
  rw [mem_lowUsed, not_and, not_not] at unused
  have existing : free < m.nframes := by
    simp only [kstackStartPage, maxPtLen] at low frames
    omega
  obtain ⟨pfn, lower, isFree, -, allocated⟩ :=
    allocFrame_lowest usage (mem_freeFrames.mpr ⟨existing, unused low⟩)
  exact ⟨pfn, Nat.lt_of_le_of_lt lower low, isFree, allocated⟩

/-- Taking a frame adds it to those in use. -/
theorem card_lowUsed_takeFrame (m : Memory) (pfn : Nat) (usage : FrameUsage) :
    (m.takeFrame pfn usage).lowUsed.card ≤ m.lowUsed.card + 1 := by
  refine Nat.le_trans (Finset.card_le_card ?_) (Finset.card_insert_le pfn m.lowUsed)
  intro other member
  rw [mem_lowUsed, takeFrame_frameTable] at member
  rw [Finset.mem_insert, mem_lowUsed]
  by_cases same : other = pfn
  · exact Or.inl same
  · rw [Function.update_of_ne same] at member
    exact Or.inr member

/-- The frame that `CreateIdlePCB` takes for the stack of the idle process. -/
theorem Memory.Identity.spared (identity : Identity b cur m) (room : cur < kstackStartPage) :
    ∃ pfn, m.allocFrame .user = some (pfn, m.takeFrame pfn .user) ∧
      StackSpared b cur (m.takeFrame pfn .user) := by
  have many := identity.nframes
  have used : m.lowUsed ⊆ Finset.range cur := by
    intro pfn member
    obtain ⟨low, inUse⟩ := mem_lowUsed.mp member
    simp only [kstackStartPage, maxPtLen] at low many
    rw [Finset.mem_range, ← Nat.not_le, ← identity.free pfn (by omega)]
    exact inUse
  have count : m.lowUsed.card ≤ cur := by
    rw [← Finset.card_range cur]
    exact Finset.card_le_card used
  obtain ⟨pfn, low, isFree, allocated⟩ :=
    allocFrame_low .user many (Nat.lt_of_le_of_lt count room)
  obtain ⟨inRange, unused⟩ := mem_freeFrames.mp isFree
  have own : ∀ vpn < cur, b ≤ vpn → (m.ptRegion0 vpn).pfn = vpn := by
    intro vpn below above
    simp only [kstackStartPage] at room
    exact identity.own vpn (by simp only [maxPtLen]; omega) (identity.heap vpn above below)
  refine ⟨pfn, allocated, ?_⟩
  constructor
  case nframes => exact many
  case below =>
    intro other existing inUse
    by_cases same : other = pfn
    · rw [same]
      exact low
    · rw [takeFrame_frameTable, Function.update_of_ne same] at inUse
      have notFree := (identity.free other existing).not.mp inUse
      omega
  case count => exact Nat.le_trans (card_lowUsed_takeFrame m pfn .user) (Nat.succ_le_succ count)
  case heap =>
    intro vpn above below
    have existing : vpn < m.nframes := by
      simp only [kstackStartPage, maxPtLen] at room many
      omega
    have inUse : m.frameTable vpn ≠ .free :=
      (identity.free vpn existing).not.mpr (Nat.not_le.mpr below)
    rw [takeFrame_ptRegion0, own vpn below above, takeFrame_frameTable]
    refine ⟨identity.heap vpn above below, existing, ?_⟩
    have ne : vpn ≠ pfn := by
      rintro rfl
      exact inUse unused
    rw [Function.update_of_ne ne]
    exact inUse
  case distinct =>
    intro u above below v above' below'
    rw [takeFrame_ptRegion0, own u below above, own v below' above']
    exact id

theorem Memory.StackSpared.grow (spared : StackSpared b cur m)
    (room : cur + 1 < kstackStartPage) :
    ∃ pfn, m.allocFrame .kernel = some (pfn, m.takeFrame pfn .kernel) ∧
      StackSpared b (cur + 1) ((m.takeFrame pfn .kernel).mapRegion0 cur pfn) := by
  have inTable : cur < maxPtLen := by
    simp only [kstackStartPage, maxPtLen] at room ⊢
    omega
  obtain ⟨pfn, low, isFree, allocated⟩ :=
    allocFrame_low .kernel spared.nframes (Nat.lt_of_le_of_lt spared.count room)
  obtain ⟨inRange, unused⟩ := mem_freeFrames.mp isFree
  refine ⟨pfn, allocated, ?_⟩
  obtain ⟨sameFrames, sameTable⟩ := mapRegion0_frames (m.takeFrame pfn .kernel) cur pfn
  have elsewhere : ∀ vpn, b ≤ vpn → vpn < cur → (m.ptRegion0 vpn).pfn ≠ pfn := by
    rintro vpn above below rfl
    exact (spared.heap vpn above below).2.2 unused
  have kept : ∀ vpn, vpn < cur → ((m.takeFrame pfn .kernel).mapRegion0 cur pfn).ptRegion0 vpn =
      m.ptRegion0 vpn := fun vpn below => mapRegion0_of_ne (Nat.ne_of_lt below)
  have new : ((m.takeFrame pfn .kernel).mapRegion0 cur pfn).ptRegion0 cur =
      ⟨true, protReadWrite, pfn⟩ := mapRegion0_self inTable
  constructor
  case nframes =>
    rw [sameFrames]
    exact spared.nframes
  case below =>
    intro other existing inUse
    rw [sameFrames] at existing
    rw [sameTable, takeFrame_frameTable] at inUse
    by_cases same : other = pfn
    · rw [same]
      exact low
    · rw [Function.update_of_ne same] at inUse
      exact spared.below other existing inUse
  case count =>
    have more := card_lowUsed_takeFrame m pfn .kernel
    rw [lowUsed, sameTable]
    exact Nat.le_trans more (Nat.succ_le_succ spared.count)
  case heap =>
    intro vpn above below
    rw [sameFrames, sameTable, takeFrame_frameTable]
    rcases Nat.lt_or_ge vpn cur with old | here
    · rw [kept vpn old, Function.update_of_ne (elsewhere vpn above old)]
      exact spared.heap vpn above old
    · obtain rfl : vpn = cur := by omega
      rw [new]
      refine ⟨rfl, inRange, ?_⟩
      rw [Function.update_self]
      decide
  case distinct =>
    intro u aboveU belowU v aboveV belowV
    rcases Nat.lt_or_ge u cur with oldU | hereU
    · rw [kept u oldU]
      rcases Nat.lt_or_ge v cur with oldV | hereV
      · rw [kept v oldV]
        exact spared.distinct u aboveU oldU v aboveV oldV
      · obtain rfl : v = cur := by omega
        rw [new]
        intro same
        exact absurd same (elsewhere u aboveU oldU)
    · obtain rfl : u = cur := by omega
      rw [new]
      rcases Nat.lt_or_ge v u with oldV | hereV
      · rw [kept v oldV]
        intro same
        exact absurd same.symm (elsewhere v aboveV oldV)
      · intro _
        omega

theorem Memory.StackSpared.shrink (spared : StackSpared b (cur + 1) m) (above : b ≤ cur) :
    (m.ptRegion0 cur).valid = true ∧
      StackSpared b cur ((m.unmapRegion0 cur).freeFrame (m.ptRegion0 cur).pfn) := by
  obtain ⟨mapped, existing, inUse⟩ := spared.heap cur above (Nat.lt_succ_self cur)
  refine ⟨mapped, ?_⟩
  have low := spared.below _ existing inUse
  obtain ⟨sameFrames, sameTable⟩ := unmapRegion0_frames m cur
  have elsewhere : ∀ vpn, b ≤ vpn → vpn < cur → (m.ptRegion0 vpn).pfn ≠ (m.ptRegion0 cur).pfn := by
    intro vpn from_b below same
    have equal := spared.distinct vpn from_b (by omega) cur above (Nat.lt_succ_self cur) same
    omega
  have kept : ∀ vpn, vpn < cur → (m.unmapRegion0 cur).ptRegion0 vpn = m.ptRegion0 vpn :=
    fun vpn below => unmapRegion0_of_ne (Nat.ne_of_lt below)
  have table : ((m.unmapRegion0 cur).freeFrame (m.ptRegion0 cur).pfn).frameTable =
      Function.update m.frameTable (m.ptRegion0 cur).pfn .free := by
    rw [freeFrame_frameTable, sameFrames, sameTable, if_pos existing]
  constructor
  case nframes =>
    rw [freeFrame_nframes, sameFrames]
    exact spared.nframes
  case below =>
    intro other existing' inUse'
    rw [freeFrame_nframes, sameFrames] at existing'
    rw [table] at inUse'
    by_cases same : other = (m.ptRegion0 cur).pfn
    · rw [same]
      exact low
    · rw [Function.update_of_ne same] at inUse'
      exact spared.below other existing' inUse'
  case count =>
    have fewer : ((m.unmapRegion0 cur).freeFrame (m.ptRegion0 cur).pfn).lowUsed ⊆
        m.lowUsed.erase (m.ptRegion0 cur).pfn := by
      intro other member
      rw [mem_lowUsed, table] at member
      by_cases same : other = (m.ptRegion0 cur).pfn
      · subst same
        rw [Function.update_self] at member
        exact absurd rfl member.2
      · rw [Function.update_of_ne same] at member
        exact Finset.mem_erase.mpr ⟨same, mem_lowUsed.mpr member⟩
    have one := Finset.card_erase_add_one (mem_lowUsed.mpr ⟨low, inUse⟩)
    have bound := Finset.card_le_card fewer
    have count := spared.count
    omega
  case heap =>
    intro vpn from_b below
    obtain ⟨valid, inRange, used⟩ := spared.heap vpn from_b (by omega)
    rw [freeFrame_ptRegion0, kept vpn below, freeFrame_nframes, sameFrames, table,
      Function.update_of_ne (elsewhere vpn from_b below)]
    exact ⟨valid, inRange, used⟩
  case distinct =>
    intro u aboveU belowU v aboveV belowV
    rw [freeFrame_ptRegion0, kept u belowU, kept v belowV]
    exact spared.distinct u aboveU (by omega) v aboveV (by omega)

theorem Memory.StackSpared.rule (b : Nat) : BrkRule b (StackSpared b) where
  grow _ _ _ room spared := spared.grow room
  shrink _ _ above _ spared := spared.shrink above
  brk _ _ _ spared :=
    ⟨spared.nframes, spared.below, spared.count, spared.heap, spared.distinct⟩

/-! ### The boot -/

/-- Memory at the write of `REG_VM_ENABLE`, after the given calls of `SetKernelBrk`. -/
def enabledMemory (cfg : BootConfig) (early : List Word) : Memory := brkCalls early (bootMemory cfg)

/-- Memory once `CreateIdlePCB` has asked for the frame of the user stack. -/
def withUserStack (m : Memory) : Memory :=
  match m.allocFrame .user with
  | some (_, m) => m
  | none => m

/-- Memory at the loop of `InitializeKernelStackIdle`. -/
def idleStackMemory (cfg : BootConfig) (early middle late : List Word) : Memory :=
  brkCalls late (withUserStack (brkCalls middle (enabledMemory cfg early)))

/-- Region 0 is mapped to itself when virtual memory comes on, and the frames of the kernel stack
are still to be had when they are asked for. -/
structure BootConsistent (cfg : BootConfig) (early middle late : List Word) : Prop where
  identity : ∀ vpn < maxPtLen, ((enabledMemory cfg early).ptRegion0 vpn).valid = true →
    ((enabledMemory cfg early).ptRegion0 vpn).pfn = vpn
  spare : ∀ i < kstackPages,
    kstackStartPage + i ∈ (idleStackMemory cfg early middle late).freeFrames
  taken : ∃ m₁ m₂, (idleStackMemory cfg early middle late).allocSpecificFrame kstackStartPage
      .kernel = .ok (some kstackStartPage, m₁) ∧
    m₁.allocSpecificFrame ((kstackStartPage + 1 : Nat) : Int) .kernel =
      .ok (some (kstackStartPage + 1), m₂)

/-- The boot is consistent when no call of `SetKernelBrk` is given an address in the last page. -/
theorem boot_memory_consistent {cfg : BootConfig} {early middle late : List Word}
    (frames : maxPtLen ≤ cfg.nframes) (apart : cfg.origKernelBrkPage + 2 ≤ kstackStartPage)
    (above : ∀ addr ∈ early ++ middle ++ late, cfg.origKernelBrkPage * pageSize ≤ addr.toNat)
    (fits : ∀ addr ∈ early ++ middle ++ late, addr.toNat ≤ 0xffffe000) :
    BootConsistent cfg early middle late := by
  simp only [List.mem_append] at above fits
  obtain ⟨identity, high, room⟩ := (Identity.rule cfg.origKernelBrkPage).brkCalls
    (m := bootMemory cfg) (identity_boot frames) le_rfl
    (Nat.lt_of_lt_of_le (Nat.lt_add_of_pos_right Nat.zero_lt_two) apart)
    (fun addr member => fits addr (Or.inl (Or.inl member)))
    (fun addr member => above addr (Or.inl (Or.inl member)))
  have enabled := identity
  obtain ⟨identity, high, room⟩ := (Identity.rule cfg.origKernelBrkPage).brkCalls identity high room
    (fun addr member => fits addr (Or.inl (Or.inr member)))
    (fun addr member => above addr (Or.inl (Or.inr member)))
  obtain ⟨ustack, allocated, spared⟩ := identity.spared room
  obtain ⟨spared, -, -⟩ := (StackSpared.rule cfg.origKernelBrkPage).brkCalls
    (m := (brkCalls middle (enabledMemory cfg early)).takeFrame ustack .user) spared high room
    (fun addr member => fits addr (Or.inr member))
    (fun addr member => above addr (Or.inr member))
  have memory : idleStackMemory cfg early middle late = brkCalls late
      ((brkCalls middle (enabledMemory cfg early)).takeFrame ustack .user) := by
    have taken := allocated
    rw [idleStackMemory, withUserStack, enabledMemory, taken]
  have spare : ∀ i < kstackPages,
      kstackStartPage + i ∈ (idleStackMemory cfg early middle late).freeFrames := by
    intro i inside
    rw [memory, mem_freeFrames]
    have existing := spared.nframes
    simp only [kstackStartPage, kstackPages, maxPtLen] at inside existing ⊢
    refine ⟨Nat.lt_of_lt_of_le (by omega) existing, ?_⟩
    by_contra inUse
    have low := spared.below (126 + i) (Nat.lt_of_lt_of_le (by omega) existing) inUse
    simp only [kstackStartPage] at low
    omega
  constructor
  case identity => exact enabled.own
  case spare => exact spare
  case taken =>
    have first : kstackStartPage ∈ (idleStackMemory cfg early middle late).freeFrames :=
      spare 0 (by decide)
    have second := spare 1 (by decide)
    refine ⟨_, _, allocSpecificFrame_free first, allocSpecificFrame_free ?_⟩
    rw [freeFrames_takeFrame (by decide), Finset.mem_erase]
    exact ⟨by decide, second⟩

/-- The break goes up and down, and to the page below the kernel stack in the end. -/
theorem boot_memory_sample : BootConsistent sampleBoot [0x20000, 0x14000] [0x30000] [0xfa000] :=
  boot_memory_consistent (by decide) (by decide) (by simp [sampleBoot]) (by simp)

/-- An address in the last page is rounded up to 0: the break goes to page 0, and from there up
again. -/
theorem boot_memory_wraps : ¬ ∀ cfg early middle late, maxPtLen ≤ cfg.nframes →
    cfg.origKernelBrkPage + 2 ≤ kstackStartPage →
    (∀ addr ∈ early ++ middle ++ late, cfg.origKernelBrkPage * pageSize ≤ addr.toNat) →
    BootConsistent cfg early middle late := by
  intro consistent
  have booted := consistent sampleBoot [0xfffff000, 0x14000] [] [] (by decide) (by decide)
    (by simp [sampleBoot])
  have mapped : ((enabledMemory sampleBoot [0xfffff000, 0x14000]).ptRegion0 0).valid = true := by
    decide +kernel
  have frame : ((enabledMemory sampleBoot [0xfffff000, 0x14000]).ptRegion0 0).pfn = 2 := by
    decide +kernel
  rw [booted.identity 0 (by decide) mapped] at frame
  cases frame

end Yalnix
