/-
Module: Yalnix.Proofs.Frames
Purpose: The frames that are free, and what taking and giving back one of them does to them.
Trusted boundary: none
Main exports: Memory.freeFrames, allocFrame_eq_some, allocFrame_eq_none
-/
import Mathlib.Data.Finset.Card
import Mathlib.Data.Finset.Range
import Yalnix.Memory

namespace Yalnix.Memory

variable {m m' : Memory} {pfn : Nat} {usage : FrameUsage}

/-- The frames that `allocFrame` can hand out. -/
def freeFrames (m : Memory) : Finset Nat :=
  (Finset.range m.nframes).filter fun pfn => m.frameTable pfn = .free

theorem mem_freeFrames : pfn ∈ m.freeFrames ↔ pfn < m.nframes ∧ m.frameTable pfn = .free := by
  simp [freeFrames]

/-- A frame that `allocFrame` returns was free and is taken. -/
theorem allocFrame_eq_some (h : m.allocFrame usage = some (pfn, m')) :
    pfn ∈ m.freeFrames ∧ m' = m.takeFrame pfn usage := by
  unfold allocFrame at h
  split at h
  · rename_i found first
    cases h
    have unused : m.frameTable pfn = .free := by simpa using List.find?_some first
    exact ⟨mem_freeFrames.mpr ⟨List.mem_range.mp (List.mem_of_find?_eq_some first), unused⟩, rfl⟩
  · cases h

/-- `allocFrame` fails when no frame is free. -/
theorem allocFrame_eq_none : m.allocFrame usage = none ↔ m.freeFrames = ∅ := by
  unfold allocFrame
  split
  · rename_i found first
    have unused : m.frameTable found = .free := by simpa using List.find?_some first
    have free : found ∈ m.freeFrames :=
      mem_freeFrames.mpr ⟨List.mem_range.mp (List.mem_of_find?_eq_some first), unused⟩
    simp only [reduceCtorEq, false_iff]
    exact Finset.ne_empty_of_mem free
  · rename_i exhausted
    simp only [true_iff]
    apply Finset.eq_empty_of_forall_notMem
    intro pfn free
    obtain ⟨inRange, unused⟩ := mem_freeFrames.mp free
    exact List.find?_eq_none.mp exhausted pfn (List.mem_range.mpr inRange) (decide_eq_true unused)

/-- `allocFrame` hands out the lowest free frame. -/
theorem allocFrame_lowest (usage : FrameUsage) {free : Nat} (found : free ∈ m.freeFrames) :
    ∃ pfn ≤ free, pfn ∈ m.freeFrames ∧ (∀ other ∈ m.freeFrames, pfn ≤ other) ∧
      m.allocFrame usage = some (pfn, m.takeFrame pfn usage) := by
  rcases searched : (List.range m.nframes).find? fun pfn => m.frameTable pfn = .free with _ | pfn
  · have none : m.allocFrame usage = none := by rw [allocFrame, searched]
    rw [allocFrame_eq_none.mp none] at found
    exact absurd found (Finset.notMem_empty free)
  · have taken : m.allocFrame usage = some (pfn, m.takeFrame pfn usage) := by
      rw [allocFrame, searched]
    obtain ⟨-, -, before⟩ := List.find?_range_eq_some.mp searched
    have lowest : ∀ other ∈ m.freeFrames, pfn ≤ other := by
      intro other isFree
      by_contra lower
      have used := before other (Nat.not_le.mp lower)
      rw [decide_eq_true (mem_freeFrames.mp isFree).2] at used
      cases used
    exact ⟨pfn, lowest free found, (allocFrame_eq_some taken).1, lowest, taken⟩

@[simp] theorem takeFrame_nframes : (m.takeFrame pfn usage).nframes = m.nframes := rfl
@[simp] theorem takeFrame_frameTable :
    (m.takeFrame pfn usage).frameTable = Function.update m.frameTable pfn usage := rfl
@[simp] theorem takeFrame_ptRegion0 : (m.takeFrame pfn usage).ptRegion0 = m.ptRegion0 := rfl
@[simp] theorem takeFrame_phys : (m.takeFrame pfn usage).phys = m.phys := rfl
@[simp] theorem takeFrame_kernelBrkPage :
    (m.takeFrame pfn usage).kernelBrkPage = m.kernelBrkPage := rfl

theorem freeFrames_takeFrame (used : usage ≠ .free) :
    (m.takeFrame pfn usage).freeFrames = m.freeFrames.erase pfn := by
  ext other
  rw [Finset.mem_erase, mem_freeFrames, mem_freeFrames, takeFrame_frameTable, takeFrame_nframes]
  by_cases same : other = pfn
  · subst same
    simp [used]
  · simp [same]

theorem validPfn_natCast : m.validPfn (pfn : Int) = true ↔ pfn < m.nframes := by
  unfold validPfn
  rw [decide_eq_true_iff]
  omega

theorem allocSpecificFrame_free (isFree : pfn ∈ m.freeFrames) :
    m.allocSpecificFrame (pfn : Int) usage = .ok (some pfn, m.takeFrame pfn usage) := by
  obtain ⟨inRange, unused⟩ := mem_freeFrames.mp isFree
  rw [allocSpecificFrame, if_neg (by omega), if_neg (by omega), Int.toNat_natCast,
    if_neg (not_not.mpr unused)]

/-- A frame that is not free, or does not exist, is refused. -/
theorem allocSpecificFrame_refused (notFree : pfn ∉ m.freeFrames) :
    m.allocSpecificFrame (pfn : Int) usage = .ok (none, m) := by
  rw [mem_freeFrames, not_and] at notFree
  by_cases inRange : pfn < m.nframes
  · rw [allocSpecificFrame, if_neg (by omega), if_neg (by omega), Int.toNat_natCast,
      if_pos (notFree inRange)]
  · rw [allocSpecificFrame, if_pos (by omega)]

/-- A negative number passes the range check. -/
theorem allocSpecificFrame_negative {n : Int} (negative : n < 0) :
    m.allocSpecificFrame n usage = .error (.frameIndex n) := by
  rw [allocSpecificFrame, if_neg (by omega), if_pos negative]

theorem freeFrame_invalid {n : Int} (invalid : ¬ (0 ≤ n ∧ n < m.nframes)) :
    m.freeFrame n = m := by
  rw [freeFrame, validPfn, if_neg (by simpa using invalid)]

@[simp] theorem freeFrame_nframes {n : Int} : (m.freeFrame n).nframes = m.nframes := by
  unfold freeFrame
  split
  · rfl
  · rfl

@[simp] theorem freeFrame_ptRegion0 {n : Int} : (m.freeFrame n).ptRegion0 = m.ptRegion0 := by
  unfold freeFrame
  split
  · rfl
  · rfl

@[simp] theorem freeFrame_phys {n : Int} : (m.freeFrame n).phys = m.phys := by
  unfold freeFrame
  split
  · rfl
  · rfl

@[simp] theorem freeFrame_kernelBrkPage {n : Int} :
    (m.freeFrame n).kernelBrkPage = m.kernelBrkPage := by
  unfold freeFrame
  split
  · rfl
  · rfl

/-- `freeFrame` marks the frame free, if it exists. -/
theorem freeFrame_frameTable : (m.freeFrame pfn).frameTable =
    if pfn < m.nframes then Function.update m.frameTable pfn .free else m.frameTable := by
  unfold freeFrame
  by_cases inRange : pfn < m.nframes
  · rw [if_pos (validPfn_natCast.mpr inRange), if_pos inRange]
    rfl
  · rw [if_neg (validPfn_natCast.not.mpr inRange), if_neg inRange]

theorem mem_freeFrames_freeFrame {other : Nat} : other ∈ (m.freeFrame pfn).freeFrames ↔
    other ∈ m.freeFrames ∨ other = pfn ∧ pfn < m.nframes := by
  rw [mem_freeFrames, mem_freeFrames, freeFrame_frameTable, freeFrame_nframes]
  by_cases same : other = pfn
  · subst same
    by_cases inRange : other < m.nframes
    · simp [inRange]
    · simp [inRange]
  · by_cases inRange : pfn < m.nframes
    · simp [inRange, same]
    · simp [inRange, same]

/-- The free frames are read off the frame table. -/
theorem freeFrames_congr (frames : m'.nframes = m.nframes) (table : m'.frameTable = m.frameTable) :
    m'.freeFrames = m.freeFrames := by
  ext pfn
  rw [mem_freeFrames, mem_freeFrames, frames, table]

theorem cloneFrame_frames (m : Memory) (source target : Nat) :
    (m.cloneFrame source target).freeFrames = m.freeFrames := freeFrames_congr rfl rfl

/-- Taking a free frame leaves one less. -/
theorem card_freeFrames_takeFrame (used : usage ≠ .free) (free : pfn ∈ m.freeFrames) :
    (m.takeFrame pfn usage).freeFrames.card + 1 = m.freeFrames.card := by
  rw [freeFrames_takeFrame used]
  exact Finset.card_erase_add_one free

theorem mapRegion0_self {vpn pfn : Nat} (inTable : vpn < maxPtLen) :
    (m.mapRegion0 vpn pfn).ptRegion0 vpn = ⟨true, protReadWrite, pfn⟩ := by
  rw [mapRegion0, if_pos inTable]
  exact Function.update_self ..

theorem unmapRegion0_self {vpn : Nat} (inTable : vpn < maxPtLen) :
    (m.unmapRegion0 vpn).ptRegion0 vpn = Pte.zero := by
  rw [unmapRegion0, if_pos inTable]
  exact Function.update_self ..

theorem mapRegion0_frames (m : Memory) (vpn pfn : Nat) :
    (m.mapRegion0 vpn pfn).nframes = m.nframes ∧
    (m.mapRegion0 vpn pfn).frameTable = m.frameTable := by
  unfold mapRegion0
  split
  · exact ⟨rfl, rfl⟩
  · exact ⟨rfl, rfl⟩

theorem unmapRegion0_frames (m : Memory) (vpn : Nat) :
    (m.unmapRegion0 vpn).nframes = m.nframes ∧
    (m.unmapRegion0 vpn).frameTable = m.frameTable := by
  unfold unmapRegion0
  split
  · exact ⟨rfl, rfl⟩
  · exact ⟨rfl, rfl⟩

theorem mapRegion0_of_ne {vpn other : Nat} (ne : other ≠ vpn) :
    (m.mapRegion0 vpn pfn).ptRegion0 other = m.ptRegion0 other := by
  unfold mapRegion0
  split
  · exact Function.update_of_ne ne ..
  · rfl

theorem unmapRegion0_of_ne {vpn other : Nat} (ne : other ≠ vpn) :
    (m.unmapRegion0 vpn).ptRegion0 other = m.ptRegion0 other := by
  unfold unmapRegion0
  split
  · exact Function.update_of_ne ne ..
  · rfl

@[simp] theorem mapRegion0_kernelBrkPage {vpn : Nat} :
    (m.mapRegion0 vpn pfn).kernelBrkPage = m.kernelBrkPage := by
  unfold mapRegion0
  split
  · rfl
  · rfl

@[simp] theorem unmapRegion0_kernelBrkPage {vpn : Nat} :
    (m.unmapRegion0 vpn).kernelBrkPage = m.kernelBrkPage := by
  unfold unmapRegion0
  split
  · rfl
  · rfl

theorem mapRegion0_freeFrames {vpn : Nat} : (m.mapRegion0 vpn pfn).freeFrames = m.freeFrames := by
  unfold mapRegion0
  split
  · exact freeFrames_congr rfl rfl
  · rfl

end Yalnix.Memory
