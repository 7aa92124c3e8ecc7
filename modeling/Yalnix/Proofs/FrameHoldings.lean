/-
Module: Yalnix.Proofs.FrameHoldings
Purpose: The frames that the page tables hold, and what each page loop of the kernel does to them:
  it takes free frames, gives back frames, and forgets frames only where an entry was valid before.
Trusted boundary: none
Main exports: TableId, Memory.holdings, copyPTEntries_changes, growStackPages_changes,
  brkGrow_changes, clearRegion1_changes, loadSegments_changes, setKernelBrk_changes
-/
import Yalnix.Lib.Holdings
import Yalnix.Proofs.ForkMemory
import Yalnix.Proofs.RegionOne

namespace Yalnix

open Memory Kernel Holdings

/-- The page tables: that of region 0 up to the kernel stack, and the two tables of a process. -/
inductive TableId where
  | region0
  | kernelStack (p : PcbPtr)
  | region1 (p : PcbPtr)
deriving DecidableEq, Repr

/-- The number of entries. -/
def TableId.limit : TableId → Nat
  | .region0 => kstackStartPage
  | .kernelStack _ => kstackPages
  | .region1 _ => maxPtLen

/-- A page of a table. -/
abbrev Slot := TableId × Nat

/-- The frame that a valid entry names. -/
def Pte.frame (e : Pte) : Option Nat := if e.valid then some e.pfn else none

theorem Pte.frame_of_valid {e : Pte} (valid : e.valid = true) : e.frame = some e.pfn := if_pos valid

theorem Pte.frame_of_invalid {e : Pte} (invalid : e.valid = false) : e.frame = none := by
  rw [Pte.frame, invalid, if_neg Bool.false_ne_true]

/-- The frames held by region 0 and by other tables. -/
def Memory.holdings (m : Memory) (tables : TableId → PageTable) : Holdings Slot Nat where
  used pfn := pfn < m.nframes ∧ m.frameTable pfn ≠ .free
  holds slot :=
    if slot.2 < slot.1.limit then
      match slot.1 with
      | .region0 => (m.ptRegion0 slot.2).frame
      | table => (tables table slot.2).frame
    else none

variable {m m' m₁ : Memory} {tables : TableId → PageTable} {table : TableId}
  {pt pt' src : PageTable} {n i vpn pfn : Nat} {usage : FrameUsage} {status : Status}
  {lossy sharing : Prop} {base : Int}

section Slots

theorem holds_region0 : (m.holdings tables).holds (.region0, vpn) =
    if vpn < kstackStartPage then (m.ptRegion0 vpn).frame else none := rfl

theorem holds_table (other : table ≠ .region0) : (m.holdings tables).holds (table, vpn) =
    if vpn < table.limit then (tables table vpn).frame else none := by
  cases table with
  | region0 => exact absurd rfl other
  | kernelStack p => rfl
  | region1 p => rfl

/-- The page holds the frame that the entry names. -/
theorem holds_update (other : table ≠ .region0) (slot : Slot) :
    (m.holdings (Function.update tables table pt)).holds slot =
      if slot.1 = table then if slot.2 < table.limit then (pt slot.2).frame else none
      else (m.holdings tables).holds slot := by
  obtain ⟨table', vpn⟩ := slot
  by_cases same : table' = table
  · subst same
    rw [holds_table other, Function.update_self]
    simp
  · rw [if_neg same]
    cases table' with
    | region0 => rfl
    | kernelStack p =>
        rw [holds_table (by simp), holds_table (by simp), Function.update_of_ne same]
    | region1 p =>
        rw [holds_table (by simp), holds_table (by simp), Function.update_of_ne same]

/-- Only the frame table, the number of frames and the entries below the kernel stack matter. -/
theorem holdings_congr (frames : m'.nframes = m.nframes) (usages : m'.frameTable = m.frameTable)
    (region0 : ∀ vpn < kstackStartPage, m'.ptRegion0 vpn = m.ptRegion0 vpn) :
    m'.holdings tables = m.holdings tables := by
  unfold Memory.holdings
  rw [frames, usages]
  congr 1
  funext slot
  obtain ⟨table, vpn⟩ := slot
  cases table with
  | region0 =>
      change (if vpn < kstackStartPage then (m'.ptRegion0 vpn).frame else none) =
        if vpn < kstackStartPage then (m.ptRegion0 vpn).frame else none
      by_cases inside : vpn < kstackStartPage
      · rw [region0 vpn inside]
      · rw [if_neg inside, if_neg inside]
  | kernelStack p => rfl
  | region1 p => rfl

end Slots

/-! ### One page -/

theorem used_takeFrame (free : pfn ∈ m.freeFrames) (used : usage ≠ .free) (other : Nat) :
    ((m.takeFrame pfn usage).holdings tables).used other ↔
      other = pfn ∨ (m.holdings tables).used other := by
  simp only [Memory.holdings, takeFrame_nframes, takeFrame_frameTable]
  by_cases same : other = pfn
  · subst same
    simp [used, (mem_freeFrames.mp free).1]
  · simp [same]

theorem used_freeFrame (other : Nat) : ((m.freeFrame pfn).holdings tables).used other ↔
    (m.holdings tables).used other ∧ other ≠ pfn := by
  simp only [Memory.holdings, freeFrame_nframes, freeFrame_frameTable]
  by_cases same : other = pfn
  · subst same
    by_cases inRange : other < m.nframes
    · simp [inRange]
    · simp [inRange]
  · by_cases inRange : pfn < m.nframes
    · simp [inRange, same]
    · simp [inRange, same]

theorem unused_of_free (free : pfn ∈ m.freeFrames) : ¬ (m.holdings tables).used pfn :=
  fun used => used.2 (mem_freeFrames.mp free).2

/-- A free frame is taken for a page of a table. -/
theorem take_change (prot : Nat) (other : table ≠ .region0) (inside : vpn < table.limit)
    (free : pfn ∈ m.freeFrames) (used : usage ≠ .free)
    (vacant : (pt vpn).valid = false ∨ lossy) :
    Change lossy sharing (m.holdings (Function.update tables table pt))
      ((m.takeFrame pfn usage).holdings
        (Function.update tables table (Function.update pt vpn ⟨true, prot, pfn⟩))) := by
  refine .take (table, vpn) pfn (unused_of_free free) ?_ (used_takeFrame free used) ?_ ?_
  · rw [holds_update other, if_pos rfl, if_pos inside]
    exact vacant.imp_left Pte.frame_of_invalid
  · rw [holds_update other, if_pos rfl, if_pos inside, Function.update_self]
    rfl
  · intro slot ne
    rw [holds_update other, holds_update other]
    by_cases same : slot.1 = table
    · have page : slot.2 ≠ vpn := by
        intro equal
        exact ne (Prod.ext same equal)
      rw [if_pos same, if_pos same, Function.update_of_ne page]
    · rw [if_neg same, if_neg same]
      rfl

/-- An entry is made to name a frame that was not taken for it. -/
theorem share_change (prot pfn : Nat) (other : table ≠ .region0) (inside : vpn < table.limit)
    (allowed : sharing) (vacant : (pt vpn).valid = false ∨ lossy) :
    Change lossy sharing (m.holdings (Function.update tables table pt))
      (m.holdings (Function.update tables table (Function.update pt vpn ⟨true, prot, pfn⟩))) := by
  refine .share (table, vpn) pfn allowed ?_ (fun _ => Iff.rfl) ?_ ?_
  · rw [holds_update other, if_pos rfl, if_pos inside]
    exact vacant.imp_left Pte.frame_of_invalid
  · rw [holds_update other, if_pos rfl, if_pos inside, Function.update_self]
    rfl
  · intro slot ne
    rw [holds_update other, holds_update other]
    by_cases same : slot.1 = table
    · have page : slot.2 ≠ vpn := by
        intro equal
        exact ne (Prod.ext same equal)
      rw [if_pos same, if_pos same, Function.update_of_ne page]
    · rw [if_neg same, if_neg same]

/-- The frame of a mapped page is given back. -/
theorem release_change (other : table ≠ .region0) (inside : vpn < table.limit)
    (valid : (pt vpn).valid = true) :
    Change lossy sharing (m.holdings (Function.update tables table pt))
      ((m.freeFrame (pt vpn).pfn).holdings
        (Function.update tables table (pt.invalidate vpn))) := by
  refine .release (table, vpn) (pt vpn).pfn ?_ (fun other => used_freeFrame other) ?_ ?_
  · rw [holds_update other, if_pos rfl, if_pos inside]
    exact Pte.frame_of_valid valid
  · rw [holds_update other, if_pos rfl, if_pos inside, PageTable.invalidate, Function.update_self]
    rfl
  · intro slot ne
    rw [holds_update other, holds_update other]
    by_cases same : slot.1 = table
    · have page : slot.2 ≠ vpn := by
        intro equal
        exact ne (Prod.ext same equal)
      rw [if_pos same, if_pos same, PageTable.invalidate, Function.update_of_ne page]
    · rw [if_neg same, if_neg same]
      simp only [Memory.holdings, freeFrame_ptRegion0]

/-- `CloneFrame` unmaps the scratch pages. -/
theorem cloneFrame_change (m : Memory) (source target : Nat)
    (vacant : (m.ptRegion0 scratchVpnSrc).valid = false ∧
      (m.ptRegion0 scratchVpnDst).valid = false ∨ lossy) :
    Change lossy sharing (m.holdings tables) ((m.cloneFrame source target).holdings tables) := by
  refine .forget (fun _ => Iff.rfl) ?_
  rintro ⟨table, vpn⟩
  cases table with
  | kernelStack p => exact Or.inl rfl
  | region1 p => exact Or.inl rfl
  | region0 =>
      rw [holds_region0, holds_region0]
      by_cases inside : vpn < kstackStartPage
      · rw [if_pos inside, if_pos inside]
        obtain ⟨srcInvalid, dstInvalid⟩ := cloneFrame_scratch m source target
        by_cases isSrc : vpn = scratchVpnSrc
        · subst isSrc
          rw [Pte.frame_of_invalid srcInvalid]
          rcases vacant with ⟨before, -⟩ | lost
          · exact Or.inl (Pte.frame_of_invalid before).symm
          · exact Or.inr ⟨rfl, lost⟩
        · by_cases isDst : vpn = scratchVpnDst
          · subst isDst
            rw [Pte.frame_of_invalid dstInvalid]
            rcases vacant with ⟨-, before⟩ | lost
            · exact Or.inl (Pte.frame_of_invalid before).symm
            · exact Or.inr ⟨rfl, lost⟩
          · rw [cloneFrame_region0 _ _ _ isSrc isDst]
            exact Or.inl rfl
      · rw [if_neg inside, if_neg inside]
        exact Or.inl rfl

/-! ### Loops over a table of a process -/

/-- Nothing is mapped at the scratch pages. -/
def Memory.ScratchFree (m : Memory) : Prop :=
  (m.ptRegion0 scratchVpnSrc).valid = false ∧ (m.ptRegion0 scratchVpnDst).valid = false

theorem copyPTEntries_scratch {entries : List Nat} (free : m.ScratchFree)
    (h : copyPTEntries src entries m pt = (status, m', pt')) : m'.ScratchFree := by
  induction entries generalizing m pt with
  | nil =>
      cases h
      exact free
  | cons i rest inductionHypothesis =>
      unfold copyPTEntries at h
      split at h
      · rcases allocated : m.allocFrame .user with _ | ⟨pfn, m₁⟩
        · simp only [allocated] at h
          cases h
          exact free
        · simp only [allocated] at h
          exact inductionHypothesis (cloneFrame_scratch _ _ _) h
      · exact inductionHypothesis free h

/-- `CopyPT` takes a frame for each page that it copies. -/
theorem copyPTEntries_changes {entries : List Nat} (other : table ≠ .region0)
    (inside : ∀ i ∈ entries, i < table.limit) (nodup : entries.Nodup)
    (vacant : ∀ i ∈ entries, (pt i).valid = false ∨ lossy) (scratch : m.ScratchFree ∨ lossy)
    (h : copyPTEntries src entries m pt = (status, m', pt')) :
    Changes lossy sharing (m.holdings (Function.update tables table pt))
      (m'.holdings (Function.update tables table pt')) := by
  induction entries generalizing m pt with
  | nil =>
      cases h
      exact .refl _
  | cons i rest inductionHypothesis =>
      obtain ⟨fresh, nodup⟩ := List.nodup_cons.mp nodup
      have insideRest : ∀ j ∈ rest, j < table.limit :=
        fun j member => inside j (List.mem_cons_of_mem _ member)
      unfold copyPTEntries at h
      split at h
      · rcases allocated : m.allocFrame .user with _ | ⟨pfn, m₁⟩
        · simp only [allocated] at h
          cases h
          exact .refl _
        · simp only [allocated] at h
          obtain ⟨free, rfl⟩ := allocFrame_eq_some allocated
          have taken : Changes lossy sharing (m.holdings (Function.update tables table pt)) _ :=
            .single (take_change (src i).prot other (inside i List.mem_cons_self) free
              (by decide : FrameUsage.user ≠ .free) (vacant i List.mem_cons_self))
          have copied := taken.trans (.single (cloneFrame_change _ (src i).pfn pfn scratch))
          refine copied.trans (inductionHypothesis insideRest nodup ?_ ?_ h)
          · intro j member
            have ne : j ≠ i := by
              rintro rfl
              exact fresh member
            rw [Function.update_of_ne ne]
            exact vacant j (List.mem_cons_of_mem _ member)
          · exact Or.inl (cloneFrame_scratch _ _ _)
      · exact inductionHypothesis insideRest nodup
          (fun j member => vacant j (List.mem_cons_of_mem _ member)) scratch h

/-- The kernel stack of a new process takes its frames. -/
theorem initKernelStackPages_changes (other : table ≠ .region0) (inside : i + n ≤ table.limit)
    (vacant : ∀ j, i ≤ j → (pt j).valid = false ∨ lossy)
    (h : initKernelStackPages n i m pt = .ok (m', pt')) :
    Changes lossy sharing (m.holdings (Function.update tables table pt))
      (m'.holdings (Function.update tables table pt')) := by
  induction n generalizing i m pt with
  | zero =>
      cases h
      exact .refl _
  | succ n inductionHypothesis =>
      unfold initKernelStackPages at h
      rcases allocated : m.allocFrame .kernel with _ | ⟨pfn, m₁⟩
      · simp only [allocated] at h
        cases h
      · simp only [allocated] at h
        obtain ⟨free, rfl⟩ := allocFrame_eq_some allocated
        have taken : Changes lossy sharing (m.holdings (Function.update tables table pt)) _ :=
          .single (take_change protReadWrite other (by omega : i < table.limit) free
            (by decide : FrameUsage.kernel ≠ .free) (vacant i (Nat.le_refl i)))
        refine taken.trans (inductionHypothesis (by omega) ?_ h)
        intro j above
        rw [Function.update_of_ne (by omega)]
        exact vacant j (by omega)

/-- `KCCopy` unmaps the scratch pages once for each page that it copies. -/
theorem copyKernelStack_changes (src dst : PageTable) (scratch : m.ScratchFree ∨ lossy) :
    Changes lossy sharing (m.holdings tables)
        ((copyKernelStack src dst m).holdings tables) ∧
      ((copyKernelStack src dst m).ScratchFree ∨ lossy) := by
  unfold copyKernelStack
  induction List.range kstackPages generalizing m with
  | nil => exact ⟨.refl _, scratch⟩
  | cons i rest inductionHypothesis =>
      have cloned : Changes lossy sharing (m.holdings tables)
          ((m.cloneFrame (src i).pfn (dst i).pfn).holdings tables) :=
        .single (cloneFrame_change m _ _ scratch)
      obtain ⟨later, free⟩ := inductionHypothesis
        (Or.inl (cloneFrame_scratch m (src i).pfn (dst i).pfn))
      exact ⟨cloned.trans later, free⟩

/-- The undo loop gives back the frames of the first pages. -/
theorem undoGrowStack_changes {targetVpn : Nat} (other : table ≠ .region0)
    (inside : targetVpn + n ≤ table.limit)
    (mapped : ∀ j < n, (pt (targetVpn + j)).valid = true)
    (h : undoGrowStack targetVpn n m pt = (m', pt')) :
    Changes lossy sharing (m.holdings (Function.update tables table pt))
      (m'.holdings (Function.update tables table pt')) := by
  induction n generalizing m' pt' with
  | zero =>
      cases h
      exact .refl _
  | succ n inductionHypothesis =>
      cases h
      have before := inductionHypothesis (by omega) (fun j below => mapped j (by omega)) rfl
      refine before.trans (.single (release_change other (by omega) ?_))
      rw [undoGrowStack_eq rfl (by omega)]
      exact mapped n (Nat.lt_succ_self n)

/-- `growStack` takes a frame for each page, or gives back what it took. -/
theorem growStackPages_changes {targetVpn : Nat} (other : table ≠ .region0)
    (limit : table.limit = maxPtLen) (room : targetVpn + i ≤ maxPtLen)
    (mapped : ∀ j < i, (pt (targetVpn + j)).valid = true)
    (vacant : ∀ vpn, targetVpn + i ≤ vpn → vpn < targetVpn + i + min n m.freeFrames.card →
      (pt vpn).valid = false ∨ lossy)
    (h : growStackPages targetVpn n i m pt = .ok (status, m', pt')) :
    Changes lossy sharing (m.holdings (Function.update tables table pt))
      (m'.holdings (Function.update tables table pt')) := by
  induction n generalizing i m pt with
  | zero =>
      cases h
      exact .refl _
  | succ n inductionHypothesis =>
      unfold growStackPages at h
      rcases allocated : m.allocFrame .user with _ | ⟨pfn, m₁⟩
      · simp only [allocated] at h
        cases h
        exact undoGrowStack_changes other (limit ▸ room) mapped rfl
      · simp only [allocated, bind_eq_ok] at h
        obtain ⟨page, index, h⟩ := h
        obtain ⟨position, inside⟩ := tableIndex_eq_ok index
        obtain rfl : targetVpn + i = page := Int.ofNat.inj position
        obtain ⟨free, rfl⟩ := allocFrame_eq_some allocated
        have left := card_freeFrames_takeFrame (by decide : FrameUsage.user ≠ .free) free
        have taken : Changes lossy sharing (m.holdings (Function.update tables table pt)) _ :=
          .single (take_change protReadWrite other (limit ▸ inside) free
            (by decide : FrameUsage.user ≠ .free) (vacant _ (Nat.le_refl _) (by omega)))
        refine taken.trans (inductionHypothesis (by omega) ?_ ?_ h)
        · intro j below
          by_cases new : j = i
          · subst new
            rw [Function.update_self]
          · rw [Function.update_of_ne (by omega)]
            exact mapped j (by omega)
        · intro vpn above below
          rw [Function.update_of_ne (by omega)]
          exact vacant vpn (by omega) (by omega)

/-- The growing loop of `Brk` takes frames for unmapped pages only. -/
theorem brkGrow_changes (other : table ≠ .region0) (limit : table.limit = maxPtLen)
    (h : brkGrow n vpn m pt = .ok (status, m', pt')) :
    Changes lossy sharing (m.holdings (Function.update tables table pt))
      (m'.holdings (Function.update tables table pt')) := by
  induction n generalizing vpn m pt with
  | zero =>
      cases h
      exact .refl _
  | succ n inductionHypothesis =>
      simp only [brkGrow, bind_eq_ok] at h
      obtain ⟨i, index, h⟩ := h
      obtain ⟨-, inside⟩ := tableIndex_eq_ok index
      by_cases valid : (pt i).valid = true
      · rw [if_pos valid] at h
        exact inductionHypothesis h
      · rw [if_neg valid] at h
        rcases allocated : m.allocFrame .user with _ | ⟨pfn, m₁⟩
        · simp only [allocated] at h
          cases h
          exact .refl _
        · simp only [allocated] at h
          obtain ⟨free, rfl⟩ := allocFrame_eq_some allocated
          have taken : Changes lossy sharing (m.holdings (Function.update tables table pt)) _ :=
            .single (take_change protReadWrite other (limit ▸ inside) free
              (by decide : FrameUsage.user ≠ .free) (Or.inl (Bool.eq_false_iff.mpr valid)))
          exact taken.trans (inductionHypothesis h)

/-- `LoadProgram` gives back the frames of the old image. -/
theorem clearRegion1_changes {entries : List Nat} (other : table ≠ .region0)
    (inside : ∀ i ∈ entries, i < table.limit)
    (h : clearRegion1 entries m pt = (m', pt')) :
    Changes lossy sharing (m.holdings (Function.update tables table pt))
      (m'.holdings (Function.update tables table pt')) := by
  induction entries generalizing m pt with
  | nil =>
      cases h
      exact .refl _
  | cons i rest inductionHypothesis =>
      have insideRest : ∀ j ∈ rest, j < table.limit :=
        fun j member => inside j (List.mem_cons_of_mem _ member)
      unfold clearRegion1 at h
      by_cases valid : (pt i).valid = true
      · rw [if_pos valid] at h
        have released : Changes lossy sharing (m.holdings (Function.update tables table pt)) _ :=
          .single (release_change other (inside i List.mem_cons_self) valid)
        exact released.trans (inductionHypothesis insideRest h)
      · rw [if_neg valid] at h
        exact inductionHypothesis insideRest h

/-- The loop of `LoadProgram` for one segment: with enough frames nothing is shared, and nothing is
lost over pages that were not mapped. -/
theorem loadSegment_changes (other : table ≠ .region0) (limit : table.limit = maxPtLen)
    (enough : n ≤ m.freeFrames.card ∨ sharing)
    (vacant : ∀ vpn < maxPtLen, InSegment (base + i) n vpn → (pt vpn).valid = false ∨ lossy)
    (h : loadSegment base n i m pt = .ok (m', pt')) :
    Changes lossy sharing (m.holdings (Function.update tables table pt))
      (m'.holdings (Function.update tables table pt')) := by
  induction n generalizing i m pt with
  | zero =>
      cases h
      exact .refl _
  | succ n inductionHypothesis =>
      obtain ⟨vpn, inside, position, outcome⟩ := loadSegment_succ h
      have here := vacant vpn inside ((inSegment_succ position).mpr (Or.inl rfl))
      have next : base + ((i + 1 : Nat) : Int) = base + i + 1 := by
        push_cast
        omega
      have later : ∀ e : Pte, ∀ page < maxPtLen, InSegment (base + ((i + 1 : Nat) : Int)) n page →
          (Function.update pt vpn e page).valid = false ∨ lossy := by
        intro e page insidePage inLater
        rw [next] at inLater
        have ne : page ≠ vpn := by
          rintro rfl
          rw [position] at inLater
          exact absurd inLater.1 (by omega)
        rw [Function.update_of_ne ne]
        exact vacant page insidePage ((inSegment_succ position).mpr (Or.inr inLater))
      rcases outcome with ⟨pfn, free, h⟩ | ⟨exhausted, h⟩
      · have left := card_freeFrames_takeFrame (by decide : FrameUsage.user ≠ .free) free
        have taken : Changes lossy sharing (m.holdings (Function.update tables table pt)) _ :=
          .single (take_change protReadWrite other (limit ▸ inside) free
            (by decide : FrameUsage.user ≠ .free) here)
        refine taken.trans (inductionHypothesis ?_ (later _) h)
        exact enough.imp_left fun enough => by omega
      · have allowed : sharing := by
          rcases enough with enough | allowed
          · rw [exhausted, Finset.card_empty] at enough
            exact absurd enough (Nat.not_succ_le_zero n)
          · exact allowed
        have shared : Changes lossy sharing (m.holdings (Function.update tables table pt)) _ :=
          .single (share_change protReadWrite (storedPfn none) other (limit ▸ inside) allowed here)
        exact shared.trans (inductionHypothesis (Or.inr allowed) (later _) h)

/-- The three loops of `LoadProgram`, over an empty table. -/
theorem loadSegments_changes {plan : LoadPlan} (other : table ≠ .region0)
    (limit : table.limit = maxPtLen) (enough : plan.pages ≤ m.freeFrames.card ∨ sharing)
    (once : plan.indices.Nodup ∨ lossy) (empty : ∀ vpn < maxPtLen, (pt vpn).valid = false)
    (h : loadSegments plan m pt = .ok (m', pt')) :
    Changes lossy sharing (m.holdings (Function.update tables table pt))
      (m'.holdings (Function.update tables table pt')) := by
  simp only [loadSegments, bind_eq_ok] at h
  obtain ⟨⟨m₁, pt₁⟩, text, ⟨m₂, pt₂⟩, data, stack⟩ := h
  simp only at data stack
  simp only [LoadPlan.pages] at enough
  have left : plan.textNpg + plan.dataNpg.toNat + plan.stackNpg.toNat ≤ m.freeFrames.card →
      plan.dataNpg.toNat + plan.stackNpg.toNat ≤ m₁.freeFrames.card ∧
        plan.stackNpg.toNat ≤ m₂.freeFrames.card := by
    intro all
    have backed : Backed m pt := by
      intro vpn inside valid
      rw [empty vpn inside] at valid
      cases valid
    obtain ⟨backed₁, left₁⟩ := loadSegment_backed (by omega) text backed
    obtain ⟨-, left₂⟩ := loadSegment_backed (by omega) data backed₁
    omega
  have textDone : Changes lossy sharing (m.holdings (Function.update tables table pt))
      (m₁.holdings (Function.update tables table pt₁)) :=
    loadSegment_changes other limit (enough.imp_left fun all => by omega)
      (fun vpn inside _ => Or.inl (empty vpn inside)) text
  refine textDone.trans ?_
  have dataDone : Changes lossy sharing (m₁.holdings (Function.update tables table pt₁))
      (m₂.holdings (Function.update tables table pt₂)) := by
    apply loadSegment_changes other limit (enough.imp_left fun all => by have := left all; omega)
      _ data
    intro vpn inside inData
    refine once.imp_left fun once => ?_
    obtain ⟨textData, -, -⟩ := indices_nodup.mp once
    simp only [mem_segment] at textData
    simp only [Nat.cast_zero, add_zero] at inData
    rw [← Bool.not_eq_true, loadSegment_valid text]
    simp only [Nat.cast_zero, add_zero]
    rintro (valid | inText)
    · rw [empty vpn inside] at valid
      cases valid
    · exact textData vpn inText inData
  refine dataDone.trans ?_
  apply loadSegment_changes other limit (enough.imp_left fun all => (left all).2) _ stack
  intro vpn inside inStack
  refine once.imp_left fun once => ?_
  obtain ⟨-, textStack, dataStack⟩ := indices_nodup.mp once
  simp only [mem_segment] at textStack dataStack
  simp only [Nat.cast_zero, add_zero] at inStack
  rw [← Bool.not_eq_true, loadSegment_valid data, loadSegment_valid text]
  simp only [Nat.cast_zero, add_zero]
  rintro ((valid | inText) | inData)
  · rw [empty vpn inside] at valid
    cases valid
  · exact textStack vpn inText inStack
  · exact dataStack vpn inData inStack

/-- Two tables whose entries name the same frames. -/
theorem retable_changes (other : table ≠ .region0) (frames : m'.nframes = m.nframes)
    (usages : m'.frameTable = m.frameTable)
    (region0 : ∀ vpn < kstackStartPage, m'.ptRegion0 vpn = m.ptRegion0 vpn)
    (same : ∀ vpn < table.limit, (pt' vpn).valid = (pt vpn).valid ∧ (pt' vpn).pfn = (pt vpn).pfn) :
    Changes lossy sharing (m.holdings (Function.update tables table pt))
      (m'.holdings (Function.update tables table pt')) := by
  rw [holdings_congr frames usages region0]
  refine .of_same (fun _ => Iff.rfl) fun slot => ?_
  rw [holds_update other, holds_update other]
  by_cases here : slot.1 = table
  · rw [if_pos here, if_pos here]
    by_cases inside : slot.2 < table.limit
    · obtain ⟨valid, pfn⟩ := same slot.2 inside
      rw [if_pos inside, if_pos inside, Pte.frame, Pte.frame, valid, pfn]
    · rw [if_neg inside, if_neg inside]
  · rw [if_neg here, if_neg here]

/-- `LoadProgram` from its commit point on. -/
theorem loadImage_changes {req : LoadRequest} {li : LoadInfo} {plan : LoadPlan} {argbuf : ArgBuf}
    {b b' : PCB}
    (other : table ≠ .region0) (limit : table.limit = maxPtLen)
    (enough : plan.pages ≤ (m.reclaimable b.ptbr).card ∨ sharing)
    (once : plan.indices.Nodup ∨ lossy)
    (h : Kernel.loadImage req li plan argbuf m b = .ok (status, m', b')) :
    Changes lossy sharing (m.holdings (Function.update tables table b.ptbr))
      (m'.holdings (Function.update tables table b'.ptbr)) := by
  obtain ⟨m₀, pt₀, m₁, pt₁, cleared, mapped, wrote, same, -⟩ := loadImage_eq_ok h
  have released : Changes lossy sharing (m.holdings (Function.update tables table b.ptbr)) _ :=
    clearRegion1_changes other (fun i member => limit ▸ List.mem_range.mp member) cleared
  have frames : m₀.freeFrames = m.reclaimable b.ptbr := clearRegion1_frees cleared
  have filled : Changes lossy sharing (m₀.holdings (Function.update tables table pt₀)) _ :=
    loadSegments_changes other limit (frames ▸ enough) once
      (fun vpn inside => cleared_empty cleared vpn inside) mapped
  refine (released.trans filled).trans (retable_changes other wrote.nframes wrote.frameTable ?_ ?_)
  · intro vpn _
    rw [wrote.ptRegion0]
  · exact fun vpn _ => same vpn

/-! ### The kernel heap -/

/-- The growing loop of `SetKernelBrk` may map pages that were mapped. -/
theorem growKernelHeap_changes {cur : Nat} (room : cur + n ≤ kstackStartPage)
    (h : growKernelHeap n cur m = (status, m')) :
    Changes True sharing (m.holdings tables) (m'.holdings tables) := by
  induction n generalizing cur m with
  | zero =>
      cases h
      exact .refl _
  | succ n inductionHypothesis =>
      unfold growKernelHeap at h
      rcases allocated : m.allocFrame .kernel with _ | ⟨pfn, m₁⟩
      · simp only [allocated] at h
        cases h
        exact .refl _
      · simp only [allocated] at h
        obtain ⟨free, rfl⟩ := allocFrame_eq_some allocated
        have below : cur < kstackStartPage := by omega
        have inTable : cur < maxPtLen := Nat.lt_of_lt_of_le below (by decide)
        have taken : Change True sharing (m.holdings tables)
            (((m.takeFrame pfn .kernel).mapRegion0 cur pfn).holdings tables) := by
          refine .take (.region0, cur) pfn (unused_of_free free) (Or.inr trivial) ?_ ?_ ?_
          · intro other
            have before : ((m.takeFrame pfn .kernel).holdings tables).used other ↔ _ :=
              used_takeFrame free (by decide) other
            rw [← before]
            simp only [Memory.holdings, mapRegion0, if_pos inTable]
          · rw [holds_region0, if_pos below, mapRegion0_self inTable]
            rfl
          · rintro ⟨table, vpn⟩ ne
            cases table with
            | kernelStack p => rfl
            | region1 p => rfl
            | region0 =>
                have page : vpn ≠ cur := by
                  rintro rfl
                  exact ne rfl
                rw [holds_region0, holds_region0, mapRegion0_of_ne page]
                rfl
        exact (Changes.single taken).trans (inductionHypothesis (by omega) h)

/-- The shrinking loop gives back the frames of the pages that it unmaps. -/
theorem shrinkKernelHeap_changes {cur : Nat} (below : cur ≤ kstackStartPage) (some : n ≤ cur)
    (h : shrinkKernelHeap n cur m = (status, m')) :
    Changes lossy sharing (m.holdings tables) (m'.holdings tables) := by
  induction n generalizing cur m with
  | zero =>
      cases h
      exact .refl _
  | succ n inductionHypothesis =>
      unfold shrinkKernelHeap at h
      simp only at h
      split at h
      · cases h
        exact .refl _
      · rename_i inTable
        have inTable := not_not.mp inTable
        have page : cur - 1 < kstackStartPage := by omega
        split at h
        · rename_i valid
          have released : Change lossy sharing (m.holdings tables)
              (((m.unmapRegion0 (cur - 1)).freeFrame
                (m.ptRegion0 (cur - 1)).pfn).holdings tables) := by
            refine .release (.region0, cur - 1) (m.ptRegion0 (cur - 1)).pfn ?_ ?_ ?_ ?_
            · rw [holds_region0, if_pos page]
              exact Pte.frame_of_valid valid
            · intro other
              rw [used_freeFrame]
              simp only [Memory.holdings, unmapRegion0, if_pos inTable]
            · rw [holds_region0, if_pos page, freeFrame_ptRegion0, unmapRegion0_self inTable]
              rfl
            · rintro ⟨table, vpn⟩ ne
              cases table with
              | kernelStack p => rfl
              | region1 p => rfl
              | region0 =>
                  have different : vpn ≠ cur - 1 := by
                    rintro rfl
                    exact ne rfl
                  rw [holds_region0, holds_region0, freeFrame_ptRegion0,
                    unmapRegion0_of_ne different]
          exact (Changes.single released).trans (inductionHypothesis (by omega) (by omega) h)
        · exact inductionHypothesis (by omega) (by omega) h

/-- `SetKernelBrk`, whatever its address is. -/
theorem setKernelBrk_changes (below : m.kernelBrkPage ≤ kstackStartPage) (addr : Word) :
    Changes True sharing (m.holdings tables) ((m.setKernelBrk addr).2.holdings tables) := by
  unfold Memory.setKernelBrk
  generalize (upToPage addr).toNat / pageSize = target
  split
  · exact .refl _
  · simp only
    split
    · exact .refl _
    · rename_i inside
      have fits : target ≤ kstackStartPage := Nat.le_of_not_le inside
      rcases grown : growKernelHeap (target - m.kernelBrkPage) m.kernelBrkPage m with ⟨status, m₁⟩
      have grew : Changes True sharing (m.holdings tables) (m₁.holdings tables) :=
        growKernelHeap_changes (by omega) grown
      rcases status with _ | _ | _
      · rcases shrunk : shrinkKernelHeap (m.kernelBrkPage - target) m.kernelBrkPage m₁ with
          ⟨status, m₂⟩
        have shrank : Changes True sharing (m₁.holdings tables) (m₂.holdings tables) :=
          shrinkKernelHeap_changes below (Nat.sub_le _ _) shrunk
        rcases status with _ | _ | _
        · simp only [shrunk]
          exact grew.trans shrank
        · simp only [shrunk]
          exact grew.trans shrank
        · simp only [shrunk]
          exact grew.trans shrank
      · exact grew
      · exact grew

end Yalnix
