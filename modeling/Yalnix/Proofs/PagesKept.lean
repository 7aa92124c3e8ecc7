/-
Module: Yalnix.Proofs.PagesKept
Purpose: What a step of the machine leaves of the memory of a process: its region 1 table with the
  bounds of heap and stack, and what its pages hold.
Trusted boundary: none
Main exports: Memory.WritesThrough, Kernel.PagesKept, PagesKept.of_frames, pagesKept_step
-/
import Yalnix.Proofs.ForkMemory
import Yalnix.Proofs.FreshPages
import Yalnix.Proofs.SpaceSteps
import Yalnix.Proofs.StepRule
import Yalnix.Proofs.UserMemory

namespace Yalnix

open Memory

/-! ### Writing through a table -/

section WritesThrough

variable {m m' m₁ : Memory} {pt : PageTable} {n va : Nat}

/-- A write changes frames of pages that may be written. -/
theorem storeFun_frames {bytes : Nat → Byte} {f : Nat} (h : m.storeFun pt va n bytes = .ok m')
    (differs : m'.phys f ≠ m.phys f) :
    ∃ vpn < maxPtLen, (pt vpn).writable = true ∧ (pt vpn).frame = some f := by
  obtain ⟨region, writable⟩ := storeFun_accessible h
  unfold Memory.storeFun at h
  split at h
  next =>
    cases h
    obtain ⟨off, here⟩ := Function.ne_iff.mp differs
    dsimp only at here
    rcases covering : pageCovering pt va n f off with _ | vpn
    · rw [covering] at here
      exact absurd rfl here
    · have member := List.mem_reverse.mp (List.mem_of_find?_eq_some covering)
      have found := List.find?_some covering
      have covers := of_decide_eq_true found
      have bounds := region (pos_of_mem_rangePages member)
      have valid : (pt vpn).valid = true := (Bool.and_eq_true_iff.mp (writable vpn member)).1
      refine ⟨vpn, rangePages_lt bounds.2 bounds.1 vpn member, writable vpn member, ?_⟩
      rw [Pte.frame_of_valid valid, covers.1]
  next => cases h

/-- Nothing but the contents of frames changes, and only where pages of the table are mapped. -/
structure Memory.WritesThrough (pt : PageTable) (m m' : Memory) : Prop where
  only : WritesOnly m m'
  frames : ∀ f, m'.phys f ≠ m.phys f → ∃ vpn < maxPtLen, (pt vpn).frame = some f

namespace Memory.WritesThrough

theorem refl (m : Memory) : WritesThrough pt m m := ⟨.refl m, fun _ differs => absurd rfl differs⟩

theorem trans (first : WritesThrough pt m m₁) (second : WritesThrough pt m₁ m') :
    WritesThrough pt m m' where
  only := first.only.trans second.only
  frames f differs := by
    by_cases same : m'.phys f = m₁.phys f
    · rw [same] at differs
      exact first.frames f differs
    · exact second.frames f same

/-- A table with the same frames. -/
theorem congr {pt' : PageTable} (wrote : WritesThrough pt m m')
    (same : ∀ vpn, (pt' vpn).frame = (pt vpn).frame) : WritesThrough pt' m m' where
  only := wrote.only
  frames f differs := by
    obtain ⟨vpn, inside, named⟩ := wrote.frames f differs
    exact ⟨vpn, inside, (same vpn).trans named⟩

theorem storeFun {bytes : Nat → Byte} (h : m.storeFun pt va n bytes = .ok m') :
    WritesThrough pt m m' where
  only := .storeFun h
  frames f differs := by
    obtain ⟨vpn, inside, -, named⟩ := storeFun_frames h differs
    exact ⟨vpn, inside, named⟩

theorem storeRange {bytes : List Byte} (h : m.storeRange pt va bytes = .ok m') :
    WritesThrough pt m m' := storeFun h

theorem storeArgs {n : Nat} {cp2 : List Byte} {cpp cp cpp' : Word}
    (h : storeArgs pt n cp2 cpp cp m = .ok (cpp', m')) : WritesThrough pt m m' := by
  induction n generalizing cp2 cpp cp m with
  | zero =>
      cases h
      exact refl _
  | succ n inductionHypothesis =>
      simp only [Yalnix.storeArgs, bind_eq_ok] at h
      obtain ⟨m₁, pointer, m₂, string, h⟩ := h
      exact ((storeRange pointer).trans (storeRange string)).trans (inductionHypothesis h)

theorem buildStack {plan : LoadPlan} {argbuf : ArgBuf}
    (h : buildStack plan argbuf pt m = .ok m') : WritesThrough pt m m' := by
  simp only [Yalnix.buildStack, bind_eq_ok] at h
  obtain ⟨m₁, cleared, m₂, argc, ⟨cpp, m₃⟩, arguments, m₄, argv, envp⟩ := h
  have first := (storeFun cleared).trans (storeRange argc)
  exact ((first.trans (storeArgs arguments)).trans (storeRange argv)).trans (storeRange envp)

theorem readInto {va : Word} {size : Nat} {answer : ReadAnswer} {complete : Bool}
    (h : readInto m pt va size answer = .ok (complete, m')) : WritesThrough pt m m' := by
  rcases answer with _ | ⟨count, bytes⟩
  · cases h
    exact refl _
  · simp only [Yalnix.readInto, bind_eq_ok, pure_eq_ok, Prod.mk.injEq] at h
    obtain ⟨m₁, stored, -, rfl⟩ := h
    exact storeFun stored

end Memory.WritesThrough

end WritesThrough

/-! ### Loops that write no page -/

section Loops

variable {m m' : Memory} {pt pt' : PageTable} {status : Status}

theorem allocFrame_phys {usage : FrameUsage} {pfn : Nat}
    (h : m.allocFrame usage = some (pfn, m')) : m'.phys = m.phys := by
  obtain ⟨-, rfl⟩ := allocFrame_eq_some h
  rfl

theorem brkGrow_phys {n vpn : Nat} (h : brkGrow n vpn m pt = .ok (status, m', pt')) :
    m'.phys = m.phys := by
  obtain ⟨pages, -, fresh⟩ := brkGrow_pages h
  exact fresh.phys

theorem growStackPages_phys {targetVpn n i : Nat}
    (h : growStackPages targetVpn n i m pt = .ok (status, m', pt')) : m'.phys = m.phys := by
  induction n generalizing i m pt with
  | zero =>
      cases h
      rfl
  | succ n inductionHypothesis =>
      unfold growStackPages at h
      rcases allocated : m.allocFrame .user with _ | ⟨pfn, m₁⟩
      · simp only [allocated] at h
        rcases undone : undoGrowStack targetVpn i m pt with ⟨m₂, pt₂⟩
        rw [undone] at h
        cases h
        exact (undoGrowStack_freed undone).phys
      · simp only [allocated, bind_eq_ok] at h
        obtain ⟨vpn, -, h⟩ := h
        exact (inductionHypothesis h).trans (allocFrame_phys allocated)

theorem clearRegion1_phys {entries : List Nat} (h : clearRegion1 entries m pt = (m', pt')) :
    m'.phys = m.phys := by
  induction entries generalizing m pt with
  | nil =>
      cases h
      rfl
  | cons vpn rest inductionHypothesis =>
      unfold clearRegion1 at h
      split at h
      · exact (inductionHypothesis h).trans freeFrame_phys
      · exact inductionHypothesis h

theorem loadSegment_phys {base : Int} {n i : Nat} (h : loadSegment base n i m pt = .ok (m', pt')) :
    m'.phys = m.phys := by
  induction n generalizing i m pt with
  | zero =>
      cases h
      rfl
  | succ n inductionHypothesis =>
      simp only [loadSegment, bind_eq_ok] at h
      obtain ⟨vpn, -, h⟩ := h
      rcases allocated : m.allocFrame .user with _ | ⟨pfn, m₁⟩
      · rw [allocated] at h
        exact inductionHypothesis h
      · rw [allocated] at h
        exact (inductionHypothesis h).trans (allocFrame_phys allocated)

theorem loadSegments_phys {plan : LoadPlan} (h : loadSegments plan m pt = .ok (m', pt')) :
    m'.phys = m.phys := by
  simp only [loadSegments, bind_eq_ok] at h
  obtain ⟨⟨m₁, pt₁⟩, text, ⟨m₂, pt₂⟩, data, stack⟩ := h
  exact (loadSegment_phys stack).trans ((loadSegment_phys data).trans (loadSegment_phys text))

theorem growKernelHeap_phys {n cur : Nat} (h : growKernelHeap n cur m = (status, m')) :
    m'.phys = m.phys := by
  induction n generalizing cur m with
  | zero =>
      cases h
      rfl
  | succ n inductionHypothesis =>
      unfold growKernelHeap at h
      rcases allocated : m.allocFrame .kernel with _ | ⟨pfn, m₁⟩
      · rw [allocated] at h
        cases h
        rfl
      · rw [allocated] at h
        refine (inductionHypothesis h).trans (Eq.trans ?_ (allocFrame_phys allocated))
        unfold mapRegion0
        split
        · rfl
        · rfl

theorem shrinkKernelHeap_phys {n cur : Nat} (h : shrinkKernelHeap n cur m = (status, m')) :
    m'.phys = m.phys := by
  induction n generalizing cur m with
  | zero =>
      cases h
      rfl
  | succ n inductionHypothesis =>
      unfold shrinkKernelHeap at h
      dsimp only at h
      split at h
      · cases h
        rfl
      · split at h
        · refine (inductionHypothesis h).trans (freeFrame_phys.trans ?_)
          unfold unmapRegion0
          split
          · rfl
          · rfl
        · exact inductionHypothesis h

theorem setKernelBrk_phys (addr : Word) : (m.setKernelBrk addr).2.phys = m.phys := by
  unfold setKernelBrk
  split
  · rfl
  · dsimp only
    split
    · rfl
    · generalize grew : growKernelHeap _ m.kernelBrkPage m = grown
      obtain ⟨status, m₁⟩ := grown
      have first := growKernelHeap_phys grew
      rcases status with _ | _ | _
      · dsimp only
        generalize shrank : shrinkKernelHeap _ m.kernelBrkPage m₁ = shrunk
        obtain ⟨status, m₂⟩ := shrunk
        have second := (shrinkKernelHeap_phys shrank).trans first
        rcases status with _ | _ | _
        · exact second
        · exact second
        · exact second
      · exact first
      · exact first

/-- `CopyPT` fills frames that were free. -/
theorem copyPTEntries_writes {src dst dst' : PageTable} {entries : List Nat}
    (h : copyPTEntries src entries m dst = (status, m', dst')) :
    (∀ f, m'.phys f ≠ m.phys f → f ∈ m.freeFrames) ∧ m'.freeFrames ⊆ m.freeFrames := by
  induction entries generalizing m dst with
  | nil =>
      cases h
      exact ⟨fun _ differs => absurd rfl differs, Finset.Subset.refl _⟩
  | cons i rest inductionHypothesis =>
      unfold copyPTEntries at h
      split at h
      · rcases allocated : m.allocFrame .user with _ | ⟨pfn, m₁⟩
        · simp only [allocated] at h
          cases h
          exact ⟨fun _ differs => absurd rfl differs, Finset.Subset.refl _⟩
        · simp only [allocated] at h
          obtain ⟨free, rfl⟩ := allocFrame_eq_some allocated
          obtain ⟨later, fewer⟩ := inductionHypothesis h
          have left : ((m.takeFrame pfn .user).cloneFrame (src i).pfn pfn).freeFrames =
              m.freeFrames.erase pfn := by
            rw [cloneFrame_frames, freeFrames_takeFrame (by decide)]
          rw [left] at later fewer
          refine ⟨fun f differs => ?_, fewer.trans (Finset.erase_subset _ _)⟩
          by_cases here : f = pfn
          · rw [here]
            exact free
          · apply Finset.mem_of_mem_erase
            apply later f
            rw [cloneFrame_phys, Function.update_of_ne here]
            exact differs
      · exact inductionHypothesis h

/-- `KCCopy` writes the frames of the new kernel stack. -/
theorem copyKernelStack_writes {src dst : PageTable} (f : Nat)
    (differs : (Kernel.copyKernelStack src dst m).phys f ≠ m.phys f) :
    ∃ i < kstackPages, (dst i).pfn = f := by
  by_contra none
  apply differs
  unfold Kernel.copyKernelStack
  have range : ∀ i ∈ List.range kstackPages, (dst i).pfn ≠ f :=
    fun i member same => none ⟨i, List.mem_range.mp member, same⟩
  clear differs none
  generalize List.range kstackPages = entries at range ⊢
  induction entries generalizing m with
  | nil => rfl
  | cons i rest inductionHypothesis =>
      have here := range i List.mem_cons_self
      rw [List.foldl_cons,
        inductionHypothesis fun j member => range j (List.mem_cons_of_mem _ member),
        cloneFrame_phys, Function.update_of_ne here.symm]

/-- A load writes pages that it has mapped. -/
theorem loadImage_writes {req : LoadRequest} {li : LoadInfo} {plan : LoadPlan} {argbuf : ArgBuf}
    {b b' : PCB} (h : Kernel.loadImage req li plan argbuf m b = .ok (status, m', b')) (f : Nat)
    (differs : m'.phys f ≠ m.phys f) : ∃ vpn < maxPtLen, (b'.ptbr vpn).frame = some f := by
  rcases cleared : clearRegion1 (List.range maxPtLen) m b.ptbr with ⟨m₀, pt₀⟩
  simp only [Kernel.loadImage, cleared, bind_eq_ok] at h
  obtain ⟨⟨m₁, pt₁⟩, mapped, ⟨textOk, m₂⟩, text, h⟩ := h
  have unwritten : m₁.phys = m.phys := (loadSegments_phys mapped).trans (clearRegion1_phys cleared)
  have wroteText : WritesThrough pt₁ m₁ m₂ := .readInto text
  rcases textOk with _ | _
  · cases h
    rw [← unwritten] at differs
    exact wroteText.frames f differs
  · simp only [Bool.not_true, Bool.false_eq_true, if_false, bind_eq_ok] at h
    obtain ⟨⟨dataOk, m₃⟩, data, h⟩ := h
    have wroteData := wroteText.trans (.readInto data)
    rcases dataOk with _ | _
    · cases h
      rw [← unwritten] at differs
      exact wroteData.frames f differs
    · simp only [Bool.not_true, Bool.false_eq_true, if_false, bind_eq_ok] at h
      obtain ⟨pt₂, executable, m₄, zeroed, m₅, built, h⟩ := h
      cases h
      have same (vpn : Nat) : (pt₂ vpn).frame = (pt₁ vpn).frame := by
        obtain ⟨valid, pfn⟩ := protectText_eq_ok executable vpn
        rw [Pte.frame, Pte.frame, valid, pfn]
      have wrote := ((wroteData.congr same).trans (.storeFun zeroed)).trans (.buildStack built)
      rw [← unwritten] at differs
      exact wrote.frames f differs

end Loops

/-! ### The memory of a process -/

/-- The PCB, if there is one, is the same. -/
theorem RegionKept.of_other {s s' : Kernel} {p : PcbPtr}
    (same : s.heap p ≠ none → s'.heap p = s.heap p) : RegionKept p s s' := by
  intro b live
  refine ⟨b, ?_, rfl⟩
  rw [same (by rw [live]; exact Option.some_ne_none b)]
  exact live

namespace Kernel

variable {env : Env} {s s' t u : Kernel} {p q : PcbPtr} {b b' : PCB} {written : Prop}

/-- The process lives on with its region 1 table and bounds, and its pages hold what they held, or
have been `written`; with what happens to the frames of everybody. -/
structure PagesKept (written : Prop) (p : PcbPtr) (s s' : Kernel) : Prop where
  moves : SpaceMoves True False s s'
  region : RegionKept p s s'
  bytes : s.holdings.Exclusive → ∀ b, s.heap p = some b → ∀ vpn f, vpn < maxPtLen →
    (b.ptbr vpn).frame = some f → written ∨ s'.mem.phys f = s.mem.phys f

namespace PagesKept

theorem trans (first : PagesKept written p s t) (second : PagesKept written p t u) :
    PagesKept written p s u where
  moves := first.moves.trans second.moves
  region := first.region.trans second.region
  bytes exclusive b live vpn f inside named := by
    obtain ⟨c, live', same⟩ := first.region b live
    have table : c.ptbr = b.ptbr := congrArg Prod.fst same
    have named' : (c.ptbr vpn).frame = some f := by
      rw [table]
      exact named
    rcases first.bytes exclusive b live vpn f inside named with lost | here
    · exact Or.inl lost
    · rcases second.bytes (exclusive.changes first.moves.changes) c live' vpn f inside named' with
        lost | there
      · exact Or.inl lost
      · exact Or.inr (there.trans here)

/-- No page is written. -/
theorem of_quiet (moves : SpaceMoves True False s s') (region : RegionKept p s s')
    (phys : s'.mem.phys = s.mem.phys) : PagesKept written p s s' :=
  ⟨moves, region, fun _ _ _ _ _ _ _ => Or.inr (congrFun phys _)⟩

/-- Written are frames that were free, and frames that some other place names afterwards: nobody
shares a frame with the process. -/
theorem of_frames (moves : SpaceMoves True False s s') (region : RegionKept p s s')
    (changed : ∀ f, s'.mem.phys f ≠ s.mem.phys f → f ∈ s.mem.freeFrames ∨
      ∃ slot, (∀ vpn, slot ≠ (.region1 p, vpn)) ∧ s'.holdings.holds slot = some f) :
    PagesKept written p s s' := by
  refine ⟨moves, region, fun exclusive b live vpn f inside named => Or.inr ?_⟩
  have here : s.holdings.holds (.region1 p, vpn) = some f := by
    rw [holdings, holds_table (by simp), tables_region1 live]
    exact (if_pos inside).trans named
  obtain ⟨c, live', same⟩ := region b live
  have table : c.ptbr = b.ptbr := congrArg Prod.fst same
  have there : s'.holdings.holds (.region1 p, vpn) = some f := by
    rw [holdings, holds_table (by simp), tables_region1 live', table]
    exact (if_pos inside).trans named
  by_contra differs
  rcases changed f differs with free | ⟨slot, other, held⟩
  · exact unused_of_free free (exclusive.used _ _ here)
  · exact other vpn ((exclusive.changes moves.changes).once _ _ _ held there)

theorem of_same (heap : s'.heap = s.heap) (next : s'.nextPcb = s.nextPcb) (mem : s'.mem = s.mem)
    (current : s'.currentProcess = s.currentProcess) : PagesKept written p s s' :=
  of_quiet (.of_same heap next mem current) (.of_heap heap) (by rw [mem])

theorem kcSwitch {kc : KernelContext} {curr next : PcbPtr} (h : s.kcSwitch kc curr next = .ok s') :
    PagesKept written p s s' := by
  refine of_quiet (.kcSwitch h) (.kcSwitch h) ?_
  obtain ⟨c, n, kstack, -, -, -, rfl⟩ := kcSwitch_eq_ok h
  rfl

/-- The kernel writes through the table in force. -/
theorem storeUser {va : Word} {bytes : List Byte} (stores : s.ptbr1 = p → written)
    (h : s.storeUser va bytes = .ok s') : PagesKept written p s s' := by
  have moves : SpaceMoves True False s s' := .storeUser h
  obtain ⟨b, m, live, stored, rfl⟩ := storeUser_eq_ok.mp h
  have region : RegionKept p s (s.setMem m) := .of_heap rfl
  by_cases own : s.ptbr1 = p
  · exact ⟨moves, region, fun _ _ _ _ _ _ _ => Or.inl (stores own)⟩
  · refine of_frames moves region fun f differs => Or.inr ?_
    obtain ⟨vpn, inside, named⟩ := (WritesThrough.storeRange stored).frames f differs
    refine ⟨(.region1 s.ptbr1, vpn), fun vpn' same => ?_, ?_⟩
    · cases same
      exact own rfl
    · have live' : (s.setMem m).heap s.ptbr1 = some b := live
      rw [holdings, holds_table (by simp), tables_region1 live']
      exact (if_pos inside).trans named

/-- The elementary changes. -/
theorem rule (written : Prop) (p : PcbPtr) :
    StepRule (fun q => q = p → written) (PagesKept written p) where
  trans := trans
  same := of_same
  setPcb live region stack :=
    of_quiet (.setPcb live (congrArg Prod.fst region) stack) (.setPcb live region) rfl
  kcSwitch := kcSwitch
  storeUser := storeUser

/-! ### Fork -/

theorem getFreePCB {slot : Option PcbPtr} (absent : s.heap s.nextPcb = none)
    (h : s.getFreePCB env = .ok (slot, s')) : PagesKept written p s s' := by
  have moves : SpaceMoves True False s s' := .getFreePCB absent h
  rcases getFreePCB_eq_ok h with ⟨-, rfl⟩ | ⟨i, -, -, rfl⟩
  · exact (rule written p).refl s'
  · refine of_quiet moves (.of_other fun live => ?_) rfl
    refine Function.update_of_ne ?_ _ _
    rintro rfl
    exact live absent

theorem copyPT {src dst : PcbPtr} {status : Status} (other : dst ≠ p)
    (empty : ∀ b, s.heap dst = some b → ∀ vpn, (b.ptbr vpn).valid = false)
    (h : s.copyPT src dst = .ok (status, s')) : PagesKept written p s s' := by
  have moves : SpaceMoves True False s s' := .copyPT (Or.inr trivial) empty h
  obtain ⟨srcPcb, dstPcb, m, pt, -, -, copied, rfl⟩ := copyPT_eq_ok h
  refine of_frames moves (.of_other fun _ => Function.update_of_ne other.symm _ _) ?_
  exact fun f differs => Or.inl ((copyPTEntries_writes copied).1 f differs)

/-- `KCCopy` into a process without a kernel stack. -/
theorem kcCopy {kc : KernelContext} {new : PcbPtr} {n : PCB} (live : s.heap new = some n)
    (noStack : n.kstack = none) (other : s.currentProcess ≠ new)
    (h : s.kcCopy env kc new = .ok s') : PagesKept written p s s' := by
  have moves : SpaceMoves True False s s' := .kcCopy other (Or.inr trivial) h
  obtain ⟨m, pages, c, current, filled, -, -, rfl⟩ := kcCopy_eq_ok live noStack other h
  have allotted := initKernelStackPages_allots filled
  have region : RegionKept p s
      ({ s with
        mallocCalls := s.mallocCalls + 1
        mem := copyKernelStack current pages m }.setPcb new
          { n with kernelContext := kc, kstack := some pages }) := by
    have named : RegionKept p s
        (s.setPcb new { n with kernelContext := kc, kstack := some pages }) := .setPcb live rfl
    exact named.trans (.of_heap rfl)
  refine of_frames moves region fun f differs => Or.inl ?_
  have differs : (copyKernelStack current pages m).phys f ≠ s.mem.phys f := differs
  rw [← allotted.phys] at differs
  obtain ⟨i, inside, same⟩ := copyKernelStack_writes f differs
  rw [← same]
  exact (allotted.taken i (Nat.zero_le i) (by omega)).2.1

/-- `Fork` fills frames that were free. -/
theorem fork {status : Status} (other : s.currentProcess ≠ s.nextPcb)
    (absent : s.heap s.nextPcb = none) (h : s.fork env = .ok (status, s')) :
    PagesKept written p s s' := by
  by_cases new : s.nextPcb = p
  · -- the process does not exist yet
    have gone : s.heap p = none := new ▸ absent
    have none (b : PCB) (live : s.heap p = some b) : False := by
      rw [gone] at live
      cases live
    exact ⟨.fork other absent (Or.inr trivial) h, fun b live => (none b live).elim,
      fun _ b live => (none b live).elim⟩
  · simp only [Kernel.fork, bind_eq_ok] at h
    obtain ⟨⟨slot, t⟩, found, h⟩ := h
    have created : PagesKept written p s t := getFreePCB absent found
    rcases getFreePCB_eq_ok found with ⟨rfl, -⟩ | ⟨i, -, rfl, fresh⟩
    · cases h
      exact created
    · simp only [bind_eq_ok, deref_eq_ok] at h
      obtain ⟨parent, -, u, filled, ⟨copied, v⟩, requested, h⟩ := h
      obtain ⟨c, childLive, rfl⟩ := modifyPcb_eq_ok.mp filled
      have blank : c.ptbr = PageTable.none ∧ c.kstack = none := by
        rw [fresh] at childLive
        simp only [setQueue_heap, setPcb_heap, Function.update_self, Option.some.injEq] at childLive
        rw [← childLive]
        exact ⟨rfl, rfl⟩
      have before := (rule written p).trans created
        ((rule written p).modifyPcb filled fun _ => ⟨rfl, rfl⟩)
      have spaced : PagesKept written p _ v := copyPT new (fun b live vpn => by
        rw [setPcb_heap, Function.update_self, Option.some.injEq] at live
        rw [← live]
        exact congrArg (fun pt : PageTable => (pt vpn).valid) blank.1) requested
      by_cases failed : copied = .error
      · rw [if_pos failed] at h
        cases h
        exact before.trans spaced
      · rw [if_neg failed] at h
        simp only [bind_eq_ok, pure_eq_ok] at h
        obtain ⟨w, stacked, x, returned, h⟩ := h
        obtain ⟨-, rfl⟩ := Prod.mk.inj h
        obtain ⟨src, dst, m, pt, -, dstLive, -, spacedAs⟩ := copyPT_eq_ok requested
        have current : v.currentProcess = s.currentProcess := by
          rw [spacedAs, setPcb_currentProcess, setMem_currentProcess, setPcb_currentProcess, fresh]
          rfl
        have childSpaced : v.heap s.nextPcb = some { dst with ptbr := pt } := by
          rw [spacedAs, setPcb_heap, Function.update_self]
        have noStack : dst.kstack = none := by
          rw [setPcb_heap, Function.update_self, Option.some.injEq] at dstLive
          rw [← dstLive]
          exact blank.2
        have stack : PagesKept written p v w :=
          kcCopy childSpaced noStack (current ▸ other) stacked
        exact ((before.trans spaced).trans stack).trans ((rule written p).forkReturn returned)

/-! ### Memory traps, Brk and programs -/

theorem growStack {addr : Word} {status : Status} (other : s.currentProcess ≠ p)
    (h : s.growStack addr = .ok (status, s')) : PagesKept written p s s' := by
  have moves : SpaceMoves True False s s' := .growStack (fun _ _ _ _ _ => Or.inr trivial) h
  obtain ⟨c, m, pt, live, grew, ⟨-, rfl⟩ | ⟨-, rfl⟩⟩ := growStack_eq_ok h
  · exact of_quiet moves (.of_other fun _ => Function.update_of_ne other.symm _ _)
      (growStackPages_phys grew)
  · exact of_quiet moves (.of_other fun _ => Function.update_of_ne other.symm _ _)
      (growStackPages_phys grew)

theorem brk {addr : Word} {status : Status} (other : s.currentProcess ≠ p)
    (h : s.brk env addr = .ok (status, s')) : PagesKept written p s s' := by
  have moves : SpaceMoves True False s s' := .brk h
  rcases brk_eq_ok h with ⟨-, rfl⟩ | ⟨-, c, m, pt, live, ⟨grew, rfl⟩ | ⟨grew, rfl⟩⟩
  · exact (rule written p).refl s'
  · exact of_quiet moves (.of_other fun _ => Function.update_of_ne other.symm _ _)
      (brkGrow_phys grew)
  · exact of_quiet moves (.of_other fun _ => Function.update_of_ne other.symm _ _)
      (brkGrow_phys grew)

/-- A load writes the pages that it has mapped. -/
theorem loadProgram {req : LoadRequest} {argv : ArgVector} {status : Status} (other : q ≠ p)
    (allowed : s.LoadAllowed True False env req argv q)
    (h : s.loadProgram env req argv q = .ok (status, s')) : PagesKept written p s s' := by
  have moves : SpaceMoves True False s s' := .loadProgram allowed h
  obtain ⟨b, live, ⟨-, rfl, -⟩ | ⟨li, args, plan, -, -, -, ⟨-, -, rfl⟩ | ⟨-, m, b', image, rfl⟩⟩⟩ :=
    loadProgram_eq_ok h
  · exact (rule written p).refl s'
  · exact of_quiet moves (.of_other fun _ => Function.update_of_ne other.symm _ _) rfl
  · refine of_frames moves (.of_other fun _ => Function.update_of_ne other.symm _ _) ?_
    intro f differs
    obtain ⟨vpn, inside, named⟩ := loadImage_writes image f differs
    refine Or.inr ⟨(.region1 q, vpn), fun vpn' same => ?_, ?_⟩
    · cases same
      exact other rfl
    · have live' : (((s.malloc env).2.setMem m).setPcb q b').heap q = some b' :=
        Function.update_self ..
      rw [holdings, holds_table (by simp), tables_region1 live']
      exact (if_pos inside).trans named

theorem exec {req : LoadRequest} {argv : Word} {rc : Int} (other : s.currentProcess ≠ p)
    (allowed : s.LoadAllowed True False env req (.user argv) s.currentProcess)
    (h : s.exec env req argv = .ok (rc, s')) : PagesKept written p s s' := by
  simp only [Kernel.exec, bind_eq_ok] at h
  obtain ⟨⟨status, t⟩, loaded, h⟩ := h
  have kept : PagesKept written p s t := loadProgram other allowed loaded
  by_cases failed : status = .error
  · simp only [failed, if_true] at h
    cases h
    exact kept
  · simp only [failed, if_false] at h
    cases h
    exact kept

/-- Deleting another process. -/
theorem deletePCB (other : q ≠ p) (h : s.deletePCB q = .ok s') : PagesKept written p s s' := by
  have moves : SpaceMoves True False s s' := .deletePCB trivial h
  simp only [Kernel.deletePCB, bind_eq_ok, pure_eq_ok] at h
  obtain ⟨-, -, t, orphaned, rfl⟩ := h
  have first : PagesKept written p s t := (rule written p).orphanChildren orphaned
  refine ⟨moves, first.region.trans (.of_other fun _ => ?_),
    fun exclusive b live vpn f inside named =>
      first.bytes exclusive b live vpn f inside named⟩
  exact Function.update_of_ne other.symm _ _

end PagesKept

/-! ### Steps -/

/-- The running process changes its own region 1. -/
def Reshapes (s : Kernel) : Input → Prop
  | .kernelTrap ctx _ => ctx.code = yalnixBrk ∨ ctx.code = yalnixExec
  | .memoryTrap ctx => ∃ c, s.heap s.currentProcess = some c ∧ memoryTrapAction c ctx = .grow
  | _ => False

/-- A program that is loaded finds frames for its pages. -/
def LoadFits (env : Env) (s : Kernel) : Input → Prop
  | .kernelTrap ctx req =>
      ctx.code = yalnixExec → ∀ b, s.heap s.currentProcess = some b →
        ¬ RunsShort env s b req (.user (ctx.regs 1))
  | _ => True

theorem LoadFits.allowed {i : Input} (fits : s.LoadFits env i) :
    s.SpaceAllowed True False env i where
  reaps := fun _ _ => trivial
  loads := by
    rintro ctx req rfl code b live
    exact ⟨Or.inl (fits code b live), fun _ _ _ _ _ _ => Or.inr trivial⟩
  grows := fun _ _ _ _ _ _ _ _ _ _ => Or.inr trivial
  heap := fun _ _ => trivial

/-- A relation that the operations on frames keep to, if those that the running process does to its
own region 1 do. -/
theorem frameSteps_of {i : Input} {R : Kernel → Kernel → Prop}
    (into : ∀ {t u}, PagesKept written p t u → R t u) (ready : s.SpaceReady)
    (fits : s.LoadFits env i) (alive : ¬ s.Reaps p i)
    (ownBrk : s.currentProcess = p → ∀ ctx req t status u, i = .kernelTrap ctx req →
      ctx.code = yalnixBrk → (s.trap ctx).saveContext = .ok t →
        t.brk env (ctx.regs 0) = .ok (status, u) → R t u)
    (ownExec : s.currentProcess = p → ∀ ctx req, i = .kernelTrap ctx req → ctx.code ≠ yalnixExec)
    (ownGrow : s.currentProcess = p → ∀ ctx c status t, i = .memoryTrap ctx →
      s.heap s.currentProcess = some c → memoryTrapAction c ctx = .grow →
        (s.trap ctx).growStack ctx.addr = .ok (status, t) → R (s.trap ctx) t) :
    FrameSteps R env s i := by
  have entered {ctx : UserContext} {t : Kernel} (saved : (s.trap ctx).saveContext = .ok t) :
      t.SpaceReady ∧ t.currentProcess = s.currentProcess := by
    have moved : SpaceMoves True False (s.trap ctx) t := .saveContext saved
    obtain ⟨b, live, rfl⟩ := saveContext_eq_ok.mp saved
    exact ⟨moved.ready ⟨ready.fresh, ready.current, ready.heapBelow⟩, rfl⟩
  constructor
  case fork =>
    rintro ctx req t status u rfl saved forked
    have ready := (entered saved).1
    exact into (.fork (Nat.ne_of_lt ready.current) (ready.fresh _ le_rfl) forked)
  case brk =>
    intro ctx req t status u isCall code saved moved
    by_cases own : s.currentProcess = p
    · exact ownBrk own ctx req t status u isCall code saved moved
    · exact into (.brk (fun same => own ((entered saved).2.symm.trans same)) moved)
  case exec =>
    rintro ctx req t rc u rfl code saved loaded
    have other : s.currentProcess ≠ p := fun own => ownExec own ctx req rfl code
    refine into (.exec (fun same => other ((entered saved).2.symm.trans same)) ?_ loaded)
    obtain ⟨b, live, rfl⟩ := saveContext_eq_ok.mp saved
    intro c found
    have suffice := fits code b live
    refine ⟨Or.inl fun short => suffice ?_, fun _ _ _ _ _ _ => Or.inr trivial⟩
    exact runsShort_saveContext (s := s.trap ctx) live saved found short
  case grow =>
    intro ctx c status t isTrap live action grown
    by_cases own : s.currentProcess = p
    · exact ownGrow own ctx c status t isTrap live action grown
    · exact into (.growStack own grown)
  case reap =>
    intro z t u reaps deleted
    refine into (.deletePCB ?_ deleted)
    rintro rfl
    exact alive reaps
  case heap =>
    rintro addr rfl
    exact into (.of_quiet (.setKernelBrk ready.heapBelow addr) (.of_heap rfl)
      (setKernelBrk_phys addr))

/-- A step keeps the memory of a process that it does not reap, unless the process itself writes it
or changes its region 1. -/
theorem pagesKept_step {i : Input} (ready : s.SpaceReady) (table : s.ptbr1 = s.currentProcess)
    (fits : s.LoadFits env i) (alive : ¬ s.Reaps p i)
    (own : s.currentProcess = p → written ∧ ¬ s.Reshapes i) (h : s.deliver env i = .ok s') :
    PagesKept written p s s' := by
  have steps : FrameSteps (PagesKept written p) env s i := by
    apply frameSteps_of id ready fits alive
    case ownBrk =>
      rintro running ctx req t status u rfl code saved moved
      exact absurd (Or.inl code) (own running).2
    case ownExec =>
      rintro running ctx req rfl code
      exact (own running).2 (Or.inr code)
    case ownGrow =>
      rintro running ctx c status t rfl live action grown
      exact absurd ⟨c, live, action⟩ (own running).2
  exact (PagesKept.rule written p).deliver (fun same => (own (table.symm.trans same)).1) steps h

end Kernel

end Yalnix
