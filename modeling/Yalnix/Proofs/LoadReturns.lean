/-
Module: Yalnix.Proofs.LoadReturns
Purpose: When LoadProgram comes back from loading a file whose segments can be read: the writes of
  the load stay in the pages that it maps.
Trusted boundary: none
Main exports: RangeOn, LoadPlan.Plain, ImageFits, loadImage_succeeds_iff, loadSegments_distinct
-/
import Yalnix.Proofs.ArgumentStack

namespace Yalnix

open Memory

variable {m m' : Memory} {pt pt' : PageTable} {va n low : Nat} {base : Int} {i : Nat}

/-! ### Ranges -/

/-- The range is empty, or lies in region 1 on pages of this kind. -/
def RangeOn (pages : Nat → Prop) (va n : Nat) : Prop :=
  inRegion1 va n = true ∧ ∀ vpn ∈ rangePages va n, pages vpn

instance {pages : Nat → Prop} [DecidablePred pages] : Decidable (RangeOn pages va n) :=
  inferInstanceAs (Decidable (_ ∧ _))

theorem RangeOn.congr {pages pages' : Nat → Prop}
    (same : ∀ vpn < maxPtLen, pages vpn ↔ pages' vpn) :
    RangeOn pages va n ↔ RangeOn pages' va n := by
  refine and_congr_right fun inside => forall₂_congr fun vpn member => same vpn ?_
  rw [inRegion1, decide_eq_true_eq] at inside
  obtain ⟨start, limit⟩ := inside.resolve_left (Nat.ne_of_gt (pos_of_mem_rangePages member))
  exact rangePages_lt limit start vpn member

/-- The addresses of the range. -/
theorem RangeOn.page {pages : Nat → Prop} {a : Nat} (range : RangeOn pages va n) (above : va ≤ a)
    (below : a < va + n) :
    vmem1Base ≤ a ∧ a < vmem1Limit ∧ pages ((a - vmem1Base) / pageSize) := by
  obtain ⟨inside, covered⟩ := range
  rw [inRegion1, decide_eq_true_eq] at inside
  have bounds := inside.resolve_left (by omega)
  have member : (va + (a - va) - vmem1Base) / pageSize ∈ rangePages va n :=
    mem_rangePages (by omega)
  rw [Nat.add_sub_cancel' above] at member
  exact ⟨by omega, by omega, covered _ member⟩

/-- A part of the range. -/
theorem RangeOn.part {pages : Nat → Prop} (range : RangeOn pages va n) (va' n' : Nat)
    (above : va ≤ va') (below : va' + n' ≤ va + n) : RangeOn pages va' n' := by
  by_cases empty : n' = 0
  · subst empty
    exact ⟨rfl, fun vpn member => absurd (pos_of_mem_rangePages member) (Nat.lt_irrefl 0)⟩
  obtain ⟨low, high, -⟩ := range.page above (by omega : va' < va + n)
  obtain ⟨-, last, -⟩ := range.page (by omega : va ≤ va' + n' - 1) (by omega)
  refine ⟨?_, fun vpn member => ?_⟩
  · rw [inRegion1, decide_eq_true_eq]
    exact Or.inr ⟨low, by omega⟩
  · -- the first address of the part that is on the page
    rw [rangePages, if_neg empty, List.mem_range'_1] at member
    have page : (max va' (vmem1Base + vpn * pageSize) - vmem1Base) / pageSize = vpn := by
      simp only [vmem1Base, pageSize] at low member ⊢
      omega
    have bound : vmem1Base + vpn * pageSize < va' + n' := by
      simp only [vmem1Base, pageSize] at low member ⊢
      omega
    obtain ⟨-, -, covered⟩ :=
      range.page (above.trans (le_max_left va' (vmem1Base + vpn * pageSize))) (by omega)
    rwa [page] at covered

/-- A write comes back when its range is writable. -/
theorem storeFun_returns (m : Memory) (bytes : Nat → Byte) :
    (∃ m', m.storeFun pt va n bytes = .ok m') ↔ RangeOn (fun vpn => (pt vpn).writable = true) va n := by
  have accessible : RangeOn (fun vpn => (pt vpn).writable = true) va n ↔
      (inRegion1 va n && (rangePages va n).all fun vpn => (pt vpn).writable) = true := by
    rw [RangeOn, Bool.and_eq_true, List.all_eq_true]
  rw [accessible, storeFun]
  split
  · rename_i inside
    exact iff_of_true ⟨_, rfl⟩ inside
  · rename_i outside
    exact iff_of_false (by rintro ⟨m', h⟩; cases h) outside

theorem readInto_returns {va : Word} {size : Nat} {answer : ReadAnswer}
    (whole : Delivers answer size) : (∃ m', readInto m pt va size answer = .ok (true, m')) ↔
      RangeOn (fun vpn => (pt vpn).writable = true) va.toNat size := by
  obtain ⟨bytes, rfl⟩ := whole
  rw [← storeFun_returns m bytes]
  simp only [readInto, Nat.min_self, decide_true, bind_eq_ok, pure_eq_ok, Prod.mk.injEq, true_and,
    exists_eq_right]

/-! ### The tables -/

theorem loadSegment_prot (h : loadSegment base n i m pt = .ok (m', pt')) (vpn : Nat)
    (plain : (pt vpn).valid = true → (pt vpn).prot = protReadWrite) :
    (pt' vpn).valid = true → (pt' vpn).prot = protReadWrite := by
  induction n generalizing i m pt with
  | zero =>
      cases h
      exact plain
  | succ n inductionHypothesis =>
      obtain ⟨mapped, -, -, h⟩ := loadSegment_succ h
      have set (pfn : Nat) :
          ((Function.update pt mapped ⟨true, protReadWrite, pfn⟩) vpn).valid = true →
            ((Function.update pt mapped ⟨true, protReadWrite, pfn⟩) vpn).prot = protReadWrite := by
        by_cases same : vpn = mapped
        · simp [same]
        · simpa [same] using plain
      rcases h with ⟨pfn, -, h⟩ | ⟨-, h⟩
      · exact inductionHypothesis h (set pfn)
      · exact inductionHypothesis h (set _)

/-- Where nothing was mapped before, the loops make the pages of the image writable, and no
others. -/
theorem loadSegments_prot {plan : LoadPlan} (empty : ∀ vpn < maxPtLen, (pt vpn).valid = false)
    (h : loadSegments plan m pt = .ok (m', pt')) :
    ∀ vpn < maxPtLen, ((pt' vpn).valid = true ↔ plan.Covers vpn) ∧
      (plan.Covers vpn → (pt' vpn).prot = protReadWrite) := by
  intro vpn inside
  have valid : (pt' vpn).valid = true ↔ plan.Covers vpn := by
    rw [loadSegments_valid h, empty vpn inside]
    simp
  refine ⟨valid, fun covered => ?_⟩
  have mapped := valid.mpr covered
  simp only [loadSegments, bind_eq_ok] at h
  obtain ⟨⟨m₁, pt₁⟩, text, ⟨m₂, pt₂⟩, data, stack⟩ := h
  have start : (pt vpn).valid = true → (pt vpn).prot = protReadWrite := by simp [empty vpn inside]
  exact loadSegment_prot stack vpn
    (loadSegment_prot data vpn (loadSegment_prot text vpn start)) mapped

/-- The page belongs to data or stack alone. -/
def LoadPlan.Plain (plan : LoadPlan) (vpn : Nat) : Prop :=
  plan.Covers vpn ∧ ¬ InSegment plan.textPg1 plan.textNpg vpn

theorem protectText_returns (pt : PageTable)
    (inside : ∀ index ∈ segment (base + i) n, 0 ≤ index ∧ index < maxPtLen) :
    ∃ pt', protectText base n i pt = .ok pt' := by
  induction n generalizing i pt with
  | zero => exact ⟨pt, rfl⟩
  | succ n inductionHypothesis =>
      have first := inside (base + i) (mem_segment.mpr ⟨le_rfl, by omega⟩)
      have rest : ∀ index ∈ segment (base + (i + 1 : Nat)) n, 0 ≤ index ∧ index < maxPtLen := by
        intro index member
        rw [mem_segment] at member
        exact inside index (mem_segment.mpr (by omega))
      obtain ⟨pt', executable⟩ := inductionHypothesis (Function.update pt (base + i).toNat
        { pt (base + i).toNat with prot := protReadExec }) rest
      refine ⟨pt', ?_⟩
      simp only [protectText, bind_eq_ok]
      exact ⟨_, if_pos first, executable⟩

/-! ### The stack -/

/-- Every string is stored inside region 1, which keeps the addresses from wrapping. -/
theorem storeArgs_region {args : List (List Byte)} {cpp cp cpp' : Word}
    (proper : ∀ arg ∈ args, 0 ∉ arg) (limit : cp.toNat ≤ vmem1Limit ∨ args ≠ [])
    (h : storeArgs pt args.length (saveArgs args).bytes cpp cp m = .ok (cpp', m')) :
    cp.toNat + argBytes args ≤ vmem1Limit := by
  induction args generalizing cpp cp m with
  | nil => exact limit.resolve_right fun some => some rfl
  | cons arg rest inductionHypothesis =>
      obtain ⟨isFirst, others⟩ := saveArgs_cons rest (proper arg List.mem_cons_self)
      simp only [List.length_cons, storeArgs, isFirst, others, bind_eq_ok] at h
      obtain ⟨m₁, -, m₂, string, h⟩ := h
      have stringEnd := ((storeFun_accessible string).1 (by simp)).2
      rw [List.length_append, List.length_singleton] at stringEnd
      have next : (cp + BitVec.ofNat 32 (arg.length + 1)).toNat = cp.toNat + (arg.length + 1) := by
        rw [BitVec.toNat_add, BitVec.toNat_ofNat]
        simp only [vmem1Limit, Nat.reducePow] at stringEnd ⊢
        omega
      have later := inductionHypothesis
        (fun word member => proper word (List.mem_cons_of_mem _ member)) (Or.inl (next ▸ stringEnd)) h
      rw [argBytes_cons]
      omega

/-- The loop comes back when pointers and strings lie on writable pages. -/
theorem storeArgs_returns {args : List (List Byte)} {cpp cp : Word}
    (proper : ∀ arg ∈ args, 0 ∉ arg)
    (top : RangeOn (fun vpn => (pt vpn).writable = true) low (vmem1Limit - low))
    (above : low ≤ cpp.toNat) (below : cpp.toNat + 4 * args.length ≤ cp.toNat)
    (limit : cp.toNat + argBytes args ≤ vmem1Limit) :
    ∃ cpp' m', storeArgs pt args.length (saveArgs args).bytes cpp cp m = .ok (cpp', m') ∧
      cpp'.toNat = cpp.toNat + 4 * args.length := by
  induction args generalizing cpp cp m with
  | nil => exact ⟨cpp, m, rfl, rfl⟩
  | cons arg rest inductionHypothesis =>
      obtain ⟨isFirst, others⟩ := saveArgs_cons rest (proper arg List.mem_cons_self)
      simp only [List.length_cons, argBytes_cons] at below limit
      have longer : (arg ++ [0]).length = arg.length + 1 := List.length_append
      obtain ⟨m₁, pointer⟩ := (storeFun_returns m fun i => (wordBytes cp).getD i 0).mpr
        (top.part cpp.toNat 4 above (by omega))
      obtain ⟨m₂, string⟩ := (storeFun_returns m₁ fun i => (arg ++ [0]).getD i 0).mpr
        (top.part cp.toNat (arg ++ [0]).length (by omega) (by omega))
      have nextPointer : (cpp + 4).toNat = cpp.toNat + 4 := pointer_succ (by omega)
      have nextString : (cp + BitVec.ofNat 32 (arg.length + 1)).toNat =
          cp.toNat + (arg.length + 1) := by
        rw [BitVec.toNat_add, BitVec.toNat_ofNat]
        simp only [vmem1Limit, Nat.reducePow] at limit ⊢
        omega
      obtain ⟨cpp', m', stored, finish⟩ : ∃ cpp' m', storeArgs pt rest.length
          (saveArgs rest).bytes (cpp + 4) (cp + BitVec.ofNat 32 (arg.length + 1)) m₂ =
            .ok (cpp', m') ∧ cpp'.toNat = (cpp + 4).toNat + 4 * rest.length :=
        inductionHypothesis (fun word member => proper word (List.mem_cons_of_mem _ member))
          (by omega) (by omega) (by omega)
      refine ⟨cpp', m', ?_, by rw [finish, List.length_cons]; omega⟩
      simp only [List.length_cons, storeArgs, isFirst, others, bind_eq_ok]
      exact ⟨m₁, pointer, m₂, string, stored⟩

theorem length_le_argBytes (args : List (List Byte)) : args.length ≤ argBytes args := by
  induction args with
  | nil => exact Nat.le_refl 0
  | cons arg rest inductionHypothesis =>
      rw [argBytes_cons, List.length_cons]
      omega

/-- The stack is built when it fits region 1 and its pages can be written. -/
theorem buildStack_returns {plan : LoadPlan} {args : List (List Byte)}
    (proper : ∀ arg ∈ args, 0 ∉ arg) (sized : argSize args = argBytes args)
    (strings : plan.cp = stringsStart args) (start : plan.cpp = stackStart args) :
    (∃ m', buildStack plan (saveArgs args) pt m = .ok m') ↔ stackNpg args ≤ maxPtLen ∧
      RangeOn (fun vpn => (pt vpn).writable = true) plan.cpp.toNat
        (vmem1Limit - plan.cpp.toNat) := by
  constructor
  · rintro ⟨m', built⟩
    simp only [buildStack, bind_eq_ok] at built
    obtain ⟨m₁, cleared, m₂, argc, ⟨cpp, m₃⟩, arguments, -⟩ := built
    refine ⟨?_, (storeFun_returns ..).mp ⟨m₁, cleared⟩⟩
    obtain ⟨low, high⟩ := (storeFun_accessible argc).1 (Nat.zero_lt_succ 3)
    have inside : argBytes args ≤ vmem1Limit := by
      by_cases none : args = []
      · subst none
        exact Nat.zero_le _
      · exact (Nat.le_add_left ..).trans (storeArgs_region proper (Or.inr none) arguments)
    -- so little space does not wrap
    have count := length_le_argBytes args
    have address := stackStart_toNat args
    have space : stackSpace args = argBytes args + (args.length + 3 + 0x20) * 4 := rfl
    rw [start] at low high
    simp only [stackNpg, wordBytes, List.length_map, List.length_range, vmem1Base, vmem1Limit,
      maxPtLen] at low high inside ⊢
    omega
  · rintro ⟨room, writable⟩
    obtain ⟨region, below, limit, -⟩ := stack_room room
    rw [← start, ← strings] at below
    rw [← start] at region
    rw [← strings] at limit
    have first : (plan.cpp + 4).toNat = plan.cpp.toNat + 4 := pointer_succ (by omega)
    have word (m : Memory) (w : Word) (a : Nat) (above : plan.cpp.toNat ≤ a)
        (fits : a + 4 ≤ vmem1Limit) : ∃ m', m.storeRange pt a (wordBytes w) = .ok m' := by
      have width : (wordBytes w).length = 4 := rfl
      exact (storeFun_returns ..).mpr (writable.part _ _ above (by omega))
    obtain ⟨m₁, cleared⟩ := (storeFun_returns m fun _ => 0).mpr writable
    obtain ⟨m₂, argc⟩ := word m₁ (BitVec.ofNat 32 args.length) _ le_rfl (by omega)
    obtain ⟨cpp, m₃, arguments, finish⟩ : ∃ cpp m₃, storeArgs pt args.length
        (saveArgs args).bytes (plan.cpp + 4) plan.cp m₂ = .ok (cpp, m₃) ∧
          cpp.toNat = (plan.cpp + 4).toNat + 4 * args.length :=
      storeArgs_returns proper writable (by omega) (by omega) (Nat.le_of_eq limit)
    have next : (cpp + 4).toNat = cpp.toNat + 4 := pointer_succ (by omega)
    obtain ⟨m₄, argvEnd⟩ := word m₃ 0 cpp.toNat (by omega) (by omega)
    obtain ⟨m₅, envpEnd⟩ := word m₄ 0 (cpp + 4).toNat (by omega) (by omega)
    refine ⟨m₅, ?_⟩
    simp only [buildStack, bind_eq_ok]
    exact ⟨m₁, cleared, m₂, argc, (cpp, m₃), arguments, m₄, argvEnd, envpEnd⟩

/-! ### The image -/

/-- The writes of the load stay in the table and on the pages that it maps: those of text and data
on all of them, those of the zeros and of the stack on the pages that do not become text. -/
structure ImageFits (li : LoadInfo) (plan : LoadPlan) (args : List (List Byte)) : Prop where
  indices : ∀ index ∈ plan.indices, 0 ≤ index ∧ index < maxPtLen
  text : RangeOn plan.Covers li.tVaddr.toNat (segmentSize li.tNpg)
  data : RangeOn plan.Covers li.idVaddr.toNat (segmentSize li.idNpg)
  zeros : RangeOn plan.Plain li.idEnd.toNat (li.udEnd - li.idEnd).toNat
  stackFits : stackNpg args ≤ maxPtLen
  stack : RangeOn plan.Plain plan.cpp.toNat (vmem1Limit - plan.cpp.toNat)

instance {base : Int} {n vpn : Nat} : Decidable (InSegment base n vpn) :=
  inferInstanceAs (Decidable (_ ∧ _))

instance {plan : LoadPlan} : DecidablePred plan.Covers := fun _ =>
  inferInstanceAs (Decidable (_ ∨ _ ∨ _))

instance {plan : LoadPlan} : DecidablePred plan.Plain := fun _ =>
  inferInstanceAs (Decidable (_ ∧ _))

instance {li : LoadInfo} {plan : LoadPlan} {args : List (List Byte)} :
    Decidable (ImageFits li plan args) :=
  decidable_of_iff ((∀ index ∈ plan.indices, 0 ≤ index ∧ index < maxPtLen) ∧
      RangeOn plan.Covers li.tVaddr.toNat (segmentSize li.tNpg) ∧
      RangeOn plan.Covers li.idVaddr.toNat (segmentSize li.idNpg) ∧
      RangeOn plan.Plain li.idEnd.toNat (li.udEnd - li.idEnd).toNat ∧
      stackNpg args ≤ maxPtLen ∧
      RangeOn plan.Plain plan.cpp.toNat (vmem1Limit - plan.cpp.toNat))
    ⟨fun ⟨indices, text, data, zeros, fits, stack⟩ => ⟨indices, text, data, zeros, fits, stack⟩,
      fun fits => ⟨fits.indices, fits.text, fits.data, fits.zeros, fits.stackFits, fits.stack⟩⟩

section Image

variable {req : LoadRequest} {li : LoadInfo} {args : List (List Byte)} {plan : LoadPlan}
  {ptlr : Nat} {b : PCB}

/-- The pages that can be written before and after the text is made executable. -/
theorem writable_pages {m₀ m₁ : Memory} {pt₀ pt₁ : PageTable}
    (cleared : clearRegion1 (List.range maxPtLen) m pt = (m₀, pt₀))
    (mapped : loadSegments plan m₀ pt₀ = .ok (m₁, pt₁)) :
    (∀ vpn < maxPtLen, (pt₁ vpn).writable = true ↔ plan.Covers vpn) ∧
      ∀ pt₂, protectText plan.textPg1 plan.textNpg 0 pt₁ = .ok pt₂ →
        (∀ vpn < maxPtLen, (pt₂ vpn).writable = true ↔ plan.Plain vpn) := by
  have pages := loadSegments_prot (cleared_empty cleared) mapped
  constructor
  · intro vpn inside
    obtain ⟨valid, prot⟩ := pages vpn inside
    rw [← valid, Pte.writable, Bool.and_eq_true, and_iff_left_iff_imp]
    intro covered
    rw [prot (valid.mp covered)]
    rfl
  · intro pt₂ executable vpn inside
    obtain ⟨valid, prot⟩ := pages vpn inside
    obtain ⟨isText, others⟩ := protectText_prot executable vpn
    rw [Nat.cast_zero, add_zero] at isText others
    rw [LoadPlan.Plain, ← valid, ← (protectText_eq_ok executable vpn).1, Pte.writable,
      Bool.and_eq_true, and_congr_right_iff]
    intro covered
    by_cases inText : InSegment plan.textPg1 plan.textNpg vpn
    · rw [isText inText]
      exact iff_of_false (by decide) (not_not_intro inText)
    · rw [others inText, prot (valid.mp ((protectText_eq_ok executable vpn).1 ▸ covered))]
      exact iff_of_true rfl inText

/-- A load whose reads deliver succeeds exactly when its writes find their pages. -/
theorem loadImage_succeeds_iff (accepted : loadPlan li args ptlr = some plan)
    (proper : ∀ arg ∈ args, 0 ∉ arg) (sized : argSize args = argBytes args)
    (text : Delivers req.text (segmentSize li.tNpg))
    (data : Delivers req.data (segmentSize li.idNpg)) :
    (∃ m' b', Kernel.loadImage req li plan (saveArgs args) m b = .ok (.success, m', b')) ↔
      ImageFits li plan args := by
  obtain ⟨-, -, layout⟩ := loadPlan_eq_some.mp accepted
  have strings : plan.cp = stringsStart args := by rw [layout]
  have start : plan.cpp = stackStart args := by rw [layout]
  constructor
  · rintro ⟨m', b', loaded⟩
    obtain ⟨m₀, pt₀, m₁, pt₁, m₂, m₃, pt₂, m₄, cleared, mapped, textRead, dataRead, executable,
      zeroed, built, -⟩ := loadImage_eq_success.mp loaded
    obtain ⟨before, after⟩ := writable_pages cleared mapped
    have after := after pt₂ executable
    obtain ⟨room, top⟩ := (buildStack_returns proper sized strings start).mp ⟨m', built⟩
    constructor
    case indices => exact loadSegments_returns.mp ⟨_, mapped⟩
    case text => exact (RangeOn.congr before).mp ((readInto_returns text).mp ⟨m₂, textRead⟩)
    case data => exact (RangeOn.congr before).mp ((readInto_returns data).mp ⟨m₃, dataRead⟩)
    case zeros => exact (RangeOn.congr after).mp ((storeFun_returns ..).mp ⟨m₄, zeroed⟩)
    case stackFits => exact room
    case stack => exact (RangeOn.congr after).mp top
  · intro fits
    rcases cleared : clearRegion1 (List.range maxPtLen) m b.ptbr with ⟨m₀, pt₀⟩
    obtain ⟨⟨m₁, pt₁⟩, mapped⟩ : ∃ table, loadSegments plan m₀ pt₀ = .ok table :=
      loadSegments_returns.mpr fits.indices
    have inText : ∀ index ∈ segment (plan.textPg1 + (0 : Nat)) plan.textNpg,
        0 ≤ index ∧ index < maxPtLen := by
      rw [Nat.cast_zero, add_zero]
      intro index member
      exact fits.indices index (List.mem_append_left _ (List.mem_append_left _ member))
    obtain ⟨pt₂, executable⟩ := protectText_returns pt₁ inText
    obtain ⟨before, after⟩ := writable_pages cleared mapped
    have after := after pt₂ executable
    obtain ⟨m₂, textRead⟩ :=
      (readInto_returns (m := m₁) text).mpr ((RangeOn.congr before).mpr fits.text)
    obtain ⟨m₃, dataRead⟩ :=
      (readInto_returns (m := m₂) data).mpr ((RangeOn.congr before).mpr fits.data)
    obtain ⟨m₄, zeroed⟩ := (storeFun_returns m₃ fun _ => 0).mpr
      ((RangeOn.congr after).mpr fits.zeros)
    obtain ⟨m', built⟩ := (buildStack_returns (m := m₄) proper sized strings start).mpr
      ⟨fits.stackFits, (RangeOn.congr after).mpr fits.stack⟩
    exact ⟨m', _, loadImage_eq_success.mpr ⟨m₀, pt₀, m₁, pt₁, m₂, m₃, pt₂, m₄, cleared, mapped,
      textRead, dataRead, executable, zeroed, built, rfl⟩⟩

end Image

/-! ### Frames -/

/-- With frames for all pages the loop gives each page one that no other has. -/
theorem loadSegment_distinct (enough : n ≤ m.freeFrames.card)
    (h : loadSegment base n i m pt = .ok (m', pt')) (backed : Backed m pt)
    (distinct : pt.DistinctFrames) :
    pt'.DistinctFrames := by
  induction n generalizing i m pt with
  | zero =>
      cases h
      exact distinct
  | succ n inductionHypothesis =>
      obtain ⟨mapped, -, -, ⟨pfn, free, h⟩ | ⟨exhausted, -⟩⟩ := loadSegment_succ h
      · have left : (m.takeFrame pfn .user).freeFrames.card = m.freeFrames.card - 1 := by
          rw [freeFrames_takeFrame (by decide), Finset.card_erase_of_mem free]
        obtain ⟨inRange, unused⟩ := mem_freeFrames.mp free
        -- the frame is free, so no page has it yet
        have fresh (vpn : Nat) (inside : vpn < maxPtLen) (valid : (pt vpn).valid = true) :
            (pt vpn).pfn ≠ pfn := by
          intro same
          have used := (backed vpn inside valid).2
          rw [same, unused] at used
          cases used
        apply inductionHypothesis (by omega) h (backed.take inRange)
        intro u insideU v insideV validU validV same
        by_cases atU : u = mapped
        · by_cases atV : v = mapped
          · rw [atU, atV]
          · rw [atU, Function.update_self, Function.update_of_ne atV] at same
            rw [Function.update_of_ne atV] at validV
            exact absurd same.symm (fresh v insideV validV)
        · rw [Function.update_of_ne atU] at validU same
          by_cases atV : v = mapped
          · rw [atV, Function.update_self] at same
            exact absurd same (fresh u insideU validU)
          · rw [Function.update_of_ne atV] at validV same
            exact distinct u insideU v insideV validU validV same
      · rw [exhausted, Finset.card_empty] at enough
        exact absurd enough (Nat.not_succ_le_zero n)

theorem loadSegments_distinct {plan : LoadPlan} (enough : plan.pages ≤ m.freeFrames.card)
    (h : loadSegments plan m pt = .ok (m', pt')) (backed : Backed m pt)
    (distinct : pt.DistinctFrames) : pt'.DistinctFrames := by
  simp only [loadSegments, bind_eq_ok] at h
  obtain ⟨⟨m₁, pt₁⟩, text, ⟨m₂, pt₂⟩, data, stack⟩ := h
  simp only at data stack
  simp only [LoadPlan.pages] at enough
  obtain ⟨backed₁, left₁⟩ := loadSegment_backed (by omega) text backed
  obtain ⟨backed₂, left₂⟩ := loadSegment_backed (by omega) data backed₁
  have distinct₁ := loadSegment_distinct (by omega) text backed distinct
  have distinct₂ := loadSegment_distinct (by omega) data backed₁ distinct₁
  exact loadSegment_distinct (by omega) stack backed₂ distinct₂

end Yalnix
