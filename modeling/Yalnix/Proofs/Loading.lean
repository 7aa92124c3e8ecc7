/-
Module: Yalnix.Proofs.Loading
Purpose: What each loop of LoadProgram does to the frames and to the region 1 table, and when the
  pages of the new image all get a frame.
Trusted boundary: none
Main exports: Memory.WritesOnly, Backed, Unbacked, clearRegion1_frees, loadSegments_backed,
  loadSegments_unbacked, loadImage_eq_ok
-/
import Yalnix.Loader
import Yalnix.Proofs.Effects
import Yalnix.Proofs.Frames

namespace Yalnix

open Memory

variable {m m' : Memory} {pt pt' : PageTable} {base : Int} {n i : Nat}

/-! ### Writing to user memory -/

/-- Nothing but the contents of frames changes. -/
def Memory.WritesOnly (m m' : Memory) : Prop := ∃ phys, m' = { m with phys := phys }

namespace Memory.WritesOnly

theorem refl (m : Memory) : WritesOnly m m := ⟨m.phys, rfl⟩

theorem trans {m₁ m₂ m₃ : Memory} (first : WritesOnly m₁ m₂) (second : WritesOnly m₂ m₃) :
    WritesOnly m₁ m₃ := by
  obtain ⟨phys, rfl⟩ := first
  obtain ⟨phys', rfl⟩ := second
  exact ⟨phys', rfl⟩

theorem nframes (h : WritesOnly m m') : m'.nframes = m.nframes := by
  obtain ⟨phys, rfl⟩ := h
  rfl

theorem frameTable (h : WritesOnly m m') : m'.frameTable = m.frameTable := by
  obtain ⟨phys, rfl⟩ := h
  rfl

theorem ptRegion0 (h : WritesOnly m m') : m'.ptRegion0 = m.ptRegion0 := by
  obtain ⟨phys, rfl⟩ := h
  rfl

theorem storeFun {va : Nat} {bytes : Nat → Byte} (h : m.storeFun pt va n bytes = .ok m') :
    WritesOnly m m' := by
  unfold Memory.storeFun at h
  split at h
  · cases h
    exact ⟨_, rfl⟩
  · cases h

theorem storeRange {va : Nat} {bytes : List Byte} (h : m.storeRange pt va bytes = .ok m') :
    WritesOnly m m' := storeFun h

theorem storeArgs {n : Nat} {cp2 : List Byte} {cpp cp cpp' : Word}
    (h : storeArgs pt n cp2 cpp cp m = .ok (cpp', m')) : WritesOnly m m' := by
  induction n generalizing cp2 cpp cp m with
  | zero =>
      cases h
      exact refl _
  | succ n inductionHypothesis =>
      simp only [Yalnix.storeArgs, bind_eq_ok] at h
      obtain ⟨m₁, pointer, m₂, string, h⟩ := h
      exact ((storeRange pointer).trans (storeRange string)).trans (inductionHypothesis h)

theorem buildStack {plan : LoadPlan} {argbuf : ArgBuf}
    (h : buildStack plan argbuf pt m = .ok m') : WritesOnly m m' := by
  simp only [Yalnix.buildStack, bind_eq_ok] at h
  obtain ⟨m₁, cleared, m₂, argc, ⟨cpp, m₃⟩, arguments, m₄, argv, envp⟩ := h
  have first := (storeFun cleared).trans (storeRange argc)
  exact ((first.trans (storeArgs arguments)).trans (storeRange argv)).trans (storeRange envp)

end Memory.WritesOnly

/-- The read delivers the whole segment. -/
def Delivers (answer : ReadAnswer) (size : Nat) : Prop := ∃ bytes, answer = some (size, bytes)

theorem readInto_eq_ok {va : Word} {size : Nat} {answer : ReadAnswer} {complete : Bool}
    (h : readInto m pt va size answer = .ok (complete, m')) :
    (complete = true ↔ Delivers answer size) ∧ WritesOnly m m' := by
  rcases answer with _ | ⟨count, bytes⟩
  · cases h
    simp [Delivers, WritesOnly.refl]
  · simp only [readInto, bind_eq_ok, pure_eq_ok, Prod.mk.injEq] at h
    obtain ⟨m₁, stored, rfl, rfl⟩ := h
    refine ⟨?_, .storeFun stored⟩
    simp [Delivers]

/-- No two valid entries name one frame. -/
def PageTable.DistinctFrames (pt : PageTable) : Prop :=
  ∀ u < maxPtLen, ∀ v < maxPtLen, (pt u).valid = true → (pt v).valid = true →
    (pt u).pfn = (pt v).pfn → u = v

/-- How many pages of the table are mapped. -/
def PageTable.mappedPages (pt : PageTable) : Nat :=
  (List.range maxPtLen).countP fun vpn => (pt vpn).valid

/-! ### Throwing away the old region 1 -/

/-- The frames that are free or that a valid entry of the table names. -/
def Memory.reclaimable (m : Memory) (pt : PageTable) : Finset Nat :=
  (Finset.range m.nframes).filter fun pfn =>
    m.frameTable pfn = .free ∨ ∃ vpn < maxPtLen, (pt vpn).valid = true ∧ (pt vpn).pfn = pfn

theorem invalidate_valid {vpn other : Nat} :
    (pt.invalidate vpn other).valid = true ↔ (pt other).valid = true ∧ other ≠ vpn := by
  by_cases same : other = vpn
  · subst same
    simp [PageTable.invalidate]
  · simp [PageTable.invalidate, same]

theorem invalidate_pfn {vpn other : Nat} : (pt.invalidate vpn other).pfn = (pt other).pfn := by
  by_cases same : other = vpn
  · subst same
    simp [PageTable.invalidate]
  · simp [PageTable.invalidate, same]

/-- After the loop the visited entries are invalid, and the frames they named are free. -/
theorem clearRegion1_eq {entries : List Nat} (h : clearRegion1 entries m pt = (m', pt')) :
    m'.nframes = m.nframes ∧
      (∀ vpn, (pt' vpn).valid = true ↔ (pt vpn).valid = true ∧ vpn ∉ entries) ∧
      ∀ pfn, pfn ∈ m'.freeFrames ↔ pfn ∈ m.freeFrames ∨
        pfn < m.nframes ∧ ∃ vpn ∈ entries, (pt vpn).valid = true ∧ (pt vpn).pfn = pfn := by
  induction entries generalizing m pt with
  | nil =>
      cases h
      simp
  | cons vpn rest inductionHypothesis =>
      unfold clearRegion1 at h
      by_cases valid : (pt vpn).valid = true
      · rw [if_pos valid] at h
        obtain ⟨nframes, invalid, free⟩ := inductionHypothesis h
        rw [freeFrame_nframes] at nframes
        refine ⟨nframes, ?_, ?_⟩
        · intro other
          rw [invalid, invalidate_valid, List.mem_cons, not_or, and_assoc]
        · intro pfn
          rw [free, mem_freeFrames_freeFrame, freeFrame_nframes]
          simp only [invalidate_valid, invalidate_pfn, List.mem_cons]
          constructor
          · rintro ((unused | ⟨rfl, inRange⟩) | ⟨inRange, other, member, ⟨mapped, -⟩, names⟩)
            · exact Or.inl unused
            · exact Or.inr ⟨inRange, vpn, Or.inl rfl, valid, rfl⟩
            · exact Or.inr ⟨inRange, other, Or.inr member, mapped, names⟩
          · rintro (unused | ⟨inRange, other, rfl | member, mapped, rfl⟩)
            · exact Or.inl (Or.inl unused)
            · exact Or.inl (Or.inr ⟨rfl, inRange⟩)
            · by_cases same : other = vpn
              · subst same
                exact Or.inl (Or.inr ⟨rfl, inRange⟩)
              · exact Or.inr ⟨inRange, other, member, ⟨mapped, same⟩, rfl⟩
      · rw [if_neg valid] at h
        obtain ⟨nframes, invalid, free⟩ := inductionHypothesis h
        refine ⟨nframes, ?_, ?_⟩
        · intro other
          rw [invalid, List.mem_cons, not_or]
          constructor
          · rintro ⟨mapped, absent⟩
            refine ⟨mapped, ?_, absent⟩
            rintro rfl
            exact valid mapped
          · rintro ⟨mapped, -, absent⟩
            exact ⟨mapped, absent⟩
        · intro pfn
          rw [free]
          simp only [List.mem_cons, exists_eq_or_imp, valid, Bool.false_eq_true, false_and,
            false_or]

/-- The frames left free are those that were free or belonged to the old image. -/
theorem clearRegion1_frees (h : clearRegion1 (List.range maxPtLen) m pt = (m', pt')) :
    m'.freeFrames = m.reclaimable pt := by
  obtain ⟨-, -, free⟩ := clearRegion1_eq h
  ext pfn
  rw [free, mem_freeFrames]
  simp only [reclaimable, Finset.mem_filter, Finset.mem_range, List.mem_range]
  constructor
  · rintro (⟨inRange, unused⟩ | ⟨inRange, named⟩)
    · exact ⟨inRange, Or.inl unused⟩
    · exact ⟨inRange, Or.inr named⟩
  · rintro ⟨inRange, unused | named⟩
    · exact Or.inl ⟨inRange, unused⟩
    · exact Or.inr ⟨inRange, named⟩

/-! ### Mapping the new segments -/

/-- Every valid entry names a frame that exists and is marked as a user frame. -/
def Backed (m : Memory) (pt : PageTable) : Prop :=
  ∀ vpn < maxPtLen, (pt vpn).valid = true →
    (pt vpn).pfn < m.nframes ∧ m.frameTable (pt vpn).pfn = .user

/-- Some valid entry names what is left of the -1 that `allocFrame` returned. -/
def Unbacked (pt : PageTable) : Prop :=
  ∃ vpn < maxPtLen, (pt vpn).valid = true ∧ (pt vpn).pfn = storedPfn none

theorem Unbacked.not_backed (missing : Unbacked pt) (machine : m.nframes ≤ maxFrames) :
    ¬ Backed m pt := by
  obtain ⟨vpn, inside, valid, pfn⟩ := missing
  intro backed
  have exists_frame := (backed vpn inside valid).1
  rw [pfn] at exists_frame
  exact absurd (Nat.lt_of_lt_of_le exists_frame machine) (by decide)

/-- Being backed depends on the valid entries and on the frame table. -/
theorem Backed.congr (backed : Backed m pt) (frames : m'.nframes = m.nframes)
    (table : m'.frameTable = m.frameTable)
    (same : ∀ vpn, (pt' vpn).valid = (pt vpn).valid ∧ (pt' vpn).pfn = (pt vpn).pfn) :
    Backed m' pt' := by
  intro vpn inside valid
  rw [(same vpn).1] at valid
  rw [(same vpn).2, frames, table]
  exact backed vpn inside valid

theorem Unbacked.congr (missing : Unbacked pt)
    (same : ∀ vpn, (pt' vpn).valid = (pt vpn).valid ∧ (pt' vpn).pfn = (pt vpn).pfn) :
    Unbacked pt' := by
  obtain ⟨vpn, inside, valid, pfn⟩ := missing
  exact ⟨vpn, inside, (same vpn).1.trans valid, (same vpn).2.trans pfn⟩

theorem Backed.take (backed : Backed m pt) {pfn vpn prot : Nat} (inRange : pfn < m.nframes) :
    Backed (m.takeFrame pfn .user) (Function.update pt vpn ⟨true, prot, pfn⟩) := by
  intro other inside valid
  by_cases same : other = vpn
  · subst same
    simp [inRange]
  · rw [Function.update_of_ne same] at valid ⊢
    obtain ⟨existing, used⟩ := backed other inside valid
    refine ⟨existing, ?_⟩
    by_cases frame : (pt other).pfn = pfn
    · simp [frame]
    · simp [frame, used]

/-- One round of the loop that maps a segment. -/
theorem loadSegment_succ (h : loadSegment base (n + 1) i m pt = .ok (m', pt')) :
    ∃ vpn < maxPtLen, base + i = vpn ∧
      ((∃ pfn ∈ m.freeFrames, loadSegment base n (i + 1) (m.takeFrame pfn .user)
          (Function.update pt vpn ⟨true, protReadWrite, pfn⟩) = .ok (m', pt')) ∨
        m.freeFrames = ∅ ∧ loadSegment base n (i + 1) m
          (Function.update pt vpn ⟨true, protReadWrite, storedPfn none⟩) = .ok (m', pt')) := by
  simp only [loadSegment, bind_eq_ok] at h
  obtain ⟨vpn, index, h⟩ := h
  obtain ⟨position, inside⟩ := tableIndex_eq_ok index
  refine ⟨vpn, inside, position, ?_⟩
  rcases allocated : m.allocFrame .user with _ | ⟨pfn, m₁⟩
  · simp only [allocated] at h
    exact Or.inr ⟨allocFrame_eq_none.mp allocated, h⟩
  · simp only [allocated] at h
    obtain ⟨free, rfl⟩ := allocFrame_eq_some allocated
    exact Or.inl ⟨pfn, free, h⟩

theorem loadSegment_nframes (h : loadSegment base n i m pt = .ok (m', pt')) :
    m'.nframes = m.nframes := by
  induction n generalizing i m pt with
  | zero =>
      cases h
      rfl
  | succ n inductionHypothesis =>
      obtain ⟨vpn, -, -, ⟨pfn, -, h⟩ | ⟨-, h⟩⟩ := loadSegment_succ h
      · exact (inductionHypothesis h).trans (takeFrame_nframes ..)
      · exact inductionHypothesis h

/-- With enough free frames every page of the segment gets one. -/
theorem loadSegment_backed (enough : n ≤ m.freeFrames.card)
    (h : loadSegment base n i m pt = .ok (m', pt')) (backed : Backed m pt) :
    Backed m' pt' ∧ m'.freeFrames.card = m.freeFrames.card - n := by
  induction n generalizing i m pt with
  | zero =>
      cases h
      exact ⟨backed, rfl⟩
  | succ n inductionHypothesis =>
      obtain ⟨vpn, -, -, ⟨pfn, free, h⟩ | ⟨exhausted, -⟩⟩ := loadSegment_succ h
      · have left : (m.takeFrame pfn .user).freeFrames.card = m.freeFrames.card - 1 := by
          rw [freeFrames_takeFrame (by decide), Finset.card_erase_of_mem free]
        have inRange := (mem_freeFrames.mp free).1
        obtain ⟨mapped, count⟩ := inductionHypothesis (by omega) h (backed.take inRange)
        exact ⟨mapped, by omega⟩
      · rw [exhausted, Finset.card_empty] at enough
        exact absurd enough (Nat.not_succ_le_zero n)

/-- Once the frames are used up they stay so, and so does an entry without a frame. -/
theorem loadSegment_exhausted (exhausted : m.freeFrames = ∅)
    (h : loadSegment base n i m pt = .ok (m', pt')) :
    m'.freeFrames = ∅ ∧ (Unbacked pt ∨ 0 < n → Unbacked pt') := by
  induction n generalizing i m pt with
  | zero =>
      cases h
      exact ⟨exhausted, fun missing => missing.resolve_right (Nat.lt_irrefl 0)⟩
  | succ n inductionHypothesis =>
      obtain ⟨vpn, inside, -, ⟨pfn, free, -⟩ | ⟨-, h⟩⟩ := loadSegment_succ h
      · rw [exhausted] at free
        exact absurd free (Finset.notMem_empty pfn)
      · obtain ⟨still, missing⟩ := inductionHypothesis exhausted h
        refine ⟨still, fun _ => missing (Or.inl ⟨vpn, inside, ?_, ?_⟩)⟩
        · rw [Function.update_self]
        · rw [Function.update_self]

/-- With too few free frames some page of the segment gets none. -/
theorem loadSegment_unbacked (scarce : m.freeFrames.card < n)
    (h : loadSegment base n i m pt = .ok (m', pt')) : m'.freeFrames = ∅ ∧ Unbacked pt' := by
  induction n generalizing i m pt with
  | zero => exact absurd scarce (Nat.not_lt_zero _)
  | succ n inductionHypothesis =>
      rcases Finset.eq_empty_or_nonempty m.freeFrames with exhausted | ⟨frame, some⟩
      · obtain ⟨still, missing⟩ := loadSegment_exhausted exhausted h
        exact ⟨still, missing (Or.inr (Nat.succ_pos n))⟩
      · obtain ⟨vpn, -, -, ⟨pfn, free, h⟩ | ⟨exhausted, -⟩⟩ := loadSegment_succ h
        · have left : (m.takeFrame pfn .user).freeFrames.card = m.freeFrames.card - 1 := by
            rw [freeFrames_takeFrame (by decide), Finset.card_erase_of_mem free]
          have positive := Finset.card_pos.mpr ⟨frame, some⟩
          exact inductionHypothesis (by omega) h
        · rw [exhausted] at some
          exact absurd some (Finset.notMem_empty frame)

/-- The pages that the three loops map, as often as they map them. -/
def LoadPlan.pages (plan : LoadPlan) : Nat :=
  plan.textNpg + plan.dataNpg.toNat + plan.stackNpg.toNat

theorem loadSegments_nframes {plan : LoadPlan} (h : loadSegments plan m pt = .ok (m', pt')) :
    m'.nframes = m.nframes := by
  simp only [loadSegments, bind_eq_ok] at h
  obtain ⟨⟨m₁, pt₁⟩, text, ⟨m₂, pt₂⟩, data, stack⟩ := h
  simp only at data stack
  rw [loadSegment_nframes stack, loadSegment_nframes data, loadSegment_nframes text]

/-- With enough free frames the whole image is backed. -/
theorem loadSegments_backed {plan : LoadPlan} (enough : plan.pages ≤ m.freeFrames.card)
    (h : loadSegments plan m pt = .ok (m', pt')) (backed : Backed m pt) : Backed m' pt' := by
  simp only [loadSegments, bind_eq_ok] at h
  obtain ⟨⟨m₁, pt₁⟩, text, ⟨m₂, pt₂⟩, data, stack⟩ := h
  simp only at data stack
  simp only [LoadPlan.pages] at enough
  obtain ⟨backed₁, left₁⟩ := loadSegment_backed (by omega) text backed
  obtain ⟨backed₂, left₂⟩ := loadSegment_backed (by omega) data backed₁
  exact (loadSegment_backed (by omega) stack backed₂).1

/-- With too few free frames some page of the image has none. -/
theorem loadSegments_unbacked {plan : LoadPlan} (scarce : m.freeFrames.card < plan.pages)
    (h : loadSegments plan m pt = .ok (m', pt')) (backed : Backed m pt) : Unbacked pt' := by
  simp only [loadSegments, bind_eq_ok] at h
  obtain ⟨⟨m₁, pt₁⟩, text, ⟨m₂, pt₂⟩, data, stack⟩ := h
  simp only at data stack
  simp only [LoadPlan.pages] at scarce
  rcases Nat.lt_or_ge m.freeFrames.card plan.textNpg with short | enough
  · obtain ⟨exhausted, missing⟩ := loadSegment_unbacked short text
    obtain ⟨exhausted₂, missing₂⟩ := loadSegment_exhausted exhausted data
    exact (loadSegment_exhausted exhausted₂ stack).2 (Or.inl (missing₂ (Or.inl missing)))
  · obtain ⟨backed₁, left₁⟩ := loadSegment_backed enough text backed
    rcases Nat.lt_or_ge m₁.freeFrames.card plan.dataNpg.toNat with short | enough₁
    · obtain ⟨exhausted, missing⟩ := loadSegment_unbacked short data
      exact (loadSegment_exhausted exhausted stack).2 (Or.inl missing)
    · obtain ⟨backed₂, left₂⟩ := loadSegment_backed enough₁ data backed₁
      exact (loadSegment_unbacked (by omega) stack).2

/-! ### The pages of the new image -/

/-- The page is one of the `n` pages from `base` on. -/
def InSegment (base : Int) (n vpn : Nat) : Prop := base ≤ vpn ∧ vpn < base + n

/-- The page belongs to the text, the data or the stack of the new image. -/
def LoadPlan.Covers (plan : LoadPlan) (vpn : Nat) : Prop :=
  InSegment plan.textPg1 plan.textNpg vpn ∨ InSegment plan.dataPg1 plan.dataNpg.toNat vpn ∨
    InSegment plan.stackBase plan.stackNpg.toNat vpn

theorem inSegment_zero {vpn : Nat} : ¬ InSegment base 0 vpn := by
  rintro ⟨low, high⟩
  omega

theorem inSegment_succ {vpn other : Nat} (position : base = vpn) :
    InSegment base (n + 1) other ↔ other = vpn ∨ InSegment (base + 1) n other := by
  unfold InSegment
  omega

/-- The loop makes the pages of its segment valid and no others. -/
theorem loadSegment_valid (h : loadSegment base n i m pt = .ok (m', pt')) (vpn : Nat) :
    (pt' vpn).valid = true ↔ (pt vpn).valid = true ∨ InSegment (base + i) n vpn := by
  induction n generalizing i m pt with
  | zero =>
      cases h
      exact (or_iff_left inSegment_zero).symm
  | succ n inductionHypothesis =>
      obtain ⟨mapped, -, position, h⟩ := loadSegment_succ h
      have set : ∀ pfn, ((Function.update pt mapped ⟨true, protReadWrite, pfn⟩) vpn).valid = true ↔
          (pt vpn).valid = true ∨ vpn = mapped := by
        intro pfn
        by_cases same : vpn = mapped
        · simp [same]
        · simp [same]
      have next : base + (i : Int) + 1 = base + ((i + 1 : Nat) : Int) := by omega
      rw [inSegment_succ position, next, ← or_assoc]
      rcases h with ⟨pfn, -, h⟩ | ⟨-, h⟩
      · rw [inductionHypothesis h, set]
      · rw [inductionHypothesis h, set]

theorem loadSegments_valid {plan : LoadPlan} (h : loadSegments plan m pt = .ok (m', pt'))
    (vpn : Nat) : (pt' vpn).valid = true ↔ (pt vpn).valid = true ∨ plan.Covers vpn := by
  simp only [loadSegments, bind_eq_ok] at h
  obtain ⟨⟨m₁, pt₁⟩, text, ⟨m₂, pt₂⟩, data, stack⟩ := h
  simp only at data stack
  rw [loadSegment_valid stack, loadSegment_valid data, loadSegment_valid text]
  simp only [LoadPlan.Covers, Nat.cast_zero, add_zero]
  tauto

theorem protectText_eq_ok (h : protectText base n i pt = .ok pt') (vpn : Nat) :
    (pt' vpn).valid = (pt vpn).valid ∧ (pt' vpn).pfn = (pt vpn).pfn := by
  induction n generalizing i pt with
  | zero =>
      cases h
      exact ⟨rfl, rfl⟩
  | succ n inductionHypothesis =>
      simp only [protectText, bind_eq_ok] at h
      obtain ⟨page, -, h⟩ := h
      have kept := inductionHypothesis h
      by_cases same : vpn = page
      · subst same
        simpa using kept
      · simpa [same] using kept

/-- The two ways `loadImage` comes back: with the whole image mapped and read, or with a short
read. -/
theorem loadImage_eq_ok {req : LoadRequest} {li : LoadInfo} {plan : LoadPlan} {argbuf : ArgBuf}
    {b b' : PCB} {status : Status}
    (h : Kernel.loadImage req li plan argbuf m b = .ok (status, m', b')) :
    ∃ m₀ pt₀ m₁ pt₁, clearRegion1 (List.range maxPtLen) m b.ptbr = (m₀, pt₀) ∧
      loadSegments plan m₀ pt₀ = .ok (m₁, pt₁) ∧ WritesOnly m₁ m' ∧
      (∀ vpn, (b'.ptbr vpn).valid = (pt₁ vpn).valid ∧ (b'.ptbr vpn).pfn = (pt₁ vpn).pfn) ∧
      ((status = .success ∧ Delivers req.text (segmentSize li.tNpg) ∧
          Delivers req.data (segmentSize li.idNpg) ∧
          b'.userContext = { b.userContext with pc := li.entry }) ∨
        status = .kill ∧ ¬ (Delivers req.text (segmentSize li.tNpg) ∧
          Delivers req.data (segmentSize li.idNpg))) := by
  rcases cleared : clearRegion1 (List.range maxPtLen) m b.ptbr with ⟨m₀, pt₀⟩
  simp only [Kernel.loadImage, cleared, bind_eq_ok] at h
  obtain ⟨⟨m₁, pt₁⟩, mapped, ⟨textOk, m₂⟩, text, h⟩ := h
  obtain ⟨textWhole, wrote⟩ := readInto_eq_ok text
  refine ⟨m₀, pt₀, m₁, pt₁, rfl, mapped, ?_⟩
  rcases textOk with _ | _
  · cases h
    refine ⟨wrote, fun vpn => ⟨rfl, rfl⟩, Or.inr ⟨rfl, fun whole => ?_⟩⟩
    exact absurd (textWhole.mpr whole.1) Bool.false_ne_true
  · simp only [Bool.not_true, Bool.false_eq_true, if_false, bind_eq_ok] at h
    obtain ⟨⟨dataOk, m₃⟩, data, h⟩ := h
    obtain ⟨dataWhole, wrote₃⟩ := readInto_eq_ok data
    rcases dataOk with _ | _
    · cases h
      refine ⟨wrote.trans wrote₃, fun vpn => ⟨rfl, rfl⟩, Or.inr ⟨rfl, fun whole => ?_⟩⟩
      exact absurd (dataWhole.mpr whole.2) Bool.false_ne_true
    · simp only [Bool.not_true, Bool.false_eq_true, if_false, bind_eq_ok] at h
      obtain ⟨pt₂, executable, m₄, zeroed, m₅, built, h⟩ := h
      cases h
      have all := ((wrote.trans wrote₃).trans (.storeFun zeroed)).trans (.buildStack built)
      exact ⟨all, protectText_eq_ok executable,
        Or.inl ⟨rfl, textWhole.mp rfl, dataWhole.mp rfl, rfl⟩⟩

/-- The PCB after a load: the new table, the entry, and the bounds of heap and stack. -/
def loadedPcb (b : PCB) (li : LoadInfo) (plan : LoadPlan) (pt : PageTable) : PCB :=
  { b with
    ptbr := pt
    userContext := { b.userContext with pc := li.entry }
    userHeapStartVaddr := BitVec.ofInt 32 (plan.dataPg1 * pageSize + vmem1Base)
    userHeapEndVaddr := BitVec.ofInt 32 (plan.dataPg1 * pageSize + vmem1Base)
    userStackBaseVaddr := BitVec.ofInt 32 (plan.stackBase * pageSize + vmem1Base) }

/-- A load succeeds when it goes through every stage. -/
theorem loadImage_eq_success {req : LoadRequest} {li : LoadInfo} {plan : LoadPlan}
    {argbuf : ArgBuf} {b b' : PCB} :
    Kernel.loadImage req li plan argbuf m b = .ok (.success, m', b') ↔
      ∃ m₀ pt₀ m₁ pt₁ m₂ m₃ pt₂ m₄, clearRegion1 (List.range maxPtLen) m b.ptbr = (m₀, pt₀) ∧
        loadSegments plan m₀ pt₀ = .ok (m₁, pt₁) ∧
        readInto m₁ pt₁ li.tVaddr (segmentSize li.tNpg) req.text = .ok (true, m₂) ∧
        readInto m₂ pt₁ li.idVaddr (segmentSize li.idNpg) req.data = .ok (true, m₃) ∧
        protectText plan.textPg1 plan.textNpg 0 pt₁ = .ok pt₂ ∧
        m₃.storeFun pt₂ li.idEnd.toNat (li.udEnd - li.idEnd).toNat (fun _ => 0) = .ok m₄ ∧
        buildStack plan argbuf pt₂ m₄ = .ok m' ∧ b' = loadedPcb b li plan pt₂ := by
  rcases cleared : clearRegion1 (List.range maxPtLen) m b.ptbr with ⟨m₀, pt₀⟩
  simp only [Kernel.loadImage, cleared, bind_eq_ok]
  constructor
  · rintro ⟨⟨m₁, pt₁⟩, mapped, ⟨textOk, m₂⟩, text, h⟩
    rcases textOk with _ | _
    · cases h
    · simp only [Bool.not_true, Bool.false_eq_true, if_false, bind_eq_ok] at h
      obtain ⟨⟨dataOk, m₃⟩, data, h⟩ := h
      rcases dataOk with _ | _
      · cases h
      · simp only [Bool.not_true, Bool.false_eq_true, if_false, bind_eq_ok] at h
        obtain ⟨pt₂, executable, m₄, zeroed, m₅, built, h⟩ := h
        cases h
        exact ⟨m₀, pt₀, m₁, pt₁, m₂, m₃, pt₂, m₄, rfl, mapped, text, data, executable, zeroed,
          built, rfl⟩
  · rintro ⟨_, _, m₁, pt₁, m₂, m₃, pt₂, m₄, ⟨⟩, mapped, text, data, executable, zeroed, built, rfl⟩
    refine ⟨_, mapped, _, text, ?_⟩
    simp only [Bool.not_true, Bool.false_eq_true, if_false, bind_eq_ok]
    refine ⟨_, data, ?_⟩
    simp only [Bool.not_true, Bool.false_eq_true, if_false, bind_eq_ok]
    exact ⟨_, executable, _, zeroed, _, built, rfl⟩

end Yalnix
