/-
Module: Yalnix.Proofs.AddressSpace
Purpose: The region 1 address space that a successful LoadProgram leaves: which pages are mapped,
  with which protection, on which frames, and what became of the frames of the old one.
Trusted boundary: none
Main exports: Owned, clearRegion1_owned, Mapped, loadSegments_mapped, loadImage_success,
  BuildsExactly, Kernel.builds_exactly_iff
-/
import Yalnix.Proofs.LoadFrames

namespace Yalnix

open Memory

variable {m m₀ m' : Memory} {pt pt' : PageTable} {base : Int} {n i vpn pfn : Nat}

theorem Memory.WritesOnly.freeFrames (wrote : WritesOnly m m') : m'.freeFrames = m.freeFrames := by
  ext pfn
  rw [mem_freeFrames, mem_freeFrames, wrote.nframes, wrote.frameTable]

/-! ### Throwing away the old image -/

/-- The valid entries of a table name frames in use, each its own. -/
structure Owned (m : Memory) (pt : PageTable) : Prop where
  used : ∀ vpn < maxPtLen, (pt vpn).valid = true →
    (pt vpn).pfn < m.nframes ∧ m.frameTable (pt vpn).pfn ≠ .free
  distinct : pt.DistinctFrames

/-- `free_nframes` is the number of free frames. -/
def Memory.CounterExact (m : Memory) : Prop := m.freeNframes = m.freeFrames.card

theorem Memory.WritesOnly.counterExact (wrote : WritesOnly m m') (exactly : m.CounterExact) :
    m'.CounterExact := by
  rw [CounterExact, wrote.freeFrames]
  obtain ⟨phys, rfl⟩ := wrote
  exact exactly

/-- A frame in use that is given back is one more free frame. -/
theorem freeFrame_count (inRange : pfn < m.nframes) (used : m.frameTable pfn ≠ .free) :
    (m.freeFrame pfn).freeFrames.card = m.freeFrames.card + 1 ∧
      (m.freeFrame pfn).freeNframes = m.freeNframes + 1 := by
  have grown : (m.freeFrame pfn).freeFrames = insert pfn m.freeFrames := by
    ext other
    rw [mem_freeFrames_freeFrame, Finset.mem_insert]
    constructor
    · rintro (free | ⟨same, -⟩)
      · exact Or.inr free
      · exact Or.inl same
    · rintro (same | free)
      · exact Or.inr ⟨same, inRange⟩
      · exact Or.inl free
  have absent : pfn ∉ m.freeFrames := fun free => used (mem_freeFrames.mp free).2
  constructor
  · rw [grown, Finset.card_insert_of_notMem absent]
  · unfold freeFrame
    rw [if_pos (validPfn_natCast.mpr inRange)]

theorem freeFrame_frameTable_of_ne {other : Nat} (ne : other ≠ pfn) :
    (m.freeFrame pfn).frameTable other = m.frameTable other := by
  rw [freeFrame_frameTable]
  split
  · exact Function.update_of_ne ne ..
  · rfl

/-- Over entries that own their frames the loop frees one frame for each valid entry, and no frame
but theirs. -/
theorem clearRegion1_count {entries : List Nat} (nodup : entries.Nodup)
    (used : ∀ vpn ∈ entries, (pt vpn).valid = true →
      (pt vpn).pfn < m.nframes ∧ m.frameTable (pt vpn).pfn ≠ .free)
    (distinct : ∀ u ∈ entries, ∀ v ∈ entries, (pt u).valid = true → (pt v).valid = true →
      (pt u).pfn = (pt v).pfn → u = v)
    (h : clearRegion1 entries m pt = (m', pt')) :
    m'.freeFrames.card = m.freeFrames.card + (entries.countP fun vpn => (pt vpn).valid) ∧
      m'.freeNframes = m.freeNframes + (entries.countP fun vpn => (pt vpn).valid) ∧
      ∀ pfn, (∀ vpn ∈ entries, (pt vpn).valid = true → (pt vpn).pfn ≠ pfn) →
        m'.frameTable pfn = m.frameTable pfn := by
  induction entries generalizing m pt with
  | nil =>
      cases h
      simp
  | cons vpn rest inductionHypothesis =>
      obtain ⟨fresh, nodup⟩ := List.nodup_cons.mp nodup
      unfold clearRegion1 at h
      rw [List.countP_cons]
      by_cases valid : (pt vpn).valid = true
      · rw [if_pos valid] at h ⊢
        obtain ⟨inRange, inUse⟩ := used vpn List.mem_cons_self valid
        obtain ⟨card, counter⟩ := freeFrame_count inRange inUse
        have kept : ∀ other ∈ rest, pt.invalidate vpn other = pt other := by
          intro other member
          have ne : other ≠ vpn := by
            rintro rfl
            exact fresh member
          exact Function.update_of_ne ne ..
        have elsewhere : ∀ other ∈ rest, (pt other).valid = true →
            (pt other).pfn ≠ (pt vpn).pfn := by
          intro other member mapped same
          have equal := distinct other (List.mem_cons_of_mem _ member) vpn List.mem_cons_self
            mapped valid same
          rw [equal] at member
          exact fresh member
        have count : (rest.countP fun other => (pt.invalidate vpn other).valid) =
            rest.countP fun other => (pt other).valid := by
          apply List.countP_congr
          intro other member
          rw [kept other member]
        have after := inductionHypothesis nodup ?_ ?_ h
        · rw [count, card, counter] at after
          obtain ⟨card', counter', others⟩ := after
          refine ⟨by omega, by push_cast; omega, ?_⟩
          intro pfn notNamed
          rw [others pfn]
          · exact freeFrame_frameTable_of_ne (notNamed vpn List.mem_cons_self valid).symm
          · intro other member mapped
            rw [kept other member] at mapped ⊢
            exact notNamed other (List.mem_cons_of_mem _ member) mapped
        · intro other member mapped
          rw [kept other member] at mapped ⊢
          rw [freeFrame_nframes, freeFrame_frameTable_of_ne (elsewhere other member mapped)]
          exact used other (List.mem_cons_of_mem _ member) mapped
        · intro u memberU v memberV
          rw [kept u memberU, kept v memberV]
          exact distinct u (List.mem_cons_of_mem _ memberU) v (List.mem_cons_of_mem _ memberV)
      · rw [if_neg valid] at h ⊢
        obtain ⟨card, counter, others⟩ := inductionHypothesis nodup
          (fun other member => used other (List.mem_cons_of_mem _ member))
          (fun u memberU v memberV =>
            distinct u (List.mem_cons_of_mem _ memberU) v (List.mem_cons_of_mem _ memberV)) h
        refine ⟨card, counter, ?_⟩
        intro pfn notNamed
        exact others pfn fun other member => notNamed other (List.mem_cons_of_mem _ member)

/-- The whole table. -/
theorem clearRegion1_owned (owned : Owned m pt)
    (h : clearRegion1 (List.range maxPtLen) m pt = (m', pt')) :
    m'.freeFrames.card = m.freeFrames.card + pt.mappedPages ∧
      (m.CounterExact → m'.CounterExact) ∧
      ∀ pfn, pfn ∉ m.reclaimable pt → m'.frameTable pfn = m.frameTable pfn := by
  obtain ⟨card, counter, others⟩ := clearRegion1_count List.nodup_range
    (fun vpn member => owned.used vpn (List.mem_range.mp member))
    (fun u memberU v memberV =>
      owned.distinct u (List.mem_range.mp memberU) v (List.mem_range.mp memberV)) h
  refine ⟨card, ?_, ?_⟩
  · intro exactly
    rw [Memory.CounterExact] at exactly ⊢
    rw [counter, card, exactly]
    push_cast
    rfl
  · intro pfn notReclaimed
    apply others
    intro vpn member valid same
    apply notReclaimed
    have inside := List.mem_range.mp member
    have inRange := (owned.used vpn inside valid).1
    rw [reclaimable, Finset.mem_filter, Finset.mem_range]
    exact ⟨same ▸ inRange, Or.inr ⟨vpn, inside, valid, same⟩⟩

/-! ### Mapping the new image -/

/-- What has been mapped so far, out of the memory `m₀` in which nothing was: every valid entry may
be read and written and names a frame of its own that was free, and no other frame was touched. -/
structure Mapped (m₀ m : Memory) (pt : PageTable) : Prop where
  nframes : m.nframes = m₀.nframes
  taken : ∀ vpn < maxPtLen, (pt vpn).valid = true → (pt vpn).prot = protReadWrite ∧
    (pt vpn).pfn ∈ m₀.freeFrames ∧ m.frameTable (pt vpn).pfn = .user
  distinct : pt.DistinctFrames
  others : ∀ pfn, (∀ vpn < maxPtLen, (pt vpn).valid = true → (pt vpn).pfn ≠ pfn) →
    m.frameTable pfn = m₀.frameTable pfn
  count : m.freeFrames.card + pt.mappedPages = m₀.freeFrames.card
  counter : m₀.CounterExact → m.CounterExact

theorem Mapped.start (empty : ∀ vpn < maxPtLen, (pt vpn).valid = false) : Mapped m m pt where
  nframes := rfl
  taken vpn inside valid := by
    rw [empty vpn inside] at valid
    cases valid
  distinct u insideU v _ valid := by
    rw [empty u insideU] at valid
    cases valid
  others _ _ := rfl
  count := by
    have none : pt.mappedPages = 0 := by
      rw [PageTable.mappedPages, List.countP_eq_zero]
      intro vpn member
      rw [empty vpn (List.mem_range.mp member)]
      exact Bool.false_ne_true
    rw [none, Nat.add_zero]
  counter exactly := exactly

/-- One more valid entry is one more mapped page. -/
theorem countP_valid_update {entries : List Nat} {e : Pte} (nodup : entries.Nodup)
    (member : vpn ∈ entries) (unmapped : (pt vpn).valid = false) (mapped : e.valid = true) :
    (entries.countP fun other => (Function.update pt vpn e other).valid) =
      (entries.countP fun other => (pt other).valid) + 1 := by
  induction entries with
  | nil => cases member
  | cons first rest inductionHypothesis =>
      obtain ⟨fresh, nodup⟩ := List.nodup_cons.mp nodup
      rw [List.countP_cons, List.countP_cons]
      by_cases same : first = vpn
      · subst same
        have kept : (rest.countP fun other => (Function.update pt first e other).valid) =
            rest.countP fun other => (pt other).valid := by
          apply List.countP_congr
          intro other inRest
          have ne : other ≠ first := by
            rintro rfl
            exact fresh inRest
          rw [Function.update_of_ne ne]
        rw [kept, Function.update_self, mapped, unmapped]
        rfl
      · have inRest : vpn ∈ rest := by
          rcases List.mem_cons.mp member with equal | inRest
          · exact absurd equal.symm same
          · exact inRest
        rw [inductionHypothesis nodup inRest, Function.update_of_ne same]
        omega

/-- One round of the loop: a free frame is taken for a page that was not mapped. -/
theorem Mapped.take (mapped : Mapped m₀ m pt) (free : pfn ∈ m.freeFrames) (inside : vpn < maxPtLen)
    (unmapped : (pt vpn).valid = false) :
    Mapped m₀ (m.takeFrame pfn .user) (Function.update pt vpn ⟨true, protReadWrite, pfn⟩) := by
  obtain ⟨inRange, unused⟩ := mem_freeFrames.mp free
  have elsewhere : ∀ other < maxPtLen, (pt other).valid = true → (pt other).pfn ≠ pfn := by
    intro other insideOther valid same
    have used := (mapped.taken other insideOther valid).2.2
    rw [same, unused] at used
    cases used
  have left := card_freeFrames_takeFrame (by decide : FrameUsage.user ≠ .free) free
  constructor
  case nframes => exact mapped.nframes
  case taken =>
    intro other insideOther valid
    by_cases same : other = vpn
    · subst same
      rw [Function.update_self]
      refine ⟨rfl, ?_, Function.update_self ..⟩
      rw [mem_freeFrames, ← mapped.nframes, ← mapped.others pfn elsewhere]
      exact ⟨inRange, unused⟩
    · rw [Function.update_of_ne same] at valid ⊢
      obtain ⟨prot, before, used⟩ := mapped.taken other insideOther valid
      refine ⟨prot, before, ?_⟩
      rw [takeFrame_frameTable, Function.update_of_ne (elsewhere other insideOther valid)]
      exact used
  case distinct =>
    intro u insideU v insideV validU validV
    by_cases sameU : u = vpn
    · by_cases sameV : v = vpn
      · intro _
        exact sameU.trans sameV.symm
      · subst sameU
        rw [Function.update_of_ne sameV] at validV
        rw [Function.update_self, Function.update_of_ne sameV]
        intro shared
        exact absurd shared.symm (elsewhere v insideV validV)
    · rw [Function.update_of_ne sameU] at validU
      by_cases sameV : v = vpn
      · subst sameV
        rw [Function.update_self, Function.update_of_ne sameU]
        intro shared
        exact absurd shared (elsewhere u insideU validU)
      · rw [Function.update_of_ne sameV] at validV
        rw [Function.update_of_ne sameU, Function.update_of_ne sameV]
        exact mapped.distinct u insideU v insideV validU validV
  case others =>
    intro other notNamed
    have ne : other ≠ pfn := by
      have named := notNamed vpn inside
      rw [Function.update_self] at named
      exact (named rfl).symm
    rw [takeFrame_frameTable, Function.update_of_ne ne]
    apply mapped.others
    intro page insidePage valid
    have page_ne : page ≠ vpn := by
      rintro rfl
      rw [unmapped] at valid
      cases valid
    have named := notNamed page insidePage
    rw [Function.update_of_ne page_ne] at named
    exact named valid
  case count =>
    have more : PageTable.mappedPages (Function.update pt vpn ⟨true, protReadWrite, pfn⟩) =
        pt.mappedPages + 1 :=
      countP_valid_update List.nodup_range (List.mem_range.mpr inside) unmapped rfl
    have before := mapped.count
    omega
  case counter =>
    intro exactly
    have before := mapped.counter exactly
    rw [Memory.CounterExact] at before ⊢
    have positive : 0 < m.freeNframes := by omega
    have counted : (m.takeFrame pfn .user).freeNframes = m.freeNframes - 1 := if_pos positive
    omega

/-- The loop maps pages that were not mapped, with enough frames for them. -/
theorem loadSegment_mapped (enough : n ≤ m.freeFrames.card)
    (unmapped : ∀ vpn < maxPtLen, InSegment (base + i) n vpn → (pt vpn).valid = false)
    (mapped : Mapped m₀ m pt) (h : loadSegment base n i m pt = .ok (m', pt')) :
    Mapped m₀ m' pt' := by
  induction n generalizing i m pt with
  | zero =>
      cases h
      exact mapped
  | succ n inductionHypothesis =>
      obtain ⟨vpn, inside, position, ⟨pfn, free, h⟩ | ⟨exhausted, -⟩⟩ := loadSegment_succ h
      · have left := card_freeFrames_takeFrame (by decide : FrameUsage.user ≠ .free) free
        have here := unmapped vpn inside ((inSegment_succ position).mpr (Or.inl rfl))
        refine inductionHypothesis (by omega) ?_ (mapped.take free inside here) h
        intro other insideOther later
        have next : base + ((i + 1 : Nat) : Int) = base + i + 1 := by
          push_cast
          omega
        rw [next] at later
        have ne : other ≠ vpn := by
          rintro rfl
          rw [position] at later
          exact absurd later.1 (by omega)
        rw [Function.update_of_ne ne]
        exact unmapped other insideOther ((inSegment_succ position).mpr (Or.inr later))
      · rw [exhausted, Finset.card_empty] at enough
        exact absurd enough (Nat.not_succ_le_zero n)

/-- The three loops, when no page belongs to two segments and there are frames for all of them. -/
theorem loadSegments_mapped {plan : LoadPlan} (enough : plan.pages ≤ m.freeFrames.card)
    (once : plan.indices.Nodup) (empty : ∀ vpn < maxPtLen, (pt vpn).valid = false)
    (h : loadSegments plan m pt = .ok (m', pt')) : Mapped m m' pt' := by
  simp only [loadSegments, bind_eq_ok] at h
  obtain ⟨⟨m₁, pt₁⟩, text, ⟨m₂, pt₂⟩, data, stack⟩ := h
  simp only at data stack
  simp only [LoadPlan.pages] at enough
  obtain ⟨textData, textStack, dataStack⟩ := indices_nodup.mp once
  simp only [mem_segment] at textData textStack dataStack
  have backed : Backed m pt := by
    intro vpn inside valid
    rw [empty vpn inside] at valid
    cases valid
  obtain ⟨backed₁, left₁⟩ := loadSegment_backed (by omega) text backed
  obtain ⟨backed₂, left₂⟩ := loadSegment_backed (by omega) data backed₁
  have mapped₁ := loadSegment_mapped (by omega) (fun vpn inside _ => empty vpn inside)
    (.start empty) text
  have mapped₂ := loadSegment_mapped (by omega) ?_ mapped₁ data
  · refine loadSegment_mapped (by omega) ?_ mapped₂ stack
    intro vpn inside inStack
    simp only [Nat.cast_zero, add_zero] at inStack
    rw [← Bool.not_eq_true, loadSegment_valid data, loadSegment_valid text]
    simp only [Nat.cast_zero, add_zero]
    rintro ((valid | inText) | inData)
    · rw [empty vpn inside] at valid
      cases valid
    · exact textStack vpn inText inStack
    · exact dataStack vpn inData inStack
  · intro vpn inside inData
    simp only [Nat.cast_zero, add_zero] at inData
    rw [← Bool.not_eq_true, loadSegment_valid text]
    simp only [Nat.cast_zero, add_zero]
    rintro (valid | inText)
    · rw [empty vpn inside] at valid
      cases valid
    · exact textData vpn inText inData

/-- The text becomes executable, and nothing else changes its protection. -/
theorem protectText_prot (h : protectText base n i pt = .ok pt') (vpn : Nat) :
    (InSegment (base + i) n vpn → (pt' vpn).prot = protReadExec) ∧
      (¬ InSegment (base + i) n vpn → (pt' vpn).prot = (pt vpn).prot) := by
  induction n generalizing i pt with
  | zero =>
      cases h
      exact ⟨fun inText => absurd inText inSegment_zero, fun _ => rfl⟩
  | succ n inductionHypothesis =>
      simp only [protectText, bind_eq_ok] at h
      obtain ⟨page, index, h⟩ := h
      obtain ⟨position, -⟩ := tableIndex_eq_ok index
      have next : base + ((i + 1 : Nat) : Int) = base + i + 1 := by
        push_cast
        omega
      obtain ⟨inside, outside⟩ := inductionHypothesis h
      rw [next] at inside outside
      constructor
      · intro inText
        rcases (inSegment_succ position).mp inText with here | later
        · subst here
          by_cases later : InSegment (base + i + 1) n vpn
          · exact inside later
          · rw [outside later, Function.update_self]
        · exact inside later
      · intro notText
        have ne : vpn ≠ page := fun here => notText ((inSegment_succ position).mpr (Or.inl here))
        rw [outside fun later => notText ((inSegment_succ position).mpr (Or.inr later)),
          Function.update_of_ne ne]

/-! ### The whole load -/

variable {req : LoadRequest} {argv : ArgVector} {args : List (List Byte)} {li : LoadInfo}
  {plan : LoadPlan} {argbuf : ArgBuf} {b b' : PCB}

/-- A load that succeeds has gone through every stage; the last one builds the stack. -/
theorem loadImage_success (h : Kernel.loadImage req li plan argbuf m b = .ok (.success, m', b')) :
    ∃ m₀ pt₀ m₁ pt₁ m₂, clearRegion1 (List.range maxPtLen) m b.ptbr = (m₀, pt₀) ∧
      loadSegments plan m₀ pt₀ = .ok (m₁, pt₁) ∧ WritesOnly m₁ m₂ ∧
      protectText plan.textPg1 plan.textNpg 0 pt₁ = .ok b'.ptbr ∧
      buildStack plan argbuf b'.ptbr m₂ = .ok m' ∧
      b'.userContext = { b.userContext with pc := li.entry } := by
  obtain ⟨m₀, pt₀, m₁, pt₁, m₂, m₃, pt₂, m₄, cleared, mapped, text, data, executable, zeroed, built,
    rfl⟩ := loadImage_eq_success.mp h
  have wrote := ((readInto_eq_ok text).2.trans (readInto_eq_ok data).2).trans (.storeFun zeroed)
  exact ⟨m₀, pt₀, m₁, pt₁, m₄, cleared, mapped, wrote, executable, built, rfl⟩

/-- A load that succeeds has kept stack and data apart. -/
theorem loadImage_room {ptlr : Nat} (accepted : loadPlan li args ptlr = some plan)
    (h : Kernel.loadImage req li plan argbuf m b = .ok (.success, m', b')) :
    stackPages args + pageOf li.idVaddr + dataPages li < maxPtLen := by
  obtain ⟨m₀, pt₀, m₁, pt₁, m₂, -, segments, -⟩ := loadImage_success h
  exact loadPlan_room accepted segments

/-- The empty table that the segments are mapped into. -/
theorem cleared_empty (h : clearRegion1 (List.range maxPtLen) m pt = (m', pt')) :
    ∀ vpn < maxPtLen, (pt' vpn).valid = false := by
  intro vpn inside
  rw [← Bool.not_eq_true]
  intro valid
  exact ((clearRegion1_eq h).2.1 vpn |>.mp valid).2 (List.mem_range.mpr inside)

/-- The same load when no page belongs to two segments and the frames suffice. -/
theorem loadImage_mapped (once : plan.indices.Nodup)
    (enough : plan.pages ≤ (m.reclaimable b.ptbr).card)
    (h : Kernel.loadImage req li plan argbuf m b = .ok (.success, m', b')) :
    ∃ m₀ pt₀ m₁ pt₁, clearRegion1 (List.range maxPtLen) m b.ptbr = (m₀, pt₀) ∧
      loadSegments plan m₀ pt₀ = .ok (m₁, pt₁) ∧ Mapped m₀ m₁ pt₁ ∧ WritesOnly m₁ m' ∧
      protectText plan.textPg1 plan.textNpg 0 pt₁ = .ok b'.ptbr := by
  obtain ⟨m₀, pt₀, m₁, pt₁, m₂, cleared, mapped, wrote, executable, built, -⟩ :=
    loadImage_success h
  rw [← clearRegion1_frees cleared] at enough
  exact ⟨m₀, pt₀, m₁, pt₁, cleared, mapped,
    loadSegments_mapped enough once (cleared_empty cleared) mapped,
    wrote.trans (.buildStack built), executable⟩

/-- Segments in ascending order share no page. -/
theorem ordered_once (textData : plan.textPg1 + plan.textNpg ≤ plan.dataPg1)
    (dataStack : plan.dataPg1 + plan.dataNpg.toNat ≤ plan.stackBase) : plan.indices.Nodup := by
  rw [indices_nodup]
  simp only [mem_segment]
  refine ⟨?_, ?_, ?_⟩
  · intro index inText inData
    omega
  · intro index inText inStack
    omega
  · intro index inData inStack
    omega

/-- The pages the stack takes. -/
def stackNpg (args : List (List Byte)) : Nat := (stackSpace args + 0x1fff) / 0x2000

/-- The pages of the text. -/
def InText (li : LoadInfo) (vpn : Nat) : Prop := InSegment (pageOf li.tVaddr) li.tNpg.toNat vpn

/-- The pages of the data, initialised or not. -/
def InData (li : LoadInfo) (vpn : Nat) : Prop :=
  InSegment (pageOf li.idVaddr) (li.idNpg.toNat + li.udNpg.toNat) vpn

/-- The pages at the top of the table. -/
def InStack (args : List (List Byte)) (vpn : Nat) : Prop :=
  InSegment ((maxPtLen : Int) - stackNpg args) (stackNpg args) vpn

/-- The memory `m'` and the table `pt'` hold exactly the program `li` with these arguments, with the
stack pointer at `sp`, in place of what `m` and `pt` held. -/
structure BuildsExactly (m : Memory) (pt : PageTable) (li : LoadInfo) (args : List (List Byte))
    (m' : Memory) (pt' : PageTable) (sp : Word) : Prop where
  pages : ∀ vpn, vpn < maxPtLen ∧ (pt' vpn).valid = true ↔
    InText li vpn ∨ InData li vpn ∨ InStack args vpn
  disjoint : ∀ vpn, ¬ (InText li vpn ∧ InData li vpn) ∧ ¬ (InText li vpn ∧ InStack args vpn) ∧
    ¬ (InData li vpn ∧ InStack args vpn)
  gap : ∃ vpn : Nat, pageOf li.idVaddr + (li.idNpg.toNat + li.udNpg.toNat) ≤ vpn ∧
    vpn + stackNpg args < maxPtLen ∧ (pt' vpn).valid = false
  text : ∀ vpn, InText li vpn → (pt' vpn).prot = protReadExec
  rest : ∀ vpn, InData li vpn ∨ InStack args vpn → (pt' vpn).prot = protReadWrite
  frames : ∀ vpn < maxPtLen, (pt' vpn).valid = true →
    (pt' vpn).pfn ∈ m.reclaimable pt ∧ m'.frameTable (pt' vpn).pfn = .user
  distinct : pt'.DistinctFrames
  others : ∀ pfn, pfn ∉ m.reclaimable pt → m'.frameTable pfn = m.frameTable pfn
  count : m'.freeFrames.card + pt'.mappedPages = m.freeFrames.card + pt.mappedPages
  counter : m.CounterExact → m'.CounterExact
  aligned : sp.toNat % 8 = 0
  mapped : ∃ vpn, InStack args vpn ∧ vmem1Base + vpn * pageSize ≤ sp.toNat ∧
    sp.toNat < vmem1Base + (vpn + 1) * pageSize

/-- A sum of page counts below 2^31 comes out as it is. -/
theorem dataPages_small (small : li.idNpg.toNat + li.udNpg.toNat < 0x80000000) :
    dataPages li = (li.idNpg.toNat + li.udNpg.toNat : Nat) := by
  rw [dataPages, BitVec.toInt_eq_toNat_cond, BitVec.toNat_add]
  simp only [Nat.reducePow]
  omega

/-- The stack pointer of a load whose arguments have been sized correctly. -/
theorem stackStart_mapped {args : List (List Byte)} (room : stackNpg args ≤ maxPtLen) :
    (stackStart args).toNat % 8 = 0 ∧ ∃ vpn, InStack args vpn ∧
      vmem1Base + vpn * pageSize ≤ (stackStart args).toNat ∧
      (stackStart args).toNat < vmem1Base + (vpn + 1) * pageSize := by
  have start := stackStart_toNat args
  have some : 132 ≤ stackSpace args := by
    rw [stackSpace]
    omega
  simp only [stackNpg, InStack, InSegment, maxPtLen, vmem1Base, pageSize] at room ⊢
  generalize (stackStart args).toNat = sp at start ⊢
  generalize stackSpace args = space at start some room ⊢
  refine ⟨by omega, (sp - 0x100000) / 0x2000, ⟨by omega, by omega⟩, by omega, by omega⟩

section Layout

variable {args : List (List Byte)}

theorem segments_disjoint (textBelow : pageOf li.tVaddr + li.tNpg.toNat ≤ pageOf li.idVaddr)
    (room : (stackNpg args : Int) + pageOf li.idVaddr +
      (li.idNpg.toNat + li.udNpg.toNat : Nat) < maxPtLen) (vpn : Nat) :
    ¬ (InText li vpn ∧ InData li vpn) ∧ ¬ (InText li vpn ∧ InStack args vpn) ∧
      ¬ (InData li vpn ∧ InStack args vpn) := by
  simp only [InText, InData, InStack, InSegment]
  omega

theorem segments_inside (textBelow : pageOf li.tVaddr + li.tNpg.toNat ≤ pageOf li.idVaddr)
    (room : (stackNpg args : Int) + pageOf li.idVaddr +
      (li.idNpg.toNat + li.udNpg.toNat : Nat) < maxPtLen)
    (covered : InText li vpn ∨ InData li vpn ∨ InStack args vpn) : vpn < maxPtLen := by
  simp only [InText, InData, InStack, InSegment] at covered
  omega

end Layout

namespace Kernel

variable {env : Env} {s s' : Kernel} {p : PcbPtr}

/-- What a load that passes its checks leaves, when the page counts of the data add up. -/
theorem loadImage_builds (owned : Owned m b.ptbr)
    (accepted : loadPlan li args maxPtLen = some plan)
    (textBelow : pageOf li.tVaddr + li.tNpg.toNat ≤ pageOf li.idVaddr)
    (sized : stackSpace args ≤ 0x7fffe000)
    (enough : programPages li args ≤ (m.reclaimable b.ptbr).card)
    (small : li.idNpg.toNat + li.udNpg.toNat < 0x80000000)
    (h : loadImage req li plan argbuf m b = .ok (.success, m', b')) :
    BuildsExactly m b.ptbr li args m' b'.ptbr (stackStart args) := by
  rw [← pages_eq accepted] at enough
  have stack : stackPages args = stackNpg args := stackPages_small sized
  have data := dataPages_small small
  obtain ⟨-, -, layout⟩ := loadPlan_eq_some.mp accepted
  have room := loadImage_room accepted h
  rw [stack, data] at room layout
  have once : plan.indices.Nodup := by
    apply ordered_once
    · rw [layout]
      simp only
      omega
    · rw [layout]
      simp only [Int.toNat_natCast]
      omega
  obtain ⟨m₀, pt₀, m₁, pt₁, cleared, segments, mapped, wrote, executable⟩ :=
    loadImage_mapped once enough h
  subst layout
  have free := clearRegion1_frees cleared
  obtain ⟨card, counter, elsewhere⟩ := clearRegion1_owned owned cleared
  have kept := protectText_eq_ok executable
  have covers : ∀ vpn < maxPtLen, (b'.ptbr vpn).valid = true ↔
      InText li vpn ∨ InData li vpn ∨ InStack args vpn := by
    intro vpn inside
    rw [(kept vpn).1, loadSegments_valid segments, cleared_empty cleared vpn inside]
    simp only [Bool.false_eq_true, false_or]
    rfl
  have taken : ∀ vpn < maxPtLen, (b'.ptbr vpn).valid = true → (pt₁ vpn).prot = protReadWrite ∧
      (b'.ptbr vpn).pfn ∈ m.reclaimable b.ptbr ∧ m'.frameTable (b'.ptbr vpn).pfn = .user := by
    intro vpn inside valid
    rw [(kept vpn).1] at valid
    rw [(kept vpn).2, wrote.frameTable, ← free]
    exact mapped.taken vpn inside valid
  have executable := protectText_prot executable
  simp only [Nat.cast_zero, add_zero] at executable
  have disjoint := segments_disjoint textBelow room
  constructor
  case pages =>
    intro vpn
    constructor
    · rintro ⟨inside, valid⟩
      exact (covers vpn inside).mp valid
    · intro covered
      have inside := segments_inside textBelow room covered
      exact ⟨inside, (covers vpn inside).mpr covered⟩
  case disjoint => exact disjoint
  case gap =>
    refine ⟨pageOf li.idVaddr + (li.idNpg.toNat + li.udNpg.toNat), le_rfl, by omega, ?_⟩
    rw [← Bool.not_eq_true, covers _ (by omega)]
    simp only [InText, InData, InStack, InSegment]
    omega
  case text =>
    intro vpn inText
    exact (executable vpn).1 inText
  case rest =>
    intro vpn covered
    have inside := segments_inside textBelow room (Or.inr covered)
    have notText : ¬ InText li vpn := by
      intro inText
      rcases covered with inData | inStack
      · exact (disjoint vpn).1 ⟨inText, inData⟩
      · exact (disjoint vpn).2.1 ⟨inText, inStack⟩
    exact ((executable vpn).2 notText).trans
      (taken vpn inside ((covers vpn inside).mpr (Or.inr covered))).1
  case frames =>
    intro vpn inside valid
    exact (taken vpn inside valid).2
  case distinct =>
    intro u insideU v insideV
    rw [(kept u).1, (kept v).1, (kept u).2, (kept v).2]
    exact mapped.distinct u insideU v insideV
  case others =>
    intro pfn notReclaimed
    rw [wrote.frameTable, ← elsewhere pfn notReclaimed]
    apply mapped.others
    rintro vpn inside valid rfl
    exact notReclaimed (free ▸ (mapped.taken vpn inside valid).2.1)
  case count =>
    have same : b'.ptbr.mappedPages = pt₁.mappedPages := by
      apply List.countP_congr
      intro vpn _
      rw [(kept vpn).1]
    rw [wrote.freeFrames, same, mapped.count, card]
  case counter =>
    intro exactly
    exact wrote.counterExact (mapped.counter (counter exactly))
  case aligned => exact (stackStart_mapped (by omega)).1
  case mapped => exact (stackStart_mapped (by omega)).2

/-- A call that succeeds has loaded the image of its plan. -/
theorem loadProgram_success (live : s.heap p = some b) (length : b.ptlr = maxPtLen)
    (information : req.info = some li) (strings : s.argStrings argv = .ok args)
    (loaded : s.loadProgram env req argv p = .ok (.success, s')) (after : s'.heap p = some b') :
    ∃ plan m, loadPlan li args maxPtLen = some plan ∧
      b'.userContext.sp = stackStart args ∧
      loadImage req li plan (saveArgs args) s.mem (PCB.withStackPointer b plan.cpp) =
        .ok (.success, m, b') ∧
      s' = ((s.malloc env).2.setMem m).setPcb p b' := by
  obtain ⟨b₀, live₀, outcome⟩ := loadProgram_eq_ok loaded
  obtain rfl := Option.some.inj (live.symm.trans live₀)
  rcases outcome with ⟨failed, -⟩ | ⟨li', args', plan, information', strings', accepted, outcome⟩
  · cases failed
  · obtain rfl := Option.some.inj (information.symm.trans information')
    obtain rfl := Except.ok.inj (strings.symm.trans strings')
    rcases outcome with ⟨-, failed, -⟩ | ⟨-, m, b'', image, rfl⟩
    · cases failed
    · rw [setPcb_heap, Function.update_self] at after
      obtain rfl := Option.some.inj after
      obtain ⟨m₀, pt₀, m₁, pt₁, m₂, -, -, -, -, -, context⟩ := loadImage_success image
      rw [length] at accepted
      obtain ⟨-, -, layout⟩ := loadPlan_eq_some.mp accepted
      refine ⟨plan, m, accepted, ?_, image, rfl⟩
      rw [context, layout]
      rfl

/-- Whether every valid entry names a frame in use that no other names, found out page by page. -/
def ownedCheck (m : Memory) (pt : PageTable) : Bool :=
  decide (∀ u < maxPtLen, (pt u).valid = true →
    (pt u).pfn < m.nframes ∧ m.frameTable (pt u).pfn ≠ .free ∧
      ∀ v < maxPtLen, (pt v).valid = true → (pt u).pfn = (pt v).pfn → u = v)

theorem owned_of_check (checked : ownedCheck m pt = true) : Owned m pt := by
  have owned := of_decide_eq_true checked
  constructor
  case used =>
    intro vpn inside valid
    obtain ⟨inRange, used, -⟩ := owned vpn inside valid
    exact ⟨inRange, used⟩
  case distinct =>
    intro u insideU v insideV validU validV
    exact (owned u insideU validU).2.2 v insideV validV

/-- A file of one page of text, with 2^31 pages of bss from 0x102000 on. -/
def hugeBss : LoadInfo where
  entry := 0x100000
  tVaddr := 0x100000
  tNpg := 1
  idVaddr := 0x102000
  idNpg := 0
  idEnd := 0x102000
  udNpg := 0x80000000
  udEnd := 0x102000

def hugeBssProgram : LoadRequest where
  info := some hugeBss
  text := some (0x2000, fun _ => 0)
  data := some (0, fun _ => 0)

end Kernel

end Yalnix
