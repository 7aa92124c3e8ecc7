/-
Module: Yalnix.Proofs.FreshPages
Purpose: Pages that a loop maps on frames it takes from the free ones: the relation between memory
  and table before and after, and the loops of Brk, growStack and SetKernelBrk as instances of it.
Trusted boundary: none
Main exports: FreshPages, brkGrow_fresh, growStackPages_fresh, growStackPages_rollsBack,
  growKernelHeap_fresh, shrinkKernelHeap_eq
-/
import Mathlib.Order.Interval.Finset.Nat
import Yalnix.Proofs.RegionOne

namespace Yalnix

open Memory

variable {m m' m₁ m₂ : Memory} {pt pt' pt₁ pt₂ : PageTable} {pages others : Finset Nat}
  {n vpn pfn targetVpn : Nat} {usage : FrameUsage} {status : Status}

/-- The pages `pages` are mapped read-write, each on a frame of its own that was free and is in use
now; the other pages, the other frames and the contents of memory are as they were. -/
structure FreshPages (usage : FrameUsage) (pages : Finset Nat) (m : Memory) (pt : PageTable)
    (m' : Memory) (pt' : PageTable) : Prop where
  mapped : ∀ vpn ∈ pages, pt' vpn = ⟨true, protReadWrite, (pt' vpn).pfn⟩
  wasFree : ∀ vpn ∈ pages, (pt' vpn).pfn ∈ m.freeFrames
  distinct : ∀ vpn ∈ pages, ∀ other ∈ pages, (pt' vpn).pfn = (pt' other).pfn → vpn = other
  kept : ∀ vpn ∉ pages, pt' vpn = pt vpn
  taken : ∀ vpn ∈ pages, m'.frameTable (pt' vpn).pfn = usage
  untaken : ∀ pfn, (∀ vpn ∈ pages, (pt' vpn).pfn ≠ pfn) → m'.frameTable pfn = m.frameTable pfn
  nframes : m'.nframes = m.nframes
  phys : m'.phys = m.phys

namespace FreshPages

theorem start (usage : FrameUsage) (m : Memory) (pt : PageTable) :
    FreshPages usage ∅ m pt m pt where
  mapped := fun _ member => absurd member (Finset.notMem_empty _)
  wasFree := fun _ member => absurd member (Finset.notMem_empty _)
  distinct := fun _ member => absurd member (Finset.notMem_empty _)
  kept := fun _ _ => rfl
  taken := fun _ member => absurd member (Finset.notMem_empty _)
  untaken := fun _ _ => rfl
  nframes := rfl
  phys := rfl

/-- One frame is taken and mapped; region 0 and the break may have changed as well. -/
theorem single (free : pfn ∈ m.freeFrames)
    (table : m'.frameTable = Function.update m.frameTable pfn usage)
    (frames : m'.nframes = m.nframes) (contents : m'.phys = m.phys) :
    FreshPages usage {vpn} m pt m' (Function.update pt vpn ⟨true, protReadWrite, pfn⟩) where
  mapped := by
    intro page member
    rw [Finset.mem_singleton.mp member, Function.update_self]
  wasFree := by
    intro page member
    rw [Finset.mem_singleton.mp member, Function.update_self]
    exact free
  distinct := by
    intro page member other member' _
    rw [Finset.mem_singleton.mp member, Finset.mem_singleton.mp member']
  kept := by
    intro page outside
    exact Function.update_of_ne (fun same => outside (Finset.mem_singleton.mpr same)) ..
  taken := by
    intro page member
    rw [Finset.mem_singleton.mp member, Function.update_self, table, Function.update_self]
  untaken := by
    intro other different
    have ne := different vpn (Finset.mem_singleton_self vpn)
    rw [Function.update_self] at ne
    rw [table, Function.update_of_ne (Ne.symm ne)]
  nframes := frames
  phys := contents

/-- The frame of a page just mapped is not free any more. -/
theorem notFree (fresh : FreshPages usage pages m pt m' pt') (used : usage ≠ .free)
    (member : vpn ∈ pages) : (pt' vpn).pfn ∉ m'.freeFrames := by
  intro free
  have unused := (mem_freeFrames.mp free).2
  rw [fresh.taken vpn member] at unused
  exact used unused

theorem free_of_free (fresh : FreshPages usage pages m pt m' pt') (used : usage ≠ .free)
    (free : pfn ∈ m'.freeFrames) : pfn ∈ m.freeFrames := by
  have untouched : ∀ vpn ∈ pages, (pt' vpn).pfn ≠ pfn := by
    rintro vpn member rfl
    exact fresh.notFree used member free
  obtain ⟨inRange, unused⟩ := mem_freeFrames.mp free
  rw [fresh.nframes] at inRange
  rw [fresh.untaken pfn untouched] at unused
  exact mem_freeFrames.mpr ⟨inRange, unused⟩

/-- Two loops over different pages, one after the other. -/
theorem trans (used : usage ≠ .free) (first : FreshPages usage pages m pt m₁ pt₁)
    (second : FreshPages usage others m₁ pt₁ m₂ pt₂) (apart : Disjoint pages others) :
    FreshPages usage (pages ∪ others) m pt m₂ pt₂ := by
  have left : ∀ vpn ∈ pages, pt₂ vpn = pt₁ vpn := fun vpn member =>
    second.kept vpn (Finset.disjoint_left.mp apart member)
  have crossed : ∀ vpn ∈ pages, ∀ other ∈ others, (pt₂ vpn).pfn ≠ (pt₂ other).pfn := by
    intro vpn member other member' same
    have free := second.wasFree other member'
    rw [← same, left vpn member] at free
    exact first.notFree used member free
  constructor
  case mapped =>
    intro vpn member
    rcases Finset.mem_union.mp member with here | there
    · rw [left vpn here]
      exact first.mapped vpn here
    · exact second.mapped vpn there
  case wasFree =>
    intro vpn member
    rcases Finset.mem_union.mp member with here | there
    · rw [left vpn here]
      exact first.wasFree vpn here
    · exact first.free_of_free used (second.wasFree vpn there)
  case distinct =>
    intro vpn member other member' same
    rcases Finset.mem_union.mp member with here | there
    · rcases Finset.mem_union.mp member' with here' | there'
      · rw [left vpn here, left other here'] at same
        exact first.distinct vpn here other here' same
      · exact absurd same (crossed vpn here other there')
    · rcases Finset.mem_union.mp member' with here' | there'
      · exact absurd same.symm (crossed other here' vpn there)
      · exact second.distinct vpn there other there' same
  case kept =>
    intro vpn outside
    rw [Finset.mem_union, not_or] at outside
    rw [second.kept vpn outside.2, first.kept vpn outside.1]
  case taken =>
    intro vpn member
    rcases Finset.mem_union.mp member with here | there
    · rw [second.untaken _ fun other member' => (crossed vpn here other member').symm,
        left vpn here]
      exact first.taken vpn here
    · exact second.taken vpn there
  case untaken =>
    intro pfn different
    rw [second.untaken pfn fun vpn member => different vpn (Finset.mem_union_right _ member)]
    apply first.untaken pfn
    intro vpn member
    rw [← left vpn member]
    exact different vpn (Finset.mem_union_left _ member)
  case nframes => exact second.nframes.trans first.nframes
  case phys => exact second.phys.trans first.phys

/-- The pages that were mapped before and are not among the new ones stay as they were, so that a
page is valid afterwards if it is new or was valid. -/
theorem valid_iff (fresh : FreshPages usage pages m pt m' pt') :
    (pt' vpn).valid = true ↔ vpn ∈ pages ∨ (pt vpn).valid = true := by
  by_cases member : vpn ∈ pages
  · rw [fresh.mapped vpn member]
    simp [member]
  · rw [fresh.kept vpn member]
    simp [member]

/-- A page in front of a range. -/
theorem next {cur : Nat} (used : usage ≠ .free) (first : FreshPages usage {cur} m pt m₁ pt₁)
    (later : FreshPages usage (Finset.Ico (cur + 1) (cur + 1 + n)) m₁ pt₁ m' pt') :
    FreshPages usage (Finset.Ico cur (cur + (n + 1))) m pt m' pt' := by
  have apart : Disjoint {cur} (Finset.Ico (cur + 1) (cur + 1 + n)) := by
    rw [Finset.disjoint_singleton_left, Finset.mem_Ico]
    omega
  have whole :
      Finset.Ico cur (cur + (n + 1)) = insert cur (Finset.Ico (cur + 1) (cur + 1 + n)) := by
    ext page
    rw [Finset.mem_insert, Finset.mem_Ico, Finset.mem_Ico]
    omega
  rw [whole, Finset.insert_eq]
  exact first.trans used later apart

end FreshPages

/-! ### Growing loops -/

/-- Whatever its outcome, the growing loop of `Brk` has mapped some unmapped pages of its range. -/
theorem brkGrow_pages (h : brkGrow n vpn m pt = .ok (status, m', pt')) :
    ∃ pages ⊆ pt.unmapped vpn (vpn + n), FreshPages .user pages m pt m' pt' := by
  induction n generalizing vpn m pt with
  | zero =>
      cases h
      exact ⟨∅, Finset.empty_subset _, .start .user _ _⟩
  | succ n inductionHypothesis =>
      simp only [brkGrow, bind_eq_ok] at h
      obtain ⟨i, index, h⟩ := h
      obtain ⟨position, inside⟩ := tableIndex_eq_ok index
      obtain rfl : vpn = i := Int.ofNat.inj position
      have next : vpn + (n + 1) = vpn + 1 + n := by omega
      rw [next]
      by_cases valid : (pt vpn).valid = true
      · rw [if_pos valid] at h
        rw [unmapped_of_valid valid]
        exact inductionHypothesis h
      · rw [if_neg valid] at h
        rcases allocated : m.allocFrame .user with _ | ⟨pfn, m₁⟩
        · rw [allocated] at h
          cases h
          exact ⟨∅, Finset.empty_subset _, .start .user _ _⟩
        · rw [allocated] at h
          obtain ⟨free, rfl⟩ := allocFrame_eq_some allocated
          have used : FrameUsage.user ≠ .free := by decide
          have later : PageTable.unmapped (Function.update pt vpn ⟨true, protReadWrite, pfn⟩)
              (vpn + 1) (vpn + 1 + n) = pt.unmapped (vpn + 1) (vpn + 1 + n) := by
            apply unmapped_congr
            intro other above _
            rw [Function.update_of_ne (Nat.ne_of_gt above)]
          obtain ⟨pages, among, fresh⟩ := inductionHypothesis h
          rw [later] at among
          have first : FreshPages .user {vpn} m pt (m.takeFrame pfn .user)
              (Function.update pt vpn ⟨true, protReadWrite, pfn⟩) := .single free rfl rfl rfl
          have apart : Disjoint {vpn} pages :=
            Finset.disjoint_singleton_left.mpr fun member => notMem_unmapped_succ (among member)
          refine ⟨{vpn} ∪ pages, ?_, first.trans used fresh apart⟩
          rw [unmapped_of_invalid inside (by omega) (Bool.eq_false_iff.mpr valid),
            Finset.insert_eq]
          exact Finset.union_subset_union_right among

/-- Inside the table the loop comes back. -/
theorem brkGrow_returns (inside : vpn + n ≤ maxPtLen) :
    ∃ status m' pt', brkGrow n vpn m pt = .ok (status, m', pt') := by
  induction n generalizing vpn m pt with
  | zero => exact ⟨.success, m, pt, rfl⟩
  | succ n inductionHypothesis =>
      have here : vpn < maxPtLen := by omega
      simp only [brkGrow, tableIndex_natCast here, bind, Except.bind]
      by_cases valid : (pt vpn).valid = true
      · rw [if_pos valid]
        exact inductionHypothesis (by omega)
      · rw [if_neg valid]
        rcases m.allocFrame .user with _ | ⟨pfn, m₁⟩
        · exact ⟨.error, m, pt, rfl⟩
        · exact inductionHypothesis (by omega)

/-- With enough frames it maps all unmapped pages of its range. -/
theorem brkGrow_fresh (inside : vpn + n ≤ maxPtLen)
    (enough : (pt.unmapped vpn (vpn + n)).card ≤ m.freeFrames.card) :
    ∃ m' pt', brkGrow n vpn m pt = .ok (.success, m', pt') ∧
      FreshPages .user (pt.unmapped vpn (vpn + n)) m pt m' pt' := by
  obtain ⟨status, m', pt', grew⟩ := @brkGrow_returns m pt n vpn inside
  rcases (brkGrow_eq_ok grew).2 with ⟨rfl, -, complete, -⟩ | ⟨-, scarce, -⟩
  · obtain ⟨pages, among, fresh⟩ := brkGrow_pages grew
    have all : pages = pt.unmapped vpn (vpn + n) := by
      apply Finset.Subset.antisymm among
      intro page member
      by_contra missing
      obtain ⟨inTable, low, high, invalid⟩ := mem_unmapped.mp member
      have left : page ∈ pt'.unmapped vpn (vpn + n) := by
        rw [mem_unmapped, fresh.kept page missing]
        exact ⟨inTable, low, high, invalid⟩
      rw [complete] at left
      exact absurd left (Finset.notMem_empty page)
    rw [all] at fresh
    exact ⟨m', pt', grew, fresh⟩
  · exact absurd enough (Nat.not_le_of_lt scarce)

/-- With enough frames the loop of `growStack` maps every page from its target on. -/
theorem growStackPages_fresh {i : Nat} (inside : targetVpn + i + n ≤ maxPtLen)
    (enough : n ≤ m.freeFrames.card) :
    ∃ m' pt', growStackPages targetVpn n i m pt = .ok (.success, m', pt') ∧
      FreshPages .user (Finset.Ico (targetVpn + i) (targetVpn + i + n)) m pt m' pt' := by
  induction n generalizing i m pt with
  | zero =>
      rw [Nat.add_zero, Finset.Ico_self]
      exact ⟨m, pt, rfl, .start .user m pt⟩
  | succ n inductionHypothesis =>
      have here : targetVpn + i < maxPtLen := by omega
      unfold growStackPages
      rcases allocated : m.allocFrame .user with _ | ⟨pfn, m₁⟩
      · rw [allocFrame_eq_none.mp allocated, Finset.card_empty] at enough
        omega
      · obtain ⟨free, rfl⟩ := allocFrame_eq_some allocated
        have used : FrameUsage.user ≠ .free := by decide
        have left := card_freeFrames_takeFrame used free
        have inside' : targetVpn + (i + 1) + n ≤ maxPtLen := by omega
        have enough' : n ≤ (m.takeFrame pfn .user).freeFrames.card := by omega
        have grownOn : ∃ m' pt', growStackPages targetVpn n (i + 1) (m.takeFrame pfn .user)
            (Function.update pt (targetVpn + i) ⟨true, protReadWrite, pfn⟩) =
              .ok (.success, m', pt') ∧
            FreshPages .user (Finset.Ico (targetVpn + (i + 1)) (targetVpn + (i + 1) + n))
              (m.takeFrame pfn .user)
              (Function.update pt (targetVpn + i) ⟨true, protReadWrite, pfn⟩) m' pt' :=
          inductionHypothesis inside' enough'
        obtain ⟨m', pt', grown, fresh⟩ := grownOn
        simp only [tableIndex_natCast here, bind, Except.bind]
        have first : FreshPages .user {targetVpn + i} m pt (m.takeFrame pfn .user)
            (Function.update pt (targetVpn + i) ⟨true, protReadWrite, pfn⟩) :=
          .single free rfl rfl rfl
        exact ⟨m', pt', grown, first.next used fresh⟩

/-- With enough frames the growing loop of `SetKernelBrk` maps every page from the break on. -/
theorem growKernelHeap_fresh {cur : Nat} (inside : cur + n ≤ maxPtLen)
    (enough : n ≤ m.freeFrames.card) :
    ∃ m', growKernelHeap n cur m = (.success, m') ∧ m'.kernelBrkPage = m.kernelBrkPage ∧
      FreshPages .kernel (Finset.Ico cur (cur + n)) m m.ptRegion0 m' m'.ptRegion0 := by
  induction n generalizing cur m with
  | zero =>
      rw [Nat.add_zero, Finset.Ico_self]
      exact ⟨m, rfl, rfl, .start .kernel m m.ptRegion0⟩
  | succ n inductionHypothesis =>
      have here : cur < maxPtLen := by omega
      unfold growKernelHeap
      rcases allocated : m.allocFrame .kernel with _ | ⟨pfn, m₁⟩
      · rw [allocFrame_eq_none.mp allocated, Finset.card_empty] at enough
        omega
      · obtain ⟨free, rfl⟩ := allocFrame_eq_some allocated
        have used : FrameUsage.kernel ≠ .free := by decide
        have left := card_freeFrames_takeFrame used free
        have mapped : (m.takeFrame pfn .kernel).mapRegion0 cur pfn =
            { m.takeFrame pfn .kernel with
              ptRegion0 := Function.update m.ptRegion0 cur ⟨true, protReadWrite, pfn⟩ } :=
          if_pos here
        have first : FreshPages .kernel {cur} m m.ptRegion0
            ((m.takeFrame pfn .kernel).mapRegion0 cur pfn)
            ((m.takeFrame pfn .kernel).mapRegion0 cur pfn).ptRegion0 := by
          rw [mapped]
          exact .single free rfl rfl rfl
        have inside' : cur + 1 + n ≤ maxPtLen := by omega
        have enough' : n ≤ ((m.takeFrame pfn .kernel).mapRegion0 cur pfn).freeFrames.card := by
          rw [mapRegion0_freeFrames]
          omega
        obtain ⟨m', grown, brk, fresh⟩ := inductionHypothesis inside' enough'
        rw [mapRegion0_kernelBrkPage] at brk
        exact ⟨m', grown, brk, first.next used fresh⟩

/-! ### Loops that give pages back -/

/-- The pages `pages` are unmapped and the frames they name are free; the other pages, the other
frames and the contents of memory are as they were. -/
structure FreedPages (pages : Finset Nat) (m : Memory) (pt : PageTable) (m' : Memory)
    (pt' : PageTable) : Prop where
  unmapped : ∀ vpn ∈ pages, (pt' vpn).valid = false
  kept : ∀ vpn ∉ pages, pt' vpn = pt vpn
  freed : ∀ vpn ∈ pages, (pt vpn).pfn < m.nframes → m'.frameTable (pt vpn).pfn = .free
  others : ∀ pfn, (∀ vpn ∈ pages, (pt vpn).pfn ≠ pfn) → m'.frameTable pfn = m.frameTable pfn
  nframes : m'.nframes = m.nframes
  phys : m'.phys = m.phys

namespace FreedPages

theorem start (m : Memory) (pt : PageTable) : FreedPages ∅ m pt m pt where
  unmapped := fun _ member => absurd member (Finset.notMem_empty _)
  kept := fun _ _ => rfl
  freed := fun _ member => absurd member (Finset.notMem_empty _)
  others := fun _ _ => rfl
  nframes := rfl
  phys := rfl

/-- One page is unmapped and its frame freed. -/
theorem single {e : Pte} (invalid : e.valid = false) (frames : m'.nframes = m.nframes)
    (table : m'.frameTable = (m.freeFrame (pt vpn).pfn).frameTable)
    (contents : m'.phys = m.phys) :
    FreedPages {vpn} m pt m' (Function.update pt vpn e) where
  unmapped := by
    intro page member
    rw [Finset.mem_singleton.mp member, Function.update_self]
    exact invalid
  kept := by
    intro page outside
    exact Function.update_of_ne (fun same => outside (Finset.mem_singleton.mpr same)) ..
  freed := by
    intro page member inRange
    rw [Finset.mem_singleton.mp member] at inRange ⊢
    rw [table, freeFrame_frameTable, if_pos inRange, Function.update_self]
  others := by
    intro pfn different
    have ne := different vpn (Finset.mem_singleton_self vpn)
    rw [table, freeFrame_frameTable]
    split
    · exact Function.update_of_ne (Ne.symm ne) ..
    · rfl
  nframes := frames
  phys := contents

/-- Two loops over different pages, one after the other. -/
theorem trans (first : FreedPages pages m pt m₁ pt₁) (second : FreedPages others m₁ pt₁ m₂ pt₂)
    (apart : Disjoint pages others) : FreedPages (pages ∪ others) m pt m₂ pt₂ := by
  have right : ∀ vpn ∈ others, pt₁ vpn = pt vpn := fun vpn member =>
    first.kept vpn (Finset.disjoint_right.mp apart member)
  constructor
  case unmapped =>
    intro vpn member
    by_cases there : vpn ∈ others
    · exact second.unmapped vpn there
    · have here : vpn ∈ pages := (Finset.mem_union.mp member).resolve_right there
      rw [second.kept vpn there]
      exact first.unmapped vpn here
  case kept =>
    intro vpn outside
    rw [Finset.mem_union, not_or] at outside
    rw [second.kept vpn outside.2, first.kept vpn outside.1]
  case freed =>
    intro vpn member inRange
    by_cases again : ∃ other ∈ others, (pt₁ other).pfn = (pt vpn).pfn
    · obtain ⟨other, there, same⟩ := again
      rw [← same] at inRange ⊢
      rw [← first.nframes] at inRange
      exact second.freed other there inRange
    · simp only [not_exists, not_and] at again
      rw [second.others _ again]
      rcases Finset.mem_union.mp member with here | there
      · exact first.freed vpn here inRange
      · exact absurd (by rw [right vpn there]) (again vpn there)
  case others =>
    intro pfn different
    have elsewhere : ∀ vpn ∈ others, (pt₁ vpn).pfn ≠ pfn := by
      intro vpn there
      rw [right vpn there]
      exact different vpn (Finset.mem_union_right _ there)
    rw [second.others pfn elsewhere]
    exact first.others pfn fun vpn here => different vpn (Finset.mem_union_left _ here)
  case nframes => exact second.nframes.trans first.nframes
  case phys => exact second.phys.trans first.phys

end FreedPages

/-- Giving fresh pages back restores the usage of every frame. -/
theorem FreshPages.givenBack (fresh : FreshPages usage pages m pt m₁ pt₁)
    (freed : FreedPages pages m₁ pt₁ m₂ pt₂) : m₂.frameTable = m.frameTable := by
  ext pfn
  by_cases named : ∃ vpn ∈ pages, (pt₁ vpn).pfn = pfn
  · obtain ⟨vpn, member, rfl⟩ := named
    obtain ⟨inRange, unused⟩ := mem_freeFrames.mp (fresh.wasFree vpn member)
    rw [← fresh.nframes] at inRange
    rw [freed.freed vpn member inRange, unused]
  · simp only [not_exists, not_and] at named
    rw [freed.others pfn named, fresh.untaken pfn named]

/-- And the valid bits, if the pages were unmapped. -/
theorem FreshPages.unmappedBack (fresh : FreshPages usage pages m pt m₁ pt₁)
    (freed : FreedPages pages m₁ pt₁ m₂ pt₂)
    (gap : ∀ vpn ∈ pages, (pt vpn).valid = false) (vpn : Nat) :
    (pt₂ vpn).valid = (pt vpn).valid := by
  by_cases member : vpn ∈ pages
  · rw [freed.unmapped vpn member, gap vpn member]
  · rw [freed.kept vpn member, fresh.kept vpn member]

theorem Ico_next (low n : Nat) :
    Finset.Ico low (low + (n + 1)) = Finset.Ico low (low + n) ∪ {low + n} := by
  ext page
  rw [Finset.mem_union, Finset.mem_singleton, Finset.mem_Ico, Finset.mem_Ico]
  omega

theorem Ico_next_disjoint (low n : Nat) : Disjoint (Finset.Ico low (low + n)) {low + n} := by
  rw [Finset.disjoint_singleton_right, Finset.mem_Ico]
  omega

/-- The undo loop of `growStack`. -/
theorem undoGrowStack_freed (h : undoGrowStack targetVpn n m pt = (m', pt')) :
    FreedPages (Finset.Ico targetVpn (targetVpn + n)) m pt m' pt' := by
  induction n generalizing m' pt' with
  | zero =>
      cases h
      rw [Nat.add_zero, Finset.Ico_self]
      exact .start m pt
  | succ n inductionHypothesis =>
      rcases undone : undoGrowStack targetVpn n m pt with ⟨m₁, pt₁⟩
      simp only [undoGrowStack, undone] at h
      cases h
      rw [Ico_next]
      exact (inductionHypothesis undone).trans (.single rfl freeFrame_nframes rfl freeFrame_phys)
        (Ico_next_disjoint ..)

/-- When the frames run out `growStack` has given back all it took. -/
theorem growStackPages_rollsBack {i : Nat} {m₀ : Memory} {pt₀ : PageTable}
    (sofar : FreshPages .user (Finset.Ico targetVpn (targetVpn + i)) m₀ pt₀ m pt)
    (inside : targetVpn + i + n ≤ maxPtLen) (scarce : m.freeFrames.card < n) :
    ∃ m' pt', growStackPages targetVpn n i m pt = .ok (.kill, m', pt') ∧
      ∃ taken m₁ pt₁, FreshPages .user (Finset.Ico targetVpn (targetVpn + taken)) m₀ pt₀ m₁ pt₁ ∧
        taken < i + n ∧ FreedPages (Finset.Ico targetVpn (targetVpn + taken)) m₁ pt₁ m' pt' := by
  induction n generalizing i m pt with
  | zero => exact absurd scarce (Nat.not_lt_zero _)
  | succ n inductionHypothesis =>
      have here : targetVpn + i < maxPtLen := by omega
      unfold growStackPages
      rcases allocated : m.allocFrame .user with _ | ⟨pfn, m₁⟩
      · rcases undone : undoGrowStack targetVpn i m pt with ⟨m', pt'⟩
        simp only
        exact ⟨m', pt', rfl, i, m, pt, sofar, by omega, undoGrowStack_freed undone⟩
      · obtain ⟨free, rfl⟩ := allocFrame_eq_some allocated
        have used : FrameUsage.user ≠ .free := by decide
        have left := card_freeFrames_takeFrame used free
        have first : FreshPages .user {targetVpn + i} m pt (m.takeFrame pfn .user)
            (Function.update pt (targetVpn + i) ⟨true, protReadWrite, pfn⟩) :=
          .single free rfl rfl rfl
        have sofar' := sofar.trans used first (Ico_next_disjoint ..)
        rw [← Ico_next] at sofar'
        obtain ⟨m', pt', killed, taken, m₁, pt₁, fresh, fewer, freed⟩ :=
          inductionHypothesis sofar' (by omega) (by omega)
        simp only [tableIndex_natCast here, bind, Except.bind]
        exact ⟨m', pt', killed, taken, m₁, pt₁, fresh, by omega, freed⟩

/-- The shrinking loop of `SetKernelBrk` over pages that are all mapped. -/
theorem shrinkKernelHeap_freed {cur : Nat} (inside : cur + n ≤ maxPtLen)
    (mapped : ∀ vpn, cur ≤ vpn → vpn < cur + n → (m.ptRegion0 vpn).valid = true) :
    ∃ m', shrinkKernelHeap n (cur + n) m = (.success, m') ∧ m'.kernelBrkPage = m.kernelBrkPage ∧
      FreedPages (Finset.Ico cur (cur + n)) m m.ptRegion0 m' m'.ptRegion0 := by
  induction n generalizing m with
  | zero =>
      rw [Nat.add_zero, Finset.Ico_self]
      exact ⟨m, rfl, rfl, .start m m.ptRegion0⟩
  | succ n inductionHypothesis =>
      have here : cur + n < maxPtLen := by omega
      have valid : (m.ptRegion0 (cur + n)).valid = true := mapped _ (by omega) (by omega)
      obtain ⟨m₁, step⟩ : ∃ m₁, m₁ =
          (m.unmapRegion0 (cur + n)).freeFrame (m.ptRegion0 (cur + n)).pfn := ⟨_, rfl⟩
      have unmapped : m.unmapRegion0 (cur + n) =
          { m with ptRegion0 := Function.update m.ptRegion0 (cur + n) Pte.zero } := if_pos here
      have table : m₁.ptRegion0 = Function.update m.ptRegion0 (cur + n) Pte.zero := by
        rw [step, freeFrame_ptRegion0, unmapped]
      have first : FreedPages {cur + n} m m.ptRegion0 m₁ m₁.ptRegion0 := by
        rw [table]
        apply FreedPages.single rfl
        · rw [step, freeFrame_nframes, unmapped]
        · rw [step, freeFrame_frameTable, freeFrame_frameTable, unmapped]
        · rw [step, freeFrame_phys, unmapped]
      have mapped₁ : ∀ vpn, cur ≤ vpn → vpn < cur + n → (m₁.ptRegion0 vpn).valid = true := by
        intro vpn above below
        rw [table, Function.update_of_ne (Nat.ne_of_lt below)]
        exact mapped vpn above (by omega)
      obtain ⟨m', shrunk, brk, freed⟩ := inductionHypothesis (by omega) mapped₁
      refine ⟨m', ?_, ?_, ?_⟩
      · rw [← Nat.add_assoc, shrinkKernelHeap, Nat.add_sub_cancel, if_neg (not_not.mpr here),
          if_pos valid]
        rw [step] at shrunk
        exact shrunk
      · rw [brk, step, freeFrame_kernelBrkPage, unmapRegion0_kernelBrkPage]
      · rw [Ico_next, Finset.union_comm]
        exact first.trans freed (Ico_next_disjoint ..).symm

end Yalnix
