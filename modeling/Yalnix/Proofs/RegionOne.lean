/-
Module: Yalnix.Proofs.RegionOne
Purpose: What the page loops of Brk and growStack do to a region 1 table: which pages they map, and
  when they run out of frames.
Trusted boundary: none
Main exports: PageTable.unmapped, brkGrow_eq_ok, brkShrink_eq_ok, growStackPages_eq,
  growStackPages_status
-/
import Yalnix.Proofs.Frames
import Yalnix.Proofs.Loading

namespace Yalnix

open Memory

variable {m m' : Memory} {pt pt' : PageTable} {low high n vpn : Nat} {status : Status}

/-! ### Unmapped pages -/

/-- The invalid pages from `low` up to `high`. -/
def PageTable.unmapped (pt : PageTable) (low high : Nat) : Finset Nat :=
  (Finset.range maxPtLen).filter fun vpn => low ≤ vpn ∧ vpn < high ∧ (pt vpn).valid = false

theorem mem_unmapped : vpn ∈ pt.unmapped low high ↔
    vpn < maxPtLen ∧ low ≤ vpn ∧ vpn < high ∧ (pt vpn).valid = false := by
  simp [PageTable.unmapped]

theorem unmapped_self : pt.unmapped low low = ∅ := by
  apply Finset.eq_empty_of_forall_notMem
  intro vpn member
  obtain ⟨-, above, below, -⟩ := mem_unmapped.mp member
  exact absurd (Nat.lt_of_le_of_lt above below) (Nat.lt_irrefl low)

/-- The unmapped pages are read off the valid bits in the range. -/
theorem unmapped_congr (same : ∀ vpn, low ≤ vpn → vpn < high → (pt' vpn).valid = (pt vpn).valid) :
    pt'.unmapped low high = pt.unmapped low high := by
  ext vpn
  rw [mem_unmapped, mem_unmapped]
  constructor
  · rintro ⟨inside, above, below, invalid⟩
    exact ⟨inside, above, below, (same vpn above below).symm.trans invalid⟩
  · rintro ⟨inside, above, below, invalid⟩
    exact ⟨inside, above, below, (same vpn above below).trans invalid⟩

theorem unmapped_of_valid (valid : (pt low).valid = true) :
    pt.unmapped low high = pt.unmapped (low + 1) high := by
  ext vpn
  rw [mem_unmapped, mem_unmapped]
  constructor
  · rintro ⟨inside, above, below, invalid⟩
    refine ⟨inside, Nat.lt_of_le_of_ne above ?_, below, invalid⟩
    rintro rfl
    exact absurd (valid.symm.trans invalid) Bool.noConfusion
  · rintro ⟨inside, above, below, invalid⟩
    exact ⟨inside, Nat.le_of_succ_le above, below, invalid⟩

/-- An invalid page in front of a range is one more unmapped page. -/
theorem unmapped_of_invalid (inside : low < maxPtLen) (below : low < high)
    (invalid : (pt low).valid = false) :
    pt.unmapped low high = insert low (pt.unmapped (low + 1) high) := by
  ext vpn
  rw [Finset.mem_insert, mem_unmapped, mem_unmapped]
  constructor
  · rintro ⟨inside, above, below, invalid⟩
    rcases Nat.eq_or_lt_of_le above with same | above
    · exact Or.inl same.symm
    · exact Or.inr ⟨inside, above, below, invalid⟩
  · rintro (rfl | ⟨inside, above, below, invalid⟩)
    · exact ⟨inside, Nat.le_refl _, below, invalid⟩
    · exact ⟨inside, Nat.le_of_succ_le above, below, invalid⟩

theorem notMem_unmapped_succ : low ∉ pt.unmapped (low + 1) high := by
  intro member
  exact absurd (mem_unmapped.mp member).2.1 (Nat.not_succ_le_self low)

theorem card_unmapped_of_invalid (inside : low < maxPtLen) (below : low < high)
    (invalid : (pt low).valid = false) :
    (pt.unmapped low high).card = (pt.unmapped (low + 1) high).card + 1 := by
  rw [unmapped_of_invalid inside below invalid, Finset.card_insert_of_notMem notMem_unmapped_succ]

theorem unmapped_mono {low' high' : Nat} (below : low' ≤ low) (above : high ≤ high') :
    pt.unmapped low high ⊆ pt.unmapped low' high' := by
  intro vpn member
  obtain ⟨inside, fromLow, toHigh, invalid⟩ := mem_unmapped.mp member
  exact mem_unmapped.mpr
    ⟨inside, Nat.le_trans below fromLow, Nat.lt_of_lt_of_le toHigh above, invalid⟩

/-- A range with an unmapped page is not empty. -/
theorem lt_of_unmapped (gap : (pt.unmapped low high).Nonempty) :
    low < high ∧ low < maxPtLen := by
  obtain ⟨vpn, member⟩ := gap
  obtain ⟨inside, above, below, -⟩ := mem_unmapped.mp member
  exact ⟨Nat.lt_of_le_of_lt above below, Nat.lt_of_le_of_lt above inside⟩

/-! ### Brk -/

/-- The growing loop of `Brk` maps the unmapped pages of its range, or runs out of frames. -/
theorem brkGrow_eq_ok (h : brkGrow n vpn m pt = .ok (status, m', pt')) :
    (∀ other, other < vpn ∨ vpn + n ≤ other ∨ (pt other).valid = true → pt' other = pt other) ∧
      ((status = .success ∧ (pt.unmapped vpn (vpn + n)).card ≤ m.freeFrames.card ∧
          pt'.unmapped vpn (vpn + n) = ∅ ∧ (n = 0 ∨ vpn + n ≤ maxPtLen)) ∨
        status = .error ∧ m.freeFrames.card < (pt.unmapped vpn (vpn + n)).card ∧
          (pt'.unmapped vpn (vpn + n)).Nonempty) := by
  induction n generalizing vpn m pt with
  | zero =>
      cases h
      refine ⟨fun _ _ => rfl, Or.inl ⟨rfl, ?_, unmapped_self, Or.inl rfl⟩⟩
      rw [Nat.add_zero, unmapped_self, Finset.card_empty]
      exact Nat.zero_le _
  | succ n inductionHypothesis =>
      simp only [brkGrow, bind_eq_ok] at h
      obtain ⟨i, index, h⟩ := h
      obtain ⟨position, inside⟩ := tableIndex_eq_ok index
      obtain rfl : vpn = i := Int.ofNat.inj position
      have next : vpn + (n + 1) = vpn + 1 + n := by omega
      rw [next]
      by_cases valid : (pt vpn).valid = true
      · rw [if_pos valid] at h
        obtain ⟨same, result⟩ := inductionHypothesis h
        have kept : pt' vpn = pt vpn := same vpn (Or.inr (Or.inr valid))
        have valid' : (pt' vpn).valid = true := by rw [kept, valid]
        rw [unmapped_of_valid valid, unmapped_of_valid valid']
        refine ⟨fun other outside => same other (outside.imp_left Nat.lt_succ_of_lt), ?_⟩
        rcases result with ⟨success, enough, mapped, range⟩ | failed
        · exact Or.inl ⟨success, enough, mapped, Or.inr (by omega)⟩
        · exact Or.inr failed
      · have invalid : (pt vpn).valid = false := Bool.eq_false_iff.mpr valid
        rw [if_neg valid] at h
        have count : (pt.unmapped vpn (vpn + 1 + n)).card =
            (pt.unmapped (vpn + 1) (vpn + 1 + n)).card + 1 :=
          card_unmapped_of_invalid inside (by omega) invalid
        rcases allocated : m.allocFrame .user with _ | ⟨pfn, m₁⟩
        · simp only [allocated] at h
          cases h
          refine ⟨fun _ _ => rfl, Or.inr ⟨rfl, ?_, ?_⟩⟩
          · rw [allocFrame_eq_none.mp allocated, Finset.card_empty, count]
            exact Nat.succ_pos _
          · exact ⟨vpn, mem_unmapped.mpr ⟨inside, Nat.le_refl _, by omega, invalid⟩⟩
        · simp only [allocated] at h
          obtain ⟨free, rfl⟩ := allocFrame_eq_some allocated
          have used : FrameUsage.user ≠ .free := by decide
          have left := card_freeFrames_takeFrame used free
          obtain ⟨same, result⟩ := inductionHypothesis h
          have kept : pt' vpn = ⟨true, protReadWrite, pfn⟩ := by
            rw [same vpn (Or.inl (Nat.lt_succ_self vpn)), Function.update_self]
          have valid' : (pt' vpn).valid = true := by rw [kept]
          have later : PageTable.unmapped (Function.update pt vpn ⟨true, protReadWrite, pfn⟩)
              (vpn + 1) (vpn + 1 + n) = pt.unmapped (vpn + 1) (vpn + 1 + n) := by
            apply unmapped_congr
            intro other above _
            rw [Function.update_of_ne (Nat.ne_of_gt above)]
          rw [later] at result
          rw [unmapped_of_valid valid', count]
          refine ⟨fun other outside => ?_, ?_⟩
          · have ne : other ≠ vpn := by
              rintro rfl
              rcases outside with before | after | valid'
              · exact absurd before (Nat.lt_irrefl other)
              · omega
              · exact valid valid'
            have reached : other < vpn + 1 ∨ vpn + 1 + n ≤ other ∨
                (Function.update pt vpn ⟨true, protReadWrite, pfn⟩ other).valid = true := by
              rw [Function.update_of_ne ne]
              exact outside.imp_left Nat.lt_succ_of_lt
            rw [same other reached, Function.update_of_ne ne]
          · rcases result with ⟨success, enough, mapped, range⟩ | ⟨failed, scarce, gap⟩
            · exact Or.inl ⟨success, by omega, mapped, Or.inr (by omega)⟩
            · exact Or.inr ⟨failed, by omega, gap⟩

/-- The growing loop leaves the table only after every unmapped page of its range got a frame. -/
theorem brkGrow_eq_error {stop : Stop} (h : brkGrow n vpn m pt = .error stop) :
    (pt.unmapped vpn (vpn + n)).card ≤ m.freeFrames.card := by
  induction n generalizing vpn m pt with
  | zero => cases h
  | succ n inductionHypothesis =>
      have next : vpn + (n + 1) = vpn + 1 + n := by omega
      rw [next]
      by_cases inside : vpn < maxPtLen
      · simp only [brkGrow, tableIndex_natCast inside, bind, Except.bind] at h
        by_cases valid : (pt vpn).valid = true
        · rw [if_pos valid] at h
          rw [unmapped_of_valid valid]
          exact inductionHypothesis h
        · have invalid : (pt vpn).valid = false := Bool.eq_false_iff.mpr valid
          rw [if_neg valid] at h
          rcases allocated : m.allocFrame .user with _ | ⟨pfn, m₁⟩
          · rw [allocated] at h
            cases h
          · rw [allocated] at h
            obtain ⟨free, rfl⟩ := allocFrame_eq_some allocated
            have used : FrameUsage.user ≠ .free := by decide
            have left := card_freeFrames_takeFrame used free
            have later : PageTable.unmapped (Function.update pt vpn ⟨true, protReadWrite, pfn⟩)
                (vpn + 1) (vpn + 1 + n) = pt.unmapped (vpn + 1) (vpn + 1 + n) := by
              apply unmapped_congr
              intro other above _
              rw [Function.update_of_ne (Nat.ne_of_gt above)]
            have enough := inductionHypothesis h
            rw [later] at enough
            rw [card_unmapped_of_invalid inside (by omega) invalid]
            omega
      · have beyond : pt.unmapped vpn (vpn + 1 + n) = ∅ := by
          apply Finset.eq_empty_of_forall_notMem
          intro other member
          obtain ⟨inTable, above, -, -⟩ := mem_unmapped.mp member
          exact inside (Nat.lt_of_le_of_lt above inTable)
        rw [beyond, Finset.card_empty]
        exact Nat.zero_le _

/-- The shrinking loop never comes back from a page that region 0 has mapped. -/
theorem brkShrink_stuck {targetVpn fuel page vpn' : Nat}
    (mapped : (m.ptRegion0 page).valid = true) (above : targetVpn < page) (below : page ≤ vpn) :
    brkShrink targetVpn fuel vpn m pt ≠ .ok (vpn', m', pt') := by
  induction fuel generalizing vpn m pt with
  | zero =>
      unfold brkShrink
      rw [if_neg (by omega)]
      exact fun h => by cases h
  | succ fuel inductionHypothesis =>
      unfold brkShrink
      rw [if_neg (by omega)]
      intro h
      simp only [bind_eq_ok] at h
      obtain ⟨i, index, h⟩ := h
      obtain rfl : vpn = i := Int.ofNat.inj (tableIndex_eq_ok index).1
      by_cases here : (m.ptRegion0 vpn).valid = true
      · rw [if_pos here] at h
        refine inductionHypothesis ?_ (by omega) h
        rw [freeFrame_ptRegion0]
        exact mapped
      · rw [if_neg here] at h
        have ne : page ≠ vpn := by
          rintro rfl
          exact here mapped
        exact inductionHypothesis mapped (by omega) h

/-- When the shrinking loop comes back it has moved down to its target and freed nothing. -/
theorem brkShrink_eq_ok {targetVpn fuel vpn' : Nat} (start : targetVpn ≤ vpn)
    (h : brkShrink targetVpn fuel vpn m pt = .ok (vpn', m', pt')) :
    vpn' = targetVpn ∧ m' = m ∧ pt' = pt := by
  induction fuel generalizing vpn with
  | zero =>
      unfold brkShrink at h
      split at h
      · cases h
        exact ⟨by omega, rfl, rfl⟩
      · cases h
  | succ fuel inductionHypothesis =>
      have returned := h
      unfold brkShrink at h
      split at h
      · cases h
        exact ⟨by omega, rfl, rfl⟩
      · simp only [bind_eq_ok] at h
        obtain ⟨i, index, h⟩ := h
        obtain rfl : vpn = i := Int.ofNat.inj (tableIndex_eq_ok index).1
        by_cases here : (m.ptRegion0 vpn).valid = true
        · exact absurd returned (brkShrink_stuck here (by omega) (Nat.le_refl vpn))
        · rw [if_neg here] at h
          exact inductionHypothesis (by omega) h

/-! ### growStack -/

theorem undoGrowStack_eq {targetVpn : Nat} (h : undoGrowStack targetVpn n m pt = (m', pt'))
    (outside : ¬ (targetVpn ≤ vpn ∧ vpn < targetVpn + n)) : pt' vpn = pt vpn := by
  induction n generalizing m' pt' with
  | zero =>
      cases h
      rfl
  | succ n inductionHypothesis =>
      cases h
      have ne : vpn ≠ targetVpn + n := by omega
      rw [PageTable.invalidate, Function.update_of_ne ne]
      exact inductionHypothesis rfl (by omega)

/-- `growStack` touches the pages from its target on, as far as there are frames. -/
theorem growStackPages_eq {targetVpn i : Nat}
    (h : growStackPages targetVpn n i m pt = .ok (status, m', pt'))
    (outside : ¬ (targetVpn ≤ vpn ∧ vpn < targetVpn + (i + min n m.freeFrames.card))) :
    pt' vpn = pt vpn := by
  induction n generalizing i m pt with
  | zero =>
      cases h
      rfl
  | succ n inductionHypothesis =>
      unfold growStackPages at h
      rcases allocated : m.allocFrame .user with _ | ⟨pfn, m₁⟩
      · simp only [allocated] at h
        cases h
        exact undoGrowStack_eq rfl (by omega)
      · simp only [allocated, bind_eq_ok] at h
        obtain ⟨page, index, h⟩ := h
        obtain ⟨position, -⟩ := tableIndex_eq_ok index
        obtain ⟨free, rfl⟩ := allocFrame_eq_some allocated
        have used : FrameUsage.user ≠ .free := by decide
        have left := card_freeFrames_takeFrame used free
        rw [inductionHypothesis h (by omega)]
        exact Function.update_of_ne (by omega) ..

/-- The undo loop leaves the pages it visits invalid. -/
theorem undoGrowStack_valid {targetVpn : Nat} (h : undoGrowStack targetVpn n m pt = (m', pt'))
    (valid : (pt' vpn).valid = true) :
    (pt vpn).valid = true ∧ ¬ (targetVpn ≤ vpn ∧ vpn < targetVpn + n) := by
  induction n generalizing m' pt' with
  | zero =>
      cases h
      exact ⟨valid, by omega⟩
  | succ n inductionHypothesis =>
      cases h
      obtain ⟨before, other⟩ := invalidate_valid.mp valid
      obtain ⟨mapped, outside⟩ := inductionHypothesis rfl before
      exact ⟨mapped, by omega⟩

/-- `growStack` maps all its pages, or gives up and leaves none of them mapped that it mapped. -/
theorem growStackPages_status {targetVpn i : Nat}
    (h : growStackPages targetVpn n i m pt = .ok (status, m', pt')) :
    (status = .success ∧ n ≤ m.freeFrames.card ∧
        (∀ vpn, vpn < targetVpn + i → pt' vpn = pt vpn) ∧
        ∀ vpn, targetVpn + i ≤ vpn → vpn < targetVpn + i + n → (pt' vpn).valid = true) ∨
      (status = .kill ∧ m.freeFrames.card < n ∧ ∀ vpn, (pt' vpn).valid = true →
        (pt vpn).valid = true ∧ ¬ (targetVpn ≤ vpn ∧ vpn < targetVpn + i)) := by
  induction n generalizing i m pt with
  | zero =>
      cases h
      exact Or.inl ⟨rfl, Nat.zero_le _, fun _ _ => rfl, fun vpn above below => by omega⟩
  | succ n inductionHypothesis =>
      unfold growStackPages at h
      rcases allocated : m.allocFrame .user with _ | ⟨pfn, m₁⟩
      · simp only [allocated] at h
        cases h
        refine Or.inr ⟨rfl, ?_, fun vpn valid => undoGrowStack_valid rfl valid⟩
        rw [allocFrame_eq_none.mp allocated, Finset.card_empty]
        exact Nat.succ_pos n
      · simp only [allocated, bind_eq_ok] at h
        obtain ⟨page, index, h⟩ := h
        obtain ⟨position, -⟩ := tableIndex_eq_ok index
        obtain rfl : targetVpn + i = page := Int.ofNat.inj position
        obtain ⟨free, rfl⟩ := allocFrame_eq_some allocated
        have used : FrameUsage.user ≠ .free := by decide
        have left := card_freeFrames_takeFrame used free
        rcases inductionHypothesis h with ⟨success, enough, same, mapped⟩ | ⟨killed, scarce, kept⟩
        · refine Or.inl ⟨success, by omega, fun vpn below => ?_, fun vpn above below => ?_⟩
          · rw [same vpn (by omega), Function.update_of_ne (Nat.ne_of_lt below)]
          · rcases Nat.eq_or_lt_of_le above with rfl | above
            · rw [same (targetVpn + i) (by omega), Function.update_self]
            · exact mapped vpn above (by omega)
        · refine Or.inr ⟨killed, by omega, fun vpn valid => ?_⟩
          obtain ⟨valid', outside⟩ := kept vpn valid
          have ne : vpn ≠ targetVpn + i := by omega
          rw [Function.update_of_ne ne] at valid'
          exact ⟨valid', by omega⟩

end Yalnix
