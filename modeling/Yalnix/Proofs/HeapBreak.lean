/-
Module: Yalnix.Proofs.HeapBreak
Purpose: What Brk does to the heap of the running process: growing it, growing it without frames,
  shrinking it, and the page numbers it indexes its tables with on the way.
Trusted boundary: none
Main exports: brkGrow_exhausted, brkShrink_returns_iff, brk_grows_in_steps, brk_failure_atomic_iff,
  brk_contained_iff, brk_shrinks_iff
-/
import Yalnix.Proofs.FreshPages
import Yalnix.Proofs.FailedCalls

namespace Yalnix

open Kernel Memory

variable {env : Env} {s s' : Kernel} {a addr : Word} {m m' : Memory} {pt pt' : PageTable}
  {c c' : PCB} {n n' vpn vpn' fuel targetVpn : Nat} {status : Status} {stop : Stop}

/-! ### The growing loop -/

/-- Two ranges one after the other. -/
theorem brkGrow_add (n n' vpn : Nat) (m : Memory) (pt : PageTable) :
    brkGrow (n + n') vpn m pt = (do
      let (status, m, pt) ← brkGrow n vpn m pt
      if status = .error then return (.error, m, pt)
      else brkGrow n' (vpn + n) m pt) := by
  induction n generalizing vpn m pt with
  | zero =>
      rw [Nat.zero_add, Nat.add_zero]
      rfl
  | succ n inductionHypothesis =>
      rw [Nat.add_right_comm n 1 n', brkGrow, brkGrow]
      rcases tableIndex (vpn : Int) with stop | i
      · rfl
      · simp only [bind, Except.bind]
        by_cases valid : (pt i).valid = true
        · rw [if_pos valid, if_pos valid, inductionHypothesis, Nat.add_right_comm vpn 1 n]
          rfl
        · rw [if_neg valid, if_neg valid]
          rcases m.allocFrame .user with _ | ⟨pfn, m₁⟩
          · rfl
          · simp only
            rw [inductionHypothesis, Nat.add_right_comm vpn 1 n]
            rfl

/-- The loop gives up only when no frame is left. -/
theorem brkGrow_exhausted (h : brkGrow n vpn m pt = .ok (.error, m', pt')) :
    m'.freeFrames = ∅ := by
  induction n generalizing vpn m pt with
  | zero => cases h
  | succ n inductionHypothesis =>
      simp only [brkGrow, bind_eq_ok] at h
      obtain ⟨i, -, h⟩ := h
      by_cases valid : (pt i).valid = true
      · rw [if_pos valid] at h
        exact inductionHypothesis h
      · rw [if_neg valid] at h
        rcases allocated : m.allocFrame .user with _ | ⟨pfn, m₁⟩
        · rw [allocated] at h
          cases h
          exact allocFrame_eq_none.mp allocated
        · rw [allocated] at h
          exact inductionHypothesis h

/-- Without a free frame the loop changes nothing. -/
theorem brkGrow_without_frames (none : m.freeFrames = ∅)
    (h : brkGrow n vpn m pt = .ok (status, m', pt')) : m' = m ∧ pt' = pt := by
  induction n generalizing vpn with
  | zero =>
      cases h
      exact ⟨rfl, rfl⟩
  | succ n inductionHypothesis =>
      simp only [brkGrow, bind_eq_ok] at h
      obtain ⟨i, -, h⟩ := h
      by_cases valid : (pt i).valid = true
      · rw [if_pos valid] at h
        exact inductionHypothesis h
      · rw [if_neg valid, allocFrame_eq_none.mpr none] at h
        cases h
        exact ⟨rfl, rfl⟩

/-- The loop stops the kernel by leaving the table. -/
theorem brkGrow_stops (h : brkGrow n vpn m pt = .error stop) : ∃ i, stop = .tableIndex i := by
  induction n generalizing vpn m pt with
  | zero => cases h
  | succ n inductionHypothesis =>
      rw [brkGrow] at h
      by_cases inside : vpn < maxPtLen
      · simp only [tableIndex_natCast inside, bind, Except.bind] at h
        by_cases valid : (pt vpn).valid = true
        · rw [if_pos valid] at h
          exact inductionHypothesis h
        · rw [if_neg valid] at h
          rcases allocated : m.allocFrame .user with _ | ⟨pfn, m₁⟩
          · rw [allocated] at h
            cases h
          · rw [allocated] at h
            exact inductionHypothesis h
      · have outside : ¬ ((0 : Int) ≤ vpn ∧ (vpn : Int) < maxPtLen) := by
          simp only [maxPtLen] at inside ⊢
          omega
        rw [tableIndex, if_neg outside] at h
        cases h
        exact ⟨_, rfl⟩

/-- The growing loop stays in its table exactly if its range does, or it runs out of frames
first. -/
theorem brkGrow_inside_iff (some : 0 < n) : (∃ grown, brkGrow n vpn m pt = .ok grown) ↔
    vpn + n ≤ maxPtLen ∨ m.freeFrames.card < (pt.unmapped vpn (vpn + n)).card := by
  constructor
  · rintro ⟨⟨status, m', pt'⟩, grown⟩
    rcases (brkGrow_eq_ok grown).2 with ⟨-, -, -, none | inside⟩ | ⟨-, scarce, -⟩
    · omega
    · exact Or.inl inside
    · exact Or.inr scarce
  · intro reach
    rcases outcome : brkGrow n vpn m pt with stop | grown
    · have enough := brkGrow_eq_error outcome
      rcases reach with inside | scarce
      · obtain ⟨m', pt', grown, -⟩ := brkGrow_fresh inside enough
        rw [grown] at outcome
        cases outcome
      · omega
    · exact ⟨grown, rfl⟩

/-- A shrinking loop that starts at its target is over. -/
theorem brkShrink_reached (reached : vpn ≤ targetVpn) :
    brkShrink targetVpn fuel vpn m pt = .ok (vpn, m, pt) := by
  unfold brkShrink
  exact if_pos reached

/-! ### Growing in steps -/

/-- A page address is the address of its page. -/
theorem regionAddress_pageOf {w : Word} (aligned : w.toNat % 0x2000 = 0) :
    regionAddress (pageOf w) = w := by
  have bound := w.isLt
  apply BitVec.eq_of_toNat_eq
  simp only [regionAddress, pageOf, BitVec.toNat_ofNat, BitVec.toNat_sub, pageSize, vmem1Base]
  omega

theorem heapPage_moved {w : Word} :
    PCB.heapPage { c with ptbr := pt, userHeapEndVaddr := upToPage w } = pageOf (upToPage w) := by
  rw [PCB.heapPage, upToPage_of_aligned (upToPage_aligned w)]

/-- `Brk` after its test for `NULL`. -/
theorem brk_some (live : s.heap s.currentProcess = some c) (some : addr ≠ 0) :
    s.brk env addr = (do
      let (status, m, pt) ←
        brkGrow (pageOf (upToPage addr) - c.heapPage) c.heapPage s.mem c.ptbr
      if status = .error then
        return (.error, (s.setMem m).setPcb s.currentProcess { c with ptbr := pt })
      else
        let (vpn, m, pt) ← brkShrink (pageOf (upToPage addr)) env.brkFuel
          (max c.heapPage (pageOf (upToPage addr))) m pt
        return (.success, (s.setMem m).setPcb s.currentProcess
          { c with ptbr := pt, userHeapEndVaddr := regionAddress vpn })) := by
  have found : s.deref s.currentProcess = .ok c := deref_eq_ok.mpr live
  rw [brk, if_neg some]
  simp only [found, bind, Except.bind]
  rfl

/-- A heap that could be grown ends at its target. -/
theorem brk_grown (live : s.heap s.currentProcess = some c) (some : addr ≠ 0)
    (higher : c.heapPage ≤ pageOf (upToPage addr))
    (grew : brkGrow (pageOf (upToPage addr) - c.heapPage) c.heapPage s.mem c.ptbr =
      .ok (.success, m, pt)) :
    s.brk env addr = .ok (.success, (s.setMem m).setPcb s.currentProcess
      { c with ptbr := pt, userHeapEndVaddr := upToPage addr }) := by
  rw [brk_some live some, grew, Nat.max_eq_right higher]
  simp only [bind, Except.bind, reduceCtorEq, if_false, brkShrink_reached (Nat.le_refl _),
    regionAddress_pageOf (upToPage_aligned addr)]
  rfl

theorem brk_status (h : s.brk env addr = .ok (status, s')) :
    status = .error ∨ status = .success := by
  rcases brk_eq_ok h with ⟨rfl, -⟩ | ⟨given, c, m, pt, live, -⟩
  · rw [brk, if_pos rfl] at h
    cases h
    exact Or.inl rfl
  · rw [brk_some live given] at h
    simp only [bind_eq_ok] at h
    obtain ⟨⟨grown, m, pt⟩, -, h⟩ := h
    by_cases failed : grown = .error
    · rw [if_pos failed] at h
      cases h
      exact Or.inl rfl
    · rw [if_neg failed] at h
      simp only [bind_eq_ok] at h
      obtain ⟨shrunk, -, h⟩ := h
      cases h
      exact Or.inr rfl

/-- Pages of region 1 addresses are ordered like the addresses. -/
theorem pageOf_upToPage_mono {v w : Word} (low : vmem1Base ≤ (upToPage v).toNat)
    (order : v.toNat ≤ w.toNat) (high : w.toNat ≤ vmem1Limit) :
    vmem1Base ≤ (upToPage w).toNat ∧ pageOf (upToPage v) ≤ pageOf (upToPage w) ∧
      pageOf (upToPage w) ≤ maxPtLen := by
  simp only [vmem1Limit] at high
  have roundV := upToPage_toNat (n := v) (by omega)
  have roundW := upToPage_toNat (n := w) (by omega)
  have lowW : vmem1Base ≤ (upToPage w).toNat := by
    rw [roundV] at low
    rw [roundW]
    have further : v.toNat + 0x1fff ≤ w.toNat + 0x1fff := Nat.add_le_add_right order _
    exact Nat.le_trans low (Nat.mul_le_mul_right _ (Nat.div_le_div_right further))
  refine ⟨lowW, ?_, ?_⟩
  · rw [pageOf_eq low, pageOf_eq lowW, roundV, roundW]
    simp only [vmem1Base]
    omega
  · rw [pageOf_eq lowW, roundW]
    simp only [vmem1Base, maxPtLen]
    omega

/-- Growing the heap to `a` and then to `b` is growing it to `b`: every page of the range ends up
mapped, those that were not on frames of their own, and nothing else changes. -/
def BrkGrowsInSteps (env : Env) (s : Kernel) (c : PCB) (a b : Word) : Prop :=
  ∃ s₁ s' c', s.brk env a = .ok (.success, s₁) ∧ s₁.brk env b = .ok (.success, s') ∧
    s.brk env b = .ok (.success, s') ∧ s'.heap s.currentProcess = some c' ∧
    (∀ vpn, c.heapPage ≤ vpn → vpn < pageOf (upToPage b) → (c'.ptbr vpn).valid = true) ∧
    FreshPages .user (c.ptbr.unmapped c.heapPage (pageOf (upToPage b))) s.mem c.ptbr s'.mem c'.ptbr

/-- Every heap in region 1, with any holes, and every two addresses. -/
theorem brk_grows_in_steps {b : Word} (live : s.heap s.currentProcess = some c)
    (region : vmem1Base ≤ (upToPage c.userHeapEndVaddr).toNat)
    (above : c.userHeapEndVaddr.toNat ≤ a.toNat) (inRegion : vmem1Base ≤ a.toNat)
    (order : a.toNat ≤ b.toNat) (limit : b.toNat ≤ vmem1Limit)
    (enough : (c.ptbr.unmapped c.heapPage (pageOf (upToPage b))).card ≤ s.mem.freeFrames.card) :
    BrkGrowsInSteps env s c a b := by
  obtain ⟨lowA, first, insideA⟩ :=
    pageOf_upToPage_mono region above (Nat.le_trans order limit)
  obtain ⟨lowB, second, insideB⟩ := pageOf_upToPage_mono lowA order limit
  have someA : a ≠ 0 := by
    rintro rfl
    simp [vmem1Base] at inRegion
  have someB : b ≠ 0 := by
    rintro rfl
    simp only [vmem1Base] at inRegion
    simp at order
    omega
  have higher : c.heapPage ≤ pageOf (upToPage b) := Nat.le_trans first second
  obtain ⟨m', pt', grew, fresh⟩ :
      ∃ m' pt', brkGrow (pageOf (upToPage b) - c.heapPage) c.heapPage s.mem c.ptbr =
        .ok (.success, m', pt') ∧
      FreshPages .user (c.ptbr.unmapped c.heapPage (pageOf (upToPage b))) s.mem c.ptbr m' pt' := by
    have grown := @brkGrow_fresh s.mem c.ptbr (pageOf (upToPage b) - c.heapPage) c.heapPage
    rw [Nat.add_sub_cancel' higher] at grown
    exact grown insideB enough
  -- the loop up to `b` passes through the state that the loop up to `a` ends in
  have split : pageOf (upToPage b) - c.heapPage =
      (pageOf (upToPage a) - c.heapPage) + (pageOf (upToPage b) - pageOf (upToPage a)) := by
    have first' : c.heapPage ≤ pageOf (upToPage a) := first
    omega
  have whole := grew
  rw [split, brkGrow_add, bind_eq_ok] at whole
  obtain ⟨⟨status, m₁, pt₁⟩, grewA, grewB⟩ := whole
  have through : pageOf (upToPage a) = c.heapPage + (pageOf (upToPage a) - c.heapPage) :=
    (Nat.add_sub_cancel' first).symm
  rcases (brkGrow_eq_ok grewA).2 with ⟨rfl, -⟩ | ⟨rfl, -⟩
  case inr =>
    simp only [if_true] at grewB
    cases grewB
  simp only [reduceCtorEq, if_false] at grewB
  rw [← through] at grewB
  obtain ⟨c₁, isMoved⟩ : ∃ c₁ : PCB, c₁ =
      { c with ptbr := pt₁, userHeapEndVaddr := upToPage a } := ⟨_, rfl⟩
  have moved : c₁.heapPage = pageOf (upToPage a) := by
    rw [isMoved]
    exact heapPage_moved
  obtain ⟨s₁, isStep⟩ : ∃ s₁, s₁ = (s.setMem m₁).setPcb s.currentProcess c₁ := ⟨_, rfl⟩
  have toA : s.brk env a = .ok (.success, s₁) := by
    rw [isStep, isMoved]
    exact brk_grown live someA first grewA
  have live₁ : s₁.heap s₁.currentProcess = some c₁ := by
    rw [isStep]
    exact Function.update_self ..
  have toB : s₁.brk env b = .ok (.success, (s₁.setMem m').setPcb s₁.currentProcess
      { c₁ with ptbr := pt', userHeapEndVaddr := upToPage b }) := by
    apply brk_grown live₁ someB (by rw [moved]; exact second)
    rw [moved, isStep, isMoved]
    exact grewB
  have same : (s₁.setMem m').setPcb s₁.currentProcess
        { c₁ with ptbr := pt', userHeapEndVaddr := upToPage b } =
      (s.setMem m').setPcb s.currentProcess
        { c with ptbr := pt', userHeapEndVaddr := upToPage b } := by
    rw [isStep, isMoved]
    simp only [setPcb, setMem, Function.update_idem]
  rw [same] at toB
  refine ⟨s₁, _, _, toA, toB, brk_grown live someB higher grew, Function.update_self .., ?_, fresh⟩
  intro vpn low high
  apply fresh.valid_iff.mpr
  by_cases valid : (c.ptbr vpn).valid = true
  · exact Or.inr valid
  · have inTable : vpn < maxPtLen := Nat.lt_of_lt_of_le high insideB
    exact Or.inl (mem_unmapped.mpr ⟨inTable, low, high, Bool.eq_false_iff.mpr valid⟩)

/-- Init grows its heap by two pages in two steps. -/
theorem brk_grows_in_steps_sample : ∃ (s s₁ s' : Kernel) (c' : PCB),
    s.brk sampleEnv 0x104000 = .ok (.success, s₁) ∧ s₁.brk sampleEnv 0x107001 = .ok (.success, s') ∧
      s.brk sampleEnv 0x107001 = .ok (.success, s') ∧ s'.heap s.currentProcess = some c' ∧
      (c'.ptbr 3).valid = true := by
  have answer : runs sampleEnv sampleBoot (fun _ _ => true) [.tick, .resume]
      (fun s => (s.heap s.currentProcess).any fun b => decide (b.userHeapEndVaddr = 0x102000 ∧
        (b.ptbr.unmapped b.heapPage (pageOf (upToPage 0x107001))).card ≤
          s.mem.freeFrames.card)) = .ok true := by
    decide +kernel
  obtain ⟨boot, s, -, -, known⟩ := runs_sound (fun _ _ => True) (fun _ _ _ => trivial) answer
  obtain ⟨b, live, known⟩ := (Option.any_eq_true ..).mp known
  obtain ⟨heapEnd, enough⟩ := of_decide_eq_true known
  have heapPage : b.heapPage = 1 := by
    rw [PCB.heapPage, heapEnd]
    decide
  have region : vmem1Base ≤ (upToPage b.userHeapEndVaddr).toNat := by
    rw [heapEnd]
    decide
  have above : b.userHeapEndVaddr.toNat ≤ (0x104000 : Word).toNat := by
    rw [heapEnd]
    decide
  obtain ⟨s₁, s', c', toA, toB, whole, live', mapped, -⟩ :=
    @brk_grows_in_steps sampleEnv s 0x104000 b 0x107001 live region above
      (by decide) (by decide) (by decide) enough
  refine ⟨s, s₁, s', c', toA, toB, whole, live', mapped 3 ?_ (by decide)⟩
  rw [heapPage]
  decide

/-- From a heap end in region 0 the page of the heap wraps around, and a larger address counts as a
smaller heap. -/
theorem brk_from_region0 : ¬ ∀ env (s : Kernel) c (a b : Word),
    s.heap s.currentProcess = some c → c.userHeapEndVaddr.toNat ≤ a.toNat →
    vmem1Base ≤ a.toNat → a.toNat ≤ b.toNat → b.toNat ≤ vmem1Limit →
    (c.ptbr.unmapped c.heapPage (pageOf (upToPage b))).card ≤ s.mem.freeFrames.card →
    BrkGrowsInSteps env s c a b := by
  intro grows
  have answer : runs sampleEnv sampleBoot (fun _ _ => true) [.tick, .resume]
      (fun s => (s.heap s.currentProcess).any fun b => decide (
        ((s.setPcb s.currentProcess { b with userHeapEndVaddr := 0x2000 }).brk
          sampleEnv 0x102000).toBool = false)) = .ok true := by
    decide +kernel
  obtain ⟨boot, s, -, -, known⟩ := runs_sound (fun _ _ => True) (fun _ _ _ => trivial) answer
  obtain ⟨b, -, known⟩ := (Option.any_eq_true ..).mp known
  have stopped := of_decide_eq_true known
  obtain ⟨c, isLow⟩ : ∃ c : PCB, c = { b with userHeapEndVaddr := 0x2000 } := ⟨_, rfl⟩
  rw [← isLow] at stopped
  have heapEnd : c.userHeapEndVaddr = 0x2000 := by rw [isLow]
  have live : (s.setPcb s.currentProcess c).heap s.currentProcess = some c :=
    Function.update_self ..
  have heapPage : pageOf (upToPage 0x102000) ≤ c.heapPage := by
    rw [PCB.heapPage, heapEnd]
    decide
  have none : c.ptbr.unmapped c.heapPage (pageOf (upToPage 0x102000)) = ∅ := by
    apply Finset.eq_empty_of_forall_notMem
    intro vpn member
    obtain ⟨-, low, high, -⟩ := mem_unmapped.mp member
    exact absurd (Nat.lt_of_le_of_lt low high) (Nat.not_lt.mpr heapPage)
  obtain ⟨s₁, s', c', toA, -⟩ := grows sampleEnv (s.setPcb s.currentProcess c) c 0x102000 0x102000
    live (by rw [heapEnd]; decide) (by decide) (Nat.le_refl _) (by decide)
    (by rw [none]; exact Nat.zero_le _)
  rw [toA] at stopped
  cases stopped

/-! ### Growing without frames -/

/-- `Brk` answers `ERROR` for `NULL`, and with the pages mapped so far when the frames run out. -/
theorem brk_error_eq (live : s.heap s.currentProcess = some c)
    (h : s.brk env addr = .ok (.error, s')) :
    addr = 0 ∧ s' = s ∨ addr ≠ 0 ∧ ∃ m pt,
      brkGrow (pageOf (upToPage addr) - c.heapPage) c.heapPage s.mem c.ptbr = .ok (.error, m, pt) ∧
      s' = (s.setMem m).setPcb s.currentProcess { c with ptbr := pt } := by
  by_cases null : addr = 0
  · rw [brk, if_pos null] at h
    cases h
    exact Or.inl ⟨null, rfl⟩
  · rw [brk_some live null, bind_eq_ok] at h
    obtain ⟨⟨status, m, pt⟩, grew, h⟩ := h
    refine Or.inr ⟨null, m, pt, ?_⟩
    rcases (brkGrow_eq_ok grew).2 with ⟨rfl, -⟩ | ⟨rfl, -⟩
    · simp only [reduceCtorEq, if_false, bind_eq_ok, pure_eq_ok] at h
      obtain ⟨shrunk, -, h⟩ := h
      cases h
    · simp only [if_true] at h
      cases h
      exact ⟨grew, rfl⟩

/-- Without a free frame a growth that needs one is refused. -/
theorem brk_without_frames (live : s.heap s.currentProcess = some c)
    (none : s.mem.freeFrames = ∅)
    (needs : (c.ptbr.unmapped c.heapPage (pageOf (upToPage addr))).Nonempty) :
    s.brk env addr = .ok (.error, s) := by
  have short : s.mem.freeFrames.card <
      (c.ptbr.unmapped c.heapPage (pageOf (upToPage addr))).card := by
    rw [none, Finset.card_empty]
    exact Finset.card_pos.mpr needs
  obtain ⟨s', failed⟩ : ∃ s', s.brk env addr = .ok (.error, s') :=
    (brk_fails_iff live).mpr (Or.inr short)
  rcases brk_error_eq live failed with ⟨-, rfl⟩ | ⟨-, m, pt, grew, rfl⟩
  · exact failed
  · obtain ⟨rfl, rfl⟩ := brkGrow_without_frames none grew
    have same : (s.setMem s.mem).setPcb s.currentProcess c = s := by
      rw [setPcb, setMem, ← live, Function.update_eq_self]
    rw [same] at failed
    exact failed

/-- The memory of a growth that failed has no free frame. -/
theorem brk_exhausted (live : s.heap s.currentProcess = some c) (some : addr ≠ 0)
    (h : s.brk env addr = .ok (.error, s')) : s'.mem.freeFrames = ∅ := by
  rcases brk_error_eq live h with ⟨null, -⟩ | ⟨-, m, pt, grew, rfl⟩
  · exact absurd null some
  · exact brkGrow_exhausted grew

theorem brk_error_nframes (live : s.heap s.currentProcess = some c)
    (h : s.brk env addr = .ok (.error, s')) : s'.mem.nframes = s.mem.nframes := by
  rcases brk_error_eq live h with ⟨-, rfl⟩ | ⟨-, m, pt, grew, rfl⟩
  · rfl
  · obtain ⟨pages, -, fresh⟩ := brkGrow_pages grew
    exact fresh.nframes

/-- `Brk(addr)` fails and leaves the page table, the frames and the heap end as they were. -/
def BrkFailsAtomically (env : Env) (s : Kernel) (c : PCB) (addr : Word) : Prop :=
  ∃ s' c', s.brk env addr = .ok (.error, s') ∧ s'.heap s.currentProcess = some c' ∧
    (∀ vpn < maxPtLen, c'.ptbr vpn = c.ptbr vpn) ∧
    s'.mem.frameTable = s.mem.frameTable ∧ s'.mem.freeNframes = s.mem.freeNframes ∧
    c'.userHeapEndVaddr = c.userHeapEndVaddr

/-- `Brk` fails and leaves everything as it was exactly if its argument is `NULL`, or if there is a
page to map and no frame at all, so that not even the first page can be mapped. -/
theorem brk_failure_atomic_iff (live : s.heap s.currentProcess = some c) :
    BrkFailsAtomically env s c addr ↔ addr = 0 ∨ s.mem.freeFrames = ∅ ∧
      (c.ptbr.unmapped c.heapPage (pageOf (upToPage addr))).Nonempty := by
  constructor
  · rintro ⟨s', c', failed, -, -, usages, -⟩
    have refused : ∃ s', s.brk env addr = .ok (.error, s') := ⟨s', failed⟩
    rcases (brk_fails_iff live).mp refused with null | short
    · exact Or.inl null
    · by_cases null : addr = 0
      · exact Or.inl null
      · have exhausted := brk_exhausted live null failed
        rw [freeFrames_congr (brk_error_nframes live failed) usages] at exhausted
        exact Or.inr ⟨exhausted, Finset.card_pos.mp (Nat.lt_of_le_of_lt (Nat.zero_le _) short)⟩
  · intro refused
    have same : s.brk env addr = .ok (.error, s) := by
      rcases refused with rfl | ⟨none, needs⟩
      · exact if_pos rfl
      · exact brk_without_frames live none needs
    exact ⟨s, c, same, live, fun _ _ => rfl, rfl, rfl, rfl⟩

/-- Init on the tight machine takes the last two frames, and asks for another page. -/
theorem brk_failure_atomic_full : ∃ (s : Kernel) (c : PCB),
    s.heap s.currentProcess = some c ∧ BrkFailsAtomically sampleEnv s c 0x10a000 := by
  have answer : runs sampleEnv tightBoot (fun _ _ => true)
      [.tick, .resume, .call yalnixBrk 0x108000 0 0]
      (fun s => (s.heap s.currentProcess).any fun b => decide (s.mem.freeFrames = ∅ ∧
        (b.ptbr.unmapped b.heapPage (pageOf (upToPage 0x10a000))).Nonempty)) = .ok true := by
    decide +kernel
  obtain ⟨boot, s, -, -, known⟩ := runs_sound (fun _ _ => True) (fun _ _ _ => trivial) answer
  obtain ⟨b, live, known⟩ := (Option.any_eq_true ..).mp known
  exact ⟨s, b, live, (brk_failure_atomic_iff live).mpr (Or.inr (of_decide_eq_true known))⟩

/-- With two frames left, Init asks for four pages, and keeps the two that could be mapped. -/
theorem brk_failure_keeps_pages : ¬ ∀ env (s : Kernel) c addr,
    s.heap s.currentProcess = some c → c.heapPage < pageOf (upToPage addr) →
    s.mem.freeFrames.card < (c.ptbr.unmapped c.heapPage (pageOf (upToPage addr))).card →
    BrkFailsAtomically env s c addr := by
  intro atomic
  have answer : runs sampleEnv tightBoot (fun _ _ => true) [.tick, .resume]
      (fun s => (s.heap s.currentProcess).any fun b => decide (
        b.heapPage < pageOf (upToPage 0x10c000) ∧ s.mem.freeFrames.card <
          (b.ptbr.unmapped b.heapPage (pageOf (upToPage 0x10c000))).card ∧
        s.mem.freeFrames.Nonempty)) = .ok true := by
    decide +kernel
  obtain ⟨boot, s, -, -, known⟩ := runs_sound (fun _ _ => True) (fun _ _ _ => trivial) answer
  obtain ⟨b, live, known⟩ := (Option.any_eq_true ..).mp known
  obtain ⟨growth, scarce, left⟩ := of_decide_eq_true known
  obtain ⟨s', c', failed, -, -, usages, -⟩ := atomic sampleEnv s b 0x10c000 live growth scarce
  have exhausted := brk_exhausted live (by decide) failed
  rw [freeFrames_congr (brk_error_nframes live failed) usages] at exhausted
  rw [exhausted] at left
  exact absurd left Finset.not_nonempty_empty

/-! ### The shrinking loop -/

theorem brkShrink_down (above : targetVpn < vpn) (inside : vpn < maxPtLen)
    (unmapped : (m.ptRegion0 vpn).valid = false) :
    brkShrink targetVpn (fuel + 1) vpn m pt = brkShrink targetVpn fuel (vpn - 1) m pt := by
  rw [brkShrink, if_neg (Nat.not_le_of_lt above), tableIndex_natCast inside]
  simp only [bind, Except.bind, unmapped, Bool.false_eq_true, if_false]

theorem brkShrink_up (above : targetVpn < vpn) (inside : vpn < maxPtLen)
    (mapped : (m.ptRegion0 vpn).valid = true) :
    brkShrink targetVpn (fuel + 1) vpn m pt =
      brkShrink targetVpn fuel (vpn + 1) (m.freeFrame (pt vpn).pfn) (pt.invalidate vpn) := by
  rw [brkShrink, if_neg (Nat.not_le_of_lt above), tableIndex_natCast inside]
  simp only [bind, Except.bind, mapped, if_true]

theorem brkShrink_outside (above : targetVpn < vpn) (outside : maxPtLen ≤ vpn) :
    brkShrink targetVpn (fuel + 1) vpn m pt = .error (.tableIndex vpn) := by
  have range : ¬ ((0 : Int) ≤ vpn ∧ (vpn : Int) < maxPtLen) := by
    simp only [maxPtLen] at outside ⊢
    omega
  rw [brkShrink, if_neg (Nat.not_le_of_lt above), tableIndex, if_neg range]
  rfl

/-- The shrinking loop comes back exactly if region 0 maps no page that it passes. -/
theorem brkShrink_returns_iff (above : targetVpn < vpn) :
    (∃ fuel vpn' m' pt', brkShrink targetVpn fuel vpn m pt = .ok (vpn', m', pt')) ↔
      vpn < maxPtLen ∧
        ∀ page, targetVpn < page → page ≤ vpn → (m.ptRegion0 page).valid = false := by
  constructor
  · rintro ⟨fuel, vpn', m', pt', returned⟩
    refine ⟨?_, ?_⟩
    · by_contra outside
      cases fuel with
      | zero =>
          rw [brkShrink, if_neg (Nat.not_le_of_lt above)] at returned
          cases returned
      | succ fuel =>
          rw [brkShrink_outside above (Nat.not_lt.mp outside)] at returned
          cases returned
    · intro page higher lower
      apply Bool.eq_false_iff.mpr
      intro mapped
      exact brkShrink_stuck mapped higher lower returned
  · rintro ⟨inside, unmapped⟩
    obtain ⟨steps, isAbove⟩ : ∃ steps, vpn = targetVpn + steps := ⟨vpn - targetVpn, by omega⟩
    refine ⟨steps, targetVpn, m, pt, ?_⟩
    subst isAbove
    clear above
    induction steps with
    | zero => exact brkShrink_reached (Nat.le_refl _)
    | succ steps inductionHypothesis =>
        rw [brkShrink_down (by omega) inside (unmapped _ (by omega) (Nat.le_refl _))]
        apply inductionHypothesis (by omega)
        intro page higher lower
        exact unmapped page higher (by omega)

/-- It stays below an unmapped page of region 0, which turns it back. -/
theorem brkShrink_turned {page : Nat} {i : Int} (below : vpn ≤ page) (inside : page < maxPtLen)
    (unmapped : (m.ptRegion0 page).valid = false) :
    brkShrink targetVpn fuel vpn m pt ≠ .error (.tableIndex i) := by
  induction fuel generalizing vpn m pt with
  | zero =>
      unfold brkShrink
      split
      · exact fun h => by cases h
      · exact fun h => by cases h
  | succ fuel inductionHypothesis =>
      by_cases reached : vpn ≤ targetVpn
      · rw [brkShrink_reached reached]
        exact fun h => by cases h
      · have above := Nat.not_le.mp reached
        have here : vpn < maxPtLen := by omega
        by_cases mapped : (m.ptRegion0 vpn).valid = true
        · rw [brkShrink_up above here mapped]
          have ne : vpn ≠ page := by
            rintro rfl
            exact absurd (mapped.symm.trans unmapped) Bool.noConfusion
          apply inductionHypothesis (by omega)
          rw [freeFrame_ptRegion0]
          exact unmapped
        · rw [brkShrink_down above here (Bool.eq_false_iff.mpr mapped)]
          exact inductionHypothesis (by omega) unmapped

/-- It walks up and out of the table past pages that region 0 maps. -/
theorem brkShrink_leaves (steps : Nat) (above : targetVpn < vpn)
    (distance : vpn + steps = max vpn maxPtLen)
    (mapped : ∀ page, vpn ≤ page → page < maxPtLen → (m.ptRegion0 page).valid = true) :
    ∃ i, brkShrink targetVpn (steps + 1) vpn m pt = .error (.tableIndex i) := by
  induction steps generalizing vpn m pt with
  | zero => exact ⟨vpn, brkShrink_outside above (by omega)⟩
  | succ steps inductionHypothesis =>
      have here : vpn < maxPtLen := by omega
      rw [brkShrink_up above here (mapped vpn (Nat.le_refl _) here)]
      apply inductionHypothesis (by omega) (by omega)
      intro page higher inside
      rw [freeFrame_ptRegion0]
      exact mapped page (by omega) inside

/-- It stays in the table exactly if region 0 leaves a page unmapped from its start on. -/
theorem brkShrink_inside_iff (above : targetVpn < vpn) :
    (∀ fuel i, brkShrink targetVpn fuel vpn m pt ≠ .error (.tableIndex i)) ↔
      ∃ page, vpn ≤ page ∧ page < maxPtLen ∧ (m.ptRegion0 page).valid = false := by
  constructor
  · intro stays
    by_contra none
    have mapped : ∀ page, vpn ≤ page → page < maxPtLen → (m.ptRegion0 page).valid = true := by
      intro page higher inside
      by_contra unmapped
      exact none ⟨page, higher, inside, Bool.eq_false_iff.mpr unmapped⟩
    obtain ⟨i, left⟩ := brkShrink_leaves (max vpn maxPtLen - vpn) above (by omega) mapped
    exact stays _ i left
  · rintro ⟨page, higher, inside, unmapped⟩ fuel i
    exact brkShrink_turned higher inside unmapped

/-! ### The tables Brk indexes -/

/-- `Brk(addr)` indexes no table outside its entries, however long its loops are followed, and
refuses an address outside heap and gap without changing anything. -/
structure BrkContained (env : Env) (s : Kernel) (c : PCB) (addr : Word) : Prop where
  inside : ∀ fuel i, s.brk { env with brkFuel := fuel } addr ≠ .error (.tableIndex i)
  refused : ¬ (c.userHeapStartVaddr.toNat ≤ addr.toNat ∧
    addr.toNat ≤ c.userStackBaseVaddr.toNat) → s.brk env addr = .ok (.error, s)

/-- The loops of `Brk(addr)` stay in their tables: a growing one ends in the table or runs out of
frames on the way, a shrinking one is turned back by a page that region 0 does not map. -/
structure BrkStaysInside (m : Memory) (c : PCB) (addr : Word) : Prop where
  growing : c.heapPage < pageOf (upToPage addr) → pageOf (upToPage addr) ≤ maxPtLen ∨
    m.freeFrames.card < (c.ptbr.unmapped c.heapPage (pageOf (upToPage addr))).card
  shrinking : pageOf (upToPage addr) < c.heapPage →
    ∃ page, c.heapPage ≤ page ∧ page < maxPtLen ∧ (m.ptRegion0 page).valid = false

/-- A target below the heap end leaves the growing loop nothing to do. -/
theorem brk_shrinking (live : s.heap s.currentProcess = some c) (some : addr ≠ 0)
    (lower : pageOf (upToPage addr) ≤ c.heapPage) :
    s.brk env addr = (do
      let (vpn, m, pt) ←
        brkShrink (pageOf (upToPage addr)) env.brkFuel c.heapPage s.mem c.ptbr
      return (.success, (s.setMem m).setPcb s.currentProcess
        { c with ptbr := pt, userHeapEndVaddr := regionAddress vpn })) := by
  rw [brk_some live some, Nat.sub_eq_zero_of_le lower, Nat.max_eq_left lower]
  rfl

theorem brk_inside_iff (live : s.heap s.currentProcess = some c) (some : addr ≠ 0) :
    (∀ fuel i, s.brk { env with brkFuel := fuel } addr ≠ .error (.tableIndex i)) ↔
      BrkStaysInside s.mem c addr := by
  rcases Nat.lt_trichotomy c.heapPage (pageOf (upToPage addr)) with higher | same | lower
  · have amount : 0 < pageOf (upToPage addr) - c.heapPage := by omega
    have range : c.heapPage + (pageOf (upToPage addr) - c.heapPage) = pageOf (upToPage addr) :=
      Nat.add_sub_cancel' (Nat.le_of_lt higher)
    have reach := @brkGrow_inside_iff s.mem c.ptbr _ c.heapPage amount
    rw [range] at reach
    have cond : BrkStaysInside s.mem c addr ↔ pageOf (upToPage addr) ≤ maxPtLen ∨
        s.mem.freeFrames.card < (c.ptbr.unmapped c.heapPage (pageOf (upToPage addr))).card :=
      ⟨fun stays => stays.growing higher, fun holds => ⟨fun _ => holds, fun lower => by omega⟩⟩
    rw [cond, ← reach]
    constructor
    · intro stays
      rcases outcome : brkGrow (pageOf (upToPage addr) - c.heapPage) c.heapPage s.mem c.ptbr with
        stop | grown
      · obtain ⟨i, rfl⟩ := brkGrow_stops outcome
        refine absurd ?_ (stays 0 i)
        rw [brk_some live some, outcome]
        rfl
      · exact ⟨grown, rfl⟩
    · rintro ⟨⟨status, m, pt⟩, grew⟩ fuel i
      rw [brk_some live some, grew, Nat.max_eq_right (Nat.le_of_lt higher)]
      simp only [bind, Except.bind, brkShrink_reached (Nat.le_refl _)]
      split
      · exact fun h => by cases h
      · exact fun h => by cases h
  · refine iff_of_true ?_ ⟨fun higher => by omega, fun lower => by omega⟩
    intro fuel i
    rw [brk_shrinking live some (Nat.le_of_eq same.symm), brkShrink_reached (Nat.le_of_eq same)]
    exact fun h => by cases h
  · have cond : BrkStaysInside s.mem c addr ↔
        ∃ page, c.heapPage ≤ page ∧ page < maxPtLen ∧ (s.mem.ptRegion0 page).valid = false :=
      ⟨fun stays => stays.shrinking lower, fun holds => ⟨fun higher => by omega, fun _ => holds⟩⟩
    have loop : (∀ fuel i, brkShrink (pageOf (upToPage addr)) fuel c.heapPage s.mem c.ptbr ≠
        .error (.tableIndex i)) ↔
        ∃ page, c.heapPage ≤ page ∧ page < maxPtLen ∧ (s.mem.ptRegion0 page).valid = false :=
      brkShrink_inside_iff lower
    rw [cond, ← loop]
    apply forall_congr'
    intro fuel
    apply forall_congr'
    intro i
    rw [brk_shrinking live some (Nat.le_of_lt lower)]
    simp only
    rcases brkShrink (pageOf (upToPage addr)) fuel c.heapPage s.mem c.ptbr with stop | shrunk
    · simp [bind, Except.bind]
    · simp [bind, Except.bind, pure, Except.pure]

/-- Where a call of `Brk` is contained. -/
theorem brk_contained_iff (live : s.heap s.currentProcess = some c) :
    BrkContained env s c addr ↔ addr = 0 ∨
      s.mem.freeFrames = ∅ ∧ (c.ptbr.unmapped c.heapPage (pageOf (upToPage addr))).Nonempty ∨
      (c.userHeapStartVaddr.toNat ≤ addr.toNat ∧ addr.toNat ≤ c.userStackBaseVaddr.toNat) ∧
        BrkStaysInside s.mem c addr := by
  constructor
  · intro contained
    by_cases null : addr = 0
    · exact Or.inl null
    · right
      by_cases range : c.userHeapStartVaddr.toNat ≤ addr.toNat ∧
          addr.toNat ≤ c.userStackBaseVaddr.toNat
      · exact Or.inr ⟨range, (brk_inside_iff live null).mp contained.inside⟩
      · have same := contained.refused range
        have exhausted := brk_exhausted live null same
        have refused : ∃ s', s.brk env addr = .ok (.error, s') := ⟨s, same⟩
        rcases (brk_fails_iff live).mp refused with null' | short
        · exact absurd null' null
        · exact Or.inl ⟨exhausted, Finset.card_pos.mp (Nat.lt_of_le_of_lt (Nat.zero_le _) short)⟩
  · rintro (rfl | ⟨none, needs⟩ | ⟨range, stays⟩)
    · refine ⟨fun fuel i => ?_, fun _ => if_pos rfl⟩
      rw [brk, if_pos rfl]
      exact fun h => by cases h
    · refine ⟨fun fuel i => ?_, fun _ => brk_without_frames live none needs⟩
      rw [brk_without_frames live none needs]
      exact fun h => by cases h
    · by_cases null : addr = 0
      · refine ⟨fun fuel i => ?_, fun outside => absurd range outside⟩
        rw [brk, if_pos null]
        exact fun h => by cases h
      · exact ⟨(brk_inside_iff live null).mpr stays, fun outside => absurd range outside⟩

/-- Init grows its heap to just below its stack. -/
theorem brk_contained_sample : ∃ (s : Kernel) (c : PCB),
    s.heap s.currentProcess = some c ∧ BrkContained sampleEnv s c 0x1fc000 := by
  have answer : runs sampleEnv sampleBoot (fun _ _ => true) [.tick, .resume]
      (fun s => (s.heap s.currentProcess).any fun b => decide (
        b.userHeapStartVaddr.toNat ≤ 0x1fc000 ∧ 0x1fc000 ≤ b.userStackBaseVaddr.toNat ∧
        b.heapPage ≤ pageOf (upToPage 0x1fc000))) = .ok true := by
    decide +kernel
  obtain ⟨boot, s, -, -, known⟩ := runs_sound (fun _ _ => True) (fun _ _ _ => trivial) answer
  obtain ⟨b, live, known⟩ := (Option.any_eq_true ..).mp known
  obtain ⟨start, base, higher⟩ := of_decide_eq_true known
  have stays : BrkStaysInside s.mem b 0x1fc000 :=
    ⟨fun _ => Or.inl (by decide), fun lower => absurd higher (Nat.not_le_of_lt lower)⟩
  exact ⟨s, b, live, (brk_contained_iff live).mpr (Or.inr (Or.inr ⟨⟨start, base⟩, stays⟩))⟩

/-- For an address in region 0, the target page wraps around and the growing loop runs out of the
table. -/
theorem brk_leaves_table : ¬ ∀ env (s : Kernel) c addr, s.heap s.currentProcess = some c →
    vmem1Base ≤ c.userHeapEndVaddr.toNat → c.userHeapEndVaddr.toNat ≤ vmem1Limit →
    BrkContained env s c addr := by
  intro contained
  have answer : runs sampleEnv sampleBoot (fun _ _ => true) [.tick, .resume]
      (fun s => (s.heap s.currentProcess).any fun b => decide (
        b.userHeapStartVaddr = 0x102000 ∧ b.userHeapEndVaddr = 0x102000 ∧
        (s.brk sampleEnv 0x1000).toBool = false)) = .ok true := by
    decide +kernel
  obtain ⟨boot, s, -, -, known⟩ := runs_sound (fun _ _ => True) (fun _ _ _ => trivial) answer
  obtain ⟨b, live, known⟩ := (Option.any_eq_true ..).mp known
  obtain ⟨heapStart, heapEnd, stopped⟩ := of_decide_eq_true known
  have low : vmem1Base ≤ b.userHeapEndVaddr.toNat := by
    rw [heapEnd]
    decide
  have high : b.userHeapEndVaddr.toNat ≤ vmem1Limit := by
    rw [heapEnd]
    decide
  have outside : ¬ (b.userHeapStartVaddr.toNat ≤ (0x1000 : Word).toNat ∧
      (0x1000 : Word).toNat ≤ b.userStackBaseVaddr.toNat) := by
    rw [heapStart]
    exact fun range => absurd range.1 (by decide)
  rw [(contained sampleEnv s b 0x1000 live low high).refused outside] at stopped
  cases stopped

/-! ### Shrinking the heap -/

/-- The mapped pages between `addr` and the heap end, both rounded up. -/
def PCB.breakPages (c : PCB) (addr : Word) : Finset Nat :=
  (Finset.range maxPtLen).filter fun vpn =>
    (upToPage addr).toNat ≤ vmem1Base + vpn * pageSize ∧
      vmem1Base + vpn * pageSize < (upToPage c.userHeapEndVaddr).toNat ∧ (c.ptbr vpn).valid = true

/-- `Brk(addr)` ends, unmaps the pages from `addr` up to the heap end, frees the frames they named,
each once, and moves the heap end. -/
def BrkShrinks (env : Env) (s : Kernel) (c : PCB) (addr : Word) : Prop :=
  ∃ fuel s' c', s.brk { env with brkFuel := fuel } addr = .ok (.success, s') ∧
    s'.heap s.currentProcess = some c' ∧
    FreedPages (c.breakPages addr) s.mem c.ptbr s'.mem c'.ptbr ∧
    s'.mem.freeNframes = s.mem.freeNframes + (c.breakPages addr).card ∧
    c'.userHeapEndVaddr = upToPage addr

theorem mem_breakPages : vpn ∈ c.breakPages addr ↔ vpn < maxPtLen ∧
    (upToPage addr).toNat ≤ vmem1Base + vpn * pageSize ∧
      vmem1Base + vpn * pageSize < (upToPage c.userHeapEndVaddr).toNat ∧
      (c.ptbr vpn).valid = true := by
  rw [PCB.breakPages, Finset.mem_filter, Finset.mem_range]

theorem upToPage_eq_region (addr : Word) :
    upToPage addr = regionAddress (pageOf (upToPage addr)) :=
  (regionAddress_pageOf (upToPage_aligned addr)).symm

theorem upToPage_toNat_of_page {w : Word} (small : pageOf (upToPage w) ≤ 0x40080) :
    (upToPage w).toNat = pageOf (upToPage w) * 0x2000 + vmem1Base := by
  have same := congrArg BitVec.toNat (upToPage_eq_region w)
  rw [regionAddress_toNat small] at same
  exact same

/-- A target in the page of the heap end leaves nothing in between. -/
theorem breakPages_same (same : pageOf (upToPage addr) = c.heapPage) :
    c.breakPages addr = ∅ := by
  have ends : upToPage addr = upToPage c.userHeapEndVaddr := by
    rw [upToPage_eq_region addr, upToPage_eq_region c.userHeapEndVaddr, same]
    rfl
  apply Finset.eq_empty_of_forall_notMem
  intro vpn member
  obtain ⟨-, low, high, -⟩ := mem_breakPages.mp member
  rw [ends] at low
  exact absurd high (Nat.not_lt.mpr low)

/-- Inside region 1 the pages in between are those from the target's to the heap's. -/
theorem mem_breakPages_inside (inside : c.heapPage < maxPtLen)
    (lower : pageOf (upToPage addr) < c.heapPage) : vpn ∈ c.breakPages addr ↔
      pageOf (upToPage addr) ≤ vpn ∧ vpn < c.heapPage ∧ (c.ptbr vpn).valid = true := by
  simp only [maxPtLen, PCB.heapPage] at inside lower
  rw [mem_breakPages, upToPage_toNat_of_page (w := addr) (by omega),
    upToPage_toNat_of_page (w := c.userHeapEndVaddr) (by omega), PCB.heapPage]
  simp only [maxPtLen, pageSize]
  constructor
  · rintro ⟨-, low, high, valid⟩
    exact ⟨by omega, by omega, valid⟩
  · rintro ⟨low, high, valid⟩
    exact ⟨by omega, by omega, by omega, valid⟩

/-- In a region 1 heap a lower address has no higher page. -/
theorem not_higher_of_lt (shrinks : addr.toNat < c.userHeapEndVaddr.toNat)
    (inside : pageOf (upToPage addr) ≤ maxPtLen) : pageOf (upToPage addr) ≤ c.heapPage := by
  by_contra higher
  simp only [maxPtLen, PCB.heapPage] at inside higher
  have target := upToPage_toNat_of_page (w := addr) (by omega)
  have heapEnd := upToPage_toNat_of_page (w := c.userHeapEndVaddr) (by omega)
  have roundA : (upToPage addr).toNat = (addr.toNat + 0x1fff) / 0x2000 * 0x2000 % 2 ^ 32 :=
    BitVec.toNat_ofNat ..
  have roundE : (upToPage c.userHeapEndVaddr).toNat =
      (c.userHeapEndVaddr.toNat + 0x1fff) / 0x2000 * 0x2000 % 2 ^ 32 := BitVec.toNat_ofNat ..
  have bound := c.userHeapEndVaddr.isLt
  simp only [vmem1Base] at target heapEnd
  omega

/-- Without pages to give back a loop that comes down to its target is all there is to do. -/
theorem brkShrinks_of_none (live : s.heap s.currentProcess = some c) (some : addr ≠ 0)
    (lower : pageOf (upToPage addr) ≤ c.heapPage) (none : c.breakPages addr = ∅)
    (returns : ∃ fuel, brkShrink (pageOf (upToPage addr)) fuel c.heapPage s.mem c.ptbr =
      .ok (pageOf (upToPage addr), s.mem, c.ptbr)) : BrkShrinks env s c addr := by
  obtain ⟨fuel, shrunk⟩ := returns
  have done : s.brk { env with brkFuel := fuel } addr =
      .ok (.success, (s.setMem s.mem).setPcb s.currentProcess
        { c with userHeapEndVaddr := upToPage addr }) := by
    rw [brk_shrinking live some lower]
    simp only [shrunk, bind, Except.bind, ← upToPage_eq_region]
    rfl
  refine ⟨fuel, _, _, done, Function.update_self .., ?_, ?_, rfl⟩
  · rw [none]
    exact .start s.mem c.ptbr
  · rw [none, Finset.card_empty]
    exact (Int.add_zero _).symm

theorem BrkShrinks.some (shrinks : BrkShrinks env s c addr) : addr ≠ 0 := by
  rintro rfl
  obtain ⟨fuel, s', c', done, -⟩ := shrinks
  rw [brk, if_pos rfl] at done
  cases done

/-- A shrinking loop that came back was not turned by region 0 and has freed nothing. -/
theorem gap_of_brkShrinks (live : s.heap s.currentProcess = some c)
    (lower : pageOf (upToPage addr) < c.heapPage) (shrinks : BrkShrinks env s c addr) :
    c.heapPage < maxPtLen ∧
      (∀ page, pageOf (upToPage addr) < page → page ≤ c.heapPage →
        (s.mem.ptRegion0 page).valid = false) ∧
      ∀ vpn, pageOf (upToPage addr) ≤ vpn → vpn < c.heapPage → (c.ptbr vpn).valid = false := by
  have some := shrinks.some
  obtain ⟨fuel, s', c', done, live', freed, -, -⟩ := shrinks
  rw [brk_shrinking live some (Nat.le_of_lt lower)] at done
  simp only [bind_eq_ok, pure_eq_ok] at done
  obtain ⟨⟨vpn, m, pt⟩, shrunk, done⟩ := done
  cases done
  obtain ⟨-, rfl, rfl⟩ := brkShrink_eq_ok (Nat.le_of_lt lower) shrunk
  obtain ⟨inside, tested⟩ := (brkShrink_returns_iff lower).mp ⟨fuel, vpn, _, _, shrunk⟩
  rw [setPcb_heap, Function.update_self] at live'
  obtain rfl := Option.some.inj live'
  refine ⟨inside, tested, fun page low high => ?_⟩
  by_contra valid
  have member := (mem_breakPages_inside inside lower).mpr
    ⟨low, high, Bool.eq_true_of_not_eq_false valid⟩
  exact valid (freed.unmapped page member)

/-- A smaller heap is what `Brk` makes of its argument exactly if there is nothing to give back: no
page of region 1 is mapped in the range, nor the page of region 0 whose number the loop tests. -/
theorem brk_shrinks_iff (live : s.heap s.currentProcess = some c)
    (shrinks : addr.toNat < c.userHeapEndVaddr.toNat) :
    BrkShrinks env s c addr ↔ addr ≠ 0 ∧ (pageOf (upToPage addr) = c.heapPage ∨
      pageOf (upToPage addr) < c.heapPage ∧ c.heapPage < maxPtLen ∧
        (∀ page, pageOf (upToPage addr) < page → page ≤ c.heapPage →
          (s.mem.ptRegion0 page).valid = false) ∧
        ∀ vpn, pageOf (upToPage addr) ≤ vpn → vpn < c.heapPage → (c.ptbr vpn).valid = false) := by
  constructor
  · intro shrunk
    refine ⟨shrunk.some, ?_⟩
    rcases Nat.lt_trichotomy (pageOf (upToPage addr)) c.heapPage with lower | same | higher
    · exact Or.inr ⟨lower, gap_of_brkShrinks live lower shrunk⟩
    · exact Or.inl same
    · have some := shrunk.some
      obtain ⟨fuel, s', c', done, -⟩ := shrunk
      rw [brk_some live some, bind_eq_ok] at done
      obtain ⟨⟨status, m, pt⟩, grew, done⟩ := done
      rcases (brkGrow_eq_ok grew).2 with ⟨-, -, -, none | inside⟩ | ⟨rfl, -⟩
      · omega
      · rw [Nat.add_sub_cancel' (Nat.le_of_lt higher)] at inside
        exact absurd (not_higher_of_lt shrinks inside) (Nat.not_le_of_lt higher)
      · simp only [if_true] at done
        cases done
  · rintro ⟨some, same | ⟨lower, inside, tested, gap⟩⟩
    · have returns : brkShrink (pageOf (upToPage addr)) 0 c.heapPage s.mem c.ptbr =
          .ok (pageOf (upToPage addr), s.mem, c.ptbr) := by
        rw [same]
        exact brkShrink_reached (Nat.le_refl _)
      exact brkShrinks_of_none live some (Nat.le_of_eq same) (breakPages_same same) ⟨0, returns⟩
    · have none : c.breakPages addr = ∅ := by
        apply Finset.eq_empty_of_forall_notMem
        intro vpn member
        obtain ⟨low, high, valid⟩ := (mem_breakPages_inside inside lower).mp member
        exact absurd (valid.symm.trans (gap vpn low high)) Bool.noConfusion
      obtain ⟨fuel, vpn, m, pt, shrunk⟩ := (brkShrink_returns_iff lower).mpr ⟨inside, tested⟩
      obtain ⟨rfl, rfl, rfl⟩ := brkShrink_eq_ok (Nat.le_of_lt lower) shrunk
      exact brkShrinks_of_none live some (Nat.le_of_lt lower) none ⟨fuel, shrunk⟩

/-- Init gives back less than a page. -/
theorem brk_shrinks_sample : ∃ (s : Kernel) (c : PCB), s.heap s.currentProcess = some c ∧
    c.userHeapEndVaddr = 0x106000 ∧ BrkShrinks sampleEnv s c 0x105ff0 := by
  have answer : runs sampleEnv sampleBoot (fun _ _ => true)
      [.tick, .resume, .call yalnixBrk 0x106000 0 0]
      (fun s => (s.heap s.currentProcess).any fun b =>
        decide (b.userHeapEndVaddr = 0x106000)) = .ok true := by
    decide +kernel
  obtain ⟨boot, s, -, -, known⟩ := runs_sound (fun _ _ => True) (fun _ _ _ => trivial) answer
  obtain ⟨b, live, known⟩ := (Option.any_eq_true ..).mp known
  have heapEnd := of_decide_eq_true known
  have shrinks : (0x105ff0 : Word).toNat < b.userHeapEndVaddr.toNat := by
    rw [heapEnd]
    decide
  have same : pageOf (upToPage 0x105ff0) = b.heapPage := by
    rw [PCB.heapPage, heapEnd]
    decide
  exact ⟨s, b, live, heapEnd, (brk_shrinks_iff live shrinks).mpr ⟨by decide, Or.inl same⟩⟩

/-- Init grows its heap to 47 pages and gives one back: it stays mapped. -/
theorem brk_keeps_pages : ¬ ∀ env (s : Kernel) c addr, s.heap s.currentProcess = some c →
    c.userHeapStartVaddr.toNat ≤ addr.toNat → addr.toNat < c.userHeapEndVaddr.toNat →
    BrkShrinks env s c addr := by
  intro shrinks
  have answer : runs sampleEnv sampleBoot (fun _ _ => true)
      [.tick, .resume, .call yalnixBrk 0x160000 0 0]
      (fun s => (s.heap s.currentProcess).any fun b => decide (
        b.userHeapStartVaddr = 0x102000 ∧ b.userHeapEndVaddr = 0x160000 ∧
        (b.ptbr 47).valid = true)) = .ok true := by
    decide +kernel
  obtain ⟨boot, s, -, -, known⟩ := runs_sound (fun _ _ => True) (fun _ _ _ => trivial) answer
  obtain ⟨b, live, known⟩ := (Option.any_eq_true ..).mp known
  obtain ⟨heapStart, heapEnd, mapped⟩ := of_decide_eq_true known
  have start : b.userHeapStartVaddr.toNat ≤ (0x15e000 : Word).toNat := by
    rw [heapStart]
    decide
  have below : (0x15e000 : Word).toNat < b.userHeapEndVaddr.toNat := by
    rw [heapEnd]
    decide
  have heapPage : b.heapPage = 48 := by
    rw [PCB.heapPage, heapEnd]
    decide
  have lower : pageOf (upToPage 0x15e000) < b.heapPage := by
    rw [heapPage]
    decide
  obtain ⟨-, -, gap⟩ := gap_of_brkShrinks live lower (shrinks sampleEnv s b _ live start below)
  have unmapped := gap 47 (by decide) (by rw [heapPage]; decide)
  exact absurd (mapped.symm.trans unmapped) Bool.noConfusion

end Yalnix
