/-
Module: Yalnix.Proofs.HeapStack
Purpose: The heap that Brk grows and the stack that memory faults grow, in one region 1: which
  requests leave an unmapped page between them.
Trusted boundary: none
Main exports: PCB.Apart, BrkFits, FaultFits, GrowthStep, GrowthStep.spaced, heap_below_stack
-/
import Yalnix.Proofs.LoadLayout
import Yalnix.Proofs.RegionOne
import Yalnix.Run

namespace Yalnix

open Kernel Memory Transition

variable {env : Env} {s s' t u : Kernel} {p : PcbPtr} {addr : Word} {req : LoadRequest}
  {argv : ArgVector} {args : List (List Byte)} {argbuf : ArgBuf} {li : LoadInfo} {plan : LoadPlan}
  {m m' : Memory} {pt : PageTable} {b b' : PCB} {status : Status}

/-! ### Page addresses -/

theorem upToPage_aligned (w : Word) : (upToPage w).toNat % 0x2000 = 0 := by
  simp only [upToPage, BitVec.toNat_ofNat]
  omega

theorem downToPage_aligned (w : Word) : (downToPage w).toNat % 0x2000 = 0 := by
  rw [downToPage_toNat]
  exact Nat.mul_mod_left _ _

theorem upToPage_of_aligned {w : Word} (aligned : w.toNat % 0x2000 = 0) : upToPage w = w := by
  have bound := w.isLt
  apply BitVec.eq_of_toNat_eq
  rw [upToPage_toNat (by omega)]
  omega

theorem downToPage_of_aligned {w : Word} (aligned : w.toNat % 0x2000 = 0) : downToPage w = w := by
  apply BitVec.eq_of_toNat_eq
  rw [downToPage_toNat]
  omega

/-- The address of a page of region 1, which `Brk` and `LoadProgram` write as
`(page << PAGESHIFT) + VMEM_1_BASE`. -/
def regionAddress (page : Nat) : Word := BitVec.ofNat 32 (page * pageSize + vmem1Base)

theorem regionAddress_toNat {page : Nat} (small : page ≤ 0x40080) :
    (regionAddress page).toNat = page * 0x2000 + vmem1Base := by
  simp only [regionAddress, BitVec.toNat_ofNat, pageSize, vmem1Base]
  omega

theorem regionAddress_aligned {page : Nat} (small : page ≤ 0x40080) :
    (regionAddress page).toNat % 0x2000 = 0 := by
  rw [regionAddress_toNat small]
  simp only [vmem1Base]
  omega

theorem pageOf_regionAddress {page : Nat} (small : page ≤ 0x40080) :
    pageOf (regionAddress page) = page := by
  rw [pageOf_eq, regionAddress_toNat small]
  · omega
  · rw [regionAddress_toNat small]
    omega

/-- The same address as the source computes it from a signed page number. -/
theorem ofInt_page (page : Nat) :
    BitVec.ofInt 32 ((page : Int) * pageSize + vmem1Base) = regionAddress page := by
  rw [regionAddress, ← BitVec.ofInt_natCast]
  rfl

/-! ### Heap and stack -/

/-- The page above the heap. -/
def PCB.heapPage (b : PCB) : Nat := pageOf (upToPage b.userHeapEndVaddr)

/-- The first page of the stack. -/
def PCB.stackPage (b : PCB) : Nat := pageOf (downToPage b.userStackBaseVaddr)

/-- The heap ends below the stack, with an unmapped page between them. -/
structure PCB.Apart (b : PCB) : Prop where
  below : (upToPage b.userHeapEndVaddr).toNat < (downToPage b.userStackBaseVaddr).toNat
  gap : (b.ptbr.unmapped b.heapPage b.stackPage).Nonempty

/-- Heap and stack are apart, the heap is in region 1, and the pages of the stack are mapped. -/
structure PCB.Spaced (b : PCB) : Prop where
  apart : b.Apart
  region : vmem1Base ≤ (upToPage b.userHeapEndVaddr).toNat
  stack : ∀ vpn, b.stackPage ≤ vpn → vpn < maxPtLen → (b.ptbr vpn).valid = true

/-- In region 1 the order of page addresses is that of pages. -/
theorem lt_of_pageOf_lt {v w : Word} (low : vmem1Base ≤ v.toNat) (high : vmem1Base ≤ w.toNat)
    (lt : pageOf v < pageOf w) : v.toNat < w.toNat := by
  rw [pageOf_eq low, pageOf_eq high] at lt
  omega

/-! ### Requests -/

/-- `Brk(addr)` leaves a page between heap and stack: it is refused, does not raise the heap, ends
below an unmapped page, or does not find the frames. -/
def BrkFits (m : Memory) (b : PCB) (addr : Word) : Prop :=
  addr = 0 ∨ pageOf (upToPage addr) ≤ b.heapPage ∨
    (b.ptbr.unmapped (pageOf (upToPage addr)) b.stackPage).Nonempty ∨
    m.freeFrames.card < (b.ptbr.unmapped b.heapPage (pageOf (upToPage addr))).card

/-- The fault leaves a page between heap and stack: it does not grow the stack, grows it to a page
above an unmapped one, or does not find the frames. -/
def FaultFits (m : Memory) (b : PCB) (ctx : UserContext) : Prop :=
  memoryTrapAction b ctx ≠ .grow ∨
    (b.ptbr.unmapped b.heapPage (pageOf (downToPage ctx.addr))).Nonempty ∨
    m.freeFrames.card < b.stackPage - pageOf (downToPage ctx.addr)

namespace PCB.Spaced

theorem stackBase_low (inv : b.Spaced) :
    vmem1Base ≤ (downToPage b.userStackBaseVaddr).toNat :=
  Nat.le_trans inv.region (Nat.le_of_lt inv.apart.below)

theorem heapPage_lt (inv : b.Spaced) : b.heapPage < b.stackPage ∧ b.heapPage < maxPtLen :=
  lt_of_unmapped inv.apart.gap

/-- A heap that `Brk` could not grow to the end leaves the page it failed at. -/
theorem brkFailed (inv : b.Spaced)
    (grew : brkGrow (pageOf (upToPage addr) - b.heapPage) b.heapPage m b.ptbr =
      .ok (.error, m', pt)) :
    PCB.Spaced { b with ptbr := pt } ∧ BrkFits m b addr := by
  obtain ⟨same, ⟨success, -⟩ | ⟨-, scarce, page, member⟩⟩ := brkGrow_eq_ok grew
  · cases success
  · have higher : b.heapPage ≤ pageOf (upToPage addr) := by
      obtain ⟨-, above, below, -⟩ := mem_unmapped.mp member
      omega
    rw [Nat.add_sub_cancel' higher] at scarce
    refine ⟨?_, Or.inr (Or.inr (Or.inr scarce))⟩
    obtain ⟨inside, above, -, invalid⟩ := mem_unmapped.mp member
    have stack : ∀ vpn, b.stackPage ≤ vpn → vpn < maxPtLen → (pt vpn).valid = true := by
      intro vpn above inside
      have valid := inv.stack vpn above inside
      rw [same vpn (Or.inr (Or.inr valid))]
      exact valid
    have below : page < b.stackPage := by
      apply Nat.lt_of_not_le
      intro reached
      exact absurd ((stack page reached inside).symm.trans invalid) Bool.noConfusion
    exact ⟨⟨inv.apart.below, page, mem_unmapped.mpr ⟨inside, above, below, invalid⟩⟩,
      inv.region, stack⟩

/-- A heap that `Brk` moved is apart from the stack exactly if the request fitted. -/
theorem brkMoved {addr : Word} (inv : b.Spaced) (some : addr ≠ 0)
    (grew : brkGrow (pageOf (upToPage addr) - b.heapPage) b.heapPage m b.ptbr =
      .ok (.success, m', pt)) :
    let moved : PCB :=
      { b with ptbr := pt, userHeapEndVaddr := regionAddress (pageOf (upToPage addr)) }
    (moved.Apart ↔ BrkFits m b addr) ∧ (moved.Apart → moved.Spaced) := by
  generalize target : pageOf (upToPage addr) = page at grew ⊢
  intro moved
  obtain ⟨same, ⟨-, enough, -, range⟩ | ⟨failed, -⟩⟩ := brkGrow_eq_ok grew
  case inr => cases failed
  obtain ⟨below, inside⟩ := inv.heapPage_lt
  simp only [maxPtLen] at inside range
  have small : page ≤ 0x40080 := by omega
  have heapEnd : upToPage moved.userHeapEndVaddr = regionAddress page := by
    rw [show moved.userHeapEndVaddr = regionAddress page from rfl]
    exact upToPage_of_aligned (regionAddress_aligned small)
  have heapPage : moved.heapPage = page := by
    rw [PCB.heapPage, heapEnd, pageOf_regionAddress small]
  have region : vmem1Base ≤ (upToPage moved.userHeapEndVaddr).toNat := by
    rw [heapEnd, regionAddress_toNat small]
    exact Nat.le_add_left ..
  have stack : ∀ vpn, b.stackPage ≤ vpn → vpn < maxPtLen → (pt vpn).valid = true := by
    intro vpn above inside
    have valid := inv.stack vpn above inside
    rw [same vpn (Or.inr (Or.inr valid))]
    exact valid
  have kept : pt.unmapped page b.stackPage = b.ptbr.unmapped page b.stackPage := by
    apply unmapped_congr
    intro vpn above _
    rw [same vpn (by omega)]
  have apart : moved.Apart ↔ (b.ptbr.unmapped page b.stackPage).Nonempty := by
    rw [← kept]
    constructor
    · intro holds
      have gap := holds.gap
      rw [heapPage] at gap
      exact gap
    · intro gap
      refine ⟨?_, ?_⟩
      · apply lt_of_pageOf_lt region inv.stackBase_low
        rw [heapEnd, pageOf_regionAddress small]
        exact (lt_of_unmapped gap).1
      · rw [heapPage]
        exact gap
  refine ⟨apart.trans ?_, fun holds => ⟨holds, region, stack⟩⟩
  unfold BrkFits
  rw [target]
  constructor
  · exact fun gap => Or.inr (Or.inr (Or.inl gap))
  · rintro (zero | lower | gap | scarce)
    · exact absurd zero some
    · exact inv.apart.gap.mono (unmapped_mono lower (Nat.le_refl _))
    · exact gap
    · rcases Nat.le_total page b.heapPage with lower | higher
      · exact inv.apart.gap.mono (unmapped_mono lower (Nat.le_refl _))
      · rw [Nat.add_sub_cancel' higher] at enough
        exact absurd enough (Nat.not_le_of_lt scarce)

/-- A stack that could not be grown leaves the pages as they were or unmapped. -/
theorem growthFailed {ctx : UserContext} (inv : b.Spaced)
    (grew : growStackPages (pageOf (downToPage ctx.addr))
      (b.stackPage - pageOf (downToPage ctx.addr)) 0 m b.ptbr = .ok (.kill, m', pt)) :
    PCB.Spaced { b with ptbr := pt } ∧ FaultFits m b ctx := by
  obtain ⟨success, -⟩ | ⟨-, scarce, kept⟩ := growStackPages_status grew
  · cases success
  · refine ⟨?_, Or.inr (Or.inr scarce)⟩
    obtain ⟨page, member⟩ := inv.apart.gap
    obtain ⟨inside, above, below, invalid⟩ := mem_unmapped.mp member
    have still : (pt page).valid = false := by
      apply Bool.eq_false_iff.mpr
      intro valid
      exact absurd ((kept page valid).1.symm.trans invalid) Bool.noConfusion
    refine ⟨⟨inv.apart.below, page, mem_unmapped.mpr ⟨inside, above, below, still⟩⟩,
      inv.region, ?_⟩
    intro vpn above inside
    have same : pt vpn = b.ptbr vpn := by
      apply growStackPages_eq grew
      simp only [PCB.stackPage] at above scarce ⊢
      omega
    simp only [same]
    exact inv.stack vpn above inside

/-- A stack that was grown is apart from the heap exactly if the fault fitted. -/
theorem grown {ctx : UserContext} (inv : b.Spaced) (action : memoryTrapAction b ctx = .grow)
    (grew : growStackPages (pageOf (downToPage ctx.addr))
      (b.stackPage - pageOf (downToPage ctx.addr)) 0 m b.ptbr = .ok (.success, m', pt)) :
    let grown : PCB := { b with ptbr := pt, userStackBaseVaddr := downToPage ctx.addr }
    (grown.Apart ↔ FaultFits m b ctx) ∧ (grown.Apart → grown.Spaced) := by
  generalize target : pageOf (downToPage ctx.addr) = page at grew ⊢
  intro grown
  obtain ⟨-, enough, before, mapped⟩ | ⟨killed, -⟩ := growStackPages_status grew
  case inr => cases killed
  have stackBase : downToPage grown.userStackBaseVaddr = downToPage ctx.addr :=
    downToPage_of_aligned (downToPage_aligned ctx.addr)
  have stackPage : grown.stackPage = page := by
    rw [PCB.stackPage, stackBase, target]
  have range : (upToPage b.userHeapEndVaddr).toNat < ctx.addr.toNat ∧
      ctx.addr.toNat < (downToPage b.userStackBaseVaddr).toNat := (memoryTrapAction_grow.mp action).2
  -- both bounds are page addresses, so that rounding the fault address down keeps it in between
  have above : (upToPage b.userHeapEndVaddr).toNat ≤ (downToPage ctx.addr).toNat := by
    have aligned := upToPage_aligned b.userHeapEndVaddr
    rw [downToPage_toNat]
    omega
  have low : vmem1Base ≤ (downToPage ctx.addr).toNat := Nat.le_trans inv.region above
  have stack : ∀ vpn, page ≤ vpn → vpn < maxPtLen → (pt vpn).valid = true := by
    intro vpn above inside
    by_cases new : vpn < b.stackPage
    · apply mapped vpn
      · omega
      · omega
    · have same : pt vpn = b.ptbr vpn := by
        apply growStackPages_eq grew
        omega
      rw [same]
      exact inv.stack vpn (Nat.le_of_not_lt new) inside
  have kept : pt.unmapped b.heapPage page = b.ptbr.unmapped b.heapPage page := by
    apply unmapped_congr
    intro vpn _ below
    rw [before vpn below]
  have apart : grown.Apart ↔ (b.ptbr.unmapped b.heapPage page).Nonempty := by
    rw [← kept]
    constructor
    · intro holds
      have gap := holds.gap
      rw [stackPage] at gap
      exact gap
    · intro gap
      refine ⟨?_, ?_⟩
      · rw [stackBase]
        apply lt_of_pageOf_lt inv.region low
        rw [target]
        exact (lt_of_unmapped gap).1
      · rw [stackPage]
        exact gap
  have fits : FaultFits m b ctx ↔ (b.ptbr.unmapped b.heapPage page).Nonempty := by
    unfold FaultFits
    rw [target]
    constructor
    · rintro (other | gap | scarce)
      · exact absurd action other
      · exact gap
      · exact absurd enough (Nat.not_le_of_lt scarce)
    · exact fun gap => Or.inr (Or.inl gap)
  refine ⟨apart.trans fits.symm, fun holds => ⟨holds, inv.region, ?_⟩⟩
  intro vpn above inside
  rw [stackPage] at above
  exact stack vpn above inside

end PCB.Spaced

/-! ### The operations on a process -/

/-- `Brk` refuses its argument, fails to grow the heap, or moves the heap end to its target. -/
theorem brk_eq_ok (h : s.brk env addr = .ok (status, s')) :
    (addr = 0 ∧ s' = s) ∨ addr ≠ 0 ∧ ∃ c m pt, s.heap s.currentProcess = some c ∧
      ((brkGrow (pageOf (upToPage addr) - c.heapPage) c.heapPage s.mem c.ptbr =
            .ok (.error, m, pt) ∧
          s' = (s.setMem m).setPcb s.currentProcess { c with ptbr := pt }) ∨
        (brkGrow (pageOf (upToPage addr) - c.heapPage) c.heapPage s.mem c.ptbr =
            .ok (.success, m, pt) ∧
          s' = (s.setMem m).setPcb s.currentProcess
            { c with
              ptbr := pt
              userHeapEndVaddr := regionAddress (pageOf (upToPage addr)) })) := by
  unfold brk at h
  by_cases zero : addr = 0
  · rw [if_pos zero] at h
    cases h
    exact Or.inl ⟨zero, rfl⟩
  · rw [if_neg zero] at h
    simp only [bind_eq_ok, deref_eq_ok] at h
    obtain ⟨c, live, ⟨grown, m, pt⟩, grew, h⟩ := h
    refine Or.inr ⟨zero, c, m, pt, live, ?_⟩
    by_cases failed : grown = .error
    · subst failed
      simp only [if_true] at h
      cases h
      exact Or.inl ⟨grew, rfl⟩
    · simp only [failed, if_false, bind_eq_ok, pure_eq_ok] at h
      obtain ⟨⟨vpn, m', pt'⟩, shrank, h⟩ := h
      cases h
      obtain ⟨rfl, rfl, rfl⟩ := brkShrink_eq_ok (Nat.le_max_right ..) shrank
      obtain ⟨-, ⟨rfl, -⟩ | ⟨error, -⟩⟩ := brkGrow_eq_ok grew
      · exact Or.inr ⟨grew, rfl⟩
      · exact absurd error failed

/-- `growStack` fails to grow the stack or moves its base to the page of the address. -/
theorem growStack_eq_ok (h : s.growStack addr = .ok (status, s')) :
    ∃ c m pt, s.heap s.currentProcess = some c ∧
      growStackPages (pageOf (downToPage addr)) (c.stackPage - pageOf (downToPage addr)) 0
        s.mem c.ptbr = .ok (status, m, pt) ∧
      ((status = .kill ∧ s' = (s.setMem m).setPcb s.currentProcess { c with ptbr := pt }) ∨
        (status = .success ∧ s' = (s.setMem m).setPcb s.currentProcess
          { c with ptbr := pt, userStackBaseVaddr := downToPage addr })) := by
  simp only [growStack, bind_eq_ok, deref_eq_ok] at h
  obtain ⟨c, live, ⟨grown, m, pt⟩, grew, h⟩ := h
  refine ⟨c, m, pt, live, ?_⟩
  rcases growStackPages_status grew with ⟨rfl, -⟩ | ⟨rfl, -⟩
  · cases h
    exact ⟨grew, Or.inr ⟨rfl, rfl⟩⟩
  · cases h
    exact ⟨grew, Or.inl ⟨rfl, rfl⟩⟩

/-- What decides whether heap and stack are apart. -/
def PCB.layout (b : PCB) : PageTable × Word × Word :=
  (b.ptbr, b.userHeapEndVaddr, b.userStackBaseVaddr)

/-- The process lives on with the same region 1 table, heap end and stack base. -/
def LayoutKept (p : PcbPtr) (s s' : Kernel) : Prop :=
  ∀ b, s.heap p = some b → ∃ b', s'.heap p = some b' ∧ b'.layout = b.layout

theorem PCB.Spaced.congr (same : b'.layout = b.layout) (inv : b.Spaced) : b'.Spaced := by
  simp only [PCB.layout, Prod.mk.injEq] at same
  obtain ⟨table, heapEnd, stackBase⟩ := same
  have heapPage : b'.heapPage = b.heapPage := by rw [PCB.heapPage, heapEnd, PCB.heapPage]
  have stackPage : b'.stackPage = b.stackPage := by rw [PCB.stackPage, stackBase, PCB.stackPage]
  refine ⟨⟨?_, ?_⟩, ?_, ?_⟩
  · rw [heapEnd, stackBase]
    exact inv.apart.below
  · rw [table, heapPage, stackPage]
    exact inv.apart.gap
  · rw [heapEnd]
    exact inv.region
  · rw [table, stackPage]
    exact inv.stack

/-- The region 1 table of a process and the bounds of its heap and stack. -/
def PCB.region1 (b : PCB) : PageTable × Word × Word × Word :=
  (b.ptbr, b.userHeapStartVaddr, b.userHeapEndVaddr, b.userStackBaseVaddr)

/-- The process lives on with the same region 1 table and the same bounds. -/
def RegionKept (p : PcbPtr) (s s' : Kernel) : Prop :=
  ∀ b, s.heap p = some b → ∃ b', s'.heap p = some b' ∧ b'.region1 = b.region1

namespace RegionKept

theorem refl (s : Kernel) : RegionKept p s s := fun b live => ⟨b, live, rfl⟩

theorem trans (first : RegionKept p s t) (second : RegionKept p t u) : RegionKept p s u := by
  intro b live
  obtain ⟨b', live', same⟩ := first b live
  obtain ⟨b'', live'', same'⟩ := second b' live'
  exact ⟨b'', live'', same'.trans same⟩

theorem of_heap (same : s'.heap = s.heap) : RegionKept p s s' := by
  intro b live
  rw [← same] at live
  exact ⟨b, live, rfl⟩

theorem setPcb {q : PcbPtr} (live : s.heap q = some b) (same : b'.region1 = b.region1) :
    RegionKept p s (s.setPcb q b') := by
  intro c found
  by_cases here : p = q
  · subst here
    obtain rfl := Option.some.inj (found.symm.trans live)
    exact ⟨b', Function.update_self .., same⟩
  · refine ⟨c, ?_, rfl⟩
    rw [setPcb_heap, Function.update_of_ne here]
    exact found

theorem modifyPcb {q : PcbPtr} {f : PCB → PCB} (h : s.modifyPcb q f = .ok s')
    (same : ∀ b, (f b).region1 = b.region1) : RegionKept p s s' := by
  obtain ⟨b, live, rfl⟩ := modifyPcb_eq_ok.mp h
  exact setPcb live (same b)

theorem kcSwitch {kc : KernelContext} {curr next : PcbPtr}
    (h : s.kcSwitch kc curr next = .ok s') : RegionKept p s s' := by
  obtain ⟨c, n, kstack, live, live', -, rfl⟩ := kcSwitch_eq_ok h
  have first : RegionKept p s (s.setPcb curr { c with kernelContext := kc }) := setPcb live rfl
  have second : RegionKept p (s.setPcb curr { c with kernelContext := kc })
      ((s.setPcb curr { c with kernelContext := kc }).setPcb next { n with state := .running }) :=
    setPcb live' rfl
  exact first.trans (second.trans (of_heap rfl))

theorem dispatch {kc : KernelContext} (h : s.dispatch kc = .ok s') : RegionKept p s s' := by
  rcases dispatch_eq_ok h with ⟨next, rest, -, switched⟩ | ⟨-, switched⟩
  · have first : RegionKept p s (s.setQueue .ready rest) := of_heap rfl
    exact first.trans (kcSwitch switched)
  · exact kcSwitch switched

theorem wakeParent {parent : Option PcbPtr} (h : s.wakeParent env parent = .ok s') :
    RegionKept p s s' := by
  rcases parent with _ | q
  · cases h
    exact refl s
  · simp only [Kernel.wakeParent, bind_eq_ok] at h
    obtain ⟨b, -, h⟩ := h
    split at h
    · simp only [bind_eq_ok, pure_eq_ok] at h
      obtain ⟨t, cleared, rfl⟩ := h
      exact (modifyPcb cleared fun _ => rfl).trans (of_heap (queueEnqueue_heap _ _))
    · cases h
      exact refl s

/-- An exit leaves every region 1 alone, that of the exiting process included. -/
theorem exit {code : Int} {origin : ExitOrigin} (h : s.exit env code origin = .ok s') :
    RegionKept p s s' := by
  simp only [Kernel.exit, bind_eq_ok, deref_eq_ok] at h
  obtain ⟨c, live, h⟩ := h
  split at h
  · simp only [bind_eq_ok] at h
    obtain ⟨_, -, h⟩ := h
    cases h
  · simp only [bind_eq_ok] at h
    obtain ⟨t, marked, u, woken, h⟩ := h
    have first : RegionKept p s (s.queueEnqueue env .zombie s.currentProcess) :=
      of_heap (queueEnqueue_heap _ _)
    have second : RegionKept p t (t.log (.exited s.currentProcess code)) := of_heap rfl
    have before := first.trans (modifyPcb marked fun _ => rfl)
    exact ((before.trans second).trans (wakeParent woken)).trans (dispatch h)

theorem layout (kept : RegionKept p s s') : LayoutKept p s s' := by
  intro b live
  obtain ⟨b', live', same⟩ := kept b live
  simp only [PCB.region1, Prod.mk.injEq] at same
  obtain ⟨table, -, heapEnd, stackBase⟩ := same
  refine ⟨b', live', ?_⟩
  rw [PCB.layout, PCB.layout, table, heapEnd, stackBase]

end RegionKept

/-! ### Runs -/

/-- What happens to a process after it was loaded. -/
inductive GrowthOp where
  | brk (addr : Word)
  | memoryTrap (ctx : UserContext)
  /-- Something that does not concern its address space. -/
  | elsewhere

/-- One step in the life of process `p`. -/
inductive GrowthStep (env : Env) (p : PcbPtr) : Kernel → GrowthOp → Kernel → Prop where
  | brk {s s' : Kernel} {addr : Word} {status : Status} (running : s.currentProcess = p)
      (called : s.brk env addr = .ok (status, s')) : GrowthStep env p s (.brk addr) s'
  | memoryTrap {s s' : Kernel} {ctx : UserContext} (running : s.currentProcess = p)
      (taken : (s.trap ctx).memoryTrapHandler env = .ok s') :
      GrowthStep env p s (.memoryTrap ctx) s'
  | elsewhere {s s' : Kernel} (kept : LayoutKept p s s') : GrowthStep env p s .elsewhere s'

/-- The request leaves a page between heap and stack. -/
def GrowthOp.Fits (m : Memory) (b : PCB) : GrowthOp → Prop
  | .brk addr => BrkFits m b addr
  | .memoryTrap ctx => FaultFits m b ctx
  | .elsewhere => True

/-- A step of a process whose heap and stack are apart keeps them so exactly if it fits. -/
theorem GrowthStep.spaced {op : GrowthOp} (step : GrowthStep env p s op s')
    (live : s.heap p = some b) (inv : b.Spaced) :
    ∃ b', s'.heap p = some b' ∧ (b'.Apart ↔ op.Fits s.mem b) ∧ (b'.Apart → b'.Spaced) := by
  cases step with
  | @brk _ addr status running called =>
      subst running
      rcases brk_eq_ok called with ⟨zero, rfl⟩ | ⟨some, c, m, pt, found, outcome⟩
      · have refused : BrkFits s'.mem b addr := Or.inl zero
        exact ⟨b, live, iff_of_true inv.apart refused, fun _ => inv⟩
      · obtain rfl := Option.some.inj (live.symm.trans found)
        rcases outcome with ⟨grew, rfl⟩ | ⟨grew, rfl⟩
        · obtain ⟨inv', fitted⟩ := inv.brkFailed grew
          exact ⟨_, Function.update_self .., iff_of_true inv'.apart fitted, fun _ => inv'⟩
        · exact ⟨_, Function.update_self .., inv.brkMoved some grew⟩
  | @memoryTrap _ ctx running taken =>
      subst running
      simp only [memoryTrapHandler, bind_eq_ok, deref_eq_ok] at taken
      obtain ⟨c, found, taken⟩ := taken
      obtain rfl : b = c := Option.some.inj (live.symm.trans found)
      have unconcerned (other : memoryTrapAction b ctx ≠ .grow)
          (kept : LayoutKept s.currentProcess (s.trap ctx) s') :
          ∃ b', s'.heap s.currentProcess = some b' ∧ (b'.Apart ↔ FaultFits s.mem b ctx) ∧
            (b'.Apart → b'.Spaced) := by
        obtain ⟨b', live', same⟩ := kept b live
        have inv' := inv.congr same
        exact ⟨b', live', iff_of_true inv'.apart (Or.inl other), fun _ => inv'⟩
      cases action : memoryTrapAction b ctx with
      | kill =>
          simp only [Kernel.trap, action] at taken
          exact unconcerned (by rw [action]; exact TrapAction.noConfusion)
            (RegionKept.exit taken).layout
      | ignore =>
          simp only [Kernel.trap, action] at taken
          cases taken
          exact unconcerned (by rw [action]; exact TrapAction.noConfusion)
            (RegionKept.of_heap rfl).layout
      | grow =>
          simp only [Kernel.trap, action, bind_eq_ok] at taken
          obtain ⟨⟨status, t⟩, grew, taken⟩ := taken
          obtain ⟨c, m, pt, found, grown, ⟨rfl, rfl⟩ | ⟨rfl, rfl⟩⟩ := growStack_eq_ok grew
          · obtain rfl := Option.some.inj (live.symm.trans found)
            obtain ⟨inv', fitted⟩ := inv.growthFailed grown
            simp only [if_true] at taken
            obtain ⟨b', live', same⟩ :=
              (RegionKept.exit (p := s.currentProcess) taken).layout _ (Function.update_self ..)
            have inv'' := inv'.congr same
            exact ⟨b', live', iff_of_true inv''.apart fitted, fun _ => inv''⟩
          · obtain rfl := Option.some.inj (live.symm.trans found)
            cases taken
            exact ⟨_, Function.update_self .., inv.grown action grown⟩
  | elsewhere kept =>
      obtain ⟨b', live', same⟩ := kept b live
      have inv' := inv.congr same
      exact ⟨b', live', iff_of_true inv'.apart trivial, fun _ => inv'⟩

/-! ### The loaded image -/

/-- Between the start of the data, which is where the heap starts, and the stack some page belongs
to no segment. -/
def LoadPlan.LeavesGap (plan : LoadPlan) : Prop :=
  ∃ vpn : Nat, vpn < maxPtLen ∧ plan.dataPg1 ≤ vpn ∧ vpn < plan.stackBase ∧ ¬ plan.Covers vpn

theorem loadPlan_fields {args : List (List Byte)} (h : loadPlan li args maxPtLen = some plan) :
    plan.textPg1 = pageOf li.tVaddr ∧ plan.textNpg = li.tNpg.toNat ∧
      plan.dataPg1 = pageOf li.idVaddr ∧ plan.dataNpg = (li.idNpg + li.udNpg).toInt ∧
      plan.stackBase = maxPtLen - plan.stackNpg ∧
      (plan.dataNpg ≤ 0x7ff00000 → plan.stackNpg + plan.dataPg1 + plan.dataNpg < maxPtLen) ∧
        -0x40000 ≤ plan.stackNpg := by
  obtain ⟨-, fits, rfl⟩ := loadPlan_eq_some.mp h
  exact ⟨rfl, rfl, rfl, rfl, rfl, room_of_pageSum fits, stackPages_ge args⟩

/-- The check of `LoadProgram` leaves a gap when the text lies below the data. -/
theorem leavesGap_of_textBelow {args : List (List Byte)}
    (planned : loadPlan li args maxPtLen = some plan)
    (order : pageOf li.tVaddr + li.tNpg.toNat ≤ pageOf li.idVaddr)
    (counts : 0 ≤ (li.idNpg + li.udNpg).toInt) (small : (li.idNpg + li.udNpg).toInt ≤ 0x7ff00000)
    (stacked : 0 ≤ plan.stackNpg) : plan.LeavesGap := by
  obtain ⟨text, textPages, data, dataPages, stack, fits, -⟩ := loadPlan_fields planned
  rw [← dataPages] at counts small
  have fits := fits small
  simp only [maxPtLen] at stack fits
  refine ⟨(plan.dataPg1 + plan.dataNpg).toNat, ?_, ?_, ?_, ?_⟩
  · simp only [maxPtLen]
    omega
  · omega
  · omega
  · rintro (⟨-, inText⟩ | ⟨-, inData⟩ | ⟨inStack, -⟩)
    · omega
    · omega
    · omega

theorem loadImage_bounds (h : loadImage req li plan argbuf m b = .ok (.success, m', b')) :
    b'.userHeapEndVaddr = BitVec.ofInt 32 (plan.dataPg1 * pageSize + vmem1Base) ∧
      b'.userStackBaseVaddr = BitVec.ofInt 32 (plan.stackBase * pageSize + vmem1Base) ∧
      b'.userHeapStartVaddr = b'.userHeapEndVaddr := by
  obtain ⟨-, -, -, -, -, -, pt, -, -, -, -, -, -, -, -, rfl⟩ := loadImage_eq_success.mp h
  exact ⟨rfl, rfl, rfl⟩

/-- A freshly loaded program has its heap and its stack apart if its layout leaves a gap. -/
theorem loadProgram_spaced (loaded : s.loadProgram env req argv p = .ok (.success, t))
    (length : ∀ b, s.heap p = some b → b.ptlr = maxPtLen)
    (gap : ∀ li args plan, req.info = some li → s.argStrings argv = .ok args →
      loadPlan li args maxPtLen = some plan → plan.LeavesGap) :
    ∃ b, t.heap p = some b ∧ b.Spaced := by
  obtain ⟨b, live, ⟨failed, -⟩ | ⟨li, args, plan, info, strings, planned, outcome⟩⟩ :=
    loadProgram_eq_ok loaded
  · cases failed
  rw [length b live] at planned
  obtain ⟨page, inside, above, below, uncovered⟩ := gap li args plan info strings planned
  rcases outcome with ⟨-, killed, -⟩ | ⟨-, m, b', image, rfl⟩
  · cases killed
  refine ⟨b', Function.update_self .., ?_⟩
  obtain ⟨-, -, data, -, stack, fits, bound⟩ := loadPlan_fields planned
  obtain ⟨heapEnd, stackBase, -⟩ := loadImage_bounds image
  obtain ⟨m₀, pt₀, m₁, pt₁, cleared, mapped, -, bits, -⟩ :=
    loadImage_eq_ok image
  have valid : ∀ vpn, vpn < maxPtLen → ((b'.ptbr vpn).valid = true ↔ plan.Covers vpn) := by
    intro vpn inside
    rw [(bits vpn).1, loadSegments_valid mapped, (clearRegion1_eq cleared).2.1]
    simp only [List.mem_range, inside, not_true_eq_false, and_false, false_or]
  obtain ⟨stackPage, isPage⟩ : ∃ k : Nat, plan.stackBase = k :=
    Int.eq_ofNat_of_zero_le (by omega)
  rw [data] at above heapEnd
  rw [isPage] at below stackBase
  rw [ofInt_page] at heapEnd stackBase
  simp only [maxPtLen] at inside stack
  have heapSmall : pageOf li.idVaddr ≤ 0x40080 := by omega
  have stackSmall : stackPage ≤ 0x40080 := by omega
  have heapAt : upToPage b'.userHeapEndVaddr = regionAddress (pageOf li.idVaddr) := by
    rw [heapEnd]
    exact upToPage_of_aligned (regionAddress_aligned heapSmall)
  have stackAt : downToPage b'.userStackBaseVaddr = regionAddress stackPage := by
    rw [stackBase]
    exact downToPage_of_aligned (regionAddress_aligned stackSmall)
  have heapPage : b'.heapPage = pageOf li.idVaddr := by
    rw [PCB.heapPage, heapAt, pageOf_regionAddress heapSmall]
  have firstPage : b'.stackPage = stackPage := by
    rw [PCB.stackPage, stackAt, pageOf_regionAddress stackSmall]
  refine ⟨⟨?_, page, mem_unmapped.mpr ⟨inside, ?_, ?_, ?_⟩⟩, ?_, ?_⟩
  · rw [heapAt, stackAt, regionAddress_toNat heapSmall, regionAddress_toNat stackSmall]
    omega
  · rw [heapPage]
    exact Int.ofNat_le.mp above
  · rw [firstPage]
    exact Int.ofNat_lt.mp below
  · exact Bool.eq_false_iff.mpr ((valid page inside).not.mpr uncovered)
  · rw [heapAt, regionAddress_toNat heapSmall]
    exact Nat.le_add_left ..
  · -- the stack segment reaches to the end of the table
    intro vpn above inside
    rw [firstPage] at above
    apply (valid vpn inside).mpr
    refine Or.inr (Or.inr ⟨?_, ?_⟩)
    · rw [isPage]
      exact Int.ofNat_le.mpr above
    · simp only [maxPtLen] at inside
      omega

/-- Heap and stack of a loaded process stay apart in a run all of whose requests fit. -/
theorem heap_below_stack (loaded : s.loadProgram env req argv p = .ok (.success, t))
    (length : ∀ b, s.heap p = some b → b.ptlr = maxPtLen)
    (gap : ∀ li args plan, req.info = some li → s.argStrings argv = .ok args →
      loadPlan li args maxPtLen = some plan → plan.LeavesGap)
    (run : Reaches (Guarded (GrowthStep env p) fun s op =>
      ∀ b, s.heap p = some b → op.Fits s.mem b) t u) :
    ∃ b, u.heap p = some b ∧ b.Apart := by
  have spaced : ∃ b, u.heap p = some b ∧ b.Spaced := by
    refine run.invariant (P := fun s => ∃ b, s.heap p = some b ∧ b.Spaced) ?_
      (loadProgram_spaced loaded length gap)
    rintro s op t ⟨b, live, inv⟩ ⟨fits, step⟩
    obtain ⟨b', live', apart, next⟩ := step.spaced live inv
    exact ⟨b', live', next (apart.mpr (fits b live))⟩
  obtain ⟨b, live, inv⟩ := spaced
  exact ⟨b, live, inv.apart⟩

instance : Decidable (BrkFits m b addr) := inferInstanceAs (Decidable (_ ∨ _))

instance {ctx : UserContext} : Decidable (FaultFits m b ctx) := inferInstanceAs (Decidable (_ ∨ _))

/-- A fault on an address that is not mapped. -/
def mapFault (addr : Word) : UserContext :=
  { UserContext.zero with code := yalnixMapErr, addr := addr }

/-- The small machine once init runs, and init loaded again. -/
def reloaded : Except Stop (Kernel × List (List Byte) × Status × Kernel) := do
  let boot ← kernelStart sampleEnv sampleBoot
  let s ← run sampleEnv (fun _ _ => true) [.tick, .resume] boot
  let args ← s.argStrings noArguments
  let (status, t) ← s.loadProgram sampleEnv sampleProgram noArguments 1
  return (s, args, status, t)

theorem sampleProgram_leavesGap (info : sampleProgram.info = some li)
    (planned : loadPlan li [] maxPtLen = some plan) : plan.LeavesGap := by
  obtain rfl := Option.some.inj info
  have stacked : ∀ li ∈ sampleProgram.info,
      ∀ plan ∈ loadPlan li [] maxPtLen, 0 ≤ plan.stackNpg := by
    decide +kernel
  exact leavesGap_of_textBelow planned (by decide) (by decide) (by decide)
    (stacked _ rfl plan planned)

theorem sampleProgram_gap (strings : s.argStrings noArguments = .ok []) (li : LoadInfo)
    (args : List (List Byte)) (plan : LoadPlan) (info : sampleProgram.info = some li)
    (known : s.argStrings noArguments = .ok args)
    (planned : loadPlan li args maxPtLen = some plan) : plan.LeavesGap := by
  obtain rfl := Except.ok.inj (known.symm.trans strings)
  exact sampleProgram_leavesGap info planned

/-- Init's heap grows by a page and its stack by three. -/
theorem heap_below_stack_sample : ∃ s : Kernel, ∃ b, s.heap 1 = some b ∧
    b.userHeapEndVaddr = 0x106000 ∧ b.userStackBaseVaddr = 0x1f8000 ∧ b.Apart := by
  have answer : (do
      let (s, args, status, t) ← reloaded
      let (_, u) ← t.brk sampleEnv 0x106000
      let v ← (u.trap (mapFault 0x1f8004)).memoryTrapHandler sampleEnv
      return decide (args = [] ∧ status = .success ∧ t.currentProcess = 1 ∧ u.currentProcess = 1 ∧
        (∀ b ∈ s.heap 1, b.ptlr = maxPtLen) ∧
        (∀ b ∈ t.heap 1, BrkFits t.mem b 0x106000) ∧
        (∀ b ∈ u.heap 1, FaultFits u.mem b (mapFault 0x1f8004)) ∧
        ∃ b ∈ v.heap 1, b.userHeapEndVaddr = 0x106000 ∧ b.userStackBaseVaddr = 0x1f8000) :
          Except Stop Bool) = .ok true := by
    decide +kernel
  simp only [reloaded, bind_eq_ok, pure_eq_ok, decide_eq_true_iff] at answer
  obtain ⟨⟨s, args, status, t⟩, ⟨boot, -, s', -, args', strings, ⟨status', t'⟩, loaded, same⟩,
    ⟨_, u⟩, heapGrown, v, stackGrown, none, success, first, second, length, heapFits, stackFits, b,
    live, ends⟩ := answer
  simp only [Prod.mk.injEq] at same
  obtain ⟨rfl, rfl, rfl, rfl⟩ := same
  simp only at none success
  subst none success
  let fits : Kernel → GrowthOp → Prop := fun s op => ∀ b, s.heap 1 = some b → op.Fits s.mem b
  have moved : Guarded (GrowthStep sampleEnv 1) fits t' (.brk 0x106000) u :=
    ⟨heapFits, .brk first heapGrown⟩
  have faulted : Guarded (GrowthStep sampleEnv 1) fits u (.memoryTrap (mapFault 0x1f8004)) v :=
    ⟨stackFits, .memoryTrap second stackGrown⟩
  have run : Reaches (Guarded (GrowthStep sampleEnv 1) fits) t' v :=
    ((Reaches.refl t').tail moved).tail faulted
  obtain ⟨b', live', apart⟩ :=
    heap_below_stack loaded length (sampleProgram_gap strings) run
  obtain rfl := Option.some.inj (live'.symm.trans live)
  exact ⟨v, b', live, ends.1, ends.2, apart⟩

/-- Init's heap grows up to its stack. -/
theorem heap_meets_stack : ¬ ∀ env s t u req argv p,
    (s : Kernel).loadProgram env req argv p = .ok (.success, t) →
    (∀ b, s.heap p = some b → b.ptlr = maxPtLen) →
    (∀ li args plan, req.info = some li → s.argStrings argv = .ok args →
      loadPlan li args maxPtLen = some plan → plan.LeavesGap) →
    Reaches (GrowthStep env p) t u → ∃ b, u.heap p = some b ∧ b.Apart := by
  intro apart
  have answer : (do
      let (s, args, status, t) ← reloaded
      let (_, u) ← t.brk sampleEnv 0x1fe000
      return decide (args = [] ∧ status = .success ∧ t.currentProcess = 1 ∧
        (∀ b ∈ s.heap 1, b.ptlr = maxPtLen) ∧
        ∀ b ∈ u.heap 1, upToPage b.userHeapEndVaddr = downToPage b.userStackBaseVaddr) :
          Except Stop Bool) = .ok true := by
    decide +kernel
  simp only [reloaded, bind_eq_ok, pure_eq_ok, decide_eq_true_iff] at answer
  obtain ⟨⟨s, args, status, t⟩, ⟨boot, -, s', -, args', strings, ⟨status', t'⟩, loaded, same⟩,
    ⟨_, u⟩, heapGrown, none, success, running, length, meet⟩ := answer
  simp only [Prod.mk.injEq] at same
  obtain ⟨rfl, rfl, rfl, rfl⟩ := same
  simp only at none success
  subst none success
  have moved : GrowthStep sampleEnv 1 t' (.brk 0x1fe000) u := .brk running heapGrown
  obtain ⟨b, live, holds⟩ := apart sampleEnv s' t' u sampleProgram noArguments 1 loaded
    length (sampleProgram_gap strings) ((Reaches.refl t').tail moved)
  have below := holds.below
  rw [meet b live] at below
  exact absurd below (Nat.lt_irrefl _)

end Yalnix
