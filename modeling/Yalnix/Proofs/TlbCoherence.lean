/-
Module: Yalnix.Proofs.TlbCoherence
Purpose: When the TLB agrees with the page tables: which operations flush what they change, and
  which leave stale entries behind.
Trusted boundary: none
Main exports: Mmu.Coherent, MmuOp.Rewrites, MmuOp.KeepsFresh, tlb_stays_fresh
-/
import Yalnix.Proofs.RegionOne
import Yalnix.Proofs.RegionZero
import Yalnix.Run
import Yalnix.Tlb

namespace Yalnix

open Memory Transition

variable {env : Env} {m m' : Memory} {pt pt' : PageTable} {tlb tlb' : Tlb} {s s' : Mmu}

/-- Every entry that the TLB holds is the current page-table entry of its page, and valid. -/
def Tlb.Fresh (tlb : Tlb) (table : VPage → Pte) : Prop :=
  Lookaside.Coherent (fun e : Pte => e.valid = true) tlb table

/-! ### Flushes and accesses -/

namespace Tlb.Fresh

theorem access (fresh : tlb.Fresh (translation m pt)) (page : VPage) :
    (tlb.access m pt page).Fresh (translation m pt) := Lookaside.Coherent.fill fresh page

theorem accessAll {pages : List VPage} (fresh : tlb.Fresh (translation m pt)) :
    (Tlb.accessAll m pt pages tlb).Fresh (translation m pt) := by
  induction pages generalizing tlb with
  | nil => exact fresh
  | cons page rest inductionHypothesis => exact inductionHypothesis (fresh.access page)

theorem accessRange (fresh : tlb.Fresh (translation m pt)) (va : Word) (n : Nat) :
    (tlb.accessRange m pt va n).Fresh (translation m pt) := fresh.accessAll

/-- Entries that a flush drops, or that are not held, may change before it. -/
theorem write {table table' : VPage → Pte} (fresh : tlb.Fresh table) (value : Word)
    (same : ∀ page, flushes value page = false → tlb page ≠ none → table' page = table page) :
    (tlb.write value).Fresh table' := by
  apply Lookaside.Coherent.retable_flush fresh
  intro page kept held
  exact same page (Bool.eq_false_iff.mpr kept) held

/-- Flushing region 1 makes any change of the region 1 table safe. -/
theorem writeRegion1 (fresh : tlb.Fresh (translation m pt))
    (region0 : m'.ptRegion0 = m.ptRegion0) (next : PageTable) :
    (tlb.write tlbFlush1).Fresh (translation m' next) := by
  apply fresh.write
  intro page kept held
  cases page with
  | region0 vpn => exact congrFun region0 vpn
  | region1 vpn => exact absurd kept Bool.noConfusion

theorem congr (fresh : tlb.Fresh (translation m pt)) (region0 : m'.ptRegion0 = m.ptRegion0) :
    tlb.Fresh (translation m' pt) := by
  have same : translation m' pt = translation m pt := by
    funext page
    cases page with
    | region0 vpn => exact congrFun region0 vpn
    | region1 vpn => rfl
  rw [same]
  exact fresh

end Tlb.Fresh

/-- Writing the address of a page flushes that page. -/
theorem flushes_address {value : Word} (small : value.toNat < vmem1Limit) (page : VPage) :
    flushes value page = decide (addressPage value = some page) := by
  have other : ∀ {flag : Word}, vmem1Limit ≤ flag.toNat → value ≠ flag := by
    rintro flag large rfl
    exact absurd small (Nat.not_lt.mpr large)
  unfold flushes
  rw [if_neg (other (by decide)), if_neg (other (by decide)), if_neg (other (by decide)),
    if_neg (other (by decide))]

/-- A page number taken for an address lies in page 0. -/
theorem flushes_pageNumber {vpn : Nat} (small : vpn < maxPtLen) (page : VPage) :
    flushes (BitVec.ofNat 32 vpn) page = decide (page = .region0 0) := by
  simp only [maxPtLen] at small
  have value : (BitVec.ofNat 32 vpn).toNat = vpn := by
    rw [BitVec.toNat_ofNat]
    omega
  rw [flushes_address (by rw [value]; simp only [vmem1Limit]; omega)]
  have first : addressPage (BitVec.ofNat 32 vpn) = some (.region0 0) := by
    unfold addressPage
    rw [value, if_pos (by simp only [vmem1Base]; omega),
      Nat.div_eq_of_lt (by simp only [pageSize]; omega)]
  rw [first]
  simp only [Option.some.injEq, eq_comm]

/-! ### LoadProgram -/

/-- `LoadProgram` flushes region 1 after each change of its table. -/
theorem loadImageTlb_eq_ok {req : LoadRequest} {li : LoadInfo} {plan : LoadPlan} {argbuf : ArgBuf}
    {b b' : PCB} {status : Status}
    (h : loadImageTlb req li plan argbuf m b tlb = .ok (status, m', b', tlb')) :
    Kernel.loadImage req li plan argbuf m b = .ok (status, m', b') ∧
      (tlb.Fresh (translation m b.ptbr) → tlb'.Fresh (translation m' b'.ptbr)) := by
  rcases cleared : clearRegion1 (List.range maxPtLen) m b.ptbr with ⟨m₀, pt₀⟩
  simp only [loadImageTlb, cleared, bind_eq_ok] at h
  obtain ⟨⟨m₁, pt₁⟩, mapped, ⟨textOk, m₂⟩, text, h⟩ := h
  have kept := (Region0Kept.clearRegion1 cleared).trans (.loadSegments mapped)
  have wrote := (readInto_eq_ok text).2
  have textFresh : tlb.Fresh (translation m b.ptbr) →
      ((tlb.write tlbFlush1).accessRange m₂ pt₁ li.tVaddr (segmentSize li.tNpg)).Fresh
        (translation m₂ pt₁) := fun fresh =>
    ((fresh.writeRegion1 kept.table pt₁).congr wrote.ptRegion0).accessRange _ _
  rcases textOk with _ | _
  · cases h
    refine ⟨?_, textFresh⟩
    simp only [Kernel.loadImage, cleared, bind_eq_ok]
    exact ⟨_, mapped, _, text, rfl⟩
  · simp only [Bool.not_true, Bool.false_eq_true, if_false, bind_eq_ok] at h
    obtain ⟨⟨dataOk, m₃⟩, data, h⟩ := h
    have wrote' := (readInto_eq_ok data).2
    have dataFresh := fun fresh =>
      ((textFresh fresh).congr wrote'.ptRegion0).accessRange li.idVaddr (segmentSize li.idNpg)
    rcases dataOk with _ | _
    · cases h
      refine ⟨?_, dataFresh⟩
      simp only [Kernel.loadImage, cleared, bind_eq_ok]
      refine ⟨_, mapped, _, text, ?_⟩
      simp only [Bool.not_true, Bool.false_eq_true, if_false, bind_eq_ok]
      exact ⟨_, data, rfl⟩
    · simp only [Bool.not_true, Bool.false_eq_true, if_false, bind_eq_ok] at h
      obtain ⟨pt₂, executable, m₄, zeroed, m₅, built, h⟩ := h
      cases h
      constructor
      · simp only [Kernel.loadImage, cleared, bind_eq_ok]
        refine ⟨_, mapped, _, text, ?_⟩
        simp only [Bool.not_true, Bool.false_eq_true, if_false, bind_eq_ok]
        refine ⟨_, data, ?_⟩
        simp only [Bool.not_true, Bool.false_eq_true, if_false, bind_eq_ok]
        exact ⟨_, executable, _, zeroed, _, built, rfl⟩
      · intro fresh
        have zero : m₄.ptRegion0 = m₃.ptRegion0 := (WritesOnly.storeFun zeroed).ptRegion0
        have build := (WritesOnly.buildStack built).ptRegion0
        have flushed := (dataFresh fresh).writeRegion1 zero pt₂
        have cleared := flushed.accessRange li.idEnd (li.udEnd - li.idEnd).toNat
        exact (cleared.congr build).accessRange _ _

theorem Kernel.tableInForce_setPcb {k : Kernel} {p : PcbPtr} {b : PCB} (inForce : k.ptbr1 = p) :
    (k.setPcb p b).tableInForce = b.ptbr := by
  simp [Kernel.tableInForce, inForce]

/-- `LoadProgram` does what the model without TLB does, and keeps the TLB fresh. -/
theorem loadProgramTlb_eq_ok {req : LoadRequest} {argv : ArgVector} {status : Status}
    (h : loadProgramTlb env s req argv = .ok (status, s')) :
    s.kernel.loadProgram env req argv s.kernel.ptbr1 = .ok (status, s'.kernel) ∧
      (s.tlb.Fresh s.current → s'.tlb.Fresh s'.current) := by
  simp only [loadProgramTlb, bind_eq_ok] at h
  obtain ⟨b, live, h⟩ := h
  have found := Kernel.deref_eq_ok.mp live
  have table : s.kernel.tableInForce = b.ptbr := by simp only [Kernel.tableInForce, found]
  simp only [Kernel.loadProgram, bind_eq_ok]
  rcases information : req.info with _ | li
  · simp only [information] at h
    cases h
    exact ⟨⟨b, live, rfl⟩, id⟩
  · simp only [information] at h
    by_cases foreign : li.entry.toNat < vmem1Base
    · rw [if_pos foreign] at h
      cases h
      exact ⟨⟨b, live, if_pos foreign⟩, id⟩
    rw [if_neg foreign, bind_eq_ok] at h
    obtain ⟨args, strings, h⟩ := h
    simp only [if_neg foreign, bind_eq_ok]
    rcases planned : loadPlan li args b.ptlr with _ | plan
    · simp only [planned] at h
      cases h
      exact ⟨⟨b, live, args, strings, by simp only [planned]; rfl⟩, id⟩
    · simp only [planned, Kernel.malloc_fst] at h
      by_cases allocated : env.mallocOk s.kernel.mallocCalls = true
      · simp only [allocated, Bool.not_true, Bool.false_eq_true, if_false] at h
        split at h
        · cases h
        · rename_i whole
          simp only [bind_eq_ok, pure_eq_ok] at h
          obtain ⟨saved, again, ⟨loaded, m, b', tlb⟩, image, h⟩ := h
          obtain ⟨rfl, rfl⟩ := Prod.mk.inj h
          obtain ⟨plain, fresh⟩ := loadImageTlb_eq_ok image
          constructor
          · refine ⟨b, live, args, strings, ?_⟩
            simp only [planned, Kernel.malloc_fst, allocated, Bool.not_true, Bool.false_eq_true,
              if_false, if_neg whole, bind_eq_ok, pure_eq_ok]
            exact ⟨saved, again, _, plain, rfl⟩
          · intro before
            have after :
                (((s.kernel.malloc env).2.setMem m).setPcb s.kernel.ptbr1 b').tableInForce =
                  b'.ptbr := Kernel.tableInForce_setPcb rfl
            rw [Mmu.current, table] at before
            change tlb.Fresh (translation m _)
            rw [after]
            exact fresh before
      · simp only [allocated, Bool.not_false, if_true] at h
        cases h
        constructor
        · refine ⟨b, live, args, strings, ?_⟩
          simp only [planned, Kernel.malloc_fst, allocated, Bool.not_false, if_true]
          rfl
        · intro before
          have after : ((s.kernel.malloc env).2.setPcb s.kernel.ptbr1
              (Kernel.PCB.withStackPointer b plan.cpp)).tableInForce = b.ptbr :=
            Kernel.tableInForce_setPcb rfl
          rw [Mmu.current, table, ← after] at before
          exact before

/-! ### SetKernelBrk -/

/-- Unmapping a page that is not held, or page 0, whose flush is the only one that is right. -/
theorem shrinkKernelHeapTlb_fresh {n cur : Nat} {status : Status} (some : n ≤ cur)
    (h : shrinkKernelHeapTlb n cur m tlb = (status, m', tlb'))
    (unheld : ∀ vpn, cur - n ≤ vpn → vpn < cur → vpn ≠ 0 → (m.ptRegion0 vpn).valid = true →
      tlb (.region0 vpn) = none)
    (fresh : tlb.Fresh (translation m pt)) : tlb'.Fresh (translation m' pt) := by
  induction n generalizing cur m tlb with
  | zero =>
      cases h
      exact fresh
  | succ n inductionHypothesis =>
      simp only [shrinkKernelHeapTlb] at h
      split at h
      · cases h
        exact fresh
      · rename_i inside
        have inside : cur - 1 < maxPtLen := not_not.mp inside
        split at h
        · rename_i valid
          have elsewhere : ∀ other, other ≠ cur - 1 →
              ((m.unmapRegion0 (cur - 1)).freeFrame (m.ptRegion0 (cur - 1)).pfn).ptRegion0 other =
                m.ptRegion0 other := by
            intro other ne
            rw [freeFrame_ptRegion0, unmapRegion0_of_ne ne]
          apply inductionHypothesis (by omega) h
          · intro vpn low high notFirst mapped
            rw [elsewhere vpn (Nat.ne_of_lt high)] at mapped
            exact Lookaside.flush_eq_none (unheld vpn (by omega) (by omega) notFirst mapped)
          · apply fresh.write
            intro page kept held
            cases page with
            | region1 vpn => rfl
            | region0 vpn =>
                by_cases same : vpn = cur - 1
                · subst same
                  rw [flushes_pageNumber inside, decide_eq_false_iff_not] at kept
                  have notFirst : cur - 1 ≠ 0 := fun first => kept (congrArg VPage.region0 first)
                  exact absurd (unheld _ (by omega) (by omega) notFirst valid) held
                · exact elsewhere vpn same
        · refine inductionHypothesis (by omega) h ?_ fresh
          intro vpn low high
          exact unheld vpn (by omega) (by omega)

/-- The region 0 pages that `SetKernelBrk` maps, or unmaps with the wrong flush: from the break up
to the target as far as there are frames, or from the target up to the break except page 0. -/
def Memory.BrkRewrites (m : Memory) (addr : Word) (vpn : Nat) : Prop :=
  let targetVpn := (upToPage addr).toNat / pageSize
  addr ≠ 0 ∧ targetVpn < kstackStartPage ∧
    (m.kernelBrkPage ≤ vpn ∧
        vpn < m.kernelBrkPage + min (targetVpn - m.kernelBrkPage) m.freeFrames.card ∨
      targetVpn ≤ vpn ∧ vpn < m.kernelBrkPage ∧ vpn ≠ 0)

theorem setKernelBrkTlb_fresh {addr : Word} {status : Status}
    (h : setKernelBrkTlb m tlb addr = (status, m', tlb'))
    (unheld : ∀ vpn, m.BrkRewrites addr vpn → (m.ptRegion0 vpn).valid = true →
      tlb (.region0 vpn) = none)
    (fresh : tlb.Fresh (translation m pt)) : tlb'.Fresh (translation m' pt) := by
  unfold setKernelBrkTlb at h
  simp only [BrkRewrites] at unheld
  generalize (upToPage addr).toNat / pageSize = target at h unheld
  by_cases zero : addr = 0
  · rw [if_pos zero] at h
    cases h
    exact fresh
  · rw [if_neg zero] at h
    simp only at h
    by_cases high : kstackStartPage ≤ target
    · rw [if_pos high] at h
      cases h
      exact fresh
    · rw [if_neg high] at h
      have room := Nat.lt_of_not_le high
      rcases grown : growKernelHeap (target - m.kernelBrkPage) m.kernelBrkPage m with ⟨status', m₁⟩
      have grew : tlb.Fresh (translation m₁ pt) := by
        apply Lookaside.Coherent.retable fresh
        intro page held
        cases page with
        | region1 vpn => rfl
        | region0 vpn =>
            apply growKernelHeap_eq grown
            intro inside
            by_cases valid : (m.ptRegion0 vpn).valid = true
            · exact held (unheld vpn ⟨zero, room, Or.inl inside⟩ valid)
            · exact held (Lookaside.Coherent.eq_none fresh valid)
      rw [grown] at h
      rcases status' with _ | _ | _
      · rcases shrunk : shrinkKernelHeapTlb (m.kernelBrkPage - target) m.kernelBrkPage m₁ tlb with
          ⟨status'', m₂, tlb₂⟩
        have shrank : tlb₂.Fresh (translation m₂ pt) := by
          apply shrinkKernelHeapTlb_fresh (Nat.sub_le _ _) shrunk _ grew
          intro vpn low below notFirst valid
          rw [growKernelHeap_eq grown (by omega)] at valid
          exact unheld vpn ⟨zero, room, Or.inr ⟨by omega, below, notFirst⟩⟩ valid
        simp only [shrunk] at h
        rcases status'' with _ | _ | _
        · cases h
          exact shrank
        · cases h
          exact shrank
        · cases h
          exact shrank
      · cases h
        exact grew
      · cases h
        exact grew

/-! ### CloneFrame -/

/-- Both scratch pages may change before both are flushed. -/
theorem Tlb.Fresh.writeScratch {table table' : VPage → Pte} (fresh : tlb.Fresh table)
    (same : ∀ page, page ≠ .region0 scratchVpnSrc → page ≠ .region0 scratchVpnDst →
      table' page = table page) :
    ((tlb.write scratchAddrSrc).write scratchAddrDst).Fresh table' := by
  have src : ∀ page, flushes scratchAddrSrc page = decide (page = .region0 scratchVpnSrc) := by
    intro page
    have scratch : addressPage scratchAddrSrc = some (.region0 scratchVpnSrc) := by decide
    rw [flushes_address (by decide), scratch]
    simp only [Option.some.injEq, eq_comm]
  have dst : ∀ page, flushes scratchAddrDst page = decide (page = .region0 scratchVpnDst) := by
    intro page
    have scratch : addressPage scratchAddrDst = some (.region0 scratchVpnDst) := by decide
    rw [flushes_address (by decide), scratch]
    simp only [Option.some.injEq, eq_comm]
  have first : (tlb.write scratchAddrSrc).Fresh table := fresh.write _ fun _ _ _ => rfl
  apply first.write
  intro page kept held
  rw [dst, decide_eq_false_iff_not] at kept
  apply same page _ kept
  rintro rfl
  apply held
  simp only [Tlb.write, Lookaside.flush, src, decide_true, if_true]

theorem cloneFrameTlb_fresh {src dst : Nat} (fresh : tlb.Fresh (translation m pt)) :
    (cloneFrameTlb m pt tlb src dst).2.Fresh
      (translation (cloneFrameTlb m pt tlb src dst).1 pt) := by
  unfold cloneFrameTlb
  apply Tlb.Fresh.writeScratch
  · apply Tlb.Fresh.access
    apply Tlb.Fresh.access
    apply fresh.writeScratch
    intro page notSrc notDst
    cases page with
    | region1 vpn => rfl
    | region0 vpn =>
        have ne : vpn ≠ scratchVpnSrc := fun same => notSrc (congrArg VPage.region0 same)
        have ne' : vpn ≠ scratchVpnDst := fun same => notDst (congrArg VPage.region0 same)
        simp only [translation, Function.update_of_ne ne, Function.update_of_ne ne']
  · intro page notSrc notDst
    cases page with
    | region1 vpn => rfl
    | region0 vpn =>
        have ne : vpn ≠ scratchVpnSrc := fun same => notSrc (congrArg VPage.region0 same)
        have ne' : vpn ≠ scratchVpnDst := fun same => notDst (congrArg VPage.region0 same)
        simp only [translation, PageTable.invalidate, copyPage, Function.update_of_ne ne,
          Function.update_of_ne ne']

/-! ### growStack -/

theorem Kernel.tableInForce_setPcb_of_ne {k : Kernel} {p : PcbPtr} {b : PCB} (other : k.ptbr1 ≠ p) :
    (k.setPcb p b).tableInForce = k.tableInForce := by
  simp only [Kernel.tableInForce, Kernel.setPcb_ptbr1, Kernel.setPcb_heap,
    Function.update_of_ne other]

/-- The region 1 pages that `growStack` maps for the process with PCB `c`. -/
def Kernel.StackRewrites (s : Kernel) (c : PCB) (addr : Word) (vpn : Nat) : Prop :=
  let targetVpn := pageOf (downToPage addr)
  let stackBaseVpn := pageOf (downToPage c.userStackBaseVaddr)
  targetVpn ≤ vpn ∧ vpn < targetVpn + min (stackBaseVpn - targetVpn) s.mem.freeFrames.card

theorem growStack_fresh {k k' : Kernel} {addr : Word} {status : Status}
    (h : k.growStack addr = .ok (status, k'))
    (unheld : ∀ c vpn, k.heap k.currentProcess = some c → k.StackRewrites c addr vpn →
      (c.ptbr vpn).valid = true → tlb (.region1 vpn) = none)
    (fresh : tlb.Fresh (translation k.mem k.tableInForce)) :
    tlb.Fresh (translation k'.mem k'.tableInForce) := by
  simp only [Kernel.growStack, bind_eq_ok, Kernel.deref_eq_ok] at h
  obtain ⟨c, live, ⟨grown, m, pt⟩, grew, h⟩ := h
  have region0 := (Region0Kept.growStackPages grew).table
  obtain ⟨base, rfl⟩ : ∃ base, k' = (k.setMem m).setPcb k.currentProcess
      { c with ptbr := pt, userStackBaseVaddr := base } := by
    by_cases failed : grown = .kill
    · simp only [failed, if_true] at h
      cases h
      exact ⟨c.userStackBaseVaddr, rfl⟩
    · simp only [failed, if_false] at h
      cases h
      exact ⟨_, rfl⟩
  have moved : tlb.Fresh (translation m k.tableInForce) := fresh.congr region0
  by_cases inForce : k.ptbr1 = k.currentProcess
  · have after : ((k.setMem m).setPcb k.currentProcess
        { c with ptbr := pt, userStackBaseVaddr := base }).tableInForce = pt :=
      Kernel.tableInForce_setPcb inForce
    have before : k.tableInForce = c.ptbr := by
      simp only [Kernel.tableInForce, inForce, live]
    rw [after]
    rw [before] at moved
    apply Lookaside.Coherent.retable moved
    intro page held
    cases page with
    | region0 vpn => rfl
    | region1 vpn =>
        apply growStackPages_eq grew
        intro inside
        rw [Nat.zero_add] at inside
        by_cases valid : (c.ptbr vpn).valid = true
        · exact held (unheld c vpn live inside valid)
        · exact held (Lookaside.Coherent.eq_none moved valid)
  · have other : (k.setMem m).ptbr1 ≠ k.currentProcess := inForce
    rw [Kernel.tableInForce_setPcb_of_ne other]
    exact moved

/-! ### Runs -/

/-- No page that the operation rewrites without flushing it is both mapped and held in the TLB. -/
def MmuOp.SafeIn (s : Mmu) : MmuOp → Prop
  | .setKernelBrk addr => ∀ vpn, s.kernel.mem.BrkRewrites addr vpn →
      (s.kernel.mem.ptRegion0 vpn).valid = true → s.tlb (.region0 vpn) = none
  | .growStack addr => ∀ c vpn, s.kernel.heap s.kernel.currentProcess = some c →
      s.kernel.StackRewrites c addr vpn → (c.ptbr vpn).valid = true → s.tlb (.region1 vpn) = none
  | _ => True

/-- One operation keeps the TLB fresh. -/
theorem MmuOp.fresh {op : MmuOp} (safe : op.SafeIn s) (h : op.run env s = .ok s')
    (fresh : s.tlb.Fresh s.current) : s'.tlb.Fresh s'.current := by
  cases op with
  | access page =>
      cases h
      exact Tlb.Fresh.access fresh page
  | setKernelBrk addr =>
      cases h
      exact setKernelBrkTlb_fresh rfl safe fresh
  | cloneFrame src dst =>
      cases h
      exact cloneFrameTlb_fresh fresh
  | kcSwitch kc curr next =>
      simp only [run, bind_eq_ok, pure_eq_ok] at h
      obtain ⟨k, -, rfl⟩ := h
      refine Tlb.Fresh.write fresh tlbFlushAll ?_
      intro page kept
      exact absurd kept Bool.noConfusion
  | loadProgram req argv =>
      simp only [run, bind_eq_ok, pure_eq_ok] at h
      obtain ⟨⟨status, t⟩, loaded, rfl⟩ := h
      exact (loadProgramTlb_eq_ok loaded).2 fresh
  | growStack addr =>
      simp only [run, bind_eq_ok, pure_eq_ok] at h
      obtain ⟨⟨status, k⟩, grown, rfl⟩ := h
      exact growStack_fresh grown safe fresh

/-- In a run that starts with an empty TLB and whose operations are safe where they happen, every
entry of the TLB is the current page-table entry of its page. -/
theorem tlb_stays_fresh {k : Kernel}
    (run : Reaches (Guarded (fun s op t => MmuOp.run env s op = .ok t) fun s op => op.SafeIn s)
      { kernel := k, tlb := Lookaside.empty } s) :
    ∀ page entry, s.tlb page = some entry → s.current page = entry := by
  have fresh : s.tlb.Fresh s.current := by
    refine run.invariant (P := fun s => s.tlb.Fresh s.current) ?_ Lookaside.Coherent.empty
    rintro s op t fresh ⟨safe, taken⟩
    exact op.fresh safe taken fresh
  exact fun page entry held => (fresh page entry held).1

/-- The kernel heap grows by a page, which is then accessed. -/
theorem tlb_fresh_sample : ∃ s : Mmu, s.tlb (.region0 10) ≠ none ∧
    ∀ page entry, s.tlb page = some entry → s.current page = entry := by
  have answer : (do
      let boot ← Kernel.kernelStart sampleEnv sampleBoot
      let s ← MmuOp.run sampleEnv { kernel := boot, tlb := Lookaside.empty } (.setKernelBrk 0x16000)
      let s ← MmuOp.run sampleEnv s (.access (.region0 10))
      return decide (s.tlb (.region0 10) ≠ none) : Except Stop Bool) = .ok true := by
    decide +kernel
  simp only [bind_eq_ok, pure_eq_ok, decide_eq_true_iff] at answer
  obtain ⟨boot, -, s₁, grown, s₂, accessed, held⟩ := answer
  have first : MmuOp.SafeIn { kernel := boot, tlb := Lookaside.empty } (.setKernelBrk 0x16000) :=
    fun _ _ _ => rfl
  have second : MmuOp.SafeIn s₁ (.access (.region0 10)) := trivial
  have run : Reaches
      (Guarded (fun s op t => MmuOp.run sampleEnv s op = .ok t) fun s op => op.SafeIn s)
      { kernel := boot, tlb := Lookaside.empty } s₂ :=
    ((Reaches.refl _).tail ⟨first, grown⟩).tail ⟨second, accessed⟩
  exact ⟨s₂, held, tlb_stays_fresh run⟩

/-- The kernel heap grows by a page, the page is accessed, and the heap shrinks again: the page
stays translated to the frame that was freed. -/
theorem tlb_goes_stale : ¬ ∀ env k s,
    Reaches (fun s op t => MmuOp.run env s op = .ok t) { kernel := k, tlb := Lookaside.empty } s →
    ∀ page entry, s.tlb page = some entry → s.current page = entry := by
  intro fresh
  have answer : (do
      let boot ← Kernel.kernelStart sampleEnv sampleBoot
      let s ← MmuOp.run sampleEnv { kernel := boot, tlb := Lookaside.empty } (.setKernelBrk 0x16000)
      let s ← MmuOp.run sampleEnv s (.access (.region0 10))
      let s ← MmuOp.run sampleEnv s (.setKernelBrk 0x14000)
      return (s.tlb (.region0 10)).any fun entry => decide (s.current (.region0 10) ≠ entry) :
        Except Stop Bool) = .ok true := by
    decide +kernel
  simp only [bind_eq_ok, pure_eq_ok, Option.any_eq_true, decide_eq_true_iff] at answer
  obtain ⟨boot, -, s₁, grown, s₂, accessed, s₃, shrunk, entry, held, stale⟩ := answer
  have run : Reaches (fun s op t => MmuOp.run sampleEnv s op = .ok t)
      { kernel := boot, tlb := Lookaside.empty } s₃ :=
    (((Reaches.refl _).tail grown).tail accessed).tail shrunk
  exact stale (fresh _ _ _ run _ _ held)

end Yalnix
