/-
Module: Yalnix.Proofs.HeapStart
Purpose: Where LoadProgram lets the heap of a program start, and whether the pages of the program
  stay out of the range that Brk and memory faults manage in every later run.
Trusted boundary: none
Main exports: HeapAboveProgram, LaterStep.heapFrom, heap_above_program
-/
import Yalnix.Proofs.HeapBreak

namespace Yalnix

open Kernel Memory Transition

variable {env : Env} {s s' t u : Kernel} {p : PcbPtr} {addr start : Word} {req : LoadRequest}
  {argv : ArgVector} {args : List (List Byte)} {li : LoadInfo} {plan : LoadPlan} {b b' : PCB}
  {status : Status}

/-! ### The pages of a program -/

/-- The pages of data and bss together. -/
def LoadInfo.dataAndBss (li : LoadInfo) : Nat := li.idNpg.toNat + li.udNpg.toNat

/-- A page of text. -/
def LoadInfo.TextPage (li : LoadInfo) (vpn : Nat) : Prop :=
  pageOf li.tVaddr ≤ vpn ∧ vpn < pageOf li.tVaddr + li.tNpg.toNat

/-- A page of data or bss. -/
def LoadInfo.DataPage (li : LoadInfo) (vpn : Nat) : Prop :=
  pageOf li.idVaddr ≤ vpn ∧ vpn < pageOf li.idVaddr + li.dataAndBss

/-- Some address of the page lies in `[low, high)`. -/
def PageMeets (vpn : Nat) (low high : Word) : Prop :=
  low.toNat < vmem1Base + (vpn + 1) * pageSize ∧ vmem1Base + vpn * pageSize < high.toNat

/-- No page of the program lies in the heap or between heap and stack. -/
def ProgramClear (li : LoadInfo) (b : PCB) : Prop :=
  ∀ vpn, li.TextPage vpn ∨ li.DataPage vpn →
    ¬ PageMeets vpn b.userHeapStartVaddr b.userHeapEndVaddr ∧
      ¬ PageMeets vpn b.userHeapEndVaddr b.userStackBaseVaddr

/-- One step in the life of process `p`: a `Brk` with an address from the heap start on, a memory
fault, or something that does not concern its address space. -/
inductive LaterStep (env : Env) (p : PcbPtr) : Kernel → GrowthOp → Kernel → Prop where
  | brk {s s' : Kernel} {addr : Word} {status : Status} (running : s.currentProcess = p)
      (above : ∀ b, s.heap p = some b → b.userHeapStartVaddr.toNat ≤ addr.toNat)
      (called : s.brk env addr = .ok (status, s')) : LaterStep env p s (.brk addr) s'
  | memoryTrap {s s' : Kernel} {ctx : UserContext} (running : s.currentProcess = p)
      (taken : (s.trap ctx).memoryTrapHandler env = .ok s') : LaterStep env p s (.memoryTrap ctx) s'
  | elsewhere {s s' : Kernel} (kept : RegionKept p s s') : LaterStep env p s .elsewhere s'

/-- After the load the heap is empty and starts at the first page address after the program's data,
and in every later run no page of the program is in the way of heap and stack. -/
structure HeapAboveProgram (env : Env) (p : PcbPtr) (li : LoadInfo) (t : Kernel) : Prop where
  starts : ∃ b, t.heap p = some b ∧ b.userHeapEndVaddr = b.userHeapStartVaddr ∧
    b.userHeapStartVaddr.toNat = vmem1Base + (pageOf li.idVaddr + li.dataAndBss) * pageSize
  clear : ∀ u, Reaches (LaterStep env p) t u → ∃ b, u.heap p = some b ∧ ProgramClear li b

/-! ### Later runs -/

/-- The heap starts at `start` and has not been moved below it. -/
structure HeapFrom (start : Word) (b : PCB) : Prop where
  begins : b.userHeapStartVaddr = start
  above : start.toNat ≤ b.userHeapEndVaddr.toNat
  small : b.heapPage ≤ 0x40080

theorem HeapFrom.congr (same : b'.region1 = b.region1) (heap : HeapFrom start b) :
    HeapFrom start b' := by
  simp only [PCB.region1, Prod.mk.injEq] at same
  obtain ⟨-, heapStart, heapEnd, -⟩ := same
  constructor
  · rw [heapStart]
    exact heap.begins
  · rw [heapEnd]
    exact heap.above
  · rw [PCB.heapPage, heapEnd]
    exact heap.small

/-- The page address a successful `Brk` moves the heap end to is not below its argument. -/
theorem le_regionAddress (small : pageOf (upToPage addr) ≤ 0x40080) :
    addr.toNat ≤ (regionAddress (pageOf (upToPage addr))).toNat := by
  have round : (upToPage addr).toNat = (addr.toNat + 0x1fff) / 0x2000 * 0x2000 % 2 ^ 32 :=
    BitVec.toNat_ofNat ..
  have target := upToPage_toNat_of_page small
  have bound := addr.isLt
  rw [regionAddress_toNat small]
  simp only [vmem1Base] at target ⊢
  omega

theorem heapPage_of_region {page : Nat} (small : page ≤ 0x40080)
    (ends : b.userHeapEndVaddr = regionAddress page) : b.heapPage = page := by
  rw [PCB.heapPage, ends, upToPage_of_aligned (regionAddress_aligned small),
    pageOf_regionAddress small]

/-- A `Brk` with an address from the heap start on. -/
theorem HeapFrom.moved {m m' : Memory} {pt : PageTable} (heap : HeapFrom start b)
    (fromStart : start.toNat ≤ addr.toNat)
    (grew : brkGrow (pageOf (upToPage addr) - b.heapPage) b.heapPage m b.ptbr =
      .ok (.success, m', pt)) :
    HeapFrom start
      { b with ptbr := pt, userHeapEndVaddr := regionAddress (pageOf (upToPage addr)) } := by
  obtain ⟨-, ⟨-, -, -, range⟩ | ⟨failed, -⟩⟩ := brkGrow_eq_ok grew
  case inr => cases failed
  have heapSmall := heap.small
  simp only [maxPtLen] at range
  have small : pageOf (upToPage addr) ≤ 0x40080 := by omega
  obtain ⟨moved, isMoved⟩ : ∃ moved : PCB, moved =
      { b with ptbr := pt, userHeapEndVaddr := regionAddress (pageOf (upToPage addr)) } := ⟨_, rfl⟩
  have begins : moved.userHeapStartVaddr = b.userHeapStartVaddr := by rw [isMoved]
  have ends : moved.userHeapEndVaddr = regionAddress (pageOf (upToPage addr)) := by rw [isMoved]
  rw [← isMoved]
  refine ⟨begins.trans heap.begins, ?_, ?_⟩
  · rw [ends]
    exact fromStart.trans (le_regionAddress small)
  · rw [heapPage_of_region small ends]
    exact small

/-- A step keeps the heap start and does not move the heap end below it. -/
theorem LaterStep.heapFrom {op : GrowthOp} (step : LaterStep env p s op s')
    (live : s.heap p = some b) (heap : HeapFrom start b) :
    ∃ b', s'.heap p = some b' ∧ HeapFrom start b' := by
  have kept_of {t t' : Kernel} {c : PCB} (live : t.heap p = some c) (heap : HeapFrom start c)
      (kept : RegionKept p t t') : ∃ b', t'.heap p = some b' ∧ HeapFrom start b' := by
    obtain ⟨b', live', same⟩ := kept c live
    exact ⟨b', live', heap.congr same⟩
  cases step with
  | @brk _ addr status running above called =>
      subst running
      rcases brk_eq_ok called with ⟨-, rfl⟩ | ⟨-, c, m, pt, found, outcome⟩
      · exact ⟨b, live, heap⟩
      · obtain rfl := Option.some.inj (live.symm.trans found)
        rcases outcome with ⟨grew, rfl⟩ | ⟨grew, rfl⟩
        · exact ⟨_, Function.update_self .., heap.begins, heap.above, heap.small⟩
        · have fromStart := above b live
          rw [heap.begins] at fromStart
          exact ⟨_, Function.update_self .., heap.moved fromStart grew⟩
  | @memoryTrap _ ctx running taken =>
      subst running
      simp only [memoryTrapHandler, bind_eq_ok, deref_eq_ok] at taken
      obtain ⟨c, found, taken⟩ := taken
      obtain rfl : b = c := Option.some.inj (live.symm.trans found)
      cases action : memoryTrapAction b ctx with
      | kill =>
          simp only [Kernel.trap, action] at taken
          have live' : (s.trap ctx).heap s.currentProcess = some b := live
          exact kept_of live' heap (.exit taken)
      | ignore =>
          simp only [Kernel.trap, action] at taken
          cases taken
          exact ⟨b, live, heap⟩
      | grow =>
          simp only [Kernel.trap, action, bind_eq_ok] at taken
          obtain ⟨⟨status, t⟩, grew, taken⟩ := taken
          obtain ⟨c, m, pt, found, -, ⟨rfl, rfl⟩ | ⟨rfl, rfl⟩⟩ := growStack_eq_ok grew
          · obtain rfl := Option.some.inj (live.symm.trans found)
            simp only [if_true] at taken
            have heap' : HeapFrom start { b with ptbr := pt } :=
              ⟨heap.begins, heap.above, heap.small⟩
            exact kept_of (Function.update_self ..) heap' (.exit taken)
          · obtain rfl := Option.some.inj (live.symm.trans found)
            cases taken
            exact ⟨_, Function.update_self .., heap.begins, heap.above, heap.small⟩
  | elsewhere kept => exact kept_of live heap kept

/-- The same over every later run. -/
theorem heapFrom_reaches (live : t.heap p = some b) (heap : HeapFrom start b)
    (run : Reaches (LaterStep env p) t u) : ∃ b, u.heap p = some b ∧ HeapFrom start b := by
  refine run.invariant (P := fun s => ∃ b, s.heap p = some b ∧ HeapFrom start b) ?_ ⟨b, live, heap⟩
  rintro s op t ⟨b, live, heap⟩ step
  exact step.heapFrom live heap

/-! ### The load -/

/-- Where a load that succeeds puts heap and stack. -/
theorem loadProgram_bounds (loaded : s.loadProgram env req argv p = .ok (.success, t))
    (info : req.info = some li) (strings : s.argStrings argv = .ok args)
    (length : ∀ b, s.heap p = some b → b.ptlr = maxPtLen) :
    ∃ b plan, t.heap p = some b ∧ loadPlan li args maxPtLen = some plan ∧
      b.userHeapStartVaddr = b.userHeapEndVaddr ∧
      b.userHeapEndVaddr = regionAddress (pageOf li.idVaddr) ∧
      b.userStackBaseVaddr = BitVec.ofInt 32 (plan.stackBase * pageSize + vmem1Base) := by
  obtain ⟨b, live, ⟨failed, -⟩ | ⟨li', args', plan, info', strings', planned, outcome⟩⟩ :=
    loadProgram_eq_ok loaded
  · cases failed
  obtain rfl := Option.some.inj (info.symm.trans info')
  obtain rfl := Except.ok.inj (strings.symm.trans strings')
  rw [length b live] at planned
  rcases outcome with ⟨-, killed, -⟩ | ⟨-, m, b', image, rfl⟩
  · cases killed
  obtain ⟨heapEnd, stackBase, heapStart⟩ := loadImage_bounds image
  obtain ⟨-, -, data, -⟩ := loadPlan_fields planned
  rw [data, ofInt_page] at heapEnd
  exact ⟨b', plan, Function.update_self .., planned, heapStart, heapEnd, stackBase⟩

/-- Without pages of data the data page is a small number. -/
theorem dataPage_small {args : List (List Byte)} (planned : loadPlan li args maxPtLen = some plan)
    (empty : li.dataAndBss = 0) :
    pageOf li.idVaddr ≤ 0x40080 ∧ plan.stackBase ≤ 0x40080 ∧
      pageOf li.idVaddr < plan.stackBase := by
  obtain ⟨-, -, data, dataNpg, stackBase, fits, bound⟩ := loadPlan_fields planned
  have noInit : li.idNpg = 0 := BitVec.eq_of_toNat_eq (Nat.add_eq_zero_iff.mp empty).1
  have noBss : li.udNpg = 0 := BitVec.eq_of_toNat_eq (Nat.add_eq_zero_iff.mp empty).2
  have none : plan.dataNpg = 0 := by
    rw [dataNpg, noInit, noBss]
    rfl
  have fits := fits (by rw [none]; decide)
  simp only [maxPtLen] at stackBase fits
  omega

/-- A heap that starts at the data and after it starts after no data. -/
theorem dataAndBss_eq_zero {page pages : Nat}
    (starts : (regionAddress page).toNat = vmem1Base + (page + pages) * pageSize) : pages = 0 := by
  have bound : (regionAddress page).toNat ≤ page * pageSize + vmem1Base := by
    rw [regionAddress, BitVec.toNat_ofNat]
    exact Nat.mod_le ..
  simp only [pageSize] at starts bound
  omega

/-- Every load that succeeds: the heap is above the program in all later runs if the program has no
data and its text lies below the data page; and only if it has no data and no text between there and
the stack. -/
theorem heap_above_program (loaded : s.loadProgram env req argv p = .ok (.success, t))
    (info : req.info = some li) (strings : s.argStrings argv = .ok args)
    (length : ∀ b, s.heap p = some b → b.ptlr = maxPtLen) :
    (li.dataAndBss = 0 ∧ (∀ vpn, li.TextPage vpn → vpn < pageOf li.idVaddr) →
      HeapAboveProgram env p li t) ∧
    (HeapAboveProgram env p li t → li.dataAndBss = 0 ∧
      ∀ plan, loadPlan li args maxPtLen = some plan → ∀ vpn : Nat, li.TextPage vpn →
        vpn < pageOf li.idVaddr ∨ plan.stackBase ≤ vpn) := by
  obtain ⟨b, plan, live, planned, heapStart, heapEnd, stackBase⟩ :=
    loadProgram_bounds loaded info strings length
  constructor
  · -- nothing is in the way
    rintro ⟨empty, textBelow⟩
    obtain ⟨small, -, -⟩ := dataPage_small planned empty
    have begins : b.userHeapStartVaddr = regionAddress (pageOf li.idVaddr) :=
      heapStart.trans heapEnd
    have address := regionAddress_toNat small
    constructor
    case starts =>
      refine ⟨b, live, heapStart.symm, ?_⟩
      rw [begins, address, empty]
      simp only [pageSize]
      omega
    case clear =>
      intro u run
      have heap : HeapFrom (regionAddress (pageOf li.idVaddr)) b := by
        refine ⟨begins, ?_, ?_⟩
        · rw [heapEnd]
        · rw [heapPage_of_region small heapEnd]
          exact small
      obtain ⟨c, live', later⟩ := heapFrom_reaches live heap run
      refine ⟨c, live', fun vpn page => ?_⟩
      have below : vpn < pageOf li.idVaddr := by
        rcases page with text | data
        · exact textBelow vpn text
        · have none := data.2
          rw [empty] at none
          exact absurd none (Nat.not_lt.mpr data.1)
      have above := later.above
      rw [PageMeets, PageMeets, later.begins]
      rw [address] at above ⊢
      simp only [pageSize]
      omega
  · -- what is in the way at once
    intro holds
    obtain ⟨c, live', -, starts⟩ := holds.starts
    obtain rfl : b = c := Option.some.inj (live.symm.trans live')
    rw [heapStart, heapEnd] at starts
    have empty := dataAndBss_eq_zero starts
    refine ⟨empty, fun plan' planned' vpn text => ?_⟩
    obtain rfl : plan = plan' := Option.some.inj (planned.symm.trans planned')
    obtain ⟨small, stackSmall, order⟩ := dataPage_small planned empty
    obtain ⟨stackPage, isPage⟩ : ∃ k : Nat, plan.stackBase = k :=
      Int.eq_ofNat_of_zero_le (by omega)
    rw [isPage] at stackBase stackSmall ⊢
    rw [ofInt_page] at stackBase
    by_contra between
    obtain ⟨c, live'', clear⟩ := holds.clear t (.refl t)
    obtain rfl : b = c := Option.some.inj (live.symm.trans live'')
    apply (clear vpn (Or.inl text)).2
    rw [PageMeets, heapEnd, stackBase, regionAddress_toNat small,
      regionAddress_toNat (Int.ofNat_le.mp stackSmall)]
    simp only [pageSize]
    omega

/-- A page of text and no data. -/
def textOnly : LoadRequest where
  info := some
    { entry := 0x100000, tVaddr := 0x100000, tNpg := 1, idVaddr := 0x102000, idNpg := 0,
      idEnd := 0x102000, udNpg := 0, udEnd := 0x102000 }
  text := some (0x2000, fun _ => 0)
  data := some (0, fun _ => 0)

theorem textOnly_below (info : textOnly.info = some li) :
    li.dataAndBss = 0 ∧ ∀ vpn, li.TextPage vpn → vpn < pageOf li.idVaddr := by
  obtain rfl := Option.some.inj info
  refine ⟨rfl, fun vpn text => ?_⟩
  have below := text.2
  exact below

/-- Init loads it. -/
theorem heap_above_program_sample : ∃ (s t : Kernel) (li : LoadInfo),
    s.loadProgram sampleEnv textOnly noArguments 1 = .ok (.success, t) ∧ textOnly.info = some li ∧
      HeapAboveProgram sampleEnv 1 li t := by
  have answer : (do
      let boot ← kernelStart sampleEnv sampleBoot
      let s ← run sampleEnv (fun _ _ => true) [.tick, .resume] boot
      let args ← s.argStrings noArguments
      let loaded ← s.loadProgram sampleEnv textOnly noArguments 1
      return decide (args = [] ∧ loaded.1 = .success ∧ ∀ b ∈ s.heap 1, b.ptlr = maxPtLen) :
        Except Stop Bool) = .ok true := by
    decide +kernel
  simp only [bind_eq_ok, pure_eq_ok, decide_eq_true_iff] at answer
  obtain ⟨boot, -, s, -, args, strings, ⟨status, t⟩, loaded, none, success, length⟩ := answer
  simp only at success
  subst success
  obtain ⟨li, info⟩ : ∃ li, textOnly.info = some li := ⟨_, rfl⟩
  exact ⟨s, t, li, loaded, info,
    (heap_above_program loaded info strings length).1 (textOnly_below info)⟩

/-- Init's heap starts at its data. -/
theorem heap_starts_at_data : ¬ ∀ env (s t : Kernel) req argv p li,
    s.loadProgram env req argv p = .ok (.success, t) → req.info = some li →
    (∀ b, s.heap p = some b → b.ptlr = maxPtLen) → HeapAboveProgram env p li t := by
  intro above
  have answer : (do
      let (s, _, status, t) ← reloaded
      return decide (status = .success ∧ (∀ b ∈ s.heap 1, b.ptlr = maxPtLen) ∧
        ∀ b ∈ t.heap 1, b.userHeapStartVaddr = 0x102000) : Except Stop Bool) = .ok true := by
    decide +kernel
  simp only [reloaded, bind_eq_ok, pure_eq_ok, decide_eq_true_iff] at answer
  obtain ⟨⟨s, args, status, t⟩, ⟨boot, -, s', -, args', -, ⟨status', t'⟩, loaded, same⟩, success,
    length, starts⟩ := answer
  simp only [Prod.mk.injEq] at same
  obtain ⟨rfl, rfl, rfl, rfl⟩ := same
  simp only at success
  subst success
  obtain ⟨li, info⟩ : ∃ li, sampleProgram.info = some li := ⟨_, rfl⟩
  have holds := above sampleEnv s' t' sampleProgram noArguments 1 li loaded info length
  obtain ⟨b, live, -, afterData⟩ := holds.starts
  rw [starts b live] at afterData
  obtain rfl := Option.some.inj info
  exact absurd afterData (by decide)

end Yalnix
