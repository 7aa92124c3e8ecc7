/-
Module: Yalnix.Tlb
Purpose: The translation lookaside buffer: what the machine keeps of the page tables, what a write
  to REG_TLB_FLUSH drops, and the operations on memory with the flushes the kernel writes.
Trusted boundary: translated from src/mem.c, src/kernel.c and src/traps/trap.c; the flush values
  are those of hardware.h
Main exports: VPage, Tlb, Tlb.write, Tlb.access, translation, setKernelBrkTlb, cloneFrameTlb,
  loadProgramTlb, Mmu, MmuOp
-/
import Yalnix.Lib.Lookaside
import Yalnix.Loader
import Yalnix.Trap

namespace Yalnix

/-- A virtual page. -/
inductive VPage where
  | region0 (vpn : Nat)
  | region1 (vpn : Nat)
deriving DecidableEq, Repr

/-- The page of a virtual address. -/
def addressPage (addr : Word) : Option VPage :=
  if addr.toNat < vmem1Base then some (.region0 (addr.toNat / pageSize))
  else if addr.toNat < vmem1Limit then some (.region1 ((addr.toNat - vmem1Base) / pageSize))
  else none

abbrev Tlb := Lookaside VPage Pte

@[simp] def tlbFlushAll : Word := -1
@[simp] def tlbFlush0 : Word := -2
@[simp] def tlbFlush1 : Word := -3
@[simp] def tlbFlushKstack : Word := -4

/-- The page is flushed when this value is written to `REG_TLB_FLUSH`. -/
def flushes (value : Word) (page : VPage) : Bool :=
  if value = tlbFlushAll then true
  else if value = tlbFlush0 then
    match page with
    | .region0 _ => true
    | .region1 _ => false
  else if value = tlbFlush1 then
    match page with
    | .region0 _ => false
    | .region1 _ => true
  else if value = tlbFlushKstack then
    match page with
    | .region0 vpn => decide (kstackStartPage ≤ vpn ∧ vpn < kstackStartPage + kstackPages)
    | .region1 _ => false
  else decide (addressPage value = some page)

/-- `WriteRegister(REG_TLB_FLUSH, value)`. -/
def Tlb.write (tlb : Tlb) (value : Word) : Tlb := tlb.flush fun page => flushes value page = true

/-- The current page-table entry of every page, with the region 1 table `pt` in force. -/
def translation (m : Memory) (pt : PageTable) : VPage → Pte
  | .region0 vpn => m.ptRegion0 vpn
  | .region1 vpn => pt vpn

/-- An access to a page: a valid entry that is not held is taken into the buffer. -/
def Tlb.access (tlb : Tlb) (m : Memory) (pt : PageTable) (page : VPage) : Tlb :=
  tlb.fill (fun e : Pte => e.valid = true) (translation m pt) page

/-- Accesses to a list of pages. -/
def Tlb.accessAll (m : Memory) (pt : PageTable) : List VPage → Tlb → Tlb
  | [], tlb => tlb
  | page :: rest, tlb => accessAll m pt rest (tlb.access m pt page)

/-- Accesses to the pages of `[va, va + n)` in region 1. -/
def Tlb.accessRange (tlb : Tlb) (m : Memory) (pt : PageTable) (va : Word) (n : Nat) : Tlb :=
  accessAll m pt ((Memory.rangePages va.toNat n).map .region1) tlb

/-! ### Region 0 -/

/-- The shrinking loop of `SetKernelBrk`, which writes the page number to the flush register. -/
def shrinkKernelHeapTlb : Nat → Nat → Memory → Tlb → Status × Memory × Tlb
  | 0, _, m, tlb => (.success, m, tlb)
  | n + 1, cur, m, tlb =>
      let vpn := cur - 1
      if ¬ vpn < maxPtLen then (.error, m, tlb)
      else if (m.ptRegion0 vpn).valid then
        let pfn := (m.ptRegion0 vpn).pfn
        shrinkKernelHeapTlb n vpn ((m.unmapRegion0 vpn).freeFrame pfn)
          (tlb.write (BitVec.ofNat 32 vpn))
      else shrinkKernelHeapTlb n vpn m tlb

/-- `SetKernelBrk`. -/
def setKernelBrkTlb (m : Memory) (tlb : Tlb) (addr : Word) : Status × Memory × Tlb :=
  if addr = 0 then (.error, m, tlb)
  else
    let targetVpn := (upToPage addr).toNat / pageSize
    if kstackStartPage ≤ targetVpn then (.error, m, tlb)
    else
      match Memory.growKernelHeap (targetVpn - m.kernelBrkPage) m.kernelBrkPage m with
      | (.success, grown) =>
          match shrinkKernelHeapTlb (m.kernelBrkPage - targetVpn) m.kernelBrkPage grown tlb with
          | (.success, shrunk, tlb) => (.success, { shrunk with kernelBrkPage := targetVpn }, tlb)
          | (status, shrunk, tlb) => (status, shrunk, tlb)
      | (status, grown) => (status, grown, tlb)

/-- `SCRATCH_ADDR_SRC`. -/
@[simp] def scratchAddrSrc : Word := 0xf8000

/-- `SCRATCH_ADDR_DST`. -/
@[simp] def scratchAddrDst : Word := 0xfa000

/-- `CloneFrame`, with the region 1 table `pt` in force. -/
def cloneFrameTlb (m : Memory) (pt : PageTable) (tlb : Tlb) (pfnSrc pfnDst : Nat) : Memory × Tlb :=
  let mapSrc := Function.update m.ptRegion0 scratchVpnSrc ⟨true, protRead, pfnSrc⟩
  let mapDst := Function.update mapSrc scratchVpnDst ⟨true, protReadWrite, pfnDst⟩
  let mapped := { m with ptRegion0 := mapDst }
  let tlb := (tlb.write scratchAddrSrc).write scratchAddrDst
  let tlb := (tlb.access mapped pt (.region0 scratchVpnSrc)).access mapped pt
    (.region0 scratchVpnDst)
  let copied := mapped.copyPage scratchVpnDst scratchVpnSrc
  let unmapped := { copied with
    ptRegion0 := (copied.ptRegion0.invalidate scratchVpnSrc).invalidate scratchVpnDst }
  (unmapped, (tlb.write scratchAddrSrc).write scratchAddrDst)

/-! ### The kernel and its buffer -/

/-- The kernel's state with the contents of the TLB. -/
structure Mmu where
  kernel : Kernel
  tlb : Tlb

/-- The region 1 table that `REG_PTBR1` points to. -/
def Kernel.tableInForce (s : Kernel) : PageTable :=
  match s.heap s.ptbr1 with
  | some b => b.ptbr
  | none => fun _ => Pte.zero

/-- The current page-table entry of every page. -/
def Mmu.current (s : Mmu) : VPage → Pte := translation s.kernel.mem s.kernel.tableInForce

/-- `LoadProgram` after its point of no return, for the process whose table is in force: region 1 is
flushed when the new segments are mapped, and again when the text is made executable. -/
def loadImageTlb (req : LoadRequest) (li : LoadInfo) (plan : LoadPlan) (argbuf : ArgBuf)
    (m : Memory) (b : PCB) (tlb : Tlb) : Except Stop (Status × Memory × PCB × Tlb) := do
  let (m, pt) := clearRegion1 (List.range maxPtLen) m b.ptbr
  let (m, pt) ← loadSegments plan m pt
  let tlb := tlb.write tlbFlush1
  let (textOk, m) ← readInto m pt li.tVaddr (segmentSize li.tNpg) req.text
  let tlb := tlb.accessRange m pt li.tVaddr (segmentSize li.tNpg)
  if !textOk then return (.kill, m, { b with ptbr := pt }, tlb)
  else
    let (dataOk, m) ← readInto m pt li.idVaddr (segmentSize li.idNpg) req.data
    let tlb := tlb.accessRange m pt li.idVaddr (segmentSize li.idNpg)
    if !dataOk then return (.kill, m, { b with ptbr := pt }, tlb)
    else
      let pt ← protectText plan.textPg1 plan.textNpg 0 pt
      let tlb := tlb.write tlbFlush1
      let m ← m.storeFun pt li.idEnd.toNat (li.udEnd - li.idEnd).toNat fun _ => 0
      let tlb := tlb.accessRange m pt li.idEnd (li.udEnd - li.idEnd).toNat
      let heap := BitVec.ofInt 32 (plan.dataPg1 * pageSize + vmem1Base)
      let stack := BitVec.ofInt 32 (plan.stackBase * pageSize + vmem1Base)
      let m ← buildStack plan argbuf pt m
      let tlb := tlb.accessRange m pt plan.cpp (vmem1Limit - plan.cpp.toNat)
      return (.success, m,
        { b with
          ptbr := pt
          userContext := { b.userContext with pc := li.entry }
          userHeapStartVaddr := heap
          userHeapEndVaddr := heap
          userStackBaseVaddr := stack }, tlb)

/-- `LoadProgram`, for the process whose table is in force.  Its reads of the arguments are accesses
that come before the table changes. -/
def loadProgramTlb (env : Env) (s : Mmu) (req : LoadRequest) (argv : ArgVector) :
    Except Stop (Status × Mmu) := do
  let proc := s.kernel.ptbr1
  let b ← s.kernel.deref proc
  match req.info with
  | none => return (.error, s)
  | some li =>
      if li.entry.toNat < vmem1Base then return (.error, s)
      else
        let args ← s.kernel.argStrings argv
        match loadPlan li args b.ptlr with
        | none => return (.error, s)
        | some plan =>
            let b := { b with userContext := { b.userContext with sp := plan.cpp } }
            let (allocated, k) := s.kernel.malloc env
            if !allocated then return (.kill, { s with kernel := k.setPcb proc b })
            else if argSize args ≠ argBytes args then throw .heapOverflow
            else
              let saved ← k.argStrings argv
              let (status, m, b, tlb) ← loadImageTlb req li plan (saveArgs saved) k.mem b s.tlb
              return (status, { kernel := (k.setMem m).setPcb proc b, tlb := tlb })

/-- The operations that change page tables, and accesses to memory. -/
inductive MmuOp where
  | access (page : VPage)
  | setKernelBrk (addr : Word)
  | cloneFrame (src dst : Nat)
  | kcSwitch (kc : KernelContext) (curr next : PcbPtr)
  | loadProgram (req : LoadRequest) (argv : ArgVector)
  | growStack (addr : Word)

/-- What an operation does, whatever it returns: `KCSwitch` ends with a flush of everything and
`growStack` flushes nothing. -/
def MmuOp.run (env : Env) (s : Mmu) : MmuOp → Except Stop Mmu
  | .access page =>
      .ok { s with tlb := s.tlb.access s.kernel.mem s.kernel.tableInForce page }
  | .setKernelBrk addr =>
      let (_, m, tlb) := setKernelBrkTlb s.kernel.mem s.tlb addr
      .ok { kernel := s.kernel.setMem m, tlb := tlb }
  | .cloneFrame src dst =>
      let (m, tlb) := cloneFrameTlb s.kernel.mem s.kernel.tableInForce s.tlb src dst
      .ok { kernel := s.kernel.setMem m, tlb := tlb }
  | .kcSwitch kc curr next => do
      let k ← s.kernel.kcSwitch kc curr next
      return { kernel := k, tlb := s.tlb.write tlbFlushAll }
  | .loadProgram req argv => do return (← loadProgramTlb env s req argv).2
  | .growStack addr => do
      let (_, k) ← s.kernel.growStack addr
      return { s with kernel := k }

end Yalnix
