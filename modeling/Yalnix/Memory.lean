/-
Module: Yalnix.Memory
Purpose: The frame table, the region 0 page table and physical memory, with the operations of
  mem.c, the region 0 heap of SetKernelBrk, and the page loops that Fork, Brk and growStack run
  over one region 1 table.
Trusted boundary: translated from src/mem.c, src/kernel.c, src/syscalls/process.c, src/traps/trap.c
Main exports: Memory, allocFrame, allocSpecificFrame, freeFrame, cloneFrame, copyPTEntries,
  setKernelBrk, growStackPages, brkGrow, brkShrink, loadRange, storeRange
-/
import Mathlib.Data.List.Basic
import Yalnix.Hardware

namespace Yalnix

/-- `frame_usage_t`. -/
inductive FrameUsage where
  | free
  | kernel
  | user
deriving DecidableEq, Repr, Inhabited

/-- The memory the kernel manages.  A frame descriptor is its `usage`: the other fields of
`frame_desc_t` are never read.  `phys` is the contents of the frames. -/
structure Memory where
  nframes : Nat
  freeNframes : Int
  frameTable : Nat → FrameUsage
  ptRegion0 : PageTable
  kernelBrkPage : Nat
  phys : Nat → Page

namespace Memory

/-! ### Frames -/

/-- Mark frame `pfn` and count it out of the free frames. -/
def takeFrame (m : Memory) (pfn : Nat) (usage : FrameUsage) : Memory :=
  { m with
    frameTable := Function.update m.frameTable pfn usage
    freeNframes := if 0 < m.freeNframes then m.freeNframes - 1 else m.freeNframes }

/-- `allocFrame`: the lowest free frame, or `none` where the source returns -1.  The `owner_pid`
argument is dropped: the source stores -1 whatever it is. -/
def allocFrame (m : Memory) (usage : FrameUsage) : Option (Nat × Memory) :=
  match (List.range m.nframes).find? fun pfn => m.frameTable pfn = .free with
  | some pfn => some (pfn, m.takeFrame pfn usage)
  | none => none

/-- `allocSpecificFrame`.  A negative frame number passes the source's only range check and
indexes the frame table below its start. -/
def allocSpecificFrame (m : Memory) (pfn : Int) (usage : FrameUsage) :
    Except Stop (Option Nat × Memory) :=
  if (m.nframes : Int) ≤ pfn then .ok (none, m)
  else if pfn < 0 then .error (.frameIndex pfn)
  else if m.frameTable pfn.toNat ≠ .free then .ok (none, m)
  else .ok (some pfn.toNat, m.takeFrame pfn.toNat usage)

/-- `valid_pfn`. -/
def validPfn (m : Memory) (pfn : Int) : Bool := decide (0 ≤ pfn ∧ pfn < m.nframes)

/-- `freeFrame`. -/
def freeFrame (m : Memory) (pfn : Int) : Memory :=
  if m.validPfn pfn then
    { m with
      frameTable := Function.update m.frameTable pfn.toNat .free
      freeNframes := m.freeNframes + 1 }
  else m

/-! ### Region 0 -/

/-- `MapRegion0`. -/
def mapRegion0 (m : Memory) (vpn pfn : Nat) : Memory :=
  if vpn < maxPtLen then
    { m with ptRegion0 := Function.update m.ptRegion0 vpn ⟨true, protReadWrite, pfn⟩ }
  else m

/-- `UnmapRegion0`. -/
def unmapRegion0 (m : Memory) (vpn : Nat) : Memory :=
  if vpn < maxPtLen then
    { m with ptRegion0 := Function.update m.ptRegion0 vpn Pte.zero }
  else m

/-- `memcpy` of one page between two mapped region 0 pages. -/
def copyPage (m : Memory) (dstVpn srcVpn : Nat) : Memory :=
  { m with
    phys := Function.update m.phys (m.ptRegion0 dstVpn).pfn (m.phys (m.ptRegion0 srcVpn).pfn) }

/-- `CloneFrame`: both frames are mapped at the scratch pages, copied, and unmapped again. -/
def cloneFrame (m : Memory) (pfnSrc pfnDst : Nat) : Memory :=
  let mapSrc := Function.update m.ptRegion0 scratchVpnSrc ⟨true, protRead, pfnSrc⟩
  let mapDst := Function.update mapSrc scratchVpnDst ⟨true, protReadWrite, pfnDst⟩
  let copied := copyPage { m with ptRegion0 := mapDst } scratchVpnDst scratchVpnSrc
  { copied with
    ptRegion0 := (copied.ptRegion0.invalidate scratchVpnSrc).invalidate scratchVpnDst }

/-- The growing loop of `SetKernelBrk`: `n` pages to map, the next one at `cur`. -/
def growKernelHeap : Nat → Nat → Memory → Status × Memory
  | 0, _, m => (.success, m)
  | n + 1, cur, m =>
      match m.allocFrame .kernel with
      | none => (.error, m)
      | some (pfn, m) => growKernelHeap n (cur + 1) (m.mapRegion0 cur pfn)

/-- The shrinking loop of `SetKernelBrk`: `n` pages to unmap, the last one just below `cur`. -/
def shrinkKernelHeap : Nat → Nat → Memory → Status × Memory
  | 0, _, m => (.success, m)
  | n + 1, cur, m =>
      let vpn := cur - 1
      if ¬ vpn < maxPtLen then (.error, m)
      else if (m.ptRegion0 vpn).valid then
        let pfn := (m.ptRegion0 vpn).pfn
        shrinkKernelHeap n vpn ((m.unmapRegion0 vpn).freeFrame pfn)
      else shrinkKernelHeap n vpn m

/-- `SetKernelBrk`.  The break is recorded only at the end. -/
def setKernelBrk (m : Memory) (addr : Word) : Status × Memory :=
  if addr = 0 then (.error, m)
  else
    let targetVpn := (upToPage addr).toNat / pageSize
    if kstackStartPage ≤ targetVpn then (.error, m)
    else
      match growKernelHeap (targetVpn - m.kernelBrkPage) m.kernelBrkPage m with
      | (.success, grown) =>
          match shrinkKernelHeap (m.kernelBrkPage - targetVpn) m.kernelBrkPage grown with
          | (.success, shrunk) => (.success, { shrunk with kernelBrkPage := targetVpn })
          | (status, shrunk) => (status, shrunk)
      | (status, grown) => (status, grown)

/-! ### Loops over a region 1 table -/

/-- The loop of `CopyPT`, over the entries still to visit. -/
def copyPTEntries (src : PageTable) : List Nat → Memory → PageTable → Status × Memory × PageTable
  | [], m, dst => (.success, m, dst)
  | i :: rest, m, dst =>
      if (src i).valid then
        match m.allocFrame .user with
        | none => (.error, m, dst)
        | some (dstFrame, m) =>
            copyPTEntries src rest (m.cloneFrame (src i).pfn dstFrame)
              (Function.update dst i ⟨true, (src i).prot, dstFrame⟩)
      else copyPTEntries src rest m dst

/-- The undo loop of `growStack`: give back the first `n` pages from `targetVpn` on. -/
def undoGrowStack (targetVpn : Nat) : Nat → Memory → PageTable → Memory × PageTable
  | 0, m, pt => (m, pt)
  | n + 1, m, pt =>
      let (m, pt) := undoGrowStack targetVpn n m pt
      (m.freeFrame (pt (targetVpn + n)).pfn, pt.invalidate (targetVpn + n))

/-- The loop of `growStack`: `n` pages to map, `i` pages mapped so far. -/
def growStackPages (targetVpn : Nat) :
    Nat → Nat → Memory → PageTable → Except Stop (Status × Memory × PageTable)
  | 0, _, m, pt => .ok (.success, m, pt)
  | n + 1, i, m, pt =>
      match m.allocFrame .user with
      | none =>
          let (m, pt) := undoGrowStack targetVpn i m pt
          .ok (.kill, m, pt)
      | some (pfn, m) => do
          let vpn ← tableIndex ((targetVpn + i : Nat) : Int)
          growStackPages targetVpn n (i + 1) m (Function.update pt vpn ⟨true, protReadWrite, pfn⟩)

/-- The growing loop of `Brk`: `n` pages to visit, the next one at `vpn`. -/
def brkGrow : Nat → Nat → Memory → PageTable → Except Stop (Status × Memory × PageTable)
  | 0, _, m, pt => .ok (.success, m, pt)
  | n + 1, vpn, m, pt => do
      let i ← tableIndex (vpn : Int)
      if (pt i).valid then brkGrow n (vpn + 1) m pt
      else
        match m.allocFrame .user with
        | none => return (.error, m, pt)
        | some (pfn, m) =>
            brkGrow n (vpn + 1) m (Function.update pt i ⟨true, protReadWrite, pfn⟩)

/-- The shrinking loop of `Brk`, followed for `fuel` iterations.  Its test reads region 0, and
after freeing a page it moves up. -/
def brkShrink (targetVpn : Nat) :
    Nat → Nat → Memory → PageTable → Except Stop (Nat × Memory × PageTable)
  | fuel, vpn, m, pt =>
      if vpn ≤ targetVpn then .ok (vpn, m, pt)
      else
        match fuel with
        | 0 => .error .unfinished
        | fuel + 1 => do
            let i ← tableIndex (vpn : Int)
            if (m.ptRegion0 i).valid then
              brkShrink targetVpn fuel (vpn + 1) (m.freeFrame (pt i).pfn) (pt.invalidate i)
            else brkShrink targetVpn fuel (vpn - 1) m pt

/-! ### User memory

The kernel reaches a user buffer through the region 1 table in force.  A range is accessible when
every page it meets is mapped with the protection needed. -/

/-- The region 1 pages that `[va, va + n)` meets, in ascending order. -/
def rangePages (va n : Nat) : List Nat :=
  if n = 0 then []
  else
    let first := (va - vmem1Base) / pageSize
    List.range' first ((va + n - 1 - vmem1Base) / pageSize + 1 - first)

/-- The range is empty or lies in region 1. -/
def inRegion1 (va n : Nat) : Bool := decide (n = 0 ∨ vmem1Base ≤ va ∧ va + n ≤ vmem1Limit)

/-- The byte at a region 1 address. -/
def byteAt (m : Memory) (pt : PageTable) (va : Nat) : Byte :=
  m.phys (pt ((va - vmem1Base) / pageSize)).pfn ((va - vmem1Base) % pageSize)

/-- The `n` bytes from `va` on. -/
def bytesAt (m : Memory) (pt : PageTable) (va n : Nat) : List Byte :=
  (List.range n).map fun i => m.byteAt pt (va + i)

/-- Read `n` bytes of user memory. -/
def loadRange (m : Memory) (pt : PageTable) (va n : Nat) : Except Stop (List Byte) :=
  if inRegion1 va n && (rangePages va n).all fun vpn => (pt vpn).readable then
    .ok (m.bytesAt pt va n)
  else .error (.badAddress va)

/-- The page of `[va, va + n)` that puts offset `off` of frame `pfn` inside the range. -/
def pageCovering (pt : PageTable) (va n pfn off : Nat) : Option Nat :=
  (rangePages va n).reverse.find? fun vpn =>
    (pt vpn).pfn = pfn ∧ off < pageSize ∧
      va ≤ vmem1Base + vpn * pageSize + off ∧ vmem1Base + vpn * pageSize + off < va + n

/-- Write `n` bytes of user memory, byte `i` of the range being `bytes i`. -/
def storeFun (m : Memory) (pt : PageTable) (va n : Nat) (bytes : Nat → Byte) :
    Except Stop Memory :=
  if inRegion1 va n && (rangePages va n).all fun vpn => (pt vpn).writable then
    .ok { m with
      phys := fun pfn off =>
        match pageCovering pt va n pfn off with
        | some vpn => bytes (vmem1Base + vpn * pageSize + off - va)
        | none => m.phys pfn off }
  else .error (.badAddress va)

/-- Write a list of bytes to user memory. -/
def storeRange (m : Memory) (pt : PageTable) (va : Nat) (bytes : List Byte) : Except Stop Memory :=
  m.storeFun pt va bytes.length fun i => bytes.getD i 0

end Memory

/-- The little-endian bytes of a C `int` in memory. -/
def intBytes (value : Int) : List Byte :=
  (List.range 4).map fun i => BitVec.ofInt 8 (value / 256 ^ i)

end Yalnix
