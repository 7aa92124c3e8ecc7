/-
Module: Yalnix.Malloc
Purpose: The memory allocator that user programs are linked with: a chain of blocks that fills the
  heap of the program, and the growth of that heap through the Brk system call.
Trusted boundary: translated from .yalnix/etc/new_heap.c and .yalnix/etc/yuserlib/yuser/libc.c;
  TracePrintf, lkra and the counts of helper_check_heap are left out, SysBrk enters as a `BrkService`
Main exports: MBlock, UserHeap, BrkService, sanityCheck, mergeFreePair, splitFreeBlock,
  garbageCollect, free, malloc, calloc, realloc, helperCheckHeap, growHeap, initHeap, HeapCall,
  HeapStep
-/
import Yalnix.Hardware
import Yalnix.Lib.Bytes

namespace Yalnix

/-! ### The data of the allocator

A `u_long`, a `size_t` and an address are natural numbers below `2 ^ 32`; sums and differences that
the source computes wrap around. -/

/-- A value of type `u_long`. -/
def uLong (n : Nat) : Nat := n % 0x100000000

/-- The difference of two values of type `u_long`. -/
def uLongSub (n k : Nat) : Nat := uLong (n + 0x100000000 - k)

/-- `UP_TO_PAGE`. -/
def pageUp (n : Nat) : Nat := (upToPage (BitVec.ofNat 32 n)).toNat

/-- `WORDROUND`. -/
def wordRound (n : Nat) : Nat := uLong (n + 3) / 4 * 4

/-- `mblock_t`, the header of a block. -/
structure MBlock where
  magic1 : Nat
  size : Nat
  sizeUsed : Nat
  next : Nat
  previous : Nat
  magic2 : Nat
deriving DecidableEq, Repr

/-- `sizeof(mblock_t)`. -/
def mblockSize : Nat := 24

/-- `MAGIC`. -/
def magic : Nat := 0xfeeddad

/-- `MINBLOCK`. -/
def minBlock : Nat := 48

/-- `PRE_STARTUP_HEAPSIZE`. -/
def preStartupHeapsize : Nat := 0x8000

/-- `BLOCK_START`. -/
def blockStart (bp : Nat) : Nat := uLong (bp + mblockSize)

/-- `BLOCK_END`. -/
def blockEnd (bp : Nat) (b : MBlock) : Nat := uLong (blockStart bp + b.size)

/-- The header at an address. -/
def readBlock (mem : Nat → Byte) (bp : Nat) : MBlock where
  magic1 := Bytes.long mem bp
  size := Bytes.long mem (bp + 4)
  sizeUsed := Bytes.long mem (bp + 8)
  next := Bytes.long mem (bp + 12)
  previous := Bytes.long mem (bp + 16)
  magic2 := Bytes.long mem (bp + 20)

/-- Memory with a header put at an address. -/
def writeBlock (mem : Nat → Byte) (bp : Nat) (b : MBlock) : Nat → Byte :=
  let mem := Bytes.writeLong mem bp b.magic1
  let mem := Bytes.writeLong mem (bp + 4) b.size
  let mem := Bytes.writeLong mem (bp + 8) b.sizeUsed
  let mem := Bytes.writeLong mem (bp + 12) b.next
  let mem := Bytes.writeLong mem (bp + 16) b.previous
  Bytes.writeLong mem (bp + 20) b.magic2

/-- What the allocator complains about: the calls of `helper_maybort`. -/
inductive Complaint where
  | nullBlock
  | outsideHeap (bp : Nat)
  | corruptedMagic (bp : Nat)
  | overallocated (bp : Nat)
  | notAdjacent (bp : Nat)
  | alreadyFree (addr : Nat)
  | freeNotFound (addr : Nat)
  | reallocNotFound (ptr : Nat)
deriving DecidableEq, Repr

/-- Why a call of the allocator does not come back. -/
inductive HeapStop where
  /-- The system call below it does not come back. -/
  | noReturn
  /-- The local variable `last` of `malloc` is read before it is assigned. -/
  | uninitialized
  /-- The loop was not followed to its end. -/
  | unfinished
deriving DecidableEq, Repr

/-- The memory of a program, the variables of new_heap.c, `current_break` of libc.c, the complaints
so far, and the state `os` of the machine below the program. -/
structure UserHeap (σ : Type) where
  mem : Nat → Byte
  heapStart : Nat
  heapEnd : Nat
  notInitialized : Bool
  currentBreak : Nat
  complaints : List Complaint
  os : σ

/-- `SysBrk`: what the call returns, if it comes back. -/
abbrev BrkService (σ : Type) := Nat → σ → Except HeapStop (Int × σ)

namespace UserHeap

variable {σ : Type}

/-- A program that has not used its heap yet; `brk` is the address of `_end`. -/
def initial (mem : Nat → Byte) (brk : Nat) (os : σ) : UserHeap σ where
  mem := mem
  heapStart := 0
  heapEnd := 0
  notInitialized := true
  currentBreak := brk
  complaints := []
  os := os

/-- `helper_maybort`.  The kernel ignores `YALNIX_ABORT`, so that the call comes back. -/
def maybort (h : UserHeap σ) (c : Complaint) : UserHeap σ :=
  { h with complaints := h.complaints ++ [c] }

/-- The header at `bp`. -/
def block (h : UserHeap σ) (bp : Nat) : MBlock := readBlock h.mem bp

/-- Assign to fields of the header at `bp`. -/
def modifyBlock (h : UserHeap σ) (bp : Nat) (f : MBlock → MBlock) : UserHeap σ :=
  { h with mem := writeBlock h.mem bp (f (h.block bp)) }

/-- Enough iterations for a loop over the blocks: no heap has more blocks than addresses. -/
def walkFuel (h : UserHeap σ) : Nat := h.heapEnd

/-! ### Growing -/

/-- `brk_unlocked`, and `brk`, which only adds the mutex. -/
def brkUnlocked (sysBrk : BrkService σ) (h : UserHeap σ) (addr : Nat) :
    Except HeapStop (Int × UserHeap σ) :=
  let addr := uLong (addr + 7) / 8 * 8
  let pageaddr := pageUp addr
  if pageaddr ≠ pageUp h.currentBreak then do
    let (status, os) ← sysBrk pageaddr h.os
    let h := { h with os := os }
    if status ≠ 0 then return (-1, h)
    else return (0, { h with currentBreak := addr })
  else return (0, { h with currentBreak := addr })

/-- `init_heap`. -/
def initHeap (sysBrk : BrkService σ) (h : UserHeap σ) : Except HeapStop (UserHeap σ) := do
  let h := { h with heapStart := h.currentBreak }
  let (_, h) ← h.brkUnlocked sysBrk (uLong (h.currentBreak + preStartupHeapsize))
  let h := { h with heapEnd := h.currentBreak }
  let h := h.modifyBlock h.heapStart fun _ =>
    { magic1 := magic
      size := uLongSub (uLongSub h.heapEnd h.heapStart) mblockSize
      sizeUsed := 0
      next := 0
      previous := 0
      magic2 := magic }
  return { h with notInitialized := false }

/-- `if (not_initialized) init_heap();`, as every call begins. -/
def ensureInitialized (sysBrk : BrkService σ) (h : UserHeap σ) : Except HeapStop (UserHeap σ) :=
  if h.notInitialized then h.initHeap sysBrk else .ok h

/-- `grow_heap`: the new block at the old end of the heap, or `NULL`. -/
def growHeap (sysBrk : BrkService σ) (h : UserHeap σ) (len : Nat) :
    Except HeapStop (Nat × UserHeap σ) :=
  if h.heapStart = 0 then .ok (0, h)
  else do
    let req := pageUp (uLong (h.heapEnd + len + mblockSize))
    let (rc, h) ← h.brkUnlocked sysBrk req
    if rc ≠ 0 then return (0, h)
    else
      let newEnd := h.currentBreak
      if newEnd < req then return (0, h)
      else
        let bp := h.heapEnd
        let h := h.modifyBlock bp fun _ =>
          { magic1 := magic
            size := uLongSub (uLongSub newEnd h.heapEnd) mblockSize
            sizeUsed := 0
            next := 0
            previous := 0
            magic2 := magic }
        return (bp, { h with heapEnd := newEnd })

/-! ### Blocks -/

/-- `sanity_check`. -/
def sanityCheck (h : UserHeap σ) (bp : Nat) : UserHeap σ :=
  if bp = 0 then h.maybort .nullBlock
  else if h.heapStart = h.heapEnd then h
  else
    let b := h.block bp
    let h := if bp < h.heapStart ∨ h.heapEnd ≤ bp then h.maybort (.outsideHeap bp) else h
    let h := if b.magic1 ≠ magic ∨ b.magic2 ≠ magic then h.maybort (.corruptedMagic bp) else h
    let h := if b.size < b.sizeUsed then h.maybort (.overallocated bp) else h
    if b.next ≠ 0 ∧ blockEnd bp b ≠ b.next then h.maybort (.notAdjacent bp) else h

/-- `merge_free_pair`: the block to go on with, and the heap after the merge. -/
def mergeFreePair (h : UserHeap σ) (bp : Nat) : Nat × UserHeap σ :=
  if bp = 0 then (0, h)
  else
    let second := (h.block bp).next
    if second = 0 then (0, h)
    else
      let h := (h.sanityCheck bp).sanityCheck second
      if (h.block bp).sizeUsed ≠ 0 then (second, h)
      else if (h.block second).sizeUsed ≠ 0 then (second, h)
      else
        let s := h.block second
        let h := h.modifyBlock bp fun b =>
          { b with size := uLong (b.size + s.size + mblockSize), next := s.next }
        if s.next ≠ 0 then
          (bp, (h.sanityCheck s.next).modifyBlock s.next fun n => { n with previous := bp })
        else (bp, h)

/-- `split_free_block`; the assignments are gathered by the block they change. -/
def splitFreeBlock (h : UserHeap σ) (bp len : Nat) : UserHeap σ :=
  let len := wordRound len
  let h := h.sanityCheck bp
  let b := h.block bp
  if b.sizeUsed ≠ 0 then h
  else if b.size < len then h
  else if b.size < uLong (len + minBlock) then h
  else
    let second := uLong (bp + mblockSize + len)
    let h := h.modifyBlock second fun _ =>
      { magic1 := magic
        size := uLongSub (uLongSub b.size len) mblockSize
        sizeUsed := 0
        next := b.next
        previous := bp
        magic2 := magic }
    let h := h.modifyBlock bp fun b => { b with size := len, next := second }
    if b.next ≠ 0 then h.modifyBlock b.next fun n => { n with previous := second } else h

/-- The loop of `garbage_collect`, at `bp`. -/
def collectFrom : Nat → Nat → UserHeap σ → Except HeapStop (UserHeap σ)
  | fuel, bp, h =>
      if bp = 0 then .ok h
      else
        match fuel with
        | 0 => .error .unfinished
        | fuel + 1 =>
            let (np, h) := h.mergeFreePair bp
            collectFrom fuel np h

/-- `garbage_collect`. -/
def garbageCollect (h : UserHeap σ) : Except HeapStop (UserHeap σ) :=
  collectFrom h.walkFuel h.heapStart h

/-- The loop of `helper_check_heap`, at `bp`. -/
def checkFrom : Nat → Nat → UserHeap σ → Except HeapStop (UserHeap σ)
  | fuel, bp, h =>
      if bp = 0 then .ok h
      else
        match fuel with
        | 0 => .error .unfinished
        | fuel + 1 =>
            let h := h.sanityCheck bp
            checkFrom fuel (h.block bp).next h

/-- `helper_check_heap`, which every system call begins and ends with. -/
def helperCheckHeap (sysBrk : BrkService σ) (h : UserHeap σ) : Except HeapStop (UserHeap σ) := do
  let h ← h.ensureInitialized sysBrk
  checkFrom h.walkFuel h.heapStart h

/-! ### The calls of a program -/

/-- The loop of `free`, at `bp`. -/
def freeFrom (addr : Nat) : Nat → Nat → UserHeap σ → Except HeapStop (UserHeap σ)
  | fuel, bp, h =>
      if bp = 0 then .ok (h.maybort (.freeNotFound addr))
      else
        match fuel with
        | 0 => .error .unfinished
        | fuel + 1 =>
            let h := h.sanityCheck bp
            let b := h.block bp
            if blockStart bp ≤ addr ∧ addr < blockEnd bp b then
              if b.sizeUsed = 0 then .ok (h.maybort (.alreadyFree addr))
              else (h.modifyBlock bp fun b => { b with sizeUsed := 0 }).garbageCollect
            else freeFrom addr fuel b.next h

/-- `free`. -/
def free (sysBrk : BrkService σ) (h : UserHeap σ) (addr : Nat) : Except HeapStop (UserHeap σ) :=
  if addr = 0 then .ok h
  else do
    let h ← h.ensureInitialized sysBrk
    freeFrom addr h.walkFuel h.heapStart h

/-- The loop of `malloc`, at `bp`: the first free block with room for `len`, or the last block. -/
def firstFit (len : Nat) : Nat → Nat → Option Nat → UserHeap σ →
    Except HeapStop ((Nat ⊕ Option Nat) × UserHeap σ)
  | fuel, bp, last, h =>
      if bp = 0 then .ok (.inr last, h)
      else
        match fuel with
        | 0 => .error .unfinished
        | fuel + 1 =>
            let h := h.sanityCheck bp
            let b := h.block bp
            if b.sizeUsed = 0 ∧ len ≤ b.size then .ok (.inl bp, h)
            else firstFit len fuel b.next (some bp) h

/-- `split_free_block(bp, len); bp->size_used = len;` -/
def takeBlock (h : UserHeap σ) (bp len : Nat) : UserHeap σ :=
  (h.splitFreeBlock bp len).modifyBlock bp fun b => { b with sizeUsed := len }

/-- What `malloc` does when no block is found, `last` being the last one. -/
def mallocGrowing (sysBrk : BrkService σ) (h : UserHeap σ) (len : Nat) (last : Option Nat) :
    Except HeapStop (Nat × UserHeap σ) :=
  match last with
  | none => .error .uninitialized
  | some last => do
      let (bp, h) ← h.growHeap sysBrk len
      if bp = 0 then return (0, h)
      else
        let h := h.modifyBlock last fun b => { b with next := bp }
        let h := h.modifyBlock bp fun b => { b with previous := last }
        let (bp, h) := h.mergeFreePair last
        if bp = 0 ∨ (h.block bp).sizeUsed ≠ 0 ∨ (h.block bp).size < len then return (0, h)
        else return (blockStart bp, h.takeBlock bp len)

/-- `malloc`. -/
def malloc (sysBrk : BrkService σ) (h : UserHeap σ) (len : Nat) :
    Except HeapStop (Nat × UserHeap σ) :=
  if 0x80000000 ≤ len then .ok (0, h)
  else do
    let len := wordRound (uLong (len + 4))
    let h ← h.ensureInitialized sysBrk
    match ← firstFit len h.walkFuel h.heapStart none h with
    | (.inl bp, h) => return (blockStart bp, h.takeBlock bp len)
    | (.inr last, h) => h.mallocGrowing sysBrk len last

/-- `calloc`. -/
def calloc (sysBrk : BrkService σ) (h : UserHeap σ) (nmemb size : Nat) :
    Except HeapStop (Nat × UserHeap σ) := do
  let n := uLong (nmemb * size)
  let (rp, h) ← h.malloc sysBrk n
  if rp = 0 then return (0, h)
  else return (rp, { h with mem := Bytes.write h.mem rp (List.replicate n 0) })

/-- The loop of `realloc`, at `bp`. -/
def findBlock (ptr : Nat) : Nat → Nat → UserHeap σ → Except HeapStop (Option Nat × UserHeap σ)
  | fuel, bp, h =>
      if bp = 0 then .ok (none, h)
      else
        match fuel with
        | 0 => .error .unfinished
        | fuel + 1 =>
            let h := h.sanityCheck bp
            if blockStart bp = ptr then .ok (some bp, h)
            else findBlock ptr fuel (h.block bp).next h

/-- `realloc` once the block `bp` behind `ptr` is found. -/
def resizeBlock (sysBrk : BrkService σ) (h : UserHeap σ) (bp ptr size : Nat) :
    Except HeapStop (Nat × UserHeap σ) :=
  let b := h.block bp
  let np := b.next
  let n := h.block np
  if size ≤ b.size then
    .ok (ptr, h.modifyBlock bp fun b => { b with sizeUsed := size })
  else if np ≠ 0 ∧ n.sizeUsed = 0 ∧ size ≤ uLong (b.size + n.size + mblockSize) then
    let h := h.modifyBlock bp fun b =>
      { b with next := n.next, size := uLong (b.size + n.size + mblockSize), sizeUsed := size }
    if n.next ≠ 0 then .ok (ptr, h.modifyBlock n.next fun m => { m with previous := bp })
    else .ok (ptr, h)
  else do
    let (rp, h) ← h.malloc sysBrk size
    if rp = 0 then return (0, h)
    else
      let held := Bytes.read h.mem ptr (h.block bp).sizeUsed
      let h ← { h with mem := Bytes.write h.mem rp held }.free sysBrk ptr
      return (rp, h)

/-- `realloc`. -/
def realloc (sysBrk : BrkService σ) (h : UserHeap σ) (ptr size : Nat) :
    Except HeapStop (Nat × UserHeap σ) :=
  if size = 0 then do
    let h ← h.free sysBrk ptr
    return (0, h)
  else if ptr = 0 then h.malloc sysBrk size
  else do
    let h ← h.ensureInitialized sysBrk
    match ← findBlock ptr h.walkFuel h.heapStart h with
    | (none, h) => return (0, h.maybort (.reallocNotFound ptr))
    | (some bp, h) => h.resizeBlock sysBrk bp ptr size

end UserHeap

/-- What a program does with its heap; `store` writes memory. -/
inductive HeapCall where
  | malloc (len : Word)
  | calloc (nmemb size : Word)
  | realloc (ptr size : Word)
  | free (addr : Word)
  | checkHeap
  | store (addr : Nat) (bytes : List Byte)

namespace UserHeap

variable {σ : Type}

/-- What a call returns, 0 where it returns nothing, and the heap after it. -/
def call (sysBrk : BrkService σ) (h : UserHeap σ) : HeapCall → Except HeapStop (Nat × UserHeap σ)
  | .malloc len => h.malloc sysBrk len.toNat
  | .calloc nmemb size => h.calloc sysBrk nmemb.toNat size.toNat
  | .realloc ptr size => h.realloc sysBrk ptr.toNat size.toNat
  | .free addr => do return (0, ← h.free sysBrk addr.toNat)
  | .checkHeap => do return (0, ← h.helperCheckHeap sysBrk)
  | .store addr bytes => .ok (0, { h with mem := Bytes.write h.mem addr bytes })

end UserHeap

/-- What happens to a program and its heap: a call that returns `r`, or anything that changes the
machine below the program. -/
inductive HeapEvent (σ : Type) where
  | call (c : HeapCall) (r : Nat)
  | system (os' : σ)

/-- One step of a program. -/
inductive HeapStep {σ : Type} (sysBrk : BrkService σ) :
    UserHeap σ → HeapEvent σ → UserHeap σ → Prop where
  | call {h h' : UserHeap σ} {c : HeapCall} {r : Nat} (done : h.call sysBrk c = .ok (r, h')) :
      HeapStep sysBrk h (.call c r) h'
  | system {h : UserHeap σ} {os' : σ} : HeapStep sysBrk h (.system os') { h with os := os' }

end Yalnix
