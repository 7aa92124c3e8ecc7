/-
Module: Yalnix.Hardware
Purpose: The machine the kernel runs on: memory geometry, page-table entries, the user context,
  and the ways in which a kernel path can fail to come back.
Trusted boundary: the constants and layouts are those of hardware.h and kernel.h
Main exports: Word, upToPage, downToPage, pageOf, Pte, PageTable, UserContext, Stop, Status
-/
import Mathlib.Algebra.Order.Ring.Int
import Mathlib.Algebra.Order.Ring.Nat
import Mathlib.Logic.Function.Basic
import Mathlib.Data.Fintype.Basic

namespace Yalnix

/-- A machine word: `void *`, `u_long` and `unsigned int` are 32 bits wide in this build. -/
abbrev Word := BitVec 32

/-- A byte of memory or of terminal data. -/
abbrev Byte := BitVec 8

/-! ### Geometry

All numbers are the values that `hardware.h`, `kernel.h` and `mem.h` compute. -/

@[simp] def pageSize : Nat := 0x2000
@[simp] def vmem1Base : Nat := 0x100000
@[simp] def vmem1Limit : Nat := 0x200000

/-- `MAX_PT_LEN`, which is also `NUM_PAGES_REGION0` and `NUM_PAGES_REGION1`. -/
@[simp] def maxPtLen : Nat := 128

/-- The frames of `MAX_PMEM_SIZE` bytes, the largest physical memory. -/
@[simp] def maxFrames : Nat := 0x1000

/-- The page of `KERNEL_STACK_BASE`. -/
@[simp] def kstackStartPage : Nat := 126
@[simp] def kstackPages : Nat := 2

/-- The page of `SCRATCH_ADDR_DST`, just below the kernel stack. -/
@[simp] def scratchVpnDst : Nat := 125

/-- The page of `SCRATCH_ADDR_SRC`. -/
@[simp] def scratchVpnSrc : Nat := 124

@[simp] def terminalMaxLine : Nat := 1024
@[simp] def maxProcs : Nat := 128

/-- One of the `NUM_TERMINALS` terminals. -/
abbrev TtyId := Fin 4

/-- `UP_TO_PAGE`, on 32-bit values. -/
def upToPage (n : Word) : Word := BitVec.ofNat 32 ((n.toNat + 0x1fff) / 0x2000 * 0x2000)

/-- `DOWN_TO_PAGE`, on 32-bit values. -/
def downToPage (n : Word) : Word := BitVec.ofNat 32 (n.toNat / 0x2000 * 0x2000)

/-- `(a - VMEM_1_BASE) >> PAGESHIFT`, with the wrap-around of the unsigned subtraction. -/
def pageOf (a : Word) : Nat := (a - BitVec.ofNat 32 vmem1Base).toNat / 0x2000

theorem downToPage_toNat (n : Word) : (downToPage n).toNat = n.toNat / 0x2000 * 0x2000 := by
  have bound := n.isLt
  simp only [downToPage, BitVec.toNat_ofNat]
  omega

theorem upToPage_toNat {n : Word} (small : n.toNat ≤ 0xffffe000) :
    (upToPage n).toNat = (n.toNat + 0x1fff) / 0x2000 * 0x2000 := by
  simp only [upToPage, BitVec.toNat_ofNat]
  omega

/-- Inside region 1 the page number is the distance from the region's base in pages. -/
theorem pageOf_eq {a : Word} (low : vmem1Base ≤ a.toNat) :
    pageOf a = (a.toNat - vmem1Base) / 0x2000 := by
  have bound := a.isLt
  simp only [pageOf, vmem1Base] at low ⊢
  rw [BitVec.toNat_sub_of_le (by rw [BitVec.le_def]; simpa using low)]
  simp

/-! ### Page tables -/

/-- A page-table entry.  `pfn` is a 24-bit field in the hardware. -/
structure Pte where
  valid : Bool
  prot : Nat
  pfn : Nat
deriving DecidableEq, Repr, Inhabited

/-- The all-zero entry that `memset` leaves. -/
def Pte.zero : Pte := ⟨false, 0, 0⟩

@[simp] def protRead : Nat := 1
@[simp] def protWrite : Nat := 2
@[simp] def protExec : Nat := 4

/-- `PROT_READ | PROT_WRITE`. -/
@[simp] def protReadWrite : Nat := 3

/-- `PROT_READ | PROT_EXEC`. -/
@[simp] def protReadExec : Nat := 5

def Pte.readable (e : Pte) : Bool := e.valid && e.prot % 2 == 1
def Pte.writable (e : Pte) : Bool := e.valid && e.prot / 2 % 2 == 1

/-- A page table, indexed by page number.  Only the first `maxPtLen` entries of a region table
exist in memory; the functions that index a table check the bound with `tableIndex`. -/
abbrev PageTable := Nat → Pte

/-- The contents of a page or of a frame, by offset. -/
abbrev Page := Nat → Byte

/-- Clear the valid bit of one entry and keep its other fields. -/
def PageTable.invalidate (pt : PageTable) (vpn : Nat) : PageTable :=
  Function.update pt vpn { pt vpn with valid := false }

/-! ### Stopping

A path through the kernel either comes back, halts the machine, or reaches a memory access whose
effect the C program leaves undefined.  The model keeps the reason. -/

/-- Why a path through the kernel does not come back. -/
inductive Stop where
  /-- `Halt()` was called. -/
  | halt
  /-- A `NULL` pointer is dereferenced. -/
  | nullPointer
  /-- A PCB that `free` has released is dereferenced. -/
  | danglingPcb (ptr : Nat)
  /-- A page table is indexed outside its entries. -/
  | tableIndex (index : Int)
  /-- The frame table is indexed outside its entries. -/
  | frameIndex (index : Int)
  /-- The kernel touches a user address that region 1 does not map with the right protection.  A
  pointer into region 0 ends the path here too, although the machine would go on with the kernel's
  own memory overwritten. -/
  | badAddress (va : Nat)
  /-- The kernel writes past the end of a block it allocated. -/
  | heapOverflow
  /-- The path resumes a kernel context that was never saved. -/
  | noContext
  /-- The loop was not followed to its end. -/
  | unfinished
deriving DecidableEq, Repr

/-- `SUCCESS`, `ERROR` and `KILL` of `ykernel.h`. -/
inductive Status where
  | success
  | error
  | kill
deriving DecidableEq, Repr

def Status.code : Status → Int
  | .success => 0
  | .error => -1
  | .kill => -2

/-- The index check behind every access to a region table. -/
def tableIndex (index : Int) : Except Stop Nat :=
  if 0 ≤ index ∧ index < maxPtLen then .ok index.toNat else .error (.tableIndex index)

theorem tableIndex_eq_ok {index : Int} {i : Nat} (h : tableIndex index = .ok i) :
    index = i ∧ i < maxPtLen := by
  unfold tableIndex at h
  split at h
  · rename_i range
    cases h
    simp only [maxPtLen] at range ⊢
    omega
  · cases h

theorem tableIndex_natCast {i : Nat} (h : i < maxPtLen) : tableIndex i = .ok i := by
  have range : (0 : Int) ≤ i ∧ (i : Int) < maxPtLen := by
    simp only [maxPtLen] at h ⊢
    omega
  rw [tableIndex, if_pos range, Int.toNat_natCast]

/-- Peel one computation off a path that came back. -/
theorem bind_eq_ok {α β : Type} {path : Except Stop α} {rest : α → Except Stop β} {result : β} :
    path >>= rest = .ok result ↔ ∃ value, path = .ok value ∧ rest value = .ok result := by
  rcases path with stop | value
  · simp [bind, Except.bind]
  · simp [bind, Except.bind]

theorem pure_eq_ok {α : Type} {value result : α} :
    (pure value : Except Stop α) = .ok result ↔ value = result := by
  simp [pure, Except.pure]

/-! ### The user context

`vector` is left out: no kernel function reads it. -/

/-- The part of `struct user_context` the kernel reads or writes. -/
structure UserContext where
  code : Word
  addr : Word
  pc : Word
  sp : Word
  ebp : Word
  regs : Nat → Word

/-- `memset(&ctx, 0, sizeof(UserContext))`. -/
def UserContext.zero : UserContext := ⟨0, 0, 0, 0, 0, fun _ => 0⟩

/-- `ctx->regs[0] = rc`. -/
def UserContext.setReturn (ctx : UserContext) (rc : Int) : UserContext :=
  { ctx with regs := Function.update ctx.regs 0 (BitVec.ofInt 32 rc) }

/-- A register read as a C `int`. -/
def UserContext.intReg (ctx : UserContext) (i : Nat) : Int := (ctx.regs i).toInt

end Yalnix
