/-
Module: Yalnix.Proofs.LoadLayout
Purpose: The arithmetic of LoadProgram before it commits: which argument vectors it sizes correctly,
  and which executables it lays out inside the table and without overlaps.
Trusted boundary: an argument vector and its strings lie in memory that the kernel can address
Main exports: stackSpace, stackPages, loadPlan_eq_some, Passable, ArgumentsSized,
  arguments_sized_iff, LoadPlan.indices, LoadPlan.WellPlaced, layout_checked_iff
-/
import Yalnix.Proofs.Loading
import Yalnix.Run

namespace Yalnix

variable {li : LoadInfo} {args : List (List Byte)} {ptlr : Nat} {plan : LoadPlan}

/-! ### What the plan says -/

/-- The bytes the arguments take on the stack: the strings, `argc`, `argv` with its `NULL`, the
`NULL` of `envp`, and `POST_ARGV_NULL_SPACE` words. -/
def stackSpace (args : List (List Byte)) : Nat := argBytes args + (args.length + 3 + 0x20) * 4

/-- The same rounded up to pages, as the source keeps it in 32 bits. -/
def stackSize (args : List (List Byte)) : Word :=
  BitVec.ofNat 32 ((stackSpace args + 0x1fff) / 0x2000 * 0x2000)

/-- `stack_npg`. -/
def stackPages (args : List (List Byte)) : Int := (stackSize args).toInt / pageSize

/-- `li.id_npg + li.ud_npg`, narrowed to `int`. -/
def dataPages (li : LoadInfo) : Int := (li.idNpg + li.udNpg).toInt

/-- `stack_npg + data_pg1 + data_npg`, which the one check of the layout compares. -/
def pageSum (li : LoadInfo) (args : List (List Byte)) : Int :=
  (BitVec.ofInt 32 (stackPages args + pageOf li.idVaddr + dataPages li)).toInt

/-- `cp`, where the strings are copied to. -/
def stringsStart (args : List (List Byte)) : Word :=
  BitVec.ofNat 32 vmem1Limit - BitVec.ofInt 32 (argSize args)

/-- `cpp`, where the stack of the new program starts. -/
def stackStart (args : List (List Byte)) : Word :=
  BitVec.ofNat 32
    ((stringsStart args - BitVec.ofNat 32 ((args.length + 3 + 0x20) * 4)).toNat / 8 * 8)

theorem ofInt_argSize : BitVec.ofInt 32 (argSize args) = BitVec.ofNat 32 (argBytes args) :=
  BitVec.ofInt_toInt

/-- Both subtractions together, in 32 bits. -/
theorem below_limit (b n : Nat) :
    ((BitVec.ofNat 32 vmem1Limit - BitVec.ofNat 32 b - BitVec.ofNat 32 n).toNat : Int) =
      (0x200000 - ((b : Int) + n)) % 0x100000000 := by
  rw [BitVec.toNat_sub, BitVec.toNat_sub, BitVec.toNat_ofNat, BitVec.toNat_ofNat,
    BitVec.toNat_ofNat]
  simp only [vmem1Limit, Nat.reducePow, Nat.reduceMod]
  omega

/-- `cpp` is the region's limit less the space for the arguments, rounded down, in 32 bits. -/
theorem stackStart_toNat (args : List (List Byte)) : ((stackStart args).toNat : Int) =
    ((0x200000 : Int) - stackSpace args) % 0x100000000 / 8 * 8 := by
  have below := below_limit (argBytes args) ((args.length + 3 + 0x20) * 4)
  have space : (stackSpace args : Int) =
      (argBytes args : Int) + ((args.length + 3 + 0x20) * 4 : Nat) := Nat.cast_add ..
  rw [stackStart, stringsStart, ofInt_argSize, BitVec.toNat_ofNat, space, ← below]
  generalize BitVec.ofNat 32 vmem1Limit - BitVec.ofNat 32 (argBytes args) -
    BitVec.ofNat 32 ((args.length + 3 + 0x20) * 4) = start
  have bound := start.isLt
  simp only [Nat.reducePow] at bound ⊢
  omega

/-- Rounding the space up and the address down to pages come to the same. -/
theorem stackSize_eq :
    stackSize args = BitVec.ofNat 32 vmem1Limit - downToPage (stackStart args) := by
  have start := stackStart_toNat args
  have bound := (stackStart args).isLt
  apply BitVec.eq_of_toNat_eq
  rw [stackSize, BitVec.toNat_sub, downToPage_toNat, BitVec.toNat_ofNat, BitVec.toNat_ofNat]
  generalize (stackStart args).toNat = x at start bound
  generalize stackSpace args = space at start
  simp only [vmem1Limit, Nat.reducePow, Nat.reduceMod] at bound ⊢
  omega

/-- What passes the checks of `LoadProgram`, and the plan it leads to. -/
theorem loadPlan_eq_some : loadPlan li args ptlr = some plan ↔
    vmem1Base ≤ li.entry.toNat ∧ pageSum li args < maxPtLen ∧
      plan =
        { textPg1 := pageOf li.tVaddr
          textNpg := li.tNpg.toNat
          dataPg1 := pageOf li.idVaddr
          dataNpg := dataPages li
          stackNpg := stackPages args
          stackBase := (ptlr : Int) - stackPages args
          cp := stringsStart args
          cpp := stackStart args } := by
  have pages : stackPages args =
      (BitVec.ofNat 32 vmem1Limit - downToPage (stackStart args)).toInt / pageSize := by
    rw [stackPages, stackSize_eq]
  unfold loadPlan
  simp only
  by_cases foreign : li.entry.toNat < vmem1Base
  · rw [if_pos foreign]
    simp only [reduceCtorEq, false_iff]
    intro accepted
    exact absurd foreign (Nat.not_lt.mpr accepted.1)
  · rw [if_neg foreign]
    change (if (maxPtLen : Int) ≤ (BitVec.ofInt 32
      ((BitVec.ofNat 32 vmem1Limit - downToPage (stackStart args)).toInt / pageSize +
        pageOf li.idVaddr + dataPages li)).toInt then none else some _) = some plan ↔ _
    rw [← pages, ← pageSum]
    by_cases tight : (maxPtLen : Int) ≤ pageSum li args
    · rw [if_pos tight]
      simp only [reduceCtorEq, false_iff]
      intro accepted
      exact absurd tight (not_le.mpr accepted.2.1)
    · rw [if_neg tight, Option.some.injEq]
      constructor
      · rintro rfl
        exact ⟨Nat.not_lt.mp foreign, not_le.mp tight, by rw [pages]; rfl⟩
      · rintro ⟨-, -, rfl⟩
        rw [pages]
        rfl

/-! ### Sizing the arguments -/

/-- A vector that a process can pass to `Exec`: its pointers, with the `NULL` at the end, and each
of its strings lie in memory, where they may overlap. -/
structure Passable (args : List (List Byte)) : Prop where
  vector : (args.length + 1) * 4 ≤ vmem1Limit
  strings : ∀ arg ∈ args, arg.length + 1 ≤ vmem1Limit

/-- The computed size is the true one, so that the strings fill their buffer exactly, and the copy
of pointers and strings below the limit of region 1 starts inside the stack pages. -/
structure ArgumentsSized (plan : LoadPlan) (args : List (List Byte)) : Prop where
  size : argSize args = argBytes args
  mapped : (vmem1Base : Int) + plan.stackBase * pageSize ≤
    ((vmem1Limit : Int) - stackSpace args) / 8 * 8

theorem argBytes_le_stackSpace (args : List (List Byte)) : argBytes args ≤ stackSpace args :=
  Nat.le_add_right ..

theorem argSize_eq (small : argBytes args < 0x80000000) : argSize args = argBytes args := by
  rw [argSize, BitVec.toInt_ofNat']
  exact Int.bmod_eq_of_le (by omega) (by omega)

/-- A space below 2 GB is rounded up without a wrap. -/
theorem stackPages_small (small : stackSpace args ≤ 0x7fffe000) :
    stackPages args = ((stackSpace args + 0x1fff) / 0x2000 : Nat) := by
  have exact_size :
      (stackSize args).toInt = ((stackSpace args + 0x1fff) / 0x2000 * 0x2000 : Nat) := by
    rw [stackSize, BitVec.toInt_ofNat']
    exact Int.bmod_eq_of_le (by omega) (by omega)
  rw [stackPages, exact_size]
  simp only [pageSize]
  omega

/-- A space from there to 4 GB comes out negative. -/
theorem stackPages_large (large : 0x7fffe000 < stackSpace args)
    (bound : stackSpace args ≤ 0xffffe000) : stackPages args < 0 := by
  have negative : (stackSize args).toInt =
      ((stackSpace args + 0x1fff) / 0x2000 * 0x2000 : Nat) - 0x100000000 := by
    rw [stackSize, BitVec.toInt_eq_toNat_cond, BitVec.toNat_ofNat]
    simp only [Nat.reducePow]
    omega
  rw [stackPages, negative]
  simp only [pageSize]
  omega

theorem stackPages_le (args : List (List Byte)) : stackPages args ≤ 0x40000 := by
  have bound := BitVec.toInt_lt (x := stackSize args)
  rw [stackPages]
  simp only [pageSize, Nat.reduceSub] at bound ⊢
  omega

theorem stackPages_ge (args : List (List Byte)) : -0x40000 ≤ stackPages args := by
  have bound := BitVec.le_toInt (stackSize args)
  rw [stackPages]
  simp only [pageSize, Nat.reduceSub] at bound ⊢
  omega

theorem pageOf_le (a : Word) : pageOf a ≤ 0x7ffff := by
  have bound := (a - BitVec.ofNat 32 vmem1Base).isLt
  rw [pageOf]
  omega

/-- A sum that fits an `int` is compared as it is. -/
theorem pageSum_eq (low : -0x7ff00000 ≤ dataPages li) (high : dataPages li ≤ 0x7ff00000) :
    pageSum li args = stackPages args + pageOf li.idVaddr + dataPages li := by
  have least := stackPages_ge args
  have most := stackPages_le args
  have page := pageOf_le li.idVaddr
  rw [pageSum, BitVec.toInt_ofInt]
  exact Int.bmod_eq_of_le (by omega) (by omega)

/-- Data that fits into the table leaves room for the stack: its sum with the other pages does not
wrap upwards. -/
theorem room_of_pageSum (fits : pageSum li args < maxPtLen) (data : dataPages li ≤ 0x7ff00000) :
    stackPages args + pageOf li.idVaddr + dataPages li < maxPtLen := by
  by_cases low : -0x7ff00000 ≤ dataPages li
  · rw [← pageSum_eq low data]
    exact fits
  · have most := stackPages_le args
    have page := pageOf_le li.idVaddr
    simp only [maxPtLen]
    omega

/-- A file whose page counts make the data segment negative passes with any stack. -/
def negativeData : LoadInfo where
  entry := 0x100000
  tVaddr := 0x100000
  tNpg := 0
  idVaddr := 0x100000
  idNpg := 0x80100000
  idEnd := 0x100000
  udNpg := 0
  udEnd := 0x100000

theorem negativeData_accepted (args : List (List Byte)) :
    ∃ plan, loadPlan negativeData args maxPtLen = some plan ∧
      plan.stackBase = maxPtLen - stackPages args := by
  have data : dataPages negativeData = -0x7ff00000 := by decide
  have first : pageOf negativeData.idVaddr = 0 := by decide
  have pages := stackPages_le args
  refine ⟨_, loadPlan_eq_some.mpr ⟨by decide, ?_, rfl⟩, rfl⟩
  rw [pageSum_eq (by rw [data]) (by rw [data]; decide), data, first]
  simp only [maxPtLen]
  omega

/-- Every load that passes the checks with these arguments has their size right exactly when they
take less than 2 GB. -/
theorem arguments_sized_iff (passable : Passable args) :
    (∀ li plan, loadPlan li args maxPtLen = some plan → ArgumentsSized plan args) ↔
      stackSpace args ≤ 0x7fffe000 := by
  have bytes := argBytes_le_stackSpace args
  constructor
  · intro sized
    obtain ⟨plan, accepted, base⟩ := negativeData_accepted args
    obtain ⟨size, mapped⟩ := sized negativeData plan accepted
    by_contra large
    -- the true size fits an `int`, so that only the rounded space can have wrapped
    have fits : argBytes args < 0x80000000 := by
      have bound := BitVec.toInt_lt (x := BitVec.ofNat 32 (argBytes args))
      rw [argSize] at size
      simp only [Nat.reduceSub] at bound
      omega
    have vector := passable.vector
    have space : stackSpace args ≤ 0xffffe000 := by
      simp only [stackSpace, vmem1Limit] at vector ⊢
      omega
    have negative := stackPages_large (Nat.not_le.mp large) space
    rw [base] at mapped
    simp only [vmem1Base, vmem1Limit, maxPtLen, pageSize] at mapped
    omega
  · intro small li plan accepted
    obtain ⟨-, -, rfl⟩ := loadPlan_eq_some.mp accepted
    constructor
    case size => exact argSize_eq (by omega)
    case mapped =>
      have pages := stackPages_small small
      simp only [vmem1Base, vmem1Limit, maxPtLen, pageSize, pages]
      omega

/-- No argument at all. -/
theorem arguments_sized_none : Passable [] ∧
    ∀ li plan, loadPlan li [] maxPtLen = some plan → ArgumentsSized plan [] := by
  have passable : Passable [] := ⟨by decide, fun arg absent => absurd absent List.not_mem_nil⟩
  exact ⟨passable, (arguments_sized_iff passable).mpr (by decide)⟩

/-- A file of one page of text and one page of data. -/
def ordinaryFile : LoadInfo where
  entry := 0x100000
  tVaddr := 0x100000
  tNpg := 1
  idVaddr := 0x102000
  idNpg := 1
  idEnd := 0x104000
  udNpg := 0
  udEnd := 0x104000

/-- 65536 pointers to one string of 65535 characters. -/
def aliasedStrings : List (List Byte) := List.replicate 65536 (List.replicate 65535 0x61)

theorem length_aliasedStrings : aliasedStrings.length = 65536 := List.length_replicate ..

theorem argBytes_aliasedStrings : argBytes aliasedStrings = 0x100000000 := by
  rw [argBytes, aliasedStrings, List.map_replicate, List.length_replicate, List.sum_replicate_nat]

theorem stackPages_aliasedStrings : stackPages aliasedStrings = 33 := by
  rw [stackPages, stackSize, stackSpace, argBytes_aliasedStrings, length_aliasedStrings]
  decide

/-- The size of 4 GB of strings comes out as 0, and the load goes on. -/
theorem arguments_size_wraps : ¬ ∀ args, Passable args → ∀ li plan,
    loadPlan li args maxPtLen = some plan → ArgumentsSized plan args := by
  intro sized
  have passable : Passable aliasedStrings := by
    constructor
    case vector =>
      rw [length_aliasedStrings]
      decide
    case strings =>
      intro arg member
      obtain rfl := List.eq_of_mem_replicate member
      rw [List.length_replicate]
      decide
  have accepted : ∃ plan, loadPlan ordinaryFile aliasedStrings maxPtLen = some plan := by
    refine ⟨_, loadPlan_eq_some.mpr ⟨by decide, ?_, rfl⟩⟩
    rw [pageSum, stackPages_aliasedStrings]
    decide
  obtain ⟨plan, accepted⟩ := accepted
  have size := (sized _ passable _ _ accepted).size
  rw [argSize, argBytes_aliasedStrings] at size
  exact absurd size (by decide)

/-! ### Placing the segments -/

/-- The table indices of `n` pages from `base` on. -/
def segment (base : Int) (n : Nat) : List Int := (List.range n).map fun i => base + (i : Nat)

theorem mem_segment {base index : Int} {n : Nat} :
    index ∈ segment base n ↔ base ≤ index ∧ index < base + n := by
  simp only [segment, List.mem_map, List.mem_range]
  constructor
  · rintro ⟨i, inside, rfl⟩
    omega
  · rintro ⟨low, high⟩
    exact ⟨(index - base).toNat, by omega, by omega⟩

theorem segment_nodup (base : Int) (n : Nat) : (segment base n).Nodup := by
  refine List.Nodup.map ?_ List.nodup_range
  intro i j same
  simp only at same
  omega

/-- The indices that the three loops of `LoadProgram` write, in their order. -/
def LoadPlan.indices (plan : LoadPlan) : List Int :=
  segment plan.textPg1 plan.textNpg ++ segment plan.dataPg1 plan.dataNpg.toNat ++
    segment plan.stackBase plan.stackNpg.toNat

/-- Every index is one of the table's, and none is written twice. -/
structure LoadPlan.WellPlaced (plan : LoadPlan) : Prop where
  inTable : ∀ index ∈ plan.indices, 0 ≤ index ∧ index < maxPtLen
  once : plan.indices.Nodup

/-- A loop comes back when it stays in the table. -/
theorem loadSegment_returns {base : Int} {n i : Nat} {m : Memory} {pt : PageTable} :
    (∃ result, loadSegment base n i m pt = .ok result) ↔
      ∀ index ∈ segment (base + i) n, 0 ≤ index ∧ index < maxPtLen := by
  induction n generalizing i m pt with
  | zero => simp [loadSegment, segment]
  | succ n inductionHypothesis =>
      have later : segment (base + (i + 1 : Nat)) n = segment (base + i + 1) n := by
        rw [Nat.cast_succ, add_assoc]
      have split : ∀ index, index ∈ segment (base + i) (n + 1) ↔
          index = base + i ∨ index ∈ segment (base + i + 1) n := by
        intro index
        rw [mem_segment, mem_segment]
        omega
      simp only [split, forall_eq_or_imp, loadSegment, bind_eq_ok]
      constructor
      · rintro ⟨result, vpn, index, rest⟩
        obtain ⟨position, inside⟩ := tableIndex_eq_ok index
        constructor
        · rw [position]
          omega
        · rw [← later]
          exact inductionHypothesis.mp ⟨result, rest⟩
      · rintro ⟨⟨low, high⟩, rest⟩
        rw [← later] at rest
        obtain ⟨result, loaded⟩ := inductionHypothesis.mpr rest
        exact ⟨result, _, if_pos ⟨low, high⟩, loaded⟩

/-- The three loops come back when the whole image lies in the table. -/
theorem loadSegments_returns {m : Memory} {pt : PageTable} :
    (∃ result, loadSegments plan m pt = .ok result) ↔
      ∀ index ∈ plan.indices, 0 ≤ index ∧ index < maxPtLen := by
  have start : ∀ base : Int, base + (0 : Nat) = base := fun base => add_zero base
  simp only [LoadPlan.indices, List.mem_append, loadSegments, bind_eq_ok, Prod.exists]
  constructor
  · rintro ⟨m₃, pt₃, m₁, pt₁, text, m₂, pt₂, data, stack⟩ index ((written | written) | written)
    · rw [← start plan.textPg1] at written
      exact loadSegment_returns.mp ⟨_, text⟩ index written
    · rw [← start plan.dataPg1] at written
      exact loadSegment_returns.mp ⟨_, data⟩ index written
    · rw [← start plan.stackBase] at written
      exact loadSegment_returns.mp ⟨_, stack⟩ index written
  · intro inTable
    have segmentReturns : ∀ (base : Int) (n : Nat) (m : Memory) (pt : PageTable),
        (∀ index ∈ segment base n, 0 ≤ index ∧ index < maxPtLen) →
        ∃ m' pt', loadSegment base n 0 m pt = .ok (m', pt') := by
      intro base n m pt inside
      rw [← start base] at inside
      obtain ⟨⟨m', pt'⟩, loaded⟩ := loadSegment_returns.mpr inside
      exact ⟨m', pt', loaded⟩
    obtain ⟨m₁, pt₁, text⟩ := segmentReturns plan.textPg1 plan.textNpg m pt
      fun index written => inTable index (Or.inl (Or.inl written))
    obtain ⟨m₂, pt₂, data⟩ := segmentReturns plan.dataPg1 plan.dataNpg.toNat m₁ pt₁
      fun index written => inTable index (Or.inl (Or.inr written))
    obtain ⟨m₃, pt₃, stack⟩ := segmentReturns plan.stackBase plan.stackNpg.toNat m₂ pt₂
      fun index written => inTable index (Or.inr written)
    exact ⟨m₃, pt₃, m₁, pt₁, text, m₂, pt₂, data, stack⟩

/-- Once the loops have come back, the check has kept stack and data apart. -/
theorem loadPlan_room {m : Memory} {pt : PageTable} {result : Memory × PageTable}
    (accepted : loadPlan li args ptlr = some plan)
    (mapped : loadSegments plan m pt = .ok result) :
    stackPages args + pageOf li.idVaddr + dataPages li < maxPtLen := by
  obtain ⟨-, fits, rfl⟩ := loadPlan_eq_some.mp accepted
  apply room_of_pageSum fits
  by_contra large
  have inTable := loadSegments_returns.mp ⟨result, mapped⟩
  simp only [LoadPlan.indices, List.mem_append, mem_segment] at inTable
  have last := inTable (pageOf li.idVaddr + dataPages li - 1)
    (Or.inl (Or.inr ⟨by omega, by omega⟩))
  simp only [maxPtLen] at last
  omega

/-- What the one check of `LoadProgram` leaves open about the addresses and page counts of a file.
The text is not looked at; data and stack are only bounded together, in 32 bits. -/
structure LayoutFits (li : LoadInfo) (args : List (List Byte)) : Prop where
  stack : stackPages args ≤ maxPtLen
  data : 0 < dataPages li → pageOf li.idVaddr + dataPages li ≤ maxPtLen
  text : 0 < li.tNpg.toNat →
    (pageOf li.tVaddr + li.tNpg.toNat : Int) ≤ maxPtLen - max 0 (stackPages args)
  apart : 0 < li.tNpg.toNat → 0 < dataPages li →
    (pageOf li.tVaddr + li.tNpg.toNat : Int) ≤ pageOf li.idVaddr ∨
      pageOf li.idVaddr + dataPages li ≤ pageOf li.tVaddr

theorem indices_nodup : plan.indices.Nodup ↔
    (∀ i ∈ segment plan.textPg1 plan.textNpg, i ∉ segment plan.dataPg1 plan.dataNpg.toNat) ∧
      (∀ i ∈ segment plan.textPg1 plan.textNpg, i ∉ segment plan.stackBase plan.stackNpg.toNat) ∧
        ∀ i ∈ segment plan.dataPg1 plan.dataNpg.toNat,
          i ∉ segment plan.stackBase plan.stackNpg.toNat := by
  simp only [LoadPlan.indices, List.nodup_append, segment_nodup, true_and, List.mem_append]
  constructor
  · rintro ⟨textData, stack⟩
    refine ⟨?_, ?_, ?_⟩
    · intro i text data
      exact textData i text i data rfl
    · intro i text inStack
      exact stack i (Or.inl text) i inStack rfl
    · intro i data inStack
      exact stack i (Or.inr data) i inStack rfl
  · rintro ⟨textData, textStack, dataStack⟩
    constructor
    · rintro i text j data rfl
      exact textData i text data
    · rintro i (text | data) j inStack rfl
      · exact textStack i text inStack
      · exact dataStack i data inStack

/-- An accepted file is loaded into the table without overlaps exactly when its layout fits. -/
theorem layout_checked_iff (accepted : loadPlan li args maxPtLen = some plan) :
    plan.WellPlaced ↔ LayoutFits li args := by
  obtain ⟨-, sum, rfl⟩ := loadPlan_eq_some.mp accepted
  constructor
  · rintro ⟨inTable, once⟩
    simp only [LoadPlan.indices, List.mem_append, mem_segment] at inTable
    obtain ⟨textData, textStack, -⟩ := indices_nodup.mp once
    simp only [mem_segment] at textData textStack
    constructor
    case stack =>
      by_contra large
      have first := inTable (maxPtLen - stackPages args)
        (Or.inr ⟨le_rfl, by simp only [maxPtLen] at large ⊢; omega⟩)
      simp only [maxPtLen] at first large
      omega
    case data =>
      intro some
      have last := inTable (pageOf li.idVaddr + dataPages li - 1)
        (Or.inl (Or.inr ⟨by omega, by omega⟩))
      omega
    case text =>
      intro some
      have last := inTable (pageOf li.tVaddr + li.tNpg.toNat - 1)
        (Or.inl (Or.inl ⟨by omega, by omega⟩))
      have below := textStack (pageOf li.tVaddr + li.tNpg.toNat - 1) ⟨by omega, by omega⟩
      simp only [maxPtLen] at last below ⊢
      omega
    case apart =>
      intro someText someData
      have shared := textData (max (pageOf li.tVaddr) (pageOf li.idVaddr))
      omega
  · intro fits
    obtain ⟨stack, data, text, apart⟩ := fits
    have room : stackPages args + pageOf li.idVaddr + dataPages li < maxPtLen := by
      apply room_of_pageSum sum
      by_contra large
      have bound := data (by omega)
      simp only [maxPtLen] at bound
      omega
    constructor
    case inTable =>
      simp only [LoadPlan.indices, List.mem_append, mem_segment]
      simp only [maxPtLen] at *
      rintro index ((written | written) | written)
      · have bound := text (by omega)
        omega
      · have bound := data (by omega)
        omega
      · omega
    case once =>
      apply indices_nodup.mpr
      simp only [mem_segment]
      simp only [maxPtLen] at *
      refine ⟨?_, ?_, ?_⟩
      · intro index inText inData
        have separate := apart (by omega) (by omega)
        omega
      · intro index inText inStack
        have bound := text (by omega)
        omega
      · intro index inData inStack
        omega

theorem layout_checked_ordinary : ∃ plan, loadPlan ordinaryFile [] maxPtLen = some plan ∧
    plan.WellPlaced := by
  have accepted : loadPlan ordinaryFile [] maxPtLen = some _ :=
    loadPlan_eq_some.mpr ⟨by decide, by decide, rfl⟩
  refine ⟨_, accepted, (layout_checked_iff accepted).mpr ?_⟩
  constructor
  case stack => decide
  case data => decide
  case text => decide
  case apart => decide

/-- A file whose text belongs on the last page of region 1, where the stack is put. -/
def textOnStack : LoadInfo := { ordinaryFile with tVaddr := 0x1fe000 }

/-- The page of text is mapped, and mapped again as the stack. -/
theorem layout_unchecked : ¬ ∀ li args plan, loadPlan li args maxPtLen = some plan →
    plan.WellPlaced := by
  intro placed
  have accepted : loadPlan textOnStack [] maxPtLen = some _ :=
    loadPlan_eq_some.mpr ⟨by decide, by decide, rfl⟩
  exact absurd (placed _ _ _ accepted).once (by decide)

end Yalnix
