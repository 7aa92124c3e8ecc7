/-
Module: Yalnix.Proofs.Buffers
Purpose: Which user buffers the terminal system calls accept, and that the kernel touches nothing
  but region 1 through an accepted buffer whose end does not wrap around.
Trusted boundary: none
Main exports: NeverStrays, EndWraps, BufferConfined, buffer_confined_iff
-/
import Yalnix.Proofs.UserMemory

namespace Yalnix

/-! ### Paths that touch no bad address -/

/-- The path does not end in an access to a user address that is not mapped for it. -/
def NeverStrays {α : Type} (path : Except Stop α) : Prop := ∀ va, path ≠ .error (.badAddress va)

namespace NeverStrays

variable {α β : Type}

theorem ok (value : α) : NeverStrays (.ok value) := fun _ equal => by cases equal

theorem pure (value : α) : NeverStrays (Pure.pure value : Except Stop α) := ok value

theorem bind {path : Except Stop α} {rest : α → Except Stop β} (first : NeverStrays path)
    (second : ∀ value, path = .ok value → NeverStrays (rest value)) :
    NeverStrays (path >>= rest) := by
  rcases path with stop | value
  · exact fun va equal => first va (by simpa [Bind.bind, Except.bind] using equal)
  · exact second value rfl

theorem deref (s : Kernel) (p : PcbPtr) : NeverStrays (s.deref p) := by
  unfold Kernel.deref
  split
  · exact ok _
  · exact fun va equal => by cases equal

theorem modifyPcb (s : Kernel) (p : PcbPtr) (f : PCB → PCB) : NeverStrays (s.modifyPcb p f) :=
  (deref s p).bind fun _ _ => pure _

theorem restoreContext (s : Kernel) : NeverStrays s.restoreContext :=
  (deref s _).bind fun _ _ => pure _

theorem returnToUser (s : Kernel) (rc : Int) : NeverStrays (s.returnToUser rc) :=
  (restoreContext s).bind fun _ _ => pure _

theorem kcSwitch (s : Kernel) (kc : KernelContext) (curr next : PcbPtr) :
    NeverStrays (s.kcSwitch kc curr next) := by
  refine (modifyPcb s curr _).bind fun t _ => (deref t next).bind fun n _ => ?_
  split
  · exact fun va equal => by cases equal
  · exact (modifyPcb _ next _).bind fun _ _ => pure _

theorem dispatch (s : Kernel) (kc : KernelContext) : NeverStrays (s.dispatch kc) :=
  kcSwitch _ kc _ _

end NeverStrays

/-! ### Accepted ranges -/

/-- The range starts in region 1 or above, and its end wraps around to an address that does not
exceed region 1. -/
def EndWraps (buf len : Word) : Prop :=
  0 < len.toInt ∧ 2 ^ 32 ≤ buf.toNat + len.toNat ∧ buf.toNat + len.toNat ≤ 2 ^ 32 + vmem1Limit

/-- A non-empty range of bytes of region 1. -/
def InsideRegion1 (buf len : Word) : Prop :=
  0 < len.toInt ∧ vmem1Base ≤ buf.toNat ∧ buf.toNat + len.toNat ≤ vmem1Limit

theorem toInt_pos {len : Word} : 0 < len.toInt ↔ 0 < len.toNat ∧ len.toNat < 2 ^ 31 := by
  have bound := len.isLt
  rw [BitVec.toInt_eq_toNat_cond]
  split
  · constructor
    · omega
    · omega
  · constructor
    · omega
    · omega

theorem checkBuffer_iff {buf len : Word} : checkBuffer buf len = true ↔
    vmem1Base ≤ buf.toNat ∧ (buf.toNat + len.toNat) % 2 ^ 32 ≤ vmem1Limit := by
  simp only [checkBuffer, Bool.not_eq_true', Bool.or_eq_false_iff, decide_eq_false_iff_not,
    not_lt, BitVec.toNat_add]

/-- The two checks accept exactly the ranges of region 1 and the ranges whose end wraps. -/
theorem accepted_iff {buf len : Word} : (checkBuffer buf len = true ∧ 0 < len.toInt) ↔
    InsideRegion1 buf len ∨ EndWraps buf len := by
  have bufBound := buf.isLt
  rw [checkBuffer_iff, InsideRegion1, EndWraps, toInt_pos]
  simp only [vmem1Base, vmem1Limit]
  by_cases wraps : 2 ^ 32 ≤ buf.toNat + len.toNat
  · constructor
    · omega
    · omega
  · constructor
    · omega
    · omega

theorem endWraps_not_inside {buf len : Word} (wraps : EndWraps buf len) :
    ¬ InsideRegion1 buf len := by
  rintro ⟨-, -, inside⟩
  have late := wraps.2.1
  simp only [vmem1Limit] at inside
  omega

namespace Kernel

variable {env : Env} {s t : Kernel} {buf len : Word} {n : Nat}

theorem ttyArguments_some {ttyId len : Int} {tty : TtyId}
    (h : ttyArguments ttyId buf len = some (tty, n)) : 0 < len ∧ n = len.toNat := by
  unfold ttyArguments at h
  split at h
  · cases h
  · rename_i valid
    split at h
    · obtain ⟨-, rfl⟩ := Prod.mk.inj (Option.some.inj h)
      exact ⟨by omega, rfl⟩
    · cases h

/-! ### The handlers -/

/-- The region 1 table in force maps every page for reading and writing. -/
def RegionMapped (s : Kernel) : Prop :=
  ∃ b, s.heap s.ptbr1 = some b ∧
    ∀ vpn, vpn < maxPtLen → (b.ptbr vpn).readable = true ∧ (b.ptbr vpn).writable = true

theorem RegionMapped.modifyPcb {p : PcbPtr} {f : PCB → PCB} (mapped : s.RegionMapped)
    (h : s.modifyPcb p f = .ok t) (table : ∀ b, (f b).ptbr = b.ptbr) : t.RegionMapped := by
  obtain ⟨b, found, pages⟩ := mapped
  obtain ⟨c, live, rfl⟩ := modifyPcb_eq_ok.mp h
  by_cases equal : s.ptbr1 = p
  · subst equal
    obtain rfl : c = b := Option.some.inj (live.symm.trans found)
    refine ⟨f c, by simp, ?_⟩
    rw [table]
    exact pages
  · exact ⟨b, by simp [equal, found], pages⟩

/-- A range of region 1 can be read. -/
theorem loadUser_neverStrays (mapped : s.RegionMapped) (low : vmem1Base ≤ buf.toNat)
    (inside : buf.toNat + n ≤ vmem1Limit) : NeverStrays (s.loadUser buf n) := by
  obtain ⟨b, found, pages⟩ := mapped
  refine (NeverStrays.deref s _).bind fun c live => ?_
  obtain rfl : c = b := Option.some.inj ((deref_eq_ok.mp live).symm.trans found)
  have readable : (Memory.inRegion1 buf.toNat n &&
      (Memory.rangePages buf.toNat n).all fun vpn => (c.ptbr vpn).readable) = true := by
    refine Bool.and_eq_true_iff.mpr ⟨decide_eq_true (Or.inr ⟨low, inside⟩), List.all_eq_true.mpr ?_⟩
    exact fun vpn member => (pages vpn (Memory.rangePages_lt inside low vpn member)).1
  rw [Memory.loadRange, if_pos readable]
  exact .ok _

/-- A range of region 1 can be written. -/
theorem storeUser_neverStrays {bytes : List Byte} (mapped : s.RegionMapped)
    (low : vmem1Base ≤ buf.toNat) (inside : buf.toNat + bytes.length ≤ vmem1Limit) :
    NeverStrays (s.storeUser buf bytes) := by
  obtain ⟨b, found, pages⟩ := mapped
  refine (NeverStrays.deref s _).bind fun c live => NeverStrays.bind ?_ fun _ _ => .pure _
  obtain rfl : c = b := Option.some.inj ((deref_eq_ok.mp live).symm.trans found)
  have writable : (Memory.inRegion1 buf.toNat bytes.length &&
      (Memory.rangePages buf.toNat bytes.length).all fun vpn => (c.ptbr vpn).writable) = true := by
    refine Bool.and_eq_true_iff.mpr ⟨decide_eq_true (Or.inr ⟨low, inside⟩), List.all_eq_true.mpr ?_⟩
    exact fun vpn member => (pages vpn (Memory.rangePages_lt inside low vpn member)).2
  rw [Memory.storeRange, Memory.storeFun, if_pos writable]
  exact .ok _

/-- The parked block is not longer than the caller's buffer. -/
def ParkedWithin (s : Kernel) (n : Nat) : Prop :=
  ∀ c, s.heap s.currentProcess = some c → c.kernelReadSize ≤ n

/-- The end of a `TtyRead` call writes no more than the parked block. -/
theorem unpackRead_neverStrays {tty : TtyId} {size rc : Int} (mapped : s.RegionMapped)
    (low : vmem1Base ≤ buf.toNat) (inside : buf.toNat + n ≤ vmem1Limit)
    (parked : s.ParkedWithin n) : NeverStrays (s.unpackRead tty buf size rc) := by
  refine (NeverStrays.deref s _).bind fun c live => ?_
  have small := parked c (deref_eq_ok.mp live)
  split
  · exact (NeverStrays.pure s).bind fun _ _ => NeverStrays.returnToUser _ rc
  · split
    · rename_i block _ _
      have shorter : (block.take c.kernelReadSize).length ≤ c.kernelReadSize :=
        List.length_take_le _ _
      refine (storeUser_neverStrays mapped low (by omega)).bind fun u _ => ?_
      exact (NeverStrays.modifyPcb u _ _).bind fun _ _ => NeverStrays.returnToUser _ rc
    · exact (NeverStrays.pure s).bind fun _ _ => NeverStrays.returnToUser _ rc

/-- A call that has the terminal reads its buffer and nothing else. -/
theorem ttyWriteLocked_neverStrays {tty : TtyId} (mapped : s.RegionMapped)
    (low : vmem1Base ≤ buf.toNat) (inside : buf.toNat + n ≤ vmem1Limit) :
    NeverStrays (s.ttyWriteLocked env tty buf n) := by
  refine NeverStrays.bind ?_ fun result _ => ?_
  · unfold beginTtyTransmit malloc
    simp only
    split
    · exact (NeverStrays.modifyPcb _ _ _).bind fun _ _ => .pure _
    · refine NeverStrays.bind ?_ fun _ _ => .pure _
      exact loadUser_neverStrays mapped low inside
  · obtain ⟨status, u⟩ := result
    simp only
    split
    · split
      · exact .pure _
      · exact (NeverStrays.modifyPcb _ _ _).bind fun _ _ => .pure _
    · refine (NeverStrays.modifyPcb _ _ _).bind fun _ _ => ?_
      exact (NeverStrays.dispatch _ _).bind fun _ _ => .pure _

/-- The end of a system call strays only if what it does with its result does. -/
theorem finish_neverStrays {result : Option Int × Kernel} {done : Int → Kernel → Except Stop Kernel}
    (ends : ∀ rc, result.1 = some rc → NeverStrays (done rc result.2)) :
    NeverStrays (finish result done) := by
  obtain ⟨_ | rc, u⟩ := result
  · exact .ok _
  · exact ends rc rfl

/-- `TtyRead` itself touches no user memory, and what it parks fits in the caller's buffer. -/
theorem ttyReadValid_neverStrays {tty : TtyId} : NeverStrays (s.ttyReadValid env tty buf n) := by
  unfold ttyReadValid malloc
  simp only
  split
  · split
    · exact .pure _
    · exact (NeverStrays.modifyPcb _ _ _).bind fun _ _ => .pure _
  · refine (NeverStrays.modifyPcb _ _ _).bind fun _ _ => ?_
    exact (NeverStrays.dispatch _ _).bind fun _ _ => .pure _

/-- A `TtyRead` that returns at once either failed or parked a block that fits. -/
theorem ttyReadValid_returned {tty : TtyId} {rc : Int}
    (h : s.ttyReadValid env tty buf n = .ok (some rc, t)) (mapped : s.RegionMapped) :
    t.RegionMapped ∧ (¬ 0 < rc ∨ t.ParkedWithin n) := by
  unfold ttyReadValid malloc at h
  simp only at h
  split at h
  · split at h
    · cases h
      exact ⟨mapped, Or.inl (by decide)⟩
    · rename_i available _
      simp only [bind_eq_ok, pure_eq_ok] at h
      obtain ⟨u, parked, h⟩ := h
      cases h
      have kept : u.RegionMapped :=
        RegionMapped.modifyPcb (s := { s with mallocCalls := s.mallocCalls + 1 }) mapped parked
          fun _ => rfl
      refine ⟨kept, Or.inr ?_⟩
      intro c live
      obtain ⟨b, -, rfl⟩ := modifyPcb_eq_ok.mp parked
      simp only [setTerminal_heap, log_heap, setPcb_heap, setTerminal_currentProcess,
        log_currentProcess, setPcb_currentProcess, Function.update_self, Option.some.injEq] at live
      rw [← live]
      simp only
      split
      · omega
      · exact Nat.le_refl n
  · simp only [bind_eq_ok, pure_eq_ok] at h
    obtain ⟨u, -, v, -, h⟩ := h
    cases h

/-- A result that is not positive copies nothing. -/
theorem unpackRead_neverStrays_failed {tty : TtyId} {size rc : Int} (failed : ¬ 0 < rc) :
    NeverStrays (s.unpackRead tty buf size rc) := by
  refine (NeverStrays.deref s _).bind fun c _ => ?_
  split
  · exact (NeverStrays.pure s).bind fun _ _ => NeverStrays.returnToUser _ rc
  · rw [if_neg failed]
    exact (NeverStrays.pure s).bind fun _ _ => NeverStrays.returnToUser _ rc

theorem trapTtyRead_neverStrays (mapped : s.RegionMapped)
    (confined : checkBuffer (s.ctx.regs 1) (s.ctx.regs 2) = true → 0 < (s.ctx.regs 2).toInt →
      InsideRegion1 (s.ctx.regs 1) (s.ctx.regs 2)) : NeverStrays (s.trapTtyRead env) := by
  unfold trapTtyRead
  simp only [UserContext.intReg]
  split
  · rename_i accepted
    refine (NeverStrays.modifyPcb s _ _).bind fun t saved => ?_
    have kept : t.RegionMapped := mapped.modifyPcb saved fun _ => rfl
    unfold ttyRead
    rcases arguments : ttyArguments (s.ctx.regs 0).toInt (s.ctx.regs 1) (s.ctx.regs 2).toInt with
      _ | ⟨tty, n⟩
    · refine (NeverStrays.ok _).bind fun result _ => finish_neverStrays fun rc _ => ?_
      exact NeverStrays.returnToUser _ rc
    · obtain ⟨positive, rfl⟩ := ttyArguments_some arguments
      obtain ⟨-, low, inside⟩ := confined accepted positive
      have length : (s.ctx.regs 2).toInt.toNat = (s.ctx.regs 2).toNat := by
        have small := (toInt_pos.mp positive).2
        rw [BitVec.toInt_eq_toNat_of_lt (by omega)]
        rfl
      rw [length]
      refine ttyReadValid_neverStrays.bind fun result called => ?_
      refine finish_neverStrays fun rc returned => ?_
      obtain ⟨_ | rc', u⟩ := result
      · cases returned
      · cases returned
        obtain ⟨stays, failed | parked⟩ := ttyReadValid_returned called kept
        · exact unpackRead_neverStrays_failed failed
        · exact unpackRead_neverStrays stays low inside parked
  · exact .pure _

theorem finishTtyWrite_neverStrays {tty : Option TtyId} {rc : Int} :
    NeverStrays (s.finishTtyWrite tty rc) := by
  unfold finishTtyWrite
  split
  · exact NeverStrays.returnToUser _ rc
  · exact NeverStrays.returnToUser _ rc

theorem trapTtyWrite_neverStrays (mapped : s.RegionMapped)
    (confined : checkBuffer (s.ctx.regs 1) (s.ctx.regs 2) = true → 0 < (s.ctx.regs 2).toInt →
      InsideRegion1 (s.ctx.regs 1) (s.ctx.regs 2)) : NeverStrays (s.trapTtyWrite env) := by
  unfold trapTtyWrite
  simp only [UserContext.intReg]
  split
  · rename_i accepted
    refine (NeverStrays.modifyPcb s _ _).bind fun t saved => ?_
    have kept : t.RegionMapped := mapped.modifyPcb saved fun _ => rfl
    refine NeverStrays.bind ?_ fun result _ => finish_neverStrays fun rc _ =>
      finishTtyWrite_neverStrays
    unfold ttyWrite
    rcases arguments : ttyArguments (s.ctx.regs 0).toInt (s.ctx.regs 1) (s.ctx.regs 2).toInt with
      _ | ⟨tty, n⟩
    · exact .ok _
    · obtain ⟨positive, rfl⟩ := ttyArguments_some arguments
      obtain ⟨-, low, inside⟩ := confined accepted positive
      have length : (s.ctx.regs 2).toInt.toNat = (s.ctx.regs 2).toNat := by
        have small := (toInt_pos.mp positive).2
        rw [BitVec.toInt_eq_toNat_of_lt (by omega)]
        rfl
      simp only [length]
      unfold ttyWriteValid
      simp only
      split
      · refine (NeverStrays.modifyPcb _ _ _).bind fun _ _ => ?_
        exact (NeverStrays.dispatch _ _).bind fun _ _ => .pure _
      · exact ttyWriteLocked_neverStrays (s := t.log _) kept low inside
  · exact .pure _

/-! ### The terminal system calls and their buffers -/

/-- With these registers the checks accept exactly the ranges of region 1, and neither the call nor
its continuation after a context switch touches an address outside region 1: with all of region 1
mapped it never strays. -/
structure BufferConfined (ttyId buf len : Word) : Prop where
  exact : (checkBuffer buf len = true ∧ 0 < len.toInt) ↔ InsideRegion1 buf len
  handled : ∀ env (s : Kernel) ctx req, ctx.regs 0 = ttyId → ctx.regs 1 = buf → ctx.regs 2 = len →
    ctx.code = yalnixTtyRead ∨ ctx.code = yalnixTtyWrite → s.RegionMapped →
    NeverStrays ((s.trap ctx).kernelTrapHandler env req)
  resumed : ∀ env (s : Kernel) tty n, checkBuffer buf len = true →
    ttyArguments ttyId.toInt buf len.toInt = some (tty, n) → s.RegionMapped →
    NeverStrays (s.ttyWriteLocked env tty buf n) ∧
      ∀ rc, s.ParkedWithin n → NeverStrays (s.unpackRead tty buf len.toInt rc)

/-- The terminal system calls are confined to region 1 except where the end of the range wraps
around. -/
theorem buffer_confined_iff (ttyId buf len : Word) :
    BufferConfined ttyId buf len ↔ ¬ EndWraps buf len := by
  constructor
  · intro confined wraps
    exact endWraps_not_inside wraps (confined.exact.mp (accepted_iff.mpr (Or.inr wraps)))
  · intro straight
    have exact : (checkBuffer buf len = true ∧ 0 < len.toInt) ↔ InsideRegion1 buf len := by
      rw [accepted_iff]
      exact or_iff_left straight
    constructor
    case exact => exact exact
    case handled =>
      rintro env s ctx req rfl rfl rfl code mapped
      have confined := fun accepted positive => exact.mp ⟨accepted, positive⟩
      rcases code with code | code
      · have handler : (s.trap ctx).kernelTrapHandler env req = (s.trap ctx).trapTtyRead env := by
          simp [kernelTrapHandler, trap, code]
        rw [handler]
        exact trapTtyRead_neverStrays (s := s.trap ctx) mapped confined
      · have handler : (s.trap ctx).kernelTrapHandler env req = (s.trap ctx).trapTtyWrite env := by
          simp [kernelTrapHandler, trap, code]
        rw [handler]
        exact trapTtyWrite_neverStrays (s := s.trap ctx) mapped confined
    case resumed =>
      intro env s tty n accepted arguments mapped
      obtain ⟨positive, rfl⟩ := ttyArguments_some arguments
      obtain ⟨-, low, inside⟩ := exact.mp ⟨accepted, positive⟩
      have small := (toInt_pos.mp positive).2
      have length : len.toInt.toNat = len.toNat := by
        rw [BitVec.toInt_eq_toNat_of_lt (by omega)]
        rfl
      rw [length]
      exact ⟨ttyWriteLocked_neverStrays mapped low inside,
        fun rc parked => unpackRead_neverStrays mapped low inside parked⟩

/-- A buffer just below the end of the address space, with a length that takes its end past
address 0, is accepted. -/
theorem buffer_not_confined : ¬ ∀ ttyId buf len, BufferConfined ttyId buf len := by
  intro confined
  have inside := (confined 0 0xfffff000 0x2000).exact.mp ⟨by decide, by decide⟩
  exact absurd inside.2.2 (by decide)

end Kernel

end Yalnix
