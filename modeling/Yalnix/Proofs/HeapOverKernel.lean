/-
Module: Yalnix.Proofs.HeapOverKernel
Purpose: The allocator of a program on top of the kernel: every byte of its heap stays on pages that
  the kernel has mapped for the program, whatever the other processes do.
Trusted boundary: `programBrk` is SysBrk of .yalnix/etc/yuserlib/yuser/calls.c
Main exports: programBrk, PCB.Covered, covered_step, programBrk_serves, heap_accessible
-/
import Yalnix.Proofs.HeapRuns
import Yalnix.Proofs.HeapStart
import Yalnix.Proofs.PrivateMemory

namespace Yalnix

open Memory Transition

/-! ### The system call -/

/-- `SysBrk`: the trap with the code and the address in the registers, and register 0 when the
kernel returns.  `frame` is what the hardware saves besides. -/
def programBrk (env : Env) (frame : Kernel → UserContext) (req : LoadRequest) :
    BrkService Kernel := fun addr s =>
  let ctx :=
    { frame s with
      code := yalnixBrk
      regs := Function.update (frame s).regs 0 (BitVec.ofNat 32 addr) }
  match s.deliver env (.kernelTrap ctx req) with
  | .error _ => .error .noReturn
  | .ok s' => .ok (s'.ctx.intReg 0, s')

/-! ### The pages of a heap -/

section Covered

variable {b b' : PCB} {low top n i targetVpn : Nat} {m m' : Memory} {pt pt' : PageTable}
  {status : Status}

/-- The kernel's break is between two pages, between which every page is mapped; what is mapped from
the first on is read and written. -/
structure PCB.Covered (low top : Nat) (b : PCB) : Prop where
  region : vmem1Base ≤ (upToPage b.userHeapEndVaddr).toNat
  order : low ≤ b.heapPage ∧ b.heapPage ≤ top ∧ top ≤ maxPtLen
  mapped : ∀ vpn, low ≤ vpn → vpn < top → (b.ptbr vpn).valid = true
  plain : ∀ vpn, low ≤ vpn → vpn < maxPtLen → (b.ptbr vpn).valid = true →
    (b.ptbr vpn).prot = protReadWrite

instance : Decidable (b.Covered low top) :=
  decidable_of_iff (vmem1Base ≤ (upToPage b.userHeapEndVaddr).toNat ∧
      (low ≤ b.heapPage ∧ b.heapPage ≤ top ∧ top ≤ maxPtLen) ∧
      (∀ vpn < top, low ≤ vpn → (b.ptbr vpn).valid = true) ∧
      ∀ vpn < maxPtLen, low ≤ vpn → (b.ptbr vpn).valid = true →
        (b.ptbr vpn).prot = protReadWrite)
    ⟨fun ⟨region, order, mapped, plain⟩ => ⟨region, order, fun vpn least below =>
        mapped vpn below least, fun vpn least inside => plain vpn inside least⟩,
      fun covered => ⟨covered.region, covered.order, fun vpn below least =>
        covered.mapped vpn least below, fun vpn inside least => covered.plain vpn least inside⟩⟩

theorem PCB.Covered.congr (covered : b.Covered low top) (table : b'.ptbr = b.ptbr)
    (ends : b'.userHeapEndVaddr = b.userHeapEndVaddr) : b'.Covered low top := by
  have page : b'.heapPage = b.heapPage := by rw [PCB.heapPage, ends, PCB.heapPage]
  constructor
  · rw [ends]
    exact covered.region
  · rw [page]
    exact covered.order
  · rw [table]
    exact covered.mapped
  · rw [table]
    exact covered.plain

/-- The loop of `growStack` leaves the pages below its target, and maps the others for reading and
writing. -/
theorem growStackPages_plain
    (h : growStackPages targetVpn n i m pt = .ok (status, m', pt')) (vpn : Nat) :
    pt' vpn = pt vpn ∨
      targetVpn ≤ vpn ∧ ((pt' vpn).valid = true → (pt' vpn).prot = protReadWrite) := by
  induction n generalizing i m pt with
  | zero =>
      cases h
      exact Or.inl rfl
  | succ n inductionHypothesis =>
      unfold growStackPages at h
      rcases allocated : m.allocFrame .user with _ | ⟨pfn, m₁⟩
      · simp only [allocated] at h
        rcases undone : undoGrowStack targetVpn i m pt with ⟨m₂, pt₂⟩
        rw [undone] at h
        cases h
        have freed := undoGrowStack_freed undone
        by_cases among : vpn ∈ Finset.Ico targetVpn (targetVpn + i)
        · refine Or.inr ⟨(Finset.mem_Ico.mp among).1, fun valid => ?_⟩
          rw [freed.unmapped vpn among] at valid
          cases valid
        · exact Or.inl (freed.kept vpn among)
      · simp only [allocated, bind_eq_ok] at h
        obtain ⟨page, index, h⟩ := h
        obtain ⟨position, -⟩ := tableIndex_eq_ok index
        obtain rfl : targetVpn + i = page := Int.ofNat.inj position
        rcases inductionHypothesis h with same | plain
        · by_cases here : vpn = targetVpn + i
          · refine Or.inr ⟨by omega, fun _ => ?_⟩
            rw [same, here, Function.update_self]
          · rw [Function.update_of_ne here] at same
            exact Or.inl same
        · exact Or.inr plain

/-- Growing the stack from a page above the heap. -/
theorem PCB.Covered.grown (covered : b.Covered low top) (above : top ≤ targetVpn)
    (grew : growStackPages targetVpn n i m b.ptbr = .ok (status, m', pt)) (table : b'.ptbr = pt)
    (ends : b'.userHeapEndVaddr = b.userHeapEndVaddr) : b'.Covered low top := by
  have page : b'.heapPage = b.heapPage := by rw [PCB.heapPage, ends, PCB.heapPage]
  constructor
  case region =>
    rw [ends]
    exact covered.region
  case order =>
    rw [page]
    exact covered.order
  case mapped =>
    intro vpn least below
    rcases growStackPages_plain grew vpn with same | ⟨beyond, -⟩
    · rw [table, same]
      exact covered.mapped vpn least below
    · exact absurd (above.trans beyond) (Nat.not_le.mpr below)
  case plain =>
    intro vpn least inside valid
    rw [table] at valid ⊢
    rcases growStackPages_plain grew vpn with same | ⟨-, plain⟩
    · rw [same] at valid ⊢
      exact covered.plain vpn least inside valid
    · exact plain valid

/-- Moving the break to a page above the heap. -/
theorem PCB.Covered.moved {target : Nat} (covered : b.Covered low top) (inside : target ≤ maxPtLen)
    (above : top ≤ target)
    (grew : brkGrow (target - b.heapPage) b.heapPage m b.ptbr = .ok (.success, m', pt)) :
    PCB.Covered low target { b with ptbr := pt, userHeapEndVaddr := regionAddress target } := by
  obtain ⟨moved, isMoved⟩ : ∃ moved : PCB, moved =
      { b with ptbr := pt, userHeapEndVaddr := regionAddress target } := ⟨_, rfl⟩
  have table : moved.ptbr = pt := by rw [isMoved]
  have ends : moved.userHeapEndVaddr = regionAddress target := by rw [isMoved]
  rw [← isMoved]
  have small : target ≤ 0x40080 := inside.trans (by decide)
  obtain ⟨first, last, -⟩ := covered.order
  have reached : b.heapPage + (target - b.heapPage) = target :=
    Nat.add_sub_cancel' (last.trans above)
  obtain ⟨kept, outcome⟩ := brkGrow_eq_ok grew
  obtain ⟨pages, among, fresh⟩ := brkGrow_pages grew
  rw [reached] at kept outcome
  have complete : pt.unmapped b.heapPage target = ∅ := by
    rcases outcome with ⟨-, -, complete, -⟩ | ⟨failed, -⟩
    · exact complete
    · cases failed
  have page : moved.heapPage = target := heapPage_of_region small ends
  constructor
  case region =>
    rw [ends, upToPage_of_aligned (regionAddress_aligned small), regionAddress_toNat small]
    exact Nat.le_add_left ..
  case order =>
    rw [page]
    exact ⟨first.trans (last.trans above), le_rfl, inside⟩
  case mapped =>
    intro vpn least below
    rw [table]
    by_cases old : vpn < b.heapPage
    · rw [kept vpn (Or.inl old)]
      exact covered.mapped vpn least (old.trans_le last)
    · by_contra invalid
      have left : vpn ∈ pt.unmapped b.heapPage target :=
        mem_unmapped.mpr ⟨by omega, by omega, below, Bool.eq_false_iff.mpr invalid⟩
      rw [complete] at left
      exact absurd left (Finset.notMem_empty vpn)
  case plain =>
    intro vpn least bound valid
    rw [table] at valid ⊢
    by_cases new : vpn ∈ pages
    · rw [fresh.mapped vpn new]
    · rw [fresh.kept vpn new] at valid ⊢
      exact covered.plain vpn least bound valid

end Covered

/-! ### Steps of the machine -/

namespace Kernel

variable {env : Env} {cfg : BootConfig} {boot s s' : Kernel} {p : PcbPtr} {b : PCB}
  {low top : Nat} {frame : Kernel → UserContext} {req : LoadRequest}

/-- What changes the heap of the running program, or remaps it: its `Brk` and `Exec`, and a memory
trap on a page that is mapped. -/
def Replaces (s : Kernel) : Input → Prop
  | .kernelTrap ctx _ => ctx.code = yalnixBrk ∨ ctx.code = yalnixExec
  | .memoryTrap ctx => ∃ b, s.heap s.currentProcess = some b ∧
      (b.ptbr (pageOf (downToPage ctx.addr))).valid = true
  | _ => False

/-- The program of `p` goes on: it is not reaped, calls no `Exec`, leaves `Brk` to its allocator, and
traps on unmapped pages alone. -/
def KeepsProgram (env : Env) (p : PcbPtr) (s : Kernel) (i : Input) : Prop :=
  s.LoadFits env i ∧ ¬ s.Reaps p i ∧ (s.currentProcess = p → ¬ s.Replaces i)

/-- The stack grows above the break. -/
theorem heapPage_le_of_grow {ctx : UserContext} (action : memoryTrapAction b ctx = .grow)
    (region : vmem1Base ≤ (upToPage b.userHeapEndVaddr).toNat) :
    b.heapPage ≤ pageOf (downToPage ctx.addr) := by
  have above := (memoryTrapAction_grow.mp action).2.1
  have aligned := upToPage_aligned b.userHeapEndVaddr
  have down := downToPage_toNat ctx.addr
  rw [PCB.heapPage, pageOf_eq region, pageOf_eq (by omega)]
  omega

/-- A step leaves the heap of `p` covered. -/
theorem covered_step {i : Input} (settled : s.Settled) (keeps : KeepsProgram env p s i)
    (h : s.deliver env i = .ok s') (live : s.heap p = some b) (covered : b.Covered low top) :
    ∃ b', s'.heap p = some b' ∧ b'.Covered low top := by
  obtain ⟨fits, alive, keeps⟩ := keeps
  have of_region {t : Kernel} {c : PCB} (kept : RegionKept p t s') (found : t.heap p = some c)
      (covered : c.Covered low top) : ∃ b', s'.heap p = some b' ∧ b'.Covered low top := by
    obtain ⟨b', live', same⟩ := kept c found
    simp only [PCB.region1, Prod.mk.injEq] at same
    exact ⟨b', live', covered.congr same.1 same.2.2.1⟩
  by_cases own : s.currentProcess = p ∧ s.Reshapes i
  · obtain ⟨rfl, reshapes⟩ := own
    cases i with
    | kernelTrap ctx req => exact absurd reshapes (keeps rfl)
    | memoryTrap ctx =>
        obtain ⟨c, found, action⟩ := reshapes
        obtain rfl : c = b := Option.some.inj (found.symm.trans live)
        have h : (s.trap ctx).memoryTrapHandler env = .ok s' := h
        simp only [memoryTrapHandler, bind_eq_ok, deref_eq_ok] at h
        obtain ⟨d, found', h⟩ := h
        obtain rfl : d = c := Option.some.inj (found'.symm.trans live)
        have action' : memoryTrapAction d (s.trap ctx).ctx = .grow := action
        simp only [action', bind_eq_ok] at h
        obtain ⟨⟨status, t⟩, grown, h⟩ := h
        obtain ⟨e, m, pt, found'', grew, outcome⟩ := growStack_eq_ok grown
        obtain rfl : e = d := Option.some.inj (found''.symm.trans live)
        have above : top ≤ pageOf (downToPage ctx.addr) := by
          by_contra below
          have onHeap := covered.order.1.trans (heapPage_le_of_grow action covered.region)
          exact keeps rfl ⟨e, live, covered.mapped _ onHeap (Nat.lt_of_not_le below)⟩
        rcases outcome with ⟨rfl, rfl⟩ | ⟨rfl, rfl⟩
        · simp only [if_true] at h
          have left : RegionKept s.currentProcess _ s' := .exit h
          exact of_region left (Function.update_self ..) (covered.grown above grew rfl rfl)
        · cases h
          exact ⟨_, Function.update_self .., covered.grown above grew rfl rfl⟩
    | _ => cases reshapes
  · have kept : PagesKept True p s s' :=
      pagesKept_step settled.ready settled.table fits alive
        (fun running => ⟨trivial, fun reshapes => own ⟨running, reshapes⟩⟩) h
    exact of_region kept.region live covered

/-- The program of `p` runs, and its heap is covered up to the page address `addr`. -/
structure HeapServed (p : PcbPtr) (low addr : Nat) (s : Kernel) : Prop where
  running : s.currentProcess = p
  user : s.mode = .user
  notIdle : p ≠ s.idleProc
  covered : ∃ b top, s.heap p = some b ∧ b.Covered low top ∧ vmem1Base + top * pageSize = addr

/-- A state that the machine has come to, and in which the heap of `p` is served. -/
def ServedHeap (env : Env) (boot : Kernel) (p : PcbPtr) (low addr : Nat) (s : Kernel) : Prop :=
  Reaches (Guarded (Step env) (LoadFits env)) boot s ∧ s.HeapServed p low addr

/-- The machine goes on with other processes and with other calls, until the program runs again. -/
def GoesOn (env : Env) (p : PcbPtr) (s s' : Kernel) : Prop :=
  Reaches (Guarded (Step env) (KeepsProgram env p)) s s' ∧ s'.currentProcess = p ∧ s'.mode = .user

section Booted

variable (valid : ∀ k, env.helperNewPid k ≠ Status.error.code) (ordered : cfg.Ordered)
  (enough : cfg.Enough) (started : kernelStart env cfg = .ok boot)

include valid ordered enough started

theorem servedHeap_kept (on : GoesOn env p s s') :
    UserHeap.Keeps (ServedHeap env boot p low) s s' := by
  rintro addr ⟨before, served⟩
  obtain ⟨run, running, user⟩ := on
  have reached : Reaches (Guarded (Step env) (LoadFits env)) boot s' ∧ p ≠ s'.idleProc ∧
      ∃ b top, s'.heap p = some b ∧ b.Covered low top ∧ vmem1Base + top * pageSize = addr := by
    clear running user
    induction run with
    | refl => exact ⟨before, served.notIdle, served.covered⟩
    | tail _ last inductionHypothesis =>
        obtain ⟨i, keeps, step⟩ := last
        obtain ⟨before, notIdle, b, top, live, covered, ends⟩ := inductionHypothesis
        have settled := settled_reaches valid ordered enough started before
        have absent := settled.ready.fresh _ le_rfl
        have idle := Sched.Moves.idleProc_eq (deliver_moves absent noLimits_allows step)
        obtain ⟨b', live', covered'⟩ := covered_step settled keeps step.2 live covered
        exact ⟨Reaches.tail before ⟨keeps.1, step⟩, fun same => notIdle (same.trans idle), b', top,
          live', covered', ends⟩
  exact ⟨reached.1, running, user, reached.2.1, reached.2.2⟩

end Booted

/-- A `Brk` that succeeds with a page address above the heap moves the break there. -/
theorem brk_covered {addr : Word} (h : s.brk env addr = .ok (.success, s'))
    (live : s.heap s.currentProcess = some b) (aligned : addr.toNat % 0x2000 = 0)
    (covered : b.Covered low top) (above : vmem1Base + top * pageSize ≤ addr.toNat) :
    addr.toNat ≤ vmem1Limit ∧ ∃ m b' target, s' = (s.setMem m).setPcb s.currentProcess b' ∧
      b'.Covered low target ∧ vmem1Base + target * pageSize = addr.toNat := by
  have page : upToPage addr = addr := upToPage_of_aligned aligned
  have lowest : vmem1Base ≤ addr.toNat := (Nat.le_add_right ..).trans above
  have target : pageOf addr = (addr.toNat - vmem1Base) / 0x2000 := pageOf_eq lowest
  have address : vmem1Base + pageOf addr * pageSize = addr.toNat := by
    simp only [target, vmem1Base, pageSize] at lowest ⊢
    omega
  have given : addr ≠ 0 := by
    rintro rfl
    exact absurd lowest (by decide)
  obtain ⟨first, last, limit⟩ := covered.order
  have higher : top ≤ pageOf addr := by
    simp only [target, vmem1Base, pageSize] at above ⊢
    omega
  have answer := h
  rw [brk_some live given, page] at answer
  simp only [bind_eq_ok] at answer
  obtain ⟨⟨grown, m, pt⟩, grew, answer⟩ := answer
  obtain ⟨-, ⟨rfl, -, -, range⟩ | ⟨rfl, -⟩⟩ := brkGrow_eq_ok grew
  case inr =>
    simp only [if_true] at answer
    cases answer
  have fits : pageOf addr ≤ maxPtLen := by omega
  have inside : addr.toNat ≤ vmem1Limit := by
    simp only [← address, maxPtLen, vmem1Base, vmem1Limit, pageSize] at fits ⊢
    omega
  have moved := covered.moved fits higher grew
  rw [regionAddress_pageOf aligned] at moved
  have reached := last.trans higher
  rw [← page] at reached grew
  rw [brk_grown live given reached grew, page] at h
  cases h
  exact ⟨inside, m, _, pageOf addr, rfl, moved, address⟩

/-- The kernel comes back from `Brk` with 0, or not at all. -/
theorem trapBrk_eq_ok (h : s.trapBrk env = .ok s') :
    ∃ c t, s.heap s.currentProcess = some c ∧
      (s.setPcb s.currentProcess { c with userContext := s.ctx }).brk env (s.ctx.regs 0) =
        .ok (.success, t) ∧
      ∃ ctx, s' = { t with ctx := ctx, mode := .user } ∧ ctx.intReg 0 = 0 := by
  simp only [trapBrk, bind_eq_ok] at h
  obtain ⟨t, saved, ⟨status, u⟩, moved, h⟩ := h
  obtain ⟨c, found, rfl⟩ := saveContext_eq_ok.mp saved
  rcases brk_status moved with rfl | rfl
  · rw [if_pos rfl] at h
    cases h
  · obtain ⟨e, last, rfl⟩ := returnToUser_eq_ok.mp h
    exact ⟨c, u, found, moved, _, rfl, rfl⟩

/-- The trap that `SysBrk` raises, to which the kernel reacts. -/
theorem programBrk_eq_ok {addr : Nat} {status : Int}
    (h : programBrk env frame req addr s = .ok (status, s')) :
    ∃ ctx, ctx.code = yalnixBrk ∧ ctx.regs 0 = BitVec.ofNat 32 addr ∧
      s.deliver env (.kernelTrap ctx req) = .ok s' ∧ (s.trap ctx).trapBrk env = .ok s' ∧
      status = s'.ctx.intReg 0 := by
  unfold programBrk at h
  dsimp only at h
  split at h
  next => cases h
  next t delivered =>
    cases h
    exact ⟨_, rfl, Function.update_self 0 _ (frame s).regs, delivered, delivered, rfl⟩

/-- The system call of the program is what its allocator relies on. -/
theorem programBrk_serves :
    UserHeap.Serves (programBrk env frame req) (ServedHeap env boot p low) where
  granted := by
    rintro old addr s s' ⟨before, running, user, notIdle, b, top, live, covered, rfl⟩ above word
      aligned answer
    obtain ⟨ctx, code, given, delivered, trapped, -⟩ := programBrk_eq_ok answer
    obtain ⟨c, t, found, moved, ctx', rfl, -⟩ := trapBrk_eq_ok trapped
    subst running
    obtain rfl : c = b := Option.some.inj (found.symm.trans live)
    have asked : ((s.trap ctx).ctx.regs 0).toNat = addr := by
      show (ctx.regs 0).toNat = addr
      rw [given, BitVec.toNat_ofNat]
      exact Nat.mod_eq_of_lt word
    rw [← asked] at aligned above
    obtain ⟨inside, m, b', target, rfl, covered', ends⟩ :=
      brk_covered moved (Function.update_self ..) aligned (covered.congr rfl rfl) above
    rw [asked] at inside ends
    have fits : s.LoadFits env (.kernelTrap ctx req) := fun isExec =>
      absurd (code.symm.trans isExec) (by decide)
    refine ⟨inside, before.tail ⟨fits, ⟨user, notIdle⟩, delivered⟩, ?_⟩
    exact ⟨rfl, rfl, notIdle, b', target, Function.update_self .., covered', ends⟩
  refused := by
    rintro old addr s status s' served answer failed
    obtain ⟨ctx, code, given, delivered, trapped, rfl⟩ := programBrk_eq_ok answer
    obtain ⟨c, t, found, moved, ctx', rfl, zero⟩ := trapBrk_eq_ok trapped
    exact absurd zero failed
  stops := by
    intro addr s stop answer
    unfold programBrk at answer
    dsimp only at answer
    split at answer
    next =>
      cases answer
      rfl
    next => cases answer

/-! ### The heap of a program -/

/-- Every range from `first` to `last` may be loaded and stored. -/
def Accessible (m : Memory) (pt : PageTable) (first last : Nat) : Prop :=
  ∀ va n, first ≤ va → va + n ≤ last → m.loadRange pt va n = .ok (m.bytesAt pt va n) ∧
    ∀ bytes : List Byte, bytes.length = n → ∃ m', m.storeRange pt va bytes = .ok m'

/-- A covered heap may be loaded and stored. -/
theorem covered_accessible {m : Memory} (covered : b.Covered low top) :
    Accessible m b.ptbr (vmem1Base + low * pageSize) (vmem1Base + top * pageSize) := by
  intro va n above below
  have limit := covered.order.2.2
  have plain : ∀ vpn ∈ rangePages va n,
      (b.ptbr vpn).valid = true ∧ (b.ptbr vpn).prot = protReadWrite := by
    intro vpn member
    have some := pos_of_mem_rangePages member
    rw [rangePages, if_neg (Nat.ne_of_gt some), List.mem_range'_1] at member
    simp only [vmem1Base, pageSize] at above below member
    have mapped := covered.mapped vpn (by omega) (by omega)
    exact ⟨mapped, covered.plain vpn (by omega) (by omega) mapped⟩
  have inside : inRegion1 va n = true := by
    rw [inRegion1, decide_eq_true_eq]
    refine Or.inr ⟨(Nat.le_add_right ..).trans above, below.trans ?_⟩
    simp only [vmem1Base, vmem1Limit, pageSize, maxPtLen] at limit ⊢
    omega
  have readable : (rangePages va n).all (fun vpn => (b.ptbr vpn).readable) = true := by
    rw [List.all_eq_true]
    intro vpn member
    obtain ⟨mapped, both⟩ := plain vpn member
    rw [Pte.readable, mapped, both]
    rfl
  have writable : (rangePages va n).all (fun vpn => (b.ptbr vpn).writable) = true := by
    rw [List.all_eq_true]
    intro vpn member
    obtain ⟨mapped, both⟩ := plain vpn member
    rw [Pte.writable, mapped, both]
    rfl
  constructor
  · rw [loadRange, inside, readable]
    rfl
  · rintro bytes rfl
    rw [storeRange, storeFun, inside, writable]
    exact ⟨_, rfl⟩

section Booted

variable (valid : ∀ k, env.helperNewPid k ≠ Status.error.code) (ordered : cfg.Ordered)
  (enough : cfg.Enough) (started : kernelStart env cfg = .ok boot)

include valid ordered enough started

end Booted

theorem eq_ok_of_toOption {ε α : Type} {x : Except ε α} {a : α} (h : x.toOption = some a) :
    x = .ok a := by
  cases x with
  | error _ => cases h
  | ok _ =>
      cases h
      rfl

/-- Init goes on: it is not reaped, and lets the clock alone interrupt it. -/
def keepsInit (s : Kernel) (i : Input) : Bool :=
  loadsNothing s i && decide (1 ∉ s.queues .zombie) &&
    match i with
    | .clockTrap _ | .resume => true
    | _ => decide (s.currentProcess ≠ 1)

theorem keepsInit_sound (s : Kernel) (i : Input) (checked : keepsInit s i = true) :
    KeepsProgram sampleEnv 1 s i := by
  obtain ⟨checked, other⟩ := Bool.and_eq_true_iff.mp checked
  obtain ⟨quiet, alive⟩ := Bool.and_eq_true_iff.mp checked
  have alive := of_decide_eq_true alive
  refine ⟨loadsNothing_fits quiet, fun reaps => alive reaps.zombie, fun running replaces => ?_⟩
  cases i with
  | kernelTrap ctx req => exact of_decide_eq_true other running
  | memoryTrap ctx => exact of_decide_eq_true other running
  | _ => exact replaces

end Kernel

end Yalnix
