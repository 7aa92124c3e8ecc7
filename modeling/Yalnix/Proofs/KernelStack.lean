/-
Module: Yalnix.Proofs.KernelStack
Purpose: The kernel stack that region 0 maps, and the region 1 registers, always belong to the
  current process.
Trusted boundary: the boot image ends below the kernel stack
Main exports: Kernel.MappingOp, StackMapped, mapped_stack_is_current
-/
import Yalnix.Proofs.RegionZero
import Yalnix.Proofs.Start
import Yalnix.Run

namespace Yalnix.Kernel

open Transition Memory

variable {env : Env} {cfg : BootConfig} {s s' t : Kernel} {p : PcbPtr} {b b' : PCB}

/-- The operations that edit region 0, the region 1 tables or the registers. -/
inductive MappingOp where
  | kcSwitch (kc : KernelContext) (curr next : PcbPtr)
  | kcCopy (kc : KernelContext) (new : PcbPtr)
  | cloneFrame (src dst : Nat)
  | copyPT (src dst : PcbPtr)
  | setKernelBrk (addr : Word)
  | brk (addr : Word)
  | growStack (addr : Word)
  /-- `LoadProgram` for the current process. -/
  | loadProgram (req : LoadRequest) (argv : ArgVector)

/-- What an operation does, whatever it returns. -/
def MappingOp.run (env : Env) (s : Kernel) : MappingOp → Except Stop Kernel
  | .kcSwitch kc curr next => s.kcSwitch kc curr next
  | .kcCopy kc new => s.kcCopy env kc new
  | .cloneFrame src dst => .ok (s.setMem (s.mem.cloneFrame src dst))
  | .copyPT src dst => do return (← s.copyPT src dst).2
  | .setKernelBrk addr => .ok (s.setMem (s.mem.setKernelBrk addr).2)
  | .brk addr => do return (← s.brk env addr).2
  | .growStack addr => do return (← s.growStack addr).2
  | .loadProgram req argv => do return (← s.loadProgram env req argv s.currentProcess).2

/-- The kernel heap ends below the kernel stack, the entries of the kernel stack are those of the
current process, and `REG_PTLR1` is its table length. -/
structure StackMapped (s : Kernel) : Prop where
  below : s.mem.kernelBrkPage ≤ kstackStartPage
  stack : ∃ c kstack, s.heap s.currentProcess = some c ∧ c.kstack = some kstack ∧
    s.ptlr1 = c.ptlr ∧ ∀ i < kstackPages, s.mem.ptRegion0 (kstackStartPage + i) = kstack i

/-- No process loses its kernel stack or changes the length of its table. -/
def StacksKept (s s' : Kernel) : Prop :=
  ∀ p b kstack, s.heap p = some b → b.kstack = some kstack →
    ∃ b', s'.heap p = some b' ∧ b'.kstack = some kstack ∧ b'.ptlr = b.ptlr

namespace StacksKept

theorem refl (s : Kernel) : StacksKept s s := fun _ b _ live stack => ⟨b, live, stack, rfl⟩

theorem trans (first : StacksKept s t) (second : StacksKept t s') : StacksKept s s' := by
  intro p b kstack live stack
  obtain ⟨c, live', stack', length⟩ := first p b kstack live stack
  obtain ⟨d, live'', stack'', length'⟩ := second p c kstack live' stack'
  exact ⟨d, live'', stack'', length'.trans length⟩

theorem of_heap (same : s'.heap = s.heap) : StacksKept s s' := by
  intro p b kstack live stack
  rw [← same] at live
  exact ⟨b, live, stack, rfl⟩

/-- Overwriting a PCB by one with the same stack, if it has one, and the same table length. -/
theorem setPcb (live : s.heap p = some b)
    (stack : ∀ kstack, b.kstack = some kstack → b'.kstack = some kstack)
    (length : b'.ptlr = b.ptlr) : StacksKept s (s.setPcb p b') := by
  intro q c kstack found stack'
  by_cases same : q = p
  · subst same
    obtain rfl := Option.some.inj (found.symm.trans live)
    exact ⟨b', Function.update_self .., stack kstack stack', length⟩
  · refine ⟨c, ?_, stack', rfl⟩
    rw [setPcb_heap, Function.update_of_ne same]
    exact found

end StacksKept

/-- What every operation but a context switch keeps. -/
structure StackKept (s s' : Kernel) : Prop where
  mem : StackEntriesKept s.mem s'.mem
  stack : StacksKept s s'
  current : s'.currentProcess = s.currentProcess
  table : s'.ptbr1 = s.ptbr1
  length : s'.ptlr1 = s.ptlr1

namespace StackKept

theorem refl (s : Kernel) : StackKept s s := ⟨.refl _, .refl s, rfl, rfl, rfl⟩

theorem trans (first : StackKept s t) (second : StackKept t s') : StackKept s s' where
  mem := first.mem.trans second.mem
  stack := first.stack.trans second.stack
  current := second.current.trans first.current
  table := second.table.trans first.table
  length := second.length.trans first.length

theorem setMem {m : Memory} (mem : StackEntriesKept s.mem m) : StackKept s (s.setMem m) :=
  ⟨mem, .of_heap rfl, rfl, rfl, rfl⟩

theorem setPcb (live : s.heap p = some b)
    (stack : ∀ kstack, b.kstack = some kstack → b'.kstack = some kstack)
    (length : b'.ptlr = b.ptlr) : StackKept s (s.setPcb p b') :=
  ⟨.refl _, .setPcb live stack length, rfl, rfl, rfl⟩

theorem restoreContext (h : s.restoreContext = .ok s') : StackKept s s' := by
  obtain ⟨b, -, rfl⟩ := restoreContext_eq_ok.mp h
  exact ⟨.refl _, .of_heap rfl, rfl, rfl, rfl⟩

theorem queueEnqueue (q : QueueId) : StackKept s (s.queueEnqueue env q p) where
  mem := by rw [queueEnqueue_mem]; exact .refl _
  stack := .of_heap (queueEnqueue_heap q p)
  current := queueEnqueue_currentProcess q p
  table := queueEnqueue_ptbr1 q p
  length := by rw [queueEnqueue_eq]

/-- `getFreePCB` writes a PCB that did not exist. -/
theorem getFreePCB (fresh : s.heap s.nextPcb = none) {slot : Option PcbPtr}
    (h : s.getFreePCB env = .ok (slot, s')) : StackKept s s' := by
  rcases getFreePCB_eq_ok h with ⟨-, rfl⟩ | ⟨i, -, -, rfl⟩
  · exact refl s'
  · refine ⟨.refl _, ?_, rfl, rfl, rfl⟩
    intro q b kstack live stack
    have other : q ≠ s.nextPcb := by
      rintro rfl
      rw [fresh] at live
      cases live
    refine ⟨b, ?_, stack, rfl⟩
    rw [setQueue_heap, setPcb_heap, Function.update_of_ne other]
    exact live

theorem initializeKernelStackProcess {kstack : Option PageTable}
    (h : s.initializeKernelStackProcess env = .ok (kstack, s')) : StackKept s s' := by
  rcases initializeKernelStackProcess_eq_ok h with ⟨-, rfl⟩ | ⟨m, pages, filled, -, rfl⟩
  · exact ⟨.refl _, .of_heap rfl, rfl, rfl, rfl⟩
  · exact ⟨(Region0Kept.initKernelStackPages filled).stack, .of_heap rfl, rfl, rfl, rfl⟩

/-- `KCCopy` gives a stack to a process that has none. -/
theorem kcCopy {kc : KernelContext} {new : PcbPtr} (h : s.kcCopy env kc new = .ok s') :
    StackKept s s' := by
  simp only [Kernel.kcCopy, bind_eq_ok, deref_eq_ok] at h
  obtain ⟨t, saved, n, live, h⟩ := h
  obtain ⟨n₀, found, rfl⟩ := modifyPcb_eq_ok.mp saved
  have first : StackKept s (s.setPcb new { n₀ with kernelContext := kc }) :=
    setPcb found (fun _ held => held) rfl
  rcases stack : n.kstack with _ | kstack
  · simp only [stack, bind_eq_ok, modifyPcb_eq_ok, pure_eq_ok] at h
    obtain ⟨⟨pages, u⟩, filled, v, ⟨n', live', rfl⟩, ⟨pages', w⟩, paired, c, -, h⟩ := h
    obtain ⟨rfl, rfl⟩ := Prod.mk.inj paired
    have second : StackKept (s.setPcb new { n₀ with kernelContext := kc }) u :=
      initializeKernelStackProcess filled
    have heap : u.heap = (s.setPcb new { n₀ with kernelContext := kc }).heap := by
      rcases initializeKernelStackProcess_eq_ok filled with ⟨-, rfl⟩ | ⟨m, pages, -, -, rfl⟩
      · rfl
      · rfl
    have stackless : n'.kstack = none := by
      rw [heap] at live'
      obtain rfl : n = n' := Option.some.inj (live.symm.trans live')
      exact stack
    have third : StackKept u (u.setPcb new { n' with kstack := pages }) := by
      refine setPcb live' (fun kstack held => ?_) rfl
      rw [stackless] at held
      cases held
    split at h
    · cases h
      exact ((first.trans second).trans third).trans (setMem (.copyKernelStack _ _))
    · cases h
  · simp only [stack, bind_eq_ok, pure_eq_ok] at h
    obtain ⟨⟨pages', w⟩, paired, c, -, h⟩ := h
    obtain ⟨rfl, rfl⟩ := Prod.mk.inj paired
    split at h
    · cases h
      exact first.trans (setMem (.copyKernelStack _ _))
    · cases h

theorem copyPT {src dst : PcbPtr} {status : Status} (h : s.copyPT src dst = .ok (status, s')) :
    StackKept s s' := by
  obtain ⟨srcPcb, dstPcb, m, pt, -, live, copied, rfl⟩ := copyPT_eq_ok h
  have first : StackKept s (s.setMem m) := setMem (.copyPTEntries copied)
  exact first.trans (setPcb live (fun _ stack => stack) rfl)

theorem brk {addr : Word} {status : Status} (h : s.brk env addr = .ok (status, s')) :
    StackKept s s' := by
  unfold Kernel.brk at h
  by_cases zero : addr = 0
  · rw [if_pos zero] at h
    cases h
    exact refl s
  · rw [if_neg zero] at h
    simp only [bind_eq_ok, deref_eq_ok] at h
    obtain ⟨c, live, ⟨grown, m, pt⟩, grew, h⟩ := h
    have first : StackKept s (s.setMem m) := setMem (Region0Kept.brkGrow grew).stack
    by_cases failed : grown = .error
    · simp only [failed, if_true] at h
      cases h
      exact first.trans (setPcb live (fun _ stack => stack) rfl)
    · simp only [failed, if_false, bind_eq_ok, pure_eq_ok] at h
      obtain ⟨⟨vpn, m', pt'⟩, shrank, h⟩ := h
      cases h
      have second : StackKept s (s.setMem m') :=
        setMem ((Region0Kept.brkGrow grew).trans (Region0Kept.brkShrink shrank)).stack
      exact second.trans (setPcb live (fun _ stack => stack) rfl)

theorem growStack {addr : Word} {status : Status} (h : s.growStack addr = .ok (status, s')) :
    StackKept s s' := by
  simp only [Kernel.growStack, bind_eq_ok, deref_eq_ok] at h
  obtain ⟨c, live, ⟨grown, m, pt⟩, grew, h⟩ := h
  have first : StackKept s (s.setMem m) := setMem (Region0Kept.growStackPages grew).stack
  by_cases failed : grown = .kill
  · simp only [failed, if_true] at h
    cases h
    exact first.trans (setPcb live (fun _ stack => stack) rfl)
  · simp only [failed, if_false] at h
    cases h
    exact first.trans (setPcb live (fun _ stack => stack) rfl)

/-- `LoadProgram` changes the frames and the region 1 table of its process only. -/
theorem loadImage {req : LoadRequest} {li : LoadInfo} {plan : LoadPlan} {argbuf : ArgBuf}
    {m m' : Memory} {status : Status}
    (h : loadImage req li plan argbuf m b = .ok (status, m', b')) :
    StackEntriesKept m m' ∧ b'.kstack = b.kstack ∧ b'.ptlr = b.ptlr := by
  obtain ⟨m₀, pt₀, m₁, pt₁, cleared, mapped, wrote, -⟩ := loadImage_eq_ok h
  have kept := ((Region0Kept.clearRegion1 cleared).trans (.loadSegments mapped)).trans
    (.writesOnly wrote)
  obtain ⟨pt, context, heapStart, heapEnd, stackBase, rfl⟩ := loadImage_pcb h
  exact ⟨kept.stack, rfl, rfl⟩

theorem loadProgram {req : LoadRequest} {argv : ArgVector} {status : Status}
    (h : s.loadProgram env req argv p = .ok (status, s')) : StackKept s s' := by
  obtain ⟨b, live, ⟨-, rfl, -⟩ | ⟨li, args, plan, -, -, -, loaded⟩⟩ := loadProgram_eq_ok h
  · exact refl s'
  · have first : StackKept s (s.malloc env).2 := ⟨.refl _, .of_heap rfl, rfl, rfl, rfl⟩
    rcases loaded with ⟨-, -, rfl⟩ | ⟨-, m, b', image, rfl⟩
    · exact first.trans (setPcb live (fun _ stack => stack) rfl)
    · obtain ⟨mem, stack, length⟩ := loadImage image
      have second : StackKept s ((s.malloc env).2.setMem m) := first.trans (setMem mem)
      exact second.trans (setPcb live (fun _ held => stack.trans held) length)

end StackKept

/-- An operation that keeps the current process, its stack and the entries of the kernel stack. -/
theorem StackMapped.carry (inv : s.StackMapped) (kept : StackKept s s') : s'.StackMapped := by
  obtain ⟨below, same⟩ := kept.mem inv.below
  obtain ⟨c, kstack, live, stack, ptlr, mapped⟩ := inv.stack
  obtain ⟨c', live', stack', ptlr'⟩ := kept.stack _ c kstack live stack
  refine ⟨below, c', kstack, ?_, stack', ?_, ?_⟩
  · rw [kept.current]
    exact live'
  · rw [kept.length, ptlr, ptlr']
  · intro i page
    rw [same _ (Nat.le_add_right _ i)]
    exact mapped i page

/-- A context switch maps the stack of the process that it makes current. -/
theorem kcSwitch_stackMapped {kc : KernelContext} {curr next : PcbPtr}
    (below : s.mem.kernelBrkPage ≤ kstackStartPage) (h : s.kcSwitch kc curr next = .ok s') :
    s'.StackMapped ∧ s'.ptbr1 = s'.currentProcess := by
  obtain ⟨c, n, kstack, -, live, stack, rfl⟩ := kcSwitch_eq_ok h
  refine ⟨⟨below, { n with state := .running }, kstack, ?_, stack, rfl, ?_⟩, rfl⟩
  · exact Function.update_self ..
  · intro i page
    have inside : kstackStartPage ≤ kstackStartPage + i ∧
        kstackStartPage + i < kstackStartPage + kstackPages :=
      ⟨Nat.le_add_right _ i, Nat.add_lt_add_left page _⟩
    simp only [if_pos inside, Nat.add_sub_cancel_left]

/-! ### Boot -/

/-- The entry of page `i` of the stack the machine comes up on. -/
def bootStackEntry (i : Nat) : Pte := ⟨true, protReadWrite, kstackStartPage + i⟩

theorem initKernelStackIdlePages_eq_ok {entries : List Nat} {m m' : Memory}
    {kstack kstack' : PageTable}
    (h : initKernelStackIdlePages entries m kstack = .ok (m', kstack')) :
    Region0Kept m m' ∧
      ∀ i, kstack' i = if i ∈ entries then bootStackEntry i else kstack i := by
  induction entries generalizing m kstack with
  | nil =>
      cases h
      exact ⟨.refl _, fun i => rfl⟩
  | cons page rest inductionHypothesis =>
      simp only [initKernelStackIdlePages, bind_eq_ok] at h
      obtain ⟨⟨result, m₁⟩, taken, h⟩ := h
      obtain ⟨kept, filled⟩ := inductionHypothesis h
      refine ⟨(Region0Kept.allocSpecificFrame taken).trans kept, fun i => ?_⟩
      rw [filled]
      by_cases later : i ∈ rest
      · rw [if_pos later, if_pos (List.mem_cons_of_mem _ later)]
      · rw [if_neg later]
        by_cases here : i = page
        · subst here
          rw [Function.update_self, if_pos List.mem_cons_self]
          rfl
        · rw [Function.update_of_ne here, if_neg]
          rw [List.mem_cons, not_or]
          exact ⟨here, later⟩

/-- The idle process keeps the stack the machine came up on. -/
theorem createIdlePCB_stack {idle : PcbPtr} (h : s.createIdlePCB env cfg = .ok (idle, s')) :
    Region0Kept s.mem s'.mem ∧ s'.ptlr1 = s.ptlr1 ∧
      ∃ c kstack, s'.heap idle = some c ∧ c.kstack = some kstack ∧ c.ptlr = maxPtLen ∧
        ∀ i < kstackPages, kstack i = bootStackEntry i := by
  simp only [createIdlePCB, bind_eq_ok] at h
  obtain ⟨⟨slot, t⟩, found, h⟩ := h
  rcases slot with _ | p
  · cases h
  · obtain ⟨-, -, live⟩ := getFreePCB_sched found
    have first : t.mem = s.mem ∧ t.ptlr1 = s.ptlr1 := by
      rcases getFreePCB_eq_ok found with ⟨none, -⟩ | ⟨i, -, -, rfl⟩
      · cases none
      · exact ⟨rfl, rfl⟩
    simp only [bind_eq_ok] at h
    obtain ⟨u, mapped, h⟩ := h
    have second : Region0Kept t.mem u.mem ∧ u.ptlr1 = t.ptlr1 ∧
        ∃ c, u.heap p = some c ∧ c.ptlr = maxPtLen := by
      rcases allocated : t.mem.allocFrame .user with _ | ⟨pfn, m⟩
      · simp only [allocated] at mapped
        obtain ⟨b, live', rfl⟩ := modifyPcb_eq_ok.mp mapped
        obtain rfl := Option.some.inj (live.symm.trans live')
        exact ⟨.refl _, rfl, _, Function.update_self .., rfl⟩
      · simp only [allocated] at mapped
        obtain ⟨b, live', rfl⟩ := modifyPcb_eq_ok.mp mapped
        obtain rfl := Option.some.inj (live.symm.trans live')
        exact ⟨.allocFrame allocated, rfl, _, Function.update_self .., rfl⟩
    obtain ⟨taken, length, c, live', ptlr⟩ := second
    simp only [malloc_fst] at h
    split at h
    · cases h
    · simp only [bind_eq_ok, pure_eq_ok] at h
      obtain ⟨⟨m', kstack⟩, filled, v, prepared, h⟩ := h
      obtain ⟨rfl, rfl⟩ := Prod.mk.inj h
      obtain ⟨kept, entries⟩ := initKernelStackIdlePages_eq_ok filled
      obtain ⟨d, live'', rfl⟩ := modifyPcb_eq_ok.mp prepared
      obtain rfl : c = d := Option.some.inj (live'.symm.trans live'')
      rw [← first.1]
      refine ⟨taken.trans kept, length.trans first.2, _, kstack, Function.update_self .., rfl,
        ptlr, ?_⟩
      intro i page
      rw [entries, if_pos (List.mem_range.mpr page)]

/-- Creating and loading the first user process keeps everything but `REG_PTBR1`. -/
theorem createInitPCB_stack {init : PcbPtr} (fresh : s.heap s.nextPcb = none)
    (h : s.createInitPCB env cfg = .ok (init, s')) (p : PcbPtr) :
    StackKept { s with ptbr1 := p } { s' with ptbr1 := p } := by
  simp only [createInitPCB, bind_eq_ok] at h
  obtain ⟨⟨slot, t⟩, found, h⟩ := h
  rcases slot with _ | init
  · cases h
  · obtain ⟨-, -, new⟩ := getFreePCB_sched found
    simp only [bind_eq_ok] at h
    obtain ⟨⟨kstack, u⟩, stacked, v, prepared, ⟨status, w⟩, loaded, h⟩ := h
    have taken : StackKept s t := .getFreePCB fresh found
    have filled : StackKept t u := .initializeKernelStackProcess stacked
    have written : StackKept u v := by
      have heap : u.heap = t.heap := by
        rcases initializeKernelStackProcess_eq_ok stacked with ⟨-, rfl⟩ | ⟨m, pages, -, -, rfl⟩
        · rfl
        · rfl
      obtain ⟨b, live, rfl⟩ := modifyPcb_eq_ok.mp prepared
      have live' := live
      rw [heap] at live'
      obtain rfl := Option.some.inj (new.symm.trans live')
      refine .setPcb live (fun kstack' held => ?_) rfl
      cases held
    have image : StackKept { v with ptbr1 := init } w := .loadProgram loaded
    by_cases failed : status ≠ .success
    · rw [if_pos failed] at h
      cases h
    · rw [if_neg failed] at h
      obtain ⟨rfl, rfl⟩ := Prod.mk.inj (pure_eq_ok.mp h)
      have before := (taken.trans filled).trans written
      exact ⟨before.mem.trans image.mem, before.stack.trans image.stack,
        image.current.trans before.current, rfl, image.length.trans before.length⟩

/-- When the machine starts, the idle process is current and its stack is mapped. -/
theorem kernelStart_stackMapped (room : cfg.origKernelBrkPage ≤ kstackStartPage)
    (h : kernelStart env cfg = .ok s) : s.StackMapped ∧ s.ptbr1 = s.currentProcess := by
  simp only [kernelStart, bind_eq_ok] at h
  obtain ⟨⟨idle, a⟩, idleMade, b, restored, ⟨init, c⟩, initMade, d, copied, h⟩ := h
  obtain ⟨memory, length, pcb, kstack, live, stack, ptlr, entries⟩ := createIdlePCB_stack idleMade
  have start : StackMapped { a with idleProc := idle, currentProcess := idle, ptbr1 := idle } := by
    refine ⟨?_, pcb, kstack, live, stack, length.trans ptlr.symm, ?_⟩
    · rw [memory.brk]
      exact room
    · intro i page
      have inside : kstackStartPage ≤ kstackStartPage + i ∧
          kstackStartPage + i < kstackStartPage + kstackPages :=
        ⟨Nat.le_add_right _ i, Nat.add_lt_add_left page _⟩
      rw [entries i page, memory.table]
      exact if_pos inside
  obtain ⟨idleIs, view⟩ := createIdlePCB_sched idleMade
  have fresh : b.heap b.nextPcb = none := by
    obtain ⟨e, -, rfl⟩ := restoreContext_eq_ok.mp restored
    have next : a.nextPcb = 1 := congrArg Sched.nextPcb view
    have absent : a.sched.procs 1 = none := by
      rw [view]
      simp [Sched.allocate, beforeProcesses]
    rw [sched_procs, Option.map_eq_none_iff] at absent
    rw [next]
    exact absent
  have toIdle : StackKept { a with idleProc := idle, currentProcess := idle, ptbr1 := idle } b :=
    .restoreContext restored
  have created := createInitPCB_stack fresh initMade idle
  have mapped := start.carry toIdle
  have before : StackMapped { b with ptbr1 := idle } := ⟨mapped.below, mapped.stack⟩
  have rest : StackKept { c with ptbr1 := idle } s :=
    ((StackKept.queueEnqueue .ready).trans (.kcCopy copied)).trans (.restoreContext h)
  refine ⟨(before.carry created).carry rest, rest.table.trans ?_⟩
  exact (rest.current.trans (created.current.trans toIdle.current)).symm

/-- All operations but the context switch keep the current process and its stack. -/
theorem MappingOp.kept {op : MappingOp} (h : op.run env s = .ok s') :
    (∃ kc curr next, s.kcSwitch kc curr next = .ok s') ∨ StackKept s s' := by
  cases op with
  | kcSwitch kc curr next => exact Or.inl ⟨kc, curr, next, h⟩
  | kcCopy kc new => exact Or.inr (.kcCopy h)
  | cloneFrame src dst =>
      cases h
      exact Or.inr (.setMem (.cloneFrame src dst))
  | copyPT src dst =>
      simp only [run, bind_eq_ok, pure_eq_ok] at h
      obtain ⟨⟨status, t⟩, copied, rfl⟩ := h
      exact Or.inr (.copyPT copied)
  | setKernelBrk addr =>
      cases h
      exact Or.inr (.setMem (.setKernelBrk addr))
  | brk addr =>
      simp only [run, bind_eq_ok, pure_eq_ok] at h
      obtain ⟨⟨status, t⟩, moved, rfl⟩ := h
      exact Or.inr (.brk moved)
  | growStack addr =>
      simp only [run, bind_eq_ok, pure_eq_ok] at h
      obtain ⟨⟨status, t⟩, grown, rfl⟩ := h
      exact Or.inr (.growStack grown)
  | loadProgram req argv =>
      simp only [run, bind_eq_ok, pure_eq_ok] at h
      obtain ⟨⟨status, t⟩, loaded, rfl⟩ := h
      exact Or.inr (.loadProgram loaded)

/-- The kernel stack that region 0 maps is the current process's, the region 1 registers hold its
table, and neither the kernel heap nor the scratch pages reach the entries of the stack. -/
structure StackIsCurrent (s : Kernel) : Prop where
  table : s.ptbr1 = s.currentProcess
  stack : ∃ c kstack, s.heap s.currentProcess = some c ∧ c.kstack = some kstack ∧
    s.ptlr1 = c.ptlr ∧ ∀ i < kstackPages, s.mem.ptRegion0 (kstackStartPage + i) = kstack i
  heapUpdate : ∀ addr vpn, kstackStartPage ≤ vpn →
    (s.mem.setKernelBrk addr).2.ptRegion0 vpn = s.mem.ptRegion0 vpn
  scratchUpdate : ∀ src dst vpn, kstackStartPage ≤ vpn →
    (s.mem.cloneFrame src dst).ptRegion0 vpn = s.mem.ptRegion0 vpn

/-- From the end of `KernelStart` on, the mapped kernel stack is the current process's. -/
theorem mapped_stack_is_current (room : cfg.origKernelBrkPage ≤ kstackStartPage)
    {boot : Kernel} (started : kernelStart env cfg = .ok boot)
    (run : Reaches (fun s op t => MappingOp.run env s op = .ok t) boot s) :
    s.StackIsCurrent := by
  have inv : s.StackMapped ∧ s.ptbr1 = s.currentProcess := by
    refine run.invariant (P := fun s => s.StackMapped ∧ s.ptbr1 = s.currentProcess) ?_
      (kernelStart_stackMapped room started)
    rintro s op t ⟨inv, table⟩ step
    rcases MappingOp.kept step with ⟨kc, curr, next, switched⟩ | kept
    · exact kcSwitch_stackMapped inv.below switched
    · exact ⟨inv.carry kept, kept.table.trans (table.trans kept.current.symm)⟩
  constructor
  case table => exact inv.2
  case stack => exact inv.1.stack
  case heapUpdate =>
    intro addr
    exact (StackEntriesKept.setKernelBrk addr inv.1.below).2
  case scratchUpdate =>
    intro src dst
    exact (StackEntriesKept.cloneFrame src dst inv.1.below).2

/-- After boot init is switched to, the kernel heap grows, and init's stack grows. -/
theorem mapped_stack_sample : ∃ s : Kernel, s.currentProcess = 1 ∧ s.StackIsCurrent := by
  have answer : (do
      let boot ← kernelStart sampleEnv sampleBoot
      let s ← MappingOp.run sampleEnv boot (.kcSwitch .clockTrap 0 1)
      let s ← MappingOp.run sampleEnv s (.setKernelBrk 0x20000)
      let s ← MappingOp.run sampleEnv s (.growStack 0x1f8000)
      return decide (s.currentProcess = 1) : Except Stop Bool) = .ok true := by
    decide +kernel
  simp only [bind_eq_ok, pure_eq_ok, decide_eq_true_iff] at answer
  obtain ⟨boot, started, s₁, switched, s₂, heap, s₃, stack, current⟩ := answer
  have run : Reaches (fun s op t => MappingOp.run sampleEnv s op = .ok t) boot s₃ :=
    (((Reaches.refl boot).tail switched).tail heap).tail stack
  exact ⟨s₃, current, mapped_stack_is_current (by decide) started run⟩

end Yalnix.Kernel
