/-
Module: Yalnix.Proofs.Isolation
Purpose: No two valid page table entries ever name the same frame, and none names a free one; and
  no frame in use is forgotten, as long as no process is reaped and no page is mapped twice.
Trusted boundary: the boot image is laid out in order and ends below the kernel stack, and the
  machine has at least as many frames as a region has pages
Main exports: BootConfig.Ordered, boot_moves, SpaceOp, Isolated, memory_isolated, FramesConserved,
  frames_conserved
-/
import Yalnix.Proofs.BootMemory
import Yalnix.Proofs.FailedCalls
import Yalnix.Proofs.FrameAccounts
import Yalnix.Proofs.SpaceSteps

namespace Yalnix

open Memory Kernel Holdings Transition

variable {env : Env} {cfg : BootConfig} {lossy sharing : Prop} {s s' boot : Kernel}

/-- What the boot loader and the machine guarantee: the kernel image is in order and ends below the
kernel stack, and there are frames to map region 0 to itself. -/
structure BootConfig.Ordered (cfg : BootConfig) : Prop where
  dataBelow : cfg.firstKernelDataPage ≤ cfg.origKernelBrkPage
  imageBelow : cfg.origKernelBrkPage < kstackStartPage
  frames : maxPtLen ≤ cfg.nframes

/-- The arguments of the first program. -/
def BootConfig.args (cfg : BootConfig) : List (List Byte) := cfg.cmdArgs.map Subtype.val

/-- There are frames for the first program, beside those of the kernel image, of the idle process's
page and kernel stack, and of init's kernel stack. -/
def BootConfig.Enough (cfg : BootConfig) : Prop :=
  ∀ li, cfg.init.info = some li →
    cfg.origKernelBrkPage + 5 + programPages li cfg.args ≤ cfg.nframes

/-- No page of the first program belongs to two segments. -/
def BootConfig.Once (cfg : BootConfig) : Prop :=
  ∀ li plan, cfg.init.info = some li → loadPlan li cfg.args maxPtLen = some plan →
    plan.indices.Nodup

/-! ### Boot -/

/-- Region 0 as the machine comes up maps the kernel image to itself. -/
theorem bootMemory_frame (ordered : cfg.Ordered) {vpn pfn : Nat} (inside : vpn < kstackStartPage)
    (named : ((bootMemory cfg).ptRegion0 vpn).frame = some pfn) :
    pfn = vpn ∧ vpn < cfg.origKernelBrkPage := by
  have dataBelow := ordered.dataBelow
  have outside : ¬ (kstackStartPage ≤ vpn ∧ vpn < kstackStartPage + kstackPages) := by omega
  simp only [bootMemory, if_neg outside] at named
  by_cases inData : cfg.firstKernelDataPage ≤ vpn ∧ vpn < cfg.origKernelBrkPage
  · rw [if_pos inData] at named
    exact ⟨(Option.some.inj named).symm, inData.2⟩
  · rw [if_neg inData] at named
    by_cases inText : cfg.firstKernelTextPage ≤ vpn ∧ vpn < cfg.firstKernelDataPage
    · rw [if_pos inText] at named
      exact ⟨(Option.some.inj named).symm, by omega⟩
    · rw [if_neg inText] at named
      cases named

theorem bootMemory_scratch (ordered : cfg.Ordered)
    (below : cfg.origKernelBrkPage ≤ scratchVpnSrc) : (bootMemory cfg).ScratchFree := by
  have unmapped : ∀ vpn < kstackStartPage, cfg.origKernelBrkPage ≤ vpn →
      ((bootMemory cfg).ptRegion0 vpn).valid = false := by
    intro vpn inside above
    by_contra valid
    rw [Bool.not_eq_false] at valid
    have named := bootMemory_frame ordered inside (Pte.frame_of_valid valid)
    omega
  exact ⟨unmapped scratchVpnSrc (by decide) below,
    unmapped scratchVpnDst (by decide) (Nat.le_succ_of_le below)⟩

/-- Before any process exists, region 0 holds the frames of its own pages. -/
theorem holds_beforeProcesses {slot : Slot} {pfn : Nat}
    (held : (beforeProcesses cfg).holdings.holds slot = some pfn) :
    ∃ vpn < kstackStartPage, slot = (.region0, vpn) ∧
      ((bootMemory cfg).ptRegion0 vpn).frame = some pfn := by
  obtain ⟨table, vpn⟩ := slot
  have empty : (if vpn < table.limit then Pte.zero.frame else none) = none := by
    rw [Pte.frame_of_invalid rfl, ite_self]
  cases table with
  | region0 =>
      rw [Kernel.holdings, holds_region0] at held
      by_cases inside : vpn < kstackStartPage
      · rw [if_pos inside] at held
        exact ⟨vpn, inside, rfl, held⟩
      · rw [if_neg inside] at held
        cases held
  | kernelStack p =>
      rw [Kernel.holdings, holds_table (by simp)] at held
      exact absurd (empty.symm.trans held) (by simp)
  | region1 p =>
      rw [Kernel.holdings, holds_table (by simp)] at held
      exact absurd (empty.symm.trans held) (by simp)

theorem exclusive_beforeProcesses (ordered : cfg.Ordered) :
    (beforeProcesses cfg).holdings.Exclusive where
  used := by
    intro slot pfn held
    obtain ⟨vpn, inside, -, named⟩ := holds_beforeProcesses held
    obtain ⟨rfl, below⟩ := bootMemory_frame ordered inside named
    have frames := ordered.frames
    simp only [kstackStartPage, maxPtLen] at inside frames
    refine ⟨Nat.lt_of_lt_of_le (by omega) frames, ?_⟩
    simp [beforeProcesses, bootMemory, below]
  once := by
    intro x y pfn heldX heldY
    obtain ⟨vpn, inside, rfl, named⟩ := holds_beforeProcesses heldX
    obtain ⟨vpn', inside', rfl, named'⟩ := holds_beforeProcesses heldY
    rw [← (bootMemory_frame ordered inside named).1, ← (bootMemory_frame ordered inside' named').1]

theorem accounted_beforeProcesses :
    Accounted (fun pfn => pfn < cfg.origKernelBrkPage) (beforeProcesses cfg).holdings := by
  intro pfn used
  left
  by_contra above
  apply used.2
  simp [beforeProcesses, bootMemory, above]

/-- A kernel stack takes as many frames as it has pages. -/
theorem initKernelStackPages_left {n i : Nat} {m m' : Memory} {pt pages : PageTable}
    (h : initKernelStackPages n i m pt = .ok (m', pages)) :
    m'.freeFrames.card + n = m.freeFrames.card := by
  induction n generalizing i m pt with
  | zero =>
      cases h
      rfl
  | succ n inductionHypothesis =>
      unfold initKernelStackPages at h
      rcases allocated : m.allocFrame .kernel with _ | ⟨pfn, m₁⟩
      · simp only [allocated] at h
        cases h
      · simp only [allocated] at h
        obtain ⟨free, rfl⟩ := allocFrame_eq_some allocated
        have left := card_freeFrames_takeFrame (by decide : FrameUsage.kernel ≠ .free) free
        have rest := inductionHypothesis h
        omega

/-- The idle process's kernel stack takes the frames that the machine came up on. -/
theorem initKernelStackIdlePages_changes {entries : List Nat} {m m' : Memory}
    {pt pages : PageTable} {tables : TableId → PageTable} {table : TableId}
    (other : table ≠ .region0) (nodup : entries.Nodup) (inside : ∀ i ∈ entries, i < table.limit)
    (free : ∀ i ∈ entries, kstackStartPage + i ∈ m.freeFrames)
    (vacant : ∀ i ∈ entries, (pt i).valid = false)
    (h : initKernelStackIdlePages entries m pt = .ok (m', pages)) :
    Changes lossy sharing (m.holdings (Function.update tables table pt))
        (m'.holdings (Function.update tables table pages)) ∧
      m'.freeFrames.card + entries.length = m.freeFrames.card := by
  induction entries generalizing m pt with
  | nil =>
      cases h
      exact ⟨.refl _, rfl⟩
  | cons i rest inductionHypothesis =>
      obtain ⟨fresh, nodup⟩ := List.nodup_cons.mp nodup
      have apart : ∀ j ∈ rest, j ≠ i := by
        rintro j member rfl
        exact fresh member
      have here := free i List.mem_cons_self
      simp only [initKernelStackIdlePages, allocSpecificFrame_free here, bind_eq_ok] at h
      obtain ⟨⟨result, m₁⟩, taken, h⟩ := h
      obtain ⟨-, rfl⟩ := Prod.mk.inj (Except.ok.inj taken)
      simp only at h
      have change : Changes lossy sharing (m.holdings (Function.update tables table pt)) _ :=
        .single (take_change protReadWrite other (inside i List.mem_cons_self) here
          (by decide : FrameUsage.kernel ≠ .free) (Or.inl (vacant i List.mem_cons_self)))
      have freeRest : ∀ j ∈ rest,
          kstackStartPage + j ∈ (m.takeFrame (kstackStartPage + i) .kernel).freeFrames := by
        intro j member
        have ne := apart j member
        rw [freeFrames_takeFrame (by decide), Finset.mem_erase]
        exact ⟨by omega, free j (List.mem_cons_of_mem _ member)⟩
      have vacantRest : ∀ j ∈ rest, (Function.update pt i
          ⟨true, protReadWrite, kstackStartPage + i⟩ j).valid = false := by
        intro j member
        rw [Function.update_of_ne (apart j member)]
        exact vacant j (List.mem_cons_of_mem _ member)
      obtain ⟨changes, left⟩ := inductionHypothesis nodup
        (fun j member => inside j (List.mem_cons_of_mem _ member)) freeRest vacantRest h
      have one := card_freeFrames_takeFrame (by decide : FrameUsage.kernel ≠ .free) here
      refine ⟨change.trans changes, ?_⟩
      rw [List.length_cons]
      omega

/-- The idle process takes three frames. -/
theorem createIdlePCB_moves (ordered : cfg.Ordered) {idle : PcbPtr}
    (h : (beforeProcesses cfg).createIdlePCB env cfg = .ok (idle, s)) :
    SpaceMoves lossy sharing (beforeProcesses cfg) s ∧
      s.mem.freeFrames.card + 3 = cfg.nframes - cfg.origKernelBrkPage := by
  have imageBelow := ordered.imageBelow
  have frames := ordered.frames
  simp only [kstackStartPage, maxPtLen] at imageBelow frames
  simp only [createIdlePCB, bind_eq_ok] at h
  obtain ⟨⟨slot, t⟩, found, h⟩ := h
  rcases slot with _ | p
  · cases h
  · have created : SpaceMoves lossy sharing (beforeProcesses cfg) t := .getFreePCB rfl found
    obtain ⟨-, -, new⟩ := getFreePCB_sched found
    have memory : t.mem = bootMemory cfg := by
      rcases getFreePCB_eq_ok found with ⟨none, -⟩ | ⟨i, -, -, rfl⟩
      · cases none
      · rfl
    have lowest : cfg.origKernelBrkPage ∈ t.mem.freeFrames := by
      rw [memory, mem_bootMemory_freeFrames]
      omega
    obtain ⟨ustack, below, free, -, allocated⟩ := allocFrame_lowest .user lowest
    simp only [allocated, storedPfn, bind_eq_ok] at h
    obtain ⟨u, mapped, h⟩ := h
    obtain ⟨b, live, rfl⟩ := modifyPcb_eq_ok.mp mapped
    rw [setMem_heap] at live
    have blank : b.ptbr = PageTable.none ∧ b.kstack = none := by
      rw [new, Option.some.injEq] at live
      rw [← live]
      exact ⟨rfl, rfl⟩
    have oneLess := card_freeFrames_takeFrame (by decide : FrameUsage.user ≠ .free) free
    obtain ⟨c, written⟩ : ∃ c : PCB, c = { b with
      ptbr := Function.update b.ptbr (maxPtLen - 1) ⟨true, protReadWrite, ustack⟩ } := ⟨_, rfl⟩
    obtain ⟨u, state⟩ : ∃ u : Kernel,
        u = (t.setMem (t.mem.takeFrame ustack .user)).setPcb p c := ⟨_, rfl⟩
    rw [← written, ← state] at h
    have noStack : c.kstack = none := by
      rw [written]
      exact blank.2
    have uLive : u.heap p = some c := by
      rw [state]
      exact Function.update_self ..
    have uMem : u.mem = t.mem.takeFrame ustack .user := by
      rw [state]
      rfl
    have paged : SpaceMoves lossy sharing t u := by
      rw [state, written]
      refine .retable live rfl (.single ?_) id id
      exact take_change protReadWrite (by simp) (by decide : maxPtLen - 1 < maxPtLen) free
        (by decide : FrameUsage.user ≠ .free) (Or.inl (by rw [blank.1]; rfl))
    have spare : ∀ i ∈ List.range kstackPages, kstackStartPage + i ∈ u.mem.freeFrames := by
      intro i member
      have page := List.mem_range.mp member
      simp only [kstackPages] at page
      rw [uMem, freeFrames_takeFrame (by decide), Finset.mem_erase, memory,
        mem_bootMemory_freeFrames]
      simp only [kstackStartPage]
      omega
    split at h
    · cases h
    · simp only [bind_eq_ok, pure_eq_ok] at h
      obtain ⟨⟨m, kstack⟩, filled, v, prepared, same⟩ := h
      obtain ⟨rfl, rfl⟩ := Prod.mk.inj same
      obtain ⟨d, live', rfl⟩ := modifyPcb_eq_ok.mp prepared
      obtain rfl : c = d := Option.some.inj (uLive.symm.trans live')
      have region0 := (initKernelStackIdlePages_eq_ok filled).1
      have taken : Changes lossy sharing
            (u.mem.holdings (Function.update u.tables (.kernelStack p) PageTable.none))
            (m.holdings (Function.update u.tables (.kernelStack p) kstack)) ∧
          m.freeFrames.card + (List.range kstackPages).length = u.mem.freeFrames.card :=
        initKernelStackIdlePages_changes (by simp) List.nodup_range
          (fun i member => List.mem_range.mp member) spare (fun _ _ => rfl) filled
      have asked : SpaceMoves lossy sharing u (malloc env u).2 := .of_same rfl rfl rfl rfl
      constructor
      · refine ((created.trans paged).trans asked).trans
          (.restack uLive noStack rfl rfl taken.1 (fun start => (region0.stack start).1) ?_)
        intro start
        rw [ScratchFree, region0.table]
        exact start
      · have left := taken.2
        rw [uMem] at left
        rw [memory, card_bootMemory_freeFrames] at oneLess
        rw [List.length_range] at left
        simp only [setPcb_mem, setMem_mem, kstackPages] at left ⊢
        rw [memory] at left
        omega

/-- Init gets a kernel stack of two frames. -/
theorem initStack_moves {t u v : Kernel} {p : PcbPtr} {b : PCB} {kstack : Option PageTable}
    (live : t.heap p = some b) (noStack : b.kstack = none)
    (stacked : t.initializeKernelStackProcess env = .ok (kstack, u))
    (prepared : u.modifyPcb p (fun c => { c with kstack := kstack, userContext := u.ctx }) =
      .ok v) :
    SpaceMoves lossy sharing t v ∧ t.mem.freeFrames.card ≤ v.mem.freeFrames.card + 2 ∧
      ∃ d, v.heap p = some d ∧ d.ptbr = b.ptbr ∧ d.ptlr = b.ptlr := by
  obtain ⟨c, found, rfl⟩ := modifyPcb_eq_ok.mp prepared
  rcases initializeKernelStackProcess_eq_ok stacked with ⟨rfl, rfl⟩ | ⟨m, pages, filled, rfl, rfl⟩
  · obtain rfl := Option.some.inj (live.symm.trans found)
    have asked : SpaceMoves lossy sharing t { t with mallocCalls := t.mallocCalls + 1 } :=
      .of_same rfl rfl rfl rfl
    exact ⟨asked.trans (.setPcb live rfl noStack.symm), Nat.le_add_right _ _, _,
      Function.update_self .., rfl, rfl⟩
  · obtain rfl := Option.some.inj (live.symm.trans found)
    have left := initKernelStackPages_left filled
    have region0 := Region0Kept.initKernelStackPages filled
    have asked : SpaceMoves lossy sharing t (malloc env t).2 := .of_same rfl rfl rfl rfl
    have taken : Changes lossy sharing
        (t.mem.holdings (Function.update t.tables (.kernelStack p) PageTable.none))
        (m.holdings (Function.update t.tables (.kernelStack p) pages)) :=
      initKernelStackPages_changes (by simp) (Nat.le_of_eq (Nat.zero_add _))
        (fun _ _ => Or.inl rfl) filled
    refine ⟨asked.trans (.restack live noStack rfl rfl taken
      (fun start => (region0.stack start).1) ?_), Nat.le_of_eq left.symm, _,
      Function.update_self .., rfl, rfl⟩
    intro start
    rw [ScratchFree, region0.table]
    exact start

theorem freeFrames_subset_reclaimable {m : Memory} {pt : PageTable} :
    m.freeFrames ⊆ m.reclaimable pt := by
  intro pfn free
  obtain ⟨inRange, unused⟩ := mem_freeFrames.mp free
  exact Finset.mem_filter.mpr ⟨Finset.mem_range.mpr inRange, Or.inl unused⟩

/-- Loading the first program takes the frames of init's kernel stack and of the program. -/
theorem createInitPCB_moves {init : PcbPtr} (fresh : s.heap s.nextPcb = none)
    (enough : (∀ li, cfg.init.info = some li →
      programPages li cfg.args + 2 ≤ s.mem.freeFrames.card) ∨ sharing)
    (once : cfg.Once ∨ lossy) (h : s.createInitPCB env cfg = .ok (init, s')) :
    SpaceMoves lossy sharing s s' := by
  simp only [createInitPCB, bind_eq_ok] at h
  obtain ⟨⟨slot, t⟩, found, h⟩ := h
  rcases slot with _ | p
  · cases h
  · have created : SpaceMoves lossy sharing s t := .getFreePCB fresh found
    obtain ⟨-, -, new⟩ := getFreePCB_sched found
    have memory : t.mem = s.mem := by
      rcases getFreePCB_eq_ok found with ⟨none, -⟩ | ⟨i, -, -, rfl⟩
      · cases none
      · rfl
    simp only [bind_eq_ok] at h
    obtain ⟨⟨kstack, u⟩, stacked, v, prepared, ⟨status, w⟩, loaded, h⟩ := h
    obtain ⟨given, left, d, live, -, length⟩ :
        SpaceMoves lossy sharing t v ∧ t.mem.freeFrames.card ≤ v.mem.freeFrames.card + 2 ∧
          ∃ d, v.heap p = some d ∧ d.ptbr = PageTable.none ∧ d.ptlr = maxPtLen :=
      initStack_moves new rfl stacked prepared
    have switched : SpaceMoves lossy sharing v { v with ptbr1 := p } := .of_same rfl rfl rfl rfl
    have image : SpaceMoves lossy sharing { v with ptbr1 := p } w := by
      refine .loadProgram ?_ loaded
      intro b found
      obtain rfl := Option.some.inj (found.symm.trans live)
      constructor
      · refine enough.imp_left fun enough => ?_
        rintro ⟨li, args, plan, information, ⟨⟩, -, -, short⟩
        have some := enough li information
        have kept := Finset.card_le_card
          (@freeFrames_subset_reclaimable v.mem b.ptbr)
        rw [memory] at left
        have short' : (v.mem.reclaimable b.ptbr).card < programPages li cfg.args := short
        omega
      · rintro li args plan information ⟨⟩ accepted
        rw [length] at accepted
        exact once.imp_left fun once => once li plan information accepted
    have result : s' = w := by
      by_cases failed : status ≠ .success
      · rw [if_pos failed] at h
        cases h
      · rw [if_neg failed] at h
        exact (Prod.mk.inj (pure_eq_ok.mp h)).2.symm
    rw [result]
    exact ((created.trans given).trans switched).trans image

/-- From the machine without processes to the end of `KernelStart`. -/
theorem boot_moves (ordered : cfg.Ordered)
    (scratch : (bootMemory cfg).ScratchFree ∨ lossy) (enough : cfg.Enough ∨ sharing)
    (once : cfg.Once ∨ lossy) (started : kernelStart env cfg = .ok boot) :
    SpaceMoves lossy sharing (beforeProcesses cfg) boot := by
  simp only [kernelStart, bind_eq_ok] at started
  obtain ⟨⟨idle, a⟩, idleMade, b, restored, ⟨init, c⟩, initMade, d, copied, restored'⟩ := started
  obtain ⟨idleMoves, left⟩ :
      SpaceMoves lossy sharing (beforeProcesses cfg) a ∧
        a.mem.freeFrames.card + 3 = cfg.nframes - cfg.origKernelBrkPage :=
    createIdlePCB_moves ordered idleMade
  obtain ⟨idleIs, view⟩ := createIdlePCB_sched idleMade
  have toIdle : SpaceMoves lossy sharing a b := by
    obtain ⟨e, -, rfl⟩ := restoreContext_eq_ok.mp restored
    refine ⟨.of_eq (congrArg a.mem.holdings (tables_congr rfl)), fun start => start, ?_,
      fun start => start, fun start => start⟩
    intro start known
    have next : a.nextPcb = 1 := congrArg Sched.nextPcb view
    rw [next]
    exact Nat.lt_of_le_of_lt (Nat.le_of_eq idleIs) Nat.zero_lt_one
  have before := idleMoves.trans toIdle
  have memory : b.mem = a.mem := by
    obtain ⟨e, -, rfl⟩ := restoreContext_eq_ok.mp restored
    rfl
  have absent : ∀ p, b.nextPcb ≤ p → b.heap p = none := before.fresh fun _ _ => rfl
  have initMoves : SpaceMoves lossy sharing b c := by
    refine createInitPCB_moves (absent _ le_rfl) ?_ once initMade
    refine enough.imp_left fun enough li information => ?_
    have some := enough li information
    rw [memory]
    omega
  obtain ⟨initIs, view', -⟩ := createInitPCB_sched initMade
  have current : b.currentProcess = 0 ∧ b.nextPcb = 1 := by
    obtain ⟨e, -, rfl⟩ := restoreContext_eq_ok.mp restored
    exact ⟨idleIs, congrArg Sched.nextPcb view⟩
  have current' : c.currentProcess = 0 :=
    (congrArg Sched.current view').trans current.1
  have switched : SpaceMoves lossy sharing c { c with ptbr1 := idle } := .of_same rfl rfl rfl rfl
  have queued : SpaceMoves lossy sharing { c with ptbr1 := idle }
      (({ c with ptbr1 := idle } : Kernel).queueEnqueue env .ready init) :=
    .queueEnqueue env .ready init
  have upToInit := ((before.trans initMoves).trans switched).trans queued
  have stacked : SpaceMoves lossy sharing
      (({ c with ptbr1 := idle } : Kernel).queueEnqueue env .ready init) d := by
    refine .kcCopy ?_ (upToInit.scratch scratch) copied
    rw [queueEnqueue_currentProcess, initIs, current.2]
    simp only [current']
    decide
  have toUser : SpaceMoves lossy sharing d boot := by
    obtain ⟨e, -, rfl⟩ := restoreContext_eq_ok.mp restored'
    exact .of_same rfl rfl rfl rfl
  exact (upToInit.trans stacked).trans toUser

/-- The processes, their current one and the kernel heap after boot. -/
theorem boot_ready (ordered : cfg.Ordered) (started : kernelStart env cfg = .ok boot) :
    boot.SpaceReady := by
  have moved : SpaceMoves True True (beforeProcesses cfg) boot :=
    boot_moves ordered (Or.inr trivial) (Or.inr trivial) (Or.inr trivial) started
  obtain ⟨ready, view⟩ := kernelStart_sched started
  have current : boot.currentProcess = 0 := congrArg Sched.current view
  have next : boot.nextPcb = 2 := congrArg Sched.nextPcb view
  constructor
  case fresh => exact moved.fresh fun _ _ => rfl
  case current =>
    rw [current, next]
    exact Nat.zero_lt_two
  case heapBelow => exact moved.heapBelow (Nat.le_of_lt ordered.imageBelow)

/-! ### Runs -/

/-- The operations that take, give back or hand on frames, each by itself, and the whole machine. -/
inductive SpaceOp where
  | kcSwitch (kc : KernelContext) (curr next : PcbPtr)
  | fork
  | exit (code : Int) (origin : ExitOrigin)
  | wait (statusPtr : Word)
  /-- `Wait` after the caller has been woken. -/
  | waitResumed (statusPtr : Word)
  | growStack (addr : Word)
  | brk (addr : Word)
  | setKernelBrk (addr : Word)
  | loadProgram (req : LoadRequest) (argv : ArgVector) (proc : PcbPtr)
  | input (i : Input)

namespace SpaceOp

/-- What an operation does, whatever it returns. -/
def run (env : Env) (s : Kernel) : SpaceOp → Except Stop Kernel
  | .kcSwitch kc curr next => s.kcSwitch kc curr next
  | .fork => do return (← s.fork env).2
  | .exit code origin => s.exit env code origin
  | .wait statusPtr => do return (← s.wait statusPtr).2
  | .waitResumed statusPtr => do return (← s.waitResumed statusPtr).2
  | .growStack addr => do return (← s.growStack addr).2
  | .brk addr => do return (← s.brk env addr).2
  | .setKernelBrk addr => .ok (s.setMem (s.mem.setKernelBrk addr).2)
  | .loadProgram req argv proc => do return (← s.loadProgram env req argv proc).2
  | .input i => s.deliver env i

/-- The operations as steps. -/
def Step (env : Env) (s : Kernel) (op : SpaceOp) (t : Kernel) : Prop := op.run env s = .ok t

/-- The program that a call of `LoadProgram` loads, with which arguments, and into which process. -/
def Loads (s : Kernel) (req : LoadRequest) (argv : ArgVector) (p : PcbPtr) : SpaceOp → Prop
  | .loadProgram req' argv' proc => req' = req ∧ argv' = argv ∧ proc = p
  | .input (.kernelTrap ctx req') => ctx.code = yalnixExec ∧ req' = req ∧
      argv = .user (ctx.regs 1) ∧ p = s.currentProcess
  | _ => False

/-- The stack of the current process grows to this address. -/
def Grows (s : Kernel) (addr : Word) : SpaceOp → Prop
  | .growStack addr' => addr' = addr
  | .input (.memoryTrap ctx) => ctx.addr = addr ∧
      ∃ c, s.heap s.currentProcess = some c ∧ memoryTrapAction c ctx = .grow
  | _ => False

/-- A child is reaped. -/
def Reaps (s : Kernel) : SpaceOp → Prop
  | .wait _ => s.queues (.children s.currentProcess) ≠ [] ∧ ∃ z, s.ScanFinds z
  | .waitResumed _ => ∃ z, s.ScanFinds z
  | .input i => ∃ z, s.Reaps z i
  | _ => False

/-- The kernel heap moves. -/
def MovesHeap : SpaceOp → Prop
  | .setKernelBrk _ | .input (.kernelBrk _) => True
  | _ => False

/-- What an operation may do with frames: lose some only if `lossy`, share some only if
`sharing`. -/
structure Allowed (lossy sharing : Prop) (env : Env) (s : Kernel) (op : SpaceOp) : Prop where
  reaps : op.Reaps s → lossy
  loads : ∀ req argv p, op.Loads s req argv p → s.LoadAllowed lossy sharing env req argv p
  grows : ∀ addr, op.Grows s addr → s.GrowthAllowed lossy addr
  heap : op.MovesHeap → lossy

variable {op : SpaceOp}

theorem moves (ready : s.SpaceReady) (scratch : s.mem.ScratchFree ∨ lossy)
    (allowed : op.Allowed lossy sharing env s) (h : op.run env s = .ok s') :
    SpaceMoves lossy sharing s s' := by
  cases op with
  | kcSwitch kc curr next => exact .kcSwitch h
  | fork =>
      simp only [run, bind_eq_ok, pure_eq_ok] at h
      obtain ⟨⟨status, t⟩, forked, rfl⟩ := h
      exact .fork (Nat.ne_of_lt ready.current) (ready.fresh _ le_rfl) scratch forked
  | exit code origin => exact .exit h
  | wait statusPtr =>
      simp only [run, bind_eq_ok, pure_eq_ok] at h
      obtain ⟨result, waited, rfl⟩ := h
      exact .wait (fun children finds => allowed.reaps ⟨children, finds⟩) waited
  | waitResumed statusPtr =>
      simp only [run, bind_eq_ok, pure_eq_ok] at h
      obtain ⟨result, resumed, rfl⟩ := h
      exact .waitResumed allowed.reaps resumed
  | growStack addr =>
      simp only [run, bind_eq_ok, pure_eq_ok] at h
      obtain ⟨⟨status, t⟩, grown, rfl⟩ := h
      exact .growStack (allowed.grows addr rfl) grown
  | brk addr =>
      simp only [run, bind_eq_ok, pure_eq_ok] at h
      obtain ⟨⟨status, t⟩, moved, rfl⟩ := h
      exact .brk moved
  | setKernelBrk addr =>
      have step : s.deliver env (.kernelBrk addr) = .ok s' := h
      refine .deliver ready scratch ?_ step
      constructor
      case reaps => exact fun z impossible => impossible.elim
      case loads => exact fun ctx req other => by cases other
      case grows => exact fun ctx c other => by cases other
      case heap => exact fun _ _ => allowed.heap trivial
  | loadProgram req argv proc =>
      simp only [run, bind_eq_ok, pure_eq_ok] at h
      obtain ⟨⟨status, t⟩, loaded, rfl⟩ := h
      exact .loadProgram (allowed.loads req argv proc ⟨rfl, rfl, rfl⟩) loaded
  | input i =>
      refine .deliver ready scratch ?_ h
      constructor
      case reaps => exact fun z reaps => allowed.reaps ⟨z, reaps⟩
      case loads =>
        rintro ctx req rfl code
        exact allowed.loads req _ _ ⟨code, rfl, rfl, rfl⟩
      case grows =>
        rintro ctx c rfl live grows
        exact allowed.grows ctx.addr ⟨rfl, c, live, grows⟩
      case heap =>
        rintro addr rfl
        exact allowed.heap trivial

/-- Every run of allowed operations. -/
theorem run_moves (ready : boot.SpaceReady) (scratch : boot.mem.ScratchFree ∨ lossy)
    (run : Reaches (Guarded (Step env) fun s op => op.Allowed lossy sharing env s) boot s) :
    SpaceMoves lossy sharing boot s := by
  refine run.invariant (P := fun s => SpaceMoves lossy sharing boot s) ?_ (.refl boot)
  rintro s op t moved ⟨allowed, step⟩
  have ran : op.run env s = .ok t := step
  exact moved.trans (op.moves (moved.ready ready) (moved.scratch scratch) allowed ran)

/-- The machine's own runs, with any use of frames. -/
theorem of_inputs {guard : Kernel → Input → Prop}
    (run : Reaches (Guarded (Kernel.Step env) guard) boot s) :
    Reaches (Guarded (Step env) fun s op => op.Allowed True True env s) boot s := by
  refine run.relabel ?_
  rintro s i t ⟨-, -, delivered⟩
  refine ⟨.input i, ?_, delivered⟩
  constructor
  case reaps => exact fun _ => trivial
  case loads => exact fun _ _ _ _ _ _ => ⟨Or.inr trivial, fun _ _ _ _ _ _ => Or.inr trivial⟩
  case grows => exact fun _ _ _ _ _ _ _ => Or.inr trivial
  case heap => exact fun _ => trivial

end SpaceOp

/-! ### Every entry has a frame of its own -/

/-- The valid entry at this place names the frame. -/
def Kernel.Names (s : Kernel) (pfn : Nat) : Slot → Prop
  | (.region0, vpn) => vpn < kstackStartPage ∧ (s.mem.ptRegion0 vpn).frame = some pfn
  | (.kernelStack p, i) => i < kstackPages ∧ ∃ b pages, s.heap p = some b ∧
      b.kstack = some pages ∧ (pages i).frame = some pfn
  | (.region1 p, vpn) => vpn < maxPtLen ∧ ∃ b, s.heap p = some b ∧
      (b.ptbr vpn).frame = some pfn

theorem holds_of_names {slot : Slot} {pfn : Nat} (named : s.Names pfn slot) :
    s.holdings.holds slot = some pfn := by
  obtain ⟨table, vpn⟩ := slot
  cases table with
  | region0 => exact (if_pos named.1).trans named.2
  | kernelStack p =>
      obtain ⟨inside, b, pages, live, stack, entry⟩ := named
      rw [Kernel.holdings, holds_table (by simp)]
      refine (if_pos inside).trans ?_
      simpa [tables, live, stack] using entry
  | region1 p =>
      obtain ⟨inside, b, live, entry⟩ := named
      rw [Kernel.holdings, holds_table (by simp)]
      refine (if_pos inside).trans ?_
      simpa [tables, live] using entry

theorem names_of_holds {slot : Slot} {pfn : Nat} (held : s.holdings.holds slot = some pfn) :
    s.Names pfn slot := by
  obtain ⟨table, vpn⟩ := slot
  have blank : (PageTable.none vpn).frame = none := Pte.frame_of_invalid rfl
  cases table with
  | region0 =>
      rw [Kernel.holdings, holds_region0] at held
      by_cases inside : vpn < kstackStartPage
      · exact ⟨inside, (if_pos inside).symm.trans held⟩
      · rw [if_neg inside] at held
        cases held
  | kernelStack p =>
      rw [Kernel.holdings, holds_table (by simp)] at held
      by_cases inside : vpn < kstackPages
      · have entry : (s.tables (.kernelStack p) vpn).frame = some pfn :=
          (if_pos inside).symm.trans held
        rcases live : s.heap p with _ | b
        · simp [tables, live, blank] at entry
        · rcases stack : b.kstack with _ | pages
          · simp [tables, live, stack, blank] at entry
          · exact ⟨inside, b, pages, live, stack, by simpa [tables, live, stack] using entry⟩
      · cases (if_neg inside).symm.trans held
  | region1 p =>
      rw [Kernel.holdings, holds_table (by simp)] at held
      by_cases inside : vpn < maxPtLen
      · have entry : (s.tables (.region1 p) vpn).frame = some pfn :=
          (if_pos inside).symm.trans held
        rcases live : s.heap p with _ | b
        · simp [tables, live, blank] at entry
        · exact ⟨inside, b, live, by simpa [tables, live] using entry⟩
      · cases (if_neg inside).symm.trans held

/-- Every valid entry of region 0 below the kernel stack, of a kernel stack and of a region 1 table
names a frame that exists and is in use, and no two of them name the same frame. -/
structure Isolated (s : Kernel) : Prop where
  inUse : ∀ slot pfn, s.Names pfn slot → pfn < s.mem.nframes ∧ s.mem.frameTable pfn ≠ .free
  apart : ∀ x y pfn, s.Names pfn x → s.Names pfn y → x = y

/-- Every program that is loaded finds frames for its pages. -/
def SpaceOp.FramesSuffice (env : Env) (s : Kernel) (op : SpaceOp) : Prop :=
  ∀ req argv p b, op.Loads s req argv p → s.heap p = some b → ¬ RunsShort env s b req argv

/-- Processes do not share memory, whatever calls they make and wherever these fail, as long as
`LoadProgram` does not run out of frames. -/
theorem memory_isolated (ordered : cfg.Ordered) (enough : cfg.Enough)
    (started : kernelStart env cfg = .ok boot)
    (run : Reaches (Guarded (SpaceOp.Step env) (SpaceOp.FramesSuffice env)) boot s) :
    Isolated s := by
  have booted : SpaceMoves True False (beforeProcesses cfg) boot :=
    boot_moves ordered (Or.inr trivial) (Or.inl enough) (Or.inr trivial) started
  have allowed : Reaches (Guarded (SpaceOp.Step env) fun s op => op.Allowed True False env s)
      boot s := by
    refine run.mono ?_
    rintro s op t ⟨suffice, step⟩
    refine ⟨?_, step⟩
    constructor
    case reaps => exact fun _ => trivial
    case loads =>
      intro req argv p loads b live
      exact ⟨Or.inl (suffice req argv p b loads live), fun _ _ _ _ _ _ => Or.inr trivial⟩
    case grows => exact fun _ _ _ _ _ _ _ => Or.inr trivial
    case heap => exact fun _ => trivial
  have moved : SpaceMoves True False boot s :=
    SpaceOp.run_moves (boot_ready ordered started) (Or.inr trivial) allowed
  have exclusive : s.holdings.Exclusive :=
    (exclusive_beforeProcesses ordered).changes (booted.trans moved).changes
  constructor
  case inUse => exact fun slot pfn named => exclusive.used slot pfn (holds_of_names named)
  case apart =>
    exact fun x y pfn namedX namedY =>
      exclusive.once x y pfn (holds_of_names namedX) (holds_of_names namedY)

/-- Init forks, grows its heap and its stack, the kernel heap grows, and the child exits. -/
theorem memory_isolated_sample : ∃ s : Kernel, s.queues .zombie = [2] ∧ Isolated s := by
  have answer : (do
      let boot ← kernelStart sampleEnv sampleBoot
      let s ← SpaceOp.run sampleEnv boot (.kcSwitch .clockTrap 0 1)
      let s ← SpaceOp.run sampleEnv s .fork
      let s ← SpaceOp.run sampleEnv s (.brk 0x106000)
      let s ← SpaceOp.run sampleEnv s (.growStack 0x1f8000)
      let s ← SpaceOp.run sampleEnv s (.setKernelBrk 0x20000)
      let s ← SpaceOp.run sampleEnv s (.kcSwitch .clockTrap 1 2)
      let s ← SpaceOp.run sampleEnv s (.exit 7 .syscall)
      return decide (s.queues .zombie = [2]) : Except Stop Bool) = .ok true := by
    decide +kernel
  simp only [bind_eq_ok, pure_eq_ok, decide_eq_true_iff] at answer
  obtain ⟨boot, started, s₁, first, s₂, forked, s₃, heap, s₄, stack, s₅, kernelHeap, s₆, second,
    s₇, exited, zombies⟩ := answer
  have enough : sampleBoot.Enough := by
    rintro li ⟨⟩
    decide
  have run : Reaches (Guarded (SpaceOp.Step sampleEnv) (SpaceOp.FramesSuffice sampleEnv))
      boot s₇ := by
    refine (((((((Reaches.refl boot).tail ⟨?_, first⟩).tail ⟨?_, forked⟩).tail ⟨?_, heap⟩).tail
      ⟨?_, stack⟩).tail ⟨?_, kernelHeap⟩).tail ⟨?_, second⟩).tail ⟨?_, exited⟩
    -- none of these operations loads a program
    all_goals exact fun _ _ _ _ loads => False.elim loads
  exact ⟨s₇, zombies, memory_isolated ⟨by decide, by decide, by decide⟩ enough started run⟩

/-! ### No frame is forgotten -/

/-- Every frame in use belongs to the kernel image, or a valid entry names it: of region 0 below the
kernel stack, or of a table of a process that has not been deleted. -/
def FramesConserved (cfg : BootConfig) (s : Kernel) : Prop :=
  ∀ pfn < s.mem.nframes, s.mem.frameTable pfn ≠ .free →
    pfn < cfg.origKernelBrkPage ∨ ∃ slot, s.Names pfn slot

/-- No child is reaped, no program that is loaded has a page in two segments, no stack grows over a
page that is mapped, and the kernel heap does not move. -/
structure SpaceOp.KeepsFrames (s : Kernel) (op : SpaceOp) : Prop where
  reaps : ¬ op.Reaps s
  loads : ∀ req argv p b li args plan, op.Loads s req argv p → s.heap p = some b →
    req.info = some li → s.argStrings argv = .ok args → loadPlan li args b.ptlr = some plan →
      plan.indices.Nodup
  grows : ∀ addr c vpn, op.Grows s addr → s.heap s.currentProcess = some c →
    pageOf (downToPage addr) ≤ vpn → vpn < pageOf (downToPage addr) +
      min (c.stackPage - pageOf (downToPage addr)) s.mem.freeFrames.card →
    (c.ptbr vpn).valid = false
  heap : ¬ op.MovesHeap

/-- Operations that do none of these. -/
theorem SpaceOp.KeepsFrames.of_quiet {op : SpaceOp} (reaps : op.Reaps s → False)
    (loads : ∀ req argv p, op.Loads s req argv p → False) (grows : ∀ addr, op.Grows s addr → False)
    (heap : op.MovesHeap → False) : op.KeepsFrames s :=
  ⟨reaps, fun req argv p _ _ _ _ loaded => (loads req argv p loaded).elim,
    fun addr _ _ grown => (grows addr grown).elim, heap⟩

/-- Frames get lost only where a child is reaped, or where a page is mapped that is mapped. -/
theorem frames_conserved (ordered : cfg.Ordered)
    (below : cfg.origKernelBrkPage ≤ scratchVpnSrc) (once : cfg.Once)
    (started : kernelStart env cfg = .ok boot)
    (run : Reaches (Guarded (SpaceOp.Step env) SpaceOp.KeepsFrames) boot s) :
    FramesConserved cfg s := by
  have scratch := bootMemory_scratch ordered below
  have booted : SpaceMoves False True (beforeProcesses cfg) boot :=
    boot_moves ordered (Or.inl scratch) (Or.inr trivial) (Or.inl once) started
  have allowed : Reaches (Guarded (SpaceOp.Step env) fun s op => op.Allowed False True env s)
      boot s := by
    refine run.mono ?_
    rintro s op t ⟨keeps, step⟩
    refine ⟨?_, step⟩
    constructor
    case reaps => exact keeps.reaps
    case loads =>
      intro req argv p loads b live
      exact ⟨Or.inr trivial, fun li args plan information strings accepted =>
        Or.inl (keeps.loads req argv p b li args plan loads live information strings accepted)⟩
    case grows =>
      intro addr grows c vpn live above inside
      exact Or.inl (keeps.grows addr c vpn grows live above inside)
    case heap => exact keeps.heap
  have moved : SpaceMoves False True boot s :=
    SpaceOp.run_moves (boot_ready ordered started) (booted.scratch (Or.inl scratch)) allowed
  have accounted := accounted_beforeProcesses.changes (booted.trans moved).changes
  intro pfn inRange used
  rcases accounted pfn ⟨inRange, used⟩ with image | ⟨slot, held⟩
  · exact Or.inl image
  · exact Or.inr ⟨slot, names_of_holds held⟩

theorem sampleBoot_once : sampleBoot.Once := by
  intro li plan information accepted
  have checked : (loadPlan li sampleBoot.args maxPtLen).all
      (fun plan => decide plan.indices.Nodup) = true := by
    obtain rfl := Option.some.inj information
    decide +kernel
  rw [accepted] at checked
  exact of_decide_eq_true checked

/-- Init forks, and its child exits. -/
theorem frames_conserved_sample : ∃ s : Kernel, s.queues .zombie = [2] ∧
    FramesConserved sampleBoot s := by
  have answer : (do
      let boot ← kernelStart sampleEnv sampleBoot
      let s ← SpaceOp.run sampleEnv boot (.kcSwitch .clockTrap 0 1)
      let s ← SpaceOp.run sampleEnv s .fork
      let s ← SpaceOp.run sampleEnv s (.kcSwitch .clockTrap 1 2)
      let s ← SpaceOp.run sampleEnv s (.exit 7 .syscall)
      return decide (s.queues .zombie = [2]) : Except Stop Bool) = .ok true := by
    decide +kernel
  simp only [bind_eq_ok, pure_eq_ok, decide_eq_true_iff] at answer
  obtain ⟨boot, started, s₁, first, s₂, forked, s₃, second, s₄, exited, zombies⟩ := answer
  have run : Reaches (Guarded (SpaceOp.Step sampleEnv) SpaceOp.KeepsFrames) boot s₄ := by
    refine ((((Reaches.refl boot).tail ⟨?_, first⟩).tail ⟨?_, forked⟩).tail ⟨?_, second⟩).tail
      ⟨?_, exited⟩
    all_goals exact .of_quiet id (fun _ _ _ => id) (fun _ => id) id
  exact ⟨s₄, zombies, frames_conserved ⟨by decide, by decide, by decide⟩ (by decide)
    sampleBoot_once started run⟩

/-- Init forks, its child exits, and `Wait` reaps it: no table names the child's frames any more,
and none of them is free. -/
theorem frames_forgotten : ¬ ∀ env cfg boot s, BootConfig.Ordered cfg →
    cfg.origKernelBrkPage ≤ scratchVpnSrc → cfg.Once → kernelStart env cfg = .ok boot →
    Reaches (Guarded (Kernel.Step env)
      fun _ i => i.among [yalnixFork, yalnixExec, yalnixExit, yalnixWait] = true) boot s →
    FramesConserved cfg s := by
  intro conserved
  have answer : runs sampleEnv sampleBoot
      (fun _ i => i.among [yalnixFork, yalnixExec, yalnixExit, yalnixWait])
      [.tick, .resume, .call yalnixFork 0 0 0, .tick, .resume, .call yalnixExit 7 0 0, .resume,
        .call yalnixWait 0 0 0]
      (fun s => decide (16 < s.mem.nframes ∧ s.mem.frameTable 16 ≠ .free ∧ s.nextPcb = 3) &&
        decide ((∀ vpn < kstackStartPage, s.holdings.holds (.region0, vpn) ≠ some 16) ∧
          (∀ p : Nat, p < 3 → ∀ i < kstackPages, s.holdings.holds (.kernelStack p, i) ≠ some 16) ∧
          ∀ p : Nat, p < 3 → ∀ vpn < maxPtLen, s.holdings.holds (.region1 p, vpn) ≠ some 16)) =
        .ok true := by
    decide +kernel
  obtain ⟨boot, s, started, run, all⟩ := runs_sound _ (fun _ _ => id) answer
  obtain ⟨known, unnamed⟩ := Bool.and_eq_true_iff.mp all
  obtain ⟨inRange, used, next⟩ := of_decide_eq_true known
  obtain ⟨inRegion0, inStacks, inTables⟩ := of_decide_eq_true unnamed
  have ordered : sampleBoot.Ordered := ⟨by decide, by decide, by decide⟩
  have ready := boot_ready ordered started
  have absent : ∀ p, 3 ≤ p → s.heap p = none := by
    rw [← next]
    exact (SpaceOp.run_moves ready (Or.inr trivial) (SpaceOp.of_inputs run)).fresh ready.fresh
  rcases conserved _ _ boot s ordered (by decide) sampleBoot_once started run 16 inRange used with
    image | ⟨⟨table, vpn⟩, named⟩
  · exact absurd image (by decide)
  · have held := holds_of_names named
    cases table with
    | region0 => exact inRegion0 vpn named.1 held
    | kernelStack p =>
        obtain ⟨inside, b, pages, live, -⟩ := named
        by_cases known : p < 3
        · exact inStacks p known vpn inside held
        · rw [absent p (Nat.le_of_not_lt known)] at live
          cases live
    | region1 p =>
        obtain ⟨inside, b, live, -⟩ := named
        by_cases known : p < 3
        · exact inTables p known vpn inside held
        · rw [absent p (Nat.le_of_not_lt known)] at live
          cases live

end Yalnix
