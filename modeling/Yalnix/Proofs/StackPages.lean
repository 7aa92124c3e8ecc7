/-
Module: Yalnix.Proofs.StackPages
Purpose: Every kernel stack has all its pages, and in every reachable state the frame table marks the
  frames that processes use.
Trusted boundary: none
Main exports: Kernel.StacksWhole, stacksWhole_reaches, framesInUse_of_isolated, framesInUse_reaches
-/
import Yalnix.Proofs.ForkMemory
import Yalnix.Proofs.PrivateMemory

namespace Yalnix.Kernel

open Memory Transition

variable {env : Env} {cfg : BootConfig} {boot s s' t : Kernel} {p q : PcbPtr} {b b' : PCB}

/-- All pages of a kernel stack are mapped. -/
def StackWhole (kstack : Option PageTable) : Prop :=
  ∀ pages, kstack = some pages → ∀ i < kstackPages, (pages i).valid = true

/-- The kernel stacks of all processes have their pages. -/
def StacksWhole (s : Kernel) : Prop := ∀ p b, s.heap p = some b → StackWhole b.kstack

/-- The step leaves the kernel stacks whole. -/
def KeepsWhole (s s' : Kernel) : Prop := s.StacksWhole → s'.StacksWhole

theorem stackWhole_none : StackWhole none := fun _ absent => by cases absent

theorem stackWhole_allotted {m m' : Memory} {pages : PageTable}
    (h : initKernelStackPages kstackPages 0 m (fun _ => Pte.zero) = .ok (m', pages)) :
    StackWhole (some pages) := by
  rintro _ ⟨⟩ i inside
  exact ((initKernelStackPages_allots h).taken i (Nat.zero_le _) (by omega)).1

namespace KeepsWhole

theorem of_heap (heap : s'.heap = s.heap) : KeepsWhole s s' := by
  intro whole p b live
  rw [heap] at live
  exact whole p b live

/-- A PCB is written, whose kernel stack is whole. -/
theorem update (heap : s'.heap = Function.update s.heap q (some b'))
    (stack : s.StacksWhole → StackWhole b'.kstack) : KeepsWhole s s' := by
  intro whole p b live
  rw [heap] at live
  by_cases here : p = q
  · rw [here, Function.update_self] at live
    cases live
    exact stack whole
  · rw [Function.update_of_ne here] at live
    exact whole p b live

theorem setPcb (live : s.heap q = some b) (stack : b'.kstack = b.kstack) :
    KeepsWhole s (s.setPcb q b') :=
  update rfl fun whole => stack ▸ whole q b live

theorem modifyPcb {f : PCB → PCB} (h : s.modifyPcb q f = .ok s')
    (same : ∀ b, (f b).kstack = b.kstack) : KeepsWhole s s' := by
  obtain ⟨b, live, rfl⟩ := modifyPcb_eq_ok.mp h
  exact setPcb live (same b)

theorem kcSwitch {kc : KernelContext} {curr next : PcbPtr} (h : s.kcSwitch kc curr next = .ok s') :
    KeepsWhole s s' := by
  obtain ⟨c, n, kstack, live, found, -, rfl⟩ := kcSwitch_eq_ok h
  have saved : KeepsWhole s (s.setPcb curr { c with kernelContext := kc }) := setPcb live rfl
  intro whole
  exact update rfl (fun whole => whole next n found) (saved whole)

/-- The elementary changes. -/
theorem rule : StepRule (fun _ => True) KeepsWhole where
  trans first second := second ∘ first
  same heap _ _ _ := of_heap heap
  setPcb live _ stack := setPcb live stack
  kcSwitch := kcSwitch
  storeUser _ h := by
    obtain ⟨b, m, -, -, rfl⟩ := storeUser_eq_ok.mp h
    exact of_heap rfl

/-! ### The operations on frames -/

theorem getFreePCB {slot : Option PcbPtr} (h : s.getFreePCB env = .ok (slot, s')) :
    KeepsWhole s s' := by
  rcases getFreePCB_eq_ok h with ⟨-, rfl⟩ | ⟨i, -, -, rfl⟩
  · exact of_heap rfl
  · exact update rfl fun _ => stackWhole_none

theorem initializeKernelStackProcess {kstack : Option PageTable}
    (h : s.initializeKernelStackProcess env = .ok (kstack, s')) :
    StackWhole kstack ∧ s'.heap = s.heap := by
  rcases initializeKernelStackProcess_eq_ok h with ⟨rfl, rfl⟩ | ⟨m, pages, filled, rfl, rfl⟩
  · exact ⟨stackWhole_none, rfl⟩
  · exact ⟨stackWhole_allotted filled, rfl⟩

theorem kcCopy {kc : KernelContext} {new : PcbPtr} (h : s.kcCopy env kc new = .ok s') :
    KeepsWhole s s' := by
  simp only [Kernel.kcCopy, bind_eq_ok] at h
  obtain ⟨t, saved, n, -, h⟩ := h
  have first : KeepsWhole s t := rule.modifyPcb saved fun _ => ⟨rfl, rfl⟩
  rcases stack : n.kstack with _ | pages
  · simp only [stack, bind_eq_ok, pure_eq_ok] at h
    obtain ⟨⟨kstack, u⟩, made, v, written, _, rfl, c, -, h⟩ := h
    obtain ⟨whole, heap⟩ := initializeKernelStackProcess made
    obtain ⟨b, -, rfl⟩ := modifyPcb_eq_ok.mp written
    have second : KeepsWhole u (u.setPcb new { b with kstack := kstack }) :=
      update rfl fun _ => whole
    split at h
    · cases h
      exact rule.trans (rule.trans first (of_heap heap)) (rule.trans second (of_heap rfl))
    · cases h
  · simp only [stack, bind_eq_ok, pure_eq_ok] at h
    obtain ⟨_, rfl, c, -, h⟩ := h
    split at h
    · cases h
      exact rule.trans first (of_heap rfl)
    · cases h

theorem fork {status : Status} (h : s.fork env = .ok (status, s')) : KeepsWhole s s' := by
  simp only [Kernel.fork, bind_eq_ok] at h
  obtain ⟨⟨slot, t⟩, found, h⟩ := h
  have created : KeepsWhole s t := getFreePCB found
  rcases slot with _ | child
  · cases h
    exact created
  · simp only [bind_eq_ok] at h
    obtain ⟨parent, -, u, written, ⟨status', v⟩, copied, h⟩ := h
    have prepared : KeepsWhole t u := rule.modifyPcb written fun _ => ⟨rfl, rfl⟩
    have copying : KeepsWhole u v := by
      obtain ⟨src, dst, m, pt, -, live, -, rfl⟩ := copyPT_eq_ok copied
      exact setPcb (s := u.setMem m) live rfl
    have before := rule.trans (rule.trans created prepared) copying
    by_cases failed : status' = .error
    · rw [if_pos failed] at h
      cases h
      exact before
    · rw [if_neg failed] at h
      simp only [bind_eq_ok, pure_eq_ok] at h
      obtain ⟨w, stacked, x, returned, h⟩ := h
      cases h
      exact rule.trans (rule.trans before (kcCopy stacked)) (rule.forkReturn returned)

theorem brk {addr : Word} {status : Status} (h : s.brk env addr = .ok (status, s')) :
    KeepsWhole s s' := by
  rcases brk_eq_ok h with ⟨-, rfl⟩ | ⟨-, c, m, pt, live, ⟨-, rfl⟩ | ⟨-, rfl⟩⟩
  · exact rule.refl s'
  · exact setPcb (s := s.setMem m) live rfl
  · exact setPcb (s := s.setMem m) live rfl

theorem growStack {addr : Word} {status : Status} (h : s.growStack addr = .ok (status, s')) :
    KeepsWhole s s' := by
  obtain ⟨c, m, pt, live, -, ⟨-, rfl⟩ | ⟨-, rfl⟩⟩ := growStack_eq_ok h
  · exact setPcb (s := s.setMem m) live rfl
  · exact setPcb (s := s.setMem m) live rfl

theorem loadProgram {req : LoadRequest} {argv : ArgVector} {status : Status}
    (h : s.loadProgram env req argv p = .ok (status, s')) : KeepsWhole s s' := by
  obtain ⟨b, live, ⟨-, rfl, -⟩ | ⟨_, _, _, -, -, -, ⟨-, -, rfl⟩ | ⟨-, m, b', image, rfl⟩⟩⟩ :=
    loadProgram_eq_ok h
  · exact rule.refl s'
  · exact setPcb (s := (s.malloc env).2) live rfl
  · obtain ⟨pt, context, heapStart, heapEnd, stackBase, rfl⟩ := loadImage_pcb image
    exact setPcb (s := (s.malloc env).2.setMem m) live rfl

theorem exec {req : LoadRequest} {argv : Word} {rc : Int}
    (h : s.exec env req argv = .ok (rc, s')) : KeepsWhole s s' := by
  simp only [Kernel.exec, bind_eq_ok] at h
  obtain ⟨⟨status, t⟩, loaded, h⟩ := h
  have kept : KeepsWhole s t := loadProgram loaded
  by_cases failed : status = .error
  · rw [if_pos failed] at h
    cases h
    exact kept
  · rw [if_neg failed] at h
    cases h
    exact kept

theorem deletePCB (h : s.deletePCB q = .ok s') : KeepsWhole s s' := by
  simp only [Kernel.deletePCB, bind_eq_ok, pure_eq_ok] at h
  obtain ⟨-, -, t, orphaned, rfl⟩ := h
  have first : KeepsWhole s t := rule.orphanChildren orphaned
  intro whole p b live
  by_cases here : p = q
  · subst here
    simp at live
  · exact first whole p b (by simpa [here] using live)

/-- Every step. -/
theorem step {i : Input} (h : s.deliver env i = .ok s') : KeepsWhole s s' := by
  have steps : FrameSteps KeepsWhole env s i := by
    constructor
    case fork => exact fun _ _ _ _ _ _ _ forked => fork forked
    case brk => exact fun _ _ _ _ _ _ _ _ moved => brk moved
    case exec => exact fun _ _ _ _ _ _ _ _ loaded => exec loaded
    case grow => exact fun _ _ _ _ _ _ _ grown => growStack grown
    case reap => exact fun _ _ _ _ deleted => deletePCB deleted
    case heap => exact fun _ _ => of_heap rfl
  exact rule.deliver trivial steps h

end KeepsWhole

/-! ### Boot -/

/-- The idle process's kernel stack is made of the frames that the machine came up on. -/
theorem initKernelStackIdlePages_valid {entries : List Nat} {m m' : Memory}
    {pt pages : PageTable} (h : initKernelStackIdlePages entries m pt = .ok (m', pages)) {i : Nat}
    (filled : i ∈ entries ∨ (pt i).valid = true) : (pages i).valid = true := by
  induction entries generalizing m pt with
  | nil =>
      cases h
      exact filled.resolve_left List.not_mem_nil
  | cons j rest inductionHypothesis =>
      simp only [initKernelStackIdlePages, bind_eq_ok] at h
      obtain ⟨⟨_, m₁⟩, -, h⟩ := h
      apply inductionHypothesis h
      by_cases here : i = j
      · right
        rw [here, Function.update_self]
      · rw [Function.update_of_ne here]
        rcases filled with member | valid
        · exact Or.inl ((List.mem_cons.mp member).resolve_left here)
        · exact Or.inr valid

namespace KeepsWhole

theorem createIdlePCB {idle : PcbPtr} (h : s.createIdlePCB env cfg = .ok (idle, s')) :
    KeepsWhole s s' := by
  simp only [Kernel.createIdlePCB, bind_eq_ok] at h
  obtain ⟨⟨slot, t⟩, found, h⟩ := h
  have created : KeepsWhole s t := getFreePCB found
  rcases slot with _ | p
  · cases h
  · simp only [bind_eq_ok] at h
    obtain ⟨u, mapped, h⟩ := h
    have allocated := modifyPcb mapped fun _ => rfl
    have mapping : KeepsWhole t u := by
      split at allocated
      · exact rule.trans (of_heap rfl) allocated
      · exact allocated
    split_ifs at h with failed
    simp only [bind_eq_ok, pure_eq_ok] at h
    obtain ⟨⟨m, pages⟩, filled, v, written, h⟩ := h
    cases h
    have stack : StackWhole (some pages) := by
      rintro _ ⟨⟩ i inside
      exact initKernelStackIdlePages_valid filled (Or.inl (List.mem_range.mpr inside))
    obtain ⟨b, -, rfl⟩ := modifyPcb_eq_ok.mp written
    exact rule.trans (rule.trans created mapping) (update rfl fun _ => stack)

theorem createInitPCB {init : PcbPtr} (h : s.createInitPCB env cfg = .ok (init, s')) :
    KeepsWhole s s' := by
  simp only [Kernel.createInitPCB, bind_eq_ok] at h
  obtain ⟨⟨slot, t⟩, found, h⟩ := h
  have created : KeepsWhole s t := getFreePCB found
  rcases slot with _ | p
  · cases h
  · simp only [bind_eq_ok] at h
    obtain ⟨⟨kstack, u⟩, made, v, written, ⟨status, w⟩, loaded, h⟩ := h
    obtain ⟨whole, heap⟩ := initializeKernelStackProcess made
    have stacked : KeepsWhole u v := by
      obtain ⟨b, -, rfl⟩ := modifyPcb_eq_ok.mp written
      exact update rfl fun _ => whole
    have switched : KeepsWhole v { v with ptbr1 := p } := of_heap rfl
    have before := rule.trans (rule.trans (rule.trans created (of_heap heap)) stacked) switched
    have image : KeepsWhole { v with ptbr1 := p } w := loadProgram loaded
    split_ifs at h with failed
    cases h
    exact rule.trans before image

end KeepsWhole

/-- The kernel stacks that `KernelStart` makes are whole. -/
theorem stacksWhole_boot (started : kernelStart env cfg = .ok boot) : boot.StacksWhole := by
  simp only [kernelStart, bind_eq_ok] at started
  obtain ⟨⟨idle, s⟩, idleMade, t, restored, ⟨init, u⟩, initMade, v, copied, returned⟩ := started
  have idleWhole : s.StacksWhole := KeepsWhole.createIdlePCB idleMade fun p b absent => by
    cases absent
  have running : KeepsWhole s
      { s with idleProc := idle, currentProcess := idle, ptbr1 := idle } := .of_heap rfl
  have initWhole : u.StacksWhole := KeepsWhole.createInitPCB initMade
    (KeepsWhole.rule.restoreContext restored (running idleWhole))
  have switched : KeepsWhole u { u with ptbr1 := idle } := .of_heap rfl
  have queued := KeepsWhole.rule.queueEnqueue { u with ptbr1 := idle } env .ready init
  exact KeepsWhole.rule.restoreContext returned
    (KeepsWhole.kcCopy copied (queued (switched initWhole)))

/-! ### Reachable states -/

theorem stacksWhole_reaches {guard : Kernel → Input → Prop}
    (started : kernelStart env cfg = .ok boot) (run : Reaches (Guarded (Step env) guard) boot s) :
    s.StacksWhole := by
  refine run.invariant ?_ (stacksWhole_boot started)
  rintro s i s' whole ⟨-, step⟩
  exact KeepsWhole.step step.2 whole

theorem Settled.isolated (settled : s.Settled) : Isolated s where
  inUse slot pfn named := settled.exclusive.used slot pfn (holds_of_names named)
  apart x y pfn namedX namedY :=
    settled.exclusive.once x y pfn (holds_of_names namedX) (holds_of_names namedY)

/-- What processes use is marked, for every frame that an entry names is. -/
theorem framesInUse_of_isolated (isolated : Isolated s) (whole : s.StacksWhole) : s.FramesInUse where
  pages p b live vpn inside valid free := by
    have named : s.Names (b.ptbr vpn).pfn (.region1 p, vpn) :=
      ⟨inside, b, live, Pte.frame_of_valid valid⟩
    exact (isolated.inUse _ _ named).2 (mem_freeFrames.mp free).2
  kernelStacks p b kstack live stack i inside free := by
    have named : s.Names (kstack i).pfn (.kernelStack p, i) :=
      ⟨inside, b, kstack, live, stack, Pte.frame_of_valid (whole p b live kstack stack i inside)⟩
    exact (isolated.inUse _ _ named).2 (mem_freeFrames.mp free).2

/-- The frame table marks what the processes use, in every state of every run in which programs
that are loaded find frames for their pages. -/
theorem framesInUse_reaches (valid : ∀ k, env.helperNewPid k ≠ Status.error.code)
    (ordered : cfg.Ordered) (enough : cfg.Enough) (started : kernelStart env cfg = .ok boot)
    (run : Reaches (Guarded (Step env) (LoadFits env)) boot s) : s.FramesInUse :=
  framesInUse_of_isolated (settled_reaches valid ordered enough started run).isolated
    (stacksWhole_reaches started run)

end Yalnix.Kernel
