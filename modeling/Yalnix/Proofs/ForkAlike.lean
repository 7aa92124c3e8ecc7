/-
Module: Yalnix.Proofs.ForkAlike
Purpose: How a forked child takes memory faults and Brk calls, next to its parent in the same
  situation: Fork copies the parent's pages but neither its heap end nor its stack base.
Trusted boundary: none
Main exports: Kernel.StillForked, ReactAlike, reactAlike_iff, fork_alike_iff
-/
import Yalnix.Proofs.ForkMemory
import Yalnix.Proofs.StackGrowth

namespace Yalnix

open Kernel Memory

variable {env : Env} {s s' t : Kernel} {ctx : UserContext} {m : Memory} {b c c' p : PCB}
  {parent child : PcbPtr} {pages : Finset Nat}

/-! ### Reactions -/

/-- The same machine with `p` as the running process. -/
def Kernel.asCurrent (s : Kernel) (p : PcbPtr) : Kernel := { s with currentProcess := p }

/-- The handler grows the stack of the running process over `pages`, on frames that were free. -/
def GrowsOver (env : Env) (s : Kernel) (ctx : UserContext) (pages : Finset Nat) : Prop :=
  ∃ m c c', s.heap s.currentProcess = some c ∧ GrowsTo env s ctx m c' ∧
    FreshPages .user pages s.mem c.ptbr m c'.ptbr

/-- The handler does nothing about the fault. -/
def Ignores (env : Env) (s : Kernel) (ctx : UserContext) : Prop :=
  (s.trap ctx).memoryTrapHandler env = .ok (s.trap ctx)

/-- In the same situation two processes react alike: a fault on a page that is not mapped kills both
or grows both stacks over the same pages, any other memory trap does nothing to either, and `Brk`
starts from the same heap end; and the stack of the second never grows over one of its mapped
pages. -/
structure ReactAlike (env : Env) (s : Kernel) (parent child : PcbPtr) : Prop where
  faults : ∀ ctx, ctx.code = yalnixMapErr →
    Kills env (s.asCurrent parent) ctx ∧ Kills env (s.asCurrent child) ctx ∨
      ∃ pages, GrowsOver env (s.asCurrent parent) ctx pages ∧
        GrowsOver env (s.asCurrent child) ctx pages
  others : ∀ ctx, ctx.code ≠ yalnixMapErr →
    Ignores env (s.asCurrent parent) ctx ∧ Ignores env (s.asCurrent child) ctx
  heapEnd : ∀ b c, s.heap parent = some b → s.heap child = some c →
    upToPage c.userHeapEndVaddr = upToPage b.userHeapEndVaddr
  kept : ∀ ctx m c c', s.heap child = some c → GrowsTo env (s.asCurrent child) ctx m c' →
    ∀ vpn < maxPtLen, (c.ptbr vpn).valid = true → c'.ptbr vpn = c.ptbr vpn

/-- The bounds of a process that has not been loaded, with nothing mapped. -/
structure PCB.RegionEmpty (b : PCB) : Prop where
  heapEnd : upToPage b.userHeapEndVaddr = BitVec.ofNat 32 vmem1Base
  stackBase : downToPage b.userStackBaseVaddr = BitVec.ofNat 32 vmem1Limit
  unmapped : ∀ vpn < maxPtLen, (b.ptbr vpn).valid = false

/-- A growth with frames for its pages, all of which are in the table. -/
theorem grows_of_enough (live : s.heap s.currentProcess = some c)
    (action : memoryTrapAction c ctx = .grow) (inside : c.stackPage ≤ maxPtLen)
    (enough : c.stackPage ≤ s.mem.freeFrames.card) :
    ∃ m c', GrowsTo env s ctx m c' ∧
      FreshPages .user (Finset.Ico (faultPage ctx.addr) c.stackPage) s.mem c.ptbr m c'.ptbr := by
  by_cases below : faultPage ctx.addr ≤ c.stackPage
  · have range : faultPage ctx.addr + 0 + (c.stackPage - faultPage ctx.addr) = c.stackPage := by
      omega
    have grown := @growStackPages_fresh s.mem c.ptbr
      (c.stackPage - faultPage ctx.addr) (faultPage ctx.addr) 0
    rw [range, Nat.add_zero] at grown
    obtain ⟨m, pt, grew, fresh⟩ := grown inside (by omega)
    exact ⟨m, _, growsTo_of_affordable live action grew, fresh⟩
  · have none : c.stackPage - faultPage ctx.addr = 0 := by omega
    have grew : growStackPages (faultPage ctx.addr) (c.stackPage - faultPage ctx.addr) 0 s.mem
        c.ptbr = .ok (.success, s.mem, c.ptbr) := by
      rw [none]
      rfl
    refine ⟨s.mem, _, growsTo_of_affordable live action grew, ?_⟩
    rw [Finset.Ico_eq_empty (by omega)]
    exact .start .user s.mem c.ptbr

/-- A fault that is let through does not kill a process with frames for its stack. -/
theorem not_kills_of_enough (live : s.heap s.currentProcess = some c)
    (action : memoryTrapAction c ctx = .grow) (enough : c.stackPage ≤ s.mem.freeFrames.card) :
    ¬ Kills env s ctx := by
  rintro ⟨d, live', ⟨killed, -⟩ | ⟨-, u, failed, -⟩⟩
  · obtain rfl := Option.some.inj (live.symm.trans live')
    rw [killed] at action
    cases action
  · obtain ⟨d', m, pt, found, grew, -⟩ := growStack_eq_ok failed
    obtain rfl : d' = c := Option.some.inj (found.symm.trans live)
    rcases growStackPages_status grew with ⟨success, -⟩ | ⟨-, scarce, -⟩
    · cases success
    · have frames : s.mem.freeFrames.card < d'.stackPage - faultPage ctx.addr := scarce
      omega

theorem action_of_growsOver (live : s.heap s.currentProcess = some c)
    (grows : GrowsOver env s ctx pages) : memoryTrapAction c ctx = .grow := by
  obtain ⟨m, d, c', -, ⟨d', found, action, -⟩, -⟩ := grows
  obtain rfl : d' = c := Option.some.inj (found.symm.trans live)
  exact action

/-- A trap for a page that is mapped changes nothing. -/
theorem ignores_of_mapped (live : s.heap s.currentProcess = some c)
    (other : ctx.code ≠ yalnixMapErr) : Ignores env s ctx := by
  have found : (s.trap ctx).deref (s.trap ctx).currentProcess = .ok c := deref_eq_ok.mpr live
  have action : memoryTrapAction c (s.trap ctx).ctx = .ignore := memoryTrapAction_ignore other
  simp only [Ignores, memoryTrapHandler, found, action, bind, Except.bind, pure, Except.pure]

/-- Two processes with the same rounded bounds take a fault alike. -/
theorem memoryTrapAction_congr
    (heapEnd : upToPage b.userHeapEndVaddr = upToPage c.userHeapEndVaddr)
    (stackBase : downToPage b.userStackBaseVaddr = downToPage c.userStackBaseVaddr) :
    memoryTrapAction b ctx = memoryTrapAction c ctx := by
  simp only [memoryTrapAction, heapEnd, stackBase]

/-- The child of a fork: a fresh process's bounds and the parent's pages, on frames in use. -/
structure ForkedFrom (s : Kernel) (b c : PCB) : Prop where
  heapEnd : c.userHeapEndVaddr = PCB.fresh.userHeapEndVaddr
  stackBase : c.userStackBaseVaddr = PCB.fresh.userStackBaseVaddr
  pages : ∀ vpn < maxPtLen, (c.ptbr vpn).valid = (b.ptbr vpn).valid
  inUse : ∀ vpn < maxPtLen, (c.ptbr vpn).valid = true → (c.ptbr vpn).pfn ∉ s.mem.freeFrames

namespace ForkedFrom

theorem stackPage (forked : ForkedFrom s b c) : c.stackPage = maxPtLen := by
  rw [PCB.stackPage, forked.stackBase]
  decide

/-- The child's stack can grow to any address of region 1 but its first. -/
theorem action_iff (forked : ForkedFrom s b c) : memoryTrapAction c ctx = .grow ↔
    ctx.code = yalnixMapErr ∧ vmem1Base < ctx.addr.toNat ∧ ctx.addr.toNat < vmem1Limit := by
  rw [memoryTrapAction_grow, forked.heapEnd, forked.stackBase]
  exact Iff.rfl

/-- A parent that reacts alike has the child's stack base: otherwise the last address below the
limit of region 1, or the limit itself, grows one stack and kills the other. -/
theorem stackBase_of_alike (forked : ForkedFrom s b c) (liveParent : s.heap parent = some b)
    (liveChild : s.heap child = some c) (enough : max b.stackPage maxPtLen ≤ s.mem.freeFrames.card)
    (alike : ReactAlike env s parent child) :
    downToPage b.userStackBaseVaddr = BitVec.ofNat 32 vmem1Limit := by
  have heapEnd : (upToPage b.userHeapEndVaddr).toNat = vmem1Base := by
    rw [← alike.heapEnd b c liveParent liveChild, forked.heapEnd]
    decide
  have aligned := downToPage_aligned b.userStackBaseVaddr
  have limit : (BitVec.ofNat 32 vmem1Limit).toNat = vmem1Limit := by decide
  apply BitVec.eq_of_toNat_eq
  rw [limit]
  rcases Nat.lt_trichotomy (downToPage b.userStackBaseVaddr).toNat vmem1Limit with
    below | same | above
  · -- the parent's stack starts lower
    have refused : memoryTrapAction b (mapFault 0x1ffffc) ≠ .grow := by
      intro action
      obtain ⟨-, -, high⟩ := memoryTrapAction_grow.mp action
      have addr : (mapFault 0x1ffffc).addr.toNat = 0x1ffffc := by decide
      simp only [vmem1Limit] at below
      omega
    have action : memoryTrapAction c (mapFault 0x1ffffc) = .grow :=
      forked.action_iff.mpr (by decide)
    rcases alike.faults (mapFault 0x1ffffc) rfl with ⟨-, killed⟩ | ⟨pages, grows, -⟩
    · refine absurd killed (not_kills_of_enough liveChild action ?_)
      rw [forked.stackPage]
      exact Nat.le_trans (Nat.le_max_right ..) enough
    · exact absurd (action_of_growsOver liveParent grows) refused
  · exact same
  · -- the parent's stack starts beyond region 1
    have refused : memoryTrapAction c (mapFault 0x200000) ≠ .grow := by
      intro action
      exact absurd (forked.action_iff.mp action).2.2 (by decide)
    have action : memoryTrapAction b (mapFault 0x200000) = .grow := by
      have addr : (mapFault 0x200000).addr.toNat = vmem1Limit := by decide
      refine memoryTrapAction_grow.mpr ⟨rfl, ?_, ?_⟩
      · rw [heapEnd, addr]
        decide
      · rw [addr]
        exact above
    rcases alike.faults (mapFault 0x200000) rfl with ⟨killed, -⟩ | ⟨pages, -, grows⟩
    · exact absurd killed (not_kills_of_enough liveParent action
        (Nat.le_trans (Nat.le_max_left ..) enough))
    · exact absurd (action_of_growsOver liveChild grows) refused

/-- Growing the child's stack to the first page of region 1 takes every page it has. -/
theorem unmapped_of_alike (forked : ForkedFrom s b c) (liveChild : s.heap child = some c)
    (enough : maxPtLen ≤ s.mem.freeFrames.card) (alike : ReactAlike env s parent child) :
    ∀ vpn < maxPtLen, (b.ptbr vpn).valid = false := by
  intro vpn inside
  apply Bool.eq_false_iff.mpr
  intro valid
  rw [← forked.pages vpn inside] at valid
  have action : memoryTrapAction c (mapFault 0x100004) = .grow := forked.action_iff.mpr (by decide)
  have base := forked.stackPage
  obtain ⟨m, c', grows, fresh⟩ : ∃ m c',
      GrowsTo env (s.asCurrent child) (mapFault 0x100004) m c' ∧
        FreshPages .user (Finset.Ico (faultPage 0x100004) c.stackPage) s.mem c.ptbr m c'.ptbr :=
    grows_of_enough liveChild action (Nat.le_of_eq base) (by rw [base]; exact enough)
  have first : faultPage 0x100004 = 0 := by decide
  have member : vpn ∈ Finset.Ico (faultPage 0x100004) c.stackPage := by
    rw [first, base]
    exact Finset.mem_Ico.mpr ⟨Nat.zero_le _, inside⟩
  have free := fresh.wasFree vpn member
  rw [alike.kept _ m c c' liveChild grows vpn inside valid] at free
  exact forked.inUse vpn inside valid free

/-- A child whose parent has an empty region 1 has one as well, and reacts like it. -/
theorem alike_of_empty (forked : ForkedFrom s b c) (liveParent : s.heap parent = some b)
    (liveChild : s.heap child = some c) (enough : maxPtLen ≤ s.mem.freeFrames.card)
    (empty : b.RegionEmpty) : ReactAlike env s parent child := by
  have heapEnd : upToPage b.userHeapEndVaddr = upToPage c.userHeapEndVaddr := by
    rw [empty.heapEnd, forked.heapEnd]
    decide
  have stackBase : downToPage b.userStackBaseVaddr = downToPage c.userStackBaseVaddr := by
    rw [empty.stackBase, forked.stackBase]
    decide
  have base := forked.stackPage
  have base' : b.stackPage = maxPtLen := by
    rw [← base, PCB.stackPage, PCB.stackPage, stackBase]
  constructor
  case faults =>
    intro ctx fault
    have same : memoryTrapAction b ctx = memoryTrapAction c ctx :=
      memoryTrapAction_congr heapEnd stackBase
    by_cases action : memoryTrapAction c ctx = .grow
    · obtain ⟨m, c', grows, fresh⟩ : ∃ m c', GrowsTo env (s.asCurrent child) ctx m c' ∧
          FreshPages .user (Finset.Ico (faultPage ctx.addr) c.stackPage) s.mem c.ptbr m c'.ptbr :=
        grows_of_enough liveChild action (Nat.le_of_eq base) (by rw [base]; exact enough)
      obtain ⟨m', b', grows', fresh'⟩ : ∃ m b', GrowsTo env (s.asCurrent parent) ctx m b' ∧
          FreshPages .user (Finset.Ico (faultPage ctx.addr) b.stackPage) s.mem b.ptbr m b'.ptbr :=
        grows_of_enough liveParent (same.trans action) (Nat.le_of_eq base')
          (by rw [base']; exact enough)
      rw [base] at fresh
      rw [base'] at fresh'
      exact Or.inr ⟨_, ⟨m', b, b', liveParent, grows', fresh'⟩, m, c, c', liveChild, grows, fresh⟩
    · exact Or.inl ⟨kills_of_refused liveParent fault fun grows => action (same.symm.trans grows),
        kills_of_refused liveChild fault action⟩
  case others =>
    intro ctx mapped
    exact ⟨ignores_of_mapped (s := s.asCurrent parent) liveParent mapped,
      ignores_of_mapped (s := s.asCurrent child) liveChild mapped⟩
  case heapEnd =>
    intro b' c' live live'
    obtain rfl := Option.some.inj (live.symm.trans liveParent)
    obtain rfl := Option.some.inj (live'.symm.trans liveChild)
    exact heapEnd.symm
  case kept =>
    intro ctx m c' d live grows vpn inside valid
    obtain rfl := Option.some.inj (live.symm.trans liveChild)
    rw [forked.pages vpn inside, empty.unmapped vpn inside] at valid
    cases valid

/-- A forked child reacts like its parent exactly if the parent has an empty region 1. -/
theorem reactAlike_iff (forked : ForkedFrom s b c) (liveParent : s.heap parent = some b)
    (liveChild : s.heap child = some c)
    (enough : max b.stackPage maxPtLen ≤ s.mem.freeFrames.card) :
    ReactAlike env s parent child ↔ b.RegionEmpty := by
  have forChild : maxPtLen ≤ s.mem.freeFrames.card := Nat.le_trans (Nat.le_max_right ..) enough
  constructor
  · intro alike
    constructor
    case heapEnd =>
      rw [← alike.heapEnd b c liveParent liveChild, forked.heapEnd]
      decide
    case stackBase => exact forked.stackBase_of_alike liveParent liveChild enough alike
    case unmapped => exact forked.unmapped_of_alike liveChild forChild alike
  · exact forked.alike_of_empty liveParent liveChild forChild

end ForkedFrom

/-! ### Fork -/

/-- After the `Fork` that led from `s` to `s'`, parent and child have not touched their region 1,
and the frames of the child's pages are still in use. -/
structure Kernel.StillForked (s s' t : Kernel) : Prop where
  parent : RegionKept s.currentProcess s' t
  child : RegionKept s.nextPcb s' t
  inUse : ∀ c, s'.heap s.nextPcb = some c → ∀ vpn < maxPtLen, (c.ptbr vpn).valid = true →
    (c.ptbr vpn).pfn ∉ t.mem.freeFrames

/-- What `CopyPT` reports as copied is mapped. -/
theorem copyPTEntries_mapped {src dst dst' : PageTable} {entries : List Nat} {m m' : Memory}
    {i : Nat}
    (h : copyPTEntries src entries m dst = (.success, m', dst'))
    (mapped : (i ∈ entries ∧ (src i).valid = true) ∨ (dst i).valid = true) :
    (dst' i).valid = true := by
  induction entries generalizing m dst with
  | nil =>
      cases h
      exact mapped.resolve_left fun visited => absurd visited.1 List.not_mem_nil
  | cons vpn rest inductionHypothesis =>
      unfold copyPTEntries at h
      by_cases valid : (src vpn).valid = true
      · rw [if_pos valid] at h
        rcases allocated : m.allocFrame .user with _ | ⟨pfn, m₁⟩
        · simp only [allocated] at h
          cases h
        · simp only [allocated] at h
          apply inductionHypothesis h
          by_cases here : i = vpn
          · right
            rw [here, Function.update_self]
          · rw [Function.update_of_ne here]
            refine mapped.imp_left fun visited => ?_
            exact ⟨List.mem_of_ne_of_mem here visited.1, visited.2⟩
      · rw [if_neg valid] at h
        apply inductionHypothesis h
        refine mapped.imp_left fun visited => ⟨?_, visited.2⟩
        refine List.mem_of_ne_of_mem (fun here => valid ?_) visited.1
        rw [← here]
        exact visited.2

/-- A frame that `CopyPT` takes is in use afterwards. -/
theorem copyPTEntries_inUse {src dst dst' : PageTable} {entries : List Nat} {m m' : Memory}
    {status : Status} (h : copyPTEntries src entries m dst = (status, m', dst'))
    (invalid : ∀ i, (dst i).valid = true → (dst i).pfn ∉ m.freeFrames) :
    ∀ i, (dst' i).valid = true → (dst' i).pfn ∉ m'.freeFrames := by
  induction entries generalizing m dst with
  | nil =>
      cases h
      exact invalid
  | cons vpn rest inductionHypothesis =>
      unfold copyPTEntries at h
      by_cases valid : (src vpn).valid = true
      · rw [if_pos valid] at h
        rcases allocated : m.allocFrame .user with _ | ⟨pfn, m₁⟩
        · simp only [allocated] at h
          cases h
          exact invalid
        · simp only [allocated] at h
          obtain ⟨free, rfl⟩ := allocFrame_eq_some allocated
          apply inductionHypothesis h
          intro i mapped
          rw [cloneFrame_frames, freeFrames_takeFrame (by decide)]
          by_cases here : i = vpn
          · rw [here, Function.update_self]
            exact Finset.notMem_erase pfn m.freeFrames
          · rw [Function.update_of_ne here] at mapped ⊢
            exact fun left => invalid i mapped (Finset.mem_of_mem_erase left)
      · rw [if_neg valid] at h
        exact inductionHypothesis h invalid

/-- What `Fork` leaves of the two processes. -/
theorem fork_forkedFrom (live : s.heap s.currentProcess = some p)
    (fresh : s.heap s.nextPcb = none) (forked : s.fork env = .ok (.success, s'))
    (still : s.StillForked s' t) : ∃ b c, t.heap s.currentProcess = some b ∧
      t.heap s.nextPcb = some c ∧ b.region1 = p.region1 ∧ ForkedFrom t b c := by
  have other : s.currentProcess ≠ s.nextPcb := by
    intro same
    rw [same, fresh] at live
    cases live
  obtain ⟨i, p', m, pt, m', pages, current, -, parent, copied, -, -, same⟩ :=
    fork_eq_ok other forked
  obtain rfl : p' = p := Option.some.inj (parent.symm.trans live)
  have liveParent : s'.heap s.currentProcess = some { p' with
      userContext := p'.userContext.setReturn (env.helperNewPid s.pidCalls) } := by
    rw [same]
    exact Function.update_self ..
  have liveChild : s'.heap s.nextPcb = some (forkedPcb env s p' pt pages) := by
    rw [same]
    simp [Function.update_of_ne other.symm]
  obtain ⟨b, found, region⟩ := still.parent _ liveParent
  obtain ⟨c, found', region'⟩ := still.child _ liveChild
  refine ⟨b, c, found, found', region, ?_⟩
  simp only [PCB.region1, Prod.mk.injEq] at region region'
  obtain ⟨table, -, heapEnd, stackBase⟩ := region'
  constructor
  case heapEnd => exact heapEnd
  case stackBase => exact stackBase
  case pages =>
    intro vpn inside
    rw [table, region.1]
    by_cases valid : (p'.ptbr vpn).valid = true
    · rw [valid]
      exact copyPTEntries_mapped copied (Or.inl ⟨List.mem_range.mpr inside, valid⟩)
    · have invalid := Bool.not_eq_true _ ▸ valid
      show (pt vpn).valid = (p'.ptbr vpn).valid
      rw [copyPTEntries_untouched copied (Or.inr invalid), invalid]
      rfl
  case inUse =>
    rw [table]
    exact still.inUse _ liveChild

/-- Parent and child react alike after `Fork` exactly if the parent had nothing in region 1: the
child keeps the bounds of a fresh process. -/
theorem fork_alike_iff (live : s.heap s.currentProcess = some p)
    (fresh : s.heap s.nextPcb = none) (forked : s.fork env = .ok (.success, s'))
    (still : s.StillForked s' t) (enough : max p.stackPage maxPtLen ≤ t.mem.freeFrames.card) :
    ReactAlike env t s.currentProcess s.nextPcb ↔ p.RegionEmpty := by
  obtain ⟨b, c, liveParent, liveChild, region, born⟩ := fork_forkedFrom live fresh forked still
  simp only [PCB.region1, Prod.mk.injEq] at region
  obtain ⟨table, -, heapEnd, stackBase⟩ := region
  have samePage : b.stackPage = p.stackPage := by
    rw [PCB.stackPage, PCB.stackPage, stackBase]
  rw [← samePage] at enough
  rw [born.reactAlike_iff liveParent liveChild enough]
  constructor
  · intro empty
    exact ⟨heapEnd ▸ empty.heapEnd, stackBase ▸ empty.stackBase, table ▸ empty.unmapped⟩
  · intro empty
    exact ⟨heapEnd ▸ empty.heapEnd, stackBase ▸ empty.stackBase, table ▸ empty.unmapped⟩

/-- The state in which `Fork` returns is such a state. -/
theorem Kernel.StillForked.start (live : s.heap s.currentProcess = some p)
    (fresh : s.heap s.nextPcb = none) (forked : s.fork env = .ok (.success, s')) :
    s.StillForked s' s' := by
  have other : s.currentProcess ≠ s.nextPcb := by
    intro same
    rw [same, fresh] at live
    cases live
  obtain ⟨i, p', m, pt, m', pages, current, -, parent, copied, allotted, -, same⟩ :=
    fork_eq_ok other forked
  refine ⟨.refl _, .refl _, ?_⟩
  intro c found vpn _ valid left
  have liveChild : s'.heap s.nextPcb = some (forkedPcb env s p' pt pages) := by
    rw [same]
    simp [Function.update_of_ne other.symm]
  obtain rfl := Option.some.inj (found.symm.trans liveChild)
  have stack := initKernelStackPages_allots allotted
  have frames : s'.mem.freeFrames = m'.freeFrames := by
    rw [same]
    simp only [setPcb_mem, log_mem, queueEnqueue_mem, setQueue_mem]
    exact copyKernelStack_frames current pages m'
  rw [frames] at left
  refine copyPTEntries_inUse copied ?_ vpn valid (stack.fewer left)
  intro j mapped
  cases mapped

/-- Init with nothing in region 1. -/
def emptied (b : PCB) : PCB :=
  { b with
    ptbr := PCB.fresh.ptbr
    userHeapEndVaddr := PCB.fresh.userHeapEndVaddr
    userStackBaseVaddr := PCB.fresh.userStackBaseVaddr }

theorem emptied_empty (b : PCB) : (emptied b).RegionEmpty where
  heapEnd := (by decide : upToPage PCB.fresh.userHeapEndVaddr = BitVec.ofNat 32 vmem1Base)
  stackBase := (by decide : downToPage PCB.fresh.userStackBaseVaddr = BitVec.ofNat 32 vmem1Limit)
  unmapped := fun _ _ => rfl

/-- An init without any page reacts like the child it forks. -/
theorem fork_alike_sample : ∃ (s s' : Kernel), s.fork sampleEnv = .ok (.success, s') ∧
    ReactAlike sampleEnv s' s.currentProcess s.nextPcb := by
  have answer : (do
      let boot ← kernelStart sampleEnv sampleBoot
      let t ← run sampleEnv (fun _ _ => true) [.tick, .resume] boot
      let s ← t.modifyPcb t.currentProcess emptied
      let result ← s.fork sampleEnv
      return (s.heap s.nextPcb).isNone && decide (result.1 = .success) &&
        decide (maxPtLen ≤ result.2.mem.freeFrames.card) : Except Stop Bool) = .ok true := by
    decide +kernel
  simp only [bind_eq_ok, pure_eq_ok, Bool.and_eq_true, decide_eq_true_eq, modifyPcb_eq_ok] at answer
  obtain ⟨boot, -, t, -, _, ⟨b, live, rfl⟩, ⟨status, s'⟩, forked, ⟨fresh, success⟩, enough⟩ :=
    answer
  obtain rfl : status = .success := success
  have live' : (t.setPcb t.currentProcess (emptied b)).heap t.currentProcess = some (emptied b) :=
    Function.update_self ..
  have fresh' := Option.isNone_iff_eq_none.mp fresh
  have base : (emptied b).stackPage = maxPtLen :=
    (by decide : PCB.fresh.stackPage = maxPtLen)
  refine ⟨_, s', forked, (fork_alike_iff live' fresh' forked (.start live' fresh' forked) ?_).mpr
    (emptied_empty b)⟩
  rw [base, Nat.max_self]
  exact enough

/-- Init has a heap, the child that it forks starts without one. -/
theorem fork_reacts_differently : ¬ ∀ env (s s' : Kernel) p,
    s.heap s.currentProcess = some p → s.heap s.nextPcb = none →
    s.fork env = .ok (.success, s') → max p.stackPage maxPtLen ≤ s'.mem.freeFrames.card →
    ReactAlike env s' s.currentProcess s.nextPcb := by
  intro alike
  have answer : (do
      let boot ← kernelStart sampleEnv sampleBoot
      let s ← run sampleEnv (fun _ _ => true) [.tick, .resume] boot
      let result ← s.fork sampleEnv
      return (s.heap s.currentProcess).any (fun p => decide (p.stackPage ≤ maxPtLen)) &&
        (s.heap s.nextPcb).isNone && decide (result.1 = .success) &&
        decide (maxPtLen ≤ result.2.mem.freeFrames.card) &&
        (result.2.heap s.currentProcess).any (fun b => decide (b.userHeapEndVaddr = 0x102000)) &&
        (result.2.heap s.nextPcb).any (fun c => decide (c.userHeapEndVaddr = 0x100000)) :
          Except Stop Bool) = .ok true := by
    decide +kernel
  simp only [bind_eq_ok, pure_eq_ok, Bool.and_eq_true, decide_eq_true_eq] at answer
  obtain ⟨boot, -, s, -, ⟨status, s'⟩, forked, ⟨⟨⟨⟨before, fresh⟩, success⟩, enough⟩, parent⟩,
    child⟩ := answer
  obtain rfl : status = .success := success
  obtain ⟨p, live, inside⟩ := (Option.any_eq_true ..).mp before
  obtain ⟨b, liveParent, heapEnd⟩ := (Option.any_eq_true ..).mp parent
  obtain ⟨c, liveChild, heapEnd'⟩ := (Option.any_eq_true ..).mp child
  have room : max p.stackPage maxPtLen ≤ s'.mem.freeFrames.card :=
    Nat.max_le.mpr ⟨Nat.le_trans (of_decide_eq_true inside) enough, enough⟩
  have same := (alike sampleEnv s s' p live (Option.isNone_iff_eq_none.mp fresh) forked
    room).heapEnd b c liveParent liveChild
  rw [of_decide_eq_true heapEnd, of_decide_eq_true heapEnd'] at same
  exact absurd same (by decide)

end Yalnix
