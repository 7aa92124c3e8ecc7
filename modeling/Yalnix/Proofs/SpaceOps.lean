/-
Module: Yalnix.Proofs.SpaceOps
Purpose: What each kernel operation does to the frames that page tables hold: which it takes, gives
  back, or loses.
Trusted boundary: none
Main exports: Kernel.holdings, SpaceMoves, SpaceMoves.fork, SpaceMoves.exit, SpaceMoves.wait,
  SpaceMoves.growStack, SpaceMoves.brk, SpaceMoves.loadProgram
-/
import Yalnix.Proofs.FrameHoldings
import Yalnix.Proofs.HeapStack
import Yalnix.Proofs.KernelStack

namespace Yalnix

open Memory Holdings

/-- A table without valid entries. -/
def PageTable.none : PageTable := fun _ => Pte.zero

namespace Kernel

variable {env : Env} {s s' t u : Kernel} {p q : PcbPtr} {b b' : PCB} {m : Memory} {addr : Word}
  {lossy sharing : Prop} {status : Status}

/-- The tables of the processes that have not been deleted. -/
def tables (s : Kernel) : TableId → PageTable
  | .region0 => PageTable.none
  | .kernelStack p => ((s.heap p).bind PCB.kstack).getD PageTable.none
  | .region1 p => ((s.heap p).map PCB.ptbr).getD PageTable.none

/-- The frames held by region 0 and by these tables. -/
def holdings (s : Kernel) : Holdings Slot Nat := s.mem.holdings s.tables

/-! ### Tables -/

theorem tables_congr (same : s'.heap = s.heap) : s'.tables = s.tables := by
  funext table
  cases table with
  | region0 => rfl
  | kernelStack p => rw [tables, tables, same]
  | region1 p => rw [tables, tables, same]

theorem tables_region1 (live : s.heap p = some b) : s.tables (.region1 p) = b.ptbr := by
  rw [tables, live]
  rfl

theorem tables_self (live : s.heap p = some b) :
    Function.update s.tables (.region1 p) b.ptbr = s.tables := by
  rw [← tables_region1 live, Function.update_eq_self]

/-- Overwriting a PCB whose kernel stack stays changes its region 1 table. -/
theorem tables_setPcb (live : s.heap p = some b) (stack : b'.kstack = b.kstack) :
    (s.setPcb p b').tables = Function.update s.tables (.region1 p) b'.ptbr := by
  funext table
  cases table with
  | region0 => rfl
  | kernelStack q =>
      rw [Function.update_of_ne (by simp)]
      by_cases same : q = p
      · subst same
        simp [tables, live, stack]
      · simp [tables, same]
  | region1 q =>
      by_cases same : q = p
      · subst same
        rw [Function.update_self]
        simp [tables]
      · rw [Function.update_of_ne (by simp [same])]
        simp [tables, same]

/-- Giving a kernel stack to a process. -/
theorem tables_setStack {pages : PageTable} (live : s.heap p = some b)
    (table : b'.ptbr = b.ptbr) (stack : b'.kstack = some pages) :
    (s.setPcb p b').tables = Function.update s.tables (.kernelStack p) pages := by
  funext table'
  cases table' with
  | region0 => rfl
  | kernelStack q =>
      by_cases same : q = p
      · subst same
        rw [Function.update_self]
        simp [tables, stack]
      · rw [Function.update_of_ne (by simp [same])]
        simp [tables, same]
  | region1 q =>
      rw [Function.update_of_ne (by simp)]
      by_cases same : q = p
      · subst same
        simp [tables, live, table]
      · simp [tables, same]

/-- A new PCB holds nothing. -/
theorem tables_fresh (absent : s.heap p = none) (table : b.ptbr = PageTable.none)
    (stack : b.kstack = none) : (s.setPcb p b).tables = s.tables := by
  funext table'
  cases table' with
  | region0 => rfl
  | kernelStack q =>
      by_cases same : q = p
      · subst same
        simp [tables, absent, stack]
      · simp [tables, same]
  | region1 q =>
      by_cases same : q = p
      · subst same
        simp [tables, absent, table]
      · simp [tables, same]

/-! ### Moves -/

/-- Frames are lost, if growing the stack to this address maps a page that is mapped already. -/
def GrowthAllowed (lossy : Prop) (s : Kernel) (addr : Word) : Prop :=
  ∀ c vpn, s.heap s.currentProcess = some c → pageOf (downToPage addr) ≤ vpn →
    vpn < pageOf (downToPage addr) +
      min (c.stackPage - pageOf (downToPage addr)) s.mem.freeFrames.card →
    (c.ptbr vpn).valid = false ∨ lossy

/-- Frames are shared, if the program does not find frames for its pages, and lost, if a page
belongs to two of its segments. -/
def LoadAllowed (lossy sharing : Prop) (env : Env) (s : Kernel) (req : LoadRequest)
    (argv : ArgVector) (p : PcbPtr) : Prop :=
  ∀ b, s.heap p = some b → (¬ RunsShort env s b req argv ∨ sharing) ∧
    ∀ li args plan, req.info = some li → s.argStrings argv = .ok args →
      loadPlan li args b.ptlr = some plan → plan.indices.Nodup ∨ lossy

/-- What happens to the frames from `s` to `s'`, with what the operations need to go on: no PCB
exists beyond the next one, the current process is not beyond it either, the kernel heap stays below
the kernel stack, and the scratch pages are unmapped. -/
structure SpaceMoves (lossy sharing : Prop) (s s' : Kernel) : Prop where
  changes : Changes lossy sharing s.holdings s'.holdings
  fresh : (∀ p, s.nextPcb ≤ p → s.heap p = none) → ∀ p, s'.nextPcb ≤ p → s'.heap p = none
  current : (∀ p, s.nextPcb ≤ p → s.heap p = none) → s.currentProcess < s.nextPcb →
    s'.currentProcess < s'.nextPcb
  heapBelow : s.mem.kernelBrkPage ≤ kstackStartPage → s'.mem.kernelBrkPage ≤ kstackStartPage
  scratch : s.mem.ScratchFree ∨ lossy → s'.mem.ScratchFree ∨ lossy

namespace SpaceMoves

theorem trans (first : SpaceMoves lossy sharing s t) (second : SpaceMoves lossy sharing t u) :
    SpaceMoves lossy sharing s u where
  changes := first.changes.trans second.changes
  fresh start := second.fresh (first.fresh start)
  current start known := second.current (first.fresh start) (first.current start known)
  heapBelow start := second.heapBelow (first.heapBelow start)
  scratch start := second.scratch (first.scratch start)

/-- Nothing that concerns frames changes. -/
theorem of_same (heap : s'.heap = s.heap) (next : s'.nextPcb = s.nextPcb) (mem : s'.mem = s.mem)
    (current : s'.currentProcess = s.currentProcess) : SpaceMoves lossy sharing s s' where
  changes := by
    rw [holdings, holdings, tables_congr heap, mem]
    exact .refl _
  fresh start := by
    rw [heap, next]
    exact start
  current start known := by rwa [current, next]
  heapBelow start := by rwa [mem]
  scratch start := by rwa [mem]

theorem refl (s : Kernel) : SpaceMoves lossy sharing s s := of_same rfl rfl rfl rfl

/-- Writing a PCB that exists creates none. -/
theorem fresh_setPcb (live : s.heap p = some b)
    (heap : s'.heap = Function.update s.heap p (some b')) (next : s'.nextPcb = s.nextPcb)
    (start : ∀ p, s.nextPcb ≤ p → s.heap p = none) :
    ∀ p, s'.nextPcb ≤ p → s'.heap p = none := by
  intro q beyond
  rw [next] at beyond
  have other : q ≠ p := by
    rintro rfl
    rw [start q beyond] at live
    cases live
  rw [heap, Function.update_of_ne other]
  exact start q beyond

/-- Overwriting a PCB by one with the same tables. -/
theorem setPcb (live : s.heap p = some b) (table : b'.ptbr = b.ptbr)
    (stack : b'.kstack = b.kstack) : SpaceMoves lossy sharing s (s.setPcb p b') where
  changes := by
    rw [holdings, holdings, tables_setPcb live stack, table, tables_self live]
    exact .refl _
  fresh := fresh_setPcb live rfl rfl
  current _ known := known
  heapBelow start := start
  scratch start := start

theorem modifyPcb {f : PCB → PCB} (h : s.modifyPcb p f = .ok s')
    (same : ∀ b, (f b).ptbr = b.ptbr ∧ (f b).kstack = b.kstack) :
    SpaceMoves lossy sharing s s' := by
  obtain ⟨b, live, rfl⟩ := modifyPcb_eq_ok.mp h
  exact setPcb live (same b).1 (same b).2

theorem log (s : Kernel) (e : Event) : SpaceMoves lossy sharing s (s.log e) :=
  of_same rfl rfl rfl rfl

theorem queueEnqueue (env : Env) (queue : QueueId) (p : PcbPtr) :
    SpaceMoves lossy sharing s (s.queueEnqueue env queue p) :=
  of_same (queueEnqueue_heap _ _) (by rw [queueEnqueue_eq]) (queueEnqueue_mem _ _)
    (queueEnqueue_currentProcess _ _)

/-- A new region 1 table for a process, with the memory that goes with it. -/
theorem retable (live : s.heap p = some b) (stack : b'.kstack = b.kstack)
    (changes : Changes lossy sharing
      (s.mem.holdings (Function.update s.tables (.region1 p) b.ptbr))
      (m.holdings (Function.update s.tables (.region1 p) b'.ptbr)))
    (heapBelow : s.mem.kernelBrkPage ≤ kstackStartPage → m.kernelBrkPage ≤ kstackStartPage)
    (scratch : s.mem.ScratchFree ∨ lossy → m.ScratchFree ∨ lossy) :
    SpaceMoves lossy sharing s ((s.setMem m).setPcb p b') where
  changes := by
    have after : ((s.setMem m).setPcb p b').tables =
        Function.update s.tables (.region1 p) b'.ptbr :=
      tables_setPcb (s := s.setMem m) live stack
    rw [tables_self live] at changes
    rw [holdings, holdings, after]
    exact changes
  fresh := fresh_setPcb live rfl rfl
  current _ known := known
  heapBelow := heapBelow
  scratch := scratch

/-- A kernel stack for a process that has none, with the memory that goes with it. -/
theorem restack {pages : PageTable} (live : s.heap p = some b) (noStack : b.kstack = none)
    (table : b'.ptbr = b.ptbr) (stack : b'.kstack = some pages)
    (changes : Changes lossy sharing
      (s.mem.holdings (Function.update s.tables (.kernelStack p) PageTable.none))
      (m.holdings (Function.update s.tables (.kernelStack p) pages)))
    (heapBelow : s.mem.kernelBrkPage ≤ kstackStartPage → m.kernelBrkPage ≤ kstackStartPage)
    (scratch : s.mem.ScratchFree ∨ lossy → m.ScratchFree ∨ lossy) :
    SpaceMoves lossy sharing s ((s.setMem m).setPcb p b') where
  changes := by
    have after : ((s.setMem m).setPcb p b').tables =
        Function.update s.tables (.kernelStack p) pages :=
      tables_setStack (s := s.setMem m) live table stack
    have empty : s.tables (.kernelStack p) = PageTable.none := by
      simp [tables, live, noStack]
    have before : Function.update s.tables (.kernelStack p) PageTable.none = s.tables := by
      rw [← empty, Function.update_eq_self]
    rw [before] at changes
    rw [holdings, holdings, after]
    exact changes
  fresh := fresh_setPcb live rfl rfl
  current _ known := known
  heapBelow := heapBelow
  scratch := scratch

/-- A context switch replaces the entries of the kernel stack, which are not counted. -/
theorem kcSwitch {kc : KernelContext} {curr next : PcbPtr}
    (h : s.kcSwitch kc curr next = .ok s') : SpaceMoves lossy sharing s s' := by
  obtain ⟨c, n, kstack, live, live', -, rfl⟩ := kcSwitch_eq_ok h
  have first : SpaceMoves lossy sharing s (s.setPcb curr { c with kernelContext := kc }) :=
    setPcb live rfl rfl
  have second : SpaceMoves lossy sharing (s.setPcb curr { c with kernelContext := kc })
      ((s.setPcb curr { c with kernelContext := kc }).setPcb next { n with state := .running }) :=
    setPcb live' rfl rfl
  refine (first.trans second).trans ⟨?_, fun start => start, fun start _ => ?_, fun start => start,
    ?_⟩
  · have below : ∀ (pt : PageTable) vpn, vpn < kstackStartPage →
        (if kstackStartPage ≤ vpn ∧ vpn < kstackStartPage + kstackPages then
          kstack (vpn - kstackStartPage) else pt vpn) = pt vpn := by
      intro pt vpn inside
      exact if_neg fun window => absurd window.1 (Nat.not_le.mpr inside)
    exact .of_eq (holdings_congr rfl rfl (below _))
  · by_contra beyond
    have absent := start next (Nat.le_of_not_lt beyond)
    rw [setPcb_heap, Function.update_self] at absent
    cases absent
  · rintro (free | lost)
    · exact Or.inl free
    · exact Or.inr lost

theorem dispatch {kc : KernelContext} (h : s.dispatch kc = .ok s') :
    SpaceMoves lossy sharing s s' := by
  rcases dispatch_eq_ok h with ⟨next, rest, -, switched⟩ | ⟨-, switched⟩
  · have popped : SpaceMoves lossy sharing s (s.setQueue .ready rest) := of_same rfl rfl rfl rfl
    exact popped.trans (kcSwitch switched)
  · exact kcSwitch switched

/-- Writing user memory moves no frame. -/
theorem storeUser {va : Word} {bytes : List Byte} (h : s.storeUser va bytes = .ok s') :
    SpaceMoves lossy sharing s s' := by
  obtain ⟨b, m, -, stored, rfl⟩ := storeUser_eq_ok.mp h
  have wrote : WritesOnly s.mem m := .storeRange stored
  obtain ⟨phys, rfl⟩ := wrote
  exact ⟨.of_same (fun _ => Iff.rfl) (fun _ => rfl), fun start => start, fun _ known => known,
    fun start => start, fun start => start⟩

/-! ### Exit and Wait -/

theorem wakeParent {parent : Option PcbPtr} (h : s.wakeParent env parent = .ok s') :
    SpaceMoves lossy sharing s s' := by
  rcases parent with _ | q
  · cases h
    exact refl s
  · simp only [Kernel.wakeParent, bind_eq_ok] at h
    obtain ⟨b, -, h⟩ := h
    split at h
    · simp only [bind_eq_ok, pure_eq_ok] at h
      obtain ⟨t, readied, rfl⟩ := h
      exact (modifyPcb readied fun _ => ⟨rfl, rfl⟩).trans (queueEnqueue env .ready q)
    · cases h
      exact refl s

/-- An exiting process keeps its frames. -/
theorem exit {code : Int} {origin : ExitOrigin} (h : s.exit env code origin = .ok s') :
    SpaceMoves lossy sharing s s' := by
  simp only [Kernel.exit, bind_eq_ok, deref_eq_ok] at h
  obtain ⟨c, -, h⟩ := h
  split at h
  · simp only [bind_eq_ok] at h
    obtain ⟨_, -, h⟩ := h
    cases h
  · simp only [bind_eq_ok] at h
    obtain ⟨t, marked, u, woken, h⟩ := h
    have queued : SpaceMoves lossy sharing s (s.queueEnqueue env .zombie s.currentProcess) :=
      queueEnqueue env .zombie s.currentProcess
    have before := queued.trans (modifyPcb marked fun _ => ⟨rfl, rfl⟩)
    exact ((before.trans (log _ _)).trans (wakeParent woken)).trans (dispatch h)

theorem orphanChildren {children : List PcbPtr} (h : orphanChildren children s = .ok s') :
    SpaceMoves lossy sharing s s' := by
  induction children generalizing s with
  | nil =>
      cases h
      exact refl _
  | cons child rest inductionHypothesis =>
      simp only [Kernel.orphanChildren, bind_eq_ok] at h
      obtain ⟨t, orphaned, h⟩ := h
      exact (modifyPcb orphaned fun _ => ⟨rfl, rfl⟩).trans (inductionHypothesis h)

/-- `deletePCB` loses what the process held. -/
theorem deletePCB (lost : lossy) (h : s.deletePCB p = .ok s') : SpaceMoves lossy sharing s s' := by
  simp only [Kernel.deletePCB, bind_eq_ok, pure_eq_ok] at h
  obtain ⟨-, -, t, orphaned, rfl⟩ := h
  have emptied : SpaceMoves lossy sharing t (t.setQueue (.children p) []) := of_same rfl rfl rfl rfl
  refine ((orphanChildren orphaned).trans emptied).trans ⟨?_, ?_, fun _ known => known,
    fun start => start, fun start => start⟩
  · refine .single (.forget (fun _ => Iff.rfl) ?_)
    rintro ⟨table, vpn⟩
    cases table with
    | region0 => exact Or.inl rfl
    | kernelStack q =>
        by_cases same : q = p
        · subst same
          refine Or.inr ⟨?_, lost⟩
          simp [holdings, holds_table, tables, PageTable.none, Pte.frame, Pte.zero]
        · left
          simp [holdings, holds_table, tables, same]
    | region1 q =>
        by_cases same : q = p
        · subst same
          refine Or.inr ⟨?_, lost⟩
          simp [holdings, holds_table, tables, PageTable.none, Pte.frame, Pte.zero]
        · left
          simp [holdings, holds_table, tables, same]
  · intro start q beyond
    by_cases same : q = p
    · subst same
      exact Function.update_self ..
    · exact (Function.update_of_ne same ..).trans (start q beyond)

/-- A scan of `Wait` loses frames when it reaps. -/
theorem waitScan {statusPtr : Word} {result : Option Int × Kernel}
    (reaps : (∃ z, s.ScanFinds z) → lossy) (h : s.waitScan statusPtr = .ok result) :
    SpaceMoves lossy sharing s result.2 := by
  simp only [Kernel.waitScan, bind_eq_ok, deref_eq_ok] at h
  obtain ⟨c, live, found, scanned, h⟩ := h
  rcases found with _ | z
  · cases h
    exact refl _
  · simp only [bind_eq_ok, pure_eq_ok] at h
    obtain ⟨⟨pid, t⟩, reaped, rfl⟩ := h
    obtain ⟨b, u, -, -, stored, deleted⟩ := reap_eq_ok reaped
    have written : SpaceMoves lossy sharing s u := by
      rcases stored with ⟨-, stored⟩ | ⟨-, rfl⟩
      · exact storeUser stored
      · exact refl _
    have unlinked : SpaceMoves lossy sharing u
        ((u.queueRemove (.children u.currentProcess) z).queueRemove .zombie z) :=
      of_same rfl rfl rfl rfl
    exact (written.trans unlinked).trans (deletePCB (reaps ⟨z, c, live, scanned⟩) deleted)

theorem wait {statusPtr : Word} {result : Option Int × Kernel}
    (reaps : s.queues (.children s.currentProcess) ≠ [] → (∃ z, s.ScanFinds z) → lossy)
    (h : s.wait statusPtr = .ok result) : SpaceMoves lossy sharing s result.2 := by
  simp only [Kernel.wait] at h
  by_cases childless : s.isEmpty (.children s.currentProcess) = true
  · rw [if_pos childless] at h
    cases h
    exact refl _
  · rw [if_neg childless, bind_eq_ok] at h
    obtain ⟨⟨found, t⟩, scanned, h⟩ := h
    have children : s.queues (.children s.currentProcess) ≠ [] := by
      intro empty
      rw [isEmpty, empty] at childless
      exact childless rfl
    have first : SpaceMoves lossy sharing s t := waitScan (reaps children) scanned
    rcases found with _ | pid
    · simp only [bind_eq_ok, pure_eq_ok] at h
      obtain ⟨u, blocked, v, switched, rfl⟩ := h
      exact (first.trans (modifyPcb blocked fun _ => ⟨rfl, rfl⟩)).trans (dispatch switched)
    · cases h
      exact first

theorem waitResumed {statusPtr : Word} {result : Int × Kernel}
    (reaps : (∃ z, s.ScanFinds z) → lossy) (h : s.waitResumed statusPtr = .ok result) :
    SpaceMoves lossy sharing s result.2 := by
  simp only [Kernel.waitResumed, bind_eq_ok] at h
  obtain ⟨⟨found, t⟩, scanned, h⟩ := h
  rcases found with _ | pid
  · cases h
    exact waitScan reaps scanned
  · cases h
    exact waitScan reaps scanned

/-! ### Fork -/

/-- A new process holds nothing. -/
theorem getFreePCB {slot : Option PcbPtr} (absent : s.heap s.nextPcb = none)
    (h : s.getFreePCB env = .ok (slot, s')) : SpaceMoves lossy sharing s s' := by
  rcases getFreePCB_eq_ok h with ⟨-, rfl⟩ | ⟨i, -, -, rfl⟩
  · exact refl s'
  · refine ⟨.of_eq ?_, ?_, fun _ known => Nat.lt_succ_of_lt known, fun start => start,
      fun start => start⟩
    · exact congrArg s.mem.holdings (tables_fresh absent rfl rfl)
    · intro start p beyond
      have other : p ≠ s.nextPcb := Nat.ne_of_gt (Nat.lt_of_succ_le beyond)
      exact (Function.update_of_ne other ..).trans (start p (Nat.le_of_succ_le beyond))

theorem copyPT {src dst : PcbPtr} (scratch : s.mem.ScratchFree ∨ lossy)
    (empty : ∀ b, s.heap dst = some b → ∀ vpn, (b.ptbr vpn).valid = false)
    (h : s.copyPT src dst = .ok (status, s')) : SpaceMoves lossy sharing s s' := by
  obtain ⟨srcPcb, dstPcb, m, pt, -, live, copied, rfl⟩ := copyPT_eq_ok h
  refine retable live rfl ?_ (fun start => (StackEntriesKept.copyPTEntries copied start).1) ?_
  · exact copyPTEntries_changes (by simp) (fun i member => List.mem_range.mp member)
      List.nodup_range (fun i _ => Or.inl (empty dstPcb live i)) scratch copied
  · exact fun start => start.imp_left fun free => copyPTEntries_scratch free copied

/-- `KCCopy` gives a kernel stack to a process that has none. -/
theorem kcCopy {kc : KernelContext} {new : PcbPtr} (other : s.currentProcess ≠ new)
    (scratch : s.mem.ScratchFree ∨ lossy) (h : s.kcCopy env kc new = .ok s') :
    SpaceMoves lossy sharing s s' := by
  have returned := h
  simp only [Kernel.kcCopy, bind_eq_ok, deref_eq_ok] at h
  obtain ⟨t, saved, n, live, h⟩ := h
  obtain ⟨b, found, rfl⟩ := modifyPcb_eq_ok.mp saved
  have stackKept : n.kstack = b.kstack := by
    rw [setPcb_heap, Function.update_self, Option.some.injEq] at live
    rw [← live]
  rcases stack : n.kstack with _ | kstack
  · obtain ⟨m, pages, c, current, filled, -, -, rfl⟩ :=
      kcCopy_eq_ok found (stackKept.symm.trans stack) other returned
    have region0 := Region0Kept.initKernelStackPages filled
    have scratch' : m.ScratchFree ∨ lossy := by
      rw [ScratchFree, region0.table]
      exact scratch
    have taken : Changes lossy sharing
        (s.mem.holdings (Function.update s.tables (.kernelStack new) PageTable.none))
        (m.holdings (Function.update s.tables (.kernelStack new) pages)) :=
      initKernelStackPages_changes (by simp) (Nat.le_of_eq (Nat.zero_add _))
        (fun _ _ => Or.inl rfl) filled
    have unmapped : Changes lossy sharing
        (m.holdings (Function.update s.tables (.kernelStack new) pages))
        ((copyKernelStack current pages m).holdings
          (Function.update s.tables (.kernelStack new) pages)) ∧
        ((copyKernelStack current pages m).ScratchFree ∨ lossy) :=
      copyKernelStack_changes current pages scratch'
    have first : SpaceMoves lossy sharing s (s.malloc env).2 := of_same rfl rfl rfl rfl
    refine first.trans (restack found (stackKept.symm.trans stack) rfl rfl
      (taken.trans unmapped.1) ?_ fun _ => unmapped.2)
    intro start
    exact ((region0.stack.trans (StackEntriesKept.copyKernelStack current pages)) start).1
  · simp only [stack, bind_eq_ok, pure_eq_ok] at h
    obtain ⟨⟨pages', w⟩, paired, c, -, h⟩ := h
    obtain ⟨rfl, rfl⟩ := Prod.mk.inj paired
    split at h
    · rename_i kstack' current _ _
      cases h
      have unmapped : Changes lossy sharing (s.mem.holdings s.tables)
          ((copyKernelStack current kstack' s.mem).holdings s.tables) ∧
          ((copyKernelStack current kstack' s.mem).ScratchFree ∨ lossy) :=
        copyKernelStack_changes current kstack' scratch
      have first : SpaceMoves lossy sharing s
          (s.setMem (copyKernelStack current kstack' s.mem)) := by
        refine ⟨unmapped.1, fun start => start, fun _ known => known, ?_, fun _ => unmapped.2⟩
        exact fun start => (StackEntriesKept.copyKernelStack current kstack' start).1
      exact first.trans (setPcb found rfl rfl)
    · cases h

theorem forkReturn {child parent : PcbPtr} (h : s.forkReturn env child parent = .ok s') :
    SpaceMoves lossy sharing s s' := by
  simp only [Kernel.forkReturn, bind_eq_ok, deref_eq_ok] at h
  obtain ⟨c, -, p, -, h⟩ := h
  split at h
  · simp only [bind_eq_ok, deref_eq_ok] at h
    obtain ⟨t, readied, d, -, h⟩ := h
    have first : SpaceMoves lossy sharing s t := modifyPcb readied fun _ => ⟨rfl, rfl⟩
    have second : SpaceMoves lossy sharing t (t.queueEnqueue env .ready child) :=
      queueEnqueue env .ready child
    have third := (first.trans second).trans (queueEnqueue env (.children parent) child)
    exact third.trans ((log _ _).trans (modifyPcb h fun _ => ⟨rfl, rfl⟩))
  · exact modifyPcb h fun _ => ⟨rfl, rfl⟩

/-- `Fork` takes the frames of the child, also when it fails half-way. -/
theorem fork (other : s.currentProcess ≠ s.nextPcb) (absent : s.heap s.nextPcb = none)
    (scratch : s.mem.ScratchFree ∨ lossy) (h : s.fork env = .ok (status, s')) :
    SpaceMoves lossy sharing s s' := by
  simp only [Kernel.fork, bind_eq_ok] at h
  obtain ⟨⟨slot, t⟩, found, h⟩ := h
  have created : SpaceMoves lossy sharing s t := getFreePCB absent found
  rcases getFreePCB_eq_ok found with ⟨rfl, -⟩ | ⟨i, -, rfl, new⟩
  · cases h
    exact created
  · simp only [bind_eq_ok, deref_eq_ok] at h
    obtain ⟨p, -, u, written, ⟨copied, v⟩, requested, h⟩ := h
    have current : t.currentProcess = s.currentProcess := by rw [new]; rfl
    obtain ⟨c, childLive, rfl⟩ := modifyPcb_eq_ok.mp written
    have fresh : c.ptbr = PageTable.none := by
      rw [new] at childLive
      simp only [setQueue_heap, setPcb_heap, Function.update_self, Option.some.injEq] at childLive
      rw [← childLive]
      rfl
    have filled : SpaceMoves lossy sharing t
        (t.setPcb s.nextPcb { c with ppid := p.pid, userContext := p.userContext }) :=
      setPcb childLive rfl rfl
    have before := created.trans filled
    have spaced : SpaceMoves lossy sharing _ v :=
      copyPT (before.scratch scratch) (fun b live vpn => by
        rw [setPcb_heap, Function.update_self, Option.some.injEq] at live
        rw [← live]
        exact congrArg (fun pt : PageTable => (pt vpn).valid) fresh) requested
    by_cases failed : copied = .error
    · rw [if_pos failed] at h
      cases h
      exact before.trans spaced
    · rw [if_neg failed] at h
      simp only [bind_eq_ok, pure_eq_ok] at h
      obtain ⟨w, stacked, x, returned, h⟩ := h
      obtain ⟨-, rfl⟩ := Prod.mk.inj h
      obtain ⟨src, dst, m, pt, -, -, -, rfl⟩ := copyPT_eq_ok requested
      have copiedStack : SpaceMoves lossy sharing _ w :=
        kcCopy (by
          rw [setPcb_currentProcess, setMem_currentProcess, setPcb_currentProcess, current]
          exact other) ((before.trans spaced).scratch scratch) stacked
      exact ((before.trans spaced).trans copiedStack).trans (forkReturn returned)

/-! ### Memory traps and Brk -/

/-- `growStack` loses the frames of mapped pages that it maps anew. -/
theorem growStack (allowed : s.GrowthAllowed lossy addr)
    (h : s.growStack addr = .ok (status, s')) : SpaceMoves lossy sharing s s' := by
  obtain ⟨c, m, pt, live, grew, outcome⟩ := growStack_eq_ok h
  have region0 := Region0Kept.growStackPages grew
  have changes : Changes lossy sharing
      (s.mem.holdings (Function.update s.tables (.region1 s.currentProcess) c.ptbr))
      (m.holdings (Function.update s.tables (.region1 s.currentProcess) pt)) := by
    by_cases room : pageOf (downToPage addr) ≤ maxPtLen
    · exact growStackPages_changes (by simp) rfl room (fun j below => absurd below (by omega))
        (fun vpn => allowed c vpn live) grew
    · -- beyond the table the loop can only stop at once
      rcases pages : c.stackPage - pageOf (downToPage addr) with _ | n
      · rw [pages] at grew
        cases grew
        exact .refl _
      · rw [pages] at grew
        unfold growStackPages at grew
        rcases allocated : s.mem.allocFrame .user with _ | ⟨pfn, m₁⟩
        · simp only [allocated] at grew
          cases grew
          exact .refl _
        · simp only [allocated, bind_eq_ok] at grew
          obtain ⟨page, index, -⟩ := grew
          obtain ⟨position, inside⟩ := tableIndex_eq_ok index
          exact absurd inside (by omega)
  have scratch : s.mem.ScratchFree ∨ lossy → m.ScratchFree ∨ lossy := by
    rw [ScratchFree, ScratchFree, region0.table]
    exact id
  rcases outcome with ⟨-, rfl⟩ | ⟨-, rfl⟩
  · exact retable live rfl changes (fun start => (region0.stack start).1) scratch
  · exact retable live rfl changes (fun start => (region0.stack start).1) scratch

/-- `Brk` takes frames; a call that lowers the heap and comes back gives none back. -/
theorem brk (h : s.brk env addr = .ok (status, s')) : SpaceMoves lossy sharing s s' := by
  rcases brk_eq_ok h with ⟨-, rfl⟩ | ⟨-, c, m, pt, live, outcome⟩
  · exact refl s'
  · have step : ∀ {result : Status},
        brkGrow (pageOf (upToPage addr) - c.heapPage) c.heapPage s.mem c.ptbr =
          .ok (result, m, pt) →
        ∀ b' : PCB, b'.ptbr = pt → b'.kstack = c.kstack →
          SpaceMoves lossy sharing s ((s.setMem m).setPcb s.currentProcess b') := by
      intro result grew b' table stack
      have region0 := Region0Kept.brkGrow grew
      refine retable live stack ?_ (fun start => (region0.stack start).1) ?_
      · rw [table]
        exact brkGrow_changes (by simp) rfl grew
      · rw [ScratchFree, ScratchFree, region0.table]
        exact id
    rcases outcome with ⟨grew, rfl⟩ | ⟨grew, rfl⟩
    · exact step grew _ rfl rfl
    · exact step grew _ rfl rfl

/-! ### Programs -/

/-- `LoadProgram` shares frames when it runs short of them, and loses frames when a page belongs to
two segments. -/
theorem loadProgram {req : LoadRequest} {argv : ArgVector}
    (allowed : s.LoadAllowed lossy sharing env req argv p)
    (h : s.loadProgram env req argv p = .ok (status, s')) : SpaceMoves lossy sharing s s' := by
  obtain ⟨b, live, ⟨-, rfl, -⟩ | ⟨li, args, plan, information, strings, accepted, loaded⟩⟩ :=
    loadProgram_eq_ok h
  · exact refl s'
  · have first : SpaceMoves lossy sharing s (s.malloc env).2 := of_same rfl rfl rfl rfl
    rcases loaded with ⟨-, -, rfl⟩ | ⟨⟨allocated, -⟩, m, b', image, rfl⟩
    · exact first.trans (setPcb live rfl rfl)
    · obtain ⟨kept, stack, -⟩ := StackKept.loadImage image
      have frames : plan.pages ≤ (s.mem.reclaimable b.ptbr).card ∨ sharing := by
        refine (allowed b live).1.imp_left fun enough => ?_
        by_contra short
        rw [pages_eq accepted] at short
        exact enough
          ⟨li, args, plan, information, strings, accepted, allocated, Nat.not_le.mp short⟩
      refine first.trans (retable live stack ?_ (fun start => (kept start).1) ?_)
      · exact loadImage_changes (m := s.mem) (b := PCB.withStackPointer b plan.cpp) (by simp) rfl
          frames ((allowed b live).2 li args plan information strings accepted) image
      · obtain ⟨m₀, pt₀, m₁, pt₁, cleared, mapped, wrote, -⟩ := loadImage_eq_ok image
        have region0 := ((Region0Kept.clearRegion1 cleared).trans (.loadSegments mapped)).trans
          (.writesOnly wrote)
        rw [ScratchFree, ScratchFree, region0.table]
        exact id

/-- `SetKernelBrk` may map pages anew. -/
theorem setKernelBrk (below : s.mem.kernelBrkPage ≤ kstackStartPage) (addr : Word) :
    SpaceMoves True sharing s (s.setMem (s.mem.setKernelBrk addr).2) where
  changes := setKernelBrk_changes below addr
  fresh start := start
  current _ known := known
  heapBelow start := (StackEntriesKept.setKernelBrk addr start).1
  scratch _ := Or.inr trivial

end SpaceMoves

end Kernel

end Yalnix
