/-
Module: Yalnix.Proofs.FailedCalls
Purpose: When Fork and Brk answer ERROR for their arguments or for want of frames, and what a Fork
  that fails leaves behind.
Trusted boundary: none
Main exports: copyPTEntries_frames, Kernel.ForkAtomic, fork_atomic_iff, brk_fails_iff
-/
import Yalnix.Proofs.HeapStack

namespace Yalnix

open Memory

/-- `CopyPT` runs out of frames, or takes one for each mapped page. -/
theorem copyPTEntries_frames {src dst dst' : PageTable} {entries : List Nat} {m m' : Memory}
    {status : Status} (h : copyPTEntries src entries m dst = (status, m', dst')) :
    (status = .error ∧ m.freeFrames.card < entries.countP fun vpn => (src vpn).valid) ∨
      (status = .success ∧
        m'.freeFrames.card + (entries.countP fun vpn => (src vpn).valid) = m.freeFrames.card) := by
  induction entries generalizing m dst with
  | nil =>
      cases h
      exact Or.inr ⟨rfl, rfl⟩
  | cons vpn rest inductionHypothesis =>
      unfold copyPTEntries at h
      rw [List.countP_cons]
      by_cases valid : (src vpn).valid = true
      · rw [if_pos valid] at h
        rw [if_pos valid]
        rcases allocated : m.allocFrame .user with _ | ⟨pfn, m₁⟩
        · rw [allocated] at h
          cases h
          rw [allocFrame_eq_none.mp allocated, Finset.card_empty]
          exact Or.inl ⟨rfl, Nat.succ_pos _⟩
        · rw [allocated] at h
          obtain ⟨free, rfl⟩ := allocFrame_eq_some allocated
          have left := card_freeFrames_takeFrame (by decide : FrameUsage.user ≠ .free) free
          have copied := inductionHypothesis h
          rw [cloneFrame_frames] at copied
          rcases copied with ⟨failed, short⟩ | ⟨success, count⟩
          · exact Or.inl ⟨failed, by omega⟩
          · exact Or.inr ⟨success, by omega⟩
      · rw [if_neg valid] at h
        rw [if_neg valid]
        exact inductionHypothesis h

namespace Kernel

variable {env : Env} {s s' : Kernel} {b : PCB} {ctx : UserContext}

/-- The kernel stack of a new process runs out of frames, or gets one for each page. -/
theorem initKernelStackPages_frames {n i : Nat} {m : Memory} {kstack : PageTable} :
    (m.freeFrames.card < n ∧ initKernelStackPages n i m kstack = .error .halt) ∨
      (n ≤ m.freeFrames.card ∧ ∃ result, initKernelStackPages n i m kstack = .ok result) := by
  induction n generalizing i m kstack with
  | zero => exact Or.inr ⟨Nat.zero_le _, _, rfl⟩
  | succ n inductionHypothesis =>
      unfold initKernelStackPages
      rcases allocated : m.allocFrame .kernel with _ | ⟨pfn, m₁⟩
      · rw [allocFrame_eq_none.mp allocated, Finset.card_empty]
        exact Or.inl ⟨Nat.succ_pos n, rfl⟩
      · obtain ⟨free, rfl⟩ := allocFrame_eq_some allocated
        have left := card_freeFrames_takeFrame (by decide : FrameUsage.kernel ≠ .free) free
        rcases inductionHypothesis (i := i + 1) with ⟨short, halts⟩ | ⟨enough, done⟩
        · exact Or.inl ⟨by omega, halts⟩
        · exact Or.inr ⟨by omega, done⟩

/-! ### When Fork fails -/

/-- The three blocks of a new PCB get memory. -/
def PcbAllocated (env : Env) (s : Kernel) : Prop :=
  env.mallocOk s.mallocCalls = true ∧ env.mallocOk (s.mallocCalls + 1) = true ∧
    env.mallocOk (s.mallocCalls + 2) = true

/-- With a slot, `getFreePCB` comes back when the PCB gets its memory, and else dereferences
`NULL`. -/
theorem getFreePCB_slot (env : Env) {i : Nat} (slot : s.freeSlot = some i) :
    (PcbAllocated env s ∧ ∃ t, s.getFreePCB env = .ok (some s.nextPcb, t)) ∨
      (¬ PcbAllocated env s ∧ s.getFreePCB env = .error .nullPointer) := by
  unfold getFreePCB
  rw [slot]
  by_cases pcbOk : env.mallocOk s.mallocCalls = true
  · by_cases ptbrOk : env.mallocOk (s.mallocCalls + 1) = true
    · by_cases childrenOk : env.mallocOk (s.mallocCalls + 2) = true
      · refine Or.inl ⟨⟨pcbOk, ptbrOk, childrenOk⟩, ?_⟩
        simp [allocNewPCB, malloc, pcbOk, ptbrOk, childrenOk, modifyPcb, deref, setPcb, setQueue,
          bind, Except.bind, pure, Except.pure]
      · refine Or.inr ⟨fun allocated => childrenOk allocated.2.2, ?_⟩
        simp [allocNewPCB, malloc, pcbOk, ptbrOk, childrenOk]
    · refine Or.inr ⟨fun allocated => ptbrOk allocated.2.1, ?_⟩
      simp [allocNewPCB, malloc, pcbOk, ptbrOk]
  · refine Or.inr ⟨fun allocated => pcbOk allocated.1, ?_⟩
    simp [allocNewPCB, malloc, pcbOk]

/-- The two ways `Fork` answers `ERROR`: with nothing done, or with the child's PCB in its slot and
the frames of some pages taken. -/
theorem fork_error_eq_ok (live : s.heap s.currentProcess = some b)
    (other : s.currentProcess ≠ s.nextPcb) (h : s.fork env = .ok (.error, s')) :
    (s.freeSlot = none ∧ s' = s) ∨
      ∃ i, s.freeSlot = some i ∧ PcbAllocated env s ∧
        s.mem.freeFrames.card < b.ptbr.mappedPages ∧
        s'.procTable = Function.update s.procTable i (some s.nextPcb) := by
  simp only [fork, bind_eq_ok] at h
  obtain ⟨⟨found, t⟩, created, h⟩ := h
  rcases slot : s.freeSlot with _ | i
  · rw [getFreePCB, slot] at created
    cases created
    cases h
    exact Or.inl ⟨rfl, rfl⟩
  obtain ⟨allocated, t', created'⟩ | ⟨-, stopped⟩ := getFreePCB_slot env slot
  case inr =>
    rw [stopped] at created
    cases created
  obtain ⟨rfl, rfl⟩ := Prod.mk.inj (Except.ok.inj (created'.symm.trans created))
  rcases getFreePCB_eq_ok created with ⟨missing, -⟩ | ⟨j, taken, -, rfl⟩
  · cases missing
  obtain rfl := Option.some.inj (slot.symm.trans taken)
  simp only [bind_eq_ok, deref_eq_ok, modifyPcb_eq_ok] at h
  obtain ⟨p, parentLive, _, ⟨c, childLive, rfl⟩, ⟨status, u⟩, copied, h⟩ := h
  obtain ⟨src, dst, m, pt, srcLive, -, entries, rfl⟩ := copyPT_eq_ok copied
  simp only [setQueue_heap, setPcb_heap, setQueue_currentProcess, setPcb_currentProcess,
    Function.update_of_ne other] at srcLive
  obtain rfl : src = b := Option.some.inj (srcLive.symm.trans live)
  rcases copyPTEntries_frames entries with ⟨rfl, short⟩ | ⟨rfl, -⟩
  · simp only [if_true] at h
    cases h
    exact Or.inr ⟨i, rfl, allocated, short, rfl⟩
  · simp only [reduceCtorEq, if_false, bind_eq_ok, pure_eq_ok] at h
    obtain ⟨v, -, w, -, h⟩ := h
    cases h

/-! ### A failing fork leaves nothing behind -/

/-- Everything that `Fork` acquires on its way is as it was. -/
structure ForkUndone (s s' : Kernel) : Prop where
  usage : s'.mem.frameTable = s.mem.frameTable
  count : s'.mem.freeNframes = s.mem.freeNframes
  slots : s'.procTable = s.procTable
  queues : s'.queues = s.queues
  pcbs : s'.heap = s.heap

/-- With no slot for the child, or too few frames for its pages and its kernel stack, `Fork`
answers `ERROR` and undoes what it did. -/
def ForkAtomic (env : Env) (s : Kernel) (b : PCB) : Prop :=
  s.freeSlot = none ∨ s.mem.freeFrames.card < b.ptbr.mappedPages + kstackPages →
    ∃ s', s.fork env = .ok (.error, s') ∧ ForkUndone s s'

/-- Nothing is undone once the child has its slot. -/
theorem ForkUndone.full (live : s.heap s.currentProcess = some b)
    (fresh : s.heap s.nextPcb = none) (failed : s.fork env = .ok (.error, s'))
    (undone : ForkUndone s s') : s.freeSlot = none := by
  have other : s.currentProcess ≠ s.nextPcb := by
    intro same
    rw [same, fresh] at live
    cases live
  rcases fork_error_eq_ok live other failed with ⟨full, -⟩ | ⟨i, slot, -, -, taken⟩
  · exact full
  · have empty := List.find?_some slot
    rw [← undone.slots, taken, Function.update_self] at empty
    cases empty

theorem fork_full (full : s.freeSlot = none) : s.fork env = .ok (.error, s) := by
  simp [fork, getFreePCB, full, bind, Except.bind, pure, Except.pure]

/-- `Fork` fails without a trace exactly when the process table is full; it does not fail for want
of frames when there are enough for the copy. -/
theorem fork_atomic_iff (live : s.heap s.currentProcess = some b)
    (fresh : s.heap s.nextPcb = none) : ForkAtomic env s b ↔
      s.freeSlot = none ∨ b.ptbr.mappedPages + kstackPages ≤ s.mem.freeFrames.card := by
  constructor
  · intro atomic
    by_cases enough : b.ptbr.mappedPages + kstackPages ≤ s.mem.freeFrames.card
    · exact Or.inr enough
    · obtain ⟨s', failed, undone⟩ := atomic (Or.inr (Nat.not_le.mp enough))
      exact Or.inl (undone.full live fresh failed)
  · rintro (full | enough) failing
    · exact ⟨s, fork_full full, rfl, rfl, rfl, rfl, rfl⟩
    · rcases failing with full | short
      · exact ⟨s, fork_full full, rfl, rfl, rfl, rfl, rfl⟩
      · exact absurd short (Nat.not_lt.mpr enough)

/-- Init forks on the sample machine while every slot of the process table is taken. -/
theorem fork_atomic_sample : ∃ s b, s.heap s.currentProcess = some b ∧ s.freeSlot = none ∧
    ForkAtomic sampleEnv s b := by
  have answer : runs sampleEnv sampleBoot (fun _ _ => true) [.tick, .resume]
      (fun s => decide ((s.heap s.currentProcess).isSome ∧ (s.heap s.nextPcb).isNone)) =
        .ok true := by
    decide +kernel
  obtain ⟨boot, s, -, -, known⟩ := runs_sound (fun _ _ => True) (fun _ _ _ => trivial) answer
  obtain ⟨live, fresh⟩ := of_decide_eq_true known
  obtain ⟨b, live⟩ := Option.isSome_iff_exists.mp live
  let crowded : Kernel := { s with procTable := fun _ => some s.currentProcess }
  have full : crowded.freeSlot = none := by simp [crowded, freeSlot]
  have live : crowded.heap crowded.currentProcess = some b := live
  have fresh : crowded.heap crowded.nextPcb = none := Option.isNone_iff_eq_none.mp fresh
  exact ⟨crowded, b, live, full, (fork_atomic_iff live fresh).mpr (Or.inl full)⟩

/-- A machine with 130 frames, of which the kernel occupies 120 at boot. -/
def tightBoot : BootConfig := { sampleBoot with nframes := 130, origKernelBrkPage := 120 }

/-- Init forks with two frames left for its three pages, and the child stays in its slot. -/
theorem fork_leaves_child : ¬ ∀ env (s : Kernel) b, s.heap s.currentProcess = some b →
    s.heap s.nextPcb = none → ForkAtomic env s b := by
  intro atomic
  have answer : runs sampleEnv tightBoot (fun _ _ => true) [.tick, .resume]
      (fun s => (s.heap s.currentProcess).any fun b => decide ((s.heap s.nextPcb).isNone ∧
        s.freeSlot.isSome ∧ s.mem.freeFrames.card < b.ptbr.mappedPages)) = .ok true := by
    decide +kernel
  obtain ⟨boot, s, -, -, known⟩ := runs_sound (fun _ _ => True) (fun _ _ _ => trivial) answer
  obtain ⟨b, live, known⟩ := (Option.any_eq_true ..).mp known
  obtain ⟨fresh, slot, short⟩ := of_decide_eq_true known
  have fresh' := Option.isNone_iff_eq_none.mp fresh
  obtain ⟨s', failed, undone⟩ :=
    atomic sampleEnv s b live fresh' (Or.inr (Nat.lt_of_lt_of_le short (Nat.le_add_right ..)))
  rw [undone.full live fresh' failed] at slot
  cases slot

/-! ### When Brk fails -/

/-- `Brk` answers `ERROR` for `NULL`, and when the pages it has to map outnumber the frames. -/
theorem brk_fails_iff {addr : Word} (live : s.heap s.currentProcess = some b) :
    (∃ t, s.brk env addr = .ok (.error, t)) ↔ addr = 0 ∨
      s.mem.freeFrames.card < (b.ptbr.unmapped b.heapPage (pageOf (upToPage addr))).card := by
  have range : b.ptbr.unmapped b.heapPage (pageOf (upToPage addr)) = b.ptbr.unmapped b.heapPage
      (b.heapPage + (pageOf (upToPage addr) - b.heapPage)) := by
    ext vpn
    rw [mem_unmapped, mem_unmapped]
    constructor
    · rintro ⟨inside, above, below, invalid⟩
      exact ⟨inside, above, by omega, invalid⟩
    · rintro ⟨inside, above, below, invalid⟩
      exact ⟨inside, above, by omega, invalid⟩
  have found : s.deref s.currentProcess = .ok b := deref_eq_ok.mpr live
  rw [range]
  constructor
  · rintro ⟨t, failed⟩
    by_cases null : addr = 0
    · exact Or.inl null
    · right
      rw [brk, if_neg null] at failed
      simp only [found, bind_eq_ok, Except.ok.injEq, exists_eq_left'] at failed
      obtain ⟨⟨status, m, pt⟩, grew, failed⟩ := failed
      rcases (brkGrow_eq_ok grew).2 with ⟨rfl, -⟩ | ⟨-, short, -⟩
      · simp only [reduceCtorEq, if_false, bind_eq_ok, pure_eq_ok] at failed
        obtain ⟨moved, -, failed⟩ := failed
        cases failed
      · exact short
  · rintro (rfl | short)
    · exact ⟨s, if_pos rfl⟩
    · by_cases null : addr = 0
      · exact ⟨s, if_pos null⟩
      · rcases grew : brkGrow (pageOf (upToPage addr) - b.heapPage) b.heapPage s.mem b.ptbr with
          stop | ⟨status, m, pt⟩
        · exact absurd short (Nat.not_lt.mpr (brkGrow_eq_error grew))
        · rcases (brkGrow_eq_ok grew).2 with ⟨-, enough, -⟩ | ⟨rfl, -⟩
          · exact absurd short (Nat.not_lt.mpr enough)
          · rw [brk, if_neg null]
            rw [PCB.heapPage] at grew
            simp only [found, grew, bind, Except.bind, if_true]
            exact ⟨_, rfl⟩

end Kernel

end Yalnix
