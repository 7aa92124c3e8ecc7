/-
Module: Yalnix.Proofs.Survival
Purpose: Which paths through the kernel come back: for each system call, and for each place where a
  process has left the processor, the exact condition on the arguments and on the state.
Trusted boundary: none
Main exports: Survives, Kernel.CanSwitch, ForkSucceeds, BrkSucceeds, ExitReturns, WaitReturns,
  LoadReturns, TtyReadReturns, TtyWriteReturns, ResumeReturns, resume_survives_iff
-/
import Yalnix.Proofs.HeapBreak
import Yalnix.Proofs.LoadReturns

namespace Yalnix

open Memory

/-- The path comes back: it neither calls `Halt()`, nor runs into an access that stops the machine,
nor goes on for ever. -/
def Survives {α : Type} (path : Except Stop α) : Prop := ∃ result, path = .ok result

namespace Survives

variable {α β : Type} {path : Except Stop α} {next : α → Except Stop β}

theorem ok (value : α) : Survives (.ok value : Except Stop α) := ⟨value, rfl⟩

theorem not_error {stop : Stop} : ¬ Survives (.error stop : Except Stop α) := by
  rintro ⟨value, h⟩
  cases h

theorem bind_iff :
    Survives (path >>= next) ↔ ∃ value, path = .ok value ∧ Survives (next value) := by
  rcases path with stop | value
  · simp [Survives, bind, Except.bind]
  · simp [Survives, bind, Except.bind]

/-- Where the first part is known, the rest decides. -/
theorem bind_of_ok {value : α} (first : path = .ok value) :
    Survives (path >>= next) ↔ Survives (next value) := by
  rw [first]
  rfl

/-- What follows a path may always come back. -/
theorem bind_of_survives (rest : ∀ value, path = .ok value → Survives (next value)) :
    Survives (path >>= next) ↔ Survives path := by
  rw [bind_iff]
  constructor
  · rintro ⟨value, first, -⟩
    exact ⟨value, first⟩
  · rintro ⟨value, first⟩
    exact ⟨value, first, rest value first⟩

end Survives

namespace Kernel

variable {env : Env} {s s' t : Kernel} {b b' c : PCB} {p q z : PcbPtr} {kc : KernelContext}

/-! ### PCBs -/

/-- What one sees of the PCBs, when those that are overwritten look the same. -/
theorem setPcb_look {β : Type} (look : Option PCB → β) (live : s.heap p = some b)
    (same : look (some b') = look (some b)) (q : PcbPtr) :
    look ((s.setPcb p b').heap q) = look (s.heap q) := by
  by_cases here : q = p
  · rw [here, setPcb_heap, Function.update_self, live]
    exact same
  · rw [setPcb_heap, Function.update_of_ne here]

theorem setPcb_isSome (live : s.heap p = some b) (q : PcbPtr) :
    ((s.setPcb p b').heap q).isSome = (s.heap q).isSome := setPcb_look Option.isSome live (by rfl) q

theorem modifyPcb_live {f : PCB → PCB} (live : s.heap p = some b) :
    s.modifyPcb p f = .ok (s.setPcb p (f b)) := modifyPcb_eq_ok.mpr ⟨b, live, rfl⟩

theorem modifyPcb_survives {f : PCB → PCB} :
    Survives (s.modifyPcb p f) ↔ (s.heap p).isSome = true := by
  rw [Option.isSome_iff_exists]
  constructor
  · rintro ⟨t, modified⟩
    obtain ⟨b, live, -⟩ := modifyPcb_eq_ok.mp modified
    exact ⟨b, live⟩
  · rintro ⟨b, live⟩
    exact ⟨_, modifyPcb_live live⟩

theorem restoreContext_survives (live : s.heap s.currentProcess = some b) :
    Survives s.restoreContext := ⟨_, restoreContext_eq_ok.mpr ⟨b, live, rfl⟩⟩

theorem returnToUser_survives {rc : Int} (live : s.heap s.currentProcess = some b) :
    Survives (s.returnToUser rc) := ⟨_, returnToUser_eq_ok.mpr ⟨b, live, rfl⟩⟩

/-! ### User memory -/

/-- The table in force gives this right to the range. -/
def UserAccess (s : Kernel) (right : Pte → Bool) (va : Word) (n : Nat) : Prop :=
  ∃ b, s.heap s.ptbr1 = some b ∧ RangeOn (fun vpn => right (b.ptbr vpn) = true) va.toNat n

theorem UserAccess.congr {right : Pte → Bool} {va : Word} {n : Nat} (live : s.heap p = some b)
    (heap : t.heap = Function.update s.heap p (some b')) (same : b'.ptbr = b.ptbr)
    (table : t.ptbr1 = s.ptbr1) : t.UserAccess right va n ↔ s.UserAccess right va n := by
  rw [UserAccess, UserAccess, table, heap]
  apply iff_of_eq
  refine setPcb_look (fun pcb => ∃ c, pcb = some c ∧
    RangeOn (fun vpn => right (c.ptbr vpn) = true) va.toNat n) live ?_ s.ptbr1
  simp [same]

theorem storeUser_survives {va : Word} {bytes : List Byte} :
    Survives (s.storeUser va bytes) ↔ s.UserAccess Pte.writable va bytes.length := by
  constructor
  · rintro ⟨t, stored⟩
    obtain ⟨b, m, live, written, -⟩ := storeUser_eq_ok.mp stored
    exact ⟨b, live, (storeFun_returns ..).mp ⟨m, written⟩⟩
  · rintro ⟨b, live, range⟩
    obtain ⟨m, written⟩ := (storeFun_returns s.mem fun i => bytes.getD i 0).mpr range
    exact ⟨_, storeUser_eq_ok.mpr ⟨b, m, live, written, rfl⟩⟩

theorem loadUser_survives {va : Word} {n : Nat} :
    Survives (s.loadUser va n) ↔ s.UserAccess Pte.readable va n := by
  have accessible (b : PCB) : (∃ bytes, s.mem.loadRange b.ptbr va.toNat n = .ok bytes) ↔
      RangeOn (fun vpn => (b.ptbr vpn).readable = true) va.toNat n := by
    rw [RangeOn, loadRange, ← List.all_eq_true, ← Bool.and_eq_true]
    split
    · rename_i inside
      exact iff_of_true ⟨_, rfl⟩ inside
    · rename_i outside
      exact iff_of_false (by rintro ⟨bytes, h⟩; cases h) outside
  constructor
  · rintro ⟨bytes, loaded⟩
    obtain ⟨b, live, read⟩ := loadUser_eq_ok.mp loaded
    exact ⟨b, live, (accessible b).mp ⟨bytes, read⟩⟩
  · rintro ⟨b, live, range⟩
    obtain ⟨bytes, read⟩ := (accessible b).mpr range
    exact ⟨bytes, loadUser_eq_ok.mpr ⟨b, live, read⟩⟩

/-! ### Context switches -/

/-- The kernel stack of a process. -/
def stackOf (s : Kernel) (p : PcbPtr) : Option PageTable := (s.heap p).bind PCB.kstack

/-- With this ready queue, the process that is switched to has a kernel stack. -/
def CanSwitch (s : Kernel) (ready : List PcbPtr) : Prop :=
  (s.stackOf (ready.headD s.idleProc)).isSome = true

theorem stackOf_setPcb (live : s.heap p = some b) (stack : b'.kstack = b.kstack) (q : PcbPtr) :
    (s.setPcb p b').stackOf q = s.stackOf q := setPcb_look (·.bind PCB.kstack) live stack q

theorem CanSwitch.congr {ready : List PcbPtr} (idle : t.idleProc = s.idleProc)
    (kstacks : ∀ q, t.stackOf q = s.stackOf q) : t.CanSwitch ready ↔ s.CanSwitch ready := by
  rw [CanSwitch, CanSwitch, idle, kstacks]

theorem kcSwitch_survives_iff (live : s.heap p = some b) :
    Survives (s.kcSwitch kc p q) ↔ (s.stackOf q).isSome = true := by
  have same : (s.setPcb p { b with kernelContext := kc }).stackOf q = s.stackOf q :=
    stackOf_setPcb live (by rfl) q
  rw [kcSwitch, Survives.bind_of_ok (modifyPcb_live live), ← same, stackOf]
  rcases found : (s.setPcb p { b with kernelContext := kc }).heap q with _ | n
  · simp [deref, found, Survives, bind, Except.bind]
  · rw [Survives.bind_of_ok (deref_eq_ok.mpr found), Option.bind_some]
    rcases n.kstack with _ | kstack
    · exact iff_of_false Survives.not_error (by simp)
    · refine iff_of_true ?_ rfl
      refine Survives.bind_iff.mpr ⟨_, modifyPcb_eq_ok.mpr ⟨n, found, rfl⟩, Survives.ok _⟩

theorem dispatch_survives_iff (live : s.heap s.currentProcess = some b) :
    Survives (s.dispatch kc) ↔ s.CanSwitch (s.queues .ready) := by
  unfold dispatch nextToRun queueDequeue
  rcases s.queues .ready with _ | ⟨next, rest⟩
  · exact kcSwitch_survives_iff live
  · exact @kcSwitch_survives_iff (s.setQueue .ready rest) b s.currentProcess next kc live

/-- The switch at the end of a call that blocks: the caller's PCB was written, and queues other than
the ready queue. -/
theorem blocked_survives_iff (live : s.heap s.currentProcess = some b)
    (heap : t.heap = Function.update s.heap s.currentProcess (some b'))
    (stack : b'.kstack = b.kstack)
    (current : t.currentProcess = s.currentProcess) (ready : t.queues .ready = s.queues .ready)
    (idle : t.idleProc = s.idleProc) :
    Survives (t.dispatch kc) ↔ s.CanSwitch (s.queues .ready) := by
  have live' : t.heap t.currentProcess = some b' := by rw [heap, current, Function.update_self]
  have kstacks (q : PcbPtr) : t.stackOf q = s.stackOf q := by
    rw [stackOf, heap]
    exact stackOf_setPcb live stack q
  rw [dispatch_survives_iff live', ready]
  exact CanSwitch.congr idle kstacks

/-- A call that has left the processor answers later, in its caller's turn. -/
theorem left_survives_iff {path : Except Stop Kernel} {done : Int → Kernel → Except Stop Kernel} :
    Survives (do
      let u ← path
      finish (none, u) done) ↔ Survives path :=
  Survives.bind_of_survives fun u _ => Survives.ok u

/-! ### Delay -/

theorem delay_survives_iff {ticks : Int} (live : s.heap s.currentProcess = some b)
    (delayed : ticks ≠ 0) (positive : -1 ≤ ticks) :
    Survives (s.delay env ticks) ↔ s.CanSwitch (s.queues .ready) := by
  rw [delay, if_neg delayed, if_neg (Int.not_lt.mpr positive)]
  rw [Survives.bind_of_ok (modifyPcb_live live)]
  refine Iff.trans (Survives.bind_of_survives fun _ _ => Survives.ok _) ?_
  exact blocked_survives_iff live (queueEnqueue_heap ..) rfl (by simp) (by simp) (by simp)

/-! ### Fork -/

/-- The copy of a kernel stack needs memory for its table, frames for its pages, and the stack that
is copied. -/
theorem kcCopy_survives_iff (newLive : s.heap p = some c) (noStack : c.kstack = none)
    (other : s.currentProcess ≠ p) (live : s.heap s.currentProcess = some b) :
    Survives (s.kcCopy env kc p) ↔ env.mallocOk s.mallocCalls = true ∧
      kstackPages ≤ s.mem.freeFrames.card ∧ b.kstack.isSome = true := by
  have saved : s.modifyPcb p (fun b => { b with kernelContext := kc }) =
      .ok (s.setPcb p { c with kernelContext := kc }) := modifyPcb_live newLive
  have newLive' : (s.setPcb p { c with kernelContext := kc }).heap p =
      some { c with kernelContext := kc } := Function.update_self ..
  rw [kcCopy, Survives.bind_of_ok saved, Survives.bind_of_ok (deref_eq_ok.mpr newLive')]
  simp only [noStack, initializeKernelStackProcess, malloc, setPcb_mallocCalls, setPcb_mem]
  by_cases allocated : env.mallocOk s.mallocCalls = true
  · simp only [allocated, Bool.not_true, Bool.false_eq_true, if_false, true_and]
    rcases initKernelStackPages_frames with ⟨short, halts⟩ | ⟨enough, ⟨m, pages⟩, filled⟩
    · rw [halts]
      exact iff_of_false Survives.not_error fun both => absurd short (Nat.not_lt.mpr both.1)
    · rw [filled, and_iff_right enough]
      rcases stack : b.kstack with _ | current
      · simp [bind, Except.bind, modifyPcb, deref, setPcb, setMem, Function.update_of_ne other,
          live, stack, pure, Except.pure, Survives]
      · simp [bind, Except.bind, modifyPcb, deref, setPcb, setMem, Function.update_of_ne other,
          live, stack, pure, Except.pure, Survives]
  · simp only [allocated]
    simp [bind, Except.bind, modifyPcb, deref, setPcb, Function.update_of_ne other, live,
      pure, Except.pure, Survives]

/-- The end of `Fork` looks at the parent, and its parent at the child. -/
theorem forkReturn_survives_iff {child parent : PcbPtr} (live : s.heap s.currentProcess = some b) :
    Survives (s.forkReturn env child parent) ↔ ∃ c, s.heap parent = some c ∧
      (b.pid = c.pid → (s.heap child).isSome = true) := by
  rw [forkReturn, Survives.bind_of_ok (deref_eq_ok.mpr live)]
  rcases parentLive : s.heap parent with _ | c
  · simp [deref, parentLive, Survives, bind, Except.bind]
  rw [Survives.bind_of_ok (deref_eq_ok.mpr parentLive)]
  simp only [Option.some.injEq, exists_eq_left']
  by_cases same : b.pid = c.pid
  · rw [if_pos same]
    rcases childLive : s.heap child with _ | d
    · simp [modifyPcb, deref, childLive, same, Survives, bind, Except.bind]
    · refine iff_of_true ?_ fun _ => rfl
      rw [Survives.bind_of_ok (modifyPcb_live childLive)]
      obtain ⟨u, isReady⟩ : ∃ u : Kernel, u = ((s.setPcb child
        { d with state := .ready }).queueEnqueue env .ready child).queueEnqueue env
          (.children parent) child := ⟨_, rfl⟩
      have present (q : PcbPtr) : (u.heap q).isSome = (s.heap q).isSome := by
        rw [isReady, queueEnqueue_heap, queueEnqueue_heap, setPcb_isSome childLive]
      obtain ⟨e, ready⟩ : ∃ e, u.heap child = some e := by
        rw [← Option.isSome_iff_exists, present, childLive]
        rfl
      rw [← isReady, Survives.bind_of_ok (deref_eq_ok.mpr ready), modifyPcb_survives, log_heap,
        present, isReady]
      simp [live]
  · rw [if_neg same]
    exact iff_of_true ⟨_, modifyPcb_live live⟩ fun equal => absurd equal same

theorem forkReturn_live {child parent : PcbPtr} (h : s.forkReturn env child parent = .ok t) :
    ∃ c, t.heap t.currentProcess = some c := by
  simp only [forkReturn, bind_eq_ok] at h
  obtain ⟨b, -, c, -, h⟩ := h
  split_ifs at h with same
  · simp only [bind_eq_ok] at h
    obtain ⟨u, -, d, -, h⟩ := h
    obtain ⟨c, -, rfl⟩ := modifyPcb_eq_ok.mp h
    exact ⟨_, Function.update_self ..⟩
  · obtain ⟨c, -, rfl⟩ := modifyPcb_eq_ok.mp h
    exact ⟨_, Function.update_self ..⟩

/-- A slot is free, `malloc` has memory for the child's PCB and for the table of its kernel stack,
there are frames for its pages and its kernel stack, and the parent has a kernel stack. -/
structure ForkSucceeds (env : Env) (s : Kernel) (b : PCB) : Prop where
  slot : s.freeSlot ≠ none
  pcb : PcbAllocated env s
  kstack : env.mallocOk (s.mallocCalls + 3) = true
  frames : b.ptbr.mappedPages + kstackPages ≤ s.mem.freeFrames.card
  parent : b.kstack.isSome = true

/-- The state of `Fork` once the child has its PCB. -/
theorem fork_created {i : Nat} (live : s.heap s.currentProcess = some b)
    (other : s.currentProcess ≠ s.nextPcb) (slot : s.freeSlot = some i)
    (allocated : PcbAllocated env s) :
    ∃ (t : Kernel) (c : PCB), s.fork env = (do
        let (status, u) ← t.copyPT s.currentProcess s.nextPcb
        if status = .error then return (.error, u)
        else
          let u ← u.kcCopy env (.fork s.nextPcb s.currentProcess) s.nextPcb
          let u ← u.forkReturn env s.nextPcb s.currentProcess
          return (.success, u)) ∧
      t.currentProcess = s.currentProcess ∧ t.heap s.currentProcess = some b ∧
      t.heap s.nextPcb = some c ∧ c.kstack = none ∧ t.mem = s.mem ∧
      t.mallocCalls = s.mallocCalls + 3 := by
  obtain ⟨-, t, created⟩ | ⟨failed, -⟩ := getFreePCB_slot env slot
  case inr => exact absurd allocated failed
  rcases getFreePCB_eq_ok created with ⟨missing, -⟩ | ⟨j, -, -, made⟩
  · cases missing
  have current : t.currentProcess = s.currentProcess := by rw [made]; rfl
  have parentLive : t.heap s.currentProcess = some b := by
    rw [made, setQueue_heap, setPcb_heap, Function.update_of_ne other]
    exact live
  have childLive : t.heap s.nextPcb = some { PCB.fresh with
      state := .running, pid := env.helperNewPid s.pidCalls } := by
    rw [made, setQueue_heap, setPcb_heap, Function.update_self]
  refine ⟨t.setPcb s.nextPcb { PCB.fresh with
      state := .running, pid := env.helperNewPid s.pidCalls, ppid := b.pid,
      userContext := b.userContext }, _, ?_, current, ?_, Function.update_self .., rfl, ?_, ?_⟩
  · rw [fork, created]
    simp only [bind, Except.bind, deref_eq_ok.mpr parentLive, modifyPcb_live childLive, current]
  · rw [setPcb_heap, Function.update_of_ne other, parentLive]
  · rw [made]; rfl
  · rw [made]; rfl

/-- The end of `Fork`, when the child has its pages. -/
theorem fork_stacked_iff (live : s.heap s.currentProcess = some b) (childLive : s.heap p = some c)
    (noStack : c.kstack = none) (other : s.currentProcess ≠ p) :
    (∃ t, (do
        let u ← s.kcCopy env (.fork p s.currentProcess) p
        let u ← u.forkReturn env p s.currentProcess
        return (Status.success, u)) = .ok (.success, t)) ↔
      env.mallocOk s.mallocCalls = true ∧ kstackPages ≤ s.mem.freeFrames.card ∧
        b.kstack.isSome = true := by
  have survives : Survives (s.kcCopy env (.fork p s.currentProcess) p) ↔ _ :=
    kcCopy_survives_iff childLive noStack other live
  rw [← survives]
  constructor
  · rintro ⟨t, returned⟩
    obtain ⟨u, stacked, -⟩ := bind_eq_ok.mp returned
    exact ⟨u, stacked⟩
  · rintro ⟨u, stacked⟩
    obtain ⟨m, pages, c', kstack, -, -, -, isStacked⟩ :=
      kcCopy_eq_ok childLive noStack other stacked
    have current : u.currentProcess = s.currentProcess := by rw [isStacked]; rfl
    have parentLive : u.heap u.currentProcess = some b := by
      rw [current, isStacked, setPcb_heap, Function.update_of_ne other]
      exact live
    have child : (u.heap p).isSome = true := by
      rw [isStacked, setPcb_heap, Function.update_self]
      rfl
    obtain ⟨t, returned⟩ : Survives (u.forkReturn env p u.currentProcess) :=
      (forkReturn_survives_iff parentLive).mpr ⟨b, parentLive, fun _ => child⟩
    rw [current] at returned
    exact ⟨t, bind_eq_ok.mpr ⟨u, stacked, bind_eq_ok.mpr ⟨t, returned, rfl⟩⟩⟩

theorem fork_succeeds_iff (live : s.heap s.currentProcess = some b)
    (fresh : s.heap s.nextPcb = none) :
    (∃ t, s.fork env = .ok (.success, t)) ↔ ForkSucceeds env s b := by
  have other : s.currentProcess ≠ s.nextPcb := by
    intro same
    rw [same, fresh] at live
    cases live
  rcases slot : s.freeSlot with _ | i
  · refine iff_of_false ?_ fun succeeds => succeeds.slot slot
    rintro ⟨t, forked⟩
    rw [fork_full slot] at forked
    cases forked
  rcases getFreePCB_slot env slot with ⟨allocated, -⟩ | ⟨failed, stopped⟩
  case inr =>
    refine iff_of_false ?_ fun succeeds => failed succeeds.pcb
    rintro ⟨t, forked⟩
    rw [fork, stopped] at forked
    cases forked
  obtain ⟨t, c, forked, current, parentLive, childLive, noStack, mem, calls⟩ :=
    fork_created live other slot allocated
  rcases copied : copyPTEntries b.ptbr (List.range maxPtLen) s.mem c.ptbr with ⟨status, m, pt⟩
  obtain ⟨u, isCopy⟩ : ∃ u : Kernel, u = (t.setMem m).setPcb s.nextPcb { c with ptbr := pt } :=
    ⟨_, rfl⟩
  have requested : t.copyPT s.currentProcess s.nextPcb = .ok (status, u) := by
    simp only [copyPT, bind, Except.bind, deref_eq_ok.mpr parentLive, deref_eq_ok.mpr childLive,
      mem, copied, isCopy]
    rfl
  have parentLive' : u.heap u.currentProcess = some b := by
    rw [isCopy, setPcb_heap, setPcb_currentProcess, setMem_currentProcess, current,
      Function.update_of_ne other]
    exact parentLive
  have childLive' : u.heap s.nextPcb = some { c with ptbr := pt } := by
    rw [isCopy]
    exact Function.update_self ..
  rcases copyPTEntries_frames copied with ⟨rfl, short⟩ | ⟨rfl, count⟩
  · refine iff_of_false ?_ fun succeeds => ?_
    · rintro ⟨v, succeeded⟩
      rw [forked, requested] at succeeded
      cases succeeded
    · have enough := succeeds.frames
      rw [PageTable.mappedPages] at enough
      omega
  have here : u.currentProcess = s.currentProcess := by rw [isCopy]; exact current
  have other' : u.currentProcess ≠ s.nextPcb := by rw [here]; exact other
  have calls' : u.mallocCalls = s.mallocCalls + 3 := by rw [← calls, isCopy]; rfl
  have mem' : u.mem = m := by rw [isCopy]; rfl
  have frames : kstackPages ≤ m.freeFrames.card ↔
      b.ptbr.mappedPages + kstackPages ≤ s.mem.freeFrames.card := by
    rw [← count, PageTable.mappedPages]
    omega
  have stacked := @fork_stacked_iff env _ _ _ _ parentLive' childLive' noStack other'
  rw [here, calls', mem', frames] at stacked
  have rest : s.fork env = (do
      let v ← u.kcCopy env (.fork s.nextPcb s.currentProcess) s.nextPcb
      let v ← v.forkReturn env s.nextPcb s.currentProcess
      return (Status.success, v)) := by
    rw [forked, requested]
    rfl
  rw [rest, stacked]
  constructor
  · rintro ⟨kstack, enough, parent⟩
    exact ⟨by simp [slot], allocated, kstack, enough, parent⟩
  · intro succeeds
    exact ⟨succeeds.kstack, succeeds.frames, succeeds.parent⟩

/-! ### Brk -/

/-- The address is not `NULL`; a growing heap finds frames for its pages and stays in the table; a
shrinking one starts in the table, and region 0 maps no page of the numbers that it passes. -/
structure BrkSucceeds (s : Kernel) (b : PCB) (addr : Word) : Prop where
  address : addr ≠ 0
  frames : (b.ptbr.unmapped b.heapPage (pageOf (upToPage addr))).card ≤ s.mem.freeFrames.card
  growing : b.heapPage < pageOf (upToPage addr) → pageOf (upToPage addr) ≤ maxPtLen
  shrinking : pageOf (upToPage addr) < b.heapPage → b.heapPage < maxPtLen ∧
    ∀ page, pageOf (upToPage addr) < page → page ≤ b.heapPage →
      (s.mem.ptRegion0 page).valid = false

/-- The shrinking loop is followed for as long as it takes. -/
theorem brk_succeeds_iff {addr : Word} (live : s.heap s.currentProcess = some b) :
    (∃ fuel t, s.brk { env with brkFuel := fuel } addr = .ok (.success, t)) ↔
      BrkSucceeds s b addr := by
  by_cases null : addr = 0
  · refine iff_of_false ?_ fun succeeds => succeeds.address null
    rintro ⟨fuel, t, returned⟩
    rw [brk, if_pos null] at returned
    cases returned
  rcases Nat.lt_or_ge b.heapPage (pageOf (upToPage addr)) with higher | lower
  · have range : b.heapPage + (pageOf (upToPage addr) - b.heapPage) = pageOf (upToPage addr) :=
      Nat.add_sub_cancel' (Nat.le_of_lt higher)
    constructor
    · rintro ⟨fuel, t, returned⟩
      rw [brk_some live null, bind_eq_ok] at returned
      obtain ⟨⟨status, m, pt⟩, grew, returned⟩ := returned
      have grown := (brkGrow_eq_ok grew).2
      rw [range] at grown
      rcases grown with ⟨-, enough, -, none | inside⟩ | ⟨rfl, -⟩
      · omega
      · exact ⟨null, enough, fun _ => inside, fun shrinks => by omega⟩
      · simp only [if_true] at returned
        cases returned
    · intro succeeds
      have grown := @brkGrow_fresh s.mem b.ptbr (pageOf (upToPage addr) - b.heapPage) b.heapPage
      rw [range] at grown
      obtain ⟨m, pt, grew, -⟩ := grown (succeeds.growing higher) succeeds.frames
      exact ⟨0, _, brk_grown live null (Nat.le_of_lt higher) grew⟩
  · have none : b.ptbr.unmapped b.heapPage (pageOf (upToPage addr)) = ∅ := by
      apply Finset.eq_empty_of_forall_notMem
      intro vpn member
      obtain ⟨-, low, high, -⟩ := mem_unmapped.mp member
      omega
    have loop : (∃ fuel t, s.brk { env with brkFuel := fuel } addr = .ok (.success, t)) ↔
        ∃ fuel vpn' m' pt', brkShrink (pageOf (upToPage addr)) fuel b.heapPage s.mem b.ptbr =
          .ok (vpn', m', pt') := by
      apply exists_congr
      intro fuel
      rw [brk_shrinking live null lower]
      simp only
      rcases brkShrink (pageOf (upToPage addr)) fuel b.heapPage s.mem b.ptbr with stop | shrunk
      · simp [bind, Except.bind]
      · exact iff_of_true ⟨_, rfl⟩ ⟨_, _, _, rfl⟩
    rw [loop]
    rcases Nat.lt_or_eq_of_le lower with shrinks | same
    · rw [brkShrink_returns_iff shrinks]
      constructor
      · exact fun returns => ⟨null, by rw [none]; exact Nat.zero_le _, by omega, fun _ => returns⟩
      · exact fun succeeds => succeeds.shrinking shrinks
    · refine iff_of_true ⟨0, _, _, _, brkShrink_reached (Nat.le_of_eq same.symm)⟩ ?_
      exact ⟨null, by rw [none]; exact Nat.zero_le _, by omega, by omega⟩

/-! ### Exit -/

/-- The parent that `Exit` puts into the ready queue. -/
def wokenParent (env : Env) (s : Kernel) (b : PCB) : List PcbPtr :=
  b.parent.toList.filter fun parent =>
    (s.heap parent).any (fun p => decide (p.waitingForChildPid ≠ 0)) &&
      env.mallocOk (s.mallocCalls + 1)

/-- The parent's PCB is there, and the processor can be left. -/
def ExitReturns (env : Env) (s : Kernel) (b : PCB) : Prop :=
  (∀ parent, b.parent = some parent → (s.heap parent).isSome = true) ∧
    s.CanSwitch (s.queues .ready ++ s.wokenParent env b)

/-- Waking the parent and leaving the processor. -/
theorem wakeParent_survives_iff {parent : Option PcbPtr} {kc : Kernel → KernelContext}
    (live : s.heap s.currentProcess = some b) :
    Survives (do
      let u ← s.wakeParent env parent
      u.dispatch (kc u)) ↔
    (∀ q, parent = some q → (s.heap q).isSome = true) ∧
      s.CanSwitch (s.queues .ready ++ parent.toList.filter fun q =>
        (s.heap q).any (fun c => decide (c.waitingForChildPid ≠ 0)) &&
          env.mallocOk s.mallocCalls) := by
  rcases parent with _ | q
  · have same : s.wakeParent env none = .ok s := rfl
    rw [Survives.bind_of_ok same, dispatch_survives_iff live]
    simp
  rcases found : s.heap q with _ | c
  · refine iff_of_false ?_ (fun both => by simp [found] at both)
    simp [wakeParent, deref, found, Survives, bind, Except.bind]
  have present : ∀ q', some q = some q' → (s.heap q').isSome = true := by
    rintro q' ⟨⟩
    rw [found]
    rfl
  rw [and_iff_right present]
  by_cases unasked : c.waitingForChildPid = 0
  · have same : s.wakeParent env (some q) = .ok s := by
      simp [wakeParent, deref, found, unasked, bind, Except.bind, pure, Except.pure]
    rw [Survives.bind_of_ok same, dispatch_survives_iff live]
    simp [found, unasked]
  · obtain ⟨u, isWoken⟩ : ∃ u : Kernel, u = (s.setPcb q
      { c with state := .ready, waitingForChildPid := 0 }).queueEnqueue env .ready q := ⟨_, rfl⟩
    have woken : s.wakeParent env (some q) = .ok u := by
      simp [wakeParent, deref, found, unasked, modifyPcb, isWoken, bind, Except.bind, pure,
        Except.pure]
    have heap : u.heap = (s.setPcb q { c with state := .ready, waitingForChildPid := 0 }).heap := by
      rw [isWoken, queueEnqueue_heap]
    have current : u.currentProcess = s.currentProcess := by simp [isWoken]
    obtain ⟨d, live'⟩ : ∃ d, u.heap u.currentProcess = some d := by
      rw [← Option.isSome_iff_exists, heap, current, setPcb_isSome found, live]
      rfl
    have idle : u.idleProc = s.idleProc := by simp [isWoken]
    have kstacks (z : PcbPtr) : u.stackOf z = s.stackOf z := by
      rw [stackOf, heap]
      exact stackOf_setPcb found (by rfl) z
    rw [Survives.bind_of_ok woken, dispatch_survives_iff live', CanSwitch.congr idle kstacks,
      isWoken, queueEnqueue_queues, Function.update_self, setPcb_mallocCalls, setPcb_queues]
    by_cases allocated : env.mallocOk s.mallocCalls = true
    · simp [found, unasked, allocated]
    · simp [allocated]

theorem exit_survives_iff {status : Int} {origin : ExitOrigin}
    (live : s.heap s.currentProcess = some b) (notInit : b.pid ≠ 1) :
    Survives (s.exit env status origin) ↔ ExitReturns env s b := by
  obtain ⟨c, isZombie⟩ : ∃ c : PCB, c = { b with exitStatus := status, state := .zombie } :=
    ⟨_, rfl⟩
  obtain ⟨t, isLeft⟩ : ∃ t : Kernel, t = ((s.queueEnqueue env .zombie s.currentProcess).setPcb
    s.currentProcess c).log (.exited s.currentProcess status) := ⟨_, rfl⟩
  have there : (s.queueEnqueue env .zombie s.currentProcess).heap s.currentProcess = some b := by
    rw [queueEnqueue_heap]
    exact live
  have start : s.exit env status origin = (do
      let u ← t.wakeParent env b.parent
      u.dispatch (.exit u.ctx origin)) := by
    simp only [exit, bind, Except.bind, deref_eq_ok.mpr live, if_neg notInit, modifyPcb_live there,
      isLeft, isZombie]
  have heap : t.heap = (s.setPcb s.currentProcess c).heap := by
    rw [isLeft, log_heap, setPcb_heap, queueEnqueue_heap, setPcb_heap]
  have live' : t.heap t.currentProcess = some c := by
    have current : t.currentProcess = s.currentProcess := by simp [isLeft]
    rw [heap, current, setPcb_heap, Function.update_self]
  have ready : t.queues .ready = s.queues .ready := by simp [isLeft]
  have idle : t.idleProc = s.idleProc := by simp [isLeft]
  have calls : t.mallocCalls = s.mallocCalls + 1 := by simp [isLeft]
  have kstacks (q : PcbPtr) : t.stackOf q = s.stackOf q := by
    rw [stackOf, heap]
    exact stackOf_setPcb live (by rw [isZombie]) q
  have present (q : PcbPtr) : (t.heap q).isSome = (s.heap q).isSome := by
    rw [heap, setPcb_isSome live]
  have waiting (q : PcbPtr) : (t.heap q).any (fun p => decide (p.waitingForChildPid ≠ 0)) =
      (s.heap q).any (fun p => decide (p.waitingForChildPid ≠ 0)) := by
    rw [heap]
    exact setPcb_look (Option.any fun p => decide (p.waitingForChildPid ≠ 0)) live
      (by rw [isZombie]; rfl) q
  rw [start, wakeParent_survives_iff live', ExitReturns, wokenParent, ready, calls,
    CanSwitch.congr idle kstacks]
  simp only [present, waiting]

/-! ### Wait -/

/-- The first zombie that is a child of the process `pid`, or whose PCB is gone. -/
def zombieChild (s : Kernel) (pid : Int) : Option PcbPtr :=
  (s.queues .zombie).find? fun z => (s.heap z).all fun b => decide (b.ppid = pid)

/-- The zombie is another process than the caller, its PCB and those of its children are there, and
its status can be stored. -/
@[mk_iff]
structure CanReap (s : Kernel) (z : PcbPtr) (statusPtr : Word) : Prop where
  other : z ≠ s.currentProcess
  present : (s.heap z).isSome = true
  status : statusPtr ≠ 0 → s.UserAccess Pte.writable statusPtr 4
  children : ∀ child ∈ s.queues (.children z), (s.heap child).isSome = true

/-- Without children there is nothing to do; with no zombie among them the processor is left; and
a zombie child can be reaped. -/
def WaitReturns (s : Kernel) (b : PCB) (statusPtr : Word) : Prop :=
  s.queues (.children s.currentProcess) = [] ∨
    match s.zombieChild b.pid with
    | none => s.CanSwitch (s.queues .ready)
    | some z => s.CanReap z statusPtr

theorem findZombieChild_eq {pid : Int} {zombies : List PcbPtr} :
    s.findZombieChild pid zombies =
      match zombies.find? fun z => (s.heap z).all fun b => decide (b.ppid = pid) with
      | none => pure none
      | some z => do
          let _ ← s.deref z
          return some z := by
  induction zombies with
  | nil => rfl
  | cons z rest inductionHypothesis =>
      rw [findZombieChild]
      rcases found : s.heap z with _ | b
      · simp [deref, found, bind, Except.bind]
      · by_cases own : b.ppid = pid
        · simp [deref, found, own, bind, Except.bind]
        · simp [deref, found, own, bind, Except.bind, inductionHypothesis]

theorem orphanChildren_survives_iff {children : List PcbPtr} :
    Survives (orphanChildren children s) ↔ ∀ child ∈ children, (s.heap child).isSome = true := by
  induction children generalizing s with
  | nil => exact iff_of_true (Survives.ok _) (by simp)
  | cons child rest inductionHypothesis =>
      rcases found : s.heap child with _ | b
      · simp [orphanChildren, modifyPcb, deref, found, Survives, bind, Except.bind]
      · rw [orphanChildren, Survives.bind_of_ok (modifyPcb_live found), inductionHypothesis]
        simp only [setPcb_isSome found, List.forall_mem_cons, found, Option.isSome_some, true_and]

/-- The current process stays when children are orphaned. -/
theorem orphanChildren_isSome {children : List PcbPtr} (h : orphanChildren children s = .ok s') :
    s'.currentProcess = s.currentProcess ∧ ∀ q, (s'.heap q).isSome = (s.heap q).isSome := by
  induction children generalizing s with
  | nil =>
      cases h
      exact ⟨rfl, fun _ => rfl⟩
  | cons child rest inductionHypothesis =>
      simp only [orphanChildren, bind_eq_ok, modifyPcb_eq_ok] at h
      obtain ⟨_, ⟨b, live, rfl⟩, h⟩ := h
      obtain ⟨current, present⟩ := inductionHypothesis h
      exact ⟨current, fun q => (present q).trans (setPcb_isSome live q)⟩

theorem deletePCB_survives_iff : Survives (s.deletePCB z) ↔ (s.heap z).isSome = true ∧
    ∀ child ∈ s.queues (.children z), (s.heap child).isSome = true := by
  rcases found : s.heap z with _ | c
  · simp [deletePCB, deref, found, Survives, bind, Except.bind]
  · rw [deletePCB, Survives.bind_of_ok (deref_eq_ok.mpr found), Option.isSome_some]
    refine Iff.trans (Survives.bind_of_survives fun _ _ => Survives.ok _) ?_
    rw [orphanChildren_survives_iff, and_iff_right rfl]

/-- Deleting the zombie and returning to the caller of `Wait`. -/
theorem deleteAndReturn_survives_iff {statusPtr : Word} {pid : Int}
    (live : t.heap t.currentProcess = some b) (dead : t.heap z = some c) :
    Survives (do
      let u ← ((t.queueRemove (.children t.currentProcess) z).queueRemove .zombie z).deletePCB z
      finishWait statusPtr pid u) ↔
    z ≠ t.currentProcess ∧ ∀ child ∈ t.queues (.children z), (t.heap child).isSome = true := by
  obtain ⟨v, isUnlinked⟩ : ∃ v : Kernel,
      v = (t.queueRemove (.children t.currentProcess) z).queueRemove .zombie z := ⟨_, rfl⟩
  have heap : v.heap = t.heap := by rw [isUnlinked]; rfl
  have current : v.currentProcess = t.currentProcess := by rw [isUnlinked]; rfl
  rw [← isUnlinked, Survives.bind_iff]
  by_cases same : z = t.currentProcess
  · -- the caller's PCB is gone
    refine iff_of_false ?_ fun both => both.1 same
    rintro ⟨u, deleted, returned⟩
    simp only [deletePCB, bind_eq_ok, pure_eq_ok] at deleted
    obtain ⟨-, -, w, orphaned, rfl⟩ := deleted
    obtain ⟨here, -⟩ := orphanChildren_isSome orphaned
    obtain ⟨r, returned⟩ := returned
    obtain ⟨d, live', -⟩ := returnToUser_eq_ok.mp returned
    simp [here, current, same] at live'
  · have children : v.queues (.children z) = t.queues (.children z) := by
      rw [isUnlinked]
      simp [same]
    rw [and_iff_right same, ← children]
    have deletable := @deletePCB_survives_iff v z
    rw [heap, dead, Option.isSome_some, and_iff_right rfl] at deletable
    rw [← deletable]
    constructor
    · rintro ⟨u, deleted, -⟩
      exact ⟨u, deleted⟩
    · rintro ⟨u, deleted⟩
      refine ⟨u, deleted, ?_⟩
      simp only [deletePCB, bind_eq_ok, pure_eq_ok] at deleted
      obtain ⟨-, -, w, orphaned, rfl⟩ := deleted
      obtain ⟨here, present⟩ := orphanChildren_isSome orphaned
      have there := present t.currentProcess
      rw [heap, live, Option.isSome_some, Option.isSome_iff_exists] at there
      obtain ⟨d, live'⟩ := there
      refine ⟨_, returnToUser_eq_ok.mpr ⟨d, ?_, rfl⟩⟩
      simpa [here, current, Ne.symm same] using live'

/-- Reaping the zombie and returning to the caller of `Wait`. -/
theorem reapAndReturn_survives_iff {statusPtr : Word} (live : s.heap s.currentProcess = some b)
    (dead : s.heap z = some c) :
    Survives (do
      let (pid, u) ← s.reap z statusPtr
      finishWait statusPtr pid u) ↔ s.CanReap z statusPtr := by
  have parts : s.CanReap z statusPtr ↔ z ≠ s.currentProcess ∧
      (statusPtr ≠ 0 → s.UserAccess Pte.writable statusPtr 4) ∧
        ∀ child ∈ s.queues (.children z), (s.heap child).isSome = true := by
    have present : (s.heap z).isSome = true := by
      rw [dead]
      rfl
    exact ⟨fun h => ⟨h.other, h.status, h.children⟩, fun h => ⟨h.1, present, h.2.1, h.2.2⟩⟩
  rw [parts]
  have width : (intBytes c.exitStatus).length = 4 := by simp [intBytes]
  have stored := @storeUser_survives s statusPtr (intBytes c.exitStatus)
  rw [width] at stored
  rw [reap, deref_eq_ok.mpr dead]
  by_cases asked : statusPtr = 0
  · have rest := @deleteAndReturn_survives_iff s b c z statusPtr c.pid live dead
    simp only [asked, ne_eq, not_true_eq_false, if_false, false_implies, true_and] at rest ⊢
    rw [← rest]
    simp only [bind, Except.bind, pure, Except.pure]
    rcases ((s.queueRemove (.children s.currentProcess) z).queueRemove .zombie z).deletePCB z with
      stop | u
    · exact iff_of_false Survives.not_error Survives.not_error
    · exact Iff.rfl
  · simp only [ne_eq, asked, not_false_eq_true, if_true, true_implies]
    rcases outcome : s.storeUser statusPtr (intBytes c.exitStatus) with stop | t
    · rw [outcome] at stored
      simp only [bind, Except.bind, outcome]
      exact iff_of_false Survives.not_error fun all => Survives.not_error (stored.mpr all.2.1)
    · have writable := stored.mp ⟨t, outcome⟩
      obtain ⟨d, m, -, -, rfl⟩ := storeUser_eq_ok.mp outcome
      have rest := @deleteAndReturn_survives_iff (s.setMem m) b c z statusPtr c.pid live dead
      rw [setMem_currentProcess, setMem_queues, setMem_heap] at rest
      rw [and_iff_right writable, ← rest]
      simp only [bind, Except.bind, pure, Except.pure, outcome, setMem_currentProcess]
      rcases (((s.setMem m).queueRemove (.children s.currentProcess) z).queueRemove
        .zombie z).deletePCB z with stop | u
      · exact iff_of_false Survives.not_error Survives.not_error
      · exact Iff.rfl

/-- The end of `Wait`, when the scan has found a zombie. -/
theorem foundZombie_survives_iff {statusPtr : Word} (live : s.heap s.currentProcess = some b) :
    Survives (do
      let _ ← s.deref z
      let (pid, u) ← s.reap z statusPtr
      finishWait statusPtr pid u) ↔ s.CanReap z statusPtr := by
  rcases dead : s.heap z with _ | c
  · refine iff_of_false ?_ fun reaps => ?_
    · simp [deref, dead, Survives, bind, Except.bind]
    · have present := reaps.present
      rw [dead] at present
      cases present
  · rw [Survives.bind_of_ok (deref_eq_ok.mpr dead)]
    exact reapAndReturn_survives_iff live dead

theorem waitCall_survives_iff {statusPtr : Word} (live : s.heap s.currentProcess = some b) :
    Survives (do
      let result ← s.wait statusPtr
      finish result (finishWait statusPtr)) ↔ WaitReturns s b statusPtr := by
  by_cases empty : s.queues (.children s.currentProcess) = []
  · refine iff_of_true ?_ (Or.inl empty)
    have childless : s.wait statusPtr = .ok (some Status.error.code, s) := by
      simp [wait, isEmpty, empty, pure, Except.pure]
    exact (Survives.bind_of_ok childless).mpr (returnToUser_survives live)
  rw [WaitReturns, or_iff_right empty]
  have parental : s.isEmpty (.children s.currentProcess) = false := by
    simp [isEmpty, empty]
  have scan := @findZombieChild_eq s b.pid (s.queues .zombie)
  rw [← zombieChild] at scan
  simp only [wait, parental, Bool.false_eq_true, if_false, waitScan, bind_assoc]
  rw [Survives.bind_of_ok (deref_eq_ok.mpr live), scan]
  rcases found : s.zombieChild b.pid with _ | z
  · have left : Survives ((s.setPcb s.currentProcess
        { b with state := .blocked, waitingForChildPid := 1 }).dispatch (.wait statusPtr)) ↔
          s.CanSwitch (s.queues .ready) := blocked_survives_iff live rfl (by rfl) rfl rfl rfl
    simp only [bind_assoc, pure_bind]
    rw [Survives.bind_of_ok (modifyPcb_live live)]
    exact left_survives_iff.trans left
  · simp only [bind_assoc, pure_bind]
    exact foundZombie_survives_iff live

/-- `Wait` after its context switch scans once more. -/
theorem waitResumed_survives_iff {statusPtr : Word} (live : s.heap s.currentProcess = some b) :
    Survives (do
      let (rc, u) ← s.waitResumed statusPtr
      finishWait statusPtr rc u) ↔
    ∀ z, s.zombieChild b.pid = some z → s.CanReap z statusPtr := by
  have scan := @findZombieChild_eq s b.pid (s.queues .zombie)
  rw [← zombieChild] at scan
  simp only [waitResumed, waitScan, bind_assoc]
  rw [Survives.bind_of_ok (deref_eq_ok.mpr live), scan]
  rcases s.zombieChild b.pid with _ | z
  · exact iff_of_true (returnToUser_survives live) fun z absent => by cases absent
  · simp only [bind_assoc, pure_bind, Option.some.injEq, forall_eq']
    exact foundZombie_survives_iff live

/-! ### Exec -/

section

variable {req : LoadRequest} {li : LoadInfo} {args : List (List Byte)} {plan : LoadPlan}
  {argv : ArgVector} {m : Memory} {pt : PageTable} {ptlr : Nat}

/-- How many bytes a `read` of `size` bytes stores. -/
def bytesRead (size : Nat) : ReadAnswer → Nat
  | none => 0
  | some (count, _) => min count size

theorem readInto_survives_iff {va : Word} {size : Nat} {answer : ReadAnswer} :
    Survives (readInto m pt va size answer) ↔
      RangeOn (fun vpn => (pt vpn).writable = true) va.toNat (bytesRead size answer) := by
  rcases answer with _ | ⟨count, bytes⟩
  · refine iff_of_true (Survives.ok _) ⟨rfl, ?_⟩
    simp [bytesRead, rangePages]
  · rw [readInto]
    exact (Survives.bind_of_survives fun _ _ => Survives.ok _).trans (storeFun_returns ..)

theorem bytesRead_delivered {size : Nat} {answer : ReadAnswer} (whole : Delivers answer size) :
    bytesRead size answer = size := by
  obtain ⟨bytes, rfl⟩ := whole
  exact Nat.min_self size

/-- The pages of the load lie in the table, and what is stored of text and data lies on them; once
both are whole, so do the zeros and the stack, apart from the text. -/
structure ImageReturns (req : LoadRequest) (li : LoadInfo) (plan : LoadPlan)
    (args : List (List Byte)) : Prop where
  indices : ∀ index ∈ plan.indices, 0 ≤ index ∧ index < maxPtLen
  text : RangeOn plan.Covers li.tVaddr.toNat (bytesRead (segmentSize li.tNpg) req.text)
  data : Delivers req.text (segmentSize li.tNpg) →
    RangeOn plan.Covers li.idVaddr.toNat (bytesRead (segmentSize li.idNpg) req.data)
  rest : Delivers req.text (segmentSize li.tNpg) → Delivers req.data (segmentSize li.idNpg) →
    RangeOn plan.Plain li.idEnd.toNat (li.udEnd - li.idEnd).toNat ∧ stackNpg args ≤ maxPtLen ∧
      RangeOn plan.Plain plan.cpp.toNat (vmem1Limit - plan.cpp.toNat)

/-- When both reads deliver, the load comes back exactly when it succeeds. -/
theorem imageReturns_whole (text : Delivers req.text (segmentSize li.tNpg))
    (data : Delivers req.data (segmentSize li.idNpg)) :
    ImageReturns req li plan args ↔ ImageFits li plan args := by
  constructor
  · intro returns
    obtain ⟨zeros, room, stack⟩ := returns.rest text data
    refine ⟨returns.indices, ?_, ?_, zeros, room, stack⟩
    · simpa only [bytesRead_delivered text] using returns.text
    · simpa only [bytesRead_delivered data] using returns.data text
  · intro fits
    refine ⟨fits.indices, ?_, fun _ => ?_, fun _ _ => ⟨fits.zeros, fits.stackFits, fits.stack⟩⟩
    · simpa only [bytesRead_delivered text] using fits.text
    · simpa only [bytesRead_delivered data] using fits.data

theorem loadImage_returns_iff (accepted : loadPlan li args ptlr = some plan)
    (proper : ∀ arg ∈ args, 0 ∉ arg) (sized : argSize args = argBytes args) :
    Survives (loadImage req li plan (saveArgs args) m b) ↔ ImageReturns req li plan args := by
  by_cases whole : Delivers req.text (segmentSize li.tNpg) ∧
      Delivers req.data (segmentSize li.idNpg)
  · rw [imageReturns_whole whole.1 whole.2,
      ← loadImage_succeeds_iff (m := m) (b := b) accepted proper sized whole.1 whole.2]
    constructor
    · rintro ⟨⟨status, m', b'⟩, loaded⟩
      obtain ⟨_, _, _, _, -, -, -, -, ⟨rfl, -⟩ | ⟨-, partly⟩⟩ := loadImage_eq_ok loaded
      · exact ⟨m', b', loaded⟩
      · exact absurd whole partly
    · rintro ⟨m', b', loaded⟩
      exact ⟨_, loaded⟩
  rcases cleared : clearRegion1 (List.range maxPtLen) m b.ptbr with ⟨m₀, pt₀⟩
  simp only [loadImage, cleared, Survives.bind_iff]
  constructor
  · rintro ⟨⟨m₁, pt₁⟩, mapped, ⟨textOk, m₂⟩, textRead, returned⟩
    obtain ⟨before, -⟩ := writable_pages cleared mapped
    have textWhole := (readInto_eq_ok textRead).1
    have textRange := (RangeOn.congr before).mp (readInto_survives_iff.mp ⟨_, textRead⟩)
    refine ⟨loadSegments_returns.mp ⟨_, mapped⟩, textRange, fun text => ?_,
      fun text data => absurd ⟨text, data⟩ whole⟩
    obtain rfl : textOk = true := textWhole.mpr text
    simp only [Bool.not_true, Bool.false_eq_true, if_false, Survives.bind_iff] at returned
    obtain ⟨⟨dataOk, m₃⟩, dataRead, -⟩ := returned
    exact (RangeOn.congr before).mp (readInto_survives_iff.mp ⟨_, dataRead⟩)
  · intro returns
    obtain ⟨⟨m₁, pt₁⟩, mapped⟩ : Survives (loadSegments plan m₀ pt₀) :=
      loadSegments_returns.mpr returns.indices
    obtain ⟨before, -⟩ := writable_pages cleared mapped
    obtain ⟨⟨textOk, m₂⟩, textRead⟩ : Survives (readInto m₁ pt₁ _ _ _) :=
      readInto_survives_iff.mpr ((RangeOn.congr before).mpr returns.text)
    refine ⟨(m₁, pt₁), mapped, (textOk, m₂), textRead, ?_⟩
    rcases textOk with _ | _
    · exact Survives.ok _
    · have text := (readInto_eq_ok textRead).1.mp rfl
      obtain ⟨⟨dataOk, m₃⟩, dataRead⟩ : Survives (readInto m₂ pt₁ _ _ _) :=
        readInto_survives_iff.mpr ((RangeOn.congr before).mpr (returns.data text))
      have partly : dataOk = false := by
        rw [Bool.eq_false_iff]
        exact fun complete => whole ⟨text, (readInto_eq_ok dataRead).1.mp complete⟩
      simp only [Bool.not_true, Bool.false_eq_true, if_false, Survives.bind_iff]
      refine ⟨(dataOk, m₃), dataRead, ?_⟩
      rw [partly]
      exact Survives.ok _

/-- A program that starts in region 1 has arguments that can be read; and if its pages pass the
check and `malloc` has memory for a buffer, the arguments fit in it and the load comes back. -/
def LoadReturns (env : Env) (s : Kernel) (b : PCB) (req : LoadRequest) (argv : ArgVector) : Prop :=
  ∀ li, req.info = some li → vmem1Base ≤ li.entry.toNat → ∃ args, s.argStrings argv = .ok args ∧
    ∀ plan, loadPlan li args b.ptlr = some plan → env.mallocOk s.mallocCalls = true →
      argSize args = argBytes args ∧ ImageReturns req li plan args

theorem loadProgram_survives_iff (live : s.heap p = some b) :
    Survives (s.loadProgram env req argv p) ↔ LoadReturns env s b req argv := by
  rw [loadProgram, Survives.bind_of_ok (deref_eq_ok.mpr live), LoadReturns]
  rcases req.info with _ | li
  · exact iff_of_true (Survives.ok _) fun li absent => by cases absent
  simp only [Option.some.injEq, forall_eq']
  by_cases foreign : li.entry.toNat < vmem1Base
  · rw [if_pos foreign]
    exact iff_of_true (Survives.ok _) fun own => absurd foreign (Nat.not_lt.mpr own)
  simp only [if_neg foreign, Nat.le_of_not_lt foreign, true_implies]
  rcases strings : s.argStrings argv with stop | args
  · refine iff_of_false Survives.not_error ?_
    rintro ⟨args, unread, -⟩
    cases unread
  simp only [Except.ok.injEq, exists_eq_left', bind, Except.bind]
  rcases planned : loadPlan li args b.ptlr with _ | plan
  · exact iff_of_true (Survives.ok _) fun plan absent => by cases absent
  simp only [Option.some.injEq, forall_eq', malloc_fst]
  by_cases allocated : env.mallocOk s.mallocCalls = true
  · by_cases sized : argSize args = argBytes args
    · have again : (s.malloc env).2.argStrings argv = .ok args := argStrings_malloc.trans strings
      have image := @loadImage_returns_iff (PCB.withStackPointer b plan.cpp) req li args plan
        (s.malloc env).2.mem b.ptlr planned (argStrings_proper strings) sized
      simp only [allocated, sized, again, true_implies, true_and, Bool.not_true, Bool.false_eq_true,
        if_false, ne_eq, not_true_eq_false, ← image]
      exact Survives.bind_of_survives fun _ _ => Survives.ok _
    · simp only [allocated, sized, true_implies, false_and, Bool.not_true, Bool.false_eq_true,
        if_false, ne_eq, not_false_eq_true, if_true]
      exact iff_of_false Survives.not_error id
  · simp only [allocated, Bool.not_false, if_true]
    exact iff_of_true (Survives.ok _) Bool.noConfusion

end

/-! ### Terminals -/

section

variable {tty : TtyId} {buf : Word} {len : Int} {n : Nat}

/-- The block that was parked for the caller is stored in its buffer. -/
theorem unpackRead_survives_iff {rc : Int} (live : s.heap s.currentProcess = some b) :
    Survives (s.unpackRead tty buf len rc) ↔ (0 < rc → ∀ block, b.ttyKernelReadBuf = some block →
      s.UserAccess Pte.writable buf (block.take b.kernelReadSize).length) := by
  rw [unpackRead, Survives.bind_of_ok (deref_eq_ok.mpr live)]
  rcases b.ttyKernelReadBuf with _ | block
  · exact iff_of_true (returnToUser_survives live) fun _ _ absent => by cases absent
  by_cases positive : 0 < rc
  · simp only [positive, if_true, true_implies, Option.some.injEq, forall_eq']
    rw [← storeUser_survives]
    rcases stored : s.storeUser buf (block.take b.kernelReadSize) with stop | t
    · exact iff_of_false Survives.not_error Survives.not_error
    · obtain ⟨d, m, -, -, rfl⟩ := storeUser_eq_ok.mp stored
      refine iff_of_true ?_ (Survives.ok _)
      have live' : (s.setMem m).heap s.currentProcess = some b := live
      simp only [bind, Except.bind, modifyPcb_live live']
      exact returnToUser_survives (Function.update_self ..)
  · simp only [positive, if_false, false_implies, iff_true]
    exact returnToUser_survives live

/-- A line that waits in the terminal is stored in the caller's buffer, and else the processor is
left. -/
def TtyReadReturns (env : Env) (s : Kernel) (tty : TtyId) (buf : Word) (n : Nat) : Prop :=
  if 0 < (s.terminals tty).readBufferLen then
    env.mallocOk s.mallocCalls = true → s.UserAccess Pte.writable buf
      ((s.terminals tty).readBuffer.take (min (s.terminals tty).readBufferLen n)).length
  else s.CanSwitch (s.queues .ready)

theorem ttyReadCall_survives_iff (live : s.heap s.currentProcess = some b) (positive : 0 < n) :
    Survives (do
      let result ← s.ttyReadValid env tty buf n
      finish result fun rc u => u.unpackRead tty buf len rc) ↔ TtyReadReturns env s tty buf n := by
  rw [TtyReadReturns]
  by_cases available : 0 < (s.terminals tty).readBufferLen
  · rw [if_pos available]
    have amount : (if (s.terminals tty).readBufferLen < n then (s.terminals tty).readBufferLen
        else n) = min (s.terminals tty).readBufferLen n := by
      rw [Nat.min_def]
      split_ifs <;> omega
    have live' : (s.malloc env).2.heap s.currentProcess = some b := live
    by_cases allocated : env.mallocOk s.mallocCalls = true
    · obtain ⟨block, isBlock⟩ : ∃ block, block = (s.terminals tty).readBuffer.take
        (min (s.terminals tty).readBufferLen n) := ⟨_, rfl⟩
      have whole : block.take (min (s.terminals tty).readBufferLen n) = block := by
        rw [isBlock, List.take_take, Nat.min_self]
      have taken : (0 : Int) < (min (s.terminals tty).readBufferLen n : Nat) := by omega
      simp only [ttyReadValid, available, if_true, malloc_fst, allocated, Bool.not_true,
        Bool.false_eq_true, if_false, amount, modifyPcb_live live', ← isBlock, true_implies]
      refine (Survives.bind_of_ok rfl).trans ?_
      refine (unpackRead_survives_iff (Function.update_self ..)).trans ?_
      simp only [taken, true_implies, Option.some.injEq, forall_eq', whole]
      -- parking the block has not changed the caller's table
      exact UserAccess.congr live rfl (by rfl) rfl
    · have refused : s.ttyReadValid env tty buf n =
          .ok (some Status.error.code, (s.malloc env).2) := by
        simp [ttyReadValid, available, allocated, pure, Except.pure]
      rw [Survives.bind_of_ok refused]
      refine iff_of_true ?_ fun granted => absurd granted allocated
      exact (unpackRead_survives_iff live').mpr fun positive => absurd positive (by decide)
  · rw [if_neg available]
    obtain ⟨u, isQueued⟩ : ∃ u : Kernel, u = ((s.log (.ttyReadBlocked s.currentProcess tty
      (env.mallocOk s.mallocCalls))).queueEnqueue env (.readers tty) s.currentProcess).queueEnqueue
        env .blocked s.currentProcess := ⟨_, rfl⟩
    have heap : u.heap = s.heap := by simp [isQueued]
    have live' : u.heap s.currentProcess = some b := by rw [heap]; exact live
    have left : Survives ((u.setPcb s.currentProcess
        { b with state := .blocked, ttyReadBuf := buf, ttyReadLen := n }).dispatch
          (.ttyRead tty buf n)) ↔ s.CanSwitch (s.queues .ready) := by
      apply blocked_survives_iff live (congrArg (Function.update · _ _) heap) (by rfl)
      all_goals simp [isQueued]
    simp only [ttyReadValid, if_neg available, ← isQueued, bind_assoc, pure_bind]
    rw [Survives.bind_of_ok (modifyPcb_live live')]
    exact left_survives_iff.trans left

/-- The line can be copied from the caller's buffer, and the processor is left; without memory for
the copy, a writer that waits is still there. -/
def TtyLockedReturns (env : Env) (s : Kernel) (tty : TtyId) (buf : Word) (n : Nat) : Prop :=
  if env.mallocOk s.mallocCalls = true then
    s.UserAccess Pte.readable buf n ∧ s.CanSwitch (s.queues .ready)
  else ∀ writer, (s.queues (.writers tty)).head? = some writer → (s.heap writer).isSome = true

/-- The processor is left at once when the terminal is taken. -/
def TtyWriteReturns (env : Env) (s : Kernel) (tty : TtyId) (buf : Word) (n : Nat) : Prop :=
  if (s.terminals tty).inUse = true then s.CanSwitch (s.queues .ready)
  else TtyLockedReturns env s tty buf n

theorem finishTtyWrite_survives {target : Option TtyId} {rc : Int}
    (live : s.heap s.currentProcess = some b) : Survives (finishTtyWrite target rc s) := by
  cases target with
  | none => exact returnToUser_survives live
  | some tty => exact returnToUser_survives (s := s.log _) live

theorem beginTtyTransmit_survives_iff (live : s.heap p = some b) :
    Survives (s.beginTtyTransmit env tty p buf n) ↔
      (env.mallocOk s.mallocCalls = true → s.UserAccess Pte.readable buf n) := by
  have live' (terminal : Terminal) : ((s.malloc env).2.setTerminal tty terminal).heap p = some b :=
    live
  by_cases allocated : env.mallocOk s.mallocCalls = true
  · simp only [beginTtyTransmit, malloc_fst, allocated, Bool.not_true, Bool.false_eq_true, if_false,
      true_implies]
    exact (Survives.bind_of_survives fun _ _ => Survives.ok _).trans loadUser_survives
  · simp only [beginTtyTransmit, malloc_fst, allocated, Bool.not_false, if_true]
    refine iff_of_true ?_ Bool.noConfusion
    exact (Survives.bind_of_ok (modifyPcb_live (live' _))).mpr (Survives.ok _)

/-- The terminal is handed to the writer that waits, and the call fails. -/
theorem handedOver_survives_iff {target : Option TtyId} {rc : Int}
    (live : s.heap s.currentProcess = some b) :
    Survives (do
      let result ← (match s.queueDequeue (.writers tty) with
        | (none, s) => pure (some rc, s)
        | (some nextWriter, s) => do
            let s ← s.modifyPcb nextWriter fun b => { b with state := .ready }
            pure (some rc, s.queueEnqueue env .ready nextWriter))
      finish result (finishTtyWrite target)) ↔
    ∀ writer, (s.queues (.writers tty)).head? = some writer → (s.heap writer).isSome = true := by
  rw [queueDequeue]
  rcases s.queues (.writers tty) with _ | ⟨writer, rest⟩
  · exact iff_of_true (finishTtyWrite_survives live) (by simp)
  · simp only [List.head?_cons, Option.some.injEq, forall_eq', bind_assoc, pure_bind]
    refine Iff.trans (Survives.bind_of_survives fun t woken => ?_) modifyPcb_survives
    obtain ⟨w, found, rfl⟩ := modifyPcb_eq_ok.mp woken
    obtain ⟨r, isReady⟩ : ∃ r : Kernel, r = ((s.setQueue (.writers tty) rest).setPcb writer
      { w with state := .ready }).queueEnqueue env .ready writer := ⟨_, rfl⟩
    have caller : (r.heap r.currentProcess).isSome = true := by
      rw [isReady, queueEnqueue_heap, setPcb_isSome found, queueEnqueue_currentProcess]
      exact Option.isSome_iff_exists.mpr ⟨b, live⟩
    obtain ⟨d, live'⟩ := Option.isSome_iff_exists.mp caller
    rw [← isReady]
    exact finishTtyWrite_survives live'

/-- `TtyWrite` once the terminal is the caller's. -/
theorem ttyWriteLockedCall_survives_iff {target : Option TtyId}
    (live : s.heap s.currentProcess = some b) :
    Survives (do
      let result ← s.ttyWriteLocked env tty buf n
      finish result (finishTtyWrite target)) ↔ TtyLockedReturns env s tty buf n := by
  rw [TtyLockedReturns]
  obtain ⟨u, isLocked⟩ : ∃ u : Kernel, u =
    s.setTerminal tty { s.terminals tty with inUse := true } := ⟨_, rfl⟩
  have begins : Survives (u.beginTtyTransmit env tty s.currentProcess buf n) ↔
      (env.mallocOk s.mallocCalls = true → s.UserAccess Pte.readable buf n) := by
    rw [isLocked]
    exact beginTtyTransmit_survives_iff live
  simp only [ttyWriteLocked, ← isLocked, bind_assoc]
  rcases outcome : u.beginTtyTransmit env tty s.currentProcess buf n with stop | ⟨status, t⟩
  · rw [outcome] at begins
    have refused : ¬ (env.mallocOk s.mallocCalls = true → s.UserAccess Pte.readable buf n) :=
      fun granted => Survives.not_error (begins.mpr granted)
    obtain ⟨allocated, unreadable⟩ := Classical.not_imp.mp refused
    rw [if_pos allocated]
    exact iff_of_false Survives.not_error fun both => unreadable both.1
  have granted := begins.mp ⟨_, outcome⟩
  refine (Survives.bind_of_ok rfl).trans ?_
  rcases beginTtyTransmit_eq_ok outcome with
    ⟨failed, rfl, marked⟩ | ⟨allocated, rfl, bytes, -, rfl⟩
  · rw [isLocked] at failed
    obtain ⟨c, live₀, isMarked⟩ := modifyPcb_eq_ok.mp marked
    obtain ⟨v, isFreed⟩ : ∃ v : Kernel, v = t.setTerminal tty
      { t.terminals tty with inUse := false } := ⟨_, rfl⟩
    have present (q : PcbPtr) : (v.heap q).isSome = (s.heap q).isSome := by
      rw [isFreed, setTerminal_heap, isMarked, setPcb_isSome live₀, isLocked]
      rfl
    have current : v.currentProcess = s.currentProcess := by
      rw [isFreed, isMarked, isLocked]
      rfl
    have queues : v.queues = s.queues := by
      rw [isFreed, isMarked, isLocked]
      rfl
    have caller : (v.heap v.currentProcess).isSome = true := by
      rw [present, current, live]
      rfl
    obtain ⟨d, live'⟩ := Option.isSome_iff_exists.mp caller
    have failed' : ¬ env.mallocOk s.mallocCalls = true := Bool.eq_false_iff.mp failed
    rw [if_neg failed', ← queues]
    simp only [if_true, ← present, ← isFreed]
    exact handedOver_survives_iff live'
  · rw [isLocked] at allocated
    have allocated' : env.mallocOk s.mallocCalls = true := allocated
    rw [if_pos allocated', and_iff_right (granted allocated')]
    obtain ⟨v, isSent⟩ : ∃ v : Kernel, v = ((u.malloc env).2.log
      (.ttyTransmit tty (bytes.take (firstChunk n)))).setTerminal tty
        { u.terminals tty with
          writeBuffer := some bytes
          writeBufferLen := n
          writeBufferPosition := firstChunk n
          currentWriter := some s.currentProcess } := ⟨_, rfl⟩
    have live' : v.heap s.currentProcess = some b := by
      rw [isSent, isLocked]
      exact live
    obtain ⟨w, isBlocked⟩ : ∃ w : Kernel, w = (v.setPcb s.currentProcess
      { b with state := .blocked }).queueEnqueue env .blocked s.currentProcess := ⟨_, rfl⟩
    have left : Survives (w.dispatch (.ttyWriteDone tty n)) ↔ s.CanSwitch (s.queues .ready) := by
      have heap : w.heap = Function.update s.heap s.currentProcess
          (some { b with state := .blocked }) := by simp [isBlocked, isSent, isLocked]
      apply blocked_survives_iff live heap rfl
      all_goals simp [isBlocked, isSent, isLocked]
    simp only [reduceCtorEq, if_false, ← isSent, bind_assoc, pure_bind]
    rw [Survives.bind_of_ok (modifyPcb_live live'), ← isBlocked]
    exact left_survives_iff.trans left

theorem ttyWriteCall_survives_iff {target : Option TtyId}
    (live : s.heap s.currentProcess = some b) :
    Survives (do
      let result ← s.ttyWriteValid env tty buf n
      finish result (finishTtyWrite target)) ↔ TtyWriteReturns env s tty buf n := by
  rw [TtyWriteReturns]
  obtain ⟨u, isLogged⟩ : ∃ u : Kernel, u = s.log (.ttyWriteCalled s.currentProcess tty
    (s.userBytes s.currentProcess buf n)) := ⟨_, rfl⟩
  have same : u.terminals = s.terminals ∧ u.heap = s.heap ∧
      u.currentProcess = s.currentProcess := by
    rw [isLogged]
    exact ⟨rfl, rfl, rfl⟩
  by_cases taken : (s.terminals tty).inUse = true
  · rw [if_pos taken]
    obtain ⟨v, isQueued⟩ : ∃ v : Kernel, v = ((u.queueEnqueue env (.writers tty)
      s.currentProcess).setPcb s.currentProcess { b with state := .blocked }).queueEnqueue env
        .blocked s.currentProcess := ⟨_, rfl⟩
    have live' : (u.queueEnqueue env (.writers tty) s.currentProcess).heap s.currentProcess =
        some b := by
      rw [queueEnqueue_heap, same.2.1]
      exact live
    have left : Survives (v.dispatch (.ttyWriteLock tty buf n)) ↔
        s.CanSwitch (s.queues .ready) := by
      have heap : v.heap = Function.update s.heap s.currentProcess
          (some { b with state := .blocked }) := by simp [isQueued, isLogged]
      apply blocked_survives_iff live heap rfl
      all_goals simp [isQueued, isLogged]
    simp only [ttyWriteValid, ← isLogged, same.1, taken, if_true, bind_assoc, pure_bind]
    rw [Survives.bind_of_ok (modifyPcb_live live'), ← isQueued]
    exact left_survives_iff.trans left
  rw [if_neg taken]
  have live' : u.heap u.currentProcess = some b := by
    rw [same.2.1, same.2.2]
    exact live
  have locked := @ttyWriteLockedCall_survives_iff env u b tty buf n target live'
  simp only [ttyWriteValid, ← isLogged, same.1, taken, Bool.false_eq_true, if_false]
  rw [locked, isLogged]
  exact Iff.rfl

end

/-! ### After a context switch -/

/-- What the process with the PCB `b` finds when it gets the processor back, by the place where it
has left it. -/
def ResumeReturns (env : Env) (s : Kernel) (b : PCB) : Prop :=
  match b.kernelContext with
  | .unsaved => False
  | .kernelStart | .clockTrap | .delay | .ttyWriteDone .. => True
  | .fork child parent =>
      ∃ c, s.heap parent = some c ∧ (b.pid = c.pid → (s.heap child).isSome = true)
  | .wait statusPtr => ∀ z, s.zombieChild b.pid = some z → s.CanReap z statusPtr
  | .ttyRead _ buf _ => 0 < b.userContext.intReg 0 → ∀ block, b.ttyKernelReadBuf = some block →
      s.UserAccess Pte.writable buf (block.take b.kernelReadSize).length
  | .ttyWriteLock tty buf n => TtyLockedReturns env s tty buf n
  | .exit _ origin => origin ≠ .fatalTrap

theorem resume_survives_iff (live : s.heap s.currentProcess = some b) :
    Survives (s.resume env) ↔ ResumeReturns env s b := by
  rw [resume, Survives.bind_of_ok (deref_eq_ok.mpr live), ResumeReturns]
  cases b.kernelContext with
  | unsaved => exact iff_of_false Survives.not_error id
  | kernelStart => exact iff_of_true (restoreContext_survives live) trivial
  | clockTrap => exact iff_of_true (restoreContext_survives live) trivial
  | fork child parent =>
      refine Iff.trans (Survives.bind_of_survives fun t returned => ?_)
        (forkReturn_survives_iff live)
      obtain ⟨c, live'⟩ := forkReturn_live returned
      exact restoreContext_survives live'
  | delay => exact iff_of_true (returnToUser_survives live) trivial
  | wait statusPtr => exact waitResumed_survives_iff live
  | ttyRead tty buf n => exact unpackRead_survives_iff live
  | ttyWriteLock tty buf n => exact ttyWriteLockedCall_survives_iff live
  | ttyWriteDone tty n => exact iff_of_true (finishTtyWrite_survives live) trivial
  | exit frame origin =>
      cases origin with
      | fatalTrap => exact iff_of_false Survives.not_error fun other => other rfl
      | syscall => exact iff_of_true (Survives.ok _) fun same => by cases same
      | memoryTrap => exact iff_of_true (Survives.ok _) fun same => by cases same

end Kernel

end Yalnix
