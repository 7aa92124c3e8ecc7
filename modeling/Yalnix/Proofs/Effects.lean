/-
Module: Yalnix.Proofs.Effects
Purpose: What each primitive access does to the machine, and what a kernel path that came back must
  have done: one inversion lemma for each function whose body later proofs would otherwise unfold.
Trusted boundary: none
Main exports: modifyPcb_eq_ok, kcSwitch_eq_ok, dispatch_eq_ok, storeUser_eq_ok, queueEnqueue_queues
-/
import Yalnix.Sched

namespace Yalnix

/-- `CopyPT` succeeds or runs out of frames. -/
theorem Memory.copyPTEntries_status {src dst pt : PageTable} {entries : List Nat} {m m' : Memory}
    {status : Status} (h : Memory.copyPTEntries src entries m dst = (status, m', pt)) :
    status = .success ∨ status = .error := by
  induction entries generalizing m dst with
  | nil =>
      cases h
      exact Or.inl rfl
  | cons i rest inductionHypothesis =>
      unfold Memory.copyPTEntries at h
      split at h
      · split at h
        · cases h
          exact Or.inr rfl
        · exact inductionHypothesis h
      · exact inductionHypothesis h

namespace Kernel

variable {env : Env} {s s' : Kernel}

/-! ### Memory cells -/

theorem deref_eq_ok {p : PcbPtr} {b : PCB} : s.deref p = .ok b ↔ s.heap p = some b := by
  unfold deref
  rcases s.heap p with missing | found
  · simp
  · simp

theorem modifyPcb_eq_ok {p : PcbPtr} {f : PCB → PCB} :
    s.modifyPcb p f = .ok s' ↔ ∃ b, s.heap p = some b ∧ s' = s.setPcb p (f b) := by
  simp only [modifyPcb, bind_eq_ok, deref_eq_ok, pure_eq_ok]
  constructor
  · rintro ⟨b, found, rfl⟩
    exact ⟨b, found, rfl⟩
  · rintro ⟨b, found, rfl⟩
    exact ⟨b, found, rfl⟩

theorem saveContext_eq_ok :
    s.saveContext = .ok s' ↔ ∃ b, s.heap s.currentProcess = some b ∧
      s' = s.setPcb s.currentProcess { b with userContext := s.ctx } := modifyPcb_eq_ok

theorem restoreContext_eq_ok :
    s.restoreContext = .ok s' ↔ ∃ b, s.heap s.currentProcess = some b ∧
      s' = { s with ctx := b.userContext, mode := .user } := by
  simp only [restoreContext, bind_eq_ok, deref_eq_ok, pure_eq_ok]
  constructor
  · rintro ⟨b, found, rfl⟩
    exact ⟨b, found, rfl⟩
  · rintro ⟨b, found, rfl⟩
    exact ⟨b, found, rfl⟩

theorem returnToUser_eq_ok {rc : Int} :
    s.returnToUser rc = .ok s' ↔ ∃ b, s.heap s.currentProcess = some b ∧
      s' = { s with ctx := b.userContext.setReturn rc, mode := .user } := by
  simp only [returnToUser, bind_eq_ok, restoreContext_eq_ok, pure_eq_ok]
  constructor
  · rintro ⟨_, ⟨b, found, rfl⟩, rfl⟩
    exact ⟨b, found, rfl⟩
  · rintro ⟨b, found, rfl⟩
    exact ⟨_, ⟨b, found, rfl⟩, rfl⟩

/-! ### Queues -/

/-- The one field besides the queue that an enqueueing changes is the count of allocations. -/
theorem queueEnqueue_eq (q : QueueId) (p : PcbPtr) :
    s.queueEnqueue env q p =
      { s with
        mallocCalls := s.mallocCalls + 1
        queues := Function.update s.queues q
          (if env.mallocOk s.mallocCalls then s.queues q ++ [p] else s.queues q) } := by
  unfold queueEnqueue malloc
  by_cases allocated : env.mallocOk s.mallocCalls = true
  · simp [allocated, setQueue]
  · simp [allocated]

@[simp] theorem queueEnqueue_queues (q : QueueId) (p : PcbPtr) :
    (s.queueEnqueue env q p).queues = Function.update s.queues q
      (if env.mallocOk s.mallocCalls then s.queues q ++ [p] else s.queues q) := by
  rw [queueEnqueue_eq]

section
variable (q : QueueId) (p : PcbPtr)

@[simp] theorem queueEnqueue_mallocCalls :
    (s.queueEnqueue env q p).mallocCalls = s.mallocCalls + 1 := by rw [queueEnqueue_eq]
@[simp] theorem queueEnqueue_mem : (s.queueEnqueue env q p).mem = s.mem := by rw [queueEnqueue_eq]
@[simp] theorem queueEnqueue_heap : (s.queueEnqueue env q p).heap = s.heap := by
  rw [queueEnqueue_eq]
@[simp] theorem queueEnqueue_terminals : (s.queueEnqueue env q p).terminals = s.terminals := by
  rw [queueEnqueue_eq]
@[simp] theorem queueEnqueue_idleProc : (s.queueEnqueue env q p).idleProc = s.idleProc := by
  rw [queueEnqueue_eq]
@[simp] theorem queueEnqueue_currentProcess :
    (s.queueEnqueue env q p).currentProcess = s.currentProcess := by rw [queueEnqueue_eq]
@[simp] theorem queueEnqueue_ptbr1 : (s.queueEnqueue env q p).ptbr1 = s.ptbr1 := by
  rw [queueEnqueue_eq]
@[simp] theorem queueEnqueue_ctx : (s.queueEnqueue env q p).ctx = s.ctx := by
  rw [queueEnqueue_eq]
@[simp] theorem queueEnqueue_mode : (s.queueEnqueue env q p).mode = s.mode := by
  rw [queueEnqueue_eq]
@[simp] theorem queueEnqueue_history : (s.queueEnqueue env q p).history = s.history := by
  rw [queueEnqueue_eq]

end

/-! ### Kernel context switches -/

/-- Everything a context switch does. -/
theorem kcSwitch_eq_ok {kc : KernelContext} {curr next : PcbPtr}
    (h : s.kcSwitch kc curr next = .ok s') :
    ∃ c n kstack, s.heap curr = some c ∧
      (s.setPcb curr { c with kernelContext := kc }).heap next = some n ∧
      n.kstack = some kstack ∧
      s' =
        { (s.setPcb curr { c with kernelContext := kc }).setPcb next
            { n with state := .running } with
          mem :=
            { s.mem with
              ptRegion0 := fun vpn =>
                if kstackStartPage ≤ vpn ∧ vpn < kstackStartPage + kstackPages then
                  kstack (vpn - kstackStartPage)
                else s.mem.ptRegion0 vpn }
          currentProcess := next
          mode := .kernel
          ptbr1 := next
          ptlr1 := n.ptlr } := by
  simp only [kcSwitch, bind_eq_ok, modifyPcb_eq_ok, deref_eq_ok] at h
  obtain ⟨_, ⟨c, currLive, rfl⟩, n, nextLive, h⟩ := h
  rcases kstackCase : n.kstack with missing | kstack
  · rw [kstackCase] at h
    cases h
  · rw [kstackCase] at h
    simp only [bind_eq_ok, modifyPcb_eq_ok, pure_eq_ok] at h
    obtain ⟨_, ⟨n', nextLive', rfl⟩, rfl⟩ := h
    have same : n' = n := by
      have : some n' = some n := nextLive'.symm.trans nextLive
      exact Option.some.inj this
    subst same
    exact ⟨c, n', kstack, currLive, nextLive, kstackCase, rfl⟩

/-- `dispatch` switches to the head of the ready queue, or to idle when it is empty. -/
theorem dispatch_eq_ok {kc : KernelContext} (h : s.dispatch kc = .ok s') :
    (∃ next rest, s.queues .ready = next :: rest ∧
      (s.setQueue .ready rest).kcSwitch kc s.currentProcess next = .ok s') ∨
    (s.queues .ready = [] ∧ s.kcSwitch kc s.currentProcess s.idleProc = .ok s') := by
  unfold dispatch nextToRun queueDequeue at h
  rcases readyCase : s.queues .ready with _ | ⟨next, rest⟩
  · rw [readyCase] at h
    exact Or.inr ⟨rfl, h⟩
  · rw [readyCase] at h
    exact Or.inl ⟨next, rest, rfl, h⟩

/-! ### User memory -/

theorem storeUser_eq_ok {va : Word} {bytes : List Byte} :
    s.storeUser va bytes = .ok s' ↔ ∃ b m, s.heap s.ptbr1 = some b ∧
      s.mem.storeRange b.ptbr va.toNat bytes = .ok m ∧ s' = s.setMem m := by
  simp only [storeUser, bind_eq_ok, deref_eq_ok, pure_eq_ok]
  constructor
  · rintro ⟨b, found, m, stored, rfl⟩
    exact ⟨b, m, found, stored, rfl⟩
  · rintro ⟨b, m, found, stored, rfl⟩
    exact ⟨b, found, m, stored, rfl⟩

theorem loadUser_eq_ok {va : Word} {n : Nat} {bytes : List Byte} :
    s.loadUser va n = .ok bytes ↔ ∃ b, s.heap s.ptbr1 = some b ∧
      s.mem.loadRange b.ptbr va.toNat n = .ok bytes := by
  simp only [loadUser, bind_eq_ok, deref_eq_ok]

/-! ### Creating processes -/

/-- `getFreePCB` either finds no slot or hands out the next PCB. -/
theorem getFreePCB_eq_ok {slot : Option PcbPtr} (h : s.getFreePCB env = .ok (slot, s')) :
    (slot = none ∧ s' = s) ∨
      ∃ i, s.freeSlot = some i ∧ slot = some s.nextPcb ∧
        s' =
          ({ s with
            mallocCalls := s.mallocCalls + 3
            nextPcb := s.nextPcb + 1
            procTable := Function.update s.procTable i (some s.nextPcb)
            pidCalls := s.pidCalls + 1 }.setPcb s.nextPcb
              { PCB.fresh with
                state := .running
                pid := env.helperNewPid s.pidCalls }).setQueue (.children s.nextPcb) [] := by
  unfold getFreePCB at h
  rcases slotCase : s.freeSlot with _ | i
  · rw [slotCase] at h
    cases h
    exact Or.inl ⟨rfl, rfl⟩
  · rw [slotCase] at h
    right
    by_cases pcbOk : env.mallocOk s.mallocCalls = true
    · by_cases ptbrOk : env.mallocOk (s.mallocCalls + 1) = true
      · by_cases childrenOk : env.mallocOk (s.mallocCalls + 1 + 1) = true
        · simp only [allocNewPCB, malloc, pcbOk, ptbrOk, childrenOk, Bool.not_true,
            Bool.false_eq_true, if_false, bind_eq_ok, modifyPcb_eq_ok, pure_eq_ok] at h
          obtain ⟨_, ⟨b, found, rfl⟩, h⟩ := h
          cases h
          simp only [setQueue_heap, setPcb_heap, Function.update_self, Option.some.injEq] at found
          subst found
          exact ⟨i, rfl, rfl, by simp [setPcb, setQueue]⟩
        · simp [allocNewPCB, malloc, pcbOk, ptbrOk, childrenOk] at h
      · simp [allocNewPCB, malloc, pcbOk, ptbrOk] at h
    · simp [allocNewPCB, malloc, pcbOk] at h

theorem copyPT_eq_ok {src dst : PcbPtr} {status : Status}
    (h : s.copyPT src dst = .ok (status, s')) :
    ∃ srcPcb dstPcb m pt, s.heap src = some srcPcb ∧ s.heap dst = some dstPcb ∧
      Memory.copyPTEntries srcPcb.ptbr (List.range maxPtLen) s.mem dstPcb.ptbr =
        (status, m, pt) ∧
      s' = (s.setMem m).setPcb dst { dstPcb with ptbr := pt } := by
  simp only [copyPT, bind_eq_ok, deref_eq_ok, pure_eq_ok] at h
  obtain ⟨srcPcb, srcLive, dstPcb, dstLive, h⟩ := h
  cases h
  exact ⟨srcPcb, dstPcb, _, _, srcLive, dstLive, rfl, rfl⟩

theorem initializeKernelStackProcess_eq_ok {kstack : Option PageTable}
    (h : s.initializeKernelStackProcess env = .ok (kstack, s')) :
    (kstack = none ∧ s' = { s with mallocCalls := s.mallocCalls + 1 }) ∨
      ∃ m pages, initKernelStackPages kstackPages 0 s.mem (fun _ => Pte.zero) = .ok (m, pages) ∧
        kstack = some pages ∧
        s' = { s with mallocCalls := s.mallocCalls + 1, mem := m } := by
  by_cases allocated : env.mallocOk s.mallocCalls = true
  · simp only [initializeKernelStackProcess, malloc, allocated, Bool.not_true, Bool.false_eq_true,
      if_false, bind_eq_ok, pure_eq_ok] at h
    obtain ⟨⟨m, pages⟩, filled, h⟩ := h
    cases h
    exact Or.inr ⟨m, pages, filled, rfl, rfl⟩
  · simp only [initializeKernelStackProcess, malloc, allocated, Bool.not_false, if_true] at h
    cases h
    exact Or.inl ⟨rfl, rfl⟩

/-- `KCCopy` into a PCB that has no kernel stack yet. -/
theorem kcCopy_eq_ok {kc : KernelContext} {new : PcbPtr} {n : PCB}
    (newLive : s.heap new = some n) (noStack : n.kstack = none)
    (other : s.currentProcess ≠ new) (h : s.kcCopy env kc new = .ok s') :
    ∃ m pages c current,
      initKernelStackPages kstackPages 0 s.mem (fun _ => Pte.zero) = .ok (m, pages) ∧
      s.heap s.currentProcess = some c ∧ c.kstack = some current ∧
      s' =
        { s with
          mallocCalls := s.mallocCalls + 1
          mem := copyKernelStack current pages m }.setPcb new
            { n with kernelContext := kc, kstack := some pages } := by
  simp only [kcCopy, bind_eq_ok, modifyPcb_eq_ok, deref_eq_ok] at h
  obtain ⟨_, ⟨n', live, rfl⟩, n'', live', h⟩ := h
  obtain rfl : n' = n := Option.some.inj (live.symm.trans newLive)
  have saved : { n' with kernelContext := kc } = n'' := by
    simpa using live'
  have stillNone : n''.kstack = none := by
    rw [← saved]
    exact noStack
  simp only [stillNone, bind_eq_ok, modifyPcb_eq_ok, pure_eq_ok, deref_eq_ok] at h
  obtain ⟨⟨stack, s1⟩, prepared, _, ⟨n3, live3, rfl⟩, ⟨stack', s2⟩, paired, c, currentLive, h⟩ := h
  obtain ⟨rfl, rfl⟩ := Prod.mk.inj paired
  rcases initializeKernelStackProcess_eq_ok prepared with ⟨rfl, rfl⟩ | ⟨m, pages, filled, rfl, rfl⟩
  · cases h
  · obtain rfl : { n' with kernelContext := kc } = n3 := by
      simpa using live3
    rcases stackCase : c.kstack with _ | current
    · rw [stackCase] at h
      cases h
    · rw [stackCase] at h
      cases h
      refine ⟨m, pages, c, current, filled, ?_, stackCase, ?_⟩
      · simpa [Function.update_of_ne other] using currentLive
      · simp [setPcb, setMem]

/-! ### Wait -/

/-- Reaping stores the exit status, if it is asked for, unlinks the zombie and deletes it. -/
theorem reap_eq_ok {z : PcbPtr} {statusPtr : Word} {pid : Int}
    (h : s.reap z statusPtr = .ok (pid, s')) :
    ∃ b t, s.heap z = some b ∧ pid = b.pid ∧
      (statusPtr ≠ 0 ∧ s.storeUser statusPtr (intBytes b.exitStatus) = .ok t ∨
        statusPtr = 0 ∧ t = s) ∧
      ((t.queueRemove (.children t.currentProcess) z).queueRemove .zombie z).deletePCB z =
        .ok s' := by
  simp only [reap, bind_eq_ok, deref_eq_ok] at h
  obtain ⟨b, live, h⟩ := h
  by_cases target : statusPtr ≠ 0
  · rw [if_pos target] at h
    simp only [bind_eq_ok, pure_eq_ok] at h
    obtain ⟨t, stored, v, deleted, same⟩ := h
    obtain ⟨rfl, rfl⟩ := Prod.mk.inj same
    exact ⟨b, t, live, rfl, Or.inl ⟨target, stored⟩, deleted⟩
  · rw [if_neg target] at h
    simp only [bind_eq_ok, pure_eq_ok] at h
    obtain ⟨t, rfl, v, deleted, same⟩ := h
    obtain ⟨rfl, rfl⟩ := Prod.mk.inj same
    exact ⟨b, _, live, rfl, Or.inr ⟨not_not.mp target, rfl⟩, deleted⟩

/-! ### Fork -/

/-- The PCB that a successful `Fork` leaves for the child, given the parent's, the copied region 1
table and the child's kernel stack. -/
def forkedPcb (env : Env) (s : Kernel) (p : PCB) (pt pages : PageTable) : PCB :=
  { PCB.fresh with
    state := .ready
    pid := env.helperNewPid s.pidCalls
    ppid := p.pid
    userContext := p.userContext
    ptbr := pt
    kernelContext := .fork s.nextPcb s.currentProcess
    kstack := some pages }

/-- The parent's part of the end of `Fork`: its own pid always equals itself. -/
theorem forkReturn_parent_eq_ok {child : PcbPtr} {c : PCB} (childLive : s.heap child = some c)
    (other : s.currentProcess ≠ child) (h : s.forkReturn env child s.currentProcess = .ok s') :
    ∃ p, s.heap s.currentProcess = some p ∧
      s' =
        ((((s.setPcb child { c with state := .ready }).queueEnqueue env .ready child).queueEnqueue
          env (.children s.currentProcess) child).log
            (.forked s.currentProcess child c.pid)).setPcb s.currentProcess
              { p with userContext := p.userContext.setReturn c.pid } := by
  simp only [forkReturn, bind_eq_ok, deref_eq_ok] at h
  obtain ⟨p, parentLive, p', parentLive', h⟩ := h
  obtain rfl : p' = p := Option.some.inj (parentLive'.symm.trans parentLive)
  simp only [if_true, bind_eq_ok, modifyPcb_eq_ok, deref_eq_ok] at h
  obtain ⟨_, ⟨c', live, rfl⟩, c'', live', p'', parentLive'', rfl⟩ := h
  obtain rfl : c' = c := Option.some.inj (live.symm.trans childLive)
  obtain rfl : { c' with state := .ready } = c'' := by
    simpa using live'
  have same : p'' = p' := by
    simp only [log_heap, log_currentProcess, queueEnqueue_heap, queueEnqueue_currentProcess,
      setPcb_heap, setPcb_currentProcess, Function.update_of_ne other, parentLive] at parentLive''
    exact (Option.some.inj parentLive'').symm
  subst same
  exact ⟨p'', parentLive, by simp⟩

/-- Everything a successful `Fork` does, as the parent sees it return. -/
theorem fork_eq_ok (other : s.currentProcess ≠ s.nextPcb)
    (h : s.fork env = .ok (.success, s')) :
    ∃ i p m pt m' pages current,
      s.freeSlot = some i ∧ s.heap s.currentProcess = some p ∧
      Memory.copyPTEntries p.ptbr (List.range maxPtLen) s.mem (fun _ => Pte.zero) =
        (.success, m, pt) ∧
      initKernelStackPages kstackPages 0 m (fun _ => Pte.zero) = .ok (m', pages) ∧
      p.kstack = some current ∧
      s' =
        ((((({ s with
          mallocCalls := s.mallocCalls + 4
          nextPcb := s.nextPcb + 1
          procTable := Function.update s.procTable i (some s.nextPcb)
          pidCalls := s.pidCalls + 1
          mem := copyKernelStack current pages m' }.setPcb s.nextPcb
            (forkedPcb env s p pt pages)).setQueue (.children s.nextPcb) []).queueEnqueue env
              .ready s.nextPcb).queueEnqueue env (.children s.currentProcess) s.nextPcb).log
                (.forked s.currentProcess s.nextPcb (env.helperNewPid s.pidCalls))).setPcb
                  s.currentProcess
                  { p with
                    userContext := p.userContext.setReturn (env.helperNewPid s.pidCalls) } := by
  simp only [fork, bind_eq_ok] at h
  obtain ⟨⟨slot, s1⟩, found, h⟩ := h
  rcases getFreePCB_eq_ok found with ⟨rfl, rfl⟩ | ⟨i, free, rfl, rfl⟩
  · cases h
  · simp only [bind_eq_ok, deref_eq_ok, modifyPcb_eq_ok] at h
    obtain ⟨p, parentLive, _, ⟨c, childLive, rfl⟩, ⟨status, s2⟩, requested, h⟩ := h
    simp only [setQueue_heap, setPcb_heap, setQueue_currentProcess, setPcb_currentProcess,
      Function.update_of_ne other] at parentLive
    simp only [setQueue_heap, setPcb_heap, Function.update_self, Option.some.injEq] at childLive
    subst childLive
    obtain ⟨src, dst, m, pt, srcLive, dstLive, copied, rfl⟩ := copyPT_eq_ok requested
    simp only [setQueue_heap, setPcb_heap, setQueue_currentProcess, setPcb_currentProcess,
      Function.update_of_ne other] at srcLive
    obtain rfl : src = p := Option.some.inj (srcLive.symm.trans parentLive)
    simp only [setPcb_heap, Function.update_self, Option.some.injEq] at dstLive
    subst dstLive
    rcases Memory.copyPTEntries_status copied with rfl | rfl
    · simp only [reduceCtorEq, if_false, bind_eq_ok, pure_eq_ok] at h
      obtain ⟨s3, stacked, s4, returned, h⟩ := h
      obtain ⟨-, rfl⟩ := Prod.mk.inj h
      obtain ⟨m', pages, cur, current, filled, curLive, stackLive, rfl⟩ :=
        kcCopy_eq_ok (Function.update_self ..) rfl (by simpa using other) stacked
      simp only [setPcb_heap, setMem_heap, setQueue_heap, setPcb_currentProcess,
        setMem_currentProcess, setQueue_currentProcess, Function.update_of_ne other] at curLive
      obtain rfl : cur = src := Option.some.inj (curLive.symm.trans parentLive)
      obtain ⟨p', parentLive', rfl⟩ :=
        forkReturn_parent_eq_ok (Function.update_self ..) (by simpa using other) returned
      simp only [setPcb_heap, setMem_heap, setQueue_heap, setPcb_currentProcess,
        setMem_currentProcess, setQueue_currentProcess, Function.update_of_ne other] at parentLive'
      obtain rfl : p' = cur := Option.some.inj (parentLive'.symm.trans parentLive)
      refine ⟨i, p', m, pt, m', pages, current, free, parentLive, copied, filled, stackLive, ?_⟩
      simp [setPcb, setQueue, setMem, forkedPcb, queueEnqueue_eq, log, PCB.fresh]
    · cases h

theorem fork_status {status : Status} (h : s.fork env = .ok (status, s')) :
    status = .success ∨ status = .error := by
  simp only [fork, bind_eq_ok] at h
  obtain ⟨⟨slot, t⟩, -, h⟩ := h
  rcases slot with _ | child
  · cases h
    exact Or.inr rfl
  · simp only [bind_eq_ok] at h
    obtain ⟨p, -, u, -, ⟨copied, v⟩, -, h⟩ := h
    by_cases failed : copied = .error
    · rw [if_pos failed] at h
      cases h
      exact Or.inr rfl
    · rw [if_neg failed] at h
      simp only [bind_eq_ok, pure_eq_ok] at h
      obtain ⟨w, -, x, -, h⟩ := h
      cases h
      exact Or.inl rfl

/-! ### The clock -/

/-- A visit of the clock handler leaves an undelayed process alone, counts a delay down, or ends
it. -/
theorem trapHandlerHelper_eq_ok {p : PcbPtr} (h : s.trapHandlerHelper env p = .ok s') :
    ∃ b, s.heap p = some b ∧
      (b.delayTicks ≤ 0 ∧ s' = s ∨
      1 < b.delayTicks ∧ s' = s.setPcb p { b with delayTicks := b.delayTicks - 1 } ∨
      b.delayTicks = 1 ∧ s' =
        ((s.setPcb p { b with delayTicks := 0, state := .ready }).queueRemove .blocked
          p).queueEnqueue env .ready p) := by
  simp only [trapHandlerHelper, bind_eq_ok, deref_eq_ok] at h
  obtain ⟨b, live, h⟩ := h
  refine ⟨b, live, ?_⟩
  by_cases delayed : 0 < b.delayTicks
  · rw [if_pos delayed] at h
    simp only [bind_eq_ok, modifyPcb_eq_ok] at h
    obtain ⟨_, ⟨c, live', rfl⟩, h⟩ := h
    obtain rfl : c = b := Option.some.inj (live'.symm.trans live)
    by_cases last : c.delayTicks - 1 = 0
    · rw [if_pos last] at h
      simp only [bind_eq_ok, modifyPcb_eq_ok, pure_eq_ok] at h
      obtain ⟨_, ⟨d, live'', rfl⟩, rfl⟩ := h
      simp only [queueRemove_heap, setPcb_heap, Function.update_self, Option.some.injEq] at live''
      subst live''
      refine Or.inr (Or.inr ⟨by omega, ?_⟩)
      simp [setPcb, queueRemove, setQueue, last]
    · rw [if_neg last] at h
      cases h
      exact Or.inr (Or.inl ⟨by omega, rfl⟩)
  · rw [if_neg delayed] at h
    cases h
    exact Or.inl ⟨by omega, rfl⟩

/-- The clock handler counts the delays down and gives the processor to the next ready process, if
there is one. -/
theorem clockTrapHandler_eq_ok (h : s.clockTrapHandler env = .ok s') :
    ∃ t u, s.saveContext = .ok t ∧ iterateBlocked env (t.queues .blocked) t = .ok u ∧
      ((u.queues .ready = [] ∧ u.restoreContext = .ok s') ∨
      ∃ next rest c, u.queues .ready = next :: rest ∧ u.heap s.currentProcess = some c ∧
        ((c.state = .running ∧ c.pid ≠ 0 ∧ ∃ v,
            (u.setQueue .ready rest).modifyPcb s.currentProcess
              (fun b => { b with state := .ready }) = .ok v ∧
            (v.queueEnqueue env .ready s.currentProcess).kcSwitch .clockTrap s.currentProcess
              next = .ok s') ∨
          (¬ (c.state = .running ∧ c.pid ≠ 0) ∧
            (u.setQueue .ready rest).kcSwitch .clockTrap s.currentProcess next = .ok s'))) := by
  simp only [clockTrapHandler, bind_eq_ok] at h
  obtain ⟨t, saved, u, iterated, h⟩ := h
  refine ⟨t, u, saved, iterated, ?_⟩
  unfold queueDequeue at h
  rcases ready : u.queues .ready with _ | ⟨next, rest⟩
  · rw [ready] at h
    exact Or.inl ⟨rfl, h⟩
  · rw [ready] at h
    simp only [bind_eq_ok, deref_eq_ok] at h
    obtain ⟨c, live, h⟩ := h
    refine Or.inr ⟨next, rest, c, rfl, live, ?_⟩
    by_cases keep : c.state = .running ∧ c.pid ≠ 0
    · rw [if_pos keep] at h
      simp only [bind_eq_ok, pure_eq_ok] at h
      obtain ⟨v, readied, _, rfl, h⟩ := h
      exact Or.inl ⟨keep.1, keep.2, v, readied, h⟩
    · rw [if_neg keep] at h
      simp only [bind_eq_ok, pure_eq_ok] at h
      obtain ⟨_, rfl, h⟩ := h
      exact Or.inr ⟨keep, h⟩

/-! ### Terminals -/

/-- The length of the first chunk of a write. -/
def firstChunk (len : Nat) : Nat := if terminalMaxLine < len then terminalMaxLine else len

/-- `BeginTtyTransmit` either finds no memory or hands over the first chunk. -/
theorem beginTtyTransmit_eq_ok {tty : TtyId} {writer : PcbPtr} {buf : Word} {len : Nat}
    {status : Status} (h : s.beginTtyTransmit env tty writer buf len = .ok (status, s')) :
    (env.mallocOk s.mallocCalls = false ∧ status = .error ∧
      ((s.malloc env).2.setTerminal tty
        { s.terminals tty with writeBuffer := none }).modifyPcb writer
          (fun b => { b with userContext := b.userContext.setReturn Status.error.code }) =
        .ok s') ∨
    (env.mallocOk s.mallocCalls = true ∧ status = .success ∧
      ∃ bytes, s.loadUser buf len = .ok bytes ∧
        s' =
          ((s.malloc env).2.log
            (.ttyTransmit tty (bytes.take (firstChunk len)))).setTerminal tty
              { s.terminals tty with
                writeBuffer := some bytes
                writeBufferLen := len
                writeBufferPosition := firstChunk len
                currentWriter := some writer }) := by
  by_cases allocated : env.mallocOk s.mallocCalls = true
  · simp only [beginTtyTransmit, malloc_fst, allocated, Bool.not_true, Bool.false_eq_true, if_false,
      bind_eq_ok, pure_eq_ok] at h
    obtain ⟨bytes, loaded, h⟩ := h
    cases h
    refine Or.inr ⟨allocated, rfl, bytes, loaded, ?_⟩
    simp [ttyTransmit, setTerminal, log, firstChunk]
  · have failed : env.mallocOk s.mallocCalls = false := by simpa using allocated
    simp only [beginTtyTransmit, malloc_fst, failed, Bool.not_false, if_true, bind_eq_ok,
      pure_eq_ok] at h
    obtain ⟨t, marked, h⟩ := h
    cases h
    exact Or.inl ⟨failed, rfl, marked⟩

/-- The machine once `BeginTtyTransmit` found no memory for the writer `b` and the terminal is free
again. -/
def refuseWrite (env : Env) (s : Kernel) (tty : TtyId) (b : PCB) : Kernel :=
  ((s.malloc env).2.setTerminal tty
    { s.terminals tty with writeBuffer := none, inUse := false }).setPcb s.currentProcess
      { b with userContext := b.userContext.setReturn Status.error.code }

/-- The machine once the writer `b` has handed over its first chunk and is blocked. -/
def beginWrite (env : Env) (s : Kernel) (tty : TtyId) (bytes : List Byte) (len : Nat) (b : PCB) :
    Kernel :=
  ((((s.malloc env).2.log (.ttyTransmit tty (bytes.take (firstChunk len)))).setTerminal tty
    { s.terminals tty with
      writeBuffer := some bytes
      writeBufferLen := len
      writeBufferPosition := firstChunk len
      currentWriter := some s.currentProcess
      inUse := true }).setPcb s.currentProcess { b with state := .blocked }).queueEnqueue env
        .blocked s.currentProcess

/-- With the terminal its own, the writer finds no memory, and the next writer is made ready, or it
blocks until its last chunk is through. -/
theorem ttyWriteLocked_eq_ok {tty : TtyId} {buf : Word} {len : Nat} {result : Option Int × Kernel}
    (h : s.ttyWriteLocked env tty buf len = .ok result) :
    ∃ b, s.heap s.currentProcess = some b ∧
      ((env.mallocOk s.mallocCalls = false ∧ s.queues (.writers tty) = [] ∧
        result = (some Status.error.code, s.refuseWrite env tty b)) ∨
      (env.mallocOk s.mallocCalls = false ∧ ∃ next rest t,
        s.queues (.writers tty) = next :: rest ∧
        ((s.refuseWrite env tty b).setQueue (.writers tty) rest).modifyPcb next
          (fun b => { b with state := .ready }) = .ok t ∧
        result = (some Status.error.code, t.queueEnqueue env .ready next)) ∨
      (env.mallocOk s.mallocCalls = true ∧ ∃ bytes u, s.loadUser buf len = .ok bytes ∧
        (s.beginWrite env tty bytes len b).dispatch (.ttyWriteDone tty len) = .ok u ∧
        result = (none, u))) := by
  simp only [ttyWriteLocked, bind_eq_ok] at h
  obtain ⟨⟨status, t⟩, begun, h⟩ := h
  rcases beginTtyTransmit_eq_ok begun with ⟨failed, rfl, marked⟩ | ⟨allocated, rfl, handed⟩
  · obtain ⟨b, live, written⟩ := modifyPcb_eq_ok.mp marked
    have refused : t.setTerminal tty { t.terminals tty with inUse := false } =
        s.refuseWrite env tty b := by
      rw [written]
      simp [refuseWrite, setTerminal, setPcb]
    refine ⟨b, live, ?_⟩
    simp only [if_true, refused] at h
    have queue : (s.refuseWrite env tty b).queues (.writers tty) = s.queues (.writers tty) := rfl
    unfold queueDequeue at h
    rcases writers : s.queues (.writers tty) with _ | ⟨next, rest⟩
    · rw [queue, writers] at h
      cases h
      exact Or.inl ⟨failed, rfl, rfl⟩
    · rw [queue, writers] at h
      simp only [bind_eq_ok, pure_eq_ok] at h
      obtain ⟨u, readied, rfl⟩ := h
      exact Or.inr (Or.inl ⟨failed, next, rest, u, rfl, readied, rfl⟩)
  · obtain ⟨bytes, loaded, written⟩ := handed
    simp only [reduceCtorEq, if_false, bind_eq_ok, pure_eq_ok] at h
    obtain ⟨v, blocked, u, switched, rfl⟩ := h
    obtain ⟨b, live, rfl⟩ := modifyPcb_eq_ok.mp blocked
    have heap : t.heap = s.heap := by
      rw [written]
      rfl
    rw [heap] at live
    have started : (t.setPcb s.currentProcess { b with state := .blocked }).queueEnqueue env
        .blocked s.currentProcess = s.beginWrite env tty bytes len b := by
      rw [written]
      simp [beginWrite, setTerminal, setPcb, log, malloc]
    rw [started] at switched
    exact ⟨b, live, Or.inr (Or.inr ⟨allocated, bytes, u, loaded, switched, rfl⟩)⟩

/-- The end of `TtyTrapTransmitHandler`: the next writer is made ready, or the terminal is free. -/
inductive HandOver (env : Env) (s : Kernel) (tty : TtyId) : Kernel → Prop where
  | free (none : s.queues (.writers tty) = []) :
      HandOver env s tty (s.setTerminal tty { s.terminals tty with inUse := false })
  | next {next : PcbPtr} {rest : List PcbPtr} {t : Kernel}
      (writers : s.queues (.writers tty) = next :: rest)
      (readied : (s.setQueue (.writers tty) rest).modifyPcb next
        (fun b => { b with state := .ready }) = .ok t) :
      HandOver env s tty ((t.queueRemove .blocked next).queueEnqueue env .ready next)

/-- The machine once the write buffer of a terminal was given back. -/
def clearWrite (s : Kernel) (tty : TtyId) : Kernel :=
  s.setTerminal tty
    { s.terminals tty with
      writeBuffer := none
      writeBufferLen := 0
      writeBufferPosition := 0
      currentWriter := none }

/-- The machine once the next chunk of a write was handed over. -/
def nextChunk (s : Kernel) (tty : TtyId) : Kernel :=
  (s.ttyTransmit tty (s.terminals tty).writeBufferPosition
    (firstChunk ((s.terminals tty).writeBufferLen -
      (s.terminals tty).writeBufferPosition))).setTerminal tty
        { s.terminals tty with
          writeBufferPosition := (s.terminals tty).writeBufferPosition +
            firstChunk ((s.terminals tty).writeBufferLen -
              (s.terminals tty).writeBufferPosition) }

/-- What `TtyTrapTransmitHandler` does: the next chunk, or, once all are through, the writer wakes
up and the terminal is handed over. -/
inductive TransmitTrap (env : Env) (s : Kernel) (tty : TtyId) : Kernel → Prop where
  | chunk (left : (s.terminals tty).writeBufferPosition < (s.terminals tty).writeBufferLen) :
      TransmitTrap env s tty (s.nextChunk tty)
  | unowned {s' : Kernel}
      (through : ¬ (s.terminals tty).writeBufferPosition < (s.terminals tty).writeBufferLen)
      (none : (s.terminals tty).currentWriter = none)
      (handed : HandOver env (s.clearWrite tty) tty s') : TransmitTrap env s tty s'
  | owned {writer : PcbPtr} {t s' : Kernel}
      (through : ¬ (s.terminals tty).writeBufferPosition < (s.terminals tty).writeBufferLen)
      (some : (s.terminals tty).currentWriter = some writer)
      (woken : (s.clearWrite tty).modifyPcb writer (fun b =>
        { b with
          state := .ready
          userContext := b.userContext.setReturn (s.terminals tty).writeBufferLen }) = .ok t)
      (handed : HandOver env ((t.queueRemove .blocked writer).queueEnqueue env .ready writer) tty
        s') : TransmitTrap env s tty s'

theorem handOver_eq_ok {tty : TtyId}
    (h : (match s.queueDequeue (.writers tty) with
        | (some nextWriter, s) => do
            let s ← s.modifyPcb nextWriter fun b => { b with state := .ready }
            let s := s.queueRemove .blocked nextWriter
            return s.queueEnqueue env .ready nextWriter
        | (none, s) => return s.setTerminal tty { s.terminals tty with inUse := false }) =
        .ok s') : HandOver env s tty s' := by
  unfold queueDequeue at h
  rcases writers : s.queues (.writers tty) with _ | ⟨next, rest⟩
  · rw [writers] at h
    cases h
    exact .free writers
  · rw [writers] at h
    simp only [bind_eq_ok, pure_eq_ok] at h
    obtain ⟨u, readied, rfl⟩ := h
    exact .next writers readied

theorem ttyTrapTransmitHandler_eq_ok {tty : TtyId} (h : s.ttyTrapTransmitHandler env tty = .ok s') :
    TransmitTrap env (s.log (.ttyTransmitTrap tty)) tty s' := by
  simp only [ttyTrapTransmitHandler, log_terminals] at h
  by_cases more : (s.terminals tty).writeBufferPosition < (s.terminals tty).writeBufferLen
  · rw [if_pos more] at h
    cases h
    exact .chunk more
  · rw [if_neg more] at h
    rcases writer : (s.terminals tty).currentWriter with _ | w
    · simp only [writer, bind_eq_ok, pure_eq_ok] at h
      obtain ⟨_, rfl, h⟩ := h
      exact .unowned more writer (handOver_eq_ok h)
    · simp only [writer, bind_eq_ok, pure_eq_ok] at h
      obtain ⟨u, woken, _, rfl, h⟩ := h
      exact .owned more writer woken (handOver_eq_ok h)

/-- `TtyRead` with valid arguments takes bytes from the read buffer, finds no memory for them, or
blocks. -/
theorem ttyReadValid_eq_ok {tty : TtyId} {buf : Word} {len : Nat} {result : Option Int × Kernel}
    (h : s.ttyReadValid env tty buf len = .ok result) :
    (0 < (s.terminals tty).readBufferLen ∧ env.mallocOk s.mallocCalls = false ∧
      result = (some Status.error.code, (s.malloc env).2)) ∨
    (0 < (s.terminals tty).readBufferLen ∧ env.mallocOk s.mallocCalls = true ∧
      ∃ n b, n = min (s.terminals tty).readBufferLen len ∧ s.heap s.currentProcess = some b ∧
        result = (some (n : Int),
          (((s.malloc env).2.setPcb s.currentProcess
            { b with
              ttyKernelReadBuf := some ((s.terminals tty).readBuffer.take n)
              kernelReadSize := n }).log
            (.ttyReadTaken s.currentProcess tty ((s.terminals tty).readBuffer.take n))).setTerminal
              tty ((s.terminals tty).shiftRead n))) ∨
    ((s.terminals tty).readBufferLen = 0 ∧ ∃ t u,
      (((s.log (.ttyReadBlocked s.currentProcess tty (env.mallocOk s.mallocCalls))).queueEnqueue
        env (.readers tty) s.currentProcess).queueEnqueue env .blocked s.currentProcess).modifyPcb
          s.currentProcess
          (fun b => { b with state := .blocked, ttyReadBuf := buf, ttyReadLen := len }) = .ok t ∧
      t.dispatch (.ttyRead tty buf len) = .ok u ∧ result = (none, u)) := by
  unfold ttyReadValid at h
  by_cases available : 0 < (s.terminals tty).readBufferLen
  · simp only [available, if_true, malloc_fst] at h
    by_cases allocated : env.mallocOk s.mallocCalls = true
    · simp only [allocated, Bool.not_true, Bool.false_eq_true, if_false, bind_eq_ok,
        modifyPcb_eq_ok, pure_eq_ok] at h
      obtain ⟨_, ⟨b, live, rfl⟩, rfl⟩ := h
      refine Or.inr (Or.inl ⟨available, allocated, _, b, rfl, live, ?_⟩)
      have amount : (if (s.terminals tty).readBufferLen < len then (s.terminals tty).readBufferLen
          else len) = min (s.terminals tty).readBufferLen len := by
        split <;> omega
      rw [amount]
    · have failed : env.mallocOk s.mallocCalls = false := by simpa using allocated
      simp only [failed, Bool.not_false, if_true] at h
      cases h
      exact Or.inl ⟨available, failed, rfl⟩
  · simp only [available, if_false, bind_eq_ok, pure_eq_ok] at h
    obtain ⟨t, parked, u, switched, rfl⟩ := h
    exact Or.inr (Or.inr ⟨by omega, t, u, parked, switched, rfl⟩)

/-- How many bytes the receive handler gives to a blocked reader. -/
def readAmount (r : PCB) (terminal : Terminal) : Nat :=
  if r.ttyReadLen < terminal.readBufferLen then r.ttyReadLen else terminal.readBufferLen

/-- The machine once the reader at the head of the queue was taken out of it. -/
def unlinkReader (env : Env) (s : Kernel) (tty : TtyId) (reader : PcbPtr) (rest : List PcbPtr) :
    Kernel :=
  ((s.setQueue (.readers tty) rest).malloc env).2.log (.ttyReaderServed reader tty)

/-- A block of `n` bytes is parked in the PCB of a blocked reader. -/
def parkBlock (s : Kernel) (tty : TtyId) (reader : PcbPtr) (r : PCB) (n : Nat) : Kernel :=
  ((s.setPcb reader
    { r with
      ttyKernelReadBuf := some ((s.terminals tty).readBuffer.take n)
      kernelReadSize := n
      userContext := r.userContext.setReturn n }).log
    (.ttyReadTaken reader tty ((s.terminals tty).readBuffer.take n))).setTerminal tty
      ((s.terminals tty).shiftRead n)

/-- The machine once a served reader is ready again. -/
def readyReader (env : Env) (s : Kernel) (reader : PcbPtr) (r : PCB) : Kernel :=
  ((s.queueRemove .blocked reader).setPcb reader { r with state := .ready }).queueEnqueue env
    .ready reader

/-- Serving one blocked reader: with memory for the block it gets the bytes, without it gets
none. -/
theorem serveReaders_cons {tty : TtyId} {reader : PcbPtr} {rest : List PcbPtr}
    (available : (s.terminals tty).readBufferLen ≠ 0)
    (h : serveReaders env tty (reader :: rest) s = .ok s') :
    ∃ r, s.heap reader = some r ∧
      ((env.mallocOk s.mallocCalls = true ∧
        serveReaders env tty rest
          (readyReader env
            (parkBlock (unlinkReader env s tty reader rest) tty reader r
              (readAmount r (s.terminals tty))) reader
            { r with
              ttyKernelReadBuf :=
                some ((s.terminals tty).readBuffer.take (readAmount r (s.terminals tty)))
              kernelReadSize := readAmount r (s.terminals tty)
              userContext := r.userContext.setReturn (readAmount r (s.terminals tty)) }) =
          .ok s') ∨
      (env.mallocOk s.mallocCalls = false ∧
        serveReaders env tty rest
          (readyReader env
            ((unlinkReader env s tty reader rest).setPcb reader
              { r with userContext := r.userContext.setReturn 0 }) reader
            { r with userContext := r.userContext.setReturn 0 }) = .ok s')) := by
  unfold serveReaders at h
  rw [if_neg available] at h
  simp only [bind_eq_ok, deref_eq_ok, setQueue_heap, setQueue_terminals, malloc_fst,
    setQueue_mallocCalls] at h
  obtain ⟨r, live, h⟩ := h
  refine ⟨r, live, ?_⟩
  by_cases allocated : env.mallocOk s.mallocCalls = true
  · simp only [allocated, if_true, bind_eq_ok, modifyPcb_eq_ok, pure_eq_ok] at h
    obtain ⟨_, ⟨r', live', rfl⟩, _, rfl, _, ⟨r'', live'', rfl⟩, h⟩ := h
    obtain rfl : r' = r := Option.some.inj (live'.symm.trans live)
    simp only [queueRemove_heap, setTerminal_heap, log_heap, setPcb_heap, Function.update_self,
      Option.some.injEq] at live''
    subst live''
    exact Or.inl ⟨allocated, h⟩
  · have failed : env.mallocOk s.mallocCalls = false := by simpa using allocated
    simp only [failed, Bool.false_eq_true, if_false, bind_eq_ok, modifyPcb_eq_ok] at h
    obtain ⟨_, ⟨r', live', rfl⟩, _, ⟨r'', live'', rfl⟩, h⟩ := h
    obtain rfl : r' = r := Option.some.inj (live'.symm.trans live)
    simp only [queueRemove_heap, setPcb_heap, Function.update_self, Option.some.injEq] at live''
    subst live''
    exact Or.inr ⟨failed, h⟩

/-- The end of a `TtyRead` call either copies a parked block to the caller or copies nothing. -/
theorem unpackRead_eq_ok {tty : TtyId} {buf : Word} {len rc : Int}
    (h : s.unpackRead tty buf len rc = .ok s') :
    ∃ c, s.heap s.currentProcess = some c ∧
      ((∃ block t u, c.ttyKernelReadBuf = some block ∧ 0 < rc ∧
        s.storeUser buf (block.take c.kernelReadSize) = .ok t ∧
        t.modifyPcb s.currentProcess
          (fun b => { b with ttyKernelReadBuf := none, kernelReadSize := 0 }) = .ok u ∧
        (u.log (.ttyReadReturned s.currentProcess tty buf len rc)).returnToUser rc = .ok s') ∨
      ((c.ttyKernelReadBuf = none ∨ ¬ 0 < rc) ∧
        (s.log (.ttyReadReturned s.currentProcess tty buf len rc)).returnToUser rc = .ok s')) := by
  simp only [unpackRead, bind_eq_ok, deref_eq_ok] at h
  obtain ⟨c, live, h⟩ := h
  refine ⟨c, live, ?_⟩
  rcases parked : c.ttyKernelReadBuf with _ | block
  · simp only [parked, bind_eq_ok, pure_eq_ok] at h
    obtain ⟨_, rfl, h⟩ := h
    exact Or.inr ⟨Or.inl rfl, h⟩
  · by_cases positive : 0 < rc
    · simp only [parked, positive, if_true, bind_eq_ok] at h
      obtain ⟨t, stored, u, cleared, h⟩ := h
      exact Or.inl ⟨block, t, u, rfl, positive, stored, cleared, h⟩
    · simp only [parked, positive, if_false, bind_eq_ok, pure_eq_ok] at h
      obtain ⟨_, rfl, h⟩ := h
      exact Or.inr ⟨Or.inr positive, h⟩

/-! ### Terminal calls -/

theorem kernelTrapHandler_fork {req : LoadRequest} (code : s.ctx.code = yalnixFork) :
    s.kernelTrapHandler env req = s.trapFork env := by
  simp [kernelTrapHandler, code]

theorem kernelTrapHandler_ttyRead {req : LoadRequest} (code : s.ctx.code = yalnixTtyRead) :
    s.kernelTrapHandler env req = s.trapTtyRead env := by
  simp [kernelTrapHandler, code]

theorem kernelTrapHandler_ttyWrite {req : LoadRequest} (code : s.ctx.code = yalnixTtyWrite) :
    s.kernelTrapHandler env req = s.trapTtyWrite env := by
  simp [kernelTrapHandler, code]

/-! ### Loading a program -/

/-- The PCB as the loading loops find it. -/
def PCB.withStackPointer (b : PCB) (sp : Word) : PCB :=
  { b with userContext := { b.userContext with sp := sp } }

/-- Saving the user context does not change what the arguments are. -/
theorem argStrings_saveContext {argv : ArgVector} (h : s.saveContext = .ok s') :
    s'.argStrings argv = s.argStrings argv := by
  obtain ⟨b, live, rfl⟩ := saveContext_eq_ok.mp h
  cases argv with
  | commandLine words => rfl
  | user argv =>
      by_cases own : s.ptbr1 = s.currentProcess
      · simp [argStrings, deref, own, live, bind, Except.bind]
      · simp [argStrings, deref, own]

theorem argStrings_trap {ctx : UserContext} {argv : ArgVector} :
    (s.trap ctx).argStrings argv = s.argStrings argv := by
  cases argv with
  | commandLine words => rfl
  | user argv => rfl

/-- Nothing that the first loop over the arguments read changes before the second one. -/
theorem argStrings_malloc {argv : ArgVector} :
    (s.malloc env).2.argStrings argv = s.argStrings argv := by
  cases argv with
  | commandLine words => rfl
  | user argv => rfl

/-- An entry below region 1 is refused before anything else is looked at. -/
theorem loadPlan_foreign {li : LoadInfo} {args : List (List Byte)} {ptlr : Nat}
    (foreign : li.entry.toNat < vmem1Base) : loadPlan li args ptlr = none := if_pos foreign

/-- The program is refused when there is none, when it starts below region 1, or when its pages do
not fit. -/
theorem loadProgram_eq_error {req : LoadRequest} {argv : ArgVector} {p : PcbPtr} {b : PCB}
    (live : s.heap p = some b) (refused : ∀ li, req.info = some li → vmem1Base ≤ li.entry.toNat →
      ∃ args, s.argStrings argv = .ok args ∧ loadPlan li args b.ptlr = none) :
    s.loadProgram env req argv p = .ok (.error, s) := by
  simp only [loadProgram, bind_eq_ok, deref_eq_ok]
  refine ⟨b, live, ?_⟩
  rcases information : req.info with _ | li
  · rfl
  · by_cases foreign : li.entry.toNat < vmem1Base
    · simp only [if_pos foreign]
      rfl
    · obtain ⟨args, strings, planned⟩ := refused li information (Nat.le_of_not_lt foreign)
      simp only [if_neg foreign, bind_eq_ok]
      refine ⟨args, strings, ?_⟩
      simp only [planned]
      rfl

/-- The program is loaded when its pages fit, there is a buffer that its arguments fit in, and the
image is loaded. -/
theorem loadProgram_eq_success {req : LoadRequest} {argv : ArgVector} {p : PcbPtr} {b b' : PCB}
    {li : LoadInfo} {args : List (List Byte)} {plan : LoadPlan} {m : Memory}
    (live : s.heap p = some b) (information : req.info = some li)
    (strings : s.argStrings argv = .ok args) (planned : loadPlan li args b.ptlr = some plan)
    (allocated : env.mallocOk s.mallocCalls = true) (sized : argSize args = argBytes args)
    (image : loadImage req li plan (saveArgs args) s.mem (PCB.withStackPointer b plan.cpp) =
      .ok (.success, m, b')) :
    s.loadProgram env req argv p =
      .ok (.success, ((s.malloc env).2.setMem m).setPcb p b') := by
  have own : ¬ li.entry.toNat < vmem1Base := by
    intro foreign
    rw [loadPlan_foreign foreign] at planned
    cases planned
  have again : (s.malloc env).2.argStrings argv = .ok args := argStrings_malloc.trans strings
  simp only [loadProgram, bind_eq_ok, deref_eq_ok]
  refine ⟨b, live, ?_⟩
  simp only [information, if_neg own, bind_eq_ok]
  refine ⟨args, strings, ?_⟩
  simp only [planned, malloc_fst, allocated, Bool.not_true, Bool.false_eq_true, if_false, sized,
    ne_eq, not_true_eq_false, bind_eq_ok]
  exact ⟨args, again, _, image, rfl⟩

theorem loadProgram_eq_ok {req : LoadRequest} {argv : ArgVector} {p : PcbPtr} {status : Status}
    (h : s.loadProgram env req argv p = .ok (status, s')) :
    ∃ b, s.heap p = some b ∧
      ((status = .error ∧ s' = s ∧ ∀ li, req.info = some li → vmem1Base ≤ li.entry.toNat →
          ∃ args, s.argStrings argv = .ok args ∧ loadPlan li args b.ptlr = none) ∨
        ∃ li args plan, req.info = some li ∧ s.argStrings argv = .ok args ∧
          loadPlan li args b.ptlr = some plan ∧
          ((env.mallocOk s.mallocCalls = false ∧ status = .kill ∧
              s' = (s.malloc env).2.setPcb p (PCB.withStackPointer b plan.cpp)) ∨
            (env.mallocOk s.mallocCalls = true ∧ argSize args = argBytes args) ∧ ∃ m b',
              loadImage req li plan (saveArgs args) s.mem (PCB.withStackPointer b plan.cpp) =
                .ok (status, m, b') ∧
              s' = ((s.malloc env).2.setMem m).setPcb p b')) := by
  simp only [loadProgram, bind_eq_ok, deref_eq_ok] at h
  obtain ⟨b, live, h⟩ := h
  refine ⟨b, live, ?_⟩
  rcases information : req.info with _ | li
  · simp only [information] at h
    cases h
    exact Or.inl ⟨rfl, rfl, fun _ absent => by cases absent⟩
  · simp only [information] at h
    by_cases foreign : li.entry.toNat < vmem1Base
    · rw [if_pos foreign] at h
      cases h
      refine Or.inl ⟨rfl, rfl, ?_⟩
      intro li' same own
      obtain rfl := Option.some.inj same
      exact absurd foreign (Nat.not_lt.mpr own)
    rw [if_neg foreign, bind_eq_ok] at h
    obtain ⟨args, strings, h⟩ := h
    rcases planned : loadPlan li args b.ptlr with _ | plan
    · simp only [planned] at h
      cases h
      refine Or.inl ⟨rfl, rfl, ?_⟩
      intro li' same _
      obtain rfl := Option.some.inj same
      exact ⟨args, strings, planned⟩
    · simp only [planned, malloc_fst] at h
      refine Or.inr ⟨li, args, plan, rfl, strings, planned, ?_⟩
      by_cases allocated : env.mallocOk s.mallocCalls = true
      · simp only [allocated, Bool.not_true, Bool.false_eq_true, if_false] at h
        split at h
        · cases h
        · rename_i sized
          simp only [bind_eq_ok, pure_eq_ok] at h
          obtain ⟨saved, again, ⟨loaded, m, b'⟩, image, h⟩ := h
          rw [argStrings_malloc, strings] at again
          obtain rfl := Except.ok.inj again
          obtain ⟨rfl, rfl⟩ := Prod.mk.inj h
          exact Or.inr ⟨⟨allocated, not_ne_iff.mp sized⟩, m, b', image, rfl⟩
      · simp only [allocated, Bool.not_false, if_true] at h
        cases h
        exact Or.inl ⟨Bool.eq_false_iff.mpr allocated, rfl, rfl⟩

/-- `loadImage` writes the table, the context and the bounds of heap and stack. -/
theorem loadImage_pcb {req : LoadRequest} {li : LoadInfo} {plan : LoadPlan} {argbuf : ArgBuf}
    {m m' : Memory} {b b' : PCB} {status : Status}
    (h : loadImage req li plan argbuf m b = .ok (status, m', b')) :
    ∃ pt context heapStart heapEnd stackBase, b' =
      { b with
        ptbr := pt
        userContext := context
        userHeapStartVaddr := heapStart
        userHeapEndVaddr := heapEnd
        userStackBaseVaddr := stackBase } := by
  simp only [loadImage, bind_eq_ok] at h
  obtain ⟨⟨m1, pt⟩, -, ⟨textOk, m2⟩, -, h⟩ := h
  rcases textOk with _ | _
  · cases h
    exact ⟨pt, _, _, _, _, rfl⟩
  · simp only [Bool.not_true, Bool.false_eq_true, if_false, bind_eq_ok] at h
    obtain ⟨⟨dataOk, m3⟩, -, h⟩ := h
    rcases dataOk with _ | _
    · cases h
      exact ⟨pt, _, _, _, _, rfl⟩
    · simp only [Bool.not_true, Bool.false_eq_true, if_false, bind_eq_ok] at h
      obtain ⟨pt', -, m4, -, m5, -, h⟩ := h
      cases h
      exact ⟨pt', _, _, _, _, rfl⟩

/-! ### System calls -/

/-- The case of `KernelTrapHandler` that a system call runs. -/
inductive SystemCall (env : Env) (s : Kernel) (req : LoadRequest) (s' : Kernel) : Prop where
  | delay (code : s.ctx.code = yalnixDelay) (ran : s.trapDelay env = .ok s')
  | brk (code : s.ctx.code = yalnixBrk) (ran : s.trapBrk env = .ok s')
  | fork (code : s.ctx.code = yalnixFork) (ran : s.trapFork env = .ok s')
  | getPid (code : s.ctx.code = yalnixGetPid) (ran : s.trapGetPid = .ok s')
  | wait (code : s.ctx.code = yalnixWait) (ran : s.trapWait = .ok s')
  | exit (code : s.ctx.code = yalnixExit) (ran : s.trapExit env = .ok s')
  | exec (code : s.ctx.code = yalnixExec) (ran : s.trapExec env req = .ok s')
  | ttyRead (code : s.ctx.code = yalnixTtyRead) (ran : s.trapTtyRead env = .ok s')
  | ttyWrite (code : s.ctx.code = yalnixTtyWrite) (ran : s.trapTtyWrite env = .ok s')
  | unknown (code : s.ctx.code ∉ [yalnixDelay, yalnixBrk, yalnixFork, yalnixGetPid, yalnixWait,
      yalnixExit, yalnixExec, yalnixTtyRead, yalnixTtyWrite]) (same : s' = s)

theorem kernelTrapHandler_eq_ok {req : LoadRequest} (h : s.kernelTrapHandler env req = .ok s') :
    SystemCall env s req s' := by
  unfold kernelTrapHandler at h
  by_cases isDelay : s.ctx.code = yalnixDelay
  · rw [if_pos isDelay] at h
    exact .delay isDelay h
  rw [if_neg isDelay] at h
  by_cases isBrk : s.ctx.code = yalnixBrk
  · rw [if_pos isBrk] at h
    exact .brk isBrk h
  rw [if_neg isBrk] at h
  by_cases isFork : s.ctx.code = yalnixFork
  · rw [if_pos isFork] at h
    exact .fork isFork h
  rw [if_neg isFork] at h
  by_cases isGetPid : s.ctx.code = yalnixGetPid
  · rw [if_pos isGetPid] at h
    exact .getPid isGetPid h
  rw [if_neg isGetPid] at h
  by_cases isWait : s.ctx.code = yalnixWait
  · rw [if_pos isWait] at h
    exact .wait isWait h
  rw [if_neg isWait] at h
  by_cases isExit : s.ctx.code = yalnixExit
  · rw [if_pos isExit] at h
    exact .exit isExit h
  rw [if_neg isExit] at h
  by_cases isExec : s.ctx.code = yalnixExec
  · rw [if_pos isExec] at h
    exact .exec isExec h
  rw [if_neg isExec] at h
  by_cases isTtyRead : s.ctx.code = yalnixTtyRead
  · rw [if_pos isTtyRead] at h
    exact .ttyRead isTtyRead h
  rw [if_neg isTtyRead] at h
  by_cases isTtyWrite : s.ctx.code = yalnixTtyWrite
  · rw [if_pos isTtyWrite] at h
    exact .ttyWrite isTtyWrite h
  rw [if_neg isTtyWrite] at h
  cases h
  refine .unknown ?_ rfl
  simp only [List.mem_cons, List.not_mem_nil, or_false, not_or]
  exact ⟨isDelay, isBrk, isFork, isGetPid, isWait, isExit, isExec, isTtyRead, isTtyWrite⟩

end Kernel

end Yalnix
