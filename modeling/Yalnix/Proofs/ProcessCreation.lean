/-
Module: Yalnix.Proofs.ProcessCreation
Purpose: What allocNewPCB and getFreePCB leave behind for every pattern of failing allocations.
Trusted boundary: none
Main exports: Allocator.Serves, allocNewPCB_served, allocNewPCB_refused, Created, Unchanged,
  getFreePCB_survives_iff
-/
import Mathlib.Data.List.Find
import Yalnix.ProcTable
import Yalnix.Proofs.FailedCalls
import Yalnix.Proofs.Queues

namespace Yalnix

open Blocks

variable {A : Allocator} {b b' : Blocks} {newPid : Nat → Int} {s s' : ProcStore}

/-- The allocator has memory for `n` blocks in a row. -/
def Allocator.Serves (A : Allocator) : Nat → Nat → (Addr → Bool) → Prop
  | 0, _, _ => True
  | n + 1, call, inUse => ∃ addr, A.malloc call inUse = some addr ∧
      A.Serves n (call + 1) (Function.update inUse addr true)

/-- A PCB is one more address in use. -/
theorem inUse_pcb (b : Blocks) (addr : Addr) (r : PcbRecord) (calls : Nat) :
    (Blocks.mk (Function.update b.pcbs addr (some r)) b.tables b.queues b.nodes calls).inUse =
      Function.update b.inUse addr true := by
  funext a
  by_cases same : a = addr
  · subst same
    simp [inUse]
  · simp [inUse, same]

/-- A table is another one. -/
theorem inUse_table (b : Blocks) (addr ptbr : Addr) (r : PcbRecord) (table : PageTable)
    (calls : Nat) :
    (Blocks.mk (Function.update b.pcbs addr (some r)) (Function.update b.tables ptbr (some table))
      b.queues b.nodes calls).inUse =
      Function.update (Function.update b.inUse addr true) ptbr true := by
  funext a
  by_cases same : a = ptbr
  · subst same
    simp [inUse]
  · rw [← inUse_pcb b addr r calls]
    simp [inUse, same]

/-- The PCB that `allocNewPCB` makes. -/
def PcbRecord.fresh (ptbr children : Addr) : PcbRecord :=
  { PcbRecord.zero with
    ppid := invalidPid
    ptbr := some ptbr
    ptlr := maxPtLen
    userHeapStartVaddr := BitVec.ofNat 32 vmem1Base
    userHeapEndVaddr := BitVec.ofNat 32 vmem1Base
    userStackBaseVaddr := BitVec.ofNat 32 vmem1Limit
    childrenProcesses := some children
    waitingForChildPid := invalidPid }

/-- An address that `malloc` returns is that of no PCB and of no table. -/
theorem records_of_fresh {call : Nat} {inUse : Addr → Bool} {addr : Addr}
    (got : A.malloc call inUse = some addr) (covered : ∀ a, b.inUse a = true → inUse a = true) :
    b.pcbs addr = none ∧ b.tables addr = none := by
  have unused : b.inUse addr = false := by
    by_contra used
    have clash := covered addr (Bool.eq_true_of_not_eq_false used)
    rw [A.fresh got] at clash
    cases clash
  simp only [Blocks.inUse, Bool.or_eq_false_iff, Option.isSome_eq_false_iff,
    Option.isNone_iff_eq_none] at unused
  exact ⟨unused.1.1.1, unused.1.1.2⟩

/-- With memory for all three blocks `allocNewPCB` makes a PCB. -/
theorem allocNewPCB_served {process ptbr children : Addr}
    (first : A.malloc b.mallocCalls b.inUse = some process)
    (second : A.malloc (b.mallocCalls + 1) (Function.update b.inUse process true) = some ptbr)
    (third : A.malloc (b.mallocCalls + 1 + 1)
      (Function.update (Function.update b.inUse process true) ptbr true) = some children) :
    b.allocNewPCB A = .ok (some process,
      { pcbs := Function.update b.pcbs process (some (PcbRecord.fresh ptbr children))
        tables := Function.update b.tables ptbr (some fun _ => Pte.zero)
        queues := Function.update b.queues children (some ⟨none, none⟩)
        nodes := b.nodes
        mallocCalls := b.mallocCalls + 3 }) := by
  rw [Blocks.allocNewPCB, Blocks.malloc, first]
  simp only [Blocks.malloc, modifyPcb, modifyTable, queueCreate_spec, assignAt,
    Function.update_self, ok_bind, Function.update_idem, pure_bind, inUse_pcb, inUse_table, second,
    third]
  rfl

/-- Whichever allocation fails, `allocNewPCB` gives back what it has got. -/
theorem allocNewPCB_refused (refused : ¬ A.Serves 3 b.mallocCalls b.inUse) :
    ∃ calls, b.allocNewPCB A = .ok (none, { b with mallocCalls := calls }) := by
  rw [Blocks.allocNewPCB, Blocks.malloc]
  rcases first : A.malloc b.mallocCalls b.inUse with _ | process
  · exact ⟨_, rfl⟩
  · have noPcb : Function.update b.pcbs process none = b.pcbs :=
      Function.update_eq_self_iff.mpr (records_of_fresh first fun _ used => used).1.symm
    rcases second : A.malloc (b.mallocCalls + 1) (Function.update b.inUse process true)
      with _ | ptbr
    · refine ⟨b.mallocCalls + 1 + 1, ?_⟩
      simp only [Blocks.malloc, modifyPcb, freePcb, freeAt, assignAt, Function.update_self,
        ok_bind, Function.update_idem, pure_bind, inUse_pcb, second, noPcb]
      rfl
    · have noTable : Function.update b.tables ptbr none = b.tables := by
        refine Function.update_eq_self_iff.mpr (records_of_fresh second fun a used => ?_).2.symm
        by_cases same : a = process
        · subst same
          simp
        · rw [Function.update_of_ne same, used]
      have third : A.malloc (b.mallocCalls + 1 + 1)
          (Function.update (Function.update b.inUse process true) ptbr true) = none := by
        rcases third : A.malloc (b.mallocCalls + 1 + 1)
          (Function.update (Function.update b.inUse process true) ptbr true) with _ | children
        · rfl
        · exact absurd ⟨process, first, ptbr, second, children, third, trivial⟩ refused
      refine ⟨b.mallocCalls + 1 + 1 + 1, ?_⟩
      simp only [Blocks.malloc, modifyPcb, modifyTable, freePcb, freeTable, freeAt, readAt,
        queueCreate_spec, assignAt, Function.update_self, ok_bind, Function.update_idem, pure_bind,
        inUse_pcb, inUse_table, second, third, noPcb, noTable]
      rfl

/-! ### getFreePCB -/

/-- The condition under which all goes well: the table is not there, or it is full, or `malloc` has
memory for the three blocks of a PCB. -/
def RoomOrNoSlot (A : Allocator) (s : ProcStore) : Prop :=
  s.procTable = none ∨ (∃ table, s.procTable = some table ∧ ∀ i < maxProcs, table i ≠ none) ∨
    A.Serves 3 s.blocks.mallocCalls s.blocks.inUse

/-- The table, the pid allocator and all allocated memory are as they were. -/
structure Unchanged (s s' : ProcStore) : Prop where
  procTable : s'.procTable = s.procTable
  pidRequests : s'.pidRequests = s.pidRequests
  pcbs : s'.blocks.pcbs = s.blocks.pcbs
  tables : s'.blocks.tables = s.blocks.tables
  queues : s'.blocks.queues = s.blocks.queues
  nodes : s'.blocks.nodes = s.blocks.nodes

/-- There is a new PCB at `pcb`, with a new table, no entry of which is valid, and a new and empty
children queue; one slot that was `NULL` has it; and nothing else has changed. -/
structure Created (newPid : Nat → Int) (s s' : ProcStore) (pcb ptbr children : Addr) : Prop where
  slot : ∃ table i, s.procTable = some table ∧ i < maxProcs ∧ table i = none ∧
    s'.procTable = some (Function.update table i (some pcb))
  new : s.blocks.inUse pcb = false ∧ s.blocks.inUse ptbr = false ∧
    s.blocks.inUse children = false ∧ ptbr ≠ pcb ∧ children ≠ pcb ∧ children ≠ ptbr
  pcbs : s'.blocks.pcbs = Function.update s.blocks.pcbs pcb
    (some { PcbRecord.fresh ptbr children with
      state := .running
      pid := newPid s.pidRequests.length })
  tables : s'.blocks.tables = Function.update s.blocks.tables ptbr (some fun _ => Pte.zero)
  queues : s'.blocks.queues = Function.update s.blocks.queues children (some ⟨none, none⟩)
  nodes : s'.blocks.nodes = s.blocks.nodes
  pidRequests : s'.pidRequests = s.pidRequests ++ [some ptbr]

/-- `getFreePCB` comes back with `NULL` and nothing changed, or with a new PCB. -/
def CreationSurvives (A : Allocator) (newPid : Nat → Int) (s : ProcStore) : Prop :=
  ∃ result s', s.getFreePCB A newPid = .ok (result, s') ∧
    (result = none → Unchanged s s') ∧
    ∀ pcb, result = some pcb → ∃ ptbr children, Created newPid s s' pcb ptbr children

theorem emptySlot_eq_none {table : Nat → Option Addr} :
    ProcStore.emptySlot table = none ↔ ∀ i < maxProcs, table i ≠ none := by
  simp [ProcStore.emptySlot, Option.isNone_iff_eq_none]

theorem emptySlot_eq_some {table : Nat → Option Addr} {i : Nat}
    (first : ProcStore.emptySlot table = some i) : i < maxProcs ∧ table i = none := by
  have empty : (table i).isNone = true := by simpa using List.find?_some first
  exact ⟨List.mem_range.mp (List.mem_of_find?_eq_some first), Option.isNone_iff_eq_none.mp empty⟩

/-- What `malloc` returns in a row are different new addresses. -/
theorem served_new {process ptbr children : Addr}
    (first : A.malloc b.mallocCalls b.inUse = some process)
    (second : A.malloc (b.mallocCalls + 1) (Function.update b.inUse process true) = some ptbr)
    (third : A.malloc (b.mallocCalls + 1 + 1)
      (Function.update (Function.update b.inUse process true) ptbr true) = some children) :
    b.inUse process = false ∧ b.inUse ptbr = false ∧ b.inUse children = false ∧
      ptbr ≠ process ∧ children ≠ process ∧ children ≠ ptbr := by
  have unused₂ := A.fresh second
  have unused₃ := A.fresh third
  have ne₂ : ptbr ≠ process := by
    rintro rfl
    rw [Function.update_self] at unused₂
    cases unused₂
  have ne₃ : children ≠ ptbr := by
    rintro rfl
    rw [Function.update_self] at unused₃
    cases unused₃
  rw [Function.update_of_ne ne₂] at unused₂
  rw [Function.update_of_ne ne₃] at unused₃
  have ne₄ : children ≠ process := by
    rintro rfl
    rw [Function.update_self] at unused₃
    cases unused₃
  rw [Function.update_of_ne ne₄] at unused₃
  exact ⟨A.fresh first, unused₂, unused₃, ne₂, ne₄, ne₃⟩

/-- With a slot and memory `getFreePCB` makes a process. -/
theorem getFreePCB_served {table : Nat → Option Addr} {i : Nat}
    (known : s.procTable = some table) (slot : ProcStore.emptySlot table = some i)
    (served : A.Serves 3 s.blocks.mallocCalls s.blocks.inUse) :
    ∃ pcb s' ptbr children, s.getFreePCB A newPid = .ok (some pcb, s') ∧
      Created newPid s s' pcb ptbr children ∧
      s'.procTable = some (Function.update table i (some pcb)) ∧
      s'.blocks.mallocCalls = s.blocks.mallocCalls + 3 := by
  obtain ⟨inRange, empty⟩ := emptySlot_eq_some slot
  obtain ⟨process, first, ptbr, second, children, third, -⟩ := served
  obtain ⟨s', isS'⟩ : ∃ s' : ProcStore, s' =
      { blocks :=
          { pcbs := Function.update s.blocks.pcbs process
              (some { PcbRecord.fresh ptbr children with
                state := .running
                pid := newPid s.pidRequests.length })
            tables := Function.update s.blocks.tables ptbr (some fun _ => Pte.zero)
            queues := Function.update s.blocks.queues children (some ⟨none, none⟩)
            nodes := s.blocks.nodes
            mallocCalls := s.blocks.mallocCalls + 3 }
        procTable := some (Function.update table i (some process))
        pidRequests := s.pidRequests ++ [some ptbr] } := ⟨_, rfl⟩
  have new := served_new first second third
  refine ⟨process, s', ptbr, children, ?_, ?_, ?_, ?_⟩
  · rw [ProcStore.getFreePCB, known]
    simp only [slot, allocNewPCB_served first second third, ok_bind, modifyPcb, assignAt, readAt,
      Function.update_self, Function.update_idem, pure_bind]
    rw [isS']
    rfl
  · subst isS'
    exact ⟨⟨table, i, known, inRange, empty, rfl⟩, new, rfl, rfl, rfl, rfl, rfl⟩
  · rw [isS']
  · rw [isS']

/-- With a slot but not enough memory `getFreePCB` dereferences `NULL`. -/
theorem getFreePCB_refused {table : Nat → Option Addr} {i : Nat}
    (known : s.procTable = some table) (slot : ProcStore.emptySlot table = some i)
    (refused : ¬ A.Serves 3 s.blocks.mallocCalls s.blocks.inUse) :
    s.getFreePCB A newPid = .error .nullPointer := by
  obtain ⟨calls, failed⟩ := allocNewPCB_refused refused
  rw [ProcStore.getFreePCB, known]
  simp only [slot, failed, ok_bind]
  rfl

/-- `getFreePCB` survives exactly when the table is not there or full, or `malloc` has memory for
all three blocks of a PCB. -/
theorem getFreePCB_survives_iff (A : Allocator) (newPid : Nat → Int) (s : ProcStore) :
    CreationSurvives A newPid s ↔ RoomOrNoSlot A s := by
  have unchanged : Unchanged s s := ⟨rfl, rfl, rfl, rfl, rfl, rfl⟩
  rcases known : s.procTable with _ | table
  · refine iff_of_true ⟨none, s, ?_, fun _ => unchanged, nofun⟩ (Or.inl known)
    rw [ProcStore.getFreePCB, known]
  · rcases slot : ProcStore.emptySlot table with _ | i
    · refine iff_of_true ⟨none, s, ?_, fun _ => unchanged, nofun⟩
        (Or.inr (Or.inl ⟨table, known, emptySlot_eq_none.mp slot⟩))
      rw [ProcStore.getFreePCB, known]
      simp only [slot]
    · have empty := (emptySlot_eq_some slot)
      by_cases served : A.Serves 3 s.blocks.mallocCalls s.blocks.inUse
      · obtain ⟨pcb, s', ptbr, children, ran, created, -, -⟩ :=
          @getFreePCB_served A newPid s table i known slot served
        refine iff_of_true ⟨some pcb, s', ran, nofun, ?_⟩ (Or.inr (Or.inr served))
        rintro _ ⟨⟩
        exact ⟨ptbr, children, created⟩
      · refine iff_of_false ?_ ?_
        · rintro ⟨result, s', ran, -⟩
          rw [getFreePCB_refused known slot served] at ran
          cases ran
        · rintro (absent | ⟨table', known', full⟩ | served')
          · rw [known] at absent
            cases absent
          · rw [known] at known'
            cases known'
            exact full i empty.1 empty.2
          · exact served served'

/-- Without any memory, an empty table is enough to go wrong. -/
theorem getFreePCB_null_pcb : ¬ ∀ A newPid s, CreationSurvives A newPid s := by
  intro claim
  obtain ⟨result, s', ran, -⟩ := claim
    { malloc := fun _ _ => none
      fresh := nofun
      garbagePcb := PcbRecord.zero
      garbageTable := fun _ => Pte.zero
      garbageQueue := ⟨none, none⟩
      garbageNode := ⟨none, none, none⟩ }
    (fun k => k)
    { blocks := ⟨fun _ => none, fun _ => none, fun _ => none, fun _ => none, 0⟩
      procTable := some fun _ => none
      pidRequests := [] }
  cases ran

/-! ### The kernel's PCBs -/

/-- The PCB behind an address, as the kernel's data have it, while it has no kernel stack, parent or
read buffer. -/
def Blocks.pcbAt (b : Blocks) (addr : Addr) : Option PCB :=
  match b.pcbs addr with
  | none => none
  | some r =>
      match r.ptbr.bind b.tables with
      | none => none
      | some ptbr =>
          if r.kstack = none ∧ r.parent = none ∧ r.ttyKernelReadBuf = none then
            some
              { pid := r.pid
                state := r.state
                ppid := r.ppid
                exitStatus := r.exitStatus
                ptbr := ptbr
                ptlr := r.ptlr
                userContext := r.userContext
                kernelContext := r.kernelContext
                kstack := none
                userHeapStartVaddr := r.userHeapStartVaddr
                userHeapEndVaddr := r.userHeapEndVaddr
                userStackBaseVaddr := r.userStackBaseVaddr
                parent := none
                waitingForChildPid := r.waitingForChildPid
                delayTicks := r.delayTicks
                ttyReadBuf := r.ttyReadBuf
                ttyReadLen := r.ttyReadLen
                ttyKernelReadBuf := none
                kernelReadSize := r.kernelReadSize }
          else none

/-- The two models of process creation start from the same situation: the same slots are empty, the
same calls of `malloc` succeed, and as many pids were given out. -/
structure SameSituation (A : Allocator) (env : Env) (s : ProcStore) (k : Kernel)
    (table : Nat → Option Addr) : Prop where
  known : s.procTable = some table
  slots : ∀ i < maxProcs, (table i).isNone = (k.procTable i).isNone
  memory : ∀ call inUse, (A.malloc call inUse).isSome = env.mallocOk call
  mallocCalls : s.blocks.mallocCalls = k.mallocCalls
  pids : s.pidRequests.length = k.pidCalls

namespace SameSituation

variable {env : Env} {k k' : Kernel} {table : Nat → Option Addr}

theorem slot (same : SameSituation A env s k table) : ProcStore.emptySlot table = k.freeSlot := by
  rw [ProcStore.emptySlot, Kernel.freeSlot]
  exact List.find?_congr fun i member => same.slots i (List.mem_range.mp member)

theorem served (same : SameSituation A env s k table) :
    A.Serves 3 s.blocks.mallocCalls s.blocks.inUse ↔ Kernel.PcbAllocated env k := by
  have isSome : ∀ call inUse, (∃ addr, A.malloc call inUse = some addr) ↔
      env.mallocOk call = true := by
    intro call inUse
    rw [← same.memory call inUse, Option.isSome_iff_exists]
  rw [Kernel.PcbAllocated, same.mallocCalls]
  constructor
  · rintro ⟨process, first, ptbr, second, children, third, -⟩
    exact ⟨(isSome _ _).mp ⟨_, first⟩, (isSome _ _).mp ⟨_, second⟩, (isSome _ _).mp ⟨_, third⟩⟩
  · rintro ⟨pcbOk, ptbrOk, childrenOk⟩
    obtain ⟨process, first⟩ := (isSome _ s.blocks.inUse).mpr pcbOk
    obtain ⟨ptbr, second⟩ := (isSome _ (Function.update s.blocks.inUse process true)).mpr ptbrOk
    obtain ⟨children, third⟩ := (isSome _ (Function.update
      (Function.update s.blocks.inUse process true) ptbr true)).mpr childrenOk
    exact ⟨process, first, ptbr, second, children, third, trivial⟩

/-- Both models do the same: they find no slot, or dereference `NULL`, or put the same PCB into the
same slot. -/
theorem getFreePCB (same : SameSituation A env s k table) :
    (k.getFreePCB env = .ok (none, k) ∧ s.getFreePCB A env.helperNewPid = .ok (none, s)) ∨
    (k.getFreePCB env = .error .nullPointer ∧
      s.getFreePCB A env.helperNewPid = .error .nullPointer) ∨
    ∃ p k' pcb s' i, k.getFreePCB env = .ok (some p, k') ∧
      s.getFreePCB A env.helperNewPid = .ok (some pcb, s') ∧
      k'.procTable = Function.update k.procTable i (some p) ∧
      s'.blocks.pcbAt pcb = k'.heap p ∧ k'.queues (.children p) = [] ∧
      SameSituation A env s' k' (Function.update table i (some pcb)) := by
  rcases slot : ProcStore.emptySlot table with _ | i
  · left
    refine ⟨?_, ?_⟩
    · rw [Kernel.getFreePCB, ← same.slot, slot]
    · rw [ProcStore.getFreePCB, same.known]
      simp only [slot]
  · right
    have slot' : k.freeSlot = some i := same.slot.symm.trans slot
    rcases Kernel.getFreePCB_slot env slot' with ⟨allocated, k', ran⟩ | ⟨notAllocated, stopped⟩
    · right
      obtain ⟨pcb, s', ptbr, children, ran', created, table', calls⟩ :=
        @getFreePCB_served A env.helperNewPid s table i same.known slot
          (same.served.mpr allocated)
      refine ⟨_, k', pcb, s', i, ran, ran', ?_⟩
      rcases Kernel.getFreePCB_eq_ok ran with ⟨none, -⟩ | ⟨j, isFirst, -, rfl⟩
      · cases none
      · rw [slot'] at isFirst
        cases isFirst
        refine ⟨rfl, ?_, ?_, ?_⟩
        · simp only [Blocks.pcbAt, created.pcbs, created.tables, Function.update_self,
            Option.bind_some, PcbRecord.fresh, PcbRecord.zero]
          simp [PCB.fresh, same.pids]
        · simp
        · refine ⟨table', fun j inRange => ?_, same.memory, ?_, ?_⟩
          · by_cases isSlot : j = i
            · subst isSlot
              simp
            · simp [isSlot, same.slots j inRange]
          · rw [calls, same.mallocCalls]
            rfl
          · rw [created.pidRequests, List.length_append, same.pids]
            rfl
    · left
      refine ⟨stopped, getFreePCB_refused same.known slot ?_⟩
      exact fun served => notAllocated (same.served.mp served)

end SameSituation

end Yalnix
