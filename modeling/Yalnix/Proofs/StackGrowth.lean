/-
Module: Yalnix.Proofs.StackGrowth
Purpose: What MemoryTrapHandler does about a fault between heap and stack: which pages growStack
  maps, that it gives back what it took when the frames run out, and on what the decision depends.
Trusted boundary: none
Main exports: growStackPages_stops_iff, stack_grows_exactly, faults_agree_iff
-/
import Yalnix.Proofs.FreshPages
import Yalnix.Proofs.HeapStack
import Yalnix.Proofs.RegionZero

namespace Yalnix

open Kernel Memory

variable {env : Env} {s s' : Kernel} {addr : Word} {ctx ctx' : UserContext} {m m' : Memory}
  {pt pt' : PageTable} {c c' : PCB} {n i targetVpn : Nat} {status : Status}

/-! ### The loop -/

/-- The loop leaves the table exactly if its range does and the frames last up to there. -/
theorem growStackPages_stops_iff : (∃ stop, growStackPages targetVpn n i m pt = .error stop) ↔
    0 < n ∧ maxPtLen < targetVpn + i + n ∧ maxPtLen - (targetVpn + i) < m.freeFrames.card := by
  induction n generalizing i m pt with
  | zero =>
      refine iff_of_false ?_ (fun range => absurd range.1 (Nat.lt_irrefl 0))
      rintro ⟨stop, stopped⟩
      cases stopped
  | succ n inductionHypothesis =>
      unfold growStackPages
      rcases allocated : m.allocFrame .user with _ | ⟨pfn, m₁⟩
      · rw [allocFrame_eq_none.mp allocated, Finset.card_empty]
        refine iff_of_false ?_ (fun range => absurd range.2.2 (Nat.not_lt_zero _))
        rintro ⟨stop, stopped⟩
        cases stopped
      · obtain ⟨free, rfl⟩ := allocFrame_eq_some allocated
        have used : FrameUsage.user ≠ .free := by decide
        have left := card_freeFrames_takeFrame used free
        by_cases inside : targetVpn + i < maxPtLen
        · simp only [tableIndex_natCast inside, bind, Except.bind]
          rw [inductionHypothesis]
          omega
        · have outside : ¬ ((0 : Int) ≤ (targetVpn + i : Nat) ∧
              ((targetVpn + i : Nat) : Int) < maxPtLen) := by
            simp only [maxPtLen] at inside ⊢
            omega
          simp only [tableIndex, if_neg outside, bind, Except.bind]
          exact iff_of_true ⟨_, rfl⟩ ⟨Nat.succ_pos n, by omega, by omega⟩

/-- Otherwise it comes back: with all its pages mapped if there are frames for them. -/
theorem growStackPages_returns
    (stays : ¬ (0 < n ∧ maxPtLen < targetVpn + i + n ∧
      maxPtLen - (targetVpn + i) < m.freeFrames.card)) :
    ∃ m' pt', growStackPages targetVpn n i m pt =
      .ok (if n ≤ m.freeFrames.card then .success else .kill, m', pt') := by
  rcases outcome : growStackPages targetVpn n i m pt with stop | ⟨status, m', pt'⟩
  · exact absurd (growStackPages_stops_iff.mp ⟨stop, outcome⟩) stays
  · refine ⟨m', pt', ?_⟩
    rcases growStackPages_status outcome with ⟨rfl, enough, -⟩ | ⟨rfl, scarce, -⟩
    · rw [if_pos enough]
    · rw [if_neg (Nat.not_le_of_lt scarce)]

/-! ### Growing the stack -/

/-- The page a fault address lies in. -/
def faultPage (addr : Word) : Nat := pageOf (downToPage addr)

theorem growStack_some (live : s.heap s.currentProcess = some c)
    (grew : growStackPages (faultPage addr) (c.stackPage - faultPage addr) 0 s.mem c.ptbr =
      .ok (status, m, pt)) :
    s.growStack addr = .ok (if status = .kill then
        (.kill, (s.setMem m).setPcb s.currentProcess { c with ptbr := pt })
      else (.success, (s.setMem m).setPcb s.currentProcess
        { c with ptbr := pt, userStackBaseVaddr := downToPage addr })) := by
  have found : s.deref s.currentProcess = .ok c := deref_eq_ok.mpr live
  rw [faultPage, PCB.stackPage] at grew
  simp only [growStack, found, bind, Except.bind, grew]
  split
  · rfl
  · rfl

/-- The address lies on a page of region 1 that is not mapped. -/
def PCB.Unmapped (c : PCB) (a : Nat) : Prop :=
  vmem1Base ≤ a ∧ a < vmem1Limit ∧ (c.ptbr ((a - vmem1Base) / pageSize)).valid = false

/-- What a fault that is let through does: the pages from its own up to the stack are mapped on
frames that were free and the stack starts at its page; without frames for all of them the call is
undone. -/
structure GrowsExactly (env : Env) (s : Kernel) (c : PCB) : Prop where
  enough : c.stackPage - faultPage s.ctx.addr ≤ s.mem.freeFrames.card →
    ∃ m pt, FreshPages .user (Finset.Ico (faultPage s.ctx.addr) c.stackPage) s.mem c.ptbr m pt ∧
      Region0Kept s.mem m ∧ (pt (faultPage s.ctx.addr)).valid = true ∧
      s.memoryTrapHandler env = .ok ((s.setMem m).setPcb s.currentProcess
        { c with ptbr := pt, userStackBaseVaddr := downToPage s.ctx.addr })
  scarce : s.mem.freeFrames.card < c.stackPage - faultPage s.ctx.addr →
    ∃ m pt, (∀ vpn, (pt vpn).valid = (c.ptbr vpn).valid) ∧ m.frameTable = s.mem.frameTable ∧
      s.growStack s.ctx.addr =
        .ok (.kill, (s.setMem m).setPcb s.currentProcess { c with ptbr := pt })

/-- The pages of such a range are pages of the table. -/
theorem gap_pages {addr : Word} (below : addr.toNat < (downToPage c.userStackBaseVaddr).toNat)
    (gap : ∀ a, (downToPage addr).toNat ≤ a → a < (downToPage c.userStackBaseVaddr).toNat →
      c.Unmapped a) :
    faultPage addr < c.stackPage ∧ c.stackPage ≤ maxPtLen ∧
      ∀ vpn, faultPage addr ≤ vpn → vpn < c.stackPage → (c.ptbr vpn).valid = false := by
  have round := downToPage_toNat addr
  have aligned := downToPage_aligned c.userStackBaseVaddr
  have order : (downToPage addr).toNat < (downToPage c.userStackBaseVaddr).toNat := by omega
  obtain ⟨low, -, -⟩ := gap _ (Nat.le_refl _) order
  obtain ⟨-, limit, -⟩ := gap ((downToPage c.userStackBaseVaddr).toNat - 1) (by omega) (by omega)
  have first : faultPage addr = ((downToPage addr).toNat - vmem1Base) / 0x2000 := pageOf_eq low
  have base : c.stackPage = ((downToPage c.userStackBaseVaddr).toNat - vmem1Base) / 0x2000 :=
    pageOf_eq (by omega)
  simp only [vmem1Base, vmem1Limit] at low limit first base
  refine ⟨by omega, ?_, ?_⟩
  · simp only [maxPtLen]
    omega
  · intro vpn fromFault toStack
    obtain ⟨-, -, invalid⟩ := gap (vmem1Base + vpn * pageSize)
      (by simp only [vmem1Base, pageSize]; omega) (by simp only [vmem1Base, pageSize]; omega)
    rw [Nat.add_sub_cancel_left, Nat.mul_div_cancel vpn (by decide)] at invalid
    exact invalid

/-- Every fault that is accepted and from whose page up to the stack base no page is mapped. -/
theorem stack_grows_exactly (live : s.heap s.currentProcess = some c)
    (accepted : memoryTrapAction c s.ctx = .grow)
    (gap : ∀ a, (downToPage s.ctx.addr).toNat ≤ a →
      a < (downToPage c.userStackBaseVaddr).toNat → c.Unmapped a) :
    GrowsExactly env s c := by
  obtain ⟨-, -, below⟩ := memoryTrapAction_grow.mp accepted
  obtain ⟨lower, inside, invalid⟩ := gap_pages below gap
  constructor
  · -- every page gets a frame
    intro enough
    have range : faultPage s.ctx.addr + 0 + (c.stackPage - faultPage s.ctx.addr) = c.stackPage := by
      omega
    obtain ⟨m, pt, grew, fresh⟩ : ∃ m pt,
        growStackPages (faultPage s.ctx.addr) (c.stackPage - faultPage s.ctx.addr) 0 s.mem c.ptbr =
          .ok (.success, m, pt) ∧
        FreshPages .user (Finset.Ico (faultPage s.ctx.addr) c.stackPage) s.mem c.ptbr m pt := by
      have grown := @growStackPages_fresh s.mem c.ptbr
        (c.stackPage - faultPage s.ctx.addr) (faultPage s.ctx.addr) 0
      rw [range, Nat.add_zero] at grown
      exact grown inside enough
    have found : s.deref s.currentProcess = .ok c := deref_eq_ok.mpr live
    have here : faultPage s.ctx.addr ∈ Finset.Ico (faultPage s.ctx.addr) c.stackPage :=
      Finset.mem_Ico.mpr ⟨Nat.le_refl _, lower⟩
    refine ⟨m, pt, fresh, .growStackPages grew, fresh.valid_iff.mpr (Or.inl here), ?_⟩
    simp only [memoryTrapHandler, found, bind, Except.bind, accepted, growStack_some live grew,
      reduceCtorEq, if_false]
    rfl
  · -- the frames run out
    intro scarce
    have start : FreshPages .user (Finset.Ico (faultPage s.ctx.addr) (faultPage s.ctx.addr + 0))
        s.mem c.ptbr s.mem c.ptbr := by
      rw [Nat.add_zero, Finset.Ico_self]
      exact .start .user s.mem c.ptbr
    obtain ⟨m, pt, killed, taken, m₁, pt₁, fresh, fewer, freed⟩ :=
      growStackPages_rollsBack start (by omega) scarce
    have wasGap : ∀ vpn ∈ Finset.Ico (faultPage s.ctx.addr) (faultPage s.ctx.addr + taken),
        (c.ptbr vpn).valid = false := by
      intro vpn member
      obtain ⟨fromFault, toTaken⟩ := Finset.mem_Ico.mp member
      exact invalid vpn fromFault (by omega)
    refine ⟨m, pt, fresh.unmappedBack freed wasGap, fresh.givenBack freed, ?_⟩
    rw [growStack_some live killed, if_pos rfl]

/-- Init faults two pages below its stack. -/
theorem stack_grows_exactly_sample : ∃ (s : Kernel) (c : PCB),
    s.heap s.currentProcess = some c ∧ c.userStackBaseVaddr = 0x1fe000 ∧
      s.ctx.addr = 0x1fa004 ∧ GrowsExactly sampleEnv s c := by
  have answer : runs sampleEnv sampleBoot (fun _ _ => true) [.tick, .resume]
      (fun s => (s.heap s.currentProcess).any fun b => decide (b.userHeapEndVaddr = 0x102000 ∧
        b.userStackBaseVaddr = 0x1fe000 ∧ (b.ptbr 125).valid = false ∧
        (b.ptbr 126).valid = false)) = .ok true := by
    decide +kernel
  obtain ⟨boot, s, -, -, known⟩ := runs_sound (fun _ _ => True) (fun _ _ _ => trivial) answer
  obtain ⟨b, live, known⟩ := (Option.any_eq_true ..).mp known
  obtain ⟨heapEnd, stackBase, invalid, invalid'⟩ := of_decide_eq_true known
  have accepted : memoryTrapAction b (mapFault 0x1fa004) = .grow := by
    refine memoryTrapAction_grow.mpr ⟨rfl, ?_, ?_⟩
    · rw [heapEnd]
      decide
    · rw [stackBase]
      decide
  refine ⟨s.trap (mapFault 0x1fa004), b, live, stackBase, rfl,
    stack_grows_exactly live accepted ?_⟩
  intro a fromFault toStack
  have first : (downToPage (mapFault 0x1fa004).addr).toNat = 0x1fa000 := by decide
  have last : (downToPage 0x1fe000).toNat = 0x1fe000 := by decide
  have low : 0x1fa000 ≤ a := Nat.le_trans (Nat.le_of_eq first.symm) fromFault
  rw [stackBase, last] at toStack
  simp only [PCB.Unmapped, vmem1Base, vmem1Limit, pageSize]
  refine ⟨by omega, by omega, ?_⟩
  rcases (by omega : (a - 0x100000) / 0x2000 = 125 ∨ (a - 0x100000) / 0x2000 = 126) with page | page
  · rw [page]
    exact invalid
  · rw [page]
    exact invalid'

/-! ### The decision -/

/-- The handler grows the stack and leaves memory `m` and the process `c'`. -/
def GrowsTo (env : Env) (s : Kernel) (ctx : UserContext) (m : Memory) (c' : PCB) : Prop :=
  ∃ c, s.heap s.currentProcess = some c ∧ memoryTrapAction c ctx = .grow ∧
    (s.trap ctx).growStack ctx.addr =
      .ok (.success, ((s.trap ctx).setMem m).setPcb s.currentProcess c') ∧
    (s.trap ctx).memoryTrapHandler env =
      .ok (((s.trap ctx).setMem m).setPcb s.currentProcess c')

/-- The handler kills the process, at once or because its stack cannot be grown. -/
def Kills (env : Env) (s : Kernel) (ctx : UserContext) : Prop :=
  ∃ c, s.heap s.currentProcess = some c ∧
    ((memoryTrapAction c ctx = .kill ∧ (s.trap ctx).memoryTrapHandler env =
        (s.trap ctx).exit env Status.error.code .memoryTrap) ∨
      (memoryTrapAction c ctx = .grow ∧ ∃ t, (s.trap ctx).growStack ctx.addr = .ok (.kill, t) ∧
        (s.trap ctx).memoryTrapHandler env = t.exit env Status.error.code .memoryTrap))

/-- Two faults end alike: both grow the stack, to the same memory and process, or both kill. -/
def EndAlike (env : Env) (s : Kernel) (ctx ctx' : UserContext) : Prop :=
  (∃ m c', GrowsTo env s ctx m c' ∧ GrowsTo env s ctx' m c') ∨ Kills env s ctx ∧ Kills env s ctx'

/-- A page lies between the rounded bounds of heap and stack. -/
def PCB.InGap (c : PCB) (addr : Word) : Prop :=
  (upToPage c.userHeapEndVaddr).toNat ≤ (downToPage addr).toNat ∧
    (downToPage addr).toNat < (downToPage c.userStackBaseVaddr).toNat

/-- Growing the stack to a page comes back: its pages lie in the table, or the frames run out in
time. -/
def StackReturns (m : Memory) (c : PCB) (addr : Word) : Prop :=
  ¬ (faultPage addr < c.stackPage ∧ maxPtLen < c.stackPage ∧
    maxPtLen - faultPage addr < m.freeFrames.card)

/-- There are frames for all pages up to the stack. -/
def StackAffordable (m : Memory) (c : PCB) (addr : Word) : Prop :=
  c.stackPage - faultPage addr ≤ m.freeFrames.card

/-- Of the faults in a page of the gap all are let through but the one at the heap limit itself. -/
theorem memoryTrapAction_page (mapErr : ctx.code = yalnixMapErr) : memoryTrapAction c ctx = .grow ↔
    c.InGap ctx.addr ∧ ctx.addr ≠ upToPage c.userHeapEndVaddr := by
  have alignedHeap := upToPage_aligned c.userHeapEndVaddr
  have alignedBase := downToPage_aligned c.userStackBaseVaddr
  have round := downToPage_toNat ctx.addr
  have different : ctx.addr ≠ upToPage c.userHeapEndVaddr ↔
      ctx.addr.toNat ≠ (upToPage c.userHeapEndVaddr).toNat :=
    not_congr BitVec.toNat_inj.symm
  rw [memoryTrapAction_grow, different, PCB.InGap]
  constructor
  · rintro ⟨-, above, below⟩
    omega
  · rintro ⟨⟨above, below⟩, ne⟩
    exact ⟨mapErr, by omega, by omega⟩

/-- The others kill the process. -/
theorem kills_of_refused (live : s.heap s.currentProcess = some c)
    (mapErr : ctx.code = yalnixMapErr) (refused : memoryTrapAction c ctx ≠ .grow) :
    Kills env s ctx := by
  have action : memoryTrapAction c ctx = .kill := memoryTrapAction_kill.mpr ⟨mapErr, refused⟩
  have found : (s.trap ctx).deref (s.trap ctx).currentProcess = .ok c := deref_eq_ok.mpr live
  have code : (s.trap ctx).ctx = ctx := rfl
  refine ⟨c, live, Or.inl ⟨action, ?_⟩⟩
  simp only [memoryTrapHandler, found, code, bind, Except.bind, action]

theorem growStackPages_of_returns {addr : Word} (returns : StackReturns m c addr) :
    ∃ m' pt', growStackPages (faultPage addr) (c.stackPage - faultPage addr) 0 m pt =
      .ok (if c.stackPage - faultPage addr ≤ m.freeFrames.card then .success else .kill,
        m', pt') := by
  apply growStackPages_returns
  rintro ⟨some, long, enough⟩
  exact returns ⟨by omega, by omega, by omega⟩

/-- The growth with frames for all its pages. -/
theorem growStackPages_affordable {addr : Word} (returns : StackReturns m c addr)
    (affordable : StackAffordable m c addr) :
    ∃ m' pt', growStackPages (faultPage addr) (c.stackPage - faultPage addr) 0 m pt =
      .ok (.success, m', pt') := by
  obtain ⟨m', pt', grew⟩ := @growStackPages_of_returns m pt c addr returns
  have enough : c.stackPage - faultPage addr ≤ m.freeFrames.card := affordable
  rw [if_pos enough] at grew
  exact ⟨m', pt', grew⟩

/-- The growth without. -/
theorem growStackPages_scarce {addr : Word} (returns : StackReturns m c addr)
    (unaffordable : ¬ StackAffordable m c addr) :
    ∃ m' pt', growStackPages (faultPage addr) (c.stackPage - faultPage addr) 0 m pt =
      .ok (.kill, m', pt') := by
  obtain ⟨m', pt', grew⟩ := @growStackPages_of_returns m pt c addr returns
  have scarce : ¬ c.stackPage - faultPage addr ≤ m.freeFrames.card := unaffordable
  rw [if_neg scarce] at grew
  exact ⟨m', pt', grew⟩

/-- With frames for all its pages the growth depends on the page alone. -/
theorem growsTo_of_affordable (live : s.heap s.currentProcess = some c)
    (action : memoryTrapAction c ctx = .grow)
    (grew : growStackPages (faultPage ctx.addr) (c.stackPage - faultPage ctx.addr) 0 s.mem c.ptbr =
      .ok (.success, m, pt)) :
    GrowsTo env s ctx m { c with ptbr := pt, userStackBaseVaddr := downToPage ctx.addr } := by
  have live' : (s.trap ctx).heap (s.trap ctx).currentProcess = some c := live
  have found : (s.trap ctx).deref (s.trap ctx).currentProcess = .ok c := deref_eq_ok.mpr live'
  have code : (s.trap ctx).ctx = ctx := rfl
  have grown : (s.trap ctx).growStack ctx.addr = .ok (.success,
      ((s.trap ctx).setMem m).setPcb s.currentProcess
        { c with ptbr := pt, userStackBaseVaddr := downToPage ctx.addr }) :=
    growStack_some live' grew
  refine ⟨c, live, action, grown, ?_⟩
  simp only [memoryTrapHandler, found, code, bind, Except.bind, action, grown, reduceCtorEq,
    if_false]
  rfl

theorem kills_of_scarce (live : s.heap s.currentProcess = some c)
    (action : memoryTrapAction c ctx = .grow)
    (grew : growStackPages (faultPage ctx.addr) (c.stackPage - faultPage ctx.addr) 0 s.mem c.ptbr =
      .ok (.kill, m, pt)) : Kills env s ctx := by
  have live' : (s.trap ctx).heap (s.trap ctx).currentProcess = some c := live
  have found : (s.trap ctx).deref (s.trap ctx).currentProcess = .ok c := deref_eq_ok.mpr live'
  have code : (s.trap ctx).ctx = ctx := rfl
  have killed := growStack_some live' grew
  rw [if_pos rfl] at killed
  refine ⟨c, live, Or.inr ⟨action, _, killed, ?_⟩⟩
  simp only [memoryTrapHandler, found, code, bind, Except.bind, action, killed, if_true]

/-- A growth that leaves the table neither comes back grown nor kills the process. -/
theorem returns_of_reaction (live : s.heap s.currentProcess = some c)
    (action : memoryTrapAction c ctx = .grow)
    (reaction : (∃ m c', GrowsTo env s ctx m c') ∨ Kills env s ctx) :
    StackReturns s.mem c ctx.addr := by
  have back : ∃ status t, (s.trap ctx).growStack ctx.addr = .ok (status, t) := by
    rcases reaction with ⟨m, c', _, -, -, grown, -⟩ | ⟨d, live', ⟨killed, -⟩ | ⟨-, t, killed, -⟩⟩
    · exact ⟨_, _, grown⟩
    · obtain rfl := Option.some.inj (live.symm.trans live')
      rw [killed] at action
      cases action
    · exact ⟨_, _, killed⟩
  obtain ⟨status, t, back⟩ := back
  obtain ⟨d, m, pt, live', grew, -⟩ := growStack_eq_ok back
  obtain rfl : d = c := Option.some.inj (live'.symm.trans live)
  rintro ⟨some, long, enough⟩
  obtain ⟨stop, stopped⟩ := (@growStackPages_stops_iff s.mem d.ptbr
    (d.stackPage - faultPage ctx.addr) 0 (faultPage ctx.addr)).mpr
      ⟨by omega, by omega, by omega⟩
  have same : growStackPages (faultPage ctx.addr) (d.stackPage - faultPage ctx.addr) 0 s.mem
      d.ptbr = .ok (status, m, pt) := grew
  rw [stopped] at same
  cases same

theorem not_kills_of_growsTo (grows : GrowsTo env s ctx m c') : ¬ Kills env s ctx := by
  obtain ⟨c, live, action, grown, -⟩ := grows
  rintro ⟨d, live', ⟨killed, -⟩ | ⟨-, t, killed, -⟩⟩
  · obtain rfl := Option.some.inj (live.symm.trans live')
    rw [killed] at action
    cases action
  · rw [grown] at killed
    cases killed

/-- Refused faults kill, and so do those for which there are too few frames. -/
theorem kills_unless_affordable (live : s.heap s.currentProcess = some c)
    (mapErr : ctx.code = yalnixMapErr) (returns : StackReturns s.mem c ctx.addr)
    (unaffordable : memoryTrapAction c ctx = .grow → ¬ StackAffordable s.mem c ctx.addr) :
    Kills env s ctx := by
  by_cases action : memoryTrapAction c ctx = .grow
  · obtain ⟨m, pt, grew⟩ := growStackPages_scarce returns (unaffordable action)
    exact kills_of_scarce live action grew
  · exact kills_of_refused live mapErr action

/-- Two faults in one page that are both let through grow the stack to the same. -/
theorem growTo_both (live : s.heap s.currentProcess = some c)
    (samePage : downToPage ctx.addr = downToPage ctx'.addr)
    (returns : StackReturns s.mem c ctx.addr) (affordable : StackAffordable s.mem c ctx.addr)
    (action : memoryTrapAction c ctx = .grow) (action' : memoryTrapAction c ctx' = .grow) :
    ∃ m c', GrowsTo env s ctx m c' ∧ GrowsTo env s ctx' m c' := by
  have samePages : faultPage ctx'.addr = faultPage ctx.addr := by
    rw [faultPage, faultPage, samePage]
  obtain ⟨m, pt, grew⟩ := @growStackPages_affordable s.mem c.ptbr c ctx.addr returns affordable
  have left : GrowsTo env s ctx m _ := growsTo_of_affordable live action grew
  rw [← samePages] at grew
  have right : GrowsTo env s ctx' m _ := growsTo_of_affordable live action' grew
  rw [← samePage] at right
  exact ⟨m, _, left, right⟩

/-- A fault at the heap limit and one above it in its page part ways where the stack can grow. -/
theorem not_endAlike_of_limit (live : s.heap s.currentProcess = some c)
    (samePage : downToPage ctx.addr = downToPage ctx'.addr)
    (returns : StackReturns s.mem c ctx.addr) (affordable : StackAffordable s.mem c ctx.addr)
    (refused : memoryTrapAction c ctx ≠ .grow) (action : memoryTrapAction c ctx' = .grow) :
    ¬ EndAlike env s ctx ctx' := by
  rintro (⟨m, c', ⟨d, live', grows, -⟩, -⟩ | ⟨-, kills⟩)
  · obtain rfl := Option.some.inj (live.symm.trans live')
    exact refused grows
  · have samePages : faultPage ctx'.addr = faultPage ctx.addr := by
      rw [faultPage, faultPage, samePage]
    obtain ⟨m, pt, grew⟩ := @growStackPages_affordable s.mem c.ptbr c ctx.addr returns affordable
    rw [← samePages] at grew
    have grows : GrowsTo env s ctx' m _ := growsTo_of_affordable live action grew
    exact not_kills_of_growsTo grows kills

theorem EndAlike.symm (alike : EndAlike env s ctx ctx') : EndAlike env s ctx' ctx := by
  rcases alike with ⟨m, c', left, right⟩ | ⟨left, right⟩
  · exact Or.inl ⟨m, c', right, left⟩
  · exact Or.inr ⟨right, left⟩

/-- Two faults in one page end alike unless the growth leaves the table or exactly one of them is at
the heap limit, and the other grows the stack. -/
theorem faults_agree_iff (live : s.heap s.currentProcess = some c)
    (mapErr : ctx.code = yalnixMapErr) (mapErr' : ctx'.code = yalnixMapErr)
    (samePage : downToPage ctx.addr = downToPage ctx'.addr) :
    EndAlike env s ctx ctx' ↔ ¬ c.InGap ctx.addr ∨
      (ctx.addr = upToPage c.userHeapEndVaddr ∧ ctx'.addr = upToPage c.userHeapEndVaddr) ∨
      StackReturns s.mem c ctx.addr ∧ (¬ StackAffordable s.mem c ctx.addr ∨
        ctx.addr ≠ upToPage c.userHeapEndVaddr ∧ ctx'.addr ≠ upToPage c.userHeapEndVaddr) := by
  have sameGap : c.InGap ctx'.addr ↔ c.InGap ctx.addr := by
    rw [PCB.InGap, PCB.InGap, samePage]
  have samePages : faultPage ctx'.addr = faultPage ctx.addr := by
    rw [faultPage, faultPage, samePage]
  have sameReturns : StackReturns s.mem c ctx'.addr ↔ StackReturns s.mem c ctx.addr := by
    rw [StackReturns, StackReturns, samePages]
  have sameCost : StackAffordable s.mem c ctx'.addr ↔ StackAffordable s.mem c ctx.addr := by
    rw [StackAffordable, StackAffordable, samePages]
  have first : memoryTrapAction c ctx = .grow ↔ _ := memoryTrapAction_page mapErr
  have second : memoryTrapAction c ctx' = .grow ↔ _ := memoryTrapAction_page mapErr'
  rw [sameGap] at second
  constructor
  · intro alike
    by_cases gap : c.InGap ctx.addr
    case neg => exact Or.inl gap
    have reactions : ((∃ m c', GrowsTo env s ctx m c') ∨ Kills env s ctx) ∧
        ((∃ m c', GrowsTo env s ctx' m c') ∨ Kills env s ctx') := by
      rcases alike with ⟨m, c', grows, grows'⟩ | ⟨kills, kills'⟩
      · exact ⟨Or.inl ⟨m, c', grows⟩, Or.inl ⟨m, c', grows'⟩⟩
      · exact ⟨Or.inr kills, Or.inr kills'⟩
    by_cases atLimit : ctx.addr = upToPage c.userHeapEndVaddr
    · by_cases atLimit' : ctx'.addr = upToPage c.userHeapEndVaddr
      · exact Or.inr (Or.inl ⟨atLimit, atLimit'⟩)
      have action' := second.mpr ⟨gap, atLimit'⟩
      have returns := sameReturns.mp (returns_of_reaction live action' reactions.2)
      refine Or.inr (Or.inr ⟨returns, Or.inl fun affordable => ?_⟩)
      exact not_endAlike_of_limit live samePage returns affordable
        (fun action => (first.mp action).2 atLimit) action' alike
    · have action := first.mpr ⟨gap, atLimit⟩
      have returns := returns_of_reaction live action reactions.1
      refine Or.inr (Or.inr ⟨returns, ?_⟩)
      by_cases affordable : StackAffordable s.mem c ctx.addr
      case neg => exact Or.inl affordable
      refine Or.inr ⟨atLimit, fun atLimit' => ?_⟩
      exact not_endAlike_of_limit live samePage.symm (sameReturns.mpr returns)
        (sameCost.mpr affordable) (fun action => (second.mp action).2 atLimit') action alike.symm
  · rintro (apart | ⟨atLimit, atLimit'⟩ | ⟨returns, reach⟩)
    · exact Or.inr ⟨kills_of_refused live mapErr fun action => apart (first.mp action).1,
        kills_of_refused live mapErr' fun action => apart (second.mp action).1⟩
    · exact Or.inr ⟨kills_of_refused live mapErr fun action => (first.mp action).2 atLimit,
        kills_of_refused live mapErr' fun action => (second.mp action).2 atLimit'⟩
    · by_cases grows : StackAffordable s.mem c ctx.addr ∧ c.InGap ctx.addr
      · obtain ⟨affordable, gap⟩ := grows
        obtain ⟨above, above'⟩ := reach.resolve_left (not_not.mpr affordable)
        obtain ⟨m, pt, left, right⟩ := growTo_both live samePage returns affordable
          (first.mpr ⟨gap, above⟩) (second.mpr ⟨gap, above'⟩)
        exact Or.inl ⟨m, _, left, right⟩
      · refine Or.inr ⟨kills_unless_affordable live mapErr returns fun action affordable => ?_,
          kills_unless_affordable live mapErr' (sameReturns.mpr returns)
            fun action affordable => ?_⟩
        · exact grows ⟨affordable, (first.mp action).1⟩
        · exact grows ⟨sameCost.mp affordable, (second.mp action).1⟩

/-- Faults elsewhere in the first page above init's heap agree. -/
theorem faults_agree_sample : ∃ (s : Kernel) (c : PCB), s.heap s.currentProcess = some c ∧
    c.userHeapEndVaddr = 0x106000 ∧
      EndAlike sampleEnv s (mapFault 0x106004) (mapFault 0x107ffc) := by
  have answer : runs sampleEnv sampleBoot (fun _ _ => true)
      [.tick, .resume, .call yalnixBrk 0x106000 0 0]
      (fun s => (s.heap s.currentProcess).any fun b => decide (b.userHeapEndVaddr = 0x106000 ∧
        b.stackPage ≤ maxPtLen)) = .ok true := by
    decide +kernel
  obtain ⟨boot, s, -, -, known⟩ := runs_sound (fun _ _ => True) (fun _ _ _ => trivial) answer
  obtain ⟨b, live, known⟩ := (Option.any_eq_true ..).mp known
  obtain ⟨heapEnd, inside⟩ := of_decide_eq_true known
  have returns : StackReturns s.mem b (mapFault 0x106004).addr :=
    fun leaves => Nat.not_lt_of_le inside leaves.2.1
  have above : (mapFault 0x106004).addr ≠ upToPage b.userHeapEndVaddr := by
    rw [heapEnd]
    decide
  have above' : (mapFault 0x107ffc).addr ≠ upToPage b.userHeapEndVaddr := by
    rw [heapEnd]
    decide
  exact ⟨s, b, live, heapEnd, (faults_agree_iff live rfl rfl (by decide)).mpr
    (Or.inr (Or.inr ⟨returns, Or.inr ⟨above, above'⟩⟩))⟩

/-- The first address of that page kills init, the next ones grow its stack. -/
theorem faults_disagree : ¬ ∀ env (s : Kernel) c ctx ctx', s.heap s.currentProcess = some c →
    ctx.code = yalnixMapErr → ctx'.code = yalnixMapErr →
    downToPage ctx.addr = downToPage ctx'.addr → EndAlike env s ctx ctx' := by
  intro agree
  have answer : runs sampleEnv sampleBoot (fun _ _ => true)
      [.tick, .resume, .call yalnixBrk 0x106000 0 0]
      (fun s => (s.heap s.currentProcess).any fun b => decide (b.userHeapEndVaddr = 0x106000 ∧
        b.userStackBaseVaddr = 0x1fe000 ∧ b.stackPage ≤ maxPtLen ∧
        b.stackPage - faultPage 0x106004 ≤ s.mem.freeFrames.card)) = .ok true := by
    decide +kernel
  obtain ⟨boot, s, -, -, known⟩ := runs_sound (fun _ _ => True) (fun _ _ _ => trivial) answer
  obtain ⟨b, live, known⟩ := (Option.any_eq_true ..).mp known
  obtain ⟨heapEnd, stackBase, inside, affordable⟩ := of_decide_eq_true known
  have returns : StackReturns s.mem b (mapFault 0x106000).addr :=
    fun leaves => Nat.not_lt_of_le inside leaves.2.1
  have refused : memoryTrapAction b (mapFault 0x106000) ≠ .grow := by
    intro action
    obtain ⟨-, above, -⟩ := memoryTrapAction_grow.mp action
    rw [heapEnd] at above
    exact absurd above (by decide)
  have action : memoryTrapAction b (mapFault 0x106004) = .grow := by
    refine memoryTrapAction_grow.mpr ⟨rfl, ?_, ?_⟩
    · rw [heapEnd]
      decide
    · rw [stackBase]
      decide
  have samePage : downToPage (mapFault 0x106000).addr = downToPage (mapFault 0x106004).addr := by
    decide
  exact not_endAlike_of_limit live samePage returns affordable refused action
    (agree sampleEnv s b _ _ live rfl rfl samePage)

end Yalnix
