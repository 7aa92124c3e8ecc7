/-
Module: Yalnix.Proofs.FrameAccounts
Purpose: The frame table and its counter under any sequence of allocFrame, allocSpecificFrame and
  freeFrame: for which calls free_nframes stays the number of free frames.
Trusted boundary: none
Main exports: initializeFreeFrameList_counterExact, bootMemory_frames, FrameCall, Accounts,
  FrameCall.Proper, frame_accounts_exact_iff
-/
import Mathlib.Order.Interval.Finset.Nat
import Yalnix.Boot
import Yalnix.Lib.Transition
import Yalnix.Proofs.AddressSpace
import Yalnix.Run

namespace Yalnix

open Memory Transition

variable {m m' : Memory} {textSectionBasePage kernelBrkPfn : Int} {pfn : Nat} {usage : FrameUsage}
  {cfg : BootConfig}

/-! ### The table at the start -/

/-- What the loop of `InitializeFreeFrameList` has done once the entries of a list are made. -/
structure Entered (textSectionBasePage kernelBrkPfn : Int) (entries : List Nat) (m m' : Memory) :
    Prop where
  nframes : m'.nframes = m.nframes
  counter : m'.freeNframes = m.freeNframes +
    entries.countP fun i => decide (m'.frameTable i = .free)
  made : ∀ i ∈ entries, m'.frameTable i =
    if textSectionBasePage ≤ i ∧ i < kernelBrkPfn then .kernel else .free
  others : ∀ i ∉ entries, m'.frameTable i = m.frameTable i

/-- The loop, one entry at a time: an entry made is not made again. -/
theorem enterFrames_entered {entries : List Nat} (distinct : entries.Nodup) (m : Memory) :
    Entered textSectionBasePage kernelBrkPfn entries m
      (enterFrames textSectionBasePage kernelBrkPfn entries m) := by
  induction entries generalizing m with
  | nil => exact ⟨rfl, by simp [enterFrames], by simp, fun i _ => rfl⟩
  | cons i rest inductionHypothesis =>
      obtain ⟨first, later⟩ := List.nodup_cons.mp distinct
      rw [enterFrames]
      by_cases kernelFrame : textSectionBasePage ≤ i ∧ i < kernelBrkPfn
      · rw [if_pos kernelFrame]
        have done := inductionHypothesis later
          { m with frameTable := Function.update m.frameTable i .kernel }
        refine ⟨done.nframes, ?_, ?_, ?_⟩
        · rw [List.countP_cons_of_neg, done.counter]
          simp [done.others i first]
        · intro j listed
          rcases List.mem_cons.mp listed with rfl | listed
          · rw [done.others j first, if_pos kernelFrame]
            exact Function.update_self ..
          · exact done.made j listed
        · intro j unlisted
          rw [List.mem_cons, not_or] at unlisted
          rw [done.others j unlisted.2]
          exact Function.update_of_ne unlisted.1 ..
      · rw [if_neg kernelFrame]
        have done := inductionHypothesis later
          { m with
            frameTable := Function.update m.frameTable i .free
            freeNframes := m.freeNframes + 1 }
        refine ⟨done.nframes, ?_, ?_, ?_⟩
        · rw [List.countP_cons_of_pos, done.counter]
          · push_cast
            omega
          · simp [done.others i first]
        · intro j listed
          rcases List.mem_cons.mp listed with rfl | listed
          · rw [done.others j first, if_neg kernelFrame]
            exact Function.update_self ..
          · exact done.made j listed
        · intro j unlisted
          rw [List.mem_cons, not_or] at unlisted
          rw [done.others j unlisted.2]
          exact Function.update_of_ne unlisted.1 ..

/-- Each frame of the table that `InitializeFreeFrameList` makes. -/
theorem initializeFreeFrameList_frameTable (pmemSize : Nat) (m : Memory)
    (inRange : pfn < pmemSize / pageSize) :
    (initializeFreeFrameList textSectionBasePage kernelBrkPfn pmemSize m).frameTable pfn =
      if textSectionBasePage ≤ pfn ∧ pfn < kernelBrkPfn then .kernel else .free :=
  (enterFrames_entered List.nodup_range _).made pfn (List.mem_range.mpr inRange)

@[simp] theorem initializeFreeFrameList_nframes (pmemSize : Nat) (m : Memory) :
    (initializeFreeFrameList textSectionBasePage kernelBrkPfn pmemSize m).nframes =
      pmemSize / pageSize :=
  (enterFrames_entered List.nodup_range _).nframes

theorem card_freeFrames_eq_countP (m : Memory) : m.freeFrames.card =
    (List.range m.nframes).countP fun pfn => decide (m.frameTable pfn = .free) := by
  rw [List.countP_eq_length_filter]
  rfl

/-- `InitializeFreeFrameList` leaves the counter at the number of free frames. -/
theorem initializeFreeFrameList_counterExact (pmemSize : Nat) (m : Memory) :
    (initializeFreeFrameList textSectionBasePage kernelBrkPfn pmemSize m).CounterExact := by
  obtain ⟨-, counter, -, -⟩ := @enterFrames_entered textSectionBasePage kernelBrkPfn
    (List.range (pmemSize / pageSize)) List.nodup_range
    { m with nframes := pmemSize / pageSize, freeNframes := 0 }
  rw [CounterExact, card_freeFrames_eq_countP, initializeFreeFrameList_nframes]
  rw [initializeFreeFrameList, counter, Int.zero_add]

theorem mem_bootMemory_freeFrames :
    pfn ∈ (bootMemory cfg).freeFrames ↔ cfg.origKernelBrkPage ≤ pfn ∧ pfn < cfg.nframes := by
  rw [mem_freeFrames]
  simp only [bootMemory]
  by_cases below : pfn < cfg.origKernelBrkPage
  · simp [below]
  · simp [below]
    omega

theorem card_bootMemory_freeFrames :
    (bootMemory cfg).freeFrames.card = cfg.nframes - cfg.origKernelBrkPage := by
  have interval : (bootMemory cfg).freeFrames = Finset.Ico cfg.origKernelBrkPage cfg.nframes := by
    ext pfn
    rw [mem_bootMemory_freeFrames, Finset.mem_Ico]
  rw [interval, Nat.card_Ico]

/-- The machine comes up with the frames that `InitializeFreeFrameList` enters: its
`text_section_base_page` is 0. -/
theorem bootMemory_frames (cfg : BootConfig) (m : Memory) :
    let built := initializeFreeFrameList 0 cfg.origKernelBrkPage (cfg.nframes * pageSize) m
    built.nframes = (bootMemory cfg).nframes ∧
      built.freeNframes = (bootMemory cfg).freeNframes ∧
      ∀ pfn < cfg.nframes, built.frameTable pfn = (bootMemory cfg).frameTable pfn := by
  intro built
  have nframes : built.nframes = cfg.nframes := by
    rw [initializeFreeFrameList_nframes]
    exact Nat.mul_div_cancel cfg.nframes (by decide)
  have table : ∀ pfn < cfg.nframes,
      built.frameTable pfn = (bootMemory cfg).frameTable pfn := by
    intro pfn inRange
    rw [← nframes, initializeFreeFrameList_nframes] at inRange
    rw [initializeFreeFrameList_frameTable _ m inRange]
    simp [bootMemory]
  refine ⟨nframes, ?_, table⟩
  have sameFree : built.freeFrames = (bootMemory cfg).freeFrames := by
    ext pfn
    rw [mem_freeFrames, mem_freeFrames, nframes]
    exact and_congr_right fun inRange => by rw [table pfn inRange]
  rw [initializeFreeFrameList_counterExact, sameFree, card_bootMemory_freeFrames]
  rfl

/-! ### Calls -/

/-- A call of one of the three operations on frames. -/
inductive FrameCall where
  | allocFrame (usage : FrameUsage)
  | allocSpecificFrame (pfn : Int) (usage : FrameUsage)
  | freeFrame (pfn : Int)
deriving DecidableEq, Repr

namespace FrameCall

/-- What the call returns, -1 being `none`, and the memory after it.  `freeFrame` returns
nothing. -/
def run : FrameCall → Memory → Except Stop (Option Nat × Memory)
  | allocFrame usage, m =>
      match m.allocFrame usage with
      | some (pfn, taken) => .ok (some pfn, taken)
      | none => .ok (none, m)
  | allocSpecificFrame pfn usage, m => m.allocSpecificFrame pfn usage
  | freeFrame pfn, m => .ok (none, m.freeFrame pfn)

/-- The call names a frame that does not exist, or gives back a frame that is free. -/
def Idle (m : Memory) : FrameCall → Prop
  | allocFrame _ => False
  | allocSpecificFrame pfn _ => ¬ (0 ≤ pfn ∧ pfn < m.nframes)
  | freeFrame pfn => ¬ (0 ≤ pfn ∧ pfn < m.nframes) ∨ pfn.toNat ∈ m.freeFrames

/-- The call does not give back a free frame, does not ask for a frame with a negative number, and
does not take a free frame for the usage `FRAME_FREE`. -/
def Proper (m : Memory) : FrameCall → Prop
  | allocFrame usage => usage = .free → m.freeFrames = ∅
  | allocSpecificFrame pfn usage => 0 ≤ pfn ∧ (usage = .free → pfn.toNat ∉ m.freeFrames)
  | freeFrame pfn => ¬ (0 ≤ pfn ∧ pfn.toNat ∈ m.freeFrames)

/-- A call as a step of the frame table. -/
def Step (m : Memory) (call : FrameCall) (m' : Memory) : Prop :=
  ∃ result, call.run m = .ok (result, m')

end FrameCall

/-- What a call owes to the frame table. -/
structure Accounts (m : Memory) (call : FrameCall) (result : Option Nat) (m' : Memory) : Prop where
  counter : m'.CounterExact
  exhausted : ∀ usage, call = .allocFrame usage → (result = none ↔ m.freeFrames.card = 0)
  wasFree : ∀ pfn, result = some pfn → pfn ∈ m.freeFrames
  idle : call.Idle m → m' = m
  inTable : ∀ pfn, m.nframes ≤ pfn → m'.frameTable pfn = m.frameTable pfn

/-- The call comes back, and has done what it owes. -/
def CallExact (m : Memory) (call : FrameCall) : Prop :=
  ∃ result m', call.run m = .ok (result, m') ∧ Accounts m call result m'

/-! ### One call -/

/-- Taking a free frame keeps the counter right unless it is taken for `FRAME_FREE`. -/
theorem takeFrame_counterExact (counted : m.CounterExact) (free : pfn ∈ m.freeFrames) :
    (m.takeFrame pfn usage).CounterExact ↔ usage ≠ .free := by
  have positive : 0 < m.freeFrames.card := Finset.card_pos.mpr ⟨pfn, free⟩
  have counter : (m.takeFrame pfn usage).freeNframes = m.freeFrames.card - 1 := by
    rw [CounterExact] at counted
    rw [takeFrame, counted, if_pos (by omega)]
  rw [CounterExact, counter]
  by_cases unused : usage = .free
  · have same : (m.takeFrame pfn usage).freeFrames = m.freeFrames := by
      refine freeFrames_congr takeFrame_nframes ?_
      rw [takeFrame_frameTable, unused, ← (mem_freeFrames.mp free).2, Function.update_eq_self]
    rw [same]
    simp only [ne_eq, unused, not_true_eq_false, iff_false]
    omega
  · have left := card_freeFrames_takeFrame unused free
    simp only [ne_eq, unused, not_false_eq_true, iff_true]
    omega

/-- Giving back a frame keeps the counter right unless the frame is free. -/
theorem freeFrame_counterExact (counted : m.CounterExact) :
    (m.freeFrame pfn).CounterExact ↔ pfn ∉ m.freeFrames := by
  by_cases inRange : pfn < m.nframes
  · by_cases unused : m.frameTable pfn = .free
    · have free : pfn ∈ m.freeFrames := mem_freeFrames.mpr ⟨inRange, unused⟩
      have same : (m.freeFrame pfn).freeFrames = m.freeFrames := by
        apply freeFrames_congr freeFrame_nframes
        rw [freeFrame_frameTable, if_pos inRange, ← unused, Function.update_eq_self]
      have counter : (m.freeFrame pfn).freeNframes = m.freeNframes + 1 := by
        rw [freeFrame, if_pos (validPfn_natCast.mpr inRange)]
      rw [CounterExact] at counted ⊢
      rw [same, counter, counted]
      simp [free]
    · obtain ⟨card, counter⟩ := freeFrame_count inRange unused
      rw [CounterExact] at counted ⊢
      rw [card, counter, counted, mem_freeFrames]
      simp [unused]
  · have absent : pfn ∉ m.freeFrames := fun free => inRange (mem_freeFrames.mp free).1
    rw [freeFrame_invalid (by omega)]
    exact iff_of_true counted absent

theorem callExact_of_run {call : FrameCall} {result : Option Nat}
    (ran : call.run m = .ok (result, m')) : CallExact m call ↔ Accounts m call result m' := by
  constructor
  · rintro ⟨result', m'', ran', owed⟩
    rw [ran] at ran'
    cases ran'
    exact owed
  · exact fun owed => ⟨result, m', ran, owed⟩

/-- A call that returns -1 and changes nothing owes only its -1. -/
theorem accounts_unchanged {call : FrameCall} (counted : m.CounterExact)
    (exhausted : ∀ usage, call = .allocFrame usage → m.freeFrames = ∅) :
    Accounts m call none m where
  counter := counted
  exhausted := fun usage isAlloc => by simp [exhausted usage isAlloc]
  wasFree := fun _ returned => nomatch returned
  idle := fun _ => rfl
  inTable := fun _ _ => rfl

/-- A call that takes a free frame owes a usage other than `FRAME_FREE`. -/
theorem accounts_taken {call : FrameCall} (counted : m.CounterExact) (free : pfn ∈ m.freeFrames)
    (busy : ¬ call.Idle m) :
    Accounts m call (some pfn) (m.takeFrame pfn usage) ↔ usage ≠ .free := by
  rw [← takeFrame_counterExact counted free]
  refine ⟨fun owed => owed.counter, fun counter => ?_⟩
  refine ⟨counter, ?_, ?_, fun idle => absurd idle busy, ?_⟩
  · intro usage _
    simp [Finset.ne_empty_of_mem free]
  · rintro _ ⟨⟩
    exact free
  · intro other outside
    have inRange := (mem_freeFrames.mp free).1
    rw [takeFrame_frameTable, Function.update_of_ne (by omega)]

/-- `freeFrame` owes a frame that is not free, and nothing for a frame that does not exist. -/
theorem accounts_freeFrame (counted : m.CounterExact) :
    Accounts m (.freeFrame pfn) none (m.freeFrame pfn) ↔ pfn ∉ m.freeFrames := by
  rw [← freeFrame_counterExact counted]
  refine ⟨fun owed => owed.counter, fun counter => ?_⟩
  have notFree := (freeFrame_counterExact counted).mp counter
  refine ⟨counter, by simp, by simp, ?_, ?_⟩
  · rintro (invalid | free)
    · exact freeFrame_invalid invalid
    · exact absurd free notFree
  · intro other outside
    rw [freeFrame_frameTable]
    split
    · exact Function.update_of_ne (by omega) ..
    · rfl

/-- A table whose counter is right, and a call: the call does what it owes exactly when it is
proper. -/
theorem callExact_iff (counted : m.CounterExact) (call : FrameCall) :
    CallExact m call ↔ call.Proper m := by
  cases call with
  | allocFrame usage =>
      rcases allocated : m.allocFrame usage with _ | ⟨pfn, taken⟩
      · have ran : (FrameCall.allocFrame usage).run m = .ok (none, m) := by
          rw [FrameCall.run, allocated]
        have empty := allocFrame_eq_none.mp allocated
        rw [callExact_of_run ran]
        exact iff_of_true (accounts_unchanged counted fun _ _ => empty) fun _ => empty
      · obtain ⟨free, rfl⟩ := allocFrame_eq_some allocated
        have ran : (FrameCall.allocFrame usage).run m =
            .ok (some pfn, m.takeFrame pfn usage) := by
          rw [FrameCall.run, allocated]
        rw [callExact_of_run ran, accounts_taken counted free (by simp [FrameCall.Idle])]
        simp [FrameCall.Proper, Finset.ne_empty_of_mem free]
  | allocSpecificFrame n usage =>
      by_cases negative : n < 0
      · have stopped : (FrameCall.allocSpecificFrame n usage).run m = .error (.frameIndex n) :=
          allocSpecificFrame_negative negative
        refine iff_of_false ?_ fun proper => absurd proper.1 (by omega)
        rintro ⟨result, m', ran, -⟩
        rw [stopped] at ran
        cases ran
      · obtain ⟨pfn, rfl⟩ := Int.eq_ofNat_of_zero_le (Int.not_lt.mp negative)
        by_cases free : pfn ∈ m.freeFrames
        · have inRange := (mem_freeFrames.mp free).1
          have ran : (FrameCall.allocSpecificFrame pfn usage).run m =
              .ok (some pfn, m.takeFrame pfn usage) := allocSpecificFrame_free free
          have busy : ¬ (FrameCall.allocSpecificFrame pfn usage).Idle m := by
            rw [FrameCall.Idle]
            omega
          rw [callExact_of_run ran, accounts_taken counted free busy]
          simp [FrameCall.Proper, free]
        · have ran : (FrameCall.allocSpecificFrame pfn usage).run m = .ok (none, m) :=
            allocSpecificFrame_refused free
          rw [callExact_of_run ran]
          refine iff_of_true (accounts_unchanged counted (by simp)) ?_
          simp [FrameCall.Proper, free]
  | freeFrame n =>
      have ran : (FrameCall.freeFrame n).run m = .ok (none, m.freeFrame n) := rfl
      rw [callExact_of_run ran]
      by_cases negative : n < 0
      · rw [freeFrame_invalid (by omega)]
        refine iff_of_true (accounts_unchanged counted (by simp)) ?_
        exact fun proper => absurd proper.1 (by omega)
      · obtain ⟨pfn, rfl⟩ := Int.eq_ofNat_of_zero_le (Int.not_lt.mp negative)
        rw [accounts_freeFrame counted]
        simp [FrameCall.Proper]

/-- A proper call keeps the counter right. -/
theorem proper_preserves :
    Preserves (Guarded FrameCall.Step fun m call => call.Proper m) CounterExact := by
  rintro m call m' counted ⟨proper, result, ran⟩
  have owed := (callExact_iff counted call).mpr proper
  exact ((callExact_of_run ran).mp owed).counter

/-! ### Any sequence of calls -/

/-- After any sequence of proper calls from `InitializeFreeFrameList` on, the counter is the number
of free frames, and of the calls that can come next the proper ones, and no others, keep it so,
return -1 only for want of a free frame, hand out only frames that were free, and leave everything
as it was if the frame does not exist or is given back twice. -/
theorem frame_accounts_exact_iff (textSectionBasePage kernelBrkPfn : Int) (pmemSize : Nat)
    (old m : Memory)
    (run : Reaches (Guarded FrameCall.Step fun m call => call.Proper m)
      (initializeFreeFrameList textSectionBasePage kernelBrkPfn pmemSize old) m) :
    m.CounterExact ∧ ∀ call, CallExact m call ↔ call.Proper m := by
  have counted : m.CounterExact :=
    run.invariant proper_preserves (initializeFreeFrameList_counterExact pmemSize old)
  exact ⟨counted, callExact_iff counted⟩

/-- Four frames, one of them the kernel's.  The first free one is taken and given back; giving it
back again would be counted, and frame 7 does not exist. -/
theorem frame_accounts_sample : ∃ m : Memory, m.nframes = 4 ∧ m.freeNframes = 3 ∧
    CallExact m (.allocSpecificFrame 7 .user) ∧ CallExact m (.allocSpecificFrame 2 .kernel) ∧
    ¬ CallExact m (.freeFrame 1) := by
  obtain ⟨start, isStart⟩ : ∃ m, m = initializeFreeFrameList 0 1 (4 * pageSize)
      (bootMemory sampleBoot) := ⟨_, rfl⟩
  have taken : FrameCall.Step start (.allocFrame .user) (start.takeFrame 1 .user) :=
    ⟨some 1, by subst isStart; rfl⟩
  have givenBack : FrameCall.Step (start.takeFrame 1 .user) (.freeFrame 1)
      ((start.takeFrame 1 .user).freeFrame 1) := ⟨none, rfl⟩
  have run : Reaches (Guarded FrameCall.Step fun m call => call.Proper m)
      (initializeFreeFrameList 0 1 (4 * pageSize) (bootMemory sampleBoot))
      ((start.takeFrame 1 .user).freeFrame 1) := by
    rw [← isStart]
    refine ((Reaches.refl start).tail ⟨?_, taken⟩).tail ⟨?_, givenBack⟩
    · subst isStart
      simp only [FrameCall.Proper]
      decide
    · simp [FrameCall.Proper]
  obtain ⟨-, exact_iff⟩ := frame_accounts_exact_iff 0 1 (4 * pageSize) _ _ run
  refine ⟨_, ?_, ?_, (exact_iff _).mpr ?_, (exact_iff _).mpr ?_, (exact_iff _).not.mpr ?_⟩
  · subst isStart
    decide
  · subst isStart
    decide
  · exact ⟨by decide, nofun⟩
  · exact ⟨by decide, nofun⟩
  · subst isStart
    rw [FrameCall.Proper]
    decide

/-- Two frames, the second one free.  Giving it back makes `free_nframes` 2 with one frame free;
asking for frame -1 reads below the table. -/
theorem frame_accounts_refreed :
    (¬ ∀ textSectionBasePage kernelBrkPfn pmemSize old m,
      Reaches FrameCall.Step
        (initializeFreeFrameList textSectionBasePage kernelBrkPfn pmemSize old) m →
      m.CounterExact) ∧
    ¬ ∀ textSectionBasePage kernelBrkPfn pmemSize old m,
      Reaches FrameCall.Step
        (initializeFreeFrameList textSectionBasePage kernelBrkPfn pmemSize old) m →
      ∀ call : FrameCall, ∃ result m', call.run m = .ok (result, m') := by
  obtain ⟨start, isStart⟩ : ∃ m, m = initializeFreeFrameList 0 1 (2 * pageSize)
      (bootMemory sampleBoot) := ⟨_, rfl⟩
  constructor
  · intro claim
    have givenBack : FrameCall.Step start (.freeFrame 1) (start.freeFrame 1) := ⟨none, rfl⟩
    have counted := claim 0 1 (2 * pageSize) (bootMemory sampleBoot) (start.freeFrame 1)
      (isStart ▸ (Reaches.refl start).tail givenBack)
    subst isStart
    revert counted
    rw [CounterExact]
    decide
  · intro claim
    obtain ⟨result, m', ran⟩ := claim 0 1 (2 * pageSize) (bootMemory sampleBoot) _
      (Reaches.refl _) (.allocSpecificFrame (-1) .kernel)
    rw [FrameCall.run, allocSpecificFrame_negative (by decide)] at ran
    cases ran

end Yalnix
