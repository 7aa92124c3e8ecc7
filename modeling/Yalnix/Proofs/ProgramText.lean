/-
Module: Yalnix.Proofs.ProgramText
Purpose: What is loaded as text stays as it was loaded: no store of the program, no call that the
  kernel answers into its memory and no other process changes a page that may not be written.
Trusted boundary: none
Main exports: Pte.Fixed, PCB.TextBelow, TextKept, textKept_step, text_unchanged
-/
import Yalnix.Proofs.HeapOverKernel

namespace Yalnix

open Memory Transition

/-- Mapped, and not for writing. -/
def Pte.Fixed (e : Pte) : Prop := e.valid = true ∧ e.writable = false

instance (e : Pte) : Decidable e.Fixed :=
  inferInstanceAs (Decidable (e.valid = true ∧ e.writable = false))

/-- The kernel's break is at page `top` or above it, and at no page whose address wraps. -/
structure PCB.TextBelow (top : Nat) (b : PCB) : Prop where
  region : vmem1Base ≤ (upToPage b.userHeapEndVaddr).toNat
  above : top ≤ b.heapPage
  small : b.heapPage ≤ 0x40080

theorem PCB.TextBelow.congr {b b' : PCB} {top : Nat} (below : b.TextBelow top)
    (ends : b'.userHeapEndVaddr = b.userHeapEndVaddr) : b'.TextBelow top := by
  constructor
  · rw [ends]
    exact below.region
  · rw [PCB.heapPage, ends]
    exact below.above
  · rw [PCB.heapPage, ends]
    exact below.small

namespace Kernel

variable {env : Env} {cfg : BootConfig} {boot s s' t u : Kernel} {p q : PcbPtr} {b : PCB}
  {top : Nat}

/-- The pages of `p` below `top` that may not be written stay, with what they hold. -/
structure TextKept (top : Nat) (p : PcbPtr) (s s' : Kernel) : Prop where
  moves : SpaceMoves True False s s'
  pages : ∀ b, s.heap p = some b → b.TextBelow top → ∃ b', s'.heap p = some b' ∧
    b'.TextBelow top ∧ ∀ vpn < top, (b.ptbr vpn).Fixed → b'.ptbr vpn = b.ptbr vpn
  bytes : s.holdings.Exclusive → ∀ b, s.heap p = some b → b.TextBelow top → ∀ vpn f, vpn < top →
    vpn < maxPtLen → (b.ptbr vpn).Fixed → (b.ptbr vpn).frame = some f →
      s'.mem.phys f = s.mem.phys f

namespace TextKept

theorem trans (first : TextKept top p s t) (second : TextKept top p t u) : TextKept top p s u where
  moves := first.moves.trans second.moves
  pages b live below := by
    obtain ⟨c, live', below', same⟩ := first.pages b live below
    obtain ⟨d, live'', below'', same'⟩ := second.pages c live' below'
    refine ⟨d, live'', below'', fun vpn inside fixed => ?_⟩
    have here := same vpn inside fixed
    rw [← here] at fixed ⊢
    exact same' vpn inside fixed
  bytes exclusive b live below vpn f inside bound fixed named := by
    obtain ⟨c, live', below', same⟩ := first.pages b live below
    have here := same vpn inside fixed
    have fixed' : (c.ptbr vpn).Fixed := by
      rw [here]
      exact fixed
    have named' : (c.ptbr vpn).frame = some f := by
      rw [here]
      exact named
    have earlier := first.bytes exclusive b live below vpn f inside bound fixed named
    have later := second.bytes (exclusive.changes first.moves.changes) c live' below' vpn f inside
      bound fixed' named'
    exact later.trans earlier

/-- Where all pages stay, so do these. -/
theorem of_pages (kept : PagesKept False p s s') : TextKept top p s s' where
  moves := kept.moves
  pages b live below := by
    obtain ⟨b', live', same⟩ := kept.region b live
    simp only [PCB.region1, Prod.mk.injEq] at same
    exact ⟨b', live', below.congr same.2.2.1, fun vpn _ _ => by rw [same.1]⟩
  bytes exclusive b live _ vpn f _ bound _ named :=
    (kept.bytes exclusive b live vpn f bound named).resolve_left id

/-- The table of `p` itself changes, and nothing that memory holds. -/
theorem of_table {b' : PCB} (moves : SpaceMoves True False s s') (live : s.heap p = some b)
    (live' : s'.heap p = some b') (phys : s'.mem.phys = s.mem.phys)
    (kept : b.TextBelow top → b'.TextBelow top ∧
      ∀ vpn < top, (b.ptbr vpn).Fixed → b'.ptbr vpn = b.ptbr vpn) : TextKept top p s s' where
  moves := moves
  pages c found below := by
    obtain rfl : b = c := Option.some.inj (live.symm.trans found)
    exact ⟨b', live', kept below⟩
  bytes _ _ _ _ _ _ _ _ _ _ := congrFun phys _

/-- A store through the table in force writes pages that may be written, whose frames are named
nowhere else. -/
theorem storeUser {va : Word} {bytes : List Byte} (h : s.storeUser va bytes = .ok s') :
    TextKept top p s s' := by
  by_cases own : s.ptbr1 = p
  case neg => exact of_pages (.storeUser own h)
  have moves : SpaceMoves True False s s' := .storeUser h
  obtain ⟨c, m, found, stored, rfl⟩ := storeUser_eq_ok.mp h
  rw [own] at found
  refine ⟨moves, fun b live below => ⟨b, live, below, fun _ _ _ => rfl⟩, ?_⟩
  intro exclusive b live below vpn f inside bound fixed named
  obtain rfl : b = c := Option.some.inj (live.symm.trans found)
  by_contra differs
  obtain ⟨page, among, writable, shared⟩ := storeFun_frames stored differs
  have holds {vpn : Nat} (bound : vpn < maxPtLen) (named : (b.ptbr vpn).frame = some f) :
      s.holdings.holds (.region1 p, vpn) = some f := by
    rw [holdings, holds_table (by simp), tables_region1 live]
    exact (if_pos bound).trans named
  have same : (TableId.region1 p, page) = (TableId.region1 p, vpn) :=
    exclusive.once _ _ _ (holds among shared) (holds bound named)
  obtain rfl : page = vpn := (Prod.mk.inj same).2
  rw [fixed.2] at writable
  cases writable

/-- The elementary changes. -/
theorem rule (top : Nat) (p : PcbPtr) : StepRule (fun _ => True) (TextKept top p) where
  trans := trans
  same heap next mem current := of_pages ((PagesKept.rule False p).same heap next mem current)
  setPcb live region stack := of_pages ((PagesKept.rule False p).setPcb live region stack)
  kcSwitch h := of_pages ((PagesKept.rule False p).kcSwitch h)
  storeUser _ h := storeUser h

/-- `Brk` maps what is not mapped, and moves the break to the page of its argument. -/
theorem brk {addr : Word} {status : Status}
    (above : s.currentProcess = p → top ≤ pageOf (upToPage addr))
    (h : s.brk env addr = .ok (status, s')) : TextKept top p s s' := by
  by_cases own : s.currentProcess = p
  case neg => exact of_pages (.brk own h)
  subst own
  have moves : SpaceMoves True False s s' := .brk h
  rcases brk_eq_ok h with ⟨-, rfl⟩ | ⟨-, c, m, pt, live, ⟨grew, rfl⟩ | ⟨grew, rfl⟩⟩
  · exact (rule top s'.currentProcess).refl s'
  · apply of_table moves live (Function.update_self ..) (brkGrow_phys grew)
    intro below
    refine ⟨below.congr rfl, fun vpn _ fixed => ?_⟩
    exact (brkGrow_eq_ok grew).1 vpn (Or.inr (Or.inr fixed.1))
  · apply of_table moves live (Function.update_self ..) (brkGrow_phys grew)
    intro below
    refine ⟨?_, fun vpn _ fixed => (brkGrow_eq_ok grew).1 vpn (Or.inr (Or.inr fixed.1))⟩
    obtain ⟨-, ⟨-, -, -, range⟩ | ⟨failed, -⟩⟩ := brkGrow_eq_ok grew
    case inr => cases failed
    simp only [maxPtLen] at range
    have heapSmall := below.small
    have small : pageOf (upToPage addr) ≤ 0x40080 := by omega
    obtain ⟨moved, isMoved⟩ : ∃ moved : PCB, moved =
        { c with ptbr := pt, userHeapEndVaddr := regionAddress (pageOf (upToPage addr)) } :=
      ⟨_, rfl⟩
    have ends : moved.userHeapEndVaddr = regionAddress (pageOf (upToPage addr)) := by rw [isMoved]
    have page := heapPage_of_region small ends
    rw [← isMoved]
    constructor
    · rw [ends, upToPage_of_aligned (regionAddress_aligned small), regionAddress_toNat small]
      exact Nat.le_add_left ..
    · rw [page]
      exact above rfl
    · rw [page]
      exact small

/-- The stack grows above the break. -/
theorem grow {ctx : UserContext} {status : Status} (live : s.heap s.currentProcess = some b)
    (action : memoryTrapAction b ctx = .grow)
    (h : s.growStack ctx.addr = .ok (status, s')) : TextKept top p s s' := by
  by_cases own : s.currentProcess = p
  case neg => exact of_pages (.growStack own h)
  subst own
  have moves : SpaceMoves True False s s' := .growStack (fun _ _ _ _ _ => Or.inr trivial) h
  obtain ⟨c, m, pt, found, grew, outcome⟩ := growStack_eq_ok h
  obtain rfl : b = c := Option.some.inj (live.symm.trans found)
  have kept (below : b.TextBelow top) (vpn : Nat) (inside : vpn < top) : pt vpn = b.ptbr vpn := by
    rcases growStackPages_plain grew vpn with same | ⟨beyond, -⟩
    · exact same
    · have heap := below.above.trans (heapPage_le_of_grow action below.region)
      exact absurd (heap.trans beyond) (Nat.not_le.mpr inside)
  rcases outcome with ⟨-, rfl⟩ | ⟨-, rfl⟩
  · apply of_table moves live (Function.update_self ..) (growStackPages_phys grew)
    exact fun below => ⟨below.congr rfl, fun vpn inside _ => kept below vpn inside⟩
  · apply of_table moves live (Function.update_self ..) (growStackPages_phys grew)
    exact fun below => ⟨below.congr rfl, fun vpn inside _ => kept below vpn inside⟩

end TextKept

/-! ### Runs -/

/-- The program of `p` goes on: it is not reaped, calls no `Exec`, and moves its break to addresses
from page `top` on. -/
def KeepsText (env : Env) (p : PcbPtr) (top : Nat) (s : Kernel) (i : Input) : Prop :=
  s.LoadFits env i ∧ ¬ s.Reaps p i ∧ (s.currentProcess = p → ∀ ctx req, i = .kernelTrap ctx req →
    ctx.code ≠ yalnixExec ∧ (ctx.code = yalnixBrk → top ≤ pageOf (upToPage (ctx.regs 0))))

theorem textKept_step {i : Input} (settled : s.Settled) (keeps : KeepsText env p top s i)
    (h : s.deliver env i = .ok s') : TextKept top p s s' := by
  obtain ⟨fits, alive, own⟩ := keeps
  have steps : FrameSteps (TextKept top p) env s i := by
    apply frameSteps_of TextKept.of_pages settled.ready fits alive
    case ownBrk =>
      intro running ctx req t status u isCall code saved moved
      exact TextKept.brk (fun _ => (own running ctx req isCall).2 code) moved
    case ownExec =>
      intro running ctx req isCall
      exact (own running ctx req isCall).1
    case ownGrow =>
      intro running ctx c status t isTrap live action grown
      have live' : (s.trap ctx).heap (s.trap ctx).currentProcess = some c := live
      exact TextKept.grow live' action grown
  exact (TextKept.rule top p).deliver trivial steps h

theorem textKept_run (valid : ∀ k, env.helperNewPid k ≠ Status.error.code)
    (ordered : cfg.Ordered) (enough : cfg.Enough) (started : kernelStart env cfg = .ok boot)
    (before : Reaches (Guarded (Step env) (LoadFits env)) boot s)
    (run : Reaches (Guarded (Step env) (KeepsText env p top)) s s') : TextKept top p s s' := by
  induction run with
  | refl => exact (TextKept.rule top p).refl s
  | tail run last inductionHypothesis =>
      obtain ⟨i, keeps, step⟩ := last
      have fitting : Reaches (Guarded (Step env) (LoadFits env)) s _ :=
        Reaches.mono (fun _ _ _ taken => ⟨taken.1.1, taken.2⟩) run
      have settled := settled_reaches valid ordered enough started (before.trans fitting)
      exact inductionHypothesis.trans (textKept_step settled keeps step.2)

/-- What is on pages that may not be written reads as before. -/
theorem TextKept.reads (kept : TextKept top p s s') (exclusive : s.holdings.Exclusive)
    (live : s.heap p = some b) (below : b.TextBelow top) :
    ∃ b', s'.heap p = some b' ∧ (∀ vpn < top, (b.ptbr vpn).Fixed → b'.ptbr vpn = b.ptbr vpn) ∧
      ∀ va n, (∀ vpn ∈ rangePages va n, vpn < top ∧ (b.ptbr vpn).Fixed) →
        s'.mem.loadRange b'.ptbr va n = s.mem.loadRange b.ptbr va n := by
  obtain ⟨b', live', -, same⟩ := kept.pages b live below
  refine ⟨b', live', same, fun va n text => ?_⟩
  apply loadRange_congr
  · intro vpn member
    obtain ⟨inside, fixed⟩ := text vpn member
    exact same vpn inside fixed
  · intro vpn member bound f named
    obtain ⟨inside, fixed⟩ := text vpn member
    exact kept.bytes exclusive b live below vpn f inside bound fixed named

/-- The text of a program stays: over every run, whatever the program and the others do, its pages
that may not be written stay mapped as they are, and what they hold reads as before. -/
theorem text_unchanged (valid : ∀ k, env.helperNewPid k ≠ Status.error.code)
    (ordered : cfg.Ordered) (enough : cfg.Enough) (started : kernelStart env cfg = .ok boot)
    (before : Reaches (Guarded (Step env) (LoadFits env)) boot s) (live : s.heap p = some b)
    (below : b.TextBelow top)
    (run : Reaches (Guarded (Step env) (KeepsText env p top)) s s') :
    ∃ b', s'.heap p = some b' ∧ (∀ vpn < top, (b.ptbr vpn).Fixed → b'.ptbr vpn = b.ptbr vpn) ∧
      ∀ va n, (∀ vpn ∈ rangePages va n, vpn < top ∧ (b.ptbr vpn).Fixed) →
        s'.mem.loadRange b'.ptbr va n = s.mem.loadRange b.ptbr va n :=
  (textKept_run valid ordered enough started before run).reads
    (settled_reaches valid ordered enough started before).exclusive live below

/-- The program of `p` keeps to `KeepsText`, found out from its calls. -/
def keepsText (p : PcbPtr) (top : Nat) (s : Kernel) (i : Input) : Bool :=
  loadsNothing s i && decide (p ∉ s.queues .zombie) &&
    match i with
    | .kernelTrap ctx _ => decide (ctx.code ≠ yalnixBrk ∨ top ≤ pageOf (upToPage (ctx.regs 0)))
    | _ => true

theorem keepsText_sound {i : Input} (checked : keepsText p top s i = true) :
    KeepsText env p top s i := by
  obtain ⟨checked, calls⟩ := Bool.and_eq_true_iff.mp checked
  obtain ⟨quiet, alive⟩ := Bool.and_eq_true_iff.mp checked
  have alive := of_decide_eq_true alive
  refine ⟨loadsNothing_fits quiet, fun reaps => alive reaps.zombie, ?_⟩
  rintro - ctx req rfl
  have moves : ctx.code ≠ yalnixBrk ∨ top ≤ pageOf (upToPage (ctx.regs 0)) :=
    of_decide_eq_true calls
  exact ⟨of_decide_eq_true quiet, fun code => moves.resolve_left fun other => other code⟩

/-- Init writes its data, grows its heap and its stack and forks; its text is as before. -/
theorem text_unchanged_sample : ∃ s s' : Kernel, ∃ b b' : PCB, s.heap 1 = some b ∧
    s'.heap 1 = some b' ∧ s'.userBytes 1 0x102000 1 = [7] ∧ b'.ptbr 0 = b.ptbr 0 ∧
      s'.mem.loadRange b'.ptbr 0x100000 8 = s.mem.loadRange b.ptbr 0x100000 8 := by
  have answer : (do
      let boot ← kernelStart sampleEnv sampleBoot
      let s ← run sampleEnv loadsNothing [.tick, .resume] boot
      let s' ← run sampleEnv (keepsText 1 1)
        [.userStore 0x102000 [7], .call yalnixBrk 0x106000 0 0,
          .memoryTrap { UserContext.zero with addr := 0x1fa000 }, .call yalnixFork 0 0 0, .tick,
          .resume] s
      return ((s.heap 1).any fun b => decide (vmem1Base ≤ (upToPage b.userHeapEndVaddr).toNat ∧
        1 ≤ b.heapPage ∧ b.heapPage ≤ 0x40080 ∧ (b.ptbr 0).Fixed)) &&
          decide (s'.userBytes 1 0x102000 1 = [7]) : Except Stop Bool) = .ok true := by
    decide +kernel
  simp only [bind_eq_ok, pure_eq_ok, Bool.and_eq_true_iff, decide_eq_true_iff] at answer
  obtain ⟨boot, started, s, ran, s', ran', loaded, wrote⟩ := answer
  obtain ⟨b, live, loaded⟩ := (Option.any_eq_true _ _).mp loaded
  obtain ⟨region, above, small, fixed⟩ := of_decide_eq_true loaded
  have enough : sampleBoot.Enough := by
    rintro li ⟨⟩
    decide
  have valid (k : Nat) : sampleEnv.helperNewPid k ≠ Status.error.code := by
    intro same
    cases same
  have before : Reaches (Guarded (Step sampleEnv) (LoadFits sampleEnv)) boot s :=
    run_reaches _ (fun _ _ => loadsNothing_fits) ran
  have later : Reaches (Guarded (Step sampleEnv) (KeepsText sampleEnv 1 1)) s s' :=
    run_reaches _ (fun _ _ => keepsText_sound) ran'
  obtain ⟨b', live', same, reads⟩ := text_unchanged valid ⟨by decide, by decide, by decide⟩
    enough started before live ⟨region, above, small⟩ later
  refine ⟨s, s', b, b', live, live', wrote, same 0 Nat.zero_lt_one fixed, reads _ _ ?_⟩
  have one : rangePages 0x100000 8 = [0] := by decide
  rw [one]
  intro vpn member
  rw [List.mem_singleton.mp member]
  exact ⟨Nat.zero_lt_one, fixed⟩

end Kernel

end Yalnix
