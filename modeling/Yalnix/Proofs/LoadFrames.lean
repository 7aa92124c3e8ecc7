/-
Module: Yalnix.Proofs.LoadFrames
Purpose: What LoadProgram does with frames: when the pages of the new image all get one, and what
  the call leaves behind when they do not.
Trusted boundary: none
Main exports: programPages, Kernel.RunsShort, Kernel.LoadsSafely, load_frames_iff
-/
import Yalnix.Proofs.LoadLayout

namespace Yalnix

open Memory

/-- The pages that the three loops of `LoadProgram` map for a program with these arguments. -/
def programPages (li : LoadInfo) (args : List (List Byte)) : Nat :=
  li.tNpg.toNat + (dataPages li).toNat + (stackPages args).toNat

theorem pages_eq {li : LoadInfo} {args : List (List Byte)} {ptlr : Nat} {plan : LoadPlan}
    (accepted : loadPlan li args ptlr = some plan) : plan.pages = programPages li args := by
  obtain ⟨-, -, rfl⟩ := loadPlan_eq_some.mp accepted
  rfl

/-- The table that the segments are mapped into is empty. -/
theorem cleared_backed {m m' : Memory} {pt pt' : PageTable}
    (h : clearRegion1 (List.range maxPtLen) m pt = (m', pt')) : Backed m' pt' := by
  intro vpn inside valid
  exact absurd (List.mem_range.mpr inside) ((clearRegion1_eq h).2.1 vpn |>.mp valid).2

namespace Kernel

variable {env : Env} {s s' : Kernel} {b b' : PCB} {p : PcbPtr} {req : LoadRequest}
  {argv : ArgVector} {status : Status}

/-! ### Too few frames -/

/-- The call gets to its allocation loops, and the frames that are free or belong to the old image
are fewer than the pages to map. -/
def RunsShort (env : Env) (s : Kernel) (b : PCB) (req : LoadRequest) (argv : ArgVector) : Prop :=
  ∃ li args plan, req.info = some li ∧ s.argStrings argv = .ok args ∧
    loadPlan li args b.ptlr = some plan ∧ env.mallocOk s.mallocCalls = true ∧
    (s.mem.reclaimable b.ptbr).card < programPages li args

theorem runsShort_saveContext (live : s.heap s.currentProcess = some b)
    (saved : s.saveContext = .ok s') (live' : s'.heap s.currentProcess = some b')
    (short : RunsShort env s' b' req argv) : RunsShort env s b req argv := by
  obtain ⟨li, args, plan, information, strings, accepted, memory, scarce⟩ := short
  rw [argStrings_saveContext saved] at strings
  obtain ⟨c, found, rfl⟩ := saveContext_eq_ok.mp saved
  obtain rfl := Option.some.inj (live.symm.trans found)
  obtain rfl := Option.some.inj (live'.symm.trans (Function.update_self ..))
  exact ⟨li, args, plan, information, strings, accepted, memory, scarce⟩

/-- The call leaves every valid entry with a frame in use, and when the frames run short it answers
`KILL`, with everything it took given back. -/
structure LoadsSafely (env : Env) (s : Kernel) (p : PcbPtr) (b : PCB) (req : LoadRequest)
    (argv : ArgVector) (status : Status) (s' : Kernel) : Prop where
  backed : ∀ b', s'.heap p = some b' → Backed s.mem b.ptbr → Backed s'.mem b'.ptbr
  undone : RunsShort env s b req argv → status = .kill ∧
    s'.mem.freeFrames = s.mem.reclaimable b.ptbr ∧
    ∀ b', s'.heap p = some b' → ∀ vpn < maxPtLen, (b'.ptbr vpn).valid = false

/-- A call of `LoadProgram` that comes back has done so exactly when the frames did not run
short. -/
theorem load_frames_iff (live : s.heap p = some b)
    (returned : s.loadProgram env req argv p = .ok (status, s')) :
    LoadsSafely env s p b req argv status s' ↔ ¬ RunsShort env s b req argv := by
  obtain ⟨b₀, live₀, outcome⟩ := loadProgram_eq_ok returned
  obtain rfl := Option.some.inj (live.symm.trans live₀)
  rcases outcome with ⟨-, same, refused⟩ | ⟨li, args, plan, information, strings, accepted, outcome⟩
  · -- nothing was changed
    have enough : ¬ RunsShort env s b req argv := by
      rintro ⟨li, args, plan, information, strings, accepted, -⟩
      obtain ⟨args', strings', none⟩ := refused li information (loadPlan_eq_some.mp accepted).1
      obtain rfl := Except.ok.inj (strings'.symm.trans strings)
      rw [none] at accepted
      cases accepted
    refine iff_of_true ⟨?_, fun short => absurd short enough⟩ enough
    intro b' after backed
    rw [same] at after ⊢
    obtain rfl := Option.some.inj (live.symm.trans after)
    exact backed
  · rcases outcome with ⟨failed, -, rfl⟩ | ⟨⟨allocated, -⟩, m, b', image, rfl⟩
    · -- no buffer for the arguments: only the stack pointer was changed
      have enough : ¬ RunsShort env s b req argv := by
        rintro ⟨-, -, -, -, -, -, allocated, -⟩
        exact absurd (failed.symm.trans allocated) Bool.false_ne_true
      refine iff_of_true ⟨?_, fun short => absurd short enough⟩ enough
      intro b' after backed
      rw [setPcb_heap, Function.update_self] at after
      obtain rfl := Option.some.inj after
      exact backed
    · obtain ⟨m₀, pt₀, m₁, pt₁, cleared, mapped, wrote, table, -⟩ := loadImage_eq_ok image
      have free : m₀.freeFrames = s.mem.reclaimable b.ptbr := clearRegion1_frees cleared
      have after : (((s.malloc env).2.setMem m).setPcb p b').heap p = some b' :=
        Function.update_self ..
      constructor
      · rintro safe ⟨li', args', plan', information', strings', accepted', -, scarce⟩
        obtain rfl := Option.some.inj (information'.symm.trans information)
        obtain rfl := Except.ok.inj (strings'.symm.trans strings)
        obtain rfl := Option.some.inj (accepted'.symm.trans accepted)
        have short := safe.undone
          ⟨li', args', plan', information, strings, accepted, allocated, scarce⟩
        rw [← free, ← pages_eq accepted] at scarce
        obtain ⟨vpn, inside, valid, -⟩ :=
          (loadSegments_unbacked scarce mapped (cleared_backed cleared)).congr table
        rw [short.2.2 b' after vpn inside] at valid
        cases valid
      · intro enough
        have frames : plan.pages ≤ m₀.freeFrames.card := by
          rw [free, pages_eq accepted]
          by_contra scarce
          exact enough
            ⟨li, args, plan, information, strings, accepted, allocated, Nat.not_le.mp scarce⟩
        have backed := loadSegments_backed frames mapped (cleared_backed cleared)
        refine ⟨?_, fun short => absurd short enough⟩
        intro b'' after' _
        obtain rfl := Option.some.inj (after.symm.trans after')
        exact backed.congr wrote.nframes wrote.frameTable table

/-- Init loads its program once more. -/
theorem load_frames_sample : ∃ s p b s', s.heap p = some b ∧
    s.loadProgram sampleEnv sampleProgram noArguments p = .ok (.success, s') ∧
    LoadsSafely sampleEnv s p b sampleProgram noArguments .success s' := by
  have answer : (do
      let boot ← kernelStart sampleEnv sampleBoot
      let s ← run sampleEnv (fun _ _ => true) [.tick, .resume] boot
      let args ← s.argStrings noArguments
      let result ← s.loadProgram sampleEnv sampleProgram noArguments s.currentProcess
      return decide (args = []) && (s.heap s.currentProcess).any fun b =>
        decide (result.1 = .success ∧ 3 ≤ (s.mem.reclaimable b.ptbr).card) : Except Stop Bool) =
          .ok true := by
    decide +kernel
  simp only [bind_eq_ok, pure_eq_ok, Bool.and_eq_true_iff, decide_eq_true_iff] at answer
  obtain ⟨boot, -, s, -, args, strings, ⟨status, s'⟩, loaded, rfl, known⟩ := answer
  obtain ⟨b, live, known⟩ := (Option.any_eq_true ..).mp known
  obtain ⟨success, frames⟩ := of_decide_eq_true known
  simp only at success
  rw [success] at loaded
  refine ⟨s, s.currentProcess, b, s', live, loaded, (load_frames_iff live loaded).mpr ?_⟩
  rintro ⟨li, args, plan, information, strings', -, -, short⟩
  obtain rfl := Option.some.inj information
  obtain rfl := Except.ok.inj (strings'.symm.trans strings)
  exact absurd (Nat.lt_of_lt_of_le short (by decide)) (Nat.not_lt.mpr frames)

/-- A machine with 133 frames. -/
def smallBoot : BootConfig := { sampleBoot with nframes := 133 }

/-- A file of 60 pages of text and 60 pages of data. -/
def largeFile : LoadInfo where
  entry := 0x100000
  tVaddr := 0x100000
  tNpg := 60
  idVaddr := 0x178000
  idNpg := 60
  idEnd := 0x1f0000
  udNpg := 0
  udEnd := 0x1f0000

def largeProgram : LoadRequest where
  info := some largeFile
  text := some (0x78000, fun _ => 0)
  data := some (0x78000, fun _ => 0)

/-- The frames run short on the way, and the load succeeds. -/
theorem load_runs_short : ¬ ∀ env (s : Kernel) p b req argv status s', s.heap p = some b →
    s.loadProgram env req argv p = .ok (status, s') →
      LoadsSafely env s p b req argv status s' := by
  intro safe
  have answer : (do
      let boot ← kernelStart sampleEnv smallBoot
      let s ← run sampleEnv (fun _ _ => true) [.tick, .resume] boot
      let args ← s.argStrings noArguments
      let result ← s.loadProgram sampleEnv largeProgram noArguments s.currentProcess
      return decide (args = []) && (s.heap s.currentProcess).any fun b =>
        decide (result.1 = .success ∧ (s.mem.reclaimable b.ptbr).card < 121) : Except Stop Bool) =
          .ok true := by
    decide +kernel
  simp only [bind_eq_ok, pure_eq_ok, Bool.and_eq_true_iff, decide_eq_true_iff] at answer
  obtain ⟨boot, -, s, -, args, strings, ⟨status, s'⟩, loaded, rfl, known⟩ := answer
  obtain ⟨b, live, known⟩ := (Option.any_eq_true ..).mp known
  obtain ⟨success, frames⟩ := of_decide_eq_true known
  simp only at success
  have accepted : loadPlan largeFile [] b.ptlr = some _ :=
    loadPlan_eq_some.mpr ⟨by decide, by decide, rfl⟩
  have short : RunsShort sampleEnv s b largeProgram noArguments :=
    ⟨largeFile, [], _, rfl, strings, accepted, rfl, Nat.lt_of_lt_of_le frames (by decide)⟩
  have killed := ((safe _ s _ b _ _ _ s' live loaded).undone short).1
  rw [success] at killed
  cases killed

end Kernel

end Yalnix
