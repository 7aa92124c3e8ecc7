/-
Module: Yalnix.Proofs.HeapRuns
Purpose: The heap of a program over whole runs: that it stays whole whatever the program asks for,
  that it is a store of blocks to the program, when a request fails, and what freeing everything
  leaves.
Trusted boundary: none
Main exports: Begun, heap_stays_whole, heap_refines_blocks, malloc_fails_iff, everything_freed,
  blocks_untouched, proper_programs_unreported
-/
import Yalnix.Lib.Transition
import Yalnix.Proofs.HeapStore

namespace Yalnix.UserHeap

open Tiling Transition

section Runs

variable {σ : Type} {sysBrk : BrkService σ} {backed : Nat → σ → Prop}
  {h₀ first mid h h' : UserHeap σ} {ts : List Tile} {events : List (HeapEvent σ)} {e : HeapEvent σ}

/-! ### What holds in every state -/

/-- A heap that `init_heap` has set up: the system serves the break, which was backed before, and has
granted the first one. -/
structure Begun (sysBrk : BrkService σ) (backed : Nat → σ → Prop) (h₀ first : UserHeap σ) :
    Prop where
  serves : Serves sysBrk backed
  held : h₀.BreakHeld backed
  low : 0 < h₀.currentBreak
  init : h₀.initHeap sysBrk = .ok first
  granted : first.heapEnd ≠ first.heapStart

theorem Begun.first_spec (begun : Begun sysBrk backed h₀ first) :
    first.Wf backed [⟨first.heapEnd - first.heapStart - mblockSize, 0⟩] ∧
      first.heapStart = h₀.currentBreak ∧ first.complaints = h₀.complaints := by
  rcases initHeap_spec begun.serves begun.held begun.low with
    stop | ⟨k, answer, empty⟩ | ⟨k, answer, wf, start, -, complaints⟩
  · rw [begun.init] at stop
    cases stop
  · rw [begun.init] at answer
    cases answer
    exact absurd empty begun.granted
  · rw [begun.init] at answer
    cases answer
    exact ⟨wf, start, complaints⟩

/-- Reached by a disciplined program. -/
def Runs (sysBrk : BrkService σ) (backed : Nat → σ → Prop) : UserHeap σ → UserHeap σ → Prop :=
  Reaches (Guarded (HeapStep sysBrk) (Disciplined (Keeps backed)))

/-! ### Runs of listed calls -/

/-- Make the listed calls, each of which has to pass `check`: what happens, and the heap after it. -/
def calls (sysBrk : BrkService σ) (check : UserHeap σ → HeapCall → Bool) :
    List HeapCall → UserHeap σ → Option (List (HeapEvent σ) × UserHeap σ)
  | [], h => some ([], h)
  | c :: rest, h =>
      if check h c then
        match h.call sysBrk c with
        | .error _ => none
        | .ok (r, h') =>
            (calls sysBrk check rest h').map fun (events, last) => (.call c r :: events, last)
      else none

/-- Calls that are made show a run, and what is asked of its end. -/
theorem calls_sound {check : UserHeap σ → HeapCall → Bool} {guard : UserHeap σ → HeapEvent σ → Prop}
    (sound : ∀ h c r, check h c = true → guard h (.call c r)) {cs : List HeapCall}
    {ask : List (HeapEvent σ) × UserHeap σ → Bool}
    (made : (calls sysBrk check cs h).any ask = true) :
    ∃ events last, Trace (Guarded (HeapStep sysBrk) guard) h events last ∧
      ask (events, last) = true := by
  obtain ⟨⟨events, last⟩, ran, answer⟩ := (Option.any_eq_true _ _).mp made
  refine ⟨events, last, ?_, answer⟩
  clear made answer
  induction cs generalizing h events with
  | nil =>
      cases ran
      exact Trace.nil
  | cons c rest inductionHypothesis =>
      unfold calls at ran
      split at ran
      next passed =>
        split at ran
        next => cases ran
        next r h' done =>
          obtain ⟨⟨later, last'⟩, ran', same⟩ := Option.map_eq_some_iff.mp ran
          cases same
          have first : Guarded (HeapStep sysBrk) guard h (.call c r) h' :=
            ⟨sound h c r passed, HeapStep.call done⟩
          exact Trace.cons first (inductionHypothesis later ran')
      next => cases ran

/-- Stores lie in a block, at its start. -/
def storesInside (h : UserHeap σ) : HeapCall → Bool
  | .store addr bytes => (h.contents addr).any fun data => decide (bytes.length ≤ data.length)
  | _ => true

theorem storesInside_sound {changes : σ → σ → Prop} (h : UserHeap σ) (c : HeapCall) (r : Nat)
    (passed : storesInside h c = true) : Disciplined changes h (.call c r) := by
  cases c with
  | store addr bytes =>
      obtain ⟨data, found, short⟩ := (Option.any_eq_true _ _).mp passed
      have short := of_decide_eq_true short
      exact Or.inr ⟨addr, data, found, Nat.le_refl _, Nat.add_le_add_left short addr⟩
  | malloc | calloc | realloc | free | checkHeap => trivial

/-- A system that grants every break up to the end of region 1. -/
def grantAll : BrkService Unit := fun addr os =>
  if addr ≤ 0x200000 then .ok (0, os) else .ok (-1, os)

theorem grantAll_serves : Serves grantAll fun _ _ => True where
  granted := by
    intro old addr os os' _ _ _ _ answer
    unfold grantAll at answer
    split at answer
    next small => exact ⟨small, trivial⟩
    next => cases answer
  refused := fun _ _ _ _ _ _ _ _ => trivial
  stops := by
    intro addr os stop answer
    unfold grantAll at answer
    split at answer
    next => cases answer
    next => cases answer

/-- A program whose data end on the second page of region 1. -/
def sampleHeap : UserHeap Unit := initial (fun _ => 0) 0x102004 ()

/-- Its heap after `init_heap`. -/
def sampleFirst : UserHeap Unit := (sampleHeap.initHeap grantAll).toOption.getD sampleHeap

theorem sample_begun : Begun grantAll (fun _ _ => True) sampleHeap sampleFirst where
  serves := grantAll_serves
  held := ⟨by decide, trivial⟩
  low := by decide
  init := rfl
  granted := by decide +kernel

/-- Well formed, begun where the heap of `h₀` begins, and with no new complaint about the heap. -/
def Whole (backed : Nat → σ → Prop) (h₀ h : UserHeap σ) : Prop :=
  (∃ ts, h.Wf backed ts) ∧ h.heapStart = h₀.currentBreak ∧
    ∀ c ∈ h.complaints, c ∈ h₀.complaints ∨ Misuse c

theorem Begun.whole (begun : Begun sysBrk backed h₀ first) : Whole backed h₀ first := by
  obtain ⟨wf, start, complaints⟩ := begun.first_spec
  refine ⟨⟨_, wf⟩, start, fun c member => Or.inl ?_⟩
  rwa [complaints] at member

/-- A disciplined step keeps the heap whole. -/
theorem whole_preserved (serves : Serves sysBrk backed) (h₀ : UserHeap σ) :
    Preserves (Guarded (HeapStep sysBrk) (Disciplined (Keeps backed))) (Whole backed h₀) := by
  rintro h e h' ⟨⟨ts, wf⟩, start, complaints⟩ ⟨disciplined, step⟩
  obtain ⟨ts', wf', -, start', -, more, complaints', misuse⟩ := step_leads wf serves disciplined step
  refine ⟨⟨ts', wf'⟩, start'.trans start, fun c member => ?_⟩
  rw [complaints'] at member
  rcases List.mem_append.mp member with old | new
  · exact complaints c old
  · exact Or.inr (misuse c new)

theorem Begun.run_whole (begun : Begun sysBrk backed h₀ first) (run : Runs sysBrk backed first h) :
    Whole backed h₀ h :=
  Reaches.invariant (whole_preserved begun.serves h₀) run begun.whole

/-- A call comes back, unless the system call below it does not. -/
theorem call_returns (wf : h.Wf backed ts) (serves : Serves sysBrk backed) (c : HeapCall) :
    (∃ r h', h.call sysBrk c = .ok (r, h')) ∨ h.call sysBrk c = .error .noReturn := by
  have freed (addr : Nat) : ∃ h', h.free sysBrk addr = .ok h' := by
    rcases @free_spec σ h ts sysBrk backed wf addr with
      ⟨more, answer, -, -⟩ | ⟨x, t, k, ts', answer, -, -, -, -⟩
    · exact ⟨_, answer⟩
    · exact ⟨_, answer⟩
  have taken (len : Nat) : (∃ r h', h.malloc sysBrk len = .ok (r, h')) ∨
      h.malloc sysBrk len = .error .noReturn := by
    by_cases small : len < 0x80000000
    · rcases malloc_spec wf serves small with
        ⟨stop, -⟩ | ⟨os', answer, -, -, -⟩ | ⟨k, x, answer, -, -⟩
      · exact Or.inr stop
      · exact Or.inl ⟨_, _, answer⟩
      · exact Or.inl ⟨_, _, answer⟩
    · exact Or.inl ⟨0, h, by rw [malloc, if_pos (Nat.le_of_not_lt small)]⟩
  cases c with
  | malloc len => exact taken len.toNat
  | calloc nmemb size =>
      rcases @calloc_spec σ h ts sysBrk backed nmemb.toNat size.toNat wf serves with
        stop | ⟨os', answer, -⟩ | ⟨k, x, answer, -, -, -⟩
      · exact Or.inr stop
      · exact Or.inl ⟨_, _, answer⟩
      · exact Or.inl ⟨_, _, answer⟩
  | free addr =>
      obtain ⟨h', answer⟩ := freed addr.toNat
      exact Or.inl ⟨0, h', by rw [call, answer]; rfl⟩
  | checkHeap => exact Or.inl ⟨0, h, by rw [call, helperCheckHeap_eq wf.laid]; rfl⟩
  | store addr bytes => exact Or.inl ⟨0, _, rfl⟩
  | realloc ptr size =>
      show (∃ r h', h.realloc sysBrk ptr.toNat size.toNat = .ok (r, h')) ∨
        h.realloc sysBrk ptr.toNat size.toNat = .error .noReturn
      by_cases nothing : size.toNat = 0
      · obtain ⟨h', answer⟩ := freed ptr.toNat
        exact Or.inl ⟨0, h', by rw [realloc, if_pos nothing, answer]; rfl⟩
      · by_cases null : ptr.toNat = 0
        · rw [realloc, if_neg nothing, if_pos null]
          exact taken size.toNat
        · rcases realloc_spec wf serves null (Nat.pos_of_ne_zero nothing) with
            stop | ⟨os', answer, -⟩ | ⟨k, x, t, y, answer, -, -, -⟩ | ⟨k, r, answer, -, -⟩
          · exact Or.inr stop
          · exact Or.inl ⟨_, _, answer⟩
          · exact Or.inl ⟨_, _, answer⟩
          · exact Or.inl ⟨_, _, answer⟩

/-- Whatever the program calls the allocator with, the blocks go on to fill the heap, linked both
ways and with no two free ones side by side; the allocator complains of wrong calls alone; and every
call comes back. -/
theorem heap_stays_whole (begun : Begun sysBrk backed h₀ first)
    (run : Runs sysBrk backed first h) :
    Whole backed h₀ h ∧
      ∀ c, (∃ r h', h.call sysBrk c = .ok (r, h')) ∨ h.call sysBrk c = .error .noReturn := by
  have whole := begun.run_whole run
  obtain ⟨ts, wf⟩ := whole.1
  exact ⟨whole, call_returns wf begun.serves⟩

/-- Blocks are taken, written, moved and given back. -/
theorem heap_stays_whole_sample : ∃ h : UserHeap Unit, h.chain = [0x102004, 0x10205c, 0x1020dc] ∧
    Whole (fun _ _ => True) sampleHeap h ∧ ∀ c, (∃ r h', h.call grantAll c = .ok (r, h')) ∨
      h.call grantAll c = .error .noReturn := by
  obtain ⟨events, h, trace, chain⟩ := @calls_sound Unit grantAll sampleFirst storesInside
    (Disciplined (Keeps fun _ _ => True)) storesInside_sound
    [.malloc 10, .malloc 20, .store 0x10201c [1, 2, 3], .realloc 0x10201c 100, .free 0x102044]
    (fun made => decide (made.2.chain = [0x102004, 0x10205c, 0x1020dc])) (by decide +kernel)
  exact ⟨h, of_decide_eq_true chain, heap_stays_whole sample_begun trace.reaches⟩

/-! ### The heap as a store of blocks -/

theorem Begun.contents_first (begun : Begun sysBrk backed h₀ first) (p : Nat) :
    first.contents p = none := by
  obtain ⟨wf, -⟩ := begun.first_spec
  apply Option.eq_none_iff_forall_ne_some.mpr
  intro data found
  obtain ⟨x, t, inUse, -⟩ := (contents_eq_some wf.laid).mp found
  cases List.mem_singleton.mp (mem_of_placed inUse.1)
  exact inUse.2 rfl

/-- To the program the heap is a store of blocks that lie apart: each call does to the blocks what
`StoreStep` says, over whole runs. -/
theorem heap_refines_blocks (begun : Begun sysBrk backed h₀ first)
    (trace : Trace (Guarded (HeapStep sysBrk) (Disciplined (Keeps backed))) first events h) :
    ∃ s, s.block = h.contents ∧ Trace StoreStep BlockStore.empty events s := by
  obtain ⟨wf, -⟩ := begun.first_spec
  let stands (h : UserHeap σ) (s : BlockStore Byte) : Prop :=
    ∃ ts, ∃ wf : h.Wf backed ts, s = wf.blockStore
  have matched (h : UserHeap σ) (e : HeapEvent σ) (h' : UserHeap σ) (s : BlockStore Byte)
      (related : stands h s)
      (guarded : Guarded (HeapStep sysBrk) (Disciplined (Keeps backed)) h e h') :
      ∃ s', StoreStep s e s' ∧ stands h' s' := by
    obtain ⟨ts, wf, rfl⟩ := related
    obtain ⟨ts', wf', taken, -⟩ := step_leads wf begun.serves guarded.1 guarded.2
    exact ⟨_, taken, ts', wf', rfl⟩
  have start : stands first BlockStore.empty :=
    ⟨_, wf, BlockStore.ext (funext fun p => (begun.contents_first p).symm)⟩
  obtain ⟨s, run, ts, wf', rfl⟩ := trace.simulated matched start
  exact ⟨_, rfl, run⟩

/-- Three bytes are written into a block, and moved with it. -/
theorem heap_refines_blocks_sample : ∃ (events : List (HeapEvent Unit)) (h : UserHeap Unit),
    h.contents 0x102074 = some ([1, 2, 3] ++ List.replicate 101 0) ∧
      ∃ s, s.block = h.contents ∧ Trace StoreStep BlockStore.empty events s := by
  obtain ⟨events, h, trace, found⟩ := @calls_sound Unit grantAll sampleFirst storesInside
    (Disciplined (Keeps fun _ _ => True)) storesInside_sound
    [.malloc 10, .malloc 20, .store 0x10201c [1, 2, 3], .realloc 0x10201c 100]
    (fun made => decide (made.2.contents 0x102074 =
      some ([1, 2, 3] ++ List.replicate 101 0))) (by decide +kernel)
  exact ⟨events, h, of_decide_eq_true found, heap_refines_blocks sample_begun trace⟩

/-! ### When a request fails -/

/-- `NoFit`, said of the headers. -/
theorem noFit_iff {len : Nat} (laid : h.Laid ts) : NoFit ts len ↔
    ∀ bp ∈ h.chain, ¬ ((h.block bp).sizeUsed = 0 ∧ needed len ≤ (h.block bp).size) := by
  have sizes (x : Nat) (t : Tile) (listed : (x, t) ∈ placed mblockSize h.heapStart ts) :
      (h.block x).sizeUsed = t.used ∧ (h.block x).size = t.size := by
    obtain ⟨front, back, rfl, rfl⟩ := mem_placed.mp listed
    exact ⟨laid.sizeUsed_eq, laid.size_eq⟩
  rw [chain_eq laid]
  constructor
  · intro noFit bp member
    obtain ⟨⟨x, t⟩, listed, rfl⟩ := List.mem_map.mp member
    rw [(sizes x t listed).1, (sizes x t listed).2]
    exact noFit t (mem_of_placed listed)
  · intro unfit t member
    obtain ⟨front, back, shape⟩ := List.append_of_mem member
    have listed : (h.heapStart + span mblockSize front, t) ∈ placed mblockSize h.heapStart ts := by
      rw [shape]
      exact placed_here
    have here := unfit _ (List.mem_map_of_mem listed)
    rwa [(sizes _ t listed).1, (sizes _ t listed).2] at here

/-- `malloc` returns `NULL` exactly for a length that is negative as an `int`, and where no free
block has room and the system refuses to move the break far enough; then the program's memory and
the allocator's variables are as before. -/
theorem malloc_fails_iff (begun : Begun sysBrk backed h₀ first) (run : Runs sysBrk backed first h)
    (len : Word) :
    ((∃ h', h.call sysBrk (.malloc len) = .ok (0, h')) ↔ 0x80000000 ≤ len.toNat ∨
      ((∀ bp ∈ h.chain, ¬ ((h.block bp).sizeUsed = 0 ∧ needed len.toNat ≤ (h.block bp).size)) ∧
        h.Refuses sysBrk (h.growRequest (needed len.toNat)))) ∧
    ∀ h', h.call sysBrk (.malloc len) = .ok (0, h') → h' = { h with os := h'.os } := by
  obtain ⟨ts, wf⟩ := (begun.run_whole run).1
  rw [← noFit_iff wf.laid]
  show ((∃ h', h.malloc sysBrk len.toNat = .ok (0, h')) ↔ _) ∧
    ∀ h', h.malloc sysBrk len.toNat = .ok (0, h') → _
  generalize len.toNat = n
  by_cases small : n < 0x80000000
  · have signed : ¬ 0x80000000 ≤ n := Nat.not_le.mpr small
    simp only [signed, false_or]
    rcases malloc_spec wf begun.serves small with
      ⟨stop, allowed⟩ | ⟨os', answer, -, noFit, refused⟩ | ⟨k, x, answer, taken, allowed⟩
    · rw [stop]
      refine ⟨⟨?_, fun both => absurd both allowed⟩, ?_⟩
      · rintro ⟨h', failed⟩
        cases failed
      · intro h' failed
        cases failed
    · rw [answer]
      refine ⟨⟨fun _ => ⟨noFit, refused⟩, fun _ => ⟨_, rfl⟩⟩, ?_⟩
      intro h' same
      cases same
      rfl
    · rw [answer]
      refine ⟨⟨?_, fun both => absurd both allowed⟩, ?_⟩
      · rintro ⟨h', same⟩
        cases same
      · intro h' same
        cases same
  · have large : 0x80000000 ≤ n := Nat.le_of_not_lt small
    rw [malloc, if_pos large]
    refine ⟨⟨fun _ => Or.inl large, fun _ => ⟨h, rfl⟩⟩, ?_⟩
    intro h' same
    cases same
    rfl

/-- More is asked for than region 1 has. -/
theorem malloc_fails_iff_sample : ∃ h h' : UserHeap Unit, h.chain = [0x102004, 0x10202c] ∧
    h.call grantAll (.malloc 0x300000) = .ok (0, h') ∧ h' = { h with os := h'.os } := by
  obtain ⟨events, h, trace, asked⟩ := @calls_sound Unit grantAll sampleFirst storesInside
    (Disciplined (Keeps fun _ _ => True)) storesInside_sound [.malloc 10]
    (fun made => decide (made.2.chain = [0x102004, 0x10202c] ∧
      (∀ bp ∈ made.2.chain, ¬ ((made.2.block bp).sizeUsed = 0 ∧
        needed 0x300000 ≤ (made.2.block bp).size)) ∧
      made.2.growRequest (needed 0x300000) ≠ pageUp made.2.currentBreak ∧
        0x200000 < made.2.growRequest (needed 0x300000))) (by decide +kernel)
  obtain ⟨chain, unfit, moves, outside⟩ := of_decide_eq_true asked
  have refuses : h.Refuses grantAll (h.growRequest (needed 0x300000)) :=
    ⟨moves, -1, h.os, if_neg (Nat.not_le.mpr outside), by decide⟩
  have fails := malloc_fails_iff sample_begun trace.reaches 0x300000
  obtain ⟨h', failed⟩ := fails.1.mpr (Or.inr ⟨unfit, refuses⟩)
  exact ⟨h, h', chain, failed, fails.2 h' failed⟩

/-! ### Giving everything back -/

/-- Once nothing is in use the heap is one free block again, however it was cut up before, and what
fits into it is had without the system. -/
theorem everything_freed (begun : Begun sysBrk backed h₀ first) (run : Runs sysBrk backed first h)
    (freed : ∀ p, h.contents p = none) :
    h.chain = [h.heapStart] ∧
      h.block h.heapStart = tileHeader ⟨h.heapEnd - h.heapStart - mblockSize, 0⟩ 0 0 ∧
      ∀ len : Word, len.toNat < 0x80000000 →
        needed len.toNat ≤ h.heapEnd - h.heapStart - mblockSize →
          ∃ h', h.call sysBrk (.malloc len) = .ok (h.heapStart + mblockSize, h') ∧
            h'.os = h.os := by
  obtain ⟨ts, wf⟩ := (begun.run_whole run).1
  have laid := wf.laid
  have unused (x : Nat) (t : Tile) : ¬ InUse mblockSize h.heapStart ts x t := by
    intro inUse
    have found := (contents_eq_some laid).mpr ⟨x, t, inUse, rfl, rfl⟩
    rw [freed] at found
    cases found
  obtain ⟨t, rfl, free⟩ := wf.coalesced.single laid.some unused
  have ends := laid.ends
  rw [span_cons, span_nil, Nat.add_zero] at ends
  have size : t.size = h.heapEnd - h.heapStart - mblockSize := by omega
  have same : t = ⟨h.heapEnd - h.heapStart - mblockSize, 0⟩ := by
    rw [← size, ← free]
  have alone : h.Laid ([] ++ t :: []) := laid
  refine ⟨?_, ?_, ?_⟩
  · rw [chain_eq laid]
    rfl
  · have header := alone.block_eq
    rw [span_nil, Nat.add_zero] at header
    rw [header, ← same]
    rfl
  · intro len small enough
    have round := (needed_spec small).2.2
    rw [← size] at enough
    have taken := (alone.takeBlock_spec free round enough).1
    have place := alone.blockStart_eq
    have found := firstFit_some alone (fun _ none => nomatch none) free enough
    rw [span_nil, Nat.add_zero] at taken place found
    refine ⟨h.takeBlock h.heapStart (needed len.toNat), ?_, ?_⟩
    · show h.malloc sysBrk len.toNat = _
      rw [malloc_eq laid small, found, ← place]
      rfl
    · have taken : _ = _ := taken
      rw [taken]

theorem contents_of_unused (unused : ∀ bp ∈ h.chain, (h.block bp).sizeUsed = 0) (p : Nat) :
    h.contents p = none := by
  rw [contents, Option.map_eq_none_iff, List.find?_eq_none]
  intro bp member found
  have inUse := of_decide_eq_true found
  exact inUse.2 (unused bp member)

/-- Three blocks are given back, out of order. -/
theorem everything_freed_sample : ∃ h : UserHeap Unit, h.chain = [h.heapStart] ∧
    ∃ h', h.call grantAll (.malloc 0x7000) = .ok (h.heapStart + mblockSize, h') := by
  obtain ⟨events, h, trace, asked⟩ := @calls_sound Unit grantAll sampleFirst storesInside
    (Disciplined (Keeps fun _ _ => True)) storesInside_sound
    [.malloc 10, .malloc 20, .malloc 30, .free 0x102044, .free 0x10201c, .free 0x102074]
    (fun made => decide ((∀ bp ∈ made.2.chain, (made.2.block bp).sizeUsed = 0) ∧
      needed 0x7000 ≤ made.2.heapEnd - made.2.heapStart - mblockSize)) (by decide +kernel)
  obtain ⟨unused, enough⟩ := of_decide_eq_true asked
  obtain ⟨chain, -, room⟩ :=
    everything_freed sample_begun trace.reaches (contents_of_unused unused)
  obtain ⟨h', taken, -⟩ := room 0x7000 (by decide) enough
  exact ⟨h, chain, h', taken⟩

/-! ### Blocks that are left alone -/

/-- The event leaves the block of `n` bytes at `p` alone: no store meets it, and what is freed or
reallocated is another block of the program. -/
def Spares (p n : Nat) (h : UserHeap σ) : HeapEvent σ → Prop
  | .call (.store addr bytes) _ => p + n ≤ addr ∨ addr + bytes.length ≤ p
  | .call (.free addr) _ => addr.toNat ≠ p ∧ (addr = 0 ∨ h.contents addr.toNat ≠ none)
  | .call (.realloc ptr _) _ => ptr.toNat ≠ p ∧ (ptr = 0 ∨ h.contents ptr.toNat ≠ none)
  | _ => True

section Spared

variable {s s' : BlockStore Byte} {p : Nat} {data : List Byte}

/-- Freeing another block. -/
theorem frees_other {addr : Nat} (frees : Frees addr s s') (found : s.block p = some data)
    (positive : 0 < p) (other : addr ≠ p) (known : addr = 0 ∨ s.block addr ≠ none) :
    s'.block p = some data := by
  rcases frees with ⟨rfl, -⟩ | ⟨q, data', -, below, nearest, rfl⟩
  · exact found
  · have apart : p ≠ q := by
      rcases known with rfl | some
      · omega
      · obtain ⟨own, here⟩ := Option.ne_none_iff_exists'.mp some
        have reached := nearest addr own here (Nat.le_refl _)
        omega
    rw [BlockStore.erase_block_of_ne apart]
    exact found

/-- Allocating leaves every block. -/
theorem allocates_other {len r : Nat} (allocates : Allocates len r s s')
    (found : s.block p = some data) : s'.block p = some data := by
  rcases allocates with ⟨-, rfl⟩ | ⟨-, _, -, added⟩
  · exact found
  · exact added.block_of_some found

theorem zeroes_other {len r : Nat} (zeroes : Zeroes len r s s') (found : s.block p = some data) :
    s'.block p = some data := by
  rcases zeroes with ⟨-, rfl⟩ | ⟨-, _, -, -, added⟩
  · exact found
  · exact added.block_of_some found

theorem reallocates_other {ptr size r : Nat} (reallocates : Reallocates ptr size r s s')
    (found : s.block p = some data) (other : ptr ≠ p) : s'.block p = some data := by
  unfold Reallocates at reallocates
  split at reallocates
  · rcases reallocates with rfl | ⟨_, added⟩
    · exact found
    · exact added.block_of_some found
  · rcases reallocates with ⟨-, rfl⟩ | ⟨-, _, -, -, added⟩
    · exact found
    · apply added.block_of_some
      rw [BlockStore.erase_block_of_ne (Ne.symm other)]
      exact found

/-- A step that spares a block. -/
theorem spared_step (wf : h.Wf backed ts) (step : StoreStep wf.blockStore e s')
    (spares : Spares p data.length h e) (found : h.contents p = some data) :
    s'.block p = some data := by
  have here : wf.blockStore.block p = some data := found
  have positive : 0 < p := by
    obtain ⟨x, t, -, rfl, -⟩ := (contents_eq_some wf.laid).mp found
    exact Nat.add_pos_right x (by decide)
  cases e with
  | system os' =>
      obtain rfl : s' = wf.blockStore := step
      exact here
  | call c r =>
      cases c with
      | checkHeap =>
          obtain ⟨-, rfl⟩ := step
          exact here
      | malloc len => exact allocates_other step here
      | calloc nmemb size => exact zeroes_other step here
      | store addr bytes =>
          obtain ⟨-, rfl⟩ := step
          show (h.contents p).map _ = _
          rw [found, Option.map_some, BlockStore.overwrite_apart spares]
      | free addr =>
          exact frees_other step.2 here positive spares.1
            (spares.2.imp_left fun null => congrArg BitVec.toNat null)
      | realloc ptr size =>
          have known := spares.2.imp_left fun null => congrArg BitVec.toNat null
          simp only [StoreStep] at step
          split at step
          · exact frees_other step.2 here positive spares.1 known
          · split at step
            · exact allocates_other step here
            · exact reallocates_other step here spares.1

end Spared

/-- What a block holds stays, whatever else is allocated, freed, reallocated or written, until the
program writes into the block itself or gives it back. -/
theorem blocks_untouched {p : Nat} {data : List Byte} (begun : Begun sysBrk backed h₀ first)
    (before : Runs sysBrk backed first mid) (held : mid.contents p = some data)
    (run : Reaches (Guarded (HeapStep sysBrk) fun h e =>
      Disciplined (Keeps backed) h e ∧ Spares p data.length h e) mid h) :
    h.contents p = some data := by
  have whole := begun.run_whole before
  have kept : Whole backed h₀ h ∧ h.contents p = some data := by
    apply Reaches.invariant _ run ⟨whole, held⟩
    rintro k e k' ⟨whole, found⟩ ⟨⟨disciplined, spares⟩, step⟩
    refine ⟨whole_preserved begun.serves h₀ k e k' whole ⟨disciplined, step⟩, ?_⟩
    obtain ⟨ts, wf⟩ := whole.1
    obtain ⟨ts', wf', related, -⟩ := step_leads wf begun.serves disciplined step
    exact spared_step wf related spares found
  exact kept.2

/-- What is freed and reallocated is another block of the program. -/
def sparesBlock (p n : Nat) (h : UserHeap σ) : HeapCall → Bool
  | .store addr bytes => decide (p + n ≤ addr ∨ addr + bytes.length ≤ p)
  | .free addr => decide (addr.toNat ≠ p) && (h.contents addr.toNat).isSome
  | .realloc ptr _ => decide (ptr.toNat ≠ p) && (h.contents ptr.toNat).isSome
  | _ => true

theorem sparesBlock_sound {p n : Nat} (h : UserHeap σ) (c : HeapCall) (r : Nat)
    (passed : sparesBlock p n h c = true) : Spares p n h (.call c r) := by
  cases c with
  | store addr bytes =>
      have apart := of_decide_eq_true passed
      exact apart
  | free addr | realloc addr _ =>
      obtain ⟨other, own⟩ := Bool.and_eq_true_iff.mp passed
      exact ⟨of_decide_eq_true other, Or.inr (Option.isSome_iff_ne_none.mp own)⟩
  | malloc | calloc | checkHeap => trivial

/-- Others come, move and go around a block. -/
theorem blocks_untouched_sample : ∃ h : UserHeap Unit, h.chain.length = 6 ∧
    h.contents 0x10201c = some ([1, 2, 3] ++ List.replicate 13 0) := by
  obtain ⟨events, mid, trace, asked⟩ := @calls_sound Unit grantAll sampleFirst storesInside
    (Disciplined (Keeps fun _ _ => True)) storesInside_sound [.malloc 10, .store 0x10201c [1, 2, 3]]
    (fun made => decide (made.2.contents 0x10201c = some ([1, 2, 3] ++ List.replicate 13 0)) &&
      (calls grantAll (fun h c => storesInside h c && sparesBlock 0x10201c 16 h c)
        [.malloc 20, .calloc 5 8, .realloc 0x102044 100, .malloc 0x9000] made.2).any
          fun (_, last) => decide (last.chain.length = 6)) (by decide +kernel)
  obtain ⟨held, made⟩ := Bool.and_eq_true_iff.mp asked
  have held := of_decide_eq_true held
  obtain ⟨later, h, trace', length⟩ := @calls_sound Unit grantAll mid _
    (fun h e => Disciplined (Keeps fun _ _ => True) h e ∧ Spares 0x10201c 16 h e)
    (fun h c r passed => ⟨storesInside_sound h c r (Bool.and_eq_true_iff.mp passed).1,
      sparesBlock_sound h c r (Bool.and_eq_true_iff.mp passed).2⟩) _ _ made
  exact ⟨h, of_decide_eq_true length,
    blocks_untouched sample_begun trace.reaches held trace'.reaches⟩

/-! ### Programs that make no wrong call -/

/-- The event frees and reallocates blocks of the program alone. -/
def Proper (h : UserHeap σ) : HeapEvent σ → Prop
  | .call (.free addr) _ => addr = 0 ∨ h.contents addr.toNat ≠ none
  | .call (.realloc ptr _) _ => ptr = 0 ∨ h.contents ptr.toNat ≠ none
  | _ => True

section Unreported

variable {r : Nat}

theorem Taken.unreported {len x : Nat} (taken : Taken backed h h' ts len x) :
    h'.complaints = h.complaints := by
  obtain ⟨_, _, _, _, _, _, _, exchange⟩ := taken
  exact exchange.complaints

theorem malloc_unreported {len : Nat} (wf : h.Wf backed ts) (serves : Serves sysBrk backed)
    (done : h.malloc sysBrk len = .ok (r, h')) : h'.complaints = h.complaints := by
  by_cases small : len < 0x80000000
  · rcases malloc_spec wf serves small with
      ⟨stop, -⟩ | ⟨os', answer, -⟩ | ⟨k, x, answer, taken, -⟩
    · rw [stop] at done
      cases done
    · rw [answer] at done
      cases done
      rfl
    · rw [answer] at done
      cases done
      exact taken.unreported
  · rw [malloc, if_pos (Nat.le_of_not_lt small)] at done
    cases done
    rfl

theorem free_unreported {addr : Nat} (wf : h.Wf backed ts)
    (own : addr = 0 ∨ h.contents addr ≠ none) (done : h.free sysBrk addr = .ok h') :
    h'.complaints = h.complaints := by
  rcases own with rfl | some
  · rw [free, if_pos rfl] at done
    cases done
    rfl
  · obtain ⟨data, found⟩ := Option.ne_none_iff_exists'.mp some
    obtain ⟨x, t, inUse, rfl, -⟩ := (contents_eq_some wf.laid).mp found
    have fits := wf.laid.fits t (mem_of_placed inUse.1)
    have used := inUse.2
    have here : Holds (x + mblockSize) x t := ⟨Nat.le_refl _, by omega⟩
    obtain ⟨k, ts', answer, -, exchange⟩ := free_inUse sysBrk wf inUse here
    rw [answer] at done
    cases done
    exact exchange.complaints

theorem realloc_unreported {ptr size : Nat} (wf : h.Wf backed ts) (serves : Serves sysBrk backed)
    (own : ptr = 0 ∨ h.contents ptr ≠ none) (done : h.realloc sysBrk ptr size = .ok (r, h')) :
    h'.complaints = h.complaints := by
  by_cases nothing : size = 0
  · rw [realloc, if_pos nothing] at done
    exact free_unreported wf own (returns_zero done).2
  · by_cases null : ptr = 0
    · rw [realloc, if_neg nothing, if_pos null] at done
      exact malloc_unreported wf serves done
    · rcases realloc_spec wf serves null (Nat.pos_of_ne_zero nothing) with
        stop | ⟨os', answer, -⟩ | ⟨k, x, t, y, answer, -, -, resized⟩ | ⟨k, r', answer, -, absent⟩
      · rw [stop] at done
        cases done
      · rw [answer] at done
        cases done
        rfl
      · rw [answer] at done
        cases done
        obtain ⟨_, _, _, _, _, _, exchange, _⟩ := resized
        exact exchange.complaints
      · obtain ⟨data, found⟩ := Option.ne_none_iff_exists'.mp (own.resolve_left null)
        obtain ⟨x, t, inUse, same, -⟩ := (contents_eq_some wf.laid).mp found
        exact absurd same (absent x t inUse)

/-- A step without a wrong call is not complained of. -/
theorem proper_step (wf : h.Wf backed ts) (serves : Serves sysBrk backed) (proper : Proper h e)
    (step : HeapStep sysBrk h e h') : h'.complaints = h.complaints := by
  cases step with
  | @system os' => rfl
  | @call _ c r done =>
      cases c with
      | malloc len => exact malloc_unreported wf serves done
      | calloc nmemb size =>
          have done : h.calloc sysBrk nmemb.toNat size.toNat = .ok (r, h') := done
          rcases @calloc_spec σ h ts sysBrk backed nmemb.toNat size.toNat wf serves with
            stop | ⟨os', answer, -⟩ | ⟨k, y, answer, taken, -⟩
          · rw [stop] at done
            cases done
          · rw [answer] at done
            cases done
            rfl
          · rw [answer] at done
            cases done
            exact taken.unreported
      | free addr =>
          exact free_unreported wf (proper.imp_left fun null => congrArg BitVec.toNat null)
            (returns_zero done).2
      | checkHeap =>
          have checked := (returns_zero done).2
          rw [helperCheckHeap_eq wf.laid] at checked
          cases checked
          rfl
      | store addr bytes =>
          cases done
          rfl
      | realloc ptr size =>
          exact realloc_unreported wf serves (proper.imp_left fun null => congrArg BitVec.toNat null)
            done

end Unreported

/-- A program that frees and reallocates its own blocks, and stores into them, is never complained
of. -/
theorem proper_programs_unreported (begun : Begun sysBrk backed h₀ first)
    (run : Reaches (Guarded (HeapStep sysBrk) fun h e => Disciplined (Keeps backed) h e ∧ Proper h e)
      first h) : h.complaints = h₀.complaints := by
  have kept : Whole backed h₀ h ∧ h.complaints = h₀.complaints := by
    apply Reaches.invariant _ run ⟨begun.whole, begun.first_spec.2.2⟩
    rintro k e k' ⟨whole, quiet⟩ ⟨⟨disciplined, proper⟩, step⟩
    refine ⟨whole_preserved begun.serves h₀ k e k' whole ⟨disciplined, step⟩, ?_⟩
    obtain ⟨ts, wf⟩ := whole.1
    exact (proper_step wf begun.serves proper step).trans quiet
  exact kept.2

/-- What is freed and reallocated are blocks of the program. -/
def ownBlock (h : UserHeap σ) : HeapCall → Bool
  | .free addr | .realloc addr _ => (h.contents addr.toNat).isSome
  | _ => true

theorem ownBlock_sound (h : UserHeap σ) (c : HeapCall) (r : Nat) (passed : ownBlock h c = true) :
    Proper h (.call c r) := by
  cases c with
  | free addr | realloc addr _ => exact Or.inr (Option.isSome_iff_ne_none.mp passed)
  | malloc | calloc | store | checkHeap => trivial

theorem proper_programs_unreported_sample : ∃ h : UserHeap Unit,
    h.chain = [0x102004, 0x10205c, 0x1020dc] ∧ h.complaints = [] := by
  obtain ⟨events, h, trace, chain⟩ := @calls_sound Unit grantAll sampleFirst
    (fun h c => storesInside h c && ownBlock h c)
    (fun h e => Disciplined (Keeps fun _ _ => True) h e ∧ Proper h e)
    (fun h c r passed => ⟨storesInside_sound h c r (Bool.and_eq_true_iff.mp passed).1,
      ownBlock_sound h c r (Bool.and_eq_true_iff.mp passed).2⟩)
    [.malloc 10, .malloc 20, .store 0x10201c [1, 2, 3], .realloc 0x10201c 100, .free 0x102044]
    (fun made => decide (made.2.chain = [0x102004, 0x10205c, 0x1020dc])) (by decide +kernel)
  exact ⟨h, of_decide_eq_true chain, proper_programs_unreported sample_begun trace.reaches⟩

end Runs

end Yalnix.UserHeap
