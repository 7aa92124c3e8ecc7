/-
Module: Yalnix.Proofs.HeapCalls
Purpose: What the calls of the allocator do to a heap that is laid out in tiles: the walks along
  the chain, the joining of free neighbours, the taking of a free block, the growth of the heap, and
  from them malloc and free.
Trusted boundary: none
Main exports: Frame, Serves, Wf, Exchange, Taken, collectFrom_spec, takeBlock_spec, growHeap_spec,
  malloc_spec, free_spec
-/
import Yalnix.Proofs.HeapChain

namespace Yalnix.UserHeap

open Tiling

variable {σ : Type} {h h' h'' : UserHeap σ} {t u n : Tile} {left right ts ts' : List Tile}

/-! ### What stays -/

/-- Memory has changed inside the heap alone, and in no room of the tiles that are `kept`. -/
def Frame (h h' : UserHeap σ) (kept : Nat → Tile → Prop) : Prop :=
  ∀ y, h'.mem y ≠ h.mem y → h.heapStart ≤ y ∧ y < h'.heapEnd ∧
    ∀ x t, kept x t → y < x + mblockSize ∨ x + mblockSize + t.size ≤ y

/-- An address of the heap that holds no data of the program: in a header, or in the room of a free
block. -/
def Spare (a : Nat) (ts : List Tile) (y : Nat) : Prop :=
  ∃ x t, (x, t) ∈ placed mblockSize a ts ∧ x ≤ y ∧
    (y < x + mblockSize ∨ t.used = 0 ∧ y < x + mblockSize + t.size)

/-- A spare address lies in no room that is in use. -/
theorem Spare.outside {a x y : Nat} (spare : Spare a ts y) (inUse : InUse mblockSize a ts x t) :
    y < x + mblockSize ∨ x + mblockSize + t.size ≤ y := by
  obtain ⟨z, u, listed, low, high⟩ := spare
  rcases placed_apart inUse.1 listed with ⟨rfl, rfl⟩ | before | after
  · rcases high with header | ⟨free, -⟩
    · exact Or.inl header
    · exact absurd free inUse.2
  · exact Or.inr (Nat.le_trans before low)
  · rcases high with header | ⟨-, room⟩
    · omega
    · omega

theorem Spare.inside {a y : Nat} (spare : Spare a ts y) : a ≤ y ∧ y < a + span mblockSize ts := by
  obtain ⟨z, u, listed, low, high⟩ := spare
  have within := placed_inside listed
  omega

section Frames

variable {kept kept' : Nat → Tile → Prop}

theorem Frame.refl (h : UserHeap σ) (kept : Nat → Tile → Prop) : Frame h h kept :=
  fun _ changed => absurd rfl changed

theorem Frame.trans (first : Frame h h' kept) (second : Frame h' h'' kept')
    (start : h'.heapStart = h.heapStart) (grows : h'.heapEnd ≤ h''.heapEnd)
    (fewer : ∀ x t, kept x t → kept' x t) : Frame h h'' kept := by
  intro y changed
  by_cases same : h'.mem y = h.mem y
  · rw [← same] at changed
    have touched := second y changed
    rw [start] at touched
    exact ⟨touched.1, touched.2.1, fun x t here => touched.2.2 x t (fewer x t here)⟩
  · have touched := first y same
    exact ⟨touched.1, Nat.lt_of_lt_of_le touched.2.1 grows, touched.2.2⟩

/-- The frame of fewer tiles. -/
theorem Frame.mono (frame : Frame h h' kept) (fewer : ∀ x t, kept' x t → kept x t) :
    Frame h h' kept' := fun y changed =>
  have touched := frame y changed
  ⟨touched.1, touched.2.1, fun x t here => touched.2.2 x t (fewer x t here)⟩

/-- What a kept tile holds is not changed. -/
theorem Frame.keeps {x i : Nat} (frame : Frame h h' kept) (here : kept x t) (inside : i < t.size) :
    h'.mem (x + mblockSize + i) = h.mem (x + mblockSize + i) := by
  by_contra changed
  rcases (frame _ changed).2.2 x t here with before | after
  · omega
  · omega

end Frames

theorem OnlyMemory.heapStart (same : OnlyMemory h h') : h'.heapStart = h.heapStart := by
  have same : h' = { h with mem := h'.mem } := same
  rw [same]

theorem OnlyMemory.heapEnd (same : OnlyMemory h h') : h'.heapEnd = h.heapEnd := by
  have same : h' = { h with mem := h'.mem } := same
  rw [same]

theorem OnlyMemory.currentBreak (same : OnlyMemory h h') : h'.currentBreak = h.currentBreak := by
  have same : h' = { h with mem := h'.mem } := same
  rw [same]

theorem OnlyMemory.complaints (same : OnlyMemory h h') : h'.complaints = h.complaints := by
  have same : h' = { h with mem := h'.mem } := same
  rw [same]

theorem Laid.frame (laid : h.Laid ts) (same : OnlyMemory h h')
    (changes : ∀ y, h'.mem y ≠ h.mem y → Spare h.heapStart ts y) :
    Frame h h' (InUse mblockSize h.heapStart ts) := by
  intro y changed
  have spare := changes y changed
  have inside := spare.inside
  rw [laid.ends, ← same.heapEnd] at inside
  exact ⟨inside.1, inside.2, fun _ _ => spare.outside⟩

/-- The header that a change of the block at `x` touches. -/
theorem modifyBlock_changes {x y : Nat} {f : MBlock → MBlock}
    (changed : (h.modifyBlock x f).mem y ≠ h.mem y) : x ≤ y ∧ y < x + mblockSize := by
  by_contra outside
  exact changed (mem_modifyBlock_outside (by omega))

theorem placed_here : (h.heapStart + span mblockSize left, t) ∈
    placed mblockSize h.heapStart (left ++ t :: right) :=
  mem_placed.mpr ⟨left, right, rfl, rfl⟩

/-- The header of a tile is spare. -/
theorem spare_header {y : Nat} (low : h.heapStart + span mblockSize left ≤ y)
    (high : y < h.heapStart + span mblockSize left + mblockSize) :
    Spare h.heapStart (left ++ t :: right) y :=
  ⟨_, t, placed_here, low, Or.inl high⟩

/-- The room of a free tile is spare. -/
theorem spare_room {y : Nat} (free : t.used = 0) (low : h.heapStart + span mblockSize left ≤ y)
    (high : y < h.heapStart + span mblockSize left + mblockSize + t.size) :
    Spare h.heapStart (left ++ t :: right) y :=
  ⟨_, t, placed_here, low, Or.inr ⟨free, high⟩⟩

namespace Laid

theorem spare_mark {f : MBlock → MBlock} {y : Nat}
    (changed : (h.modifyBlock (h.heapStart + span mblockSize left) f).mem y ≠ h.mem y) :
    Spare h.heapStart (left ++ t :: right) y :=
  spare_header (modifyBlock_changes changed).1 (modifyBlock_changes changed).2

/-- The header behind a tile is spare, if there is one. -/
theorem spare_behind {y : Nat} (some : firstBlock (h.heapStart + span mblockSize left) right ≠ 0)
    (low : firstBlock (h.heapStart + span mblockSize left) right ≤ y)
    (high : y < firstBlock (h.heapStart + span mblockSize left) right + mblockSize) :
    Spare h.heapStart (left ++ right) y := by
  cases right with
  | nil => exact absurd rfl some
  | cons n rest => exact spare_header low high

theorem spare_absorb {f : MBlock → MBlock} {y : Nat}
    (changed : (absorbBlock h (h.heapStart + span mblockSize left)
      (firstBlock (h.heapStart + span mblockSize (left ++ [t, n])) right) f).mem y ≠ h.mem y) :
    Spare h.heapStart (left ++ t :: n :: right) y := by
  unfold absorbBlock at changed
  split at changed
  · rename_i some
    by_cases first : (h.modifyBlock (h.heapStart + span mblockSize left) f).mem y = h.mem y
    · rw [← first] at changed
      have bounds := modifyBlock_changes changed
      have shape : left ++ t :: n :: right = (left ++ [t, n]) ++ right := by simp
      rw [shape]
      exact spare_behind some bounds.1 bounds.2
    · exact spare_mark first
  · exact spare_mark changed

theorem spare_split {len y : Nat} (laid : h.Laid (left ++ t :: right)) (free : t.used = 0)
    (round : wordRound len = len) (room : len + minBlock ≤ t.size)
    (changed : (h.splitFreeBlock (h.heapStart + span mblockSize left) len).mem y ≠ h.mem y) :
    Spare h.heapStart (left ++ t :: right) y := by
  have unit : mblockSize = 24 := rfl
  have least : minBlock = 48 := rfl
  have shape := laid.splitFreeBlock_eq free round room
  simp only at shape
  rw [shape] at changed
  have cut (changed : (cutBlock h (h.heapStart + span mblockSize left) len
      ⟨t.size - len - mblockSize, 0⟩
      (firstBlock (h.heapStart + span mblockSize (left ++ [t])) right)).mem y ≠ h.mem y) :
      Spare h.heapStart (left ++ t :: right) y := by
    unfold cutBlock at changed
    by_cases first : (h.modifyBlock (h.heapStart + span mblockSize left + mblockSize + len) fun _ =>
        tileHeader ⟨t.size - len - mblockSize, 0⟩
          (firstBlock (h.heapStart + span mblockSize (left ++ [t])) right)
          (h.heapStart + span mblockSize left)).mem y = h.mem y
    · rw [← first] at changed
      have bounds := modifyBlock_changes changed
      exact spare_header bounds.1 bounds.2
    · have bounds := modifyBlock_changes first
      exact spare_room free (by omega) (by omega)
  split at changed
  · rename_i some
    by_cases first : (cutBlock h (h.heapStart + span mblockSize left) len
        ⟨t.size - len - mblockSize, 0⟩
        (firstBlock (h.heapStart + span mblockSize (left ++ [t])) right)).mem y = h.mem y
    · rw [← first] at changed
      have bounds := modifyBlock_changes changed
      have shape : left ++ t :: right = (left ++ [t]) ++ right := by simp
      rw [shape]
      exact spare_behind some bounds.1 bounds.2
    · exact cut first
  · exact cut changed

/-! ### Walks along the chain -/

theorem length_le (laid : h.Laid ts) : ts.length ≤ h.walkFuel := by
  have unit : 0 < mblockSize := by decide
  have ends := laid.ends
  have short : ts.length ≤ span mblockSize ts := length_le_span unit
  show ts.length ≤ h.heapEnd
  omega

theorem nonzero (laid : h.Laid ts) : h.heapStart + span mblockSize left ≠ 0 := by
  have low := laid.low
  omega

/-- The room of a tile. -/
theorem blockStart_eq (laid : h.Laid (left ++ t :: right)) :
    blockStart (h.heapStart + span mblockSize left) =
      h.heapStart + span mblockSize left + mblockSize := by
  have place := laid.place
  have high := laid.high
  rw [blockStart, uLong]
  omega

theorem blockEnd_eq (laid : h.Laid (left ++ t :: right)) :
    blockEnd (h.heapStart + span mblockSize left)
      (h.block (h.heapStart + span mblockSize left)) =
        h.heapStart + span mblockSize left + mblockSize + t.size := by
  have place := laid.place
  have high := laid.high
  rw [blockEnd, laid.blockStart_eq, laid.block_eq]
  simp only [tileHeader, uLong]
  omega

theorem next_eq (laid : h.Laid (left ++ t :: right)) :
    (h.block (h.heapStart + span mblockSize left)).next =
      firstBlock (h.heapStart + span mblockSize (left ++ [t])) right := by
  rw [laid.block_eq, tileHeader]

theorem size_eq (laid : h.Laid (left ++ t :: right)) :
    (h.block (h.heapStart + span mblockSize left)).size = t.size := by
  rw [laid.block_eq, tileHeader]

theorem sizeUsed_eq (laid : h.Laid (left ++ t :: right)) :
    (h.block (h.heapStart + span mblockSize left)).sizeUsed = t.used := by
  rw [laid.block_eq, tileHeader]

/-- `helper_check_heap` goes through the chain to its end and finds nothing. -/
theorem checkFrom_eq {fuel : Nat} (laid : h.Laid (left ++ right)) (enough : right.length ≤ fuel) :
    checkFrom fuel (firstBlock (h.heapStart + span mblockSize left) right) h = .ok h := by
  induction right generalizing left fuel with
  | nil =>
      unfold checkFrom
      rw [firstBlock_nil, if_pos rfl]
  | cons t rest inductionHypothesis =>
      cases fuel with
      | zero => cases enough
      | succ fuel =>
          rw [firstBlock_cons, checkFrom, if_neg laid.nonzero]
          simp only [laid.sanityCheck_eq, laid.next_eq]
          exact inductionHypothesis laid.behind (Nat.le_of_succ_le_succ enough)

/-- The search of `malloc` passes blocks that are in use or too small. -/
theorem firstFit_skip {len fuel : Nat} {last : Option Nat} {skipped : List Tile}
    (laid : h.Laid (left ++ (skipped ++ right)))
    (unfit : ∀ t ∈ skipped, ¬ (t.used = 0 ∧ len ≤ t.size)) :
    firstFit len (skipped.length + fuel)
        (firstBlock (h.heapStart + span mblockSize left) (skipped ++ right)) last h =
      firstFit len fuel (firstBlock (h.heapStart + span mblockSize (left ++ skipped)) right)
        (Linked.last last (placed mblockSize (h.heapStart + span mblockSize left) skipped)) h := by
  induction skipped generalizing left last with
  | nil => simp
  | cons t rest inductionHypothesis =>
      rw [List.cons_append] at laid ⊢
      have passes := unfit t List.mem_cons_self
      have later := @inductionHypothesis (left ++ [t])
        (Option.some (h.heapStart + span mblockSize left))
        laid.behind fun u listed => unfit u (List.mem_cons_of_mem _ listed)
      rw [List.length_cons, Nat.succ_add, firstBlock_cons, firstFit,
        if_neg laid.nonzero]
      simp only [laid.sanityCheck_eq]
      rw [laid.sizeUsed_eq, laid.size_eq, laid.next_eq, if_neg passes, later, List.append_assoc,
        span_snoc, ← Nat.add_assoc]
      rfl

/-- The search of `free` passes blocks that do not hold the address. -/
theorem freeFrom_skip {addr fuel : Nat} {skipped : List Tile}
    (laid : h.Laid (left ++ (skipped ++ right)))
    (elsewhere : ∀ x t, (x, t) ∈ placed mblockSize (h.heapStart + span mblockSize left) skipped →
      ¬ (x + mblockSize ≤ addr ∧ addr < x + mblockSize + t.size)) :
    freeFrom addr (skipped.length + fuel)
        (firstBlock (h.heapStart + span mblockSize left) (skipped ++ right)) h =
      freeFrom addr fuel (firstBlock (h.heapStart + span mblockSize (left ++ skipped)) right) h := by
  induction skipped generalizing left with
  | nil => simp
  | cons t rest inductionHypothesis =>
      rw [List.cons_append] at laid ⊢
      have passes := elsewhere _ t List.mem_cons_self
      have later := inductionHypothesis laid.behind fun x u listed =>
        elsewhere x u (List.mem_cons_of_mem _ (by rwa [span_snoc, ← Nat.add_assoc] at listed))
      rw [List.length_cons, Nat.succ_add, firstBlock_cons, freeFrom,
        if_neg laid.nonzero]
      simp only [laid.sanityCheck_eq]
      rw [laid.blockStart_eq, laid.blockEnd_eq, laid.next_eq, if_neg passes, later,
        List.append_assoc]
      rfl

/-- The search of `realloc` passes blocks that stand elsewhere. -/
theorem findBlock_skip {ptr fuel : Nat} {skipped : List Tile}
    (laid : h.Laid (left ++ (skipped ++ right)))
    (elsewhere : ∀ x t, (x, t) ∈ placed mblockSize (h.heapStart + span mblockSize left) skipped →
      x + mblockSize ≠ ptr) :
    findBlock ptr (skipped.length + fuel)
        (firstBlock (h.heapStart + span mblockSize left) (skipped ++ right)) h =
      findBlock ptr fuel (firstBlock (h.heapStart + span mblockSize (left ++ skipped)) right) h := by
  induction skipped generalizing left with
  | nil => simp
  | cons t rest inductionHypothesis =>
      rw [List.cons_append] at laid ⊢
      have passes := elsewhere _ t List.mem_cons_self
      have later := inductionHypothesis laid.behind fun x u listed =>
        elsewhere x u (List.mem_cons_of_mem _ (by rwa [span_snoc, ← Nat.add_assoc] at listed))
      rw [List.length_cons, Nat.succ_add, firstBlock_cons, findBlock,
        if_neg laid.nonzero]
      simp only [laid.sanityCheck_eq]
      rw [laid.blockStart_eq, laid.next_eq, if_neg passes, later, List.append_assoc]
      rfl

/-! ### Joining free neighbours -/

/-- `garbage_collect` joins free neighbours and leaves the blocks in use as they are. -/
theorem collectFrom_spec {fuel : Nat} (laid : h.Laid (left ++ right))
    (enough : right.length ≤ fuel) :
    ∃ h', collectFrom fuel (firstBlock (h.heapStart + span mblockSize left) right) h = .ok h' ∧
      OnlyMemory h h' ∧ h'.Laid (left ++ join mblockSize right) ∧
        Frame h h' (InUse mblockSize h.heapStart (left ++ right)) := by
  induction right using join.induct (h := mblockSize) generalizing left fuel h with
  | case1 =>
      refine ⟨h, ?_, OnlyMemory.refl h, ?_, Frame.refl h _⟩
      · unfold collectFrom
        rw [firstBlock_nil, if_pos rfl]
      · rw [join]
        exact laid
  | case2 t =>
      refine ⟨h, ?_, OnlyMemory.refl h, ?_, Frame.refl h _⟩
      · cases fuel with
        | zero => cases enough
        | succ fuel =>
            rw [firstBlock_cons, collectFrom, if_neg laid.nonzero]
            simp only [laid.mergeFreePair_last]
            unfold collectFrom
            rw [if_pos rfl]
      · rw [join]
        exact laid
  | case3 t u rest free inductionHypothesis =>
      cases fuel with
      | zero => cases enough
      | succ fuel =>
          obtain ⟨f, merged, same, merging⟩ := laid.mergeFreePair_free free.1 free.2
          have frame := laid.frame same fun y changed => spare_absorb changed
          rw [firstBlock_cons, collectFrom, if_neg laid.nonzero, join, if_pos free]
          simp only [merged]
          generalize absorbBlock h (h.heapStart + span mblockSize left) _ f = c at *
          obtain ⟨h', collected, same', laid', frame'⟩ :=
            inductionHypothesis merging (Nat.le_of_succ_le_succ enough)
          rw [same.heapStart, firstBlock_cons] at collected
          refine ⟨h', collected, same.trans same', laid', frame.trans frame' same.heapStart
            (Nat.le_of_eq same'.heapEnd.symm) ?_⟩
          intro x v inUse
          rw [same.heapStart]
          rw [inUse_append] at inUse ⊢
          apply Or.imp_right _ inUse
          intro here
          have unmerged := inUse_join.mpr here
          rw [join, if_pos free, inUse_join] at unmerged
          exact unmerged
  | case4 t u rest used inductionHypothesis =>
      cases fuel with
      | zero => cases enough
      | succ fuel =>
          rw [firstBlock_cons, collectFrom, if_neg laid.nonzero, join, if_neg used]
          simp only [laid.mergeFreePair_used used]
          obtain ⟨h', collected, same, laid', frame⟩ :=
            inductionHypothesis laid.behind (Nat.le_of_succ_le_succ enough)
          rw [List.append_assoc] at laid' frame
          exact ⟨h', collected, same, laid', frame⟩

/-! ### Taking a free block -/

theorem splitFreeBlock_small {len : Nat} (laid : h.Laid (left ++ t :: right))
    (round : wordRound len = len) (enough : len ≤ t.size) (small : t.size < len + minBlock) :
    h.splitFreeBlock (h.heapStart + span mblockSize left) len = h := by
  have place := laid.place
  have high := laid.high
  have least : minBlock = 48 := rfl
  have short : t.size < uLong (len + minBlock) := by
    rw [uLong]
    omega
  unfold splitFreeBlock
  simp only [round, laid.sanityCheck_eq]
  rw [laid.sizeUsed_eq, laid.size_eq, if_pos short, ite_self, ite_self]

/-- A free block is taken: what it does not need becomes a free block again. -/
theorem takeBlock_spec {len : Nat} (laid : h.Laid (left ++ t :: right)) (free : t.used = 0)
    (round : wordRound len = len) (enough : len ≤ t.size) :
    OnlyMemory h (h.takeBlock (h.heapStart + span mblockSize left) len) ∧
      (h.takeBlock (h.heapStart + span mblockSize left) len).Laid
        (left ++ (carve mblockSize minBlock len t ++ right)) ∧
      Frame h (h.takeBlock (h.heapStart + span mblockSize left) len)
        (InUse mblockSize h.heapStart (left ++ t :: right)) := by
  unfold takeBlock carve
  split
  · rename_i small
    rw [laid.splitFreeBlock_small round enough small]
    have same : OnlyMemory h (h.modifyBlock (h.heapStart + span mblockSize left) fun b =>
        { b with sizeUsed := len }) := rfl
    exact ⟨same, laid.mark enough, laid.frame same fun y changed => spare_mark changed⟩
  · rename_i large
    have room : len + minBlock ≤ t.size := Nat.le_of_not_lt large
    obtain ⟨same, cut⟩ := laid.split free round room
    have frame := laid.frame same fun y changed => laid.spare_split free round room changed
    generalize h.splitFreeBlock (h.heapStart + span mblockSize left) len = c at *
    have same' : OnlyMemory c (c.modifyBlock (c.heapStart + span mblockSize left) fun b =>
        { b with sizeUsed := len }) := rfl
    have marked := cut.mark (Nat.le_refl len)
    have frame' := cut.frame same' fun y changed => spare_mark changed
    rw [same.heapStart] at same' marked frame'
    refine ⟨same.trans same', marked, frame.trans frame' same.heapStart
      (Nat.le_of_eq same'.heapEnd.symm) ?_⟩
    intro x v inUse
    simp only [inUse_append, inUse_cons, free, ne_eq, not_true_eq_false, and_false, false_or]
      at inUse ⊢
    rcases inUse with earlier | later
    · exact Or.inl earlier
    · right
      have place : h.heapStart + span mblockSize left + (mblockSize + len) +
          (mblockSize + (t.size - len - mblockSize)) =
            h.heapStart + span mblockSize left + (mblockSize + t.size) := by
        have unit : mblockSize = 24 := rfl
        have least : minBlock = 48 := rfl
        omega
      rw [place]
      exact later

end Laid

/-! ### The system call -/

variable {sysBrk : BrkService σ} {backed : Nat → σ → Prop}

/-- What the allocator relies on when it asks for a page address: a break that the system grants
lies in region 1 and is `backed`, and one that it refuses leaves the old one in force. -/
structure Serves (sysBrk : BrkService σ) (backed : Nat → σ → Prop) : Prop where
  granted : ∀ old addr os os', backed old os → old ≤ addr → addr < 0x100000000 →
    addr % 0x2000 = 0 → sysBrk addr os = .ok (0, os') → addr ≤ 0x200000 ∧ backed addr os'
  refused : ∀ old addr os status os', backed old os → sysBrk addr os = .ok (status, os') →
    status ≠ 0 → backed old os'
  stops : ∀ addr os stop, sysBrk addr os = .error stop → stop = .noReturn

/-- The system refuses to move the break to a page. -/
def Refuses (sysBrk : BrkService σ) (h : UserHeap σ) (addr : Nat) : Prop :=
  addr ≠ pageUp h.currentBreak ∧ ∃ status os', sysBrk addr h.os = .ok (status, os') ∧ status ≠ 0

/-- The break of the program is backed, and in region 1. -/
structure BreakHeld (backed : Nat → σ → Prop) (h : UserHeap σ) : Prop where
  region : h.currentBreak ≤ 0x200000
  backed : backed (pageUp h.currentBreak) h.os

theorem OnlyMemory.atBreak (same : OnlyMemory h h') (atBreak : h.currentBreak = h.heapEnd) :
    h'.currentBreak = h'.heapEnd := by
  rw [same.currentBreak, same.heapEnd]
  exact atBreak

theorem BreakHeld.of_memory (held : h.BreakHeld backed) (same : OnlyMemory h h') :
    h'.BreakHeld backed := by
  have same : h' = { h with mem := h'.mem } := same
  rw [same]
  exact ⟨held.region, held.backed⟩

theorem pageUp_eq {n : Nat} (small : n ≤ 0xffffe000) :
    pageUp n = (n + 0x1fff) / 0x2000 * 0x2000 := by
  have word : (BitVec.ofNat 32 n).toNat = n := by
    rw [BitVec.toNat_ofNat]
    omega
  rw [pageUp, upToPage_toNat (by omega), word]

/-- A higher break is refused, or it is backed when it is there. -/
theorem brkUnlocked_spec {addr : Nat} (serves : Serves sysBrk backed) (held : h.BreakHeld backed)
    (aligned : addr % 8 = 0) (small : addr ≤ 0xffffe000) (above : h.currentBreak ≤ addr) :
    (h.brkUnlocked sysBrk addr = .error .noReturn ∧ ¬ h.Refuses sysBrk (pageUp addr)) ∨
    (∃ os', h.brkUnlocked sysBrk addr = .ok (-1, { h with os := os' }) ∧
      BreakHeld backed { h with os := os' } ∧ h.Refuses sysBrk (pageUp addr)) ∨
    (∃ os', h.brkUnlocked sysBrk addr = .ok (0, { h with currentBreak := addr, os := os' }) ∧
      BreakHeld backed { h with currentBreak := addr, os := os' } ∧
        ¬ h.Refuses sysBrk (pageUp addr)) := by
  have region := held.region
  have rounded : uLong (addr + 7) / 8 * 8 = addr := by
    rw [uLong]
    omega
  have page := pageUp_eq small
  have oldPage := pageUp_eq (n := h.currentBreak) (by omega)
  unfold brkUnlocked
  rw [rounded]
  by_cases moved : pageUp addr ≠ pageUp h.currentBreak
  · simp only [if_pos moved]
    rcases answer : sysBrk (pageUp addr) h.os with stop | ⟨status, os'⟩
    · refine Or.inl ⟨?_, ?_⟩
      · rw [serves.stops _ _ _ answer]
        rfl
      · rintro ⟨-, status, os', returned, -⟩
        rw [answer] at returned
        cases returned
    · right
      by_cases granted : status = 0
      · right
        subst granted
        obtain ⟨inside, known⟩ := serves.granted _ _ _ _ held.backed (by omega)
          (by omega) (by omega) answer
        refine ⟨os', rfl, ⟨?_, known⟩, ?_⟩
        · show addr ≤ 0x200000
          omega
        · rintro ⟨-, status, os'', refused, failed⟩
          rw [answer] at refused
          cases refused
          exact failed rfl
      · left
        refine ⟨os', ?_, ⟨region, serves.refused _ _ _ _ _ held.backed answer granted⟩, moved,
          status, os', answer, granted⟩
        show (if status ≠ 0 then _ else _ : Except HeapStop (Int × UserHeap σ)) = _
        rw [if_pos granted]
        rfl
  · have same : pageUp addr = pageUp h.currentBreak := not_not.mp moved
    simp only [if_neg moved]
    refine Or.inr (Or.inr ⟨h.os, rfl, ⟨?_, ?_⟩, fun refused => refused.1 same⟩)
    · show addr ≤ 0x200000
      omega
    · show backed (pageUp addr) h.os
      rw [same]
      exact held.backed

/-- The heap has grown by a free block, which is not linked yet. -/
structure Grown (h h' : UserHeap σ) (size : Nat) : Prop where
  initialized : h'.notInitialized = h.notInitialized
  start : h'.heapStart = h.heapStart
  ends : h'.heapEnd = h.heapEnd + mblockSize + size
  atBreak : h'.currentBreak = h'.heapEnd
  complaints : h'.complaints = h.complaints
  fresh : h'.block h.heapEnd = tileHeader ⟨size, 0⟩ 0 0
  elsewhere : ∀ y, h'.mem y ≠ h.mem y → h.heapEnd ≤ y ∧ y < h.heapEnd + mblockSize

/-- The page that `grow_heap` asks for. -/
def growRequest (h : UserHeap σ) (len : Nat) : Nat := pageUp (h.heapEnd + len + mblockSize)

theorem growHeap_spec {len : Nat} (laid : h.Laid ts) (serves : Serves sysBrk backed)
    (held : h.BreakHeld backed) (atBreak : h.currentBreak = h.heapEnd) (small : len ≤ 0x80000004) :
    (h.growHeap sysBrk len = .error .noReturn ∧ ¬ h.Refuses sysBrk (h.growRequest len)) ∨
    (∃ os', h.growHeap sysBrk len = .ok (0, { h with os := os' }) ∧
      BreakHeld backed { h with os := os' } ∧ h.Refuses sysBrk (h.growRequest len)) ∨
    (∃ h' size, h.growHeap sysBrk len = .ok (h.heapEnd, h') ∧ h'.BreakHeld backed ∧
      h.Grown h' size ∧ len ≤ size ∧ ¬ h.Refuses sysBrk (h.growRequest len)) := by
  have unit : mblockSize = 24 := rfl
  have low := laid.low
  have high := laid.high
  have sum : uLong (h.heapEnd + len + mblockSize) = h.heapEnd + len + mblockSize := by
    rw [uLong]
    omega
  have request : h.growRequest len = (h.heapEnd + len + mblockSize + 0x1fff) / 0x2000 * 0x2000 :=
    pageUp_eq (by omega)
  have whole : pageUp (h.growRequest len) = h.growRequest len := by
    rw [pageUp_eq (by omega)]
    omega
  have answer := @brkUnlocked_spec σ h sysBrk backed (h.growRequest len) serves held (by omega)
    (by omega) (by omega)
  rw [whole] at answer
  have req : pageUp (uLong (h.heapEnd + len + mblockSize)) = h.growRequest len := by
    rw [sum, growRequest]
  unfold growHeap
  simp only [if_neg (Nat.ne_of_gt low), req]
  generalize h.growRequest len = r at *
  rcases answer with
    ⟨stop, allowed⟩ | ⟨os', answer, held', refused⟩ | ⟨os', answer, held', allowed⟩
  · refine Or.inl ⟨?_, allowed⟩
    rw [stop]
    rfl
  · right
    left
    refine ⟨os', ?_, held', refused⟩
    rw [answer]
    rfl
  · right
    right
    have region : r ≤ 0x200000 := held'.region
    have size : uLongSub (uLongSub r h.heapEnd) mblockSize = r - h.heapEnd - mblockSize := by
      simp only [uLongSub, uLong]
      omega
    have header : (tileHeader ⟨r - h.heapEnd - mblockSize, 0⟩ 0 0).Small :=
      tileHeader_small (by simp only; omega) (by simp) (by simp) (by simp)
    have enough : len ≤ r - h.heapEnd - mblockSize := by omega
    have ends : r = h.heapEnd + mblockSize + (r - h.heapEnd - mblockSize) := by omega
    rw [answer]
    simp only [bind, Except.bind, pure, Except.pure, ne_eq, not_true_eq_false, if_false,
      Nat.lt_irrefl, size]
    generalize r - h.heapEnd - mblockSize = n at *
    have fresh (k : UserHeap σ) : (k.modifyBlock h.heapEnd fun _ =>
        tileHeader ⟨n, 0⟩ 0 0).block h.heapEnd = tileHeader ⟨n, 0⟩ 0 0 :=
      readBlock_writeBlock_self header
    refine ⟨_, n, rfl, ⟨region, held'.backed⟩, ⟨rfl, rfl, ends, rfl, rfl, fresh _, ?_⟩, enough,
      allowed⟩
    intro y changed
    by_contra outside
    exact changed (writeBlock_outside (by omega))

/-! ### Well-formed heaps -/

/-- The tiles fill the heap up to the break, and no two free ones are neighbours. -/
structure Wf (backed : Nat → σ → Prop) (h : UserHeap σ) (ts : List Tile) : Prop where
  laid : h.Laid ts
  coalesced : Coalesced ts
  atBreak : h.currentBreak = h.heapEnd
  held : h.BreakHeld backed

/-- Some tiles in use are `gone` and others have `come`; the rooms of those that were in use and are
not gone hold what they held. -/
structure Exchange (h h' : UserHeap σ) (ts ts' : List Tile) (gone come : Nat → Tile → Prop) :
    Prop where
  start : h'.heapStart = h.heapStart
  grows : h.heapEnd ≤ h'.heapEnd
  complaints : h'.complaints = h.complaints
  inUse : ∀ x t, InUse mblockSize h.heapStart ts' x t ↔
    come x t ∨ InUse mblockSize h.heapStart ts x t ∧ ¬ gone x t
  frame : Frame h h' fun x t => InUse mblockSize h.heapStart ts x t ∧ ¬ gone x t

/-- No tile. -/
def noTile (_ : Nat) (_ : Tile) : Prop := False

/-- The tile `t` at `x`. -/
def oneTile (x : Nat) (t : Tile) (y : Nat) (u : Tile) : Prop := y = x ∧ u = t

/-- Nothing is exchanged where memory and the tiles in use stay. -/
theorem Exchange.none (same : OnlyMemory h h')
    (frame : Frame h h' (InUse mblockSize h.heapStart ts))
    (inUse : ∀ x t, InUse mblockSize h.heapStart ts' x t ↔ InUse mblockSize h.heapStart ts x t) :
    Exchange h h' ts ts' noTile noTile where
  start := same.heapStart
  grows := Nat.le_of_eq same.heapEnd.symm
  complaints := same.complaints
  inUse x t := by
    rw [inUse x t]
    simp [noTile]
  frame := frame.mono fun _ _ => And.left

/-- An exchange after which nothing more is exchanged. -/
theorem Exchange.before_none {ts'' : List Tile} {gone come : Nat → Tile → Prop}
    (first : Exchange h h' ts ts' noTile noTile) (second : Exchange h' h'' ts' ts'' gone come) :
    Exchange h h'' ts ts'' gone come where
  start := second.start.trans first.start
  grows := Nat.le_trans first.grows second.grows
  complaints := second.complaints.trans first.complaints
  inUse x t := by
    have later := second.inUse x t
    rw [first.start, first.inUse] at later
    rw [later]
    simp [noTile]
  frame := by
    apply (first.frame.mono fun x t here => ⟨here.1, id⟩).trans second.frame first.start second.grows
    intro x t here
    rw [first.start, first.inUse]
    exact ⟨Or.inr ⟨here.1, id⟩, here.2⟩

/-- The chain of a heap that has grown by a block, once this block is linked. -/
def linkGrown (h g : UserHeap σ) (last : Nat) : UserHeap σ :=
  (g.modifyBlock last fun b => { b with next := h.heapEnd }).modifyBlock h.heapEnd fun b =>
    { b with previous := last }

/-- Growing the heap adds a free tile. -/
theorem grown_spec {g : UserHeap σ} {size : Nat} (wf : h.Wf backed (left ++ [t]))
    (grown : h.Grown g size) (held : g.BreakHeld backed) :
    let k := h.linkGrown g (h.heapStart + span mblockSize left)
    k.Laid (left ++ [t, ⟨size, 0⟩]) ∧ k.currentBreak = k.heapEnd ∧ k.BreakHeld backed ∧
      Exchange h k (left ++ [t]) (left ++ [t, ⟨size, 0⟩]) noTile noTile := by
  have unit : mblockSize = 24 := rfl
  have laid := wf.laid
  have place := laid.place
  rw [span_nil, Nat.add_zero] at place
  have ends := grown.ends
  have region := held.region
  rw [grown.atBreak] at region
  have elsewhere (y : Nat) (below : y + mblockSize ≤ h.heapEnd) : g.block y = h.block y := by
    apply readBlock_congr
    intro z low high
    by_contra changed
    have bounds := grown.elsewhere z changed
    omega
  intro k
  refine ⟨laid.extend (grown.initialized.trans laid.initialized) grown.start ends region grown.fresh
    elsewhere, grown.atBreak, ⟨held.region, held.backed⟩, ?_⟩
  refine ⟨grown.start, ?_, grown.complaints, ?_, ?_⟩
  · show h.heapEnd ≤ g.heapEnd
    omega
  · intro x u
    simp only [inUse_append, inUse_cons, inUse_nil, noTile, ne_eq, not_true_eq_false, and_false,
      not_false_eq_true, and_true, or_false, false_or]
  · intro y changed
    show h.heapStart ≤ y ∧ y < g.heapEnd ∧ _
    have touched : (h.heapStart + span mblockSize left ≤ y ∧
        y < h.heapStart + span mblockSize left + mblockSize) ∨
        (h.heapEnd ≤ y ∧ y < h.heapEnd + mblockSize) := by
      by_contra outside
      apply changed
      apply (mem_modifyBlock_outside (by omega)).trans
      apply (mem_modifyBlock_outside (by omega)).trans
      by_contra first
      have bounds := grown.elsewhere y first
      omega
    rcases touched with ⟨low, high⟩ | ⟨low, high⟩
    · exact ⟨by omega, by omega, fun x u here => (spare_header low high).outside here.1⟩
    · refine ⟨by omega, by omega, fun x u here => Or.inr ?_⟩
      have within := placed_inside here.1.1
      rw [laid.ends] at within
      exact Nat.le_trans within.2 low

/-! ### malloc -/

section Taking

variable {len : Nat}

/-- Where there was a tile there is one. -/
def Stays (a : Nat) (ts ts' : List Tile) : Prop :=
  ∀ x t, (x, t) ∈ placed mblockSize a ts → ∃ u, (x, u) ∈ placed mblockSize a ts'

/-- A tile in the middle may become others. -/
theorem stays_exchange {a : Nat} {middle : List Tile} (some : middle ≠ [])
    (spans : span mblockSize middle = mblockSize + t.size) :
    Stays a (left ++ t :: right) (left ++ (middle ++ right)) := by
  intro x u listed
  rw [placed_append, List.mem_append] at listed
  rw [placed_append, placed_append, spans]
  rcases listed with earlier | listed
  · exact ⟨u, List.mem_append_left _ earlier⟩
  · rcases List.mem_cons.mp listed with here | later
    · cases here
      rcases middle with _ | ⟨v, rest⟩
      · exact absurd rfl some
      · exact ⟨v, by simp⟩
    · exact ⟨u, List.mem_append_right _ (List.mem_append_right _ later)⟩

/-- A block has been taken of a well-formed heap, `v` at `x`, with `len` bytes in use. -/
structure Taken (backed : Nat → σ → Prop) (h h' : UserHeap σ) (ts : List Tile) (len x : Nat) :
    Prop where
  place : 0 < x ∧ x + mblockSize < 0x100000000
  fresh : ∀ u, ¬ InUse mblockSize h.heapStart ts x u
  taken : ∃ ts' v, h'.Wf backed ts' ∧ v.used = len ∧ Stays h.heapStart ts ts' ∧
    Exchange h h' ts ts' noTile (oneTile x v)

/-- A free tile is taken. -/
theorem takeBlock_taken {k : UserHeap σ} (laid : k.Laid (left ++ t :: right))
    (coalesced : Coalesced (left ++ t :: right)) (atBreak : k.currentBreak = k.heapEnd)
    (held : k.BreakHeld backed) (before : Exchange h k ts (left ++ t :: right) noTile noTile)
    (stays : Stays h.heapStart ts (left ++ t :: right)) (free : t.used = 0)
    (round : wordRound len = len) (positive : 0 < len) (enough : len ≤ t.size) :
    Taken backed h (k.takeBlock (k.heapStart + span mblockSize left) len) ts len
      (k.heapStart + span mblockSize left) := by
  have unit : mblockSize = 24 := rfl
  have least : minBlock = 48 := rfl
  have low := laid.low
  have high := laid.high
  have place := laid.place
  obtain ⟨same, laid', frame⟩ := laid.takeBlock_spec free round enough
  obtain ⟨v, head⟩ : ∃ v, (carve mblockSize minBlock len t).head? = some v := by
    unfold carve
    split
    · exact ⟨_, rfl⟩
    · exact ⟨_, rfl⟩
  have room : mblockSize ≤ minBlock := by omega
  refine ⟨⟨by omega, by omega⟩, ?_, _, v, ⟨laid', coalesced_carve coalesced free positive,
    same.atBreak atBreak, held.of_memory same⟩, (head_carve enough head).1, ?_,
    before.before_none ⟨same.heapStart, Nat.le_of_eq same.heapEnd.symm, same.complaints, ?_,
      frame.mono fun _ _ => And.left⟩⟩
  · intro u inUse
    have unused := (before.inUse (k.heapStart + span mblockSize left) u).mpr
      (Or.inr ⟨inUse, id⟩)
    rw [← before.start] at unused
    rw [placed_unique (by omega) unused.1 placed_here] at unused
    exact unused.2 free
  · intro x u listed
    obtain ⟨w, listed⟩ := stays x u listed
    refine stays_exchange ?_ (span_carve room) x w listed
    intro none
    rw [none] at head
    cases head
  · intro x u
    rw [inUse_carve room free positive, head]
    simp only [oneTile, noTile, Option.some.injEq, not_false_eq_true, and_true, eq_comm]

/-- The end of `malloc` after the heap has grown: the block that is found is free and large
enough. -/
theorem takeGrown {k : UserHeap σ} (laid : k.Laid (left ++ t :: right))
    (coalesced : Coalesced (left ++ t :: right)) (atBreak : k.currentBreak = k.heapEnd)
    (held : k.BreakHeld backed) (before : Exchange h k ts (left ++ t :: right) noTile noTile)
    (stays : Stays h.heapStart ts (left ++ t :: right)) (free : t.used = 0)
    (round : wordRound len = len) (positive : 0 < len) (enough : len ≤ t.size) :
    (if k.heapStart + span mblockSize left = 0 ∨
        (k.block (k.heapStart + span mblockSize left)).sizeUsed ≠ 0 ∨
        (k.block (k.heapStart + span mblockSize left)).size < len then
      (pure (0, k) : Except HeapStop (Nat × UserHeap σ))
    else
      pure (blockStart (k.heapStart + span mblockSize left),
        k.takeBlock (k.heapStart + span mblockSize left) len)) =
        .ok (k.heapStart + span mblockSize left + mblockSize,
          k.takeBlock (k.heapStart + span mblockSize left) len) ∧
    Taken backed h (k.takeBlock (k.heapStart + span mblockSize left) len) ts len
      (k.heapStart + span mblockSize left) := by
  have found : ¬ (k.heapStart + span mblockSize left = 0 ∨
      (k.block (k.heapStart + span mblockSize left)).sizeUsed ≠ 0 ∨
      (k.block (k.heapStart + span mblockSize left)).size < len) := by
    rw [laid.sizeUsed_eq, laid.size_eq]
    have nonzero : k.heapStart + span mblockSize left ≠ 0 := laid.nonzero
    omega
  rw [if_neg found, laid.blockStart_eq]
  exact ⟨rfl, takeBlock_taken laid coalesced atBreak held before stays free round positive enough⟩

/-- `malloc` after the heap has grown. -/
theorem mallocGrowing_spec (wf : h.Wf backed (left ++ [t])) (serves : Serves sysBrk backed)
    (round : wordRound len = len) (positive : 0 < len) (small : len ≤ 0x80000004) :
    (h.mallocGrowing sysBrk len (some (h.heapStart + span mblockSize left)) = .error .noReturn ∧
      ¬ h.Refuses sysBrk (h.growRequest len)) ∨
    (∃ os', h.mallocGrowing sysBrk len (some (h.heapStart + span mblockSize left)) =
        .ok (0, { h with os := os' }) ∧ BreakHeld backed { h with os := os' } ∧
          h.Refuses sysBrk (h.growRequest len)) ∨
    (∃ h' x, h.mallocGrowing sysBrk len (some (h.heapStart + span mblockSize left)) =
        .ok (x + mblockSize, h') ∧ Taken backed h h' (left ++ [t]) len x ∧
          ¬ h.Refuses sysBrk (h.growRequest len)) := by
  have laid := wf.laid
  have low := laid.low
  have high := laid.high
  have place := laid.place
  rcases growHeap_spec laid serves wf.held wf.atBreak small with
    ⟨stop, allowed⟩ | ⟨os', answer, held, refused⟩ |
      ⟨g, size, answer, held, grown, enough, allowed⟩
  · refine Or.inl ⟨?_, allowed⟩
    simp only [mallocGrowing, stop]
    rfl
  · right
    left
    refine ⟨os', ?_, held, refused⟩
    simp only [mallocGrowing, answer]
    rfl
  · right
    right
    obtain ⟨linked, atBreak, held', exchange⟩ := grown_spec wf grown held
    have start := exchange.start
    have nonzero : h.heapEnd ≠ 0 := by omega
    have shape : h.mallocGrowing sysBrk len (some (h.heapStart + span mblockSize left)) =
        let r := (h.linkGrown g (h.heapStart + span mblockSize left)).mergeFreePair
          (h.heapStart + span mblockSize left)
        if r.1 = 0 ∨ (r.2.block r.1).sizeUsed ≠ 0 ∨ (r.2.block r.1).size < len then pure (0, r.2)
        else pure (blockStart r.1, r.2.takeBlock r.1 len) := by
      simp only [mallocGrowing, answer, bind, Except.bind, if_neg nonzero]
      rfl
    rw [shape]
    generalize h.linkGrown g (h.heapStart + span mblockSize left) = k at *
    rw [← start]
    by_cases free : t.used = 0
    · obtain ⟨f, merged, same, laid'⟩ := linked.mergeFreePair_free free rfl
      have frame := linked.frame same fun y changed => Laid.spare_absorb changed
      rw [merged]
      generalize Laid.absorbBlock k (k.heapStart + span mblockSize left) _ f = k' at *
      have joined : Exchange k k' (left ++ [t, ⟨size, 0⟩])
          (left ++ [⟨t.size + size + mblockSize, t.used⟩]) noTile noTile := by
        refine Exchange.none same frame fun x u => ?_
        simp only [inUse_append, inUse_cons, inUse_nil, free, ne_eq, not_true_eq_false, and_false,
          or_false]
      have start' := same.heapStart
      have stays : Stays h.heapStart (left ++ [t])
          (left ++ [⟨t.size + size + mblockSize, t.used⟩]) := by
        intro x u listed
        rw [placed_append] at listed
        rcases List.mem_append.mp listed with earlier | last
        · exact ⟨u, placed_front earlier⟩
        · cases List.mem_singleton.mp last
          exact ⟨_, mem_placed.mpr ⟨left, [], rfl, rfl⟩⟩
      obtain ⟨found, taken⟩ := takeGrown laid' (wf.coalesced.replace free)
        (same.atBreak atBreak) (held'.of_memory same) (exchange.before_none joined)
        stays free round positive (by simp only; omega)
      rw [start'] at found taken
      exact ⟨_, _, found, taken, allowed⟩
    · rw [linked.mergeFreePair_used fun both => free both.1]
      have whole : left ++ [t, ⟨size, 0⟩] = (left ++ [t]) ++ [⟨size, 0⟩] := by simp
      rw [whole] at linked exchange
      obtain ⟨found, taken⟩ := takeGrown linked (by rw [← whole]; exact wf.coalesced.snoc free)
        atBreak held' exchange (fun x u listed => ⟨u, placed_front listed⟩) rfl round positive enough
      exact ⟨_, _, found, taken, allowed⟩

/-- What `malloc` looks for when it is asked for `len` bytes. -/
def needed (len : Nat) : Nat := wordRound (uLong (len + 4))

theorem needed_spec (small : len < 0x80000000) : len + 4 ≤ needed len ∧ needed len ≤ len + 7 ∧
    wordRound (needed len) = needed len := by
  simp only [needed, wordRound, uLong]
  omega

/-- No free block has room for `len` bytes. -/
def NoFit (ts : List Tile) (len : Nat) : Prop := ∀ t ∈ ts, ¬ (t.used = 0 ∧ needed len ≤ t.size)

theorem ensureInitialized_eq (laid : h.Laid ts) : h.ensureInitialized sysBrk = .ok h := by
  have initialized : ¬ h.notInitialized = true := by simp [laid.initialized]
  rw [ensureInitialized, if_neg initialized]

/-- The walk of a call reaches a tile with iterations to spare. -/
theorem fuel_behind (laid : h.Laid (left ++ t :: right)) :
    ∃ fuel, h.walkFuel = left.length + (fuel + 1) := by
  have enough := laid.length_le
  rw [List.length_append, List.length_cons] at enough
  exact ⟨h.walkFuel - left.length - 1, by omega⟩

theorem firstBlock_eq (laid : h.Laid ts) : firstBlock h.heapStart ts = h.heapStart := by
  cases ts with
  | nil => exact absurd rfl laid.some
  | cons t rest => rfl

/-- The search for a block that is not there ends at the last one. -/
theorem firstFit_none {fit : Nat} (laid : h.Laid (left ++ [t]))
    (unfit : ∀ u ∈ left ++ [t], ¬ (u.used = 0 ∧ fit ≤ u.size)) :
    firstFit fit h.walkFuel h.heapStart none h =
      .ok (.inr (some (h.heapStart + span mblockSize left)), h) := by
  have whole : h.Laid ([] ++ ((left ++ [t]) ++ [])) := by
    rw [List.append_nil]
    exact laid
  have skip := @Laid.firstFit_skip σ h [] [] fit (h.walkFuel - (left ++ [t]).length) none
    (left ++ [t]) whole unfit
  rw [Nat.add_sub_cancel' laid.length_le, span_nil, Nat.add_zero, last_placed_snoc,
    List.append_nil, firstBlock_eq laid] at skip
  rw [skip]
  unfold firstFit
  rw [firstBlock_nil, if_pos rfl]

/-- The search ends at the first free block that is large enough. -/
theorem firstFit_some {fit : Nat} (laid : h.Laid (left ++ t :: right))
    (unfit : ∀ u ∈ left, ¬ (u.used = 0 ∧ fit ≤ u.size)) (free : t.used = 0) (enough : fit ≤ t.size) :
    firstFit fit h.walkFuel h.heapStart none h =
      .ok (.inl (h.heapStart + span mblockSize left), h) := by
  obtain ⟨fuel, shape⟩ := fuel_behind laid
  have skip := @Laid.firstFit_skip σ h [] (t :: right) fit (fuel + 1) none left laid unfit
  rw [← shape, span_nil, Nat.add_zero, List.nil_append, firstBlock_eq laid, firstBlock_cons] at skip
  rw [skip, firstFit, if_neg laid.nonzero]
  simp only [laid.sanityCheck_eq]
  rw [laid.sizeUsed_eq, laid.size_eq, if_pos ⟨free, enough⟩]

theorem malloc_eq (laid : h.Laid ts) (small : len < 0x80000000) : h.malloc sysBrk len = (do
    match ← firstFit (needed len) h.walkFuel h.heapStart none h with
    | (.inl bp, h) => return (blockStart bp, h.takeBlock bp (needed len))
    | (.inr last, h) => h.mallocGrowing sysBrk (needed len) last) := by
  have signed : ¬ 0x80000000 ≤ len := Nat.not_le.mpr small
  unfold malloc
  simp only [if_neg signed, ensureInitialized_eq laid]
  rfl

/-- A call of `malloc` takes a block, unless none has room and the system refuses to grow the heap:
then nothing changes. -/
theorem malloc_spec (wf : h.Wf backed ts) (serves : Serves sysBrk backed)
    (small : len < 0x80000000) :
    (h.malloc sysBrk len = .error .noReturn ∧
      ¬ (NoFit ts len ∧ h.Refuses sysBrk (h.growRequest (needed len)))) ∨
    (∃ os', h.malloc sysBrk len = .ok (0, { h with os := os' }) ∧
      BreakHeld backed { h with os := os' } ∧ NoFit ts len ∧
        h.Refuses sysBrk (h.growRequest (needed len))) ∨
    (∃ h' x, h.malloc sysBrk len = .ok (x + mblockSize, h') ∧
      Taken backed h h' ts (needed len) x ∧
        ¬ (NoFit ts len ∧ h.Refuses sysBrk (h.growRequest (needed len)))) := by
  have laid := wf.laid
  obtain ⟨more, less, round⟩ := needed_spec small
  have positive : 0 < needed len := by omega
  have notLarge : needed len ≤ 0x80000004 := by
    simp only [needed, wordRound, uLong]
    omega
  rw [malloc_eq laid small]
  have search := @find_placed mblockSize h.heapStart ts fun _ t =>
    t.used = 0 ∧ needed len ≤ t.size
  rcases search with none | ⟨skipped, t, rest, shape, ⟨free, enough⟩, before⟩
  · have noFit : NoFit ts len := by
      intro t member
      obtain ⟨front, back, shape⟩ := List.append_of_mem member
      exact none _ t (by rw [shape]; exact placed_here)
    obtain ⟨front, t, shape⟩ : ∃ front t, ts = front ++ [t] := by
      rcases List.eq_nil_or_concat' ts with empty | ⟨front, t, shape⟩
      · exact absurd empty laid.some
      · exact ⟨front, t, shape⟩
    subst shape
    rw [firstFit_none laid noFit]
    rcases mallocGrowing_spec wf serves round positive notLarge with
      ⟨stop, allowed⟩ | ⟨os', answer, held, refused⟩ | ⟨h', x, answer, taken, allowed⟩
    · exact Or.inl ⟨stop, fun both => allowed both.2⟩
    · exact Or.inr (Or.inl ⟨os', answer, held, noFit, refused⟩)
    · exact Or.inr (Or.inr ⟨h', x, answer, taken, fun both => allowed both.2⟩)
  · subst shape
    have unfit : ∀ u ∈ skipped, ¬ (u.used = 0 ∧ needed len ≤ u.size) := by
      intro u member
      obtain ⟨front, back, shape⟩ := List.append_of_mem member
      exact before _ u (by rw [shape]; exact placed_here)
    have nothing : Exchange h h (skipped ++ t :: rest) (skipped ++ t :: rest) noTile noTile :=
      Exchange.none (OnlyMemory.refl h) (Frame.refl h _) fun _ _ => Iff.rfl
    have taken := takeBlock_taken laid wf.coalesced wf.atBreak wf.held nothing
      (fun _ u listed => ⟨u, listed⟩) free round positive enough
    rw [firstFit_some laid unfit free enough]
    refine Or.inr (Or.inr ⟨_, _, ?_, taken, ?_⟩)
    · rw [← laid.blockStart_eq]
      rfl
    · rintro ⟨noFit, -⟩
      exact noFit t (by simp) ⟨free, enough⟩

end Taking

/-! ### free -/

/-- The room of the tile `t` at `x` holds the address. -/
def Holds (addr x : Nat) (t : Tile) : Prop :=
  x + mblockSize ≤ addr ∧ addr < x + mblockSize + t.size

/-- What is said of a call that was wrong; nothing is said of the heap. -/
inductive Misuse : Complaint → Prop where
  | alreadyFree (addr : Nat) : Misuse (.alreadyFree addr)
  | freeNotFound (addr : Nat) : Misuse (.freeNotFound addr)
  | reallocNotFound (ptr : Nat) : Misuse (.reallocNotFound ptr)

/-- The heap after more complaints. -/
def complain (h : UserHeap σ) (more : List Complaint) : UserHeap σ :=
  { h with complaints := h.complaints ++ more }

/-- Complaints are no part of the layout. -/
theorem Wf.complain (wf : h.Wf backed ts) (more : List Complaint) :
    (h.complain more).Wf backed ts := by
  obtain ⟨⟨initialized, low, high, ends, some, fits, linking⟩, coalesced, atBreak, region, known⟩ :=
    wf
  exact ⟨⟨initialized, low, high, ends, some, fits, linking⟩, coalesced, atBreak, region, known⟩

/-- Marking a block as free and joining free neighbours takes one tile out of use. -/
theorem release_spec (wf : h.Wf backed (left ++ t :: right)) (used : t.used ≠ 0) :
    ∃ h' ts', (h.modifyBlock (h.heapStart + span mblockSize left) fun b =>
        { b with sizeUsed := 0 }).garbageCollect = .ok h' ∧ h'.Wf backed ts' ∧
      Exchange h h' (left ++ t :: right) ts' (oneTile (h.heapStart + span mblockSize left) t)
        noTile := by
  have unit : 0 < mblockSize := by decide
  have laid := wf.laid
  have marked := laid.mark (Nat.zero_le t.size)
  have same : OnlyMemory h (h.modifyBlock (h.heapStart + span mblockSize left) fun b =>
      { b with sizeUsed := 0 }) := rfl
  have frame := laid.frame same fun y changed => Laid.spare_mark changed
  generalize h.modifyBlock (h.heapStart + span mblockSize left)
    (fun b => { b with sizeUsed := 0 }) = k at *
  obtain ⟨h', collected, same', laid', frame'⟩ :=
    @Laid.collectFrom_spec σ k [] (left ++ ⟨t.size, 0⟩ :: right) k.walkFuel marked marked.length_le
  rw [span_nil, Nat.add_zero, firstBlock_eq marked] at collected
  rw [List.nil_append] at laid' frame'
  have memory := same.trans same'
  have others (x : Nat) (u : Tile) :
      InUse mblockSize h.heapStart (left ++ ⟨t.size, 0⟩ :: right) x u ↔
        InUse mblockSize h.heapStart (left ++ t :: right) x u ∧
          ¬ oneTile (h.heapStart + span mblockSize left) t x u := by
    have spans : span mblockSize [(⟨t.size, 0⟩ : Tile)] = span mblockSize [t] := by simp
    have exchanged := @inUse_exchange mblockSize h.heapStart x u left right [t] [⟨t.size, 0⟩] unit
      spans
    simpa [inUse_cons, oneTile, used] using exchanged
  refine ⟨h', _, collected, ⟨laid', coalesced_join, memory.atBreak wf.atBreak,
    wf.held.of_memory memory⟩, memory.heapStart, Nat.le_of_eq memory.heapEnd.symm,
    memory.complaints, ?_, (frame.mono fun _ _ => And.left).trans frame' same.heapStart
      (Nat.le_of_eq same'.heapEnd.symm) ?_⟩
  · intro x u
    rw [inUse_join, others]
    simp [noTile]
  · intro x u here
    rw [same.heapStart]
    exact (others x u).mpr here

section Searching

variable {addr : Nat}

theorem freeFrom_none (laid : h.Laid ts)
    (elsewhere : ∀ x t, (x, t) ∈ placed mblockSize h.heapStart ts → ¬ Holds addr x t) :
    freeFrom addr h.walkFuel h.heapStart h = .ok (h.complain [.freeNotFound addr]) := by
  have whole : h.Laid ([] ++ (ts ++ [])) := by
    rw [List.append_nil]
    exact laid
  have skip := @Laid.freeFrom_skip σ h [] [] addr (h.walkFuel - ts.length) ts whole
    (by rw [span_nil, Nat.add_zero]; exact elsewhere)
  rw [Nat.add_sub_cancel' laid.length_le, span_nil, Nat.add_zero, List.append_nil,
    firstBlock_eq laid] at skip
  rw [skip]
  unfold freeFrom
  rw [firstBlock_nil, if_pos rfl]
  rfl

theorem freeFrom_some (laid : h.Laid (left ++ t :: right))
    (elsewhere : ∀ x u, (x, u) ∈ placed mblockSize h.heapStart left → ¬ Holds addr x u)
    (here : Holds addr (h.heapStart + span mblockSize left) t) :
    freeFrom addr h.walkFuel h.heapStart h =
      if t.used = 0 then .ok (h.complain [.alreadyFree addr])
      else (h.modifyBlock (h.heapStart + span mblockSize left) fun b =>
        { b with sizeUsed := 0 }).garbageCollect := by
  obtain ⟨fuel, shape⟩ := fuel_behind laid
  have skip := @Laid.freeFrom_skip σ h [] (t :: right) addr (fuel + 1) left laid
    (by rw [span_nil, Nat.add_zero]; exact elsewhere)
  rw [← shape, span_nil, Nat.add_zero, List.nil_append, firstBlock_eq laid, firstBlock_cons] at skip
  rw [skip, freeFrom, if_neg laid.nonzero]
  simp only [laid.sanityCheck_eq]
  rw [laid.blockStart_eq, laid.blockEnd_eq, laid.sizeUsed_eq,
    if_pos ⟨here.1, here.2⟩]
  rfl

/-- A call of `free` takes the block that holds the address out of use; where there is no such block
nothing changes. -/
theorem free_spec (wf : h.Wf backed ts) (addr : Nat) :
    (∃ more, h.free sysBrk addr = .ok (h.complain more) ∧ (∀ c ∈ more, Misuse c) ∧
      ∀ x t, InUse mblockSize h.heapStart ts x t → ¬ Holds addr x t) ∨
    (∃ x t h' ts', h.free sysBrk addr = .ok h' ∧ InUse mblockSize h.heapStart ts x t ∧
      Holds addr x t ∧ h'.Wf backed ts' ∧ Exchange h h' ts ts' (oneTile x t) noTile) := by
  have unit : 0 < mblockSize := by decide
  have laid := wf.laid
  by_cases null : addr = 0
  · refine Or.inl ⟨[], ?_, by simp, fun x t _ here => ?_⟩
    · rw [free, if_pos null, complain, List.append_nil]
    · have low := here.1
      omega
  · have search : h.free sysBrk addr = freeFrom addr h.walkFuel h.heapStart h := by
      unfold free
      simp only [if_neg null, ensureInitialized_eq laid]
      rfl
    rw [search]
    rcases @find_placed mblockSize h.heapStart ts (Holds addr) with
      none | ⟨skipped, t, rest, shape, here, before⟩
    · refine Or.inl ⟨_, freeFrom_none laid none, fun c member => ?_,
        fun x t inUse => none x t inUse.1⟩
      cases List.mem_singleton.mp member
      exact Misuse.freeNotFound addr
    · subst shape
      rw [freeFrom_some laid before here]
      have only (x : Nat) (u : Tile)
          (inUse : InUse mblockSize h.heapStart (skipped ++ t :: rest) x u)
          (there : Holds addr x u) : u = t := by
        rcases placed_apart inUse.1 placed_here with same | apart | apart
        · exact same.2
        · exact absurd (Nat.lt_of_lt_of_le there.2 apart) (by have := here.1; omega)
        · exact absurd (Nat.lt_of_lt_of_le here.2 apart) (by have := there.1; omega)
      by_cases used : t.used = 0
      · rw [if_pos used]
        refine Or.inl ⟨_, rfl, fun c member => ?_, fun x u inUse there => ?_⟩
        · cases List.mem_singleton.mp member
          exact Misuse.alreadyFree addr
        · rw [only x u inUse there] at inUse
          exact inUse.2 used
      · rw [if_neg used]
        obtain ⟨h', ts', released, wf', exchange⟩ := release_spec wf used
        exact Or.inr ⟨_, t, h', ts', released, ⟨placed_here, used⟩, here, wf', exchange⟩

end Searching

end Yalnix.UserHeap
