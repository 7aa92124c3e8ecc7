/-
Module: Yalnix.Proofs.HeapResize
Purpose: What realloc and calloc do to a well-formed heap, what a program may store in it, and how
  the heap begins.
Trusted boundary: none
Main exports: Wf.store_inside, Wf.store_outside, Resized, Strayed, realloc_spec, calloc_spec,
  initHeap_spec
-/
import Yalnix.Proofs.HeapCalls

namespace Yalnix.UserHeap

open Tiling

variable {σ : Type} {h h' h'' k : UserHeap σ} {t u n v : Tile} {left right ts ts' : List Tile}
  {sysBrk : BrkService σ} {backed : Nat → σ → Prop}

/-! ### Stores -/

/-- A heap is well formed as long as its headers are. -/
theorem Wf.of_headers {mem : Nat → Byte} (wf : h.Wf backed ts)
    (same : ∀ x t, (x, t) ∈ placed mblockSize h.heapStart ts →
      ∀ y, x ≤ y → y < x + mblockSize → mem y = h.mem y) :
    Wf backed { h with mem := mem } ts := by
  obtain ⟨⟨initialized, low, high, ends, some, fits, linking⟩, coalesced, atBreak, region, known⟩ :=
    wf
  refine ⟨⟨initialized, low, high, ends, some, fits, ?_⟩, coalesced, atBreak, region, known⟩
  exact linking.congr fun x t listed => readBlock_congr (same x t listed)

section Stores

variable {addr x : Nat} {bytes : List Byte}

/-- A store into the room of a tile. -/
theorem Wf.store_inside (wf : h.Wf backed ts) (listed : (x, t) ∈ placed mblockSize h.heapStart ts)
    (low : x + mblockSize ≤ addr) (high : addr + bytes.length ≤ x + mblockSize + t.size) :
    Wf backed { h with mem := Bytes.write h.mem addr bytes } ts := by
  refine wf.of_headers fun y u listed' z above below => Bytes.write_outside ?_
  rcases placed_apart listed listed' with ⟨rfl, -⟩ | before | after
  · exact Or.inl (by omega)
  · exact Or.inr (by omega)
  · exact Or.inl (by omega)

/-- A store that misses the heap. -/
theorem Wf.store_outside (wf : h.Wf backed ts)
    (outside : addr + bytes.length ≤ h.heapStart ∨ h.heapEnd ≤ addr) :
    Wf backed { h with mem := Bytes.write h.mem addr bytes } ts := by
  refine wf.of_headers fun y u listed z above below => Bytes.write_outside ?_
  have within := placed_inside listed
  rw [wf.laid.ends] at within
  omega

end Stores

/-! ### realloc in place -/

section Resizing

variable {ptr size : Nat}

theorem findBlock_none (laid : h.Laid ts)
    (elsewhere : ∀ x t, (x, t) ∈ placed mblockSize h.heapStart ts → x + mblockSize ≠ ptr) :
    findBlock ptr h.walkFuel h.heapStart h = .ok (none, h) := by
  have whole : h.Laid ([] ++ (ts ++ [])) := by
    rw [List.append_nil]
    exact laid
  have skip := @Laid.findBlock_skip σ h [] [] ptr (h.walkFuel - ts.length) ts whole
    (by rw [span_nil, Nat.add_zero]; exact elsewhere)
  rw [Nat.add_sub_cancel' laid.length_le, span_nil, Nat.add_zero, List.append_nil,
    firstBlock_eq laid] at skip
  rw [skip]
  unfold findBlock
  rw [firstBlock_nil, if_pos rfl]

theorem findBlock_some (laid : h.Laid (left ++ t :: right))
    (here : ptr = h.heapStart + span mblockSize left + mblockSize) :
    findBlock ptr h.walkFuel h.heapStart h = .ok (some (h.heapStart + span mblockSize left), h) := by
  have unit : mblockSize = 24 := rfl
  obtain ⟨fuel, shape⟩ := fuel_behind laid
  have elsewhere (x : Nat) (u : Tile) (listed : (x, u) ∈ placed mblockSize h.heapStart left) :
      x + mblockSize ≠ ptr := by
    have within := placed_inside listed
    omega
  have skip := @Laid.findBlock_skip σ h [] (t :: right) ptr (fuel + 1) left laid
    (by rw [span_nil, Nat.add_zero]; exact elsewhere)
  rw [← shape, span_nil, Nat.add_zero, List.nil_append, firstBlock_eq laid, firstBlock_cons] at skip
  rw [skip, findBlock, if_neg laid.nonzero]
  simp only [laid.sanityCheck_eq]
  rw [laid.blockStart_eq, if_pos here.symm]

/-- The tile behind `t` is free, and the two together have room for `size` bytes. -/
def Roomy (size : Nat) (t : Tile) (right : List Tile) : Prop :=
  ∃ n rest, right = n :: rest ∧ n.used = 0 ∧ size ≤ t.size + n.size + mblockSize

/-- A block that is large enough is marked. -/
theorem resizeBlock_mark (laid : h.Laid (left ++ t :: right)) (enough : size ≤ t.size) :
    h.resizeBlock sysBrk (h.heapStart + span mblockSize left) ptr size =
      .ok (ptr, h.modifyBlock (h.heapStart + span mblockSize left) fun b =>
        { b with sizeUsed := size }) := by
  unfold resizeBlock
  dsimp only
  rw [laid.size_eq, if_pos enough]

/-- What `realloc` writes into the header of a block that takes over the one behind it. -/
def grownHeader (n : Tile) (next size : Nat) (b : MBlock) : MBlock :=
  { b with next := next, size := uLong (b.size + n.size + mblockSize), sizeUsed := size }

/-- A block takes over the free block behind it. -/
theorem resizeBlock_absorb (laid : h.Laid (left ++ t :: n :: right)) (more : ¬ size ≤ t.size)
    (free : n.used = 0) (enough : size ≤ t.size + n.size + mblockSize) :
    h.resizeBlock sysBrk (h.heapStart + span mblockSize left) ptr size =
      .ok (ptr, Laid.absorbBlock h (h.heapStart + span mblockSize left)
        (firstBlock (h.heapStart + span mblockSize (left ++ [t, n])) right)
        (grownHeader n
          (firstBlock (h.heapStart + span mblockSize (left ++ [t, n])) right) size)) := by
  have unit : mblockSize = 24 := rfl
  have place := laid.place
  have high := laid.high
  have later : span mblockSize (n :: right) = mblockSize + n.size + span mblockSize right :=
    span_cons
  have sum : uLong (t.size + n.size + mblockSize) = t.size + n.size + mblockSize := by
    rw [uLong]
    omega
  have linked : h.heapStart + span mblockSize (left ++ [t]) ≠ 0 := laid.behind.nonzero
  have roomy : h.heapStart + span mblockSize (left ++ [t]) ≠ 0 ∧ n.used = 0 ∧
      size ≤ uLong (t.size + n.size + mblockSize) := ⟨linked, free, by omega⟩
  unfold resizeBlock Laid.absorbBlock
  dsimp only
  rw [laid.size_eq, if_neg more, laid.next_eq, firstBlock_cons, laid.block_behind, if_pos]
  · by_cases some : firstBlock (h.heapStart + span mblockSize (left ++ [t, n])) right ≠ 0
    · rw [if_pos some]
      exact if_pos some
    · rw [if_neg some]
      exact if_neg some
  · exact roomy

/-- A block that cannot grow in place is moved. -/
theorem resizeBlock_move (laid : h.Laid (left ++ t :: right)) (more : ¬ size ≤ t.size)
    (cramped : ¬ Roomy size t right) :
    h.resizeBlock sysBrk (h.heapStart + span mblockSize left) ptr size = (do
      let (rp, k) ← h.malloc sysBrk size
      if rp = 0 then return (0, k)
      else
        let held := Bytes.read k.mem ptr (k.block (h.heapStart + span mblockSize left)).sizeUsed
        let k ← { k with mem := Bytes.write k.mem rp held }.free sysBrk ptr
        return (rp, k)) := by
  have unit : mblockSize = 24 := rfl
  have place := laid.place
  have high := laid.high
  unfold resizeBlock
  dsimp only
  rw [laid.size_eq, if_neg more, laid.next_eq, if_neg]
  rintro ⟨some, free, enough⟩
  cases right with
  | nil => exact some rfl
  | cons n rest =>
      rw [firstBlock_cons, laid.block_behind] at free enough
      simp only [tileHeader, uLong] at free enough
      exact cramped ⟨n, rest, rfl, free, by omega⟩

/-- The tile `t` at `x` has become a tile at `y`, with `size` bytes or more in use, which holds what
the tile held. -/
structure Resized (backed : Nat → σ → Prop) (h h' : UserHeap σ) (ts : List Tile) (size x : Nat)
    (t : Tile) (y : Nat) : Prop where
  place : 0 < y ∧ y + mblockSize < 0x100000000
  fresh : y = x ∨ ∀ u, ¬ InUse mblockSize h.heapStart ts y u
  resized : ∃ ts' v, h'.Wf backed ts' ∧ size ≤ v.used ∧
    Exchange h h' ts ts' (oneTile x t) (oneTile y v) ∧
      (t.used ≠ 0 → ∀ i, i < t.used → i < v.used →
        h'.mem (y + mblockSize + i) = h.mem (x + mblockSize + i))

/-- A tile, and free ones behind it, have become one tile in the same place. -/
theorem inUse_resized {a x : Nat} {middle : List Tile} (used : v.used ≠ 0)
    (spans : mblockSize + v.size = span mblockSize (t :: middle)) (free : ∀ n ∈ middle, n.used = 0) :
    InUse mblockSize a (left ++ v :: right) x u ↔ oneTile (a + span mblockSize left) v x u ∨
      InUse mblockSize a (left ++ (t :: middle ++ right)) x u ∧
        ¬ oneTile (a + span mblockSize left) t x u := by
  have unit : 0 < mblockSize := by decide
  have same : span mblockSize [v] = span mblockSize (t :: middle) := by
    rw [span_cons, span_nil, Nat.add_zero]
    exact spans
  have none (b : Nat) : ¬ InUse mblockSize b middle x u := fun here =>
    here.2 (free u (mem_of_placed here.1))
  have exchanged := @inUse_exchange mblockSize a x u left right (t :: middle) [v] unit same
  rw [List.singleton_append] at exchanged
  rw [exchanged, inUse_cons, inUse_cons (u := t)]
  simp only [inUse_nil, or_false, none, used, ne_eq, not_false_eq_true, and_true, oneTile]
  constructor
  · rintro (here | ⟨here, other⟩)
    · exact Or.inl here
    · exact Or.inr ⟨here, fun same => other ⟨same.1, same.2, fun free => here.2 (same.2 ▸ free)⟩⟩
  · rintro (here | ⟨here, other⟩)
    · exact Or.inl here
    · exact Or.inr ⟨here, fun same => other ⟨same.1, same.2.1⟩⟩

/-- `realloc` stays in the place of the block where it can. -/
theorem resize_in_place (wf : h.Wf backed (left ++ t :: right)) (positive : 0 < size)
    (inPlace : size ≤ t.size ∨ Roomy size t right) :
    ∃ h', h.resizeBlock sysBrk (h.heapStart + span mblockSize left) ptr size = .ok (ptr, h') ∧
      Resized backed h h' (left ++ t :: right) size (h.heapStart + span mblockSize left) t
        (h.heapStart + span mblockSize left) := by
  have unit : mblockSize = 24 := rfl
  have laid := wf.laid
  have low := laid.low
  have high := laid.high
  have place := laid.place
  have used : size ≠ 0 := Nat.ne_of_gt positive
  by_cases enough : size ≤ t.size
  · have same : OnlyMemory h (h.modifyBlock (h.heapStart + span mblockSize left) fun b =>
        { b with sizeUsed := size }) := rfl
    have frame := laid.frame same fun y changed => Laid.spare_mark changed
    refine ⟨_, resizeBlock_mark laid enough, ⟨by omega, by omega⟩, Or.inl rfl, _, ⟨t.size, size⟩,
      ⟨laid.mark enough, ?_, wf.atBreak, wf.held.of_memory same⟩, Nat.le_refl _,
      ⟨rfl, Nat.le_refl _, rfl, ?_, frame.mono fun _ _ => And.left⟩, ?_⟩
    · exact coalesced_separate wf.coalesced.left
        (List.isChain_cons.mp wf.coalesced.right).2 used
    · intro x u
      exact @inUse_resized t u ⟨t.size, size⟩ left right _ x [] used (by simp) (by simp)
    · intro inUse i inside _
      exact frame.keeps ⟨placed_here, inUse⟩ (Nat.lt_of_lt_of_le inside laid.used_le)
  · obtain ⟨n, rest, rfl, free, room⟩ := inPlace.resolve_left enough
    have later : span mblockSize (n :: rest) = mblockSize + n.size + span mblockSize rest :=
      span_cons
    have sum : uLong (t.size + n.size + mblockSize) = t.size + n.size + mblockSize := by
      rw [uLong]
      omega
    have absorbed := @Laid.absorb σ h t n left rest ⟨t.size + n.size + mblockSize, size⟩
      (grownHeader n (firstBlock (h.heapStart + span mblockSize (left ++ [t, n])) rest) size) laid
      rfl room (by rw [laid.block_eq, grownHeader, tileHeader, sum]; rfl)
    obtain ⟨same, laid'⟩ := absorbed
    have frame := laid.frame same fun y changed => Laid.spare_absorb changed
    refine ⟨_, resizeBlock_absorb laid enough free room, ⟨by omega, by omega⟩, Or.inl rfl, _,
      ⟨t.size + n.size + mblockSize, size⟩, ⟨laid', ?_, same.atBreak wf.atBreak,
      wf.held.of_memory same⟩, Nat.le_refl _, ⟨same.heapStart, Nat.le_of_eq same.heapEnd.symm,
      same.complaints, ?_, frame.mono fun _ _ => And.left⟩, ?_⟩
    · have tail := (List.isChain_cons.mp wf.coalesced.right).2
      exact coalesced_separate wf.coalesced.left (List.isChain_cons.mp tail).2 used
    · intro x u
      refine @inUse_resized t u ⟨t.size + n.size + mblockSize, size⟩ left rest _ x [n] used ?_ ?_
      · simp only [span_cons, span_nil]
        omega
      · intro m member
        cases List.mem_singleton.mp member
        exact free
    · intro inUse i inside _
      exact frame.keeps ⟨placed_here, inUse⟩ (Nat.lt_of_lt_of_le inside laid.used_le)

/-! ### realloc by moving -/

/-- An address is in the room of one tile. -/
theorem Holds.unique {a addr x y : Nat} (first : (x, t) ∈ placed mblockSize a ts)
    (second : (y, u) ∈ placed mblockSize a ts) (here : Holds addr x t) (there : Holds addr y u) :
    x = y ∧ t = u := by
  rcases placed_apart first second with same | before | after
  · exact same
  · exact absurd (Nat.lt_of_lt_of_le here.2 before) (by have := there.1; omega)
  · exact absurd (Nat.lt_of_lt_of_le there.2 after) (by have := here.1; omega)

/-- A block in use is freed. -/
theorem free_inUse (sysBrk : BrkService σ) {addr x : Nat} (wf : h.Wf backed ts)
    (inUse : InUse mblockSize h.heapStart ts x t) (here : Holds addr x t) :
    ∃ h' ts', h.free sysBrk addr = .ok h' ∧ h'.Wf backed ts' ∧
      Exchange h h' ts ts' (oneTile x t) noTile := by
  rcases @free_spec σ h ts sysBrk backed wf addr with
    ⟨_, _, _, none⟩ | ⟨y, u, h', ts', freed, inUse', there, wf', exchange⟩
  · exact absurd here (none x t inUse)
  · obtain ⟨rfl, rfl⟩ := Holds.unique inUse.1 inUse'.1 here there
    exact ⟨h', ts', freed, wf', exchange⟩

/-- A store into the room of a tile that has come. -/
theorem Exchange.store {y : Nat} {bytes : List Byte} {ts₁ : List Tile} (wf₁ : k.Wf backed ts₁)
    (exchange : Exchange h k ts ts₁ noTile (oneTile y v))
    (fresh : ∀ u, ¬ InUse mblockSize h.heapStart ts y u) (room : bytes.length ≤ v.size) :
    Exchange h { k with mem := Bytes.write k.mem (y + mblockSize) bytes } ts ts₁ noTile
      (oneTile y v) := by
  have start := exchange.start
  have inUseNew : InUse mblockSize h.heapStart ts₁ y v :=
    (exchange.inUse y v).mpr (Or.inl ⟨rfl, rfl⟩)
  have inside := placed_inside inUseNew.1
  rw [← start, wf₁.laid.ends] at inside
  refine ⟨start, exchange.grows, exchange.complaints, exchange.inUse, ?_⟩
  intro z changed
  by_cases same : k.mem z = h.mem z
  · have written : y + mblockSize ≤ z ∧ z < y + mblockSize + bytes.length := by
      by_contra outside
      exact changed ((Bytes.write_outside (by omega)).trans same)
    refine ⟨by omega, ?_, fun w u here => ?_⟩
    · show z < k.heapEnd
      omega
    · have here₁ := (exchange.inUse w u).mpr (Or.inr here)
      rcases placed_apart here₁.1 inUseNew.1 with both | before | after
      · exact absurd (both.1 ▸ here.1) (fresh u)
      · exact Or.inr (by omega)
      · exact Or.inl (by omega)
  · exact exchange.frame z same

/-- The first `n` bytes of the room at `x` are copied to the room at `y`. -/
def copied (k : UserHeap σ) (x y n : Nat) : UserHeap σ :=
  { k with
    mem := Bytes.write k.mem (y + mblockSize) (Bytes.read k.mem (x + mblockSize) n) }

/-- The tile that has been taken holds a copy, and the old one is freed. -/
theorem move_spec (sysBrk : BrkService σ) {x y : Nat} (wf : h.Wf backed ts)
    (inUse : InUse mblockSize h.heapStart ts x t)
    (taken : Taken backed h k ts (needed size) y) (more : t.size < size)
    (small : size < 0x80000000) :
    ∃ h', (k.copied x y (k.block x).sizeUsed).free sysBrk (x + mblockSize) = .ok h' ∧
      Resized backed h h' ts size x t y := by
  have fits := wf.laid.fits t (mem_of_placed inUse.1)
  obtain ⟨place, fresh, ts₁, v, wf₁, length, -, exchange⟩ := taken
  have start := exchange.start
  have enough := (needed_spec small).1
  have inUse₁ : InUse mblockSize h.heapStart ts₁ x t := (exchange.inUse x t).mpr (Or.inr ⟨inUse, id⟩)
  have inUseNew : InUse mblockSize h.heapStart ts₁ y v :=
    (exchange.inUse y v).mpr (Or.inl ⟨rfl, rfl⟩)
  have room := wf₁.laid.fits v (mem_of_placed inUseNew.1)
  have header : (k.block x).sizeUsed = t.used := by
    obtain ⟨front, back, rfl, rfl⟩ := mem_placed.mp inUse₁.1
    rw [← start]
    exact wf₁.laid.sizeUsed_eq
  rw [header]
  have copy : (Bytes.read k.mem (x + mblockSize) t.used).length = t.used := by simp
  have stored : (k.copied x y t.used).Wf backed ts₁ :=
    wf₁.store_inside (by rw [start]; exact inUseNew.1) (Nat.le_refl _) (by omega)
  have exchanged : Exchange h (k.copied x y t.used) ts ts₁ noTile (oneTile y v) :=
    exchange.store wf₁ fresh (by omega)
  have holds (i : Nat) (below : i < t.used) :
      (k.copied x y t.used).mem (y + mblockSize + i) = k.mem (x + mblockSize + i) := by
    show Bytes.write _ _ _ _ = _
    rw [Bytes.write_inside (by omega), Bytes.getD_read below]
  generalize k.copied x y t.used = c at *
  have start' := exchanged.start
  have here : Holds (x + mblockSize) x t := ⟨Nat.le_refl _, by have := inUse.2; omega⟩
  obtain ⟨h', ts', freed, wf', exchange'⟩ := free_inUse sysBrk stored
    (by rw [start']; exact inUse₁) here
  have other : ¬ oneTile x t y v := by
    rintro ⟨rfl, -⟩
    exact fresh t inUse
  refine ⟨h', freed, place, Or.inr fresh, ts', v, wf', by omega, ⟨exchange'.start.trans start',
    Nat.le_trans exchanged.grows exchange'.grows,
    exchange'.complaints.trans exchanged.complaints, ?_, ?_⟩, ?_⟩
  · intro z w
    have later := exchange'.inUse z w
    rw [start', exchanged.inUse] at later
    rw [later]
    simp only [noTile, false_or, not_false_eq_true, and_true]
    constructor
    · rintro ⟨new | old, gone⟩
      · exact Or.inl new
      · exact Or.inr ⟨old, gone⟩
    · rintro (⟨rfl, rfl⟩ | ⟨old, gone⟩)
      · exact ⟨Or.inl ⟨rfl, rfl⟩, other⟩
      · exact ⟨Or.inr old, gone⟩
  · apply (exchanged.frame.mono fun z w here => ⟨here.1, id⟩).trans exchange'.frame start'
      exchange'.grows
    intro z w here
    rw [start', exchanged.inUse]
    exact ⟨Or.inr ⟨here.1, id⟩, here.2⟩
  · intro _ i below _
    have newTile : InUse mblockSize c.heapStart ts₁ y v ∧ ¬ oneTile x t y v := by
      rw [start']
      exact ⟨inUseNew, other⟩
    calc h'.mem (y + mblockSize + i) = c.mem (y + mblockSize + i) :=
          exchange'.frame.keeps newTile (by omega)
      _ = k.mem (x + mblockSize + i) := holds i below
      _ = h.mem (x + mblockSize + i) := exchange.frame.keeps ⟨inUse, id⟩ (by omega)

/-- What a wrong call that returns `r` may leave behind: the tiles that were in use, and perhaps a
new one behind `r`. -/
def Strayed (backed : Nat → σ → Prop) (h h' : UserHeap σ) (ts : List Tile) (r : Nat) : Prop :=
  ∃ k ts' more come, h' = k.complain more ∧ (∀ c ∈ more, Misuse c) ∧ k.Wf backed ts' ∧
    Exchange h k ts ts' noTile come ∧ (come = noTile ∨
      ∃ y v, come = oneTile y v ∧ r = y + mblockSize ∧ 0 < y ∧ y + mblockSize < 0x100000000 ∧
        ∀ u, ¬ InUse mblockSize h.heapStart ts y u)

/-- A call that only complains. -/
theorem Wf.strayed {more : List Complaint} (wf : h.Wf backed ts)
    (misuse : ∀ c ∈ more, Misuse c) (r : Nat) : Strayed backed h (h.complain more) ts r :=
  ⟨h, ts, more, noTile, rfl, misuse, wf,
    Exchange.none (OnlyMemory.refl h) (Frame.refl h _) fun _ _ => Iff.rfl, Or.inl rfl⟩

/-- A free block is "moved": the new block stays, unless it is the old one, which is freed again. -/
theorem move_stray (sysBrk : BrkService σ) {x y : Nat}
    (listed : (x, t) ∈ placed mblockSize h.heapStart ts) (free : t.used = 0)
    (taken : Taken backed h k ts (needed size) y) (small : size < 0x80000000) :
    ∃ h', (k.copied x y (k.block x).sizeUsed).free sysBrk (x + mblockSize) = .ok h' ∧
      Strayed backed h h' ts (y + mblockSize) := by
  have unit : 0 < mblockSize := by decide
  obtain ⟨place, fresh, ts₁, v, wf₁, length, stays, exchange⟩ := taken
  have start := exchange.start
  have enough := (needed_spec small).1
  have inUseNew : InUse mblockSize h.heapStart ts₁ y v :=
    (exchange.inUse y v).mpr (Or.inl ⟨rfl, rfl⟩)
  obtain ⟨u, listed₁⟩ := stays x t listed
  have header : (k.block x).sizeUsed = u.used := by
    obtain ⟨front, back, rfl, rfl⟩ := mem_placed.mp listed₁
    rw [← start]
    exact wf₁.laid.sizeUsed_eq
  rw [header]
  by_cases again : x = y
  · subst again
    obtain rfl := placed_unique unit listed₁ inUseNew.1
    have unchanged : k.copied x x u.used = k := by
      unfold copied
      rw [Bytes.write_read]
    have room := wf₁.laid.fits u (mem_of_placed listed₁)
    have here : Holds (x + mblockSize) x u := ⟨Nat.le_refl _, by omega⟩
    obtain ⟨h', ts', freed, wf', exchange'⟩ := free_inUse sysBrk wf₁
      (by rw [start]; exact inUseNew) here
    rw [unchanged]
    refine ⟨h', freed, h', ts', [], noTile, ?_, by simp, wf', ?_, Or.inl rfl⟩
    · rw [complain, List.append_nil]
    · refine ⟨exchange'.start.trans start, Nat.le_trans exchange.grows exchange'.grows,
        exchange'.complaints.trans exchange.complaints, ?_, ?_⟩
      · intro z w
        have later := exchange'.inUse z w
        rw [start, exchange.inUse] at later
        rw [later]
        simp only [noTile, oneTile, false_or, not_false_eq_true, and_true]
        constructor
        · rintro ⟨new | old, other⟩
          · exact absurd new other
          · exact old
        · intro old
          refine ⟨Or.inr old, ?_⟩
          rintro ⟨rfl, -⟩
          exact fresh w old
      · apply exchange.frame.trans exchange'.frame start exchange'.grows
        intro z w old
        rw [start, exchange.inUse]
        refine ⟨Or.inr ⟨old.1, id⟩, ?_⟩
        rintro ⟨rfl, -⟩
        exact fresh w old.1
  · have unused : u.used = 0 := by
      by_contra used
      rcases (exchange.inUse x u).mp ⟨listed₁, used⟩ with new | old
      · exact again new.1
      · obtain rfl := placed_unique unit old.1.1 listed
        exact used free
    have unchanged : k.copied x y u.used = k := by
      unfold copied
      rw [unused]
      exact congrArg (fun mem => { k with mem := mem }) Bytes.write_nil
    rw [unchanged]
    rcases @free_spec σ k ts₁ sysBrk backed wf₁ (x + mblockSize) with
      ⟨more, freed, misuse, -⟩ | ⟨z, w, -, -, -, inUse, here, -, -⟩
    · exact ⟨_, freed, k, ts₁, more, oneTile y v, rfl, misuse, wf₁, exchange,
        Or.inr ⟨y, v, rfl, rfl, place.1, place.2, fresh⟩⟩
    · rw [start] at inUse
      have low := here.1
      have high := here.2
      rcases placed_apart listed₁ inUse.1 with same | before | after
      · rw [same.2] at unused
        exact absurd unused inUse.2
      · omega
      · omega

/-- A free block that `realloc` has marked is a new one. -/
theorem Resized.strayed {x : Nat} (resized : Resized backed h h' ts size x t x)
    (listed : (x, t) ∈ placed mblockSize h.heapStart ts) (free : t.used = 0) :
    Strayed backed h h' ts (x + mblockSize) := by
  have unit : 0 < mblockSize := by decide
  obtain ⟨place, -, ts', v, wf', -, exchange, -⟩ := resized
  have other (z : Nat) (w : Tile) (inUse : InUse mblockSize h.heapStart ts z w) :
      ¬ oneTile x t z w := by
    rintro ⟨rfl, rfl⟩
    exact inUse.2 free
  refine ⟨h', ts', [], oneTile x v, ?_, by simp, wf', ⟨exchange.start, exchange.grows,
    exchange.complaints, ?_, ?_⟩, Or.inr ⟨x, v, rfl, rfl, place.1, place.2, ?_⟩⟩
  · rw [complain, List.append_nil]
  · intro z w
    rw [exchange.inUse]
    simp only [noTile, not_false_eq_true, and_true]
    exact or_congr_right ⟨And.left, fun inUse => ⟨inUse, other z w inUse⟩⟩
  · exact exchange.frame.mono fun z w here => ⟨here.1, other z w here.1⟩
  · intro u inUse
    obtain rfl := placed_unique unit inUse.1 listed
    exact inUse.2 free

/-- `realloc` once the block is found. -/
theorem resizeBlock_spec {x : Nat} (wf : h.Wf backed ts) (serves : Serves sysBrk backed)
    (listed : (x, t) ∈ placed mblockSize h.heapStart ts) (positive : 0 < size) :
    h.resizeBlock sysBrk x (x + mblockSize) size = .error .noReturn ∨
    (∃ os', h.resizeBlock sysBrk x (x + mblockSize) size = .ok (0, { h with os := os' }) ∧
      BreakHeld backed { h with os := os' }) ∨
    (∃ h' y, h.resizeBlock sysBrk x (x + mblockSize) size = .ok (y + mblockSize, h') ∧
      if t.used = 0 then Strayed backed h h' ts (y + mblockSize)
      else Resized backed h h' ts size x t y) := by
  obtain ⟨left, right, rfl, rfl⟩ := mem_placed.mp listed
  have laid := wf.laid
  have high := laid.high
  have place := laid.place
  by_cases inPlace : size ≤ t.size ∨ Roomy size t right
  · right
    right
    obtain ⟨h', answer, resized⟩ := resize_in_place wf positive inPlace
    refine ⟨h', _, answer, ?_⟩
    split
    · rename_i free
      exact resized.strayed placed_here free
    · exact resized
  · rw [not_or] at inPlace
    rw [resizeBlock_move laid inPlace.1 inPlace.2]
    by_cases small : size < 0x80000000
    · rcases malloc_spec wf serves small with
        ⟨stop, -⟩ | ⟨os', answer, held, -, -⟩ | ⟨k, y, answer, taken, -⟩
      · left
        rw [stop]
        rfl
      · right
        left
        refine ⟨os', ?_, held⟩
        rw [answer]
        rfl
      · right
        right
        have nonzero : y + mblockSize ≠ 0 := by
          have := taken.place
          omega
        rw [answer]
        simp only [bind, Except.bind, if_neg nonzero]
        by_cases free : t.used = 0
        · obtain ⟨h', freed, strayed⟩ := move_stray sysBrk placed_here free taken small
          refine ⟨h', y, ?_, ?_⟩
          · exact congrArg (fun r => Except.bind r fun k => .ok (y + mblockSize, k)) freed
          · rw [if_pos free]
            exact strayed
        · obtain ⟨h', freed, resized⟩ := move_spec sysBrk wf ⟨placed_here, free⟩ taken
            (Nat.lt_of_not_le inPlace.1) small
          refine ⟨h', y, ?_, ?_⟩
          · exact congrArg (fun r => Except.bind r fun k => .ok (y + mblockSize, k)) freed
          · rw [if_neg free]
            exact resized
    · right
      left
      refine ⟨h.os, ?_, wf.held⟩
      rw [malloc, if_pos (Nat.le_of_not_lt small)]
      rfl

/-- `realloc` finds no block. -/
theorem realloc_none (laid : h.Laid ts) (given : ptr ≠ 0) (positive : 0 < size)
    (found : findBlock ptr h.walkFuel h.heapStart h = .ok (none, k)) :
    h.realloc sysBrk ptr size = .ok (0, k.maybort (.reallocNotFound ptr)) := by
  unfold realloc
  simp only [if_neg (Nat.ne_of_gt positive), if_neg given, ensureInitialized_eq laid, bind,
    Except.bind, found]
  rfl

/-- `realloc` finds the block. -/
theorem realloc_some {bp : Nat} (laid : h.Laid ts) (given : ptr ≠ 0) (positive : 0 < size)
    (found : findBlock ptr h.walkFuel h.heapStart h = .ok (some bp, k)) :
    h.realloc sysBrk ptr size = k.resizeBlock sysBrk bp ptr size := by
  unfold realloc
  simp only [if_neg (Nat.ne_of_gt positive), if_neg given, ensureInitialized_eq laid, bind,
    Except.bind, found]

/-- A call of `realloc` for a block. -/
theorem realloc_spec (wf : h.Wf backed ts) (serves : Serves sysBrk backed) (given : ptr ≠ 0)
    (positive : 0 < size) :
    h.realloc sysBrk ptr size = .error .noReturn ∨
    (∃ os', h.realloc sysBrk ptr size = .ok (0, { h with os := os' }) ∧
      BreakHeld backed { h with os := os' }) ∨
    (∃ h' x t y, h.realloc sysBrk ptr size = .ok (y + mblockSize, h') ∧ ptr = x + mblockSize ∧
      InUse mblockSize h.heapStart ts x t ∧ Resized backed h h' ts size x t y) ∨
    (∃ h' r, h.realloc sysBrk ptr size = .ok (r, h') ∧ Strayed backed h h' ts r ∧
      ∀ x t, InUse mblockSize h.heapStart ts x t → ptr ≠ x + mblockSize) := by
  have unit : 0 < mblockSize := by decide
  have laid := wf.laid
  rcases @find_placed mblockSize h.heapStart ts (fun x _ => x + mblockSize = ptr) with
    none | ⟨skipped, t, rest, shape, here, -⟩
  · right
    right
    right
    rw [realloc_none laid given positive (findBlock_none laid none)]
    have misuse (c : Complaint) (member : c ∈ [Complaint.reallocNotFound ptr]) : Misuse c := by
      cases List.mem_singleton.mp member
      exact Misuse.reallocNotFound ptr
    have complained := wf.strayed misuse 0
    exact ⟨_, 0, rfl, complained, fun x t inUse same => none x t inUse.1 same.symm⟩
  · subst shape here
    rw [realloc_some laid given positive (findBlock_some laid rfl)]
    rcases resizeBlock_spec wf serves placed_here positive with
      stop | ⟨os', answer, held⟩ | ⟨h', y, answer, outcome⟩
    · exact Or.inl stop
    · exact Or.inr (Or.inl ⟨os', answer, held⟩)
    · by_cases free : t.used = 0
      · rw [if_pos free] at outcome
        refine Or.inr (Or.inr (Or.inr ⟨h', _, answer, outcome, fun x u inUse same => ?_⟩))
        have stands : x = h.heapStart + span mblockSize skipped := (Nat.add_right_cancel same).symm
        subst stands
        obtain rfl := placed_unique unit inUse.1 placed_here
        exact inUse.2 free
      · rw [if_neg free] at outcome
        exact Or.inr (Or.inr (Or.inl ⟨h', _, t, y, answer, rfl, ⟨placed_here, free⟩, outcome⟩))

end Resizing

/-! ### calloc -/

/-- A call of `calloc` takes a block of zeros. -/
theorem calloc_spec {nmemb size : Nat} (wf : h.Wf backed ts) (serves : Serves sysBrk backed) :
    h.calloc sysBrk nmemb size = .error .noReturn ∨
    (∃ os', h.calloc sysBrk nmemb size = .ok (0, { h with os := os' }) ∧
      BreakHeld backed { h with os := os' }) ∨
    (∃ h' y, h.calloc sysBrk nmemb size = .ok (y + mblockSize, h') ∧
      Taken backed h h' ts (needed (uLong (nmemb * size))) y ∧
        uLong (nmemb * size) < 0x80000000 ∧
          ∀ i < uLong (nmemb * size), h'.mem (y + mblockSize + i) = 0) := by
  unfold calloc
  dsimp only
  generalize uLong (nmemb * size) = n
  by_cases small : n < 0x80000000
  · rcases malloc_spec wf serves small with
      ⟨stop, -⟩ | ⟨os', answer, held, -, -⟩ | ⟨k, y, answer, taken, -⟩
    · left
      rw [stop]
      rfl
    · right
      left
      refine ⟨os', ?_, held⟩
      rw [answer]
      rfl
    · right
      right
      have place := taken.place
      have nonzero : y + mblockSize ≠ 0 := by omega
      have enough := (needed_spec small).1
      obtain ⟨-, fresh, ts₁, v, wf₁, length, stays, exchange⟩ := taken
      have zeros : (List.replicate n (0 : Byte)).length = n := List.length_replicate
      have inUse : InUse mblockSize k.heapStart ts₁ y v := by
        rw [exchange.start]
        exact (exchange.inUse y v).mpr (Or.inl ⟨rfl, rfl⟩)
      have room := wf₁.laid.fits v (mem_of_placed inUse.1)
      rw [answer]
      simp only [bind, Except.bind, if_neg nonzero]
      refine ⟨_, y, rfl, ⟨place, fresh, ts₁, v, ?_, length, stays, ?_⟩, small, ?_⟩
      · exact wf₁.store_inside inUse.1 (Nat.le_refl _) (by omega)
      · exact exchange.store wf₁ fresh (by omega)
      · intro i below
        show Bytes.write _ _ _ _ = _
        rw [Bytes.write_inside (by omega)]
        simp [below]
  · right
    left
    refine ⟨h.os, ?_, wf.held⟩
    rw [malloc, if_pos (Nat.le_of_not_lt small)]
    rfl

/-! ### The beginning -/

/-- `brk` rounds to double words. -/
theorem brkUnlocked_round {addr : Nat} (small : addr ≤ 0xffffff00) :
    h.brkUnlocked sysBrk addr = h.brkUnlocked sysBrk ((addr + 7) / 8 * 8) := by
  have once : uLong (addr + 7) / 8 * 8 = (addr + 7) / 8 * 8 := by
    rw [uLong]
    omega
  have twice : uLong ((addr + 7) / 8 * 8 + 7) / 8 * 8 = (addr + 7) / 8 * 8 := by
    rw [uLong]
    omega
  unfold brkUnlocked
  rw [once, twice]

/-- `init_heap` makes a heap of one free block, unless the system refuses the break: then the heap
is empty. -/
theorem initHeap_spec (serves : Serves sysBrk backed) (held : h.BreakHeld backed)
    (low : 0 < h.currentBreak) :
    h.initHeap sysBrk = .error .noReturn ∨
    (∃ h', h.initHeap sysBrk = .ok h' ∧ h'.heapEnd = h'.heapStart) ∨
    (∃ h', h.initHeap sysBrk = .ok h' ∧
      h'.Wf backed [⟨h'.heapEnd - h'.heapStart - mblockSize, 0⟩] ∧
        h'.heapStart = h.currentBreak ∧ h.currentBreak + preStartupHeapsize ≤ h'.heapEnd ∧
          h'.complaints = h.complaints) := by
  have unit : mblockSize = 24 := rfl
  have amount : preStartupHeapsize = 0x8000 := rfl
  have region := held.region
  have sum : uLong (h.currentBreak + preStartupHeapsize) = h.currentBreak + preStartupHeapsize := by
    rw [uLong]
    omega
  have answer := @brkUnlocked_spec σ { h with heapStart := h.currentBreak } sysBrk backed
    ((h.currentBreak + preStartupHeapsize + 7) / 8 * 8) serves ⟨held.region, held.backed⟩ (by omega)
    (by omega) (by simp only; omega)
  rw [← brkUnlocked_round (by omega)] at answer
  have upward : h.currentBreak + preStartupHeapsize ≤
      (h.currentBreak + preStartupHeapsize + 7) / 8 * 8 := by omega
  generalize (h.currentBreak + preStartupHeapsize + 7) / 8 * 8 = e at *
  unfold initHeap
  simp only [sum]
  rcases answer with ⟨stop, -⟩ | ⟨os', answer, -, -⟩ | ⟨os', answer, held', -⟩
  · left
    rw [stop]
    rfl
  · right
    left
    rw [answer]
    exact ⟨_, rfl, rfl⟩
  · right
    right
    have inside : e ≤ 0x200000 := held'.region
    have size : uLongSub (uLongSub e h.currentBreak) mblockSize =
        e - h.currentBreak - mblockSize := by
      simp only [uLongSub, uLong]
      omega
    have ends : h.currentBreak + (mblockSize + (e - h.currentBreak - mblockSize)) = e := by omega
    have header : (tileHeader ⟨e - h.currentBreak - mblockSize, 0⟩ 0 0).Small :=
      tileHeader_small (by simp only; omega) (by simp) (by simp) (by simp)
    rw [answer]
    simp only [bind, Except.bind, pure, Except.pure, size]
    refine ⟨_, rfl, ⟨⟨rfl, low, inside, ?_, List.cons_ne_nil _ _, ?_, ?_⟩,
      List.IsChain.singleton _, rfl, held'.region, held'.backed⟩, rfl, upward, rfl⟩
    · rw [span_cons, span_nil, Nat.add_zero]
      exact ends
    · intro t member
      cases List.mem_singleton.mp member
      exact Nat.zero_le _
    · exact ⟨congrArg some (readBlock_writeBlock_self header), trivial⟩

end Yalnix.UserHeap
