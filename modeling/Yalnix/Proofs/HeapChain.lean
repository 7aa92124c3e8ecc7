/-
Module: Yalnix.Proofs.HeapChain
Purpose: What the headers of the allocator say about the heap: tiles that fill a range of memory,
  each header linked to its neighbours; how headers are read back, and how the chain changes when
  one tile is marked, cut in two, joined with the next one, or added at the end.
Trusted boundary: none
Main exports: headerOf, Linking, Laid, Laid.block_eq, Laid.sanityCheck_eq, Laid.split,
  Laid.absorb, Linking.mark, Linking.extend
-/
import Yalnix.Lib.Linked
import Yalnix.Lib.Tiling
import Yalnix.Malloc

namespace Yalnix

open Tiling Linked

/-! ### Headers in memory -/

/-- Every field holds a `u_long`. -/
structure MBlock.Small (b : MBlock) : Prop where
  magic1 : b.magic1 < 0x100000000
  size : b.size < 0x100000000
  sizeUsed : b.sizeUsed < 0x100000000
  next : b.next < 0x100000000
  previous : b.previous < 0x100000000
  magic2 : b.magic2 < 0x100000000

section Headers

variable {mem mem' : Nat → Byte} {x y : Nat} {b : MBlock}

theorem readBlock_writeBlock_self (small : b.Small) : readBlock (writeBlock mem x b) x = b := by
  have distinct (i j : Nat) (apart : i + 4 ≤ j ∨ j + 4 ≤ i) :
      x + i + 4 ≤ x + j ∨ x + j + 4 ≤ x + i := by omega
  have first (j : Nat) (apart : 4 ≤ j) : x + 4 ≤ x + j ∨ x + j + 4 ≤ x := by omega
  cases b with
  | mk magic1 size sizeUsed next previous magic2 =>
      obtain ⟨low1, low2, low3, low4, low5, low6⟩ := small
      simp only at low1 low2 low3 low4 low5 low6
      simp (disch := omega) only [readBlock, writeBlock, Bytes.long_writeLong_self,
        Bytes.long_writeLong_apart, Nat.mod_eq_of_lt]

theorem readBlock_writeBlock_apart (apart : y + mblockSize ≤ x ∨ x + mblockSize ≤ y) :
    readBlock (writeBlock mem x b) y = readBlock mem y := by
  have unit : mblockSize = 24 := rfl
  simp (disch := omega) only [readBlock, writeBlock, Bytes.long_writeLong_apart]

theorem writeBlock_outside (outside : y < x ∨ x + mblockSize ≤ y) :
    writeBlock mem x b y = mem y := by
  have unit : mblockSize = 24 := rfl
  simp (disch := omega) only [writeBlock, Bytes.writeLong_outside]

theorem readBlock_congr (same : ∀ y, x ≤ y → y < x + mblockSize → mem' y = mem y) :
    readBlock mem' x = readBlock mem x := by
  have unit : mblockSize = 24 := rfl
  have longs (i : Nat) (inside : i + 4 ≤ 24) : Bytes.long mem' (x + i) = Bytes.long mem (x + i) :=
    Bytes.long_congr fun y low high => same y (by omega) (by omega)
  simp (disch := omega) only [readBlock, longs]
  rw [Bytes.long_congr fun y low high => same y low (by omega)]

end Headers

/-! ### The chain -/

/-- The header of a tile, given the addresses of its neighbours. -/
def tileHeader (t : Tile) (next previous : Nat) : MBlock where
  magic1 := magic
  size := t.size
  sizeUsed := t.used
  next := next
  previous := previous
  magic2 := magic

theorem tileHeader_small {t : Tile} {next previous : Nat} (size : t.size < 0x100000000)
    (used : t.used < 0x100000000) (nextSmall : next < 0x100000000)
    (previousSmall : previous < 0x100000000) : (tileHeader t next previous).Small :=
  have number : magic < 0x100000000 := by decide
  ⟨number, size, used, nextSmall, previousSmall, number⟩

/-- The same, as the cell of a doubly linked list. -/
def headerOf (t : Tile) (next previous : Option Nat) : MBlock :=
  tileHeader t (next.getD 0) (previous.getD 0)

/-- The headers of memory, as cells. -/
def headers (mem : Nat → Byte) : Nat → Option MBlock := fun x => some (readBlock mem x)

/-- The tiles stand one after the other from address `a` on, linked both ways. -/
def Linking (mem : Nat → Byte) (a : Nat) (ts : List Tile) : Prop :=
  Segment headerOf (headers mem) none (placed mblockSize a ts) none

/-- The address of the first tile, or `NULL` when there is none. -/
def firstBlock (a : Nat) (ts : List Tile) : Nat := (first none (placed mblockSize a ts)).getD 0

@[simp] theorem firstBlock_nil {a : Nat} : firstBlock a [] = 0 := rfl
@[simp] theorem firstBlock_cons {a : Nat} {t : Tile} {ts : List Tile} :
    firstBlock a (t :: ts) = a := rfl

/-- The address of the last tile, or `NULL` when there is none. -/
def lastBlock (a : Nat) (ts : List Tile) : Nat := (last none (placed mblockSize a ts)).getD 0

@[simp] theorem lastBlock_nil {a : Nat} : lastBlock a [] = 0 := rfl

theorem last_placed_snoc {a : Nat} {before : Option Nat} {ts : List Tile} {t : Tile} :
    last before (placed mblockSize a (ts ++ [t])) = some (a + span mblockSize ts) := by
  rw [placed_append, last_append]
  rfl

@[simp] theorem lastBlock_snoc {a : Nat} {ts : List Tile} {t : Tile} :
    lastBlock a (ts ++ [t]) = a + span mblockSize ts := by
  rw [lastBlock, last_placed_snoc, Option.getD_some]

/-- The last tile stands before the end of the range. -/
theorem lastBlock_le {a : Nat} {ts : List Tile} : lastBlock a ts ≤ a + span mblockSize ts := by
  rcases List.eq_nil_or_concat' ts with rfl | ⟨rest, t, rfl⟩
  · exact Nat.zero_le _
  · rw [lastBlock_snoc, span_append]
    omega

theorem firstBlock_le {a : Nat} {ts : List Tile} : firstBlock a ts ≤ a := by
  cases ts with
  | nil => exact Nat.zero_le _
  | cons t rest => exact Nat.le_refl _

theorem span_snoc {ts : List Tile} {t : Tile} :
    span mblockSize (ts ++ [t]) = span mblockSize ts + (mblockSize + t.size) := by simp

namespace Linking

variable {mem mem' : Nat → Byte} {a : Nat} {t u v w : Tile} {left right ts : List Tile}

theorem readBlock_eq (linking : Linking mem a (left ++ t :: right)) :
    readBlock mem (a + span mblockSize left) =
      tileHeader t (firstBlock (a + span mblockSize (left ++ [t])) right) (lastBlock a left) := by
  rw [Linking, placed_append] at linking
  rw [span_snoc, ← Nat.add_assoc]
  exact Option.some.inj linking.cell_eq

/-- The chain depends on the headers of its tiles alone. -/
theorem congr (linking : Linking mem a ts)
    (agree : ∀ x t, (x, t) ∈ placed mblockSize a ts → readBlock mem' x = readBlock mem x) :
    Linking mem' a ts := by
  refine Segment.congr linking fun x listed => ?_
  obtain ⟨⟨y, t⟩, member, rfl⟩ := List.mem_map.mp listed
  exact congrArg some (agree y t member)

/-- The middle of the chain is exchanged.  The header behind it has its new predecessor, and the
other headers stay. -/
theorem exchange (middle middle' : List Tile) (linking : Linking mem a (left ++ (middle ++ right)))
    (some : middle ≠ []) (some' : middle' ≠ [])
    (spans : right = [] ∨ span mblockSize middle' = span mblockSize middle)
    (inside : Segment headerOf (headers mem') (last none (placed mblockSize a left))
      (placed mblockSize (a + span mblockSize left) middle')
      (first none (placed mblockSize (a + span mblockSize (left ++ middle)) right)))
    (behind : ∀ n rest, right = n :: rest →
      readBlock mem' (a + span mblockSize (left ++ middle)) =
        tileHeader n (firstBlock (a + span mblockSize (left ++ (middle ++ [n]))) rest)
          (lastBlock (a + span mblockSize left) middle'))
    (elsewhere : ∀ y, y + mblockSize ≤ a + span mblockSize left ∨
      right ≠ [] ∧ a + span mblockSize (left ++ middle) + mblockSize ≤ y →
        readBlock mem' y = readBlock mem y) :
    Linking mem' a (left ++ (middle' ++ right)) := by
  have lastMiddle (before : Option Nat) {ys : List Tile} (nonempty : ys ≠ []) (b : Nat) :
      last before (placed mblockSize b ys) = Option.some (lastBlock b ys) := by
    rcases List.eq_nil_or_concat' ys with rfl | ⟨rest, t, rfl⟩
    · exact absurd rfl nonempty
    · rw [last_placed_snoc, lastBlock_snoc]
  have places : placed mblockSize (a + span mblockSize left + span mblockSize middle') right =
      placed mblockSize (a + span mblockSize (left ++ middle)) right := by
    rcases spans with rfl | same
    · rfl
    · rw [same, span_append, Nat.add_assoc]
  rw [Linking, placed_append, placed_append] at linking ⊢
  rw [places]
  rw [Nat.add_assoc, ← span_append] at linking
  refine Segment.exchange linking ?_ ?_ inside ?_
  · cases middle' with
    | nil => exact absurd rfl some'
    | cons t' rest' =>
        cases middle with
        | nil => exact absurd rfl some
        | cons t rest => rfl
  · intro x listed
    obtain ⟨⟨y, t⟩, member, rfl⟩ := List.mem_map.mp listed
    have before := placed_inside member
    exact congrArg Option.some (elsewhere y (Or.inl (by omega)))
  · rw [lastMiddle _ some']
    have follows := (segment_append.mp (segment_append.mp linking).2).2
    apply follows.follow
    · intro x n rest shape
      cases right with
      | nil => cases shape
      | cons w others =>
          rw [placed_cons] at shape
          obtain ⟨entry, rfl⟩ := List.cons.inj shape
          cases entry
          rw [headers, behind n others rfl, headerOf, Option.getD_some, ← List.append_assoc,
            span_snoc, ← Nat.add_assoc]
          rfl
    · intro x listed
      cases right with
      | nil => cases listed
      | cons w others =>
          rw [placed_cons, List.tail_cons] at listed
          obtain ⟨⟨y, t⟩, member, rfl⟩ := List.mem_map.mp listed
          have after := placed_inside member
          exact congrArg Option.some (elsewhere y (Or.inr ⟨List.cons_ne_nil _ _, by omega⟩))

/-- One tile takes the place of others. -/
theorem one (middle : List Tile) (linking : Linking mem a (left ++ (middle ++ right)))
    (some : middle ≠ []) (spans : mblockSize + v.size = span mblockSize middle)
    (here : readBlock mem' (a + span mblockSize left) =
      tileHeader v (firstBlock (a + span mblockSize (left ++ middle)) right) (lastBlock a left))
    (behind : ∀ n rest, right = n :: rest →
      readBlock mem' (a + span mblockSize (left ++ middle)) =
        tileHeader n (firstBlock (a + span mblockSize (left ++ (middle ++ [n]))) rest)
          (a + span mblockSize left))
    (elsewhere : ∀ y, y + mblockSize ≤ a + span mblockSize left ∨
      right ≠ [] ∧ a + span mblockSize (left ++ middle) + mblockSize ≤ y →
        readBlock mem' y = readBlock mem y) :
    Linking mem' a (left ++ v :: right) := by
  apply exchange middle [v] linking some (List.cons_ne_nil _ _) _ _ behind elsewhere
  · right
    simpa using spans
  · exact ⟨congrArg Option.some here, segment_nil⟩

/-- Two tiles take the place of one. -/
theorem two (linking : Linking mem a (left ++ t :: right))
    (spans : right = [] ∨ span mblockSize [v, w] = mblockSize + t.size)
    (here : readBlock mem' (a + span mblockSize left) =
      tileHeader v (a + span mblockSize (left ++ [v])) (lastBlock a left))
    (fresh : readBlock mem' (a + span mblockSize (left ++ [v])) =
      tileHeader w (firstBlock (a + span mblockSize (left ++ [t])) right)
        (a + span mblockSize left))
    (behind : ∀ n rest, right = n :: rest →
      readBlock mem' (a + span mblockSize (left ++ [t])) =
        tileHeader n (firstBlock (a + span mblockSize (left ++ [t, n])) rest)
          (a + span mblockSize (left ++ [v])))
    (elsewhere : ∀ y, y + mblockSize ≤ a + span mblockSize left ∨
      right ≠ [] ∧ a + span mblockSize (left ++ [t]) + mblockSize ≤ y →
        readBlock mem' y = readBlock mem y) :
    Linking mem' a (left ++ v :: w :: right) := by
  rw [span_snoc (t := v), ← Nat.add_assoc] at here fresh behind
  apply exchange [t] [v, w] linking (List.cons_ne_nil _ _) (List.cons_ne_nil _ _) _ _ _ elsewhere
  · rcases spans with none | same
    · exact Or.inl none
    · right
      rw [same]
      simp
  · exact ⟨congrArg Option.some here, congrArg Option.some fresh, segment_nil⟩
  · exact behind

end Linking

/-! ### The heap -/

namespace UserHeap

variable {σ : Type} {h : UserHeap σ} {t u n : Tile} {left right ts : List Tile}

/-- What `sanity_check` looks for in the block at `bp`. -/
structure Sound (h : UserHeap σ) (bp : Nat) (b : MBlock) : Prop where
  nonzero : bp ≠ 0
  proper : h.heapStart ≠ h.heapEnd
  inside : h.heapStart ≤ bp ∧ bp < h.heapEnd
  numbers : b.magic1 = magic ∧ b.magic2 = magic
  fits : b.sizeUsed ≤ b.size
  adjacent : b.next = 0 ∨ blockEnd bp b = b.next

/-- A check that finds nothing changes nothing. -/
theorem Sound.sanityCheck_eq {bp : Nat} (sound : h.Sound bp (h.block bp)) :
    h.sanityCheck bp = h := by
  have within : ¬ (bp < h.heapStart ∨ h.heapEnd ≤ bp) := by
    have inside := sound.inside
    omega
  have numbered : ¬ ((h.block bp).magic1 ≠ magic ∨ (h.block bp).magic2 ≠ magic) := by
    simp [sound.numbers.1, sound.numbers.2]
  have touching : ¬ ((h.block bp).next ≠ 0 ∧ blockEnd bp (h.block bp) ≠ (h.block bp).next) := by
    rcases sound.adjacent with last | touches
    · simp [last]
    · simp [touches]
  unfold sanityCheck
  rw [if_neg sound.nonzero, if_neg sound.proper]
  simp only [if_neg within, if_neg numbered, if_neg (Nat.not_lt.mpr sound.fits), if_neg touching]

/-- The tiles fill the heap, which ends no higher than region 1. -/
structure Laid (h : UserHeap σ) (ts : List Tile) : Prop where
  initialized : h.notInitialized = false
  low : 0 < h.heapStart
  high : h.heapEnd ≤ 0x200000
  ends : h.heapStart + span mblockSize ts = h.heapEnd
  some : ts ≠ []
  fits : Fits ts
  linking : Linking h.mem h.heapStart ts

section Modify

variable {x y : Nat} {f : MBlock → MBlock}

theorem block_modifyBlock_self (small : (f (h.block x)).Small) :
    (h.modifyBlock x f).block x = f (h.block x) := readBlock_writeBlock_self small

theorem block_modifyBlock_apart (apart : y + mblockSize ≤ x ∨ x + mblockSize ≤ y) :
    (h.modifyBlock x f).block y = h.block y := readBlock_writeBlock_apart apart

/-- `previous = p` in a header of the chain. -/
theorem block_relink {next old p : Nat} (before : h.block x = tileHeader n next old)
    (size : n.size < 0x100000000) (used : n.used ≤ n.size) (nextSmall : next < 0x100000000)
    (small : p < 0x100000000) :
    (h.modifyBlock x fun b => { b with previous := p }).block x = tileHeader n next p := by
  rw [block_modifyBlock_self, before]
  · rfl
  · rw [before]
    show (tileHeader n next p).Small
    exact tileHeader_small size (Nat.lt_of_le_of_lt used size) nextSmall small

theorem mem_modifyBlock_outside (outside : y < x ∨ x + mblockSize ≤ y) :
    (h.modifyBlock x f).mem y = h.mem y := writeBlock_outside outside

end Modify

/-- The heaps differ in memory alone. -/
def OnlyMemory (h h' : UserHeap σ) : Prop := h' = { h with mem := h'.mem }

theorem OnlyMemory.refl (h : UserHeap σ) : OnlyMemory h h := rfl

theorem OnlyMemory.trans {h' h'' : UserHeap σ} (first : OnlyMemory h h')
    (second : OnlyMemory h' h'') : OnlyMemory h h'' := by
  rw [OnlyMemory] at first second ⊢
  rw [second, first]

theorem OnlyMemory.modifyBlock {h' : UserHeap σ} (first : OnlyMemory h h') (x : Nat)
    (f : MBlock → MBlock) : OnlyMemory h (h'.modifyBlock x f) :=
  first.trans rfl

namespace Laid

/-- The place of a tile between the bounds of the heap. -/
theorem place (laid : h.Laid (left ++ t :: right)) :
    h.heapStart + span mblockSize left + mblockSize + t.size + span mblockSize right =
      h.heapEnd := by
  have ends := laid.ends
  simp only [span_append, span_cons] at ends
  omega

theorem used_le (laid : h.Laid (left ++ t :: right)) : t.used ≤ t.size :=
  laid.fits t (by simp)

theorem size_lt (laid : h.Laid (left ++ t :: right)) : t.size < 0x100000000 := by
  have place := laid.place
  have high := laid.high
  omega

theorem firstBlock_lt (laid : h.Laid (left ++ t :: right)) :
    firstBlock (h.heapStart + span mblockSize (left ++ [t])) right < 0x100000000 := by
  have place := laid.place
  have high := laid.high
  have bound : firstBlock (h.heapStart + span mblockSize (left ++ [t])) right ≤
      h.heapStart + span mblockSize (left ++ [t]) := firstBlock_le
  have wide : span mblockSize (left ++ [t]) = span mblockSize left + (mblockSize + t.size) :=
    span_snoc
  omega

theorem lastBlock_lt (laid : h.Laid (left ++ t :: right)) :
    lastBlock h.heapStart left < 0x100000000 := by
  have place := laid.place
  have high := laid.high
  have bound : lastBlock h.heapStart left ≤ h.heapStart + span mblockSize left := lastBlock_le
  omega

theorem block_eq (laid : h.Laid (left ++ t :: right)) :
    h.block (h.heapStart + span mblockSize left) =
      tileHeader t (firstBlock (h.heapStart + span mblockSize (left ++ [t])) right)
        (lastBlock h.heapStart left) := laid.linking.readBlock_eq

/-- The chain cut behind a tile. -/
theorem behind (laid : h.Laid (left ++ t :: right)) : h.Laid ((left ++ [t]) ++ right) := by
  rw [List.append_assoc]
  exact laid

/-- The header behind a tile. -/
theorem block_behind (laid : h.Laid (left ++ t :: n :: right)) :
    h.block (h.heapStart + span mblockSize (left ++ [t])) =
      tileHeader n (firstBlock (h.heapStart + span mblockSize (left ++ [t, n])) right)
        (h.heapStart + span mblockSize left) := by
  have found := laid.behind.block_eq
  rw [lastBlock_snoc, List.append_assoc] at found
  exact found

/-- A block of the chain is sound. -/
theorem sound (laid : h.Laid (left ++ t :: right)) :
    h.Sound (h.heapStart + span mblockSize left)
      (h.block (h.heapStart + span mblockSize left)) := by
  have unit : mblockSize = 24 := rfl
  have place := laid.place
  have low := laid.low
  have high := laid.high
  rw [laid.block_eq]
  refine ⟨by omega, by omega, by omega, ⟨rfl, rfl⟩, laid.used_le, ?_⟩
  cases right with
  | nil => exact Or.inl rfl
  | cons n rest =>
      right
      rw [span_snoc]
      simp only [blockEnd, blockStart, uLong, tileHeader, firstBlock_cons]
      omega

theorem sanityCheck_eq (laid : h.Laid (left ++ t :: right)) :
    h.sanityCheck (h.heapStart + span mblockSize left) = h := laid.sound.sanityCheck_eq

/-- The same heap with other tiles, once the chain is known to link them. -/
theorem relaid {ts' : List Tile} {h' : UserHeap σ} (laid : h.Laid ts)
    (same : OnlyMemory h h') (spans : span mblockSize ts' = span mblockSize ts)
    (some : ts' ≠ []) (fits : Fits ts') (linking : Linking h'.mem h.heapStart ts') :
    h'.Laid ts' := by
  have same : h' = { h with mem := h'.mem } := same
  rw [same]
  refine ⟨laid.initialized, laid.low, laid.high, ?_, some, fits, linking⟩
  rw [spans]
  exact laid.ends

/-- Another tile of the same extent in a place. -/
theorem fits_replace (ts : List Tile) (laid : h.Laid (left ++ (ts ++ right)))
    (fits : u.used ≤ u.size) :
    Fits (left ++ u :: right) := by
  intro v member
  rcases List.mem_append.mp member with member | member
  · exact laid.fits v (List.mem_append_left _ member)
  · rcases List.mem_cons.mp member with rfl | member
    · exact fits
    · exact laid.fits v (List.mem_append_right _ (List.mem_append_right _ member))

/-- Another use of a tile, as its header records it. -/
theorem mark {used : Nat} (laid : h.Laid (left ++ t :: right)) (fits : used ≤ t.size) :
    (h.modifyBlock (h.heapStart + span mblockSize left)
      fun b => { b with sizeUsed := used }).Laid (left ++ ⟨t.size, used⟩ :: right) := by
  have here : (h.modifyBlock (h.heapStart + span mblockSize left)
      fun b => { b with sizeUsed := used }).block (h.heapStart + span mblockSize left) =
        tileHeader ⟨t.size, used⟩
          (firstBlock (h.heapStart + span mblockSize (left ++ [t])) right)
          (lastBlock h.heapStart left) := by
    rw [block_modifyBlock_self, laid.block_eq]
    · rfl
    · rw [laid.block_eq]
      show (tileHeader ⟨t.size, used⟩ _ _).Small
      exact tileHeader_small laid.size_lt (Nat.lt_of_le_of_lt fits laid.size_lt)
        laid.firstBlock_lt laid.lastBlock_lt
  apply laid.relaid ((OnlyMemory.refl h).modifyBlock _ _)
  · simp only [span_append, span_cons]
  · simp
  · exact fits_replace [t] laid fits
  · apply Linking.one [t] laid.linking (List.cons_ne_nil _ _) (by simp) here
    · rintro n rest rfl
      apply (block_modifyBlock_apart _).trans laid.block_behind
      right
      rw [span_snoc]
      omega
    · rintro y (before | ⟨-, after⟩)
      · exact block_modifyBlock_apart (Or.inl before)
      · rw [span_snoc] at after
        exact block_modifyBlock_apart (Or.inr (by omega))

/-! ### Cutting a block -/

/-- The headers that cutting the block at `x` writes: that of the remainder, and its own. -/
def cutBlock (h : UserHeap σ) (x len : Nat) (remainder : Tile) (next : Nat) : UserHeap σ :=
  (h.modifyBlock (x + mblockSize + len) fun _ => tileHeader remainder next x).modifyBlock x fun b =>
    { b with size := len, next := x + mblockSize + len }

/-- What `split_free_block` does with a large free block. -/
theorem splitFreeBlock_eq {len : Nat} (laid : h.Laid (left ++ t :: right)) (free : t.used = 0)
    (round : wordRound len = len) (room : len + minBlock ≤ t.size) :
    let x := h.heapStart + span mblockSize left
    let next := firstBlock (h.heapStart + span mblockSize (left ++ [t])) right
    let cut := cutBlock h x len ⟨t.size - len - mblockSize, 0⟩ next
    h.splitFreeBlock x len =
      if next ≠ 0 then
        cut.modifyBlock next fun n => { n with previous := x + mblockSize + len }
      else cut := by
  have unit : mblockSize = 24 := rfl
  have least : minBlock = 48 := rfl
  have place := laid.place
  have high := laid.high
  have second : uLong (h.heapStart + span mblockSize left + mblockSize + len) =
      h.heapStart + span mblockSize left + mblockSize + len := by
    rw [uLong]
    omega
  have remainder : uLongSub (uLongSub t.size len) mblockSize = t.size - len - mblockSize := by
    simp only [uLongSub, uLong]
    omega
  have used : ¬ t.used ≠ 0 := not_not.mpr free
  have small : ¬ t.size < len := by omega
  have large : ¬ t.size < uLong (len + minBlock) := by
    rw [uLong]
    omega
  intro x next cut
  unfold splitFreeBlock
  simp only [round, laid.sanityCheck_eq, x]
  rw [laid.block_eq]
  simp only [tileHeader, if_neg used, if_neg small, if_neg large, second, remainder]
  rfl

section Cut

variable {len : Nat}

theorem cutBlock_fresh (laid : h.Laid (left ++ t :: right)) :
    (cutBlock h (h.heapStart + span mblockSize left) len ⟨t.size - len - mblockSize, 0⟩
      (firstBlock (h.heapStart + span mblockSize (left ++ [t])) right)).block
        (h.heapStart + span mblockSize left + mblockSize + len) =
      tileHeader ⟨t.size - len - mblockSize, 0⟩
        (firstBlock (h.heapStart + span mblockSize (left ++ [t])) right)
        (h.heapStart + span mblockSize left) := by
  have place := laid.place
  have high := laid.high
  have size := laid.size_lt
  have rest : t.size - len - mblockSize < 0x100000000 := by omega
  rw [cutBlock, block_modifyBlock_apart (by omega), block_modifyBlock_self]
  exact tileHeader_small rest (by simp) laid.firstBlock_lt (by omega)

theorem cutBlock_here (laid : h.Laid (left ++ t :: right)) (free : t.used = 0)
    (room : len + minBlock ≤ t.size) :
    (cutBlock h (h.heapStart + span mblockSize left) len ⟨t.size - len - mblockSize, 0⟩
      (firstBlock (h.heapStart + span mblockSize (left ++ [t])) right)).block
        (h.heapStart + span mblockSize left) =
      tileHeader ⟨len, 0⟩ (h.heapStart + span mblockSize left + mblockSize + len)
        (lastBlock h.heapStart left) := by
  have place := laid.place
  have high := laid.high
  have size := laid.size_lt
  have long : len < 0x100000000 := by omega
  have before : (h.modifyBlock (h.heapStart + span mblockSize left + mblockSize + len) fun _ =>
      tileHeader ⟨t.size - len - mblockSize, 0⟩
        (firstBlock (h.heapStart + span mblockSize (left ++ [t])) right)
        (h.heapStart + span mblockSize left)).block (h.heapStart + span mblockSize left) =
      tileHeader t (firstBlock (h.heapStart + span mblockSize (left ++ [t])) right)
        (lastBlock h.heapStart left) := by
    rw [block_modifyBlock_apart (by omega), laid.block_eq]
  rw [cutBlock, block_modifyBlock_self, before, tileHeader, free]
  · rfl
  · rw [before, tileHeader, free]
    show (tileHeader ⟨len, 0⟩ _ _).Small
    exact tileHeader_small long (by simp) (by omega) laid.lastBlock_lt

theorem cutBlock_elsewhere {y next : Nat} {remainder : Tile} (room : len + minBlock ≤ t.size)
    (apart : y + mblockSize ≤ h.heapStart + span mblockSize left ∨
      h.heapStart + span mblockSize (left ++ [t]) ≤ y) :
    (cutBlock h (h.heapStart + span mblockSize left) len remainder next).block y = h.block y := by
  have unit : mblockSize = 24 := rfl
  have least : minBlock = 48 := rfl
  rw [span_snoc] at apart
  rw [cutBlock, block_modifyBlock_apart (by omega), block_modifyBlock_apart (by omega)]

end Cut

/-- A large free block is cut in two. -/
theorem split {len : Nat} (laid : h.Laid (left ++ t :: right)) (free : t.used = 0)
    (round : wordRound len = len) (room : len + minBlock ≤ t.size) :
    OnlyMemory h (h.splitFreeBlock (h.heapStart + span mblockSize left) len) ∧
      (h.splitFreeBlock (h.heapStart + span mblockSize left) len).Laid
        (left ++ ⟨len, 0⟩ :: ⟨t.size - len - mblockSize, 0⟩ :: right) := by
  have unit : mblockSize = 24 := rfl
  have least : minBlock = 48 := rfl
  have here := laid.cutBlock_here free room
  have fresh := @cutBlock_fresh σ h t left right len laid
  have shape := laid.splitFreeBlock_eq free round room
  simp only at shape
  have spans : span mblockSize [(⟨len, 0⟩ : Tile), ⟨t.size - len - mblockSize, 0⟩] =
      mblockSize + t.size := by
    simp only [span_cons, span_nil]
    omega
  have total : span mblockSize (left ++ ⟨len, 0⟩ :: ⟨t.size - len - mblockSize, 0⟩ :: right) =
      span mblockSize (left ++ t :: right) := by
    simp only [span_append, span_cons, span_nil] at spans ⊢
    omega
  have fits : Fits (left ++ ⟨len, 0⟩ :: ⟨t.size - len - mblockSize, 0⟩ :: right) := by
    intro v member
    rcases List.mem_append.mp member with member | member
    · exact laid.fits v (List.mem_append_left _ member)
    · rcases List.mem_cons.mp member with rfl | member
      · exact Nat.zero_le _
      · rcases List.mem_cons.mp member with rfl | member
        · exact Nat.zero_le _
        · exact laid.fits v (List.mem_append_right _ (List.mem_cons_of_mem _ member))
  have cutPlace : h.heapStart + span mblockSize (left ++ [(⟨len, 0⟩ : Tile)]) =
      h.heapStart + span mblockSize left + mblockSize + len := by
    simp only [span_append, span_cons, span_nil]
    omega
  rw [shape]
  cases right with
  | nil =>
      rw [firstBlock_nil, if_neg (not_not.mpr rfl)]
      refine ⟨rfl, laid.relaid rfl total (by simp) fits ?_⟩
      apply laid.linking.two (Or.inr spans)
      · rw [cutPlace]
        exact here
      · rw [cutPlace]
        exact fresh
      · intro n rest none
        cases none
      · rintro y (before | ⟨some, -⟩)
        · exact cutBlock_elsewhere room (Or.inl before)
        · exact absurd rfl some
  | cons n rest =>
      have small := laid.behind.firstBlock_lt
      rw [List.append_assoc] at small
      have lastPlace := laid.behind.place
      have high := laid.high
      have wide : span mblockSize (left ++ [t]) = span mblockSize left + (mblockSize + t.size) :=
        span_snoc
      have nonzero : h.heapStart + span mblockSize (left ++ [t]) ≠ 0 := by omega
      rw [firstBlock_cons] at here fresh ⊢
      rw [if_pos nonzero]
      have same : OnlyMemory h (cutBlock h (h.heapStart + span mblockSize left) len
          ⟨t.size - len - mblockSize, 0⟩ (h.heapStart + span mblockSize (left ++ [t]))) := rfl
      have elsewhere (y : Nat) (apart : y + mblockSize ≤ h.heapStart + span mblockSize left ∨
          h.heapStart + span mblockSize (left ++ [t]) ≤ y) :
          (cutBlock h (h.heapStart + span mblockSize left) len ⟨t.size - len - mblockSize, 0⟩
            (h.heapStart + span mblockSize (left ++ [t]))).block y = h.block y :=
        cutBlock_elsewhere room apart
      generalize cutBlock h (h.heapStart + span mblockSize left) len
        ⟨t.size - len - mblockSize, 0⟩ (h.heapStart + span mblockSize (left ++ [t])) = c at *
      have old := (elsewhere _ (Or.inr (Nat.le_refl _))).trans laid.block_behind
      have relinked := block_relink (p := h.heapStart + span mblockSize left + mblockSize + len) old
        laid.behind.size_lt laid.behind.used_le small (by omega)
      have away (y : Nat) (apart : y + mblockSize ≤ h.heapStart + span mblockSize (left ++ [t]) ∨
          h.heapStart + span mblockSize (left ++ [t]) + mblockSize ≤ y) :
          (c.modifyBlock (h.heapStart + span mblockSize (left ++ [t])) fun b =>
            { b with previous := h.heapStart + span mblockSize left + mblockSize + len }).block y =
              c.block y := block_modifyBlock_apart apart
      refine ⟨same.modifyBlock _ _, laid.relaid (same.modifyBlock _ _) total (by simp) fits ?_⟩
      apply laid.linking.two (Or.inr spans)
      · rw [cutPlace]
        exact (away _ (by omega)).trans here
      · rw [cutPlace]
        exact (away _ (by omega)).trans fresh
      · intro m others shape
        obtain ⟨rfl, rfl⟩ := List.cons.inj shape
        rw [cutPlace]
        exact relinked
      · rintro y (before | ⟨-, after⟩)
        · exact (away y (by omega)).trans (elsewhere y (by omega))
        · exact (away y (by omega)).trans (elsewhere y (by omega))

/-! ### Joining two blocks -/

/-- A block takes over the next one: its header is `v`'s, and the header behind the two is linked
to it. -/
def absorbBlock (h : UserHeap σ) (x next : Nat) (f : MBlock → MBlock) : UserHeap σ :=
  if next ≠ 0 then (h.modifyBlock x f).modifyBlock next fun b => { b with previous := x }
  else h.modifyBlock x f

theorem absorb {v : Tile} {f : MBlock → MBlock} (laid : h.Laid (left ++ t :: n :: right))
    (size : v.size = t.size + n.size + mblockSize) (fits : v.used ≤ v.size)
    (header : f (h.block (h.heapStart + span mblockSize left)) =
      tileHeader v (firstBlock (h.heapStart + span mblockSize (left ++ [t, n])) right)
        (lastBlock h.heapStart left)) :
    OnlyMemory h (absorbBlock h (h.heapStart + span mblockSize left)
      (firstBlock (h.heapStart + span mblockSize (left ++ [t, n])) right) f) ∧
    (absorbBlock h (h.heapStart + span mblockSize left)
      (firstBlock (h.heapStart + span mblockSize (left ++ [t, n])) right) f).Laid
        (left ++ v :: right) := by
  have unit : mblockSize = 24 := rfl
  have place := laid.place
  have high := laid.high
  have both : h.Laid (left ++ ([t, n] ++ right)) := laid
  have wide : span mblockSize (left ++ [t, n]) =
      span mblockSize left + (mblockSize + t.size) + (mblockSize + n.size) := by
    simp only [span_append, span_cons, span_nil]
    omega
  have later : span mblockSize (n :: right) = mblockSize + n.size + span mblockSize right :=
    span_cons
  have small := laid.behind.firstBlock_lt
  rw [List.append_assoc] at small
  have here : (h.modifyBlock (h.heapStart + span mblockSize left) f).block
      (h.heapStart + span mblockSize left) =
        tileHeader v (firstBlock (h.heapStart + span mblockSize (left ++ [t, n])) right)
          (lastBlock h.heapStart left) := by
    rw [block_modifyBlock_self, header]
    rw [header]
    exact tileHeader_small (by omega) (by omega) small laid.lastBlock_lt
  have elsewhere (y : Nat) (apart : y + mblockSize ≤ h.heapStart + span mblockSize left ∨
      h.heapStart + span mblockSize left + mblockSize ≤ y) :
      (h.modifyBlock (h.heapStart + span mblockSize left) f).block y = h.block y :=
    block_modifyBlock_apart apart
  have same : OnlyMemory h (h.modifyBlock (h.heapStart + span mblockSize left) f) := rfl
  have total : span mblockSize (left ++ v :: right) =
      span mblockSize (left ++ t :: n :: right) := by
    simp only [span_append, span_cons]
    omega
  have spans : mblockSize + v.size = span mblockSize [t, n] := by
    simp only [span_cons, span_nil]
    omega
  unfold absorbBlock
  generalize h.modifyBlock (h.heapStart + span mblockSize left) f = c at *
  cases right with
  | nil =>
      rw [firstBlock_nil, if_neg (not_not.mpr rfl)]
      refine ⟨same, laid.relaid same total (by simp) (both.fits_replace [t, n] fits) ?_⟩
      apply both.linking.one [t, n] (List.cons_ne_nil _ _) spans here
      · intro m rest none
        cases none
      · rintro y (before | ⟨some, -⟩)
        · exact elsewhere y (by omega)
        · exact absurd rfl some
  | cons m rest =>
      have third : h.Laid ((left ++ [t, n]) ++ m :: rest) := by
        rw [List.append_assoc]
        exact laid
      have thirdPlace := third.place
      have thirdSmall := third.firstBlock_lt
      rw [List.append_assoc] at thirdSmall
      have nonzero : h.heapStart + span mblockSize (left ++ [t, n]) ≠ 0 := by omega
      rw [firstBlock_cons] at here ⊢
      rw [if_pos nonzero]
      have old := third.block_eq
      rw [← elsewhere _ (by omega), List.append_assoc] at old
      have relinked := block_relink (p := h.heapStart + span mblockSize left) old third.size_lt
        third.used_le thirdSmall (by omega)
      have away (y : Nat) (apart : y + mblockSize ≤ h.heapStart + span mblockSize (left ++ [t, n]) ∨
          h.heapStart + span mblockSize (left ++ [t, n]) + mblockSize ≤ y) :
          (c.modifyBlock (h.heapStart + span mblockSize (left ++ [t, n])) fun b =>
            { b with previous := h.heapStart + span mblockSize left }).block y = c.block y :=
        block_modifyBlock_apart apart
      refine ⟨same.modifyBlock _ _, laid.relaid (same.modifyBlock _ _) total (by simp)
        (both.fits_replace [t, n] fits) ?_⟩
      apply both.linking.one [t, n] (List.cons_ne_nil _ _) spans
      · exact (away _ (by omega)).trans here
      · intro m' others shape
        obtain ⟨rfl, rfl⟩ := List.cons.inj shape
        exact relinked
      · rintro y (before | ⟨-, after⟩)
        · exact (away y (by omega)).trans (elsewhere y (by omega))
        · exact (away y (by omega)).trans (elsewhere y (by omega))

/-- A pair that is not free is left alone. -/
theorem mergeFreePair_used (laid : h.Laid (left ++ t :: n :: right))
    (used : ¬ (t.used = 0 ∧ n.used = 0)) :
    h.mergeFreePair (h.heapStart + span mblockSize left) =
      (h.heapStart + span mblockSize (left ++ [t]), h) := by
  have low := laid.low
  have block := laid.block_eq
  have second := laid.block_behind
  have nonzero : h.heapStart + span mblockSize left ≠ 0 := by omega
  have linked : h.heapStart + span mblockSize (left ++ [t]) ≠ 0 := by omega
  unfold mergeFreePair
  rw [if_neg nonzero, block]
  simp only [tileHeader, firstBlock_cons, if_neg linked, laid.sanityCheck_eq]
  rw [laid.behind.sanityCheck_eq, block, second]
  simp only [tileHeader]
  by_cases free : t.used = 0
  · have taken : n.used ≠ 0 := fun both => used ⟨free, both⟩
    simp [free, taken]
  · simp [free]

/-- At the last block there is nothing to merge. -/
theorem mergeFreePair_last (laid : h.Laid (left ++ [t])) :
    h.mergeFreePair (h.heapStart + span mblockSize left) = (0, h) := by
  have low := laid.low
  have nonzero : h.heapStart + span mblockSize left ≠ 0 := by omega
  unfold mergeFreePair
  rw [if_neg nonzero, laid.block_eq]
  rfl

/-- Two free neighbours become one block. -/
theorem mergeFreePair_free (laid : h.Laid (left ++ t :: n :: right)) (free : t.used = 0)
    (free' : n.used = 0) :
    ∃ f, let x := h.heapStart + span mblockSize left
      let h' := absorbBlock h x (firstBlock (h.heapStart + span mblockSize (left ++ [t, n])) right) f
      h.mergeFreePair x = (x, h') ∧ OnlyMemory h h' ∧
        h'.Laid (left ++ ⟨t.size + n.size + mblockSize, t.used⟩ :: right) := by
  have unit : mblockSize = 24 := rfl
  have low := laid.low
  have place := laid.place
  have high := laid.high
  have block := laid.block_eq
  have second := laid.block_behind
  have nonzero : h.heapStart + span mblockSize left ≠ 0 := by omega
  have linked : h.heapStart + span mblockSize (left ++ [t]) ≠ 0 := by omega
  have later : span mblockSize (n :: right) = mblockSize + n.size + span mblockSize right :=
    span_cons
  have sum : uLong (t.size + n.size + mblockSize) = t.size + n.size + mblockSize := by
    rw [uLong]
    omega
  have absorbed := @absorb σ h t n left right ⟨t.size + n.size + mblockSize, t.used⟩
    (fun b => { b with
      size := uLong (b.size + n.size + mblockSize)
      next := firstBlock (h.heapStart + span mblockSize (left ++ [t, n])) right }) laid rfl
    (Nat.le_trans (Nat.le_of_eq free) (Nat.zero_le _)) (by rw [block, tileHeader, sum]; rfl)
  refine ⟨_, ?_, absorbed⟩
  unfold mergeFreePair absorbBlock
  rw [if_neg nonzero, block]
  simp only [tileHeader, firstBlock_cons, if_neg linked, laid.sanityCheck_eq]
  rw [laid.behind.sanityCheck_eq, block, second]
  simp only [tileHeader, free, free', ne_eq, not_true_eq_false, if_false]
  cases right with
  | nil => simp
  | cons m rest =>
      have third : h.Laid ((left ++ [t, n]) ++ m :: rest) := by
        rw [List.append_assoc]
        exact laid
      have thirdPlace := third.place
      have wide : span mblockSize (left ++ [t, n]) =
          span mblockSize left + (mblockSize + t.size) + (mblockSize + n.size) := by
        simp only [span_append, span_cons, span_nil]
        omega
      have passes (f : MBlock → MBlock) :
          (h.modifyBlock (h.heapStart + span mblockSize left) f).sanityCheck
            (h.heapStart + span mblockSize (left ++ [t, n])) =
              h.modifyBlock (h.heapStart + span mblockSize left) f := by
        have kept : (h.modifyBlock (h.heapStart + span mblockSize left) f).block
            (h.heapStart + span mblockSize (left ++ [t, n])) =
              h.block (h.heapStart + span mblockSize (left ++ [t, n])) :=
          block_modifyBlock_apart (by omega)
        have sound := third.sound
        rw [← kept] at sound
        exact Sound.sanityCheck_eq ⟨sound.nonzero, sound.proper, sound.inside, sound.numbers,
          sound.fits, sound.adjacent⟩
      have present : h.heapStart + span mblockSize (left ++ [t, n]) ≠ 0 := by omega
      simp only [firstBlock_cons, present, not_false_eq_true, if_true, passes]

/-! ### A new block at the end -/

/-- The heap has grown by a block that is not linked yet; linking it to the last one makes it part
of the chain. -/
theorem extend {h' : UserHeap σ} {size : Nat} (laid : h.Laid (left ++ [t]))
    (initialized : h'.notInitialized = false) (start : h'.heapStart = h.heapStart)
    (ends : h'.heapEnd = h.heapEnd + mblockSize + size) (high : h'.heapEnd ≤ 0x200000)
    (fresh : h'.block h.heapEnd = tileHeader ⟨size, 0⟩ 0 0)
    (elsewhere : ∀ y, y + mblockSize ≤ h.heapEnd → h'.block y = h.block y) :
    ((h'.modifyBlock (h.heapStart + span mblockSize left) fun b =>
      { b with next := h.heapEnd }).modifyBlock h.heapEnd fun b =>
        { b with previous := h.heapStart + span mblockSize left }).Laid
      (left ++ [t, ⟨size, 0⟩]) := by
  have unit : mblockSize = 24 := rfl
  have low := laid.low
  have place := laid.place
  rw [span_nil, Nat.add_zero] at place
  have old := laid.block_eq
  rw [← elsewhere _ (by omega), firstBlock_nil] at old
  have used := laid.used_le
  have cutPlace : h.heapStart + span mblockSize (left ++ [t]) = h.heapEnd := laid.ends
  have here : (h'.modifyBlock (h.heapStart + span mblockSize left) fun b =>
      { b with next := h.heapEnd }).block (h.heapStart + span mblockSize left) =
        tileHeader t h.heapEnd (lastBlock h.heapStart left) := by
    rw [block_modifyBlock_self, old]
    · rfl
    · rw [old]
      show (tileHeader t _ _).Small
      exact tileHeader_small (by omega) (by omega) (by omega) laid.lastBlock_lt
  have away (y : Nat) (apart : y + mblockSize ≤ h.heapStart + span mblockSize left ∨
      h.heapStart + span mblockSize left + mblockSize ≤ y) :
      (h'.modifyBlock (h.heapStart + span mblockSize left) fun b =>
        { b with next := h.heapEnd }).block y = h'.block y := block_modifyBlock_apart apart
  have same : OnlyMemory h' (h'.modifyBlock (h.heapStart + span mblockSize left) fun b =>
      { b with next := h.heapEnd }) := rfl
  generalize h'.modifyBlock (h.heapStart + span mblockSize left)
    (fun b => { b with next := h.heapEnd }) = c at *
  have linked := block_relink (n := ⟨size, 0⟩) (p := h.heapStart + span mblockSize left)
    ((away h.heapEnd (by omega)).trans fresh) (by simp only; omega) (Nat.zero_le _)
    (by decide) (by omega)
  have away' (y : Nat) (apart : y + mblockSize ≤ h.heapEnd) :
      (c.modifyBlock h.heapEnd fun b =>
        { b with previous := h.heapStart + span mblockSize left }).block y = c.block y :=
    block_modifyBlock_apart (Or.inl apart)
  have shape : c.modifyBlock h.heapEnd (fun b =>
      { b with previous := h.heapStart + span mblockSize left }) =
        { h' with
          mem := (c.modifyBlock h.heapEnd fun b =>
            { b with previous := h.heapStart + span mblockSize left }).mem } :=
    same.modifyBlock _ _
  rw [shape]
  have fits : Fits (left ++ [t, ⟨size, 0⟩]) := by
    intro v member
    rcases List.mem_append.mp member with member | member
    · exact laid.fits v (List.mem_append_left _ member)
    · rcases List.mem_cons.mp member with rfl | member
      · exact used
      · cases List.mem_singleton.mp member
        exact Nat.zero_le _
  refine ⟨initialized, ?_, high, ?_, by simp, fits, ?_⟩
  · rw [start]
    exact low
  · rw [start]
    simp only [span_append, span_cons, span_nil]
    omega
  · rw [start]
    apply laid.linking.two (Or.inl rfl)
    · rw [cutPlace]
      exact (away' _ (by omega)).trans here
    · rw [cutPlace]
      exact linked
    · intro m rest none
      cases none
    · rintro y (before | ⟨some, -⟩)
      · exact (away' y (by omega)).trans ((away y (by omega)).trans (elsewhere y (by omega)))
      · exact absurd rfl some

end Laid

end UserHeap

end Yalnix
