/-
Module: Yalnix.Lib.Tiling
Purpose: A range of addresses cut into tiles, each with a header before its room: where the tiles
  lie, and what cutting a free tile, joining free neighbours and growing the range do to the tiles
  that are in use.
Trusted boundary: none
Main exports: Tile, Tiling.span, Tiling.placed, Tiling.InUse, Tiling.Coalesced, Tiling.join,
  Tiling.carve, placed_apart, inUse_join, coalesced_join, inUse_carve, coalesced_carve
-/
import Mathlib.Algebra.GroupWithZero.Nat
import Mathlib.Data.List.Chain
import Mathlib.Data.List.Nodup

/-- A tile: how much room it has and how much of the room is in use.  A tile with nothing in use is
free. -/
structure Tile where
  size : Nat
  used : Nat
deriving DecidableEq, Repr

namespace Tiling

variable {h a x y len least : Nat} {t u : Tile} {front back ts : List Tile}

/-! ### Where the tiles lie -/

/-- The addresses that tiles with headers of length `h` take. -/
def span (h : Nat) (ts : List Tile) : Nat := (ts.map fun t => h + t.size).sum

@[simp] theorem span_nil : span h [] = 0 := rfl

@[simp] theorem span_cons : span h (t :: ts) = h + t.size + span h ts := by simp [span]

@[simp] theorem span_append : span h (front ++ back) = span h front + span h back := by
  simp [span]

/-- Tiles that follow one another from address `a` on, each with its address. -/
def placed (h : Nat) : Nat → List Tile → List (Nat × Tile)
  | _, [] => []
  | a, t :: rest => (a, t) :: placed h (a + (h + t.size)) rest

@[simp] theorem placed_nil : placed h a [] = [] := rfl

@[simp] theorem placed_cons :
    placed h a (t :: ts) = (a, t) :: placed h (a + (h + t.size)) ts := rfl

theorem placed_append : placed h a (front ++ back) =
    placed h a front ++ placed h (a + span h front) back := by
  induction front generalizing a with
  | nil => rfl
  | cons t rest inductionHypothesis =>
      rw [List.cons_append, placed_cons, inductionHypothesis, placed_cons, List.cons_append,
        span_cons, Nat.add_assoc a]

/-- The tiles in front stay where they are. -/
theorem placed_front (listed : (x, t) ∈ placed h a front) : (x, t) ∈ placed h a (front ++ back) := by
  rw [placed_append]
  exact List.mem_append_left _ listed

/-- A tile stands where the tiles before it end. -/
theorem mem_placed : (x, t) ∈ placed h a ts ↔
    ∃ front back, ts = front ++ t :: back ∧ x = a + span h front := by
  constructor
  · intro listed
    induction ts generalizing a with
    | nil => cases listed
    | cons u rest inductionHypothesis =>
        rcases List.mem_cons.mp listed with here | later
        · cases here
          exact ⟨[], rest, rfl, rfl⟩
        · obtain ⟨front, back, rfl, place⟩ := inductionHypothesis later
          exact ⟨u :: front, back, rfl, by rw [place, span_cons, Nat.add_assoc]⟩
  · rintro ⟨front, back, rfl, rfl⟩
    rw [placed_append]
    exact List.mem_append_right _ List.mem_cons_self

theorem mem_of_placed (listed : (x, t) ∈ placed h a ts) : t ∈ ts := by
  obtain ⟨front, back, rfl, -⟩ := mem_placed.mp listed
  simp

/-- A tile lies inside the range. -/
theorem placed_inside (listed : (x, t) ∈ placed h a ts) :
    a ≤ x ∧ x + h + t.size ≤ a + span h ts := by
  obtain ⟨front, back, rfl, rfl⟩ := mem_placed.mp listed
  simp only [span_append, span_cons]
  omega

/-- Two tiles are the same one or do not overlap. -/
theorem placed_apart (first : (x, t) ∈ placed h a ts) (second : (y, u) ∈ placed h a ts) :
    (x = y ∧ t = u) ∨ x + h + t.size ≤ y ∨ y + h + u.size ≤ x := by
  induction ts generalizing a with
  | nil => cases first
  | cons v rest inductionHypothesis =>
      rcases List.mem_cons.mp first with here | later
      · cases here
        rcases List.mem_cons.mp second with here' | later'
        · cases here'
          exact Or.inl ⟨rfl, rfl⟩
        · have inside := placed_inside later'
          omega
      · rcases List.mem_cons.mp second with here' | later'
        · cases here'
          have inside := placed_inside later
          omega
        · exact inductionHypothesis later later'

/-- One address holds one tile. -/
theorem placed_unique (positive : 0 < h) (first : (x, t) ∈ placed h a ts)
    (second : (x, u) ∈ placed h a ts) : t = u := by
  rcases placed_apart first second with same | before | before
  · exact same.2
  · omega
  · omega

/-- Either no tile has the property, or there is a first one. -/
theorem find_placed (P : Nat → Tile → Prop) : (∀ x t, (x, t) ∈ placed h a ts → ¬ P x t) ∨
    ∃ skipped t rest, ts = skipped ++ t :: rest ∧ P (a + span h skipped) t ∧
      ∀ x u, (x, u) ∈ placed h a skipped → ¬ P x u := by
  induction ts generalizing a with
  | nil => exact Or.inl fun _ _ none => nomatch none
  | cons t rest inductionHypothesis =>
      by_cases here : P a t
      · exact Or.inr ⟨[], t, rest, rfl, here, fun _ _ none => nomatch none⟩
      · have others (x : Nat) (u : Tile) {us : List Tile}
            (later : ∀ x u, (x, u) ∈ placed h (a + (h + t.size)) us → ¬ P x u) :
            (x, u) ∈ placed h a (t :: us) → ¬ P x u := by
          intro listed
          rcases List.mem_cons.mp listed with first | listed
          · cases first
            exact here
          · exact later x u listed
        rcases inductionHypothesis (a := a + (h + t.size)) with
          none | ⟨skipped, u, back, rfl, found, before⟩
        · exact Or.inl fun x u => others x u none
        · refine Or.inr ⟨t :: skipped, u, back, rfl, ?_, fun x u => others x u before⟩
          rw [span_cons, ← Nat.add_assoc]
          exact found

/-- There are no more tiles than their headers leave room for. -/
theorem length_le_span (positive : 0 < h) : ts.length ≤ span h ts := by
  induction ts with
  | nil => exact Nat.le_refl _
  | cons t rest inductionHypothesis =>
      rw [List.length_cons, span_cons]
      omega

/-! ### Tiles in use -/

/-- The tile at `x` is `t`, and it is in use. -/
def InUse (h a : Nat) (ts : List Tile) (x : Nat) (t : Tile) : Prop :=
  (x, t) ∈ placed h a ts ∧ t.used ≠ 0

@[simp] theorem inUse_nil : ¬ InUse h a [] x t := fun inUse => nomatch inUse.1

theorem inUse_append : InUse h a (front ++ back) x t ↔
    InUse h a front x t ∨ InUse h (a + span h front) back x t := by
  simp only [InUse, placed_append, List.mem_append, or_and_right]

theorem inUse_cons : InUse h a (u :: ts) x t ↔
    (x = a ∧ t = u ∧ u.used ≠ 0) ∨ InUse h (a + (h + u.size)) ts x t := by
  simp only [InUse, placed_cons, List.mem_cons, Prod.mk.injEq, or_and_right]
  constructor
  · rintro (⟨⟨rfl, rfl⟩, used⟩ | later)
    · exact Or.inl ⟨rfl, rfl, used⟩
    · exact Or.inr later
  · rintro (⟨rfl, rfl, used⟩ | later)
    · exact Or.inl ⟨⟨rfl, rfl⟩, used⟩
    · exact Or.inr later

/-- Tiles in the middle are exchanged for others that take the same addresses. -/
theorem inUse_exchange {middle middle' : List Tile} (positive : 0 < h)
    (spans : span h middle' = span h middle) :
    InUse h a (front ++ (middle' ++ back)) x t ↔ InUse h (a + span h front) middle' x t ∨
      InUse h a (front ++ (middle ++ back)) x t ∧ ¬ InUse h (a + span h front) middle x t := by
  rw [inUse_append, inUse_append, @inUse_append h a x t front, @inUse_append h _ x t middle, spans]
  have before (earlier : InUse h a front x t) : ¬ InUse h (a + span h front) middle x t := by
    intro here
    have above := placed_inside here.1
    have below := placed_inside earlier.1
    omega
  have behind (later : InUse h (a + span h front + span h middle) back x t) :
      ¬ InUse h (a + span h front) middle x t := by
    intro here
    have below := placed_inside here.1
    have above := placed_inside later.1
    omega
  constructor
  · rintro (earlier | here | later)
    · exact Or.inr ⟨Or.inl earlier, before earlier⟩
    · exact Or.inl here
    · exact Or.inr ⟨Or.inr (Or.inr later), behind later⟩
  · rintro (here | ⟨earlier | here | later, elsewhere⟩)
    · exact Or.inr (Or.inl here)
    · exact Or.inl earlier
    · exact absurd here elsewhere
    · exact Or.inr (Or.inr later)

/-- No two neighbours are both free. -/
def Coalesced (ts : List Tile) : Prop := ts.IsChain fun t u => t.used ≠ 0 ∨ u.used ≠ 0

/-- Every tile has room for what is in use of it. -/
def Fits (ts : List Tile) : Prop := ∀ t ∈ ts, t.used ≤ t.size

/-- When nothing is in use a coalesced range is one tile. -/
theorem Coalesced.single (coalesced : Coalesced ts) (some : ts ≠ [])
    (free : ∀ x t, ¬ InUse h a ts x t) : ∃ t, ts = [t] ∧ t.used = 0 := by
  have unused : ∀ t ∈ ts, t.used = 0 := by
    intro t member
    by_contra used
    obtain ⟨front, back, rfl⟩ := List.append_of_mem member
    exact free _ t ⟨mem_placed.mpr ⟨front, back, rfl, rfl⟩, used⟩
  rcases ts with _ | ⟨t, _ | ⟨u, rest⟩⟩
  · exact absurd rfl some
  · exact ⟨t, rfl, unused t List.mem_cons_self⟩
  · have neighbours := (List.isChain_cons_cons.mp coalesced).1
    rcases neighbours with used | used
    · exact absurd (unused t List.mem_cons_self) used
    · exact absurd (unused u (List.mem_cons_of_mem _ List.mem_cons_self)) used

/-- A tile in use separates its neighbours, whatever stood in its place. -/
theorem coalesced_separate (left : Coalesced front) (right : Coalesced back) (used : u.used ≠ 0) :
    Coalesced (front ++ u :: back) := by
  refine List.isChain_append.mpr ⟨left, ?_, ?_⟩
  · exact List.isChain_cons.mpr ⟨fun _ _ => Or.inl used, right⟩
  · intro v _ w first
    cases first
    exact Or.inr used

theorem Coalesced.left (coalesced : Coalesced (front ++ back)) : Coalesced front :=
  List.IsChain.left_of_append coalesced

theorem Coalesced.right (coalesced : Coalesced (front ++ back)) : Coalesced back :=
  List.IsChain.right_of_append coalesced

/-- A free tile may be replaced by another one at the head. -/
theorem Coalesced.replace_head (coalesced : Coalesced (t :: back)) (free : t.used = 0) :
    Coalesced (u :: back) := by
  refine List.isChain_cons.mpr ⟨fun v first => ?_, (List.isChain_cons.mp coalesced).2⟩
  rcases (List.isChain_cons.mp coalesced).1 v first with used | used
  · exact absurd free used
  · exact Or.inr used

/-- A free tile may be replaced by another one anywhere. -/
theorem Coalesced.replace (coalesced : Coalesced (front ++ t :: back)) (free : t.used = 0) :
    Coalesced (front ++ u :: back) := by
  obtain ⟨left, right, seam⟩ := List.isChain_append.mp coalesced
  refine List.isChain_append.mpr ⟨left, Coalesced.replace_head right free, ?_⟩
  intro v last w first
  rcases seam v last t rfl with used | used
  · exact Or.inl used
  · exact absurd free used

/-- The range may grow by a tile behind one that is in use. -/
theorem Coalesced.snoc (coalesced : Coalesced (front ++ [t])) (used : t.used ≠ 0) :
    Coalesced (front ++ [t, u]) := by
  have whole : Coalesced ((front ++ [t]) ++ [u]) := by
    refine List.isChain_append.mpr ⟨coalesced, List.IsChain.singleton u, ?_⟩
    intro v last w first
    rw [List.getLast?_concat] at last
    cases last
    exact Or.inl used
  rwa [List.append_assoc] at whole

/-! ### Joining free neighbours -/

/-- Join neighbours that are both free, from the first tile on. -/
def join (h : Nat) : List Tile → List Tile
  | [] => []
  | [t] => [t]
  | t :: u :: rest =>
      if t.used = 0 ∧ u.used = 0 then join h (⟨t.size + u.size + h, t.used⟩ :: rest)
      else t :: join h (u :: rest)
termination_by ts => ts.length

/-- The first tile stays in use, or free. -/
theorem head_join {v : Tile} (first : v ∈ (join h (t :: back)).head?) :
    v.used = 0 ↔ t.used = 0 := by
  generalize whole : t :: back = ts at first
  induction ts using join.induct (h := h) generalizing t back with
  | case1 => cases whole
  | case2 u =>
      cases whole
      rw [join] at first
      cases first
      exact Iff.rfl
  | case3 u w rest free inductionHypothesis =>
      cases whole
      rw [join, if_pos free] at first
      exact inductionHypothesis (t := ⟨u.size + w.size + h, u.used⟩) rfl first
  | case4 u w rest used inductionHypothesis =>
      cases whole
      rw [join, if_neg used] at first
      cases first
      exact Iff.rfl

theorem coalesced_join : Coalesced (join h ts) := by
  induction ts using join.induct (h := h) with
  | case1 =>
      rw [join]
      exact List.IsChain.nil
  | case2 t =>
      rw [join]
      exact List.IsChain.singleton t
  | case3 t u rest free inductionHypothesis =>
      rw [join, if_pos free]
      exact inductionHypothesis
  | case4 t u rest used inductionHypothesis =>
      rw [join, if_neg used]
      refine List.isChain_cons.mpr ⟨fun v first => ?_, inductionHypothesis⟩
      rw [Ne, Ne, head_join first]
      exact not_and_or.mp used

/-- The tiles in use stay as they are and where they are. -/
theorem inUse_join : InUse h a (join h ts) x t ↔ InUse h a ts x t := by
  induction ts using join.induct (h := h) generalizing a with
  | case1 => rw [join]
  | case2 u => rw [join]
  | case3 u v rest free inductionHypothesis =>
      rw [join, if_pos free, inductionHypothesis]
      simp only [inUse_cons, free.1, free.2, ne_eq, not_true_eq_false, and_false, false_or]
      rw [show a + (h + (u.size + v.size + h)) = a + (h + u.size) + (h + v.size) by omega]
  | case4 u v rest used inductionHypothesis =>
      rw [join, if_neg used, inUse_cons, inductionHypothesis, inUse_cons (u := u)]

/-! ### Taking a free tile -/

/-- A tile of which `len` is taken: a remainder of `least` or more, header included, becomes a free
tile of its own. -/
def carve (h least len : Nat) (t : Tile) : List Tile :=
  if t.size < len + least then [⟨t.size, len⟩] else [⟨len, len⟩, ⟨t.size - len - h, 0⟩]

theorem span_carve (room : h ≤ least) : span h (carve h least len t) = h + t.size := by
  unfold carve
  split
  · simp
  · simp only [span_cons, span_nil]
    omega

/-- The taken tile comes into use, and the others in use stay. -/
theorem inUse_carve {v : Tile} (room : h ≤ least) (free : t.used = 0) (positive : 0 < len) :
    InUse h a (front ++ (carve h least len t ++ back)) x v ↔
      (x = a + span h front ∧ (carve h least len t).head? = some v) ∨
        InUse h a (front ++ t :: back) x v := by
  have ends : span h (carve h least len t) = h + t.size := span_carve room
  rw [inUse_append, inUse_append, ends, @inUse_append h a x v front, inUse_cons (u := t)]
  have taken : InUse h (a + span h front) (carve h least len t) x v ↔
      x = a + span h front ∧ (carve h least len t).head? = some v := by
    unfold carve
    split
    · simp only [inUse_cons, inUse_nil, or_false, List.head?_cons, Option.some.injEq]
      constructor
      · rintro ⟨place, rfl, -⟩
        exact ⟨place, rfl⟩
      · rintro ⟨place, rfl⟩
        exact ⟨place, rfl, Nat.ne_of_gt positive⟩
    · simp only [inUse_cons, inUse_nil, or_false, List.head?_cons, Option.some.injEq]
      constructor
      · rintro (⟨place, rfl, -⟩ | ⟨-, -, used⟩)
        · exact ⟨place, rfl⟩
        · exact absurd rfl used
      · rintro ⟨place, rfl⟩
        exact Or.inl ⟨place, rfl, Nat.ne_of_gt positive⟩
  rw [taken]
  constructor
  · rintro (earlier | here | later)
    · exact Or.inr (Or.inl earlier)
    · exact Or.inl here
    · exact Or.inr (Or.inr (Or.inr later))
  · rintro (here | earlier | ⟨-, rfl, used⟩ | later)
    · exact Or.inr (Or.inl here)
    · exact Or.inl earlier
    · exact absurd free used
    · exact Or.inr (Or.inr later)

theorem coalesced_carve (coalesced : Coalesced (front ++ t :: back)) (free : t.used = 0)
    (positive : 0 < len) : Coalesced (front ++ (carve h least len t ++ back)) := by
  have left := coalesced.left
  have right := coalesced.right
  have used : len ≠ 0 := Nat.ne_of_gt positive
  unfold carve
  split
  · exact coalesced_separate left (List.isChain_cons.mp right).2 used
  · exact coalesced_separate left (right.replace_head free) used

/-- The taken tile has room for what was asked for. -/
theorem head_carve {v : Tile} (enough : len ≤ t.size)
    (first : (carve h least len t).head? = some v) :
    v.used = len ∧ len ≤ v.size ∧ v.size ≤ t.size := by
  unfold carve at first
  split at first
  · cases first
    exact ⟨rfl, enough, Nat.le_refl _⟩
  · cases first
    exact ⟨rfl, Nat.le_refl _, enough⟩

end Tiling
