/-
Module: Yalnix.Lib.Holdings
Purpose: Who holds which resource: what taking, giving back and forgetting resources does to the
  rule that every holder has a resource of its own, and to the rule that nothing in use is lost.
Trusted boundary: none
Main exports: Holdings, Holdings.Change, Holdings.Changes, Exclusive.changes, Accounted.changes
-/
import Mathlib.Logic.Relation

/-- Which resources are in use, and the resource that each place holds. -/
structure Holdings (ι φ : Type*) where
  used : φ → Prop
  holds : ι → Option φ

namespace Holdings

variable {ι φ : Type*} {h h' h'' : Holdings ι φ} {lossy sharing : Prop}

/-- Every place that holds a resource holds one in use, which no other place holds. -/
structure Exclusive (h : Holdings ι φ) : Prop where
  used : ∀ x f, h.holds x = some f → h.used f
  once : ∀ x y f, h.holds x = some f → h.holds y = some f → x = y

/-- Every resource in use is held by some place, or exempt. -/
def Accounted (exempt : φ → Prop) (h : Holdings ι φ) : Prop :=
  ∀ f, h.used f → exempt f ∨ ∃ x, h.holds x = some f

/-- One change of the holdings.  Only a `lossy` change lets go of what a place holds without giving
it back; only one with `sharing` puts into a place what it has not taken for it. -/
inductive Change (lossy sharing : Prop) (h h' : Holdings ι φ) : Prop where
  | take (x : ι) (f : φ) (unused : ¬ h.used f) (vacant : h.holds x = none ∨ lossy)
      (used : ∀ g, h'.used g ↔ g = f ∨ h.used g) (here : h'.holds x = some f)
      (elsewhere : ∀ y, y ≠ x → h'.holds y = h.holds y)
  | release (x : ι) (f : φ) (held : h.holds x = some f)
      (used : ∀ g, h'.used g ↔ h.used g ∧ g ≠ f) (here : h'.holds x = none)
      (elsewhere : ∀ y, y ≠ x → h'.holds y = h.holds y)
  | share (x : ι) (f : φ) (allowed : sharing) (vacant : h.holds x = none ∨ lossy)
      (used : ∀ g, h'.used g ↔ h.used g) (here : h'.holds x = some f)
      (elsewhere : ∀ y, y ≠ x → h'.holds y = h.holds y)
  | forget (used : ∀ g, h'.used g ↔ h.used g)
      (holds : ∀ y, h'.holds y = h.holds y ∨ h'.holds y = none ∧ lossy)

/-- Any number of changes. -/
def Changes (lossy sharing : Prop) : Holdings ι φ → Holdings ι φ → Prop :=
  Relation.ReflTransGen (Change lossy sharing)

namespace Changes

theorem refl (h : Holdings ι φ) : Changes lossy sharing h h := Relation.ReflTransGen.refl

theorem single (change : Change lossy sharing h h') : Changes lossy sharing h h' :=
  Relation.ReflTransGen.single change

theorem trans (first : Changes lossy sharing h h') (second : Changes lossy sharing h' h'') :
    Changes lossy sharing h h'' := Relation.ReflTransGen.trans first second

theorem of_eq (same : h' = h) : Changes lossy sharing h h' := by
  rw [same]
  exact refl h

/-- Holdings that agree everywhere. -/
theorem of_same (used : ∀ g, h'.used g ↔ h.used g) (holds : ∀ y, h'.holds y = h.holds y) :
    Changes lossy sharing h h' :=
  single (.forget used fun y => Or.inl (holds y))

end Changes

/-- One change keeps every place to a resource of its own, if nothing is shared. -/
theorem Exclusive.change (exclusive : Exclusive h) (change : Change lossy False h h') :
    Exclusive h' := by
  cases change with
  | take x f unused vacant used here elsewhere =>
      -- what another place holds is in use, and so differs from what is taken
      have apart : ∀ y, y ≠ x → ∀ g, h'.holds y = some g → h.used g ∧ g ≠ f := by
        intro y ne g held
        rw [elsewhere y ne] at held
        refine ⟨exclusive.used y g held, ?_⟩
        rintro rfl
        exact unused (exclusive.used y g held)
      constructor
      case used =>
        intro y g held
        rw [used g]
        by_cases same : y = x
        · rw [same, here] at held
          exact Or.inl (Option.some.inj held).symm
        · exact Or.inr (apart y same g held).1
      case once =>
        intro y z g heldY heldZ
        by_cases sameY : y = x
        · by_cases sameZ : z = x
          · exact sameY.trans sameZ.symm
          · rw [sameY, here] at heldY
            exact absurd (Option.some.inj heldY).symm (apart z sameZ g heldZ).2
        · by_cases sameZ : z = x
          · rw [sameZ, here] at heldZ
            exact absurd (Option.some.inj heldZ).symm (apart y sameY g heldY).2
          · rw [elsewhere y sameY] at heldY
            rw [elsewhere z sameZ] at heldZ
            exact exclusive.once y z g heldY heldZ
  | release x f held used here elsewhere =>
      have kept : ∀ y g, h'.holds y = some g → y ≠ x ∧ h.holds y = some g := by
        intro y g held'
        have ne : y ≠ x := by
          rintro rfl
          rw [here] at held'
          cases held'
        rw [elsewhere y ne] at held'
        exact ⟨ne, held'⟩
      constructor
      case used =>
        intro y g held'
        obtain ⟨ne, before⟩ := kept y g held'
        rw [used g]
        refine ⟨exclusive.used y g before, ?_⟩
        rintro rfl
        exact ne (exclusive.once y x g before held)
      case once =>
        intro y z g heldY heldZ
        exact exclusive.once y z g (kept y g heldY).2 (kept z g heldZ).2
  | share x f allowed => exact absurd allowed not_false
  | forget used holds =>
      have kept : ∀ y g, h'.holds y = some g → h.holds y = some g := by
        intro y g held
        rcases holds y with same | ⟨none, -⟩
        · rw [← same]
          exact held
        · rw [none] at held
          cases held
      constructor
      case used =>
        intro y g held
        rw [used g]
        exact exclusive.used y g (kept y g held)
      case once =>
        intro y z g heldY heldZ
        exact exclusive.once y z g (kept y g heldY) (kept z g heldZ)

theorem Exclusive.changes (exclusive : Exclusive h) (changes : Changes lossy False h h') :
    Exclusive h' := by
  induction changes with
  | refl => exact exclusive
  | tail _ last inductionHypothesis => exact inductionHypothesis.change last

/-- One change without losses leaves nothing in use unheld. -/
theorem Accounted.change {exempt : φ → Prop} (accounted : Accounted exempt h)
    (change : Change False sharing h h') : Accounted exempt h' := by
  -- a place that was vacant held nothing that could be lost
  have kept : ∀ {x : ι}, h.holds x = none ∨ False → (∀ y, y ≠ x → h'.holds y = h.holds y) →
      ∀ y g, h.holds y = some g → h'.holds y = some g := by
    intro x vacant elsewhere y g held
    have ne : y ≠ x := by
      rintro rfl
      rcases vacant with empty | lost
      · rw [empty] at held
        cases held
      · exact lost
    rw [elsewhere y ne]
    exact held
  intro g inUse
  cases change with
  | take x f unused vacant used here elsewhere =>
      rcases (used g).mp inUse with rfl | before
      · exact Or.inr ⟨x, here⟩
      · rcases accounted g before with spared | ⟨y, held⟩
        · exact Or.inl spared
        · exact Or.inr ⟨y, kept vacant elsewhere y g held⟩
  | release x f held used here elsewhere =>
      obtain ⟨before, ne⟩ := (used g).mp inUse
      rcases accounted g before with spared | ⟨y, held'⟩
      · exact Or.inl spared
      · refine Or.inr ⟨y, ?_⟩
        rw [elsewhere y]
        · exact held'
        · rintro rfl
          exact ne (Option.some.inj (held'.symm.trans held))
  | share x f allowed vacant used here elsewhere =>
      rcases accounted g ((used g).mp inUse) with spared | ⟨y, held⟩
      · exact Or.inl spared
      · exact Or.inr ⟨y, kept vacant elsewhere y g held⟩
  | forget used holds =>
      rcases accounted g ((used g).mp inUse) with spared | ⟨y, held⟩
      · exact Or.inl spared
      · refine Or.inr ⟨y, ?_⟩
        rcases holds y with same | ⟨-, lost⟩
        · exact same.trans held
        · exact absurd lost not_false

theorem Accounted.changes {exempt : φ → Prop} (accounted : Accounted exempt h)
    (changes : Changes False sharing h h') : Accounted exempt h' := by
  induction changes with
  | refl => exact accounted
  | tail _ last inductionHypothesis => exact inductionHypothesis.change last

end Holdings
