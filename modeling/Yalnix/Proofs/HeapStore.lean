/-
Module: Yalnix.Proofs.HeapStore
Purpose: The heap of a program as a store of blocks: which blocks the chain of headers stands for,
  and what every call of the allocator does to them.
Trusted boundary: none
Main exports: UserHeap.contents, contents_eq_some, Wf.blockStore, StoreStep, step_leads
-/
import Yalnix.Lib.BlockStore
import Yalnix.Proofs.HeapResize

namespace Yalnix

open Tiling

/-! ### The store that a heap stands for -/

namespace UserHeap

variable {σ : Type} {h h' k : UserHeap σ} {t u v : Tile} {left right ts ts' : List Tile}
  {sysBrk : BrkService σ} {backed : Nat → σ → Prop}

/-- The addresses of the headers, from `bp` on. -/
def chainFrom : Nat → Nat → UserHeap σ → List Nat
  | fuel, bp, h =>
      if bp = 0 then []
      else
        match fuel with
        | 0 => []
        | fuel + 1 => bp :: chainFrom fuel (h.block bp).next h

/-- The addresses of the headers. -/
def chain (h : UserHeap σ) : List Nat := chainFrom h.walkFuel h.heapStart h

/-- The data in use behind `p`, if `p` is the start of a block in use. -/
def contents (h : UserHeap σ) (p : Nat) : Option (List Byte) :=
  (h.chain.find? fun bp => bp + mblockSize = p ∧ (h.block bp).sizeUsed ≠ 0).map fun bp =>
    Bytes.read h.mem p (h.block bp).sizeUsed

theorem chainFrom_eq {fuel : Nat} (laid : h.Laid (left ++ right)) (enough : right.length ≤ fuel) :
    chainFrom fuel (firstBlock (h.heapStart + span mblockSize left) right) h =
      (placed mblockSize (h.heapStart + span mblockSize left) right).map Prod.fst := by
  induction right generalizing left fuel with
  | nil =>
      unfold chainFrom
      rw [firstBlock_nil, if_pos rfl]
      rfl
  | cons t rest inductionHypothesis =>
      cases fuel with
      | zero => cases enough
      | succ fuel =>
          have later := inductionHypothesis laid.behind (Nat.le_of_succ_le_succ enough)
          rw [firstBlock_cons, chainFrom, if_neg laid.nonzero]
          simp only [laid.next_eq]
          rw [later, placed_cons, List.map_cons, span_snoc, Nat.add_assoc]

theorem chain_eq (laid : h.Laid ts) : h.chain = (placed mblockSize h.heapStart ts).map Prod.fst := by
  have walked := @chainFrom_eq σ h [] ts h.walkFuel laid laid.length_le
  rwa [span_nil, Nat.add_zero, firstBlock_eq laid] at walked

/-- The header of a placed tile. -/
theorem header_placed {x : Nat} (laid : h.Laid ts)
    (listed : (x, t) ∈ placed mblockSize h.heapStart ts) :
    (h.block x).sizeUsed = t.used := by
  obtain ⟨front, back, rfl, rfl⟩ := mem_placed.mp listed
  exact laid.sizeUsed_eq

theorem contents_eq_some {p : Nat} {data : List Byte} (laid : h.Laid ts) :
    h.contents p = some data ↔ ∃ x t, InUse mblockSize h.heapStart ts x t ∧ p = x + mblockSize ∧
      data = Bytes.read h.mem p t.used := by
  have unit : 0 < mblockSize := by decide
  rw [contents, chain_eq laid, Option.map_eq_some_iff]
  constructor
  · rintro ⟨x, found, rfl⟩
    obtain ⟨⟨y, t⟩, listed, rfl⟩ := List.mem_map.mp (List.mem_of_find?_eq_some found)
    have holds := List.find?_some found
    simp only [decide_eq_true_eq] at holds
    rw [header_placed laid listed] at holds ⊢
    exact ⟨y, t, ⟨listed, holds.2⟩, holds.1.symm, rfl⟩
  · rintro ⟨x, t, inUse, rfl, rfl⟩
    have header := header_placed laid inUse.1
    refine ⟨x, ?_, by rw [header]⟩
    cases found : ((placed mblockSize h.heapStart ts).map Prod.fst).find? fun bp =>
        decide (bp + mblockSize = x + mblockSize ∧ (h.block bp).sizeUsed ≠ 0) with
    | none =>
        have unused := List.find?_eq_none.mp found x (List.mem_map_of_mem inUse.1)
        rw [header] at unused
        exact absurd (decide_eq_true ⟨rfl, inUse.2⟩) unused
    | some y =>
        have holds := List.find?_some found
        simp only [decide_eq_true_eq] at holds
        rw [Nat.add_right_cancel holds.1]

/-- The blocks of a well-formed heap. -/
def Wf.blockStore (wf : h.Wf backed ts) : BlockStore Byte where
  block := h.contents
  apart p q data data' first second := by
    obtain ⟨x, t, inUse, rfl, rfl⟩ := (contents_eq_some wf.laid).mp first
    obtain ⟨y, u, inUse', rfl, rfl⟩ := (contents_eq_some wf.laid).mp second
    have fits := wf.laid.fits t (mem_of_placed inUse.1)
    have fits' := wf.laid.fits u (mem_of_placed inUse'.1)
    rw [Bytes.length_read, Bytes.length_read]
    rcases placed_apart inUse.1 inUse'.1 with same | before | after
    · exact Or.inl (congrArg (· + mblockSize) same.1)
    · exact Or.inr (Or.inl (by omega))
    · exact Or.inr (Or.inr (by omega))

/-! ### What an exchange of tiles does to the store -/

section Exchanges

variable {gone come : Nat → Tile → Prop} {p : Nat} {data : List Byte}

/-- The blocks after an exchange are those that have come and those that are not gone. -/
theorem contents_exchange (laid : h.Laid ts) (laid' : h'.Laid ts')
    (exchange : Exchange h h' ts ts' gone come) : h'.contents p = some data ↔
      (∃ x t, come x t ∧ p = x + mblockSize ∧ data = Bytes.read h'.mem p t.used) ∨
      (∃ x t, (InUse mblockSize h.heapStart ts x t ∧ ¬ gone x t) ∧ p = x + mblockSize ∧
        data = Bytes.read h.mem p t.used) := by
  have kept (x : Nat) (t : Tile) (here : InUse mblockSize h.heapStart ts x t ∧ ¬ gone x t) :
      Bytes.read h'.mem (x + mblockSize) t.used = Bytes.read h.mem (x + mblockSize) t.used := by
    have fits := laid.fits t (mem_of_placed here.1.1)
    apply Bytes.read_congr
    intro b low high
    obtain ⟨i, rfl⟩ := Nat.exists_eq_add_of_le low
    exact exchange.frame.keeps here (by omega)
  rw [contents_eq_some laid', exchange.start]
  constructor
  · rintro ⟨x, t, inUse, rfl, rfl⟩
    rcases (exchange.inUse x t).mp inUse with new | old
    · exact Or.inl ⟨x, t, new, rfl, rfl⟩
    · exact Or.inr ⟨x, t, old, rfl, kept x t old⟩
  · rintro (⟨x, t, new, rfl, rfl⟩ | ⟨x, t, old, rfl, rfl⟩)
    · exact ⟨x, t, (exchange.inUse x t).mpr (Or.inl new), rfl, rfl⟩
    · exact ⟨x, t, (exchange.inUse x t).mpr (Or.inr old), rfl, (kept x t old).symm⟩

/-- Nothing is exchanged. -/
theorem contents_same (laid : h.Laid ts) (laid' : h'.Laid ts')
    (exchange : Exchange h h' ts ts' noTile noTile) : h'.contents = h.contents := by
  funext p
  apply Option.ext
  intro data
  rw [contents_exchange laid laid' exchange, contents_eq_some laid]
  simp only [noTile, false_and, exists_false, false_or, not_false_eq_true, and_true]

/-- The blocks that stay when one is gone. -/
theorem contents_kept {x : Nat} (laid : h.Laid ts) (inUse : InUse mblockSize h.heapStart ts x t) :
    (∃ z w, (InUse mblockSize h.heapStart ts z w ∧ ¬ oneTile x t z w) ∧ p = z + mblockSize ∧
        data = Bytes.read h.mem p w.used) ↔
      Function.update h.contents (x + mblockSize) none p = some data := by
  have unit : 0 < mblockSize := by decide
  by_cases here : p = x + mblockSize
  · subst here
    rw [Function.update_self]
    refine ⟨?_, fun none => nomatch none⟩
    rintro ⟨z, w, ⟨there, other⟩, same, -⟩
    obtain rfl := Nat.add_right_cancel same
    exact absurd ⟨rfl, placed_unique unit there.1 inUse.1⟩ other
  · rw [Function.update_of_ne here, contents_eq_some laid]
    constructor
    · rintro ⟨z, w, ⟨there, -⟩, rfl, rfl⟩
      exact ⟨z, w, there, rfl, rfl⟩
    · rintro ⟨z, w, there, rfl, rfl⟩
      exact ⟨z, w, ⟨there, fun same => here (congrArg (· + mblockSize) same.1)⟩, rfl, rfl⟩

/-- A tile that has come is a new block. -/
theorem contents_come {x : Nat} (laid : h.Laid ts) (laid' : h'.Laid ts')
    (exchange : Exchange h h' ts ts' noTile (oneTile x v))
    (fresh : ∀ u, ¬ InUse mblockSize h.heapStart ts x u) :
    h.contents (x + mblockSize) = none ∧ h'.contents =
      Function.update h.contents (x + mblockSize)
        (some (Bytes.read h'.mem (x + mblockSize) v.used)) := by
  have absent : h.contents (x + mblockSize) = none := by
    apply Option.eq_none_iff_forall_ne_some.mpr
    intro data found
    obtain ⟨z, w, inUse, same, -⟩ := (contents_eq_some laid).mp found
    obtain rfl := Nat.add_right_cancel same
    exact fresh w inUse
  refine ⟨absent, BlockStore.eq_update_of_iff absent fun p data => ?_⟩
  rw [contents_exchange laid laid' exchange]
  simp only [noTile, not_false_eq_true, and_true]
  rw [← contents_eq_some laid]
  refine or_congr_left ⟨?_, ?_⟩
  · rintro ⟨z, w, ⟨rfl, rfl⟩, rfl, rfl⟩
    exact ⟨rfl, rfl⟩
  · rintro ⟨rfl, rfl⟩
    exact ⟨x, v, ⟨rfl, rfl⟩, rfl, rfl⟩

/-- A tile that is gone is an erased block. -/
theorem contents_gone {x : Nat} (laid : h.Laid ts) (laid' : h'.Laid ts')
    (inUse : InUse mblockSize h.heapStart ts x t)
    (exchange : Exchange h h' ts ts' (oneTile x t) noTile) :
    h'.contents = Function.update h.contents (x + mblockSize) none := by
  refine funext fun p => Option.ext fun data => ?_
  rw [contents_exchange laid laid' exchange, contents_kept laid inUse]
  simp only [noTile, false_and, exists_false, false_or]

/-- A tile that has become another one is a block that has been exchanged. -/
theorem contents_moved {x y : Nat} (laid : h.Laid ts) (laid' : h'.Laid ts')
    (inUse : InUse mblockSize h.heapStart ts x t)
    (exchange : Exchange h h' ts ts' (oneTile x t) (oneTile y v))
    (fresh : y = x ∨ ∀ u, ¬ InUse mblockSize h.heapStart ts y u) :
    Function.update h.contents (x + mblockSize) none (y + mblockSize) = none ∧ h'.contents =
      Function.update (Function.update h.contents (x + mblockSize) none) (y + mblockSize)
        (some (Bytes.read h'.mem (y + mblockSize) v.used)) := by
  have absent : Function.update h.contents (x + mblockSize) none (y + mblockSize) = none := by
    apply Option.eq_none_iff_forall_ne_some.mpr
    intro data found
    obtain ⟨z, w, ⟨there, other⟩, same, -⟩ := (contents_kept laid inUse).mpr found
    obtain rfl := Nat.add_right_cancel same
    rcases fresh with rfl | fresh
    · exact other ⟨rfl, placed_unique (by decide) there.1 inUse.1⟩
    · exact fresh w there
  refine ⟨absent, BlockStore.eq_update_of_iff absent fun p data => ?_⟩
  rw [contents_exchange laid laid' exchange, contents_kept laid inUse]
  refine or_congr_left ⟨?_, ?_⟩
  · rintro ⟨z, w, ⟨rfl, rfl⟩, rfl, rfl⟩
    exact ⟨rfl, rfl⟩
  · rintro ⟨rfl, rfl⟩
    exact ⟨y, v, ⟨rfl, rfl⟩, rfl, rfl⟩

end Exchanges

end UserHeap

/-! ### Calls on a store of blocks -/

/-- No block, or a new one of `len` bytes or more. -/
def Allocates (len r : Nat) (s s' : BlockStore Byte) : Prop :=
  (r = 0 ∧ s' = s) ∨ (0 < r ∧ ∃ data, len ≤ data.length ∧ s.Added s' r data)

/-- No block, or a new one that begins with `len` zeros. -/
def Zeroes (len r : Nat) (s s' : BlockStore Byte) : Prop :=
  (r = 0 ∧ s' = s) ∨ (0 < r ∧ ∃ data, len ≤ data.length ∧ (∀ i < len, data[i]? = some 0) ∧
    s.Added s' r data)

/-- The last block at or below the address is given back, at least if the address is in its data. -/
def Frees (addr : Nat) (s s' : BlockStore Byte) : Prop :=
  (s' = s ∧ ∀ p data, s.block p = some data → ¬ (p ≤ addr ∧ addr < p + data.length)) ∨
  (∃ p data, s.block p = some data ∧ p ≤ addr ∧
    (∀ q data', s.block q = some data' → q ≤ addr → q ≤ p) ∧ s' = s.erase p)

/-- The block at `ptr` becomes one of `size` bytes or more that begins with the old data, or stays.
Where there is no block at `ptr` there may be a new one behind `r`. -/
def Reallocates (ptr size r : Nat) (s s' : BlockStore Byte) : Prop :=
  match s.block ptr with
  | none => s' = s ∨ ∃ data, s.Added s' r data
  | some old => (r = 0 ∧ s' = s) ∨ (0 < r ∧ ∃ data, size ≤ data.length ∧
      (∀ i, i < old.length → i < data.length → data[i]? = old[i]?) ∧ (s.erase ptr).Added s' r data)

/-- What an event may do to the blocks of the program. -/
def StoreStep {σ : Type} (s : BlockStore Byte) : HeapEvent σ → BlockStore Byte → Prop
  | .system _, s' => s' = s
  | .call .checkHeap r, s' => r = 0 ∧ s' = s
  | .call (.store addr bytes) r, s' => r = 0 ∧ s' = s.store addr bytes
  | .call (.malloc len) r, s' => Allocates len.toNat r s s'
  | .call (.calloc nmemb size) r, s' => Zeroes (uLong (nmemb.toNat * size.toNat)) r s s'
  | .call (.free addr) r, s' => r = 0 ∧ Frees addr.toNat s s'
  | .call (.realloc ptr size) r, s' =>
      if size = 0 then r = 0 ∧ Frees ptr.toNat s s'
      else if ptr = 0 then Allocates size.toNat r s s'
      else Reallocates ptr.toNat size.toNat r s s'

namespace UserHeap

section Calls

variable {σ : Type} {h h' k : UserHeap σ} {t u v : Tile} {left right ts ts' : List Tile}
  {sysBrk : BrkService σ} {backed : Nat → σ → Prop} {r : Nat}
  {R : BlockStore Byte → BlockStore Byte → Prop}

/-- A call leads to a well-formed heap, with blocks that are related to those of before, and
complains of wrong calls alone. -/
def Leads (wf : h.Wf backed ts) (h' : UserHeap σ) (R : BlockStore Byte → BlockStore Byte → Prop) :
    Prop :=
  ∃ ts', ∃ wf' : h'.Wf backed ts', R wf.blockStore wf'.blockStore ∧ h'.heapStart = h.heapStart ∧
    h.heapEnd ≤ h'.heapEnd ∧ ∃ more, h'.complaints = h.complaints ++ more ∧ ∀ c ∈ more, Misuse c

theorem Leads.of_exchange {gone come : Nat → Tile → Prop} (wf : h.Wf backed ts)
    (wf' : h'.Wf backed ts') (exchange : Exchange h h' ts ts' gone come)
    (related : R wf.blockStore wf'.blockStore) : Leads wf h' R :=
  ⟨ts', wf', related, exchange.start, exchange.grows, [],
    by rw [exchange.complaints, List.append_nil], by simp⟩

/-- A call that changes neither memory nor the heap leaves the blocks as they are. -/
theorem Leads.of_same (wf : h.Wf backed ts) (wf' : h'.Wf backed ts) (mem : h'.mem = h.mem)
    (start : h'.heapStart = h.heapStart) (grows : h'.heapEnd = h.heapEnd) {more : List Complaint}
    (complaints : h'.complaints = h.complaints ++ more) (misuse : ∀ c ∈ more, Misuse c)
    (related : R wf.blockStore wf.blockStore) : Leads wf h' R := by
  have same : wf'.blockStore = wf.blockStore := by
    ext p data
    show h'.contents p = some data ↔ h.contents p = some data
    rw [contents_eq_some wf'.laid, contents_eq_some wf.laid, mem, start]
  exact ⟨ts, wf', same ▸ related, start, Nat.le_of_eq grows.symm, more, complaints, misuse⟩

/-- A refused break. -/
theorem Leads.of_os {os' : σ} (wf : h.Wf backed ts) (held : BreakHeld backed { h with os := os' })
    (related : R wf.blockStore wf.blockStore) : Leads wf { h with os := os' } R := by
  have laid := wf.laid
  have laid' : Laid { h with os := os' } ts := ⟨laid.initialized, laid.low, laid.high, laid.ends,
    laid.some, laid.fits, laid.linking⟩
  exact Leads.of_same wf ⟨laid', wf.coalesced, wf.atBreak, held⟩ rfl rfl rfl
    (List.append_nil _).symm (by simp) related

/-- A taken tile is a new block. -/
theorem Taken.leads {len y : Nat} (wf : h.Wf backed ts) (taken : Taken backed h h' ts len y)
    (related : ∀ s' data, data.length = len → data = Bytes.read h'.mem (y + mblockSize) len →
      wf.blockStore.Added s' (y + mblockSize) data → R wf.blockStore s') : Leads wf h' R := by
  obtain ⟨place, fresh, ts', v, wf', used, -, exchange⟩ := taken
  have added := contents_come wf.laid wf'.laid exchange fresh
  exact Leads.of_exchange wf wf' exchange
    (related _ _ (by rw [Bytes.length_read, used]) (by rw [used]) added)

theorem malloc_leads {len : Nat} (wf : h.Wf backed ts) (serves : Serves sysBrk backed)
    (done : h.malloc sysBrk len = .ok (r, h')) : Leads wf h' (Allocates len r) := by
  by_cases small : len < 0x80000000
  · rcases malloc_spec wf serves small with
      ⟨stop, -⟩ | ⟨os', answer, held, -, -⟩ | ⟨k, y, answer, taken, -⟩
    · rw [stop] at done
      cases done
    · rw [answer] at done
      cases done
      exact Leads.of_os wf held (Or.inl ⟨rfl, rfl⟩)
    · rw [answer] at done
      cases done
      have enough := (needed_spec small).1
      have place := taken.place
      refine taken.leads wf fun s' data length _ added => Or.inr ⟨by omega, data, by omega, added⟩
  · rw [malloc, if_pos (Nat.le_of_not_lt small)] at done
    cases done
    exact Leads.of_os wf wf.held (Or.inl ⟨rfl, rfl⟩)

theorem calloc_leads {nmemb size : Nat} (wf : h.Wf backed ts) (serves : Serves sysBrk backed)
    (done : h.calloc sysBrk nmemb size = .ok (r, h')) :
    Leads wf h' (Zeroes (uLong (nmemb * size)) r) := by
  rcases calloc_spec wf serves with
    stop | ⟨os', answer, held⟩ | ⟨k, y, answer, taken, small, zeros⟩
  · rw [stop] at done
    cases done
  · rw [answer] at done
    cases done
    exact Leads.of_os wf held (Or.inl ⟨rfl, rfl⟩)
  · rw [answer] at done
    cases done
    have enough := (needed_spec small).1
    have place := taken.place
    refine taken.leads wf fun s' data length holds added =>
      Or.inr ⟨by omega, data, by omega, fun i below => ?_, added⟩
    rw [holds, Bytes.getElem?_read (by omega), zeros i below]

/-- Nothing but complaints. -/
theorem Leads.of_complain {more : List Complaint} (wf : h.Wf backed ts)
    (misuse : ∀ c ∈ more, Misuse c) (related : R wf.blockStore wf.blockStore) :
    Leads wf (h.complain more) R :=
  Leads.of_same wf (wf.complain more) rfl rfl rfl rfl misuse related

theorem free_leads {addr : Nat} (wf : h.Wf backed ts)
    (done : h.free sysBrk addr = .ok h') : Leads wf h' (Frees addr) := by
  rcases @free_spec σ h ts sysBrk backed wf addr with
    ⟨more, answer, misuse, none⟩ | ⟨x, t, k, ts', answer, inUse, here, wf', exchange⟩
  · rw [answer] at done
    cases done
    refine Leads.of_complain wf misuse (Or.inl ⟨rfl, fun p data found inside => ?_⟩)
    obtain ⟨x, t, inUse, rfl, rfl⟩ := (contents_eq_some wf.laid).mp found
    have fits := wf.laid.fits t (mem_of_placed inUse.1)
    rw [Bytes.length_read] at inside
    exact none x t inUse ⟨inside.1, by omega⟩
  · rw [answer] at done
    cases done
    have gone := contents_gone wf.laid wf'.laid inUse exchange
    refine Leads.of_exchange wf wf' exchange (Or.inr ⟨x + mblockSize, _,
      (contents_eq_some wf.laid).mpr ⟨x, t, inUse, rfl, rfl⟩, here.1, ?_, BlockStore.ext gone⟩)
    intro q data' found below
    obtain ⟨z, w, there, rfl, rfl⟩ := (contents_eq_some wf.laid).mp found
    have high := here.2
    rcases placed_apart inUse.1 there.1 with same | before | after
    · rw [same.1]
    · omega
    · omega

theorem realloc_leads {ptr size : Nat} (wf : h.Wf backed ts) (serves : Serves sysBrk backed)
    (given : ptr ≠ 0) (positive : 0 < size) (done : h.realloc sysBrk ptr size = .ok (r, h')) :
    Leads wf h' (Reallocates ptr size r) := by
  rcases realloc_spec wf serves given positive with
    stop | ⟨os', answer, held⟩ | ⟨k, x, t, y, answer, rfl, inUse, resized⟩ |
      ⟨k, r', answer, strayed, none⟩
  · rw [stop] at done
    cases done
  · rw [answer] at done
    cases done
    refine Leads.of_os wf held ?_
    unfold Reallocates
    split
    · exact Or.inl rfl
    · exact Or.inl ⟨rfl, rfl⟩
  · rw [answer] at done
    cases done
    obtain ⟨place, fresh, ts', v, wf', enough, exchange, keeps⟩ := resized
    have found : wf.blockStore.block (x + mblockSize) =
        some (Bytes.read h.mem (x + mblockSize) t.used) :=
      (contents_eq_some wf.laid).mpr ⟨x, t, inUse, rfl, rfl⟩
    have moved := contents_moved wf.laid wf'.laid inUse exchange fresh
    refine Leads.of_exchange wf wf' exchange ?_
    unfold Reallocates
    rw [found]
    refine Or.inr ⟨by omega, _, ?_, ?_, moved⟩
    · rw [Bytes.length_read]
      exact enough
    · intro i below below'
      rw [Bytes.length_read] at below below'
      rw [Bytes.getElem?_read below', Bytes.getElem?_read below, keeps inUse.2 i below below']
  · rw [answer] at done
    cases done
    obtain ⟨k, ts', more, come, rfl, misuse, wf', exchange, outcome⟩ := strayed
    have absent : wf.blockStore.block ptr = Option.none := by
      apply Option.eq_none_iff_forall_ne_some.mpr
      intro data found
      obtain ⟨x, t, inUse, same, -⟩ := (contents_eq_some wf.laid).mp found
      exact none x t inUse same
    refine ⟨ts', wf'.complain more, ?_, exchange.start, exchange.grows, more, ?_, misuse⟩
    · unfold Reallocates
      rw [absent]
      have same : (wf'.complain more).blockStore = wf'.blockStore := by
        ext p data
        show (k.complain more).contents p = some data ↔ k.contents p = some data
        rw [contents_eq_some (wf'.complain more).laid, contents_eq_some wf'.laid]
        rfl
      rw [same]
      rcases outcome with rfl | ⟨y, v, rfl, rfl, -, -, fresh⟩
      · exact Or.inl (BlockStore.ext (contents_same wf.laid wf'.laid exchange))
      · exact Or.inr ⟨_, contents_come wf.laid wf'.laid exchange fresh⟩
    · exact congrArg (· ++ more) exchange.complaints

/-- A write that is read back over a range. -/
theorem read_write_overwrite (f : Nat → Byte) (addr p n : Nat) (bytes : List Byte) :
    Bytes.read (Bytes.write f addr bytes) p n =
      BlockStore.overwrite p (Bytes.read f p n) addr bytes := by
  apply List.ext_getElem (by simp)
  intro i inside inside'
  rw [Bytes.length_read] at inside
  simp only [BlockStore.overwrite, Bytes.read, List.getElem_mapIdx, List.getElem_map,
    List.getElem_range, Bytes.write]
  by_cases reached : addr ≤ p + i
  · by_cases covered : p + i < addr + bytes.length
    · have present : p + i - addr < bytes.length := by omega
      simp [reached, covered, present]
    · have beyond : bytes.length ≤ p + i - addr := by omega
      simp [reached, covered, beyond]
  · simp [reached]

theorem store_leads {addr : Nat} {bytes : List Byte} (wf : h.Wf backed ts)
    (wf' : Wf backed { h with mem := Bytes.write h.mem addr bytes } ts) :
    Leads wf { h with mem := Bytes.write h.mem addr bytes } fun s s' =>
      s' = s.store addr bytes := by
  refine ⟨ts, wf', ?_, rfl, Nat.le_refl _, [], (List.append_nil _).symm, by simp⟩
  ext p data
  show contents { h with mem := Bytes.write h.mem addr bytes } p = some data ↔
    (h.contents p).map (fun old => BlockStore.overwrite p old addr bytes) = some data
  rw [contents_eq_some wf'.laid, Option.map_eq_some_iff]
  constructor
  · rintro ⟨x, t, inUse, rfl, rfl⟩
    exact ⟨_, (contents_eq_some wf.laid).mpr ⟨x, t, inUse, rfl, rfl⟩,
      (read_write_overwrite _ _ _ _ _).symm⟩
  · rintro ⟨old, found, rfl⟩
    obtain ⟨x, t, inUse, rfl, rfl⟩ := (contents_eq_some wf.laid).mp found
    exact ⟨x, t, inUse, rfl, (read_write_overwrite _ _ _ _ _).symm⟩

/-- `helper_check_heap` finds nothing. -/
theorem helperCheckHeap_eq (laid : h.Laid ts) : h.helperCheckHeap sysBrk = .ok h := by
  have walked := @Laid.checkFrom_eq σ h [] ts h.walkFuel laid laid.length_le
  rw [span_nil, Nat.add_zero, firstBlock_eq laid] at walked
  unfold helperCheckHeap
  rw [ensureInitialized_eq laid]
  exact walked

/-- What was backed is backed. -/
def Keeps (backed : Nat → σ → Prop) (os os' : σ) : Prop := ∀ addr, backed addr os → backed addr os'

/-- A program stores into its blocks, or outside the heap; the machine below makes the changes it
may make. -/
def Disciplined (changes : σ → σ → Prop) (h : UserHeap σ) : HeapEvent σ → Prop
  | .call (.store addr bytes) _ => (addr + bytes.length ≤ h.heapStart ∨ h.heapEnd ≤ addr) ∨
      ∃ p data, h.contents p = some data ∧ p ≤ addr ∧ addr + bytes.length ≤ p + data.length
  | .call _ _ => True
  | .system os' => changes h.os os'

/-- A call that returns nothing. -/
theorem returns_zero {result : Except HeapStop (UserHeap σ)}
    (done : (do return (0, ← result) : Except HeapStop (Nat × UserHeap σ)) = .ok (r, h')) :
    r = 0 ∧ result = .ok h' := by
  cases result with
  | error stop => cases done
  | ok h'' =>
      cases done
      exact ⟨rfl, rfl⟩

/-- Every event of a disciplined program is a step of the store of blocks. -/
theorem step_leads {e : HeapEvent σ} (wf : h.Wf backed ts) (serves : Serves sysBrk backed)
    (disciplined : Disciplined (Keeps backed) h e) (step : HeapStep sysBrk h e h') :
    Leads wf h' fun s s' => StoreStep s e s' := by
  cases step with
  | @system os' =>
      exact Leads.of_os wf ⟨wf.held.region, disciplined _ wf.held.backed⟩ rfl
  | @call _ c r done =>
      cases c with
      | malloc len => exact malloc_leads wf serves done
      | calloc nmemb size => exact calloc_leads wf serves done
      | free addr =>
          obtain ⟨rfl, freed⟩ := returns_zero done
          obtain ⟨ts', wf', related, rest⟩ := free_leads wf freed
          exact ⟨ts', wf', ⟨rfl, related⟩, rest⟩
      | checkHeap =>
          obtain ⟨rfl, checked⟩ := returns_zero done
          rw [helperCheckHeap_eq wf.laid] at checked
          cases checked
          exact Leads.of_os wf wf.held ⟨rfl, rfl⟩
      | store addr bytes =>
          cases done
          have wf' : Wf backed { h with mem := Bytes.write h.mem addr bytes } ts := by
            rcases disciplined with outside | ⟨p, data, found, low, high⟩
            · exact wf.store_outside outside
            · obtain ⟨x, t, inUse, rfl, rfl⟩ := (contents_eq_some wf.laid).mp found
              have fits := wf.laid.fits t (mem_of_placed inUse.1)
              rw [Bytes.length_read] at high
              exact wf.store_inside inUse.1 low (by omega)
          obtain ⟨ts', wf'', related, rest⟩ := store_leads wf wf'
          exact ⟨ts', wf'', ⟨rfl, related⟩, rest⟩
      | realloc ptr size =>
          have done : h.realloc sysBrk ptr.toNat size.toNat = .ok (r, h') := done
          by_cases nothing : size = 0
          · subst nothing
            obtain ⟨rfl, freed⟩ : r = 0 ∧ h.free sysBrk ptr.toNat = .ok h' := returns_zero done
            obtain ⟨ts', wf', related, rest⟩ := free_leads wf freed
            exact ⟨ts', wf', ⟨rfl, related⟩, rest⟩
          · have positive : size.toNat ≠ 0 := fun zero => nothing (BitVec.eq_of_toNat_eq zero)
            by_cases null : ptr = 0
            · subst null
              have taken : h.malloc sysBrk size.toNat = .ok (r, h') :=
                (if_pos rfl).symm.trans ((if_neg positive).symm.trans done)
              obtain ⟨ts', wf', related, rest⟩ := malloc_leads wf serves taken
              exact ⟨ts', wf',
                by simpa only [StoreStep, nothing, if_false, if_true] using related, rest⟩
            · have given : ptr.toNat ≠ 0 := fun zero => null (BitVec.eq_of_toNat_eq zero)
              obtain ⟨ts', wf', related, rest⟩ :=
                realloc_leads wf serves given (Nat.pos_of_ne_zero positive) done
              exact ⟨ts', wf',
                by simpa only [StoreStep, nothing, null, if_false] using related, rest⟩

end Calls

end UserHeap

end Yalnix
