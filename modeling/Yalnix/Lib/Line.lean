/-
Module: Yalnix.Lib.Line
Purpose: A device that serves jobs in the order they were asked for, each of them in chunks of
  bounded size, and is given a chunk only when it is through with the one before: what was sent is
  a prefix of the jobs, one after the other.
Trusted boundary: none
Main exports: Record.Each, Line, Line.ask, Line.start, Line.next, Line.finish, Line.Ordered,
  Line.Accounted
-/
import Mathlib.Data.List.Infix
import Mathlib.Tactic.Common

/-! ### Records -/

namespace Record

variable {ε : Type*} {P : List ε → ε → Prop} {record : List ε} {e : ε}

/-- Each entry of a record is as `P` says, given the entries before it. -/
def Each (P : List ε → ε → Prop) (record : List ε) : Prop :=
  ∀ before e after, record = before ++ e :: after → P before e

theorem each_nil : Each P [] := by
  intro before e after split
  have long := congrArg List.length split
  simp at long

/-- A record grows by an entry that is as it should be. -/
theorem Each.snoc (each : Each P record) (last : P record e) : Each P (record ++ [e]) := by
  intro before e' after split
  rcases List.eq_nil_or_concat after with rfl | ⟨front, x, rfl⟩
  · obtain ⟨rfl, same⟩ := List.append_inj' split rfl
    cases same
    exact last
  · rw [List.concat_eq_append, ← List.cons_append, ← List.append_assoc] at split
    exact each before e' front (List.append_inj' split rfl).1

end Record

/-! ### Lines -/

namespace Line

/-- Nobody is being served; a client was told that it is its turn; or the first items of its job
were sent. -/
inductive Turn where
  | free
  | handed
  | sending (position : Nat)
deriving DecidableEq

/-- What passes between the clients and the device. -/
inductive Signal (α : Type*) where
  | sent (chunk : List α)
  | through

variable {α : Type*}

/-- The items that a signal carries. -/
def Signal.items : Signal α → List α
  | .sent chunk => chunk
  | .through => []

def Signal.isSent : Signal α → Bool
  | .sent _ => true
  | .through => false

def Signal.isThrough : Signal α → Bool
  | .sent _ => false
  | .through => true

/-- The chunks that were sent, and those that the device is through with. -/
def Balanced (signals : List (Signal α)) (owed : Nat) : Prop :=
  signals.countP Signal.isSent = signals.countP Signal.isThrough + owed

namespace Balanced

variable {signals : List (Signal α)} {owed : Nat}

theorem sent (balanced : Balanced signals owed) (chunk : List α) :
    Balanced (signals ++ [.sent chunk]) (owed + 1) := by
  have before : signals.countP Signal.isSent = signals.countP Signal.isThrough + owed := balanced
  simp only [Balanced, List.countP_append, List.countP_singleton, Signal.isSent,
    Signal.isThrough, if_true, Bool.false_eq_true, if_false]
  omega

theorem through (balanced : Balanced signals (owed + 1)) :
    Balanced (signals ++ [.through]) owed := by
  have before : signals.countP Signal.isSent = signals.countP Signal.isThrough + (owed + 1) :=
    balanced
  simp only [Balanced, List.countP_append, List.countP_singleton, Signal.isSent,
    Signal.isThrough, if_true, Bool.false_eq_true, if_false]
  omega

end Balanced

/-- How many chunks the device is busy with. -/
def Turn.owed : Turn → Nat
  | .free | .handed => 0
  | .sending _ => 1

end Line

/-- The jobs in the order they were asked for, with their clients; how many of them are through;
what happens to the next one; and the signals so far. -/
structure Line (ι α : Type*) where
  asked : List (ι × List α)
  served : Nat
  turn : Line.Turn
  signals : List (Line.Signal α)

namespace Line

open Record

variable {ι α : Type*} {limit position : Nat} {l : Line ι α} {job : ι × List α}

/-- The items that were sent. -/
def sent (l : Line ι α) : List α := l.signals.flatMap Signal.items

/-- The job that is being served, or is next. -/
def current (l : Line ι α) : Option (ι × List α) := l.asked[l.served]?

/-- The clients that wait behind it. -/
def waiting (l : Line ι α) : List ι := (l.asked.drop (l.served + 1)).map Prod.fst

/-- The part of the current job that was sent. -/
def part (l : Line ι α) : List α :=
  match l.turn with
  | .sending position => (l.current.elim [] Prod.snd).take position
  | .free | .handed => []

/-- A client asks for a job. -/
def ask (l : Line ι α) (job : ι × List α) : Line ι α := { l with asked := l.asked ++ [job] }

/-- The first chunk of a job is sent. -/
def start (l : Line ι α) (limit : Nat) (items : List α) : Line ι α :=
  { l with
    turn := .sending (min limit items.length)
    signals := l.signals ++ [.sent (items.take (min limit items.length))] }

/-- The device is through with a chunk and gets the next one. -/
def next (l : Line ι α) (limit : Nat) (items : List α) (position : Nat) : Line ι α :=
  { l with
    turn := .sending (position + min limit (items.length - position))
    signals := l.signals ++ [.through] ++
      [.sent ((items.drop position).take (min limit (items.length - position)))] }

/-- The device is through with a job, and the next client gets its turn. -/
def finish (l : Line ι α) : Line ι α :=
  { l with
    served := l.served + 1
    turn := if l.served + 1 < l.asked.length then .handed else .free
    signals := l.signals ++ [.through] }

/-- A line before anything happens. -/
def idle : Line ι α := ⟨[], 0, .free, []⟩

/-! ### The order of service -/

/-- The line is free exactly when all jobs are through. -/
structure Ordered (l : Line ι α) : Prop where
  room : l.served ≤ l.asked.length
  free : l.turn = .free ↔ l.served = l.asked.length

namespace Ordered

theorem idle : Ordered (Line.idle : Line ι α) := ⟨Nat.le_refl 0, by simp [Line.idle]⟩

theorem busy (ordered : l.Ordered) (turn : l.turn ≠ .free) : l.served < l.asked.length :=
  Nat.lt_of_le_of_ne ordered.room fun all => turn (ordered.free.mpr all)

/-- A client that finds the line busy waits. -/
theorem ask (ordered : l.Ordered) (turn : l.turn ≠ .free) : (l.ask job).Ordered := by
  have some := ordered.busy turn
  have long : (l.asked ++ [job]).length = l.asked.length + 1 := List.length_append
  refine ⟨by simp only [Line.ask]; omega, iff_of_false turn ?_⟩
  simp only [Line.ask]
  omega

/-- A client that finds the line free is served at once. -/
theorem begin (ordered : l.Ordered) (turn : l.turn = .free) (items : List α) :
    ((l.ask job).start limit items).Ordered := by
  have all := ordered.free.mp turn
  have long : (l.asked ++ [job]).length = l.asked.length + 1 := List.length_append
  refine ⟨by simp only [Line.ask, Line.start]; omega, iff_of_false (by simp [Line.start]) ?_⟩
  simp only [Line.ask, Line.start]
  omega

theorem start (ordered : l.Ordered) (turn : l.turn ≠ .free) (items : List α) :
    (l.start limit items).Ordered :=
  ⟨ordered.room, iff_of_false (by simp [Line.start]) (Nat.ne_of_lt (ordered.busy turn))⟩

theorem next (ordered : l.Ordered) (turn : l.turn ≠ .free) (items : List α) :
    (l.next limit items position).Ordered :=
  ⟨ordered.room, iff_of_false (by simp [Line.next]) (Nat.ne_of_lt (ordered.busy turn))⟩

theorem finish (ordered : l.Ordered) (turn : l.turn ≠ .free) : l.finish.Ordered := by
  have some := ordered.busy turn
  refine ⟨some, ?_⟩
  simp only [Line.finish]
  split
  · exact iff_of_false (by simp) (by omega)
  · exact iff_of_true rfl (by omega)

end Ordered

theorem waiting_ask (some : l.served < l.asked.length) :
    (l.ask job).waiting = l.waiting ++ [job.1] := by
  simp only [waiting, ask]
  rw [List.drop_append_of_le_length (by omega), List.map_append]
  rfl

theorem waiting_eq_nil (all : l.asked.length ≤ l.served + 1) : l.waiting = [] := by
  rw [waiting, List.drop_eq_nil_of_le all]
  rfl

theorem waiting_isEmpty :
    l.waiting.isEmpty = !decide (l.served + 1 < l.asked.length) := by
  rw [Bool.eq_iff_iff, waiting, List.isEmpty_map, List.isEmpty_iff, List.drop_eq_nil_iff]
  simp

theorem waiting_finish : l.finish.waiting = l.waiting.tail := by
  simp only [waiting, finish]
  rw [← List.map_tail, List.tail_drop]

theorem finish_owed : l.finish.turn.owed = 0 := by
  simp only [finish]
  split
  · rfl
  · rfl

/-- A job behind the current one belongs to a client that waits. -/
theorem mem_waiting {k : Nat} (behind : l.served < k) (asked : l.asked[k]? = some job) :
    job.1 ∈ l.waiting := by
  obtain ⟨inside, rfl⟩ := List.getElem?_eq_some_iff.mp asked
  refine List.mem_map_of_mem (List.mem_iff_getElem.mpr ⟨k - (l.served + 1), ?_, ?_⟩)
  · rw [List.length_drop]
    omega
  · rw [List.getElem_drop]
    congr 1
    omega

/-! ### What was sent -/

/-- A chunk is neither empty nor too long, and the device is through with those before it. -/
def Serial (limit : Nat) (before : List (Signal α)) : Signal α → Prop
  | .sent chunk => 1 ≤ chunk.length ∧ chunk.length ≤ limit ∧
      Balanced before 0
  | .through => True

/-- The accounts of a line are balanced. -/
structure Accounted (limit : Nat) (l : Line ι α) : Prop where
  stream : l.sent = (l.asked.take l.served).flatMap Prod.snd ++ l.part
  position : ∀ position, l.turn = .sending position →
    ∃ job, l.current = some job ∧ position ≤ job.2.length
  owed : Balanced l.signals l.turn.owed
  serial : Each (Serial limit) l.signals

namespace Accounted

theorem idle : Accounted limit (Line.idle : Line ι α) where
  stream := rfl
  position position sending := by cases sending
  owed := rfl
  serial := each_nil

/-- A job that is asked for changes no other account. -/
theorem ask (balanced : Accounted limit l) (room : l.served ≤ l.asked.length) :
    Accounted limit (l.ask job) := by
  have kept : ∀ job', l.current = some job' → (l.ask job).current = some job' := by
    intro job' current
    obtain ⟨inside, -⟩ := List.getElem?_eq_some_iff.mp current
    exact (List.getElem?_append_left inside).trans current
  have part : (l.ask job).part = l.part := by
    cases sending : l.turn with
    | sending position =>
        obtain ⟨job', current, -⟩ := balanced.position position sending
        have same : (l.ask job).turn = .sending position := sending
        simp only [Line.part, sending, same, current, kept job' current]
    | free | handed =>
        have same : (l.ask job).turn = l.turn := rfl
        simp only [Line.part, same, sending]
  constructor
  case stream =>
    rw [part]
    simp only [Line.ask]
    rw [List.take_append_of_le_length room]
    exact balanced.stream
  case position =>
    intro position sending
    obtain ⟨job', current, inside⟩ := balanced.position position sending
    exact ⟨job', kept job' current, inside⟩
  case owed => exact balanced.owed
  case serial => exact balanced.serial

/-- The first chunk of the current job. -/
theorem start (balanced : Accounted limit l) (positive : 0 < limit)
    (unsent : ∀ position, l.turn ≠ .sending position) (current : l.current = some job)
    (nonempty : job.2 ≠ []) : Accounted limit (l.start limit job.2) := by
  have quiet : l.turn.owed = 0 ∧ l.part = [] := by
    cases turn : l.turn with
    | sending position => exact absurd turn (unsent position)
    | free | handed => simp only [Line.part, turn, Turn.owed, and_self]
  have long := List.length_pos_iff.mpr nonempty
  have settled : Balanced l.signals 0 := by
    rw [← quiet.1]
    exact balanced.owed
  constructor
  case stream =>
    have sent : (l.start limit job.2).sent = l.sent ++ job.2.take (min limit job.2.length) := by
      simp [Line.sent, Line.start, Signal.items]
    have started : (l.start limit job.2).part = job.2.take (min limit job.2.length) := by
      have same : (l.start limit job.2).current = some job := current
      simp only [Line.part, same]
      rfl
    rw [sent, started, balanced.stream, quiet.2, List.append_nil]
    rfl
  case position =>
    intro position sending
    cases sending
    exact ⟨job, current, Nat.min_le_right _ _⟩
  case owed => exact settled.sent _
  case serial =>
    refine balanced.serial.snoc ⟨?_, ?_, settled⟩
    · rw [List.length_take]
      omega
    · rw [List.length_take]
      omega

/-- The next chunk of the current job. -/
theorem next (balanced : Accounted limit l) (positive : 0 < limit)
    (sending : l.turn = .sending position) (current : l.current = some job)
    (left : position < job.2.length) : Accounted limit (l.next limit job.2 position) := by
  have owed : Balanced l.signals (0 + 1) := by
    have before := balanced.owed
    rw [sending] at before
    exact before
  constructor
  case stream =>
    have sent : (l.next limit job.2 position).sent = l.sent ++
        (job.2.drop position).take (min limit (job.2.length - position)) := by
      simp [Line.sent, Line.next, Signal.items]
    have before : l.part = job.2.take position := by
      simp only [Line.part, sending, current]
      rfl
    have after : (l.next limit job.2 position).part =
        job.2.take (position + min limit (job.2.length - position)) := by
      have same : (l.next limit job.2 position).current = some job := current
      simp only [Line.part, same]
      rfl
    rw [sent, after, balanced.stream, before, List.append_assoc, List.take_add]
    rfl
  case position =>
    intro later same
    cases same
    exact ⟨job, current, by omega⟩
  case owed => exact owed.through.sent _
  case serial =>
    have settled : Each (Serial limit) (l.signals ++ [.through]) := balanced.serial.snoc trivial
    refine settled.snoc ⟨?_, ?_, ?_⟩
    · rw [List.length_take, List.length_drop]
      omega
    · rw [List.length_take]
      omega
    · exact owed.through

/-- The current job was sent whole. -/
theorem finish (balanced : Accounted limit l) (sending : l.turn = .sending position)
    (current : l.current = some job) (through : job.2.length ≤ position) :
    Accounted limit l.finish := by
  have owed : Balanced l.signals (0 + 1) := by
    have before := balanced.owed
    rw [sending] at before
    exact before
  have quiet : l.finish.turn.owed = 0 := Line.finish_owed
  have unsent : l.finish.part = [] := by
    simp only [Line.part, Line.finish]
    split
    · rename_i clash
      split at clash
      · cases clash
      · cases clash
    · rfl
    · rfl
  constructor
  case stream =>
    have sent : l.finish.sent = l.sent := by
      simp [Line.sent, Line.finish, Signal.items]
    have whole : l.part = job.2 := by
      simp only [Line.part, sending, current]
      exact List.take_of_length_le through
    have taken : l.asked.take (l.served + 1) = l.asked.take l.served ++ [job] := by
      rw [List.take_add_one, show l.asked[l.served]? = some job from current]
      rfl
    rw [sent, unsent, balanced.stream, whole, List.append_nil]
    simp only [Line.finish, taken, List.flatMap_append, List.flatMap_singleton]
  case position =>
    intro later same
    rw [same] at quiet
    cases quiet
  case owed =>
    rw [quiet]
    exact owed.through
  case serial => exact balanced.serial.snoc trivial

/-- What was sent of the current job begins it. -/
theorem part_prefix (balanced : Accounted limit l) :
    l.part <+: (l.asked.drop l.served).flatMap Prod.snd := by
  cases sending : l.turn with
  | sending position =>
      obtain ⟨job, current, -⟩ := balanced.position position sending
      obtain ⟨inside, same⟩ := List.getElem?_eq_some_iff.mp current
      rw [List.drop_eq_getElem_cons inside, same, List.flatMap_cons]
      simp only [Line.part, sending, current]
      exact (List.take_prefix position job.2).trans (List.prefix_append _ _)
  | free =>
      simp only [Line.part, sending]
      exact List.nil_prefix
  | handed =>
      simp only [Line.part, sending]
      exact List.nil_prefix

/-- What was sent is a prefix of the jobs, one after the other. -/
theorem sent_prefix (balanced : Accounted limit l) : l.sent <+: l.asked.flatMap Prod.snd := by
  have split : l.asked.flatMap Prod.snd =
      (l.asked.take l.served).flatMap Prod.snd ++ (l.asked.drop l.served).flatMap Prod.snd := by
    rw [← List.flatMap_append, List.take_append_drop]
  rw [balanced.stream, split]
  exact (List.prefix_append_right_inj _).mpr balanced.part_prefix

/-- A job that is through was sent whole, and so were those before it. -/
theorem through_sent (balanced : Accounted limit l) {k : Nat} (through : k < l.served) :
    (l.asked.take (k + 1)).flatMap Prod.snd <+: l.sent := by
  have split : l.asked.take l.served =
      l.asked.take (k + 1) ++ (l.asked.take l.served).drop (k + 1) := by
    have front : (l.asked.take l.served).take (k + 1) = l.asked.take (k + 1) := by
      rw [List.take_take, Nat.min_eq_left through]
    rw [← front, List.take_append_drop]
  rw [balanced.stream, split, List.flatMap_append, List.append_assoc]
  exact List.prefix_append _ _

end Accounted

end Line
