/-
Module: Yalnix.Lib.Channel
Purpose: A buffer of fixed capacity between a source of items and the readers that wait for them,
  with the accounts of what went in and out: no item is lost, repeated or reordered, and readers are
  served in the order they blocked.
Trusted boundary: none
Main exports: Channel, Channel.receive, Channel.take, Channel.block, Channel.serve,
  Channel.Accounted
-/
import Mathlib.Data.List.Basic
import Mathlib.Tactic.Common

/-- The first `len` entries of `buffer` wait to be taken; `received`, `taken`, `blocked` and
`served` record what happened, oldest first. -/
@[ext] structure Channel (α ρ : Type*) where
  buffer : List α
  len : Nat
  waiting : List ρ
  received : List α
  taken : List α
  blocked : List ρ
  served : List ρ

namespace Channel

variable {α ρ : Type*} {capacity n : Nat} {c : Channel α ρ} {data : List α} {reader : ρ}
  {rest : List ρ}

/-- The items that wait in the buffer. -/
def unread (c : Channel α ρ) : List α := c.buffer.take c.len

/-- New items are stored behind those that wait. -/
def receive (c : Channel α ρ) (data : List α) : Channel α ρ :=
  { c with
    buffer := c.buffer.take c.len ++ data ++ c.buffer.drop (c.len + data.length)
    len := c.len + data.length
    received := c.received ++ data }

/-- The first `n` items leave the buffer, and those behind them move down. -/
def take (c : Channel α ρ) (n : Nat) : Channel α ρ :=
  { c with
    buffer := (c.buffer.drop n).take (c.len - n) ++ c.buffer.drop (c.len - n)
    len := c.len - n
    taken := c.taken ++ c.buffer.take n }

/-- A reader blocks, if there is room in the queue. -/
def block (c : Channel α ρ) (reader : ρ) (kept : Bool) : Channel α ρ :=
  { c with
    waiting := if kept then c.waiting ++ [reader] else c.waiting
    blocked := if kept then c.blocked ++ [reader] else c.blocked }

/-- A reader leaves the queue, and `rest` stay. -/
def serve (c : Channel α ρ) (reader : ρ) (rest : List ρ) : Channel α ρ :=
  { c with
    waiting := rest
    served := c.served ++ [reader] }

/-- The accounts are balanced. -/
structure Accounted (capacity : Nat) (c : Channel α ρ) : Prop where
  size : c.buffer.length = capacity
  bound : c.len ≤ capacity
  stream : c.taken ++ c.unread = c.received
  order : c.served ++ c.waiting = c.blocked

namespace Accounted

theorem receive (balanced : Accounted capacity c) (fits : data.length ≤ capacity - c.len) :
    Accounted capacity (c.receive data) where
  size := by
    have size := balanced.size
    have bound := balanced.bound
    simp only [Channel.receive, List.length_append, List.length_take, List.length_drop]
    omega
  bound := by
    have bound := balanced.bound
    simp only [Channel.receive]
    omega
  stream := by
    have full : (c.buffer.take c.len ++ data).length = c.len + data.length := by
      have size := balanced.size
      have bound := balanced.bound
      simp only [List.length_append, List.length_take]
      omega
    have unread : (c.receive data).unread = c.unread ++ data := by
      simp only [Channel.receive, Channel.unread]
      rw [← full, List.take_left]
    rw [unread, ← List.append_assoc]
    exact congrArg (fun items => items ++ data) balanced.stream
  order := balanced.order

theorem take (balanced : Accounted capacity c) (some : n ≤ c.len) :
    Accounted capacity (c.take n) where
  size := by
    have size := balanced.size
    have bound := balanced.bound
    simp only [Channel.take, List.length_append, List.length_take, List.length_drop]
    omega
  bound := by
    have bound := balanced.bound
    simp only [Channel.take]
    omega
  stream := by
    have long : ((c.buffer.drop n).take (c.len - n)).length = c.len - n := by
      have size := balanced.size
      have bound := balanced.bound
      simp only [List.length_take, List.length_drop]
      omega
    have unread : (c.take n).unread = c.unread.drop n := by
      simp only [Channel.take, Channel.unread]
      rw [List.take_append_of_le_length (by omega), List.take_of_length_le (by omega),
        List.drop_take]
    have front : c.unread.take n = c.buffer.take n := by
      rw [Channel.unread, List.take_take, Nat.min_eq_left some]
    have whole : (c.take n).taken ++ (c.take n).unread = c.taken ++ c.unread := by
      rw [unread]
      simp only [Channel.take]
      rw [← front, List.append_assoc, List.take_append_drop]
    exact whole.trans balanced.stream
  order := balanced.order

theorem block (balanced : Accounted capacity c) (reader : ρ) (kept : Bool) :
    Accounted capacity (c.block reader kept) where
  size := balanced.size
  bound := balanced.bound
  stream := balanced.stream
  order := by
    cases kept with
    | false => exact balanced.order
    | true =>
        have appended : c.served ++ (c.waiting ++ [reader]) = c.blocked ++ [reader] := by
          rw [← List.append_assoc, balanced.order]
        exact appended

theorem serve (balanced : Accounted capacity c) (head : c.waiting = reader :: rest) :
    Accounted capacity (c.serve reader rest) where
  size := balanced.size
  bound := balanced.bound
  stream := balanced.stream
  order := by
    have moved : c.served ++ [reader] ++ rest = c.blocked := by
      rw [List.append_assoc, List.singleton_append, ← head, balanced.order]
    exact moved

end Accounted

end Channel
