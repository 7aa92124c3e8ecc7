/-
Module: Yalnix.Lib.Bytes
Purpose: Byte-addressed contents: writing a range, numbers stored with their low byte first and
  strings that end in a zero byte, read back from the bytes that hold them.
Trusted boundary: none
Main exports: Bytes.read, Bytes.write, Bytes.littleEndian, Bytes.value_littleEndian, Bytes.long,
  Bytes.writeLong, Bytes.cString, Bytes.cString_of_read
-/
import Mathlib.Data.List.Basic
import Mathlib.Tactic.Ring

namespace Bytes

variable {f g : Nat → BitVec 8} {a n : Nat}

/-- The `n` bytes from address `a` on. -/
def read (f : Nat → BitVec 8) (a n : Nat) : List (BitVec 8) := (List.range n).map fun i => f (a + i)

theorem read_succ (f : Nat → BitVec 8) (a n : Nat) :
    read f a (n + 1) = f a :: read f (a + 1) n := by
  rw [read, List.range_succ_eq_map, List.map_cons, List.map_map]
  congr 1
  apply List.map_congr_left
  intro i _
  exact congrArg f (by omega)

/-- What is read depends on the bytes of the range. -/
theorem read_congr (same : ∀ b, a ≤ b → b < a + n → f b = g b) : read f a n = read g a n := by
  apply List.map_congr_left
  intro i member
  have inside := List.mem_range.mp member
  exact same (a + i) (Nat.le_add_right a i) (Nat.add_lt_add_left inside a)

/-- A range that holds `bytes` one by one. -/
theorem read_eq {bytes : List (BitVec 8)} (holds : ∀ i < bytes.length, f (a + i) = bytes.getD i 0) :
    read f a bytes.length = bytes := by
  induction bytes generalizing a with
  | nil => rfl
  | cons b rest inductionHypothesis =>
      have first : f a = b := holds 0 (Nat.zero_lt_succ _)
      have others : read f (a + 1) rest.length = rest := by
        apply inductionHypothesis
        intro i inside
        have next := holds (i + 1) (Nat.succ_lt_succ inside)
        rw [List.getD_cons_succ] at next
        rw [← next]
        congr 1
        omega
      rw [List.length_cons, read_succ, first, others]

@[simp] theorem length_read (f : Nat → BitVec 8) (a n : Nat) : (read f a n).length = n := by
  simp [read]

theorem getD_read {i : Nat} (inside : i < n) : (read f a n).getD i 0 = f (a + i) := by
  simp [read, inside]

theorem getElem?_read {i : Nat} (inside : i < n) : (read f a n)[i]? = some (f (a + i)) := by
  simp [read, inside]

/-! ### Writing -/

/-- The contents with `bytes` put from address `a` on. -/
def write (f : Nat → BitVec 8) (a : Nat) (bytes : List (BitVec 8)) : Nat → BitVec 8 := fun b =>
  if a ≤ b ∧ b < a + bytes.length then bytes.getD (b - a) 0 else f b

variable {bytes : List (BitVec 8)} {b : Nat}

theorem write_outside (outside : b < a ∨ a + bytes.length ≤ b) : write f a bytes b = f b :=
  if_neg (by omega)

theorem write_inside {i : Nat} (inside : i < bytes.length) :
    write f a bytes (a + i) = bytes.getD i 0 := by
  rw [write, if_pos ⟨Nat.le_add_right a i, Nat.add_lt_add_left inside a⟩, Nat.add_sub_cancel_left]

theorem read_write_self : read (write f a bytes) a bytes.length = bytes :=
  read_eq fun _ inside => write_inside inside

theorem read_write_apart (apart : b + n ≤ a ∨ a + bytes.length ≤ b) :
    read (write f a bytes) b n = read f b n :=
  read_congr fun _ _ _ => write_outside (by omega)

@[simp] theorem write_nil : write f a [] = f := by
  funext b
  exact write_outside (by simp only [List.length_nil]; omega)

/-- Writing what is there changes nothing. -/
theorem write_read : write f a (read f a n) = f := by
  funext b
  by_cases inside : a ≤ b ∧ b < a + n
  · obtain ⟨i, rfl⟩ := Nat.exists_eq_add_of_le inside.1
    rw [write_inside (by rw [length_read]; omega), getD_read (by omega)]
  · exact write_outside (by rw [length_read]; omega)

/-! ### Numbers -/

/-- The `n` low bytes of a number, the lowest first. -/
def littleEndian : Nat → Nat → List (BitVec 8)
  | 0, _ => []
  | n + 1, w => BitVec.ofNat 8 w :: littleEndian n (w / 256)

/-- The number that bytes stand for, the lowest first. -/
def value : List (BitVec 8) → Nat
  | [] => 0
  | b :: rest => b.toNat + 256 * value rest

theorem value_littleEndian (n w : Nat) : value (littleEndian n w) = w % 256 ^ n := by
  induction n generalizing w with
  | zero => rw [pow_zero, Nat.mod_one, littleEndian, value]
  | succ n inductionHypothesis =>
      have low : (BitVec.ofNat 8 w).toNat = w % 256 := BitVec.toNat_ofNat w 8
      rw [littleEndian, value, inductionHypothesis, low, pow_succ', Nat.mod_mul]

theorem length_littleEndian (n w : Nat) : (littleEndian n w).length = n := by
  induction n generalizing w with
  | zero => rfl
  | succ n inductionHypothesis => rw [littleEndian, List.length_cons, inductionHypothesis]

/-- The number of four bytes at `a`. -/
def long (f : Nat → BitVec 8) (a : Nat) : Nat := value (read f a 4)

/-- The contents with a number of four bytes put at `a`. -/
def writeLong (f : Nat → BitVec 8) (a w : Nat) : Nat → BitVec 8 := write f a (littleEndian 4 w)

theorem long_writeLong_self (f : Nat → BitVec 8) (a w : Nat) :
    long (writeLong f a w) a = w % 0x100000000 := by
  have stored : read (writeLong f a w) a 4 = littleEndian 4 w := by
    have whole : read (writeLong f a w) a (littleEndian 4 w).length = littleEndian 4 w :=
      read_write_self
    rwa [length_littleEndian] at whole
  rw [long, stored, value_littleEndian]
  norm_num

theorem long_writeLong_apart {w : Nat} (apart : b + 4 ≤ a ∨ a + 4 ≤ b) :
    long (writeLong f a w) b = long f b := by
  rw [long, writeLong, read_write_apart (by rw [length_littleEndian]; exact apart), long]

theorem writeLong_outside {w : Nat} (outside : b < a ∨ a + 4 ≤ b) :
    writeLong f a w b = f b :=
  write_outside (by rw [length_littleEndian]; exact outside)

theorem long_congr (same : ∀ b, a ≤ b → b < a + 4 → f b = g b) : long f a = long g a := by
  rw [long, read_congr same, long]

/-! ### Strings -/

/-- The string at `a`, up to its zero byte, which is looked for among the next `fuel` bytes. -/
def cString (f : Nat → BitVec 8) : Nat → Nat → Option (List (BitVec 8))
  | 0, _ => none
  | fuel + 1, a => if f a = 0 then some [] else (cString f fuel (a + 1)).map (f a :: ·)

/-- A string without a zero byte is found where its bytes and the terminator are. -/
theorem cString_of_read {fuel : Nat} {s : List (BitVec 8)} (proper : 0 ∉ s)
    (bound : s.length < fuel) (holds : read f a (s.length + 1) = s ++ [0]) :
    cString f fuel a = some s := by
  induction s generalizing a fuel with
  | nil =>
      rcases fuel with _ | fuel
      · cases bound
      · rw [List.length_nil, read_succ, List.nil_append] at holds
        have terminator : f a = 0 := (List.cons.inj holds).1
        rw [cString, if_pos terminator]
  | cons b rest inductionHypothesis =>
      rcases fuel with _ | fuel
      · cases bound
      · rw [List.length_cons, read_succ, List.cons_append] at holds
        obtain ⟨first, others⟩ := List.cons.inj holds
        have found := inductionHypothesis (fun zero => proper (List.mem_cons_of_mem _ zero))
          (Nat.lt_of_succ_lt_succ bound) others
        have visible : f a ≠ 0 := by
          rw [first]
          rintro rfl
          exact proper List.mem_cons_self
        rw [cString, if_neg visible, found, first]
        rfl

end Bytes
