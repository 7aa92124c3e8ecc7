/-
Module: Yalnix.Proofs.UserMemory
Purpose: What the kernel writes to a user buffer is what the process reads there, and nothing but
  the frames of the buffer's pages changes.
Trusted boundary: none
Main exports: storeRange_bytesAt, storeUser_userBytes
-/
import Mathlib.Tactic.Set
import Yalnix.Proofs.Effects

namespace Yalnix

namespace Memory

variable {m m' : Memory} {pt : PageTable} {va n : Nat}

theorem mem_rangePages {i : Nat} (inside : i < n) :
    (va + i - vmem1Base) / pageSize ∈ rangePages va n := by
  have some : n ≠ 0 := Nat.ne_of_gt (Nat.lt_of_le_of_lt (Nat.zero_le i) inside)
  have first : (va - vmem1Base) / pageSize ≤ (va + i - vmem1Base) / pageSize :=
    Nat.div_le_div_right (Nat.sub_le_sub_right (Nat.le_add_right va i) _)
  have last : (va + i - vmem1Base) / pageSize ≤ (va + n - 1 - vmem1Base) / pageSize :=
    Nat.div_le_div_right (by omega)
  rw [rangePages, if_neg some, List.mem_range'_1]
  omega

/-- The pages of a range of region 1 are in the table. -/
theorem rangePages_lt (inside : va + n ≤ vmem1Limit) (low : vmem1Base ≤ va) :
    ∀ vpn ∈ rangePages va n, vpn < maxPtLen := by
  intro vpn member
  unfold rangePages at member
  split at member
  · cases member
  · simp only [List.mem_range'_1, pageSize, vmem1Base, vmem1Limit, maxPtLen] at member inside low ⊢
    omega

/-- An empty range meets no page. -/
theorem pos_of_mem_rangePages {vpn : Nat} (member : vpn ∈ rangePages va n) : 0 < n := by
  apply Nat.pos_of_ne_zero
  intro empty
  rw [rangePages, if_pos empty] at member
  cases member

/-- A write that goes through is empty or lies in region 1, on pages that may be written. -/
theorem storeFun_accessible {bytes : Nat → Byte} (h : m.storeFun pt va n bytes = .ok m') :
    (0 < n → vmem1Base ≤ va ∧ va + n ≤ vmem1Limit) ∧
      ∀ vpn ∈ rangePages va n, (pt vpn).writable = true := by
  unfold storeFun at h
  split at h
  · rename_i accessible
    simp only [Bool.and_eq_true, inRegion1, decide_eq_true_eq, List.all_eq_true] at accessible
    exact ⟨fun some => accessible.1.resolve_left (Nat.ne_of_gt some), accessible.2⟩
  · cases h

/-- In a range no longer than a page no two bytes share a frame and an offset. -/
theorem pageCovering_eq {i : Nat} (small : n ≤ pageSize) (low : vmem1Base ≤ va) (inside : i < n) :
    pageCovering pt va n (pt ((va + i - vmem1Base) / pageSize)).pfn
      ((va + i - vmem1Base) % pageSize) = some ((va + i - vmem1Base) / pageSize) := by
  have split := Nat.div_add_mod (va + i - vmem1Base) pageSize
  have offset := Nat.mod_lt (va + i - vmem1Base) (Nat.zero_lt_succ 0x1fff : 0 < pageSize)
  have member : (va + i - vmem1Base) / pageSize ∈ rangePages va n := mem_rangePages inside
  simp only [pageSize, vmem1Base] at split offset member small low ⊢
  set page := (va + i - 0x100000) / 0x2000
  set off := (va + i - 0x100000) % 0x2000
  unfold pageCovering
  rcases found : (rangePages va n).reverse.find? fun vpn =>
      decide ((pt vpn).pfn = (pt page).pfn ∧ off < pageSize ∧
        va ≤ vmem1Base + vpn * pageSize + off ∧ vmem1Base + vpn * pageSize + off < va + n) with
    _ | vpn
  · rw [List.find?_eq_none] at found
    have fits := found page (List.mem_reverse.mpr member)
    simp only [pageSize, vmem1Base, decide_eq_true_eq, true_and] at fits
    omega
  · have accepted := (List.find?_eq_some_iff_append.mp found).1
    have fits := of_decide_eq_true accepted
    simp only [pageSize, vmem1Base] at fits
    have same : vpn = page := by omega
    rw [same]

/-- A list of bytes that fits in a page is read back as it was written. -/
theorem storeRange_bytesAt {bytes : List Byte} (small : bytes.length ≤ pageSize)
    (h : m.storeRange pt va bytes = .ok m') : m'.bytesAt pt va bytes.length = bytes := by
  unfold storeRange storeFun at h
  split at h
  · rename_i accessible
    cases h
    apply List.ext_getElem
    · simp [bytesAt]
    · intro i _ inside
      have low : vmem1Base ≤ va := by
        simp only [Bool.and_eq_true, inRegion1, decide_eq_true_eq] at accessible
        exact (accessible.1.resolve_left (by omega)).1
      have split := Nat.div_add_mod (va + i - vmem1Base) pageSize
      simp only [bytesAt, List.getElem_map, List.getElem_range, byteAt,
        pageCovering_eq small low inside]
      have index : vmem1Base + (va + i - vmem1Base) / pageSize * pageSize +
          (va + i - vmem1Base) % pageSize - va = i := by
        simp only [pageSize, vmem1Base] at split low ⊢
        omega
      rw [index]
      simp [List.getD_eq_getElem?_getD, inside]
  · cases h

end Memory

namespace Kernel

variable {s s' : Kernel}

/-- The process finds at `va` what the kernel wrote there through its table. -/
theorem storeUser_userBytes {va : Word} {bytes : List Byte} (small : bytes.length ≤ pageSize)
    (h : s.storeUser va bytes = .ok s') : s'.userBytes s.ptbr1 va bytes.length = bytes := by
  obtain ⟨b, m, live, stored, rfl⟩ := storeUser_eq_ok.mp h
  have found : (s.setMem m).heap s.ptbr1 = some b := live
  simp only [userBytes, found, setMem_mem]
  exact Memory.storeRange_bytesAt small stored

/-- What a process reads depends on its table and on memory. -/
theorem userBytes_congr {p : PcbPtr} {va : Word} {n : Nat} (mem : s'.mem = s.mem)
    (table : (s'.heap p).map PCB.ptbr = (s.heap p).map PCB.ptbr) :
    s'.userBytes p va n = s.userBytes p va n := by
  unfold userBytes
  rw [mem]
  rcases left : s'.heap p with _ | b'
  · rcases right : s.heap p with _ | b
    · rfl
    · simp [left, right] at table
  · rcases right : s.heap p with _ | b
    · simp [left, right] at table
    · simp only [left, right, Option.map_some, Option.some.injEq] at table
      exact congrArg (fun pt => s.mem.bytesAt pt va.toNat n) table

end Kernel

end Yalnix
