/-
Module: Yalnix.Proofs.ArgumentStack
Purpose: The stack that LoadProgram builds for a new program, read back by the program: argc, argv
  with its strings, and the two null pointers.
Trusted boundary: none
Main exports: byteAt_storeFun, Laid, storeArgs_laid, StackDecodes, Kernel.stack_decodes
-/
import Yalnix.Lib.Bytes
import Yalnix.Proofs.AddressSpace
import Yalnix.Proofs.UserMemory

namespace Yalnix

open Memory

variable {m m' : Memory} {pt : PageTable} {va n a : Nat}

/-! ### Reading after a write -/

/-- When every mapped page has a frame of its own, a write through the table changes the bytes of
its range and leaves the other mapped bytes alone. -/
theorem byteAt_storeFun {bytes : Nat → Byte} (distinct : pt.DistinctFrames)
    (h : m.storeFun pt va n bytes = .ok m') (low : vmem1Base ≤ a) (high : a < vmem1Limit)
    (mapped : (pt ((a - vmem1Base) / pageSize)).valid = true) :
    m'.byteAt pt a = if va ≤ a ∧ a < va + n then bytes (a - va) else m.byteAt pt a := by
  obtain ⟨region, writable⟩ := storeFun_accessible h
  have offset := Nat.mod_lt (a - vmem1Base) (by decide : 0 < pageSize)
  have address : vmem1Base + (a - vmem1Base) / pageSize * pageSize + (a - vmem1Base) % pageSize =
      a := by
    have split := Nat.div_add_mod (a - vmem1Base) pageSize
    simp only [vmem1Base, pageSize] at *
    omega
  have inside : (a - vmem1Base) / pageSize < maxPtLen := by
    simp only [vmem1Base, vmem1Limit, pageSize, maxPtLen] at *
    omega
  unfold storeFun at h
  split at h
  · cases h
    simp only [byteAt]
    have page_of : ∀ {vpn}, vpn ∈ rangePages va n →
        (pt vpn).pfn = (pt ((a - vmem1Base) / pageSize)).pfn →
        vpn = (a - vmem1Base) / pageSize := by
      intro vpn member same
      obtain ⟨start, limit⟩ := region (pos_of_mem_rangePages member)
      have valid := (Bool.and_eq_true _ _ |>.mp (writable vpn member)).1
      exact distinct vpn (rangePages_lt limit start vpn member) _ inside valid mapped same
    rcases found : pageCovering pt va n (pt ((a - vmem1Base) / pageSize)).pfn
        ((a - vmem1Base) % pageSize) with _ | vpn
    · have outside : ¬ (va ≤ a ∧ a < va + n) := by
        rintro ⟨above, below⟩
        have member : (a - vmem1Base) / pageSize ∈ rangePages va n := by
          have member : (va + (a - va) - vmem1Base) / pageSize ∈ rangePages va n :=
            mem_rangePages (by omega)
          rwa [Nat.add_sub_cancel' above] at member
        rw [pageCovering, List.find?_eq_none] at found
        apply found _ (List.mem_reverse.mpr member)
        rw [decide_eq_true_eq, address]
        exact ⟨rfl, offset, above, below⟩
      rw [if_neg outside]
    · obtain ⟨accepted, before, after, order, -⟩ := List.find?_eq_some_iff_append.mp found
      obtain ⟨same, -, above, below⟩ := of_decide_eq_true accepted
      have member : vpn ∈ rangePages va n := by
        rw [← List.mem_reverse, order]
        exact List.mem_append_right _ List.mem_cons_self
      obtain rfl := page_of member same
      rw [address] at above below
      simp only
      rw [if_pos ⟨above, below⟩, address]
  · cases h

/-! ### Storing the argument list -/

/-- The addresses from `low` to the end of region 1 are mapped, each page on a frame of its own. -/
structure TopMapped (pt : PageTable) (low : Nat) : Prop where
  distinct : pt.DistinctFrames
  region : vmem1Base ≤ low
  mapped : ∀ a, low ≤ a → a < vmem1Limit → (pt ((a - vmem1Base) / pageSize)).valid = true

variable {low : Nat}

/-- There a list of bytes is read back, and everything else is as it was. -/
theorem TopMapped.store {bytes : List Byte} (top : TopMapped pt low) (above : low ≤ va)
    (h : m.storeRange pt va bytes = .ok m') :
    Bytes.read (m'.byteAt pt) va bytes.length = bytes ∧
      ∀ a, low ≤ a → a < vmem1Limit → a < va ∨ va + bytes.length ≤ a →
        m'.byteAt pt a = m.byteAt pt a := by
  obtain ⟨region, -⟩ := storeFun_accessible h
  have effect : ∀ a, low ≤ a → a < vmem1Limit → m'.byteAt pt a =
      if va ≤ a ∧ a < va + bytes.length then bytes.getD (a - va) 0 else m.byteAt pt a := by
    intro a from_low high
    exact byteAt_storeFun top.distinct h (Nat.le_trans top.region from_low) high
      (top.mapped a from_low high)
  constructor
  · apply Bytes.read_eq
    intro i inside
    have limit := (region (Nat.zero_lt_of_lt inside)).2
    rw [effect (va + i) (by omega) (by omega), if_pos ⟨by omega, by omega⟩,
      Nat.add_sub_cancel_left]
  · intro a from_low high outside
    rw [effect a from_low high, if_neg (by omega)]

theorem wordBytes_eq (w : Word) : wordBytes w = Bytes.littleEndian 4 w.toNat := by
  simp [wordBytes, Bytes.littleEndian, List.range_succ_eq_map, Nat.div_div_eq_div_mul]

/-- The pointers from `cpp` on name the strings, which lie one after the other from `cp` on. -/
def Laid (f : Nat → Byte) : List (List Byte) → Nat → Nat → Prop
  | [], _, _ => True
  | arg :: rest, cpp, cp =>
      Bytes.read f cpp 4 = Bytes.littleEndian 4 cp ∧
        Bytes.read f cp (arg.length + 1) = arg ++ [0] ∧
          Laid f rest (cpp + 4) (cp + (arg.length + 1))

theorem argBytes_cons (arg : List Byte) (rest : List (List Byte)) :
    argBytes (arg :: rest) = arg.length + 1 + argBytes rest := rfl

/-- The layout depends on the bytes of the pointers and of the strings. -/
theorem Laid.congr {f g : Nat → Byte} {args : List (List Byte)} {cpp cp : Nat}
    (laid : Laid g args cpp cp)
    (same : ∀ a, cpp ≤ a ∧ a < cpp + 4 * args.length ∨ cp ≤ a ∧ a < cp + argBytes args →
      f a = g a) : Laid f args cpp cp := by
  induction args generalizing cpp cp with
  | nil => trivial
  | cons arg rest inductionHypothesis =>
      obtain ⟨pointer, string, laid⟩ := laid
      simp only [argBytes_cons, List.length_cons] at same
      refine ⟨?_, ?_, inductionHypothesis laid ?_⟩
      · rw [← pointer]
        apply Bytes.read_congr
        intro a first last
        exact same a (Or.inl ⟨first, by omega⟩)
      · rw [← string]
        apply Bytes.read_congr
        intro a first last
        exact same a (Or.inr ⟨first, by omega⟩)
      · intro a inside
        exact same a (by omega)

theorem pointer_succ {cpp : Word} (below : cpp.toNat + 4 ≤ vmem1Limit) :
    (cpp + 4).toNat = cpp.toNat + 4 := by
  have four : (4 : Word).toNat = 4 := rfl
  rw [BitVec.toNat_add, four]
  simp only [vmem1Limit, Nat.reducePow] at below ⊢
  omega

/-- The first string of the buffer is the first argument, and the others lie behind its zero. -/
theorem saveArgs_cons {arg : List Byte} (rest : List (List Byte)) (proper : 0 ∉ arg) :
    (saveArgs (arg :: rest)).bytes.takeWhile (· ≠ 0) = arg ∧
      (saveArgs (arg :: rest)).bytes.drop (arg.length + 1) = (saveArgs rest).bytes := by
  have packed : (saveArgs (arg :: rest)).bytes = arg ++ 0 :: (saveArgs rest).bytes := by
    simp [saveArgs]
  have visible : ∀ byte ∈ arg, decide (byte ≠ 0) = true := by
    rintro byte member
    rw [decide_eq_true_iff]
    rintro rfl
    exact proper member
  rw [packed]
  constructor
  · rw [List.takeWhile_append_of_pos visible, List.takeWhile_cons_of_neg (by simp),
      List.append_nil]
  · rw [List.drop_append, List.drop_of_length_le (Nat.le_succ _), Nat.add_sub_cancel_left]
    rfl

/-- The loop lays the arguments out as they are packed in the buffer, and writes nowhere else. -/
theorem storeArgs_laid {args : List (List Byte)} {cpp cp cpp' : Word} (top : TopMapped pt low)
    (proper : ∀ arg ∈ args, 0 ∉ arg) (above : low ≤ cpp.toNat)
    (below : cpp.toNat + 4 * args.length ≤ cp.toNat)
    (limit : cp.toNat + argBytes args ≤ vmem1Limit)
    (h : storeArgs pt args.length (saveArgs args).bytes cpp cp m = .ok (cpp', m')) :
    cpp'.toNat = cpp.toNat + 4 * args.length ∧
      Laid (m'.byteAt pt) args cpp.toNat cp.toNat ∧
      ∀ a, low ≤ a → a < vmem1Limit → a < cpp.toNat ∨ cpp.toNat + 4 * args.length ≤ a →
        a < cp.toNat ∨ cp.toNat + argBytes args ≤ a → m'.byteAt pt a = m.byteAt pt a := by
  induction args generalizing cpp cp m with
  | nil =>
      cases h
      exact ⟨rfl, trivial, fun _ _ _ _ _ => rfl⟩
  | cons arg rest inductionHypothesis =>
      obtain ⟨isFirst, others⟩ := saveArgs_cons rest (proper arg List.mem_cons_self)
      simp only [List.length_cons, storeArgs, isFirst, others, bind_eq_ok] at h
      obtain ⟨m₁, pointer, m₂, string, h⟩ := h
      simp only [argBytes_cons, List.length_cons, vmem1Limit] at below limit ⊢
      have nextPointer : (cpp + 4).toNat = cpp.toNat + 4 :=
        pointer_succ (by simp only [vmem1Limit]; omega)
      have nextString : (cp + BitVec.ofNat 32 (arg.length + 1)).toNat =
          cp.toNat + (arg.length + 1) := by
        rw [BitVec.toNat_add, BitVec.toNat_ofNat]
        simp only [Nat.reducePow]
        omega
      obtain ⟨pointerHeld, pointerOthers⟩ := top.store above pointer
      obtain ⟨stringHeld, stringOthers⟩ := top.store (by omega) string
      obtain ⟨finish, laid, others⟩ := inductionHypothesis
        (fun arg member => proper arg (List.mem_cons_of_mem _ member)) (by omega) (by omega)
        (by rw [nextString]; simp only [vmem1Limit]; omega) h
      rw [nextPointer] at finish laid others
      rw [nextString] at laid others
      have width : (wordBytes cp).length = 4 := rfl
      simp only [List.length_append, List.length_singleton] at stringHeld stringOthers
      rw [width] at pointerHeld pointerOthers
      simp only [vmem1Limit] at pointerOthers stringOthers others
      refine ⟨by omega, ⟨?_, ?_, laid⟩, ?_⟩
      · -- the pointer survives the string and the rest of the loop
        rw [← wordBytes_eq, ← pointerHeld]
        apply Bytes.read_congr
        intro a first last
        rw [others a (by omega) (by omega) (by omega) (by omega),
          stringOthers a (by omega) (by omega) (by omega)]
      · rw [← stringHeld]
        apply Bytes.read_congr
        intro a first last
        exact others a (by omega) (by omega) (by omega) (by omega)
      · intro a from_low high notPointer notString
        rw [others a from_low high (by omega) (by omega),
          stringOthers a from_low high (by omega), pointerOthers a from_low high (by omega)]

/-! ### Reading it back -/

/-- The C string at an address. -/
def stringAt (m : Memory) (pt : PageTable) (a : Nat) : Option (List Byte) :=
  Bytes.cString (m.byteAt pt) (vmem1Limit - a) a

/-- The strings that the `n` pointers from an address on point to. -/
def vectorAt (m : Memory) (pt : PageTable) : Nat → Nat → Option (List (List Byte))
  | 0, _ => some []
  | n + 1, a => do
      let arg ← stringAt m pt (wordAt m pt a).toNat
      let rest ← vectorAt m pt n (a + 4)
      return arg :: rest

theorem wordAt_eq {w : Nat} (held : Bytes.read (m.byteAt pt) a 4 = Bytes.littleEndian 4 w) :
    wordAt m pt a = BitVec.ofNat 32 w := by
  have value : Bytes.value (m.bytesAt pt a 4) = w % 256 ^ 4 := by
    rw [← Bytes.value_littleEndian, ← held]
    rfl
  apply BitVec.eq_of_toNat_eq
  rw [wordAt, value, BitVec.toNat_ofNat, BitVec.toNat_ofNat]
  exact Nat.mod_mod ..

theorem wordAt_held {w : Word} (held : Bytes.read (m.byteAt pt) a 4 = wordBytes w) :
    wordAt m pt a = w := by
  rw [wordBytes_eq] at held
  rw [wordAt_eq held, BitVec.ofNat_toNat, BitVec.setWidth_eq]

section Decoding

variable {args : List (List Byte)} {cpp cp : Nat}

/-- A laid out vector is read as it was passed. -/
theorem Laid.decodes (laid : Laid (m.byteAt pt) args cpp cp) (proper : ∀ arg ∈ args, 0 ∉ arg)
    (limit : cp + argBytes args ≤ vmem1Limit) : vectorAt m pt args.length cpp = some args := by
  induction args generalizing cpp cp with
  | nil => rfl
  | cons arg rest inductionHypothesis =>
      obtain ⟨pointer, string, laid⟩ := laid
      rw [argBytes_cons] at limit
      have found : stringAt m pt (wordAt m pt cpp).toNat = some arg := by
        have address : (wordAt m pt cpp).toNat = cp := by
          rw [wordAt_eq pointer, BitVec.toNat_ofNat]
          simp only [vmem1Limit, Nat.reducePow] at limit ⊢
          omega
        rw [address]
        exact Bytes.cString_of_read (proper arg List.mem_cons_self) (by omega) string
      have others := inductionHypothesis laid
        (fun arg member => proper arg (List.mem_cons_of_mem _ member)) (by omega)
      simp only [List.length_cons, vectorAt, found, others]
      rfl

/-- Every pointer of a laid out vector points into the block of the strings, and its string ends
there. -/
theorem Laid.pointer {i : Nat} {arg : List Byte} (laid : Laid (m.byteAt pt) args cpp cp)
    (limit : cp + argBytes args ≤ vmem1Limit) (entry : args[i]? = some arg) :
    cp ≤ (wordAt m pt (cpp + 4 * i)).toNat ∧
      (wordAt m pt (cpp + 4 * i)).toNat + (arg.length + 1) ≤ cp + argBytes args := by
  induction args generalizing cpp cp i with
  | nil => cases entry
  | cons first rest inductionHypothesis =>
      obtain ⟨pointer, -, laid⟩ := laid
      rw [argBytes_cons] at limit ⊢
      rcases i with _ | i
      · obtain rfl := Option.some.inj entry
        rw [Nat.mul_zero, Nat.add_zero, wordAt_eq pointer, BitVec.toNat_ofNat]
        simp only [vmem1Limit, Nat.reducePow] at limit ⊢
        omega
      · have next : cpp + 4 * (i + 1) = cpp + 4 + 4 * i := by omega
        have inside := inductionHypothesis laid (by omega) entry
        rw [next]
        omega

end Decoding

/-- The stack at `sp` holds `argc`, the pointers to the strings, the null pointer that ends them and
the one of an empty environment, then the strings, all on the mapped pages of the stack. -/
structure StackDecodes (m : Memory) (pt : PageTable) (sp : Nat) (args : List (List Byte)) :
    Prop where
  argc : (wordAt m pt sp).toNat = args.length
  argv : vectorAt m pt args.length (sp + 4) = some args
  argvEnd : wordAt m pt (sp + 4 + 4 * args.length) = 0
  envpEnd : wordAt m pt (sp + 8 + 4 * args.length) = 0
  apart : ∀ i arg, args[i]? = some arg →
    sp + 12 + 4 * args.length ≤ (wordAt m pt (sp + 4 + 4 * i)).toNat ∧
      (wordAt m pt (sp + 4 + 4 * i)).toNat + (arg.length + 1) ≤ vmem1Limit
  room : sp + 12 + 4 * args.length ≤ vmem1Limit
  mapped : ∀ a, sp ≤ a → a < vmem1Limit → InStack args ((a - vmem1Base) / pageSize) ∧
    (pt ((a - vmem1Base) / pageSize)).readable = true ∧
    (pt ((a - vmem1Base) / pageSize)).writable = true

/-- The whole stack of a plan whose pointers lie below its strings. -/
theorem buildStack_laid {plan : LoadPlan} {args : List (List Byte)}
    (top : TopMapped pt plan.cpp.toNat) (proper : ∀ arg ∈ args, 0 ∉ arg)
    (below : plan.cpp.toNat + 12 + 4 * args.length ≤ plan.cp.toNat)
    (limit : plan.cp.toNat + argBytes args = vmem1Limit)
    (h : buildStack plan (saveArgs args) pt m = .ok m') :
    wordAt m' pt plan.cpp.toNat = BitVec.ofNat 32 args.length ∧
      Laid (m'.byteAt pt) args (plan.cpp.toNat + 4) plan.cp.toNat ∧
      wordAt m' pt (plan.cpp.toNat + 4 + 4 * args.length) = 0 ∧
      wordAt m' pt (plan.cpp.toNat + 8 + 4 * args.length) = 0 := by
  simp only [buildStack, bind_eq_ok] at h
  obtain ⟨m₁, -, m₂, argc, ⟨cpp, m₃⟩, vector, m₄, argvEnd, envpEnd⟩ := h
  simp only at argvEnd envpEnd
  have width : ∀ w, (wordBytes w).length = 4 := fun _ => rfl
  have first : (plan.cpp + 4).toNat = plan.cpp.toNat + 4 := pointer_succ (by omega)
  obtain ⟨argcHeld, -⟩ := top.store le_rfl argc
  obtain ⟨finish, laid, vectorOthers⟩ :=
    storeArgs_laid top proper (by omega) (by omega) (Nat.le_of_eq limit) vector
  rw [first] at finish laid vectorOthers
  have next : (cpp + 4).toNat = cpp.toNat + 4 := pointer_succ (by omega)
  obtain ⟨argvHeld, argvOthers⟩ := top.store (by omega) argvEnd
  obtain ⟨envpHeld, envpOthers⟩ := top.store (by omega) envpEnd
  simp only [width, next, finish] at argcHeld argvHeld envpHeld argvOthers envpOthers
  -- what the two null pointers leave alone
  have others : ∀ a, plan.cpp.toNat ≤ a → a < vmem1Limit →
      a < plan.cpp.toNat + 4 + 4 * args.length ∨ plan.cp.toNat ≤ a →
      m'.byteAt pt a = m₃.byteAt pt a := by
    intro a from_sp high outside
    rw [envpOthers a from_sp high (by omega), argvOthers a from_sp high (by omega)]
  refine ⟨?_, ?_, ?_, ?_⟩
  · apply wordAt_held
    refine Eq.trans ?_ argcHeld
    apply Bytes.read_congr
    intro a from_sp last
    rw [others a from_sp (by omega) (by omega),
      vectorOthers a from_sp (by omega) (by omega) (by omega)]
  · apply laid.congr
    intro a inside
    exact others a (by omega) (by omega) (by omega)
  · apply wordAt_held
    rw [← argvHeld]
    apply Bytes.read_congr
    intro a from_end last
    exact envpOthers a (by omega) (by omega) (by omega)
  · apply wordAt_held
    rw [← envpHeld]
    congr 1
    omega

/-! ### Reading the arguments -/

/-- A string that is read is the C string at its address. -/
theorem loadString_eq {arg : List Byte} (h : m.loadString pt n va = .ok arg) :
    Bytes.cString (m.byteAt pt) n va = some arg ∧ 0 ∉ arg := by
  induction n generalizing va arg with
  | zero => cases h
  | succ n inductionHypothesis =>
      simp only [loadString, bind_eq_ok] at h
      obtain ⟨-, -, h⟩ := h
      by_cases ends : m.byteAt pt va = 0
      · rw [if_pos ends] at h
        cases h
        exact ⟨if_pos ends, List.not_mem_nil⟩
      · rw [if_neg ends] at h
        simp only [bind_eq_ok, pure_eq_ok] at h
        obtain ⟨rest, others, rfl⟩ := h
        obtain ⟨found, proper⟩ := inductionHypothesis others
        refine ⟨?_, ?_⟩
        · rw [Bytes.cString, if_neg ends, found]
          rfl
        · rw [List.mem_cons, not_or]
          exact ⟨fun zero => ends zero.symm, proper⟩

/-- The strings that are read are those that the pointers point to, up to the first null pointer. -/
theorem loadVector_eq {args : List (List Byte)} (h : m.loadVector pt n va = .ok args) :
    vectorAt m pt args.length va = some args ∧ wordAt m pt (va + 4 * args.length) = 0 ∧
      ∀ arg ∈ args, 0 ∉ arg := by
  induction n generalizing va args with
  | zero => cases h
  | succ n inductionHypothesis =>
      simp only [loadVector, bind_eq_ok] at h
      obtain ⟨-, -, h⟩ := h
      by_cases ends : m.wordAt pt va = 0
      · rw [if_pos ends] at h
        cases h
        exact ⟨rfl, ends, fun _ => (List.not_mem_nil · |>.elim)⟩
      · rw [if_neg ends] at h
        simp only [bind_eq_ok, pure_eq_ok] at h
        obtain ⟨arg, string, rest, others, rfl⟩ := h
        obtain ⟨found, proper⟩ := loadString_eq string
        obtain ⟨vector, last, properRest⟩ := inductionHypothesis others
        have next : va + 4 * (arg :: rest).length = va + 4 + 4 * rest.length := by
          rw [List.length_cons]
          omega
        refine ⟨?_, next ▸ last, List.forall_mem_cons.mpr ⟨proper, properRest⟩⟩
        rw [List.length_cons, vectorAt, stringAt, found, vector]
        rfl

namespace Kernel

variable {s : Kernel} {argv : ArgVector} {args : List (List Byte)}

/-- No argument has a zero byte inside. -/
theorem argStrings_proper (h : s.argStrings argv = .ok args) : ∀ arg ∈ args, 0 ∉ arg := by
  cases argv with
  | commandLine words =>
      cases h
      intro arg member
      obtain ⟨word, -, rfl⟩ := List.mem_map.mp member
      exact word.property
  | user argv =>
      simp only [argStrings, bind_eq_ok] at h
      obtain ⟨c, -, h⟩ := h
      exact (loadVector_eq h).2.2

/-- The arguments of a user pointer, as they lie in the caller's memory. -/
theorem argStrings_user {a : Word} {c : PCB} (running : s.heap s.ptbr1 = some c)
    (h : s.argStrings (.user a) = .ok args) :
    vectorAt s.mem c.ptbr args.length a.toNat = some args ∧
      wordAt s.mem c.ptbr (a.toNat + 4 * args.length) = 0 := by
  simp only [argStrings, bind_eq_ok, deref_eq_ok] at h
  obtain ⟨c', running', h⟩ := h
  obtain rfl := Option.some.inj (running.symm.trans running')
  obtain ⟨vector, last, -⟩ := loadVector_eq h
  exact ⟨vector, last⟩

end Kernel

/-! ### The stack of a loaded program -/

theorem stringsStart_toNat {args : List (List Byte)} (fits : argBytes args ≤ vmem1Limit) :
    (stringsStart args).toNat + argBytes args = vmem1Limit := by
  rw [stringsStart, ofInt_argSize, BitVec.toNat_sub, BitVec.toNat_ofNat, BitVec.toNat_ofNat]
  simp only [vmem1Limit, Nat.reducePow, Nat.reduceMod] at fits ⊢
  omega

/-- A stack that fits the table lies in its pages, with the pointers below the strings. -/
theorem stack_room {args : List (List Byte)} (room : stackNpg args ≤ maxPtLen) :
    vmem1Base ≤ (stackStart args).toNat ∧
      (stackStart args).toNat + 12 + 4 * args.length ≤ (stringsStart args).toNat ∧
      (stringsStart args).toNat + argBytes args = vmem1Limit ∧
      ∀ a, (stackStart args).toNat ≤ a → a < vmem1Limit →
        InStack args ((a - vmem1Base) / pageSize) := by
  have start := stackStart_toNat args
  have space : stackSpace args = argBytes args + (args.length + 3 + 0x20) * 4 := rfl
  have strings : argBytes args ≤ vmem1Limit := by
    simp only [stackNpg, maxPtLen, vmem1Limit] at room ⊢
    omega
  have strings := stringsStart_toNat strings
  simp only [stackNpg, InStack, InSegment, maxPtLen, vmem1Base, vmem1Limit, pageSize] at *
  refine ⟨by omega, by omega, strings, ?_⟩
  intro a above below
  omega

namespace Kernel

variable {env : Env} {s s' : Kernel} {p : PcbPtr} {b b' : PCB} {req : LoadRequest}
  {argv : ArgVector} {args : List (List Byte)} {li : LoadInfo} {plan : LoadPlan}

/-- What a successful load leaves on its stack, whose pages can be read and written and have frames
of their own. -/
theorem loadImage_stack {ptlr : Nat} (proper : ∀ arg ∈ args, 0 ∉ arg)
    (room : stackNpg args ≤ maxPtLen) (accepted : loadPlan li args ptlr = some plan)
    (distinct : b'.ptbr.DistinctFrames)
    (plain : ∀ a, plan.cpp.toNat ≤ a → a < vmem1Limit →
      (b'.ptbr ((a - vmem1Base) / pageSize)).valid = true ∧
        (b'.ptbr ((a - vmem1Base) / pageSize)).prot = protReadWrite)
    (h : loadImage req li plan (saveArgs args) m b = .ok (.success, m', b')) :
    StackDecodes m' b'.ptbr plan.cpp.toNat args := by
  obtain ⟨-, -, layout⟩ := loadPlan_eq_some.mp accepted
  have start : plan.cpp = stackStart args := by rw [layout]
  have strings : plan.cp = stringsStart args := by rw [layout]
  obtain ⟨-, -, -, -, m₂, -, -, -, -, built, -⟩ := loadImage_success h
  obtain ⟨region, below, limit, inStack⟩ := stack_room room
  rw [← start] at region below inStack
  rw [← strings] at below limit
  have top : TopMapped b'.ptbr plan.cpp.toNat :=
    ⟨distinct, region, fun a above high => (plain a above high).1⟩
  obtain ⟨argc, laid, argvEnd, envpEnd⟩ := buildStack_laid top proper below limit built
  constructor
  case argc =>
    rw [argc, BitVec.toNat_ofNat]
    simp only [vmem1Limit, Nat.reducePow] at limit ⊢
    omega
  case argv => exact laid.decodes proper (Nat.le_of_eq limit)
  case argvEnd => exact argvEnd
  case envpEnd => exact envpEnd
  case apart =>
    intro i arg entry
    have inside := laid.pointer (Nat.le_of_eq limit) entry
    omega
  case room => omega
  case mapped =>
    intro a above high
    obtain ⟨valid, access⟩ := plain a above high
    refine ⟨inStack a above high, ?_, ?_⟩
    · rw [Pte.readable, valid, access]
      rfl
    · rw [Pte.writable, valid, access]
      rfl

/-- The same for a well placed image with frames for its pages. -/
theorem loadImage_decodes (proper : ∀ arg ∈ args, 0 ∉ arg)
    (sized : stackSpace args ≤ 0x7fffe000)
    (accepted : loadPlan li args maxPtLen = some plan) (placed : plan.WellPlaced)
    (enough : programPages li args ≤ (m.reclaimable b.ptbr).card)
    (h : loadImage req li plan (saveArgs args) m b = .ok (.success, m', b')) :
    StackDecodes m' b'.ptbr (stackStart args).toNat args := by
  rw [← pages_eq accepted] at enough
  have stack : stackPages args = stackNpg args := stackPages_small sized
  have room : stackNpg args ≤ maxPtLen := by
    have fits := ((layout_checked_iff accepted).mp placed).stack
    omega
  obtain ⟨-, -, layout⟩ := loadPlan_eq_some.mp accepted
  rw [stack] at layout
  obtain ⟨m₀, pt₀, m₁, pt₁, m₂, cleared, segments, -, executable, built, -⟩ := loadImage_success h
  rw [← clearRegion1_frees cleared] at enough
  have mapped := loadSegments_mapped enough placed.once (cleared_empty cleared) segments
  have kept := protectText_eq_ok executable
  obtain ⟨-, -, -, inStack⟩ := stack_room room
  have isStack : ∀ vpn, InStack args vpn ↔
      InSegment plan.stackBase plan.stackNpg.toNat vpn := by
    intro vpn
    rw [layout]
    rfl
  have start : plan.cpp = stackStart args := by rw [layout]
  rw [← start] at inStack ⊢
  apply loadImage_stack proper room accepted _ _ h
  · intro u insideU v insideV
    rw [(kept u).1, (kept v).1, (kept u).2, (kept v).2]
    exact mapped.distinct u insideU v insideV
  · intro a above high
    have covered := inStack a above high
    have inside : (a - vmem1Base) / pageSize < maxPtLen := by
      have position := covered.2
      omega
    have valid : (pt₁ ((a - vmem1Base) / pageSize)).valid = true :=
      (loadSegments_valid segments _).mpr (Or.inr (Or.inr (Or.inr ((isStack _).mp covered))))
    have notText : ¬ InSegment (plan.textPg1 + (0 : Nat)) plan.textNpg
        ((a - vmem1Base) / pageSize) := by
      rintro ⟨low, high⟩
      obtain ⟨-, textStack, -⟩ := indices_nodup.mp placed.once
      rw [Nat.cast_zero, add_zero] at low high
      exact textStack _ (mem_segment.mpr ⟨low, high⟩)
        (mem_segment.mpr ((isStack _).mp covered))
    refine ⟨(kept _).1.trans valid, ?_⟩
    exact ((protectText_prot executable _).2 notText).trans (mapped.taken _ inside valid).1

/-- A load of a well placed program that succeeds leaves its arguments on the new stack, where the
program finds them as the pointers at `argv` passed them, out of pages that are gone. -/
theorem stack_decodes (live : s.heap p = some b) (length : b.ptlr = maxPtLen)
    (information : req.info = some li) (strings : s.argStrings argv = .ok args)
    (sized : stackSpace args ≤ 0x7fffe000)
    (accepted : loadPlan li args maxPtLen = some plan) (placed : plan.WellPlaced)
    (enough : programPages li args ≤ (s.mem.reclaimable b.ptbr).card)
    (loaded : s.loadProgram env req argv p = .ok (.success, s')) (after : s'.heap p = some b') :
    StackDecodes s'.mem b'.ptbr b'.userContext.sp.toNat args ∧
      ∀ a c, argv = .user a → s.heap s.ptbr1 = some c →
        vectorAt s.mem c.ptbr args.length a.toNat = some args ∧
          wordAt s.mem c.ptbr (a.toNat + 4 * args.length) = 0 := by
  obtain ⟨plan', m, accepted', pointer, image, rfl⟩ :=
    loadProgram_success live length information strings loaded after
  obtain rfl := Option.some.inj (accepted.symm.trans accepted')
  constructor
  · rw [pointer]
    exact loadImage_decodes (b := PCB.withStackPointer b plan.cpp) (argStrings_proper strings) sized
      accepted placed enough image
  · rintro a c rfl running
    exact argStrings_user running strings

/-- Init stores the arguments "ab" and "" in its data. -/
def twoArguments : Input :=
  .userStore 0x102000 [0x10, 0x20, 0x10, 0, 0x20, 0x20, 0x10, 0, 0, 0, 0, 0, 0, 0, 0, 0, 0x61, 0x62]

theorem ordinary_placed : ∃ plan, loadPlan ordinaryFile [[0x61, 0x62], []] maxPtLen = some plan ∧
    plan.WellPlaced := by
  have accepted : loadPlan ordinaryFile [[0x61, 0x62], []] maxPtLen = some _ :=
    loadPlan_eq_some.mpr ⟨by decide, by decide, rfl⟩
  refine ⟨_, accepted, (layout_checked_iff accepted).mpr ?_⟩
  constructor
  case stack => decide
  case data => decide
  case text => decide
  case apart => decide

/-- Init loads its program once more, with these arguments. -/
theorem stack_decodes_sample : ∃ (s : Kernel) (p : PcbPtr) (s' : Kernel) (b' : PCB),
    s.loadProgram sampleEnv sampleProgram (.user 0x102000) p = .ok (.success, s') ∧
      s'.heap p = some b' ∧
        StackDecodes s'.mem b'.ptbr b'.userContext.sp.toNat [[0x61, 0x62], []] := by
  have answer : (do
      let boot ← kernelStart sampleEnv sampleBoot
      let s ← run sampleEnv (fun _ _ => true) [.tick, .resume, twoArguments] boot
      let args ← s.argStrings (.user 0x102000)
      let result ← s.loadProgram sampleEnv sampleProgram (.user 0x102000) s.currentProcess
      return decide (args = [[0x61, 0x62], []]) && (s.heap s.currentProcess).any fun b =>
        (result.2.heap s.currentProcess).isSome && decide (result.1 = .success ∧
          b.ptlr = maxPtLen ∧ 3 ≤ (s.mem.reclaimable b.ptbr).card) : Except Stop Bool) =
        .ok true := by
    decide +kernel
  simp only [bind_eq_ok, pure_eq_ok, Bool.and_eq_true_iff, decide_eq_true_iff] at answer
  obtain ⟨boot, -, s, -, args, strings, ⟨status, s'⟩, loaded, rfl, known⟩ := answer
  obtain ⟨b, live, known⟩ := (Option.any_eq_true ..).mp known
  simp only [Bool.and_eq_true, decide_eq_true_eq] at known
  obtain ⟨after, success, length, frames⟩ := known
  obtain ⟨b', after⟩ := Option.isSome_iff_exists.mp after
  rw [success] at loaded
  obtain ⟨plan, accepted, placed⟩ := ordinary_placed
  exact ⟨s, s.currentProcess, s', b', loaded, after, (stack_decodes live length rfl strings
    (by decide) accepted placed (Nat.le_trans (by decide) frames) loaded after).1⟩

end Kernel

end Yalnix
