/-
Module: Yalnix.Proofs.LoadedImage
Purpose: What a freshly loaded program finds in its memory is what its file holds: the text, the
  initialised data, and zeros for the rest of the data; and the text stays so.
Trusted boundary: the layout of the file is what the linker makes of it
Main exports: LoadInfo.Linked, ImageHeld, loadImage_held, loadProgram_held, program_reads_its_file
-/
import Yalnix.Proofs.ArgumentStack
import Yalnix.Proofs.ProgramText

namespace Yalnix

open Memory Transition

variable {m m' m₁ m₂ : Memory} {pt pt' : PageTable} {va n a low : Nat}

/-! ### Reading what was written -/

/-- A range that can be read, byte by byte. -/
theorem loadRange_bytes {bytes : Nat → Byte}
    (region : n = 0 ∨ vmem1Base ≤ va ∧ va + n ≤ vmem1Limit)
    (readable : ∀ vpn ∈ rangePages va n, (pt vpn).readable = true)
    (held : ∀ i < n, m.byteAt pt (va + i) = bytes i) :
    m.loadRange pt va n = .ok ((List.range n).map bytes) := by
  have inside : inRegion1 va n = true := by
    rw [inRegion1, decide_eq_true_eq]
    exact region
  have accessible : (rangePages va n).all (fun vpn => (pt vpn).readable) = true := by
    rw [List.all_eq_true]
    exact readable
  rw [loadRange, inside, accessible]
  apply congrArg Except.ok
  apply List.map_congr_left
  intro i member
  exact held i (List.mem_range.mp member)

/-- The address is on a mapped page of region 1. -/
structure OnPage (pt : PageTable) (a : Nat) : Prop where
  low : vmem1Base ≤ a
  high : a < vmem1Limit
  mapped : (pt ((a - vmem1Base) / pageSize)).valid = true

/-- The mapped bytes below an address are not written. -/
def WritesFrom (pt : PageTable) (low : Nat) (m m' : Memory) : Prop :=
  ∀ a, OnPage pt a → a < low → m'.byteAt pt a = m.byteAt pt a

namespace WritesFrom

theorem trans (first : WritesFrom pt low m m₁) (second : WritesFrom pt low m₁ m₂) :
    WritesFrom pt low m m₂ := fun a here below =>
  (second a here below).trans (first a here below)

theorem storeFun {bytes : Nat → Byte} (distinct : pt.DistinctFrames) (above : low ≤ va)
    (h : m.storeFun pt va n bytes = .ok m') : WritesFrom pt low m m' := by
  intro a here below
  rw [byteAt_storeFun distinct h here.low here.high here.mapped, if_neg]
  exact fun inside => absurd (above.trans inside.1) (Nat.not_le.mpr below)

theorem storeArgs {n : Nat} {cp2 : List Byte} {cpp cp cpp' : Word} (distinct : pt.DistinctFrames)
    (pointers : low ≤ cpp.toNat) (strings : low ≤ cp.toNat)
    (h : storeArgs pt n cp2 cpp cp m = .ok (cpp', m')) :
    low ≤ cpp'.toNat ∧ WritesFrom pt low m m' := by
  induction n generalizing cp2 cpp cp m with
  | zero =>
      cases h
      exact ⟨pointers, fun _ _ _ => rfl⟩
  | succ n inductionHypothesis =>
      simp only [Yalnix.storeArgs, bind_eq_ok] at h
      obtain ⟨m₁, pointer, m₂, string, h⟩ := h
      have first : WritesFrom pt low m m₁ := storeFun distinct pointers pointer
      have second : WritesFrom pt low m₁ m₂ := storeFun distinct strings string
      -- neither address wraps, since both stores went through
      have pointerEnd := ((storeFun_accessible pointer).1 (Nat.zero_lt_succ 3)).2
      have stringEnd := ((storeFun_accessible string).1 (by simp)).2
      have next : (cpp + 4).toNat = cpp.toNat + 4 := pointer_succ pointerEnd
      have later (arg : List Byte) (fits : cp.toNat + (arg ++ [0]).length ≤ vmem1Limit) :
          (cp + BitVec.ofNat 32 (arg.length + 1)).toNat = cp.toNat + (arg.length + 1) := by
        rw [List.length_append, List.length_singleton] at fits
        rw [BitVec.toNat_add, BitVec.toNat_ofNat]
        simp only [vmem1Limit, Nat.reducePow] at fits ⊢
        omega
      obtain ⟨above, third⟩ :=
        inductionHypothesis (by omega) ((later _ stringEnd).symm ▸ by omega) h
      exact ⟨above, (first.trans second).trans third⟩

/-- The arguments are written from the stack pointer on. -/
theorem buildStack {plan : LoadPlan} {argbuf : ArgBuf} (distinct : pt.DistinctFrames)
    (strings : plan.cpp.toNat ≤ plan.cp.toNat) (h : buildStack plan argbuf pt m = .ok m') :
    WritesFrom pt plan.cpp.toNat m m' := by
  simp only [Yalnix.buildStack, bind_eq_ok] at h
  obtain ⟨m₁, cleared, m₂, argc, ⟨cpp, m₃⟩, arguments, m₄, argv, envp⟩ := h
  have argcEnd := ((storeFun_accessible argc).1 (Nat.zero_lt_succ 3)).2
  have next : (plan.cpp + 4).toNat = plan.cpp.toNat + 4 := pointer_succ argcEnd
  obtain ⟨above, wrote⟩ := storeArgs distinct (by omega) strings arguments
  simp only at argv envp
  have argvEnd := ((storeFun_accessible argv).1 (Nat.zero_lt_succ 3)).2
  have last : (cpp + 4).toNat = cpp.toNat + 4 := pointer_succ argvEnd
  have first := (storeFun distinct le_rfl cleared).trans (storeFun distinct le_rfl argc)
  exact ((first.trans wrote).trans (storeFun distinct above argv)).trans
    (storeFun distinct (by omega) envp)

end WritesFrom

/-! ### The image -/

variable {li : LoadInfo} {req : LoadRequest} {args : List (List Byte)} {plan : LoadPlan}
  {argbuf : ArgBuf} {b b' : PCB}

/-- The layout of a file: text on whole pages below the data, and the initialised data followed by
those that start as zeros, within the pages for both. -/
structure LoadInfo.Linked (li : LoadInfo) : Prop where
  text : vmem1Base ≤ li.tVaddr.toNat ∧ li.tVaddr.toNat % pageSize = 0
  below : pageOf li.tVaddr + li.tNpg.toNat ≤ pageOf li.idVaddr
  data : vmem1Base ≤ li.idVaddr.toNat ∧ li.idVaddr.toNat ≤ li.idEnd.toNat ∧
    li.idEnd.toNat ≤ li.idVaddr.toNat + li.idNpg.toNat * pageSize
  zeros : li.idEnd.toNat ≤ li.udEnd.toNat ∧ li.udEnd.toNat ≤
    vmem1Base + (pageOf li.idVaddr + (li.idNpg.toNat + li.udNpg.toNat)) * pageSize
  small : li.idNpg.toNat + li.udNpg.toNat < 0x80000000

/-- The program reads its text and its data as they are in the file, and zeros behind the data. -/
structure ImageHeld (m : Memory) (pt : PageTable) (li : LoadInfo) (text data : Nat → Byte) :
    Prop where
  text : m.loadRange pt li.tVaddr.toNat (li.tNpg.toNat * pageSize) =
    .ok ((List.range (li.tNpg.toNat * pageSize)).map text)
  data : m.loadRange pt li.idVaddr.toNat (li.idEnd.toNat - li.idVaddr.toNat) =
    .ok ((List.range (li.idEnd.toNat - li.idVaddr.toNat)).map data)
  zeros : m.loadRange pt li.idEnd.toNat (li.udEnd.toNat - li.idEnd.toNat) =
    .ok ((List.range (li.udEnd.toNat - li.idEnd.toNat)).map fun _ => 0)

/-- A read that delivers what it was asked for puts it in place. -/
theorem readInto_bytes {va : Word} {size : Nat} {answer : ReadAnswer} (distinct : pt.DistinctFrames)
    (h : readInto m pt va size answer = .ok (true, m')) :
    ∃ bytes, answer = some (size, bytes) ∧ ∀ a, OnPage pt a → m'.byteAt pt a =
      if va.toNat ≤ a ∧ a < va.toNat + size then bytes (a - va.toNat) else m.byteAt pt a := by
  rcases answer with _ | ⟨count, bytes⟩
  · cases h
  · simp only [readInto, bind_eq_ok, pure_eq_ok, Prod.mk.injEq, decide_eq_true_eq] at h
    obtain ⟨m₁, stored, rfl, rfl⟩ := h
    rw [Nat.min_self] at stored
    exact ⟨bytes, rfl, fun a here => byteAt_storeFun distinct stored here.low here.high here.mapped⟩

/-- The byte that the image has at an address, where segments meet that of the last one written: the
zeros, then the data, then the text. -/
def imageByte (li : LoadInfo) (text data : Nat → Byte) (a : Nat) : Option Byte :=
  if li.idEnd.toNat ≤ a ∧ a < li.idEnd.toNat + (li.udEnd - li.idEnd).toNat then some 0
  else if li.idVaddr.toNat ≤ a ∧ a < li.idVaddr.toNat + segmentSize li.idNpg then
    some (data (a - li.idVaddr.toNat))
  else if li.tVaddr.toNat ≤ a ∧ a < li.tVaddr.toNat + segmentSize li.tNpg then
    some (text (a - li.tVaddr.toNat))
  else none

/-- Below the stack pointer the image is in memory, when every page has a frame of its own. -/
theorem loadImage_bytes (distinct : b'.ptbr.DistinctFrames)
    (strings : plan.cpp.toNat ≤ plan.cp.toNat)
    (h : Kernel.loadImage req li plan argbuf m b = .ok (.success, m', b')) :
    ∃ text data, req.text = some (segmentSize li.tNpg, text) ∧
      req.data = some (segmentSize li.idNpg, data) ∧
      ∀ a byte, OnPage b'.ptbr a → a < plan.cpp.toNat → imageByte li text data a = some byte →
        m'.byteAt b'.ptbr a = byte := by
  obtain ⟨-, -, m₁, pt₁, m₂, m₃, pt₂, m₄, -, -, textRead, dataRead, executable, zeroed, built,
    isPcb⟩ := loadImage_eq_success.mp h
  have isTable : pt₂ = b'.ptbr := by
    rw [isPcb]
    rfl
  rw [isTable] at executable zeroed built
  -- the tables differ in protection alone
  have kept := protectText_eq_ok executable
  have byteAt_same (k : Memory) (a : Nat) : k.byteAt pt₁ a = k.byteAt b'.ptbr a := by
    rw [byteAt, byteAt, (kept _).2]
  have distinct₁ : pt₁.DistinctFrames := by
    intro u insideU v insideV validU validV same
    rw [← (kept u).1] at validU
    rw [← (kept v).1] at validV
    rw [← (kept u).2, ← (kept v).2] at same
    exact distinct u insideU v insideV validU validV same
  obtain ⟨text, isText, textBytes⟩ := readInto_bytes distinct₁ textRead
  obtain ⟨data, isData, dataBytes⟩ := readInto_bytes distinct₁ dataRead
  have stackWrites : WritesFrom b'.ptbr plan.cpp.toNat m₄ m' :=
    WritesFrom.buildStack distinct strings built
  refine ⟨text, data, isText, isData, fun a byte here underStack known => ?_⟩
  have here₁ : OnPage pt₁ a := ⟨here.low, here.high, (kept _).1.symm.trans here.mapped⟩
  rw [stackWrites a here underStack,
    byteAt_storeFun distinct zeroed here.low here.high here.mapped, ← byteAt_same,
    dataBytes a here₁, textBytes a here₁]
  unfold imageByte at known
  split_ifs at known ⊢
  all_goals exact Option.some.inj known

/-- The pages of a range. -/
theorem rangePages_bounds {vpn : Nat} (low : vmem1Base ≤ va) (member : vpn ∈ rangePages va n) :
    va < vmem1Base + (vpn + 1) * pageSize ∧ vmem1Base + vpn * pageSize < va + n := by
  have some := pos_of_mem_rangePages member
  rw [rangePages, if_neg (Nat.ne_of_gt some), List.mem_range'_1] at member
  simp only [vmem1Base, pageSize] at low member ⊢
  omega

/-- The image of a linked file that is loaded into a table of its own. -/
theorem loadImage_held (owned : Owned m b.ptbr) (linked : li.Linked)
    (accepted : loadPlan li args maxPtLen = some plan)
    (sized : stackSpace args ≤ 0x7fffe000)
    (enough : programPages li args ≤ (m.reclaimable b.ptbr).card)
    (h : Kernel.loadImage req li plan argbuf m b = .ok (.success, m', b')) :
    ∃ text data, req.text = some (li.tNpg.toNat * pageSize, text) ∧
      req.data = some (li.idNpg.toNat * pageSize, data) ∧ ImageHeld m' b'.ptbr li text data := by
  have builds := Kernel.loadImage_builds owned accepted linked.below sized enough linked.small h
  obtain ⟨-, -, layout⟩ := loadPlan_eq_some.mp accepted
  have room := loadImage_room accepted h
  rw [stackPages_small sized, dataPages_small linked.small] at room
  obtain ⟨textLow, textAligned⟩ := linked.text
  obtain ⟨dataLow, dataOrder, dataEnd⟩ := linked.data
  obtain ⟨zerosOrder, zerosEnd⟩ := linked.zeros
  have below := linked.below
  have textPage := pageOf_eq textLow
  have dataPage := pageOf_eq dataLow
  have npg : li.tNpg.toNat < 128 ∧ li.idNpg.toNat + li.udNpg.toNat < 128 := by
    simp only [maxPtLen] at room
    omega
  have textSize : segmentSize li.tNpg = li.tNpg.toNat * pageSize := by
    rw [segmentSize, pageSize]
    omega
  have dataSize : segmentSize li.idNpg = li.idNpg.toNat * pageSize := by
    rw [segmentSize, pageSize]
    omega
  have stackSmall : stackNpg args ≤ maxPtLen := by
    simp only [stackNpg, maxPtLen] at room ⊢
    omega
  obtain ⟨-, strings, -, inStack⟩ := stack_room stackSmall
  have start : plan.cpp = stackStart args := by rw [layout]
  have stringsAt : plan.cp = stringsStart args := by rw [layout]
  obtain ⟨text, data, isText, isData, bytes⟩ := loadImage_bytes builds.distinct
    (by rw [start, stringsAt]; omega) h
  have zeroSize : (li.udEnd - li.idEnd).toNat = li.udEnd.toNat - li.idEnd.toNat :=
    BitVec.toNat_sub_of_le (BitVec.le_def.mpr zerosOrder)
  have onPage {a : Nat} (low : vmem1Base ≤ a) (covered : InText li ((a - vmem1Base) / pageSize) ∨
      InData li ((a - vmem1Base) / pageSize)) : OnPage b'.ptbr a := by
    have page := (builds.pages _).mpr (covered.imp_right Or.inl)
    refine ⟨low, ?_, page.2⟩
    have inside := page.1
    simp only [vmem1Base, vmem1Limit, pageSize, maxPtLen] at low inside ⊢
    omega
  have held {a : Nat} {byte : Byte} (low : vmem1Base ≤ a)
      (covered : InText li ((a - vmem1Base) / pageSize) ∨ InData li ((a - vmem1Base) / pageSize))
      (known : imageByte li text data a = some byte) : m'.byteAt b'.ptbr a = byte := by
    have here := onPage low covered
    have underStack : a < plan.cpp.toNat := by
      by_contra above
      rw [start] at above
      have stack := inStack a (Nat.le_of_not_lt above) here.high
      rcases covered with inText | inData
      · exact (builds.disjoint _).2.1 ⟨inText, stack⟩
      · exact (builds.disjoint _).2.2 ⟨inData, stack⟩
    exact bytes a byte here underStack known
  have textRange {a : Nat} (low : li.tVaddr.toNat ≤ a)
      (high : a < li.tVaddr.toNat + li.tNpg.toNat * pageSize) :
      InText li ((a - vmem1Base) / pageSize) := by
    simp only [InText, InSegment, vmem1Base, pageSize] at *
    omega
  have dataRange {a : Nat} (low : li.idVaddr.toNat ≤ a) (high : a < li.udEnd.toNat) :
      InData li ((a - vmem1Base) / pageSize) := by
    simp only [InData, InSegment, vmem1Base, pageSize] at *
    omega
  have reads {va n : Nat} {bytes : Nat → Byte} (low : vmem1Base ≤ va)
      (covered : ∀ a, va ≤ a → a < va + n → InText li ((a - vmem1Base) / pageSize) ∨
        InData li ((a - vmem1Base) / pageSize))
      (found : ∀ i < n, m'.byteAt b'.ptbr (va + i) = bytes i) :
      m'.loadRange b'.ptbr va n = .ok ((List.range n).map bytes) := by
    apply loadRange_bytes _ _ found
    · by_cases empty : n = 0
      · exact Or.inl empty
      · have last := onPage (a := va + (n - 1)) (by omega) (covered _ (by omega) (by omega))
        have high := last.high
        exact Or.inr ⟨low, by omega⟩
    · intro vpn member
      obtain ⟨after, before⟩ := rangePages_bounds low member
      -- an address of the range on the page
      have page : (max va (vmem1Base + vpn * pageSize) - vmem1Base) / pageSize = vpn := by
        simp only [vmem1Base, pageSize] at low after before ⊢
        omega
      have covers := covered (max va (vmem1Base + vpn * pageSize)) (le_max_left ..)
        (max_lt (Nat.lt_add_of_pos_right (pos_of_mem_rangePages member)) before)
      rw [page] at covers
      have valid := ((builds.pages vpn).mpr (covers.imp_right Or.inl)).2
      rw [Pte.readable, valid]
      rcases covers with inText | inData
      · rw [builds.text vpn inText]
        rfl
      · rw [builds.rest vpn (Or.inl inData)]
        rfl
  refine ⟨text, data, textSize ▸ isText, dataSize ▸ isData, ?_⟩
  constructor
  case text =>
    apply reads textLow fun a low high => Or.inl (textRange low high)
    intro i inside
    have beforeData : li.tVaddr.toNat + i < li.idVaddr.toNat := by
      simp only [vmem1Base, pageSize] at *
      omega
    apply held (textLow.trans (Nat.le_add_right ..)) (Or.inl (textRange (by omega) (by omega)))
    rw [imageByte, zeroSize, dataSize, textSize, if_neg (by omega), if_neg (by omega),
      if_pos (by omega), Nat.add_sub_cancel_left]
  case data =>
    apply reads dataLow fun a low high => Or.inr (dataRange low (by omega))
    intro i inside
    apply held (dataLow.trans (Nat.le_add_right ..)) (Or.inr (dataRange (by omega) (by omega)))
    rw [imageByte, zeroSize, dataSize, if_neg (by omega), if_pos (by omega),
      Nat.add_sub_cancel_left]
  case zeros =>
    apply reads (dataLow.trans dataOrder) fun a low high =>
      Or.inr (dataRange (dataOrder.trans low) (by omega))
    intro i inside
    apply held ((dataLow.trans dataOrder).trans (Nat.le_add_right ..))
      (Or.inr (dataRange (by omega) (by omega)))
    rw [imageByte, zeroSize, if_pos (by omega)]

/-! ### Programs -/

namespace Kernel

variable {env : Env} {cfg : BootConfig} {boot s s₁ s' t u : Kernel} {p : PcbPtr}
  {argv : ArgVector} {ctx : UserContext}

/-- Where no frame is held twice, a process owns the frames of its region 1. -/
theorem owned_of_exclusive (exclusive : s.holdings.Exclusive) (live : s.heap p = some b) :
    Owned s.mem b.ptbr := by
  have holds {vpn : Nat} (inside : vpn < maxPtLen) (valid : (b.ptbr vpn).valid = true) :
      s.holdings.holds (.region1 p, vpn) = some (b.ptbr vpn).pfn := by
    rw [holdings, holds_table (by simp), tables_region1 live]
    exact (if_pos inside).trans (Pte.frame_of_valid valid)
  constructor
  case used =>
    intro vpn inside valid
    exact exclusive.used _ _ (holds inside valid)
  case distinct =>
    intro u insideU v insideV validU validV same
    have held := holds insideV validV
    rw [← same] at held
    exact (Prod.mk.inj (exclusive.once _ _ _ (holds insideU validU) held)).2

/-- What a successful `Exec` leaves in memory. -/
theorem loadProgram_held (exclusive : s.holdings.Exclusive) (live : s.heap p = some b)
    (length : b.ptlr = maxPtLen) (strings : s.argStrings argv = .ok args)
    (fits : ¬ RunsShort env s b req argv)
    (loaded : s.loadProgram env req argv p = .ok (.success, t)) (information : req.info = some li)
    (linked : li.Linked) (sized : stackSpace args ≤ 0x7fffe000) :
    ∃ text data b', t.heap p = some b' ∧ req.text = some (li.tNpg.toNat * pageSize, text) ∧
      req.data = some (li.idNpg.toNat * pageSize, data) ∧
      ImageHeld t.mem b'.ptbr li text data ∧ b'.TextBelow (pageOf li.idVaddr) ∧
      ∀ vpn, InText li vpn → (b'.ptbr vpn).Fixed := by
  obtain ⟨b₀, live₀, ⟨failed, -⟩ | ⟨li', args', plan, information', strings', accepted, outcome⟩⟩ :=
    loadProgram_eq_ok loaded
  · cases failed
  obtain rfl := Option.some.inj (live.symm.trans live₀)
  obtain rfl := Option.some.inj (information.symm.trans information')
  obtain rfl := Except.ok.inj (strings.symm.trans strings')
  rcases outcome with ⟨-, killed, -⟩ | ⟨⟨memory, -⟩, m, b', image, rfl⟩
  · cases killed
  have enough : programPages li args ≤ (s.mem.reclaimable b.ptbr).card := by
    by_contra short
    exact fits ⟨li, args, plan, information, strings, accepted, memory, Nat.lt_of_not_le short⟩
  rw [length] at accepted
  have owned := owned_of_exclusive exclusive live
  have builds := loadImage_builds (b := PCB.withStackPointer b plan.cpp) owned accepted
    linked.below sized enough linked.small image
  obtain ⟨text, data, isText, isData, held⟩ :=
    loadImage_held (b := PCB.withStackPointer b plan.cpp) owned linked accepted sized enough image
  refine ⟨text, data, b', Function.update_self .., isText, isData, held, ?_, ?_⟩
  · obtain ⟨heapEnd, -, -⟩ := loadImage_bounds image
    obtain ⟨-, -, dataPage, -⟩ := loadPlan_fields accepted
    rw [dataPage, ofInt_page] at heapEnd
    have ends : b'.userHeapEndVaddr = regionAddress (pageOf li.idVaddr) := heapEnd
    have small : pageOf li.idVaddr ≤ 0x40080 := by
      have room := loadImage_room accepted image
      rw [stackPages_small sized, dataPages_small linked.small] at room
      simp only [maxPtLen] at room
      omega
    have page := heapPage_of_region small ends
    constructor
    · rw [ends, upToPage_of_aligned (regionAddress_aligned small), regionAddress_toNat small]
      exact Nat.le_add_left ..
    · exact page.symm.le
    · exact page.trans_le small
  · intro vpn inText
    have valid := ((builds.pages vpn).mpr (Or.inl inText)).2
    refine ⟨valid, ?_⟩
    rw [Pte.writable, builds.text vpn inText, valid]
    rfl

/-- The program that an `Exec` loads finds its image as the file has it, and its text stays so over
every run, whatever it and the others do from then on. -/
theorem program_reads_its_file (valid : ∀ k, env.helperNewPid k ≠ Status.error.code)
    (ordered : cfg.Ordered) (enough : cfg.Enough) (started : kernelStart env cfg = .ok boot)
    (before : Reaches (Guarded (Step env) (LoadFits env)) boot s)
    (step : Guarded (Step env) (LoadFits env) s (.kernelTrap ctx req) s₁)
    (code : ctx.code = yalnixExec) (saved : (s.trap ctx).saveContext = .ok t)
    (strings : s.argStrings (.user (ctx.regs 1)) = .ok args)
    (loaded : t.loadProgram env req (.user (ctx.regs 1)) t.currentProcess = .ok (.success, u))
    (information : req.info = some li) (linked : li.Linked)
    (sized : stackSpace args ≤ 0x7fffe000) (live : s.heap s.currentProcess = some b)
    (length : b.ptlr = maxPtLen) :
    ∃ text data, req.text = some (li.tNpg.toNat * pageSize, text) ∧
      req.data = some (li.idNpg.toNat * pageSize, data) ∧
      (∃ b₁, s₁.heap s.currentProcess = some b₁ ∧ ImageHeld s₁.mem b₁.ptbr li text data) ∧
      ∀ s', Reaches (Guarded (Step env) (KeepsText env s.currentProcess (pageOf li.idVaddr))) s₁ s' →
        ∃ b', s'.heap s.currentProcess = some b' ∧
          s'.mem.loadRange b'.ptbr li.tVaddr.toNat (li.tNpg.toNat * pageSize) =
            .ok ((List.range (li.tNpg.toNat * pageSize)).map text) := by
  have settled := settled_reaches valid ordered enough started before
  -- the call comes back from the load with the table and the memory that it left
  have ran : (s.trap ctx).trapExec env req = .ok s₁ := by
    have handled : (s.trap ctx).kernelTrapHandler env req = .ok s₁ := step.2.2
    rw [← handled, kernelTrapHandler, if_neg, if_neg, if_neg, if_neg, if_neg, if_neg,
      if_pos (show (s.trap ctx).ctx.code = yalnixExec from code)]
    all_goals
      rw [show (s.trap ctx).ctx.code = yalnixExec from code]
      decide
  have after : s₁.heap = u.heap ∧ s₁.mem = u.mem := by
    simp only [trapExec, Kernel.exec, bind_eq_ok] at ran
    obtain ⟨t', saved', ⟨rc, u'⟩, ⟨⟨status, v⟩, loaded', outcome⟩, returned⟩ := ran
    obtain rfl : t = t' := Except.ok.inj (saved.symm.trans saved')
    obtain ⟨rfl, rfl⟩ := Prod.mk.inj (Except.ok.inj (loaded.symm.trans loaded'))
    cases outcome
    obtain ⟨c, -, rfl⟩ := returnToUser_eq_ok.mp returned
    exact ⟨rfl, rfl⟩
  have exclusive : t.holdings.Exclusive := by
    have moved : SpaceMoves True False (s.trap ctx) t := .saveContext saved
    exact settled.exclusive.changes moved.changes
  have strings' : t.argStrings (.user (ctx.regs 1)) = .ok args :=
    (argStrings_saveContext saved).trans strings
  obtain ⟨c, found, rfl⟩ := saveContext_eq_ok.mp saved
  obtain rfl := Option.some.inj (live.symm.trans found)
  have running := Function.update_self s.currentProcess (some { b with userContext := ctx }) s.heap
  have fits : ¬ RunsShort env _ _ req (.user (ctx.regs 1)) := fun short =>
    step.1 code b live (runsShort_saveContext (s := s.trap ctx) live saved running short)
  obtain ⟨text, data, b₁, live₁, isText, isData, held, below, fixed⟩ :=
    loadProgram_held exclusive running length strings' fits loaded information linked sized
  have live₁ : s₁.heap s.currentProcess = some b₁ := by
    rw [after.1]
    exact live₁
  rw [← after.2] at held
  refine ⟨text, data, isText, isData, ⟨b₁, live₁, held⟩, fun s' run => ?_⟩
  have before₁ : Reaches (Guarded (Step env) (LoadFits env)) boot s₁ := before.tail step
  have kept := textKept_run valid ordered enough started before₁ run
  obtain ⟨b', live', -, reads⟩ := kept.reads
    (settled_reaches valid ordered enough started before₁).exclusive live₁ below
  refine ⟨b', live', ?_⟩
  rw [← held.text]
  apply reads
  intro vpn member
  obtain ⟨after, before⟩ := rangePages_bounds linked.text.1 member
  have inText : InText li vpn := by
    have aligned := linked.text.2
    have page := pageOf_eq linked.text.1
    have bound := linked.text.1
    simp only [InText, InSegment, vmem1Base, pageSize] at *
    omega
  refine ⟨?_, fixed vpn inText⟩
  have order := linked.below
  simp only [InText, InSegment] at inText
  omega

def countingExec : UserContext :=
  { UserContext.zero with code := yalnixExec, regs := fun i => if i = 1 then 0x102000 else 0 }

/-- A program whose text counts its own bytes. -/
def countingProgram : LoadRequest :=
  { sampleProgram with text := some (0x2000, fun i => BitVec.ofNat 8 i) }

/-- Init executes that program, which writes its data, forks, and reads its text. -/
theorem program_reads_its_file_sample : ∃ s' : Kernel, ∃ b' : PCB, s'.heap 1 = some b' ∧
    s'.userBytes 1 0x102000 1 = [7] ∧ s'.mem.loadRange b'.ptbr 0x100000 0x2000 =
      .ok ((List.range 0x2000).map fun i => BitVec.ofNat 8 i) := by
  have answer : (do
      let boot ← kernelStart sampleEnv sampleBoot
      let s ← run sampleEnv loadsNothing [.tick, .resume] boot
      let t ← (s.trap countingExec).saveContext
      let u ← t.loadProgram sampleEnv countingProgram noArguments t.currentProcess
      let args ← s.argStrings noArguments
      let s₁ ← s.deliver sampleEnv (.kernelTrap countingExec countingProgram)
      let s' ← run sampleEnv (keepsText 1 1)
        [.userStore 0x102000 [7], .call yalnixFork 0 0 0, .tick, .resume] s₁
      return decide (args = [] ∧ u.1 = .success ∧
        s.Enabled (.kernelTrap countingExec countingProgram) ∧ s.currentProcess = 1 ∧
          s'.userBytes 1 0x102000 1 = [7]) &&
          (s.heap 1).any fun b => decide (b.ptlr = maxPtLen ∧
            3 ≤ (s.mem.reclaimable b.ptbr).card) : Except Stop Bool) = .ok true := by
    decide +kernel
  simp only [bind_eq_ok, pure_eq_ok, Bool.and_eq_true_iff, decide_eq_true_iff] at answer
  obtain ⟨boot, started, s, ran, t, saved, ⟨status, u⟩, loaded, args, strings, s₁, called, s', ran',
    known, found⟩ := answer
  obtain ⟨rfl, success, enabled, current, wrote⟩ := known
  obtain ⟨b, live, found⟩ := (Option.any_eq_true _ _).mp found
  obtain ⟨length, frames⟩ := of_decide_eq_true found
  have success : status = .success := success
  rw [success] at loaded
  rw [← current] at live
  have enough : sampleBoot.Enough := by
    rintro li ⟨⟩
    decide
  have valid (k : Nat) : sampleEnv.helperNewPid k ≠ Status.error.code := by
    intro same
    cases same
  have before : Reaches (Guarded (Step sampleEnv) (LoadFits sampleEnv)) boot s :=
    run_reaches _ (fun _ _ => loadsNothing_fits) ran
  have fits : s.LoadFits sampleEnv (.kernelTrap countingExec countingProgram) := by
    rintro - c found ⟨li, args, plan, ⟨⟩, strings', -, -, short⟩
    obtain rfl := Option.some.inj (live.symm.trans found)
    obtain rfl := Except.ok.inj (strings.symm.trans strings')
    exact absurd short (Nat.not_lt.mpr (Nat.le_trans (by decide) frames))
  obtain ⟨text, data, isText, -, -, reads⟩ := program_reads_its_file valid
    ⟨by decide, by decide, by decide⟩ enough started before ⟨fits, enabled, called⟩ rfl saved
    strings loaded rfl ⟨by decide, by decide, by decide, by decide, by decide⟩ (by decide) live
    length
  rw [current] at reads
  obtain ⟨b', live', bytes⟩ := reads s' (run_reaches _ (fun _ _ => keepsText_sound) ran')
  cases isText
  exact ⟨s', b', live', wrote, bytes⟩

end Kernel

end Yalnix
