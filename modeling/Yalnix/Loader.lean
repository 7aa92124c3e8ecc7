/-
Module: Yalnix.Loader
Purpose: LoadProgram, which replaces the region 1 address space of a process by the program of an
  executable file, and the Exec system call.
Trusted boundary: translated from src/kernel.c and src/syscalls/process.c; the file operations and
  LoadInfo enter as the contents of a `LoadRequest`
Main exports: LoadInfo, LoadRequest, ArgVector, argStrings, LoadPlan, loadPlan, clearRegion1,
  loadSegment, saveArgs, loadProgram, exec
-/
import Yalnix.Lib.Bytes
import Yalnix.Process

namespace Yalnix

/-- `struct load_info`, without `ud_vaddr` and `t_end`, which the kernel does not read. -/
structure LoadInfo where
  entry : Word
  tVaddr : Word
  tNpg : Word
  idVaddr : Word
  idNpg : Word
  idEnd : Word
  udNpg : Word
  udEnd : Word

/-- The answer of one `read`: how many bytes it delivers and which, or `none` for -1. -/
abbrev ReadAnswer := Option (Nat × (Nat → Byte))

/-- What the outside world answers to one call of `LoadProgram`: the load information of the named
file, or `none` when `open` or `LoadInfo` fails; and the answers to the `read` of the text and of
the initialised data. -/
structure LoadRequest where
  info : Option LoadInfo
  text : ReadAnswer
  data : ReadAnswer

/-! ### The arguments -/

/-- The characters of a C string, without the zero byte at its end. -/
abbrev CString := {bytes : List Byte // 0 ∉ bytes}

/-- The `args` of `LoadProgram`: the kernel's command line for the first process, the pointer that
the caller of `Exec` passes for the others. -/
inductive ArgVector where
  | commandLine (args : List CString)
  | user (argv : Word)

namespace Memory

/-- The 32-bit word at an address. -/
def wordAt (m : Memory) (pt : PageTable) (a : Nat) : Word :=
  BitVec.ofNat 32 (Bytes.value (m.bytesAt pt a 4))

/-- The C string at `va`, which is `n` bytes below the end of region 1. -/
def loadString (m : Memory) (pt : PageTable) : Nat → Nat → Except Stop (List Byte)
  | 0, va => .error (.badAddress va)
  | n + 1, va => do
      let _ ← m.loadRange pt va 1
      let byte := m.byteAt pt va
      if byte = 0 then return []
      else
        let rest ← loadString m pt n (va + 1)
        return byte :: rest

/-- The strings behind the pointers from `va` on up to a `NULL`; no more than `n` pointers lie below
the end of region 1. -/
def loadVector (m : Memory) (pt : PageTable) : Nat → Nat → Except Stop (List (List Byte))
  | 0, va => .error (.badAddress va)
  | n + 1, va => do
      let _ ← m.loadRange pt va 4
      let arg := m.wordAt pt va
      if arg = 0 then return []
      else
        let string ← m.loadString pt (vmem1Limit - arg.toNat) arg.toNat
        let rest ← loadVector m pt n (va + 4)
        return string :: rest

end Memory

/-- The strings that a loop over `args` reads, through the table in force where they lie in user
memory. -/
def Kernel.argStrings (s : Kernel) : ArgVector → Except Stop (List (List Byte))
  | .commandLine args => .ok (args.map Subtype.val)
  | .user argv => do
      let pcb ← s.deref s.ptbr1
      s.mem.loadVector pcb.ptbr ((vmem1Limit - argv.toNat) / 4 + 1) argv.toNat

/-- `argbuf`, with the `argcount` strings packed one after the other. -/
structure ArgBuf where
  argcount : Nat
  bytes : List Byte

/-- "Now save the arguments in a separate buffer in region 0". -/
def saveArgs (args : List (List Byte)) : ArgBuf where
  argcount := args.length
  bytes := args.flatMap fun arg => arg ++ [0]

/-! ### The layout -/

/-- The pages a load occupies: where text and data start, how many pages text, data and stack take,
the first page of the stack, and the stack pointers `cp`, `cpp` and the new `sp`. -/
structure LoadPlan where
  textPg1 : Int
  textNpg : Nat
  dataPg1 : Int
  dataNpg : Int
  stackNpg : Int
  stackBase : Int
  cp : Word
  cpp : Word
deriving DecidableEq

/-- The bytes the argument strings take with their terminators. -/
def argBytes (args : List (List Byte)) : Nat := (args.map fun arg => arg.length + 1).sum

/-- The same count as the source keeps it, in a C `int`. -/
def argSize (args : List (List Byte)) : Int := (BitVec.ofNat 32 (argBytes args)).toInt

/-- The arithmetic and the checks of `LoadProgram` before it commits, the one of the entry included;
`none` where it returns `ERROR`.  The pages of stack and data are added as C `int`s, which wrap. -/
def loadPlan (li : LoadInfo) (args : List (List Byte)) (ptlr : Nat) : Option LoadPlan :=
  if li.entry.toNat < vmem1Base then none
  else
    let textPg1 : Int := pageOf li.tVaddr
    let dataPg1 : Int := pageOf li.idVaddr
    let dataNpg := (li.idNpg + li.udNpg).toInt
    let cp := BitVec.ofNat 32 vmem1Limit - BitVec.ofInt 32 (argSize args)
    let cpp := BitVec.ofNat 32 ((cp - BitVec.ofNat 32 ((args.length + 3 + 0x20) * 4)).toNat / 8 * 8)
    let stackNpg := (BitVec.ofNat 32 vmem1Limit - downToPage cpp).toInt / pageSize
    if (maxPtLen : Int) ≤ (BitVec.ofInt 32 (stackNpg + dataPg1 + dataNpg)).toInt then none
    else
      some
        { textPg1 := textPg1
          textNpg := li.tNpg.toNat
          dataPg1 := dataPg1
          dataNpg := dataNpg
          stackNpg := stackNpg
          stackBase := (ptlr : Int) - stackNpg
          cp := cp
          cpp := cpp }

/-- "Throw away the old region 1": free the frame of every valid entry and invalidate the entry,
over the entries still to visit. -/
def clearRegion1 : List Nat → Memory → PageTable → Memory × PageTable
  | [], m, pt => (m, pt)
  | vpn :: rest, m, pt =>
      if (pt vpn).valid then clearRegion1 rest (m.freeFrame (pt vpn).pfn) (pt.invalidate vpn)
      else clearRegion1 rest m pt

/-- What the 24-bit `pfn` field holds after the result of `allocFrame` is stored in it unchecked. -/
def storedPfn : Option (Nat × Memory) → Nat
  | some (pfn, _) => pfn
  | none => 0xffffff

/-- The loop that maps one segment: `n` pages, the next one at `base + i`. -/
def loadSegment (base : Int) : Nat → Nat → Memory → PageTable → Except Stop (Memory × PageTable)
  | 0, _, m, pt => .ok (m, pt)
  | n + 1, i, m, pt => do
      let allocated := m.allocFrame .user
      let vpn ← tableIndex (base + i)
      let m := match allocated with
        | some (_, m) => m
        | none => m
      loadSegment base n (i + 1) m
        (Function.update pt vpn ⟨true, protReadWrite, storedPfn allocated⟩)

/-- The loop that makes the text pages executable. -/
def protectText (base : Int) : Nat → Nat → PageTable → Except Stop PageTable
  | 0, _, pt => .ok pt
  | n + 1, i, pt => do
      let vpn ← tableIndex (base + i)
      protectText base n (i + 1) (Function.update pt vpn { pt vpn with prot := protReadExec })

/-- The three allocation loops of `LoadProgram`, after the old region 1 is gone. -/
def loadSegments (plan : LoadPlan) (m : Memory) (pt : PageTable) :
    Except Stop (Memory × PageTable) := do
  let (m, pt) ← loadSegment plan.textPg1 plan.textNpg 0 m pt
  let (m, pt) ← loadSegment plan.dataPg1 plan.dataNpg.toNat 0 m pt
  loadSegment plan.stackBase plan.stackNpg.toNat 0 m pt

/-- The little-endian bytes of a 32-bit word. -/
def wordBytes (w : Word) : List Byte :=
  (List.range 4).map fun i => BitVec.ofNat 8 (w.toNat / 256 ^ i)

/-- Copy the strings from the buffer to `cp` and store their addresses at `cpp`. -/
def storeArgs (pt : PageTable) :
    Nat → List Byte → Word → Word → Memory → Except Stop (Word × Memory)
  | 0, _, cpp, _, m => .ok (cpp, m)
  | n + 1, cp2, cpp, cp, m => do
      let arg := cp2.takeWhile (· ≠ 0)
      let m ← m.storeRange pt cpp.toNat (wordBytes cp)
      let m ← m.storeRange pt cp.toNat (arg ++ [0])
      storeArgs pt n (cp2.drop (arg.length + 1)) (cpp + 4)
        (cp + BitVec.ofNat 32 (arg.length + 1)) m

/-- "Build the argument list on the new stack". -/
def buildStack (plan : LoadPlan) (argbuf : ArgBuf) (pt : PageTable) (m : Memory) :
    Except Stop Memory := do
  let m ← m.storeFun pt plan.cpp.toNat (vmem1Limit - plan.cpp.toNat) fun _ => 0
  let m ← m.storeRange pt plan.cpp.toNat (wordBytes (BitVec.ofNat 32 argbuf.argcount))
  let (cpp, m) ← storeArgs pt argbuf.argcount argbuf.bytes (plan.cpp + 4) plan.cp m
  let m ← m.storeRange pt cpp.toNat (wordBytes 0)
  m.storeRange pt (cpp + 4).toNat (wordBytes 0)

/-- `li.t_npg << PAGESHIFT` and `li.id_npg << PAGESHIFT`, which wrap like the 32-bit words they
are. -/
def segmentSize (npg : Word) : Nat := npg.toNat * pageSize % 0x100000000

/-- `read(fd, va, size)`, and whether it delivers `size` bytes. -/
def readInto (m : Memory) (pt : PageTable) (va : Word) (size : Nat) :
    ReadAnswer → Except Stop (Bool × Memory)
  | none => .ok (false, m)
  | some (count, bytes) => do
      let m ← m.storeFun pt va.toNat (min count size) bytes
      return (decide (count = size), m)

namespace Kernel

/-- What `LoadProgram` does to the memory and to the PCB `b` of the process once the file, the
program layout and the argument buffer are there. -/
def loadImage (req : LoadRequest) (li : LoadInfo) (plan : LoadPlan) (argbuf : ArgBuf) (m : Memory)
    (b : PCB) : Except Stop (Status × Memory × PCB) := do
  let (m, pt) := clearRegion1 (List.range maxPtLen) m b.ptbr
  let (m, pt) ← loadSegments plan m pt
  let (textOk, m) ← readInto m pt li.tVaddr (segmentSize li.tNpg) req.text
  if !textOk then return (.kill, m, { b with ptbr := pt })
  else
    let (dataOk, m) ← readInto m pt li.idVaddr (segmentSize li.idNpg) req.data
    if !dataOk then return (.kill, m, { b with ptbr := pt })
    else
      let pt ← protectText plan.textPg1 plan.textNpg 0 pt
      let m ← m.storeFun pt li.idEnd.toNat (li.udEnd - li.idEnd).toNat fun _ => 0
      let heap := BitVec.ofInt 32 (plan.dataPg1 * pageSize + vmem1Base)
      let stack := BitVec.ofInt 32 (plan.stackBase * pageSize + vmem1Base)
      let m ← buildStack plan argbuf pt m
      return (.success, m,
        { b with
          ptbr := pt
          userContext := { b.userContext with pc := li.entry }
          userHeapStartVaddr := heap
          userHeapEndVaddr := heap
          userStackBaseVaddr := stack })

/-- `LoadProgram(name, args, proc)`.  The arguments are read twice, to count them and to save them,
before the old region 1 goes.  Saving them runs past the end of the buffer when its size was
computed wrongly. -/
def loadProgram (env : Env) (s : Kernel) (req : LoadRequest) (argv : ArgVector) (proc : PcbPtr) :
    Except Stop (Status × Kernel) := do
  let b ← s.deref proc
  match req.info with
  | none => return (.error, s)
  | some li =>
      if li.entry.toNat < vmem1Base then return (.error, s)
      else
        let args ← s.argStrings argv
        match loadPlan li args b.ptlr with
        | none => return (.error, s)
        | some plan =>
            let b := { b with userContext := { b.userContext with sp := plan.cpp } }
            let (allocated, s) := s.malloc env
            if !allocated then return (.kill, s.setPcb proc b)
            else if argSize args ≠ argBytes args then throw .heapOverflow
            else
              let saved ← s.argStrings argv
              let (status, m, b) ← loadImage req li plan (saveArgs saved) s.mem b
              return (status, (s.setMem m).setPcb proc b)

/-- `Exec(filename, args)`: only `ERROR` counts as a failure. -/
def exec (env : Env) (s : Kernel) (req : LoadRequest) (argv : Word) :
    Except Stop (Int × Kernel) := do
  let (status, s) ← s.loadProgram env req (.user argv) s.currentProcess
  if status = .error then return (Status.error.code, s)
  else return (Status.success.code, s)

end Kernel

end Yalnix
