/-
Module: Yalnix.Tty
Purpose: The terminal system calls TtyRead and TtyWrite, each cut at its context switches.
Trusted boundary: translated from src/syscalls/tty.c
Main exports: beginTtyTransmit, ttyRead, ttyWrite, ttyWriteLocked
-/
import Yalnix.Process

namespace Yalnix

/-- A terminal as `InitializeTerminals` leaves it. -/
def Terminal.initial : Terminal where
  readBuffer := List.replicate terminalMaxLine 0
  readBufferLen := 0
  writeBuffer := none
  writeBufferLen := 0
  writeBufferPosition := 0
  currentWriter := none
  inUse := false

/-- The bytes that wait in the read buffer. -/
def Terminal.unread (terminal : Terminal) : List Byte :=
  terminal.readBuffer.take terminal.readBufferLen

/-- Take the first `n` bytes out of the read buffer and move the rest down. -/
def Terminal.shiftRead (terminal : Terminal) (n : Nat) : Terminal :=
  let rest := terminal.readBufferLen - n
  { terminal with
    readBuffer := (terminal.readBuffer.drop n).take rest ++ terminal.readBuffer.drop rest
    readBufferLen := rest }

namespace Kernel

/-- `TtyTransmit(tty, buf + position, n)`: hand bytes of the write buffer to the terminal. -/
def ttyTransmit (s : Kernel) (tty : TtyId) (position n : Nat) : Kernel :=
  s.log (.ttyTransmit tty ((((s.terminals tty).writeBuffer.getD []).drop position).take n))

/-- `BeginTtyTransmit(tty, writer, buf, len)`. -/
def beginTtyTransmit (env : Env) (s : Kernel) (tty : TtyId) (writer : PcbPtr) (buf : Word)
    (len : Nat) : Except Stop (Status × Kernel) := do
  let (allocated, s) := s.malloc env
  if !allocated then
    let s := s.setTerminal tty { s.terminals tty with writeBuffer := none }
    let s ← s.modifyPcb writer fun b =>
      { b with userContext := b.userContext.setReturn Status.error.code }
    return (.error, s)
  else
    let bytes ← s.loadUser buf len
    let bytesToWrite := if terminalMaxLine < len then terminalMaxLine else len
    let s := s.setTerminal tty
      { s.terminals tty with
        writeBuffer := some bytes
        writeBufferLen := len
        writeBufferPosition := 0
        currentWriter := some writer }
    let s := s.ttyTransmit tty 0 bytesToWrite
    let s := s.setTerminal tty { s.terminals tty with writeBufferPosition := bytesToWrite }
    return (.success, s)

/-- The argument check of `TtyRead` and `TtyWrite`; `none` where they return `ERROR`. -/
def ttyArguments (ttyId : Int) (buf : Word) (len : Int) : Option (TtyId × Nat) :=
  if ttyId < 0 ∨ buf = 0 ∨ len ≤ 0 then none
  else if range : ttyId.toNat < 4 then some (⟨ttyId.toNat, range⟩, len.toNat)
  else none

/-- `TtyRead` with valid arguments, up to its return or its context switch. -/
def ttyReadValid (env : Env) (s : Kernel) (tty : TtyId) (buf : Word) (len : Nat) :
    Except Stop (Option Int × Kernel) := do
  let terminal := s.terminals tty
  let curr := s.currentProcess
  if 0 < terminal.readBufferLen then
    let bytesToRead := if terminal.readBufferLen < len then terminal.readBufferLen else len
    let (allocated, s) := s.malloc env
    if !allocated then return (some Status.error.code, s)
    else
      let block := terminal.readBuffer.take bytesToRead
      let s ← s.modifyPcb curr fun b =>
        { b with ttyKernelReadBuf := some block, kernelReadSize := bytesToRead }
      let s := s.log (.ttyReadTaken curr tty block)
      let s := s.setTerminal tty (terminal.shiftRead bytesToRead)
      return (some bytesToRead, s)
  else
    let s := s.log (.ttyReadBlocked curr tty (env.mallocOk s.mallocCalls))
    let s := s.queueEnqueue env (.readers tty) curr
    let s := s.queueEnqueue env .blocked curr
    let s ← s.modifyPcb curr fun b =>
      { b with state := .blocked, ttyReadBuf := buf, ttyReadLen := len }
    let s ← s.dispatch (.ttyRead tty buf len)
    return (none, s)

/-- `TtyRead(tty_id, buf, len)` up to its return or its context switch. -/
def ttyRead (env : Env) (s : Kernel) (ttyId : Int) (buf : Word) (len : Int) :
    Except Stop (Option Int × Kernel) :=
  match ttyArguments ttyId buf len with
  | none => .ok (some Status.error.code, s)
  | some (tty, n) => s.ttyReadValid env tty buf n

/-- `TtyWrite` once the terminal is the caller's, up to its return or its context switch. -/
def ttyWriteLocked (env : Env) (s : Kernel) (tty : TtyId) (buf : Word) (len : Nat) :
    Except Stop (Option Int × Kernel) := do
  let curr := s.currentProcess
  let s := s.setTerminal tty { s.terminals tty with inUse := true }
  let (status, s) ← s.beginTtyTransmit env tty curr buf len
  if status = .error then
    let s := s.setTerminal tty { s.terminals tty with inUse := false }
    match s.queueDequeue (.writers tty) with
    | (none, s) => return (some Status.error.code, s)
    | (some nextWriter, s) =>
        let s ← s.modifyPcb nextWriter fun b => { b with state := .ready }
        return (some Status.error.code, s.queueEnqueue env .ready nextWriter)
  else
    let s ← s.modifyPcb curr fun b => { b with state := .blocked }
    let s := s.queueEnqueue env .blocked curr
    let s ← s.dispatch (.ttyWriteDone tty len)
    return (none, s)

/-- `TtyWrite` with valid arguments, up to its return or its context switch. -/
def ttyWriteValid (env : Env) (s : Kernel) (tty : TtyId) (buf : Word) (len : Nat) :
    Except Stop (Option Int × Kernel) := do
  let curr := s.currentProcess
  let s := s.log (.ttyWriteCalled curr tty (s.userBytes curr buf len))
  if (s.terminals tty).inUse then
    let s := s.queueEnqueue env (.writers tty) curr
    let s ← s.modifyPcb curr fun b => { b with state := .blocked }
    let s := s.queueEnqueue env .blocked curr
    let s ← s.dispatch (.ttyWriteLock tty buf len)
    return (none, s)
  else s.ttyWriteLocked env tty buf len

/-- `TtyWrite(tty_id, buf, len)` up to its return or its context switch. -/
def ttyWrite (env : Env) (s : Kernel) (ttyId : Int) (buf : Word) (len : Int) :
    Except Stop (Option Int × Kernel) :=
  match ttyArguments ttyId buf len with
  | none => .ok (some Status.error.code, s)
  | some (tty, n) => s.ttyWriteValid env tty buf n

end Kernel

end Yalnix
