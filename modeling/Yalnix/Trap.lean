/-
Module: Yalnix.Trap
Purpose: The trap handlers, and the way a process that was switched to returns from the context
  switch it had saved.
Trusted boundary: translated from src/traps/trap.c
Main exports: clockTrapHandler, kernelTrapHandler, memoryTrapHandler, ttyTrapTransmitHandler,
  ttyTrapReceiveHandler, growStack, checkBuffer, resume
-/
import Yalnix.Loader
import Yalnix.Tty

namespace Yalnix

/-! ### System call numbers -/

@[simp] def yalnixFork : Word := 0xabcdef01
@[simp] def yalnixExec : Word := 0xabcdef02
@[simp] def yalnixExit : Word := 0xabcdef03
@[simp] def yalnixWait : Word := 0xabcdef04
@[simp] def yalnixGetPid : Word := 0xabcdef05
@[simp] def yalnixBrk : Word := 0xabcdef06
@[simp] def yalnixDelay : Word := 0xabcdef07
@[simp] def yalnixTtyRead : Word := 0xabcdef21
@[simp] def yalnixTtyWrite : Word := 0xabcdef22

/-- `YALNIX_MAPERR`. -/
@[simp] def yalnixMapErr : Word := 1

/-- `YALNIX_ACCERR`. -/
@[simp] def yalnixAccErr : Word := 2

/-- `CheckBuffer`: `start + len` wraps around like the `unsigned long` it is. -/
def checkBuffer (addr len : Word) : Bool :=
  !(decide (addr.toNat < vmem1Base) || decide (vmem1Limit < (addr + len).toNat))

namespace Kernel

/-! ### Clock -/

/-- `trapHandlerHelper`. -/
def trapHandlerHelper (env : Env) (s : Kernel) (process : PcbPtr) : Except Stop Kernel := do
  let b ← s.deref process
  if 0 < b.delayTicks then
    let s ← s.modifyPcb process fun b => { b with delayTicks := b.delayTicks - 1 }
    if b.delayTicks - 1 = 0 then
      let s := s.queueRemove .blocked process
      let s ← s.modifyPcb process fun b => { b with state := .ready }
      return s.queueEnqueue env .ready process
    else return s
  else return s

/-- `queueIterate(blocked_queue, NULL, trapHandlerHelper)`.  The next node is read before the
callback runs and the callback unlinks no later node, so the visited entries are those the queue
holds at the start. -/
def iterateBlocked (env : Env) : List PcbPtr → Kernel → Except Stop Kernel
  | [], s => .ok s
  | process :: rest, s => do
      let s ← s.trapHandlerHelper env process
      iterateBlocked env rest s

/-- `ClockTrapHandler`. -/
def clockTrapHandler (env : Env) (s : Kernel) : Except Stop Kernel := do
  let curr := s.currentProcess
  let s ← s.saveContext
  let s ← iterateBlocked env (s.queues .blocked) s
  match s.queueDequeue .ready with
  | (none, s) => s.restoreContext
  | (some next, s) =>
      let c ← s.deref curr
      let s ←
        if c.state = .running ∧ c.pid ≠ 0 then do
          let s ← s.modifyPcb curr fun b => { b with state := .ready }
          pure (s.queueEnqueue env .ready curr)
        else pure s
      s.kcSwitch .clockTrap curr next

/-! ### Terminals -/

/-- `TtyTrapTransmitHandler`. -/
def ttyTrapTransmitHandler (env : Env) (s : Kernel) (tty : TtyId) : Except Stop Kernel := do
  let s := s.log (.ttyTransmitTrap tty)
  let terminal := s.terminals tty
  if terminal.writeBufferPosition < terminal.writeBufferLen then
    let remaining := terminal.writeBufferLen - terminal.writeBufferPosition
    let bytesToWrite := if terminalMaxLine < remaining then terminalMaxLine else remaining
    let s := s.ttyTransmit tty terminal.writeBufferPosition bytesToWrite
    return s.setTerminal tty
      { terminal with writeBufferPosition := terminal.writeBufferPosition + bytesToWrite }
  else
    let bytesWritten := terminal.writeBufferLen
    let s := s.setTerminal tty
      { terminal with
        writeBuffer := none
        writeBufferLen := 0
        writeBufferPosition := 0
        currentWriter := none }
    let s ←
      match terminal.currentWriter with
      | none => pure s
      | some writer => do
          let s ← s.modifyPcb writer fun b =>
            { b with state := .ready, userContext := b.userContext.setReturn bytesWritten }
          let s := s.queueRemove .blocked writer
          pure (s.queueEnqueue env .ready writer)
    match s.queueDequeue (.writers tty) with
    | (some nextWriter, s) =>
        let s ← s.modifyPcb nextWriter fun b => { b with state := .ready }
        let s := s.queueRemove .blocked nextWriter
        return s.queueEnqueue env .ready nextWriter
    | (none, s) => return s.setTerminal tty { s.terminals tty with inUse := false }

/-- The loop of `TtyTrapReceiveHandler`, over the readers that were blocked at its start. -/
def serveReaders (env : Env) (tty : TtyId) : List PcbPtr → Kernel → Except Stop Kernel
  | [], s => .ok s
  | reader :: rest, s =>
      if (s.terminals tty).readBufferLen = 0 then .ok s
      else do
        let s := s.setQueue (.readers tty) rest
        let terminal := s.terminals tty
        let r ← s.deref reader
        let bytesToRead :=
          if r.ttyReadLen < terminal.readBufferLen then r.ttyReadLen else terminal.readBufferLen
        let (allocated, s) := s.malloc env
        let s := s.log (.ttyReaderServed reader tty)
        let s ←
          if allocated then do
            let block := terminal.readBuffer.take bytesToRead
            let s ← s.modifyPcb reader fun b =>
              { b with
                ttyKernelReadBuf := some block
                kernelReadSize := bytesToRead
                userContext := b.userContext.setReturn bytesToRead }
            let s := s.log (.ttyReadTaken reader tty block)
            pure (s.setTerminal tty (terminal.shiftRead bytesToRead))
          else s.modifyPcb reader fun b => { b with userContext := b.userContext.setReturn 0 }
        let s := s.queueRemove .blocked reader
        let s ← s.modifyPcb reader fun b => { b with state := .ready }
        let s := s.queueEnqueue env .ready reader
        serveReaders env tty rest s

/-- `TtyTrapReceiveHandler`, when `TtyReceive` delivers `data`. -/
def ttyTrapReceiveHandler (env : Env) (s : Kernel) (tty : TtyId) (data : List Byte) :
    Except Stop Kernel :=
  let terminal := s.terminals tty
  let len := terminal.readBufferLen
  let s := s.log (.ttyReceive tty data)
  let s := s.setTerminal tty
    { terminal with
      readBuffer :=
        terminal.readBuffer.take len ++ data ++ terminal.readBuffer.drop (len + data.length)
      readBufferLen := len + data.length }
  serveReaders env tty (s.queues (.readers tty)) s

/-! ### Memory and fatal traps -/

/-- `growStack(addr)`. -/
def growStack (s : Kernel) (addr : Word) : Except Stop (Status × Kernel) := do
  let curr := s.currentProcess
  let c ← s.deref curr
  let targetVpn := pageOf (downToPage addr)
  let stackBaseVpn := pageOf (downToPage c.userStackBaseVaddr)
  let (status, m, pt) ←
    Memory.growStackPages targetVpn (stackBaseVpn - targetVpn) 0 s.mem c.ptbr
  if status = .kill then return (.kill, (s.setMem m).setPcb curr { c with ptbr := pt })
  else
    return (.success,
      (s.setMem m).setPcb curr { c with ptbr := pt, userStackBaseVaddr := downToPage addr })

/-- What `MemoryTrapHandler` decides to do about a fault. -/
inductive TrapAction where
  | grow
  | kill
  | ignore
deriving DecidableEq, Repr

/-- The tests of `MemoryTrapHandler`.  The one for `YALNIX_MAPERR` stands twice, and the branch for
`YALNIX_ACCERR` belongs to the second, so that it is never taken. -/
def memoryTrapAction (b : PCB) (ctx : UserContext) : TrapAction :=
  let heapLimit := upToPage b.userHeapEndVaddr
  let stackBase := downToPage b.userStackBaseVaddr
  if ctx.code = yalnixMapErr ∧ heapLimit.toNat < ctx.addr.toNat ∧
      ctx.addr.toNat < stackBase.toNat then .grow
  else if ctx.code = yalnixMapErr then
    if ctx.code = yalnixMapErr then .kill
    else if ctx.code = yalnixAccErr then .kill
    else .ignore
  else .ignore

/-- A fault that is let through lies above the heap's limit and below the stack's base. -/
theorem memoryTrapAction_grow {b : PCB} {ctx : UserContext} : memoryTrapAction b ctx = .grow ↔
    ctx.code = yalnixMapErr ∧ (upToPage b.userHeapEndVaddr).toNat < ctx.addr.toNat ∧
      ctx.addr.toNat < (downToPage b.userStackBaseVaddr).toNat := by
  unfold memoryTrapAction
  dsimp only
  constructor
  · intro action
    by_contra refused
    rw [if_neg refused] at action
    split at action
    · cases action
    · cases action
  · intro tests
    rw [if_pos tests]

/-- A fault for another reason, such as a store to a page of the text, is ignored. -/
theorem memoryTrapAction_ignore {b : PCB} {ctx : UserContext} (other : ctx.code ≠ yalnixMapErr) :
    memoryTrapAction b ctx = .ignore := by
  unfold memoryTrapAction
  rw [if_neg fun tests => other tests.1, if_neg other]

/-- The other faults on pages that are not mapped kill. -/
theorem memoryTrapAction_kill {b : PCB} {ctx : UserContext} : memoryTrapAction b ctx = .kill ↔
    ctx.code = yalnixMapErr ∧ memoryTrapAction b ctx ≠ .grow := by
  by_cases mapErr : ctx.code = yalnixMapErr
  · unfold memoryTrapAction
    dsimp only
    rw [if_pos mapErr, if_pos mapErr]
    split
    · simp
    · simp [mapErr]
  · rw [memoryTrapAction_ignore mapErr]
    exact iff_of_false TrapAction.noConfusion fun both => mapErr both.1

/-- `MemoryTrapHandler`. -/
def memoryTrapHandler (env : Env) (s : Kernel) : Except Stop Kernel := do
  let c ← s.deref s.currentProcess
  match memoryTrapAction c s.ctx with
  | .grow =>
      let (status, s) ← s.growStack s.ctx.addr
      if status = .kill then s.exit env Status.error.code .memoryTrap else return s
  | .kill => s.exit env Status.error.code .memoryTrap
  | .ignore => return s

/-- `MathTrapHandler` and `IllegalInstructionTrapHandler`. -/
def fatalTrapHandler (env : Env) (s : Kernel) : Except Stop Kernel :=
  s.exit env Status.error.code .fatalTrap

/-! ### System calls -/

/-- The end of the `YALNIX_TTY_READ` case: copy the parked block to the user's buffer. -/
def unpackRead (s : Kernel) (tty : TtyId) (buf : Word) (len rc : Int) : Except Stop Kernel := do
  let curr := s.currentProcess
  let c ← s.deref curr
  let s ←
    match c.ttyKernelReadBuf with
    | none => pure s
    | some block =>
        if 0 < rc then do
          let s ← s.storeUser buf (block.take c.kernelReadSize)
          s.modifyPcb curr fun b => { b with ttyKernelReadBuf := none, kernelReadSize := 0 }
        else pure s
  let s := s.log (.ttyReadReturned curr tty buf len rc)
  s.returnToUser rc

/-- Finish a system call that came back with `rc`; leave one that is still in progress alone. -/
def finish (result : Option Int × Kernel) (done : Int → Kernel → Except Stop Kernel) :
    Except Stop Kernel :=
  match result with
  | (some rc, s) => done rc s
  | (none, s) => .ok s

/-- The end of the `YALNIX_WAIT` case. -/
def finishWait (statusPtr : Word) (rc : Int) (s : Kernel) : Except Stop Kernel :=
  (s.log (.waitReturned s.currentProcess statusPtr rc)).returnToUser rc

/-- The end of the `YALNIX_TTY_WRITE` case; the call is only recorded when its arguments were
valid. -/
def finishTtyWrite (tty : Option TtyId) (rc : Int) (s : Kernel) : Except Stop Kernel :=
  match tty with
  | some tty => (s.log (.ttyWriteReturned s.currentProcess tty rc)).returnToUser rc
  | none => s.returnToUser rc

/-- The `YALNIX_DELAY` case. -/
def trapDelay (env : Env) (s : Kernel) : Except Stop Kernel := do
  let ticks := s.ctx.intReg 0
  let s ← s.saveContext
  let result ← s.delay env ticks
  finish result fun rc s =>
    if rc = Status.error.code then .error .halt else s.returnToUser rc

/-- The `YALNIX_BRK` case. -/
def trapBrk (env : Env) (s : Kernel) : Except Stop Kernel := do
  let addr := s.ctx.regs 0
  let s ← s.saveContext
  let (status, s) ← s.brk env addr
  if status = .error then throw .halt else s.returnToUser status.code

/-- The `YALNIX_FORK` case. -/
def trapFork (env : Env) (s : Kernel) : Except Stop Kernel := do
  let s ← s.saveContext
  let (status, s) ← s.fork env
  if status = .error then throw .halt else s.restoreContext

/-- The `YALNIX_GETPID` case. -/
def trapGetPid (s : Kernel) : Except Stop Kernel := do
  let s ← s.saveContext
  let pid ← s.getPid
  if pid = -1 then throw .halt else s.returnToUser pid

/-- The `YALNIX_WAIT` case. -/
def trapWait (s : Kernel) : Except Stop Kernel := do
  let statusPtr := s.ctx.regs 0
  let s ← s.saveContext
  let result ← s.wait statusPtr
  finish result (finishWait statusPtr)

/-- The `YALNIX_EXIT` case. -/
def trapExit (env : Env) (s : Kernel) : Except Stop Kernel :=
  s.exit env (s.ctx.intReg 0) .syscall

/-- The `YALNIX_EXEC` case; `req` answers for the file that register 0 names. -/
def trapExec (env : Env) (s : Kernel) (req : LoadRequest) : Except Stop Kernel := do
  let argv := s.ctx.regs 1
  let s ← s.saveContext
  let (rc, s) ← s.exec env req argv
  s.returnToUser rc

/-- The `YALNIX_TTY_READ` case. -/
def trapTtyRead (env : Env) (s : Kernel) : Except Stop Kernel := do
  let ttyId := s.ctx.intReg 0
  let buf := s.ctx.regs 1
  let len := s.ctx.intReg 2
  if checkBuffer buf (s.ctx.regs 2) then
    let s ← s.saveContext
    let result ← s.ttyRead env ttyId buf len
    finish result fun rc s =>
      match ttyArguments ttyId buf len with
      | some (tty, _) => s.unpackRead tty buf len rc
      | none => s.returnToUser rc
  else return { s with ctx := s.ctx.setReturn Status.error.code }

/-- The `YALNIX_TTY_WRITE` case. -/
def trapTtyWrite (env : Env) (s : Kernel) : Except Stop Kernel := do
  let ttyId := s.ctx.intReg 0
  let buf := s.ctx.regs 1
  let len := s.ctx.intReg 2
  if checkBuffer buf (s.ctx.regs 2) then
    let s ← s.saveContext
    let result ← s.ttyWrite env ttyId buf len
    finish result (finishTtyWrite ((ttyArguments ttyId buf len).map Prod.fst))
  else return { s with ctx := s.ctx.setReturn Status.error.code }

/-- `KernelTrapHandler`; other codes fall through its `switch`. -/
def kernelTrapHandler (env : Env) (s : Kernel) (req : LoadRequest) : Except Stop Kernel :=
  let code := s.ctx.code
  if code = yalnixDelay then s.trapDelay env
  else if code = yalnixBrk then s.trapBrk env
  else if code = yalnixFork then s.trapFork env
  else if code = yalnixGetPid then s.trapGetPid
  else if code = yalnixWait then s.trapWait
  else if code = yalnixExit then s.trapExit env
  else if code = yalnixExec then s.trapExec env req
  else if code = yalnixTtyRead then s.trapTtyRead env
  else if code = yalnixTtyWrite then s.trapTtyWrite env
  else .ok s

/-! ### Coming back from a context switch -/

/-- The current process returns from the `KernelContextSwitch` it saved and runs on to its return to
user mode or to its next context switch. -/
def resume (env : Env) (s : Kernel) : Except Stop Kernel := do
  let c ← s.deref s.currentProcess
  match c.kernelContext with
  | .unsaved => throw .noContext
  | .kernelStart | .clockTrap => s.restoreContext
  | .fork child parent => do
      let s ← s.forkReturn env child parent
      s.restoreContext
  | .delay => s.returnToUser Status.success.code
  | .wait statusPtr => do
      let (rc, s) ← s.waitResumed statusPtr
      finishWait statusPtr rc s
  | .ttyRead tty buf len => s.unpackRead tty buf len (c.userContext.intReg 0)
  | .ttyWriteLock tty buf len => do
      let result ← s.ttyWriteLocked env tty buf len
      finish result (finishTtyWrite (some tty))
  | .ttyWriteDone tty len => finishTtyWrite (some tty) len s
  | .exit frame origin =>
      match origin with
      | .fatalTrap => throw .halt
      | .syscall | .memoryTrap => return { s with ctx := frame, mode := .user }

end Kernel

end Yalnix
