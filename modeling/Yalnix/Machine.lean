/-
Module: Yalnix.Machine
Purpose: The machine as a transition system: what can happen next, and the kernel's reaction.
Trusted boundary: the order of inputs is arbitrary; a trap is taken in user mode only, and a process
  that was switched to first returns from its saved context
Main exports: Input, deliver, Enabled, Step
-/
import Yalnix.Boot
import Yalnix.Lib.Transition

namespace Yalnix

/-- What happens next.  A trap carries the user context of the interrupted program. -/
inductive Input where
  /-- A system call; the request answers the call when it is `Exec`. -/
  | kernelTrap (ctx : UserContext) (req : LoadRequest)
  | clockTrap (ctx : UserContext)
  | memoryTrap (ctx : UserContext)
  | mathTrap (ctx : UserContext)
  | illegalTrap (ctx : UserContext)
  | ttyReceiveTrap (ctx : UserContext) (tty : TtyId) (data : List Byte)
  | ttyTransmitTrap (ctx : UserContext) (tty : TtyId)
  /-- The process that was switched to returns from its saved context. -/
  | resume
  /-- The running program writes its own memory. -/
  | userStore (va : Word) (bytes : List Byte)
  /-- The kernel's allocator moves the kernel break. -/
  | kernelBrk (addr : Word)

namespace Kernel

/-- The trap frame of an input. -/
def trap (s : Kernel) (ctx : UserContext) : Kernel := { s with ctx := ctx }

/-- The kernel's reaction to an input. -/
def deliver (env : Env) (s : Kernel) : Input → Except Stop Kernel
  | .kernelTrap ctx req => (s.trap ctx).kernelTrapHandler env req
  | .clockTrap ctx => (s.trap ctx).clockTrapHandler env
  | .memoryTrap ctx => (s.trap ctx).memoryTrapHandler env
  | .mathTrap ctx => (s.trap ctx).fatalTrapHandler env
  | .illegalTrap ctx => (s.trap ctx).fatalTrapHandler env
  | .ttyReceiveTrap ctx tty data => (s.trap ctx).ttyTrapReceiveHandler env tty data
  | .ttyTransmitTrap ctx tty => (s.trap ctx).ttyTrapTransmitHandler env tty
  | .resume => s.resume env
  | .userStore va bytes => s.storeUser va bytes
  | .kernelBrk addr => .ok (s.setMem (s.mem.setKernelBrk addr).2)

/-- When an input can happen: traps interrupt user mode; idle only ever pauses, so that it takes
clock and terminal interrupts alone; and `TtyReceive` delivers no more than it was asked for. -/
def Enabled (s : Kernel) : Input → Prop
  | .kernelTrap .. | .memoryTrap _ | .mathTrap _ | .illegalTrap _ | .userStore .. =>
      s.mode = .user ∧ s.currentProcess ≠ s.idleProc
  | .clockTrap _ | .ttyTransmitTrap .. | .kernelBrk _ => s.mode = .user
  | .ttyReceiveTrap _ tty data =>
      s.mode = .user ∧ data.length ≤ terminalMaxLine - (s.terminals tty).readBufferLen
  | .resume => s.mode = .kernel

instance (s : Kernel) : (i : Input) → Decidable (s.Enabled i)
  | .kernelTrap .. | .memoryTrap _ | .mathTrap _ | .illegalTrap _ | .userStore .. =>
      inferInstanceAs (Decidable (s.mode = .user ∧ s.currentProcess ≠ s.idleProc))
  | .clockTrap _ | .ttyTransmitTrap .. | .kernelBrk _ =>
      inferInstanceAs (Decidable (s.mode = .user))
  | .ttyReceiveTrap _ tty data =>
      inferInstanceAs (Decidable (s.mode = .user ∧
        data.length ≤ terminalMaxLine - (s.terminals tty).readBufferLen))
  | .resume => inferInstanceAs (Decidable (s.mode = .kernel))

/-- One step of the machine. -/
def Step (env : Env) (s : Kernel) (i : Input) (s' : Kernel) : Prop :=
  s.Enabled i ∧ s.deliver env i = .ok s'

end Kernel

end Yalnix
