import Yalnix.Machine
import Yalnix.Sched
import Yalnix.Proofs.Effects
import Yalnix.Proofs.Simulation
import Yalnix.Lib.Tally
import Yalnix.Proofs.Registration
import Yalnix.Proofs.Start
import Yalnix.Run
import Yalnix.Proofs.ExecOutcome
import Yalnix.Proofs.ExitFinal
import Yalnix.Proofs.Places
import Yalnix.Proofs.Family
import Yalnix.Proofs.Reaping
import Yalnix.Proofs.UserMemory
import Yalnix.Proofs.Links
import Yalnix.Proofs.Buffers
import Yalnix.Proofs.Slots
import Yalnix.Proofs.StatusStore
import Yalnix.Proofs.Frames
import Yalnix.Proofs.Loading
import Yalnix.Proofs.LoadLayout
import Yalnix.Proofs.LoadFrames
import Yalnix.Proofs.RegionZero
import Yalnix.Proofs.KernelStack
import Yalnix.Proofs.RegionOne
import Yalnix.Lib.Lookaside
import Yalnix.Lib.Fifo
import Yalnix.Lib.BlockStore
import Yalnix.Lib.Bytes
import Yalnix.Tlb
import Yalnix.Proofs.TlbCoherence
import Yalnix.Proofs.HeapStack
import Yalnix.Proofs.FailedCalls
import Yalnix.Proofs.Bystander
import Yalnix.Proofs.Delays
import Yalnix.Proofs.Terminals
import Yalnix.Proofs.ReadStream
import Yalnix.Proofs.Returns
import Yalnix.Proofs.ReadCalls
import Yalnix.Proofs.UserContexts
import Yalnix.Proofs.Dispatching
import Yalnix.Proofs.AddressSpace
import Yalnix.Proofs.ArgumentStack
import Yalnix.Proofs.BootMemory
import Yalnix.Proofs.Zombies
import Yalnix.Proofs.ForkMemory
import Yalnix.Lib.Holdings
import Yalnix.Proofs.FrameHoldings
import Yalnix.Proofs.FreshPages
import Yalnix.Proofs.HeapBreak
import Yalnix.Proofs.Survival
import Yalnix.Proofs.RefusedCalls
import Yalnix.Proofs.StackGrowth
import Yalnix.Proofs.KernelHeap
import Yalnix.Proofs.HeapStart
import Yalnix.Proofs.ForkAlike
import Yalnix.Proofs.SpaceOps
import Yalnix.Proofs.SpaceSteps
import Yalnix.Proofs.Isolation
import Yalnix.Proofs.FrameAccounts
import Yalnix.Lib.Linked
import Yalnix.Blocks
import Yalnix.Queue
import Yalnix.Proofs.Queues
import Yalnix.Proofs.QueueLists
import Yalnix.Proofs.QueueIterate
import Yalnix.ProcTable
import Yalnix.Proofs.ProcessCreation
import Yalnix.Proofs.FailedWrites
import Yalnix.Lib.Line
import Yalnix.Proofs.Inside
import Yalnix.Proofs.WriteSteps
import Yalnix.Proofs.Turns
import Yalnix.Proofs.SameMemory
import Yalnix.Proofs.SerialWrites
import Yalnix.Lib.Tiling
import Yalnix.Malloc
import Yalnix.Proofs.HeapChain
import Yalnix.Proofs.HeapCalls
import Yalnix.Proofs.HeapResize
import Yalnix.Proofs.HeapStore
import Yalnix.Proofs.HeapRuns
import Yalnix.Proofs.StepRule
import Yalnix.Proofs.PagesKept
import Yalnix.Proofs.PrivateMemory
import Yalnix.Proofs.StackPages
import Yalnix.Proofs.HeapOverKernel
import Yalnix.Proofs.ProgramText
import Yalnix.Proofs.LoadedImage
import Yalnix.Proofs.WakeUps
import Yalnix.Proofs.Children
import Yalnix.Proofs.Wakeful
import Yalnix.Proofs.BlockedProcesses
