import CapsuleOS.Lib.Outcome
import CapsuleOS.Lib.Slots
import CapsuleOS.Lib.Bytes
import CapsuleOS.Lib.Runs
import CapsuleOS.Shared.Status
import CapsuleOS.Memory.Phys
import CapsuleOS.Memory.PhysInit
import CapsuleOS.Memory.PhysRun
import CapsuleOS.Memory.Vmo
import CapsuleOS.Memory.VmoLayout
import CapsuleOS.Memory.VmoBacking
import CapsuleOS.Memory.VmoArray
import CapsuleOS.Memory.VmoCreate
import CapsuleOS.Memory.VmoRefinement
import CapsuleOS.Memory.Vmar
import CapsuleOS.Object.Kernel
import CapsuleOS.Ipc.Endpoint
import CapsuleOS.Object.HandleTable
import CapsuleOS.Ipc.Channel
import CapsuleOS.Ipc.Frames
import CapsuleOS.Ipc.Close
import CapsuleOS.Ipc.PairFrame
import CapsuleOS.Ipc.Delivery
import CapsuleOS.Ipc.DeliverySteps
import CapsuleOS.Ipc.DeliveryRun
import CapsuleOS.Ipc.Standing
import CapsuleOS.Ipc.Machine
import CapsuleOS.Ipc.Mailbox
import CapsuleOS.Ipc.MailboxRun
import CapsuleOS.Lib.Moves
import CapsuleOS.Ipc.Custody
import CapsuleOS.Ipc.CustodySteps
import CapsuleOS.Ipc.CustodyRun
import CapsuleOS.Ipc.Registry
import CapsuleOS.Ipc.Peers
import CapsuleOS.Ipc.PeersRun
import CapsuleOS.Ipc.Shelter
import CapsuleOS.Ipc.RegistryRun
import CapsuleOS.Ipc.Port
import CapsuleOS.Sync.Futex
import CapsuleOS.Task.Scheduler
import CapsuleOS.Task.Tasks
import CapsuleOS.Task.ReadyQueues
import CapsuleOS.Task.TaskRuns
import CapsuleOS.Task.Effects
import CapsuleOS.Task.Fates
import CapsuleOS.Task.Process
import CapsuleOS.Task.ProcessRuns
import CapsuleOS.Arch.Descriptors
import CapsuleOS.Arch.KernelTables
import CapsuleOS.Memory.VmoSlice
import CapsuleOS.Task.Forest
import CapsuleOS.Ipc.HandleValues
import CapsuleOS.Vfs.Pipe
import CapsuleOS.Vfs.FdCalls
import CapsuleOS.Vfs.PipeEnds
import CapsuleOS.Vfs.PipeRuns
import CapsuleOS.Fileagent.RamFs
import CapsuleOS.Fileagent.Tree
import CapsuleOS.Fileagent.TreeRuns
import CapsuleOS.Fileagent.Vfs
import CapsuleOS.Fileagent.OpenFiles
import CapsuleOS.Lib.Crc
import CapsuleOS.Lib.Fields
import CapsuleOS.Ohlink.Parser
import CapsuleOS.Ohlink.Builder
import CapsuleOS.Ohlink.RoundTrip
import CapsuleOS.Ohlink.Corruption
import CapsuleOS.Ohlink.Integrity
import CapsuleOS.Rootfs.Image
import CapsuleOS.Rootfs.Agreement
import CapsuleOS.Ohlink.Linker
import CapsuleOS.Sync.FutexLists
import CapsuleOS.Task.FutexCalls
import CapsuleOS.Task.FutexWaits
import CapsuleOS.Task.LaunchTrace
import CapsuleOS.Task.PortDelivery
import CapsuleOS.Task.PortWaiters
import CapsuleOS.Task.ProcessControl
import CapsuleOS.Arch.TreeSteps
import CapsuleOS.Arch.MapVa
import CapsuleOS.Arch.Tracking
import CapsuleOS.Lib.Lockstep
import CapsuleOS.Arch.Levels
import CapsuleOS.Task.TwoWalks
import CapsuleOS.Lib.Calls
import CapsuleOS.Syscall.Dispatch
import CapsuleOS.Lib.Total
import CapsuleOS.Fileagent.Commands
import CapsuleOS.Libc.Requests
import CapsuleOS.Fileagent.Serving
import CapsuleOS.Syscall.Abi
import CapsuleOS.Memory.PageCache
import CapsuleOS.Task.KernelStack
import CapsuleOS.Memory.TagIndex
import CapsuleOS.Memory.FrameCount
import CapsuleOS.Memory.Slab
import CapsuleOS.Memory.SlabRuns
import CapsuleOS.Lib.Loop
import CapsuleOS.Memory.Subregions
import CapsuleOS.Syscall.Validation
import CapsuleOS.Syscall.VmoHeap
import CapsuleOS.Arch.Asid
import CapsuleOS.Task.PortCapacity
import CapsuleOS.Task.FutexRequeue
import CapsuleOS.Task.Selection
import CapsuleOS.Task.Deaths
import CapsuleOS.Task.ThreadSlots
import CapsuleOS.Ipc.FailedWrite
import CapsuleOS.Ipc.FailedPair
import CapsuleOS.Ipc.TimedRead
import CapsuleOS.Task.TimedWait
import CapsuleOS.Lib.Access
import CapsuleOS.Ohlink.Records
import CapsuleOS.Ohlink.Totality
import CapsuleOS.Task.UserMemory
import CapsuleOS.Vfs.PipeContract
import CapsuleOS.Task.ArgvStack
import CapsuleOS.Task.WorkingDir
import CapsuleOS.Task.ProcessIds
import CapsuleOS.Task.Reaping
import CapsuleOS.Task.GivingWay
import CapsuleOS.Task.PriorityDecay
import CapsuleOS.Task.SignalExit
import CapsuleOS.Task.ProcessListing
import CapsuleOS.Runner.Instructions
import CapsuleOS.Rootfs.Loader
import CapsuleOS.Fdt.Search
import CapsuleOS.Lib.NameTree
import CapsuleOS.Fileagent.Contents
import CapsuleOS.Fileagent.Paths
import CapsuleOS.Fileagent.Grafts
import CapsuleOS.Fileagent.Removal
import CapsuleOS.Fileagent.Creation
import CapsuleOS.Fileagent.MkdirAtomic
import CapsuleOS.Fileagent.Results
import CapsuleOS.Libc.Remote
import CapsuleOS.Libc.Streaming
import CapsuleOS.Libc.Serial
import CapsuleOS.Lib.Utf8
import CapsuleOS.Osh.Parser
import CapsuleOS.Osh.Pipelines
import CapsuleOS.Ohlink.Checksum
import CapsuleOS.Lib.Refines
import CapsuleOS.Sync.WaiterRuns
import CapsuleOS.Ipc.WaiterArrays
import CapsuleOS.Task.SignalSelection
import CapsuleOS.Libc.Entry
import CapsuleOS.Libstd.Args
import CapsuleOS.Cat.RunCat
import CapsuleOS.Cat.Numbering
import CapsuleOS.Cat.Console
import CapsuleOS.Lib.Postorder
import CapsuleOS.Lib.Blocks
import CapsuleOS.Arch.Teardown
import CapsuleOS.Task.TableRelease
import CapsuleOS.Ipc.Grants
import CapsuleOS.Task.BoundedWait
import CapsuleOS.Lib.LineEdit
import CapsuleOS.Vfs.Console
import CapsuleOS.Osh.Shell
import CapsuleOS.Osh.Session
import CapsuleOS.Osh.Scripts
import CapsuleOS.Osh.Safety
