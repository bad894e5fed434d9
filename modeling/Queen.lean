import Queen.Lib.Transition
import Queen.Lib.PriorityQueue
import Queen.Lib.Store
import Queen.Lib.Fold
import Queen.Lib.Bytes
import Queen.Executor.Weight
import Queen.Executor.RunQueue
import Queen.Executor.Window
import Queen.Executor.Spec
import Queen.Executor.System
import Queen.Executor.Races
import Queen.Memory.Frame
import Queen.Memory.Paging
import Queen.Memory.Handler
import Queen.Memory.MemorySet
import Queen.Memory.Pages
import Queen.Memory.Entries
import Queen.Process.Table
import Queen.Process.Lifecycle
import Queen.Syscall.UserMemory
import Queen.Memory.Invariant
import Queen.Memory.Split
import Queen.Memory.Spaces
import Queen.Memory.UserAccess
import Queen.Memory.Progress
import Queen.Process.UserVm
import Queen.Memory.Fork
import Queen.Arch.Trap
import Queen.Arch.Signal
import Queen.Process.Exit
import Queen.Lib.SortedMap
import Queen.Sync.EventBus
import Queen.Task.Timer
import Queen.Lib.Locks
import Queen.Executor.Locks
import Queen.Memory.SplitRange
import Queen.Fs.File
import Queen.Fs.Readers
import Queen.Lib.Path
import Queen.Syscall.Fs
import Queen.Signal.Queue
import Queen.Executor.Turns
import Queen.Executor.CalcDelta
import Queen.Memory.FreeArea
import Queen.Memory.FileFault
import Queen.Process.InitStack
import Queen.Arch.Paging
import Queen.Syscall.Files
import Queen.Fs.Tty
import Queen.Sync.Spin
import Queen.Arch.Boot
