import VmwareProto.Library.Tree
import VmwareProto.Library.Balance
import VmwareProto.Library.System
import VmwareProto.Library.Ring
import VmwareProto.Library.Rings
import VmwareProto.Library.Queues
import VmwareProto.Library.LittleEndian
import VmwareProto.RangeLock.Model
import VmwareProto.RangeLock.Rep
import VmwareProto.RangeLock.Search
import VmwareProto.RangeLock.Insert
import VmwareProto.RangeLock.DeleteFixup
import VmwareProto.RangeLock.Delete
import VmwareProto.RangeLock.Runs
import VmwareProto.RangeLock.Lock
import VmwareProto.RangeLock.Entries
import VmwareProto.RangeLock.Exclusion
import VmwareProto.RangeLock.Waiting
import VmwareProto.RangeLock.Lifetime
import VmwareProto.RangeLock.Intervals
import VmwareProto.RangeLock.Depth
import VmwareProto.Libtask.QLock
import VmwareProto.Rpc.Wire
import VmwareProto.Rpc.Receive
import VmwareProto.Rpc.ReceiveSpec
import VmwareProto.Rpc.Bounds
import VmwareProto.Rpc.Channel
import VmwareProto.Rpc.Table
import VmwareProto.Rpc.Tasks
import VmwareProto.Rpc.Uses
import VmwareProto.Rpc.Steps
import VmwareProto.Rpc.Invariant
import VmwareProto.Rpc.Frames
import VmwareProto.Rpc.Discipline
import VmwareProto.Rpc.Stranded
import VmwareProto.Rpc.Rollback
import VmwareProto.Rpc.MsgPool
import VmwareProto.Rpc.Delivery
import VmwareProto.Rpc.Receiver
import VmwareProto.Rpc.Dispatch
import VmwareProto.Rpc.Messages
import VmwareProto.Rpc.Stream
import VmwareProto.Rpc.Cut
import VmwareProto.Rpc.Framing
import VmwareProto.Rpc.Numbered
import VmwareProto.Rpc.Wrap
import VmwareProto.Rpc.Matching
import VmwareProto.Library.Wholes
import VmwareProto.Library.Ledger
import VmwareProto.Mpp.Receive
import VmwareProto.Mpp.Bounds
import VmwareProto.Splitter.Handler
import VmwareProto.Mpp.Complete
import VmwareProto.Mpp.Wire
import VmwareProto.Splitter.Commands
import VmwareProto.Mpp.Endpoints
import VmwareProto.Mpp.Drop
import VmwareProto.Mpp.Channel
import VmwareProto.Mpp.Worlds
import VmwareProto.Mpp.Steps
import VmwareProto.Mpp.Frames
import VmwareProto.Mpp.Closing
import VmwareProto.Mpp.Sound
import VmwareProto.Mpp.Lists
import VmwareProto.Mpp.Others
import VmwareProto.Mpp.Framing
import VmwareProto.Mpp.Wholes
import VmwareProto.Mpp.Matching
import VmwareProto.Mpp.Commands
import VmwareProto.Library.Counters
import VmwareProto.BufPool.Model
import VmwareProto.BufPool.Accounts
import VmwareProto.BufPool.Ownership
import VmwareProto.BufPool.Wakeup
import VmwareProto.BufPool.Setup
import VmwareProto.BufPool.Shutdown
import VmwareProto.Splitter.Transfer
import VmwareProto.Splitter.Answers
import VmwareProto.Library.Linearizable
import VmwareProto.Splitter.Disk
import VmwareProto.Splitter.Ssd
import VmwareProto.Splitter.Ends
import VmwareProto.Vmk.Pool
import VmwareProto.Vmk.Accounts
import VmwareProto.Vmk.Reserve
import VmwareProto.Vmk.Recheck
import VmwareProto.Vmk.ThreadPool
import VmwareProto.Vmk.Works
import VmwareProto.Vmk.Once
import VmwareProto.Vmk.Datapath
import VmwareProto.Vmk.Flow
import VmwareProto.Vmk.ReceivePath
import VmwareProto.Vmk.Deadlock
import VmwareProto.Libtask.Task
import VmwareProto.Libtask.AllTask
import VmwareProto.Libtask.Taskio
import VmwareProto.Libtask.Program
import VmwareProto.Libtask.Places
import VmwareProto.Libtask.Watched
import VmwareProto.Libtask.Sound
import VmwareProto.Libtask.Steps
import VmwareProto.Libtask.OnePlace
import VmwareProto.Libtask.Dispatch
import VmwareProto.Libtask.Thread
import VmwareProto.Common.Hash
import VmwareProto.Common.Cleanup
import VmwareProto.Common.Prime
import VmwareProto.Common.Channels
import VmwareProto.Libtask.Cache
import VmwareProto.Libtask.Plain
import VmwareProto.Libtask.Registry
import VmwareProto.Libtask.Timer
import VmwareProto.Libtask.Registration
import VmwareProto.Libtask.Netrw
import VmwareProto.Rpc.Payload
import VmwareProto.Rpc.Sender
import VmwareProto.Rpc.Stray
import VmwareProto.Rpc.Setup
import VmwareProto.Rpc.Close
import VmwareProto.Rpc.OwnDescriptors
import VmwareProto.Vmk.Setup
import VmwareProto.Vmk.Stats
import VmwareProto.Libtask.Libaio
import VmwareProto.Libtask.Delivered
import VmwareProto.Libtask.Eventfd
import VmwareProto.Libtask.TimerThread
import VmwareProto.Libtask.Tame
import VmwareProto.Libtask.LifeCycle
import VmwareProto.Libtask.Callbacks
import VmwareProto.Libtask.Attended
import VmwareProto.Libtask.Wakeups
import VmwareProto.Library.Cycles
import VmwareProto.Common.Queue
import VmwareProto.Library.Holders
import VmwareProto.Rpc.Calm
import VmwareProto.Splitter.Side
import VmwareProto.Splitter.Owned
import VmwareProto.Splitter.OwnedReceiver
import VmwareProto.Splitter.OwnedSteps
import VmwareProto.Splitter.Clean
import VmwareProto.Splitter.Contents
import VmwareProto.Splitter.Session
import VmwareProto.Splitter.Conserved
import VmwareProto.Library.Remote
import VmwareProto.Splitter.Store
import VmwareProto.Splitter.Still
import VmwareProto.Splitter.Callers
import VmwareProto.Splitter.Workers
import VmwareProto.Splitter.Linearizable
import VmwareProto.Library.Slots
import VmwareProto.Library.Cooperative
import VmwareProto.Libtask.Alt
import VmwareProto.Libtask.Altqueues
import VmwareProto.Libtask.Altcopy
import VmwareProto.Libtask.Altexec
import VmwareProto.Libtask.Chanalt
import VmwareProto.Libtask.Chan
import VmwareProto.Library.Admissions
import VmwareProto.Libtask.RWLock
import VmwareProto.Libtask.RWOrder
import VmwareProto.Libtask.RWTasks
