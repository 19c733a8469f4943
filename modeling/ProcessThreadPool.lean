import ProcessThreadPool.Lib.Transition
import ProcessThreadPool.Lib.RingWindow
import ProcessThreadPool.Lib.WordMask
import ProcessThreadPool.Lib.BoundedFifo
import ProcessThreadPool.Lib.Simulation
import ProcessThreadPool.LockfreeQueue.Queue
import ProcessThreadPool.LockfreeQueue.Fifo
import ProcessThreadPool.LockfreeQueue.Sentinel
import ProcessThreadPool.LockfreeQueue.Spsc
import ProcessThreadPool.LockfreeQueue.SpscInvariant
import ProcessThreadPool.Lib.ThreadFamily
import ProcessThreadPool.Lib.WaitSet
import ProcessThreadPool.CThreadPool.Pool
import ProcessThreadPool.CThreadPool.Machine
import ProcessThreadPool.CThreadPool.Moves
import ProcessThreadPool.CThreadPool.Ring
import ProcessThreadPool.CThreadPool.Teardown
import ProcessThreadPool.CThreadPool.Locking
import ProcessThreadPool.Lib.Progress
import ProcessThreadPool.Lib.Projection
import ProcessThreadPool.CThreadPool.Signals
import ProcessThreadPool.CThreadPool.Destroy
import ProcessThreadPool.CppThreadPool.Pool
import ProcessThreadPool.CppThreadPool.Moves
import ProcessThreadPool.CppThreadPool.Books
import ProcessThreadPool.CppThreadPool.Completion
import ProcessThreadPool.CppThreadPool.Waiters
import ProcessThreadPool.CppThreadPool.Attendance
import ProcessThreadPool.CppThreadPool.Barrier
import ProcessThreadPool.CppThreadPool.Constructor
import ProcessThreadPool.CppThreadPool.Shutdown
import ProcessThreadPool.ModernPool.Task
import ProcessThreadPool.ModernPool.TaskLife
import ProcessThreadPool.ModernPool.TaskWait
import ProcessThreadPool.ModernPool.Timing
import ProcessThreadPool.ModernPool.ProcessTask
import ProcessThreadPool.ModernPool.Control
import ProcessThreadPool.ModernPool.Workers
import ProcessThreadPool.ModernPool.Counting
import ProcessThreadPool.ModernPool.Divisor
import ProcessThreadPool.ModernPool.Children
import ProcessThreadPool.Lib.ByteMemory
import ProcessThreadPool.ModernPool.SharedMemory
import ProcessThreadPool.ModernPool.Delivery
import ProcessThreadPool.ModernPool.Mapping
import ProcessThreadPool.ModernPool.Retry
import ProcessThreadPool.ModernPool.QueueService
import ProcessThreadPool.Lib.Decimal
import ProcessThreadPool.ModernPool.Naming
import ProcessThreadPool.Lib.Replacement
import ProcessThreadPool.ModernPool.Strings
import ProcessThreadPool.ModernPool.Cursors
import ProcessThreadPool.Lib.DescriptorTable
import ProcessThreadPool.PipePool.Kernel
import ProcessThreadPool.PipePool.Worker
import ProcessThreadPool.PipePool.Ownership
import ProcessThreadPool.PipePool.Master
import ProcessThreadPool.PipePool.Queue
import ProcessThreadPool.PipePool.Conservation
import ProcessThreadPool.PipePool.Handler
import ProcessThreadPool.PipePool.TwoProcesses
import ProcessThreadPool.PipePool.Destroy
import ProcessThreadPool.PipePool.Processes
import ProcessThreadPool.TaskQueuePool.TaskQueue
import ProcessThreadPool.TaskQueuePool.Service
import ProcessThreadPool.TaskQueuePool.Wakeup
import ProcessThreadPool.TaskQueuePool.ThreadPool
import ProcessThreadPool.TaskQueuePool.Stop
import ProcessThreadPool.TaskQueuePool.Termination
import ProcessThreadPool.MyThreadPool.ThreadFunc
import ProcessThreadPool.Lib.IntCodec
import ProcessThreadPool.Lib.SegmentedStream
import ProcessThreadPool.Lib.RefCounting
import ProcessThreadPool.ModernPool.BatchWait
import ProcessThreadPool.ModernPool.Launch
import ProcessThreadPool.ModernPool.ServeLoop
import ProcessThreadPool.ModernPool.Heartbeat
import ProcessThreadPool.ModernPool.References
import ProcessThreadPool.ModernPool.ReferenceEffects
import ProcessThreadPool.ModernPool.ReferenceCounts
import ProcessThreadPool.Lib.LinkedChain
import ProcessThreadPool.ModernPool.TaskNodes
import ProcessThreadPool.ModernPool.EventLoop
import ProcessThreadPool.ModernPool.LoopInit
import ProcessThreadPool.ModernPool.LoopIsolation
import ProcessThreadPool.ModernPool.Signals
import ProcessThreadPool.Lib.Eventfd
import ProcessThreadPool.ModernPool.EventfdLocks
import ProcessThreadPool.PipePool.Dispatch
import ProcessThreadPool.PipePool.SubmissionOrder
import ProcessThreadPool.PipePool.TaskRing
import ProcessThreadPool.PipePool.TaskIds
import ProcessThreadPool.PipePool.SafeRead
import ProcessThreadPool.Lib.DrivenLoop
import ProcessThreadPool.PipePool.ResultWait
import ProcessThreadPool.TrainFile.Protocol
import ProcessThreadPool.TrainFile.Framing
import ProcessThreadPool.TrainFile.Connection
import ProcessThreadPool.TrainFile.ConnectionQueue
import ProcessThreadPool.Lib.Custody
import ProcessThreadPool.TrainFile.FileServer
import ProcessThreadPool.TrainFile.ServerExit
import ProcessThreadPool.PassingServer.Server
import ProcessThreadPool.PassingServer.Bookkeeping
import ProcessThreadPool.PassingServer.Handover
import ProcessThreadPool.PassingServer.FileTransfer
import ProcessThreadPool.PassingServer.Moves
import ProcessThreadPool.PassingServer.Exit
import ProcessThreadPool.Lib.WordOrder
import ProcessThreadPool.Lib.WeakExchange
import ProcessThreadPool.Lib.SortedBuckets
import ProcessThreadPool.Lib.NameTable
import ProcessThreadPool.Metrics.Latency
import ProcessThreadPool.Metrics.Histogram
import ProcessThreadPool.Metrics.Registry
import ProcessThreadPool.Metrics.ConcurrentReset
import ProcessThreadPool.Lib.Json
import ProcessThreadPool.Metrics.Export
import ProcessThreadPool.Lib.JobLine
import ProcessThreadPool.PipePool.Progress
import ProcessThreadPool.Lib.OwnedBlocks
import ProcessThreadPool.ModernPool.TaskResults
