import NetworkingHowto.Reachable
import NetworkingHowto.Server.Bytes
import NetworkingHowto.Server.Protocol
import NetworkingHowto.Sync.Futex
import NetworkingHowto.Sync.Seqlock
import NetworkingHowto.Sync.CircularBuffer
import NetworkingHowto.Server.Loop
import NetworkingHowto.Server.PollLoop
import NetworkingHowto.Server.EpollLoop
import NetworkingHowto.Client.Download
import NetworkingHowto.Server.EpollInvariant
import NetworkingHowto.Copy.Files
import NetworkingHowto.Copy.ThreadPool
import NetworkingHowto.Server.Sequential
import NetworkingHowto.Sync.TicketLock
import NetworkingHowto.Copy.IoUring
import NetworkingHowto.Copy.IoUringInvariant
import NetworkingHowto.Copy.IoUringData
import NetworkingHowto.Sync.Spinlock
import NetworkingHowto.Copy.ThreadPoolRun
import NetworkingHowto.Copy.LinuxAio
import NetworkingHowto.Copy.LinuxAioRun
import NetworkingHowto.Sync.RwLock
import NetworkingHowto.Copy.PosixAio
import NetworkingHowto.Copy.SyncCp
import NetworkingHowto.Sync.QueueBenchmark
import NetworkingHowto.Sync.FutexCounter
import NetworkingHowto.Sync.TicketLockInvariant
import NetworkingHowto.Sync.FutexWake
import NetworkingHowto.Server.Wire
import NetworkingHowto.Server.PollWire
import NetworkingHowto.Server.EpollWire
import NetworkingHowto.Transfer
import NetworkingHowto.Server.Progress
import NetworkingHowto.Server.PollProgress
import NetworkingHowto.Server.EpollProgress
import NetworkingHowto.Server.Slot
import NetworkingHowto.Server.PollSlot
import NetworkingHowto.Server.EpollSlot
import NetworkingHowto.Server.Connection
