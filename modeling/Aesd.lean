import Aesd.Driver.CallAnswers
import Aesd.Driver.CallsReturn
import Aesd.Driver.CircularBuffer
import Aesd.Driver.Concurrency
import Aesd.Driver.Device
import Aesd.Driver.History
import Aesd.Driver.KernelState
import Aesd.Driver.LockDiscipline
import Aesd.Driver.Lookup
import Aesd.Driver.Ownership
import Aesd.Driver.Positions
import Aesd.Driver.Read
import Aesd.Driver.ReadSlice
import Aesd.Driver.Representation
import Aesd.Driver.RingInvariant
import Aesd.Driver.Seek
import Aesd.Driver.SeekPositions
import Aesd.Driver.Write
import Aesd.Driver.WriteRuns
import Aesd.Driver.Writers
import Aesd.Server.Alone
import Aesd.Server.Answers
import Aesd.Server.BothLocks
import Aesd.Server.Clients
import Aesd.Server.CommonStream
import Aesd.Server.Connections
import Aesd.Server.DataProcessing
import Aesd.Server.Descriptors
import Aesd.Server.DeviceFile
import Aesd.Server.EndToEnd
import Aesd.Server.FilePositions
import Aesd.Server.LogFiles
import Aesd.Server.ModuleLife
import Aesd.Server.MutexHandover
import Aesd.Server.OpenFiles
import Aesd.Server.PacketEnd
import Aesd.Server.PacketMemory
import Aesd.Server.Progress
import Aesd.Server.Rounds
import Aesd.Server.Scan
import Aesd.Server.SeekCommand
import Aesd.Server.SeekParse
import Aesd.Server.Segmentation
import Aesd.Server.ServerRun
import Aesd.Server.Shutdown
import Aesd.Server.Streaming
import Aesd.Server.Tailing
import Aesd.Server.ThreadExit
import Aesd.Server.Transactions
import Aesd.Verified.BlockHeap
import Aesd.Verified.Bystanders
import Aesd.Verified.Delivery
import Aesd.Verified.Fairness
import Aesd.Verified.GrownBlocks
import Aesd.Verified.Lines
import Aesd.Verified.LockedCalls
import Aesd.Verified.LockedProgress
import Aesd.Verified.LockedUpdate
import Aesd.Verified.LoneCalls
import Aesd.Verified.Loops
import Aesd.Verified.MutexSections
import Aesd.Verified.RingView
import Aesd.Verified.Runs
import Aesd.Verified.Segments
import Aesd.Verified.Simulation
