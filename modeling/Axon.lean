import Axon.Library.Window
import Axon.Library.Framing
import Axon.Library.LittleEndian
import Axon.Library.Heap
import Axon.Library.LinkedList
import Axon.Library.Buckets
import Axon.Library.Traced
import Axon.Library.Replay
import Axon.Core.CommonDef
import Axon.Core.Buffer
import Axon.Core.BufferRefinement
import Axon.Core.BufferRoom
import Axon.Core.BufferTyped
import Axon.Core.ProtoMsg
import Axon.Core.Tpipe
import Axon.Core.TpipeReading
import Axon.Core.TpipeFrames
import Axon.Core.TpipeDelivery
import Axon.Core.TpipeReplay
import Axon.Core.Queue
import Axon.Core.QueueSteps
import Axon.Core.QueueFifo
import Axon.Core.QueueChunks
import Axon.Core.QueueStride
import Axon.Core.Hashmap
import Axon.Core.HashmapStores
import Axon.Core.HashmapDictionary
import Axon.Core.HashmapShadow
import Axon.Core.Connect
import Axon.Core.ConnectSlots
import Axon.Core.ConnectList
import Axon.Core.FdPoller
import Axon.Core.FdPollerDeferred
import Axon.Core.FdPollerRetired
import Axon.Core.EventPoller
import Axon.Core.PollerAgreement
import Axon.Core.PollerRefinement
import Axon.Core.InterestMasks
import Axon.Core.Dispatch
import Axon.Core.PollerIndexes
import Axon.Core.MemPool
import Axon.Core.MemPoolBytes
import Axon.Core.MemPoolFallback
import Axon.Core.AxString
import Axon.Core.AxStringContent
import Axon.Core.AxStringLaid
import Axon.Core.AxStringRuns
import Axon.Core.AxStringGrowth
import Axon.Core.AxStringGrowthRuns
import Axon.Core.HashMapStr
import Axon.Core.HashMapStrLookup
import Axon.Core.HashmapSlots
import Axon.Core.Timer
import Axon.Core.TimerWheel
import Axon.Core.TimerTick
import Axon.Core.TimerHistory
import Axon.Core.TimerInvariant
import Axon.Core.TimerRuns
import Axon.Core.TimerAccesses
import Axon.Core.TimerPosition
import Axon.Core.TimerRoutine
import Axon.Core.TimerClock
import Axon.Core.TimerHandles
import Axon.Core.TimerSchedule
import Axon.Codegen.ProtoGenCpp
import Axon.Codegen.CodecLayout
import Axon.Codegen.CodecWide
import Axon.Codegen.ProtoGenStr
import Axon.Codegen.CodecSizes
import Axon.Codegen.CodecStrings
import Axon.Codegen.CodecBounds
import Axon.Codegen.CodecUnambiguous
import Axon.Proto.GateMsg
import Axon.Gate.ConnectWorker
import Axon.Gate.ClientMgr
import Axon.Gate.GateMessages
import Axon.Gate.NewConnection
import Axon.Gate.WorkerConnects
import Axon.Gate.Admission
import Axon.Gate.StaleReferences
import Axon.Gate.ReadEvents
import Axon.Gate.DeadConnections
import Axon.Gate.Echo
import Axon.Gate.MainThread
import Axon.Gate.WorkersReady
import Axon.Gate.ClientIds
import Axon.Gate.CloseRouting
import Axon.Gate.LoadAccounting
import Axon.Gate.System
import Axon.Gate.SystemLinks
import Axon.Gate.SlotOwners
import Axon.Gate.Isolation
import Axon.Gate.Listening
import Axon.Gate.Privacy
