import PvrServices.Words
import PvrServices.LinkedRing
import PvrServices.HashTableMap
import PvrServices.HashTableLoad
import PvrServices.HandleBase
import PvrServices.HandleLinks
import PvrServices.HandleFree
import PvrServices.HandleAlloc
import PvrServices.HandleBatch
import PvrServices.HandleContract
import PvrServices.HandleAncestors
import PvrServices.HandleTeardown
import PvrServices.HandleLists
import PvrServices.ArenaAreas
import PvrServices.ArenaBooks
import PvrServices.ArenaContract
import PvrServices.ArenaFailure
import PvrServices.ArenaPlacement
import PvrServices.CircularBuffer
import PvrServices.CommandQueue
import PvrServices.CommandQueueHistory
import PvrServices.CommandQueueOrder
import PvrServices.CommandQueueOrderRuns
import PvrServices.CommandQueueProgress
import PvrServices.CommandFlush
import PvrServices.TraceBuffer
import PvrServices.TraceFrames
import PvrServices.TraceRuns
import PvrServices.MmapDue
import PvrServices.ResmanRuns
import PvrServices.DevmemSyncRuns
import PvrServices.EventsRuns
import PvrServices.KernelCcbCache
import PvrServices.PowerRuns
import PvrServices.DisplayClassRuns
import PvrServices.DeviceIds
import PvrServices.SharedPbBridgeRuns
import PvrServices.SgxKick
import PvrServices.FlipRuns
import PvrServices.PdumpfsReader
import PvrServices.BridgeBuffer
import PvrServices.BufferManagerHash
import PvrServices.WrapPages
import PvrServices.PerProcRuns
import PvrServices.ArenaSaving
import PvrServices.ArenaSearch
import PvrServices.ArenaTestDelete
import PvrServices.ArenaJoined
import PvrServices.ArenaBacking
import PvrServices.CommandTables
import PvrServices.SizeRuns
import PvrServices.MapMemoryErrors
import PvrServices.EventObjectRuns
import PvrServices.LfbRuns
import PvrServices.PdumpfsLivesRuns
import PvrServices.AllocDeviceMem
import PvrServices.BufferStore
import PvrServices.ImportMemory
import PvrServices.WrapAgreement
import PvrServices.WrapMemory
import PvrServices.AllocMemory
import PvrServices.ZeroBuf
import PvrServices.MmuTables
import PvrServices.MmuAlloc
import PvrServices.MmapPages
import PvrServices.HwrecPages
import PvrServices.Printf
import PvrServices.RegsDump
import PvrServices.TracePrint
import PvrServices.TracePrintRuns
import PvrServices.TraceReadback
import PvrServices.EventWaits
import PvrServices.SyncInfoSets
import PvrServices.SwapChainCreation
import PvrServices.BufferAlign
import PvrServices.StateBufLists
import PvrServices.PdumpfsPages
import PvrServices.PdumpfsErrors
import PvrServices.PdumpfsControl
