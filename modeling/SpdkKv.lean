import SpdkKv.Lib.Loop
import SpdkKv.Lib.Bytes
import SpdkKv.Lib.Machine
import SpdkKv.Lib.NewestWins
import SpdkKv.Lib.NumberedTable
import SpdkKv.Lib.SimpleRing
import SpdkKv.Types
import SpdkKv.Crc32
import SpdkKv.Entry
import SpdkKv.MemIndex
import SpdkKv.Probe
import SpdkKv.UpsertSpec
import SpdkKv.IndexMap
import SpdkKv.IndexBytes
import SpdkKv.RecordParse
import SpdkKv.LogLayout
import SpdkKv.ChunkScan
import SpdkKv.Replay
import SpdkKv.AllocLog
import SpdkKv.AllocLogRecovery
import SpdkKv.AllocLogWindow
import SpdkKv.Checkpoint
import SpdkKv.AppendBuffer
import SpdkKv.FileSpace
import SpdkKv.FileMappings
import SpdkKv.FileStore
import SpdkKv.AsyncEngine
import SpdkKv.BufferLayout
import SpdkKv.RdmaSlots
import SpdkKv.SlotEpochs
import SpdkKv.BufferManager
import SpdkKv.BufferConservation
import SpdkKv.ActiveBuffer
import SpdkKv.AsyncTrace
import SpdkKv.Settle
import SpdkKv.AsyncSettle
import SpdkKv.Lib.ByteStore
import SpdkKv.SyncEngine
import SpdkKv.EngineSystem
import SpdkKv.CompactionSelection
import SpdkKv.RecordPlaces
import SpdkKv.SpaceAccount
import SpdkKv.FileRefine
import SpdkKv.FileTable
import SpdkKv.FileRoom
import SpdkKv.FileExtents
import SpdkKv.RecordsApart
import SpdkKv.WritableFiles
import SpdkKv.FileSizes
import SpdkKv.ScanRanges
import SpdkKv.RecordStore
import SpdkKv.RoundTrip
import SpdkKv.Superblock
import SpdkKv.CheckpointSuccess
import SpdkKv.CheckpointFailure
import SpdkKv.Migration
import SpdkKv.FileLifecycle
import SpdkKv.LoggedFiles
import SpdkKv.AllocLogFailure
import SpdkKv.DanglingBlobs
import SpdkKv.CleanRestart
import SpdkKv.DirtyTracking
import SpdkKv.IndexImage
import SpdkKv.IndexAreas
import SpdkKv.IndexLoad
import SpdkKv.Recovery
import SpdkKv.RecoveredSequence
import SpdkKv.FullRebuild
import SpdkKv.SegmentImage
import SpdkKv.DumpLoad
import SpdkKv.EngineClose
import SpdkKv.ResumeNotifications
import SpdkKv.RdmaWrites
import SpdkKv.DamagedRecords
import SpdkKv.UpsertFailure
import SpdkKv.VectorFind
import SpdkKv.RebuiltLengths
import SpdkKv.EntryCount
import SpdkKv.ImageRoundTrip
import SpdkKv.SegmentPartition
import SpdkKv.ReadChecks
import SpdkKv.ReadIntegrity
import SpdkKv.Lib.ReflectedCrc
import SpdkKv.CrcStandard
import SpdkKv.TaskQueue
import SpdkKv.RateLimiter
import SpdkKv.NotificationLoop
import SpdkKv.ValidBitmap
import SpdkKv.UpsertRoom
import SpdkKv.SyncCalls
import SpdkKv.SyncMap
import SpdkKv.Lib.Packing
import SpdkKv.SegmentRestore
import SpdkKv.Lib.FairRuns
import SpdkKv.CompactionTask
import SpdkKv.CompactionProgress
import SpdkKv.ParserSafety
import SpdkKv.RecordCodec
import SpdkKv.AllocationExits
import SpdkKv.ProbeReach
import SpdkKv.Lib.BlockCount
import SpdkKv.BitmapRefine
import SpdkKv.IndexReferences
import SpdkKv.ChunkCopies
import SpdkKv.CompactionDone
import SpdkKv.RelatedTables
import SpdkKv.AppendStore
import SpdkKv.SwitchedEntries
import SpdkKv.SharedStore
import SpdkKv.CompactionSteps
import SpdkKv.CompactionContents
import SpdkKv.SharedReads
import SpdkKv.LoaderTask
import SpdkKv.LoaderRuns
