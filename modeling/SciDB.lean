import SciDB.Util.DataStoreRuns
import SciDB.Smgr.FreeCalls
import SciDB.Smgr.ServerRuns
import SciDB.Smgr.LoadChunk
import SciDB.Array.BufferedIterator
import SciDB.Util.DataStoreFlusher
import SciDB.Array.SharedMemCacheContents
import SciDB.Smgr.CacheAccounting
import SciDB.Util.FreelistCrash
import SciDB.Array.TileIteratorData
import SciDB.Array.RLEAppend
import SciDB.Array.SortArray
import SciDB.Util.WorkQueueRuns
import SciDB.Util.BufferedFileInputRuns
import SciDB.Query.UpdateLocksRuns
import SciDB.Query.BetweenChunk
import SciDB.Query.TsvChunkLoader
import SciDB.Query.TextScanner
import SciDB.Smgr.ReplicaLoop
import SciDB.Smgr.VersionScan
import SciDB.Query.IndexLookup
import SciDB.Query.MergeArray
import SciDB.Query.JoinArray
import SciDB.Smgr.ExtentOverlaps
import SciDB.Query.BinaryPadding
import SciDB.Array.ChunkBoxes
import SciDB.Array.BitmapTile
import SciDB.Array.SinglePassArray
import SciDB.Query.ShadowArray
import SciDB.Smgr.ReplicationManager
import SciDB.Query.PullSGArray
import SciDB.Query.PullSGContext
import SciDB.Query.QueryNotification
import SciDB.Query.PhysicalBoundaries
import SciDB.Query.BoundaryChunks
import SciDB.Query.ChunkIdMap
import SciDB.Network.MultiChannelQueue
