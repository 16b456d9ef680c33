import SoupDB.Algorithms.Spatial.Knn
import SoupDB.Common.Record
import SoupDB.Indexes.BPlusTotal
import SoupDB.Indexes.ClusteredBPlusTree
import SoupDB.Indexes.HashInsert
import SoupDB.Indexes.HashRun
import SoupDB.Indexes.IndexContract
import SoupDB.Indexes.KeyTrees
import SoupDB.Indexes.RTreeRun
import SoupDB.Indexes.RTreeCopy
import SoupDB.Indexes.RTreeCodec
import SoupDB.Indexes.RTreePage
import SoupDB.Indexes.RTreePageStore
import SoupDB.Indexes.RTreePersistence
import SoupDB.Plugins.DeltaExact
import SoupDB.Plugins.MutableVector
import SoupDB.Plugins.SpimiMerge
import SoupDB.Query.AggregateSpill
import SoupDB.Query.Filter
import SoupDB.Query.Grouping
import SoupDB.Query.Params
import SoupDB.Query.Like
import SoupDB.Query.TextSearch
import SoupDB.Storage.BufferTransparency
import SoupDB.Storage.FileOrganization
import SoupDB.Storage.HeapSpace
import SoupDB.Storage.SequentialOrder
import SoupDB.Storage.SequentialRebuild
import SoupDB.Transactions.ConnectionHandler
import SoupDB.Transactions.Deadlock
import SoupDB.Transactions.LockModes
import SoupDB.Transactions.LockSafety
import SoupDB.Transactions.RequestCodec
import SoupDB.Transactions.Rollback
import SoupDB.Transactions.Sessions
import SoupDB.Transactions.SystemTables
import SoupDB.Query.VectorPlanning
import SoupDB.Query.RankedPlanning
import SoupDB.Storage.SlottedRun
import SoupDB.Plugins.RecordFileRun
import SoupDB.Indexes.BPlusPageCodec
import SoupDB.Plugins.StoreRoundTrip
import SoupDB.Plugins.VectorStore
