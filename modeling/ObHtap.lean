import ObHtap.Library.ThreeWay
import ObHtap.Library.Json
import ObHtap.Library.KeyValue
import ObHtap.Library.Decimal
import ObHtap.Library.Cover
import ObHtap.Common.LowerBound
import ObHtap.Bplus.Key
import ObHtap.Common.RC
import ObHtap.Library.Triple
import ObHtap.Buffer.FileHeader
import ObHtap.Bplus.MiniTransaction
import ObHtap.Bplus.NodeHandler
import ObHtap.Bplus.Handler
import ObHtap.Bplus.Log
import ObHtap.Bplus.Invariant
import ObHtap.Bplus.Split
import ObHtap.Bplus.Merge
import ObHtap.Bplus.NodeSpec
import ObHtap.Bplus.Search
import ObHtap.Bplus.Descent
import ObHtap.Bplus.MoveSpec
import ObHtap.Bplus.Insertion
import ObHtap.Bplus.InsertEntry
import ObHtap.Bplus.Rotate
import ObHtap.Bplus.Rebalance
import ObHtap.Bplus.DeleteEntry
import ObHtap.Bplus.Operations
import ObHtap.Bplus.Valid
import ObHtap.Bplus.Runs
import ObHtap.Bplus.Unique
import ObHtap.Bplus.UpdateEntry
import ObHtap.Bplus.Logged
import ObHtap.Bplus.Recorded
import ObHtap.Bplus.Rollback
import ObHtap.Bplus.Redo
import ObHtap.Library.Replay
import ObHtap.Buffer.Allocation
import ObHtap.Record.RecordPage
import ObHtap.Record.RecordLog
import ObHtap.Record.RecordFile
import ObHtap.Record.RecordFileScanner
import ObHtap.Library.LittleEndian
import ObHtap.Library.PartialRun
import ObHtap.Clog.LogFile
import ObHtap.Clog.TornTail
import ObHtap.Clog.LogFileManager
import ObHtap.Clog.DiskLogHandler
import ObHtap.Clog.LogRuns
import ObHtap.Buffer.DoubleWriteBuffer
import ObHtap.Buffer.DoubleWriteSlots
import ObHtap.Buffer.DoubleWriteCalls
import ObHtap.Buffer.DoubleWriteRecovery
import ObHtap.Buffer.DoubleWriteReads
import ObHtap.Library.Reads
import ObHtap.Bplus.LogEntryBytes
import ObHtap.Library.Partition
import ObHtap.Library.SettedBits
import ObHtap.Trx.MvccTrx
import ObHtap.Trx.MvccEffect
import ObHtap.Trx.MvccInvariant
import ObHtap.Trx.MvccMarks
import ObHtap.Trx.MvccStamps
import ObHtap.Trx.MvccCommit
import ObHtap.Trx.MvccSnapshots
import ObHtap.Trx.MvccTrxLog
import ObHtap.Trx.MvccHistory
import ObHtap.Trx.MvccRecovery
import ObHtap.Trx.MvccCounter
import ObHtap.Trx.MvccRollback
import ObHtap.Trx.MvccOwnReads
import ObHtap.Table.FieldMeta
import ObHtap.Table.TableMeta
import ObHtap.Table.MetaRoundTrip
import ObHtap.Db.Tables
import ObHtap.Table.RecordKey
import ObHtap.Table.TableIndex
import ObHtap.Table.UpdateRecord
import ObHtap.Table.RowTable
import ObHtap.Text.TextFile
import ObHtap.Trx.TextColumns
import ObHtap.Bplus.Scanner
import ObHtap.Operator.ScanOperator
import ObHtap.Operator.UpdatePhysicalOperator
import ObHtap.Db.Catalog
import ObHtap.Sql.Simplification
import ObHtap.Sql.Reopening
import ObHtap.Sql.PlanRewriting
import ObHtap.Sql.SelectQuery
import ObHtap.Sql.ClauseOrder
import ObHtap.Sql.Vectorized
import ObHtap.Bplus.KeyComparator
import ObHtap.Bplus.LatchMemo
import ObHtap.Bplus.LatchedDescent
import ObHtap.Bplus.LatchedScanner
import ObHtap.Bplus.Edits
import ObHtap.Bplus.Crabbing
import ObHtap.Bplus.CrabbingSafe
import ObHtap.Bplus.FairSplits
import ObHtap.Bplus.RangeScan
import ObHtap.Bplus.ScanBound
import ObHtap.Library.LinkedList
import ObHtap.Library.LruCache
import ObHtap.Common.LruCache
import ObHtap.Common.LruCalls
import ObHtap.Buffer.FrameManager
import ObHtap.Buffer.BufferPool
import ObHtap.Buffer.PoolSpec
import ObHtap.Buffer.PinCounts
import ObHtap.Buffer.AllocateFrame
import ObHtap.Buffer.AllocationFailure
import ObHtap.Clog.LogEntryBuffer
import ObHtap.Record.PageLayout
import ObHtap.Common.Bitmap
import ObHtap.Record.PageBytes
import ObHtap.Record.SlotMap
import ObHtap.Record.ScannerObject
import ObHtap.Record.FreePages
import ObHtap.Table.MakeRecord
import ObHtap.Table.StoredFields
import ObHtap.Table.RecordRoundTrip
import ObHtap.Text.TextFileHandler
import ObHtap.Text.TextDeletes
import ObHtap.Text.TextUpdates
import ObHtap.Text.TextRoundTrip
import ObHtap.Table.CreateIndex
import ObHtap.Net.RingBuffer
import ObHtap.Net.BufferedWriter
import ObHtap.Net.PlainCommunicator
import ObHtap.Net.PlainAnswers
import ObHtap.Library.BestOf
import ObHtap.Sql.AggregateLaws
import ObHtap.Sql.ValueOrder
import ObHtap.Sql.ArithmeticExpr
import ObHtap.Sql.TupleSource
import ObHtap.Sql.JoinPointers
import ObHtap.Library.LexComparison
import ObHtap.Sql.SortLaws
import ObHtap.Operator.ChildFailures
import ObHtap.Sql.NameBinding
import ObHtap.Library.Kleene
import ObHtap.Library.Search
import ObHtap.Sql.ComparisonLaws
import ObHtap.Sql.KeyLaws
import ObHtap.Sql.AggregateNulls
import ObHtap.Sql.GroupOpening
import ObHtap.Sql.GroupLaws
import ObHtap.Net.MysqlRows
import ObHtap.Library.BoundedQueue
import ObHtap.Net.RingQueue
import ObHtap.Net.ReadEvent
import ObHtap.Library.Calendar
import ObHtap.Sql.DateValues
import ObHtap.Sql.DateLaws
import ObHtap.Sql.DayOfWeek
import ObHtap.Sql.CastLaws
import ObHtap.Sql.AggregateHashTable
import ObHtap.Sql.GroupHashes
import ObHtap.Sql.LinearProbing
import ObHtap.Library.EcmaRegex
import ObHtap.Sql.StrLike
import ObHtap.Library.PriorityQueue
import ObHtap.Ivfflat.Index
import ObHtap.Ivfflat.Search
import ObHtap.Ivfflat.Runs
import ObHtap.Buffer.LostPages
import ObHtap.Buffer.CheckSum
import ObHtap.Bplus.CrabbingRuns
