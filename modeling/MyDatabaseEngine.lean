import MyDatabaseEngine.Lib.KeyedList
import MyDatabaseEngine.Lib.VersionHistory
import MyDatabaseEngine.Basic
import MyDatabaseEngine.Sql.Ast
import MyDatabaseEngine.Lib.Binary64
import MyDatabaseEngine.Exec.Number
import MyDatabaseEngine.Exec.Eval
import MyDatabaseEngine.Txn.Transaction
import MyDatabaseEngine.Exec.Dml
import MyDatabaseEngine.Txn.LockManager
import MyDatabaseEngine.Lib.FileStream
import MyDatabaseEngine.Txn.Manager
import MyDatabaseEngine.Txn.Session
import MyDatabaseEngine.Txn.History
import MyDatabaseEngine.Txn.Rollback
import MyDatabaseEngine.Txn.RunLog
import MyDatabaseEngine.Txn.Replay
import MyDatabaseEngine.Txn.Recovery
import MyDatabaseEngine.Txn.WalFile
import MyDatabaseEngine.Exec.Operator
import MyDatabaseEngine.Exec.Denotation
import MyDatabaseEngine.Exec.Select
import MyDatabaseEngine.Storage.DiskManager
import MyDatabaseEngine.Storage.BufferPool
import MyDatabaseEngine.Storage.PoolSpec
import MyDatabaseEngine.Storage.Transparency
import MyDatabaseEngine.Lib.BPlusTree
import MyDatabaseEngine.Lib.TreeLayout
import MyDatabaseEngine.Index.BTreeNode
import MyDatabaseEngine.Index.NodeCodec
import MyDatabaseEngine.Index.BTree
import MyDatabaseEngine.Index.NodeArrays
import MyDatabaseEngine.Index.BTreePool
import MyDatabaseEngine.Index.BTreeRefine
import MyDatabaseEngine.Index.BTreeSearch
import MyDatabaseEngine.Index.BTreeInvariant
import MyDatabaseEngine.Index.SortedMap
import MyDatabaseEngine.Lib.GrantHistory
import MyDatabaseEngine.Txn.LockSafety
import MyDatabaseEngine.Txn.Calls
import MyDatabaseEngine.Txn.Snapshot
import MyDatabaseEngine.Txn.LogShape
import MyDatabaseEngine.Txn.Restart
import MyDatabaseEngine.Txn.ExactReplay
import MyDatabaseEngine.Txn.Interleaving
import MyDatabaseEngine.Txn.RecordFormat
import MyDatabaseEngine.Lib.KeyGroups
import MyDatabaseEngine.Txn.Idempotence
import MyDatabaseEngine.Lib.Descent
import MyDatabaseEngine.Sql.Lexer
import MyDatabaseEngine.Sql.Parser
import MyDatabaseEngine.Sql.Grammar
import MyDatabaseEngine.Sql.Consumption
import MyDatabaseEngine.Sql.Printer
import MyDatabaseEngine.Sql.RoundTrip
import MyDatabaseEngine.Lib.ParallelDescent
import MyDatabaseEngine.Sql.Respelling
import MyDatabaseEngine.Sql.ParallelParsing
import MyDatabaseEngine.Sql.KeywordCase
import MyDatabaseEngine.Lib.LruCache
import MyDatabaseEngine.Storage.PoolLru
import MyDatabaseEngine.Storage.LruOrder
import MyDatabaseEngine.Lib.LeafRow
import MyDatabaseEngine.Index.RepeatedKeys
import MyDatabaseEngine.Txn.RollbackFrame
import MyDatabaseEngine.Heap.SlottedPage
import MyDatabaseEngine.Heap.PageLayout
import MyDatabaseEngine.Heap.FreeSpace
import MyDatabaseEngine.Heap.TableHeap
import MyDatabaseEngine.Storage.PageVisit
import MyDatabaseEngine.Lib.SlotArray
import MyDatabaseEngine.Heap.HeapVisits
import MyDatabaseEngine.Heap.HeapHistory
import MyDatabaseEngine.Heap.RowUpdate
import MyDatabaseEngine.Index.InsertAtomic
import MyDatabaseEngine.Heap.HeapScan
import MyDatabaseEngine.Index.NodeWise
import MyDatabaseEngine.Shared.PinNeutral
import MyDatabaseEngine.Shared.SharedPool
import MyDatabaseEngine.Txn.KeyChange
import MyDatabaseEngine.Txn.RecoveryFrame
import MyDatabaseEngine.Heap.RowText
import MyDatabaseEngine.Exec.JoinSides
import MyDatabaseEngine.Exec.WritePlans
import MyDatabaseEngine.Exec.AssignmentOrder
import MyDatabaseEngine.Sql.Accepted
import MyDatabaseEngine.Exec.UnaryMinus
import MyDatabaseEngine.Exec.MixedComparison
import MyDatabaseEngine.Lib.Precedence
import MyDatabaseEngine.Sql.Grouping
import MyDatabaseEngine.Sql.Retokenizing
import MyDatabaseEngine.Sql.Positions
import MyDatabaseEngine.Lib.SettledDescent
import MyDatabaseEngine.Sql.ParserFaults
import MyDatabaseEngine.Lib.ExtendedDescent
import MyDatabaseEngine.Sql.Consumed
import MyDatabaseEngine.Sql.StatedGrammar
import MyDatabaseEngine.Exec.EarlyStop
import MyDatabaseEngine.Index.NodeRoundTrip
import MyDatabaseEngine.Lib.StrictLocking
import MyDatabaseEngine.Txn.Footprint
import MyDatabaseEngine.Txn.LockedRun
import MyDatabaseEngine.Txn.Serializability
import MyDatabaseEngine.Txn.LockedRecovery
import MyDatabaseEngine.Txn.LockedAtomicity
import MyDatabaseEngine.Lib.WriteBack
import MyDatabaseEngine.Storage.Crash
import MyDatabaseEngine.Storage.ClientCalls
import MyDatabaseEngine.Shared.Clients
import MyDatabaseEngine.Heap.HeapJournal
import MyDatabaseEngine.Shared.CrashingHeap
import MyDatabaseEngine.Lib.BareTree
import MyDatabaseEngine.Lib.TreeAnswers
import MyDatabaseEngine.Shared.IdealStores
import MyDatabaseEngine.Shared.StoreRefinement
import MyDatabaseEngine.Exec.BuiltPlans
import MyDatabaseEngine.Exec.SnapshotScan
import MyDatabaseEngine.Exec.RunSql
import MyDatabaseEngine.Lib.TreeReads
import MyDatabaseEngine.Index.PageReads
