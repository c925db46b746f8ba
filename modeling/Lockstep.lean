import Lockstep.Consensus.FollowerAgreement
import Lockstep.Consensus.FrameBounds
import Lockstep.Consensus.RaftA.CrashSafety
import Lockstep.Consensus.RaftA.Safety
import Lockstep.Pg.BoundParameters
import Lockstep.Pg.Chunking
import Lockstep.Pg.SharedEngine
import Lockstep.Prod.Sending
import Lockstep.Query.StoreAtomicity
import Lockstep.Replicated.Restart
import Lockstep.Sql.Calendar
import Lockstep.Sql.ColumnarVersions
import Lockstep.Sql.Decimal
import Lockstep.Sql.Filter
import Lockstep.Sql.Queue
import Lockstep.Sql.SetOps
import Lockstep.Sql.Sharding
import Lockstep.Sql.TableIds
import Lockstep.Sql.TableOrder
import Lockstep.Sql.Topic
import Lockstep.Storage.Backup
import Lockstep.Storage.CommitReads
import Lockstep.Storage.Compaction
import Lockstep.Storage.Durability
import Lockstep.Storage.ManifestLog
import Lockstep.Storage.PrefixRecovery
import Lockstep.Storage.ScanVisit
import Lockstep.Storage.ValueLogGc
import Lockstep.Storage.WalPrefix
import Lockstep.Transactions.CrossShard
import Lockstep.Transactions.ReadLevels
import Lockstep.Transactions.ReferenceVerdicts
import Lockstep.Wire.Acknowledgement
import Lockstep.Wire.ExactlyOnce
import Lockstep.Wire.ReadOnlyPrincipals
import Lockstep.Wire.SequentialMap
