import MysqlRust.Storage.LogDamage
import MysqlRust.Storage.Checkpoint
import MysqlRust.Storage.DatabaseRace
import MysqlRust.Storage.CounterRuns
import MysqlRust.Query.ParserPositions
import MysqlRust.Query.EntryPoints
import MysqlRust.Query.QuotedNames
import MysqlRust.Query.Literals
import MysqlRust.Query.ColumnLists
import MysqlRust.Query.JoinKeys
import MysqlRust.Protocol.FrameSizes
import MysqlRust.Protocol.Parameters
import MysqlRust.Server.Schemas
import MysqlRust.Server.KeyLookup
import MysqlRust.Server.Counters
import MysqlRust.Server.PreparedStatements
import MysqlRust.Server.Delivery
import MysqlRust.Server.CellTypes
import MysqlRust.Server.Impersonation
import MysqlRust.Server.Progress
import MysqlRust.Server.Upgrade
