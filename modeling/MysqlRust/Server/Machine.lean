import MysqlRust.Foundation.Threads
import MysqlRust.Query.Select
import MysqlRust.Server.Session

/-! # Statements of many connections, interleaved

A connection runs its statements as programs of small operations on locks, tables and the log.
Between two of them any other connection and the log writer may move. Auxiliary fields record what
has happened; no operation reads them.
-/
namespace MysqlRust

open Function

inductive Release where
  | statement (succeeded : Bool)
  | commit (succeeded : Bool)
  | abandoned
  deriving DecidableEq, Repr

inductive Operation where
  | lock (table : String)
  | unlock (table : String) (why : Release)
  | tableSchema (table : String)
  | nextAutoIncrement (table : String)
  | scan (table : String)
  | scanFiltered (table : String) (filter : Row → Result Bool)
  | lookupByPrimaryKey (table : String) (key : Value)
  | check (c : Call)
  | submit (c : Call)
  | receive
  | apply (c : Call)
  | pendingRows (table : String)
  | buffer (schema : TableSchema) (table : String) (row : Row)
  | openTransaction
  | takeTransaction

def Operation.Resp : Operation → Type
  | .tableSchema _ => TableSchema
  | .nextAutoIncrement _ => Int64
  | .scan _ | .scanFiltered _ _ | .pendingRows _ => List Row
  | .lookupByPrimaryKey _ _ => Option Row
  | .check _ => Bool
  | .takeTransaction => Option (List (String × Row) × List String)
  | .lock _ | .unlock _ _ | .submit _ | .receive | .apply _ | .buffer _ _ _ | .openTransaction =>
    Unit

abbrev Program (α : Type) : Type := Prog Operation Operation.Resp Error α

abbrev perform (o : Operation) : Program o.Resp := Prog.perform o

def call (c : Call) : Program Unit := do
  let go : Bool ← perform (.check c)
  if go then do
    perform (.submit c)
    perform .receive
    perform (.apply c)
  else pure ()

def engine : Storage Program where
  createTable name columns primaryKey := call (.createTable name columns primaryKey)
  alterTable name change := call (.alterTable name change)
  tableSchema name := perform (.tableSchema name)
  insertRow table row := call (.insertRow table row)
  insertRows rows := call (.insertRows rows)
  scan table := perform (.scan table)
  scanFiltered table filter := perform (.scanFiltered table filter)
  lookupByPrimaryKey table key := perform (.lookupByPrimaryKey table key)
  nextAutoIncrement table := perform (.nextAutoIncrement table)
  createDatabase name ifNotExists := call (.createDatabase name ifNotExists)
  dropDatabase name ifExists := call (.dropDatabase name ifExists)

namespace Overlay

def insertRow (table : String) (row : Row) : Program Unit := do
  let schema : TableSchema ← perform (.tableSchema table)
  if row.length ≠ schema.columns.length then
    raise (columnCountMismatch table schema.columns.length row.length)
  else perform (.buffer schema table row)

def scan (table : String) : Program (List Row) := do
  let rows : List Row ← perform (.scan table)
  let pending : List Row ← perform (.pendingRows table)
  pure (rows ++ pending)

def scanFiltered (table : String) (filter : Row → Result Bool) : Program (List Row) := do
  let rows : List Row ← perform (.scanFiltered table filter)
  let pending : List Row ← perform (.pendingRows table)
  let pending ← liftM (filterRows filter pending)
  pure (rows ++ pending)

def lookupByPrimaryKey (table : String) (key : Value) : Program (Option Row) := do
  let committed : Option Row ← perform (.lookupByPrimaryKey table key)
  match committed with
  | some row => pure (some row)
  | none => do
    let schema : TableSchema ← perform (.tableSchema table)
    match schema.keyIndex with
    | none => pure none
    | some pkIdx => do
      let pending : List Row ← perform (.pendingRows table)
      liftM (Transaction.findKey pkIdx key pending)

end Overlay

def overlay : Storage Program where
  createTable := engine.createTable
  alterTable := engine.alterTable
  tableSchema := engine.tableSchema
  insertRow := Overlay.insertRow
  insertRows := Storage.insertEach Overlay.insertRow
  scan := Overlay.scan
  scanFiltered := Overlay.scanFiltered
  lookupByPrimaryKey := Overlay.lookupByPrimaryKey
  nextAutoIncrement := engine.nextAutoIncrement
  createDatabase := engine.createDatabase
  dropDatabase := engine.dropDatabase

def releaseAll (why : Release) : List String → Program Unit
  | [] => pure ()
  | table :: tables => do
    perform (.unlock table why)
    releaseAll why tables

/-- The transaction leaves the connection before its rows are inserted; its locks are
released however that ends. -/
def commitTransaction : Program Unit := do
  let taken : Option (List (String × Row) × List String) ← perform .takeTransaction
  match taken with
  | none => pure ()
  | some (rows, locks) => do
    let result ← (call (.insertRows rows)).attempt
    releaseAll (.commit result.isOk) locks
    .done result

def dropTransaction : Program Unit := do
  let taken : Option (List (String × Row) × List String) ← perform .takeTransaction
  match taken with
  | none => pure ()
  | some (_, locks) => releaseAll .abandoned locks

def beginTransaction : Program Unit := do
  commitTransaction
  perform .openTransaction

def executeOn (ex : Executor) (storage : Storage Program) : Statement → Program QueryResult
  | .select query => executeSelect ex storage query
  | st => QueryResult.affected <$> execute storage st

/-- In autocommit mode the lock of an `INSERT` is released when the statement ends. -/
def insertAutocommit (ex : Executor) (rows : Insert) : Program QueryResult := do
  perform (.lock rows.table)
  let result ← (executeOn ex engine (.insert rows)).attempt
  perform (.unlock rows.table (.statement result.isOk))
  .done result

def insertInTransaction (ex : Executor) (locked : List String) (rows : Insert) :
    Program QueryResult := do
  if rows.table ∈ locked then executeOn ex overlay (.insert rows)
  else do
    perform (.lock rows.table)
    executeOn ex overlay (.insert rows)

structure Request where
  conn : Nat
  call : Call
  deriving DecidableEq, Repr

/-- The log writer: waiting, with a batch it has taken from the channel, or answering a
batch it has written. -/
inductive Writer where
  | idle
  | drained (batch : List Request)
  | acking (result : Result Unit) (rest : List Request)
  deriving DecidableEq, Repr

inductive Phase where
  | none
  | queued (c : Call)
  | logged (c : Call)
  | failed
  deriving DecidableEq, Repr

/-- A table that was read: the state it was read in, after how many applied batches. -/
structure TableRead where
  position : Nat
  table : String
  state : Store

/-- What the answers a connection has got say about its `INSERT`s. -/
structure Work where
  /-- Those in autocommit mode and of committed transactions. -/
  committed : List Insert
  /-- Those of the open transaction. -/
  pending : Option (List Insert)

def Work.undecided (work : Work) : List Insert := work.pending.getD []

/-- `none` is the end of the connection. -/
def Work.after (work : Work) : Option Statement × Result QueryResult → Work
  | (_, .panic) | (none, _) | (some .rollback, _) | (some .begin, .err _) | (some .commit, .err _) =>
    { work with pending := none }
  | (some (.insert rows), .ok _) =>
    match work.pending with
    | none => { work with committed := work.committed ++ [rows] }
    | some before => { work with pending := some (before ++ [rows]) }
  | (some .begin, .ok _) => ⟨work.committed ++ work.undecided, some []⟩
  | (some .commit, .ok _) => ⟨work.committed ++ work.undecided, none⟩
  | _ => work

/-- A released lock, the `INSERT`s its holder answers for and the rows it has applied. -/
structure Released where
  conn : Nat
  table : String
  inserts : List Insert
  rows : List Row

structure Db where
  store : Store
  /-- The connection that holds the write lock of a table. -/
  owner : String → Option Nat
  /-- The queue of the log writer. -/
  channel : List Request
  writer : Writer
  /-- The acknowledgement a connection has not received yet. -/
  mailbox : Nat → Option (Result Unit)
  file : List UInt8
  /-- How much of the file is known to be on disk. -/
  synced : Nat
  -- auxiliary
  phase : Nat → Phase
  /-- Connections that have looked up a schema and have not read the table since. -/
  seen : List (Nat × String)
  sent : List Request
  written : List Request
  acked : List Request
  /-- Written requests that are not applied yet. -/
  unapplied : List Request
  /-- The batches applied so far. -/
  batches : List (List (String × Row))
  released : List Released

structure Conn where
  tx : Option Transaction
  /-- The tables the open transaction has locked. -/
  locked : List String
  -- auxiliary
  current : Option Statement
  /-- The rows storage has accepted for the running `INSERT`. -/
  statement : List (String × Row)
  /-- The rows this connection has applied to tables it still holds. -/
  applied : List (String × Row)
  /-- The commands so far with their answers. -/
  history : List (Option Statement × Result QueryResult)
  /-- The `INSERT`s into a table this connection has answered for when it released the lock. -/
  answered : String → List Insert
  /-- The schema the running statement has looked up last. -/
  resolved : Option (String × TableSchema)
  /-- The answer the log gave to the running statement. -/
  ack : Option (Result Unit)
  reads : List TableRead

def Db.start (store : Store) (file : List UInt8) : Db where
  store
  owner _ := none
  channel := []
  writer := .idle
  mailbox _ := none
  file
  synced := file.length
  phase _ := .none
  seen := []
  sent := []
  written := []
  acked := []
  unapplied := []
  batches := []
  released := []

def Conn.fresh : Conn where
  tx := none
  locked := []
  current := none
  statement := []
  applied := []
  history := []
  answered _ := []
  resolved := none
  ack := none
  reads := []

/-- What is left open about an operation: whether a waiter gives up, and in which order a
`COMMIT` visits the tables with pending rows. -/
structure Choice where
  timeout : Bool := false
  visited : List String := []

def Conn.work (l : Conn) : Work := l.history.foldl Work.after ⟨[], none⟩

def insertsInto (table : String) (inserts : List Insert) : List Insert :=
  inserts.filter fun rows => rows.table = table

/-- The `INSERT`s into a table the connection answers for when it releases the lock. -/
def Conn.answers (l : Conn) (table : String) (why : Release) : List Insert :=
  insertsInto table (match why, l.current with
    | .statement true, some (.insert rows) => [rows]
    | .commit true, _ => l.work.undecided
    | _, _ => [])

def Conn.dropLock (l : Conn) (table : String) (why : Release) : Conn :=
  { l with
    applied := l.applied.filter fun p => p.1 ≠ table
    answered := update l.answered table (l.answered table ++ l.answers table why) }

def writerQueueCapacity : Nat := 4096

namespace Db

def setPhase (s : Db) (i : Nat) (p : Phase) : Db := { s with phase := update s.phase i p }

def look (s : Db) (i : Nat) (table : String) : Db :=
  { s with seen := (i, table) :: s.seen.filter fun p => p.1 ≠ i }

def lookAway (s : Db) (i : Nat) : Db := { s with seen := s.seen.filter fun p => p.1 ≠ i }

def record (s : Db) (l : Conn) (table : String) : Conn :=
  { l with reads := l.reads ++ [⟨s.batches.length, table, s.store⟩] }

end Db

def Operation.run (i : Nat) (choice : Choice) (s : Db) (l : Conn) :
    (o : Operation) → Option (Outcome Error o.Resp × Db × Conn)
  | .lock table =>
    match s.owner table with
    | none => some (.ok (), { s with owner := update s.owner table (some i) },
        if l.tx.isSome then { l with locked := l.locked ++ [table] } else l)
    | some _ => if choice.timeout then some (.err Server.lockWaitTimeout, s, l) else none
  | .unlock table why =>
    some (.ok (), { s with
        owner := update s.owner table none
        released := s.released ++ [⟨i, table, l.answers table why, rowsFor table l.applied⟩] },
      l.dropLock table why)
  | .tableSchema table =>
    match s.store.tableSchema table with
    | .ok schema => some (.ok schema, s.look i table, { l with resolved := some (table, schema) })
    | .err e => some (.err e, s, l)
    | .panic => some (.panic, s, l)
  | .nextAutoIncrement table =>
    let (value, store) := Store.reserve table s.store
    some (value, { s with store }, l)
  | .scan table => some (s.store.scan table, s.lookAway i, s.record l table)
  | .scanFiltered table filter =>
    some (s.store.scanFiltered table filter, s.lookAway i, s.record l table)
  | .lookupByPrimaryKey table key =>
    some (s.store.lookupByPrimaryKey table key, s.lookAway i, s.record l table)
  | .check c => some (MysqlRust.check s.store c, s, l)
  | .submit c =>
    if s.channel.length < writerQueueCapacity then
      some (.ok (), { s.setPhase i (.queued c) with
        channel := s.channel ++ [⟨i, c⟩]
        sent := s.sent ++ [⟨i, c⟩] }, l)
    else none
  | .receive =>
    match s.mailbox i with
    | some result =>
      let s' : Db := { s with mailbox := update s.mailbox i none }
      some (result, if result = .ok () then s' else s'.setPhase i .none,
        { l with ack := some result })
    | none => none
  | .apply c =>
    let s' : Db := { s.setPhase i .none with
      unapplied := s.unapplied.filter fun r => r.conn ≠ i }
    match MysqlRust.apply s.store c with
    | .ok store => some (.ok (), { s' with store, batches := s.batches ++ [c.inserts] },
        { l with applied := l.applied ++ c.inserts, statement := c.inserts })
    | .err e => some (.err e, s', l)
    | .panic => some (.panic, s', l)
  | .pendingRows table => some (.ok ((l.tx.getD .new).rows table), s.lookAway i, l)
  | .buffer schema table row =>
    match Transaction.buffer s.store (l.tx.getD .new) schema table row with
    | .ok tx => some (.ok (), s.lookAway i,
        { l with tx := some tx, statement := l.statement ++ [(table, row)] })
    | .err e => some (.err e, s.lookAway i, l)
    | .panic => some (.panic, s.lookAway i, l)
  | .openTransaction =>
    some (.ok (), s, { l with tx := some .new, locked := [], statement := [] })
  | .takeTransaction =>
    match l.tx with
    | some tx =>
      if tx.Order choice.visited then
        some (.ok (some (tx.commitRows choice.visited, l.locked)), s,
          { l with tx := none, locked := [] })
      else none
    | none => some (.ok none, s, l)

inductive Command where
  | execute (st : Statement)
  | disconnect

def Command.statement : Command → Option Statement
  | .execute st => some st
  | .disconnect => none

def executeStatement (ex : Executor) (l : Conn) : Statement → Program QueryResult
  | .begin => (fun _ => .affected 0) <$> beginTransaction
  | .commit => (fun _ => .affected 0) <$> commitTransaction
  | .rollback => (fun _ => .affected 0) <$> dropTransaction
  | .insert rows =>
    if l.tx.isSome then insertInTransaction ex l.locked rows else insertAutocommit ex rows
  | st => executeOn ex (if l.tx.isSome then overlay else engine) st

/-- A statement that panics drops the open transaction. -/
def unwind (statement : Program QueryResult) : Program QueryResult := do
  let result ← statement.attempt
  match result with
  | .panic => do
    dropTransaction
    .done .panic
  | .ok r => .done (.ok r)
  | .err e => .done (.err e)

def Command.program (ex : Executor) (l : Conn) : Command → Program QueryResult
  | .execute st => unwind (executeStatement ex l st)
  | .disconnect => (fun _ => .affected 0) <$> dropTransaction

def Conn.begin (l : Conn) (command : Command) : Conn :=
  { l with
    current := command.statement
    statement := []
    resolved := none
    ack := none
    reads := [] }

def Conn.settle (l : Conn) (result : Result QueryResult) : Conn :=
  { l with
    current := none
    statement := []
    history := l.history ++ [(l.current, result)] }

inductive WriterEvent where
  | drain (n : Nat)
  | write (io : Io)
  | ack
  deriving DecidableEq, Repr

def Db.phaseAfter (s : Db) (batch : List Request) (ok : Bool) (i : Nat) : Phase :=
  match batch.find? fun r => r.conn = i with
  | some r => if ok then .logged r.call else .failed
  | none => s.phase i

def Db.writerStep (policy : SyncPolicy) (s : Db) : WriterEvent → Option Db
  | .drain n =>
    match s.writer with
    | .idle =>
      if 0 < n ∧ n ≤ s.channel.length then
        some { s with channel := s.channel.drop n, writer := .drained (s.channel.take n) }
      else none
    | _ => none
  | .write io =>
    match s.writer with
    | .drained batch =>
      let (file, result) := Log.writeFramedBatch policy s.file
        (logBytes (batch.map fun r => r.call.entry)) io
      let ok := result.isOk
      some { s with
        file
        synced := if policy = .always ∧ io = .done then file.length else s.synced
        writer := .acking (ackOf result) batch
        phase := s.phaseAfter batch ok
        written := if ok then s.written ++ batch else s.written
        unapplied := if ok then s.unapplied ++ batch else s.unapplied }
    | _ => none
  | .ack =>
    match s.writer with
    | .acking result (r :: rest) =>
      some { s with
        mailbox := update s.mailbox r.conn (some result)
        writer := if rest = [] then .idle else .acking result rest
        acked := s.acked ++ [r] }
    | _ => none

abbrev World : Type := Threads.World Operation Operation.Resp Error QueryResult Db Conn

abbrev MachineEvent : Type := Threads.Event Choice Command WriterEvent

def machine (ex : Executor) (policy : SyncPolicy) :
    Threads.System Operation Operation.Resp Error QueryResult Db Conn Choice Command WriterEvent where
  perform i o choice s l := o.run i choice s l
  program command l := command.program ex l
  start _ command s l := (s, l.begin command)
  finish i result s l := (s.lookAway i, l.settle result)
  outside e s := s.writerStep policy e

def World.start (store : Store) (file : List UInt8) : World :=
  ⟨Db.start store file, fun _ => ⟨Conn.fresh, none⟩⟩

end MysqlRust
