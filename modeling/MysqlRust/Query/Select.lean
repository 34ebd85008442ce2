import MysqlRust.Query.Compare
import MysqlRust.Query.Executor

/-! # Statements that read

A `SELECT` looks up the schema of each of its tables and then reads the rows, in separate
calls. Cells are read by position, and a row too short for one panics.
-/
namespace MysqlRust

structure QueryResult where
  columns : List ColumnSchema
  rows : List Row
  rowsAffected : Nat
  deriving DecidableEq, Repr

def QueryResult.affected (n : Nat) : QueryResult := ⟨[], [], n⟩

structure SystemVariables where
  version : String
  maxAllowedPacket : UInt64
  waitTimeout : UInt64

structure Scope where
  qualifiers : List String
  columns : List ColumnSchema

namespace Scope

def single (qualifier : String) (columns : List ColumnSchema) : Scope :=
  ⟨List.replicate columns.length qualifier, columns⟩

def pushTable (scope : Scope) (qualifier : String) (columns : List ColumnSchema) : Scope :=
  ⟨scope.qualifiers ++ List.replicate columns.length qualifier, scope.columns ++ columns⟩

def tryResolve (scope : Scope) (colRef : ColumnRef) : Option Nat :=
  match colRef.table with
  | some q => (scope.qualifiers.zip scope.columns).findIdx? fun p =>
      p.1 = q ∧ p.2.name = colRef.column
  | none =>
    match scope.columns.zipIdx.filter fun p => p.1.name = colRef.column with
    | [first] => some first.2
    | _ => none

def resolve (scope : Scope) (colRef : ColumnRef) : Result Nat :=
  okOr (match colRef.table with
    | some q => .execution s!"Unknown column '{q}.{colRef.column}'"
    | none =>
      if 1 < (scope.columns.filter fun c => c.name = colRef.column).length then
        .execution s!"Column '{colRef.column}' in field list is ambiguous"
      else .execution s!"Unknown column '{colRef.column}'")
    (scope.tryResolve colRef)

end Scope

def resolveSingleTableColumn (columns : List ColumnSchema) (qualifier : String)
    (colRef : ColumnRef) : Result Nat :=
  if colRef.table.any (· ≠ qualifier) then
    .err (.execution s!"Unknown column '{colRef.table.getD qualifier}.{colRef.column}'")
  else columnIndex columns colRef.column

def joinIndex (rightIdx : Nat) (rightRows : List Row) : Result (Finmap fun _ : Value => List Nat) :=
  rightRows.zipIdx.foldlM (fun index p => do
    let cell ← Outcome.index p.1 rightIdx
    pure (if cell = .null then index
      else index.insert cell ((index.lookup cell).getD [] ++ [p.2]))) ∅

def joinRow (index : Finmap fun _ : Value => List Nat) (leftIdx : Nat) (rightRows : List Row)
    (rightWidth : Nat) (joinType : JoinType) (leftRow : Row) : Result (List Row) := do
  let key ← Outcome.index leftRow leftIdx
  match if key = .null then none else index.lookup key with
  | some indices => indices.mapM fun i => do
    let rightRow ← Outcome.index rightRows i
    pure (leftRow ++ rightRow)
  | none =>
    pure (if joinType = .left then [leftRow ++ List.replicate rightWidth .null] else [])

def hashJoin (leftRows : List Row) (leftIdx : Nat) (rightRows : List Row) (rightIdx rightWidth : Nat)
    (joinType : JoinType) : Result (List Row) := do
  let index ← joinIndex rightIdx rightRows
  let joined ← leftRows.mapM (joinRow index leftIdx rightRows rightWidth joinType)
  pure joined.flatten

def joinColumns (scope newTableScope : Scope) (join : JoinClause) : Result (Nat × Nat) :=
  match scope.tryResolve join.left, newTableScope.tryResolve join.right with
  | some l, some r => pure (l, r)
  | _, _ =>
    match scope.tryResolve join.right, newTableScope.tryResolve join.left with
    | some l, some r => pure (l, r)
    | _, _ => .err (.execution s!"JOIN ... ON must compare a column already in scope with a column of '{join.table.qualifier}'")

def applyWhere (rows : List Row) (scope : Scope) : Option Condition → Result (List Row)
  | none => pure rows
  | some cond => do
    let idx ← scope.resolve cond.column
    let column ← Outcome.index scope.columns idx
    let expected ← coerce cond.value column.columnType cond.column.column
    filterRows (fun row => do
      let cell ← Outcome.index row idx
      pure (compareValues cell cond.op expected)) rows

section From
variable {m : Type → Type} [Monad m] [MonadLiftT (Outcome Error) m] (storage : Storage m)

def scanAndFilter (table qualifier : String) (schema : TableSchema) :
    Option Condition → m (List Row)
  | none => storage.scan table
  | some cond => do
    let colIdx ← liftM (resolveSingleTableColumn schema.columns qualifier cond.column)
    let column ← liftM (Outcome.index schema.columns colIdx : Result ColumnSchema)
    let expected ← liftM (coerce cond.value column.columnType cond.column.column)
    if cond.op = .eq ∧ schema.primaryKey = some column.name then do
      let row ← storage.lookupByPrimaryKey table expected
      pure row.toList
    else storage.scanFiltered table fun row => do
      let cell ← Outcome.index row colIdx
      pure (compareValues cell cond.op expected)

def joinTable (acc : Scope × List Row) (join : JoinClause) : m (Scope × List Row) := do
  let joinSchema ← storage.tableSchema join.table.name
  let joinQualifier := join.table.qualifier
  let newTableScope := Scope.single joinQualifier joinSchema.columns
  let (accumulatedIdx, newIdx) ← liftM (joinColumns acc.1 newTableScope join)
  let newRows ← storage.scan join.table.name
  let rows ← liftM (hashJoin acc.2 accumulatedIdx newRows newIdx joinSchema.columns.length
    join.joinType)
  pure (acc.1.pushTable joinQualifier joinSchema.columns, rows)

def resolveJoins (fromClause : FromClause) : m (Scope × List Row) := do
  let baseSchema ← storage.tableSchema fromClause.table.name
  let scope := Scope.single fromClause.table.qualifier baseSchema.columns
  let rows ← storage.scan fromClause.table.name
  fromClause.joins.foldlM (joinTable storage) (scope, rows)

def resolveFrom (fromClause : FromClause) (selection : Option Condition) : m (Scope × List Row) :=
  if fromClause.joins = [] then do
    let schema ← storage.tableSchema fromClause.table.name
    let qualifier := fromClause.table.qualifier
    let rows ← scanAndFilter storage fromClause.table.name qualifier schema selection
    pure (Scope.single qualifier schema.columns, rows)
  else do
    let (scope, rows) ← resolveJoins storage fromClause
    let rows ← liftM (applyWhere rows scope selection)
    pure (scope, rows)

end From

def resolveProjection (scope : Scope) (projection : List SelectItem) : Result (List Nat) :=
  match projection with
  | [.wildcard] => pure (List.range scope.columns.length)
  | items => items.mapM fun item =>
    match item with
    | .wildcard => .err (.execution "'*' cannot be combined with other selected columns")
    | .expr (.column colRef) _ => scope.resolve colRef
    | .expr _ _ => .err (.unsupported "literal expressions in a SELECT list alongside a FROM clause")

def executeProjected (lib : Unspecified) (scope : Scope) (rows : List Row)
    (projection : List SelectItem) (orderBy : List OrderByItem) (limit offset : Option UInt64) :
    Result QueryResult := do
  let selectedIndices ← resolveProjection scope projection
  let sortKeys ← orderBy.mapM fun item => do
    let idx ← scope.resolve item.column
    pure (idx, item.descending)
  let pagedRows ← sortAndPaginate lib rows sortKeys limit offset
  let columns ← selectedIndices.mapM (Outcome.index scope.columns)
  let rows ← pagedRows.mapM fun row => selectedIndices.mapM (Outcome.index row)
  pure ⟨columns, rows, 0⟩

def upperName (name : String) : String := String.ofList (toAsciiUppercase name.toList)

def isAggregateFunctionName (name : String) : Bool :=
  upperName name ∈ ["COUNT", "SUM", "AVG", "MIN", "MAX"]

def SelectItem.isWildcard : SelectItem → Bool
  | .wildcard => true
  | .expr _ _ => false

def SelectItem.isAggregate : SelectItem → Bool
  | .expr (.function name _) _ => isAggregateFunctionName name
  | _ => false

def isAggregateQuery (projection : List SelectItem) (groupBy : List ColumnRef) : Bool :=
  !groupBy.isEmpty || projection.any SelectItem.isAggregate

inductive ResolvedAggregateItem where
  | groupColumn (pos : Nat)
  | aggregate (name : String) (argCol : Option (Nat × ColumnType))
  deriving DecidableEq, Repr

def resolveAggregateArg (args : List Expr) (scope : Scope) : Result (Option (Nat × ColumnType)) :=
  match args with
  | [] => pure none
  | [.column colRef] => do
    let idx ← scope.resolve colRef
    let column ← Outcome.index scope.columns idx
    pure (some (idx, column.columnType))
  | _ => .err (.unsupported "aggregate functions only support a single column argument (or none, for COUNT(*))")

def averageScale (scale : UInt8) : UInt8 := UInt8.ofNat (min (min (scale.toNat + 4) 255) 30)

def aggregateResultType (name : String) (argType : Option ColumnType) : Result ColumnType :=
  match upperName name with
  | "COUNT" => pure .int
  | "SUM" =>
    match argType with
    | some .int => pure .int
    | some (.decimal scale) => pure (.decimal scale)
    | _ => .err (.execution "SUM() requires a numeric column")
  | "AVG" =>
    match argType with
    | some .int => pure (.decimal 4)
    | some (.decimal scale) => pure (.decimal (averageScale scale))
    | _ => .err (.execution "AVG() requires a numeric column")
  | "MIN" | "MAX" => okOr (.execution s!"{name}() requires a column argument") argType
  | _ => .panic

/-- The exact sum of the numbers `amount` finds in a column and how many there are; the error
`overflow` once the sum leaves the range of `i64`. -/
def sumColumn (overflow : Error) (idx : Nat) (amount : Value → Option Int64) (rows : List Row) :
    Result (Int64 × Nat) :=
  rows.foldlM (fun acc row => do
    let cell ← Outcome.index row idx
    match amount cell with
    | some n => do
      let sum ← okOr overflow (checkedI64 (acc.1.toInt + n.toInt))
      pure (sum, acc.2 + 1)
    | none => pure acc) (0, 0)

def Value.asDecimal : Value → Option Int64
  | .decimal unscaled _ => some unscaled
  | _ => none

def Value.asNumber : Value → Option Int64
  | .int n => some n
  | .decimal unscaled _ => some unscaled
  | _ => none

def evaluateCount (argCol : Option (Nat × ColumnType)) (groupRows : List Row) : Result Value := do
  match argCol with
  | none => pure (.int (Int64.ofNat groupRows.length))
  | some (idx, _) =>
    let present ← filterRows (fun row => do
      let cell ← Outcome.index row idx
      pure (cell ≠ .null)) groupRows
    pure (.int (Int64.ofNat present.length))

def evaluateSum (argCol : Option (Nat × ColumnType)) (groupRows : List Row) : Result Value := do
  let (idx, colType) ← okOr (.execution "SUM() requires a column argument") argCol
  let overflow : Error := .execution "SUM value out of range"
  match colType with
  | .int =>
    let (sum, count) ← sumColumn overflow idx Value.asInt groupRows
    pure (if count = 0 then .null else .int sum)
  | .decimal scale =>
    let (sum, count) ← sumColumn overflow idx Value.asDecimal groupRows
    pure (if count = 0 then .null else .decimal sum scale)
  | _ => .err (.execution "SUM() requires a numeric column")

def averageColumn (sourceScale : UInt8) (idx : Nat) (groupRows : List Row) : Result Value := do
  let avgScale := averageScale sourceScale
  let overflow : Error := .execution "AVG value out of range"
  let (sum, count) ← sumColumn overflow idx Value.asNumber groupRows
  if count = 0 then pure .null
  else do
    -- the difference of the scales wraps, as in a release build
    let factor ← okOr overflow (checkedI64 (10 ^ (avgScale - sourceScale).toNat))
    let scaledSum ← okOr overflow (checkedI64 (sum.toInt * factor.toInt))
    let magnitude := UInt64.ofNat scaledSum.toInt.natAbs
    let countU := UInt64.ofNat count
    let rounded := (magnitude + countU / 2) / countU
    let rounded ← okOr overflow (checkedI64 rounded.toNat)
    pure (.decimal (if scaledSum < 0 then -rounded else rounded) avgScale)

def evaluateAverage (argCol : Option (Nat × ColumnType)) (groupRows : List Row) : Result Value := do
  let (idx, colType) ← okOr (.execution "AVG() requires a column argument") argCol
  match colType with
  | .int => averageColumn 0 idx groupRows
  | .decimal s => averageColumn s idx groupRows
  | _ => .err (.execution "AVG() requires a numeric column")

def evaluateExtreme (name : String) (wantMin : Bool) (argCol : Option (Nat × ColumnType))
    (groupRows : List Row) : Result Value := do
  let (idx, _) ← okOr (.execution s!"{name}() requires a column argument") argCol
  let best ← groupRows.foldlM (fun (best : Option Value) row => do
    let v ← Outcome.index row idx
    if v = .null then pure best
    else
      match best with
      | none => pure (some v)
      | some current =>
        let wanted := if wantMin then Ordering.lt else Ordering.gt
        pure (some (if valueOrdering v current = wanted then v else current))) none
  pure (best.getD .null)

def evaluateAggregate (name : String) (argCol : Option (Nat × ColumnType))
    (groupRows : List Row) : Result Value :=
  match upperName name with
  | "COUNT" => evaluateCount argCol groupRows
  | "SUM" => evaluateSum argCol groupRows
  | "AVG" => evaluateAverage argCol groupRows
  | "MIN" => evaluateExtreme name true argCol groupRows
  | "MAX" => evaluateExtreme name false argCol groupRows
  | _ => .panic

def resolveAggregateItem (scope : Scope) (groupByIndices : List Nat) :
    SelectItem → Result (ResolvedAggregateItem × ColumnSchema)
  | .wildcard => .panic
  | .expr (.column colRef) asAlias => do
    let idx ← scope.resolve colRef
    let pos ← okOr (.execution s!"Column '{colRef.column}' must appear in GROUP BY or be used inside an aggregate function")
      (groupByIndices.findIdx? (· = idx))
    let column ← Outcome.index scope.columns idx
    pure (.groupColumn pos, ⟨asAlias.getD column.name, column.columnType, true, false⟩)
  | .expr (.function name args) asAlias =>
    if isAggregateFunctionName name then do
      let argCol ← resolveAggregateArg args scope
      let columnType ← aggregateResultType name (argCol.map Prod.snd)
      let defaultName ← match argCol with
        | none => pure s!"{name}(*)"
        | some (idx, _) => do
          let column ← Outcome.index scope.columns idx
          pure s!"{name}({column.name})"
      pure (.aggregate name argCol, ⟨asAlias.getD defaultName, columnType, true, false⟩)
    else .err (.execution "only columns and aggregate functions are allowed in a GROUP BY / aggregate SELECT list")
  | .expr _ _ => .err (.execution "only columns and aggregate functions are allowed in a GROUP BY / aggregate SELECT list")

def addToGroup (key row : Row) : List (Row × List Row) → List (Row × List Row)
  | [] => [(key, [row])]
  | (k, rows) :: groups =>
    if k = key then (k, rows ++ [row]) :: groups else (k, rows) :: addToGroup key row groups

def groupRows (groupByIndices : List Nat) (rows : List Row) : Result (List (Row × List Row)) :=
  if groupByIndices = [] then pure [([], rows)]
  else rows.foldlM (fun groups row => do
    let key ← groupByIndices.mapM (Outcome.index row)
    pure (addToGroup key row groups)) []

def keyOrdering : Row → Row → Ordering
  | a :: as, b :: bs => if valueOrdering a b ≠ .eq then valueOrdering a b else keyOrdering as bs
  | _, _ => .eq

def executeAggregate (lib : Unspecified) (scope : Scope) (matchingRows : List Row)
    (projection : List SelectItem) (groupBy : List ColumnRef) (orderBy : List OrderByItem)
    (limit offset : Option UInt64) : Result QueryResult := do
  let groupByIndices ← groupBy.mapM scope.resolve
  if projection.any SelectItem.isWildcard then
    .err (.unsupported "'*' in a GROUP BY / aggregate query")
  else do
    let resolved ← projection.mapM (resolveAggregateItem scope groupByIndices)
    let groups ← groupRows groupByIndices matchingRows
    let keys := (lib.visit (groups.map Prod.fst)).mergeSort fun a b => (keyOrdering a b).isLE
    let outputRows ← keys.mapM fun key => do
      let rows := ((groups.find? fun g => g.1 = key).map Prod.snd).getD []
      resolved.mapM fun item =>
        match item.1 with
        | .groupColumn pos => Outcome.index key pos
        | .aggregate name argCol => evaluateAggregate name argCol rows
    let outputColumns := resolved.map Prod.snd
    let sortKeys ← orderBy.mapM fun item => do
      let idx ← columnIndex outputColumns item.column.column
      pure (idx, item.descending)
    let pagedRows ← sortAndPaginate lib outputRows sortKeys limit offset
    pure ⟨outputColumns, pagedRows, 0⟩

section WithoutTable
variable (vars : SystemVariables)

def lowerName (name : String) : List Char :=
  name.toList.map fun c => if 'A' ≤ c ∧ c ≤ 'Z' then Char.ofNat (c.toNat + 32) else c

def stripStart (word text : List Char) : Option (List Char) :=
  if word.isPrefixOf text then some (text.drop word.length) else none

def knownVariables : List (String × Value) :=
  let asInt (v : UInt64) : Value := .int (Int64.ofNat (min v.toNat (2 ^ 63 - 1)))
  [("version", .varchar vars.version), ("version_comment", .varchar "mysql-rust"),
   ("max_allowed_packet", asInt vars.maxAllowedPacket),
   ("wait_timeout", asInt vars.waitTimeout),
   ("interactive_timeout", asInt vars.waitTimeout),
   ("net_write_timeout", .int 60),
   ("net_read_timeout", .int 30),
   ("autocommit", .int 1),
   ("auto_increment_increment", .int 1),
   ("character_set_client", .varchar "utf8mb4"),
   ("character_set_connection", .varchar "utf8mb4"),
   ("character_set_results", .varchar "utf8mb4"),
   ("character_set_server", .varchar "utf8mb4"),
   ("collation_server", .varchar "utf8mb4_general_ci"),
   ("collation_connection", .varchar "utf8mb4_general_ci"),
   ("init_connect", .varchar ""),
   ("license", .varchar "MIT OR Apache-2.0"),
   ("lower_case_table_names", .int 0),
   ("performance_schema", .int 0),
   ("query_cache_size", .int 0),
   ("query_cache_type", .varchar "OFF"),
   ("have_query_cache", .varchar "NO"),
   ("sql_mode", .varchar ""),
   ("system_time_zone", .varchar "UTC"),
   ("time_zone", .varchar "SYSTEM"),
   ("transaction_isolation", .varchar "READ-COMMITTED"),
   ("tx_isolation", .varchar "READ-COMMITTED"),
   ("transaction_read_only", .int 0),
   ("socket", .null)]

def systemVariable (name : String) : Value :=
  let lower := lowerName name
  let bare := ((stripStart "session.".toList lower).or
    ((stripStart "global.".toList lower).or (stripStart "local.".toList lower))).getD lower
  (((knownVariables vars).find? fun p => p.1.toList = bare).map Prod.snd).getD .null

def evaluateFunction (name : String) : Value :=
  match String.ofList (lowerName name) with
  | "version" => .varchar vars.version
  | "connection_id" => .int 1
  | "last_insert_id" => .int 0
  | _ => .null

def constantItem : Expr → Result (String × Value)
  | .integer n => pure (i64ToString n, .int n)
  | .decimal unscaled scale => pure (formatDecimal unscaled scale, .decimal unscaled scale)
  | .string s => pure (s, .varchar s)
  | .null => pure ("NULL", .null)
  | .systemVariable name => pure (s!"@@{name}", systemVariable vars name)
  | .function name _ => pure (s!"{name}()", evaluateFunction vars name)
  | .column colRef =>
    let name := match colRef.table with
      | some t => s!"{t}.{colRef.column}"
      | none => colRef.column
    .err (.execution s!"Unknown column '{name}' in 'field list'")
  | .placeholder _ => .err (.execution "unbound '?' parameter reached the executor")

def Value.columnType : Value → ColumnType
  | .int _ => .int
  | .decimal _ scale => .decimal scale
  | .date _ => .date
  | .varchar _ | .null => .varchar

def executeSelectWithoutTable (projection : List SelectItem) (limit offset : Option UInt64) :
    Result QueryResult := do
  let items ← projection.mapM fun item =>
    match item with
    | .wildcard => .err (.execution "SELECT * requires a FROM clause")
    | .expr expr asAlias => do
      let (defaultName, value) ← constantItem vars expr
      pure (({ name := asAlias.getD defaultName, columnType := value.columnType
               nullable := true, autoIncrement := false } : ColumnSchema), value)
  let dropped := offset.any (1 ≤ ·) || limit = some 0
  pure ⟨items.map Prod.fst, if dropped then [] else [items.map Prod.snd], 0⟩

end WithoutTable

/-- The outside world of an executor: session variables and the open parts of the library. -/
structure Executor where
  vars : SystemVariables
  lib : Unspecified

def plainExecutor : Executor := ⟨⟨"8.0.0-mysql-rust", 67108864, 28800⟩, .plain⟩

def executeSelect {m : Type → Type} [Monad m] [MonadLiftT (Outcome Error) m] (ex : Executor)
    (storage : Storage m) (query : Select) : m QueryResult :=
  match query.fromClause with
  | none => liftM (executeSelectWithoutTable ex.vars query.projection query.limit query.offset)
  | some fromClause => do
    let (scope, rows) ← resolveFrom storage fromClause query.selection
    if isAggregateQuery query.projection query.groupBy then
      liftM (executeAggregate ex.lib scope rows query.projection query.groupBy query.orderBy
        query.limit query.offset)
    else
      liftM (executeProjected ex.lib scope rows query.projection query.orderBy query.limit
        query.offset)

end MysqlRust
