import MysqlRust.Query.Ast
import MysqlRust.Storage.Pending

/-! # Statements that write

All rows of an `INSERT` are converted before any of them reaches storage; only the
`AUTO_INCREMENT` counter moves while they are.
-/
namespace MysqlRust

open Outcome Proc List

def parseU8 (cs : List Char) : Option UInt8 :=
  (digitsValue (match cs with
    | '+' :: digits => digits
    | digits => digits)).bind fun n => if n < UInt8.size then some (UInt8.ofNat n) else none

def decimalScale (typeText : List Char) : UInt8 :=
  ((splitOnce '(' typeText).bind fun (_, rest) =>
    if rest.getLast? = some ')' then
      ((rest.dropLast.splitOn ',')[1]?).bind fun scale => parseU8 (trim scale)
    else none).getD 0

def ColumnType.fromName (name : String) : Option ColumnType :=
  let trimmed := trim name.toList
  let base := String.ofList (toAsciiUppercase (trim (trimmed.takeWhile (· ≠ '('))))
  if base ∈ ["INT", "INTEGER", "BIGINT", "SMALLINT", "TINYINT", "MEDIUMINT", "BOOLEAN", "BOOL"] then
    some .int
  else if base ∈ ["VARCHAR", "CHAR", "TEXT", "TINYTEXT", "MEDIUMTEXT", "LONGTEXT"] then
    some .varchar
  else if base = "DATE" then some .date
  else if base ∈ ["DECIMAL", "NUMERIC", "DEC"] then some (.decimal (decimalScale trimmed))
  else none

def columnDefToSchema (col : ColumnDef) : Result (ColumnSchema × Bool) := do
  let columnType ← okOr
    (.execution s!"Unknown column type '{col.typeName}' for column '{col.name}'")
    (ColumnType.fromName col.typeName)
  pure (⟨col.name, columnType, !col.isPrimaryKey && col.nullable, col.autoIncrement⟩,
    col.isPrimaryKey)

def coerce (expr : Expr) (columnType : ColumnType) (columnName : String) : Result Value :=
  match expr, columnType with
  | .null, _ => .ok .null
  | .integer n, .int => .ok (.int n)
  | .integer n, .varchar => .ok (.varchar (i64ToString n))
  | .string s, .varchar => .ok (.varchar s)
  | .string s, .int => .int <$> okOr (.execution
      s!"Incorrect integer value: '{s}' for column '{columnName}'") (parseI64 s)
  | .integer n, .decimal scale => (.decimal · scale) <$> rescaleDecimal n 0 scale columnName
  | .decimal unscaled litScale, .decimal scale =>
    (.decimal · scale) <$> rescaleDecimal unscaled litScale scale columnName
  | .decimal unscaled litScale, .int => .int <$> rescaleDecimal unscaled litScale 0 columnName
  | .decimal unscaled litScale, .varchar => .ok (.varchar (formatDecimal unscaled litScale))
  | .string s, .decimal scale => do
    let (unscaled, litScale) ← parseDecimalLiteral s columnName
    (.decimal · scale) <$> rescaleDecimal unscaled litScale scale columnName
  | .string s, .date => .date <$> parseDateLiteral s columnName
  | .integer _, .date | .decimal _ _, .date => .err (.execution
      s!"Incorrect date value for column '{columnName}': expected a 'YYYY-MM-DD' string")
  | .systemVariable _, _ | .column _, _ | .function _ _, _ => .err (.execution
      s!"a literal value is required for column '{columnName}'")
  | .placeholder _, _ => .err (.execution "unbound '?' parameter reached the executor")

def Expr.isNull : Expr → Bool
  | .null => true
  | _ => false

theorem coerce_null {expr : Expr} {columnType : ColumnType} {columnName : String}
    (h : coerce expr columnType columnName = .ok .null) : expr = .null := by
  unfold coerce at h
  split at h
  case h_1 => rfl
  case h_10 =>
    obtain ⟨p, -, h⟩ := bind_eq_ok.mp h
    obtain ⟨u, -, h⟩ := map_eq_ok.mp h
    cases h
  all_goals first
    | cases h
    | obtain ⟨u, -, h⟩ := map_eq_ok.mp h
      cases h

def namedExpr (insertColumns : List String) (values : List Expr) (name : String) : Option Expr :=
  (((insertColumns.zip values).reverse.find? fun p => p.1 = name)).map Prod.snd

/-- The expressions of a row in the order of the table's columns. A column takes its value
out of the list, so a second column of the same name finds none. -/
def takeNamed (insertColumns : List String) (values : List Expr) :
    List String → List ColumnSchema → Result (List Expr)
  | _, [] => pure []
  | taken, col :: cols => do
    let named := if col.name ∈ taken then none else namedExpr insertColumns values col.name
    let expr ← match named with
      | some expr => pure expr
      | none =>
        if col.autoIncrement then pure .null
        else .err (.execution
          s!"Column '{col.name}' has no default value and was not given a value")
    let rest ← takeNamed insertColumns values (col.name :: taken) cols
    pure (expr :: rest)

def reorderExprs (tableColumns : List ColumnSchema) (insertColumns : List String)
    (values : List Expr) : Result (List Expr) :=
  if insertColumns.length ≠ values.length then
    .err (.execution s!"Column count doesn't match value count: {insertColumns.length} column(s) named, {values.length} value(s) given")
  else
    match insertColumns.find? fun name => !tableColumns.any fun c => c.name = name with
    | some name => .err (.execution s!"Unknown column '{name}' in field list")
    | none => takeNamed insertColumns values [] tableColumns

def orderedExprs (table : String) (schema : TableSchema) (columns : Option (List String))
    (row : List Expr) : Result (List Expr) := do
  let ordered ← match columns with
    | some cols => reorderExprs schema.columns cols row
    | none => pure row
  if ordered.length ≠ schema.columns.length then
    .err (columnCountMismatch table schema.columns.length ordered.length)
  else pure ordered

theorem orderedExprs_length {table : String} {schema : TableSchema}
    {columns : Option (List String)} {row exprs : List Expr}
    (h : orderedExprs table schema columns row = .ok exprs) :
    exprs.length = schema.columns.length := by
  have hcheck : ∃ ordered : List Expr, (if ordered.length ≠ schema.columns.length then
      .err (columnCountMismatch table schema.columns.length ordered.length)
      else pure ordered : Result (List Expr)) = .ok exprs := by
    unfold orderedExprs at h
    cases columns with
    | none => exact ⟨row, h⟩
    | some cols =>
      obtain ⟨ordered, -, h⟩ := bind_eq_ok.mp h
      exact ⟨ordered, h⟩
  obtain ⟨ordered, h⟩ := hcheck
  split_ifs at h with hlen
  cases h
  exact not_not.mp hlen

section Execute
variable {m : Type → Type} [Monad m] [MonadLiftT (Outcome Error) m] (storage : Storage m)

abbrev raise {α : Type} (e : Error) : m α := liftM (.err e : Result α)

def autoValue (table : String) (col : ColumnSchema) (value : Value) : m Value :=
  if value = .null ∧ col.autoIncrement = true then Value.int <$> storage.nextAutoIncrement table
  else pure value

def insertValue (table : String) (p : Expr × ColumnSchema) : m Value := do
  let value ← liftM (coerce p.1 p.2.columnType p.2.name)
  let value ← autoValue storage table p.2 value
  if value = .null ∧ p.2.nullable = false then
    raise (.execution s!"Column '{p.2.name}' cannot be NULL")
  else pure value

def insertValues (table : String) (schema : TableSchema) (columns : Option (List String))
    (row : List Expr) : m Row := do
  let ordered ← liftM (orderedExprs table schema columns row)
  (ordered.zip schema.columns).mapM (insertValue storage table)

def convertRows (insert : Insert) : m (List Row) := do
  let schema ← storage.tableSchema insert.table
  insert.rows.mapM (insertValues storage insert.table schema insert.columns)

def executeInsert (insert : Insert) : m Nat := do
  let batch ← convertRows storage insert
  storage.insertRows (batch.map fun row => (insert.table, row))
  pure batch.length

structure TableDraft where
  columns : List ColumnSchema
  primaryKey : Option String
  autoIncrementColumn : Option String

def TableDraft.add (draft : TableDraft) (col : ColumnDef) : Result TableDraft := do
  let (schema, isPrimaryKey) ← columnDefToSchema col
  if isPrimaryKey = true ∧ draft.primaryKey.isSome then
    .err (.execution "multiple primary key columns are not supported")
  else if schema.autoIncrement = true ∧ draft.autoIncrementColumn.isSome then
    .err (.unsupported "more than one AUTO_INCREMENT column per table")
  else
    let primaryKey := if isPrimaryKey then some schema.name else draft.primaryKey
    let autoIncrementColumn :=
      if schema.autoIncrement then some schema.name else draft.autoIncrementColumn
    pure ⟨draft.columns ++ [schema], primaryKey, autoIncrementColumn⟩

def resolveColumns (columns : List ColumnDef) : Result (List ColumnSchema × Option String) := do
  let draft ← columns.foldlM TableDraft.add ⟨[], none, none⟩
  if draft.autoIncrementColumn.isSome ∧ draft.primaryKey ≠ draft.autoIncrementColumn then
    .err (.unsupported "AUTO_INCREMENT on a column that isn't the PRIMARY KEY")
  else pure (draft.columns, draft.primaryKey)

def executeCreateTable (table : String) (columns : List ColumnDef) : m Unit := do
  let (columns, primaryKey) ← liftM (resolveColumns columns)
  storage.createTable table columns primaryKey

def resolveAction : AlterAction → Result SchemaChange
  | .addColumn col => do
    let (column, isPrimaryKey) ← columnDefToSchema col
    pure (.addColumn column isPrimaryKey)
  | .dropColumn name => pure (.dropColumn name)
  | .modifyColumn col =>
    if col.isPrimaryKey then .err (.unsupported "ALTER TABLE MODIFY COLUMN cannot change PRIMARY KEY status; use ADD PRIMARY KEY / DROP PRIMARY KEY instead")
    else do
      let (column, _) ← columnDefToSchema col
      pure (.modifyColumn column)
  | .addPrimaryKey name => pure (.addPrimaryKey name)
  | .dropPrimaryKey => pure .dropPrimaryKey

def executeAlterTable (table : String) (action : AlterAction) : m Unit := do
  let change ← liftM (resolveAction action)
  storage.alterTable table change

def execute : Statement → m Nat
  | .createTable table columns => (fun _ => 0) <$> executeCreateTable storage table columns
  | .insert rows => executeInsert storage rows
  | .begin | .commit | .rollback => raise (.execution
      "transaction control statements must be handled by the connection layer")
  | .select _ | .set | .use | .showStatement _ => pure 0
  | .createDatabase name ifNotExists =>
    (fun _ => 0) <$> storage.createDatabase name ifNotExists
  | .dropDatabase name ifExists => (fun _ => 0) <$> storage.dropDatabase name ifExists
  | .alterTable table action => (fun _ => 0) <$> executeAlterTable storage table action

end Execute

section

structure CellOf (p : Expr × ColumnSchema) (value : Value) : Prop where
  source : coerce p.1 p.2.columnType p.2.name = .ok value ∨
    coerce p.1 p.2.columnType p.2.name = .ok .null ∧ p.2.autoIncrement = true ∧ ∃ n, value = .int n
  null : value = .null → p.2.nullable = true ∧ p.2.autoIncrement = false

def RowOf (table : String) (schema : TableSchema) (columns : Option (List String))
    (row : List Expr) (values : Row) : Prop :=
  ∃ exprs, orderedExprs table schema columns row = .ok exprs ∧
    Forall₂ CellOf (exprs.zip schema.columns) values

theorem RowOf.cell {table : String} {schema : TableSchema} {columns : Option (List String)}
    {row : List Expr} {values : Row} (h : RowOf table schema columns row values) {i : Nat}
    {value : Value} (hvalue : values[i]? = some value) :
    ∃ exprs e c, orderedExprs table schema columns row = .ok exprs ∧ exprs[i]? = some e ∧
      schema.columns[i]? = some c ∧ CellOf (e, c) value := by
  obtain ⟨exprs, hexprs, hcells⟩ := h
  obtain ⟨⟨e, c⟩, hp, hcell⟩ := Lists.forall₂_getElem? hcells hvalue
  obtain ⟨he, hc⟩ := getElem?_zip_eq_some.mp hp
  exact ⟨exprs, e, c, hexprs, he, hc, hcell⟩

variable {append : Option Error} {s₀ : Store}

theorem reserve_triple (table : String) :
    Triple (s₀.Same ·) (Store.reserve table) (fun _ s => s₀.Same s) (s₀.Same ·) := by
  intro s hs
  simp only [Store.reserve]
  cases h : nextAutoIncrement s table with
  | ok p => exact hs.trans (nextAutoIncrement_same h)
  | err e => exact hs
  | panic => exact hs

theorem insertValue_triple (table : String) (p : Expr × ColumnSchema) :
    Triple (s₀.Same ·) (insertValue (inMemoryStorage append) table p)
      (fun value s => CellOf p value ∧ s₀.Same s) (s₀.Same ·) := by
  refine .bind (Q := fun value s =>
    coerce p.1 p.2.columnType p.2.name = .ok value ∧ s₀.Same s)
    (Triple.lift (fun s value hs h => ⟨h, hs⟩) fun _ hs => hs) fun value => ?_
  refine .bind (Q := fun value s =>
    (coerce p.1 p.2.columnType p.2.name = .ok value ∨
      coerce p.1 p.2.columnType p.2.name = .ok .null ∧ p.2.autoIncrement = true ∧
        ∃ n, value = .int n) ∧
    (value = .null → p.2.autoIncrement = false) ∧ s₀.Same s) ?_ fun value => ?_
  · refine .ite (fun h => ?_) fun h => ?_
    · obtain ⟨hnull, hauto⟩ := h
      intro s hs
      refine Triple.map (reserve_triple table) (fun n s' hs' => ?_) s hs.2
      exact ⟨.inr ⟨hnull ▸ hs.1, hauto, n, rfl⟩, nofun, hs'⟩
    · refine .pure fun s hs => ⟨.inl hs.1, fun hnull => ?_, hs.2⟩
      exact Bool.eq_false_of_not_eq_true fun hauto => h ⟨hnull, hauto⟩
  · refine .ite (fun _ => .lift (fun _ _ _ => nofun) fun _ hs => hs.2.2)
      fun h => .pure fun s hs => ⟨⟨hs.1, fun hnull => ⟨?_, hs.2.1 hnull⟩⟩, hs.2.2⟩
    exact Bool.eq_true_of_not_eq_false fun hn => h ⟨hnull, hn⟩

theorem insertValues_triple (table : String) (schema : TableSchema)
    (columns : Option (List String)) (row : List Expr) :
    Triple (s₀.Same ·) (insertValues (inMemoryStorage append) table schema columns row)
      (fun values s => RowOf table schema columns row values ∧ s₀.Same s) (s₀.Same ·) := by
  refine .bind (Q := fun exprs s =>
    orderedExprs table schema columns row = .ok exprs ∧ s₀.Same s)
    (Triple.lift (fun s exprs hs h => ⟨h, hs⟩) fun _ hs => hs) fun exprs s hs => ?_
  refine Triple.mono (Triple.mapM fun p _ => insertValue_triple table p) (fun _ hs => hs)
    (fun values s' h => ?_) (fun _ h => h) s hs.2
  exact ⟨⟨exprs, hs.1, h.1⟩, h.2⟩

/-- Converting the rows of an `INSERT` moves counters only. -/
theorem convertRows_triple (append : Option Error) (rows : Insert) :
    Triple (s₀.Same ·) (convertRows (inMemoryStorage append) rows)
      (fun batch s => (∃ t, s₀.tables.lookup rows.table = some t ∧
        Forall₂ (RowOf rows.table t.schema rows.columns) rows.rows batch) ∧ s₀.Same s)
      (s₀.Same ·) := by
  refine .bind (Q := fun schema s =>
    (∃ t, s₀.tables.lookup rows.table = some t ∧ t.schema = schema) ∧ s₀.Same s)
    (Triple.read (fun s schema hs h => ⟨?_, hs⟩) fun _ hs => hs) fun schema s hs => ?_
  · obtain ⟨u, hu, rfl⟩ := map_eq_ok.mp h
    rw [okOr_eq_ok] at hu
    obtain ⟨t, ht, hsame⟩ := hs.of_lookup hu
    exact ⟨t, ht, hsame.schema⟩
  · obtain ⟨⟨t, ht, rfl⟩, hs⟩ := hs
    refine Triple.mono (Triple.mapM fun row _ => insertValues_triple _ _ _ row)
      (fun _ hs => hs) (fun batch s' h => ?_) (fun _ h => h) s hs
    exact ⟨⟨t, ht, h.1⟩, h.2⟩

theorem insertValue_storage (table : String) :
    insertValue (Transaction.storage append) table = fun p =>
      Transaction.View.onStore (insertValue (inMemoryStorage append) table p) := by
  funext p
  simp only [insertValue, autoValue, Transaction.View.onStore, within_bind, within_lift, liftM_eq]
  congr 1
  funext value
  congr 1
  · split
    · exact (within_map _ _ _).symm
    · exact (within_pure _ _).symm
  · funext value
    split
    · exact (within_lift _ _).symm
    · exact (within_pure _ _).symm

theorem insertValues_storage (table : String) (schema : TableSchema)
    (columns : Option (List String)) :
    insertValues (Transaction.storage append) table schema columns = fun row =>
      Transaction.View.onStore (insertValues (inMemoryStorage append) table schema columns row) := by
  funext row
  simp only [insertValues, insertValue_storage, Transaction.View.onStore, within_bind,
    liftM_eq, within_lift, within_mapM]

theorem convertRows_storage (rows : Insert) : convertRows (Transaction.storage append) rows =
      Transaction.View.onStore (convertRows (inMemoryStorage append) rows) := by
  simp only [convertRows, insertValues_storage, Transaction.View.onStore, within_bind, within_mapM]
  rfl

variable {rows : Insert}
variable {st : Statement}

def Insert.Batch (rows : Insert) (store : Store) (batch : List Row) : Prop :=
  ∃ t, store.tables.lookup rows.table = some t ∧
    Forall₂ (RowOf rows.table t.schema rows.columns) rows.rows batch

def Insert.pairs (rows : Insert) (batch : List Row) : List (String × Row) :=
  batch.map fun row => (rows.table, row)

/-- A call leaves the store as it is, or it is checked, logged and applied. -/
theorem mutate_cases (append : Option Error) (c : Call) (s : Store) :
    (∃ r, mutate append c s = (r, s)) ∨
      check s c = .ok true ∧ append = none ∧ ∃ s', apply s c = .ok s' ∧
        mutate append c s = (.ok (), s') := by
  simp only [mutate]
  cases hc : check s c with
  | ok go =>
    cases go with
    | false => exact .inl ⟨_, rfl⟩
    | true =>
      cases append with
      | some e => exact .inl ⟨_, rfl⟩
      | none =>
        cases ha : apply s c with
        | ok s' => exact .inr ⟨rfl, rfl, s', rfl, rfl⟩
        | err e => exact .inl ⟨_, rfl⟩
        | panic => exact .inl ⟨_, rfl⟩
  | err e => exact .inl ⟨_, rfl⟩
  | panic => exact .inl ⟨_, rfl⟩

/-- A failed conversion is the end of an `INSERT`; the converted rows are buffered one by one. -/
theorem executeInsert_transaction_cases {P E : Store → Prop} {Q : List Row → Store → Prop}
    {rows : Insert} {v : Transaction.View}
    (h : Triple P (convertRows (inMemoryStorage append) rows) Q E) (hv : P v.store) :
    (∃ s₁, E s₁ ∧ (executeInsert (Transaction.storage append) rows v).2 = { v with store := s₁ }) ∨
      ∃ batch s₁, Q batch s₁ ∧ (executeInsert (Transaction.storage append) rows v).2 =
        (Storage.insertEach Transaction.View.insertRow (rows.pairs batch)
          { v with store := s₁ }).2 := by
  have hconvert := h v.store hv
  rcases hrun : convertRows (inMemoryStorage append) rows v.store with ⟨batch | e | _, s₁⟩
  all_goals rw [hrun] at hconvert
  all_goals simp only [executeInsert, convertRows_storage, Transaction.View.onStore, Proc.within,
    Transaction.View.storePart, Bind.bind, Proc.bind, hrun]
  · refine .inr ⟨batch, s₁, hconvert, ?_⟩
    simp only [Transaction.storage, ← Insert.pairs.eq_1]
    rcases Storage.insertEach Transaction.View.insertRow (rows.pairs batch) { v with store := s₁ }
      with ⟨_ | _ | _, v'⟩ <;> rfl
  · exact .inl ⟨s₁, hconvert, rfl⟩
  · exact .inl ⟨s₁, hconvert, rfl⟩

/-- An `INSERT` in autocommit mode moves counters only, or its batch is checked and applied. -/
theorem executeInsert_engine (append : Option Error) (rows : Insert) (s : Store) :
    s.Same (executeInsert (inMemoryStorage append) rows s).2 ∨
      ∃ batch s₁ s₂, rows.Batch s batch ∧ s.Same s₁ ∧
        check s₁ (.insertRows (rows.pairs batch)) = .ok true ∧
        apply s₁ (.insertRows (rows.pairs batch)) = .ok s₂ ∧
        executeInsert (inMemoryStorage append) rows s = (.ok batch.length, s₂) := by
  have hconvert := convertRows_triple append rows s (Store.Same.refl s)
  rcases hrun : convertRows (inMemoryStorage append) rows s with ⟨batch | e | _, s₁⟩
  all_goals rw [hrun] at hconvert
  all_goals simp only [executeInsert, Bind.bind, Proc.bind, hrun]
  · rcases mutate_cases append (.insertRows (rows.pairs batch)) s₁ with
      ⟨r, hr⟩ | ⟨hcheck, -, s₂, happly, hr⟩
    all_goals simp only [inMemoryStorage, ← Insert.pairs.eq_1, hr]
    · cases r <;> exact .inl hconvert.2
    · exact .inr ⟨batch, s₁, s₂, hconvert.1, hconvert.2, hcheck, happly, rfl⟩
  · exact .inl hconvert
  · exact .inl hconvert

/-- An `INSERT` in a transaction moves counters and buffers its batch, or the first rows of
its batch. -/
theorem executeInsert_transaction (append : Option Error) (rows : Insert) (v : Transaction.View) :
    v.store.Same (executeInsert (Transaction.storage append) rows v).2.store ∧
      ∃ done rest, (done ≠ [] → rows.Batch v.store (done ++ rest)) ∧
        (executeInsert (Transaction.storage append) rows v).2.tx = v.tx.pushAll (rows.pairs done) := by
  rcases executeInsert_transaction_cases (convertRows_triple append rows)
    (Store.Same.refl v.store) with ⟨s₁, hsame, hend⟩ | ⟨batch, s₁, ⟨hbatch, hsame⟩, hend⟩
  · rw [hend]
    exact ⟨hsame, [], [], fun h => absurd rfl h, rfl⟩
  · rw [hend]
    rcases Transaction.insertEach_cases { v with store := s₁ } (rows.pairs batch) with
      h | ⟨r, p, done, rest, hpairs, -, -, -, h⟩
    · rw [h]
      exact ⟨hsame, batch, [], fun _ => (append_nil batch).symm ▸ hbatch, rfl⟩
    · obtain ⟨first, later, rfl, hfirst, -⟩ := map_eq_append_iff.mp hpairs
      rw [h, ← hfirst]
      exact ⟨hsame, first, later, fun _ => hbatch, rfl⟩

inductive Statement.Calls : Statement → Call → Prop
  | createTable {table : String} {defs : List ColumnDef} {columns : List ColumnSchema}
      {primaryKey : Option String} (h : resolveColumns defs = .ok (columns, primaryKey)) :
      Calls (.createTable table defs) (.createTable table columns primaryKey)
  | alterTable {table : String} {action : AlterAction} {change : SchemaChange}
      (h : resolveAction action = .ok change) :
      Calls (.alterTable table action) (.alterTable table change)
  | createDatabase {name : String} {ifNotExists : Bool} :
      Calls (.createDatabase name ifNotExists) (.createDatabase name ifNotExists)
  | dropDatabase {name : String} {ifExists : Bool} :
      Calls (.dropDatabase name ifExists) (.dropDatabase name ifExists)

/-- A statement other than `INSERT` leaves the store alone or makes one call. -/
theorem execute_engine (append : Option Error) (hst : ∀ rows, st ≠ .insert rows) (s : Store) :
    (∃ r, execute (inMemoryStorage append) st s = (r, s)) ∨
      ∃ c s', st.Calls c ∧ check s c = .ok true ∧ apply s c = .ok s' ∧
        execute (inMemoryStorage append) st s = (.ok 0, s') := by
  suffices h : (∃ r, execute (inMemoryStorage append) st s = (r, s)) ∨
      ∃ c, st.Calls c ∧ execute (inMemoryStorage append) st s =
        ((fun _ => 0) <$> mutate append c : Proc Store Error Nat) s by
    rcases h with h | ⟨c, hc, heq⟩
    · exact .inl h
    rw [heq, map_eq_pure_bind]
    rcases mutate_cases append c s with ⟨r, hr⟩ | ⟨hcheck, -, s', happly, hr⟩
    · simp only [Bind.bind, Proc.bind, hr]
      cases r <;> exact .inl ⟨_, rfl⟩
    · simp only [Bind.bind, Proc.bind, hr]
      exact .inr ⟨c, s', hc, hcheck, happly, rfl⟩
  cases st with
  | createTable table defs =>
    cases hr : resolveColumns defs with
    | ok p =>
      exact .inr ⟨_, .createTable hr, by simp only [execute, executeCreateTable, hr]; rfl⟩
    | err e => exact .inl ⟨.err e, by simp only [execute, executeCreateTable, hr]; rfl⟩
    | panic => exact .inl ⟨.panic, by simp only [execute, executeCreateTable, hr]; rfl⟩
  | alterTable table action =>
    cases hr : resolveAction action with
    | ok change =>
      exact .inr ⟨_, .alterTable hr, by simp only [execute, executeAlterTable, hr]; rfl⟩
    | err e => exact .inl ⟨.err e, by simp only [execute, executeAlterTable, hr]; rfl⟩
    | panic => exact .inl ⟨.panic, by simp only [execute, executeAlterTable, hr]; rfl⟩
  | createDatabase name ifNotExists => exact .inr ⟨_, .createDatabase, rfl⟩
  | dropDatabase name ifExists => exact .inr ⟨_, .dropDatabase, rfl⟩
  | insert rows => exact absurd rfl (hst rows)
  | begin | commit | rollback | select | set | use | showStatement => exact .inl ⟨_, rfl⟩

theorem execute_storage (append : Option Error) (hst : ∀ rows, st ≠ .insert rows) :
    execute (Transaction.storage append) st =
      Transaction.View.onStore (execute (inMemoryStorage append) st) := by
  cases st with
  | createTable table defs =>
    simp only [execute, executeCreateTable, Transaction.View.onStore, within_map,
      within_bind, within_lift, liftM_eq]
    rfl
  | alterTable table action =>
    simp only [execute, executeAlterTable, Transaction.View.onStore, within_map,
      within_bind, within_lift, liftM_eq]
    rfl
  | createDatabase name ifNotExists => exact (within_map _ _ _).symm
  | dropDatabase name ifExists => exact (within_map _ _ _).symm
  | insert rows => exact absurd rfl (hst rows)
  | begin | commit | rollback | select | set | use | showStatement => rfl

end

end MysqlRust
