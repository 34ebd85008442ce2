import MysqlRust.Foundation.Proc
import MysqlRust.Storage.Transaction

/-! # The two storage back ends

The executor runs against an interface with two implementations: the engine itself, and a
transaction, which buffers rows and shows them on top of the engine. It is stated over any monad;
here a call runs alone, and `append` is `none` when its log append succeeds.
-/
namespace MysqlRust

open List Outcome

structure Storage (m : Type → Type) where
  createTable : String → List ColumnSchema → Option String → m Unit
  alterTable : String → SchemaChange → m Unit
  tableSchema : String → m TableSchema
  insertRow : String → Row → m Unit
  insertRows : List (String × Row) → m Unit
  scan : String → m (List Row)
  scanFiltered : String → (Row → Result Bool) → m (List Row)
  lookupByPrimaryKey : String → Value → m (Option Row)
  nextAutoIncrement : String → m Int64
  createDatabase : String → Bool → m Unit
  dropDatabase : String → Bool → m Unit

def Storage.insertEach {m : Type → Type} [Monad m] (insertRow : String → Row → m Unit) :
    List (String × Row) → m Unit
  | [] => pure ()
  | (table, row) :: rows => do
    insertRow table row
    insertEach insertRow rows

def filterRows (filter : Row → Result Bool) : List Row → Result (List Row)
  | [] => pure []
  | row :: rows => do
    let keep ← filter row
    let rest ← filterRows filter rows
    pure (if keep then row :: rest else rest)

variable {filter : Row → Result Bool}

theorem filterRows_eq_filter {p : Row → Bool} {rows : List Row}
    (h : ∀ row ∈ rows, filter row = .ok (p row)) :
    filterRows filter rows = .ok (rows.filter p) := by
  induction rows with
  | nil => rfl
  | cons row rows ih =>
    rw [filterRows, h row mem_cons_self, ok_bind,
      ih fun r hr => h r (mem_cons_of_mem row hr), ok_bind, filter_cons]
    rfl

theorem mem_of_filterRows {rows kept : List Row} (h : filterRows filter rows = .ok kept) :
    kept ⊆ rows := by
  induction rows generalizing kept with
  | nil =>
    cases h
    exact List.Subset.refl _
  | cons row rows ih =>
    obtain ⟨keep, -, h⟩ := bind_eq_ok.mp h
    obtain ⟨rest, hrest, h⟩ := bind_eq_ok.mp h
    cases h
    split
    · exact cons_subset_cons row (ih hrest)
    · exact subset_cons_of_subset row (ih hrest)

def mutate (append : Option Error) (c : Call) : Proc Store Error Unit := fun s =>
  match check s c with
  | .ok false => (.ok (), s)
  | .err e => (.err e, s)
  | .panic => (.panic, s)
  | .ok true =>
    match append with
    | some e => (.err e, s)
    | none =>
      match apply s c with
      | .ok s' => (.ok (), s')
      | .err e => (.err e, s)
      | .panic => (.panic, s)

def Store.tableSchema (s : Store) (name : String) : Result TableSchema :=
  Table.schema <$> okOr (tableMissing name) (s.tables.lookup name)

def Store.scan (s : Store) (table : String) : Result (List Row) :=
  Table.rows <$> okOr (tableMissing table) (s.tables.lookup table)

def Store.scanFiltered (s : Store) (table : String) (filter : Row → Result Bool) :
    Result (List Row) := do
  let t ← okOr (tableMissing table) (s.tables.lookup table)
  filterRows filter t.rows

def Store.lookupByPrimaryKey (s : Store) (table : String) (key : Value) : Result (Option Row) := do
  let t ← okOr (tableMissing table) (s.tables.lookup table)
  match t.index.lookup key with
  | some idx => some <$> index t.rows idx
  | none => pure none

def Store.reserve (table : String) : Proc Store Error Int64 := fun s =>
  match nextAutoIncrement s table with
  | .ok (s', value) => (.ok value, s')
  | .err e => (.err e, s)
  | .panic => (.panic, s)

def inMemoryStorage (append : Option Error) : Storage (Proc Store Error) where
  createTable name columns primaryKey := mutate append (.createTable name columns primaryKey)
  alterTable name change := mutate append (.alterTable name change)
  tableSchema name := Proc.read (Store.tableSchema · name)
  insertRow table row := mutate append (.insertRow table row)
  insertRows rows := mutate append (.insertRows rows)
  scan table := Proc.read (Store.scan · table)
  scanFiltered table filter := Proc.read (Store.scanFiltered · table filter)
  lookupByPrimaryKey table key := Proc.read (Store.lookupByPrimaryKey · table key)
  nextAutoIncrement table := Store.reserve table
  createDatabase name ifNotExists := mutate append (.createDatabase name ifNotExists)
  dropDatabase name ifExists := mutate append (.dropDatabase name ifExists)

structure Transaction where
  pending : Finmap fun _ : String => List Row
  deriving DecidableEq

namespace Transaction

def new : Transaction := ⟨∅⟩

def rows (tx : Transaction) (table : String) : List Row := (tx.pending.lookup table).getD []

def push (tx : Transaction) (table : String) (row : Row) : Transaction :=
  ⟨tx.pending.insert table (tx.rows table ++ [row])⟩

def batch (tx : Transaction) (tables : List String) : List (String × List Row) :=
  tables.map fun table => (table, tx.rows table)

def Order (tx : Transaction) (tables : List String) : Prop :=
  tables.Nodup ∧ tables.toFinset = tx.pending.keys
  deriving Decidable

def findKey (pkIdx : Nat) (key : Value) : List Row → Result (Option Row)
  | [] => pure none
  | row :: rows => do
    let cell ← index row pkIdx
    if cell = key then pure (some row) else findKey pkIdx key rows

def buffer (store : Store) (tx : Transaction) (schema : TableSchema) (table : String)
    (row : Row) : Result Transaction :=
  match schema.keyIndex with
  | some pkIdx => do
    let key ← index row pkIdx
    let committed ← store.lookupByPrimaryKey table key
    let alreadyPending ← findKey pkIdx key (tx.rows table)
    if committed.isSome ∨ alreadyPending.isSome then .err (Table.duplicateEntry key)
    else pure (tx.push table row)
  | none => pure (tx.push table row)

def schemaFor (store : Store) (table : String) (row : Row) : Result TableSchema := do
  let schema ← store.tableSchema table
  if row.length ≠ schema.columns.length then
    .err (columnCountMismatch table schema.columns.length row.length)
  else pure schema

structure View where
  store : Store
  tx : Transaction

def View.storePart : Proc.Part View Store where
  get := View.store
  set s v := { v with store := s }
  get_set _ _ := rfl
  set_set _ _ _ := rfl
  set_get _ := rfl

def View.onStore {α : Type} (x : Proc Store Error α) : Proc View Error α :=
  Proc.within View.storePart x

def View.insertRow (table : String) (row : Row) : Proc View Error Unit := fun v =>
  match schemaFor v.store table row >>= fun schema => buffer v.store v.tx schema table row with
  | .ok tx => (.ok (), { v with tx })
  | .err e => (.err e, v)
  | .panic => (.panic, v)

def View.scan (v : View) (table : String) : Result (List Row) := do
  let rows ← v.store.scan table
  pure (rows ++ v.tx.rows table)

def View.scanFiltered (v : View) (table : String) (filter : Row → Result Bool) :
    Result (List Row) := do
  let rows ← v.store.scanFiltered table filter
  let pending ← filterRows filter (v.tx.rows table)
  pure (rows ++ pending)

def lookupPending (tx : Transaction) (schema : TableSchema) (table : String) (key : Value) :
    Result (Option Row) :=
  match schema.keyIndex with
  | some pkIdx => findKey pkIdx key (tx.rows table)
  | none => pure none

def View.lookupByPrimaryKey (v : View) (table : String) (key : Value) : Result (Option Row) := do
  match ← v.store.lookupByPrimaryKey table key with
  | some row => pure (some row)
  | none => do
    let schema ← v.store.tableSchema table
    v.tx.lookupPending schema table key

def storage (append : Option Error) : Storage (Proc View Error) where
  createTable name columns primaryKey :=
    View.onStore ((inMemoryStorage append).createTable name columns primaryKey)
  alterTable name change := View.onStore ((inMemoryStorage append).alterTable name change)
  tableSchema name := View.onStore ((inMemoryStorage append).tableSchema name)
  insertRow := View.insertRow
  insertRows := Storage.insertEach View.insertRow
  scan table := Proc.read (View.scan · table)
  scanFiltered table filter := Proc.read (View.scanFiltered · table filter)
  lookupByPrimaryKey table key := Proc.read (View.lookupByPrimaryKey · table key)
  nextAutoIncrement table := View.onStore ((inMemoryStorage append).nextAutoIncrement table)
  createDatabase name ifNotExists :=
    View.onStore ((inMemoryStorage append).createDatabase name ifNotExists)
  dropDatabase name ifExists := View.onStore ((inMemoryStorage append).dropDatabase name ifExists)

end Transaction

end MysqlRust
