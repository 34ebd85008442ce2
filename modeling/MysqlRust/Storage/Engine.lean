import MysqlRust.Storage.AlterTable

/-! # The storage engine

A mutator call checks itself against the store, appends one record to the log and then applies
itself: `check`, `Call.entry` and `apply`. `applyEntry` is the other implementation of the same
changes, the one that replays records.
-/
namespace MysqlRust

open Outcome

structure Store where
  tables : Finmap fun _ : String => Table
  databases : Finset String
  deriving DecidableEq

def Store.empty : Store := ⟨∅, ∅⟩

def Store.setTable (s : Store) (name : String) (t : Table) : Store :=
  { s with tables := s.tables.insert name t }

def pushRow (s : Store) (p : String × Row) : Result Store :=
  match s.tables.lookup p.1 with
  | some t => do
    let t' ← t.pushTrusted p.2
    pure (s.setTable p.1 t')
  | none => pure s

def applyAlter (s : Store) (table : String) (change : SchemaChange) : Result Store :=
  match s.tables.lookup table with
  | some t =>
    match computeAlteredTable t change with
    | .ok altered => .ok (s.setTable table altered)
    | .err _ => .ok s
    | .panic => .panic
  | none => .ok s

def applyEntry (s : Store) : Entry → Result Store
  | .createTable table columns primaryKey => .ok (s.setTable table (Table.new columns primaryKey))
  | .insertRow table row => pushRow s (table, row)
  | .transaction rows => rows.foldlM pushRow s
  | .createDatabase name => .ok { s with databases := insert name s.databases }
  | .dropDatabase name => .ok { s with databases := s.databases.erase name }
  | .alterTable table change => applyAlter s table change

inductive Call where
  | createTable (name : String) (columns : List ColumnSchema) (primaryKey : Option String)
  | alterTable (name : String) (change : SchemaChange)
  | insertRow (table : String) (row : Row)
  | insertRows (rows : List (String × Row))
  | createDatabase (name : String) (ifNotExists : Bool)
  | dropDatabase (name : String) (ifExists : Bool)
  deriving DecidableEq, Repr

def Call.entry : Call → Entry
  | .createTable name columns primaryKey => .createTable name columns primaryKey
  | .alterTable name change => .alterTable name change
  | .insertRow table row => .insertRow table row
  | .insertRows rows => .transaction rows
  | .createDatabase name _ => .createDatabase name
  | .dropDatabase name _ => .dropDatabase name

def tableExists (name : String) : Error := .execution s!"Table '{name}' already exists"

def tableMissing (name : String) : Error := .execution s!"Table '{name}' doesn't exist"

def databaseExists (name : String) : Error :=
  .execution s!"Can't create database '{name}'; database exists"

def databaseMissing (name : String) : Error :=
  .execution s!"Can't drop database '{name}'; database doesn't exist"

def checkKeyDefined (columns : List ColumnSchema) : Option String → Result Unit
  | some pk =>
    if columns.any fun c => c.name = pk then .ok ()
    else .err (.execution s!"Primary key column '{pk}' is not defined")
  | none => .ok ()

def columnCountMismatch (table : String) (columns values : Nat) : Error :=
  .execution s!"Column count doesn't match value count: table '{table}' has {columns} column(s), got {values}"

def checkRow (s : Store) (table : String) (row : Row) : Result Table := do
  let t ← okOr (tableMissing table) (s.tables.lookup table)
  if row.length ≠ t.schema.columns.length then
    .err (columnCountMismatch table t.schema.columns.length row.length)
  else do
    t.checkInsertable row
    pure t

def checkBatchRow (s : Store) (seenInBatch : Finset (String × Value)) (p : String × Row) :
    Result (Finset (String × Value)) := do
  let t ← checkRow s p.1 p.2
  match ← t.primaryKeyValue p.2 with
  | some key =>
    if (p.1, key) ∈ seenInBatch then .err (Table.duplicateEntry key)
    else pure (insert (p.1, key) seenInBatch)
  | none => pure seenInBatch

def check (s : Store) : Call → Result Bool
  | .createTable name columns primaryKey => do
    checkKeyDefined columns primaryKey
    if name ∈ s.tables then .err (tableExists name) else pure true
  | .alterTable name change => do
    let t ← okOr (tableMissing name) (s.tables.lookup name)
    let _ ← computeAlteredTable t change
    pure true
  | .insertRow table row => do
    let _ ← checkRow s table row
    pure true
  | .insertRows rows =>
    if rows = [] then pure false
    else do
      let _ ← rows.foldlM (checkBatchRow s) ∅
      pure true
  | .createDatabase name ifNotExists =>
    if name ∈ s.databases then
      if ifNotExists then pure false else .err (databaseExists name)
    else pure true
  | .dropDatabase name ifExists =>
    if name ∉ s.databases ∧ ifExists = false then .err (databaseMissing name) else pure true

def apply (s : Store) : Call → Result Store
  | .createTable name columns primaryKey =>
    if name ∈ s.tables then .err (tableExists name)
    else pure (s.setTable name (Table.new columns primaryKey))
  | .alterTable name change => do
    let t ← okOr (tableMissing name) (s.tables.lookup name)
    let altered ← computeAlteredTable t change
    pure (s.setTable name altered)
  | .insertRow table row => do
    let t ← okOr (tableMissing table) (s.tables.lookup table)
    let t' ← t.pushTrusted row
    pure (s.setTable table t')
  | .insertRows rows => rows.foldlM pushRow s
  | .createDatabase name ifNotExists =>
    if name ∈ s.databases then
      if ifNotExists then pure s else .err (databaseExists name)
    else pure { s with databases := insert name s.databases }
  | .dropDatabase name ifExists =>
    if name ∈ s.databases ∨ ifExists = true then
      pure { s with databases := s.databases.erase name }
    else .err (databaseMissing name)

/-- Reserve the next counter value. Not logged. -/
def nextAutoIncrement (s : Store) (table : String) : Result (Store × Int64) := do
  let t ← okOr (tableMissing table) (s.tables.lookup table)
  let (idx, next) ← okOr (.execution s!"Table '{table}' has no AUTO_INCREMENT column")
    t.autoIncrement
  pure (s.setTable table { t with autoIncrement := some (idx, next + 1) }, next)

section SetTable
variable (s : Store) (name : String) (t : Table)

@[simp] theorem lookup_setTable : (s.setTable name t).tables.lookup name = some t :=
  Finmap.lookup_insert _

theorem lookup_setTable_of_ne {other : String} (h : other ≠ name) :
    (s.setTable name t).tables.lookup other = s.tables.lookup other :=
  Finmap.lookup_insert_of_ne _ h

@[simp] theorem databases_setTable : (s.setTable name t).databases = s.databases := rfl

end SetTable

theorem pushRow_ne_err (s : Store) (p : String × Row) (e : Error) : pushRow s p ≠ .err e := by
  unfold pushRow
  split
  · exact bind_ne_err (Table.pushTrusted_ne_err _ _) (by simp) e
  · simp

/-- A replayed row goes to its table, and nowhere if there is none. -/
theorem pushRow_eq_ok {s s' : Store} {p : String × Row} (h : pushRow s p = .ok s') :
    s.tables.lookup p.1 = none ∧ s' = s ∨ ∃ t t', s.tables.lookup p.1 = some t ∧
      t.pushTrusted p.2 = .ok t' ∧ s' = s.setTable p.1 t' := by
  unfold pushRow at h
  split at h
  · rename_i t ht
    obtain ⟨t', ht', h⟩ := bind_eq_ok.mp h
    exact .inr ⟨t, t', ht, ht', (ok.inj h).symm⟩
  · rename_i ht
    exact .inl ⟨ht, (ok.inj h).symm⟩

/-- A replayed change that is refused leaves the store as it is. -/
theorem applyAlter_eq_ok {s s' : Store} {table : String} {change : SchemaChange}
    (h : applyAlter s table change = .ok s') :
    s' = s ∨ ∃ t altered, s.tables.lookup table = some t ∧
      computeAlteredTable t change = .ok altered ∧ s' = s.setTable table altered := by
  unfold applyAlter at h
  split at h
  · rename_i t ht
    split at h
    · rename_i altered haltered
      exact .inr ⟨t, altered, ht, haltered, (ok.inj h).symm⟩
    · exact .inl (ok.inj h).symm
    · cases h
  · exact .inl (ok.inj h).symm

def settle (s : Store) : Result Store → Result Store
  | .ok s' => .ok s'
  | .err _ => .ok s
  | .panic => .panic

theorem settle_of_ne_err {s : Store} {x : Result Store} (h : ∀ e, x ≠ .err e) : settle s x = x := by
  cases x with
  | ok s' => rfl
  | err e => exact absurd rfl (h e)
  | panic => rfl

/-- Replaying a call's record does what the call did, whether it succeeded or not, except
for a `CREATE TABLE` of a name that is taken. -/
theorem applyEntry_entry (s : Store) (c : Call)
    (hc : ∀ name columns primaryKey, c = .createTable name columns primaryKey → name ∉ s.tables) :
    applyEntry s c.entry = settle s (apply s c) := by
  cases c with
  | createTable name columns primaryKey =>
    simp [Call.entry, applyEntry, apply, settle, hc name columns primaryKey rfl]
  | alterTable name change =>
    simp only [Call.entry, applyEntry, applyAlter, apply]
    cases s.tables.lookup name with
    | none => rfl
    | some t =>
      simp only [okOr, ok_bind]
      cases computeAlteredTable t change <;> rfl
  | insertRow table row =>
    simp only [Call.entry, applyEntry, pushRow, apply]
    cases s.tables.lookup table with
    | none => rfl
    | some t =>
      exact (settle_of_ne_err fun e =>
        bind_ne_err (Table.pushTrusted_ne_err t row) (by simp) e).symm
  | insertRows rows => exact (settle_of_ne_err (foldlM_ne_err pushRow_ne_err rows s)).symm
  | createDatabase name ifNotExists =>
    simp only [Call.entry, applyEntry, apply]
    split_ifs with hmem
    · simp [settle, Finset.insert_eq_of_mem hmem]
    · simp [settle, Finset.insert_eq_of_mem hmem]
    · rfl
  | dropDatabase name ifExists =>
    simp only [Call.entry, applyEntry, apply]
    split_ifs with hmem
    · rfl
    · have hnot : name ∉ s.databases := fun hin => hmem (.inl hin)
      simp [settle, Finset.erase_eq_of_notMem hnot]

end MysqlRust
