import MysqlRust.Storage.LogEntry
import MysqlRust.Storage.Table

/-! # Altered tables

`computeAlteredTable` validates a schema change and builds the changed table from scratch. It
reads the schema and the rows only.
-/
namespace MysqlRust

open Outcome List

def retypeValue (value : Value) (newType : ColumnType) (columnName : String) : Result Value :=
  match value, newType with
  | .null, _ => .ok .null
  | .int n, .int => .ok (.int n)
  | .int n, .varchar => .ok (.varchar (i64ToString n))
  | .int n, .decimal scale => (.decimal · scale) <$> rescaleDecimal n 0 scale columnName
  | .int _, .date => .err (.execution
      s!"Incorrect date value for column '{columnName}': cannot convert an INT to DATE")
  | .varchar s, .varchar => .ok (.varchar s)
  | .varchar s, .int => .int <$> okOr (.execution
      s!"Incorrect integer value: '{s}' for column '{columnName}'") (parseI64 s)
  | .varchar s, .decimal scale => do
    let (unscaled, litScale) ← parseDecimalLiteral s columnName
    (.decimal · scale) <$> rescaleDecimal unscaled litScale scale columnName
  | .varchar s, .date => .date <$> parseDateLiteral s columnName
  | .decimal unscaled scale, .decimal newScale =>
    (.decimal · newScale) <$> rescaleDecimal unscaled scale newScale columnName
  | .decimal unscaled scale, .int => .int <$> rescaleDecimal unscaled scale 0 columnName
  | .decimal unscaled scale, .varchar => .ok (.varchar (formatDecimal unscaled scale))
  | .decimal _ _, .date => .err (.execution
      s!"Incorrect date value for column '{columnName}': cannot convert a DECIMAL to DATE")
  | .date s, .date => .ok (.date s)
  | .date s, .varchar => .ok (.varchar s)
  | .date _, .int => .err (.execution
      s!"Incorrect integer value for column '{columnName}': cannot convert a DATE to INT")
  | .date _, .decimal _ => .err (.execution
      s!"Incorrect decimal value for column '{columnName}': cannot convert a DATE to DECIMAL")

def pushMapped (f : Row → Result Row) (rows : List Row) (empty : Table) : Result Table :=
  rows.foldlM (fun rebuilt row => f row >>= rebuilt.pushTrusted) empty

def unknownColumn (name : String) : Error := .execution s!"Unknown column '{name}'"

def columnIndex (columns : List ColumnSchema) (name : String) : Result Nat :=
  okOr (unknownColumn name) (columns.findIdx? fun c => c.name = name)

def addColumn (current : Table) (column : ColumnSchema) (isPrimaryKey : Bool) : Result Table :=
  if current.schema.columns.any fun c => c.name = column.name then
    .err (.execution s!"Duplicate column name '{column.name}'")
  else if current.rows ≠ [] ∧ column.nullable = false then
    .err (.execution s!"ADD COLUMN '{column.name}' NOT NULL is not supported on a table that already has rows (no DEFAULT value support)")
  else if current.rows ≠ [] ∧ isPrimaryKey = true then
    .err (.execution s!"ADD COLUMN '{column.name}' PRIMARY KEY is not supported on a table that already has rows")
  else if isPrimaryKey = true ∧ current.schema.primaryKey.isSome then
    .err (.execution "table already has a primary key")
  else
    let primaryKey := if isPrimaryKey then some column.name else current.schema.primaryKey
    pushMapped (fun row => pure (row ++ [.null])) current.rows
      (Table.new (current.schema.columns ++ [column]) primaryKey)

def dropColumn (current : Table) (name : String) : Result Table := do
  let idx ← columnIndex current.schema.columns name
  if current.schema.columns.length = 1 then
    .err (.execution "cannot drop the only remaining column in a table")
  else
    let primaryKey := current.schema.primaryKey.filter fun pk => pk ≠ name
    pushMapped (removeAt · idx) current.rows
      (Table.new (current.schema.columns.eraseIdx idx) primaryKey)

def modifyRow (newCol : ColumnSchema) (idx : Nat) (row : Row) : Result Row := do
  let value ← index row idx
  let retyped ← retypeValue value newCol.columnType newCol.name
  if newCol.nullable = false ∧ retyped = .null then
    .err (.execution s!"Column '{newCol.name}' cannot be null")
  else pure (row.set idx retyped)

def modifyColumn (current : Table) (newCol : ColumnSchema) : Result Table := do
  let idx ← columnIndex current.schema.columns newCol.name
  if newCol.autoIncrement = true ∧ current.schema.primaryKey ≠ some newCol.name then
    .err (.unsupported "AUTO_INCREMENT on a column that isn't the PRIMARY KEY")
  else
    pushMapped (modifyRow newCol idx) current.rows
      (Table.new (current.schema.columns.set idx newCol) current.schema.primaryKey)

def pushKeyed (name : String) (idx : Nat) (acc : Finset Value × Table) (row : Row) :
    Result (Finset Value × Table) := do
  let key ← index row idx
  if key = .null then
    .err (.execution s!"Column '{name}' contains NULL values; cannot be a primary key")
  else if key ∈ acc.1 then .err (Table.duplicateEntry key)
  else do
    let rebuilt ← acc.2.pushTrusted row
    pure (insert key acc.1, rebuilt)

def addPrimaryKey (current : Table) (name : String) : Result Table :=
  if current.schema.primaryKey.isSome then
    .err (.execution "table already has a primary key")
  else do
    let idx ← columnIndex current.schema.columns name
    let columns := current.schema.columns.modify idx fun c => { c with nullable := false }
    Prod.snd <$> current.rows.foldlM (pushKeyed name idx) (∅, Table.new columns (some name))

def dropPrimaryKey (current : Table) : Result Table :=
  if current.schema.primaryKey.isNone then
    .err (.execution "table has no primary key to drop")
  else
    let columns := current.schema.columns.map fun c =>
      if current.schema.primaryKey = some c.name then { c with autoIncrement := false } else c
    pushMapped pure current.rows (Table.new columns none)

def computeAlteredTable (current : Table) : SchemaChange → Result Table
  | .addColumn column isPrimaryKey => addColumn current column isPrimaryKey
  | .dropColumn name => dropColumn current name
  | .modifyColumn newCol => modifyColumn current newCol
  | .addPrimaryKey name => addPrimaryKey current name
  | .dropPrimaryKey => dropPrimaryKey current

theorem computeAlteredTable_congr {t u : Table} (h : t.Same u) (change : SchemaChange) :
    computeAlteredTable t change = computeAlteredTable u change := by
  cases change <;>
    simp only [computeAlteredTable, addColumn, dropColumn, modifyColumn, addPrimaryKey,
      dropPrimaryKey, h.schema, h.rows]

namespace SchemaChange

def position (schema : TableSchema) (name : String) : Nat :=
  schema.columns.findIdx fun c => c.name = name

def alteredSchema (schema : TableSchema) : SchemaChange → TableSchema
  | .addColumn column isPrimaryKey =>
    ⟨schema.columns ++ [column], if isPrimaryKey then some column.name else schema.primaryKey⟩
  | .dropColumn name =>
    ⟨schema.columns.eraseIdx (position schema name), schema.primaryKey.filter fun pk => pk ≠ name⟩
  | .modifyColumn newCol =>
    ⟨schema.columns.set (position schema newCol.name) newCol, schema.primaryKey⟩
  | .addPrimaryKey name =>
    ⟨schema.columns.modify (position schema name) fun c => { c with nullable := false }, some name⟩
  | .dropPrimaryKey =>
    ⟨schema.columns.map fun c =>
      if schema.primaryKey = some c.name then { c with autoIncrement := false } else c, none⟩

def alteredRow (schema : TableSchema) (row : Row) : SchemaChange → Result Row
  | .addColumn _ _ => .ok (row ++ [.null])
  | .dropColumn name => removeAt row (position schema name)
  | .modifyColumn newCol => modifyRow newCol (position schema newCol.name) row
  | .addPrimaryKey _ | .dropPrimaryKey => .ok row

end SchemaChange

section
variable {rows : List Row} {t t' : Table}

variable {idx : Nat} {row : Row} {columns : List ColumnSchema} {primaryKey : Option String}

theorem okOr_post {α : Type} {P : α → Prop} (e : Error) {o : Option α}
    (h : ∀ a, o = some a → P a) : (okOr e o).Post P := by
  cases o with
  | none => trivial
  | some a => exact h a rfl

theorem rescaleDecimal_post (unscaled : Int64) (fromScale toScale : UInt8) (columnName : String) :
    (rescaleDecimal unscaled fromScale toScale columnName).Post fun _ => True := by
  have hokOr : ∀ {α : Type} (e : Error) (o : Option α), (okOr e o).Post fun _ => True :=
    fun e o => okOr_post e fun _ _ => trivial
  unfold rescaleDecimal
  refine .ite ?_ ?_
  · exact (hokOr _ _).bind fun _ _ => hokOr _ _
  · exact (hokOr _ _).bind fun _ _ => (hokOr _ _).bind fun _ _ => trivial

theorem parseDecimalLiteral_post (s columnName : String) :
    (parseDecimalLiteral s columnName).Post fun _ => True := by
  unfold parseDecimalLiteral
  refine .ite post_err (.ite post_err (.ite post_err ?_))
  generalize parseI64 _ = magnitude
  cases magnitude with
  | none => exact post_err
  | some n => exact post_ok.mpr trivial

theorem digitsAt_post (bytes : List UInt8) (start len : Nat) (invalid : Error) :
    (digitsAt bytes start len invalid).Post fun _ => True := by
  unfold digitsAt
  exact .ite trivial trivial

theorem parseDateLiteral_post (s columnName : String) :
    (parseDateLiteral s columnName).Post fun _ => True := by
  unfold parseDateLiteral
  refine .ite trivial ?_
  exact (digitsAt_post _ _ _ _).bind fun _ _ => (digitsAt_post _ _ _ _).bind fun _ _ =>
    (digitsAt_post _ _ _ _).bind fun _ _ => .ite trivial trivial

theorem retypeValue_post (value : Value) (newType : ColumnType) (columnName : String) :
    (retypeValue value newType columnName).Post fun _ => True := by
  unfold retypeValue
  split
  case h_4 => exact (rescaleDecimal_post _ _ _ _).map fun _ _ => trivial
  case h_7 => exact (okOr_post (P := fun _ => True) _ fun _ _ => trivial).map fun _ _ => trivial
  case h_8 =>
    exact (parseDecimalLiteral_post _ _).bind fun _ _ =>
      (rescaleDecimal_post _ _ _ _).map fun _ _ => trivial
  case h_9 => exact (parseDateLiteral_post _ _).map fun _ _ => trivial
  case h_10 => exact (rescaleDecimal_post _ _ _ _).map fun _ _ => trivial
  case h_11 => exact (rescaleDecimal_post _ _ _ _).map fun _ _ => trivial
  all_goals trivial

theorem modifyRow_post {newCol : ColumnSchema} (h : idx < row.length) :
    (modifyRow newCol idx row).Post fun newRow => newRow.length = row.length := by
  exact (index_post h).bind fun value _ => (retypeValue_post _ _ _).bind fun retyped _ =>
    .ite trivial length_set

theorem columnIndex_post (columns : List ColumnSchema) (name : String) :
    (columnIndex columns name).Post (· < columns.length) :=
  okOr_post _ fun _ => Table.findIdx?_lt

theorem pushTrusted_post {schema : TableSchema} (h : t.Wf ∧ t.schema = schema)
    (hrow : row.length = schema.columns.length) :
    (t.pushTrusted row).Post fun t' => t'.Wf ∧ t'.schema = schema := by
  obtain ⟨hwf, rfl⟩ := h
  obtain ⟨t', ht', hwf', hschema⟩ := hwf.pushTrusted hrow
  rw [ht']
  exact ⟨hwf', hschema⟩

theorem pushMapped_wf {f : Row → Result Row}
    (hf : ∀ row ∈ rows, (f row).Post fun newRow => newRow.length = columns.length) :
    (pushMapped f rows (Table.new columns primaryKey)).Post fun t =>
      t.Wf ∧ t.schema = ⟨columns, primaryKey⟩ :=
  Post.foldlM (fun _ hb row hrow => (hf row hrow).bind fun _ => pushTrusted_post hb)
    ⟨Table.new_wf columns primaryKey, rfl⟩

theorem pushKeyed_wf {name : String} (hidx : idx < columns.length)
    (hrows : ∀ row ∈ rows, row.length = columns.length) :
    (rows.foldlM (pushKeyed name idx) (∅, Table.new columns primaryKey)).Post fun acc =>
      acc.2.Wf ∧ acc.2.schema = ⟨columns, primaryKey⟩ := by
  refine .foldlM (fun acc hacc row hrow => ?_) ⟨Table.new_wf columns primaryKey, rfl⟩
  have hlt : idx < row.length := (hrows row hrow).symm ▸ hidx
  exact (index_post hlt).bind fun key _ => .ite trivial (.ite trivial
    ((pushTrusted_post hacc (hrows row hrow)).bind fun _ h => h))

/-- Altering a well-formed table does not panic. -/
theorem computeAlteredTable_wf (h : t.Wf) (change : SchemaChange) :
    (computeAlteredTable t change).Post Table.Wf := by
  cases change with
  | addColumn column isPrimaryKey =>
    refine .ite trivial (.ite trivial (.ite trivial (.ite trivial ?_)))
    refine (pushMapped_wf fun row hrow => ?_).mono fun _ ht => ht.1
    simp [h.width row hrow]
  | dropColumn name =>
    refine (columnIndex_post _ _).bind fun idx hidx => .ite trivial ?_
    refine (pushMapped_wf fun row hrow => ?_).mono fun _ ht => ht.1
    have hwidth := h.width row hrow
    rw [removeAt_of_lt (by omega), post_ok, length_eraseIdx_of_lt (by omega),
      length_eraseIdx_of_lt hidx, hwidth]
  | modifyColumn newCol =>
    refine (columnIndex_post _ _).bind fun idx hidx => .ite trivial ?_
    refine (pushMapped_wf fun row hrow => ?_).mono fun _ ht => ht.1
    have hwidth := h.width row hrow
    rw [length_set, ← hwidth]
    exact modifyRow_post (by omega)
  | addPrimaryKey name =>
    refine .ite trivial ((columnIndex_post _ _).bind fun idx hidx => ?_)
    refine .map (pushKeyed_wf ?_ fun row hrow => ?_) fun _ ht => ht.1
    · rwa [length_modify]
    · rw [length_modify]
      exact h.width row hrow
  | dropPrimaryKey =>
    refine .ite trivial ?_
    refine (pushMapped_wf fun row hrow => ?_).mono fun _ ht => ht.1
    simpa using h.width row hrow

variable {name : String}
variable {f : Row → Result Row}

theorem pushMapped_eq_ok (h : pushMapped f rows t = .ok t') :
    ∃ rows', List.Forall₂ (fun row row' => f row = .ok row') rows rows' ∧
      rows'.foldlM Table.pushTrusted t = .ok t' := by
  unfold pushMapped at h
  induction rows generalizing t with
  | nil => exact ⟨[], .nil, h⟩
  | cons row rows ih =>
    rw [foldlM_cons] at h
    obtain ⟨t₁, hpush, h⟩ := bind_eq_ok.mp h
    obtain ⟨row', hrow', hpush⟩ := bind_eq_ok.mp hpush
    obtain ⟨rows', hrows', hfold⟩ := ih h
    exact ⟨row' :: rows', .cons hrow' hrows', by rw [foldlM_cons, hpush, ok_bind, hfold]⟩

theorem pushMapped_eq_map {g : Row → Row} (hfg : ∀ row row', f row = .ok row' → row' = g row)
    (h : pushMapped f rows t = .ok t') : (rows.map g).foldlM Table.pushTrusted t = .ok t' := by
  obtain ⟨rows', hrows', hfold⟩ := pushMapped_eq_ok h
  have heq : rows' = rows.map g := by
    clear h hfold
    induction hrows' with
    | nil => rfl
    | cons hrow _ ih => rw [map_cons, hfg _ _ hrow, ih]
  rwa [← heq]

theorem pushKeyed_eq_ok {idx : Nat} {acc acc' : Finset Value × Table}
    (h : rows.foldlM (pushKeyed name idx) acc = .ok acc') :
    rows.foldlM Table.pushTrusted acc.2 = .ok acc'.2 ∧
      (∀ row ∈ rows, ∃ key, row[idx]? = some key ∧ key ≠ .null ∧ key ∉ acc.1) ∧
      (rows.map fun row => row[idx]?).Nodup := by
  induction rows generalizing acc with
  | nil =>
    cases h
    exact ⟨rfl, by simp, nodup_nil⟩
  | cons row rows ih =>
    rw [foldlM_cons] at h
    obtain ⟨acc₁, hstep, h⟩ := bind_eq_ok.mp h
    obtain ⟨key, hkey, hstep⟩ := bind_eq_ok.mp hstep
    rw [index_eq_ok] at hkey
    split_ifs at hstep with hnull hseen
    obtain ⟨rebuilt, hpush, hstep⟩ := bind_eq_ok.mp hstep
    cases hstep
    obtain ⟨hfold, hkeys, hnodup⟩ := ih h
    refine ⟨by rw [foldlM_cons, hpush, ok_bind, hfold], ?_, ?_⟩
    · intro r hr
      rcases mem_cons.mp hr with rfl | hr
      · exact ⟨key, hkey, hnull, hseen⟩
      · obtain ⟨k, hk, hknull, hknew⟩ := hkeys r hr
        exact ⟨k, hk, hknull, fun hmem => hknew (Finset.mem_insert_of_mem hmem)⟩
    · rw [map_cons, nodup_cons, hkey]
      refine ⟨fun hmem => ?_, hnodup⟩
      obtain ⟨r, hr, hrkey⟩ := mem_map.mp hmem
      obtain ⟨k, hk, -, hknew⟩ := hkeys r hr
      rw [hk, Option.some.injEq] at hrkey
      exact hknew (hrkey ▸ Finset.mem_insert_self k _)

/-- What `ADD COLUMN` has checked when it succeeds, and the table it fills. -/
theorem addColumn_eq_ok {column : ColumnSchema} {isPrimaryKey : Bool}
    (h : addColumn t column isPrimaryKey = .ok t') :
    (∀ c ∈ t.schema.columns, c.name ≠ column.name) ∧
      (t.rows = [] ∨ column.nullable = true ∧ isPrimaryKey = false) ∧
      (isPrimaryKey = true → t.schema.primaryKey = none) ∧
      (t.rows.map (· ++ [.null])).foldlM Table.pushTrusted (Table.new (t.schema.columns ++ [column])
        (if isPrimaryKey then some column.name else t.schema.primaryKey)) = .ok t' := by
  unfold addColumn at h
  by_cases hname : t.schema.columns.any fun c => c.name = column.name
  · simp [hname] at h
  · rw [if_neg hname] at h
    by_cases hnull : t.rows ≠ [] ∧ column.nullable = false
    · simp [hnull] at h
    · rw [if_neg hnull] at h
      by_cases hpk : t.rows ≠ [] ∧ isPrimaryKey = true
      · simp [hpk] at h
      · rw [if_neg hpk] at h
        by_cases hkey : isPrimaryKey = true ∧ t.schema.primaryKey.isSome
        · simp [hkey] at h
        · rw [if_neg hkey] at h
          refine ⟨by simpa using hname, ?_, by simpa using hkey, ?_⟩
          · by_cases hrows : t.rows = []
            · exact .inl hrows
            · exact .inr ⟨by simpa [hrows] using hnull, by simpa [hrows] using hpk⟩
          · exact pushMapped_eq_map (fun row row' hrow => (ok.inj hrow).symm) h

theorem dropColumn_eq_ok (h : dropColumn t name = .ok t') :
    ∃ idx, t.schema.columns.findIdx? (fun c => c.name = name) = some idx ∧
      t.schema.columns.length ≠ 1 ∧
      (t.rows.map (·.eraseIdx idx)).foldlM Table.pushTrusted
        (Table.new (t.schema.columns.eraseIdx idx) (t.schema.primaryKey.filter fun pk => pk ≠ name)) =
          .ok t' := by
  obtain ⟨idx, hidx, h⟩ := bind_eq_ok.mp h
  split_ifs at h with hone
  refine ⟨idx, okOr_eq_ok.mp hidx, hone, pushMapped_eq_map (fun row row' hrow => ?_) h⟩
  unfold removeAt at hrow
  split_ifs at hrow
  exact (ok.inj hrow).symm

theorem modifyRow_eq_ok {newCol : ColumnSchema} {row' : Row} (h : modifyRow newCol idx row = .ok row') :
    ∃ value value', row[idx]? = some value ∧
      retypeValue value newCol.columnType newCol.name = .ok value' ∧
      (value' = .null → newCol.nullable = true) ∧ row' = row.set idx value' := by
  obtain ⟨value, hvalue, h⟩ := bind_eq_ok.mp h
  obtain ⟨value', hretype, h⟩ := bind_eq_ok.mp h
  split_ifs at h with hnull
  refine ⟨value, value', index_eq_ok.mp hvalue, hretype, fun heq => ?_, (ok.inj h).symm⟩
  exact Bool.eq_true_of_not_eq_false fun hn => hnull ⟨hn, heq⟩

theorem modifyColumn_eq_ok {newCol : ColumnSchema} (h : modifyColumn t newCol = .ok t') :
    ∃ idx rows', t.schema.columns.findIdx? (fun c => c.name = newCol.name) = some idx ∧
      (newCol.autoIncrement = true → t.schema.primaryKey = some newCol.name) ∧
      List.Forall₂ (fun row row' => modifyRow newCol idx row = .ok row') t.rows rows' ∧
      rows'.foldlM Table.pushTrusted
        (Table.new (t.schema.columns.set idx newCol) t.schema.primaryKey) = .ok t' := by
  obtain ⟨idx, hidx, h⟩ := bind_eq_ok.mp h
  split_ifs at h with hauto
  obtain ⟨rows', hrows', hfold⟩ := pushMapped_eq_ok h
  refine ⟨idx, rows', okOr_eq_ok.mp hidx, fun hai => ?_, hrows', hfold⟩
  by_contra hne
  exact hauto ⟨hai, hne⟩

theorem addPrimaryKey_eq_ok (h : addPrimaryKey t name = .ok t') :
    ∃ idx, t.schema.columns.findIdx? (fun c => c.name = name) = some idx ∧
      t.schema.primaryKey = none ∧
      (∀ row ∈ t.rows, ∃ key, row[idx]? = some key ∧ key ≠ .null) ∧
      (t.rows.map fun row => row[idx]?).Nodup ∧
      t.rows.foldlM Table.pushTrusted (Table.new
        (t.schema.columns.modify idx fun c => { c with nullable := false }) (some name)) = .ok t' := by
  unfold addPrimaryKey at h
  split_ifs at h with hpk
  obtain ⟨idx, hidx, h⟩ := bind_eq_ok.mp h
  obtain ⟨acc, hfold, rfl⟩ := map_eq_ok.mp h
  obtain ⟨hfold, hkeys, hnodup⟩ := pushKeyed_eq_ok hfold
  refine ⟨idx, okOr_eq_ok.mp hidx, by simpa using hpk, fun row hrow => ?_, hnodup, hfold⟩
  obtain ⟨key, hkey, hnull, -⟩ := hkeys row hrow
  exact ⟨key, hkey, hnull⟩

theorem dropPrimaryKey_eq_ok (h : dropPrimaryKey t = .ok t') :
    t.rows.foldlM Table.pushTrusted (Table.new (t.schema.columns.map fun c =>
      if t.schema.primaryKey = some c.name then { c with autoIncrement := false } else c) none) =
        .ok t' := by
  unfold dropPrimaryKey at h
  split_ifs at h
  have hfold := pushMapped_eq_map (g := id) (fun row row' hrow => (ok.inj hrow).symm) h
  rwa [map_id] at hfold

/-- Rows are added at the end, under the same schema. -/
theorem pushAll_eq_ok (h : rows.foldlM Table.pushTrusted t = .ok t') :
    t'.schema = t.schema ∧ t'.rows = t.rows ++ rows := by
  induction rows generalizing t with
  | nil =>
    cases h
    simp
  | cons row rows ih =>
    rw [foldlM_cons] at h
    obtain ⟨t₁, ht₁, h⟩ := bind_eq_ok.mp h
    obtain ⟨hschema, -, hrows⟩ := Table.pushTrusted_eq_ok ht₁
    obtain ⟨hschema', hrows'⟩ := ih h
    exact ⟨hschema'.trans hschema, by simp [hrows', hrows]⟩

theorem fill_eq_ok (h : rows.foldlM Table.pushTrusted (Table.new columns primaryKey) = .ok t') :
    t'.schema = ⟨columns, primaryKey⟩ ∧ t'.rows = rows :=
  pushAll_eq_ok h

variable {change : SchemaChange}

theorem position_of_columnIndex {schema : TableSchema} {name : String} {idx : Nat}
    (h : columnIndex schema.columns name = .ok idx) :
    SchemaChange.position schema name = idx ∧ (schema.columns.map (·.name))[idx]? = some name := by
  obtain ⟨hlt, rfl⟩ := findIdx?_eq_some_iff_findIdx_eq.mp (okOr_eq_ok.mp h)
  refine ⟨rfl, ?_⟩
  have hname := findIdx_getElem (w := hlt)
  rw [getElem?_map, getElem?_eq_getElem hlt, Option.map_some]
  exact congrArg some (of_decide_eq_true hname)

theorem pushMapped_new_eq_ok {f : Row → Result Row}
    (h : pushMapped f rows (Table.new columns primaryKey) = .ok t') :
    t'.schema = ⟨columns, primaryKey⟩ ∧ Forall₂ (fun row row' => f row = .ok row') rows t'.rows := by
  obtain ⟨rows', hrows', hfold⟩ := pushMapped_eq_ok h
  obtain ⟨hschema, rfl⟩ := fill_eq_ok hfold
  exact ⟨hschema, hrows'⟩

/-- An accepted change leaves the schema it asks for and a row for each row. -/
theorem computeAlteredTable_eq_ok (h : computeAlteredTable t change = .ok t') :
    t'.schema = change.alteredSchema t.schema ∧
      Forall₂ (fun row row' => change.alteredRow t.schema row = .ok row') t.rows t'.rows := by
  cases change with
  | addColumn column isPrimaryKey =>
    obtain ⟨-, -, -, hfold⟩ := addColumn_eq_ok h
    obtain ⟨hschema, hrows⟩ := fill_eq_ok hfold
    refine ⟨hschema, ?_⟩
    rw [hrows, forall₂_map_right_iff]
    exact forall₂_same.mpr fun row _ => rfl
  | dropColumn name =>
    obtain ⟨idx, hidx, h⟩ := bind_eq_ok.mp h
    obtain ⟨rfl, -⟩ := position_of_columnIndex hidx
    split_ifs at h
    exact pushMapped_new_eq_ok h
  | modifyColumn newCol =>
    obtain ⟨idx, hidx, h⟩ := bind_eq_ok.mp h
    obtain ⟨rfl, -⟩ := position_of_columnIndex hidx
    split_ifs at h
    exact pushMapped_new_eq_ok h
  | addPrimaryKey name =>
    obtain ⟨idx, hidx, -, -, -, hfold⟩ := addPrimaryKey_eq_ok h
    obtain ⟨-, rfl⟩ := findIdx?_eq_some_iff_findIdx_eq.mp hidx
    obtain ⟨hschema, hrows⟩ := fill_eq_ok hfold
    refine ⟨hschema, ?_⟩
    rw [hrows]
    exact forall₂_same.mpr fun row _ => rfl
  | dropPrimaryKey =>
    obtain ⟨hschema, hrows⟩ := fill_eq_ok (dropPrimaryKey_eq_ok h)
    refine ⟨hschema, ?_⟩
    rw [hrows]
    exact forall₂_same.mpr fun row _ => rfl

/-- An altered table is rebuilt from scratch, whatever the table it came from. -/
theorem computeAlteredTable_derived (h : computeAlteredTable t change = .ok t') : t'.Derived := by
  have hfill : ∃ rows : List Row, ∃ columns primaryKey,
      rows.foldlM Table.pushTrusted (Table.new columns primaryKey) = .ok t' := by
    cases change with
    | addColumn column isPrimaryKey => exact ⟨_, _, _, (addColumn_eq_ok h).2.2.2⟩
    | dropColumn name =>
      obtain ⟨idx, -, -, hfold⟩ := dropColumn_eq_ok h
      exact ⟨_, _, _, hfold⟩
    | modifyColumn newCol =>
      obtain ⟨idx, rows', -, -, -, hfold⟩ := modifyColumn_eq_ok h
      exact ⟨_, _, _, hfold⟩
    | addPrimaryKey name =>
      obtain ⟨idx, -, -, -, -, hfold⟩ := addPrimaryKey_eq_ok h
      exact ⟨_, _, _, hfold⟩
    | dropPrimaryKey => exact ⟨_, _, _, dropPrimaryKey_eq_ok h⟩
  obtain ⟨rows, columns, primaryKey, hfold⟩ := hfill
  exact foldlM_invariant (fun _ _ _ ht => ht.pushTrusted) (Table.new_derived _ _) hfold

end

end MysqlRust
