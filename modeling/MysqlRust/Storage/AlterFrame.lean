import MysqlRust.Storage.BatchInsert

/-! # What `ALTER TABLE` touches

Every change rebuilds the table from scratch. Here it is compared with what it asks for: a
new schema, and a new row in the place of each old one.
-/
namespace MysqlRust

open Outcome List Lists

section
variable {t t' : Table} {change : SchemaChange}

/-- What an accepted change leaves of a table. The named column is found by its name. -/
def SchemaChange.Frame (t t' : Table) : SchemaChange → Prop
  | .addColumn column isPrimaryKey =>
    t'.schema.columns = t.schema.columns ++ [column] ∧
      (isPrimaryKey = false → t'.schema.primaryKey = t.schema.primaryKey) ∧
      t'.rows = t.rows.map (· ++ [.null])
  | .dropColumn name =>
    ∃ i, (t.schema.columns.map (·.name))[i]? = some name ∧
      t'.schema.columns = t.schema.columns.filter (fun c => c.name ≠ name) ∧
      (t.schema.primaryKey ≠ some name → t'.schema.primaryKey = t.schema.primaryKey) ∧
      Forall₂ (fun row row' => i < row.length ∧ row' = row.eraseIdx i) t.rows t'.rows
  | .modifyColumn newCol =>
    ∃ i, (t.schema.columns.map (·.name))[i]? = some newCol.name ∧
      t'.schema.columns = t.schema.columns.map (fun c => if c.name = newCol.name then newCol else c) ∧
      t'.schema.primaryKey = t.schema.primaryKey ∧
      Forall₂ (fun row row' => row'.length = row.length ∧ ∀ j : Nat, j ≠ i → row'[j]? = row[j]?)
        t.rows t'.rows
  | .addPrimaryKey _ | .dropPrimaryKey => t'.rows = t.rows

theorem computeAlteredTable_frame (hnames : (t.schema.columns.map (·.name)).Nodup)
    (h : computeAlteredTable t change = .ok t') : change.Frame t t' := by
  obtain ⟨hschema, hrows⟩ := computeAlteredTable_eq_ok h
  cases change with
  | addColumn column isPrimaryKey =>
    refine ⟨by rw [hschema]; rfl, fun hkey => ?_, ?_⟩
    · rw [hschema]
      simp [SchemaChange.alteredSchema, hkey]
    · have hmap := forall₂_map_eq hrows (f := (· ++ [.null])) (g := id) fun row row' hrow => by
        exact ok.inj hrow
      rw [hmap, map_id]
  | dropColumn name =>
    obtain ⟨idx, hidx, -⟩ := bind_eq_ok.mp h
    obtain ⟨hposition, hname⟩ := position_of_columnIndex hidx
    refine ⟨idx, hname, ?_, fun hkey => ?_, hrows.imp fun row row' hrow => ?_⟩
    · rw [hschema, ← eraseIdx_eq_filter hnames hname, ← hposition]
      rfl
    · rw [hschema]
      cases hpk : t.schema.primaryKey with
      | none => simp [SchemaChange.alteredSchema, hpk]
      | some pk =>
        have hne : pk ≠ name := fun heq => hkey (heq ▸ hpk)
        simp [SchemaChange.alteredSchema, hpk, hne]
    · simp only [SchemaChange.alteredRow, hposition, removeAt] at hrow
      split_ifs at hrow with hlt
      exact ⟨hlt, (ok.inj hrow).symm⟩
  | modifyColumn newCol =>
    obtain ⟨idx, hidx, -⟩ := bind_eq_ok.mp h
    obtain ⟨hposition, hname⟩ := position_of_columnIndex hidx
    refine ⟨idx, hname, ?_, by rw [hschema]; rfl, hrows.imp fun row row' hrow => ?_⟩
    · rw [hschema, ← set_eq_map hnames hname, ← hposition]
      rfl
    · simp only [SchemaChange.alteredRow, hposition] at hrow
      obtain ⟨value, value', -, -, -, rfl⟩ := modifyRow_eq_ok hrow
      exact ⟨length_set, fun j hj => getElem?_set_ne (Ne.symm hj)⟩
  | addPrimaryKey | dropPrimaryKey =>
    have hmap := forall₂_map_eq hrows (f := id) (g := id) fun row row' hrow => ok.inj hrow
    rw [map_id, map_id] at hmap
    exact hmap.symm

variable {t₁ : Table} {column : ColumnSchema} {isPrimaryKey : Bool}

theorem pushMapped_map {f : Row → Result Row} {g : Row → Row} {rows : List Row}
    (hfg : ∀ row ∈ rows, f (g row) = .ok row) (u : Table) :
    pushMapped f (rows.map g) u = rows.foldlM Table.pushTrusted u := by
  unfold pushMapped
  induction rows generalizing u with
  | nil => rfl
  | cons row rows ih =>
    rw [map_cons, foldlM_cons, foldlM_cons, hfg row mem_cons_self, ok_bind]
    refine bind_congr fun u' => ?_
    exact ih (fun r hr => hfg r (mem_cons_of_mem row hr)) u'

theorem columnIndex_concat {columns : List ColumnSchema}
    (hnew : ∀ c ∈ columns, c.name ≠ column.name) :
    columnIndex (columns ++ [column]) column.name = .ok columns.length := by
  have hnone : columns.findIdx? (fun c => c.name = column.name) = none :=
    findIdx?_eq_none_iff.mpr fun c hc => by simpa using hnew c hc
  simp [columnIndex, findIdx?_append, hnone, findIdx?_cons, okOr]

theorem dropColumn_of_addColumn (hcolumns : t.schema.columns ≠ [])
    (hkey : ∀ pk, t.schema.primaryKey = some pk → ∃ c ∈ t.schema.columns, c.name = pk)
    (hwidth : ∀ row ∈ t.rows, row.length = t.schema.columns.length)
    (h : addColumn t column isPrimaryKey = .ok t₁) :
    dropColumn t₁ column.name = Table.rebuild t.schema t.rows := by
  obtain ⟨hnew, -, hunkeyed, hfold⟩ := addColumn_eq_ok h
  obtain ⟨hschema, hrows₁⟩ := fill_eq_ok hfold
  have hpk : t₁.schema.primaryKey.filter (fun pk => pk ≠ column.name) = t.schema.primaryKey := by
    rw [hschema]
    cases isPrimaryKey with
    | true => simp [hunkeyed rfl]
    | false =>
      cases hpk : t.schema.primaryKey with
      | none => rfl
      | some pk =>
        obtain ⟨c, hc, rfl⟩ := hkey pk hpk
        simp [hnew c hc]
  have hcells : ∀ row ∈ t.rows,
      (removeAt (row ++ [.null]) t.schema.columns.length : Result Row) = .ok row := by
    intro row hrow
    have hlt : t.schema.columns.length < (row ++ [Value.null]).length := by simp [hwidth row hrow]
    rw [removeAt_of_lt hlt, ← hwidth row hrow, eraseIdx_concat]
  have hlength : (t.schema.columns ++ [column]).length ≠ 1 := by simpa using hcolumns
  have hcolumns₁ : t₁.schema.columns = t.schema.columns ++ [column] := by rw [hschema]
  rw [dropColumn, hcolumns₁, columnIndex_concat hnew, ok_bind, if_neg hlength, hpk, hrows₁,
    pushMapped_map hcells, eraseIdx_concat, Table.rebuild]

/-- A change touches only what it names, and keeps the rows in their order; adding a column
and dropping it gives the table back if its rows have one cell per column. -/
theorem alterTable_frame (hbuilt : t.Built) (hcolumns : t.schema.columns ≠ [])
    (hnames : (t.schema.columns.map (·.name)).Nodup)
    (hkey : ∀ pk, t.schema.primaryKey = some pk → ∃ c ∈ t.schema.columns, c.name = pk) :
    (∀ change t', computeAlteredTable t change = .ok t' → change.Frame t t') ∧
    ((∀ row ∈ t.rows, row.length = t.schema.columns.length) →
      ∀ column isPrimaryKey t₁, computeAlteredTable t (.addColumn column isPrimaryKey) = .ok t₁ →
        ∃ t₂, computeAlteredTable t₁ (.dropColumn column.name) = .ok t₂ ∧ t₂.Same t) := by
  constructor
  · exact fun change t' h => computeAlteredTable_frame hnames h
  · intro hwidth column isPrimaryKey t₁ h
    obtain ⟨u, hu, hsame⟩ := hbuilt
    refine ⟨u, ?_, hsame⟩
    have hdrop := dropColumn_of_addColumn hcolumns hkey hwidth h
    rw [← hsame.schema, ← hsame.rows] at hdrop
    exact hdrop.trans hu

def nullableInt (name : String) : ColumnSchema := ⟨name, .int, true, false⟩

def oneRow (columns : List ColumnSchema) (row : Row) : Table :=
  ⟨⟨columns, some "id"⟩, some 0, [row], Finmap.singleton (.int 1) 0, none⟩

/-- A column added to a table with a key, and dropped. -/
theorem alterTable_frame_keyed :
    ∃ t₂, computeAlteredTable (oneRow [nullableInt "id", nullableInt "n"] [.int 1, .null])
        (.dropColumn "n") = .ok t₂ ∧ t₂.Same (oneRow [nullableInt "id"] [.int 1]) := by
  have hderived : (oneRow [nullableInt "id"] [.int 1]).Derived := by decide
  refine (alterTable_frame ⟨_, hderived, .refl _⟩ (by decide) (by decide) ?_).2 (by decide)
    (nullableInt "n") false _ (by decide)
  rintro _ ⟨⟩
  exact ⟨nullableInt "id", mem_cons_self, rfl⟩

/-- A trusted row may have more cells than its table has columns. Then it is not the added
cell that is dropped. -/
theorem addThenDrop_wide_row : (oneRow [nullableInt "id"] [.int 1, .int 2]).Derived ∧
      computeAlteredTable (oneRow [nullableInt "id"] [.int 1, .int 2])
        (.addColumn (nullableInt "n") false) =
          .ok (oneRow [nullableInt "id", nullableInt "n"] [.int 1, .int 2, .null]) ∧
      computeAlteredTable (oneRow [nullableInt "id", nullableInt "n"] [.int 1, .int 2, .null])
        (.dropColumn "n") = .ok (oneRow [nullableInt "id"] [.int 1, .null]) ∧
      ¬ (oneRow [nullableInt "id"] [.int 1, .null]).Same
        (oneRow [nullableInt "id"] [.int 1, .int 2]) := by
  refine ⟨by decide, by decide, by decide, fun hsame => ?_⟩
  exact absurd hsame.rows (by decide)

end

end MysqlRust
