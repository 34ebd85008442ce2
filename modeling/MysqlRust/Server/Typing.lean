import MysqlRust.Server.TableInvariants
import MysqlRust.Storage.Typing

/-! # Typed cells over whole runs

Every statement stores typed cells, with two exceptions. `AUTO_INCREMENT` is accepted on a
column of any type and stores an integer there. Rows that wait in a transaction keep the
types their table had when they were inserted.
-/
namespace MysqlRust

open Outcome Option

def Insert.GivesTexts (rows : Insert) (schema : TableSchema) : Prop :=
  ∀ row ∈ rows.rows, ∀ exprs ∈ (orderedExprs rows.table schema rows.columns row).toOption,
    ∀ p ∈ exprs.zip schema.columns, p.2.autoIncrement = true → p.2.columnType ≠ .int →
      p.1.isNull = false
  deriving Decidable

/-- The counter fills integer columns only, and a table with pending rows is not altered,
unless it is to drop its key. -/
def TypesGuarded (s : Server) : Event → Prop
  | .execute _ (.insert rows) _ _ =>
    ∀ t ∈ s.store.tables.lookup rows.table, rows.GivesTexts t.schema
  | .execute _ (.alterTable table action) _ _ =>
    ∀ change ∈ (resolveAction action).toOption, change ≠ .dropPrimaryKey → s.NoPending table
  | _ => True

instance (s : Server) (e : Event) : Decidable (TypesGuarded s e) := by
  unfold TypesGuarded
  rcases e with ⟨_, ⟨⟩⟩ | _ <;> infer_instance

theorem coerce_hasType {expr : Expr} {columnType : ColumnType} {columnName : String}
    {value : Value} (h : coerce expr columnType columnName = .ok value) :
    value = .null ∨ value.HasType columnType := by
  unfold coerce at h
  split at h
  case h_1 => exact .inl (Outcome.ok.inj h).symm
  case h_10 =>
    obtain ⟨p, -, h⟩ := bind_eq_ok.mp h
    obtain ⟨n, -, rfl⟩ := map_eq_ok.mp h
    exact .inr rfl
  case h_11 =>
    obtain ⟨date, hdate, rfl⟩ := map_eq_ok.mp h
    obtain ⟨rfl, hdate⟩ := parseDateLiteral_eq_ok hdate
    exact .inr hdate
  all_goals first
    | cases h <;> exact .inr trivial
    | obtain ⟨n, -, rfl⟩ := map_eq_ok.mp h
      first | exact .inr trivial | exact .inr rfl

theorem CellOf.cellTyped {p : Expr × ColumnSchema} {value : Value} (h : CellOf p value)
    (hauto : p.2.autoIncrement = true → p.2.columnType ≠ .int → p.1.isNull = false) :
    CellTyped value p.2 := by
  rcases h.source with hcoerce | ⟨hnull, hcounter, n, rfl⟩
  · rcases coerce_hasType hcoerce with rfl | htype
    · exact .inl ⟨rfl, (h.null rfl).1⟩
    · exact .inr htype
  · -- the counter replaced a `NULL`, so the column holds integers
    have hint : p.2.columnType = .int := by
      by_contra hne
      have hgiven := hauto hcounter hne
      rw [coerce_null hnull] at hgiven
      cases hgiven
    rw [CellTyped, hint]
    exact .inr trivial

theorem RowOf.rowTyped {rows : Insert} {schema : TableSchema} {exprs : List Expr} {values : Row}
    (h : RowOf rows.table schema rows.columns exprs values) (hgiven : rows.GivesTexts schema)
    (hmem : exprs ∈ rows.rows) : RowTyped schema values := by
  obtain ⟨ordered, hordered, hcells⟩ := h
  refine Lists.forall₂_zip_right (orderedExprs_length hordered) hcells fun p hp value hcell => ?_
  exact hcell.cellTyped (hgiven exprs hmem ordered (mem_toOption.mpr hordered) p hp)

theorem typed_invariant : TableInvariant TypesGuarded Table.Typed RowTyped where
  same _ _ := Table.Typed.same
  new _ _ _ _ _ _ columns primaryKey _ _ _ := new_typed columns primaryKey
  alter := by
    intro s conn table action append visited change t t' hg hresolved _ _ htyped haltered
    refine ⟨computeAlteredTable_typed htyped haltered, ?_⟩
    have hpending := hg change (mem_toOption.mpr hresolved)
    cases change with
    | dropPrimaryKey =>
      refine .inr fun row hrow => ?_
      rw [(pushAll_eq_ok (dropPrimaryKey_eq_ok haltered)).1]
      exact rowTyped_dropPrimaryKey hrow
    | addColumn | dropColumn | modifyColumn | addPrimaryKey => exact .inl (hpending nofun)
  convert := by
    intro s conn rows append visited t exprs values hg ht hmem hrowOf
    exact hrowOf.rowTyped (hg t ht) hmem
  push _ _ _ _ htyped hrows _ hfold := htyped.pushAll hrows hfold

/-- In every state that statements reach one after the other, every cell of every table has
its column's type, or is `NULL` in a nullable column. -/
theorem typed_of_run {s : Server}
    (h : Runs.Reach Server.step TypesGuarded (.start .empty) s) : s.store.All Table.Typed :=
  (typed_invariant.run h).tables

def typedStatements : List Event :=
  [run (.createTable "t" [⟨"id", "INT", true, true, true⟩, ⟨"day", "DATE", false, true, false⟩,
      ⟨"price", "DECIMAL(6, 2)", false, true, false⟩]) [],
    run .begin [],
    run (.insert ⟨"t", none, [[.null, .string "2024-02-29", .string "1.5"],
      [.integer 7, .null, .integer 3]]⟩) [],
    run .commit ["t"],
    run (.alterTable "t" (.modifyColumn ⟨"day", "VARCHAR(10)", false, true, false⟩)) []]

theorem typed_typedStatements : ∃ s, typedStatements.foldlM Server.step (.start .empty) = some s ∧
      (s.store.tables.lookup "t").map Table.rows =
        some [[.int 1, .varchar "2024-02-29", .decimal 150 2], [.int 7, .null, .decimal 300 2]] ∧
      s.store.All Table.Typed := by
  have hallowed : Runs.Allowed Server.step TypesGuarded (.start .empty) typedStatements := by
    decide +kernel
  have hrows : (typedStatements.foldlM Server.step (.start .empty)).map (fun s =>
      (s.store.tables.lookup "t").map Table.rows) =
        some (some [[.int 1, .varchar "2024-02-29", .decimal 150 2],
          [.int 7, .null, .decimal 300 2]]) := by decide +kernel
  obtain ⟨s, hs, hrows⟩ := map_eq_some_iff.mp hrows
  exact ⟨s, hs, hrows, typed_of_run (hallowed.reach hs)⟩

def countedTextStatements : List Event :=
  [run (.createTable "t" [⟨"id", "VARCHAR(5)", true, true, true⟩]) [],
    run (.insert ⟨"t", none, [[.null]]⟩) []]

def retypedStatements : List Event :=
  [run (.createTable "t" [⟨"id", "INT", false, true, false⟩]) [], run .begin [],
    run (.insert ⟨"t", none, [[.integer 1]]⟩) [],
    run (.alterTable "t" (.modifyColumn ⟨"id", "VARCHAR(5)", false, true, false⟩)) [],
    run .commit ["t"]]

def Server.typesAndRows (s : Server) : Option (List ColumnType × List Row) :=
  (s.store.tables.lookup "t").map fun t => (t.schema.columns.map ColumnSchema.columnType, t.rows)

theorem Server.not_typed {s : Server} {n : Int64}
    (h : s.typesAndRows = some ([.varchar], [[.int n]])) : ¬ s.store.All Table.Typed := by
  intro hall
  obtain ⟨t, ht, hpair⟩ := map_eq_some_iff.mp h
  obtain ⟨htypes, hrows⟩ := Prod.mk.inj hpair
  have hrow : RowTyped t.schema [.int n] := hall "t" t ht _ (by rw [hrows]; simp)
  obtain ⟨column, hcolumns, htype⟩ := List.map_eq_singleton_iff.mp htypes
  rw [RowTyped, hcolumns] at hrow
  cases hrow with
  | cons hcell _ => simp [CellTyped, htype, Value.HasType] at hcell

/-- One statement after the other, a text column comes to hold an integer. -/
theorem integers_in_text_columns :
    (∃ s, countedTextStatements.foldlM Server.step (.start .empty) = some s ∧
      ¬ s.store.All Table.Typed) ∧
    ∃ s, retypedStatements.foldlM Server.step (.start .empty) = some s ∧
      ¬ s.store.All Table.Typed := by
  constructor
  · have hrows : (countedTextStatements.foldlM Server.step (.start .empty)).map
        Server.typesAndRows = some (some ([.varchar], [[.int 1]])) := by decide +kernel
    obtain ⟨s, hs, hrows⟩ := map_eq_some_iff.mp hrows
    exact ⟨s, hs, s.not_typed hrows⟩
  · have hrows : (retypedStatements.foldlM Server.step (.start .empty)).map
        Server.typesAndRows = some (some ([.varchar], [[.int 1]])) := by decide +kernel
    obtain ⟨s, hs, hrows⟩ := map_eq_some_iff.mp hrows
    exact ⟨s, hs, s.not_typed hrows⟩

end MysqlRust
