import MysqlRust.Query.Where
import MysqlRust.Server.PendingRows
import MysqlRust.Server.PrimaryKeys
import MysqlRust.Server.Typing

/-! # Looking up a key

`WHERE` with an equation on the key column is answered from the index, and from the pending
rows of an open transaction. It selects what comparing every row would select, as long as
key cells are typed, distinct and not `NULL`.
-/
namespace MysqlRust

open Outcome List Option

section Keys
variable {rows : List Row} {i : Nat} {columnType : ColumnType} {key : Value}

structure KeyCells (i : Nat) (columnType : ColumnType) (rows : List Row) : Prop where
  typed : ∀ row ∈ rows, ∃ key, row[i]? = some key ∧ key.HasType columnType
  distinct : (rows.map fun row => row[i]?).Nodup

theorem KeyCells.filterRows (h : KeyCells i columnType rows)
    (hkey : key = .null ∨ key.HasType columnType) :
    MysqlRust.filterRows (cellFilter i .eq key) rows =
      .ok (rows.find? fun row => row[i]? = some key).toList := by
  have hfilter : ∀ row ∈ rows, cellFilter i .eq key row = .ok (decide (row[i]? = some key)) := by
    intro row hrow
    obtain ⟨cell, hcell, htype⟩ := h.typed row hrow
    have hindex : (Outcome.index row i : Result Value) = .ok cell := index_eq_ok.mpr hcell
    rw [cellFilter, hindex, ok_bind, pure_eq, compareValues_eq_iff htype hkey, hcell]
    simp
  rw [filterRows_eq_filter hfilter, Lists.filter_of_nodup h.distinct]

theorem Table.KeyExact.find {store : Store} {table : String} {t : Table} (h : t.KeyExact)
    (ht : store.tables.lookup table = some t) (hi : t.schema.keyIndex = some i) (key : Value) :
    store.lookupByPrimaryKey table key = .ok (t.rows.find? fun row => row[i]? = some key) := by
  simp only [Store.lookupByPrimaryKey, ht, okOr, ok_bind]
  cases hpos : t.index.lookup key with
  | none =>
    have hnone : t.rows.find? (fun row => row[i]? = some key) = none := by
      refine find?_eq_none.mpr fun row hrow hcell => ?_
      obtain ⟨pos, hlt, rfl⟩ := getElem_of_mem hrow
      have hindex := (h.lookup i hi key pos).mpr (by
        rw [getElem?_eq_getElem hlt]
        exact of_decide_eq_true hcell)
      cases hpos.symm.trans hindex
    rw [hnone]
    rfl
  | some pos =>
    obtain ⟨row, hrow, hcell⟩ := bind_eq_some_iff.mp ((h.lookup i hi key pos).mp hpos)
    have hfind := Lists.find?_of_nodup (h.distinct i hi) (mem_of_getElem? hrow)
    rw [hcell] at hfind
    have hindex : (Outcome.index t.rows pos : Result Row) = .ok row := index_eq_ok.mpr hrow
    rw [hfind]
    change some <$> Outcome.index t.rows pos = _
    rw [hindex]
    rfl

end Keys

namespace Server

def scanAndFilter (s : Server) (conn : Nat) (table qualifier : String) (schema : TableSchema)
    (selection : Option Condition) : Result (List Row) :=
  match s.tx.lookup conn with
  | none =>
    (MysqlRust.scanAndFilter (inMemoryStorage none) table qualifier schema selection s.store).1
  | some tx =>
    (MysqlRust.scanAndFilter (Transaction.storage none) table qualifier schema selection
      ⟨s.store, tx⟩).1

def scan (s : Server) (conn : Nat) (table : String) : Result (List Row) :=
  match s.tx.lookup conn with
  | none => s.store.scan table
  | some tx => Transaction.View.scan ⟨s.store, tx⟩ table

def lookupByPrimaryKey (s : Server) (conn : Nat) (table : String) (key : Value) :
    Result (Option Row) :=
  match s.tx.lookup conn with
  | none => s.store.lookupByPrimaryKey table key
  | some tx => Transaction.View.lookupByPrimaryKey ⟨s.store, tx⟩ table key

end Server

section
variable {table qualifier : String} {schema : TableSchema} {cond : Condition} {i : Nat}
  {column : ColumnSchema} {expected : Value}

theorem Server.scanAndFilter_of_key {s : Server} {conn : Nat} (hop : cond.op = .eq)
    (hresolve : resolveSingleTableColumn schema.columns qualifier cond.column = .ok i)
    (hcolumn : schema.columns[i]? = some column) (hkey : schema.primaryKey = some column.name)
    (hcoerce : coerce cond.value column.columnType cond.column.column = .ok expected) :
    s.scanAndFilter conn table qualifier schema (some cond) =
      Option.toList <$> s.lookupByPrimaryKey conn table expected := by
  unfold Server.scanAndFilter Server.lookupByPrimaryKey
  cases s.tx.lookup conn with
  | none =>
    simp only [MysqlRust.scanAndFilter_of_key _ hop hresolve hcolumn hkey hcoerce, inMemoryStorage,
      Proc.read, Bind.bind, Proc.bind]
    cases s.store.lookupByPrimaryKey table expected <;> rfl
  | some tx =>
    simp only [MysqlRust.scanAndFilter_of_key _ hop hresolve hcolumn hkey hcoerce,
      Transaction.storage, Proc.read, Bind.bind, Proc.bind]
    cases Transaction.View.lookupByPrimaryKey ⟨s.store, tx⟩ table expected <;> rfl

def LookupsGuarded (s : Server) (e : Event) : Prop := KeysGuarded s e ∧ TypesGuarded s e
  deriving Decidable

variable {s : Server} {t : Table}

theorem TypesGuarded.rows {e : Event} (h : TypesGuarded s e) : RowsGuarded s e := by
  cases e with
  | execute conn st append visited =>
    cases st with
    | alterTable => exact h
    | createTable | insert | select | begin | commit | rollback | set | use | showStatement
    | createDatabase | dropDatabase => trivial
  | disconnect conn => trivial

theorem RowTyped.keyCell {row : Row} (h : RowTyped t.schema row)
    (hcolumn : t.schema.columns[i]? = some column) (hgiven : row[i]? ≠ some .null) :
    ∃ key, row[i]? = some key ∧ key.HasType column.columnType := by
  have hlt : i < row.length := by
    rw [h.length_eq]
    exact (List.getElem?_eq_some_iff.mp hcolumn).1
  refine ⟨row[i], getElem?_eq_getElem hlt, ?_⟩
  obtain ⟨cell, hcell, htyped⟩ := Lists.forall₂_getElem? h hcolumn
  rw [getElem?_eq_getElem hlt, some.injEq] at hcell
  rw [getElem?_eq_getElem hlt] at hgiven
  rw [hcell]
  exact htyped.hasType fun hnull => hgiven (by rw [hcell, hnull])

theorem Table.KeyExact.keyCells (h : t.KeyExact) (htyped : t.Typed)
    (hi : t.schema.keyIndex = some i) (hcolumn : t.schema.columns[i]? = some column) :
    KeyCells i column.columnType t.rows where
  typed row hrow := by
    refine (htyped row hrow).keyCell hcolumn fun hnull => ?_
    obtain ⟨key, hkey, hne⟩ := h.cells i hi row hrow
    exact hne (some.inj (hkey.symm.trans hnull))
  distinct := h.distinct i hi

theorem KeyCells.append {rows : List Row} (h : KeyCells i column.columnType t.rows)
    (hexact : t.KeyExact) (hi : t.schema.keyIndex = some i)
    (hcolumn : t.schema.columns[i]? = some column) (hadmits : t.AdmitsKeys rows)
    (hrows : ∀ row ∈ rows, RowTyped t.schema row ∧ KeyCellGiven t.schema row) :
    KeyCells i column.columnType (t.rows ++ rows) where
  typed := forall_mem_append.mpr ⟨h.typed, fun row hrow =>
    (hrows row hrow).1.keyCell hcolumn ((hrows row hrow).2 i hi)⟩
  distinct := by
    obtain ⟨hnodup, hfresh⟩ := hadmits i hi
    rw [map_append, nodup_append]
    refine ⟨h.distinct, hnodup, ?_⟩
    intro a ha b hb heq
    subst heq
    obtain ⟨row, hrow, rfl⟩ := mem_map.mp ha
    obtain ⟨row', hrow', heq⟩ := mem_map.mp hb
    obtain ⟨key, hkey, -⟩ := h.typed row hrow
    obtain ⟨pos, hlt, rfl⟩ := getElem_of_mem hrow
    refine hfresh row' hrow' key (heq.trans hkey) (Finmap.mem_of_lookup_eq_some
      ((hexact.lookup i hi key pos).mpr ?_))
    rw [getElem?_eq_getElem hlt]
    exact hkey

/-- In the rows a connection sees the cells of a key column are typed and distinct, and a
lookup finds the row with the key. -/
theorem keyCells_of_run (h : Runs.Reach Server.step LookupsGuarded (.start .empty) s)
    (ht : s.store.tables.lookup table = some t) (hi : t.schema.keyIndex = some i)
    (hcolumn : t.schema.columns[i]? = some column) (conn : Nat) :
    ∃ rows, s.scan conn table = .ok rows ∧ KeyCells i column.columnType rows ∧
      ∀ key, s.lookupByPrimaryKey conn table key =
        .ok (rows.find? fun row => row[i]? = some key) := by
  have hkeys := keyExact_invariant.run (h.mono fun _ _ hg => hg.1)
  have htypes := typed_invariant.run (h.mono fun _ _ hg => hg.2)
  have hpends := Server.Pends.run (h.mono fun _ _ hg => hg.2.rows)
  have hexact := hkeys.tables table t ht
  have hcells := hexact.keyCells (htypes.tables table t ht) hi hcolumn
  have hscan : s.store.scan table = .ok t.rows := by simp [Store.scan, ht, okOr]
  unfold Server.scan Server.lookupByPrimaryKey
  cases htx : s.tx.lookup conn with
  | none => exact ⟨t.rows, hscan, hcells, hexact.find ht hi⟩
  | some tx =>
    have hadmits := (hpends.view htx).table ht
    have hrows : ∀ row ∈ tx.rows table, RowTyped t.schema row ∧ KeyCellGiven t.schema row := by
      intro row hrow
      obtain ⟨u, hu, htyped⟩ := htypes.pending conn tx htx table row hrow
      obtain ⟨v, hv, hgiven⟩ := hkeys.pending conn tx htx table row hrow
      cases ht.symm.trans hu
      cases ht.symm.trans hv
      exact ⟨htyped, hgiven⟩
    refine ⟨t.rows ++ tx.rows table, ?_, hcells.append hexact hi hcolumn hadmits.keys hrows, ?_⟩
    · simp [Transaction.View.scan, hscan]
    · intro key
      have hschema : s.store.tableSchema table = .ok t.schema := by
        simp [Store.tableSchema, ht, okOr]
      have hfits : ∀ row ∈ tx.rows table, i < row.length := fun row hrow =>
        hadmits.width row hrow ▸ Table.keyIndex_lt hi
      rw [find?_append]
      simp only [Transaction.View.lookupByPrimaryKey, hexact.find ht hi, ok_bind]
      cases t.rows.find? fun row => row[i]? = some key with
      | some row => rfl
      | none =>
        simp only [hschema, ok_bind, Transaction.lookupPending, hi]
        exact Transaction.findKey_eq_find key hfits

/-- In every state that statements reach one after the other, and for every connection, an
equation on the key column selects the rows that comparing every row would select. -/
theorem scanAndFilter_key_eq_scan {qualifier : String} {cond : Condition} {expected : Value}
    (h : Runs.Reach Server.step LookupsGuarded (.start .empty) s)
    (ht : s.store.tables.lookup table = some t) (hop : cond.op = .eq)
    (hresolve : resolveSingleTableColumn t.schema.columns qualifier cond.column = .ok i)
    (hcolumn : t.schema.columns[i]? = some column) (hkey : t.schema.primaryKey = some column.name)
    (hcoerce : coerce cond.value column.columnType cond.column.column = .ok expected) (conn : Nat) :
    s.scanAndFilter conn table qualifier t.schema (some cond) =
      s.scan conn table >>= filterRows (cellFilter i .eq expected) := by
  have hi := keyIndex_of_resolved hresolve hcolumn hkey
  obtain ⟨rows, hscan, hcells, hlookup⟩ := keyCells_of_run h ht hi hcolumn conn
  rw [Server.scanAndFilter_of_key hop hresolve hcolumn hkey hcoerce, hlookup, hscan,
    ok_bind, hcells.filterRows (coerce_hasType hcoerce)]
  rfl

end

def idEquals (literal : Expr) : Condition := ⟨⟨none, "id"⟩, .eq, literal⟩

def keyedStatements : List Event :=
  [run (.createTable "t" [⟨"id", "INT", true, true, false⟩]) [],
    run (.insert ⟨"t", none, [[.integer 1], [.integer 2]]⟩) [], run .begin [],
    run (.insert ⟨"t", none, [[.string "3"]]⟩) []]

theorem scanAndFilter_pending_key :
    ∃ s, keyedStatements.foldlM Server.step (.start .empty) = some s ∧
      s.scanAndFilter 1 "t" "t" ⟨[⟨"id", .int, false, false⟩], some "id"⟩
          (some (idEquals (.integer 3))) =
        s.scan 1 "t" >>= filterRows (cellFilter 0 .eq (.int 3)) := by
  have hallowed : Runs.Allowed Server.step LookupsGuarded (.start .empty) keyedStatements := by
    decide +kernel
  have hschema : (keyedStatements.foldlM Server.step (.start .empty)).map (fun s =>
      (s.store.tables.lookup "t").map Table.schema) =
        some (some ⟨[⟨"id", .int, false, false⟩], some "id"⟩) := by decide +kernel
  obtain ⟨s, hs, hschema⟩ := map_eq_some_iff.mp hschema
  obtain ⟨t, ht, hschema⟩ := map_eq_some_iff.mp hschema
  have hresolve : resolveSingleTableColumn t.schema.columns "t" (idEquals (.integer 3)).column =
      .ok 0 := by
    rw [hschema]
    decide
  have hcolumn : t.schema.columns[0]? = some ⟨"id", .int, false, false⟩ := by
    rw [hschema]
    rfl
  have hkey : t.schema.primaryKey = some "id" := by rw [hschema]
  refine ⟨s, hs, ?_⟩
  rw [← hschema]
  exact scanAndFilter_key_eq_scan (hallowed.reach hs) ht rfl hresolve hcolumn hkey rfl 1

/-- What an equation of `id` with a literal selects in the table `t`, and what comparing every
row with the converted literal selects. -/
def Server.bothPaths (s : Server) (literal : Expr) (expected : Value) :
    Option (Result (List Row) × Result (List Row)) :=
  (s.store.tables.lookup "t").map fun t =>
    (s.scanAndFilter 1 "t" "t" t.schema (some (idEquals literal)),
      s.scan 1 "t" >>= filterRows (cellFilter 0 .eq expected))

/-- `NULL` finds a row, one of two rows with the same key is missed, and a text does not find
the number the counter stored in a text column. -/
theorem key_lookup_differs_from_scan :
    (nullKeyStatements.foldlM Server.step (.start .empty)).map (·.bothPaths .null .null) =
      some (some (.ok [[.null]], .ok [])) ∧
    (mergedKeysStatements.foldlM Server.step (.start .empty)).map
      (·.bothPaths (.integer 1) (.int 1)) = some (some (.ok [[.int 1]], .ok [[.int 1], [.int 1]])) ∧
    (countedTextStatements.foldlM Server.step (.start .empty)).map
      (·.bothPaths (.string "1") (.varchar "1")) = some (some (.ok [], .ok [[.int 1]])) := by
  refine ⟨?_, ?_, ?_⟩
  · decide +kernel
  · decide +kernel
  · decide +kernel

end MysqlRust
