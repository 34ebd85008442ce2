import MysqlRust.Server.TableInvariants

/-! # Primary keys over whole runs

Every statement keeps the key index of every table exact, with three exceptions. `MODIFY
COLUMN` makes a key column nullable unless it repeats `NOT NULL`, and converts keys without looking
for duplicates. A new key is not checked against pending rows.
-/
namespace MysqlRust

open Option

def Insert.GivesKeys (rows : Insert) (schema : TableSchema) : Prop :=
  ∀ i ∈ schema.keyIndex, ∀ c ∈ schema.columns[i]?, c.nullable = true → c.autoIncrement = false →
    ∀ row ∈ rows.rows, ∀ exprs ∈ (orderedExprs rows.table schema rows.columns row).toOption,
      ∀ e ∈ exprs[i]?, e.isNull = false
  deriving Decidable

def SchemaChange.MovesKey : SchemaChange → Bool
  | .addColumn _ isPrimaryKey => isPrimaryKey
  | .dropColumn _ | .addPrimaryKey _ => true
  | .modifyColumn _ | .dropPrimaryKey => false

/-- No `NULL` goes into a nullable key column, no `MODIFY COLUMN` merges keys, and no key is
added or moved in a table with pending rows. -/
def KeysGuarded (s : Server) : Event → Prop
  | .execute _ (.insert rows) _ _ =>
    ∀ t ∈ s.store.tables.lookup rows.table, rows.GivesKeys t.schema
  | .execute _ (.alterTable table action) _ _ =>
    ∀ change ∈ (resolveAction action).toOption,
      (∀ t ∈ s.store.tables.lookup table, change.KeysApart t) ∧
      (change.MovesKey = true → s.NoPending table)
  | _ => True

instance (s : Server) (e : Event) : Decidable (KeysGuarded s e) := by
  unfold KeysGuarded
  split <;> infer_instance

def KeyCellGiven (schema : TableSchema) (row : Row) : Prop :=
  ∀ i, schema.keyIndex = some i → row[i]? ≠ some .null

theorem RowOf.keyCellGiven {rows : Insert} {schema : TableSchema} {exprs : List Expr} {values : Row}
    (h : RowOf rows.table schema rows.columns exprs values) (hkeys : rows.GivesKeys schema)
    (hmem : exprs ∈ rows.rows) : KeyCellGiven schema values := by
  intro i hi hnull
  obtain ⟨ordered, e, c, hordered, he, hc, hcell⟩ := h.cell hnull
  obtain ⟨hnullable, hauto⟩ := hcell.null rfl
  have hgiven := hkeys i hi c hc hnullable hauto exprs hmem ordered
    (Outcome.mem_toOption.mpr hordered) e he
  rcases hcell.source with hcoerce | ⟨-, htrue, -⟩
  · have hexpr : e = .null := coerce_null hcoerce
    rw [hexpr] at hgiven
    cases hgiven
  · exact absurd htrue (by simpa using hauto)

theorem keyIndex_altered {t t' : Table} {change : SchemaChange} (ht : t.KeyExact)
    (hkey : change.MovesKey = false) (h : computeAlteredTable t change = .ok t') {i : Nat}
    (hi : t'.schema.keyIndex = some i) : t.schema.keyIndex = some i := by
  cases change with
  | addColumn column isPrimaryKey =>
    obtain ⟨-, -, -, hfold⟩ := addColumn_eq_ok h
    have hpk : isPrimaryKey = false := hkey
    subst hpk
    rw [(fill_eq_ok hfold).1] at hi
    obtain ⟨pk, hpk, hfind⟩ := bind_eq_some_iff.mp hi
    have hpk : t.schema.primaryKey = some pk := hpk
    obtain ⟨j, hj⟩ := isSome_iff_exists.mp (ht.defined (by rw [hpk]; rfl))
    have hcolumns : t.schema.columns.findIdx? (fun c => c.name = pk) = some j := by
      simpa only [TableSchema.keyIndex, hpk, bind_some] using hj
    simp only [List.findIdx?_append, hcolumns, some_or] at hfind
    rw [hj, hfind]
  | modifyColumn newCol =>
    obtain ⟨idx, rows', hidx, -, -, hfold⟩ := modifyColumn_eq_ok h
    rw [(fill_eq_ok hfold).1] at hi
    exact (keyIndex_congr (set_names hidx) _).symm.trans hi
  | dropPrimaryKey =>
    rw [(fill_eq_ok (dropPrimaryKey_eq_ok h)).1] at hi
    simp [TableSchema.keyIndex] at hi
  | dropColumn | addPrimaryKey => cases hkey

theorem keyExact_invariant : TableInvariant KeysGuarded Table.KeyExact KeyCellGiven where
  same _ _ := Table.KeyExact.same
  new _ _ _ _ _ _ _ _ _ _ hdefined := Table.new_keyExact hdefined
  alter := by
    intro s conn table action append visited change t t' hg hresolved ht hwf hexact haltered
    obtain ⟨hapart, hpending⟩ := hg change (Outcome.mem_toOption.mpr hresolved)
    refine ⟨computeAlteredTable_keyExact hwf hexact (hapart t ht) haltered, ?_⟩
    cases hkey : change.MovesKey with
    | true => exact .inl (hpending hkey)
    | false => exact .inr fun row hrow i hi => hrow i (keyIndex_altered hexact hkey haltered hi)
  convert := by
    intro s conn rows append visited t exprs values hg ht hmem hrowOf
    exact hrowOf.keyCellGiven (hg t ht) hmem
  push := by
    intro t t' rows hwf hexact hcells hkeys hfold
    exact hexact.pushRows hwf.keyIndex hcells hkeys hfold

/-- In every state that statements reach one after the other, the key index of every table is
exact. -/
theorem keyExact_of_run {s : Server}
    (h : Runs.Reach Server.step KeysGuarded (.start .empty) s) : s.store.All Table.KeyExact :=
  (keyExact_invariant.run h).tables

def guardedStatements : List Event :=
  [run (.createTable "t" [⟨"id", "VARCHAR(2)", true, true, false⟩]) [],
    run (.insert ⟨"t", none, [[.string "01"], [.string "2"]]⟩) [], run .begin [],
    run (.insert ⟨"t", some ["id"], [[.integer 3]]⟩) [], run .commit ["t"],
    run (.alterTable "t" (.modifyColumn ⟨"id", "INT", false, false, false⟩)) []]

theorem keyExact_guardedStatements :
    ∃ s, guardedStatements.foldlM Server.step (.start .empty) = some s ∧
      (s.store.tables.lookup "t").map Table.rows = some [[.int 1], [.int 2], [.int 3]] ∧
      s.store.All Table.KeyExact := by
  have hallowed : Runs.Allowed Server.step KeysGuarded (.start .empty) guardedStatements := by
    decide +kernel
  have hrows : (guardedStatements.foldlM Server.step (.start .empty)).map (fun s =>
      (s.store.tables.lookup "t").map Table.rows) = some (some [[.int 1], [.int 2], [.int 3]]) := by
    decide +kernel
  obtain ⟨s, hs, hrows⟩ := map_eq_some_iff.mp hrows
  exact ⟨s, hs, hrows, keyExact_of_run (hallowed.reach hs)⟩

def nullKeyStatements : List Event :=
  [run (.createTable "t" [⟨"id", "INT", true, true, false⟩]) [],
    run (.alterTable "t" (.modifyColumn ⟨"id", "INT", false, true, false⟩)) [],
    run (.insert ⟨"t", none, [[.null]]⟩) []]

def mergedKeysStatements : List Event :=
  [run (.createTable "t" [⟨"id", "VARCHAR(2)", true, true, false⟩]) [],
    run (.insert ⟨"t", none, [[.string "01"], [.string "1"]]⟩) [],
    run (.alterTable "t" (.modifyColumn ⟨"id", "INT", false, false, false⟩)) []]

def Server.keyedRows (s : Server) : Option (Option Nat × List Row) :=
  (s.store.tables.lookup "t").map fun t => (t.schema.keyIndex, t.rows)

theorem Server.not_keyExact {s : Server} {i : Nat} {rows : List Row}
    (h : s.keyedRows = some (some i, rows))
    (hrows : some .null ∈ rows.map (fun row => row[i]?) ∨ ¬ (rows.map fun row => row[i]?).Nodup) :
    ¬ s.store.All Table.KeyExact := by
  intro hall
  obtain ⟨t, ht, hpair⟩ := map_eq_some_iff.mp h
  obtain ⟨hi, rfl⟩ := Prod.mk.inj hpair
  have hexact := hall "t" t ht
  rcases hrows with hnull | hdup
  · obtain ⟨row, hrow, hcell⟩ := List.mem_map.mp hnull
    obtain ⟨key, hkey, hne⟩ := hexact.cells i hi row hrow
    rw [hcell, some.injEq] at hkey
    exact hne hkey.symm
  · exact hdup (hexact.distinct i hi)

/-- One statement after the other, a key cell is `NULL`, and two rows have the same key. -/
theorem modified_keys_not_exact :
    (∃ s, nullKeyStatements.foldlM Server.step (.start .empty) = some s ∧
      ¬ s.store.All Table.KeyExact) ∧
    ∃ s, mergedKeysStatements.foldlM Server.step (.start .empty) = some s ∧
      ¬ s.store.All Table.KeyExact := by
  constructor
  · have hrows : (nullKeyStatements.foldlM Server.step (.start .empty)).map Server.keyedRows =
        some (some (some 0, [[.null]])) := by decide +kernel
    obtain ⟨s, hs, hrows⟩ := map_eq_some_iff.mp hrows
    exact ⟨s, hs, s.not_keyExact hrows (.inl (by decide))⟩
  · have hrows : (mergedKeysStatements.foldlM Server.step (.start .empty)).map Server.keyedRows =
        some (some (some 0, [[.int 1], [.int 1]])) := by decide +kernel
    obtain ⟨s, hs, hrows⟩ := map_eq_some_iff.mp hrows
    exact ⟨s, hs, s.not_keyExact hrows (.inr (by decide))⟩

end MysqlRust
