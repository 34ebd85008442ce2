import MysqlRust.Storage.BatchInsert

/-! # What a transaction sees

A transaction shows its pending rows behind the committed ones. Scans, filters, lookups and
the check of a new row implement this apart from each other, over the committed rows or their
index and over the list of pending rows.
-/
namespace MysqlRust

open Outcome List

section
variable {t : Table} {rows : List Row} {i : Nat} {key : Value}

def Finds (i : Nat) (key : Value) (rows : List Row) : Option Row → Prop
  | some row => row ∈ rows ∧ row[i]? = some key
  | none => ∀ row ∈ rows, row[i]? ≠ some key

theorem Finds.find (i : Nat) (key : Value) (rows : List Row) :
    Finds i key rows (rows.find? fun row => row[i]? = some key) := by
  cases hfind : rows.find? fun row => row[i]? = some key with
  | some row => exact ⟨mem_of_find?_eq_some hfind, by simpa using find?_some hfind⟩
  | none => exact fun row hrow => by simpa using find?_eq_none.mp hfind row hrow

theorem Finds.append {later : List Row} {found found' : Option Row} (h : Finds i key rows found)
    (h' : Finds i key later found') : Finds i key (rows ++ later) (found.or found') := by
  cases found with
  | some row => exact ⟨mem_append_left later h.1, h.2⟩
  | none =>
    cases found' with
    | some row => exact ⟨mem_append_right rows h'.1, h'.2⟩
    | none => exact forall_mem_append.mpr ⟨h, h'⟩

theorem Finds.filter_eq {found : Option Row} (h : Finds i key rows found)
    (hnodup : (rows.map fun row => row[i]?).Nodup) :
    rows.filter (fun row => row[i]? = some key) = found.toList := by
  rw [Lists.filter_of_nodup hnodup]
  cases found with
  | none => rw [find?_eq_none.mpr fun row hrow => by simpa using h row hrow]
  | some row => rw [← h.2, Lists.find?_of_nodup hnodup h.1]

/-- Every search returns the one row with the key exactly when no two rows share a key. -/
theorem filter_eq_found_iff {found : Value → Option Row} (hcells : ∀ row ∈ rows, i < row.length)
    (hfound : ∀ key, Finds i key rows (found key)) :
    (∀ key, rows.filter (fun row => row[i]? = some key) = (found key).toList) ↔
      (rows.map fun row => row[i]?).Nodup := by
  constructor
  · intro h
    rw [nodup_iff_count_le_one]
    intro cell
    cases cell with
    | none =>
      have habsent : none ∉ rows.map fun row => row[i]? := by
        intro hmem
        obtain ⟨row, hrow, hnone⟩ := mem_map.mp hmem
        exact absurd hnone (by simp [hcells row hrow])
      rw [count_eq_zero.mpr habsent]
      exact Nat.zero_le 1
    | some key =>
      have hcount : List.count (some key) (rows.map fun row => row[i]?) =
          (rows.filter fun row => row[i]? = some key).length := by
        rw [count_eq_countP, countP_map, countP_eq_length_filter]
        exact congrArg List.length (filter_congr fun row _ => Bool.eq_iff_iff.mpr (by simp))
      rw [hcount, h key]
      cases found key <;> simp
  · exact fun h key => (hfound key).filter_eq h

variable {s : Store} {table : String}

theorem Table.Built.ranged (h : t.Built) : t.Ranged := by
  obtain ⟨u, hu, hsame⟩ := h
  exact (ranged_grown.derived hu).same hsame

theorem Table.Built.lookup (h : t.Built) (ht : s.tables.lookup table = some t)
    (hi : t.schema.keyIndex = some i) (key : Value) :
    ∃ found, s.lookupByPrimaryKey table key = .ok found ∧ Finds i key t.rows found := by
  have hmem := h.mem_index_iff hi key
  rw [← h.placed.keyIndex] at hi
  simp only [Store.lookupByPrimaryKey, ht, okOr, ok_bind]
  cases hpos : t.index.lookup key with
  | none =>
    refine ⟨none, rfl, fun row hrow hcell => ?_⟩
    exact Finmap.lookup_eq_none.mp hpos (hmem.mpr ⟨row, hrow, hcell⟩)
  | some pos =>
    obtain ⟨row, hrow, hcell⟩ := h.faithful.pointed i hi key pos hpos
    have hindex : (Outcome.index t.rows pos : Result Row) = .ok row := index_eq_ok.mpr hrow
    exact ⟨some row, by simp [hindex], mem_of_getElem? hrow, hcell⟩

end

namespace Transaction.View
variable {v v' : View} {store : Store} {table : String} {t : Table} {row : Row}
  {done : List (String × Row)}

/-- What other connections may do to the engine below a transaction that holds the locks of
the tables it has rows for: no schema changes, and rows come into other tables only. -/
structure OthersCommit (v : View) (store : Store) : Prop where
  built : store.Built
  kept : ∀ table t, v.store.tables.lookup table = some t → ∃ t', store.tables.lookup table = some t' ∧
    t'.schema = t.schema ∧ (v.tx.rows table ≠ [] → t.Same t')

inductive Begun : List (String × Row) → View → Prop
  | begin {store : Store} (h : store.Built) : Begun [] ⟨store, new⟩
  | insert {done : List (String × Row)} {v v' : View} {table : String} {row : Row}
      (hbegun : Begun done v) (h : View.insertRow table row v = (.ok (), v')) :
      Begun (done ++ [(table, row)]) v'
  | others {done : List (String × Row)} {v : View} {store : Store} (hbegun : Begun done v)
      (h : v.OthersCommit store) : Begun done { v with store }

structure Overlaid (done : List (String × Row)) (v : View) : Prop where
  built : v.store.Built
  pending : ∀ table, v.tx.rows table = rowsFor table done
  admits : ∀ table, v.tx.rows table ≠ [] →
    ∃ t, v.store.tables.lookup table = some t ∧ t.AdmitsRows (v.tx.rows table)

theorem Overlaid.admitsRows (h : Overlaid done v) (ht : v.store.tables.lookup table = some t) :
    t.AdmitsRows (v.tx.rows table) := Admitted.rows h.admits ht

theorem Overlaid.begin (h : store.Built) : Overlaid [] ⟨store, new⟩ where
  built := h
  pending _ := rfl
  admits _ hrows := absurd rfl hrows

theorem Overlaid.others (h : Overlaid done v) (hothers : v.OthersCommit store) :
    Overlaid done { v with store } where
  built := hothers.built
  pending := h.pending
  admits table hrows := by
    obtain ⟨t, ht, hadmits⟩ := h.admits table hrows
    obtain ⟨t', ht', -, hsame⟩ := hothers.kept table t ht
    exact ⟨t', ht', hadmits.same (hsame hrows)⟩

theorem Overlaid.insert (h : Overlaid done v) (hinsert : View.insertRow table row v = (.ok (), v')) :
    Overlaid (done ++ [(table, row)]) v' := by
  have hranged : v.store.All Table.Ranged := fun name t ht => (h.built name t ht).ranged
  obtain ⟨rfl, hadmitted⟩ := Admitted.insertRow h.admits hranged hinsert
  refine ⟨h.built, fun other => ?_, hadmitted⟩
  rw [rows_push, rowsFor_append, h.pending]
  by_cases heq : other = table
  · subst heq
    simp [rowsFor]
  · simp [rowsFor, heq, Ne.symm heq]

theorem Begun.overlaid (h : Begun done v) : Overlaid done v := by
  induction h with
  | begin h => exact .begin h
  | insert _ h ih => exact ih.insert h
  | others _ h ih => exact ih.others h

/-- What a transaction shows of a table whose rows are `rows`, and what it accepts. -/
structure Coherent (v : View) (table : String) (t : Table) (rows : List Row) : Prop where
  scan : v.scan table = .ok rows
  scanFiltered : ∀ p : Row → Bool,
    v.scanFiltered table (fun row => .ok (p row)) = .ok (rows.filter p)
  lookup : ∀ i, t.schema.keyIndex = some i → ∀ key, ∃ found,
    v.lookupByPrimaryKey table key = .ok found ∧
      rows.filter (fun row => row[i]? = some key) = found.toList
  unkeyed : t.schema.keyIndex = none → ∀ key, v.lookupByPrimaryKey table key = .ok none
  accepts : ∀ row, (View.insertRow table row v).1 = .ok () ↔ row.length = t.schema.columns.length ∧
      ∀ i, t.schema.keyIndex = some i → ∀ old ∈ rows, old[i]? ≠ row[i]?

theorem scan_eq (ht : v.store.tables.lookup table = some t) :
    v.scan table = .ok (t.rows ++ v.tx.rows table) := by
  simp [View.scan, Store.scan, ht, okOr]

theorem scanFiltered_eq (ht : v.store.tables.lookup table = some t) (p : Row → Bool) :
    v.scanFiltered table (fun row => .ok (p row)) = .ok ((t.rows ++ v.tx.rows table).filter p) := by
  have hfilter : ∀ rows : List Row, filterRows (fun row => .ok (p row)) rows = .ok (rows.filter p) :=
    fun rows => filterRows_eq_filter fun _ _ => rfl
  simp [View.scanFiltered, Store.scanFiltered, ht, okOr, hfilter]

variable {i : Nat}

theorem Overlaid.lookup (h : Overlaid done v) (ht : v.store.tables.lookup table = some t)
    (hi : t.schema.keyIndex = some i) (key : Value) :
    ∃ found, v.lookupByPrimaryKey table key = .ok found ∧
      Finds i key (t.rows ++ v.tx.rows table) found := by
  obtain ⟨committed, hcommitted, hfinds⟩ := (h.built table t ht).lookup ht hi key
  have hfits : ∀ row ∈ v.tx.rows table, i < row.length := fun row hrow =>
    (h.admitsRows ht).width row hrow ▸ Table.keyIndex_lt hi
  have hpending := findKey_eq_find key hfits
  have hschema : v.store.tableSchema table = .ok t.schema := by simp [Store.tableSchema, ht, okOr]
  refine ⟨committed.or ((v.tx.rows table).find? fun row => row[i]? = some key), ?_,
    hfinds.append (Finds.find i key _)⟩
  simp only [View.lookupByPrimaryKey, hcommitted, ok_bind]
  cases committed with
  | some row => rfl
  | none =>
    simp only [hschema, ok_bind, lookupPending, hi]
    exact hpending

theorem Overlaid.lookup_unkeyed (h : Overlaid done v) (ht : v.store.tables.lookup table = some t)
    (hi : t.schema.keyIndex = none) (key : Value) : v.lookupByPrimaryKey table key = .ok none := by
  have hbuilt := h.built table t ht
  have hindex := hbuilt.faithful.unkeyed (hbuilt.placed.keyIndex.trans hi)
  have hschema : v.store.tableSchema table = .ok t.schema := by simp [Store.tableSchema, ht, okOr]
  have hstore : v.store.lookupByPrimaryKey table key = .ok none := by
    simp [Store.lookupByPrimaryKey, ht, okOr, hindex]
  simp [View.lookupByPrimaryKey, hstore, hschema, lookupPending, hi]

/-- A transaction accepts a row that fits and whose key is neither committed nor pending. -/
theorem Overlaid.accepts (h : Overlaid done v) (ht : v.store.tables.lookup table = some t)
    (row : Row) : (View.insertRow table row v).1 = .ok () ↔
      row.length = t.schema.columns.length ∧ ∀ i, t.schema.keyIndex = some i →
        ∀ old ∈ t.rows ++ v.tx.rows table, old[i]? ≠ row[i]? := by
  have hschema : v.store.tableSchema table = .ok t.schema := by simp [Store.tableSchema, ht, okOr]
  by_cases hlen : row.length = t.schema.columns.length
  · cases hi : t.schema.keyIndex with
    | none =>
      simp [insertRow_unkeyed hschema hlen hi, hlen]
    | some i =>
      have hlt : i < row.length := hlen ▸ Table.keyIndex_lt hi
      have hcell : row[i]? = some row[i] := getElem?_eq_getElem hlt
      obtain ⟨found, hfound, hfinds⟩ := (h.built table t ht).lookup ht hi row[i]
      rw [insertRow_ok_iff hschema hlen hi hcell, KeyFree, hfound]
      constructor
      · rintro ⟨hnone, hpending⟩
        cases hnone
        refine ⟨hlen, fun j hj old hold heq => ?_⟩
        cases hj
        rw [hcell] at heq
        rcases mem_append.mp hold with hold | hold
        · exact hfinds old hold heq
        · obtain ⟨cell, hcell', hne⟩ := hpending old hold
          exact hne (Option.some.inj (hcell'.symm.trans heq))
      · rintro ⟨-, hfree⟩
        have hfree := hfree i rfl
        rw [hcell] at hfree
        constructor
        · cases found with
          | none => rfl
          | some old => exact absurd hfinds.2 (hfree old (mem_append_left _ hfinds.1))
        · intro old hold
          have hlt' : i < old.length := (h.admitsRows ht).width old hold ▸ Table.keyIndex_lt hi
          refine ⟨old[i], getElem?_eq_getElem hlt', fun heq => ?_⟩
          refine hfree old (mem_append_right _ hold) ?_
          rw [getElem?_eq_getElem hlt', heq]
  · refine iff_of_false (fun hok => hlen ?_) fun hwidth => hlen hwidth.1
    obtain ⟨u, hu, hlen, -⟩ := insertRow_eq_ok (Prod.ext hok rfl)
    cases ht.symm.trans hu
    exact hlen

/-- The keys of the scan are distinct when those of the committed rows are. -/
theorem Overlaid.nodup_iff (h : Overlaid done v) (ht : v.store.tables.lookup table = some t)
    (hi : t.schema.keyIndex = some i) :
    ((t.rows ++ v.tx.rows table).map fun row => row[i]?).Nodup ↔
      (t.rows.map fun row => row[i]?).Nodup := by
  obtain ⟨hnodup, hfresh⟩ := (h.admitsRows ht).keys i hi
  have hbuilt := h.built table t ht
  rw [map_append, nodup_append]
  constructor
  · exact And.left
  · intro hcommitted
    refine ⟨hcommitted, hnodup, ?_⟩
    rintro cell hcell _ hcell' rfl
    obtain ⟨old, hold, rfl⟩ := mem_map.mp hcell
    obtain ⟨row, hrow, heq⟩ := mem_map.mp hcell'
    have hlt : i < row.length := (h.admitsRows ht).width row hrow ▸ Table.keyIndex_lt hi
    rw [getElem?_eq_getElem hlt] at heq
    refine hfresh row hrow row[i] (getElem?_eq_getElem hlt) ?_
    exact (hbuilt.mem_index_iff hi row[i]).mpr ⟨old, hold, heq.symm⟩

theorem Overlaid.key_lt (h : Overlaid done v) (ht : v.store.tables.lookup table = some t)
    (hi : t.schema.keyIndex = some i) : ∀ row ∈ t.rows ++ v.tx.rows table, i < row.length := by
  intro row hrow
  have hbuilt := h.built table t ht
  rcases mem_append.mp hrow with hrow | hrow
  · obtain ⟨key, hkey, -⟩ := hbuilt.faithful.cells i (hbuilt.placed.keyIndex.trans hi) row hrow
    exact (List.getElem?_eq_some_iff.mp hkey).1
  · exact (h.admitsRows ht).width row hrow ▸ Table.keyIndex_lt hi

/-- Lookups return the one row of the scan with the key when the committed keys are distinct. -/
theorem Overlaid.lookup_unique_iff (h : Overlaid done v) (ht : v.store.tables.lookup table = some t)
    (hi : t.schema.keyIndex = some i) :
    (∀ key, ∃ found, v.lookupByPrimaryKey table key = .ok found ∧
      (t.rows ++ v.tx.rows table).filter (fun row => row[i]? = some key) = found.toList) ↔
    (t.rows.map fun row => row[i]?).Nodup := by
  choose found hfound hfinds using h.lookup ht hi
  rw [← h.nodup_iff ht hi, ← filter_eq_found_iff (h.key_lt ht hi) hfinds]
  refine forall_congr' fun key => ?_
  rw [hfound key]
  simp

/-- At every point of a transaction its scans, filters, lookups and checks agree on the
committed rows followed by its own, exactly when no two committed rows share a key; it
accepts no row for a table that does not exist. -/
theorem coherent_iff (h : Begun done v) (table : String) :
    (∀ t, v.store.tables.lookup table = some t →
      (Coherent v table t (t.rows ++ rowsFor table done) ↔
        ∀ i, t.schema.keyIndex = some i → (t.rows.map fun row => row[i]?).Nodup)) ∧
    (v.store.tables.lookup table = none → ∀ row, (View.insertRow table row v).1 ≠ .ok ()) := by
  have hover := h.overlaid
  constructor
  · intro t ht
    rw [← hover.pending]
    constructor
    · intro hcoherent i hi
      exact (hover.lookup_unique_iff ht hi).mp (hcoherent.lookup i hi)
    · intro hdistinct
      exact ⟨scan_eq ht, scanFiltered_eq ht,
        fun i hi => (hover.lookup_unique_iff ht hi).mpr (hdistinct i hi),
        hover.lookup_unkeyed ht, hover.accepts ht⟩
  · intro hnone row hok
    obtain ⟨t, ht, -⟩ := insertRow_eq_ok (Prod.ext hok rfl)
    cases hnone.symm.trans ht

def heldTable : Table where
  schema := ⟨[⟨"id", .int, false, false⟩], some "id"⟩
  primaryKeyIndex := some 0
  rows := [[.int 2]]
  index := Finmap.singleton (.int 2) 0
  autoIncrement := none

def heldStore : Store := Store.empty.setTable "t" heldTable

theorem heldStore_built : heldStore.Built := by
  have hstore : [Call.createTable "t" [⟨"id", .int, false, false⟩] (some "id"),
      .insertRows [("t", [.int 2])]].foldlM apply Store.empty = .ok heldStore := by decide
  exact foldlM_invariant (fun _ _ _ hs happly => apply_all Table.built_grown hs happly)
    all_empty hstore

/-- A committed row and a pending one with another key. -/
theorem coherent_after_insert :
    ∃ v, Begun [("t", [.int 1])] v ∧ v.store.tables.lookup "t" = some heldTable ∧
      Coherent v "t" heldTable [[.int 2], [.int 1]] := by
  have hinsert : View.insertRow "t" [.int 1] ⟨heldStore, new⟩ =
      (.ok (), ⟨heldStore, new.push "t" [.int 1]⟩) := by
    rcases insertRow_cases ⟨heldStore, new⟩ "t" [.int 1] with h | ⟨r, hr, h⟩
    · exact h
    · have hok : (View.insertRow "t" [.int 1] ⟨heldStore, new⟩).1 = .ok () := by decide
      rw [h] at hok
      exact absurd hok hr
  have hbegun := Begun.insert (.begin heldStore_built) hinsert
  have ht := lookup_setTable Store.empty "t" heldTable
  refine ⟨_, hbegun, ht, ((coherent_iff hbegun "t").1 _ ht).mpr ?_⟩
  intro i hi
  cases hi
  decide

def mergeKeys : List Call :=
  [.createTable "t" [⟨"id", .varchar, false, false⟩] (some "id"),
    .insertRows [("t", [.varchar "01"]), ("t", [.varchar "1"])],
    .alterTable "t" (.modifyColumn ⟨"id", .int, false, false⟩)]

def mergedTable : Table where
  schema := ⟨[⟨"id", .int, false, false⟩], some "id"⟩
  primaryKeyIndex := some 0
  rows := [[.int 1], [.int 1]]
  index := Finmap.singleton (.int 1) 1
  autoIncrement := none

/-- The scan shows two rows with the key, the lookup one. -/
theorem mergedKeys_not_coherent :
    ∃ store, mergeKeys.foldlM apply Store.empty = .ok store ∧ Begun [] ⟨store, new⟩ ∧
      store.tables.lookup "t" = some mergedTable ∧
      View.scan ⟨store, new⟩ "t" = .ok [[.int 1], [.int 1]] ∧
      View.lookupByPrimaryKey ⟨store, new⟩ "t" (.int 1) = .ok (some [.int 1]) ∧
      ¬ Coherent ⟨store, new⟩ "t" mergedTable [[.int 1], [.int 1]] := by
  have hrun : (fun store : Store => store.tables.lookup "t") <$>
      mergeKeys.foldlM apply Store.empty = .ok (some mergedTable) := by decide +kernel
  obtain ⟨store, hstore, ht⟩ := map_eq_ok.mp hrun
  have hbuilt : store.Built := foldlM_invariant
    (fun _ _ _ hs happly => apply_all Table.built_grown hs happly) all_empty hstore
  have hbegun : Begun [] ⟨store, new⟩ := .begin hbuilt
  have hscan : View.scan ⟨store, new⟩ "t" = .ok [[.int 1], [.int 1]] := by
    rw [scan_eq ht]
    rfl
  have hlookup : View.lookupByPrimaryKey ⟨store, new⟩ "t" (.int 1) = .ok (some [.int 1]) := by
    simp [View.lookupByPrimaryKey, Store.lookupByPrimaryKey, ht, okOr, mergedTable, Outcome.index]
  refine ⟨store, hstore, hbegun, ht, hscan, hlookup, fun hcoherent => ?_⟩
  obtain ⟨found, hfound, hunique⟩ := hcoherent.lookup 0 rfl (.int 1)
  cases hlookup.symm.trans hfound
  exact absurd hunique (by decide)

end Transaction.View

end MysqlRust
