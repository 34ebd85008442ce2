import MysqlRust.Storage.Backend
import MysqlRust.Storage.CreateRace

/-! # Pending rows

What a transaction's buffer holds after rows are pushed, and the batch its `COMMIT` hands to
the engine. Rows of one statement are buffered one by one, up to the first that is refused.
-/
namespace MysqlRust

open Outcome List

namespace Transaction

def pushAll (tx : Transaction) (rows : List (String × Row)) : Transaction :=
  rows.foldl (fun tx p => tx.push p.1 p.2) tx

def commitRows (tx : Transaction) (tables : List String) : List (String × Row) :=
  (tx.batch tables).flatMap fun p => p.2.map fun row => (p.1, row)

theorem commit_batch (tx : Transaction) (tables : List String) :
    commit (tx.batch tables) = .insertRows (tx.commitRows tables) := rfl

@[simp] theorem rows_new (table : String) : new.rows table = [] := rfl

theorem rows_push (tx : Transaction) (table other : String) (row : Row) :
    (tx.push table row).rows other =
      if other = table then tx.rows other ++ [row] else tx.rows other := by
  split
  · rename_i heq
    subst heq
    simp [push, rows]
  · rename_i hne
    simp [push, rows, Finmap.lookup_insert_of_ne _ hne]

theorem rows_pushAll (tx : Transaction) (rows : List (String × Row)) (table : String) :
    (tx.pushAll rows).rows table = tx.rows table ++ rowsFor table rows := by
  induction rows generalizing tx with
  | nil => simp [pushAll, rowsFor]
  | cons p rows ih =>
    have htail : tx.pushAll (p :: rows) = (tx.push p.1 p.2).pushAll rows := rfl
    rw [htail, ih, rows_push]
    by_cases heq : table = p.1
    · subst heq
      simp [rowsFor]
    · simp [rowsFor, heq, Ne.symm heq]

section
variable {tx : Transaction} {tables : List String}

theorem mem_of_order (h : tx.Order tables) {table : String} (hrows : tx.rows table ≠ []) :
    table ∈ tables := by
  have hmem : table ∈ tx.pending.keys := by
    rw [Finmap.mem_keys]
    by_contra hnot
    exact hrows (by rw [rows, Finmap.lookup_eq_none.mpr hnot]; rfl)
  rwa [← h.2, mem_toFinset] at hmem

/-- A `COMMIT` hands over the pending rows of each table in their order. -/
theorem rowsFor_commitRows (h : tx.Order tables) (table : String) :
    rowsFor table (tx.commitRows tables) = tx.rows table := by
  have hpart : ∀ ts : List String, ts.Nodup →
      rowsFor table (tx.commitRows ts) = if table ∈ ts then tx.rows table else [] := by
    intro ts
    induction ts with
    | nil => exact fun _ => rfl
    | cons name ts ih =>
      intro hnodup
      obtain ⟨hname, hnodup⟩ := nodup_cons.mp hnodup
      have hcons : tx.commitRows (name :: ts) =
          (tx.rows name).map (fun row => (name, row)) ++ tx.commitRows ts := rfl
      rw [hcons, rowsFor_append, rowsFor_pairs, ih hnodup]
      by_cases heq : table = name
      · subst heq
        simp [hname]
      · simp [heq]
  rw [hpart tables h.1]
  split
  · rfl
  · rename_i hnot
    by_contra hne
    exact hnot (mem_of_order h (Ne.symm hne))

variable {store : Store} {schema : TableSchema} {table : String} {i : Nat} {row : Row} {key : Value}
variable {rows : List Row}

theorem findKey_eq_none :
    findKey i key rows = .ok none ↔ ∀ row ∈ rows, ∃ cell, row[i]? = some cell ∧ cell ≠ key := by
  induction rows with
  | nil => simp [findKey]
  | cons row rows ih =>
    rw [forall_mem_cons, ← ih, findKey]
    cases hcell : row[i]? with
    | none => simp [index, hcell]
    | some cell =>
      have hindex : (index row i : Result Value) = .ok cell := index_eq_ok.mpr hcell
      rw [hindex, ok_bind]
      by_cases heq : cell = key
      · simp [heq]
      · simp [heq]

theorem findKey_eq_find (key : Value) (hfits : ∀ row ∈ rows, i < row.length) :
    findKey i key rows = .ok (rows.find? fun row => row[i]? = some key) := by
  induction rows with
  | nil => rfl
  | cons row rows ih =>
    have hlt := hfits row mem_cons_self
    rw [findKey, index_of_lt hlt, ok_bind, find?_cons]
    by_cases heq : row[i] = key
    · simp [heq, getElem?_eq_getElem hlt]
    · simp [heq, getElem?_eq_getElem hlt, ih fun r hr => hfits r (mem_cons_of_mem row hr)]

theorem findKey_of_fits (key : Value) (hfits : ∀ row ∈ rows, i < row.length) :
    ∃ found, findKey i key rows = .ok found ∧ (found.isSome ↔ ∃ row ∈ rows, row[i]? = some key) :=
  ⟨_, findKey_eq_find key hfits, by simp⟩

theorem findKey_of_absent (h : ∀ row ∈ rows, row[i]? ≠ some key) :
    findKey i key rows = .ok none ∨ findKey i key rows = .panic := by
  induction rows with
  | nil => exact .inl rfl
  | cons row rows ih =>
    obtain ⟨hrow, hrows⟩ := forall_mem_cons.mp h
    rw [findKey]
    cases hcell : row[i]? with
    | none => simp [index, hcell]
    | some cell =>
      have hindex : (index row i : Result Value) = .ok cell := index_eq_ok.mpr hcell
      have hne : cell ≠ key := fun heq => hrow (heq ▸ hcell)
      rw [hindex, ok_bind, if_neg hne]
      exact ih hrows

theorem buffer_keyed (hi : schema.keyIndex = some i) (hkey : row[i]? = some key) :
    buffer store tx schema table row = (store.lookupByPrimaryKey table key >>= fun committed =>
      findKey i key (tx.rows table) >>= fun alreadyPending =>
        if committed.isSome ∨ alreadyPending.isSome then .err (Table.duplicateEntry key)
        else pure (tx.push table row)) := by
  have hindex : (index row i : Result Value) = .ok key := index_eq_ok.mpr hkey
  simp only [buffer, hi, hindex, ok_bind]

variable (v : View)

theorem buffer_eq_ok {store : Store} {tx tx' : Transaction} {schema : TableSchema}
    (h : buffer store tx schema table row = .ok tx') : tx' = tx.push table row := by
  unfold buffer at h
  split at h
  · obtain ⟨key, -, h⟩ := bind_eq_ok.mp h
    obtain ⟨committed, -, h⟩ := bind_eq_ok.mp h
    obtain ⟨alreadyPending, -, h⟩ := bind_eq_ok.mp h
    split_ifs at h
    exact (ok.inj h).symm
  · exact (ok.inj h).symm

theorem insertRow_eq_ok {v v' : View} (h : View.insertRow table row v = (.ok (), v')) :
    ∃ t, v.store.tables.lookup table = some t ∧ row.length = t.schema.columns.length ∧
      buffer v.store v.tx t.schema table row = .ok v'.tx ∧ v'.store = v.store := by
  unfold View.insertRow at h
  cases hbuffer : schemaFor v.store table row >>= fun schema =>
      buffer v.store v.tx schema table row with
  | ok tx =>
    rw [hbuffer] at h
    cases h
    obtain ⟨schema, hschema, hbuffer⟩ := bind_eq_ok.mp hbuffer
    obtain ⟨found, hfound, hwidth⟩ := bind_eq_ok.mp hschema
    split_ifs at hwidth with hlen
    cases hwidth
    obtain ⟨t, ht, rfl⟩ := map_eq_ok.mp hfound
    exact ⟨t, okOr_eq_ok.mp ht, not_not.mp hlen, hbuffer, rfl⟩
  | err e =>
    rw [hbuffer] at h
    cases h
  | panic =>
    rw [hbuffer] at h
    cases h

/-- A row is buffered, or it is refused and nothing changes. -/
theorem insertRow_cases (table : String) (row : Row) :
    View.insertRow table row v = (.ok (), { v with tx := v.tx.push table row }) ∨
      ∃ r, r ≠ .ok () ∧ View.insertRow table row v = (r, v) := by
  simp only [View.insertRow]
  cases h : schemaFor v.store table row >>= fun schema => buffer v.store v.tx schema table row with
  | ok tx =>
    obtain ⟨schema, -, hbuffer⟩ := bind_eq_ok.mp h
    rw [buffer_eq_ok hbuffer]
    exact .inl rfl
  | err e => exact .inr ⟨.err e, by simp, rfl⟩
  | panic => exact .inr ⟨.panic, by simp, rfl⟩

/-- Rows are buffered up to the first one that is refused. -/
theorem insertEach_cases (rows : List (String × Row)) :
    Storage.insertEach View.insertRow rows v = (.ok (), { v with tx := v.tx.pushAll rows }) ∨
      ∃ r p done rest, rows = done ++ p :: rest ∧ r ≠ .ok () ∧
        (∀ before q after, done = before ++ q :: after →
          (View.insertRow q.1 q.2 { v with tx := v.tx.pushAll before }).1 = .ok ()) ∧
        View.insertRow p.1 p.2 { v with tx := v.tx.pushAll done } =
          (r, { v with tx := v.tx.pushAll done }) ∧
        Storage.insertEach View.insertRow rows v = (r, { v with tx := v.tx.pushAll done }) := by
  induction rows generalizing v with
  | nil => exact .inl rfl
  | cons p rows ih =>
    rcases insertRow_cases v p.1 p.2 with hp | ⟨r, hr, hp⟩
    · have hcons : Storage.insertEach View.insertRow (p :: rows) v =
          Storage.insertEach View.insertRow rows { v with tx := v.tx.push p.1 p.2 } :=
        Proc.bind_ok hp
      rw [hcons]
      rcases ih { v with tx := v.tx.push p.1 p.2 } with h | ⟨r, q, done, rest, hrows, hr, hdone, hq, h⟩
      · exact .inl h
      · refine .inr ⟨r, q, p :: done, rest, by rw [hrows]; rfl, hr, fun before p' after heq => ?_, hq, h⟩
        rcases cons_eq_append_iff.mp heq with ⟨rfl, hcons⟩ | ⟨before', rfl, htail⟩
        · cases hcons
          exact congrArg Prod.fst hp
        · exact hdone before' p' after htail
    · refine .inr ⟨r, p, [], rows, rfl, hr, fun before q after heq => ?_, hp,
        Proc.bind_fail hp fun _ => hr⟩
      simp at heq

end

section Accepted
variable {v : View} {table : String} {schema : TableSchema} {i : Nat} {row : Row} {key : Value}

/-- No committed row has the key, and no pending one; every pending row has a cell there. -/
def View.KeyFree (v : View) (table : String) (i : Nat) (key : Value) : Prop :=
  v.store.lookupByPrimaryKey table key = .ok none ∧
    ∀ row ∈ v.tx.rows table, ∃ cell, row[i]? = some cell ∧ cell ≠ key

theorem insertRow_fst (hschema : v.store.tableSchema table = .ok schema)
    (hlen : row.length = schema.columns.length) :
    (View.insertRow table row v).1 = (fun _ => ()) <$> buffer v.store v.tx schema table row := by
  have hfor : schemaFor v.store table row = .ok schema := by simp [schemaFor, hschema, hlen]
  simp only [View.insertRow, hfor, ok_bind]
  cases buffer v.store v.tx schema table row with
  | ok tx => rfl
  | err e => rfl
  | panic => rfl

variable (hschema : v.store.tableSchema table = .ok schema)
  (hlen : row.length = schema.columns.length) (hi : schema.keyIndex = some i)
  (hkey : row[i]? = some key)

include hschema hlen hi hkey in
theorem insertRow_ok_iff : (View.insertRow table row v).1 = .ok () ↔ v.KeyFree table i key := by
  rw [insertRow_fst hschema hlen, buffer_keyed hi hkey, View.KeyFree, ← findKey_eq_none]
  cases v.store.lookupByPrimaryKey table key with
  | ok committed =>
    cases findKey i key (v.tx.rows table) with
    | ok alreadyPending => cases committed <;> cases alreadyPending <;> simp
    | err e => simp
    | panic => simp
  | err e => simp
  | panic => simp

theorem insertRow_unkeyed (hschema : v.store.tableSchema table = .ok schema)
    (hlen : row.length = schema.columns.length) (hi : schema.keyIndex = none) :
    (View.insertRow table row v).1 = .ok () := by
  rw [insertRow_fst hschema hlen]
  simp [buffer, hi]

end Accepted

end Transaction

end MysqlRust
