import MysqlRust.Query.Executor

/-! # Inserts that fail

All rows of an `INSERT` are converted before the first of them is stored. The engine then
checks the whole batch before it stores any of it. A transaction buffers row by row, and keeps
the rows buffered before one that is refused.
-/
namespace MysqlRust

open List Outcome

section Reads
variable {s s' : Store}

theorem Store.Same.read {α : Type} (h : s.Same s') {f : Table → Result α}
    (hf : ∀ t u, t.Same u → f t = f u) (e : Error) (table : String) :
    (okOr e (s.tables.lookup table) >>= f) = (okOr e (s'.tables.lookup table) >>= f) := by
  cases ht : s.tables.lookup table with
  | none =>
    cases hu : s'.tables.lookup table with
    | none => rfl
    | some u =>
      obtain ⟨t, ht', -⟩ := h.of_lookup hu
      rw [ht] at ht'
      cases ht'
  | some t =>
    obtain ⟨u, hu, hsame⟩ := h.lookup ht
    rw [hu]
    exact hf t u hsame

theorem Store.Same.tableSchema (h : s.Same s') (table : String) :
    s.tableSchema table = s'.tableSchema table :=
  h.read (fun _ _ hsame => congrArg ok hsame.schema) _ table

theorem Store.Same.scan (h : s.Same s') (table : String) : s.scan table = s'.scan table :=
  h.read (fun _ _ hsame => congrArg ok hsame.rows) _ table

theorem Store.Same.lookupByPrimaryKey (h : s.Same s') (table : String) (key : Value) :
    s.lookupByPrimaryKey table key = s'.lookupByPrimaryKey table key := by
  refine h.read (fun t u hsame => ?_) _ table
  rw [hsame.index, hsame.rows]

end Reads

namespace Transaction

def View.after (v : View) (table : String) (rows : List Row) : View :=
  { v with tx := v.tx.pushAll (rows.map fun row => (table, row)) }

structure View.Unchanged (v w : View) : Prop where
  scan : ∀ table, v.scan table = w.scan table
  lookupByPrimaryKey : ∀ table key, v.lookupByPrimaryKey table key = w.lookupByPrimaryKey table key
  commit : ∀ tables, v.tx.commitRows tables = w.tx.commitRows tables

def View.KeyTaken (v : View) (table : String) (i : Nat) (key : Value) : Prop :=
  ∃ committed, v.store.lookupByPrimaryKey table key = .ok committed ∧
    (committed.isSome ∨ ∃ row ∈ v.tx.rows table, row[i]? = some key)

/-- The rows of the statement convert; some of them, but not all, find their key free when
their turn comes, and the next one finds it taken. -/
def View.Splits (v : View) (insert : Insert) : Prop :=
  ∃ schema i done row rest store,
    v.store.tableSchema insert.table = .ok schema ∧ schema.keyIndex = some i ∧
    convertRows (inMemoryStorage none) insert v.store = (.ok (done ++ row :: rest), store) ∧
    done ≠ [] ∧
    (∀ before r after, done = before ++ r :: after → ∀ key ∈ r[i]?,
      (v.after insert.table before).KeyFree insert.table i key) ∧
    ∀ key ∈ row[i]?, (v.after insert.table done).KeyTaken insert.table i key

section
variable {v w : View}

theorem View.Unchanged.of_same (hstore : v.store.Same w.store) (htx : v.tx = w.tx) :
    v.Unchanged w where
  scan table := by rw [View.scan, View.scan, hstore.scan, htx]
  lookupByPrimaryKey table key := by
    simp only [View.lookupByPrimaryKey, hstore.lookupByPrimaryKey, hstore.tableSchema, htx]
  commit tables := by rw [htx]

theorem View.not_unchanged_after {table : String} {rows : List Row} {store : Store}
    (hrows : rows ≠ []) : ¬ v.Unchanged { v.after table rows with store } := by
  intro h
  have hcommit := congrArg (rowsFor table) (h.commit [table])
  simp [commitRows, batch, View.after, rows_pushAll, rowsFor_pairs, hrows] at hcommit

variable {table : String} {schema : TableSchema} {i : Nat} {row : Row} {key : Value}

variable (hschema : v.store.tableSchema table = .ok schema)
  (hlen : row.length = schema.columns.length) (hi : schema.keyIndex = some i)
  (hkey : row[i]? = some key)

include hschema hlen hi hkey in
theorem insertRow_err_iff (hfits : ∀ r ∈ v.tx.rows table, i < r.length) :
    (∃ e, (View.insertRow table row v).1 = .err e) ↔ v.KeyTaken table i key := by
  obtain ⟨t, ht, -⟩ := map_eq_ok.mp hschema
  obtain ⟨found, hfound, hiff⟩ := findKey_of_fits key hfits
  rw [insertRow_fst hschema hlen, buffer_keyed hi hkey, hfound]
  simp only [View.KeyTaken, ← hiff]
  have hne : ∀ e, v.store.lookupByPrimaryKey table key ≠ .err e := by
    intro e
    simp only [Store.lookupByPrimaryKey, ht, ok_bind]
    cases t.index.lookup key with
    | none => simp
    | some idx =>
      simp only [index]
      cases t.rows[idx]? <;> simp
  cases hlookup : v.store.lookupByPrimaryKey table key with
  | ok committed => cases committed <;> cases found <;> simp
  | err e => exact absurd hlookup (hne e)
  | panic => simp

variable {rows : List Row}

theorem insertEach_append (xs ys : List (String × Row)) :
    Storage.insertEach View.insertRow (xs ++ ys) = (do
      Storage.insertEach View.insertRow xs
      Storage.insertEach View.insertRow ys) := by
  induction xs with
  | nil => simp [Storage.insertEach]
  | cons p xs ih => simp [Storage.insertEach, ih, bind_assoc]

theorem insertEach_accepted
    (h : ∀ before r after, rows = before ++ r :: after →
      (View.insertRow table r (v.after table before)).1 = .ok ()) :
    Storage.insertEach View.insertRow (rows.map fun row => (table, row)) v =
      (.ok (), v.after table rows) := by
  rcases insertEach_cases v (rows.map fun row => (table, row)) with
    hall | ⟨r, p, done, rest, hpairs, hr, -, hp, -⟩
  · exact hall
  · obtain ⟨before, tail, rfl, rfl, htail⟩ := map_eq_append_iff.mp hpairs
    obtain ⟨row, after, rfl, rfl, -⟩ := map_eq_cons_iff.mp htail
    exact absurd ((congrArg Prod.fst hp).symm.trans (h before row after rfl)) hr

theorem after_rows (v : View) (table : String) (rows : List Row) :
    (v.after table rows).tx.rows table = v.tx.rows table ++ rows := by
  rw [View.after, rows_pushAll, rowsFor_pairs, if_pos rfl]

theorem converted_length {insert : Insert} {store store' : Store} {schema : TableSchema}
    {batch : List Row} (hschema : store.tableSchema insert.table = .ok schema)
    (h : convertRows (inMemoryStorage none) insert store = (.ok batch, store')) :
    store.Same store' ∧ ∀ row ∈ batch, row.length = schema.columns.length := by
  have hconvert := convertRows_triple none insert store (Store.Same.refl store)
  rw [h] at hconvert
  obtain ⟨⟨t, ht, hrows⟩, hsame⟩ := hconvert
  obtain ⟨t', ht', rfl⟩ := map_eq_ok.mp hschema
  cases ht.symm.trans (okOr_eq_ok.mp ht')
  refine ⟨hsame, fun row hrow => ?_⟩
  obtain ⟨exprs, -, ordered, hordered, hcells⟩ := Lists.forall₂_mem_right hrows hrow
  rw [← hcells.length_eq, length_zip, orderedExprs_length hordered, min_self]

theorem executeInsert_storage (append : Option Error) (insert : Insert) (v : View) :
    executeInsert (storage append) insert v =
      match convertRows (inMemoryStorage none) insert v.store with
      | (.ok batch, store) =>
        match Storage.insertEach View.insertRow (batch.map fun row => (insert.table, row))
          { v with store } with
        | (.ok (), w) => (.ok batch.length, w)
        | (.err e, w) => (.err e, w)
        | (.panic, w) => (.panic, w)
      | (.err e, store) => (.err e, { v with store })
      | (.panic, store) => (.panic, { v with store }) := by
  have hrun : convertRows (inMemoryStorage none) insert v.store =
      convertRows (inMemoryStorage append) insert v.store := rfl
  rw [hrun]
  simp only [executeInsert, convertRows_storage, View.onStore, Proc.within, View.storePart,
    Bind.bind, Proc.bind]
  rcases convertRows (inMemoryStorage append) insert v.store with ⟨batch | e | _, store⟩
  · simp only [storage]
    rcases Storage.insertEach View.insertRow (batch.map fun row => (insert.table, row))
      { v with store } with ⟨_ | e | _, w⟩ <;> rfl
  · rfl
  · rfl

variable {store : Store} {insert : Insert} {append : Option Error}

theorem View.keyFree_after (hsame : v.store.Same store) (rows : List Row) (key : Value) :
    (v.after table rows).KeyFree table i key ↔
      (View.after { v with store } table rows).KeyFree table i key := by
  simp only [View.KeyFree, View.after, hsame.lookupByPrimaryKey]

theorem View.keyTaken_after (hsame : v.store.Same store) (rows : List Row) (key : Value) :
    (v.after table rows).KeyTaken table i key ↔
      (View.after { v with store } table rows).KeyTaken table i key := by
  simp only [View.KeyTaken, View.after, hsame.lookupByPrimaryKey]

theorem fits_after {done : List Row} (hdone : done ≠ [])
    (hfree : ∀ before r after, done = before ++ r :: after → ∀ key ∈ r[i]?,
      (v.after table before).KeyFree table i key) (hlen : ∀ r ∈ done, i < r.length) :
    ∀ r ∈ (v.after table done).tx.rows table, i < r.length := by
  intro r hr
  rw [after_rows] at hr
  rcases mem_append.mp hr with hold | hnew
  · obtain ⟨first, later, rfl⟩ := exists_cons_of_ne_nil hdone
    have hlt := hlen first mem_cons_self
    obtain ⟨cell, hcell, -⟩ := (hfree [] first later rfl _ (getElem?_eq_getElem hlt)).2 r hold
    exact (List.getElem?_eq_some_iff.mp hcell).1
  · exact hlen r hnew

/-- A split `INSERT` fails and leaves rows behind. -/
theorem View.Splits.not_unchanged (append : Option Error) (h : v.Splits insert) :
    ∃ e, (executeInsert (storage append) insert v).1 = .err e ∧
      ¬ v.Unchanged (executeInsert (storage append) insert v).2 := by
  obtain ⟨schema, i, done, row, rest, store, hschema, hi, hrun, hdone, hfree, htaken⟩ := h
  obtain ⟨hsame, hlen⟩ := converted_length hschema hrun
  have hschema' : store.tableSchema insert.table = .ok schema := hsame.tableSchema _ ▸ hschema
  have hlt : ∀ r ∈ done ++ row :: rest, i < r.length :=
    fun r hr => (hlen r hr).symm ▸ Table.keyIndex_lt hi
  have hmem : ∀ r ∈ done, r ∈ done ++ row :: rest := fun r => mem_append_left _
  have hrow : row ∈ done ++ row :: rest := by simp
  have haccepted : Storage.insertEach View.insertRow (done.map fun row => (insert.table, row))
      { v with store } = (.ok (), View.after { v with store } insert.table done) := by
    refine insertEach_accepted fun before r after heq => ?_
    have hr := hmem r (by simp [heq])
    have hcell := getElem?_eq_getElem (hlt r hr)
    rw [insertRow_ok_iff hschema' (hlen r hr) hi hcell]
    exact (View.keyFree_after hsame before _).mp (hfree before r after heq _ hcell)
  obtain ⟨e, he⟩ : ∃ e, (View.insertRow insert.table row
      (View.after { v with store } insert.table done)).1 = .err e := by
    have hcell := getElem?_eq_getElem (hlt row hrow)
    have hfits := fits_after hdone hfree fun r hr => hlt r (hmem r hr)
    refine (insertRow_err_iff (v := View.after { v with store } insert.table done) hschema'
      (hlen row hrow) hi hcell hfits).mpr ?_
    exact (View.keyTaken_after hsame done _).mp (htaken _ hcell)
  have hrefused : Storage.insertEach View.insertRow
      ((done ++ row :: rest).map fun row => (insert.table, row)) { v with store } =
        (.err e, View.after { v with store } insert.table done) := by
    rw [map_append, insertEach_append, Proc.bind_ok haccepted, map_cons]
    rcases insertRow_cases (View.after { v with store } insert.table done) insert.table row with
      hok | ⟨r, hr, hrow⟩
    · rw [hok] at he
      cases he
    · rw [hrow] at he
      cases he
      exact Proc.bind_fail hrow nofun
  rw [executeInsert_storage, hrun]
  simp only [hrefused]
  exact ⟨e, rfl, View.not_unchanged_after hdone⟩

theorem View.splits_of_refused {done rest : List Row} {row : Row} {e : Error}
    (hrun : convertRows (inMemoryStorage none) insert v.store =
      (.ok (done ++ row :: rest), store)) (hdone : done ≠ [])
    (hbuffered : ∀ before r after, done = before ++ r :: after →
      (View.insertRow insert.table r (View.after { v with store } insert.table before)).1 = .ok ())
    (hrefused : (View.insertRow insert.table row
      (View.after { v with store } insert.table done)).1 = .err e) : v.Splits insert := by
  have hconvert := convertRows_triple none insert v.store (Store.Same.refl v.store)
  rw [hrun] at hconvert
  obtain ⟨⟨t, ht, -⟩, hsame⟩ := hconvert
  have hschema : v.store.tableSchema insert.table = .ok t.schema := by
    simp [Store.tableSchema, ht, okOr]
  have hlen := (converted_length hschema hrun).2
  have hschema' : store.tableSchema insert.table = .ok t.schema := hsame.tableSchema _ ▸ hschema
  have hmem : ∀ r ∈ done, r ∈ done ++ row :: rest := fun r => mem_append_left _
  have hrow : row ∈ done ++ row :: rest := by simp
  cases hi : t.schema.keyIndex with
  | none =>
    have hok := insertRow_unkeyed (v := View.after { v with store } insert.table done) hschema'
      (hlen row hrow) hi
    rw [hok] at hrefused
    cases hrefused
  | some i =>
    have hfree : ∀ before r after, done = before ++ r :: after → ∀ key ∈ r[i]?,
        (v.after insert.table before).KeyFree insert.table i key := by
      intro before r after heq key hkey
      refine (View.keyFree_after hsame before key).mpr ?_
      exact (insertRow_ok_iff (v := View.after { v with store } insert.table before) hschema'
        (hlen r (hmem r (by simp [heq]))) hi hkey).mp (hbuffered before r after heq)
    have hfits := fits_after hdone hfree fun r hr =>
      (hlen r (hmem r hr)).symm ▸ Table.keyIndex_lt hi
    refine ⟨t.schema, i, done, row, rest, store, hschema, hi, hrun, hdone, hfree, ?_⟩
    intro key hkey
    refine (View.keyTaken_after hsame done key).mpr ?_
    exact (insertRow_err_iff (v := View.after { v with store } insert.table done) hschema'
      (hlen row hrow) hi hkey hfits).mp ⟨e, hrefused⟩

theorem View.unchanged_of_not_splits (h : ¬ v.Splits insert) {e : Error}
    (herr : (executeInsert (storage append) insert v).1 = .err e) :
    v.Unchanged (executeInsert (storage append) insert v).2 := by
  have hconvert := convertRows_triple none insert v.store (Store.Same.refl v.store)
  rw [executeInsert_storage] at herr ⊢
  rcases hrun : convertRows (inMemoryStorage none) insert v.store with ⟨batch | e | _, store⟩
  all_goals rw [hrun] at hconvert
  all_goals simp only [hrun] at herr ⊢
  · rcases insertEach_cases { v with store } (batch.map fun row => (insert.table, row)) with
      hall | ⟨r, p, done, rest, hpairs, hr, hbuffered, hp, hcases⟩
    · rw [hall] at herr
      cases herr
    · obtain ⟨done, tail, rfl, rfl, htail⟩ := map_eq_append_iff.mp hpairs
      obtain ⟨row, rest, rfl, rfl, -⟩ := map_eq_cons_iff.mp htail
      simp only [hcases] at herr ⊢
      cases r with
      | ok u => exact absurd rfl hr
      | panic => cases herr
      | err e =>
        by_cases hdone : done = []
        · subst hdone
          exact .of_same hconvert.2 rfl
        · refine absurd (View.splits_of_refused hrun hdone (fun before r after heq => ?_)
            (congrArg Prod.fst hp)) h
          exact hbuffered (before.map fun row => (insert.table, row)) (insert.table, r)
            (after.map fun row => (insert.table, row)) (by simp [heq])
  · exact .of_same hconvert rfl
  · exact .of_same hconvert rfl

end

/-- A failed `INSERT` changes nothing but counters in autocommit mode. In a transaction it
leaves what the session reads and commits as it was, unless it splits. -/
theorem failed_insert_unchanged (append : Option Error) (insert : Insert) (v : View) :
    (∀ e, (execute (inMemoryStorage append) (.insert insert) v.store).1 = .err e →
      v.store.Same (execute (inMemoryStorage append) (.insert insert) v.store).2) ∧
    ((∀ e, (execute (storage append) (.insert insert) v).1 = .err e →
      v.Unchanged (execute (storage append) (.insert insert) v).2) ↔ ¬ v.Splits insert) := by
  refine ⟨fun e herr => ?_, fun h hsplit => ?_, fun h e herr => View.unchanged_of_not_splits h herr⟩
  · rcases executeInsert_engine append insert v.store with hsame | ⟨batch, s₁, s₂, -, -, -, -, hok⟩
    · exact hsame
    · simp only [execute, hok] at herr
      cases herr
  · obtain ⟨e, herr, hnot⟩ := hsplit.not_unchanged append
    exact hnot (h e herr)

def keyedStore : Store :=
  Store.empty.setTable "t" (Table.new [⟨"id", .int, false, false⟩] (some "id"))

/-- Two rows with the same key: the statement fails, its first row is read and committed. -/
theorem failed_insert_keeps_row : let v : View := ⟨keyedStore, new⟩
    let ran := execute (storage none) (.insert ⟨"t", none, [[.integer 1], [.integer 1]]⟩) v
    ran.1 = .err (.execution "Duplicate entry '1' for key 'PRIMARY'") ∧
      v.scan "t" = .ok [] ∧ ran.2.scan "t" = .ok [[.int 1]] ∧
      v.tx.commitRows ["t"] = [] ∧ ran.2.tx.commitRows ["t"] = [("t", [.int 1])] := by
  decide +kernel

end Transaction

end MysqlRust
