import MysqlRust.Storage.KeyIndex
import MysqlRust.Storage.Pending

/-! # Rows a table admits

What a table has to be for new rows to go in without a conflict. The index of a table points into
its rows, so that a lookup finds a row or nothing.
-/
namespace MysqlRust

open Outcome List

namespace Table
variable {t t' u : Table} {rows : List Row}

def Ranged (t : Table) : Prop := ∀ key pos, t.index.lookup key = some pos → pos < t.rows.length

structure AdmitsRows (t : Table) (rows : List Row) : Prop where
  width : ∀ row ∈ rows, row.length = t.schema.columns.length
  keys : t.AdmitsKeys rows

theorem Ranged.same (hsame : t.Same u) (h : t.Ranged) : u.Ranged := by
  intro key pos hpos
  rw [← hsame.index] at hpos
  rw [← hsame.rows]
  exact h key pos hpos

theorem new_ranged (columns : List ColumnSchema) (primaryKey : Option String) :
    (new columns primaryKey).Ranged := by
  simp [Ranged, new]

theorem Ranged.pushTrusted (h : t.Ranged) {row : Row} (hpush : t.pushTrusted row = .ok t') :
    t'.Ranged := by
  obtain ⟨-, -, hrows⟩ := pushTrusted_eq_ok hpush
  intro key pos hpos
  rw [hrows, length_append, length_singleton]
  rcases indexWith_eq_ok (pushTrusted_index hpush) with ⟨i, key', -, -, hindex⟩ | ⟨-, hindex⟩
  · rw [hindex] at hpos
    by_cases heq : key = key'
    · subst heq
      rw [Finmap.lookup_insert] at hpos
      cases hpos
      exact Nat.lt_succ_self _
    · rw [Finmap.lookup_insert_of_ne _ heq] at hpos
      exact Nat.lt_succ_of_lt (h key pos hpos)
  · rw [hindex] at hpos
    exact Nat.lt_succ_of_lt (h key pos hpos)

structure Grown (P : Table → Prop) : Prop where
  new : ∀ columns primaryKey, P (new columns primaryKey)
  push : ∀ t row t', P t → pushTrusted t row = .ok t' → P t'

/-- What new tables have and adding a row keeps holds of every table built from its rows. -/
theorem Grown.derived {P : Table → Prop} (hP : Grown P) (h : t.Derived) : P t :=
  foldlM_invariant (fun t row t' => hP.push t row t')
    (hP.new t.schema.columns t.schema.primaryKey) h

theorem ranged_grown : Grown Ranged := ⟨new_ranged, fun _ _ _ h hpush => h.pushTrusted hpush⟩

theorem AdmitsRows.nil (t : Table) : t.AdmitsRows [] where
  width := by simp
  keys := by simp [AdmitsKeys]

theorem AdmitsRows.same (hsame : t.Same u) (h : t.AdmitsRows rows) : u.AdmitsRows rows := by
  obtain ⟨hwidth, hkeys⟩ := h
  rw [AdmitsKeys, hsame.schema, hsame.index] at hkeys
  rw [hsame.schema] at hwidth
  exact ⟨hwidth, hkeys⟩

theorem AdmitsRows.append (h : t.AdmitsRows rows) {row : Row}
    (hrow : row.length = t.schema.columns.length)
    (hkey : ∀ i key, t.schema.keyIndex = some i → row[i]? = some key →
      key ∉ t.index ∧ ∀ r ∈ rows, r[i]? ≠ some key) : t.AdmitsRows (rows ++ [row]) where
  width := by
    intro r hr
    rcases mem_append.mp hr with hr | hr
    · exact h.width r hr
    · rwa [mem_singleton.mp hr]
  keys := by
    intro i hi
    have hlt : i < row.length := hrow ▸ keyIndex_lt hi
    obtain ⟨hnew, hother⟩ := hkey i row[i] hi (getElem?_eq_getElem hlt)
    obtain ⟨hnodup, hindex⟩ := h.keys i hi
    constructor
    · rw [map_append, nodup_append]
      refine ⟨hnodup, by simp, ?_⟩
      rintro _ ha _ hb rfl
      obtain ⟨r, hr, heq⟩ := mem_map.mp ha
      rw [map_singleton, mem_singleton, getElem?_eq_getElem hlt] at hb
      exact hother r hr (heq.trans hb)
    · intro r hr key hcell
      rcases mem_append.mp hr with hr | hr
      · exact hindex r hr key hcell
      · rw [mem_singleton.mp hr, getElem?_eq_getElem hlt, Option.some.injEq] at hcell
        rwa [← hcell]

end Table

section
variable {s s' : Store} {rows : List (String × Row)}

theorem Store.Admits.table (hs : s.All Table.Placed) (h : s.Admits rows) {name : String} {t : Table}
    (ht : s.tables.lookup name = some t) : t.AdmitsRows (rowsFor name rows) where
  width := by
    intro row hrow
    obtain ⟨⟨pname, p⟩, hp, rfl⟩ := mem_map.mp hrow
    obtain ⟨hmem, hname⟩ := mem_filter.mp hp
    cases of_decide_eq_true hname
    obtain ⟨u, hu, hlen⟩ := (h.row _ hmem).1
    cases ht.symm.trans hu
    exact hlen
  keys := by
    intro i hi
    have hpk : t.primaryKeyIndex = some i := (hs name t ht).keyIndex.trans hi
    exact ⟨h.keys_nodup ht hpk (Table.keyIndex_lt hi), fun row hrow key hkey =>
      h.keys_fresh ht hpk hrow hkey⟩

theorem keyOf_eq_some {p : String × Row} {k : String × Value} (h : s.keyOf p = some k) :
    k.1 = p.1 ∧ ∃ t i, s.tables.lookup p.1 = some t ∧ t.primaryKeyIndex = some i ∧
      p.2[i]? = some k.2 := by
  obtain ⟨t, ht, h⟩ := Option.bind_eq_some_iff.mp h
  obtain ⟨i, hi, h⟩ := Option.bind_eq_some_iff.mp h
  obtain ⟨key, hkey, rfl⟩ := Option.map_eq_some_iff.mp h
  exact ⟨rfl, t, i, ht, hi, hkey⟩

/-- A batch is admitted when each of its tables admits its own part of it. -/
theorem admits_of_tables (hs : s.All Table.Placed) (h : ∀ p ∈ rows, ∃ t, s.tables.lookup p.1 = some t ∧
    t.AdmitsRows (rowsFor p.1 rows)) : s.Admits rows where
  row p hp := by
    obtain ⟨t, ht, hadmits⟩ := h p hp
    refine ⟨⟨t, ht, hadmits.width p.2 (mem_rowsFor hp)⟩, fun u key hu hkey => ?_⟩
    obtain ⟨-, v, i, hv, hi, hcell⟩ := keyOf_eq_some hkey
    cases ht.symm.trans hu
    cases ht.symm.trans hv
    rw [(hs _ _ ht).keyIndex] at hi
    exact (hadmits.keys i hi).2 p.2 (mem_rowsFor hp) key hcell
  distinct := by
    refine Lists.pairwise_of_fibers Prod.fst ?_ fun p hp => ?_
    · intro p q hne k hp hq
      exact hne ((keyOf_eq_some hp).1.symm.trans (keyOf_eq_some hq).1)
    · obtain ⟨t, ht, hadmits⟩ := h p hp
      rw [pairwise_filter]
      have hcell : ∀ q : String × Row, q.1 = p.1 → ∀ k, s.keyOf q = some k →
          ∃ i, t.schema.keyIndex = some i ∧ q.2[i]? = some k.2 := by
        intro q hq k hk
        obtain ⟨-, u, i, hu, hi, hcell⟩ := keyOf_eq_some hk
        rw [hq] at hu
        cases ht.symm.trans hu
        exact ⟨i, (hs _ _ ht).keyIndex ▸ hi, hcell⟩
      cases hi : t.schema.keyIndex with
      | none =>
        refine pairwise_of_forall fun q r hq _ k hk => ?_
        obtain ⟨i, hi', -⟩ := hcell q (of_decide_eq_true hq) k hk
        cases hi.symm.trans hi'
      | some i =>
        have hnodup := (hadmits.keys i hi).1
        rw [rowsFor, map_map, nodup_iff_pairwise_ne, pairwise_map, pairwise_filter] at hnodup
        refine hnodup.imp fun {q r} hdistinct hq hr k hqk hrk => ?_
        obtain ⟨i₁, hi₁, hqcell⟩ := hcell q (of_decide_eq_true hq) k hqk
        obtain ⟨i₂, hi₂, hrcell⟩ := hcell r (of_decide_eq_true hr) k hrk
        cases hi.symm.trans hi₁
        cases hi.symm.trans hi₂
        exact hdistinct hq hr (hqcell.trans hrcell.symm)

theorem check_of_tables (hs : s.All Table.Placed) (h : ∀ p ∈ rows, ∃ t, s.tables.lookup p.1 = some t ∧
    t.AdmitsRows (rowsFor p.1 rows)) : check s (.insertRows rows) = .ok (decide (rows ≠ [])) := by
  by_cases hrows : rows = []
  · simp [check, hrows]
  · rw [(check_insertRows_iff hs).mpr ⟨hrows, admits_of_tables hs h⟩]
    simp [hrows]

variable {c : Call}
variable {t : Table} {name : String}
variable {P : Table → Prop}

def SchemaChange.resizes : SchemaChange → Bool
  | .addColumn _ _ | .dropColumn _ => true
  | _ => false

def Call.resizes : Call → Option String
  | .alterTable name change => if change.resizes then some name else none
  | _ => none

theorem computeAlteredTable_width {t' : Table} {change : SchemaChange}
    (hchange : change.resizes = false) (h : computeAlteredTable t change = .ok t') :
    t'.schema.columns.length = t.schema.columns.length := by
  rw [(computeAlteredTable_eq_ok h).1]
  cases change with
  | addColumn column isPrimaryKey => cases hchange
  | dropColumn name => cases hchange
  | _ => simp [SchemaChange.alteredSchema]

theorem apply_post (hs : s.Wf) (hinserts : ∀ p ∈ c.inserts, s.Accepts p) :
    (apply s c).Post Store.Wf := by
  cases c with
  | createTable name columns primaryKey =>
    exact .ite trivial (hs.setTable (Table.new_wf columns primaryKey) name)
  | alterTable name change =>
    refine (okOr_post (P := Table.Wf) _ fun t => hs name t).bind fun t ht => ?_
    exact (computeAlteredTable_wf ht change).bind fun altered haltered => hs.setTable haltered name
  | insertRow table row =>
    obtain ⟨t, ht, hlen⟩ := hinserts (table, row) mem_cons_self
    obtain ⟨t', hpush, hwf, -⟩ := (hs table t ht).pushTrusted hlen
    simp only [apply, okOr_eq_ok.mpr ht, ok_bind, hpush]
    exact hs.setTable hwf table
  | insertRows rows =>
    have hfits : ∀ p ∈ rows, s.Fits p := fun p hp => (hinserts p hp).fits
    obtain ⟨s', hs', hwf⟩ := pushRows_wf hs hfits
    rw [apply, hs']
    exact hwf
  | createDatabase name ifNotExists => exact .ite (.ite hs trivial) hs
  | dropDatabase name ifExists => exact .ite hs trivial

/-- What new tables have and adding a row keeps survives every call. -/
theorem apply_all (hP : Table.Grown P) (hs : s.All P) (h : apply s c = .ok s') : s'.All P := by
  cases c with
  | createTable name columns primaryKey =>
    simp only [apply] at h
    split_ifs at h
    cases h
    exact hs.setTable (hP.new columns primaryKey) name
  | alterTable name change =>
    obtain ⟨t, altered, -, haltered, rfl⟩ := apply_alterTable_eq_ok h
    exact hs.setTable (hP.derived (computeAlteredTable_derived haltered)) name
  | insertRow table row =>
    obtain ⟨t, ht, h⟩ := bind_eq_ok.mp h
    obtain ⟨t', ht', h⟩ := bind_eq_ok.mp h
    cases h
    exact hs.setTable (hP.push t row t' (hs _ _ (okOr_eq_ok.mp ht)) ht') table
  | insertRows rows => exact foldlM_invariant (fun _ _ _ => pushRow_all hP.push) hs h
  | createDatabase name ifNotExists =>
    intro other t ht
    rw [apply_createDatabase_tables h] at ht
    exact hs other t ht
  | dropDatabase name ifExists =>
    intro other t ht
    rw [apply_dropDatabase_tables h] at ht
    exact hs other t ht

theorem apply_ranged (hs : s.All Table.Ranged) (h : apply s c = .ok s') : s'.All Table.Ranged :=
  apply_all Table.ranged_grown hs h

/-- Calls that neither create nor alter a table add their rows and do nothing else to tables. -/
theorem apply_pushes (hcreates : c.creates = none) (halters : c.alters = none)
    (h : apply s c = .ok s') :
    ∃ s₁, c.inserts.foldlM pushRow s = .ok s₁ ∧ s'.tables = s₁.tables := by
  cases c with
  | createTable name columns primaryKey => cases hcreates
  | alterTable name change => cases halters
  | insertRow table row =>
    obtain ⟨t, ht, h⟩ := bind_eq_ok.mp h
    obtain ⟨t', ht', h⟩ := bind_eq_ok.mp h
    rw [okOr_eq_ok] at ht
    cases h
    exact ⟨s.setTable table t', by simp [Call.inserts, pushRow, ht, ht'], rfl⟩
  | insertRows rows => exact ⟨s', h, rfl⟩
  | createDatabase name ifNotExists => exact ⟨s, rfl, apply_createDatabase_tables h⟩
  | dropDatabase name ifExists => exact ⟨s, rfl, apply_dropDatabase_tables h⟩

theorem lookup_of_create {other : String} {columns : List ColumnSchema} {primaryKey : Option String}
    (ht : s.tables.lookup other = some t)
    (h : apply s (.createTable name columns primaryKey) = .ok s') :
    s'.tables.lookup other = some t := by
  simp only [apply] at h
  split_ifs at h with hname
  cases h
  have hne : other ≠ name := by
    rintro rfl
    exact hname (Finmap.mem_of_lookup_eq_some ht)
  rw [lookup_setTable_of_ne _ _ _ hne, ht]

/-- A call leaves alone the tables it neither alters nor adds rows to. -/
theorem apply_lookup (ht : s.tables.lookup name = some t) (hrows : rowsFor name c.inserts = [])
    (halters : c.alters ≠ some name) (h : apply s c = .ok s') : s'.tables.lookup name = some t := by
  cases c with
  | createTable other columns primaryKey => exact lookup_of_create ht h
  | alterTable other change =>
    obtain ⟨u, altered, -, -, rfl⟩ := apply_alterTable_eq_ok h
    have hne : name ≠ other := fun heq => halters (heq ▸ rfl)
    rw [lookup_setTable_of_ne _ _ _ hne, ht]
  | insertRow | insertRows | createDatabase | dropDatabase =>
    obtain ⟨s₁, hpush, htables⟩ := apply_pushes rfl rfl h
    obtain ⟨t', hpush', ht'⟩ := (pushRows_lookup hpush name).2 t ht
    rw [hrows] at hpush'
    cases hpush'
    rw [htables, ht']

theorem apply_width (ht : s.tables.lookup name = some t) (hresizes : c.resizes ≠ some name)
    (h : apply s c = .ok s') :
    ∃ t', s'.tables.lookup name = some t' ∧ t'.schema.columns.length = t.schema.columns.length := by
  cases c with
  | createTable other columns primaryKey => exact ⟨t, lookup_of_create ht h, rfl⟩
  | alterTable other change =>
    obtain ⟨u, altered, hu, haltered, rfl⟩ := apply_alterTable_eq_ok h
    by_cases heq : name = other
    · subst heq
      cases ht.symm.trans hu
      refine ⟨altered, lookup_setTable _ _ _, computeAlteredTable_width ?_ haltered⟩
      simpa [Call.resizes] using hresizes
    · exact ⟨t, by rw [lookup_setTable_of_ne _ _ _ heq, ht], rfl⟩
  | insertRow | insertRows | createDatabase | dropDatabase =>
    obtain ⟨s₁, hpush, htables⟩ := apply_pushes rfl rfl h
    obtain ⟨t', hpush', ht'⟩ := (pushRows_lookup hpush name).2 t ht
    exact ⟨t', by rw [htables, ht'], by rw [(pushAll_eq_ok hpush').1]⟩

variable {store : Store} {table : String} {key : Value}

theorem lookupByPrimaryKey_of_ranged (ht : store.tables.lookup table = some t) (h : t.Ranged)
    (key : Value) : ∃ found, store.lookupByPrimaryKey table key = .ok found ∧
      (∀ row, found = some row → row ∈ t.rows) ∧ (found = none ↔ key ∉ t.index) := by
  simp only [Store.lookupByPrimaryKey, ht, okOr, ok_bind]
  cases hpos : t.index.lookup key with
  | none =>
    refine ⟨none, rfl, fun row h => (by cases h), ?_⟩
    simpa using Finmap.lookup_eq_none.mp hpos
  | some pos =>
    have hlt := h key pos hpos
    refine ⟨some t.rows[pos], by simp [index_of_lt hlt], ?_, ?_⟩
    · intro row hrow
      cases hrow
      exact getElem_mem hlt
    · simpa using Finmap.mem_of_lookup_eq_some hpos

/-- A row of the table's width is buffered when its key is new, and refused otherwise. -/
theorem Transaction.buffer_post {tx : Transaction} {row : Row}
    (ht : store.tables.lookup table = some t) (hranged : t.Ranged)
    (hpending : t.AdmitsRows (tx.rows table)) (hrow : row.length = t.schema.columns.length) :
    (buffer store tx t.schema table row).Post fun tx' =>
      tx' = tx.push table row ∧ t.AdmitsRows (tx.rows table ++ [row]) := by
  cases hi : t.schema.keyIndex with
  | none =>
    simp only [buffer, hi]
    refine ⟨rfl, hpending.append hrow fun i key hi' => ?_⟩
    cases hi.symm.trans hi'
  | some i =>
    have hlt : i < row.length := hrow ▸ Table.keyIndex_lt hi
    have hcell : row[i]? = some row[i] := getElem?_eq_getElem hlt
    have hfits : ∀ r ∈ tx.rows table, i < r.length := fun r hr =>
      hpending.width r hr ▸ Table.keyIndex_lt hi
    obtain ⟨committed, hcommitted, -, hnone⟩ := lookupByPrimaryKey_of_ranged ht hranged row[i]
    obtain ⟨found, hfound, hsome⟩ := findKey_of_fits row[i] hfits
    rw [buffer_keyed hi hcell, hcommitted, ok_bind, hfound, ok_bind]
    split
    · trivial
    · rename_i hfree
      simp only [not_or, Bool.not_eq_true, Option.isSome_eq_false_iff, Option.isNone_iff_eq_none]
        at hfree
      refine ⟨rfl, hpending.append hrow fun j key hj hkey => ?_⟩
      cases hi.symm.trans hj
      cases hcell.symm.trans hkey
      refine ⟨hnone.mp hfree.1, fun r hr heq => ?_⟩
      have := hsome.mpr ⟨r, hr, heq⟩
      simp [hfree.2] at this

end

namespace Transaction.View
variable {v v' : View} {table : String}

def Admitted (v : View) : Prop := ∀ table, v.tx.rows table ≠ [] →
  ∃ t, v.store.tables.lookup table = some t ∧ t.AdmitsRows (v.tx.rows table)

theorem Admitted.rows (h : v.Admitted) {t : Table} (ht : v.store.tables.lookup table = some t) :
    t.AdmitsRows (v.tx.rows table) := by
  by_cases hrows : v.tx.rows table = []
  · rw [hrows]
    exact .nil t
  · obtain ⟨u, hu, hadmits⟩ := h table hrows
    cases ht.symm.trans hu
    exact hadmits

theorem Admitted.insertRow (h : v.Admitted) (hranged : v.store.All Table.Ranged) {row : Row}
    (hinsert : View.insertRow table row v = (.ok (), v')) :
    v' = { v with tx := v.tx.push table row } ∧ v'.Admitted := by
  obtain ⟨t, ht, hlen, hbuffer, hstore⟩ := insertRow_eq_ok hinsert
  have hpost := buffer_post ht (hranged table t ht) (h.rows ht) hlen
  rw [hbuffer] at hpost
  obtain ⟨htx, hadmits⟩ := hpost
  obtain rfl : v' = { v with tx := v.tx.push table row } := by
    cases v'
    cases hstore
    cases htx
    rfl
  refine ⟨rfl, fun other hrows => ?_⟩
  simp only [rows_push] at hrows ⊢
  by_cases heq : other = table
  · subst heq
    rw [if_pos rfl]
    exact ⟨t, ht, hadmits⟩
  · rw [if_neg heq] at hrows ⊢
    exact h other hrows

end Transaction.View

end MysqlRust
