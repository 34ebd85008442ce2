import MysqlRust.Foundation.Lists
import MysqlRust.Storage.CreateRace

/-! # The primary-key index

What the index of a table has to say about its rows, and which operations keep it. Pushing
never looks at the index, so a push keeps it only for a new key; the check of a batch is what
makes keys new.
-/
namespace MysqlRust

open Outcome List Lists

namespace Table

/-- The key cells of the rows are there, not `NULL` and distinct, and the index maps each of
them to its row and nothing else; without a key the index is empty. -/
structure KeyExact (t : Table) : Prop where
  defined : t.schema.primaryKey.isSome → t.schema.keyIndex.isSome
  cells : ∀ i, t.schema.keyIndex = some i → ∀ row ∈ t.rows, ∃ key, row[i]? = some key ∧ key ≠ .null
  distinct : ∀ i, t.schema.keyIndex = some i → (t.rows.map fun row => row[i]?).Nodup
  lookup : ∀ i, t.schema.keyIndex = some i → ∀ key pos,
    t.index.lookup key = some pos ↔ (t.rows[pos]?).bind (fun row => row[i]?) = some key
  unkeyed : t.schema.keyIndex = none → t.index = ∅

def AdmitsKeys (t : Table) (rows : List Row) : Prop :=
  ∀ i, t.schema.keyIndex = some i → (rows.map fun row => row[i]?).Nodup ∧
    ∀ row ∈ rows, ∀ key, row[i]? = some key → key ∉ t.index

variable {t t' : Table} {rows : List Row} {row : Row}

theorem KeyExact.same {u : Table} (hsame : t.Same u) (h : t.KeyExact) : u.KeyExact := by
  obtain ⟨hdefined, hcells, hdistinct, hlookup, hunkeyed⟩ := h
  rw [hsame.schema] at hdefined hcells hdistinct hlookup hunkeyed
  rw [hsame.rows] at hcells hdistinct hlookup
  rw [hsame.index] at hlookup hunkeyed
  exact ⟨hdefined, hcells, hdistinct, hlookup, hunkeyed⟩

theorem new_keyExact {columns : List ColumnSchema} {primaryKey : Option String}
    (h : primaryKey.isSome → (TableSchema.mk columns primaryKey).keyIndex.isSome) :
    (new columns primaryKey).KeyExact where
  defined := h
  cells := by simp [new]
  distinct := by simp [new]
  lookup := by simp [new]
  unkeyed _ := rfl

theorem indexWith_eq_ok {index : Finmap fun _ : Value => Nat} (h : t.indexWith row = .ok index) :
    (∃ i key, t.primaryKeyIndex = some i ∧ row[i]? = some key ∧
      index = t.index.insert key t.rows.length) ∨ t.primaryKeyIndex = none ∧ index = t.index := by
  unfold indexWith at h
  split at h
  · rename_i i hi
    obtain ⟨key, hkey, h⟩ := bind_eq_ok.mp h
    exact .inl ⟨i, key, hi, index_eq_ok.mp hkey, (ok.inj h).symm⟩
  · rename_i hnone
    exact .inr ⟨hnone, (ok.inj h).symm⟩

theorem pushTrusted_index (h : t.pushTrusted row = .ok t') : t.indexWith row = .ok t'.index := by
  obtain ⟨index, hindex, h⟩ := bind_eq_ok.mp h
  obtain ⟨counter, -, h⟩ := bind_eq_ok.mp h
  cases h
  exact hindex

theorem cell_concat (rows : List Row) (row : Row) (i pos : Nat) :
    ((rows ++ [row])[pos]?).bind (fun row => row[i]?) =
      if pos = rows.length then row[i]? else (rows[pos]?).bind fun row => row[i]? := by
  split
  · rename_i heq
    subst heq
    simp
  · rename_i hne
    rcases Nat.lt_or_gt_of_ne hne with hlt | hgt
    · rw [getElem?_append_left hlt]
    · rw [getElem?_eq_none (by simp; omega), getElem?_eq_none (by omega)]

theorem mem_cells {i pos : Nat} {key : Value}
    (h : (rows[pos]?).bind (fun row => row[i]?) = some key) :
    some key ∈ rows.map fun row => row[i]? := by
  obtain ⟨row, hrow, hkey⟩ := Option.bind_eq_some_iff.mp h
  exact mem_map.mpr ⟨row, mem_of_getElem? hrow, hkey⟩

/-- A row with a new key keeps the index exact. -/
theorem KeyExact.pushTrusted (h : t.KeyExact) (hkeyIndex : t.primaryKeyIndex = t.schema.keyIndex)
    (hpush : t.pushTrusted row = .ok t')
    (hcell : ∀ i, t.schema.keyIndex = some i → row[i]? ≠ some .null)
    (hnew : ∀ i, t.schema.keyIndex = some i → row[i]? ∉ t.rows.map fun row => row[i]?) :
    t'.KeyExact := by
  obtain ⟨hschema, -, hrows⟩ := pushTrusted_eq_ok hpush
  have hindex := indexWith_eq_ok (pushTrusted_index hpush)
  rw [hkeyIndex] at hindex
  rcases hindex with ⟨i, key, hi, hkey, hindex⟩ | ⟨hnone, hindex⟩
  · have hfresh := hnew i hi
    have hnull := hcell i hi
    rw [hkey] at hfresh hnull
    refine ⟨by rw [hschema]; exact h.defined, ?_, ?_, ?_, ?_⟩
    all_goals rw [hschema, hi]
    · rintro _ ⟨⟩ r hr
      rw [hrows] at hr
      rcases mem_append.mp hr with hr | hr
      · exact h.cells i hi r hr
      · rw [mem_singleton.mp hr]
        exact ⟨key, hkey, fun heq => hnull (by rw [heq])⟩
    · rintro _ ⟨⟩
      rw [hrows, map_append, nodup_append]
      refine ⟨h.distinct i hi, by simp, ?_⟩
      intro a ha b hb heq
      simp only [map_cons, map_nil, mem_singleton, hkey] at hb
      exact hfresh (by rw [← hb, ← heq]; exact ha)
    · rintro _ ⟨⟩ k pos
      rw [hindex, hrows, cell_concat, hkey]
      by_cases hk : k = key
      · subst hk
        rw [Finmap.lookup_insert]
        split
        · simp [*]
        · rename_i hne
          simp only [Option.some.injEq, Ne.symm hne, false_iff]
          exact fun hcells => hfresh (mem_cells hcells)
      · rw [Finmap.lookup_insert_of_ne _ hk, h.lookup i hi]
        split
        · simp [*, Ne.symm hk]
        · rfl
    · nofun
  · refine ⟨by rw [hschema]; exact h.defined, ?_, ?_, ?_, ?_⟩
    all_goals rw [hschema, hnone]
    · nofun
    · nofun
    · nofun
    · intro _
      rw [hindex]
      exact h.unkeyed hnone

theorem KeyExact.pushAll {t t' : Table} {rows : List Row} (h : t.KeyExact)
    (hkeyIndex : t.primaryKeyIndex = t.schema.keyIndex)
    (hcells : ∀ i, t.schema.keyIndex = some i → ∀ row ∈ rows, row[i]? ≠ some .null)
    (hdistinct : ∀ i, t.schema.keyIndex = some i → ((t.rows ++ rows).map fun row => row[i]?).Nodup)
    (hfold : rows.foldlM Table.pushTrusted t = .ok t') : t'.KeyExact := by
  induction rows generalizing t with
  | nil =>
    cases hfold
    exact h
  | cons row rows ih =>
    rw [foldlM_cons] at hfold
    obtain ⟨t₁, hpush, hfold⟩ := bind_eq_ok.mp hfold
    obtain ⟨hschema, hindex, hrows⟩ := pushTrusted_eq_ok hpush
    have hexact : t₁.KeyExact := by
      refine h.pushTrusted hkeyIndex hpush (fun i hi => hcells i hi row mem_cons_self) ?_
      intro i hi hmem
      have hnodup := hdistinct i hi
      rw [map_append, nodup_append] at hnodup
      exact hnodup.2.2 _ hmem _ (mem_map_of_mem mem_cons_self) rfl
    refine ih hexact (by rw [hindex, hschema, hkeyIndex]) ?_ ?_ hfold
    · rw [hschema]
      exact fun i hi r hr => hcells i hi r (mem_cons_of_mem row hr)
    · rw [hschema, hrows]
      simpa using hdistinct

theorem KeyExact.pushRows (h : t.KeyExact) (hkeyIndex : t.primaryKeyIndex = t.schema.keyIndex)
    (hcells : ∀ row ∈ rows, ∀ i, t.schema.keyIndex = some i → row[i]? ≠ some .null)
    (hkeys : t.AdmitsKeys rows) (hfold : rows.foldlM Table.pushTrusted t = .ok t') :
    t'.KeyExact := by
  refine h.pushAll hkeyIndex (fun i hi row hrow => hcells row hrow i hi) (fun i hi => ?_) hfold
  rw [map_append, nodup_append]
  refine ⟨h.distinct i hi, (hkeys i hi).1, ?_⟩
  rintro a ha b hb rfl
  obtain ⟨row, hrow, rfl⟩ := mem_map.mp ha
  obtain ⟨row', hrow', heq⟩ := mem_map.mp hb
  obtain ⟨key, hcell, -⟩ := h.cells i hi row hrow
  rw [hcell] at heq
  refine (hkeys i hi).2 row' hrow' key heq ?_
  obtain ⟨pos, hpos⟩ := mem_iff_getElem?.mp hrow
  exact Finmap.mem_iff.mpr ⟨pos, (h.lookup i hi key pos).mpr (by rw [hpos]; exact hcell)⟩

theorem keyExact_of_fill {columns : List ColumnSchema} {primaryKey : Option String}
    {rows : List Row} {t : Table}
    (hdefined : primaryKey.isSome → (TableSchema.mk columns primaryKey).keyIndex.isSome)
    (hcells : ∀ i, (TableSchema.mk columns primaryKey).keyIndex = some i →
      ∀ row ∈ rows, row[i]? ≠ some .null)
    (hdistinct : ∀ i, (TableSchema.mk columns primaryKey).keyIndex = some i →
      (rows.map fun row => row[i]?).Nodup)
    (hfold : rows.foldlM Table.pushTrusted (new columns primaryKey) = .ok t) : t.KeyExact :=
  (new_keyExact hdefined).pushAll rfl hcells hdistinct hfold

end Table

section Batch
variable {s : Store} {rows : List (String × Row)} {seen seen' : Finset (String × Value)}
variable {name : String} {t : Table} {i : Nat}

def Store.keyOf (s : Store) (p : String × Row) : Option (String × Value) :=
  (s.tables.lookup p.1).bind fun t => t.primaryKeyIndex.bind fun i =>
    p.2[i]?.map fun key => (p.1, key)

def Store.AdmitsRow (s : Store) (p : String × Row) : Prop :=
  s.Accepts p ∧ ∀ t key, s.tables.lookup p.1 = some t → s.keyOf p = some (p.1, key) → key ∉ t.index

theorem checkBatchRow_iff (hs : s.All Table.Placed) (p : String × Row) :
    checkBatchRow s seen p = .ok seen' ↔ s.AdmitsRow p ∧ (∀ k, s.keyOf p = some k → k ∉ seen) ∧
        seen' = (s.keyOf p).elim seen (insert · seen) := by
  unfold checkBatchRow checkRow Store.AdmitsRow Store.keyOf Store.Accepts
  cases ht : s.tables.lookup p.1 with
  | none => simp [okOr]
  | some t =>
    by_cases hlen : p.2.length = t.schema.columns.length
    · cases hi : t.primaryKeyIndex with
      | none => simp [okOr, hlen, Table.checkInsertable, Table.primaryKeyValue, hi, eq_comm]
      | some i =>
        have hlt : i < p.2.length := hlen ▸ (hs _ _ ht).key_lt hi
        by_cases hindex : p.2[i] ∈ t.index
        · simp [okOr, hlen, Table.checkInsertable, hi, index_of_lt hlt, hindex,
            getElem?_eq_getElem hlt]
        · by_cases hseen : (p.1, p.2[i]) ∈ seen
          · simp [okOr, hlen, Table.checkInsertable, Table.primaryKeyValue, hi,
              index_of_lt hlt, hindex, hseen, getElem?_eq_getElem hlt]
          · simp [okOr, hlen, Table.checkInsertable, Table.primaryKeyValue, hi,
              index_of_lt hlt, hindex, hseen, getElem?_eq_getElem hlt, eq_comm]
    · simp [okOr, hlen]

def Store.Distinct (s : Store) (p q : String × Row) : Prop :=
  ∀ k, s.keyOf p = some k → s.keyOf q ≠ some k

/-- A batch that passes validation: every row has a table of its width, and its key is in
neither the table nor another row of the batch. -/
structure Store.Admits (s : Store) (rows : List (String × Row)) : Prop where
  row : ∀ p ∈ rows, s.AdmitsRow p
  distinct : rows.Pairwise s.Distinct

/-- A batch passes when each row is admitted and brings a key not seen before. -/
theorem checkBatch_iff (hs : s.All Table.Placed) :
    (∃ seen', rows.foldlM (checkBatchRow s) seen = .ok seen') ↔
      s.Admits rows ∧ ∀ p ∈ rows, ∀ k, s.keyOf p = some k → k ∉ seen := by
  induction rows generalizing seen with
  | nil => simpa using ⟨by simp, .nil⟩
  | cons p rows ih =>
    rw [foldlM_cons]
    constructor
    · rintro ⟨seen', h⟩
      obtain ⟨seen₁, hp, h⟩ := bind_eq_ok.mp h
      obtain ⟨hrow, hseen, rfl⟩ := (checkBatchRow_iff hs p).mp hp
      obtain ⟨hadmits, hrest⟩ := ih.mp ⟨seen', h⟩
      have hdistinct : ∀ q ∈ rows, s.Distinct p q := by
        intro q hq k hk hkq
        have := hrest q hq k hkq
        simp [hk] at this
      have hnew : ∀ q ∈ rows, ∀ k, s.keyOf q = some k → k ∉ seen := by
        intro q hq k hk hmem
        refine hrest q hq k hk ?_
        cases s.keyOf p <;> simp [hmem]
      exact ⟨⟨forall_mem_cons.mpr ⟨hrow, hadmits.row⟩, .cons hdistinct hadmits.distinct⟩,
        forall_mem_cons.mpr ⟨hseen, hnew⟩⟩
    · rintro ⟨⟨hrow, hdistinct⟩, hseen⟩
      obtain ⟨hprow, hrow⟩ := forall_mem_cons.mp hrow
      obtain ⟨hpseen, hseen⟩ := forall_mem_cons.mp hseen
      obtain ⟨hpdistinct, hdistinct⟩ := pairwise_cons.mp hdistinct
      have hnew : ∀ q ∈ rows, ∀ k, s.keyOf q = some k →
          k ∉ (s.keyOf p).elim seen (insert · seen) := by
        intro q hq k hk
        cases hkey : s.keyOf p with
        | none => exact hseen q hq k hk
        | some k' =>
          simp only [Option.elim_some, Finset.mem_insert, not_or]
          exact ⟨fun heq => hpdistinct q hq k' hkey (heq ▸ hk), hseen q hq k hk⟩
      obtain ⟨seen', h⟩ := ih.mpr ⟨⟨hrow, hdistinct⟩, hnew⟩
      exact ⟨seen', by rw [(checkBatchRow_iff hs p).mpr ⟨hprow, hpseen, rfl⟩, ok_bind, h]⟩

/-- Exactly the batches that pass validation go on to the log. -/
theorem check_insertRows_iff (hs : s.All Table.Placed) :
    check s (.insertRows rows) = .ok true ↔ rows ≠ [] ∧ s.Admits rows := by
  have hbatch : (∃ seen', rows.foldlM (checkBatchRow s) ∅ = .ok seen') ↔ s.Admits rows := by
    simp [checkBatch_iff hs]
  rw [← hbatch]
  by_cases hrows : rows = []
  · simp [check, hrows]
  · simp [check, hrows, bind_eq_ok]

theorem keyOf_eq (ht : s.tables.lookup name = some t) (hi : t.primaryKeyIndex = some i)
    (row : Row) :
    s.keyOf (name, row) = row[i]?.map fun key => (name, key) := by
  simp [Store.keyOf, ht, hi]

theorem Store.Admits.keys_nodup (h : s.Admits rows) (ht : s.tables.lookup name = some t)
    (hi : t.primaryKeyIndex = some i) (hlt : i < t.schema.columns.length) :
    ((rowsFor name rows).map fun row => row[i]?).Nodup := by
  rw [rowsFor, map_map, nodup_iff_pairwise_ne, pairwise_map, pairwise_filter]
  refine h.distinct.imp_of_mem ?_
  rintro ⟨pname, p⟩ ⟨qname, q⟩ hp - hdistinct hpname hqname heq
  cases of_decide_eq_true hpname
  cases of_decide_eq_true hqname
  obtain ⟨u, hu, hlen⟩ := (h.row _ hp).1
  cases ht.symm.trans hu
  obtain ⟨key, hcell⟩ : ∃ key, p[i]? = some key :=
    ⟨_, getElem?_eq_getElem (hlen ▸ hlt)⟩
  have hcell' : q[i]? = some key := hcell ▸ heq.symm
  refine hdistinct (pname, key) ?_ ?_
  · rw [keyOf_eq ht hi, hcell]
    rfl
  · rw [keyOf_eq ht hi, hcell']
    rfl

theorem Store.Admits.keys_fresh (h : s.Admits rows) (ht : s.tables.lookup name = some t)
    (hi : t.primaryKeyIndex = some i) {row : Row} (hrow : row ∈ rowsFor name rows) {key : Value}
    (hkey : row[i]? = some key) : key ∉ t.index := by
  obtain ⟨⟨pname, p⟩, hp, rfl⟩ := mem_map.mp hrow
  obtain ⟨hmem, hname⟩ := mem_filter.mp hp
  cases of_decide_eq_true hname
  refine (h.row _ hmem).2 t key ht ?_
  rw [keyOf_eq ht hi, hkey]
  rfl

end Batch

section Alter
variable {t t' : Table}
variable {columns : List ColumnSchema} {idx : Nat} {name : String} {newCol : ColumnSchema}
variable {value value' : Value} {rows : List Row} {row : Row}

theorem keyIndex_congr {columns' : List ColumnSchema}
    (h : columns.map ColumnSchema.name = columns'.map ColumnSchema.name)
    (primaryKey : Option String) :
    (TableSchema.mk columns primaryKey).keyIndex = (TableSchema.mk columns' primaryKey).keyIndex := by
  have hmap : ∀ (cs : List ColumnSchema) (pk : String), cs.findIdx? (fun c => c.name = pk) =
      (cs.map ColumnSchema.name).findIdx? (fun name => name = pk) := by
    intro cs pk
    rw [findIdx?_map]
    rfl
  simp only [TableSchema.keyIndex, hmap, h]

theorem findIdx?_name (h : columns.findIdx? (fun c => c.name = name) = some idx) :
    ∃ c, columns[idx]? = some c ∧ c.name = name := by
  obtain ⟨hlt, hname, -⟩ := findIdx?_eq_some_iff_getElem.mp h
  exact ⟨_, getElem?_eq_getElem hlt, of_decide_eq_true hname⟩

theorem set_names (h : columns.findIdx? (fun c => c.name = newCol.name) = some idx) :
    (columns.set idx newCol).map ColumnSchema.name = columns.map ColumnSchema.name := by
  obtain ⟨c, hc, hname⟩ := findIdx?_name h
  refine map_set_of_eq fun d hd => ?_
  cases hc.symm.trans hd
  exact hname.symm

theorem retypeValue_null {newType : ColumnType} {columnName : String}
    (h : retypeValue value newType columnName = .ok value') : value' = .null ↔ value = .null := by
  unfold retypeValue at h
  split at h
  case h_8 =>
    obtain ⟨p, -, h⟩ := bind_eq_ok.mp h
    obtain ⟨u, -, rfl⟩ := map_eq_ok.mp h
    simp
  case h_4 | h_7 | h_9 | h_10 | h_11 =>
    obtain ⟨u, -, rfl⟩ := map_eq_ok.mp h
    simp
  all_goals simp at h
  all_goals simp [← h]

def Table.keyValues (t : Table) : List Value :=
  match t.schema.keyIndex with
  | some i => t.rows.filterMap fun row => row[i]?
  | none => []

def RetypedApart (column : ColumnSchema) (v w : Value) : Prop :=
  ∀ v' ∈ (retypeValue v column.columnType column.name).toOption,
    retypeValue w column.columnType column.name ≠ .ok v'
  deriving Decidable

def KeysStayApart (t : Table) (newCol : ColumnSchema) : Prop :=
  t.schema.primaryKey = some newCol.name → t.keyValues.Pairwise (RetypedApart newCol)

theorem keyExact_of_unkeyed
    (hfold : rows.foldlM Table.pushTrusted (Table.new columns none) = .ok t') : t'.KeyExact :=
  Table.keyExact_of_fill (by simp) (by simp [TableSchema.keyIndex]) (by simp [TableSchema.keyIndex])
    hfold

theorem Table.KeyExact.refill {primaryKey : Option String} {i j : Nat} (ht : t.KeyExact)
    (hi : t.schema.keyIndex = some i) (hj : (TableSchema.mk columns primaryKey).keyIndex = some j)
    (hcells : rows.map (fun row => row[j]?) = t.rows.map fun row => row[i]?)
    (hfold : rows.foldlM Table.pushTrusted (Table.new columns primaryKey) = .ok t') :
    t'.KeyExact := by
  refine Table.keyExact_of_fill (fun _ => by rw [hj]; rfl) ?_ ?_ hfold
  · rw [hj]
    rintro _ ⟨⟩ row hrow hnull
    have hmem : some Value.null ∈ t.rows.map fun row => row[i]? := by
      rw [← hcells, ← hnull]
      exact mem_map_of_mem hrow
    obtain ⟨row', hrow', hkey⟩ := mem_map.mp hmem
    obtain ⟨key, hkey', hne⟩ := ht.cells i hi row' hrow'
    rw [hkey, Option.some.injEq] at hkey'
    exact hne hkey'.symm
  · rw [hj]
    rintro _ ⟨⟩
    rw [hcells]
    exact ht.distinct i hi

theorem keyExact_addColumn {column : ColumnSchema} {isPrimaryKey : Bool} (hwf : t.Wf)
    (ht : t.KeyExact) (h : addColumn t column isPrimaryKey = .ok t') : t'.KeyExact := by
  obtain ⟨-, hrows, -, hfold⟩ := addColumn_eq_ok h
  cases isPrimaryKey with
  | true =>
    have hempty : t.rows = [] := by simpa using hrows
    rw [hempty] at hfold
    refine Table.keyExact_of_fill (fun _ => ?_) (by simp) (by simp) hfold
    simp [TableSchema.keyIndex]
  | false =>
    rw [if_neg Bool.false_ne_true] at hfold
    cases hpk : t.schema.primaryKey with
    | none =>
      rw [hpk] at hfold
      exact keyExact_of_unkeyed hfold
    | some pk =>
      obtain ⟨i, hi⟩ := Option.isSome_iff_exists.mp (ht.defined (by simp [hpk]))
      refine ht.refill hi (j := i) ?_ ?_ hfold
      · simp only [TableSchema.keyIndex, hpk, Option.bind_some] at hi ⊢
        rw [findIdx?_append, hi]
        rfl
      · rw [map_map]
        refine map_congr_left fun row hrow => ?_
        exact getElem?_append_left (by rw [hwf.width row hrow]; exact Table.keyIndex_lt hi)

theorem keyExact_dropColumn (hwf : t.Wf) (ht : t.KeyExact) (h : dropColumn t name = .ok t') :
    t'.KeyExact := by
  obtain ⟨idx, hidx, -, hfold⟩ := dropColumn_eq_ok h
  cases hpk : t.schema.primaryKey.filter fun pk => pk ≠ name with
  | none =>
    rw [hpk] at hfold
    exact keyExact_of_unkeyed hfold
  | some pk =>
    rw [hpk] at hfold
    obtain ⟨hpk, hne⟩ := Option.filter_eq_some_iff.mp hpk
    have hne : pk ≠ name := by simpa using hne
    obtain ⟨i, hi⟩ := Option.isSome_iff_exists.mp (ht.defined (by simp [hpk]))
    have hfind : t.schema.columns.findIdx? (fun c => c.name = pk) = some i := by
      simpa [TableSchema.keyIndex, hpk] using hi
    have hother : ∀ c, t.schema.columns[idx]? = some c → decide (c.name = pk) = false := by
      intro c hc
      obtain ⟨d, hd, hname⟩ := findIdx?_name hidx
      cases hc.symm.trans hd
      simpa [hname] using Ne.symm hne
    obtain ⟨j, hj, -⟩ := findIdx?_eraseIdx (Eq.refl t.schema.columns.length) hfind hother
    have hindex : (TableSchema.mk (t.schema.columns.eraseIdx idx) (some pk)).keyIndex = some j := hj
    refine ht.refill hi hindex ?_ hfold
    rw [map_map]
    refine map_congr_left fun row hrow => ?_
    obtain ⟨j', hj', hcell⟩ := findIdx?_eraseIdx (hwf.width row hrow) hfind hother
    cases hj.symm.trans hj'
    exact hcell

theorem set_cell (h : row[idx]? = some value) : (row.set idx value')[idx]? = some value' := by
  obtain ⟨hlt, -⟩ := List.getElem?_eq_some_iff.mp h
  exact getElem?_set_self hlt

/-- Converting the key column keeps the index exact as long as keys stay apart. -/
theorem keyExact_modifyColumn (ht : t.KeyExact) (hapart : KeysStayApart t newCol)
    (h : modifyColumn t newCol = .ok t') : t'.KeyExact := by
  obtain ⟨idx, rows', hidx, -, hrows', hfold⟩ := modifyColumn_eq_ok h
  cases hpk : t.schema.primaryKey with
  | none =>
    rw [hpk] at hfold
    exact keyExact_of_unkeyed hfold
  | some pk =>
    obtain ⟨i, hi⟩ := Option.isSome_iff_exists.mp (ht.defined (by simp [hpk]))
    have hindex : (TableSchema.mk (t.schema.columns.set idx newCol) t.schema.primaryKey).keyIndex =
        some i := (keyIndex_congr (set_names hidx) _).trans hi
    by_cases hname : pk = newCol.name
    · subst hname
      have hsame : idx = i := by
        simp only [TableSchema.keyIndex, hpk, Option.bind_some] at hi
        exact Option.some.inj (hidx.symm.trans hi)
      subst hsame
      refine Table.keyExact_of_fill (fun _ => by rw [hindex]; rfl) ?_ ?_ hfold
      · rw [hindex]
        rintro _ ⟨⟩ row' hrow' hnull
        obtain ⟨row, hrow, hmodify⟩ := forall₂_mem_right hrows' hrow'
        obtain ⟨value, value', hvalue, hretype, -, rfl⟩ := modifyRow_eq_ok hmodify
        obtain ⟨key, hkey, hne⟩ := ht.cells idx hi row hrow
        rw [set_cell hvalue, Option.some.injEq] at hnull
        rw [hvalue, Option.some.injEq] at hkey
        exact hne (hkey ▸ (retypeValue_null hretype).mp hnull)
      · rw [hindex]
        rintro _ ⟨⟩
        have hapart := hapart hpk
        simp only [Table.keyValues, hi, pairwise_filterMap] at hapart
        rw [nodup_iff_pairwise_ne, pairwise_map]
        refine forall₂_pairwise (fun row row' other other' hrow hother hne heq => ?_) hrows' hapart
        obtain ⟨v, v', hv, hretype, -, rfl⟩ := modifyRow_eq_ok hrow
        obtain ⟨w, w', hw, hretype', -, rfl⟩ := modifyRow_eq_ok hother
        rw [set_cell hv, set_cell hw, Option.some.injEq] at heq
        exact hne v hv w hw v' (mem_toOption.mpr hretype) (heq ▸ hretype')
    · refine ht.refill hi hindex ?_ hfold
      have hne : idx ≠ i := by
        rintro rfl
        obtain ⟨c, hc, hcname⟩ := findIdx?_name hidx
        simp only [TableSchema.keyIndex, hpk, Option.bind_some] at hi
        obtain ⟨d, hd, hdname⟩ := findIdx?_name hi
        cases hc.symm.trans hd
        exact hname (hdname.symm.trans hcname)
      refine (forall₂_map_eq hrows' fun row row' hrow => ?_).symm
      obtain ⟨v, v', -, -, -, rfl⟩ := modifyRow_eq_ok hrow
      exact (getElem?_set_ne hne).symm

theorem keyExact_addPrimaryKey (h : addPrimaryKey t name = .ok t') : t'.KeyExact := by
  obtain ⟨idx, hidx, -, hcells, hnodup, hfold⟩ := addPrimaryKey_eq_ok h
  have hindex : (TableSchema.mk (t.schema.columns.modify idx fun c => { c with nullable := false })
      (some name)).keyIndex = some idx := by
    rw [keyIndex_congr (map_modify_of_eq (by simp) _ _)]
    exact hidx
  refine Table.keyExact_of_fill (fun _ => by rw [hindex]; rfl) ?_ ?_ hfold
  · rw [hindex]
    rintro _ ⟨⟩ row hrow hnull
    obtain ⟨key, hkey, hne⟩ := hcells row hrow
    rw [hkey, Option.some.injEq] at hnull
    exact hne hnull
  · rw [hindex]
    rintro _ ⟨⟩
    exact hnodup

theorem keyExact_dropPrimaryKey (h : dropPrimaryKey t = .ok t') : t'.KeyExact :=
  keyExact_of_unkeyed (dropPrimaryKey_eq_ok h)

def SchemaChange.KeysApart (t : Table) : SchemaChange → Prop
  | .modifyColumn newCol => KeysStayApart t newCol
  | _ => True

instance (t : Table) (change : SchemaChange) : Decidable (change.KeysApart t) := by
  unfold SchemaChange.KeysApart KeysStayApart
  split <;> infer_instance

/-- Altering keeps the index exact unless a redefined key column merges keys. -/
theorem computeAlteredTable_keyExact {change : SchemaChange} (hwf : t.Wf) (ht : t.KeyExact)
    (hapart : change.KeysApart t) (h : computeAlteredTable t change = .ok t') : t'.KeyExact := by
  cases change with
  | addColumn column isPrimaryKey => exact keyExact_addColumn hwf ht h
  | dropColumn name => exact keyExact_dropColumn hwf ht h
  | modifyColumn newCol => exact keyExact_modifyColumn ht hapart h
  | addPrimaryKey name => exact keyExact_addPrimaryKey h
  | dropPrimaryKey => exact keyExact_dropPrimaryKey h

end Alter

end MysqlRust
