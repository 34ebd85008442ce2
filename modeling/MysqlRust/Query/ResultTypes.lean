import MysqlRust.Query.Joins
import MysqlRust.Query.ResultColumns
import MysqlRust.Query.Show

/-! # Types of a result

A query of typed tables has a typed result: each cell is `NULL` or of the type its column
announces. The values of `SHOW VARIABLES` are the exception; their column is a text column.
-/
namespace MysqlRust
open Relations Outcome Proc List

def FitColumns (columns : List ColumnSchema) (row : Row) : Prop :=
  Forall₂ (fun (column : ColumnSchema) v => v ∈ column.columnType.values) columns row

def QueryResult.Typed (result : QueryResult) : Prop :=
  ∀ row ∈ result.rows, FitColumns result.columns row

theorem fitColumns_nulls (columns : List ColumnSchema) :
    FitColumns columns (replicate columns.length .null) := by
  induction columns with
  | nil => exact .nil
  | cons column columns ih => exact .cons (.inl rfl) ih

theorem RowTyped.fitColumns {schema : TableSchema} {row : Row} (h : RowTyped schema row) :
    FitColumns schema.columns row :=
  h.flip.imp fun _ _ hcell => hcell.imp_left And.left

section
variable {σ : Type} {storage : Storage (Proc σ Error)} {state : σ} {tables : Tables}
variable {scope : Scope} {rows : List Row} {selection : Option Condition}
variable {fromClause : FromClause}

def Tables.Typed (tables : Tables) : Prop :=
  ∀ name schema rows, tables name = some (schema, rows) → ∀ row ∈ rows, FitColumns schema.columns row

theorem Tables.Typed.shaped (h : tables.Typed) : tables.Shaped :=
  fun name schema rows htable row hrow => (h name schema rows htable row hrow).length_eq.symm

structure Reads (storage : Storage (Proc σ Error)) (state : σ) (tables : Tables) : Prop
    extends Views storage state tables where
  scanFiltered : ∀ name filter rows,
    (storage.scanFiltered name filter state).1 = .ok rows → ∃ p ∈ tables name, rows ⊆ p.2
  lookupByPrimaryKey : ∀ name key row,
    (storage.lookupByPrimaryKey name key state).1 = .ok (some row) → ∃ p ∈ tables name, row ∈ p.2

section BackEnds
variable {store : Store} {name : String} {key : Value} {row : Row}

theorem Store.mem_scanFiltered {filter : Row → Result Bool} {rows : List Row}
    (h : store.scanFiltered name filter = .ok rows) :
    ∃ t, store.tables.lookup name = some t ∧ rows ⊆ t.rows := by
  obtain ⟨t, ht, hrows⟩ := bind_eq_ok.mp h
  exact ⟨t, okOr_eq_ok.mp ht, mem_of_filterRows hrows⟩

theorem Store.mem_lookupByPrimaryKey (h : store.lookupByPrimaryKey name key = .ok (some row)) :
    ∃ t, store.tables.lookup name = some t ∧ row ∈ t.rows := by
  obtain ⟨t, ht, hrow⟩ := bind_eq_ok.mp h
  refine ⟨t, okOr_eq_ok.mp ht, ?_⟩
  split at hrow
  · obtain ⟨row', hindex, heq⟩ := map_eq_ok.mp hrow
    cases heq
    exact mem_of_getElem? (index_eq_ok.mp hindex)
  · cases hrow

theorem Transaction.mem_findKey {pkIdx : Nat} {rows : List Row}
    (h : findKey pkIdx key rows = .ok (some row)) : row ∈ rows := by
  induction rows with
  | nil => cases h
  | cons first rows ih =>
    obtain ⟨cell, -, h⟩ := bind_eq_ok.mp h
    split at h
    · cases h
      exact mem_cons_self
    · exact mem_cons_of_mem first (ih h)

theorem Store.reads_inMemory (store : Store) (append : Option Error) :
    Reads (inMemoryStorage append) store store.views where
  toViews := store.views_inMemory append
  scanFiltered name filter rows h := by
    obtain ⟨t, ht, hrows⟩ := Store.mem_scanFiltered h
    exact ⟨(t.schema, t.rows), by rw [views, ht]; rfl, hrows⟩
  lookupByPrimaryKey name key row h := by
    obtain ⟨t, ht, hrow⟩ := Store.mem_lookupByPrimaryKey h
    exact ⟨(t.schema, t.rows), by rw [views, ht]; rfl, hrow⟩

theorem Transaction.View.reads_transaction (v : Transaction.View) (append : Option Error) :
    Reads (Transaction.storage append) v v.views where
  toViews := v.views_transaction append
  scanFiltered name filter rows h := by
    obtain ⟨committed, hcommitted, h⟩ := bind_eq_ok.mp h
    obtain ⟨pending, hpending, h⟩ := bind_eq_ok.mp h
    cases h
    obtain ⟨t, ht, hrows⟩ := Store.mem_scanFiltered hcommitted
    refine ⟨(t.schema, t.rows ++ v.tx.rows name), by rw [views, ht]; rfl, ?_⟩
    exact append_subset.mpr ⟨subset_append_of_subset_left _ hrows,
      subset_append_of_subset_right _ (mem_of_filterRows hpending)⟩
  lookupByPrimaryKey name key row h := by
    obtain ⟨found, hfound, h⟩ := bind_eq_ok.mp h
    cases found with
    | some row' =>
      cases h
      obtain ⟨t, ht, hrow⟩ := Store.mem_lookupByPrimaryKey hfound
      exact ⟨(t.schema, t.rows ++ v.tx.rows name), by rw [views, ht]; rfl, mem_append_left _ hrow⟩
    | none =>
      obtain ⟨schema, hschema, h⟩ := bind_eq_ok.mp h
      obtain ⟨t, ht, -⟩ := map_eq_ok.mp hschema
      refine ⟨(t.schema, t.rows ++ v.tx.rows name), by rw [views, okOr_eq_ok.mp ht]; rfl, ?_⟩
      unfold lookupPending at h
      split at h
      · exact mem_append_right _ (mem_findKey h)
      · cases h

end BackEnds

theorem nestedLoop_typed {columns : List ColumnSchema} {left right : Nat}
    {leftRows rightRows : List Row} {joinType : JoinType} (qualifier : String)
    (hleft : RowsTyped scope leftRows) (hright : ∀ row ∈ rightRows, FitColumns columns row) :
    RowsTyped (scope.pushTable qualifier columns)
      (nestedLoop (fun l r => CellsMatch left right l r) (· ++ ·)
        (unmatchedRow columns.length joinType) leftRows rightRows) := by
  intro row hrow
  obtain ⟨leftRow, hmem, hrow⟩ := mem_flatMap.mp hrow
  rcases mem_matched hrow with hrow | ⟨rightRow, hmem', rfl⟩
  · unfold unmatchedRow at hrow
    split_ifs at hrow
    · rw [mem_singleton.mp hrow]
      exact rel_append (hleft leftRow hmem) (fitColumns_nulls columns)
    · cases hrow
  · exact rel_append (hleft leftRow hmem) (hright rightRow hmem')

theorem nestedLoopTable_typed (htyped : tables.Typed) {acc acc' : Scope × List Row}
    {join : JoinClause} (h : RowsTyped acc.1 acc.2)
    (hjoin : nestedLoopTable tables acc join = .ok acc') : RowsTyped acc'.1 acc'.2 := by
  obtain ⟨⟨schema, rows⟩, htable, hjoin⟩ := bind_eq_ok.mp hjoin
  obtain ⟨⟨left, right⟩, -, hjoin⟩ := bind_eq_ok.mp hjoin
  cases hjoin
  exact nestedLoop_typed join.table.qualifier h (htyped _ _ _ (okOr_eq_ok.mp htable))

theorem nestedLoopJoins_typed (htyped : tables.Typed)
    (h : nestedLoopJoins tables fromClause = .ok (scope, rows)) : RowsTyped scope rows := by
  obtain ⟨⟨schema, rows'⟩, htable, h⟩ := bind_eq_ok.mp h
  have hstart : RowsTyped (.single fromClause.table.qualifier schema.columns) rows' :=
    htyped _ _ _ (okOr_eq_ok.mp htable)
  exact foldlM_invariant (P := fun acc : Scope × List Row => RowsTyped acc.1 acc.2)
    (fun acc join acc' hacc hjoin => nestedLoopTable_typed htyped hacc hjoin) hstart h

theorem applyWhere_subset {kept : List Row} (h : applyWhere rows scope selection = .ok kept) :
    kept ⊆ rows := by
  cases selection with
  | none =>
    cases h
    exact Subset.refl _
  | some cond =>
    obtain ⟨idx, -, h⟩ := bind_eq_ok.mp h
    obtain ⟨column, -, h⟩ := bind_eq_ok.mp h
    obtain ⟨expected, -, h⟩ := bind_eq_ok.mp h
    exact mem_of_filterRows h

theorem scanAndFilter_subset (hreads : Reads storage state tables) {name qualifier : String}
    {schema schema' : TableSchema} {all : List Row} (htable : tables name = some (schema', all))
    (h : (scanAndFilter storage name qualifier schema selection state).1 = .ok rows) :
    rows ⊆ all := by
  cases selection with
  | none =>
    change (storage.scan name state).1 = .ok rows at h
    rw [hreads.scan, htable] at h
    cases h
    exact Subset.refl _
  | some cond =>
    obtain ⟨colIdx, s₁, hidx, h⟩ := bind_eq_ok (Prod.ext h rfl)
    cases congrArg Prod.snd hidx
    obtain ⟨column, s₂, hcolumn, h⟩ := bind_eq_ok h
    cases congrArg Prod.snd hcolumn
    obtain ⟨expected, s₃, hexpected, h⟩ := bind_eq_ok h
    cases congrArg Prod.snd hexpected
    split at h
    · obtain ⟨found, s₄, hfound, h⟩ := bind_eq_ok h
      cases h
      intro row hrow
      rw [Option.mem_toList] at hrow
      cases hrow
      obtain ⟨p, hp, hmem⟩ := hreads.lookupByPrimaryKey name expected row (congrArg Prod.fst hfound)
      cases htable.symm.trans hp
      exact hmem
    · obtain ⟨p, hp, hsub⟩ := hreads.scanFiltered name _ rows (congrArg Prod.fst h)
      cases htable.symm.trans hp
      exact hsub

theorem resolveFrom_typed (hreads : Reads storage state tables) (htyped : tables.Typed)
    (h : (resolveFrom storage fromClause selection state).1 = .ok (scope, rows)) :
    RowsTyped scope rows := by
  unfold resolveFrom at h
  split_ifs at h
  · obtain ⟨schema, s₁, hschema, h⟩ := bind_eq_ok (Prod.ext h rfl)
    rw [hreads.tableSchema] at hschema
    cases congrArg Prod.snd hschema
    obtain ⟨⟨schema', all⟩, htable, rfl⟩ := map_eq_ok.mp (congrArg Prod.fst hschema)
    obtain ⟨rows', s₂, hrows, h⟩ := bind_eq_ok h
    cases h
    have htable := okOr_eq_ok.mp htable
    have hsub := scanAndFilter_subset hreads htable (congrArg Prod.fst hrows)
    exact fun row hrow => htyped _ _ _ htable row (hsub hrow)
  · obtain ⟨⟨scope', all⟩, s₁, hjoins, h⟩ := bind_eq_ok (Prod.ext h rfl)
    rw [resolveJoins_eq hreads.toViews htyped.shaped] at hjoins
    obtain ⟨kept, s₂, hkept, h⟩ := bind_eq_ok h
    cases h
    have hall := nestedLoopJoins_typed htyped (congrArg Prod.fst hjoins)
    have hsub := applyWhere_subset (congrArg Prod.fst hkept)
    exact fun row hrow => hall row (hsub hrow)

variable {lib : Unspecified} {projection : List SelectItem} {groupBy : List ColumnRef}
  {orderBy : List OrderByItem} {limit offset : Option UInt64} {result : QueryResult}
variable {vars : SystemVariables}
variable {p : String × Value}

theorem executeProjected_typed (htyped : RowsTyped scope rows)
    (h : executeProjected lib scope rows projection orderBy limit offset = .ok result) :
    result.Typed := by
  obtain ⟨indices, -, hcolumns, hrows⟩ := executeProjected_eq_ok h
  intro row hrow
  obtain ⟨origin, horigin, hcells⟩ := hrows row hrow
  refine Lists.forall₂_comp (fun column i v hcolumn hv => ?_) hcolumns.flip hcells
  obtain ⟨w, hw, hvalue⟩ := htyped.cells hcolumn origin horigin
  cases hv.symm.trans hw
  exact hvalue

theorem executeAggregate_typed (htyped : RowsTyped scope rows)
    (h : executeAggregate lib scope rows projection groupBy orderBy limit offset = .ok result) :
    result.Typed := by
  obtain ⟨indices, resolved, groups, output, sortKeys, run⟩ := executeAggregate_eq_ok.mp h
  intro row hrow
  obtain ⟨key, hkey, hcells⟩ := Lists.forall₂_mem_right (mapM_eq_ok.mp run.produced)
    (mem_of_sortAndPaginate run.paged hrow)
  have hmem := (sortedKeys_perm lib groups).mem_iff.mp hkey
  have hoccurs := ((groupRows_spec run.collected).2.1 key).mp hmem
  rw [groupRow, rowsOf_eq run.collected hmem] at hcells
  rw [FitColumns, run.columns, forall₂_map_left_iff]
  have hresolved := (forall₂_and_left _ _).mpr
    ⟨fun p hp => Lists.forall₂_mem_right (mapM_eq_ok.mp run.resolution) hp, mapM_eq_ok.mp hcells⟩
  refine hresolved.imp fun p v hp => ?_
  obtain ⟨⟨item, -, hitem⟩, hv⟩ := hp
  exact value_typed htyped hitem hoccurs hv

theorem Value.mem_columnType_values {v : Value} (h : ∀ s, v ≠ .date s) :
    v ∈ v.columnType.values := by
  cases v with
  | int n => exact .inr trivial
  | varchar s => exact .inr trivial
  | decimal unscaled scale => exact .inr rfl
  | date s => exact absurd rfl (h s)
  | null => exact .inl rfl

theorem knownVariables_value (h : p ∈ knownVariables vars) :
    (∃ n, p.2 = .int n) ∨ p.2 ∈ ColumnType.varchar.values := by
  revert p
  simp [knownVariables, ColumnType.values, Value.HasType]

theorem systemVariable_ne_date (vars : SystemVariables) (name s : String) :
    systemVariable vars name ≠ .date s := by
  unfold systemVariable
  dsimp only
  generalize hfound : (knownVariables vars).find? _ = found
  cases found with
  | none => exact nofun
  | some p =>
    intro hdate
    have hvalue := knownVariables_value (mem_of_find?_eq_some hfound)
    rw [show p.2 = .date s from hdate] at hvalue
    simp [ColumnType.values, Value.HasType] at hvalue

theorem evaluateFunction_ne_date (vars : SystemVariables) (name s : String) :
    evaluateFunction vars name ≠ .date s := by
  unfold evaluateFunction
  split <;> exact nofun

theorem constantItem_ne_date {expr : Expr} (h : constantItem vars expr = .ok p) :
    ∀ s, p.2 ≠ .date s := by
  unfold constantItem at h
  split at h
  all_goals cases h
  · exact nofun
  · exact nofun
  · exact nofun
  · exact nofun
  · exact systemVariable_ne_date vars _
  · exact evaluateFunction_ne_date vars _

theorem executeSelectWithoutTable_typed
    (h : executeSelectWithoutTable vars projection limit offset = .ok result) : result.Typed := by
  obtain ⟨items, hitems, h⟩ := bind_eq_ok.mp h
  have hcells : ∀ p ∈ items, p.2 ∈ p.1.columnType.values := by
    intro p hp
    obtain ⟨item, -, hitem⟩ := Lists.forall₂_mem_right (mapM_eq_ok.mp hitems) hp
    cases item with
    | wildcard => cases hitem
    | expr expr asAlias =>
      obtain ⟨named, hnamed, hitem⟩ := bind_eq_ok.mp hitem
      cases hitem
      exact Value.mem_columnType_values (constantItem_ne_date hnamed)
  cases h
  intro row hrow
  have hrow : row = items.map Prod.snd := by
    dsimp only at hrow
    split_ifs at hrow
    · cases hrow
    · exact mem_singleton.mp hrow
  rw [hrow, FitColumns, forall₂_map_left_iff, forall₂_map_right_iff, forall₂_same]
  exact hcells

theorem executeSelect_typed {σ : Type} {storage : Storage (Proc σ Error)} {state : σ}
    {tables : Tables} (hreads : Reads storage state tables) (htyped : tables.Typed)
    {ex : Executor} {query : Select} (h : (executeSelect ex storage query state).1 = .ok result) :
    result.Typed := by
  unfold executeSelect at h
  cases hfrom : query.fromClause with
  | none =>
    rw [hfrom] at h
    exact executeSelectWithoutTable_typed h
  | some fromClause =>
    rw [hfrom] at h
    obtain ⟨⟨scope, rows⟩, s', hsource, h⟩ := bind_eq_ok (Prod.ext h rfl)
    have hrows := resolveFrom_typed hreads htyped (congrArg Prod.fst hsource)
    dsimp only at h
    split_ifs at h
    · exact executeAggregate_typed hrows (congrArg Prod.fst h)
    · exact executeProjected_typed hrows (congrArg Prod.fst h)

variable {like : Option String}

def ShowStatement.ShowsInteger (vars : SystemVariables) : ShowStatement → Prop
  | .variables like => ∃ p ∈ knownVariables vars,
    (like.all fun pattern => likeMatches pattern p.1) = true ∧ ∃ n, p.2 = .int n
  | _ => False

theorem namesResult_typed (column : String) (names : Finset String) :
    (namesResult column names).Typed := by
  intro row hrow
  obtain ⟨name, -, rfl⟩ := mem_map.mp hrow
  exact .cons (.inr trivial) .nil

theorem mem_variables {databases tables : Finset String} {row : Row} :
    row ∈ (executeShow vars databases tables (.variables like)).rows ↔
      ∃ p ∈ knownVariables vars, (like.all fun pattern => likeMatches pattern p.1) = true ∧
        [.varchar p.1, p.2] = row := by
  simp only [executeShow, mem_map, mem_filter, and_assoc]

theorem variables_typed (databases tables : Finset String)
    (h : ¬ (ShowStatement.variables like).ShowsInteger vars) :
    (executeShow vars databases tables (.variables like)).Typed := by
  intro row hrow
  obtain ⟨p, hp, hlike, rfl⟩ := mem_variables.mp hrow
  have hvalue := (knownVariables_value hp).resolve_left fun hint => h ⟨p, hp, hlike, hint⟩
  exact .cons (.inr trivial) (.cons hvalue .nil)

theorem executeShow_typed {what : ShowStatement} (databases tables : Finset String)
    (h : ¬ what.ShowsInteger vars) : (executeShow vars databases tables what).Typed := by
  match what, h with
  | .databases, _ => exact namesResult_typed _ _
  | .tables, _ => exact namesResult_typed _ _
  | .characterSet, _ =>
    intro row hrow
    rw [mem_singleton.mp hrow]
    exact .cons (.inr trivial) (.cons (.inr trivial) (.cons (.inr trivial)
      (.cons (.inr trivial) .nil)))
  | .collation, _ =>
    intro row hrow
    rw [mem_singleton.mp hrow]
    exact .cons (.inr trivial) (.cons (.inr trivial) (.cons (.inr trivial)
      (.cons (.inr trivial) (.cons (.inr trivial) (.cons (.inr trivial) .nil)))))
  | .warnings, _ => exact nofun
  | .other, _ => exact nofun
  | .variables like, h => exact variables_typed databases tables h

end

end MysqlRust
