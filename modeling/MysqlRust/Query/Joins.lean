import MysqlRust.Foundation.Relations
import MysqlRust.Query.Widths

/-! # Joins

Tables are joined one after another by an index on the column of the `ON`. The rows are those
of the join by nested loops, in the same order.
-/
namespace MysqlRust
open Relations Outcome Proc List

section
variable {leftIdx rightIdx : Nat} {leftRows rightRows : List Row} {width : Nat}
  {joinType : JoinType}
variable {index : Finmap fun _ : Value => List Nat} {v : Value} {left : Row}

def CellsMatch (leftIdx rightIdx : Nat) (left right : Row) : Prop :=
  ∃ v ∈ left[leftIdx]?, v ≠ .null ∧ right[rightIdx]? = some v

instance (leftIdx rightIdx : Nat) (left right : Row) :
    Decidable (CellsMatch leftIdx rightIdx left right) := by
  unfold CellsMatch
  infer_instance

def unmatchedRow (width : Nat) (joinType : JoinType) (left : Row) : List Row :=
  if joinType = .left then [left ++ List.replicate width .null] else []

def joinItems (rightIdx : Nat) (rows : List (Row × Nat)) : List (Value × Nat) :=
  rows.filterMap fun p => (p.1[rightIdx]?.filter (· ≠ .null)).map (·, p.2)

def joinStep (rightIdx : Nat) (index : Finmap fun _ : Value => List Nat) (p : Row × Nat) :
    Result (Finmap fun _ : Value => List Nat) := do
  let cell ← Outcome.index p.1 rightIdx
  pure (if cell = .null then index
    else index.insert cell ((index.lookup cell).getD [] ++ [p.2]))

theorem joinIndex_eq_foldlM (rightIdx : Nat) (rightRows : List Row) :
    joinIndex rightIdx rightRows = rightRows.zipIdx.foldlM (joinStep rightIdx) ∅ := rfl

theorem foldlM_joinStep {rows : List (Row × Nat)}
    (hcells : ∀ p ∈ rows, ∃ v, p.1[rightIdx]? = some v) {items : List (Value × Nat)}
    (hindex : Indexes index items) :
    ∃ index', rows.foldlM (joinStep rightIdx) index = .ok index' ∧
      Indexes index' (items ++ joinItems rightIdx rows) := by
  induction rows generalizing index items with
  | nil => exact ⟨index, rfl, by rwa [joinItems, filterMap_nil, append_nil]⟩
  | cons p rows ih =>
    obtain ⟨v, hv⟩ := hcells p mem_cons_self
    have hrest := fun q hq => hcells q (mem_cons_of_mem p hq)
    have hstep : joinStep rightIdx index p = .ok (if v = .null then index
        else index.insert v ((index.lookup v).getD [] ++ [p.2])) := by
      rw [joinStep, index_eq_ok.mpr hv]
      rfl
    rw [foldlM_cons, hstep, ok_bind]
    by_cases hnull : v = .null
    · have hitems : joinItems rightIdx (p :: rows) = joinItems rightIdx rows :=
        filterMap_cons_none (by simp [hv, hnull])
      rw [if_pos hnull, hitems]
      exact ih hrest hindex
    · have hitems : joinItems rightIdx (p :: rows) = (v, p.2) :: joinItems rightIdx rows :=
        filterMap_cons_some (by simp [hv, hnull])
      obtain ⟨index', hfold, hindex'⟩ := ih hrest (hindex.insert v p.2)
      rw [append_assoc] at hindex'
      rw [if_neg hnull, hitems]
      exact ⟨index', hfold, hindex'⟩

theorem joinIndex_indexes (hright : ∀ row ∈ rightRows, rightIdx < row.length) :
    ∃ index, joinIndex rightIdx rightRows = .ok index ∧
      Indexes index (joinItems rightIdx rightRows.zipIdx) := by
  rw [joinIndex_eq_foldlM]
  refine foldlM_joinStep (fun p hp => ?_) indexes_empty
  have hlt := hright p.1 (fst_mem_of_mem_zipIdx hp)
  exact ⟨_, getElem?_eq_getElem hlt⟩

theorem bucket_joinItems (hv : v ≠ .null) (rows : List (Row × Nat)) :
    bucket (joinItems rightIdx rows) v =
      (rows.filter fun p => p.1[rightIdx]? = some v).map Prod.snd := by
  induction rows with
  | nil => rfl
  | cons p rows ih =>
    rw [filter_cons]
    cases hcell : p.1[rightIdx]? with
    | none =>
      have hitems : joinItems rightIdx (p :: rows) = joinItems rightIdx rows :=
        filterMap_cons_none (by simp [hcell])
      simpa [hitems] using ih
    | some w =>
      by_cases hnull : w = .null
      · have hitems : joinItems rightIdx (p :: rows) = joinItems rightIdx rows :=
          filterMap_cons_none (by simp [hcell, hnull])
        have hne : w ≠ v := fun heq => hv (heq ▸ hnull)
        simpa [hitems, hne] using ih
      · have hitems : joinItems rightIdx (p :: rows) = (w, p.2) :: joinItems rightIdx rows :=
          filterMap_cons_some (by simp [hcell, hnull])
        rw [bucket] at ih ⊢
        by_cases heq : w = v <;> simp [hitems, heq, ih]

theorem filter_cellsMatch (hv : v ≠ .null) (hleft : left[leftIdx]? = some v) (rightIdx : Nat)
    (rightRows : List Row) :
    (rightRows.filter fun right => CellsMatch leftIdx rightIdx left right) =
      (rightRows.zipIdx.filter fun p => p.1[rightIdx]? = some v).map Prod.fst := by
  have hcells : ∀ right : Row, CellsMatch leftIdx rightIdx left right ↔ right[rightIdx]? = some v := by
    intro right
    rw [CellsMatch, hleft]
    simp [hv]
  have hfst : rightRows = rightRows.zipIdx.map Prod.fst := (zipIdx_map_fst 0 rightRows).symm
  simp only [hcells]
  conv_lhs => rw [hfst]
  rw [filter_map]
  rfl

/-- A row is joined with its matches in the order of the right table. -/
theorem joinRow_eq (hindex : Indexes index (joinItems rightIdx rightRows.zipIdx))
    (hleft : leftIdx < left.length) :
    joinRow index leftIdx rightRows width joinType left =
      .ok (matched (fun left right => CellsMatch leftIdx rightIdx left right) (· ++ ·)
        (unmatchedRow width joinType) rightRows left) := by
  have hcell : left[leftIdx]? = some left[leftIdx] := getElem?_eq_getElem hleft
  rw [joinRow, index_of_lt hleft, ok_bind]
  by_cases hnull : left[leftIdx] = .null
  · have hnone : (rightRows.filter fun right => CellsMatch leftIdx rightIdx left right) = [] := by
      refine filter_eq_nil_iff.mpr fun right _ => ?_
      simp [CellsMatch, hcell, hnull]
    rw [if_pos hnull, matched_of_nil hnone]
    rfl
  · have hfound := filter_cellsMatch hnull hcell rightIdx rightRows
    rw [if_neg hnull, hindex, bucket_joinItems hnull]
    by_cases hnil : (rightRows.zipIdx.filter fun p => p.1[rightIdx]? = some left[leftIdx]) = []
    · rw [hnil] at hfound ⊢
      rw [matched_of_nil hfound]
      rfl
    · have hpositions : ∀ p ∈ rightRows.zipIdx.filter fun p => p.1[rightIdx]? = some left[leftIdx],
          (Outcome.index rightRows p.2 : Result Row) = .ok p.1 := by
        intro p hp
        exact index_eq_ok.mpr (mem_zipIdx_iff_getElem?.mp (mem_filter.mp hp).1)
      have hrows : ((rightRows.zipIdx.filter fun p => p.1[rightIdx]? = some left[leftIdx]).map
          Prod.snd).mapM (fun i => do
            let rightRow ← Outcome.index rightRows i
            pure (left ++ rightRow)) = (.ok ((rightRows.zipIdx.filter fun p =>
              p.1[rightIdx]? = some left[leftIdx]).map fun p => left ++ p.1) : Result (List Row)) := by
        rw [mapM_map]
        refine mapM_of_ok fun p hp => ?_
        rw [Function.comp_apply, hpositions p hp]
        rfl
      rw [if_neg (by simpa using hnil), matched_of_ne_nil (by rw [hfound]; simpa using hnil), hfound,
        map_map]
      exact hrows

/-- The index finds what nested loops find, in the same order. -/
theorem hashJoin_eq_nestedLoop (hleft : ∀ row ∈ leftRows, leftIdx < row.length)
    (hright : ∀ row ∈ rightRows, rightIdx < row.length) :
    hashJoin leftRows leftIdx rightRows rightIdx width joinType =
      .ok (nestedLoop (fun left right => CellsMatch leftIdx rightIdx left right) (· ++ ·)
        (unmatchedRow width joinType) leftRows rightRows) := by
  obtain ⟨index, hjoin, hindex⟩ := joinIndex_indexes hright
  rw [hashJoin, hjoin, ok_bind,
    mapM_of_ok fun left hmem => joinRow_eq hindex (hleft left hmem), ok_bind,
    pure_eq, nestedLoop, List.flatMap]

variable {σ : Type} {storage : Storage (Proc σ Error)} {state : σ}

abbrev Tables := String → Option (TableSchema × List Row)

structure Views (storage : Storage (Proc σ Error)) (state : σ) (tables : Tables) : Prop where
  tableSchema : ∀ name, storage.tableSchema name state =
    (Prod.fst <$> okOr (tableMissing name) (tables name), state)
  scan : ∀ name, storage.scan name state =
    (Prod.snd <$> okOr (tableMissing name) (tables name), state)

def Tables.Shaped (tables : Tables) : Prop :=
  ∀ name schema rows, tables name = some (schema, rows) → HaveWidth schema.columns.length rows

/-- Joins one more table. A row of it goes with a row joined so far when their cells in the two
columns of `ON` match; `left` counts the columns joined so far, `right` those of the table. -/
def nestedLoopTable (tables : Tables) (acc : Scope × List Row) (join : JoinClause) :
    Result (Scope × List Row) := do
  let (schema, rows) ← okOr (tableMissing join.table.name) (tables join.table.name)
  let qualifier := join.table.qualifier
  let (left, right) ← joinColumns acc.1 (Scope.single qualifier schema.columns) join
  pure (acc.1.pushTable qualifier schema.columns,
    nestedLoop (fun l r => CellsMatch left right l r) (· ++ ·)
      (unmatchedRow schema.columns.length join.joinType) acc.2 rows)

def nestedLoopJoins (tables : Tables) (fromClause : FromClause) : Result (Scope × List Row) := do
  let (schema, rows) ← okOr (tableMissing fromClause.table.name) (tables fromClause.table.name)
  fromClause.joins.foldlM (nestedLoopTable tables)
    (Scope.single fromClause.table.qualifier schema.columns, rows)

variable {tables : Tables} {acc acc' : Scope × List Row} {join : JoinClause}

theorem columns_pushTable (scope : Scope) (qualifier : String) (columns : List ColumnSchema) :
    (scope.pushTable qualifier columns).columns.length = scope.columns.length + columns.length :=
  length_append

theorem nestedLoop_width {n width left right : Nat} {leftRows rightRows : List Row}
    {joinType : JoinType} (hleft : HaveWidth n leftRows) (hright : HaveWidth width rightRows) :
    HaveWidth (n + width) (nestedLoop (fun l r => CellsMatch left right l r) (· ++ ·)
      (unmatchedRow width joinType) leftRows rightRows) := by
  intro row hrow
  obtain ⟨leftRow, hmem, hrow⟩ := mem_flatMap.mp hrow
  have hwidth := hleft leftRow hmem
  rcases mem_matched hrow with hrow | ⟨rightRow, hmem', rfl⟩
  · unfold unmatchedRow at hrow
    split_ifs at hrow
    · rw [mem_singleton.mp hrow, length_append, length_replicate, hwidth]
    · cases hrow
  · rw [length_append, hwidth, hright rightRow hmem']

theorem nestedLoopTable_width (hshaped : tables.Shaped) (h : HaveWidth acc.1.columns.length acc.2)
    (hjoin : nestedLoopTable tables acc join = .ok acc') :
    HaveWidth acc'.1.columns.length acc'.2 := by
  obtain ⟨⟨schema, rows⟩, htable, hjoin⟩ := bind_eq_ok.mp hjoin
  obtain ⟨⟨left, right⟩, -, hjoin⟩ := bind_eq_ok.mp hjoin
  cases hjoin
  dsimp only
  rw [columns_pushTable]
  exact nestedLoop_width h (hshaped _ _ _ (okOr_eq_ok.mp htable))

theorem joinTable_eq (hviews : Views storage state tables) (hshaped : tables.Shaped)
    (h : HaveWidth acc.1.columns.length acc.2) :
    joinTable storage acc join state = (nestedLoopTable tables acc join, state) := by
  have hschema := hviews.tableSchema join.table.name
  have hscan := hviews.scan join.table.name
  cases htable : tables join.table.name with
  | none =>
    rw [htable] at hschema
    rw [joinTable, bind_of_read hschema (g := fun _ => .panic) (fun _ => nofun), nestedLoopTable,
      htable]
    rfl
  | some table =>
    obtain ⟨schema, rows⟩ := table
    rw [htable] at hschema hscan
    rw [joinTable, bind_ok hschema, nestedLoopTable, htable, okOr, ok_bind]
    dsimp only
    have hcolumns : (joinColumns acc.1 (Scope.single join.table.qualifier schema.columns) join).Post _ :=
      joinColumns_post join
    refine bind_of_read rfl fun p hp => ?_
    obtain ⟨left, right⟩ := p
    rw [hp] at hcolumns
    have hleft : ∀ row ∈ acc.2, left < row.length := fun row hrow => (h row hrow).symm ▸ hcolumns.1
    have hright : ∀ row ∈ rows, right < row.length := fun row hrow =>
      (hshaped _ _ _ htable row hrow).symm ▸ hcolumns.2
    dsimp only
    rw [bind_ok hscan, hashJoin_eq_nestedLoop hleft hright, liftM_eq, lift_ok_bind]
    rfl

/-- The rows of a `FROM` clause are those of the join by nested loops, and have a cell for every
column in scope. -/
theorem resolveJoins_eq (hviews : Views storage state tables) (hshaped : tables.Shaped)
    (fromClause : FromClause) :
    resolveJoins storage fromClause state = (nestedLoopJoins tables fromClause, state) := by
  have hschema := hviews.tableSchema fromClause.table.name
  have hscan := hviews.scan fromClause.table.name
  cases htable : tables fromClause.table.name with
  | none =>
    rw [htable] at hschema
    rw [resolveJoins, bind_of_read hschema (g := fun _ => .panic) (fun _ => nofun),
      nestedLoopJoins, htable]
    rfl
  | some table =>
    obtain ⟨schema, rows⟩ := table
    rw [htable] at hschema hscan
    rw [resolveJoins, bind_ok hschema, bind_ok hscan, nestedLoopJoins, htable, okOr, ok_bind]
    exact foldlM_of_read (P := fun acc : Scope × List Row =>
      HaveWidth acc.1.columns.length acc.2)
      (fun acc join hacc => joinTable_eq hviews hshaped hacc)
      (fun acc join acc' hacc hjoin => nestedLoopTable_width hshaped hacc hjoin) _
      (hshaped _ _ _ htable)

theorem nestedLoopJoins_width (hshaped : tables.Shaped) {fromClause : FromClause} {scope : Scope}
    {rows : List Row} (h : nestedLoopJoins tables fromClause = .ok (scope, rows)) :
    HaveWidth scope.columns.length rows := by
  obtain ⟨⟨schema, rows'⟩, htable, h⟩ := bind_eq_ok.mp h
  have hstart := hshaped _ _ _ (okOr_eq_ok.mp htable)
  exact foldlM_invariant (P := fun acc : Scope × List Row =>
    HaveWidth acc.1.columns.length acc.2)
    (fun acc join acc' hacc hjoin => nestedLoopTable_width hshaped hacc hjoin) hstart h

variable {scope newTableScope : Scope}

def Scope.Names (scope : Scope) (colRef : ColumnRef) : Prop :=
  match colRef.table with
  | some q => ∃ p ∈ scope.qualifiers.zip scope.columns, p.1 = q ∧ p.2.name = colRef.column
  | none => ∃ c ∈ scope.columns, c.name = colRef.column

theorem Scope.names_of_tryResolve {colRef : ColumnRef} {i : Nat}
    (h : scope.tryResolve colRef = some i) : scope.Names colRef := by
  obtain ⟨column, hcolumn, hname, htable⟩ := Scope.tryResolve_eq_some h
  unfold Scope.Names
  split
  · rename_i q hq
    exact ⟨(q, column), mem_of_getElem? (htable q hq), rfl, hname⟩
  · exact ⟨column, mem_of_getElem? hcolumn, hname⟩

def JoinClause.flip (join : JoinClause) : JoinClause :=
  { join with left := join.right, right := join.left }

def Resolves (scope newTableScope : Scope) (a b : ColumnRef) : Prop :=
  (scope.tryResolve a).isSome ∧ (newTableScope.tryResolve b).isSome

def NamesBoth (scope newTableScope : Scope) (colRef : ColumnRef) : Prop :=
  scope.Names colRef ∧ newTableScope.Names colRef

theorem joinColumns_of_resolves
    (h : Resolves scope newTableScope join.left join.right ∨
      Resolves scope newTableScope join.right join.left) :
    ∃ p, joinColumns scope newTableScope join = .ok p := by
  unfold joinColumns
  rcases h with ⟨hleft, hright⟩ | ⟨hright, hleft⟩
  · obtain ⟨l, hl⟩ := Option.isSome_iff_exists.mp hleft
    obtain ⟨r, hr⟩ := Option.isSome_iff_exists.mp hright
    rw [hl, hr]
    exact ⟨(l, r), rfl⟩
  · obtain ⟨l, hl⟩ := Option.isSome_iff_exists.mp hleft
    obtain ⟨r, hr⟩ := Option.isSome_iff_exists.mp hright
    rw [hl, hr]
    cases scope.tryResolve join.left <;> cases newTableScope.tryResolve join.right <;>
      exact ⟨_, rfl⟩

theorem joinColumns_of_not_resolves (h : ¬ Resolves scope newTableScope join.left join.right)
    (h' : ¬ Resolves scope newTableScope join.right join.left) :
    joinColumns scope newTableScope join =
      .err (.execution s!"JOIN ... ON must compare a column already in scope with a column of '{join.table.qualifier}'") := by
  unfold Resolves at h h'
  unfold joinColumns
  cases hl : scope.tryResolve join.left <;> cases hr : newTableScope.tryResolve join.right <;>
    cases hl' : scope.tryResolve join.right <;> cases hr' : newTableScope.tryResolve join.left <;>
    simp_all

/-- Only one order can be meant, so writing it the other way round makes no difference. -/
theorem joinColumns_flip (h : ¬ (Resolves scope newTableScope join.left join.right ∧
      Resolves scope newTableScope join.right join.left)) :
    joinColumns scope newTableScope join.flip = joinColumns scope newTableScope join := by
  unfold Resolves at h
  unfold joinColumns JoinClause.flip
  cases hl : scope.tryResolve join.left <;> cases hr : newTableScope.tryResolve join.right <;>
    cases hl' : scope.tryResolve join.right <;> cases hr' : newTableScope.tryResolve join.left <;>
    simp_all

theorem Resolves.names {a b : ColumnRef} (h : Resolves scope newTableScope a b) :
    scope.Names a ∧ newTableScope.Names b := by
  obtain ⟨i, hi⟩ := Option.isSome_iff_exists.mp h.1
  obtain ⟨j, hj⟩ := Option.isSome_iff_exists.mp h.2
  exact ⟨Scope.names_of_tryResolve hi, Scope.names_of_tryResolve hj⟩

theorem joinTable_congr {σ : Type} {storage : Storage (Proc σ Error)} {state : σ} {rows : List Row}
    {schema : TableSchema} {join' : JoinClause} (htable : join'.table = join.table)
    (htype : join'.joinType = join.joinType)
    (hschema : storage.tableSchema join.table.name state = (.ok schema, state))
    (hcolumns : joinColumns scope (Scope.single join.table.qualifier schema.columns) join' =
      joinColumns scope (Scope.single join.table.qualifier schema.columns) join) :
    joinTable storage (scope, rows) join' state = joinTable storage (scope, rows) join state := by
  unfold joinTable
  rw [htable, htype, bind_ok hschema, bind_ok hschema, hcolumns]

/-- An `ON` means the same both ways, and a reference that fits both sides is refused, exactly
when no reference fits both sides or neither order can be resolved. -/
theorem on_symmetric_iff (scope : Scope) (schema : TableSchema) (join : JoinClause) :
    ((∀ (σ : Type) (storage : Storage (Proc σ Error)) (rows : List Row) (state : σ),
        storage.tableSchema join.table.name state = (.ok schema, state) →
        joinTable storage (scope, rows) join.flip state =
          joinTable storage (scope, rows) join state) ∧
      ∀ colRef, colRef = join.left ∨ colRef = join.right →
        NamesBoth scope (.single join.table.qualifier schema.columns) colRef →
        ∃ e, joinColumns scope (.single join.table.qualifier schema.columns) join = .err e) ↔
    ¬ NamesBoth scope (.single join.table.qualifier schema.columns) join.left ∧
        ¬ NamesBoth scope (.single join.table.qualifier schema.columns) join.right ∨
      ¬ Resolves scope (.single join.table.qualifier schema.columns) join.left join.right ∧
        ¬ Resolves scope (.single join.table.qualifier schema.columns) join.right join.left := by
  generalize hnew : Scope.single join.table.qualifier schema.columns = newTableScope
  constructor
  · rintro ⟨-, hrefused⟩
    by_cases hresolves : Resolves scope newTableScope join.left join.right ∨
        Resolves scope newTableScope join.right join.left
    · obtain ⟨p, hp⟩ := joinColumns_of_resolves hresolves
      left
      constructor
      · intro hboth
        obtain ⟨e, he⟩ := hrefused _ (.inl rfl) hboth
        rw [hp] at he
        cases he
      · intro hboth
        obtain ⟨e, he⟩ := hrefused _ (.inr rfl) hboth
        rw [hp] at he
        cases he
    · exact .inr (not_or.mp hresolves)
  · intro hsides
    constructor
    · intro σ storage rows state hschema
      refine joinTable_congr rfl rfl hschema (hnew ▸ joinColumns_flip ?_)
      rintro ⟨hforth, hback⟩
      rcases hsides with ⟨hleft, -⟩ | ⟨hnot, -⟩
      · exact hleft ⟨hforth.names.1, hback.names.2⟩
      · exact hnot hforth
    · intro colRef hcolRef hboth
      rcases hsides with ⟨hleft, hright⟩ | ⟨hnot, hnot'⟩
      · rcases hcolRef with rfl | rfl
        · exact absurd hboth hleft
        · exact absurd hboth hright
      · exact ⟨_, joinColumns_of_not_resolves hnot hnot'⟩

/-- Two tables with columns `x` and `y`: `ON x = y` and `ON y = x` join different rows. -/
theorem on_order_matters :
    let columns : List ColumnSchema := [⟨"x", .int, true, false⟩, ⟨"y", .int, true, false⟩]
    let store : Store := ⟨Finmap.singleton "u"
      { Table.new columns none with rows := [[.int 3, .int 1]] }, ∅⟩
    let join : JoinClause := ⟨.inner, ⟨"u", none⟩, ⟨none, "x"⟩, ⟨none, "y"⟩⟩
    let rows (join : JoinClause) := Prod.snd <$> (joinTable (inMemoryStorage none)
      (Scope.single "t" columns, [[.int 1, .int 2]]) join store).1
    rows join = .ok [[.int 1, .int 2, .int 3, .int 1]] ∧ rows join.flip = .ok [] := by
  decide +kernel

end

def Store.views (store : Store) : Tables := fun name =>
  (store.tables.lookup name).map fun t => (t.schema, t.rows)

def Transaction.View.views (v : Transaction.View) : Tables := fun name =>
  (v.store.tables.lookup name).map fun t => (t.schema, t.rows ++ v.tx.rows name)

theorem Store.views_inMemory (store : Store) (append : Option Error) :
    Views (inMemoryStorage append) store store.views where
  tableSchema name := by
    refine Prod.ext ?_ rfl
    change store.tableSchema name = _
    rw [Store.tableSchema, Store.views]
    cases store.tables.lookup name <;> rfl
  scan name := by
    refine Prod.ext ?_ rfl
    change store.scan name = _
    rw [Store.scan, Store.views]
    cases store.tables.lookup name <;> rfl

theorem Transaction.View.views_transaction (v : Transaction.View) (append : Option Error) :
    Views (Transaction.storage append) v v.views where
  tableSchema name := by
    refine Prod.ext ?_ rfl
    change v.store.tableSchema name = _
    rw [Store.tableSchema, views]
    cases v.store.tables.lookup name <;> rfl
  scan name := by
    refine Prod.ext ?_ rfl
    change v.scan name = _
    rw [View.scan, Store.scan, views]
    cases v.store.tables.lookup name <;> rfl

/-- Joining tables by an index gives the rows of the join by nested loops, in the same order,
for the engine and within a transaction; every row has a cell for each column in scope. The columns
compared are those that `ON` names, on whichever side of it. -/
theorem joins_eq_nestedLoop (fromClause : FromClause) :
    (∀ append store, (Store.views store).Shaped →
      resolveJoins (inMemoryStorage append) fromClause store =
        (nestedLoopJoins store.views fromClause, store)) ∧
    (∀ append v, (Transaction.View.views v).Shaped →
      resolveJoins (Transaction.storage append) fromClause v =
        (nestedLoopJoins v.views fromClause, v)) ∧
    (∀ tables : Tables, tables.Shaped → ∀ scope rows,
      nestedLoopJoins tables fromClause = .ok (scope, rows) → HaveWidth scope.columns.length rows) ∧
    ∀ scope newTableScope join p, joinColumns scope newTableScope join = .ok p → ∃ a b,
      (a = join.left ∧ b = join.right ∨ a = join.right ∧ b = join.left) ∧
        scope.NamedAt a p.1 ∧ newTableScope.NamedAt b p.2 := by
  refine ⟨?_, ?_, ?_, ?_⟩
  · intro append store hshaped
    exact resolveJoins_eq (store.views_inMemory append) hshaped fromClause
  · intro append v hshaped
    exact resolveJoins_eq (v.views_transaction append) hshaped fromClause
  · intro tables hshaped scope rows h
    exact nestedLoopJoins_width hshaped h
  · intro scope newTableScope join p hp
    obtain ⟨a, b, hsides, hl, hr⟩ := (joinColumns_sides join).of_ok hp
    exact ⟨a, b, hsides, Scope.tryResolve_eq_some hl, Scope.tryResolve_eq_some hr⟩

theorem views_singleton_shaped {t : Table} (h : HaveWidth t.schema.columns.length t.rows) :
    (Store.views ⟨Finmap.singleton "t" t, ∅⟩).Shaped := by
  intro name schema rows hview
  obtain ⟨t', ht', heq⟩ := Option.map_eq_some_iff.mp hview
  have hmem : name ∈ (Finmap.singleton "t" t : Finmap fun _ : String => Table) :=
    Finmap.mem_of_lookup_eq_some ht'
  obtain rfl := (Finmap.mem_singleton name "t" t).mp hmem
  rw [Finmap.lookup_singleton_eq] at ht'
  cases ht'
  cases heq
  exact h

def parents : FromClause :=
  ⟨⟨"t", none⟩, [⟨.left, ⟨"t", some "u"⟩, ⟨some "t", "id"⟩, ⟨some "u", "parent"⟩⟩]⟩

def family : Table :=
  { Table.new [⟨"id", .int, true, false⟩, ⟨"parent", .int, true, false⟩] none with
    rows := [[.int 1, .null], [.int 2, .int 1], [.null, .int 1]] }

/-- Every row before its children, or before `NULL` where it has none. -/
theorem joins_eq_nestedLoop_family : ∃ scope,
    resolveJoins (inMemoryStorage none) parents ⟨Finmap.singleton "t" family, ∅⟩ =
      (.ok (scope, [[.int 1, .null, .int 2, .int 1], [.int 1, .null, .null, .int 1],
        [.int 2, .int 1, .null, .null], [.null, .int 1, .null, .null]]),
        ⟨Finmap.singleton "t" family, ∅⟩) := by
  have hwidth : HaveWidth family.schema.columns.length family.rows := by
    decide
  rw [(joins_eq_nestedLoop parents).1 none _ (views_singleton_shaped hwidth)]
  exact ⟨_, rfl⟩

end MysqlRust
