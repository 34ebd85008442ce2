import MysqlRust.Foundation.Relations
import MysqlRust.Query.Sorting
import MysqlRust.Query.Sums
import MysqlRust.Query.Widths

/-! # Grouped queries

Rows are collected in a hash map by the cells of the grouping columns. Each row of the result
stands for one combination of cells that occurs, in whatever order the map is visited.
-/
namespace MysqlRust
open Relations Sorting Outcome List Lists

section
variable {indices : List Nat} {rows : List Row} {groups : List (Row × List Row)}
variable {row key : Row}

def groupKey (indices : List Nat) (row : Row) : Row := indices.map fun i => row.getD i .null

theorem getD_of_getElem? {i : Nat} {v : Value} (h : row[i]? = some v) : row.getD i .null = v := by
  rw [getD_eq_getElem?_getD, h]
  rfl

theorem groupKey_of_mapM (h : indices.mapM (index row : Nat → Result Value) = .ok key) :
    groupKey indices row = key := by
  have hcells := (mapM_eq_ok.mp h).imp fun _ _ => index_eq_ok.mp
  have hmap := forall₂_map_eq (f := fun i => row.getD i .null) (g := id) hcells
    fun _ _ => getD_of_getElem?
  rw [groupKey, hmap, map_id]

theorem addToGroup_eq_enter (key row : Row) : addToGroup key row = enter key row := by
  funext groups
  induction groups with
  | nil => rfl
  | cons g groups ih => rw [addToGroup, enter, ih]

def groupStep (indices : List Nat) (groups : List (Row × List Row)) (row : Row) :
    Result (List (Row × List Row)) := do
  let key ← indices.mapM (index row)
  pure (addToGroup key row groups)

theorem groupRows_of_ne_nil (h : indices ≠ []) (rows : List Row) :
    groupRows indices rows = rows.foldlM (groupStep indices) [] := if_neg h

theorem foldlM_groupStep {done : List Row} {groups' : List (Row × List Row)}
    (hgroups : Groups (groupKey indices) done groups)
    (h : rows.foldlM (groupStep indices) groups = .ok groups') :
    Groups (groupKey indices) (done ++ rows) groups' := by
  induction rows generalizing done groups with
  | nil =>
    cases h
    rw [append_nil]
    exact hgroups
  | cons row rows ih =>
    rw [foldlM_cons] at h
    obtain ⟨groups₁, hstep, h⟩ := bind_eq_ok.mp h
    obtain ⟨key, hkey, hstep⟩ := bind_eq_ok.mp hstep
    cases hstep
    rw [← groupKey_of_mapM hkey, addToGroup_eq_enter] at h
    rw [append_cons]
    exact ih (hgroups.enter row) h

/-- The combinations of cells that occur; the empty one always does. -/
def Occurs (indices : List Nat) (rows : List Row) (key : Row) : Prop :=
  indices = [] ∧ key = [] ∨ ∃ row ∈ rows, groupKey indices row = key

def rowsWith (indices : List Nat) (rows : List Row) (key : Row) : List Row :=
  rows.filter (groupKey indices · = key)

/-- The map holds each combination of cells that occurs, with the rows that have it. -/
theorem groupRows_spec (h : groupRows indices rows = .ok groups) :
    (groups.map Prod.fst).Nodup ∧ (∀ key, key ∈ groups.map Prod.fst ↔ Occurs indices rows key) ∧
      ∀ g ∈ groups, g.2 = rowsWith indices rows g.1 := by
  by_cases hnil : indices = []
  · subst hnil
    cases h
    refine ⟨nodup_singleton _, fun key => ?_, fun g hg => ?_⟩
    · rw [map_cons, map_nil, mem_singleton]
      refine ⟨fun hkey => .inl ⟨rfl, hkey⟩, ?_⟩
      rintro (⟨-, hkey⟩ | ⟨row, -, rfl⟩)
      · exact hkey
      · rfl
    · rw [mem_singleton.mp hg]
      exact (filter_eq_self.mpr fun _ _ => rfl).symm
  · rw [groupRows_of_ne_nil hnil] at h
    have hgroups := foldlM_groupStep groups_nil h
    refine ⟨hgroups.distinct, fun key => ?_, hgroups.members⟩
    rw [hgroups.keys key]
    exact ⟨.inr, fun hocc => hocc.resolve_left fun hempty => hnil hempty.1⟩

def rowsOf (groups : List (Row × List Row)) (key : Row) : List Row :=
  ((groups.find? fun g => g.1 = key).map Prod.snd).getD []

theorem rowsOf_eq (h : groupRows indices rows = .ok groups) (hkey : key ∈ groups.map Prod.fst) :
    rowsOf groups key = rowsWith indices rows key := by
  obtain ⟨hdistinct, -, hmembers⟩ := groupRows_spec h
  obtain ⟨g, hg, rfl⟩ := mem_map.mp hkey
  rw [rowsOf, find?_of_nodup hdistinct hg]
  exact hmembers g hg

variable {lib lib' : Unspecified}
variable {S : Set Row}

theorem keyOrdering_eq_zipCompare : keyOrdering = Orders.zipCompare valueOrdering := by
  funext a b
  induction a generalizing b with
  | nil => rfl
  | cons v a ih =>
    cases b with
    | nil => rfl
    | cons w b =>
      rw [keyOrdering, Orders.zipCompare, ih]
      cases valueOrdering v w <;> rfl

theorem exists_keyOrder (h : ∀ i ∈ indices, ∃ columnType, CellsTyped i columnType rows) :
    ∃ S : Set Row, Orders.TotalOrderOn keyOrdering S ∧ ∀ key, Occurs indices rows key → key ∈ S := by
  have hsets : ∃ sets : List (Set Value), (∀ S ∈ sets, Orders.TotalOrderOn valueOrdering S) ∧
      sets.length = indices.length ∧
      ∀ row ∈ rows, Forall₂ (fun S v => v ∈ S) sets (groupKey indices row) := by
    induction indices with
    | nil => exact ⟨[], nofun, rfl, fun _ _ => .nil⟩
    | cons i indices ih =>
      obtain ⟨columnType, hcolumn⟩ := h i mem_cons_self
      obtain ⟨sets, hsets, hlength, hrows⟩ := ih fun j hj => h j (mem_cons_of_mem i hj)
      refine ⟨columnType.values :: sets, ?_, congrArg (· + 1) hlength, fun row hrow => ?_⟩
      · exact forall_mem_cons.mpr ⟨valueOrdering_total columnType, hsets⟩
      · obtain ⟨v, hv, htyped⟩ := hcolumn row hrow
        rw [← getD_of_getElem? hv] at htyped
        exact .cons htyped (hrows row hrow)
  obtain ⟨sets, hsets, hlength, hrows⟩ := hsets
  refine ⟨_, keyOrdering_eq_zipCompare ▸ Orders.TotalOrderOn.zipCompare hsets, ?_⟩
  rintro key (⟨rfl, rfl⟩ | ⟨row, hrow, rfl⟩)
  · rw [length_nil, length_eq_zero_iff] at hlength
    rw [hlength]
    exact .nil
  · exact hrows row hrow

def sortedKeys (lib : Unspecified) (groups : List (Row × List Row)) : List Row :=
  (lib.visit (groups.map Prod.fst)).mergeSort fun a b => (keyOrdering a b).isLE

theorem sortedKeys_perm (lib : Unspecified) (groups : List (Row × List Row)) :
    (sortedKeys lib groups).Perm (groups.map Prod.fst) :=
  (mergeSort_perm _ _).trans (lib.visit_perm _)

theorem sortedKeys_pairwise (hS : Orders.TotalOrderOn keyOrdering S)
    (hgroups : ∀ key ∈ groups.map Prod.fst, key ∈ S) (lib : Unspecified) :
    (sortedKeys lib groups).Pairwise fun a b => (keyOrdering a b).isLE :=
  (PreorderOn.of_total hS).pairwise_mergeSort fun key hkey =>
    hgroups key ((lib.visit_perm _).mem_iff.mp hkey)

theorem sortedKeys_increasing (hS : Orders.TotalOrderOn keyOrdering S)
    (hgroups : ∀ key ∈ groups.map Prod.fst, key ∈ S) (hdistinct : (groups.map Prod.fst).Nodup)
    (lib : Unspecified) : (sortedKeys lib groups).Pairwise fun a b => keyOrdering a b = .lt := by
  have hperm := sortedKeys_perm lib groups
  have hboth := (sortedKeys_pairwise hS hgroups lib).and (hperm.nodup_iff.mpr hdistinct)
  refine hboth.imp_of_mem fun {a b} ha hb hab => ?_
  obtain ⟨hle, hne⟩ := hab
  cases hcmp : keyOrdering a b with
  | lt => rfl
  | gt => simp [hcmp] at hle
  | eq =>
    have heq := hS.eq_iff a (hgroups a (hperm.mem_iff.mp ha)) b (hgroups b (hperm.mem_iff.mp hb))
    exact absurd (heq.mp hcmp) hne

theorem sortedKeys_congr (hS : Orders.TotalOrderOn keyOrdering S)
    (hgroups : ∀ key ∈ groups.map Prod.fst, key ∈ S) (lib lib' : Unspecified) :
    sortedKeys lib groups = sortedKeys lib' groups := by
  have hperm := (sortedKeys_perm lib groups).trans (sortedKeys_perm lib' groups).symm
  have hmem : ∀ key ∈ sortedKeys lib groups, key ∈ S := fun key hkey =>
    hgroups key ((sortedKeys_perm lib groups).mem_iff.mp hkey)
  have hkeyed : KeyedOn keyOrdering id S := hS.eq_iff
  have hmap := (PreorderOn.of_total hS).map_key_eq hkeyed hmem hperm
    (sortedKeys_pairwise hS hgroups lib) (sortedKeys_pairwise hS hgroups lib')
  rwa [map_id, map_id] at hmap

variable {scope : Scope} {item : SelectItem} {plan : ResolvedAggregateItem} {column : ColumnSchema}

/-- What an item stands for in a group, given by its key and its rows. -/
def SelectItem.GroupValue (scope : Scope) (indices : List Nat) :
    SelectItem → Row × List Row → Value → Prop
  | .expr (.column colRef) _, group, v => ∃ i pos : Nat, scope.resolve colRef = .ok i ∧
      indices[pos]? = some i ∧ group.1[pos]? = some v
  | .expr (.function name args) _, group, v => ∃ argCol,
      resolveAggregateArg args scope = .ok argCol ∧ evaluateAggregate name argCol group.2 = .ok v
  | _, _, _ => False

/-- An item is a grouping column or an aggregate. -/
theorem resolveAggregateItem_eq_ok
    (h : resolveAggregateItem scope indices item = .ok (plan, column)) :
    (∃ colRef asAlias i pos column', item = .expr (.column colRef) asAlias ∧
        scope.resolve colRef = .ok i ∧ indices[pos]? = some i ∧ scope.columns[i]? = some column' ∧
        plan = .groupColumn pos ∧ column.name = asAlias.getD column'.name ∧
        column.columnType = column'.columnType) ∨
      ∃ name args asAlias argCol label, item = .expr (.function name args) asAlias ∧
        isAggregateFunctionName name = true ∧ resolveAggregateArg args scope = .ok argCol ∧
        aggregateResultType name (argCol.map Prod.snd) = .ok column.columnType ∧
        plan = .aggregate name argCol ∧ column.name = asAlias.getD label := by
  unfold resolveAggregateItem at h
  split at h
  · cases h
  · obtain ⟨i, hi, h⟩ := bind_eq_ok.mp h
    obtain ⟨pos, hpos, h⟩ := bind_eq_ok.mp h
    obtain ⟨column', hcolumn, h⟩ := bind_eq_ok.mp h
    cases h
    obtain ⟨hlt, hget, -⟩ := findIdx?_eq_some_iff_getElem.mp (okOr_eq_ok.mp hpos)
    refine .inl ⟨_, _, i, pos, column', rfl, hi, ?_, index_eq_ok.mp hcolumn, rfl, rfl, rfl⟩
    rw [getElem?_eq_getElem hlt, of_decide_eq_true hget]
  · split_ifs at h with hname
    obtain ⟨argCol, harg, h⟩ := bind_eq_ok.mp h
    obtain ⟨columnType, htype, h⟩ := bind_eq_ok.mp h
    cases argCol with
    | none =>
      cases h
      exact .inr ⟨_, _, _, none, _, rfl, hname, harg, htype, rfl, rfl⟩
    | some p =>
      obtain ⟨column', -, h⟩ := bind_eq_ok.mp h
      cases h
      exact .inr ⟨_, _, _, some p, _, rfl, hname, harg, htype, rfl, rfl⟩
  · cases h

def ResolvedAggregateItem.value (group : Row × List Row) : ResolvedAggregateItem → Result Value
  | .groupColumn pos => index group.1 pos
  | .aggregate name argCol => evaluateAggregate name argCol group.2

theorem groupValue_of_resolved {p : ResolvedAggregateItem × ColumnSchema}
    (h : resolveAggregateItem scope indices item = .ok p) {group : Row × List Row} {v : Value}
    (hv : p.1.value group = .ok v) : item.GroupValue scope indices group v := by
  obtain ⟨plan, column⟩ := p
  rcases resolveAggregateItem_eq_ok h with ⟨colRef, asAlias, i, pos, column', rfl, hi, hpos, -, rfl, -⟩ |
    ⟨name, args, asAlias, argCol, label, rfl, -, harg, -, rfl, -⟩
  · exact ⟨i, pos, hi, hpos, index_eq_ok.mp hv⟩
  · exact ⟨argCol, harg, hv⟩

variable {projection : List SelectItem} {groupBy : List ColumnRef} {orderBy : List OrderByItem}
  {limit offset : Option UInt64} {result : QueryResult}

def groupRow (groups : List (Row × List Row))
    (resolved : List (ResolvedAggregateItem × ColumnSchema)) (key : Row) : Result Row :=
  resolved.mapM fun item => item.1.value (key, rowsOf groups key)

def outputKey (columns : List ColumnSchema) (item : OrderByItem) : Result (Nat × Bool) := do
  let idx ← columnIndex columns item.column.column
  pure (idx, item.descending)

theorem executeAggregate_eq :
    executeAggregate lib scope rows projection groupBy orderBy limit offset = (do
      let indices ← groupBy.mapM scope.resolve
      if projection.any SelectItem.isWildcard then
        .err (.unsupported "'*' in a GROUP BY / aggregate query")
      else do
        let resolved ← projection.mapM (resolveAggregateItem scope indices)
        let groups ← groupRows indices rows
        let output ← (sortedKeys lib groups).mapM (groupRow groups resolved)
        let sortKeys ← orderBy.mapM (outputKey (resolved.map Prod.snd))
        let paged ← sortAndPaginate lib output sortKeys limit offset
        pure ⟨resolved.map Prod.snd, paged, 0⟩) := rfl

structure AggregateRun (lib : Unspecified) (scope : Scope) (rows : List Row)
    (projection : List SelectItem) (groupBy : List ColumnRef) (orderBy : List OrderByItem)
    (limit offset : Option UInt64) (result : QueryResult) (indices : List Nat)
    (resolved : List (ResolvedAggregateItem × ColumnSchema)) (groups : List (Row × List Row))
    (output : List Row) (sortKeys : List (Nat × Bool)) : Prop where
  grouping : groupBy.mapM scope.resolve = .ok indices
  items : projection.any SelectItem.isWildcard = false
  resolution : projection.mapM (resolveAggregateItem scope indices) = .ok resolved
  collected : groupRows indices rows = .ok groups
  produced : (sortedKeys lib groups).mapM (groupRow groups resolved) = .ok output
  sorting : orderBy.mapM (outputKey (resolved.map Prod.snd)) = .ok sortKeys
  paged : sortAndPaginate lib output sortKeys limit offset = .ok result.rows
  columns : result.columns = resolved.map Prod.snd
  affected : result.rowsAffected = 0

/-- A `SELECT` with groups succeeds just when each of its stages does. -/
theorem executeAggregate_eq_ok :
    executeAggregate lib scope rows projection groupBy orderBy limit offset = .ok result ↔
      ∃ indices resolved groups output sortKeys, AggregateRun lib scope rows projection groupBy
        orderBy limit offset result indices resolved groups output sortKeys := by
  rw [executeAggregate_eq]
  constructor
  · intro h
    obtain ⟨indices, hindices, h⟩ := bind_eq_ok.mp h
    split_ifs at h with hitems
    obtain ⟨resolved, hresolved, h⟩ := bind_eq_ok.mp h
    obtain ⟨groups, hgroups, h⟩ := bind_eq_ok.mp h
    obtain ⟨output, houtput, h⟩ := bind_eq_ok.mp h
    obtain ⟨sortKeys, hsortKeys, h⟩ := bind_eq_ok.mp h
    obtain ⟨paged, hpaged, h⟩ := bind_eq_ok.mp h
    cases h
    exact ⟨indices, resolved, groups, output, sortKeys, hindices, Bool.eq_false_of_not_eq_true hitems,
      hresolved, hgroups, houtput, hsortKeys, hpaged, rfl, rfl⟩
  · rintro ⟨indices, resolved, groups, output, sortKeys, run⟩
    rw [run.grouping, ok_bind, if_neg (by rw [run.items]; exact Bool.false_ne_true),
      run.resolution, ok_bind, run.collected, ok_bind, run.produced, ok_bind,
      run.sorting, ok_bind, run.paged, ok_bind, ← run.columns, ← run.affected]
    rfl

variable {resolved : List (ResolvedAggregateItem × ColumnSchema)} {keys output : List Row}
  {sortKeys : List (Nat × Bool)}

def RowsTyped (scope : Scope) (rows : List Row) : Prop :=
  ∀ row ∈ rows, Forall₂ (fun (column : ColumnSchema) v => v ∈ column.columnType.values)
    scope.columns row

theorem RowsTyped.cells (h : RowsTyped scope rows) {i : Nat} {column : ColumnSchema}
    (hcolumn : scope.columns[i]? = some column) : CellsTyped i column.columnType rows :=
  fun row hrow => forall₂_getElem? (h row hrow).flip hcolumn

theorem RowsTyped.grouping (h : RowsTyped scope rows)
    (hindices : groupBy.mapM scope.resolve = .ok indices) :
    ∀ i ∈ indices, ∃ columnType, CellsTyped i columnType rows := by
  intro i hi
  obtain ⟨colRef, -, hresolve⟩ := forall₂_mem_right (mapM_eq_ok.mp hindices) hi
  have hlt := Scope.tryResolve_lt (okOr_eq_ok.mp hresolve)
  exact ⟨_, h.cells (getElem?_eq_getElem hlt)⟩

variable {v : Value} {argCol : Option (Nat × ColumnType)} {idx : Nat} {columnType : ColumnType}

theorem RowsTyped.argument (h : RowsTyped scope rows) {args : List Expr}
    (harg : resolveAggregateArg args scope = .ok argCol) :
    ∀ p ∈ argCol, CellsTyped p.1 p.2 rows := by
  unfold resolveAggregateArg at harg
  split at harg
  · cases harg
    exact nofun
  · obtain ⟨idx, -, harg⟩ := bind_eq_ok.mp harg
    obtain ⟨column, hcolumn, harg⟩ := bind_eq_ok.mp harg
    cases harg
    rintro p ⟨⟩
    exact h.cells (index_eq_ok.mp hcolumn)
  · cases harg

/-- The cells of a column that are not `NULL`. -/
def presentCells (idx : Nat) (rows : List Row) : List Value :=
  (rows.map fun row => row.getD idx .null).filter (· ≠ .null)

theorem CellsTyped.present (h : CellsTyped idx columnType rows) :
    ∀ v ∈ presentCells idx rows, v ∈ columnType.values := by
  intro v hv
  obtain ⟨row, hrow, rfl⟩ := mem_map.mp (mem_of_mem_filter hv)
  obtain ⟨cell, hcell, htyped⟩ := h row hrow
  rwa [getD_of_getElem? hcell]

theorem presentCells_concat {row : Row} (hv : row[idx]? = some v) :
    presentCells idx (rows ++ [row]) = presentCells idx rows ++ if v = .null then [] else [v] := by
  simp [presentCells, hv, filter_cons]

/-- `MIN` and `MAX` of a column. -/
theorem evaluateExtreme_best (h : CellsTyped idx columnType rows) (name : String) (wantMin : Bool) :
    (evaluateExtreme name wantMin (some (idx, columnType)) rows).Post fun v => ∃ best,
      Orders.Best valueOrdering (if wantMin then .lt else .gt) (presentCells idx rows) best ∧
        v = best.getD .null := by
  have hwanted : (if wantMin then Ordering.lt else .gt) ≠ .eq := by cases wantMin <;> decide
  refine .bind (P := (· = (idx, columnType))) rfl fun p hp => ?_
  subst hp
  dsimp only
  generalize (if wantMin then Ordering.lt else .gt) = wanted at hwanted ⊢
  refine .bind (P := Orders.Best valueOrdering wanted (presentCells idx rows)) ?_
    fun best hbest => ⟨best, hbest, rfl⟩
  refine .foldlM_along (P := fun done => Orders.Best valueOrdering wanted (presentCells idx done))
    rfl fun done row hdone best hbest => ?_
  obtain ⟨v, hv, htyped⟩ := h row (hdone.subset mem_concat_self)
  have hcells : CellsTyped idx columnType done := fun row hrow =>
    h row (hdone.subset (mem_append_left _ hrow))
  rw [index_eq_ok.mpr hv, ok_bind, presentCells_concat hv]
  split_ifs with hnull
  · rw [append_nil]
    exact hbest
  · have htotal := valueOrdering_total columnType
    cases best with
    | none =>
      have hnone : presentCells idx done = [] := hbest
      rw [hnone]
      exact .first htotal hwanted htyped
    | some current => exact hbest.next htotal hwanted hcells.present htyped

theorem evaluateCount_column (h : CellsTyped idx columnType rows) :
    evaluateCount (some (idx, columnType)) rows =
      .ok (.int (Int64.ofNat (presentCells idx rows).length)) := by
  have hpresent : presentCells idx rows = (rows.filter fun row => row.getD idx .null ≠ .null).map
      fun row => row.getD idx .null := filter_map
  have hfilter : filterRows (fun row => do
      let cell ← index row idx
      pure (decide (cell ≠ .null))) rows =
        .ok (rows.filter fun row => row.getD idx .null ≠ .null) := by
    refine filterRows_eq_filter fun row hrow => ?_
    obtain ⟨v, hv, -⟩ := h row hrow
    rw [index_eq_ok.mpr hv, ok_bind, getD_of_getElem? hv, pure_eq]
  rw [hpresent, length_map, evaluateCount, hfilter, ok_bind, pure_eq]

/-- What `COUNT`, `MIN` and `MAX` of a column are. -/
def AggregateOf (name : String) (cells : List Value) (v : Value) : Prop :=
  (upperName name = "COUNT" → v = .int (Int64.ofNat cells.length)) ∧
  (upperName name = "MIN" →
    ∃ best, Orders.Best valueOrdering .lt cells best ∧ v = best.getD .null) ∧
  (upperName name = "MAX" → ∃ best, Orders.Best valueOrdering .gt cells best ∧ v = best.getD .null)

theorem aggregateOf_evaluate {name : String} (h : CellsTyped idx columnType rows)
    (hv : evaluateAggregate name (some (idx, columnType)) rows = .ok v) :
    AggregateOf name (presentCells idx rows) v := by
  unfold evaluateAggregate at hv
  refine ⟨fun hname => ?_, fun hname => ?_, fun hname => ?_⟩
  all_goals rw [hname] at hv
  · rw [evaluateCount_column h] at hv
    cases hv
    rfl
  · exact (evaluateExtreme_best h name true).of_ok hv
  · exact (evaluateExtreme_best h name false).of_ok hv

theorem RowsTyped.aggregateOf (h : RowsTyped scope rows) {name : String} {colRef : ColumnRef}
    (hidx : scope.resolve colRef = .ok idx)
    (harg : resolveAggregateArg [.column colRef] scope = .ok argCol)
    (hv : evaluateAggregate name argCol rows = .ok v) :
    AggregateOf name (presentCells idx rows) v := by
  have hcells := h.argument harg
  obtain ⟨idx', hidx', harg⟩ := bind_eq_ok.mp harg
  cases hidx.symm.trans hidx'
  obtain ⟨column, -, harg⟩ := bind_eq_ok.mp harg
  cases harg
  exact aggregateOf_evaluate (hcells _ rfl) hv

/-- One row for each combination of cells that occurs, in increasing order, with what the items
stand for in the rows that have it. -/
structure OneRowEach (scope : Scope) (indices : List Nat) (rows : List Row)
    (projection : List SelectItem) (keys output : List Row) : Prop where
  distinct : keys.Nodup
  occurs : ∀ key, key ∈ keys ↔ Occurs indices rows key
  increasing : keys.Pairwise fun a b => keyOrdering a b = .lt
  cells : Forall₂ (fun key row => Forall₂ (fun item v =>
    SelectItem.GroupValue scope indices item (key, rowsWith indices rows key) v) projection row)
    keys output
  aggregates : Forall₂ (fun key (row : Row) => ∀ (i : Nat) name colRef asAlias idx,
    projection[i]? = some (.expr (.function name [.column colRef]) asAlias) →
    scope.resolve colRef = .ok idx →
    ∃ v ∈ row[i]?, AggregateOf name (presentCells idx (rowsWith indices rows key)) v) keys output

theorem AggregateRun.oneRowEach (htyped : RowsTyped scope rows)
    (run : AggregateRun lib scope rows projection groupBy orderBy limit offset result indices
      resolved groups output sortKeys) :
    OneRowEach scope indices rows projection (sortedKeys lib groups) output := by
  obtain ⟨hdistinct, hoccurs, -⟩ := groupRows_spec run.collected
  obtain ⟨S, hS, hkeys⟩ := exists_keyOrder (htyped.grouping run.grouping)
  have hperm := sortedKeys_perm lib groups
  have hcells : Forall₂ (fun key row => Forall₂ (fun item v =>
      SelectItem.GroupValue scope indices item (key, rowsWith indices rows key) v) projection row)
      (sortedKeys lib groups) output := by
    have hrows := (forall₂_and_left _ _).mpr
      ⟨fun key hkey => hperm.mem_iff.mp hkey, mapM_eq_ok.mp run.produced⟩
    refine hrows.imp fun key row hrow => ?_
    obtain ⟨hkey, hrow⟩ := hrow
    rw [groupRow, rowsOf_eq run.collected hkey] at hrow
    refine forall₂_comp ?_ (mapM_eq_ok.mp run.resolution)
      (mapM_eq_ok.mp hrow)
    exact fun _ _ _ hitem hv => groupValue_of_resolved hitem hv
  constructor
  · exact hperm.nodup_iff.mpr hdistinct
  · exact fun key => hperm.mem_iff.trans (hoccurs key)
  · exact sortedKeys_increasing hS (fun key hkey => hkeys key ((hoccurs key).mp hkey)) hdistinct lib
  · exact hcells
  · refine hcells.imp fun key row hrow i name colRef asAlias idx hitem hidx => ?_
    obtain ⟨v, hv, argCol, harg, hvalue⟩ := forall₂_getElem? hrow.flip hitem
    have hgroup : RowsTyped scope (rowsWith indices rows key) := fun row hrow =>
      htyped row (mem_of_mem_filter hrow)
    exact ⟨v, hv, hgroup.aggregateOf hidx harg hvalue⟩

theorem OneRowEach.length_le (h : OneRowEach scope indices rows projection keys output) :
    output.length ≤ rows.length + 1 := by
  have hsub : keys ⊆ [] :: rows.map (groupKey indices) := by
    intro key hkey
    rcases (h.occurs key).mp hkey with ⟨-, rfl⟩ | ⟨row, hrow, rfl⟩
    · exact mem_cons_self
    · exact mem_cons_of_mem _ (mem_map_of_mem hrow)
  have hle := (h.distinct.subperm hsub).length_le
  rwa [h.cells.length_eq, length_cons, length_map] at hle

theorem filterMap_eq_map_of_forall₂ {α β γ : Type} {f : β → Option γ} {g : α → γ} {as : List α}
    {bs : List β} (h : Forall₂ (fun a b => f b = some (g a)) as bs) :
    bs.filterMap f = as.map g := by
  induction h with
  | nil => rfl
  | cons hab _ ih => rw [filterMap_cons_some hab, ih, map_cons]

theorem OneRowEach.counts (h : OneRowEach scope indices rows projection keys output)
    (hlength : rows.length < 2 ^ 63) {i : Nat} {name : String} {asAlias : Option String}
    (hitem : projection[i]? = some (.expr (.function name []) asAlias))
    (hname : upperName name = "COUNT") : (columnNumbers i output).sum = rows.length := by
  have hcell : Forall₂ (fun key (row : Row) => (row[i]?.bind Value.asNumber).map Int64.toInt =
      some ((rowsWith indices rows key).length : Int)) keys output := by
    refine h.cells.imp fun key row hrow => ?_
    obtain ⟨v, hv, argCol, harg, hcount⟩ := forall₂_getElem? hrow.flip hitem
    cases harg
    rw [evaluateAggregate, hname] at hcount
    cases hcount
    have hlt : (rowsWith indices rows key).length < 2 ^ 63 :=
      Nat.lt_of_le_of_lt (length_filter_le _ rows) hlength
    rw [hv]
    exact congrArg some (Int64.toInt_ofNat_of_lt hlt)
  have hsum := sum_length_filter h.distinct fun row hrow =>
    (h.occurs (groupKey indices row)).mpr (.inr ⟨row, hrow, rfl⟩)
  rw [columnNumbers, filterMap_eq_map_of_forall₂ hcell, ← hsum, Nat.cast_list_sum, map_map]
  rfl

theorem executeAggregate_congr (htyped : RowsTyped scope rows) {lib' : Unspecified}
    (h : lib'.selectNth = lib.selectNth) :
    executeAggregate lib' scope rows projection groupBy orderBy limit offset =
      executeAggregate lib scope rows projection groupBy orderBy limit offset := by
  rw [executeAggregate_eq, executeAggregate_eq, sortAndPaginate_congr h]
  cases hindices : groupBy.mapM scope.resolve with
  | err e => rfl
  | panic => rfl
  | ok indices =>
    rw [ok_bind, ok_bind]
    split_ifs
    · rfl
    · refine bind_congr fun resolved => ?_
      cases hgroups : groupRows indices rows with
      | err e => rfl
      | panic => rfl
      | ok groups =>
        obtain ⟨S, hS, hkeys⟩ := exists_keyOrder (htyped.grouping hindices)
        have hmem : ∀ key ∈ groups.map Prod.fst, key ∈ S := fun key hkey =>
          hkeys key (((groupRows_spec hgroups).2.1 key).mp hkey)
        rw [ok_bind, ok_bind, sortedKeys_congr hS hmem lib' lib]

/-- Grouping partitions the rows. -/
theorem groupBy_partitions (lib : Unspecified) (projection : List SelectItem)
    (groupBy : List ColumnRef) (orderBy : List OrderByItem) (htyped : RowsTyped scope rows)
    (hlength : rows.length < 2 ^ 63) :
    (∀ result, executeAggregate lib scope rows projection groupBy orderBy none none = .ok result →
      ∃ indices keys output, groupBy.mapM scope.resolve = .ok indices ∧
        OneRowEach scope indices rows projection keys output ∧ result.rows.Perm output ∧
        (orderBy = [] → result.rows = output) ∧ (groupBy = [] → result.rows.length = 1) ∧
        ∀ i name asAlias, projection[i]? = some (.expr (.function name []) asAlias) →
          upperName name = "COUNT" → (columnNumbers i result.rows).sum = rows.length) ∧
    ∀ lib' : Unspecified, lib'.selectNth = lib.selectNth → ∀ limit offset,
      executeAggregate lib' scope rows projection groupBy orderBy limit offset =
        executeAggregate lib scope rows projection groupBy orderBy limit offset := by
  refine ⟨fun result h => ?_, fun lib' hlib limit offset => executeAggregate_congr htyped hlib⟩
  obtain ⟨indices, resolved, groups, output, sortKeys, run⟩ := executeAggregate_eq_ok.mp h
  have heach := run.oneRowEach htyped
  have hshort : output.length < UInt64.size := by
    have hle := heach.length_le
    simp only [UInt64.size]
    omega
  obtain ⟨hperm, hsame⟩ := sortAndPaginate_all hshort run.paged
  refine ⟨indices, _, output, run.grouping, heach, hperm, ?_, ?_, ?_⟩
  · rintro rfl
    have hsorting := run.sorting
    cases hsorting
    exact hsame rfl
  · rintro rfl
    have hgrouping := run.grouping
    have hcollected := run.collected
    cases hgrouping
    cases hcollected
    rw [hperm.length_eq, ← heach.cells.length_eq, (sortedKeys_perm lib _).length_eq]
    rfl
  · intro i name asAlias hitem hname
    have hnumbers : (columnNumbers i result.rows).Perm (columnNumbers i output) := hperm.filterMap _
    rw [hnumbers.sum_eq, heach.counts hlength hitem hname]

def soldScope : Scope := .single "t" [⟨"a", .int, true, false⟩, ⟨"b", .int, true, false⟩]

def soldRows : List Row := [[.null, .int 5], [.int 1, .null], [.int 1, .int 7], [.int 1, .int 6]]

/-- `SELECT a AS k, COUNT(*), COUNT(b), MIN(b), MAX(b)` -/
def soldItems : List SelectItem :=
  .expr (.column ⟨none, "a"⟩) (some "k") :: .expr (.function "COUNT" []) none ::
    ["COUNT", "MIN", "MAX"].map fun name => .expr (.function name [.column ⟨none, "b"⟩]) none

def soldResult : List Row :=
  [[.null, .int 1, .int 1, .int 5, .int 5], [.int 1, .int 3, .int 2, .int 6, .int 7]]

theorem executeAggregate_sold :
    executeAggregate .plain soldScope soldRows soldItems [⟨none, "a"⟩] [] none none =
      .ok ⟨["k", "COUNT(*)", "COUNT(b)", "MIN(b)", "MAX(b)"].map fun name =>
        ⟨name, .int, true, false⟩, soldResult, 0⟩ := by
  have hkeys : sortedKeys .plain [([.null], soldRows.take 1), ([.int 1], soldRows.drop 1)] =
      [[.null], [.int 1]] := mergeSort_of_pairwise (by decide)
  refine executeAggregate_eq_ok.mpr ⟨[0], [(.groupColumn 0, ⟨"k", .int, true, false⟩),
    (.aggregate "COUNT" none, ⟨"COUNT(*)", .int, true, false⟩),
    (.aggregate "COUNT" (some (1, .int)), ⟨"COUNT(b)", .int, true, false⟩),
    (.aggregate "MIN" (some (1, .int)), ⟨"MIN(b)", .int, true, false⟩),
    (.aggregate "MAX" (some (1, .int)), ⟨"MAX(b)", .int, true, false⟩)],
    [([.null], soldRows.take 1), ([.int 1], soldRows.drop 1)], soldResult, [], by decide,
    by decide, by decide +kernel, rfl, ?_, rfl, by decide, rfl, rfl⟩
  rw [hkeys]
  decide +kernel

/-- A group with a `NULL` key and one with a `NULL` among its cells. -/
theorem groupBy_partitions_sold :
    ∃ result, executeAggregate .plain soldScope soldRows soldItems [⟨none, "a"⟩] [] none none =
        .ok result ∧ result.rows = soldResult ∧ (columnNumbers 1 result.rows).sum = 4 := by
  have htyped : RowsTyped soldScope soldRows := by
    unfold RowsTyped
    simp [soldRows, soldScope, Scope.single, ColumnType.values, Value.HasType]
  obtain ⟨hgroups, -⟩ := groupBy_partitions .plain soldItems [⟨none, "a"⟩] [] htyped (by decide)
  obtain ⟨-, -, -, -, -, -, -, -, hcounts⟩ := hgroups _ executeAggregate_sold
  exact ⟨_, executeAggregate_sold, rfl, hcounts 1 "COUNT" none rfl (by decide +kernel)⟩

variable {columns : List ColumnSchema} {label : String} {j : Nat}

theorem evaluateCount_typed (hv : evaluateCount argCol rows = .ok v) :
    v ∈ ColumnType.int.values := by
  cases argCol with
  | none =>
    cases hv
    exact .inr trivial
  | some p =>
    obtain ⟨present, -, hv⟩ := bind_eq_ok.mp hv
    cases hv
    exact .inr trivial

theorem evaluateSum_typed (hv : evaluateSum (some (idx, columnType)) rows = .ok v) :
    v ∈ columnType.values := by
  obtain ⟨p, hp, hv⟩ := bind_eq_ok.mp hv
  cases hp
  cases columnType with
  | int =>
    obtain ⟨⟨sum, count⟩, -, hv⟩ := bind_eq_ok.mp hv
    cases hv
    split_ifs
    · exact .inl rfl
    · exact .inr trivial
  | decimal scale =>
    obtain ⟨⟨sum, count⟩, -, hv⟩ := bind_eq_ok.mp hv
    cases hv
    split_ifs
    · exact .inl rfl
    · exact .inr rfl
  | varchar => cases hv
  | date => cases hv

theorem averageColumn_typed {s : UInt8} (hv : averageColumn s idx rows = .ok v) :
    v ∈ (ColumnType.decimal (averageScale s)).values := by
  obtain ⟨⟨sum, count⟩, -, hv⟩ := bind_eq_ok.mp hv
  dsimp only at hv
  split_ifs at hv
  · cases hv
    exact .inl rfl
  · obtain ⟨factor, -, hv⟩ := bind_eq_ok.mp hv
    obtain ⟨scaledSum, -, hv⟩ := bind_eq_ok.mp hv
    obtain ⟨rounded, -, hv⟩ := bind_eq_ok.mp hv
    cases hv
    exact .inr rfl

theorem evaluateExtreme_typed (h : CellsTyped idx columnType rows) {name : String} {wantMin : Bool}
    (hv : evaluateExtreme name wantMin (some (idx, columnType)) rows = .ok v) :
    v ∈ columnType.values := by
  obtain ⟨best, hbest, rfl⟩ := (evaluateExtreme_best h name wantMin).of_ok hv
  cases best with
  | none => exact .inl rfl
  | some v => exact h.present v hbest.1

/-- An aggregate has the type announced for it. -/
theorem evaluateAggregate_typed {name : String} (hname : isAggregateFunctionName name = true)
    (hcells : ∀ p ∈ argCol, CellsTyped p.1 p.2 rows)
    (htype : aggregateResultType name (argCol.map Prod.snd) = .ok columnType)
    (hv : evaluateAggregate name argCol rows = .ok v) : v ∈ columnType.values := by
  have hextreme : ∀ e wantMin, okOr e (argCol.map Prod.snd) = .ok columnType →
      evaluateExtreme name wantMin argCol rows = .ok v → v ∈ columnType.values := by
    intro e wantMin htype hv
    obtain ⟨⟨idx, _⟩, rfl, rfl⟩ := Option.map_eq_some_iff.mp (okOr_eq_ok.mp htype)
    exact evaluateExtreme_typed (hcells _ rfl) hv
  unfold aggregateResultType at htype
  unfold evaluateAggregate at hv
  rcases mem_aggregateNames hname with hname | hname | hname | hname | hname
  all_goals rw [hname] at htype hv
  · cases htype
    exact evaluateCount_typed hv
  · rcases argCol with _ | ⟨idx, argType⟩
    · cases htype
    · have hsum := evaluateSum_typed hv
      cases argType with
      | int =>
        cases htype
        exact hsum
      | decimal scale =>
        cases htype
        exact hsum
      | varchar => cases htype
      | date => cases htype
  · rcases argCol with _ | ⟨idx, argType⟩
    · cases htype
    · cases argType with
      | int =>
        cases htype
        exact averageColumn_typed hv
      | decimal scale =>
        cases htype
        exact averageColumn_typed hv
      | varchar => cases htype
      | date => cases htype
  · exact hextreme _ true htype hv
  · exact hextreme _ false htype hv

theorem Occurs.cell (h : Occurs indices rows key) (htyped : RowsTyped scope rows)
    (hne : indices ≠ []) :
    ∃ origin ∈ rows, ∀ (pos i : Nat) (column : ColumnSchema), indices[pos]? = some i →
      scope.columns[i]? = some column →
      key[pos]? = origin[i]? ∧ ∃ v ∈ origin[i]?, v ∈ column.columnType.values := by
  rcases h with ⟨hnil, -⟩ | ⟨origin, horigin, rfl⟩
  · exact absurd hnil hne
  · refine ⟨origin, horigin, fun pos i column hpos hcolumn => ?_⟩
    obtain ⟨v, hv, hcell⟩ := htyped.cells hcolumn origin horigin
    refine ⟨?_, v, hv, hcell⟩
    rw [groupKey, getElem?_map, hpos, hv]
    exact congrArg some (getD_of_getElem? hv)

theorem value_typed (htyped : RowsTyped scope rows) {item : SelectItem}
    {plan : ResolvedAggregateItem} {column : ColumnSchema}
    (hitem : resolveAggregateItem scope indices item = .ok (plan, column))
    (hkey : Occurs indices rows key) (hv : plan.value (key, rowsWith indices rows key) = .ok v) :
    v ∈ column.columnType.values := by
  rcases resolveAggregateItem_eq_ok hitem with
    ⟨colRef, asAlias, i, pos, column', rfl, -, hpos, hcolumn, rfl, -, htype⟩ |
    ⟨name, args, asAlias, argCol, label, rfl, hname, harg, htype, rfl, -⟩
  · have hne : indices ≠ [] := by
      rintro rfl
      cases hpos
    obtain ⟨origin, -, hcells⟩ := hkey.cell htyped hne
    obtain ⟨hcell, w, hw, hvalue⟩ := hcells pos i column' hpos hcolumn
    have hget : key[pos]? = some v := index_eq_ok.mp hv
    rw [hcell, hw, Option.some.injEq] at hget
    rw [htype, ← hget]
    exact hvalue
  · refine evaluateAggregate_typed hname (fun p hp row hrow => ?_) htype hv
    exact htyped.argument harg p hp row (mem_filter.mp hrow).1

theorem AggregateRun.sortTyped (htyped : RowsTyped scope rows)
    (run : AggregateRun lib scope rows projection groupBy orderBy limit offset result indices
      resolved groups output sortKeys) : SortTyped sortKeys output := by
  intro sortKey hsortKey
  obtain ⟨item, -, houtputKey⟩ :=
    forall₂_mem_right (mapM_eq_ok.mp run.sorting) hsortKey
  obtain ⟨idx, hidx, houtputKey⟩ := bind_eq_ok.mp houtputKey
  cases houtputKey
  have hlt := Table.findIdx?_lt (okOr_eq_ok.mp hidx)
  rw [length_map] at hlt
  obtain ⟨selected, hselected, hresolved⟩ := forall₂_getElem?
    (mapM_eq_ok.mp run.resolution) (getElem?_eq_getElem hlt)
  refine ⟨resolved[idx].2.columnType, fun row hrow => ?_⟩
  obtain ⟨key, hkey, hcells⟩ := forall₂_mem_right (mapM_eq_ok.mp run.produced) hrow
  have hmem := (sortedKeys_perm lib groups).mem_iff.mp hkey
  rw [groupRow, rowsOf_eq run.collected hmem] at hcells
  obtain ⟨v, hget, hv⟩ := forall₂_getElem? (mapM_eq_ok.mp hcells).flip
    (getElem?_eq_getElem hlt)
  have hoccurs := ((groupRows_spec run.collected).2.1 key).mp hmem
  exact ⟨v, value_typed htyped hresolved hoccurs hv, hget⟩

def FirstLabelled (columns : List ColumnSchema) (label : String) (j : Nat) : Prop :=
  columns[j]?.map ColumnSchema.name = some label ∧
    ∀ k < j, columns[k]?.map ColumnSchema.name ≠ some label

theorem FirstLabelled.unique {k : Nat} (hj : FirstLabelled columns label j)
    (hk : FirstLabelled columns label k) : j = k := by
  rcases Nat.lt_trichotomy j k with hlt | heq | hlt
  · exact absurd hj.1 (hk.2 j hlt)
  · exact heq
  · exact absurd hk.1 (hj.2 k hlt)

theorem firstLabelled_of_columnIndex (h : columnIndex columns label = .ok j) :
    FirstLabelled columns label j := by
  obtain ⟨hlt, hname, hbefore⟩ := findIdx?_eq_some_iff_getElem.mp (okOr_eq_ok.mp h)
  constructor
  · rw [getElem?_eq_getElem hlt, Option.map_some, of_decide_eq_true hname]
  · intro k hk heq
    rw [getElem?_eq_getElem (hk.trans hlt), Option.map_some, Option.some.injEq] at heq
    exact hbefore k hk (decide_eq_true heq)

def ProjectedAs (scope : Scope) (projection : List SelectItem) (i j : Nat) : Prop :=
  ∃ colRef asAlias, projection[j]? = some (.expr (.column colRef) asAlias) ∧
    scope.resolve colRef = .ok i

theorem AggregateRun.origin (htyped : RowsTyped scope rows) (hgroup : groupBy ≠ [])
    (run : AggregateRun lib scope rows projection groupBy orderBy limit offset result indices
      resolved groups output sortKeys) :
    ∀ row ∈ output, ∃ origin ∈ rows, ∀ i j, ProjectedAs scope projection i j →
      row[j]? = origin[i]? := by
  have heach := run.oneRowEach htyped
  have hne : indices ≠ [] := by
    rintro rfl
    have hnone := (mapM_eq_ok.mp run.grouping).length_eq
    exact hgroup (length_eq_zero_iff.mp hnone)
  intro row hrow
  obtain ⟨key, hkey, hcells⟩ := forall₂_mem_right heach.cells hrow
  obtain ⟨origin, horigin, hcell⟩ := ((heach.occurs key).mp hkey).cell htyped hne
  refine ⟨origin, horigin, ?_⟩
  rintro i j ⟨colRef, asAlias, hitem, hresolve⟩
  obtain ⟨v, hv, i', pos, hresolve', hpos, hget⟩ := forall₂_getElem? hcells.flip hitem
  cases hresolve.symm.trans hresolve'
  have hlt := Scope.tryResolve_lt (okOr_eq_ok.mp hresolve)
  rw [hv, ← (hcell pos i _ hpos (getElem?_eq_getElem hlt)).1, hget]

/-- A grouped query is sorted by the first output columns labelled as the items of its `ORDER BY`
are. An item that names a grouping column by its label sorts by that column. -/
theorem orderBy_grouped (htyped : RowsTyped scope rows) (hgroup : groupBy ≠ [])
    (h : executeAggregate lib scope rows projection groupBy orderBy limit offset = .ok result) :
    ∃ sortKeys : List (Nat × Bool),
      Forall₂ (fun item key => FirstLabelled result.columns item.column.column key.1 ∧
        key.2 = item.descending ∧ ∀ i j, scope.resolve item.column = .ok i →
          ProjectedAs scope projection i j → FirstLabelled result.columns item.column.column j →
          key.1 = j) orderBy sortKeys ∧
      (result.rows.Pairwise fun a b => (rowOrdering sortKeys a b).isLE) ∧
      ∀ row ∈ result.rows, ∃ origin ∈ rows, ∀ i j, ProjectedAs scope projection i j →
        row[j]? = origin[i]? := by
  obtain ⟨indices, resolved, groups, output, sortKeys, run⟩ := executeAggregate_eq_ok.mp h
  refine ⟨sortKeys, ?_, sortAndPaginate_pairwise (run.sortTyped htyped) run.paged, ?_⟩
  · refine (mapM_eq_ok.mp run.sorting).imp fun item key hkey => ?_
    obtain ⟨idx, hidx, hkey⟩ := bind_eq_ok.mp hkey
    cases hkey
    rw [← run.columns] at hidx
    have hfirst := firstLabelled_of_columnIndex hidx
    exact ⟨hfirst, rfl, fun i j _ _ hj => hfirst.unique hj⟩
  · exact fun row hrow => run.origin htyped hgroup row (mem_of_sortAndPaginate run.paged hrow)

def pairScope : Scope :=
  let columns : List ColumnSchema := [⟨"k", .int, true, false⟩, ⟨"j", .int, true, false⟩]
  (Scope.single "a" columns).pushTable "b" columns

def pairRows : List Row := [[.int 1, .int 2, .int 2, .int 1], [.int 2, .int 1, .int 1, .int 2]]

def pairItems : List SelectItem :=
  [.expr (.column ⟨some "a", "k"⟩) none, .expr (.column ⟨some "b", "k"⟩) none]

def pairResult : QueryResult :=
  ⟨[⟨"k", .int, true, false⟩, ⟨"k", .int, true, false⟩], [[.int 1, .int 2], [.int 2, .int 1]], 0⟩

theorem pairRows_typed : RowsTyped pairScope pairRows := by
  intro row hrow
  simp only [pairRows, mem_cons, not_mem_nil, or_false] at hrow
  rcases hrow with rfl | rfl
  all_goals exact .cons (.inr trivial) (.cons (.inr trivial) (.cons (.inr trivial)
    (.cons (.inr trivial) .nil)))

/-- The table name in an `ORDER BY` is not looked at. -/
theorem executeAggregate_pairs (table : Option String) :
    executeAggregate .plain pairScope pairRows pairItems [⟨some "a", "k"⟩, ⟨some "b", "k"⟩]
      [⟨⟨table, "k"⟩, false⟩] none none = .ok pairResult := by
  have hkeys : sortedKeys .plain [([.int 1, .int 2], [[.int 1, .int 2, .int 2, .int 1]]),
      ([.int 2, .int 1], [[.int 2, .int 1, .int 1, .int 2]])] = [[.int 1, .int 2], [.int 2, .int 1]] :=
    mergeSort_of_pairwise (by decide)
  have hsort : sortRows .plain [(0, false)] none none pairResult.rows = pairResult.rows :=
    mergeSort_of_pairwise (by decide)
  refine executeAggregate_eq_ok.mpr ⟨[0, 2], [(.groupColumn 0, ⟨"k", .int, true, false⟩),
    (.groupColumn 1, ⟨"k", .int, true, false⟩)], _, pairResult.rows, [(0, false)], by decide,
    by decide, by decide +kernel, rfl, ?_, rfl, ?_, rfl, rfl⟩
  · exact (congrArg _ hkeys).trans rfl
  · rw [sortAndPaginate, hsort]
    rfl

theorem orderBy_grouped_pairs :
    executeAggregate .plain pairScope pairRows pairItems [⟨some "a", "k"⟩, ⟨some "b", "k"⟩]
        [⟨⟨some "a", "k"⟩, false⟩] none none = .ok pairResult ∧
      pairResult.rows.Pairwise fun a b => (rowOrdering [(0, false)] a b).isLE := by
  have hok := executeAggregate_pairs (some "a")
  obtain ⟨sortKeys, hkeys, hsorted, -⟩ := orderBy_grouped pairRows_typed (by simp) hok
  obtain ⟨⟨idx, descending⟩, rest, ⟨-, hdescending, hcolumn⟩, hrest, rfl⟩ :=
    forall₂_cons_left_iff.mp hkeys
  cases hrest
  have hidx : idx = 0 := hcolumn 0 0 (by decide) ⟨_, none, rfl, by decide⟩ ⟨rfl, nofun⟩
  subst hidx hdescending
  exact ⟨hok, hsorted⟩

/-- Sorted by the other table's column of the same name. -/
theorem orderBy_other_table :
    executeAggregate .plain pairScope pairRows pairItems [⟨some "a", "k"⟩, ⟨some "b", "k"⟩]
        [⟨⟨some "b", "k"⟩, false⟩] none none = .ok pairResult ∧
      pairScope.resolve ⟨some "b", "k"⟩ = .ok 2 ∧ ProjectedAs pairScope pairItems 2 1 ∧
      ¬ pairResult.rows.Pairwise fun a b => (rowOrdering [(1, false)] a b).isLE := by
  refine ⟨executeAggregate_pairs (some "b"), by decide, ⟨_, none, rfl, by decide⟩, by decide⟩

end

end MysqlRust
