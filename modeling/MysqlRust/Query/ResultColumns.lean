import MysqlRust.Query.Grouping

/-! # Columns of a result

The columns of a result follow the `SELECT` list: one for each item, under its alias if it has
one, with the cells the item stands for. A `SELECT` of columns of a table forgets the aliases.
-/
namespace MysqlRust

open Outcome List Lists

def SelectItem.Labels : SelectItem → ColumnSchema → Prop
  | .expr _ (some asAlias), column => column.name = asAlias
  | _, _ => True

def SelectItem.Constant (vars : SystemVariables) : SelectItem → Unit → Value → Prop
  | .expr e _, _, v => ∃ name, constantItem vars e = .ok (name, v)
  | .wildcard, _, _ => False

def SelectItem.CellOf (scope : Scope) : SelectItem → Row → Value → Prop
  | .expr (.column colRef) _, row, v => ∃ i, scope.resolve colRef = .ok i ∧ row[i]? = some v
  | _, _, _ => False

/-- One column for each item, under its alias, and in every row one cell for each item, which is
what the items stand for in one place. -/
structure FollowsItems {ρ : Type} (yields : SelectItem → ρ → Value → Prop) (origins : List ρ)
    (items : List SelectItem) (result : QueryResult) : Prop where
  labels : Forall₂ SelectItem.Labels items result.columns
  cells : ∀ row ∈ result.rows, ∃ origin ∈ origins,
    Forall₂ (fun item v => yields item origin v) items row

theorem executeSelectWithoutTable_follows {vars : SystemVariables} {projection : List SelectItem}
    {limit offset : Option UInt64} {result : QueryResult}
    (h : executeSelectWithoutTable vars projection limit offset = .ok result) :
    FollowsItems (SelectItem.Constant vars) [()] projection result := by
  obtain ⟨items, hitems, hresult⟩ := bind_eq_ok.mp h
  have hitem : Forall₂ (fun (item : SelectItem) (p : ColumnSchema × Value) =>
      item.Labels p.1 ∧ item.Constant vars () p.2) projection items := by
    refine (mapM_eq_ok.mp hitems).imp fun item p hp => ?_
    cases item with
    | wildcard => cases hp
    | expr expr asAlias =>
      obtain ⟨⟨name, v⟩, hv, hp⟩ := bind_eq_ok.mp hp
      cases hp
      cases asAlias with
      | none => exact ⟨trivial, name, hv⟩
      | some asAlias => exact ⟨rfl, name, hv⟩
  cases hresult
  constructor
  · rw [forall₂_map_right_iff]
    exact hitem.imp fun _ _ hp => hp.1
  · intro row hrow
    have hrow : row = items.map Prod.snd := by
      dsimp only at hrow
      split_ifs at hrow
      · cases hrow
      · exact mem_singleton.mp hrow
    refine ⟨(), mem_singleton_self _, ?_⟩
    rw [hrow, forall₂_map_right_iff]
    exact hitem.imp fun _ _ hp => hp.2

section
variable {lib : Unspecified} {scope : Scope} {rows : List Row} {projection : List SelectItem}
  {orderBy : List OrderByItem} {limit offset : Option UInt64} {result : QueryResult}
  {indices : List Nat}

theorem Scope.resolve_name {colRef : ColumnRef} {i : Nat} {column : ColumnSchema}
    (h : scope.resolve colRef = .ok i) (hcolumn : scope.columns[i]? = some column) :
    column.name = colRef.column := by
  obtain ⟨column', hcolumn', hname, -⟩ := Scope.tryResolve_eq_some (okOr_eq_ok.mp h)
  rw [hcolumn, Option.some.injEq] at hcolumn'
  rw [hcolumn', hname]

theorem executeProjected_eq_ok
    (h : executeProjected lib scope rows projection orderBy limit offset = .ok result) :
    ∃ indices, resolveProjection scope projection = .ok indices ∧
      Forall₂ (fun i column => scope.columns[i]? = some column) indices result.columns ∧
      ∀ row ∈ result.rows, ∃ origin ∈ rows,
        Forall₂ (fun i v => origin[i]? = some v) indices row := by
  obtain ⟨indices, hindices, h⟩ := bind_eq_ok.mp h
  obtain ⟨sortKeys, -, h⟩ := bind_eq_ok.mp h
  obtain ⟨paged, hpaged, h⟩ := bind_eq_ok.mp h
  obtain ⟨columns, hcolumns, h⟩ := bind_eq_ok.mp h
  obtain ⟨projected, hprojected, h⟩ := bind_eq_ok.mp h
  cases h
  refine ⟨indices, hindices, ?_, ?_⟩
  · exact (mapM_eq_ok.mp hcolumns).imp fun _ _ => index_eq_ok.mp
  · intro row hrow
    obtain ⟨origin, horigin, hcells⟩ :=
      forall₂_mem_right (mapM_eq_ok.mp hprojected) hrow
    refine ⟨origin, mem_of_sortAndPaginate hpaged horigin, ?_⟩
    exact (mapM_eq_ok.mp hcells).imp fun _ _ => index_eq_ok.mp

theorem eq_take_of_forall₂_range {α : Type} {l l' : List α} {n : Nat}
    (h : Forall₂ (fun i a => l[i]? = some a) (range n) l') : l' = l.take n := by
  have hlength := h.length_eq
  rw [length_range] at hlength
  refine ext_getElem? fun i => ?_
  by_cases hi : i < n
  · obtain ⟨a, ha, hget⟩ := forall₂_getElem? h.flip (getElem?_range hi)
    rw [ha, getElem?_take_of_lt hi, hget]
  · rw [getElem?_eq_none (by omega), getElem?_take_eq_none (by omega)]

theorem executeProjected_wildcard
    (h : executeProjected lib scope rows [.wildcard] orderBy limit offset = .ok result) :
    result.columns = scope.columns ∧ ∀ row ∈ result.rows,
      row.length = scope.columns.length ∧ ∃ origin ∈ rows, row <+: origin := by
  obtain ⟨indices, hindices, hcolumns, hrows⟩ := executeProjected_eq_ok h
  cases hindices
  constructor
  · rw [eq_take_of_forall₂_range hcolumns, take_length]
  · intro row hrow
    obtain ⟨origin, horigin, hcells⟩ := hrows row hrow
    refine ⟨?_, origin, horigin, ?_⟩
    · rw [← hcells.length_eq, length_range]
    · rw [eq_take_of_forall₂_range hcells]
      exact take_prefix _ origin

theorem resolveProjection_items (hitems : projection ≠ [.wildcard])
    (h : resolveProjection scope projection = .ok indices) :
    Forall₂ (fun item i => ∃ colRef asAlias, item = SelectItem.expr (.column colRef) asAlias ∧
      scope.resolve colRef = .ok i) projection indices := by
  unfold resolveProjection at h
  split at h
  · exact absurd rfl hitems
  · refine (mapM_eq_ok.mp h).imp fun item i hi => ?_
    split at hi
    · cases hi
    · exact ⟨_, _, rfl, hi⟩
    · cases hi

def SameNames (projection : List SelectItem) : Prop :=
  ∀ colRef asAlias, SelectItem.expr (.column colRef) (some asAlias) ∈ projection →
    asAlias = colRef.column

theorem labels_iff_sameNames {columns : List ColumnSchema}
    (h : Forall₂ (fun item (column : ColumnSchema) => ∃ colRef asAlias,
      item = SelectItem.expr (.column colRef) asAlias ∧ column.name = colRef.column)
      projection columns) :
    Forall₂ SelectItem.Labels projection columns ↔ SameNames projection := by
  constructor
  · intro hlabels colRef asAlias hitem
    obtain ⟨i, hi⟩ := mem_iff_getElem?.mp hitem
    obtain ⟨column, hcolumn, colRef', asAlias', heq, hname⟩ := forall₂_getElem? h.flip hi
    obtain ⟨column', hcolumn', hlabel⟩ := forall₂_getElem? hlabels.flip hi
    cases heq
    cases hcolumn.symm.trans hcolumn'
    exact hlabel.symm.trans hname
  · intro hsame
    induction h with
    | nil => exact .nil
    | @cons item column items columns hitem _ ih =>
      refine .cons ?_ (ih fun colRef asAlias hmem => hsame colRef asAlias (.tail _ hmem))
      obtain ⟨colRef, asAlias, rfl, hname⟩ := hitem
      cases asAlias with
      | none => trivial
      | some asAlias => exact hname.trans (hsame colRef asAlias mem_cons_self).symm

theorem executeProjected_follows_iff (hitems : projection ≠ [.wildcard])
    (h : executeProjected lib scope rows projection orderBy limit offset = .ok result) :
    FollowsItems (SelectItem.CellOf scope) rows projection result ↔ SameNames projection := by
  obtain ⟨indices, hindices, hcolumns, hrows⟩ := executeProjected_eq_ok h
  have hresolved := resolveProjection_items hitems hindices
  have hnamed := forall₂_comp (T := fun item (column : ColumnSchema) => ∃ colRef asAlias,
      item = SelectItem.expr (.column colRef) asAlias ∧ column.name = colRef.column)
    (fun item i column ⟨colRef, asAlias, heq, hi⟩ hcolumn =>
      ⟨colRef, asAlias, heq, Scope.resolve_name hi hcolumn⟩) hresolved hcolumns
  rw [← labels_iff_sameNames hnamed]
  refine ⟨FollowsItems.labels, fun hlabels => ⟨hlabels, fun row hrow => ?_⟩⟩
  obtain ⟨origin, horigin, hcells⟩ := hrows row hrow
  refine ⟨origin, horigin, forall₂_comp ?_ hresolved hcells⟩
  rintro item i v ⟨colRef, asAlias, rfl, hi⟩ hv
  exact ⟨i, hi, hv⟩

variable {groupBy : List ColumnRef}

theorem labels_of_resolved {indices : List Nat} {item : SelectItem}
    {p : ResolvedAggregateItem × ColumnSchema}
    (h : resolveAggregateItem scope indices item = .ok p) : item.Labels p.2 := by
  obtain ⟨plan, column⟩ := p
  rcases resolveAggregateItem_eq_ok h with ⟨colRef, asAlias, i, pos, column', rfl, -, -, -, -, hlabel, -⟩ |
    ⟨name, args, asAlias, argCol, label, rfl, -, -, -, -, hlabel⟩
  all_goals
    cases asAlias with
    | none => trivial
    | some asAlias => exact hlabel

theorem executeAggregate_follows
    (h : executeAggregate lib scope rows projection groupBy orderBy limit offset = .ok result) :
    ∃ indices groups, groupBy.mapM scope.resolve = .ok indices ∧ groupRows indices rows = .ok groups ∧
      FollowsItems (SelectItem.GroupValue scope indices) groups projection result := by
  obtain ⟨indices, resolved, groups, output, sortKeys, run⟩ := executeAggregate_eq_ok.mp h
  have hresolved := mapM_eq_ok.mp run.resolution
  refine ⟨indices, groups, run.grouping, run.collected, ?_, fun row hrow => ?_⟩
  · rw [run.columns, forall₂_map_right_iff]
    exact hresolved.imp fun _ _ => labels_of_resolved
  · obtain ⟨key, hkey, hcells⟩ := forall₂_mem_right (mapM_eq_ok.mp run.produced)
      (mem_of_sortAndPaginate run.paged hrow)
    obtain ⟨group, hgroup, rfl⟩ := mem_map.mp ((sortedKeys_perm lib groups).mem_iff.mp hkey)
    have hrows : rowsOf groups group.1 = group.2 := by
      rw [rowsOf, find?_of_nodup (groupRows_spec run.collected).1 hgroup]
      rfl
    rw [groupRow, hrows] at hcells
    refine ⟨group, hgroup, forall₂_comp ?_ hresolved (mapM_eq_ok.mp hcells)⟩
    exact fun _ _ _ hitem hv => groupValue_of_resolved hitem hv

variable {σ : Type} {ex : Executor} {storage : Storage (Proc σ Error)} {query : Select} {s : σ}

def selectSource (storage : Storage (Proc σ Error)) (query : Select) :
    Proc σ Error (Option (Scope × List Row)) :=
  match query.fromClause with
  | none => pure none
  | some fromClause => some <$> resolveFrom storage fromClause query.selection

/-- The columns of the result follow the `SELECT` list; a `*` stands for all columns. -/
def FollowsList (ex : Executor) (query : Select) (result : QueryResult) :
    Option (Scope × List Row) → Prop
  | none => FollowsItems (SelectItem.Constant ex.vars) [()] query.projection result
  | some (scope, rows) =>
    if isAggregateQuery query.projection query.groupBy then
      ∃ indices groups, query.groupBy.mapM scope.resolve = .ok indices ∧
        groupRows indices rows = .ok groups ∧
        FollowsItems (SelectItem.GroupValue scope indices) groups query.projection result
    else match query.projection with
      | [.wildcard] => result.columns = scope.columns ∧ ∀ row ∈ result.rows,
          row.length = scope.columns.length ∧ ∃ origin ∈ rows, row <+: origin
      | items => FollowsItems (SelectItem.CellOf scope) rows items result

def KeepsNames (query : Select) : Prop :=
  query.fromClause = none ∨ isAggregateQuery query.projection query.groupBy = true ∨
    SameNames query.projection

theorem executeProjected_followsList_iff {scope : Scope} {rows : List Row}
    (hfrom : query.fromClause ≠ none)
    (hplain : isAggregateQuery query.projection query.groupBy = false)
    (h : executeProjected ex.lib scope rows query.projection query.orderBy query.limit query.offset =
      .ok result) : FollowsList ex query result (some (scope, rows)) ↔ KeepsNames query := by
  have hnames : KeepsNames query ↔ SameNames query.projection := by
    simp [KeepsNames, hfrom, hplain]
  have hlist : FollowsList ex query result (some (scope, rows)) ↔ match query.projection with
      | [.wildcard] => result.columns = scope.columns ∧ ∀ row ∈ result.rows,
          row.length = scope.columns.length ∧ ∃ origin ∈ rows, row <+: origin
      | items => FollowsItems (SelectItem.CellOf scope) rows items result := by
    simp only [FollowsList, hplain, Bool.false_eq_true, if_false]
  rw [hnames, hlist]
  split
  · rename_i hprojection
    rw [hprojection] at h ⊢
    refine iff_of_true (executeProjected_wildcard h) fun colRef asAlias hitem => ?_
    cases mem_singleton.mp hitem
  · rename_i hitems
    exact executeProjected_follows_iff hitems h

/-- The columns follow the `SELECT` list exactly when no column of a table is given another
name. -/
theorem select_follows_iff (h : (executeSelect ex storage query s).1 = .ok result) :
    (∃ source, (selectSource storage query s).1 = .ok source ∧ FollowsList ex query result source) ↔
      KeepsNames query := by
  unfold executeSelect at h
  cases hfrom : query.fromClause with
  | none =>
    rw [hfrom] at h
    refine iff_of_true ⟨none, ?_, executeSelectWithoutTable_follows h⟩ (.inl hfrom)
    rw [selectSource, hfrom]
    rfl
  | some fromClause =>
    rw [hfrom] at h
    obtain ⟨⟨scope, rows⟩, s', hrun, hresult⟩ := Proc.bind_eq_ok (Prod.ext h rfl)
    have hsource : (selectSource storage query s).1 = .ok (some (scope, rows)) := by
      rw [selectSource, hfrom]
      dsimp only
      rw [map_eq_pure_bind, Proc.bind_ok hrun]
      rfl
    have hfollows : (∃ source, (selectSource storage query s).1 = .ok source ∧
        FollowsList ex query result source) ↔ FollowsList ex query result (some (scope, rows)) := by
      rw [hsource]
      simp
    rw [hfollows]
    cases hplain : isAggregateQuery query.projection query.groupBy with
    | true =>
      rw [hplain] at hresult
      refine iff_of_true ?_ (.inr (.inl hplain))
      rw [FollowsList, if_pos hplain]
      exact executeAggregate_follows (congrArg Prod.fst hresult)
    | false =>
      rw [hplain] at hresult
      exact executeProjected_followsList_iff (by rw [hfrom]; exact Option.some_ne_none _) hplain
        (congrArg Prod.fst hresult)

def selectSold : Select := ⟨soldItems, some ⟨⟨"t", none⟩, []⟩, none, [⟨none, "a"⟩], [], none, none⟩

def soldStore : Store :=
  ⟨Finmap.singleton "t" { Table.new soldScope.columns none with rows := soldRows }, ∅⟩

/-- A renamed column beside four aggregates. -/
theorem select_follows_sold :
    ∃ source, (selectSource (inMemoryStorage none) selectSold soldStore).1 = .ok source ∧
      FollowsList plainExecutor selectSold
        ⟨["k", "COUNT(*)", "COUNT(b)", "MIN(b)", "MAX(b)"].map fun name =>
          ⟨name, .int, true, false⟩, soldResult, 0⟩ source := by
  have hselect : (executeSelect plainExecutor (inMemoryStorage none) selectSold soldStore).1 = .ok _ :=
    executeAggregate_sold
  exact (select_follows_iff hselect).mpr (.inr (.inl rfl))

def selectColumn (asAlias : Option String) : Select :=
  ⟨[.expr (.column ⟨none, "a"⟩) asAlias], some ⟨⟨"t", none⟩, []⟩, none, [], [], none, none⟩

def oneColumn : Store :=
  ⟨Finmap.singleton "t" { Table.new [⟨"a", .int, true, false⟩] none with rows := [[.int 1]] }, ∅⟩

theorem executeSelect_oneColumn (asAlias : Option String) :
    (executeSelect plainExecutor (inMemoryStorage none) (selectColumn asAlias) oneColumn).1 =
      .ok ⟨[⟨"a", .int, true, false⟩], [[.int 1]], 0⟩ := by
  rfl

/-- The alias of a plain column does not label the result. -/
theorem select_drops_alias :
    (executeSelect plainExecutor (inMemoryStorage none) (selectColumn (some "b")) oneColumn).1 =
        .ok ⟨[⟨"a", .int, true, false⟩], [[.int 1]], 0⟩ ∧
      ¬ ∃ source,
        (selectSource (inMemoryStorage none) (selectColumn (some "b")) oneColumn).1 = .ok source ∧
        FollowsList plainExecutor (selectColumn (some "b"))
          ⟨[⟨"a", .int, true, false⟩], [[.int 1]], 0⟩ source := by
  refine ⟨executeSelect_oneColumn (some "b"), ?_⟩
  rintro ⟨_ | ⟨scope, rows⟩, hsource, hfollows⟩
  · cases hsource
  · have hcolumns : FollowsItems (SelectItem.CellOf scope) rows (selectColumn (some "b")).projection
        ⟨[⟨"a", .int, true, false⟩], [[.int 1]], 0⟩ := hfollows
    obtain ⟨hlabel, -⟩ := forall₂_cons.mp hcolumns.labels
    have hsame : "a" = "b" := hlabel
    exact absurd hsame (by decide)

end

end MysqlRust
