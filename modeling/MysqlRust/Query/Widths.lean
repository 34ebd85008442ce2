import MysqlRust.Query.Select

/-! # Rows as wide as their columns

Every position a `SELECT` reads is the position of a column it has resolved. When all rows
have as many cells as there are columns in scope, no read is out of range.
-/
namespace MysqlRust

open Outcome List

def HaveWidth (n : Nat) (rows : List Row) : Prop := ∀ row ∈ rows, row.length = n
  deriving Decidable

section
variable {n : Nat} {rows : List Row}
variable {rows' : List Row}

theorem HaveWidth.append (h : HaveWidth n rows) (h' : HaveWidth n rows') :
    HaveWidth n (rows ++ rows') :=
  forall_mem_append.mpr ⟨h, h'⟩

theorem HaveWidth.subset (h : HaveWidth n rows) (hsub : ∀ row ∈ rows', row ∈ rows) :
    HaveWidth n rows' :=
  fun row hrow => h row (hsub row hrow)

theorem filterRows_post {filter : Row → Result Bool}
    (hfilter : ∀ row ∈ rows, (filter row).Post fun _ => True) :
    (filterRows filter rows).Post fun kept => ∀ row ∈ kept, row ∈ rows := by
  induction rows with
  | nil => exact fun _ h => h
  | cons row rows ih =>
    refine (hfilter row mem_cons_self).bind fun keep _ => ?_
    refine (ih fun r hr => hfilter r (mem_cons_of_mem row hr)).bind fun rest hrest => ?_
    intro r hr
    split at hr
    · rcases mem_cons.mp hr with rfl | hr
      · exact mem_cons_self
      · exact mem_cons_of_mem row (hrest r hr)
    · exact mem_cons_of_mem row (hrest r hr)

theorem filterRows_cell {i : Nat} {f : Value → Bool} (h : HaveWidth n rows) (hi : i < n) :
    (filterRows (fun row => do
      let cell ← Outcome.index row i
      pure (f cell)) rows).Post fun kept => ∀ row ∈ kept, row ∈ rows := by
  refine filterRows_post fun row hrow => ?_
  have hlt : i < row.length := (h row hrow).symm ▸ hi
  exact (index_post hlt).bind fun _ _ => trivial

theorem coerce_post (expr : Expr) (columnType : ColumnType) (columnName : String) :
    (coerce expr columnType columnName).Post fun _ => True := by
  unfold coerce
  split
  case h_5 => exact (okOr_post _ fun _ _ => trivial).map fun _ _ => trivial
  case h_6 | h_7 | h_8 => exact (rescaleDecimal_post _ _ _ _).map fun _ _ => trivial
  case h_10 =>
    refine (parseDecimalLiteral_post _ _).bind fun p _ => ?_
    exact (rescaleDecimal_post _ _ _ _).map fun _ _ => trivial
  case h_11 => exact (parseDateLiteral_post _ _).map fun _ _ => trivial
  all_goals trivial

theorem takeNamed_post (insertColumns : List String) (values : List Expr) (taken : List String)
    (columns : List ColumnSchema) :
    (takeNamed insertColumns values taken columns).Post fun _ => True := by
  induction columns generalizing taken with
  | nil => trivial
  | cons col cols ih =>
    have hrest : ∀ expr, ((takeNamed insertColumns values (col.name :: taken) cols) >>= fun rest =>
        (pure (expr :: rest) : Result (List Expr))).Post fun _ => True := fun expr =>
      (ih _).bind fun _ _ => trivial
    simp only [takeNamed]
    split
    · exact hrest _
    · split
      · exact hrest _
      · trivial

theorem orderedExprs_post (table : String) (schema : TableSchema) (columns : Option (List String))
    (row : List Expr) : (orderedExprs table schema columns row).Post fun exprs =>
      exprs.length = schema.columns.length := by
  have hlength : ∀ ordered : List Expr, (if ordered.length ≠ schema.columns.length then
      .err (columnCountMismatch table schema.columns.length ordered.length)
      else pure ordered : Result (List Expr)).Post fun exprs =>
        exprs.length = schema.columns.length := by
    intro ordered
    split
    · trivial
    · rename_i hlen
      exact not_not.mp hlen
  cases columns with
  | none => exact hlength row
  | some cols =>
    refine .bind (P := fun _ => True) ?_ fun ordered _ => hlength ordered
    refine .ite trivial ?_
    split
    · trivial
    · exact takeNamed_post _ _ _ _

variable {scope newTableScope : Scope}
variable {colRef : ColumnRef} {i : Nat}

/-- The reference names the column at a position, with its table if it is given. -/
def Scope.NamedAt (scope : Scope) (colRef : ColumnRef) (i : Nat) : Prop :=
  ∃ column, scope.columns[i]? = some column ∧ column.name = colRef.column ∧
    ∀ q ∈ colRef.table, (scope.qualifiers.zip scope.columns)[i]? = some (q, column)

theorem Scope.tryResolve_eq_some (h : scope.tryResolve colRef = some i) :
    scope.NamedAt colRef i := by
  unfold Scope.tryResolve at h
  split at h
  · rename_i q htable
    obtain ⟨hlt, hp, -⟩ := findIdx?_eq_some_iff_getElem.mp h
    rw [getElem_zip] at hp
    obtain ⟨hq, hname⟩ := of_decide_eq_true hp
    refine ⟨_, getElem?_eq_getElem _, hname, fun q' hq' => ?_⟩
    rw [htable, Option.mem_some] at hq'
    rw [← hq', ← hq, ← getElem_zip]
    exact getElem?_eq_getElem hlt
  · rename_i htable
    split at h
    · rename_i first hfirst
      cases h
      have hmem : first ∈ scope.columns.zipIdx.filter fun p => p.1.name = colRef.column := by
        rw [hfirst]
        exact mem_cons_self
      obtain ⟨hmem, hname⟩ := mem_filter.mp hmem
      refine ⟨first.1, mem_zipIdx_iff_getElem?.mp hmem, of_decide_eq_true hname, fun q hq => ?_⟩
      rw [htable] at hq
      cases hq
    · cases h

theorem Scope.tryResolve_lt (h : scope.tryResolve colRef = some i) : i < scope.columns.length := by
  obtain ⟨column, hcolumn, -⟩ := Scope.tryResolve_eq_some h
  exact (List.getElem?_eq_some_iff.mp hcolumn).1

theorem Scope.resolve_post (scope : Scope) (colRef : ColumnRef) :
    (scope.resolve colRef).Post (· < scope.columns.length) :=
  okOr_post _ fun _ => Scope.tryResolve_lt

theorem resolveSingleTableColumn_post (columns : List ColumnSchema) (qualifier : String)
    (colRef : ColumnRef) :
    (resolveSingleTableColumn columns qualifier colRef).Post (· < columns.length) :=
  .ite trivial (columnIndex_post columns colRef.column)

/-- One side of `ON` is a column already in scope, the other one of the new table. -/
theorem joinColumns_sides (join : JoinClause) :
    (joinColumns scope newTableScope join).Post fun p => ∃ a b,
      (a = join.left ∧ b = join.right ∨ a = join.right ∧ b = join.left) ∧
        scope.tryResolve a = some p.1 ∧ newTableScope.tryResolve b = some p.2 := by
  unfold joinColumns
  split
  · rename_i hl hr
    exact ⟨_, _, .inl ⟨rfl, rfl⟩, hl, hr⟩
  · split
    · rename_i hl hr
      exact ⟨_, _, .inr ⟨rfl, rfl⟩, hl, hr⟩
    · trivial

theorem joinColumns_post (join : JoinClause) : (joinColumns scope newTableScope join).Post fun p =>
      p.1 < scope.columns.length ∧ p.2 < newTableScope.columns.length := by
  refine (joinColumns_sides join).mono fun p hp => ?_
  obtain ⟨a, b, -, hl, hr⟩ := hp
  exact ⟨Scope.tryResolve_lt hl, Scope.tryResolve_lt hr⟩

variable {m : Nat} {leftRows rightRows : List Row} {joinType : JoinType}
variable {rightIdx leftIdx : Nat}

theorem joinIndex_post (h : HaveWidth m rightRows) (hidx : rightIdx < m) :
    (joinIndex rightIdx rightRows).Post fun index =>
      ∀ key positions, index.lookup key = some positions → ∀ i ∈ positions, i < rightRows.length := by
  refine .foldlM (fun index hindex p hp => ?_) (by simp)
  have hmem := fst_mem_of_mem_zipIdx hp
  have hpos : p.2 < rightRows.length := snd_lt_of_mem_zipIdx hp
  refine (index_post ((h p.1 hmem).symm ▸ hidx)).bind fun cell _ => ?_
  intro key positions hlookup i hi
  split at hlookup
  · exact hindex key positions hlookup i hi
  · by_cases heq : key = cell
    · subst heq
      rw [Finmap.lookup_insert] at hlookup
      cases hlookup
      rcases mem_append.mp hi with hi | hi
      · cases hold : index.lookup key with
        | none => simp [hold] at hi
        | some old => exact hindex key old hold i (by simpa [hold] using hi)
      · rwa [mem_singleton.mp hi]
    · rw [Finmap.lookup_insert_of_ne _ heq] at hlookup
      exact hindex key positions hlookup i hi

theorem joinRow_post {index : Finmap fun _ : Value => List Nat} {leftIdx : Nat} {leftRow : Row}
    (hright : HaveWidth m rightRows) (hleft : leftRow.length = n) (hidx : leftIdx < n)
    (hindex : ∀ key positions, index.lookup key = some positions →
      ∀ i ∈ positions, i < rightRows.length) :
    (joinRow index leftIdx rightRows m joinType leftRow).Post (HaveWidth (n + m)) := by
  refine (index_post (hleft.symm ▸ hidx)).bind fun key _ => ?_
  split
  · rename_i positions hlookup
    split at hlookup
    · cases hlookup
    · refine .mapM_mem fun i hi => ?_
      have hlt := hindex key positions hlookup i hi
      rw [index_of_lt hlt, ok_bind]
      show (leftRow ++ rightRows[i]).length = n + m
      rw [length_append, hleft, hright _ (getElem_mem hlt)]
  · intro row hrow
    split at hrow
    · rw [mem_singleton.mp hrow]
      simp [hleft]
    · cases hrow

theorem hashJoin_post (hleft : HaveWidth n leftRows) (hright : HaveWidth m rightRows)
    (hleftIdx : leftIdx < n) (hrightIdx : rightIdx < m) :
    (hashJoin leftRows leftIdx rightRows rightIdx m joinType).Post (HaveWidth (n + m)) := by
  refine (joinIndex_post hright hrightIdx).bind fun index hindex => ?_
  have hrows : ∀ leftRow ∈ leftRows,
      (joinRow index leftIdx rightRows m joinType leftRow).Post (HaveWidth (n + m)) :=
    fun leftRow hmem => joinRow_post hright (hleft leftRow hmem) hleftIdx hindex
  refine (Post.mapM_mem hrows).bind fun joined hjoined => ?_
  intro row hrow
  obtain ⟨rows, hmem, hrow⟩ := mem_flatten.mp hrow
  exact hjoined rows hmem row hrow

theorem applyWhere_post {scope : Scope} {rows : List Row}
    (h : HaveWidth scope.columns.length rows) (selection : Option Condition) :
    (applyWhere rows scope selection).Post (HaveWidth scope.columns.length) := by
  cases selection with
  | none => exact h
  | some cond =>
    refine (scope.resolve_post cond.column).bind fun idx hidx => ?_
    refine (index_post hidx).bind fun column _ => ?_
    refine (coerce_post _ _ _).bind fun expected _ => ?_
    exact (filterRows_cell h hidx).mono fun kept hkept => h.subset hkept

variable {lib : Unspecified}

theorem sortAndPaginate_post {sortKeys : List (Nat × Bool)} {limit offset : Option UInt64}
    (h : HaveWidth n rows) (hkeys : ∀ key ∈ sortKeys, key.1 < n) :
    (sortAndPaginate lib rows sortKeys limit offset).Post (HaveWidth n) := by
  have hsortable : checkSortable sortKeys rows = .ok () := by
    refine if_neg ?_
    rintro ⟨-, row, hrow, key, hkey, hshort⟩
    have hlt := hkeys key hkey
    rw [← h row hrow] at hlt
    exact absurd hlt (Nat.not_lt.mpr hshort)
  cases hpaged : sortAndPaginate lib rows sortKeys limit offset with
  | ok paged => exact h.subset fun row hrow => mem_of_sortAndPaginate hpaged hrow
  | err e => trivial
  | panic => simp [sortAndPaginate, hsortable] at hpaged

theorem resolveProjection_post (projection : List SelectItem) :
    (resolveProjection scope projection).Post fun indices =>
      ∀ i ∈ indices, i < scope.columns.length := by
  unfold resolveProjection
  split
  · exact fun i hi => mem_range.mp hi
  · refine .mapM_mem fun item _ => ?_
    split
    · trivial
    · exact scope.resolve_post _
    · trivial

theorem sortKeys_post {resolve : ColumnRef → Result Nat} (orderBy : List OrderByItem)
    (hresolve : ∀ colRef, (resolve colRef).Post (· < n)) :
    (orderBy.mapM fun item : OrderByItem => do
      let idx ← resolve item.column
      pure (idx, item.descending) : Result (List (Nat × Bool))).Post fun keys =>
        ∀ key ∈ keys, key.1 < n := by
  refine .mapM_mem fun item _ => ?_
  exact (hresolve item.column).bind fun _ hidx => hidx

theorem executeProjected_post (h : HaveWidth scope.columns.length rows)
    (projection : List SelectItem) (orderBy : List OrderByItem) (limit offset : Option UInt64) :
    (executeProjected lib scope rows projection orderBy limit offset).Post fun _ => True := by
  refine (resolveProjection_post projection).bind fun indices hindices => ?_
  refine (sortKeys_post orderBy scope.resolve_post).bind fun sortKeys hkeys => ?_
  refine (sortAndPaginate_post h hkeys).bind fun paged hpaged => ?_
  refine (Post.mapM (R := fun _ _ => True) fun i hi => ?_).bind fun columns _ => ?_
  · exact index_post (hindices i hi)
  refine (Post.mapM (R := fun _ _ => True) fun row hrow => ?_).bind fun _ _ => trivial
  refine (Post.mapM (R := fun _ _ => True) fun i hi => ?_).mono fun _ _ => trivial
  exact index_post ((hpaged row hrow).symm ▸ hindices i hi)

variable {idx : Nat} {groupByIndices : List Nat}
variable {name : String}

def ArgBelow (n : Nat) (argCol : Option (Nat × ColumnType)) : Prop := ∀ p ∈ argCol, p.1 < n

theorem resolveAggregateArg_post (args : List Expr) :
    (resolveAggregateArg args scope).Post (ArgBelow scope.columns.length) := by
  unfold resolveAggregateArg
  split
  · exact nofun
  · refine (scope.resolve_post _).bind fun idx hidx => ?_
    refine (index_post hidx).bind fun column _ => ?_
    intro p hp
    cases hp
    exact hidx
  · trivial

theorem mem_aggregateNames (h : isAggregateFunctionName name = true) :
    upperName name = "COUNT" ∨ upperName name = "SUM" ∨ upperName name = "AVG" ∨
      upperName name = "MIN" ∨ upperName name = "MAX" := by
  simpa [isAggregateFunctionName] using h

theorem aggregateResultType_post (h : isAggregateFunctionName name = true)
    (argType : Option ColumnType) : (aggregateResultType name argType).Post fun _ => True := by
  unfold aggregateResultType
  rcases mem_aggregateNames h with hname | hname | hname | hname | hname
  all_goals rw [hname]
  · trivial
  · rcases argType with _ | _ | _ <;> trivial
  · rcases argType with _ | _ | _ <;> trivial
  · exact okOr_post _ fun _ _ => trivial
  · exact okOr_post _ fun _ _ => trivial

theorem sumColumn_post {overflow : Error} {amount : Value → Option Int64} (h : HaveWidth n rows)
    (hidx : idx < n) : (sumColumn overflow idx amount rows).Post fun _ => True := by
  refine .foldlM (P := fun _ => True) (fun acc _ row hrow => ?_) trivial
  refine (index_post ((h row hrow).symm ▸ hidx)).bind fun cell _ => ?_
  split
  · exact (okOr_post (P := fun _ => True) _ fun _ _ => trivial).bind fun _ _ => trivial
  · trivial

variable {argCol : Option (Nat × ColumnType)}

theorem argument_post {β : Type} {e : Error} {f : Nat × ColumnType → Result β}
    (harg : ArgBelow n argCol) (hf : ∀ p, p.1 < n → (f p).Post fun _ => True) :
    (okOr e argCol >>= f).Post fun _ => True :=
  (okOr_post (P := fun p => p.1 < n) e fun p hp => harg p hp).bind hf

theorem evaluateCount_post (h : HaveWidth n rows) (harg : ArgBelow n argCol) :
    (evaluateCount argCol rows).Post fun _ => True := by
  cases argCol with
  | none => trivial
  | some p => exact (filterRows_cell h (harg p rfl)).bind fun _ _ => trivial

theorem evaluateSum_post (h : HaveWidth n rows) (harg : ArgBelow n argCol) :
    (evaluateSum argCol rows).Post fun _ => True := by
  refine argument_post harg fun p hp => ?_
  obtain ⟨idx, columnType⟩ := p
  cases columnType with
  | int => exact (sumColumn_post h hp).bind fun _ _ => trivial
  | decimal scale => exact (sumColumn_post h hp).bind fun _ _ => trivial
  | varchar => trivial
  | date => trivial

theorem averageColumn_post (h : HaveWidth n rows) (hidx : idx < n) (sourceScale : UInt8) :
    (averageColumn sourceScale idx rows).Post fun _ => True := by
  have hokOr : ∀ {α : Type} (e : Error) (o : Option α), (okOr e o).Post fun _ => True :=
    fun e o => okOr_post e fun _ _ => trivial
  refine (sumColumn_post h hidx).bind fun sum _ => .ite trivial ?_
  refine (hokOr _ _).bind fun factor _ => (hokOr _ _).bind fun scaledSum _ => ?_
  exact (hokOr _ _).bind fun rounded _ => trivial

theorem evaluateAverage_post (h : HaveWidth n rows) (harg : ArgBelow n argCol) :
    (evaluateAverage argCol rows).Post fun _ => True := by
  refine argument_post harg fun p hp => ?_
  obtain ⟨idx, columnType⟩ := p
  cases columnType with
  | int => exact averageColumn_post h hp 0
  | decimal scale => exact averageColumn_post h hp scale
  | varchar => trivial
  | date => trivial

theorem evaluateExtreme_post {wantMin : Bool} (h : HaveWidth n rows) (harg : ArgBelow n argCol) :
    (evaluateExtreme name wantMin argCol rows).Post fun _ => True := by
  refine argument_post harg fun p hp => ?_
  refine .bind (P := fun _ => True) ?_ fun _ _ => trivial
  refine .foldlM (P := fun _ => True) (fun best _ row hrow => ?_) trivial
  refine (index_post ((h row hrow).symm ▸ hp)).bind fun v _ => .ite trivial ?_
  cases best <;> trivial

theorem evaluateAggregate_post (hname : isAggregateFunctionName name = true) (h : HaveWidth n rows)
    (harg : ArgBelow n argCol) : (evaluateAggregate name argCol rows).Post fun _ => True := by
  unfold evaluateAggregate
  rcases mem_aggregateNames hname with hname | hname | hname | hname | hname
  all_goals rw [hname]
  · exact evaluateCount_post h harg
  · exact evaluateSum_post h harg
  · exact evaluateAverage_post h harg
  · exact evaluateExtreme_post h harg
  · exact evaluateExtreme_post h harg

def ResolvedAggregateItem.Below (n keyWidth : Nat) : ResolvedAggregateItem → Prop
  | .groupColumn pos => pos < keyWidth
  | .aggregate name argCol => isAggregateFunctionName name = true ∧ ArgBelow n argCol

theorem resolveAggregateItem_post {item : SelectItem} (hitem : item.isWildcard = false) :
    (resolveAggregateItem scope groupByIndices item).Post fun p =>
      p.1.Below scope.columns.length groupByIndices.length := by
  unfold resolveAggregateItem
  split
  · cases hitem
  · refine (scope.resolve_post _).bind fun idx hidx => ?_
    refine (okOr_post (P := (· < groupByIndices.length)) _ fun _ => Table.findIdx?_lt).bind
      fun pos hpos => ?_
    exact (index_post hidx).bind fun column _ => hpos
  · split
    · rename_i hname
      refine (resolveAggregateArg_post _).bind fun argCol harg => ?_
      refine (aggregateResultType_post hname _).bind fun columnType _ => ?_
      cases argCol with
      | none => exact ⟨hname, harg⟩
      | some p => exact (index_post (harg p rfl)).bind fun _ _ => ⟨hname, harg⟩
    · trivial
  · trivial

theorem mem_addToGroup {key row : Row} {groups : List (Row × List Row)} {g : Row × List Row}
    (hg : g ∈ addToGroup key row groups) :
    g ∈ groups ∨ g.1 = key ∧ (g.2 = [row] ∨ ∃ g' ∈ groups, g'.1 = key ∧ g.2 = g'.2 ++ [row]) := by
  induction groups with
  | nil =>
    rw [addToGroup, mem_singleton] at hg
    exact .inr ⟨congrArg Prod.fst hg, .inl (congrArg Prod.snd hg)⟩
  | cons g' groups ih =>
    simp only [addToGroup] at hg
    split at hg
    · rename_i hkey
      rcases mem_cons.mp hg with rfl | hg
      · exact .inr ⟨hkey, .inr ⟨g', mem_cons_self, hkey, rfl⟩⟩
      · exact .inl (mem_cons_of_mem g' hg)
    · rcases mem_cons.mp hg with rfl | hg
      · exact .inl mem_cons_self
      · rcases ih hg with hg | ⟨hkey, hg | ⟨g₀, hg₀, hkey₀, hrows⟩⟩
        · exact .inl (mem_cons_of_mem g' hg)
        · exact .inr ⟨hkey, .inl hg⟩
        · exact .inr ⟨hkey, .inr ⟨g₀, mem_cons_of_mem g' hg₀, hkey₀, hrows⟩⟩

theorem groupRows_post (h : HaveWidth n rows) (hindices : ∀ i ∈ groupByIndices, i < n) :
    (groupRows groupByIndices rows).Post fun groups =>
      ∀ g ∈ groups, g.1.length = groupByIndices.length ∧ HaveWidth n g.2 := by
  unfold groupRows
  split
  · rename_i hnil
    intro g hg
    rw [mem_singleton.mp hg, hnil]
    exact ⟨rfl, h⟩
  · refine .foldlM (fun groups hgroups row hrow => ?_) (by simp)
    refine (Post.mapM (R := fun _ _ => True) fun i hi => ?_).bind fun key hkey => ?_
    · exact index_post ((h row hrow).symm ▸ hindices i hi)
    · have hrowWidth : HaveWidth n [row] := fun r hr => by rw [mem_singleton.mp hr, h row hrow]
      intro g hg
      rcases mem_addToGroup hg with hg | ⟨hgkey, hg | ⟨g', hg', -, hg⟩⟩
      · exact hgroups g hg
      · exact ⟨hgkey ▸ hkey.length_eq.symm, hg ▸ hrowWidth⟩
      · exact ⟨hgkey ▸ hkey.length_eq.symm, hg ▸ (hgroups g' hg').2.append hrowWidth⟩

/-- Grouping rows as wide as the scope does not panic. -/
theorem executeAggregate_post {lib : Unspecified} (h : HaveWidth scope.columns.length rows)
    (projection : List SelectItem) (groupBy : List ColumnRef) (orderBy : List OrderByItem)
    (limit offset : Option UInt64) :
    (executeAggregate lib scope rows projection groupBy orderBy limit offset).Post
      fun _ => True := by
  refine (Post.mapM_mem fun colRef _ => scope.resolve_post colRef).bind
    fun groupByIndices hbelow => ?_
  split
  · trivial
  rename_i hwildcard
  refine (Post.mapM_mem (Q := fun p => p.1.Below scope.columns.length groupByIndices.length)
    fun item hitem => ?_).bind fun resolved hresolved => ?_
  · refine resolveAggregateItem_post (Bool.eq_false_of_not_eq_true fun hw => hwildcard ?_)
    exact any_eq_true.mpr ⟨item, hitem, hw⟩
  refine (groupRows_post h hbelow).bind fun groups hgroups => ?_
  refine (Post.mapM_mem (Q := fun row => row.length = (resolved.map Prod.snd).length)
    fun key hkey => ?_).bind fun outputRows hwidth => ?_
  · obtain ⟨g, hg, rfl⟩ := mem_map.mp
      ((lib.visit_perm _).mem_iff.mp (mem_mergeSort.mp hkey))
    have hgroup : HaveWidth scope.columns.length
        (((groups.find? fun g' => g'.1 = g.1).map Prod.snd).getD []) := by
      cases hfind : groups.find? fun g' => g'.1 = g.1 with
      | none => exact nofun
      | some g' => exact (hgroups g' (mem_of_find?_eq_some hfind)).2
    refine (Post.mapM (R := fun _ _ => True) fun p hp => ?_).mono fun row hrow => ?_
    · have hitem := hresolved p hp
      obtain ⟨item, column⟩ := p
      cases item with
      | groupColumn pos => exact index_post ((hgroups g hg).1.symm ▸ hitem)
      | aggregate name argCol => exact evaluateAggregate_post hitem.1 hgroup hitem.2
    · rw [length_map]
      exact hrow.length_eq.symm
  have hresolve : ∀ colRef : ColumnRef, (columnIndex (resolved.map Prod.snd) colRef.column).Post
      (· < (resolved.map Prod.snd).length) := fun colRef => columnIndex_post _ _
  refine (sortKeys_post orderBy hresolve).bind fun sortKeys hkeys => ?_
  exact (sortAndPaginate_post hwidth hkeys).bind fun _ _ => trivial

theorem executeSelectWithoutTable_post (vars : SystemVariables) (projection : List SelectItem)
    (limit offset : Option UInt64) :
    (executeSelectWithoutTable vars projection limit offset).Post fun _ => True := by
  refine (Post.mapM (R := fun _ _ => True) fun item _ => ?_).bind fun _ _ => trivial
  cases item with
  | wildcard => trivial
  | expr expr asAlias => cases expr <;> trivial

end

end MysqlRust
