import MysqlRust.Query.Executor

/-! # The column list of an `INSERT`

Values are collected under the names of their columns, so of two values for one name only the
last is kept.
-/
namespace MysqlRust

open List

section
variable {insertColumns : List String} {values : List Expr} {name : String}

theorem namedExpr_eq_some {v : Expr} (h : namedExpr insertColumns values name = some v) :
    ∃ i : Nat, insertColumns[i]? = some name ∧ values[i]? = some v := by
  obtain ⟨p, hfind, rfl⟩ := Option.map_eq_some_iff.mp h
  have hname : p.1 = name := by simpa using find?_some hfind
  have hmem := mem_reverse.mp (mem_of_find?_eq_some hfind)
  obtain ⟨i, hi⟩ := mem_iff_getElem?.mp hmem
  obtain ⟨hcolumn, hvalue⟩ := getElem?_zip_eq_some.mp hi
  exact ⟨i, hname ▸ hcolumn, hvalue⟩

theorem namedExpr_eq_none (hlength : insertColumns.length = values.length) :
    namedExpr insertColumns values name = none ↔ name ∉ insertColumns := by
  rw [namedExpr, Option.map_eq_none_iff, find?_eq_none]
  constructor
  · intro h hmem
    obtain ⟨i, hi, rfl⟩ := mem_iff_getElem.mp hmem
    refine h (insertColumns[i], values[i]) (mem_reverse.mpr ?_) (decide_eq_true rfl)
    exact mem_iff_getElem?.mpr ⟨i, by simp [getElem?_zip_eq_some]⟩
  · intro hnot p hp hname
    have hcolumn := (of_mem_zip (mem_reverse.mp hp)).1
    rw [of_decide_eq_true hname] at hcolumn
    exact hnot hcolumn

/-- The expression a column gets: the one given last under its name, or `NULL` to be replaced
by the next number. -/
def FilledBy (insertColumns : List String) (values : List Expr) (col : ColumnSchema) (expr : Expr) :
    Prop :=
  namedExpr insertColumns values col.name = some expr ∨
    namedExpr insertColumns values col.name = none ∧ col.autoIncrement = true ∧ expr = .null

theorem takeNamed_filled {taken : List String} {columns : List ColumnSchema} {exprs : List Expr}
    (hdistinct : (columns.map ColumnSchema.name).Nodup)
    (htaken : ∀ col ∈ columns, col.name ∉ taken)
    (h : takeNamed insertColumns values taken columns = .ok exprs) :
    List.Forall₂ (FilledBy insertColumns values) columns exprs := by
  induction columns generalizing taken exprs with
  | nil =>
    cases h
    exact .nil
  | cons col cols ih =>
    rw [map_cons, nodup_cons] at hdistinct
    have hcols : ∀ c ∈ cols, c.name ∉ col.name :: taken := by
      intro c hc hmem
      rcases mem_cons.mp hmem with hname | hmem
      · exact hdistinct.1 (hname ▸ mem_map_of_mem hc)
      · exact htaken c (mem_cons_of_mem col hc) hmem
    have hcons : ∀ expr, FilledBy insertColumns values col expr →
        (do let rest ← takeNamed insertColumns values (col.name :: taken) cols
            pure (expr :: rest)) = .ok exprs →
        List.Forall₂ (FilledBy insertColumns values) (col :: cols) exprs := by
      intro expr hfilled hok
      obtain ⟨rest, hrest, hok⟩ := Outcome.bind_eq_ok.mp hok
      cases hok
      exact .cons hfilled (ih hdistinct.2 hcols hrest)
    rw [takeNamed, if_neg (htaken col mem_cons_self)] at h
    cases hnamed : namedExpr insertColumns values col.name with
    | some e =>
      rw [hnamed] at h
      exact hcons e (.inl hnamed) h
    | none =>
      rw [hnamed] at h
      dsimp only at h
      split_ifs at h with hauto
      · exact hcons .null (.inr ⟨hnamed, hauto, rfl⟩) h
      · cases h

variable {tableColumns : List ColumnSchema} {exprs : List Expr}

theorem reorderExprs_eq_ok (h : reorderExprs tableColumns insertColumns values = .ok exprs) :
    insertColumns.length = values.length ∧
      (∀ name ∈ insertColumns, ∃ col ∈ tableColumns, col.name = name) ∧
      takeNamed insertColumns values [] tableColumns = .ok exprs := by
  unfold reorderExprs at h
  split_ifs at h with hlength
  cases hfind : insertColumns.find? fun name => !tableColumns.any fun c => c.name = name with
  | some name =>
    rw [hfind] at h
    cases h
  | none =>
    rw [hfind] at h
    refine ⟨not_not.mp hlength, fun name hname => ?_, h⟩
    have hknown := find?_eq_none.mp hfind name hname
    simpa using hknown

/-- Each value stands in the place of its column, and a column that is not named is left to
be numbered. -/
structure PlacesAll (tableColumns : List ColumnSchema) (insertColumns : List String)
    (values exprs : List Expr) : Prop where
  named : ∀ (i pos : Nat) (col : ColumnSchema), tableColumns[pos]? = some col →
    insertColumns[i]? = some col.name → exprs[pos]? = values[i]?
  unnamed : ∀ (pos : Nat) (col : ColumnSchema), tableColumns[pos]? = some col →
    col.name ∉ insertColumns → col.autoIncrement = true ∧ exprs[pos]? = some .null

def OneValueEach (insertColumns : List String) (values : List Expr) : Prop :=
  ∀ i j : Nat, insertColumns[i]?.isSome → insertColumns[i]? = insertColumns[j]? →
    values[i]? = values[j]?

/-- No value is lost exactly when no column is given two different ones. -/
theorem reorderExprs_places_iff (hdistinct : (tableColumns.map ColumnSchema.name).Nodup)
    (h : reorderExprs tableColumns insertColumns values = .ok exprs) :
    PlacesAll tableColumns insertColumns values exprs ↔ OneValueEach insertColumns values := by
  obtain ⟨hlength, hknown, htake⟩ := reorderExprs_eq_ok h
  have hfilled := takeNamed_filled hdistinct (fun _ _ => not_mem_nil) htake
  constructor
  · intro hall i j hsome hij
    obtain ⟨name, hi⟩ := Option.isSome_iff_exists.mp hsome
    obtain ⟨col, hcol, rfl⟩ := hknown name (mem_of_getElem? hi)
    obtain ⟨pos, hpos⟩ := mem_iff_getElem?.mp hcol
    exact (hall.named i pos col hpos hi).symm.trans (hall.named j pos col hpos (hij ▸ hi))
  · intro honce
    constructor
    · intro i pos col hpos hi
      obtain ⟨expr, hexpr, hfill⟩ := Lists.forall₂_getElem? hfilled.flip hpos
      rcases hfill with hnamed | ⟨hnone, -⟩
      · obtain ⟨j, hj, hvalue⟩ := namedExpr_eq_some hnamed
        rw [hexpr, ← hvalue]
        exact honce j i (by simp [hj]) (hj.trans hi.symm)
      · exact absurd (mem_of_getElem? hi) ((namedExpr_eq_none hlength).mp hnone)
    · intro pos col hpos hnot
      obtain ⟨expr, hexpr, hfill⟩ := Lists.forall₂_getElem? hfilled.flip hpos
      rcases hfill with hnamed | ⟨-, hauto, rfl⟩
      · rw [(namedExpr_eq_none hlength).mpr hnot] at hnamed
        cases hnamed
      · exact ⟨hauto, hexpr⟩

theorem OneValueEach.of_nodup (h : insertColumns.Nodup) : OneValueEach insertColumns values := by
  intro i j hi hij
  have hlt : i < insertColumns.length := by simpa using hi
  rw [(getElem?_inj hlt h).mp hij]

theorem reorderExprs_places_two :
    let columns : List ColumnSchema := [⟨"id", .int, false, true⟩, ⟨"a", .int, true, false⟩]
    reorderExprs columns ["a"] [.integer 5] = .ok [.null, .integer 5] ∧
      PlacesAll columns ["a"] [.integer 5] [.null, .integer 5] :=
  ⟨rfl, (reorderExprs_places_iff (by decide) rfl).mpr (.of_nodup (by decide))⟩

/-- `INSERT INTO t (a, a) VALUES (1, 2)` stores `2`. -/
theorem reorderExprs_drops_value :
    reorderExprs [⟨"a", .int, true, false⟩] ["a", "a"] [.integer 1, .integer 2] = .ok [.integer 2] ∧
      ¬ PlacesAll [⟨"a", .int, true, false⟩] ["a", "a"] [.integer 1, .integer 2] [.integer 2] := by
  refine ⟨rfl, fun hall => ?_⟩
  have hfirst := hall.named 0 0 _ rfl rfl
  cases hfirst

end

end MysqlRust
