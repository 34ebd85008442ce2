import MysqlRust.Query.Executor
import MysqlRust.Storage.Counters

/-! # Values drawn from a counter

While the rows of an `INSERT` are converted, each `NULL` of an `AUTO_INCREMENT` column draws
the next value of its table's counter; nothing else of the store changes.
-/
namespace MysqlRust

open Proc Outcome Option

def Table.advance (t : Table) (k : Nat) : Table :=
  { t with autoIncrement := t.autoIncrement.map fun p => (p.1, p.2 + Int64.ofNat k) }

def Store.Drawn (s₀ : Store) (table : String) (k : Nat) (s : Store) : Prop :=
  ∀ name, s.tables.lookup name =
    (s₀.tables.lookup name).map fun t => if name = table then t.advance k else t

section Counters
variable {s₀ s : Store} {table : String} {k : Nat}
variable {t : Table}

theorem Table.advance_zero (t : Table) : t.advance 0 = t := by
  obtain ⟨schema, keyIndex, rows, index, counter⟩ := t
  cases counter <;> simp [advance]

theorem Table.advance_succ (t : Table) (k : Nat) : (t.advance k).advance 1 = t.advance (k + 1) := by
  have hone : Int64.ofNat (k + 1) = Int64.ofNat k + 1 := Int64.ofNat_add k 1
  cases h : t.autoIncrement with
  | none => simp [advance, h]
  | some p => simp [advance, h, hone, Int64.add_assoc]

theorem Store.Drawn.refl (s : Store) (table : String) : s.Drawn table 0 s := by
  intro name
  simp [Table.advance_zero]

theorem Store.Drawn.lookup (h : s₀.Drawn table k s) (ht : s₀.tables.lookup table = some t) :
    s.tables.lookup table = some (t.advance k) := by
  simp [h table, ht]

theorem Store.Drawn.all (h : s₀.Drawn table k s) {P : Table → Prop} (hs : s₀.All P)
    (hP : ∀ t ∈ s₀.tables.lookup table, P t → P (t.advance k)) : s.All P := by
  intro name u hu
  rw [h name, map_eq_some_iff] at hu
  obtain ⟨t, ht, rfl⟩ := hu
  split
  · rename_i heq
    subst heq
    exact hP t ht (hs name t ht)
  · exact hs name t ht

theorem Table.Wf.advance (h : t.Wf) (k : Nat) : (t.advance k).Wf where
  keyIndex := h.keyIndex
  counterIndex := by
    rw [Table.advance, map_map]
    exact h.counterIndex
  width := h.width

theorem Table.Counted.advance (h : t.Counted)
    (hroom : ∀ p ∈ t.autoIncrement, p.2.toInt + k ≤ Int64.maxValue.toInt) :
    (t.advance k).Counted := by
  intro i next hauto row hrow v hv
  obtain ⟨⟨j, old⟩, hold, heq⟩ := map_eq_some_iff.mp hauto
  cases heq
  have hfits := hroom (j, old) hold
  have hadd : (old + Int64.ofNat k).toInt = old.toInt + k := toInt_add_ofNat hfits
  refine (h j old hold row hrow v hv).imp_left fun hlt => ?_
  rw [hadd]
  omega

end Counters

section Draws
variable {k k' : Nat} {schema : TableSchema} {columns : Option (List String)} {row : List Expr}
  {values : Row}

def drawn (p : Expr × ColumnSchema) : Bool := p.2.autoIncrement && p.1.isNull

def cellDraws (p : Expr × ColumnSchema) : Nat := if drawn p then 1 else 0

def rowDraws (table : String) (schema : TableSchema) (columns : Option (List String))
    (row : List Expr) : Nat :=
  match orderedExprs table schema columns row with
  | .ok exprs => ((exprs.zip schema.columns).map cellDraws).sum
  | _ => 0

def Insert.draws (rows : Insert) (schema : TableSchema) : Nat :=
  (rows.rows.map (rowDraws rows.table schema rows.columns)).sum

/-- A cell after `k` draws from the counter of a table: drawn from it, or given. -/
structure CellDraw (s₀ : Store) (table : String) (k : Nat) (p : Expr × ColumnSchema)
    (value : Value) (k' : Nat) : Prop where
  moved : k' = k + cellDraws p
  fromCounter : drawn p = true → ∃ t i next, s₀.tables.lookup table = some t ∧
    t.autoIncrement = some (i, next) ∧ value = .int (next + Int64.ofNat k)
  given : drawn p = false → coerce p.1 p.2.columnType p.2.name = .ok value

structure RowDraw (s₀ : Store) (table : String) (schema : TableSchema)
    (columns : Option (List String)) (k : Nat) (row : List Expr) (values : Row) (k' : Nat) :
    Prop where
  moved : k' = k + rowDraws table schema columns row
  cells : ∃ exprs, orderedExprs table schema columns row = .ok exprs ∧
    Lists.Threaded (CellDraw s₀ table) k (exprs.zip schema.columns) values k'

theorem CellDraw.le {s₀ : Store} {table : String} {p : Expr × ColumnSchema} {value : Value}
    (h : CellDraw s₀ table k p value k') : k ≤ k' :=
  h.moved ▸ Nat.le_add_right k (cellDraws p)

theorem RowDraw.le {s₀ : Store} {table : String}
    (h : RowDraw s₀ table schema columns k row values k') : k ≤ k' :=
  h.moved ▸ Nat.le_add_right k (rowDraws table schema columns row)

variable (append : Option Error) {s₀ : Store} (table : String)

theorem RowDraw.length {s₀ : Store} {table : String}
    (h : RowDraw s₀ table schema columns k row values k') :
    values.length = schema.columns.length := by
  obtain ⟨exprs, hexprs, hcells⟩ := h.cells
  rw [← hcells.length_eq, List.length_zip, orderedExprs_length hexprs, min_self]

theorem coerce_null_iff (p : Expr × ColumnSchema) :
    coerce p.1 p.2.columnType p.2.name = .ok .null ↔ p.1.isNull = true := by
  constructor
  · intro h
    rw [coerce_null h]
    rfl
  · intro h
    cases he : p.1 <;> simp [he, Expr.isNull] at h
    simp [coerce]

theorem reserve_draws (k : Nat) : Triple (s₀.Drawn table k ·) (Store.reserve table)
      (fun n s => (∃ t i next, s₀.tables.lookup table = some t ∧
        t.autoIncrement = some (i, next) ∧ n = next + Int64.ofNat k) ∧ s₀.Drawn table (k + 1) s)
      (s₀.Drawn table k ·) := by
  intro s hs
  simp only [Store.reserve]
  cases h : nextAutoIncrement s table with
  | ok p =>
    obtain ⟨u, hu, h⟩ := bind_eq_ok.mp h
    obtain ⟨⟨i, n⟩, hauto, h⟩ := bind_eq_ok.mp h
    rw [okOr_eq_ok] at hu hauto
    cases h
    rw [hs table, map_eq_some_iff] at hu
    obtain ⟨t, ht, rfl⟩ := hu
    rw [if_pos rfl] at hauto ⊢
    obtain ⟨⟨j, next⟩, hnext, heq⟩ := map_eq_some_iff.mp hauto
    cases heq
    refine ⟨⟨t, j, next, ht, hnext, rfl⟩, fun name => ?_⟩
    by_cases hname : name = table
    · subst hname
      rw [lookup_setTable, ht, map_some, if_pos rfl, ← Table.advance_succ]
      simp [Table.advance, hnext]
    · rw [lookup_setTable_of_ne _ _ _ hname, hs name]
      simp only [if_neg hname]
  | err e => exact hs
  | panic => exact hs

/-- A number is drawn for a `NULL` in the counter column and for nothing else. -/
theorem insertValue_draws (k : Nat) (p : Expr × ColumnSchema) :
    Triple (s₀.Drawn table k ·) (insertValue (inMemoryStorage append) table p)
      (fun value s => ∃ k', CellDraw s₀ table k p value k' ∧ s₀.Drawn table k' s)
      fun s => ∃ k' ≤ k + cellDraws p, s₀.Drawn table k' s := by
  refine .bind (Q := fun value s =>
    coerce p.1 p.2.columnType p.2.name = .ok value ∧ s₀.Drawn table k s)
    (Triple.lift (fun s value hs h => ⟨h, hs⟩) fun _ hs => ⟨k, Nat.le_add_right _ _, hs⟩)
    fun value => ?_
  refine .bind (Q := fun value s =>
    ∃ k', CellDraw s₀ table k p value k' ∧ s₀.Drawn table k' s) ?_ fun value => ?_
  · refine .ite (fun h => ?_) fun h => ?_
    · rintro s ⟨hvalue, hs⟩
      obtain ⟨hnull, hauto⟩ := h
      have hdrawn : drawn p = true := by
        rw [drawn, hauto, (coerce_null_iff p).mp (hnull ▸ hvalue)]
        rfl
      have hone : cellDraws p = 1 := if_pos hdrawn
      refine Triple.map ((reserve_draws table k).mono (fun _ h => h) (fun _ _ h => h)
        fun s' hs' => ⟨k, Nat.le_add_right _ _, hs'⟩) (fun n s' hn => ?_) s hs
      obtain ⟨⟨t, i, next, ht, hnext, rfl⟩, hs'⟩ := hn
      refine ⟨k + 1, ⟨by rw [hone], fun _ => ⟨t, i, next, ht, hnext, rfl⟩, fun hnot => ?_⟩, hs'⟩
      cases hdrawn.symm.trans hnot
    · rintro s ⟨hvalue, hs⟩
      have hdrawn : drawn p = false := by
        by_contra hnot
        rw [Bool.not_eq_false, drawn, Bool.and_eq_true] at hnot
        have hnull := (coerce_null_iff p).mpr hnot.2
        rw [hvalue, ok.injEq] at hnull
        exact h ⟨hnull, hnot.1⟩
      have hzero : cellDraws p = 0 := if_neg (by simp [hdrawn])
      refine ⟨k, ⟨by rw [hzero]; rfl, fun hnot => ?_, fun _ => hvalue⟩, hs⟩
      cases hdrawn.symm.trans hnot
  · refine .ite (fun _ => ?_) fun _ => .pure fun _ h => h
    refine .lift (fun _ _ _ h => by cases h) fun s hs => ?_
    obtain ⟨k', hcell, hs⟩ := hs
    exact ⟨k', hcell.moved.le, hs⟩

theorem insertValues_draws (schema : TableSchema) (columns : Option (List String)) (k : Nat)
    (row : List Expr) :
    Triple (s₀.Drawn table k ·) (insertValues (inMemoryStorage append) table schema columns row)
      (fun values s => ∃ k', RowDraw s₀ table schema columns k row values k' ∧ s₀.Drawn table k' s)
      fun s => ∃ k' ≤ k + rowDraws table schema columns row, s₀.Drawn table k' s := by
  refine .bind (Q := fun exprs s =>
    orderedExprs table schema columns row = .ok exprs ∧ s₀.Drawn table k s)
    (Triple.lift (fun s exprs hs h => ⟨h, hs⟩) fun _ hs => ⟨k, Nat.le_add_right _ _, hs⟩)
    fun exprs => ?_
  rintro s ⟨hexprs, hs⟩
  have hdraws : rowDraws table schema columns row =
      ((exprs.zip schema.columns).map cellDraws).sum := by
    rw [rowDraws, hexprs]
  have hcells := Triple.thread (P := fun k s => s₀.Drawn table k s)
    (fun _ _ _ _ h => h.moved)
    (fun k p (_ : p ∈ exprs.zip schema.columns) => insertValue_draws append table k p) k
  refine hcells.mono (fun _ h => h) (fun values s' h => ?_) (fun s' h => ?_) s hs
  · obtain ⟨k', hthread, hs'⟩ := h
    have htotal := hthread.total fun _ _ _ _ h => h.moved
    exact ⟨k', ⟨htotal.trans (by rw [hdraws]), exprs, hexprs, hthread⟩, hs'⟩
  · rwa [hdraws]

inductive Insert.Moves (rows : Insert) (s : Store) : Store → Prop
  | kept : Moves rows s s
  | drew {s' : Store} {t : Table} {k : Nat} (found : s.tables.lookup rows.table = some t)
      (le : k ≤ rows.draws t.schema) (drawn : s.Drawn rows.table k s') : Moves rows s s'
  | stored {s₁ s' : Store} {t : Table} {batch : List Row}
      (found : s.tables.lookup rows.table = some t)
      (drawn : s.Drawn rows.table (rows.draws t.schema) s₁)
      (check : check s₁ (.insertRows (rows.pairs batch)) = .ok true)
      (apply : apply s₁ (.insertRows (rows.pairs batch)) = .ok s') : Moves rows s s'

/-- Converted rows have drawn a number for each `NULL` in the counter column, in order. -/
theorem convertRows_draws (rows : Insert) (s : Store) :
    Triple (· = s) (convertRows (inMemoryStorage append) rows)
      (fun batch s' => ∃ t k, s.tables.lookup rows.table = some t ∧ k = rows.draws t.schema ∧
        Lists.Threaded (RowDraw s rows.table t.schema rows.columns) 0 rows.rows batch k ∧
        s.Drawn rows.table k s')
      (rows.Moves s) := by
  refine .bind (Q := fun schema s' =>
    (∃ t, s.tables.lookup rows.table = some t ∧ t.schema = schema) ∧ s' = s)
    (Triple.read (fun s' schema hs h => ⟨?_, hs⟩) fun _ hs => hs ▸ .kept) fun schema => ?_
  · obtain ⟨t, ht, hschema⟩ := map_eq_ok.mp h
    rw [okOr_eq_ok, hs] at ht
    exact ⟨t, ht, hschema⟩
  · rintro s' ⟨⟨t, ht, rfl⟩, rfl⟩
    have hrows := Triple.thread (P := fun k s => s'.Drawn rows.table k s)
      (fun _ _ _ _ h => h.moved) (fun k row (_ : row ∈ rows.rows) =>
        insertValues_draws append rows.table t.schema rows.columns k row) 0
    refine hrows.mono (fun _ h => h) (fun batch s₁ h => ?_) (fun s₁ h => ?_) s'
      (Store.Drawn.refl s' rows.table)
    · obtain ⟨k, hthread, hs₁⟩ := h
      have htotal := hthread.total fun _ _ _ _ h => h.moved
      exact ⟨t, k, ht, htotal.trans (Nat.zero_add _), hthread, hs₁⟩
    · obtain ⟨k, hk, hs₁⟩ := h
      exact .drew ht (hk.trans (Nat.zero_add _).le) hs₁

theorem executeInsert_moves (rows : Insert) (s : Store) :
    rows.Moves s (executeInsert (inMemoryStorage append) rows s).2 := by
  have hconvert := convertRows_draws append rows s s rfl
  rcases hrun : convertRows (inMemoryStorage append) rows s with ⟨batch | e | _, s₁⟩
  all_goals rw [hrun] at hconvert
  all_goals simp only [executeInsert, Bind.bind, Proc.bind, hrun]
  · obtain ⟨t, k, ht, rfl, -, hdrawn⟩ := hconvert
    rcases mutate_cases append (.insertRows (rows.pairs batch)) s₁ with
      ⟨r, hr⟩ | ⟨hcheck, -, s₂, happly, hr⟩
    all_goals simp only [inMemoryStorage, ← Insert.pairs.eq_1, hr]
    · cases r <;> exact .drew ht le_rfl hdrawn
    · exact .stored ht hdrawn hcheck happly
  · exact hconvert
  · exact hconvert

theorem executeInsert_transaction_moves (rows : Insert) (v : Transaction.View) :
    rows.Moves v.store (executeInsert (Transaction.storage append) rows v).2.store := by
  rcases executeInsert_transaction_cases (convertRows_draws append rows v.store) rfl with
    ⟨s₁, hmoves, hend⟩ | ⟨batch, s₁, ⟨t, k, ht, rfl, -, hdrawn⟩, hend⟩
  · rw [hend]
    exact hmoves
  · rw [hend]
    rcases Transaction.insertEach_cases { v with store := s₁ } (rows.pairs batch) with
      h | ⟨r, p, done, rest, -, -, -, -, h⟩
    all_goals
      rw [h]
      exact .drew ht le_rfl hdrawn

end Draws

end MysqlRust
