import MysqlRust.Query.Rescaling
import MysqlRust.Query.Select
import MysqlRust.Storage.Overlay

/-! # Conditions

A condition compares a column with a literal. The literal is converted to the type of the
column first, which rounds a number to the places the column has. Then every row is compared,
or, for an equation on the key column, a row is looked up.
-/
namespace MysqlRust

open Outcome Proc List

section
variable {columnType : ColumnType} {literal : Expr} {unscaled : Int64} {s k : UInt8}

def Expr.digits : Expr → Option (Int64 × UInt8)
  | .integer n => some (n, 0)
  | .decimal unscaled scale => some (unscaled, scale)
  | _ => none

def Value.number : Value → Option ℚ
  | .int n => some (decimalNumber n 0)
  | .decimal unscaled scale => some (decimalNumber unscaled scale)
  | _ => none

def ColumnType.places : ColumnType → Option UInt8
  | .int => some 0
  | .decimal scale => some scale
  | _ => none

def ColumnType.ofDigits (columnType : ColumnType) (n : Int64) : Value :=
  match columnType with
  | .decimal scale => .decimal n scale
  | _ => .int n

variable {v expected : Value}

def CompareOp.Holds : CompareOp → ℚ → ℚ → Prop
  | .eq, a, b => a = b
  | .notEq, a, b => a ≠ b
  | .lt, a, b => a < b
  | .gt, a, b => b < a
  | .le, a, b => a ≤ b
  | .ge, a, b => b ≤ a

instance (op : CompareOp) (a b : ℚ) : Decidable (op.Holds a b) := by
  unfold CompareOp.Holds
  split <;> infer_instance

theorem Value.HasType.ne_null (h : v.HasType columnType) : v ≠ .null := by
  rintro rfl
  cases columnType <;> exact h

theorem compareValues_eq_iff (hv : v.HasType columnType)
    (hexpected : expected = .null ∨ expected.HasType columnType) :
    compareValues v .eq expected = decide (v = expected) := by
  rcases hexpected with rfl | hexpected
  · simp [compareValues, hv.ne_null]
  · simp [compareValues, hv.ne_null, hexpected.ne_null, valueOrdering_eq_iff hv hexpected]

def cellFilter (i : Nat) (op : CompareOp) (expected : Value) (row : Row) : Result Bool := do
  let cell ← index row i
  pure (compareValues cell op expected)

variable {i : Nat} {rows : List Row} {row : Row} {w : ℚ}

def CellsTyped (i : Nat) (columnType : ColumnType) (rows : List Row) : Prop :=
  ∀ row ∈ rows, ∃ cell, row[i]? = some cell ∧ cell ∈ columnType.values

variable {σ : Type} {storage : Storage (Proc σ Error)} {state : σ} {table qualifier : String}
  {schema : TableSchema} {cond : Condition} {column : ColumnSchema}

theorem scanAndFilter_resolved (storage : Storage (Proc σ Error))
    (hresolve : resolveSingleTableColumn schema.columns qualifier cond.column = .ok i)
    (hcolumn : schema.columns[i]? = some column) :
    scanAndFilter storage table qualifier schema (some cond) = (do
        let expected ← Proc.lift (coerce cond.value column.columnType cond.column.column)
        if cond.op = .eq ∧ schema.primaryKey = some column.name then do
          let row ← storage.lookupByPrimaryKey table expected
          pure row.toList
        else storage.scanFiltered table (cellFilter i cond.op expected)) := by
  have hindex : (index schema.columns i : Result ColumnSchema) = .ok column :=
    index_eq_ok.mpr hcolumn
  rw [scanAndFilter, hresolve, liftM_eq, lift_ok_bind, hindex, liftM_eq, lift_ok_bind]
  rfl

theorem scanAndFilter_of_key (storage : Storage (Proc σ Error)) (hop : cond.op = .eq)
    (hresolve : resolveSingleTableColumn schema.columns qualifier cond.column = .ok i)
    (hcolumn : schema.columns[i]? = some column) (hkey : schema.primaryKey = some column.name)
    (hcoerce : coerce cond.value column.columnType cond.column.column = .ok expected) :
    scanAndFilter storage table qualifier schema (some cond) = (do
        let row ← storage.lookupByPrimaryKey table expected
        pure row.toList) := by
  rw [scanAndFilter_resolved storage hresolve hcolumn, hcoerce, lift_ok_bind, if_pos ⟨hop, hkey⟩]

theorem keyIndex_of_resolved
    (hresolve : resolveSingleTableColumn schema.columns qualifier cond.column = .ok i)
    (hcolumn : schema.columns[i]? = some column) (hkey : schema.primaryKey = some column.name) :
    schema.keyIndex = some i := by
  unfold resolveSingleTableColumn at hresolve
  split at hresolve
  · cases hresolve
  · have hfind := okOr_eq_ok.mp hresolve
    have hname : column.name = cond.column.column := by
      obtain ⟨hlt, hp, -⟩ := findIdx?_eq_some_iff_getElem.mp hfind
      rw [getElem?_eq_getElem hlt, Option.some.injEq] at hcolumn
      rw [hcolumn] at hp
      exact of_decide_eq_true hp
    rw [TableSchema.keyIndex, hkey, Option.bind_some, hname, hfind]

structure Serves (storage : Storage (Proc σ Error)) (state : σ) (table : String)
    (schema : TableSchema) (rows : List Row) : Prop where
  scanFiltered : ∀ filter, storage.scanFiltered table filter state = (filterRows filter rows, state)
  lookup : ∀ i, schema.keyIndex = some i → ∀ key, ∃ found,
    storage.lookupByPrimaryKey table key state = (.ok found, state) ∧ Finds i key rows found

variable {t : Table}

end

end MysqlRust
