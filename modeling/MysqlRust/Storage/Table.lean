import Mathlib.Data.Finmap
import MysqlRust.Storage.Value

/-! # Tables

A table keeps its rows with what is derived from them: the position of the key column, the index
and the `AUTO_INCREMENT` counter. A row shorter than the schema panics. Counter arithmetic wraps,
as in a release build.
-/
namespace MysqlRust

open Outcome List Option

structure Table where
  schema : TableSchema
  primaryKeyIndex : Option Nat
  rows : List Row
  index : Finmap fun _ : Value => Nat
  autoIncrement : Option (Nat × Int64)
  deriving DecidableEq

def TableSchema.keyIndex (schema : TableSchema) : Option Nat :=
  schema.primaryKey.bind fun pk => schema.columns.findIdx? fun c => c.name = pk

def TableSchema.counterIndex (schema : TableSchema) : Option Nat :=
  schema.columns.findIdx? fun c => c.autoIncrement

namespace Table

def new (columns : List ColumnSchema) (primaryKey : Option String) : Table :=
  let schema : TableSchema := ⟨columns, primaryKey⟩
  { schema
    primaryKeyIndex := schema.keyIndex
    rows := []
    index := ∅
    autoIncrement := schema.counterIndex.map fun idx => (idx, 1) }

def indexWith (t : Table) (row : Row) : Result (Finmap fun _ : Value => Nat) :=
  match t.primaryKeyIndex with
  | some idx => do
    let key ← Outcome.index row idx
    pure (t.index.insert key t.rows.length)
  | none => pure t.index

def counterWith (t : Table) (row : Row) : Result (Option (Nat × Int64)) :=
  match t.autoIncrement with
  | some (aiIdx, next) => do
    match ← Outcome.index row aiIdx with
    | .int v => pure (some (aiIdx, max next (v + 1)))
    | _ => pure (some (aiIdx, next))
  | none => pure none

def pushTrusted (t : Table) (row : Row) : Result Table := do
  let index ← t.indexWith row
  let autoIncrement ← t.counterWith row
  pure { t with rows := t.rows ++ [row], index, autoIncrement }

def duplicateEntry (key : Value) : Error :=
  let shown := key.toDisplayString.getD ""
  .execution s!"Duplicate entry '{shown}' for key 'PRIMARY'"

def checkInsertable (t : Table) (row : Row) : Result Unit :=
  match t.primaryKeyIndex with
  | some idx => do
    let key ← Outcome.index row idx
    if key ∈ t.index then .err (duplicateEntry key) else pure ()
  | none => pure ()

def primaryKeyValue (t : Table) (row : Row) : Result (Option Value) :=
  match t.primaryKeyIndex with
  | some idx => some <$> Outcome.index row idx
  | none => pure none

def rebuild (schema : TableSchema) (rows : List Row) : Result Table :=
  rows.foldlM pushTrusted (new schema.columns schema.primaryKey)

theorem pushTrusted_ne_err (t : Table) (row : Row) (e : Error) : t.pushTrusted row ≠ .err e := by
  have hindex : ∀ e, t.indexWith row ≠ .err e := by
    unfold indexWith
    split
    · exact bind_ne_err (fun _ => index_ne_err) (by simp)
    · simp
  have hcounter : ∀ e, t.counterWith row ≠ .err e := by
    unfold counterWith
    split
    · exact bind_ne_err (fun _ => index_ne_err) (fun v e => by cases v <;> simp)
    · simp
  exact bind_ne_err hindex
    (fun _ => bind_ne_err hcounter (by simp)) e

section
variable {t : Table} {row : Row} {i : Nat}
variable {t' : Table}

structure Placed (t : Table) : Prop where
  keyIndex : t.primaryKeyIndex = t.schema.keyIndex
  counterIndex : t.autoIncrement.map Prod.fst = t.schema.counterIndex

/-- The cached positions are those of the schema, and every row has one cell per column. -/
structure Wf (t : Table) : Prop where
  keyIndex : t.primaryKeyIndex = t.schema.keyIndex
  counterIndex : t.autoIncrement.map Prod.fst = t.schema.counterIndex
  width : ∀ row ∈ t.rows, row.length = t.schema.columns.length

theorem findIdx?_lt {α : Type} {p : α → Bool} {xs : List α} (h : xs.findIdx? p = some i) :
    i < xs.length := by
  obtain ⟨hi, -⟩ := findIdx?_eq_some_iff_getElem.mp h
  exact hi

theorem keyIndex_lt {schema : TableSchema} (h : schema.keyIndex = some i) :
    i < schema.columns.length := by
  obtain ⟨pk, -, hi⟩ := bind_eq_some_iff.mp h
  exact findIdx?_lt hi

theorem Wf.placed (h : t.Wf) : t.Placed := ⟨h.keyIndex, h.counterIndex⟩

theorem Placed.key_lt (h : t.Placed) (hi : t.primaryKeyIndex = some i) :
    i < t.schema.columns.length := keyIndex_lt (h.keyIndex ▸ hi)

theorem Placed.counter_lt (h : t.Placed) {next : Int64} (hi : t.autoIncrement = some (i, next)) :
    i < t.schema.columns.length := by
  have hc := h.counterIndex
  rw [hi] at hc
  exact findIdx?_lt hc.symm

theorem new_wf (columns : List ColumnSchema) (primaryKey : Option String) :
    (new columns primaryKey).Wf where
  keyIndex := rfl
  counterIndex := by
    simp only [new, Option.map_map]
    exact map_id'
  width row hrow := by simp [new] at hrow

theorem pushTrusted_eq_ok (h : t.pushTrusted row = .ok t') :
    t'.schema = t.schema ∧ t'.primaryKeyIndex = t.primaryKeyIndex ∧ t'.rows = t.rows ++ [row] := by
  obtain ⟨index, -, h⟩ := bind_eq_ok.mp h
  obtain ⟨counter, -, h⟩ := bind_eq_ok.mp h
  cases h
  exact ⟨rfl, rfl, rfl⟩

theorem counterWith_eq_ok {c : Option (Nat × Int64)} (h : t.counterWith row = .ok c) :
    c.map Prod.fst = t.autoIncrement.map Prod.fst := by
  unfold counterWith at h
  split at h
  · rename_i aiIdx next heq
    obtain ⟨v, -, h⟩ := bind_eq_ok.mp h
    rw [heq]
    split at h <;> (cases h; rfl)
  · rename_i heq
    cases h
    rw [heq]

theorem Placed.of_push (h : t.Placed) (hpush : t.pushTrusted row = .ok t') : t'.Placed := by
  obtain ⟨index, -, hpush⟩ := bind_eq_ok.mp hpush
  obtain ⟨counter, hcounter, hpush⟩ := bind_eq_ok.mp hpush
  cases hpush
  exact ⟨h.keyIndex, (counterWith_eq_ok hcounter).trans h.counterIndex⟩

theorem Placed.pushTrusted (h : t.Placed) (hrow : row.length = t.schema.columns.length) :
    ∃ t', t.pushTrusted row = .ok t' := by
  have hindex : ∃ index, t.indexWith row = .ok index := by
    unfold indexWith
    split
    · rename_i idx hidx
      have hlt : idx < row.length := hrow ▸ h.key_lt hidx
      exact ⟨_, by rw [index_of_lt hlt, ok_bind]; rfl⟩
    · exact ⟨_, rfl⟩
  have hcounter : ∃ counter, t.counterWith row = .ok counter := by
    unfold counterWith
    split
    · rename_i aiIdx next hai
      have hlt : aiIdx < row.length := hrow ▸ h.counter_lt hai
      rw [index_of_lt hlt, ok_bind]
      split <;> exact ⟨_, rfl⟩
    · exact ⟨_, rfl⟩
  obtain ⟨index, hindex⟩ := hindex
  obtain ⟨counter, hcounter⟩ := hcounter
  refine ⟨{ t with rows := t.rows ++ [row], index, autoIncrement := counter }, ?_⟩
  rw [Table.pushTrusted, hindex, ok_bind, hcounter, ok_bind, pure_eq]

theorem Wf.pushTrusted (h : t.Wf) (hrow : row.length = t.schema.columns.length) :
    ∃ t', t.pushTrusted row = .ok t' ∧ t'.Wf ∧ t'.schema = t.schema := by
  obtain ⟨t', hpush⟩ := h.placed.pushTrusted hrow
  obtain ⟨hschema, -, hrows⟩ := pushTrusted_eq_ok hpush
  have hplaced := h.placed.of_push hpush
  refine ⟨t', hpush, ⟨hplaced.keyIndex, hplaced.counterIndex, ?_⟩, hschema⟩
  intro r hr
  rw [hschema]
  rcases mem_append.mp (hrows ▸ hr) with hr | hr
  · exact h.width r hr
  · rw [mem_singleton.mp hr]
    exact hrow

variable {u : Table}

structure Same (t u : Table) : Prop where
  schema : t.schema = u.schema
  primaryKeyIndex : t.primaryKeyIndex = u.primaryKeyIndex
  rows : t.rows = u.rows
  index : t.index = u.index
  counterIndex : t.autoIncrement.map Prod.fst = u.autoIncrement.map Prod.fst

theorem Same.refl (t : Table) : t.Same t := ⟨rfl, rfl, rfl, rfl, rfl⟩

theorem Same.trans {v : Table} (h : t.Same u) (h' : u.Same v) : t.Same v :=
  ⟨h.1.trans h'.1, h.2.trans h'.2, h.3.trans h'.3, h.4.trans h'.4, h.5.trans h'.5⟩

theorem Wf.same (hsame : t.Same u) (h : t.Wf) : u.Wf where
  keyIndex := by rw [← hsame.primaryKeyIndex, ← hsame.schema, h.keyIndex]
  counterIndex := by rw [← hsame.counterIndex, ← hsame.schema, h.counterIndex]
  width := by
    rw [← hsame.rows, ← hsame.schema]
    exact h.width

theorem Same.pushTrusted (h : t.Same u) (row : Row) :
    Rel Same (t.pushTrusted row) (u.pushTrusted row) := by
  have hindex : t.indexWith row = u.indexWith row := by
    simp only [indexWith, h.primaryKeyIndex, h.index, h.rows]
  have hcounter : Rel (fun c d => c.map Prod.fst = d.map Prod.fst)
      (t.counterWith row) (u.counterWith row) := by
    have hc := h.counterIndex
    rcases ht : t.autoIncrement with _ | ⟨i, m⟩ <;> rcases hu : u.autoIncrement with _ | ⟨j, n⟩ <;>
      simp only [ht, hu, map_none, map_some, some.injEq, reduceCtorEq] at hc
    · simp only [counterWith, ht, hu]
      exact .ok rfl
    · subst hc
      simp only [counterWith, ht, hu]
      cases Outcome.index row i with
      | ok v => cases v <;> exact .ok (by simp only [map_some])
      | err e => exact .err e
      | panic => exact .panic
  unfold Table.pushTrusted
  rw [hindex]
  cases u.indexWith row with
  | ok index =>
    refine hcounter.bind fun c d hcd => .ok ⟨h.schema, h.primaryKeyIndex, ?_, rfl, hcd⟩
    exact congrArg (· ++ [row]) h.rows
  | err e => exact .err e
  | panic => exact .panic

end

/-- Everything beside schema and rows is what filling the table from scratch gives. -/
def Derived (t : Table) : Prop := rebuild t.schema t.rows = .ok t
  deriving Decidable

theorem new_derived (columns : List ColumnSchema) (primaryKey : Option String) :
    (new columns primaryKey).Derived := rfl

theorem Derived.pushTrusted {t t' : Table} (h : t.Derived) {row : Row}
    (ht : t.pushTrusted row = .ok t') : t'.Derived := by
  obtain ⟨hschema, -, hrows⟩ := pushTrusted_eq_ok ht
  rw [Derived, rebuild, hschema, hrows]
  exact foldlM_concat h ht

end Table

end MysqlRust
