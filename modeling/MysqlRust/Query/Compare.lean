import Mathlib.Data.List.Sort
import MysqlRust.Query.Ast

/-! # Comparing and sorting values

`WHERE` compares with three-valued logic; `ORDER BY` puts `NULL` first. What the standard
library leaves open is a parameter: how a partition around the n-th row arranges the others, and
in which order a hash map visits its keys.
-/
namespace MysqlRust

def compareText (a b : String) : Ordering := compare a.toList b.toList

def saturateI64 (n : Int) : Int64 :=
  Int64.ofInt (max Int64.minValue.toInt (min n Int64.maxValue.toInt))

def scaleUp (unscaled : Int64) (extraScale : UInt8) : Int64 :=
  match checkedI64 (10 ^ extraScale.toNat) with
  | some factor => saturateI64 (unscaled.toInt * factor.toInt)
  | none => if unscaled < 0 then Int64.minValue else Int64.maxValue

def valueOrdering : Value → Value → Ordering
  | .null, .null => .eq
  | .null, _ => .lt
  | _, .null => .gt
  | .int a, .int b => compare a b
  | .varchar a, .varchar b => compareText a b
  | .date a, .date b => compareText a b
  | .decimal a aScale, .decimal b bScale =>
    match compare aScale bScale with
    | .eq => compare a b
    | .lt => compare (scaleUp a (bScale - aScale)) b
    | .gt => compare a (scaleUp b (aScale - bScale))
  | a, b => compareText (a.toDisplayString.getD "") (b.toDisplayString.getD "")

def compareValues (actual : Value) (op : CompareOp) (expected : Value) : Bool :=
  if actual = .null ∨ expected = .null then false
  else
    let ordering := valueOrdering actual expected
    match op with
    | .eq => ordering = .eq
    | .notEq => ordering ≠ .eq
    | .lt => ordering = .lt
    | .gt => ordering = .gt
    | .le => ordering ≠ .gt
    | .ge => ordering ≠ .lt

/-- The part of the standard library whose result is not determined. -/
structure Unspecified where
  /-- `select_nth_unstable_by`. -/
  selectNth : (Row → Row → Ordering) → Nat → List Row → List Row
  selectNth_perm : ∀ cmp n rows, (selectNth cmp n rows).Perm rows
  /-- The order in which a hash map visits its keys. -/
  visit : List Row → List Row
  visit_perm : ∀ keys, (visit keys).Perm keys

/-- The partition that does nothing, and keys in the order they were entered. -/
def Unspecified.plain : Unspecified where
  selectNth _ _ rows := rows
  selectNth_perm _ _ _ := .rfl
  visit keys := keys
  visit_perm _ := .rfl

def rowOrdering : List (Nat × Bool) → Row → Row → Ordering
  | [], _, _ => .eq
  | (idx, descending) :: keys, a, b =>
    let ordering := valueOrdering (a.getD idx .null) (b.getD idx .null)
    let ordering := if descending then ordering.swap else ordering
    if ordering ≠ .eq then ordering else rowOrdering keys a b

/-- A row without one of its sort columns panics when it is compared. Every row is, by the
first column at least; that later columns are reached by ties only is left out. -/
def checkSortable (sortKeys : List (Nat × Bool)) (rows : List Row) : Result Unit :=
  if 2 ≤ rows.length ∧ ∃ row ∈ rows, ∃ key ∈ sortKeys, row.length ≤ key.1 then .panic else .ok ()

def keepCount (limit offset : Option UInt64) : Nat :=
  min ((offset.getD 0).toNat + (limit.getD (UInt64.ofNat (UInt64.size - 1))).toNat)
    (UInt64.size - 1)

def sortRows (lib : Unspecified) (sortKeys : List (Nat × Bool)) (limit offset : Option UInt64)
    (rows : List Row) : List Row :=
  let compare := rowOrdering sortKeys
  let keep := keepCount limit offset
  let survivors := if 0 < keep ∧ keep < rows.length then
      (lib.selectNth compare (keep - 1) rows).take keep
    else rows
  survivors.mergeSort fun a b => (compare a b).isLE

def sortAndPaginate (lib : Unspecified) (rows : List Row) (sortKeys : List (Nat × Bool))
    (limit offset : Option UInt64) : Result (List Row) := do
  checkSortable sortKeys rows
  let sorted := if sortKeys = [] then rows else sortRows lib sortKeys limit offset rows
  pure ((sorted.drop (offset.getD 0).toNat).take
    (limit.getD (UInt64.ofNat (UInt64.size - 1))).toNat)

theorem mem_of_sortAndPaginate {lib : Unspecified} {rows paged : List Row}
    {sortKeys : List (Nat × Bool)} {limit offset : Option UInt64}
    (h : sortAndPaginate lib rows sortKeys limit offset = .ok paged) {row : Row}
    (hrow : row ∈ paged) : row ∈ rows := by
  obtain ⟨-, -, h⟩ := Outcome.bind_eq_ok.mp h
  cases h
  have hsorted := List.mem_of_mem_drop (List.mem_of_mem_take hrow)
  split at hsorted
  · exact hsorted
  · have hsurvivor := List.mem_mergeSort.mp hsorted
    split at hsurvivor
    · exact (lib.selectNth_perm _ _ rows).mem_iff.mp (List.mem_of_mem_take hsurvivor)
    · exact hsurvivor

end MysqlRust
