import Mathlib.Data.Finset.Sort
import Mathlib.Data.String.Basic
import MysqlRust.Foundation.Wildcards
import MysqlRust.Query.Select

/-! # SHOW

Databases and tables by name, the one character set and collation, and the system variables,
which a `LIKE` pattern may narrow down. A form the server does not know has an empty result.
-/
namespace MysqlRust

open List

section Like

def likeCells (p : Char) : Bool → List Bool → List Char → List Bool
  | left, diagonal :: up :: above, c :: text =>
    let cell := match p with
      | '%' => up || left
      | '_' => diagonal
      | p => diagonal && p = c
    cell :: likeCells p cell (up :: above) text
  | _, _, _ => []

/-- The row of a pattern character below the row of the characters before it. Cell `j` says
whether the pattern so far matches the first `j` characters. -/
def likeRow (text : List Char) (above : List Bool) (p : Char) : List Bool :=
  let first := p = '%' && above.headD false
  first :: likeCells p first above text

def likeMatches (pattern text : String) : Bool :=
  let p := lowerName pattern
  let t := lowerName text
  (p.foldl (likeRow t) (true :: replicate t.length false)).getLastD false

def LikeTakes : Char → List Char → Prop
  | '%', _ => True
  | '_', piece => piece.length = 1
  | p, piece => piece = [p]

open Wildcards (Splits)

variable {pattern read text : List Char} {p c : Char} {above : List Bool} {left : Bool}

theorem likeTakes_percent (piece : List Char) : LikeTakes '%' piece := trivial

theorem likeTakes_one (hp : p ≠ '%') (piece : List Char) :
    LikeTakes p piece ↔ ∃ c, piece = [c] ∧ (p = '_' ∨ p = c) := by
  by_cases hunderscore : p = '_'
  · subst hunderscore
    refine length_eq_one_iff.trans ?_
    simp
  · have htakes : LikeTakes p piece ↔ piece = [p] := by
      unfold LikeTakes
      split <;> simp_all
    simp [htakes, hunderscore]

def likeCell (p : Char) (left diagonal up : Bool) (c : Char) : Bool :=
  match p with
  | '%' => up || left
  | '_' => diagonal
  | p => diagonal && p = c

theorem likeCells_cons (diagonal up : Bool) :
    likeCells p left (diagonal :: up :: above) (c :: text) = likeCell p left diagonal up c ::
        likeCells p (likeCell p left diagonal up c) (up :: above) text := rfl

theorem likeCell_eq_true {diagonal up : Bool}
    (hleft : left = true ↔ Splits LikeTakes (pattern ++ [p]) read)
    (hdiagonal : diagonal = true ↔ Splits LikeTakes pattern read)
    (hup : up = true ↔ Splits LikeTakes pattern (read ++ [c])) :
    likeCell p left diagonal up c = true ↔ Splits LikeTakes (pattern ++ [p]) (read ++ [c]) := by
  by_cases hp : p = '%'
  · subst hp
    rw [Wildcards.splits_run_concat likeTakes_percent, ← hup, ← hleft]
    exact Bool.or_eq_true_iff
  · have hcell : likeCell p left diagonal up c = true ↔ diagonal = true ∧ (p = '_' ∨ p = c) := by
      unfold likeCell
      split <;> simp_all
    rw [Wildcards.splits_one_concat (likeTakes_one hp), hcell, hdiagonal]

/-- The cells of a row say what the pattern matches: the text that was read, and that with one more
character each. -/
def Describes (pattern : List Char) : List Char → List Char → List Bool → Prop
  | read, [], row => ∃ cell, row = [cell] ∧ (cell = true ↔ Splits LikeTakes pattern read)
  | read, c :: text, row => ∃ cell cells, row = cell :: cells ∧
      (cell = true ↔ Splits LikeTakes pattern read) ∧ Describes pattern (read ++ [c]) text cells

theorem Describes.head {row : List Bool} (h : Describes pattern read text row) :
    ∃ cell cells, row = cell :: cells ∧ (cell = true ↔ Splits LikeTakes pattern read) := by
  cases text with
  | nil =>
    obtain ⟨cell, hrow, hcell⟩ := h
    exact ⟨cell, [], hrow, hcell⟩
  | cons c text =>
    obtain ⟨cell, cells, hrow, hcell, -⟩ := h
    exact ⟨cell, cells, hrow, hcell⟩

theorem likeCells_describes (habove : Describes pattern read text above)
    (hleft : left = true ↔ Splits LikeTakes (pattern ++ [p]) read) :
    Describes (pattern ++ [p]) read text (left :: likeCells p left above text) := by
  induction text generalizing read above left with
  | nil =>
    obtain ⟨cell, rfl, -⟩ := habove
    exact ⟨left, rfl, hleft⟩
  | cons c text ih =>
    obtain ⟨diagonal, cells, rfl, hdiagonal, hcells⟩ := habove
    obtain ⟨up, cells', rfl, hup⟩ := hcells.head
    rw [likeCells_cons]
    exact ⟨left, _, rfl, hleft, ih hcells (likeCell_eq_true hleft hdiagonal hup)⟩

theorem likeRow_describes (habove : Describes pattern [] text above) :
    Describes (pattern ++ [p]) [] text (likeRow text above p) := by
  refine likeCells_describes habove ?_
  obtain ⟨cell, cells, rfl, hcell⟩ := habove.head
  by_cases hp : p = '%'
  · subst hp
    rw [Wildcards.splits_run_nil likeTakes_percent, ← hcell]
    simp
  · simp [hp, Wildcards.splits_one_nil (likeTakes_one hp)]

theorem foldl_likeRow_describes (rest : List Char) (habove : Describes pattern [] text above) :
    Describes (pattern ++ rest) [] text (rest.foldl (likeRow text) above) := by
  induction rest generalizing pattern above with
  | nil => rwa [append_nil]
  | cons p rest ih =>
    rw [append_cons]
    exact ih (likeRow_describes habove)

theorem replicate_describes (text : List Char) (hread : read ≠ []) :
    Describes [] read text (replicate (text.length + 1) false) := by
  have hnot : false = true ↔ Splits LikeTakes [] read := by
    rw [Wildcards.splits_nil]
    exact iff_of_false Bool.false_ne_true hread
  induction text generalizing read with
  | nil => exact ⟨false, rfl, hnot⟩
  | cons c text ih =>
    refine ⟨false, _, rfl, hnot, ih (by simp) ?_⟩
    rw [Wildcards.splits_nil]
    simp

theorem firstRow_describes (text : List Char) :
    Describes [] [] text (true :: replicate text.length false) := by
  have hempty : true = true ↔ Splits LikeTakes [] [] :=
    iff_of_true rfl (Wildcards.splits_nil.mpr rfl)
  cases text with
  | nil => exact ⟨true, rfl, hempty⟩
  | cons c text => exact ⟨true, _, rfl, hempty, replicate_describes text (by simp)⟩

theorem Describes.getLast {row : List Bool} (h : Describes pattern read text row) :
    row.getLastD false = true ↔ Splits LikeTakes pattern (read ++ text) := by
  induction text generalizing read row with
  | nil =>
    obtain ⟨cell, rfl, hcell⟩ := h
    rwa [append_nil]
  | cons c text ih =>
    obtain ⟨cell, cells, rfl, -, hcells⟩ := h
    obtain ⟨next, cells', rfl, -⟩ := hcells.head
    rw [append_cons, ← ih hcells]
    rfl

/-- The table decides whether the text can be cut into a piece for each character of the
pattern. -/
theorem likeMatches_iff (pattern text : String) : likeMatches pattern text = true ↔
    Splits LikeTakes (lowerName pattern) (lowerName text) :=
  (foldl_likeRow_describes (lowerName pattern) (firstRow_describes (lowerName text))).getLast

end Like

def textCol (name : String) : ColumnSchema := ⟨name, .varchar, true, false⟩

def intCol (name : String) : ColumnSchema := ⟨name, .int, true, false⟩

def namesResult (column : String) (names : Finset String) : QueryResult :=
  ⟨[textCol column], (names.sort (· ≤ ·)).map fun name => [.varchar name], 0⟩

def executeShow (vars : SystemVariables) (databases tables : Finset String) :
    ShowStatement → QueryResult
  | .databases => namesResult "Database" databases
  | .characterSet =>
    ⟨[textCol "Charset", textCol "Description", textCol "Default collation", intCol "Maxlen"],
      [[.varchar "utf8mb4", .varchar "UTF-8 Unicode", .varchar "utf8mb4_general_ci", .int 4]], 0⟩
  | .collation =>
    ⟨[textCol "Collation", textCol "Charset", intCol "Id", textCol "Default", textCol "Compiled",
        intCol "Sortlen"],
      [[.varchar "utf8mb4_general_ci", .varchar "utf8mb4", .int 45, .varchar "Yes",
        .varchar "Yes", .int 1]], 0⟩
  | .tables => namesResult "Tables_in_mysql_rust" tables
  | .warnings => ⟨[textCol "Level", textCol "Code", textCol "Message"], [], 0⟩
  | .variables like =>
    let shown := (knownVariables vars).filter fun p => like.all fun pattern =>
      likeMatches pattern p.1
    -- the values keep their own types
    ⟨[textCol "Variable_name", textCol "Value"], shown.map fun p => [.varchar p.1, p.2], 0⟩
  | .other => ⟨[], [], 0⟩

end MysqlRust
