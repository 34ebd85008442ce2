import MysqlRust.Query.Quoting
import MysqlRust.Query.Substitution

/-! # Quoted names

The tokenizer forgets that an identifier was quoted, and the parser tells some words from names
by their text. So a quoted identifier is a name wherever the grammar takes a column, except for
the words that the parser looks for there.
-/
namespace MysqlRust

open Proc List

namespace Parser

section
variable {rest : List Token} {allow : Bool} {n : Nat} {s' : ParserState}
variable {name : String} {ref : ColumnRef}
variable {table : Option String} {x : String} {argument : Parser Expr}

def qualifier : Option String → List Token
  | none => []
  | some table => [.ident table, .dot]

def EndsName (rest : List Token) : Prop := rest.head? ≠ some .dot

theorem expectIdent_ident (name : String) :
    expectIdent ⟨.ident name :: rest, allow, n⟩ = (.ok name, ⟨rest, allow, n⟩) := rfl

theorem finishColumnRef_of_ends (h : EndsName rest) :
    finishColumnRef name ⟨rest, allow, n⟩ = (.ok ⟨none, name⟩, ⟨rest, allow, n⟩) := by
  have heat : eat .dot ⟨rest, allow, n⟩ = (.ok false, ⟨rest, allow, n⟩) := by
    refine eatIf_of_not ?_
    cases rest with
    | nil => rfl
    | cons t ts => exact decide_eq_false fun heq => h (congrArg some heq)
  rw [finishColumnRef, bind_ok heat]
  rfl

theorem finishColumnRef_eq_ok (h : finishColumnRef name ⟨rest, allow, n⟩ = (.ok ref, s'))
    (htable : ref.table = none) : EndsName rest ∧ ref = ⟨none, name⟩ ∧ s' = ⟨rest, allow, n⟩ := by
  by_cases hends : EndsName rest
  · rw [finishColumnRef_of_ends hends] at h
    cases h
    exact ⟨hends, rfl, rfl⟩
  · obtain ⟨ts, rfl⟩ := List.head?_eq_some_iff.mp (not_not.mp hends)
    obtain ⟨b, s₁, heat, hrest⟩ := bind_eq_ok h
    rw [eat, eatIf_of_head rfl (decide_eq_true rfl)] at heat
    cases heat
    obtain ⟨column, s₂, -, hpure⟩ := bind_eq_ok hrest
    cases hpure
    cases htable

theorem parseColumnRef_name
    (h : parseColumnRef ⟨qualifier table ++ .ident x :: rest, allow, n⟩ = (.ok ref, s'))
    (htable : ref.table = table) (name : String) :
    parseColumnRef ⟨qualifier table ++ .ident name :: rest, allow, n⟩ =
      (.ok { ref with column := name }, s') := by
  cases table with
  | none =>
    obtain ⟨hends, rfl, rfl⟩ := finishColumnRef_eq_ok h htable
    exact finishColumnRef_of_ends hends
  | some table =>
    cases h
    rfl

theorem parseFunctionCall_eq_ok {e : Expr} {s : ParserState}
    (h : parseFunctionCall argument name s = (.ok e, s')) : ∃ args, e = .function name args := by
  obtain ⟨_, _, -, h⟩ := bind_eq_ok h
  obtain ⟨_, _, -, h⟩ := bind_eq_ok h
  split_ifs at h
  · obtain ⟨_, _, -, h⟩ := bind_eq_ok h
    cases h
    exact ⟨_, rfl⟩
  · obtain ⟨args, _, -, h⟩ := bind_eq_ok h
    obtain ⟨_, _, -, h⟩ := bind_eq_ok h
    cases h
    exact ⟨args, rfl⟩

def literalWords : List String := ["TRUE", "FALSE"]

def exprWords : Option String → List String
  | none => literalWords
  | some _ => []

def Avoids (words : List String) (name : String) : Prop :=
  ∀ word ∈ words, eqIgnoreAsciiCase name word = false

theorem parseNamed_column_iff :
    parseNamed argument name ⟨rest, allow, n⟩ = (.ok (.column ref), s') ↔
      Avoids literalWords name ∧ rest.head?.any (· = .lParen) = false ∧
        finishColumnRef name ⟨rest, allow, n⟩ = (.ok ref, s') := by
  have havoids : Avoids literalWords name ↔
      ¬ eqIgnoreAsciiCase name "TRUE" = true ∧ ¬ eqIgnoreAsciiCase name "FALSE" = true := by
    simp [Avoids, literalWords]
  have hpeek : peekIs (· = .lParen) ⟨rest, allow, n⟩ =
      (.ok (rest.head?.any (· = .lParen)), ⟨rest, allow, n⟩) := rfl
  rw [havoids, parseNamed]
  by_cases htrue : eqIgnoreAsciiCase name "TRUE" = true
  · rw [if_pos htrue]
    exact iff_of_false nofun fun h => h.1.1 htrue
  by_cases hfalse : eqIgnoreAsciiCase name "FALSE" = true
  · rw [if_neg htrue, if_pos hfalse]
    exact iff_of_false nofun fun h => h.1.2 hfalse
  rw [if_neg htrue, if_neg hfalse, bind_ok hpeek, and_iff_right ⟨htrue, hfalse⟩]
  cases rest.head?.any (· = .lParen) with
  | true =>
    refine iff_of_false (fun h => ?_) fun h => Bool.noConfusion h.1
    obtain ⟨args, hargs⟩ := parseFunctionCall_eq_ok h
    cases hargs
  | false =>
    rw [if_neg Bool.false_ne_true, and_iff_right rfl]
    constructor
    · intro h
      obtain ⟨ref', s₁, href, hpure⟩ := bind_eq_ok h
      cases hpure
      exact href
    · intro h
      exact bind_ok h

/-- In an expression a column takes any name that is no literal, and any name behind a table. -/
theorem parseExpr_name
    (h : parseExpr ⟨qualifier table ++ .ident x :: rest, allow, n⟩ = (.ok (.column ref), s'))
    (htable : ref.table = table) (hname : Avoids (exprWords table) name) :
    parseExpr ⟨qualifier table ++ .ident name :: rest, allow, n⟩ =
      (.ok (.column { ref with column := name }), s') := by
  cases table with
  | none =>
    obtain ⟨-, hcall, hfinish⟩ := parseNamed_column_iff.mp h
    obtain ⟨hends, rfl, rfl⟩ := finishColumnRef_eq_ok hfinish htable
    exact parseNamed_column_iff.mpr ⟨hname, hcall, finishColumnRef_of_ends hends⟩
  | some table =>
    obtain ⟨havoids, -, hfinish⟩ := parseNamed_column_iff.mp h
    cases hfinish
    exact parseNamed_column_iff.mpr ⟨havoids, rfl, rfl⟩

variable {columns columns' : List ColumnDef}

theorem parseColumnDef_name {column : ColumnDef}
    (h : parseColumnDef parseExpr ⟨.ident x :: rest, allow, n⟩ = (.ok column, s')) :
    column.name = x ∧ ∀ name, parseColumnDef parseExpr ⟨.ident name :: rest, allow, n⟩ =
      (.ok { column with name := name }, s') := by
  rw [parseColumnDef, bind_ok (expectIdent_ident x)] at h
  obtain ⟨typeName, s₂, htype, h⟩ := bind_eq_ok h
  obtain ⟨_, s₃, hmodifiers, h⟩ := bind_eq_ok h
  obtain ⟨attrs, s₄, hattrs, h⟩ := bind_eq_ok h
  cases h
  refine ⟨rfl, fun name => ?_⟩
  rw [parseColumnDef, bind_ok (expectIdent_ident name), bind_ok htype,
    bind_ok hmodifiers, bind_ok hattrs]
  rfl

theorem peekIs_ident (test : Token → Bool) (name : String) :
    peekIs test ⟨.ident name :: rest, allow, n⟩ =
      (.ok (test (.ident name)), ⟨.ident name :: rest, allow, n⟩) := rfl

theorem eat_keyword_ident (keyword : Keyword) (name : String) :
    eat (.keyword keyword) ⟨.ident name :: rest, allow, n⟩ =
      (.ok false, ⟨.ident name :: rest, allow, n⟩) := rfl

def constraintWords : List String := ["CONSTRAINT", "UNIQUE", "INDEX", "FOREIGN"]

theorem isTableConstraintStart_ident (name : String) :
    isTableConstraintStart (.ident name) = false ↔ Avoids constraintWords name := by
  simp [isTableConstraintStart, isIdentCi, Avoids, constraintWords, and_assoc]

theorem length_applyPrimaryKeyConstraint {names : List String}
    (h : applyPrimaryKeyConstraint columns names = .ok columns') :
    columns'.length = columns.length := by
  unfold applyPrimaryKeyConstraint at h
  split at h
  · split at h
    · cases h
      exact length_modify ..
    · cases h
  · cases h

theorem length_parseTableConstraint (columns : List ColumnDef) :
    Yields (fun columns' => columns'.length = columns.length) (parseTableConstraint columns) := by
  have hsame : Yields (fun columns' => columns'.length = columns.length)
      (pure columns : Parser (List ColumnDef)) := Yields.pure rfl
  refine .bind fun _ => .bind fun _ => .ite (.bind fun _ => .bind fun _ => .lift ?_) ?_
  · exact fun _ h => length_applyPrimaryKeyConstraint h
  refine .bind fun _ => .ite (.bind fun _ => .bind fun _ => .bind fun _ => hsame) ?_
  refine .bind fun _ => .ite (.bind fun _ => .bind fun _ => hsame) ?_
  exact .bind fun _ => .ite (.bind fun _ => hsame) (.bind fun _ => .fail _)

/-- A new column takes any name but the words that start a constraint. -/
theorem parseTableItem_name
    (h : parseTableItem parseExpr columns ⟨.ident x :: rest, allow, n⟩ = (.ok columns', s')) :
    (∃ column, columns' = columns ++ [column]) ↔ Avoids constraintWords x := by
  rw [← isTableConstraintStart_ident]
  rw [parseTableItem, bind_ok (peekIs_ident _ x)] at h
  cases hstart : isTableConstraintStart (.ident x) with
  | true =>
    rw [hstart] at h
    have hlength := length_parseTableConstraint columns _ _ _ h
    refine iff_of_false ?_ Bool.noConfusion
    rintro ⟨column, rfl⟩
    simp at hlength
  | false =>
    rw [hstart] at h
    obtain ⟨column, s₁, -, hpure⟩ := bind_eq_ok h
    cases hpure
    exact iff_of_true ⟨column, rfl⟩ rfl

theorem parseTableItem_of_avoids (columns : List ColumnDef) {name : String}
    (h : Avoids constraintWords name) :
    parseTableItem parseExpr columns ⟨.ident name :: rest, allow, n⟩ = (do
        let column ← parseColumnDef parseExpr
        pure (columns ++ [column])) ⟨.ident name :: rest, allow, n⟩ := by
  rw [parseTableItem, bind_ok (peekIs_ident _ name), (isTableConstraintStart_ident name).mpr h]
  rfl

variable {word : String}

inductive AlterVerb where
  | add
  | drop
  | modify

namespace AlterVerb

def token : AlterVerb → Token
  | add => .ident "ADD"
  | drop => .keyword .drop
  | modify => .ident "MODIFY"

def words : AlterVerb → List String
  | add => ["CONSTRAINT", "COLUMN"]
  | drop => ["COLUMN"]
  | modify => ["COLUMN"]

def parseColumn : AlterVerb → Parser AlterAction
  | add => .addColumn <$> parseColumnDef parseExpr
  | drop => .dropColumn <$> expectIdent
  | modify => .modifyColumn <$> parseColumnDef parseExpr

end AlterVerb

def alteredColumn : AlterAction → Option String
  | .addColumn column | .modifyColumn column => some column.name
  | .dropColumn name => some name
  | _ => none

def renameAltered (name : String) : AlterAction → AlterAction
  | .addColumn column => .addColumn { column with name }
  | .modifyColumn column => .modifyColumn { column with name }
  | .dropColumn _ => .dropColumn name
  | action => action

theorem eatIdentCi_of_not (h : eqIgnoreAsciiCase name word = false) :
    eatIdentCi word ⟨.ident name :: rest, allow, n⟩ = (.ok false, ⟨.ident name :: rest, allow, n⟩) :=
  eatIf_of_not h

theorem eatIdentCi_of_eq (h : eqIgnoreAsciiCase name word = true) :
    eatIdentCi word ⟨.ident name :: rest, allow, n⟩ = (.ok true, ⟨rest, allow, n⟩) :=
  eatIf_of_head rfl h

theorem eqIgnoreAsciiCase_congr (h : eqIgnoreAsciiCase name word = true) (other : String) :
    eqIgnoreAsciiCase name other = eqIgnoreAsciiCase word other := by
  rw [eqIgnoreAsciiCase, of_decide_eq_true h]
  rfl

theorem parseAlterAction_ident (table : String) (verb : AlterVerb)
    (h : verb = .add → eqIgnoreAsciiCase name "CONSTRAINT" = false) :
    parseAlterAction parseExpr table ⟨verb.token :: .ident name :: rest, allow, n⟩ = (do
        let _ ← eatIdentCi "COLUMN"
        verb.parseColumn) ⟨.ident name :: rest, allow, n⟩ := by
  cases verb with
  | add =>
    have hstart : parseAlterAction parseExpr table ⟨.ident "ADD" :: .ident name :: rest, allow, n⟩ =
        parseAlterAddAction parseExpr ⟨.ident name :: rest, allow, n⟩ := rfl
    have hconstraint : eatConstraintName ⟨.ident name :: rest, allow, n⟩ =
        (.ok false, ⟨.ident name :: rest, allow, n⟩) := by
      rw [eatConstraintName, bind_ok (eatIdentCi_of_not (h rfl))]
      rfl
    rw [AlterVerb.token, hstart, parseAlterAddAction, bind_ok hconstraint,
      bind_ok (eat_keyword_ident .primary name), if_neg Bool.false_ne_true,
      if_neg Bool.false_ne_true]
    rfl
  | drop => rfl
  | modify => rfl

theorem parseAlterAction_of_column (table : String) (verb : AlterVerb)
    (h : eqIgnoreAsciiCase name "COLUMN" = true) :
    parseAlterAction parseExpr table ⟨verb.token :: .ident name :: rest, allow, n⟩ =
      verb.parseColumn ⟨rest, allow, n⟩ := by
  have hother : eqIgnoreAsciiCase name "CONSTRAINT" = false :=
    (eqIgnoreAsciiCase_congr h _).trans (by decide)
  rw [parseAlterAction_ident table verb fun _ => hother, bind_ok (eatIdentCi_of_eq h)]

theorem AlterVerb.avoids_words_iff (verb : AlterVerb) (name : String) :
    Avoids verb.words name ↔ (verb = .add → eqIgnoreAsciiCase name "CONSTRAINT" = false) ∧
      eqIgnoreAsciiCase name "COLUMN" = false := by
  cases verb <;> simp [Avoids, AlterVerb.words]

theorem parseAlterAction_of_avoids (table : String) (verb : AlterVerb)
    (h : Avoids verb.words name) :
    parseAlterAction parseExpr table ⟨verb.token :: .ident name :: rest, allow, n⟩ =
      verb.parseColumn ⟨.ident name :: rest, allow, n⟩ := by
  obtain ⟨hconstraint, hcolumn⟩ := (verb.avoids_words_iff name).mp h
  rw [parseAlterAction_ident table verb hconstraint, bind_ok (eatIdentCi_of_not hcolumn)]

theorem map_eq_ok {α β : Type} {p : Parser α} {f : α → β} {s : ParserState} {b : β}
    (h : (f <$> p) s = (.ok b, s')) : ∃ a, p s = (.ok a, s') ∧ f a = b := by
  obtain ⟨a, s₁, ha, hpure⟩ := bind_eq_ok h
  cases hpure
  exact ⟨a, ha, rfl⟩

theorem AlterVerb.parseColumn_name {verb : AlterVerb} {x : String} {action : AlterAction}
    (h : verb.parseColumn ⟨.ident x :: rest, allow, n⟩ = (.ok action, s')) (name : String) :
    verb.parseColumn ⟨.ident name :: rest, allow, n⟩ = (.ok (renameAltered name action), s') ∧
      alteredColumn (renameAltered name action) = some name := by
  cases verb with
  | add =>
    obtain ⟨column, hcolumn, rfl⟩ := map_eq_ok h
    exact ⟨bind_ok ((parseColumnDef_name hcolumn).2 name), rfl⟩
  | drop =>
    cases h
    exact ⟨rfl, rfl⟩
  | modify =>
    obtain ⟨column, hcolumn, rfl⟩ := map_eq_ok h
    exact ⟨bind_ok ((parseColumnDef_name hcolumn).2 name), rfl⟩

theorem parseColumnDef_ne_ok (name : String) (column : ColumnDef) :
    parseColumnDef parseExpr ⟨[.ident name], allow, n⟩ ≠ (.ok column, s') := by
  intro h
  rw [parseColumnDef, bind_ok (expectIdent_ident name)] at h
  obtain ⟨_, _, htype, -⟩ := bind_eq_ok h
  obtain ⟨_, _, hbase, -⟩ := bind_eq_ok htype
  cases hbase

theorem parseAlterAction_constraint (table : String)
    (h : eqIgnoreAsciiCase name "CONSTRAINT" = true) (action : AlterAction) :
    parseAlterAction parseExpr table ⟨[.ident "ADD", .ident name, .ident "INT"], allow, n⟩ ≠ (.ok action, s') := by
  have hstart : parseAlterAction parseExpr table ⟨[.ident "ADD", .ident name, .ident "INT"], allow, n⟩ =
      parseAlterAddAction parseExpr ⟨[.ident name, .ident "INT"], allow, n⟩ := rfl
  have hconstraint : eatConstraintName ⟨[.ident name, .ident "INT"], allow, n⟩ =
      (.ok true, ⟨[], allow, n⟩) := by
    rw [eatConstraintName, bind_ok (eatIdentCi_of_eq h)]
    rfl
  rw [hstart, parseAlterAddAction, bind_ok hconstraint]
  exact nofun

theorem parseAlterAction_avoids {table : String} {verb : AlterVerb} {name : String}
    {action : AlterAction} (htokens : verb = .drop → s'.tokens ≠ [])
    (h : parseAlterAction parseExpr table ⟨[verb.token, .ident name, .ident "INT"], allow, n⟩ =
      (.ok action, s')) :
    Avoids verb.words name := by
  rw [AlterVerb.avoids_words_iff]
  constructor
  · rintro rfl
    by_contra hconstraint
    exact parseAlterAction_constraint table (Bool.not_eq_false _ ▸ hconstraint) action h
  · by_contra hcolumn
    rw [parseAlterAction_of_column table verb (Bool.not_eq_false _ ▸ hcolumn)] at h
    cases verb with
    | add =>
      obtain ⟨column, hdef, -⟩ := map_eq_ok h
      exact parseColumnDef_ne_ok _ _ hdef
    | drop =>
      cases h
      exact htokens rfl rfl
    | modify =>
      obtain ⟨column, hdef, -⟩ := map_eq_ok h
      exact parseColumnDef_ne_ok _ _ hdef

end

end Parser

open MysqlRust.Parser

def compareToken : CompareOp → Token
  | .eq => .eq
  | .notEq => .notEq
  | .lt => .lt
  | .gt => .gt
  | .le => .le
  | .ge => .ge

/-- Where the grammar takes the name of a column. An argument is one of a function, at any depth. -/
inductive NamePosition where
  | createTable (columns : List ColumnDef)
  | alterTable (table : String) (verb : AlterVerb) (keyword : Bool)
  | insertColumn
  | selectItem (table : Option String)
  | argument (table : Option String)
  | whereColumn (table : Option String)
  | whereValue (column : String) (op : CompareOp) (table : Option String)
  | groupBy (table : Option String)
  | orderBy (table : Option String)

namespace NamePosition

abbrev Result : NamePosition → Type
  | createTable _ => List ColumnDef
  | alterTable _ _ _ => AlterAction
  | insertColumn => String
  | selectItem _ => SelectItem
  | argument _ => Expr
  | whereColumn _ => Condition
  | whereValue _ _ _ => Condition
  | groupBy _ => ColumnRef
  | orderBy _ => OrderByItem

def parser : (p : NamePosition) → Parser p.Result
  | createTable columns => parseTableItem parseExpr columns
  | alterTable table _ _ => parseAlterAction parseExpr table
  | insertColumn => expectIdent
  | selectItem _ => parseSelectItem parseExpr
  | argument _ => parseExpr
  | whereColumn _ => parseCondition parseExpr
  | whereValue _ _ _ => parseCondition parseExpr
  | groupBy _ => parseColumnRef
  | orderBy _ => parseOrderByItem

def before : NamePosition → List Token
  | createTable _ => []
  | alterTable _ verb keyword => verb.token :: if keyword then [.ident "COLUMN"] else []
  | insertColumn => []
  | selectItem table => qualifier table
  | argument table => qualifier table
  | whereColumn table => qualifier table
  | whereValue column op table => .ident column :: compareToken op :: qualifier table
  | groupBy table => qualifier table
  | orderBy table => qualifier table

def refName (table : Option String) (ref : ColumnRef) : Option String :=
  if ref.table = table then some ref.column else none

def exprName (table : Option String) : Expr → Option String
  | .column ref => refName table ref
  | _ => none

def name : (p : NamePosition) → p.Result → Option String
  | createTable columns, columns' => columns'[columns.length]?.map ColumnDef.name
  | alterTable _ _ _, action => alteredColumn action
  | insertColumn, column => some column
  | selectItem table, .expr e _ => exprName table e
  | selectItem _, .wildcard => none
  | argument table, e => exprName table e
  | whereColumn table, condition => refName table condition.column
  | whereValue _ _ table, condition => exprName table condition.value
  | groupBy table, ref => refName table ref
  | orderBy table, item => refName table item.column

def renameExpr (s : String) : Expr → Expr
  | .column ref => .column { ref with column := s }
  | e => e

def rename (s : String) : (p : NamePosition) → p.Result → p.Result
  | createTable columns, columns' => columns'.modify columns.length fun c => { c with name := s }
  | alterTable _ _ _, action => renameAltered s action
  | insertColumn, _ => s
  | selectItem _, .expr e asAlias => .expr (renameExpr s e) asAlias
  | selectItem _, .wildcard => .wildcard
  | argument _, e => renameExpr s e
  | whereColumn _, condition => { condition with column := { condition.column with column := s } }
  | whereValue _ _ _, condition => { condition with value := renameExpr s condition.value }
  | groupBy _, ref => { ref with column := s }
  | orderBy _, item => { item with column := { item.column with column := s } }

def words : NamePosition → List String
  | createTable _ => constraintWords
  | alterTable _ verb false => verb.words
  | selectItem table => exprWords table
  | argument table => exprWords table
  | whereValue _ _ table => exprWords table
  | _ => []

def Ordinary (x : String) : Prop := Avoids (constraintWords ++ "COLUMN" :: literalWords) x

/-- Whatever is parsed with an ordinary name there, is parsed with `s` instead, and nothing else
changes. -/
def Takes (p : NamePosition) (s : String) : Prop :=
  ∀ x, Ordinary x → ∀ rest allow n a s', p.parser ⟨p.before ++ .ident x :: rest, allow, n⟩ =
    (.ok a, s') → p.name a = some x →
      p.parser ⟨p.before ++ .ident s :: rest, allow, n⟩ = (.ok (p.rename s a), s') ∧
        p.name (p.rename s a) = some s

theorem Ordinary.avoids {x : String} (h : Ordinary x) {words : List String}
    (hwords : words ⊆ constraintWords ++ "COLUMN" :: literalWords) : Avoids words x :=
  fun word hword => h word (hwords hword)

theorem ordinary_x : Ordinary "x" := by
  intro word hword
  have hall : ∀ word ∈ constraintWords ++ "COLUMN" :: literalWords,
      eqIgnoreAsciiCase "x" word = false := by decide
  exact hall word hword

theorem avoids_nil (s : String) : Avoids [] s := fun _ hword => absurd hword not_mem_nil

section Positions
variable {s : String}
variable {table : Option String}
variable {ref : ColumnRef} {x : String}

theorem modify_append_singleton (columns : List ColumnDef) (column : ColumnDef)
    (f : ColumnDef → ColumnDef) :
    (columns ++ [column]).modify columns.length f = columns ++ [f column] := by
  induction columns with
  | nil => rfl
  | cons c columns ih =>
    rw [cons_append, length_cons, modify_succ_cons, ih, cons_append]

theorem createTable_takes_iff (columns : List ColumnDef) :
    (createTable columns).Takes s ↔ Avoids constraintWords s := by
  constructor
  · intro h
    have hx : parseTableItem parseExpr columns ⟨[.ident "x", .ident "INT"], false, 0⟩ =
        (.ok (columns ++ [⟨"x", "INT", false, true, false⟩]), ⟨[], false, 0⟩) := rfl
    obtain ⟨hs, -⟩ := h "x" ordinary_x _ _ _ _ _ hx (by simp [name])
    refine (parseTableItem_name hs).mp ⟨⟨s, "INT", false, true, false⟩, ?_⟩
    exact modify_append_singleton columns _ _
  · intro hs x hx rest allow n columns' s' hparse _
    have hwords : Avoids constraintWords x := hx.avoids (subset_append_left _ _)
    rw [parser, before, nil_append, parseTableItem_of_avoids columns hwords] at hparse
    obtain ⟨column, s₁, hcolumn, hpure⟩ := bind_eq_ok hparse
    cases hpure
    have hrename : rename s (createTable columns) (columns ++ [column]) =
        columns ++ [{ column with name := s }] := modify_append_singleton columns _ _
    refine ⟨?_, ?_⟩
    · rw [parser, before, nil_append, parseTableItem_of_avoids columns hs,
        bind_ok ((parseColumnDef_name hcolumn).2 s), hrename]
      rfl
    · rw [hrename]
      simp [name]

theorem alterTable_takes_iff (table : String) (verb : AlterVerb) (keyword : Bool) :
    (alterTable table verb keyword).Takes s ↔ Avoids (alterTable table verb keyword).words s := by
  have hcolumn {rest : List Token} {allow : Bool} {n : Nat} :
      parseAlterAction parseExpr table ⟨verb.token :: .ident "COLUMN" :: rest, allow, n⟩ =
        verb.parseColumn ⟨rest, allow, n⟩ := parseAlterAction_of_column table verb (by decide)
  cases keyword with
  | true =>
    refine iff_of_true ?_ (avoids_nil s)
    intro x hx rest allow n action s' hparse _
    obtain ⟨hs, hname⟩ := verb.parseColumn_name (hcolumn.symm.trans hparse) s
    exact ⟨hcolumn.trans hs, hname⟩
  | false =>
    constructor
    · intro h
      have hrun := h "x" ordinary_x [.ident "INT"] false 0
      cases verb with
      | add =>
        obtain ⟨hs, -⟩ := hrun (.addColumn ⟨"x", "INT", false, true, false⟩) ⟨[], false, 0⟩ rfl rfl
        exact parseAlterAction_avoids (fun heq => AlterVerb.noConfusion heq) hs
      | drop =>
        obtain ⟨hs, -⟩ := hrun (.dropColumn "x") ⟨[.ident "INT"], false, 0⟩ rfl rfl
        exact parseAlterAction_avoids (fun _ => cons_ne_nil _ _) hs
      | modify =>
        obtain ⟨hs, -⟩ := hrun (.modifyColumn ⟨"x", "INT", false, true, false⟩) ⟨[], false, 0⟩ rfl rfl
        exact parseAlterAction_avoids (fun heq => AlterVerb.noConfusion heq) hs
    · intro hs x hx rest allow n action s' hparse _
      have hwords : Avoids verb.words x := hx.avoids (by cases verb <;> decide)
      have hdone := (parseAlterAction_of_avoids table verb hwords).symm.trans hparse
      obtain ⟨hrun, hname⟩ := verb.parseColumn_name hdone s
      exact ⟨(parseAlterAction_of_avoids table verb hs).trans hrun, hname⟩

theorem insertColumn_takes : insertColumn.Takes s := by
  intro x hx rest allow n column s' hparse _
  cases hparse
  exact ⟨rfl, rfl⟩

theorem refName_eq_some (h : refName table ref = some x) : ref.table = table := by
  unfold refName at h
  split_ifs at h with htable
  exact htable

theorem refName_rename (h : ref.table = table) :
    refName table { ref with column := s } = some s := if_pos h

section Reads
variable {p : NamePosition} {γ ρ : Type} {q : Parser γ} {k : Parser ρ} {f : γ → ρ → p.Result}

/-- A column is read behind its table, and what follows does not depend on it. -/
def Reads (p : NamePosition) (table : Option String) (q : Parser γ) (k : Parser ρ)
    (f : γ → ρ → p.Result) : Prop :=
  ∀ x rest allow n, p.parser ⟨p.before ++ .ident x :: rest, allow, n⟩ = (do
      let a ← q
      let r ← k
      pure (f a r) : Parser p.Result) ⟨qualifier table ++ .ident x :: rest, allow, n⟩

theorem Reads.eq_ok {rest : List Token} {allow : Bool} {n : Nat} {b : p.Result} {s' : ParserState}
    (h : p.Reads table q k f) (hb : p.parser ⟨p.before ++ .ident x :: rest, allow, n⟩ = (.ok b, s')) :
    ∃ a s₁ r, q ⟨qualifier table ++ .ident x :: rest, allow, n⟩ = (.ok a, s₁) ∧
      k s₁ = (.ok r, s') ∧ b = f a r := by
  rw [h] at hb
  obtain ⟨a, s₁, ha, hrest⟩ := bind_eq_ok hb
  obtain ⟨r, s₂, hr, hpure⟩ := bind_eq_ok hrest
  cases hpure
  exact ⟨a, s₁, r, ha, hr, rfl⟩

theorem Reads.takes {named : γ → Option String} {renamed : γ → γ} (h : p.Reads table q k f)
    (hname : ∀ a r, p.name (f a r) = named a) (hrename : ∀ a r, p.rename s (f a r) = f (renamed a) r)
    (hq : ∀ x rest allow n a s', q ⟨qualifier table ++ .ident x :: rest, allow, n⟩ = (.ok a, s') →
      named a = some x → q ⟨qualifier table ++ .ident s :: rest, allow, n⟩ = (.ok (renamed a), s') ∧
        named (renamed a) = some s) : p.Takes s := by
  intro x _ rest allow n b s' hparse hx
  obtain ⟨a, s₁, r, ha, hr, rfl⟩ := h.eq_ok hparse
  rw [hname] at hx
  obtain ⟨hs, hnamed⟩ := hq x rest allow n a s₁ ha hx
  rw [h, hrename, hname, bind_ok hs, bind_ok hr]
  exact ⟨rfl, hnamed⟩

theorem Reads.ref_takes {f : ColumnRef → ρ → p.Result} (h : p.Reads table parseColumnRef k f)
    (hname : ∀ ref r, p.name (f ref r) = refName table ref)
    (hrename : ∀ ref r, p.rename s (f ref r) = f { ref with column := s } r) : p.Takes s := by
  refine h.takes hname hrename fun x rest allow n ref s' href hx => ?_
  have htable := refName_eq_some hx
  exact ⟨parseColumnRef_name href htable s, refName_rename htable⟩

theorem exprName_eq_some {e : Expr} (h : exprName table e = some x) :
    ∃ ref, e = .column ref ∧ ref.table = table := by
  cases e with
  | column ref => exact ⟨ref, rfl, refName_eq_some h⟩
  | _ => cases h

theorem Reads.expr_takes_iff {f : Expr → ρ → p.Result} (h : p.Reads table parseExpr k f)
    (hname : ∀ e r, p.name (f e r) = exprName table e)
    (hrename : ∀ e r, p.rename s (f e r) = f (renameExpr s e) r)
    (hend : ∃ r, k ⟨[], false, 0⟩ = (.ok r, ⟨[], false, 0⟩)) :
    p.Takes s ↔ Avoids (exprWords table) s := by
  constructor
  · intro htakes
    cases table with
    | none =>
      obtain ⟨r, hr⟩ := hend
      have hx : p.parser ⟨p.before ++ [.ident "x"], false, 0⟩ =
          (.ok (f (.column ⟨none, "x"⟩) r), ⟨[], false, 0⟩) := (h ..).trans (bind_ok hr)
      obtain ⟨hs, hnamed⟩ := htakes "x" ordinary_x [] false 0 _ _ hx (hname _ _)
      obtain ⟨e, s₁, r', he, -, heq⟩ := h.eq_ok hs
      rw [heq, hname] at hnamed
      obtain ⟨ref, rfl, -⟩ := exprName_eq_some hnamed
      exact (parseNamed_column_iff.mp he).1
    | some table => exact avoids_nil s
  · refine fun hs => h.takes hname hrename fun x rest allow n e s' he hx => ?_
    obtain ⟨ref, rfl, htable⟩ := exprName_eq_some hx
    exact ⟨parseExpr_name he htable hs, refName_rename htable⟩

end Reads

theorem groupBy_takes (table : Option String) : (groupBy table).Takes s :=
  Reads.ref_takes (k := pure ()) (f := fun ref _ => ref) (fun _ _ _ _ => congrFun (bind_pure _).symm _)
    (fun _ _ => rfl) (fun _ _ => rfl)

theorem orderBy_takes (table : Option String) : (orderBy table).Takes s := by
  have hreads : (orderBy table).Reads table parseColumnRef (do
      if ← eatIdentCi "DESC" then pure true
      else do
        let _ ← eatIdentCi "ASC"
        pure false) fun ref descending => ⟨ref, descending⟩ := by
    intro x rest allow n
    simp only [bind_assoc, ite_bind, pure_bind]
    rfl
  exact hreads.ref_takes (fun _ _ => rfl) (fun _ _ => rfl)

theorem whereColumn_takes (table : Option String) : (whereColumn table).Takes s := by
  have hreads : (whereColumn table).Reads table parseColumnRef (do
      let op ← expect compareOp "a comparison operator"
      let value ← parseExpr
      pure (op, value)) fun ref r => ⟨ref, r.1, r.2⟩ := by
    intro x rest allow n
    simp only [bind_assoc, pure_bind]
    rfl
  exact hreads.ref_takes (fun _ _ => rfl) (fun _ _ => rfl)

theorem argument_takes_iff (table : Option String) :
    (argument table).Takes s ↔ Avoids (exprWords table) s :=
  Reads.expr_takes_iff (k := pure ()) (f := fun e _ => e)
    (fun _ _ _ _ => congrFun (bind_pure _).symm _) (fun _ _ => rfl) (fun _ _ => rfl) ⟨_, rfl⟩

theorem selectItem_takes_iff (table : Option String) :
    (selectItem table).Takes s ↔ Avoids (exprWords table) s := by
  have hreads : (selectItem table).Reads table parseExpr parseOptionalAlias .expr := by
    intro x rest allow n
    have hstar : eat .star ⟨qualifier table ++ .ident x :: rest, allow, n⟩ =
        (.ok false, ⟨qualifier table ++ .ident x :: rest, allow, n⟩) := by
      cases table <;> rfl
    exact bind_ok hstar
  exact hreads.expr_takes_iff (fun _ _ => rfl) (fun _ _ => rfl) ⟨_, rfl⟩

theorem whereValue_takes_iff (column : String) (op : CompareOp) (table : Option String) :
    (whereValue column op table).Takes s ↔ Avoids (exprWords table) s := by
  have hreads : (whereValue column op table).Reads table parseExpr (pure ())
      fun value _ => ⟨⟨none, column⟩, op, value⟩ := by
    intro x rest allow n
    cases op <;> rfl
  exact hreads.expr_takes_iff (fun _ _ => rfl) (fun _ _ => rfl) ⟨_, rfl⟩

theorem takes_iff (p : NamePosition) (s : String) : p.Takes s ↔ Avoids p.words s := by
  cases p with
  | createTable columns => exact createTable_takes_iff columns
  | alterTable table verb keyword => exact alterTable_takes_iff table verb keyword
  | insertColumn => exact iff_of_true insertColumn_takes (avoids_nil s)
  | selectItem table => exact selectItem_takes_iff table
  | argument table => exact argument_takes_iff table
  | whereColumn table => exact iff_of_true (whereColumn_takes table) (avoids_nil s)
  | whereValue column op table => exact whereValue_takes_iff column op table
  | groupBy table => exact iff_of_true (groupBy_takes table) (avoids_nil s)
  | orderBy table => exact iff_of_true (orderBy_takes table) (avoids_nil s)

/-- A quoted name is one identifier. Every place for a column takes it, except for the words that
the parser looks for there. -/
theorem quoted_iff (u : Unicode) (p : NamePosition) (hs : s ≠ "") :
    ((∀ pos rest, rest.head? ≠ some '\x60' →
        turn u pos ((Piece.quoted s.toList).text ++ rest) = .ok (.token (.ident s) rest)) ∧
      p.Takes s) ↔ Avoids p.words s := by
  have hturn : ∀ pos rest, rest.head? ≠ some '\x60' →
      turn u pos ((Piece.quoted s.toList).text ++ rest) = .ok (.token (.ident s) rest) := by
    intro pos rest hrest
    have hclosed : (Piece.quoted s.toList).Closed rest := ⟨by simpa using hs, hrest⟩
    rw [Piece.turn_text u pos hclosed, Piece.turn, Piece.token, String.ofList_toList]
  rw [and_iff_right hturn, takes_iff]

end Positions

theorem quoted_order : "order" ≠ "" ∧ (groupBy none).Takes "order" ∧
    (∀ rest, turn .ascii 0 ('\x60' :: 'o' :: 'r' :: 'd' :: 'e' :: 'r' :: '\x60' :: ',' :: rest) =
      .ok (.token (.ident "order") (',' :: rest))) ∧ ¬ (selectItem none).Takes "true" := by
  have horder := (quoted_iff .ascii (groupBy none) (show "order" ≠ "" by decide)).mpr (avoids_nil _)
  have htrue := quoted_iff .ascii (selectItem none) (show "true" ≠ "" by decide)
  refine ⟨by decide, horder.2, fun rest => horder.1 0 (',' :: rest) nofun, fun htakes => ?_⟩
  have hturn := (quoted_iff .ascii (groupBy none) (show "true" ≠ "" by decide)).mpr (avoids_nil _)
  exact absurd (htrue.mp ⟨hturn.1, htakes⟩ "TRUE" mem_cons_self) (by decide)

end NamePosition

/-- A quoted `true` is the number one, and a quoted `index` is no column. -/
theorem parse_quoted_true :
    (∃ select, parse .ascii "SELECT \x60true\x60 FROM t" = .ok (.select select) ∧
      select.projection = [.expr (.integer 1) none]) ∧
    (parse .ascii "CREATE TABLE t (a INT, \x60index\x60 INT)").isOk = false := by
  have htokens : tokenize .ascii "SELECT \x60true\x60 FROM t" =
      .ok [.keyword .select, .ident "true", .keyword .fromKw, .ident "t"] := by decide +kernel
  have hparse : ∃ select, parse .ascii "SELECT \x60true\x60 FROM t" = .ok (.select select) ∧
      select.projection = [.expr (.integer 1) none] := by
    rw [parse, htokens]
    exact ⟨_, rfl, rfl⟩
  exact ⟨hparse, by decide +kernel⟩

end MysqlRust
