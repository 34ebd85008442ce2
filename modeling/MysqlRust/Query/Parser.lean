import MysqlRust.Foundation.Proc
import MysqlRust.Query.Ast
import MysqlRust.Query.Lexer

/-! # From tokens to statements

A recursive-descent parser over what is left of the tokens and the number of placeholders so far.
A loop has at most as many turns as there are tokens left; one that had more would panic. How deep
`parse_expr` can call itself is a matter of the stack, so the functions that meet an expression
take its parser as an argument.
-/
namespace MysqlRust

open Proc

structure ParserState where
  tokens : List Token
  allowPlaceholders : Bool
  paramCount : Nat
  deriving DecidableEq, Repr

abbrev Parser (α : Type) : Type := Proc ParserState Error α

namespace Parser
variable {α : Type}

section Primitives
variable {s : ParserState} {t : Token} {ts : List Token} {p : Token → Option α} {a : α}

def fail (message : String) : Parser α := lift (.err (.parse message))

def peek : Parser (Option Token) := fun s => (.ok s.tokens.head?, s)

def peekAt (offset : Nat) : Parser (Option Token) := fun s => (.ok s.tokens[offset]?, s)

def advance : Parser (Option Token) := fun s =>
  (.ok s.tokens.head?, { s with tokens := s.tokens.tail })

/-- One token on. There is no position behind the end, so moving there is a panic. -/
def bump : Parser Unit := fun s =>
  match s.tokens with
  | [] => (.panic, s)
  | _ :: ts => (.ok (), { s with tokens := ts })

def peekIs (p : Token → Bool) : Parser Bool := fun s => (.ok (s.tokens.head?.any p), s)

def eatIf (p : Token → Bool) : Parser Bool := fun s =>
  if s.tokens.head?.any p then (.ok true, { s with tokens := s.tokens.tail }) else (.ok false, s)

def eat (token : Token) : Parser Bool := eatIf (· = token)

def eatMap (p : Token → Option α) : Parser (Option α) := fun s =>
  match s.tokens.head?.bind p with
  | some a => (.ok (some a), { s with tokens := s.tokens.tail })
  | none => (.ok none, s)

def skipUntil (p : Token → Bool) : Parser Unit := fun s =>
  (.ok (), { s with tokens := s.tokens.dropWhile (!p ·) })

def expect (p : Token → Option α) (what : String) : Parser α := do
  let token ← advance
  match token.bind p with
  | some a => pure a
  | none => fail s!"expected {what}, found {describe token}"

def bounded (loop : Nat → Parser α) : Parser α := fun s => loop (s.tokens.length + 1) s

theorem advance_cons (h : s.tokens = t :: ts) :
    advance s = (.ok (some t), { s with tokens := ts }) := by
  simp [advance, h]

theorem bump_cons (h : s.tokens = t :: ts) : bump s = (.ok (), { s with tokens := ts }) := by
  simp [bump, h]

theorem advance_nil (h : s.tokens = []) : advance s = (.ok none, s) := by
  cases s
  cases h
  rfl

theorem eatIf_of_head {p : Token → Bool} (h : s.tokens = t :: ts) (hp : p t = true) :
    eatIf p s = (.ok true, { s with tokens := ts }) := by
  simp [eatIf, h, hp]

theorem eatIf_of_not {p : Token → Bool} (h : s.tokens.head?.any p = false) :
    eatIf p s = (.ok false, s) := by
  simp [eatIf, h]

theorem eatIf_cases (p : Token → Bool) (s : ParserState) :
    (∃ t ts, s.tokens = t :: ts ∧ p t = true ∧ eatIf p s = (.ok true, { s with tokens := ts })) ∨
      s.tokens.head?.any p = false ∧ eatIf p s = (.ok false, s) := by
  cases hs : s.tokens with
  | nil => exact .inr ⟨rfl, eatIf_of_not (by simp [hs])⟩
  | cons t ts =>
    cases hp : p t with
    | true => exact .inl ⟨t, ts, rfl, hp, eatIf_of_head hs hp⟩
    | false => exact .inr ⟨by simp [hp], eatIf_of_not (by simp [hs, hp])⟩

theorem eatMap_of_head (h : s.tokens = t :: ts) (hp : p t = some a) :
    eatMap p s = (.ok (some a), { s with tokens := ts }) := by
  simp [eatMap, h, hp]

theorem eatMap_of_not (h : s.tokens.head?.bind p = none) : eatMap p s = (.ok none, s) := by
  simp [eatMap, h]

theorem expect_of_head {what : String} (h : s.tokens = t :: ts) (hp : p t = some a) :
    expect p what s = (.ok a, { s with tokens := ts }) := by
  rw [expect, bind_ok (advance_cons h), Option.bind_some, hp]
  rfl

theorem expect_eq_ok {what : String} {s' : ParserState} (h : expect p what s = (.ok a, s')) :
    ∃ t ts, s.tokens = t :: ts ∧ p t = some a ∧ s' = { s with tokens := ts } := by
  cases hs : s.tokens with
  | nil =>
    rw [expect, bind_ok (advance_nil hs)] at h
    cases h
  | cons t ts =>
    rw [expect, bind_ok (advance_cons hs), Option.bind_some] at h
    cases hp : p t with
    | none =>
      rw [hp] at h
      cases h
    | some a' =>
      rw [hp] at h
      cases h
      exact ⟨t, ts, rfl, hp, rfl⟩

end Primitives

def isIdent : Token → Bool
  | .ident _ => true
  | _ => false

def isIdentCi (word : String) : Token → Bool
  | .ident name => eqIgnoreAsciiCase name word
  | _ => false

def isDatabaseIdent (token : Token) : Bool := isIdentCi "DATABASE" token || isIdentCi "SCHEMA" token

def eatIdentCi (word : String) : Parser Bool := eatIf (isIdentCi word)

def expectToken (p : Token → Bool) (what : String) : Parser Unit :=
  expect (fun token => if p token then some () else none) what

def expectIdentCi (word : String) : Parser Unit := expectToken (isIdentCi word) ("'" ++ word ++ "'")

def expectDatabaseOrSchema : Parser Unit := expectToken isDatabaseIdent "'DATABASE' or 'SCHEMA'"

def expectKeyword (k : Keyword) : Parser Unit := expectToken (· = .keyword k) k.text

def expectPunct (token : Token) : Parser Unit :=
  expectToken (· = token) ("'" ++ token.text ++ "'")

def identName : Token → Option String
  | .ident name => some name
  | _ => none

def expectIdent : Parser String := expect identName "an identifier"

def strText : Token → Option String
  | .str s => some s
  | _ => none

def integerValue : Token → Option Int64
  | .integer n => some n
  | _ => none

def unsignedValue : Token → Option UInt64
  | .integer n => if 0 ≤ n then some n.toUInt64 else none
  | _ => none

def expectUnsignedInteger : Parser UInt64 := expect unsignedValue "a non-negative integer"

def listSeparator : Token → Option Bool
  | .comma => some true
  | .rParen => some false
  | _ => none

def expectSeparator : Parser Bool := expect listSeparator "',' or ')'"

def eatOptionalName : Parser Unit := do
  let _ ← eatIf isIdent
  pure ()

def consumeToStatementEnd : Parser Unit := skipUntil (· = .semicolon)

def ensureEnd : Parser Unit := do
  match ← peek with
  | none => pure ()
  | next => fail s!"unexpected trailing input near {describe next}"

theorem ensureEnd_of_nil {s : ParserState} (h : s.tokens = []) : ensureEnd s = (.ok (), s) := by
  have hpeek : peek s = (.ok none, s) := by simp [peek, h]
  rw [ensureEnd, bind_ok hpeek]
  rfl

theorem ensureEnd_eq_ok {s s' : ParserState} {a : Unit} (h : ensureEnd s = (.ok a, s')) :
    s.tokens = [] ∧ s' = s := by
  cases hs : s.tokens with
  | nil =>
    rw [ensureEnd_of_nil hs] at h
    cases h
    exact ⟨rfl, rfl⟩
  | cons t ts =>
    have hpeek : peek s = (.ok (some t), s) := by simp [peek, hs]
    rw [ensureEnd, bind_ok hpeek] at h
    cases h

def eatSemicolonAndEnsureEnd : Parser Unit := do
  let _ ← eat .semicolon
  ensureEnd

def sepByComma (item : Parser α) : Nat → Parser (List α)
  | 0 => lift .panic
  | fuel + 1 => do
    let a ← item
    if ← eat .comma then do
      let as ← sepByComma item fuel
      pure (a :: as)
    else pure [a]

def itemsToRParen (item : Parser α) : Nat → Parser (List α)
  | 0 => lift .panic
  | fuel + 1 => do
    let a ← item
    if ← expectSeparator then do
      let as ← itemsToRParen item fuel
      pure (a :: as)
    else pure [a]

def qualifiedRest (name : String) : Nat → Parser String
  | 0 => lift .panic
  | fuel + 1 => do
    if ← eat .dot then do
      let name ← expectIdent
      qualifiedRest name fuel
    else pure name

/-- Only the last part of a qualified name is kept. -/
def expectQualifiedIdent : Parser String := do
  let name ← expectIdent
  bounded (qualifiedRest name)

def finishColumnRef (first : String) : Parser ColumnRef := do
  if ← eat .dot then do
    let column ← expectIdent
    pure ⟨some first, column⟩
  else pure ⟨none, first⟩

def parseColumnRef : Parser ColumnRef := do
  let first ← expectIdent
  finishColumnRef first

def parseOptionalAlias : Parser (Option String) := do
  if ← eat (.keyword .asKw) then some <$> expectIdent else eatMap identName

def parsePlaceholder : Parser Expr := fun s =>
  if s.allowPlaceholders then
    (.ok (.placeholder s.paramCount), { s with paramCount := s.paramCount + 1 })
  else (.err (.parse "'?' placeholders are only allowed in prepared statements"), s)

def parseArguments (argument : Parser Expr) : Parser (List Expr) := do
  if ← peekIs (· = .rParen) then pure [] else bounded (sepByComma argument)

def parseFunctionCall (argument : Parser Expr) (name : String) : Parser Expr := do
  expectPunct .lParen
  if ← eatIf fun token => eqIgnoreAsciiCase name "COUNT" && token = .star then do
    expectPunct .rParen
    pure (.function name [])
  else do
    let args ← parseArguments argument
    expectPunct .rParen
    pure (.function name args)

/-- `TRUE` and `FALSE` are numbers, however they are quoted. -/
def parseNamed (argument : Parser Expr) (name : String) : Parser Expr := do
  if eqIgnoreAsciiCase name "TRUE" then pure (.integer 1)
  else if eqIgnoreAsciiCase name "FALSE" then pure (.integer 0)
  else if ← peekIs (· = .lParen) then parseFunctionCall argument name
  else .column <$> finishColumnRef name

def parseExprFrom (argument : Parser Expr) : Option Token → Parser Expr
  | some (.integer n) => pure (.integer n)
  | some (.decimal unscaled scale) => pure (.decimal unscaled scale)
  | some (.str s) => pure (.string s)
  | some (.keyword .null) => pure .null
  | some (.systemVariable name) => pure (.systemVariable name)
  | some (.ident name) => parseNamed argument name
  | some .placeholder => parsePlaceholder
  | other => fail s!"expected a value or column, found {describe other}"

theorem parseExprFrom_cases {argument : Parser Expr} {motive : Option Token → Parser Expr → Prop}
    (integer : ∀ n, motive (some (.integer n)) (pure (.integer n)))
    (decimal : ∀ unscaled scale,
      motive (some (.decimal unscaled scale)) (pure (.decimal unscaled scale)))
    (str : ∀ s, motive (some (.str s)) (pure (.string s)))
    (null : motive (some (.keyword .null)) (pure .null))
    (systemVariable : ∀ name, motive (some (.systemVariable name)) (pure (.systemVariable name)))
    (ident : ∀ name, motive (some (.ident name)) (parseNamed argument name))
    (placeholder : motive (some .placeholder) parsePlaceholder)
    (other : ∀ token message, motive token (fail message)) (token : Option Token) :
    motive token (parseExprFrom argument token) := by
  rcases token with _ | token
  · exact other _ _
  · cases token with
    | integer n => exact integer n
    | decimal unscaled scale => exact decimal unscaled scale
    | str s => exact str s
    | systemVariable name => exact systemVariable name
    | ident name => exact ident name
    | placeholder => exact placeholder
    | keyword k =>
      cases k with
      | null => exact null
      | _ => exact other _ _
    | _ => exact other _ _

/-- With room on the stack for so many calls of `parse_expr` at a time; the next one panics. -/
def parseExprWith : Nat → Parser Expr
  | 0 => lift .panic
  | fuel + 1 => do
    let token ← advance
    parseExprFrom (parseExprWith fuel) token

/-- With as much stack as the tokens can ask for. -/
def parseExpr : Parser Expr := bounded parseExprWith

def parseInsertColumns : Parser (Option (List String)) := do
  if ← eat .lParen then some <$> bounded (itemsToRParen expectIdent) else pure none

def parseInsertRow (expr : Parser Expr) : Parser (List Expr) := do
  expectPunct .lParen
  bounded (itemsToRParen expr)

def parseInsert (expr : Parser Expr) : Parser Statement := do
  expectKeyword .insert
  expectKeyword .into
  let table ← expectQualifiedIdent
  let columns ← parseInsertColumns
  expectKeyword .values
  let rows ← bounded (sepByComma (parseInsertRow expr))
  eatSemicolonAndEnsureEnd
  pure (.insert ⟨table, columns, rows⟩)

def parseSelectItem (expr : Parser Expr) : Parser SelectItem := do
  if ← eat .star then pure .wildcard
  else do
    let value ← expr
    let asAlias ← parseOptionalAlias
    pure (.expr value asAlias)

def compareOp : Token → Option CompareOp
  | .eq => some .eq
  | .notEq => some .notEq
  | .lt => some .lt
  | .gt => some .gt
  | .le => some .le
  | .ge => some .ge
  | _ => none

def parseCondition (expr : Parser Expr) : Parser Condition := do
  let column ← parseColumnRef
  let op ← expect compareOp "a comparison operator"
  let value ← expr
  pure ⟨column, op, value⟩

def parseTableRef : Parser TableRef := do
  let name ← expectQualifiedIdent
  let asAlias ← parseOptionalAlias
  pure ⟨name, asAlias⟩

def parseJoinType : Parser (Option JoinType) := do
  if ← eat (.keyword .join) then pure (some .inner)
  else if ← eat (.keyword .inner) then do
    expectKeyword .join
    pure (some .inner)
  else if ← eat (.keyword .left) then do
    let _ ← eat (.keyword .outer)
    expectKeyword .join
    pure (some .left)
  else pure none

def parseJoin (joinType : JoinType) : Parser JoinClause := do
  let table ← parseTableRef
  expectKeyword .on
  let left ← parseColumnRef
  expectPunct .eq
  let right ← parseColumnRef
  pure ⟨joinType, table, left, right⟩

def parseJoins : Nat → Parser (List JoinClause)
  | 0 => lift .panic
  | fuel + 1 => do
    match ← parseJoinType with
    | none => pure []
    | some joinType => do
      let join ← parseJoin joinType
      let joins ← parseJoins fuel
      pure (join :: joins)

def parseFromClause : Parser FromClause := do
  let table ← parseTableRef
  let joins ← bounded parseJoins
  pure ⟨table, joins⟩

def parseSource (expr : Parser Expr) : Parser (Option FromClause × Option Condition) := do
  if ← eat (.keyword .fromKw) then do
    let fromClause ← parseFromClause
    if ← eat (.keyword .whereKw) then do
      let condition ← parseCondition expr
      pure (some fromClause, some condition)
    else pure (some fromClause, none)
  else pure (none, none)

def parseOptionalGroupBy : Parser (List ColumnRef) := do
  if ← eat (.keyword .group) then do
    expectKeyword .byKw
    bounded (sepByComma parseColumnRef)
  else pure []

def parseOrderByItem : Parser OrderByItem := do
  let column ← parseColumnRef
  if ← eatIdentCi "DESC" then pure ⟨column, true⟩
  else do
    let _ ← eatIdentCi "ASC"
    pure ⟨column, false⟩

def parseOptionalOrderBy : Parser (List OrderByItem) := do
  if ← eat (.keyword .order) then do
    expectKeyword .byKw
    bounded (sepByComma parseOrderByItem)
  else pure []

def parseOptionalLimit : Parser (Option UInt64 × Option UInt64) := do
  if ← eat (.keyword .limit) then do
    let first ← expectUnsignedInteger
    if ← eat .comma then do
      let count ← expectUnsignedInteger
      pure (some count, some first)
    else if ← eatIdentCi "OFFSET" then do
      let offset ← expectUnsignedInteger
      pure (some first, some offset)
    else pure (some first, none)
  else pure (none, none)

def parseSelect (expr : Parser Expr) : Parser Statement := do
  expectKeyword .select
  let projection ← bounded (sepByComma (parseSelectItem expr))
  let (fromClause, selection) ← parseSource expr
  let groupBy ← parseOptionalGroupBy
  let orderBy ← parseOptionalOrderBy
  let (limit, offset) ← parseOptionalLimit
  eatSemicolonAndEnsureEnd
  pure (.select { projection, fromClause, selection, groupBy, orderBy, limit, offset })

def parseIndexedColumn : Parser String := do
  let name ← expectIdent
  if ← eat .lParen then do
    let _ ← expect integerValue "an integer prefix length"
    expectPunct .rParen
    pure name
  else pure name

def parseParenthesizedColumnList : Parser (List String) := do
  expectPunct .lParen
  bounded (itemsToRParen parseIndexedColumn)

def parseTypeName : Parser String := do
  let base ← expectIdent
  if ← eat .lParen then do
    let args ← bounded (itemsToRParen (expect integerValue "an integer in type size"))
    pure (base ++ "(" ++ String.intercalate "," (args.map i64ToString) ++ ")")
  else pure base

def skipTypeModifiers : Nat → Parser Unit
  | 0 => lift .panic
  | fuel + 1 => do
    if ← eatIf fun token => isIdentCi "UNSIGNED" token || isIdentCi "ZEROFILL" token then
      skipTypeModifiers fuel
    else pure ()

structure ColumnAttributes where
  isPrimaryKey : Bool
  nullable : Bool
  autoIncrement : Bool

def nextIsNotNull : Parser Bool := do
  let next ← peekAt 0
  let afterNext ← peekAt 1
  pure (next.any (isIdentCi "NOT") && afterNext = some (.keyword .null))

/-- Attributes come in any order; defaults, comments and `UNIQUE` are read and dropped. -/
def parseAttributes (expr : Parser Expr) (attrs : ColumnAttributes) : Nat → Parser ColumnAttributes
  | 0 => lift .panic
  | fuel + 1 => do
    if ← eat (.keyword .null) then parseAttributes expr { attrs with nullable := true } fuel
    else if ← nextIsNotNull then do
      bump
      bump
      parseAttributes expr { attrs with nullable := false } fuel
    else if ← eatIdentCi "AUTO_INCREMENT" then
      parseAttributes expr { attrs with autoIncrement := true } fuel
    else if ← eat (.keyword .primary) then do
      expectKeyword .key
      parseAttributes expr { attrs with isPrimaryKey := true } fuel
    else if ← eatIdentCi "UNIQUE" then do
      let _ ← eat (.keyword .key)
      parseAttributes expr attrs fuel
    else if ← eatIdentCi "DEFAULT" then do
      let _ ← expr
      parseAttributes expr attrs fuel
    else if ← eatIdentCi "COMMENT" then do
      let _ ← expect strText "a string after COMMENT"
      parseAttributes expr attrs fuel
    else pure attrs

def parseColumnDef (expr : Parser Expr) : Parser ColumnDef := do
  let name ← expectIdent
  let typeName ← parseTypeName
  bounded skipTypeModifiers
  let attrs ← bounded (parseAttributes expr ⟨false, true, false⟩)
  pure ⟨name, typeName, attrs.isPrimaryKey, attrs.nullable, attrs.autoIncrement⟩

def applyPrimaryKeyConstraint (columns : List ColumnDef) : List String → Result (List ColumnDef)
  | [name] =>
    match columns.findIdx? fun c => c.name = name with
    | some i => .ok (columns.modify i fun c => { c with isPrimaryKey := true })
    | none => .err (.parse s!"PRIMARY KEY references unknown column '{name}'")
  | _ => .err (.unsupported "composite primary keys")

def isTableConstraintStart (token : Token) : Bool :=
  token = .keyword .primary || token = .keyword .key || isIdentCi "CONSTRAINT" token ||
    isIdentCi "UNIQUE" token || isIdentCi "INDEX" token || isIdentCi "FOREIGN" token

def isKeyOrIndex (token : Token) : Bool := token = .keyword .key || isIdentCi "INDEX" token

def eatConstraintName : Parser Bool := do
  if ← eatIdentCi "CONSTRAINT" then do
    eatOptionalName
    pure true
  else pure false

def skipForeignKey : Parser Unit := do
  expectKeyword .key
  eatOptionalName
  let _ ← parseParenthesizedColumnList
  expectIdentCi "REFERENCES"
  let _ ← expectQualifiedIdent
  let _ ← parseParenthesizedColumnList
  skipUntil fun token => token = .comma || token = .rParen

/-- Only a primary key has an effect; the other constraints are read and dropped. -/
def parseTableConstraint (columns : List ColumnDef) : Parser (List ColumnDef) := do
  let _ ← eatConstraintName
  if ← eat (.keyword .primary) then do
    expectKeyword .key
    let pkColumns ← parseParenthesizedColumnList
    lift (applyPrimaryKeyConstraint columns pkColumns)
  else if ← eatIdentCi "UNIQUE" then do
    let _ ← eatIf isKeyOrIndex
    eatOptionalName
    let _ ← parseParenthesizedColumnList
    pure columns
  else if ← eatIf isKeyOrIndex then do
    eatOptionalName
    let _ ← parseParenthesizedColumnList
    pure columns
  else if ← eatIdentCi "FOREIGN" then do
    skipForeignKey
    pure columns
  else do
    let next ← peek
    fail s!"expected a table constraint (PRIMARY KEY/UNIQUE/KEY/FOREIGN KEY), found {describe next}"

def parseTableItem (expr : Parser Expr) (columns : List ColumnDef) : Parser (List ColumnDef) := do
  if ← peekIs isTableConstraintStart then parseTableConstraint columns
  else do
    let column ← parseColumnDef expr
    pure (columns ++ [column])

def parseTableItems (expr : Parser Expr) (columns : List ColumnDef) : Nat → Parser (List ColumnDef)
  | 0 => lift .panic
  | fuel + 1 => do
    let columns ← parseTableItem expr columns
    if ← expectSeparator then parseTableItems expr columns fuel else pure columns

def parseCreateTable (expr : Parser Expr) : Parser Statement := do
  expectKeyword .create
  expectKeyword .table
  let table ← expectQualifiedIdent
  expectPunct .lParen
  let columns ← bounded (parseTableItems expr [])
  consumeToStatementEnd
  eatSemicolonAndEnsureEnd
  pure (.createTable table columns)

def addPrimaryKeyOf : List String → Result AlterAction
  | [name] => .ok (.addPrimaryKey name)
  | _ => .err (.unsupported "composite primary keys")

def parseAlterAddAction (expr : Parser Expr) : Parser AlterAction := do
  let namedConstraint ← eatConstraintName
  if ← eat (.keyword .primary) then do
    expectKeyword .key
    let pkColumns ← parseParenthesizedColumnList
    lift (addPrimaryKeyOf pkColumns)
  else if namedConstraint then
    lift (.err (.unsupported "ALTER TABLE ADD CONSTRAINT other than PRIMARY KEY"))
  else do
    let _ ← eatIdentCi "COLUMN"
    .addColumn <$> parseColumnDef expr

def parseAlterDropAction : Parser AlterAction := do
  if ← eat (.keyword .primary) then do
    expectKeyword .key
    pure .dropPrimaryKey
  else do
    let _ ← eatIdentCi "COLUMN"
    .dropColumn <$> expectIdent

def parseAlterAction (expr : Parser Expr) (table : String) : Parser AlterAction := do
  if ← eatIdentCi "ADD" then parseAlterAddAction expr
  else if ← eat (.keyword .drop) then parseAlterDropAction
  else if ← eatIdentCi "MODIFY" then do
    let _ ← eatIdentCi "COLUMN"
    .modifyColumn <$> parseColumnDef expr
  else do
    let next ← peek
    fail s!"expected ADD, DROP, or MODIFY after ALTER TABLE '{table}', found {describe next}"

def parseAlterTable (expr : Parser Expr) : Parser Statement := do
  expectKeyword .alter
  expectKeyword .table
  let table ← expectQualifiedIdent
  let action ← parseAlterAction expr table
  consumeToStatementEnd
  eatSemicolonAndEnsureEnd
  pure (.alterTable table action)

def eatIfNotExists : Parser Bool := do
  if ← eatIdentCi "IF" then do
    expectIdentCi "NOT"
    expectIdentCi "EXISTS"
    pure true
  else pure false

def eatIfExists : Parser Bool := do
  if ← eatIdentCi "IF" then do
    expectIdentCi "EXISTS"
    pure true
  else pure false

def parseCreateDatabase : Parser Statement := do
  expectKeyword .create
  expectDatabaseOrSchema
  let ifNotExists ← eatIfNotExists
  let name ← expectIdent
  consumeToStatementEnd
  eatSemicolonAndEnsureEnd
  pure (.createDatabase name ifNotExists)

def parseDropDatabase : Parser Statement := do
  expectKeyword .drop
  expectDatabaseOrSchema
  let ifExists ← eatIfExists
  let name ← expectIdent
  eatSemicolonAndEnsureEnd
  pure (.dropDatabase name ifExists)

def parseIgnored (k : Keyword) (st : Statement) : Parser Statement := do
  expectKeyword k
  consumeToStatementEnd
  eatSemicolonAndEnsureEnd
  pure st

def parseSet : Parser Statement := parseIgnored .set .set

def parseUse : Parser Statement := parseIgnored .use .use

def parseOptionalLike : Parser (Option String) := do
  if ← eatIdentCi "LIKE" then some <$> expect strText "a string pattern after LIKE"
  else pure none

def showStatementOf (word : String) (next : Option Token) : ShowStatement :=
  if word ∈ ["WARNINGS", "ERRORS"] then .warnings
  else if word ∈ ["DATABASES", "SCHEMAS"] then .databases
  else if word = "TABLES" then .tables
  else if word = "CHARSET" then .characterSet
  else if word = "CHARACTER" ∧ next = some (.keyword .set) then .characterSet
  else if word = "COLLATION" then .collation
  else .other

def parseShow : Parser Statement := do
  expectKeyword .showKw
  let head ← peek
  let next ← peekAt 1
  let word := ((head.bind identName).map fun s => String.ofList (toAsciiUppercase s.toList)).getD ""
  if word ∈ ["VARIABLES", "STATUS"] then do
    bump
    let like ← parseOptionalLike
    consumeToStatementEnd
    eatSemicolonAndEnsureEnd
    pure (.showStatement (.variables like))
  else do
    consumeToStatementEnd
    eatSemicolonAndEnsureEnd
    pure (.showStatement (showStatementOf word next))

def parseSimple (k : Keyword) (st : Statement) : Parser Statement := do
  expectKeyword k
  eatSemicolonAndEnsureEnd
  pure st

def parseStartTransaction : Parser Statement := do
  expectKeyword .start
  expectKeyword .transaction
  eatSemicolonAndEnsureEnd
  pure .begin

def parseStatementOn (expr : Parser Expr) : Parser Statement := do
  match ← peek with
  | some (.keyword .create) => do
    let next ← peekAt 1
    if next.any isDatabaseIdent then parseCreateDatabase else parseCreateTable expr
  | some (.keyword .drop) => parseDropDatabase
  | some (.keyword .alter) => parseAlterTable expr
  | some (.keyword .insert) => parseInsert expr
  | some (.keyword .select) => parseSelect expr
  | some (.keyword .begin) => parseSimple .begin .begin
  | some (.keyword .start) => parseStartTransaction
  | some (.keyword .commit) => parseSimple .commit .commit
  | some (.keyword .rollback) => parseSimple .rollback .rollback
  | some (.keyword .set) => parseSet
  | some (.keyword .use) => parseUse
  | some (.keyword .showKw) => parseShow
  | other => fail s!"expected CREATE, ALTER, DROP, INSERT, SELECT, BEGIN, START, COMMIT, ROLLBACK, SET, USE, or SHOW, found {describe other}"

def parseStatement : Parser Statement := parseStatementOn parseExpr

end Parser

def parseStatementFrom (allowPlaceholders : Bool) (tokens : List Token) : Result (Statement × Nat) :=
  match Parser.parseStatement ⟨tokens, allowPlaceholders, 0⟩ with
  | (.ok st, s) => .ok (st, s.paramCount)
  | (.err e, _) => .err e
  | (.panic, _) => .panic

def nonEmpty (tokens : List Token) : Result (List Token) :=
  if tokens = [] then .err (.parse "empty statement") else .ok tokens

def parseTokens (tokens : List Token) : Result Statement := do
  let tokens ← nonEmpty tokens
  Prod.fst <$> parseStatementFrom false tokens

def parse (u : Unicode) (sql : String) : Result Statement := do
  let tokens ← tokenize u sql
  parseTokens tokens

def parseMany (u : Unicode) (sql : String) : Result (List Statement) := do
  let tokens ← tokenize u sql
  let segments := (tokens.splitOn .semicolon).filter (· ≠ [])
  let statements ← segments.mapM fun segment => Prod.fst <$> parseStatementFrom false segment
  if statements = [] then .err (.parse "empty statement") else pure statements

def parsePreparedTokens (tokens : List Token) : Result (Statement × Nat) := do
  let tokens ← nonEmpty tokens
  parseStatementFrom true tokens

def parsePrepared (u : Unicode) (sql : String) : Result (Statement × Nat) := do
  let tokens ← tokenize u sql
  parsePreparedTokens tokens

end MysqlRust
