import MysqlRust.Query.Parser

/-! # Binding the parameters of a prepared statement

Placeholders are numbered while the text is parsed and filled by walking over the parsed
tree. Binding literals fails when one is missing, and leaves no placeholder otherwise.
-/
namespace MysqlRust

open Outcome List

mutual

def bindExpr (params : List Expr) : Expr → Result Expr
  | .placeholder i =>
    okOr (.execution s!"missing value for parameter {i + 1}") params[i]?
  | .function name args => do
    let args ← bindExprs params args
    pure (.function name args)
  | .integer n => .ok (.integer n)
  | .decimal unscaled scale => .ok (.decimal unscaled scale)
  | .string s => .ok (.string s)
  | .null => .ok .null
  | .systemVariable name => .ok (.systemVariable name)
  | .column ref => .ok (.column ref)

def bindExprs (params : List Expr) : List Expr → Result (List Expr)
  | [] => .ok []
  | e :: es => do
    let e ← bindExpr params e
    let es ← bindExprs params es
    pure (e :: es)

end

def bindItem (params : List Expr) : SelectItem → Result SelectItem
  | .wildcard => .ok .wildcard
  | .expr e asAlias => do
    let e ← bindExpr params e
    pure (.expr e asAlias)

def bindCondition (params : List Expr) : Option Condition → Result (Option Condition)
  | none => .ok none
  | some condition => do
    let value ← bindExpr params condition.value
    pure (some { condition with value })

def bindParameters (params : List Expr) : Statement → Result Statement
  | .insert rows => do
    let bound ← rows.rows.mapM (bindExprs params)
    pure (.insert { rows with rows := bound })
  | .select query => do
    let projection ← query.projection.mapM (bindItem params)
    let selection ← bindCondition params query.selection
    pure (.select { query with projection, selection })
  | st => .ok st

mutual

def Expr.placeholders : Expr → List Nat
  | .placeholder i => [i]
  | .function _ args => Expr.listPlaceholders args
  | _ => []

def Expr.listPlaceholders : List Expr → List Nat
  | [] => []
  | e :: es => e.placeholders ++ Expr.listPlaceholders es

end

def SelectItem.placeholders : SelectItem → List Nat
  | .wildcard => []
  | .expr e _ => e.placeholders

def conditionPlaceholders (condition : Option Condition) : List Nat :=
  (condition.map fun c => c.value.placeholders).getD []

def Statement.placeholders : Statement → List Nat
  | .insert rows => rows.rows.flatMap Expr.listPlaceholders
  | .select query =>
    query.projection.flatMap SelectItem.placeholders ++ conditionPlaceholders query.selection
  | _ => []

def Statement.isInsertOrSelect : Statement → Bool
  | .insert _ | .select _ => true
  | _ => false

theorem Statement.placeholders_eq_nil {st : Statement} (h : st.isInsertOrSelect = false) :
    st.placeholders = [] := by
  cases st with
  | insert => cases h
  | select => cases h
  | _ => rfl

inductive Literal where
  | null
  | integer (n : Int64)
  | string (s : String)
  deriving DecidableEq, Repr

def Literal.expr : Literal → Expr
  | .null => .null
  | .integer n => .integer n
  | .string s => .string s

def Literal.token : Literal → Token
  | .null => .keyword .null
  | .integer n => .integer n
  | .string s => .str s

def exprs (params : List Literal) : List Expr := params.map Literal.expr

section Binding
variable {α β : Type} {params : List Literal}

/-- Binding either fails or leaves no placeholder, and then every number had a literal. -/
def Filling (params : List Literal) (placeholders : α → List Nat) (a : α) (x : Result α) : Prop :=
  x.Post fun b => placeholders b = [] ∧ ∀ i ∈ placeholders a, i < params.length

theorem Literal.placeholders_expr (literal : Literal) : literal.expr.placeholders = [] := by
  cases literal <;> rfl

mutual

theorem bindExpr_filling : ∀ e : Expr,
    Filling params Expr.placeholders e (bindExpr (exprs params) e)
  | .placeholder i => by
    rw [bindExpr, exprs, getElem?_map]
    cases hi : params[i]? with
    | none => exact post_err
    | some literal =>
      refine ⟨literal.placeholders_expr, fun j hj => ?_⟩
      obtain rfl := mem_singleton.mp hj
      exact (List.getElem?_eq_some_iff.mp hi).1
  | .function name args => by
    rw [bindExpr]
    exact .bind (bindExprs_filling args) fun _ h => h
  | .integer _ | .decimal _ _ | .string _ | .null | .systemVariable _ | .column _ =>
    ⟨rfl, fun _ h => absurd h not_mem_nil⟩

theorem bindExprs_filling : ∀ es : List Expr,
    Filling params Expr.listPlaceholders es (bindExprs (exprs params) es)
  | [] => ⟨rfl, fun _ h => absurd h not_mem_nil⟩
  | e :: es => by
    rw [bindExprs]
    refine .bind (bindExpr_filling e) fun b hb => ?_
    refine .bind (bindExprs_filling es) fun bs hbs => ?_
    refine ⟨by rw [Expr.listPlaceholders, hb.1, hbs.1, append_nil], fun i hi => ?_⟩
    rw [Expr.listPlaceholders] at hi
    exact (mem_append.mp hi).elim (hb.2 i) (hbs.2 i)

end

theorem Filling.mapM {bind : α → Result α} {placeholders : α → List Nat}
    (h : ∀ a, Filling params placeholders a (bind a)) (as : List α) :
    Filling params (List.flatMap placeholders) as (as.mapM bind) := by
  induction as with
  | nil => exact ⟨rfl, fun _ h => absurd h not_mem_nil⟩
  | cons a as ih =>
    rw [mapM_cons]
    refine .bind (h a) fun b hb => .bind ih fun bs hbs => ?_
    refine ⟨by rw [flatMap_cons, hb.1, hbs.1, append_nil], fun i hi => ?_⟩
    rw [flatMap_cons] at hi
    exact (mem_append.mp hi).elim (hb.2 i) (hbs.2 i)

theorem bindItem_filling (item : SelectItem) :
    Filling params SelectItem.placeholders item (bindItem (exprs params) item) := by
  cases item with
  | wildcard => exact ⟨rfl, fun _ h => absurd h not_mem_nil⟩
  | expr e asAlias => exact .bind (bindExpr_filling e) fun _ h => h

theorem bindCondition_filling (condition : Option Condition) :
    Filling params conditionPlaceholders condition (bindCondition (exprs params) condition) := by
  cases condition with
  | none => exact ⟨rfl, fun _ h => absurd h not_mem_nil⟩
  | some condition => exact .bind (bindExpr_filling condition.value) fun _ h => h

theorem bindParameters_filling (params : List Literal) (st : Statement) :
    Filling params Statement.placeholders st (bindParameters (exprs params) st) := by
  cases st with
  | insert rows => exact .bind (Filling.mapM bindExprs_filling rows.rows) fun _ h => h
  | select query =>
    refine .bind (Filling.mapM bindItem_filling query.projection) fun items hitems => ?_
    refine .bind (bindCondition_filling query.selection) fun condition hcondition => ?_
    constructor
    · rw [Statement.placeholders, hitems.1, hcondition.1, append_nil]
    · intro i hi
      rw [Statement.placeholders] at hi
      exact (mem_append.mp hi).elim (hitems.2 i) (hcondition.2 i)
  | _ => exact ⟨rfl, fun _ h => absurd h not_mem_nil⟩

end Binding

section Required
variable {params : List Expr}

def supplied (params : List Expr) (placeholders : List Nat) : Bool :=
  placeholders.all (· < params.length)

theorem supplied_append (is js : List Nat) :
    supplied params (is ++ js) = (supplied params is && supplied params js) := all_append

theorem supplied_flatMap {α : Type} (placeholders : α → List Nat) (as : List α) :
    supplied params (as.flatMap placeholders) = as.all fun a => supplied params (placeholders a) :=
  all_flatMap

mutual

theorem isOk_bindExpr : ∀ e : Expr, (bindExpr params e).isOk = supplied params e.placeholders
  | .placeholder i => by
    by_cases hi : i < params.length
    · rw [bindExpr, getElem?_eq_getElem hi, okOr]
      simp [supplied, Expr.placeholders, hi, isOk]
    · rw [bindExpr, getElem?_eq_none (Nat.not_lt.mp hi), okOr]
      simp [supplied, Expr.placeholders, hi, isOk]
  | .function name args => by
    rw [bindExpr, isOk_bind_pure, isOk_bindExprs args, Expr.placeholders]
  | .integer _ | .decimal _ _ | .string _ | .null | .systemVariable _ | .column _ => rfl

theorem isOk_bindExprs : ∀ es : List Expr,
    (bindExprs params es).isOk = supplied params (Expr.listPlaceholders es)
  | [] => rfl
  | e :: es => by
    rw [bindExprs, isOk_bind_bind_pure, isOk_bindExpr e, isOk_bindExprs es,
      Expr.listPlaceholders, supplied_append]

end

theorem isOk_bindItem (item : SelectItem) :
    (bindItem params item).isOk = supplied params item.placeholders := by
  cases item with
  | wildcard => rfl
  | expr e asAlias =>
    rw [bindItem, isOk_bind_pure, isOk_bindExpr, SelectItem.placeholders]

theorem isOk_bindCondition (condition : Option Condition) :
    (bindCondition params condition).isOk = supplied params (conditionPlaceholders condition) := by
  cases condition with
  | none => rfl
  | some condition =>
    rw [bindCondition, isOk_bind_pure, isOk_bindExpr]
    rfl

theorem isOk_bindParameters (st : Statement) :
    (bindParameters params st).isOk = supplied params st.placeholders := by
  cases st with
  | insert rows =>
    rw [bindParameters, isOk_bind_pure, isOk_mapM isOk_bindExprs,
      Statement.placeholders, supplied_flatMap]
  | select query =>
    rw [bindParameters, isOk_bind_bind_pure, isOk_mapM isOk_bindItem,
      isOk_bindCondition, Statement.placeholders, supplied_append, supplied_flatMap]
  | _ => rfl

end Required

end MysqlRust
