import MysqlRust.Query.Binding
import MysqlRust.Query.ParserTotality

/-! # A prepared statement and its text with the literals filled in

Parsing a text with literals in place of the question marks gives the statement that binding
those literals gives.
-/
namespace MysqlRust

open MysqlRust.Parser Outcome Proc List

section
variable {α β γ δ : Type} {params : List Literal}
variable {k k' : Nat} {p item : Parser α} {S : α → β → Nat → Prop} {q : Parser β}
variable {token : Token} {f : α → Parser γ} {T : γ → δ → Nat → Prop} {c : Prop}
  {loop : Nat → Parser α} {R : Nat → α → α → Nat → Prop} {as : List α}

def substitute : List Literal → List Token → List Token
  | _, [] => []
  | [], tokens => tokens
  | literal :: literals, token :: tokens =>
    if token = .placeholder then literal.token :: substitute literals tokens
    else token :: substitute (literal :: literals) tokens

theorem substitute_cons_of_ne (h : token ≠ .placeholder) (literals : List Literal)
    (tokens : List Token) :
    substitute literals (token :: tokens) = token :: substitute literals tokens := by
  cases literals with
  | nil => cases tokens <;> simp [substitute]
  | cons literal literals => simp [substitute, h]

theorem length_substitute (literals : List Literal) (tokens : List Token) :
    (substitute literals tokens).length = tokens.length := by
  induction tokens generalizing literals with
  | nil => cases literals <;> rfl
  | cons token tokens ih =>
    cases literals with
    | nil => rfl
    | cons literal literals =>
      rw [substitute]
      split <;> simp [ih]

/-- One parser is behind `k` placeholders, the other behind `k` literals in their place. -/
structure Filled (params : List Literal) (k : Nat) (s t : ParserState) : Prop where
  allowed : s.allowPlaceholders = true
  count : s.paramCount = k
  total : k + s.tokens.count .placeholder = params.length
  tokens : t.tokens = substitute (params.drop k) s.tokens

theorem Filled.cases {s t : ParserState} (h : Filled params k s t) :
    (s.tokens = [] ∧ t.tokens = []) ∨
    (∃ token ts ts', token ≠ .placeholder ∧ s.tokens = token :: ts ∧ t.tokens = token :: ts' ∧
      Filled params k { s with tokens := ts } { t with tokens := ts' }) ∨
    (∃ literal ts ts', params[k]? = some literal ∧ s.tokens = .placeholder :: ts ∧
      t.tokens = literal.token :: ts' ∧
      Filled params (k + 1) { s with tokens := ts, paramCount := k + 1 }
        { t with tokens := ts' }) := by
  obtain ⟨hallowed, hcount, htotal, htokens⟩ := h
  cases hs : s.tokens with
  | nil =>
    rw [hs] at htokens
    exact .inl ⟨rfl, by rw [htokens]; cases params.drop k <;> rfl⟩
  | cons token ts =>
    rw [hs] at htokens htotal
    by_cases hplaceholder : token = .placeholder
    · subst hplaceholder
      rw [count_cons_self] at htotal
      have hk : k < params.length := by omega
      rw [drop_eq_getElem_cons hk, substitute, if_pos rfl] at htokens
      refine .inr (.inr ⟨params[k], ts, _, getElem?_eq_getElem hk, rfl, htokens, ?_⟩)
      exact ⟨hallowed, rfl, by dsimp only; omega, rfl⟩
    · rw [substitute_cons_of_ne hplaceholder] at htokens
      rw [count_cons_of_ne hplaceholder] at htotal
      exact .inr (.inl ⟨token, ts, _, hplaceholder, rfl, htokens, hallowed, hcount, htotal, rfl⟩)

def Follows (params : List Literal) (k : Nat) (p : Parser α) (q : Parser β)
    (S : α → β → Nat → Prop) : Prop :=
  Sim (Filled params k) p q fun a s b t => ∃ k', S a b k' ∧ Filled params k' s t

theorem Follows.pure {a : α} {b : β} (h : S a b k) :
    Follows params k (Pure.pure a) (Pure.pure b) S :=
  Sim.pure fun _ _ hst => ⟨k, h, hst⟩

theorem Follows.bind {g : β → Parser δ} (hpq : Follows params k p q S)
    (hfg : ∀ a b k', S a b k' → Follows params k' (f a) (g b) T) :
    Follows params k (p >>= f) (q >>= g) T := by
  refine Sim.bind hpq fun a b s t ⟨k', hS, hst⟩ => ?_
  exact hfg a b k' hS s t hst

def Plain (params : List Literal) (p : Parser α) : Prop :=
  ∀ k, Follows params k p p fun a b k' => a = b ∧ k' = k

theorem Plain.pure (a : α) : Plain params (Pure.pure a : Parser α) :=
  fun _ => .pure ⟨rfl, rfl⟩

theorem Plain.then {g : α → Parser δ} (hp : Plain params p)
    (hfg : ∀ a, Follows params k (f a) (g a) T) : Follows params k (p >>= f) (p >>= g) T := by
  refine (hp k).bind ?_
  rintro a _ k' ⟨rfl, rfl⟩
  exact hfg a

theorem Plain.bind {f : α → Parser β} (hp : Plain params p) (hf : ∀ a, Plain params (f a)) :
    Plain params (p >>= f) :=
  fun k => hp.then fun a => hf a k

theorem Plain.map (f : α → β) (hp : Plain params p) : Plain params (f <$> p) := by
  rw [map_eq_pure_bind]
  exact hp.bind fun a => .pure (f a)

theorem Plain.ite [Decidable c] {q : Parser α} (hp : Plain params p) (hq : Plain params q) :
    Plain params (if c then p else q) := by
  split
  · exact hp
  · exact hq

theorem Follows.ite [Decidable c] {p' : Parser α} {q' : Parser β} (hp : Follows params k p q S)
    (hq : Follows params k p' q' S) :
    Follows params k (if c then p else p') (if c then q else q') S := by
  split
  · exact hp
  · exact hq

theorem Follows.mono {T : α → β → Nat → Prop} (h : Follows params k p q S)
    (hST : ∀ a b k', S a b k' → T a b k') : Follows params k p q T := by
  intro s t hst a s' ha
  obtain ⟨b, t', hb, k', hS, hst'⟩ := h s t hst a s' ha
  exact ⟨b, t', hb, k', hST a b k' hS, hst'⟩

theorem Follows.bounded {loop' : Nat → Parser β}
    (h : ∀ fuel, Follows params k (loop fuel) (loop' fuel) S) :
    Follows params k (bounded loop) (bounded loop') S := by
  intro s t hst a s' ha
  have hlength : t.tokens.length = s.tokens.length := by
    rw [hst.tokens, length_substitute]
  have hfollow := h (s.tokens.length + 1) s t hst a s' ha
  rw [← hlength] at hfollow
  exact hfollow

theorem Plain.bounded (h : ∀ fuel, Plain params (loop fuel)) : Plain params (bounded loop) :=
  fun k => .bounded fun fuel => h fuel k

def Blind (p : Token → Bool) : Prop := p .placeholder = false ∧ ∀ l : Literal, p l.token = false

def isValue : Token → Bool
  | .placeholder | .keyword .null | .integer _ | .str _ => true
  | _ => false

theorem blind_eq (h : isValue token = false) : Blind (· = token) := by
  constructor
  · refine decide_eq_false ?_
    rintro rfl
    cases h
  · intro l
    refine decide_eq_false ?_
    rintro rfl
    cases l <;> cases h

theorem blind_isIdentCi (word : String) : Blind (isIdentCi word) :=
  ⟨rfl, fun l => by cases l <;> rfl⟩

theorem Plain.eatIf {p : Token → Bool} (h : Blind p) : Plain params (eatIf p) := by
  intro k s t hst b s' hb
  rcases hst.cases with ⟨hs, ht⟩ | ⟨token, ts, ts', -, hs, ht, hrest⟩ | ⟨literal, ts, ts', -, hs, ht, -⟩
  · rw [eatIf_of_not (by simp [hs])] at hb
    cases hb
    exact ⟨false, t, eatIf_of_not (by simp [ht]), k, ⟨rfl, rfl⟩, hst⟩
  · cases hp : p token with
    | true =>
      rw [eatIf_of_head hs hp] at hb
      cases hb
      exact ⟨true, _, eatIf_of_head ht hp, k, ⟨rfl, rfl⟩, hrest⟩
    | false =>
      rw [eatIf_of_not (by simp [hs, hp])] at hb
      cases hb
      exact ⟨false, t, eatIf_of_not (by simp [ht, hp]), k, ⟨rfl, rfl⟩, hst⟩
  · rw [eatIf_of_not (by simp [hs, h.1])] at hb
    cases hb
    exact ⟨false, t, eatIf_of_not (by simp [ht, h.2]), k, ⟨rfl, rfl⟩, hst⟩

theorem Plain.peekIs {p : Token → Bool} (h : Blind p) : Plain params (peekIs p) := by
  intro k s t hst b s' hb
  cases hb
  refine ⟨_, t, rfl, k, ⟨?_, rfl⟩, hst⟩
  rcases hst.cases with ⟨hs, ht⟩ | ⟨token, ts, ts', -, hs, ht, -⟩ | ⟨literal, ts, ts', -, hs, ht, -⟩
  · rw [hs, ht]
  · rw [hs, ht]
    rfl
  · rw [hs, ht]
    exact h.1.trans (h.2 literal).symm

theorem Plain.eatMap {q : Token → Option α} (h : q .placeholder = none)
    (hl : ∀ l : Literal, q l.token = none) : Plain params (eatMap q) := by
  intro k s t hst a s' ha
  rcases hst.cases with ⟨hs, ht⟩ | ⟨token, ts, ts', -, hs, ht, hrest⟩ | ⟨literal, ts, ts', -, hs, ht, -⟩
  · rw [eatMap_of_not (by simp [hs])] at ha
    cases ha
    exact ⟨none, t, eatMap_of_not (by simp [ht]), k, ⟨rfl, rfl⟩, hst⟩
  · cases hq : q token with
    | some a' =>
      rw [eatMap_of_head hs hq] at ha
      cases ha
      exact ⟨some a', _, eatMap_of_head ht hq, k, ⟨rfl, rfl⟩, hrest⟩
    | none =>
      rw [eatMap_of_not (by simp [hs, hq])] at ha
      cases ha
      exact ⟨none, t, eatMap_of_not (by simp [ht, hq]), k, ⟨rfl, rfl⟩, hst⟩
  · rw [eatMap_of_not (by simp [hs, h])] at ha
    cases ha
    exact ⟨none, t, eatMap_of_not (by simp [ht, hl]), k, ⟨rfl, rfl⟩, hst⟩

theorem Plain.expect {q : Token → Option α} {what : String} (h : q .placeholder = none) :
    Plain params (expect q what) := by
  intro k s t hst a s' ha
  obtain ⟨token, ts, hs, hq, rfl⟩ := expect_eq_ok ha
  rcases hst.cases with ⟨hnil, -⟩ | ⟨token', ts₁, ts', -, hs', ht, hrest⟩ | ⟨literal, ts₁, ts', -, hs', -⟩
  · rw [hnil] at hs
    cases hs
  · rw [hs'] at hs
    cases hs
    exact ⟨a, _, expect_of_head ht hq, k, ⟨rfl, rfl⟩, hrest⟩
  · rw [hs'] at hs
    cases hs
    rw [h] at hq
    cases hq

theorem sepByComma_follows (h : ∀ k, Follows params k item item (R k)) (fuel k : Nat) :
    Follows params k (sepByComma item fuel) (sepByComma item fuel) (Lists.Threaded R k) := by
  induction fuel generalizing k with
  | zero => exact Sim.lift_panic
  | succ fuel ih =>
    refine (h k).bind fun a b k' hab => (Plain.eatIf (blind_eq rfl)).then fun more => ?_
    refine .ite ?_ (Follows.pure (.cons hab (.nil k')))
    exact (ih k').bind fun as bs k'' hrest => .pure (.cons hab hrest)

theorem itemsToRParen_follows (h : ∀ k, Follows params k item item (R k)) (fuel k : Nat) :
    Follows params k (itemsToRParen item fuel) (itemsToRParen item fuel) (Lists.Threaded R k) := by
  induction fuel generalizing k with
  | zero => exact Sim.lift_panic
  | succ fuel ih =>
    refine (h k).bind fun a b k' hab => (Plain.expect rfl).then fun more => ?_
    refine .ite ?_ (Follows.pure (.cons hab (.nil k')))
    exact (ih k').bind fun as bs k'' hrest => .pure (.cons hab hrest)

theorem threaded_eq {bs : List α} (h : Lists.Threaded (fun k a b k' => a = b ∧ k' = k) k as bs k') :
    as = bs ∧ k' = k := by
  induction h with
  | nil k => exact ⟨rfl, rfl⟩
  | cons head _ ih =>
    obtain ⟨rfl, rfl⟩ := head
    obtain ⟨rfl, rfl⟩ := ih
    exact ⟨rfl, rfl⟩

theorem Plain.sepByComma (h : Plain params item) (fuel : Nat) :
    Plain params (sepByComma item fuel) :=
  fun k => (sepByComma_follows h fuel k).mono fun _ _ _ => threaded_eq

theorem Plain.itemsToRParen (h : Plain params item) (fuel : Nat) :
    Plain params (itemsToRParen item fuel) :=
  fun k => (itemsToRParen_follows h fuel k).mono fun _ _ _ => threaded_eq

/-- Binding fills the placeholders numbered from `k` up to `k'`. -/
def Binds (bind : α → Result β) (placeholders : α → List Nat) (k : Nat) (a : α) (b : β)
    (k' : Nat) : Prop :=
  bind a = .ok b ∧ ∃ m, k' = k + m ∧ placeholders a = range' k m

theorem Binds.mapM {bind : α → Result β} {placeholders : α → List Nat} {bs : List β}
    (h : Lists.Threaded (Binds bind placeholders) k as bs k') :
    Binds (fun as => as.mapM bind) (fun as => as.flatMap placeholders) k as bs k' := by
  induction h with
  | nil k => exact ⟨rfl, 0, rfl, rfl⟩
  | cons head tail ih =>
    obtain ⟨hbind, m, rfl, hm⟩ := head
    obtain ⟨hrest, n, rfl, hn⟩ := ih
    refine ⟨?_, m + n, by omega, ?_⟩
    · dsimp only at hrest ⊢
      rw [mapM_cons, hbind, ok_bind, hrest]
      rfl
    · dsimp only at hn ⊢
      rw [flatMap_cons, hm, hn, List.range'_append_1]

theorem bindExprs_eq_mapM (params : List Expr) (es : List Expr) :
    bindExprs params es = es.mapM (bindExpr params) := by
  induction es with
  | nil => rfl
  | cons e es ih =>
    rw [bindExprs, mapM_cons, ih]

theorem listPlaceholders_eq_flatMap (es : List Expr) :
    Expr.listPlaceholders es = es.flatMap Expr.placeholders := by
  induction es with
  | nil => rfl
  | cons e es ih => rw [Expr.listPlaceholders, flatMap_cons, ih]

def BindsExpr (params : List Literal) : Nat → Expr → Expr → Nat → Prop :=
  Binds (bindExpr (exprs params)) Expr.placeholders

def BindsExprs (params : List Literal) : Nat → List Expr → List Expr → Nat → Prop :=
  Binds (bindExprs (exprs params)) Expr.listPlaceholders

theorem BindsExprs.of_threaded {es es' : List Expr}
    (h : Lists.Threaded (BindsExpr params) k es es' k') : BindsExprs params k es es' k' := by
  obtain ⟨hbind, m, hk', hm⟩ := Binds.mapM h
  exact ⟨(bindExprs_eq_mapM _ _).trans hbind, m, hk', (listPlaceholders_eq_flatMap _).trans hm⟩

theorem plain_eat (h : isValue token = false) : Plain params (eat token) :=
  Plain.eatIf (blind_eq h)

theorem plain_eatIdentCi (word : String) : Plain params (eatIdentCi word) :=
  Plain.eatIf (blind_isIdentCi word)

theorem plain_expectPunct (h : token ≠ .placeholder) : Plain params (expectPunct token) :=
  Plain.expect (if_neg (by simpa using h.symm))

theorem plain_expectKeyword (k : Keyword) : Plain params (expectKeyword k) :=
  Plain.expect rfl

theorem plain_expectIdent : Plain params expectIdent := Plain.expect rfl

theorem plain_finishColumnRef (first : String) : Plain params (finishColumnRef first) := by
  refine (plain_eat rfl).bind fun dot => ?_
  exact .ite (plain_expectIdent.bind fun column => .pure _) (.pure _)

theorem plain_parseColumnRef : Plain params parseColumnRef :=
  plain_expectIdent.bind plain_finishColumnRef

section Nested
variable {argument : Parser Expr} (h : ∀ k, Follows params k argument argument (BindsExpr params k))
include h

theorem parseArguments_follows (k : Nat) :
    Follows params k (parseArguments argument) (parseArguments argument) (BindsExprs params k) := by
  refine (Plain.peekIs (blind_eq rfl)).then fun empty => ?_
  refine .ite (Follows.pure ⟨rfl, 0, rfl, rfl⟩) ?_
  exact .bounded fun fuel =>
    (sepByComma_follows h fuel k).mono fun _ _ _ hargs => .of_threaded hargs

theorem parseFunctionCall_follows (name : String) (k : Nat) :
    Follows params k (parseFunctionCall argument name) (parseFunctionCall argument name)
      (BindsExpr params k) := by
  refine (plain_expectPunct (by simp)).then fun _ => ?_
  refine (Plain.eatIf ⟨by simp, fun l => by cases l <;> simp [Literal.token]⟩).then fun star => ?_
  refine .ite ?_ ?_
  · exact (plain_expectPunct (by simp)).then fun _ => .pure ⟨rfl, 0, rfl, rfl⟩
  · refine (parseArguments_follows h k).bind fun args args' k' hargs => ?_
    refine (plain_expectPunct (by simp)).then fun _ => .pure ?_
    obtain ⟨hbind, m, hk', hm⟩ := hargs
    refine ⟨?_, m, hk', ?_⟩
    · rw [bindExpr, hbind]
      rfl
    · rw [Expr.placeholders, hm]

theorem parseNamed_follows (name : String) (k : Nat) :
    Follows params k (parseNamed argument name) (parseNamed argument name) (BindsExpr params k) := by
  refine .ite (Follows.pure ⟨rfl, 0, rfl, rfl⟩) ?_
  refine .ite (Follows.pure ⟨rfl, 0, rfl, rfl⟩) ?_
  refine (Plain.peekIs (blind_eq rfl)).then fun call => ?_
  refine .ite (parseFunctionCall_follows h name k) ?_
  rw [map_eq_pure_bind]
  exact (plain_finishColumnRef name).then fun ref => .pure ⟨rfl, 0, rfl, rfl⟩

theorem parseExprFrom_follows (k : Nat) : ∀ token, token ≠ some .placeholder →
    Follows params k (parseExprFrom argument token) (parseExprFrom argument token)
      (BindsExpr params k) := by
  refine parseExprFrom_cases
    (motive := fun token p => token ≠ some .placeholder → Follows params k p p (BindsExpr params k))
    ?integer ?decimal ?str ?null ?systemVariable ?ident ?placeholder ?other
  case ident => exact fun name _ => parseNamed_follows h name k
  case placeholder => exact fun hne => absurd rfl hne
  case other => exact fun _ _ _ => Sim.lift_err
  all_goals
    intros
    exact .pure ⟨rfl, 0, rfl, rfl⟩

end Nested

/-- Parsing with literals in the place of placeholders gives the bound expression. -/
theorem parseExprWith_follows (fuel k : Nat) :
    Follows params k (parseExprWith fuel) (parseExprWith fuel) (BindsExpr params k) := by
  induction fuel generalizing k with
  | zero => exact Sim.lift_panic
  | succ fuel ih =>
    intro s t hst e s' he
    rw [parseExprWith] at he
    rw [parseExprWith]
    rcases hst.cases with ⟨hs, -⟩ | ⟨token, ts, ts', hne, hs, ht, hrest⟩ |
      ⟨literal, ts, ts', hliteral, hs, ht, hrest⟩
    · rw [bind_ok (advance_nil hs)] at he
      cases he
    · rw [bind_ok (advance_cons hs)] at he
      rw [bind_ok (advance_cons ht)]
      exact parseExprFrom_follows ih k (some token) (by simpa using hne) _ _ hrest e s' he
    · rw [bind_ok (advance_cons hs)] at he
      rw [bind_ok (advance_cons ht)]
      -- the placeholder meets the literal that stands in its place
      have hparse : parseExprFrom (parseExprWith fuel) (some .placeholder) { s with tokens := ts } =
          (.ok (.placeholder k), { s with tokens := ts, paramCount := k + 1 }) := by
        change parsePlaceholder _ = _
        simp [parsePlaceholder, hst.allowed, hst.count]
      rw [hparse] at he
      cases he
      have hliteral_parse : ∀ t, parseExprFrom (parseExprWith fuel) (some literal.token) t =
          (.ok literal.expr, t) := by
        intro t
        cases literal <;> rfl
      refine ⟨literal.expr, _, hliteral_parse _, k + 1, ⟨?_, 1, rfl, rfl⟩, hrest⟩
      rw [bindExpr, exprs, getElem?_map, hliteral]
      rfl

theorem parseExpr_follows (k : Nat) : Follows params k parseExpr parseExpr (BindsExpr params k) :=
  Follows.bounded fun fuel => parseExprWith_follows fuel k

theorem plain_qualifiedRest (name : String) (fuel : Nat) : Plain params (qualifiedRest name fuel) := by
  induction fuel generalizing name with
  | zero => exact fun _ => Sim.lift_panic
  | succ fuel ih =>
    refine (plain_eat rfl).bind fun dot => ?_
    exact .ite (plain_expectIdent.bind fun name => ih name) (Plain.pure name)

theorem plain_expectQualifiedIdent : Plain params expectQualifiedIdent :=
  plain_expectIdent.bind fun name => .bounded (plain_qualifiedRest name)

theorem plain_parseOptionalAlias : Plain params parseOptionalAlias := by
  refine (plain_eat rfl).bind fun asKw => .ite (plain_expectIdent.map some) ?_
  exact .eatMap rfl fun l => by cases l <;> rfl

theorem plain_eatSemicolonAndEnsureEnd : Plain params eatSemicolonAndEnsureEnd := by
  refine (plain_eat rfl).bind fun _ k s t hst a s' ha => ?_
  obtain ⟨hs, rfl⟩ := ensureEnd_eq_ok ha
  have ht : t.tokens = [] := by
    rw [hst.tokens, hs]
    cases params.drop k <;> rfl
  exact ⟨a, t, ensureEnd_of_nil ht, k, ⟨rfl, rfl⟩, hst⟩

theorem parseInsertRow_follows (k : Nat) :
    Follows params k (parseInsertRow parseExpr) (parseInsertRow parseExpr) (BindsExprs params k) := by
  refine (plain_expectPunct (by simp)).then fun _ => .bounded fun fuel => ?_
  exact (itemsToRParen_follows parseExpr_follows fuel k).mono fun _ _ _ => .of_threaded

theorem plain_parseInsertColumns : Plain params parseInsertColumns := by
  refine (plain_eat rfl).bind fun _ => .ite ?_ (Plain.pure none)
  exact (Plain.bounded plain_expectIdent.itemsToRParen).map some

def BindsStatement (params : List Literal) : Nat → Statement → Statement → Nat → Prop :=
  Binds (bindParameters (exprs params)) Statement.placeholders

theorem parseInsert_follows (k : Nat) :
    Follows params k (parseInsert parseExpr) (parseInsert parseExpr) (BindsStatement params k) := by
  refine (plain_expectKeyword _).then fun _ => (plain_expectKeyword _).then fun _ => ?_
  refine plain_expectQualifiedIdent.then fun table => plain_parseInsertColumns.then fun columns => ?_
  refine (plain_expectKeyword _).then fun _ => ?_
  refine (Follows.bounded fun fuel => sepByComma_follows parseInsertRow_follows fuel k).bind
    fun rows rows' k' hrows => ?_
  refine plain_eatSemicolonAndEnsureEnd.then fun _ => .pure ?_
  obtain ⟨hbind, m, hk', hm⟩ := Binds.mapM hrows
  dsimp only at hbind
  refine ⟨?_, m, hk', hm⟩
  rw [bindParameters, hbind]
  rfl

theorem parseSelectItem_follows (k : Nat) : Follows params k (parseSelectItem parseExpr) (parseSelectItem parseExpr)
    (Binds (bindItem (exprs params)) SelectItem.placeholders k) := by
  refine (plain_eat rfl).then fun star => ?_
  refine .ite (Follows.pure ⟨rfl, 0, rfl, rfl⟩) ?_
  refine (parseExpr_follows k).bind fun e e' k' ⟨hbind, m, hk', hm⟩ => ?_
  refine plain_parseOptionalAlias.then fun asAlias => .pure ⟨?_, m, hk', hm⟩
  rw [bindItem, hbind]
  rfl

theorem plain_parseTableRef : Plain params parseTableRef :=
  plain_expectQualifiedIdent.bind fun _ => plain_parseOptionalAlias.bind fun _ => .pure _

theorem plain_parseJoinType : Plain params parseJoinType := by
  refine (plain_eat rfl).bind fun _ => .ite (.pure _) ?_
  refine (plain_eat rfl).bind fun _ => .ite ?_ ?_
  · exact (plain_expectKeyword _).bind fun _ => .pure _
  · refine (plain_eat rfl).bind fun _ => .ite ?_ (.pure _)
    exact (plain_eat rfl).bind fun _ => (plain_expectKeyword _).bind fun _ => .pure _

theorem plain_parseJoin (joinType : JoinType) : Plain params (parseJoin joinType) := by
  refine plain_parseTableRef.bind fun table => (plain_expectKeyword _).bind fun _ => ?_
  refine plain_parseColumnRef.bind fun left => (plain_expectPunct (by simp)).bind fun _ => ?_
  exact plain_parseColumnRef.bind fun right => .pure _

theorem plain_parseJoins (fuel : Nat) : Plain params (parseJoins fuel) := by
  induction fuel with
  | zero => exact fun _ => Sim.lift_panic
  | succ fuel ih =>
    refine plain_parseJoinType.bind fun joinType => ?_
    cases joinType with
    | none => exact .pure []
    | some j => exact (plain_parseJoin j).bind fun join => ih.bind fun joins => .pure _

theorem plain_parseFromClause : Plain params parseFromClause :=
  plain_parseTableRef.bind fun _ => (Plain.bounded plain_parseJoins).bind fun _ => .pure _

def BindsSource (params : List Literal) (k : Nat)
    (source source' : Option FromClause × Option Condition) (k' : Nat) : Prop :=
  source.1 = source'.1 ∧
    Binds (bindCondition (exprs params)) conditionPlaceholders k source.2 source'.2 k'

theorem parseCondition_follows (k : Nat) : Follows params k (parseCondition parseExpr) (parseCondition parseExpr)
    fun c c' k' => c.column = c'.column ∧ c.op = c'.op ∧
      BindsExpr params k c.value c'.value k' := by
  refine plain_parseColumnRef.then fun column => (Plain.expect rfl).then fun op => ?_
  exact (parseExpr_follows k).bind fun e e' k' he => .pure ⟨rfl, rfl, he⟩

theorem parseSource_follows (k : Nat) :
    Follows params k (parseSource parseExpr) (parseSource parseExpr) (BindsSource params k) := by
  refine (plain_eat rfl).then fun _ => .ite ?_ (Follows.pure ⟨rfl, rfl, 0, rfl, rfl⟩)
  refine plain_parseFromClause.then fun fromClause => (plain_eat rfl).then fun _ => ?_
  refine .ite ?_ (Follows.pure ⟨rfl, rfl, 0, rfl, rfl⟩)
  refine (parseCondition_follows k).bind fun c c' k' ⟨hcolumn, hop, hbind, m, hk', hm⟩ => ?_
  refine .pure ⟨rfl, ?_, m, hk', hm⟩
  rw [bindCondition, hbind, hcolumn, hop]
  rfl

theorem plain_parseOptionalGroupBy : Plain params parseOptionalGroupBy := by
  refine (plain_eat rfl).bind fun _ => .ite ?_ (Plain.pure [])
  exact (plain_expectKeyword _).bind fun _ => .bounded plain_parseColumnRef.sepByComma

theorem plain_parseOrderByItem : Plain params parseOrderByItem := by
  refine plain_parseColumnRef.bind fun column => (plain_eatIdentCi _).bind fun _ => ?_
  exact .ite (.pure _) ((plain_eatIdentCi _).bind fun _ => .pure _)

theorem plain_parseOptionalOrderBy : Plain params parseOptionalOrderBy := by
  refine (plain_eat rfl).bind fun _ => .ite ?_ (Plain.pure [])
  exact (plain_expectKeyword _).bind fun _ => .bounded plain_parseOrderByItem.sepByComma

theorem plain_expectUnsignedInteger : Plain params expectUnsignedInteger := Plain.expect rfl

theorem plain_parseOptionalLimit : Plain params parseOptionalLimit := by
  refine (plain_eat rfl).bind fun _ => .ite ?_ (.pure _)
  refine plain_expectUnsignedInteger.bind fun first => (plain_eat rfl).bind fun _ => ?_
  refine .ite (plain_expectUnsignedInteger.bind fun _ => .pure _) ?_
  refine (plain_eatIdentCi _).bind fun _ => .ite ?_ (.pure _)
  exact plain_expectUnsignedInteger.bind fun _ => .pure _

theorem parseSelect_follows (k : Nat) :
    Follows params k (parseSelect parseExpr) (parseSelect parseExpr) (BindsStatement params k) := by
  refine (plain_expectKeyword _).then fun _ => ?_
  refine (Follows.bounded fun fuel => sepByComma_follows parseSelectItem_follows fuel k).bind
    fun projection projection' k₁ hprojection => ?_
  obtain ⟨hitems, m, rfl, hm⟩ := Binds.mapM hprojection
  refine (parseSource_follows _).bind fun source source' k₂ ⟨hfrom, hcondition, n, hk₂, hn⟩ => ?_
  obtain ⟨fromClause, selection⟩ := source
  obtain ⟨fromClause', selection'⟩ := source'
  subst hk₂
  dsimp only at hfrom hcondition hitems hm hn
  subst hfrom
  refine plain_parseOptionalGroupBy.then fun groupBy => plain_parseOptionalOrderBy.then fun orderBy => ?_
  refine plain_parseOptionalLimit.then fun limit => plain_eatSemicolonAndEnsureEnd.then fun _ => ?_
  refine .pure ⟨?_, m + n, by omega, ?_⟩
  · rw [bindParameters, hitems, ok_bind, hcondition]
    rfl
  · rw [Statement.placeholders, hm, hn, List.range'_append_1]

end

section
variable {α β : Type}
variable {Q : α → Prop} {st : Statement} {s : ParserState}
variable {p : Parser α} {k : Keyword}

/-- Every value that the parser returns has the property. -/
def Yields (Q : α → Prop) (p : Parser α) : Prop := ∀ s a s', p s = (.ok a, s') → Q a

theorem Yields.bind {Q : β → Prop} {f : α → Parser β} (hf : ∀ a, Yields Q (f a)) :
    Yields Q (p >>= f) := by
  intro s b s'' hb
  obtain ⟨a, s', -, hfs⟩ := bind_eq_ok hb
  exact hf a s' b s'' hfs

theorem Yields.lift {x : Result α} (h : ∀ a, x = .ok a → Q a) : Yields Q (Proc.lift x) := by
  intro s a s' ha
  cases x with
  | ok a' =>
    cases ha
    exact h a rfl
  | err e => cases ha
  | panic => cases ha

theorem Yields.pure {a : α} (h : Q a) : Yields Q (Pure.pure a : Parser α) := by
  intro s a' s' ha
  cases ha
  exact h

theorem Yields.fail (message : String) : Yields Q (fail message) := by
  intro s a s' ha
  cases ha

theorem Yields.ite {c : Prop} [Decidable c] {q : Parser α} (hp : Yields Q p) (hq : Yields Q q) :
    Yields Q (if c then p else q) := by
  split
  · exact hp
  · exact hq

def OtherKind (st : Statement) : Prop := st.isInsertOrSelect = false

theorem yields_end (h : OtherKind st) : Yields OtherKind (do eatSemicolonAndEnsureEnd; pure st) :=
  Yields.bind fun _ => .pure h

theorem parseSimple_yields (h : st.isInsertOrSelect = false) :
    Yields OtherKind (parseSimple k st) :=
  Yields.bind fun _ => yields_end h

theorem parseIgnored_yields (h : st.isInsertOrSelect = false) :
    Yields OtherKind (parseIgnored k st) := by
  iterate 2 refine .bind fun _ => ?_
  exact yields_end h

theorem parseCreateDatabase_yields : Yields OtherKind parseCreateDatabase := by
  iterate 5 refine .bind fun _ => ?_
  exact yields_end rfl

theorem parseDropDatabase_yields : Yields OtherKind parseDropDatabase := by
  iterate 4 refine .bind fun _ => ?_
  exact yields_end rfl

theorem parseCreateTable_yields : Yields OtherKind (parseCreateTable parseExpr) := by
  iterate 6 refine .bind fun _ => ?_
  exact yields_end rfl

theorem parseAlterTable_yields : Yields OtherKind (parseAlterTable parseExpr) := by
  iterate 5 refine .bind fun _ => ?_
  exact yields_end rfl

theorem parseStartTransaction_yields : Yields OtherKind parseStartTransaction := by
  iterate 2 refine .bind fun _ => ?_
  exact yields_end rfl

theorem parseShow_yields : Yields OtherKind parseShow := by
  iterate 3 refine .bind fun _ => ?_
  refine .ite ?_ ?_
  · iterate 3 refine .bind fun _ => ?_
    exact yields_end rfl
  · refine .bind fun _ => ?_
    exact yields_end rfl

theorem parseStatement_cases {s' : ParserState} (h : parseStatement s = (.ok st, s'))
    (hst : st.isInsertOrSelect = true) :
    (s.tokens.head? = some (.keyword .insert) ∧ parseInsert parseExpr s = (.ok st, s')) ∨
      (s.tokens.head? = some (.keyword .select) ∧ parseSelect parseExpr s = (.ok st, s')) := by
  obtain ⟨next, s₁, hpeek, h⟩ := bind_eq_ok h
  obtain ⟨hnext, rfl⟩ : s.tokens.head? = next ∧ s = s₁ := by
    cases hpeek
    exact ⟨rfl, rfl⟩
  have hother : ∀ {p : Parser Statement}, Yields OtherKind p → p s ≠ (.ok st, s') := by
    intro p hp hps
    have hkind : st.isInsertOrSelect = false := hp s st s' hps
    rw [hst] at hkind
    cases hkind
  split at h
  case h_4 => exact .inl ⟨hnext, h⟩
  case h_5 => exact .inr ⟨hnext, h⟩
  case h_1 =>
    refine absurd h (hother (Yields.bind fun _ => .ite ?_ ?_))
    · exact parseCreateDatabase_yields
    · exact parseCreateTable_yields
  case h_2 => exact absurd h (hother parseDropDatabase_yields)
  case h_3 => exact absurd h (hother parseAlterTable_yields)
  case h_7 => exact absurd h (hother parseStartTransaction_yields)
  case h_12 => exact absurd h (hother parseShow_yields)
  case h_13 => exact absurd h (hother (.fail _))
  case h_10 | h_11 => exact absurd h (hother (parseIgnored_yields rfl))
  all_goals exact absurd h (hother (parseSimple_yields rfl))

theorem parseStatement_of_insert (h : s.tokens.head? = some (.keyword .insert)) :
    parseStatement s = parseInsert parseExpr s := by
  have hpeek : peek s = (.ok (some (.keyword .insert)), s) := by simp [peek, h]
  rw [parseStatement, parseStatementOn, bind_ok hpeek]

theorem parseStatement_of_select (h : s.tokens.head? = some (.keyword .select)) :
    parseStatement s = parseSelect parseExpr s := by
  have hpeek : peek s = (.ok (some (.keyword .select)), s) := by simp [peek, h]
  rw [parseStatement, parseStatementOn, bind_ok hpeek]

variable {tokens : List Token} {n : Nat}

theorem parseStatementFrom_eq_ok {allow : Bool} : parseStatementFrom allow tokens = .ok (st, n) ↔
      ∃ s, parseStatement ⟨tokens, allow, 0⟩ = (.ok st, s) ∧ s.paramCount = n := by
  unfold parseStatementFrom
  split <;> simp_all

/-- A run on a text with question marks is followed by a run on the text with literals. -/
theorem parseStatement_follows {s : ParserState} (params : List Literal)
    (h : parseStatement ⟨tokens, true, 0⟩ = (.ok st, s)) (hst : st.isInsertOrSelect = true)
    (hparams : params.length = tokens.count .placeholder) :
    ∃ bound t, parseStatement ⟨substitute params tokens, false, 0⟩ = (.ok bound, t) ∧
      BindsStatement params 0 st bound params.length ∧ s.paramCount = params.length := by
  have hfilled : Filled params 0 ⟨tokens, true, 0⟩ ⟨substitute params tokens, false, 0⟩ :=
    ⟨rfl, rfl, by dsimp only; omega, rfl⟩
  have hend : ∀ {k t}, Filled params k s t → k = params.length ∧ s.paramCount = params.length := by
    intro k t hst
    have htotal := hst.total
    rw [parseStatement_finishes _ _ _ h, count_nil] at htotal
    exact ⟨htotal, hst.count.trans htotal⟩
  have hhead : ∀ {token}, token ≠ .placeholder → tokens.head? = some token →
      (substitute params tokens).head? = some token := by
    intro token hne htoken
    obtain ⟨ts, rfl⟩ := head?_eq_some_iff.mp htoken
    rw [substitute_cons_of_ne hne]
    rfl
  obtain ⟨hword, hrun⟩ | ⟨hword, hrun⟩ := parseStatement_cases h hst
  · obtain ⟨bound, t, hbound, k, hbinds, hst'⟩ := parseInsert_follows 0 _ _ hfilled _ _ hrun
    obtain ⟨rfl, hcount⟩ := hend hst'
    refine ⟨bound, t, ?_, hbinds, hcount⟩
    rw [parseStatement_of_insert (hhead (by decide) hword), hbound]
  · obtain ⟨bound, t, hbound, k, hbinds, hst'⟩ := parseSelect_follows 0 _ _ hfilled _ _ hrun
    obtain ⟨rfl, hcount⟩ := hend hst'
    refine ⟨bound, t, ?_, hbinds, hcount⟩
    rw [parseStatement_of_select (hhead (by decide) hword), hbound]

theorem substitute_ne_nil {params : List Literal} (h : tokens ≠ []) :
    substitute params tokens ≠ [] := by
  rw [← length_pos_iff, length_substitute]
  exact length_pos_iff.mpr h

theorem nonEmpty_of_ne_nil (h : tokens ≠ []) : nonEmpty tokens = .ok tokens :=
  if_neg h

theorem parsePreparedTokens_eq_ok : parsePreparedTokens tokens = .ok (st, n) ↔
      tokens ≠ [] ∧ ∃ s, parseStatement ⟨tokens, true, 0⟩ = (.ok st, s) ∧ s.paramCount = n := by
  rw [← parseStatementFrom_eq_ok, parsePreparedTokens]
  by_cases hne : tokens = []
  · subst hne
    exact iff_of_false nofun fun h => h.1 rfl
  · rw [nonEmpty_of_ne_nil hne, ok_bind]
    exact (and_iff_right hne).symm

/-- The question marks of an `INSERT` or a `SELECT` are numbered from left to right. -/
theorem placeholders_parsePreparedTokens (h : parsePreparedTokens tokens = .ok (st, n))
    (hst : st.isInsertOrSelect = true) :
    st.placeholders = range n ∧ n = tokens.count .placeholder := by
  obtain ⟨-, s, hparse, rfl⟩ := parsePreparedTokens_eq_ok.mp h
  -- The numbers do not depend on the literals: any list of the right length gives them.
  obtain ⟨_, _, _, ⟨_, m, hm, hnumbers⟩, hcount⟩ :=
    parseStatement_follows (replicate (tokens.count .placeholder) .null) hparse hst
      (length_replicate ..)
  rw [length_replicate] at hm hcount
  rw [hnumbers, hcount, range_eq_range', hm, Nat.zero_add]
  exact ⟨rfl, rfl⟩

/-- Binding literals to a prepared statement gives the statement that the text with the literals
in place of the question marks parses to. -/
theorem bindParameters_eq_parseTokens {tokens : List Token} {st : Statement} {n : Nat}
    (h : parsePreparedTokens tokens = .ok (st, n)) (hst : st.isInsertOrSelect = true)
    (params : List Literal) :
    (params.length = n → ∃ bound, bindParameters (exprs params) st = .ok bound ∧
      parseTokens (substitute params tokens) = .ok bound ∧ bound.placeholders = []) ∧
    (params.length < n → ∃ e, bindParameters (exprs params) st = .err e) := by
  obtain ⟨hnumbers, rfl⟩ := placeholders_parsePreparedTokens h hst
  obtain ⟨htokens, s, hparse, -⟩ := parsePreparedTokens_eq_ok.mp h
  have hfilling := bindParameters_filling params st
  constructor
  · intro hlength
    obtain ⟨bound, t, hparse, hbinds, _⟩ := parseStatement_follows params hparse hst hlength
    have hbound := hbinds.1
    rw [hbound] at hfilling
    refine ⟨bound, hbound, ?_, hfilling.1⟩
    rw [parseTokens, nonEmpty_of_ne_nil (substitute_ne_nil htokens), ok_bind,
      parseStatementFrom_eq_ok.mpr ⟨t, hparse, rfl⟩, map_ok]
  · intro hlength
    cases hbound : bindParameters (exprs params) st with
    | err e => exact ⟨e, rfl⟩
    | panic => exact absurd hbound hfilling.ne_panic
    | ok bound =>
      -- The number `params.length` is one of the placeholders and has no literal.
      rw [hbound] at hfilling
      have hmem : params.length ∈ st.placeholders := by
        rw [hnumbers]
        exact mem_range.mpr hlength
      exact absurd (hfilling.2 _ hmem) (Nat.lt_irrefl _)

def insertOfTwo : List Token :=
  [.keyword .insert, .keyword .into, .ident "t", .keyword .values, .lParen, .ident "f", .lParen,
    .placeholder, .comma, .integer 1, .rParen, .comma, .placeholder, .rParen]

theorem bindParameters_insertOfTwo : ∃ bound, bindParameters [.integer 7, .string "x"]
        (.insert ⟨"t", none, [[.function "f" [.placeholder 0, .integer 1], .placeholder 1]]⟩) =
          .ok bound ∧
      parseTokens (substitute [.integer 7, .string "x"] insertOfTwo) = .ok bound ∧
      bound.placeholders = [] := by
  have hprepared : parsePreparedTokens insertOfTwo = .ok (.insert ⟨"t", none,
      [[.function "f" [.placeholder 0, .integer 1], .placeholder 1]]⟩, 2) := rfl
  exact (bindParameters_eq_parseTokens hprepared rfl [.integer 7, .string "x"]).1 rfl

end

end MysqlRust
