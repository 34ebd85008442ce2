import MysqlRust.Query.Parser

/-! # A walk through the grammar

What is shown of the parser is shown of its primitives and carried through the grammar here, for
any relation between two parsers that the primitives respect. The relation is taken at the states
with fewer than `m` tokens; a token that is read lowers `m`.
-/
namespace MysqlRust

namespace Parser
variable {α β : Type}

section

def startsNotNull (ts : List Token) : Bool :=
  ts[0]?.any (isIdentCi "NOT") && ts[1]? = some (.keyword .null)

theorem nextIsNotNull_eq (s : ParserState) : nextIsNotNull s = (.ok (startsNotNull s.tokens), s) :=
  rfl

/-- The step of the loop over the attributes of a column that takes `NOT NULL`. -/
abbrev onNotNull (p p' : Parser α) : Parser α := do
  if ← nextIsNotNull then do
    bump
    bump
    p
  else p'

theorem startsNotNull_cases {ts : List Token} (h : startsNotNull ts = true) :
    ∃ t t' rest, ts = t :: t' :: rest := by
  rcases ts with _ | ⟨t, _ | ⟨t', ts⟩⟩
  · cases h
  · simp [startsNotNull] at h
  · exact ⟨t, t', ts, rfl⟩

/-- A parser that does nothing but fail. -/
def Fails (p : Parser α) : Prop := ∃ e, p = Proc.lift (.err e)

/-- A relation `Rel` between parsers that the primitives respect, with one for parsers that may
skip to the end of the text and one for whole statements. No test of the grammar accepts a
semicolon. -/
structure Walk where
  Rel : Nat → {α : Type} → Parser α → Parser α → Prop
  Stops : {α : Type} → Parser α → Parser α → Prop
  Closes : Parser Statement → Parser Statement → Prop
  zero : ∀ {α : Type} (p q : Parser α), Rel 0 p q
  mono : ∀ {α : Type} {m n : Nat} {p q : Parser α}, m ≤ n → Rel n p q → Rel m p q
  pure : ∀ {α : Type} (m : Nat) (a : α), Rel m (Pure.pure a : Parser α) (Pure.pure a)
  lift : ∀ {α : Type} (m : Nat) {x : Result α}, x ≠ .panic →
    Rel m (Proc.lift x : Parser α) (Proc.lift x)
  bind : ∀ {α β : Type} {m : Nat} {p q : Parser α} {f g : α → Parser β}, Rel m p q →
    (∀ a, Rel m (f a) (g a)) → Rel m (p >>= f) (q >>= g)
  advance_bind : ∀ {α : Type} {m : Nat} {f g : Option Token → Parser α} {e : Error},
    f none = Proc.lift (.err e) → g none = Proc.lift (.err e) → Fails (f (some .semicolon)) →
    (∀ t, Rel m (f (some t)) (g (some t))) → Rel (m + 1) (advance >>= f) (advance >>= g)
  eatIf_ite : ∀ {α : Type} {m : Nat} {test : Token → Bool} {p q p' q' : Parser α},
    test .semicolon = false → Rel m p q → Rel (m + 1) p' q' →
    Rel (m + 1) (do if ← eatIf test then p else p') (do if ← eatIf test then q else q')
  notNull_ite : ∀ {α : Type} {m : Nat} {p q p' q' : Parser α}, Rel m p q → Rel (m + 1) p' q' →
    Rel (m + 1) (onNotNull p p') (onNotNull q q')
  bounded : ∀ {α : Type} {m : Nat} {loop loop' : Nat → Parser α},
    (∀ j ≤ m, ∀ fuel ≥ j, Rel j (loop fuel) (loop' j)) → Rel m (bounded loop) (bounded loop')
  peekIs : ∀ {m : Nat} {test : Token → Bool}, test .semicolon = false →
    Rel m (peekIs test) (peekIs test)
  eatMap : ∀ {α : Type} {m : Nat} {q : Token → Option α}, q .semicolon = none →
    Rel m (eatMap q) (eatMap q)
  placeholder : ∀ m : Nat, Rel m parsePlaceholder parsePlaceholder
  fail_of_peek : ∀ (m : Nat) (α : Type) (message : Option Token → String),
    Rel m (do let next ← peek; fail (message next) : Parser α)
      (do let next ← peek; fail (message next))
  consume : ∀ m : Nat, Rel m consumeToStatementEnd consumeToStatementEnd
  stops_of : ∀ {α : Type} {p q : Parser α}, (∀ m, Rel m p q) → Stops p q
  stops_bind : ∀ {α β : Type} {p q : Parser α} {f g : α → Parser β}, (∀ m, Rel m p q) →
    (∀ a, Stops (f a) (g a)) → Stops (p >>= f) (q >>= g)
  stops_map : ∀ {α β : Type} {p q : Parser α} (f : α → β), Stops p q →
    Stops (do let a ← p; Pure.pure (f a)) (do let a ← q; Pure.pure (f a))
  stops_skip : ∀ {test : Token → Bool}, test .semicolon = false →
    Stops (skipUntil test) (skipUntil test)
  stops_expect : ∀ {α β γ : Type} {m : Nat} {p p' : Parser α} {q : Token → Option γ}
    {what : String} {f g : α → γ → Parser β}, Stops p p' →
    (∀ a, Rel m (expect q what >>= f a) (expect q what >>= g a)) →
    Rel m (p >>= fun a => expect q what >>= f a) (p' >>= fun a => expect q what >>= g a)
  close_bind : ∀ {α : Type} {p q : Parser α} {f g : α → Parser Statement}, (∀ m, Rel m p q) →
    (∀ a, Closes (f a) (g a)) → Closes (p >>= f) (q >>= g)
  close_fail : ∀ message : String, Closes (fail message) (fail message)
  close_finish : ∀ st : Statement, Closes (do eatSemicolonAndEnsureEnd; Pure.pure st)
    (do eatSemicolonAndEnsureEnd; Pure.pure st)
  close_peek : ∀ {f g : Option Token → Parser Statement} {e : Error},
    f none = Proc.lift (.err e) → g none = Proc.lift (.err e) → Fails (f (some .semicolon)) →
    (∀ t, Closes (f (some t)) (g (some t))) → Closes (peek >>= f) (peek >>= g)
  close_ahead : ∀ {test : Token → Bool} {p q p' q' : Parser Statement},
    test .semicolon = false → Closes p q → Closes p' q' →
    Closes (do let next ← peekAt 1; if next.any test then p else p')
      (do let next ← peekAt 1; if next.any test then q else q')
  close_show : Closes parseShow parseShow

variable {w : Walk}

/-- The relation holds whatever the number of tokens. -/
class Both (w : Walk) (p q : Parser α) : Prop where
  upTo : ∀ m, w.Rel m p q

/-- Two loops are related as long as the first has no fewer turns. -/
class Loops (w : Walk) (loop loop' : Nat → Parser α) : Prop where
  upTo : ∀ m, ∀ fuel ≥ m, w.Rel m (loop fuel) (loop' m)

instance (a : α) : Both w (pure a : Parser α) (pure a) := ⟨fun m => w.pure m a⟩

instance (message : String) : Both w (fail message : Parser α) (fail message) :=
  ⟨fun m => w.lift m nofun⟩

instance (e : Error) : Both w (Proc.lift (.err e) : Parser α) (Proc.lift (.err e)) :=
  ⟨fun m => w.lift m nofun⟩

instance (p q : Parser α) (f g : α → Parser β) [hp : Both w p q] [hf : ∀ a, Both w (f a) (g a)] :
    Both w (p >>= f) (q >>= g) :=
  ⟨fun m => w.bind (hp.upTo m) fun a => (hf a).upTo m⟩

instance (p q : Parser α) (f : α → β) [hp : Both w p q] : Both w (f <$> p) (f <$> q) :=
  ⟨fun m => w.bind (hp.upTo m) fun a => w.pure m (f a)⟩

theorem Walk.ite {m : Nat} {c : Prop} [Decidable c] {p q p' q' : Parser α} (hp : w.Rel m p q)
    (hp' : w.Rel m p' q') : w.Rel m (if c then p else p') (if c then q else q') := by
  split
  · exact hp
  · exact hp'

instance {c : Prop} [Decidable c] (p q p' q' : Parser α) [hp : Both w p q] [hp' : Both w p' q'] :
    Both w (if c then p else p') (if c then q else q') :=
  ⟨fun m => w.ite (hp.upTo m) (hp'.upTo m)⟩

theorem Walk.map {m : Nat} {p q : Parser α} (h : w.Rel m p q) (f : α → β) :
    w.Rel m (do let a ← p; Pure.pure (f a)) (do let a ← q; Pure.pure (f a)) :=
  w.bind h fun a => w.pure m (f a)

theorem both_eatIf {test : Token → Bool} (htest : test .semicolon = false) :
    Both w (eatIf test) (eatIf test) := by
  have hsame : eatIf test = (do if ← eatIf test then pure true else pure false) := by
    funext s
    rcases eatIf_cases test s with ⟨t, ts, -, -, h⟩ | ⟨-, h⟩
    · rw [Proc.bind_ok h, h]
      rfl
    · rw [Proc.bind_ok h, h]
      rfl
  refine ⟨fun m => w.mono (Nat.le_succ m) ?_⟩
  rw [hsame]
  exact w.eatIf_ite htest (w.pure m true) (w.pure (m + 1) false)

theorem Walk.expect_bind {m : Nat} {γ : Type} {q : Token → Option γ} (hq : q .semicolon = none)
    {what : String} {f g : γ → Parser α} (h : ∀ a, w.Rel m (f a) (g a)) :
    w.Rel (m + 1) (expect q what >>= f) (expect q what >>= g) := by
  unfold expect
  rw [bind_assoc, bind_assoc]
  refine w.advance_bind rfl rfl ?_ fun t => ?_
  · rw [Option.bind_some, hq]
    exact ⟨_, rfl⟩
  · rw [Option.bind_some]
    cases q t with
    | none => exact w.lift m nofun
    | some a => exact h a

theorem both_expect {q : Token → Option α} (hq : q .semicolon = none) (what : String) :
    Both w (expect q what) (expect q what) := by
  refine ⟨fun m => w.mono (Nat.le_succ m) ?_⟩
  rw [← bind_pure (expect q what)]
  exact w.expect_bind hq fun a => w.pure m a

instance (loop loop' : Nat → Parser α) [h : Loops w loop loop'] :
    Both w (bounded loop) (bounded loop') :=
  ⟨fun _ => w.bounded fun j _ fuel hfuel => h.upTo j fuel hfuel⟩

/-- A family of loops is related once each turn is, given the turns that follow. -/
theorem loops_of_turn {ι : Type} {f g : ι → Nat → Parser α}
    (h : ∀ m fuel, (∀ i, w.Rel m (f i fuel) (g i m)) →
      ∀ i, w.Rel (m + 1) (f i (fuel + 1)) (g i (m + 1))) (i : ι) : Loops w (f i) (g i) := by
  refine ⟨fun m => ?_⟩
  induction m generalizing i with
  | zero => exact fun _ _ => w.zero _ _
  | succ m ih =>
    intro fuel hfuel
    obtain ⟨fuel, rfl⟩ := Nat.exists_eq_add_of_le' (Nat.le_of_add_left_le hfuel)
    exact h m fuel (fun i => ih i fuel (Nat.le_of_succ_le_succ hfuel)) i

theorem loop_of_turn {loop loop' : Nat → Parser α}
    (h : ∀ m fuel, w.Rel m (loop fuel) (loop' m) → w.Rel (m + 1) (loop (fuel + 1)) (loop' (m + 1))) :
    Loops w loop loop' :=
  loops_of_turn (f := fun _ : Unit => loop) (g := fun _ => loop')
    (fun m fuel ih _ => h m fuel (ih ())) ()

theorem Walk.sepByComma {item item' : Parser α} {m fuel : Nat} (hfuel : m ≤ fuel)
    (h : w.Rel m item item') : w.Rel m (sepByComma item fuel) (sepByComma item' m) := by
  induction m generalizing fuel with
  | zero => exact w.zero _ _
  | succ m ih =>
    obtain ⟨fuel, rfl⟩ := Nat.exists_eq_add_of_le' (Nat.le_of_add_left_le hfuel)
    refine w.bind h fun a => w.eatIf_ite rfl ?_ (w.pure _ [a])
    exact w.map (ih (Nat.le_of_succ_le_succ hfuel) (w.mono (Nat.le_succ m) h)) (a :: ·)

instance (item item' : Parser α) [h : Both w item item'] :
    Loops w (sepByComma item) (sepByComma item') :=
  ⟨fun m _ hfuel => w.sepByComma hfuel (h.upTo m)⟩

instance (item item' : Parser α) [h : Both w item item'] :
    Loops w (itemsToRParen item) (itemsToRParen item') := by
  refine loop_of_turn fun m fuel ih => ?_
  refine w.bind (h.upTo _) fun a => w.expect_bind rfl fun _ => ?_
  exact w.ite (w.map ih (a :: ·)) (w.pure m [a])

variable {expr expr' : Parser Expr}

instance (keyword : Keyword) : Both w (eat (.keyword keyword)) (eat (.keyword keyword)) :=
  both_eatIf rfl

instance : Both w (eat .comma) (eat .comma) := both_eatIf rfl

instance : Both w (eat .dot) (eat .dot) := both_eatIf rfl

instance : Both w (eat .star) (eat .star) := both_eatIf rfl

instance : Both w (eat .lParen) (eat .lParen) := both_eatIf rfl

instance (word : String) : Both w (eatIdentCi word) (eatIdentCi word) := both_eatIf rfl

instance (word : String) : Both w (expectIdentCi word) (expectIdentCi word) := both_expect rfl _

instance (keyword : Keyword) : Both w (expectKeyword keyword) (expectKeyword keyword) :=
  both_expect rfl _

instance : Both w (expectPunct .lParen) (expectPunct .lParen) := both_expect rfl _

instance : Both w (expectPunct .rParen) (expectPunct .rParen) := both_expect rfl _

instance : Both w (expectPunct .eq) (expectPunct .eq) := both_expect rfl _

instance : Both w expectIdent expectIdent := both_expect rfl _

instance : Both w expectDatabaseOrSchema expectDatabaseOrSchema := both_expect rfl _

instance : Both w expectUnsignedInteger expectUnsignedInteger := both_expect rfl _

instance (what : String) : Both w (expect integerValue what) (expect integerValue what) :=
  both_expect rfl _

instance (what : String) : Both w (expect strText what) (expect strText what) := both_expect rfl _

instance (what : String) : Both w (expect compareOp what) (expect compareOp what) :=
  both_expect rfl _

instance : Both w consumeToStatementEnd consumeToStatementEnd := ⟨w.consume⟩

instance : Both w eatOptionalName eatOptionalName := by
  have hident : Both w (eatIf isIdent) (eatIf isIdent) := both_eatIf rfl
  unfold eatOptionalName
  infer_instance

instance (name : String) : Loops w (qualifiedRest name) (qualifiedRest name) := by
  refine loops_of_turn (fun m fuel ih name => w.eatIf_ite rfl ?_ (w.pure _ name)) name
  exact w.bind (Both.upTo m) ih

instance : Both w expectQualifiedIdent expectQualifiedIdent := by
  unfold expectQualifiedIdent
  infer_instance

instance (first : String) : Both w (finishColumnRef first) (finishColumnRef first) := by
  unfold finishColumnRef
  infer_instance

instance : Both w parseColumnRef parseColumnRef := by
  unfold parseColumnRef
  infer_instance

instance : Both w parseOptionalAlias parseOptionalAlias := by
  have hname : Both w (eatMap identName) (eatMap identName) := ⟨fun _ => w.eatMap rfl⟩
  unfold parseOptionalAlias
  infer_instance

section Nested
variable {argument argument' : Parser Expr} {m : Nat} (h : w.Rel m argument argument')
include h

theorem Walk.parseArguments : w.Rel m (parseArguments argument) (parseArguments argument') := by
  refine w.bind (w.peekIs rfl) fun _ => w.ite (w.pure m []) ?_
  exact w.bounded fun j hj fuel hfuel => w.sepByComma hfuel (w.mono hj h)

theorem Walk.parseFunctionCall (name : String) :
    w.Rel m (parseFunctionCall argument name) (parseFunctionCall argument' name) := by
  have hclose (e : Expr) : Both w (do expectPunct .rParen; Pure.pure e)
    (do expectPunct .rParen; Pure.pure e) := inferInstance
  have hstar : Both w (eatIf fun token => eqIgnoreAsciiCase name "COUNT" && token = .star)
    (eatIf fun token => eqIgnoreAsciiCase name "COUNT" && token = .star) :=
    both_eatIf (Bool.and_false _)
  refine w.bind (Both.upTo m) fun _ => w.bind (hstar.upTo m) fun _ => ?_
  refine w.ite ((hclose _).upTo m) (w.bind (w.parseArguments h) fun args => ?_)
  exact (hclose _).upTo m

theorem Walk.parseNamed (name : String) :
    w.Rel m (parseNamed argument name) (parseNamed argument' name) := by
  have hcolumn : Both w (Expr.column <$> finishColumnRef name)
    (Expr.column <$> finishColumnRef name) := inferInstance
  refine w.ite (w.pure m _) (w.ite (w.pure m _) ?_)
  refine w.bind (w.peekIs rfl) fun _ => w.ite ?_ (hcolumn.upTo m)
  exact w.parseFunctionCall h name

theorem Walk.parseExprFrom (token : Option Token) :
    w.Rel m (parseExprFrom argument token) (parseExprFrom argument' token) := by
  rcases token with _ | t
  · exact w.lift m nofun
  cases t with
  | ident name => exact w.parseNamed h name
  | placeholder => exact w.placeholder m
  | integer n => exact w.pure m _
  | decimal unscaled scale => exact w.pure m _
  | str s => exact w.pure m _
  | systemVariable name => exact w.pure m _
  | keyword k =>
    cases k with
    | null => exact w.pure m _
    | _ => exact w.lift m nofun
  | _ => exact w.lift m nofun

end Nested

instance : Loops w parseExprWith parseExprWith := by
  refine loop_of_turn fun m fuel ih => ?_
  exact w.advance_bind rfl rfl ⟨_, rfl⟩ fun t => w.parseExprFrom ih (some t)

instance : Both w parseExpr parseExpr := by
  unfold parseExpr
  infer_instance

instance : Both w parseInsertColumns parseInsertColumns := by
  unfold parseInsertColumns
  infer_instance

instance [Both w expr expr'] : Both w (parseInsertRow expr) (parseInsertRow expr') := by
  unfold parseInsertRow
  infer_instance

instance [Both w expr expr'] : Both w (parseSelectItem expr) (parseSelectItem expr') := by
  unfold parseSelectItem
  infer_instance

instance [Both w expr expr'] : Both w (parseCondition expr) (parseCondition expr') := by
  unfold parseCondition
  infer_instance

instance : Both w parseTableRef parseTableRef := by
  unfold parseTableRef
  infer_instance

instance (joinType : JoinType) : Both w (parseJoin joinType) (parseJoin joinType) := by
  unfold parseJoin
  infer_instance

theorem Walk.parseJoinType_bind {m : Nat} {f g : Option JoinType → Parser α}
    (hsome : ∀ joinType, w.Rel m (f (some joinType)) (g (some joinType)))
    (hnone : w.Rel (m + 1) (f none) (g none)) :
    w.Rel (m + 1) (parseJoinType >>= f) (parseJoinType >>= g) := by
  simp only [parseJoinType, bind_assoc, Proc.ite_bind, pure_bind]
  refine w.eatIf_ite rfl (hsome .inner) (w.eatIf_ite rfl ?_ (w.eatIf_ite rfl ?_ hnone))
  · exact w.bind (Both.upTo m) fun _ => hsome .inner
  · exact w.bind (Both.upTo m) fun _ => w.bind (Both.upTo m) fun _ => hsome .left

instance : Loops w parseJoins parseJoins := by
  refine loop_of_turn fun m fuel ih => ?_
  refine w.parseJoinType_bind (fun joinType => ?_) (w.pure _ [])
  exact w.bind (Both.upTo m) fun join => w.map ih (join :: ·)

instance : Both w parseFromClause parseFromClause := by
  unfold parseFromClause
  infer_instance

instance [Both w expr expr'] : Both w (parseSource expr) (parseSource expr') := by
  unfold parseSource
  infer_instance

instance : Both w parseOptionalGroupBy parseOptionalGroupBy := by
  unfold parseOptionalGroupBy
  infer_instance

instance : Both w parseOrderByItem parseOrderByItem := by
  unfold parseOrderByItem
  infer_instance

instance : Both w parseOptionalOrderBy parseOptionalOrderBy := by
  unfold parseOptionalOrderBy
  infer_instance

instance : Both w parseOptionalLimit parseOptionalLimit := by
  unfold parseOptionalLimit
  infer_instance

instance : Both w parseIndexedColumn parseIndexedColumn := by
  unfold parseIndexedColumn
  infer_instance

instance : Both w parseParenthesizedColumnList parseParenthesizedColumnList := by
  unfold parseParenthesizedColumnList
  infer_instance

instance : Both w parseTypeName parseTypeName := by
  unfold parseTypeName
  infer_instance

instance : Loops w skipTypeModifiers skipTypeModifiers :=
  loop_of_turn fun _ _ ih => w.eatIf_ite rfl ih (w.pure _ ())

instance (attrs : ColumnAttributes) [hexpr : Both w expr expr'] :
    Loops w (parseAttributes expr attrs) (parseAttributes expr' attrs) := by
  refine loops_of_turn (fun m fuel ih attrs => ?_) attrs
  -- every attribute starts with a token of its own
  have hafter {β : Type} (p q : Parser β) [Both w p q] (attrs : ColumnAttributes) :
      w.Rel m (do let _ ← p; parseAttributes expr attrs fuel)
        (do let _ ← q; parseAttributes expr' attrs m) :=
    w.bind (Both.upTo m) fun _ => ih attrs
  refine w.eatIf_ite rfl (ih _) (w.notNull_ite (ih _) ?_)
  refine w.eatIf_ite rfl (ih _) (w.eatIf_ite rfl (hafter _ _ _) ?_)
  refine w.eatIf_ite rfl (hafter _ _ _) (w.eatIf_ite rfl (hafter _ _ _) ?_)
  exact w.eatIf_ite rfl (hafter _ _ _) (w.pure _ attrs)

instance [Both w expr expr'] : Both w (parseColumnDef expr) (parseColumnDef expr') := by
  unfold parseColumnDef
  infer_instance

instance : Both w eatConstraintName eatConstraintName := by
  unfold eatConstraintName
  infer_instance

instance (columns : List ColumnDef) (names : List String) :
    Both w (Proc.lift (applyPrimaryKeyConstraint columns names))
      (Proc.lift (applyPrimaryKeyConstraint columns names)) := by
  refine ⟨fun m => w.lift m ?_⟩
  unfold applyPrimaryKeyConstraint
  split
  · split <;> simp
  · simp

instance (names : List String) :
    Both w (Proc.lift (addPrimaryKeyOf names)) (Proc.lift (addPrimaryKeyOf names)) := by
  refine ⟨fun m => w.lift m ?_⟩
  unfold addPrimaryKeyOf
  split <;> simp

end

section Statements
variable (w : Walk) {expr expr' : Parser Expr} [Both w expr expr']

theorem Walk.stops_ite {c : Prop} [Decidable c] {p q p' q' : Parser α} (hp : w.Stops p q)
    (hp' : w.Stops p' q') : w.Stops (if c then p else p') (if c then q else q') := by
  split
  · exact hp
  · exact hp'

theorem Walk.stops (p q : Parser α) [Both w p q] : w.Stops p q :=
  w.stops_of fun m => Both.upTo m

theorem Walk.stops_then (p q : Parser α) [Both w p q] {f g : α → Parser β}
    (hf : ∀ a, w.Stops (f a) (g a)) : w.Stops (p >>= f) (q >>= g) :=
  w.stops_bind (fun m => Both.upTo m) hf

theorem Walk.skipForeignKey : w.Stops skipForeignKey skipForeignKey := by
  refine w.stops_then _ _ fun _ => w.stops_then _ _ fun _ => ?_
  refine w.stops_then _ _ fun _ => w.stops_then _ _ fun _ => ?_
  refine w.stops_then _ _ fun _ => w.stops_then _ _ fun _ => ?_
  exact w.stops_skip rfl

theorem Walk.parseTableConstraint (columns : List ColumnDef) :
    w.Stops (parseTableConstraint columns) (parseTableConstraint columns) := by
  have hindex : Both w (eatIf isKeyOrIndex) (eatIf isKeyOrIndex) := both_eatIf rfl
  refine w.stops_then _ _ fun _ => w.stops_then _ _ fun _ => ?_
  refine w.stops_ite (w.stops _ _) (w.stops_then _ _ fun _ => ?_)
  refine w.stops_ite (w.stops _ _) (w.stops_then _ _ fun _ => ?_)
  refine w.stops_ite (w.stops _ _) (w.stops_then _ _ fun _ => ?_)
  refine w.stops_ite (w.stops_map _ w.skipForeignKey) ?_
  exact w.stops_of fun m => w.fail_of_peek m _ _

theorem Walk.parseTableItem (columns : List ColumnDef) :
    w.Stops (parseTableItem expr columns) (parseTableItem expr' columns) := by
  refine w.stops_bind (fun m => w.peekIs rfl) fun _ => ?_
  exact w.stops_ite (w.parseTableConstraint columns) (w.stops _ _)

instance (columns : List ColumnDef) :
    Loops w (parseTableItems expr columns) (parseTableItems expr' columns) := by
  refine loops_of_turn (fun m fuel ih columns => ?_) columns
  refine w.stops_expect (w.parseTableItem columns) fun columns => ?_
  exact w.expect_bind rfl fun _ => w.ite (ih columns) (w.pure m columns)

instance : Both w (parseAlterAddAction expr) (parseAlterAddAction expr') := by
  unfold parseAlterAddAction
  infer_instance

instance : Both w parseAlterDropAction parseAlterDropAction := by
  unfold parseAlterDropAction
  infer_instance

instance (table : String) : Both w (parseAlterAction expr table) (parseAlterAction expr' table) := by
  have hfail : Both w _ _ := ⟨fun m => w.fail_of_peek m AlterAction fun next =>
    s!"expected ADD, DROP, or MODIFY after ALTER TABLE '{table}', found {describe next}"⟩
  unfold parseAlterAction
  infer_instance

instance : Both w eatIfNotExists eatIfNotExists := by
  unfold eatIfNotExists
  infer_instance

instance : Both w eatIfExists eatIfExists := by
  unfold eatIfExists
  infer_instance

theorem Walk.close_then (p q : Parser α) [Both w p q] {f g : α → Parser Statement}
    (hf : ∀ a, w.Closes (f a) (g a)) : w.Closes (p >>= f) (q >>= g) :=
  w.close_bind (fun m => Both.upTo m) hf

theorem Walk.close_consume (st : Statement) :
    w.Closes (do consumeToStatementEnd; eatSemicolonAndEnsureEnd; Pure.pure st)
      (do consumeToStatementEnd; eatSemicolonAndEnsureEnd; Pure.pure st) :=
  w.close_then _ _ fun _ => w.close_finish st

theorem Walk.parseInsert : w.Closes (parseInsert expr) (parseInsert expr') := by
  iterate 6 refine w.close_then _ _ fun _ => ?_
  exact w.close_finish _

theorem Walk.parseSelect : w.Closes (parseSelect expr) (parseSelect expr') := by
  iterate 6 refine w.close_then _ _ fun _ => ?_
  exact w.close_finish _

theorem Walk.parseCreateTable : w.Closes (parseCreateTable expr) (parseCreateTable expr') := by
  iterate 5 refine w.close_then _ _ fun _ => ?_
  exact w.close_consume _

theorem Walk.parseAlterTable : w.Closes (parseAlterTable expr) (parseAlterTable expr') := by
  iterate 4 refine w.close_then _ _ fun _ => ?_
  exact w.close_consume _

theorem Walk.parseCreateDatabase : w.Closes parseCreateDatabase parseCreateDatabase := by
  iterate 4 refine w.close_then _ _ fun _ => ?_
  exact w.close_consume _

theorem Walk.parseDropDatabase : w.Closes parseDropDatabase parseDropDatabase := by
  iterate 4 refine w.close_then _ _ fun _ => ?_
  exact w.close_finish _

theorem Walk.parseIgnored (keyword : Keyword) (st : Statement) :
    w.Closes (parseIgnored keyword st) (parseIgnored keyword st) :=
  w.close_then _ _ fun _ => w.close_consume st

theorem Walk.parseSimple (keyword : Keyword) (st : Statement) :
    w.Closes (parseSimple keyword st) (parseSimple keyword st) :=
  w.close_then _ _ fun _ => w.close_finish st

theorem Walk.parseStartTransaction : w.Closes parseStartTransaction parseStartTransaction := by
  iterate 2 refine w.close_then _ _ fun _ => ?_
  exact w.close_finish _

/-- What the primitives respect, whole statements do, if the parsers of expressions do. -/
theorem Walk.parseStatementOn : w.Closes (parseStatementOn expr) (parseStatementOn expr') := by
  refine w.close_peek rfl rfl ⟨_, rfl⟩ fun t => ?_
  cases t with
  | keyword keyword =>
    cases keyword with
    | create =>
      exact w.close_ahead rfl (w.parseCreateDatabase)
        (w.parseCreateTable)
    | drop => exact w.parseDropDatabase
    | alter => exact w.parseAlterTable
    | insert => exact w.parseInsert
    | select => exact w.parseSelect
    | start => exact w.parseStartTransaction
    | showKw => exact w.close_show
    | begin | commit | rollback => exact w.parseSimple _ _
    | set | use => exact w.parseIgnored _ _
    | _ => exact w.close_fail _
  | _ => exact w.close_fail _

end Statements

end Parser

end MysqlRust
