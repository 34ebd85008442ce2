import MysqlRust.Query.Grammar

/-! # Parsing always ends

However a parser ends, it stands at one of its tokens or behind the last of them. A stack that
holds one call of `parse_expr` more than there are parentheses is enough.
-/
namespace MysqlRust

open Proc List Outcome

namespace Parser
variable {α β : Type}

section
variable {d d' : Nat} {ts ts' : List Token}

/-- How many parentheses are open behind a token. -/
def depthAfter (d : Nat) : Token → Nat
  | .lParen => d + 1
  | .rParen => d - 1
  | _ => d

/-- The greatest number of parentheses that are open at a time, `d` of them from the start. -/
def nestingFrom (d : Nat) : List Token → Nat
  | [] => d
  | t :: ts => max d (nestingFrom (depthAfter d t) ts)

def nesting (ts : List Token) : Nat := nestingFrom 0 ts

theorem le_nestingFrom (d : Nat) (ts : List Token) : d ≤ nestingFrom d ts := by
  cases ts with
  | nil => exact Nat.le_refl d
  | cons t ts => exact Nat.le_max_left d _

theorem nestingFrom_mono (h : d ≤ d') (ts : List Token) : nestingFrom d ts ≤ nestingFrom d' ts := by
  induction ts generalizing d d' with
  | nil => exact h
  | cons t ts ih =>
    have hstep : depthAfter d t ≤ depthAfter d' t := by
      unfold depthAfter
      split <;> omega
    have hrest := ih hstep
    simp only [nestingFrom]
    omega

theorem nestingFrom_le (d : Nat) (ts : List Token) : nestingFrom d ts ≤ d + ts.length := by
  induction ts generalizing d with
  | nil => exact Nat.le_refl d
  | cons t ts ih =>
    have hstep : depthAfter d t ≤ d + 1 := by
      unfold depthAfter
      split <;> omega
    have hrest := ih (depthAfter d t)
    rw [length_cons]
    exact Nat.max_le.mpr ⟨Nat.le_add_right d _, by omega⟩

/-- What is left of a text is nested no deeper. -/
theorem nesting_suffix (h : ts' <:+ ts) : nesting ts' ≤ nesting ts := by
  obtain ⟨before, rfl⟩ := h
  induction before with
  | nil => exact Nat.le_refl _
  | cons t before ih =>
    exact Nat.le_trans (Nat.le_trans ih (nestingFrom_mono (Nat.zero_le _) _)) (Nat.le_max_right 0 _)

variable {frames m : Nat} {p q : Parser α} {f g : α → Parser β} {s : ParserState}

/-- The parser does not panic, and it stands at one of the tokens it started with or behind the
last. -/
def Inside (p : Parser α) (s : ParserState) : Prop :=
  (p s).1 ≠ .panic ∧ (p s).2.tokens <:+ s.tokens

/-- The second parser stays inside its input, and the first does the same unless parentheses
are nested too deep for its stack. -/
def Alike (frames m : Nat) (p q : Parser α) : Prop :=
  ∀ s, s.tokens.length < m → Inside q s ∧ (nesting s.tokens < frames → p s = q s)

theorem Alike.of_inside (h : ∀ s, Inside p s) : Alike frames m p p :=
  fun s _ => ⟨h s, fun _ => rfl⟩

theorem inside_of_ok {a : α} {s' : ParserState} (h : p s = (.ok a, s'))
    (hs' : s'.tokens <:+ s.tokens) : Inside p s := by
  rw [Inside, h]
  exact ⟨nofun, hs'⟩

theorem inside_lift {x : Result α} (hx : x ≠ .panic) (s : ParserState) :
    Inside (lift x : Parser α) s :=
  ⟨hx, suffix_rfl⟩

theorem inside_pure (a : α) (s : ParserState) : Inside (pure a) s :=
  ⟨nofun, suffix_rfl⟩

theorem inside_fail (message : String) (s : ParserState) : Inside (fail message : Parser α) s :=
  ⟨nofun, suffix_rfl⟩

theorem inside_advance (s : ParserState) : Inside advance s :=
  inside_of_ok rfl (tail_suffix _)

theorem inside_eatIf (test : Token → Bool) (s : ParserState) : Inside (eatIf test) s := by
  rcases eatIf_cases test s with ⟨t, ts, hs, -, h⟩ | ⟨-, h⟩
  · exact inside_of_ok h (hs ▸ suffix_cons t ts)
  · exact inside_of_ok h suffix_rfl

theorem inside_eatMap (q : Token → Option α) (s : ParserState) : Inside (eatMap q) s := by
  unfold Inside eatMap
  split
  · exact ⟨by simp, tail_suffix _⟩
  · exact ⟨by simp, suffix_rfl⟩

theorem inside_placeholder (s : ParserState) : Inside parsePlaceholder s := by
  unfold Inside parsePlaceholder
  split <;> exact ⟨nofun, suffix_rfl⟩

theorem Alike.bind (hp : Alike frames m p q) (hf : ∀ a, Alike frames m (f a) (g a)) :
    Alike frames m (p >>= f) (q >>= g) := by
  intro s hs
  obtain ⟨⟨hpanic, hsuffix⟩, hsame⟩ := hp s hs
  simp only [Inside, Bind.bind, Proc.bind]
  rcases hq : q s with ⟨a | e | _, s'⟩ <;> rw [hq] at hpanic hsuffix hsame
  · obtain ⟨⟨hpanic', hsuffix'⟩, hsame'⟩ := hf a s' (Nat.lt_of_le_of_lt hsuffix.length_le hs)
    refine ⟨⟨hpanic', hsuffix'.trans hsuffix⟩, fun hdeep => ?_⟩
    rw [hsame hdeep]
    exact hsame' (Nat.lt_of_le_of_lt (nesting_suffix hsuffix) hdeep)
  · exact ⟨⟨by simp, hsuffix⟩, fun hdeep => by rw [hsame hdeep]⟩
  · exact absurd rfl hpanic

theorem inside_bind (hp : ∀ s, Inside p s) (hf : ∀ a s, Inside (f a) s) (s : ParserState) :
    Inside (p >>= f) s := by
  have hbind : Alike 0 (s.tokens.length + 1) (p >>= f) (p >>= f) :=
    Alike.bind (.of_inside hp) fun a => .of_inside (hf a)
  exact (hbind s (Nat.lt_succ_self _)).1

theorem inside_ite {c : Prop} [Decidable c] (hp : Inside p s) (hq : Inside q s) :
    Inside (if c then p else q) s := by
  split
  · exact hp
  · exact hq

theorem inside_expect (q : Token → Option α) (what : String) (s : ParserState) :
    Inside (expect q what) s := by
  refine inside_bind inside_advance (fun token s => ?_) s
  split
  · exact inside_pure _ s
  · exact inside_fail _ s

/-- What follows one token is a walk with one token less. -/
theorem Alike.tail {p q p' q' : Parser α} {t : Token} {ts : List Token} (hs : s.tokens = t :: ts)
    (hlt : s.tokens.length < m + 1) (hq : q s = q' { s with tokens := ts })
    (hp : p s = p' { s with tokens := ts }) (h : Alike frames m p' q') :
    Inside q s ∧ (nesting s.tokens < frames → p s = q s) := by
  have hsuffix : ts <:+ s.tokens := hs ▸ suffix_cons t ts
  rw [hs, length_cons] at hlt
  obtain ⟨⟨hpanic, hend⟩, hsame⟩ := h { s with tokens := ts } (Nat.lt_of_succ_lt_succ hlt)
  rw [Inside, hp, hq]
  refine ⟨⟨hpanic, hend.trans hsuffix⟩, fun hdeep => ?_⟩
  exact hsame (Nat.lt_of_le_of_lt (nesting_suffix hsuffix) hdeep)

theorem Alike.advance_bind {f g : Option Token → Parser α} {e : Error}
    (hf : f none = lift (.err e)) (hg : g none = lift (.err e))
    (h : ∀ t, Alike frames m (f (some t)) (g (some t))) :
    Alike frames (m + 1) (advance >>= f) (advance >>= g) := by
  intro s hs
  cases htokens : s.tokens with
  | nil =>
    rw [Inside, bind_ok (advance_nil htokens), bind_ok (advance_nil htokens), hf, hg]
    exact ⟨⟨nofun, suffix_rfl⟩, fun _ => rfl⟩
  | cons t ts =>
    rw [← htokens]
    exact Alike.tail htokens hs (bind_ok (advance_cons htokens))
      (bind_ok (advance_cons htokens)) (h t)

theorem Alike.eatIf_ite {test : Token → Bool} {p q p' q' : Parser α} (hp : Alike frames m p q)
    (hp' : Alike frames (m + 1) p' q') :
    Alike frames (m + 1) (do if ← eatIf test then p else p') (do if ← eatIf test then q else q') := by
  intro s hs
  rcases eatIf_cases test s with ⟨t, ts, htokens, -, h⟩ | ⟨-, h⟩
  · exact Alike.tail htokens hs (bind_ok h) (bind_ok h) hp
  · rw [Inside, bind_ok h, bind_ok h]
    exact hp' s hs

theorem Alike.notNull_ite {p q p' q' : Parser α} (hp : Alike frames m p q)
    (hp' : Alike frames (m + 1) p' q') :
    Alike frames (m + 1) (onNotNull p p') (onNotNull q q') := by
  unfold onNotNull
  intro s hs
  rw [Inside, bind_ok (nextIsNotNull_eq s), bind_ok (nextIsNotNull_eq s)]
  cases hstarts : startsNotNull s.tokens with
  | false => exact hp' s hs
  | true =>
    obtain ⟨t, t', rest, htokens⟩ := startsNotNull_cases hstarts
    have hsuffix : rest <:+ s.tokens := by
      rw [htokens]
      exact (suffix_cons t' rest).trans (suffix_cons t _)
    have hmove (r : Parser α) : (do bump; bump; r) s = r { s with tokens := rest } := by
      rw [bind_ok (bump_cons htokens), bind_ok (bump_cons rfl)]
    rw [if_pos rfl, if_pos rfl, hmove, hmove]
    rw [htokens, length_cons, length_cons] at hs
    obtain ⟨⟨hpanic, hend⟩, hsame⟩ := hp { s with tokens := rest } (by dsimp only; omega)
    exact ⟨⟨hpanic, hend.trans hsuffix⟩, fun hdeep =>
      hsame (Nat.lt_of_le_of_lt (nesting_suffix hsuffix) hdeep)⟩

/-- What the parser accepts it has read to the end. -/
def Finishes (p : Parser α) : Prop := ∀ s a s', p s = (.ok a, s') → s'.tokens = []

theorem Finishes.bind (hf : ∀ a, Finishes (f a)) : Finishes (p >>= f) := by
  intro s b s' h
  obtain ⟨a, s₁, -, hfa⟩ := bind_eq_ok h
  exact hf a s₁ b s' hfa

theorem Finishes.ite {c : Prop} [Decidable c] (hp : Finishes p) (hq : Finishes q) :
    Finishes (if c then p else q) := by
  split
  · exact hp
  · exact hq

theorem Finishes.finish (a : α) : Finishes (do eatSemicolonAndEnsureEnd; pure a) := by
  intro s b s' h
  obtain ⟨_, s₁, hend, hpure⟩ := bind_eq_ok h
  obtain ⟨_, s₂, -, hend⟩ := bind_eq_ok hend
  obtain ⟨hnil, rfl⟩ := ensureEnd_eq_ok hend
  cases hpure
  exact hnil

theorem inside_finish (a : α) (s : ParserState) :
    Inside (do eatSemicolonAndEnsureEnd; pure a) s := by
  refine inside_bind (inside_bind (inside_eatIf _) fun _ => ?_) (fun _ => inside_pure a) s
  refine inside_bind (fun s => inside_of_ok rfl suffix_rfl) fun next s => ?_
  split
  · exact inside_pure () s
  · exact inside_fail _ s

theorem inside_consume (a : α) (s : ParserState) :
    Inside (do consumeToStatementEnd; eatSemicolonAndEnsureEnd; pure a) s :=
  inside_bind (fun _ => inside_of_ok rfl (dropWhile_suffix _)) (fun _ => inside_finish a) s

theorem inside_optionalLike (s : ParserState) : Inside parseOptionalLike s := by
  refine inside_bind (inside_eatIf _) (fun like s => inside_ite ?_ (inside_pure none s)) s
  exact inside_bind (inside_expect _ _) (fun _ => inside_pure _) s

theorem inside_show (s : ParserState) : Inside parseShow s := by
  refine inside_bind (inside_expect _ _) (fun _ s => ?_) s
  have hpeek : peek s = (.ok s.tokens.head?, s) := rfl
  have hpeekAt : peekAt 1 s = (.ok s.tokens[1]?, s) := rfl
  rw [Inside, bind_ok hpeek, bind_ok hpeekAt]
  split
  · rename_i hword
    -- the word that the parser moves over is there
    obtain ⟨t, ts, htokens⟩ : ∃ t ts, s.tokens = t :: ts := by
      cases htokens : s.tokens with
      | nil => simp [htokens] at hword
      | cons t ts => exact ⟨t, ts, rfl⟩
    rw [bind_ok (bump_cons htokens)]
    obtain ⟨hpanic, hend⟩ := inside_bind inside_optionalLike
      (fun like => inside_consume (Statement.showStatement (.variables like))) { s with tokens := ts }
    exact ⟨hpanic, hend.trans (htokens ▸ suffix_cons t ts)⟩
  · exact inside_consume _ s

theorem finishes_show : Finishes parseShow := by
  refine .bind fun _ => .bind fun _ => .bind fun _ => .ite ?_ (.bind fun _ => .finish _)
  exact .bind fun _ => .bind fun _ => .bind fun _ => .finish _

/-- The parser stays inside its input, on a stack that is deep enough for the text. -/
def inside (frames : Nat) : Walk where
  Rel m _ p q := Alike frames m p q
  Stops p q := ∀ m, Alike frames m p q
  Closes p q := (∀ m, Alike frames m p q) ∧ Finishes q
  zero _ _ _ h := absurd h (Nat.not_lt_zero _)
  mono hle h s hs := h s (Nat.lt_of_lt_of_le hs hle)
  pure _ a := .of_inside (inside_pure a)
  lift _ _ hx := .of_inside (inside_lift hx)
  bind := Alike.bind
  advance_bind hf hg _ h := .advance_bind hf hg h
  eatIf_ite _ := Alike.eatIf_ite
  notNull_ite := Alike.notNull_ite
  bounded h s hs := h (s.tokens.length + 1) hs _ (Nat.le_refl _) s (Nat.lt_succ_self _)
  peekIs _ := .of_inside fun _ => inside_of_ok rfl suffix_rfl
  eatMap _ := .of_inside (inside_eatMap _)
  placeholder _ := .of_inside inside_placeholder
  fail_of_peek _ _ _ := .of_inside (inside_bind (fun _ => inside_of_ok rfl suffix_rfl)
    fun _ => inside_lift nofun)
  consume _ := .of_inside fun _ => inside_of_ok rfl (dropWhile_suffix _)
  stops_of h := h
  stops_bind hp hf m := (hp m).bind fun a => hf a m
  stops_map _ hp m := (hp m).bind fun a => .of_inside (inside_pure _)
  stops_skip _ _ := .of_inside fun _ => inside_of_ok rfl (dropWhile_suffix _)
  stops_expect hp hf := (hp _).bind hf
  close_bind hp hf := ⟨fun m => (hp m).bind fun a => (hf a).1 m, .bind fun a => (hf a).2⟩
  close_fail _ := ⟨fun _ => .of_inside (inside_lift nofun), fun _ _ _ h => nomatch h⟩
  close_finish st := ⟨fun _ => .of_inside (inside_finish st), .finish st⟩
  close_peek := by
    intro f g e hf hg _ h
    constructor
    · intro m s hs
      have hpeek : peek s = (.ok s.tokens.head?, s) := rfl
      rw [Inside, bind_ok hpeek, bind_ok hpeek]
      cases s.tokens.head? with
      | none =>
        rw [hf, hg]
        exact ⟨⟨nofun, suffix_rfl⟩, fun _ => rfl⟩
      | some t => exact (h t).1 m s hs
    · refine .bind fun next => ?_
      cases next with
      | none =>
        rw [hg]
        exact fun _ _ _ h => nomatch h
      | some t => exact (h t).2
  close_ahead := by
    intro test p q p' q' _ hp hp'
    refine ⟨fun m => Alike.bind (.of_inside fun _ => inside_of_ok rfl suffix_rfl) fun next => ?_,
      .bind fun next => .ite hp.2 hp'.2⟩
    split
    · exact hp.1 m
    · exact hp'.1 m
  close_show := ⟨fun _ => .of_inside inside_show, finishes_show⟩

variable {d'' k : Nat}

/-- From `d` open parentheses, at most `k` at a time, the parsers do the same, and where they return
there are `d'` of them. -/
def AlikeTo (k d d' : Nat) (p q : Parser α) : Prop :=
  ∀ s, nestingFrom d s.tokens ≤ k → p s = q s ∧
    ∀ a s', q s = (.ok a, s') → nestingFrom d' s'.tokens ≤ k

theorem AlikeTo.bind (hp : AlikeTo k d d' p q) (hf : ∀ a, AlikeTo k d' d'' (f a) (g a)) :
    AlikeTo k d d'' (p >>= f) (q >>= g) := by
  intro s hs
  obtain ⟨hsame, hpost⟩ := hp s hs
  simp only [Bind.bind, Proc.bind, hsame]
  rcases hq : q s with ⟨a | e | _, s'⟩
  · exact hf a s' (hpost a s' hq)
  · exact ⟨rfl, by simp⟩
  · exact ⟨rfl, by simp⟩

theorem AlikeTo.ite {c : Prop} [Decidable c] {p' q' : Parser α} (hp : AlikeTo k d d' p q)
    (hp' : AlikeTo k d d' p' q') : AlikeTo k d d' (if c then p else p') (if c then q else q') := by
  split
  · exact hp
  · exact hp'

theorem AlikeTo.pure (a : α) : AlikeTo k d d (Pure.pure a : Parser α) (Pure.pure a) := by
  refine fun s hs => ⟨rfl, fun b s' h => ?_⟩
  cases h
  exact hs

theorem AlikeTo.peekIs (test : Token → Bool) : AlikeTo k d d (peekIs test) (peekIs test) := by
  refine fun s hs => ⟨rfl, fun b s' h => ?_⟩
  cases h
  exact hs

theorem nestingFrom_tail {t : Token} {ts : List Token} (h : nestingFrom d (t :: ts) ≤ k) :
    nestingFrom (depthAfter d t) ts ≤ k :=
  Nat.le_trans (Nat.le_max_right d _) h

theorem AlikeTo.eatIf {test : Token → Bool} (htest : ∀ t, test t = true → depthAfter d t = d) :
    AlikeTo k d d (eatIf test) (eatIf test) := by
  refine fun s hs => ⟨rfl, fun b s' h => ?_⟩
  rcases eatIf_cases test s with ⟨t, ts, htokens, ht, heat⟩ | ⟨-, heat⟩
  · rw [htokens] at hs
    have hrest := nestingFrom_tail hs
    rw [heat] at h
    cases h
    rwa [htest t ht] at hrest
  · rw [heat] at h
    cases h
    exact hs

theorem AlikeTo.expect {q : Token → Option α} {what : String}
    (hq : ∀ t a, q t = some a → depthAfter d t = d') :
    AlikeTo k d d' (expect q what) (expect q what) := by
  refine fun s hs => ⟨rfl, fun a s' h => ?_⟩
  obtain ⟨t, ts, htokens, ht, rfl⟩ := expect_eq_ok h
  rw [htokens] at hs
  have hrest := nestingFrom_tail hs
  rwa [hq t a ht] at hrest

theorem AlikeTo.punct {token : Token} (h : depthAfter d token = d') :
    AlikeTo k d d' (expectPunct token) (expectPunct token) := by
  refine .expect fun t a ht => ?_
  split at ht
  · rename_i heq
    rw [of_decide_eq_true heq, h]
  · cases ht

theorem AlikeTo.sepByComma {item item' : Parser α} (h : AlikeTo k d d item item') (fuel : Nat) :
    AlikeTo k d d (sepByComma item fuel) (sepByComma item' fuel) := by
  induction fuel with
  | zero => exact fun s _ => ⟨rfl, nofun⟩
  | succ fuel ih =>
    refine h.bind fun a => .bind (.eatIf fun t ht => ?_) fun more => .ite ?_ (.pure [a])
    · rw [of_decide_eq_true ht]
      rfl
    · exact ih.bind fun as => .pure (a :: as)

theorem AlikeTo.parseFunctionCall {argument argument' : Parser Expr}
    (h : AlikeTo k (d + 1) (d + 1) argument argument') (name : String) :
    AlikeTo k d d (parseFunctionCall argument name) (parseFunctionCall argument' name) := by
  have hclose (e : Expr) : AlikeTo k (d + 1) d (do expectPunct .rParen; Pure.pure e)
    (do expectPunct .rParen; Pure.pure e) := .bind (.punct rfl) fun _ => .pure e
  refine .bind (.punct rfl) fun _ => .bind (.eatIf fun t ht => ?_) fun star => .ite (hclose _) ?_
  · rw [of_decide_eq_true (Bool.and_eq_true_iff.mp ht).2]
    rfl
  · refine .bind (.bind (.peekIs _) fun empty => .ite (.pure []) ?_) fun args => hclose _
    exact fun s => (h.sepByComma (s.tokens.length + 1)) s

theorem AlikeTo.parseNamed {argument argument' : Parser Expr}
    (h : AlikeTo k (d + 1) (d + 1) argument argument') (name : String) :
    AlikeTo k d d (parseNamed argument name) (parseNamed argument' name) := by
  refine .ite (.pure _) (.ite (.pure _) (.bind (.peekIs _) fun call => .ite ?_ ?_))
  · exact .parseFunctionCall h name
  · have hident : AlikeTo k d d expectIdent expectIdent := by
      refine .expect fun t a ht => ?_
      cases t <;> first | rfl | cases ht
    have hdot : AlikeTo k d d (eat .dot) (eat .dot) := by
      refine .eatIf fun t ht => ?_
      rw [of_decide_eq_true ht]
      rfl
    exact .bind (hdot.bind fun dot => .ite (hident.bind fun _ => .pure _) (.pure _)) fun _ => .pure _

/-- A call that has a frame for every parenthesis that may be open does not ask for more. -/
theorem parseExprWith_alike {fuel fuel' : Nat} (h : k < d + fuel) (h' : k < d + fuel') :
    AlikeTo k d d (parseExprWith fuel) (parseExprWith fuel') := by
  induction fuel generalizing fuel' d with
  | zero => exact fun s hs => absurd (Nat.le_trans (le_nestingFrom d s.tokens) hs) (Nat.not_le.mpr h)
  | succ fuel ih =>
    intro s hs
    obtain ⟨fuel', rfl⟩ : ∃ n, fuel' = n + 1 := by
      refine Nat.exists_eq_add_one_of_ne_zero ?_
      rintro rfl
      exact absurd (Nat.le_trans (le_nestingFrom d s.tokens) hs) (Nat.not_le.mpr h')
    have hcall : AlikeTo k (d + 1) (d + 1) (parseExprWith fuel) (parseExprWith fuel') :=
      ih (by omega) (by omega)
    rw [parseExprWith, parseExprWith]
    cases htokens : s.tokens with
    | nil =>
      rw [bind_ok (advance_nil htokens), bind_ok (advance_nil htokens)]
      exact ⟨rfl, nofun⟩
    | cons t ts =>
      rw [htokens] at hs
      have hrest := nestingFrom_tail hs
      rw [bind_ok (advance_cons htokens), bind_ok (advance_cons htokens)]
      cases t with
      | ident name => exact hcall.parseNamed name _ hrest
      | placeholder =>
        refine ⟨rfl, fun a s' h => ?_⟩
        change parsePlaceholder _ = _ at h
        unfold parsePlaceholder at h
        split at h <;> cases h
        exact hrest
      | integer n => exact AlikeTo.pure _ _ hrest
      | decimal unscaled scale => exact AlikeTo.pure _ _ hrest
      | str x => exact AlikeTo.pure _ _ hrest
      | systemVariable name => exact AlikeTo.pure _ _ hrest
      | keyword keyword =>
        cases keyword with
        | null => exact AlikeTo.pure _ _ hrest
        | _ => exact ⟨rfl, nofun⟩
      | _ => exact ⟨rfl, nofun⟩

theorem parseExprWith_of_nesting {frames : Nat} {s : ParserState} (h : nesting s.tokens < frames) :
    parseExprWith frames s = parseExpr s := by
  have hle : nesting s.tokens ≤ 0 + s.tokens.length := nestingFrom_le 0 s.tokens
  exact (parseExprWith_alike (d := 0) (by omega) (by omega) s (Nat.le_refl (nesting s.tokens))).1

instance (frames : Nat) : Both (inside frames) (parseExprWith frames) parseExpr := by
  have hboth : Both (inside frames) parseExpr parseExpr := inferInstance
  exact ⟨fun m s hs => ⟨(hboth.upTo m s hs).1, fun hdeep => parseExprWith_of_nesting hdeep⟩⟩

theorem parseStatement_inside (s : ParserState) : Inside parseStatement s := by
  have hcloses : (inside 0).Closes parseStatement parseStatement := (inside 0).parseStatementOn
  exact (hcloses.1 (s.tokens.length + 1) s (Nat.lt_succ_self _)).1

theorem parseStatement_finishes : Finishes parseStatement := by
  have hcloses : (inside 0).Closes parseStatement parseStatement := (inside 0).parseStatementOn
  exact hcloses.2

end

end Parser

theorem parseStatementFrom_ne_panic (allowPlaceholders : Bool) (tokens : List Token) :
    parseStatementFrom allowPlaceholders tokens ≠ .panic := by
  unfold parseStatementFrom
  split
  · simp
  · simp
  · rename_i hpanic
    exact absurd (congrArg Prod.fst hpanic) (Parser.parseStatement_inside _).1

theorem parseMany_post (u : Unicode) (sql : String) : (parseMany u sql).Post (· ≠ []) := by
  have hsegment : ∀ segment, (Prod.fst <$> parseStatementFrom false segment).Post
      fun _ : Statement => True := fun segment =>
    (post_of_ne_panic (parseStatementFrom_ne_panic false segment)).map fun _ _ => trivial
  refine (post_of_ne_panic (tokenize_ne_panic u sql)).bind fun tokens _ => ?_
  refine (Post.mapM (R := fun _ _ => True) fun segment _ => hsegment segment).bind
    fun statements _ => ?_
  split
  · trivial
  · rename_i hne
    exact hne

end MysqlRust
