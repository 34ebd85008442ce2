import Mathlib.Data.List.TakeWhile
import MysqlRust.Query.Quoting
import MysqlRust.Query.Substitution

/-! # The entry points of the parser

A text is parsed as one statement, as several between semicolons, or with placeholders allowed.
A run of one of the parsers is followed step by step by a run of the others.
-/
namespace MysqlRust

open Outcome Proc List

namespace Parser
variable {α β : Type}

section
variable {allow : Bool} {k m n : Nat}
variable {p q : Parser α} {test : Token → Bool}
variable {f g : α → Parser β} {p' q' : Parser α} {ts : List Token} {s' : ParserState}
  {what : String}

/-- The state of the first parser, which sees `k` semicolons behind the tokens of the second. -/
def cutState (k : Nat) (ts : List Token) : ParserState :=
  ⟨ts ++ replicate k .semicolon, false, 0⟩

/-- What the first parser returns, the second returns with the same tokens left, but for the
semicolons. -/
def Agrees (allow : Bool) (k m : Nat) (p q : Parser α) : Prop :=
  ∀ ts, (0 < k → Token.semicolon ∉ ts) → ts.length < m → ∀ a s', p (cutState k ts) = (.ok a, s') →
    ∃ ts', ts' <:+ ts ∧ s' = cutState k ts' ∧ q ⟨ts, allow, 0⟩ = (.ok a, ⟨ts', allow, 0⟩)

/-- As `Agrees`, unless the first parser skipped the semicolons at the end; then it has nothing
left. -/
def AgreesOrStops (allow : Bool) (k : Nat) (p q : Parser α) : Prop :=
  ∀ ts, (0 < k → Token.semicolon ∉ ts) → ∀ a s', p (cutState k ts) = (.ok a, s') →
    ∃ t', q ⟨ts, allow, 0⟩ = (.ok a, t') ∧
      ((∃ ts', ts' <:+ ts ∧ s' = cutState k ts' ∧ t' = ⟨ts', allow, 0⟩) ∨ s'.tokens = [])

/-- The statement that the first parser returns with all its tokens read, the second returns
without a placeholder; there was at most one semicolon. -/
def Closes (allow : Bool) (k : Nat) (p q : Parser Statement) : Prop :=
  ∀ ts, (0 < k → Token.semicolon ∉ ts) → ∀ st s', p (cutState k ts) = (.ok st, s') →
    ∃ t', q ⟨ts, allow, 0⟩ = (.ok st, t') ∧ t'.paramCount = 0 ∧ k ≤ 1

theorem not_mem_suffix {ts' : List Token} (h : ts' <:+ ts) (inner : 0 < k → Token.semicolon ∉ ts)
    (hk : 0 < k) : Token.semicolon ∉ ts' := fun hmem => inner hk (h.subset hmem)

theorem Agrees.mono (hle : m ≤ n) (h : Agrees allow k n p q) : Agrees allow k m p q :=
  fun ts inner bound => h ts inner (Nat.lt_of_lt_of_le bound hle)

theorem Agrees.pure (a : α) : Agrees allow k m (Pure.pure a : Parser α) (Pure.pure a) := by
  intro ts inner bound b s' hb
  cases hb
  exact ⟨ts, suffix_rfl, rfl, rfl⟩

theorem Agrees.lift (x : Result α) : Agrees allow k m (Proc.lift x : Parser α) (Proc.lift x) := by
  cases x with
  | ok a => exact .pure a
  | err e => exact fun _ _ _ _ _ h => nomatch h
  | panic => exact fun _ _ _ _ _ h => nomatch h

theorem Agrees.bind (hp : Agrees allow k m p q) (hf : ∀ a, Agrees allow k m (f a) (g a)) :
    Agrees allow k m (p >>= f) (q >>= g) := by
  intro ts inner bound b s'' hb
  obtain ⟨a, s', ha, hrest⟩ := bind_eq_ok hb
  obtain ⟨ts', hsuffix, rfl, hq⟩ := hp ts inner bound a s' ha
  obtain ⟨ts'', hsuffix', rfl, hg⟩ := hf a ts' (not_mem_suffix hsuffix inner)
    (Nat.lt_of_le_of_lt hsuffix.length_le bound) b s'' hrest
  exact ⟨ts'', hsuffix'.trans hsuffix, rfl, by rw [bind_ok hq]; exact hg⟩

/-- Behind a token that both have read, there is one less. -/
theorem Agrees.tail {t : Token} {b : α} (h : Agrees allow k m p q)
    (inner : 0 < k → Token.semicolon ∉ t :: ts) (bound : (t :: ts).length < m + 1)
    (hb : p (cutState k ts) = (.ok b, s')) :
    ∃ ts', ts' <:+ t :: ts ∧ s' = cutState k ts' ∧ q ⟨ts, allow, 0⟩ = (.ok b, ⟨ts', allow, 0⟩) := by
  obtain ⟨ts', hsuffix, rfl, hq⟩ := h ts (not_mem_suffix (suffix_cons t ts) inner)
    (Nat.lt_of_succ_lt_succ bound) b s' hb
  exact ⟨ts', hsuffix.trans (suffix_cons t ts), rfl, hq⟩

theorem Agrees.advance_bind {f g : Option Token → Parser α} {e : Error}
    (hf : f none = Proc.lift (.err e)) (hsemicolon : Fails (f (some .semicolon)))
    (h : ∀ t, Agrees allow k m (f (some t)) (g (some t))) :
    Agrees allow k (m + 1) (advance >>= f) (advance >>= g) := by
  intro ts inner bound b s' hb
  cases ts with
  | nil =>
    obtain ⟨e', he'⟩ := hsemicolon
    cases k with
    | zero =>
      rw [bind_ok (advance_nil rfl), hf] at hb
      cases hb
    | succ k =>
      rw [bind_ok (advance_cons rfl), he'] at hb
      cases hb
  | cons t ts =>
    rw [bind_ok (advance_cons rfl)] at hb ⊢
    exact (h t).tail inner bound hb

/-- What does not tell a semicolon from the end of the text sees the same in both states. -/
theorem lookahead {g : Option Token → β} (hg : g (some .semicolon) = g none) (ts : List Token)
    (k i : Nat) : g (cutState k ts).tokens[i]? = g ts[i]? := by
  by_cases hi : i < ts.length
  · exact congrArg g (getElem?_append_left hi)
  · have hle := Nat.le_of_not_lt hi
    rw [cutState, getElem?_append_right hle, getElem?_eq_none hle, getElem?_replicate]
    split_ifs
    · exact hg
    · rfl

theorem lookahead_head {g : Option Token → β} (hg : g (some .semicolon) = g none)
    (ts : List Token) (k : Nat) : g (cutState k ts).tokens.head? = g ts.head? := by
  rw [head?_eq_getElem?, head?_eq_getElem?, lookahead hg]

theorem Agrees.eatIf_ite (htest : test .semicolon = false) (hp : Agrees allow k m p q)
    (hp' : Agrees allow k (m + 1) p' q') :
    Agrees allow k (m + 1) (do if ← eatIf test then p else p')
      (do if ← eatIf test then q else q') := by
  intro ts inner bound b s' hb
  cases ts with
  | nil =>
    rw [bind_ok (eatIf_of_not (lookahead_head (g := (·.any test)) htest [] k))] at hb
    exact hp' [] inner bound b s' hb
  | cons t ts =>
    cases ht : test t with
    | true =>
      rw [bind_ok (eatIf_of_head rfl ht)] at hb ⊢
      exact hp.tail inner bound hb
    | false =>
      rw [bind_ok (eatIf_of_not (by simpa [cutState] using ht))] at hb ⊢
      exact hp' (t :: ts) inner bound b s' hb

theorem startsNotNull_append (ts : List Token) (k : Nat) :
    startsNotNull (cutState k ts).tokens = startsNotNull ts := by
  rw [startsNotNull, lookahead (g := (·.any (isIdentCi "NOT"))) rfl,
    lookahead (g := fun t => decide (t = some (.keyword .null))) rfl]
  rfl

theorem Agrees.notNull_ite (hp : Agrees allow k m p q) (hp' : Agrees allow k (m + 1) p' q') :
    Agrees allow k (m + 1) (onNotNull p p') (onNotNull q q') := by
  unfold onNotNull
  intro ts inner bound b s' hb
  rw [bind_ok (nextIsNotNull_eq _), startsNotNull_append] at hb
  rw [bind_ok (nextIsNotNull_eq _)]
  cases hstarts : startsNotNull ts with
  | false =>
    rw [hstarts] at hb
    exact hp' ts inner bound b s' hb
  | true =>
    rw [hstarts] at hb
    obtain ⟨t, t', rest, rfl⟩ := startsNotNull_cases hstarts
    have hsuffix : t' :: rest <:+ t :: t' :: rest := suffix_cons t _
    obtain ⟨ts', hrest, rfl, hq⟩ := hp.tail (not_mem_suffix hsuffix inner)
      (Nat.lt_of_succ_lt bound) hb
    exact ⟨ts', hrest.trans hsuffix, rfl, hq⟩

theorem Agrees.peekIs (htest : test .semicolon = false) :
    Agrees allow k m (peekIs test) (peekIs test) := by
  intro ts inner bound b s' hb
  cases hb
  exact ⟨ts, suffix_rfl, rfl, by rw [lookahead_head (g := (·.any test)) htest]; rfl⟩

theorem Agrees.eatMap {q : Token → Option α} (hq : q .semicolon = none) :
    Agrees allow k m (eatMap q) (eatMap q) := by
  intro ts inner bound b s' hb
  cases ts with
  | nil =>
    rw [eatMap_of_not (lookahead_head (g := (·.bind q)) hq [] k)] at hb
    cases hb
    exact ⟨[], suffix_rfl, rfl, rfl⟩
  | cons t ts =>
    cases hqt : q t with
    | none =>
      rw [eatMap_of_not (by simpa [cutState] using hqt)] at hb ⊢
      cases hb
      exact ⟨t :: ts, suffix_rfl, rfl, rfl⟩
    | some a =>
      rw [eatMap_of_head rfl hqt] at hb ⊢
      cases hb
      exact ⟨ts, suffix_cons t ts, rfl, rfl⟩

theorem skipUntil_append {test : Token → Bool} (htest : test .semicolon = true) {ts : List Token}
    (hts : 0 < k → ts.dropWhile (!test ·) = []) :
    (ts ++ replicate k Token.semicolon).dropWhile (!test ·) =
      ts.dropWhile (!test ·) ++ replicate k Token.semicolon := by
  cases k with
  | zero => simp
  | succ k =>
    have hnone := hts (Nat.succ_pos k)
    rw [dropWhile_append, if_pos (by simpa using hnone), hnone, replicate_succ,
      dropWhile_cons_of_neg (by simp [htest])]
    rfl

theorem Agrees.consume : Agrees allow k m consumeToStatementEnd consumeToStatementEnd := by
  intro ts inner bound b s' hb
  cases hb
  have hskipped : 0 < k → ts.dropWhile (fun t => !decide (t = Token.semicolon)) = [] := by
    intro hk
    refine dropWhile_eq_nil_iff.mpr fun t ht => ?_
    have hne : t ≠ .semicolon := fun heq => inner hk (heq ▸ ht)
    simp [hne]
  exact ⟨_, dropWhile_suffix _,
    congrArg (ParserState.mk · false 0) (skipUntil_append (by simp) hskipped), rfl⟩

theorem AgreesOrStops.of_agrees (h : ∀ m, Agrees allow k m p q) : AgreesOrStops allow k p q := by
  intro ts inner a s' ha
  obtain ⟨ts', hsuffix, rfl, hq⟩ := h (ts.length + 1) ts inner (Nat.lt_succ_self _) a s' ha
  exact ⟨_, hq, .inl ⟨ts', hsuffix, rfl, rfl⟩⟩

theorem AgreesOrStops.bind (hp : ∀ m, Agrees allow k m p q)
    (hf : ∀ a, AgreesOrStops allow k (f a) (g a)) : AgreesOrStops allow k (p >>= f) (q >>= g) := by
  intro ts inner b s'' hb
  obtain ⟨a, s', ha, hrest⟩ := bind_eq_ok hb
  obtain ⟨ts', hsuffix, rfl, hq⟩ := hp (ts.length + 1) ts inner (Nat.lt_succ_self _) a s' ha
  obtain ⟨t', hg, hend⟩ := hf a ts' (not_mem_suffix hsuffix inner) b s'' hrest
  rw [bind_ok hq]
  refine ⟨t', hg, hend.imp_left ?_⟩
  rintro ⟨ts'', hsuffix', hs'', ht'⟩
  exact ⟨ts'', hsuffix'.trans hsuffix, hs'', ht'⟩

theorem AgreesOrStops.map (f : α → β) (hp : AgreesOrStops allow k p q) :
    AgreesOrStops allow k (do let a ← p; pure (f a)) (do let a ← q; pure (f a)) := by
  intro ts inner b s'' hb
  obtain ⟨a, s', ha, hrest⟩ := bind_eq_ok hb
  cases hrest
  obtain ⟨t', hq, hend⟩ := hp ts inner a _ ha
  rw [bind_ok hq]
  exact ⟨t', rfl, hend⟩

theorem AgreesOrStops.skipUntil (htest : test .semicolon = false) :
    AgreesOrStops allow k (skipUntil test) (skipUntil test) := by
  intro ts inner a s' ha
  cases ha
  refine ⟨_, rfl, ?_⟩
  by_cases hnone : ts.dropWhile (!test ·) = []
  · right
    have hskip : ∀ t ∈ replicate k Token.semicolon, (!test t) = true := by
      intro t ht
      rw [eq_of_mem_replicate ht, htest]
      rfl
    have hall := dropWhile_eq_nil_iff.mp hnone
    exact dropWhile_eq_nil_iff.mpr fun t ht =>
      (mem_append.mp ht).elim (hall t) (hskip t)
  · left
    have hdrop : (ts ++ replicate k Token.semicolon).dropWhile (!test ·) =
        ts.dropWhile (!test ·) ++ replicate k Token.semicolon := by
      rw [dropWhile_append, if_neg (by simpa using hnone)]
    exact ⟨_, dropWhile_suffix _, congrArg (ParserState.mk · false 0) hdrop, rfl⟩

theorem Agrees.stops_expect {γ : Type} {q' : Token → Option γ} {f g : α → γ → Parser β}
    (hp : AgreesOrStops allow k p q)
    (hf : ∀ a, Agrees allow k m (expect q' what >>= f a) (expect q' what >>= g a)) :
    Agrees allow k m (p >>= fun a => expect q' what >>= f a)
      (q >>= fun a => expect q' what >>= g a) := by
  intro ts inner bound b s'' hb
  obtain ⟨a, s', ha, hrest⟩ := bind_eq_ok hb
  obtain ⟨t', hq, ⟨ts', hsuffix, rfl, rfl⟩ | hend⟩ := hp ts inner a s' ha
  · obtain ⟨ts'', hsuffix', rfl, hg⟩ := hf a ts' (not_mem_suffix hsuffix inner)
      (Nat.lt_of_le_of_lt hsuffix.length_le bound) b s'' hrest
    exact ⟨ts'', hsuffix'.trans hsuffix, rfl, by rw [bind_ok hq]; exact hg⟩
  · obtain ⟨_, _, hexpect, -⟩ := bind_eq_ok hrest
    obtain ⟨t, ts, htokens, -⟩ := expect_eq_ok hexpect
    rw [hend] at htokens
    cases htokens

theorem Closes.bind {f g : α → Parser Statement} (hp : ∀ m, Agrees allow k m p q)
    (hf : ∀ a, Closes allow k (f a) (g a)) : Closes allow k (p >>= f) (q >>= g) := by
  intro ts inner st s'' hst
  obtain ⟨a, s', ha, hrest⟩ := bind_eq_ok hst
  obtain ⟨ts', hsuffix, rfl, hq⟩ := hp (ts.length + 1) ts inner (Nat.lt_succ_self _) a s' ha
  rw [bind_ok hq]
  exact hf a ts' (not_mem_suffix hsuffix inner) st s'' hrest

theorem eatSemicolonAndEnsureEnd_eq_ok {s s' : ParserState}
    (h : eatSemicolonAndEnsureEnd s = (.ok (), s')) : s.tokens = [] ∨ s.tokens = [.semicolon] := by
  obtain ⟨b, s₁, heat, hend⟩ := bind_eq_ok h
  obtain ⟨hnil, -⟩ := ensureEnd_eq_ok hend
  rcases eatIf_cases (· = Token.semicolon) s with ⟨t, ts, hs, ht, heq⟩ | ⟨-, heq⟩
  · rw [eat, heq] at heat
    cases heat
    obtain rfl : ts = [] := hnil
    exact .inr (by rw [hs, of_decide_eq_true ht])
  · rw [eat, heq] at heat
    cases heat
    exact .inl hnil

theorem eatSemicolonAndEnsureEnd_of_tokens {s : ParserState}
    (h : s.tokens = [] ∨ s.tokens = [.semicolon]) :
    eatSemicolonAndEnsureEnd s = (.ok (), { s with tokens := [] }) := by
  obtain ⟨tokens, allow, count⟩ := s
  rcases h with rfl | rfl <;> rfl

theorem Closes.finish (st : Statement) :
    Closes allow k (do eatSemicolonAndEnsureEnd; pure st) (do eatSemicolonAndEnsureEnd; pure st) := by
  intro ts inner st' s'' hst
  obtain ⟨_, s', hend, hpure⟩ := bind_eq_ok hst
  cases hpure
  have htokens : (ts = [] ∨ ts = [.semicolon]) ∧ k ≤ 1 := by
    rcases eatSemicolonAndEnsureEnd_eq_ok hend with hnil | hone
    · obtain ⟨rfl, hk⟩ := append_eq_nil_iff.mp hnil
      rw [replicate_eq_nil_iff] at hk
      exact ⟨.inl rfl, by omega⟩
    · rcases append_eq_singleton_iff.mp hone with ⟨rfl, hk⟩ | ⟨rfl, hk⟩
      · have hlength := congrArg List.length hk
        rw [length_replicate, length_singleton] at hlength
        exact ⟨.inl rfl, by omega⟩
      · rw [replicate_eq_nil_iff] at hk
        exact ⟨.inr rfl, by omega⟩
  refine ⟨⟨[], allow, 0⟩, ?_, rfl, htokens.2⟩
  rw [bind_ok (eatSemicolonAndEnsureEnd_of_tokens htokens.1)]
  rfl

theorem Closes.consume (st : Statement) :
    Closes allow k (do consumeToStatementEnd; eatSemicolonAndEnsureEnd; pure st)
      (do consumeToStatementEnd; eatSemicolonAndEnsureEnd; pure st) :=
  .bind (fun _ => .consume) fun _ => .finish st

theorem Closes.peek_bind {f g : Option Token → Parser Statement} {e : Error}
    (hf : f none = Proc.lift (.err e)) (hsemicolon : Fails (f (some .semicolon)))
    (h : ∀ t, Closes allow k (f (some t)) (g (some t))) :
    Closes allow k (peek >>= f) (peek >>= g) := by
  have hpeek (s : ParserState) : peek s = (.ok s.tokens.head?, s) := rfl
  intro ts inner st s' hst
  rw [bind_ok (hpeek _)] at hst ⊢
  cases ts with
  | nil =>
    obtain ⟨e', he'⟩ := hsemicolon
    cases k with
    | zero =>
      change f none _ = _ at hst
      rw [hf] at hst
      cases hst
    | succ k =>
      change f (some .semicolon) _ = _ at hst
      rw [he'] at hst
      cases hst
  | cons t ts => exact h t (t :: ts) inner st s' hst

theorem Closes.ahead {p q p' q' : Parser Statement} (htest : test .semicolon = false)
    (hp : Closes allow k p q) (hp' : Closes allow k p' q') :
    Closes allow k (do let next ← peekAt 1; if next.any test then p else p')
      (do let next ← peekAt 1; if next.any test then q else q') := by
  have hpeekAt (s : ParserState) : peekAt 1 s = (.ok s.tokens[1]?, s) := rfl
  intro ts inner st s' hst
  rw [bind_ok (hpeekAt _)] at hst ⊢
  rw [lookahead (g := (·.any test)) htest] at hst
  dsimp only
  split_ifs at hst ⊢
  · exact hp ts inner st s' hst
  · exact hp' ts inner st s' hst

theorem Agrees.expect {q : Token → Option α} (hq : q .semicolon = none) {what : String} (m : Nat) :
    Agrees allow k m (expect q what) (expect q what) := by
  refine .mono (Nat.le_succ m) (.advance_bind rfl ?_ fun t => ?_)
  · rw [Option.bind_some, hq]
    exact ⟨_, rfl⟩
  · cases hqt : (some t).bind q with
    | none => exact .lift _
    | some a => exact .pure a

theorem Closes.optionalLike : Closes allow k
    (do
      let like ← parseOptionalLike
      consumeToStatementEnd
      eatSemicolonAndEnsureEnd
      pure (.showStatement (.variables like)))
    (do
      let like ← parseOptionalLike
      consumeToStatementEnd
      eatSemicolonAndEnsureEnd
      pure (.showStatement (.variables like))) := by
  refine .bind (fun m => ?_) fun _ => .consume _
  refine .mono (Nat.le_succ m) (.eatIf_ite rfl ?_ (.pure none))
  exact (Agrees.expect rfl m).bind fun _ => .pure _

theorem Closes.show : Closes allow k parseShow parseShow := by
  refine .bind (.expect rfl) fun _ ts inner st s' hst => ?_
  have hpeek (s : ParserState) : peek s = (.ok s.tokens.head?, s) := rfl
  have hpeekAt (s : ParserState) : peekAt 1 s = (.ok s.tokens[1]?, s) := rfl
  rw [bind_ok (hpeek _), bind_ok (hpeekAt _)] at hst ⊢
  rw [lookahead_head (g := (·.bind identName)) rfl,
    lookahead (g := showStatementOf _) (by simp [showStatementOf])] at hst
  dsimp only
  split_ifs at hst ⊢ with hword
  · -- the word is there for both parsers
    cases ts with
    | nil => simp at hword
    | cons t ts =>
      rw [bind_ok (bump_cons rfl)] at hst ⊢
      exact Closes.optionalLike ts (not_mem_suffix (suffix_cons t ts) inner) st s' hst
  · exact Closes.consume _ ts inner st s' hst

/-- The first parser sees the semicolons behind the text and takes no placeholder. -/
def cut (allow : Bool) (k : Nat) : Walk where
  Rel m _ p q := Agrees allow k m p q
  Stops p q := AgreesOrStops allow k p q
  Closes := Closes allow k
  zero _ _ _ _ bound := absurd bound (Nat.not_lt_zero _)
  mono := Agrees.mono
  pure _ a := .pure a
  lift _ x _ := .lift x
  bind := Agrees.bind
  advance_bind hf _ := Agrees.advance_bind hf
  eatIf_ite := Agrees.eatIf_ite
  notNull_ite := Agrees.notNull_ite
  bounded := by
    intro α m loop loop' h ts inner bound a s' ha
    have hfuel : (cutState k ts).tokens.length + 1 ≥ ts.length + 1 := by
      rw [cutState, length_append]
      omega
    exact h (ts.length + 1) bound _ hfuel ts inner (Nat.lt_succ_self _) a s' ha
  peekIs := Agrees.peekIs
  eatMap := Agrees.eatMap
  placeholder _ _ _ _ _ _ ha := nomatch ha
  fail_of_peek _ _ _ _ _ _ _ _ ha := nomatch ha
  consume _ := .consume
  stops_of := AgreesOrStops.of_agrees
  stops_bind := AgreesOrStops.bind
  stops_map := AgreesOrStops.map
  stops_skip := AgreesOrStops.skipUntil
  stops_expect := Agrees.stops_expect
  close_bind := Closes.bind
  close_fail _ _ _ _ _ h := nomatch h
  close_finish := .finish
  close_peek hf _ := Closes.peek_bind hf
  close_ahead := Closes.ahead
  close_show := .show

theorem parseStatement_closes (allow : Bool) (k : Nat) : Closes allow k parseStatement parseStatement :=
  (cut allow k).parseStatementOn

end

end Parser

section Segments
variable {ts tokens : List Token} {st : Statement}
variable {k : Nat} {u : Unicode} {sql : String}

def segments (tokens : List Token) : List (List Token) :=
  (tokens.splitOn .semicolon).filter (· ≠ [])

theorem segments_of_not_mem (hne : ts ≠ []) (h : Token.semicolon ∉ ts) : segments ts = [ts] := by
  rw [segments, splitOn_eq_singleton h, filter_cons_of_pos (by simpa using hne)]
  rfl

theorem segments_append_cons {rest : List Token} (hne : ts ≠ []) (h : Token.semicolon ∉ ts) :
    segments (ts ++ .semicolon :: rest) = ts :: segments rest := by
  rw [segments, splitOn_append_cons_self_of_not_mem h, filter_cons_of_pos (by simpa using hne)]
  rfl

theorem eq_replicate_of_segments (h : segments ts = []) : ts = replicate ts.length .semicolon := by
  induction ts with
  | nil => rfl
  | cons t ts ih =>
    rw [segments, splitOn_cons_eq_if_modifyHead] at h
    by_cases ht : t = .semicolon
    · rw [if_pos (by simp [ht]), filter_cons_of_neg (by simp)] at h
      rw [length_cons, replicate_succ, ← ih h, ht]
    · -- a token that is no semicolon is in a segment
      obtain ⟨segment, rest, hsplit⟩ :=
        exists_cons_of_ne_nil (splitOn_ne_nil Token.semicolon ts)
      rw [if_neg (by simpa using ht), hsplit, modifyHead_cons, filter_cons_of_pos (by simp)] at h
      cases h

theorem parseStatementFrom_cut (allow : Bool) (inner : 0 < k → Token.semicolon ∉ ts) {n : Nat}
    (h : parseStatementFrom false (ts ++ replicate k .semicolon) = .ok (st, n)) :
    parseStatementFrom allow ts = .ok (st, 0) ∧ k ≤ 1 := by
  obtain ⟨s, hparse, -⟩ := parseStatementFrom_eq_ok.mp h
  obtain ⟨t, hparse', hcount, hk⟩ := Parser.parseStatement_closes allow k ts inner st s hparse
  exact ⟨parseStatementFrom_eq_ok.mpr ⟨t, hparse', hcount⟩, hk⟩

theorem parseTokens_eq_ok : parseTokens tokens = .ok st ↔
    tokens ≠ [] ∧ Prod.fst <$> parseStatementFrom false tokens = .ok st := by
  rw [parseTokens]
  by_cases hne : tokens = []
  · subst hne
    exact iff_of_false (fun h => by cases h) fun h => h.1 rfl
  · rw [nonEmpty_of_ne_nil hne, ok_bind, and_iff_right hne]

theorem parseMany_eq_ok (htokens : tokenize u sql = .ok tokens) {statements : List Statement} :
    parseMany u sql = .ok statements ↔ statements ≠ [] ∧
      Forall₂ (fun segment st => parseTokens segment = .ok st) (segments tokens) statements := by
  have hne : ∀ segment ∈ segments tokens, segment ≠ [] := by
    intro segment hsegment
    exact of_decide_eq_true (mem_filter.mp hsegment).2
  simp only [parseTokens_eq_ok]
  rw [forall₂_and_left, and_iff_right hne, ← mapM_eq_ok, parseMany, htokens, ok_bind]
  change (segments tokens).mapM _ >>= _ = _ ↔ _
  rw [Outcome.bind_eq_ok]
  constructor
  · rintro ⟨sts, hsts, h⟩
    split_ifs at h with hnil
    cases h
    exact ⟨hnil, hsts⟩
  · rintro ⟨hnil, hsts⟩
    exact ⟨statements, hsts, if_neg hnil⟩

theorem parse_eq_ok : parse u sql = .ok st ↔
    ∃ tokens, tokenize u sql = .ok tokens ∧ parseTokens tokens = .ok st :=
  bind_eq_ok

/-- A statement that is followed by semicolons is one without them, if there is only one. -/
theorem parseTokens_cut (hne : ts ≠ []) (hts : Token.semicolon ∉ ts)
    (h : parseTokens (ts ++ replicate k .semicolon) = .ok st) :
    parseTokens ts = .ok st ∧ k ≤ 1 := by
  obtain ⟨⟨st', n⟩, hparse, rfl⟩ := map_eq_ok.mp (parseTokens_eq_ok.mp h).2
  obtain ⟨hcut, hk⟩ := parseStatementFrom_cut false (fun _ => hts) hparse
  exact ⟨parseTokens_eq_ok.mpr ⟨hne, by rw [hcut]; rfl⟩, hk⟩

/-- A text that is one statement is also the only one between its semicolons, unless one of them
is not at the end. -/
theorem parseTokens_segments_iff (h : parseTokens tokens = .ok st) :
    Forall₂ (fun segment st => parseTokens segment = .ok st) (segments tokens) [st] ↔
      Token.semicolon ∉ tokens.dropLast := by
  have hne := (parseTokens_eq_ok.mp h).1
  by_cases hmem : Token.semicolon ∈ tokens
  · obtain ⟨ts, rest, rfl, hts⟩ := eq_append_cons_of_mem hmem
    have hstart : ts ≠ [] := by
      rintro rfl
      cases h
    rw [segments_append_cons hstart hts]
    constructor
    · intro hsegments
      have hlength := hsegments.length_eq
      rw [length_cons, length_singleton, Nat.succ_inj, length_eq_zero_iff] at hlength
      rw [eq_replicate_of_segments hlength, ← replicate_succ] at h
      obtain ⟨-, hone⟩ := parseTokens_cut hstart hts h
      obtain rfl : rest = [] := length_eq_zero_iff.mp (by omega)
      rwa [dropLast_concat]
    · intro hlast
      have hrest : rest = [] := by
        by_contra hrest
        rw [dropLast_append_of_ne_nil (cons_ne_nil _ _), dropLast_cons_of_ne_nil hrest] at hlast
        exact hlast (mem_append_right _ mem_cons_self)
      subst hrest
      exact .cons (parseTokens_cut (k := 1) hstart hts h).1 .nil
  · rw [segments_of_not_mem hne hmem]
    exact iff_of_true (.cons h .nil) fun hlast => hmem (dropLast_subset _ hlast)

/-- The three entry points of the parser. What parses as one statement also parses with
placeholders allowed and has none, and it is the only statement of its text exactly when no
semicolon token but the last token of the text is one. Statements between semicolons are those of
their tokens. A semicolon in a string, a quoted identifier or a plain comment is no token. -/
theorem parse_entryPoints_agree (u : Unicode) (sql : String) :
    (∀ st, parse u sql = .ok st → parsePrepared u sql = .ok (st, 0) ∧
      ∃ tokens, tokenize u sql = .ok tokens ∧
        (parseMany u sql = .ok [st] ↔ Token.semicolon ∉ tokens.dropLast)) ∧
    (∀ statements, parseMany u sql = .ok statements → ∃ tokens, tokenize u sql = .ok tokens ∧
      Forall₂ (fun segment st => parseTokens segment = .ok st) (segments tokens)
        statements) ∧
    (∀ pos cs rest, turn u pos cs = .ok (.token .semicolon rest) ↔ cs = ';' :: rest) ∧
    ∀ pos (p : Piece) rest, p.Closed rest →
      turn u pos (p.text ++ rest) = .ok (p.turn rest) ∧ p.token ≠ some .semicolon := by
  refine ⟨fun st hst => ?_, fun statements hmany => ?_, fun _ _ _ => turn_semicolon_iff,
    fun pos p rest hp => ⟨p.turn_text u pos hp, p.token_ne_semicolon⟩⟩
  · obtain ⟨tokens, htokens, hparse⟩ := parse_eq_ok.mp hst
    obtain ⟨hne, hfrom⟩ := parseTokens_eq_ok.mp hparse
    obtain ⟨⟨st', n⟩, hrun, rfl⟩ := map_eq_ok.mp hfrom
    refine ⟨?_, tokens, htokens, ?_⟩
    · have hwhole : parseStatementFrom false (tokens ++ replicate 0 .semicolon) = .ok (st', n) := by
        rwa [replicate_zero, append_nil]
      obtain ⟨hprepared, -⟩ := parseStatementFrom_cut true (fun h => absurd h (lt_irrefl 0)) hwhole
      rw [parsePrepared, htokens, ok_bind, parsePreparedTokens, nonEmpty_of_ne_nil hne,
        ok_bind, hprepared]
    · rw [parseMany_eq_ok htokens, and_iff_right (cons_ne_nil _ _), parseTokens_segments_iff hparse]
  · obtain ⟨tokens, htokens, -⟩ := bind_eq_ok.mp hmany
    exact ⟨tokens, htokens, ((parseMany_eq_ok htokens).mp hmany).2⟩

/-- A text of two statements, with a semicolon in a string. -/
theorem parse_entryPoints_two : ∃ st,
    parse .ascii "SELECT ';';" = .ok st ∧ parsePrepared .ascii "SELECT ';';" = .ok (st, 0) ∧
    parseMany .ascii "SELECT ';';" = .ok [st] ∧
    ∃ statements, parseMany .ascii "SELECT ';'; COMMIT;" = .ok statements ∧
      Forall₂ (fun segment st => parseTokens segment = .ok st)
        [[.keyword .select, .str ";"], [.keyword .commit]] statements := by
  have htokens : tokenize .ascii "SELECT ';';" =
      .ok [.keyword .select, .str ";", .semicolon] := by decide +kernel
  have htwo : tokenize .ascii "SELECT ';'; COMMIT;" = .ok [.keyword .select, .str ";",
      .semicolon, .keyword .commit, .semicolon] := by decide +kernel
  have hone : (parseTokens [.keyword .select, .str ";", .semicolon]).isOk = true := by
    decide +kernel
  obtain ⟨st, hst⟩ := isOk_iff.mp hone
  have hparse : parse .ascii "SELECT ';';" = .ok st := parse_eq_ok.mpr ⟨_, htokens, hst⟩
  obtain ⟨hprepared, tokens, htokens', hmany⟩ :=
    (parse_entryPoints_agree .ascii "SELECT ';';").1 _ hparse
  cases htokens.symm.trans htokens'
  have hok : (parseMany .ascii "SELECT ';'; COMMIT;").isOk = true := by
    rw [parseMany, htwo]
    decide +kernel
  obtain ⟨statements, hstatements⟩ := isOk_iff.mp hok
  obtain ⟨tokens, htokens'', hsegments⟩ :=
    (parse_entryPoints_agree .ascii "SELECT ';'; COMMIT;").2.1 _ hstatements
  cases htwo.symm.trans htokens''
  exact ⟨st, hparse, hprepared, hmany.mpr (by decide), statements, hstatements, hsegments⟩

def foreignKeyTokens : List Token :=
  [.keyword .create, .keyword .table, .ident "t", .lParen, .ident "a", .ident "INT", .comma,
    .ident "FOREIGN", .keyword .key, .lParen, .ident "a", .rParen, .ident "REFERENCES", .ident "p",
    .lParen, .ident "b", .rParen, .semicolon, .rParen]

/-- The rest of a foreign key is skipped with the semicolons in it. -/
theorem parse_foreignKey_semicolon : ∃ st,
    parse .ascii "CREATE TABLE t (a INT, FOREIGN KEY (a) REFERENCES p (b) ; )" = .ok st ∧
    parseMany .ascii "CREATE TABLE t (a INT, FOREIGN KEY (a) REFERENCES p (b) ; )" ≠ .ok [st] := by
  have htokens : tokenize .ascii "CREATE TABLE t (a INT, FOREIGN KEY (a) REFERENCES p (b) ; )" =
      .ok foreignKeyTokens := by decide +kernel
  have hparse : (parseTokens foreignKeyTokens).isOk = true := by decide +kernel
  obtain ⟨st, hst⟩ := isOk_iff.mp hparse
  refine ⟨st, parse_eq_ok.mpr ⟨_, htokens, hst⟩, fun hmany => ?_⟩
  have hsegments : (segments foreignKeyTokens).length = 1 :=
    ((parseMany_eq_ok htokens).mp hmany).2.length_eq
  exact absurd hsegments (by decide +kernel)

end Segments

end MysqlRust
