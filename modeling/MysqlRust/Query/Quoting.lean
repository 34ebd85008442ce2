import MysqlRust.Query.Lexer

/-! # Quoted texts and comments

A string, a quoted identifier and a comment reach to their own end, whatever they contain. So no
character in them is read as a token, and a semicolon token is a semicolon outside of them.
-/
namespace MysqlRust

open List Outcome

def doubled (quote : Char) (s : List Char) : List Char :=
  s.flatMap fun c => if c = quote then [quote, quote] else [c]

variable {body rest : List Char}

theorem scanQuoted_doubled (quote : Char) (s : List Char) (hrest : rest.head? ≠ some quote) :
    scanQuoted quote (doubled quote s ++ quote :: rest) = some (s, rest) := by
  induction s with
  | nil => exact scanQuoted_close hrest
  | cons c s ih =>
    have hcons : doubled quote (c :: s) ++ quote :: rest =
        (if c = quote then [quote, quote] else [c]) ++ (doubled quote s ++ quote :: rest) := by
      rw [doubled, flatMap_cons, append_assoc]
      rfl
    rw [hcons]
    by_cases hc : c = quote
    · rw [if_pos hc, hc, cons_append, scanQuoted.eq_def]
      dsimp only
      rw [if_pos rfl]
      dsimp only [cons_append, nil_append]
      rw [if_pos rfl, ih]
      rfl
    · rw [if_neg hc, cons_append, scanQuoted.eq_def]
      dsimp only
      rw [if_neg hc, nil_append, ih]
      rfl

theorem splitComment_append (h : ¬ ['*', '/'] <:+: body) (rest : List Char) :
    splitComment (body ++ '*' :: '/' :: rest) = some (body, rest) := by
  induction body with
  | nil => rfl
  | cons c body ih =>
    have hrest := ih fun hinner => h (hinner.trans (suffix_cons c body).isInfix)
    rw [cons_append, splitComment, hrest]
    · rfl
    · -- the comment does not end here
      intro rest' hc htext
      subst hc
      cases body with
      | nil => cases htext
      | cons d body =>
        cases htext
        exact h ⟨[], body, rfl⟩

theorem executableText_of_head (h : body.head? ≠ some '!') : executableText body = none := by
  unfold executableText
  split
  · exact absurd rfl h
  · rfl

theorem skipLine_append (hbody : '\n' ∉ body) (hrest : rest.head?.all (· = '\n') = true) :
    skipLine (body ++ rest) = rest := by
  have hall : ∀ c ∈ body, decide (c ≠ '\n') = true := by
    intro c hc
    refine decide_eq_true ?_
    rintro rfl
    exact hbody hc
  rw [skipLine, dropWhile_append_of_pos hall]
  cases rest with
  | nil => rfl
  | cons c rest =>
    have hc : c = '\n' := of_decide_eq_true hrest
    rw [dropWhile_cons_of_neg (by simp [hc])]

inductive Piece where
  | string (s : List Char)
  | quoted (name : List Char)
  | block (body : List Char)
  | hash (body : List Char)
  | dashes (body : List Char)

namespace Piece

def text : Piece → List Char
  | string s => '\'' :: (doubled '\'' s ++ ['\''])
  | quoted name => '\x60' :: (doubled '\x60' name ++ ['\x60'])
  | block body => '/' :: '*' :: (body ++ ['*', '/'])
  | hash body => '#' :: body
  | dashes body => '-' :: '-' :: body

def token : Piece → Option Token
  | string s => some (.str (String.ofList s))
  | quoted name => some (.ident (String.ofList name))
  | _ => none

/-- It ends here, before `rest`. A block comment that starts with an exclamation mark is none of
these: its text is executed. -/
def Closed (rest : List Char) : Piece → Prop
  | string _ => rest.head? ≠ some '\''
  | quoted name => name ≠ [] ∧ rest.head? ≠ some '\x60'
  | block body => body.head? ≠ some '!' ∧ ¬ ['*', '/'] <:+: body
  | hash body => '\n' ∉ body ∧ rest.head?.all (· = '\n')
  | dashes body => '\n' ∉ body ∧ rest.head?.all (· = '\n') ∧ body.head?.all isWhiteSpace

def turn (p : Piece) (rest : List Char) : Turn :=
  match p.token with
  | some t => .token t rest
  | none => .skip rest

variable {u : Unicode} {pos : Nat} {cs rest : List Char}

theorem turn_of_scanToken {t : Token} (hspace : cs.head?.any isWhiteSpace = false)
    (hslash : cs.head? ≠ some '/') (hcomment : startsLineComment cs = false)
    (h : scanToken u pos cs = .ok (t, rest)) : MysqlRust.turn u pos cs = .ok (.token t rest) := by
  rw [MysqlRust.turn, if_neg (by rw [hspace]; exact Bool.false_ne_true), if_neg fun h => hslash h.1,
    if_neg (by rw [hcomment]; exact Bool.false_ne_true), h]
  rfl

theorem turn_lineComment (hspace : cs.head?.any isWhiteSpace = false) (hslash : cs.head? ≠ some '/')
    (hcomment : startsLineComment cs = true) :
    MysqlRust.turn u pos cs = .ok (.skip (skipLine cs)) := by
  rw [MysqlRust.turn, if_neg (by rw [hspace]; exact Bool.false_ne_true), if_neg fun h => hslash h.1,
    if_pos hcomment]

/-- A turn reads exactly one piece of the text. -/
theorem turn_text (u : Unicode) (pos : Nat) {p : Piece} (h : p.Closed rest) :
    MysqlRust.turn u pos (p.text ++ rest) = .ok (p.turn rest) := by
  cases p with
  | string s =>
    have htext : (string s).text ++ rest = '\'' :: (doubled '\'' s ++ '\'' :: rest) := by
      simp [text]
    have hscan : scanToken u pos ('\'' :: (doubled '\'' s ++ '\'' :: rest)) =
        (scanStringLiteral (doubled '\'' s ++ '\'' :: rest) >>= fun scanned =>
          pure (.str (String.ofList scanned.1), scanned.2)) := rfl
    rw [scanStringLiteral, scanQuoted_doubled '\'' s h] at hscan
    rw [htext]
    exact turn_of_scanToken rfl (by simp) rfl hscan
  | quoted name =>
    have htext : (quoted name).text ++ rest = '\x60' :: (doubled '\x60' name ++ '\x60' :: rest) := by
      simp [text]
    have hscan : scanToken u pos ('\x60' :: (doubled '\x60' name ++ '\x60' :: rest)) =
        (scanBacktickIdent (doubled '\x60' name ++ '\x60' :: rest) >>= fun scanned =>
          pure (.ident (String.ofList scanned.1), scanned.2)) := rfl
    rw [scanBacktickIdent, scanQuoted_doubled '\x60' name h.2] at hscan
    dsimp only at hscan
    rw [if_neg h.1] at hscan
    rw [htext]
    exact turn_of_scanToken rfl (by simp) rfl hscan
  | block body =>
    have htext : (block body).text ++ rest = '/' :: '*' :: (body ++ '*' :: '/' :: rest) := by
      simp [text]
    have hspace (cs : List Char) : ¬ ('/' :: cs).head?.any isWhiteSpace = true := by
      rw [List.head?_cons]
      decide
    rw [htext, MysqlRust.turn, if_neg (hspace _), if_pos ⟨rfl, rfl⟩, tail_cons, tail_cons,
      splitComment_append h.2]
    dsimp only
    rw [executableText_of_head h.1]
    rfl
  | hash body =>
    have hline : '\n' ∉ (hash body).text := by simp [text, h.1]
    rw [turn_lineComment rfl (by simp [text]) rfl, skipLine_append hline h.2]
    rfl
  | dashes body =>
    have hline : '\n' ∉ (dashes body).text := by simp [text, h.1]
    have hstarts : startsLineComment ((dashes body).text ++ rest) = true := by
      cases body with
      | nil =>
        cases rest with
        | nil => rfl
        | cons c rest =>
          have hc : c = '\n' := of_decide_eq_true h.2.1
          rw [hc]
          rfl
      | cons c body => exact h.2.2
    rw [turn_lineComment rfl (by simp [text]) hstarts, skipLine_append hline h.2.1]
    rfl

theorem token_ne_semicolon (p : Piece) : p.token ≠ some .semicolon := by
  cases p <;> simp [token]

end Piece

section Semicolons
variable {cs rest : List Char} {u : Unicode} {pos : Nat}

theorem scanNumber_ne_semicolon : scanNumber cs ≠ .ok (.semicolon, rest) := by
  intro h
  unfold scanNumber at h
  dsimp only at h
  split at h
  · cases h
  · split at h <;>
    · obtain ⟨_, -, h⟩ := bind_eq_ok.mp h
      cases h

theorem scanSystemVariable_ne_semicolon : scanSystemVariable u pos cs ≠ .ok (.semicolon, rest) := by
  intro h
  unfold scanSystemVariable at h
  dsimp only at h
  split at h
  · cases h
  · split at h
    · split at h <;> cases h
    · cases h

theorem wordToken_ne_semicolon (word : List Char) : wordToken word ≠ .semicolon := by
  unfold wordToken
  split <;> exact nofun

theorem scanToken_semicolon (h : scanToken u pos cs = .ok (.semicolon, rest)) :
    cs = ';' :: rest := by
  unfold scanToken at h
  split at h
  case h_4 =>
    cases h
    rfl
  case h_16 =>
    obtain ⟨_, -, h⟩ := bind_eq_ok.mp h
    cases h
  case h_17 =>
    obtain ⟨_, -, h⟩ := bind_eq_ok.mp h
    cases h
  case h_18 => exact absurd h scanSystemVariable_ne_semicolon
  case h_20 =>
    split at h
    · exact absurd h scanNumber_ne_semicolon
    · split at h
      · exact absurd (Prod.mk.inj (ok.inj h)).1 (wordToken_ne_semicolon _)
      · cases h
  all_goals cases h

theorem turn_semicolon_iff : turn u pos cs = .ok (.token .semicolon rest) ↔ cs = ';' :: rest := by
  constructor
  · intro h
    unfold turn at h
    split_ifs at h
    · cases h
    · split at h
      · cases h
      · split at h <;> cases h
    · cases h
    · obtain ⟨⟨t, rest'⟩, hscan, h⟩ := bind_eq_ok.mp h
      cases h
      exact scanToken_semicolon hscan
  · rintro rfl
    rfl

end Semicolons

end MysqlRust
