import Mathlib.Data.List.TakeDrop
import MysqlRust.Storage.Value

/-! # Tokens of a query text

One step of the loop skips white space or a comment, unwraps an executable comment, or scans a
token. Which characters are letters or numbers is taken from Unicode; only its ASCII part is fixed.
-/
namespace MysqlRust

open Outcome List

inductive Keyword where
  | create | alter | table | insert | into | values | select | fromKw | whereKw | null | primary
  | key | begin | start | transaction | commit | rollback | set | use | showKw | asKw | drop
  | order | byKw | limit | group | join | left | on | inner | outer
  deriving DecidableEq, Repr

namespace Keyword

def text : Keyword → String
  | create => "CREATE"
  | alter => "ALTER"
  | table => "TABLE"
  | insert => "INSERT"
  | into => "INTO"
  | values => "VALUES"
  | select => "SELECT"
  | fromKw => "FROM"
  | whereKw => "WHERE"
  | null => "NULL"
  | primary => "PRIMARY"
  | key => "KEY"
  | begin => "BEGIN"
  | start => "START"
  | transaction => "TRANSACTION"
  | commit => "COMMIT"
  | rollback => "ROLLBACK"
  | set => "SET"
  | use => "USE"
  | showKw => "SHOW"
  | asKw => "AS"
  | drop => "DROP"
  | order => "ORDER"
  | byKw => "BY"
  | limit => "LIMIT"
  | group => "GROUP"
  | join => "JOIN"
  | left => "LEFT"
  | on => "ON"
  | inner => "INNER"
  | outer => "OUTER"

def all : List Keyword :=
  [create, alter, table, insert, into, values, select, fromKw, whereKw, null, primary, key, begin,
    start, transaction, commit, rollback, set, use, showKw, asKw, order, byKw, limit, group, drop,
    join, left, on, inner, outer]

end Keyword

def keywordFromIdent (word : List Char) : Option Keyword :=
  Keyword.all.find? fun k => k.text.toList = toAsciiUppercase word

inductive Token where
  | keyword (k : Keyword)
  | ident (name : String)
  | systemVariable (name : String)
  | integer (n : Int64)
  | decimal (unscaled : Int64) (scale : UInt8)
  | str (s : String)
  | comma
  | lParen
  | rParen
  | semicolon
  | star
  | eq
  | notEq
  | lt
  | gt
  | le
  | ge
  | dot
  | placeholder
  deriving DecidableEq, Repr

def Token.text : Token → String
  | keyword k => k.text
  | ident name => name
  | systemVariable name => "@@" ++ name
  | integer n => i64ToString n
  | decimal unscaled scale => formatDecimal unscaled scale
  | str s => "'" ++ s ++ "'"
  | comma => ","
  | lParen => "("
  | rParen => ")"
  | semicolon => ";"
  | star => "*"
  | eq => "="
  | notEq => "<>"
  | lt => "<"
  | gt => ">"
  | le => "<="
  | ge => ">="
  | dot => "."
  | placeholder => "?"

def describe : Option Token → String
  | none => "end of input"
  | some t => "'" ++ t.text ++ "'"

structure Unicode where
  isAlphabetic : Char → Bool
  isNumeric : Char → Bool
  isAlphabetic_ascii : ∀ c, c.toNat < 128 → isAlphabetic c = c.isAlpha
  isNumeric_ascii : ∀ c, c.toNat < 128 → isNumeric c = c.isDigit

def Unicode.ascii : Unicode where
  isAlphabetic := Char.isAlpha
  isNumeric := Char.isDigit
  isAlphabetic_ascii _ _ := rfl
  isNumeric_ascii _ _ := rfl

def Unicode.isIdentChar (u : Unicode) (c : Char) : Bool :=
  u.isAlphabetic c || u.isNumeric c || c = '_'

section

def scanIdent (u : Unicode) (cs : List Char) : List Char × List Char := cs.span u.isIdentChar

def scanQuoted (quote : Char) : List Char → Option (List Char × List Char)
  | [] => none
  | c :: cs =>
    if c = quote then
      match cs with
      | [] => some ([], [])
      | d :: ds =>
        if d = quote then (fun p => (quote :: p.1, p.2)) <$> scanQuoted quote ds
        else some ([], d :: ds)
    else (fun p => (c :: p.1, p.2)) <$> scanQuoted quote cs

theorem scanQuoted_close {quote : Char} {rest : List Char} (h : rest.head? ≠ some quote) :
    scanQuoted quote (quote :: rest) = some ([], rest) := by
  rw [scanQuoted.eq_def]
  dsimp only
  rw [if_pos rfl]
  cases rest with
  | nil => rfl
  | cons d ds => exact if_neg fun heq => h (congrArg some heq)

def scanBacktickIdent (cs : List Char) : Result (List Char × List Char) :=
  match scanQuoted '\x60' cs with
  | none => .err (.parse "unterminated `identifier`")
  | some (name, rest) =>
    if name = [] then .err (.parse "empty `` identifier") else .ok (name, rest)

def scanStringLiteral (cs : List Char) : Result (List Char × List Char) :=
  match scanQuoted '\'' cs with
  | none => .err (.parse "unterminated string literal")
  | some (s, rest) => .ok (s, rest)

/-- The fraction after a number's digits; a point that no digit follows starts none. -/
def scanFraction : List Char → Option (List Char × List Char)
  | '.' :: c :: cs => if c.isDigit then some ((c :: cs).span Char.isDigit) else none
  | _ => none

def scanDigits (cs : List Char) : List Char × List Char :=
  (if cs.head? = some '-' then cs.tail else cs).span Char.isDigit

def scanNumber (cs : List Char) : Result (Token × List Char) :=
  let negative := cs.head? = some '-'
  let (intText, rest) := scanDigits cs
  if intText = [] then .err (.parse "expected digits in numeric literal")
  else
    match scanFraction rest with
    | some (fracText, rest) => do
      let unscaled ← okOr
        (.parse s!"decimal literal '{String.ofList intText}.{String.ofList fracText}' out of range")
        (parseI64 (String.ofList (intText ++ fracText)))
      -- the cast to `u8` keeps the low bits of the number of digits
      pure (.decimal (if negative then -unscaled else unscaled) (UInt8.ofNat fracText.length), rest)
    | none => do
      let text := String.ofList ((if negative then ['-'] else []) ++ intText)
      let value ← okOr (.parse s!"integer literal '{text}' out of range") (parseI64 text)
      pure (.integer value, rest)

def numberToken (negative : Prop) [Decidable negative] (intText : List Char) :
    Option (List Char) → Result Token
  | some fracText => do
    let unscaled ← okOr
      (.parse s!"decimal literal '{String.ofList intText}.{String.ofList fracText}' out of range")
      (parseI64 (String.ofList (intText ++ fracText)))
    pure (.decimal (if negative then -unscaled else unscaled) (UInt8.ofNat fracText.length))
  | none => do
    let text := String.ofList ((if negative then ['-'] else []) ++ intText)
    let value ← okOr (.parse s!"integer literal '{text}' out of range") (parseI64 text)
    pure (.integer value)

theorem scanNumber_eq (cs : List Char) : scanNumber cs =
    if (scanDigits cs).1 = [] then .err (.parse "expected digits in numeric literal")
    else match scanFraction (scanDigits cs).2 with
      | some (fracText, rest) =>
        (·, rest) <$> numberToken (cs.head? = some '-') (scanDigits cs).1 (some fracText)
      | none =>
        (·, (scanDigits cs).2) <$> numberToken (cs.head? = some '-') (scanDigits cs).1 none := by
  unfold scanNumber numberToken
  dsimp only
  split
  · rfl
  · split <;> simp only [map_bind, map_pure]

def scanSystemVariable (u : Unicode) (pos : Nat) (cs : List Char) : Result (Token × List Char) :=
  let (name, rest) := scanIdent u cs
  if name = [] then .err (.parse s!"expected an identifier after '@@' at position {pos}")
  else
    match rest with
    | '.' :: more =>
      let (second, rest') := scanIdent u more
      if second = [] then .ok (.systemVariable (String.ofList name), rest)
      else .ok (.systemVariable (String.ofList (name ++ '.' :: second)), rest')
    | _ => .ok (.systemVariable (String.ofList name), rest)

theorem scanSystemVariable_dot {u : Unicode} (pos : Nat) {cs name more : List Char}
    (h : scanIdent u cs = (name, '.' :: more)) (hname : name ≠ []) :
    scanSystemVariable u pos cs =
      if (scanIdent u more).1 = [] then .ok (.systemVariable (String.ofList name), '.' :: more)
      else .ok (.systemVariable (String.ofList (name ++ '.' :: (scanIdent u more).1)),
        (scanIdent u more).2) := by
  simp only [scanSystemVariable, h, if_neg hname]

theorem scanSystemVariable_plain {u : Unicode} (pos : Nat) {cs name rest : List Char}
    (h : scanIdent u cs = (name, rest)) (hname : name ≠ []) (hdot : rest.head? ≠ some '.') :
    scanSystemVariable u pos cs = .ok (.systemVariable (String.ofList name), rest) := by
  simp only [scanSystemVariable, h, if_neg hname]
  split
  · exact absurd rfl hdot
  · rfl

def wordToken (word : List Char) : Token :=
  match keywordFromIdent word with
  | some k => .keyword k
  | none => .ident (String.ofList word)

def scanToken (u : Unicode) (pos : Nat) : List Char → Result (Token × List Char)
  | ',' :: cs => .ok (.comma, cs)
  | '(' :: cs => .ok (.lParen, cs)
  | ')' :: cs => .ok (.rParen, cs)
  | ';' :: cs => .ok (.semicolon, cs)
  | '.' :: cs => .ok (.dot, cs)
  | '*' :: cs => .ok (.star, cs)
  | '?' :: cs => .ok (.placeholder, cs)
  | '=' :: cs => .ok (.eq, cs)
  | '<' :: '=' :: cs => .ok (.le, cs)
  | '<' :: '>' :: cs => .ok (.notEq, cs)
  | '<' :: cs => .ok (.lt, cs)
  | '>' :: '=' :: cs => .ok (.ge, cs)
  | '>' :: cs => .ok (.gt, cs)
  | '!' :: '=' :: cs => .ok (.notEq, cs)
  | '!' :: _ => .err (.parse s!"unexpected character '!' at position {pos}")
  | '\'' :: cs => do
    let (s, rest) ← scanStringLiteral cs
    pure (.str (String.ofList s), rest)
  | '\x60' :: cs => do
    let (name, rest) ← scanBacktickIdent cs
    pure (.ident (String.ofList name), rest)
  | '@' :: '@' :: cs => scanSystemVariable u pos cs
  | '@' :: cs =>
    let (name, rest) := scanIdent u cs
    .ok (.ident (String.ofList ('@' :: name)), rest)
  | c :: cs =>
    if c.isDigit ∨ (c = '-' ∧ cs.head?.any Char.isDigit) then scanNumber (c :: cs)
    else if u.isAlphabetic c ∨ c = '_' then
      let (word, rest) := scanIdent u (c :: cs)
      .ok (wordToken word, rest)
    else .err (.parse s!"unexpected character '{c}' at position {pos}")
  | [] => .panic

section Lookahead
variable {u : Unicode} {pos : Nat} {cs : List Char}

theorem scanToken_lt (heq : cs.head? ≠ some '=') (hgt : cs.head? ≠ some '>') :
    scanToken u pos ('<' :: cs) = .ok (.lt, cs) := by
  rw [scanToken]
  · rintro _ rfl
    exact heq rfl
  · rintro _ rfl
    exact hgt rfl

theorem scanToken_gt (heq : cs.head? ≠ some '=') : scanToken u pos ('>' :: cs) = .ok (.gt, cs) := by
  rw [scanToken]
  rintro _ rfl
  exact heq rfl

theorem scanToken_at (hat : cs.head? ≠ some '@') : scanToken u pos ('@' :: cs) =
    .ok (.ident (String.ofList ('@' :: (scanIdent u cs).1)), (scanIdent u cs).2) := by
  rw [scanToken]
  rintro _ rfl
  exact hat rfl

def tokenStarts : List Char :=
  [',', '(', ')', ';', '.', '*', '?', '=', '<', '>', '!', '\'', '\x60', '@']

theorem scanToken_other {c : Char} (hc : c ∉ tokenStarts) : scanToken u pos (c :: cs) =
    if c.isDigit ∨ (c = '-' ∧ cs.head?.any Char.isDigit) then scanNumber (c :: cs)
    else if u.isAlphabetic c ∨ c = '_' then
      .ok (wordToken (scanIdent u (c :: cs)).1, (scanIdent u (c :: cs)).2)
    else .err (.parse s!"unexpected character '{c}' at position {pos}") := by
  unfold scanToken
  split <;> simp_all [tokenStarts]

end Lookahead

variable {u : Unicode} {len : Nat} {cs : List Char}

def splitComment : List Char → Option (List Char × List Char)
  | [] => none
  | '*' :: '/' :: rest => some ([], rest)
  | c :: cs => (fun p => (c :: p.1, p.2)) <$> splitComment cs

def executableText : List Char → Option (List Char)
  | '!' :: inner => some (inner.dropWhile Char.isDigit)
  | _ => none

inductive Turn where
  | skip (rest : List Char)
  | unwrap (inner rest : List Char)
  | token (token : Token) (rest : List Char)

def skipLine (cs : List Char) : List Char := cs.dropWhile (· ≠ '\n')

def startsLineComment (cs : List Char) : Bool :=
  cs.head? = some '#' ||
    (cs.head? = some '-' && cs.tail.head? = some '-' && cs.tail.tail.head?.all isWhiteSpace)

def turn (u : Unicode) (pos : Nat) (cs : List Char) : Result Turn :=
  if cs.head?.any isWhiteSpace then .ok (.skip cs.tail)
  else if cs.head? = some '/' ∧ cs.tail.head? = some '*' then
    match splitComment cs.tail.tail with
    | none => .err (.parse s!"unterminated block comment starting at position {pos}")
    | some (body, rest) =>
      match executableText body with
      | none => .ok (.skip rest)
      | some inner => .ok (.unwrap inner rest)
  else if startsLineComment cs then .ok (.skip (skipLine cs))
  else do
    let (token, rest) ← scanToken u pos cs
    pure (.token token rest)

def tokenizeFrom (u : Unicode) : Nat → Nat → List Char → Result (List Token)
  | 0, _, _ => .panic
  | _ + 1, _, [] => .ok []
  | fuel + 1, len, c :: cs => do
    match ← turn u (len - (c :: cs).length) (c :: cs) with
    | .skip rest => tokenizeFrom u fuel len rest
    | .unwrap inner rest => do
      let tokens ← tokenizeFrom u fuel inner.length inner
      let more ← tokenizeFrom u fuel len rest
      pure (tokens ++ more)
    | .token token rest => do
      let more ← tokenizeFrom u fuel len rest
      pure (token :: more)

/-- Every turn uses up a character, so the loop has fewer turns than the text has characters,
those of comments it unwraps included. -/
def tokenize (u : Unicode) (sql : String) : Result (List Token) :=
  tokenizeFrom u (sql.toList.length + 1) sql.toList.length sql.toList

variable {body : List Char} {pos : Nat} {t : Token} {p : List Char × List Char}

structure Behind (rest cs : List Char) : Prop where
  suffix : rest <:+ cs
  shorter : rest.length < cs.length

theorem Behind.of_suffix {rest : List Char} (h : rest <:+ cs) (c : Char) : Behind rest (c :: cs) :=
  ⟨h.trans (suffix_cons c cs), Nat.lt_succ_of_le h.length_le⟩

theorem Behind.cons {rest : List Char} (h : Behind rest cs) (c : Char) : Behind rest (c :: cs) :=
  .of_suffix h.suffix c

theorem Behind.trans_suffix {rest more : List Char} (h : Behind rest more) (hmore : more <:+ cs) :
    Behind rest cs :=
  ⟨h.suffix.trans hmore, Nat.lt_of_lt_of_le h.shorter hmore.length_le⟩

theorem span_suffix (p : Char → Bool) (cs : List Char) : (cs.span p).2 <:+ cs := by
  rw [span_eq_takeWhile_dropWhile]
  exact dropWhile_suffix p

theorem span_behind {p : Char → Bool} (h : (cs.span p).1 ≠ []) : Behind (cs.span p).2 cs := by
  refine ⟨span_suffix p cs, ?_⟩
  rw [span_eq_takeWhile_dropWhile] at h ⊢
  have hlen := congrArg List.length (takeWhile_append_dropWhile (p := p) (l := cs))
  have hpos := List.length_pos_iff.mpr h
  rw [length_append] at hlen
  dsimp only at hpos ⊢
  omega

theorem scanQuoted_behind {quote : Char} {s rest : List Char}
    (h : scanQuoted quote cs = some (s, rest)) : Behind rest cs := by
  fun_induction scanQuoted quote cs generalizing s rest with
  | case1 => cases h
  | case2 =>
    cases h
    exact .of_suffix suffix_rfl quote
  | case3 ds ih =>
    obtain ⟨p, hp, heq⟩ := Option.map_eq_some_iff.mp h
    cases heq
    exact ((ih hp).cons quote).cons quote
  | case4 d ds hd =>
    cases h
    exact .of_suffix suffix_rfl quote
  | case5 c cs hc ih =>
    obtain ⟨p, hp, heq⟩ := Option.map_eq_some_iff.mp h
    cases heq
    exact (ih hp).cons c

theorem scanStringLiteral_behind (h : scanStringLiteral cs = .ok p) : Behind p.2 cs := by
  unfold scanStringLiteral at h
  split at h
  · cases h
  · rename_i hquoted
    cases h
    exact scanQuoted_behind hquoted

theorem scanBacktickIdent_behind (h : scanBacktickIdent cs = .ok p) : Behind p.2 cs := by
  unfold scanBacktickIdent at h
  split at h
  · cases h
  · rename_i hquoted
    split_ifs at h
    cases h
    exact scanQuoted_behind hquoted

theorem scanIdent_ne_nil {c : Char} (h : u.isAlphabetic c = true ∨ c = '_') :
    (scanIdent u (c :: cs)).1 ≠ [] := by
  have hc : u.isIdentChar c = true := by
    rcases h with h | rfl
    · simp [Unicode.isIdentChar, h]
    · simp [Unicode.isIdentChar]
  simp [scanIdent, span_eq_takeWhile_dropWhile, hc]

theorem scanDigits_behind (h : (scanDigits cs).1 ≠ []) : Behind (scanDigits cs).2 cs := by
  unfold scanDigits at h ⊢
  refine (span_behind h).trans_suffix ?_
  split
  · exact tail_suffix cs
  · exact suffix_rfl

theorem scanFraction_behind {frac rest : List Char} (h : scanFraction cs = some (frac, rest)) :
    Behind rest cs := by
  unfold scanFraction at h
  split at h
  · rename_i c cs
    split_ifs at h
    have hsuffix := span_suffix Char.isDigit (c :: cs)
    rw [Option.some.inj h] at hsuffix
    exact .of_suffix hsuffix '.'
  · cases h

theorem scanNumber_behind {rest : List Char} (h : scanNumber cs = .ok (t, rest)) :
    Behind rest cs := by
  unfold scanNumber at h
  dsimp only at h
  split at h
  · cases h
  · rename_i hne
    have hdigits := scanDigits_behind hne
    split at h
    · rename_i frac rest' hfrac
      obtain ⟨n, -, heq⟩ := bind_eq_ok.mp h
      cases heq
      exact (scanFraction_behind hfrac).trans_suffix hdigits.suffix
    · obtain ⟨n, -, heq⟩ := bind_eq_ok.mp h
      cases heq
      exact hdigits

theorem scanSystemVariable_behind {rest : List Char}
    (h : scanSystemVariable u pos cs = .ok (t, rest)) : Behind rest cs := by
  unfold scanSystemVariable scanIdent at h
  dsimp only at h
  split at h
  · cases h
  · rename_i hne
    have hname := span_behind hne
    split at h
    · rename_i more hmore
      split at h
      · cases h
        exact hname
      · cases h
        rw [hmore] at hname
        exact ⟨(span_suffix u.isIdentChar more).trans ((suffix_cons _ _).trans hname.suffix),
          Nat.lt_of_le_of_lt (span_suffix u.isIdentChar more).length_le
            (Nat.lt_of_succ_lt hname.shorter)⟩
    · cases h
      exact hname

theorem scanToken_behind {rest : List Char} (h : scanToken u pos cs = .ok (t, rest)) :
    Behind rest cs := by
  unfold scanToken at h
  split at h
  case h_16 =>
    obtain ⟨p, hp, heq⟩ := bind_eq_ok.mp h
    cases heq
    exact (scanStringLiteral_behind hp).cons _
  case h_17 =>
    obtain ⟨p, hp, heq⟩ := bind_eq_ok.mp h
    cases heq
    exact (scanBacktickIdent_behind hp).cons _
  case h_18 => exact ((scanSystemVariable_behind h).cons _).cons _
  case h_19 cs _ =>
    cases h
    exact .of_suffix (span_suffix u.isIdentChar cs) _
  case h_20 c cs _ _ _ _ _ _ _ _ _ _ _ _ _ _ _ _ _ _ _ =>
    split at h
    · exact scanNumber_behind h
    · split at h
      · rename_i hword
        have hident : (scanIdent u (c :: cs)).1 ≠ [] := scanIdent_ne_nil hword
        rw [← (Prod.mk.inj (Outcome.ok.inj h)).2]
        exact span_behind hident
      · cases h
  all_goals first
    | cases h
      done
    | cases h
      first
        | exact .of_suffix suffix_rfl _
        | exact .of_suffix (suffix_cons _ _) _

theorem eq_of_splitComment {rest : List Char} (h : splitComment cs = some (body, rest)) :
    cs = body ++ '*' :: '/' :: rest := by
  fun_induction splitComment cs generalizing body rest with
  | case1 => cases h
  | case2 =>
    cases h
    rfl
  | case3 c cs _ ih =>
    obtain ⟨p, hp, heq⟩ := Option.map_eq_some_iff.mp h
    cases heq
    rw [ih hp]
    rfl

theorem executableText_length {inner : List Char} (h : executableText body = some inner) :
    inner.length < body.length := by
  unfold executableText at h
  split at h
  · rename_i text
    cases h
    exact Nat.lt_succ_of_le (dropWhile_sublist Char.isDigit).length_le
  · cases h

theorem skipLine_behind (h : startsLineComment cs = true) : Behind (skipLine cs) cs := by
  cases cs with
  | nil => simp [startsLineComment] at h
  | cons c cs =>
    have hc : c ≠ '\n' := by
      rintro rfl
      simp [startsLineComment] at h
    have hskip : skipLine (c :: cs) = skipLine cs := by simp [skipLine, hc]
    rw [hskip]
    exact .of_suffix (dropWhile_suffix _) c

def Turn.Shorter (cs : List Char) : Turn → Prop
  | .skip rest => rest.length < cs.length
  | .unwrap inner rest => inner.length < cs.length ∧ rest.length < cs.length
  | .token _ rest => rest.length < cs.length

def Turn.rest : Turn → List Char
  | .skip rest => rest
  | .unwrap _ rest => rest
  | .token _ rest => rest

/-- Every turn of the tokenizer reads on, and what an executable comment holds is shorter. -/
theorem turn_behind {t : Turn} (h : turn u pos cs = .ok t) (hne : cs ≠ []) :
    Behind t.rest cs ∧ ∀ inner rest, t = .unwrap inner rest → inner.length < cs.length := by
  obtain ⟨c, cs, rfl⟩ := exists_cons_of_ne_nil hne
  unfold turn at h
  split at h
  · cases h
    exact ⟨.of_suffix suffix_rfl c, fun _ _ h => by cases h⟩
  · split at h
    · split at h
      · cases h
      · rename_i body rest hcomment
        have hsplit := eq_of_splitComment hcomment
        have htail : (c :: cs).tail.tail <:+ (c :: cs) :=
          (tail_suffix _).trans (tail_suffix _)
        have hrest : Behind rest (c :: cs).tail.tail := by
          rw [hsplit]
          exact (Behind.of_suffix (suffix_cons _ _) _).trans_suffix (suffix_append _ _)
        split at h
        · cases h
          exact ⟨hrest.trans_suffix htail, fun _ _ h => by cases h⟩
        · rename_i inner hinner
          cases h
          refine ⟨hrest.trans_suffix htail, ?_⟩
          rintro inner rest ⟨⟩
          have hlength := executableText_length hinner
          have hle := htail.length_le
          rw [hsplit, length_append] at hle
          omega
    · split at h
      · cases h
        exact ⟨skipLine_behind ‹_›, fun _ _ h => by cases h⟩
      · obtain ⟨p, hp, heq⟩ := bind_eq_ok.mp h
        cases heq
        exact ⟨scanToken_behind hp, fun _ _ h => by cases h⟩

theorem turn_shorter {t : Turn} (h : turn u pos cs = .ok t) (hne : cs ≠ []) : t.Shorter cs := by
  obtain ⟨hrest, hinner⟩ := turn_behind h hne
  cases t with
  | skip rest => exact hrest.shorter
  | unwrap inner rest => exact ⟨hinner inner rest rfl, hrest.shorter⟩
  | token t rest => exact hrest.shorter

theorem scanNumber_ne_panic (cs : List Char) : scanNumber cs ≠ .panic := by
  unfold scanNumber
  dsimp only
  split
  · simp
  · split
    · exact bind_ne_panic (okOr_ne_panic _ _) fun _ _ => by simp
    · exact bind_ne_panic (okOr_ne_panic _ _) fun _ _ => by simp

theorem scanToken_ne_panic (u : Unicode) (pos : Nat) (hne : cs ≠ []) :
    scanToken u pos cs ≠ .panic := by
  unfold scanToken
  split
  case h_16 =>
    refine bind_ne_panic ?_ fun _ _ => by simp
    unfold scanStringLiteral
    split <;> simp
  case h_17 =>
    refine bind_ne_panic ?_ fun _ _ => by simp
    unfold scanBacktickIdent
    split
    · simp
    · split <;> simp
  case h_18 =>
    unfold scanSystemVariable
    dsimp only
    split
    · simp
    · split
      · split <;> simp
      · simp
  case h_20 =>
    split
    · exact scanNumber_ne_panic _
    · split <;> simp
  case h_21 => exact absurd rfl hne
  all_goals simp

theorem turn_ne_panic (u : Unicode) (pos : Nat) (hne : cs ≠ []) : turn u pos cs ≠ .panic := by
  unfold turn
  split
  · simp
  · split
    · split
      · simp
      · split <;> simp
    · split
      · simp
      · exact bind_ne_panic (scanToken_ne_panic u pos hne) fun _ _ => by simp

theorem tokenizeFrom_ne_panic (u : Unicode) {fuel : Nat} (len : Nat) (h : cs.length < fuel) :
    tokenizeFrom u fuel len cs ≠ .panic := by
  induction fuel generalizing len cs with
  | zero => exact absurd h (Nat.not_lt_zero _)
  | succ fuel ih =>
    cases cs with
    | nil => simp [tokenizeFrom]
    | cons c cs =>
      have hne : c :: cs ≠ [] := cons_ne_nil c cs
      unfold tokenizeFrom
      refine bind_ne_panic (turn_ne_panic u _ hne) fun t ht => ?_
      have hshorter := turn_shorter ht hne
      cases t with
      | skip rest => exact ih len (by simp only [Turn.Shorter] at hshorter; omega)
      | unwrap inner rest =>
        obtain ⟨hinner, hrest⟩ := hshorter
        refine bind_ne_panic (ih _ (by omega)) fun _ _ => ?_
        exact bind_ne_panic (ih _ (by omega)) fun _ _ => by simp
      | token t rest =>
        refine bind_ne_panic (ih _ ?_) fun _ _ => by simp
        simp only [Turn.Shorter] at hshorter
        omega

theorem tokenize_ne_panic (u : Unicode) (sql : String) : tokenize u sql ≠ .panic :=
  tokenizeFrom_ne_panic u _ (Nat.lt_succ_self _)

end

end MysqlRust
