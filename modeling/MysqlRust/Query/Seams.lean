import MysqlRust.Query.Quoting

/-! # Texts put together

A turn of the tokenizer looks at most at the characters it reads and the next two. So a text that
ends in white space, outside of comments, has the same tokens whatever follows it.
-/
namespace MysqlRust

open Outcome List Option

section

def EndsInSpace (cs : List Char) : Prop := cs.getLast?.any isWhiteSpace = true

variable {u : Unicode} {pos : Nat} {cs rest : List Char}
variable {t : Token} {s name : List Char}

theorem EndsInSpace.ne_nil (h : EndsInSpace cs) : cs ≠ [] := by
  rintro rfl
  cases h

theorem EndsInSpace.of_suffix (h : EndsInSpace rest) (hsuffix : rest <:+ cs) : EndsInSpace cs := by
  obtain ⟨before, rfl⟩ := hsuffix
  obtain ⟨c, hc⟩ := isSome_iff_exists.mp (getLast?_isSome.mpr h.ne_nil)
  rw [EndsInSpace, hc] at h
  rw [EndsInSpace, getLast?_append, hc]
  exact h

theorem EndsInSpace.tail_ne_nil {c : Char} (h : EndsInSpace (c :: cs))
    (hc : isWhiteSpace c = false) : cs ≠ [] := by
  rintro rfl
  exact Bool.false_ne_true (hc.symm.trans h)

theorem span_append {p : Char → Bool} (h : (cs.span p).2 ≠ []) (tail : List Char) :
    (cs ++ tail).span p = ((cs.span p).1, (cs.span p).2 ++ tail) := by
  induction cs with
  | nil => exact absurd rfl h
  | cons c cs ih =>
    simp only [span_eq_takeWhile_dropWhile, cons_append] at h ih ⊢
    cases hc : p c with
    | true =>
      rw [dropWhile_cons_of_pos hc] at h
      have hspan := Prod.mk.inj (ih h)
      rw [takeWhile_cons_of_pos hc, dropWhile_cons_of_pos hc, hspan.1, hspan.2,
        takeWhile_cons_of_pos hc, dropWhile_cons_of_pos hc]
    | false =>
      have hneg : ¬ p c = true := by simp [hc]
      simp only [takeWhile_cons_of_neg hneg, dropWhile_cons_of_neg hneg, cons_append]

theorem scanQuoted_append {quote : Char} (h : scanQuoted quote cs = some (s, rest))
    (hrest : rest ≠ []) (tail : List Char) :
    scanQuoted quote (cs ++ tail) = some (s, rest ++ tail) := by
  fun_induction scanQuoted quote cs generalizing s rest with
  | case1 => cases h
  | case2 =>
    cases h
    exact absurd rfl hrest
  | case3 ds ih =>
    obtain ⟨p, hp, heq⟩ := map_eq_some_iff.mp h
    cases heq
    simp [scanQuoted, ih hp hrest]
  | case4 d ds hd =>
    cases h
    simp [scanQuoted, hd]
  | case5 c cs hc ih =>
    obtain ⟨p, hp, heq⟩ := map_eq_some_iff.mp h
    cases heq
    rw [cons_append, scanQuoted.eq_def]
    dsimp only
    rw [if_neg hc, ih hp hrest]
    rfl

theorem splitComment_tail {body : List Char} (h : splitComment cs = some (body, rest))
    (tail : List Char) : splitComment (cs ++ tail) = some (body, rest ++ tail) := by
  fun_induction splitComment cs generalizing body rest with
  | case1 => cases h
  | case2 =>
    cases h
    rfl
  | case3 c cs hclose ih =>
    obtain ⟨p, hp, heq⟩ := map_eq_some_iff.mp h
    cases heq
    rw [cons_append, splitComment, ih hp]
    · rfl
    · -- the comment is not closed across the seam, since it is closed later
      intro rest' hc htext
      cases cs with
      | nil => cases hp
      | cons d cs =>
        cases htext
        exact hclose cs hc rfl

theorem scanFraction_append {frac : List Char} (h : scanFraction cs = some (frac, rest))
    (hrest : rest ≠ []) (tail : List Char) :
    scanFraction (cs ++ tail) = some (frac, rest ++ tail) := by
  unfold scanFraction at h
  split at h
  · rename_i c cs
    split_ifs at h with hdigit
    have hspan := some.inj h
    have hne : ((c :: cs).span Char.isDigit).2 ≠ [] := by
      rw [hspan]
      exact hrest
    have happend := span_append hne tail
    rw [hspan] at happend
    simp only [scanFraction, cons_append, if_pos hdigit]
    exact congrArg some happend
  · cases h

theorem scanFraction_append_none (h : scanFraction cs = none) (hcs : EndsInSpace cs)
    (tail : List Char) : scanFraction (cs ++ tail) = none := by
  cases cs with
  | nil => cases hcs
  | cons c cs =>
    by_cases hc : c = '.'
    · subst hc
      cases cs with
      | nil => cases hcs
      | cons d cs =>
        simp only [scanFraction, cons_append] at h ⊢
        split_ifs at h with hdigit
        rw [if_neg hdigit]
    · simp [scanFraction, hc]

theorem scanDigits_append (h : (scanDigits cs).2 ≠ []) (tail : List Char) :
    scanDigits (cs ++ tail) = ((scanDigits cs).1, (scanDigits cs).2 ++ tail) := by
  cases cs with
  | nil => exact absurd rfl h
  | cons c cs =>
    have hminus : (if (c :: cs ++ tail).head? = some '-' then (c :: cs ++ tail).tail
        else c :: cs ++ tail) =
        (if (c :: cs).head? = some '-' then (c :: cs).tail else c :: cs) ++ tail := by
      rw [cons_append, head?_cons, head?_cons]
      split <;> rfl
    rw [scanDigits, hminus]
    exact span_append h tail

theorem scanNumber_append (h : scanNumber cs = .ok (t, rest)) (hrest : EndsInSpace rest)
    (tail : List Char) : scanNumber (cs ++ tail) = .ok (t, rest ++ tail) := by
  have hcs : cs ≠ [] := (hrest.of_suffix (scanNumber_behind h).suffix).ne_nil
  have hhead : (cs ++ tail).head? = cs.head? := head?_append_of_ne_nil cs hcs
  rw [scanNumber_eq] at h ⊢
  split_ifs at h with hdigits
  cases hfrac : scanFraction (scanDigits cs).2 with
  | some found =>
    obtain ⟨frac, more⟩ := found
    rw [hfrac] at h
    obtain ⟨token, htoken, heq⟩ := map_eq_ok.mp h
    cases heq
    have hne : (scanDigits cs).2 ≠ [] :=
      (hrest.of_suffix (scanFraction_behind hfrac).suffix).ne_nil
    simp only [scanDigits_append hne, scanFraction_append hfrac hrest.ne_nil, hhead, htoken,
      if_neg hdigits]
    rfl
  | none =>
    rw [hfrac] at h
    obtain ⟨token, htoken, heq⟩ := map_eq_ok.mp h
    cases heq
    simp only [scanDigits_append hrest.ne_nil, scanFraction_append_none hfrac hrest, hhead, htoken,
      if_neg hdigits]
    rfl

theorem scanIdent_append (h : scanIdent u cs = (name, rest)) (hrest : rest ≠ [])
    (tail : List Char) :
    scanIdent u (cs ++ tail) = (name, rest ++ tail) := by
  unfold scanIdent at h ⊢
  have hne : (cs.span u.isIdentChar).2 ≠ [] := by
    rw [h]
    exact hrest
  rw [span_append hne, h]

theorem scanIdent_append_nil (h : (scanIdent u cs).1 = []) (hcs : cs ≠ []) (tail : List Char) :
    (scanIdent u (cs ++ tail)).1 = [] := by
  obtain ⟨c, cs, rfl⟩ := exists_cons_of_ne_nil hcs
  simp only [scanIdent, span_eq_takeWhile_dropWhile, cons_append] at h ⊢
  cases hc : u.isIdentChar c with
  | true =>
    rw [takeWhile_cons_of_pos hc] at h
    cases h
  | false => exact takeWhile_cons_of_neg (by simp [hc])

theorem scanSystemVariable_append (h : scanSystemVariable u pos cs = .ok (t, rest))
    (hrest : EndsInSpace rest) (tail : List Char) :
    scanSystemVariable u pos (cs ++ tail) = .ok (t, rest ++ tail) := by
  obtain ⟨name, more, hident⟩ : ∃ name more, scanIdent u cs = (name, more) := ⟨_, _, rfl⟩
  have hname : name ≠ [] := by
    rintro rfl
    simp [scanSystemVariable, hident] at h
  by_cases hdot : more.head? = some '.'
  · obtain ⟨more, rfl⟩ := head?_eq_some_iff.mp hdot
    have hwhole : scanIdent u (cs ++ tail) = (name, '.' :: (more ++ tail)) :=
      scanIdent_append hident (cons_ne_nil _ _) tail
    rw [scanSystemVariable_dot pos hident hname] at h
    rw [scanSystemVariable_dot pos hwhole hname]
    split_ifs at h with hsecond
    · cases h
      rw [if_pos (scanIdent_append_nil hsecond (hrest.tail_ne_nil rfl) tail)]
      rfl
    · cases h
      have hmore : scanIdent u (more ++ tail) = ((scanIdent u more).1, (scanIdent u more).2 ++ tail) :=
        scanIdent_append rfl hrest.ne_nil tail
      rw [hmore, if_neg hsecond]
  · rw [scanSystemVariable_plain pos hident hname hdot] at h
    cases h
    refine scanSystemVariable_plain pos (scanIdent_append hident hrest.ne_nil tail) hname ?_
    rwa [head?_append_of_ne_nil _ hrest.ne_nil]

theorem scanStringLiteral_append (h : scanStringLiteral cs = .ok (s, rest)) (hrest : rest ≠ [])
    (tail : List Char) : scanStringLiteral (cs ++ tail) = .ok (s, rest ++ tail) := by
  unfold scanStringLiteral at h ⊢
  split at h
  · cases h
  · rename_i hquoted
    cases h
    rw [scanQuoted_append hquoted hrest]

theorem scanBacktickIdent_append (h : scanBacktickIdent cs = .ok (name, rest)) (hrest : rest ≠ [])
    (tail : List Char) : scanBacktickIdent (cs ++ tail) = .ok (name, rest ++ tail) := by
  unfold scanBacktickIdent at h ⊢
  split at h
  · cases h
  · rename_i hquoted
    split_ifs at h with hname
    cases h
    rw [scanQuoted_append hquoted hrest]
    exact if_neg hname

theorem EndsInSpace.head?_append (h : EndsInSpace cs) (tail : List Char) :
    (cs ++ tail).head? = cs.head? :=
  head?_append_of_ne_nil cs h.ne_nil

/-- A token that ends before a space does not depend on what follows. -/
theorem scanToken_append (h : scanToken u pos cs = .ok (t, rest)) (hrest : EndsInSpace rest)
    (tail : List Char) : scanToken u pos (cs ++ tail) = .ok (t, rest ++ tail) := by
  have hscan := h
  unfold scanToken at h
  split at h
  case h_11 cs heq hgt =>
    cases h
    rw [cons_append]
    refine scanToken_lt ?_ ?_
    · rw [hrest.head?_append]
      exact fun hd => heq _ (eq_cons_of_mem_head? hd)
    · rw [hrest.head?_append]
      exact fun hd => hgt _ (eq_cons_of_mem_head? hd)
  case h_13 cs heq =>
    cases h
    rw [cons_append]
    refine scanToken_gt ?_
    rw [hrest.head?_append]
    exact fun hd => heq _ (eq_cons_of_mem_head? hd)
  case h_16 cs =>
    obtain ⟨⟨s, more⟩, hp, heq⟩ := bind_eq_ok.mp h
    cases heq
    rw [cons_append, scanToken, scanStringLiteral_append hp hrest.ne_nil]
    rfl
  case h_17 cs =>
    obtain ⟨⟨s, more⟩, hp, heq⟩ := bind_eq_ok.mp h
    cases heq
    rw [cons_append, scanToken, scanBacktickIdent_append hp hrest.ne_nil]
    rfl
  case h_18 => exact scanSystemVariable_append h hrest tail
  case h_19 cs hat =>
    cases h
    have hcs : EndsInSpace cs := hrest.of_suffix (span_suffix u.isIdentChar cs)
    have hident : scanIdent u (cs ++ tail) = ((scanIdent u cs).1, (scanIdent u cs).2 ++ tail) :=
      scanIdent_append rfl hrest.ne_nil tail
    rw [cons_append, scanToken_at, hident]
    · rfl
    · rw [hcs.head?_append]
      exact fun hd => hat _ (eq_cons_of_mem_head? hd)
  case h_20 c cs _ _ _ _ _ _ _ _ _ _ _ _ _ _ _ _ _ _ _ =>
    have hc : c ∉ tokenStarts := by simp_all [tokenStarts]
    rw [scanToken_other hc] at hscan
    rw [cons_append, scanToken_other hc]
    by_cases hnumber : c.isDigit = true ∨ c = '-' ∧ cs.head?.any Char.isDigit = true
    · rw [if_pos hnumber] at hscan
      have hhead : c.isDigit = true ∨ c = '-' ∧ (cs ++ tail).head?.any Char.isDigit = true := by
        refine hnumber.imp_right fun hminus => ⟨hminus.1, ?_⟩
        cases cs with
        | nil => cases hminus.2
        | cons d cs => exact hminus.2
      rw [if_pos hhead]
      exact scanNumber_append hscan hrest tail
    · rw [if_neg hnumber] at hscan
      split_ifs at hscan with hword
      obtain ⟨htoken, hmore⟩ := Prod.mk.inj (ok.inj hscan)
      have hminus : c ≠ '-' := by
        rintro rfl
        rw [u.isAlphabetic_ascii '-' (by decide)] at hword
        exact absurd hword (by decide)
      have hfirst : scanIdent u (c :: cs) = ((scanIdent u (c :: cs)).1, rest) := Prod.ext rfl hmore
      have hident : scanIdent u (c :: (cs ++ tail)) = ((scanIdent u (c :: cs)).1, rest ++ tail) :=
        scanIdent_append hfirst hrest.ne_nil tail
      rw [if_neg fun hnumber' => hnumber (hnumber'.imp_right fun h => absurd h.1 hminus),
        if_pos hword, hident, ← htoken]
  all_goals first
    | cases h
      done
    | cases h
      rfl

def Turn.append (tail : List Char) : Turn → Turn
  | .skip rest => .skip (rest ++ tail)
  | .unwrap inner rest => .unwrap inner (rest ++ tail)
  | .token t rest => .token t (rest ++ tail)

theorem startsLineComment_append (h : EndsInSpace cs) (tail : List Char) :
    startsLineComment (cs ++ tail) = startsLineComment cs := by
  rcases cs with _ | ⟨a, _ | ⟨b, _ | ⟨c, cs⟩⟩⟩
  · cases h
  · -- a dash alone is no white space
    have ha : a ≠ '-' := by
      rintro rfl
      cases h
    simp [startsLineComment, ha]
  · have hb : b ≠ '-' := by
      rintro rfl
      cases h
    simp [startsLineComment, hb]
  · rfl

theorem skipLine_append_of_ne (h : skipLine cs ≠ []) (tail : List Char) :
    skipLine (cs ++ tail) = skipLine cs ++ tail := by
  unfold skipLine at h ⊢
  rw [dropWhile_append, if_neg (by simpa using h)]

/-- A turn does not look behind a text that ends in white space. -/
theorem turn_append {t : Turn} (h : turn u pos cs = .ok t) (hne : cs ≠ [])
    (hrest : EndsInSpace t.rest) (tail : List Char) :
    turn u pos (cs ++ tail) = .ok (t.append tail) := by
  have hcs : EndsInSpace cs := hrest.of_suffix (turn_behind h hne).1.suffix
  obtain ⟨c, cs, rfl⟩ := exists_cons_of_ne_nil hne
  have hslash : (c :: cs).head? = some '/' → ((c :: cs) ++ tail).tail.head? = cs.head? := by
    rintro ⟨⟩
    exact head?_append_of_ne_nil cs (hcs.tail_ne_nil rfl)
  unfold turn at h ⊢
  rw [hcs.head?_append, startsLineComment_append hcs]
  split at h
  · rename_i hspace
    cases h
    rw [if_pos hspace]
    rfl
  · rename_i hspace
    rw [if_neg hspace]
    split at h
    · rename_i hopen
      rw [if_pos ⟨hopen.1, (hslash hopen.1).trans hopen.2⟩]
      obtain ⟨cs, rfl⟩ := head?_eq_some_iff.mp hopen.2
      split at h
      · cases h
      · rename_i hcomment
        have happend := splitComment_tail hcomment tail
        simp only [cons_append, tail_cons] at happend ⊢
        rw [happend]
        dsimp only
        split at h
        · cases h
          rfl
        · cases h
          rfl
    · rename_i hopen
      rw [if_neg fun hopen' => hopen ⟨hopen'.1, (hslash hopen'.1).symm.trans hopen'.2⟩]
      split at h
      · rename_i hline
        cases h
        rw [if_pos hline, skipLine_append_of_ne hrest.ne_nil]
        rfl
      · rename_i hline
        obtain ⟨⟨token, rest⟩, hscan, heq⟩ := bind_eq_ok.mp h
        cases heq
        rw [if_neg hline, scanToken_append hscan hrest]
        rfl

variable {pos' : Nat}
variable {p : Token × List Char}

/-! Positions are only reported. -/

theorem scanSystemVariable_pos (h : scanSystemVariable u pos cs = .ok p) :
    scanSystemVariable u pos' cs = .ok p := by
  unfold scanSystemVariable at h ⊢
  dsimp only at h ⊢
  split_ifs at h with hname
  rw [if_neg hname]
  exact h

theorem scanToken_pos (h : scanToken u pos cs = .ok p) : scanToken u pos' cs = .ok p := by
  unfold scanToken at h ⊢
  split at h
  case h_15 | h_21 => cases h
  case h_18 => exact scanSystemVariable_pos h
  case h_20 => split_ifs at h ⊢ <;> exact h
  all_goals exact h

theorem turn_pos {t : Turn} (h : turn u pos cs = .ok t) : turn u pos' cs = .ok t := by
  unfold turn at h ⊢
  split_ifs at h ⊢
  · exact h
  · split at h
    · cases h
    · exact h
  · exact h
  · obtain ⟨p, hp, heq⟩ := bind_eq_ok.mp h
    rw [scanToken_pos hp]
    exact heq

variable {len : Nat}
variable {ts : List Token}

/-- The number of turns allowed does not matter beyond the length of the text. -/
theorem tokenizeFrom_fuel {fuel fuel' : Nat} (h : cs.length < fuel) (h' : cs.length < fuel') :
    tokenizeFrom u fuel len cs = tokenizeFrom u fuel' len cs := by
  induction fuel generalizing fuel' len cs with
  | zero => exact absurd h (Nat.not_lt_zero _)
  | succ fuel ih =>
    obtain ⟨fuel', rfl⟩ := Nat.exists_eq_add_one_of_ne_zero (Nat.ne_zero_of_lt h')
    cases cs with
    | nil => rfl
    | cons c cs =>
      unfold tokenizeFrom
      cases hturn : turn u (len - (c :: cs).length) (c :: cs) with
      | err e => rfl
      | panic => rfl
      | ok t =>
        have hshorter := turn_shorter hturn (cons_ne_nil c cs)
        rw [ok_bind, ok_bind]
        cases t with
        | skip rest =>
          simp only [Turn.Shorter] at hshorter
          exact ih (by omega) (by omega)
        | unwrap inner rest =>
          obtain ⟨hinner, hrest⟩ := hshorter
          have hfirst : tokenizeFrom u fuel inner.length inner =
              tokenizeFrom u fuel' inner.length inner := ih (by omega) (by omega)
          have hmore : tokenizeFrom u fuel len rest = tokenizeFrom u fuel' len rest :=
            ih (by omega) (by omega)
          dsimp only
          rw [hfirst, hmore]
        | token t rest =>
          simp only [Turn.Shorter] at hshorter
          have hmore : tokenizeFrom u fuel len rest = tokenizeFrom u fuel' len rest :=
            ih (by omega) (by omega)
          dsimp only
          rw [hmore]

def tokensOf (u : Unicode) (len : Nat) (cs : List Char) : Result (List Token) :=
  tokenizeFrom u (cs.length + 1) len cs

def Turn.tokens (u : Unicode) : Turn → Result (List Token)
  | .skip _ => .ok []
  | .unwrap inner _ => tokensOf u inner.length inner
  | .token t _ => .ok [t]

theorem tokensOf_of_turn {t : Turn} (hne : cs ≠ []) (h : turn u (len - cs.length) cs = .ok t) :
    tokensOf u len cs = t.tokens u >>= fun first => (first ++ ·) <$> tokensOf u len t.rest := by
  have hshorter := turn_shorter h hne
  obtain ⟨c, cs, rfl⟩ := exists_cons_of_ne_nil hne
  unfold tokensOf
  rw [tokenizeFrom, h, ok_bind]
  cases t with
  | skip rest =>
    simp only [Turn.Shorter] at hshorter
    simp only [Turn.tokens, Turn.rest, ok_bind, nil_append, id_map']
    exact tokenizeFrom_fuel hshorter (Nat.lt_succ_self _)
  | unwrap inner rest =>
    simp only [Turn.tokens, Turn.rest, tokensOf]
    rw [tokenizeFrom_fuel hshorter.1 (Nat.lt_succ_self _),
      tokenizeFrom_fuel hshorter.2 (Nat.lt_succ_self _)]
    simp only [bind_pure_comp]
  | token t rest =>
    simp only [Turn.Shorter] at hshorter
    simp only [Turn.tokens, Turn.rest, ok_bind, singleton_append]
    rw [tokenizeFrom_fuel hshorter (Nat.lt_succ_self _), bind_pure_comp]

inductive Arrives (u : Unicode) (len : Nat) : List Char → List Char → Prop
  | here (cs : List Char) : Arrives u len cs cs
  | step {cs mid : List Char} {t : Turn} (hne : cs ≠ [])
      (h : turn u (len - cs.length) cs = .ok t) (hrest : Arrives u len t.rest mid) :
      Arrives u len cs mid

theorem Arrives.suffix {mid : List Char} (h : Arrives u len cs mid) : mid <:+ cs := by
  induction h with
  | here => exact suffix_rfl
  | step hne h _ ih => exact ih.trans (turn_behind h hne).1.suffix

/-- A text with white space at its end that is no part of a comment. -/
def EndsOutside (u : Unicode) (cs : List Char) : Prop :=
  ∃ c, isWhiteSpace c = true ∧ Arrives u cs.length cs [c]

theorem Turn.append_tokens (t : Turn) (tail : List Char) :
    (t.append tail).tokens u = t.tokens u := by
  cases t <;> rfl

theorem Turn.append_rest (t : Turn) (tail : List Char) : (t.append tail).rest = t.rest ++ tail := by
  cases t <;> rfl

theorem Arrives.tokensOf_append {c : Char} (hc : isWhiteSpace c = true) (h : Arrives u len cs [c])
    (hts : tokensOf u len cs = .ok ts) (tail : List Char) :
    tokensOf u (len + tail.length) (cs ++ tail) =
      (ts ++ ·) <$> tokensOf u (len + tail.length) tail := by
  generalize hmid : [c] = mid at h
  induction h generalizing ts with
  | here cs =>
    subst hmid
    have hskip : ∀ len tail, turn u (len - (c :: tail).length) (c :: tail) = .ok (.skip tail) :=
      fun _ _ => if_pos hc
    rw [tokensOf_of_turn (cons_ne_nil c []) (hskip len [])] at hts
    cases hts
    rw [singleton_append, tokensOf_of_turn (cons_ne_nil c tail) (hskip _ tail)]
    rfl
  | @step cs mid t hne hturn hrest ih =>
    have hspace : EndsInSpace t.rest := by
      have hlast : EndsInSpace [c] := hc
      rw [hmid] at hlast
      exact hlast.of_suffix hrest.suffix
    have hpos : len + tail.length - (cs ++ tail).length = len - cs.length := by
      rw [length_append]
      omega
    have happend := turn_append hturn hne hspace tail
    rw [← hpos] at happend
    rw [tokensOf_of_turn hne hturn] at hts
    obtain ⟨first, hfirst, hmapped⟩ := bind_eq_ok.mp hts
    obtain ⟨more, hmore, rfl⟩ := map_eq_ok.mp hmapped
    rw [tokensOf_of_turn (by simp [hne]) happend, t.append_tokens, t.append_rest, hfirst,
      ok_bind, ih hmore hmid, ← LawfulFunctor.comp_map]
    simp only [Function.comp_def, append_assoc]

theorem tokensOf_eq_ok (hne : cs ≠ []) : tokensOf u len cs = .ok ts ↔
    ∃ t first more, turn u (len - cs.length) cs = .ok t ∧ t.tokens u = .ok first ∧
      tokensOf u len t.rest = .ok more ∧ first ++ more = ts := by
  cases hturn : turn u (len - cs.length) cs with
  | ok t =>
    rw [tokensOf_of_turn hne hturn, bind_eq_ok]
    simp only [map_eq_ok, ok.injEq, exists_eq_left', exists_and_left]
  | err e =>
    obtain ⟨c, cs, rfl⟩ := exists_cons_of_ne_nil hne
    rw [tokensOf, tokenizeFrom, hturn]
    simp
  | panic => exact absurd hturn (turn_ne_panic u _ hne)

theorem tokensOf_token {rest : List Char} {t : Token} (hne : cs ≠ [])
    (hturn : turn u (len - cs.length) cs = .ok (.token t rest)) (h : tokensOf u len rest = .ok ts) :
    tokensOf u len cs = .ok (t :: ts) :=
  (tokensOf_eq_ok hne).mpr ⟨_, [t], ts, hturn, rfl, h, rfl⟩

theorem tokensOf_skip {rest : List Char} (hne : cs ≠ [])
    (hturn : turn u (len - cs.length) cs = .ok (.skip rest)) (h : tokensOf u len rest = .ok ts) :
    tokensOf u len cs = .ok ts :=
  (tokensOf_eq_ok hne).mpr ⟨_, [], ts, hturn, rfl, h, rfl⟩

theorem tokensOf_eq_ok_len (len' : Nat) (h : tokensOf u len cs = .ok ts) :
    tokensOf u len' cs = .ok ts := by
  induction hn : cs.length using Nat.strongRecOn generalizing cs ts with
  | ind n ih =>
    subst hn
    by_cases hne : cs = []
    · subst hne
      exact h
    · obtain ⟨t, first, more, hturn, hfirst, hmore, hts⟩ := (tokensOf_eq_ok hne).mp h
      have hrest := ih _ (turn_behind hturn hne).1.shorter hmore rfl
      exact (tokensOf_eq_ok hne).mpr ⟨t, first, more, turn_pos hturn, hfirst, hrest, hts⟩

theorem tokensOf_err_iff (len' : Nat) :
    (∃ e, tokensOf u len cs = .err e) ↔ ∃ e, tokensOf u len' cs = .err e := by
  have hone : ∀ m m', (∃ e, tokensOf u m cs = .err e) → ∃ e, tokensOf u m' cs = .err e := by
    rintro m m' ⟨e, he⟩
    cases htokens : tokensOf u m' cs with
    | ok ts =>
      rw [tokensOf_eq_ok_len m htokens] at he
      cases he
    | err e => exact ⟨e, rfl⟩
    | panic => exact absurd htokens (tokenizeFrom_ne_panic u m' (Nat.lt_succ_self _))
  exact ⟨hone len len', hone len' len⟩

end

inductive QuoteStyle where
  | string
  | identifier
  deriving DecidableEq, Repr

namespace QuoteStyle

def mark : QuoteStyle → Char
  | string => '\''
  | identifier => '\x60'

def quote (style : QuoteStyle) (s : String) : String :=
  String.ofList (style.mark :: (doubled style.mark s.toList ++ [style.mark]))

def token (style : QuoteStyle) (s : String) : Token :=
  match style with
  | string => .str s
  | identifier => .ident s

theorem turn_quote {u : Unicode} {pos : Nat} (style : QuoteStyle) {s : String} {rest : List Char}
    (hs : style = .identifier → s ≠ "") (hrest : rest.head? ≠ some style.mark) :
    turn u pos ((style.quote s).toList ++ rest) = .ok (.token (style.token s) rest) := by
  cases style with
  | string =>
    have hturn : turn u pos ((Piece.string s.toList).text ++ rest) = _ := Piece.turn_text u pos hrest
    rw [quote, String.toList_ofList]
    rw [Piece.turn, Piece.token] at hturn
    rwa [String.ofList_toList] at hturn
  | identifier =>
    have hname : s.toList ≠ [] := fun hnil => hs rfl (String.toList_eq_nil_iff.mp hnil)
    have hturn : turn u pos ((Piece.quoted s.toList).text ++ rest) = _ :=
      Piece.turn_text u pos ⟨hname, hrest⟩
    rw [quote, String.toList_ofList]
    rw [Piece.turn, Piece.token] at hturn
    rwa [String.ofList_toList] at hturn

end QuoteStyle

/-- A quoted text is one token between those before and behind it, whatever it contains. -/
theorem tokenize_quote (u : Unicode) (style : QuoteStyle) {before s rest : String}
    {ts : List Token} (hs : style = .identifier → s ≠ "") (hbefore : tokenize u before = .ok ts)
    (hspace : EndsOutside u before.toList) (hrest : rest.toList.head? ≠ some style.mark) :
    (∀ more, tokenize u rest = .ok more →
      tokenize u (before ++ style.quote s ++ rest) = .ok (ts ++ style.token s :: more)) ∧
    ((∃ e, tokenize u (before ++ style.quote s ++ rest) = .err e) ↔
      ∃ e, tokenize u rest = .err e) := by
  obtain ⟨c, hc, harrives⟩ := hspace
  have htail : (style.quote s).toList ++ rest.toList ≠ [] := by simp [QuoteStyle.quote]
  have hwhole : tokenize u (before ++ style.quote s ++ rest) =
      (ts ++ ·) <$> (style.token s :: ·) <$> tokensOf u
        (before.toList ++ ((style.quote s).toList ++ rest.toList)).length rest.toList := by
    have happend := harrives.tokensOf_append hc hbefore ((style.quote s).toList ++ rest.toList)
    rw [tokensOf_of_turn htail (style.turn_quote hs hrest), ← length_append] at happend
    rw [tokenize, String.toList_append, String.toList_append, append_assoc]
    exact happend
  constructor
  · intro more hmore
    rw [hwhole, tokensOf_eq_ok_len _ hmore]
    rfl
  · simp only [hwhole, map_eq_err]
    exact tokensOf_err_iff rest.toList.length

/-- A text with a quote, a comment and a question mark in it. -/
theorem tokenize_quote_select :
    tokenize .ascii ("SELECT " ++ QuoteStyle.string.quote "it's -- /* ?" ++ ";") =
      .ok [.keyword .select, .str "it's -- /* ?", .semicolon] := by
  have hbefore : tokenize .ascii "SELECT " = .ok [.keyword .select] := by decide +kernel
  have hrest : tokenize .ascii ";" = .ok [.semicolon] := by decide +kernel
  have hturn : turn .ascii 0 "SELECT ".toList = .ok (.token (.keyword .select) [' ']) := rfl
  have hspace : EndsOutside .ascii "SELECT ".toList :=
    ⟨' ', by decide, .step (by decide) hturn (.here [' '])⟩
  exact (tokenize_quote .ascii .string (fun h => by cases h) hbefore hspace (by decide)).1 _ hrest

end MysqlRust
