import MysqlRust.Query.Lexer

/-! # The tokenizer over positions

The source keeps the characters in one vector and moves a position over it; an access outside of
it panics. In this form the tokenizer takes the same turns as over the rest of the text.
-/
namespace MysqlRust

open Outcome List

def charAt (chars : List Char) (i : Nat) : Result Char := index chars i

def subslice (chars : List Char) (start stop : Nat) : Result (List Char) :=
  if start ≤ stop ∧ stop ≤ chars.length then .ok ((chars.take stop).drop start) else .panic

def scanWhile (p : Char → Bool) (chars : List Char) (limit i : Nat) : Result Nat :=
  if i < limit then do
    let c ← charAt chars i
    if p c then scanWhile p chars limit (i + 1) else pure i
  else pure i
termination_by limit - i

inductive TurnAt where
  | skip (next : Nat)
  | unwrap (inner : List Char) (next : Nat)
  | token (token : Token) (next : Nat)
  deriving DecidableEq

def TurnAt.next : TurnAt → Nat
  | .skip next => next
  | .unwrap _ next => next
  | .token _ next => next

def TurnAt.inner : TurnAt → Option (List Char)
  | .unwrap inner _ => some inner
  | _ => none

section Equal
variable {u : Unicode} {chars : List Char} {i : Nat}
variable {rest cs : List Char}

/-- The text from a position on. -/
structure At (chars : List Char) (i : Nat) (rest : List Char) : Prop where
  le : i ≤ chars.length
  drop : chars.drop i = rest

theorem At.length (h : At chars i rest) : i + rest.length = chars.length := by
  rw [← h.drop, length_drop]
  exact Nat.add_sub_cancel' h.le

theorem At.head? (h : At chars i rest) : chars[i]? = rest.head? := by rw [← h.drop, head?_drop]

theorem At.slice (h : At chars i rest) : subslice chars i chars.length = .ok rest := by
  rw [subslice, if_pos ⟨h.le, Nat.le_refl _⟩, take_length, h.drop]

theorem At.skip (read : List Char) (h : At chars i (read ++ rest)) :
    At chars (i + read.length) rest := by
  have hlength := h.length
  rw [length_append] at hlength
  exact ⟨by omega, by rw [← drop_drop, h.drop, drop_left]⟩

theorem At.next {c : Char} (h : At chars i (c :: rest)) : At chars (i + 1) rest := h.skip [c]

theorem scanWhile_eq (p : Char → Bool) {limit : Nat} (hi : i ≤ limit)
    (hlimit : limit ≤ chars.length) : scanWhile p chars limit i =
      .ok (i + (((chars.take limit).drop i).takeWhile p).length) := by
  fun_induction scanWhile p chars limit i with
  | case1 i hlt ih =>
    have hlength : i < (chars.take limit).length := by
      rw [length_take]
      omega
    have hc : charAt chars i = .ok chars[i] := index_of_lt (Nat.lt_of_lt_of_le hlt hlimit)
    rw [hc, ok_bind, drop_eq_getElem_cons hlength, getElem_take]
    cases hp : p chars[i] with
    | true =>
      rw [if_pos rfl, ih hlt, takeWhile_cons_of_pos hp, length_cons]
      congr 1
      omega
    | false => simp [hp]
  | case2 i hlt =>
    have hdrop : (chars.take limit).drop i = [] := by
      rw [drop_eq_nil_iff, length_take]
      omega
    rw [hdrop]
    rfl

section
variable (p : Char → Bool)

theorem At.scanWhile (h : At chars i rest) : scanWhile p chars chars.length i =
    .ok (i + (rest.span p).1.length) := by
  rw [scanWhile_eq p h.le (Nat.le_refl _), take_length, h.drop, span_eq_takeWhile_dropWhile]

theorem At.span (h : At chars i rest) : At chars (i + (rest.span p).1.length) (rest.span p).2 := by
  refine At.skip _ ?_
  rwa [span_eq_takeWhile_dropWhile, takeWhile_append_dropWhile]

variable {c : Char} {cs : List Char}

theorem At.scanIdent (u : Unicode) (h : At chars i cs) :
    At chars (i + (scanIdent u cs).1.length) (scanIdent u cs).2 := h.span u.isIdentChar

end

end Equal

end MysqlRust
