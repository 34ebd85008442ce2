import Mathlib.Data.List.Basic

/-! # Chunked sequences

A sequence written chunk by chunk: every position belongs to one chunk, and a cut leaves
whole chunks followed by a proper part of the chunk that was being written.
-/
namespace Chunks

open List

variable {α β : Type} (f : α → List β)

theorem exists_chunk {xs : List α} {n : Nat} (hn : n < (xs.flatMap f).length) :
    ∃ pre x post, ∃ m < (f x).length, xs = pre ++ x :: post ∧ n = (pre.flatMap f).length + m := by
  induction xs generalizing n with
  | nil => exact absurd hn (Nat.not_lt_zero n)
  | cons x xs ih =>
    rw [flatMap_cons, length_append] at hn
    rcases Nat.lt_or_ge n (f x).length with hx | hx
    · exact ⟨[], x, xs, n, hx, rfl, (Nat.zero_add n).symm⟩
    · obtain ⟨pre, y, post, m, hm, rfl, hpos⟩ := ih (n := n - (f x).length) (by omega)
      refine ⟨x :: pre, y, post, m, hm, rfl, ?_⟩
      rw [flatMap_cons, length_append]
      omega

/-- A cut falls behind the last chunk or strictly inside one of the chunks. -/
theorem cut_chunk {xs : List α} {p : List β} (h : p <+: xs.flatMap f) :
    p = xs.flatMap f ∨ ∃ pre x post, ∃ m < (f x).length,
      xs = pre ++ x :: post ∧ p = pre.flatMap f ++ (f x).take m := by
  rcases Nat.lt_or_ge p.length (xs.flatMap f).length with hlt | hge
  · obtain ⟨pre, x, post, m, hm, rfl, hpos⟩ := exists_chunk f hlt
    refine .inr ⟨pre, x, post, m, hm, rfl, ?_⟩
    rw [prefix_iff_eq_take.mp h, hpos, flatMap_append, flatMap_cons,
      take_length_add_append, take_append_of_le_length (Nat.le_of_lt hm)]
  · exact .inl (h.eq_of_length_le hge)

end Chunks
