import Mathlib.Data.List.Forall2

/-! # Patterns with wildcards

A pattern matches a text that can be cut into consecutive pieces, one for each symbol of the
pattern, so that every symbol takes its piece. Whether it does is decided from the end.
-/
namespace Wildcards

open List

variable {σ α : Type} (Takes : σ → List α → Prop)

def Splits (pattern : List σ) (text : List α) : Prop :=
  ∃ pieces, List.Forall₂ Takes pattern pieces ∧ pieces.flatten = text

variable {Takes} {pattern : List σ} {text : List α} {symbol : σ} {a : α}

theorem splits_nil : Splits Takes [] text ↔ text = [] := by
  constructor
  · rintro ⟨pieces, hpieces, rfl⟩
    cases hpieces
    rfl
  · rintro rfl
    exact ⟨[], .nil, rfl⟩

theorem splits_concat : Splits Takes (pattern ++ [symbol]) text ↔
    ∃ before piece, Splits Takes pattern before ∧ Takes symbol piece ∧ before ++ piece = text := by
  constructor
  · rintro ⟨pieces, hpieces, rfl⟩
    -- from the end, the last symbol is the first
    rw [← forall₂_reverse_iff, reverse_append, reverse_singleton,
      singleton_append, forall₂_cons_left_iff] at hpieces
    obtain ⟨piece, befores, hpiece, hbefores, hreverse⟩ := hpieces
    rw [reverse_eq_cons_iff] at hreverse
    rw [← befores.reverse_reverse, forall₂_reverse_iff] at hbefores
    refine ⟨befores.reverse.flatten, piece, ⟨befores.reverse, hbefores, rfl⟩, hpiece, ?_⟩
    rw [hreverse, flatten_append, flatten_singleton]
  · rintro ⟨before, piece, ⟨pieces, hpieces, rfl⟩, hpiece, rfl⟩
    refine ⟨pieces ++ [piece], rel_append hpieces (.cons hpiece .nil), ?_⟩
    rw [flatten_append, flatten_singleton]

theorem splits_run_nil (hrun : ∀ piece, Takes symbol piece) :
    Splits Takes (pattern ++ [symbol]) [] ↔ Splits Takes pattern [] := by
  rw [splits_concat]
  constructor
  · rintro ⟨before, piece, hbefore, -, happend⟩
    rwa [(append_eq_nil_iff.mp happend).1] at hbefore
  · intro h
    exact ⟨[], [], h, hrun [], rfl⟩

theorem splits_run_concat (hrun : ∀ piece, Takes symbol piece) :
    Splits Takes (pattern ++ [symbol]) (text ++ [a]) ↔
      Splits Takes pattern (text ++ [a]) ∨ Splits Takes (pattern ++ [symbol]) text := by
  rw [splits_concat, splits_concat]
  constructor
  · rintro ⟨before, piece, hbefore, -, happend⟩
    rcases eq_nil_or_concat' piece with rfl | ⟨piece, b, rfl⟩
    · rw [append_nil] at happend
      exact .inl (happend ▸ hbefore)
    · rw [← append_assoc] at happend
      obtain ⟨rfl, -⟩ := append_inj' happend rfl
      exact .inr ⟨before, piece, hbefore, hrun piece, rfl⟩
  · rintro (h | ⟨before, piece, hbefore, -, rfl⟩)
    · exact ⟨text ++ [a], [], h, hrun [], append_nil _⟩
    · exact ⟨before, piece ++ [a], hbefore, hrun _, (append_assoc _ _ _).symm⟩

section Single
variable {Takes₁ : α → Prop}

theorem splits_one_nil (hone : ∀ piece, Takes symbol piece ↔ ∃ a, piece = [a] ∧ Takes₁ a) :
    ¬ Splits Takes (pattern ++ [symbol]) [] := by
  rw [splits_concat]
  rintro ⟨before, piece, -, hpiece, happend⟩
  obtain ⟨a, rfl, -⟩ := (hone piece).mp hpiece
  exact absurd (append_eq_nil_iff.mp happend).2 (cons_ne_nil a [])

theorem splits_one_concat (hone : ∀ piece, Takes symbol piece ↔ ∃ a, piece = [a] ∧ Takes₁ a) :
    Splits Takes (pattern ++ [symbol]) (text ++ [a]) ↔ Splits Takes pattern text ∧ Takes₁ a := by
  rw [splits_concat]
  constructor
  · rintro ⟨before, piece, hbefore, hpiece, happend⟩
    obtain ⟨b, rfl, hb⟩ := (hone piece).mp hpiece
    obtain ⟨rfl, hlast⟩ := append_inj' happend rfl
    cases hlast
    exact ⟨hbefore, hb⟩
  · rintro ⟨hbefore, ha⟩
    exact ⟨text, [a], hbefore, (hone [a]).mpr ⟨a, rfl, ha⟩, rfl⟩

end Single

end Wildcards
