import Mathlib.Data.List.Basic

/-! # Iterated compression

A compression function is folded over the blocks of a message. Two messages that end in one
state have the same blocks, or on the way to it two different inputs have one result.
-/
namespace Compression

open List
variable {σ β : Type} {compress : σ → β → σ} {s t : σ} {b c : β} {bs cs : List β}

def inputs (compress : σ → β → σ) : σ → List β → List (σ × β)
  | _, [] => []
  | s, b :: bs => (s, b) :: inputs compress (compress s b) bs

/-- Two different inputs, one of each list, with the same result. -/
def Collide (compress : σ → β → σ) (xs ys : List (σ × β)) : Prop :=
  ∃ x ∈ xs, ∃ y ∈ ys, x ≠ y ∧ compress x.1 x.2 = compress y.1 y.2

theorem inputs_concat (bs : List β) (b : β) (s : σ) :
    inputs compress s (bs ++ [b]) = inputs compress s bs ++ [(bs.foldl compress s, b)] := by
  induction bs generalizing s with
  | nil => rfl
  | cons b' bs ih => exact congrArg ((s, b') :: ·) (ih (compress s b'))

theorem Collide.mono {xs xs' ys ys' : List (σ × β)} (h : Collide compress xs ys) (hxs : xs ⊆ xs')
    (hys : ys ⊆ ys') : Collide compress xs' ys' := by
  obtain ⟨x, hx, y, hy, hne, heq⟩ := h
  exact ⟨x, hxs hx, y, hys hy, hne, heq⟩

theorem eq_or_collide {xs ys : List (σ × β)} (hs : (s, b) ∈ xs) (ht : (t, c) ∈ ys)
    (h : compress s b = compress t c) : (s = t ∧ b = c) ∨ Collide compress xs ys := by
  by_cases heq : (s, b) = (t, c)
  · exact .inl (Prod.mk.inj heq)
  · exact .inr ⟨(s, b), hs, (t, c), ht, heq, h⟩

theorem foldl_eq_or_collide (hlen : bs.length = cs.length)
    (h : bs.foldl compress s = cs.foldl compress t) :
    (s = t ∧ bs = cs) ∨ Collide compress (inputs compress s bs) (inputs compress t cs) := by
  induction bs generalizing cs s t with
  | nil =>
    obtain rfl := eq_nil_of_length_eq_zero hlen.symm
    exact .inl ⟨h, rfl⟩
  | cons b bs ih =>
    obtain ⟨c, cs, rfl⟩ := exists_cons_of_length_eq_add_one hlen.symm
    -- states that agree behind the first block agree before it, or that block collides
    rcases ih (Nat.succ.inj hlen) h with ⟨hstate, rfl⟩ | hcollide
    · rcases eq_or_collide mem_cons_self mem_cons_self hstate with ⟨rfl, rfl⟩ | hcollide
      · exact .inl ⟨rfl, rfl⟩
      · exact .inr hcollide
    · exact .inr (hcollide.mono (subset_cons_self _ _) (subset_cons_self _ _))

/-- Different blocks that lead to one state, where the last block tells the number of blocks. -/
theorem collide_of_ne (hlast : bs.length ≠ cs.length → b ≠ c) (hne : bs ++ [b] ≠ cs ++ [c])
    (h : (bs ++ [b]).foldl compress s = (cs ++ [c]).foldl compress s) :
    Collide compress (inputs compress s (bs ++ [b])) (inputs compress s (cs ++ [c])) := by
  rw [foldl_concat, foldl_concat] at h
  rw [inputs_concat, inputs_concat]
  rcases eq_or_collide (mem_append_right _ mem_cons_self)
    (mem_append_right _ mem_cons_self) h with ⟨hstate, rfl⟩ | hcollide
  · have hlen : bs.length = cs.length := by
      by_contra hlen
      exact hlast hlen rfl
    rcases foldl_eq_or_collide hlen hstate with ⟨-, rfl⟩ | hcollide
    · exact absurd rfl hne
    · exact hcollide.mono (subset_append_left _ _) (subset_append_left _ _)
  · exact hcollide

end Compression
