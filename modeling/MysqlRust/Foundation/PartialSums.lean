import Mathlib.Algebra.Order.BigOperators.Group.List
import Mathlib.Data.Int.Order.Basic
import Mathlib.Tactic.Ring

/-! # Partial sums

A sum taken item by item stays within bounds when every partial sum does. Whether it does
depends on the order of the items, unless the positive ones alone and the negative ones alone
stay within the bounds.
-/
namespace PartialSums

open List
variable {lo hi start : ℤ}

def Within (lo hi : ℤ) : ℤ → List ℤ → Prop
  | _, [] => True
  | start, n :: ns => (lo ≤ start + n ∧ start + n ≤ hi) ∧ Within lo hi (start + n) ns

def decideWithin (lo hi : ℤ) : (start : ℤ) → (l : List ℤ) → Decidable (Within lo hi start l)
  | _, [] => inferInstanceAs (Decidable True)
  | start, n :: ns =>
    have := decideWithin lo hi (start + n) ns
    inferInstanceAs (Decidable (_ ∧ _))

instance (lo hi start : ℤ) (l : List ℤ) : Decidable (Within lo hi start l) :=
  decideWithin lo hi start l

theorem within_append {l l' : List ℤ} :
    Within lo hi start (l ++ l') ↔ Within lo hi start l ∧ Within lo hi (start + l.sum) l' := by
  induction l generalizing start with
  | nil => simp [Within]
  | cons n ns ih => rw [cons_append, Within, Within, ih, ← and_assoc, sum_cons, add_assoc]

theorem Within.sum {l : List ℤ} (h : Within lo hi start l) (hstart : lo ≤ start ∧ start ≤ hi) :
    lo ≤ start + l.sum ∧ start + l.sum ≤ hi := by
  induction l generalizing start with
  | nil => simpa using hstart
  | cons n ns ih =>
    rw [sum_cons, ← add_assoc]
    exact ih h.2 h.1

def positives (l : List ℤ) : ℤ := (l.map (max · 0)).sum

def negatives (l : List ℤ) : ℤ := (l.map (min · 0)).sum

theorem positives_nonneg (l : List ℤ) : 0 ≤ positives l := by
  refine sum_nonneg fun n hn => ?_
  obtain ⟨m, -, rfl⟩ := mem_map.mp hn
  exact le_max_right m 0

theorem negatives_nonpos (l : List ℤ) : negatives l ≤ 0 := by
  induction l with
  | nil => exact le_refl 0
  | cons n ns ih =>
    rw [negatives, map_cons, sum_cons]
    exact add_nonpos (min_le_right n 0) ih

/-- In no order does a partial sum leave what the negative and the positive items span. -/
theorem within_of_signs {l : List ℤ} (hlo : lo ≤ start + negatives l)
    (hhi : start + positives l ≤ hi) : Within lo hi start l := by
  induction l generalizing start with
  | nil => trivial
  | cons n ns ih =>
    have hneg := negatives_nonpos ns
    have hpos := positives_nonneg ns
    rw [negatives, map_cons, sum_cons] at hlo
    rw [positives, map_cons, sum_cons] at hhi
    change lo ≤ start + (min n 0 + negatives ns) at hlo
    change start + (max n 0 + positives ns) ≤ hi at hhi
    exact ⟨by omega, ih (by omega) (by omega)⟩

theorem sum_filter_nonneg (l : List ℤ) : (l.filter (0 ≤ ·)).sum = positives l := by
  induction l with
  | nil => rfl
  | cons n ns ih =>
    rw [positives, map_cons, sum_cons, ← positives, ← ih, filter_cons]
    by_cases hn : 0 ≤ n
    · rw [if_pos (by simpa using hn), sum_cons, max_eq_left hn]
    · rw [if_neg (by simpa using hn), max_eq_right (le_of_not_ge hn), zero_add]

theorem sum_filter_nonpos (l : List ℤ) : (l.filter (· ≤ 0)).sum = negatives l := by
  induction l with
  | nil => rfl
  | cons n ns ih =>
    rw [negatives, map_cons, sum_cons, ← negatives, ← ih, filter_cons]
    by_cases hn : n ≤ 0
    · rw [if_pos (by simpa using hn), sum_cons, min_eq_left hn]
    · rw [if_neg (by simpa using hn), min_eq_right (le_of_not_ge hn), zero_add]

section Orders
variable {α : Type} {f : α → Option ℤ} {rows : List α}

theorem exists_perm_front (p : ℤ → Bool) (rows : List α) (f : α → Option ℤ) :
    ∃ (rows' : List α) (back : List ℤ), rows'.Perm rows ∧
      rows'.filterMap f = (rows.filterMap f).filter p ++ back := by
  have hfront : (rows.filter fun a => (f a).any p).filterMap f = (rows.filterMap f).filter p := by
    rw [filterMap_filter, filter_filterMap]
    congr 1
    funext a
    cases f a <;> simp [Option.filter]
  refine ⟨(rows.filter fun a => (f a).any p) ++ rows.filter fun a => !(f a).any p,
    (rows.filter fun a => !(f a).any p).filterMap f, filter_append_perm _ rows, ?_⟩
  rw [filterMap_append, hfront]

/-- The sum stays within the bounds in every order of the items exactly when the positive ones
and the negative ones do by themselves. -/
theorem forall_perm_within_iff (hlo : lo ≤ 0) (hhi : 0 ≤ hi) :
    (∀ rows' : List α, rows'.Perm rows → Within lo hi 0 (rows'.filterMap f)) ↔
      lo ≤ negatives (rows.filterMap f) ∧ positives (rows.filterMap f) ≤ hi := by
  constructor
  · intro h
    have hfront : ∀ p : ℤ → Bool, lo ≤ ((rows.filterMap f).filter p).sum ∧
        ((rows.filterMap f).filter p).sum ≤ hi := by
      intro p
      obtain ⟨rows', back, hperm, hrows'⟩ := exists_perm_front p rows f
      have hwithin := h rows' hperm
      rw [hrows', within_append] at hwithin
      have hsum := hwithin.1.sum ⟨hlo, hhi⟩
      rwa [zero_add] at hsum
    rw [← sum_filter_nonneg, ← sum_filter_nonpos]
    exact ⟨(hfront _).1, (hfront _).2⟩
  · rintro ⟨hneg, hpos⟩ rows' hperm
    have hmap := hperm.filterMap f
    apply within_of_signs
    · rwa [zero_add, negatives, (hmap.map _).sum_eq]
    · rwa [zero_add, positives, (hmap.map _).sum_eq]

end Orders

end PartialSums
