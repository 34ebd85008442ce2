import Mathlib.Logic.Function.Basic

/-! # Accounts under exclusive locks

Only the holder of an account's lock appends to it; its entries are settled when it releases the
lock. An account is the settled entries in the order of the releases and those of the holder.
-/
namespace Ledger

open Function List

variable {κ α : Type} {total settled : κ → List α} {owner : κ → Option Nat}
  {entries : Nat → κ → List α} {k : κ} {i : Nat}

def held (owner : κ → Option Nat) (entries : Nat → κ → List α) (k : κ) : List α :=
  match owner k with
  | some i => entries i k
  | none => []

structure Balanced (total settled : κ → List α) (owner : κ → Option Nat)
    (entries : Nat → κ → List α) : Prop where
  balance : ∀ k, total k = settled k ++ held owner entries k
  unheld : ∀ i k, owner k ≠ some i → entries i k = []

theorem held_of_owner (h : owner k = some i) : held owner entries k = entries i k := by
  rw [held, h]

theorem held_of_free (h : owner k = none) : held owner entries k = [] := by
  rw [held, h]

theorem held_congr {owner' : κ → Option Nat} {entries' : Nat → κ → List α}
    (howner : owner' k = owner k) (hentries : ∀ i, entries' i k = entries i k) :
    held owner' entries' k = held owner entries k := by
  unfold held
  rw [howner]
  cases owner k with
  | none => rfl
  | some i => exact hentries i

section Steps
variable [DecidableEq κ] (h : Balanced total settled owner entries)
include h

theorem Balanced.acquire (hfree : owner k = none) (i : Nat) :
    Balanced total settled (update owner k (some i)) entries where
  balance k' := by
    rw [h.balance]
    by_cases heq : k' = k
    · subst heq
      have hnone : entries i k' = [] := h.unheld i k' (by simp [hfree])
      rw [held_of_free hfree, held_of_owner (update_self _ _ _), hnone]
    · rw [held_congr (update_of_ne heq _ _) fun _ => rfl]
  unheld j k' hne := by
    refine h.unheld j k' fun howner => hne ?_
    have heq : k' ≠ k := by
      rintro rfl
      cases hfree.symm.trans howner
    rw [update_of_ne heq, howner]

theorem Balanced.release (howner : owner k = some i) :
    Balanced total (update settled k (settled k ++ entries i k))
      (update owner k none)
      (update entries i (update (entries i) k [])) where
  balance k' := by
    rw [h.balance]
    by_cases heq : k' = k
    · subst heq
      rw [held_of_owner howner, held_of_free (update_self _ _ _), update_self, append_nil]
    · rw [update_of_ne heq, held_congr (update_of_ne heq _ _) fun j => ?_]
      by_cases hj : j = i
      · subst hj
        rw [update_self, update_of_ne heq]
      · rw [update_of_ne hj]
  unheld j k' hne := by
    by_cases heq : k' = k
    · subst heq
      by_cases hj : j = i
      · subst hj
        rw [update_self, update_self]
      · rw [update_of_ne hj]
        exact h.unheld j k' fun hmine => hj (Option.some.inj (hmine.symm.trans howner))
    · rw [update_of_ne heq] at hne
      have hnone := h.unheld j k' hne
      by_cases hj : j = i
      · subst hj
        rwa [update_self, update_of_ne heq]
      · rwa [update_of_ne hj]

omit [DecidableEq κ] in
theorem Balanced.append {added : κ → List α} (hadded : ∀ k, added k ≠ [] → owner k = some i) :
    Balanced (fun k => total k ++ added k) settled owner
      (update entries i fun k => entries i k ++ added k) where
  balance k := by
    by_cases howner : owner k = some i
    · rw [h.balance, held_of_owner howner, held_of_owner howner, update_self, append_assoc]
    · have hnone : added k = [] := by_contra fun hne => howner (hadded k hne)
      have hheld : held owner (update entries i fun k => entries i k ++ added k) k =
          held owner entries k := by
        refine held_congr rfl fun j => ?_
        by_cases hj : j = i
        · subst hj
          rw [update_self, hnone, append_nil]
        · rw [update_of_ne hj]
      rw [hheld, hnone, append_nil, h.balance]
  unheld j k hne := by
    have hempty := h.unheld j k hne
    by_cases hj : j = i
    · subst hj
      have hnone : added k = [] := by_contra fun hne' => hne (hadded k hne')
      rw [update_self, hempty, hnone, append_nil]
    · rwa [update_of_ne hj]

end Steps

end Ledger
