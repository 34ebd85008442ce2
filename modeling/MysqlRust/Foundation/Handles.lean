import Mathlib.Data.Nat.ModEq

/-! # Keys handed out by a counter that wraps around

A table hands out a key for every value that is put into it; the keys repeat after a period.
What a key stands for is read off the history of the table, most recent event first.
-/
namespace Handles

inductive Event (κ β : Type) where
  | opened (key : κ) (value : β)
  | closed (key : κ)

section History
variable {κ β : Type} [DecidableEq κ]

/-- What a key was last handed out for, unless it was closed since. -/
def current (key : κ) : List (Event κ β) → Option β
  | [] => none
  | .opened k value :: history => if k = key then some value else current key history
  | .closed k :: history => if k = key then none else current key history

def since (key : κ) : List (Event κ β) → Nat
  | [] => 0
  | .opened k _ :: history => if k = key then 0 else since key history + 1
  | .closed _ :: history => since key history

inductive Numbered (key : Nat → κ) : Nat → List (Event κ β) → Prop
  | nil : Numbered key 0 []
  | opened {n : Nat} {history : List (Event κ β)} (h : Numbered key n history) (value : β) :
      Numbered key (n + 1) (.opened (key n) value :: history)
  | closed {n : Nat} {history : List (Event κ β)} (h : Numbered key n history) (k : κ) :
      Numbered key n (.closed k :: history)

variable {key : Nat → κ} {period n : Nat} {history : List (Event κ β)}

theorem Numbered.last (hkey : ∀ i j, key i = key j ↔ i ≡ j [MOD period]) (hperiod : 0 < period)
    (h : Numbered key n history) {k : κ} (hk : (current k history).isSome) :
    ∃ m, key m = k ∧ n = m + 1 + since k history ∧ since k history < period := by
  induction h with
  | nil => cases hk
  | @opened n history h value ih =>
    rw [current] at hk
    rw [since]
    split_ifs at hk ⊢ with heq
    · exact ⟨n, heq, rfl, hperiod⟩
    · obtain ⟨m, hm, hn, hlt⟩ := ih hk
      refine ⟨m, hm, by omega, ?_⟩
      by_contra hwrap
      -- after a whole period the key would have been handed out again
      have hsame : n = m + period := by omega
      refine heq (Eq.trans ?_ hm)
      rw [hkey, hsame]
      exact Nat.add_modEq_right
  | @closed n history h k' ih =>
    rw [current] at hk
    rw [since]
    split_ifs at hk with heq
    · cases hk
    · exact ih hk

/-- The next key is free exactly when no key in use is as old as a period. -/
theorem Numbered.next_free_iff (hkey : ∀ i j, key i = key j ↔ i ≡ j [MOD period])
    (hperiod : 0 < period) (h : Numbered key n history) :
    current (key n) history = none ↔
      ∀ k, (current k history).isSome → since k history + 1 < period := by
  constructor
  · intro hfree k hk
    obtain ⟨m, hm, hn, hlt⟩ := h.last hkey hperiod hk
    by_contra hold
    have hsame : n = m + period := by omega
    have hnext : key n = k := by
      rw [← hm, hkey, hsame]
      exact Nat.add_modEq_right
    rw [hnext] at hfree
    rw [hfree] at hk
    cases hk
  · intro hyoung
    by_contra hused
    have hk := Option.isSome_iff_ne_none.mpr hused
    obtain ⟨m, hm, hn, hlt⟩ := h.last hkey hperiod hk
    have hlt := hyoung _ hk
    have hmod : m ≡ n [MOD period] := (hkey m n).mp hm
    have hdvd := (Nat.modEq_iff_dvd' (by omega)).mp hmod
    exact absurd (Nat.le_of_dvd (by omega) hdvd) (by omega)

end History

end Handles
