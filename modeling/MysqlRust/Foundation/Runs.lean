import Mathlib.Logic.Relation

/-! # Guarded runs

A system takes labelled steps, each of which may be disabled. A guard says which labels a
run may take in which state. What every guarded step keeps, every guarded run keeps.
-/
namespace Runs

variable {σ α : Type} (step : σ → α → Option σ) (Guard : σ → α → Prop)

def Next (s s' : σ) : Prop := ∃ a, Guard s a ∧ step s a = some s'

abbrev Reach : σ → σ → Prop := Relation.ReflTransGen (Next step Guard)

def Allowed : σ → List α → Prop
  | _, [] => True
  | s, a :: as => Guard s a ∧ ∀ s' ∈ step s a, Allowed s' as

instance Allowed.decidable [∀ s a, Decidable (Guard s a)] (s : σ) (as : List α) :
    Decidable (Allowed step Guard s as) :=
  match as with
  | [] => .isTrue trivial
  | a :: as =>
    have : ∀ s', Decidable (Allowed step Guard s' as) := fun s' => Allowed.decidable s' as
    inferInstanceAs (Decidable (Guard s a ∧ ∀ s' ∈ step s a, Allowed step Guard s' as))

variable {step : σ → α → Option σ} {Guard : σ → α → Prop}

variable {s s' : σ}

/-- What every allowed step preserves holds in every state reached. -/
theorem Reach.invariant {P : σ → Prop} (h : Reach step Guard s s') (hs : P s)
    (hstep : ∀ s a s', P s → Guard s a → step s a = some s' → P s') : P s' := by
  induction h with
  | refl => exact hs
  | tail _ hnext ih =>
    obtain ⟨a, ha, hstep'⟩ := hnext
    exact hstep _ a _ ih ha hstep'

/-- What every guarded step keeps may be added to the guard. -/
theorem Reach.guarded {P : σ → Prop} (h : Reach step Guard s s') (hs : P s)
    (hstep : ∀ s a s', P s → Guard s a → step s a = some s' → P s') :
    Reach step (fun s a => Guard s a ∧ P s) s s' := by
  induction h with
  | refl => exact .refl
  | tail hrun hnext ih =>
    obtain ⟨a, ha, hstep'⟩ := hnext
    exact ih.tail ⟨a, ⟨ha, Reach.invariant hrun hs hstep⟩, hstep'⟩

theorem Reach.mono {Guard' : σ → α → Prop} (h : Reach step Guard s s')
    (hguard : ∀ s a, Guard s a → Guard' s a) : Reach step Guard' s s' := by
  refine Relation.ReflTransGen.mono ?_ s s' h
  rintro s s' ⟨a, ha, hstep⟩
  exact ⟨a, hguard s a ha, hstep⟩

theorem foldlM_cons_of_some {a : α} (h : step s a = some s') (as : List α) :
    (a :: as).foldlM step s = as.foldlM step s' := by
  rw [List.foldlM_cons, h]
  rfl

theorem foldlM_append_of_some {as : List α} (h : as.foldlM step s = some s') (as' : List α) :
    (as ++ as').foldlM step s = as'.foldlM step s' := by
  rw [List.foldlM_append, h]
  rfl

/-- A schedule that runs shows its last state to be reached. -/
theorem Allowed.reach {as : List α} (h : Allowed step Guard s as)
    (hrun : as.foldlM step s = some s') : Reach step Guard s s' := by
  induction as generalizing s with
  | nil =>
    cases hrun
    exact .refl
  | cons a as ih =>
    obtain ⟨s₁, hs₁, hrun⟩ := Option.bind_eq_some_iff.mp hrun
    exact .head ⟨a, h.1, hs₁⟩ (ih (h.2 s₁ hs₁) hrun)

end Runs
