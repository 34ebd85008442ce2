import MysqlRust.Foundation.Lists
import MysqlRust.Foundation.Outcome

/-! # Procedures on a state

A procedure reads and changes a state and ends in an outcome. What it changed before an
error or a panic stays changed.
-/

def Proc (σ ε α : Type) : Type := σ → Outcome ε α × σ

namespace Proc

open List
variable {σ ε α β γ : Type}

protected def pure (a : α) : Proc σ ε α := fun s => (.ok a, s)

protected def bind (x : Proc σ ε α) (f : α → Proc σ ε β) : Proc σ ε β := fun s =>
  match x s with
  | (.ok a, s') => f a s'
  | (.err e, s') => (.err e, s')
  | (.panic, s') => (.panic, s')

instance : Monad (Proc σ ε) where
  pure := Proc.pure
  bind := Proc.bind

instance : LawfulMonad (Proc σ ε) := LawfulMonad.mk' _
  (fun x => by
    funext s
    simp only [Functor.map, Proc.bind]
    rcases x s with ⟨_ | _ | _, s'⟩ <;> rfl)
  (fun _ _ => rfl)
  (fun x f g => by
    funext s
    simp only [Bind.bind, Proc.bind]
    rcases x s with ⟨_ | _ | _, s'⟩ <;> rfl)

def lift (x : Outcome ε α) : Proc σ ε α := fun s => (x, s)

instance : MonadLift (Outcome ε) (Proc σ ε) where
  monadLift := lift

@[simp] theorem liftM_eq (x : Outcome ε α) : (liftM x : Proc σ ε α) = lift x := rfl

@[simp] theorem lift_ok_bind (a : α) (f : α → Proc σ ε β) :
    ((lift (.ok a) : Proc σ ε α) >>= f) = f a := rfl

def read (f : σ → Outcome ε α) : Proc σ ε α := fun s => (f s, s)

structure Part (τ σ : Type) where
  get : τ → σ
  set : σ → τ → τ
  get_set : ∀ s t, get (set s t) = s
  set_set : ∀ s s' t, set s (set s' t) = set s t
  set_get : ∀ t, set (get t) t = t

def within {τ : Type} (p : Part τ σ) (x : Proc σ ε α) : Proc τ ε α := fun t =>
  ((x (p.get t)).1, p.set (x (p.get t)).2 t)

variable {s : σ} {x : Proc σ ε α} {f : α → Proc σ ε β}

variable {s' : σ} {b : β} {r : Outcome ε α}

theorem bind_ok {a : α} (h : x s = (.ok a, s')) : (x >>= f) s = f a s' := by
  simp only [Bind.bind, Proc.bind, h]

theorem bind_eq_ok {s'' : σ} (h : (x >>= f) s = (.ok b, s'')) :
    ∃ a s', x s = (.ok a, s') ∧ f a s' = (.ok b, s'') := by
  simp only [Bind.bind, Proc.bind] at h
  rcases hxs : x s with ⟨a | e | _, s'⟩
  · rw [hxs] at h
    exact ⟨a, s', rfl, h⟩
  · rw [hxs] at h
    cases h
  · rw [hxs] at h
    cases h

theorem ite_bind {c : Prop} [Decidable c] (x y : Proc σ ε α) (f : α → Proc σ ε β) :
    ((if c then x else y) >>= f) = if c then x >>= f else y >>= f := by
  split <;> rfl

theorem bind_fail {f : α → Proc σ ε α} (h : x s = (r, s')) (hr : ∀ a, r ≠ .ok a) :
    (x >>= f) s = (r, s') := by
  simp only [Bind.bind, Proc.bind, h]
  cases r with
  | ok a => exact absurd rfl (hr a)
  | err e => rfl
  | panic => rfl

theorem bind_of_read {g : α → Outcome ε β} (hx : x s = (r, s))
    (hf : ∀ a, r = .ok a → f a s = (g a, s)) : (x >>= f) s = (r >>= g, s) := by
  simp only [Bind.bind, Proc.bind, hx]
  cases r with
  | ok a => exact hf a rfl
  | err e => rfl
  | panic => rfl

theorem foldlM_of_read {f : β → α → Proc σ ε β} {g : β → α → Outcome ε β} {P : β → Prop}
    (hf : ∀ b a, P b → f b a s = (g b a, s)) (hP : ∀ b a b', P b → g b a = .ok b' → P b')
    (l : List α) (hb : P b) : l.foldlM f b s = (l.foldlM g b, s) := by
  induction l generalizing b with
  | nil => rfl
  | cons a l ih =>
    rw [foldlM_cons, foldlM_cons]
    exact bind_of_read (hf b a hb) fun b' hb' => ih (hP b a b' hb hb')

section
variable {τ : Type} (p : Part τ σ)

theorem within_pure (a : α) : within p (pure a : Proc σ ε α) = pure a := by
  funext t
  exact Prod.ext rfl (p.set_get t)

theorem within_lift (x : Outcome ε α) : within p (lift x : Proc σ ε α) = lift x := by
  funext t
  exact Prod.ext rfl (p.set_get t)

theorem within_bind (x : Proc σ ε α) (f : α → Proc σ ε β) :
    within p (x >>= f) = within p x >>= fun a => within p (f a) := by
  funext t
  simp only [within, Bind.bind, Proc.bind]
  rcases x (p.get t) with ⟨a | e | _, s⟩
  · simp only [p.get_set, p.set_set]
  · rfl
  · rfl

theorem within_map (f : α → β) (x : Proc σ ε α) : within p (f <$> x) = f <$> within p x := by
  rw [map_eq_pure_bind, within_bind, map_eq_pure_bind]
  simp only [within_pure]

theorem within_mapM (f : α → Proc σ ε β) (xs : List α) :
    within p (xs.mapM f) = xs.mapM fun a => within p (f a) := by
  induction xs with
  | nil => exact within_pure p []
  | cons a xs ih =>
    rw [mapM_cons, mapM_cons, within_bind]
    simp only [within_bind, ih, within_pure]

/-- Started in `P`, the procedure returns with `Q` or fails in `E`. -/
def Triple (P : σ → Prop) (x : Proc σ ε α) (Q : α → σ → Prop) (E : σ → Prop) : Prop :=
  ∀ s, P s → match x s with
    | (.ok a, s') => Q a s'
    | (.err _, s') => E s'
    | (.panic, s') => E s'

variable {P : σ → Prop} {Q : α → σ → Prop} {E : σ → Prop}
variable {x : Proc σ ε α} {f : α → Proc σ ε β}
variable {R : β → σ → Prop} {xs : List α}

theorem Triple.pure {a : α} (h : ∀ s, P s → Q a s) : Triple P (Pure.pure a : Proc σ ε α) Q E := h

theorem Triple.bind (hx : Triple P x Q E) (hf : ∀ a, Triple (Q a) (f a) R E) :
    Triple P (x >>= f) R E := by
  intro s hs
  have h := hx s hs
  simp only [Bind.bind, Proc.bind]
  rcases hxs : x s with ⟨a | e | _, s'⟩
  · rw [hxs] at h
    exact hf a s' h
  · rw [hxs] at h
    exact h
  · rw [hxs] at h
    exact h

theorem Triple.mono {P' : σ → Prop} {Q' : α → σ → Prop} {E' : σ → Prop} (hx : Triple P x Q E)
    (hP : ∀ s, P' s → P s) (hQ : ∀ a s, Q a s → Q' a s) (hE : ∀ s, E s → E' s) :
    Triple P' x Q' E' := by
  intro s hs
  have h := hx s (hP s hs)
  rcases hxs : x s with ⟨a | e | _, s'⟩ <;> rw [hxs] at h
  · exact hQ a s' h
  · exact hE s' h
  · exact hE s' h

theorem Triple.snd (hx : Triple P x (fun _ => E) E) {s : σ} (hs : P s) : E (x s).2 := by
  have h := hx s hs
  rcases hxs : x s with ⟨a | e | _, s'⟩
  all_goals
    rw [hxs] at h
    exact h

theorem Triple.map {f : α → β} (hx : Triple P x Q E) (hf : ∀ a s, Q a s → R (f a) s) :
    Triple P (f <$> x) R E := by
  rw [map_eq_pure_bind]
  exact hx.bind fun a => .pure (hf a)

theorem Triple.ite {c : Prop} [Decidable c] {y : Proc σ ε α} (hx : c → Triple P x Q E)
    (hy : ¬ c → Triple P y Q E) : Triple P (if c then x else y) Q E := by
  split
  · exact hx ‹_›
  · exact hy ‹_›

theorem Triple.lift {x : Outcome ε α} (hok : ∀ s a, P s → x = .ok a → Q a s)
    (hfail : ∀ s, P s → E s) : Triple P (lift x : Proc σ ε α) Q E := by
  intro s hs
  cases x with
  | ok a => exact hok s a hs rfl
  | err e => exact hfail s hs
  | panic => exact hfail s hs

theorem Triple.read {f : σ → Outcome ε α} (hok : ∀ s a, P s → f s = .ok a → Q a s)
    (hfail : ∀ s, P s → E s) : Triple P (read f) Q E := by
  intro s hs
  simp only [Proc.read]
  cases hf : f s with
  | ok a => exact hok s a hs hf
  | err e => exact hfail s hs
  | panic => exact hfail s hs

theorem Triple.mapM {R : α → β → Prop} (hf : ∀ a ∈ xs, Triple P (f a) (fun b s => R a b ∧ P s) E) :
    Triple P (xs.mapM f) (fun bs s => List.Forall₂ R xs bs ∧ P s) E := by
  induction xs with
  | nil => exact .pure fun s hs => ⟨.nil, hs⟩
  | cons a xs ih =>
    rw [mapM_cons]
    intro s hs
    refine Triple.bind (hf a mem_cons_self) (fun b => ?_) s hs
    intro s₁ ⟨hb, hs₁⟩
    refine Triple.bind (ih fun c hc => hf c (mem_cons_of_mem a hc)) (fun bs => ?_) s₁ hs₁
    exact Triple.pure fun s₂ ⟨hbs, hs₂⟩ => ⟨.cons hb hbs, hs₂⟩

/-- A loop whose turns move a counter on, each by its cost or, when it fails, by less. -/
theorem Triple.thread {P : Nat → σ → Prop} {f : α → Proc σ ε β} {R : Nat → α → β → Nat → Prop}
    {cost : α → Nat} {xs : List α} (hR : ∀ k a b k', R k a b k' → k' = k + cost a)
    (hf : ∀ k, ∀ a ∈ xs, Triple (P k) (f a) (fun b s => ∃ k', R k a b k' ∧ P k' s)
      fun s => ∃ k' ≤ k + cost a, P k' s) (k : Nat) :
    Triple (P k) (xs.mapM f) (fun bs s => ∃ k', Lists.Threaded R k xs bs k' ∧ P k' s)
      fun s => ∃ k' ≤ k + (xs.map cost).sum, P k' s := by
  induction xs generalizing k with
  | nil => exact .pure fun s hs => ⟨k, .nil k, hs⟩
  | cons a xs ih =>
    rw [mapM_cons, map_cons, sum_cons]
    refine .bind ((hf k a mem_cons_self).mono (fun _ hs => hs) (fun _ _ h => h) ?_)
      fun b => ?_
    · rintro s ⟨k', hk', hs⟩
      exact ⟨k', by omega, hs⟩
    · rintro s ⟨k₁, hb, hs⟩
      have hcost := hR _ _ _ _ hb
      have hrest := ih (fun k c hc => hf k c (mem_cons_of_mem a hc)) k₁
      refine Triple.bind (hrest.mono (fun _ hs => hs) (fun _ _ h => h) ?_) (fun bs => ?_) s hs
      · rintro s' ⟨k', hk', hs'⟩
        exact ⟨k', by omega, hs'⟩
      · rintro s' ⟨k', hbs, hs'⟩
        exact ⟨k', .cons hb hbs, hs'⟩

end

/-- Whenever `x` returns, so does `y`, with related results in related states. -/
def Sim {τ : Type} (R : σ → τ → Prop) (x : Proc σ ε α) (y : Proc τ ε β)
    (S : α → σ → β → τ → Prop) : Prop :=
  ∀ s t, R s t → ∀ a s', x s = (.ok a, s') → ∃ b t', y t = (.ok b, t') ∧ S a s' b t'

section Sim
variable {τ δ : Type} {R : σ → τ → Prop} {S : α → σ → β → τ → Prop} {T : γ → σ → δ → τ → Prop}
variable {y : Proc τ ε β}

theorem Sim.pure {a : α} {b : β} (h : ∀ s t, R s t → S a s b t) :
    Sim R (Pure.pure a : Proc σ ε α) (Pure.pure b : Proc τ ε β) S := by
  intro s t hst a' s' ha
  cases ha
  exact ⟨b, t, rfl, h s t hst⟩

theorem Sim.bind {x : Proc σ ε α} {f : α → Proc σ ε γ} {g : β → Proc τ ε δ} (hxy : Sim R x y S)
    (hfg : ∀ a b, Sim (fun s t => S a s b t) (f a) (g b) T) : Sim R (x >>= f) (y >>= g) T := by
  intro s t hst c s'' hc
  obtain ⟨a, s', hxs, hfs⟩ := bind_eq_ok hc
  obtain ⟨b, t', hyt, hS⟩ := hxy s t hst a s' hxs
  obtain ⟨d, t'', hgt, hT⟩ := hfg a b s' t' hS c s'' hfs
  exact ⟨d, t'', by rw [bind_ok hyt, hgt], hT⟩

theorem Sim.lift_err {e : ε} : Sim R (lift (.err e) : Proc σ ε α) y S := by
  intro s t _ a s' ha
  cases ha

theorem Sim.lift_panic : Sim R (lift .panic : Proc σ ε α) y S := by
  intro s t _ a s' ha
  cases ha

end Sim

end Proc
