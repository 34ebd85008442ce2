import MysqlRust.Foundation.Lists
import Mathlib.Data.List.Basic
import Mathlib.Data.List.Induction

/-! # Outcomes of code that may fail or panic

Sequencing stops at the first error or panic. A panic is never confused with a reported error,
and an absent panic has to be proved.
-/

inductive Outcome (ε α : Type) where
  | ok (value : α)
  | err (error : ε)
  | panic
  deriving DecidableEq, Repr

namespace Outcome

open List
variable {ε α β γ : Type}

protected def bind : Outcome ε α → (α → Outcome ε β) → Outcome ε β
  | ok a, f => f a
  | err e, _ => err e
  | panic, _ => panic

instance : Monad (Outcome ε) where
  pure := ok
  bind := Outcome.bind

@[simp] theorem pure_eq (a : α) : (pure a : Outcome ε α) = ok a := rfl
@[simp] theorem ok_bind (a : α) (f : α → Outcome ε β) : (ok a >>= f) = f a := rfl
@[simp] theorem err_bind (e : ε) (f : α → Outcome ε β) : (err e >>= f) = err e := rfl
@[simp] theorem panic_bind (f : α → Outcome ε β) : ((panic : Outcome ε α) >>= f) = panic := rfl

instance : LawfulMonad (Outcome ε) := LawfulMonad.mk' _
  (fun x => by cases x <;> rfl) (fun _ _ => rfl) (fun x _ _ => by cases x <;> rfl)

@[simp] theorem map_ok (f : α → β) (a : α) : f <$> (ok a : Outcome ε α) = ok (f a) := rfl
@[simp] theorem map_err (f : α → β) (e : ε) : f <$> (err e : Outcome ε α) = err e := rfl
@[simp] theorem map_panic (f : α → β) : f <$> (panic : Outcome ε α) = panic := rfl

variable {x : Outcome ε α} {f : α → Outcome ε β} {b : β} {xs l : List α} {i : Nat} {e : ε} {a : α}

theorem bind_eq_ok : x >>= f = ok b ↔ ∃ a, x = ok a ∧ f a = ok b := by
  cases x <;> simp

theorem map_eq_ok {f : α → β} : f <$> x = ok b ↔ ∃ a, x = ok a ∧ f a = b := by
  cases x <;> simp

theorem map_eq_err {f : α → β} : f <$> x = err e ↔ x = err e := by
  cases x <;> simp

theorem bind_ok_eq_err {f : α → β} : (x >>= fun a => ok (f a)) = err e ↔ x = err e := by
  cases x <;> simp

theorem bind_ne_panic (hx : x ≠ panic) (hf : ∀ a, x = ok a → f a ≠ panic) : x >>= f ≠ panic := by
  cases x with
  | ok a => exact hf a rfl
  | err e => simp
  | panic => exact absurd rfl hx

theorem bind_ne_err (hx : ∀ e, x ≠ err e) (hf : ∀ a e, f a ≠ err e) (e : ε) : x >>= f ≠ err e := by
  cases x with
  | ok a => exact hf a e
  | err e' => exact absurd rfl (hx e')
  | panic => simp

theorem foldlM_ne_err {f : β → α → Outcome ε β} (hf : ∀ b a e, f b a ≠ err e) (l : List α) (b : β)
    (e : ε) : l.foldlM f b ≠ err e := by
  induction l generalizing b e with
  | nil => simp
  | cons a l ih =>
    rw [foldlM_cons]
    exact bind_ne_err (hf b a) ih e

def toOption : Outcome ε α → Option α
  | ok a => some a
  | _ => none

def isOk : Outcome ε α → Bool
  | ok _ => true
  | _ => false

theorem mem_toOption : a ∈ x.toOption ↔ x = ok a := by
  cases x <;> simp [toOption]

theorem isOk_iff : x.isOk = true ↔ ∃ a, x = ok a := by
  cases x <;> simp [isOk]

theorem isOk_bind_pure (x : Outcome ε α) (f : α → β) :
    (do let a ← x; pure (f a) : Outcome ε β).isOk = x.isOk := by
  cases x <;> rfl

theorem isOk_bind_bind_pure {γ : Type} (x : Outcome ε α) (y : Outcome ε β) (f : α → β → γ) :
    (do let a ← x; let b ← y; pure (f a b) : Outcome ε γ).isOk = (x.isOk && y.isOk) := by
  cases x with
  | ok a => exact isOk_bind_pure y (f a)
  | err e => rfl
  | panic => rfl

theorem isOk_mapM {p : α → Bool} (h : ∀ a, (f a).isOk = p a) (l : List α) :
    (l.mapM f).isOk = l.all p := by
  induction l with
  | nil => rfl
  | cons a l ih => rw [mapM_cons, isOk_bind_bind_pure, h, ih, all_cons]

def index (xs : List α) (i : Nat) : Outcome ε α :=
  match xs[i]? with
  | some a => ok a
  | none => panic

theorem index_of_lt (h : i < xs.length) : (index xs i : Outcome ε α) = ok xs[i] := by
  simp [index, List.getElem?_eq_getElem h]

theorem index_eq_ok : (index xs i : Outcome ε α) = ok a ↔ xs[i]? = some a := by
  unfold index
  cases xs[i]? <;> simp

theorem index_ne_err : (index xs i : Outcome ε α) ≠ err e := by
  unfold index
  cases xs[i]? <;> simp

def removeAt (xs : List α) (i : Nat) : Outcome ε (List α) :=
  if i < xs.length then ok (xs.eraseIdx i) else panic

theorem removeAt_of_lt (h : i < xs.length) :
    (removeAt xs i : Outcome ε (List α)) = ok (xs.eraseIdx i) := if_pos h

theorem mapM_of_ok {g : α → β} (h : ∀ a ∈ l, f a = ok (g a)) : l.mapM f = ok (l.map g) := by
  induction l with
  | nil => rfl
  | cons a l ih =>
    rw [mapM_cons, h a mem_cons_self, ok_bind,
      ih fun b hb => h b (mem_cons_of_mem a hb), ok_bind, pure_eq, map_cons]

theorem mapM_eq_ok {bs : List β} :
    l.mapM f = ok bs ↔ List.Forall₂ (fun a b => f a = ok b) l bs := by
  induction l generalizing bs with
  | nil =>
    rw [mapM_nil, pure_eq, ok.injEq, forall₂_nil_left_iff]
    exact eq_comm
  | cons a l ih =>
    rw [mapM_cons, forall₂_cons_left_iff]
    simp only [bind_eq_ok, ih, pure_eq, ok.injEq]
    constructor
    · rintro ⟨b, hb, bs', hbs', rfl⟩
      exact ⟨b, bs', hb, hbs', rfl⟩
    · rintro ⟨b, bs', hb, hbs', rfl⟩
      exact ⟨b, hb, bs', hbs', rfl⟩

theorem foldlM_concat {f : β → α → Outcome ε β} {c d : β} (h : l.foldlM f b = ok c)
    (h' : f c a = ok d) : (l ++ [a]).foldlM f b = ok d := by
  rw [foldlM_append, h, ok_bind, foldlM_cons, h', ok_bind, foldlM_nil, pure_eq]

/-- What every step preserves holds at the end of a loop that returns. -/
theorem foldlM_invariant {f : β → α → Outcome ε β} {P : β → Prop}
    (hf : ∀ b a b', P b → f b a = ok b' → P b') {b' : β} (hb : P b) (h : l.foldlM f b = ok b') :
    P b' := by
  induction l generalizing b with
  | nil =>
    cases h
    exact hb
  | cons a l ih =>
    rw [foldlM_cons] at h
    obtain ⟨c, hc, h⟩ := bind_eq_ok.mp h
    exact ih (hf b a c hb hc) h

section
variable {P : α → Prop} {x : Outcome ε α}
variable {Q : β → Prop}

/-- No panic, and every returned value satisfies `P`; a reported error promises nothing. -/
def Post (x : Outcome ε α) (P : α → Prop) : Prop :=
  match x with
  | ok a => P a
  | err _ => True
  | panic => False

@[simp] theorem post_ok {a : α} : (ok a : Outcome ε α).Post P ↔ P a := Iff.rfl
@[simp] theorem post_err {e : ε} : (err e : Outcome ε α).Post P := trivial

theorem Post.ne_panic (h : x.Post P) : x ≠ panic := by
  rintro rfl
  exact h

theorem Post.of_ok {a : α} (h : x.Post P) (hx : x = ok a) : P a := by
  rwa [hx] at h

theorem Post.bind {f : α → Outcome ε β} (hx : x.Post P) (hf : ∀ a, P a → (f a).Post Q) :
    (x >>= f).Post Q := by
  cases x with
  | ok a => exact hf a hx
  | err e => trivial
  | panic => exact hx

theorem post_of_ne_panic (h : x ≠ panic) : x.Post fun _ => True := by
  cases x with
  | ok a => trivial
  | err e => trivial
  | panic => exact absurd rfl h

theorem Post.mono {Q : α → Prop} (hx : x.Post P) (h : ∀ a, P a → Q a) : x.Post Q := by
  cases x with
  | ok a => exact h a hx
  | err e => trivial
  | panic => exact hx

theorem Post.map {f : α → β} (hx : x.Post P) (hf : ∀ a, P a → Q (f a)) : (f <$> x).Post Q := by
  cases x with
  | ok a => exact hf a hx
  | err e => trivial
  | panic => exact hx

theorem Post.ite {c : Prop} [Decidable c] {y : Outcome ε α} (hx : x.Post P) (hy : y.Post P) :
    (if c then x else y).Post P := by
  split
  · exact hx
  · exact hy

theorem index_post {xs : List α} {i : Nat} (h : i < xs.length) :
    (index xs i : Outcome ε α).Post fun _ => True := by
  rw [index_of_lt h]
  trivial

/-- A rule for a loop whose invariant speaks of the part already done. -/
theorem Post.foldlM_along {f : β → α → Outcome ε β} {P : List α → β → Prop} {l : List α} {b : β}
    (hb : P [] b)
    (hf : ∀ done a, done ++ [a] <+: l → ∀ b, P done b → (f b a).Post (P (done ++ [a]))) :
    (l.foldlM f b).Post (P l) := by
  induction l using List.reverseRecOn with
  | nil => exact hb
  | append_singleton l a ih =>
    rw [foldlM_append]
    refine (ih fun done a' hdone => hf done a' (hdone.trans (prefix_append l [a]))).bind ?_
    intro b' hb'
    rw [foldlM_cons]
    exact (hf l a prefix_rfl b' hb').bind fun _ h => h

theorem Post.foldlM {f : β → α → Outcome ε β} {P : β → Prop} {l : List α}
    (hf : ∀ b, P b → ∀ a ∈ l, (f b a).Post P) {b : β} (hb : P b) : (l.foldlM f b).Post P :=
  foldlM_along (P := fun _ => P) hb fun _ a hdone b h =>
    hf b h a (hdone.subset mem_concat_self)

theorem Post.mapM {f : α → Outcome ε β} {R : α → β → Prop} {l : List α}
    (hf : ∀ a ∈ l, (f a).Post (R a)) : (l.mapM f).Post (List.Forall₂ R l) := by
  induction l with
  | nil => exact .nil
  | cons a l ih =>
    rw [mapM_cons]
    refine (hf a mem_cons_self).bind fun b hb => ?_
    refine (ih fun x hx => hf x (mem_cons_of_mem a hx)).bind fun bs hbs => ?_
    exact .cons hb hbs

theorem Post.mapM_mem {f : α → Outcome ε β} {l : List α} (hf : ∀ a ∈ l, (f a).Post Q) :
    (l.mapM f).Post fun bs => ∀ b ∈ bs, Q b := by
  refine (mapM hf).mono fun bs hbs b hb => ?_
  obtain ⟨-, -, h⟩ := Lists.forall₂_mem_right hbs hb
  exact h

variable {R : α → β → Prop}
variable {y : Outcome ε β}

inductive Rel (R : α → β → Prop) : Outcome ε α → Outcome ε β → Prop
  | ok {a : α} {b : β} (h : R a b) : Rel R (ok a) (ok b)
  | err (e : ε) : Rel R (err e) (err e)
  | panic : Rel R panic panic

theorem Rel.bind {α' β' : Type} {S : α' → β' → Prop} {x : Outcome ε α} {f : α → Outcome ε α'}
    {g : β → Outcome ε β'} (hxy : Rel R x y) (hfg : ∀ a b, R a b → Rel S (f a) (g b)) :
    Rel S (x >>= f) (y >>= g) := by
  cases hxy with
  | ok h => exact hfg _ _ h
  | err e => exact .err e
  | panic => exact .panic

theorem Rel.foldlM {f : α → γ → Outcome ε α} {g : β → γ → Outcome ε β}
    (hfg : ∀ a b c, R a b → Rel R (f a c) (g b c)) (l : List γ) {a : α} {b : β} (h : R a b) :
    Rel R (l.foldlM f a) (l.foldlM g b) := by
  induction l generalizing a b with
  | nil => exact .ok h
  | cons c l ih =>
    rw [foldlM_cons, foldlM_cons]
    exact (hfg a b c h).bind fun _ _ h' => ih h'

theorem Rel.of_ok_left {a : α} (h : Rel R (Outcome.ok a) y) : ∃ b, y = Outcome.ok b ∧ R a b := by
  cases h with
  | ok hab => exact ⟨_, rfl, hab⟩

theorem Rel.of_ok_right {x : Outcome ε α} {b : β} (h : Rel R x (Outcome.ok b)) :
    ∃ a, x = Outcome.ok a ∧ R a b := by
  cases h with
  | ok hab => exact ⟨_, rfl, hab⟩

end

end Outcome
