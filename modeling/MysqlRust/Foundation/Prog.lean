import MysqlRust.Foundation.Proc

/-! # Programs over operations

A program performs operations of a signature one at a time and goes on with their outcomes.
It says nothing about the state they work on, so programs of several threads can be interleaved.
-/

inductive Prog (Op : Type) (Resp : Op → Type) (ε α : Type) : Type where
  | done (r : Outcome ε α)
  | op (o : Op) (k : Outcome ε (Resp o) → Prog Op Resp ε α)

namespace Prog

open List

variable {Op : Type} {Resp : Op → Type} {ε α β γ : Type}

protected def bind (x : Prog Op Resp ε α) (f : α → Prog Op Resp ε β) : Prog Op Resp ε β :=
  match x with
  | .done (.ok a) => f a
  | .done (.err e) => .done (.err e)
  | .done .panic => .done .panic
  | .op o k => .op o fun r => (k r).bind f

instance : Monad (Prog Op Resp ε) where
  pure a := .done (.ok a)
  bind := Prog.bind

instance : MonadLift (Outcome ε) (Prog Op Resp ε) where
  monadLift := .done

def perform (o : Op) : Prog Op Resp ε (Resp o) := .op o .done

def attempt : Prog Op Resp ε α → Prog Op Resp ε (Outcome ε α)
  | .done r => .done (.ok r)
  | .op o k => .op o fun r => (k r).attempt

@[simp] theorem op_bind (o : Op) (k : Outcome ε (Resp o) → Prog Op Resp ε α)
    (f : α → Prog Op Resp ε β) : (Prog.op o k >>= f) = .op o fun r => k r >>= f := rfl

theorem bind_pure_self (x : Prog Op Resp ε α) : (x >>= pure) = x := by
  induction x with
  | done r =>
    cases r with
    | ok a => rfl
    | err e => rfl
    | panic => rfl
  | op o k ih =>
    rw [op_bind]
    congr 1
    funext r
    exact ih r

protected theorem bind_assoc (x : Prog Op Resp ε α) (f : α → Prog Op Resp ε β)
    (g : β → Prog Op Resp ε γ) : (x >>= f >>= g) = x >>= fun a => f a >>= g := by
  induction x with
  | done r =>
    cases r with
    | ok a => rfl
    | err e => rfl
    | panic => rfl
  | op o k ih =>
    rw [op_bind, op_bind, op_bind]
    congr 1
    funext r
    exact ih r

instance : LawfulMonad (Prog Op Resp ε) := LawfulMonad.mk' _
  bind_pure_self
  (fun _ _ => rfl)
  Prog.bind_assoc

section
variable {σ : Type}

/-- A program run alone: `answer` gives the outcome of every operation. -/
def run (answer : (o : Op) → σ → Outcome ε (Resp o) × σ) : Prog Op Resp ε α → σ → Outcome ε α × σ
  | .done r, s => (r, s)
  | .op o k, s => run answer (k (answer o s).1) (answer o s).2

variable {spell : Op → Option (List γ)} {u v : List γ} {x : Prog Op Resp ε α}
  {f : α → Prog Op Resp ε β}

/-- The operations of a program that ends with `ok` spell the word; the operations of any other
ending spell a beginning of it, and no other operations occur. -/
def Spells (spell : Op → Option (List γ)) : List γ → Prog Op Resp ε α → Prop
  | word, .done r => r.isOk = true → word = []
  | word, .op o k => ∃ part rest, spell o = some part ∧ word = part ++ rest ∧
      ∀ r, Spells spell rest (k r)

theorem Spells.done {r : Outcome ε α} : (Prog.done r : Prog Op Resp ε α).Spells spell [] :=
  fun _ => rfl

theorem Spells.perform {o : Op} (h : spell o = some u) :
    (Prog.perform o : Prog Op Resp ε (Resp o)).Spells spell u :=
  ⟨u, [], h, (append_nil u).symm, fun _ => .done⟩

theorem Spells.bind (hx : x.Spells spell u) (hf : ∀ a, (f a).Spells spell v) :
    (x >>= f).Spells spell (u ++ v) := by
  induction x generalizing u with
  | done r =>
    cases r with
    | ok a =>
      obtain rfl : u = [] := hx rfl
      exact hf a
    | err e => exact nofun
    | panic => exact nofun
  | op o k ih =>
    obtain ⟨part, rest, ho, rfl, hk⟩ := hx
    exact ⟨part, rest ++ v, ho, append_assoc part rest v, fun r => ih r (hk r)⟩

theorem Spells.before (hx : x.Spells spell u) (hf : ∀ a, (f a).Spells spell []) :
    (x >>= f).Spells spell u := append_nil u ▸ hx.bind hf

theorem Spells.after (hx : x.Spells spell []) (hf : ∀ a, (f a).Spells spell v) :
    (x >>= f).Spells spell v := hx.bind hf

theorem Spells.foldlM {f : β → α → Prog Op Resp ε β} {g : α → γ}
    (hf : ∀ b a, (f b a).Spells spell [g a]) (l : List α) (b : β) :
    (l.foldlM f b).Spells spell (l.map g) := by
  induction l generalizing b with
  | nil => exact .done
  | cons a l ih =>
    rw [foldlM_cons]
    exact (hf b a).bind ih

/-- Which operations a program may perform in a state, and the state an outcome leads to; `none`
for an outcome that does not occur. -/
structure Rules (Op : Type) (Resp : Op → Type) (ε τ : Type) where
  may : τ → Op → Prop
  next : τ → (o : Op) → Outcome ε (Resp o) → Option τ

variable {τ : Type} {rules : Rules Op Resp ε τ} {t t₀ : τ} {P Q : τ → Prop}

/-- Every operation is one its state allows, and the program ends in a state with `P`. -/
def Keeps (rules : Rules Op Resp ε τ) (P : τ → Prop) : τ → Prog Op Resp ε α → Prop
  | t, .done _ => P t
  | t, .op o k => rules.may t o ∧ ∀ r, ∀ t' ∈ rules.next t o r, Keeps rules P t' (k r)

theorem Keeps.bind_of (hx : x.Keeps rules Q t) (hf : ∀ a t, Q t → (f a).Keeps rules P t)
    (hfail : ∀ t, Q t → P t) : (x >>= f).Keeps rules P t := by
  induction x generalizing t with
  | done r =>
    cases r with
    | ok a => exact hf a t hx
    | err e => exact hfail t hx
    | panic => exact hfail t hx
  | op o k ih => exact ⟨hx.1, fun r t' ht' => ih r (hx.2 r t' ht')⟩

theorem Keeps.attempt_bind {f : Outcome ε α → Prog Op Resp ε β} (hx : x.Keeps rules Q t)
    (hf : ∀ r t, Q t → (f r).Keeps rules P t) : (x.attempt >>= f).Keeps rules P t := by
  induction x generalizing t with
  | done r => exact hf r t hx
  | op o k ih => exact ⟨hx.1, fun r t' ht' => ih r (hx.2 r t' ht')⟩

theorem Keeps.ite {c : Prop} [Decidable c] {y : Prog Op Resp ε α} (hx : x.Keeps rules P t)
    (hy : y.Keeps rules P t) : (if c then x else y).Keeps rules P t := by
  split
  · exact hx
  · exact hy

theorem Keeps.bind (hx : x.Keeps rules (· = t₀) t) (hf : ∀ a, (f a).Keeps rules (· = t₀) t₀) :
    (x >>= f).Keeps rules (· = t₀) t :=
  hx.bind_of (fun a _ ht => ht ▸ hf a) fun _ => id

theorem Keeps.map (hx : x.Keeps rules P t) (g : α → β) : (g <$> x).Keeps rules P t :=
  hx.bind_of (fun _ _ ht => ht) fun _ => id

theorem Keeps.mono (hx : x.Keeps rules Q t) (h : ∀ t, Q t → P t) : x.Keeps rules P t :=
  bind_pure_self x ▸ hx.bind_of (fun _ => h) h

theorem Keeps.mapM (hf : ∀ a, (f a).Keeps rules (· = t) t) (l : List α) :
    (l.mapM f).Keeps rules (· = t) t := by
  induction l with
  | nil => rfl
  | cons a l ih =>
    rw [mapM_cons]
    exact (hf a).bind fun _ => ih.bind fun _ => rfl

theorem Keeps.foldlM {f : β → α → Prog Op Resp ε β} (hf : ∀ b a, (f b a).Keeps rules (· = t) t)
    (l : List α) (b : β) : (l.foldlM f b).Keeps rules (· = t) t := by
  induction l generalizing b with
  | nil => rfl
  | cons a l ih =>
    rw [foldlM_cons]
    exact (hf b a).bind ih

end

end Prog
