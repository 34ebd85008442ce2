import MysqlRust.Foundation.Runs
import MysqlRust.Foundation.Threads

/-! # Rely and guarantee

A contract says what every step keeps of the shared state, what a thread may rely on between its
own steps, and what it owes before each operation. Programs that keep to the contract are
verified one by one; together they keep to it in every interleaving.
-/
namespace Threads

open List

variable {Op : Type} {Resp : Op → Type} {ε α β γ σ τ ι κ ω : Type}

structure Contract (sys : System Op Resp ε α σ τ ι κ ω) where
  Inv : σ → Prop
  /-- What the steps of others may do to the shared state. -/
  Rely : Nat → σ → σ → Prop
  /-- What holds of a thread that runs no program. -/
  Idle : Nat → σ → τ → Prop
  /-- What a thread has to establish before an operation. -/
  Pre : Nat → Op → σ → τ → Prop
  /-- What holds of a thread whose program has ended. -/
  Done : Nat → Outcome ε α → σ → τ → Prop
  /-- The operations and outside steps a run takes. -/
  May : Nat → Op → ι → σ → τ → Prop
  Happens : ω → σ → Prop
  rely_refl : ∀ i s, Rely i s s
  rely_trans : ∀ i s s' s'', Rely i s s' → Rely i s' s'' → Rely i s s''

variable {sys : System Op Resp ε α σ τ ι κ ω} (c : Contract sys) (i : Nat)

namespace Contract

/-- The program keeps to the contract from this state on, whatever others do before each of
its operations, and ends in `Q`. -/
def Safe (Q : Outcome ε β → σ → τ → Prop) : Prog Op Resp ε β → σ → τ → Prop
  | .done r, s, l => Q r s l
  | .op o k, s, l => ∀ s', c.Rely i s s' → c.Inv s' → c.Pre i o s' l ∧
      ∀ choice r s'' l'', c.May i o choice s' l → sys.perform i o choice s' l = some (r, s'', l'') →
        c.Inv s'' ∧ (∀ j, j ≠ i → c.Rely j s' s'') ∧ Safe Q (k r) s'' l''

def Stable (P : σ → τ → Prop) : Prop := ∀ s s' l, P s l → c.Rely i s s' → c.Inv s' → P s' l

def Ends (Q : β → σ → τ → Prop) (E : Option ε → σ → τ → Prop) : Outcome ε β → σ → τ → Prop
  | .ok b => Q b
  | .err e => E (some e)
  | .panic => E none

def Triple (P : σ → τ → Prop) (x : Prog Op Resp ε β) (Q : β → σ → τ → Prop)
    (E : Option ε → σ → τ → Prop) : Prop :=
  ∀ s l, c.Inv s → P s l → c.Safe i (Ends Q E) x s l

variable {c i}

variable {Q : Outcome ε β → σ → τ → Prop} {x : Prog Op Resp ε β} {s : σ} {l : τ}

theorem Safe.mono {Q' : Outcome ε β → σ → τ → Prop} (h : c.Safe i Q x s l)
    (hQ : ∀ r s l, Q r s l → Q' r s l) : c.Safe i Q' x s l := by
  induction x generalizing s l with
  | done r => exact hQ r s l h
  | op o k ih =>
    intro s' hrely hinv
    obtain ⟨hpre, hstep⟩ := h s' hrely hinv
    refine ⟨hpre, fun choice r s'' l'' hmay hperform => ?_⟩
    obtain ⟨hinv', hguarantee, hsafe⟩ := hstep choice r s'' l'' hmay hperform
    exact ⟨hinv', hguarantee, ih r hsafe⟩

theorem Safe.rely (hQ : ∀ r, c.Stable i (Q r)) {s' : σ} (h : c.Safe i Q x s l)
    (hrely : c.Rely i s s') (hinv : c.Inv s') : c.Safe i Q x s' l := by
  cases x with
  | done r => exact hQ r s s' l h hrely hinv
  | op o k => exact fun s'' hrely' hinv' => h s'' (c.rely_trans i s s' s'' hrely hrely') hinv'

section Rules
variable {P P' : σ → τ → Prop} {Q : β → σ → τ → Prop} {E : Option ε → σ → τ → Prop}
variable {x : Prog Op Resp ε β} {r : Outcome ε β} {R : γ → σ → τ → Prop} {f : β → Prog Op Resp ε γ}
  {E' : Option ε → σ → τ → Prop}
variable {F : β → Prop} {Q' : β → σ → τ → Prop} {xs : List β}

theorem Triple.done (h : ∀ s l, c.Inv s → P s l → Ends Q E r s l) : c.Triple i P (.done r) Q E := h

theorem Triple.pure {b : β} (h : ∀ s l, c.Inv s → P s l → Q b s l) :
    c.Triple i P (Pure.pure b) Q E := h

theorem Triple.lift (hok : ∀ b, r = .ok b → ∀ s l, c.Inv s → P s l → Q b s l)
    (herr : ∀ e, r = .err e → ∀ s l, c.Inv s → P s l → E (some e) s l)
    (hpanic : r = .panic → ∀ s l, c.Inv s → P s l → E none s l) : c.Triple i P (liftM r) Q E := by
  intro s l hinv hs
  cases r with
  | ok b => exact hok b rfl s l hinv hs
  | err e => exact herr e rfl s l hinv hs
  | panic => exact hpanic rfl s l hinv hs

theorem Triple.lift_ok (h : r ≠ .panic) :
    c.Triple i P (liftM r) (fun b s l => r = .ok b ∧ P s l) (fun e s l => e ≠ none ∧ P s l) :=
  Triple.lift (fun _ hb _ _ _ hs => ⟨hb, hs⟩) (fun _ _ _ _ _ hs => ⟨nofun, hs⟩)
    fun hpanic => absurd hpanic h

/-- One operation: its precondition is stable, and whatever it does keeps the invariant,
keeps to what the others rely on and ends as it should. -/
theorem Triple.perform {o : Op} {Q : Resp o → σ → τ → Prop} (hP : c.Stable i P)
    (hpre : ∀ s l, c.Inv s → P s l → c.Pre i o s l)
    (hstep : ∀ s l choice r s' l', c.Inv s → P s l → c.May i o choice s l →
      sys.perform i o choice s l = some (r, s', l') →
      c.Inv s' ∧ (∀ j, j ≠ i → c.Rely j s s') ∧ Ends Q E r s' l') :
    c.Triple i P (Prog.perform o) Q E := by
  intro s l _ hs s' hrely hinv
  have hs' := hP s s' l hs hrely hinv
  exact ⟨hpre s' l hinv hs', fun choice r s'' l'' hmay hperform =>
    hstep s' l choice r s'' l'' hinv hs' hmay hperform⟩

theorem Safe.bind {Q : β → σ → τ → Prop} {s : σ} {l : τ} (hinv : c.Inv s)
    (hx : c.Safe i (Ends Q E) x s l) (hf : ∀ b, c.Triple i (Q b) (f b) R E) :
    c.Safe i (Ends R E) (x >>= f) s l := by
  induction x generalizing s l with
  | done r =>
    cases r with
    | ok b => exact hf b s l hinv hx
    | err e => exact hx
    | panic => exact hx
  | op o k ih =>
    intro s' hrely hinv'
    obtain ⟨hpre, hstep⟩ := hx s' hrely hinv'
    refine ⟨hpre, fun choice r s'' l'' hmay hperform => ?_⟩
    obtain ⟨hinv'', hguarantee, hsafe⟩ := hstep choice r s'' l'' hmay hperform
    exact ⟨hinv'', hguarantee, ih r hinv'' hsafe⟩

theorem Triple.bind (hx : c.Triple i P x Q E) (hf : ∀ b, c.Triple i (Q b) (f b) R E) :
    c.Triple i P (x >>= f) R E := fun s l hinv hs => (hx s l hinv hs).bind hinv hf

theorem Triple.map {f : β → γ} (hx : c.Triple i P x Q E) (hf : ∀ b s l, Q b s l → R (f b) s l) :
    c.Triple i P (f <$> x) R E := by
  rw [map_eq_pure_bind]
  exact hx.bind fun b => .pure fun s l _ => hf b s l

theorem Triple.mono (hx : c.Triple i P x Q E) (hP : ∀ s l, P' s l → P s l)
    (hQ : ∀ b s l, Q b s l → Q' b s l) (hE : ∀ e s l, E e s l → E' e s l) :
    c.Triple i P' x Q' E' := by
  intro s l hinv hs
  refine (hx s l hinv (hP s l hs)).mono fun r s l h => ?_
  cases r with
  | ok b => exact hQ b s l h
  | err e => exact hE (some e) s l h
  | panic => exact hE none s l h

theorem Triple.pre (hx : c.Triple i P x Q E) (hP : ∀ s l, P' s l → P s l) :
    c.Triple i P' x Q E := fun s l hinv hs => hx s l hinv (hP s l hs)

theorem Triple.post (hx : c.Triple i P x Q E) (hQ : ∀ b s l, Q b s l → Q' b s l) :
    c.Triple i P x Q' E :=
  hx.mono (fun _ _ h => h) hQ fun _ _ _ h => h

theorem Triple.lift_post (h : r.Post F) :
    c.Triple i P (liftM r) (fun b s l => F b ∧ P s l) (fun e s l => e ≠ none ∧ P s l) := by
  refine (Triple.lift_ok h.ne_panic).post fun b s l hs => ⟨?_, hs.2⟩
  rw [hs.1] at h
  exact h

theorem Triple.lift_of_ne_panic (h : r ≠ .panic) :
    c.Triple i P (liftM r) (fun _ => P) (fun e s l => e ≠ none ∧ P s l) :=
  (Triple.lift_ok h).post fun _ _ _ hs => hs.2

theorem Triple.fail (hx : c.Triple i P x Q E) (hE : ∀ e s l, E e s l → E' e s l) :
    c.Triple i P x Q E' :=
  hx.mono (fun _ _ h => h) (fun _ _ _ h => h) hE

/-- A fact about neither state can be used in the proof of the program. -/
theorem Triple.of_fact {fact : Prop} (h : fact → c.Triple i P x Q E) :
    c.Triple i (fun s l => fact ∧ P s l) x Q E := fun s l hinv hs => h hs.1 s l hinv hs.2

theorem Triple.of_exists {δ : Type} {P : δ → σ → τ → Prop} (h : ∀ d, c.Triple i (P d) x Q E) :
    c.Triple i (fun s l => ∃ d, P d s l) x Q E := by
  rintro s l hinv ⟨d, hs⟩
  exact h d s l hinv hs

theorem Triple.ite {p : Prop} [Decidable p] {y : Prog Op Resp ε β} (hx : p → c.Triple i P x Q E)
    (hy : ¬ p → c.Triple i P y Q E) : c.Triple i P (if p then x else y) Q E := by
  split
  · exact hx ‹_›
  · exact hy ‹_›

theorem Triple.attempt (hx : c.Triple i P x Q E) : c.Triple i P x.attempt (Ends Q E) E' := by
  have hsafe : ∀ (x : Prog Op Resp ε β) s l, c.Safe i (Ends Q E) x s l →
      c.Safe i (Ends (Ends Q E) E') x.attempt s l := by
    intro x
    induction x with
    | done r => exact fun s l h => h
    | op o k ih =>
      intro s l h s' hrely hinv
      obtain ⟨hpre, hstep⟩ := h s' hrely hinv
      refine ⟨hpre, fun choice r s'' l'' hmay hperform => ?_⟩
      obtain ⟨hinv', hguarantee, hsafe⟩ := hstep choice r s'' l'' hmay hperform
      exact ⟨hinv', hguarantee, ih r s'' l'' hsafe⟩
  exact fun s l hinv hs => hsafe x s l (hx s l hinv hs)

theorem Triple.mapM {R : β → γ → Prop}
    (hf : ∀ b ∈ xs, c.Triple i P (f b) (fun d s l => R b d ∧ P s l) E) :
    c.Triple i P (xs.mapM f) (fun ds s l => List.Forall₂ R xs ds ∧ P s l) E := by
  induction xs with
  | nil => exact .pure fun s l _ hs => ⟨.nil, hs⟩
  | cons b xs ih =>
    rw [mapM_cons]
    refine .bind (hf b mem_cons_self) fun d => .of_fact fun hd => ?_
    have hrest := ih fun b' hb' => hf b' (mem_cons_of_mem b hb')
    refine .bind hrest fun ds => .pure fun s l _ hs => ?_
    exact ⟨.cons hd hs.1, hs.2⟩

theorem Triple.lift_when {cond : Prop} (h : cond → r.Post F) :
    c.Triple i P (liftM r) (fun b s l => (cond → F b) ∧ P s l)
      (fun e s l => (cond → e ≠ none) ∧ P s l) := by
  apply Triple.lift
  · intro b hb s l _ hs
    refine ⟨fun hcond => ?_, hs⟩
    have hpost := h hcond
    rwa [hb] at hpost
  · exact fun e _ s l _ hs => ⟨fun _ => Option.some_ne_none e, hs⟩
  · exact fun hpanic s l _ hs => ⟨fun hcond => absurd hpanic (h hcond).ne_panic, hs⟩

theorem Triple.foldlM {P : γ → σ → τ → Prop} {f : γ → β → Prog Op Resp ε γ}
    (hf : ∀ d, ∀ b ∈ xs, c.Triple i (P d) (f d b) P E) (d : γ) :
    c.Triple i (P d) (xs.foldlM f d) P E := by
  induction xs generalizing d with
  | nil => exact .pure fun s l _ hs => hs
  | cons b xs ih =>
    rw [foldlM_cons]
    refine .bind (hf d b mem_cons_self) fun d' => ?_
    exact ih (fun d b' hb' => hf d b' (mem_cons_of_mem b hb')) d'

end Rules

section Soundness
variable (c)

def Allows (w : World Op Resp ε α σ τ) : Event ι κ ω → Prop
  | .perform i choice => ∀ o k, (w.threads i).task = some (.op o k) →
      c.May i o choice w.shared (w.threads i).state
  | .outside e => c.Happens e w.shared
  | .start _ _ | .finish _ => True

/-- Every program keeps to the contract when it runs alone, and so do the steps that are
not part of a program. -/
structure Sound : Prop where
  idle_stable : ∀ i, c.Stable i (c.Idle i)
  done_stable : ∀ i r, c.Stable i (c.Done i r)
  start : ∀ i command s l, c.Inv s → c.Idle i s l →
    c.Inv (sys.start i command s l).1 ∧ (∀ j, j ≠ i → c.Rely j s (sys.start i command s l).1) ∧
      c.Safe i (c.Done i) (sys.program command l) (sys.start i command s l).1
        (sys.start i command s l).2
  finish : ∀ i r s l, c.Inv s → c.Done i r s l →
    c.Inv (sys.finish i r s l).1 ∧ (∀ j, j ≠ i → c.Rely j s (sys.finish i r s l).1) ∧
      c.Idle i (sys.finish i r s l).1 (sys.finish i r s l).2
  outside : ∀ e s s', c.Inv s → c.Happens e s → sys.outside e s = some s' →
    c.Inv s' ∧ ∀ j, c.Rely j s s'

/-- A thread is at rest, or runs a program that keeps to the contract. -/
def Owes (i : Nat) (s : σ) (t : Thread Op Resp ε α τ) : Prop :=
  match t.task with
  | none => c.Idle i s t.state
  | some x => c.Safe i (c.Done i) x s t.state

structure Holds (w : World Op Resp ε α σ τ) : Prop where
  inv : c.Inv w.shared
  owes : ∀ i, c.Owes i w.shared (w.threads i)

variable {c} {w w' : World Op Resp ε α σ τ}

theorem Owes.rely (hc : c.Sound) {i : Nat} {s s' : σ} {t : Thread Op Resp ε α τ}
    (h : c.Owes i s t) (hrely : c.Rely i s s') (hinv : c.Inv s') : c.Owes i s' t := by
  unfold Owes at h ⊢
  cases htask : t.task with
  | none =>
    rw [htask] at h
    exact hc.idle_stable i s s' t.state h hrely hinv
  | some x =>
    rw [htask] at h
    exact Safe.rely (hc.done_stable i) h hrely hinv

theorem Holds.set (hc : c.Sound) (h : c.Holds w) {i : Nat} {s : σ} {l : τ}
    {task : Option (Prog Op Resp ε α)} (hinv : c.Inv s)
    (hguarantee : ∀ j, j ≠ i → c.Rely j w.shared s) (howes : c.Owes i s ⟨l, task⟩) :
    c.Holds (w.set i s l task) where
  inv := hinv
  owes j := by
    by_cases hj : j = i
    · subst hj
      rw [World.set_same]
      exact howes
    · rw [World.set_of_ne w i s l task hj]
      exact (h.owes j).rely hc (hguarantee j hj) hinv

theorem Holds.task (h : c.Holds w) {i : Nat} {x : Prog Op Resp ε α}
    (htask : (w.threads i).task = some x) :
    c.Safe i (c.Done i) x w.shared (w.threads i).state := by
  have howes := h.owes i
  rwa [Owes, htask] at howes

theorem Holds.idle (h : c.Holds w) {i : Nat} (htask : (w.threads i).task = none) :
    c.Idle i w.shared (w.threads i).state := by
  have howes := h.owes i
  rwa [Owes, htask] at howes

theorem Holds.pre (h : c.Holds w) {i : Nat} {o : Op} {k : Outcome ε (Resp o) → Prog Op Resp ε α}
    (htask : (w.threads i).task = some (.op o k)) : c.Pre i o w.shared (w.threads i).state :=
  (h.task htask w.shared (c.rely_refl i w.shared) h.inv).1

theorem Sound.step (hc : c.Sound) (h : c.Holds w) {e : Event ι κ ω} (hallows : c.Allows w e)
    (hstep : sys.step w e = some w') : c.Holds w' := by
  cases step_steps hstep with
  | @start i command hidle =>
    obtain ⟨hinv, hguarantee, hsafe⟩ := hc.start i command _ _ h.inv (h.idle hidle)
    exact h.set hc hinv hguarantee hsafe
  | @perform i choice o k r s' l' htask hresult =>
    obtain ⟨-, hperform⟩ := h.task htask w.shared (c.rely_refl i w.shared) h.inv
    obtain ⟨hinv, hguarantee, hsafe⟩ := hperform choice r s' l' (hallows o k htask) hresult
    exact h.set hc hinv hguarantee hsafe
  | @finish i r htask =>
    obtain ⟨hinv, hguarantee, hidle⟩ := hc.finish i r _ _ h.inv (h.task htask)
    exact h.set hc hinv hguarantee hidle
  | @outside e s' hresult =>
    obtain ⟨hinv, hrely⟩ := hc.outside e _ s' h.inv hallows hresult
    exact ⟨hinv, fun j => (h.owes j).rely hc (hrely j) hinv⟩

/-- Every reachable state is as the contract says. -/
theorem Sound.run (hc : c.Sound) (h : c.Holds w) (hrun : Runs.Reach sys.step c.Allows w w') :
    c.Holds w' :=
  hrun.invariant h fun _ _ _ h hallows hstep => hc.step h hallows hstep

theorem Sound.invariant {Guard : World Op Resp ε α σ τ → Event ι κ ω → Prop}
    {P : World Op Resp ε α σ τ → Prop} (hc : c.Sound) (hrun : Runs.Reach sys.step Guard w w')
    (hallows : ∀ w e, Guard w e → c.Allows w e) (hholds : c.Holds w) (hw : P w)
    (hstep : ∀ w e w', c.Holds w → P w → Guard w e → sys.step w e = some w' → P w') : P w' := by
  have hboth : c.Holds w' ∧ P w' := by
    refine Runs.Reach.invariant (P := fun w => c.Holds w ∧ P w) hrun ⟨hholds, hw⟩ ?_
    rintro w e w' ⟨hholds, hw⟩ hguard hnext
    exact ⟨hc.step hholds (hallows w e hguard) hnext, hstep w e w' hholds hw hguard hnext⟩
  exact hboth.2

end Soundness

end Contract

end Threads
