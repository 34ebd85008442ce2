import Mathlib.Logic.Function.Basic
import MysqlRust.Foundation.Prog

/-! # Threads over a shared state

One operation of one thread is one step; what happens outside the threads is a step as well. An
operation that has to wait is not enabled. What is left open about it comes with the step.
-/
namespace Threads

structure System (Op : Type) (Resp : Op → Type) (ε α σ τ ι κ ω : Type) where
  perform : Nat → (o : Op) → ι → σ → τ → Option (Outcome ε (Resp o) × σ × τ)
  /-- The program of a command, given the state the thread is in. -/
  program : κ → τ → Prog Op Resp ε α
  start : Nat → κ → σ → τ → σ × τ
  finish : Nat → Outcome ε α → σ → τ → σ × τ
  outside : ω → σ → Option σ

variable {Op : Type} {Resp : Op → Type} {ε α σ τ ι κ ω : Type}

structure Thread (Op : Type) (Resp : Op → Type) (ε α τ : Type) where
  state : τ
  /-- What is left of the running program. -/
  task : Option (Prog Op Resp ε α)

structure World (Op : Type) (Resp : Op → Type) (ε α σ τ : Type) where
  shared : σ
  threads : Nat → Thread Op Resp ε α τ

inductive Event (ι κ ω : Type) where
  | start (i : Nat) (command : κ)
  | perform (i : Nat) (choice : ι)
  | finish (i : Nat)
  | outside (e : ω)

namespace World

def set (w : World Op Resp ε α σ τ) (i : Nat) (shared : σ) (state : τ)
    (task : Option (Prog Op Resp ε α)) : World Op Resp ε α σ τ :=
  ⟨shared, Function.update w.threads i ⟨state, task⟩⟩

variable (w : World Op Resp ε α σ τ) (i : Nat) (shared : σ) (state : τ)
  (task : Option (Prog Op Resp ε α))

@[simp] theorem set_shared : (w.set i shared state task).shared = shared := rfl

@[simp] theorem set_same : (w.set i shared state task).threads i = ⟨state, task⟩ :=
  Function.update_self _ _ _

theorem set_of_ne {j : Nat} (h : j ≠ i) : (w.set i shared state task).threads j = w.threads j :=
  Function.update_of_ne h _ _

end World

def System.step (sys : System Op Resp ε α σ τ ι κ ω) (w : World Op Resp ε α σ τ) :
    Event ι κ ω → Option (World Op Resp ε α σ τ)
  | .start i command =>
    match (w.threads i).task with
    | none =>
      let (shared, state) := sys.start i command w.shared (w.threads i).state
      some (w.set i shared state (some (sys.program command (w.threads i).state)))
    | some _ => none
  | .perform i choice =>
    match (w.threads i).task with
    | some (.op o k) =>
      (sys.perform i o choice w.shared (w.threads i).state).map fun (r, shared, state) =>
        w.set i shared state (some (k r))
    | _ => none
  | .finish i =>
    match (w.threads i).task with
    | some (.done r) =>
      let (shared, state) := sys.finish i r w.shared (w.threads i).state
      some (w.set i shared state none)
    | _ => none
  | .outside e => (sys.outside e w.shared).map fun shared => { w with shared }

section Steps
variable {sys : System Op Resp ε α σ τ ι κ ω} {w w' : World Op Resp ε α σ τ}

/-- Everything a step can do. -/
inductive Steps (sys : System Op Resp ε α σ τ ι κ ω) (w : World Op Resp ε α σ τ) :
    Event ι κ ω → World Op Resp ε α σ τ → Prop
  | start {i : Nat} {command : κ} (idle : (w.threads i).task = none) :
      Steps sys w (.start i command)
        (w.set i (sys.start i command w.shared (w.threads i).state).1
          (sys.start i command w.shared (w.threads i).state).2
          (some (sys.program command (w.threads i).state)))
  | perform {i : Nat} {choice : ι} {o : Op} {k : Outcome ε (Resp o) → Prog Op Resp ε α}
      {r : Outcome ε (Resp o)} {shared : σ} {state : τ}
      (task : (w.threads i).task = some (.op o k))
      (result : sys.perform i o choice w.shared (w.threads i).state = some (r, shared, state)) :
      Steps sys w (.perform i choice) (w.set i shared state (some (k r)))
  | finish {i : Nat} {r : Outcome ε α} (task : (w.threads i).task = some (.done r)) :
      Steps sys w (.finish i) (w.set i (sys.finish i r w.shared (w.threads i).state).1
        (sys.finish i r w.shared (w.threads i).state).2 none)
  | outside {e : ω} {shared : σ} (result : sys.outside e w.shared = some shared) :
      Steps sys w (.outside e) { w with shared }

/-- What a step can be: a start, an operation, an answer, or one from outside. -/
theorem step_steps {e : Event ι κ ω} (h : sys.step w e = some w') : Steps sys w e w' := by
  cases e with
  | start i command =>
    simp only [System.step] at h
    split at h
    · rename_i hidle
      cases h
      exact .start hidle
    · cases h
  | perform i choice =>
    simp only [System.step] at h
    split at h
    · rename_i o k htask
      obtain ⟨⟨r, shared, state⟩, hr, rfl⟩ := Option.map_eq_some_iff.mp h
      exact .perform htask hr
    · cases h
  | finish i =>
    simp only [System.step] at h
    split at h
    · rename_i r htask
      cases h
      exact .finish htask
    · cases h
  | outside e =>
    obtain ⟨shared, hshared, rfl⟩ := Option.map_eq_some_iff.mp h
    exact .outside hshared

end Steps

end Threads
