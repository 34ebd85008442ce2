import MysqlRust.Foundation.Outcome

/-! # Write-ahead logging

A state is changed by records that are appended to a log first and applied to memory later. The
memory, once the queued records are applied, is what the log replays to, up to a relation.
-/
namespace WriteAhead

open Outcome

variable {ε σ ρ : Type} {act : σ → ρ → Outcome ε σ} {R : σ → σ → Prop} {init : σ}

/-- Related states stay related, or fail alike, under every record. -/
structure Respects (act : σ → ρ → Outcome ε σ) (R : σ → σ → Prop) : Prop where
  trans : ∀ {s t u}, R s t → R t u → R s u
  step : ∀ {s t} (r : ρ), R s t → Rel R (act s r) (act t r)

/-- The log replays to what memory becomes when the queue has been applied. -/
def Durable (act : σ → ρ → Outcome ε σ) (R : σ → σ → Prop) (init : σ) (log queue : List ρ)
    (mem : σ) : Prop :=
  ∃ s m, log.foldlM act init = .ok s ∧ queue.foldlM act mem = .ok m ∧ R s m

variable {log queue : List ρ} {mem : σ}

theorem Durable.replayed (h : Durable act R init log [] mem) :
    ∃ s, log.foldlM act init = .ok s ∧ R s mem := by
  obtain ⟨s, m, hs, hm, hR⟩ := h
  cases hm
  exact ⟨s, hs, hR⟩

theorem Durable.append (hact : Respects act R) (h : Durable act R init log queue mem) (r : ρ)
    (hr : ∀ m, queue.foldlM act mem = .ok m → ∃ m', act m r = .ok m') :
    Durable act R init (log ++ [r]) (queue ++ [r]) mem := by
  obtain ⟨s, m, hs, hm, hR⟩ := h
  obtain ⟨m', hm'⟩ := hr m hm
  obtain ⟨s', hs', hR'⟩ := Rel.of_ok_right (hm' ▸ hact.step r hR)
  exact ⟨s', m', foldlM_concat hs hs', foldlM_concat hm hm', hR'⟩

theorem Durable.apply {r : ρ} (h : Durable act R init log (r :: queue) mem) :
    ∃ mem', act mem r = .ok mem' ∧ Durable act R init log queue mem' := by
  obtain ⟨s, m, hs, hm, hR⟩ := h
  rw [List.foldlM_cons] at hm
  obtain ⟨mem', hmem', hm⟩ := bind_eq_ok.mp hm
  exact ⟨mem', hmem', s, m, hs, hm, hR⟩

theorem Durable.change (hact : Respects act R) {mem' : σ} (h : Durable act R init log queue mem)
    (hR : R mem mem') : Durable act R init log queue mem' := by
  obtain ⟨s, m, hs, hm, hsm⟩ := h
  obtain ⟨m', hm', hR'⟩ := Rel.of_ok_left
    (hm ▸ Rel.foldlM (fun _ _ r h => hact.step r h) queue hR)
  exact ⟨s, m', hs, hm', hact.trans hsm hR'⟩

end WriteAhead
