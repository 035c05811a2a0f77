import AgentTransport.Transition

/-!
# Forward simulations

One machine explains another if there is a relation between their states such that every
step of the concrete machine is matched by a run of the abstract one, which may be empty.
Then whole runs are matched too, and what holds in all runs of the abstract machine can be
carried over along the relation.
-/
namespace Transition

variable {σ ε τ δ : Type}

/-- Every admitted step of the concrete machine is a run of the abstract one. -/
def Simulates (step : σ → ε → Option σ) (ok : σ → ε → Prop) (step' : τ → δ → Option τ)
    (ok' : τ → δ → Prop) (R : σ → τ → Prop) : Prop :=
  ∀ s e s' t, R s t → ok s e → step s e = some s' → ∃ evs t', Run step' ok' t evs t' ∧ R s' t'

variable {step : σ → ε → Option σ} {ok : σ → ε → Prop} {step' : τ → δ → Option τ}
  {ok' : τ → δ → Prop} {R : σ → τ → Prop} {s s' : σ} {t : τ}

/-- A run of the concrete machine is a run of the abstract one. -/
theorem Simulates.run (h : Simulates step ok step' ok' R) {evs : List ε}
    (hrun : Run step ok s evs s') (hR : R s t) : ∃ evs' t', Run step' ok' t evs' t' ∧ R s' t' := by
  induction hrun with
  | nil => exact ⟨[], t, Run.nil, hR⟩
  | snoc _ hok hstep ih =>
    obtain ⟨evs₁, u, hfirst, hu⟩ := ih
    obtain ⟨evs₂, t', hlast, ht'⟩ := h _ _ _ _ hu hok hstep
    exact ⟨evs₁ ++ evs₂, t', hfirst.append hlast, ht'⟩

/-- A simulation may use what is an invariant of the concrete machine. -/
theorem Simulates.of_invariant {P : σ → Prop}
    (hP : ∀ s e s', P s → ok s e → step s e = some s' → P s')
    (h : ∀ s e s' t, P s → R s t → ok s e → step s e = some s' →
      ∃ evs t', Run step' ok' t evs t' ∧ R s' t') :
    Simulates step ok step' ok' fun s t => P s ∧ R s t := by
  rintro s e s' t ⟨hs, hR⟩ hok hstep
  obtain ⟨evs, t', hrun, hR'⟩ := h s e s' t hs hR hok hstep
  exact ⟨evs, t', hrun, hP s e s' hs hok hstep, hR'⟩

end Transition
