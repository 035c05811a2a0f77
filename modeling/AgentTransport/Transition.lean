import Mathlib.Data.List.Basic
import Mathlib.Tactic

/-!
# Runs of a partial step function

A machine is a function from a state and an event to the next state, or to `none`
where the event cannot happen. A run carries a guard: every event of it was
admitted by the guard in the state before it. The trivial guard gives all runs.
-/
namespace Transition

variable {σ ε : Type}

/-- `Run step ok s evs t`: the events `evs` lead from `s` to `t`, each admitted by
`ok` in the state in which it happens. -/
inductive Run (step : σ → ε → Option σ) (ok : σ → ε → Prop) (s : σ) : List ε → σ → Prop
  | nil : Run step ok s [] s
  | snoc {evs : List ε} {t u : σ} {e : ε} :
      Run step ok s evs t → ok t e → step t e = some u → Run step ok s (evs ++ [e]) u

/-- The guard that admits every event. -/
def anyEvent : σ → ε → Prop := fun _ _ => True

/-- Every event of the list is admitted by `ok` in the state in which it arrives. -/
def Admitted (step : σ → ε → Option σ) (ok : σ → ε → Prop) : List ε → σ → Prop
  | [], _ => True
  | e :: evs, s => ok s e ∧ ∀ t, step s e = some t → Admitted step ok evs t

instance decidableAdmitted (step : σ → ε → Option σ) (ok : σ → ε → Prop)
    [∀ s, DecidablePred (ok s)] : (evs : List ε) → (s : σ) → Decidable (Admitted step ok evs s)
  | [], _ => inferInstanceAs (Decidable True)
  | e :: evs, s =>
    have := decidableAdmitted step ok evs
    inferInstanceAs (Decidable (ok s e ∧ ∀ t ∈ step s e, Admitted step ok evs t))

/-- Execute a list of events. -/
def exec (step : σ → ε → Option σ) (evs : List ε) (s : σ) : Option σ := evs.foldlM step s

variable {step : σ → ε → Option σ} {ok : σ → ε → Prop} {s t u : σ}

theorem Run.single {e : ε} (hok : ok s e) (h : step s e = some t) : Run step ok s [e] t :=
  (Run.nil : Run step ok s [] s).snoc hok h

theorem Run.append {evs evs' : List ε} (h : Run step ok s evs t) (h' : Run step ok t evs' u) :
    Run step ok s (evs ++ evs') u := by
  induction h' with
  | nil => rwa [List.append_nil]
  | snoc _ hok hstep ih =>
    rw [← List.append_assoc]
    exact ih.snoc hok hstep

theorem Run.weaken {ok' : σ → ε → Prop} (himp : ∀ s e, ok s e → ok' s e) {evs : List ε}
    (h : Run step ok s evs t) : Run step ok' s evs t := by
  induction h with
  | nil => exact Run.nil
  | snoc _ hok hstep ih => exact ih.snoc (himp _ _ hok) hstep

/-- The guard matters only where a step is possible. -/
theorem Run.regard {ok' : σ → ε → Prop}
    (himp : ∀ s e t, step s e = some t → ok s e → ok' s e) {evs : List ε}
    (h : Run step ok s evs t) : Run step ok' s evs t := by
  induction h with
  | nil => exact Run.nil
  | snoc _ hok hstep ih => exact ih.snoc (himp _ _ _ hstep hok) hstep

/-- What holds at the start and is kept by every admitted step holds at the end. -/
theorem Run.invariant {P : σ → Prop} (hstep : ∀ s e t, P s → ok s e → step s e = some t → P t)
    {evs : List ε} (h : Run step ok s evs t) (hs : P s) : P t := by
  induction h with
  | nil => exact hs
  | snoc _ hok hst ih => exact hstep _ _ _ ih hok hst

theorem Run.exec {evs : List ε} (h : Run step ok s evs t) : exec step evs s = some t := by
  induction h with
  | nil => rfl
  | snoc _ _ hstep ih =>
    rw [Transition.exec] at ih ⊢
    rw [List.foldlM_append, ih]
    simpa using hstep

theorem run_of_admitted {evs : List ε} (h : exec step evs s = some t)
    (hok : Admitted step ok evs s) : Run step ok s evs t := by
  induction evs generalizing s with
  | nil =>
    cases (Option.some.inj h : s = t)
    exact Run.nil
  | cons e evs ih =>
    rw [exec, List.foldlM_cons] at h
    obtain ⟨u, hu, hrest⟩ := Option.bind_eq_some_iff.mp h
    exact (Run.single hok.1 hu).append (ih hrest (hok.2 u hu))

theorem admitted_of_forall {evs : List ε} (h : ∀ e ∈ evs, ∀ s, ok s e) (s : σ) :
    Admitted step ok evs s := by
  induction evs generalizing s with
  | nil => trivial
  | cons e evs ih =>
    refine ⟨h e List.mem_cons_self s, fun t _ => ih (fun e' he' => h e' ?_) t⟩
    exact List.mem_cons_of_mem e he'

/-- What can be executed is a run, if every event is admitted. -/
theorem run_of_exec {evs : List ε} (h : exec step evs s = some t) : Run step anyEvent s evs t :=
  run_of_admitted h (admitted_of_forall (fun _ _ _ => trivial) s)

/-- The step function that admits only what `ok` admits. -/
def guarded (step : σ → ε → Option σ) (ok : σ → ε → Prop) [∀ s, DecidablePred (ok s)] (s : σ)
    (e : ε) : Option σ :=
  if ok s e then step s e else none

theorem run_of_guarded [∀ s, DecidablePred (ok s)] {evs : List ε}
    (h : exec (guarded step ok) evs s = some t) : Run step ok s evs t := by
  induction evs generalizing s with
  | nil =>
    cases (Option.some.inj h : s = t)
    exact Run.nil
  | cons e evs ih =>
    rw [exec, List.foldlM_cons] at h
    obtain ⟨u, hu, hrest⟩ := Option.bind_eq_some_iff.mp h
    unfold guarded at hu
    split_ifs at hu with hok
    exact (Run.single hok hu).append (ih hrest)

/-- A run goes on with events that can be executed. -/
theorem Run.extend {evs evs' : List ε} (h : Run step ok s evs t)
    (hexec : Transition.exec step (evs ++ evs') s = some u) (hok : Admitted step ok evs' t) :
    Run step ok s (evs ++ evs') u := by
  rw [Transition.exec, List.foldlM_append] at hexec
  obtain ⟨v, hv, hrest⟩ := Option.bind_eq_some_iff.mp hexec
  obtain rfl := Option.some.inj (h.exec.symm.trans hv)
  exact h.append (run_of_admitted hrest hok)

/-- Where an invariant makes the guard the exact condition for a step to be
possible, a list of events can be executed if and only if the guard admits it. -/
theorem exec_isSome_iff {P : σ → Prop} (hP : ∀ s e t, P s → step s e = some t → P t)
    (hok : ∀ s e, P s → ((step s e).isSome ↔ ok s e)) (evs : List ε) {s : σ} (hs : P s) :
    (exec step evs s).isSome ↔ Admitted step ok evs s := by
  induction evs generalizing s with
  | nil => exact ⟨fun _ => trivial, fun _ => rfl⟩
  | cons e evs ih =>
    rw [exec, List.foldlM_cons, Admitted, ← hok s e hs]
    cases hstep : step s e with
    | none => simp
    | some t =>
      refine (ih (hP s e t hs hstep)).trans ⟨fun h => ⟨rfl, fun u hu => ?_⟩, fun h => h.2 t rfl⟩
      rwa [← Option.some.inj hu]

/-- Events that an invariant makes possible, and that keep it, can be run. -/
theorem exists_run {P : σ → Prop} {evs : List ε}
    (h : ∀ s, P s → ∀ e ∈ evs, ok s e ∧ ∃ t, step s e = some t ∧ P t) (hs : P s) :
    ∃ t, Run step ok s evs t ∧ P t := by
  induction evs generalizing s with
  | nil => exact ⟨s, Run.nil, hs⟩
  | cons e evs ih =>
    obtain ⟨hok, u, hu, hP⟩ := h s hs e List.mem_cons_self
    obtain ⟨t, hrun, ht⟩ := ih (fun s hs e he => h s hs e (List.mem_cons_of_mem _ he)) hP
    exact ⟨t, (Run.single hok hu).append hrun, ht⟩

/-- A measure that every step of a run decreases bounds the length of the run. -/
theorem Run.length_add_le {P : σ → Prop} {μ : σ → ℕ}
    (hP : ∀ s e t, P s → ok s e → step s e = some t → P t)
    (hμ : ∀ s e t, P s → ok s e → step s e = some t → μ t + 1 ≤ μ s)
    {evs : List ε} (h : Run step ok s evs t) (hs : P s) : evs.length + μ t ≤ μ s := by
  induction h with
  | nil => simp
  | snoc hrun hok hstep ih =>
    have hlast := hμ _ _ _ (hrun.invariant hP hs) hok hstep
    simp only [List.length_append, List.length_singleton]
    omega

end Transition
