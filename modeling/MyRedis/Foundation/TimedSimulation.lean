import Mathlib.Order.Basic
import Mathlib.Data.List.Forall2

/-!
# Simulation along timed runs

A machine given by a step relation is compared with a specification given by a step function, along
a list of events that carry non-decreasing times.  The machine may have limits that the
specification does not have: `fits a e` says that the event `e` is within these limits when the
specification is in the state `a`.

The simulation relation may depend on the time: it has to be preserved by the passing of time
(`TimedSimulation.mono`) and by every event within the limits at its time (`TimedSimulation.step`),
and the result of an event has to be right exactly if the event is within the limits.  Then all
results of a run are right if and only if all its events are within the limits
(`TimedSimulation.forall₂_results_iff`).
-/

namespace Foundation

variable {σ α ε ρ ρ' T : Type}

/-- The runs of a machine with step relation `step`: the events taken and their results. -/
inductive Runs (step : σ → ε → ρ → σ → Prop) : σ → List ε → List ρ → σ → Prop
  | nil (s : σ) : Runs step s [] [] s
  | cons {s s₁ s₂ : σ} {e : ε} {r : ρ} {es : List ε} {rs : List ρ} (hstep : step s e r s₁)
      (hrun : Runs step s₁ es rs s₂) : Runs step s (e :: es) (r :: rs) s₂

/-- The results of a specification given by a step function. -/
def specResults (spec : α → ε → ρ' × α) : α → List ε → List ρ'
  | _, [] => []
  | a, e :: es => (spec a e).1 :: specResults spec (spec a e).2 es

/-- The events of a run of the specification, each with the state before it. -/
def specTrace (spec : α → ε → ρ' × α) : α → List ε → List (α × ε)
  | _, [] => []
  | a, e :: es => (a, e) :: specTrace spec (spec a e).2 es

/-- `R` is a simulation within limits: it survives the passing of time, and an admissible event at
its time has the result of the specification exactly if it is within the limits, and then leads from
related states to related states. -/
structure TimedSimulation [Preorder T] (step : σ → ε → ρ → σ → Prop) (spec : α → ε → ρ' × α)
    (time : ε → T) (admissible : ε → Prop) (fits : α → ε → Prop) (R : T → σ → α → Prop)
    (Q : ρ → ρ' → Prop) : Prop where
  /-- Related states stay related while time passes. -/
  mono : ∀ {t t' s a}, t ≤ t' → R t s a → R t' s a
  /-- The result is right if and only if the event is within the limits. -/
  result : ∀ {s a e r s'}, admissible e → R (time e) s a → step s e r s' →
    (Q r (spec a e).1 ↔ fits a e)
  /-- Related states stay related over an event within the limits. -/
  step : ∀ {s a e r s'}, admissible e → R (time e) s a → step s e r s' → fits a e →
    R (time e) s' (spec a e).2

/-- Along a run whose times do not decrease, all results are those of the specification if and only
if all events are within the limits. -/
theorem TimedSimulation.forall₂_results_iff [Preorder T] {step : σ → ε → ρ → σ → Prop}
    {spec : α → ε → ρ' × α} {time : ε → T} {admissible : ε → Prop} {fits : α → ε → Prop}
    {R : T → σ → α → Prop} {Q : ρ → ρ' → Prop}
    (hsim : TimedSimulation step spec time admissible fits R Q) {s s' : σ} {a : α}
    {es : List ε} {rs : List ρ} (hrun : Runs step s es rs s') (t : T)
    (hR : R t s a) (ht : ∀ e ∈ es, t ≤ time e)
    (hsorted : es.Pairwise fun e e' => time e ≤ time e') (hadm : ∀ e ∈ es, admissible e) :
    List.Forall₂ Q rs (specResults spec a es) ↔ ∀ p ∈ specTrace spec a es, fits p.1 p.2 := by
  induction hrun generalizing a t with
  | nil s => simp [specResults, specTrace]
  | @cons s s₁ s₂ e r es rs hstep _ ih =>
    have hRe : R (time e) s a := hsim.mono (ht e List.mem_cons_self) hR
    have he : admissible e := hadm e List.mem_cons_self
    rw [List.pairwise_cons] at hsorted
    rw [specResults, specTrace, List.forall₂_cons, List.forall_mem_cons, hsim.result he hRe hstep]
    refine and_congr_right ?_
    intro hfits
    exact ih (time e) (hsim.step he hRe hstep hfits) hsorted.1 hsorted.2
      fun e' he' => hadm e' (List.mem_cons_of_mem _ he')

end Foundation
