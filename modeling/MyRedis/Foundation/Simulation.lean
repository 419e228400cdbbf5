import MyRedis.Foundation.Trace

/-!
# Simulation of what is observed

A system is compared with a specification that knows only some of its events.  Each step of the
system is either silent, and then it must not be noticed by the specification, or it shows an event
of the specification, and then the specification must be able to take a step with this event
(`Simulation`).  It follows that whatever is observed of a run of the system is a run of the
specification (`Simulation.exists_trace`).
-/

namespace Foundation

variable {σ ε α ο : Type}

/-- What is observed of a trace, oldest first. -/
def observed (see : σ → ε → Option ο) (past : List (σ × ε)) : List ο :=
  past.filterMap fun p => see p.1 p.2

/-- A silent step adds nothing to what is observed. -/
theorem observed_snoc_silent {see : σ → ε → Option ο} {s : σ} {e : ε} (h : see s e = none)
    (past : List (σ × ε)) : observed see (past ++ [(s, e)]) = observed see past := by
  simp [observed, h]

/-- Any other step adds its event. -/
theorem observed_snoc_visible {see : σ → ε → Option ο} {s : σ} {e : ε} {o : ο}
    (h : see s e = some o) (past : List (σ × ε)) :
    observed see (past ++ [(s, e)]) = observed see past ++ [o] := by
  simp [observed, h]

/-- `R` is a simulation: it survives the silent steps, and a step that shows an event is answered
by a step of the specification. -/
structure Simulation (step : σ → ε → σ → Prop) (spec : α → ο → α → Prop)
    (see : σ → ε → Option ο) (R : σ → α → Prop) : Prop where
  /-- The steps that show nothing. -/
  silent : ∀ {s e s' a}, R s a → step s e s' → see s e = none → R s' a
  /-- The steps that show an event. -/
  visible : ∀ {s e s' a o}, R s a → step s e s' → see s e = some o → ∃ a', spec a o a' ∧ R s' a'

/-- What is observed of a run is a run of the specification, at the end of which the states are
related. -/
theorem Simulation.exists_trace {step : σ → ε → σ → Prop} {spec : α → ο → α → Prop}
    {see : σ → ε → Option ο} {R : σ → α → Prop} (hsim : Simulation step spec see R) {s₀ s : σ}
    {a₀ : α} {past : List (σ × ε)} (htrace : Trace step s₀ past s) (h₀ : R s₀ a₀) :
    ∃ seen a, Trace spec a₀ seen a ∧ seen.map Prod.snd = observed see past ∧ R s a := by
  induction htrace with
  | nil => exact ⟨[], a₀, Trace.nil, rfl, h₀⟩
  | @snoc past s s' e _ hstep ih =>
    obtain ⟨seen, a, hspec, hseen, hR⟩ := ih
    cases hsee : see s e with
    | none =>
      refine ⟨seen, a, hspec, ?_, hsim.silent hR hstep hsee⟩
      rw [observed_snoc_silent hsee, hseen]
    | some o =>
      obtain ⟨a', hnext, hR'⟩ := hsim.visible hR hstep hsee
      refine ⟨_, a', hspec.snoc hnext, ?_, hR'⟩
      rw [observed_snoc_visible hsee, List.map_append, hseen]
      rfl

/-- If seeing an event only means to pick it out, what is observed is the list of the picked
events. -/
theorem observed_eq_filter {p : ε → Prop} [DecidablePred p] (past : List (σ × ε)) :
    observed (fun (_ : σ) e => if p e then some e else none) past =
      (past.map Prod.snd).filter fun e => decide (p e) := by
  induction past with
  | nil => rfl
  | cons q past ih =>
    by_cases hp : p q.2
    · simpa [observed, hp] using ih
    · simpa [observed, hp] using ih

end Foundation
