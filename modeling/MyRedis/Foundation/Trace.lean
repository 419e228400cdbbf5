import Mathlib.Logic.Basic

/-!
# Traces and what can be remembered of them

A trace of a system given by a step relation is the list of its steps so far, each recorded as the
event together with the state before it.  What an observer remembers of a trace is a fold over it
(`remember`), so that statements about the past of a run need no additional state in the system.
`Trace.invariant` is the rule for properties that relate the past with the present state,
`Trace.countP_le` the one for bounds on the number of steps of some kind, and `Trace.always_congr`
the one for properties of all steps of a run, each seen with its own past.
-/

namespace Foundation

variable {σ ε μ : Type}

/-- The traces from `s₀`: the steps taken, oldest first, and the state reached. -/
inductive Trace (step : σ → ε → σ → Prop) (s₀ : σ) : List (σ × ε) → σ → Prop
  | nil : Trace step s₀ [] s₀
  | snoc {past : List (σ × ε)} {s s' : σ} {e : ε} (htrace : Trace step s₀ past s)
      (hstep : step s e s') : Trace step s₀ (past ++ [(s, e)]) s'

/-- A first step before a trace. -/
theorem Trace.cons {step : σ → ε → σ → Prop} {s₀ s₁ s : σ} {e : ε} {past : List (σ × ε)}
    (hstep : step s₀ e s₁) (htrace : Trace step s₁ past s) : Trace step s₀ ((s₀, e) :: past) s := by
  induction htrace with
  | nil => exact Trace.snoc Trace.nil hstep
  | snoc _ hlast ih => exact ih.snoc hlast

/-- A trace after a trace. -/
theorem Trace.append {step : σ → ε → σ → Prop} {s₀ s₁ s : σ} {past later : List (σ × ε)}
    (htrace : Trace step s₀ past s₁) (hlater : Trace step s₁ later s) :
    Trace step s₀ (past ++ later) s := by
  induction hlater with
  | nil => rwa [List.append_nil]
  | snoc _ hlast ih =>
    rw [← List.append_assoc]
    exact ih.snoc hlast

/-- What an observer remembers who starts with `m₀` and looks at every step. -/
def remember (look : μ → σ → ε → μ) (m₀ : μ) (past : List (σ × ε)) : μ :=
  past.foldl (fun m p => look m p.1 p.2) m₀

@[simp] theorem remember_snoc (look : μ → σ → ε → μ) (m₀ : μ) (past : List (σ × ε)) (s : σ)
    (e : ε) : remember look m₀ (past ++ [(s, e)]) = look (remember look m₀ past) s e := by
  simp [remember]

/-- A property of the past and the present that holds at the start and is kept by every step holds
of every trace. -/
theorem Trace.invariant {step : σ → ε → σ → Prop} {s₀ : σ} {I : List (σ × ε) → σ → Prop}
    (hnil : I [] s₀)
    (hsnoc : ∀ past s e s', I past s → step s e s' → I (past ++ [(s, e)]) s')
    {past : List (σ × ε)} {s : σ} (htrace : Trace step s₀ past s) : I past s := by
  induction htrace with
  | nil => exact hnil
  | snoc _ hstep ih => exact hsnoc _ _ _ _ ih hstep

/-- A run all of whose events have a property is a run of the steps with this property. -/
theorem Trace.restrict {step : σ → ε → σ → Prop} {P : ε → Prop} {s₀ s : σ} {past : List (σ × ε)}
    (htrace : Trace step s₀ past s) (h : ∀ e ∈ past.map Prod.snd, P e) :
    Trace (fun s e s' => step s e s' ∧ P e) s₀ past s := by
  induction htrace with
  | nil => exact Trace.nil
  | snoc _ hstep ih =>
    rw [List.map_append] at h
    refine (ih fun e he => h e (List.mem_append_left _ he)).snoc ⟨hstep, ?_⟩
    exact h _ (List.mem_append_right _ List.mem_cons_self)

/-- If every step uses up what is left at least by the number of its kind (one or none), a run has
at most as many steps of this kind as were left at its start. -/
theorem Trace.countP_le {step : σ → ε → σ → Prop} {L : Nat → σ → Prop} {kind : ε → Bool}
    (hstep : ∀ n s e s', L n s → step s e s' →
      ∃ m, L m s' ∧ (if kind e then 1 else 0) + m ≤ n)
    {s₀ s : σ} {past : List (σ × ε)} (htrace : Trace step s₀ past s) {n : Nat} (h : L n s₀) :
    past.countP (fun q => kind q.2) ≤ n := by
  suffices hleft : ∃ m, L m s ∧ past.countP (fun q => kind q.2) + m ≤ n by
    obtain ⟨m, -, hle⟩ := hleft
    omega
  induction htrace with
  | nil => exact ⟨n, h, by simp⟩
  | snoc _ hlast ih =>
    obtain ⟨m, hm, hle⟩ := ih
    obtain ⟨m', hm', hle'⟩ := hstep _ _ _ _ hm hlast
    refine ⟨m', hm', ?_⟩
    simp only [List.countP_append, List.countP_singleton]
    omega

/-! ### All steps of a run -/

/-- Every step has a property, which may depend on the steps before it. -/
def Always (P : List (σ × ε) → σ → ε → Prop) (past : List (σ × ε)) : Prop :=
  ∀ before s e later, past = before ++ (s, e) :: later → P before s e

@[simp] theorem always_nil (P : List (σ × ε) → σ → ε → Prop) : Always P [] := by
  intro before s e later h
  simp at h

/-- One more step. -/
@[simp] theorem always_snoc {P : List (σ × ε) → σ → ε → Prop} {past : List (σ × ε)} {s : σ}
    {e : ε} :
    Always P (past ++ [(s, e)]) ↔ Always P past ∧ P past s e := by
  constructor
  · intro h
    refine ⟨?_, h past s e [] rfl⟩
    intro before s' e' later hpast
    refine h before s' e' (later ++ [(s, e)]) ?_
    rw [hpast, List.append_assoc, List.cons_append]
  · rintro ⟨hpast, hlast⟩ before s' e' later heq
    rcases List.eq_nil_or_concat later with rfl | ⟨later, last, rfl⟩
    · obtain ⟨rfl, hstep⟩ := List.append_inj' heq rfl
      obtain ⟨rfl, rfl⟩ := Prod.mk.inj (List.cons.inj hstep).1
      exact hlast
    · rw [List.concat_eq_append, ← List.cons_append, ← List.append_assoc] at heq
      exact hpast before s' e' later (List.append_inj' heq rfl).1

/-- A property that does not depend on the steps before holds of all steps one by one. -/
theorem always_iff_forall_mem {P : σ → ε → Prop} {past : List (σ × ε)} :
    Always (fun _ s e => P s e) past ↔ ∀ p ∈ past, P p.1 p.2 := by
  constructor
  · intro h p hp
    obtain ⟨before, later, hpast⟩ := List.append_of_mem hp
    exact h before p.1 p.2 later hpast
  · rintro h before s e later rfl
    exact h (s, e) (List.mem_append_right _ List.mem_cons_self)

/-- Two properties that agree at every step of a trace hold always or fail together. -/
theorem Trace.always_congr {step : σ → ε → σ → Prop} {s₀ : σ}
    {P Q : List (σ × ε) → σ → ε → Prop}
    (h : ∀ past s e s', Trace step s₀ past s → step s e s' → (P past s e ↔ Q past s e))
    {past : List (σ × ε)} {s : σ} (htrace : Trace step s₀ past s) :
    Always P past ↔ Always Q past := by
  induction htrace with
  | nil => simp
  | snoc hbefore hstep ih => rw [always_snoc, always_snoc, ih, h _ _ _ _ hbefore hstep]

/-! ### Logs that go together -/

/-- Every entry of the second log belongs to the entry of the first log at the same place. -/
def Matches (R : μ → ε → Prop) (firsts : List μ) (seconds : List ε) : Prop :=
  ∀ (i : Nat) (b : ε), seconds[i]? = some b → ∃ a, firsts[i]? = some a ∧ R a b

namespace Matches

variable {R : μ → ε → Prop} {firsts : List μ} {seconds : List ε}

/-- An empty log. -/
theorem nil (R : μ → ε → Prop) (firsts : List μ) : Matches R firsts [] := by
  intro i b hb
  simp at hb

/-- The first log may be ahead of the second. -/
theorem append_left (h : Matches R firsts seconds) (later : List μ) :
    Matches R (firsts ++ later) seconds := by
  intro i b hb
  obtain ⟨a, ha, hab⟩ := h i b hb
  obtain ⟨hi, -⟩ := List.getElem?_eq_some_iff.mp ha
  exact ⟨a, by rw [List.getElem?_append_left hi, ha], hab⟩

/-- One more entry of the second log. -/
theorem snoc (h : Matches R firsts seconds) {a : μ} {b : ε}
    (ha : firsts[seconds.length]? = some a) (hab : R a b) : Matches R firsts (seconds ++ [b]) := by
  intro i b' hb'
  by_cases hi : i < seconds.length
  · rw [List.getElem?_append_left hi] at hb'
    exact h i b' hb'
  · obtain ⟨hlt, -⟩ := List.getElem?_eq_some_iff.mp hb'
    obtain rfl : i = seconds.length := by
      rw [List.length_append, List.length_singleton] at hlt
      omega
    rw [List.getElem?_concat_length] at hb'
    obtain rfl := Option.some.inj hb'
    exact ⟨a, ha, hab⟩

end Matches

end Foundation
