import Mathlib.Data.List.Basic

/-!
# Footprints of operations

A state is looked at through a function that gives a value for every place.  An operation on the
state that also returns a result is confined to a list of places (`Confined`) if it leaves the
values of all other places alone, and if its result and the values it writes depend on the values of
these places only.

Confined operations compose (`Confined.bind`), and two of them commute if they are confined to
disjoint lists of places (`Confined.commute`).
-/

namespace Foundation

variable {σ κ ν α β : Type}

/-- An operation that reads and writes the given places only. -/
structure Confined (view : σ → κ → ν) (places : List κ) (f : σ → α × σ) : Prop where
  /-- The other places are left alone. -/
  frame : ∀ s k, k ∉ places → view (f s).2 k = view s k
  /-- The result depends on the given places only. -/
  result_congr : ∀ s s', (∀ k ∈ places, view s k = view s' k) → (f s).1 = (f s').1
  /-- So do the values that are written. -/
  view_congr : ∀ s s', (∀ k ∈ places, view s k = view s' k) →
    ∀ k ∈ places, view (f s).2 k = view (f s').2 k

namespace Confined

variable {view : σ → κ → ν} {places places' : List κ} {f : σ → α × σ}

/-- An operation on one place, given by what it returns and what it writes. -/
theorem single [DecidableEq κ] {key : κ} (result : ν → α) (write : ν → ν)
    (hresult : ∀ s, (f s).1 = result (view s key))
    (hwrite : ∀ s, view (f s).2 = Function.update (view s) key (write (view s key))) :
    Confined view [key] f where
  frame := by
    intro s k hk
    rw [hwrite, Function.update_of_ne (List.ne_of_not_mem_cons hk)]
  result_congr := by
    intro s s' h
    rw [hresult, hresult, h key List.mem_cons_self]
  view_congr := by
    intro s s' h k hk
    obtain rfl := List.mem_singleton.mp hk
    rw [hwrite, hwrite, Function.update_self, Function.update_self, h k hk]

/-- Returning a value without touching the state. -/
theorem pure (view : σ → κ → ν) (a : α) : Confined view [] fun s => (a, s) where
  frame := fun _ _ _ => rfl
  result_congr := fun _ _ _ => rfl
  view_congr := fun _ _ _ _ hk => absurd hk List.not_mem_nil

/-- The result may be rewritten. -/
theorem map (hf : Confined view places f) (g : α → β) :
    Confined view places fun s => (f s).map g id where
  frame := hf.frame
  result_congr := fun s s' h => congrArg g (hf.result_congr s s' h)
  view_congr := hf.view_congr

/-- States that agree on more places than an operation is confined to agree on them afterwards. -/
theorem view_congr_of_subset (hf : Confined view places f) (hsub : places ⊆ places') {s s' : σ}
    (h : ∀ k ∈ places', view s k = view s' k) {k : κ} (hk : k ∈ places') :
    view (f s).2 k = view (f s').2 k := by
  by_cases hmem : k ∈ places
  · exact hf.view_congr s s' (fun k hk => h k (hsub hk)) k hmem
  · rw [hf.frame s k hmem, hf.frame s' k hmem, h k hk]

/-- One operation after another, which may depend on the result of the first. -/
theorem bind {g : α → σ → β × σ} (hf : Confined view places f)
    (hg : ∀ a, Confined view places' (g a)) :
    Confined view (places ++ places') fun s => g (f s).1 (f s).2 where
  frame := by
    intro s k hk
    rw [List.mem_append, not_or] at hk
    rw [(hg _).frame _ k hk.2, hf.frame s k hk.1]
  result_congr := by
    intro s s' h
    have hfirst : (f s).1 = (f s').1 :=
      hf.result_congr s s' fun k hk => h k (List.mem_append_left _ hk)
    rw [hfirst]
    refine (hg _).result_congr _ _ fun k hk => ?_
    exact hf.view_congr_of_subset (List.subset_append_left _ _) h (List.mem_append_right _ hk)
  view_congr := by
    intro s s' h k hk
    have hfirst : (f s).1 = (f s').1 :=
      hf.result_congr s s' fun k hk => h k (List.mem_append_left _ hk)
    rw [hfirst]
    refine (hg _).view_congr_of_subset (List.subset_append_right _ _) (fun k hk => ?_) hk
    exact hf.view_congr_of_subset (List.subset_append_left _ _) h hk

/-- An operation on other places is not noticed. -/
theorem result_after {g : σ → β × σ} (hf : Confined view places f) (hg : Confined view places' g)
    (hdisj : places.Disjoint places') (s : σ) : (g (f s).2).1 = (g s).1 :=
  hg.result_congr _ _ fun k hk => hf.frame s k fun hmem => hdisj hmem hk

/-- Operations on disjoint lists of places commute. -/
theorem commute {g : σ → β × σ} (hf : Confined view places f) (hg : Confined view places' g)
    (hdisj : places.Disjoint places') (s : σ) : view (g (f s).2).2 = view (f (g s).2).2 := by
  funext k
  by_cases hk : k ∈ places
  · have hk' : k ∉ places' := fun hmem => hdisj hk hmem
    rw [hg.frame _ k hk']
    refine hf.view_congr s _ (fun j hj => ?_) k hk
    exact (hg.frame s j fun hmem => hdisj hj hmem).symm
  · rw [hf.frame (g s).2 k hk]
    by_cases hk' : k ∈ places'
    · exact hg.view_congr _ s (fun j hj => hf.frame s j fun hmem => hdisj hmem hj) k hk'
    · rw [hg.frame _ k hk', hg.frame _ k hk', hf.frame s k hk]

end Confined

end Foundation
