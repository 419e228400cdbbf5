import Mathlib.Data.List.Basic

/-!
# Frames in a stream

A stream is the concatenation of frames, and it arrives in pieces that do not respect the frames.
`exists_frames_of_isPrefix` says what has arrived at any time: a number of complete frames and a
proper front part of the next one.
-/

namespace Foundation

variable {α C : Type}

/-- A front part of a concatenation of non-empty frames consists of complete frames and a proper
front part of the next frame; the part is empty if no frame is left. -/
theorem exists_frames_of_isPrefix {code : C → List α} {cs : List C} (hcode : ∀ c ∈ cs, code c ≠ [])
    {arrived : List α} (h : arrived <+: cs.flatMap code) :
    ∃ done todo partOfNext, cs = done ++ todo ∧ arrived = done.flatMap code ++ partOfNext ∧
      ((todo = [] ∧ partOfNext = []) ∨
        ∃ c later, todo = c :: later ∧ partOfNext <+: code c ∧ partOfNext ≠ code c) := by
  induction cs generalizing arrived with
  | nil =>
    rw [List.flatMap_nil, List.prefix_nil] at h
    exact ⟨[], [], [], rfl, h, Or.inl ⟨rfl, rfl⟩⟩
  | cons c cs ih =>
    rw [List.flatMap_cons] at h
    by_cases hall : code c <+: arrived
    · -- the first frame has arrived completely
      obtain ⟨rest, rfl⟩ := hall
      have hrest : rest <+: cs.flatMap code := (List.prefix_append_right_inj _).mp h
      obtain ⟨done, todo, part, rfl, rfl, hpart⟩ :=
        ih (fun c' hc' => hcode c' (List.mem_cons_of_mem _ hc')) hrest
      refine ⟨c :: done, todo, part, rfl, ?_, hpart⟩
      rw [List.flatMap_cons, List.append_assoc]
    · have hpart : arrived <+: code c :=
        (List.prefix_or_prefix_of_prefix h (List.prefix_append _ _)).resolve_right hall
      refine ⟨[], c :: cs, arrived, rfl, rfl, Or.inr ⟨c, cs, rfl, hpart, ?_⟩⟩
      rintro rfl
      exact hall (List.prefix_refl _)

end Foundation
