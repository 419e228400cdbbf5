import Mathlib.Data.List.Basic

/-!
# Sweeping the front of a list

A sweep looks at the first `n` elements of a list and removes those that satisfy a predicate; the
other elements stay where they are.  Sweeps that are repeated remove all elements that satisfy `p`
(`sweeps_clean`) if each of these has fewer than `n` elements that do not satisfy `p` in front of
it (`WithinReach`), and otherwise they may leave one of them forever (`mem_sweeps_of_hidden`).
-/

namespace Foundation

variable {α : Type}

/-- Remove those of the first `n` elements that satisfy `p`. -/
def sweep (n : ℕ) (p : α → Bool) (l : List α) : List α :=
  (l.take n).filter (fun a => !p a) ++ l.drop n

/-- Sweep once with each of several predicates. -/
def sweeps (n : ℕ) (ps : List (α → Bool)) (l : List α) : List α :=
  ps.foldl (fun l p => sweep n p l) l

@[simp] theorem sweeps_cons (n : ℕ) (p : α → Bool) (ps : List (α → Bool)) (l : List α) :
    sweeps n (p :: ps) l = sweeps n ps (sweep n p l) := rfl

/-- Each element that satisfies `p` has fewer than `n` elements that do not in front of it. -/
def WithinReach (n : ℕ) (p : α → Bool) (l : List α) : Prop :=
  ∀ before a after, l = before ++ a :: after → p a = true → before.countP (fun b => !p b) < n

/-- A sweep keeps the order. -/
theorem sweep_sublist (n : ℕ) (p : α → Bool) (l : List α) : (sweep n p l).Sublist l := by
  have h : (sweep n p l).Sublist (l.take n ++ l.drop n) :=
    List.filter_sublist.append (List.Sublist.refl _)
  rwa [List.take_append_drop] at h

/-- Removing elements keeps the others within reach. -/
theorem WithinReach.of_sublist {n : ℕ} {p : α → Bool} {l l' : List α} (h : WithinReach n p l)
    (hsub : l'.Sublist l) : WithinReach n p l' := by
  rintro before a after rfl ha
  obtain ⟨x, y, rfl, hbefore, hrest⟩ := List.append_sublist_iff.mp hsub
  obtain ⟨y₁, y₂, rfl, hmem, -⟩ := List.cons_sublist_iff.mp hrest
  obtain ⟨u, v, rfl⟩ := List.append_of_mem hmem
  have hcount := h (x ++ u) a (v ++ y₂) (by simp) ha
  have hle := hbefore.countP_le (p := fun b => !p b)
  rw [List.countP_append] at hcount
  omega

/-- The first element that satisfies `p` is among those that a sweep looks at. -/
theorem sweep_sublist_of_first {n : ℕ} {p q : α → Bool} (hpq : ∀ a, p a = true → q a = true)
    {before after : List α} {a : α} (h : WithinReach n p (before ++ a :: after)) (ha : p a = true)
    (hbefore : ∀ b ∈ before, p b = false) :
    (sweep n q (before ++ a :: after)).Sublist (before ++ after) := by
  have hlength : before.length < n := by
    have hcount := h before a after rfl ha
    rwa [List.countP_eq_length.mpr fun b hb => by simp [hbefore b hb]] at hcount
  obtain ⟨m, rfl⟩ : ∃ m, n = before.length + (m + 1) := ⟨n - before.length - 1, by omega⟩
  have hsweep : sweep (before.length + (m + 1)) q (before ++ a :: after) =
      before.filter (fun b => !q b) ++ sweep m q after := by
    rw [sweep, List.take_length_add_append, List.drop_length_add_append, List.take_succ_cons,
      List.drop_succ_cons, List.filter_append, List.filter_cons, if_neg (by simp [hpq a ha]),
      List.append_assoc, sweep]
  rw [hsweep]
  exact List.filter_sublist.append (sweep_sublist m q after)

/-- A sweep with a weaker predicate removes at least one element that satisfies `p`, if there is
one. -/
theorem countP_sweep_lt {n : ℕ} {p q : α → Bool} (hpq : ∀ a, p a = true → q a = true) {l : List α}
    (h : WithinReach n p l) (hl : ∃ a ∈ l, p a = true) : (sweep n q l).countP p < l.countP p := by
  obtain ⟨a, hfind⟩ := Option.isSome_iff_exists.mp (List.find?_isSome.mpr hl)
  obtain ⟨ha, before, after, rfl, hbefore⟩ := List.find?_eq_some_iff_append.mp hfind
  have hsub := sweep_sublist_of_first hpq h ha fun b hb => by simpa using hbefore b hb
  have hle := hsub.countP_le (p := p)
  rw [List.countP_append] at hle
  rw [List.countP_append, List.countP_cons, if_pos ha]
  omega

/-- As many sweeps as there are elements within reach remove all of them. -/
theorem sweeps_clean {n : ℕ} {p : α → Bool} {qs : List (α → Bool)}
    (hqs : ∀ q ∈ qs, ∀ a, p a = true → q a = true) {l : List α} (h : WithinReach n p l)
    (hcount : l.countP p ≤ qs.length) : ∀ a ∈ sweeps n qs l, p a = false := by
  induction qs generalizing l with
  | nil =>
    intro a ha
    have hnone := List.countP_eq_zero.mp (Nat.le_zero.mp hcount) a ha
    simpa using hnone
  | cons q qs ih =>
    rw [sweeps_cons]
    refine ih (fun q' hq' => hqs q' (List.mem_cons_of_mem _ hq'))
      (h.of_sublist (sweep_sublist n q l)) ?_
    rw [List.length_cons] at hcount
    by_cases hl : ∃ a ∈ l, p a = true
    · have hlt := countP_sweep_lt (hqs q List.mem_cons_self) h hl
      omega
    · have hzero : l.countP p = 0 := List.countP_eq_zero.mpr fun a ha hpa => hl ⟨a, ha, hpa⟩
      have hle := (sweep_sublist n q l).countP_le (p := p)
      omega

/-- A sweep does not get past `n` elements that do not satisfy the predicate. -/
theorem sweep_of_hidden {n : ℕ} {p : α → Bool} {before : List α}
    (hhidden : n ≤ before.countP fun b => !p b) (a : α) (after : List α) :
    ∃ before', sweep n p (before ++ a :: after) = before' ++ a :: after ∧
      before'.countP (fun b => !p b) = before.countP fun b => !p b := by
  have hlength : n ≤ before.length := Nat.le_trans hhidden List.countP_le_length
  refine ⟨sweep n p before, ?_, ?_⟩
  · rw [sweep, sweep, List.take_append_of_le_length hlength, List.drop_append_of_le_length hlength,
      List.append_assoc]
  · have hfilter : ((before.take n).filter fun b => !p b).countP (fun b => !p b) =
        (before.take n).countP fun b => !p b := by
      rw [List.countP_filter]
      simp only [Bool.and_self]
    rw [sweep, List.countP_append, hfilter, ← List.countP_append, List.take_append_drop]

/-- Sweeps with one predicate never remove an element that is not within reach. -/
theorem mem_sweeps_of_hidden {n : ℕ} {p : α → Bool} {before : List α}
    (hhidden : n ≤ before.countP fun b => !p b) (a : α) (after : List α) (m : ℕ) :
    a ∈ sweeps n (List.replicate m p) (before ++ a :: after) := by
  induction m generalizing before with
  | zero => exact List.mem_append_right _ List.mem_cons_self
  | succ m ih =>
    obtain ⟨before', heq, hcount⟩ := sweep_of_hidden hhidden a after
    rw [List.replicate_succ, sweeps_cons, heq]
    exact ih (hcount ▸ hhidden)

end Foundation
