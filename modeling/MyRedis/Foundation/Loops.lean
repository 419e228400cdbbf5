import Mathlib.Data.List.Basic

/-!
# Loops over lists

What a loop over a list does, from what one round does: to a property that every round can only take
away or only bring about, to a value that some rounds overwrite, and to a list of results to which
every round adds one.  Two loops over the same list that keep two states related collect the same
results if related states give the same result.
-/

namespace Foundation

variable {σ ε β : Type}

/-- What holds after a loop has held before it, if every round reflects it. -/
theorem of_foldl {P : σ → Prop} {next : σ → ε → σ} (hround : ∀ s e, P (next s e) → P s)
    (items : List ε) {s : σ} (h : P (items.foldl next s)) : P s := by
  induction items generalizing s with
  | nil => exact h
  | cons e items ih => exact hround s e (ih h)

/-- If every round takes a property away from the elements that it concerns, the property survives
the loop when no element of the list concerns it. -/
theorem foldl_and_not {P : σ → Prop} {Q : ε → Prop} (next : σ → ε → σ)
    (hstep : ∀ s e, P (next s e) ↔ P s ∧ ¬ Q e) (items : List ε) (s : σ) :
    P (items.foldl next s) ↔ P s ∧ ¬ ∃ e ∈ items, Q e := by
  induction items generalizing s with
  | nil => simp
  | cons e items ih =>
    rw [List.foldl_cons, ih, hstep, List.exists_mem_cons_iff, not_or, and_assoc]

/-- If every round can bring a property about and none takes it away, the property holds after the
loop when it did before or when one round has brought it about. -/
theorem foldl_or {P : σ → Prop} {Q : ε → Prop} (next : σ → ε → σ)
    (hstep : ∀ s e, P (next s e) ↔ P s ∨ Q e) (items : List ε) (s : σ) :
    P (items.foldl next s) ↔ P s ∨ ∃ e ∈ items, Q e := by
  induction items generalizing s with
  | nil => simp
  | cons e items ih =>
    rw [List.foldl_cons, ih, hstep, List.exists_mem_cons_iff, or_assoc]

/-- A loop in which every round may overwrite a value leaves the value that was written last. -/
theorem foldl_last_write {next : σ → ε → σ} (read : σ → Option β) {write : ε → Option β}
    (hstep : ∀ s e, read (next s e) = (write e).or (read s)) (items : List ε) (s : σ) :
    read (items.foldl next s) = (items.filterMap write).getLast?.or (read s) := by
  induction items generalizing s with
  | nil => rfl
  | cons e items ih =>
    rw [List.foldl_cons, ih, hstep, List.filterMap_cons]
    cases write e with
    | none => rfl
    | some b =>
      rw [List.getLast?_cons]
      cases (items.filterMap write).getLast? with
      | none => rfl
      | some b' => rfl

/-! ### Results of the rounds -/

/-- A round that changes the state and adds a result, seen in the new state, to a list. -/
def collectStep (next : σ → ε → σ) (result : ε → σ → β) (acc : List β × σ) (e : ε) : List β × σ :=
  (acc.1 ++ [result e (next acc.2 e)], next acc.2 e)

/-- The state after a loop that collects results. -/
theorem foldl_collectStep_snd (next : σ → ε → σ) (result : ε → σ → β) (items : List ε)
    (out : List β)
    (s : σ) : (items.foldl (collectStep next result) (out, s)).2 = items.foldl next s := by
  induction items generalizing out s with
  | nil => rfl
  | cons e items ih =>
    rw [List.foldl_cons, List.foldl_cons]
    exact ih _ _

/-- The results so far stay in front. -/
theorem foldl_collectStep_fst (next : σ → ε → σ) (result : ε → σ → β) (items : List ε)
    (out : List β)
    (s : σ) : (items.foldl (collectStep next result) (out, s)).1 =
      out ++ (items.foldl (collectStep next result) ([], s)).1 := by
  induction items generalizing out s with
  | nil => exact (List.append_nil out).symm
  | cons e items ih =>
    have hround (out : List β) : collectStep next result (out, s) e =
        (out ++ [result e (next s e)], next s e) := rfl
    rw [List.foldl_cons, List.foldl_cons, hround, hround, ih, ih ([] ++ _), List.append_assoc]
    rfl

/-- The result of the `i`-th round is the one of its element in the state after that round. -/
theorem getElem?_foldl_collectStep (next : σ → ε → σ) (result : ε → σ → β) (items : List ε) (s : σ)
    (i : ℕ) : (items.foldl (collectStep next result) ([], s)).1[i]? =
      items[i]?.map fun e => result e ((items.take (i + 1)).foldl next s) := by
  induction items generalizing i s with
  | nil => rfl
  | cons e items ih =>
    have hround : collectStep next result ([], s) e = ([result e (next s e)], next s e) := rfl
    rw [List.foldl_cons, hround, foldl_collectStep_fst]
    cases i with
    | zero => rfl
    | succ i =>
      rw [List.singleton_append, List.getElem?_cons_succ, ih]
      rfl

/-- Two loops over the same list whose rounds keep the states related, where related states give the
same result: the final states are related and the results are the same. -/
theorem foldl_collectStep_related {τ : Type} {R : σ → τ → Prop} {next : σ → ε → σ}
    {next' : τ → ε → τ} {result : ε → σ → β} {result' : ε → τ → β}
    (hnext : ∀ s t e, R s t → R (next s e) (next' t e))
    (hresult : ∀ s t e, R s t → result e s = result' e t) (items : List ε) (out : List β) {s : σ}
    {t : τ} (h : R s t) :
    (items.foldl (collectStep next result) (out, s)).1 =
        (items.foldl (collectStep next' result') (out, t)).1 ∧
      R (items.foldl next s) (items.foldl next' t) := by
  induction items generalizing out s t with
  | nil => exact ⟨rfl, h⟩
  | cons e items ih =>
    have hround := hnext s t e h
    simp only [List.foldl_cons, collectStep]
    rw [hresult _ _ e hround]
    exact ih _ hround

end Foundation
