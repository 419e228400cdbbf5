import Mathlib.Data.List.Basic

/-!
# Decoders of streams

A decoder looks for a value at the front of a buffer and says how much of the buffer the value
takes.  The fields of `StreamDecoder` are what makes it usable on a stream that arrives in pieces: a
value takes at least one item and no more than there are, and a verdict is not changed by what comes
later.  From this it follows that a proper front part of an encoding is never taken for a value
(`StreamDecoder.decode_part`), and that the values read do not depend on how the stream is cut into
pieces (`StreamDecoder.repeats_next`).
-/

namespace Foundation

variable {α β σ : Type}

/-! ### Repeated calls -/

/-- The results of repeated calls up to the first one that fails, and the state in which this call
leaves its caller. -/
inductive Repeats (call : σ → Option β × σ) : σ → List β → σ → Prop
  | stop {s s' : σ} (h : call s = (none, s')) : Repeats call s [] s'
  | more {s s₁ s' : σ} {v : β} {vs : List β} (h : call s = (some v, s₁))
      (hlater : Repeats call s₁ vs s') : Repeats call s (v :: vs) s'

/-- Repeated calls go in one way only. -/
theorem Repeats.unique {call : σ → Option β × σ} {s s₁ s₂ : σ} {vs ws : List β}
    (h : Repeats call s vs s₁) (h' : Repeats call s ws s₂) : vs = ws ∧ s₁ = s₂ := by
  induction h generalizing ws with
  | stop hcall =>
    rcases h' with hcall' | ⟨hcall', -⟩
    · exact ⟨rfl, (Prod.mk.inj (hcall.symm.trans hcall')).2⟩
    · exact absurd (Prod.mk.inj (hcall.symm.trans hcall')).1 (by simp)
  | more hcall _ ih =>
    rcases h' with hcall' | ⟨hcall', hlater'⟩
    · exact absurd (Prod.mk.inj (hcall.symm.trans hcall')).1 (by simp)
    · obtain ⟨hv, rfl⟩ := Prod.mk.inj (hcall.symm.trans hcall')
      obtain ⟨rfl, rfl⟩ := ih hlater'
      exact ⟨by rw [Option.some.inj hv], rfl⟩

/-! ### Decoders -/

/-- A decoder for the value at the front of a buffer, with the number of items that it takes. -/
structure StreamDecoder (α β : Type) where
  /-- The value, if the buffer contains all of it. -/
  decode : List α → Option (β × ℕ)
  /-- A value takes at least one item. -/
  pos : ∀ {s v n}, decode s = some (v, n) → 0 < n
  /-- A value takes no more items than there are. -/
  le_length : ∀ {s v n}, decode s = some (v, n) → n ≤ s.length
  /-- What comes later does not change a verdict. -/
  stable : ∀ {s v n}, decode s = some (v, n) → ∀ later, decode (s ++ later) = some (v, n)

namespace StreamDecoder

variable (d : StreamDecoder α β)

/-- No proper front part of an encoding is taken for a value. -/
theorem decode_part {code : List α} {v : β} (hcode : d.decode code = some (v, code.length))
    {part : List α} (hpart : part <+: code) (hne : part ≠ code) : d.decode part = none := by
  by_contra hsome
  obtain ⟨⟨w, n⟩, hdecode⟩ := Option.ne_none_iff_exists'.mp hsome
  obtain ⟨later, rfl⟩ := hpart
  have heq := (d.stable hdecode later).symm.trans hcode
  obtain ⟨-, rfl⟩ := Prod.mk.inj (Option.some.inj heq)
  have hle := d.le_length hdecode
  rw [List.length_append] at hle
  refine hne ?_
  have hlater : later = [] := List.length_eq_zero_iff.mp (by omega)
  rw [hlater, List.append_nil]

/-- Take the value at the front of a buffer. -/
def take (s : List α) : Option β × List α :=
  match d.decode s with
  | some (v, n) => (some v, s.drop n)
  | none => (none, s)

/-- A stream is a sequence of values and a rest in which there is no value. -/
theorem exists_repeats_take (s : List α) : ∃ vs rest, Repeats d.take s vs rest := by
  induction hlength : s.length using Nat.strongRecOn generalizing s with
  | _ length ih =>
    cases hdecode : d.decode s with
    | none => exact ⟨[], s, .stop (by rw [take, hdecode])⟩
    | some value =>
      obtain ⟨v, n⟩ := value
      have hpos := d.pos hdecode
      have hle := d.le_length hdecode
      have hshorter : (s.drop n).length < length := by
        rw [List.length_drop]
        omega
      obtain ⟨vs, rest, hlater⟩ := ih _ hshorter _ rfl
      exact ⟨v :: vs, rest, .more (by rw [take, hdecode]) hlater⟩

/-! ### Pieces of a stream -/

/-- Read one value from a stream that arrives in pieces: pieces are added to the buffer until it
contains a value.  An empty piece is the end of the stream. -/
def next : List (List α) → List α → Option β × List (List α) × List α
  | [], buffer => ((d.take buffer).1, [], (d.take buffer).2)
  | piece :: later, buffer =>
    match d.decode buffer with
    | some (v, n) => (some v, piece :: later, buffer.drop n)
    | none => if piece.isEmpty then (none, later, buffer) else next later (buffer ++ piece)

/-- Reading a value from the pieces of a stream is taking it from the stream. -/
theorem next_eq {pieces : List (List α)} (hpieces : ∀ p ∈ pieces, p ≠ []) (buffer : List α) :
    ∃ pieces' buffer', d.next pieces buffer =
        ((d.take (buffer ++ pieces.flatten)).1, pieces', buffer') ∧
      (∀ p ∈ pieces', p ≠ []) ∧ buffer' ++ pieces'.flatten = (d.take (buffer ++ pieces.flatten)).2 ∧
      ((d.take (buffer ++ pieces.flatten)).1 = none → pieces' = []) := by
  induction pieces generalizing buffer with
  | nil =>
    rw [List.flatten_nil, List.append_nil]
    exact ⟨[], _, rfl, by simp, List.append_nil _, fun _ => rfl⟩
  | cons piece later ih =>
    rw [next]
    cases hdecode : d.decode buffer with
    | none =>
      have hpiece : piece.isEmpty = false := by
        simpa using hpieces piece List.mem_cons_self
      have hlater := ih (fun p hp => hpieces p (List.mem_cons_of_mem _ hp)) (buffer ++ piece)
      rw [List.append_assoc, ← List.flatten_cons] at hlater
      simpa only [hpiece, Bool.false_eq_true, if_false] using hlater
    | some value =>
      obtain ⟨v, n⟩ := value
      have htake : d.take (buffer ++ (piece :: later).flatten) =
          (some v, (buffer ++ (piece :: later).flatten).drop n) := by
        rw [take, d.stable hdecode]
      refine ⟨piece :: later, buffer.drop n, by rw [htake], hpieces, ?_, ?_⟩
      · rw [htake, List.drop_append_of_le_length (d.le_length hdecode)]
      · intro hnone
        rw [htake] at hnone
        cases hnone

/-- Repeated reading from the pieces of a stream gives the values of the stream and leaves its
rest. -/
theorem repeats_next {s : List α} {vs : List β} {rest : List α} (h : Repeats d.take s vs rest)
    {pieces : List (List α)} (hpieces : ∀ p ∈ pieces, p ≠ []) {buffer : List α}
    (hs : buffer ++ pieces.flatten = s) :
    Repeats (fun state => d.next state.1 state.2) (pieces, buffer) vs ([], rest) := by
  induction h generalizing pieces buffer with
  | stop htake =>
    obtain ⟨pieces', buffer', hnext, -, hrest, hend⟩ := d.next_eq hpieces buffer
    rw [hs, htake] at hnext hrest hend
    obtain rfl := hend rfl
    rw [List.flatten_nil, List.append_nil] at hrest
    exact .stop (by rw [hnext, hrest])
  | more htake _ ih =>
    obtain ⟨pieces', buffer', hnext, hpieces', hrest, -⟩ := d.next_eq hpieces buffer
    rw [hs, htake] at hnext hrest
    exact .more hnext (ih hpieces' hrest)

end StreamDecoder

end Foundation
