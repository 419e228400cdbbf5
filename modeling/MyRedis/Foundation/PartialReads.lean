import Mathlib.Data.List.Basic

/-!
# Reading from a source that delivers in parts

A call that asks a source for `n` items gets at least one of them and at most `n`, as the source
likes, nothing if the source has ended, or an error.  A loop of such calls reads exactly `n` items
(`readLoop`).  However the items are delivered, it gets the next `n` items if there are so many
(`exists_readExact`), and fails if there are not (`readExact_of_lt`).
-/

namespace Foundation

/-- A source of items. -/
structure Source (α : Type) where
  /-- The outcomes of the calls to come: an error, or at most so many items beyond the first. -/
  reads : ℕ → Option ℕ
  /-- The items that are still to be read. -/
  pending : List α

namespace Source

variable {α : Type}

/-- The source after a call that has delivered `n` items. -/
def delivered (s : Source α) (n : ℕ) : Source α where
  reads := fun i => s.reads (i + 1)
  pending := s.pending.drop n

/-- The number of items that a call delivers: not more than are asked for, and not more than there
are. -/
def share (s : Source α) (n more : ℕ) : ℕ := min (more + 1) (min n s.pending.length)

/-- A call that asks for `n` items: an error, or the items that are delivered, none at the end. -/
def read (n : ℕ) (s : Source α) : Option (List α) × Source α :=
  match s.reads 0 with
  | none => (none, s.delivered 0)
  | some more => (some (s.pending.take (s.share n more)), s.delivered (s.share n more))

/-- The loop that collects `n` items.  Every round that goes on has got at least one item, so that
`n` rounds are enough. -/
def readLoop (n : ℕ) : ℕ → List α → Source α → Option (List α) × Source α
  | 0, buffer, s => (if buffer.length < n then none else some buffer, s)
  | fuel + 1, buffer, s =>
    if buffer.length < n then
      match s.read (n - buffer.length) with
      | (some (item :: items), s') => readLoop n fuel (buffer ++ item :: items) s'
      | (_, s') => (none, s')
    else (some buffer, s)

/-- Read exactly `n` items. -/
def readExact (n : ℕ) (s : Source α) : Option (List α) × Source α := readLoop n n [] s

/-- No call ends with an error. -/
def Reliable (s : Source α) : Prop := ∀ i, s.reads i ≠ none

theorem Reliable.delivered {s : Source α} (h : s.Reliable) (n : ℕ) : (s.delivered n).Reliable :=
  fun i => h (i + 1)

/-! ### One round -/

/-- How many items have been collected after a round. -/
theorem length_collected (buffer : List α) {s : Source α} {k : ℕ} (hk : k ≤ s.pending.length) :
    (buffer ++ s.pending.take k).length = buffer.length + k := by
  rw [List.length_append, List.length_take, Nat.min_eq_left hk]

/-- All ways in which a round of the loop can go. -/
inductive Rounds (n : ℕ) (buffer : List α) (s : Source α) : Prop
  /-- Some items are delivered. -/
  | more (k : ℕ) (hk : 0 < k) (hroom : k ≤ n - buffer.length) (hpending : k ≤ s.pending.length)
      (hloop : ∀ fuel, readLoop n (fuel + 1) buffer s =
        readLoop n fuel (buffer ++ s.pending.take k) (s.delivered k))
  /-- There is an error, or the source has ended. -/
  | stop (hend : s.Reliable → s.pending = []) (s' : Source α)
      (hloop : ∀ fuel, readLoop n (fuel + 1) buffer s = (none, s'))

/-- A round goes one of these ways. -/
theorem rounds {n : ℕ} {buffer : List α} (hlt : buffer.length < n) (s : Source α) :
    Rounds n buffer s := by
  rcases hread : s.reads 0 with _ | more
  · refine .stop (fun h => absurd hread (h 0)) (s.delivered 0) fun fuel => ?_
    rw [readLoop, if_pos hlt, read, hread]
  have hcall : s.read (n - buffer.length) =
      (some (s.pending.take (s.share (n - buffer.length) more)),
        s.delivered (s.share (n - buffer.length) more)) := by
    rw [read, hread]
  rcases hpending : s.pending with _ | ⟨item, items⟩
  · refine .stop (fun _ => hpending) (s.delivered (s.share (n - buffer.length) more)) fun fuel => ?_
    rw [readLoop, if_pos hlt, hcall, hpending, List.take_nil]
  · have hlength : s.pending.length = items.length + 1 := by
      rw [hpending, List.length_cons]
    have hk : 0 < s.share (n - buffer.length) more := by
      unfold share
      omega
    refine .more (s.share (n - buffer.length) more) hk ?_ ?_ fun fuel => ?_
    · unfold share
      omega
    · unfold share
      omega
    · obtain ⟨k, hsucc⟩ := Nat.exists_eq_succ_of_ne_zero (Nat.ne_of_gt hk)
      rw [readLoop, if_pos hlt, hcall, hsucc, hpending, List.take_succ_cons]

/-! ### The whole loop -/

/-- A loop that has enough items does not read. -/
theorem readLoop_of_ge {n : ℕ} {buffer : List α} (h : n ≤ buffer.length) (fuel : ℕ)
    (s : Source α) : readLoop n fuel buffer s = (some buffer, s) := by
  cases fuel with
  | zero => rw [readLoop, if_neg (Nat.not_lt.mpr h)]
  | succ fuel => rw [readLoop, if_neg (Nat.not_lt.mpr h)]

/-- What a loop that succeeds has read: the next items, as many as were missing. -/
theorem readLoop_eq_some {n fuel : ℕ} {buffer items : List α} {s s' : Source α}
    (hbuffer : buffer.length ≤ n) (h : readLoop n fuel buffer s = (some items, s')) :
    items.length = n ∧ buffer ++ s.pending = items ++ s'.pending ∧
      (s.Reliable → s'.Reliable) := by
  by_cases hlt : buffer.length < n
  · induction fuel generalizing buffer s with
    | zero =>
      rw [readLoop, if_pos hlt] at h
      cases h
    | succ fuel ih =>
      cases rounds hlt s with
      | stop _ s₁ hloop =>
        rw [hloop] at h
        cases h
      | more k hk hroom hpending hloop =>
        rw [hloop] at h
        have hlength := length_collected buffer hpending
        have hsplit :
            buffer ++ s.pending = buffer ++ s.pending.take k ++ (s.delivered k).pending := by
          rw [List.append_assoc, delivered, List.take_append_drop]
        rw [hsplit]
        by_cases hmore : (buffer ++ s.pending.take k).length < n
        · obtain ⟨hitems, heq, hreliable⟩ := ih (Nat.le_of_lt hmore) h hmore
          exact ⟨hitems, heq, fun hs => hreliable (hs.delivered k)⟩
        · rw [readLoop_of_ge (Nat.not_lt.mp hmore)] at h
          cases h
          exact ⟨by omega, rfl, fun hs => hs.delivered k⟩
  · rw [readLoop_of_ge (Nat.not_lt.mp hlt)] at h
    cases h
    exact ⟨Nat.le_antisymm hbuffer (Nat.not_lt.mp hlt), rfl, id⟩

/-- A loop succeeds if the source is reliable and has enough items. -/
theorem readLoop_ne_none {n fuel : ℕ} {buffer : List α} {s : Source α} (hs : s.Reliable)
    (hfuel : n - buffer.length ≤ fuel) (henough : n - buffer.length ≤ s.pending.length) :
    (readLoop n fuel buffer s).1 ≠ none := by
  by_cases hlt : buffer.length < n
  · induction fuel generalizing buffer s with
    | zero => omega
    | succ fuel ih =>
      cases rounds hlt s with
      | stop hend =>
        rw [hend hs, List.length_nil] at henough
        omega
      | more k hk hroom hpending hloop =>
        have hlength := length_collected buffer hpending
        have hleft : (s.delivered k).pending.length = s.pending.length - k := List.length_drop
        rw [hloop]
        by_cases hmore : (buffer ++ s.pending.take k).length < n
        · apply ih (hs.delivered k)
          · omega
          · omega
          · exact hmore
        · rw [readLoop_of_ge (Nat.not_lt.mp hmore)]
          exact Option.some_ne_none _
  · rw [readLoop_of_ge (Nat.not_lt.mp hlt)]
    exact Option.some_ne_none _

/-- More rounds than items are asked for make no difference. -/
theorem readLoop_fuel {n fuel fuel' : ℕ} {buffer : List α} (s : Source α)
    (hfuel : n - buffer.length ≤ fuel) (hfuel' : n - buffer.length ≤ fuel') :
    readLoop n fuel buffer s = readLoop n fuel' buffer s := by
  by_cases hlt : buffer.length < n
  · induction fuel generalizing fuel' buffer s with
    | zero => omega
    | succ fuel ih =>
      obtain ⟨fuel', rfl⟩ : ∃ later, fuel' = later + 1 := ⟨fuel' - 1, by omega⟩
      cases rounds hlt s with
      | stop _ s' hloop => rw [hloop, hloop]
      | more k hk hroom hpending hloop =>
        have hbuffer := length_collected buffer hpending
        rw [hloop, hloop]
        by_cases hmore : (buffer ++ s.pending.take k).length < n
        · apply ih
          · omega
          · omega
          · exact hmore
        · rw [readLoop_of_ge (Nat.not_lt.mp hmore), readLoop_of_ge (Nat.not_lt.mp hmore)]
  · rw [readLoop_of_ge (Nat.not_lt.mp hlt), readLoop_of_ge (Nat.not_lt.mp hlt)]

/-! ### Exactly `n` items -/

/-- What is read are the next `n` items. -/
theorem readExact_eq_some {n : ℕ} {items : List α} {s s' : Source α}
    (h : s.readExact n = (some items, s')) :
    items.length = n ∧ s.pending = items ++ s'.pending ∧ (s.Reliable → s'.Reliable) :=
  readLoop_eq_some (Nat.zero_le n) h

/-- They are read if there are so many. -/
theorem exists_readExact {items rest : List α} {s : Source α} (hs : s.Reliable)
    (hpending : s.pending = items ++ rest) :
    ∃ s', s'.Reliable ∧ s'.pending = rest ∧ s.readExact items.length = (some items, s') := by
  have henough : items.length - ([] : List α).length ≤ s.pending.length := by
    rw [hpending, List.length_append]
    exact Nat.le_add_right _ _
  have hsome := readLoop_ne_none hs (Nat.sub_le items.length _) henough
  rcases hread : s.readExact items.length with ⟨_ | got, s'⟩
  · exact absurd (congrArg Prod.fst hread) hsome
  · obtain ⟨hlength, hsplit, hreliable⟩ := readExact_eq_some hread
    obtain ⟨rfl, rfl⟩ := List.append_inj (hpending.symm.trans hsplit) hlength.symm
    exact ⟨s', hreliable hs, rfl, rfl⟩

/-- If there are not so many, the call fails. -/
theorem readExact_of_lt {n : ℕ} {s : Source α} (hfew : s.pending.length < n) :
    (s.readExact n).1 = none := by
  rcases hread : s.readExact n with ⟨_ | items, s'⟩
  · rfl
  · obtain ⟨hlength, hsplit, -⟩ := readExact_eq_some hread
    rw [hsplit, List.length_append] at hfew
    omega

/-- More rounds would not change the result. -/
theorem readLoop_eq_readExact {n fuel : ℕ} (hfuel : n ≤ fuel) (s : Source α) :
    readLoop n fuel [] s = s.readExact n :=
  readLoop_fuel s hfuel (Nat.le_refl n)

end Source

end Foundation
