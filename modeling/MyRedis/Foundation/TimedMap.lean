import Mathlib.Data.Finmap
import Mathlib.Data.Option.Basic

/-!
# Finite maps with deadlines

A timed map assigns to finitely many keys a value and an optional deadline.  An entry exists at
time `t` as long as its deadline, if it has one, is later than `t`; `TimedMap.lookupAt` is the map
as seen at a time.  What a later observer sees is a function of what an earlier one sees
(`lookupAt_mono`), so two maps that look alike at one time look alike ever after.
-/

namespace Foundation

/-- Whether an entry with this deadline exists at time `t`. -/
def aliveAt {T : Type} [LT T] [DecidableLT T] (t : T) : Option T → Bool
  | none => true
  | some d => decide (t < d)

/-- A finite map from keys to values with an optional deadline. -/
abbrev TimedMap (K V T : Type) := Finmap fun _ : K => V × Option T

namespace TimedMap

variable {K V T : Type} [DecidableEq K] [LinearOrder T]

/-- The entry of a key that exists at time `t`. -/
def lookupAt (t : T) (m : TimedMap K V T) (k : K) : Option (V × Option T) :=
  (m.lookup k).filter fun e => aliveAt t e.2

/-- The keys that exist at time `t`. -/
def keysAt (t : T) (m : TimedMap K V T) : Finset K :=
  m.keys.filter fun k => (m.lookupAt t k).isSome

/-- What is alive later is alive now. -/
theorem aliveAt_of_le {t t' : T} (h : t ≤ t') {d : Option T} (hd : aliveAt t' d = true) :
    aliveAt t d = true := by
  cases d with
  | none => rfl
  | some d =>
    simp only [aliveAt, decide_eq_true_eq] at hd ⊢
    exact lt_of_le_of_lt h hd

/-- Filtering by a later time after filtering by an earlier one. -/
theorem filter_aliveAt_of_le {t t' : T} (h : t ≤ t') (o : Option (V × Option T)) :
    (o.filter fun e => aliveAt t e.2).filter (fun e => aliveAt t' e.2) =
      o.filter fun e => aliveAt t' e.2 := by
  cases o with
  | none => rfl
  | some e =>
    by_cases he : aliveAt t' e.2 = true
    · simp [Option.filter_some, he, aliveAt_of_le h he]
    · by_cases he' : aliveAt t e.2 = true
      · simp [Option.filter_some, he, he']
      · simp [Option.filter_some, he, he']

/-- The view of a later time is determined by the view of an earlier one. -/
theorem lookupAt_mono {t t' : T} (h : t ≤ t') (m : TimedMap K V T) (k : K) :
    m.lookupAt t' k = (m.lookupAt t k).filter fun e => aliveAt t' e.2 :=
  (filter_aliveAt_of_le h _).symm

/-- Inserting an entry updates the view. -/
theorem lookupAt_insert (t : T) (m : TimedMap K V T) (k : K) (e : V × Option T) :
    lookupAt t (m.insert k e) =
      Function.update (m.lookupAt t) k (if aliveAt t e.2 then some e else none) := by
  funext k'
  by_cases h : k' = k
  · subst h
    rw [Function.update_self, lookupAt, Finmap.lookup_insert, Option.filter_some]
  · rw [Function.update_of_ne h, lookupAt, Finmap.lookup_insert_of_ne _ h, lookupAt]

/-- Erasing a key updates the view. -/
theorem lookupAt_erase (t : T) (m : TimedMap K V T) (k : K) :
    lookupAt t (m.erase k) = Function.update (m.lookupAt t) k none := by
  funext k'
  by_cases h : k' = k
  · subst h
    rw [Function.update_self, lookupAt, Finmap.lookup_erase]
    rfl
  · rw [Function.update_of_ne h, lookupAt, Finmap.lookup_erase_ne h, lookupAt]

/-- The keys that exist are those with an entry in the view. -/
theorem mem_keysAt {t : T} {m : TimedMap K V T} {k : K} :
    k ∈ m.keysAt t ↔ (m.lookupAt t k).isSome = true := by
  rw [keysAt, Finset.mem_filter, and_iff_right_iff_imp]
  intro h
  rw [Finmap.mem_keys]
  by_contra hnot
  rw [lookupAt, Finmap.lookup_eq_none.mpr hnot] at h
  cases h

end TimedMap

end Foundation
