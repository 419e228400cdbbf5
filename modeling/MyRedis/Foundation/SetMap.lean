import Mathlib.Data.List.AList
import Mathlib.Data.Set.Card

/-!
# Maps of sets

A finite map whose values are containers of elements is a binary relation between keys and elements
(`Holds`), together with the keys that are kept with an empty container (`KeepsEmpty`).  This module
says what the usual operations do to both: replacing a container, changing it in place, forgetting a
key, and forgetting it only if its container is empty.  The last section counts: keys, elements of
one key, and pairs.

The containers are arbitrary; `members` lists the elements of one.
-/

namespace Foundation

namespace SetMap

variable {κ S α : Type} [DecidableEq κ] (members : S → List α)

/-- The element `a` is in the container of `k`. -/
def Holds (m : AList fun _ : κ => S) (k : κ) (a : α) : Prop :=
  ∃ s, m.lookup k = some s ∧ a ∈ members s

/-- The key `k` is kept with an empty container. -/
def KeepsEmpty (m : AList fun _ : κ => S) (k : κ) : Prop :=
  ∃ s, m.lookup k = some s ∧ members s = []

/-- Change the container of a key, if there is one. -/
def alter (f : S → S) (k : κ) (m : AList fun _ : κ => S) : AList fun _ : κ => S :=
  match m.lookup k with
  | none => m
  | some s => m.insert k (f s)

/-- Forget a key if its container is empty. -/
def dropIfEmpty [DecidableEq α] (k : κ) (m : AList fun _ : κ => S) : AList fun _ : κ => S :=
  match m.lookup k with
  | none => m
  | some s => if members s = [] then m.erase k else m

variable {members} {m : AList fun _ : κ => S} {k k' : κ} {a : α}

@[simp] theorem not_holds_empty : ¬ Holds members (∅ : AList fun _ : κ => S) k a := by
  simp [Holds]

@[simp] theorem not_keepsEmpty_empty : ¬ KeepsEmpty members (∅ : AList fun _ : κ => S) k := by
  simp [KeepsEmpty]

/-- What is held in a key whose container is known. -/
theorem holds_iff_of_lookup {s : S} (h : m.lookup k = some s) :
    Holds members m k a ↔ a ∈ members s := by
  simp [Holds, h]

/-- A key that is not there holds nothing. -/
theorem not_holds_of_lookup (h : m.lookup k = none) : ¬ Holds members m k a := by
  simp [Holds, h]

/-- What is in the container of a key, if a key that is not there counts as empty. -/
theorem mem_getD_lookup {e : S} (he : members e = []) :
    a ∈ members ((m.lookup k).getD e) ↔ Holds members m k a := by
  cases h : m.lookup k with
  | none => simp [he, not_holds_of_lookup h]
  | some s => rw [holds_iff_of_lookup h, Option.getD_some]

/-- What a key holds depends on its entry only. -/
theorem holds_congr {m' : AList fun _ : κ => S} (h : m'.lookup k = m.lookup k) :
    Holds members m' k a ↔ Holds members m k a := by
  rw [Holds, h, Holds]

/-- Whether a key is kept with an empty container depends on its entry only. -/
theorem keepsEmpty_congr {m' : AList fun _ : κ => S} (h : m'.lookup k = m.lookup k) :
    KeepsEmpty members m' k ↔ KeepsEmpty members m k := by
  rw [KeepsEmpty, h, KeepsEmpty]

/-! ### Operations -/

/-- Putting one more element into the container of a key. -/
theorem holds_insert {s : S} {x : α}
    (hs : ∀ a, a ∈ members s ↔ Holds members m k a ∨ a = x) :
    Holds members (m.insert k s) k' a ↔ Holds members m k' a ∨ k' = k ∧ a = x := by
  by_cases hk : k' = k
  · subst hk
    rw [holds_iff_of_lookup (AList.lookup_insert m), hs]
    simp
  · rw [holds_congr (AList.lookup_insert_ne hk)]
    simp [hk]

/-- A key that gets a non-empty container is not kept with an empty one. -/
theorem keepsEmpty_insert {s : S} (hs : members s ≠ []) :
    KeepsEmpty members (m.insert k s) k' ↔ k' ≠ k ∧ KeepsEmpty members m k' := by
  by_cases hk : k' = k
  · subst hk
    simp [KeepsEmpty, AList.lookup_insert, hs]
  · rw [keepsEmpty_congr (AList.lookup_insert_ne hk)]
    simp [hk]

/-- Changing the container of one key does not touch the others. -/
theorem lookup_alter_ne (f : S → S) (hk : k' ≠ k) : (alter f k m).lookup k' = m.lookup k' := by
  unfold alter
  split
  · rfl
  · exact AList.lookup_insert_ne hk

/-- The changed container. -/
theorem lookup_alter (f : S → S) : (alter f k m).lookup k = (m.lookup k).map f := by
  unfold alter
  split
  · rename_i h
    rw [h, Option.map_none]
  · rename_i s h
    rw [h, Option.map_some, AList.lookup_insert]

/-- Taking one element out of the container of a key. -/
theorem holds_alter {f : S → S} {x : α} (hf : ∀ s a, a ∈ members (f s) ↔ a ∈ members s ∧ a ≠ x) :
    Holds members (alter f k m) k' a ↔ Holds members m k' a ∧ ¬ (k' = k ∧ a = x) := by
  by_cases hk : k' = k
  · subst hk
    simp only [Holds, lookup_alter, Option.map_eq_some_iff, true_and]
    constructor
    · rintro ⟨_, ⟨s, hlookup, rfl⟩, ha⟩
      exact ⟨⟨s, hlookup, ((hf s a).mp ha).1⟩, ((hf s a).mp ha).2⟩
    · rintro ⟨⟨s, hlookup, ha⟩, hne⟩
      exact ⟨f s, ⟨s, hlookup, rfl⟩, (hf s a).mpr ⟨ha, hne⟩⟩
  · rw [holds_congr (lookup_alter_ne f hk)]
    simp [hk]

/-- The other keys are kept with an empty container as before. -/
theorem keepsEmpty_alter_ne (f : S → S) (hk : k' ≠ k) :
    KeepsEmpty members (alter f k m) k' ↔ KeepsEmpty members m k' :=
  keepsEmpty_congr (lookup_alter_ne f hk)

/-- Forgetting a key. -/
theorem holds_erase : Holds members (m.erase k) k' a ↔ Holds members m k' a ∧ k' ≠ k := by
  by_cases hk : k' = k
  · subst hk
    simp [Holds]
  · rw [holds_congr (AList.lookup_erase_ne hk)]
    simp [hk]

/-- A forgotten key is not kept with an empty container. -/
theorem keepsEmpty_erase :
    KeepsEmpty members (m.erase k) k' ↔ k' ≠ k ∧ KeepsEmpty members m k' := by
  by_cases hk : k' = k
  · subst hk
    simp [KeepsEmpty]
  · rw [keepsEmpty_congr (AList.lookup_erase_ne hk)]
    simp [hk]

section DropIfEmpty

variable [DecidableEq α]

/-- Either the key had an empty container and is forgotten, or nothing changes. -/
theorem dropIfEmpty_cases (members : S → List α) (m : AList fun _ : κ => S) (k : κ) :
    KeepsEmpty members m k ∧ dropIfEmpty members k m = m.erase k ∨
      ¬ KeepsEmpty members m k ∧ dropIfEmpty members k m = m := by
  unfold dropIfEmpty KeepsEmpty
  cases h : m.lookup k with
  | none => simp
  | some s => by_cases hs : members s = [] <;> simp [hs]

/-- Forgetting an empty container changes nothing of what is held. -/
@[simp] theorem holds_dropIfEmpty :
    Holds members (dropIfEmpty members k m) k' a ↔ Holds members m k' a := by
  rcases dropIfEmpty_cases members m k with ⟨⟨s, hlookup, hs⟩, h⟩ | ⟨_, h⟩
  · rw [h, holds_erase, and_iff_left_iff_imp]
    rintro hheld rfl
    rw [holds_iff_of_lookup hlookup, hs] at hheld
    exact List.not_mem_nil hheld
  · rw [h]

/-- Afterwards the key is not kept with an empty container. -/
theorem keepsEmpty_dropIfEmpty :
    KeepsEmpty members (dropIfEmpty members k m) k' ↔ k' ≠ k ∧ KeepsEmpty members m k' := by
  rcases dropIfEmpty_cases members m k with ⟨_, h⟩ | ⟨hkept, h⟩
  · rw [h, keepsEmpty_erase]
  · rw [h, iff_and_self]
    rintro hkept' rfl
    exact hkept hkept'

end DropIfEmpty

/-! ### Counting -/

/-- A key whose container is not empty holds something. -/
theorem exists_holds_iff (hkept : ¬ KeepsEmpty members m k) :
    (∃ a, Holds members m k a) ↔ k ∈ m := by
  rw [← AList.lookup_isSome, Option.isSome_iff_exists]
  constructor
  · rintro ⟨_, s, hlookup, _⟩
    exact ⟨s, hlookup⟩
  · rintro ⟨s, hlookup⟩
    obtain ⟨a, ha⟩ := List.exists_mem_of_ne_nil _ fun hs => hkept ⟨s, hlookup, hs⟩
    exact ⟨a, s, hlookup, ha⟩

/-- If no container is empty, the size of the map is the number of keys that hold something. -/
theorem length_entries (hkept : ∀ k, ¬ KeepsEmpty members m k) :
    m.entries.length = {k | ∃ a, Holds members m k a}.ncard := by
  have hkeys : {k | ∃ a, Holds members m k a} = ↑m.keys.toFinset := by
    ext k
    rw [Set.mem_ofPred_eq, exists_holds_iff (hkept k), AList.mem_keys, List.coe_toFinset]
    rfl
  rw [hkeys, Set.ncard_coe_finset, List.toFinset_card_of_nodup m.keys_nodup]
  exact (List.length_map _).symm

/-- The number of elements of one key. -/
theorem ncard_holds (hnodup : ∀ s, (members s).Nodup) :
    {a | Holds members m k a}.ncard =
      match m.lookup k with
      | none => 0
      | some s => (members s).length := by
  classical
  cases h : m.lookup k with
  | none => simp [Holds, h]
  | some s =>
    have hset : {a | Holds members m k a} = ↑(members s).toFinset := by
      ext a
      simp [holds_iff_of_lookup h]
    rw [hset, Set.ncard_coe_finset, List.toFinset_card_of_nodup (hnodup s)]

/-- The sizes of all containers add up to the number of pairs. -/
theorem sum_length (hnodup : ∀ s, (members s).Nodup) :
    (m.entries.map fun e => (members e.2).length).sum =
      {x : κ × α | Holds members m x.1 x.2}.ncard := by
  classical
  let pairs := m.entries.flatMap fun e => (members e.2).map fun a => (e.1, a)
  have hpairs : pairs.Nodup := by
    refine List.nodup_flatMap.mpr ⟨?_, ?_⟩
    · intro e _
      exact (hnodup e.2).map fun a b hab => (Prod.mk.inj hab).2
    · -- entries of different keys have no pair in common
      refine (List.pairwise_map.mp m.nodupKeys).imp ?_
      intro e e' hne x hx hx'
      obtain ⟨a, _, rfl⟩ := List.mem_map.mp hx
      obtain ⟨b, _, hb⟩ := List.mem_map.mp hx'
      exact hne (Prod.mk.inj hb).1.symm
  have hset : {x : κ × α | Holds members m x.1 x.2} = ↑pairs.toFinset := by
    ext ⟨k, a⟩
    simp only [Set.mem_ofPred_eq, List.coe_toFinset, pairs, List.mem_flatMap, List.mem_map]
    constructor
    · rintro ⟨s, hlookup, ha⟩
      exact ⟨⟨k, s⟩, AList.mem_lookup_iff.mp hlookup, a, ha, rfl⟩
    · rintro ⟨⟨k', s⟩, he, a', ha, heq⟩
      obtain ⟨rfl, rfl⟩ := Prod.mk.inj heq
      exact ⟨s, AList.mem_lookup_iff.mpr he, ha⟩
  rw [hset, Set.ncard_coe_finset, List.toFinset_card_of_nodup hpairs, List.length_flatMap]
  simp only [List.length_map]

end SetMap

end Foundation
