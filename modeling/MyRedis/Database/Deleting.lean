import MyRedis.Database.Commuting

/-!
# The count of `DEL`

`DEL` returns how many keys it has removed.  It does not look at the deadlines, so a key that has
expired is counted as long as neither a read nor the background scan has removed it, and the count
is an `int`.  `Database.delExact_iff` says when the result is nevertheless the number of the keys
that exist.
-/

namespace MyRedis

open Foundation

namespace Database

/-- The key exists at an instant: it has a value, and it has not expired. -/
def hasKey (now : TimePoint) (db : Database) (key : Bytes) : Bool :=
  (db.cell key).present && !(db.cell key).expired now

/-- The key has expired but has not been removed yet. -/
def leftBehind (now : TimePoint) (db : Database) (key : Bytes) : Bool :=
  (db.cell key).present && (db.cell key).expired now

/-- The listed keys with a property, each of them once. -/
def listed (keys : List Bytes) (p : Bytes → Bool) : Finset Bytes :=
  keys.toFinset.filter fun key => p key = true

/-- A deleted cell has no value. -/
theorem present_del (c : Cell) : c.del.present = false := by
  unfold Cell.del
  split
  · rfl
  · exact Bool.eq_false_of_not_eq_true ‹_›

/-- One more key: it counts if it has the property, and it does not count again. -/
theorem card_listed_cons (key : Bytes) (keys : List Bytes) (p : Bytes → Bool) :
    (listed (key :: keys) p).card =
      (if p key then 1 else 0) + (listed keys fun k => p k && k != key).card := by
  have hsplit : listed (key :: keys) p =
      (if p key then {key} else ∅) ∪ listed keys fun k => p k && k != key := by
    ext k
    by_cases hk : k = key
    · subst hk
      by_cases hp : p k = true <;> simp [listed, hp]
    · by_cases hp : p key = true <;> simp [listed, hk, hp]
  have hdisj : Disjoint (if p key then ({key} : Finset Bytes) else ∅)
      (listed keys fun k => p k && k != key) := by
    rw [Finset.disjoint_left]
    intro k hk hmem
    have hne : k ≠ key := by
      simp only [listed, Finset.mem_filter, Bool.and_eq_true, bne_iff_ne] at hmem
      exact hmem.2.2
    split at hk
    · exact hne (Finset.mem_singleton.mp hk)
    · exact absurd hk (Finset.notMem_empty k)
  rw [hsplit, Finset.card_union_of_disjoint hdisj]
  congr 1
  split <;> rfl

/-- The loop of `DEL` counts the distinct keys that have a value. -/
theorem delLoop_result (keys : List Bytes) (n : ℕ) (db : Database) :
    (keys.foldl delStep (Int32.ofNat n, db)).1 =
      Int32.ofNat (n + (listed keys fun k => (db.cell k).present).card) := by
  induction keys generalizing n db with
  | nil => rfl
  | cons key keys ih =>
    have hcount : (delStep (Int32.ofNat n, db) key).1 =
        Int32.ofNat (n + if (db.cell key).present then 1 else 0) := by
      rw [delStep_result]
      split
      · exact (Int32.ofNat_add n 1).symm
      · rfl
    -- the key has no value any more, the others are as before
    have hlater : (fun k => ((delStep (Int32.ofNat n, db) key).2.cell k).present) =
        fun k => (db.cell k).present && k != key := by
      funext k
      rw [cell_delStep]
      by_cases hk : k = key
      · subst hk
        simp [present_del]
      · simp [hk]
    rw [List.foldl_cons, ← Prod.mk.eta (p := delStep (Int32.ofNat n, db) key), hcount, ih, hlater,
      card_listed_cons, Nat.add_assoc]

/-- `DEL` counts the distinct listed keys that have a value, expired or not. -/
theorem del_result (keys : List Bytes) (db : Database) :
    (db.del keys).1 = Int32.ofNat (listed keys fun k => (db.cell k).present).card := by
  have h := delLoop_result keys 0 db
  rwa [Nat.zero_add] at h

/-- The keys with a value are those that exist and those that are left behind. -/
theorem card_listed_present (now : TimePoint) (keys : List Bytes) (db : Database) :
    (listed keys fun k => (db.cell k).present).card =
      (listed keys (db.hasKey now)).card + (listed keys (db.leftBehind now)).card := by
  have hunion : (listed keys fun k => (db.cell k).present) =
      listed keys (db.hasKey now) ∪ listed keys (db.leftBehind now) := by
    ext k
    cases h : (db.cell k).expired now <;> simp [listed, hasKey, leftBehind, h]
  have hdisj : Disjoint (listed keys (db.hasKey now)) (listed keys (db.leftBehind now)) := by
    rw [Finset.disjoint_left]
    intro k hlive hleft
    simp only [listed, hasKey, leftBehind, Finset.mem_filter, Bool.and_eq_true,
      Bool.not_eq_true'] at hlive hleft
    exact Bool.false_ne_true (hlive.2.2.symm.trans hleft.2.2)
  rw [hunion, Finset.card_union_of_disjoint hdisj]

/-- What `DEL` is meant to do at an instant. -/
structure DelExact (now : TimePoint) (keys : List Bytes) (db : Database) : Prop where
  /-- It returns the number of distinct listed keys that exist. -/
  count : (db.del keys).1.toInt = (listed keys (db.hasKey now)).card
  /-- None of the listed keys exists afterwards. -/
  gone : ∀ key ∈ keys, ((db.del keys).2.cell key).present = false
  /-- All other keys keep their values and their deadlines. -/
  others : ∀ key ∉ keys, (db.del keys).2.cell key = db.cell key

/-- An `int` counter shows the number it has counted up to, and not a number that is smaller by
`m`, unless it has gone round. -/
theorem toInt_ofNat_add_eq_iff (n m : ℕ) :
    (Int32.ofNat (n + m)).toInt = n ↔ 2 ^ 32 ∣ m ∧ n < 2 ^ 31 := by
  have hwrap : (Int32.ofNat (n + m)).toInt = ((n + m : ℕ) : ℤ).bmod (2 ^ 32) := Int32.toInt_ofNat'
  rw [hwrap, Int.bmod_eq_emod]
  constructor
  · intro h
    split at h <;> omega
  · rintro ⟨hm, hn⟩
    split <;> omega

/-- **`DEL` and expired keys.**  In every state and at every instant, `DEL` does what it is meant to
do if and only if none of the listed keys is left behind, or so many that the counter goes round,
and fewer than `2 ^ 31` of them exist. -/
theorem delExact_iff (now : TimePoint) (keys : List Bytes) (db : Database) :
    DelExact now keys db ↔
      2 ^ 32 ∣ (listed keys (db.leftBehind now)).card ∧
        (listed keys (db.hasKey now)).card < 2 ^ 31 := by
  have hcount : (db.del keys).1.toInt = (listed keys (db.hasKey now)).card ↔
      2 ^ 32 ∣ (listed keys (db.leftBehind now)).card ∧
        (listed keys (db.hasKey now)).card < 2 ^ 31 := by
    rw [del_result, card_listed_present now, toInt_ofNat_add_eq_iff]
  refine ⟨fun h => hcount.mp h.count, fun h => ⟨hcount.mpr h, ?_, ?_⟩⟩
  · intro key hkey
    rw [cell_del]
    simp only [hkey, if_true, present_del]
  · intro key hkey
    rw [cell_del]
    simp only [hkey, if_false]

/-- A key with a deadline of one second. -/
def shortLived : Database :=
  ((Database.empty.set (ascii "k") (ascii "v")).expire 0 0 (ascii "k") 1).2

/-- Two seconds after a key was given one second to live, `EXISTS` does not find it and a scan
removes it, but `DEL` counts it if neither has happened before. -/
theorem del_counts_expired_key :
    (shortLived.exists_ (fun _ => 2 * nsPerSec) [ascii "k"]).1 = 0 ∧
      ((shortLived.expiryScan (2 * nsPerSec)).del [ascii "k"]).1 = 0 ∧
      (shortLived.del [ascii "k"]).1 = 1 ∧ ¬ DelExact (2 * nsPerSec) [ascii "k"] shortLived := by
  refine ⟨by decide, by decide, by decide, fun h => ?_⟩
  have hone : (shortLived.del [ascii "k"]).1.toInt = 1 := by decide
  have hnone : listed [ascii "k"] (shortLived.hasKey (2 * nsPerSec)) = ∅ := by decide
  have hcount := h.count
  rw [hone, hnone] at hcount
  cases hcount

end Database

end MyRedis
