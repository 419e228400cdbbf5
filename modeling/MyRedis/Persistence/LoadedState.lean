import MyRedis.Foundation.Loops
import MyRedis.Persistence.Format

/-!
# The database that an accepted file leaves

`load` puts the entries of a file into the three maps one after the other.  Each map then holds, for
every key, what the last entry wrote that writes to this map (`lookup_store_load`,
`lookup_listStore_load`, `lookup_expiry_load`); entries whose lifetime has run out write nothing.
`load` looks at no entry twice, so a file may give one key a string and a list, an empty list, a
deadline that belongs to an overwritten value, or a lifetime that overflows the clock.
`load_establishes_invariant_iff` says for which files the database satisfies its invariant, with the
64-bit arithmetic of the source.
-/

namespace MyRedis.Persistence

open Foundation

/-! ### What an entry writes -/

namespace FileEntry

/-- The lifetime of the entry has run out, so that `load` skips it. -/
def skipped (e : FileEntry) : Bool := e.ttlMs.any (· ≤ 0)

/-- The string that the entry stores under a key. -/
def str? (k : Bytes) (e : FileEntry) : Option Bytes :=
  if e.key = k ∧ e.skipped = false then
    match e.value with
    | .str value => some value
    | .list _ => none
  else none

/-- The list that the entry stores under a key. -/
def list? (k : Bytes) (e : FileEntry) : Option (List Bytes) :=
  if e.key = k ∧ e.skipped = false then
    match e.value with
    | .str _ => none
    | .list elements => some elements
  else none

/-- The lifetime from which the entry sets the deadline of a key. -/
def lifetime? (k : Bytes) (e : FileEntry) : Option Int64 :=
  if e.key = k ∧ e.skipped = false then e.ttlMs else none

variable (deadline : Int64 → TimePoint) (snapshot : DatabaseSnapshot) (e : FileEntry) (k : Bytes)

theorem lookup_store_add :
    (e.add deadline snapshot).store.lookup k = (e.str? k).or (snapshot.store.lookup k) := by
  unfold add addEntryWith str? skipped
  by_cases hskip : e.ttlMs.any (· ≤ 0) = true
  · simp [hskip]
  · simp only [hskip, if_false, Bool.false_eq_true, and_true]
    cases e.value with
    | str value =>
      by_cases hk : e.key = k
      · simp [hk]
      · simp [hk, AList.lookup_insert_ne (Ne.symm hk)]
    | list elements => simp

theorem lookup_listStore_add :
    (e.add deadline snapshot).listStore.lookup k =
      (e.list? k).or (snapshot.listStore.lookup k) := by
  unfold add addEntryWith list? skipped
  by_cases hskip : e.ttlMs.any (· ≤ 0) = true
  · simp [hskip]
  · simp only [hskip, if_false, Bool.false_eq_true, and_true]
    cases e.value with
    | str value => simp
    | list elements =>
      by_cases hk : e.key = k
      · simp [hk]
      · simp [hk, AList.lookup_insert_ne (Ne.symm hk)]

theorem lookup_expiry_add :
    (e.add deadline snapshot).expiry.lookup k =
      ((e.lifetime? k).map deadline).or (snapshot.expiry.lookup k) := by
  unfold add addEntryWith lifetime? skipped
  by_cases hskip : e.ttlMs.any (· ≤ 0) = true
  · simp [hskip]
  · simp only [hskip, if_false, Bool.false_eq_true, and_true]
    -- both kinds of values treat the deadline alike
    cases e.ttlMs with
    | none => cases e.value <;> simp
    | some ms =>
      have hinsert : (snapshot.expiry.insert e.key (deadline ms)).lookup k =
          ((if e.key = k then some ms else none).map deadline).or (snapshot.expiry.lookup k) := by
        by_cases hk : e.key = k
        · simp [hk]
        · simp [hk, AList.lookup_insert_ne (Ne.symm hk)]
      cases e.value with
      | str value => exact hinsert
      | list elements => exact hinsert

end FileEntry

/-! ### What a file leaves -/

section Load

variable {deadline : Int64 → TimePoint} {content rest : Bytes} {entries : List FileEntry}
  {db : Database}

/-- The entries of an accepted file make up the database. -/
theorem loadWith_of_accepts (haccepts : (loadWith deadline (some content) db).1 = true)
    (hlen : entries.length < 2 ^ 32) (hcontent : content = fileCode entries ++ rest) :
    loadWith deadline (some content) db =
      (true, entries.foldl (FileEntry.add deadline) Database.empty) := by
  obtain ⟨hsize, hchecked, _⟩ := loadWith_accepts_iff.mp haccepts
  exact loadWith_eq_true_iff.mpr ⟨hsize, hchecked, entries, rest, hlen, hcontent, rfl⟩

/-- The strings are those of the last string entries. -/
theorem lookup_store_load (haccepts : (loadWith deadline (some content) db).1 = true)
    (hlen : entries.length < 2 ^ 32) (hcontent : content = fileCode entries ++ rest) (k : Bytes) :
    (loadWith deadline (some content) db).2.store.lookup k =
      (entries.filterMap (FileEntry.str? k)).getLast? := by
  rw [loadWith_of_accepts haccepts hlen hcontent]
  refine (foldl_last_write (fun s : DatabaseSnapshot => s.store.lookup k)
    (fun s e => e.lookup_store_add deadline s k) entries Database.empty).trans ?_
  exact Option.or_none

/-- The lists are those of the last list entries. -/
theorem lookup_listStore_load (haccepts : (loadWith deadline (some content) db).1 = true)
    (hlen : entries.length < 2 ^ 32) (hcontent : content = fileCode entries ++ rest) (k : Bytes) :
    (loadWith deadline (some content) db).2.listStore.lookup k =
      (entries.filterMap (FileEntry.list? k)).getLast? := by
  rw [loadWith_of_accepts haccepts hlen hcontent]
  refine (foldl_last_write (fun s : DatabaseSnapshot => s.listStore.lookup k)
    (fun s e => e.lookup_listStore_add deadline s k) entries Database.empty).trans ?_
  exact Option.or_none

/-- The deadlines are those of the last entries with a lifetime. -/
theorem lookup_expiry_load (haccepts : (loadWith deadline (some content) db).1 = true)
    (hlen : entries.length < 2 ^ 32) (hcontent : content = fileCode entries ++ rest) (k : Bytes) :
    (loadWith deadline (some content) db).2.expiry.lookup k =
      (entries.filterMap (FileEntry.lifetime? k)).getLast?.map deadline := by
  rw [loadWith_of_accepts haccepts hlen hcontent]
  refine (foldl_last_write (fun s : DatabaseSnapshot => s.expiry.lookup k)
    (fun s e => e.lookup_expiry_add deadline s k) entries Database.empty).trans ?_
  have hmap : entries.filterMap (fun e => (e.lifetime? k).map deadline) =
      (entries.filterMap (FileEntry.lifetime? k)).map deadline := by
    rw [List.map_filterMap]
  rw [hmap, List.getLast?_map]
  exact Option.or_none

end Load

/-- A key is in a map if something was written for it. -/
theorem mem_iff_of_lookup_eq {V : Type} {m : UnorderedMap Bytes V} {k : Bytes} {written : List V}
    (h : m.lookup k = written.getLast?) : k ∈ m ↔ written ≠ [] := by
  rw [← AList.lookup_isSome, h, List.getLast?_isSome]

/-! ### The invariant -/

/-- The last entry of a key has no lifetime. -/
def LastWithoutTtl (k : Bytes) (entries : List FileEntry) : Prop :=
  ∃ e, (entries.filter fun e => e.key = k).getLast? = some e ∧ e.ttlMs = none

/-- The invariant that the other operations of the database rely on, for a database loaded at the
instant `now` from a file with the given entries. -/
structure LoadedInvariant (now : Int64) (entries : List FileEntry) (db : Database) : Prop where
  /-- No key is in both value maps. -/
  single : ∀ k, ¬ (k ∈ db.store ∧ k ∈ db.listStore)
  /-- No list is empty. -/
  list_ne_nil : ∀ k, db.listStore.lookup k ≠ some []
  /-- A key whose last entry has no lifetime has no deadline. -/
  last : ∀ k, LastWithoutTtl k entries → k ∉ db.expiry
  /-- Every deadline is later than the instant of loading. -/
  later : ∀ k d, db.expiry.lookup k = some d → now.toInt < d

/-- The entries that are not skipped do not disturb each other. -/
structure EntriesFit (now : Int64) (entries : List FileEntry) : Prop where
  /-- No key has both a string entry and a list entry. -/
  single : ∀ k, entries.filterMap (FileEntry.str? k) = [] ∨
    entries.filterMap (FileEntry.list? k) = []
  /-- The last list entry of a key has an element. -/
  list_ne_nil : ∀ k, (entries.filterMap (FileEntry.list? k)).getLast? ≠ some []
  /-- A key whose last entry has no lifetime has no earlier entry with one. -/
  last : ∀ k, LastWithoutTtl k entries → entries.filterMap (FileEntry.lifetime? k) = []
  /-- The last lifetime of a key does not overflow the clock. -/
  later : ∀ k ms, (entries.filterMap (FileEntry.lifetime? k)).getLast? = some ms →
    now < deadline64 now ms

/-- An accepted file leaves a database that satisfies the invariant if and only if its entries do
not disturb each other. -/
theorem load_establishes_invariant_iff {now : Int64} {content rest : Bytes}
    {entries : List FileEntry} {db : Database}
    (haccepts : (load64 now (some content) db).1 = true) (hlen : entries.length < 2 ^ 32)
    (hcontent : content = fileCode entries ++ rest) :
    LoadedInvariant now entries (load64 now (some content) db).2 ↔ EntriesFit now entries := by
  have hstore := lookup_store_load haccepts hlen hcontent
  have hlist := lookup_listStore_load haccepts hlen hcontent
  have hexpiry := lookup_expiry_load haccepts hlen hcontent
  change ∀ k, (load64 now (some content) db).2.store.lookup k = _ at hstore
  change ∀ k, (load64 now (some content) db).2.listStore.lookup k = _ at hlist
  change ∀ k, (load64 now (some content) db).2.expiry.lookup k = _ at hexpiry
  have hmemStore := fun k => mem_iff_of_lookup_eq (hstore k)
  have hmemList := fun k => mem_iff_of_lookup_eq (hlist k)
  have hmemExpiry : ∀ k, k ∈ (load64 now (some content) db).2.expiry ↔
      entries.filterMap (FileEntry.lifetime? k) ≠ [] := by
    intro k
    rw [mem_iff_of_lookup_eq ((hexpiry k).trans List.getLast?_map.symm), ne_eq, List.map_eq_nil_iff]
  constructor
  · intro hinv
    constructor
    · intro k
      have hsingle := hinv.single k
      rw [hmemStore, hmemList, ← not_or, not_not] at hsingle
      exact hsingle
    · intro k
      rw [← hlist]
      exact hinv.list_ne_nil k
    · intro k hlast
      have hnone := hinv.last k hlast
      rw [hmemExpiry, not_not] at hnone
      exact hnone
    · intro k ms hms
      rw [Int64.lt_iff_toInt_lt]
      refine hinv.later k _ ?_
      rw [hexpiry, hms]
      rfl
  · intro hfit
    constructor
    · intro k
      rw [hmemStore, hmemList, ← not_or, not_not]
      exact hfit.single k
    · intro k
      rw [hlist]
      exact hfit.list_ne_nil k
    · intro k hlast
      rw [hmemExpiry, not_not]
      exact hfit.last k hlast
    · intro k d hd
      rw [hexpiry, Option.map_eq_some_iff] at hd
      obtain ⟨ms, hms, rfl⟩ := hd
      exact Int64.lt_iff_toInt_lt.mp (hfit.later k ms hms)

/-- A file with one string that lives for a second leaves the database in a valid state. -/
theorem load_establishes_invariant_string :
    let e : FileEntry := ⟨1, ascii "k", .str (ascii "v"), some 1000, by decide,
      (by decide : (ascii "v").length < 2 ^ 32), by decide⟩
    LoadedInvariant 0 [e] (load64 0 (some (withChecksum (fileCode [e]))) Database.empty).2 := by
  intro e
  refine (load_establishes_invariant_iff (by decide +kernel) (by decide) rfl).mpr ?_
  have hlist : ∀ k, [e].filterMap (FileEntry.list? k) = [] := by
    intro k
    by_cases hk : ascii "k" = k <;> simp [e, FileEntry.list?, hk]
  constructor
  · exact fun k => Or.inr (hlist k)
  · intro k
    rw [hlist]
    simp
  · rintro k ⟨e', he', hnone⟩
    have hmem := List.mem_of_getLast? he'
    obtain rfl := List.mem_singleton.mp (List.mem_of_mem_filter hmem)
    cases hnone
  · intro k ms hms
    have hmem := List.mem_of_getLast? hms
    simp only [List.mem_filterMap, List.mem_singleton, exists_eq_left, FileEntry.lifetime?] at hmem
    split at hmem
    · obtain rfl := Option.some.inj hmem
      decide
    · cases hmem

/-- A file that `load` accepts and that breaks all four parts of the invariant: `k` has a string
and an empty list, `m` keeps the deadline of an overwritten value, and the deadline of `x` lies
before the instant of loading. -/
theorem load_breaks_invariant :
    let entries : List FileEntry := [
      ⟨0, ascii "k", .str (ascii "v"), none, by decide,
        (by decide : (ascii "v").length < 2 ^ 32), by decide⟩,
      ⟨0, ascii "k", .list [], none, by decide, ⟨by decide, by decide⟩, by decide⟩,
      ⟨1, ascii "m", .str [], some 1000, by decide, (by decide : 0 < 2 ^ 32), by decide⟩,
      ⟨0, ascii "m", .str [], none, by decide, (by decide : 0 < 2 ^ 32), by decide⟩,
      ⟨1, ascii "x", .str [], some Int64.maxValue, by decide, (by decide : 0 < 2 ^ 32), by decide⟩]
    let result := load64 0 (some (withChecksum (fileCode entries))) Database.empty
    result.1 = true ∧ (ascii "k" ∈ result.2.store ∧ ascii "k" ∈ result.2.listStore) ∧
      result.2.listStore.lookup (ascii "k") = some [] ∧
      (LastWithoutTtl (ascii "m") entries ∧ ascii "m" ∈ result.2.expiry) ∧
      result.2.expiry.lookup (ascii "x") = some (-1000000) ∧
      ¬ LoadedInvariant 0 entries result.2 := by
  intro entries result
  have hboth : ascii "k" ∈ result.2.store ∧ ascii "k" ∈ result.2.listStore := by decide +kernel
  exact ⟨by decide +kernel, hboth, by decide +kernel, ⟨⟨_, rfl, rfl⟩, by decide +kernel⟩,
    by decide +kernel, fun hinv => hinv.single _ hboth⟩

end MyRedis.Persistence
