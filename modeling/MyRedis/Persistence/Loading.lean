import MyRedis.Persistence.RoundTrip

/-!
# The cells of a loaded database

`cell_foldl_add` gives the cells after the entries of a dump have been added, and
`loadEntry_cases` says what one round of the loop of `load` can do on arbitrary bytes.  The first
is used for files that `save` wrote, the second for the bound on the deadlines, which holds
whatever the file contains.
-/

namespace MyRedis

open Foundation

/-- The deadline of a cell after an entry with the given lifetime. -/
def Cell.loadedDeadline (now : TimePoint) (ttlMs : Option Int64) (c : Cell) : Option TimePoint :=
  match ttlMs with
  | none => c.deadline
  | some ms => some (now + ms.toInt * nsPerMs)

/-- The effect of an entry on the cell of its key. -/
def Cell.addEntry (now : TimePoint) (value : Persistence.DumpValue) (ttlMs : Option Int64)
    (c : Cell) : Cell :=
  if ttlMs.any (· ≤ 0) then c
  else
    match value with
    | .str value => { c with str := some value, deadline := c.loadedDeadline now ttlMs }
    | .list list => { c with list := some list, deadline := c.loadedDeadline now ttlMs }

namespace Persistence

/-! ### Adding entries -/

/-- An entry changes the cell of its key. -/
theorem cell_addEntry (now : TimePoint) (snapshot : DatabaseSnapshot) (key : Bytes)
    (value : DumpValue) (ttlMs : Option Int64) :
    (addEntry now snapshot key value ttlMs).cell =
      Function.update snapshot.cell key ((snapshot.cell key).addEntry now value ttlMs) := by
  unfold addEntry addEntryWith Cell.addEntry
  by_cases hskip : ttlMs.any (· ≤ 0) = true
  · simp only [hskip, if_true, Function.update_eq_self]
  · simp only [hskip, if_false, Bool.false_eq_true]
    cases value with
    | str value =>
      refine Database.cell_eq_update (lookup_insert_eq_update _ _ _) ?_ ?_
      · exact (Function.update_eq_self key _).symm
      · cases ttlMs with
        | none => exact (Function.update_eq_self key _).symm
        | some ms => exact lookup_insert_eq_update _ _ _
    | list list =>
      refine Database.cell_eq_update ?_ (lookup_insert_eq_update _ _ _) ?_
      · exact (Function.update_eq_self key _).symm
      · cases ttlMs with
        | none => exact (Function.update_eq_self key _).symm
        | some ms => exact lookup_insert_eq_update _ _ _

/-- A key that no entry has keeps its cell. -/
theorem cell_foldl_add_of_notMem (t t' : TimePoint) (entries : List DumpEntry)
    (snapshot : DatabaseSnapshot) {k : Bytes} (hk : k ∉ entries.map DumpEntry.key) :
    (entries.foldl (DumpEntry.add t t') snapshot).cell k = snapshot.cell k := by
  induction entries generalizing snapshot with
  | nil => rfl
  | cons e entries ih =>
    rw [List.map_cons, List.mem_cons, not_or] at hk
    rw [List.foldl_cons, ih _ hk.2, DumpEntry.add, cell_addEntry, Function.update_of_ne hk.1]

/-- Among entries with different keys, the entry of a key determines its cell. -/
theorem cell_foldl_add (t t' : TimePoint) {entries : List DumpEntry}
    (hnodup : (entries.map DumpEntry.key).Nodup) (snapshot : DatabaseSnapshot) {e : DumpEntry}
    (he : e ∈ entries) : (entries.foldl (DumpEntry.add t t') snapshot).cell e.key =
      (snapshot.cell e.key).addEntry t' e.value (e.ttlMs t) := by
  induction entries generalizing snapshot with
  | nil => simp at he
  | cons e' entries ih =>
    rw [List.map_cons, List.nodup_cons] at hnodup
    rw [List.foldl_cons]
    rcases List.mem_cons.mp he with rfl | he'
    · rw [cell_foldl_add_of_notMem t t' entries _ hnodup.1, DumpEntry.add, cell_addEntry,
        Function.update_self]
    · have hne : e.key ≠ e'.key := by
        intro heq
        exact hnodup.1 (heq ▸ List.mem_map_of_mem he')
      rw [ih hnodup.2 _ he', DumpEntry.add, cell_addEntry, Function.update_of_ne hne]

/-! ### The entries of a snapshot -/

/-- The string entries that are written are those of the string map that have not expired. -/
theorem mem_stringEntries {t : TimePoint} {snapshot : DatabaseSnapshot} {e : DumpEntry} :
    e ∈ stringEntries t snapshot ↔ ∃ v, (snapshot.cell e.key).str = some v ∧
      (snapshot.cell e.key).expired t = false ∧
      e = ⟨e.key, .str v, (snapshot.cell e.key).deadline⟩ := by
  unfold stringEntries
  rw [List.mem_map]
  constructor
  · rintro ⟨⟨k, v⟩, hmem, rfl⟩
    obtain ⟨hentry, hexp⟩ := List.mem_filter.mp hmem
    exact ⟨v, AList.mem_lookup_iff.mpr hentry,
      by simpa [Database.isExpiredUnlocked_eq] using hexp, rfl⟩
  · rintro ⟨v, hv, hexp, heq⟩
    refine ⟨⟨e.key, v⟩, List.mem_filter.mpr ⟨AList.mem_lookup_iff.mp hv, ?_⟩, heq.symm⟩
    rw [Database.isExpiredUnlocked_eq, hexp]
    rfl

/-- The list entries that are written are those of the list map that have not expired. -/
theorem mem_listEntries {t : TimePoint} {snapshot : DatabaseSnapshot} {e : DumpEntry} :
    e ∈ listEntries t snapshot ↔ ∃ l, (snapshot.cell e.key).list = some l ∧
      (snapshot.cell e.key).expired t = false ∧
      e = ⟨e.key, .list l, (snapshot.cell e.key).deadline⟩ := by
  unfold listEntries
  rw [List.mem_map]
  constructor
  · rintro ⟨⟨k, l⟩, hmem, rfl⟩
    obtain ⟨hentry, hexp⟩ := List.mem_filter.mp hmem
    exact ⟨l, AList.mem_lookup_iff.mpr hentry,
      by simpa [Database.isExpiredUnlocked_eq] using hexp, rfl⟩
  · rintro ⟨l, hl, hexp, heq⟩
    refine ⟨⟨e.key, l⟩, List.mem_filter.mpr ⟨AList.mem_lookup_iff.mp hl, ?_⟩, heq.symm⟩
    rw [Database.isExpiredUnlocked_eq, hexp]
    rfl

/-- The entries written from one map have different keys. -/
theorem nodup_keys_of_filter {V : Type} (m : UnorderedMap Bytes V) (p : Bytes → Bool)
    (f : (Σ _ : Bytes, V) → DumpEntry) (hf : ∀ e, (f e).key = e.1) :
    (((m.entries.filter fun e => p e.1).map f).map DumpEntry.key).Nodup := by
  have hkeys : DumpEntry.key ∘ f = Sigma.fst := funext hf
  rw [List.map_map, hkeys]
  exact List.NodupKeys.sublist List.filter_sublist m.nodupKeys

/-- Different string entries have different keys. -/
theorem nodup_stringEntries (t : TimePoint) (snapshot : DatabaseSnapshot) :
    ((stringEntries t snapshot).map DumpEntry.key).Nodup :=
  nodup_keys_of_filter snapshot.store (fun k => !snapshot.isExpiredUnlocked t k) _ fun _ => rfl

/-- Different list entries have different keys. -/
theorem nodup_listEntries (t : TimePoint) (snapshot : DatabaseSnapshot) :
    ((listEntries t snapshot).map DumpEntry.key).Nodup :=
  nodup_keys_of_filter snapshot.listStore (fun k => !snapshot.isExpiredUnlocked t k) _ fun _ => rfl

/-! ### Loading arbitrary bytes -/

/-- One round of the loop of `load` adds one entry, on any bytes. -/
theorem loadEntry_cases {now : TimePoint} {snapshot snapshot' : DatabaseSnapshot}
    {input rest : Bytes} (h : (loadEntry now snapshot).run input = some (snapshot', rest)) :
    ∃ key value ttlMs, snapshot' = addEntry now snapshot key value ttlMs := by
  unfold loadEntry loadEntryWith at h
  obtain ⟨typeTag, _, _, h⟩ := Decoder.run_bind_eq_some.mp h
  obtain ⟨flags, _, _, h⟩ := Decoder.run_bind_eq_some.mp h
  obtain ⟨key, _, _, h⟩ := Decoder.run_bind_eq_some.mp h
  split at h
  · obtain ⟨value, _, _, h⟩ := Decoder.run_bind_eq_some.mp h
    obtain ⟨ttlMs, _, _, h⟩ := Decoder.run_bind_eq_some.mp h
    exact ⟨key, .str value, ttlMs, (Decoder.run_pure_eq_some.mp h).1.symm⟩
  · split at h
    · obtain ⟨elemCount, _, _, h⟩ := Decoder.run_bind_eq_some.mp h
      obtain ⟨list, _, _, h⟩ := Decoder.run_bind_eq_some.mp h
      obtain ⟨ttlMs, _, _, h⟩ := Decoder.run_bind_eq_some.mp h
      exact ⟨key, .list list, ttlMs, (Decoder.run_pure_eq_some.mp h).1.symm⟩
    · cases h

/-- The largest lifetime that a dump file can hold, in nanoseconds. -/
def maxLifetime : ℤ := (2 ^ 63 - 1) * nsPerMs

/-- An entry sets a deadline at most the largest lifetime away. -/
theorem addEntry_deadlinesBelow {now : TimePoint} {snapshot : DatabaseSnapshot}
    (h : snapshot.DeadlinesBelow (now + maxLifetime)) (key : Bytes) (value : DumpValue)
    (ttlMs : Option Int64) :
    (addEntry now snapshot key value ttlMs).DeadlinesBelow (now + maxLifetime) := by
  intro k d hd
  rw [cell_addEntry] at hd
  by_cases hk : k = key
  · subst hk
    rw [Function.update_self] at hd
    unfold Cell.addEntry at hd
    have hnew : ∀ ms : Int64, now + ms.toInt * nsPerMs ≤ now + maxLifetime := by
      intro ms
      have hms : ms.toInt ≤ 2 ^ 63 - 1 := Int.le_sub_one_of_lt ms.toInt_lt
      exact Int.add_le_add_left (Int.mul_le_mul_of_nonneg_right hms (by decide)) now
    split at hd
    · exact h k d hd
    · have hdeadline : (snapshot.cell k).loadedDeadline now ttlMs = some d := by
        cases value <;> exact hd
      cases ttlMs with
      | none => exact h k d hdeadline
      | some ms =>
        obtain rfl := Option.some.inj hdeadline
        exact hnew ms
  · rw [Function.update_of_ne hk] at hd
    exact h k d hd

/-- Whatever the file contains, no loaded deadline is further away than the largest lifetime. -/
theorem load_deadlinesBelow {now : TimePoint} (file : Option Bytes) {db : Database}
    (h : db.DeadlinesBelow (now + maxLifetime)) :
    (load now file db).2.DeadlinesBelow (now + maxLifetime) := by
  unfold load loadWith
  split
  · exact h
  · split
    · exact h
    · simp only
      split
      · exact h
      · split
        · exact h
        · split
          · exact h
          · rename_i snapshot _ hrun
            unfold loadEntriesWith at hrun
            obtain ⟨header, _, _, hrun⟩ := Decoder.run_bind_eq_some.mp hrun
            split at hrun
            · cases hrun
            · obtain ⟨entryCount, _, _, hrun⟩ := Decoder.run_bind_eq_some.mp hrun
              refine Decoder.iterate_invariant
                (fun snap => snap.DeadlinesBelow (now + maxLifetime)) ?_ ?_ hrun
              · intro snap snap' _ _ hsnap hstep
                obtain ⟨key, value, ttlMs, rfl⟩ := loadEntry_cases hstep
                exact addEntry_deadlinesBelow hsnap key value ttlMs
              · intro k d hd
                cases hd

end Persistence

end MyRedis
