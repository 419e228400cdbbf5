import MyRedis.Persistence.Loading
import MyRedis.Persistence.Saving

/-!
# The reachable states of the database

The states that the database can be in: reached from the empty one by operations at non-decreasing
clock readings, by active-expiry scans, and by loads of files that `save` wrote from such states.

The representation invariant holds in all of them as long as only states are saved whose lengths
fit into 32 bits (`reachable_representation`).  A list of `2 ^ 32` elements is written with the
element count `0` and comes back as an empty list (`overlong_list_loads_empty`).
-/

namespace MyRedis

open Foundation Persistence

/-- The database states that can be reached by the time of a clock reading.  `Saved` restricts the
states from which the loaded files were saved. -/
inductive Reachable (Saved : Database → Prop) : TimePoint → Database → Prop
  /-- The start. -/
  | empty (now : TimePoint) : Reachable Saved now Database.empty
  /-- An operation, at any non-decreasing readings of the clock during the call. -/
  | op {now last : TimePoint} {db db₁ : Database} (h : Reachable Saved now db)
      (hre : db.Reordered db₁) (op : DbOp) (hpush : op.PushesSomething)
      (readings : ℕ → TimePoint) (hmono : Monotone readings) (hstart : now ≤ readings 0)
      (hlast : ∀ i, readings i ≤ last) : Reachable Saved last (op.run readings db₁).2
  /-- An active-expiry scan. -/
  | scan {now reading : TimePoint} {db db₁ : Database} (h : Reachable Saved now db)
      (hre : db.Reordered db₁) (hstart : now ≤ reading) :
      Reachable Saved reading (db₁.expiryScan reading)
  /-- A load of a file saved earlier, perhaps by another process with another clock. -/
  | load {now reading savedBy savedAt : TimePoint} {db saved : Database}
      {snapshot : DatabaseSnapshot} {file : Option Bytes} (h : Reachable Saved now db)
      (hstart : now ≤ reading) (hsaved : Reachable Saved savedBy saved) (hfits : Saved saved)
      (hcopy : saved.Reordered snapshot) (hclock : savedBy ≤ savedAt)
      (hfile : WrittenBySave savedAt snapshot file) :
      Reachable Saved reading (load reading file db).2

/-- The lengths in the database fit into the 32 bits that they are written with. -/
structure Database.Encodable (db : Database) : Prop where
  /-- The keys. -/
  key : ∀ k, (db.cell k).present = true → k.length < 2 ^ 32
  /-- The strings. -/
  str : ∀ k v, (db.cell k).str = some v → v.length < 2 ^ 32
  /-- The element counts and the elements of the lists. -/
  list : ∀ k l, (db.cell k).list = some l → l.length < 2 ^ 32 ∧ ∀ s ∈ l, s.length < 2 ^ 32

/-- The lengths do not depend on the iteration order. -/
theorem Database.Reordered.encodable {db db' : Database} (h : db.Reordered db')
    (hdb : db.Encodable) : db'.Encodable := by
  have hcell := h.cell_eq
  constructor
  · rw [hcell]
    exact hdb.key
  · rw [hcell]
    exact hdb.str
  · rw [hcell]
    exact hdb.list

/-- The entries written from such a state can be read back. -/
theorem Database.Encodable.dumpEntries {snapshot : DatabaseSnapshot} (h : snapshot.Encodable)
    (t : TimePoint) : ∀ e ∈ dumpEntries t snapshot, e.Encodable := by
  intro e he
  rcases List.mem_append.mp he with he | he
  · obtain ⟨v, hv, _, heq⟩ := mem_stringEntries.mp he
    refine ⟨h.key e.key (by simp [Cell.present, hv]), ?_⟩
    rw [heq]
    exact h.str e.key v hv
  · obtain ⟨l, hl, _, heq⟩ := mem_listEntries.mp he
    refine ⟨h.key e.key (by simp [Cell.present, hl]), ?_⟩
    rw [heq]
    exact h.list e.key l hl

/-! ### The representation invariant -/

/-- No key is written twice from a state that satisfies the invariant. -/
theorem nodup_dumpEntries {snapshot : DatabaseSnapshot} (hinv : snapshot.Inv) (t : TimePoint) :
    ((dumpEntries t snapshot).map DumpEntry.key).Nodup := by
  unfold dumpEntries
  rw [List.map_append]
  refine (nodup_stringEntries t snapshot).append (nodup_listEntries t snapshot) ?_
  intro k hk hk'
  obtain ⟨e, he, rfl⟩ := List.mem_map.mp hk
  obtain ⟨e', he', hkey⟩ := List.mem_map.mp hk'
  obtain ⟨v, hv, _⟩ := mem_stringEntries.mp he
  obtain ⟨l, hl, _⟩ := mem_listEntries.mp he'
  rw [hkey] at hl
  rcases (hinv e.key).single with h | h
  · rw [h] at hv
    cases hv
  · rw [h] at hl
    cases hl

/-- Adding an entry to an empty cell gives a cell that satisfies the invariant, unless the entry
is an empty list. -/
theorem Cell.addEntry_empty_inv {value : DumpValue} (hvalue : value ≠ .list []) (now : TimePoint)
    (ttlMs : Option Int64) : (Cell.empty.addEntry now value ttlMs).Inv := by
  unfold Cell.addEntry
  split
  · exact Cell.inv_empty
  · cases value with
    | str v => exact ⟨Or.inr rfl, fun _ => rfl, by simp [Cell.empty]⟩
    | list l =>
      refine ⟨Or.inl rfl, fun _ => rfl, ?_⟩
      intro h
      simp only [Option.some.injEq] at h
      exact hvalue (by rw [h])

/-- Loading a file that was saved from a state with fitting lengths establishes the invariant. -/
theorem load_inv {t : TimePoint} {snapshot : DatabaseSnapshot} (hinv : snapshot.Inv)
    (henc : snapshot.Encodable) (t' : TimePoint) (db : Database) :
    (load t' (some (dump t snapshot)) db).2.Inv := by
  intro k
  rw [load_dump (henc.dumpEntries t) t' db]
  have hnodup : ((loadedEntries t snapshot).map DumpEntry.key).Nodup := by
    unfold loadedEntries
    rw [List.map_take]
    exact (nodup_dumpEntries hinv t).sublist (List.take_sublist _ _)
  by_cases hk : k ∈ (loadedEntries t snapshot).map DumpEntry.key
  · obtain ⟨e, he, rfl⟩ := List.mem_map.mp hk
    rw [cell_foldl_add t t' hnodup _ he, Database.cell_empty]
    refine Cell.addEntry_empty_inv ?_ t' _
    -- no list of the saved state is empty
    rcases List.mem_append.mp (List.mem_of_mem_take he) with he | he
    · obtain ⟨v, _, _, heq⟩ := mem_stringEntries.mp he
      rw [heq]
      simp
    · obtain ⟨l, hl, _, heq⟩ := mem_listEntries.mp he
      rw [heq]
      intro h
      simp only [DumpValue.list.injEq] at h
      exact (hinv e.key).list_ne_nil (by rw [hl, h])
  · rw [cell_foldl_add_of_notMem t t' _ _ hk, Database.cell_empty]
    exact Cell.inv_empty

/-- Every reachable state satisfies the invariant, if only states with fitting lengths are
saved. -/
theorem Reachable.inv {now : TimePoint} {db : Database}
    (h : Reachable Database.Encodable now db) : db.Inv := by
  induction h with
  | empty now => exact Database.inv_empty
  | op _ hre op hpush readings _ _ _ ih => exact DbOp.run_inv hpush readings (hre.inv ih)
  | scan _ hre _ ih => exact Database.expiryScan_inv _ (hre.inv ih)
  | load _ _ _ hfits hcopy _ hfile _ ihsaved =>
    rw [hfile.eq_dump]
    exact load_inv (hcopy.inv ihsaved) (hcopy.encodable hfits) _ _

/-- In every state reached by loading only files that were saved from states with fitting lengths,
no key is in both value maps, every deadline belongs to a key, and no list is empty. -/
theorem reachable_representation {now : TimePoint} {db : Database}
    (h : Reachable Database.Encodable now db) :
    (∀ k, ¬ (k ∈ db.store ∧ k ∈ db.listStore)) ∧
      (∀ k ∈ db.expiry, k ∈ db.store ∨ k ∈ db.listStore) ∧
      ∀ k, db.listStore.lookup k ≠ some [] := by
  have hinv : db.Inv := h.inv
  refine ⟨?_, ?_, fun k => (hinv k).list_ne_nil⟩
  · rintro k ⟨hstr, hlist⟩
    rcases (hinv k).single with hnone | hnone
    · exact AList.lookup_eq_none.mp hnone hstr
    · exact AList.lookup_eq_none.mp hnone hlist
  · intro k hk
    have hpresent := (hinv k).present_of_deadline (AList.lookup_isSome.mpr hk)
    rcases Bool.or_eq_true_iff.mp hpresent with hstr | hlist
    · exact Or.inl (AList.lookup_isSome.mp hstr)
    · exact Or.inr (AList.lookup_isSome.mp hlist)

/-- The state with a single list. -/
def singleList (key : Bytes) (elements : List Bytes) : Database where
  store := ∅
  listStore := AList.singleton key elements
  expiry := ∅

/-- Pushing values into an empty database gives a single list. -/
theorem rpush_empty (key : Bytes) (values : List Bytes) (now : ℕ → TimePoint) :
    ((DbOp.rpush key values).run now Database.empty).2 = singleList key values := by
  have hfold : ((DbOp.rpush key values).run now Database.empty).2 =
      singleList key (values.foldl (fun list value => list ++ [value]) []) := rfl
  rw [hfold, foldl_concat_eq_append, List.nil_append]

/-- The cells of a state with a single list. -/
theorem cell_singleList (key : Bytes) (elements : List Bytes) :
    (singleList key elements).cell =
      Function.update Database.empty.cell key ⟨none, some elements, none⟩ := by
  refine Database.cell_eq_update ?_ (lookup_insert_eq_update ∅ key elements) ?_
  · exact (Function.update_eq_self key _).symm
  · exact (Function.update_eq_self key _).symm

/-- A state with one short list has fitting lengths. -/
theorem encodable_of_cell_eq {db : Database} {key : Bytes} {elements : List Bytes}
    {deadline : Option TimePoint}
    (hcell : db.cell = Function.update Database.empty.cell key ⟨none, some elements, deadline⟩)
    (hkey : key.length < 2 ^ 32)
    (helements : elements.length < 2 ^ 32 ∧ ∀ s ∈ elements, s.length < 2 ^ 32) :
    db.Encodable := by
  have hother : ∀ k, k ≠ key → db.cell k = Cell.empty := by
    intro k hk
    rw [hcell, Function.update_of_ne hk, Database.cell_empty]
  refine ⟨?_, ?_, ?_⟩ <;> intro k
  · by_cases hk : k = key
    · exact fun _ => hk ▸ hkey
    · rw [hother k hk]
      simp [Cell.present, Cell.empty]
  · intro v hv
    by_cases hk : k = key
    · rw [hk, hcell, Function.update_self] at hv
      cases hv
    · rw [hother k hk] at hv
      cases hv
  · intro l hl
    by_cases hk : k = key
    · rw [hk, hcell, Function.update_self] at hl
      obtain rfl := Option.some.inj hl
      exact helements
    · rw [hother k hk] at hl
      cases hl

/-- The invariant for a list that was pushed, saved and loaded again. -/
theorem reachable_representation_after_load :
    let saved := ((DbOp.rpush (ascii "k") [ascii "a"]).run (fun _ => 0) Database.empty).2
    let db := (load 1 (some (dump 0 saved)) Database.empty).2
    db.listStore.lookup (ascii "k") = some [ascii "a"] ∧
      ∀ k, db.listStore.lookup k ≠ some [] := by
  intro saved db
  have hsaved : Reachable Database.Encodable 0 saved :=
    .op (.empty 0) .rfl _ (by simp [DbOp.PushesSomething]) _ monotone_const le_rfl fun _ => le_rfl
  have hfits : saved.Encodable := encodable_of_cell_eq (cell_singleList _ _) (by decide) (by decide)
  have hdb : Reachable Database.Encodable 1 db :=
    .load (.empty 1) le_rfl hsaved hfits .rfl le_rfl (writtenBySave_dump 0 saved)
  exact ⟨by decide +kernel, (reachable_representation hdb).2.2⟩

/-! ### A list with too many elements -/

/-- A list whose length is a multiple of `2 ^ 32` is written with the element count `0` and read
as an empty list. -/
theorem load_overlong {key : Bytes} (hkey : key.length < 2 ^ 32) {elements : List Bytes}
    (hlen : elements.length % 2 ^ 32 = 0) (db : Database) :
    (load 0 (some (dump 0 (singleList key elements))) db).2.listStore.lookup key = some [] := by
  have hcount : UInt32.ofNat elements.length = 0 := by
    apply UInt32.toNat_inj.mp
    rw [UInt32.toNat_ofNat']
    exact hlen
  have hone : entryCount 0 (singleList key elements) = 1 := rfl
  have hbody : dumpBody 0 (singleList key elements) = magic ++ (writeUint32 1 ++
      ([typeList] ++ ([0] ++ ((writeString key).flatten ++ (writeUint32 0 ++
        (elements.flatMap writeString).flatten))))) := by
    have hentries : dumpEntries 0 (singleList key elements) = [⟨key, .list elements, none⟩] := rfl
    rw [dumpBody_eq, hone, hentries, List.flatMap_singleton, DumpEntry.code_eq]
    simp [DumpValue.chunks, DumpValue.typeTag, DumpEntry.flags, DumpEntry.ttlChunks, hcount]
  -- the loop of `load` stops in front of the elements
  have hentry : Decodes (loadEntry 0 Database.empty)
      ([typeList] ++ ([0] ++ ((writeString key).flatten ++ writeUint32 0)))
      (addEntry 0 Database.empty key (.list []) none) := by
    unfold loadEntry
    refine (decodes_readByte _).bind ((decodes_readByte _).bind ?_)
    refine (decodes_readString hkey).bind ?_
    have htag : typeList ≠ typeString := by decide
    simp only [if_neg htag, if_true]
    refine (decodes_readUint32 0).bind_nil ?_
    exact (Decodes.pure []).bind_nil ((Decodes.pure none).bind_nil (Decodes.pure _))
  have hentries : Decodes (loadEntries 0) (magic ++ (writeUint32 1 ++
      ([typeList] ++ ([0] ++ ((writeString key).flatten ++ writeUint32 0)))))
      (addEntry 0 Database.empty key (.list []) none) := by
    unfold loadEntries
    refine (Decodes.bytes magic).bind ?_
    simp only [ne_eq, not_true_eq_false, if_false]
    exact (decodes_readUint32 1).bind (hentry.bind_nil (Decodes.pure _))
  have hrun : (loadEntries 0).run (dump 0 (singleList key elements)) =
      some (addEntry 0 Database.empty key (.list []) none, (elements.flatMap writeString).flatten ++
        writeUint32 (checksum (dumpBody 0 (singleList key elements)))) := by
    rw [← hentries, dump, hbody]
    simp only [List.append_assoc]
  rw [load_dump_of_run hrun]
  exact AList.lookup_insert _

/-- A list of `2 ^ 32` elements, saved and loaded, is empty. -/
theorem overlong_list_loads_empty :
    let saved := ((DbOp.rpush (ascii "k") (List.replicate (2 ^ 32) [])).run (fun _ => 0)
      Database.empty).2
    let db := (load 0 (some (dump 0 saved)) Database.empty).2
    Reachable (fun _ => True) 0 db ∧ db.listStore.lookup (ascii "k") = some [] := by
  have hlen : (List.replicate (2 ^ 32) ([] : Bytes)).length = 2 ^ 32 := List.length_replicate
  generalize List.replicate (2 ^ 32) ([] : Bytes) = elements at hlen
  intro saved db
  have hne : elements ≠ [] := by
    rintro rfl
    simp at hlen
  have hsaved : Reachable (fun _ => True) 0 saved :=
    .op (.empty 0) .rfl (.rpush (ascii "k") elements) hne _ monotone_const le_rfl fun _ => le_rfl
  refine ⟨.load (.empty 0) le_rfl hsaved trivial .rfl le_rfl (writtenBySave_dump 0 saved), ?_⟩
  have hsingle : saved = singleList (ascii "k") elements := rpush_empty _ _ _
  change (load 0 (some (dump 0 saved)) Database.empty).2.listStore.lookup (ascii "k") = some []
  rw [hsingle]
  exact load_overlong (by decide) (by rw [hlen, Nat.mod_self]) _

end MyRedis
