import MyRedis.Persistence.RoundTrip

/-!
# The format that `load` accepts

The dump format of `persistence.h`, as a set of byte strings: `FileEntry` is an entry that is well
formed by construction, `fileCode` the bytes of a header with entries, and `IsDump` says that a byte
string is such bytes followed by their checksum.

The readers of `load` are shown to read exactly these codes (`run_loadEntriesWith_eq_some`), on any
input.  But `load` compares the checksum and reads the entries in two passes that know nothing of
each other, and does not look where the entries end: it accepts a file as soon as its checksum is
right and the announced number of entries can be read from the front (`loadWith_eq_true_iff`), even
if bytes are left over or the last entry extends into the checksum.  `load_accepts_dumps_iff` says
that these are the only inputs on which it does not accept exactly the dumps.
-/

namespace MyRedis.Persistence

open Foundation

/-! ### Numbers and strings -/

/-- `read_uint32` takes the bytes of `write_uint32`. -/
theorem run_readUint32_eq_some {input rest : Bytes} {val : UInt32} :
    readUint32.run input = some (val, rest) ↔ input = writeUint32 val ++ rest := by
  refine Decodes.run_eq_some_iff_of_length word32Equiv (fun _ => rfl) decodes_readUint32 ?_
  intro input p h
  exact Decoder.le_length_of_run_bytes_bind h

/-- Different numbers are written differently. -/
theorem writeUint32_injective : Function.Injective writeUint32 :=
  Decodes.code_injective decodes_readUint32

/-- `read_int64` takes the bytes of `write_int64`. -/
theorem run_readInt64_eq_some {input rest : Bytes} {val : Int64} :
    readInt64.run input = some (val, rest) ↔ input = writeInt64 val ++ rest := by
  have values : Int64 ≃ Fin (256 ^ 8) :=
    Equiv.trans ⟨Int64.toUInt64, UInt64.toInt64, fun _ => rfl, fun _ => rfl⟩ word64Equiv
  refine Decodes.run_eq_some_iff_of_length values (fun _ => rfl) decodes_readInt64 ?_
  intro input p h
  exact Decoder.le_length_of_run_bytes_bind h

/-- One byte is read off the front. -/
theorem run_readByte_eq_some {input rest : Bytes} {b : UInt8} :
    readByte.run input = some (b, rest) ↔ input = [b] ++ rest := by
  refine Decodes.run_eq_some_iff decodes_readByte ?_
  intro input p h
  obtain ⟨code, rest, hcode, _⟩ := Decoder.run_bind_eq_some.mp h
  obtain ⟨hlen, rfl⟩ := Decoder.run_bytes_eq_some.mp hcode
  obtain ⟨b, rfl⟩ := List.length_eq_one_iff.mp hlen
  exact ⟨b, rest, rfl⟩

/-- `read_string` takes the bytes of `write_string`, for a string whose length fits. -/
theorem run_readString_eq_some {input rest s : Bytes} :
    readString.run input = some (s, rest) ↔
      s.length < 2 ^ 32 ∧ input = (writeString s).flatten ++ rest := by
  constructor
  · intro h
    obtain ⟨len, middle, hlen, hbytes⟩ := Decoder.run_bind_eq_some.mp h
    obtain ⟨hs, rfl⟩ := Decoder.run_bytes_eq_some.mp hbytes
    have hfits : s.length < 2 ^ 32 := hs ▸ len.toNat_lt
    have hval : UInt32.ofNat s.length = len := by rw [hs, UInt32.ofNat_toNat]
    refine ⟨hfits, ?_⟩
    rw [run_readUint32_eq_some.mp hlen, flatten_writeString, hval, List.append_assoc]
  · rintro ⟨hfits, rfl⟩
    exact decodes_readString hfits rest

/-- The elements of a list are read one after the other. -/
theorem run_readElements_eq_some {n : ℕ} {input rest : Bytes} {l : List Bytes} :
    (readElements n).run input = some (l, rest) ↔
      l.length = n ∧ (∀ s ∈ l, s.length < 2 ^ 32) ∧
        input = (l.flatMap writeString).flatten ++ rest := by
  constructor
  · intro h
    have hstep : ∀ (acc acc' : List Bytes) (input rest : Bytes),
        (do let elem ← readString; return acc ++ [elem] : Decoder (List Bytes)).run input =
          some (acc', rest) ↔ ∃ s : {s : Bytes // s.length < 2 ^ 32},
            input = (writeString s.1).flatten ++ rest ∧ acc' = acc ++ [s.1] := by
      intro acc acc' input rest
      rw [Decoder.run_bind_eq_some]
      constructor
      · rintro ⟨s, middle, hs, hpure⟩
        obtain ⟨rfl, rfl⟩ := Decoder.run_pure_eq_some.mp hpure
        obtain ⟨hfits, rfl⟩ := run_readString_eq_some.mp hs
        exact ⟨⟨s, hfits⟩, rfl, rfl⟩
      · rintro ⟨s, rfl, rfl⟩
        exact ⟨s.1, rest, run_readString_eq_some.mpr ⟨s.2, rfl⟩, rfl⟩
    obtain ⟨items, hlen, rfl, rfl⟩ := (Decoder.run_iterate_eq_some hstep).mp h
    have hfold : items.foldl (fun acc s => acc ++ [s.1]) [] = items.map Subtype.val := by
      rw [← List.foldl_map (f := Subtype.val) (g := fun (acc : List Bytes) s => acc ++ [s]),
        foldl_concat_eq_append, List.nil_append]
    rw [hfold]
    refine ⟨by rw [List.length_map, hlen], ?_, ?_⟩
    · intro s hs
      obtain ⟨item, _, rfl⟩ := List.mem_map.mp hs
      exact item.2
    · rw [flatten_flatMap, List.flatMap_map]
  · rintro ⟨rfl, hfits, rfl⟩
    exact decodes_readElements hfits rest

/-! ### Entries -/

/-- A well-formed entry of a dump file. -/
structure FileEntry where
  /-- The flags byte, of which only the lowest bit has a meaning. -/
  flags : UInt8
  /-- The key. -/
  key : Bytes
  /-- The value, which determines the type tag. -/
  value : DumpValue
  /-- The remaining lifetime. -/
  ttlMs : Option Int64
  /-- The length of the key fits. -/
  key_lt : key.length < 2 ^ 32
  /-- The lengths in the value fit. -/
  encodable : value.Encodable
  /-- The lowest bit of the flags says whether there is a lifetime. -/
  isSome_ttlMs : ttlMs.isSome = (flags &&& flagHasTtl != 0)

namespace FileEntry

/-- The bytes of the lifetime. -/
def ttlCode (e : FileEntry) : Bytes :=
  match e.ttlMs with
  | none => []
  | some ms => writeInt64 ms

/-- The bytes of an entry: type tag, flags, key, value and lifetime. -/
def code (e : FileEntry) : Bytes :=
  [e.value.typeTag] ++ ([e.flags] ++ ((writeString e.key).flatten ++
    (e.value.chunks.flatten ++ e.ttlCode)))

/-- What loading the entry adds to the snapshot. -/
def add (deadline : Int64 → TimePoint) (snapshot : DatabaseSnapshot) (e : FileEntry) :
    DatabaseSnapshot :=
  addEntryWith deadline snapshot e.key e.value e.ttlMs

end FileEntry

/-- The lifetime of an entry is read off the front. -/
theorem run_readTtl_eq_some {hasTtl : Bool} {input rest : Bytes} {ttlMs : Option Int64} :
    (readTtl hasTtl).run input = some (ttlMs, rest) ↔ ttlMs.isSome = hasTtl ∧
      input = (match ttlMs with | none => [] | some ms => writeInt64 ms) ++ rest := by
  unfold readTtl
  cases hasTtl with
  | false =>
    rw [if_neg Bool.false_ne_true, Decoder.run_pure_eq_some]
    cases ttlMs with
    | none => simp
    | some ms => simp
  | true =>
    rw [if_pos rfl, Decoder.run_bind_eq_some]
    constructor
    · rintro ⟨ms, middle, hms, hpure⟩
      obtain ⟨rfl, rfl⟩ := Decoder.run_pure_eq_some.mp hpure
      exact ⟨rfl, run_readInt64_eq_some.mp hms⟩
    · rintro ⟨hsome, rfl⟩
      obtain ⟨ms, rfl⟩ := Option.isSome_iff_exists.mp hsome
      exact ⟨ms, rest, run_readInt64_eq_some.mpr rfl, rfl⟩

/-- One round of the loop of `load` reads one well-formed entry, on any input. -/
theorem run_loadEntryWith_eq_some (deadline : Int64 → TimePoint)
    (snapshot snapshot' : DatabaseSnapshot) (input rest : Bytes) :
    (loadEntryWith deadline snapshot).run input = some (snapshot', rest) ↔
      ∃ e : FileEntry, input = e.code ++ rest ∧ snapshot' = e.add deadline snapshot := by
  have htag : typeList ≠ typeString := by decide
  unfold loadEntryWith
  constructor
  · intro h
    rw [Decoder.run_bind_eq_some] at h
    obtain ⟨typeTag, _, htype, h⟩ := h
    obtain rfl := run_readByte_eq_some.mp htype
    rw [Decoder.run_bind_eq_some] at h
    obtain ⟨flags, _, hflags, h⟩ := h
    obtain rfl := run_readByte_eq_some.mp hflags
    rw [Decoder.run_bind_eq_some] at h
    obtain ⟨key, _, hkey, h⟩ := h
    obtain ⟨hkeyLt, rfl⟩ := run_readString_eq_some.mp hkey
    split at h
    · rename_i hstring
      rw [Decoder.run_bind_eq_some] at h
      obtain ⟨value, _, hvalue, h⟩ := h
      obtain ⟨hvalueLt, rfl⟩ := run_readString_eq_some.mp hvalue
      rw [Decoder.run_bind_eq_some] at h
      obtain ⟨ttlMs, _, httl, h⟩ := h
      obtain ⟨hsome, rfl⟩ := run_readTtl_eq_some.mp httl
      obtain ⟨rfl, rfl⟩ := Decoder.run_pure_eq_some.mp h
      refine ⟨⟨flags, key, .str value, ttlMs, hkeyLt, hvalueLt, hsome⟩, ?_, rfl⟩
      simp only [FileEntry.code, DumpValue.typeTag, DumpValue.chunks, FileEntry.ttlCode, hstring,
        List.append_assoc]
    · split at h
      · rename_i hlist
        rw [Decoder.run_bind_eq_some] at h
        obtain ⟨elemCount, _, hcount, h⟩ := h
        obtain rfl := run_readUint32_eq_some.mp hcount
        rw [Decoder.run_bind_eq_some] at h
        obtain ⟨list, _, helements, h⟩ := h
        obtain ⟨hlen, hshort, rfl⟩ := run_readElements_eq_some.mp helements
        rw [Decoder.run_bind_eq_some] at h
        obtain ⟨ttlMs, _, httl, h⟩ := h
        obtain ⟨hsome, rfl⟩ := run_readTtl_eq_some.mp httl
        obtain ⟨rfl, rfl⟩ := Decoder.run_pure_eq_some.mp h
        have hcount : UInt32.ofNat list.length = elemCount := by rw [hlen, UInt32.ofNat_toNat]
        refine ⟨⟨flags, key, .list list, ttlMs, hkeyLt, ⟨hlen ▸ elemCount.toNat_lt, hshort⟩,
          hsome⟩, ?_, rfl⟩
        simp only [FileEntry.code, DumpValue.typeTag, DumpValue.chunks, FileEntry.ttlCode, hlist,
          hcount, List.flatten_cons, List.append_assoc]
      · cases h
  · rintro ⟨⟨flags, key, value, ttlMs, hkey, hvalue, hsome⟩, rfl, rfl⟩
    simp only [FileEntry.code, List.append_assoc]
    refine Decoder.run_bind_eq_some.mpr ⟨_, _, run_readByte_eq_some.mpr rfl, ?_⟩
    refine Decoder.run_bind_eq_some.mpr ⟨_, _, run_readByte_eq_some.mpr rfl, ?_⟩
    refine Decoder.run_bind_eq_some.mpr ⟨_, _, run_readString_eq_some.mpr ⟨hkey, rfl⟩, ?_⟩
    have httl : (readTtl _).run (_ ++ rest) = some (ttlMs, rest) :=
      run_readTtl_eq_some.mpr ⟨hsome, rfl⟩
    cases value with
    | str value =>
      simp only [DumpValue.typeTag, if_true]
      refine Decoder.run_bind_eq_some.mpr ⟨_, _, run_readString_eq_some.mpr ⟨hvalue, rfl⟩, ?_⟩
      exact Decoder.run_bind_eq_some.mpr ⟨_, _, httl, rfl⟩
    | list elements =>
      simp only [DumpValue.typeTag, if_neg htag, if_true, DumpValue.chunks, List.flatten_cons,
        List.append_assoc]
      refine Decoder.run_bind_eq_some.mpr ⟨_, _, run_readUint32_eq_some.mpr rfl, ?_⟩
      have hlen : elements.length = (UInt32.ofNat elements.length).toNat := by
        rw [UInt32.toNat_ofNat']
        exact (Nat.mod_eq_of_lt hvalue.1).symm
      refine Decoder.run_bind_eq_some.mpr
        ⟨_, _, run_readElements_eq_some.mpr ⟨hlen, hvalue.2, rfl⟩, ?_⟩
      exact Decoder.run_bind_eq_some.mpr ⟨_, _, httl, rfl⟩

/-! ### The whole file -/

/-- The bytes of a header and entries. -/
def fileCode (entries : List FileEntry) : Bytes :=
  magic ++ (writeUint32 (UInt32.ofNat entries.length) ++ entries.flatMap FileEntry.code)

/-- The readers of `load` read a header and as many well-formed entries as it announces. -/
theorem run_loadEntriesWith_eq_some {deadline : Int64 → TimePoint} {snapshot : DatabaseSnapshot}
    {input rest : Bytes} :
    (loadEntriesWith deadline).run input = some (snapshot, rest) ↔
      ∃ entries : List FileEntry, entries.length < 2 ^ 32 ∧ input = fileCode entries ++ rest ∧
        snapshot = entries.foldl (FileEntry.add deadline) Database.empty := by
  unfold loadEntriesWith
  constructor
  · intro h
    rw [Decoder.run_bind_eq_some] at h
    obtain ⟨header, _, hheader, h⟩ := h
    obtain ⟨_, rfl⟩ := Decoder.run_bytes_eq_some.mp hheader
    split at h
    · cases h
    · rename_i hmagic
      rw [Decoder.run_bind_eq_some] at h
      obtain ⟨entryCount, _, hcount, h⟩ := h
      obtain rfl := run_readUint32_eq_some.mp hcount
      obtain ⟨entries, hlen, rfl, rfl⟩ :=
        (Decoder.run_iterate_eq_some (run_loadEntryWith_eq_some deadline)).mp h
      have hcount : UInt32.ofNat entries.length = entryCount := by rw [hlen, UInt32.ofNat_toNat]
      refine ⟨entries, hlen ▸ entryCount.toNat_lt, ?_, rfl⟩
      rw [fileCode, not_not.mp hmagic, hcount, List.append_assoc, List.append_assoc]
  · rintro ⟨entries, hlen, rfl, rfl⟩
    rw [fileCode, List.append_assoc, List.append_assoc]
    refine Decoder.run_bind_eq_some.mpr ⟨_, _, Decoder.run_bytes_eq_some.mpr ⟨rfl, rfl⟩, ?_⟩
    rw [if_neg (not_not.mpr rfl)]
    refine Decoder.run_bind_eq_some.mpr ⟨_, _, run_readUint32_eq_some.mpr rfl, ?_⟩
    have hcount : entries.length = (UInt32.ofNat entries.length).toNat := by
      rw [UInt32.toNat_ofNat']
      exact (Nat.mod_eq_of_lt hlen).symm
    exact (Decoder.run_iterate_eq_some (run_loadEntryWith_eq_some deadline)).mpr
      ⟨entries, hcount, rfl, rfl⟩

/-! ### What `load` accepts -/

/-- The last four bytes are the checksum of everything before them. -/
def Checked (content : Bytes) : Prop :=
  ∃ data, content = data ++ writeUint32 (checksum data)

/-- The two passes of `load` for the checksum compare what is stored with what is computed. -/
theorem checked_iff {content : Bytes} (hsize : 4 ≤ content.length) :
    Checked content ↔ content.drop (content.length - 4) =
      writeUint32 (checksum (content.take (content.length - 4))) := by
  constructor
  · rintro ⟨data, rfl⟩
    have hlen : (data ++ writeUint32 (checksum data)).length - 4 = data.length := by
      rw [List.length_append]
      exact Nat.add_sub_cancel _ 4
    rw [hlen, List.drop_left, List.take_left]
  · intro h
    refine ⟨content.take (content.length - 4), ?_⟩
    rw [← h, List.take_append_drop]

/-- `load` returns `true` if and only if the file is long enough, its checksum is right and a header
with entries can be read off its front; then the entries make up the new database. -/
theorem loadWith_eq_true_iff {deadline : Int64 → TimePoint} {content : Bytes} {db db' : Database} :
    loadWith deadline (some content) db = (true, db') ↔
      17 ≤ content.length ∧ Checked content ∧ ∃ entries : List FileEntry, ∃ rest,
        entries.length < 2 ^ 32 ∧ content = fileCode entries ++ rest ∧
        db' = entries.foldl (FileEntry.add deadline) Database.empty := by
  have hreaders : (∃ entries : List FileEntry, ∃ rest, entries.length < 2 ^ 32 ∧
      content = fileCode entries ++ rest ∧
      db' = entries.foldl (FileEntry.add deadline) Database.empty) ↔
      ∃ rest, (loadEntriesWith deadline).run content = some (db', rest) := by
    simp only [run_loadEntriesWith_eq_some]
    exact exists_comm
  rw [hreaders]
  unfold loadWith
  by_cases hsize : content.length < magicLen + 4 + 4
  · simp only [hsize, if_true]
    have hshort : ¬ 17 ≤ content.length := not_le.mpr hsize
    simp [hshort]
  · have hlong : 17 ≤ content.length := not_lt.mp hsize
    simp only [hsize, if_false, hlong, true_and, checked_iff (by omega : 4 ≤ content.length)]
    -- the last four bytes can be read as a number
    have hlast : (content.drop (content.length - 4)).length = 4 := by
      rw [List.length_drop]
      omega
    obtain ⟨stored, hstored⟩ := exists_code_of_length word32Equiv (fun _ => rfl)
      writeUint32_injective hlast
    have hread : readUint32.run (content.drop (content.length - 4)) = some (stored, []) := by
      rw [run_readUint32_eq_some, hstored, List.append_nil]
    rw [hread, ← hstored, writeUint32_injective.eq_iff, computeCrc32_some]
    by_cases hcrc : checksum (content.take (content.length - 4)) = stored
    · simp only [hcrc, ne_eq, not_true_eq_false, if_false, true_and]
      rcases (loadEntriesWith deadline).run content with _ | ⟨snapshot, rest⟩
      · simp
      · simp
    · simp [hcrc, Ne.symm hcrc]

/-- When `load` does not return `true`, it has not touched the database. -/
theorem loadWith_eq_false {deadline : Int64 → TimePoint} {file : Option Bytes} {db : Database}
    (h : (loadWith deadline file db).1 = false) : loadWith deadline file db = (false, db) := by
  refine Prod.ext h ?_
  revert h
  unfold loadWith
  split
  · exact fun _ => rfl
  · split
    · exact fun _ => rfl
    · simp only
      split
      · exact fun _ => rfl
      · split
        · exact fun _ => rfl
        · split
          · exact fun _ => rfl
          · intro h
            cases h

/-- `load` accepts a file if and only if it is long enough, its checksum is right and a header with
entries can be read off its front. -/
theorem loadWith_accepts_iff {deadline : Int64 → TimePoint} {content : Bytes} {db : Database} :
    (loadWith deadline (some content) db).1 = true ↔
      17 ≤ content.length ∧ Checked content ∧ ∃ entries : List FileEntry, ∃ rest,
        entries.length < 2 ^ 32 ∧ content = fileCode entries ++ rest := by
  constructor
  · intro h
    obtain ⟨hsize, hchecked, entries, rest, hlen, hcontent, _⟩ :=
      loadWith_eq_true_iff.mp (Prod.ext h rfl)
    exact ⟨hsize, hchecked, entries, rest, hlen, hcontent⟩
  · rintro ⟨hsize, hchecked, entries, rest, hlen, hcontent⟩
    rw [loadWith_eq_true_iff.mpr ⟨hsize, hchecked, entries, rest, hlen, hcontent, rfl⟩]

/-! ### The dump format -/

/-- A byte string in the dump format: a header, the announced number of well-formed entries, and
the checksum of all that. -/
def IsDump (content : Bytes) : Prop :=
  ∃ entries : List FileEntry, entries.length < 2 ^ 32 ∧
    content = fileCode entries ++ writeUint32 (checksum (fileCode entries))

/-- A byte string with the right checksum whose entries do not end where the checksum begins: bytes
are left over, or the last entries extend into the checksum. -/
def EndsElsewhere (content : Bytes) : Prop :=
  17 ≤ content.length ∧ Checked content ∧ ∃ entries : List FileEntry, ∃ rest,
    entries.length < 2 ^ 32 ∧ content = fileCode entries ++ rest ∧ rest.length ≠ 4

/-- What follows the entries is determined by the file. -/
theorem rest_eq_of_fileCode {entries entries' : List FileEntry} {rest rest' : Bytes}
    (hlen : entries.length < 2 ^ 32) (hlen' : entries'.length < 2 ^ 32)
    (h : fileCode entries ++ rest = fileCode entries' ++ rest') : rest = rest' := by
  have hrun : (loadEntriesWith (exactDeadline 0)).run (fileCode entries ++ rest) = some (_, rest) :=
    run_loadEntriesWith_eq_some.mpr ⟨entries, hlen, rfl, rfl⟩
  have hrun' : (loadEntriesWith (exactDeadline 0)).run (fileCode entries' ++ rest') =
      some (_, rest') := run_loadEntriesWith_eq_some.mpr ⟨entries', hlen', rfl, rfl⟩
  rw [h, hrun'] at hrun
  exact (Prod.mk.inj (Option.some.inj hrun)).2.symm

/-- A dump is long enough and has the right checksum. -/
theorem IsDump.accepted {content : Bytes} (h : IsDump content) (deadline : Int64 → TimePoint)
    (db : Database) : (loadWith deadline (some content) db).1 = true := by
  obtain ⟨entries, hlen, rfl⟩ := h
  refine loadWith_accepts_iff.mpr ⟨?_, ⟨_, rfl⟩, entries, _, hlen, rfl⟩
  have hheader : 13 ≤ (fileCode entries).length := by
    rw [fileCode, List.length_append, List.length_append]
    change 13 ≤ 9 + (4 + _)
    omega
  rw [List.length_append]
  change 17 ≤ _ + 4
  omega

/-- A dump ends with its checksum. -/
theorem IsDump.not_endsElsewhere {content : Bytes} (h : IsDump content) :
    ¬ EndsElsewhere content := by
  obtain ⟨entries, hlen, rfl⟩ := h
  rintro ⟨_, _, entries', rest, hlen', hcontent, hrest⟩
  rw [← rest_eq_of_fileCode hlen hlen' hcontent] at hrest
  exact hrest rfl

/-- `load` accepts exactly the dumps, unless the checksum of the file is right and its entries end
elsewhere than in front of the checksum. -/
theorem load_accepts_dumps_iff (deadline : Int64 → TimePoint) (content : Bytes) (db : Database) :
    ((loadWith deadline (some content) db).1 = true ↔ IsDump content) ↔
      ¬ EndsElsewhere content := by
  constructor
  · rintro haccepts helsewhere
    obtain ⟨hsize, hchecked, entries, rest, hlen, hcontent, _⟩ := id helsewhere
    have hdump : IsDump content :=
      haccepts.mp (loadWith_accepts_iff.mpr ⟨hsize, hchecked, entries, rest, hlen, hcontent⟩)
    exact hdump.not_endsElsewhere helsewhere
  · intro helsewhere
    refine ⟨?_, fun h => h.accepted deadline db⟩
    intro h
    obtain ⟨hsize, hchecked, entries, rest, hlen, hcontent⟩ := loadWith_accepts_iff.mp h
    have hrest : rest.length = 4 := by
      by_contra hne
      exact helsewhere ⟨hsize, hchecked, entries, rest, hlen, hcontent, hne⟩
    obtain ⟨data, hdata⟩ := hchecked
    obtain ⟨rfl, rfl⟩ := List.append_inj' (hcontent.symm.trans hdata) hrest
    exact ⟨entries, hlen, hcontent⟩

/-- Attach the checksum to data. -/
def withChecksum (data : Bytes) : Bytes := data ++ writeUint32 (checksum data)

/-- Two files that `load` accepts although they are not in the dump format: one with a byte between
the last entry and the checksum, and one whose only entry takes its value from the checksum. -/
theorem load_accepts_malformed :
    let unread := withChecksum (magic ++ [0, 0, 0, 0, 0xAA])
    let overrun := withChecksum (magic ++ [0, 0, 0, 1] ++ [0, 0, 0, 0, 0, 1, 0x6B, 0, 0, 0, 4])
    ((load 0 (some unread) Database.empty).1 = true ∧ ¬ IsDump unread) ∧
      (load 0 (some overrun) Database.empty).1 = true ∧ ¬ IsDump overrun ∧
      (load 0 (some overrun) Database.empty).2.store.lookup (ascii "k") =
        some (overrun.drop (overrun.length - 4)) := by
  have hnot : ∀ content, (((loadEntriesWith (exactDeadline 0)).run content).any fun p =>
      p.2.length ≠ 4) = true → ¬ IsDump content := by
    rintro content hrun ⟨entries, hlen, rfl⟩
    rw [run_loadEntriesWith_eq_some.mpr ⟨entries, hlen, rfl, rfl⟩] at hrun
    cases hrun
  refine ⟨⟨by decide +kernel, hnot _ (by decide +kernel)⟩, by decide +kernel,
    hnot _ (by decide +kernel), by decide +kernel⟩

end MyRedis.Persistence
