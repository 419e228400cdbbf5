import MyRedis.Database.Invariant
import MyRedis.Persistence.Basic

/-!
# What `load` reads from what `save` writes

The decoders of `load` read the codes that the writing loops of `save` produce, entry by entry, as
long as no length exceeds 32 bits (`DumpEntry.Encodable`).  `load_dump` is the result: the file
written by `save` is accepted, and the entries read from it are the first ones written, as many as
the header announces.
-/

namespace MyRedis.Persistence

open Foundation

/-! ### The checksum -/

/-- The checksum of a byte string, without the buffering. -/
def checksum (bytes : Bytes) : UInt32 :=
  bytes.foldl crc32Byte 0xFFFFFFFF ^^^ 0xFFFFFFFF

/-- The reading loop runs over the first `remaining` bytes of the stream. -/
theorem crc32Loop_eq (fuel : ℕ) (stream : Bytes) (remaining : ℕ) (crc : UInt32)
    (hfuel : remaining ≤ fuel) :
    crc32Loop fuel stream remaining crc = (stream.take remaining).foldl crc32Byte crc := by
  induction fuel generalizing stream remaining crc with
  | zero =>
    have hzero : remaining = 0 := Nat.le_zero.mp hfuel
    rw [hzero]
    rfl
  | succ fuel ih =>
    rw [crc32Loop]
    by_cases hzero : remaining = 0
    · rw [if_pos hzero, hzero]
      rfl
    · rw [if_neg hzero]
      have hchunk : 0 < min remaining chunkSize := by
        unfold chunkSize
        omega
      by_cases hshort : (stream.take (min remaining chunkSize)).length <
          min remaining chunkSize
      · -- a short read has delivered all that is left of the stream
        simp only [hshort, if_true]
        rw [List.length_take] at hshort
        rw [List.take_of_length_le (by omega), List.take_of_length_le (by omega)]
      · simp only [hshort, if_false]
        have hlen : (stream.take (min remaining chunkSize)).length = min remaining chunkSize :=
          le_antisymm (List.length_take_le _ _) (not_lt.mp hshort)
        rw [hlen, ih _ _ _ (by omega), ← List.foldl_append]
        congr 1
        conv_rhs => rw [← Nat.add_sub_cancel' (Nat.min_le_left remaining chunkSize), List.take_add]

/-- The checksum of the first bytes of a file that can be read. -/
theorem computeCrc32_some (stream : Bytes) (length : ℕ) :
    computeCrc32 (some stream) length = checksum (stream.take length) := by
  change crc32Loop length stream length 0xFFFFFFFF ^^^ 0xFFFFFFFF = checksum (stream.take length)
  rw [crc32Loop_eq length stream length _ le_rfl]
  rfl

/-! ### Numbers, strings and lists -/

/-- A 32-bit number is read back. -/
theorem decodes_readUint32 (val : UInt32) : Decodes readUint32 (writeUint32 val) val := by
  unfold readUint32
  refine Decodes.bind_nil (Decodes.bytes (writeUint32 val)) ?_
  rw [writeUint32, ofWordBytes_wordBytes]
  exact Decodes.pure val

/-- A 64-bit number is read back. -/
theorem decodes_readInt64 (val : Int64) : Decodes readInt64 (writeInt64 val) val := by
  unfold readInt64
  refine Decodes.bind_nil (Decodes.bytes (writeInt64 val)) ?_
  have hjoin := joinBytes64 val.toUInt64
  simp only [writeInt64]
  rw [hjoin]
  exact Decodes.pure val

/-- A byte is read back. -/
theorem decodes_readByte (b : UInt8) : Decodes readByte [b] b :=
  Decodes.bind_nil (Decodes.bytes [b]) (Decodes.pure b)

/-- The bytes of a written string. -/
theorem flatten_writeString (s : Bytes) :
    (writeString s).flatten = writeUint32 (UInt32.ofNat s.length) ++ s := by
  unfold writeString
  by_cases hs : s = []
  · simp [hs]
  · simp [hs]

/-- A string whose length fits in 32 bits is read back. -/
theorem decodes_readString {s : Bytes} (hs : s.length < 2 ^ 32) :
    Decodes readString (writeString s).flatten s := by
  rw [flatten_writeString]
  refine (decodes_readUint32 _).bind ?_
  have hlen : (UInt32.ofNat s.length).toNat = s.length := by
    rw [UInt32.toNat_ofNat']
    exact Nat.mod_eq_of_lt hs
  rw [hlen]
  exact Decodes.bytes s

/-- The bytes of several writes for each item of a list. -/
theorem flatten_flatMap {α : Type} (f : α → List Bytes) (l : List α) :
    (l.flatMap f).flatten = l.flatMap fun a => (f a).flatten := by
  simp only [List.flatten_eq_flatMap, List.flatMap_assoc]

/-- Elements whose lengths fit in 32 bits are read back. -/
theorem decodes_readElements {l : List Bytes} (hl : ∀ s ∈ l, s.length < 2 ^ 32) :
    Decodes (readElements l.length) (l.flatMap writeString).flatten l := by
  have hstep : ∀ s ∈ l, ∀ acc : List Bytes, Decodes
      (do let elem ← readString; return acc ++ [elem]) (writeString s).flatten (acc ++ [s]) :=
    fun s hs acc => (decodes_readString (hl s hs)).bind_nil (Decodes.pure _)
  have hloop := Decodes.iterate l hstep []
  rw [foldl_concat_eq_append, List.nil_append] at hloop
  rw [flatten_flatMap]
  exact hloop

/-! ### Entries -/

/-- The lengths in an entry fit into the 32 bits that they are written with. -/
def DumpValue.Encodable : DumpValue → Prop
  | .str value => value.length < 2 ^ 32
  | .list elements => elements.length < 2 ^ 32 ∧ ∀ s ∈ elements, s.length < 2 ^ 32

/-- The lengths in an entry fit into the 32 bits that they are written with. -/
structure DumpEntry.Encodable (e : DumpEntry) : Prop where
  /-- The key. -/
  key : e.key.length < 2 ^ 32
  /-- The value. -/
  value : e.value.Encodable

/-- The lifetime that is written for an entry. -/
def DumpEntry.ttlMs (t : TimePoint) (e : DumpEntry) : Option Int64 :=
  e.deadline.map (remainingMs t)

/-- The bytes of an entry. -/
def DumpEntry.code (t : TimePoint) (e : DumpEntry) : Bytes :=
  (e.chunks t).flatten

/-- What loading an entry adds to the snapshot. -/
def DumpEntry.add (t t' : TimePoint) (snapshot : DatabaseSnapshot) (e : DumpEntry) :
    DatabaseSnapshot :=
  addEntry t' snapshot e.key e.value (e.ttlMs t)

/-- The bytes of an entry, part by part. -/
theorem DumpEntry.code_eq (t : TimePoint) (e : DumpEntry) :
    e.code t = [e.value.typeTag] ++ ([e.flags] ++ ((writeString e.key).flatten ++
      (e.value.chunks.flatten ++ (e.ttlChunks t).flatten))) := by
  simp [DumpEntry.code, DumpEntry.chunks]

/-- The flags of an entry announce its lifetime. -/
theorem DumpEntry.hasTtl_flags (e : DumpEntry) :
    (e.flags &&& flagHasTtl != 0) = e.deadline.isSome := by
  unfold DumpEntry.flags flagHasTtl
  cases e.deadline with
  | none => decide
  | some deadline =>
    simp only [Option.isSome_some, if_true]
    decide

/-- The lifetime of an entry is read back. -/
theorem DumpEntry.decodes_readTtl (t : TimePoint) (e : DumpEntry) :
    Decodes (readTtl e.deadline.isSome) (e.ttlChunks t).flatten (e.ttlMs t) := by
  unfold readTtl DumpEntry.ttlChunks DumpEntry.ttlMs
  cases e.deadline with
  | none => exact Decodes.pure none
  | some deadline =>
    simp only [List.flatten_singleton]
    exact (decodes_readInt64 _).bind_nil (Decodes.pure _)

/-- One round of the loop of `load` reads one entry. -/
theorem DumpEntry.decodes_loadEntry {e : DumpEntry} (he : e.Encodable) (t t' : TimePoint)
    (snapshot : DatabaseSnapshot) :
    Decodes (loadEntry t' snapshot) (e.code t) (e.add t t' snapshot) := by
  rw [e.code_eq t]
  unfold loadEntry
  refine (decodes_readByte e.value.typeTag).bind ((decodes_readByte e.flags).bind ?_)
  refine (decodes_readString he.key).bind ?_
  simp only [e.hasTtl_flags]
  have hvalue := he.value
  cases hv : e.value with
  | str value =>
    rw [hv] at hvalue
    simp only [DumpValue.typeTag, if_true]
    refine (decodes_readString hvalue).bind ?_
    refine (e.decodes_readTtl t).bind_nil ?_
    rw [DumpEntry.add, hv]
    exact Decodes.pure _
  | list elements =>
    rw [hv] at hvalue
    obtain ⟨hcount, helems⟩ := hvalue
    have hlen : (UInt32.ofNat elements.length).toNat = elements.length := by
      rw [UInt32.toNat_ofNat']
      exact Nat.mod_eq_of_lt hcount
    have htag : typeList ≠ typeString := by decide
    simp only [DumpValue.typeTag, if_neg htag, if_true, DumpValue.chunks, List.flatten_cons,
      List.append_assoc]
    refine (decodes_readUint32 _).bind ?_
    rw [hlen]
    refine (decodes_readElements helems).bind ?_
    refine (e.decodes_readTtl t).bind_nil ?_
    rw [DumpEntry.add, hv]
    exact Decodes.pure _

/-! ### The whole file -/

/-- All entries that `save` writes: the strings, then the lists. -/
def dumpEntries (t : TimePoint) (snapshot : DatabaseSnapshot) : List DumpEntry :=
  stringEntries t snapshot ++ listEntries t snapshot

/-- The dump without its checksum. -/
def dumpBody (t : TimePoint) (snapshot : DatabaseSnapshot) : Bytes :=
  (snapshotChunks t snapshot).flatten

/-- The file that `save` writes when nothing fails. -/
def dump (t : TimePoint) (snapshot : DatabaseSnapshot) : Bytes :=
  dumpBody t snapshot ++ writeUint32 (checksum (dumpBody t snapshot))

/-- The dump is the header, the entries and the checksum. -/
theorem dumpBody_eq (t : TimePoint) (snapshot : DatabaseSnapshot) :
    dumpBody t snapshot = magic ++ (writeUint32 (entryCount t snapshot) ++
      (dumpEntries t snapshot).flatMap (·.code t)) := by
  unfold dumpBody snapshotChunks DumpEntry.code
  rw [List.flatten_append, flatten_flatMap]
  simp [dumpEntries]

/-- A counting loop counts the keys that have not expired. -/
theorem countEntries_eq (t : TimePoint) (snapshot : DatabaseSnapshot) (keys : List Bytes)
    (n : UInt32) : countEntries t snapshot keys n =
      n + UInt32.ofNat (keys.countP fun key => !snapshot.isExpiredUnlocked t key) := by
  unfold countEntries
  induction keys generalizing n with
  | nil => simp
  | cons key keys ih =>
    rw [List.foldl_cons, ih]
    by_cases hexp : snapshot.isExpiredUnlocked t key = true
    · simp [hexp]
    · simp only [hexp, if_false, Bool.false_eq_true, Bool.not_false, List.countP_cons_of_pos,
        UInt32.ofNat_add]
      rw [UInt32.add_assoc, UInt32.add_comm 1]
      rfl

/-- The keys of a map that have not expired are as many as its entries that have not. -/
theorem countP_keys {V : Type} (m : UnorderedMap Bytes V) (p : Bytes → Bool) :
    m.keys.countP p = (m.entries.filter fun e => p e.1).length := by
  rw [← List.countP_eq_length_filter]
  exact List.countP_map

/-- The header count is the number of entries written, on 32 bits. -/
theorem entryCount_eq (t : TimePoint) (snapshot : DatabaseSnapshot) :
    entryCount t snapshot = UInt32.ofNat (dumpEntries t snapshot).length := by
  unfold entryCount dumpEntries stringEntries listEntries
  rw [countEntries_eq, countEntries_eq, countP_keys, countP_keys, List.length_append,
    List.length_map, List.length_map, UInt32.ofNat_add, UInt32.zero_add]

/-- The entries that are loaded from a dump: as many of the first ones as the header announces. -/
def loadedEntries (t : TimePoint) (snapshot : DatabaseSnapshot) : List DumpEntry :=
  (dumpEntries t snapshot).take (entryCount t snapshot).toNat

/-- The header does not announce more entries than are written. -/
theorem length_loadedEntries (t : TimePoint) (snapshot : DatabaseSnapshot) :
    (loadedEntries t snapshot).length = (entryCount t snapshot).toNat := by
  unfold loadedEntries
  rw [List.length_take, entryCount_eq, UInt32.toNat_ofNat']
  exact Nat.min_eq_left (Nat.mod_le _ _)

/-- The header and the entries are read back, whatever follows them. -/
theorem run_loadEntries_dumpBody {t : TimePoint} {snapshot : DatabaseSnapshot}
    (henc : ∀ e ∈ dumpEntries t snapshot, e.Encodable) (t' : TimePoint) (more : Bytes) :
    ∃ rest, (loadEntries t').run (dumpBody t snapshot ++ more) =
      some ((loadedEntries t snapshot).foldl (DumpEntry.add t t') Database.empty, rest) := by
  have hloop := Decodes.iterate (loadedEntries t snapshot)
    (fun e he snap => DumpEntry.decodes_loadEntry (henc e (List.mem_of_mem_take he)) t t' snap)
    Database.empty
  rw [length_loadedEntries] at hloop
  have hheader : Decodes (loadEntries t') (magic ++ (writeUint32 (entryCount t snapshot) ++
      (loadedEntries t snapshot).flatMap (·.code t)))
      ((loadedEntries t snapshot).foldl (DumpEntry.add t t') Database.empty) := by
    unfold loadEntries
    refine (Decodes.bytes magic).bind ?_
    simp only [ne_eq, not_true_eq_false, if_false]
    exact (decodes_readUint32 _).bind hloop
  have hsplit : dumpBody t snapshot ++ more = (magic ++ (writeUint32 (entryCount t snapshot) ++
      (loadedEntries t snapshot).flatMap (·.code t))) ++
      (((dumpEntries t snapshot).drop (entryCount t snapshot).toNat).flatMap (·.code t) ++
        more) := by
    rw [dumpBody_eq]
    simp only [List.append_assoc, loadedEntries]
    rw [← List.append_assoc (List.flatMap _ _), ← List.flatMap_append, List.take_append_drop]
  rw [hsplit]
  exact ⟨_, hheader _⟩

/-- They are read back from the dump. -/
theorem run_loadEntries_dump {t : TimePoint} {snapshot : DatabaseSnapshot}
    (henc : ∀ e ∈ dumpEntries t snapshot, e.Encodable) (t' : TimePoint) :
    ∃ rest, (loadEntries t').run (dump t snapshot) =
      some ((loadedEntries t snapshot).foldl (DumpEntry.add t t') Database.empty, rest) :=
  run_loadEntries_dumpBody henc t' _

/-- The size check and the checksum accept every dump, so that loading it depends on the entries
alone. -/
theorem load_dump_of_run {t t' : TimePoint} {snapshot snapshot' : DatabaseSnapshot} {rest : Bytes}
    (hentries : (loadEntries t').run (dump t snapshot) = some (snapshot', rest)) (db : Database) :
    load t' (some (dump t snapshot)) db = (true, snapshot') := by
  have hcrcLen : ∀ v, (writeUint32 v).length = 4 := fun _ => rfl
  have hlen : (dump t snapshot).length = (dumpBody t snapshot).length + 4 := by
    rw [dump, List.length_append, hcrcLen]
  have hbody : 13 ≤ (dumpBody t snapshot).length := by
    rw [dumpBody_eq, List.length_append, List.length_append, hcrcLen]
    change 13 ≤ 9 + (4 + _)
    omega
  have hsize : ¬ (dump t snapshot).length < magicLen + 4 + 4 := by
    rw [hlen]
    unfold magicLen
    omega
  have hdata : (dump t snapshot).length - 4 = (dumpBody t snapshot).length := by
    rw [hlen, Nat.add_sub_cancel]
  have hstored : readUint32.run ((dump t snapshot).drop (dumpBody t snapshot).length) =
      some (checksum (dumpBody t snapshot), []) := by
    rw [dump, List.drop_left, ← List.append_nil (writeUint32 _)]
    exact decodes_readUint32 _ []
  have hcomputed : computeCrc32 (some (dump t snapshot)) (dumpBody t snapshot).length =
      checksum (dumpBody t snapshot) := by
    rw [computeCrc32_some, dump, List.take_left]
  rw [loadEntries] at hentries
  unfold load loadWith
  simp only [hsize, if_false, hdata, hstored, hcomputed, hentries, ne_eq, not_true_eq_false]

/-- `load` accepts the file that `save` writes, and reads the entries back. -/
theorem load_dump {t : TimePoint} {snapshot : DatabaseSnapshot}
    (henc : ∀ e ∈ dumpEntries t snapshot, e.Encodable) (t' : TimePoint) (db : Database) :
    load t' (some (dump t snapshot)) db =
      (true, (loadedEntries t snapshot).foldl (DumpEntry.add t t') Database.empty) := by
  obtain ⟨rest, hentries⟩ := run_loadEntries_dump henc t'
  exact load_dump_of_run hentries db

end MyRedis.Persistence
