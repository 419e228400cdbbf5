import MyRedis.Database.Basic
import MyRedis.Foundation.ByteOrder
import MyRedis.Foundation.FileProgram

/-!
# Saving and loading the database

The dump files of `persistence.h` and `persistence.cpp`: the binary helpers, the checksum,
`Persistence::save` and `Persistence::load`.

`save` is a program over the file system, request by request, with every early return of the
source.  `load` is a function of the bytes that the opened file delivers, and of the clock reading
made during the call; every failed read makes it return `false` before the database is touched.
Messages on the console are left out.
-/

namespace MyRedis

open Foundation

/-- A `DatabaseSnapshot`: copies of the three maps of the database. -/
abbrev DatabaseSnapshot := Database

/-- Nanoseconds per millisecond. -/
def nsPerMs : ℤ := 1000000

namespace Persistence

/-- The first bytes of a dump file. -/
def magic : Bytes := ascii "MYREDIS01"

/-- The length of `magic`. -/
def magicLen : ℕ := 9

/-- The tag of a string entry. -/
def typeString : UInt8 := 0x00

/-- The tag of a list entry. -/
def typeList : UInt8 := 0x01

/-- The flag of an entry that ends with a remaining lifetime. -/
def flagHasTtl : UInt8 := 0x01

/-! ### The checksum -/

/-- One round of the loop of `generate_crc32_entry`. -/
def crc32Bit (crc : UInt32) : UInt32 :=
  if crc &&& 1 ≠ 0 then (crc >>> 1) ^^^ 0xEDB88320 else crc >>> 1

/-- An entry of the lookup table: eight rounds on the index. -/
def generateCrc32Entry (index : UInt32) : UInt32 :=
  crc32Bit^[8] index

/-- The effect of one byte on the checksum; the table is indexed by a byte. -/
def crc32Byte (crc : UInt32) (byte : UInt8) : UInt32 :=
  let index := ((crc ^^^ byte.toUInt32) &&& 0xFF).toUInt8
  (crc >>> 8) ^^^ generateCrc32Entry index.toUInt32

/-- The size of the buffer of `compute_crc32`. -/
def chunkSize : ℕ := 4096

/-- The reading loop of `compute_crc32`.  A read that delivers fewer bytes than asked for leaves
the stream in a failed state, which ends the loop.  Every other round reads at least one byte, so
`fuel` need not exceed the number of bytes to read. -/
def crc32Loop : ℕ → Bytes → ℕ → UInt32 → UInt32
  | 0, _, _, crc => crc
  | fuel + 1, stream, remaining, crc =>
    if remaining = 0 then crc
    else
      let toRead := min remaining chunkSize
      let buffer := stream.take toRead
      let crc := buffer.foldl crc32Byte crc
      if buffer.length < toRead then crc
      else crc32Loop fuel (stream.drop toRead) (remaining - buffer.length) crc

/-- `compute_crc32` on what the opened file delivers; `none` if it cannot be opened. -/
def computeCrc32 (file : Option Bytes) (length : ℕ) : UInt32 :=
  match file with
  | none => 0
  | some stream => crc32Loop length stream length 0xFFFFFFFF ^^^ 0xFFFFFFFF

/-! ### Writing -/

/-- The bytes of `write_uint32`, most significant first. -/
def writeUint32 (val : UInt32) : Bytes := wordBytes val

/-- The bytes of `write_int64`, most significant first. -/
def writeInt64 (val : Int64) : Bytes :=
  let uval := val.toUInt64
  [((uval >>> 56) &&& 0xFF).toUInt8, ((uval >>> 48) &&& 0xFF).toUInt8,
    ((uval >>> 40) &&& 0xFF).toUInt8, ((uval >>> 32) &&& 0xFF).toUInt8,
    ((uval >>> 24) &&& 0xFF).toUInt8, ((uval >>> 16) &&& 0xFF).toUInt8,
    ((uval >>> 8) &&& 0xFF).toUInt8, (uval &&& 0xFF).toUInt8]

/-- The writes of `write_string`: the length as 32 bits, then the bytes if there are any. -/
def writeString (s : Bytes) : List Bytes :=
  writeUint32 (UInt32.ofNat s.length) :: if s = [] then [] else [s]

/-- The value of an entry of a dump file. -/
inductive DumpValue where
  | str (value : Bytes)
  | list (elements : List Bytes)
deriving DecidableEq

/-- What the writing loops of `save` see in one round: a key, its value and its deadline. -/
structure DumpEntry where
  /-- The key. -/
  key : Bytes
  /-- The value. -/
  value : DumpValue
  /-- The deadline, if the key has one. -/
  deadline : Option TimePoint
deriving DecidableEq

/-- The remaining lifetime in milliseconds, truncated by `duration_cast`. -/
def remainingMs (now deadline : TimePoint) : Int64 :=
  Int64.ofInt ((deadline - now).tdiv nsPerMs)

/-- The type tag of an entry. -/
def DumpValue.typeTag : DumpValue → UInt8
  | .str _ => typeString
  | .list _ => typeList

/-- The writes for a value: a string, or an element count and the elements. -/
def DumpValue.chunks : DumpValue → List Bytes
  | .str value => writeString value
  | .list elements =>
    writeUint32 (UInt32.ofNat elements.length) :: elements.flatMap writeString

/-- The flags byte of an entry. -/
def DumpEntry.flags (e : DumpEntry) : UInt8 :=
  if e.deadline.isSome then flagHasTtl else 0

/-- The writes for the remaining lifetime. -/
def DumpEntry.ttlChunks (now : TimePoint) (e : DumpEntry) : List Bytes :=
  match e.deadline with
  | none => []
  | some deadline => [writeInt64 (remainingMs now deadline)]

/-- The writes of one round of the loops of `save`. -/
def DumpEntry.chunks (now : TimePoint) (e : DumpEntry) : List Bytes :=
  [[e.value.typeTag], [e.flags]] ++ writeString e.key ++ e.value.chunks ++ e.ttlChunks now

/-- The string entries that are written: those that have not expired, in iteration order. -/
def stringEntries (now : TimePoint) (snapshot : DatabaseSnapshot) : List DumpEntry :=
  (snapshot.store.entries.filter fun e => !snapshot.isExpiredUnlocked now e.1).map fun e =>
    ⟨e.1, .str e.2, snapshot.expiry.lookup e.1⟩

/-- The list entries that are written: those that have not expired, in iteration order. -/
def listEntries (now : TimePoint) (snapshot : DatabaseSnapshot) : List DumpEntry :=
  (snapshot.listStore.entries.filter fun e => !snapshot.isExpiredUnlocked now e.1).map fun e =>
    ⟨e.1, .list e.2, snapshot.expiry.lookup e.1⟩

/-- One counting loop of `save`, on the keys of a map. -/
def countEntries (now : TimePoint) (snapshot : DatabaseSnapshot) (keys : List Bytes)
    (entryCount : UInt32) : UInt32 :=
  keys.foldl (fun n key => if snapshot.isExpiredUnlocked now key then n else n + 1) entryCount

/-- The number of entries in the header, counted in a pass of its own, on 32 bits. -/
def entryCount (now : TimePoint) (snapshot : DatabaseSnapshot) : UInt32 :=
  countEntries now snapshot snapshot.listStore.keys
    (countEntries now snapshot snapshot.store.keys 0)

/-- All writes to the temporary file before the checksum. -/
def snapshotChunks (now : TimePoint) (snapshot : DatabaseSnapshot) : List Bytes :=
  [magic, writeUint32 (entryCount now snapshot)] ++
    (stringEntries now snapshot ++ listEntries now snapshot).flatMap (·.chunks now)

/-- Consecutive writes to one output stream: after a failed write the stream ignores the others.
The result is `out.good()`. -/
def writeChunks (path : Bytes) : List Bytes → FileProgram Bytes Bool
  | [] => pure true
  | chunk :: chunks => do
    let ok ← .perform (.write path chunk)
    if ok then writeChunks path chunks else pure false

/-- The name of the temporary file. -/
def tmpPath (filepath : Bytes) : Bytes := filepath ++ ascii ".tmp"

/-- `out.flush()` does nothing on a stream that has failed.  The result is `out.good()`. -/
def flush (path : Bytes) (good : Bool) : FileProgram Bytes Bool :=
  if good then .perform (.flush path) else pure false

/-- The first part of `save`: the temporary file is written, flushed and closed. -/
def writeTemporary (tmp : Bytes) (chunks : List Bytes) : FileProgram Bytes Bool := do
  let opened ← .perform (.openTrunc tmp)
  if !opened then
    return false
  let written ← writeChunks tmp chunks
  let good ← flush tmp written
  if !good then
    let _ ← .perform (.close tmp)
    let _ ← .perform (.remove tmp)
    return false
  let _ ← .perform (.close tmp)
  return true

/-- The second part of `save`: the temporary file is read back for its checksum, which is appended.
The outcomes of the last write and of the last `close` are not looked at. -/
def appendCrc32 (tmp : Bytes) : FileProgram Bytes Bool := do
  let size ← .perform (.fileSize tmp)
  match size with
  | none =>
    let _ ← .perform (.remove tmp)
    return false
  | some dataSize =>
    let contents ← .perform (.readFile tmp)
    let crc := computeCrc32 contents dataSize
    let opened ← .perform (.openAppend tmp)
    if !opened then
      let _ ← .perform (.remove tmp)
      return false
    let _ ← .perform (.write tmp (writeUint32 crc))
    let _ ← .perform (.close tmp)
    return true

/-- The last part of `save`: the old file is removed and the temporary file renamed. -/
def replaceFile (filepath : Bytes) : FileProgram Bytes Bool := do
  let _ ← .perform (.remove filepath)
  let renamed ← .perform (.rename (tmpPath filepath) filepath)
  if !renamed then
    let _ ← .perform (.remove (tmpPath filepath))
    return false
  return true

/-- `Persistence::save`, from the snapshot on; `now` is the clock reading made during the call. -/
def save (filepath : Bytes) (now : TimePoint) (snapshot : DatabaseSnapshot) :
    FileProgram Bytes Bool := do
  let written ← writeTemporary (tmpPath filepath) (snapshotChunks now snapshot)
  if !written then
    return false
  let checked ← appendCrc32 (tmpPath filepath)
  if !checked then
    return false
  replaceFile filepath

/-! ### Reading -/

/-- `read_uint32`. -/
def readUint32 : Decoder UInt32 := do
  let buf ← Decoder.bytes 4
  return ofWordBytes buf

/-- `read_int64`. -/
def readInt64 : Decoder Int64 := do
  match ← Decoder.bytes 8 with
  | [b0, b1, b2, b3, b4, b5, b6, b7] =>
    let uval := b0.toUInt64 <<< 56 ||| b1.toUInt64 <<< 48 ||| b2.toUInt64 <<< 40
      ||| b3.toUInt64 <<< 32 ||| b4.toUInt64 <<< 24 ||| b5.toUInt64 <<< 16
      ||| b6.toUInt64 <<< 8 ||| b7.toUInt64
    return uval.toInt64
  | _ => Decoder.fail

/-- `read_string`. -/
def readString : Decoder Bytes := do
  let len ← readUint32
  Decoder.bytes len.toNat

/-- One byte. -/
def readByte : Decoder UInt8 := do
  match ← Decoder.bytes 1 with
  | [b] => return b
  | _ => Decoder.fail

/-- The remaining lifetime of an entry, if its flags announce one. -/
def readTtl (hasTtl : Bool) : Decoder (Option Int64) := do
  if hasTtl then
    let ttlMs ← readInt64
    return some ttlMs
  else
    return none

/-- The elements of a list, in order. -/
def readElements (elemCount : ℕ) : Decoder (List Bytes) :=
  Decoder.iterate (fun list => do
    let elem ← readString
    return list ++ [elem]) elemCount []

/-- The deadline of an entry with the given lifetime, on a clock that does not overflow. -/
def exactDeadline (now : TimePoint) (ms : Int64) : TimePoint := now + ms.toInt * nsPerMs

/-- Put an entry that was read into the snapshot.  An entry whose lifetime has run out is skipped;
another gets its deadline from its lifetime. -/
def addEntryWith (deadline : Int64 → TimePoint) (snapshot : DatabaseSnapshot) (key : Bytes)
    (value : DumpValue) (ttlMs : Option Int64) : DatabaseSnapshot :=
  if ttlMs.any (· ≤ 0) then snapshot
  else
    let expiry := match ttlMs with
      | none => snapshot.expiry
      | some ms => snapshot.expiry.insert key (deadline ms)
    match value with
    | .str value => { snapshot with store := snapshot.store.insert key value, expiry := expiry }
    | .list list =>
      { snapshot with listStore := snapshot.listStore.insert key list, expiry := expiry }

/-- One round of the loop of `load`. -/
def loadEntryWith (deadline : Int64 → TimePoint) (snapshot : DatabaseSnapshot) :
    Decoder DatabaseSnapshot := do
  let typeTag ← readByte
  let flags ← readByte
  let hasTtl := flags &&& flagHasTtl != 0
  let key ← readString
  if typeTag = typeString then
    let value ← readString
    let ttlMs ← readTtl hasTtl
    return addEntryWith deadline snapshot key (.str value) ttlMs
  else if typeTag = typeList then
    let elemCount ← readUint32
    let list ← readElements elemCount.toNat
    let ttlMs ← readTtl hasTtl
    return addEntryWith deadline snapshot key (.list list) ttlMs
  else
    Decoder.fail

/-- The header and the entries. -/
def loadEntriesWith (deadline : Int64 → TimePoint) : Decoder DatabaseSnapshot := do
  let header ← Decoder.bytes magicLen
  if header ≠ magic then
    Decoder.fail
  else
    let entryCount ← readUint32
    Decoder.iterate (loadEntryWith deadline) entryCount.toNat Database.empty

/-- `Persistence::load` on what the opened file delivers; `none` if it cannot be opened.  How the
clock reading made during the call and a lifetime give a deadline is left open: `load` counts
exactly, `load64` with 64 bits as the source does. -/
def loadWith (deadline : Int64 → TimePoint) (file : Option Bytes) (db : Database) :
    Bool × Database :=
  match file with
  | none => (false, db)
  | some content =>
    if content.length < magicLen + 4 + 4 then (false, db)
    else
      let dataSize := content.length - 4
      let computedCrc := computeCrc32 file dataSize
      match readUint32.run (content.drop dataSize) with
      | none => (false, db)
      | some (storedCrc, _) =>
        if computedCrc ≠ storedCrc then (false, db)
        else
          match (loadEntriesWith deadline).run content with
          | none => (false, db)
          | some (snapshot, _) => (true, snapshot)

/-- Put an entry that was read into the snapshot, with an exact deadline. -/
def addEntry (now : TimePoint) : DatabaseSnapshot → Bytes → DumpValue → Option Int64 →
    DatabaseSnapshot :=
  addEntryWith (exactDeadline now)

/-- One round of the loop of `load`, with exact deadlines. -/
def loadEntry (now : TimePoint) : DatabaseSnapshot → Decoder DatabaseSnapshot :=
  loadEntryWith (exactDeadline now)

/-- The header and the entries, with exact deadlines. -/
def loadEntries (now : TimePoint) : Decoder DatabaseSnapshot :=
  loadEntriesWith (exactDeadline now)

/-- `Persistence::load` at a clock reading, with exact deadlines. -/
def load (now : TimePoint) : Option Bytes → Database → Bool × Database :=
  loadWith (exactDeadline now)

/-- The deadline as the source computes it, on 64-bit counts of nanoseconds that wrap around. -/
def deadline64 (now ms : Int64) : Int64 := now + ms * 1000000

/-- `Persistence::load` at a clock reading, with the arithmetic of the source. -/
def load64 (now : Int64) : Option Bytes → Database → Bool × Database :=
  loadWith fun ms => (deadline64 now ms).toInt

end Persistence

end MyRedis
