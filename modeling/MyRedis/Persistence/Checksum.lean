import MyRedis.Foundation.Crc
import MyRedis.Persistence.RoundTrip

/-!
# The checksum

`compute_crc32` looks up the effect of a byte in a table of 256 words, which the constructor of
`CRC32TableInit` fills once, and reads the file in blocks of 4096 bytes.  This file has that code as
it stands: the array with its filling loop, the stream with its state, and the reading loop without
a bound on its rounds (`none` if it has not come to its end after the given number of them).

The cyclic redundancy check itself is defined on the bits of the file, one after the other
(`plainCrc32`).  `computeCrc32Table_eq_plainCrc32` says that the code computes it.
-/

namespace MyRedis.Persistence

open Foundation

/-! ### The checksum as a cyclic redundancy check -/

/-- The polynomial of the checksum. -/
def crc32Poly : BitVec 32 := 0xEDB88320

/-- One round of `generate_crc32_entry`. -/
theorem toBitVec_crc32Bit (crc : UInt32) :
    (crc32Bit crc).toBitVec = crcBit crc32Poly crc.toBitVec := by
  have hlow : (crc &&& 1 ≠ 0) ↔ crc.toBitVec.getLsbD 0 = true := by
    have hone : (crc &&& 1).toBitVec =
        BitVec.setWidth 32 (BitVec.ofBool (crc.toBitVec.getLsbD 0)) := by
      rw [UInt32.toBitVec_and]
      exact BitVec.and_one_eq_setWidth_ofBool_getLsbD
    rw [ne_eq, ← UInt32.toBitVec_inj, hone]
    cases crc.toBitVec.getLsbD 0 with
    | false => decide
    | true => decide
  unfold crc32Bit crcBit
  by_cases h : crc.toBitVec.getLsbD 0 = true
  · rw [if_pos (hlow.mpr h), if_pos h, UInt32.toBitVec_xor, UInt32.toBitVec_shiftRight]
    rfl
  · rw [if_neg (mt hlow.mp h), if_neg h, UInt32.toBitVec_shiftRight]
    rfl

/-- An entry of the lookup table. -/
theorem toBitVec_generateCrc32Entry (index : UInt32) :
    (generateCrc32Entry index).toBitVec = (crcBit crc32Poly)^[8] index.toBitVec := by
  have hsemi : Function.Semiconj UInt32.toBitVec crc32Bit (crcBit crc32Poly) := toBitVec_crc32Bit
  exact hsemi.iterate_right 8 index

/-- The table is looked up at the lowest byte. -/
theorem toBitVec_lowByte (x : UInt32) :
    (x &&& 0xFF).toUInt8.toUInt32.toBitVec = x.toBitVec &&& BitVec.ofNat 32 255 := by
  rw [toBitVec_lastField32]
  apply BitVec.eq_of_getLsbD_eq
  intro i hi
  rw [getLsbD_byteField _ hi rfl, BitVec.getLsbD_and, getLsbD_mask hi, Bool.and_comm]
  congr 1
  exact decide_eq_decide.mpr (by omega)

/-- The effect of one byte on the checksum. -/
theorem toBitVec_crc32Byte (crc : UInt32) (byte : UInt8) :
    (crc32Byte crc byte).toBitVec = crcByte crc32Poly crc.toBitVec byte.toBitVec := by
  have hbyte : (byte.toBitVec.setWidth 32) >>> 8 = 0#32 := by
    apply BitVec.eq_of_getLsbD_eq
    intro i hi
    rw [BitVec.getLsbD_ushiftRight, BitVec.getLsbD_setWidth,
      BitVec.getLsbD_of_ge byte.toBitVec (8 + i) (Nat.le_add_right 8 i)]
    simp
  have hshift : (crc >>> 8).toBitVec = crc.toBitVec >>> 8 := UInt32.toBitVec_shiftRight crc 8
  unfold crc32Byte crcByte
  rw [iterate_crcBit_eight crc32Poly (crc.toBitVec ^^^ _), BitVec.ushiftRight_xor_distrib, hbyte,
    BitVec.xor_zero, UInt32.toBitVec_xor, toBitVec_generateCrc32Entry, toBitVec_lowByte, hshift,
    UInt32.toBitVec_xor, UInt8.toBitVec_toUInt32, BitVec.xor_comm]

/-- The register after a byte string. -/
theorem toBitVec_foldl_crc32Byte (bytes : Bytes) (crc : UInt32) :
    (bytes.foldl crc32Byte crc).toBitVec =
      (bytes.map UInt8.toBitVec).foldl (crcByte crc32Poly) crc.toBitVec := by
  rw [List.foldl_map]
  exact (List.foldl_hom UInt32.toBitVec fun crc byte => (toBitVec_crc32Byte crc byte).symm).symm

/-! ### The check, bit by bit -/

/-- The CRC-32 of a byte string: every bit is shifted through the register, the lowest bit of a byte
first. -/
def plainCrc32 (bytes : Bytes) : UInt32 :=
  let bits := (bytes.map UInt8.toBitVec).flatMap byteBits
  ⟨bits.foldl (crcMessageBit crc32Poly) 0xFFFFFFFF ^^^ 0xFFFFFFFF⟩

/-- The bytewise checksum is this check. -/
theorem checksum_eq_plainCrc32 (bytes : Bytes) : checksum bytes = plainCrc32 bytes := by
  apply UInt32.toBitVec_inj.mp
  rw [checksum, UInt32.toBitVec_xor, toBitVec_foldl_crc32Byte,
    foldl_crcByte_eq_foldl crc32Poly (by decide)]
  rfl

/-! ### The table -/

/-- The loop of the constructor `CRC32TableInit`, after a number of rounds on an array with any
contents. -/
def fillTable (memory : Vector UInt32 256) : ℕ → Vector UInt32 256
  | 0 => memory
  | i + 1 => (fillTable memory i).setIfInBounds i (generateCrc32Entry (UInt32.ofNat i))

/-- `crc32_init.table`. -/
def crc32Table (memory : Vector UInt32 256) : Vector UInt32 256 := fillTable memory 256

/-- The entries that have been filled. -/
theorem getElem_fillTable (memory : Vector UInt32 256) {n i : ℕ} (hn : n ≤ 256) (hi : i < n) :
    (fillTable memory n)[i] = generateCrc32Entry (UInt32.ofNat i) := by
  induction n with
  | zero => exact absurd hi (Nat.not_lt_zero i)
  | succ n ih =>
    simp only [fillTable]
    rw [Vector.getElem_setIfInBounds]
    by_cases h : n = i
    · rw [if_pos h, h]
    · rw [if_neg h]
      exact ih (Nat.le_of_succ_le hn) (lt_of_le_of_ne (Nat.le_of_lt_succ hi) (Ne.symm h))

/-- All entries of the table. -/
theorem getElem_crc32Table (memory : Vector UInt32 256) (index : UInt8) :
    (crc32Table memory)[index.toFin] = generateCrc32Entry index.toUInt32 := by
  have hindex : UInt32.ofNat index.toNat = index.toUInt32 := by
    simp
  rw [← hindex, crc32Table]
  exact getElem_fillTable memory (Nat.le_refl 256) index.toNat_lt

/-- The loop body of `compute_crc32` for one byte of the buffer. -/
def crc32Lookup (table : Vector UInt32 256) (crc : UInt32) (byte : UInt8) : UInt32 :=
  let index := ((crc ^^^ byte.toUInt32) &&& 0xFF).toUInt8
  (crc >>> 8) ^^^ table[index.toFin]

/-- The table has the entry that is needed. -/
theorem crc32Lookup_crc32Table (memory : Vector UInt32 256) :
    crc32Lookup (crc32Table memory) = crc32Byte := by
  funext crc byte
  rw [crc32Lookup, crc32Byte, getElem_crc32Table]

/-! ### The reading loop -/

/-- A `std::ifstream`: the bytes that have not been read, and whether no read has failed. -/
structure InStream where
  /-- The bytes that have not been read. -/
  rest : Bytes
  /-- The state. -/
  good : Bool

/-- `in.read`: the bytes that `gcount` counts, and the stream afterwards.  A read that does not get
as many bytes as it asked for fails, and from then on nothing is read. -/
def InStream.read (n : ℕ) (stream : InStream) : Bytes × InStream :=
  if stream.good then
    (stream.rest.take n, ⟨stream.rest.drop n, decide (n ≤ stream.rest.length)⟩)
  else ([], stream)

/-- The reading loop of `compute_crc32`; `none` if it does not end within the given number of
rounds. -/
def crc32Rounds (table : Vector UInt32 256) : ℕ → InStream → ℕ → UInt32 → Option UInt32
  | 0, _, _, _ => none
  | rounds + 1, stream, remaining, crc =>
    if 0 < remaining ∧ stream.good = true then
      let toRead := min remaining chunkSize
      let buffer := (stream.read toRead).1
      crc32Rounds table rounds (stream.read toRead).2 (remaining - buffer.length)
        (buffer.foldl (crc32Lookup table) crc)
    else some crc

/-- `Persistence::compute_crc32`, on what the opened file delivers; `none` if the reading loop does
not end within the given number of rounds. -/
def computeCrc32Table (table : Vector UInt32 256) (rounds : ℕ) (file : Option Bytes)
    (length : ℕ) : Option UInt32 :=
  match file with
  | none => some 0
  | some content =>
    (crc32Rounds table rounds ⟨content, true⟩ length 0xFFFFFFFF).map (· ^^^ 0xFFFFFFFF)

/-- The loop ends after at most one round for each byte and one more, and has then read the first
`remaining` bytes. -/
theorem crc32Rounds_eq (memory : Vector UInt32 256) {rounds : ℕ} (rest : Bytes) {remaining : ℕ}
    (hrounds : remaining < rounds) (crc : UInt32) :
    crc32Rounds (crc32Table memory) rounds ⟨rest, true⟩ remaining crc =
      some ((rest.take remaining).foldl crc32Byte crc) := by
  induction rounds generalizing rest remaining crc with
  | zero => exact absurd hrounds (Nat.not_lt_zero _)
  | succ rounds ih =>
    rw [crc32Rounds, crc32Lookup_crc32Table]
    by_cases hzero : remaining = 0
    · rw [if_neg (by simp [hzero]), hzero]
      rfl
    have hpos : 0 < min remaining chunkSize := by
      unfold chunkSize
      omega
    rw [if_pos ⟨Nat.pos_of_ne_zero hzero, rfl⟩]
    simp only [InStream.read, if_true]
    by_cases hshort : min remaining chunkSize ≤ rest.length
    · have hlength : (rest.take (min remaining chunkSize)).length = min remaining chunkSize :=
        List.length_take_of_le hshort
      rw [decide_eq_true hshort, hlength, ih _ (by omega), ← List.foldl_append, ← List.take_add,
        Nat.add_sub_cancel' (Nat.min_le_left _ _)]
    · -- the file has ended, and the failed stream ends the loop
      obtain ⟨rounds, rfl⟩ : ∃ n, rounds = n + 1 := Nat.exists_eq_succ_of_ne_zero (by omega)
      rw [decide_eq_false hshort, crc32Rounds, if_neg (by simp),
        List.take_of_length_le (by omega), List.take_of_length_le (by omega)]

/-- The table and the state of the stream make no difference to the checksum that `save` and `load`
use. -/
theorem computeCrc32Table_eq (memory : Vector UInt32 256) (file : Option Bytes) {length rounds : ℕ}
    (hrounds : length < rounds) :
    computeCrc32Table (crc32Table memory) rounds file length = some (computeCrc32 file length) := by
  rcases file with _ | content
  · rfl
  · rw [computeCrc32Table, crc32Rounds_eq memory content hrounds, computeCrc32_some]
    rfl

/-- **The checksum is the plain one.**  For every file and every length, whatever was in the memory
of the table before it was filled: the reading loop of `compute_crc32` ends, after at most one round
for each byte and one more, and the result is the CRC-32 of the first `length` bytes of the file,
computed bit by bit. -/
theorem computeCrc32Table_eq_plainCrc32 (memory : Vector UInt32 256) (content : Bytes)
    {length rounds : ℕ} (hrounds : length < rounds) :
    computeCrc32Table (crc32Table memory) rounds (some content) length =
      some (plainCrc32 (content.take length)) := by
  rw [computeCrc32Table_eq memory _ hrounds, computeCrc32_some, checksum_eq_plainCrc32]

/-- The usual test vector: the digits `1` to `9`, followed by a byte that is not counted. -/
theorem computeCrc32Table_digits :
    computeCrc32Table (crc32Table (Vector.replicate 256 0)) 10 (some (ascii "123456789A")) 9 =
      some 0xCBF43926 := by
  have hplain : plainCrc32 ((ascii "123456789A").take 9) = 0xCBF43926 := by decide +kernel
  rw [computeCrc32Table_eq_plainCrc32 _ _ (by decide), hplain]

end MyRedis.Persistence
