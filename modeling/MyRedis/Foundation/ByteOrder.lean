import MyRedis.Foundation.Codec

/-!
# The byte order of a machine

A word stands in memory with its most significant byte first on some machines and last on others.
`htonl` rearranges a word so that it stands in memory in network order, most significant byte first,
and `ntohl` undoes this.  Whatever the byte order, what is sent are the bytes of the word
(`toMemory_htonl`), and the word is read from them (`ntohl_fromMemory`).
-/

namespace Foundation

/-- The bytes of a word, most significant first. -/
def wordBytes (v : UInt32) : Bytes :=
  [((v >>> 24) &&& 0xFF).toUInt8, ((v >>> 16) &&& 0xFF).toUInt8, ((v >>> 8) &&& 0xFF).toUInt8,
    (v &&& 0xFF).toUInt8]

/-- The word with the given bytes. -/
def ofWordBytes : Bytes → UInt32
  | [b0, b1, b2, b3] =>
    b0.toUInt32 <<< 24 ||| b1.toUInt32 <<< 16 ||| b2.toUInt32 <<< 8 ||| b3.toUInt32
  | _ => 0

@[simp] theorem length_wordBytes (v : UInt32) : (wordBytes v).length = 4 := rfl

/-- The bytes of a word give the word back. -/
@[simp] theorem ofWordBytes_wordBytes (v : UInt32) : ofWordBytes (wordBytes v) = v := joinBytes32 v

/-- Four bytes are those of a word. -/
theorem exists_wordBytes {bytes : Bytes} (h : bytes.length = 4) : ∃ v, wordBytes v = bytes :=
  exists_code_of_length word32Equiv length_wordBytes
    (Function.LeftInverse.injective ofWordBytes_wordBytes) h

/-- They are the bytes of the word that they give. -/
theorem wordBytes_ofWordBytes {bytes : Bytes} (h : bytes.length = 4) :
    wordBytes (ofWordBytes bytes) = bytes := by
  obtain ⟨v, rfl⟩ := exists_wordBytes h
  rw [ofWordBytes_wordBytes]

/-- How a machine keeps a word in memory. -/
inductive ByteOrder where
  /-- Least significant byte first. -/
  | little
  /-- Most significant byte first. -/
  | big
deriving DecidableEq

namespace ByteOrder

/-- The bytes of a word in memory. -/
def toMemory : ByteOrder → UInt32 → Bytes
  | .little, v => (wordBytes v).reverse
  | .big, v => wordBytes v

/-- The word that stands in memory. -/
def fromMemory : ByteOrder → Bytes → UInt32
  | .little, bytes => ofWordBytes bytes.reverse
  | .big, bytes => ofWordBytes bytes

/-- `htonl`: the bytes of the word are reversed if the machine is not in network order. -/
def htonl : ByteOrder → UInt32 → UInt32
  | .little, v => ofWordBytes (wordBytes v).reverse
  | .big, v => v

/-- `ntohl`, which does the same. -/
def ntohl (order : ByteOrder) (v : UInt32) : UInt32 := order.htonl v

/-- After `htonl` a word stands in memory in network order. -/
theorem toMemory_htonl (order : ByteOrder) (v : UInt32) :
    order.toMemory (order.htonl v) = wordBytes v := by
  cases order with
  | little =>
    rw [toMemory, htonl, wordBytes_ofWordBytes (List.length_reverse.trans (length_wordBytes v)),
      List.reverse_reverse]
  | big => rfl

/-- What stands in memory in network order is read by `ntohl`. -/
theorem ntohl_fromMemory (order : ByteOrder) (v : UInt32) :
    order.ntohl (order.fromMemory (wordBytes v)) = v := by
  cases order with
  | little =>
    rw [ntohl, htonl, fromMemory,
      wordBytes_ofWordBytes (List.length_reverse.trans (length_wordBytes v)), List.reverse_reverse,
      ofWordBytes_wordBytes]
  | big => exact ofWordBytes_wordBytes v

end ByteOrder

end Foundation
