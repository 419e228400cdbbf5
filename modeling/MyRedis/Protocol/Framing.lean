import MyRedis.Foundation.ByteOrder
import MyRedis.Foundation.PartialReads
import MyRedis.PubSub.Sending

/-!
# The length-prefixed protocol

`protocol.cpp`: a message is sent as its length in network byte order, followed by its bytes, and
read back by reading four bytes, and then as many as they announce.  Both ends work on sockets that
transfer a part of what they are asked for at a time.

The sockets of the sender are those of `Network`.  What the receiver gets is a `Source` of the bytes
that arrive before the connection is closed.  A read may return less than what has arrived, so bytes
that are still on their way are covered by a source that delivers them later.
-/

namespace MyRedis

open Foundation

/-! ### Sending without failures -/

namespace Network

/-- No call of `socket_write` fails. -/
def Reliable (net : Network) : Prop := ∀ i, net.writes i ≠ none

/-- The sockets stay reliable, and the loop of `write_exact` sends everything. -/
theorem Reliable.writeLoop {net : Network} (h : net.Reliable) (sock : Socket) {fuel : ℕ}
    {data : Bytes} (hfuel : data.length ≤ fuel) :
    (net.writeLoop sock fuel data).1 = true ∧ (net.writeLoop sock fuel data).2.Reliable ∧
      (net.writeLoop sock fuel data).2.bytesTo sock = net.bytesTo sock ++ data := by
  induction fuel generalizing data net with
  | zero =>
    obtain rfl := List.length_eq_zero_iff.mp (Nat.le_zero.mp hfuel)
    exact ⟨rfl, h, (List.append_nil _).symm⟩
  | succ fuel ih =>
    rw [Network.writeLoop]
    by_cases hdata : data = []
    · rw [if_pos hdata, hdata, List.append_nil]
      exact ⟨rfl, h, rfl⟩
    · rw [if_neg hdata]
      rcases hwrite : net.writes 0 with _ | more
      · exact absurd hwrite (h 0)
      · have hrest : (data.drop (more + 1)).length ≤ fuel := by
          rw [List.length_drop]
          omega
        have hwrote : (net.wrote [(sock, data.take (more + 1))]).Reliable := fun i => h (i + 1)
        obtain ⟨hok, hreliable, hbytes⟩ := ih hwrote hrest
        refine ⟨hok, hreliable, hbytes.trans ?_⟩
        rw [bytesTo_wrote, if_pos rfl, List.append_assoc, List.take_append_drop]

end Network

namespace Protocol

/-! ### The two ends -/

/-- The largest length that is accepted. -/
def maxLength : ℕ := 64 * 1024 * 1024

/-- `encode` on a machine with the given byte order. -/
def encode (order : ByteOrder) (message : Bytes) : Bytes :=
  order.toMemory (order.htonl (UInt32.ofNat message.length)) ++ message

/-- `send_message`, which is `write_exact` on the encoded message. -/
def sendMessage (order : ByteOrder) (sock : Socket) (message : Bytes) (net : Network) :
    Bool × Network :=
  net.writeLoop sock (encode order message).length (encode order message)

/-- `read_message`: the flag `ok` and the message. -/
def readMessage (order : ByteOrder) (s : Source UInt8) : (Bool × Bytes) × Source UInt8 :=
  match s.readExact 4 with
  | (none, s) => ((false, []), s)
  | (some header, s) =>
    let len := order.ntohl (order.fromMemory header)
    if maxLength < len.toNat then ((false, []), s)
    else
      match s.readExact len.toNat with
      | (none, s) => ((false, []), s)
      | (some message, s) => ((true, message), s)

/-- Send messages one after the other. -/
def sendAll (order : ByteOrder) (sock : Socket) : List Bytes → Network → List Bool × Network
  | [], net => ([], net)
  | message :: messages, net =>
    let sent := sendMessage order sock message net
    let rest := sendAll order sock messages sent.2
    (sent.1 :: rest.1, rest.2)

/-- Read so many messages. -/
def readAll (order : ByteOrder) : ℕ → Source UInt8 → List (Bool × Bytes) × Source UInt8
  | 0, s => ([], s)
  | n + 1, s =>
    let result := readMessage order s
    let rest := readAll order n result.2
    (result.1 :: rest.1, rest.2)

/-! ### Frames -/

/-- A message on the wire. -/
def frame (message : Bytes) : Bytes := wordBytes (UInt32.ofNat message.length) ++ message

/-- Every machine encodes a message in this way. -/
theorem encode_eq_frame (order : ByteOrder) (message : Bytes) :
    encode order message = frame message := by
  rw [encode, frame, ByteOrder.toMemory_htonl]

/-- The bytes end inside of a header, or inside of the payload that a header announces. -/
def EndsInside (bytes : Bytes) : Prop :=
  bytes.length < 4 ∨ ∃ len : UInt32, ∃ payload, bytes = wordBytes len ++ payload ∧
    payload.length < len.toNat

/-- A message whose frame has arrived is read. -/
theorem readMessage_of_frame (order : ByteOrder) {s : Source UInt8} (hs : s.Reliable)
    {message rest : Bytes} (hlength : message.length ≤ maxLength)
    (hpending : s.pending = frame message ++ rest) :
    ∃ s', s'.Reliable ∧ s'.pending = rest ∧ readMessage order s = ((true, message), s') := by
  have hfits : message.length < 2 ^ 32 := lt_of_le_of_lt hlength (by decide)
  have hlen : (UInt32.ofNat message.length).toNat = message.length := by
    rw [UInt32.toNat_ofNat', Nat.mod_eq_of_lt hfits]
  rw [frame, List.append_assoc] at hpending
  obtain ⟨s₁, hs₁, hleft₁, hheader⟩ := Source.exists_readExact hs hpending
  obtain ⟨s₂, hs₂, hleft₂, hpayload⟩ := Source.exists_readExact hs₁ hleft₁
  refine ⟨s₂, hs₂, hleft₂, ?_⟩
  rw [length_wordBytes] at hheader
  rw [readMessage, hheader]
  simp only [ByteOrder.ntohl_fromMemory, hlen, hpayload]
  rw [if_neg (Nat.not_lt.mpr hlength)]

/-- If the bytes end too early, no message is read. -/
theorem readMessage_of_endsInside (order : ByteOrder) {s : Source UInt8}
    (h : EndsInside s.pending) : (readMessage order s).1 = (false, []) := by
  rw [readMessage]
  rcases hheader : s.readExact 4 with ⟨_ | header, s₁⟩
  · rfl
  · obtain ⟨hlength, hsplit, -⟩ := Source.readExact_eq_some hheader
    rcases h with hshort | ⟨len, payload, hpending, hfew⟩
    · rw [hsplit, List.length_append] at hshort
      omega
    · -- the header is whole, so the payload is not
      have hheads : (wordBytes len).length = header.length := by rw [length_wordBytes, hlength]
      obtain ⟨rfl, rfl⟩ := List.append_inj (hpending.symm.trans hsplit) hheads
      simp only [ByteOrder.ntohl_fromMemory]
      split
      · rfl
      · have hnone := Source.readExact_of_lt hfew
        rcases hpayload : s₁.readExact len.toNat with ⟨_ | message, s₂⟩
        · rfl
        · rw [hpayload] at hnone
          cases hnone

/-! ### Sequences of messages -/

/-- The messages arrive as their frames. -/
theorem sendAll_spec (order : ByteOrder) (sock : Socket) (messages : List Bytes) {net : Network}
    (hnet : net.Reliable) :
    (sendAll order sock messages net).1 = List.replicate messages.length true ∧
      (sendAll order sock messages net).2.bytesTo sock =
        net.bytesTo sock ++ messages.flatMap frame := by
  induction messages generalizing net with
  | nil => exact ⟨rfl, (List.append_nil _).symm⟩
  | cons message messages ih =>
    obtain ⟨hok, hreliable, hbytes⟩ :=
      hnet.writeLoop sock (Nat.le_refl (encode order message).length)
    obtain ⟨hrest, hstream⟩ := ih hreliable
    refine ⟨?_, hstream.trans ?_⟩
    · rw [List.length_cons, List.replicate_succ, ← hrest, ← hok]
      rfl
    · rw [hbytes, encode_eq_frame, List.flatMap_cons, List.append_assoc]

/-- Frames are read as their messages. -/
theorem readAll_spec (order : ByteOrder) {messages : List Bytes}
    (hmessages : ∀ m ∈ messages, m.length ≤ maxLength) {s : Source UInt8} (hs : s.Reliable)
    {rest : Bytes} (hpending : s.pending = messages.flatMap frame ++ rest) :
    ∃ s', s'.Reliable ∧ s'.pending = rest ∧
      readAll order messages.length s = (messages.map fun m => (true, m), s') := by
  induction messages generalizing s with
  | nil => exact ⟨s, hs, hpending, rfl⟩
  | cons message messages ih =>
    rw [List.flatMap_cons, List.append_assoc] at hpending
    obtain ⟨s₁, hs₁, hleft₁, hread⟩ :=
      readMessage_of_frame order hs (hmessages message List.mem_cons_self) hpending
    obtain ⟨s₂, hs₂, hleft₂, hrest⟩ :=
      ih (fun m hm => hmessages m (List.mem_cons_of_mem _ hm)) hs₁ hleft₁
    refine ⟨s₂, hs₂, hleft₂, ?_⟩
    rw [List.length_cons, readAll, hread, List.map_cons]
    simp only [hrest]

/-- **The framing of messages.**  However the sockets split what is written and what is read, and
whatever the byte orders of the two machines: messages of at most 64 MiB are sent successfully, and
if their bytes arrive, then the same messages are read in order and with `ok`, up to where they end.
If the bytes that are left end inside of a header or of a payload, the next read returns without
`ok`.  The loop of `read_exact` ends after at most as many rounds as bytes are asked for. -/
theorem framing (sender receiver : ByteOrder) (sock : Socket) {messages : List Bytes}
    (hmessages : ∀ m ∈ messages, m.length ≤ maxLength) {net : Network} (hnet : net.Reliable) :
    ((sendAll sender sock messages net).1 = List.replicate messages.length true ∧
      ∃ stream, (sendAll sender sock messages net).2.bytesTo sock = net.bytesTo sock ++ stream ∧
        ∀ (s : Source UInt8) (rest : Bytes), s.Reliable → s.pending = stream ++ rest →
          ∃ s', s'.Reliable ∧ s'.pending = rest ∧
            readAll receiver messages.length s = (messages.map fun m => (true, m), s')) ∧
      (∀ s : Source UInt8, EndsInside s.pending → (readMessage receiver s).1 = (false, [])) ∧
      ∀ (s : Source UInt8) (n fuel : ℕ), n ≤ fuel →
        Source.readLoop n fuel [] s = s.readExact n := by
  obtain ⟨hok, hstream⟩ := sendAll_spec sender sock messages hnet
  refine ⟨⟨hok, _, hstream, ?_⟩, ?_, ?_⟩
  · intro s rest hs hpending
    exact readAll_spec receiver hmessages hs hpending
  · intro s hends
    exact readMessage_of_endsInside receiver hends
  · intro s n fuel hfuel
    exact Source.readLoop_eq_readExact hfuel s

/-- Two messages, written byte by byte on one machine and read three bytes at a time on another. -/
theorem framing_two_messages :
    let net : Network := ⟨fun _ => some 0, []⟩
    let messages := [ascii "PING", []]
    let sent := (sendAll .little 4 messages net).2.bytesTo 4
    ∃ s', s'.pending = [] ∧
      readAll .big 2 ⟨fun _ => some 2, sent⟩ = ([(true, ascii "PING"), (true, [])], s') := by
  intro net messages sent
  have hnet : net.Reliable := fun _ => Option.some_ne_none _
  have hmessages : ∀ m ∈ messages, m.length ≤ maxLength := by decide
  obtain ⟨⟨-, stream, hstream, hread⟩, -, -⟩ := framing .little .big 4 hmessages hnet
  have hsent : sent = stream := hstream
  obtain ⟨s', -, hrest, hall⟩ := hread ⟨fun _ => some 2, sent⟩ [] (fun _ => Option.some_ne_none _)
    (by rw [hsent, List.append_nil])
  exact ⟨s', hrest, hall⟩

end Protocol

end MyRedis
