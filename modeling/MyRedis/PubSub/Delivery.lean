import MyRedis.Client.Reader
import MyRedis.PubSub.Calls
import MyRedis.PubSub.Sending

/-!
# Who receives a message

`publish` sends to the sockets that the first map has for the channel.  Here the receivers are
described by the history alone: they are the clients for which the last call that concerns them and
the channel was a `subscribe` (`lastEvent`).  The message that they receive is an array of three
strings, which the reader of the client shows as such, as long as the lengths fit into an `int`.
-/

namespace MyRedis

open Foundation SetMap Resp

namespace PubSubManager

/-! ### The sends of a publish -/

/-- The sends of `publish`. -/
def publishSends (channel message : Bytes) (p : PubSubManager) (net : Network) : List Send :=
  match p.channels.lookup channel with
  | none => []
  | some subscribers => deliveries (pushMsg channel message) subscribers.sockets net

section Publish

variable (channel message : Bytes) (p : PubSubManager) (net : Network)

/-- `publish` returns the number of sends that succeed. -/
theorem publish_fst : (p.publish channel message net).1 =
    Int32.ofNat ((p.publishSends channel message net).countP Send.whole) := by
  unfold publish publishSends
  cases p.channels.lookup channel with
  | none => rfl
  | some subscribers => exact deliver_fst _ _ _

/-- The sends are all that `publish` writes. -/
theorem logs_publish :
    net.Logs (p.publishSends channel message net) (p.publish channel message net).2.2 := by
  unfold publish publishSends
  cases p.channels.lookup channel with
  | none => exact net.logs_nil
  | some subscribers => exact logs_deliver _ _ _

/-- `publish` sends to the subscribers of the channel. -/
theorem mem_socket_publishSends {fd : Socket} :
    fd ∈ (p.publishSends channel message net).map Send.socket ↔ p.Listens fd channel := by
  unfold publishSends
  cases hlookup : p.channels.lookup channel with
  | none => simp [Listens, not_holds_of_lookup hlookup]
  | some subscribers => simp [Listens, holds_iff_of_lookup hlookup]

/-- It sends once to each. -/
theorem nodup_socket_publishSends :
    ((p.publishSends channel message net).map Send.socket).Nodup := by
  unfold publishSends
  split
  · exact List.nodup_nil
  · rename_i subscribers _
    rw [map_socket_deliveries]
    exact subscribers.sorted.imp ne_of_lt

/-- Every send is the message, of which a front part goes out. -/
theorem data_publishSends {x : Send} (hx : x ∈ p.publishSends channel message net) :
    x.data = pushMsg channel message ∧ x.written <+: x.data := by
  unfold publishSends at hx
  split at hx
  · cases hx
  · exact data_deliveries hx

/-- The sockets that are dropped are those whose sends fail. -/
theorem mem_deadSockets {fd : Socket} : fd ∈ p.deadSockets channel message net ↔
    ∃ x ∈ p.publishSends channel message net, x.socket = fd ∧ x.whole = false := by
  unfold deadSockets publishSends
  cases p.channels.lookup channel with
  | none => simp
  | some subscribers => exact mem_dead_deliver

end Publish

/-! ### The last event -/

/-- What a call means for a client and a channel: that the client is now in the channel, that it is
no longer, or nothing. -/
def Call.concerns (fd : Socket) (c : Bytes) (s : PubSubManager × Network) : Call → Option Bool
  | .subscribe clientFd channels =>
    if clientFd = fd ∧ channels.contains c then some true else none
  | .unsubscribe clientFd channels =>
    if clientFd = fd ∧ (channels = [] ∨ channels.contains c) then some false else none
  | .publish channel message =>
    if channel = c ∧ (s.1.publishSends channel message s.2).any fun x =>
      x.socket = fd ∧ x.whole = false then some false else none
  | .clientDisconnected clientFd => if clientFd = fd then some false else none

/-- The last event of a history that concerns a client and a channel. -/
def lastEvent (fd : Socket) (c : Bytes) (past : List ((PubSubManager × Network) × Call)) :
    Option Bool :=
  (past.filterMap fun x => x.2.concerns fd c x.1).getLast?

/-- A call that concerns a client and a channel decides whether the client is in the channel, and
no other call changes it. -/
theorem hasChannel_run (s : PubSubManager × Network) (call : Call) (fd : Socket) (c : Bytes) :
    (call.run s).1.HasChannel fd c ↔
      match call.concerns fd c s with
      | some joined => joined = true
      | none => s.1.HasChannel fd c := by
  cases call with
  | subscribe clientFd channels =>
    simp only [Call.run, Call.concerns, hasChannel_subscribe, List.contains_iff_mem]
    by_cases h : clientFd = fd ∧ c ∈ channels
    · simp [h]
    · rw [if_neg h, or_iff_left]
      rintro ⟨rfl, hc⟩
      exact h ⟨rfl, hc⟩
  | unsubscribe clientFd channels =>
    simp only [Call.run, Call.concerns, hasChannel_unsubscribe, List.contains_iff_mem]
    by_cases h : clientFd = fd ∧ (channels = [] ∨ c ∈ channels)
    · simp [h]
    · rw [if_neg h, and_iff_left]
      rintro ⟨rfl, hc⟩
      exact h ⟨rfl, hc⟩
  | publish channel message =>
    simp only [Call.run, Call.concerns, hasChannel_publish, mem_deadSockets, List.any_eq_true,
      decide_eq_true_eq]
    by_cases h : channel = c ∧ ∃ x ∈ s.1.publishSends channel message s.2,
        x.socket = fd ∧ x.whole = false
    · rw [if_pos h]
      simp [h.1.symm, h.2]
    · rw [if_neg h, and_iff_left]
      rintro ⟨rfl, hx⟩
      exact h ⟨rfl, hx⟩
  | clientDisconnected clientFd =>
    simp only [Call.run, Call.concerns, hasChannel_clientDisconnected]
    by_cases h : clientFd = fd
    · simp [h]
    · simp [h, Ne.symm h]

/-- The messages of a call do not depend on the iteration orders. -/
theorem Reordered.publishSends_eq {p p' : PubSubManager} (h : p.Reordered p')
    (channel message : Bytes) (net : Network) :
    p'.publishSends channel message net = p.publishSends channel message net := by
  rw [publishSends, publishSends, h.lookup_channels]

/-- What a call means does not depend on the iteration orders. -/
theorem Reordered.concerns_eq {p p' : PubSubManager} (h : p.Reordered p') (net : Network)
    (call : Call) (fd : Socket) (c : Bytes) :
    call.concerns fd c (p', net) = call.concerns fd c (p, net) := by
  cases call with
  | publish channel message =>
    simp only [Call.concerns, h.publishSends_eq]
  | subscribe | unsubscribe | clientDisconnected => rfl

/-- Only a `subscribe` of the client itself brings it into a channel. -/
theorem Call.eq_subscribe_of_concerns {fd : Socket} {c : Bytes} {s : PubSubManager × Network}
    {call : Call} (h : call.concerns fd c s = some true) :
    ∃ channels, call = .subscribe fd channels := by
  cases call with
  | subscribe clientFd channels =>
    simp only [Call.concerns, Option.ite_none_right_eq_some] at h
    exact ⟨channels, by rw [h.1.1]⟩
  | unsubscribe | publish | clientDisconnected => simp [Call.concerns] at h

/-- A client is in a channel if the last event that concerns them is a `subscribe`. -/
theorem hasChannel_iff_lastEvent {net : Network} {past : List ((PubSubManager × Network) × Call)}
    {s : PubSubManager × Network} (htrace : Trace CallStep (empty, net) past s) (fd : Socket)
    (c : Bytes) : s.1.HasChannel fd c ↔ lastEvent fd c past = some true := by
  refine htrace.invariant (I := fun past s =>
    s.1.HasChannel fd c ↔ lastEvent fd c past = some true) ?_ ?_
  · simp [lastEvent, HasChannel, empty]
  · rintro past s call _ h ⟨p, hre, rfl⟩
    rw [hasChannel_run, hre.concerns_eq, lastEvent, List.filterMap_append, List.getLast?_append]
    cases hconcerns : call.concerns fd c s with
    | none => simpa [hconcerns, lastEvent, hre.hasChannel_iff] using h
    | some joined => simp [hconcerns]

/-! ### The message -/

/-- The message is an array of three strings. -/
theorem pushMsg_eq (channel message : Bytes) :
    pushMsg channel message = encode [ascii "message", channel, message] := rfl

/-- Channels and messages whose lengths fit into an `int`. -/
theorem sendable_pushMsg {channel message : Bytes} (hchannel : channel.length < 2 ^ 31)
    (hmessage : message.length < 2 ^ 31) : Sendable [ascii "message", channel, message] where
  ne_nil := List.cons_ne_nil _ _
  count := by simp
  length := by
    intro p hp
    simp only [List.mem_cons, List.not_mem_nil, or_false] at hp
    rcases hp with rfl | rfl | rfl
    · decide
    · exact hchannel
    · exact hmessage

/-- The reader of the client does not accept the length of a longer message. -/
theorem parseRespValue_pushMsg_of_le (channel message : Bytes) (hchannel : channel.length < 2 ^ 31)
    (hmessage : 2 ^ 31 ≤ message.length) :
    ∃ consumed, Client.parseRespValue (pushMsg channel message) =
      some (lines (numberItems [quoted (ascii "message"), quoted channel,
        ascii "(error) invalid bulk string length"]), consumed) := by
  have hmsg : pushMsg channel message = (42 :: decimal 3) ++
      (CRLF ++ (bulkString (ascii "message") ++
        (bulkString channel ++ (bulkString message ++ [])))) := by
    rw [pushMsg_eq, encode_eq]
    simp
  rw [hmsg, Client.parseRespValue_array_header (by decide) (by decide),
    Client.elements_element (Client.parseRespValue_bulkString (by decide) _),
    Client.elements_element (Client.parseRespValue_bulkString hchannel _), Client.elements,
    List.drop_left, bulkString_eq message, List.append_assoc, List.append_assoc,
    Client.parseRespValue_bulk_of_le hmessage]
  exact ⟨_, rfl⟩

/-! ### The result -/

/-- What is expected of a `publish` whose receivers are `receives`: `sends` are the messages that
are sent. -/
structure Delivered (receives : Socket → Prop) (s : PubSubManager × Network) (c m : Bytes)
    (sends : List Send) : Prop where
  /-- The message is sent to the receivers and to nobody else. -/
  receivers : ∀ fd, fd ∈ sends.map Send.socket ↔ receives fd
  /-- It is sent once to each. -/
  once : (sends.map Send.socket).Nodup
  /-- It is the message made of the channel and the payload, and a front part of it is written. -/
  message : ∀ x ∈ sends, x.data = pushMsg c m ∧ x.written <+: x.data
  /-- Nothing else is written, to whatever socket. -/
  bytes : s.2.Logs sends (s.1.publish c m s.2).2.2
  /-- The number of sends that succeeded is returned. -/
  count : (s.1.publish c m s.2).1 = Int32.ofNat (sends.countP Send.whole)
  /-- The subscribers of other channels stay the same. -/
  others : ∀ c', c' ≠ c → ∀ fd, (s.1.publish c m s.2).2.1.Listens fd c' ↔ s.1.Listens fd c'
  /-- The client that receives the message, in whatever pieces, reads its three elements. -/
  decodes : c.length < 2 ^ 31 → m.length < 2 ^ 31 → ∀ x ∈ sends, x.whole = true →
    ∀ reads readBuffer tail, readBuffer ++ reads.flatten = x.written ++ tail →
      ∃ rest later, Client.readRespResponse reads readBuffer =
        some (Client.arrayText [ascii "message", c, m], rest, later) ∧ rest ++ later.flatten = tail

/-- **Who receives a message.**  After every history of `subscribe`, `unsubscribe`, `publish` and
`client_disconnected` calls, with every outcome of the writes, `publish` sends one message to each
client whose last event that concerns the channel is a `subscribe`, and to nobody else; it returns
the number of sends that succeeded and leaves the other channels alone; and a message that was sent
completely is read by the client as the three elements `message`, channel and payload, if the
lengths of the channel and of the payload fit into an `int`. -/
theorem publish_delivers {net : Network} {past : List ((PubSubManager × Network) × Call)}
    {s : PubSubManager × Network} (htrace : Trace CallStep (empty, net) past s) (c m : Bytes) :
    ∃ sends, Delivered (fun fd => lastEvent fd c past = some true) s c m sends := by
  have hindexed : s.1.Indexed := indexed_of_trace htrace
  refine ⟨s.1.publishSends c m s.2, ?_⟩
  constructor
  · intro fd
    rw [mem_socket_publishSends, hindexed.agree, hasChannel_iff_lastEvent htrace]
  · exact nodup_socket_publishSends c m s.1 s.2
  · intro x hx
    exact data_publishSends c m s.1 s.2 hx
  · exact logs_publish c m s.1 s.2
  · exact publish_fst c m s.1 s.2
  · intro c' hc' fd
    rw [listens_publish, and_iff_left]
    rintro ⟨rfl, _⟩
    exact hc' rfl
  · intro hc hm x hx hwhole reads readBuffer tail hbytes
    have hwritten : x.written = encode [ascii "message", c, m] := by
      rw [of_decide_eq_true hwhole, (data_publishSends c m s.1 s.2 hx).1, pushMsg_eq]
    rw [hwritten] at hbytes
    have hcode := Client.parseRespValue_encode (sendable_pushMsg hc hm) []
    rw [List.append_nil] at hcode
    exact Client.readRespResponse_of_value hcode hbytes

/-- Two clients subscribe, one of them leaves the channel again, and a message is published. -/
theorem publish_delivers_after_unsubscribe :
    let net : Network := ⟨fun _ => some 3, []⟩
    let calls : List Call := [.subscribe 4 [ascii "a", ascii "b"], .subscribe 5 [ascii "a"],
      .unsubscribe 4 [ascii "a"]]
    ∃ past sends, past.map Prod.snd = calls ∧
      Delivered (fun fd => lastEvent fd (ascii "a") past = some true)
        (calls.foldl Call.run (empty, net)) (ascii "a") (ascii "m") sends := by
  intro net calls
  obtain ⟨past, hpast, htrace⟩ := exists_trace_of_calls calls (empty, net)
  obtain ⟨sends, hsends⟩ := publish_delivers htrace (ascii "a") (ascii "m")
  exact ⟨past, sends, hpast, hsends⟩

/-- A message of `2 ^ 31` bytes is sent completely, but the reader of the client shows an error in
its place: `std::stoi` does not accept the length. -/
theorem publish_long_message_unreadable :
    let net : Network := ⟨fun _ => some 0, []⟩
    let s := Call.run (empty, net) (.subscribe 4 [ascii "a"])
    ∃ m : Bytes, m.length = 2 ^ 31 ∧ (s.1.publish (ascii "a") m s.2).1 = 1 ∧
      (s.1.publish (ascii "a") m s.2).2.2.bytesTo 4 = pushMsg (ascii "a") m ∧
      ∀ consumed, Client.parseRespValue (pushMsg (ascii "a") m) ≠
        some (Client.arrayText [ascii "message", ascii "a", m], consumed) := by
  intro net s
  obtain ⟨m, hm⟩ : ∃ m : Bytes, m.length = 2 ^ 31 :=
    ⟨List.replicate (2 ^ 31) 120, List.length_replicate⟩
  have hwritten : net.written 4 (pushMsg (ascii "a") m) = pushMsg (ascii "a") m :=
    net.written_eq_of_writes 4 _ fun _ => rfl
  have hsends : s.1.publishSends (ascii "a") m s.2 =
      [⟨4, pushMsg (ascii "a") m, pushMsg (ascii "a") m⟩] := by
    have hrecord : s.1.publishSends (ascii "a") m s.2 =
        [⟨4, pushMsg (ascii "a") m, net.written 4 (pushMsg (ascii "a") m)⟩] := rfl
    rw [hrecord, hwritten]
  refine ⟨m, hm, ?_, ?_, ?_⟩
  · rw [publish_fst, hsends, List.countP_singleton, Send.whole]
    simp
  · rw [logs_publish, hsends, Send.stream_cons]
    simp [s, net, Call.run, Network.bytesTo]
  · intro consumed hread
    obtain ⟨consumed', hread'⟩ :=
      parseRespValue_pushMsg_of_le (ascii "a") m (by decide) hm.ge
    rw [hread', Option.some.injEq, Prod.mk.injEq] at hread
    have hlength := congrArg List.length hread.1
    have herror : (ascii "(error) invalid bulk string length").length = 34 := by decide
    simp only [Client.arrayText, numberItems, lines, quoted, List.map_cons, List.map_nil,
      List.zipIdx_cons, List.zipIdx_nil, List.length_append, List.length_cons, herror, hm]
      at hlength
    omega

end PubSubManager

end MyRedis
