import MyRedis.Server.Gate

/-!
# What subscribers receive

While a client listens to its channels it receives the messages that are published there: all of
them, each once, and in the order in which they were published, whoever publishes them and whatever
else the server does in between.  The sequence depends on nothing but the channels, so that clients
with the same channels receive the same messages in the same order (`subscribers_agree`).  If such a
client sends nothing itself, these messages are all that is written to its connection.
-/

namespace MyRedis

open Foundation Resp PubSubManager

namespace PubSubManager

/-- The channel and the message that a call publishes, if any. -/
def publication : Option Call → Option (Bytes × Bytes)
  | some (.publish channel message) => some (channel, message)
  | _ => none

/-- Of the messages of a `publish` a client is sent one if it listens to the channel, and otherwise
none. -/
theorem data_publishSends_to {p : PubSubManager} (hindexed : p.Indexed) (channel message : Bytes)
    (net : Network) (fd : Socket) {channels : List Bytes}
    (hchannels : ∀ c, p.HasChannel fd c ↔ c ∈ channels) :
    ((p.publishSends channel message net).filter fun x => x.socket = fd).map Send.data =
      if channel ∈ channels then [pushMsg channel message] else [] := by
  have hdata : ∀ data ∈ ((p.publishSends channel message net).filter fun x =>
      x.socket = fd).map Send.data, data = pushMsg channel message := by
    intro data hdata
    obtain ⟨x, hx, rfl⟩ := List.mem_map.mp hdata
    exact (data_publishSends channel message p net (List.mem_filter.mp hx).1).1
  have hcount : (((p.publishSends channel message net).filter fun x =>
      x.socket = fd).map Send.data).length =
        ((p.publishSends channel message net).map Send.socket).count fd := by
    rw [List.length_map, ← List.countP_eq_length_filter, List.count, List.countP_map]
    rfl
  rw [List.eq_replicate_iff.mpr ⟨hcount, hdata⟩]
  have hlistens : fd ∈ (p.publishSends channel message net).map Send.socket ↔
      channel ∈ channels := by
    rw [mem_socket_publishSends, hindexed.agree, hchannels]
  by_cases hmem : channel ∈ channels
  · rw [List.count_eq_one_of_mem (nodup_socket_publishSends channel message p net)
      (hlistens.mpr hmem), if_pos hmem, List.replicate_one]
  · rw [List.count_eq_zero_of_not_mem (mt hlistens.mp hmem), if_neg hmem, List.replicate_zero]

end PubSubManager

namespace Server.Running

/-- The messages that were published, each with its channel, in the order of their publication. -/
def publications (past : List (Running × Event)) : List (Bytes × Bytes) :=
  past.filterMap fun p => publication (p.2.call p.1.server)

/-- The messages that were published on these channels, as they are sent to subscribers. -/
def messagesOn (channels : List Bytes) (past : List (Running × Event)) : List Bytes :=
  ((publications past).filter fun p => channels.contains p.1).map fun p => pushMsg p.1 p.2

/-- The published messages that a client was sent. -/
def messagesTo (fd : Socket) (past : List (Running × Event)) : List Bytes :=
  past.flatMap fun p => ((p.2.pushes p.1.server).filter fun x => x.socket = fd).map Send.data

/-- In this step the client keeps its channels: it does not subscribe or unsubscribe, it is not
disconnected, and no message to it is cut off. -/
structure Stays (fd : Socket) (p : Running × Event) : Prop where
  /-- It does not subscribe. -/
  subscribe : ∀ channels, p.2.call p.1.server ≠ some (.subscribe fd channels)
  /-- It does not unsubscribe. -/
  unsubscribe : ∀ channels, p.2.call p.1.server ≠ some (.unsubscribe fd channels)
  /-- It is not disconnected. -/
  disconnect : p.2.call p.1.server ≠ some (.clientDisconnected fd)
  /-- Messages are sent in full. -/
  whole : ∀ x ∈ p.2.pushes p.1.server, x.socket = fd → x.whole = true

variable {fd : Socket} {r r' : Running} {e : Event}

/-- A call in such a step does not concern the client. -/
theorem Stays.concerns_eq_none (h : Stays fd (r, e)) {call : Call}
    (hcall : e.call r.server = some call) (c : Bytes) :
    call.concerns fd c r.server.world.sockets = none := by
  cases call with
  | subscribe fd' channels =>
    have hne : fd' ≠ fd := by
      rintro rfl
      exact h.subscribe channels hcall
    exact if_neg fun hmem => hne hmem.1
  | unsubscribe fd' channels =>
    have hne : fd' ≠ fd := by
      rintro rfl
      exact h.unsubscribe channels hcall
    exact if_neg fun hmem => hne hmem.1
  | clientDisconnected fd' =>
    have hne : fd' ≠ fd := by
      rintro rfl
      exact h.disconnect hcall
    exact if_neg hne
  | publish channel message =>
    refine if_neg ?_
    rintro ⟨-, hcut⟩
    obtain ⟨x, hx, hcut⟩ := List.any_eq_true.mp hcut
    obtain ⟨hfd, hcut⟩ := of_decide_eq_true hcut
    have hpush : x ∈ e.pushes r.server := by
      rw [Event.pushes, hcall]
      exact hx
    rw [h.whole x hpush hfd] at hcut
    cases hcut

/-- A client that stays keeps its channels. -/
theorem Stays.hasChannel_iff (h : Stays fd (r, e)) (hstep : Step r e r') (c : Bytes) :
    r'.server.world.pubsub.HasChannel fd c ↔ r.server.world.pubsub.HasChannel fd c := by
  rw [hstep.pubsub_reordered.hasChannel_iff]
  cases hcall : e.call r.server with
  | none => exact Iff.rfl
  | some call =>
    rw [runCall, hasChannel_run, h.concerns_eq_none hcall]
    exact Iff.rfl

/-- What one step sends to a client that listens to these channels. -/
theorem messagesTo_singleton (hindexed : r.server.world.pubsub.Indexed) {channels : List Bytes}
    (hchannels : ∀ c, r.server.world.pubsub.HasChannel fd c ↔ c ∈ channels) (e : Event) :
    messagesTo fd [(r, e)] = messagesOn channels [(r, e)] := by
  unfold messagesTo messagesOn publications Event.pushes
  rw [List.flatMap_singleton]
  cases hcall : e.call r.server with
  | none => simp [callSends, publication, hcall]
  | some call =>
    cases call with
    | subscribe | unsubscribe | clientDisconnected => simp [callSends, publication, hcall]
    | publish channel message =>
      refine (data_publishSends_to hindexed channel message _ fd hchannels).trans ?_
      by_cases hmem : channel ∈ channels
      · simp [publication, hcall, hmem]
      · simp [publication, hcall, hmem]

theorem messagesTo_append (fd : Socket) (past later : List (Running × Event)) :
    messagesTo fd (past ++ later) = messagesTo fd past ++ messagesTo fd later :=
  List.flatMap_append

theorem messagesOn_append (channels : List Bytes) (past later : List (Running × Event)) :
    messagesOn channels (past ++ later) =
      messagesOn channels past ++ messagesOn channels later := by
  simp [messagesOn, publications]

/-- What is written to a client that stays, in a step that is not about it. -/
theorem Stays.bytesTo_eq (h : Stays fd (r, e)) (hstep : Step r e r') (he : e.client ≠ some fd) :
    r'.server.world.net.bytesTo fd =
      r.server.world.net.bytesTo fd ++ (messagesTo fd [(r, e)]).flatten := by
  -- All the messages to the client are written in full.
  have hpushes : Send.stream fd (e.pushes r.server) = (messagesTo fd [(r, e)]).flatten := by
    rw [messagesTo, List.flatMap_singleton, ← List.flatMap_def]
    refine List.flatMap_congr fun x hx => ?_
    obtain ⟨hx, hfd⟩ := List.mem_filter.mp hx
    exact of_decide_eq_true (h.whole x hx (of_decide_eq_true hfd))
  rw [hstep.logs fd, Event.sends, Send.stream_append, Event.stream_reply_eq_nil he,
    List.append_nil, hpushes]

/-- What is expected of a client with these channels, between two moments. -/
structure Receives (fd : Socket) (channels : List Bytes) (r₁ : Running)
    (during : List (Running × Event)) (r₂ : Running) : Prop where
  /-- It still has its channels. -/
  hasChannel_iff : ∀ c, r₂.server.world.pubsub.HasChannel fd c ↔ c ∈ channels
  /-- It was sent the messages that were published on its channels, in the order of publication. -/
  messages : messagesTo fd during = messagesOn channels during
  /-- If it sent nothing meanwhile, they are all that was written to its connection. -/
  bytes : (∀ p ∈ during, p.2.client ≠ some fd) → r₂.server.world.net.bytesTo fd =
    r₁.server.world.net.bytesTo fd ++ (messagesOn channels during).flatten

/-- What holds while a client with these channels stays. -/
structure Listening (fd : Socket) (channels : List Bytes) (r₁ : Running)
    (during : List (Running × Event)) (r : Running) : Prop
    extends Receives fd channels r₁ during r where
  /-- The two maps of the pub/sub manager agree. -/
  indexed : r.server.world.pubsub.Indexed

/-- One more step. -/
theorem Listening.step {channels : List Bytes} {r₁ : Running} {during : List (Running × Event)}
    (h : Listening fd channels r₁ during r) (hstays : Stays fd (r, e)) (hstep : Step r e r') :
    Listening fd channels r₁ (during ++ [(r, e)]) r' where
  indexed := hstep.indexed h.indexed
  hasChannel_iff c := (hstays.hasChannel_iff hstep c).trans (h.hasChannel_iff c)
  messages := by
    rw [messagesTo_append, messagesOn_append, h.messages,
      messagesTo_singleton h.indexed h.hasChannel_iff]
  bytes hquiet := by
    rw [List.forall_mem_append, List.forall_mem_singleton] at hquiet
    rw [hstays.bytesTo_eq hstep hquiet.2, h.bytes hquiet.1,
      messagesTo_singleton h.indexed h.hasChannel_iff, messagesOn_append, List.flatten_append,
      List.append_assoc]

/-- **Subscribers agree.**  Take any moment of any run of a server from a fresh start, and any steps
after it.  Every client that keeps its channels during these steps is sent the messages that are
published on its channels meanwhile: all of them, each once, and in the order of their publication.
Clients with the same channels are therefore sent the same messages in the same order.  If such a
client sends nothing itself, the bytes of these messages are all that is written to it. -/
theorem subscribers_agree {s₀ : Server} (hs₀ : Fresh s₀) {before during : List (Running × Event)}
    {r₁ r₂ : Running} (hbefore : Trace Step ⟨s₀, []⟩ before r₁)
    (hduring : Trace Step r₁ during r₂) (channels : List Bytes) :
    ∀ fd, (∀ c, r₁.server.world.pubsub.HasChannel fd c ↔ c ∈ channels) →
      (∀ p ∈ during, Stays fd p) → Receives fd channels r₁ during r₂ := by
  intro fd hchannels hstays
  have hlistening : (∀ p ∈ during, Stays fd p) → Listening fd channels r₁ during r₂ := by
    refine hduring.invariant
      (I := fun during r => (∀ p ∈ during, Stays fd p) → Listening fd channels r₁ during r) ?_ ?_
    · intro _
      exact ⟨⟨hchannels, rfl, fun _ => (List.append_nil _).symm⟩,
        (sound_of_trace hs₀ hbefore).indexed⟩
    · intro during r e r' ih hstep hstays
      rw [List.forall_mem_append, List.forall_mem_singleton] at hstays
      exact (ih hstays.1).step hstays.2 hstep
  exact (hlistening hstays).toReceives

/-- Whether a step makes no other call of the pub/sub manager than a `publish` whose messages are
all sent in full. -/
def onlyPublishes (p : Running × Event) : Bool :=
  decide (p.2.call p.1.server =
    (publication (p.2.call p.1.server)).map fun q => .publish q.1 q.2) &&
      (p.2.pushes p.1.server).all Send.whole

/-- In such a step every client stays. -/
theorem stays_of_onlyPublishes {p : Running × Event} (h : onlyPublishes p = true) (fd : Socket) :
    Stays fd p := by
  obtain ⟨hcall, hwhole⟩ := Bool.and_eq_true_iff.mp h
  have hcall := of_decide_eq_true hcall
  refine ⟨?_, ?_, ?_, fun x hx _ => List.all_eq_true.mp hwhole x hx⟩
  all_goals
    rw [hcall]
    cases publication (p.2.call p.1.server) <;> simp

/-- Two clients listen to a channel, and a third one publishes there and elsewhere. -/
theorem subscribers_agree_two_clients :
    let subscribe : Command := ⟨ascii "SUBSCRIBE", [ascii "news"]⟩
    let arrivals : List Event :=
      [.accept 4, .accept 5, .accept 6, .command 4 subscribe, .command 5 subscribe]
    let events : List Event := [.command 6 ⟨ascii "PUBLISH", [ascii "news", ascii "a"]⟩,
      .command 6 ⟨ascii "PUBLISH", [ascii "other", ascii "x"]⟩, .scan,
      .command 6 ⟨ascii "PUBLISH", [ascii "news", ascii "b"]⟩]
    ∃ before during r₁ r₂, history ⟨initial, []⟩ arrivals = some (before, r₁) ∧
      r₁.history events = some (during, r₂) ∧
      messagesOn [ascii "news"] during =
        [pushMsg (ascii "news") (ascii "a"), pushMsg (ascii "news") (ascii "b")] ∧
      ∀ fd ∈ [4, 5], Receives fd [ascii "news"] r₁ during r₂ := by
  intro subscribe arrivals events
  have hrun : ((history ⟨initial, []⟩ arrivals).map fun h =>
      (h.2.server.world.pubsub.clientChannels.lookup 4,
        h.2.server.world.pubsub.clientChannels.lookup 5)) =
      some (some ⟨[ascii "news"], by decide⟩, some ⟨[ascii "news"], by decide⟩) := by
    decide +kernel
  have hmore : (((history ⟨initial, []⟩ arrivals).bind fun h => h.2.history events).map fun h =>
      (h.1.all onlyPublishes, messagesOn [ascii "news"] h.1)) =
      some (true, [pushMsg (ascii "news") (ascii "a"), pushMsg (ascii "news") (ascii "b")]) := by
    decide +kernel
  obtain ⟨⟨before, r₁⟩, hbefore, hlookup⟩ := Option.map_eq_some_iff.mp hrun
  rw [hbefore] at hmore
  obtain ⟨⟨during, r₂⟩, hduring, hpast⟩ := Option.map_eq_some_iff.mp hmore
  obtain ⟨hlookup₄, hlookup₅⟩ := Prod.mk.inj hlookup
  obtain ⟨hpublishes, hmessages⟩ := Prod.mk.inj hpast
  refine ⟨before, during, r₁, r₂, hbefore, hduring, hmessages, fun fd hfd => ?_⟩
  have hchannels : ∀ c, r₁.server.world.pubsub.HasChannel fd c ↔ c ∈ [ascii "news"] := by
    intro c
    rcases List.mem_cons.mp hfd with rfl | hfd
    · exact SetMap.holds_iff_of_lookup hlookup₄
    · obtain rfl := List.mem_singleton.mp hfd
      exact SetMap.holds_iff_of_lookup hlookup₅
  exact subscribers_agree ⟨rfl, rfl⟩ (trace_of_history hbefore) (trace_of_history hduring) _ fd
    hchannels fun p hp => stays_of_onlyPublishes (List.all_eq_true.mp hpublishes p hp) fd

end Server.Running

end MyRedis
