import MyRedis.PubSub.Index

/-!
# Histories of calls

The public operations of the `PubSubManager` as the calls of a history, in which every client may
make any call, every `socket_write` of a `publish` may succeed, write a part, or fail, and the
iteration orders may change before every call.  Whatever the history, the two maps agree, no empty
set is kept, and the counters and the returned counts are the numbers that they should be.  The
returned counts are of type `int`: they are exact for clients with fewer than `2 ^ 31` channels.
-/

namespace MyRedis

open Foundation SetMap

namespace PubSubManager

/-! ### Numbers -/

/-- The number of channels of a client. -/
noncomputable def channelCount (p : PubSubManager) (fd : Socket) : ℕ :=
  {c | p.HasChannel fd c}.ncard

/-- The size of the set of a client is the number of its channels. -/
theorem subCount_eq (p : PubSubManager) (fd : Socket) :
    p.subCount fd = Int32.ofNat (p.channelCount fd) := by
  unfold channelCount HasChannel
  rw [ncard_holds ChannelSet.nodup, subCount]
  cases p.clientChannels.lookup fd <;> rfl

/-- Forgetting an empty set does not change the number of channels. -/
@[simp] theorem channelCount_eraseEmptyClient (p : PubSubManager) (clientFd fd : Socket) :
    (p.eraseEmptyClient clientFd).channelCount fd = p.channelCount fd := by
  unfold channelCount
  simp only [hasChannel_eraseEmptyClient]

/-- The first map has as many entries as there are channels with a subscriber. -/
theorem Indexed.activeChannelCount_eq {p : PubSubManager} (h : p.Indexed) :
    p.activeChannelCount = {c | ∃ fd, p.Listens fd c}.ncard :=
  length_entries h.not_emptyChannel

/-- The sizes of the sets of the second map add up to the number of pairs. -/
theorem totalSubscriptionCount_eq (p : PubSubManager) :
    p.totalSubscriptionCount = p.subscriptions.ncard := by
  unfold totalSubscriptionCount
  rw [← List.foldl_map (f := fun e : Σ _ : Socket, ChannelSet => e.2.channels.length)
    (g := fun total size => total + size), ← List.sum_eq_foldl]
  exact sum_length ChannelSet.nodup

/-! ### The returned counts -/

/-- The `i`-th result of `subscribe`. -/
theorem getElem?_subscribe (p : PubSubManager) (fd : Socket) (channels : List Bytes) (i : ℕ) :
    (p.subscribe fd channels).1[i]? = channels[i]?.map fun c =>
      (c, Int32.ofNat ((p.subscribe fd (channels.take (i + 1))).2.channelCount fd)) := by
  rw [subscribe_eq, getElem?_foldl_collectStep, subscribe_snd]
  simp only [subCount_eq]

/-- The `i`-th result of `unsubscribe`, if there is something to do. -/
theorem getElem?_unsubscribe {p : PubSubManager} {fd : Socket} {channels : List Bytes}
    (hne : p.toUnsub fd channels ≠ []) (i : ℕ) :
    (p.unsubscribe fd channels).1[i]? = (p.toUnsub fd channels)[i]?.map fun c =>
      (c, Int32.ofNat
        ((p.unsubscribe fd ((p.toUnsub fd channels).take (i + 1))).2.channelCount fd)) := by
  -- the first rounds are a call of `unsubscribe` on their own
  have htake : p.toUnsub fd ((p.toUnsub fd channels).take (i + 1)) =
      (p.toUnsub fd channels).take (i + 1) := by
    rw [toUnsub, if_neg]
    simp [hne]
  have htake_ne : p.toUnsub fd ((p.toUnsub fd channels).take (i + 1)) ≠ [] := by
    rw [htake]
    simp [hne]
  rw [unsubscribe_snd htake_ne, htake, channelCount_eraseEmptyClient, unsubscribe_eq hne]
  refine (getElem?_foldl_collectStep _ _ _ _ _).trans ?_
  simp only [subCount_eq]

/-! ### Histories -/

/-- A call of a public operation. -/
inductive Call
  | subscribe (clientFd : Socket) (channels : List Bytes)
  | unsubscribe (clientFd : Socket) (channels : List Bytes)
  | publish (channel message : Bytes)
  | clientDisconnected (clientFd : Socket)
deriving DecidableEq

/-- What a call does to the manager and the sockets. -/
def Call.run (s : PubSubManager × Network) : Call → PubSubManager × Network
  | .subscribe clientFd channels => ((s.1.subscribe clientFd channels).2, s.2)
  | .unsubscribe clientFd channels => ((s.1.unsubscribe clientFd channels).2, s.2)
  | .publish channel message => (s.1.publish channel message s.2).2
  | .clientDisconnected clientFd => (s.1.clientDisconnected clientFd, s.2)

/-- The calls as the steps of a system.  Before a call, the iteration orders may change. -/
def CallStep (s : PubSubManager × Network) (call : Call) (s' : PubSubManager × Network) : Prop :=
  ∃ p, s.1.Reordered p ∧ s' = call.run (p, s.2)

/-- Every sequence of calls is a history. -/
theorem exists_trace_of_calls (calls : List Call) (s : PubSubManager × Network) :
    ∃ past, past.map Prod.snd = calls ∧ Trace CallStep s past (calls.foldl Call.run s) := by
  induction calls generalizing s with
  | nil => exact ⟨[], rfl, .nil⟩
  | cons call calls ih =>
    obtain ⟨past, hpast, htrace⟩ := ih (call.run s)
    refine ⟨(s, call) :: past, ?_, htrace.cons ⟨s.1, .rfl, rfl⟩⟩
    rw [List.map_cons, hpast]

/-- Every call keeps the invariant. -/
theorem Indexed.run {s : PubSubManager × Network} (h : s.1.Indexed) (call : Call) :
    (call.run s).1.Indexed := by
  cases call with
  | subscribe clientFd channels => exact h.subscribe clientFd channels
  | unsubscribe clientFd channels => exact h.unsubscribe clientFd channels
  | publish channel message => exact h.publish channel message s.2
  | clientDisconnected clientFd => exact h.clientDisconnected clientFd

/-- The invariant holds after every history. -/
theorem indexed_of_trace {net : Network} {past : List ((PubSubManager × Network) × Call)}
    {s : PubSubManager × Network} (htrace : Trace CallStep (empty, net) past s) : s.1.Indexed := by
  refine htrace.invariant (I := fun _ s => s.1.Indexed) indexed_empty ?_
  rintro past s call _ h ⟨p, hre, rfl⟩
  exact Indexed.run (s := (p, s.2)) (h.reordered hre) call

/-- What is expected of the two maps, of the counters, and of the counts that the next `subscribe`
or `unsubscribe` will return. -/
structure DoubleIndex (p : PubSubManager) : Prop where
  /-- The client is in the set of the channel if the channel is in the set of the client. -/
  agree : ∀ fd c, p.Listens fd c ↔ p.HasChannel fd c
  /-- No channel is kept with an empty set. -/
  channels_nonempty : ∀ c, ¬ p.EmptyChannel c
  /-- No client is kept with an empty set. -/
  clients_nonempty : ∀ fd, ¬ p.EmptyClient fd
  /-- `active_channel_count` is the number of channels with a subscriber. -/
  activeChannels : p.activeChannelCount = {c | ∃ fd, p.Listens fd c}.ncard
  /-- `total_subscription_count` is the number of pairs of a client and a channel. -/
  totalSubscriptions : p.totalSubscriptionCount =
    {x : Socket × Bytes | p.Listens x.1 x.2}.ncard
  /-- `is_subscribed` holds of the clients that are in some channel. -/
  subscribed : ∀ fd, p.isSubscribed fd = true ↔ ∃ c, p.Listens fd c
  /-- `subscribe` returns each channel with the number of channels that the client has by then. -/
  subscribe_counts : ∀ fd channels i, (p.subscribe fd channels).1[i]? = channels[i]?.map fun c =>
    (c, Int32.ofNat ((p.subscribe fd (channels.take (i + 1))).2.channelCount fd))
  /-- The number is exact as long as it fits into an `int`. -/
  subscribe_exact : ∀ fd channels i c (n : Int32),
    (p.subscribe fd channels).1[i]? = some (c, n) →
      (p.subscribe fd (channels.take (i + 1))).2.channelCount fd < 2 ^ 31 →
        n.toInt = (p.subscribe fd (channels.take (i + 1))).2.channelCount fd
  /-- `unsubscribe` does the same for the channels that it goes through. -/
  unsubscribe_counts : ∀ fd channels, p.toUnsub fd channels ≠ [] → ∀ i,
    (p.unsubscribe fd channels).1[i]? = (p.toUnsub fd channels)[i]?.map fun c =>
      (c, Int32.ofNat
        ((p.unsubscribe fd ((p.toUnsub fd channels).take (i + 1))).2.channelCount fd))
  /-- Again the number is exact as long as it fits. -/
  unsubscribe_exact : ∀ fd channels, p.toUnsub fd channels ≠ [] → ∀ i c (n : Int32),
    (p.unsubscribe fd channels).1[i]? = some (c, n) →
      (p.unsubscribe fd ((p.toUnsub fd channels).take (i + 1))).2.channelCount fd < 2 ^ 31 →
        n.toInt = (p.unsubscribe fd ((p.toUnsub fd channels).take (i + 1))).2.channelCount fd
  /-- It goes through the given channels, or through all channels of the client. -/
  unsubscribe_channels : ∀ fd channels, (channels ≠ [] → p.toUnsub fd channels = channels) ∧
    (channels = [] → (p.toUnsub fd channels).Nodup ∧
      ∀ c, c ∈ p.toUnsub fd channels ↔ p.HasChannel fd c)
  /-- If there are none, the count that it returns is still that of the client. -/
  unsubscribe_none : ∀ fd channels, p.toUnsub fd channels = [] →
    p.unsubscribe fd channels = ([(ascii "*", 0)], p) ∧ p.channelCount fd = 0

/-- A count that has been found as an `int` is exact below `2 ^ 31`. -/
theorem toInt_of_map_eq_some {channel? : Option Bytes} {count : ℕ} {c : Bytes} {n : Int32}
    (h : channel?.map (fun c => (c, Int32.ofNat count)) = some (c, n)) (hcount : count < 2 ^ 31) :
    n.toInt = count := by
  obtain ⟨_, _, hpair⟩ := Option.map_eq_some_iff.mp h
  obtain ⟨-, rfl⟩ := Prod.mk.inj hpair
  exact Int32.toInt_ofNat_of_lt hcount

/-- The channels that `unsubscribe` goes through. -/
theorem toUnsub_spec (p : PubSubManager) (fd : Socket) (channels : List Bytes) :
    (channels ≠ [] → p.toUnsub fd channels = channels) ∧
      (channels = [] → (p.toUnsub fd channels).Nodup ∧
        ∀ c, c ∈ p.toUnsub fd channels ↔ p.HasChannel fd c) := by
  constructor
  · intro hne
    rw [toUnsub, if_neg hne]
  · rintro rfl
    rw [toUnsub, if_pos rfl]
    cases hlookup : p.clientChannels.lookup fd with
    | none => simp [HasChannel, not_holds_of_lookup hlookup]
    | some own =>
      refine ⟨own.nodup, ?_⟩
      intro c
      rw [HasChannel, holds_iff_of_lookup hlookup]

/-- **The double index.**  After every history of `subscribe`, `unsubscribe`, `publish` and
`client_disconnected` calls, with every outcome of the writes, the two maps agree, keep no empty
set, and all numbers are right. -/
theorem double_index {net : Network} {past : List ((PubSubManager × Network) × Call)}
    {s : PubSubManager × Network} (htrace : Trace CallStep (empty, net) past s) :
    s.1.DoubleIndex := by
  have h : s.1.Indexed := indexed_of_trace htrace
  constructor
  · exact h.agree
  · exact h.not_emptyChannel
  · exact h.not_emptyClient
  · exact h.activeChannelCount_eq
  · simp only [h.agree]
    exact totalSubscriptionCount_eq s.1
  · intro fd
    simp only [h.agree]
    exact isSubscribed_iff
  · exact getElem?_subscribe s.1
  · intro fd channels i c n hget
    rw [getElem?_subscribe] at hget
    exact toInt_of_map_eq_some hget
  · intro fd channels hne i
    exact getElem?_unsubscribe hne i
  · intro fd channels hne i c n hget
    rw [getElem?_unsubscribe hne] at hget
    exact toInt_of_map_eq_some hget
  · exact toUnsub_spec s.1
  · intro fd channels hnil
    refine ⟨?_, ?_⟩
    · rw [unsubscribe, if_pos hnil]
    · have hnone := (toUnsub_eq_nil fd hnil).2
      simp [channelCount, hnone]

/-- A history in which a client subscribes, cannot be reached, and subscribes again.  It then has
two channels, a third one would be counted as such, and leaving all of them counts down. -/
theorem double_index_after_failed_publish :
    let net : Network := ⟨fun _ => none, []⟩
    let calls : List Call := [.subscribe 4 [ascii "a", ascii "b"], .publish (ascii "a") (ascii "m"),
      .subscribe 4 [ascii "b", ascii "a"]]
    let p := (calls.foldl Call.run (empty, net)).1
    p.DoubleIndex ∧ p.activeChannelCount = 2 ∧ p.totalSubscriptionCount = 2 ∧
      (p.subscribe 4 [ascii "b", ascii "c"]).1 = [(ascii "b", 2), (ascii "c", 3)] ∧
      (p.unsubscribe 4 []).1 = [(ascii "a", 1), (ascii "b", 0)] := by
  intro net calls p
  obtain ⟨past, _, htrace⟩ := exists_trace_of_calls calls (empty, net)
  exact ⟨double_index htrace, by decide, by decide, by decide, by decide⟩

end PubSubManager

end MyRedis
