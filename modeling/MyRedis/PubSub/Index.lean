import MyRedis.Foundation.Loops
import MyRedis.Foundation.SetMap
import MyRedis.Foundation.Trace
import MyRedis.PubSub.Basic

/-!
# The double index

The two maps of the `PubSubManager` are meant to be two views of one relation between clients and
channels.  The relation is the abstract state here; `Indexed` says that a manager represents it in
both maps and keeps no empty set, and each public operation is shown to refine an operation on the
relation:

* `subscribe` adds the pairs of the client with the given channels,
* `unsubscribe` takes out those pairs, or all pairs of the client,
* `publish` takes out the pairs of the channel with the clients that could not be reached,
* `client_disconnected` takes out all pairs of the client.
-/

namespace MyRedis

open Foundation SetMap

/-! ### The sets -/

@[simp] theorem SocketSet.mem_insert {fd a : Socket} {s : SocketSet} :
    a ∈ (s.insert fd).sockets ↔ a ∈ s.sockets ∨ a = fd := by
  unfold SocketSet.insert
  split
  · rename_i h
    constructor
    · exact Or.inl
    · rintro (ha | rfl)
      · exact ha
      · exact h
  · rw [List.mem_orderedInsert, or_comm]

@[simp] theorem SocketSet.mem_erase {fd a : Socket} {s : SocketSet} :
    a ∈ (s.erase fd).sockets ↔ a ∈ s.sockets ∧ a ≠ fd := by
  have hnodup : s.sockets.Nodup := s.sorted.imp ne_of_lt
  rw [SocketSet.erase, hnodup.mem_erase_iff, and_comm]

@[simp] theorem ChannelSet.mem_insert {channel c : Bytes} {s : ChannelSet} :
    c ∈ (s.insert channel).channels ↔ c ∈ s.channels ∨ c = channel := by
  rw [ChannelSet.insert, List.mem_insert_iff, or_comm]

@[simp] theorem ChannelSet.mem_erase {channel c : Bytes} {s : ChannelSet} :
    c ∈ (s.erase channel).channels ↔ c ∈ s.channels ∧ c ≠ channel := by
  rw [ChannelSet.erase, s.nodup.mem_erase_iff, and_comm]

namespace PubSubManager

/-- The client is in the set that the first map has for the channel. -/
def Listens (p : PubSubManager) (fd : Socket) (channel : Bytes) : Prop :=
  Holds SocketSet.sockets p.channels channel fd

/-- The channel is in the set that the second map has for the client. -/
def HasChannel (p : PubSubManager) (fd : Socket) (channel : Bytes) : Prop :=
  Holds ChannelSet.channels p.clientChannels fd channel

/-- The first map has an empty set for the channel. -/
def EmptyChannel (p : PubSubManager) (channel : Bytes) : Prop :=
  KeepsEmpty SocketSet.sockets p.channels channel

/-- The second map has an empty set for the client. -/
def EmptyClient (p : PubSubManager) (fd : Socket) : Prop :=
  KeepsEmpty ChannelSet.channels p.clientChannels fd

/-- A client is subscribed if it is in some channel. -/
theorem isSubscribed_iff {p : PubSubManager} {fd : Socket} :
    p.isSubscribed fd = true ↔ ∃ c, p.HasChannel fd c := by
  unfold isSubscribed
  cases hlookup : p.clientChannels.lookup fd with
  | none => simp [HasChannel, not_holds_of_lookup hlookup]
  | some own =>
    simp only [HasChannel, holds_iff_of_lookup hlookup, decide_eq_true_eq]
    constructor
    · exact List.exists_mem_of_ne_nil _
    · rintro ⟨c, hc⟩
      exact List.ne_nil_of_mem hc

/-! ### Iteration orders -/

namespace Reordered

/-- The iteration orders may stay as they are. -/
theorem rfl {p : PubSubManager} : p.Reordered p where
  channels := .rfl
  clientChannels clientFd := by
    cases p.clientChannels.lookup clientFd with
    | none => exact .none
    | some own => exact .some .rfl

variable {p p' : PubSubManager} (h : p.Reordered p')
include h

/-- The same subscribers. -/
theorem lookup_channels (c : Bytes) : p'.channels.lookup c = p.channels.lookup c :=
  (AList.perm_lookup h.channels).symm

/-- The same clients listen. -/
theorem listens_iff {fd : Socket} {c : Bytes} : p'.Listens fd c ↔ p.Listens fd c :=
  holds_congr (h.lookup_channels c)

/-- They have the same channels. -/
theorem hasChannel_iff {fd : Socket} {c : Bytes} : p'.HasChannel fd c ↔ p.HasChannel fd c := by
  have hsets := h.clientChannels fd
  unfold HasChannel Holds
  generalize p.clientChannels.lookup fd = own at hsets ⊢
  generalize p'.clientChannels.lookup fd = own' at hsets ⊢
  cases hsets with
  | none => exact Iff.rfl
  | some hperm => simp [hperm.mem_iff]

/-- No set becomes empty. -/
theorem emptyClient_iff {fd : Socket} : p'.EmptyClient fd ↔ p.EmptyClient fd := by
  have hsets := h.clientChannels fd
  unfold EmptyClient KeepsEmpty
  generalize p.clientChannels.lookup fd = own at hsets ⊢
  generalize p'.clientChannels.lookup fd = own' at hsets ⊢
  cases hsets with
  | none => exact Iff.rfl
  | some hperm =>
    simp only [Option.some.injEq, exists_eq_left', ← List.length_eq_zero_iff, hperm.length_eq]

/-- The same clients are subscribed. -/
theorem isSubscribed_eq (fd : Socket) : p'.isSubscribed fd = p.isSubscribed fd := by
  rw [Bool.eq_iff_iff, isSubscribed_iff, isSubscribed_iff]
  simp only [h.hasChannel_iff]

end Reordered

/-! ### The parts of the operations -/

section Parts

variable (p : PubSubManager) (clientFd : Socket) (channel : Bytes)

theorem channels_removeSubscriber : (p.removeSubscriber clientFd channel).channels =
    alter (SocketSet.erase clientFd) channel p.channels := by
  unfold removeSubscriber alter
  cases p.channels.lookup channel <;> rfl

theorem channels_eraseEmptyChannel : (p.eraseEmptyChannel channel).channels =
    dropIfEmpty SocketSet.sockets channel p.channels := by
  unfold eraseEmptyChannel dropIfEmpty
  cases p.channels.lookup channel with
  | none => rfl
  | some s => by_cases hs : s.sockets = [] <;> simp [hs]

theorem clientChannels_eraseChannel : (p.eraseChannel clientFd channel).clientChannels =
    alter (ChannelSet.erase channel) clientFd p.clientChannels := by
  unfold eraseChannel alter
  cases p.clientChannels.lookup clientFd <;> rfl

theorem clientChannels_eraseEmptyClient : (p.eraseEmptyClient clientFd).clientChannels =
    dropIfEmpty ChannelSet.channels clientFd p.clientChannels := by
  unfold eraseEmptyClient dropIfEmpty
  cases p.clientChannels.lookup clientFd with
  | none => rfl
  | some s => by_cases hs : s.channels = [] <;> simp [hs]

@[simp] theorem channels_eraseChannel :
    (p.eraseChannel clientFd channel).channels = p.channels := by
  unfold eraseChannel
  split <;> rfl

@[simp] theorem channels_eraseEmptyClient :
    (p.eraseEmptyClient clientFd).channels = p.channels := by
  unfold eraseEmptyClient
  split
  · rfl
  · split <;> rfl

@[simp] theorem clientChannels_removeSubscriber :
    (p.removeSubscriber clientFd channel).clientChannels = p.clientChannels := by
  unfold removeSubscriber
  split <;> rfl

@[simp] theorem clientChannels_eraseEmptyChannel :
    (p.eraseEmptyChannel channel).clientChannels = p.clientChannels := by
  unfold eraseEmptyChannel
  split
  · rfl
  · split <;> rfl

@[simp] theorem clientChannels_eraseSubscriber :
    (p.eraseSubscriber clientFd channel).clientChannels = p.clientChannels := by
  rw [eraseSubscriber, clientChannels_eraseEmptyChannel, clientChannels_removeSubscriber]

end Parts

section Effects

variable {p : PubSubManager} {clientFd fd : Socket} {channel c : Bytes}

/-- A client leaves the set of a channel. -/
theorem listens_removeSubscriber : (p.removeSubscriber clientFd channel).Listens fd c ↔
    p.Listens fd c ∧ ¬ (c = channel ∧ fd = clientFd) := by
  rw [Listens, channels_removeSubscriber]
  exact holds_alter fun _ _ => SocketSet.mem_erase

/-- Forgetting an empty set takes nobody out of a channel. -/
@[simp] theorem listens_eraseEmptyChannel :
    (p.eraseEmptyChannel channel).Listens fd c ↔ p.Listens fd c := by
  rw [Listens, channels_eraseEmptyChannel]
  exact holds_dropIfEmpty

/-- A client leaves a channel, which is forgotten if nobody is left. -/
theorem listens_eraseSubscriber : (p.eraseSubscriber clientFd channel).Listens fd c ↔
    p.Listens fd c ∧ ¬ (c = channel ∧ fd = clientFd) := by
  rw [eraseSubscriber, listens_eraseEmptyChannel, listens_removeSubscriber]

/-- A channel leaves the set of a client. -/
theorem hasChannel_eraseChannel : (p.eraseChannel clientFd channel).HasChannel fd c ↔
    p.HasChannel fd c ∧ ¬ (fd = clientFd ∧ c = channel) := by
  rw [HasChannel, clientChannels_eraseChannel]
  exact holds_alter fun _ _ => ChannelSet.mem_erase

/-- The sets of the clients do not matter for the sets of the channels. -/
@[simp] theorem listens_eraseEmptyClient :
    (p.eraseEmptyClient clientFd).Listens fd c ↔ p.Listens fd c := by
  rw [Listens, channels_eraseEmptyClient, Listens]

/-- Forgetting an empty set takes no channel from a client. -/
@[simp] theorem hasChannel_eraseEmptyClient :
    (p.eraseEmptyClient clientFd).HasChannel fd c ↔ p.HasChannel fd c := by
  rw [HasChannel, clientChannels_eraseEmptyClient]
  exact holds_dropIfEmpty

/-- A set of subscribers that becomes empty is forgotten. -/
theorem emptyChannel_of_eraseSubscriber
    (h : (p.eraseSubscriber clientFd channel).EmptyChannel c) : p.EmptyChannel c := by
  rw [EmptyChannel, eraseSubscriber, channels_eraseEmptyChannel, keepsEmpty_dropIfEmpty,
    channels_removeSubscriber] at h
  exact (keepsEmpty_alter_ne _ h.1).mp h.2

/-- Only the set of the client itself can become empty. -/
theorem emptyClient_of_eraseChannel (hfd : fd ≠ clientFd)
    (h : (p.eraseChannel clientFd channel).EmptyClient fd) : p.EmptyClient fd := by
  rw [EmptyClient, clientChannels_eraseChannel] at h
  exact (keepsEmpty_alter_ne _ hfd).mp h

/-- Afterwards the set of the client is not empty. -/
theorem emptyClient_eraseEmptyClient :
    (p.eraseEmptyClient clientFd).EmptyClient fd ↔ fd ≠ clientFd ∧ p.EmptyClient fd := by
  rw [EmptyClient, clientChannels_eraseEmptyClient]
  exact keepsEmpty_dropIfEmpty

end Effects

/-! ### The operations as loops -/

/-- One round of `subscribe`, without the count that it returns. -/
def addSubscription (clientFd : Socket) (p : PubSubManager) (channel : Bytes) : PubSubManager where
  channels := p.channels.insert channel (((p.channels.lookup channel).getD .empty).insert clientFd)
  clientChannels := p.clientChannels.insert clientFd
    (((p.clientChannels.lookup clientFd).getD .empty).insert channel)

/-- One round of `unsubscribe`, without the count that it returns. -/
def takeSubscription (clientFd : Socket) (p : PubSubManager) (channel : Bytes) : PubSubManager :=
  (p.eraseSubscriber clientFd channel).eraseChannel clientFd channel

/-- The sockets that `publish` could not reach. -/
def deadSockets (channel message : Bytes) (p : PubSubManager) (net : Network) : List Socket :=
  match p.channels.lookup channel with
  | none => []
  | some subscribers => (deliver (pushMsg channel message) subscribers.sockets net).2.1

/-- `subscribe` collects one count a round. -/
theorem subscribe_eq (clientFd : Socket) (channels : List Bytes) (p : PubSubManager) :
    p.subscribe clientFd channels =
      channels.foldl (collectStep (addSubscription clientFd) fun channel p =>
        (channel, p.subCount clientFd)) ([], p) := rfl

theorem subscribe_snd (clientFd : Socket) (channels : List Bytes) (p : PubSubManager) :
    (p.subscribe clientFd channels).2 = channels.foldl (addSubscription clientFd) p := by
  rw [subscribe_eq]
  exact foldl_collectStep_snd _ _ _ _ _

/-- `unsubscribe` collects one count a round, if there is something to do. -/
theorem unsubscribe_eq {clientFd : Socket} {channels : List Bytes} {p : PubSubManager}
    (h : p.toUnsub clientFd channels ≠ []) :
    p.unsubscribe clientFd channels =
      let result := (p.toUnsub clientFd channels).foldl
        (collectStep (takeSubscription clientFd) fun channel p => (channel, p.subCount clientFd))
        ([], p)
      (result.1, result.2.eraseEmptyClient clientFd) := by
  rw [unsubscribe, if_neg h]
  rfl

theorem unsubscribe_snd {clientFd : Socket} {channels : List Bytes} {p : PubSubManager}
    (h : p.toUnsub clientFd channels ≠ []) :
    (p.unsubscribe clientFd channels).2 =
      ((p.toUnsub clientFd channels).foldl (takeSubscription clientFd) p).eraseEmptyClient
        clientFd := by
  rw [unsubscribe_eq h]
  exact congrArg (eraseEmptyClient clientFd) (foldl_collectStep_snd _ _ _ _ _)

/-- `publish` takes the sockets that it could not reach out of the channel. -/
theorem publish_manager (channel message : Bytes) (p : PubSubManager) (net : Network) :
    (p.publish channel message net).2.1 =
      ((p.deadSockets channel message net).foldl (dropDead channel) p).eraseEmptyChannel
        channel := by
  unfold publish deadSockets
  cases h : p.channels.lookup channel with
  | none => simp [eraseEmptyChannel, h]
  | some subscribers => rfl

section Rounds

variable {p : PubSubManager} {clientFd fd : Socket} {channel c : Bytes}

theorem listens_addSubscription : (addSubscription clientFd p channel).Listens fd c ↔
    p.Listens fd c ∨ c = channel ∧ fd = clientFd := by
  refine holds_insert ?_
  intro a
  rw [SocketSet.mem_insert, mem_getD_lookup rfl]

theorem hasChannel_addSubscription : (addSubscription clientFd p channel).HasChannel fd c ↔
    p.HasChannel fd c ∨ fd = clientFd ∧ c = channel := by
  refine holds_insert ?_
  intro a
  rw [ChannelSet.mem_insert, mem_getD_lookup rfl]

/-- A set with a new member is not empty. -/
theorem emptyChannel_of_addSubscription (h : (addSubscription clientFd p channel).EmptyChannel c) :
    p.EmptyChannel c :=
  ((keepsEmpty_insert (List.ne_nil_of_mem (SocketSet.mem_insert.mpr (Or.inr rfl)))).mp h).2

theorem emptyClient_of_addSubscription (h : (addSubscription clientFd p channel).EmptyClient fd) :
    p.EmptyClient fd :=
  ((keepsEmpty_insert (List.ne_nil_of_mem (ChannelSet.mem_insert.mpr (Or.inr rfl)))).mp h).2

theorem listens_takeSubscription : (takeSubscription clientFd p channel).Listens fd c ↔
    p.Listens fd c ∧ ¬ (c = channel ∧ fd = clientFd) := by
  rw [takeSubscription, Listens, channels_eraseChannel]
  exact listens_eraseSubscriber

theorem hasChannel_takeSubscription : (takeSubscription clientFd p channel).HasChannel fd c ↔
    p.HasChannel fd c ∧ ¬ (fd = clientFd ∧ c = channel) := by
  rw [takeSubscription, hasChannel_eraseChannel, HasChannel, clientChannels_eraseSubscriber]
  rfl

theorem emptyChannel_of_takeSubscription
    (h : (takeSubscription clientFd p channel).EmptyChannel c) : p.EmptyChannel c := by
  rw [takeSubscription, EmptyChannel, channels_eraseChannel] at h
  exact emptyChannel_of_eraseSubscriber h

theorem emptyClient_of_takeSubscription (hfd : fd ≠ clientFd)
    (h : (takeSubscription clientFd p channel).EmptyClient fd) : p.EmptyClient fd := by
  have herased := emptyClient_of_eraseChannel hfd h
  rwa [EmptyClient, clientChannels_eraseSubscriber] at herased

theorem listens_dropDead : (dropDead channel p clientFd).Listens fd c ↔
    p.Listens fd c ∧ ¬ (c = channel ∧ fd = clientFd) := by
  rw [dropDead, Listens, channels_eraseEmptyClient, channels_eraseChannel]
  exact listens_removeSubscriber

theorem hasChannel_dropDead : (dropDead channel p clientFd).HasChannel fd c ↔
    p.HasChannel fd c ∧ ¬ (fd = clientFd ∧ c = channel) := by
  rw [dropDead, hasChannel_eraseEmptyClient, hasChannel_eraseChannel, HasChannel,
    clientChannels_removeSubscriber]
  rfl

theorem emptyChannel_of_dropDead (hc : c ≠ channel)
    (h : (dropDead channel p clientFd).EmptyChannel c) : p.EmptyChannel c := by
  rw [dropDead, EmptyChannel, channels_eraseEmptyClient, channels_eraseChannel,
    channels_removeSubscriber] at h
  exact (keepsEmpty_alter_ne _ hc).mp h

theorem emptyClient_of_dropDead (h : (dropDead channel p clientFd).EmptyClient fd) :
    p.EmptyClient fd := by
  rw [dropDead, emptyClient_eraseEmptyClient] at h
  have herased := emptyClient_of_eraseChannel h.1 h.2
  rwa [EmptyClient, clientChannels_removeSubscriber] at herased

/-! #### Whole loops -/

theorem listens_foldl_addSubscription (channels : List Bytes) :
    (channels.foldl (addSubscription clientFd) p).Listens fd c ↔
      p.Listens fd c ∨ fd = clientFd ∧ c ∈ channels := by
  refine (foldl_or (P := fun q : PubSubManager => q.Listens fd c)
    (addSubscription clientFd) (fun _ _ => listens_addSubscription) channels p).trans ?_
  simp [and_comm]

theorem hasChannel_foldl_addSubscription (channels : List Bytes) :
    (channels.foldl (addSubscription clientFd) p).HasChannel fd c ↔
      p.HasChannel fd c ∨ fd = clientFd ∧ c ∈ channels := by
  refine (foldl_or (P := fun q : PubSubManager => q.HasChannel fd c)
    (addSubscription clientFd) (fun _ _ => hasChannel_addSubscription) channels p).trans ?_
  simp [and_comm]

theorem listens_foldl_takeSubscription (channels : List Bytes) :
    (channels.foldl (takeSubscription clientFd) p).Listens fd c ↔
      p.Listens fd c ∧ ¬ (fd = clientFd ∧ c ∈ channels) := by
  refine (foldl_and_not (P := fun q : PubSubManager => q.Listens fd c)
    (takeSubscription clientFd) (fun _ _ => listens_takeSubscription) channels p).trans ?_
  simp [and_comm]

theorem hasChannel_foldl_takeSubscription (channels : List Bytes) :
    (channels.foldl (takeSubscription clientFd) p).HasChannel fd c ↔
      p.HasChannel fd c ∧ ¬ (fd = clientFd ∧ c ∈ channels) := by
  refine (foldl_and_not (P := fun q : PubSubManager => q.HasChannel fd c)
    (takeSubscription clientFd) (fun _ _ => hasChannel_takeSubscription) channels p).trans ?_
  simp [and_comm]

theorem listens_foldl_dropDead (deadSockets : List Socket) :
    (deadSockets.foldl (dropDead channel) p).Listens fd c ↔
      p.Listens fd c ∧ ¬ (c = channel ∧ fd ∈ deadSockets) := by
  refine (foldl_and_not (P := fun q : PubSubManager => q.Listens fd c)
    (dropDead channel) (fun _ _ => listens_dropDead) deadSockets p).trans ?_
  simp [and_comm]

theorem hasChannel_foldl_dropDead (deadSockets : List Socket) :
    (deadSockets.foldl (dropDead channel) p).HasChannel fd c ↔
      p.HasChannel fd c ∧ ¬ (c = channel ∧ fd ∈ deadSockets) := by
  refine (foldl_and_not (P := fun q : PubSubManager => q.HasChannel fd c)
    (dropDead channel) (fun _ _ => hasChannel_dropDead) deadSockets p).trans ?_
  simp [and_comm]

theorem listens_foldl_eraseSubscriber (channels : List Bytes) :
    (channels.foldl (fun q channel => q.eraseSubscriber clientFd channel) p).Listens fd c ↔
      p.Listens fd c ∧ ¬ (fd = clientFd ∧ c ∈ channels) := by
  refine (foldl_and_not (P := fun q : PubSubManager => q.Listens fd c)
    (fun q channel => q.eraseSubscriber clientFd channel) (fun _ _ => listens_eraseSubscriber)
    channels p).trans ?_
  simp [and_comm]

end Rounds

/-! ### The invariant -/

/-- The two maps are two views of one relation, and neither keeps an empty set. -/
structure Indexed (p : PubSubManager) : Prop where
  /-- The client is in the set of the channel if the channel is in the set of the client. -/
  agree : ∀ fd c, p.Listens fd c ↔ p.HasChannel fd c
  /-- No channel is kept without subscribers. -/
  not_emptyChannel : ∀ c, ¬ p.EmptyChannel c
  /-- No client is kept without channels. -/
  not_emptyClient : ∀ fd, ¬ p.EmptyClient fd

/-- The iteration orders do not matter. -/
theorem Indexed.reordered {p p' : PubSubManager} (h : p.Indexed) (hre : p.Reordered p') :
    p'.Indexed where
  agree fd c := by rw [hre.listens_iff, hre.hasChannel_iff, h.agree]
  not_emptyChannel c := by
    rw [EmptyChannel, keepsEmpty_congr (hre.lookup_channels c)]
    exact h.not_emptyChannel c
  not_emptyClient fd := by
    rw [hre.emptyClient_iff]
    exact h.not_emptyClient fd

/-- The relation that the manager stands for. -/
def subscriptions (p : PubSubManager) : Set (Socket × Bytes) :=
  {x | p.HasChannel x.1 x.2}

/-- The iteration orders do not change the relation. -/
theorem Reordered.subscriptions_eq {p p' : PubSubManager} (h : p.Reordered p') :
    p'.subscriptions = p.subscriptions := by
  ext x
  exact h.hasChannel_iff

@[simp] theorem mem_subscriptions {p : PubSubManager} {fd : Socket} {c : Bytes} :
    (fd, c) ∈ p.subscriptions ↔ p.HasChannel fd c := Iff.rfl

theorem indexed_empty : Indexed empty where
  agree _ _ := by simp [Listens, HasChannel, empty]
  not_emptyChannel _ := not_keepsEmpty_empty
  not_emptyClient _ := not_keepsEmpty_empty

section Operations

variable {p : PubSubManager} (h : p.Indexed) (clientFd : Socket)
include h

/-! #### subscribe -/

omit h in
theorem listens_subscribe (channels : List Bytes) {fd : Socket} {c : Bytes} :
    (p.subscribe clientFd channels).2.Listens fd c ↔
      p.Listens fd c ∨ fd = clientFd ∧ c ∈ channels := by
  rw [subscribe_snd, listens_foldl_addSubscription]

omit h in
theorem hasChannel_subscribe (channels : List Bytes) {fd : Socket} {c : Bytes} :
    (p.subscribe clientFd channels).2.HasChannel fd c ↔
      p.HasChannel fd c ∨ fd = clientFd ∧ c ∈ channels := by
  rw [subscribe_snd, hasChannel_foldl_addSubscription]

/-- `subscribe` keeps the invariant. -/
theorem Indexed.subscribe (channels : List Bytes) : (p.subscribe clientFd channels).2.Indexed where
  agree fd c := by rw [listens_subscribe, hasChannel_subscribe, h.agree]
  not_emptyChannel c := by
    rw [subscribe_snd]
    intro hempty
    exact h.not_emptyChannel c
      (of_foldl (P := (EmptyChannel · c)) (fun _ _ => emptyChannel_of_addSubscription) _ hempty)
  not_emptyClient fd := by
    rw [subscribe_snd]
    intro hempty
    exact h.not_emptyClient fd
      (of_foldl (P := (EmptyClient · fd)) (fun _ _ => emptyClient_of_addSubscription) _ hempty)

/-! #### unsubscribe -/

omit h in
/-- Without channels given, `unsubscribe` goes through all channels of the client. -/
theorem mem_toUnsub (channels : List Bytes) {c : Bytes} (hc : p.HasChannel clientFd c) :
    c ∈ p.toUnsub clientFd channels ↔ channels = [] ∨ c ∈ channels := by
  obtain ⟨own, hlookup, hown⟩ := hc
  unfold toUnsub
  split
  · rename_i hnil
    rw [hlookup]
    simp [hnil, hown]
  · rename_i hnil
    simp [hnil]

omit h in
/-- If there is nothing to go through, no channels were given and the client has none. -/
theorem toUnsub_eq_nil {channels : List Bytes} (hnil : p.toUnsub clientFd channels = []) :
    channels = [] ∧ ∀ c, ¬ p.HasChannel clientFd c := by
  have hchannels : channels = [] := by
    by_contra hne
    rw [toUnsub, if_neg hne] at hnil
    exact hne hnil
  refine ⟨hchannels, ?_⟩
  intro c hc
  have hmem := (mem_toUnsub clientFd channels hc).mpr (Or.inl hchannels)
  rw [hnil] at hmem
  exact List.not_mem_nil hmem

omit h in
theorem hasChannel_unsubscribe (channels : List Bytes) {fd : Socket} {c : Bytes} :
    (p.unsubscribe clientFd channels).2.HasChannel fd c ↔
      p.HasChannel fd c ∧ ¬ (fd = clientFd ∧ (channels = [] ∨ c ∈ channels)) := by
  by_cases hnil : p.toUnsub clientFd channels = []
  · rw [unsubscribe, if_pos hnil, iff_self_and]
    rintro hc ⟨rfl, _⟩
    exact (toUnsub_eq_nil fd hnil).2 c hc
  · rw [unsubscribe_snd hnil, hasChannel_eraseEmptyClient, hasChannel_foldl_takeSubscription]
    refine and_congr_right ?_
    intro hc
    refine not_congr (and_congr_right ?_)
    rintro rfl
    exact mem_toUnsub fd channels hc

/-- `unsubscribe` keeps the invariant.  In the course of its loop the set of the client itself may
become empty. -/
theorem Indexed.unsubscribe (channels : List Bytes) :
    (p.unsubscribe clientFd channels).2.Indexed := by
  by_cases hnil : p.toUnsub clientFd channels = []
  · rw [PubSubManager.unsubscribe, if_pos hnil]
    exact h
  · rw [unsubscribe_snd hnil]
    constructor
    · intro fd c
      rw [listens_eraseEmptyClient, listens_foldl_takeSubscription, hasChannel_eraseEmptyClient,
        hasChannel_foldl_takeSubscription, h.agree]
    · intro c hempty
      rw [EmptyChannel, channels_eraseEmptyClient] at hempty
      exact h.not_emptyChannel c
        (of_foldl (P := (EmptyChannel · c)) (fun _ _ => emptyChannel_of_takeSubscription) _ hempty)
    · intro fd hempty
      obtain ⟨hfd, hempty⟩ := emptyClient_eraseEmptyClient.mp hempty
      exact h.not_emptyClient fd (of_foldl (P := (EmptyClient · fd))
        (fun _ _ => emptyClient_of_takeSubscription hfd) _ hempty)

/-! #### publish -/

omit h in
theorem listens_publish (channel message : Bytes) (net : Network) {fd : Socket} {c : Bytes} :
    (p.publish channel message net).2.1.Listens fd c ↔
      p.Listens fd c ∧ ¬ (c = channel ∧ fd ∈ p.deadSockets channel message net) := by
  rw [publish_manager, listens_eraseEmptyChannel, listens_foldl_dropDead]

omit h in
theorem hasChannel_publish (channel message : Bytes) (net : Network) {fd : Socket} {c : Bytes} :
    (p.publish channel message net).2.1.HasChannel fd c ↔
      p.HasChannel fd c ∧ ¬ (c = channel ∧ fd ∈ p.deadSockets channel message net) := by
  rw [publish_manager, HasChannel, clientChannels_eraseEmptyChannel]
  exact hasChannel_foldl_dropDead _

/-- `publish` keeps the invariant.  In the course of its loop the set of the channel itself may
become empty. -/
theorem Indexed.publish (channel message : Bytes) (net : Network) :
    (p.publish channel message net).2.1.Indexed where
  agree fd c := by rw [listens_publish, hasChannel_publish, h.agree]
  not_emptyChannel c := by
    rw [publish_manager, EmptyChannel, channels_eraseEmptyChannel, keepsEmpty_dropIfEmpty]
    rintro ⟨hc, hempty⟩
    exact h.not_emptyChannel c
      (of_foldl (P := (EmptyChannel · c)) (fun _ _ => emptyChannel_of_dropDead hc) _ hempty)
  not_emptyClient fd := by
    rw [publish_manager, EmptyClient, clientChannels_eraseEmptyChannel]
    intro hempty
    exact h.not_emptyClient fd
      (of_foldl (P := (EmptyClient · fd)) (fun _ _ => emptyClient_of_dropDead) _ hempty)

/-! #### client_disconnected -/

omit h in
theorem clientChannels_clientDisconnected :
    (p.clientDisconnected clientFd).clientChannels = p.clientChannels.erase clientFd := by
  unfold clientDisconnected
  split
  · rename_i hlookup
    rw [AList.lookup_eq_none] at hlookup
    exact (AList.ext (List.kerase_of_notMem_keys hlookup)).symm
  · rename_i own _
    refine congrArg (AList.erase clientFd) ?_
    refine List.foldlRecOn (motive := fun q : PubSubManager =>
      q.clientChannels = p.clientChannels) _ _ rfl ?_
    intro q hq channel _
    rw [clientChannels_eraseSubscriber, hq]

omit h in
theorem hasChannel_clientDisconnected {fd : Socket} {c : Bytes} :
    (p.clientDisconnected clientFd).HasChannel fd c ↔ p.HasChannel fd c ∧ fd ≠ clientFd := by
  rw [HasChannel, clientChannels_clientDisconnected]
  exact holds_erase

theorem listens_clientDisconnected {fd : Socket} {c : Bytes} :
    (p.clientDisconnected clientFd).Listens fd c ↔ p.Listens fd c ∧ fd ≠ clientFd := by
  unfold clientDisconnected
  split
  · rename_i hlookup
    rw [iff_self_and, h.agree]
    rintro hc rfl
    exact not_holds_of_lookup hlookup hc
  · rename_i own hlookup
    refine (listens_foldl_eraseSubscriber own.channels).trans (and_congr_right ?_)
    intro hc
    refine not_congr (and_iff_left_iff_imp.mpr ?_)
    -- the channels of the client are just those in whose sets it is
    rintro rfl
    exact (holds_iff_of_lookup hlookup).mp ((h.agree fd c).mp hc)

/-- `client_disconnected` keeps the invariant. -/
theorem Indexed.clientDisconnected : (p.clientDisconnected clientFd).Indexed where
  agree fd c := by rw [listens_clientDisconnected h, hasChannel_clientDisconnected, h.agree]
  not_emptyChannel c := by
    unfold PubSubManager.clientDisconnected
    split
    · exact h.not_emptyChannel c
    · intro hempty
      exact h.not_emptyChannel c
        (of_foldl (P := (EmptyChannel · c)) (fun _ _ => emptyChannel_of_eraseSubscriber) _ hempty)
  not_emptyClient fd := by
    rw [EmptyClient, clientChannels_clientDisconnected, keepsEmpty_erase]
    rintro ⟨_, hempty⟩
    exact h.not_emptyClient fd hempty

end Operations

end PubSubManager

end MyRedis
