import Mathlib.Data.List.Sort
import MyRedis.Database.Basic
import MyRedis.Resp.Serialize

/-!
# Publish and subscribe

The class `PubSubManager` of `pubsub.h` and `pubsub.cpp`, and the socket output it uses.

Two maps are kept: for each channel the sockets that listen to it, and for each socket the channels
it listens to.  A `std::set<socket_t>` is a strictly increasing list, a
`std::unordered_set<std::string>` a list without repetition in the current iteration order, which
may become another one at any time (`PubSubManager.Reordered`).  What the calls of `socket_write` do
is decided by the environment: the `Network` carries the outcomes of the calls to come and a record
of the bytes that went out.
-/

namespace MyRedis

open Foundation Resp

/-- A `socket_t`. -/
abbrev Socket := ℤ

/-! ### Socket output -/

/-- The sockets as the writing process sees them. -/
structure Network where
  /-- The outcomes of the calls of `socket_write` to come: a failure, or at most so many bytes
  written beyond the first. -/
  writes : ℕ → Option ℕ
  /-- The bytes that went out, oldest first. -/
  sent : List (Socket × Bytes)

namespace Network

/-- One call of `socket_write` has been made and has sent `data`. -/
def wrote (net : Network) (data : List (Socket × Bytes)) : Network where
  writes := fun i => net.writes (i + 1)
  sent := net.sent ++ data

/-- The loop of `write_exact`.  Every round sends at least one byte, so that the length of the data
is enough fuel. -/
def writeLoop (sock : Socket) : ℕ → Bytes → Network → Bool × Network
  | 0, _, net => (true, net)
  | fuel + 1, data, net =>
    if data = [] then (true, net)
    else
      match net.writes 0 with
      | none => (false, net.wrote [])
      | some more =>
        writeLoop sock fuel (data.drop (more + 1)) (net.wrote [(sock, data.take (more + 1))])

/-- `Resp::send_response`, which is `write_exact` on the whole text. -/
def sendResponse (sock : Socket) (respData : Bytes) (net : Network) : Bool × Network :=
  net.writeLoop sock respData.length respData

end Network

/-! ### Sets -/

/-- A `std::set<socket_t>`. -/
structure SocketSet where
  /-- The sockets in iteration order. -/
  sockets : List Socket
  /-- The order is increasing. -/
  sorted : sockets.Pairwise (· < ·)
deriving DecidableEq

namespace SocketSet

/-- The empty set. -/
def empty : SocketSet := ⟨[], List.Pairwise.nil⟩

/-- Inserting a new element at its place keeps the order. -/
theorem pairwise_orderedInsert {fd : Socket} {l : List Socket} (hl : l.Pairwise (· < ·))
    (hfd : fd ∉ l) : (l.orderedInsert (· ≤ ·) fd).Pairwise (· < ·) := by
  have hle : (l.orderedInsert (· ≤ ·) fd).Pairwise (· ≤ ·) :=
    List.Pairwise.orderedInsert fd l (hl.imp le_of_lt)
  have hnodup : (l.orderedInsert (· ≤ ·) fd).Nodup := by
    rw [(List.perm_orderedInsert (· ≤ ·) fd l).nodup_iff]
    exact List.nodup_cons.mpr ⟨hfd, hl.imp ne_of_lt⟩
  exact (hle.and hnodup).imp fun h => lt_of_le_of_ne h.1 h.2

/-- Insert an element. -/
def insert (fd : Socket) (s : SocketSet) : SocketSet :=
  if h : fd ∈ s.sockets then s else ⟨_, pairwise_orderedInsert s.sorted h⟩

/-- Erase an element. -/
def erase (fd : Socket) (s : SocketSet) : SocketSet :=
  ⟨s.sockets.erase fd, s.sorted.sublist List.erase_sublist⟩

end SocketSet

/-- A `std::unordered_set<std::string>`. -/
structure ChannelSet where
  /-- The channels in iteration order. -/
  channels : List Bytes
  /-- No channel is there twice. -/
  nodup : channels.Nodup
deriving DecidableEq

namespace ChannelSet

/-- The empty set. -/
def empty : ChannelSet := ⟨[], List.nodup_nil⟩

/-- Insert an element. -/
def insert (channel : Bytes) (s : ChannelSet) : ChannelSet :=
  ⟨s.channels.insert channel, s.nodup.insert⟩

/-- Erase an element. -/
def erase (channel : Bytes) (s : ChannelSet) : ChannelSet :=
  ⟨s.channels.erase channel, s.nodup.erase channel⟩

end ChannelSet

/-! ### The manager -/

/-- The state of the class `PubSubManager`. -/
structure PubSubManager where
  /-- The subscribers of each channel. -/
  channels : UnorderedMap Bytes SocketSet
  /-- The channels of each client. -/
  clientChannels : UnorderedMap Socket ChannelSet
deriving DecidableEq

namespace PubSubManager

/-- The state after construction. -/
def empty : PubSubManager where
  channels := ∅
  clientChannels := ∅

/-- The two states differ at most in the iteration orders of the maps and of the sets of
channels. -/
structure Reordered (p p' : PubSubManager) : Prop where
  /-- The same subscribers of each channel. -/
  channels : p.channels.entries.Perm p'.channels.entries
  /-- The same channels of each client, in some order. -/
  clientChannels : ∀ clientFd,
    Option.Rel (fun own own' : ChannelSet => own.channels.Perm own'.channels)
      (p.clientChannels.lookup clientFd) (p'.clientChannels.lookup clientFd)

/-- `is_subscribed`: the client has at least one channel. -/
def isSubscribed (p : PubSubManager) (clientFd : Socket) : Bool :=
  match p.clientChannels.lookup clientFd with
  | none => false
  | some channels => decide (channels.channels ≠ [])

/-- The number of channels of a client, as an `int`. -/
def subCount (p : PubSubManager) (clientFd : Socket) : Int32 :=
  match p.clientChannels.lookup clientFd with
  | none => 0
  | some channels => Int32.ofNat channels.channels.length

/-- Remove a client from the subscribers of a channel. -/
def removeSubscriber (clientFd : Socket) (channel : Bytes) (p : PubSubManager) : PubSubManager :=
  match p.channels.lookup channel with
  | none => p
  | some subscribers =>
    { p with channels := p.channels.insert channel (subscribers.erase clientFd) }

/-- Forget a channel whose set of subscribers is empty. -/
def eraseEmptyChannel (channel : Bytes) (p : PubSubManager) : PubSubManager :=
  match p.channels.lookup channel with
  | none => p
  | some subscribers =>
    if subscribers.sockets = [] then { p with channels := p.channels.erase channel } else p

/-- Remove a client from the subscribers of a channel, and the channel if it has no others. -/
def eraseSubscriber (clientFd : Socket) (channel : Bytes) (p : PubSubManager) : PubSubManager :=
  (p.removeSubscriber clientFd channel).eraseEmptyChannel channel

/-- Remove a channel from the set of a client, which may become empty. -/
def eraseChannel (clientFd : Socket) (channel : Bytes) (p : PubSubManager) : PubSubManager :=
  match p.clientChannels.lookup clientFd with
  | none => p
  | some channels =>
    { p with clientChannels := p.clientChannels.insert clientFd (channels.erase channel) }

/-- Forget a client whose set of channels is empty. -/
def eraseEmptyClient (clientFd : Socket) (p : PubSubManager) : PubSubManager :=
  match p.clientChannels.lookup clientFd with
  | none => p
  | some channels =>
    if channels.channels = [] then { p with clientChannels := p.clientChannels.erase clientFd }
    else p

/-- The loop body of `subscribe`. -/
def subscribeStep (clientFd : Socket) (acc : List (Bytes × Int32) × PubSubManager)
    (channel : Bytes) : List (Bytes × Int32) × PubSubManager :=
  let p := acc.2
  let subscribers := (p.channels.lookup channel).getD .empty
  let channels := (p.clientChannels.lookup clientFd).getD .empty
  let p : PubSubManager :=
    { channels := p.channels.insert channel (subscribers.insert clientFd)
      clientChannels := p.clientChannels.insert clientFd (channels.insert channel) }
  (acc.1 ++ [(channel, p.subCount clientFd)], p)

/-- `subscribe`: for each channel, its name and the number of channels of the client by then. -/
def subscribe (clientFd : Socket) (channels : List Bytes) (p : PubSubManager) :
    List (Bytes × Int32) × PubSubManager :=
  channels.foldl (subscribeStep clientFd) ([], p)

/-- The loop body of `unsubscribe`. -/
def unsubscribeStep (clientFd : Socket) (acc : List (Bytes × Int32) × PubSubManager)
    (channel : Bytes) : List (Bytes × Int32) × PubSubManager :=
  let p := (acc.2.eraseSubscriber clientFd channel).eraseChannel clientFd channel
  (acc.1 ++ [(channel, p.subCount clientFd)], p)

/-- The channels that `unsubscribe` goes through: all channels of the client, if none is given. -/
def toUnsub (clientFd : Socket) (channels : List Bytes) (p : PubSubManager) : List Bytes :=
  if channels = [] then
    match p.clientChannels.lookup clientFd with
    | none => []
    | some own => own.channels
  else channels

/-- `unsubscribe`: for each channel, its name and the number of channels that the client has left;
a single `*` if there is nothing to do. -/
def unsubscribe (clientFd : Socket) (channels : List Bytes) (p : PubSubManager) :
    List (Bytes × Int32) × PubSubManager :=
  if p.toUnsub clientFd channels = [] then ([(ascii "*", 0)], p)
  else
    let result := (p.toUnsub clientFd channels).foldl (unsubscribeStep clientFd) ([], p)
    (result.1, result.2.eraseEmptyClient clientFd)

/-- The message that `publish` sends. -/
def pushMsg (channel message : Bytes) : Bytes :=
  array [bulkString (ascii "message"), bulkString channel, bulkString message]

/-- The sending loop of `publish`: the number of deliveries, and the sockets that failed. -/
def deliver (msg : Bytes) : List Socket → Network → Int32 × List Socket × Network
  | [], net => (0, [], net)
  | subFd :: later, net =>
    let sent := net.sendResponse subFd msg
    let rest := deliver msg later sent.2
    if sent.1 then (rest.1 + 1, rest.2) else (rest.1, subFd :: rest.2.1, rest.2.2)

/-- The clean-up of `publish` for one socket that failed. -/
def dropDead (channel : Bytes) (p : PubSubManager) (deadFd : Socket) : PubSubManager :=
  ((p.removeSubscriber deadFd channel).eraseChannel deadFd channel).eraseEmptyClient deadFd

/-- `publish`: send the message to every subscriber of the channel and return the number of those
that received it.  Subscribers that could not be reached lose this channel. -/
def publish (channel message : Bytes) (p : PubSubManager) (net : Network) :
    Int32 × PubSubManager × Network :=
  match p.channels.lookup channel with
  | none => (0, p, net)
  | some subscribers =>
    let result := deliver (pushMsg channel message) subscribers.sockets net
    (result.1, (result.2.1.foldl (dropDead channel) p).eraseEmptyChannel channel, result.2.2)

/-- `client_disconnected`: remove the client from all its channels. -/
def clientDisconnected (clientFd : Socket) (p : PubSubManager) : PubSubManager :=
  match p.clientChannels.lookup clientFd with
  | none => p
  | some own =>
    let p := own.channels.foldl (fun p channel => p.eraseSubscriber clientFd channel) p
    { p with clientChannels := p.clientChannels.erase clientFd }

/-- `active_channel_count`: the number of entries of the first map. -/
def activeChannelCount (p : PubSubManager) : ℕ :=
  p.channels.entries.length

/-- `total_subscription_count`: the sizes of the sets of the second map, added up. -/
def totalSubscriptionCount (p : PubSubManager) : ℕ :=
  p.clientChannels.entries.foldl (fun total pair => total + pair.2.channels.length) 0

end PubSubManager

end MyRedis
