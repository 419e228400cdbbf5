import MyRedis.Commands.Plans
import MyRedis.Database.Refinement
import MyRedis.Server.Basic

/-!
# The service that the server offers

What the server is for, without its hash maps, its purging reads, its two indices of subscriptions,
its files and its buffers: a `Service` knows the keys with their values and deadlines, the relation
between clients and channels, the connected clients, those of them that have given the password, and
the time.  Its commands are the plans of `MyRedis.Commands.Plans`, now read as steps on this
knowledge.

The service has no transactions, since the server makes a new handler for every command.  It leaves
open what the store leaves open (which of the listed keys that no longer exist `DEL` counts, the
order of `KEYS`), the result of an operation that is not within the range of an `int`
(`TimedStore.Fits`), whether a save succeeds and which subscribers can be reached.
-/

namespace MyRedis

open Foundation Resp PubSubManager

/-- What the service knows. -/
structure Service where
  /-- The keys with their values and deadlines. -/
  store : TimedStore
  /-- Which client listens to which channel. -/
  subs : Set (Socket × Bytes)
  /-- The connected clients. -/
  clients : Finset Socket
  /-- The clients that have given the password. -/
  admitted : Set Socket
  /-- The latest instant at which something was done. -/
  now : TimePoint

namespace Service

/-! ### What the service does -/

/-- Carry out an operation on the store at an instant. -/
def carryOut (now : TimePoint) (op : DbOp) (a : Service) : Service :=
  { a with store := (TimedStore.apply now a.store op).2, now := now }

/-- The number of channels of a client, as an `int`. -/
noncomputable def channelCount (fd : Socket) (subs : Set (Socket × Bytes)) : Int32 :=
  Int32.ofNat {c | (fd, c) ∈ subs}.ncard

/-- A client listens to one more channel. -/
def listen (fd : Socket) (subs : Set (Socket × Bytes)) (channel : Bytes) : Set (Socket × Bytes) :=
  insert (fd, channel) subs

/-- A client listens to one channel less. -/
def unlisten (fd : Socket) (subs : Set (Socket × Bytes)) (channel : Bytes) :
    Set (Socket × Bytes) :=
  subs \ {(fd, channel)}

/-- One change after the other: each channel, and the number of channels that the client has by
then. -/
noncomputable def counted (change : Set (Socket × Bytes) → Bytes → Set (Socket × Bytes))
    (fd : Socket) (channels : List Bytes) (subs : Set (Socket × Bytes)) : List (Bytes × Int32) :=
  (channels.foldl (collectStep change fun c subs => (c, channelCount fd subs)) ([], subs)).1

/-- How a query is answered.  Every operation takes place at one instant that is not before the
earlier ones; where the store leaves a result open, any result that meets it is an answer, and so is
any result of an operation that is not within the range of an `int`. -/
inductive Answers : Service → Query → Bytes → Service → Prop
  | say (a : Service) (text : Bytes) : Answers a (.say text) text a
  | ask {a : Service} {now : TimePoint} {op : DbOp} {r : DbResult} (text : DbResult → Bytes)
      (hnow : a.now ≤ now)
      (hr : a.store.Fits now op → r.Meets (TimedStore.apply now a.store op).1) :
      Answers a (.ask op text) (text r) (a.carryOut now op)
  | first {a a' : Service} {now : TimePoint} {op : DbOp} {next : Query} {text : Bytes}
      (hnow : a.now ≤ now) (hnext : Answers (a.carryOut now op) next text a') :
      Answers a (.first op next) text a'
  | readClock {a a' : Service} {now : TimePoint} {next : TimePoint → Query} {text : Bytes}
      (hnow : a.now ≤ now) (hnext : Answers { a with now := now } (next now) text a') :
      Answers a (.readClock next) text a'

/-- How a plan of the client `fd` is carried out: the answer, and the messages that are sent to
subscribers. -/
inductive CarriesOut (fd : Socket) : Service → Plan → Bytes → List Send → Service → Prop
  | query {a a' : Service} {q : Query} {text : Bytes} (h : Answers a q text a') :
      CarriesOut fd a (.query q) text [] a'
  | save (a : Service) (filepath : Bytes) (text : Bool → Bytes) (ok : Bool) :
      CarriesOut fd a (.save filepath text) (text ok) [] a
  | subscribe (a : Service) (channels : List Bytes) :
      CarriesOut fd a (.subscribe channels)
        (confirmations "subscribe" (counted (listen fd) fd channels a.subs)) []
        { a with subs := channels.foldl (listen fd) a.subs }
  | unsubscribeNone {a : Service} (hnone : ∀ c, (fd, c) ∉ a.subs) :
      CarriesOut fd a (.unsubscribe []) (confirmations "unsubscribe" [(ascii "*", 0)]) [] a
  /-- The channels that are given, or all channels of the client in some order. -/
  | unsubscribe {a : Service} {channels order : List Bytes} (hne : order ≠ [])
      (hgiven : channels ≠ [] → order = channels)
      (hall : channels = [] → order.Nodup ∧ ∀ c, c ∈ order ↔ (fd, c) ∈ a.subs) :
      CarriesOut fd a (.unsubscribe channels)
        (confirmations "unsubscribe" (counted (unlisten fd) fd order a.subs)) []
        { a with subs := order.foldl (unlisten fd) a.subs }
  /-- The message is sent once to each client of the channel.  A client that cannot be reached no
  longer listens, and is not counted. -/
  | publish {a : Service} {channel message : Bytes} {sends : List Send}
      (hnodup : (sends.map Send.socket).Nodup)
      (hsockets : ∀ fd', fd' ∈ sends.map Send.socket ↔ (fd', channel) ∈ a.subs)
      (hdata : ∀ x ∈ sends, x.data = pushMsg channel message ∧ x.written <+: x.data) :
      CarriesOut fd a (.publish channel message)
        (integerText (Int32.ofNat (sends.countP Send.whole)).toInt) sends
        { a with subs := {x ∈ a.subs |
            ¬ (x.2 = channel ∧ ∃ y ∈ sends, y.socket = x.1 ∧ y.whole = false)} }

/-- What can be seen of the service from outside. -/
inductive Event where
  /-- A client connects. -/
  | join (fd : Socket)
  /-- The connection to a client is closed. -/
  | leave (fd : Socket)
  /-- A command is answered, and messages are sent to subscribers. -/
  | answer (fd : Socket) (cmd : Command) (text : Bytes) (sends : List Send)
deriving DecidableEq

/-- The answers to the commands of transactions: there is never a transaction to be executed or
discarded. -/
def transactionText (cmd : Command) : Bytes :=
  if cmd.name = ascii "MULTI" then ascii "OK"
  else if cmd.name = ascii "EXEC" then ascii "ERR EXEC without MULTI"
  else if cmd.name = ascii "DISCARD" then ascii "ERR DISCARD without MULTI"
  else if cmd.args = [] then wrongArguments "WATCH"
  else ascii "OK"

/-- A password is set and the client has not given it. -/
def Gated (password : Bytes) (a : Service) (fd : Socket) : Prop :=
  password ≠ [] ∧ fd ∉ a.admitted

/-- A client that listens to a channel may not send this command. -/
def Restricted (a : Service) (fd : Socket) (cmd : Command) : Prop :=
  (∃ c, (fd, c) ∈ a.subs) ∧ CommandHandler.allowedSubscribed cmd.name = false

/-- The steps of the service, for a password and the instant at which it was started. -/
inductive Step (password : Bytes) (startTime : TimePoint) : Service → Event → Service → Prop
  | join {a : Service} {fd : Socket} (hfd : fd ∉ a.clients) :
      Step password startTime a (.join fd)
        { a with clients := insert fd a.clients, admitted := a.admitted \ {fd} }
  | leave (a : Service) (fd : Socket) :
      Step password startTime a (.leave fd)
        { a with clients := a.clients.erase fd, admitted := a.admitted \ {fd},
                 subs := {x ∈ a.subs | x.1 ≠ fd} }
  | authenticate {a : Service} {fd : Socket} {cmd : Command} (hfd : fd ∈ a.clients)
      (hgated : Gated password a fd) (hname : cmd.name = ascii "AUTH")
      (hargs : cmd.args = [password]) :
      Step password startTime a (.answer fd cmd (Server.gateText password cmd) [])
        { a with admitted := insert fd a.admitted }
  | refuse {a : Service} {fd : Socket} {cmd : Command} (hfd : fd ∈ a.clients)
      (hgated : Gated password a fd)
      (hcmd : ¬ (cmd.name = ascii "AUTH" ∧ cmd.args = [password])) :
      Step password startTime a (.answer fd cmd (Server.gateText password cmd) []) a
  | restrict {a : Service} {fd : Socket} {cmd : Command} (hfd : fd ∈ a.clients)
      (hserved : ¬ Gated password a fd) (hrestricted : a.Restricted fd cmd) :
      Step password startTime a
        (.answer fd cmd (CommandHandler.subscriptionError cmd.name) []) a
  | transaction {a : Service} {fd : Socket} {cmd : Command} (hfd : fd ∈ a.clients)
      (hserved : ¬ Gated password a fd) (hfree : ¬ a.Restricted fd cmd)
      (hname : CommandHandler.isTransactional cmd.name = true) :
      Step password startTime a (.answer fd cmd (transactionText cmd) []) a
  | command {a a' : Service} {fd : Socket} {cmd : Command} {text : Bytes} {sends : List Send}
      (hfd : fd ∈ a.clients) (hserved : ¬ Gated password a fd) (hfree : ¬ a.Restricted fd cmd)
      (hname : CommandHandler.isTransactional cmd.name = false)
      (hplan : CarriesOut fd a
        (Plan.ofCommand (some ⟨startTime, a.clients.card⟩) cmd) text sends a') :
      Step password startTime a (.answer fd cmd text sends) a'

/-- A service with nobody connected. -/
def initial (store : TimedStore) (now : TimePoint) : Service := ⟨store, ∅, ∅, ∅, now⟩

end Service

end MyRedis
