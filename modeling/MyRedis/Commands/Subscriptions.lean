import MyRedis.Commands.Actions
import MyRedis.PubSub.Delivery

/-!
# Commands and the pub/sub manager

A new handler calls the pub/sub manager at most once for a command, and which call it makes is
determined by the command and by whether the client is subscribed (`CommandHandler.pubsubCall`).
Nothing else that a command does concerns the subscriptions or the sockets, so that what was proved
about histories of calls holds for whatever commands lead to them.
-/

namespace MyRedis

open Foundation

/-- The subscriptions and the sockets. -/
def World.sockets (w : World) : PubSubManager × Network := (w.pubsub, w.net)

namespace PubSubManager

/-- The subscriptions and the sockets after a call, if there is one. -/
def runCall (s : PubSubManager × Network) : Option Call → PubSubManager × Network
  | none => s
  | some call => call.run s

/-- The messages that a call sends, if there is one. -/
def callSends (s : PubSubManager × Network) : Option Call → List Send
  | some (.publish channel message) => s.1.publishSends channel message s.2
  | _ => []

/-- A call keeps the invariant. -/
theorem Indexed.runCall {s : PubSubManager × Network} (h : s.1.Indexed) (call : Option Call) :
    (PubSubManager.runCall s call).1.Indexed := by
  cases call with
  | none => exact h
  | some call => exact h.run call

/-- The messages are all that a call writes. -/
theorem logs_runCall (s : PubSubManager × Network) (call : Option Call) :
    s.2.Logs (callSends s call) (runCall s call).2 := by
  cases call with
  | none => exact s.2.logs_nil
  | some call =>
    cases call with
    | publish channel message => exact logs_publish channel message s.1 s.2
    | subscribe | unsubscribe | clientDisconnected => exact s.2.logs_nil

end PubSubManager

namespace CommandHandler

open PubSubManager

/-- The call of the pub/sub manager that a command of the client `fd` leads to, if any. -/
def pubsubCall (fd : Socket) (subscribed : Bool) (cmd : Command) : Option Call :=
  if subscribed && !allowedSubscribed cmd.name then none
  else if cmd.name = ascii "SUBSCRIBE" then
    if cmd.args = [] then none else some (.subscribe fd cmd.args)
  else if cmd.name = ascii "UNSUBSCRIBE" then some (.unsubscribe fd cmd.args)
  else if cmd.name = ascii "PUBLISH" then
    match cmd.args with
    | [channel, message] => some (.publish channel message)
    | _ => none
  else none

variable {fd : Socket} {cmd : Command}

/-- The other commands lead to no call. -/
theorem pubsubCall_of_notMem (hname : cmd.name ∉ pubsubNames) (subscribed : Bool) :
    pubsubCall fd subscribed cmd = none := by
  simp only [pubsubNames, List.mem_cons, List.not_mem_nil, or_false, not_or] at hname
  obtain ⟨hsubscribe, hunsubscribe, hpublish⟩ := hname
  simp [pubsubCall, hsubscribe, hunsubscribe, hpublish]

/-- A single command of a client makes its call, and does nothing else to subscriptions and
sockets. -/
theorem sockets_executeSingle (h : CommandHandler) (cmd : Command) (w : World) {subscribed : Bool}
    (hallowed : subscribed = false ∨ allowedSubscribed cmd.name = true) :
    (h.executeSingle cmd w).2.sockets =
      runCall w.sockets (pubsubCall h.clientFd subscribed cmd) := by
  have hgate : (subscribed && !allowedSubscribed cmd.name) = false := by
    rcases hallowed with hallowed | hallowed <;> simp [hallowed]
  by_cases hname : cmd.name ∈ pubsubNames
  · simp only [pubsubNames, List.mem_cons, List.not_mem_nil, or_false] at hname
    rw [pubsubCall, hgate]
    rcases hname with hname | hname | hname
    · rw [executeSingle_subscribe h hname, handleSubscribe]
      by_cases hargs : cmd.args = []
      · simp [hname, hargs, runCall]
      · simp [hname, hargs, runCall, Call.run, World.sockets, World.subscribe]
    · rw [executeSingle_unsubscribe h hname, hname]
      rfl
    · rw [executeSingle_publish h hname, handlePublish, hname]
      rcases cmd.args with _ | ⟨channel, _ | ⟨message, _ | _⟩⟩ <;> rfl
  · obtain ⟨actions, hoffline, hacts⟩ := offline_executeSingle cmd h hname
    obtain ⟨hpubsub, hnet⟩ := Action.offline_runAll h.clientFd w hoffline
    rw [pubsubCall_of_notMem hname]
    refine (congrArg World.sockets (hacts w)).trans ?_
    rw [World.sockets, hpubsub, hnet]
    rfl

/-- A command of a new handler makes its call, and does nothing else to subscriptions and
sockets. -/
theorem sockets_execute {h : CommandHandler} (hnew : h.inMulti = false) (cmd : Command)
    (w : World) : (h.execute cmd w).2.2.sockets =
      runCall w.sockets (pubsubCall h.clientFd (w.pubsub.isSubscribed h.clientFd) cmd) := by
  have hnone {name : Bytes} (hname : cmd.name = name) (hnot : name ∉ pubsubNames) :
      pubsubCall h.clientFd (w.pubsub.isSubscribed h.clientFd) cmd = none := by
    refine pubsubCall_of_notMem ?_ _
    rwa [hname]
  have hexec := executesOutside hnew cmd w
  generalize h.execute cmd w = result at hexec ⊢
  cases hexec with
  | rejected hsub hname =>
    have hsubscribed : w.pubsub.isSubscribed h.clientFd = true := hsub
    simp [pubsubCall, hsubscribed, hname, runCall]
  | multi hname | exec hname | discard hname | watchNothing hname =>
    rw [hnone hname (by decide)]
    rfl
  | watch hname =>
    obtain ⟨n, hread⟩ := readSteps_snapshotKeys cmd.args w
    rw [hnone hname (by decide), World.sockets, hread.frame.1, hread.frame.2]
    rfl
  | single _ hgate => exact sockets_executeSingle h cmd w hgate

end CommandHandler

end MyRedis
