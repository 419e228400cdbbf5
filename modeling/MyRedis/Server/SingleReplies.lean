import MyRedis.Resp.Inline
import MyRedis.Server.ReplyLengths
import MyRedis.Server.Streams

/-!
# Replies that the client reads as one value

The client reads one value as the reply to a command.  `Server.SingleReply` collects what can go
wrong: the command splits its reply, it confirms several channels or a channel of several lines, or
it shows strings that are too long for the client.  For all other commands the client reads the
whole reply as one value (`Server.SingleReply.exists_parse`), and nothing but the reply is written
to its socket (`Server.bytesTo_serve`), because a client that publishes a message is not subscribed.

A line that the client sends is answered by one such reply, unless more bytes of it are needed
(`Server.needMore_or_answers`).
-/

namespace MyRedis

open Foundation Resp PubSubManager

namespace CommandHandler

/-- A new handler executes the commands of a subscribed client at once. -/
theorem execute_of_allowed {h : CommandHandler} (hnew : h.inMulti = false) {cmd : Command}
    (hname : allowedSubscribed cmd.name = true) (w : World) :
    h.execute cmd w = ((h.executeSingle cmd w).1, h, (h.executeSingle cmd w).2) := by
  have hplain : isTransactional cmd.name = false := by
    by_contra htransactional
    rw [allowedSubscribed_of_isTransactional (Bool.eq_true_of_not_eq_false htransactional)] at hname
    cases hname
  have hexec := executesOutside hnew cmd w
  generalize h.execute cmd w = result at hexec ⊢
  cases hexec with
  | rejected _ hrejected => exact absurd (hname.symm.trans hrejected) (by decide)
  | single => rfl
  | multi hn | exec hn | discard hn | watchNothing hn | watch hn =>
    rw [hn] at hplain
    exact absurd hplain (by decide)

end CommandHandler

namespace Server

/-! ### One value -/

/-- The channels that a command confirms. -/
def confirmedChannels (s : Server) (fd : Socket) (cmd : Command) : List Bytes :=
  if cmd.name = ascii "SUBSCRIBE" then cmd.args
  else if cmd.name = ascii "UNSUBSCRIBE" then s.world.pubsub.toUnsub fd cmd.args
  else []

/-- The reply to a command is one value that the client can read. -/
structure SingleReply (s : Server) (fd : Socket) (cmd : Command) : Prop where
  /-- The command does not split its reply. -/
  whole : ¬ s.SplitsReply fd cmd
  /-- Not more than one channel is confirmed, and that in a single line. -/
  confirmed : s.gated fd = false → ¬ Several (s.confirmedChannels fd cmd)
  /-- The strings that it shows are not too long for the client. -/
  readable : s.gated fd = false → (s.handler fd).Readable cmd s.world

/-- The confirmation of at most one channel is a single line. -/
theorem notMem_confirmation {s : Server} {fd : Socket} {cmd : Command}
    (hname : cmd.name ∈ [ascii "SUBSCRIBE", ascii "UNSUBSCRIBE"])
    (h : ¬ Several (s.confirmedChannels fd cmd)) :
    LF ∉ ((s.handler fd).execute cmd s.world).1 := by
  unfold confirmedChannels at h
  simp only [List.mem_cons, List.not_mem_nil, or_false] at hname
  rcases hname with hname | hname
  · have hallowed : CommandHandler.allowedSubscribed cmd.name = true := by
      rw [hname]
      decide
    rw [CommandHandler.execute_of_allowed rfl hallowed,
      CommandHandler.executeSingle_subscribe _ hname, CommandHandler.handleSubscribe]
    rw [if_pos hname] at h
    split
    · exact notMem_wrongArguments (by decide)
    · rw [mem_confirmations_iff (by decide)]
      rw [← map_fst_subscribe s.world.pubsub fd cmd.args] at h
      exact h
  · have hallowed : CommandHandler.allowedSubscribed cmd.name = true := by
      rw [hname]
      decide
    have hne : cmd.name ≠ ascii "SUBSCRIBE" := by
      rw [hname]
      decide
    rw [CommandHandler.execute_of_allowed rfl hallowed,
      CommandHandler.executeSingle_unsubscribe _ hname, CommandHandler.handleUnsubscribe,
      mem_confirmations_iff (by decide)]
    rw [if_neg hne, if_pos hname, ← several_unsubscribe] at h
    exact h

/-- The reply is one value. -/
theorem SingleReply.respValue {s : Server} {fd : Socket} {cmd : Command}
    (h : s.SingleReply fd cmd) : RespValue (s.reply fd cmd) := by
  cases hgated : s.gated fd with
  | true => exact respValue_reply_of_gated hgated cmd
  | false =>
    have htext : s.reply fd cmd = serializeResponse ((s.handler fd).execute cmd s.world).1 := by
      rw [reply, respond, hgated, if_neg Bool.false_ne_true]
    rw [htext]
    by_cases hname : cmd.name ∈ [ascii "SUBSCRIBE", ascii "UNSUBSCRIBE"]
    · exact respValue_serialize_of_notMem (Nat.lt_succ_self _)
        (notMem_confirmation hname (h.confirmed hgated))
    · rw [CommandHandler.respValue_execute_iff rfl hname]
      exact fun hsplits => h.whole ⟨hgated, hsplits⟩

/-- The client reads the whole reply as one value. -/
theorem SingleReply.exists_parse {s : Server} {fd : Socket} {cmd : Command}
    (h : s.SingleReply fd cmd) :
    ∃ text, Client.parseRespValue (s.reply fd cmd) = some (text, (s.reply fd cmd).length) := by
  have hmeasured : Measured (s.respond fd cmd).1 := by
    have hresponds := s.responds fd cmd
    generalize s.respond fd cmd = result at hresponds ⊢
    cases hresponds with
    | password | refused => exact measured_gateText _ _
    | executed hserved =>
      have hconfirmed := h.confirmed hserved
      unfold confirmedChannels at hconfirmed
      refine (h.readable hserved).measured_execute rfl (fun hname => ?_) fun hname => ?_
      · rwa [if_pos hname] at hconfirmed
      · have hne : cmd.name ≠ ascii "SUBSCRIBE" := by
          rw [hname]
          decide
        rwa [if_neg hne, if_pos hname] at hconfirmed
  exact (hmeasured.legible h.respValue).exists_parse

/-! ### What is written -/

/-- Whoever publishes a message is not subscribed. -/
theorem isSubscribed_of_commandCall {s : Server} {fd : Socket} {cmd : Command}
    {channel message : Bytes} (h : s.commandCall fd cmd = some (.publish channel message)) :
    s.world.pubsub.isSubscribed fd = false := by
  by_contra hsub
  rw [Bool.not_eq_false] at hsub
  unfold commandCall CommandHandler.pubsubCall at h
  rw [hsub, Bool.true_and] at h
  split at h
  · cases h
  split at h
  · cases h
  split at h
  · split at h <;> cases h
  split at h
  · cases h
  split at h
  · rename_i hallowed _ _ hname
    rw [hname] at hallowed
    exact hallowed (by decide)
  · cases h

/-- A command sends no published message to the client itself. -/
theorem bytesTo_respond {s : Server} (hindexed : s.world.pubsub.Indexed) (fd : Socket)
    (cmd : Command) : (s.respond fd cmd).2.world.net.bytesTo fd = s.world.net.bytesTo fd := by
  have hnet : (s.respond fd cmd).2.world.net =
      (runCall s.world.sockets (s.commandCall fd cmd)).2 :=
    congrArg Prod.snd (s.sockets_respond fd cmd)
  have hlogs := logs_runCall s.world.sockets (s.commandCall fd cmd) fd
  have hnone : Send.stream fd (callSends s.world.sockets (s.commandCall fd cmd)) = [] := by
    unfold callSends
    split
    · rename_i channel message hcall
      have hsub := isSubscribed_of_commandCall hcall
      rw [Send.stream, List.filter_eq_nil_iff.mpr, List.flatMap_nil]
      intro x hx hsocket
      have hlistens : s.world.pubsub.Listens x.socket channel :=
        (mem_socket_publishSends channel message _ _).mp (List.mem_map_of_mem hx)
      rw [of_decide_eq_true hsocket, hindexed.agree] at hlistens
      rw [PubSubManager.isSubscribed_iff.mpr ⟨channel, hlistens⟩] at hsub
      cases hsub
    · rfl
  rw [hnet, hlogs, hnone, List.append_nil]
  rfl

/-- What is written to a client when its command is served is its reply. -/
theorem bytesTo_serve {s : Server} (hindexed : s.world.pubsub.Indexed) (fd : Socket)
    (cmd : Command) : (s.serve fd cmd).2.world.net.bytesTo fd = s.world.net.bytesTo fd ++
      (s.respond fd cmd).2.world.net.written fd (s.reply fd cmd) := by
  have hsent := Network.bytesTo_sendResponse (s.respond fd cmd).2.world.net fd (s.reply fd cmd) fd
  rw [if_pos rfl, bytesTo_respond hindexed] at hsent
  exact hsent

/-! ### The replies to a read -/

/-- The server as a consumer that notes every reply, together with the server before it. -/
def noting (fd : Socket) : Consumer (Server × List (Server × Send)) where
  serve := fun cmd p => ((p.1.serve fd cmd).1, (p.1.serve fd cmd).2,
    p.2 ++ [(p.1, (p.1.respond fd cmd).2.world.net.sendRecord fd (p.1.reply fd cmd))])
  quit := fun p => (p.1.quit fd,
    p.2 ++ [(p.1, p.1.world.net.sendRecord fd (simpleString (ascii "OK")))])
  reject := fun p => (p.1.reject fd,
    p.2 ++ [(p.1, p.1.world.net.sendRecord fd (error (ascii "ERR Protocol error")))])

/-- Apart from the notes this is the server. -/
theorem processRead_noting (fd : Socket) (bytes buffer : Bytes) (s : Server) :
    processRead (consumer fd) bytes buffer s =
      ((processRead (noting fd) bytes buffer (s, [])).1,
        (processRead (noting fd) bytes buffer (s, [])).2.1,
        (processRead (noting fd) bytes buffer (s, [])).2.2.1) :=
  processBuffer_map (k := noting fd) (l := consumer fd) (f := Prod.fst) (fun _ _ => rfl)
    (fun _ => rfl) (fun _ => rfl) _ _ (s, [])

/-- The replies that are sent when bytes of a client are processed, each with the server before
it. -/
def repliesTo (s : Server) (fd : Socket) (bytes : Bytes) : List (Server × Send) :=
  (processRead (noting fd) bytes (s.client fd).readBuffer (s, [])).2.2.2

/-- A message is the reply to a line: that to the command of the line, that to a `QUIT`, or the
error if the line is malformed or too long. -/
inductive RepliesTo (s : Server) (fd : Socket) (line : Bytes) : Bytes → Prop
  | command {cmd : Command} (hparse : parseCommand (line ++ CRLF) = .ok cmd (line ++ CRLF).length)
      (hname : cmd.name ≠ ascii "QUIT") : RepliesTo s fd line (s.reply fd cmd)
  | quit {cmd : Command} (hparse : parseCommand (line ++ CRLF) = .ok cmd (line ++ CRLF).length)
      (hname : cmd.name = ascii "QUIT") : RepliesTo s fd line (simpleString (ascii "OK"))
  | malformed (hparse : parseCommand (line ++ CRLF) = .protocolError) :
      RepliesTo s fd line (error (ascii "ERR Protocol error"))
  | tooLong (hlength : maxInlineLength ≤ line.length) :
      RepliesTo s fd line (error (ascii "ERR Protocol error"))

/-- A read with which a line is answered. -/
structure Answers (s : Server) (fd : Socket) (bytes line : Bytes) (x : Send) : Prop where
  /-- There is no other reply. -/
  replies : s.repliesTo fd bytes = [(s, x)]
  /-- It is the reply to the line. -/
  reply : RepliesTo s fd line x.data
  /-- The client reads the whole reply as one value. -/
  readable : ∃ text, Client.parseRespValue x.data = some (text, x.data.length)
  /-- A front part of the reply is written. -/
  part : x.written <+: x.data
  /-- Nothing else is written to the client. -/
  sent : (s.processClient fd (.data bytes)).2.world.net.bytesTo fd =
    s.world.net.bytesTo fd ++ x.written
  /-- If the connection is kept, then the line was complete, and the read buffer is empty. -/
  kept : (s.processClient fd (.data bytes)).1 = true →
    (s.client fd).readBuffer ++ bytes = line ++ CRLF ∧
      ((s.processClient fd (.data bytes)).2.client fd).readBuffer = []

section Line

variable {s : Server} {fd : Socket} {bytes line : Bytes}

/-- What has to be known of the loop. -/
theorem answers_of_processRead {kept : Bool} {rest data : Bytes} {s' : Server} {net : Network}
    (hread : processRead (noting fd) bytes (s.client fd).readBuffer (s, []) =
      (kept, rest, s', [(s, net.sendRecord fd data)]))
    (hreply : RepliesTo s fd line data)
    (hreadable : ∃ text, Client.parseRespValue data = some (text, data.length))
    (hsent : s'.world.net.bytesTo fd = s.world.net.bytesTo fd ++ net.written fd data)
    (hkept : kept = true → (s.client fd).readBuffer ++ bytes = line ++ CRLF ∧ rest = []) :
    s.Answers fd bytes line (net.sendRecord fd data) := by
  have hprocess : s.processClient fd (.data bytes) =
      (kept, s'.setClient fd { s'.client fd with readBuffer := rest }) := by
    rw [processClient, processRead_noting, hread]
  refine ⟨?_, hreply, hreadable, net.written_isPrefix fd data, ?_, ?_⟩
  · rw [repliesTo, hread]
  · rw [hprocess]
    exact hsent
  · rw [hprocess, client_setClient_self]
    exact hkept

/-- The answer to a line that is refused. -/
theorem answers_of_protocolError
    (hparse : parseCommand ((s.client fd).readBuffer ++ bytes) = .protocolError)
    (hreply : RepliesTo s fd line (error (ascii "ERR Protocol error"))) :
    ∃ x, s.Answers fd bytes line x := by
  refine ⟨_, answers_of_processRead (processRead_of_protocolError _ hparse _) hreply ?_ ?_ ?_⟩
  · exact ⟨ascii "ERR Protocol error", by decide⟩
  · have hsent :=
      Network.bytesTo_sendResponse s.world.net fd (error (ascii "ERR Protocol error")) fd
    rw [if_pos rfl] at hsent
    exact hsent
  · exact fun h => absurd h Bool.false_ne_true

/-- The answer to a line that is complete. -/
theorem answers_of_ok (hindexed : s.world.pubsub.Indexed) {cmd : Command}
    (hbuffer : (s.client fd).readBuffer ++ bytes = line ++ CRLF)
    (hparse : parseCommand (line ++ CRLF) = .ok cmd (line ++ CRLF).length)
    (hsingle : cmd.name ≠ ascii "QUIT" → s.SingleReply fd cmd) :
    ∃ x, s.Answers fd bytes line x := by
  have hread := processRead_of_ok (noting fd) (hbuffer ▸ hparse) (s, [])
  by_cases hname : cmd.name = ascii "QUIT"
  · rw [if_pos hname] at hread
    refine ⟨_, answers_of_processRead hread (.quit hparse hname) ?_ ?_ ?_⟩
    · exact ⟨ascii "OK", by decide⟩
    · have hsent := Network.bytesTo_sendResponse s.world.net fd (simpleString (ascii "OK")) fd
      rw [if_pos rfl] at hsent
      exact hsent
    · exact fun h => absurd h Bool.false_ne_true
  · rw [if_neg hname] at hread
    exact ⟨_, answers_of_processRead hread (.command hparse hname) (hsingle hname).exists_parse
      (bytesTo_serve hindexed fd cmd) fun _ => ⟨hbuffer, rfl⟩⟩

/-- When the bytes of a line arrive, the line is answered, or more bytes of it are needed. -/
theorem needMore_or_answers (hindexed : s.world.pubsub.Indexed) (hline : CommandLine line)
    (harray : ¬ AnnouncesArray line) (hpart : (s.client fd).readBuffer ++ bytes <+: line ++ CRLF)
    (hsingle : ∀ cmd n, parseCommand ((s.client fd).readBuffer ++ bytes) = .ok cmd n →
      cmd.name ≠ ascii "QUIT" → s.SingleReply fd cmd) :
    (s.client fd).readBuffer ++ bytes ≠ line ++ CRLF ∧
        parseCommand ((s.client fd).readBuffer ++ bytes) = .needMore 0 ∨
      ∃ x, s.Answers fd bytes line x := by
  by_cases hbuffer : (s.client fd).readBuffer ++ bytes = line ++ CRLF
  · right
    rcases parseCommand_wire hline harray with hparse | ⟨cmd, hparse⟩
    · exact answers_of_protocolError (hbuffer ▸ hparse) (.malformed hparse)
    · exact answers_of_ok hindexed hbuffer hparse (hsingle cmd _ (hbuffer ▸ hparse))
  · rcases parseCommand_part hline.single hpart hbuffer with hparse | ⟨hparse, hlength⟩
    · exact Or.inl ⟨hbuffer, hparse⟩
    · exact Or.inr (answers_of_protocolError hparse (.tooLong hlength))

end Line

end Server

end MyRedis
