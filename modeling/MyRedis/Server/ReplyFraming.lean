import MyRedis.Commands.Responses
import MyRedis.Resp.Framing
import MyRedis.Server.Basic

/-!
# When a reply is one value

A client that sends one command at a time and reads one value as its reply stays in step with the
server only if the bytes sent for each command are exactly one RESP2 value.  The response of a
command is a text whose kind `serialize_response` guesses, and three commands put bytes of their
sender into texts that end at a line break: an unknown command, an unknown subcommand of `CONFIG`,
and a `PING` whose message looks like an error or a pub/sub message.

`Server.respValue_reply_iff` says that these are the only replies that are not one value.
-/

namespace MyRedis

open Foundation Resp

/-! ### Texts -/

/-- A text made up by a handler is sent as one value. -/
theorem Ordinary.respValue {r : Bytes} (h : Ordinary r) : RespValue (serializeResponse r) := by
  cases h with
  | result hhead =>
    rw [respValue_serializeResponse_iff]
    constructor
    · intro herror
      rcases head?_of_isError herror.1 with he | he | he <;> rw [he] at hhead <;>
        revert hhead <;> decide
    · intro hpush
      rcases head?_of_isPush hpush.1 with he | he | he <;> rw [he] at hhead <;>
        revert hhead <;> decide
  | error hhead hcr =>
    rw [respValue_serializeResponse_iff]
    constructor
    · intro herror
      exact not_crlf_infix hcr herror.2
    · intro hpush
      rcases head?_of_isPush hpush.1 with he | he | he <;> rw [he] at hhead <;>
        revert hhead <;> decide

/-- An error that repeats a name. -/
theorem respValue_error_around {front name back : Bytes} (hfront : CR ∉ front)
    (herror : front.take 4 = ascii "ERR ") (hback : LF ∉ back) :
    RespValue (serializeResponse (front ++ name ++ back)) ↔ ¬ CRLF <:+: name := by
  have hlength : 4 ≤ front.length := by
    have h := congrArg List.length herror
    rw [List.length_take] at h
    exact min_eq_left_iff.mp h
  have hisError : isError (front ++ name ++ back) = true := by
    rw [isError, List.append_assoc, List.take_append_of_le_length hlength, herror]
    rfl
  rw [respValue_serializeResponse_iff_of_isError hisError, crlf_infix_append_right hback,
    crlf_infix_append_left hfront]

namespace CommandHandler

/-- A text that is echoed and is not sent as one value. -/
def BadEcho (message : Bytes) : Prop :=
  (isError message = true ∧ CRLF <:+: message) ∨ (isPush message = true ∧ LF ∈ message.dropLast)

/-- The commands of a client that make a new handler return a text that is not sent as one value. -/
def Splits (subscribed : Bool) (cmd : Command) : Prop :=
  CRLF <:+: cmd.name ∨
    (cmd.name = ascii "PING" ∧ ∃ message ∈ cmd.args.head?, BadEcho message) ∨
    (cmd.name = ascii "CONFIG" ∧ subscribed = false ∧ ∃ sub ∈ cmd.args.head?, CRLF <:+: sub)

/-- A name of `execute_single` is a single line. -/
theorem not_crlf_infix_of_mem_commandNames {name : Bytes} (h : name ∈ commandNames) :
    ¬ CRLF <:+: name := by
  revert name
  decide

/-- Nothing is wrong with a command that is neither `PING` nor `CONFIG` and has a name in one
line. -/
theorem not_splits {subscribed : Bool} {cmd : Command} (hcrlf : ¬ CRLF <:+: cmd.name)
    (hping : cmd.name ≠ ascii "PING") (hconfig : cmd.name ≠ ascii "CONFIG") :
    ¬ Splits subscribed cmd := by
  rintro (h | ⟨h, -⟩ | ⟨h, -⟩)
  · exact hcrlf h
  · exact hping h
  · exact hconfig h

/-- The echo of `PING`. -/
theorem respValue_handlePing_iff {subscribed : Bool} {cmd : Command} (w : World)
    (hname : cmd.name = ascii "PING") :
    RespValue (serializeResponse (handlePing cmd w).1) ↔ ¬ Splits subscribed cmd := by
  have hcrlf : ¬ CRLF <:+: cmd.name := by
    rw [hname]
    decide
  have hconfig : cmd.name ≠ ascii "CONFIG" := by
    rw [hname]
    decide
  unfold handlePing
  cases hargs : cmd.args with
  | nil =>
    refine iff_of_true ordinary_pong.respValue ?_
    rintro (h | ⟨-, message, h, -⟩ | ⟨h, -⟩)
    · exact hcrlf h
    · rw [hargs] at h
      cases h
    · exact hconfig h
  | cons message rest =>
    rw [respValue_serializeResponse_iff, ← not_or, not_iff_not]
    constructor
    · intro h
      exact Or.inr (Or.inl ⟨hname, message, by rw [hargs]; rfl, h⟩)
    · rintro (h | ⟨-, message', hmem, h⟩ | ⟨h, -⟩)
      · exact absurd h hcrlf
      · rw [hargs] at hmem
        obtain rfl := Option.some.inj hmem
        exact h
      · exact absurd h hconfig

/-- What is wrong with a `CONFIG` is a line break in its subcommand. -/
theorem splits_config_iff {cmd : Command} (hname : cmd.name = ascii "CONFIG") :
    Splits false cmd ↔ ∃ sub ∈ cmd.args.head?, CRLF <:+: sub := by
  constructor
  · rintro (h | ⟨h, -⟩ | ⟨-, -, h⟩)
    · rw [hname] at h
      exact absurd h (by decide)
    · rw [hname] at h
      exact absurd h (by decide)
    · exact h
  · intro h
    exact Or.inr (Or.inr ⟨hname, rfl, h⟩)

/-- The subcommands that `CONFIG` knows contain no line break. -/
theorem not_crlf_infix_of_known {sub : Bytes}
    (h : sub.map toUpper ∈ [ascii "GET", ascii "SET"]) : ¬ CRLF <:+: sub := by
  rw [← crlf_infix_map_toUpper]
  simp only [List.mem_cons, List.not_mem_nil, or_false] at h
  rcases h with h | h <;> rw [h] <;> decide

/-- The error of `CONFIG` for an unknown subcommand. -/
theorem respValue_handleConfig_iff {cmd : Command} (w : World)
    (hname : cmd.name = ascii "CONFIG") :
    RespValue (serializeResponse (handleConfig cmd w).1) ↔ ¬ Splits false cmd := by
  rw [splits_config_iff hname]
  by_cases hunknown : ∃ sub ∈ cmd.args.head?, sub.map toUpper ∉ [ascii "GET", ascii "SET"]
  · obtain ⟨sub, hsub, hnot⟩ := hunknown
    rw [handleConfig_of_unknown hsub hnot, unknownSubcommand,
      respValue_error_around (by decide) (by decide) (by decide), crlf_infix_map_toUpper,
      not_iff_not]
    constructor
    · intro h
      exact ⟨sub, hsub, h⟩
    · rintro ⟨sub', hsub', h⟩
      obtain rfl := Option.some.inj (hsub.symm.trans hsub')
      exact h
  · -- `GET` and `SET` have ordinary answers
    refine iff_of_true ?_ ?_
    · have hanswers := answers_handleConfig (w := w) hname
      generalize (handleConfig cmd w).1 = r at hanswers ⊢
      cases hanswers with
      | ordinary _ h => exact h.respValue
      | subcommand _ hsub hnot => exact absurd ⟨_, hsub, hnot⟩ hunknown
      | echo h => exact absurd (hname.symm.trans h) (by decide)
      | confirmation h =>
        rw [hname] at h
        exact absurd h (by decide)
      | unknown h =>
        rw [hname] at h
        exact absurd h (by decide)
    · rintro ⟨sub, hsub, hcrlf⟩
      by_cases hmem : sub.map toUpper ∈ [ascii "GET", ascii "SET"]
      · exact not_crlf_infix_of_known hmem hcrlf
      · exact hunknown ⟨sub, hsub, hmem⟩

/-- The responses of single commands. -/
theorem respValue_executeSingle_iff {h : CommandHandler} {cmd : Command} {w : World}
    (hname : cmd.name ∉ [ascii "SUBSCRIBE", ascii "UNSUBSCRIBE"])
    (hgate : h.inSubscriptionMode w = false ∨ allowedSubscribed cmd.name = true) :
    RespValue (serializeResponse (h.executeSingle cmd w).1) ↔
      ¬ Splits (h.inSubscriptionMode w) cmd := by
  by_cases hping : cmd.name = ascii "PING"
  · rw [executeSingle, if_pos hping]
    exact respValue_handlePing_iff w hping
  by_cases hconfig : cmd.name = ascii "CONFIG"
  · have hsub : h.inSubscriptionMode w = false := by
      refine hgate.resolve_right ?_
      rw [hconfig]
      decide
    have hsingle : h.executeSingle cmd w = handleConfig cmd w := by
      simp only [executeSingle, hconfig]
      rfl
    rw [hsub, hsingle]
    exact respValue_handleConfig_iff w hconfig
  have hanswers := h.answers_executeSingle cmd w
  generalize (h.executeSingle cmd w).1 = r at hanswers ⊢
  cases hanswers with
  | ordinary hknown hr =>
    refine iff_of_true hr.respValue (not_splits ?_ hping hconfig)
    exact not_crlf_infix_of_mem_commandNames hknown
  | echo hn => exact absurd hn hping
  | subcommand hn => exact absurd hn hconfig
  | confirmation hn => exact absurd hn (by simpa using hname)
  | unknown =>
    rw [unknownCommand, respValue_error_around (by decide) (by decide) (by decide)]
    refine not_congr ⟨Or.inl, ?_⟩
    rintro (hcrlf | ⟨hn, -⟩ | ⟨hn, -⟩)
    · exact hcrlf
    · exact absurd hn hping
    · exact absurd hn hconfig

/-- The responses of a new handler: what is sent is one value unless the command splits it. -/
theorem respValue_execute_iff {h : CommandHandler} (hnew : h.inMulti = false) {cmd : Command}
    {w : World} (hname : cmd.name ∉ [ascii "SUBSCRIBE", ascii "UNSUBSCRIBE"]) :
    RespValue (serializeResponse (h.execute cmd w).1) ↔
      ¬ Splits (h.inSubscriptionMode w) cmd := by
  have hother (hn : isTransactional cmd.name = true) : ¬ Splits (h.inSubscriptionMode w) cmd := by
    simp only [isTransactional, Bool.or_eq_true, beq_iff_eq] at hn
    obtain ((hn | hn) | hn) | hn := hn
    all_goals
      refine not_splits ?_ ?_ ?_ <;> rw [hn] <;> decide
  have hexec := executesOutside hnew cmd w
  generalize h.execute cmd w = result at hexec ⊢
  cases hexec with
  | rejected hsub hallowed =>
    have hback : LF ∉ ascii
        "': only (P)SUBSCRIBE / (P)UNSUBSCRIBE / PING / QUIT are allowed in this context" := by
      rw [ascii_ofList]
      decide
    rw [subscriptionError, respValue_error_around (by decide) (by decide) hback, hsub]
    refine not_congr ⟨Or.inl, ?_⟩
    rintro (hcrlf | ⟨hping, -⟩ | ⟨-, hfalse, -⟩)
    · exact hcrlf
    · rw [hping] at hallowed
      exact absurd hallowed (by decide)
    · cases hfalse
  | multi hn => exact iff_of_true ordinary_ok.respValue (hother (by rw [hn]; decide))
  | exec hn =>
    have hordinary : Ordinary (ascii "ERR EXEC without MULTI") := .error (by decide) (by decide)
    exact iff_of_true hordinary.respValue (hother (by rw [hn]; decide))
  | discard hn =>
    have hordinary : Ordinary (ascii "ERR DISCARD without MULTI") := .error (by decide) (by decide)
    exact iff_of_true hordinary.respValue (hother (by rw [hn]; decide))
  | watchNothing hn =>
    exact iff_of_true (ordinary_wrongArguments (by decide)).respValue (hother (by rw [hn]; decide))
  | watch hn => exact iff_of_true ordinary_ok.respValue (hother (by rw [hn]; decide))
  | single _ hgate => exact respValue_executeSingle_iff hname hgate

end CommandHandler

/-! ### Replies of the server -/

namespace Server

/-- The commands whose reply is not one value: they are not stopped by the password, and the handler
returns a text that is not sent as one value. -/
def SplitsReply (s : Server) (fd : Socket) (cmd : Command) : Prop :=
  s.gated fd = false ∧ CommandHandler.Splits (s.world.pubsub.isSubscribed fd) cmd

/-- The answers to a client that has not given the password. -/
theorem respValue_reply_of_gated {s : Server} {fd : Socket} (hgated : s.gated fd = true)
    (cmd : Command) : RespValue (s.reply fd cmd) := by
  have hnoauth : RespValue (serializeResponse (ascii "NOAUTH Authentication required.")) := by
    rw [respValue_serializeResponse_iff_of_isError (by decide), ascii_ofList]
    decide
  have hinvalid : Ordinary (ascii "ERR invalid password") := .error (by decide) (by decide)
  have htext : RespValue (serializeResponse (gateText s.password cmd)) := by
    unfold gateText
    split
    · split
      · split
        · exact ordinary_ok.respValue
        · exact hinvalid.respValue
      · exact (ordinary_wrongArguments (by decide)).respValue
    · exact hnoauth
  have hresponds := s.responds fd cmd
  unfold reply
  generalize s.respond fd cmd = result at hresponds ⊢
  cases hresponds with
  | password | refused => exact htext
  | executed hserved => exact absurd (hgated.symm.trans hserved) (by decide)

/-- **When a reply is one value.**  For every server and every command that a client can send other
than `SUBSCRIBE`, `UNSUBSCRIBE` and `QUIT`, the bytes that are sent back are exactly one RESP2 value
if and only if the command does not split its reply: its name contains no `\r\n`, a `PING` does not
ask for the echo of an error text with `\r\n` or of a pub/sub message of several lines, and the
subcommand of a `CONFIG` contains no `\r\n`, unless the client has not given the password or, for
`CONFIG`, is subscribed. -/
theorem respValue_reply_iff (s : Server) (fd : Socket) (c : Command)
    (hname : c.upper.name ∉ [ascii "SUBSCRIBE", ascii "UNSUBSCRIBE", ascii "QUIT"]) :
    RespValue (s.reply fd c.upper) ↔ ¬ s.SplitsReply fd c.upper := by
  cases hgated : s.gated fd with
  | true =>
    refine iff_of_true (respValue_reply_of_gated hgated _) ?_
    intro h
    rw [SplitsReply, hgated] at h
    cases h.1
  | false =>
    have htext : s.reply fd c.upper =
        serializeResponse ((s.handler fd).execute c.upper s.world).1 := by
      rw [reply, respond, hgated, if_neg Bool.false_ne_true]
    have hhandler :
        (s.handler fd).inSubscriptionMode s.world = s.world.pubsub.isSubscribed fd := rfl
    rw [htext, CommandHandler.respValue_execute_iff rfl, hhandler, SplitsReply, hgated]
    · simp
    · simp only [List.mem_cons, not_or] at hname ⊢
      exact ⟨hname.1, hname.2.1, List.not_mem_nil⟩

/-- The name of a `GET` in lower case. -/
theorem respValue_reply_get :
    RespValue ((initial.acceptClient 4).reply 4 (⟨ascii "get", [CRLF]⟩ : Command).upper) := by
  refine (respValue_reply_iff _ 4 ⟨ascii "get", [CRLF]⟩ (by decide)).mpr ?_
  intro h
  exact absurd h.2 (CommandHandler.not_splits (by decide) (by decide) (by decide))

/-- An unknown command whose name goes on after a line break: its reply is an error followed by a
second value that the client has chosen. -/
theorem reply_splits_at_line_break :
    (initial.acceptClient 4).reply 4 (⟨ascii "x\r\n+forged", []⟩ : Command).upper =
        error (ascii "ERR unknown command 'X") ++ simpleString (ascii "FORGED'") ∧
      RespValue (error (ascii "ERR unknown command 'X")) ∧
      RespValue (simpleString (ascii "FORGED'")) ∧
      ¬ RespValue
        ((initial.acceptClient 4).reply 4 (⟨ascii "x\r\n+forged", []⟩ : Command).upper) := by
  have hreply : (initial.acceptClient 4).reply 4 (⟨ascii "x\r\n+forged", []⟩ : Command).upper =
      error (ascii "ERR unknown command 'X") ++ simpleString (ascii "FORGED'") := by
    decide
  have hfirst : RespValue (error (ascii "ERR unknown command 'X")) := respValue_error (by decide)
  refine ⟨hreply, hfirst, respValue_simpleString (by decide), ?_⟩
  rw [hreply]
  exact hfirst.not_append (by decide)

end Server

end MyRedis
