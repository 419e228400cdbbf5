import MyRedis.Commands.Responses
import MyRedis.Server.Basic

/-!
# Transactions on a connection of the server

What a client may expect of a transaction: after a `MULTI` that was answered `OK`, its commands are
queued and change nothing, `EXEC` applies the queued commands, and `DISCARD` applies none.  The
server makes a new handler for every command, so that the handler that has answered `MULTI` is gone
when the next command arrives.

`Server.keepsTransactions_iff` says which runs nevertheless meet this expectation: those in which no
client sends, between `MULTI` and `EXEC` or `DISCARD`, a command that should have been queued, other
than a `PING` that asks for the echo `QUEUED` and is not followed by an `EXEC`.
-/

namespace MyRedis

open Foundation Resp

namespace Server

/-! ### What an observer of a connection notes -/

/-- The commands that are not queued in a transaction. -/
def unqueued : List Bytes :=
  [ascii "MULTI", ascii "EXEC", ascii "DISCARD", ascii "WATCH", ascii "QUIT"]

/-- The observer of a connection looks at its commands, and starts anew with every client. -/
def note (fd : Socket) (opened : Option (List Command)) (s : Server) :
    Event → Option (List Command)
  | .command fd' cmd => if fd' = fd then noteAnswer opened cmd (s.respond fd cmd).1 else opened
  | .accept fd' | .disconnect fd' => if fd' = fd then none else opened
  | _ => opened

/-- The transaction of a connection: the queued commands, if it is open. -/
def transaction (fd : Socket) (past : List (Server × Event)) : Option (List Command) :=
  remember (note fd) none past

/-- The observer of the watched keys notes their values. -/
def noteWatched (fd : Socket) (watched : List (Bytes × Option Value)) (s : Server) :
    Event → List (Bytes × Option Value)
  | .command fd' cmd =>
    if fd' = fd then
      if cmd.name = ascii "EXEC" then []
      else if cmd.name = ascii "WATCH" ∧ (s.respond fd cmd).1 = ascii "OK" then
        watched ++ cmd.args.map fun key => (key, s.world.db.valueAt s.world.now key)
      else watched
    else watched
  | .accept fd' | .disconnect fd' => if fd' = fd then [] else watched
  | _ => watched

/-- The watched keys of a connection have the values that they had when they were watched. -/
def WatchedUnchanged (fd : Socket) (past : List (Server × Event)) (s : Server) : Prop :=
  ∀ p ∈ remember (noteWatched fd) [] past, s.world.db.valueAt s.world.now p.1 = p.2

/-! ### What a client may expect -/

/-- The same database and the same subscriptions. -/
def SameData (w w' : World) : Prop := w'.db = w.db ∧ w'.pubsub = w.pubsub

/-- What a client may expect of a command in an open transaction. -/
structure Expected (s : Server) (fd : Socket) (queue : List Command) (unchanged : Prop)
    (cmd : Command) : Prop where
  /-- A command is queued and changes nothing. -/
  queued : cmd.name ∉ unqueued →
    (s.respond fd cmd).1 = ascii "QUEUED" ∧ SameData s.world (s.serve fd cmd).2.world
  /-- An `EXEC` whose watched keys did not change looks at them and then applies exactly the queued
  commands, in order and with nothing in between; if there are any, it answers with their
  responses. -/
  exec : cmd.name = ascii "EXEC" → unchanged →
    ∃ n w, ReadSteps s.world n w ∧
      (queue ≠ [] → (s.respond fd cmd).1 =
        lines (numberItems (queue.foldl (s.handler fd).executeNext ([], w)).1)) ∧
      SameData (queue.foldl (s.handler fd).executeNext ([], w)).2 (s.serve fd cmd).2.world
  /-- A `DISCARD` applies nothing. -/
  discard : cmd.name = ascii "DISCARD" → SameData s.world (s.serve fd cmd).2.world

/-- The expectation at one step of a run. -/
def MeetsExpectation (past : List (Server × Event)) (s : Server) : Event → Prop
  | .command fd cmd =>
    ∀ queue, transaction fd past = some queue →
      Expected s fd queue (WatchedUnchanged fd past s) cmd
  | _ => True

/-- Every command of the run is treated as its client may expect. -/
def KeepsTransactions (past : List (Server × Event)) : Prop := Always MeetsExpectation past

/-- A command that is not to be queued, or a `PING` that asks for the answer of a queued command. -/
def Unaffected (cmd : Command) : Prop :=
  cmd.name ∈ unqueued ∨ cmd.name = ascii "PING" ∧ cmd.args.head? = some (ascii "QUEUED")

/-- In an open transaction, only such commands are sent, and an `EXEC` only if no `PING` was
answered `QUEUED` or a watched key has changed. -/
def SendsUnaffected (past : List (Server × Event)) (s : Server) : Event → Prop
  | .command fd cmd => ∀ queue, transaction fd past = some queue →
    Unaffected cmd ∧ (cmd.name = ascii "EXEC" → WatchedUnchanged fd past s → queue = [])
  | _ => True

/-! ### New handlers -/

/-- Only the echo of a `PING` makes a new handler answer `QUEUED`. -/
theorem ping_of_execute_eq_queued {h : CommandHandler} (hnew : h.inMulti = false) {cmd : Command}
    {w : World} (hqueued : (h.execute cmd w).1 = ascii "QUEUED") :
    cmd.name = ascii "PING" ∧ cmd.args.head? = some (ascii "QUEUED") := by
  have hexec := CommandHandler.executesOutside hnew cmd w
  generalize h.execute cmd w = result at hexec hqueued
  cases hexec with
  | rejected =>
    exact absurd hqueued (ne_queued_of_head?_eq (CommandHandler.head?_subscriptionError _))
  | multi | watch => exact absurd hqueued ordinary_ok.ne_queued
  | exec | discard => exact absurd hqueued (ne_queued_of_head?_eq rfl)
  | watchNothing => exact absurd hqueued (ne_queued_of_head?_eq (head?_wrongArguments _))
  | single =>
    have hanswers := h.answers_executeSingle cmd w
    rw [hqueued] at hanswers
    generalize hr : ascii "QUEUED" = r at hanswers
    cases hanswers with
    | ordinary _ hordinary => exact absurd hr.symm hordinary.ne_queued
    | echo hname hargs => exact ⟨hname, hargs⟩
    | confirmation _ hne => exact absurd hr.symm hne
    | subcommand =>
      exact absurd hr.symm (ne_queued_of_head?_eq (CommandHandler.head?_unknownSubcommand _))
    | unknown =>
      exact absurd hr.symm (ne_queued_of_head?_eq (CommandHandler.head?_unknownCommand _))

/-- A new handler does nothing for `EXEC` and `DISCARD`. -/
theorem execute_world_of_end {h : CommandHandler} (hnew : h.inMulti = false) {cmd : Command}
    (hname : cmd.name = ascii "EXEC" ∨ cmd.name = ascii "DISCARD") (w : World) :
    (h.execute cmd w).2.2 = w := by
  have htransactional : CommandHandler.isTransactional cmd.name = true := by
    rcases hname with hname | hname <;> rw [hname] <;> decide
  have hwatch : cmd.name ≠ ascii "WATCH" := by
    rcases hname with hname | hname <;> rw [hname] <;> decide
  have hexec := CommandHandler.executesOutside hnew cmd w
  generalize h.execute cmd w = result at hexec ⊢
  cases hexec with
  | rejected | multi | exec | discard | watchNothing => rfl
  | watch hn => exact absurd hn hwatch
  | single hn => exact absurd (htransactional.symm.trans hn) (by decide)

/-- The echo of a `PING`. -/
theorem execute_ping {h : CommandHandler} (hnew : h.inMulti = false) {cmd : Command}
    (hname : cmd.name = ascii "PING") {message : Bytes} (hargs : cmd.args.head? = some message)
    (w : World) : (h.execute cmd w).1 = message ∧ (h.execute cmd w).2.2 = w := by
  have hsingle : h.executeSingle cmd w = (message, w) := by
    obtain ⟨rest, hcmd⟩ := List.head?_eq_some_iff.mp hargs
    rw [CommandHandler.executeSingle, if_pos hname, CommandHandler.handlePing, hcmd]
  have hexec := CommandHandler.executesOutside hnew cmd w
  generalize h.execute cmd w = result at hexec ⊢
  cases hexec with
  | single => simp only [hsingle, and_self]
  | rejected _ hn =>
    rw [hname] at hn
    exact absurd hn (by decide)
  | multi hn | exec hn | discard hn | watchNothing hn | watch hn =>
    exact absurd (hname.symm.trans hn) (by decide)

/-! ### Who is served -/

/-- Whether a client is stopped by the password depends on its entry. -/
theorem gated_congr {s s' : Server} {fd : Socket} (hpassword : s'.password = s.password)
    (hclient : (s'.client fd).authenticated = (s.client fd).authenticated) :
    s'.gated fd = s.gated fd := by
  rw [gated, gated, hpassword, hclient]

/-- The answer to a client that is not stopped by the password. -/
theorem respond_of_not_gated {s : Server} {fd : Socket} (h : s.gated fd = false) (cmd : Command) :
    s.respond fd cmd = (((s.handler fd).execute cmd s.world).1,
      { s with world := ((s.handler fd).execute cmd s.world).2.2 }) := by
  rw [respond, h, if_neg Bool.false_ne_true]

/-- A client that is stopped by the password is answered neither `QUEUED` nor, unless it gives the
password, `OK`. -/
theorem gateText_ne (password : Bytes) (cmd : Command) :
    gateText password cmd ≠ ascii "QUEUED" ∧
      (cmd.name ≠ ascii "AUTH" → gateText password cmd ≠ ascii "OK") := by
  have hinvalid := ne_queued_of_head?_eq (r := ascii "ERR invalid password") rfl
  have hnoauth : ascii "NOAUTH Authentication required." ≠ ascii "QUEUED" := by decide
  have hnoauth' : ascii "NOAUTH Authentication required." ≠ ascii "OK" := by decide
  unfold gateText
  by_cases hauth : cmd.name = ascii "AUTH"
  · rw [if_pos hauth]
    refine ⟨?_, fun hne => absurd hauth hne⟩
    split
    · split
      · exact ordinary_ok.ne_queued
      · exact hinvalid
    · exact (ordinary_wrongArguments (by decide)).ne_queued
  · rw [if_neg hauth]
    exact ⟨hnoauth, fun _ => hnoauth'⟩

/-- A client that is stopped by the password changes at most its own entry, and is answered neither
`QUEUED` nor, unless it gives the password, `OK`. -/
theorem respond_of_gated {s : Server} {fd : Socket} (h : s.gated fd = true) (cmd : Command) :
    (s.respond fd cmd).2.world = s.world ∧ (s.respond fd cmd).1 ≠ ascii "QUEUED" ∧
      (cmd.name ≠ ascii "AUTH" → (s.respond fd cmd).1 ≠ ascii "OK") := by
  have hresponds := s.responds fd cmd
  generalize s.respond fd cmd = result at hresponds ⊢
  cases hresponds with
  | password | refused => exact ⟨rfl, gateText_ne s.password cmd⟩
  | executed hserved => exact absurd (h.symm.trans hserved) (by decide)

/-- Only a `PING` is answered `QUEUED`. -/
theorem ping_of_respond_eq_queued {s : Server} {fd : Socket} {cmd : Command}
    (h : (s.respond fd cmd).1 = ascii "QUEUED") :
    cmd.name = ascii "PING" ∧ cmd.args.head? = some (ascii "QUEUED") := by
  cases hgated : s.gated fd with
  | true => exact absurd h (respond_of_gated hgated cmd).2.1
  | false =>
    rw [respond_of_not_gated hgated] at h
    exact ping_of_execute_eq_queued rfl h

/-- `EXEC` is answered with an error. -/
theorem head?_respond_exec {s : Server} {fd : Socket} (hserved : s.gated fd = false)
    {cmd : Command} (hname : cmd.name = ascii "EXEC") :
    (s.respond fd cmd).1.head? = some 69 := by
  rw [respond_of_not_gated hserved]
  have hexec := CommandHandler.executesOutside (h := s.handler fd) rfl cmd s.world
  generalize (s.handler fd).execute cmd s.world = result at hexec ⊢
  cases hexec with
  | rejected => exact CommandHandler.head?_subscriptionError _
  | exec => rfl
  | multi hn | discard hn | watchNothing hn | watch hn =>
    exact absurd (hname.symm.trans hn) (by decide)
  | single hn =>
    rw [hname] at hn
    exact absurd hn (by decide)

/-- The numbered responses of commands begin with the first number. -/
theorem head?_numberItems_executed (h : CommandHandler) {queue : List Command} (hqueue : queue ≠ [])
    (w : World) : (lines (numberItems (queue.foldl h.executeNext ([], w)).1)).head? = some 49 := by
  obtain ⟨cmd, cmds, rfl⟩ := List.exists_cons_of_ne_nil hqueue
  rw [← CommandHandler.executeAll_eq_foldl, CommandHandler.executeAll]
  exact head?_lines_numberItems _ _

/-- `EXEC` and `DISCARD` do nothing. -/
theorem respond_world_of_end {s : Server} {fd : Socket} {cmd : Command}
    (hname : cmd.name = ascii "EXEC" ∨ cmd.name = ascii "DISCARD") :
    (s.respond fd cmd).2.world = s.world := by
  cases hgated : s.gated fd with
  | true => exact (respond_of_gated hgated cmd).1
  | false =>
    rw [respond_of_not_gated hgated]
    exact execute_world_of_end rfl hname s.world

/-- A command that does nothing to the world keeps the data. -/
theorem sameData_serve {s : Server} {fd : Socket} {cmd : Command}
    (h : (s.respond fd cmd).2.world = s.world) : SameData s.world (s.serve fd cmd).2.world := by
  have hdb : (s.serve fd cmd).2.world.db = (s.respond fd cmd).2.world.db := rfl
  have hpubsub : (s.serve fd cmd).2.world.pubsub = (s.respond fd cmd).2.world.pubsub := rfl
  exact ⟨by rw [hdb, h], by rw [hpubsub, h]⟩

/-- A client that is served is served until it leaves. -/
theorem Step.not_gated {s s' : Server} {e : Event} (h : Step s e s') {fd : Socket}
    (haccept : e ≠ .accept fd) (hdisconnect : e ≠ .disconnect fd) (hs : s.gated fd = false) :
    s'.gated fd = false := by
  cases h with
  | accept fd' =>
    have hne : fd ≠ fd' := fun heq => haccept (by rw [heq])
    rw [← hs]
    exact gated_congr rfl (by rw [acceptClient, client_setClient_of_ne s hne])
  | command hfd hname =>
    rename_i fd' cmd
    have hsend : (s.serve fd' cmd).2.gated fd = (s.respond fd' cmd).2.gated fd := rfl
    rw [hsend, ← hs]
    by_cases heq : fd = fd'
    · subst heq
      rw [respond_of_not_gated hs]
      rfl
    · obtain ⟨hclient, hpassword⟩ := client_respond_of_ne s heq cmd
      exact gated_congr hpassword (by rw [hclient])
  | quit | reject | scan | reorder => exact hs
  | buffer hfd readBuffer =>
    rename_i fd'
    rw [← hs]
    by_cases heq : fd = fd'
    · subst heq
      exact gated_congr rfl (by rw [client_setClient_self])
    · exact gated_congr rfl (by rw [client_setClient_of_ne s heq])
  | disconnect fd' =>
    have hne : fd ≠ fd' := fun heq => hdisconnect (by rw [heq])
    rw [← hs]
    exact gated_congr rfl (by rw [client_disconnectClient_of_ne s hne])

/-! ### Open transactions -/

/-- How a transaction can be open after a command: it was opened by the command or before. -/
theorem noteAnswer_ne_none {opened : Option (List Command)} {cmd : Command} {answer : Bytes}
    (h : noteAnswer opened cmd answer ≠ none) :
    cmd.name = ascii "MULTI" ∧ answer = ascii "OK" ∨ opened ≠ none := by
  unfold noteAnswer at h
  split at h
  · exact absurd rfl h
  split at h
  · split at h
    · exact Or.inl ⟨‹_›, ‹_›⟩
    · exact Or.inr h
  split at h
  · exact Or.inr fun hnone => h (by rw [hnone]; rfl)
  · exact Or.inr h

/-- In every run, a client with an open transaction is served. -/
theorem served_of_trace {s₀ s : Server} {past : List (Server × Event)}
    (htrace : Trace Step s₀ past s) {fd : Socket} :
    transaction fd past ≠ none → s.gated fd = false := by
  refine htrace.invariant (I := fun past s => transaction fd past ≠ none → s.gated fd = false)
    (fun h => absurd rfl h) ?_
  intro past s e s' ih hstep h
  rw [transaction, remember_snoc, ← transaction] at h
  cases e with
  | command fd' cmd =>
    refine hstep.not_gated (fun he => nomatch he) (fun he => nomatch he) ?_
    by_cases hfd : fd' = fd
    · subst hfd
      rw [note, if_pos rfl] at h
      rcases noteAnswer_ne_none h with ⟨hname, hok⟩ | hopen
      · -- a client that is stopped by the password is not answered `OK`
        by_contra hgated
        have hauth : cmd.name ≠ ascii "AUTH" := by
          rw [hname]
          decide
        exact (respond_of_gated (Bool.eq_true_of_not_eq_false hgated) cmd).2.2 hauth hok
      · exact ih hopen
    · rw [note, if_neg hfd] at h
      exact ih h
  | accept fd' | disconnect fd' =>
    rw [note] at h
    split at h
    · exact absurd rfl h
    · refine hstep.not_gated (fun he => ?_) (fun he => ?_) (ih h)
      all_goals cases he <;> contradiction
  | quit | reject | buffer | scan | reorder =>
    exact hstep.not_gated (fun he => nomatch he) (fun he => nomatch he) (ih h)

/-! ### The main result -/

/-- At each step of a run, the client is treated as it may expect if and only if it does not send a
command that should be queued, and does not execute commands that were answered `QUEUED`. -/
theorem meetsExpectation_iff {s₀ s : Server} {past : List (Server × Event)}
    (htrace : Trace Step s₀ past s) (e : Event) :
    MeetsExpectation past s e ↔ SendsUnaffected past s e := by
  cases e with
  | command fd cmd =>
    refine forall₂_congr fun queue hqueue => ?_
    have hserved : s.gated fd = false := served_of_trace htrace (by simp [hqueue])
    constructor
    · intro hexpected
      constructor
      · by_cases hname : cmd.name ∈ unqueued
        · exact Or.inl hname
        · exact Or.inr (ping_of_respond_eq_queued (hexpected.queued hname).1)
      · intro hname hunchanged
        by_contra hqueue'
        obtain ⟨n, w, -, hanswer, -⟩ := hexpected.exec hname hunchanged
        -- the answer is an error, and numbered results begin with a digit
        have hhead := head?_respond_exec hserved hname
        rw [hanswer hqueue', head?_numberItems_executed _ hqueue'] at hhead
        exact absurd hhead (by decide)
    · rintro ⟨hunaffected, hexec⟩
      have hend (hname : cmd.name = ascii "EXEC" ∨ cmd.name = ascii "DISCARD") :
          SameData s.world (s.serve fd cmd).2.world := sameData_serve (respond_world_of_end hname)
      constructor
      · intro hname
        obtain ⟨hping, hargs⟩ := hunaffected.resolve_left hname
        obtain ⟨hanswer, hworld⟩ := execute_ping (h := s.handler fd) rfl hping hargs s.world
        have hrespond := respond_of_not_gated hserved cmd
        refine ⟨by rw [hrespond, hanswer], sameData_serve ?_⟩
        rw [hrespond]
        exact hworld
      · intro hname hunchanged
        obtain rfl := hexec hname hunchanged
        exact ⟨0, s.world, ReadSteps.refl, fun hne => absurd rfl hne, hend (Or.inl hname)⟩
      · intro hname
        exact hend (Or.inr hname)
  | accept | quit | reject | buffer | disconnect | scan | reorder => exact Iff.rfl

/-- **Transactions on the server.**  In a run of the server with any number of connections and any
interleaving of their commands, every client is treated as it may expect after a `MULTI` that was
answered `OK` if and only if no client sends, before the next `EXEC` or `DISCARD`, a command other
than `MULTI`, `EXEC`, `DISCARD`, `WATCH`, `QUIT` and a `PING` with the message `QUEUED`, and no
`EXEC` whose watched keys did not change follows such a `PING`. -/
theorem keepsTransactions_iff {s₀ s : Server} {past : List (Server × Event)}
    (htrace : Trace Step s₀ past s) : KeepsTransactions past ↔ Always SendsUnaffected past :=
  htrace.always_congr fun _ _ e _ hbefore _ => meetsExpectation_iff hbefore e

/-- A server with one connected client. -/
def connected : Server := initial.acceptClient 4

/-- A transaction in which nothing but a `PING` is sent. -/
def pingInMulti : List Command :=
  [⟨ascii "MULTI", []⟩, ⟨ascii "PING", [ascii "QUEUED"]⟩, ⟨ascii "DISCARD", []⟩]

/-- It is kept. -/
theorem keepsTransactions_ping_in_multi :
    Trace Step connected (connected.history 4 pingInMulti) (connected.after 4 pingInMulti) ∧
      KeepsTransactions (connected.history 4 pingInMulti) := by
  have htrace : Trace Step connected (connected.history 4 pingInMulti)
      (connected.after 4 pingInMulti) := trace_history (by decide) (by decide)
  refine ⟨htrace, (keepsTransactions_iff htrace).mpr ?_⟩
  change Always SendsUnaffected ([] ++ [_] ++ [_] ++ [_])
  simp only [always_snoc, always_nil, true_and]
  exact ⟨⟨fun _ _ => ⟨Or.inl (by decide), fun h => absurd h (by decide)⟩,
    fun _ _ => ⟨Or.inr ⟨rfl, rfl⟩, fun h => absurd h (by decide)⟩⟩,
    fun _ _ => ⟨Or.inl (by decide), fun h => absurd h (by decide)⟩⟩

/-- A transaction in which a key is set. -/
def setInMulti : List Command :=
  [⟨ascii "MULTI", []⟩, ⟨ascii "SET", [ascii "k", ascii "v"]⟩]

/-- The `SET` is answered `OK` instead of `QUEUED` and is executed at once. -/
theorem set_in_multi_is_executed :
    Trace Step connected (connected.history 4 setInMulti) (connected.after 4 setInMulti) ∧
      (connected.respond 4 ⟨ascii "MULTI", []⟩).1 = ascii "OK" ∧
      ((connected.after 4 [⟨ascii "MULTI", []⟩]).respond 4
        ⟨ascii "SET", [ascii "k", ascii "v"]⟩).1 = ascii "OK" ∧
      (connected.after 4 setInMulti).world.db.valueAt 0 (ascii "k") = some (.str (ascii "v")) ∧
      ¬ KeepsTransactions (connected.history 4 setInMulti) := by
  refine ⟨trace_history (by decide) (by decide), by decide, by decide, by decide, fun h => ?_⟩
  have hset := h [(connected, .command 4 ⟨ascii "MULTI", []⟩)] _ _ [] rfl [] (by decide)
  exact absurd (hset.queued (by decide)).1 (by decide)

end Server

end MyRedis
