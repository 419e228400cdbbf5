import MyRedis.Commands.System
import MyRedis.Server.ReadLoop

/-!
# The server

The class `Server` of `server.h` and `server.cpp`: accepting and dropping clients, serving the
commands that a read completes, and the rounds of the event loop.  For every command the server
makes a new command handler, so that a handler is never used for a second command.

A round handles the sockets that are ready one after the other and drops clients at its end.  For
statements about single commands there is a finer view, in which every command is a step of its own
(`Server.Step`); `Server.exists_trace_of_loop` says that whatever the event loop does is a sequence
of such steps.
-/

namespace MyRedis

open Foundation Resp

/-- `ClientState`: what the server keeps of a connection. -/
structure ClientState where
  /-- The bytes that are not yet a complete command. -/
  readBuffer : Bytes
  /-- Whether the client has given the password. -/
  authenticated : Bool

/-- The state of a new connection. -/
def ClientState.new : ClientState := ⟨[], false⟩

/-- The state of the class `Server`, with the world that its database and its pub/sub manager are
part of. -/
structure Server where
  /-- The connected clients. -/
  clients : UnorderedMap Socket ClientState
  /-- The password, or nothing if there is none. -/
  password : Bytes
  /-- The instant at which the server was started. -/
  startTime : TimePoint
  /-- Database, subscriptions, sockets, files and clock. -/
  world : World

namespace Server

/-! ### Serving a command -/

/-- The entry `clients_[client_fd]`. -/
def client (s : Server) (fd : Socket) : ClientState := (s.clients.lookup fd).getD .new

/-- Write an entry of `clients_`. -/
def setClient (s : Server) (fd : Socket) (state : ClientState) : Server :=
  { s with clients := s.clients.insert fd state }

/-- A password is set and the client has not given it. -/
def gated (s : Server) (fd : Socket) : Bool :=
  decide (s.password ≠ []) && !(s.client fd).authenticated

/-- The handler that is made for a command. -/
def handler (s : Server) (fd : Socket) : CommandHandler :=
  .new fd (some ⟨s.startTime, s.clients.entries.length⟩)

/-- The text of the response to a command, and the server before it is sent. -/
def respond (s : Server) (fd : Socket) (cmd : Command) : Bytes × Server :=
  if s.gated fd then
    if cmd.name = ascii "AUTH" then
      match cmd.args with
      | [password] =>
        if password = s.password then
          (ascii "OK", s.setClient fd { s.client fd with authenticated := true })
        else (ascii "ERR invalid password", s)
      | _ => (wrongArguments "AUTH", s)
    else (ascii "NOAUTH Authentication required.", s)
  else
    let result := (s.handler fd).execute cmd s.world
    (result.1, { s with world := result.2.2 })

/-- The bytes that are sent for a command. -/
def reply (s : Server) (fd : Socket) (cmd : Command) : Bytes :=
  serializeResponse (s.respond fd cmd).1

/-- `send_response` to a client. -/
def send (s : Server) (fd : Socket) (respData : Bytes) : Bool × Server :=
  let sent := s.world.net.sendResponse fd respData
  (sent.1, { s with world := { s.world with net := sent.2 } })

/-- Serve a command.  The connection is kept if the response could be sent. -/
def serve (fd : Socket) (cmd : Command) (s : Server) : Bool × Server :=
  (s.respond fd cmd).2.send fd (s.reply fd cmd)

/-- The answer to `QUIT`. -/
def quit (fd : Socket) (s : Server) : Server := (s.send fd (simpleString (ascii "OK"))).2

/-- The answer to a protocol error. -/
def reject (fd : Socket) (s : Server) : Server := (s.send fd (error (ascii "ERR Protocol error"))).2

/-- What the server does with the commands of a client. -/
def consumer (fd : Socket) : Consumer Server where
  serve := serve fd
  quit := quit fd
  reject := reject fd

/-! ### All that a response can do -/

/-- The answer to a command of a client that has not given the password. -/
def gateText (password : Bytes) (cmd : Command) : Bytes :=
  if cmd.name = ascii "AUTH" then
    match cmd.args with
    | [given] => if given = password then ascii "OK" else ascii "ERR invalid password"
    | _ => wrongArguments "AUTH"
  else ascii "NOAUTH Authentication required."

/-- All ways in which a response can go: the guards that were passed, and the result. -/
inductive Responds (s : Server) (fd : Socket) (cmd : Command) : Bytes × Server → Prop
  | password (hgated : s.gated fd = true) (hname : cmd.name = ascii "AUTH")
      (hargs : cmd.args = [s.password]) :
      Responds s fd cmd
        (gateText s.password cmd, s.setClient fd { s.client fd with authenticated := true })
  | refused (hgated : s.gated fd = true)
      (hcmd : ¬ (cmd.name = ascii "AUTH" ∧ cmd.args = [s.password])) :
      Responds s fd cmd (gateText s.password cmd, s)
  | executed (hserved : s.gated fd = false) :
      Responds s fd cmd (((s.handler fd).execute cmd s.world).1,
        { s with world := ((s.handler fd).execute cmd s.world).2.2 })

/-- A response goes one of these ways. -/
theorem responds (s : Server) (fd : Socket) (cmd : Command) :
    Responds s fd cmd (s.respond fd cmd) := by
  cases hgated : s.gated fd with
  | false =>
    rw [respond, hgated, if_neg Bool.false_ne_true]
    exact .executed hgated
  | true =>
    by_cases hcmd : cmd.name = ascii "AUTH" ∧ cmd.args = [s.password]
    · have hrespond : s.respond fd cmd =
          (gateText s.password cmd, s.setClient fd { s.client fd with authenticated := true }) := by
        simp [respond, gateText, hgated, hcmd.1, hcmd.2]
      rw [hrespond]
      exact .password hgated hcmd.1 hcmd.2
    · have hrespond : s.respond fd cmd = (gateText s.password cmd, s) := by
        rw [respond, gateText, if_pos hgated]
        by_cases hname : cmd.name = ascii "AUTH"
        · rw [if_pos hname, if_pos hname]
          split
          · rename_i given hargs
            have hgiven : given ≠ s.password := by
              rintro rfl
              exact hcmd ⟨hname, hargs⟩
            rw [if_neg hgiven, if_neg hgiven]
          · rfl
        · rw [if_neg hname, if_neg hname]
      rw [hrespond]
      exact .refused hgated hcmd

/-- The state of a client after its entry was written. -/
@[simp] theorem client_setClient_self (s : Server) (fd : Socket) (state : ClientState) :
    (s.setClient fd state).client fd = state := by
  rw [client, setClient, AList.lookup_insert, Option.getD_some]

/-- The state of another client. -/
theorem client_setClient_of_ne (s : Server) {fd fd' : Socket} (h : fd ≠ fd') (state : ClientState) :
    (s.setClient fd' state).client fd = s.client fd := by
  rw [client, setClient, AList.lookup_insert_ne h, client]

/-- Responding to a command does not change the password. -/
theorem password_respond (s : Server) (fd : Socket) (cmd : Command) :
    (s.respond fd cmd).2.password = s.password := by
  have hresponds := s.responds fd cmd
  generalize s.respond fd cmd = result at hresponds ⊢
  cases hresponds <;> rfl

/-- Responding to one client does not change the entry of another one, nor the password. -/
theorem client_respond_of_ne (s : Server) {fd fd' : Socket} (h : fd ≠ fd') (cmd : Command) :
    (s.respond fd' cmd).2.client fd = s.client fd ∧
      (s.respond fd' cmd).2.password = s.password := by
  refine ⟨?_, s.password_respond fd' cmd⟩
  have hresponds := s.responds fd' cmd
  generalize s.respond fd' cmd = result at hresponds ⊢
  cases hresponds with
  | password => exact client_setClient_of_ne s h _
  | refused | executed => rfl

/-! ### The event loop -/

/-- The result of `socket_read`. -/
inductive Received where
  /-- Nothing was there to be read. -/
  | wouldBlock
  /-- The client has closed the connection, or there was an error. -/
  | closed
  /-- Bytes were read. -/
  | data (bytes : Bytes)

/-- `process_client`: whether the connection is kept, and the server afterwards. -/
def processClient (fd : Socket) (received : Received) (s : Server) : Bool × Server :=
  match received with
  | .wouldBlock => (true, s)
  | .closed => (false, s)
  | .data bytes =>
    let result := processRead (consumer fd) bytes (s.client fd).readBuffer s
    let state := result.2.2.client fd
    (result.1, result.2.2.setClient fd { state with readBuffer := result.2.1 })

/-- `accept_client`. -/
def acceptClient (s : Server) (fd : Socket) : Server := s.setClient fd .new

/-- `disconnect_client`. -/
def disconnectClient (s : Server) (fd : Socket) : Server where
  clients := s.clients.erase fd
  password := s.password
  startTime := s.startTime
  world := { s.world with pubsub := s.world.pubsub.clientDisconnected fd }

/-- What one round of the event loop meets. -/
structure Round where
  /-- The socket of a new connection. -/
  accepted : Option Socket
  /-- The clients that are ready, in the order in which they are processed, and what is read from
  them. -/
  ready : List (Socket × Received)

/-- The loop over the clients that are ready: those that have to be disconnected, and the server. -/
def processReady : List (Socket × Received) → Server → List Socket × Server
  | [], s => ([], s)
  | (fd, received) :: ready, s =>
    let result := s.processClient fd received
    let rest := processReady ready result.2
    (if result.1 then rest.1 else fd :: rest.1, rest.2)

/-- One round of the event loop. -/
def round (s : Server) (r : Round) : Server :=
  let s := (r.accepted.map s.acceptClient).getD s
  let result := processReady r.ready s
  result.1.foldl disconnectClient result.2

/-- A round is possible if the ready sockets are those of different clients, the new socket is not
one of a client, and no read takes more bytes than there is room for. -/
structure Round.Possible (r : Round) (s : Server) : Prop where
  /-- The ready sockets. -/
  ready : ∀ p ∈ r.ready, p.1 ∈ s.clients
  /-- The sizes of the reads. -/
  size : ∀ p ∈ r.ready, ∀ bytes, p.2 = .data bytes → 1 ≤ bytes.length ∧ bytes.length ≤ readSize
  /-- No socket is ready twice. -/
  nodup : (r.ready.map Prod.fst).Nodup
  /-- The new socket. -/
  accepted : ∀ fd ∈ r.accepted, fd ∉ s.clients

/-- A server without password that has just been started. -/
def initial : Server := ⟨∅, [], 0, World.initial⟩

/-- What can happen to a server: a round of the event loop, a scan by the expiry thread, or a change
of the iteration order of the hash maps and hash sets. -/
inductive Loop (s : Server) : Server → Prop
  | round (r : Round) (h : r.Possible s) : Loop s (s.round r)
  | scan : Loop s { s with world := s.world.scan }
  | reorder {db : Database} {pubsub : PubSubManager} (h : s.world.db.Reordered db)
      (hpubsub : s.world.pubsub.Reordered pubsub) :
      Loop s { s with world := { s.world with db := db, pubsub := pubsub } }

/-- A client that was disconnected is as good as new. -/
theorem client_disconnectClient_self (s : Server) (fd : Socket) :
    (s.disconnectClient fd).client fd = .new := by
  rw [client, disconnectClient, AList.lookup_erase, Option.getD_none]

/-- Other clients stay as they are. -/
theorem client_disconnectClient_of_ne (s : Server) {fd fd' : Socket} (h : fd ≠ fd') :
    (s.disconnectClient fd').client fd = s.client fd := by
  rw [client, disconnectClient, AList.lookup_erase_ne h, client]

/-! ### Commands as steps -/

/-- What happens to a server, command by command. -/
inductive Event where
  /-- A client is accepted. -/
  | accept (fd : Socket)
  /-- A command of a client is served. -/
  | command (fd : Socket) (cmd : Command)
  /-- A `QUIT` of a client is answered. -/
  | quit (fd : Socket)
  /-- A protocol error of a client is answered. -/
  | reject (fd : Socket)
  /-- The read buffer of a client is changed. -/
  | buffer (fd : Socket) (readBuffer : Bytes)
  /-- A client is disconnected. -/
  | disconnect (fd : Socket)
  /-- An active-expiry scan. -/
  | scan
  /-- The hash maps and hash sets get another iteration order. -/
  | reorder (db : Database) (pubsub : PubSubManager)

/-- The steps of a server. -/
inductive Step : Server → Event → Server → Prop
  | accept (s : Server) (fd : Socket) : Step s (.accept fd) (s.acceptClient fd)
  | command (s : Server) {fd : Socket} (hfd : fd ∈ s.clients) {cmd : Command}
      (hname : cmd.name ≠ ascii "QUIT") : Step s (.command fd cmd) (s.serve fd cmd).2
  | quit (s : Server) {fd : Socket} (hfd : fd ∈ s.clients) : Step s (.quit fd) (s.quit fd)
  | reject (s : Server) {fd : Socket} (hfd : fd ∈ s.clients) : Step s (.reject fd) (s.reject fd)
  | buffer (s : Server) {fd : Socket} (hfd : fd ∈ s.clients) (readBuffer : Bytes) :
      Step s (.buffer fd readBuffer) (s.setClient fd { s.client fd with readBuffer := readBuffer })
  | disconnect (s : Server) (fd : Socket) : Step s (.disconnect fd) (s.disconnectClient fd)
  | scan (s : Server) : Step s .scan { s with world := s.world.scan }
  | reorder (s : Server) {db : Database} {pubsub : PubSubManager} (h : s.world.db.Reordered db)
      (hpubsub : s.world.pubsub.Reordered pubsub) :
      Step s (.reorder db pubsub) { s with world := { s.world with db := db, pubsub := pubsub } }

/-! ### The event loop takes such steps -/

/-- Writing an entry removes no client. -/
theorem mem_clients_setClient {s : Server} {fd fd' : Socket} (state : ClientState)
    (h : fd' ∈ s.clients) : fd' ∈ (s.setClient fd state).clients :=
  AList.mem_insert _ |>.mpr (Or.inr h)

/-- Responding to a command removes no client. -/
theorem mem_clients_respond {s : Server} {fd' : Socket} (fd : Socket) (cmd : Command)
    (h : fd' ∈ s.clients) : fd' ∈ (s.respond fd cmd).2.clients := by
  have hresponds := s.responds fd cmd
  generalize s.respond fd cmd = result at hresponds ⊢
  cases hresponds with
  | password => exact mem_clients_setClient _ h
  | refused | executed => exact h

/-- One server comes from another by steps that disconnect nobody. -/
def Follows (s s' : Server) : Prop :=
  (∃ past, Trace Step s past s') ∧ ∀ fd ∈ s.clients, fd ∈ s'.clients

namespace Follows

variable {s s' s'' : Server}

/-- No step. -/
theorem rfl : Follows s s := ⟨⟨[], Trace.nil⟩, fun _ h => h⟩

/-- One more step. -/
theorem step {e : Event} (h : Follows s s') (hstep : Step s' e s'')
    (hclients : ∀ fd ∈ s'.clients, fd ∈ s''.clients) : Follows s s'' := by
  obtain ⟨⟨past, htrace⟩, hkept⟩ := h
  exact ⟨⟨_, htrace.snoc hstep⟩, fun fd hfd => hclients fd (hkept fd hfd)⟩

/-- More steps. -/
theorem trans (h : Follows s s') (h' : Follows s' s'') : Follows s s'' := by
  obtain ⟨⟨past, htrace⟩, hkept⟩ := h
  obtain ⟨⟨later, hlater⟩, hkept'⟩ := h'
  exact ⟨⟨_, htrace.append hlater⟩, fun fd hfd => hkept' fd (hkept fd hfd)⟩

end Follows

/-- A read of a client is a sequence of steps. -/
theorem follows_processClient {s : Server} {fd : Socket} (hfd : fd ∈ s.clients)
    (received : Received) : Follows s (s.processClient fd received).2 := by
  cases received with
  | wouldBlock => exact Follows.rfl
  | closed => exact Follows.rfl
  | data bytes =>
    -- The commands, one by one, and then the rest of the buffer.
    have hloop : Follows s (processRead (consumer fd) bytes (s.client fd).readBuffer s).2.2 := by
      refine processBuffer_invariant (I := Follows s) ?_ ?_ ?_ _ _ Follows.rfl
      · intro cmd s' hname h
        exact h.step (Step.command s' (h.2 fd hfd) hname) fun _ => mem_clients_respond fd cmd
      · intro s' h
        exact h.step (Step.quit s' (h.2 fd hfd)) fun _ hmem => hmem
      · intro s' h
        exact h.step (Step.reject s' (h.2 fd hfd)) fun _ hmem => hmem
    exact hloop.step (Step.buffer _ (hloop.2 fd hfd) _) fun _ => mem_clients_setClient _

/-- So are the reads of all clients that are ready. -/
theorem follows_processReady {s : Server} {ready : List (Socket × Received)}
    (hready : ∀ p ∈ ready, p.1 ∈ s.clients) : Follows s (processReady ready s).2 := by
  induction ready generalizing s with
  | nil => exact Follows.rfl
  | cons p ready ih =>
    have hfirst := follows_processClient (hready p List.mem_cons_self) p.2
    exact hfirst.trans (ih fun p' hp' => hfirst.2 _ (hready p' (List.mem_cons_of_mem _ hp')))

/-- Disconnecting clients is a sequence of steps. -/
theorem exists_trace_disconnect (fds : List Socket) (s : Server) :
    ∃ past, Trace Step s past (fds.foldl disconnectClient s) := by
  induction fds generalizing s with
  | nil => exact ⟨[], Trace.nil⟩
  | cons fd fds ih =>
    obtain ⟨past, htrace⟩ := ih (s.disconnectClient fd)
    exact ⟨_, Trace.cons (Step.disconnect s fd) htrace⟩

/-- A round is a sequence of steps. -/
theorem exists_trace_round {s : Server} {r : Round} (h : r.Possible s) :
    ∃ past, Trace Step s past (s.round r) := by
  have haccept : Follows s ((r.accepted.map s.acceptClient).getD s) := by
    cases r.accepted with
    | none => exact Follows.rfl
    | some fd => exact Follows.rfl.step (Step.accept s fd) fun _ => mem_clients_setClient _
  have hready := follows_processReady fun p hp => haccept.2 _ (h.ready p hp)
  obtain ⟨past, htrace⟩ := (haccept.trans hready).1
  obtain ⟨later, hlater⟩ := exists_trace_disconnect _ _
  exact ⟨_, htrace.append hlater⟩

/-- Whatever the event loop does is a sequence of steps. -/
theorem exists_trace_of_loop {s s' : Server} (h : Relation.ReflTransGen Loop s s') :
    ∃ past, Trace Step s past s' := by
  induction h with
  | refl => exact ⟨[], Trace.nil⟩
  | tail _ hloop ih =>
    obtain ⟨past, htrace⟩ := ih
    cases hloop with
    | round r h =>
      obtain ⟨later, hlater⟩ := exists_trace_round h
      exact ⟨_, htrace.append hlater⟩
    | scan => exact ⟨_, htrace.snoc (Step.scan _)⟩
    | reorder h hpubsub => exact ⟨_, htrace.snoc (Step.reorder _ h hpubsub)⟩

/-! ### Commands one after the other -/

/-- The steps of a sequence of commands of one client. -/
def history (s : Server) (fd : Socket) : List Command → List (Server × Event)
  | [] => []
  | cmd :: cmds => (s, .command fd cmd) :: (s.serve fd cmd).2.history fd cmds

/-- The server after a sequence of commands of one client. -/
def after (s : Server) (fd : Socket) : List Command → Server
  | [] => s
  | cmd :: cmds => (s.serve fd cmd).2.after fd cmds

/-- A sequence of commands of a connected client is a run. -/
theorem trace_history {s : Server} {fd : Socket} (hfd : fd ∈ s.clients) {cmds : List Command}
    (hcmds : ∀ cmd ∈ cmds, cmd.name ≠ ascii "QUIT") :
    Trace Step s (s.history fd cmds) (s.after fd cmds) := by
  induction cmds generalizing s with
  | nil => exact Trace.nil
  | cons cmd cmds ih =>
    refine Trace.cons (Step.command s hfd (hcmds cmd List.mem_cons_self)) ?_
    exact ih (mem_clients_respond fd cmd hfd)
      fun cmd' hmem => hcmds cmd' (List.mem_cons_of_mem _ hmem)

end Server

end MyRedis
