import MyRedis.Server.Basic

/-!
# The server in the course of a round

A client whose connection is to be closed stays connected until the end of the round, while other
clients are served.  The state of a running server therefore includes the list `to_disconnect`.
There are two views of what a running server does:

* read by read (`ReadStep`): a client is accepted, what was read from a client is processed, a
  client is disconnected;
* command by command (`Running.Step`): the same, with every command, every answer to a `QUIT` or a
  protocol error, and every decision to give a connection up as a step of its own.

Only sockets that are free are accepted, only clients whose connection is not given up are read
from, and only those whose connection was given up are disconnected.  Whatever the event loop does
is a sequence of the former steps (`exists_readTrace_of_loop`), and each of these is a sequence of
the latter (`exists_trace_of_readTrace`).
-/

namespace MyRedis

open Foundation Resp

namespace Server

/-- A server in the course of a round. -/
structure Running where
  /-- The server. -/
  server : Server
  /-- The clients that will be disconnected. -/
  toDisconnect : List Socket

/-! ### Read by read -/

/-- What happens to a running server, read by read. -/
inductive ReadEvent where
  /-- A client is accepted. -/
  | accept (fd : Socket)
  /-- What was read from a client is processed. -/
  | read (fd : Socket) (received : Received)
  /-- A client is disconnected. -/
  | disconnect (fd : Socket)
  /-- An active-expiry scan. -/
  | scan
  /-- The hash maps and hash sets get another iteration order. -/
  | reorder (db : Database) (pubsub : PubSubManager)

/-- The client that an event is about, if any. -/
def ReadEvent.client : ReadEvent → Option Socket
  | .accept fd | .read fd _ | .disconnect fd => some fd
  | .scan | .reorder _ _ => none

/-- The steps of a running server, read by read. -/
inductive ReadStep : Running → ReadEvent → Running → Prop
  | accept (r : Running) {fd : Socket} (hfd : fd ∉ r.server.clients) :
      ReadStep r (.accept fd) ⟨r.server.acceptClient fd, r.toDisconnect⟩
  | read (r : Running) {fd : Socket} (hfd : fd ∈ r.server.clients) (hopen : fd ∉ r.toDisconnect)
      (received : Received) :
      ReadStep r (.read fd received) ⟨(r.server.processClient fd received).2,
        if (r.server.processClient fd received).1 then r.toDisconnect
        else r.toDisconnect ++ [fd]⟩
  | disconnect (s : Server) (fd : Socket) (later : List Socket) :
      ReadStep ⟨s, fd :: later⟩ (.disconnect fd) ⟨s.disconnectClient fd, later⟩
  | scan (r : Running) :
      ReadStep r .scan ⟨{ r.server with world := r.server.world.scan }, r.toDisconnect⟩
  | reorder (r : Running) {db : Database} {pubsub : PubSubManager}
      (h : r.server.world.db.Reordered db) (hpubsub : r.server.world.pubsub.Reordered pubsub) :
      ReadStep r (.reorder db pubsub)
        ⟨{ r.server with world := { r.server.world with db := db, pubsub := pubsub } },
          r.toDisconnect⟩

/-- Processing a read disconnects nobody. -/
theorem mem_clients_processClient {s : Server} {fd fd' : Socket} (hfd : fd ∈ s.clients)
    (received : Received) (h : fd' ∈ s.clients) : fd' ∈ (s.processClient fd received).2.clients :=
  (follows_processClient hfd received).2 fd' h

/-- The loop over the clients that are ready is a sequence of reads. -/
theorem exists_readTrace_processReady {s : Server} {ready : List (Socket × Received)}
    (closing : List Socket) (hready : ∀ p ∈ ready, p.1 ∈ s.clients)
    (hnodup : (ready.map Prod.fst).Nodup) (hopen : ∀ p ∈ ready, p.1 ∉ closing) :
    ∃ past, Trace ReadStep ⟨s, closing⟩ past
      ⟨(processReady ready s).2, closing ++ (processReady ready s).1⟩ := by
  induction ready generalizing s closing with
  | nil =>
    rw [processReady, List.append_nil]
    exact ⟨[], Trace.nil⟩
  | cons p ready ih =>
    obtain ⟨fd, received⟩ := p
    rw [List.map_cons, List.nodup_cons] at hnodup
    have hfd : fd ∈ s.clients := hready _ List.mem_cons_self
    have hfirst := ReadStep.read ⟨s, closing⟩ hfd (hopen _ List.mem_cons_self) received
    have hready' : ∀ p ∈ ready, p.1 ∈ (s.processClient fd received).2.clients := by
      intro p hp
      exact mem_clients_processClient hfd received (hready p (List.mem_cons_of_mem _ hp))
    rw [processReady]
    by_cases hkept : (s.processClient fd received).1 = true
    · simp only [hkept, if_true] at hfirst ⊢
      obtain ⟨past, htrace⟩ := ih closing hready' hnodup.2
        fun p hp => hopen p (List.mem_cons_of_mem _ hp)
      exact ⟨_, htrace.cons hfirst⟩
    · simp only [hkept, Bool.false_eq_true, if_false] at hfirst ⊢
      have hopen' : ∀ p ∈ ready, p.1 ∉ closing ++ [fd] := by
        intro p hp hmem
        rcases List.mem_append.mp hmem with hmem | hmem
        · exact hopen p (List.mem_cons_of_mem _ hp) hmem
        · rw [List.mem_singleton] at hmem
          exact hnodup.1 (List.mem_map.mpr ⟨p, hp, hmem⟩)
      obtain ⟨past, htrace⟩ := ih (closing ++ [fd]) hready' hnodup.2 hopen'
      rw [List.append_assoc, List.singleton_append] at htrace
      exact ⟨_, htrace.cons hfirst⟩

/-- The loop over the clients that are to be disconnected. -/
theorem exists_readTrace_disconnect (s : Server) (closing : List Socket) :
    ∃ past, Trace ReadStep ⟨s, closing⟩ past ⟨closing.foldl disconnectClient s, []⟩ := by
  induction closing generalizing s with
  | nil => exact ⟨[], Trace.nil⟩
  | cons fd closing ih =>
    obtain ⟨past, htrace⟩ := ih (s.disconnectClient fd)
    exact ⟨_, htrace.cons (ReadStep.disconnect s fd closing)⟩

/-- A round is a sequence of reads. -/
theorem exists_readTrace_round {s : Server} {r : Round} (h : r.Possible s) :
    ∃ past, Trace ReadStep ⟨s, []⟩ past ⟨s.round r, []⟩ := by
  obtain ⟨past, haccept, hkept⟩ : ∃ past, Trace ReadStep ⟨s, []⟩ past
      ⟨(r.accepted.map s.acceptClient).getD s, []⟩ ∧
      ∀ fd ∈ s.clients, fd ∈ ((r.accepted.map s.acceptClient).getD s).clients := by
    cases haccepted : r.accepted with
    | none => exact ⟨[], Trace.nil, fun _ hfd => hfd⟩
    | some fd =>
      refine ⟨_, Trace.nil.snoc (ReadStep.accept ⟨s, []⟩ (h.accepted fd haccepted)), ?_⟩
      intro fd' hfd'
      exact mem_clients_setClient _ hfd'
  obtain ⟨past', hready⟩ := exists_readTrace_processReady []
    (fun p hp => hkept _ (h.ready p hp)) h.nodup (by simp)
  obtain ⟨past'', hdisconnect⟩ := exists_readTrace_disconnect _ _
  exact ⟨_, (haccept.append hready).append hdisconnect⟩

/-- Whatever the event loop does is a sequence of reads. -/
theorem exists_readTrace_of_loop {s s' : Server} (h : Relation.ReflTransGen Loop s s') :
    ∃ past, Trace ReadStep ⟨s, []⟩ past ⟨s', []⟩ := by
  induction h with
  | refl => exact ⟨[], Trace.nil⟩
  | tail _ hloop ih =>
    obtain ⟨past, htrace⟩ := ih
    cases hloop with
    | round r h =>
      obtain ⟨later, hlater⟩ := exists_readTrace_round h
      exact ⟨_, htrace.append hlater⟩
    | scan => exact ⟨_, htrace.snoc (ReadStep.scan _)⟩
    | reorder h hpubsub => exact ⟨_, htrace.snoc (ReadStep.reorder _ h hpubsub)⟩

/-! ### Command by command -/

namespace Running

/-- What happens to a running server, command by command. -/
inductive Event where
  /-- A client is accepted. -/
  | accept (fd : Socket)
  /-- A command of a client is served. -/
  | command (fd : Socket) (cmd : Command)
  /-- A `QUIT` of a client is answered. -/
  | quit (fd : Socket)
  /-- A protocol error of a client is answered. -/
  | reject (fd : Socket)
  /-- A connection is given up without an answer. -/
  | hangUp (fd : Socket)
  /-- The read buffer of a client is changed. -/
  | buffer (fd : Socket) (readBuffer : Bytes)
  /-- A client is disconnected. -/
  | disconnect (fd : Socket)
  /-- An active-expiry scan. -/
  | scan
  /-- The hash maps and hash sets get another iteration order. -/
  | reorder (db : Database) (pubsub : PubSubManager)

/-- The client that an event is about, if any. -/
def Event.client : Event → Option Socket
  | .accept fd | .command fd _ | .quit fd | .reject fd | .hangUp fd | .buffer fd _
  | .disconnect fd => some fd
  | .scan | .reorder _ _ => none

/-- The steps of a running server, command by command. -/
inductive Step : Running → Event → Running → Prop
  | accept (r : Running) {fd : Socket} (hfd : fd ∉ r.server.clients) :
      Step r (.accept fd) ⟨r.server.acceptClient fd, r.toDisconnect⟩
  | command (r : Running) {fd : Socket} (hfd : fd ∈ r.server.clients)
      (hopen : fd ∉ r.toDisconnect) {cmd : Command} (hname : cmd.name ≠ ascii "QUIT") :
      Step r (.command fd cmd) ⟨(r.server.serve fd cmd).2,
        if (r.server.serve fd cmd).1 then r.toDisconnect else r.toDisconnect ++ [fd]⟩
  | quit (r : Running) {fd : Socket} (hfd : fd ∈ r.server.clients) (hopen : fd ∉ r.toDisconnect) :
      Step r (.quit fd) ⟨r.server.quit fd, r.toDisconnect ++ [fd]⟩
  | reject (r : Running) {fd : Socket} (hfd : fd ∈ r.server.clients)
      (hopen : fd ∉ r.toDisconnect) :
      Step r (.reject fd) ⟨r.server.reject fd, r.toDisconnect ++ [fd]⟩
  | hangUp (r : Running) {fd : Socket} (hfd : fd ∈ r.server.clients)
      (hopen : fd ∉ r.toDisconnect) : Step r (.hangUp fd) ⟨r.server, r.toDisconnect ++ [fd]⟩
  | buffer (r : Running) {fd : Socket} (hfd : fd ∈ r.server.clients) (readBuffer : Bytes) :
      Step r (.buffer fd readBuffer)
        ⟨r.server.setClient fd { r.server.client fd with readBuffer := readBuffer },
          r.toDisconnect⟩
  | disconnect (s : Server) (fd : Socket) (later : List Socket) :
      Step ⟨s, fd :: later⟩ (.disconnect fd) ⟨s.disconnectClient fd, later⟩
  | scan (r : Running) :
      Step r .scan ⟨{ r.server with world := r.server.world.scan }, r.toDisconnect⟩
  | reorder (r : Running) {db : Database} {pubsub : PubSubManager}
      (h : r.server.world.db.Reordered db) (hpubsub : r.server.world.pubsub.Reordered pubsub) :
      Step r (.reorder db pubsub)
        ⟨{ r.server with world := { r.server.world with db := db, pubsub := pubsub } },
          r.toDisconnect⟩

/-- The step for an event, if it is possible.  A change of the iteration order, which is not
determined by the state, is left out. -/
def next (r : Running) : Event → Option Running
  | .accept fd =>
    if fd ∉ r.server.clients then some ⟨r.server.acceptClient fd, r.toDisconnect⟩ else none
  | .command fd cmd =>
    if fd ∈ r.server.clients ∧ fd ∉ r.toDisconnect ∧ cmd.name ≠ ascii "QUIT" then
      some ⟨(r.server.serve fd cmd).2,
        if (r.server.serve fd cmd).1 then r.toDisconnect else r.toDisconnect ++ [fd]⟩
    else none
  | .quit fd =>
    if fd ∈ r.server.clients ∧ fd ∉ r.toDisconnect then
      some ⟨r.server.quit fd, r.toDisconnect ++ [fd]⟩
    else none
  | .reject fd =>
    if fd ∈ r.server.clients ∧ fd ∉ r.toDisconnect then
      some ⟨r.server.reject fd, r.toDisconnect ++ [fd]⟩
    else none
  | .hangUp fd =>
    if fd ∈ r.server.clients ∧ fd ∉ r.toDisconnect then
      some ⟨r.server, r.toDisconnect ++ [fd]⟩
    else none
  | .buffer fd readBuffer =>
    if fd ∈ r.server.clients then
      some ⟨r.server.setClient fd { r.server.client fd with readBuffer := readBuffer },
        r.toDisconnect⟩
    else none
  | .disconnect fd =>
    if r.toDisconnect.head? = some fd then
      some ⟨r.server.disconnectClient fd, r.toDisconnect.tail⟩
    else none
  | .scan => some ⟨{ r.server with world := r.server.world.scan }, r.toDisconnect⟩
  | .reorder _ _ => none

/-- What is computed is a step. -/
theorem step_of_next {r r' : Running} {e : Event} (h : r.next e = some r') : Step r e r' := by
  cases e with
  | accept fd =>
    obtain ⟨hfd, heq⟩ := Option.ite_none_right_eq_some.mp h
    cases heq
    exact .accept r hfd
  | command fd cmd =>
    obtain ⟨⟨hfd, hopen, hname⟩, heq⟩ := Option.ite_none_right_eq_some.mp h
    cases heq
    exact .command r hfd hopen hname
  | quit fd =>
    obtain ⟨⟨hfd, hopen⟩, heq⟩ := Option.ite_none_right_eq_some.mp h
    cases heq
    exact .quit r hfd hopen
  | reject fd =>
    obtain ⟨⟨hfd, hopen⟩, heq⟩ := Option.ite_none_right_eq_some.mp h
    cases heq
    exact .reject r hfd hopen
  | hangUp fd =>
    obtain ⟨⟨hfd, hopen⟩, heq⟩ := Option.ite_none_right_eq_some.mp h
    cases heq
    exact .hangUp r hfd hopen
  | buffer fd readBuffer =>
    obtain ⟨hfd, heq⟩ := Option.ite_none_right_eq_some.mp h
    cases heq
    exact .buffer r hfd readBuffer
  | disconnect fd =>
    obtain ⟨hhead, heq⟩ := Option.ite_none_right_eq_some.mp h
    obtain ⟨later, hlater⟩ := List.head?_eq_some_iff.mp hhead
    obtain ⟨s, closing⟩ := r
    obtain rfl : closing = fd :: later := hlater
    cases heq
    exact .disconnect s fd later
  | scan =>
    cases h
    exact .scan r
  | reorder => cases h

/-- The run for a sequence of events, if it is possible: the steps, and the state reached. -/
def history (r : Running) : List Event → Option (List (Running × Event) × Running)
  | [] => some ([], r)
  | e :: events =>
    (r.next e).bind fun r' => (r'.history events).map fun h => ((r, e) :: h.1, h.2)

/-- What is computed is a run. -/
theorem trace_of_history {r r' : Running} {events : List Event} {past : List (Running × Event)}
    (h : r.history events = some (past, r')) : Trace Step r past r' := by
  induction events generalizing r past with
  | nil =>
    cases h
    exact Trace.nil
  | cons e events ih =>
    obtain ⟨r₁, hnext, hlater⟩ := Option.bind_eq_some_iff.mp h
    obtain ⟨⟨later, _⟩, hhistory, heq⟩ := Option.map_eq_some_iff.mp hlater
    cases heq
    exact (ih hhistory).cons (step_of_next hnext)

/-- One state of a running server comes from another one by steps of a single client that disconnect
nobody. -/
def Leads (fd : Socket) (r r' : Running) : Prop :=
  (∃ past, Trace Step r past r' ∧ ∀ p ∈ past, p.2.client = some fd) ∧
    ∀ fd' ∈ r.server.clients, fd' ∈ r'.server.clients

theorem Leads.refl (fd : Socket) (r : Running) : Leads fd r r :=
  ⟨⟨[], Trace.nil, by simp⟩, fun _ h => h⟩

/-- One more step. -/
theorem Leads.step {fd : Socket} {r r' r'' : Running} {e : Event} (h : Leads fd r r')
    (hstep : Step r' e r'') (he : e.client = some fd)
    (hclients : ∀ fd' ∈ r'.server.clients, fd' ∈ r''.server.clients) : Leads fd r r'' := by
  obtain ⟨⟨past, htrace, hpast⟩, hkept⟩ := h
  refine ⟨⟨_, htrace.snoc hstep, ?_⟩, fun fd' hfd' => hclients fd' (hkept fd' hfd')⟩
  intro p hp
  rcases List.mem_append.mp hp with hp | hp
  · exact hpast p hp
  · rw [List.mem_singleton.mp hp]
    exact he

end Running

open Running in
/-- Processing the bytes of a read is a sequence of steps, at the end of which the client is to be
disconnected if its connection was given up. -/
theorem leads_processRead {s : Server} {fd : Socket} {closing : List Socket} (hfd : fd ∈ s.clients)
    (hopen : fd ∉ closing) (bytes buffer : Bytes) :
    Leads fd ⟨s, closing⟩ ⟨(processRead (consumer fd) bytes buffer s).2.2,
      if (processRead (consumer fd) bytes buffer s).1 then closing else closing ++ [fd]⟩ := by
  have houtcome := processBuffer_outcome (k := consumer fd)
    (I := fun s' => Leads fd ⟨s, closing⟩ ⟨s', closing⟩)
    (J := fun s' => Leads fd ⟨s, closing⟩ ⟨s', closing ++ [fd]⟩)
    ?_ ?_ ?_ ?_ (buffer ++ bytes).length (buffer ++ bytes) (Leads.refl fd ⟨s, closing⟩)
  · unfold processRead
    split at houtcome
    · rename_i hkept
      rw [if_pos hkept]
      exact houtcome
    · rename_i hlost
      rw [if_neg hlost]
      exact houtcome
  · intro cmd s' hname h
    have hstep := Running.Step.command ⟨s', closing⟩ (h.2 fd hfd) hopen hname
    have hlater := h.step hstep rfl fun _ => mem_clients_respond fd cmd
    have hserve : (consumer fd).serve cmd s' = s'.serve fd cmd := rfl
    rw [hserve]
    split
    · rename_i hkept
      simpa only [hkept, if_true] using hlater
    · rename_i hlost
      simpa only [hlost, Bool.false_eq_true, if_false] using hlater
  · intro s' h
    exact h.step (Running.Step.quit ⟨s', closing⟩ (h.2 fd hfd) hopen) rfl fun _ hmem => hmem
  · intro s' h
    exact h.step (Running.Step.reject ⟨s', closing⟩ (h.2 fd hfd) hopen) rfl fun _ hmem => hmem
  · intro s' h
    exact h.step (Running.Step.hangUp ⟨s', closing⟩ (h.2 fd hfd) hopen) rfl fun _ hmem => hmem

/-- A step read by read is a sequence of steps command by command, all about the same client. -/
theorem exists_trace_of_readStep {r r' : Running} {e : ReadEvent} (h : ReadStep r e r') :
    ∃ past, Trace Running.Step r past r' ∧ ∀ p ∈ past, p.2.client = e.client := by
  have hsingle {e' : Running.Event} (hstep : Running.Step r e' r') (he' : e'.client = e.client) :
      ∃ past, Trace Running.Step r past r' ∧ ∀ p ∈ past, p.2.client = e.client :=
    ⟨_, Trace.nil.snoc hstep, by simpa using he'⟩
  cases h with
  | accept _ hfd => exact hsingle (.accept r hfd) rfl
  | read _ hfd hopen received =>
    cases received with
    | wouldBlock => exact ⟨[], Trace.nil, by simp⟩
    | closed => exact hsingle (.hangUp r hfd hopen) rfl
    | data bytes =>
      rename_i fd
      have hread := leads_processRead hfd hopen bytes (r.server.client fd).readBuffer
      exact (hread.step (.buffer _ (hread.2 _ hfd) _) rfl fun _ => mem_clients_setClient _).1
  | disconnect s fd later => exact hsingle (.disconnect s fd later) rfl
  | scan => exact hsingle (.scan r) rfl
  | reorder _ h hpubsub => exact hsingle (.reorder r h hpubsub) rfl

/-- A run read by read is a run command by command. -/
theorem exists_trace_of_readTrace {r r' : Running} {past : List (Running × ReadEvent)}
    (h : Trace ReadStep r past r') : ∃ past', Trace Running.Step r past' r' := by
  induction h with
  | nil => exact ⟨[], Trace.nil⟩
  | snoc _ hstep ih =>
    obtain ⟨past', htrace⟩ := ih
    obtain ⟨later, hlater, _⟩ := exists_trace_of_readStep hstep
    exact ⟨_, htrace.append hlater⟩

end Server

end MyRedis
