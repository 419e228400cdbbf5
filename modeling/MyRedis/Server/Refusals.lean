import MyRedis.Server.Gate

/-!
# What a client without the password receives

What a client receives that has not given the password depends on its own reads alone.  The read
loop, run with the consumer `gate` that knows neither password nor server, says what such a client
is to receive, and the server sends just that (`Mirrored`).  So two clients with the same reads, of
two servers that have nothing else in common, receive the same bytes.

How many bytes a socket takes is up to the environment.  If an answer cannot be sent the server
gives the connection up, so that the client may have received only a front part of what is meant
for it.
-/

namespace MyRedis

open Foundation Resp PubSubManager

namespace Server

/-! ### What a client without the password is to receive -/

/-- What the read loop has found on a connection whose commands are all refused. -/
structure Refusals where
  /-- The commands. -/
  commands : List Command
  /-- The answers. -/
  answers : Bytes

/-- The consumer that refuses every command. -/
def gate : Consumer Refusals where
  serve := fun cmd g =>
    (true, ⟨g.commands ++ [cmd], g.answers ++ serializeResponse (refusalText cmd)⟩)
  quit := fun g => { g with answers := g.answers ++ simpleString (ascii "OK") }
  reject := fun g => { g with answers := g.answers ++ error (ascii "ERR Protocol error") }

/-- The read loop with this consumer: whether the connection is kept, the rest of the buffer, and
what was found. -/
def refusals (reads : List Bytes) : Bool × Bytes × Refusals := processReads gate reads [] ⟨[], []⟩

/-- The commands that a client sends with its reads. -/
def commandsOf (reads : List Bytes) : List Command := (refusals reads).2.2.commands

/-- The answers to the reads of a client that does not give the password. -/
def answersTo (reads : List Bytes) : Bytes := (refusals reads).2.2.answers

/-- One more read. -/
theorem refusals_snoc (reads : List Bytes) (bytes : Bytes) : refusals (reads ++ [bytes]) =
    if (refusals reads).1 then processRead gate bytes (refusals reads).2.1 (refusals reads).2.2
    else refusals reads :=
  processReads_snoc gate reads [] _ bytes

/-- A longer sequence of reads has all commands of a shorter one. -/
theorem mem_commandsOf_snoc {reads : List Bytes} {cmd : Command} (h : cmd ∈ commandsOf reads)
    (bytes : Bytes) : cmd ∈ commandsOf (reads ++ [bytes]) := by
  rw [commandsOf, refusals_snoc]
  split
  · refine processBuffer_invariant (k := gate) (I := fun g => cmd ∈ g.commands) ?_ ?_ ?_ _ _ h
    · intro cmd' g _ hg
      exact List.mem_append_left _ hg
    · intro g hg
      exact hg
    · intro g hg
      exact hg
  · exact h

/-- The server as a consumer that notes whether all answers to the client could be sent. -/
def watchful (fd : Socket) : Consumer (Server × Bool) where
  serve := fun cmd p => ((p.1.serve fd cmd).1, (p.1.serve fd cmd).2, p.2 && (p.1.serve fd cmd).1)
  quit := fun p => (p.1.quit fd, p.2 && (p.1.send fd (simpleString (ascii "OK"))).1)
  reject := fun p => (p.1.reject fd, p.2 && (p.1.send fd (error (ascii "ERR Protocol error"))).1)

/-- Apart from the note this is the server. -/
theorem processRead_watchful (fd : Socket) (bytes buffer : Bytes) (s : Server) :
    processRead (consumer fd) bytes buffer s =
      ((processRead (watchful fd) bytes buffer (s, true)).1,
        (processRead (watchful fd) bytes buffer (s, true)).2.1,
        (processRead (watchful fd) bytes buffer (s, true)).2.2.1) :=
  processBuffer_map (k := watchful fd) (l := consumer fd) (f := Prod.fst) (fun _ _ => rfl)
    (fun _ => rfl) (fun _ => rfl) _ _ (s, true)

/-- The server `p.1` differs from `s₀` only in what was sent, which is a front part of the answers
to a client behind what had been sent to it before, and all of them if `p.2` says so. -/
structure Answered (s₀ : Server) (fd : Socket) (before : Bytes) (p : Server × Bool)
    (g : Refusals) : Prop where
  /-- Only bytes were sent. -/
  server : p.1 = { s₀ with world := { s₀.world with net := p.1.world.net } }
  /-- A front part of the answers was sent. -/
  part : p.1.world.net.bytesTo fd <+: before ++ g.answers
  /-- If no send has failed, all answers were sent. -/
  whole : p.2 = true → p.1.world.net.bytesTo fd = before ++ g.answers

section Answered

variable {s₀ : Server} {fd : Socket} {before : Bytes} {p : Server × Bool} {g g' : Refusals}

/-- Once a send has failed, more answers make no difference. -/
theorem Answered.mono (h : Answered s₀ fd before p g) (hfailed : p.2 = false)
    (hanswers : g.answers <+: g'.answers) : Answered s₀ fd before p g' where
  server := h.server
  part := h.part.trans ((List.prefix_append_right_inj before).mpr hanswers)
  whole := by
    rw [hfailed]
    intro hall
    cases hall

/-- One more answer is sent. -/
theorem Answered.send (h : Answered s₀ fd before p g) (hall : p.2 = true) {data : Bytes}
    (hanswers : g'.answers = g.answers ++ data) :
    Answered s₀ fd before ((p.1.send fd data).2, p.2 && (p.1.send fd data).1) g' := by
  have hsent : (p.1.send fd data).2.world.net.bytesTo fd =
      before ++ (g.answers ++ p.1.world.net.written fd data) := by
    rw [← List.append_assoc, ← h.whole hall]
    exact (p.1.world.net.bytesTo_sendResponse fd data fd).trans (by rw [if_pos rfl])
  constructor
  · exact congrArg (fun s : Server => { s with
      world := { s.world with net := (p.1.world.net.sendResponse fd data).2 } }) h.server
  · rw [hsent, hanswers, List.prefix_append_right_inj, List.prefix_append_right_inj]
    exact p.1.world.net.written_isPrefix fd data
  · rw [hall, Bool.true_and]
    intro hok
    rw [hsent, hanswers, (p.1.world.net.sendResponse_eq_true_iff fd data).mp hok]

/-- The server answers a command of a client that is not served as the gate does. -/
theorem Answered.serve (hgated : s₀.gated fd = true) (h : Answered s₀ fd before p g)
    (hall : p.2 = true) {cmd : Command} (hcmd : cmd ≠ authCommand s₀.password) :
    Answered s₀ fd before ((watchful fd).serve cmd p).2 (gate.serve cmd g).2 := by
  have hpassword : p.1.password = s₀.password := by rw [h.server]
  have hgated' : p.1.gated fd = true := by
    rw [h.server]
    exact hgated
  have hserve : p.1.serve fd cmd = p.1.send fd (serializeResponse (refusalText cmd)) := by
    rw [← hpassword] at hcmd
    rw [Server.serve, reply, respond_of_refused hgated' hcmd]
  have hanswers : (gate.serve cmd g).2.answers =
      g.answers ++ serializeResponse (refusalText cmd) := rfl
  have hsent := h.send hall hanswers
  rw [← hserve] at hsent
  exact hsent

/-- The server answers a read of a client that is not served as the gate does. -/
theorem answered_processRead (hgated : s₀.gated fd = true)
    (hbytes : s₀.world.net.bytesTo fd = before ++ g.answers) (bytes buffer : Bytes)
    (hcommands : authCommand s₀.password ∉ (processRead gate bytes buffer g).2.2.commands) :
    Answered s₀ fd before (processRead (watchful fd) bytes buffer (s₀, true)).2.2
        (processRead gate bytes buffer g).2.2 ∧
      ((processRead (watchful fd) bytes buffer (s₀, true)).1 = true →
        (processRead gate bytes buffer g).1 = true ∧
        (processRead gate bytes buffer g).2.1 =
          (processRead (watchful fd) bytes buffer (s₀, true)).2.1 ∧
        (processRead (watchful fd) bytes buffer (s₀, true)).2.2.2 = true) := by
  have hstart : Answered s₀ fd before (s₀, true) g := ⟨rfl, by rw [hbytes], fun _ => hbytes⟩
  have hloop := processBuffer_simulation (k := watchful fd) (l := gate)
    (R := fun p g => authCommand s₀.password ∉ g.commands →
      Answered s₀ fd before p g ∧ p.2 = true)
    (P := fun p g => authCommand s₀.password ∉ g.commands → Answered s₀ fd before p g)
    (Q := fun p g => authCommand s₀.password ∉ g.commands →
      Answered s₀ fd before p g ∧ p.2 = false)
    (fun _ _ => rfl) ?_ ?_ ?_ ?_ ?_ ?_ ?_ ?_ (buffer ++ bytes).length (buffer ++ bytes)
    (fun _ => ⟨hstart, rfl⟩)
  · unfold processRead at hcommands ⊢
    split at hloop
    · obtain ⟨hkept, hbuffer, hstate⟩ := hloop
      exact ⟨(hstate hcommands).1, fun _ => ⟨hkept, hbuffer, (hstate hcommands).2⟩⟩
    · rename_i hlost
      exact ⟨hloop hcommands, fun hkept => absurd hkept hlost⟩
  · intro cmd p g h
    have hserved (hno : authCommand s₀.password ∉ (gate.serve cmd g).2.commands) :
        Answered s₀ fd before ((watchful fd).serve cmd p).2 (gate.serve cmd g).2 ∧
          ((watchful fd).serve cmd p).2.2 = ((watchful fd).serve cmd p).1 := by
      have hno' : authCommand s₀.password ∉ g.commands ∧ authCommand s₀.password ≠ cmd := by
        simpa [gate] using hno
      obtain ⟨hanswered, hall⟩ := h hno'.1
      refine ⟨hanswered.serve hgated hall hno'.2.symm, ?_⟩
      change (p.2 && (p.1.serve fd cmd).1) = (p.1.serve fd cmd).1
      rw [hall, Bool.true_and]
    split
    · rename_i hkept
      intro hno
      exact ⟨(hserved hno).1, (hserved hno).2.trans hkept⟩
    · rename_i hlost
      intro hno
      exact ⟨(hserved hno).1, (hserved hno).2.trans (Bool.eq_false_of_not_eq_true hlost)⟩
  · intro p g h hno
    exact (h hno).1.send (h hno).2 rfl
  · intro p g h hno
    exact (h hno).1.send (h hno).2 rfl
  · intro p g h hno
    exact (h hno).1
  · intro cmd p g h hno
    have hno' : authCommand s₀.password ∉ g.commands := fun hmem =>
      hno (List.mem_append_left _ hmem)
    obtain ⟨hanswered, hfailed⟩ := h hno'
    exact ⟨hanswered.mono hfailed (List.prefix_append _ _), hfailed⟩
  · intro p g h hno
    obtain ⟨hanswered, hfailed⟩ := h hno
    exact ⟨hanswered.mono hfailed (List.prefix_append _ _), hfailed⟩
  · intro p g h hno
    obtain ⟨hanswered, hfailed⟩ := h hno
    exact ⟨hanswered.mono hfailed (List.prefix_append _ _), hfailed⟩
  · intro p g h hno
    exact (h hno).1

end Answered

/-! ### Whole runs, read by read -/

/-- The observer who notes what a client has sent since it was accepted, read by read. -/
def noteReads (fd : Socket) (reads : List Bytes) (_ : Running) : ReadEvent → List Bytes
  | .accept fd' => if fd' = fd then [] else reads
  | .read fd' (.data bytes) => if fd' = fd then reads ++ [bytes] else reads
  | _ => reads

/-- What a client has sent since it was accepted, read by read. -/
def readsOf (fd : Socket) (past : List (Running × ReadEvent)) : List Bytes :=
  remember (noteReads fd) [] past

/-- The observer who notes what had been sent to a socket when its client was accepted. -/
def noteSent (fd : Socket) (before : Bytes) (r : Running) : ReadEvent → Bytes
  | .accept fd' => if fd' = fd then r.server.world.net.bytesTo fd else before
  | _ => before

/-- What had been sent to a socket when its client was accepted. -/
def sentBefore (fd : Socket) (past : List (Running × ReadEvent)) : Bytes :=
  remember (noteSent fd) [] past

/-- What a client has received since it was accepted. -/
def received (fd : Socket) (past : List (Running × ReadEvent)) (r : Running) : Bytes :=
  (r.server.world.net.bytesTo fd).drop (sentBefore fd past).length

/-- All answers to what was read from a client could be sent. -/
def allAnswered (fd : Socket) (s : Server) : Received → Bool
  | .data bytes => (processRead (watchful fd) bytes (s.client fd).readBuffer (s, true)).2.2.2
  | .wouldBlock | .closed => true

/-- The observer who notes whether all answers to a client could be sent since it was accepted. -/
def noteAnswered (fd : Socket) (noted : Bool) (r : Running) : ReadEvent → Bool
  | .accept fd' => if fd' = fd then true else noted
  | .read fd' received => if fd' = fd then noted && allAnswered fd r.server received else noted
  | _ => noted

/-- All answers to a client could be sent since it was accepted. -/
def Uninterrupted (fd : Socket) (past : List (Running × ReadEvent)) : Prop :=
  remember (noteAnswered fd) true past = true

section Notes

variable (fd : Socket) (past : List (Running × ReadEvent)) (r : Running) (e : ReadEvent)

theorem readsOf_snoc : readsOf fd (past ++ [(r, e)]) = noteReads fd (readsOf fd past) r e :=
  remember_snoc _ _ _ _ _

theorem sentBefore_snoc :
    sentBefore fd (past ++ [(r, e)]) = noteSent fd (sentBefore fd past) r e :=
  remember_snoc _ _ _ _ _

theorem uninterrupted_snoc : Uninterrupted fd (past ++ [(r, e)]) ↔
    noteAnswered fd (remember (noteAnswered fd) true past) r e = true := by
  rw [Uninterrupted, remember_snoc]

end Notes

/-- The two histories look the same to the observers of a client. -/
structure SameNotes (fd : Socket) (past past' : List (Running × ReadEvent)) : Prop where
  /-- The same was read. -/
  reads : readsOf fd past' = readsOf fd past
  /-- The same had been sent before. -/
  sent : sentBefore fd past' = sentBefore fd past
  /-- The answers could be sent in both. -/
  answered : Uninterrupted fd past' ↔ Uninterrupted fd past

/-- Events about others are not noted. -/
theorem sameNotes_of_ne {fd : Socket} (past : List (Running × ReadEvent)) (r : Running)
    {e : ReadEvent} (he : e.client ≠ some fd) : SameNotes fd past (past ++ [(r, e)]) := by
  have hother {fd' : Socket} (he' : some fd' ≠ some fd) : fd' ≠ fd := fun heq => he' (by rw [heq])
  constructor
  · rw [readsOf_snoc]
    cases e with
    | accept => exact if_neg (hother he)
    | read fd' received =>
      cases received with
      | data bytes => exact if_neg (hother he)
      | wouldBlock | closed => rfl
    | disconnect | scan | reorder => rfl
  · rw [sentBefore_snoc]
    cases e with
    | accept => exact if_neg (hother he)
    | read | disconnect | scan | reorder => rfl
  · rw [uninterrupted_snoc]
    cases e with
    | accept | read =>
      rw [noteAnswered, if_neg (hother he)]
      exact Iff.rfl
    | disconnect | scan | reorder => exact Iff.rfl

/-- Reads without data are not noted. -/
theorem sameNotes_of_noData (fd : Socket) (past : List (Running × ReadEvent)) (r : Running)
    {received : Received} (hreceived : received = .wouldBlock ∨ received = .closed) :
    SameNotes fd past (past ++ [(r, .read fd received)]) := by
  rcases hreceived with rfl | rfl
  all_goals
    refine ⟨readsOf_snoc _ _ _ _, sentBefore_snoc _ _ _ _, ?_⟩
    rw [uninterrupted_snoc, noteAnswered, if_pos rfl, allAnswered, Bool.and_true]
    exact Iff.rfl

/-- The server treats a client as the gate does: the client is not served, and what was sent to it
is what the gate answers to its reads. -/
structure Mirrored (fd : Socket) (past : List (Running × ReadEvent)) (r : Running) : Prop where
  /-- The client has not given the password. -/
  authenticated : (r.server.client fd).authenticated = false
  /-- The client has no channels. -/
  channels : ∀ c, ¬ r.server.world.pubsub.HasChannel fd c
  /-- As long as the connection is kept, the gate keeps it too and has the same bytes in its buffer,
  and all answers could be sent. -/
  kept : fd ∉ r.toDisconnect → (refusals (readsOf fd past)).1 = true ∧
    (refusals (readsOf fd past)).2.1 = (r.server.client fd).readBuffer ∧ Uninterrupted fd past
  /-- A front part of the answers was sent. -/
  part : r.server.world.net.bytesTo fd <+: sentBefore fd past ++ answersTo (readsOf fd past)
  /-- If all answers could be sent, they were sent. -/
  whole : Uninterrupted fd past →
    r.server.world.net.bytesTo fd = sentBefore fd past ++ answersTo (readsOf fd past)

section Mirrored

variable {fd : Socket} {past : List (Running × ReadEvent)} {r r' : Running} {e : ReadEvent}

/-- Nothing changes if the client sends nothing and nothing is sent to it. -/
theorem Mirrored.idle (hm : Mirrored fd past r) {past' : List (Running × ReadEvent)}
    (hnotes : SameNotes fd past past')
    (hlookup : r'.server.clients.lookup fd = r.server.clients.lookup fd)
    (hbytes : r'.server.world.net.bytesTo fd = r.server.world.net.bytesTo fd)
    (hchannels : ∀ c, ¬ r'.server.world.pubsub.HasChannel fd c)
    (hclosing : fd ∈ r.toDisconnect → fd ∈ r'.toDisconnect) : Mirrored fd past' r' := by
  have hclient : r'.server.client fd = r.server.client fd := by rw [client, hlookup, client]
  constructor
  · rw [hclient]
    exact hm.authenticated
  · exact hchannels
  · intro hopen
    rw [hnotes.reads, hnotes.answered, hclient]
    exact hm.kept fun hmem => hopen (hclosing hmem)
  · rw [hnotes.reads, hnotes.sent, hbytes]
    exact hm.part
  · rw [hnotes.reads, hnotes.sent, hnotes.answered, hbytes]
    exact hm.whole

/-- A client that is just accepted. -/
theorem mirrored_accept (hfd : fd ∉ r.server.clients)
    (hconnected : ∀ fd c, r.server.world.pubsub.HasChannel fd c → fd ∈ r.server.clients) :
    Mirrored fd (past ++ [(r, .accept fd)]) ⟨r.server.acceptClient fd, r.toDisconnect⟩ := by
  have hclient : (r.server.acceptClient fd).client fd = .new := client_setClient_self _ _ _
  have hreads : readsOf fd (past ++ [(r, .accept fd)]) = [] := by
    rw [readsOf_snoc, noteReads, if_pos rfl]
  have hsent : r.server.world.net.bytesTo fd =
      sentBefore fd (past ++ [(r, .accept fd)]) ++ answersTo [] := by
    rw [sentBefore_snoc, noteSent, if_pos rfl]
    exact (List.append_nil _).symm
  constructor
  · rw [hclient]
    rfl
  · intro c hc
    exact hfd (hconnected fd c hc)
  · intro _
    rw [hreads, hclient, uninterrupted_snoc, noteAnswered, if_pos rfl]
    exact ⟨rfl, rfl, rfl⟩
  · rw [hreads, ← hsent]
    exact List.prefix_rfl
  · intro _
    rw [hreads]
    exact hsent

/-- A client of which bytes are read. -/
theorem Mirrored.read (hm : Mirrored fd past r) (hpassword : r.server.password ≠ [])
    (hopen : fd ∉ r.toDisconnect) (bytes : Bytes) (hcommands : authCommand r.server.password ∉
      commandsOf (readsOf fd (past ++ [(r, .read fd (.data bytes))]))) :
    Mirrored fd (past ++ [(r, .read fd (.data bytes))])
      ⟨(r.server.processClient fd (.data bytes)).2,
        if (r.server.processClient fd (.data bytes)).1 then r.toDisconnect
        else r.toDisconnect ++ [fd]⟩ := by
  obtain ⟨hkept, hbuffer, huninterrupted⟩ := hm.kept hopen
  have hreads : readsOf fd (past ++ [(r, .read fd (.data bytes))]) =
      readsOf fd past ++ [bytes] := by
    rw [readsOf_snoc, noteReads, if_pos rfl]
  have hsent : sentBefore fd (past ++ [(r, .read fd (.data bytes))]) = sentBefore fd past :=
    sentBefore_snoc fd past r _
  have hnote : Uninterrupted fd (past ++ [(r, .read fd (.data bytes))]) ↔
      (processRead (watchful fd) bytes (r.server.client fd).readBuffer (r.server, true)).2.2.2 =
        true := by
    rw [uninterrupted_snoc, noteAnswered, if_pos rfl, huninterrupted, Bool.true_and]
    rfl
  have hrefusals : refusals (readsOf fd past ++ [bytes]) =
      processRead gate bytes (r.server.client fd).readBuffer (refusals (readsOf fd past)).2.2 := by
    rw [refusals_snoc, if_pos hkept, ← hbuffer]
  have hgated := gated_of_not_authenticated hpassword hm.authenticated
  rw [hreads, commandsOf, hrefusals] at hcommands
  obtain ⟨hanswered, hstays⟩ :=
    answered_processRead hgated (hm.whole huninterrupted) bytes _ hcommands
  rw [← hrefusals] at hanswered hstays
  have hserver := processRead_watchful fd bytes (r.server.client fd).readBuffer r.server
  constructor
  · rw [processClient, client_setClient_self, hserver, hanswered.server]
    exact hm.authenticated
  · intro c hc
    change (processRead (consumer fd) bytes _ r.server).2.2.world.pubsub.HasChannel fd c at hc
    rw [hserver, hanswered.server] at hc
    exact hm.channels c hc
  · intro hopen'
    have hkept' : (r.server.processClient fd (.data bytes)).1 = true := by
      by_contra hlost
      rw [if_neg hlost] at hopen'
      exact hopen' (List.mem_append_right _ List.mem_cons_self)
    rw [processClient, hserver] at hkept'
    rw [hreads, hnote, processClient, client_setClient_self, hserver]
    exact hstays hkept'
  · change (processRead (consumer fd) bytes _ r.server).2.2.world.net.bytesTo fd <+: _
    rw [hreads, hsent, hserver]
    exact hanswered.part
  · change _ → (processRead (consumer fd) bytes _ r.server).2.2.world.net.bytesTo fd = _
    rw [hreads, hsent, hnote, hserver]
    exact hanswered.whole

/-- A step keeps the invariant. -/
theorem Mirrored.step (hpassword : r.server.password ≠ [])
    (hindexed : r.server.world.pubsub.Indexed)
    (hconnected : ∀ fd c, r.server.world.pubsub.HasChannel fd c → fd ∈ r.server.clients)
    (hm : fd ∈ r.server.clients → authCommand r.server.password ∉ commandsOf (readsOf fd past) →
      Mirrored fd past r)
    (h : ReadStep r e r') (hfd : fd ∈ r'.server.clients)
    (hcommands : authCommand r.server.password ∉ commandsOf (readsOf fd (past ++ [(r, e)]))) :
    Mirrored fd (past ++ [(r, e)]) r' := by
  by_cases he : e.client = some fd
  · cases h with
    | accept _ hnew =>
      obtain rfl := Option.some.inj he
      exact mirrored_accept hnew hconnected
    | @read _ fd' hbefore hopen received =>
      obtain rfl : fd' = fd := Option.some.inj he
      cases received with
      | wouldBlock =>
        have hnotes := sameNotes_of_noData fd' past r (Or.inl rfl)
        rw [hnotes.reads] at hcommands
        have hm' := hm hbefore hcommands
        exact hm'.idle hnotes rfl rfl hm'.channels id
      | closed =>
        have hnotes := sameNotes_of_noData fd' past r (Or.inr rfl)
        rw [hnotes.reads] at hcommands
        have hm' := hm hbefore hcommands
        exact hm'.idle hnotes rfl rfl hm'.channels (List.mem_append_left _)
      | data bytes =>
        refine (hm hbefore ?_).read hpassword hopen bytes hcommands
        intro hmem
        refine hcommands ?_
        rw [readsOf_snoc, noteReads, if_pos rfl]
        exact mem_commandsOf_snoc hmem bytes
    | disconnect s fd' later =>
      obtain rfl := Option.some.inj he
      rw [disconnectClient, AList.mem_erase] at hfd
      exact absurd rfl hfd.1
    | scan | reorder => cases he
  · -- the steps are about another client or about none
    obtain ⟨steps, htrace, hclient⟩ := exists_trace_of_readStep h
    have hothers : ∀ p ∈ steps, p.2.client ≠ some fd := by
      intro p hp
      rw [hclient p hp]
      exact he
    have hnotes := sameNotes_of_ne past r he
    rw [hnotes.reads] at hcommands
    have hm' := hm (Running.mem_clients_of_trace htrace hothers hfd) hcommands
    obtain ⟨hidle, _⟩ := Running.unnoticed_of_trace htrace hothers hindexed hm'.channels
    exact hm'.idle hnotes hidle.lookup hidle.bytes hidle.channels hidle.closing.mpr

/-- The invariant holds after every run as long as the client does not give the password. -/
theorem mirrored_of_trace {s₀ : Server} (hs₀ : Running.Fresh s₀) (hpassword : s₀.password ≠ [])
    (htrace : Trace ReadStep ⟨s₀, []⟩ past r) (hfd : fd ∈ r.server.clients)
    (hcommands : authCommand s₀.password ∉ commandsOf (readsOf fd past)) : Mirrored fd past r := by
  induction htrace with
  | nil =>
    rw [hs₀.clients] at hfd
    exact absurd hfd (AList.notMem_empty fd)
  | snoc hbefore hstep ih =>
    obtain ⟨steps, hsteps⟩ := exists_trace_of_readTrace hbefore
    have hsound := Running.sound_of_trace hs₀ hsteps
    have hsame := (Running.guarded_of_trace hs₀ hpassword hsteps).unchanged
    rw [← hsame] at hcommands hpassword ih
    exact Mirrored.step hpassword hsound.indexed hsound.connected ih hstep hfd hcommands

end Mirrored

/-! ### The result -/

/-- A client of a run that has not sent the password since it was accepted. -/
structure Outside (s₀ : Server) (past : List (Running × ReadEvent)) (r : Running) (fd : Socket) :
    Prop where
  /-- The run. -/
  run : Trace ReadStep ⟨s₀, []⟩ past r
  /-- The client is connected. -/
  connected : fd ∈ r.server.clients
  /-- The password is not among its commands. -/
  commands : authCommand s₀.password ∉ commandsOf (readsOf fd past)

/-- An answer to the client could not be sent, and its connection is being given up. -/
def Interrupted (past : List (Running × ReadEvent)) (r : Running) (fd : Socket) : Prop :=
  ¬ Uninterrupted fd past ∧ fd ∈ r.toDisconnect

/-- A client without the password has received a front part of what the gate answers to its reads,
and all of it unless it was interrupted. -/
theorem Outside.received {s₀ : Server} (hs₀ : Running.Fresh s₀) (hpassword : s₀.password ≠ [])
    {past : List (Running × ReadEvent)} {r : Running} {fd : Socket} (h : Outside s₀ past r fd) :
    received fd past r <+: answersTo (readsOf fd past) ∧
      (received fd past r = answersTo (readsOf fd past) ∨ Interrupted past r fd) := by
  have hm := mirrored_of_trace hs₀ hpassword h.run h.connected h.commands
  refine ⟨?_, ?_⟩
  · have hdrop := hm.part.drop (sentBefore fd past).length
    rwa [List.drop_left] at hdrop
  · by_cases hall : Uninterrupted fd past
    · refine Or.inl ?_
      rw [Server.received, hm.whole hall, List.drop_left]
    · refine Or.inr ⟨hall, ?_⟩
      by_contra hopen
      exact hall (hm.kept hopen).2.2

/-- **The authentication gate.**  In every run of a server with a password, no step of a client that
has not given the password since it was accepted changes the database, the subscriptions or anything
of another client.  And in any two runs, whatever the databases, the subscriptions, the passwords
and the other clients are, two clients that have sent the same reads without giving the password
have received the same bytes, unless an answer to one of them could not be sent and its connection
is being given up; and even then one has received a front part of what the other has received. -/
theorem authentication_gate {s₁ s₂ : Server} (hs₁ : Running.Fresh s₁) (hs₂ : Running.Fresh s₂)
    (hpassword₁ : s₁.password ≠ []) (hpassword₂ : s₂.password ≠ []) :
    (∀ past r, Trace Running.Step ⟨s₁, []⟩ past r →
      ∀ fd, ¬ Running.HasGiven s₁.password fd past →
      ∀ e r', Running.Step r e r' → e.client = some fd → Running.Confined fd r r') ∧
    ∀ past₁ r₁ fd₁ past₂ r₂ fd₂, Outside s₁ past₁ r₁ fd₁ → Outside s₂ past₂ r₂ fd₂ →
      readsOf fd₁ past₁ = readsOf fd₂ past₂ →
      (received fd₁ past₁ r₁ <+: received fd₂ past₂ r₂ ∨
        received fd₂ past₂ r₂ <+: received fd₁ past₁ r₁) ∧
      (received fd₁ past₁ r₁ = received fd₂ past₂ r₂ ∨
        Interrupted past₁ r₁ fd₁ ∨ Interrupted past₂ r₂ fd₂) := by
  refine ⟨?_, ?_⟩
  · intro past r htrace fd hgiven e r' hstep he
    have hsound := Running.sound_of_trace hs₁ htrace
    have hguarded := Running.guarded_of_trace hs₁ hpassword₁ htrace
    have hclient : (r.server.client fd).authenticated = false :=
      Bool.eq_false_of_not_eq_true fun hfd => hgiven (hguarded.authenticated fd hfd)
    have hgated := gated_of_not_authenticated (by rwa [hguarded.unchanged]) hclient
    exact hstep.confined he hsound.indexed hgated fun c hc => hgiven (hguarded.channels fd c hc)
  · intro past₁ r₁ fd₁ past₂ r₂ fd₂ h₁ h₂ hreads
    obtain ⟨hpart₁, hall₁⟩ := h₁.received hs₁ hpassword₁
    obtain ⟨hpart₂, hall₂⟩ := h₂.received hs₂ hpassword₂
    rw [← hreads] at hpart₂ hall₂
    refine ⟨List.prefix_or_prefix_of_prefix hpart₁ hpart₂, ?_⟩
    rcases hall₁ with hall₁ | hinterrupted
    · rcases hall₂ with hall₂ | hinterrupted
      · exact Or.inl (hall₁.trans hall₂.symm)
      · exact Or.inr (Or.inr hinterrupted)
    · exact Or.inr (Or.inl hinterrupted)

/-- A client asks for a key, alone or while another client that has given the password writes it. -/
theorem authentication_gate_two_runs :
    ∃ past₁ r₁ past₂ r₂, Trace ReadStep ⟨{ initial with password := ascii "pw" }, []⟩ past₁ r₁ ∧
      Trace ReadStep ⟨{ initial with password := ascii "secret" }, []⟩ past₂ r₂ ∧
      (r₂.server.world.db.get 0 (ascii "k")).1 = some (ascii "v") ∧
      received 5 past₂ r₂ = ascii "-NOAUTH Authentication required.\r\n" ∧
      received 4 past₁ r₁ = received 5 past₂ r₂ := by
  have hstart (s : Server) : Trace ReadStep ⟨s, []⟩ [] ⟨s, []⟩ := .nil
  have hrun₁ := ((hstart { initial with password := ascii "pw" }).snoc
    (.accept _ (show (4 : Socket) ∉ _ by decide))).snoc
    (.read _ (show (4 : Socket) ∈ _ by decide) (by decide) (.data (ascii "GET k\r\n")))
  have hrun₂ := ((((hstart { initial with password := ascii "secret" }).snoc
    (.accept _ (show (5 : Socket) ∉ _ by decide))).snoc
    (.accept _ (show (7 : Socket) ∉ _ by decide))).snoc
    (.read _ (show (7 : Socket) ∈ _ by decide) (by decide)
      (.data (ascii "AUTH secret\r\nSET k v\r\n")))).snoc
    (.read _ (show (5 : Socket) ∈ _ by decide) (by decide) (.data (ascii "GET k\r\n")))
  have hgate := (authentication_gate ⟨rfl, rfl⟩ ⟨rfl, rfl⟩ (by decide) (by decide)).2 _ _ 4 _ _ 5
    ⟨hrun₁, by decide, by decide⟩ ⟨hrun₂, by decide, by decide⟩ (by decide)
  refine ⟨_, _, _, _, hrun₁, hrun₂, by decide, by decide, ?_⟩
  rcases hgate.2 with heq | hinterrupted | hinterrupted
  · exact heq
  · exact absurd hinterrupted.2 (by decide)
  · exact absurd hinterrupted.2 (by decide)

end Server

end MyRedis
