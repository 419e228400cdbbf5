import MyRedis.Server.Connections
import MyRedis.Server.Dialogue

/-!
# Commands that are sent without waiting

A client may send any number of commands without waiting for the replies, the bytes arrive in
pieces, and the server reads from its clients in any order.  Two observers look at a run read by
read: one keeps the bytes that were received on a connection, the other one the replies that were
sent on it, each with the server that it was computed from.

As long as the bytes are those of commands, the commands are served one by one in their order, each
once and each with one reply, whatever the server does for other clients in between
(`pipelined_commands_served_once`).  While the connection is open, a command is not yet served only
if its bytes have not yet arrived.
-/

namespace MyRedis

open Foundation Resp

namespace Server

/-! ### The replies to a sequence of commands -/

/-- There is one reply for each command, in the order of the commands. -/
def RepliesFor (fd : Socket) : List Command → List (Server × Send) → Prop :=
  List.Forall₂ fun cmd p => p.2.socket = fd ∧ p.2.data = p.1.reply fd cmd

/-- The replies were sent in full, except perhaps the last one. -/
def WholeButLast (replies : List (Server × Send)) : Prop :=
  ∀ p ∈ replies.dropLast, p.2.whole = true

/-- A reply that was sent in full may come first. -/
theorem WholeButLast.cons {p : Server × Send} {replies : List (Server × Send)}
    (hp : p.2.whole = true) (h : WholeButLast replies) : WholeButLast (p :: replies) := by
  cases replies with
  | nil => simp [WholeButLast]
  | cons q replies =>
    intro x hx
    rw [List.dropLast_cons_cons, List.mem_cons] at hx
    rcases hx with rfl | hx
    · exact hp
    · exact h x hx

/-- So may several. -/
theorem WholeButLast.append {before replies : List (Server × Send)}
    (hbefore : ∀ p ∈ before, p.2.whole = true) (h : WholeButLast replies) :
    WholeButLast (before ++ replies) := by
  induction before with
  | nil => exact h
  | cons p before ih =>
    exact (ih fun q hq => hbefore q (List.mem_cons_of_mem _ hq)).cons
      (hbefore p List.mem_cons_self)

/-- The server serves commands up to the first one whose reply cannot be sent. -/
theorem serveAll_noting (fd : Socket) (cmds : List Command) (s : Server)
    (log : List (Server × Send)) :
    ∃ done later replies, cmds = done ++ later ∧
      ((noting fd).serveAll cmds (s, log)).2.2 = log ++ replies ∧ RepliesFor fd done replies ∧
      WholeButLast replies ∧
      (((noting fd).serveAll cmds (s, log)).1 = true →
        later = [] ∧ ∀ p ∈ replies, p.2.whole = true) := by
  induction cmds generalizing s log with
  | nil => exact ⟨[], [], [], rfl, (List.append_nil _).symm, .nil, by simp [WholeButLast], by simp⟩
  | cons cmd cmds ih =>
    let x : Send := (s.respond fd cmd).2.world.net.sendRecord fd (s.reply fd cmd)
    have hserve : (noting fd).serve cmd (s, log) =
        ((s.serve fd cmd).1, (s.serve fd cmd).2, log ++ [(s, x)]) := rfl
    have hwhole : x.whole = (s.serve fd cmd).1 := Network.whole_sendRecord _ _ _
    rw [Consumer.serveAll, hserve]
    by_cases hkept : (s.serve fd cmd).1 = true
    · simp only [hkept, if_true]
      obtain ⟨done, later, replies, rfl, hlog, hreplies, hlast, hall⟩ :=
        ih (s.serve fd cmd).2 (log ++ [(s, x)])
      refine ⟨cmd :: done, later, (s, x) :: replies, rfl, ?_, .cons ⟨rfl, rfl⟩ hreplies,
        hlast.cons (hwhole.trans hkept), ?_⟩
      · rw [hlog, List.append_assoc]
        rfl
      · intro hserved
        obtain ⟨hlater, hwholes⟩ := hall hserved
        exact ⟨hlater, List.forall_mem_cons.mpr ⟨hwhole.trans hkept, hwholes⟩⟩
    · simp only [hkept, Bool.false_eq_true, if_false]
      exact ⟨[cmd], cmds, [(s, x)], rfl, rfl, .cons ⟨rfl, rfl⟩ .nil, by simp [WholeButLast],
        by simp⟩

/-! ### What is seen of a connection -/

namespace Running

/-- The observer who keeps the bytes that were received since the client was accepted. -/
def noteReceived (fd : Socket) (received : Bytes) (_ : Running) : ReadEvent → Bytes
  | .accept fd' => if fd' = fd then [] else received
  | .read fd' (.data bytes) => if fd' = fd then received ++ bytes else received
  | _ => received

/-- The bytes that were received on a connection. -/
def received (fd : Socket) (past : List (Running × ReadEvent)) : Bytes :=
  remember (noteReceived fd) [] past

/-- The observer who keeps the replies that were sent since the client was accepted. -/
def noteReplies (fd : Socket) (replies : List (Server × Send)) (r : Running) :
    ReadEvent → List (Server × Send)
  | .accept fd' => if fd' = fd then [] else replies
  | .read fd' (.data bytes) =>
    if fd' = fd then replies ++ r.server.repliesTo fd bytes else replies
  | _ => replies

/-- The replies that were sent on a connection, each with the server before it. -/
def replies (fd : Socket) (past : List (Running × ReadEvent)) : List (Server × Send) :=
  remember (noteReplies fd) [] past

/-- The bytes after one more step. -/
theorem received_snoc (fd : Socket) (past : List (Running × ReadEvent)) (r : Running)
    (e : ReadEvent) : received fd (past ++ [(r, e)]) = noteReceived fd (received fd past) r e :=
  remember_snoc ..

/-- The replies after one more step. -/
theorem replies_snoc (fd : Socket) (past : List (Running × ReadEvent)) (r : Running)
    (e : ReadEvent) : replies fd (past ++ [(r, e)]) = noteReplies fd (replies fd past) r e :=
  remember_snoc ..

/-- Events that do not concern the client leave no notes. -/
theorem note_other {fd : Socket} {e : ReadEvent}
    (hother : e.client = some fd → e = .read fd .wouldBlock) (received : Bytes)
    (replies : List (Server × Send)) (r : Running) :
    noteReceived fd received r e = received ∧ noteReplies fd replies r e = replies := by
  cases e with
  | accept fd' =>
    have hne : fd' ≠ fd := by
      rintro rfl
      cases hother rfl
    exact ⟨if_neg hne, if_neg hne⟩
  | read fd' got =>
    cases got with
    | wouldBlock | closed => exact ⟨rfl, rfl⟩
    | data bytes =>
      have hne : fd' ≠ fd := by
        rintro rfl
        cases hother rfl
      exact ⟨if_neg hne, if_neg hne⟩
  | disconnect | scan | reorder => exact ⟨rfl, rfl⟩

/-- The commands of a connection up to some place have been served: the replies are those to these
commands, and on an open connection the rest of the bytes is a part of the next command. -/
structure ServedUpTo (fd : Socket) (done rest : List Command) (received : Bytes)
    (replies : List (Server × Send)) (r : Running) : Prop where
  /-- One reply for each command. -/
  replies_for : RepliesFor fd (done.map Command.upper) replies
  /-- Only the last reply may have been cut. -/
  last : WholeButLast replies
  /-- On an open connection no reply was cut. -/
  whole : fd ∈ r.server.clients → fd ∉ r.toDisconnect → ∀ p ∈ replies, p.2.whole = true
  /-- What has arrived beyond these commands is in the read buffer. -/
  buffered : fd ∈ r.server.clients → fd ∉ r.toDisconnect →
    received = done.flatMap Command.encode ++ (r.server.client fd).readBuffer
  /-- It is less than the next command. -/
  part : fd ∈ r.server.clients → fd ∉ r.toDisconnect →
    PartOfNext (r.server.client fd).readBuffer rest

variable {fd : Socket} {r r' : Running} {e : ReadEvent} {done rest : List Command} {seen : Bytes}
  {log : List (Server × Send)}

/-- Processing a read adds and removes no clients. -/
theorem mem_clients_processClient_iff {s : Server} {fd' : Socket} (hfd : fd ∈ s.clients)
    (received : Received) : fd' ∈ (s.processClient fd received).2.clients ↔ fd' ∈ s.clients := by
  cases received with
  | wouldBlock | closed => rfl
  | data bytes =>
    have hloop : ∀ fd', fd' ∈ (processRead (consumer fd) bytes
        (s.client fd).readBuffer s).2.2.clients ↔ fd' ∈ s.clients := by
      refine processBuffer_invariant
        (I := fun s' : Server => ∀ fd', fd' ∈ s'.clients ↔ fd' ∈ s.clients)
        (fun cmd s' _ hs' fd' => ?_) (fun _ hs' => hs') (fun _ hs' => hs') _ _ fun _ => Iff.rfl
      exact (mem_clients_respond_iff ((hs' fd).mpr hfd) cmd).trans (hs' fd')
    rw [processClient, setClient, AList.mem_insert, hloop, or_iff_right_iff_imp]
    rintro rfl
    exact hfd

/-- The clients after a step that does not concern the client. -/
theorem mem_clients_iff_of_readStep (hstep : ReadStep r e r')
    (hother : e.client = some fd → e = .read fd .wouldBlock) :
    fd ∈ r'.server.clients ↔ fd ∈ r.server.clients := by
  cases hstep with
  | @accept _ fd' hfd' =>
    have hne : fd ≠ fd' := by
      rintro rfl
      cases hother rfl
    rw [acceptClient, setClient, AList.mem_insert, or_iff_right hne]
  | read _ hfd' _ received => exact mem_clients_processClient_iff hfd' received
  | disconnect s fd' later =>
    have hne : fd ≠ fd' := by
      rintro rfl
      cases hother rfl
    rw [disconnectClient, AList.mem_erase, and_iff_right hne]
  | scan | reorder => rfl

/-- A step that does not concern the client changes nothing. -/
theorem ServedUpTo.other (h : ServedUpTo fd done rest seen log r) (hstep : ReadStep r e r')
    (hother : e.client = some fd → e = .read fd .wouldBlock) :
    ServedUpTo fd done rest seen log r' := by
  have hclients := (mem_clients_iff_of_readStep hstep hother).mp
  obtain ⟨-, hclosing, hclient⟩ := Dialogue.unchanged_of_readStep hstep hother
  refine ⟨h.replies_for, h.last, ?_, ?_, ?_⟩
  · exact fun hfd hopen => h.whole (hclients hfd) (mt hclosing.mpr hopen)
  · intro hfd hopen
    rw [hclient]
    exact h.buffered (hclients hfd) (mt hclosing.mpr hopen)
  · intro hfd hopen
    rw [hclient]
    exact h.part (hclients hfd) (mt hclosing.mpr hopen)

/-- On a connection that is given up nothing more is promised. -/
theorem ServedUpTo.lost (h : ServedUpTo fd done rest seen log r)
    (hlost : fd ∈ r'.server.clients → fd ∈ r'.toDisconnect) :
    ServedUpTo fd done rest seen log r' :=
  ⟨h.replies_for, h.last, fun hfd hopen => absurd (hlost hfd) hopen,
    fun hfd hopen => absurd (hlost hfd) hopen, fun hfd hopen => absurd (hlost hfd) hopen⟩

/-- An empty buffer is less than any command. -/
theorem partOfNext_nil (cmds : List Command) : PartOfNext [] cmds := by
  cases cmds with
  | nil => exact Or.inl ⟨rfl, rfl⟩
  | cons c later =>
    exact Or.inr ⟨c, later, rfl, List.nil_prefix, (encode_ne_nil (c.name :: c.args)).symm⟩

/-- A connection starts with no bytes and no replies. -/
theorem servedUpTo_nil {cmds : List Command}
    (hbuffer : fd ∈ r.server.clients → (r.server.client fd).readBuffer = []) :
    ServedUpTo fd [] cmds [] [] r := by
  refine ⟨.nil, by simp [WholeButLast], by simp, ?_, ?_⟩
  · intro hfd _
    rw [hbuffer hfd]
    rfl
  · intro hfd _
    rw [hbuffer hfd]
    exact partOfNext_nil cmds

/-- A read of bytes that belong to the stream of commands. -/
theorem ServedUpTo.read (h : ServedUpTo fd done rest seen log r) (hfd : fd ∈ r.server.clients)
    (hopen : fd ∉ r.toDisconnect) (hrest : ∀ c ∈ rest, c.Sendable) {bytes later : Bytes}
    (hsize : bytes.length ≤ readSize)
    (hstream : seen ++ bytes ++ later = (done ++ rest).flatMap Command.encode) :
    ∃ done' rest', done ++ rest = done' ++ rest' ∧
      ServedUpTo fd done' rest' (seen ++ bytes) (log ++ r.server.repliesTo fd bytes)
        (Dialogue.afterRead fd bytes r) := by
  have harrived : (r.server.client fd).readBuffer ++ (bytes ++ later) =
      rest.flatMap Command.encode := by
    rw [h.buffered hfd hopen, List.flatMap_append, List.append_assoc, List.append_assoc] at hstream
    exact List.append_cancel_left hstream
  obtain ⟨new, rest', part, rfl, hpart, hbehind, hkept, hstate, hleft⟩ :=
    processRead_frames (noting fd) hrest (h.part hfd hopen) hsize harrived (r.server, [])
  obtain ⟨served, cut, replies, hserved, hlog, hreplies, hlast, hall⟩ :=
    serveAll_noting fd (new.map Command.upper) r.server []
  obtain ⟨new₁, new₂, rfl, rfl, rfl⟩ := List.map_eq_append_iff.mp hserved
  have hreplied : r.server.repliesTo fd bytes = replies := by
    rw [repliesTo, hstate, hlog]
    rfl
  rw [hreplied]
  -- If the connection stays open, all commands of the read were served.
  have hdone : fd ∉ (Dialogue.afterRead fd bytes r).toDisconnect →
      new₂ = [] ∧ (∀ p ∈ replies, p.2.whole = true) ∧
        ((Dialogue.afterRead fd bytes r).server.client fd).readBuffer = part := by
    intro hstays
    have hserves : (processRead (noting fd) bytes (r.server.client fd).readBuffer
        (r.server, [])).1 = true := by
      by_contra hlost
      rw [Dialogue.afterRead, processClient, processRead_noting, if_neg hlost] at hstays
      exact hstays (List.mem_append_right _ List.mem_cons_self)
    rw [hkept] at hserves
    obtain ⟨hcut, hwhole⟩ := hall hserves
    refine ⟨List.map_eq_nil_iff.mp hcut, hwhole, ?_⟩
    rw [Dialogue.afterRead, processClient, processRead_noting, client_setClient_self]
    exact hleft hserves
  refine ⟨done ++ new₁, new₂ ++ rest', by simp, ?_, ?_, ?_, ?_, ?_⟩
  · rw [List.map_append]
    exact List.rel_append h.replies_for hreplies
  · exact hlast.append (h.whole hfd hopen)
  · intro _ hstays
    exact List.forall_mem_append.mpr ⟨h.whole hfd hopen, (hdone hstays).2.1⟩
  · intro _ hstays
    obtain ⟨rfl, -, hbuffer⟩ := hdone hstays
    have hnew : (r.server.client fd).readBuffer ++ bytes = new₁.flatMap Command.encode ++ part := by
      rw [List.append_nil, List.flatMap_append, ← hbehind, ← List.append_assoc,
        ← List.append_assoc] at harrived
      exact List.append_cancel_right harrived
    rw [hbuffer, h.buffered hfd hopen, List.flatMap_append, List.append_assoc, hnew,
      List.append_assoc]
  · intro _ hstays
    obtain ⟨rfl, -, hbuffer⟩ := hdone hstays
    rw [hbuffer]
    exact hpart

/-- One step of the server, with the stream of one connection in mind. -/
theorem exists_servedUpTo_step {past : List (Running × ReadEvent)} {cmds : List Command}
    (hcmds : ∀ c ∈ cmds, c.Sendable) (hsmall : SmallReads (past ++ [(r, e)]))
    (h : received fd past <+: cmds.flatMap Command.encode → ∃ done rest, cmds = done ++ rest ∧
      ServedUpTo fd done rest (received fd past) (replies fd past) r)
    (hstep : ReadStep r e r')
    (hstream : received fd (past ++ [(r, e)]) <+: cmds.flatMap Command.encode) :
    ∃ done rest, cmds = done ++ rest ∧ ServedUpTo fd done rest (received fd (past ++ [(r, e)]))
      (replies fd (past ++ [(r, e)])) r' := by
  rw [received_snoc] at hstream ⊢
  rw [replies_snoc]
  by_cases hother : e.client = some fd → e = .read fd .wouldBlock
  · obtain ⟨hreceived, hreplies⟩ := note_other hother (received fd past) (replies fd past) r
    rw [hreceived] at hstream ⊢
    rw [hreplies]
    obtain ⟨done, rest, hsplit, hserved⟩ := h hstream
    exact ⟨done, rest, hsplit, hserved.other hstep hother⟩
  obtain ⟨hclient, hne⟩ := Classical.not_imp.mp hother
  cases e with
  | scan | reorder => cases hclient
  | accept fd' =>
    obtain rfl : fd' = fd := Option.some.inj hclient
    rw [noteReceived, noteReplies, if_pos rfl, if_pos rfl]
    cases hstep
    exact ⟨[], cmds, rfl, servedUpTo_nil fun _ => by rw [acceptClient, client_setClient_self]; rfl⟩
  | disconnect fd' =>
    obtain rfl : fd' = fd := Option.some.inj hclient
    obtain ⟨done, rest, hsplit, hserved⟩ := h hstream
    cases hstep
    refine ⟨done, rest, hsplit, hserved.lost fun hfd => ?_⟩
    rw [disconnectClient, AList.mem_erase] at hfd
    exact absurd rfl hfd.1
  | read fd' got =>
    obtain rfl : fd' = fd := Option.some.inj hclient
    cases got with
    | wouldBlock => exact absurd rfl hne
    | closed =>
      obtain ⟨done, rest, hsplit, hserved⟩ := h hstream
      cases hstep
      exact ⟨done, rest, hsplit, hserved.lost fun _ => List.mem_append_right _ List.mem_cons_self⟩
    | data bytes =>
      rw [noteReceived, if_pos rfl] at hstream ⊢
      rw [noteReplies, if_pos rfl]
      obtain ⟨done, rest, rfl, hserved⟩ := h ((List.prefix_append _ _).trans hstream)
      obtain ⟨hfd, hopen, rfl⟩ := Dialogue.eq_of_readStep hstep
      obtain ⟨later, hstream⟩ := hstream
      exact hserved.read hfd hopen (fun c hc => hcmds c (List.mem_append_right _ hc))
        (hsmall _ (List.mem_append_right _ List.mem_cons_self) fd' bytes rfl).2 hstream

/-- Commands that are sent without waiting for replies, in pieces of any size, are served one by
one and in their order, each once and with one reply, whatever is done for other clients. -/
theorem pipelined_commands_served_once {s₀ : Server} (hs₀ : s₀.clients = ∅)
    {past : List (Running × ReadEvent)} (htrace : Trace ReadStep ⟨s₀, []⟩ past r)
    (hreads : SmallReads past) (fd : Socket) {cmds : List Command} (hcmds : ∀ c ∈ cmds, c.Sendable)
    (hstream : received fd past <+: cmds.flatMap Command.encode) :
    ∃ done rest, cmds = done ++ rest ∧
      ServedUpTo fd done rest (received fd past) (replies fd past) r := by
  refine htrace.invariant (I := fun past r => SmallReads past →
    received fd past <+: cmds.flatMap Command.encode → ∃ done rest, cmds = done ++ rest ∧
      ServedUpTo fd done rest (received fd past) (replies fd past) r) ?_ ?_ hreads hstream
  · refine fun _ _ => ⟨[], cmds, rfl, servedUpTo_nil fun hfd => ?_⟩
    rw [hs₀] at hfd
    exact absurd hfd (AList.notMem_empty _)
  · intro past r e r' h hstep hsmall
    refine exists_servedUpTo_step hcmds hsmall (h fun p hp => ?_) hstep
    exact hsmall p (List.mem_append_left _ hp)

/-- A client sends two commands in two pieces, and between the pieces the server serves another
client. -/
theorem pipelined_commands_served_once_two_clients :
    let cmds : List Command :=
      [⟨ascii "SET", [ascii "k", ascii "v"]⟩, ⟨ascii "GET", [ascii "k"]⟩]
    let stream := cmds.flatMap Command.encode
    let other := Command.encode ⟨ascii "DEL", [ascii "k"]⟩
    let r₁ : Running := ⟨initial.acceptClient 4, []⟩
    let r₂ : Running := ⟨r₁.server.acceptClient 5, []⟩
    let r₃ := Dialogue.afterRead 4 (stream.take 35) r₂
    let r₄ := Dialogue.afterRead 5 other r₃
    let r₅ := Dialogue.afterRead 4 (stream.drop 35) r₄
    let past : List (Running × ReadEvent) := [(⟨initial, []⟩, .accept 4), (r₁, .accept 5),
      (r₂, .read 4 (.data (stream.take 35))), (r₃, .read 5 (.data other)),
      (r₄, .read 4 (.data (stream.drop 35)))]
    received 4 past = stream ∧
      (replies 4 past).map (fun p => p.2.data) =
        [simpleString (ascii "OK"), nullBulkString] ∧
      ∃ done rest, cmds = done ++ rest ∧
        ServedUpTo 4 done rest (received 4 past) (replies 4 past) r₅ := by
  intro cmds stream other r₁ r₂ r₃ r₄ r₅ past
  have htrace : Trace ReadStep ⟨initial, []⟩ past r₅ :=
    ((((Trace.nil.snoc (.accept _ (by decide))).snoc (.accept _ (by decide))).snoc
      (.read r₂ (by decide) (by decide) _)).snoc
      (.read r₃ (by decide +kernel) (by decide +kernel) _)).snoc
      (.read r₄ (by decide +kernel) (by decide +kernel) _)
  have hreceived : received 4 past = stream := by decide +kernel
  have hsmall : SmallReads past := by
    intro p hp fd bytes hread
    simp only [past, List.mem_cons, List.not_mem_nil, or_false] at hp
    obtain rfl | rfl | rfl | rfl | rfl := hp <;> cases hread <;> decide +kernel
  have hcmds : ∀ c ∈ cmds, c.Sendable := by
    intro c hc
    simp only [cmds, List.mem_cons, List.not_mem_nil, or_false] at hc
    obtain rfl | rfl := hc
    · exact ⟨⟨by decide, by decide, by decide⟩, by decide⟩
    · exact ⟨⟨by decide, by decide, by decide⟩, by decide⟩
  refine ⟨hreceived, by decide +kernel, ?_⟩
  exact pipelined_commands_served_once rfl htrace hsmall 4 hcmds (hreceived ▸ List.prefix_rfl)

end Running

end Server

end MyRedis
