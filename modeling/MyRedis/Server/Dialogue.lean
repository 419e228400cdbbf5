import MyRedis.Server.BufferBound
import MyRedis.Server.SingleReplies

/-!
# Requests and replies

A client of this repository is connected to the server.  `Client::send_command` writes a line to the
socket and then reads one value, while other clients are served.  A state of this system
(`Server.Dialogue`) has the running server, the bytes on their way in the two directions, and the
read buffer of the client.

Nothing but their order ties the replies to the commands.  A command that is answered by several
values, such as a `SUBSCRIBE` of two channels, makes every later call return an older value, and a
line that looks like the header of an array is not answered at all.  In runs without such lines
requests and replies stay paired (`Server.Dialogue.requests_and_replies_paired`).
-/

namespace MyRedis

open Foundation Resp

namespace Server

/-- A client that calls `send_command`, and the server. -/
structure Dialogue where
  /-- The running server. -/
  running : Running
  /-- The server has not yet closed the connection. -/
  connected : Bool
  /-- The bytes on their way to the server. -/
  toServer : Bytes
  /-- The bytes on their way to the client. -/
  toClient : Bytes
  /-- The member `read_buffer_` of the client. -/
  readBuffer : Bytes
  /-- A call of `send_command` waits for its reply. -/
  waiting : Bool

namespace Dialogue

/-- What happens in a dialogue. -/
inductive Event where
  /-- `send_command` is called and writes its line. -/
  | send (line : Bytes)
  /-- The server processes bytes of the client. -/
  | read (bytes : Bytes)
  /-- The server does something else. -/
  | other (e : ReadEvent)
  /-- The server closes the connection. -/
  | disconnect
  /-- The waiting call reads bytes. -/
  | receive (bytes : Bytes)
  /-- The waiting call returns. -/
  | answer (text : Bytes)

/-- The bytes that were written to a socket between two states of the server. -/
def newBytes (fd : Socket) (r r' : Running) : Bytes :=
  (r'.server.world.net.bytesTo fd).drop (r.server.world.net.bytesTo fd).length

/-- The steps of a dialogue on the socket `fd`, in which no message is published to the client.
Calls that fail because the connection is broken are left out. -/
inductive Step (fd : Socket) : Dialogue → Event → Dialogue → Prop
  | send (d : Dialogue) {line : Bytes} (hidle : d.waiting = false) (hline : CommandLine line) :
      Step fd d (.send line) { d with toServer := d.toServer ++ (line ++ CRLF), waiting := true }
  | read (d : Dialogue) {bytes later : Bytes} {r : Running} (hconnected : d.connected = true)
      (hbytes : d.toServer = bytes ++ later) (hsize : 1 ≤ bytes.length ∧ bytes.length ≤ readSize)
      (hread : ReadStep d.running (.read fd (.data bytes)) r) :
      Step fd d (.read bytes)
        { d with running := r, toServer := later,
                 toClient := d.toClient ++ newBytes fd d.running r }
  | other (d : Dialogue) {e : ReadEvent} {r : Running}
      (hother : d.connected = true → e.client = some fd → e = .read fd .wouldBlock)
      (hquiet : d.connected = true →
        r.server.world.net.bytesTo fd = d.running.server.world.net.bytesTo fd)
      (hstep : ReadStep d.running e r) : Step fd d (.other e) { d with running := r }
  | disconnect (d : Dialogue) {r : Running} (hconnected : d.connected = true)
      (hstep : ReadStep d.running (.disconnect fd) r) :
      Step fd d .disconnect { d with running := r, connected := false }
  | receive (d : Dialogue) {bytes later : Bytes} (hwaiting : d.waiting = true)
      (hmore : Client.parseRespValue d.readBuffer = none) (hbytes : d.toClient = bytes ++ later)
      (hsize : 1 ≤ bytes.length ∧ bytes.length ≤ readSize) :
      Step fd d (.receive bytes)
        { d with toClient := later, readBuffer := d.readBuffer ++ bytes }
  | answer (d : Dialogue) {text : Bytes} {consumed : ℕ} (hwaiting : d.waiting = true)
      (hvalue : Client.parseRespValue d.readBuffer = some (text, consumed)) :
      Step fd d (.answer text)
        { d with readBuffer := d.readBuffer.drop consumed, waiting := false }

/-- The start of a dialogue, when the client was accepted. -/
def start (r : Running) : Dialogue := ⟨r, true, [], [], [], false⟩

/-! ### What is expected -/

/-- The line that an event sends, if any. -/
def Event.line : Event → Option Bytes
  | .send line => some line
  | _ => none

/-- The text that an event returns, if any. -/
def Event.text : Event → Option Bytes
  | .answer text => some text
  | _ => none

/-- The replies that the server sends to the client in an event, each with the server before it. -/
def repliesAt (fd : Socket) (d : Dialogue) : Event → List (Server × Send)
  | .read bytes => d.running.server.repliesTo fd bytes
  | _ => []

/-- The lines that were sent. -/
def lines (past : List (Dialogue × Event)) : List Bytes := past.flatMap fun p => p.2.line.toList

/-- The texts that were returned. -/
def texts (past : List (Dialogue × Event)) : List Bytes := past.flatMap fun p => p.2.text.toList

/-- The replies of the server. -/
def replies (fd : Socket) (past : List (Dialogue × Event)) : List (Server × Send) :=
  past.flatMap fun p => p.1.repliesAt fd p.2

/-- A step brings the waiting call nearer to its end: it returns, or bytes arrive. -/
def Advances (d d' : Dialogue) : Prop :=
  d'.waiting = false ∨ d'.toServer.length < d.toServer.length ∨
    d'.toServer.length = d.toServer.length ∧ d'.toClient.length < d.toClient.length

/-- Requests and replies are paired. -/
structure Paired (fd : Socket) (past : List (Dialogue × Event)) (d : Dialogue) : Prop where
  /-- Every reply of the server is the reply to the line at its place. -/
  served : Matches (fun line x => RepliesTo x.1 fd line x.2.data) (lines past) (replies fd past)
  /-- Every call returns the text of the whole reply at its place. -/
  shown : Matches (fun x text => Client.parseRespValue x.2.data = some (text, x.2.data.length))
    (replies fd past) (texts past)
  /-- A call that waits is not stuck, unless the server could not send a reply. -/
  returns : d.waiting = true → (∃ x ∈ replies fd past, x.2.whole = false) ∨
    ∃ e d', Step fd d e d' ∧ Advances d d'

/-- The server reads from the connection. -/
def Open (fd : Socket) (d : Dialogue) : Prop := d.connected = true ∧ fd ∉ d.running.toDisconnect

/-- A line is sent only on an open connection, and it does not announce an array; a command is
executed only if its reply is one value. -/
def Fit (fd : Socket) (d : Dialogue) : Event → Prop
  | .send line => d.Open fd ∧ ¬ AnnouncesArray line
  | .read bytes => ∀ cmd n,
      parseCommand ((d.running.server.client fd).readBuffer ++ bytes) = .ok cmd n →
      cmd.name ≠ ascii "QUIT" → d.running.server.SingleReply fd cmd
  | .other _ | .disconnect | .receive _ | .answer _ => True

/-! ### Steps of the server -/

/-- The server after a read. -/
def afterRead (fd : Socket) (bytes : Bytes) (r : Running) : Running :=
  ⟨(r.server.processClient fd (.data bytes)).2,
    if (r.server.processClient fd (.data bytes)).1 then r.toDisconnect else r.toDisconnect ++ [fd]⟩

/-- A read is possible if the server reads from the connection, and there is one way to go on. -/
theorem eq_of_readStep {fd : Socket} {r r' : Running} {bytes : Bytes}
    (hstep : ReadStep r (.read fd (.data bytes)) r') :
    fd ∈ r.server.clients ∧ fd ∉ r.toDisconnect ∧ r' = afterRead fd bytes r := by
  cases hstep with
  | read _ hfd hopen => exact ⟨hfd, hopen, rfl⟩

/-- Only clients whose connection was given up are disconnected. -/
theorem mem_toDisconnect_of_readStep {fd : Socket} {r r' : Running}
    (hstep : ReadStep r (.disconnect fd) r') : fd ∈ r.toDisconnect := by
  cases hstep
  exact List.mem_cons_self

/-- What the server does for others changes nothing for a client. -/
theorem unchanged_of_readStep {fd : Socket} {r r' : Running} {e : ReadEvent}
    (hstep : ReadStep r e r') (hother : e.client = some fd → e = .read fd .wouldBlock) :
    (fd ∈ r.server.clients → fd ∈ r'.server.clients) ∧
      (fd ∈ r'.toDisconnect ↔ fd ∈ r.toDisconnect) ∧
        r'.server.client fd = r.server.client fd := by
  cases hstep with
  | @accept _ fd' hfd' =>
    have hne : fd ≠ fd' := by
      rintro rfl
      cases hother rfl
    exact ⟨mem_clients_setClient _, Iff.rfl, client_setClient_of_ne _ hne _⟩
  | @read _ fd' hfd' hopen received =>
    by_cases hfd : fd = fd'
    · obtain rfl := hfd
      cases hother rfl
      exact ⟨id, Iff.rfl, rfl⟩
    · refine ⟨mem_clients_processClient hfd' received, ?_, client_processClient_of_ne hfd received⟩
      dsimp only
      split
      · exact Iff.rfl
      · simp [hfd]
  | disconnect s fd' later =>
    have hne : fd ≠ fd' := by
      rintro rfl
      cases hother rfl
    exact ⟨fun hfd => AList.mem_erase.mpr ⟨hne, hfd⟩, by simp [hne],
      client_disconnectClient_of_ne s hne⟩
  | scan | reorder => exact ⟨id, Iff.rfl, rfl⟩

/-- The two maps of the pub/sub manager go on to agree. -/
theorem indexed_of_readStep {r r' : Running} {e : ReadEvent} (hstep : ReadStep r e r')
    (h : r.server.world.pubsub.Indexed) : r'.server.world.pubsub.Indexed := by
  obtain ⟨past, htrace, -⟩ := exists_trace_of_readStep hstep
  refine htrace.invariant (I := fun _ r => r.server.world.pubsub.Indexed) h ?_
  intro _ r e r' hindexed hstep
  exact hstep.indexed hindexed

/-! ### Phases -/

/-- On an open connection nothing is left of the lines that were sent. -/
def Settled (fd : Socket) (d : Dialogue) : Prop :=
  d.Open fd → d.toServer = [] ∧ (d.running.server.client fd).readBuffer = []

section Phases

variable (fd : Socket) (past : List (Dialogue × Event)) (d : Dialogue)

/-- No call waits. -/
structure Idle : Prop where
  /-- The last call has returned. -/
  waiting : d.waiting = false
  /-- The client has read everything. -/
  client : d.readBuffer = [] ∧ d.toClient = []
  /-- So has the server. -/
  server : d.Settled fd
  /-- Every line is answered. -/
  answered : (replies fd past).length = (lines past).length
  /-- Every reply is returned. -/
  returned : (texts past).length = (replies fd past).length

/-- A line is sent, but not yet answered. -/
structure Asked (before : List Bytes) (line : Bytes) : Prop where
  /-- The call waits. -/
  waiting : d.waiting = true
  /-- The client has read everything. -/
  client : d.readBuffer = [] ∧ d.toClient = []
  /-- The server reads from the connection. -/
  isOpen : d.Open fd
  /-- The line is one that can be typed. -/
  typed : CommandLine line
  /-- The line does not announce an array. -/
  single : ¬ AnnouncesArray line
  /-- A part of the line has arrived, the other one is on its way. -/
  server : (d.running.server.client fd).readBuffer ++ d.toServer = line ++ CRLF
  /-- Not all of the line has arrived. -/
  more : d.toServer ≠ []
  /-- It is the last line. -/
  last : lines past = before ++ [line]
  /-- Every line before it is answered. -/
  answered : (replies fd past).length = before.length
  /-- Every reply is returned. -/
  returned : (texts past).length = (replies fd past).length

/-- The reply to the last line is sent, but not yet returned. -/
structure Replied (before : List (Server × Send)) (x : Server × Send) (text : Bytes) : Prop where
  /-- The call waits. -/
  waiting : d.waiting = true
  /-- A part of the reply has arrived, the other one is on its way. -/
  client : d.readBuffer ++ d.toClient = x.2.written
  /-- A front part of the reply was written. -/
  part : x.2.written <+: x.2.data
  /-- The client reads the whole reply as one value. -/
  readable : Client.parseRespValue x.2.data = some (text, x.2.data.length)
  /-- The server has read everything. -/
  server : d.Settled fd
  /-- It is the last reply. -/
  last : replies fd past = before ++ [x]
  /-- Every line is answered. -/
  answered : (replies fd past).length = (lines past).length
  /-- Every reply before it is returned. -/
  returned : (texts past).length = before.length

/-- The phases of a dialogue. -/
inductive Phase : Prop
  | idle (h : Idle fd past d)
  | asked {before : List Bytes} {line : Bytes} (h : Asked fd past d before line)
  | replied {before : List (Server × Send)} {x : Server × Send} {text : Bytes}
      (h : Replied fd past d before x text)

end Phases

/-- What holds in every run of fitting steps. -/
structure Invariant (fd : Socket) (past : List (Dialogue × Event)) (d : Dialogue) : Prop where
  /-- Every reply of the server is the reply to the line at its place. -/
  served : Matches (fun line x => RepliesTo x.1 fd line x.2.data) (lines past) (replies fd past)
  /-- Every call returns the text of the whole reply at its place. -/
  shown : Matches (fun x text => Client.parseRespValue x.2.data = some (text, x.2.data.length))
    (replies fd past) (texts past)
  /-- The client is connected. -/
  client : d.connected = true → fd ∈ d.running.server.clients
  /-- The two maps of the pub/sub manager agree. -/
  indexed : d.running.server.world.pubsub.Indexed
  /-- The phase. -/
  phase : Phase fd past d

section Steps

variable {fd : Socket} {past : List (Dialogue × Event)} {d : Dialogue} {e : Event}

theorem lines_snoc : lines (past ++ [(d, e)]) = lines past ++ e.line.toList := by
  simp [lines]

theorem texts_snoc : texts (past ++ [(d, e)]) = texts past ++ e.text.toList := by
  simp [texts]

theorem replies_snoc : replies fd (past ++ [(d, e)]) = replies fd past ++ d.repliesAt fd e := by
  simp [replies]

theorem lines_of_none (h : e.line = none) : lines (past ++ [(d, e)]) = lines past := by
  rw [lines_snoc, h, Option.toList_none, List.append_nil]

theorem texts_of_none (h : e.text = none) : texts (past ++ [(d, e)]) = texts past := by
  rw [texts_snoc, h, Option.toList_none, List.append_nil]

theorem replies_of_nil (h : d.repliesAt fd e = []) :
    replies fd (past ++ [(d, e)]) = replies fd past := by
  rw [replies_snoc, h, List.append_nil]

/-- A step that changes nothing on the connection. -/
theorem Invariant.quiet (h : Invariant fd past d) (hline : e.line = none) (htext : e.text = none)
    (hreply : d.repliesAt fd e = []) {r : Running} {connected : Bool}
    (hclient : connected = true → fd ∈ r.server.clients)
    (hindexed : r.server.world.pubsub.Indexed)
    (hopen : Open fd { d with running := r, connected := connected } ↔ d.Open fd)
    (hbuffer : d.Open fd → r.server.client fd = d.running.server.client fd) :
    Invariant fd (past ++ [(d, e)]) { d with running := r, connected := connected } := by
  have hlines : lines (past ++ [(d, e)]) = lines past := lines_of_none hline
  have htexts : texts (past ++ [(d, e)]) = texts past := texts_of_none htext
  have hreplies : replies fd (past ++ [(d, e)]) = replies fd past := replies_of_nil hreply
  have hsettled (hserver : d.Settled fd) :
      Settled fd { d with running := r, connected := connected } := by
    intro hopen'
    obtain ⟨hsent, hread⟩ := hserver (hopen.mp hopen')
    exact ⟨hsent, (congrArg ClientState.readBuffer (hbuffer (hopen.mp hopen'))).trans hread⟩
  refine ⟨?_, ?_, hclient, hindexed, ?_⟩
  · rw [hlines, hreplies]
    exact h.served
  · rw [htexts, hreplies]
    exact h.shown
  · cases h.phase with
    | idle hidle =>
      refine .idle ⟨hidle.waiting, hidle.client, hsettled hidle.server, ?_, ?_⟩
      · rw [hreplies, hlines, hidle.answered]
      · rw [htexts, hreplies, hidle.returned]
    | asked hasked =>
      refine .asked ⟨hasked.waiting, hasked.client, hopen.mpr hasked.isOpen, hasked.typed,
        hasked.single, ?_, hasked.more, hlines.trans hasked.last, ?_, ?_⟩
      · have hsame := congrArg ClientState.readBuffer (hbuffer hasked.isOpen)
        exact (congrArg (· ++ d.toServer) hsame).trans hasked.server
      · rw [hreplies, hasked.answered]
      · rw [htexts, hreplies, hasked.returned]
    | replied hreplied =>
      refine .replied ⟨hreplied.waiting, hreplied.client, hreplied.part, hreplied.readable,
        hsettled hreplied.server, hreplies.trans hreplied.last, ?_, ?_⟩
      · rw [hreplies, hlines, hreplied.answered]
      · rw [htexts, hreplied.returned]

/-- A line is sent. -/
theorem Invariant.send (h : Invariant fd past d) {line : Bytes} (hidle : d.waiting = false)
    (hline : CommandLine line) (hfit : d.Fit fd (.send line)) :
    Invariant fd (past ++ [(d, .send line)])
      { d with toServer := d.toServer ++ (line ++ CRLF), waiting := true } := by
  obtain ⟨hopen, harray⟩ := hfit
  have hlines : lines (past ++ [(d, .send line)]) = lines past ++ [line] := lines_snoc
  have htexts : texts (past ++ [(d, .send line)]) = texts past :=
    texts_of_none rfl
  have hreplies : replies fd (past ++ [(d, .send line)]) = replies fd past :=
    replies_of_nil rfl
  refine ⟨?_, ?_, h.client, h.indexed, ?_⟩
  · rw [hlines, hreplies]
    exact h.served.append_left _
  · rw [htexts, hreplies]
    exact h.shown
  · cases h.phase with
    | idle hidle =>
      obtain ⟨hsent, hread⟩ := hidle.server hopen
      refine .asked ⟨rfl, hidle.client, hopen, hline, harray, ?_, ?_, hlines, ?_, ?_⟩
      · rw [hsent, hread, List.nil_append, List.nil_append]
      · rw [hsent]
        simp [CRLF]
      · rw [hreplies, hidle.answered]
      · rw [htexts, hreplies, hidle.returned]
    | asked hasked => exact absurd (hidle.symm.trans hasked.waiting) (by decide)
    | replied hreplied => exact absurd (hidle.symm.trans hreplied.waiting) (by decide)

/-- The waiting call reads bytes. -/
theorem Invariant.receive (h : Invariant fd past d) {bytes later : Bytes}
    (hwaiting : d.waiting = true) (hbytes : d.toClient = bytes ++ later)
    (hsize : 1 ≤ bytes.length) :
    Invariant fd (past ++ [(d, .receive bytes)])
      { d with toClient := later, readBuffer := d.readBuffer ++ bytes } := by
  have hlines : lines (past ++ [(d, .receive bytes)]) = lines past :=
    lines_of_none rfl
  have htexts : texts (past ++ [(d, .receive bytes)]) = texts past :=
    texts_of_none rfl
  have hreplies : replies fd (past ++ [(d, .receive bytes)]) = replies fd past :=
    replies_of_nil rfl
  refine ⟨?_, ?_, h.client, h.indexed, ?_⟩
  · rw [hlines, hreplies]
    exact h.served
  · rw [htexts, hreplies]
    exact h.shown
  · cases h.phase with
    | idle hidle => exact absurd (hidle.waiting.symm.trans hwaiting) (by decide)
    | asked hasked =>
      -- nothing is on its way to the client
      rw [hasked.client.2] at hbytes
      rw [(List.append_eq_nil_iff.mp hbytes.symm).1] at hsize
      exact absurd hsize (by decide)
    | replied hreplied =>
      refine .replied ⟨hwaiting, ?_, hreplied.part, hreplied.readable, hreplied.server,
        hreplies.trans hreplied.last, ?_, ?_⟩
      · rw [List.append_assoc, ← hbytes, hreplied.client]
      · rw [hreplies, hlines, hreplied.answered]
      · rw [htexts, hreplied.returned]

/-- When the client finds a value, the whole reply has arrived, because a part of it has no
value. -/
theorem Replied.whole_of_parse {before : List (Server × Send)} {x : Server × Send} {text : Bytes}
    (h : Replied fd past d before x text) {value : Bytes × ℕ}
    (hvalue : Client.parseRespValue d.readBuffer = some value) :
    d.readBuffer = x.2.data ∧ d.toClient = [] := by
  have hwhole : d.readBuffer = x.2.data := by
    by_contra hne
    have hfront : d.readBuffer <+: x.2.data := List.IsPrefix.trans ⟨_, h.client⟩ h.part
    have hnone : Client.parseRespValue d.readBuffer = none :=
      Client.decoder.decode_part h.readable hfront hne
    rw [hnone] at hvalue
    cases hvalue
  obtain ⟨later, hlater⟩ := h.part
  rw [← h.client, hwhole, List.append_assoc] at hlater
  exact ⟨hwhole, (List.append_eq_nil_iff.mp (List.append_right_eq_self.mp hlater)).1⟩

/-- The waiting call returns. -/
theorem Invariant.answer (h : Invariant fd past d) {text : Bytes} {consumed : ℕ}
    (hwaiting : d.waiting = true)
    (hvalue : Client.parseRespValue d.readBuffer = some (text, consumed)) :
    Invariant fd (past ++ [(d, .answer text)])
      { d with readBuffer := d.readBuffer.drop consumed, waiting := false } := by
  have hlines : lines (past ++ [(d, .answer text)]) = lines past :=
    lines_of_none rfl
  have htexts : texts (past ++ [(d, .answer text)]) = texts past ++ [text] := texts_snoc
  have hreplies : replies fd (past ++ [(d, .answer text)]) = replies fd past :=
    replies_of_nil rfl
  cases h.phase with
  | idle hidle => exact absurd (hidle.waiting.symm.trans hwaiting) (by decide)
  | asked hasked =>
    rw [hasked.client.1] at hvalue
    cases hvalue
  | replied hreplied =>
    obtain ⟨hwhole, hrest⟩ := hreplied.whole_of_parse hvalue
    rw [hwhole, hreplied.readable] at hvalue
    obtain ⟨rfl, rfl⟩ := Prod.mk.inj (Option.some.inj hvalue)
    refine ⟨?_, ?_, h.client, h.indexed, ?_⟩
    · rw [hlines, hreplies]
      exact h.served
    · rw [htexts, hreplies]
      refine h.shown.snoc ?_ hreplied.readable
      rw [hreplied.last, hreplied.returned, List.getElem?_concat_length]
    · refine .idle ⟨rfl, ⟨?_, hrest⟩, hreplied.server, ?_, ?_⟩
      · rw [hwhole, List.drop_length]
      · rw [hreplies, hlines, hreplied.answered]
      · rw [htexts, hreplies, hreplied.last, List.length_append, List.length_append,
          hreplied.returned]
        rfl

section Read

variable {before : List Bytes} {line bytes later : Bytes}

/-- More bytes of the line arrive. -/
theorem Asked.readPart (h : Asked fd past d before line) (hbytes : d.toServer = bytes ++ later)
    (hne : (d.running.server.client fd).readBuffer ++ bytes ≠ line ++ CRLF)
    (hparse : parseCommand ((d.running.server.client fd).readBuffer ++ bytes) = .needMore 0) :
    Asked fd (past ++ [(d, .read bytes)])
      { d with running := afterRead fd bytes d.running, toServer := later,
               toClient := d.toClient ++ newBytes fd d.running (afterRead fd bytes d.running) }
      before line := by
  have hprocess := processClient_of_needMore hparse
  have hnone : d.running.server.repliesTo fd bytes = [] := by
    rw [repliesTo, processRead_of_needMore _ hparse]
  have hall : (d.running.server.client fd).readBuffer ++ bytes ++ later = line ++ CRLF := by
    rw [List.append_assoc, ← hbytes, h.server]
  have hreplies : replies fd (past ++ [(d, .read bytes)]) = replies fd past := replies_of_nil hnone
  refine ⟨h.waiting, ⟨h.client.1, ?_⟩, ⟨h.isOpen.1, ?_⟩, h.typed, h.single, ?_, ?_,
    (lines_of_none rfl).trans h.last, ?_, ?_⟩
  · rw [h.client.2, newBytes, afterRead, hprocess]
    exact List.drop_length
  · rw [afterRead, hprocess]
    exact h.isOpen.2
  · rw [afterRead, hprocess, client_setClient_self]
    exact hall
  · rintro rfl
    rw [List.append_nil] at hall
    exact hne hall
  · rw [hreplies, h.answered]
  · rw [texts_of_none rfl, hreplies, h.returned]

/-- The line is answered. -/
theorem Asked.readAnswer (h : Asked fd past d before line) (hbytes : d.toServer = bytes ++ later)
    {x : Send} (hx : d.running.server.Answers fd bytes line x) {text : Bytes}
    (htext : Client.parseRespValue x.data = some (text, x.data.length)) :
    Replied fd (past ++ [(d, .read bytes)])
      { d with running := afterRead fd bytes d.running, toServer := later,
               toClient := d.toClient ++ newBytes fd d.running (afterRead fd bytes d.running) }
      (replies fd past) (d.running.server, x) text := by
  have hreplies : replies fd (past ++ [(d, .read bytes)]) =
      replies fd past ++ [(d.running.server, x)] := by
    rw [replies_snoc, repliesAt, hx.replies]
  refine ⟨h.waiting, ?_, hx.part, htext, ?_, hreplies, ?_, ?_⟩
  · rw [h.client.1, h.client.2, newBytes, afterRead, hx.sent, List.drop_left]
    rfl
  · rintro ⟨-, hopen⟩
    have hkept : (d.running.server.processClient fd (.data bytes)).1 = true := by
      by_contra hlost
      rw [afterRead, if_neg hlost] at hopen
      exact hopen (List.mem_append_right _ List.mem_cons_self)
    obtain ⟨hcomplete, hempty⟩ := hx.kept hkept
    have hall := h.server
    rw [hbytes, ← List.append_assoc, hcomplete] at hall
    exact ⟨List.append_right_eq_self.mp hall, hempty⟩
  · rw [hreplies, lines_of_none rfl, h.last, List.length_append, List.length_append, h.answered]
    rfl
  · rw [texts_of_none rfl, h.returned]

/-- The server processes bytes. -/
theorem Invariant.read (h : Invariant fd past d) {r : Running} (hconnected : d.connected = true)
    (hbytes : d.toServer = bytes ++ later) (hsize : 1 ≤ bytes.length)
    (hread : ReadStep d.running (.read fd (.data bytes)) r) (hfit : d.Fit fd (.read bytes)) :
    Invariant fd (past ++ [(d, .read bytes)])
      { d with running := r, toServer := later,
               toClient := d.toClient ++ newBytes fd d.running r } := by
  have hindexed := indexed_of_readStep hread h.indexed
  have hlines : lines (past ++ [(d, .read bytes)]) = lines past := lines_of_none rfl
  have htexts : texts (past ++ [(d, .read bytes)]) = texts past := texts_of_none rfl
  have hsent : d.toServer ≠ [] := by
    intro hnil
    rw [hnil] at hbytes
    rw [(List.append_eq_nil_iff.mp hbytes.symm).1] at hsize
    exact absurd hsize (by decide)
  obtain ⟨hfd, hopen, rfl⟩ := eq_of_readStep hread
  have hfd' := mem_clients_processClient hfd (.data bytes) hfd
  cases h.phase with
  | idle hidle => exact absurd (hidle.server ⟨hconnected, hopen⟩).1 hsent
  | replied hreplied => exact absurd (hreplied.server ⟨hconnected, hopen⟩).1 hsent
  | @asked before line hasked =>
    have hpart : (d.running.server.client fd).readBuffer ++ bytes <+: line ++ CRLF := by
      refine ⟨later, ?_⟩
      rw [List.append_assoc, ← hbytes, hasked.server]
    rcases needMore_or_answers h.indexed hasked.typed hasked.single hpart hfit with
      ⟨hne, hparse⟩ | ⟨x, hx⟩
    · have hreplies : replies fd (past ++ [(d, .read bytes)]) = replies fd past := by
        refine replies_of_nil ?_
        rw [repliesAt, repliesTo, processRead_of_needMore _ hparse]
      refine ⟨?_, ?_, fun _ => hfd', hindexed, .asked (hasked.readPart hbytes hne hparse)⟩
      · rw [hlines, hreplies]
        exact h.served
      · rw [htexts, hreplies]
        exact h.shown
    · obtain ⟨text, htext⟩ := hx.readable
      have hreplied := hasked.readAnswer hbytes hx htext
      refine ⟨?_, ?_, fun _ => hfd', hindexed, .replied hreplied⟩
      · rw [hlines, hreplied.last]
        refine h.served.snoc ?_ hx.reply
        rw [hasked.last, hasked.answered, List.getElem?_concat_length]
      · rw [htexts, hreplied.last]
        exact h.shown.append_left _

end Read

/-- Every fitting step keeps the invariant. -/
theorem Invariant.step (h : Invariant fd past d) {d' : Dialogue} (hstep : Step fd d e d')
    (hfit : d.Fit fd e) : Invariant fd (past ++ [(d, e)]) d' := by
  cases hstep with
  | send hidle hline => exact h.send hidle hline hfit
  | read hconnected hbytes hsize hread => exact h.read hconnected hbytes hsize.1 hread hfit
  | receive hwaiting _ hbytes hsize => exact h.receive hwaiting hbytes hsize.1
  | answer hwaiting hvalue => exact h.answer hwaiting hvalue
  | other hother _ hstep =>
    have hsame (hconnected : d.connected = true) := unchanged_of_readStep hstep (hother hconnected)
    refine h.quiet rfl rfl rfl ?_ (indexed_of_readStep hstep h.indexed) ?_ ?_
    · exact fun hconnected => (hsame hconnected).1 (h.client hconnected)
    · exact and_congr_right fun hconnected => not_congr (hsame hconnected).2.1
    · exact fun hopen => (hsame hopen.1).2.2
  | disconnect _ hstep =>
    have hclosed : ¬ d.Open fd := fun hopen => hopen.2 (mem_toDisconnect_of_readStep hstep)
    refine h.quiet rfl rfl rfl ?_ (indexed_of_readStep hstep h.indexed) ?_ ?_
    · exact fun hconnected => absurd hconnected Bool.false_ne_true
    · exact iff_of_false (fun hopen => absurd hopen.1 Bool.false_ne_true) hclosed
    · exact fun hopen => absurd hopen hclosed

/-- Of a stream that is not empty a part can be read. -/
theorem exists_piece {stream : Bytes} (h : stream ≠ []) :
    ∃ piece later : Bytes, stream = piece ++ later ∧
      (1 ≤ piece.length ∧ piece.length ≤ readSize) ∧ later.length < stream.length := by
  have hroom : 1 ≤ readSize := by decide
  obtain ⟨c, later, rfl⟩ := List.exists_cons_of_ne_nil h
  exact ⟨[c], later, rfl, ⟨le_rfl, hroom⟩, Nat.lt_succ_self _⟩

/-- A call that waits is not stuck. -/
theorem Invariant.returns (h : Invariant fd past d) (hwaiting : d.waiting = true) :
    (∃ x ∈ replies fd past, x.2.whole = false) ∨ ∃ e d', Step fd d e d' ∧ Advances d d' := by
  cases h.phase with
  | idle hidle => exact absurd (hidle.waiting.symm.trans hwaiting) (by decide)
  | asked hasked =>
    obtain ⟨hconnected, hopen⟩ := hasked.isOpen
    obtain ⟨piece, later, hpiece, hsize, hlength⟩ := exists_piece hasked.more
    have hread := ReadStep.read d.running (h.client hconnected) hopen (.data piece)
    exact Or.inr ⟨_, _, .read d hconnected hpiece hsize hread, Or.inr (Or.inl hlength)⟩
  | @replied before x text hreplied =>
    by_cases hall : d.toClient = []
    · have hclient := hreplied.client
      rw [hall, List.append_nil] at hclient
      by_cases hwhole : x.2.written = x.2.data
      · have hvalue : Client.parseRespValue d.readBuffer = some (text, x.2.data.length) := by
          rw [hclient, hwhole, hreplied.readable]
        exact Or.inr ⟨_, _, .answer d hwaiting hvalue, Or.inl rfl⟩
      · refine Or.inl ⟨x, ?_, decide_eq_false hwhole⟩
        rw [hreplied.last]
        exact List.mem_append_right _ List.mem_cons_self
    · have hmore : Client.parseRespValue d.readBuffer = none := by
        by_contra hsome
        obtain ⟨value, hvalue⟩ := Option.ne_none_iff_exists'.mp hsome
        exact hall (hreplied.whole_of_parse hvalue).2
      obtain ⟨piece, later, hpiece, hsize, hlength⟩ := exists_piece hall
      exact Or.inr ⟨_, _, .receive d hwaiting hmore hpiece hsize, Or.inr (Or.inr ⟨rfl, hlength⟩)⟩

end Steps

/-! ### Runs -/

/-- **Requests and replies stay paired.**  A client is accepted by a running server and calls
`send_command` with lines that are not blank, while other clients are served, but no message is
published to it.  If it stops calling when the server has given the connection up, none of its lines
looks like the header of an array, and every command that the server executes for it is answered by
one value that can be read, then the server's replies are the replies to the lines, one by one and
in order, the calls return the texts of these replies, and no call waits for ever, unless the server
could not send a reply. -/
theorem requests_and_replies_paired {s₀ : Server} (hs₀ : Running.Fresh s₀)
    {before : List (Running × ReadEvent)} {r₀ r₁ : Running}
    (hrun : Trace ReadStep ⟨s₀, []⟩ before r₀) {fd : Socket}
    (haccept : ReadStep r₀ (.accept fd) r₁) {past : List (Dialogue × Event)} {d : Dialogue}
    (htrace : Trace (Step fd) (start r₁) past d) (hfit : ∀ p ∈ past, p.1.Fit fd p.2) :
    Paired fd past d := by
  have hstart : Invariant fd [] (start r₁) := by
    obtain ⟨past, hsteps⟩ := exists_trace_of_readTrace (hrun.snoc haccept)
    have hindexed := (Running.sound_of_trace hs₀ hsteps).indexed
    cases haccept
    refine ⟨Matches.nil _ _, Matches.nil _ _, ?_, hindexed, .idle ⟨rfl, ⟨rfl, rfl⟩, ?_, rfl, rfl⟩⟩
    · exact fun _ => (AList.mem_insert _).mpr (Or.inl rfl)
    · exact fun _ => ⟨rfl, congrArg ClientState.readBuffer (client_setClient_self _ _ _)⟩
  have hinvariant : (∀ p ∈ past, p.1.Fit fd p.2) → Invariant fd past d := by
    refine htrace.invariant (I := fun past d => (∀ p ∈ past, p.1.Fit fd p.2) → Invariant fd past d)
      (fun _ => hstart) ?_
    intro past d e d' ih hstep hpast
    rw [List.forall_mem_append, List.forall_mem_singleton] at hpast
    exact (ih hpast.1).step hstep hpast.2
  have hall := hinvariant hfit
  exact ⟨hall.served, hall.shown, hall.returns⟩

/-- The server processes bytes and writes what is given. -/
theorem step_read {fd : Socket} {d : Dialogue} {bytes later : Bytes} (out : Bytes)
    (hconnected : d.connected = true) (hbytes : d.toServer = bytes ++ later)
    (hsize : 1 ≤ bytes.length ∧ bytes.length ≤ readSize) (hfd : fd ∈ d.running.server.clients)
    (hopen : fd ∉ d.running.toDisconnect)
    (hout : newBytes fd d.running (afterRead fd bytes d.running) = out) :
    Step fd d (.read bytes) { d with running := afterRead fd bytes d.running, toServer := later,
                                     toClient := d.toClient ++ out } := by
  rw [← hout]
  exact .read d hconnected hbytes hsize (.read d.running hfd hopen (.data bytes))

/-- The client sends a `PING`, which arrives in two parts. -/
theorem requests_and_replies_paired_ping :
    ∃ r₁ past d, ReadStep ⟨initial, []⟩ (.accept 4) r₁ ∧ Trace (Step 4) (start r₁) past d ∧
      texts past = [ascii "PONG"] ∧ Paired 4 past d := by
  let r₁ : Running := ⟨initial.acceptClient 4, []⟩
  let r₂ := afterRead 4 (ascii "PI") r₁
  let r₃ := afterRead 4 (ascii "NG\r\n") r₂
  let d₁ : Dialogue := { start r₁ with toServer := ascii "PING\r\n", waiting := true }
  let d₂ : Dialogue := { d₁ with running := r₂, toServer := ascii "NG\r\n" }
  let d₃ : Dialogue := { d₂ with running := r₃, toServer := [], toClient := ascii "+PONG\r\n" }
  let d₄ : Dialogue := { d₃ with toClient := [], readBuffer := ascii "+PONG\r\n" }
  let d₅ : Dialogue := { d₄ with readBuffer := [], waiting := false }
  have haccept : ReadStep ⟨initial, []⟩ (.accept 4) r₁ := .accept _ (by decide)
  have hsend : Step 4 (start r₁) (.send (ascii "PING")) d₁ := .send _ rfl ⟨by decide, by decide⟩
  have hread : Step 4 d₁ (.read (ascii "PI")) d₂ :=
    step_read [] rfl rfl (by decide) (by decide) (by decide) (by decide)
  have hread' : Step 4 d₂ (.read (ascii "NG\r\n")) d₃ :=
    step_read (ascii "+PONG\r\n") rfl rfl (by decide) (by decide) (by decide) (by decide)
  have hreceive : Step 4 d₃ (.receive (ascii "+PONG\r\n")) d₄ :=
    .receive d₃ rfl (by decide) rfl (by decide)
  have hvalue : Client.parseRespValue (ascii "+PONG\r\n") = some (ascii "PONG", 7) := by decide
  have hanswer : Step 4 d₄ (.answer (ascii "PONG")) d₅ := .answer d₄ rfl hvalue
  have htrace := ((((Trace.nil.snoc hsend).snoc hread).snoc hread').snoc hreceive).snoc hanswer
  refine ⟨r₁, _, d₅, haccept, htrace, rfl, ?_⟩
  refine requests_and_replies_paired ⟨rfl, rfl⟩ Trace.nil haccept htrace ?_
  have hopen : Fit 4 (start r₁) (.send (ascii "PING")) := by
    refine ⟨⟨rfl, List.not_mem_nil⟩, ?_⟩
    rintro ⟨tail, n, hline, -⟩
    cases hline
  have hpart : Fit 4 d₁ (.read (ascii "PI")) := by
    have hparse : parseCommand (ascii "PI") = .needMore 0 := by decide
    intro cmd n hok
    exact absurd (hparse.symm.trans hok) (by simp)
  have hping : Fit 4 d₂ (.read (ascii "NG\r\n")) := by
    have hparse : parseCommand ((r₂.server.client 4).readBuffer ++ ascii "NG\r\n") =
        .ok ⟨ascii "PING", []⟩ 6 := by decide
    intro cmd n hok _
    obtain ⟨rfl, rfl⟩ := RespParseResult.ok.inj (hparse.symm.trans hok)
    have hnone : r₂.server.confirmedChannels 4 ⟨ascii "PING", []⟩ = [] := by decide
    refine ⟨?_, ?_, fun _ => ⟨by simp, ?_, ?_, by decide, by decide⟩⟩
    · rintro ⟨-, hname | ⟨-, message, hmessage, -⟩ | ⟨hname, -⟩⟩
      · exact absurd hname (by decide)
      · cases hmessage
      · exact absurd hname (by decide)
    · intro _
      rw [hnone]
      simp [Several]
    · rintro v (⟨hname, -⟩ | ⟨hname, -⟩ | ⟨hname, -⟩ | ⟨hname, -⟩) <;>
        exact absurd hname (by decide)
    · rintro items (⟨hname, -⟩ | ⟨hname, -⟩ | ⟨hname, -⟩ | ⟨hname, -⟩ | ⟨hname, -⟩) <;>
        exact absurd hname (by decide)
  simp only [List.nil_append, List.forall_mem_append, List.forall_mem_singleton]
  exact ⟨⟨⟨⟨hopen, hpart⟩, hping⟩, trivial⟩, trivial⟩

/-- The client subscribes to two channels and sends a `PING`: the first call returns the first
confirmation, and the second one does not return the `PONG` but the second confirmation. -/
theorem second_confirmation_answers_ping :
    ∃ r₁ past d, ReadStep ⟨initial, []⟩ (.accept 4) r₁ ∧ Trace (Step 4) (start r₁) past d ∧
      lines past = [ascii "SUBSCRIBE a b", ascii "PING"] ∧
      texts past = [ascii "1) \"subscribe\"\n2) \"a\"\n3) (integer) 1",
        ascii "1) \"subscribe\"\n2) \"b\"\n3) (integer) 2"] ∧ ¬ Paired 4 past d := by
  let first := ascii "*3\r\n$9\r\nsubscribe\r\n$1\r\na\r\n:1\r\n"
  let second := ascii "*3\r\n$9\r\nsubscribe\r\n$1\r\nb\r\n:2\r\n"
  let r₁ : Running := ⟨initial.acceptClient 4, []⟩
  let r₂ := afterRead 4 (ascii "SUBSCRIBE a b\r\n") r₁
  let r₃ := afterRead 4 (ascii "PING\r\n") r₂
  let d₁ : Dialogue := { start r₁ with toServer := ascii "SUBSCRIBE a b\r\n", waiting := true }
  let d₂ : Dialogue := { d₁ with running := r₂, toServer := [], toClient := first ++ second }
  let d₃ : Dialogue := { d₂ with toClient := [], readBuffer := first ++ second }
  let d₄ : Dialogue := { d₃ with readBuffer := second, waiting := false }
  let d₅ : Dialogue := { d₄ with toServer := ascii "PING\r\n", waiting := true }
  let d₆ : Dialogue := { d₅ with running := r₃, toServer := [], toClient := ascii "+PONG\r\n" }
  let d₇ : Dialogue := { d₆ with readBuffer := [], waiting := false }
  have hsubscribe : Step 4 (start r₁) (.send (ascii "SUBSCRIBE a b")) d₁ :=
    .send _ rfl ⟨by decide, by decide⟩
  have hread : Step 4 d₁ (.read (ascii "SUBSCRIBE a b\r\n")) d₂ :=
    step_read (first ++ second) rfl rfl (by decide) (by decide) (by decide) (by decide)
  have hreceive : Step 4 d₂ (.receive (first ++ second)) d₃ :=
    .receive d₂ rfl (by decide) rfl (by decide)
  have hfirst : Client.parseRespValue (first ++ second) =
      some (ascii "1) \"subscribe\"\n2) \"a\"\n3) (integer) 1", 30) := by decide
  have hsecond : Client.parseRespValue second =
      some (ascii "1) \"subscribe\"\n2) \"b\"\n3) (integer) 2", 30) := by decide
  have hping : Step 4 d₄ (.send (ascii "PING")) d₅ := .send d₄ rfl ⟨by decide, by decide⟩
  have hread' : Step 4 d₅ (.read (ascii "PING\r\n")) d₆ :=
    step_read (ascii "+PONG\r\n") rfl rfl (by decide) (by decide) (by decide) (by decide)
  have htrace := ((((((Trace.nil.snoc hsubscribe).snoc hread).snoc hreceive).snoc
    (.answer d₃ rfl hfirst)).snoc hping).snoc hread').snoc (.answer d₆ rfl hsecond)
  refine ⟨r₁, _, d₇, .accept _ (by decide), htrace, rfl, rfl, ?_⟩
  intro hpaired
  obtain ⟨x, hx, htext⟩ := hpaired.shown 1 _ rfl
  have hpong : ((d₁.running.server.repliesTo 4 (ascii "SUBSCRIBE a b\r\n") ++
      d₅.running.server.repliesTo 4 (ascii "PING\r\n"))[1]?.map fun x => x.2.data) =
        some (ascii "+PONG\r\n") := by decide
  simp only [replies, repliesAt, List.flatMap_append, List.flatMap_cons, List.flatMap_nil,
    List.nil_append, List.append_nil] at hx
  rw [hx] at hpong
  have hdata : x.2.data = ascii "+PONG\r\n" := Option.some.inj hpong
  rw [hdata] at htext
  exact absurd htext (by decide)

end Dialogue

end Server

end MyRedis
