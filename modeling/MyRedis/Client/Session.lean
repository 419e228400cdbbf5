import MyRedis.Client.Buffer
import MyRedis.PubSub.Sending
import MyRedis.Resp.Inline
import MyRedis.Server.Startup

/-!
# The command line client

The class `Client` of `client.h` and `client.cpp` with its connection, and `main` of
`client/main.cpp`: a loop that reads lines from the standard input, sends those that are not blank
to the server, and prints what comes back.  The state is the process as a whole (`Cli`); what the
calls of the operating system come to is decided by the environment.

`Session` is what the user and the server see of such a process, without sockets, packets and
buffers: the answers are the values of the stream that arrives from the server, one for each line.
`cli_follows_session` says that every run is a session, in which lines and values are paired in
their order, and that the socket is closed once.
-/

namespace MyRedis

open Foundation Resp

/-- `INVALID_SOCKET_VAL`. -/
def invalidSocket : Socket := -1

/-- `platform::is_valid`. -/
def isValid (sock : Socket) : Bool := decide (0 ≤ sock)

/-- The invalid socket is not valid. -/
@[simp] theorem isValid_invalidSocket : isValid invalidSocket = false := rfl

/-- The process of the command line client. -/
structure Cli where
  /-- The member `fd_` of the client. -/
  fd : Socket
  /-- The member `read_buffer_` of the client. -/
  readBuffer : Bytes
  /-- The socket output. -/
  net : Network
  /-- The results of the calls of `socket_read` to come, with nothing for the end of the stream. -/
  reads : List Bytes
  /-- The sockets that were closed. -/
  closed : List Socket
  /-- The standard output. -/
  stdout : Bytes
  /-- The error output. -/
  stderr : Bytes

/-- What the system calls of `connect` come to. -/
structure Connecting where
  /-- The result of `socket`. -/
  socket : Socket
  /-- The host is an address for `inet_pton`. -/
  address : Bool
  /-- The result of `::connect`. -/
  connected : Bool
  /-- The text of `last_error`. -/
  lastError : Bytes

/-- All of them succeed. -/
def Connecting.Succeeds (calls : Connecting) : Prop :=
  isValid calls.socket = true ∧ calls.address = true ∧ calls.connected = true

namespace Cli

/-! ### The client -/

/-- A line on the standard output. -/
def print (text : Bytes) (c : Cli) : Cli := { c with stdout := c.stdout ++ text ++ [LF] }

/-- A line on the error output. -/
def complain (text : Bytes) (c : Cli) : Cli := { c with stderr := c.stderr ++ text ++ [LF] }

/-- `platform::close_socket` on the socket of the client, which is forgotten. -/
def closeSocket (c : Cli) : Cli := { c with closed := c.closed ++ [c.fd], fd := invalidSocket }

/-- `is_connected`. -/
def isConnected (c : Cli) : Bool := isValid c.fd

/-- `connect`. -/
def connect (host : Bytes) (calls : Connecting) (c : Cli) : Bool × Cli :=
  let c := { c with fd := calls.socket }
  if !isValid c.fd then
    (false, c.complain (ascii "Error: Failed to create socket: " ++ calls.lastError))
  else if !calls.address then
    (false, (c.complain (ascii "Error: Invalid address: " ++ host)).closeSocket)
  else if !calls.connected then
    (false, (c.complain (ascii "Error: Connection failed: " ++ calls.lastError)).closeSocket)
  else (true, { c with readBuffer := [] })

/-- `disconnect`, which is also the destructor. -/
def disconnect (c : Cli) : Cli :=
  let c := if isValid c.fd then c.closeSocket else c
  { c with readBuffer := [] }

/-- The text of `send_command` if the command could not be sent. -/
def sendError : Bytes := ascii "Error: Failed to send command"

/-- The text of `send_command` if there is no response. -/
def readError : Bytes := ascii "Error: Failed to read response"

/-- `send_command`.  Its loop over `socket_write` is the one of `write_exact`. -/
def sendCommand (command : Bytes) (c : Cli) : Bytes × Cli :=
  if !isValid c.fd then (ascii "Error: Not connected", c)
  else
    let wire := command ++ CRLF
    let written := c.net.sendResponse c.fd wire
    let c := { c with net := written.2 }
    if !written.1 then (sendError, c.disconnect)
    else
      let response := Client.readResponse c.reads c.readBuffer
      let c := { c with reads := response.2.1, readBuffer := response.2.2 }
      match response.1 with
      | none => (readError, c.disconnect)
      | some text => (text, c)

/-! ### The loop -/

/-- The prompt. -/
def prompt : Bytes := ascii "myredis> "

/-- The characters that are trimmed: `" \t"`. -/
def isTrimmed (c : UInt8) : Bool := c == 32 || c == 9

/-- The user wants to quit. -/
def isQuit (line : Bytes) : Bool :=
  let upperLine := line.map toUpper
  -- `find_first_not_of` and `find_last_not_of` find nothing if everything is to be trimmed
  let upperLine := if upperLine.all isTrimmed then upperLine else upperLine.dropWhile isTrimmed
  let upperLine := if upperLine.all isTrimmed then upperLine else upperLine.rdropWhile isTrimmed
  decide (upperLine = ascii "QUIT")

/-- The loop of `main` on the lines that `std::getline` reads from the standard input. -/
def repl : List Bytes → Cli → Cli
  | [], c => { c with stdout := c.stdout ++ prompt ++ [LF] }
  | line :: lines, c =>
    let c := { c with stdout := c.stdout ++ prompt }
    if line = [] then repl lines c
    else if line.all isSpace then repl lines c
    else
      let response := c.sendCommand line
      let c := response.2.print response.1
      if isQuit line then c
      else if !c.isConnected then c.complain (ascii "Disconnected from server.")
      else repl lines c

/-- The host and the port as they are printed. -/
def place (args : List Bytes) : Bytes :=
  args.head?.getD (ascii "127.0.0.1") ++ [58] ++
    decimalInt ((args[1]?.map atoi).getD 6399).toInt

/-- What `main` prints when the client is connected. -/
def greet (args : List Bytes) (c : Cli) : Cli :=
  ((c.print (ascii "Connected to myredis at " ++ place args)).print
    (ascii "Type commands (QUIT to exit).")).print []

/-- `main` for given arguments and a given standard input: the exit status, and the process after
the destructor of the client. -/
def main (args : List Bytes) (stdin : Bytes) (calls : Connecting) (c : Cli) : ℕ × Cli :=
  let host := args.head?.getD (ascii "127.0.0.1")
  let c := c.print (ascii "Connecting to " ++ place args ++ ascii "...")
  let result := c.connect host calls
  if !result.1 then
    (1, ((result.2.complain (ascii "Could not connect to myredis at " ++ place args)).complain
      (ascii "Is the server running?")).disconnect)
  else
    let c := (repl (getLines stdin) (result.2.greet args)).disconnect
    (0, (c.print (ascii "Goodbye!")).disconnect)

/-! ### Sessions -/

/-- The lines that are sent if nothing fails: those that are not blank, up to the one that quits. -/
def commandLines : List Bytes → List Bytes
  | [] => []
  | line :: lines =>
    if line.all isSpace then commandLines lines
    else if isQuit line then [line] else line :: commandLines lines

/-- What is printed on the error output when a line could not be answered. -/
def lostText (line : Bytes) : Bytes :=
  if isQuit line then [] else ascii "Disconnected from server." ++ [LF]

/-- A session: for the values that arrive from the server and the lines of the user, the bytes that
are sent to the server, and what is printed on the two outputs. -/
inductive Session : List Bytes → List Bytes → Bytes → Bytes → Bytes → Prop
  | eof (values : List Bytes) : Session values [] [] (prompt ++ [LF]) []
  | blank {values lines : List Bytes} {line sent out err : Bytes} (hline : line.all isSpace = true)
      (later : Session values lines sent out err) :
      Session values (line :: lines) sent (prompt ++ out) err
  | quit {line : Bytes} (value : Bytes) (values lines : List Bytes)
      (hline : line.all isSpace = false) (hquit : isQuit line = true) :
      Session (value :: values) (line :: lines) (line ++ CRLF) (prompt ++ (value ++ [LF])) []
  | answer {values lines : List Bytes} {line sent out err : Bytes} (value : Bytes)
      (hline : line.all isSpace = false) (hquit : isQuit line = false)
      (later : Session values lines sent out err) :
      Session (value :: values) (line :: lines) (line ++ CRLF ++ sent)
        (prompt ++ (value ++ [LF]) ++ out) err
  | notSent {line part : Bytes} (values lines : List Bytes) (hline : line.all isSpace = false)
      (hpart : part <+: line ++ CRLF) (hne : part ≠ line ++ CRLF) :
      Session values (line :: lines) part (prompt ++ (sendError ++ [LF])) (lostText line)
  | notAnswered {line : Bytes} (lines : List Bytes) (hline : line.all isSpace = false) :
      Session [] (line :: lines) (line ++ CRLF) (prompt ++ (readError ++ [LF])) (lostText line)

/-- A line that is not blank is sent. -/
theorem exists_commandLines_cons {line : Bytes} (hline : line.all isSpace = false)
    (lines : List Bytes) : ∃ later, commandLines (line :: lines) = line :: later := by
  rw [commandLines, if_neg (by simp [hline])]
  split_ifs
  · exact ⟨[], rfl⟩
  · exact ⟨_, rfl⟩

/-- Lines and values are paired in their order. -/
structure Paired (values lines : List Bytes) (sent : Bytes) (answered : List (Bytes × Bytes)) :
    Prop where
  /-- The lines come from the user. -/
  asked : answered.map Prod.fst <+: commandLines lines
  /-- The texts come from the server. -/
  texts : answered.map Prod.snd <+: values
  /-- A line is answered after it was sent. -/
  after : answered.flatMap (fun p => p.1 ++ CRLF) <+: sent
  /-- Nothing but the lines is sent. -/
  only : sent <+: (commandLines lines).flatMap fun line => line ++ CRLF
  /-- All lines are answered, unless the values do not suffice or a line could not be sent. -/
  all : answered.map Prod.fst = commandLines lines ∨ answered.map Prod.snd = values ∨
    ∃ line part, part <+: line ++ CRLF ∧ part ≠ line ++ CRLF ∧
      answered.map Prod.fst ++ [line] <+: commandLines lines ∧
      sent = answered.flatMap (fun p => p.1 ++ CRLF) ++ part

/-- One more line and value in front. -/
theorem Paired.cons {values lines : List Bytes} {line sent : Bytes}
    {answered : List (Bytes × Bytes)} (h : Paired values lines sent answered) (value : Bytes)
    (hfirst : commandLines (line :: lines) = line :: commandLines lines) :
    Paired (value :: values) (line :: lines) (line ++ CRLF ++ sent)
      ((line, value) :: answered) := by
  refine ⟨?_, (List.prefix_cons_inj _).mpr h.texts, ?_, ?_, ?_⟩
  · rw [hfirst]
    exact (List.prefix_cons_inj _).mpr h.asked
  · rw [List.flatMap_cons]
    exact (List.prefix_append_right_inj _).mpr h.after
  · rw [hfirst, List.flatMap_cons]
    exact (List.prefix_append_right_inj _).mpr h.only
  · rw [hfirst]
    rcases h.all with hall | hall | ⟨line', part, hpart, hne, hline', hsent⟩
    · exact Or.inl (congrArg (List.cons line) hall)
    · exact Or.inr (Or.inl (congrArg (List.cons value) hall))
    · refine Or.inr (Or.inr ⟨line', part, hpart, hne, (List.prefix_cons_inj _).mpr hline', ?_⟩)
      rw [hsent, List.flatMap_cons, List.append_assoc, List.append_assoc, List.append_assoc]

/-- In every session lines and values are paired in their order. -/
theorem Session.exists_paired {values lines : List Bytes} {sent out err : Bytes}
    (h : Session values lines sent out err) : ∃ answered, Paired values lines sent answered := by
  induction h with
  | eof =>
    exact ⟨[], List.nil_prefix, List.nil_prefix, List.nil_prefix, List.nil_prefix, Or.inl rfl⟩
  | @blank values lines line sent out err hline _ ih =>
    have hskip : commandLines (line :: lines) = commandLines lines := by
      rw [commandLines, if_pos hline]
    obtain ⟨answered, hlines, hvalues, hdone, honly, hall⟩ := ih
    rw [← hskip] at hlines honly hall
    exact ⟨answered, hlines, hvalues, hdone, honly, hall⟩
  | @quit line value values lines hline hquit =>
    have hlast : commandLines (line :: lines) = [line] := by
      simp [commandLines, hline, hquit]
    refine ⟨[(line, value)], ?_, ?_, ?_, ?_, Or.inl hlast.symm⟩
    · rw [hlast]
      exact List.prefix_rfl
    · exact (List.prefix_cons_inj _).mpr List.nil_prefix
    · simp
    · simp [hlast]
  | @answer values lines line sent out err value hline hquit _ ih =>
    obtain ⟨answered, hpaired⟩ := ih
    refine ⟨_, hpaired.cons value ?_⟩
    simp [commandLines, hline, hquit]
  | @notSent line part values lines hline hpart hne =>
    obtain ⟨later, hfirst⟩ := exists_commandLines_cons hline lines
    refine ⟨[], List.nil_prefix, List.nil_prefix, List.nil_prefix, ?_,
      Or.inr (Or.inr ⟨line, part, hpart, hne, ?_, rfl⟩)⟩
    · rw [hfirst, List.flatMap_cons]
      exact hpart.trans (List.prefix_append _ _)
    · rw [hfirst]
      exact (List.prefix_cons_inj _).mpr List.nil_prefix
  | @notAnswered line lines hline =>
    obtain ⟨later, hfirst⟩ := exists_commandLines_cons hline lines
    refine ⟨[], List.nil_prefix, List.nil_prefix, List.nil_prefix, ?_, Or.inr (Or.inl rfl)⟩
    rw [hfirst, List.flatMap_cons]
    exact List.prefix_append _ _

/-! ### One command -/

/-- The texts that repeated calls of `read_resp_response` will return. -/
def Awaits (c : Cli) (values : List Bytes) : Prop :=
  ∃ left, Repeats (fun state => Client.readResponse state.1 state.2) (c.reads, c.readBuffer) values
    left

/-- The connection was given up, and the socket was closed. -/
def GivenUp (c c' : Cli) : Prop := isValid c'.fd = false ∧ c'.closed = c.closed ++ [c.fd]

/-- What is added to the outputs and sent, and that the socket is not lost from sight. -/
structure Follows (c c' : Cli) (sent out err : Bytes) : Prop where
  /-- The standard output. -/
  stdout : c'.stdout = c.stdout ++ out
  /-- The error output. -/
  stderr : c'.stderr = c.stderr ++ err
  /-- The bytes to the server. -/
  bytes : c'.net.bytesTo c.fd = c.net.bytesTo c.fd ++ sent
  /-- The socket is still open, or it was closed. -/
  socket : c'.fd = c.fd ∧ c'.closed = c.closed ∨ GivenUp c c'

/-- One after the other, as long as the socket is open. -/
theorem Follows.trans {c c₁ c₂ : Cli} {sent sent' out out' err err' : Bytes}
    (h : Follows c c₁ sent out err) (hopen : c₁.fd = c.fd ∧ c₁.closed = c.closed)
    (h' : Follows c₁ c₂ sent' out' err') :
    Follows c c₂ (sent ++ sent') (out ++ out') (err ++ err') := by
  obtain ⟨hfd, hclosed⟩ := hopen
  refine ⟨?_, ?_, ?_, ?_⟩
  · rw [h'.stdout, h.stdout, List.append_assoc]
  · rw [h'.stderr, h.stderr, List.append_assoc]
  · rw [← hfd, h'.bytes, hfd, h.bytes, List.append_assoc]
  · rw [← hfd, ← hclosed, GivenUp, ← hfd, ← hclosed]
    exact h'.socket

/-- A line is printed. -/
theorem Follows.print {c c' : Cli} {sent out err : Bytes} (h : Follows c c' sent out err)
    (text : Bytes) : Follows c (c'.print text) sent (out ++ (text ++ [LF])) err := by
  refine ⟨?_, h.stderr, h.bytes, h.socket⟩
  rw [Cli.print, h.stdout, List.append_assoc, List.append_assoc]

/-- A line is printed on the error output. -/
theorem Follows.complain {c c' : Cli} {sent out err : Bytes} (h : Follows c c' sent out err)
    (text : Bytes) : Follows c (c'.complain text) sent out (err ++ (text ++ [LF])) := by
  refine ⟨h.stdout, ?_, h.bytes, h.socket⟩
  rw [Cli.complain, h.stderr, List.append_assoc, List.append_assoc]

/-- The process after the socket was closed. -/
def lost (c : Cli) : Cli :=
  { c with closed := c.closed ++ [c.fd], fd := invalidSocket, readBuffer := [] }

/-- `disconnect` on a connected client. -/
theorem disconnect_of_isValid {c : Cli} (hvalid : isValid c.fd = true) : c.disconnect = c.lost := by
  rw [disconnect, if_pos hvalid]
  rfl

/-- `disconnect` on a client that is not connected. -/
theorem disconnect_of_not_isValid {c : Cli} (hvalid : isValid c.fd = false) :
    c.disconnect = { c with readBuffer := [] } := by
  rw [disconnect, if_neg (by simp [hvalid])]

section SendCommand

variable {c : Cli} {line : Bytes}

/-- A line that could not be sent. -/
theorem sendCommand_of_not_sent (hvalid : isValid c.fd = true)
    (hsent : (c.net.sendResponse c.fd (line ++ CRLF)).1 = false) :
    c.sendCommand line =
      (sendError, lost { c with net := (c.net.sendResponse c.fd (line ++ CRLF)).2 }) := by
  unfold sendCommand
  simp only [hvalid, hsent, Bool.not_true, Bool.not_false, Bool.false_eq_true, if_false, if_true]
  exact congrArg (Prod.mk sendError) (disconnect_of_isValid hvalid)

/-- A line that is not answered. -/
theorem sendCommand_of_end (hvalid : isValid c.fd = true)
    (hsent : (c.net.sendResponse c.fd (line ++ CRLF)).1 = true) {left : List Bytes × Bytes}
    (hread : Client.readResponse c.reads c.readBuffer = (none, left)) :
    c.sendCommand line = (readError, lost { c with
      net := (c.net.sendResponse c.fd (line ++ CRLF)).2, reads := left.1,
      readBuffer := left.2 }) := by
  unfold sendCommand
  simp only [hvalid, hsent, hread, Bool.not_true, Bool.false_eq_true, if_false]
  exact congrArg (Prod.mk readError) (disconnect_of_isValid hvalid)

/-- A line that is answered. -/
theorem sendCommand_of_value (hvalid : isValid c.fd = true)
    (hsent : (c.net.sendResponse c.fd (line ++ CRLF)).1 = true) {value : Bytes}
    {left : List Bytes × Bytes}
    (hread : Client.readResponse c.reads c.readBuffer = (some value, left)) :
    c.sendCommand line = (value, { c with
      net := (c.net.sendResponse c.fd (line ++ CRLF)).2, reads := left.1,
      readBuffer := left.2 }) := by
  unfold sendCommand
  simp only [hvalid, hsent, hread, Bool.not_true, Bool.false_eq_true, if_false]

/-- A call on a connected client returns the next value, and otherwise the connection is given up
because the line could not be sent or because there is no value. -/
theorem sendCommand_spec (hvalid : isValid c.fd = true) {values : List Bytes}
    (hvalues : c.Awaits values) (line : Bytes) :
    (∃ value later, values = value :: later ∧ (c.sendCommand line).1 = value ∧
        Follows c (c.sendCommand line).2 (line ++ CRLF) [] [] ∧
        (c.sendCommand line).2.Awaits later ∧
        (c.sendCommand line).2.fd = c.fd ∧ (c.sendCommand line).2.closed = c.closed) ∨
      (∃ part, part <+: line ++ CRLF ∧ part ≠ line ++ CRLF ∧ (c.sendCommand line).1 = sendError ∧
        Follows c (c.sendCommand line).2 part [] [] ∧ isValid (c.sendCommand line).2.fd = false) ∨
      (values = [] ∧ (c.sendCommand line).1 = readError ∧
        Follows c (c.sendCommand line).2 (line ++ CRLF) [] [] ∧
        isValid (c.sendCommand line).2.fd = false) := by
  obtain ⟨hpart, hwhole, hbytes⟩ := c.net.written_spec c.fd (line ++ CRLF)
  have hnet : (c.net.sendResponse c.fd (line ++ CRLF)).2.bytesTo c.fd =
      c.net.bytesTo c.fd ++ c.net.written c.fd (line ++ CRLF) := by
    rw [hbytes, if_pos rfl]
  have hout : c.stdout = c.stdout ++ [] := (List.append_nil _).symm
  have herr : c.stderr = c.stderr ++ [] := (List.append_nil _).symm
  cases hsent : (c.net.sendResponse c.fd (line ++ CRLF)).1 with
  | false =>
    rw [sendCommand_of_not_sent hvalid hsent]
    have hne : c.net.written c.fd (line ++ CRLF) ≠ line ++ CRLF := by
      intro heq
      rw [hwhole.mpr heq] at hsent
      cases hsent
    exact Or.inr (Or.inl ⟨_, hpart, hne, rfl, ⟨hout, herr, hnet, Or.inr ⟨rfl, rfl⟩⟩, rfl⟩)
  | true =>
    rw [hwhole.mp hsent] at hnet
    obtain ⟨left, hvalues⟩ := hvalues
    cases hvalues with
    | stop hnone =>
      rw [sendCommand_of_end hvalid hsent hnone]
      exact Or.inr (Or.inr ⟨rfl, rfl, ⟨hout, herr, hnet, Or.inr ⟨rfl, rfl⟩⟩, rfl⟩)
    | @more _ _ _ value later hvalue hlater =>
      rw [sendCommand_of_value hvalid hsent hvalue]
      exact Or.inl ⟨value, later, rfl, rfl, ⟨hout, herr, hnet, Or.inl ⟨rfl, rfl⟩⟩, ⟨left, hlater⟩,
        rfl, rfl⟩

end SendCommand

/-! ### The loop is a session -/

/-- The process after the prompt. -/
def prompted (c : Cli) : Cli := { c with stdout := c.stdout ++ prompt }

/-- The prompt is printed. -/
theorem follows_prompted (c : Cli) : Follows c c.prompted [] prompt [] :=
  ⟨rfl, (List.append_nil _).symm, (List.append_nil _).symm, Or.inl ⟨rfl, rfl⟩⟩

/-- A blank line is skipped. -/
theorem repl_blank {line : Bytes} (hline : line.all isSpace = true) (lines : List Bytes) (c : Cli) :
    repl (line :: lines) c = repl lines c.prompted := by
  rw [repl]
  split_ifs <;> rfl

/-- Other lines are sent. -/
theorem repl_command {line : Bytes} (hline : line.all isSpace = false) (lines : List Bytes)
    (c : Cli) : repl (line :: lines) c =
      let response := c.prompted.sendCommand line
      let c' := response.2.print response.1
      if isQuit line then c'
      else if !isValid c'.fd then c'.complain (ascii "Disconnected from server.")
      else repl lines c' := by
  have hne : line ≠ [] := by
    rintro rfl
    cases hline
  rw [repl, if_neg hne, if_neg (by simp [hline])]
  rfl

/-- The loop after a line that was not answered. -/
theorem follows_lost {c c' : Cli} {line sent text : Bytes} (h : Follows c c' sent [] [])
    (hlost : isValid c'.fd = false) (lines : List Bytes) :
    Follows c (if isQuit line then c'.print text
        else if !isValid (c'.print text).fd then
          (c'.print text).complain (ascii "Disconnected from server.")
        else repl lines (c'.print text))
      sent (text ++ [LF]) (lostText line) := by
  have hlost' : isValid (c'.print text).fd = false := hlost
  cases hquit : isQuit line with
  | true =>
    rw [if_pos rfl, lostText, if_pos hquit]
    exact h.print text
  | false =>
    rw [if_neg Bool.false_ne_true, hlost', Bool.not_false, if_pos rfl, lostText,
      if_neg (by simp [hquit])]
    exact (h.print text).complain _

/-- The loop on a connected client. -/
theorem exists_session_repl (lines : List Bytes) {c : Cli} (hvalid : isValid c.fd = true)
    {values : List Bytes} (hvalues : c.Awaits values) :
    ∃ sent out err, Session values lines sent out err ∧
      Follows c (repl lines c) sent out err := by
  induction lines generalizing c values with
  | nil =>
    refine ⟨_, _, _, .eof values, ?_, (List.append_nil _).symm, (List.append_nil _).symm,
      Or.inl ⟨rfl, rfl⟩⟩
    exact List.append_assoc ..
  | cons line lines ih =>
    cases hline : line.all isSpace with
    | true =>
      rw [repl_blank hline]
      obtain ⟨sent, out, err, hsession, hfollows⟩ := ih (c := c.prompted) hvalid hvalues
      exact ⟨sent, _, err, .blank hline hsession, c.follows_prompted.trans ⟨rfl, rfl⟩ hfollows⟩
    | false =>
      rw [repl_command hline]
      have hspec := sendCommand_spec (c := c.prompted) hvalid hvalues line
      generalize c.prompted.sendCommand line = response at hspec ⊢
      obtain ⟨text, c'⟩ := response
      rcases hspec with ⟨value, later, rfl, rfl, hfollows, hlater, hopen⟩ |
        ⟨part, hpart, hne, rfl, hfollows, hlost⟩ | ⟨rfl, rfl, hfollows, hlost⟩
      · have hprinted := c.follows_prompted.trans ⟨rfl, rfl⟩ (hfollows.print text)
        cases hquit : isQuit line with
        | true => exact ⟨_, _, _, .quit text later lines hline hquit, hprinted⟩
        | false =>
          have hvalid' : isValid (c'.print text).fd = true := by
            rw [← hvalid]
            exact congrArg isValid hopen.1
          obtain ⟨sent, out, err, hsession, hrest⟩ := ih (c := c'.print text) hvalid' hlater
          refine ⟨_, _, _, .answer text hline hquit hsession, ?_⟩
          simp only [hvalid', Bool.not_true, Bool.false_eq_true, if_false]
          exact hprinted.trans hopen hrest
      · exact ⟨part, _, _, .notSent values lines hline hpart hne,
          c.follows_prompted.trans ⟨rfl, rfl⟩ (follows_lost hfollows hlost lines)⟩
      · exact ⟨_, _, _, .notAnswered lines hline,
          c.follows_prompted.trans ⟨rfl, rfl⟩ (follows_lost hfollows hlost lines)⟩

/-! ### The process -/

/-- The process at its start. -/
def start (net : Network) (reads : List Bytes) : Cli where
  fd := invalidSocket
  readBuffer := []
  net := net
  reads := reads
  closed := []
  stdout := []
  stderr := []

/-- What is printed in front of the first prompt. -/
def greeting (args : List Bytes) : Bytes :=
  ascii "Connecting to " ++ place args ++ ascii "...\n" ++
    (ascii "Connected to myredis at " ++ place args ++ ascii "\n") ++
    ascii "Type commands (QUIT to exit).\n\n"

/-- Every line that is sent is a command line. -/
theorem commandLine_of_mem {lines : List Bytes} (hlines : ∀ line ∈ lines, LF ∉ line) {line : Bytes}
    (h : line ∈ commandLines lines) : CommandLine line := by
  induction lines with
  | nil => cases h
  | cons first lines ih =>
    obtain ⟨hfirst, hlater⟩ := List.forall_mem_cons.mp hlines
    rw [commandLines] at h
    split_ifs at h with hblank hquit
    · exact ih hlater h
    · obtain rfl := List.mem_singleton.mp h
      exact ⟨hfirst, by simpa using hblank⟩
    · rcases List.mem_cons.mp h with rfl | h
      · exact ⟨hfirst, by simpa using hblank⟩
      · exact ih hlater h

/-- After `disconnect` the client is not connected. -/
theorem isValid_disconnect (c : Cli) : isValid c.disconnect.fd = false := by
  cases hvalid : isValid c.fd with
  | true =>
    rw [disconnect_of_isValid hvalid]
    rfl
  | false =>
    rw [disconnect_of_not_isValid hvalid]
    exact hvalid

/-- A connected client that was disconnected at the end has closed its socket once. -/
theorem Follows.closed_disconnect {c c' : Cli} {sent out err : Bytes}
    (h : Follows c c' sent out err) (hvalid : isValid c.fd = true) :
    c'.disconnect.closed = c.closed ++ [c.fd] := by
  rcases h.socket with ⟨hfd, hclosed⟩ | ⟨hlost, hclosed⟩
  · rw [disconnect_of_isValid (hfd ▸ hvalid), lost, hfd, hclosed]
  · rw [disconnect_of_not_isValid hlost, hclosed]

/-- `disconnect` prints and sends nothing. -/
theorem disconnect_outputs (c : Cli) :
    c.disconnect.stdout = c.stdout ∧ c.disconnect.stderr = c.stderr ∧ c.disconnect.net = c.net := by
  unfold disconnect closeSocket
  split_ifs <;> exact ⟨rfl, rfl, rfl⟩

/-- A successful `connect`. -/
theorem connect_of_succeeds {calls : Connecting} (hcalls : calls.Succeeds) (host : Bytes)
    (c : Cli) : c.connect host calls = (true, { c with fd := calls.socket, readBuffer := [] }) := by
  obtain ⟨hvalid, haddress, hconnected⟩ := hcalls
  simp [connect, hvalid, haddress, hconnected]

/-- A `connect` that fails closes the socket if there is one, and sends nothing. -/
theorem connect_of_not_succeeds {calls : Connecting} (hcalls : ¬ calls.Succeeds) (host : Bytes)
    (c : Cli) : (c.connect host calls).1 = false ∧ isValid (c.connect host calls).2.fd = false ∧
      (c.connect host calls).2.net = c.net ∧ (c.connect host calls).2.closed =
        c.closed ++ if isValid calls.socket then [calls.socket] else [] := by
  unfold connect
  cases hvalid : isValid calls.socket with
  | false => simp [complain, hvalid]
  | true =>
    cases haddress : calls.address with
    | false => simp [complain, closeSocket, hvalid]
    | true =>
      cases hconnected : calls.connected with
      | false => simp [complain, closeSocket, hvalid]
      | true => exact absurd ⟨hvalid, haddress, hconnected⟩ hcalls

/-- The process if the client cannot connect. -/
theorem main_of_not_succeeds (args : List Bytes) (stdin : Bytes) {calls : Connecting}
    (hcalls : ¬ calls.Succeeds) (net : Network) (reads : List Bytes) :
    (main args stdin calls (start net reads)).1 = 1 ∧
      (main args stdin calls (start net reads)).2.net = net ∧
      (main args stdin calls (start net reads)).2.closed =
        if isValid calls.socket then [calls.socket] else [] := by
  obtain ⟨hfail, hvalid, hnet, hclosed⟩ :=
    connect_of_not_succeeds hcalls (args.head?.getD (ascii "127.0.0.1"))
      ((start net reads).print (ascii "Connecting to " ++ place args ++ ascii "..."))
  unfold main
  simp only [hfail, Bool.not_false, if_true]
  rw [disconnect_of_not_isValid (by exact hvalid)]
  exact ⟨trivial, hnet, hclosed⟩

/-- The process that is connected, in front of the first prompt. -/
def connected (args : List Bytes) (socket : Socket) (net : Network) (reads : List Bytes) : Cli :=
  { start net reads with fd := socket, stdout := greeting args }

/-- The process if the client connects. -/
theorem main_of_succeeds (args : List Bytes) (stdin : Bytes) {calls : Connecting}
    (hcalls : calls.Succeeds) (net : Network) (reads : List Bytes) :
    main args stdin calls (start net reads) =
      (0, ((repl (getLines stdin) (connected args calls.socket net reads)).disconnect.print
        (ascii "Goodbye!")).disconnect) := by
  have hgreeting : (({ (start net reads).print
      (ascii "Connecting to " ++ place args ++ ascii "...") with
        fd := calls.socket, readBuffer := [] } : Cli).greet args) =
      connected args calls.socket net reads := by
    simp [greet, connected, print, start, greeting, ascii, LF]
  unfold main
  simp only [connect_of_succeeds hcalls, Bool.not_true, Bool.false_eq_true, if_false, hgreeting]

/-- **Every run of the command line client is a session.**  If the client can connect, it sends the
lines of the user that are not blank, up to the one that quits, and prints for each one the next
value of the stream that arrives, however the stream is cut into packets and the lines into writes;
it stops at the first line that cannot be sent or is not answered.  In any case the socket is closed
once. -/
theorem cli_follows_session (args : List Bytes) (stdin : Bytes) (calls : Connecting)
    (net : Network) {reads : List Bytes} (hreads : ∀ bytes ∈ reads, bytes ≠ [])
    {values : List Bytes} {left : Bytes}
    (hvalues : Repeats Client.decoder.take reads.flatten values left) :
    (main args stdin calls (start net reads)).2.closed =
        (if isValid calls.socket then [calls.socket] else []) ∧
      (¬ calls.Succeeds → (main args stdin calls (start net reads)).1 = 1 ∧
        (main args stdin calls (start net reads)).2.net = net) ∧
      (calls.Succeeds → (main args stdin calls (start net reads)).1 = 0 ∧
        ∃ sent out err answered, Session values (getLines stdin) sent out err ∧
          Paired values (getLines stdin) sent answered ∧
          (∀ line ∈ commandLines (getLines stdin), CommandLine line) ∧
          (main args stdin calls (start net reads)).2.net.bytesTo calls.socket =
            net.bytesTo calls.socket ++ sent ∧
          (main args stdin calls (start net reads)).2.stdout =
            greeting args ++ out ++ ascii "Goodbye!\n" ∧
          (main args stdin calls (start net reads)).2.stderr = err) := by
  by_cases hcalls : calls.Succeeds
  · have hvalid : isValid calls.socket = true := hcalls.1
    have hawaits : (connected args calls.socket net reads).Awaits values := by
      have hrepeats := Client.decoder.repeats_next hvalues hreads (List.nil_append _)
      simp only [← Client.readResponse_eq_next] at hrepeats
      exact ⟨_, hrepeats⟩
    obtain ⟨sent, out, err, hsession, hfollows⟩ :=
      exists_session_repl (getLines stdin) (c := connected args calls.socket net reads) hvalid
        hawaits
    obtain ⟨answered, hpaired⟩ := hsession.exists_paired
    rw [main_of_succeeds args stdin hcalls]
    generalize repl (getLines stdin) (connected args calls.socket net reads) = c at hfollows ⊢
    -- The destructor has nothing more to close.
    rw [disconnect_of_not_isValid (c := c.disconnect.print (ascii "Goodbye!")) c.isValid_disconnect]
    obtain ⟨hstdout, hstderr, hnet⟩ := c.disconnect_outputs
    refine ⟨?_, fun h => absurd hcalls h, fun _ => ⟨rfl, sent, out, err, answered, hsession,
      hpaired, fun line => commandLine_of_mem fun _ => notMem_of_mem_getLines, ?_, ?_, ?_⟩⟩
    · rw [if_pos hvalid]
      exact hfollows.closed_disconnect hvalid
    · exact (congrArg (fun net => net.bytesTo calls.socket) hnet).trans hfollows.bytes
    · rw [print, hstdout, hfollows.stdout, List.append_assoc]
      rfl
    · exact hstderr.trans hfollows.stderr
  · obtain ⟨hexit, hnet, hclosed⟩ := main_of_not_succeeds args stdin hcalls net reads
    exact ⟨hclosed, fun _ => ⟨hexit, hnet⟩, fun h => absurd h hcalls⟩

/-- Two commands, a blank line and a third command for which no value arrives any more; the second
value comes in two packets. -/
theorem cli_follows_session_three_lines :
    let stdin := ascii "SET k v\n  \nGET k\nPING\n"
    let reads := [ascii "+OK\r\n$1\r", ascii "\nv\r\n"]
    let values := [ascii "OK", ascii "\"v\""]
    let result := main [] stdin ⟨3, true, true, []⟩ (start ⟨fun _ => some 1, []⟩ reads)
    result.2.stdout = greeting [] ++ ascii "myredis> OK\nmyredis> myredis> \"v\"\n" ++
        ascii "myredis> Error: Failed to read response\nGoodbye!\n" ∧
      result.2.stderr = ascii "Disconnected from server.\n" ∧
      (result.1 = 0 ∧ result.2.closed = [3]) ∧
      ∃ sent out err answered, Session values (getLines stdin) sent out err ∧
        Paired values (getLines stdin) sent answered ∧ result.2.net.bytesTo 3 = sent := by
  intro stdin reads values result
  have hend : Repeats Client.decoder.take [] [] [] := .stop (by decide)
  have hsecond : Repeats Client.decoder.take (ascii "$1\r\nv\r\n") [ascii "\"v\""] [] :=
    .more (by decide) hend
  have hvalues : Repeats Client.decoder.take reads.flatten values [] := .more (by decide) hsecond
  have hreads : ∀ bytes ∈ reads, bytes ≠ [] := by decide
  obtain ⟨hclosed, -, hsuccess⟩ :=
    cli_follows_session [] stdin ⟨3, true, true, []⟩ ⟨fun _ => some 1, []⟩ hreads hvalues
  obtain ⟨hexit, sent, out, err, answered, hsession, hpaired, -, hbytes, -⟩ :=
    hsuccess ⟨rfl, rfl, rfl⟩
  exact ⟨by decide +kernel, by decide +kernel, ⟨hexit, hclosed⟩, sent, out, err, answered, hsession,
    hpaired, hbytes⟩

end Cli

end MyRedis
