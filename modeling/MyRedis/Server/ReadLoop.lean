import MyRedis.Foundation.Packets
import MyRedis.Resp.Encoding

/-!
# The read loop of a connection

The part of `Server::process_client` that works on the read buffer: bytes that were read are
appended, complete commands are parsed and erased from the front, and each is handed to a consumer.
What the server does with a command is left open here (`Consumer`); the server is one instance.

`processReads_packetisation` is the result: however the bytes of a sequence of commands are cut
into reads, the loop hands out exactly these commands, in order.
-/

namespace MyRedis

open Foundation Resp

/-- What is done with the commands of a connection. -/
structure Consumer (σ : Type) where
  /-- Serve a command; `false` asks for the connection to be closed. -/
  serve : Command → σ → Bool × σ
  /-- Answer a `QUIT`. -/
  quit : σ → σ
  /-- Answer a protocol error. -/
  reject : σ → σ

/-- The largest size of the read buffer behind a command. -/
def maxBufferSize : ℕ := 64 * 1024 * 1024

/-- The loop of `process_client`.  The result says whether the connection is kept, and gives what is
left of the buffer.  Every round that does not end the loop takes at least one byte from the
buffer, so `fuel` need not exceed its length. -/
def processBuffer {σ : Type} (k : Consumer σ) : ℕ → Bytes → σ → Bool × Bytes × σ
  | 0, buffer, s => (true, buffer, s)
  | fuel + 1, buffer, s =>
    if buffer = [] then (true, [], s)
    else
      match parseCommand buffer with
      | .protocolError => (false, buffer, k.reject s)
      | .needMore bytesConsumed =>
        if 0 < bytesConsumed then processBuffer k fuel (buffer.drop bytesConsumed) s
        else (true, buffer, s)
      | .ok cmd bytesConsumed =>
        let buffer := buffer.drop bytesConsumed
        if maxBufferSize < buffer.length then (false, buffer, s)
        else if cmd.name = ascii "QUIT" then (false, buffer, k.quit s)
        else
          let served := k.serve cmd s
          if served.1 then processBuffer k fuel buffer served.2 else (false, buffer, served.2)

/-- The bytes of one read are appended to the buffer, and the loop runs. -/
def processRead {σ : Type} (k : Consumer σ) (bytes buffer : Bytes) (s : σ) : Bool × Bytes × σ :=
  processBuffer k (buffer ++ bytes).length (buffer ++ bytes) s

/-- Successive reads, until the connection is closed. -/
def processReads {σ : Type} (k : Consumer σ) : List Bytes → Bytes → σ → Bool × Bytes × σ
  | [], buffer, s => (true, buffer, s)
  | bytes :: reads, buffer, s =>
    let result := processRead k bytes buffer s
    if result.1 then processReads k reads result.2.1 result.2.2 else result

/-- A property that holds as long as the connection is kept, and another one that holds once it is
given up: it is enough to look at the reactions of the consumer one by one. -/
theorem processBuffer_outcome {σ : Type} {k : Consumer σ} {I J : σ → Prop}
    (hserve : ∀ cmd s, cmd.name ≠ ascii "QUIT" → I s →
      if (k.serve cmd s).1 then I (k.serve cmd s).2 else J (k.serve cmd s).2)
    (hquit : ∀ s, I s → J (k.quit s)) (hreject : ∀ s, I s → J (k.reject s))
    (hdrop : ∀ s, I s → J s) (fuel : ℕ) (buffer : Bytes) {s : σ} (hs : I s) :
    if (processBuffer k fuel buffer s).1 then I (processBuffer k fuel buffer s).2.2
    else J (processBuffer k fuel buffer s).2.2 := by
  induction fuel generalizing buffer s with
  | zero => exact hs
  | succ fuel ih =>
    rw [processBuffer]
    split
    · exact hs
    split
    · exact hreject s hs
    · split
      · exact ih _ hs
      · exact hs
    · rename_i cmd bytesConsumed _
      simp only
      split
      · exact hdrop s hs
      split
      · exact hquit s hs
      · have hserved := hserve cmd s ‹_› hs
        split
        · rename_i hkept
          rw [if_pos hkept] at hserved
          exact ih _ hserved
        · rename_i hlost
          rw [if_neg hlost] at hserved
          exact hserved

/-- What every reaction of the consumer keeps is kept by the loop. -/
theorem processBuffer_invariant {σ : Type} {k : Consumer σ} {I : σ → Prop}
    (hserve : ∀ cmd s, cmd.name ≠ ascii "QUIT" → I s → I (k.serve cmd s).2)
    (hquit : ∀ s, I s → I (k.quit s)) (hreject : ∀ s, I s → I (k.reject s)) (fuel : ℕ)
    (buffer : Bytes) {s : σ} (hs : I s) : I (processBuffer k fuel buffer s).2.2 := by
  have houtcome := processBuffer_outcome (I := I) (J := I) (fun cmd s hname h => ?_) hquit hreject
    (fun _ h => h) fuel buffer hs
  · split at houtcome <;> exact houtcome
  · split <;> exact hserve cmd s hname h

/-- Two consumers on the same buffer, the second of which keeps every connection.  As long as the
first one keeps the connection too, their states stay related by `R`.  Where both leave the loop
they are related by `P`, and this is also enough where only the first one leaves it, if the relation
`Q` that holds then is kept by whatever the second one does after that. -/
theorem processBuffer_simulation {σ τ : Type} {k : Consumer σ} {l : Consumer τ}
    {R P Q : σ → τ → Prop} (hkeeps : ∀ cmd t, (l.serve cmd t).1 = true)
    (hserve : ∀ cmd s t, R s t →
      if (k.serve cmd s).1 then R (k.serve cmd s).2 (l.serve cmd t).2
      else Q (k.serve cmd s).2 (l.serve cmd t).2)
    (hquit : ∀ s t, R s t → P (k.quit s) (l.quit t))
    (hreject : ∀ s t, R s t → P (k.reject s) (l.reject t)) (hdrop : ∀ s t, R s t → P s t)
    (hserveLater : ∀ cmd s t, Q s t → Q s (l.serve cmd t).2)
    (hquitLater : ∀ s t, Q s t → Q s (l.quit t))
    (hrejectLater : ∀ s t, Q s t → Q s (l.reject t)) (hlost : ∀ s t, Q s t → P s t) (fuel : ℕ)
    (buffer : Bytes) {s : σ} {t : τ} (h : R s t) :
    if (processBuffer k fuel buffer s).1 then
      (processBuffer l fuel buffer t).1 = true ∧
        (processBuffer l fuel buffer t).2.1 = (processBuffer k fuel buffer s).2.1 ∧
        R (processBuffer k fuel buffer s).2.2 (processBuffer l fuel buffer t).2.2
    else P (processBuffer k fuel buffer s).2.2 (processBuffer l fuel buffer t).2.2 := by
  induction fuel generalizing buffer s t with
  | zero => exact ⟨rfl, rfl, h⟩
  | succ fuel ih =>
    rw [processBuffer, processBuffer]
    by_cases hbuffer : buffer = []
    · rw [if_pos hbuffer, if_pos hbuffer]
      exact ⟨rfl, rfl, h⟩
    rw [if_neg hbuffer, if_neg hbuffer]
    cases parseCommand buffer with
    | protocolError => exact hreject s t h
    | needMore bytesConsumed =>
      simp only
      split
      · exact ih _ h
      · exact ⟨rfl, rfl, h⟩
    | ok cmd bytesConsumed =>
      simp only [hkeeps, if_true]
      by_cases hsize : maxBufferSize < (buffer.drop bytesConsumed).length
      · rw [if_pos hsize, if_pos hsize]
        exact hdrop s t h
      rw [if_neg hsize, if_neg hsize]
      by_cases hname : cmd.name = ascii "QUIT"
      · rw [if_pos hname, if_pos hname]
        exact hquit s t h
      rw [if_neg hname, if_neg hname]
      have hserved := hserve cmd s t h
      by_cases hkept : (k.serve cmd s).1 = true
      · rw [if_pos hkept] at hserved ⊢
        exact ih _ hserved
      · -- the second consumer goes on alone
        rw [if_neg hkept] at hserved ⊢
        exact hlost _ _ (processBuffer_invariant (I := Q (k.serve cmd s).2)
          (fun cmd' t' _ => hserveLater cmd' _ t') (fun t' => hquitLater _ t')
          (fun t' => hrejectLater _ t') fuel _ hserved)

/-- A map between the states of two consumers that their reactions respect is respected by the
loop. -/
theorem processBuffer_map {σ τ : Type} {k : Consumer σ} {l : Consumer τ} {f : σ → τ}
    (hserve : ∀ cmd s, l.serve cmd (f s) = ((k.serve cmd s).1, f (k.serve cmd s).2))
    (hquit : ∀ s, l.quit (f s) = f (k.quit s)) (hreject : ∀ s, l.reject (f s) = f (k.reject s))
    (fuel : ℕ) (buffer : Bytes) (s : σ) : processBuffer l fuel buffer (f s) =
      ((processBuffer k fuel buffer s).1, (processBuffer k fuel buffer s).2.1,
        f (processBuffer k fuel buffer s).2.2) := by
  induction fuel generalizing buffer s with
  | zero => rfl
  | succ fuel ih =>
    rw [processBuffer, processBuffer]
    split
    · rfl
    cases parseCommand buffer with
    | protocolError => rw [hreject]
    | needMore bytesConsumed =>
      simp only
      split
      · exact ih _ s
      · rfl
    | ok cmd bytesConsumed =>
      simp only [hserve, hquit]
      split
      · rfl
      split
      · rfl
      split
      · exact ih _ _
      · rfl

/-- One more read: it is processed if the connection was kept. -/
theorem processReads_snoc {σ : Type} (k : Consumer σ) (reads : List Bytes) (buffer : Bytes) (s : σ)
    (bytes : Bytes) : processReads k (reads ++ [bytes]) buffer s =
      if (processReads k reads buffer s).1 then
        processRead k bytes (processReads k reads buffer s).2.1 (processReads k reads buffer s).2.2
      else processReads k reads buffer s := by
  induction reads generalizing buffer s with
  | nil =>
    simp only [List.nil_append, processReads, if_true]
    split
    · rename_i hread
      rw [← hread]
    · rfl
  | cons first reads ih =>
    rw [List.cons_append, processReads, processReads]
    by_cases hfirst : (processRead k first buffer s).1 = true
    · simp only [hfirst, if_true]
      exact ih _ _
    · simp only [hfirst, Bool.false_eq_true, if_false]

/-! ### At most one command in the buffer -/

section OneCommand

variable {σ : Type} (k : Consumer σ) {bytes buffer : Bytes}

/-- A read behind which more bytes are needed. -/
theorem processRead_of_needMore (hparse : parseCommand (buffer ++ bytes) = .needMore 0) (s : σ) :
    processRead k bytes buffer s = (true, buffer ++ bytes, s) := by
  unfold processRead
  generalize buffer ++ bytes = all at hparse ⊢
  rcases all with _ | ⟨c, all⟩
  · rfl
  · rw [List.length_cons, processBuffer, if_neg (List.cons_ne_nil _ _), hparse]
    rfl

/-- A read that is refused. -/
theorem processRead_of_protocolError (hparse : parseCommand (buffer ++ bytes) = .protocolError)
    (s : σ) : processRead k bytes buffer s = (false, buffer ++ bytes, k.reject s) := by
  unfold processRead
  generalize buffer ++ bytes = all at hparse ⊢
  rcases all with _ | ⟨c, all⟩
  · cases hparse
  · rw [List.length_cons, processBuffer, if_neg (List.cons_ne_nil _ _), hparse]

/-- A read that completes a command behind which there is nothing. -/
theorem processRead_of_ok {cmd : Command}
    (hparse : parseCommand (buffer ++ bytes) = .ok cmd (buffer ++ bytes).length) (s : σ) :
    processRead k bytes buffer s =
      if cmd.name = ascii "QUIT" then (false, [], k.quit s)
      else ((k.serve cmd s).1, [], (k.serve cmd s).2) := by
  have hend (fuel : ℕ) (s : σ) : processBuffer k fuel [] s = (true, [], s) := by
    cases fuel <;> rfl
  unfold processRead
  generalize buffer ++ bytes = all at hparse ⊢
  rcases all with _ | ⟨c, all⟩
  · cases hparse
  · rw [List.length_cons, processBuffer, if_neg (List.cons_ne_nil _ _), hparse]
    simp only [List.drop_length, List.length_nil, if_neg (Nat.not_lt_zero _)]
    split
    · rfl
    · split
      · rename_i hkept
        rw [hend, hkept]
      · rename_i hlost
        rw [Bool.eq_false_of_not_eq_true hlost]

end OneCommand

/-! ### Serving commands one by one -/

/-- Serve a sequence of commands, until one asks for the connection to be closed. -/
def Consumer.serveAll {σ : Type} (k : Consumer σ) : List Command → σ → Bool × σ
  | [], s => (true, s)
  | cmd :: cmds, s =>
    let served := k.serve cmd s
    if served.1 then k.serveAll cmds served.2 else served

/-- A longer sequence is served part by part. -/
theorem Consumer.serveAll_append {σ : Type} (k : Consumer σ) (cmds cmds' : List Command) (s : σ) :
    k.serveAll (cmds ++ cmds') s =
      if (k.serveAll cmds s).1 then k.serveAll cmds' (k.serveAll cmds s).2
      else k.serveAll cmds s := by
  induction cmds generalizing s with
  | nil => rfl
  | cons cmd cmds ih =>
    simp only [List.cons_append, serveAll]
    by_cases h : (k.serve cmd s).1 = true
    · simp only [h, if_true]
      exact ih _
    · simp only [h, if_false, Bool.false_eq_true]

/-! ### Encoded commands in the buffer -/

/-- The command as it is handed out: with its name in upper case. -/
def Command.upper (c : Command) : Command := ⟨c.name.map toUpper, c.args⟩

/-- The encoding of a command. -/
def Command.encode (c : Command) : Bytes := Resp.encode (c.name :: c.args)

/-- A command that a client can send on a connection that stays open: its lengths fit into an `int`
and it is not `QUIT`. -/
structure Command.Sendable (c : Command) : Prop where
  /-- The lengths. -/
  parts : Resp.Sendable (c.name :: c.args)
  /-- The name. -/
  not_quit : c.upper.name ≠ ascii "QUIT"

/-- Complete commands in the buffer, followed by a part of another one, are handed out, and the part
stays in the buffer. -/
theorem processBuffer_frames {σ : Type} (k : Consumer σ) {done : List Command}
    (hdone : ∀ c ∈ done, c.Sendable) {part : Bytes}
    (hpart : part = [] ∨ parseCommand part = .needMore 0)
    (hsize : ∀ c later, done = c :: later →
      (later.flatMap Command.encode ++ part).length ≤ maxBufferSize)
    {fuel : ℕ} (hfuel : (done.flatMap Command.encode ++ part).length ≤ fuel) (s : σ) :
    (processBuffer k fuel (done.flatMap Command.encode ++ part) s).1 =
        (k.serveAll (done.map Command.upper) s).1 ∧
      (processBuffer k fuel (done.flatMap Command.encode ++ part) s).2.2 =
        (k.serveAll (done.map Command.upper) s).2 ∧
      ((k.serveAll (done.map Command.upper) s).1 = true →
        (processBuffer k fuel (done.flatMap Command.encode ++ part) s).2.1 = part) := by
  induction done generalizing fuel s with
  | nil =>
    simp only [List.flatMap_nil, List.nil_append, List.map_nil, Consumer.serveAll]
    cases fuel with
    | zero => simp [processBuffer]
    | succ fuel =>
      rw [processBuffer]
      by_cases hnil : part = []
      · simp [hnil]
      · have hmore := hpart.resolve_left hnil
        simp [hnil, hmore]
  | cons c done ih =>
    have hc : c.Sendable := hdone c List.mem_cons_self
    have hrest := hsize c done rfl
    have hlength : 0 < c.encode.length := List.length_pos_iff.mpr (encode_ne_nil _)
    rw [List.flatMap_cons, List.append_assoc] at hfuel ⊢
    obtain ⟨fuel, rfl⟩ : ∃ n, fuel = n + 1 := by
      refine Nat.exists_eq_succ_of_ne_zero ?_
      rw [List.length_append] at hfuel
      omega
    have hparse : parseCommand (c.encode ++ (done.flatMap Command.encode ++ part)) =
        .ok c.upper c.encode.length := parseCommand_encode hc.parts _
    have hstep : processBuffer k (fuel + 1) (c.encode ++ (done.flatMap Command.encode ++ part)) s =
        if (k.serve c.upper s).1 then
          processBuffer k fuel (done.flatMap Command.encode ++ part) (k.serve c.upper s).2
        else (false, done.flatMap Command.encode ++ part, (k.serve c.upper s).2) := by
      rw [processBuffer, if_neg (by simp [List.length_pos_iff.mp hlength]), hparse]
      simp only [List.drop_left]
      rw [if_neg (by omega), if_neg hc.not_quit]
    rw [hstep, List.map_cons, Consumer.serveAll]
    by_cases hkeep : (k.serve c.upper s).1 = true
    · simp only [hkeep, if_true]
      refine ih (fun c' h => hdone c' (List.mem_cons_of_mem _ h)) (fun c' later h => ?_) ?_ _
      · -- The buffer only gets shorter from command to command.
        subst h
        rw [List.flatMap_cons, List.append_assoc, List.length_append] at hrest
        omega
      · rw [List.length_append] at hfuel
        omega
    · rw [if_neg hkeep, if_neg hkeep]
      exact ⟨(Bool.eq_false_of_not_eq_true hkeep).symm, rfl, fun h => absurd h hkeep⟩

/-! ### Packetisation -/

/-- The number of bytes that one read takes from the socket. -/
def readSize : ℕ := 4096

/-- What a connection has received while `todo` is not yet handed out: nothing more than a strict
part of the first command of `todo`. -/
def PartOfNext (buffer : Bytes) (todo : List Command) : Prop :=
  (todo = [] ∧ buffer = []) ∨
    ∃ c later, todo = c :: later ∧ buffer <+: c.encode ∧ buffer ≠ c.encode

/-- A strict part of a command is not parsed. -/
theorem PartOfNext.parseCommand {buffer : Bytes} {todo : List Command}
    (h : PartOfNext buffer todo) (htodo : ∀ c ∈ todo, c.Sendable) :
    buffer = [] ∨ parseCommand buffer = .needMore 0 := by
  obtain ⟨-, hnil⟩ | ⟨c, later, rfl, hpart, hne⟩ := h
  · exact Or.inl hnil
  · exact Or.inr (parseCommand_incomplete (htodo c List.mem_cons_self).parts hpart hne)

/-- One read: the commands it completes are handed out, and a part of the next one stays in the
buffer. -/
theorem processRead_frames {σ : Type} (k : Consumer σ) {todo : List Command}
    (htodo : ∀ c ∈ todo, c.Sendable) {buffer bytes later : Bytes} (hbuffer : PartOfNext buffer todo)
    (hread : bytes.length ≤ readSize)
    (hstream : buffer ++ (bytes ++ later) = todo.flatMap Command.encode) (s : σ) :
    ∃ done rest part, todo = done ++ rest ∧ PartOfNext part rest ∧
      part ++ later = rest.flatMap Command.encode ∧
      (processRead k bytes buffer s).1 = (k.serveAll (done.map Command.upper) s).1 ∧
      (processRead k bytes buffer s).2.2 = (k.serveAll (done.map Command.upper) s).2 ∧
      ((k.serveAll (done.map Command.upper) s).1 = true →
        (processRead k bytes buffer s).2.1 = part) := by
  have hprefix : buffer ++ bytes <+: todo.flatMap Command.encode :=
    ⟨later, by rw [List.append_assoc, hstream]⟩
  obtain ⟨done, rest, part, rfl, harrived, hpart⟩ :=
    exists_frames_of_isPrefix (fun c _ => encode_ne_nil (c.name :: c.args)) hprefix
  have hpart' : PartOfNext part rest := hpart
  refine ⟨done, rest, part, rfl, hpart', ?_, ?_⟩
  · rw [← List.append_assoc, harrived, List.flatMap_append, List.append_assoc] at hstream
    exact List.append_cancel_left hstream
  · unfold processRead
    rw [harrived]
    refine processBuffer_frames k (fun c h => htodo c (List.mem_append_left _ h))
      (hpart'.parseCommand fun c h => htodo c (List.mem_append_right _ h))
      (fun c behind hdone => ?_) le_rfl s
    -- Behind the first command there are only bytes of this read.
    subst hdone
    have hlt : buffer.length < c.encode.length := by
      obtain ⟨h, -⟩ | ⟨c', later', h, hpre, hne⟩ := hbuffer
      · exact absurd h (by simp)
      · obtain rfl : c = c' := by simpa using (List.cons.inj h).1
        exact lt_of_le_of_ne hpre.length_le fun heq => hne (hpre.eq_of_length heq)
    have hlengths := congrArg List.length harrived
    rw [List.flatMap_cons, List.append_assoc, List.length_append, List.length_append] at hlengths
    have hsize : readSize ≤ maxBufferSize := by decide
    omega

/-- Any number of reads: from a buffer that holds a part of the next command, all commands are
handed out, and nothing is left. -/
theorem processReads_frames {σ : Type} (k : Consumer σ) {reads : List Bytes} {todo : List Command}
    (htodo : ∀ c ∈ todo, c.Sendable) {buffer : Bytes} (hbuffer : PartOfNext buffer todo)
    (hreads : ∀ bytes ∈ reads, bytes.length ≤ readSize)
    (hstream : buffer ++ reads.flatten = todo.flatMap Command.encode) (s : σ) :
    (processReads k reads buffer s).1 = (k.serveAll (todo.map Command.upper) s).1 ∧
      (processReads k reads buffer s).2.2 = (k.serveAll (todo.map Command.upper) s).2 ∧
      ((k.serveAll (todo.map Command.upper) s).1 = true →
        (processReads k reads buffer s).2.1 = []) := by
  induction reads generalizing todo buffer s with
  | nil =>
    -- Nothing is to come, so nothing can be missing.
    obtain ⟨rfl, rfl⟩ | ⟨c, later, rfl, hpre, hne⟩ := hbuffer
    · simp [processReads, Consumer.serveAll]
    · rw [List.flatten_nil, List.append_nil, List.flatMap_cons] at hstream
      refine absurd (hpre.eq_of_length ?_) hne
      have := congrArg List.length hstream
      rw [List.length_append] at this
      exact le_antisymm hpre.length_le (by omega)
  | cons bytes reads ih =>
    rw [List.flatten_cons] at hstream
    obtain ⟨done, rest, part, rfl, hpart, hrest, hkeep, hstate, hleft⟩ :=
      processRead_frames k htodo hbuffer (hreads bytes List.mem_cons_self) hstream s
    rw [processReads, List.map_append, Consumer.serveAll_append]
    by_cases hserved : (k.serveAll (done.map Command.upper) s).1 = true
    · rw [if_pos (hkeep.trans hserved), if_pos hserved, hleft hserved, hstate]
      exact ih (fun c h => htodo c (List.mem_append_right _ h)) hpart
        (fun bytes h => hreads bytes (List.mem_cons_of_mem _ h)) hrest _
    · rw [if_neg (hkeep ▸ hserved), if_neg hserved]
      exact ⟨hkeep, hstate, fun h => absurd h hserved⟩

/-- **Decoding does not depend on packetisation.**  For every consumer, every sequence of commands
and every way of cutting their encodings into reads, the loop does what serving the commands one by
one in order does, and leaves an empty buffer when no command asks for the connection to be closed;
in particular it never rejects the input and never runs into the bound on the buffer.  A strict
part of one command is left alone. -/
theorem processReads_packetisation {σ : Type} (k : Consumer σ) (s : σ) (cmds : List Command)
    (hcmds : ∀ c ∈ cmds, c.Sendable) (reads : List Bytes)
    (hreads : ∀ bytes ∈ reads, 1 ≤ bytes.length ∧ bytes.length ≤ readSize)
    (hcut : reads.flatten = cmds.flatMap Command.encode) :
    (processReads k reads [] s).1 = (k.serveAll (cmds.map Command.upper) s).1 ∧
      (processReads k reads [] s).2.2 = (k.serveAll (cmds.map Command.upper) s).2 ∧
      ((k.serveAll (cmds.map Command.upper) s).1 = true →
        (processReads k reads [] s).2.1 = []) ∧
      ∀ c ∈ cmds, ∀ part, part <+: c.encode → part ≠ c.encode →
        parseCommand part = .needMore 0 := by
  have hbuffer : PartOfNext [] cmds := by
    cases cmds with
    | nil => exact Or.inl ⟨rfl, rfl⟩
    | cons c later =>
      exact Or.inr ⟨c, later, rfl, List.nil_prefix, (encode_ne_nil (c.name :: c.args)).symm⟩
  obtain ⟨hkeep, hstate, hleft⟩ :=
    processReads_frames k hcmds hbuffer (fun bytes h => (hreads bytes h).2) hcut s
  exact ⟨hkeep, hstate, hleft, fun c hc part => parseCommand_incomplete (hcmds c hc).parts⟩

/-- A consumer that writes the commands down, and a mark for each rejection. -/
def recorder : Consumer (List (Option Command)) where
  serve := fun cmd log => (true, log ++ [some cmd])
  quit := id
  reject := fun log => log ++ [none]

/-- Two commands in three reads, one of which is cut between carriage return and line feed and
another of which ends one command and begins the next. -/
theorem processReads_packetisation_get_ping :
    (processReads recorder
        [ascii "*2\r\n$3\r", ascii "\nget\r\n$2\r\n\r\n\r\n*1\r\n$4", ascii "\r\nPING\r\n"]
        [] []).2.2 = [some ⟨ascii "GET", [CRLF]⟩, some ⟨ascii "PING", []⟩] := by
  have hcmds : ∀ c ∈ [(⟨ascii "get", [CRLF]⟩ : Command), ⟨ascii "PING", []⟩], c.Sendable := by
    intro c hc
    simp only [List.mem_cons, List.not_mem_nil, or_false] at hc
    obtain rfl | rfl := hc
    · exact ⟨⟨by decide, by decide, by decide⟩, by decide⟩
    · exact ⟨⟨by decide, by decide, by decide⟩, by decide⟩
  exact (processReads_packetisation recorder [] _ hcmds
    [ascii "*2\r\n$3\r", ascii "\nget\r\n$2\r\n\r\n\r\n*1\r\n$4", ascii "\r\nPING\r\n"]
    (by decide) (by decide)).2.1

end MyRedis
