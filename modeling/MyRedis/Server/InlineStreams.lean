import MyRedis.Resp.InlineLines
import MyRedis.Server.ReadLoop

/-!
# Streams of inline commands

A client that types its commands sends a stream of lines, each ended by a newline, with or without a
carriage return in front of it.  The lines should be served one by one, however the stream is cut
into reads (`serveLines`).

Where a command is not found to end at the first newline (`Resp.endsAtNewline_iff`), two lines are
served as one, and it depends on the reads whether this happens: only if a line with a bare newline
and a later line with `\r\n` are in the buffer together.  If no read brings this about the lines are
served one by one (`processReads_lines`), in particular if the client does not change from the one
line end to the other (`stepsClean_of_unmixed`).
-/

namespace MyRedis

open Foundation Resp

/-! ### Lines -/

/-- The bytes of a line in front of its newline; the last one may be a carriage return. -/
structure InlineLine (body : Bytes) : Prop where
  /-- The newline is the first one. -/
  single : LF ∉ body
  /-- The line is not an array. -/
  inline : body.head? ≠ some 42
  /-- The parser does not refuse the line while it is incomplete. -/
  short : body.length ≤ maxInlineLength

/-- A line on the wire. -/
def wire (body : Bytes) : Bytes := body ++ [LF]

/-- A line is not empty on the wire. -/
theorem wire_ne_nil (body : Bytes) : wire body ≠ [] := append_newline_ne_nil body []

/-- A line and what follows it. -/
theorem wire_append (body rest : Bytes) : wire body ++ rest = body ++ LF :: rest := by
  simp [wire]

/-- Serve lines one by one, each for itself. -/
def serveLines {σ : Type} (k : Consumer σ) : List Bytes → σ → Bool × σ
  | [], s => (true, s)
  | body :: lines, s =>
    match parseCommand (wire body) with
    | .protocolError => (false, k.reject s)
    | .needMore _ => serveLines k lines s
    | .ok cmd _ =>
      if cmd.name = ascii "QUIT" then (false, k.quit s)
      else
        let served := k.serve cmd s
        if served.1 then serveLines k lines served.2 else served

/-- Behind a bare newline there is no `\r\n` in the buffer. -/
def CleanBuffer (buffer : Bytes) : Prop :=
  ∀ x y, buffer = x ++ LF :: y → x.getLast? ≠ some CR → ¬ CRLF <:+: y

/-- The buffer behind the first line is clean. -/
theorem CleanBuffer.tail {body rest : Bytes} (h : CleanBuffer (body ++ LF :: rest)) :
    CleanBuffer rest := by
  rintro x y rfl hx
  refine h (body ++ LF :: x) y (by simp) ?_
  rcases List.eq_nil_or_concat x with rfl | ⟨z, c, rfl⟩
  · simp only [List.getLast?_append, List.getLast?_singleton, Option.some_or]
    decide
  · have hlast : body ++ LF :: (z ++ [c]) = (body ++ LF :: z) ++ [c] := by simp
    rw [List.concat_eq_append, List.getLast?_concat] at hx
    rwa [List.concat_eq_append, hlast, List.getLast?_concat]

/-- In a clean buffer the first newline ends the command. -/
theorem CleanBuffer.endsAtNewline {body rest : Bytes} (hclean : CleanBuffer (body ++ LF :: rest))
    (hbody : LF ∉ body) (hinline : (body ++ LF :: rest).head? ≠ some 42) :
    EndsAtNewline (body ++ LF :: rest) := by
  rw [endsAtNewline_iff hinline (by simp)]
  by_cases hbare : body.getLast? = some CR
  · obtain ⟨line, rfl⟩ := List.getLast?_eq_some_iff.mp hbare
    exact Or.inl ⟨line, rest, by simp [CRLF], fun h => hbody (List.mem_append_left _ h)⟩
  · refine Or.inr (Or.inl fun h => ?_)
    exact hclean body rest rfl hbare (infix_rest hbody hbare h)

/-! ### Lines in the buffer -/

section Lines

variable {σ : Type} (k : Consumer σ)

/-- The first line of a clean buffer is served for itself, and the loop goes on behind it. -/
theorem processBuffer_line {body rest : Bytes} (hbody : InlineLine body)
    (hclean : CleanBuffer (wire body ++ rest)) (hsize : rest.length ≤ maxBufferSize) (fuel : ℕ)
    (s : σ) :
    processBuffer k (fuel + 1) (wire body ++ rest) s =
      match parseCommand (wire body) with
      | .protocolError => (false, wire body ++ rest, k.reject s)
      | .needMore _ => processBuffer k fuel rest s
      | .ok cmd _ =>
        if cmd.name = ascii "QUIT" then (false, rest, k.quit s)
        else
          let served := k.serve cmd s
          if served.1 then processBuffer k fuel rest served.2 else (false, rest, served.2) := by
  have hsplit := wire_append body rest
  have hne : wire body ++ rest ≠ [] := by simp [wire]
  have hinline : (wire body ++ rest).head? ≠ some 42 := by
    rw [hsplit]
    rcases body with _ | ⟨c, body⟩
    · exact fun h => absurd (Option.some.inj h) (by decide)
    · exact hbody.inline
  rw [hsplit] at hclean hinline
  have hends := hclean.endsAtNewline hbody.single hinline
  have hfirst : firstLine (body ++ LF :: rest) = wire body := firstLine_eq hbody.single rest
  have hverdict := hends.verdict
  have hconsumed := hends.consumed
  rw [hfirst, ← hsplit] at hverdict
  rw [hfirst, ← hsplit, hverdict] at hconsumed
  have hlength : 0 < (wire body).length := by simp [wire]
  rw [processBuffer, if_neg hne, hverdict]
  rcases hparse : parseCommand (wire body) with ⟨cmd, n⟩ | n | _
  · obtain rfl := hconsumed n (by rw [hparse]; rfl)
    simp only [List.drop_left, if_neg (not_lt.mpr hsize)]
  · obtain rfl := hconsumed n (by rw [hparse]; rfl)
    simp only [List.drop_left, if_pos hlength]
  · rfl

/-- Complete lines in the buffer, followed by a part of another one, are served, and the part stays
in the buffer. -/
theorem processBuffer_lines {done : List Bytes} (hdone : ∀ body ∈ done, InlineLine body)
    {part : Bytes} (hpart : part = [] ∨ parseCommand part = .needMore 0)
    (hclean : CleanBuffer (done.flatMap wire ++ part))
    (hsize : ∀ body later, done = body :: later →
      (later.flatMap wire ++ part).length ≤ maxBufferSize)
    (fuel : ℕ) (hfuel : (done.flatMap wire ++ part).length ≤ fuel) (s : σ) :
    (processBuffer k fuel (done.flatMap wire ++ part) s).1 = (serveLines k done s).1 ∧
      (processBuffer k fuel (done.flatMap wire ++ part) s).2.2 = (serveLines k done s).2 ∧
      ((serveLines k done s).1 = true →
        (processBuffer k fuel (done.flatMap wire ++ part) s).2.1 = part) := by
  induction done generalizing fuel s with
  | nil =>
    simp only [List.flatMap_nil, List.nil_append, serveLines]
    rcases fuel with _ | fuel
    · simp [processBuffer]
    · rw [processBuffer]
      by_cases hnil : part = []
      · simp [hnil]
      · have hmore := hpart.resolve_left hnil
        simp [hnil, hmore]
  | cons body done ih =>
    have hbody := hdone body List.mem_cons_self
    have hrest := hsize body done rfl
    have hwire : 0 < (wire body).length := by simp [wire]
    rw [List.flatMap_cons, List.append_assoc] at hfuel hclean ⊢
    rw [List.length_append] at hfuel
    obtain ⟨fuel, rfl⟩ : ∃ n, fuel = n + 1 := Nat.exists_eq_succ_of_ne_zero (by omega)
    have hstep := processBuffer_line k hbody hclean hrest fuel s
    have hclean' : CleanBuffer (done.flatMap wire ++ part) := by
      rw [wire_append] at hclean
      exact hclean.tail
    have hlater (t : σ) := ih (fun body' h => hdone body' (List.mem_cons_of_mem _ h)) hclean'
      (fun body' later h => by
        subst h
        rw [List.flatMap_cons, List.append_assoc, List.length_append] at hrest
        omega) fuel (by omega) t
    rw [hstep, serveLines]
    rcases parseCommand (wire body) with ⟨cmd, n⟩ | n | _
    · simp only
      by_cases hquit : cmd.name = ascii "QUIT"
      · rw [if_pos hquit, if_pos hquit]
        exact ⟨rfl, rfl, fun h => absurd h Bool.false_ne_true⟩
      rw [if_neg hquit, if_neg hquit]
      by_cases hserved : (k.serve cmd s).1 = true
      · rw [if_pos hserved, if_pos hserved]
        exact hlater _
      · rw [if_neg hserved, if_neg hserved]
        exact ⟨(Bool.eq_false_iff.mpr hserved).symm, rfl, fun h => absurd h hserved⟩
    · exact hlater s
    · exact ⟨rfl, rfl, fun h => absurd h Bool.false_ne_true⟩

/-! ### Reads -/

/-- What a connection has received while `todo` is not yet served: nothing more than a strict part
of the first line of `todo`. -/
def PartOfLine (buffer : Bytes) (todo : List Bytes) : Prop :=
  (todo = [] ∧ buffer = []) ∨
    ∃ body later, todo = body :: later ∧ buffer <+: wire body ∧ buffer ≠ wire body

/-- More bytes are needed of a strict part of a line. -/
theorem PartOfLine.parseCommand {buffer : Bytes} {todo : List Bytes} (h : PartOfLine buffer todo)
    (htodo : ∀ body ∈ todo, InlineLine body) :
    buffer = [] ∨ parseCommand buffer = .needMore 0 := by
  obtain ⟨-, hnil⟩ | ⟨body, later, rfl, hpart, hne⟩ := h
  · exact Or.inl hnil
  have hbody := htodo body List.mem_cons_self
  have hshort : buffer <+: body := (List.prefix_concat_iff.mp hpart).resolve_left hne
  rcases buffer with _ | ⟨c, s⟩
  · exact Or.inl rfl
  right
  have hfeed : LF ∉ c :: s := fun hmem => hbody.single (hshort.subset hmem)
  have hinline : (c :: s).head? ≠ some 42 := by
    obtain ⟨t, rfl⟩ := hshort
    exact hbody.inline
  have hlength := hshort.length_le.trans hbody.short
  have hnone : findCrlf (c :: s) 0 = none := by
    rw [findCrlf, List.drop_zero, crlfOffset_of_notMem hfeed, Option.map_none]
  rw [parseCommand_eq_parseInline (List.cons_ne_nil _ _) hinline, parseInline, hnone]
  simp only [if_neg hfeed, if_neg (not_lt.mpr hlength)]

/-- One read into a clean buffer: the lines it completes are served, and a part of the next one
stays in the buffer. -/
theorem processRead_lines {todo : List Bytes} (htodo : ∀ body ∈ todo, InlineLine body)
    {buffer bytes later : Bytes} (hbuffer : PartOfLine buffer todo)
    (hread : bytes.length ≤ readSize) (hclean : CleanBuffer (buffer ++ bytes))
    (hstream : buffer ++ (bytes ++ later) = todo.flatMap wire) (s : σ) :
    ∃ done rest part, todo = done ++ rest ∧ PartOfLine part rest ∧
      part ++ later = rest.flatMap wire ∧
      (processRead k bytes buffer s).1 = (serveLines k done s).1 ∧
      (processRead k bytes buffer s).2.2 = (serveLines k done s).2 ∧
      ((serveLines k done s).1 = true → (processRead k bytes buffer s).2.1 = part) := by
  have harrived : buffer ++ bytes <+: todo.flatMap wire :=
    ⟨later, by rw [List.append_assoc, hstream]⟩
  obtain ⟨done, rest, part, rfl, hsplit, hpart⟩ :=
    exists_frames_of_isPrefix (fun body _ => wire_ne_nil body) harrived
  have hpart' : PartOfLine part rest := hpart
  refine ⟨done, rest, part, rfl, hpart', ?_, ?_⟩
  · rw [← List.append_assoc, hsplit, List.flatMap_append, List.append_assoc] at hstream
    exact List.append_cancel_left hstream
  rw [hsplit] at hclean
  unfold processRead
  rw [hsplit]
  refine processBuffer_lines k (fun body h => htodo body (List.mem_append_left _ h))
    (hpart'.parseCommand fun body h => htodo body (List.mem_append_right _ h)) hclean
    (fun body behind hdone => ?_) _ le_rfl s
  -- behind the first line there are only bytes of this read
  subst hdone
  have hlt : buffer.length < (wire body).length := by
    obtain ⟨h, -⟩ | ⟨body', later', h, hpre, hne⟩ := hbuffer
    · exact absurd h (by simp)
    · obtain rfl : body = body' := (List.cons.inj h).1
      exact lt_of_le_of_ne hpre.length_le fun heq => hne (hpre.eq_of_length heq)
  have hlengths := congrArg List.length hsplit
  rw [List.flatMap_cons, List.append_assoc, List.length_append, List.length_append] at hlengths
  have hsize : readSize ≤ maxBufferSize := by decide
  omega

/-- The buffer is clean after every read. -/
def StepsClean : List Bytes → Bytes → σ → Prop
  | [], _, _ => True
  | bytes :: reads, buffer, s =>
    CleanBuffer (buffer ++ bytes) ∧
      ((processRead k bytes buffer s).1 = true →
        StepsClean reads (processRead k bytes buffer s).2.1 (processRead k bytes buffer s).2.2)

/-- A longer stream is served part by part. -/
theorem serveLines_append (lines lines' : List Bytes) (s : σ) :
    serveLines k (lines ++ lines') s =
      if (serveLines k lines s).1 then serveLines k lines' (serveLines k lines s).2
      else serveLines k lines s := by
  induction lines generalizing s with
  | nil => rfl
  | cons body lines ih =>
    rw [List.cons_append, serveLines, serveLines]
    rcases parseCommand (wire body) with ⟨cmd, n⟩ | n | _
    · simp only
      by_cases hquit : cmd.name = ascii "QUIT"
      · simp only [if_pos hquit, Bool.false_eq_true, if_false]
      simp only [if_neg hquit]
      by_cases hserved : (k.serve cmd s).1 = true
      · simp only [hserved, if_true]
        exact ih _
      · simp only [hserved, Bool.false_eq_true, if_false]
    · exact ih s
    · simp only [Bool.false_eq_true, if_false]

/-- Any number of reads: as long as the buffer is clean, the lines are served one by one. -/
theorem processReads_lines {reads todo : List Bytes} (htodo : ∀ body ∈ todo, InlineLine body)
    {buffer : Bytes} (hbuffer : PartOfLine buffer todo)
    (hreads : ∀ bytes ∈ reads, bytes.length ≤ readSize) {s : σ}
    (hclean : StepsClean k reads buffer s) (hstream : buffer ++ reads.flatten = todo.flatMap wire) :
    (processReads k reads buffer s).1 = (serveLines k todo s).1 ∧
      (processReads k reads buffer s).2.2 = (serveLines k todo s).2 := by
  induction reads generalizing todo buffer s with
  | nil =>
    -- nothing is to come, so nothing can be missing
    obtain ⟨rfl, rfl⟩ | ⟨body, later, rfl, hpre, hne⟩ := hbuffer
    · exact ⟨rfl, rfl⟩
    · rw [List.flatten_nil, List.append_nil, List.flatMap_cons] at hstream
      refine absurd (hpre.eq_of_length ?_) hne
      have hlength := congrArg List.length hstream
      rw [List.length_append] at hlength
      exact le_antisymm hpre.length_le (by omega)
  | cons bytes reads ih =>
    rw [List.flatten_cons] at hstream
    obtain ⟨hnow, hlater⟩ := hclean
    obtain ⟨done, rest, part, rfl, hpart, hrest, hkeep, hstate, hleft⟩ :=
      processRead_lines k htodo hbuffer (hreads bytes List.mem_cons_self) hnow hstream s
    rw [processReads, serveLines_append]
    by_cases hserved : (serveLines k done s).1 = true
    · have hnext := hlater (hkeep.trans hserved)
      rw [hleft hserved, hstate] at hnext
      rw [if_pos (hkeep.trans hserved), if_pos hserved, hleft hserved, hstate]
      exact ih (fun body h => htodo body (List.mem_append_right _ h)) hpart
        (fun bytes h => hreads bytes (List.mem_cons_of_mem _ h)) hnext hrest
    · rw [if_neg (hkeep ▸ hserved), if_neg hserved]
      exact ⟨hkeep, hstate⟩

end Lines

/-! ### One kind of line end after the other -/

/-- No line with `\r\n` follows a line with a bare newline. -/
def Unmixed (lines : List Bytes) : Prop :=
  lines.Pairwise fun body later => later.getLast? = some CR → body.getLast? = some CR

/-- There is no `\r\n` in lines with bare newlines. -/
theorem not_infix_lines {lines : List Bytes} (hsingle : ∀ body ∈ lines, LF ∉ body)
    (hbare : ∀ body ∈ lines, body.getLast? ≠ some CR) : ¬ CRLF <:+: lines.flatMap wire := by
  induction lines with
  | nil => decide
  | cons body lines ih =>
    intro h
    rw [List.flatMap_cons, wire_append] at h
    exact ih (fun body' h => hsingle body' (List.mem_cons_of_mem _ h))
      (fun body' h => hbare body' (List.mem_cons_of_mem _ h))
      (infix_rest (hsingle body List.mem_cons_self) (hbare body List.mem_cons_self) h)

/-- What has arrived of such a stream is clean. -/
theorem cleanBuffer_of_unmixed {lines : List Bytes} (hsingle : ∀ body ∈ lines, LF ∉ body)
    (hunmixed : Unmixed lines) {arrived : Bytes} (h : arrived <+: lines.flatMap wire) :
    CleanBuffer arrived := by
  rintro x y rfl hx hinner
  induction lines generalizing x with
  | nil => exact append_newline_ne_nil x y (List.prefix_nil.mp h)
  | cons body lines ih =>
    obtain ⟨t, ht⟩ := h
    obtain ⟨hlater, hunmixed⟩ := List.pairwise_cons.mp hunmixed
    have hbody := hsingle body List.mem_cons_self
    have hsingle' : ∀ body' ∈ lines, LF ∉ body' := fun body' h =>
      hsingle body' (List.mem_cons_of_mem _ h)
    rw [List.flatMap_cons, wire_append] at ht
    by_cases hfeed : LF ∈ x
    · -- the newline ends a later line
      obtain ⟨first, x', rfl, hfirst⟩ := List.eq_append_cons_of_mem hfeed
      have hsplit : first ++ LF :: (x' ++ LF :: y ++ t) = body ++ LF :: lines.flatMap wire := by
        rw [← ht]
        simp
      obtain ⟨-, hrest⟩ := first_newline_unique hfirst hbody hsplit
      refine ih hsingle' hunmixed x' ⟨t, hrest⟩ fun hlast => hx ?_
      rw [List.getLast?_append, List.getLast?_cons, hlast]
      rfl
    · -- the newline ends the first line, and all later lines have bare newlines
      rw [List.append_assoc, List.cons_append] at ht
      obtain ⟨rfl, hrest⟩ := first_newline_unique hfeed hbody ht
      refine not_infix_lines hsingle' (fun body' h hlast => hx (hlater body' h hlast)) ?_
      rw [← hrest]
      exact hinner.trans (List.prefix_append y t).isInfix

/-- However such a stream is cut into reads, the buffer is clean after every read. -/
theorem stepsClean_of_unmixed {σ : Type} (k : Consumer σ) {reads todo : List Bytes}
    (htodo : ∀ body ∈ todo, InlineLine body) (hunmixed : Unmixed todo) {buffer : Bytes}
    (hbuffer : PartOfLine buffer todo) (hreads : ∀ bytes ∈ reads, bytes.length ≤ readSize)
    (hstream : buffer ++ reads.flatten = todo.flatMap wire) (s : σ) :
    StepsClean k reads buffer s := by
  induction reads generalizing todo buffer s with
  | nil => trivial
  | cons bytes reads ih =>
    rw [List.flatten_cons] at hstream
    have harrived : buffer ++ bytes <+: todo.flatMap wire :=
      ⟨reads.flatten, by rw [List.append_assoc, hstream]⟩
    have hnow := cleanBuffer_of_unmixed (fun body h => (htodo body h).single) hunmixed harrived
    refine ⟨hnow, fun hkept => ?_⟩
    obtain ⟨done, rest, part, rfl, hpart, hrest, hkeep, -, hleft⟩ :=
      processRead_lines k htodo hbuffer (hreads bytes List.mem_cons_self) hnow hstream s
    rw [hleft (hkeep.symm.trans hkept)]
    exact ih (fun body h => htodo body (List.mem_append_right _ h))
      (List.pairwise_append.mp hunmixed).2.1 hpart
      (fun bytes h => hreads bytes (List.mem_cons_of_mem _ h)) hrest _

/-- **Inline commands and newlines.**  A command of a buffer with a newline ends at the first one if
and only if this newline is found.  A stream of lines is served line by line, whatever the consumer
and however the stream is cut into reads, if no read brings a `\r\n` behind a bare newline into the
buffer; in particular if no line with `\r\n` follows a line with a bare newline. -/
theorem inline_lines {buffer : Bytes} (hinline : buffer.head? ≠ some 42) (hline : LF ∈ buffer)
    {σ : Type} (k : Consumer σ) (s : σ) {lines reads : List Bytes}
    (hlines : ∀ body ∈ lines, InlineLine body)
    (hreads : ∀ bytes ∈ reads, 1 ≤ bytes.length ∧ bytes.length ≤ readSize)
    (hcut : reads.flatten = lines.flatMap wire) :
    (EndsAtNewline buffer ↔ NewlineFound buffer) ∧
      (StepsClean k reads [] s ∨ Unmixed lines →
        (processReads k reads [] s).1 = (serveLines k lines s).1 ∧
          (processReads k reads [] s).2.2 = (serveLines k lines s).2) := by
  refine ⟨endsAtNewline_iff hinline hline, fun hclean => ?_⟩
  have hsizes : ∀ bytes ∈ reads, bytes.length ≤ readSize := fun bytes h => (hreads bytes h).2
  have hbuffer : PartOfLine [] lines := by
    rcases lines with _ | ⟨body, later⟩
    · exact Or.inl ⟨rfl, rfl⟩
    · exact Or.inr ⟨body, later, rfl, List.nil_prefix, (wire_ne_nil body).symm⟩
  have hsteps : StepsClean k reads [] s :=
    hclean.elim id fun hunmixed => stepsClean_of_unmixed k hlines hunmixed hbuffer hsizes hcut s
  exact processReads_lines k hlines hbuffer hsizes hsteps hcut

/-- A line with `\r\n` and two with bare newlines, one of them blank, in three reads. -/
theorem inline_lines_get_ping :
    EndsAtNewline (ascii "get a\r\n\nPING\n") ∧
      (processReads recorder [ascii "get a\r", ascii "\n\nPI", ascii "NG\n"] [] []).2.2 =
        [some ⟨ascii "GET", [ascii "a"]⟩, some ⟨ascii "PING", []⟩] := by
  have hlines : ∀ body ∈ [ascii "get a\r", [], ascii "PING"], InlineLine body := by
    intro body hbody
    simp only [List.mem_cons, List.not_mem_nil, or_false] at hbody
    rcases hbody with rfl | rfl | rfl <;> exact ⟨by decide, by decide, by decide⟩
  have hunmixed : Unmixed [ascii "get a\r", [], ascii "PING"] := by
    simp only [Unmixed]
    decide
  have hfound : NewlineFound (ascii "get a\r\n\nPING\n") :=
    Or.inl ⟨ascii "get a", ascii "\nPING\n", by decide, by decide⟩
  have hcut : [ascii "get a\r", ascii "\n\nPI", ascii "NG\n"].flatten =
      [ascii "get a\r", [], ascii "PING"].flatMap wire := by decide
  have hinline : (ascii "get a\r\n\nPING\n").head? ≠ some 42 := by decide
  have h := inline_lines hinline (by decide) recorder [] hlines (by decide) hcut
  exact ⟨h.1.mpr hfound, (h.2 (Or.inr hunmixed)).2⟩

/-- `PING` with a bare newline and `GET a` with `\r\n`, in one read, are served as one command; in
two reads they are served as two. -/
theorem bare_newline_joins_lines :
    let buffer := ascii "PING\nGET a\r\n"
    ¬ EndsAtNewline buffer ∧
      (processReads recorder [buffer] [] []).2.2 =
        [some ⟨ascii "PING", [ascii "GET", ascii "a"]⟩] ∧
      (processReads recorder [ascii "PING\n", ascii "GET a\r\n"] [] []).2.2 =
        [some ⟨ascii "PING", []⟩, some ⟨ascii "GET", [ascii "a"]⟩] := by
  intro buffer
  refine ⟨fun h => ?_, by decide +kernel, by decide +kernel⟩
  have hverdict := h.verdict
  revert hverdict
  decide +kernel

end MyRedis
