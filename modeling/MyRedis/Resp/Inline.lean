import MyRedis.Resp.Encoding

/-!
# Inline commands

A command can also be sent as a line of text.  In its safest form every part is put between double
quotes, and the bytes that would end the quotation or the line, the backslash and the tabulator are
escaped.  The tokenizer undoes exactly this, so that the line and the RESP array of the same parts
are the same command (`parseCommand_inline_and_array`).
-/

namespace MyRedis

open Foundation

namespace Resp

/-! ### The inline form -/

/-- A byte of a part: four of them are escaped. -/
def escapeByte (c : UInt8) : Bytes :=
  if c = 34 then [92, 34]
  else if c = 92 then [92, 92]
  else if c = LF then [92, 110]
  else if c = 9 then [92, 116]
  else [c]

/-- A part between double quotes. -/
def inlineWord (part : Bytes) : Bytes := 34 :: (part.flatMap escapeByte ++ [34])

/-- The parts, separated by single spaces. -/
def inlineWords : List Bytes → Bytes
  | [] => []
  | [part] => inlineWord part
  | part :: parts => inlineWord part ++ 32 :: inlineWords parts

/-- The inline form of a command, given as the list of its name and its arguments. -/
def encodeInline (parts : List Bytes) : Bytes := inlineWords parts ++ CRLF

/-- The text of the first part, and what separates it from the others. -/
theorem inlineWords_cons (part : Bytes) (parts : List Bytes) :
    ∃ gap, (gap = [] ∨ gap = [32]) ∧
      inlineWords (part :: parts) = inlineWord part ++ (gap ++ inlineWords parts) := by
  rcases parts with _ | ⟨next, parts⟩
  · exact ⟨[], Or.inl rfl, by simp [inlineWords]⟩
  · exact ⟨[32], Or.inr rfl, rfl⟩

/-- The text is at least as long as the list. -/
theorem length_le_inlineWords (parts : List Bytes) : parts.length ≤ (inlineWords parts).length := by
  induction parts with
  | nil => exact le_rfl
  | cons part parts ih =>
    obtain ⟨gap, -, heq⟩ := inlineWords_cons part parts
    rw [heq, List.length_cons, List.length_append, List.length_append, inlineWord, List.length_cons]
    omega

/-- There is no line feed in an escaped byte. -/
theorem notMem_escapeByte (c : UInt8) : LF ∉ escapeByte c := by
  unfold escapeByte
  split_ifs with _ _ hc _
  · decide
  · decide
  · decide
  · decide
  · rw [List.mem_singleton]
    exact Ne.symm hc

/-- There is no line feed in the text. -/
theorem notMem_inlineWords (parts : List Bytes) : LF ∉ inlineWords parts := by
  induction parts with
  | nil => exact List.not_mem_nil
  | cons part parts ih =>
    have hword : LF ∉ inlineWord part := by
      simp only [inlineWord, List.mem_cons, List.mem_append, List.mem_flatMap, List.not_mem_nil,
        or_false, not_or, not_exists, not_and]
      exact ⟨by decide, fun c _ => notMem_escapeByte c, by decide⟩
    obtain ⟨gap, hgap, heq⟩ := inlineWords_cons part parts
    rw [heq, List.mem_append, List.mem_append, not_or, not_or]
    refine ⟨hword, ?_, ih⟩
    rcases hgap with rfl | rfl <;> decide

end Resp

namespace Parser

/-! ### The tokenizer -/

/-- The closing quotation mark. -/
theorem readDoubleQuoted_close (rest : Bytes) : readDoubleQuoted (34 :: rest) = ([], rest) := by
  rcases rest with _ | ⟨c, rest⟩ <;> rfl

/-- A byte that is neither a quotation mark nor a backslash stands for itself. -/
theorem readDoubleQuoted_plain {c : UInt8} (hquote : c ≠ 34) (hbackslash : c ≠ 92) (s : Bytes) :
    readDoubleQuoted (c :: s) = (readDoubleQuoted s).map (c :: ·) id := by
  rcases s with _ | ⟨c', s⟩
  · simp [readDoubleQuoted, hquote]
  · rw [readDoubleQuoted, if_neg hquote, if_neg hbackslash]

/-- A backslash and the byte behind it are an escape sequence. -/
theorem readDoubleQuoted_escape (c : UInt8) (s : Bytes) :
    readDoubleQuoted (92 :: c :: s) = (readDoubleQuoted s).map (escape c ++ ·) id := rfl

/-- An escaped byte is read as the byte. -/
theorem readDoubleQuoted_escapeByte (c : UInt8) (s : Bytes) :
    readDoubleQuoted (Resp.escapeByte c ++ s) = (readDoubleQuoted s).map (c :: ·) id := by
  unfold Resp.escapeByte
  split_ifs with hquote hbackslash hfeed htab
  · rw [hquote]
    exact readDoubleQuoted_escape 34 s
  · rw [hbackslash]
    exact readDoubleQuoted_escape 92 s
  · rw [hfeed]
    exact readDoubleQuoted_escape 110 s
  · rw [htab]
    exact readDoubleQuoted_escape 116 s
  · exact readDoubleQuoted_plain hquote hbackslash s

/-- What stands between the quotation marks is read back. -/
theorem readDoubleQuoted_word (part rest : Bytes) :
    readDoubleQuoted (part.flatMap Resp.escapeByte ++ 34 :: rest) = (part, rest) := by
  induction part with
  | nil => exact readDoubleQuoted_close rest
  | cons c part ih =>
    rw [List.flatMap_cons, List.append_assoc, readDoubleQuoted_escapeByte, ih]
    rfl

/-- The loop reads the parts back one by one. -/
theorem tokenizeLoop_inlineWords {parts : List Bytes} {fuel : ℕ} (hfuel : parts.length ≤ fuel)
    {gap : Bytes} (hgap : gap = [] ∨ gap = [32]) :
    tokenizeLoop fuel (gap ++ Resp.inlineWords parts) = parts := by
  induction parts generalizing fuel gap with
  | nil =>
    rcases fuel with _ | fuel
    · rfl
    · rcases hgap with rfl | rfl <;> rfl
  | cons part parts ih =>
    obtain ⟨fuel, rfl⟩ := Nat.exists_eq_add_of_le' (Nat.le_of_add_left_le hfuel)
    obtain ⟨gap', hgap', heq⟩ := Resp.inlineWords_cons part parts
    have hskip : (gap ++ Resp.inlineWords (part :: parts)).dropWhile isSpace =
        34 :: (part.flatMap Resp.escapeByte ++ 34 :: (gap' ++ Resp.inlineWords parts)) := by
      rw [heq]
      rcases hgap with rfl | rfl <;> simp [Resp.inlineWord, isSpace]
    have hread : readToken 34
        (part.flatMap Resp.escapeByte ++ 34 :: (gap' ++ Resp.inlineWords parts)) =
          (part, gap' ++ Resp.inlineWords parts) := by
      rw [readToken, if_pos rfl, readDoubleQuoted_word]
    rw [tokenizeLoop, hskip]
    simp only [hread]
    rw [ih (Nat.le_of_succ_le_succ hfuel) hgap']

end Parser

namespace Resp

/-- The inline form of a command is read from the front of the buffer. -/
theorem parseCommand_encodeInline (name : Bytes) (args : List Bytes) (rest : Bytes) :
    parseCommand (encodeInline (name :: args) ++ rest) =
      .ok ⟨name.map toUpper, args⟩ (encodeInline (name :: args)).length := by
  obtain ⟨gap, -, heq⟩ := inlineWords_cons name args
  obtain ⟨line, hline⟩ : ∃ line, inlineWords (name :: args) = 34 :: line := ⟨_, heq⟩
  have hcrlf : ¬ CRLF <:+: inlineWords (name :: args) := by
    intro h
    exact notMem_inlineWords (name :: args) (h.subset (by simp [CRLF]))
  have hfind : findCrlf (encodeInline (name :: args) ++ rest) 0 =
      some (inlineWords (name :: args)).length := by
    rw [findCrlf, List.drop_zero, encodeInline, List.append_assoc, crlfOffset_line hcrlf,
      Option.map_some, Nat.zero_add]
  have htokens : Parser.tokenize (inlineWords (name :: args)) = name :: args :=
    Parser.tokenizeLoop_inlineWords (length_le_inlineWords _) (Or.inl rfl)
  have hparse : Parser.parse (34 :: line) = some ⟨name.map toUpper, args⟩ := by
    rw [← hline, Parser.parse, htokens, Parser.commandOf]
  have hconsume : (inlineWords (name :: args)).length + 2 =
      (encodeInline (name :: args)).length := by
    simp [encodeInline, CRLF]
  have hbegin : encodeInline (name :: args) ++ rest = 34 :: (line ++ CRLF ++ rest) := by
    rw [encodeInline, hline]
    rfl
  have htake : (encodeInline (name :: args) ++ rest).take (inlineWords (name :: args)).length =
      34 :: line := by
    rw [encodeInline, List.append_assoc, List.take_left, hline]
  have hinline : parseCommand (encodeInline (name :: args) ++ rest) =
      parseInline (encodeInline (name :: args) ++ rest) := by
    rw [hbegin]
    rfl
  rw [hinline, parseInline, hfind]
  simp only [htake, hconsume, parseLine]
  have htrim : (34 :: line).dropWhile (fun c => c = 32 || c = 9 || c = CR) = 34 :: line := rfl
  rw [htrim]
  simp only [hparse]

/-- **Inline and RESP forms agree.**  For every list of byte strings that can be sent as a command,
whatever bytes follow, its inline form and its RESP array are read as the same command, the one with
the first string in capital letters as its name and the others as its arguments, and each is
consumed exactly. -/
theorem parseCommand_inline_and_array {name : Bytes} {args : List Bytes}
    (h : Sendable (name :: args)) (rest rest' : Bytes) :
    parseCommand (encodeInline (name :: args) ++ rest) =
        .ok ⟨name.map toUpper, args⟩ (encodeInline (name :: args)).length ∧
      parseCommand (encode (name :: args) ++ rest') =
        .ok ⟨name.map toUpper, args⟩ (encode (name :: args)).length :=
  ⟨parseCommand_encodeInline name args rest, parseCommand_encode h rest'⟩

/-- A command with an empty string and one of a carriage return, a line feed, a quotation mark and a
backslash. -/
theorem parseCommand_inline_and_array_set :
    let parts := [ascii "set", [], ascii "\r\n\"\\"]
    let cmd : Command := ⟨ascii "SET", [[], ascii "\r\n\"\\"]⟩
    encodeInline parts = ascii "\"set\" \"\" \"\r\\n\\\"\\\\\"\r\n" ∧
      parseCommand (encodeInline parts ++ ascii "GET") = .ok cmd 20 ∧
        parseCommand (encode parts ++ ascii "GET") = .ok cmd 29 := by
  intro parts cmd
  have hparts : Sendable parts := ⟨by decide, by decide, by decide⟩
  exact ⟨by decide, parseCommand_inline_and_array hparts (ascii "GET") (ascii "GET")⟩

/-! ### Lines as they are typed -/

/-- What a user can type as a command: one line that is not blank. -/
structure CommandLine (line : Bytes) : Prop where
  /-- There is no line feed in it. -/
  single : LF ∉ line
  /-- It does not consist of white space only. -/
  nonblank : ∃ c ∈ line, isSpace c = false

/-- The line looks like the header of an array with elements. -/
def AnnouncesArray (line : Bytes) : Prop :=
  ∃ tail n, line = 42 :: tail ∧ stoi tail = some n ∧ 0 < n

/-- A byte that is not skipped is left. -/
theorem mem_dropWhile {p : UInt8 → Bool} {c : UInt8} {s : Bytes} (hc : c ∈ s) (hp : p c = false) :
    c ∈ s.dropWhile p := by
  rw [← List.takeWhile_append_dropWhile (p := p) (l := s), List.mem_append] at hc
  refine hc.resolve_left fun htake => ?_
  rw [List.mem_takeWhile_imp htake] at hp
  cases hp

/-- A line that is not blank has a command. -/
theorem exists_parse_of_nonblank {line : Bytes} (h : ∃ c ∈ line, isSpace c = false) :
    ∃ cmd, Parser.parse line = some cmd := by
  obtain ⟨c, hc, hspace⟩ := h
  obtain ⟨fuel, hfuel⟩ := Nat.exists_eq_succ_of_ne_zero (List.length_pos_of_mem hc).ne'
  obtain ⟨first, rest, hcons⟩ :=
    List.exists_cons_of_ne_nil (List.ne_nil_of_mem (mem_dropWhile hc hspace))
  unfold Parser.parse Parser.tokenize
  rw [hfuel, Parser.tokenizeLoop, hcons]
  exact ⟨_, rfl⟩

variable {line : Bytes}

/-- The end of the line is found. -/
theorem findCrlf_wire (hline : LF ∉ line) : findCrlf (line ++ CRLF) 0 = some line.length := by
  have hcrlf : ¬ CRLF <:+: line := fun h => hline (h.subset (by simp [CRLF]))
  have hoffset := crlfOffset_line hcrlf []
  rw [List.append_nil] at hoffset
  rw [findCrlf, List.drop_zero, hoffset, Option.map_some, Nat.zero_add]

/-- A line that does not announce an array is read as a command, or refused. -/
theorem parseCommand_wire (hline : CommandLine line) (harray : ¬ AnnouncesArray line) :
    parseCommand (line ++ CRLF) = .protocolError ∨
      ∃ cmd, parseCommand (line ++ CRLF) = .ok cmd (line ++ CRLF).length := by
  have hfind := findCrlf_wire hline.single
  obtain ⟨c, tail, hcons⟩ : ∃ c tail, line = c :: tail := by
    obtain ⟨c, hc, -⟩ := hline.nonblank
    exact List.exists_cons_of_ne_nil (List.ne_nil_of_mem hc)
  by_cases hc : c = 42
  · -- the number behind the `*` is not positive, or not a number
    have hparse : parseCommand (line ++ CRLF) = parseRespArray (line ++ CRLF) := by
      rw [hcons, List.cons_append, parseCommand, if_pos hc]
    have hnumber : ((line ++ CRLF).drop 1).take (line.length - 1) = tail := by
      rw [hcons]
      exact List.take_left
    left
    rw [hparse, parseRespArray, hfind]
    simp only [hnumber]
    cases hstoi : stoi tail with
    | none => rfl
    | some n =>
      have hn : n ≤ 0 := by
        by_contra hpos
        exact harray ⟨tail, n, by rw [hcons, hc], hstoi, Int32.not_le.mp hpos⟩
      simp only [if_pos hn]
  · have hparse : parseCommand (line ++ CRLF) = parseInline (line ++ CRLF) := by
      rw [hcons, List.cons_append, parseCommand, if_neg hc]
    have htrim : ∃ c ∈ line.dropWhile (fun c => c = 32 || c = 9 || c = CR),
        isSpace c = false := by
      obtain ⟨c', hc', hspace⟩ := hline.nonblank
      refine ⟨c', mem_dropWhile hc' ?_, hspace⟩
      by_contra hblank
      simp only [Bool.not_eq_false, Bool.or_eq_true, decide_eq_true_eq] at hblank
      rcases hblank with (rfl | rfl) | rfl <;> exact absurd hspace (by decide)
    obtain ⟨cmd, hcmd⟩ := exists_parse_of_nonblank htrim
    have hlength : line.length + 2 = (line ++ CRLF).length := by simp [CRLF]
    right
    refine ⟨cmd, ?_⟩
    rw [hparse, parseInline, hfind]
    simp only [List.take_left, parseLine, hlength]
    obtain ⟨c', hc', -⟩ := htrim
    obtain ⟨first, rest, hrest⟩ := List.exists_cons_of_ne_nil (List.ne_nil_of_mem hc')
    rw [hrest] at hcmd ⊢
    simp only [hcmd]

/-- Of a part of a line more bytes are needed, unless it is refused because it is too long. -/
theorem parseCommand_part {part : Bytes} (hline : LF ∉ line) (hpart : part <+: line ++ CRLF)
    (hne : part ≠ line ++ CRLF) :
    parseCommand part = .needMore 0 ∨
      parseCommand part = .protocolError ∧ maxInlineLength ≤ line.length := by
  have hsplit : line ++ CRLF = (line ++ [CR]) ++ [LF] := by simp [CRLF]
  rw [hsplit] at hpart hne
  have hshort : part <+: line ++ [CR] := (List.prefix_concat_iff.mp hpart).resolve_left hne
  have hfeed : LF ∉ part := by
    intro hmem
    rcases List.mem_append.mp (hshort.subset hmem) with hmem | hmem
    · exact hline hmem
    · exact absurd hmem (by decide)
  have hnone : findCrlf part 0 = none := by
    rw [findCrlf, List.drop_zero, crlfOffset_of_notMem hfeed, Option.map_none]
  rcases part with _ | ⟨c, s⟩
  · exact Or.inl rfl
  rw [parseCommand]
  split
  · left
    rw [parseRespArray, hnone]
  · rw [parseInline, hnone]
    simp only [if_neg hfeed]
    split
    · rename_i hlong
      have hlength := hshort.length_le
      rw [List.length_append, List.length_singleton] at hlength
      exact Or.inr ⟨rfl, by omega⟩
    · exact Or.inl rfl

end Resp

end MyRedis
