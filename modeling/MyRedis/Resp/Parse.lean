import MyRedis.Foundation.ByteString

/-!
# Reading commands

The tokenizer of `parser.cpp` and the first half of `resp.cpp`: commands arrive as RESP arrays of
bulk strings or as inline text.  A parse either yields a command and the number of bytes it took,
asks for more bytes, or reports a protocol error.

Positions in the buffer are natural numbers, as in the source; `std::string::npos` is `none`.  A
`std::string` index that is checked before it is used is an optional lookup.
-/

namespace MyRedis

open Foundation

/-- A parsed command: its name in upper case and its arguments. -/
structure Command where
  /-- The name. -/
  name : Bytes
  /-- The arguments. -/
  args : List Bytes
deriving DecidableEq

namespace Parser

/-! ### The tokenizer for inline commands -/

/-- An escape sequence of a double-quoted string. -/
def escape (c : UInt8) : Bytes :=
  if c = 34 then [34]
  else if c = 92 then [92]
  else if c = 110 then [LF]
  else if c = 116 then [9]
  else [92, c]

/-- The rest of a double-quoted string, and what follows its closing quotation mark.  A backslash
that is the last byte stands for itself. -/
def readDoubleQuoted : Bytes → Bytes × Bytes
  | [] => ([], [])
  | [c] => if c = 34 then ([], []) else ([c], [])
  | c :: c' :: s =>
    if c = 34 then ([], c' :: s)
    else if c = 92 then (readDoubleQuoted s).map (escape c' ++ ·) id
    else (readDoubleQuoted (c' :: s)).map (c :: ·) id

/-- The rest of a single-quoted string, and what follows its closing quotation mark. -/
def readSingleQuoted (s : Bytes) : Bytes × Bytes :=
  let parts := s.span fun c => c != 39
  (parts.1, parts.2.tail)

/-- One token of a text that does not start with white space. -/
def readToken (c : UInt8) (s : Bytes) : Bytes × Bytes :=
  if c = 34 then readDoubleQuoted s
  else if c = 39 then readSingleQuoted s
  else (c :: s).span fun c => !isSpace c

/-- The loop of `tokenize`.  Every round takes at least one byte, so `fuel` need not exceed the
length of the text. -/
def tokenizeLoop : ℕ → Bytes → List Bytes
  | 0, _ => []
  | fuel + 1, input =>
    match input.dropWhile isSpace with
    | [] => []
    | c :: s => (readToken c s).1 :: tokenizeLoop fuel (readToken c s).2

/-- `Parser::tokenize`. -/
def tokenize (input : Bytes) : List Bytes :=
  tokenizeLoop input.length input

/-- The command made of a list of parts; `none` for the empty list. -/
def commandOf : List Bytes → Option Command
  | [] => none
  | name :: args => some ⟨name.map toUpper, args⟩

/-- `Parser::parse`; `none` is the failure `ERR empty command`. -/
def parse (input : Bytes) : Option Command :=
  commandOf (tokenize input)

end Parser

namespace Resp

/-! ### The parser of the protocol -/

/-- The result of a parse. -/
inductive RespParseResult where
  /-- A command, and the number of bytes it took. -/
  | ok (command : Command) (bytesConsumed : ℕ)
  /-- More bytes are needed; empty inline commands are consumed. -/
  | needMore (bytesConsumed : ℕ)
  /-- A protocol error. -/
  | protocolError
deriving DecidableEq

/-- The position of the first `\r\n` of a text. -/
def crlfOffset : Bytes → Option ℕ
  | [] => none
  | c :: s => if c = CR ∧ s.head? = some LF then some 0 else (crlfOffset s).map (· + 1)

/-- The position of the first `\r\n` at or behind `start`. -/
def findCrlf (buffer : Bytes) (start : ℕ) : Option ℕ :=
  (crlfOffset (buffer.drop start)).map (start + ·)

/-- The result of the loop over the elements of a command. -/
inductive ElementsResult where
  | done (parts : List Bytes) (pos : ℕ)
  | needMore
  | protocolError
deriving DecidableEq

/-- The loop of `parse_resp_array` over the elements: `count` of them are still to be read, from the
position `pos` on. -/
def parseElements (buffer : Bytes) : ℕ → ℕ → List Bytes → ElementsResult
  | 0, pos, parts => .done parts pos
  | count + 1, pos, parts =>
    if buffer.length ≤ pos then .needMore
    else if buffer[pos]? ≠ some 36 then .protocolError
    else
      match findCrlf buffer pos with
      | none => .needMore
      | some crlf =>
        match stoi ((buffer.drop (pos + 1)).take (crlf - pos - 1)) with
        | none => .protocolError
        | some len =>
          if len < 0 then parseElements buffer count (crlf + 2) (parts ++ [[]])
          else
            let dataStart := crlf + 2
            let len := len.toInt.toNat
            if buffer.length < dataStart + len + 2 then .needMore
            else if buffer[dataStart + len]? ≠ some CR ∨ buffer[dataStart + len + 1]? ≠ some LF then
              .protocolError
            else
              parseElements buffer count (dataStart + len + 2)
                (parts ++ [(buffer.drop dataStart).take len])

/-- The end of `parse_resp_array`: the command made of the elements, if all of them were read. -/
def buildCommand : ElementsResult → RespParseResult
  | .needMore => .needMore 0
  | .protocolError => .protocolError
  | .done parts pos =>
    match Parser.commandOf parts with
    | none => .protocolError
    | some cmd => .ok cmd pos

/-- `Resp::parse_resp_array`. -/
def parseRespArray (buffer : Bytes) : RespParseResult :=
  match findCrlf buffer 0 with
  | none => .needMore 0
  | some crlf =>
    match stoi ((buffer.drop 1).take (crlf - 1)) with
    | none => .protocolError
    | some count =>
      if count ≤ 0 then .protocolError
      else buildCommand (parseElements buffer count.toInt.toNat (crlf + 2) [])

/-- The longest inline command without an end of line. -/
def maxInlineLength : ℕ := 64 * 1024

/-- An inline command whose line has been found: the line, and the bytes it takes. -/
def parseLine (line : Bytes) (consume : ℕ) : RespParseResult :=
  match line.dropWhile fun c => c = 32 || c = 9 || c = CR with
  | [] => .needMore consume
  | c :: s =>
    match Parser.parse (c :: s) with
    | none => .protocolError
    | some cmd => .ok cmd consume

/-- `Resp::parse_inline`. -/
def parseInline (buffer : Bytes) : RespParseResult :=
  match findCrlf buffer 0 with
  | some crlf => parseLine (buffer.take crlf) (crlf + 2)
  | none =>
    if LF ∈ buffer then
      let newline := buffer.idxOf LF
      parseLine (buffer.take newline) (newline + 1)
    else if maxInlineLength < buffer.length then .protocolError
    else .needMore 0

/-- `Resp::parse_command`. -/
def parseCommand (buffer : Bytes) : RespParseResult :=
  match buffer with
  | [] => .needMore 0
  | c :: _ => if c = 42 then parseRespArray buffer else parseInline buffer

/-! ### Progress -/

/-- A line end is found behind the place where the search starts. -/
theorem le_of_findCrlf {buffer : Bytes} {start crlf : ℕ} (h : findCrlf buffer start = some crlf) :
    start ≤ crlf := by
  obtain ⟨n, -, rfl⟩ := Option.map_eq_some_iff.mp h
  exact Nat.le_add_right start n

/-- The loop over the elements does not go back. -/
theorem le_of_parseElements {buffer : Bytes} {count pos pos' : ℕ} {parts parts' : List Bytes}
    (h : parseElements buffer count pos parts = .done parts' pos') : pos ≤ pos' := by
  induction count generalizing pos parts with
  | zero =>
    obtain ⟨-, rfl⟩ := ElementsResult.done.inj h
    exact le_rfl
  | succ count ih =>
    rw [parseElements] at h
    split at h
    · cases h
    split at h
    · cases h
    split at h
    · cases h
    rename_i crlf hcrlf
    have hle := le_of_findCrlf hcrlf
    split at h
    · cases h
    split at h
    · have hrest := ih h
      omega
    simp only at h
    split at h
    · cases h
    split at h
    · cases h
    have hrest := ih h
    omega

/-- A command takes at least one byte. -/
theorem pos_of_parseCommand {buffer : Bytes} {cmd : Command} {n : ℕ}
    (h : parseCommand buffer = .ok cmd n) : 0 < n := by
  have hline {line : Bytes} {consume : ℕ} (hconsume : 0 < consume)
      (h : parseLine line consume = .ok cmd n) : 0 < n := by
    unfold parseLine at h
    split at h
    · cases h
    split at h
    · cases h
    obtain ⟨-, rfl⟩ := RespParseResult.ok.inj h
    exact hconsume
  unfold parseCommand at h
  split at h
  · cases h
  split at h
  · unfold parseRespArray at h
    split at h
    · cases h
    split at h
    · cases h
    split at h
    · cases h
    rename_i crlf _ _ _ _
    generalize helements : parseElements _ _ _ _ = result at h
    cases result with
    | needMore | protocolError => cases h
    | done parts pos =>
      have hle := le_of_parseElements helements
      rw [buildCommand] at h
      split at h
      · cases h
      obtain ⟨-, rfl⟩ := RespParseResult.ok.inj h
      omega
  · unfold parseInline at h
    split at h
    · exact hline (Nat.succ_pos _) h
    split at h
    · exact hline (Nat.succ_pos _) h
    split at h
    · cases h
    · cases h

end Resp

end MyRedis
