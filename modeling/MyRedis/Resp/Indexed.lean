import MyRedis.Foundation.Indexing
import MyRedis.Resp.Finality
import MyRedis.Resp.Inline

/-!
# The parsers, index by index

`Resp.parseCommand` reads its buffer as a list.  The source reads it through indices: `buffer[i]`,
`substr`, and sums and differences of `size_t`.  Here the two parsers are written down once more, in
this way, with all these operations partial: a read beside the buffer, a part that does not lie in
it, a difference below zero or a loop without an end leaves the parser without a result.

The parser always has a result, and this result is the one of `Resp.parseCommand`
(`exists_parseCommand`).  It carries the three flags of the source, of which exactly one is set.
-/

namespace MyRedis

open Foundation

namespace Parser.Indexed

/-! ### The tokenizer -/

/-- The loop over a double-quoted string. -/
def doubleQuoted (input : Bytes) : ℕ → ℕ → Bytes → Option (Bytes × ℕ)
  | 0, _, _ => none
  | fuel + 1, i, token =>
    if i < input.length then
      (charAt input i).bind fun c =>
        if c = 34 then some (token, i)
        else if c = 92 ∧ i + 1 < input.length then
          (charAt input (i + 1)).bind fun c => doubleQuoted input fuel (i + 2) (token ++ escape c)
        else doubleQuoted input fuel (i + 1) (token ++ [c])
    else some (token, i)

/-- Skip the closing quotation mark, if there is one. -/
def skipQuote (input : Bytes) (i : ℕ) : ℕ := if i < input.length then i + 1 else i

/-- The body of the loop of `tokenize`: one token, and the position behind it. -/
def readToken (input : Bytes) (i : ℕ) : Option (Bytes × ℕ) :=
  (charAt input i).bind fun c =>
    if c = 34 then
      (doubleQuoted input (input.length + 1) (i + 1) []).map fun r => (r.1, skipQuote input r.2)
    else if c = 39 then
      (scan (fun c => c == 39) input (input.length + 1) (i + 1) []).map fun r =>
        (r.1, skipQuote input r.2)
    else scan isSpace input (input.length + 1) i []

/-- The loop of `tokenize`. -/
def tokenizeLoop (input : Bytes) : ℕ → ℕ → List Bytes → Option (List Bytes)
  | 0, _, _ => none
  | fuel + 1, i, tokens =>
    if i < input.length then
      (scan (fun c => !isSpace c) input (input.length + 1) i []).bind fun r =>
        if input.length ≤ r.2 then some tokens
        else (readToken input r.2).bind fun t => tokenizeLoop input fuel t.2 (tokens ++ [t.1])
    else some tokens

/-- `Parser::tokenize`. -/
def tokenize (input : Bytes) : Option (List Bytes) := tokenizeLoop input (input.length + 1) 0 []

/-- The text behind a closing quotation mark. -/
theorem drop_skipQuote (input : Bytes) (i : ℕ) :
    input.drop (skipQuote input i) = (input.drop i).tail := by
  rw [skipQuote, List.tail_drop]
  split
  · rfl
  · rw [List.drop_eq_nil_of_le (by omega), List.drop_eq_nil_of_le (by omega)]

/-- Skipping a quotation mark stays inside of the text. -/
theorem skipQuote_le {input : Bytes} {i : ℕ} (hi : i ≤ input.length) :
    i ≤ skipQuote input i ∧ skipQuote input i ≤ input.length := by
  rw [skipQuote]
  split <;> omega

/-- A byte that stands for itself; so does a backslash at the end. -/
theorem readDoubleQuoted_self {c : UInt8} {rest : Bytes} (hquote : c ≠ 34)
    (hself : c ≠ 92 ∨ rest = []) :
    readDoubleQuoted (c :: rest) = (readDoubleQuoted rest).map (c :: ·) id := by
  rcases hself with hback | rfl
  · exact readDoubleQuoted_plain hquote hback rest
  · exact if_neg hquote

/-- The loop over a double-quoted string ends, and stands at the end of what it has read. -/
theorem exists_doubleQuoted {input : Bytes} (fuel : ℕ) {i : ℕ} (hfuel : input.length - i < fuel)
    (hi : i ≤ input.length) (token : Bytes) :
    ∃ j, doubleQuoted input fuel i token =
        some (token ++ (readDoubleQuoted (input.drop i)).1, j) ∧
      i ≤ j ∧ j ≤ input.length ∧
      input.drop (skipQuote input j) = (readDoubleQuoted (input.drop i)).2 := by
  induction fuel generalizing i token with
  | zero => exact absurd hfuel (Nat.not_lt_zero _)
  | succ fuel ih =>
    rw [doubleQuoted]
    rcases hrest : input.drop i with _ | ⟨c, rest⟩
    · rw [if_neg (not_lt.mpr (List.drop_eq_nil_iff.mp hrest))]
      refine ⟨i, by simp [readDoubleQuoted], le_rfl, hi, ?_⟩
      rw [drop_skipQuote, hrest]
      rfl
    obtain ⟨hlt, hc, hnext⟩ := charAt_of_drop_eq hrest
    rw [if_pos hlt, hc, Option.bind_some]
    by_cases hquote : c = 34
    · rw [if_pos hquote, hquote, readDoubleQuoted_close]
      refine ⟨i, by simp, le_rfl, hi, ?_⟩
      rw [drop_skipQuote, hrest]
      rfl
    rw [if_neg hquote]
    by_cases hback : c = 92 ∧ i + 1 < input.length
    · rw [if_pos hback]
      obtain ⟨rfl, hlast⟩ := hback
      rcases rest with _ | ⟨c', s⟩
      · exact absurd (List.drop_eq_nil_iff.mp hnext) (not_le.mpr hlast)
      obtain ⟨-, hc', hnext'⟩ := charAt_of_drop_eq hnext
      obtain ⟨j, hj, hij, hjl, hdrop⟩ := ih (i := i + 2) (by omega) (by omega) (token ++ escape c')
      rw [hnext'] at hj hdrop
      rw [hc', Option.bind_some, hj, readDoubleQuoted_escape]
      exact ⟨j, by rw [List.append_assoc]; rfl, by omega, hjl, hdrop⟩
    · have hself : c ≠ 92 ∨ rest = [] := by
        by_cases hlast : i + 1 < input.length
        · exact Or.inl fun h => hback ⟨h, hlast⟩
        · exact Or.inr (hnext ▸ List.drop_eq_nil_of_le (by omega))
      obtain ⟨j, hj, hij, hjl, hdrop⟩ := ih (i := i + 1) (by omega) (by omega) (token ++ [c])
      rw [hnext] at hj hdrop
      rw [if_neg hback, hj, readDoubleQuoted_self hquote hself]
      exact ⟨j, by rw [List.append_assoc]; rfl, by omega, hjl, hdrop⟩

/-- The body of the loop reads one token, and goes on. -/
theorem exists_readToken {input rest : Bytes} {i : ℕ} {c : UInt8} (hrest : input.drop i = c :: rest)
    (hspace : isSpace c = false) :
    ∃ j, readToken input i = some ((Parser.readToken c rest).1, j) ∧ i < j ∧ j ≤ input.length ∧
      input.drop j = (Parser.readToken c rest).2 := by
  obtain ⟨hi, hc, hnext⟩ := charAt_of_drop_eq hrest
  rw [readToken, hc, Option.bind_some, Parser.readToken]
  by_cases hdouble : c = 34
  · obtain ⟨j, hj, hij, hjl, hdrop⟩ :=
      exists_doubleQuoted (input.length + 1) (i := i + 1) (by omega) hi []
    rw [hnext] at hj hdrop
    have hskip := skipQuote_le hjl
    rw [if_pos hdouble, if_pos hdouble, hj]
    exact ⟨skipQuote input j, rfl, by omega, hskip.2, hdrop⟩
  rw [if_neg hdouble, if_neg hdouble]
  by_cases hsingle : c = 39
  · have hle := add_length_upTo_le (fun c => c == 39) hi
    have hskip := skipQuote_le hle
    have hdrop := drop_add_length_upTo (fun c => c == 39) input (i + 1)
    rw [if_pos hsingle, if_pos hsingle, scan_eq (by omega), readSingleQuoted,
      List.span_eq_takeWhile_dropWhile]
    refine ⟨_, ?_, lt_of_lt_of_le (by omega) hskip.1, hskip.2, ?_⟩
    · rw [Option.map_some, List.nil_append, hnext]
      rfl
    · rw [drop_skipQuote, hdrop, hnext]
      rfl
  · have hle := add_length_upTo_le isSpace hi.le
    have hdrop := drop_add_length_upTo isSpace input i
    rw [if_neg hsingle, if_neg hsingle, scan_eq (by omega), List.span_eq_takeWhile_dropWhile]
    refine ⟨_, ?_, ?_, hle, ?_⟩
    · rw [List.nil_append, hrest]
      rfl
    · have htaken : upTo isSpace (c :: rest) = c :: upTo isSpace rest := by
        rw [upTo, List.takeWhile_cons, hspace]
        rfl
      rw [hrest, htaken, List.length_cons]
      omega
    · rw [hdrop, hrest]

/-- The loop ends with the tokens of the rest of the text. -/
theorem tokenizeLoop_eq {input : Bytes} {fuel n i : ℕ} (hfuel : input.length - i < fuel)
    (hn : input.length - i ≤ n) (tokens : List Bytes) :
    tokenizeLoop input fuel i tokens =
      some (tokens ++ Parser.tokenizeLoop n (input.drop i)) := by
  induction fuel generalizing n i tokens with
  | zero => exact absurd hfuel (Nat.not_lt_zero _)
  | succ fuel ih =>
    rw [tokenizeLoop]
    by_cases hi : i < input.length
    · obtain ⟨n, rfl⟩ : ∃ m, n = m + 1 := ⟨n - 1, by omega⟩
      rw [if_pos hi, scan_eq (by omega), Option.bind_some, Parser.tokenizeLoop]
      have hskip : input.drop (i + (upTo (fun c => !isSpace c) (input.drop i)).length) =
          (input.drop i).dropWhile isSpace := by
        rw [drop_add_length_upTo]
        simp only [Bool.not_not]
      have hstart : i ≤ i + (upTo (fun c => !isSpace c) (input.drop i)).length :=
        Nat.le_add_right _ _
      generalize i + (upTo (fun c => !isSpace c) (input.drop i)).length = start at hskip hstart ⊢
      rcases hrest : (input.drop i).dropWhile isSpace with _ | ⟨c, rest⟩
      · rw [hrest] at hskip
        rw [if_pos (List.drop_eq_nil_iff.mp hskip), List.append_nil]
      have hspace : isSpace c = false := by
        have hhead := List.head_dropWhile_not isSpace (l := input.drop i) (by simp [hrest])
        simpa only [hrest, List.head_cons] using hhead
      rw [hrest] at hskip
      obtain ⟨hlt, -, -⟩ := charAt_of_drop_eq hskip
      obtain ⟨j, hj, hij, hjl, hdrop⟩ := exists_readToken hskip hspace
      rw [if_neg (not_le.mpr hlt), hj, Option.bind_some, ih (n := n) (by omega) (by omega), hdrop,
        List.append_assoc]
      rfl
    · have hnil : Parser.tokenizeLoop n [] = [] := by
        rcases n with _ | n <;> rfl
      rw [if_neg hi, List.drop_eq_nil_of_le (not_lt.mp hi), hnil, List.append_nil]

/-- The tokenizer. -/
theorem tokenize_eq (input : Bytes) : tokenize input = some (Parser.tokenize input) := by
  rw [tokenize, tokenizeLoop_eq (n := input.length) (by omega) (by omega)]
  rfl

end Parser.Indexed

namespace Resp.Indexed

/-! ### The parser of the protocol -/

/-- `RespParseResult`, with the flags of the source. -/
structure RawResult where
  /-- A complete command was parsed. -/
  ok : Bool
  /-- More bytes are needed. -/
  needMore : Bool
  /-- The bytes are malformed. -/
  protocolError : Bool
  /-- The command. -/
  command : Command
  /-- The number of bytes to erase from the buffer. -/
  bytesConsumed : ℕ
deriving DecidableEq

/-- The command of a result without one. -/
def noCommand : Command := ⟨[], []⟩

/-- What a length announced by a client and the line end behind its data can add to a position at
most. -/
def maxAdded : ℕ := 2 ^ 31 + 2

/-- The sum of two positions in a buffer.  It exceeds the size of the buffer so little that there is
no overflow of a `size_t`. -/
def position (buffer : Bytes) (a b : ℕ) : Option ℕ := sumUpTo (buffer.length + maxAdded) a b

/-- The loop of `find_crlf`. -/
def findCrlfLoop (buffer : Bytes) : ℕ → ℕ → Option (Option ℕ)
  | 0, _ => none
  | fuel + 1, i =>
    if i + 1 < buffer.length then
      (charAt buffer i).bind fun c =>
        if c = CR then
          (charAt buffer (i + 1)).bind fun c' =>
            if c' = LF then some (some i) else findCrlfLoop buffer fuel (i + 1)
        else findCrlfLoop buffer fuel (i + 1)
    else some none

/-- `Resp::find_crlf`; the inner `none` is `npos`. -/
def findCrlf (buffer : Bytes) (start : ℕ) : Option (Option ℕ) :=
  findCrlfLoop buffer (buffer.length + 1) start

/-- The data of an element whose length has been read: the place where they end, or the verdict on
them. -/
def readData (buffer : Bytes) (dataStart len : ℕ) : Option (Except ElementsResult (Bytes × ℕ)) := do
  let dataEnd ← position buffer dataStart len
  let pos ← position buffer dataEnd 2
  if buffer.length < pos then return .error .needMore
  else
    let c ← charAt buffer dataEnd
    if c ≠ CR then return .error .protocolError
    else
      let c' ← charAt buffer (dataEnd + 1)
      if c' ≠ LF then return .error .protocolError
      else
        let part ← substr buffer dataStart len
        return .ok (part, pos)

/-- The loop of `parse_resp_array` over the elements. -/
def parseElements (buffer : Bytes) : ℕ → ℕ → List Bytes → Option ElementsResult
  | 0, pos, parts => some (.done parts pos)
  | count + 1, pos, parts =>
    if buffer.length ≤ pos then some .needMore
    else do
      let c ← charAt buffer pos
      if c ≠ 36 then return .protocolError
      else
        match ← findCrlf buffer pos with
        | none => return .needMore
        | some crlf =>
          let n ← difference (← difference crlf pos) 1
          let lenStr ← substr buffer (← position buffer pos 1) n
          let dataStart ← position buffer crlf 2
          match stoi lenStr with
          | none => return .protocolError
          | some len =>
            if len < 0 then parseElements buffer count dataStart (parts ++ [[]])
            else
              match ← readData buffer dataStart len.toInt.toNat with
              | .error verdict => return verdict
              | .ok (part, pos) => parseElements buffer count pos (parts ++ [part])

/-- The end of `parse_resp_array`. -/
def buildCommand : ElementsResult → Option RawResult
  | .needMore => some ⟨false, true, false, noCommand, 0⟩
  | .protocolError => some ⟨false, false, true, noCommand, 0⟩
  | .done parts pos =>
    (charAt parts 0).map fun name =>
      ⟨true, false, false, ⟨name.map toUpper, parts.drop 1⟩, pos⟩

/-- `Resp::parse_resp_array`. -/
def parseRespArray (buffer : Bytes) : Option RawResult := do
  match ← findCrlf buffer 0 with
  | none => return ⟨false, true, false, noCommand, 0⟩
  | some crlf =>
    let countStr ← substr buffer 1 (← difference crlf 1)
    match stoi countStr with
    | none => return ⟨false, false, true, noCommand, 0⟩
    | some count =>
      if count < 0 then return ⟨false, false, true, noCommand, 0⟩
      else if count = 0 then return ⟨false, false, true, noCommand, 0⟩
      else
        let pos ← position buffer crlf 2
        let result ← parseElements buffer count.toInt.toNat pos []
        buildCommand result

/-- `line.find_first_not_of(" \t\r")`. -/
def findFirstNotOf (line : Bytes) : Option ℕ :=
  line.findIdx? fun c => !(c = 32 || c = 9 || c = CR)

/-- The end of `parse_inline`, for a line and the bytes it takes. -/
def parseLine (line : Bytes) (consume : ℕ) : Option RawResult :=
  match findFirstNotOf line with
  | none => some ⟨false, true, false, noCommand, consume⟩
  | some start => do
    let line ← substrFrom line start
    let tokens ← Parser.Indexed.tokenize line
    if tokens = [] then return ⟨false, false, true, noCommand, consume⟩
    else
      let name ← charAt tokens 0
      return ⟨true, false, false, ⟨name.map toUpper, tokens.drop 1⟩, consume⟩

/-- `Resp::parse_inline`. -/
def parseInline (buffer : Bytes) : Option RawResult := do
  match ← findCrlf buffer 0 with
  | some crlf => parseLine (← substr buffer 0 crlf) (← position buffer crlf 2)
  | none =>
    if LF ∈ buffer then
      let newline := buffer.idxOf LF
      parseLine (← substr buffer 0 newline) (← position buffer newline 1)
    else if maxInlineLength < buffer.length then return ⟨false, false, true, noCommand, 0⟩
    else return ⟨false, true, false, noCommand, 0⟩

/-- `Resp::parse_command`. -/
def parseCommand (buffer : Bytes) : Option RawResult :=
  if buffer = [] then some ⟨false, true, false, noCommand, 0⟩
  else do
    let c ← charAt buffer 0
    if c = 42 then parseRespArray buffer else parseInline buffer

/-! ### The parser is safe -/

/-- One step of the search for a line end. -/
theorem findCrlf_step {buffer rest : Bytes} {i : ℕ} {c : UInt8} (h : buffer.drop i = c :: rest) :
    Resp.findCrlf buffer i =
      if c = CR ∧ rest.head? = some LF then some i else Resp.findCrlf buffer (i + 1) := by
  obtain ⟨-, -, hnext⟩ := charAt_of_drop_eq h
  rw [Resp.findCrlf, Resp.findCrlf, h, hnext, crlfOffset]
  split
  · rfl
  · rw [Option.map_map]
    congr 1
    funext n
    exact (Nat.add_right_comm i 1 n).symm ▸ rfl

/-- The search for a line end. -/
theorem findCrlfLoop_eq {buffer : Bytes} {fuel i : ℕ} (hfuel : buffer.length - i < fuel) :
    findCrlfLoop buffer fuel i = some (Resp.findCrlf buffer i) := by
  induction fuel generalizing i with
  | zero => exact absurd hfuel (Nat.not_lt_zero _)
  | succ fuel ih =>
    rw [findCrlfLoop]
    by_cases hi : i + 1 < buffer.length
    · obtain ⟨c, hc⟩ : ∃ c, charAt buffer i = some c := ⟨_, charAt_eq_some (Nat.lt_of_succ_lt hi)⟩
      obtain ⟨c', hc'⟩ : ∃ c', charAt buffer (i + 1) = some c' := ⟨_, charAt_eq_some hi⟩
      have hhead : (buffer.drop (i + 1)).head? = some c' := by
        rw [drop_eq_of_charAt hc', List.head?_cons]
      rw [if_pos hi, hc, hc', findCrlf_step (drop_eq_of_charAt hc), hhead, ih (by omega)]
      simp only [Option.bind_some, Option.some.injEq]
      by_cases hcr : c = CR
      · by_cases hlf : c' = LF
        · rw [if_pos hcr, if_pos hlf, if_pos ⟨hcr, hlf⟩]
        · rw [if_pos hcr, if_neg hlf, if_neg fun h => hlf h.2]
      · rw [if_neg hcr, if_neg fun h => hcr h.1]
    · rw [if_neg hi]
      rcases hfind : Resp.findCrlf buffer i with _ | crlf
      · rfl
      · have hle := add_two_le_of_findCrlf hfind
        have hge := le_of_findCrlf hfind
        omega

/-- `find_crlf` makes no access beside the buffer. -/
theorem findCrlf_eq (buffer : Bytes) (start : ℕ) :
    findCrlf buffer start = some (Resp.findCrlf buffer start) :=
  findCrlfLoop_eq (by omega)

/-- A line that does not start with `\r` is not empty. -/
theorem lt_of_findCrlf {buffer rest : Bytes} {i crlf : ℕ} {c : UInt8}
    (h : buffer.drop i = c :: rest) (hc : c ≠ CR) (hfind : Resp.findCrlf buffer i = some crlf) :
    i < crlf := by
  rw [findCrlf_step h, if_neg fun h => hc h.1] at hfind
  exact le_of_findCrlf hfind

/-- A position near the buffer. -/
theorem position_eq_some {buffer : Bytes} {a b : ℕ} (h : a + b < buffer.length + (2 ^ 31 + 2)) :
    position buffer a b = some (a + b) := by
  rw [position, sumUpTo_eq_some]
  rw [maxAdded]
  exact h.le

/-- The data of an element. -/
theorem readData_eq {buffer : Bytes} {dataStart len : ℕ} (hstart : dataStart ≤ buffer.length)
    (hlen : len < 2 ^ 31) :
    readData buffer dataStart len =
      some (if buffer.length < dataStart + len + 2 then .error .needMore
        else if buffer[dataStart + len]? ≠ some CR ∨ buffer[dataStart + len + 1]? ≠ some LF then
          .error .protocolError
        else .ok ((buffer.drop dataStart).take len, dataStart + len + 2)) := by
  have hend : position buffer dataStart len = some (dataStart + len) := position_eq_some (by omega)
  have hpos : position buffer (dataStart + len) 2 = some (dataStart + len + 2) :=
    position_eq_some (by omega)
  rw [readData, hend, Option.bind_eq_bind, Option.bind_some, hpos, Option.bind_eq_bind,
    Option.bind_some]
  by_cases hmore : buffer.length < dataStart + len + 2
  · rw [if_pos hmore, if_pos hmore]
    rfl
  rw [if_neg hmore, if_neg hmore]
  obtain ⟨c, hc⟩ : ∃ c, charAt buffer (dataStart + len) = some c := ⟨_, charAt_eq_some (by omega)⟩
  obtain ⟨c', hc'⟩ : ∃ c', charAt buffer (dataStart + len + 1) = some c' :=
    ⟨_, charAt_eq_some (by omega)⟩
  have hpart : substr buffer dataStart len = some ((buffer.drop dataStart).take len) :=
    substr_eq_some (by omega)
  rw [hc, hc', hpart]
  rw [charAt] at hc hc'
  rw [hc, hc', Option.bind_some, Option.bind_some]
  by_cases hcr : c = CR
  · rw [if_neg (not_not.mpr hcr)]
    by_cases hlf : c' = LF
    · rw [if_neg (not_not.mpr hlf), if_neg (by simp [hcr, hlf])]
      rfl
    · rw [if_pos hlf, if_pos (by simp [hlf])]
      rfl
  · rw [if_pos hcr, if_pos (by simp [hcr])]
    rfl

/-- A length that is not negative is below `2 ^ 31`. -/
theorem toNat_lt (len : Int32) : len.toInt.toNat < 2 ^ 31 := by
  have hlt := Int32.toInt_lt len
  omega

/-- The loop over the elements makes no access beside the buffer. -/
theorem parseElements_eq (buffer : Bytes) (count pos : ℕ) (parts : List Bytes) :
    parseElements buffer count pos parts = some (Resp.parseElements buffer count pos parts) := by
  induction count generalizing pos parts with
  | zero => rfl
  | succ count ih =>
    rw [parseElements, Resp.parseElements]
    by_cases hpos : buffer.length ≤ pos
    · rw [if_pos hpos, if_pos hpos]
    rw [if_neg hpos, if_neg hpos]
    obtain ⟨c, hc⟩ : ∃ c, charAt buffer pos = some c := ⟨_, charAt_eq_some (not_le.mp hpos)⟩
    have hget : buffer[pos]? = some c := hc
    simp only [Option.bind_eq_bind]
    rw [hc, hget, Option.bind_some]
    by_cases htag : c = 36
    · rw [if_neg (not_not.mpr htag), if_neg (not_not.mpr (congrArg some htag)), findCrlf_eq,
        Option.bind_some]
      rcases hfind : Resp.findCrlf buffer pos with _ | crlf
      · rfl
      have hbound := add_two_le_of_findCrlf hfind
      have hlt : pos < crlf := lt_of_findCrlf (drop_eq_of_charAt hc) (by rw [htag]; decide) hfind
      have htext : substr buffer (pos + 1) (crlf - pos - 1) =
          some ((buffer.drop (pos + 1)).take (crlf - pos - 1)) := substr_eq_some (by omega)
      simp only
      rw [difference_eq_some hlt.le, Option.bind_some, difference_eq_some (by omega),
        Option.bind_some, position_eq_some (by omega), Option.bind_some, htext, Option.bind_some,
        position_eq_some (by omega), Option.bind_some]
      rcases stoi ((buffer.drop (pos + 1)).take (crlf - pos - 1)) with _ | len
      · rfl
      simp only
      by_cases hnull : len < 0
      · rw [if_pos hnull, if_pos hnull]
        exact ih (crlf + 2) (parts ++ [[]])
      · rw [if_neg hnull, if_neg hnull, readData_eq hbound (toNat_lt len), Option.bind_some]
        by_cases hmore : buffer.length < crlf + 2 + len.toInt.toNat + 2
        · rw [if_pos hmore, if_pos hmore]
          rfl
        rw [if_neg hmore, if_neg hmore]
        by_cases hend : buffer[crlf + 2 + len.toInt.toNat]? ≠ some CR ∨
            buffer[crlf + 2 + len.toInt.toNat + 1]? ≠ some LF
        · rw [if_pos hend, if_pos hend]
          rfl
        · rw [if_neg hend, if_neg hend]
          exact ih _ _
    · rw [if_pos htag, if_pos fun h => htag (Option.some.inj h)]
      rfl

/-- A complete loop has read all elements, and stays inside of the buffer. -/
theorem bounds_of_parseElements {buffer : Bytes} {count pos pos' : ℕ} {parts parts' : List Bytes}
    (h : Resp.parseElements buffer count pos parts = .done parts' pos')
    (hpos : pos ≤ buffer.length) :
    pos' ≤ buffer.length ∧ parts'.length = parts.length + count := by
  induction count generalizing pos parts with
  | zero =>
    obtain ⟨rfl, rfl⟩ := ElementsResult.done.inj h
    exact ⟨hpos, rfl⟩
  | succ count ih =>
    rw [Resp.parseElements] at h
    split at h
    · cases h
    split at h
    · cases h
    split at h
    · cases h
    rename_i crlf hcrlf
    have hbound := add_two_le_of_findCrlf hcrlf
    split at h
    · cases h
    split at h
    · obtain ⟨hle, hlength⟩ := ih h hbound
      exact ⟨hle, by rw [hlength, List.length_append, List.length_singleton]; omega⟩
    simp only at h
    split at h
    · cases h
    split at h
    · cases h
    obtain ⟨hle, hlength⟩ := ih h (by omega)
    exact ⟨hle, by rw [hlength, List.length_append, List.length_singleton]; omega⟩

/-- The result has the flags of a verdict. -/
def RawResult.Encodes (raw : RawResult) : RespParseResult → Prop
  | .ok cmd n => raw = ⟨true, false, false, cmd, n⟩
  | .needMore n => raw = ⟨false, true, false, noCommand, n⟩
  | .protocolError => ∃ n, raw = ⟨false, false, true, noCommand, n⟩

/-- A parser without a read beside its buffer: it has a result, of the given verdict, and consumes
no more than the buffer. -/
def Safe (buffer : Bytes) (result : Option RawResult) (verdict : RespParseResult) : Prop :=
  ∃ raw, result = some raw ∧ raw.Encodes verdict ∧ raw.bytesConsumed ≤ buffer.length

/-- The end of `parse_resp_array`. -/
theorem safe_buildCommand {buffer : Bytes} {count pos : ℕ} (hcount : 0 < count)
    (hpos : pos ≤ buffer.length) :
    Safe buffer (buildCommand (Resp.parseElements buffer count pos []))
      (Resp.buildCommand (Resp.parseElements buffer count pos [])) := by
  rcases hresult : Resp.parseElements buffer count pos [] with ⟨parts, pos'⟩ | _ | _
  · obtain ⟨hle, hlength⟩ := bounds_of_parseElements hresult hpos
    rcases parts with _ | ⟨name, args⟩
    · exact absurd hlength (by simp only [List.length_nil]; omega)
    · exact ⟨_, rfl, rfl, hle⟩
  · exact ⟨_, rfl, rfl, Nat.zero_le _⟩
  · exact ⟨_, rfl, ⟨0, rfl⟩, Nat.zero_le _⟩

/-- `parse_resp_array`. -/
theorem safe_parseRespArray (rest : Bytes) :
    Safe (42 :: rest) (parseRespArray (42 :: rest)) (Resp.parseRespArray (42 :: rest)) := by
  rw [parseRespArray, Resp.parseRespArray]
  simp only [Option.bind_eq_bind]
  rw [findCrlf_eq, Option.bind_some]
  rcases hfind : Resp.findCrlf (42 :: rest) 0 with _ | crlf
  · exact ⟨_, rfl, rfl, Nat.zero_le _⟩
  have hbound := add_two_le_of_findCrlf hfind
  have hlt : 0 < crlf := lt_of_findCrlf (List.drop_zero) (by decide) hfind
  have htext : substr (42 :: rest) 1 (crlf - 1) = some (((42 :: rest).drop 1).take (crlf - 1)) :=
    substr_eq_some (by omega)
  simp only
  rw [difference_eq_some hlt, Option.bind_some, htext, Option.bind_some]
  rcases stoi (((42 :: rest).drop 1).take (crlf - 1)) with _ | count
  · exact ⟨_, rfl, ⟨0, rfl⟩, Nat.zero_le _⟩
  simp only
  by_cases hnegative : count < 0
  · rw [if_pos hnegative, if_pos (Int32.le_of_lt hnegative)]
    exact ⟨_, rfl, ⟨0, rfl⟩, Nat.zero_le _⟩
  rw [if_neg hnegative]
  by_cases hzero : count = 0
  · rw [if_pos hzero, if_pos (hzero ▸ Int32.le_refl _)]
    exact ⟨_, rfl, ⟨0, rfl⟩, Nat.zero_le _⟩
  have hcount : 0 < count.toInt.toNat := by
    rw [Int32.lt_iff_toInt_lt] at hnegative
    rw [← Int32.toInt_inj] at hzero
    have h0 : (0 : Int32).toInt = 0 := rfl
    omega
  have hpositive : ¬ count ≤ 0 := by
    rw [Int32.le_iff_toInt_le]
    have h0 : (0 : Int32).toInt = 0 := rfl
    omega
  rw [if_neg hzero, if_neg hpositive, position_eq_some (by omega), Option.bind_some,
    parseElements_eq, Option.bind_some]
  exact safe_buildCommand hcount hbound

/-- The trimmed line. -/
theorem dropWhile_of_findFirstNotOf (line : Bytes) :
    (line.dropWhile fun c => c = 32 || c = 9 || c = CR) =
      line.drop ((findFirstNotOf line).getD line.length) := by
  rw [List.dropWhile_eq_drop_findIdx_not, findFirstNotOf, List.findIdx_eq_getD_findIdx?]

/-- A line starts inside of the line. -/
theorem lt_of_findFirstNotOf {line : Bytes} {start : ℕ} (h : findFirstNotOf line = some start) :
    start < line.length :=
  (List.findIdx?_eq_some_iff_findIdx_eq.mp h).1

/-- The end of `parse_inline`. -/
theorem safe_parseLine {buffer : Bytes} (line : Bytes) {consume : ℕ}
    (hconsume : consume ≤ buffer.length) :
    Safe buffer (parseLine line consume) (Resp.parseLine line consume) := by
  rw [parseLine, Resp.parseLine, dropWhile_of_findFirstNotOf]
  rcases hstart : findFirstNotOf line with _ | start
  · rw [Option.getD_none, List.drop_length]
    exact ⟨_, rfl, rfl, hconsume⟩
  have hlt := lt_of_findFirstNotOf hstart
  simp only [Option.bind_eq_bind, Option.getD_some]
  rw [substrFrom_eq_some hlt.le, Option.bind_some, Parser.Indexed.tokenize_eq, Option.bind_some,
    List.drop_eq_getElem_cons hlt]
  simp only [Parser.parse]
  rcases Parser.tokenize _ with _ | ⟨name, args⟩
  · exact ⟨_, rfl, ⟨consume, rfl⟩, hconsume⟩
  · exact ⟨_, rfl, rfl, hconsume⟩

/-- `parse_inline`. -/
theorem safe_parseInline (buffer : Bytes) :
    Safe buffer (parseInline buffer) (Resp.parseInline buffer) := by
  rw [parseInline, Resp.parseInline]
  simp only [Option.bind_eq_bind]
  rw [findCrlf_eq, Option.bind_some]
  rcases hfind : Resp.findCrlf buffer 0 with _ | crlf
  · simp only
    by_cases hline : LF ∈ buffer
    · have hlt := List.idxOf_lt_length_of_mem hline
      have htext : substr buffer 0 (buffer.idxOf LF) = some (buffer.take (buffer.idxOf LF)) :=
        substr_eq_some (by omega)
      rw [if_pos hline, if_pos hline, htext, Option.bind_some, position_eq_some (by omega),
        Option.bind_some]
      exact safe_parseLine _ hlt
    rw [if_neg hline, if_neg hline]
    split
    · exact ⟨_, rfl, ⟨0, rfl⟩, Nat.zero_le _⟩
    · exact ⟨_, rfl, rfl, Nat.zero_le _⟩
  · have hbound := add_two_le_of_findCrlf hfind
    have htext : substr buffer 0 crlf = some (buffer.take crlf) := substr_eq_some (by omega)
    simp only
    rw [htext, Option.bind_some, position_eq_some (by omega), Option.bind_some]
    exact safe_parseLine _ hbound

/-- `parse_command`. -/
theorem safe_parseCommand (buffer : Bytes) :
    Safe buffer (parseCommand buffer) (Resp.parseCommand buffer) := by
  rcases buffer with _ | ⟨c, rest⟩
  · exact ⟨_, rfl, rfl, Nat.zero_le _⟩
  have hc : charAt (c :: rest) 0 = some c := rfl
  rw [parseCommand, if_neg (List.cons_ne_nil _ _), Resp.parseCommand, hc, Option.bind_eq_bind,
    Option.bind_some]
  by_cases htag : c = 42
  · rw [if_pos htag, if_pos htag, htag]
    exact safe_parseRespArray rest
  · rw [if_neg htag, if_neg htag]
    exact safe_parseInline (c :: rest)

end Resp.Indexed

end MyRedis
