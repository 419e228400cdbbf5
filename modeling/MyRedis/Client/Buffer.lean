import MyRedis.Client.Reader
import MyRedis.Foundation.Indexing

/-!
# The read buffer of the client

`parse_resp_value` has no parameter for the bytes it reads: it reads the member `read_buffer_`, and
for the elements of an array it puts the rest of the buffer there, calls itself, and puts the whole
buffer back at the end.  Here the member is a state that every call takes and returns, and
`std::string::substr` throws if it starts behind the end of the string (`substrFrom`).

`Client.parseBuffer_eq` says that a call always returns, without an exception, with the verdict of
`parseRespValue` and with the buffer as it was.  Together with the fact that verdicts are final it
follows that what the client reads from a stream does not depend on the packets in which the stream
arrives (`Client.reading_independent_of_packets`).
-/

namespace MyRedis.Client

open Foundation Resp

/-- How a call ends: the text and the number of bytes of the value, if there is a complete one, and
the member `read_buffer_` afterwards.  It is `none` if the call throws, or if it does not return. -/
abbrev Ending := Option (Option (Bytes × ℕ) × Bytes)

/-- The loop over the elements of an array, with `read_buffer_` in front of every round; on every
way out the saved buffer is put back. -/
def bufferElements (parse : Bytes → Ending) (saved : Bytes) :
    ℕ → ℕ → Bytes → Option (Option (List Bytes × ℕ) × Bytes)
  | 0, pos, _ => some (some ([], pos), saved)
  | count + 1, pos, _ =>
    match substrFrom saved pos with
    | none => none
    | some sub =>
      match parse sub with
      | none => none
      | some (none, _) => some (none, saved)
      | some (some (elem, subConsumed), readBuffer) =>
        (bufferElements parse saved count (pos + subConsumed) readBuffer).map fun later =>
          (later.1.map fun elems => (elem :: elems.1, elems.2), later.2)

/-- The case of an array. -/
def bufferArray (parse : Bytes → Ending) (readBuffer : Bytes) (crlf : ℕ) (countStr : Bytes) :
    Ending :=
  match stoi countStr with
  | none => some (some (ascii "(error) invalid array count", crlf + 2), readBuffer)
  | some count =>
    if count < 0 then some (some (ascii "(nil)", crlf + 2), readBuffer)
    else if count = 0 then some (some (ascii "(empty array)", crlf + 2), readBuffer)
    else
      (bufferElements parse readBuffer count.toInt.toNat (crlf + 2) readBuffer).map fun loop =>
        (loop.1.map fun elems => (lines (numberItems elems.1), elems.2), loop.2)

/-- `parse_resp_value` as a function of the member `read_buffer_`.  Only the case of an array writes
to the member. -/
def parseBuffer : ℕ → Bytes → Ending
  | 0, _ => none
  | _ + 1, [] => some (none, [])
  | fuel + 1, type :: rest =>
    match findCrlf (type :: rest) 0 with
    | none => some (none, type :: rest)
    | some crlf =>
      if type = 43 ∨ type = 45 then some (some (rest.take (crlf - 1), crlf + 2), type :: rest)
      else if type = 58 then
        some (some (ascii "(integer) " ++ rest.take (crlf - 1), crlf + 2), type :: rest)
      else if type = 36 then
        some (bulkValue (type :: rest) crlf (rest.take (crlf - 1)), type :: rest)
      else if type = 42 then
        bufferArray (parseBuffer fuel) (type :: rest) crlf (rest.take (crlf - 1))
      else some (some ((type :: rest).take crlf, crlf + 2), type :: rest)

/-- `read_resp_response`, where `reads` are the results of the calls of `socket_read` to come, with
nothing for the end of the stream: the text, if there is one, the calls that are left, and the
member `read_buffer_`. -/
def readResponse : List Bytes → Bytes → Option Bytes × List Bytes × Bytes
  | reads, readBuffer =>
    match parseBuffer (readBuffer.length + 1) readBuffer with
    | none => (none, reads, readBuffer)
    | some (some (result, consumed), readBuffer) => (some result, reads, readBuffer.drop consumed)
    | some (none, readBuffer) =>
      match reads with
      | [] => (none, [], readBuffer)
      | bytes :: reads =>
        if bytes.isEmpty then (none, reads, readBuffer)
        else readResponse reads (readBuffer ++ bytes)

/-! ### The buffer is restored -/

/-- The loop over the elements puts the buffer back and finds what the loop without the member
finds. -/
theorem bufferElements_eq {parse : Bytes → Ending} {saved : Bytes} {start : ℕ}
    (hparse : ∀ pos, start ≤ pos →
      parse (saved.drop pos) = some (parseRespValue (saved.drop pos), saved.drop pos))
    (count : ℕ) {pos : ℕ} (hpos : start ≤ pos) (hle : pos ≤ saved.length) (readBuffer : Bytes) :
    bufferElements parse saved count pos readBuffer =
      some (elements parseRespValue saved count pos, saved) := by
  induction count generalizing pos readBuffer with
  | zero => rfl
  | succ count ih =>
    rw [bufferElements, substrFrom_eq_some hle, elements]
    simp only [hparse pos hpos]
    cases hvalue : parseRespValue (saved.drop pos) with
    | none => rfl
    | some sub =>
      have hn := (parseRespValue_final hvalue []).le_length
      rw [List.length_drop] at hn
      simp only [ih (hpos.trans (Nat.le_add_right pos sub.2)) (by omega), Option.map_some]

/-- So does the case of an array. -/
theorem bufferArray_eq {parse : Bytes → Ending} {readBuffer : Bytes}
    (hparse : ∀ pos, 1 ≤ pos → parse (readBuffer.drop pos) =
      some (parseRespValue (readBuffer.drop pos), readBuffer.drop pos))
    {crlf : ℕ} (hcrlf : crlf + 2 ≤ readBuffer.length) (countStr : Bytes) :
    bufferArray parse readBuffer crlf countStr =
      some (arrayValue parseRespValue readBuffer crlf countStr, readBuffer) := by
  unfold bufferArray arrayValue
  cases stoi countStr with
  | none => rfl
  | some count =>
    simp only
    split_ifs
    · rfl
    · rfl
    · rw [bufferElements_eq hparse _ (by omega) hcrlf, Option.map_some]

/-- Every call returns, without an exception, and leaves the buffer as it was. -/
theorem parseBuffer_eq {fuel : ℕ} {readBuffer : Bytes} (hfuel : readBuffer.length < fuel) :
    parseBuffer fuel readBuffer = some (parseRespValue readBuffer, readBuffer) := by
  induction fuel generalizing readBuffer with
  | zero => exact absurd hfuel (Nat.not_lt_zero _)
  | succ fuel ih =>
    cases readBuffer with
    | nil => rfl
    | cons type rest =>
      rw [parseBuffer, parseRespValue_eq, level]
      cases hfind : findCrlf (type :: rest) 0 with
      | none => rfl
      | some crlf =>
        have hcrlf := add_two_le_of_findCrlf hfind
        have hsub : ∀ pos, 1 ≤ pos → parseBuffer fuel ((type :: rest).drop pos) =
            some (parseRespValue ((type :: rest).drop pos), (type :: rest).drop pos) := by
          intro pos hpos
          refine ih ?_
          rw [List.length_drop]
          omega
        simp only
        split_ifs
        · rfl
        · rfl
        · rfl
        · exact bufferArray_eq hsub hcrlf _
        · rfl

/-! ### Packets -/

/-- `read_resp_response` reads one value of the stream. -/
theorem readResponse_eq_next (reads : List Bytes) (readBuffer : Bytes) :
    readResponse reads readBuffer = decoder.next reads readBuffer := by
  induction reads generalizing readBuffer with
  | nil =>
    have hdecode : decoder.decode readBuffer = parseRespValue readBuffer := rfl
    rw [readResponse, parseBuffer_eq (Nat.lt_succ_self _), StreamDecoder.next, StreamDecoder.take,
      hdecode]
    cases parseRespValue readBuffer with
    | none => rfl
    | some value => rfl
  | cons bytes reads ih =>
    have hdecode : decoder.decode readBuffer = parseRespValue readBuffer := rfl
    rw [readResponse, parseBuffer_eq (Nat.lt_succ_self _), StreamDecoder.next, hdecode]
    cases parseRespValue readBuffer with
    | none => simp only [ih]
    | some value => rfl

/-- As long as the stream goes on, `read_resp_response` does what it does without the member
`read_buffer_`. -/
theorem readRespResponse_eq {reads : List Bytes} (hreads : ∀ bytes ∈ reads, bytes ≠ [])
    (readBuffer : Bytes) : readRespResponse reads readBuffer =
      (readResponse reads readBuffer).1.map fun text =>
        (text, (readResponse reads readBuffer).2.2, (readResponse reads readBuffer).2.1) := by
  induction reads generalizing readBuffer with
  | nil =>
    rw [readRespResponse, readResponse, parseBuffer_eq (Nat.lt_succ_self _)]
    cases parseRespValue readBuffer with
    | none => rfl
    | some value => rfl
  | cons bytes reads ih =>
    rw [readRespResponse, readResponse, parseBuffer_eq (Nat.lt_succ_self _)]
    cases parseRespValue readBuffer with
    | none =>
      have hbytes : bytes.isEmpty = false := by
        simpa using hreads bytes List.mem_cons_self
      simp only [hbytes, Bool.false_eq_true, if_false]
      exact ih (fun b hb => hreads b (List.mem_cons_of_mem _ hb)) _
    | some value => rfl

/-- **What the client reads does not depend on packets.**  Every call of `parse_resp_value` returns
and leaves the buffer as it was, and a value that it reports takes at least one byte and no more
than there are.  For every buffer and every stream of bytes that follow, well-formed or not, there
are the texts that repeated calls of `read_resp_response` return before the stream runs out, and the
bytes that they leave in the buffer: they are the same for every way of cutting the stream into
reads. -/
theorem reading_independent_of_packets (readBuffer stream : Bytes) :
    (∀ fuel, readBuffer.length < fuel →
      parseBuffer fuel readBuffer = some (parseRespValue readBuffer, readBuffer)) ∧
    (∀ text consumed, parseRespValue readBuffer = some (text, consumed) →
      0 < consumed ∧ consumed ≤ readBuffer.length) ∧
    ∃ replies left, ∀ reads : List Bytes, (∀ bytes ∈ reads, bytes ≠ []) → reads.flatten = stream →
      ∀ replies' state', Repeats (fun state => readResponse state.1 state.2) (reads, readBuffer)
        replies' state' ↔ replies' = replies ∧ state' = ([], left) := by
  refine ⟨fun fuel hfuel => parseBuffer_eq hfuel, fun text consumed h => ?_, ?_⟩
  · exact ⟨decoder.pos h, decoder.le_length h⟩
  · obtain ⟨replies, left, hvalues⟩ := decoder.exists_repeats_take (readBuffer ++ stream)
    refine ⟨replies, left, ?_⟩
    rintro reads hreads rfl replies' state'
    have hread := decoder.repeats_next hvalues hreads rfl
    simp only [← readResponse_eq_next] at hread
    constructor
    · intro h
      obtain ⟨rfl, rfl⟩ := h.unique hread
      exact ⟨rfl, rfl⟩
    · rintro ⟨rfl, rfl⟩
      exact hread

/-- A status, an array with a malformed count and the beginning of a string, cut in the middle of
two line ends. -/
theorem reading_independent_of_packets_malformed :
    Repeats (fun state => readResponse state.1 state.2)
      ([ascii "+OK\r", ascii "\n*x\r\n$", ascii "3\r", ascii "\nab"], [])
      [ascii "OK", ascii "(error) invalid array count"] ([], ascii "$3\r\nab") := by
  obtain ⟨replies, left, hcut⟩ :=
    (reading_independent_of_packets [] (ascii "+OK\r\n*x\r\n$3\r\nab")).2.2
  have hend : Repeats (fun state => readResponse state.1 state.2) ([], ascii "$3\r\nab") []
      ([], ascii "$3\r\nab") := .stop (by decide)
  have herror : Repeats (fun state => readResponse state.1 state.2) ([], ascii "*x\r\n$3\r\nab")
      [ascii "(error) invalid array count"] ([], ascii "$3\r\nab") := .more (by decide) hend
  have hwhole : Repeats (fun state => readResponse state.1 state.2)
      ([ascii "+OK\r\n*x\r\n$3\r\nab"], [])
      [ascii "OK", ascii "(error) invalid array count"] ([], ascii "$3\r\nab") :=
    .more (by decide) herror
  obtain ⟨rfl, heq⟩ := (hcut _ (by decide) (by decide) _ _).mp hwhole
  obtain ⟨-, rfl⟩ := Prod.mk.inj heq
  exact (hcut _ (by decide) (by decide) _ _).mpr ⟨rfl, rfl⟩

end MyRedis.Client
