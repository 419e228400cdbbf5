import MyRedis.Commands.System
import MyRedis.Foundation.IntegerText
import MyRedis.Resp.Encoding

/-!
# Integers in the text of clients

There are seven places at which an `int` is read from what a client has sent: the number of the
elements of an array and the length of each, the seconds of `EXPIRE` and of `SET` with `EX`, the two
indices of `LRANGE` and the one of `LINDEX`.  All of them call `std::stoi` and refuse the text if it
throws, the parser with a protocol error and the handlers with the answer that the value is not an
integer or out of range.

`std::stoi` does not ask for the whole text to be a number: it skips white space in front of it and
ignores what follows.  The handlers and the parser do not look at how much of the text was used, so
that `EXPIRE k 10abc` sets an expiration.  This is the only deviation from a strict reading, and it
is the same at all places (`IntegerPlace.strictAt_iff`).
-/

namespace MyRedis

open Foundation Resp CommandHandler

/-- A place at which an `int` is read from a text, and all that its outcome depends on besides. -/
inductive IntegerPlace where
  /-- The number of the elements of an array; `rest` follows its line. -/
  | elementCount (rest : Bytes)
  /-- The length of an element.  The buffer holds `front` in front of the element and `rest` behind
  its first line; `parts` have been read, and `count` elements are to follow. -/
  | bulkLength (front rest : Bytes) (count : ℕ) (parts : List Bytes)
  /-- The seconds of `SET`, behind an option that reads `EX`. -/
  | setSeconds (key value option : Bytes) (hoption : option.map toUpper = ascii "EX")
      (more : List Bytes) (w : World)
  /-- The seconds of `EXPIRE`. -/
  | expireSeconds (key : Bytes) (w : World)
  /-- The first index of `LRANGE`. -/
  | lrangeStart (key stop : Bytes) (w : World)
  /-- The last index of `LRANGE`. -/
  | lrangeStop (key start : Bytes) (w : World)
  /-- The index of `LINDEX`. -/
  | lindexIndex (key : Bytes) (w : World)

/-- What comes out: a verdict of the parser, or a response with the world behind it. -/
inductive IntegerOutcome where
  /-- The parser. -/
  | verdict (result : RespParseResult)
  /-- A handler. -/
  | response (result : Bytes × World)

namespace IntegerPlace

/-! ### The places -/

/-- In the protocol the text is what stands in front of the first line end; the argument of a
command may be any text. -/
def Holds : IntegerPlace → Bytes → Prop
  | elementCount _, text | bulkLength _ _ _ _, text => ¬ CRLF <:+: text
  | _, _ => True

/-- The buffer with the text in it. -/
def arrayBuffer (text rest : Bytes) : Bytes := (42 :: text) ++ (CRLF ++ rest)

/-- The buffer with the text in it, behind a front part. -/
def elementBuffer (front text rest : Bytes) : Bytes := front ++ ((36 :: text) ++ (CRLF ++ rest))

/-- What the source does at a place with a text. -/
def outcome : IntegerPlace → Bytes → IntegerOutcome
  | elementCount rest, text => .verdict (parseCommand (arrayBuffer text rest))
  | bulkLength front rest count parts, text =>
    .verdict (buildCommand
      (parseElements (elementBuffer front text rest) (count + 1) front.length parts))
  | setSeconds key value option _ more w, text =>
    .response (handleSet ⟨ascii "SET", key :: value :: option :: text :: more⟩ w)
  | expireSeconds key w, text => .response (handleExpire ⟨ascii "EXPIRE", [key, text]⟩ w)
  | lrangeStart key stop w, text =>
    .response (handleLrange ⟨ascii "LRANGE", [key, text, stop]⟩ w)
  | lrangeStop key start w, text =>
    .response (handleLrange ⟨ascii "LRANGE", [key, start, text]⟩ w)
  | lindexIndex key w, text => .response (handleLindex ⟨ascii "LINDEX", [key, text]⟩ w)

/-- What is done with a text that is not an integer: a protocol error, or the answer that says so.
`SET` has stored the value before. -/
def refusal : IntegerPlace → IntegerOutcome
  | elementCount _ | bulkLength _ _ _ _ => .verdict .protocolError
  | setSeconds key value _ _ _ w => .response (notInteger, (w.call (.set key value)).2)
  | expireSeconds _ w | lrangeStart _ _ w | lrangeStop _ _ w | lindexIndex _ w =>
    .response (notInteger, w)

/-- What is done with a text that has been taken as an integer.  The other index of `LRANGE` may
still be refused. -/
def proceed : IntegerPlace → Bytes → Int32 → IntegerOutcome
  | elementCount rest, text, n =>
    .verdict (readArray (arrayBuffer text rest) (text.length + 3) n)
  | bulkLength front rest count parts, text, n =>
    .verdict (buildCommand (readElement (elementBuffer front text rest)
      (front.length + text.length + 3) n count parts))
  | setSeconds key value _ _ _ w, _, n =>
    let w := (w.call (.set key value)).2
    .response (if n ≤ 0 then (invalidExpire "SET", w)
      else reply (.expire key n) (fun _ => ascii "OK") w)
  | expireSeconds key w, _, n =>
    .response (if n ≤ 0 then (invalidExpire "EXPIRE", w) else reply (.expire key n) boolText w)
  | lrangeStart key stop w, _, n =>
    .response (match stoi stop with
      | none => (notInteger, w)
      | some m => reply (.lrange key n m) (fun r => listText r.toStrings) w)
  | lrangeStop key start w, _, n =>
    .response (match stoi start with
      | none => (notInteger, w)
      | some m => reply (.lrange key m n) (fun r => listText r.toStrings) w)
  | lindexIndex key w, _, n =>
    .response (reply (.lindex key n) (fun r => optionalText r.optional) w)

/-- What is done with an integer, or without one. -/
def resume (p : IntegerPlace) (text : Bytes) : Option Int32 → IntegerOutcome
  | none => p.refusal
  | some n => p.proceed text n

/-- At all places the text is read by `std::stoi`, and refused if it throws. -/
theorem outcome_eq {p : IntegerPlace} {text : Bytes} (h : p.Holds text) :
    p.outcome text = p.resume text (stoi text) := by
  rcases p with rest | ⟨front, rest, count, parts⟩ | ⟨key, value, option, hoption, more, w⟩ |
    ⟨key, w⟩ | ⟨key, stop, w⟩ | ⟨key, start, w⟩ | ⟨key, w⟩
  · rw [outcome, arrayBuffer, parseCommand_line h]
    rcases stoi text with _ | n <;> rfl
  · rw [outcome, elementBuffer, parseElements_line front h]
    rcases stoi text with _ | n <;> rfl
  · simp only [outcome, handleSet, handleSetOption, if_pos hoption]
    rcases stoi text with _ | n <;> rfl
  · simp only [outcome, handleExpire]
    rcases stoi text with _ | n <;> rfl
  · simp only [outcome, handleLrange, resume, refusal, proceed]
    rcases stoi text with _ | n <;> rcases stoi stop with _ | m <;> rfl
  · simp only [outcome, handleLrange, resume, refusal, proceed]
    rcases stoi text with _ | n <;> rcases stoi start with _ | m <;> rfl
  · simp only [outcome, handleLindex]
    rcases stoi text with _ | n <;> rfl

/-! ### The strict reading -/

/-- The text is read strictly: it is taken as an integer if and only if it denotes it as a whole,
and every other text is refused. -/
structure StrictAt (p : IntegerPlace) (text : Bytes) : Prop where
  /-- The integer that is taken. -/
  taken : ∀ n, stoi text = some n ↔ Denotes text n
  /-- The integer is used. -/
  proceeds : ∀ n, Denotes text n → p.outcome text = p.proceed text n
  /-- There is none. -/
  refused : (∀ n, ¬ Denotes text n) → p.outcome text = p.refusal

/-- **Integers in the text of clients.**  At every place the text is read by `std::stoi`, and it is
read strictly if and only if it is no integer with white space in front of it or other bytes behind
it. -/
theorem strictAt_iff {p : IntegerPlace} {text : Bytes} (h : p.Holds text) :
    p.outcome text = p.resume text (stoi text) ∧ (p.StrictAt text ↔ ¬ Padded text) := by
  refine ⟨outcome_eq h, fun hstrict => stoi_strict_iff.mp hstrict.taken, fun hpadded => ?_⟩
  have htaken := stoi_strict_iff.mpr hpadded
  refine ⟨htaken, fun n hn => ?_, fun hnone => ?_⟩
  · rw [outcome_eq h, (htaken n).mpr hn]
    rfl
  · have hthrows : stoi text = none := Option.eq_none_iff_forall_ne_some.mpr fun n hn =>
      hnone n ((htaken n).mp hn)
    rw [outcome_eq h, hthrows]
    rfl

/-- `10` denotes an integer, also with a sign. -/
theorem denotes_ten {sign : Bytes} (hsign : sign = [] ∨ sign = [43]) :
    Denotes (sign ++ ascii "10") 10 := by
  have hdigits : ∀ c ∈ ascii "10", isDigit c = true := List.all_eq_true.mp (by decide)
  rcases hsign with rfl | rfl
  · exact ⟨[], by decide, ascii "10", rfl, by decide, hdigits, by decide⟩
  · exact ⟨[43], by decide, ascii "10", rfl, by decide, hdigits, by decide⟩

/-- An `EXPIRE` with a signed number. -/
theorem strictAt_expire_ten :
    (expireSeconds (ascii "k") World.initial).StrictAt (ascii "+10") :=
  (strictAt_iff (p := expireSeconds (ascii "k") World.initial) trivial).2.mpr
    (not_padded_of_denotes (denotes_ten (Or.inr rfl)))

/-- `10abc` is an integer with other bytes behind it. -/
theorem padded_ten_abc : Padded (ascii "10abc") := by
  have hpadding : Padding [] (ascii "abc") := by
    refine ⟨fun c hc => absurd hc List.not_mem_nil, fun c hc => ?_⟩
    obtain rfl := Option.some.inj hc
    decide
  exact ⟨[], ascii "10", ascii "abc", 10, by decide, hpadding, denotes_ten (Or.inl rfl),
    by decide⟩

/-- A text that denotes no integer is accepted by `EXPIRE`, by the count of an array and by the
length of an element. -/
theorem expire_accepts_trailing_bytes :
    let w := (handleSet ⟨ascii "SET", [ascii "k", ascii "v"]⟩ World.initial).2
    (∀ n, ¬ Denotes (ascii "10abc") n) ∧
      (handleExpire ⟨ascii "EXPIRE", [ascii "k", ascii "10abc"]⟩ w).1 = ascii "(integer) 1" ∧
      (handleExpire ⟨ascii "EXPIRE", [ascii "k", ascii "10"]⟩ w).1 = ascii "(integer) 1" ∧
      parseCommand (ascii "*1x\r\n$ 4y\r\nPING\r\n") = .ok ⟨ascii "PING", []⟩ 17 := by
  refine ⟨fun n hn => not_padded_of_denotes hn padded_ten_abc, ?_, ?_, ?_⟩ <;> decide +kernel

end IntegerPlace

end MyRedis
