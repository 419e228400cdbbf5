import MyRedis.Foundation.TextLines

/-!
# Writing replies

The second half of `resp.cpp`: the five kinds of RESP2 values and `serialize_response`, which
guesses the kind of a value from the text that a command handler returned.

The recursion of `serialize_response` on the elements of an array runs on shorter and shorter
texts; here it has a fuel argument, and `serializeResponse` supplies the length of the text.
-/

namespace MyRedis.Resp

open Foundation

/-! ### The kinds of values -/

/-- A status line. -/
def simpleString (str : Bytes) : Bytes := ascii "+" ++ str ++ CRLF

/-- An error line. -/
def error (msg : Bytes) : Bytes := ascii "-" ++ msg ++ CRLF

/-- An integer line. -/
def integer (val : Int64) : Bytes := ascii ":" ++ decimalInt val.toInt ++ CRLF

/-- A string preceded by its length. -/
def bulkString (str : Bytes) : Bytes := ascii "$" ++ decimal str.length ++ CRLF ++ str ++ CRLF

/-- The absent string. -/
def nullBulkString : Bytes := ascii "$-1" ++ CRLF

/-- The absent array. -/
def nullArray : Bytes := ascii "*-1" ++ CRLF

/-- The array without elements. -/
def emptyArray : Bytes := ascii "*0" ++ CRLF

/-- An array of values that are already serialized. -/
def array (elements : List Bytes) : Bytes :=
  ascii "*" ++ decimal elements.length ++ CRLF ++ elements.flatten

/-! ### Text streams -/

/-- The text after the first `") "` of a line. -/
def afterParen : Bytes → Option Bytes
  | [] => none
  | c :: s => if c = 41 ∧ s.head? = some 32 then some s.tail else afterParen s

/-- `stream >> token`: white space is skipped and the longest run of other characters is read.  The
result is the token, empty at the end of the stream, and what is left of the stream. -/
def readToken (stream : Bytes) : Bytes × Bytes :=
  (stream.dropWhile isSpace).span fun c => !isSpace c

/-- The text starts and ends with a quotation mark. -/
def isQuoted (s : Bytes) : Bool :=
  2 ≤ s.length && s.head? == some 34 && s.getLast? == some 34

/-- The text between the quotation marks. -/
def unquote (s : Bytes) : Bytes :=
  s.tail.dropLast

/-! ### Replies -/

/-- One line of a pub/sub confirmation: type, channel, and a count or a payload. -/
def serializePush (line : Bytes) : Bytes :=
  let type := (readToken line).1
  let afterType := (readToken line).2
  let channel := (readToken afterType).1
  let third := (readToken afterType).2.dropWhile isSpace
  let last :=
    if type = ascii "message" then bulkString third
    else
      match stoll third with
      | some count => integer count
      | none => bulkString third
  array [bulkString type, bulkString channel, last]

/-- The text is shown as an error. -/
def isError (response : Bytes) : Bool :=
  response.take 4 == ascii "ERR " || response.take 3 == ascii "ERR" ||
    response.take 10 == ascii "WRONGTYPE " || response.take 7 == ascii "NOAUTH "

/-- The text is shown as an array. -/
def isArray (response : Bytes) : Bool :=
  3 ≤ response.length && response.head?.any (fun c => 49 ≤ c && c ≤ 57) &&
    response[1]? == some 41

/-- The text is shown as a pub/sub message. -/
def isPush (response : Bytes) : Bool :=
  response.take 10 == ascii "subscribe " || response.take 12 == ascii "unsubscribe " ||
    response.take 8 == ascii "message "

/-- The number in a text `(integer) N`. -/
def integerOf (response : Bytes) : Option Int64 :=
  if 10 < response.length ∧ response.take 10 = ascii "(integer) " then stoll (response.drop 10)
  else none

/-- `serialize_response`, with fuel for the elements of arrays. -/
def serialize : ℕ → Bytes → Bytes
  | 0, _ => []
  | fuel + 1, response =>
    if response = [] then nullBulkString
    else if response = ascii "OK" then simpleString (ascii "OK")
    else if response = ascii "PONG" then simpleString (ascii "PONG")
    else if response = ascii "QUEUED" then simpleString (ascii "QUEUED")
    else if response = ascii "(nil)" then nullBulkString
    else if response = ascii "(empty list)" then emptyArray
    else if isError response then error response
    else
      match integerOf response with
      | some val => integer val
      | none =>
        if isQuoted response then bulkString (unquote response)
        else if isArray response then
          array ((getLines response).map fun line =>
            match afterParen line with
            | some content =>
              if isQuoted content then bulkString (unquote content) else serialize fuel content
            | none => bulkString line)
        else if isPush response then ((getLines response).map serializePush).flatten
        else bulkString response

/-- `Resp::serialize_response`. -/
def serializeResponse (response : Bytes) : Bytes :=
  serialize (response.length + 1) response

end MyRedis.Resp
