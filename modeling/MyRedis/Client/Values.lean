import MyRedis.Client.Reader

/-!
# Values and their display

The RESP2 values as trees, their encoding by the functions of `resp.cpp`, and the text that the
client shows for them.  `Client.parseRespValue_inverts_encode` says that the reader of the client
inverts the encoding, whatever follows it, and that it does not mistake a part of an encoding for a
value.
-/

namespace MyRedis

open Foundation Resp

/-- A RESP2 value. -/
inductive RespTree where
  /-- A status. -/
  | simpleString (str : Bytes)
  /-- An error. -/
  | error (msg : Bytes)
  /-- An integer. -/
  | integer (val : Int64)
  /-- A string. -/
  | bulkString (str : Bytes)
  /-- The absent string. -/
  | nullBulkString
  /-- The absent array. -/
  | nullArray
  /-- An array. -/
  | array (elements : List RespTree)

namespace RespTree

mutual

/-- The encoding of a value. -/
def encode : RespTree → Bytes
  | simpleString str => Resp.simpleString str
  | error msg => Resp.error msg
  | integer val => Resp.integer val
  | bulkString str => Resp.bulkString str
  | nullBulkString => Resp.nullBulkString
  | nullArray => Resp.nullArray
  | array elements => Resp.array (encodeAll elements)

/-- The encodings of several values. -/
def encodeAll : List RespTree → List Bytes
  | [] => []
  | t :: ts => t.encode :: encodeAll ts

end

mutual

/-- The text that is shown for a value. -/
def display : RespTree → Bytes
  | simpleString str => str
  | error msg => msg
  | integer val => integerText val.toInt
  | bulkString str => quoted str
  | nullBulkString | nullArray => ascii "(nil)"
  | array [] => ascii "(empty array)"
  | array (t :: ts) => lines (numberItems (displayAll (t :: ts)))

/-- The texts that are shown for several values. -/
def displayAll : List RespTree → List Bytes
  | [] => []
  | t :: ts => t.display :: displayAll ts

end

/-- The values that the protocol can express: the lines of statuses and errors end at their first
`\r\n`, and the lengths of strings and arrays fit into an `int`. -/
inductive Fits : RespTree → Prop
  | simpleString {str : Bytes} (h : ¬ CRLF <:+: str) : Fits (.simpleString str)
  | error {msg : Bytes} (h : ¬ CRLF <:+: msg) : Fits (.error msg)
  | integer (val : Int64) : Fits (.integer val)
  | bulkString {str : Bytes} (h : str.length < 2 ^ 31) : Fits (.bulkString str)
  | nullBulkString : Fits .nullBulkString
  | nullArray : Fits .nullArray
  | array {elements : List RespTree} (hcount : elements.length < 2 ^ 31)
      (helements : ∀ t ∈ elements, Fits t) : Fits (.array elements)

theorem encodeAll_eq_map (ts : List RespTree) : encodeAll ts = ts.map encode := by
  induction ts with
  | nil => rfl
  | cons t ts ih => rw [encodeAll, ih, List.map_cons]

theorem displayAll_eq_map (ts : List RespTree) : displayAll ts = ts.map display := by
  induction ts with
  | nil => rfl
  | cons t ts ih => rw [displayAll, ih, List.map_cons]

end RespTree

namespace Client

/-- A status or an error is shown as it is. -/
theorem parseRespValue_status {tag : UInt8} (htag : tag = 43 ∨ tag = 45) {line : Bytes}
    (hline : ¬ CRLF <:+: line) (rest : Bytes) :
    parseRespValue ((tag :: (line ++ CRLF)) ++ rest) =
      some (line, (tag :: (line ++ CRLF)).length) := by
  have hcr : tag ≠ CR := by
    rcases htag with rfl | rfl <;> decide
  have h := parseRespValue_line hcr hline rest
  rw [if_pos htag] at h
  simpa [CRLF] using h

/-- An integer is shown with its type. -/
theorem parseRespValue_integer (val : Int64) (rest : Bytes) :
    parseRespValue (integer val ++ rest) = some (integerText val.toInt, (integer val).length) := by
  have hbytes : integer val ++ rest = (58 :: decimalInt val.toInt) ++ (CRLF ++ rest) := by
    simp [integer, ascii]
  have hlength : (integer val).length = (decimalInt val.toInt).length + 3 := by
    simp [integer, ascii, CRLF]
  have h := parseRespValue_line (show (58 : UInt8) ≠ CR by decide)
    (not_crlf_infix_decimalInt val.toInt) rest
  rw [if_neg (by decide), if_pos rfl] at h
  rw [hbytes, hlength, h, integerText]

/-- An absent string is shown as such. -/
theorem parseRespValue_nullBulkString (rest : Bytes) :
    parseRespValue (nullBulkString ++ rest) = some (ascii "(nil)", nullBulkString.length) := by
  have h := parseRespValue_line (show (36 : UInt8) ≠ CR by decide)
    (show ¬ CRLF <:+: ascii "-1" by decide) rest
  have hlen : stoi (ascii "-1") = some (-1) := by decide
  rw [if_neg (by decide), if_neg (by decide), if_pos rfl, bulkValue, hlen] at h
  exact h

/-- So is an absent array. -/
theorem parseRespValue_nullArray (rest : Bytes) :
    parseRespValue (nullArray ++ rest) = some (ascii "(nil)", nullArray.length) := by
  have h := parseRespValue_line (show (42 : UInt8) ≠ CR by decide)
    (show ¬ CRLF <:+: ascii "-1" by decide) rest
  have hcount : stoi (ascii "-1") = some (-1) := by decide
  rw [if_neg (by decide), if_neg (by decide), if_neg (by decide), if_pos rfl, arrayValue,
    hcount] at h
  exact h

/-- So is an array without elements. -/
theorem parseRespValue_emptyArray (rest : Bytes) :
    parseRespValue (emptyArray ++ rest) = some (ascii "(empty array)", emptyArray.length) := by
  have h := parseRespValue_line (show (42 : UInt8) ≠ CR by decide)
    (show ¬ CRLF <:+: ascii "0" by decide) rest
  have hcount : stoi (ascii "0") = some 0 := by decide
  rw [if_neg (by decide), if_neg (by decide), if_neg (by decide), if_pos rfl, arrayValue,
    hcount] at h
  exact h

/-- The encoding of a value is read back, whatever follows. -/
theorem parseRespValue_tree {t : RespTree} (h : t.Fits) (rest : Bytes) :
    parseRespValue (t.encode ++ rest) = some (t.display, t.encode.length) := by
  induction h generalizing rest with
  | simpleString h => exact parseRespValue_status (Or.inl rfl) h rest
  | error h => exact parseRespValue_status (Or.inr rfl) h rest
  | integer val => exact parseRespValue_integer val rest
  | bulkString h => exact parseRespValue_bulkString h rest
  | nullBulkString => exact parseRespValue_nullBulkString rest
  | nullArray => exact parseRespValue_nullArray rest
  | @array elements hcount _ ih =>
    rcases elements with _ | ⟨t, ts⟩
    · exact parseRespValue_emptyArray rest
    · have hitems : ∀ item ∈ (t :: ts).map fun t => (t.encode, t.display), ∀ rest,
          parseRespValue (item.1 ++ rest) = some (item.2, item.1.length) := by
        intro item hitem rest
        obtain ⟨t', ht', rfl⟩ := List.mem_map.mp hitem
        exact ih t' ht' rest
      have harray := parseRespValue_array (by rw [List.length_map]; exact hcount) (by simp) hitems
        rest
      rw [List.map_map, List.map_map] at harray
      rw [RespTree.encode, RespTree.display, RespTree.encodeAll_eq_map, RespTree.displayAll_eq_map]
      exact harray

/-- **Decoding inverts encoding.**  For every RESP2 value and all bytes that follow its encoding,
the reader of the client takes exactly the encoding and shows the value; from a proper part of the
encoding it takes nothing. -/
theorem parseRespValue_inverts_encode {t : RespTree} (h : t.Fits) :
    (∀ rest, parseRespValue (t.encode ++ rest) = some (t.display, t.encode.length)) ∧
      ∀ part, part <+: t.encode → part ≠ t.encode → parseRespValue part = none := by
  refine ⟨parseRespValue_tree h, fun part hpart hne => ?_⟩
  have hcode := parseRespValue_tree h []
  rw [List.append_nil] at hcode
  exact decoder.decode_part hcode hpart hne

/-- An array that contains a status, a string with a line break, and an array with an absent
string. -/
theorem parseRespValue_inverts_encode_nested :
    let t : RespTree := .array [.simpleString (ascii "OK"), .bulkString CRLF,
      .array [.nullBulkString, .integer (-7)]]
    (∀ rest, parseRespValue (t.encode ++ rest) =
      some (ascii "1) OK\n2) \"\r\n\"\n3) 1) (nil)\n2) (integer) -7", 31)) ∧
      parseRespValue (t.encode.take 30) = none := by
  intro t
  have hfits : t.Fits := by
    refine .array (by decide) fun e he => ?_
    simp only [List.mem_cons, List.not_mem_nil, or_false] at he
    rcases he with rfl | rfl | rfl
    · exact .simpleString (by decide)
    · exact .bulkString (by decide)
    · refine .array (by decide) fun e he => ?_
      simp only [List.mem_cons, List.not_mem_nil, or_false] at he
      rcases he with rfl | rfl
      · exact .nullBulkString
      · exact .integer _
  obtain ⟨hread, hpart⟩ := parseRespValue_inverts_encode hfits
  exact ⟨hread, hpart _ (List.take_prefix _ _) (by decide)⟩

end Client

end MyRedis
