import MyRedis.Commands.Handlers
import MyRedis.Foundation.StreamDecoder
import MyRedis.Resp.Encoding
import MyRedis.Resp.Framing

/-!
# The reader of the client

The half of the class `Client` in `client.cpp` that reads replies: `parse_resp_value` reads one
RESP2 value from the front of the buffer and turns it into the text that is shown to the user, and
`read_resp_response` calls it until the bytes that have arrived are enough.

The recursion on the elements of an array goes into the rest of the buffer behind a header line, so
that the length of the buffer is enough fuel; `parseRespValue_eq` is the recursion equation without
fuel.  A value that is read lies in the buffer and is read in the same way when more bytes have
arrived (`parseRespValue_final`), which makes `parse_resp_value` a decoder of streams.
-/

namespace MyRedis.Client

open Foundation Resp

/-- The loop over the elements of an array: `count` of them are still to be read, from the position
`pos` on. -/
def elements (value : Bytes → Option (Bytes × ℕ)) (saved : Bytes) :
    ℕ → ℕ → Option (List Bytes × ℕ)
  | 0, pos => some ([], pos)
  | count + 1, pos =>
    match value (saved.drop pos) with
    | none => none
    | some (elem, subConsumed) =>
      (elements value saved count (pos + subConsumed)).map fun later => (elem :: later.1, later.2)

/-- The case of a bulk string whose header line ends at `crlf` and announces the length `lenStr`. -/
def bulkValue (readBuffer : Bytes) (crlf : ℕ) (lenStr : Bytes) : Option (Bytes × ℕ) :=
  match stoi lenStr with
  | none => some (ascii "(error) invalid bulk string length", crlf + 2)
  | some len =>
    if len < 0 then some (ascii "(nil)", crlf + 2)
    else if readBuffer.length < crlf + 2 + len.toInt.toNat + 2 then none
    else some (quoted ((readBuffer.drop (crlf + 2)).take len.toInt.toNat),
      crlf + 2 + len.toInt.toNat + 2)

/-- The case of an array whose header line ends at `crlf` and announces the number `countStr`. -/
def arrayValue (value : Bytes → Option (Bytes × ℕ)) (readBuffer : Bytes) (crlf : ℕ)
    (countStr : Bytes) : Option (Bytes × ℕ) :=
  match stoi countStr with
  | none => some (ascii "(error) invalid array count", crlf + 2)
  | some count =>
    if count < 0 then some (ascii "(nil)", crlf + 2)
    else if count = 0 then some (ascii "(empty array)", crlf + 2)
    else
      (elements value readBuffer count.toInt.toNat (crlf + 2)).map fun elems =>
        (lines (numberItems elems.1), elems.2)

/-- One level of `parse_resp_value`, where `value` reads the elements of an array: the text of the
value at the front of the buffer and the number of its bytes; `none` if the buffer does not contain
a complete value. -/
def level (value : Bytes → Option (Bytes × ℕ)) : Bytes → Option (Bytes × ℕ)
  | [] => none
  | type :: rest =>
    match findCrlf (type :: rest) 0 with
    | none => none
    | some crlf =>
      if type = 43 ∨ type = 45 then some (rest.take (crlf - 1), crlf + 2)
      else if type = 58 then some (ascii "(integer) " ++ rest.take (crlf - 1), crlf + 2)
      else if type = 36 then bulkValue (type :: rest) crlf (rest.take (crlf - 1))
      else if type = 42 then arrayValue value (type :: rest) crlf (rest.take (crlf - 1))
      else some ((type :: rest).take crlf, crlf + 2)

/-- `parse_resp_value`, which calls itself for the elements of an array. -/
def respValue : ℕ → Bytes → Option (Bytes × ℕ)
  | 0, _ => none
  | fuel + 1, readBuffer => level (respValue fuel) readBuffer

/-- `parse_resp_value` on a buffer. -/
def parseRespValue (readBuffer : Bytes) : Option (Bytes × ℕ) :=
  respValue readBuffer.length readBuffer

/-- `read_resp_response`, where `reads` are the results of the calls of `socket_read` to come: the
text of the value, what is left in the buffer, and the calls that are left. -/
def readRespResponse : List Bytes → Bytes → Option (Bytes × Bytes × List Bytes)
  | [], readBuffer =>
    (parseRespValue readBuffer).map fun value => (value.1, readBuffer.drop value.2, [])
  | bytes :: reads, readBuffer =>
    match parseRespValue readBuffer with
    | some value => some (value.1, readBuffer.drop value.2, bytes :: reads)
    | none => readRespResponse reads (readBuffer ++ bytes)

/-! ### One level -/

/-- The loop over the elements looks at the buffer behind its start only. -/
theorem elements_congr {value value' : Bytes → Option (Bytes × ℕ)} {saved : Bytes} {start : ℕ}
    (h : ∀ pos, start ≤ pos → value (saved.drop pos) = value' (saved.drop pos)) (count : ℕ)
    {pos : ℕ}
    (hpos : start ≤ pos) : elements value saved count pos = elements value' saved count pos := by
  induction count generalizing pos with
  | zero => rfl
  | succ count ih =>
    rw [elements, elements, h pos hpos]
    cases value' (saved.drop pos) with
    | none => rfl
    | some sub => simp only [ih (hpos.trans (Nat.le_add_right pos sub.2))]

/-- One level looks at shorter buffers only. -/
theorem level_congr {value value' : Bytes → Option (Bytes × ℕ)} {buffer : Bytes}
    (h : ∀ pos, 1 ≤ pos → value (buffer.drop pos) = value' (buffer.drop pos)) :
    level value buffer = level value' buffer := by
  unfold level
  split
  · rfl
  · rename_i type rest
    have harray : ∀ crlf countStr, arrayValue value (type :: rest) crlf countStr =
        arrayValue value' (type :: rest) crlf countStr := by
      intro crlf countStr
      unfold arrayValue
      split
      · rfl
      · rw [elements_congr h _ (by omega)]
    simp only [harray]

/-- More fuel than the length of the buffer makes no difference. -/
theorem respValue_fuel {fuel : ℕ} {buffer : Bytes} (hfuel : buffer.length ≤ fuel) :
    respValue fuel buffer = parseRespValue buffer := by
  induction hlength : buffer.length using Nat.strongRecOn generalizing buffer fuel with
  | _ length ih =>
    cases buffer with
    | nil => cases fuel <;> rfl
    | cons type rest =>
      subst hlength
      rw [List.length_cons] at hfuel
      obtain ⟨fuel, rfl⟩ := Nat.exists_eq_add_of_le' (Nat.le_of_add_left_le hfuel)
      rw [parseRespValue, List.length_cons, respValue, respValue]
      refine level_congr fun pos hpos => ?_
      have hshort : ((type :: rest).drop pos).length ≤ rest.length := by
        rw [List.length_drop, List.length_cons]
        omega
      have hlt := Nat.lt_succ_of_le hshort
      rw [ih _ hlt (hshort.trans (Nat.le_of_succ_le_succ hfuel)) rfl, ih _ hlt hshort rfl]

/-- `parse_resp_value` calls itself for the elements of arrays. -/
theorem parseRespValue_eq (buffer : Bytes) :
    parseRespValue buffer = level parseRespValue buffer := by
  rw [← respValue_fuel (Nat.le_succ buffer.length), respValue]
  refine level_congr fun pos _ => respValue_fuel ?_
  rw [List.length_drop]
  exact Nat.sub_le _ _

/-! ### Verdicts are final -/

/-- The elements lie in the buffer one behind the other. -/
theorem elements_bounds {value : Bytes → Option (Bytes × ℕ)} {saved : Bytes} {start : ℕ}
    (hvalue : ∀ pos, start ≤ pos → ∀ {elem n}, value (saved.drop pos) = some (elem, n) →
      n ≤ (saved.drop pos).length)
    {count pos : ℕ} (hpos : start ≤ pos) (hle : pos ≤ saved.length) {elems : List Bytes} {last : ℕ}
    (h : elements value saved count pos = some (elems, last)) :
    pos ≤ last ∧ last ≤ saved.length := by
  induction count generalizing pos elems with
  | zero =>
    obtain ⟨-, rfl⟩ := Prod.mk.inj (Option.some.inj h)
    exact ⟨le_rfl, hle⟩
  | succ count ih =>
    rw [elements] at h
    cases hsub : value (saved.drop pos) with
    | none => simp [hsub] at h
    | some sub =>
      have hn := hvalue pos hpos hsub
      rw [List.length_drop] at hn
      rw [hsub] at h
      obtain ⟨later, hlater, heq⟩ := Option.map_eq_some_iff.mp h
      obtain ⟨-, rfl⟩ := Prod.mk.inj heq
      have := ih (hpos.trans (Nat.le_add_right _ _)) (by omega) hlater
      omega

/-- Elements that have been read are read from a longer buffer as well. -/
theorem elements_stable {value : Bytes → Option (Bytes × ℕ)} {saved : Bytes} (later : Bytes)
    {start : ℕ}
    (hvalue : ∀ pos, start ≤ pos → ∀ {elem n}, value (saved.drop pos) = some (elem, n) →
      n ≤ (saved.drop pos).length ∧ value (saved.drop pos ++ later) = some (elem, n))
    {count pos : ℕ} (hpos : start ≤ pos) (hle : pos ≤ saved.length) {result : List Bytes × ℕ}
    (h : elements value saved count pos = some result) :
    elements value (saved ++ later) count pos = some result := by
  induction count generalizing pos result with
  | zero => exact h
  | succ count ih =>
    rw [elements] at h ⊢
    cases hsub : value (saved.drop pos) with
    | none => simp [hsub] at h
    | some sub =>
      obtain ⟨hn, hsub'⟩ := hvalue pos hpos hsub
      rw [List.length_drop] at hn
      rw [hsub] at h
      rw [List.drop_append_of_le_length hle, hsub']
      obtain ⟨rest, hrest, heq⟩ := Option.map_eq_some_iff.mp h
      refine Option.map_eq_some_iff.mpr ⟨rest, ?_, heq⟩
      exact ih (hpos.trans (Nat.le_add_right _ _)) (by omega) hrest

/-- What it means that the verdict on a buffer is final: the value lies in the buffer, and it is
read in the same way when more bytes have arrived. -/
structure Final (value : Bytes → Option (Bytes × ℕ)) (buffer later : Bytes) (text : Bytes) (n : ℕ) :
    Prop where
  /-- A value takes at least one byte. -/
  pos : 0 < n
  /-- A value takes no more bytes than there are. -/
  le_length : n ≤ buffer.length
  /-- What comes later makes no difference. -/
  stable : value (buffer ++ later) = some (text, n)

/-- The verdict on a bulk string is final. -/
theorem bulkValue_final {buffer lenStr text : Bytes} {crlf n : ℕ} (hcrlf : crlf + 2 ≤ buffer.length)
    (h : bulkValue buffer crlf lenStr = some (text, n)) (later : Bytes) :
    Final (fun b => bulkValue b crlf lenStr) buffer later text n := by
  unfold bulkValue at h
  cases hlen : stoi lenStr with
  | none =>
    rw [hlen] at h
    obtain ⟨rfl, rfl⟩ := Prod.mk.inj (Option.some.inj h)
    exact ⟨by omega, hcrlf, by simp only [bulkValue, hlen]⟩
  | some len =>
    simp only [hlen] at h
    split_ifs at h with hneg hshort
    · obtain ⟨rfl, rfl⟩ := Prod.mk.inj (Option.some.inj h)
      exact ⟨by omega, hcrlf, by simp only [bulkValue, hlen, hneg, if_true]⟩
    · obtain ⟨rfl, rfl⟩ := Prod.mk.inj (Option.some.inj h)
      have hlong : ¬ (buffer ++ later).length < crlf + 2 + len.toInt.toNat + 2 := by
        rw [List.length_append]
        omega
      have hdata : ((buffer ++ later).drop (crlf + 2)).take len.toInt.toNat =
          (buffer.drop (crlf + 2)).take len.toInt.toNat := by
        rw [List.drop_append_of_le_length hcrlf, List.take_append_of_le_length]
        rw [List.length_drop]
        omega
      exact ⟨by omega, by omega, by simp only [bulkValue, hlen, hneg, hlong, if_false, hdata]⟩

/-- The verdict on an array is final if those on its elements are. -/
theorem arrayValue_final {value : Bytes → Option (Bytes × ℕ)} {buffer later countStr text : Bytes}
    {crlf n : ℕ} (hvalue : ∀ pos, 1 ≤ pos → ∀ {elem n}, value (buffer.drop pos) = some (elem, n) →
      Final value (buffer.drop pos) later elem n)
    (hcrlf : crlf + 2 ≤ buffer.length)
    (h : arrayValue value buffer crlf countStr = some (text, n)) :
    Final (fun b => arrayValue value b crlf countStr) buffer later text n := by
  unfold arrayValue at h
  cases hcount : stoi countStr with
  | none =>
    rw [hcount] at h
    obtain ⟨rfl, rfl⟩ := Prod.mk.inj (Option.some.inj h)
    exact ⟨by omega, hcrlf, by simp only [arrayValue, hcount]⟩
  | some count =>
    simp only [hcount] at h
    split_ifs at h with hneg hzero
    · obtain ⟨rfl, rfl⟩ := Prod.mk.inj (Option.some.inj h)
      exact ⟨by omega, hcrlf, by simp only [arrayValue, hcount, hneg, if_true]⟩
    · obtain ⟨rfl, rfl⟩ := Prod.mk.inj (Option.some.inj h)
      exact ⟨by omega, hcrlf, by simp [arrayValue, hcount, hzero]⟩
    · obtain ⟨⟨elems, last⟩, helems, heq⟩ := Option.map_eq_some_iff.mp h
      obtain ⟨rfl, rfl⟩ := Prod.mk.inj heq
      have hbounds := elements_bounds (fun pos hpos _ _ hsub => (hvalue pos hpos hsub).le_length)
        (by omega) hcrlf helems
      have hstable := elements_stable later
        (fun pos hpos _ _ hsub => ⟨(hvalue pos hpos hsub).le_length, (hvalue pos hpos hsub).stable⟩)
        (by omega) hcrlf helems
      refine ⟨by omega, hbounds.2, ?_⟩
      simp only [arrayValue, hcount, hneg, hzero, if_false, hstable, Option.map_some]

/-- The verdict of one level is final if those on shorter buffers are. -/
theorem level_final {value : Bytes → Option (Bytes × ℕ)} {buffer later text : Bytes} {n : ℕ}
    (hvalue : ∀ pos, 1 ≤ pos → ∀ {elem n}, value (buffer.drop pos) = some (elem, n) →
      Final value (buffer.drop pos) later elem n)
    (h : level value buffer = some (text, n)) : Final (level value) buffer later text n := by
  cases buffer with
  | nil => cases h
  | cons type rest =>
    rw [level] at h
    cases hfind : findCrlf (type :: rest) 0 with
    | none => simp [hfind] at h
    | some crlf =>
      have hcrlf := add_two_le_of_findCrlf hfind
      have hfind' := findCrlf_append_right hfind later
      have hline : (rest ++ later).take (crlf - 1) = rest.take (crlf - 1) := by
        rw [List.length_cons] at hcrlf
        exact List.take_append_of_le_length (by omega)
      have hwhole : (type :: rest ++ later).take crlf = (type :: rest).take crlf :=
        List.take_append_of_le_length (by omega)
      -- the same branch is taken on the longer buffer
      have hlonger : level value (type :: rest ++ later) =
          if type = 43 ∨ type = 45 then some (rest.take (crlf - 1), crlf + 2)
          else if type = 58 then some (ascii "(integer) " ++ rest.take (crlf - 1), crlf + 2)
          else if type = 36 then bulkValue (type :: rest ++ later) crlf (rest.take (crlf - 1))
          else if type = 42 then
            arrayValue value (type :: rest ++ later) crlf (rest.take (crlf - 1))
          else some ((type :: rest).take crlf, crlf + 2) := by
        rw [List.cons_append] at hfind' hwhole ⊢
        rw [level, hfind']
        simp only [hline, hwhole]
      have hdone {t : Bytes} (ht : some (t, crlf + 2) = some (text, n)) :
          (t = text ∧ 0 < n) ∧ n ≤ (type :: rest).length := by
        obtain ⟨rfl, rfl⟩ := Prod.mk.inj (Option.some.inj ht)
        exact ⟨⟨rfl, by omega⟩, hcrlf⟩
      simp only [hfind] at h
      split_ifs at h hlonger with hstatus hinteger hbulk harray
      · obtain ⟨⟨-, hpos⟩, hle⟩ := hdone h
        exact ⟨hpos, hle, hlonger.trans h⟩
      · obtain ⟨⟨-, hpos⟩, hle⟩ := hdone h
        exact ⟨hpos, hle, hlonger.trans h⟩
      · obtain ⟨hpos, hle, hstable⟩ := bulkValue_final hcrlf h later
        exact ⟨hpos, hle, hlonger.trans hstable⟩
      · obtain ⟨hpos, hle, hstable⟩ := arrayValue_final hvalue hcrlf h
        exact ⟨hpos, hle, hlonger.trans hstable⟩
      · obtain ⟨⟨-, hpos⟩, hle⟩ := hdone h
        exact ⟨hpos, hle, hlonger.trans h⟩

/-- The verdict on every buffer is final. -/
theorem parseRespValue_final {buffer text : Bytes} {n : ℕ}
    (h : parseRespValue buffer = some (text, n)) (later : Bytes) :
    Final parseRespValue buffer later text n := by
  induction hlength : buffer.length using Nat.strongRecOn generalizing buffer text n with
  | _ length ih =>
    subst hlength
    rw [parseRespValue_eq] at h
    have hsub : ∀ pos, 1 ≤ pos → ∀ {elem n}, parseRespValue (buffer.drop pos) = some (elem, n) →
        Final parseRespValue (buffer.drop pos) later elem n := by
      intro pos hpos elem n hvalue
      have hne : buffer ≠ [] := by
        rintro rfl
        cases h
      have hshort : (buffer.drop pos).length < buffer.length := by
        have := List.length_pos_of_ne_nil hne
        rw [List.length_drop]
        omega
      exact ih _ hshort hvalue rfl
    obtain ⟨hpos, hle, hstable⟩ := level_final hsub h
    exact ⟨hpos, hle, (parseRespValue_eq _).trans hstable⟩

/-- `parse_resp_value` as a decoder. -/
def decoder : StreamDecoder UInt8 Bytes where
  decode := parseRespValue
  pos := fun h => (parseRespValue_final h []).pos
  le_length := fun h => (parseRespValue_final h []).le_length
  stable := fun h later => (parseRespValue_final h later).stable

/-! ### Values one by one -/

/-- What is read from a buffer whose first line is `tag` and `line`. -/
theorem parseRespValue_line {tag : UInt8} (htag : tag ≠ CR) {line : Bytes}
    (hline : ¬ CRLF <:+: line)
    (tail : Bytes) : parseRespValue ((tag :: line) ++ (CRLF ++ tail)) =
      if tag = 43 ∨ tag = 45 then some (line, line.length + 3)
      else if tag = 58 then some (ascii "(integer) " ++ line, line.length + 3)
      else if tag = 36 then bulkValue ((tag :: line) ++ (CRLF ++ tail)) (line.length + 1) line
      else if tag = 42 then
        arrayValue parseRespValue ((tag :: line) ++ (CRLF ++ tail)) (line.length + 1) line
      else some (tag :: line, line.length + 3) := by
  have hfirst : ¬ CRLF <:+: tag :: line := by
    have htag' : CR ∉ [tag] := by simpa using Ne.symm htag
    rwa [← List.singleton_append, crlf_infix_append_left htag']
  have hfind : findCrlf (tag :: (line ++ (CRLF ++ tail))) 0 = some (line.length + 1) := by
    have h := crlfOffset_line hfirst tail
    rw [List.cons_append] at h
    rw [findCrlf, List.drop_zero, h, Option.map_some, Nat.zero_add, List.length_cons]
  have hwhole : (tag :: (line ++ (CRLF ++ tail))).take (line.length + 1) = tag :: line := by
    rw [List.take_succ_cons, List.take_left]
  rw [List.cons_append, parseRespValue_eq, level, hfind]
  simp only [Nat.add_sub_cancel, List.take_left, hwhole]

/-- What stands behind the first line. -/
theorem drop_line (tag : UInt8) (line tail : Bytes) :
    ((tag :: line) ++ (CRLF ++ tail)).drop (line.length + 1 + 2) = tail := by
  have hlength : line.length + 1 + 2 = ((tag :: line) ++ CRLF).length := by
    simp [CRLF]
  rw [← List.append_assoc, hlength, List.drop_left]

/-- The header of a bulk string is read, and then it depends on the number of bytes that follow. -/
theorem parseRespValue_bulk_header {n : ℕ} (hn : n < 2 ^ 31) (tail : Bytes) :
    parseRespValue ((36 :: decimal n) ++ (CRLF ++ tail)) =
      if tail.length < n + 2 then none
      else some (quoted (tail.take n), (decimal n).length + 3 + n + 2) := by
  obtain ⟨v, hstoi, hneg, hv⟩ := stoi_length hn
  have hlength : ((36 :: decimal n) ++ (CRLF ++ tail)).length <
      (decimal n).length + 1 + 2 + n + 2 ↔ tail.length < n + 2 := by
    simp only [List.length_append, List.length_cons, CRLF, List.length_nil]
    omega
  have hline :=
    parseRespValue_line (show (36 : UInt8) ≠ CR by decide) (not_crlf_infix_decimal n) tail
  rw [hline, if_neg (by decide), if_neg (by decide), if_pos rfl, bulkValue, hstoi]
  simp only [hneg, if_false, hv, Int.toNat_natCast, hlength, drop_line]

/-- A length that does not fit into an `int` is reported as an error. -/
theorem parseRespValue_bulk_of_le {n : ℕ} (hn : 2 ^ 31 ≤ n) (tail : Bytes) :
    parseRespValue ((36 :: decimal n) ++ (CRLF ++ tail)) =
      some (ascii "(error) invalid bulk string length", (decimal n).length + 3) := by
  have hline :=
    parseRespValue_line (show (36 : UInt8) ≠ CR by decide) (not_crlf_infix_decimal n) tail
  rw [hline, if_neg (by decide), if_neg (by decide), if_pos rfl, bulkValue, stoi_decimal_of_le hn]

/-- A complete bulk string is read. -/
theorem parseRespValue_bulkString {p : Bytes} (hp : p.length < 2 ^ 31) (rest : Bytes) :
    parseRespValue (bulkString p ++ rest) = some (quoted p, (bulkString p).length) := by
  have hbytes : bulkString p ++ rest =
      (36 :: decimal p.length) ++ (CRLF ++ (p ++ (CRLF ++ rest))) := by
    simp [bulkString_eq]
  have hlong : ¬ (p ++ (CRLF ++ rest)).length < p.length + 2 := by
    simp [CRLF]
  have hconsumed : (decimal p.length).length + 3 + p.length + 2 = (bulkString p).length := by
    simp [bulkString_eq, CRLF]
    omega
  rw [hbytes, parseRespValue_bulk_header hp, if_neg hlong, List.take_left, hconsumed]

/-- The header of an array is read, and then it depends on the elements. -/
theorem parseRespValue_array_header {n : ℕ} (hn : n < 2 ^ 31) (hpos : 0 < n) (tail : Bytes) :
    parseRespValue ((42 :: decimal n) ++ (CRLF ++ tail)) =
      (elements parseRespValue (((42 :: decimal n) ++ CRLF) ++ tail) n
        ((42 :: decimal n) ++ CRLF).length).map fun elems =>
          (lines (numberItems elems.1), elems.2) := by
  obtain ⟨v, hstoi, hneg, hv⟩ := stoi_length hn
  have hzero : v ≠ 0 := by
    rintro rfl
    change (0 : ℤ) = n at hv
    omega
  have hstart : (decimal n).length + 1 + 2 = ((42 :: decimal n) ++ CRLF).length := by
    simp [CRLF]
  have hline :=
    parseRespValue_line (show (42 : UInt8) ≠ CR by decide) (not_crlf_infix_decimal n) tail
  rw [hline, if_neg (by decide), if_neg (by decide), if_neg (by decide), if_pos rfl, arrayValue,
    hstoi]
  simp only [hneg, if_false, hzero, hv, Int.toNat_natCast, hstart, List.append_assoc]

/-- A complete element is read, and the loop goes on behind it. -/
theorem elements_element {value : Bytes → Option (Bytes × ℕ)} {code rest text : Bytes}
    (h : value (code ++ rest) = some (text, code.length)) (front : Bytes) (count : ℕ) :
    elements value (front ++ (code ++ rest)) (count + 1) front.length =
      (elements value ((front ++ code) ++ rest) count (front ++ code).length).map fun later =>
        (text :: later.1, later.2) := by
  rw [elements, List.drop_left, h, List.append_assoc, List.length_append]

/-- The elements of a complete array are read one by one. -/
theorem elements_complete {value : Bytes → Option (Bytes × ℕ)} {items : List (Bytes × Bytes)}
    (h : ∀ item ∈ items, ∀ rest, value (item.1 ++ rest) = some (item.2, item.1.length))
    (front rest : Bytes) :
    elements value (front ++ ((items.map Prod.fst).flatten ++ rest)) items.length front.length =
      some (items.map Prod.snd, (front ++ (items.map Prod.fst).flatten).length) := by
  induction items generalizing front with
  | nil => simp [elements]
  | cons item items ih =>
    rw [List.map_cons, List.flatten_cons, List.append_assoc, List.length_cons,
      elements_element (h item List.mem_cons_self _),
      ih (fun item' hitem' => h item' (List.mem_cons_of_mem _ hitem')), Option.map_some,
      List.map_cons, List.append_assoc]

/-- A complete array is read, if its elements are. -/
theorem parseRespValue_array {items : List (Bytes × Bytes)} (hcount : items.length < 2 ^ 31)
    (hne : items ≠ [])
    (h : ∀ item ∈ items, ∀ rest, parseRespValue (item.1 ++ rest) = some (item.2, item.1.length))
    (rest : Bytes) : parseRespValue (array (items.map Prod.fst) ++ rest) =
      some (lines (numberItems (items.map Prod.snd)), (array (items.map Prod.fst)).length) := by
  have hbytes : array (items.map Prod.fst) =
      (42 :: decimal items.length) ++ (CRLF ++ (items.map Prod.fst).flatten) := by
    simp [array, ascii]
  rw [hbytes, List.append_assoc, List.append_assoc,
    parseRespValue_array_header hcount (List.length_pos_of_ne_nil hne), elements_complete h]
  simp only [Option.map_some, List.append_assoc]

/-! ### Arrays of strings -/

/-- The text that is shown for an array of strings. -/
def arrayText (parts : List Bytes) : Bytes := lines (numberItems (parts.map quoted))

/-- A complete array of strings is read from the front of the buffer. -/
theorem parseRespValue_encode {parts : List Bytes} (h : Sendable parts) (rest : Bytes) :
    parseRespValue (encode parts ++ rest) = some (arrayText parts, (encode parts).length) := by
  have hitems : ∀ item ∈ parts.map fun p => (bulkString p, quoted p), ∀ rest,
      parseRespValue (item.1 ++ rest) = some (item.2, item.1.length) := by
    intro item hitem rest
    obtain ⟨p, hp, rfl⟩ := List.mem_map.mp hitem
    exact parseRespValue_bulkString (h.length p hp) rest
  have harray := parseRespValue_array (by rw [List.length_map]; exact h.count)
    (by simpa using h.ne_nil) hitems rest
  rw [List.map_map, List.map_map] at harray
  exact harray

/-- However a value is cut into reads, the client shows it, and the bytes behind it are left for the
next one. -/
theorem readRespResponse_of_value {code text : Bytes}
    (hcode : parseRespValue code = some (text, code.length)) {reads : List Bytes}
    {readBuffer tail : Bytes} (hbytes : readBuffer ++ reads.flatten = code ++ tail) :
    ∃ rest later, readRespResponse reads readBuffer = some (text, rest, later) ∧
      rest ++ later.flatten = tail := by
  have hcomplete : ∀ rest, parseRespValue (code ++ rest) = some (text, code.length) :=
    decoder.stable hcode
  induction reads generalizing readBuffer with
  | nil =>
    rw [List.flatten_nil, List.append_nil] at hbytes
    refine ⟨tail, [], ?_, List.append_nil tail⟩
    rw [readRespResponse, hbytes, hcomplete, Option.map_some, List.drop_left]
  | cons bytes reads ih =>
    rw [readRespResponse]
    by_cases hall : code <+: readBuffer
    · obtain ⟨rest, rfl⟩ := hall
      rw [List.append_assoc, List.append_cancel_left_eq] at hbytes
      refine ⟨rest, bytes :: reads, ?_, hbytes⟩
      rw [hcomplete]
      simp only [List.drop_left]
    · have hpart : readBuffer <+: code := by
        have hfront : readBuffer <+: code ++ tail := ⟨_, hbytes⟩
        exact (List.prefix_or_prefix_of_prefix hfront (List.prefix_append _ _)).resolve_right hall
      have hne : readBuffer ≠ code := by
        rintro rfl
        exact hall (List.prefix_refl _)
      have hnone : parseRespValue readBuffer = none := decoder.decode_part hcode hpart hne
      rw [hnone]
      refine ih ?_
      rw [List.append_assoc, ← hbytes, List.flatten_cons]

end MyRedis.Client
