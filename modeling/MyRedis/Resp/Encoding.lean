import MyRedis.Resp.Parse
import MyRedis.Resp.Serialize

/-!
# Parsing encoded commands

A client sends a command as an array of bulk strings.  The parser reads such a command back from
the front of a buffer (`parseCommand_encode`), and asks for more bytes, consuming none, as long as
the buffer holds only a part of it (`parseCommand_incomplete`).
-/

namespace MyRedis.Resp

open Foundation

/-- The encoding of a command, given as the list of its name and its arguments. -/
def encode (parts : List Bytes) : Bytes :=
  array (parts.map bulkString)

/-- The number of parts and their lengths fit into an `int`. -/
structure Sendable (parts : List Bytes) : Prop where
  /-- There is a name. -/
  ne_nil : parts ≠ []
  /-- The number of parts. -/
  count : parts.length < 2 ^ 31
  /-- The lengths of the parts. -/
  length : ∀ p ∈ parts, p.length < 2 ^ 31

/-! ### Finding the end of a line -/

/-- The end of a line. -/
theorem crlfOffset_line {x : Bytes} (hx : ¬ CRLF <:+: x) (y : Bytes) :
    crlfOffset (x ++ (CRLF ++ y)) = some x.length := by
  induction x with
  | nil => rfl
  | cons c x ih =>
    rw [List.infix_cons_iff, not_or] at hx
    have hc : ¬ (c = CR ∧ (x ++ (CRLF ++ y)).head? = some LF) := by
      rintro ⟨rfl, hhead⟩
      cases x with
      | nil => exact absurd (Option.some.inj hhead) (by decide)
      | cons c' x =>
        obtain rfl := Option.some.inj hhead
        exact hx.1 ⟨x, rfl⟩
    rw [List.cons_append, crlfOffset, if_neg hc, ih hx.2]
    rfl

/-- Without a line feed there is no end of a line. -/
theorem crlfOffset_of_notMem {x : Bytes} (hx : LF ∉ x) : crlfOffset x = none := by
  induction x with
  | nil => rfl
  | cons c x ih =>
    rw [List.mem_cons, not_or] at hx
    have hc : ¬ (c = CR ∧ x.head? = some LF) := by
      rintro ⟨_, hhead⟩
      exact hx.2 (List.mem_of_mem_head? hhead)
    rw [crlfOffset, if_neg hc, ih hx.2]
    rfl

/-- An end of a line lies in the text. -/
theorem crlfOffset_le {x : Bytes} {n : ℕ} (h : crlfOffset x = some n) : n + 2 ≤ x.length := by
  induction x generalizing n with
  | nil => cases h
  | cons c x ih =>
    rw [crlfOffset] at h
    by_cases hc : c = CR ∧ x.head? = some LF
    · rw [if_pos hc] at h
      obtain rfl := Option.some.inj h
      obtain ⟨y, rfl⟩ := List.head?_eq_some_iff.mp hc.2
      simp
    · rw [if_neg hc] at h
      obtain ⟨m, hm, rfl⟩ := Option.map_eq_some_iff.mp h
      have := ih hm
      rw [List.length_cons]
      omega

/-- What follows does not change the first end of a line. -/
theorem crlfOffset_append {x : Bytes} {n : ℕ} (h : crlfOffset x = some n) (y : Bytes) :
    crlfOffset (x ++ y) = some n := by
  induction x generalizing n with
  | nil => cases h
  | cons c x ih =>
    rw [crlfOffset] at h
    rw [List.cons_append, crlfOffset]
    by_cases hc : c = CR ∧ x.head? = some LF
    · obtain ⟨z, rfl⟩ := List.head?_eq_some_iff.mp hc.2
      rw [if_pos hc] at h
      rw [if_pos ⟨hc.1, rfl⟩, h]
    · rw [if_neg hc] at h
      obtain ⟨m, hm, rfl⟩ := Option.map_eq_some_iff.mp h
      have hx : x ≠ [] := by
        rintro rfl
        cases hm
      have hhead : (x ++ y).head? = x.head? := List.head?_append_of_ne_nil _ hx
      rw [hhead, if_neg hc, ih hm]
      rfl

/-- A line end that is found lies inside of the buffer. -/
theorem add_two_le_of_findCrlf {buffer : Bytes} {start crlf : ℕ}
    (h : findCrlf buffer start = some crlf) : crlf + 2 ≤ buffer.length := by
  obtain ⟨n, hn, rfl⟩ := Option.map_eq_some_iff.mp h
  have hle := crlfOffset_le hn
  rw [List.length_drop] at hle
  omega

/-- A line end stays the first one. -/
theorem findCrlf_append_right {buffer : Bytes} {start crlf : ℕ}
    (h : findCrlf buffer start = some crlf) (x : Bytes) :
    findCrlf (buffer ++ x) start = some crlf := by
  have hstart := le_of_findCrlf h
  have hle := add_two_le_of_findCrlf h
  obtain ⟨n, hn, rfl⟩ := Option.map_eq_some_iff.mp h
  rw [findCrlf, List.drop_append_of_le_length (by omega), crlfOffset_append hn]
  rfl

/-- No end of a line behind a front part of the buffer. -/
theorem findCrlf_append_of_notMem (front : Bytes) {x : Bytes} (hx : LF ∉ x) :
    findCrlf (front ++ x) front.length = none := by
  rw [findCrlf, List.drop_left, crlfOffset_of_notMem hx]
  rfl

/-- A header line: a tag and a number. -/
theorem notMem_header {c tag : UInt8} (htag : tag ≠ c) (hc : isDigit c = false) (n : ℕ) :
    c ∉ tag :: decimal n := by
  rw [List.mem_cons, not_or]
  exact ⟨Ne.symm htag, notMem_decimal hc⟩

/-! ### One element -/

/-- A length that fits into an `int` is read back as it is. -/
theorem stoi_length {n : ℕ} (hn : n < 2 ^ 31) :
    ∃ v : Int32, stoi (decimal n) = some v ∧ ¬ v < 0 ∧ v.toInt = n := by
  refine ⟨Int32.ofNat n, stoi_decimal hn, ?_, Int32.toInt_ofNat_of_lt hn⟩
  rw [Int32.lt_iff_toInt_lt, Int32.toInt_ofNat_of_lt hn]
  simp

/-- The bytes of a bulk string, part by part. -/
theorem bulkString_eq (p : Bytes) :
    bulkString p = (36 :: decimal p.length) ++ (CRLF ++ (p ++ CRLF)) := by
  simp [bulkString, ascii]

/-- A tag in front of a text makes no line end. -/
theorem not_infix_cons {tag : UInt8} (htag : tag ≠ CR) {text : Bytes} (htext : ¬ CRLF <:+: text) :
    ¬ CRLF <:+: tag :: text := by
  rw [List.infix_cons_iff, not_or]
  exact ⟨fun h => htag (List.cons_prefix_cons.mp h).1.symm, htext⟩

/-- There is no line end in a number. -/
theorem not_crlf_decimal (n : ℕ) : ¬ CRLF <:+: decimal n := fun h =>
  notMem_decimal (by decide) (h.subset (by simp [CRLF] : CR ∈ CRLF))

/-- The rest of the loop over the elements, once the length of an element has been read; its data
start at `dataStart`. -/
def readElement (buffer : Bytes) (dataStart : ℕ) (len : Int32) (count : ℕ) (parts : List Bytes) :
    ElementsResult :=
  if len < 0 then parseElements buffer count dataStart (parts ++ [[]])
  else
    let len := len.toInt.toNat
    if buffer.length < dataStart + len + 2 then .needMore
    else if buffer[dataStart + len]? ≠ some CR ∨ buffer[dataStart + len + 1]? ≠ some LF then
      .protocolError
    else
      parseElements buffer count (dataStart + len + 2) (parts ++ [(buffer.drop dataStart).take len])

/-- The header of an element is read, whatever it says. -/
theorem parseElements_line (front : Bytes) {text : Bytes} (htext : ¬ CRLF <:+: text) (rest : Bytes)
    (count : ℕ) (parts : List Bytes) :
    parseElements (front ++ ((36 :: text) ++ (CRLF ++ rest))) (count + 1) front.length parts =
      match stoi text with
      | none => .protocolError
      | some len =>
        readElement (front ++ ((36 :: text) ++ (CRLF ++ rest))) (front.length + text.length + 3) len
          count parts := by
  have hcrlf : findCrlf (front ++ ((36 :: text) ++ (CRLF ++ rest))) front.length =
      some (front.length + (text.length + 1)) := by
    rw [findCrlf, List.drop_left, crlfOffset_line (not_infix_cons (by decide) htext)]
    rfl
  have htag : (front ++ ((36 :: text) ++ (CRLF ++ rest)))[front.length]? = some 36 := by
    rw [List.getElem?_append_right le_rfl, Nat.sub_self]
    rfl
  have hnumber : ((front ++ ((36 :: text) ++ (CRLF ++ rest))).drop (front.length + 1)).take
      (front.length + (text.length + 1) - front.length - 1) = text := by
    rw [← List.drop_drop, List.drop_left, Nat.add_sub_cancel_left, Nat.add_sub_cancel]
    exact List.take_left
  have hpos : ¬ (front ++ ((36 :: text) ++ (CRLF ++ rest))).length ≤ front.length := by
    rw [List.length_append, List.length_append, List.length_cons]
    omega
  rw [parseElements, if_neg hpos, if_neg (not_not.mpr htag), hcrlf]
  simp only [hnumber]
  rcases stoi text with _ | len
  · rfl
  · rfl

/-- The header of an element is read, and then it depends on the bytes that follow. -/
theorem parseElements_header (front tail : Bytes) {n : ℕ} (hn : n < 2 ^ 31) (count : ℕ)
    (parts : List Bytes) :
    parseElements (front ++ ((36 :: decimal n) ++ (CRLF ++ tail))) (count + 1) front.length parts =
      if tail.length < n + 2 then .needMore
      else if tail[n]? ≠ some CR ∨ tail[n + 1]? ≠ some LF then .protocolError
      else parseElements (front ++ ((36 :: decimal n) ++ (CRLF ++ tail))) count
        (front.length + (decimal n).length + 3 + n + 2) (parts ++ [tail.take n]) := by
  obtain ⟨v, hstoi, hneg, hv⟩ := stoi_length hn
  -- the data starts behind the header `head`
  set head := front ++ ((36 :: decimal n) ++ CRLF) with hhead
  have hsplit : front ++ ((36 :: decimal n) ++ (CRLF ++ tail)) = head ++ tail := by
    simp [hhead]
  have hlen : head.length = front.length + (decimal n).length + 3 := by
    simp [hhead, CRLF]
    omega
  rw [parseElements_line front (not_crlf_decimal n), hstoi, ← hlen]
  simp only [readElement, hneg, if_false, hv, Int.toNat_natCast, hsplit]
  rw [List.length_append, List.getElem?_append_right (Nat.le_add_right _ _),
    Nat.add_sub_cancel_left, Nat.add_assoc head.length n 1,
    List.getElem?_append_right (Nat.le_add_right _ _), Nat.add_sub_cancel_left, List.drop_left]
  simp only [Nat.add_assoc, Nat.add_lt_add_iff_left]

/-- A complete element is read, and the loop goes on behind it. -/
theorem parseElements_element (front rest : Bytes) {p : Bytes} (hp : p.length < 2 ^ 31) (count : ℕ)
    (parts : List Bytes) :
    parseElements (front ++ (bulkString p ++ rest)) (count + 1) front.length parts =
      parseElements ((front ++ bulkString p) ++ rest) count (front ++ bulkString p).length
        (parts ++ [p]) := by
  have hbytes : front ++ (bulkString p ++ rest) =
      front ++ ((36 :: decimal p.length) ++ (CRLF ++ (p ++ (CRLF ++ rest)))) := by
    simp [bulkString_eq]
  have hpos : front.length + (decimal p.length).length + 3 + p.length + 2 =
      (front ++ bulkString p).length := by
    simp [bulkString_eq, CRLF]
    omega
  have hlong : ¬ (p ++ (CRLF ++ rest)).length < p.length + 2 := by
    simp [CRLF]
  have hcr : (p ++ (CRLF ++ rest))[p.length]? = some CR := by
    rw [List.getElem?_append_right le_rfl, Nat.sub_self]
    rfl
  have hlf : (p ++ (CRLF ++ rest))[p.length + 1]? = some LF := by
    rw [List.getElem?_append_right (Nat.le_add_right _ _), Nat.add_sub_cancel_left]
    rfl
  rw [hbytes, parseElements_header front _ hp, if_neg hlong, hcr, hlf, if_neg (by simp),
    List.take_left, hpos, ← hbytes, List.append_assoc]

/-- The elements of a complete command are read. -/
theorem parseElements_complete {ps : List Bytes} (hps : ∀ p ∈ ps, p.length < 2 ^ 31)
    (front rest : Bytes) (parts : List Bytes) :
    parseElements (front ++ (ps.flatMap bulkString ++ rest)) ps.length front.length parts =
      .done (parts ++ ps) (front ++ ps.flatMap bulkString).length := by
  induction ps generalizing front parts with
  | nil => simp [parseElements]
  | cons p ps ih =>
    rw [List.flatMap_cons, List.append_assoc, List.length_cons,
      parseElements_element front _ (hps p List.mem_cons_self),
      ih (fun p' hp' => hps p' (List.mem_cons_of_mem _ hp'))]
    simp

/-- Without the end of its header line, a part of a frame contains no line feed. -/
theorem notMem_of_prefix_header {tag : UInt8} (htag : tag ≠ LF) {n : ℕ} {part body : Bytes}
    (hpart : part <+: (tag :: decimal n) ++ (CRLF ++ body))
    (hheader : ¬ (tag :: decimal n) ++ CRLF <+: part) : LF ∉ part := by
  rw [← List.append_assoc] at hpart
  have hshort : part <+: (tag :: decimal n) ++ CRLF :=
    (List.prefix_or_prefix_of_prefix hpart (List.prefix_append _ _)).resolve_right hheader
  have hcut : part <+: (tag :: decimal n) ++ [CR] := by
    have hcrlf : (tag :: decimal n) ++ CRLF = ((tag :: decimal n) ++ [CR]) ++ [LF] := by
      simp [CRLF]
    rw [hcrlf, List.prefix_concat_iff, ← hcrlf] at hshort
    rcases hshort with heq | hcut
    · exact absurd (heq ▸ List.prefix_refl _) hheader
    · exact hcut
  intro hmem
  rcases List.mem_append.mp (hcut.subset hmem) with h | h
  · exact notMem_header htag (by decide) n h
  · exact absurd (List.mem_singleton.mp h) (by decide)

/-- A proper part of a bulk string has a header line but too few bytes behind it, or no end of a
line at all. -/
theorem part_of_bulkString {part p : Bytes} (hpart : part <+: bulkString p)
    (hne : part ≠ bulkString p) :
    (∃ tail, part = (36 :: decimal p.length) ++ (CRLF ++ tail) ∧ tail.length < p.length + 2) ∨
      LF ∉ part := by
  rw [bulkString_eq] at hpart hne
  by_cases hheader : (36 :: decimal p.length) ++ CRLF <+: part
  · obtain ⟨tail, rfl⟩ := hheader
    rw [← List.append_assoc (36 :: decimal p.length), List.prefix_append_right_inj] at hpart
    refine Or.inl ⟨tail, List.append_assoc _ _ _, ?_⟩
    have hle := hpart.length_le
    have hlt : tail.length ≠ (p ++ CRLF).length := by
      intro heq
      exact hne (by rw [hpart.eq_of_length heq, List.append_assoc])
    simp only [List.length_append, CRLF, List.length_cons, List.length_nil] at hle hlt
    omega
  · exact Or.inr (notMem_of_prefix_header (by decide) hpart hheader)

/-- With only a part of an element in the buffer, more bytes are needed. -/
theorem parseElements_part {front part p : Bytes} (hp : p.length < 2 ^ 31)
    (hpart : part <+: bulkString p) (hne : part ≠ bulkString p) (count : ℕ)
    (parts : List Bytes) :
    parseElements (front ++ part) (count + 1) front.length parts = .needMore := by
  rcases part_of_bulkString hpart hne with ⟨tail, rfl, hshort⟩ | hlf
  · -- the header is there, the data is not complete
    rw [parseElements_header front tail hp, if_pos hshort]
  · -- the header is not complete
    rw [parseElements, findCrlf_append_of_notMem front hlf]
    cases part with
    | nil =>
      rw [if_pos (by simp)]
    | cons c part =>
      rw [bulkString_eq] at hpart
      obtain ⟨rfl, _⟩ := List.cons_prefix_cons.mp hpart
      have hpos : ¬ (front ++ 36 :: part).length ≤ front.length := by simp
      have htag : (front ++ 36 :: part)[front.length]? = some 36 := by
        rw [List.getElem?_append_right le_rfl, Nat.sub_self]
        rfl
      rw [if_neg hpos, htag, if_neg (by simp)]

/-- With only a part of the elements in the buffer, more bytes are needed. -/
theorem parseElements_incomplete {ps : List Bytes} (hps : ∀ p ∈ ps, p.length < 2 ^ 31)
    {front part : Bytes} (hpart : part <+: ps.flatMap bulkString)
    (hne : part ≠ ps.flatMap bulkString) (parts : List Bytes) :
    parseElements (front ++ part) ps.length front.length parts = .needMore := by
  induction ps generalizing front part parts with
  | nil => exact absurd (List.prefix_nil.mp hpart) hne
  | cons p ps ih =>
    rw [List.flatMap_cons] at hpart hne
    by_cases hall : bulkString p <+: part
    · obtain ⟨later, rfl⟩ := hall
      rw [List.prefix_append_right_inj] at hpart
      rw [List.length_cons, parseElements_element front _ (hps p List.mem_cons_self)]
      exact ih (fun p' hp' => hps p' (List.mem_cons_of_mem _ hp')) hpart
        (fun heq => hne (by rw [heq])) _
    · have hpart' : part <+: bulkString p :=
        (List.prefix_or_prefix_of_prefix hpart (List.prefix_append _ _)).resolve_right hall
      refine parseElements_part (hps p List.mem_cons_self) hpart' ?_ _ _
      rintro rfl
      exact hall (List.prefix_refl _)

/-! ### Commands -/

/-- The bytes of an encoded command, part by part. -/
theorem encode_eq (parts : List Bytes) :
    encode parts = (42 :: decimal parts.length) ++ (CRLF ++ parts.flatMap bulkString) := by
  simp [encode, array, ascii, List.flatMap_def]

/-- An encoded command is not empty. -/
theorem encode_ne_nil (parts : List Bytes) : encode parts ≠ [] := by
  simp [encode_eq]

/-- The rest of `parse_resp_array`, once the number of elements has been read; they start at
`pos`. -/
def readArray (buffer : Bytes) (pos : ℕ) (count : Int32) : RespParseResult :=
  if count ≤ 0 then .protocolError
  else buildCommand (parseElements buffer count.toInt.toNat pos [])

/-- The header of a command is read, whatever it says. -/
theorem parseCommand_line {text : Bytes} (htext : ¬ CRLF <:+: text) (rest : Bytes) :
    parseCommand ((42 :: text) ++ (CRLF ++ rest)) =
      match stoi text with
      | none => .protocolError
      | some count => readArray ((42 :: text) ++ (CRLF ++ rest)) (text.length + 3) count := by
  have hcrlf : findCrlf ((42 :: text) ++ (CRLF ++ rest)) 0 = some (text.length + 1) := by
    rw [findCrlf, List.drop_zero, crlfOffset_line (not_infix_cons (by decide) htext),
      List.length_cons, Option.map_some, Nat.zero_add]
  have hnumber : (((42 :: text) ++ (CRLF ++ rest)).drop 1).take (text.length + 1 - 1) = text :=
    List.take_left
  change parseRespArray ((42 :: text) ++ (CRLF ++ rest)) = _
  rw [parseRespArray, hcrlf]
  simp only [hnumber]
  rcases stoi text with _ | count
  · rfl
  · rfl

/-- The header of a command is read, and then it depends on the elements. -/
theorem parseCommand_header {n : ℕ} (hn : n < 2 ^ 31) (hpos : 0 < n) (tail : Bytes) :
    parseCommand ((42 :: decimal n) ++ (CRLF ++ tail)) =
      buildCommand (parseElements (((42 :: decimal n) ++ CRLF) ++ tail) n
        ((42 :: decimal n) ++ CRLF).length []) := by
  obtain ⟨v, hstoi, hneg, hv⟩ := stoi_length hn
  have hle : ¬ v ≤ 0 := by
    rw [Int32.le_iff_toInt_le, hv]
    change ¬ (n : ℤ) ≤ 0
    omega
  have hstart : (decimal n).length + 3 = ((42 :: decimal n) ++ CRLF).length := by
    simp [CRLF]
  rw [parseCommand_line (not_crlf_decimal n), hstoi]
  simp only [readArray, hle, if_false, hv, Int.toNat_natCast, hstart, List.append_assoc]

/-- A complete command is read from the front of the buffer. -/
theorem parseCommand_encode {name : Bytes} {args : List Bytes} (h : Sendable (name :: args))
    (rest : Bytes) :
    parseCommand (encode (name :: args) ++ rest) =
      .ok ⟨name.map toUpper, args⟩ (encode (name :: args)).length := by
  rw [encode_eq, List.append_assoc, List.append_assoc,
    parseCommand_header h.count (by simp), parseElements_complete h.length]
  simp only [buildCommand, List.nil_append, Parser.commandOf, List.append_assoc]

/-- A proper part of a command is not read: more bytes are needed, and none is consumed. -/
theorem parseCommand_incomplete {parts : List Bytes} (h : Sendable parts) {part : Bytes}
    (hpart : part <+: encode parts) (hne : part ≠ encode parts) :
    parseCommand part = .needMore 0 := by
  rw [encode_eq] at hpart hne
  by_cases hheader : (42 :: decimal parts.length) ++ CRLF <+: part
  · obtain ⟨tail, rfl⟩ := hheader
    rw [← List.append_assoc, List.prefix_append_right_inj] at hpart
    have htail : tail ≠ parts.flatMap bulkString := by
      rintro rfl
      exact hne (List.append_assoc _ _ _)
    rw [List.append_assoc, parseCommand_header h.count (List.length_pos_of_ne_nil h.ne_nil),
      parseElements_incomplete h.length hpart htail]
    rfl
  · have hlf := notMem_of_prefix_header (by decide) hpart hheader
    cases part with
    | nil => rfl
    | cons c part =>
      obtain ⟨rfl, _⟩ := List.cons_prefix_cons.mp hpart
      change parseRespArray (42 :: part) = .needMore 0
      have hcrlf := findCrlf_append_of_notMem [] hlf
      rw [List.nil_append, List.length_nil] at hcrlf
      rw [parseRespArray, hcrlf]

end MyRedis.Resp
