import MyRedis.Resp.Serialize

/-!
# RESP2 values and the framing of replies

`RespValue` is the grammar of complete RESP2 values as a client reads them: a line ends at the first
`\r\n`, a bulk string has the announced number of bytes, an array the announced number of values.
No value is a proper front part of another (`RespValue.append_inj`), so that a client that reads
one value has a well-defined rest of the stream.

`respValue_serializeResponse_iff` says for which texts `serialize_response` produces exactly one
value: an error text must not contain `\r\n`, and a text that looks like a pub/sub message must be
a single line.
-/

namespace MyRedis.Resp

open Foundation

/-! ### The grammar -/

/-- The complete RESP2 values. -/
inductive RespValue : Bytes → Prop
  /-- A status or an error: a line that ends at the first `\r\n`. -/
  | line (tag : UInt8) (htag : tag = 43 ∨ tag = 45) (content : Bytes)
      (hcontent : ¬ CRLF <:+: content) : RespValue (tag :: (content ++ CRLF))
  /-- An integer. -/
  | integer (n : ℤ) : RespValue (58 :: (decimalInt n ++ CRLF))
  /-- The absent string. -/
  | nullBulk : RespValue (36 :: (ascii "-1" ++ CRLF))
  /-- A string with its length. -/
  | bulk (data : Bytes) : RespValue (36 :: (decimal data.length ++ (CRLF ++ (data ++ CRLF))))
  /-- The absent array. -/
  | nullArray : RespValue (42 :: (ascii "-1" ++ CRLF))
  /-- An array with the number of its elements. -/
  | array (elements : List Bytes) (helements : ∀ e ∈ elements, RespValue e) :
      RespValue (42 :: (decimal elements.length ++ (CRLF ++ elements.flatten)))

/-- The first `\r\n` of a byte string determines the line in front of it. -/
theorem line_append_inj {x y s t : Bytes} (hx : ¬ CRLF <:+: x) (hy : ¬ CRLF <:+: y)
    (h : x ++ (CRLF ++ s) = y ++ (CRLF ++ t)) : x = y ∧ s = t := by
  -- if one line were longer, its part behind the other would start with `\r\n`
  have hlonger : ∀ {x y s t : Bytes}, ¬ CRLF <:+: y → x ++ (CRLF ++ s) = y ++ (CRLF ++ t) →
      ¬ ∃ z, z ≠ [] ∧ y = x ++ z := by
    rintro x y s t hy h ⟨z, hz, rfl⟩
    rw [List.append_assoc, List.append_cancel_left_eq] at h
    match z, hz with
    | [c], _ =>
      simp only [CRLF, List.cons_append, List.nil_append, List.cons.injEq] at h
      exact absurd h.2.1 (by decide)
    | c :: c' :: z, _ =>
      simp only [CRLF, List.cons_append, List.nil_append, List.cons.injEq] at h
      obtain ⟨rfl, rfl, _⟩ := h
      exact hy ⟨x, z, by simp [CRLF]⟩
  have hxy : x = y := by
    rcases List.append_eq_append_iff.mp h with ⟨z, hz, _⟩ | ⟨z, hz, _⟩
    · by_contra hne
      exact hlonger hy h ⟨z, fun hnil => hne (by rw [hz, hnil, List.append_nil]), hz⟩
    · by_contra hne
      exact hlonger hx h.symm ⟨z, fun hnil => hne (by rw [hz, hnil, List.append_nil]), hz⟩
  subst hxy
  rw [List.append_cancel_left_eq, List.append_cancel_left_eq] at h
  exact ⟨rfl, h⟩

/-- A line without carriage returns contains no `\r\n`. -/
theorem not_crlf_infix {x : Bytes} (hx : CR ∉ x) : ¬ CRLF <:+: x := by
  intro h
  exact hx (h.subset (by simp [CRLF]))

/-- Something without carriage returns in front of a text contains no new `\r\n`. -/
theorem crlf_infix_append_left {a x : Bytes} (ha : CR ∉ a) : CRLF <:+: a ++ x ↔ CRLF <:+: x := by
  induction a with
  | nil => rfl
  | cons c a ih =>
    rw [List.mem_cons, not_or] at ha
    rw [List.cons_append, List.infix_cons_iff, ih ha.2, or_iff_right]
    rintro ⟨y, hy⟩
    exact ha.1 (List.cons.inj hy).1

/-- Nor does something without line feeds behind it. -/
theorem crlf_infix_append_right {x b : Bytes} (hb : LF ∉ b) : CRLF <:+: x ++ b ↔ CRLF <:+: x := by
  induction x with
  | nil => exact iff_of_false (fun h => hb (h.subset (by simp [CRLF]))) (by decide)
  | cons c x ih =>
    rw [List.cons_append, List.infix_cons_iff, List.infix_cons_iff, ih]
    refine or_congr_left ⟨?_, fun h => h.trans (List.prefix_append (c :: x) b)⟩
    rintro ⟨y, hy⟩
    obtain ⟨rfl, hrest⟩ := List.cons.inj hy
    cases x with
    | nil =>
      have hmem : LF ∈ [] ++ b := hrest ▸ List.mem_cons_self
      exact absurd hmem hb
    | cons c' x =>
      obtain ⟨rfl, -⟩ := List.cons.inj hrest
      exact ⟨x, rfl⟩

/-- Upper-casing neither makes nor removes a `\r\n`. -/
theorem crlf_infix_map_toUpper {x : Bytes} : CRLF <:+: x.map toUpper ↔ CRLF <:+: x := by
  induction x with
  | nil => rfl
  | cons c x ih =>
    rw [List.map_cons, List.infix_cons_iff, List.infix_cons_iff, ih]
    refine or_congr_left ?_
    cases x with
    | nil => simp [CRLF]
    | cons c' x =>
      simp only [CRLF, List.map_cons, List.cons_prefix_cons, List.nil_prefix, and_true]
      rw [eq_comm, toUpper_eq_iff (by decide), eq_comm, eq_comm (a := LF),
        toUpper_eq_iff (by decide), eq_comm (b := c')]

/-- A number contains no `\r\n`. -/
theorem not_crlf_infix_decimal (n : ℕ) : ¬ CRLF <:+: decimal n :=
  not_crlf_infix (notMem_decimal (by decide))

/-- A number with a sign contains no `\r\n`. -/
theorem not_crlf_infix_decimalInt (n : ℤ) : ¬ CRLF <:+: decimalInt n := by
  refine not_crlf_infix fun hmem => ?_
  exact absurd (eq_or_isDigit_of_mem_decimalInt hmem) (by decide)

/-- A length is not the text of an absent value. -/
theorem decimal_ne_minus_one (n : ℕ) : decimal n ≠ ascii "-1" := by
  intro h
  have hminus : (45 : UInt8) ∈ decimal n := by
    rw [h]
    decide
  exact notMem_decimal (by decide) hminus

/-- The values of two arrays of the same length, one after the other, are the same. -/
theorem flatten_append_inj {es fs : List Bytes}
    (hes : ∀ e ∈ es, ∀ {f u v : Bytes}, RespValue f → e ++ u = f ++ v → e = f ∧ u = v)
    (hfs : ∀ f ∈ fs, RespValue f) (hlen : es.length = fs.length) {s t : Bytes}
    (h : es.flatten ++ s = fs.flatten ++ t) : es = fs ∧ s = t := by
  induction es generalizing fs with
  | nil =>
    obtain rfl := List.length_eq_zero_iff.mp hlen.symm
    exact ⟨rfl, h⟩
  | cons e es ih =>
    cases fs with
    | nil => cases hlen
    | cons f fs =>
      rw [List.flatten_cons, List.flatten_cons, List.append_assoc, List.append_assoc] at h
      obtain ⟨rfl, hrest⟩ := hes e List.mem_cons_self (hfs f List.mem_cons_self) h
      obtain ⟨rfl, rfl⟩ := ih (fun e' he' => hes e' (List.mem_cons_of_mem _ he'))
        (fun f' hf' => hfs f' (List.mem_cons_of_mem _ hf')) (Nat.succ.inj hlen) hrest
      exact ⟨rfl, rfl⟩

/-- No value is a proper front part of another. -/
theorem RespValue.append_inj {a b : Bytes} (ha : RespValue a) (hb : RespValue b) {s t : Bytes}
    (h : a ++ s = b ++ t) : a = b ∧ s = t := by
  induction ha generalizing b s t with
  | line tag htag x hx =>
    cases hb with
    | line tag' htag' y hy =>
      simp only [List.cons_append, List.cons.injEq, List.append_assoc] at h
      obtain ⟨rfl, h⟩ := h
      obtain ⟨rfl, rfl⟩ := line_append_inj hx hy h
      exact ⟨rfl, rfl⟩
    | _ =>
      rcases htag with rfl | rfl <;> simp at h
  | integer n =>
    cases hb with
    | line tag htag y hy => rcases htag with rfl | rfl <;> simp at h
    | integer m =>
      simp only [List.cons_append, List.cons.injEq, List.append_assoc, true_and] at h
      obtain ⟨heq, rfl⟩ := line_append_inj (not_crlf_infix_decimalInt n)
        (not_crlf_infix_decimalInt m) h
      exact ⟨by rw [heq], rfl⟩
    | _ => simp at h
  | nullBulk =>
    cases hb with
    | line tag htag y hy => rcases htag with rfl | rfl <;> simp at h
    | nullBulk => exact ⟨rfl, List.append_cancel_left h⟩
    | bulk data =>
      simp only [List.cons_append, List.cons.injEq, List.append_assoc, true_and] at h
      have heq := line_append_inj (by decide) (not_crlf_infix_decimal _) h
      exact absurd heq.1.symm (decimal_ne_minus_one _)
    | _ => simp at h
  | bulk data =>
    cases hb with
    | line tag htag y hy => rcases htag with rfl | rfl <;> simp at h
    | nullBulk =>
      simp only [List.cons_append, List.cons.injEq, List.append_assoc, true_and] at h
      have heq := line_append_inj (not_crlf_infix_decimal _) (by decide) h
      exact absurd heq.1 (decimal_ne_minus_one _)
    | bulk data' =>
      simp only [List.cons_append, List.cons.injEq, List.append_assoc, true_and] at h
      obtain ⟨hlen, hrest⟩ := line_append_inj (not_crlf_infix_decimal _)
        (not_crlf_infix_decimal _) h
      obtain ⟨rfl, hend⟩ := List.append_inj hrest (decimal_injective hlen)
      exact ⟨rfl, List.append_cancel_left hend⟩
    | _ => simp at h
  | nullArray =>
    cases hb with
    | line tag htag y hy => rcases htag with rfl | rfl <;> simp at h
    | nullArray => exact ⟨rfl, List.append_cancel_left h⟩
    | array elements helements =>
      simp only [List.cons_append, List.cons.injEq, List.append_assoc, true_and] at h
      have heq := line_append_inj (by decide) (not_crlf_infix_decimal _) h
      exact absurd heq.1.symm (decimal_ne_minus_one _)
    | _ => simp at h
  | array elements helements ih =>
    cases hb with
    | line tag htag y hy => rcases htag with rfl | rfl <;> simp at h
    | nullArray =>
      simp only [List.cons_append, List.cons.injEq, List.append_assoc, true_and] at h
      have heq := line_append_inj (not_crlf_infix_decimal _) (by decide) h
      exact absurd heq.1 (decimal_ne_minus_one _)
    | array elements' helements' =>
      simp only [List.cons_append, List.cons.injEq, List.append_assoc, true_and] at h
      obtain ⟨hlen, hrest⟩ := line_append_inj (not_crlf_infix_decimal _)
        (not_crlf_infix_decimal _) h
      obtain ⟨rfl, rfl⟩ := flatten_append_inj (fun e he _ _ _ hf hef => ih e he hf hef) helements'
        (decimal_injective hlen) hrest
      exact ⟨rfl, rfl⟩
    | _ => simp at h

/-- A value is not empty. -/
theorem RespValue.ne_nil {a : Bytes} (h : RespValue a) : a ≠ [] := by
  cases h <;> simp

/-- A value followed by something is not a value. -/
theorem RespValue.not_append {a s : Bytes} (ha : RespValue a) (hs : s ≠ []) :
    ¬ RespValue (a ++ s) := by
  intro h
  have heq : a ++ s = (a ++ s) ++ [] := (List.append_nil _).symm
  exact hs (ha.append_inj h heq).2

/-! ### The values that are written -/

theorem respValue_error {msg : Bytes} (h : ¬ CRLF <:+: msg) : RespValue (error msg) :=
  .line 45 (Or.inr rfl) msg h

theorem respValue_simpleString {str : Bytes} (h : ¬ CRLF <:+: str) :
    RespValue (simpleString str) :=
  .line 43 (Or.inl rfl) str h

theorem respValue_integer (val : Int64) : RespValue (integer val) := .integer val.toInt

theorem respValue_bulkString (str : Bytes) : RespValue (bulkString str) := by
  have h := RespValue.bulk str
  simpa [bulkString, ascii] using h

theorem respValue_array {elements : List Bytes} (h : ∀ e ∈ elements, RespValue e) :
    RespValue (array elements) := by
  have h := RespValue.array elements h
  simpa [array, ascii] using h

/-- A text that contains `\r\n` is split at the first one. -/
theorem exists_first_crlf {msg : Bytes} (h : CRLF <:+: msg) :
    ∃ x y, msg = x ++ (CRLF ++ y) ∧ ¬ CRLF <:+: x := by
  induction msg with
  | nil => exact absurd h (by decide)
  | cons c msg ih =>
    by_cases hfront : CRLF <+: c :: msg
    · obtain ⟨y, hy⟩ := hfront
      exact ⟨[], y, hy.symm, by decide⟩
    · have hlater : CRLF <:+: msg := (List.infix_cons_iff.mp h).resolve_left hfront
      obtain ⟨x, y, rfl, hx⟩ := ih hlater
      refine ⟨c :: x, y, rfl, ?_⟩
      intro hinfix
      rcases List.infix_cons_iff.mp hinfix with hpre | hinner
      · exact hfront (hpre.trans (List.prefix_append (c :: x) (CRLF ++ y)))
      · exact hx hinner

/-- An error text that contains `\r\n` is more than one value. -/
theorem not_respValue_error {msg : Bytes} (h : CRLF <:+: msg) : ¬ RespValue (error msg) := by
  obtain ⟨x, y, rfl, hx⟩ := exists_first_crlf h
  have hsplit : error (x ++ (CRLF ++ y)) = error x ++ (y ++ CRLF) := by
    simp [error]
  rw [hsplit]
  exact (respValue_error hx).not_append (by simp [CRLF])

/-- A confirmation line is one value. -/
theorem respValue_serializePush (line : Bytes) : RespValue (serializePush line) := by
  refine respValue_array ?_
  simp only [List.mem_cons, List.not_mem_nil, or_false]
  rintro e (rfl | rfl | rfl)
  · exact respValue_bulkString _
  · exact respValue_bulkString _
  · split
    · exact respValue_bulkString _
    · split
      · exact respValue_integer _
      · exact respValue_bulkString _

/-! ### Lines -/

/-- The content of an array line is a shorter end of the line. -/
theorem afterParen_eq_some {line content : Bytes} (h : afterParen line = some content) :
    ∃ front, line = front ++ content ∧ 2 ≤ front.length := by
  induction line with
  | nil => cases h
  | cons c s ih =>
    rw [afterParen] at h
    by_cases hc : c = 41 ∧ s.head? = some 32
    · rw [if_pos hc] at h
      obtain rfl := Option.some.inj h
      cases s with
      | nil => cases hc.2
      | cons c' s => exact ⟨[c, c'], rfl, le_rfl⟩
    · rw [if_neg hc] at h
      obtain ⟨front, rfl, hlen⟩ := ih h
      exact ⟨c :: front, rfl, hlen.trans (Nat.le_succ _)⟩

/-! ### The cascade of `serialize_response` -/

/-- The texts that are recognised as a whole. -/
def fixedTexts : List Bytes :=
  [[], ascii "OK", ascii "PONG", ascii "QUEUED", ascii "(nil)", ascii "(empty list)"]

/-- An element of an array: the part of a line behind its number. -/
def serializeLine (fuel : ℕ) (line : Bytes) : Bytes :=
  match afterParen line with
  | some content =>
    if isQuoted content then bulkString (unquote content) else serialize fuel content
  | none => bulkString line

/-- The result for a text recognised as a whole is one value. -/
theorem respValue_serialize_fixed {response : Bytes} (h : response ∈ fixedTexts) (fuel : ℕ) :
    RespValue (serialize (fuel + 1) response) := by
  simp only [fixedTexts, List.mem_cons, List.not_mem_nil, or_false] at h
  rcases h with rfl | rfl | rfl | rfl | rfl | rfl
  · exact .nullBulk
  · exact .line 43 (Or.inl rfl) (ascii "OK") (by decide)
  · exact .line 43 (Or.inl rfl) (ascii "PONG") (by decide)
  · exact .line 43 (Or.inl rfl) (ascii "QUEUED") (by decide)
  · exact .nullBulk
  · exact .array [] (by simp)

/-- The cascade for the other texts. -/
theorem serialize_of_notMem {response : Bytes} (h : response ∉ fixedTexts) (fuel : ℕ) :
    serialize (fuel + 1) response =
      if isError response then error response
      else
        match integerOf response with
        | some val => integer val
        | none =>
          if isQuoted response then bulkString (unquote response)
          else if isArray response then array ((getLines response).map (serializeLine fuel))
          else if isPush response then ((getLines response).map serializePush).flatten
          else bulkString response := by
  simp only [fixedTexts, List.mem_cons, List.not_mem_nil, or_false, not_or] at h
  obtain ⟨h₁, h₂, h₃, h₄, h₅, h₆⟩ := h
  rw [serialize]
  simp only [h₁, h₂, h₃, h₄, h₅, h₆, if_false]
  rfl

/-- An element of an array depends on the fuel as shorter texts do. -/
theorem serializeLine_congr {fuel fuel' : ℕ} {line : Bytes}
    (h : ∀ content, content.length < line.length →
      serialize fuel content = serialize fuel' content) :
    serializeLine fuel line = serializeLine fuel' line := by
  unfold serializeLine
  split
  · rename_i content hcontent
    obtain ⟨front, rfl, hfront⟩ := afterParen_eq_some hcontent
    rw [h content (by rw [List.length_append]; omega)]
  · rfl

/-- With enough fuel, the result does not depend on it. -/
theorem serialize_fuel {fuel fuel' : ℕ} {r : Bytes} (h : r.length < fuel) (h' : r.length < fuel') :
    serialize fuel r = serialize fuel' r := by
  induction fuel generalizing fuel' r with
  | zero => exact absurd h (Nat.not_lt_zero _)
  | succ fuel ih =>
    obtain ⟨fuel', rfl⟩ := Nat.exists_eq_add_of_le' (Nat.one_le_of_lt h')
    by_cases hfixed : r ∈ fixedTexts
    · simp only [fixedTexts, List.mem_cons, List.not_mem_nil, or_false] at hfixed
      rcases hfixed with rfl | rfl | rfl | rfl | rfl | rfl <;> rfl
    · have hmap : (getLines r).map (serializeLine fuel) =
          (getLines r).map (serializeLine fuel') := by
        refine List.map_congr_left fun line hline => serializeLine_congr fun content hcontent => ?_
        have hlength := length_le_of_mem_getLines hline
        exact ih (by omega) (by omega)
      rw [serialize_of_notMem hfixed, serialize_of_notMem hfixed, hmap]

/-- The first byte of a text that starts with a literal. -/
theorem head?_of_take_eq {r lit : Bytes} {n : ℕ} (hn : n ≠ 0) (h : r.take n = lit) :
    r.head? = lit.head? := by
  rw [← h, List.head?_take, if_neg hn]

/-- A pub/sub message starts with one of three letters. -/
theorem head?_of_isPush {r : Bytes} (h : isPush r = true) :
    r.head? = some 115 ∨ r.head? = some 117 ∨ r.head? = some 109 := by
  simp only [isPush, Bool.or_eq_true, beq_iff_eq, or_assoc] at h
  rcases h with h | h | h
  · exact Or.inl (head?_of_take_eq (by decide) h)
  · exact Or.inr (Or.inl (head?_of_take_eq (by decide) h))
  · exact Or.inr (Or.inr (head?_of_take_eq (by decide) h))

/-- An error starts with one of three letters. -/
theorem head?_of_isError {r : Bytes} (h : isError r = true) :
    r.head? = some 69 ∨ r.head? = some 87 ∨ r.head? = some 78 := by
  simp only [isError, Bool.or_eq_true, beq_iff_eq, or_assoc] at h
  rcases h with h | h | h | h
  · exact Or.inl (head?_of_take_eq (by decide) h)
  · exact Or.inl (head?_of_take_eq (by decide) h)
  · exact Or.inr (Or.inl (head?_of_take_eq (by decide) h))
  · exact Or.inr (Or.inr (head?_of_take_eq (by decide) h))

/-- An error does not look like a pub/sub message. -/
theorem isPush_eq_false_of_isError {r : Bytes} (h : isError r = true) : isPush r = false := by
  by_contra hpush
  have hhead := head?_of_isPush (Bool.not_eq_false _ ▸ hpush)
  rcases head?_of_isError h with he | he | he <;> rw [he] at hhead <;> revert hhead <;> decide

/-- An integer does not look like a pub/sub message. -/
theorem isPush_eq_false_of_integerOf {r : Bytes} {val : Int64} (h : integerOf r = some val) :
    isPush r = false := by
  by_contra hpush
  have hhead := head?_of_isPush (Bool.not_eq_false _ ▸ hpush)
  unfold integerOf at h
  split at h
  · rename_i hint
    rw [head?_of_take_eq (by decide) hint.2] at hhead
    revert hhead
    decide
  · cases h

/-- A quoted text does not look like a pub/sub message. -/
theorem isPush_eq_false_of_isQuoted {r : Bytes} (h : isQuoted r = true) : isPush r = false := by
  by_contra hpush
  have hhead := head?_of_isPush (Bool.not_eq_false _ ▸ hpush)
  simp only [isQuoted, Bool.and_eq_true, beq_iff_eq] at h
  rw [h.1.2] at hhead
  revert hhead
  decide

/-- An array does not look like a pub/sub message. -/
theorem isPush_eq_false_of_isArray {r : Bytes} (h : isArray r = true) : isPush r = false := by
  by_contra hpush
  have hhead := head?_of_isPush (Bool.not_eq_false _ ▸ hpush)
  simp only [isArray, Bool.and_eq_true] at h
  rcases hhead with he | he | he <;> rw [he] at h <;> revert h <;> simp

/-- Several confirmations are one value if there is just one of them. -/
theorem respValue_push_iff (r : Bytes) :
    RespValue ((getLines r).map serializePush).flatten ↔ (getLines r).length = 1 := by
  cases getLines r with
  | nil =>
    refine iff_of_false ?_ (by simp)
    intro h
    exact h.ne_nil rfl
  | cons line lines =>
    rw [List.map_cons, List.flatten_cons]
    cases lines with
    | nil =>
      refine iff_of_true ?_ rfl
      simpa using respValue_serializePush line
    | cons line' lines =>
      refine iff_of_false ((respValue_serializePush line).not_append ?_) (by simp)
      have hne := (respValue_serializePush line').ne_nil
      simp [hne]

/-- An element of an array is one value, if shorter texts without line feeds give one value. -/
theorem respValue_serializeLine {fuel : ℕ} {r line : Bytes} (hline : line ∈ getLines r)
    (hfuel : r.length ≤ fuel)
    (hshorter : ∀ content, content.length < fuel → LF ∉ content →
      RespValue (serialize fuel content)) :
    RespValue (serializeLine fuel line) := by
  unfold serializeLine
  split
  · rename_i content hcontent
    split
    · exact respValue_bulkString _
    · obtain ⟨front, rfl, hfront⟩ := afterParen_eq_some hcontent
      have hlen := length_le_of_mem_getLines hline
      rw [List.length_append] at hlen
      have hno := notMem_of_mem_getLines hline
      rw [List.mem_append, not_or] at hno
      exact hshorter content (by omega) hno.2
  · exact respValue_bulkString _

/-- A text without line feeds gives one value. -/
theorem respValue_serialize_of_notMem {fuel : ℕ} {r : Bytes} (hfuel : r.length < fuel)
    (hr : LF ∉ r) : RespValue (serialize fuel r) := by
  induction fuel generalizing r with
  | zero => exact absurd hfuel (Nat.not_lt_zero _)
  | succ fuel ih =>
    by_cases hfixed : r ∈ fixedTexts
    · exact respValue_serialize_fixed hfixed fuel
    rw [serialize_of_notMem hfixed]
    split
    · refine respValue_error fun hcrlf => hr (hcrlf.subset ?_)
      simp [CRLF]
    split
    · exact respValue_integer _
    split
    · exact respValue_bulkString _
    split
    · refine respValue_array fun e he => ?_
      obtain ⟨line, hline, rfl⟩ := List.mem_map.mp he
      exact respValue_serializeLine hline (Nat.le_of_lt_succ hfuel) fun c hc hno => ih hc hno
    split
    · rw [respValue_push_iff, length_getLines_eq_one_iff]
      refine ⟨fun hnil => hfixed (by simp [fixedTexts, hnil]), fun hmem => hr ?_⟩
      exact List.mem_of_mem_dropLast hmem
    · exact respValue_bulkString _

/-- `serialize_response` writes exactly one value unless it is given an error text that contains
`\r\n`, or a text that looks like a pub/sub message and has several lines. -/
theorem respValue_serializeResponse_iff (r : Bytes) :
    RespValue (serializeResponse r) ↔
      ¬ (isError r = true ∧ CRLF <:+: r) ∧ ¬ (isPush r = true ∧ LF ∈ r.dropLast) := by
  unfold serializeResponse
  by_cases hfixed : r ∈ fixedTexts
  · refine iff_of_true (respValue_serialize_fixed hfixed _) ?_
    simp only [fixedTexts, List.mem_cons, List.not_mem_nil, or_false] at hfixed
    rcases hfixed with rfl | rfl | rfl | rfl | rfl | rfl <;> decide
  rw [serialize_of_notMem hfixed]
  by_cases herr : isError r = true
  · have hpush := isPush_eq_false_of_isError herr
    rw [if_pos herr]
    by_cases hcrlf : CRLF <:+: r
    · exact iff_of_false (not_respValue_error hcrlf) fun h => h.1 ⟨herr, hcrlf⟩
    · refine iff_of_true (respValue_error hcrlf) ⟨fun h => hcrlf h.2, ?_⟩
      simp [hpush]
  rw [if_neg herr]
  have hsafe : isPush r = false →
      ¬ (isError r = true ∧ CRLF <:+: r) ∧ ¬ (isPush r = true ∧ LF ∈ r.dropLast) := by
    intro hpush
    exact ⟨fun h => herr h.1, by simp [hpush]⟩
  split
  · rename_i val hint
    exact iff_of_true (respValue_integer val) (hsafe (isPush_eq_false_of_integerOf hint))
  split
  · rename_i hquoted
    exact iff_of_true (respValue_bulkString _) (hsafe (isPush_eq_false_of_isQuoted hquoted))
  split
  · rename_i harray
    refine iff_of_true (respValue_array fun e he => ?_) (hsafe (isPush_eq_false_of_isArray harray))
    obtain ⟨line, hline, rfl⟩ := List.mem_map.mp he
    exact respValue_serializeLine hline le_rfl fun c hc hno => respValue_serialize_of_notMem hc hno
  split
  · rename_i hpush
    have hne : r ≠ [] := fun hnil => hfixed (by simp [fixedTexts, hnil])
    rw [respValue_push_iff, length_getLines_eq_one_iff]
    simp [herr, hpush, hne]
  · rename_i hpush
    exact iff_of_true (respValue_bulkString _) (hsafe (Bool.eq_false_iff.mpr hpush))

/-- An error text is sent as one value if it does not contain `\r\n`. -/
theorem respValue_serializeResponse_iff_of_isError {r : Bytes} (h : isError r = true) :
    RespValue (serializeResponse r) ↔ ¬ CRLF <:+: r := by
  rw [respValue_serializeResponse_iff, isPush_eq_false_of_isError h]
  simp [h]

end MyRedis.Resp
