import MyRedis.Resp.Kinds

/-!
# `serialize_response` is total

The body of `serialize_response`, with the function that is called for the elements of an array left
open (`serializeBody`), and the calls it makes (`ElementCall`).  A call is made on a shorter text,
so every call returns (`acc_elementCall`), and there is one function that solves the recursion:
`serializeResponse` (`serializeResponse_eq_body`, `eq_serializeResponse_of_body`).

What is returned can be split into RESP2 values in one way only (`split_unique`).  For a text in
which no `\r` is directly followed by `\n` the values are told by the branch that is taken: one for
each line in the pub/sub branch, and a single one in all others.
-/

namespace MyRedis.Resp

open Foundation

/-! ### The recursion -/

/-- An element of an array, with a function for the contents that are serialized in turn. -/
def elementBody (call : Bytes → Bytes) (line : Bytes) : Bytes :=
  match afterParen line with
  | some content => if isQuoted content then bulkString (unquote content) else call content
  | none => bulkString line

/-- The body of `serialize_response`. -/
def serializeBody (call : Bytes → Bytes) (response : Bytes) : Bytes :=
  if response = [] then nullBulkString
  else if response = ascii "OK" then simpleString (ascii "OK")
  else if response = ascii "PONG" then simpleString (ascii "PONG")
  else if response = ascii "QUEUED" then simpleString (ascii "QUEUED")
  else if response = ascii "(nil)" then nullBulkString
  else if response = ascii "(empty list)" then emptyArray
  else if isError response then error response
  else
    match integerOf response with
    | some val => integer val
    | none =>
      if isQuoted response then bulkString (unquote response)
      else if isArray response then array ((getLines response).map (elementBody call))
      else if isPush response then ((getLines response).map serializePush).flatten
      else bulkString response

/-- The branches in front of the one for arrays are not taken. -/
structure Unrecognised (response : Bytes) : Prop where
  /-- The text is none of those that are recognised as a whole. -/
  fixed : response ∉ fixedTexts
  /-- It is not an error. -/
  error : isError response = false
  /-- It is not an integer. -/
  integer : integerOf response = none
  /-- It is not a quoted string. -/
  quoted : isQuoted response = false

/-- The body calls the function again, on the content of a line of an array. -/
structure ElementCall (content response : Bytes) : Prop where
  /-- The first branches are not taken. -/
  unrecognised : Unrecognised response
  /-- The branch for arrays is taken. -/
  array : isArray response = true
  /-- The content stands in a line, and is not a quoted string. -/
  line : ∃ line ∈ getLines response, afterParen line = some content ∧ isQuoted content = false

/-- A call is made on a shorter text. -/
theorem ElementCall.length_lt {content response : Bytes} (h : ElementCall content response) :
    content.length < response.length := by
  obtain ⟨line, hline, hcontent, -⟩ := h.line
  have hle := length_le_of_mem_getLines hline
  obtain ⟨front, rfl, hfront⟩ := afterParen_eq_some hcontent
  rw [List.length_append] at hle
  omega

/-- Every call returns: there is no endless chain of calls. -/
theorem acc_elementCall (response : Bytes) : Acc ElementCall response := by
  induction hn : response.length using Nat.strong_induction_on generalizing response with
  | _ n ih =>
    refine Acc.intro response fun content hcall => ?_
    exact ih content.length (hn ▸ hcall.length_lt) content rfl

/-- The texts that are recognised as a whole are serialized without a call. -/
theorem serializeBody_fixed {response : Bytes} (h : response ∈ fixedTexts)
    (call call' : Bytes → Bytes) : serializeBody call response = serializeBody call' response := by
  simp only [fixedTexts, List.mem_cons, List.not_mem_nil, or_false] at h
  rcases h with rfl | rfl | rfl | rfl | rfl | rfl <;> rfl

/-- The cascade for the other texts. -/
theorem serializeBody_of_notMem {response : Bytes} (h : response ∉ fixedTexts)
    (call : Bytes → Bytes) : serializeBody call response =
      if isError response then error response
      else
        match integerOf response with
        | some val => integer val
        | none =>
          if isQuoted response then bulkString (unquote response)
          else if isArray response then array ((getLines response).map (elementBody call))
          else if isPush response then ((getLines response).map serializePush).flatten
          else bulkString response := by
  simp only [fixedTexts, List.mem_cons, List.not_mem_nil, or_false, not_or] at h
  obtain ⟨h₁, h₂, h₃, h₄, h₅, h₆⟩ := h
  simp only [serializeBody, h₁, h₂, h₃, h₄, h₅, h₆, if_false]

/-- The body depends on the function only through the calls it makes. -/
theorem serializeBody_congr {call call' : Bytes → Bytes} {response : Bytes}
    (h : ∀ content, ElementCall content response → call content = call' content) :
    serializeBody call response = serializeBody call' response := by
  by_cases hfixed : response ∈ fixedTexts
  · exact serializeBody_fixed hfixed call call'
  rw [serializeBody_of_notMem hfixed, serializeBody_of_notMem hfixed]
  by_cases herror : isError response = true
  · rw [if_pos herror, if_pos herror]
  rw [if_neg herror, if_neg herror]
  rcases hinteger : integerOf response with _ | val
  · by_cases hquoted : isQuoted response = true
    · simp only [hquoted, if_true]
    · by_cases harray : isArray response = true
      · simp only [hquoted, harray, if_true, Bool.false_eq_true, if_false]
        congr 1
        refine List.map_congr_left fun line hline => ?_
        unfold elementBody
        rcases hcontent : afterParen line with _ | content
        · rfl
        · by_cases hinner : isQuoted content = true
          · simp only [hinner, if_true]
          · simp only [hinner, Bool.false_eq_true, if_false]
            exact h content ⟨⟨hfixed, Bool.eq_false_iff.mpr herror, hinteger,
              Bool.eq_false_iff.mpr hquoted⟩, harray, line, hline, hcontent,
              Bool.eq_false_iff.mpr hinner⟩
      · simp only [hquoted, harray, Bool.false_eq_true, if_false]
  · rfl

/-- A round of the recursion with fuel is the body. -/
theorem serialize_succ (fuel : ℕ) (response : Bytes) :
    serialize (fuel + 1) response = serializeBody (serialize fuel) response := rfl

/-- `serializeResponse` solves the recursion. -/
theorem serializeResponse_eq_body (response : Bytes) :
    serializeResponse response = serializeBody serializeResponse response := by
  rw [serializeResponse, serialize_succ]
  refine serializeBody_congr fun content hcall => ?_
  exact serialize_fuel hcall.length_lt (Nat.lt_succ_self _)

/-- No other function does. -/
theorem eq_serializeResponse_of_body {call : Bytes → Bytes}
    (h : ∀ response, call response = serializeBody call response) (response : Bytes) :
    call response = serializeResponse response := by
  induction acc_elementCall response with
  | intro response _ ih => rw [h, serializeResponse_eq_body, serializeBody_congr ih]

/-! ### The values that are written -/

/-- A byte string is cut completely into RESP2 values. -/
structure SplitsInto (output : Bytes) (values : List Bytes) : Prop where
  /-- Nothing is left over. -/
  flatten : values.flatten = output
  /-- The pieces are values. -/
  value : ∀ v ∈ values, RespValue v

/-- There is at most one way to do so. -/
theorem split_unique {output : Bytes} {values values' : List Bytes}
    (h : SplitsInto output values) (h' : SplitsInto output values') : values = values' := by
  induction values generalizing output values' with
  | nil =>
    rcases values' with _ | ⟨v', values'⟩
    · rfl
    · have hempty : v' ++ values'.flatten = [] := h'.flatten.trans h.flatten.symm
      exact absurd (List.append_eq_nil_iff.mp hempty).1 (h'.value v' List.mem_cons_self).ne_nil
  | cons v values ih =>
    rcases values' with _ | ⟨v', values'⟩
    · have hempty : v ++ values.flatten = [] := h.flatten.trans h'.flatten.symm
      exact absurd (List.append_eq_nil_iff.mp hempty).1 (h.value v List.mem_cons_self).ne_nil
    · have heq : v ++ values.flatten = v' ++ values'.flatten := h.flatten.trans h'.flatten.symm
      obtain ⟨rfl, hrest⟩ :=
        (h.value v List.mem_cons_self).append_inj (h'.value v' List.mem_cons_self) heq
      rw [ih ⟨rfl, fun u hu => h.value u (List.mem_cons_of_mem _ hu)⟩
        ⟨hrest.symm, fun u hu => h'.value u (List.mem_cons_of_mem _ hu)⟩]

/-- An array with three values. -/
def ThreeElements (value : Bytes) : Prop :=
  ∃ a b c, RespValue a ∧ RespValue b ∧ RespValue c ∧ value = array [a, b, c]

/-- A line of the pub/sub branch becomes such an array. -/
theorem threeElements_serializePush (line : Bytes) : ThreeElements (serializePush line) := by
  refine ⟨_, _, _, respValue_bulkString _, respValue_bulkString _, ?_, rfl⟩
  split
  · exact respValue_bulkString _
  · split
    · exact respValue_integer _
    · exact respValue_bulkString _

/-- The text is taken by the pub/sub branch. -/
structure PushBranch (response : Bytes) : Prop where
  /-- The first branches are not taken. -/
  unrecognised : Unrecognised response
  /-- The branch for arrays is not taken. -/
  array : isArray response = false
  /-- The text begins like a pub/sub message. -/
  push : isPush response = true

/-- Every text that begins like a pub/sub message is taken by this branch. -/
theorem pushBranch_iff {response : Bytes} : PushBranch response ↔ isPush response = true := by
  refine ⟨fun h => h.push, fun h => ?_⟩
  have hkind : TakesFeed response := Or.inr (Or.inr h)
  exact ⟨⟨hkind.notMem.1, hkind.notMem.2, integerOf_of_isPush h, isQuoted_of_isPush h⟩,
    isArray_of_isPush h, h⟩

/-- What the pub/sub branch returns. -/
theorem PushBranch.serializeResponse_eq {response : Bytes} (h : PushBranch response) :
    serializeResponse response = ((getLines response).map serializePush).flatten := by
  apply serializeResponse_of_isPush
  exact h.push

/-- **Serializing is total and well formed.**  For every text in which no `\r` is directly followed
by `\n`: there is no endless chain of recursive calls, what is returned solves the recursion, and
it can be cut into RESP2 values completely and in one way only.  These are exactly one three-element
array for each line if the text is taken by the pub/sub branch, and exactly one value if not. -/
theorem serializeResponse_total {response : Bytes} (h : ¬ CRLF <:+: response) :
    Acc ElementCall response ∧
      serializeResponse response = serializeBody serializeResponse response ∧
      ∃ values, SplitsInto (serializeResponse response) values ∧
        (∀ values', SplitsInto (serializeResponse response) values' → values' = values) ∧
        (PushBranch response → values.length = (getLines response).length ∧
          ∀ v ∈ values, ThreeElements v) ∧
        (¬ PushBranch response → values.length = 1) := by
  refine ⟨acc_elementCall response, serializeResponse_eq_body response, ?_⟩
  by_cases hpush : PushBranch response
  · have hsplit : SplitsInto (serializeResponse response)
        ((getLines response).map serializePush) := by
      refine ⟨hpush.serializeResponse_eq.symm, fun v hv => ?_⟩
      obtain ⟨line, -, rfl⟩ := List.mem_map.mp hv
      exact respValue_serializePush line
    refine ⟨_, hsplit, fun values' h' => split_unique h' hsplit, fun _ => ⟨?_, fun v hv => ?_⟩,
      fun hnot => absurd hpush hnot⟩
    · exact List.length_map _
    · obtain ⟨line, -, rfl⟩ := List.mem_map.mp hv
      exact threeElements_serializePush line
  · have hvalue : RespValue (serializeResponse response) := by
      refine (respValue_serializeResponse_iff response).mpr ⟨fun herror => h herror.2, ?_⟩
      exact fun hlines => hpush (pushBranch_iff.mpr hlines.1)
    have hsplit : SplitsInto (serializeResponse response) [serializeResponse response] :=
      ⟨List.flatten_singleton, fun v hv => List.mem_singleton.mp hv ▸ hvalue⟩
    exact ⟨_, hsplit, fun values' h' => split_unique h' hsplit, fun hyes => absurd hyes hpush,
      fun _ => rfl⟩

/-- Two confirmations. -/
theorem serializeResponse_total_two_lines :
    let response := ascii "subscribe a 1\nsubscribe b 2"
    ¬ CRLF <:+: response ∧ PushBranch response ∧
      ∃ values, SplitsInto (serializeResponse response) values ∧ values.length = 2 ∧
        ∀ v ∈ values, ThreeElements v := by
  intro response
  have hcrlf : ¬ CRLF <:+: response := by decide
  have hpush : PushBranch response := pushBranch_iff.mpr (by decide)
  obtain ⟨-, -, values, hsplit, -, hlines, -⟩ := serializeResponse_total hcrlf
  obtain ⟨hlength, hthree⟩ := hlines hpush
  exact ⟨hcrlf, hpush, values, hsplit, hlength, hthree⟩

end MyRedis.Resp
