import MyRedis.Resp.Framing

/-!
# What is sent for a text of a known kind

`serialize_response` looks at a text in a fixed order of tests.  The tests exclude each other as far
as it matters, so that what is sent for a text is told by the one test that it passes.
-/

namespace MyRedis.Resp

open Foundation

/-! ### Values are determined by their bytes -/

/-- A string is determined by its bulk string. -/
theorem bulkString_injective : Function.Injective bulkString := by
  intro a b h
  simp only [bulkString, List.append_assoc] at h
  rw [List.append_cancel_left_eq] at h
  have hline := line_append_inj (not_crlf_infix_decimal _) (not_crlf_infix_decimal _) h
  exact List.append_cancel_right hline.2

/-- Arrays of the same bytes have the same number of elements, and their elements are the same one
after the other. -/
theorem array_inj {xs ys : List Bytes} (h : array xs = array ys) :
    xs.length = ys.length ∧ xs.flatten = ys.flatten := by
  simp only [array, List.append_assoc] at h
  rw [List.append_cancel_left_eq] at h
  have hline := line_append_inj (not_crlf_infix_decimal _) (not_crlf_infix_decimal _) h
  exact ⟨decimal_injective hline.1, hline.2⟩

/-! ### The kinds of texts -/

/-- The texts for which a line feed at the end makes no difference. -/
def TakesFeed (s : Bytes) : Prop :=
  (integerOf s).isSome = true ∨ isArray s = true ∨ isPush s = true

/-- None of them is recognised as a whole, or is an error. -/
theorem TakesFeed.notMem {s : Bytes} (h : TakesFeed s) : s ∉ fixedTexts ∧ isError s = false := by
  have hfixed : ∀ t ∈ fixedTexts, ¬ ((integerOf t).isSome = true ∨ isArray t = true ∨
      isPush t = true) := by
    decide
  refine ⟨fun hmem => hfixed s hmem h, ?_⟩
  by_contra herror
  have herror := Bool.not_eq_false _ ▸ herror
  rcases h with hint | harray | hpush
  · unfold integerOf at hint
    split at hint
    · rename_i hlit
      have hhead := head?_of_take_eq (by decide) hlit.2
      rcases head?_of_isError herror with he | he | he <;> rw [he] at hhead <;>
        exact absurd hhead (by decide)
    · cases hint
  · simp only [isArray, Bool.and_eq_true] at harray
    rcases head?_of_isError herror with he | he | he <;> rw [he] at harray <;>
      exact absurd harray.1.2 (by decide)
  · rw [isPush_eq_false_of_isError herror] at hpush
    cases hpush

/-- An error is sent as it is. -/
theorem serializeResponse_of_isError {r : Bytes} (herror : isError r = true) :
    serializeResponse r = error r := by
  have hfixed : r ∉ fixedTexts := by
    intro hmem
    have hnone : ∀ t ∈ fixedTexts, isError t = false := by decide
    rw [hnone r hmem] at herror
    cases herror
  rw [serializeResponse, serialize_of_notMem hfixed, herror, if_pos rfl]

/-- An integer. -/
theorem serializeResponse_of_integerOf {r : Bytes} {val : Int64} (h : integerOf r = some val) :
    serializeResponse r = integer val := by
  have hkind : TakesFeed r := Or.inl (by rw [h]; rfl)
  rw [serializeResponse, serialize_of_notMem hkind.notMem.1, hkind.notMem.2, h]
  rfl

/-- The first byte of an array. -/
theorem head?_of_isArray {r : Bytes} (h : isArray r = true) :
    ∃ c, r.head? = some c ∧ 49 ≤ c ∧ c ≤ 57 := by
  simp only [isArray, Bool.and_eq_true] at h
  rcases hhead : r.head? with _ | c
  · rw [hhead] at h
    exact absurd h.1.2 (by simp)
  · rw [hhead] at h
    exact ⟨c, rfl, by simpa using h.1.2⟩

/-- An array is sent line by line. -/
theorem serializeResponse_of_isArray {r : Bytes} (h : isArray r = true) :
    serializeResponse r = array ((getLines r).map (serializeLine r.length)) := by
  have hkind : TakesFeed r := Or.inr (Or.inl h)
  obtain ⟨c, hc, hlow, hhigh⟩ := head?_of_isArray h
  have hint : integerOf r = none := by
    unfold integerOf
    refine if_neg fun hlit => ?_
    rw [head?_of_take_eq (by decide) hlit.2] at hc
    obtain rfl := Option.some.inj hc
    exact absurd hlow (by decide)
  have hquoted : isQuoted r = false := by
    by_contra hquoted
    simp only [Bool.not_eq_false, isQuoted, Bool.and_eq_true, beq_iff_eq] at hquoted
    obtain rfl := Option.some.inj (hquoted.1.2.symm.trans hc)
    exact absurd hlow (by decide)
  rw [serializeResponse, serialize_of_notMem hkind.notMem.1, hkind.notMem.2, hint]
  simp only [hquoted, h, if_true, if_false, Bool.false_eq_true]

/-- A pub/sub message is no integer. -/
theorem integerOf_of_isPush {r : Bytes} (h : isPush r = true) : integerOf r = none := by
  by_contra hne
  obtain ⟨val, hval⟩ := Option.ne_none_iff_exists'.mp hne
  rw [isPush_eq_false_of_integerOf hval] at h
  cases h

/-- It is not in quotation marks. -/
theorem isQuoted_of_isPush {r : Bytes} (h : isPush r = true) : isQuoted r = false := by
  by_contra hquoted
  rw [isPush_eq_false_of_isQuoted (Bool.not_eq_false _ ▸ hquoted)] at h
  cases h

/-- It is no array. -/
theorem isArray_of_isPush {r : Bytes} (h : isPush r = true) : isArray r = false := by
  by_contra harray
  rw [isPush_eq_false_of_isArray (Bool.not_eq_false _ ▸ harray)] at h
  cases h

/-- Pub/sub messages are sent line by line, too. -/
theorem serializeResponse_of_isPush {r : Bytes} (h : isPush r = true) :
    serializeResponse r = ((getLines r).map serializePush).flatten := by
  have hkind : TakesFeed r := Or.inr (Or.inr h)
  rw [serializeResponse, serialize_of_notMem hkind.notMem.1, hkind.notMem.2, integerOf_of_isPush h]
  simp only [isQuoted_of_isPush h, isArray_of_isPush h, h, if_true, if_false, Bool.false_eq_true]

/-- Any other text is sent as a string. -/
theorem serializeResponse_of_other {r : Bytes} (hfixed : r ∉ fixedTexts)
    (herror : isError r = false) (hquoted : isQuoted r = false) (hkind : ¬ TakesFeed r) :
    serializeResponse r = bulkString r := by
  simp only [TakesFeed, not_or, Bool.not_eq_true, Option.isSome_eq_false_iff,
    Option.isNone_iff_eq_none] at hkind
  obtain ⟨hint, harray, hpush⟩ := hkind
  rw [serializeResponse, serialize_of_notMem hfixed, herror, hint]
  simp only [hquoted, harray, hpush, if_false, Bool.false_eq_true]

/-- Without its quotation marks a text is shorter. -/
theorem length_unquote (s : Bytes) : (unquote s).length = s.length - 2 := by
  rw [unquote, List.length_dropLast, List.length_tail]
  rfl

/-- A text in quotation marks is sent as the string between them. -/
theorem serializeResponse_of_isQuoted {r : Bytes} (h : isQuoted r = true) :
    serializeResponse r = bulkString (unquote r) := by
  have hhead : r.head? = some 34 := by
    simp only [isQuoted, Bool.and_eq_true, beq_iff_eq] at h
    exact h.1.2
  have hfixed : r ∉ fixedTexts := by
    intro hmem
    have hnone : ∀ t ∈ fixedTexts, t.head? ≠ some 34 := by decide
    exact hnone r hmem hhead
  have herror : isError r = false := by
    by_contra herror
    rcases head?_of_isError (Bool.not_eq_false _ ▸ herror) with he | he | he <;>
      rw [he] at hhead <;> exact absurd hhead (by decide)
  have hint : integerOf r = none := by
    unfold integerOf
    refine if_neg fun hlit => ?_
    rw [head?_of_take_eq (by decide) hlit.2] at hhead
    exact absurd hhead (by decide)
  rw [serializeResponse, serialize_of_notMem hfixed, herror, hint]
  simp only [h, if_true, if_false, Bool.false_eq_true]

end MyRedis.Resp
