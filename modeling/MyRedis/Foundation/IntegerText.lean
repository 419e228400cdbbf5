import MyRedis.Foundation.ByteString
import MyRedis.Foundation.CheckedInt

/-!
# Which texts are read as integers

`Denotes` is the strict reading of integer text: an optional sign and decimal digits, and nothing
else.  `std::stoi` reads more: white space in front of the number, and whatever follows it.
`stoi_eq_some_iff` says exactly which texts it accepts, and `stoi_strict_iff` when it agrees with
the strict reading: on all texts but those that are `Padded`.
-/

namespace Foundation

/-- The signs of a number; it may have none. -/
def signs : List Bytes := [[], [43], [45]]

/-- The whole text is an optional sign and one or more decimal digits, and denotes the `int`. -/
def Denotes (text : Bytes) (n : Int32) : Prop :=
  ∃ sign ∈ signs, ∃ digits, text = sign ++ digits ∧ digits ≠ [] ∧
    (∀ c ∈ digits, isDigit c = true) ∧
    n.toInt = if sign = [45] then -(digitsValue digits : ℤ) else digitsValue digits

/-- White space in front of a number, and bytes behind it that do not go on with it. -/
structure Padding (spaces rest : Bytes) : Prop where
  /-- Nothing but white space in front. -/
  spaces : ∀ c ∈ spaces, isSpace c = true
  /-- No further digit behind. -/
  rest : ∀ c ∈ rest.head?, isDigit c = false

/-- An integer with white space in front of it or other bytes behind it. -/
def Padded (text : Bytes) : Prop :=
  ∃ spaces number rest n, text = spaces ++ (number ++ rest) ∧ Padding spaces rest ∧
    Denotes number n ∧ (spaces ≠ [] ∨ rest ≠ [])

/-! ### Signs -/

/-- Every text starts with one of the signs. -/
theorem exists_sign (s : Bytes) :
    ∃ sign ∈ signs, s = sign ++ (readSign s).2 ∧ ((readSign s).1 = true ↔ sign = [45]) := by
  unfold readSign
  split
  · exact ⟨[45], by decide, rfl, by simp⟩
  · exact ⟨[43], by decide, rfl, by simp⟩
  · exact ⟨[], by decide, rfl, by simp⟩

/-- The sign in front of a digit. -/
theorem readSign_append {sign : Bytes} (hsign : sign ∈ signs) {c : UInt8} (hc : isDigit c = true)
    (s : Bytes) : readSign (sign ++ c :: s) = (decide (sign = [45]), c :: s) := by
  simp only [signs, List.mem_cons, List.not_mem_nil, or_false] at hsign
  rcases hsign with rfl | rfl | rfl
  · exact readSign_of_isDigit ⟨s, rfl, hc⟩
  · rfl
  · rfl

/-- A number does not start with white space. -/
theorem exists_head_of_sign {sign : Bytes} (hsign : sign ∈ signs) {c : UInt8}
    (hc : isDigit c = true) (s : Bytes) :
    ∃ c' s', sign ++ c :: s = c' :: s' ∧ isSpace c' = false := by
  simp only [signs, List.mem_cons, List.not_mem_nil, or_false] at hsign
  rcases hsign with rfl | rfl | rfl
  · exact ⟨c, s, rfl, isSpace_eq_false_of_isDigit hc⟩
  · exact ⟨43, c :: s, rfl, by decide⟩
  · exact ⟨45, c :: s, rfl, by decide⟩

/-! ### The texts that are accepted -/

/-- The digits of a number end where no digit follows. -/
theorem takeWhile_digits {digits rest : Bytes} (hdigits : ∀ c ∈ digits, isDigit c = true)
    (hrest : ∀ c ∈ rest.head?, isDigit c = false) :
    (digits ++ rest).takeWhile isDigit = digits := by
  rw [List.takeWhile_append_of_pos hdigits]
  rcases rest with _ | ⟨c, s⟩
  · rw [List.takeWhile_nil, List.append_nil]
  · rw [List.takeWhile_cons_of_neg (by simp [hrest c rfl]), List.append_nil]

/-- `std::stoi` is `strtol` and a test of the range. -/
theorem stoi_eq (s : Bytes) : stoi s = (strtol s).bind exactInt := by
  unfold stoi
  rcases strtol s with _ | n <;> rfl

/-- What `strtol` reads, in a text that is taken apart. -/
theorem strtol_append {spaces sign digits rest : Bytes} (hpadding : Padding spaces rest)
    (hsign : sign ∈ signs) (hne : digits ≠ []) (hdigits : ∀ c ∈ digits, isDigit c = true) :
    strtol (spaces ++ (sign ++ digits ++ rest)) =
      some (if sign = [45] then -(digitsValue digits : ℤ) else digitsValue digits) := by
  obtain ⟨c, ds, rfl⟩ := List.exists_cons_of_ne_nil hne
  have hc : isDigit c = true := hdigits c List.mem_cons_self
  obtain ⟨c', s', hhead, hspace⟩ := exists_head_of_sign hsign hc (ds ++ rest)
  have htext : sign ++ c :: ds ++ rest = sign ++ c :: (ds ++ rest) := by
    rw [List.append_assoc, List.cons_append]
  have hdrop : (spaces ++ (sign ++ c :: ds ++ rest)).dropWhile isSpace =
      sign ++ c :: (ds ++ rest) := by
    rw [List.dropWhile_append_of_pos hpadding.spaces, htext, hhead,
      List.dropWhile_cons_of_neg (by simp [hspace])]
  have htake := takeWhile_digits hdigits hpadding.rest
  rw [List.cons_append] at htake
  unfold strtol
  simp only [hdrop, readSign_append hsign hc, htake, List.cons_ne_nil, if_false,
    decide_eq_true_eq]

/-- **The texts that `std::stoi` accepts**: white space, the number, and anything that does not go
on with it. -/
theorem stoi_eq_some_iff {text : Bytes} {n : Int32} :
    stoi text = some n ↔ ∃ spaces number rest, text = spaces ++ (number ++ rest) ∧
      Padding spaces rest ∧ Denotes number n := by
  rw [stoi_eq]
  constructor
  · intro h
    obtain ⟨v, hv, hn⟩ := Option.bind_eq_some_iff.mp h
    rw [exactInt_eq_some_iff] at hn
    obtain ⟨sign, hsign, hbody, hminus⟩ := exists_sign (text.dropWhile isSpace)
    unfold strtol at hv
    simp only at hv
    split at hv
    · cases hv
    rename_i hne
    set body := (readSign (text.dropWhile isSpace)).2
    refine ⟨text.takeWhile isSpace, sign ++ body.takeWhile isDigit, body.dropWhile isDigit,
      ?_, ⟨fun c hc => List.mem_takeWhile_imp hc, fun c hc => ?_⟩, ?_⟩
    · rw [List.append_assoc, List.takeWhile_append_dropWhile, ← hbody,
        List.takeWhile_append_dropWhile]
    · have hhead := List.head?_dropWhile_not isDigit body
      rw [Option.mem_def.mp hc] at hhead
      exact hhead
    · refine ⟨sign, hsign, _, rfl, hne, fun c hc => List.mem_takeWhile_imp hc, ?_⟩
      rw [hn, ← Option.some.inj hv]
      simp only [hminus]
  · rintro ⟨spaces, number, rest, rfl, hpadding, sign, hsign, digits, rfl, hne, hdigits, hn⟩
    rw [strtol_append hpadding hsign hne hdigits, Option.bind_some, exactInt_eq_some_iff]
    exact hn

/-! ### The strict reading -/

/-- A text with a strict reading has no padding. -/
theorem not_padded_of_denotes {text : Bytes} {n : Int32} (h : Denotes text n) : ¬ Padded text := by
  rintro ⟨spaces, number, rest, m, htext, hpadding, hnumber, hpad⟩
  obtain ⟨sign', hsign', digits', rfl, hne', hdigits', -⟩ := hnumber
  obtain ⟨sign, hsign, digits, rfl, hne, hdigits, -⟩ := h
  obtain ⟨c, ds, rfl⟩ := List.exists_cons_of_ne_nil hne
  obtain ⟨c', ds', rfl⟩ := List.exists_cons_of_ne_nil hne'
  have hc := hdigits c List.mem_cons_self
  have hc' := hdigits' c' List.mem_cons_self
  rcases spaces with _ | ⟨b, spaces⟩
  · -- both numbers have the same sign, and the digits of the longer one go on in the rest
    have hsigns : (decide (sign = [45]), c :: ds) = (decide (sign' = [45]), c' :: ds' ++ rest) := by
      rw [← readSign_append hsign hc, htext, List.nil_append, List.append_assoc, List.cons_append,
        readSign_append hsign' hc']
    rcases rest with _ | ⟨d, rest⟩
    · exact hpad.elim (fun h => h rfl) fun h => h rfl
    · have hd : isDigit d = true := by
        refine hdigits d ?_
        rw [(Prod.mk.inj hsigns).2]
        simp
      exact Bool.false_ne_true ((hpadding.rest d rfl).symm.trans hd)
  · obtain ⟨a, s, hhead, hspace⟩ := exists_head_of_sign hsign hc ds
    rw [hhead] at htext
    obtain ⟨rfl, -⟩ := List.cons.inj htext
    exact Bool.false_ne_true (hspace.symm.trans (hpadding.spaces a List.mem_cons_self))

/-- **`std::stoi` reads strictly exactly where there is no padding.** -/
theorem stoi_strict_iff {text : Bytes} :
    (∀ n, stoi text = some n ↔ Denotes text n) ↔ ¬ Padded text := by
  constructor
  · rintro h ⟨spaces, number, rest, n, htext, hpadding, hnumber, hpad⟩
    have hstoi : stoi text = some n :=
      stoi_eq_some_iff.mpr ⟨spaces, number, rest, htext, hpadding, hnumber⟩
    exact not_padded_of_denotes ((h n).mp hstoi)
      ⟨spaces, number, rest, n, htext, hpadding, hnumber, hpad⟩
  · intro h n
    constructor
    · intro hstoi
      obtain ⟨spaces, number, rest, htext, hpadding, hnumber⟩ := stoi_eq_some_iff.mp hstoi
      have hnone : ¬ (spaces ≠ [] ∨ rest ≠ []) := fun hpad =>
        h ⟨spaces, number, rest, n, htext, hpadding, hnumber, hpad⟩
      simp only [not_or, not_not] at hnone
      obtain ⟨rfl, rfl⟩ := hnone
      rw [List.nil_append, List.append_nil] at htext
      exact htext ▸ hnumber
    · intro hdenotes
      refine stoi_eq_some_iff.mpr ⟨[], text, [], by simp, ⟨by simp, by simp⟩, hdenotes⟩

end Foundation
