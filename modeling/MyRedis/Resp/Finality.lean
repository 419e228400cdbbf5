import MyRedis.Resp.Encoding

/-!
# Verdicts on arrays are final

When `parse_resp_array` does not ask for more bytes, it has decided on bytes that are in the buffer
already: the header lines up to their `\r\n`, the data whose length they announce, and the two bytes
behind it.  More bytes behind the buffer do not change its verdict, whatever the buffer contains
(`Resp.array_verdict_final`).
-/

namespace MyRedis.Resp

open Foundation

/-! ### What lies inside of the buffer -/

/-- A part that lies inside of the buffer stays the same. -/
theorem take_drop_append {buffer : Bytes} {i n : ℕ} (h : i + n ≤ buffer.length) (x : Bytes) :
    ((buffer ++ x).drop i).take n = (buffer.drop i).take n := by
  rw [List.drop_append_of_le_length (by omega), List.take_append_of_le_length]
  rw [List.length_drop]
  omega

/-! ### The elements -/

/-- A verdict of the loop over the elements. -/
theorem parseElements_append {buffer : Bytes} {count pos : ℕ} {parts : List Bytes}
    (h : parseElements buffer count pos parts ≠ .needMore) (x : Bytes) :
    parseElements (buffer ++ x) count pos parts = parseElements buffer count pos parts := by
  induction count generalizing pos parts with
  | zero => rfl
  | succ count ih =>
    rw [parseElements] at h
    rw [parseElements, parseElements]
    by_cases hpos : buffer.length ≤ pos
    · rw [if_pos hpos] at h
      exact absurd rfl h
    have hpos' : ¬ (buffer ++ x).length ≤ pos := by
      rw [List.length_append]
      omega
    rw [if_neg hpos] at h ⊢
    rw [if_neg hpos', List.getElem?_append_left (not_le.mp hpos)]
    split
    · rfl
    rename_i htag
    rw [if_neg htag] at h
    rcases hfind : findCrlf buffer pos with _ | crlf
    · rw [hfind] at h
      exact absurd rfl h
    have hbound := add_two_le_of_findCrlf hfind
    have hstart := le_of_findCrlf hfind
    rw [hfind] at h
    have htext : ((buffer ++ x).drop (pos + 1)).take (crlf - pos - 1) =
        (buffer.drop (pos + 1)).take (crlf - pos - 1) := by
      by_cases hnext : pos < crlf
      · exact take_drop_append (by omega) x
      · have hzero : crlf - pos - 1 = 0 := by omega
        rw [hzero, List.take_zero, List.take_zero]
    rw [findCrlf_append_right hfind]
    simp only [htext] at h ⊢
    rcases hlen : stoi ((buffer.drop (pos + 1)).take (crlf - pos - 1)) with _ | len
    · rfl
    rw [hlen] at h
    simp only at h ⊢
    by_cases hneg : len < 0
    · rw [if_pos hneg] at h
      rw [if_pos hneg, if_pos hneg]
      exact ih h
    rw [if_neg hneg] at h
    rw [if_neg hneg, if_neg hneg]
    by_cases hshort : buffer.length < crlf + 2 + len.toInt.toNat + 2
    · rw [if_pos hshort] at h
      exact absurd rfl h
    have hshort' : ¬ (buffer ++ x).length < crlf + 2 + len.toInt.toNat + 2 := by
      rw [List.length_append]
      omega
    rw [if_neg hshort] at h ⊢
    rw [if_neg hshort', List.getElem?_append_left (by omega), List.getElem?_append_left (by omega),
      take_drop_append (by omega)]
    split
    · rfl
    rename_i hend
    rw [if_neg hend] at h
    exact ih h

/-- A verdict on an array. -/
theorem parseRespArray_append {buffer : Bytes} (h : ∀ n, parseRespArray buffer ≠ .needMore n)
    (x : Bytes) : parseRespArray (buffer ++ x) = parseRespArray buffer := by
  unfold parseRespArray at h ⊢
  rcases hfind : findCrlf buffer 0 with _ | crlf
  · rw [hfind] at h
    exact absurd rfl (h 0)
  have hbound := add_two_le_of_findCrlf hfind
  rw [hfind] at h
  have htext : ((buffer ++ x).drop 1).take (crlf - 1) = (buffer.drop 1).take (crlf - 1) :=
    take_drop_append (by omega) x
  rw [findCrlf_append_right hfind]
  simp only [htext] at h ⊢
  rcases hcountStr : stoi ((buffer.drop 1).take (crlf - 1)) with _ | count
  · rfl
  rw [hcountStr] at h
  simp only at h ⊢
  split
  · rfl
  rename_i hcount
  rw [parseElements_append]
  intro hmore
  exact h 0 (by rw [if_neg hcount, hmore]; rfl)

/-- **Verdicts on arrays are final.**  For every buffer that begins with `*`, whatever follows, and
every extension: a command stays the same command and takes the same bytes, and a protocol error
stays a protocol error. -/
theorem array_verdict_final {b : Bytes} (hb : b.head? = some 42) (x : Bytes) :
    (∀ cmd n, parseCommand b = .ok cmd n → parseCommand (b ++ x) = .ok cmd n) ∧
      (parseCommand b = .protocolError → parseCommand (b ++ x) = .protocolError) := by
  obtain ⟨tail, rfl⟩ := List.head?_eq_some_iff.mp hb
  have hparse (y : Bytes) : parseCommand (42 :: tail ++ y) = parseRespArray (42 :: tail ++ y) := rfl
  have hparse' : parseCommand (42 :: tail) = parseRespArray (42 :: tail) := rfl
  rw [hparse, hparse']
  constructor
  · intro cmd n hok
    rw [parseRespArray_append, hok]
    intro m hmore
    rw [hok] at hmore
    cases hmore
  · intro herror
    rw [parseRespArray_append, herror]
    intro m hmore
    rw [herror] at hmore
    cases hmore

/-- A command with a negative length behind its name, and an element without a dollar sign. -/
theorem array_verdict_final_negative_length :
    parseCommand (ascii "*2\r\n$4\r\nPING\r\n$-7\r\n" ++ ascii "*x") = .ok ⟨ascii "PING", [[]]⟩ 19 ∧
      parseCommand (ascii "*1\r\n+" ++ ascii "PING\r\n") = .protocolError :=
  ⟨(array_verdict_final (b := ascii "*2\r\n$4\r\nPING\r\n$-7\r\n") rfl _).1 _ _ (by decide),
    (array_verdict_final (b := ascii "*1\r\n+") rfl _).2 (by decide)⟩

end MyRedis.Resp
