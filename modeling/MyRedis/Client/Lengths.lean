import MyRedis.Client.Values
import MyRedis.Commands.NumberedTexts

/-!
# Lengths that the client can read

The client reads the length of a string and the number of elements of an array with `std::stoi`, so
that it reads a reply only if these numbers fit into an `int`.  `Legible` says so of the bytes of a
reply.

`serialize_response` takes the strings of a reply out of the text that a command handler returned: a
text shorter than 2 GiB is sent with lengths that fit (`legible_serializeResponse`), and so is a
list of any size, as long as each string is shorter than that and the list does not have too many
lines (`legible_numbered`).
-/

namespace MyRedis

open Foundation Resp

/-! ### Values -/

/-- The bytes of a value whose lengths fit into an `int`. -/
def Legible (code : Bytes) : Prop := ∃ t : RespTree, t.Fits ∧ t.encode = code

/-- The client reads such bytes as one value. -/
theorem Legible.exists_parse {code : Bytes} (h : Legible code) :
    ∃ text, Client.parseRespValue code = some (text, code.length) := by
  obtain ⟨t, hfits, rfl⟩ := h
  have hread := Client.parseRespValue_tree hfits []
  rw [List.append_nil] at hread
  exact ⟨_, hread⟩

theorem legible_error {msg : Bytes} (h : ¬ CRLF <:+: msg) : Legible (error msg) :=
  ⟨.error msg, .error h, rfl⟩

theorem legible_integer (val : Int64) : Legible (integer val) := ⟨.integer val, .integer val, rfl⟩

theorem legible_bulkString {str : Bytes} (h : str.length < 2 ^ 31) : Legible (bulkString str) :=
  ⟨.bulkString str, .bulkString h, rfl⟩

theorem legible_array {elements : List Bytes} (hcount : elements.length < 2 ^ 31)
    (h : ∀ e ∈ elements, Legible e) : Legible (array elements) := by
  have htrees : ∃ ts : List RespTree, (∀ t ∈ ts, t.Fits) ∧ RespTree.encodeAll ts = elements := by
    clear hcount
    induction elements with
    | nil => exact ⟨[], by simp, rfl⟩
    | cons e es ih =>
      rw [List.forall_mem_cons] at h
      obtain ⟨t, ht, rfl⟩ := h.1
      obtain ⟨ts, hts, rfl⟩ := ih h.2
      exact ⟨t :: ts, List.forall_mem_cons.mpr ⟨ht, hts⟩, rfl⟩
  obtain ⟨ts, hfits, rfl⟩ := htrees
  rw [RespTree.encodeAll_eq_map, List.length_map] at hcount
  exact ⟨.array ts, .array hcount hfits, rfl⟩

/-- A text that is recognised as a whole. -/
theorem legible_serialize_fixed {response : Bytes} (h : response ∈ fixedTexts) (fuel : ℕ) :
    Legible (serialize (fuel + 1) response) := by
  simp only [fixedTexts, List.mem_cons, List.not_mem_nil, or_false] at h
  rcases h with rfl | rfl | rfl | rfl | rfl | rfl
  · exact ⟨.nullBulkString, .nullBulkString, rfl⟩
  · exact ⟨.simpleString (ascii "OK"), .simpleString (by decide), rfl⟩
  · exact ⟨.simpleString (ascii "PONG"), .simpleString (by decide), rfl⟩
  · exact ⟨.simpleString (ascii "QUEUED"), .simpleString (by decide), rfl⟩
  · exact ⟨.nullBulkString, .nullBulkString, rfl⟩
  · exact ⟨.array [], .array (by decide) (by simp), rfl⟩

/-! ### Lines of a text -/

/-- A token and the rest of the stream are not longer than the stream. -/
theorem length_readToken_le (stream : Bytes) :
    (readToken stream).1.length ≤ stream.length ∧ (readToken stream).2.length ≤ stream.length := by
  have hskip : (stream.dropWhile isSpace).length ≤ stream.length :=
    (List.dropWhile_sublist _).length_le
  rw [readToken, List.span_eq_takeWhile_dropWhile]
  exact ⟨(List.takeWhile_sublist _).length_le.trans hskip,
    (List.dropWhile_sublist _).length_le.trans hskip⟩

/-- A line of a pub/sub message. -/
theorem legible_serializePush {line : Bytes} (h : line.length < 2 ^ 31) :
    Legible (serializePush line) := by
  obtain ⟨htype, hrest⟩ := length_readToken_le line
  obtain ⟨hchannel, hthird⟩ := length_readToken_le (readToken line).2
  have hlast : ((readToken (readToken line).2).2.dropWhile isSpace).length ≤
      (readToken (readToken line).2).2.length := (List.dropWhile_sublist _).length_le
  refine legible_array (by simp) ?_
  simp only [List.mem_cons, List.not_mem_nil, or_false]
  rintro e (rfl | rfl | rfl)
  · exact legible_bulkString (by omega)
  · exact legible_bulkString (by omega)
  · split
    · exact legible_bulkString (by omega)
    · split
      · exact legible_integer _
      · exact legible_bulkString (by omega)

/-- The part of a line that is sent as an element of an array. -/
def shownPart (line : Bytes) : Bytes := (afterParen line).getD line

/-- It is not longer than the line. -/
theorem length_shownPart_le (line : Bytes) : (shownPart line).length ≤ line.length := by
  unfold shownPart
  cases hcontent : afterParen line with
  | none => exact le_rfl
  | some content =>
    obtain ⟨front, rfl, -⟩ := afterParen_eq_some hcontent
    rw [Option.getD_some, List.length_append]
    omega

/-- An element of an array, if shorter texts without line feeds have lengths that fit. -/
theorem legible_serializeLine {fuel : ℕ} {r line : Bytes} (hline : line ∈ getLines r)
    (hfuel : r.length ≤ fuel) (hpart : (shownPart line).length < 2 ^ 31)
    (hshorter : ∀ content, content.length < fuel → LF ∉ content → content.length < 2 ^ 31 →
      Legible (serialize fuel content)) :
    Legible (serializeLine fuel line) := by
  unfold serializeLine
  unfold shownPart at hpart
  split
  · rename_i content hcontent
    rw [hcontent, Option.getD_some] at hpart
    split
    · refine legible_bulkString ?_
      rw [length_unquote]
      omega
    · obtain ⟨front, rfl, hfront⟩ := afterParen_eq_some hcontent
      have hlen := length_le_of_mem_getLines hline
      rw [List.length_append] at hlen
      have hno := notMem_of_mem_getLines hline
      rw [List.mem_append, not_or] at hno
      exact hshorter content (by omega) hno.2 hpart
  · rename_i hnone
    rw [hnone, Option.getD_none] at hpart
    exact legible_bulkString hpart

/-! ### Texts -/

/-- A text that is sent as one value, if shorter texts without line feeds have lengths that fit. -/
theorem legible_serialize {fuel : ℕ} {r : Bytes} (hfuel : r.length ≤ fuel)
    (herror : isError r = true → ¬ CRLF <:+: r) (hpush : isPush r = true → LF ∉ r.dropLast)
    (hlength : r.length < 2 ^ 31)
    (hshorter : ∀ content, content.length < fuel → LF ∉ content → content.length < 2 ^ 31 →
      Legible (serialize fuel content)) :
    Legible (serialize (fuel + 1) r) := by
  by_cases hfixed : r ∈ fixedTexts
  · exact legible_serialize_fixed hfixed fuel
  have hlines : ∀ line ∈ getLines r, line.length < 2 ^ 31 :=
    fun line hline => (length_le_of_mem_getLines hline).trans_lt hlength
  rw [serialize_of_notMem hfixed]
  split
  · rename_i herr
    exact legible_error (herror herr)
  split
  · exact legible_integer _
  split
  · refine legible_bulkString ?_
    rw [length_unquote]
    omega
  split
  · refine legible_array ?_ fun e he => ?_
    · rw [List.length_map]
      exact (length_getLines_le r).trans_lt hlength
    · obtain ⟨line, hline, rfl⟩ := List.mem_map.mp he
      exact legible_serializeLine hline hfuel
        ((length_shownPart_le line).trans_lt (hlines line hline)) hshorter
  split
  · rename_i hmessage
    have hne : r ≠ [] := fun hnil => hfixed (by simp [fixedTexts, hnil])
    obtain ⟨line, hline⟩ := List.length_eq_one_iff.mp
      (length_getLines_eq_one_iff.mpr ⟨hne, hpush hmessage⟩)
    rw [hline, List.map_singleton, List.flatten_singleton]
    exact legible_serializePush (hlines line (by rw [hline]; exact List.mem_singleton_self line))
  · exact legible_bulkString hlength

/-- A text without line feeds. -/
theorem legible_serialize_of_notMem {fuel : ℕ} {r : Bytes} (hfuel : r.length < fuel) (hr : LF ∉ r)
    (hlength : r.length < 2 ^ 31) : Legible (serialize fuel r) := by
  induction fuel generalizing r with
  | zero => exact absurd hfuel (Nat.not_lt_zero _)
  | succ fuel ih =>
    refine legible_serialize (Nat.le_of_lt_succ hfuel) ?_ ?_ hlength fun _ hc hno hlen =>
      ih hc hno hlen
    · exact fun _ hcrlf => hr (hcrlf.subset (by simp [CRLF]))
    · exact fun _ hmem => hr (List.mem_of_mem_dropLast hmem)

/-- A text shorter than 2 GiB that is sent as one value. -/
theorem legible_serializeResponse {r : Bytes} (hvalue : RespValue (serializeResponse r))
    (hlength : r.length < 2 ^ 31) : Legible (serializeResponse r) := by
  obtain ⟨herror, hpush⟩ := (respValue_serializeResponse_iff r).mp hvalue
  exact legible_serialize le_rfl (fun herr hcrlf => herror ⟨herr, hcrlf⟩)
    (fun hmessage hmem => hpush ⟨hmessage, hmem⟩) hlength
    fun _ hc hno hlen => legible_serialize_of_notMem hc hno hlen

/-- An error of any length that is sent as one value. -/
theorem legible_serializeResponse_of_isError {r : Bytes} (hvalue : RespValue (serializeResponse r))
    (herror : isError r = true) : Legible (serializeResponse r) := by
  rw [serializeResponse_of_isError herror]
  exact legible_error ((respValue_serializeResponse_iff_of_isError herror).mp hvalue)

/-! ### Numbered lines -/

/-- The number of lines of several texts. -/
def lineCount (texts : List Bytes) : ℕ := (texts.map fun text => text.count LF + 1).sum

/-- At most so many lines are read back. -/
theorem length_getLines_lines_le (ls : List Bytes) :
    (getLines (lines ls)).length ≤ lineCount ls := by
  have hone (line : Bytes) : (getLines line).length ≤ line.count LF + 1 := by
    by_cases hnil : line = []
    · simp [hnil, getLines]
    · rw [length_getLines hnil]
      exact Nat.succ_le_succ ((List.dropLast_sublist line).count_le LF)
  induction ls with
  | nil => simp [lines, getLines]
  | cons line ls ih =>
    have hcount : lineCount (line :: ls) = line.count LF + 1 + lineCount ls := by simp [lineCount]
    rcases ls with _ | ⟨next, later⟩
    · exact (hone line).trans (by rw [hcount]; exact Nat.le_add_right _ _)
    · have hfirst : (getLines (line ++ [LF])).length = line.count LF + 1 := by
        rw [length_getLines (by simp), List.dropLast_concat]
      rw [lines_cons_cons, getLines_append_cons, List.length_append, hfirst, hcount]
      exact Nat.add_le_add_left ih _

/-- Numbers add no lines. -/
theorem lineCount_numberItems (items : List Bytes) :
    lineCount (numberItems items) = lineCount items := by
  have hcount (n : ℕ) (item : Bytes) :
      (decimal n ++ ascii ") " ++ item).count LF = item.count LF := by
    have hnumber : (decimal n).count LF = 0 :=
      List.count_eq_zero.mpr (notMem_decimal (by decide))
    have hparen : (ascii ") ").count LF = 0 := by decide
    rw [List.count_append, List.count_append, hnumber, hparen, Nat.zero_add]
  unfold lineCount numberItems
  rw [List.map_map]
  have hfst : ((fun text : Bytes => text.count LF + 1) ∘ fun item : Bytes × ℕ =>
      decimal (item.2 + 1) ++ ascii ") " ++ item.1) =
        (fun text : Bytes => text.count LF + 1) ∘ Prod.fst := by
    funext item
    exact congrArg (· + 1) (hcount _ _)
  rw [hfst, ← List.map_map, List.zipIdx_map_fst]

/-- What is sent of a line of a numbered item is not longer than the item. -/
theorem length_shownPart_numbered_le {n : ℕ} {item line : Bytes}
    (h : line ∈ getLines (numbered n item)) : (shownPart line).length ≤ item.length := by
  have hnumber : LF ∉ decimal n ++ ascii ") " := by
    rw [List.mem_append, not_or]
    exact ⟨notMem_decimal (by decide), by decide⟩
  have hlines : ∀ l ∈ getLines item, l.length ≤ item.length := fun l => length_le_of_mem_getLines
  rw [numbered, getLines_append_of_notMem hnumber (by simp [ascii])] at h
  rcases List.mem_cons.mp h with rfl | hlater
  · -- the first line, behind its number
    have hpart : shownPart (numbered n ((getLines item).headD [])) = (getLines item).headD [] := by
      rw [shownPart, afterParen_numbered, Option.getD_some]
    refine (congrArg List.length hpart).trans_le ?_
    cases hitem : getLines item with
    | nil => exact Nat.zero_le _
    | cons first later => exact hlines first (by rw [hitem]; exact List.mem_cons_self)
  · exact (length_shownPart_le line).trans (hlines line (List.mem_of_mem_tail hlater))

/-- What is sent of a line of several numbered items. -/
theorem exists_shownPart_le (items : List (Bytes × ℕ)) {line : Bytes}
    (h : line ∈ getLines (lines (items.map fun p => numbered (p.2 + 1) p.1))) :
    ∃ p ∈ items, (shownPart line).length ≤ p.1.length + 1 := by
  induction items with
  | nil => simp [lines, getLines] at h
  | cons p items ih =>
    rcases items with _ | ⟨q, items⟩
    · refine ⟨p, List.mem_singleton_self p, ?_⟩
      exact (length_shownPart_numbered_le h).trans (Nat.le_succ _)
    · rw [List.map_cons, List.map_cons, lines_cons_cons, getLines_append_cons,
        List.mem_append] at h
      rcases h with hfirst | hlater
      · -- the line feed counts as a byte of the item
        have hfeed : numbered (p.2 + 1) p.1 ++ [LF] = numbered (p.2 + 1) (p.1 ++ [LF]) := by
          simp [numbered]
        rw [hfeed] at hfirst
        have hle := length_shownPart_numbered_le hfirst
        rw [List.length_append, List.length_singleton] at hle
        exact ⟨p, List.mem_cons_self, hle⟩
      · obtain ⟨q', hq', hle⟩ := ih hlater
        exact ⟨q', List.mem_cons_of_mem _ hq', hle⟩

/-- A numbered list whose strings are shorter than 2 GiB and that does not have too many lines. -/
theorem legible_numbered {items : List Bytes} (hitems : items ≠ [])
    (hlines : lineCount items < 2 ^ 31) (hshort : ∀ item ∈ items, item.length + 1 < 2 ^ 31) :
    Legible (serializeResponse (lines (numberItems items))) := by
  rw [serializeResponse_numbered hitems]
  refine legible_array ?_ fun e he => ?_
  · rw [List.length_map]
    exact (length_getLines_lines_le _).trans_lt ((lineCount_numberItems items).trans_lt hlines)
  · obtain ⟨line, hline, rfl⟩ := List.mem_map.mp he
    obtain ⟨p, hp, hle⟩ := exists_shownPart_le items.zipIdx hline
    have hitem := hshort p.1 (List.fst_mem_of_mem_zipIdx hp)
    exact legible_serializeLine hline le_rfl (hle.trans_lt hitem)
      fun content hc hno hlen => legible_serialize_of_notMem hc hno hlen

end MyRedis
