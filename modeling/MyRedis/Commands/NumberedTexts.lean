import MyRedis.Commands.Handlers
import MyRedis.Resp.Kinds

/-!
# Numbered texts

Replies with several elements are put together as numbered lines, and `serialize_response` takes
them apart again at the line feeds.  An element that contains a line feed itself becomes several
elements: `serializeResponse_numbered_iff` says exactly when the array that is sent consists of the
elements as they would be sent alone.
-/

namespace MyRedis

open Foundation Resp

namespace Resp

/-! ### A line feed at the end of a text -/

/-- A literal that does not end in a line feed stands in front of a text whether or not a line feed
follows. -/
theorem take_append_feed {s lit : Bytes} {n : ℕ} (hn : lit.length = n)
    (hlit : lit.getLast? ≠ some LF) : (s ++ [LF]).take n = lit ↔ s.take n = lit := by
  rcases Nat.lt_or_ge s.length n with hlt | hle
  · rw [List.take_of_length_le (by simpa using hlt), List.take_of_length_le hlt.le]
    refine iff_of_false ?_ ?_
    · rintro rfl
      simp at hlit
    · rintro rfl
      exact absurd hn hlt.ne
  · rw [List.take_append_of_le_length hle]

theorem isError_append_feed (s : Bytes) : isError (s ++ [LF]) = isError s := by
  unfold isError
  rw [Bool.eq_iff_iff]
  simp only [Bool.or_eq_true, beq_iff_eq]
  rw [take_append_feed (by decide) (by decide), take_append_feed (by decide) (by decide),
    take_append_feed (by decide) (by decide), take_append_feed (by decide) (by decide)]

theorem isPush_append_feed (s : Bytes) : isPush (s ++ [LF]) = isPush s := by
  unfold isPush
  rw [Bool.eq_iff_iff]
  simp only [Bool.or_eq_true, beq_iff_eq]
  rw [take_append_feed (by decide) (by decide), take_append_feed (by decide) (by decide),
    take_append_feed (by decide) (by decide)]

theorem integerOf_append_feed (s : Bytes) : integerOf (s ++ [LF]) = integerOf s := by
  have hlit : (s ++ [LF]).take 10 = ascii "(integer) " ↔ s.take 10 = ascii "(integer) " :=
    take_append_feed (by decide) (by decide)
  unfold integerOf
  by_cases h : s.take 10 = ascii "(integer) "
  · have hlength : 10 ≤ s.length := by
      have hcount := congrArg List.length h
      rw [List.length_take] at hcount
      exact min_eq_left_iff.mp hcount
    have hlonger : 10 < (s ++ [LF]).length := by
      rw [List.length_append, List.length_singleton]
      omega
    rw [if_pos ⟨hlonger, hlit.mpr h⟩, List.drop_append_of_le_length hlength, stoll,
      strtol_append_space _ (by decide)]
    by_cases hmore : 10 < s.length
    · rw [if_pos ⟨hmore, h⟩, stoll]
    · rw [if_neg fun hboth => hmore hboth.1, List.drop_of_length_le (by omega)]
      rfl
  · rw [if_neg fun hboth => h (hlit.mp hboth.2), if_neg fun hboth => h hboth.2]

theorem isQuoted_append_feed (s : Bytes) : isQuoted (s ++ [LF]) = false := by
  simp [isQuoted, LF]

/-- The lines that are read from a line and a line feed. -/
theorem getLines_append_feed {s : Bytes} (h : LF ∉ s) (hne : s ≠ []) :
    getLines (s ++ [LF]) = getLines s := by
  rw [getLines_append h, getLines_of_notMem h hne]
  rfl

/-- A text that ends in a line feed is not recognised as a whole. -/
theorem append_feed_notMem_fixedTexts (s : Bytes) : s ++ [LF] ∉ fixedTexts := by
  intro h
  have hlast : ∀ t ∈ fixedTexts, t.getLast? ≠ some LF := by decide
  exact hlast _ h (by simp)

/-- A line feed at the end of a line makes no difference exactly for integers, arrays and pub/sub
messages. -/
theorem serializeResponse_append_feed_iff {s : Bytes} (h : LF ∉ s) :
    serializeResponse (s ++ [LF]) = serializeResponse s ↔ TakesFeed s := by
  constructor
  · intro heq
    by_contra hkind
    by_cases hfixed : s ∈ fixedTexts
    · have hne : ∀ t ∈ fixedTexts, serializeResponse (t ++ [LF]) ≠ serializeResponse t := by
        decide
      exact hne s hfixed heq
    cases herror : isError s with
    | true =>
      rw [serializeResponse_of_isError herror, serializeResponse_of_isError
        ((isError_append_feed s).trans herror)] at heq
      have hlength := congrArg List.length heq
      simp [error] at hlength
    | false =>
      -- without the line feed the text is sent as a string that is shorter than the text with it
      obtain ⟨str, hstr, hshort⟩ : ∃ str, serializeResponse s = bulkString str ∧
          str.length ≤ s.length := by
        cases hquoted : isQuoted s with
        | true =>
          refine ⟨_, serializeResponse_of_isQuoted hquoted, ?_⟩
          rw [length_unquote]
          omega
        | false => exact ⟨s, serializeResponse_of_other hfixed herror hquoted hkind, le_rfl⟩
      by_cases harray : isArray (s ++ [LF]) = true
      · rw [serializeResponse_of_isArray harray, hstr] at heq
        have hhead := congrArg List.head? heq
        simp [array, bulkString, ascii] at hhead
      · have hother : ¬ TakesFeed (s ++ [LF]) := by
          rintro (hint | harr | hpush)
          · rw [integerOf_append_feed] at hint
            exact hkind (Or.inl hint)
          · exact harray harr
          · rw [isPush_append_feed] at hpush
            exact hkind (Or.inr (Or.inr hpush))
        rw [serializeResponse_of_other (append_feed_notMem_fixedTexts s)
          ((isError_append_feed s).trans herror) (isQuoted_append_feed s) hother, hstr] at heq
        have hlength := congrArg List.length (bulkString_injective heq)
        rw [List.length_append, List.length_singleton] at hlength
        omega
  · rintro (hint | harray | hpush)
    · obtain ⟨val, hval⟩ := Option.isSome_iff_exists.mp hint
      rw [serializeResponse_of_integerOf hval,
        serializeResponse_of_integerOf ((integerOf_append_feed s).trans hval)]
    · have hne : s ≠ [] := by
        rintro rfl
        cases harray
      have hfeed : isArray (s ++ [LF]) = true := by
        rcases s with _ | ⟨a, _ | ⟨b, s⟩⟩
        · cases harray
        · simp [isArray] at harray
        · simp only [isArray, Bool.and_eq_true, decide_eq_true_eq] at harray ⊢
          refine ⟨⟨?_, harray.1.2⟩, harray.2⟩
          simp
      rw [serializeResponse_of_isArray harray, serializeResponse_of_isArray hfeed,
        getLines_append_feed h hne, getLines_of_notMem h hne, List.map_singleton,
        List.map_singleton, serializeLine_congr fun content hcontent =>
          serialize_fuel (by simpa using hcontent.le) hcontent]
    · have hne : s ≠ [] := by
        rintro rfl
        cases hpush
      rw [serializeResponse_of_isPush hpush,
        serializeResponse_of_isPush ((isPush_append_feed s).trans hpush),
        getLines_append_feed h hne]

end Resp

/-! ### Lines -/

/-- A line that is not the last one. -/
theorem lines_cons_cons (line next : Bytes) (later : List Bytes) :
    lines (line :: next :: later) = line ++ LF :: lines (next :: later) := rfl

/-- Lines but the last are followed by a line feed. -/
theorem lines_concat (front : List Bytes) (last : Bytes) :
    lines (front ++ [last]) = front.flatMap (fun line => line ++ [LF]) ++ last := by
  induction front with
  | nil => rfl
  | cons line front ih =>
    rw [List.cons_append, List.flatMap_cons, List.append_assoc, ← ih]
    rcases hrest : front ++ [last] with _ | ⟨next, later⟩
    · simp at hrest
    · rw [lines_cons_cons, List.append_assoc]
      rfl

/-- Lines are read back up to the last one. -/
theorem getLines_lines {front : List Bytes} (h : ∀ line ∈ front, LF ∉ line) (last : Bytes) :
    getLines (lines (front ++ [last])) = front ++ getLines last := by
  rw [lines_concat]
  induction front with
  | nil => rfl
  | cons line front ih =>
    rw [List.flatMap_cons, List.append_assoc, List.append_assoc, List.singleton_append,
      getLines_append (h line List.mem_cons_self), ih fun l hl => h l (List.mem_cons_of_mem _ hl)]
    rfl

/-- The number of lines that are read back. -/
theorem length_getLines_lines (front : List Bytes) {last : Bytes} (hlast : last ≠ []) :
    (getLines (lines (front ++ [last]))).length =
      front.flatten.count LF + last.dropLast.count LF + (front ++ [last]).length := by
  have hfront : (front.flatMap fun line => line ++ [LF]).count LF =
      front.flatten.count LF + front.length := by
    induction front with
    | nil => rfl
    | cons line front ih =>
      rw [List.flatMap_cons, List.flatten_cons, List.count_append, List.count_append,
        List.count_append, ih, List.length_cons, List.count_singleton_self]
      omega
  have hne : lines (front ++ [last]) ≠ [] := by
    rw [lines_concat]
    simp [hlast]
  rw [length_getLines hne, lines_concat, List.dropLast_append_of_ne_nil hlast, List.count_append,
    hfront, List.length_append, List.length_singleton]
  omega

/-- No line is longer than all of them together. -/
theorem length_le_lines {line : Bytes} {ls : List Bytes} (h : line ∈ ls) :
    line.length ≤ (lines ls).length := by
  induction ls with
  | nil => cases h
  | cons l ls ih =>
    rcases ls with _ | ⟨next, later⟩
    · rw [List.mem_singleton.mp h]
      rfl
    · rw [lines_cons_cons, List.length_append, List.length_cons]
      rcases List.mem_cons.mp h with rfl | hlater
      · omega
      · have hle := ih hlater
        omega

/-! ### Numbered lines -/

/-- An item with its number. -/
def numbered (n : ℕ) (item : Bytes) : Bytes := decimal n ++ ascii ") " ++ item

theorem numbered_ne_nil (n : ℕ) (item : Bytes) : numbered n item ≠ [] := by
  simp [numbered, decimal_ne_nil]

/-- There are as many line feeds in a numbered item as in the item. -/
theorem mem_numbered {n : ℕ} {item : Bytes} : LF ∈ numbered n item ↔ LF ∈ item := by
  have hnumber : LF ∉ decimal n := notMem_decimal (by decide)
  have hparen : LF ∉ ascii ") " := by decide
  simp [numbered, hnumber, hparen]

/-- The number of the last item. -/
theorem numberItems_concat (front : List Bytes) (last : Bytes) :
    numberItems (front ++ [last]) = numberItems front ++ [numbered (front.length + 1) last] := by
  simp [numberItems, numbered, List.zipIdx_append]

/-- There is one line for each item. -/
@[simp] theorem length_numberItems (items : List Bytes) :
    (numberItems items).length = items.length := by
  simp [numberItems]

/-- The lines are the items with their numbers. -/
theorem mem_numberItems {items : List Bytes} {line : Bytes} (h : line ∈ numberItems items) :
    ∃ n, ∃ item ∈ items, line = numbered n item := by
  obtain ⟨⟨item, i⟩, hmem, rfl⟩ := List.mem_map.mp h
  exact ⟨i + 1, item, List.fst_mem_of_mem_zipIdx hmem, rfl⟩

/-- Every item has a line. -/
theorem exists_mem_numberItems {items : List Bytes} {item : Bytes} (h : item ∈ items) :
    ∃ n, numbered n item ∈ numberItems items := by
  obtain ⟨front, later, rfl⟩ := List.append_of_mem h
  refine ⟨front.length + 1, ?_⟩
  simp [numberItems, numbered, List.zipIdx_append, List.zipIdx_cons]

/-- The text is longer than each of the items. -/
theorem length_lt_lines {items : List Bytes} {item : Bytes} (h : item ∈ items) :
    item.length < (lines (numberItems items)).length := by
  obtain ⟨n, hmem⟩ := exists_mem_numberItems h
  have hle := length_le_lines hmem
  rw [numbered, List.length_append, List.length_append] at hle
  have hparen : (ascii ") ").length = 2 := rfl
  omega

/-- The text behind the number. -/
theorem afterParen_numbered (n : ℕ) (item : Bytes) : afterParen (numbered n item) = some item := by
  have hfront : ∀ front : Bytes, (41 : UInt8) ∉ front →
      afterParen (front ++ (41 :: 32 :: item)) = some item := by
    intro front hfront
    induction front with
    | nil => rfl
    | cons c front ih =>
      rw [List.mem_cons, not_or] at hfront
      rw [List.cons_append, afterParen, if_neg fun h => hfront.1 h.1.symm, ih hfront.2]
  have hparen : numbered n item = decimal n ++ (41 :: 32 :: item) := by
    rw [numbered, List.append_assoc]
    rfl
  rw [hparen]
  exact hfront _ (notMem_decimal (by decide))

/-- A numbered item is sent as the item alone. -/
theorem serializeLine_numbered {fuel : ℕ} (n : ℕ) {item : Bytes} (hfuel : item.length < fuel) :
    serializeLine fuel (numbered n item) = serializeResponse item := by
  rw [serializeLine, afterParen_numbered]
  simp only
  split
  · rename_i hquoted
    exact (serializeResponse_of_isQuoted hquoted).symm
  · exact serialize_fuel hfuel (Nat.lt_succ_self _)

/-- All of them. -/
theorem map_serializeLine_numberItems {fuel : ℕ} {items : List Bytes}
    (hfuel : ∀ item ∈ items, item.length < fuel) :
    (numberItems items).map (serializeLine fuel) = items.map serializeResponse := by
  have hitems : items.map serializeResponse =
      items.zipIdx.map fun item => serializeResponse item.1 := by
    conv_lhs => rw [← List.zipIdx_map_fst 0 items]
    rw [List.map_map]
    rfl
  rw [hitems, numberItems, List.map_map]
  refine List.map_congr_left fun item hitem => ?_
  exact serializeLine_numbered _ (hfuel _ (List.fst_mem_of_mem_zipIdx hitem))

/-- Numbered lines are sent as an array. -/
theorem serializeResponse_numbered {items : List Bytes} (hitems : items ≠ []) :
    serializeResponse (lines (numberItems items)) =
      array ((getLines (lines (numberItems items))).map
        (serializeLine (lines (numberItems items)).length)) := by
  refine serializeResponse_of_isArray ?_
  obtain ⟨item, items, rfl⟩ := List.exists_cons_of_ne_nil hitems
  have hone : decimal 1 = [49] := by decide
  rcases items with _ | ⟨next, items⟩
  · simp [numberItems, lines, hone, isArray, ascii]
  · simp [numberItems, lines, hone, isArray, ascii, List.zipIdx_cons]

/-- Items without line feeds are read back, the last one also if a line feed follows. -/
theorem getLines_numbered {front : List Bytes} (hfront : ∀ item ∈ front, LF ∉ item) {last s : Bytes}
    (hs : LF ∉ s) (hlast : last = s ∨ last = s ++ [LF]) :
    getLines (lines (numberItems (front ++ [last]))) = numberItems (front ++ [s]) := by
  have hlines : ∀ line ∈ numberItems front, LF ∉ line := by
    intro line hline
    obtain ⟨n, item, hitem, rfl⟩ := mem_numberItems hline
    exact fun hmem => hfront item hitem (mem_numbered.mp hmem)
  have hnumbered : LF ∉ numbered (front.length + 1) s := fun hmem => hs (mem_numbered.mp hmem)
  have hone : getLines (numbered (front.length + 1) s) = [numbered (front.length + 1) s] :=
    getLines_of_notMem hnumbered (numbered_ne_nil _ _)
  rw [numberItems_concat, getLines_lines hlines, numberItems_concat]
  rcases hlast with rfl | rfl
  · rw [hone]
  · have hfeed : numbered (front.length + 1) (s ++ [LF]) =
        numbered (front.length + 1) s ++ [LF] := by
      simp [numbered]
    rw [hfeed, getLines_append_feed hnumbered (numbered_ne_nil _ _), hone]

/-- What is sent for such items. -/
theorem serializeResponse_numbered_of_notMem {front : List Bytes}
    (hfront : ∀ item ∈ front, LF ∉ item) {last s : Bytes} (hs : LF ∉ s)
    (hlast : last = s ∨ last = s ++ [LF]) :
    serializeResponse (lines (numberItems (front ++ [last]))) =
      array (front.map serializeResponse ++ [serializeResponse s]) := by
  have hshort : s.length ≤ last.length := by
    rcases hlast with rfl | rfl <;> simp
  have hfuel : ∀ item ∈ front ++ [s],
      item.length < (lines (numberItems (front ++ [last]))).length := by
    intro item hitem
    rcases List.mem_append.mp hitem with hmem | hmem
    · exact length_lt_lines (List.mem_append_left _ hmem)
    · rw [List.mem_singleton.mp hmem]
      exact hshort.trans_lt (length_lt_lines (by simp))
  rw [serializeResponse_numbered (by simp), getLines_numbered hfront hs hlast,
    map_serializeLine_numberItems hfuel, List.map_append, List.map_singleton]

/-- The items of a numbered text that are sent as they would be sent alone: there is no line feed in
them, except for one at the end of the last item that makes no difference there. -/
def Separable (front : List Bytes) (last : Bytes) : Prop :=
  (∀ item ∈ front, LF ∉ item) ∧
    (LF ∉ last ∨ ∃ s, last = s ++ [LF] ∧ LF ∉ s ∧ TakesFeed s)

/-- A numbered text is sent as the array of its items exactly if these are separable. -/
theorem serializeResponse_numbered_iff (front : List Bytes) (last : Bytes) :
    serializeResponse (lines (numberItems (front ++ [last]))) =
      array ((front ++ [last]).map serializeResponse) ↔ Separable front last := by
  rw [List.map_append, List.map_singleton]
  constructor
  · intro h
    -- every line feed inside of the text would add an element
    have hcount : (numberItems front).flatten.count LF = 0 ∧
        (numbered (front.length + 1) last).dropLast.count LF = 0 := by
      rw [serializeResponse_numbered (by simp)] at h
      have hlength := (array_inj h).1
      rw [List.length_map, numberItems_concat,
        length_getLines_lines _ (numbered_ne_nil _ _)] at hlength
      simp at hlength
      exact hlength
    rw [List.count_eq_zero, List.count_eq_zero] at hcount
    have hfront : ∀ item ∈ front, LF ∉ item := by
      intro item hitem hmem
      obtain ⟨n, hline⟩ := exists_mem_numberItems hitem
      exact hcount.1 (List.mem_flatten.mpr ⟨_, hline, mem_numbered.mpr hmem⟩)
    refine ⟨hfront, ?_⟩
    rcases List.eq_nil_or_concat last with rfl | ⟨s, c, rfl⟩
    · exact Or.inl List.not_mem_nil
    · have hs : LF ∉ s := by
        intro hmem
        refine hcount.2 ?_
        rw [List.concat_eq_append, numbered, ← List.append_assoc, List.dropLast_concat]
        exact List.mem_append_right _ hmem
      rw [List.concat_eq_append] at h ⊢
      by_cases hc : c = LF
      · subst hc
        rw [serializeResponse_numbered_of_notMem hfront hs (Or.inr rfl)] at h
        have hflat := (array_inj h).2
        rw [List.flatten_append, List.flatten_append, List.append_cancel_left_eq] at hflat
        have heq : serializeResponse (s ++ [LF]) = serializeResponse s := by simpa using hflat.symm
        exact Or.inr ⟨s, rfl, hs, (serializeResponse_append_feed_iff hs).mp heq⟩
      · refine Or.inl ?_
        simp [hs, Ne.symm hc]
  · rintro ⟨hfront, hlast | ⟨s, rfl, hs, hfeed⟩⟩
    · exact serializeResponse_numbered_of_notMem hfront hlast (Or.inl rfl)
    · rw [serializeResponse_numbered_of_notMem hfront hs (Or.inr rfl),
        (serializeResponse_append_feed_iff hs).mpr hfeed]

/-! ### Strings and lists of strings -/

/-- The last byte of a string in quotation marks. -/
theorem getLast?_quoted (s : Bytes) : (quoted s).getLast? = some 34 := by
  rw [quoted, List.getLast?_append]
  rfl

/-- A string in quotation marks is sent as the string. -/
theorem serializeResponse_quoted (s : Bytes) : serializeResponse (quoted s) = bulkString s := by
  have hunquote : unquote (quoted s) = s := by
    simp [unquote, quoted, ascii]
  rw [serializeResponse_of_isQuoted, hunquote]
  rw [isQuoted, getLast?_quoted]
  simp [quoted, ascii]

/-- What is sent for a list of strings is the array of the strings exactly if there is no line feed
in them. -/
theorem serializeResponse_listText_iff (items : List Bytes) :
    serializeResponse (listText items) = array (items.map bulkString) ↔
      ∀ item ∈ items, LF ∉ item := by
  have hquote : LF ∉ ascii "\"" := by decide
  have hquoted (item : Bytes) : LF ∈ quoted item ↔ LF ∈ item := by simp [quoted, hquote]
  rcases List.eq_nil_or_concat items with rfl | ⟨front, last, rfl⟩
  · refine iff_of_true (by decide) fun item hitem => absurd hitem List.not_mem_nil
  · have htext : listText (front ++ [last]) =
        lines (numberItems (front.map quoted ++ [quoted last])) := by
      simp [listText]
    have hstrings : (front ++ [last]).map bulkString =
        (front.map quoted ++ [quoted last]).map serializeResponse := by
      simp only [List.map_append, List.map_map, List.map_singleton, serializeResponse_quoted,
        Function.comp_def]
    rw [List.concat_eq_append, htext, hstrings, serializeResponse_numbered_iff, Separable]
    have hlast : (LF ∉ quoted last ∨ ∃ s, quoted last = s ++ [LF] ∧ LF ∉ s ∧ TakesFeed s) ↔
        LF ∉ last := by
      rw [hquoted, or_iff_left]
      rintro ⟨s, hs, -⟩
      -- the text ends in a quotation mark
      have hend := congrArg List.getLast? hs
      rw [getLast?_quoted, List.getLast?_concat] at hend
      exact absurd hend (by decide)
    rw [hlast]
    simp only [List.forall_mem_map, hquoted, List.forall_mem_append, List.forall_mem_singleton]

end MyRedis
