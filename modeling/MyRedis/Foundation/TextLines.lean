import Mathlib.Data.List.DropRight
import MyRedis.Foundation.ByteString

/-!
# Texts that are read line by line

`getLines` is what repeated calls of `std::getline` read from a stream: the pieces between line
feeds, and what stands behind the last line feed if that is not empty.  `getLines_eq_iff` says which
texts have given lines, so that statements about the lines of a text are statements about the text.

The white space around the words of a line is taken off at both ends; the lemmas on `dropWhile` and
`rdropWhile` at the end say when nothing else is.
-/

namespace Foundation

/-- The lines that a loop over `std::getline` reads. -/
def getLines : Bytes → List Bytes
  | [] => []
  | c :: s =>
    if c = LF then [] :: getLines s
    else
      match getLines s with
      | [] => [[c]]
      | line :: lines => (c :: line) :: lines

/-- The text in which every line is ended by a line feed. -/
def unlines (lines : List Bytes) : Bytes :=
  lines.flatMap fun line => line ++ [LF]

/-- The text has these lines; the last one need not be ended if it is not empty. -/
def HasLines (text : Bytes) (lines : List Bytes) : Prop :=
  (∀ line ∈ lines, LF ∉ line) ∧
    (text = unlines lines ∨
      ∃ front last, lines = front ++ [last] ∧ last ≠ [] ∧ text = unlines front ++ last)

/-! ### Reading lines -/

/-- A line that is ended is read up to its end. -/
theorem getLines_append {line : Bytes} (hline : LF ∉ line) (rest : Bytes) :
    getLines (line ++ LF :: rest) = line :: getLines rest := by
  induction line with
  | nil => simp [getLines]
  | cons c line ih =>
    rw [List.mem_cons, not_or] at hline
    rw [List.cons_append, getLines, if_neg (Ne.symm hline.1), ih hline.2]

/-- A last line that is not ended is read to the end of the text. -/
theorem getLines_of_notMem {line : Bytes} (hline : LF ∉ line) (hne : line ≠ []) :
    getLines line = [line] := by
  induction line with
  | nil => exact absurd rfl hne
  | cons c line ih =>
    rw [List.mem_cons, not_or] at hline
    rw [getLines, if_neg (Ne.symm hline.1)]
    rcases line with _ | ⟨c', line⟩
    · rfl
    · rw [ih hline.2 (List.cons_ne_nil _ _)]

/-- Lines that are ended are read one by one. -/
theorem getLines_unlines_append {lines : List Bytes} (hlines : ∀ line ∈ lines, LF ∉ line)
    (rest : Bytes) : getLines (unlines lines ++ rest) = lines ++ getLines rest := by
  induction lines with
  | nil => rfl
  | cons line lines ih =>
    have htext : unlines (line :: lines) ++ rest = line ++ LF :: (unlines lines ++ rest) := by
      simp [unlines]
    rw [htext, getLines_append (hlines line List.mem_cons_self),
      ih fun l hl => hlines l (List.mem_cons_of_mem _ hl), List.cons_append]

/-- The text has the lines that are read from it. -/
theorem hasLines_getLines (text : Bytes) : HasLines text (getLines text) := by
  induction text with
  | nil => exact ⟨by simp [getLines], Or.inl rfl⟩
  | cons c s ih =>
    obtain ⟨hlines, htext⟩ := ih
    rw [getLines]
    split_ifs with hc
    · refine ⟨?_, ?_⟩
      · intro line hline
        rcases List.mem_cons.mp hline with rfl | hline
        · exact List.not_mem_nil
        · exact hlines line hline
      · rcases htext with htext | ⟨front, last, hsplit, hne, htext⟩
        · exact Or.inl (congrArg₂ List.cons hc htext)
        · exact Or.inr ⟨[] :: front, last, congrArg (List.cons []) hsplit, hne,
            congrArg₂ List.cons hc htext⟩
    · cases hs : getLines s with
      | nil =>
        rw [hs] at htext
        have hnil : s = [] := by
          rcases htext with htext | ⟨front, last, hsplit, -, -⟩
          · exact htext
          · simp at hsplit
        refine ⟨by simpa using Ne.symm hc, Or.inr ⟨[], [c], rfl, List.cons_ne_nil _ _, ?_⟩⟩
        rw [hnil]
        rfl
      | cons line lines =>
        rw [hs] at hlines htext
        refine ⟨?_, ?_⟩
        · intro l hl
          rcases List.mem_cons.mp hl with rfl | hl
          · rw [List.mem_cons, not_or]
            exact ⟨Ne.symm hc, hlines line List.mem_cons_self⟩
          · exact hlines l (List.mem_cons_of_mem _ hl)
        · rcases htext with htext | ⟨front, last, hsplit, hne, htext⟩
          · left
            rw [htext]
            rfl
          · right
            rcases front with _ | ⟨first, front⟩
            · obtain ⟨rfl, rfl⟩ := List.cons.inj hsplit
              exact ⟨[], c :: line, rfl, List.cons_ne_nil _ _, by rw [htext]; rfl⟩
            · obtain ⟨rfl, rfl⟩ := List.cons.inj hsplit
              exact ⟨(c :: line) :: front, last, rfl, hne, by rw [htext]; rfl⟩

/-- **The texts with given lines.** -/
theorem getLines_eq_iff {text : Bytes} {lines : List Bytes} :
    getLines text = lines ↔ HasLines text lines := by
  constructor
  · rintro rfl
    exact hasLines_getLines text
  · rintro ⟨hlines, rfl | ⟨front, last, rfl, hne, rfl⟩⟩
    · have h := getLines_unlines_append hlines []
      rwa [List.append_nil, getLines, List.append_nil] at h
    · rw [getLines_unlines_append fun line hline => hlines line (List.mem_append_left _ hline),
        getLines_of_notMem (hlines last (by simp)) hne]

/-- No line holds a line feed. -/
theorem notMem_of_mem_getLines {text line : Bytes} (h : line ∈ getLines text) : LF ∉ line :=
  (hasLines_getLines text).1 line h

/-- A line is not longer than the text. -/
theorem length_le_of_mem_getLines {s line : Bytes} (h : line ∈ getLines s) :
    line.length ≤ s.length := by
  induction s generalizing line with
  | nil => cases h
  | cons c s ih =>
    rw [getLines] at h
    rw [List.length_cons]
    by_cases hc : c = LF
    · rw [if_pos hc] at h
      rcases List.mem_cons.mp h with rfl | h
      · exact Nat.zero_le _
      · exact (ih h).trans (Nat.le_succ _)
    · rw [if_neg hc] at h
      cases hs : getLines s with
      | nil =>
        rw [hs] at h
        obtain rfl := List.mem_singleton.mp h
        exact Nat.succ_le_succ (Nat.zero_le _)
      | cons l ls =>
        rw [hs] at h ih
        rcases List.mem_cons.mp h with rfl | h
        · exact Nat.succ_le_succ (ih List.mem_cons_self)
        · exact (ih (List.mem_cons_of_mem _ h)).trans (Nat.le_succ _)

/-- Every text but the empty one has a line. -/
theorem getLines_eq_nil_iff {s : Bytes} : getLines s = [] ↔ s = [] := by
  cases s with
  | nil => simp [getLines]
  | cons c s =>
    rw [getLines]
    split
    · simp
    · split <;> simp

/-- What stands in front of a line feed is read on its own. -/
theorem getLines_append_cons (text rest : Bytes) :
    getLines (text ++ LF :: rest) = getLines (text ++ [LF]) ++ getLines rest := by
  induction text with
  | nil => simp [getLines]
  | cons c text ih =>
    rw [List.cons_append, List.cons_append, getLines, getLines]
    split_ifs
    · rw [ih, List.cons_append]
    · cases hfirst : getLines (text ++ [LF]) with
      | nil => simp [getLines_eq_nil_iff] at hfirst
      | cons line lines =>
        rw [ih, hfirst]
        rfl

/-- Bytes in front of a text belong to its first line. -/
theorem getLines_append_of_notMem {front : Bytes} (hfront : LF ∉ front) (hne : front ≠ [])
    (text : Bytes) :
    getLines (front ++ text) = (front ++ (getLines text).headD []) :: (getLines text).tail := by
  induction front with
  | nil => exact absurd rfl hne
  | cons c front ih =>
    rw [List.mem_cons, not_or] at hfront
    rw [List.cons_append, getLines, if_neg (Ne.symm hfront.1)]
    by_cases hnil : front = []
    · rw [hnil, List.nil_append]
      cases getLines text <;> rfl
    · rw [ih hfront.2 hnil]
      rfl

/-- Every line feed but one at the end starts another line. -/
theorem length_getLines {s : Bytes} (hs : s ≠ []) :
    (getLines s).length = s.dropLast.count LF + 1 := by
  induction s with
  | nil => exact absurd rfl hs
  | cons c s ih =>
    rw [getLines]
    by_cases hnil : s = []
    · rw [hnil]
      split <;> rfl
    · rw [List.dropLast_cons_of_ne_nil hnil, List.count_cons]
      obtain ⟨line, lines, hcons⟩ :=
        List.exists_cons_of_ne_nil fun h => hnil (getLines_eq_nil_iff.mp h)
      have hlength := ih hnil
      rw [hcons] at hlength ⊢
      by_cases hc : c = LF
      · simp [hc, ← hlength]
      · simp [hc, ← hlength]

/-- There are not more lines than bytes. -/
theorem length_getLines_le (s : Bytes) : (getLines s).length ≤ s.length := by
  by_cases hs : s = []
  · simp [hs, getLines]
  · have hcount : s.dropLast.count LF ≤ s.dropLast.length := List.count_le_length
    have hpos : 0 < s.length := List.length_pos_of_ne_nil hs
    rw [List.length_dropLast] at hcount
    rw [length_getLines hs]
    omega

/-- A text has exactly one line if it is not empty and its only line feed is the last byte. -/
theorem length_getLines_eq_one_iff {s : Bytes} :
    (getLines s).length = 1 ↔ s ≠ [] ∧ LF ∉ s.dropLast := by
  by_cases hs : s = []
  · simp [hs, getLines]
  · rw [length_getLines hs, Nat.add_eq_right, List.count_eq_zero]
    simp [hs]

/-! ### White space at the ends -/

variable {α : Type}

/-- What is dropped in front, and what is left. -/
theorem exists_dropWhile (p : α → Bool) (l : List α) :
    ∃ front, l = front ++ l.dropWhile p ∧ (∀ c ∈ front, p c = true) ∧
      ∀ c ∈ (l.dropWhile p).head?, p c = false := by
  refine ⟨l.takeWhile p, List.takeWhile_append_dropWhile.symm, fun c hc =>
    List.mem_takeWhile_imp hc, fun c hc => ?_⟩
  have hhead := List.head?_dropWhile_not p l
  rw [Option.mem_def.mp hc] at hhead
  exact hhead

/-- Nothing more is dropped in front than what satisfies the predicate. -/
theorem dropWhile_append_of_head {p : α → Bool} {front rest : List α}
    (hfront : ∀ c ∈ front, p c = true) (hrest : ∀ c ∈ rest.head?, p c = false) :
    (front ++ rest).dropWhile p = rest := by
  rw [List.dropWhile_append_of_pos hfront]
  rcases rest with _ | ⟨c, rest⟩
  · rfl
  · exact List.dropWhile_cons_of_neg (by simp [hrest c rfl])

/-- A word is read up to the first byte that does not belong to it. -/
theorem span_append_of_head {p : α → Bool} {word rest : List α}
    (hword : ∀ c ∈ word, p c = true) (hrest : ∀ c ∈ rest.head?, p c = false) :
    (word ++ rest).span p = (word, rest) := by
  rw [List.span_eq_takeWhile_dropWhile, dropWhile_append_of_head hword hrest,
    List.takeWhile_append_of_pos hword]
  rcases rest with _ | ⟨c, rest⟩
  · rw [List.takeWhile_nil, List.append_nil]
  · rw [List.takeWhile_cons_of_neg (by simp [hrest c rfl]), List.append_nil]

/-- Nothing more is dropped at the end than what satisfies the predicate. -/
theorem rdropWhile_append_of_getLast {p : α → Bool} {rest back : List α}
    (hback : ∀ c ∈ back, p c = true) (hrest : ∀ c ∈ rest.getLast?, p c = false) :
    (rest ++ back).rdropWhile p = rest := by
  rw [List.rdropWhile, List.reverse_append, dropWhile_append_of_head (by simpa using hback),
    List.reverse_reverse]
  rw [List.head?_reverse]
  exact hrest

/-- What is dropped at the end, and what is left. -/
theorem exists_rdropWhile (p : α → Bool) (l : List α) :
    ∃ back, l = l.rdropWhile p ++ back ∧ (∀ c ∈ back, p c = true) ∧
      ∀ c ∈ (l.rdropWhile p).getLast?, p c = false := by
  refine ⟨l.rtakeWhile p, List.rdropWhile_append_rtakeWhile.symm,
    fun c hc => List.mem_rtakeWhile_imp hc, fun c hc => ?_⟩
  rw [List.rdropWhile, List.getLast?_reverse] at hc
  have hhead := List.head?_dropWhile_not p l.reverse
  rw [Option.mem_def.mp hc] at hhead
  exact hhead

end Foundation
