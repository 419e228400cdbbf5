import MyRedis.Config.Basic

/-!
# The format of configuration files

Which lines set something, and what.  A line sets a name if it is white space, the name, white
space, the text, and blanks, where the text neither begins with white space nor ends with a blank
(`Assigns`); it is passed over if it is white space only or a comment (`PassedOver`).
`parseLine_eq_some_iff` and `parseLine_eq_none_iff` say that the loop of `load_file` agrees with
this format on every line, and `get_loadFile` that the last line that sets a name decides.

The blanks that are trimmed are four of the six white-space characters.  Hence a `#` behind a
vertical tabulator or a form feed begins a name and not a comment, and these two characters are kept
at the end of a text.
-/

namespace MyRedis.Config

open Foundation Resp

/-! ### The format of a line -/

/-- The line sets the name `key` to the text `value`. -/
def Assigns (line key value : Bytes) : Prop :=
  ∃ indent gap back, line = indent ++ (key ++ (gap ++ (value ++ back))) ∧
    (∀ c ∈ indent, isSpace c = true) ∧ (∀ c ∈ gap, isSpace c = true) ∧
    (∀ c ∈ back, isBlank c = true) ∧
    -- the name is a word, and a `#` at its beginning is not seen behind blanks only
    key ≠ [] ∧ (∀ c ∈ key, isSpace c = false) ∧
    (key.head? = some 35 → ∃ c ∈ indent, isBlank c = false) ∧
    -- the text is set off and trimmed
    (value = [] ∧ back = [] ∨ value ≠ [] ∧ gap ≠ [] ∧
      (∀ c ∈ value.head?, isSpace c = false) ∧ ∀ c ∈ value.getLast?, isBlank c = false)

/-- The line is white space, or its first character behind blanks is a `#`. -/
def PassedOver (line : Bytes) : Prop :=
  (∀ c ∈ line, isSpace c = true) ∨
    ∃ indent comment, line = indent ++ 35 :: comment ∧ ∀ c ∈ indent, isBlank c = true

/-- The blanks are white space. -/
theorem isSpace_of_isBlank {c : UInt8} (h : isBlank c = true) : isSpace c = true := by
  simp only [isBlank, Bool.or_eq_true, beq_iff_eq] at h
  rcases h with ((rfl | rfl) | rfl) | rfl <;> rfl

/-- What is not white space is not a blank. -/
theorem isBlank_eq_false {c : UInt8} (h : isSpace c = false) : isBlank c = false := by
  cases hblank : isBlank c with
  | false => rfl
  | true => rw [isSpace_of_isBlank hblank] at h; cases h

/-! ### From the format to the loop -/

/-- The first word behind white space is read. -/
theorem readToken_append {indent key rest : Bytes} (hindent : ∀ c ∈ indent, isSpace c = true)
    (hne : key ≠ []) (hkey : ∀ c ∈ key, isSpace c = false)
    (hrest : ∀ c ∈ rest.head?, isSpace c = true) :
    readToken (indent ++ (key ++ rest)) = (key, rest) := by
  have hhead : ∀ c ∈ (key ++ rest).head?, isSpace c = false := by
    rcases key with _ | ⟨b, key⟩
    · exact absurd rfl hne
    · intro c hc
      cases hc
      exact hkey b List.mem_cons_self
  rw [readToken, dropWhile_append_of_head hindent hhead]
  exact span_append_of_head (fun c hc => by simp [hkey c hc]) fun c hc => by simp [hrest c hc]

/-- Trimming the blanks in front of a line leaves the rest of the white space. -/
theorem exists_dropWhile_isBlank (indent : Bytes) {rest : Bytes}
    (hrest : ∀ c ∈ rest.head?, isBlank c = false) :
    ∃ front indent', indent = front ++ indent' ∧ (∀ c ∈ front, isBlank c = true) ∧
      (∀ c ∈ indent'.head?, isBlank c = false) ∧
      (indent ++ rest).dropWhile isBlank = indent' ++ rest := by
  obtain ⟨front, hsplit, hfront, hhead⟩ := exists_dropWhile isBlank indent
  generalize indent.dropWhile isBlank = indent' at hsplit hhead
  subst hsplit
  refine ⟨front, indent', rfl, hfront, hhead, ?_⟩
  rw [List.append_assoc]
  refine dropWhile_append_of_head hfront fun c hc => ?_
  rcases indent' with _ | ⟨b, s⟩
  · exact hrest c hc
  · exact hhead c hc

/-- The value behind the name is read. -/
theorem readValue_append {gap value back : Bytes} (hfeed : LF ∉ value ++ back)
    (hgap : ∀ c ∈ gap, isSpace c = true) (hback : ∀ c ∈ back, isBlank c = true)
    (hvalue : value = [] ∧ back = [] ∨ value ≠ [] ∧ gap ≠ [] ∧
      (∀ c ∈ value.head?, isSpace c = false) ∧ ∀ c ∈ value.getLast?, isBlank c = false) :
    readValue (gap ++ (value ++ back)) = value := by
  unfold readValue
  rcases hvalue with ⟨rfl, rfl⟩ | ⟨hne, -, hhead, hlast⟩
  · have hdrop : (gap ++ ([] ++ [])).dropWhile isSpace = [] :=
      dropWhile_append_of_head hgap (by simp)
    simp only [hdrop]
    rfl
  · obtain ⟨b, s, rfl⟩ := List.exists_cons_of_ne_nil hne
    have hdrop : (gap ++ (b :: s ++ back)).dropWhile isSpace = b :: s ++ back :=
      dropWhile_append_of_head hgap fun c hc => hhead c hc
    have htake : (b :: s ++ back).takeWhile (· != LF) = b :: s ++ back :=
      List.takeWhile_eq_self_iff.mpr fun c hc => by
        rw [bne_iff_ne]
        rintro rfl
        exact hfeed hc
    have hall : (b :: s ++ back).all isBlank = false := by
      rw [List.all_eq_false]
      exact ⟨b, by simp, by simp [isBlank_eq_false (hhead b rfl)]⟩
    simp only [hdrop, htake, hall, Bool.false_eq_true, if_false]
    exact rdropWhile_append_of_getLast hback hlast

/-- A line of the format is read as it should be. -/
theorem parseLine_of_assigns {line key value : Bytes} (hfeed : LF ∉ line)
    (h : Assigns line key value) : parseLine line = some (key, value) := by
  obtain ⟨indent, gap, back, rfl, hindent, hgap, hback, hne, hkey, hcomment, hvalue⟩ := h
  obtain ⟨k, key, rfl⟩ := List.exists_cons_of_ne_nil hne
  have hk : isSpace k = false := hkey k List.mem_cons_self
  have hword : ∀ c ∈ (k :: key ++ (gap ++ (value ++ back))).head?, isBlank c = false := by
    intro c hc
    cases hc
    exact isBlank_eq_false hk
  obtain ⟨front, indent', rfl, hfront, hhead, htrim⟩ := exists_dropWhile_isBlank indent hword
  have hrest : ∀ c ∈ (gap ++ (value ++ back)).head?, isSpace c = true := by
    intro c hc
    rcases gap with _ | ⟨b, gap⟩
    · rcases hvalue with ⟨rfl, rfl⟩ | ⟨-, hgap', -⟩
      · cases hc
      · exact absurd rfl hgap'
    · obtain rfl := Option.some.inj hc
      exact hgap b List.mem_cons_self
  have hindent' : ∀ c ∈ indent', isSpace c = true := fun c hc =>
    hindent c (List.mem_append_right _ hc)
  have htoken := readToken_append hindent' hne hkey hrest
  have hnil : indent' ++ (k :: key ++ (gap ++ (value ++ back))) ≠ [] := by simp
  have hhash : (indent' ++ (k :: key ++ (gap ++ (value ++ back)))).head? ≠ some 35 := by
    rcases indent' with _ | ⟨b, indent'⟩
    · intro hk35
      obtain ⟨c, hc, hblank⟩ := hcomment hk35
      rw [List.append_nil] at hc
      rw [hfront c hc] at hblank
      cases hblank
    · intro hb35
      obtain rfl := Option.some.inj hb35
      exact absurd (hindent' 35 List.mem_cons_self) (by decide)
  have hfeed' : LF ∉ value ++ back := fun hmem => hfeed (by simp [List.mem_append.mp hmem])
  have htext := readValue_append hfeed' hgap hback hvalue
  unfold parseLine
  simp only [htrim, hnil, hhash, htoken, htext, List.cons_ne_nil, if_false]

/-! ### From the loop to the format -/

/-- The value that is read is trimmed, and what was cut off is white space. -/
theorem exists_readValue {rest : Bytes} (hfeed : LF ∉ rest)
    (hrest : ∀ c ∈ rest.head?, isSpace c = true) :
    ∃ gap back, rest = gap ++ (readValue rest ++ back) ∧ (∀ c ∈ gap, isSpace c = true) ∧
      (∀ c ∈ back, isBlank c = true) ∧
      (readValue rest = [] ∧ back = [] ∨ readValue rest ≠ [] ∧ gap ≠ [] ∧
        (∀ c ∈ (readValue rest).head?, isSpace c = false) ∧
        ∀ c ∈ (readValue rest).getLast?, isBlank c = false) := by
  unfold readValue
  obtain ⟨gap, hsplit, hgap, hhead⟩ := exists_dropWhile isSpace rest
  have htake : (rest.dropWhile isSpace).takeWhile (· != LF) = rest.dropWhile isSpace :=
    List.takeWhile_eq_self_iff.mpr fun c hc => by
      rw [bne_iff_ne]
      rintro rfl
      exact hfeed (List.dropWhile_subset _ hc)
  simp only [htake]
  generalize rest.dropWhile isSpace = text at hsplit hhead
  subst hsplit
  rcases text with _ | ⟨b, s⟩
  · exact ⟨gap, [], rfl, hgap, by simp, Or.inl ⟨rfl, rfl⟩⟩
  · have hb : isSpace b = false := hhead b rfl
    have hall : (b :: s).all isBlank = false := by
      rw [List.all_eq_false]
      exact ⟨b, by simp, by simp [isBlank_eq_false hb]⟩
    have hgap' : gap ≠ [] := by
      rintro rfl
      exact Bool.false_ne_true (hb.symm.trans (hrest b rfl))
    obtain ⟨back, hback, hblank, hlast⟩ := exists_rdropWhile isBlank (b :: s)
    simp only [hall, Bool.false_eq_true, if_false]
    generalize (b :: s).rdropWhile isBlank = value at hback hlast
    rcases value with _ | ⟨v, value⟩
    · -- the first character is no blank, so not everything was cut off
      have hmem : b ∈ back := by
        rw [List.nil_append] at hback
        exact hback ▸ List.mem_cons_self
      exact absurd (hblank b hmem) (by simp [isBlank_eq_false hb])
    · obtain ⟨rfl, -⟩ := List.cons.inj hback
      refine ⟨gap, back, by rw [hback], hgap, hblank, Or.inr ⟨List.cons_ne_nil _ _, hgap', ?_,
        hlast⟩⟩
      intro c hc
      cases hc
      exact hb

/-- **The lines that set something.** -/
theorem parseLine_eq_some_iff {line key value : Bytes} (hfeed : LF ∉ line) :
    parseLine line = some (key, value) ↔ Assigns line key value := by
  refine ⟨fun h => ?_, parseLine_of_assigns hfeed⟩
  obtain ⟨front, hsplit, hfront, hhead⟩ := exists_dropWhile isBlank line
  unfold parseLine at h
  simp only at h
  generalize line.dropWhile isBlank = trimmed at hsplit hhead h
  subst hsplit
  split_ifs at h with hnil hhash hword
  obtain ⟨indent, hindent, hspace, hstart⟩ := exists_dropWhile isSpace trimmed
  rw [readToken, List.span_eq_takeWhile_dropWhile] at h hword
  simp only at h hword
  generalize trimmed.dropWhile isSpace = words at hindent hstart h hword
  subst hindent
  obtain ⟨hkey, hvalue⟩ := Prod.mk.inj (Option.some.inj h)
  have hwords : words = key ++ words.dropWhile fun c => !isSpace c := by
    rw [← hkey, List.takeWhile_append_dropWhile]
  have hrest : ∀ c ∈ (words.dropWhile fun c => !isSpace c).head?, isSpace c = true := by
    intro c hc
    have hstop := List.head?_dropWhile_not (fun c => !isSpace c) words
    rw [Option.mem_def.mp hc] at hstop
    simpa using hstop
  have hkeyChars : ∀ c ∈ key, isSpace c = false := by
    intro c hc
    rw [← hkey] at hc
    simpa using List.mem_takeWhile_imp hc
  generalize words.dropWhile (fun c => !isSpace c) = rest at hwords hrest hvalue
  subst hwords
  have hfeed' : LF ∉ rest := fun hmem => hfeed (by simp [hmem])
  obtain ⟨gap, back, hgap, hspaces, hback, hcases⟩ := exists_readValue hfeed' hrest
  rw [hvalue] at hgap hcases
  refine ⟨front ++ indent, gap, back, by rw [hgap]; simp, ?_, hspaces, hback, ?_, hkeyChars, ?_,
    hcases⟩
  · intro c hc
    rcases List.mem_append.mp hc with hc | hc
    · exact isSpace_of_isBlank (hfront c hc)
    · exact hspace c hc
  · rw [← hkey]
    exact hword
  · intro h35
    rcases indent with _ | ⟨b, indent⟩
    · refine absurd ?_ hhash
      rcases key with _ | ⟨k, key⟩
      · cases h35
      · exact h35
    · exact ⟨b, by simp, hhead b rfl⟩

/-- No word is read where there is only white space. -/
theorem readToken_eq_nil_iff {s : Bytes} :
    (readToken s).1 = [] ↔ ∀ c ∈ s, isSpace c = true := by
  rw [readToken, List.span_eq_takeWhile_dropWhile, ← List.dropWhile_eq_nil_iff]
  obtain ⟨-, -, -, hhead⟩ := exists_dropWhile isSpace s
  simp only
  generalize s.dropWhile isSpace = words at hhead
  rcases words with _ | ⟨c, words⟩
  · simp
  · rw [List.takeWhile_cons_of_pos (by simp [hhead c rfl])]
    simp

/-- **The lines that are passed over.** -/
theorem parseLine_eq_none_iff {line : Bytes} : parseLine line = none ↔ PassedOver line := by
  obtain ⟨front, hsplit, hfront, hhead⟩ := exists_dropWhile isBlank line
  unfold parseLine
  simp only
  constructor
  · intro h
    generalize line.dropWhile isBlank = trimmed at hsplit hhead h
    subst hsplit
    split_ifs at h with hnil hhash hword
    · left
      rw [hnil, List.append_nil]
      exact fun c hc => isSpace_of_isBlank (hfront c hc)
    · obtain ⟨comment, rfl⟩ := List.head?_eq_some_iff.mp hhash
      exact Or.inr ⟨front, comment, rfl, hfront⟩
    · refine Or.inl fun c hc => ?_
      rcases List.mem_append.mp hc with hc | hc
      · exact isSpace_of_isBlank (hfront c hc)
      · exact readToken_eq_nil_iff.mp hword c hc
  · rintro (hspace | ⟨indent, comment, rfl, hindent⟩)
    · have hword : (readToken (line.dropWhile isBlank)).1 = [] :=
        readToken_eq_nil_iff.mpr fun c hc => hspace c (List.dropWhile_subset _ hc)
      simp [hword]
    · have htrim : (indent ++ 35 :: comment).dropWhile isBlank = 35 :: comment :=
        dropWhile_append_of_head hindent fun c hc => by
          obtain rfl := Option.some.inj hc
          decide
      rw [htrim]
      simp

/-! ### The format of a file -/

/-- The last of the lines that set the name sets it to the text. -/
def LastAssigns (lines : List Bytes) (key value : Bytes) : Prop :=
  ∃ before line later, lines = before ++ line :: later ∧ Assigns line key value ∧
    ∀ l ∈ later, ∀ v, ¬ Assigns l key v

/-- None of the lines sets the name. -/
def NoneAssigns (lines : List Bytes) (key : Bytes) : Prop :=
  ∀ line ∈ lines, ∀ value, ¬ Assigns line key value

/-- A line sets a name, or it does not matter for the name. -/
theorem get_loadLine (c : Config) {line : Bytes} (hfeed : LF ∉ line) (key : Bytes) :
    Assigns line key ((c.loadLine line).get key) ∨
      (∀ value, ¬ Assigns line key value) ∧ (c.loadLine line).get key = c.get key := by
  unfold loadLine
  cases hparse : parseLine line with
  | none =>
    refine Or.inr ⟨fun value hassigns => ?_, rfl⟩
    rw [parseLine_of_assigns hfeed hassigns] at hparse
    cases hparse
  | some p =>
    obtain ⟨key', value'⟩ := p
    have hassigns := (parseLine_eq_some_iff hfeed).mp hparse
    simp only [get_set]
    by_cases hkey : key' = key
    · subst hkey
      rw [if_pos rfl]
      exact Or.inl hassigns
    · rw [if_neg hkey]
      refine Or.inr ⟨fun value hother => hkey ?_, rfl⟩
      rw [parseLine_of_assigns hfeed hother] at hparse
      exact (Prod.mk.inj (Option.some.inj hparse)).1.symm

/-- Some line sets the name last, or none does. -/
theorem get_foldl_loadLine (c : Config) {lines : List Bytes}
    (hlines : ∀ line ∈ lines, LF ∉ line) (key : Bytes) :
    LastAssigns lines key ((lines.foldl loadLine c).get key) ∨
      NoneAssigns lines key ∧ (lines.foldl loadLine c).get key = c.get key := by
  -- the last line decides, or the lines before it do
  induction lines using List.reverseRecOn with
  | nil => exact Or.inr ⟨by simp [NoneAssigns], rfl⟩
  | append_singleton lines line ih =>
    have hfeed : LF ∉ line := hlines line (by simp)
    rw [List.foldl_append, List.foldl_cons, List.foldl_nil]
    rcases get_loadLine (lines.foldl loadLine c) hfeed key with hassigns | ⟨hnone, heq⟩
    · exact Or.inl ⟨lines, line, [], rfl, hassigns, by simp⟩
    · rw [heq]
      rcases ih fun l hl => hlines l (List.mem_append_left _ hl) with
        ⟨before, l, later, hsplit, hassigns, hlater⟩ | ⟨hbefore, hget⟩
      · refine Or.inl ⟨before, l, later ++ [line], by rw [hsplit]; simp, hassigns, ?_⟩
        intro l' hl'
        rcases List.mem_append.mp hl' with hl' | hl'
        · exact hlater l' hl'
        · rw [List.mem_singleton.mp hl']
          exact hnone
      · refine Or.inr ⟨fun l hl => ?_, hget⟩
        rcases List.mem_append.mp hl with hl | hl
        · exact hbefore l hl
        · rw [List.mem_singleton.mp hl]
          exact hnone

/-- What is set last is unique. -/
theorem LastAssigns.unique {lines : List Bytes} (hlines : ∀ line ∈ lines, LF ∉ line)
    {key value value' : Bytes} (h : LastAssigns lines key value)
    (h' : LastAssigns lines key value') : value = value' := by
  obtain ⟨before, line, later, hsplit, hassigns, hlater⟩ := h
  obtain ⟨before', line', later', hsplit', hassigns', hlater'⟩ := h'
  -- neither of the two lines stands behind the other
  have hline : line = line' := by
    rw [hsplit] at hsplit'
    rcases List.append_eq_append_iff.mp hsplit' with ⟨gap, hgap, hrest⟩ | ⟨gap, hgap, hrest⟩
    · rcases gap with _ | ⟨l, gap⟩
      · exact (List.cons.inj hrest).1
      · obtain ⟨rfl, rfl⟩ := List.cons.inj hrest
        exact absurd hassigns' (hlater line' (by simp) value')
    · rcases gap with _ | ⟨l, gap⟩
      · exact (List.cons.inj hrest).1.symm
      · obtain ⟨rfl, rfl⟩ := List.cons.inj hrest
        exact absurd hassigns (hlater' line (by simp) value)
  subst hline
  have hfeed : LF ∉ line := hlines line (by rw [hsplit]; simp)
  have hparse := parseLine_of_assigns hfeed hassigns
  rw [parseLine_of_assigns hfeed hassigns'] at hparse
  exact (Prod.mk.inj (Option.some.inj hparse)).2.symm

/-- The settings after some lines. -/
theorem get_foldl_loadLine_eq_iff (c : Config) {lines : List Bytes}
    (hlines : ∀ line ∈ lines, LF ∉ line) {key value : Bytes} :
    (lines.foldl loadLine c).get key = value ↔
      LastAssigns lines key value ∨ NoneAssigns lines key ∧ c.get key = value := by
  have hcases := get_foldl_loadLine c hlines key
  constructor
  · rintro rfl
    rcases hcases with h | ⟨hnone, heq⟩
    · exact Or.inl h
    · exact Or.inr ⟨hnone, heq.symm⟩
  · rintro (h | ⟨hnone, rfl⟩)
    · rcases hcases with h' | ⟨hnone, -⟩
      · exact h'.unique hlines h
      · obtain ⟨before, line, later, rfl, hassigns, -⟩ := h
        exact absurd hassigns (hnone line (by simp) value)
    · rcases hcases with ⟨before, line, later, rfl, hassigns, -⟩ | ⟨-, heq⟩
      · exact absurd hassigns (hnone line (by simp) _)
      · exact heq

/-- A line is passed over and sets nothing, or it sets exactly one name to one text. -/
theorem unambiguous {line : Bytes} (hfeed : LF ∉ line) :
    PassedOver line ∧ (∀ key value, ¬ Assigns line key value) ∨
      ¬ PassedOver line ∧ ∃! p : Bytes × Bytes, Assigns line p.1 p.2 := by
  rw [← parseLine_eq_none_iff]
  cases hparse : parseLine line with
  | none =>
    refine Or.inl ⟨rfl, fun key value hassigns => ?_⟩
    rw [parseLine_of_assigns hfeed hassigns] at hparse
    cases hparse
  | some p =>
    refine Or.inr ⟨by simp, p, (parseLine_eq_some_iff hfeed).mp hparse, fun p' hassigns => ?_⟩
    rw [parseLine_of_assigns hfeed hassigns] at hparse
    exact Option.some.inj hparse

/-- **Loading a configuration file follows the format.**  Whatever bytes a file consists of, every
line is passed over or sets exactly one name; afterwards a name has the text that the last line
setting it gives, and the text it had before if there is no such line. -/
theorem load_file_follows_format (c : Config) {text : Bytes} {lines : List Bytes}
    (hlines : HasLines text lines) :
    (c.loadFile (some text)).1 = true ∧
      (∀ line ∈ lines, PassedOver line ∧ (∀ key value, ¬ Assigns line key value) ∨
        ¬ PassedOver line ∧ ∃! p : Bytes × Bytes, Assigns line p.1 p.2) ∧
      ∀ key value, (c.loadFile (some text)).2.get key = value ↔
        LastAssigns lines key value ∨ NoneAssigns lines key ∧ c.get key = value := by
  refine ⟨rfl, fun line hline => unambiguous (hlines.1 line hline), fun key value => ?_⟩
  rw [← getLines_eq_iff] at hlines
  subst hlines
  exact get_foldl_loadLine_eq_iff c fun line hline => notMem_of_mem_getLines hline

/-- A file with a comment, an indented line that sets a password with a blank inside, and a last
line without an end. -/
theorem load_file_follows_format_password :
    let lines := [ascii "# secret", ascii "  requirepass my pass \r", ascii "port 7000"]
    HasLines (unlines lines).dropLast lines ∧
      (new.loadFile (some (unlines lines).dropLast)).2.password = ascii "my pass" ∧
      LastAssigns lines (ascii "requirepass") (ascii "my pass") := by
  intro lines
  have hlines : HasLines (unlines lines).dropLast lines :=
    getLines_eq_iff.mp (by decide +kernel)
  have hpassword : (new.loadFile (some (unlines lines).dropLast)).2.get (ascii "requirepass") =
      ascii "my pass" := by decide +kernel
  refine ⟨hlines, hpassword, ?_⟩
  rcases ((load_file_follows_format new hlines).2.2 _ _).mp hpassword with h | ⟨-, hdefault⟩
  · exact h
  · exact absurd hdefault (by decide +kernel)

end MyRedis.Config
