import MyRedis.Resp.Framing
import MyRedis.Resp.Inline

/-!
# Where an inline command ends

An inline command should end at the first newline, with or without a carriage return in front of it.
`parse_inline` looks for a `\r\n` anywhere in the buffer first, and only if there is none for a
`\n`.  A line that ends with a bare `\n` is therefore not found if a `\r\n` follows later in the
buffer: all that stands in front of it is taken as one line.

`endsAtNewline_iff` says for which buffers the command ends at the first newline nevertheless.
-/

namespace MyRedis.Resp

open Foundation

/-! ### The first line of a buffer -/

/-- The bytes up to the first newline, and the newline. -/
def firstLine (buffer : Bytes) : Bytes := buffer.take (buffer.idxOf LF + 1)

/-- The number of bytes that a verdict takes, unless it gives the connection up. -/
def RespParseResult.consumed : RespParseResult → Option ℕ
  | ok _ n | needMore n => some n
  | protocolError => none

/-- The verdict is the one on the first line, and the first line is what is consumed. -/
structure EndsAtNewline (buffer : Bytes) : Prop where
  /-- The bytes behind the first newline do not count. -/
  verdict : parseCommand buffer = parseCommand (firstLine buffer)
  /-- They are left in the buffer. -/
  consumed : ∀ n, (parseCommand buffer).consumed = some n → n = (firstLine buffer).length

/-- The first line. -/
theorem firstLine_eq {body : Bytes} (hbody : LF ∉ body) (rest : Bytes) :
    firstLine (body ++ LF :: rest) = body ++ [LF] := by
  have hsplit : body ++ LF :: rest = (body ++ [LF]) ++ rest := by simp
  rw [firstLine, List.idxOf_append_of_notMem hbody, List.idxOf_cons_self, Nat.add_zero, hsplit]
  exact List.take_left' (by simp)

/-- A buffer has one first line. -/
theorem first_newline_unique {body body' rest rest' : Bytes} (hbody : LF ∉ body)
    (hbody' : LF ∉ body') (h : body ++ LF :: rest = body' ++ LF :: rest') :
    body = body' ∧ rest = rest' := by
  have hlines := firstLine_eq hbody rest
  rw [h, firstLine_eq hbody'] at hlines
  obtain rfl := List.append_cancel_right hlines
  exact ⟨rfl, (List.cons.inj (List.append_cancel_left h)).2⟩

/-! ### Lines -/

/-- The verdict on a line takes the line, or gives the connection up. -/
theorem consumed_parseLine {line : Bytes} {consume n : ℕ}
    (h : (parseLine line consume).consumed = some n) : n = consume := by
  unfold parseLine at h
  split at h
  · exact (Option.some.inj h).symm
  split at h
  · cases h
  · exact (Option.some.inj h).symm

/-- A line without a command consists of white space. -/
theorem isSpace_of_parse_eq_none {line : Bytes} (h : Parser.parse line = none) {c : UInt8}
    (hc : c ∈ line) : isSpace c = true := by
  by_contra hspace
  obtain ⟨cmd, hcmd⟩ := exists_parse_of_nonblank ⟨c, hc, Bool.eq_false_iff.mpr hspace⟩
  rw [h] at hcmd
  cases hcmd

/-- There is no command in white space. -/
theorem parse_eq_none_of_isSpace {line : Bytes} (h : ∀ c ∈ line, isSpace c = true) :
    Parser.parse line = none := by
  have hskip : line.dropWhile isSpace = [] := List.dropWhile_eq_nil_iff.mpr h
  unfold Parser.parse Parser.tokenize
  rcases line.length with _ | fuel
  · rfl
  · rw [Parser.tokenizeLoop, hskip]
    rfl

/-- The bytes that `parse_inline` skips in front of a line. -/
def isTrimmed (c : UInt8) : Bool := c = 32 || c = 9 || c = CR

/-- What is skipped is white space. -/
theorem isSpace_of_isTrimmed {c : UInt8} (h : isTrimmed c = true) : isSpace c = true := by
  simp only [isTrimmed, Bool.or_eq_true, decide_eq_true_eq] at h
  rcases h with (rfl | rfl) | rfl <;> rfl

/-- A line with nothing but what is skipped. -/
theorem parseLine_of_nil {line : Bytes} (h : line.dropWhile isTrimmed = []) (consume : ℕ) :
    parseLine line consume = .needMore consume := by
  unfold isTrimmed at h
  simp only [parseLine, h]

/-- A line with more than that is read as a command. -/
theorem parseLine_of_cons {line s : Bytes} {c : UInt8} (h : line.dropWhile isTrimmed = c :: s)
    (consume : ℕ) : parseLine line consume =
      (Parser.parse (c :: s)).elim .protocolError fun cmd => .ok cmd consume := by
  unfold isTrimmed at h
  simp only [parseLine, h]
  rcases Parser.parse (c :: s) with _ | cmd <;> rfl

/-- A line is refused if it consists of white space, but not only of such as is skipped. -/
theorem parseLine_eq_protocolError_iff {line : Bytes} {consume : ℕ} :
    parseLine line consume = .protocolError ↔
      (∀ c ∈ line, isSpace c = true) ∧ ∃ c ∈ line, isTrimmed c = false := by
  have hsplit : line.takeWhile isTrimmed ++ line.dropWhile isTrimmed = line :=
    List.takeWhile_append_dropWhile
  rcases hrest : line.dropWhile isTrimmed with _ | ⟨c, s⟩
  · rw [parseLine_of_nil hrest]
    constructor
    · intro h
      cases h
    · rintro ⟨-, c, hc, htrimmed⟩
      exact absurd (mem_dropWhile hc htrimmed) (by simp [hrest])
  have hmem : c ∈ line := by
    rw [← hsplit, hrest]
    simp
  have hfirst : isTrimmed c = false := by
    have hhead := List.head_dropWhile_not isTrimmed (l := line) (by simp [hrest])
    simpa only [hrest, List.head_cons] using hhead
  rw [parseLine_of_cons hrest]
  constructor
  · intro h
    have hnone : Parser.parse (c :: s) = none := by
      rcases hparse : Parser.parse (c :: s) with _ | cmd
      · rfl
      · rw [hparse] at h
        cases h
    refine ⟨fun d hd => ?_, c, hmem, hfirst⟩
    rw [← hsplit, List.mem_append, hrest] at hd
    rcases hd with hd | hd
    · exact isSpace_of_isTrimmed (List.mem_takeWhile_imp hd)
    · exact isSpace_of_parse_eq_none hnone hd
  · rintro ⟨hspace, -⟩
    have hnone : Parser.parse (c :: s) = none := by
      refine parse_eq_none_of_isSpace fun d hd => hspace d ?_
      rw [← hsplit, hrest]
      exact List.mem_append_right _ hd
    rw [hnone]
    rfl

/-! ### The line that is found -/

/-- Without `\r\n` none is found. -/
theorem crlfOffset_of_not_infix {x : Bytes} (hx : ¬ CRLF <:+: x) : crlfOffset x = none := by
  induction x with
  | nil => rfl
  | cons c x ih =>
    rw [List.infix_cons_iff, not_or] at hx
    have hc : ¬ (c = CR ∧ x.head? = some LF) := by
      rintro ⟨rfl, hhead⟩
      obtain ⟨s, rfl⟩ := List.head?_eq_some_iff.mp hhead
      exact hx.1 ⟨s, rfl⟩
    rw [crlfOffset, if_neg hc, ih hx.2]
    rfl

/-- There is one first `\r\n`. -/
theorem first_crlf_unique {x x' y y' : Bytes} (hx : ¬ CRLF <:+: x) (hx' : ¬ CRLF <:+: x')
    (h : x ++ (CRLF ++ y) = x' ++ (CRLF ++ y')) : x = x' := by
  have hlength := crlfOffset_line hx y
  rw [h, crlfOffset_line hx'] at hlength
  exact (List.append_inj h (Option.some.inj hlength).symm).1

/-- The buffer up to the first `\r\n` is the line. -/
theorem parseInline_crlf {x : Bytes} (hx : ¬ CRLF <:+: x) (y : Bytes) :
    parseInline (x ++ (CRLF ++ y)) = parseLine x (x.length + 2) := by
  have hfind : findCrlf (x ++ (CRLF ++ y)) 0 = some x.length := by
    rw [findCrlf, List.drop_zero, crlfOffset_line hx, Option.map_some, Nat.zero_add]
  rw [parseInline, hfind]
  simp only [List.take_left]

/-- Without a `\r\n` the buffer up to the first newline is the line. -/
theorem parseInline_newline {body rest : Bytes} (hbody : LF ∉ body)
    (hnone : ¬ CRLF <:+: body ++ LF :: rest) :
    parseInline (body ++ LF :: rest) = parseLine body (body.length + 1) := by
  have hfind : findCrlf (body ++ LF :: rest) 0 = none := by
    rw [findCrlf, List.drop_zero, crlfOffset_of_not_infix hnone, Option.map_none]
  have hidx : (body ++ LF :: rest).idxOf LF = body.length := by
    rw [List.idxOf_append_of_notMem hbody, List.idxOf_cons_self, Nat.add_zero]
  rw [parseInline, hfind]
  simp only [hidx, List.take_left, List.mem_append, List.mem_cons, true_or, or_true, if_true]

/-! ### The first newline -/

/-- The buffers whose first line is found.

The first newline belongs to a `\r\n`; or there is no `\r\n` in the buffer; or there is one, but
what stands in front of it is white space with a vertical tabulator or a form feed in the first
line, so that both lines are refused. -/
def NewlineFound (buffer : Bytes) : Prop :=
  (∃ line rest, buffer = line ++ (CRLF ++ rest) ∧ LF ∉ line) ∨
  ¬ CRLF <:+: buffer ∨
  ∃ x y, buffer = x ++ (CRLF ++ y) ∧ ¬ CRLF <:+: x ∧ (∀ c ∈ x, isSpace c = true) ∧
    ∃ c ∈ firstLine buffer, c = 11 ∨ c = 12

/-- White space that is neither skipped nor a newline. -/
theorem eq_tab_or_feed {c : UInt8} (hspace : isSpace c = true) (htrimmed : isTrimmed c = false)
    (hfeed : c ≠ LF) : c = 11 ∨ c = 12 := by
  simp only [isSpace, Bool.or_eq_true, beq_iff_eq, Bool.and_eq_true, decide_eq_true_eq,
    UInt8.le_iff_toNat_le, ← UInt8.toNat_inj] at hspace
  simp only [isTrimmed, Bool.or_eq_false_iff, decide_eq_false_iff_not, CR,
    ← UInt8.toNat_inj] at htrimmed
  simp only [LF, ne_eq, ← UInt8.toNat_inj] at hfeed
  simp only [← UInt8.toNat_inj]
  simp at hspace htrimmed hfeed ⊢
  omega

/-- A vertical tabulator or a form feed is not skipped. -/
theorem isTrimmed_of_tab_or_feed {c : UInt8} (h : c = 11 ∨ c = 12) : isTrimmed c = false := by
  rcases h with rfl | rfl <;> rfl

/-- A buffer that does not start with `*` is read as an inline command. -/
theorem parseCommand_eq_parseInline {buffer : Bytes} (hne : buffer ≠ [])
    (hinline : buffer.head? ≠ some 42) : parseCommand buffer = parseInline buffer := by
  obtain ⟨c, s, rfl⟩ := List.exists_cons_of_ne_nil hne
  have hc : c ≠ 42 := fun h => hinline (congrArg some h)
  rw [parseCommand, if_neg hc]

/-- The first line starts as the buffer does. -/
theorem head_firstLine (buffer : Bytes) : (firstLine buffer).head? = buffer.head? := by
  rcases buffer with _ | ⟨c, s⟩ <;> rfl

/-- Bytes up to a newline are no empty buffer. -/
theorem append_newline_ne_nil (body rest : Bytes) : body ++ LF :: rest ≠ [] := by
  simp

/-- A line that ends with `\r\n`. -/
theorem endsAtNewline_crlf {line : Bytes} (hline : LF ∉ line) (rest : Bytes)
    (hinline : (line ++ (CRLF ++ rest)).head? ≠ some 42) :
    EndsAtNewline (line ++ (CRLF ++ rest)) := by
  have hbody : LF ∉ line ++ [CR] := by
    rw [List.mem_append, not_or]
    exact ⟨hline, by decide⟩
  have hfirst : firstLine (line ++ (CRLF ++ rest)) = line ++ (CRLF ++ []) := by
    have hsplit : line ++ (CRLF ++ rest) = (line ++ [CR]) ++ LF :: rest := by simp [CRLF]
    rw [hsplit, firstLine_eq hbody]
    simp [CRLF]
  have hnone : ¬ CRLF <:+: line := fun h => hline (h.subset (by simp [CRLF]))
  have hparse (y : Bytes) (hy : (line ++ (CRLF ++ y)).head? ≠ some 42) :
      parseCommand (line ++ (CRLF ++ y)) = parseLine line (line.length + 2) := by
    rw [parseCommand_eq_parseInline (by simp [CRLF]) hy, parseInline_crlf hnone]
  have hfront := head_firstLine (line ++ (CRLF ++ rest))
  rw [hfirst] at hfront
  constructor
  · rw [hfirst, hparse rest hinline, hparse [] (hfront ▸ hinline)]
  · intro n hn
    rw [hparse rest hinline] at hn
    rw [consumed_parseLine hn, hfirst]
    simp [CRLF]

/-- Without a carriage return at its end, the first line has no `\r\n`. -/
theorem not_infix_newline {body : Bytes} (hbody : LF ∉ body) (hbare : body.getLast? ≠ some CR) :
    ¬ CRLF <:+: body ++ [LF] := by
  intro h
  rcases List.infix_concat_iff.mp h with hsuffix | hinner
  · obtain ⟨z, hz⟩ := hsuffix
    have hsplit : z ++ CRLF = (z ++ [CR]) ++ [LF] := by simp [CRLF]
    rw [hsplit] at hz
    obtain ⟨rfl, -⟩ := List.append_inj' hz rfl
    exact hbare List.getLast?_concat
  · exact hbody (hinner.subset (by simp [CRLF]))

/-- A line that ends with a bare newline, in a buffer without `\r\n`. -/
theorem endsAtNewline_bare {body rest : Bytes} (hbody : LF ∉ body)
    (hnone : ¬ CRLF <:+: body ++ LF :: rest) (hinline : (body ++ LF :: rest).head? ≠ some 42) :
    EndsAtNewline (body ++ LF :: rest) := by
  have hfirst := firstLine_eq hbody rest
  have hfront := head_firstLine (body ++ LF :: rest)
  have hnone' : ¬ CRLF <:+: body ++ [LF] := by
    intro h
    refine hnone (h.trans ⟨[], rest, ?_⟩)
    simp
  rw [hfirst] at hfront
  have hparse := parseCommand_eq_parseInline (append_newline_ne_nil body rest) hinline
  rw [parseInline_newline hbody hnone] at hparse
  have hparse' := parseCommand_eq_parseInline (append_newline_ne_nil body []) (hfront ▸ hinline)
  rw [parseInline_newline hbody hnone'] at hparse'
  constructor
  · rw [hfirst, hparse, hparse']
  · intro n hn
    rw [hparse] at hn
    rw [consumed_parseLine hn, hfirst, List.length_append, List.length_singleton]

/-- The first line lies in front of a later `\r\n`. -/
theorem firstLine_isPrefix {body rest x y : Bytes} (hnone : ¬ CRLF <:+: body ++ [LF])
    (hsplit : body ++ LF :: rest = x ++ (CRLF ++ y)) : body ++ [LF] <+: x := by
  have hfront : body ++ [LF] <+: x ++ (CRLF ++ y) := ⟨rest, by rw [← hsplit]; simp⟩
  have hback : x ++ CRLF <+: x ++ (CRLF ++ y) := ⟨y, by rw [List.append_assoc]⟩
  have hcrlf : x ++ CRLF = (x ++ [CR]) ++ [LF] := by simp [CRLF]
  rcases List.prefix_or_prefix_of_prefix hfront hback with h | h
  · rw [hcrlf] at h
    rcases List.prefix_concat_iff.mp h with heq | h
    · exact absurd ⟨x, [], by rw [List.append_nil, heq, hcrlf]⟩ hnone
    rcases List.prefix_concat_iff.mp h with heq | h
    · exact absurd (List.append_inj' heq rfl).2 (by decide)
    · exact h
  · exact absurd ((List.suffix_append x CRLF).isInfix.trans h.isInfix) hnone

/-- A `\r\n` that is not found at the end of the first line lies behind it. -/
theorem infix_rest {body rest : Bytes} (hbody : LF ∉ body) (hbare : body.getLast? ≠ some CR)
    (h : CRLF <:+: body ++ LF :: rest) : CRLF <:+: rest := by
  obtain ⟨x, y, hsplit, -⟩ := exists_first_crlf h
  obtain ⟨z, rfl⟩ := firstLine_isPrefix (not_infix_newline hbody hbare) hsplit
  have hrest : rest = z ++ (CRLF ++ y) := by simpa using hsplit
  exact ⟨z, y, by rw [hrest, List.append_assoc]⟩

/-- A line that ends with a bare newline, in a buffer with a later `\r\n`. -/
theorem endsAtNewline_mixed_iff {body rest x y : Bytes} (hbody : LF ∉ body)
    (hnone : ¬ CRLF <:+: body ++ [LF]) (hx : ¬ CRLF <:+: x)
    (hsplit : body ++ LF :: rest = x ++ (CRLF ++ y))
    (hinline : (body ++ LF :: rest).head? ≠ some 42) :
    EndsAtNewline (body ++ LF :: rest) ↔
      (∀ c ∈ x, isSpace c = true) ∧ ∃ c ∈ body, c = 11 ∨ c = 12 := by
  have hfirst := firstLine_eq hbody rest
  have hfront := head_firstLine (body ++ LF :: rest)
  have hlines := firstLine_isPrefix hnone hsplit
  have hsub {c : UInt8} (hc : c ∈ body) : c ∈ x := hlines.subset (List.mem_append_left _ hc)
  rw [hfirst] at hfront
  have hparse := parseCommand_eq_parseInline (append_newline_ne_nil body rest) hinline
  rw [hsplit, parseInline_crlf hx, ← hsplit] at hparse
  have hparse' := parseCommand_eq_parseInline (append_newline_ne_nil body []) (hfront ▸ hinline)
  rw [parseInline_newline hbody hnone] at hparse'
  constructor
  · -- the longer line cannot be consumed, so both lines are refused
    intro h
    have hlong {n : ℕ} (hn : (parseLine x (x.length + 2)).consumed = some n) : False := by
      have hconsumed := h.consumed n (by rw [hparse]; exact hn)
      have hlength := hlines.length_le
      rw [consumed_parseLine hn, hfirst] at hconsumed
      omega
    have hrefused : parseLine x (x.length + 2) = .protocolError := by
      rcases hline : parseLine x (x.length + 2) with ⟨cmd, n⟩ | n | _
      · exact (hlong (n := n) (by rw [hline]; rfl)).elim
      · exact (hlong (n := n) (by rw [hline]; rfl)).elim
      · rfl
    have hverdict := h.verdict
    rw [hfirst, hparse, hparse', hrefused] at hverdict
    obtain ⟨hspace, -⟩ := parseLine_eq_protocolError_iff.mp hrefused
    obtain ⟨-, c, hc, htrimmed⟩ := parseLine_eq_protocolError_iff.mp hverdict.symm
    have hfeed : c ≠ LF := fun heq => hbody (heq ▸ hc)
    exact ⟨hspace, c, hc, eq_tab_or_feed (hspace c (hsub hc)) htrimmed hfeed⟩
  · rintro ⟨hspace, c, hc, htab⟩
    have htrimmed := isTrimmed_of_tab_or_feed htab
    have hrefused : parseLine x (x.length + 2) = .protocolError :=
      parseLine_eq_protocolError_iff.mpr ⟨hspace, c, hsub hc, htrimmed⟩
    have hrefused' : parseLine body (body.length + 1) = .protocolError :=
      parseLine_eq_protocolError_iff.mpr ⟨fun d hd => hspace d (hsub hd), c, hc, htrimmed⟩
    constructor
    · rw [hfirst, hparse, hparse', hrefused, hrefused']
    · intro n hn
      rw [hparse, hrefused] at hn
      cases hn

/-- **Where an inline command ends.** -/
theorem endsAtNewline_iff {buffer : Bytes} (hinline : buffer.head? ≠ some 42)
    (hline : LF ∈ buffer) : EndsAtNewline buffer ↔ NewlineFound buffer := by
  obtain ⟨body, rest, rfl, hbody⟩ := List.eq_append_cons_of_mem hline
  by_cases hbare : body.getLast? = some CR
  · obtain ⟨line, rfl⟩ := List.getLast?_eq_some_iff.mp hbare
    have hsplit : line ++ [CR] ++ LF :: rest = line ++ (CRLF ++ rest) := by simp [CRLF]
    have hline' : LF ∉ line := fun h => hbody (List.mem_append_left _ h)
    rw [hsplit] at hinline ⊢
    exact iff_of_true (endsAtNewline_crlf hline' rest hinline) (Or.inl ⟨line, rest, rfl, hline'⟩)
  have hnone := not_infix_newline hbody hbare
  by_cases hcrlf : CRLF <:+: body ++ LF :: rest
  · obtain ⟨x, y, hsplit, hx⟩ := exists_first_crlf hcrlf
    rw [endsAtNewline_mixed_iff hbody hnone hx hsplit hinline]
    constructor
    · rintro ⟨hspace, c, hc, htab⟩
      refine Or.inr (Or.inr ⟨x, y, hsplit, hx, hspace, c, ?_, htab⟩)
      rw [firstLine_eq hbody]
      exact List.mem_append_left _ hc
    · rintro (⟨line, rest', heq, hline'⟩ | hno | ⟨x', y', heq, hx', hspace, c, hc, htab⟩)
      · have hbody' : LF ∉ line ++ [CR] := by
          rw [List.mem_append, not_or]
          exact ⟨hline', by decide⟩
        have hsplit' : line ++ (CRLF ++ rest') = (line ++ [CR]) ++ LF :: rest' := by simp [CRLF]
        obtain ⟨rfl, -⟩ := first_newline_unique hbody hbody' (heq.trans hsplit')
        exact absurd List.getLast?_concat hbare
      · exact absurd hcrlf hno
      · obtain rfl : x = x' := first_crlf_unique hx hx' (hsplit.symm.trans heq)
        rw [firstLine_eq hbody, List.mem_append, List.mem_singleton] at hc
        refine ⟨hspace, c, hc.resolve_right ?_, htab⟩
        rintro rfl
        exact absurd htab (by decide)
  · exact iff_of_true (endsAtNewline_bare hbody hcrlf hinline) (Or.inr (Or.inl hcrlf))

end MyRedis.Resp
