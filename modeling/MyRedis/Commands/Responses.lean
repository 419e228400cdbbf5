import MyRedis.Commands.Handlers

/-!
# The texts of responses

Where the text of a response can come from.  Most responses are made up by a handler: a result,
which is recognised by its first byte, or an error that repeats nothing of the command
(`Ordinary`).  The exceptions are the echo of `PING`, the two errors that repeat a name, and the
confirmations of `SUBSCRIBE` and `UNSUBSCRIBE`.  `CommandHandler.answers_executeSingle` says that
there are no others.  `noteAnswer` is what the texts tell about a transaction.
-/

namespace MyRedis

open Foundation Resp

/-- The texts that are made up by the handlers. -/
inductive Ordinary (r : Bytes) : Prop
  /-- A result: a quoted text, a text in parentheses, the title of a section, the first number of a
  list, `OK` or `PONG`. -/
  | result (h : r.head? ∈ [some 34, some 40, some 35, some 49, some 79, some 80])
  /-- An error that contains nothing of the command. -/
  | error (h : r.head? ∈ [some 69, some 87]) (hcr : CR ∉ r)

/-! ### Texts -/

/-- Numbered lines begin with the number of the first. -/
theorem head?_lines_numberItems (item : Bytes) (items : List Bytes) :
    (lines (numberItems (item :: items))).head? = some 49 := by
  have hone : decimal 1 = [49] := by decide
  cases items with
  | nil => simp [numberItems, lines, hone]
  | cons item' items => simp [numberItems, lines, hone, List.zipIdx_cons]

theorem ordinary_ok : Ordinary (ascii "OK") := .result (by decide)

theorem ordinary_pong : Ordinary (ascii "PONG") := .result (by decide)

theorem ordinary_emptyList : Ordinary (ascii "(empty list)") := .result (by decide)

theorem ordinary_notInteger : Ordinary notInteger := by
  refine .error (by simp [head?_notInteger]) ?_
  rw [notInteger, ascii_ofList]
  decide

theorem ordinary_quoted (s : Bytes) : Ordinary (quoted s) := .result (by simp [quoted, ascii])

theorem ordinary_integerText (n : ℤ) : Ordinary (integerText n) :=
  .result (by simp [integerText, ascii])

theorem ordinary_boolText (r : DbResult) : Ordinary (CommandHandler.boolText r) :=
  .result (by simp [CommandHandler.boolText, ascii])

theorem ordinary_optionalText (s : Option Bytes) : Ordinary (optionalText s) := by
  cases s with
  | none => exact .result (by decide)
  | some s => exact ordinary_quoted s

theorem ordinary_lengthText (n : Int32) : Ordinary (lengthText n) := by
  unfold lengthText
  split
  · refine .error (by simp [head?_wrongtypeErr]) ?_
    rw [wrongtypeErr, ascii_ofList]
    decide
  · exact ordinary_integerText _

theorem ordinary_listText (items : List Bytes) : Ordinary (listText items) := by
  unfold listText
  split
  · exact ordinary_emptyList
  · cases items with
    | nil => contradiction
    | cons item items =>
      refine .result ?_
      rw [List.map_cons, head?_lines_numberItems]
      decide

theorem ordinary_wrongArguments {name : String} (h : CR ∉ ascii name) :
    Ordinary (wrongArguments name) := by
  refine .error (by simp [head?_wrongArguments]) ?_
  simp only [wrongArguments, List.mem_append, not_or]
  exact ⟨⟨by decide, h⟩, by decide⟩

theorem ordinary_invalidExpire {name : String} (h : CR ∉ ascii name) :
    Ordinary (invalidExpire name) := by
  refine .error (by simp [head?_invalidExpire]) ?_
  simp only [invalidExpire, List.mem_append, not_or]
  exact ⟨⟨by decide, h⟩, by decide⟩

/-- An ordinary text does not pretend that a command was queued. -/
theorem Ordinary.ne_queued {r : Bytes} (h : Ordinary r) : r ≠ ascii "QUEUED" := by
  rintro rfl
  cases h with
  | result h | error h => revert h; decide

/-- Neither do confirmations. -/
theorem confirmations_ne_queued {kind : String} (hkind : (ascii kind).head?.any (· ≠ 81))
    (results : List (Bytes × Int32)) : confirmations kind results ≠ ascii "QUEUED" := by
  intro heq
  have hhead := congrArg List.head? heq
  unfold confirmations at hhead
  cases hk : ascii kind with
  | nil =>
    rw [hk] at hkind
    cases hkind
  | cons c cs =>
    rw [hk] at hkind hhead
    have hc : c ≠ 81 := by simpa using hkind
    cases results with
    | nil => cases hhead
    | cons r rs =>
      have hfirst : (lines ((r :: rs).map fun r =>
          c :: cs ++ ascii " " ++ r.1 ++ ascii " " ++ decimalInt r.2.toInt)).head? = some c := by
        cases rs <;> simp [lines]
      rw [hfirst] at hhead
      exact hc (by simpa [ascii] using hhead)

/-! ### Single commands -/

namespace CommandHandler

/-- The answer to a subcommand of `CONFIG` that is not known. -/
def unknownSubcommand (name : Bytes) : Bytes :=
  ascii "ERR Unknown subcommand '" ++ name ++ ascii "'"

theorem head?_unknownCommand (name : Bytes) : (unknownCommand name).head? = some 69 := by
  rw [unknownCommand, ascii_ofList]
  rfl

theorem head?_unknownSubcommand (name : Bytes) : (unknownSubcommand name).head? = some 69 := by
  rw [unknownSubcommand, ascii_ofList]
  rfl

/-- A name that is not known is answered with an error that repeats it. -/
theorem executeSingle_of_notMem (h : CommandHandler) {cmd : Command}
    (hname : cmd.name ∉ commandNames)
    (w : World) : h.executeSingle cmd w = (unknownCommand cmd.name, w) := by
  simp only [commandNames, List.mem_cons, List.not_mem_nil, or_false, not_or] at hname
  simp only [executeSingle, hname, if_false, unknownCommand]

/-- Where the answer to a single command comes from. -/
inductive Answers (cmd : Command) : Bytes → Prop
  | ordinary {r : Bytes} (hname : cmd.name ∈ commandNames) (h : Ordinary r) : Answers cmd r
  | echo {message : Bytes} (hname : cmd.name = ascii "PING") (hargs : message ∈ cmd.args.head?) :
      Answers cmd message
  | subcommand {name : Bytes} (hname : cmd.name = ascii "CONFIG") (hargs : name ∈ cmd.args.head?)
      (hunknown : name.map toUpper ∉ [ascii "GET", ascii "SET"]) :
      Answers cmd (unknownSubcommand (name.map toUpper))
  | confirmation {r : Bytes} (hname : cmd.name = ascii "SUBSCRIBE" ∨ cmd.name = ascii "UNSUBSCRIBE")
      (h : r ≠ ascii "QUEUED") : Answers cmd r
  | unknown (hname : cmd.name ∉ commandNames) : Answers cmd (unknownCommand cmd.name)

section Ordinary

variable (cmd : Command) (w : World)

theorem ordinary_handleSet : Ordinary (handleSet cmd w).1 := by
  unfold handleSet
  split
  · unfold handleSetOption
    split
    · split_ifs
      · split
        · exact ordinary_notInteger
        · split_ifs
          · exact ordinary_invalidExpire (by decide)
          · exact ordinary_ok
      · exact ordinary_ok
    · exact ordinary_ok
  · exact ordinary_wrongArguments (by decide)

theorem ordinary_handleKey {name : String} (hname : CR ∉ ascii name) (op : Bytes → DbOp)
    {text : DbResult → Bytes} (htext : ∀ r, Ordinary (text r)) :
    Ordinary (handleKey name op text cmd w).1 := by
  unfold handleKey
  split
  · exact htext _
  · exact ordinary_wrongArguments hname

theorem ordinary_handleKeyList {name : String} (hname : CR ∉ ascii name) (op : List Bytes → DbOp) :
    Ordinary (handleKeyList name op cmd w).1 := by
  unfold handleKeyList
  split
  · exact ordinary_wrongArguments hname
  · exact ordinary_integerText _

theorem ordinary_handleExpire : Ordinary (handleExpire cmd w).1 := by
  unfold handleExpire
  split
  · split
    · exact ordinary_notInteger
    · split_ifs
      · exact ordinary_invalidExpire (by decide)
      · exact ordinary_boolText _
  · exact ordinary_wrongArguments (by decide)

theorem ordinary_handleSave : Ordinary (handleSave cmd w).1 := by
  unfold handleSave
  simp only
  split
  · exact ordinary_ok
  · exact .error (by decide) (by decide)

theorem ordinary_handlePush {name : String} (hname : CR ∉ ascii name)
    (op : Bytes → List Bytes → DbOp) : Ordinary (handlePush name op cmd w).1 := by
  unfold handlePush
  split
  · exact ordinary_lengthText _
  · exact ordinary_wrongArguments hname

theorem ordinary_handleLrange : Ordinary (handleLrange cmd w).1 := by
  unfold handleLrange
  split
  · split
    · exact ordinary_listText _
    · exact ordinary_notInteger
  · exact ordinary_wrongArguments (by decide)

theorem ordinary_handleLindex : Ordinary (handleLindex cmd w).1 := by
  unfold handleLindex
  split
  · split
    · exact ordinary_notInteger
    · exact ordinary_optionalText _
  · exact ordinary_wrongArguments (by decide)

theorem ordinary_handlePublish : Ordinary (handlePublish cmd w).1 := by
  unfold handlePublish
  split
  · exact ordinary_integerText _
  · exact ordinary_wrongArguments (by decide)

theorem ordinary_handleInfo (h : CommandHandler) : Ordinary (h.handleInfo cmd w).1 := by
  unfold handleInfo
  simp only
  split <;> exact .result (by simp [reply, ascii])

end Ordinary

variable {cmd : Command} {w : World}

theorem answers_handlePing (hname : cmd.name = ascii "PING") :
    Answers cmd (handlePing cmd w).1 := by
  unfold handlePing
  split
  · refine .ordinary ?_ ordinary_pong
    rw [hname]
    decide
  · rename_i hargs
    exact .echo hname (by rw [hargs]; rfl)

theorem answers_handleConfig (hname : cmd.name = ascii "CONFIG") :
    Answers cmd (handleConfig cmd w).1 := by
  have hknown : cmd.name ∈ commandNames := by
    rw [hname]
    decide
  unfold handleConfig configText
  split
  · exact .ordinary hknown (ordinary_wrongArguments (by decide))
  · rename_i subcmd rest hargs
    split_ifs with hget hset
    · split
      · split
        · exact .ordinary hknown (.result (by simp [ascii]))
        · exact .ordinary hknown ordinary_emptyList
      · exact .ordinary hknown (ordinary_wrongArguments (by decide))
    · split
      · exact .ordinary hknown ordinary_ok
      · exact .ordinary hknown (ordinary_wrongArguments (by decide))
    · exact .subcommand hname (by rw [hargs]; rfl) (by simp [hget, hset])

/-- The answer of `CONFIG` to a subcommand that is not known. -/
theorem handleConfig_of_unknown {sub : Bytes} (hsub : sub ∈ cmd.args.head?)
    (hunknown : sub.map toUpper ∉ [ascii "GET", ascii "SET"]) :
    (handleConfig cmd w).1 = unknownSubcommand (sub.map toUpper) := by
  obtain ⟨rest, hargs⟩ := List.head?_eq_some_iff.mp hsub
  simp only [List.mem_cons, List.not_mem_nil, or_false, not_or] at hunknown
  simp only [handleConfig, hargs, configText, hunknown.1, hunknown.2, if_false, unknownSubcommand]

theorem answers_handleSubscribe (h : CommandHandler) (hname : cmd.name = ascii "SUBSCRIBE") :
    Answers cmd (h.handleSubscribe cmd w).1 := by
  unfold handleSubscribe
  split
  · exact .confirmation (Or.inl hname) (ordinary_wrongArguments (by decide)).ne_queued
  · exact .confirmation (Or.inl hname) (confirmations_ne_queued (by decide) _)

/-- The answer to a name that is known, if it is ordinary. -/
theorem Answers.of_name {name r : Bytes} (hname : cmd.name = name) (hmem : name ∈ commandNames)
    (hr : Ordinary r) : Answers cmd r :=
  .ordinary (hname ▸ hmem) hr

/-- Every answer to a single command is of one of these kinds. -/
theorem answers_executeSingle (h : CommandHandler) (cmd : Command) (w : World) :
    Answers cmd (h.executeSingle cmd w).1 := by
  have hdispatch := h.dispatches cmd
  generalize h.executeSingle cmd = run at hdispatch ⊢
  cases hdispatch with
  | ping hname => exact answers_handlePing hname
  | set hname => exact .of_name hname (by decide) (ordinary_handleSet _ _)
  | get hname | lpop hname | rpop hname =>
    exact .of_name hname (by decide)
      (ordinary_handleKey _ _ (by decide) _ fun _ => ordinary_optionalText _)
  | del hname | existing hname =>
    exact .of_name hname (by decide) (ordinary_handleKeyList _ _ (by decide) _)
  | keys hname => exact .of_name hname (by decide) (ordinary_listText _)
  | dbsize hname => exact .of_name hname (by decide) (ordinary_integerText _)
  | flushdb hname => exact .of_name hname (by decide) ordinary_ok
  | expire hname => exact .of_name hname (by decide) (ordinary_handleExpire _ _)
  | ttl hname =>
    exact .of_name hname (by decide)
      (ordinary_handleKey _ _ (by decide) _ fun _ => ordinary_integerText _)
  | persist hname =>
    exact .of_name hname (by decide)
      (ordinary_handleKey _ _ (by decide) _ fun _ => ordinary_boolText _)
  | save hname => exact .of_name hname (by decide) (ordinary_handleSave _ _)
  | lpush hname | rpush hname =>
    exact .of_name hname (by decide) (ordinary_handlePush _ _ (by decide) _)
  | lrange hname => exact .of_name hname (by decide) (ordinary_handleLrange _ _)
  | llen hname =>
    exact .of_name hname (by decide)
      (ordinary_handleKey _ _ (by decide) _ fun _ => ordinary_lengthText _)
  | lindex hname => exact .of_name hname (by decide) (ordinary_handleLindex _ _)
  | subscribe hname => exact answers_handleSubscribe h hname
  | unsubscribe hname =>
    exact .confirmation (Or.inr hname) (confirmations_ne_queued (by decide) _)
  | publish hname => exact .of_name hname (by decide) (ordinary_handlePublish _ _)
  | config hname => exact answers_handleConfig hname
  | info hname => exact .of_name hname (by decide) (ordinary_handleInfo _ _ h)
  | unknown hname => exact .unknown hname

end CommandHandler

/-! ### What an observer notes -/

/-- What an observer of a client notes of a command and its answer: after a `MULTI` that was
answered `OK`, the commands that were answered `QUEUED`; nothing after the next `EXEC` or
`DISCARD`. -/
def noteAnswer (noted : Option (List Command)) (cmd : Command) (answer : Bytes) :
    Option (List Command) :=
  if cmd.name = ascii "EXEC" ∨ cmd.name = ascii "DISCARD" then none
  else if cmd.name = ascii "MULTI" then
    if answer = ascii "OK" then some (noted.getD []) else noted
  else if answer = ascii "QUEUED" then noted.map (· ++ [cmd])
  else noted

end MyRedis
