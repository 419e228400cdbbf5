import MyRedis.Commands.NumberedTexts
import MyRedis.Commands.Responses
import MyRedis.Commands.System
import MyRedis.Database.Cell
import MyRedis.PubSub.Calls

/-!
# Replies of transactions

`EXEC` puts the responses of the queued commands together as numbered lines.  A response of several
lines is then taken apart together with the others: the reply has too many elements, and those that
belong to the list or the text in question are torn out of it.

`CommandHandler.mem_executeSingle_iff` says which commands give a response with a line feed, in
terms of the command and of what is stored, and `CommandHandler.serializeResponse_exec_iff` says
exactly when the reply of an `EXEC` is the array of the replies of its commands.
-/

namespace MyRedis

open Foundation Resp

/-! ### Line feeds in texts -/

/-- A list whose text has several lines. -/
def Several (items : List Bytes) : Prop := 2 ≤ items.length ∨ ∃ item ∈ items, LF ∈ item

/-- A line feed in front of the end of a text. -/
theorem mem_dropLast_append {x y : Bytes} (hy : y ≠ []) (h : LF ∈ x ∨ LF ∈ y.dropLast) :
    LF ∈ (x ++ y).dropLast := by
  rw [List.dropLast_append_of_ne_nil hy]
  exact List.mem_append.mpr h

/-- There are line feeds between lines and inside of lines. -/
theorem mem_lines_iff {ls : List Bytes} : LF ∈ lines ls ↔ Several ls := by
  induction ls with
  | nil => simp [lines, Several]
  | cons line ls ih =>
    rcases ls with _ | ⟨next, later⟩
    · simp [lines, Several]
    · rw [lines_cons_cons]
      refine iff_of_true (by simp) (Or.inl (by simp))

/-- If no line ends in a line feed, neither do all lines together. -/
theorem mem_dropLast_lines {ls : List Bytes} (h : Several ls)
    (hlast : ∀ line ∈ ls, line ≠ [] ∧ (LF ∈ line → LF ∈ line.dropLast)) :
    LF ∈ (lines ls).dropLast := by
  rcases List.eq_nil_or_concat ls with rfl | ⟨front, last, rfl⟩
  · rcases h with h | ⟨item, h, -⟩
    · simp at h
    · cases h
  · rw [List.concat_eq_append] at h hlast ⊢
    obtain ⟨hne, hinner⟩ := hlast last (by simp)
    have hmem := mem_lines_iff.mpr h
    rw [lines_concat, List.mem_append] at hmem
    rw [lines_concat]
    exact mem_dropLast_append hne (hmem.imp_right hinner)

theorem notMem_ok : LF ∉ ascii "OK" := by decide

theorem notMem_notInteger : LF ∉ notInteger := by
  rw [notInteger, ascii_ofList]
  decide

theorem notMem_emptyList : LF ∉ ascii "(empty list)" := by decide

theorem notMem_decimalInt (n : ℤ) : LF ∉ decimalInt n := by
  intro hmem
  exact absurd (eq_or_isDigit_of_mem_decimalInt hmem) (by decide)

theorem decimalInt_ne_nil (n : ℤ) : decimalInt n ≠ [] := by
  unfold decimalInt
  split
  · exact List.cons_ne_nil _ _
  · exact decimal_ne_nil _

theorem notMem_integerText (n : ℤ) : LF ∉ integerText n := by
  rw [integerText, List.mem_append, not_or]
  exact ⟨by decide, notMem_decimalInt n⟩

theorem notMem_lengthText (n : Int32) : LF ∉ lengthText n := by
  unfold lengthText
  split
  · rw [wrongtypeErr, ascii_ofList]
    decide
  · exact notMem_integerText _

theorem notMem_boolText (r : DbResult) : LF ∉ CommandHandler.boolText r := by
  unfold CommandHandler.boolText
  split <;> decide

theorem notMem_wrongArguments {name : String} (h : LF ∉ ascii name) : LF ∉ wrongArguments name := by
  simp only [wrongArguments, List.mem_append, not_or]
  exact ⟨⟨by decide, h⟩, by decide⟩

theorem notMem_invalidExpire {name : String} (h : LF ∉ ascii name) : LF ∉ invalidExpire name := by
  simp only [invalidExpire, List.mem_append, not_or]
  exact ⟨⟨by decide, h⟩, by decide⟩

theorem mem_optionalText_iff {o : Option Bytes} :
    LF ∈ optionalText o ↔ ∃ v, o = some v ∧ LF ∈ v := by
  have hquote : LF ∉ ascii "\"" := by decide
  have hnil : LF ∉ ascii "(nil)" := by decide
  rcases o with _ | v
  · simp [optionalText, hnil]
  · simp [optionalText, quoted, hquote]

theorem mem_dropLast_quoted {v : Bytes} (h : LF ∈ v) : LF ∈ (quoted v).dropLast :=
  mem_dropLast_append (by decide) (Or.inl (List.mem_append_right _ h))

/-- The lines of a list of strings. -/
theorem several_numberItems_quoted {items : List Bytes} :
    Several (numberItems (items.map quoted)) ↔ Several items := by
  have hquote : LF ∉ ascii "\"" := by decide
  unfold Several
  rw [length_numberItems, List.length_map]
  refine or_congr_right ⟨?_, ?_⟩
  · rintro ⟨line, hline, hfeed⟩
    obtain ⟨n, item, hitem, rfl⟩ := mem_numberItems hline
    obtain ⟨v, hv, rfl⟩ := List.mem_map.mp hitem
    refine ⟨v, hv, ?_⟩
    simpa [mem_numbered, quoted, hquote] using hfeed
  · rintro ⟨v, hv, hfeed⟩
    obtain ⟨n, hline⟩ := exists_mem_numberItems (List.mem_map_of_mem (f := quoted) hv)
    exact ⟨_, hline, by simp [mem_numbered, quoted, hfeed]⟩

theorem mem_listText_iff {items : List Bytes} : LF ∈ listText items ↔ Several items := by
  unfold listText
  split
  · rename_i hnil
    refine iff_of_false (by decide) ?_
    simp [Several, hnil]
  · rw [mem_lines_iff, several_numberItems_quoted]

theorem mem_dropLast_listText {items : List Bytes} (h : Several items) :
    LF ∈ (listText items).dropLast := by
  have hne : items ≠ [] := by
    rintro rfl
    simp [Several] at h
  rw [listText, if_neg hne]
  refine mem_dropLast_lines (several_numberItems_quoted.mpr h) fun line hline => ?_
  obtain ⟨n, item, hitem, rfl⟩ := mem_numberItems hline
  obtain ⟨v, -, rfl⟩ := List.mem_map.mp hitem
  refine ⟨numbered_ne_nil _ _, fun hfeed => ?_⟩
  have hquote : LF ∉ ascii "\"" := by decide
  have hv : LF ∈ v := by simpa [mem_numbered, quoted, hquote] using hfeed
  exact mem_dropLast_append (by simp [quoted, ascii]) (Or.inr (mem_dropLast_quoted hv))

/-- One confirmation. -/
theorem mem_confirmation_iff {kind : String} (hkind : LF ∉ ascii kind) {channel : Bytes} {n : ℤ} :
    LF ∈ ascii kind ++ ascii " " ++ channel ++ ascii " " ++ decimalInt n ↔ LF ∈ channel := by
  have hspace : LF ∉ ascii " " := by decide
  simp [hkind, hspace, notMem_decimalInt]

/-- The channels of confirmations are in several lines. -/
theorem several_confirmations {kind : String} (hkind : LF ∉ ascii kind)
    {results : List (Bytes × Int32)} :
    Several (results.map fun r =>
      ascii kind ++ ascii " " ++ r.1 ++ ascii " " ++ decimalInt r.2.toInt) ↔
        Several (results.map Prod.fst) := by
  unfold Several
  rw [List.length_map, List.length_map]
  simp only [List.mem_map, exists_exists_and_eq_and, mem_confirmation_iff hkind]

theorem mem_confirmations_iff {kind : String} (hkind : LF ∉ ascii kind)
    {results : List (Bytes × Int32)} :
    LF ∈ confirmations kind results ↔ Several (results.map Prod.fst) := by
  rw [confirmations, mem_lines_iff, several_confirmations hkind]

theorem mem_dropLast_confirmations {kind : String} (hkind : LF ∉ ascii kind)
    {results : List (Bytes × Int32)} (h : Several (results.map Prod.fst)) :
    LF ∈ (confirmations kind results).dropLast := by
  rw [confirmations]
  refine mem_dropLast_lines ((several_confirmations hkind).mpr h) fun line hline => ?_
  obtain ⟨r, -, rfl⟩ := List.mem_map.mp hline
  refine ⟨by simp [decimalInt_ne_nil], fun hfeed => ?_⟩
  refine mem_dropLast_append (decimalInt_ne_nil _) (Or.inl ?_)
  exact (List.mem_append.mp hfeed).resolve_right (notMem_decimalInt _)

/-! ### The channels that are confirmed -/

namespace PubSubManager

/-- `subscribe` confirms the channels that it is given. -/
theorem map_fst_subscribe (p : PubSubManager) (fd : Socket) (channels : List Bytes) :
    (p.subscribe fd channels).1.map Prod.fst = channels := by
  refine List.ext_getElem? fun i => ?_
  rw [List.getElem?_map, getElem?_subscribe, Option.map_map]
  exact Option.map_id'

/-- `unsubscribe` confirms the channels that it goes through. -/
theorem map_fst_unsubscribe {p : PubSubManager} {fd : Socket} {channels : List Bytes}
    (hne : p.toUnsub fd channels ≠ []) :
    (p.unsubscribe fd channels).1.map Prod.fst = p.toUnsub fd channels := by
  refine List.ext_getElem? fun i => ?_
  rw [List.getElem?_map, getElem?_unsubscribe hne, Option.map_map]
  exact Option.map_id'

/-- If there are none, it confirms a `*`. -/
theorem several_unsubscribe (p : PubSubManager) (fd : Socket) (channels : List Bytes) :
    Several ((p.unsubscribe fd channels).1.map Prod.fst) ↔ Several (p.toUnsub fd channels) := by
  by_cases hnil : p.toUnsub fd channels = []
  · have hstar : (p.unsubscribe fd channels).1 = [(ascii "*", 0)] := by
      rw [unsubscribe, if_pos hnil]
    have hfeed : LF ∉ ascii "*" := by decide
    rw [hstar, hnil]
    simp [Several, hfeed]
  · rw [map_fst_unsubscribe hnil]

end PubSubManager

/-! ### Responses with line feeds -/

namespace CommandHandler

/-- The string that a command reads from the database. -/
inductive ReadsString (cmd : Command) (w : World) (v : Bytes) : Prop
  | get {key : Bytes} (hname : cmd.name = ascii "GET") (hargs : cmd.args = [key])
      (hv : ((w.db.cell key).purge w.now).str = some v)
  | lpop {key : Bytes} (hname : cmd.name = ascii "LPOP") (hargs : cmd.args = [key])
      (hv : ((w.db.cell key).purge w.now).list.bind List.head? = some v)
  | rpop {key : Bytes} (hname : cmd.name = ascii "RPOP") (hargs : cmd.args = [key])
      (hv : ((w.db.cell key).purge w.now).list.bind List.getLast? = some v)
  | lindex {key text : Bytes} {index : Int32} (hname : cmd.name = ascii "LINDEX")
      (hargs : cmd.args = [key, text]) (hindex : stoi text = some index)
      (hv : (((w.db.cell key).purge w.now).list.bind fun l => Database.element l index) = some v)

/-- The strings that a command lists: the elements in a range, all keys, the channels that it
confirms, or a parameter of the configuration with its value. -/
inductive ListsStrings (h : CommandHandler) (cmd : Command) (w : World) (items : List Bytes) : Prop
  | lrange {key first last : Bytes} {start stop : Int32} {l : List Bytes}
      (hname : cmd.name = ascii "LRANGE") (hargs : cmd.args = [key, first, last])
      (hstart : stoi first = some start) (hstop : stoi last = some stop)
      (hlist : ((w.db.cell key).purge w.now).list = some l)
      (hitems : items = Database.slice l start stop)
  | keys (hname : cmd.name = ascii "KEYS")
      (hitems : items = (Database.collectBoth (w.clock 0) w.db).1)
  | subscribe (hname : cmd.name = ascii "SUBSCRIBE") (hitems : items = cmd.args)
  | unsubscribe (hname : cmd.name = ascii "UNSUBSCRIBE")
      (hitems : items = w.pubsub.toUnsub h.clientFd cmd.args)
  | config {sub param : Bytes} (hname : cmd.name = ascii "CONFIG") (hargs : cmd.args = [sub, param])
      (hsub : sub.map toUpper = ascii "GET") (hparam : configParams.contains param = true)
      (hitems : items = [param, []])

/-- The commands whose response contains a line feed. -/
inductive MultiLine (h : CommandHandler) (cmd : Command) (w : World) : Prop
  | name (hfeed : LF ∈ cmd.name)
  | info (hname : cmd.name = ascii "INFO")
  | echo {message : Bytes} (hname : cmd.name = ascii "PING") (hargs : message ∈ cmd.args.head?)
      (hfeed : LF ∈ message)
  | string {v : Bytes} (hreads : ReadsString cmd w v) (hfeed : LF ∈ v)
  | list {items : List Bytes} (hlists : h.ListsStrings cmd w items) (hseveral : Several items)
  | subcommand {sub : Bytes} (hname : cmd.name = ascii "CONFIG") (hargs : sub ∈ cmd.args.head?)
      (hfeed : LF ∈ sub)

section

variable (cmd : Command) (w : World)

theorem notMem_handleSet : LF ∉ (handleSet cmd w).1 := by
  unfold handleSet
  split
  · unfold handleSetOption
    split
    · split_ifs
      · split
        · exact notMem_notInteger
        · split_ifs
          · exact notMem_invalidExpire (by decide)
          · exact notMem_ok
      · exact notMem_ok
    · exact notMem_ok
  · exact notMem_wrongArguments (by decide)

theorem notMem_handleKey {name : String} (hname : LF ∉ ascii name) (op : Bytes → DbOp)
    {text : DbResult → Bytes} (htext : ∀ r, LF ∉ text r) :
    LF ∉ (handleKey name op text cmd w).1 := by
  unfold handleKey
  split
  · exact htext _
  · exact notMem_wrongArguments hname

theorem notMem_handleKeyList {name : String} (hname : LF ∉ ascii name) (op : List Bytes → DbOp) :
    LF ∉ (handleKeyList name op cmd w).1 := by
  unfold handleKeyList
  split
  · exact notMem_wrongArguments hname
  · exact notMem_integerText _

theorem notMem_handleExpire : LF ∉ (handleExpire cmd w).1 := by
  unfold handleExpire
  split
  · split
    · exact notMem_notInteger
    · split_ifs
      · exact notMem_invalidExpire (by decide)
      · exact notMem_boolText _
  · exact notMem_wrongArguments (by decide)

theorem notMem_handleSave : LF ∉ (handleSave cmd w).1 := by
  unfold handleSave
  simp only
  split <;> decide

theorem notMem_handlePush {name : String} (hname : LF ∉ ascii name)
    (op : Bytes → List Bytes → DbOp) : LF ∉ (handlePush name op cmd w).1 := by
  unfold handlePush
  split
  · exact notMem_lengthText _
  · exact notMem_wrongArguments hname

theorem notMem_handlePublish : LF ∉ (handlePublish cmd w).1 := by
  unfold handlePublish
  split
  · exact notMem_integerText _
  · exact notMem_wrongArguments (by decide)

end

section Feeds

variable {h : CommandHandler} {cmd : Command} {w : World}

theorem multiLine_handlePing (hname : cmd.name = ascii "PING") (hfeed : LF ∈ (handlePing cmd w).1) :
    h.MultiLine cmd w := by
  have hpong : LF ∉ ascii "PONG" := by decide
  unfold handlePing at hfeed
  split at hfeed
  · exact absurd hfeed hpong
  · rename_i hargs
    exact .echo hname (by rw [hargs]; rfl) hfeed

/-- A command with one key that answers with a string or `(nil)`. -/
theorem multiLine_handleKey {name : String} (hname : LF ∉ ascii name) {op : Bytes → DbOp}
    (hop : ∀ key v, cmd.args = [key] → (w.call (op key)).1.optional = some v → ReadsString cmd w v)
    (hfeed : LF ∈ (handleKey name op (fun r => optionalText r.optional) cmd w).1) :
    h.MultiLine cmd w := by
  unfold handleKey at hfeed
  split at hfeed
  · rename_i key hargs
    obtain ⟨v, hv, hmem⟩ := mem_optionalText_iff.mp hfeed
    exact .string (hop key v hargs hv) hmem
  · exact absurd hfeed (notMem_wrongArguments hname)

theorem multiLine_handleLindex (hname : cmd.name = ascii "LINDEX")
    (hfeed : LF ∈ (handleLindex cmd w).1) : h.MultiLine cmd w := by
  unfold handleLindex at hfeed
  split at hfeed
  · rename_i key text hargs
    split at hfeed
    · exact absurd hfeed notMem_notInteger
    · rename_i index hindex
      obtain ⟨v, hv, hmem⟩ := mem_optionalText_iff.mp hfeed
      have hread := (w.db.lindex_result w.now key index).symm.trans hv
      exact .string (.lindex hname hargs hindex hread) hmem
  · exact absurd hfeed (notMem_wrongArguments (by decide))

theorem multiLine_handleLrange (hname : cmd.name = ascii "LRANGE")
    (hfeed : LF ∈ (handleLrange cmd w).1) : h.MultiLine cmd w := by
  unfold handleLrange at hfeed
  split at hfeed
  · rename_i key first last hargs
    split at hfeed
    · rename_i start stop hstart hstop
      have hseveral := mem_listText_iff.mp hfeed
      have hresult := w.db.lrange_result w.now key start stop
      rcases hlist : ((w.db.cell key).purge w.now).list with _ | l
      · rw [hlist] at hresult
        have hnil : (w.call (.lrange key start stop)).1.toStrings = [] := hresult
        rw [hnil] at hseveral
        simp [Several] at hseveral
      · rw [hlist] at hresult
        exact .list (.lrange hname hargs hstart hstop hlist hresult) hseveral
    · exact absurd hfeed notMem_notInteger
  · exact absurd hfeed (notMem_wrongArguments (by decide))

theorem multiLine_handleSubscribe (hname : cmd.name = ascii "SUBSCRIBE")
    (hfeed : LF ∈ (h.handleSubscribe cmd w).1) : h.MultiLine cmd w := by
  unfold handleSubscribe at hfeed
  split at hfeed
  · exact absurd hfeed (notMem_wrongArguments (by decide))
  · have hseveral := (mem_confirmations_iff (by decide)).mp hfeed
    have hchannels := w.pubsub.map_fst_subscribe h.clientFd cmd.args
    exact .list (.subscribe hname rfl) (hchannels ▸ hseveral)

theorem multiLine_handleUnsubscribe (hname : cmd.name = ascii "UNSUBSCRIBE")
    (hfeed : LF ∈ (h.handleUnsubscribe cmd w).1) : h.MultiLine cmd w := by
  have hseveral := (mem_confirmations_iff (by decide)).mp hfeed
  exact .list (.unsubscribe hname rfl) ((PubSubManager.several_unsubscribe _ _ _).mp hseveral)

/-- Upper-casing neither makes nor removes line feeds. -/
theorem mem_map_toUpper {s : Bytes} : LF ∈ s.map toUpper ↔ LF ∈ s := by
  rw [List.mem_map]
  constructor
  · rintro ⟨c, hc, heq⟩
    rwa [(toUpper_eq_iff (by decide)).mp heq] at hc
  · intro hmem
    exact ⟨LF, hmem, rfl⟩

theorem multiLine_handleConfig (hname : cmd.name = ascii "CONFIG")
    (hfeed : LF ∈ (handleConfig cmd w).1) : h.MultiLine cmd w := by
  unfold handleConfig configText at hfeed
  split at hfeed
  · exact absurd hfeed (notMem_wrongArguments (by decide))
  · rename_i sub rest hargs
    split_ifs at hfeed with hget hset
    · split at hfeed
      · rename_i param
        split at hfeed
        · rename_i hparam
          exact .list (.config hname hargs hget hparam rfl) (Or.inl le_rfl)
        · exact absurd hfeed notMem_emptyList
      · exact absurd hfeed (notMem_wrongArguments (by decide))
    · split at hfeed
      · exact absurd hfeed notMem_ok
      · exact absurd hfeed (notMem_wrongArguments (by decide))
    · refine .subcommand hname (by rw [hargs]; rfl) (mem_map_toUpper.mp ?_)
      have hfront : LF ∉ ascii "ERR Unknown subcommand '" := by decide
      have hback : LF ∉ ascii "'" := by decide
      simpa only [List.mem_append, hfront, hback, false_or, or_false] using hfeed

/-- A line feed in a response comes from one of these commands. -/
theorem multiLine_of_mem (hfeed : LF ∈ (h.executeSingle cmd w).1) : h.MultiLine cmd w := by
  have hdispatch := h.dispatches cmd
  generalize h.executeSingle cmd = run at hdispatch hfeed
  cases hdispatch with
  | ping hname => exact multiLine_handlePing hname hfeed
  | set => exact absurd hfeed (notMem_handleSet _ _)
  | get hname =>
    refine multiLine_handleKey (by decide) (fun key v hargs hv => ?_) hfeed
    exact .get hname hargs ((w.db.get_result w.now key).symm.trans hv)
  | del | existing => exact absurd hfeed (notMem_handleKeyList _ _ (by decide) _)
  | keys hname => exact .list (.keys hname rfl) (mem_listText_iff.mp hfeed)
  | dbsize => exact absurd hfeed (notMem_integerText _)
  | flushdb => exact absurd hfeed notMem_ok
  | expire => exact absurd hfeed (notMem_handleExpire _ _)
  | ttl => exact absurd hfeed (notMem_handleKey _ _ (by decide) _ fun _ => notMem_integerText _)
  | persist => exact absurd hfeed (notMem_handleKey _ _ (by decide) _ fun _ => notMem_boolText _)
  | save => exact absurd hfeed (notMem_handleSave _ _)
  | lpush | rpush => exact absurd hfeed (notMem_handlePush _ _ (by decide) _)
  | lpop hname =>
    refine multiLine_handleKey (by decide) (fun key v hargs hv => ?_) hfeed
    exact .lpop hname hargs ((w.db.pop_result _ _ w.now key).symm.trans hv)
  | rpop hname =>
    refine multiLine_handleKey (by decide) (fun key v hargs hv => ?_) hfeed
    exact .rpop hname hargs ((w.db.pop_result _ _ w.now key).symm.trans hv)
  | lrange hname => exact multiLine_handleLrange hname hfeed
  | llen => exact absurd hfeed (notMem_handleKey _ _ (by decide) _ fun _ => notMem_lengthText _)
  | lindex hname => exact multiLine_handleLindex hname hfeed
  | subscribe hname => exact multiLine_handleSubscribe hname hfeed
  | unsubscribe hname => exact multiLine_handleUnsubscribe hname hfeed
  | publish => exact absurd hfeed (notMem_handlePublish _ _)
  | config hname => exact multiLine_handleConfig hname hfeed
  | info hname => exact .info hname
  | unknown =>
    have hfront : LF ∉ ascii "ERR unknown command '" := by decide
    have hback : LF ∉ ascii "'" := by decide
    refine .name ?_
    simpa only [unknownCommand, List.mem_append, hfront, hback, false_or, or_false] using hfeed

/-- `PING` echoes its message. -/
theorem executeSingle_ping (h : CommandHandler) {message : Bytes} (hname : cmd.name = ascii "PING")
    (hargs : message ∈ cmd.args.head?) (w : World) : (h.executeSingle cmd w).1 = message := by
  obtain ⟨rest, hcons⟩ := List.head?_eq_some_iff.mp hargs
  simp only [executeSingle, hname, if_true, handlePing, hcons]

/-- A string that is read stands between quotation marks. -/
theorem ReadsString.response {v : Bytes} (hreads : ReadsString cmd w v) :
    (h.executeSingle cmd w).1 = quoted v := by
  rcases hreads with ⟨hname, hargs, hv⟩ | ⟨hname, hargs, hv⟩ | ⟨hname, hargs, hv⟩ |
    ⟨hname, hargs, hindex, hv⟩
  · have hsingle : h.executeSingle cmd w = handleGet cmd w := by
      simp only [executeSingle, hname]
      rfl
    rw [← w.db.get_result] at hv
    simp only [hsingle, handleGet, handleKey, hargs]
    exact congrArg optionalText hv
  · have hsingle : h.executeSingle cmd w = handleLpop cmd w := by
      simp only [executeSingle, hname]
      rfl
    rw [← w.db.pop_result List.head? List.tail] at hv
    simp only [hsingle, handleLpop, handleKey, hargs]
    exact congrArg optionalText hv
  · have hsingle : h.executeSingle cmd w = handleRpop cmd w := by
      simp only [executeSingle, hname]
      rfl
    rw [← w.db.pop_result List.getLast? List.dropLast] at hv
    simp only [hsingle, handleRpop, handleKey, hargs]
    exact congrArg optionalText hv
  · have hsingle : h.executeSingle cmd w = handleLindex cmd w := by
      simp only [executeSingle, hname]
      rfl
    rw [← w.db.lindex_result] at hv
    simp only [hsingle, handleLindex, hargs, hindex]
    exact congrArg optionalText hv

/-- The response of a command that lists several strings does not end in its only line feed. -/
theorem ListsStrings.mem_dropLast {items : List Bytes} (hlists : h.ListsStrings cmd w items)
    (hseveral : Several items) : LF ∈ (h.executeSingle cmd w).1.dropLast := by
  rcases hlists with ⟨hname, hargs, hstart, hstop, hlist, rfl⟩ | ⟨hname, rfl⟩ | ⟨hname, rfl⟩ |
    ⟨hname, rfl⟩ | ⟨hname, hargs, hsub, hparam, rfl⟩
  · rename_i key _ _ start stop l
    have hsingle : h.executeSingle cmd w = handleLrange cmd w := by
      simp only [executeSingle, hname]
      rfl
    have hresult : (w.db.lrange w.now key start stop).1 = Database.slice l start stop := by
      rw [w.db.lrange_result, hlist]
      rfl
    simp only [hsingle, handleLrange, hargs, hstart, hstop]
    refine mem_dropLast_listText ?_
    rw [← hresult] at hseveral
    exact hseveral
  · have hsingle : h.executeSingle cmd w = handleKeys cmd w := by
      simp only [executeSingle, hname]
      rfl
    rw [hsingle]
    exact mem_dropLast_listText hseveral
  · have hsingle : h.executeSingle cmd w = h.handleSubscribe cmd w := by
      simp only [executeSingle, hname]
      rfl
    have hargs : cmd.args ≠ [] := by
      intro hnil
      simp [Several, hnil] at hseveral
    rw [hsingle, handleSubscribe, if_neg hargs]
    refine mem_dropLast_confirmations (by decide) ?_
    rw [← w.pubsub.map_fst_subscribe h.clientFd cmd.args] at hseveral
    exact hseveral
  · have hsingle : h.executeSingle cmd w = h.handleUnsubscribe cmd w := by
      simp only [executeSingle, hname]
      rfl
    rw [hsingle]
    exact mem_dropLast_confirmations (by decide)
      ((PubSubManager.several_unsubscribe _ _ _).mpr hseveral)
  · have hsingle : h.executeSingle cmd w = handleConfig cmd w := by
      simp only [executeSingle, hname]
      rfl
    simp only [hsingle, handleConfig, hargs, configText, hsub, if_true, hparam]
    refine mem_dropLast_append (by decide) (Or.inl ?_)
    exact List.mem_append_left _ (List.mem_append_right _ (by decide))

/-- Only an echo can end in its only line feed. -/
theorem MultiLine.mem_dropLast (hmulti : h.MultiLine cmd w) :
    LF ∈ (h.executeSingle cmd w).1.dropLast ∨
      cmd.name = ascii "PING" ∧ (h.executeSingle cmd w).1 ∈ cmd.args.head? ∧
        LF ∈ (h.executeSingle cmd w).1 := by
  rcases hmulti with hfeed | hname | ⟨hname, hargs, hfeed⟩ | ⟨hreads, hfeed⟩ | ⟨hlists, hseveral⟩ |
    ⟨hname, hargs, hfeed⟩
  · have hunknown : cmd.name ∉ commandNames := by
      intro hmem
      have hnone : ∀ name ∈ commandNames, LF ∉ name := by decide
      exact hnone _ hmem hfeed
    rw [h.executeSingle_of_notMem hunknown]
    exact Or.inl (mem_dropLast_append (by decide) (Or.inl (List.mem_append_right _ hfeed)))
  · have hsingle : h.executeSingle cmd w = h.handleInfo cmd w := by
      simp only [executeSingle, hname]
      rfl
    have htext (head tail : Bytes) (hhead : LF ∈ head) (text : Bytes) :
        LF ∈ (head ++ (ascii "\n# Keyspace\n" ++ tail ++ text ++ ascii "\n")).dropLast :=
      mem_dropLast_append (by simp [ascii]) (Or.inl hhead)
    have hhead : LF ∈ ascii "# Server\nmyredis_version:1.0.0\ntcp_port:6399\n" := by decide
    rw [hsingle, handleInfo]
    simp only
    split
    · exact Or.inl (htext _ _ hhead _)
    · exact Or.inl (htext _ _ (List.mem_append_left _ hhead) _)
  · rw [h.executeSingle_ping hname hargs]
    exact Or.inr ⟨hname, hargs, hfeed⟩
  · rw [hreads.response]
    exact Or.inl (mem_dropLast_quoted hfeed)
  · exact Or.inl (hlists.mem_dropLast hseveral)
  · rename_i sub
    have hsingle : h.executeSingle cmd w = handleConfig cmd w := by
      simp only [executeSingle, hname]
      rfl
    have hfeed' : LF ∈ sub.map toUpper := mem_map_toUpper.mpr hfeed
    have hunknown : sub.map toUpper ∉ [ascii "GET", ascii "SET"] := by
      intro hmem
      have hnone : ∀ name ∈ [ascii "GET", ascii "SET"], LF ∉ name := by decide
      exact hnone _ hmem hfeed'
    rw [hsingle, handleConfig_of_unknown hargs hunknown]
    exact Or.inl (mem_dropLast_append (by decide) (Or.inl (List.mem_append_right _ hfeed')))

/-- The commands whose response contains a line feed. -/
theorem mem_executeSingle_iff : LF ∈ (h.executeSingle cmd w).1 ↔ h.MultiLine cmd w := by
  refine ⟨multiLine_of_mem, fun hmulti => ?_⟩
  rcases hmulti.mem_dropLast with hmem | ⟨-, -, hmem⟩
  · exact List.mem_of_mem_dropLast hmem
  · exact hmem

end Feeds

/-! ### The reply of `EXEC` -/

/-- A `PING` whose message ends in a line feed that is not needed: the message is a single line that
looks like an integer, an array or a pub/sub message. -/
def EchoesLine (cmd : Command) : Prop :=
  cmd.name = ascii "PING" ∧ ∃ s, s ++ [LF] ∈ cmd.args.head? ∧ LF ∉ s ∧ TakesFeed s

/-- The queues whose responses are kept apart: no command is answered with a line feed in the state
that it meets, except for such an echo at the end. -/
def KeepsApart (h : CommandHandler) : List Command → World → Prop
  | [], _ => True
  | [cmd], w => ¬ h.MultiLine cmd w ∨ EchoesLine cmd
  | cmd :: next :: cmds, w =>
    ¬ h.MultiLine cmd w ∧ h.KeepsApart (next :: cmds) (h.executeSingle cmd w).2

/-- The last response can be told apart. -/
theorem separable_last_iff (h : CommandHandler) (cmd : Command) (w : World) :
    Separable [] (h.executeSingle cmd w).1 ↔ ¬ h.MultiLine cmd w ∨ EchoesLine cmd := by
  have hnil : ∀ item ∈ ([] : List Bytes), LF ∉ item :=
    fun item hitem => absurd hitem List.not_mem_nil
  rw [Separable, and_iff_right hnil, mem_executeSingle_iff]
  refine or_congr_right' fun hmulti => ?_
  constructor
  · rintro ⟨s, hs, hfeed, htakes⟩
    rcases (not_not.mp hmulti).mem_dropLast with hmem | ⟨hname, hargs, -⟩
    · rw [hs, List.dropLast_concat] at hmem
      exact absurd hmem hfeed
    · exact ⟨hname, s, hs ▸ hargs, hfeed, htakes⟩
  · rintro ⟨hname, s, hargs, hfeed, htakes⟩
    exact ⟨s, h.executeSingle_ping hname hargs w, hfeed, htakes⟩

/-- The responses of a queue are separable exactly if the queue keeps them apart. -/
theorem separable_executeAll_iff (h : CommandHandler) {cmds : List Command} (hcmds : cmds ≠ [])
    (w : World) :
    ∃ front last, (h.executeAll cmds w).1 = front ++ [last] ∧
      (Separable front last ↔ h.KeepsApart cmds w) := by
  induction cmds generalizing w with
  | nil => exact absurd rfl hcmds
  | cons cmd cmds ih =>
    rcases cmds with _ | ⟨next, cmds⟩
    · exact ⟨[], _, rfl, h.separable_last_iff cmd w⟩
    · obtain ⟨front, last, hresponses, hiff⟩ := ih (List.cons_ne_nil _ _) (h.executeSingle cmd w).2
      refine ⟨(h.executeSingle cmd w).1 :: front, last, ?_, ?_⟩
      · rw [executeAll, hresponses]
        rfl
      · rw [KeepsApart, ← hiff, ← mem_executeSingle_iff, Separable, Separable, List.forall_mem_cons,
          and_assoc]

/-- There is one response for each command. -/
theorem length_executeAll (h : CommandHandler) (cmds : List Command) (w : World) :
    (h.executeAll cmds w).1.length = cmds.length := by
  induction cmds generalizing w with
  | nil => rfl
  | cons cmd cmds ih => rw [executeAll, List.length_cons, ih, List.length_cons]

/-- **Replies of transactions.**  For every queue that an `EXEC` runs there are as many responses as
commands, and the bytes that are sent for the `EXEC` are the array of what is sent for each of the
responses alone if and only if the queue keeps its responses apart. -/
theorem serializeResponse_exec_iff {h : CommandHandler} {w : World} {cmd : Command}
    (hname : cmd.name = ascii "EXEC") (hsub : h.inSubscriptionMode w = false)
    (hmulti : h.inMulti = true) (hqueue : h.txQueue ≠ []) (hcheck : (h.watchCheck w).1 = false) :
    (h.executeAll h.txQueue (h.watchCheck w).2).1.length = h.txQueue.length ∧
      (serializeResponse (h.execute cmd w).1 =
          array ((h.executeAll h.txQueue (h.watchCheck w).2).1.map serializeResponse) ↔
        h.KeepsApart h.txQueue (h.watchCheck w).2) := by
  refine ⟨h.length_executeAll _ _, ?_⟩
  obtain ⟨front, last, hresponses, hiff⟩ := h.separable_executeAll_iff hqueue (h.watchCheck w).2
  rw [execute_exec hsub cmd hname hmulti, hcheck, if_neg Bool.false_ne_true, if_neg hqueue, ← hiff,
    hresponses]
  exact serializeResponse_numbered_iff front last

/-- A transaction that reads an element of a list and pops it. -/
theorem serializeResponse_exec_strings :
    let w := ((new 4 none).execute ⟨ascii "RPUSH", [ascii "l", ascii "a\r"]⟩ World.initial).2.2
    let h : CommandHandler := { new 4 none with
      inMulti := true,
      txQueue := [⟨ascii "LINDEX", [ascii "l", ascii "0"]⟩, ⟨ascii "LPOP", [ascii "l"]⟩] }
    serializeResponse (h.execute ⟨ascii "EXEC", []⟩ w).1 =
      array ((h.executeAll h.txQueue (h.watchCheck w).2).1.map serializeResponse) := by
  intro w h
  have hkeeps : h.KeepsApart h.txQueue (h.watchCheck w).2 := by
    refine ⟨?_, Or.inl ?_⟩ <;> rw [← mem_executeSingle_iff] <;> decide
  exact (serializeResponse_exec_iff (h := h) rfl (by decide) rfl (by decide)
    (by decide)).2.mpr hkeeps

/-- A list of two elements that is read in a transaction: the reply has two elements, of which the
first is an array of one element. -/
theorem exec_tears_list_apart :
    let w := ((new 4 none).execute ⟨ascii "RPUSH", [ascii "l", ascii "a", ascii "b"]⟩
      World.initial).2.2
    let h₁ := ((new 4 none).execute ⟨ascii "MULTI", []⟩ w).2.1
    let h₂ := (h₁.execute ⟨ascii "LRANGE", [ascii "l", ascii "0", ascii "-1"]⟩ w).2.1
    (h₂.executeAll h₂.txQueue w).1.map serializeResponse =
        [array [bulkString (ascii "a"), bulkString (ascii "b")]] ∧
      serializeResponse (h₂.execute ⟨ascii "EXEC", []⟩ w).1 =
        array [array [bulkString (ascii "a")], bulkString (ascii "b")] ∧
      serializeResponse (h₂.execute ⟨ascii "EXEC", []⟩ w).1 ≠
        array ((h₂.executeAll h₂.txQueue w).1.map serializeResponse) := by
  decide

end CommandHandler

end MyRedis
