import MyRedis.Client.Lengths
import MyRedis.Commands.ExecReplies
import MyRedis.Server.ReplyFraming

/-!
# The lengths in the replies of the server

A client can read the reply to a command if the lengths in it fit into an `int`.  The strings of a
reply are the message of a `PING`, the string or the list that is read from the database, the keys
of the database and the channels that are confirmed; `CommandHandler.Readable` bounds these
strings, the lines of a list, and the numbers that are shown.  Under these bounds, a response that
is sent as one value is one that the client can read (`CommandHandler.Readable.measured_execute`,
`Measured.legible`).
-/

namespace MyRedis

open Foundation Resp

/-! ### Texts -/

/-- A string that is shorter than 2 GiB even with a number, quotation marks or the words of a
confirmation around it. -/
def FitsReply (s : Bytes) : Prop := s.length + 32 < 2 ^ 31

/-- A list that can be shown: its strings fit, and its lines can be counted. -/
structure Showable (items : List Bytes) : Prop where
  /-- The number of lines fits into an `int`. -/
  lines : lineCount items < 2 ^ 31
  /-- So does the length of each string. -/
  strings : ∀ item ∈ items, FitsReply item

/-- The texts that are sent with lengths that fit. -/
inductive Measured : Bytes → Prop
  | error {r : Bytes} (h : isError r = true) : Measured r
  | short {r : Bytes} (h : r.length < 2 ^ 31) : Measured r
  | list {items : List Bytes} (h : Showable items) : Measured (listText items)

theorem length_quoted (s : Bytes) : (quoted s).length = s.length + 2 := by
  simp [quoted, ascii]

/-- Quotation marks add no lines. -/
theorem lineCount_map_quoted (items : List Bytes) :
    lineCount (items.map quoted) = lineCount items := by
  have hcount : ((fun text : Bytes => text.count LF + 1) ∘ quoted) =
      fun text : Bytes => text.count LF + 1 := by
    funext text
    have hmark : (ascii "\"").count LF = 0 := by decide
    rw [Function.comp_apply, quoted, List.count_append, List.count_append, hmark, Nat.zero_add,
      Nat.add_zero]
  rw [lineCount, List.map_map, hcount, lineCount]

/-- The client can read such a text, if it is sent as one value. -/
theorem Measured.legible {r : Bytes} (h : Measured r) (hvalue : RespValue (serializeResponse r)) :
    Legible (serializeResponse r) := by
  cases h with
  | error herror => exact legible_serializeResponse_of_isError hvalue herror
  | short hlength => exact legible_serializeResponse hvalue hlength
  | @list items h =>
    unfold listText
    split
    · exact legible_serialize_fixed (by decide) _
    · rename_i hne
      refine legible_numbered (by simpa using hne) ?_ fun item hitem => ?_
      · rw [lineCount_map_quoted]
        exact h.lines
      · obtain ⟨s, hs, rfl⟩ := List.mem_map.mp hitem
        have hfits : s.length + 32 < 2 ^ 31 := h.strings s hs
        rw [length_quoted]
        omega

/-- The number of digits of a number. -/
theorem length_decimal_le {n k : ℕ} (hk : 1 ≤ k) (h : n < 10 ^ k) : (decimal n).length ≤ k := by
  unfold decimal
  split
  · exact hk
  · rw [List.length_map, List.length_reverse, Nat.digits_length_le_iff (by decide)]
    exact h

theorem length_decimalInt_le {n : ℤ} {k : ℕ} (hk : 1 ≤ k) (h : n.natAbs < 10 ^ k) :
    (decimalInt n).length ≤ k + 1 := by
  have hdigits := length_decimal_le hk h
  unfold decimalInt
  split
  · rw [List.length_cons]
    omega
  · omega

theorem natAbs_toInt_lt (n : Int32) : n.toInt.natAbs < 2 ^ 64 := by
  have hlow := n.le_toInt
  have hhigh := n.toInt_lt
  omega

theorem measured_ok : Measured (ascii "OK") := .short (by decide)

theorem measured_integerText {n : ℤ} (h : n.natAbs < 2 ^ 64) : Measured (integerText n) := by
  have hdigits := length_decimalInt_le (k := 20) (by decide) (h.trans (by decide))
  have htype : (ascii "(integer) ").length = 10 := by decide
  refine .short ?_
  rw [integerText, List.length_append, htype]
  omega

theorem measured_boolText (r : DbResult) : Measured (CommandHandler.boolText r) := by
  refine .short ?_
  unfold CommandHandler.boolText
  split <;> decide

theorem measured_lengthText (n : Int32) : Measured (lengthText n) := by
  unfold lengthText
  split
  · exact .error (by decide)
  · exact measured_integerText (natAbs_toInt_lt n)

theorem measured_optionalText {s : Option Bytes} (h : ∀ v ∈ s, FitsReply v) :
    Measured (optionalText s) := by
  cases s with
  | none => exact .short (by decide)
  | some v =>
    have hfits : v.length + 32 < 2 ^ 31 := h v rfl
    refine .short ?_
    rw [optionalText, length_quoted]
    omega

theorem measured_wrongArguments (name : String) : Measured (wrongArguments name) :=
  .error (by simp [wrongArguments, isError, ascii])

theorem measured_notInteger : Measured notInteger := .error (by decide)

theorem measured_invalidExpire (name : String) : Measured (invalidExpire name) :=
  .error (by simp [invalidExpire, isError, ascii])

/-- The confirmation of at most one channel. -/
theorem measured_confirmations {kind : String} (hkind : (ascii kind).length ≤ 12)
    {results : List (Bytes × Int32)} (hseveral : ¬ Several (results.map Prod.fst))
    (hfits : ∀ c ∈ results.map Prod.fst, FitsReply c) : Measured (confirmations kind results) := by
  rcases results with _ | ⟨⟨c, n⟩, _ | ⟨next, later⟩⟩
  · exact .short (by simp [confirmations, lines])
  · have hc : c.length + 32 < 2 ^ 31 := hfits c List.mem_cons_self
    have hlow := n.le_toInt
    have hhigh := n.toInt_lt
    have hdigits := length_decimalInt_le (n := n.toInt) (k := 10) (by decide) (by omega)
    have hspace : (ascii " ").length = 1 := by decide
    refine .short ?_
    simp only [confirmations, List.map_cons, List.map_nil, lines, List.length_append, hspace]
    omega
  · exact absurd (Or.inl (by simp)) hseveral

namespace Database

/-- The keys that are collected are some of the keys. -/
theorem collect_sublist (db : Database) (now : ℕ → TimePoint) (keys : List Bytes) :
    List.Sublist (db.collect now keys).1 keys := by
  induction keys generalizing now with
  | nil => exact List.Sublist.refl _
  | cons key keys ih =>
    rw [collect]
    split_ifs
    · exact (ih _).cons _
    · exact (ih _).cons_cons _

/-- `DBSIZE` returns not more than the number of all keys. -/
theorem length_collectBoth_le (now : ℕ → TimePoint) (db : Database) :
    (collectBoth now db).1.length ≤ db.store.keys.length + db.listStore.keys.length := by
  rw [collectBoth, List.length_append]
  exact Nat.add_le_add (db.collect_sublist _ _).length_le (db.collect_sublist _ _).length_le

end Database

/-! ### Single commands -/

namespace CommandHandler

/-- What is shown in the reply to a command has lengths that the client can read. -/
structure Readable (h : CommandHandler) (cmd : Command) (w : World) : Prop where
  /-- The message that a `PING` echoes fits. -/
  echo : cmd.name = ascii "PING" → ∀ message ∈ cmd.args.head?, FitsReply message
  /-- The string that it reads from the database fits. -/
  string : ∀ v, ReadsString cmd w v → FitsReply v
  /-- The list that it reads, the keys that it lists or the channels that it confirms can be
  shown. -/
  list : ∀ items, h.ListsStrings cmd w items → Showable items
  /-- The number of keys has 64 bits. -/
  keyCount : w.db.store.keys.length + w.db.listStore.keys.length < 2 ^ 64
  /-- So have the number of clients and the time since the start. -/
  info : ∀ server ∈ h.server,
    server.clientCount < 2 ^ 64 ∧ (w.now - server.startTime).natAbs < 2 ^ 64

section Measured

variable (cmd : Command) (w : World)

theorem measured_handleSet : Measured (handleSet cmd w).1 := by
  unfold handleSet
  split
  · unfold handleSetOption
    split
    · split_ifs
      · split
        · exact measured_notInteger
        · split_ifs
          · exact measured_invalidExpire _
          · exact measured_ok
      · exact measured_ok
    · exact measured_ok
  · exact measured_wrongArguments _

/-- A command with one key, if the text of its result is measured. -/
theorem measured_handleKey {name : String} {op : Bytes → DbOp} {text : DbResult → Bytes}
    (htext : ∀ key, cmd.args = [key] → Measured (text (w.call (op key)).1)) :
    Measured (handleKey name op text cmd w).1 := by
  unfold handleKey
  split
  · rename_i key hargs
    exact htext key hargs
  · exact measured_wrongArguments _

theorem measured_handleKeyList (name : String) (op : List Bytes → DbOp) :
    Measured (handleKeyList name op cmd w).1 := by
  unfold handleKeyList
  split
  · exact measured_wrongArguments _
  · exact measured_integerText (natAbs_toInt_lt _)

theorem measured_handleExpire : Measured (handleExpire cmd w).1 := by
  unfold handleExpire
  split
  · split
    · exact measured_notInteger
    · split_ifs
      · exact measured_invalidExpire _
      · exact measured_boolText _
  · exact measured_wrongArguments _

theorem measured_handleSave : Measured (handleSave cmd w).1 := by
  unfold handleSave
  simp only
  split
  · exact measured_ok
  · exact .error (by decide)

theorem measured_handlePush (name : String) (op : Bytes → List Bytes → DbOp) :
    Measured (handlePush name op cmd w).1 := by
  unfold handlePush
  split
  · exact measured_lengthText _
  · exact measured_wrongArguments _

theorem measured_handlePublish : Measured (handlePublish cmd w).1 := by
  unfold handlePublish
  split
  · exact measured_integerText (natAbs_toInt_lt _)
  · exact measured_wrongArguments _

theorem measured_handleConfig : Measured (handleConfig cmd w).1 := by
  unfold handleConfig configText
  split
  · exact measured_wrongArguments _
  · split_ifs
    · split
      · split
        · rename_i param _ hparam
          have hknown : ∀ p ∈ configParams, p.length ≤ 11 := by decide
          have hlength := hknown param (List.contains_iff_mem.mp hparam)
          have hempty : (quoted []).length = 2 := by decide
          have hnumber : (ascii "1) ").length = 3 ∧ (ascii "2) ").length = 3 ∧
              (ascii "\n").length = 1 := by decide
          refine .short ?_
          rw [List.length_append, List.length_append, List.length_append, List.length_append,
            length_quoted, hempty, hnumber.1, hnumber.2.1, hnumber.2.2]
          omega
        · exact .short (show (ascii "(empty list)").length < 2 ^ 31 by decide)
      · exact measured_wrongArguments _
    · split
      · exact measured_ok
      · exact measured_wrongArguments _
    · exact .error (by simp [isError, ascii])

/-- The lines of `INFO` about the server. -/
theorem length_serverText_le {uptime : ℤ} {clientCount : ℕ} (huptime : uptime.natAbs < 2 ^ 64)
    (hclients : clientCount < 2 ^ 64) : (serverText uptime clientCount).length ≤ 200 := by
  have hquotient {a : ℤ} (b : ℤ) (ha : a.natAbs < 2 ^ 64) : (a.tdiv b).natAbs < 2 ^ 64 := by
    rw [Int.natAbs_tdiv]
    exact (Nat.div_le_self _ _).trans_lt ha
  have hdigits {n : ℤ} (hn : n.natAbs < 2 ^ 64) : (decimalInt n).length ≤ 21 :=
    length_decimalInt_le (by decide) (hn.trans (by decide))
  have hseconds := hquotient nsPerSec huptime
  have hsecondsText := hdigits hseconds
  have hdaysText := hdigits (hquotient 86400 hseconds)
  have hclientsText : (decimal clientCount).length ≤ 20 :=
    length_decimal_le (by decide) (hclients.trans (by decide))
  have hwords : (ascii "uptime_in_seconds:").length + (ascii "uptime_in_days:").length +
      (ascii "\n# Clients\n").length + (ascii "connected_clients:").length +
        3 * (ascii "\n").length ≤ 100 := by
    simp [ascii]
  simp only [serverText, List.length_append]
  omega

variable {cmd w} {h : CommandHandler} (hreadable : h.Readable cmd w)
include hreadable

theorem Readable.measured_handlePing (hname : cmd.name = ascii "PING") :
    Measured (handlePing cmd w).1 := by
  unfold handlePing
  split
  · exact .short (show (ascii "PONG").length < 2 ^ 31 by decide)
  · rename_i message rest hargs
    have hfits : message.length + 32 < 2 ^ 31 :=
      hreadable.echo hname message (by rw [hargs]; rfl)
    exact .short (show message.length < 2 ^ 31 by omega)

theorem Readable.measured_handleLindex (hname : cmd.name = ascii "LINDEX") :
    Measured (handleLindex cmd w).1 := by
  unfold handleLindex
  split
  · rename_i key text hargs
    split
    · exact measured_notInteger
    · rename_i index hindex
      refine measured_optionalText fun v hv => hreadable.string v ?_
      exact .lindex hname hargs hindex ((w.db.lindex_result w.now key index).symm.trans hv)
  · exact measured_wrongArguments _

theorem Readable.measured_handleLrange (hname : cmd.name = ascii "LRANGE") :
    Measured (handleLrange cmd w).1 := by
  unfold handleLrange
  split
  · rename_i key first last hargs
    split
    · rename_i start stop hstart hstop
      have hresult := w.db.lrange_result w.now key start stop
      rcases hlist : ((w.db.cell key).purge w.now).list with _ | l
      · rw [hlist] at hresult
        have hnil : (w.call (.lrange key start stop)).1.toStrings = [] := hresult
        have hempty : Showable [] := ⟨by decide, by simp⟩
        rw [reply, hnil]
        exact .list hempty
      · rw [hlist] at hresult
        have hitems : (w.call (.lrange key start stop)).1.toStrings = Database.slice l start stop :=
          hresult
        rw [reply, hitems]
        exact .list (hreadable.list _ (.lrange hname hargs hstart hstop hlist rfl))
    · exact measured_notInteger
  · exact measured_wrongArguments _

/-- A command that reads a string. -/
theorem Readable.measured_string {name : String} {op : Bytes → DbOp}
    (hop : ∀ key v, cmd.args = [key] → (w.call (op key)).1.optional = some v →
      ReadsString cmd w v) :
    Measured (handleKey name op (fun r => optionalText r.optional) cmd w).1 := by
  refine measured_handleKey cmd w fun key hargs => measured_optionalText fun v hv => ?_
  exact hreadable.string v (hop key v hargs hv)

theorem Readable.measured_handleInfo : Measured (h.handleInfo cmd w).1 := by
  have hkeys (now : ℕ → TimePoint) :
      (decimal (Database.collectBoth now w.db).1.length).length ≤ 20 :=
    length_decimal_le (by decide)
      (((Database.length_collectBoth_le now w.db).trans_lt hreadable.keyCount).trans (by decide))
  have hhead : (ascii "# Server\nmyredis_version:1.0.0\ntcp_port:6399\n").length ≤ 50 := by
    simp [ascii]
  have hkeyspace : (ascii "\n# Keyspace\n").length + (ascii "db0:keys=").length +
      (ascii "\n").length ≤ 50 := by
    simp [ascii]
  refine .short ?_
  unfold handleInfo
  simp only
  split
  · have hsize : (decimal (w.call .dbsize).1.toSize).length ≤ 20 := hkeys (w.clock 0)
    simp only [reply, List.length_append]
    omega
  · rename_i server hserver
    obtain ⟨hclients, huptime⟩ := hreadable.info server hserver
    have hserver := length_serverText_le huptime hclients
    have hsize : (decimal (w.tick.call .dbsize).1.toSize).length ≤ 20 := hkeys (w.tick.clock 0)
    simp only [reply, List.length_append]
    omega

theorem Readable.measured_handleSubscribe (hname : cmd.name = ascii "SUBSCRIBE")
    (hone : ¬ Several cmd.args) : Measured (h.handleSubscribe cmd w).1 := by
  unfold handleSubscribe
  split
  · exact measured_wrongArguments _
  · have hchannels := w.pubsub.map_fst_subscribe h.clientFd cmd.args
    refine measured_confirmations (by decide) ?_ ?_
    · exact hchannels.symm ▸ hone
    · exact hchannels.symm ▸ (hreadable.list _ (.subscribe hname rfl)).strings

theorem Readable.measured_handleUnsubscribe (hname : cmd.name = ascii "UNSUBSCRIBE")
    (hone : ¬ Several (w.pubsub.toUnsub h.clientFd cmd.args)) :
    Measured (h.handleUnsubscribe cmd w).1 := by
  refine measured_confirmations (by decide) ?_ ?_
  · exact fun hseveral => hone ((PubSubManager.several_unsubscribe _ _ _).mp hseveral)
  · by_cases hnil : w.pubsub.toUnsub h.clientFd cmd.args = []
    · have hstar : (w.unsubscribe h.clientFd cmd.args).1 = [(ascii "*", 0)] := by
        rw [World.unsubscribe, PubSubManager.unsubscribe, if_pos hnil]
      rw [hstar]
      intro c hc
      rw [List.mem_singleton.mp hc]
      exact (by decide : (ascii "*").length + 32 < 2 ^ 31)
    · have hchannels := PubSubManager.map_fst_unsubscribe hnil
      exact hchannels.symm ▸ (hreadable.list _ (.unsubscribe hname rfl)).strings

end Measured

/-- The response to a single command, if not more than one channel is confirmed. -/
theorem Readable.measured_executeSingle {h : CommandHandler} {cmd : Command} {w : World}
    (hreadable : h.Readable cmd w)
    (hsubscribe : cmd.name = ascii "SUBSCRIBE" → ¬ Several cmd.args)
    (hunsubscribe : cmd.name = ascii "UNSUBSCRIBE" →
      ¬ Several (w.pubsub.toUnsub h.clientFd cmd.args)) :
    Measured (h.executeSingle cmd w).1 := by
  have hdispatch := h.dispatches cmd
  generalize h.executeSingle cmd = run at hdispatch ⊢
  cases hdispatch with
  | ping hname => exact hreadable.measured_handlePing hname
  | set => exact measured_handleSet cmd w
  | get hname =>
    refine hreadable.measured_string fun key v hargs hv => ?_
    exact .get hname hargs ((w.db.get_result w.now key).symm.trans hv)
  | del | existing => exact measured_handleKeyList cmd w _ _
  | keys hname => exact .list (hreadable.list _ (.keys hname rfl))
  | dbsize =>
    refine measured_integerText ?_
    exact (Database.length_collectBoth_le (w.clock 0) w.db).trans_lt hreadable.keyCount
  | flushdb => exact measured_ok
  | expire => exact measured_handleExpire cmd w
  | ttl => exact measured_handleKey cmd w fun _ _ => measured_integerText (natAbs_toInt_lt _)
  | persist => exact measured_handleKey cmd w fun _ _ => measured_boolText _
  | save => exact measured_handleSave cmd w
  | lpush | rpush => exact measured_handlePush cmd w _ _
  | lpop hname =>
    refine hreadable.measured_string fun key v hargs hv => ?_
    exact .lpop hname hargs ((w.db.pop_result _ _ w.now key).symm.trans hv)
  | rpop hname =>
    refine hreadable.measured_string fun key v hargs hv => ?_
    exact .rpop hname hargs ((w.db.pop_result _ _ w.now key).symm.trans hv)
  | lrange hname => exact hreadable.measured_handleLrange hname
  | llen => exact measured_handleKey cmd w fun _ _ => measured_lengthText _
  | lindex hname => exact hreadable.measured_handleLindex hname
  | subscribe hname => exact hreadable.measured_handleSubscribe hname (hsubscribe hname)
  | unsubscribe hname => exact hreadable.measured_handleUnsubscribe hname (hunsubscribe hname)
  | publish => exact measured_handlePublish cmd w
  | config => exact measured_handleConfig cmd w
  | info => exact hreadable.measured_handleInfo
  | unknown => exact .error (by simp [unknownCommand, isError, ascii])

/-- The response of a new handler. -/
theorem Readable.measured_execute {h : CommandHandler} (hnew : h.inMulti = false) {cmd : Command}
    {w : World} (hreadable : h.Readable cmd w)
    (hsubscribe : cmd.name = ascii "SUBSCRIBE" → ¬ Several cmd.args)
    (hunsubscribe : cmd.name = ascii "UNSUBSCRIBE" →
      ¬ Several (w.pubsub.toUnsub h.clientFd cmd.args)) :
    Measured (h.execute cmd w).1 := by
  have hexec := executesOutside hnew cmd w
  generalize h.execute cmd w = result at hexec ⊢
  cases hexec with
  | rejected => exact .error (by simp [subscriptionError, isError, ascii])
  | multi | watch => exact measured_ok
  | exec | discard => exact .error (by simp [isError, ascii])
  | watchNothing => exact measured_wrongArguments _
  | single => exact hreadable.measured_executeSingle hsubscribe hunsubscribe

end CommandHandler

/-! ### Replies -/

namespace Server

/-- The answers to a client that has not given the password. -/
theorem measured_gateText (password : Bytes) (cmd : Command) :
    Measured (gateText password cmd) := by
  unfold gateText
  split
  · split
    · split
      · exact measured_ok
      · exact .error (by decide)
    · exact measured_wrongArguments _
  · exact .error (by decide)

end Server

end MyRedis
