import MyRedis.Resp.Totality
import MyRedis.Server.Gate
import MyRedis.Server.SingleReplies

/-!
# Replies that repeat a text of the client

`PING` repeats its message, and `SUBSCRIBE` and `UNSUBSCRIBE` repeat the names of the channels.  All
of them go through the text that `serialize_response` takes apart.  A message is sent as a string
if the text is not taken for something else (`serializeResponse_eq_bulkString_iff`).  A confirmation
is read back word by word, so it is sent as it should be if the name of the channel is a single word
(`serializePush_confirmationLine_iff`), and several confirmations are if all names are
(`serializeResponse_confirmations_iff`).
-/

namespace MyRedis

open Foundation Resp PubSubManager

namespace Resp

/-! ### Messages -/

/-- The text is sent as a string by the last branch. -/
structure PlainText (response : Bytes) : Prop extends Unrecognised response where
  /-- The text does not begin like an array. -/
  array : isArray response = false
  /-- It does not begin like a pub/sub message. -/
  push : isPush response = false

/-- The tests of the branches, one after the other. -/
theorem plainText_iff (response : Bytes) : PlainText response ↔
    fixedTexts.contains response = false ∧ isError response = false ∧ integerOf response = none ∧
      isQuoted response = false ∧ isArray response = false ∧ isPush response = false := by
  rw [List.contains_eq_mem, decide_eq_false_iff_not]
  constructor
  · intro h
    exact ⟨h.fixed, h.error, h.integer, h.quoted, h.array, h.push⟩
  · rintro ⟨hfixed, herror, hinteger, hquoted, harray, hpush⟩
    exact ⟨⟨hfixed, herror, hinteger, hquoted⟩, harray, hpush⟩

instance (response : Bytes) : Decidable (PlainText response) :=
  decidable_of_iff' _ (plainText_iff response)

/-- The first byte of a string. -/
theorem head?_bulkString (str : Bytes) : (bulkString str).head? = some 36 := rfl

/-- A text is sent as itself exactly if no other branch takes it. -/
theorem serializeResponse_eq_bulkString_iff (response : Bytes) :
    serializeResponse response = bulkString response ↔ PlainText response := by
  constructor
  · intro h
    have hhead : (serializeResponse response).head? = some 36 := by
      rw [h, head?_bulkString]
    have hfixed : response ∉ fixedTexts := by
      intro hmem
      have hne : ∀ t ∈ fixedTexts, serializeResponse t ≠ bulkString t := by decide
      exact hne response hmem h
    have herror : isError response = false := by
      by_contra herror
      rw [serializeResponse_of_isError (Bool.not_eq_false _ ▸ herror)] at hhead
      exact absurd hhead (by simp [error, ascii])
    have hinteger : integerOf response = none := by
      rcases hval : integerOf response with _ | val
      · rfl
      · rw [serializeResponse_of_integerOf hval] at hhead
        exact absurd hhead (by simp [integer, ascii])
    have hquoted : isQuoted response = false := by
      by_contra hquoted
      have hquoted := Bool.not_eq_false _ ▸ hquoted
      rw [serializeResponse_of_isQuoted hquoted] at h
      -- the text between the quotation marks is shorter
      have hlength := congrArg List.length (bulkString_injective h)
      simp only [isQuoted, Bool.and_eq_true, decide_eq_true_eq] at hquoted
      rw [length_unquote] at hlength
      omega
    have harray : isArray response = false := by
      by_contra harray
      rw [serializeResponse_of_isArray (Bool.not_eq_false _ ▸ harray)] at hhead
      exact absurd hhead (by simp [array, ascii])
    have hpush : isPush response = false := by
      by_contra hpush
      rw [serializeResponse_of_isPush (Bool.not_eq_false _ ▸ hpush)] at hhead
      rcases hlines : getLines response with _ | ⟨line, later⟩
      · rw [hlines] at hhead
        cases hhead
      · rw [hlines] at hhead
        exact absurd hhead (by simp [serializePush, array, ascii])
    exact ⟨⟨hfixed, herror, hinteger, hquoted⟩, harray, hpush⟩
  · intro h
    apply serializeResponse_of_other h.fixed h.error h.quoted
    rintro (hinteger | harray | hpush)
    · rw [h.integer] at hinteger
      cases hinteger
    · exact absurd (harray.symm.trans h.array) (by decide)
    · exact absurd (hpush.symm.trans h.push) (by decide)

/-! ### Words -/

/-- The bytes are read as one word. -/
def IsWord (word : Bytes) : Prop := word ≠ [] ∧ ∀ b ∈ word, isSpace b = false

instance (word : Bytes) : Decidable (IsWord word) :=
  have := List.decidableBAll (fun b => isSpace b = false) word
  inferInstanceAs (Decidable (_ ∧ _))

/-- White space in front of a word is skipped. -/
theorem readToken_cons_space {c : UInt8} (hc : isSpace c = true) (stream : Bytes) :
    readToken (c :: stream) = readToken stream := by
  rw [readToken, List.dropWhile_cons_of_pos hc, readToken]

/-- A word is read up to the next white space. -/
theorem IsWord.readToken {word : Bytes} (h : IsWord word) {rest : Bytes}
    (hrest : ∀ c ∈ rest.head?, isSpace c = true) : readToken (word ++ rest) = (word, rest) := by
  have hskip : (word ++ rest).dropWhile isSpace = word ++ rest := by
    rcases word with _ | ⟨b, word⟩
    · exact absurd rfl h.1
    · have hb : ¬ isSpace b = true := by
        rw [h.2 b List.mem_cons_self]
        exact Bool.false_ne_true
      rw [List.cons_append, List.dropWhile_cons_of_neg hb]
  have hword : ∀ b ∈ word, (!isSpace b) = true := fun b hb => by rw [h.2 b hb, Bool.not_false]
  have hstop : rest.takeWhile (fun c => !isSpace c) = [] ∧
      rest.dropWhile (fun c => !isSpace c) = rest := by
    rcases rest with _ | ⟨c, rest⟩
    · exact ⟨rfl, rfl⟩
    · have hc : ¬ (!isSpace c) = true := by simp [hrest c rfl]
      exact ⟨List.takeWhile_cons_of_neg hc, List.dropWhile_cons_of_neg hc⟩
  rw [Resp.readToken, hskip, List.span_eq_takeWhile_dropWhile,
    List.takeWhile_append_of_pos hword, List.dropWhile_append_of_pos hword, hstop.1, hstop.2,
    List.append_nil]

/-- What is read is a word, if there is something besides white space. -/
theorem isWord_readToken {stream : Bytes} (h : ∃ b ∈ stream, isSpace b = false) :
    IsWord (readToken stream).1 := by
  rw [readToken, List.span_eq_takeWhile_dropWhile]
  refine ⟨fun hnil => ?_, fun b hb => ?_⟩
  · obtain ⟨b, hb, hspace⟩ := h
    rcases hskip : stream.dropWhile isSpace with _ | ⟨c, rest⟩
    · have hall := List.dropWhile_eq_nil_iff.mp hskip b hb
      rw [hspace] at hall
      cases hall
    · have hc : isSpace c = false := by
        have hhead := List.head?_dropWhile_not isSpace stream
        rw [hskip] at hhead
        simpa using hhead
      rw [hskip, List.takeWhile_cons_of_pos (by simp [hc])] at hnil
      cases hnil
  · simpa using List.mem_takeWhile_imp hb

/-- A decimal number is a word. -/
theorem isWord_decimalInt (n : ℤ) : IsWord (decimalInt n) := by
  refine ⟨decimalInt_ne_nil n, fun b hb => ?_⟩
  rcases eq_or_isDigit_of_mem_decimalInt hb with rfl | hdigit
  · decide
  · -- the digits are above the white space
    simp only [isDigit, Bool.and_eq_true, decide_eq_true_eq, UInt8.le_iff_toNat_le] at hdigit
    simp only [isSpace, Bool.or_eq_false_iff, Bool.and_eq_false_iff, beq_eq_false_iff_ne, ne_eq,
      decide_eq_false_iff_not, UInt8.le_iff_toNat_le, ← UInt8.toNat_inj]
    have hthirteen : (13 : UInt8).toNat = 13 := rfl
    have hspace : (32 : UInt8).toNat = 32 := rfl
    have hzero : (48 : UInt8).toNat = 48 := rfl
    omega

/-! ### Confirmations -/

/-- The line that confirms a channel. -/
def confirmationLine (kind : String) (channel : Bytes) (count : Int32) : Bytes :=
  ascii kind ++ ascii " " ++ channel ++ ascii " " ++ decimalInt count.toInt

/-- The array that a client should get for it. -/
def confirmation (kind : String) (channel : Bytes) (count : Int32) : Bytes :=
  array [bulkString (ascii kind), bulkString channel, integer count.toInt64]

theorem respValue_confirmation (kind : String) (channel : Bytes) (count : Int32) :
    RespValue (confirmation kind channel count) := by
  apply respValue_array
  simp only [List.mem_cons, List.not_mem_nil, or_false]
  rintro e (rfl | rfl | rfl)
  · exact respValue_bulkString _
  · exact respValue_bulkString _
  · exact respValue_integer _

/-- A count is read back. -/
theorem stoll_count (count : Int32) : stoll (decimalInt count.toInt) = some count.toInt64 := by
  have hlow := count.le_toInt
  have hhigh := count.toInt_lt
  rw [stoll, strtol_decimalInt]
  simp only
  rw [if_pos (by omega), Int64.ofInt_int32ToInt]

section Line

variable {kind : String} (hkind : IsWord (ascii kind)) (channel : Bytes) (count : Int32)

include hkind in
/-- The first word of the line. -/
theorem readToken_confirmationLine : readToken (confirmationLine kind channel count) =
    (ascii kind, 32 :: (channel ++ 32 :: decimalInt count.toInt)) := by
  have hline : confirmationLine kind channel count =
      ascii kind ++ 32 :: (channel ++ 32 :: decimalInt count.toInt) := by
    rw [confirmationLine]
    simp only [List.append_assoc]
    rfl
  rw [hline]
  apply hkind.readToken
  rintro c ⟨⟩
  decide

include hkind in
/-- A confirmation is sent as it should be exactly if the channel is a single word. -/
theorem serializePush_confirmationLine_iff (hmessage : ascii kind ≠ ascii "message") :
    serializePush (confirmationLine kind channel count) = confirmation kind channel count ↔
      IsWord channel := by
  have hspace : isSpace 32 = true := by decide
  unfold serializePush
  simp only [readToken_confirmationLine hkind, readToken_cons_space hspace, if_neg hmessage]
  constructor
  · intro h
    have hflatten := (array_inj h).2
    simp only [List.flatten_cons, List.append_cancel_left_eq] at hflatten
    -- the second word is the channel
    obtain ⟨hbulk, -⟩ :=
      (respValue_bulkString _).append_inj (respValue_bulkString _) hflatten
    rw [← bulkString_injective hbulk]
    apply isWord_readToken
    obtain ⟨hne, hword⟩ := isWord_decimalInt count.toInt
    obtain ⟨b, hb⟩ := List.exists_mem_of_ne_nil _ hne
    exact ⟨b, List.mem_append_right _ (List.mem_cons_of_mem _ hb), hword b hb⟩
  · intro h
    have hsecond : readToken (channel ++ 32 :: decimalInt count.toInt) =
        (channel, 32 :: decimalInt count.toInt) := by
      apply h.readToken
      rintro c ⟨⟩
      exact hspace
    have hthird : (32 :: decimalInt count.toInt).dropWhile isSpace = decimalInt count.toInt := by
      rw [List.dropWhile_cons_of_pos hspace]
      obtain ⟨hne, hword⟩ := isWord_decimalInt count.toInt
      rcases hdigits : decimalInt count.toInt with _ | ⟨b, digits⟩
      · rfl
      · rw [hdigits] at hword
        apply List.dropWhile_cons_of_neg
        rw [hword b List.mem_cons_self]
        exact Bool.false_ne_true
    rw [hsecond, hthird, stoll_count]
    rfl

end Line

/-! ### Several confirmations -/

/-- Lines that are neither empty nor end in a line feed are read back exactly if there is no line
feed in them. -/
theorem getLines_lines_iff {ls : List Bytes}
    (hls : ∀ line ∈ ls, line ≠ [] ∧ line.getLast? ≠ some LF) :
    (getLines (lines ls)).length = ls.length ↔ ∀ line ∈ ls, LF ∉ line := by
  rcases List.eq_nil_or_concat' ls with rfl | ⟨front, last, rfl⟩
  · simp [lines, getLines]
  obtain ⟨hne, hfeed⟩ := hls last (List.mem_append_right _ (List.mem_singleton_self _))
  -- a line feed in the last line is not its last byte
  have hlast : LF ∈ last ↔ LF ∈ last.dropLast := by
    rw [← List.dropLast_append_getLast hne, List.mem_append, List.mem_singleton]
    rw [List.getLast?_eq_some_getLast hne] at hfeed
    rw [List.dropLast_append_getLast hne]
    refine or_iff_left fun heq => ?_
    exact hfeed (congrArg some heq.symm)
  rw [length_getLines_lines front hne, Nat.add_eq_right, Nat.add_eq_zero_iff, List.count_eq_zero,
    List.count_eq_zero, List.forall_mem_append, List.forall_mem_singleton, hlast]
  simp

/-- In this case all of them are. -/
theorem getLines_lines_eq {ls : List Bytes} (hls : ∀ line ∈ ls, line ≠ [])
    (hfeed : ∀ line ∈ ls, LF ∉ line) : getLines (lines ls) = ls := by
  rcases List.eq_nil_or_concat' ls with rfl | ⟨front, last, rfl⟩
  · rfl
  · have hlast : last ∈ front ++ [last] := List.mem_append_right _ (List.mem_singleton_self _)
    rw [getLines_lines fun line hline => hfeed line (List.mem_append_left _ hline),
      getLines_of_notMem (hfeed last hlast) (hls last hlast)]

/-- The line of a confirmation ends in a digit. -/
theorem confirmationLine_ends (kind : String) (channel : Bytes) (count : Int32) :
    confirmationLine kind channel count ≠ [] ∧
      (confirmationLine kind channel count).getLast? ≠ some LF := by
  have hne := decimalInt_ne_nil count.toInt
  refine ⟨by simp [confirmationLine, hne], fun hlast => ?_⟩
  rw [confirmationLine, List.getLast?_append_of_ne_nil _ hne] at hlast
  exact notMem_decimalInt _ (List.mem_of_getLast? hlast)

/-- Confirmations begin like a pub/sub message. -/
theorem isPush_confirmations {kind : String} (hkind : kind = "subscribe" ∨ kind = "unsubscribe")
    {results : List (Bytes × Int32)} (hresults : results ≠ []) :
    isPush (confirmations kind results) = true := by
  obtain ⟨rest, hrest⟩ : ∃ rest, confirmations kind results =
      ascii kind ++ ascii " " ++ rest := by
    rcases results with _ | ⟨r, later⟩
    · exact absurd rfl hresults
    · have hfirst : ascii kind ++ ascii " " <+:
          ascii kind ++ ascii " " ++ r.1 ++ ascii " " ++ decimalInt r.2.toInt := by
        rw [List.append_assoc, List.append_assoc]
        exact List.prefix_append _ _
      rcases later with _ | ⟨next, later⟩
      · obtain ⟨rest, hrest⟩ := hfirst
        exact ⟨rest, hrest.symm⟩
      · obtain ⟨rest, hrest⟩ := hfirst.trans (List.prefix_append _ _)
        exact ⟨rest, hrest.symm⟩
  rw [hrest]
  rcases hkind with rfl | rfl
  · have hword : ascii "subscribe" ++ ascii " " = ascii "subscribe " := by decide
    rw [isPush, hword, List.take_left' (by decide)]
    rfl
  · have hword : ascii "unsubscribe" ++ ascii " " = ascii "unsubscribe " := by decide
    rw [isPush, hword, List.take_left' (i := 12) (by decide)]
    simp

/-- Confirmations are sent as they should be exactly if all channels are single words. -/
theorem serializeResponse_confirmations_iff {kind : String}
    (hkind : kind = "subscribe" ∨ kind = "unsubscribe") {results : List (Bytes × Int32)}
    (hresults : results ≠ []) :
    serializeResponse (confirmations kind results) =
        (results.map fun r => confirmation kind r.1 r.2).flatten ↔
      ∀ r ∈ results, IsWord r.1 := by
  have hword : IsWord (ascii kind) ∧ ascii kind ≠ ascii "message" := by
    rcases hkind with rfl | rfl <;> decide
  have hfeed : LF ∉ ascii kind := by
    rcases hkind with rfl | rfl <;> decide
  have hline := fun r : Bytes × Int32 =>
    serializePush_confirmationLine_iff hword.1 r.1 r.2 hword.2
  have hends : ∀ line ∈ results.map fun r => confirmationLine kind r.1 r.2,
      line ≠ [] ∧ line.getLast? ≠ some LF := by
    intro line hmem
    obtain ⟨r, -, rfl⟩ := List.mem_map.mp hmem
    exact confirmationLine_ends kind r.1 r.2
  have htext : confirmations kind results =
      lines (results.map fun r => confirmationLine kind r.1 r.2) := rfl
  rw [serializeResponse_of_isPush (isPush_confirmations hkind hresults), htext]
  constructor
  · intro h
    -- both sides are split into the same values
    have hsplit : ∀ r ∈ results.map fun r => confirmation kind r.1 r.2, RespValue r := by
      intro v hv
      obtain ⟨r, -, rfl⟩ := List.mem_map.mp hv
      exact respValue_confirmation kind r.1 r.2
    have hvalues := split_unique
      ⟨rfl, fun v hv => by
        obtain ⟨line, -, rfl⟩ := List.mem_map.mp hv
        exact respValue_serializePush line⟩ ⟨h.symm, hsplit⟩
    have hlength := congrArg List.length hvalues
    rw [List.length_map, List.length_map] at hlength
    have hfeeds := (getLines_lines_iff hends).mp (hlength.trans (List.length_map _).symm)
    rw [getLines_lines_eq (fun line hl => (hends line hl).1) hfeeds, List.map_map] at hvalues
    intro r hr
    have heq := List.map_inj_left.mp hvalues r hr
    rw [Function.comp_apply] at heq
    exact (hline r).mp heq
  · intro h
    have hfeeds : ∀ line ∈ results.map fun r => confirmationLine kind r.1 r.2, LF ∉ line := by
      intro line hmem hmemfeed
      obtain ⟨r, hr, rfl⟩ := List.mem_map.mp hmem
      have hspace := (h r hr).2 LF ((mem_confirmation_iff hfeed).mp hmemfeed)
      exact absurd hspace (by decide)
    rw [getLines_lines_eq (fun line hl => (hends line hl).1) hfeeds, List.map_map]
    apply congrArg List.flatten
    apply List.map_congr_left
    intro r hr
    rw [Function.comp_apply]
    exact (hline r).mpr (h r hr)

end Resp

namespace Server

/-! ### The replies -/

/-- The arrays that a client should get for its channels and the counts that the manager
returned. -/
def confirmed (kind : String) (channels : List Bytes) (counts : List Int32) : Bytes :=
  (List.zipWith (confirmation kind) channels counts).flatten

/-- The counts belong to the channels one by one. -/
theorem confirmed_eq {channels : List Bytes} {results : List (Bytes × Int32)}
    (h : results.map Prod.fst = channels) (kind : String) :
    confirmed kind channels (results.map Prod.snd) =
      (results.map fun r => confirmation kind r.1 r.2).flatten := by
  rw [confirmed, ← h, List.zipWith_map, List.zipWith_self]

/-- A client that has to give the password first gets an error. -/
theorem head?_reply_of_gated {s : Server} {fd : Socket} (hgated : s.gated fd = true) {cmd : Command}
    (hname : cmd.name ≠ ascii "AUTH") : (s.reply fd cmd).head? = some 45 := by
  have hrespond : (s.respond fd cmd).1 = ascii "NOAUTH Authentication required." := by
    rw [respond, if_pos hgated, if_neg hname]
  rw [reply, hrespond, serializeResponse_of_isError (by decide)]
  rfl

/-- What another client gets for a command that is executed at once. -/
theorem reply_of_allowed {s : Server} {fd : Socket} (hserved : s.gated fd = false) {cmd : Command}
    (hname : CommandHandler.allowedSubscribed cmd.name = true) :
    s.reply fd cmd = serializeResponse ((s.handler fd).executeSingle cmd s.world).1 := by
  rw [reply, respond, hserved, if_neg Bool.false_ne_true,
    CommandHandler.execute_of_allowed rfl hname]

/-- The reply to `PING` with a message. -/
theorem reply_ping_iff (s : Server) (fd : Socket) (message : Bytes) :
    s.reply fd ⟨ascii "PING", [message]⟩ = bulkString message ↔
      s.gated fd = false ∧ PlainText message := by
  cases hgated : s.gated fd with
  | true =>
    refine iff_of_false (fun h => ?_) fun h => Bool.noConfusion h.1
    have hname : ascii "PING" ≠ ascii "AUTH" := by decide
    have hhead : (s.reply fd ⟨ascii "PING", [message]⟩).head? = some 45 :=
      head?_reply_of_gated hgated hname
    rw [h, head?_bulkString] at hhead
    exact absurd hhead (by decide)
  | false =>
    rw [reply_of_allowed hgated (by rfl), CommandHandler.executeSingle_ping _ rfl rfl,
      serializeResponse_eq_bulkString_iff, eq_self_iff_true, true_and]

/-- The replies that consist of confirmations. -/
theorem reply_confirmed_iff {s : Server} {fd : Socket} {cmd : Command} {kind : String}
    (hkind : kind = "subscribe" ∨ kind = "unsubscribe") {results : List (Bytes × Int32)}
    (hname : CommandHandler.allowedSubscribed cmd.name = true) (hargs : cmd.args ≠ [])
    (hfst : results.map Prod.fst = cmd.args)
    (htext : ((s.handler fd).executeSingle cmd s.world).1 = confirmations kind results) :
    s.reply fd cmd = confirmed kind cmd.args (results.map Prod.snd) ↔
      s.gated fd = false ∧ ∀ c ∈ cmd.args, IsWord c := by
  have hresults : results ≠ [] := by
    rintro rfl
    exact hargs hfst.symm
  rw [confirmed_eq hfst]
  cases hgated : s.gated fd with
  | true =>
    refine iff_of_false (fun h => ?_) fun h => Bool.noConfusion h.1
    have hauth : cmd.name ≠ ascii "AUTH" := by
      intro hauth
      rw [hauth] at hname
      exact absurd hname (by decide)
    have hhead := head?_reply_of_gated hgated hauth
    rw [h] at hhead
    rcases results with _ | ⟨r, later⟩
    · exact hresults rfl
    · exact absurd hhead (by simp [confirmation, array, ascii])
  | false =>
    rw [reply_of_allowed hgated hname, htext, serializeResponse_confirmations_iff hkind hresults,
      eq_self_iff_true, true_and, ← hfst, List.forall_mem_map]

/-- **Which texts of a client are repeated faithfully.**  `PING` is answered with its message as a
string exactly for a client that may execute commands and a message that is not taken for another
kind of reply.  `SUBSCRIBE` and `UNSUBSCRIBE` are answered with one array for each channel, with the
name of the channel and the count that the manager returned, exactly for such a client and channels
whose names are single words: not empty and without white space. -/
theorem echoes_iff (s : Server) (fd : Socket) :
    (∀ message, s.reply fd ⟨ascii "PING", [message]⟩ = bulkString message ↔
      s.gated fd = false ∧ PlainText message) ∧
    ∀ channels, channels ≠ [] →
      (s.reply fd ⟨ascii "SUBSCRIBE", channels⟩ = confirmed "subscribe" channels
          ((s.world.pubsub.subscribe fd channels).1.map Prod.snd) ↔
        s.gated fd = false ∧ ∀ c ∈ channels, IsWord c) ∧
      (s.reply fd ⟨ascii "UNSUBSCRIBE", channels⟩ = confirmed "unsubscribe" channels
          ((s.world.pubsub.unsubscribe fd channels).1.map Prod.snd) ↔
        s.gated fd = false ∧ ∀ c ∈ channels, IsWord c) := by
  refine ⟨s.reply_ping_iff fd, fun channels hne => ⟨?_, ?_⟩⟩
  · refine reply_confirmed_iff (Or.inl rfl) (by rfl) hne (map_fst_subscribe _ _ _) ?_
    rw [CommandHandler.executeSingle_subscribe _ rfl, CommandHandler.handleSubscribe, if_neg hne]
    rfl
  · have hunsub : s.world.pubsub.toUnsub fd channels = channels := if_neg hne
    have hfst := (map_fst_unsubscribe (hunsub.trans_ne hne)).trans hunsub
    refine reply_confirmed_iff (Or.inr rfl) (by rfl) hne hfst ?_
    rw [CommandHandler.executeSingle_unsubscribe _ rfl]
    rfl

/-- A message and two channels without anything special. -/
theorem echoes_plain :
    let s := initial.acceptClient 4
    let channels := [ascii "news", ascii "sport"]
    channels ≠ [] ∧ s.reply 4 ⟨ascii "PING", [ascii "hello"]⟩ = bulkString (ascii "hello") ∧
      s.reply 4 ⟨ascii "SUBSCRIBE", channels⟩ = confirmed "subscribe" channels [1, 2] ∧
      s.reply 4 ⟨ascii "UNSUBSCRIBE", channels⟩ = confirmed "unsubscribe" channels [0, 0] := by
  intro s channels
  have hne : channels ≠ [] := List.cons_ne_nil _ _
  have hwords : ∀ c ∈ channels, IsWord c := by decide
  obtain ⟨hping, hchannels⟩ := echoes_iff s 4
  obtain ⟨hsubscribe, hunsubscribe⟩ := hchannels channels hne
  refine ⟨hne, (hping (ascii "hello")).mpr ⟨by decide, by decide⟩, ?_, ?_⟩
  · exact hsubscribe.mpr ⟨by decide, hwords⟩
  · exact hunsubscribe.mpr ⟨by decide, hwords⟩

/-- A message that looks like a status, and a channel of two words: the client is told that it
subscribed to a channel `a`, with a text in the place of the count. -/
theorem echoes_changed :
    let s := initial.acceptClient 4
    s.reply 4 ⟨ascii "PING", [ascii "OK"]⟩ = simpleString (ascii "OK") ∧
      s.reply 4 ⟨ascii "PING", [ascii "OK"]⟩ ≠ bulkString (ascii "OK") ∧
      (s.world.pubsub.subscribe 4 [ascii "a b"]).1 = [(ascii "a b", 1)] ∧
      s.reply 4 ⟨ascii "SUBSCRIBE", [ascii "a b"]⟩ =
        array [bulkString (ascii "subscribe"), bulkString (ascii "a"),
          bulkString (ascii "b 1")] ∧
      s.reply 4 ⟨ascii "SUBSCRIBE", [ascii "a b"]⟩ ≠ confirmed "subscribe" [ascii "a b"] [1] := by
  decide

end Server

end MyRedis
