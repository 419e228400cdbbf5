import MyRedis.Client.Reader
import MyRedis.Commands.ExecReplies
import MyRedis.Database.Readings
import MyRedis.Database.Slicing
import MyRedis.Server.Transactions

/-!
# What a client gets back

Values travel as untyped text from the handlers to `serialize_response`, which has to guess what
they are.  A single string is between quotation marks and comes back as it was stored, whatever it
looks like (`Server.values_come_back`); the exception is an index from the end into a list whose
size does not fit into an `int`.  The elements of a list are torn apart at line feeds
(`Server.lists_come_back_iff`).
-/

namespace MyRedis

open Foundation Resp

/-! ### The last element of a list -/

/-- The element that the index `-1` stands for: the size of the list is cut to 32 bits first. -/
theorem Database.element_neg_one (l : List Bytes) :
    element l (-1) =
      if 0 < l.length % 2 ^ 32 ∧ l.length % 2 ^ 32 < 2 ^ 31 then l[l.length % 2 ^ 32 - 1]?
      else none := by
  rw [element_eq_ite]
  unfold translated
  have hneg : ((-1 : Int32) < 0) := by decide
  have hlen : (Int32.ofNat l.length).toInt = (l.length : ℤ).bmod (2 ^ 32) := Int32.toInt_ofNat'
  have hone : (-1 : Int32).toInt = -1 := by decide
  have hindex : (Int32.ofNat l.length + -1).toInt =
      ((l.length : ℤ).bmod (2 ^ 32) + -1).bmod (2 ^ 32) := by
    rw [Int32.toInt_add, hlen, hone]
  simp only [hneg, if_true, hindex, hlen]
  generalize hn : l.length = n
  have hsize : (n : ℤ).bmod (2 ^ 32) =
      if n % 2 ^ 32 < 2 ^ 31 then ((n % 2 ^ 32 : ℕ) : ℤ) else ((n % 2 ^ 32 : ℕ) : ℤ) - 2 ^ 32 := by
    rw [Int.bmod_eq_emod]
    split <;> split <;> omega
  have hlt : n % 2 ^ 32 < 2 ^ 32 := Nat.mod_lt _ (by norm_num)
  generalize n % 2 ^ 32 = m at hsize hlt ⊢
  by_cases hsmall : m < 2 ^ 31
  · rw [if_pos hsmall] at hsize
    have hlast : ((m : ℤ) + -1).bmod (2 ^ 32) = (m : ℤ) - 1 := by
      rw [Int.bmod_eq_emod]
      split <;> omega
    rw [hsize, hlast]
    by_cases hpos : 0 < m
    · have hindex : ((m : ℤ) - 1).toNat = m - 1 := by omega
      rw [if_pos (by omega), if_pos ⟨hpos, hsmall⟩, hindex]
    · rw [if_neg (by omega), if_neg fun h => hpos h.1]
  · -- the size is negative: the index is, too, or it has become positive and is above the size
    rw [if_neg hsmall] at hsize
    have hneg : ¬ ((0 : ℤ) ≤ ((m : ℤ) - 2 ^ 32 + -1).bmod (2 ^ 32) ∧
        ((m : ℤ) - 2 ^ 32 + -1).bmod (2 ^ 32) < (m : ℤ) - 2 ^ 32) := by
      omega
    rw [hsize, if_neg hneg, if_neg fun h => hsmall h.2]

/-- The last element of a list is found from the end: the size of the list, cut to 32 bits, is a
positive `int`, and the element at that place is the last one or equal to it. -/
def LastReached (before : List Bytes) (v : Bytes) : Prop :=
  0 < (before.length + 1) % 2 ^ 32 ∧ (before.length + 1) % 2 ^ 32 < 2 ^ 31 ∧
    (before ++ [v])[(before.length + 1) % 2 ^ 32 - 1]? = some v

theorem element_neg_one_eq_iff {before : List Bytes} {v : Bytes} :
    Database.element (before ++ [v]) (-1) = some v ↔ LastReached before v := by
  rw [Database.element_neg_one, List.length_append, List.length_singleton, LastReached]
  split
  · rename_i h
    rw [and_iff_right h.1, and_iff_right h.2]
  · rename_i h
    refine iff_of_false (by simp) fun hreached => h ⟨hreached.1, hreached.2.1⟩

/-- It is found in every list whose size fits into an `int`. -/
theorem lastReached_of_lt {before : List Bytes} (h : before.length + 1 < 2 ^ 31) (v : Bytes) :
    LastReached before v := by
  have hmod : (before.length + 1) % 2 ^ 32 = before.length + 1 := Nat.mod_eq_of_lt (by omega)
  refine ⟨by omega, by omega, ?_⟩
  rw [hmod, Nat.add_sub_cancel, List.getElem?_concat_length]

namespace Server

/-! ### Commands of a client that is served -/

/-- The client is not stopped by the password and is not subscribed. -/
structure Served (s : Server) (fd : Socket) : Prop where
  /-- The password. -/
  gate : s.gated fd = false
  /-- The subscriptions. -/
  mode : s.world.pubsub.isSubscribed fd = false

section Served

variable {s : Server} {fd : Socket} (hserved : s.Served fd) {cmd : Command}
  (hname : CommandHandler.isTransactional cmd.name = false)
include hserved hname

/-- Its commands are executed at once. -/
theorem Served.execute :
    (s.handler fd).execute cmd s.world =
      (((s.handler fd).executeSingle cmd s.world).1, s.handler fd,
        ((s.handler fd).executeSingle cmd s.world).2) := by
  have hmode : (s.handler fd).inSubscriptionMode s.world = false := hserved.mode
  rw [CommandHandler.execute_other hmode cmd hname]
  rfl

/-- The reply to a command. -/
theorem Served.reply_eq :
    s.reply fd cmd = serializeResponse ((s.handler fd).executeSingle cmd s.world).1 := by
  rw [reply, respond_of_not_gated hserved.gate, hserved.execute hname]

/-- The world after a command, up to what was sent. -/
theorem Served.world_serve :
    ∃ net, (s.serve fd cmd).2.world =
      { ((s.handler fd).executeSingle cmd s.world).2 with net := net } := by
  refine ⟨(s.serve fd cmd).2.world.net, ?_⟩
  rw [serve, respond_of_not_gated hserved.gate, hserved.execute hname]
  rfl

/-- After a command that does not change the subscriptions the client is still served. -/
theorem Served.serve
    (hpubsub : ((s.handler fd).executeSingle cmd s.world).2.pubsub = s.world.pubsub) :
    (s.serve fd cmd).2.Served fd := by
  obtain ⟨net, hworld⟩ := hserved.world_serve hname
  constructor
  · have hgate : (s.serve fd cmd).2.gated fd = (s.respond fd cmd).2.gated fd := rfl
    rw [hgate, respond_of_not_gated hserved.gate]
    exact hserved.gate
  · rw [hworld]
    exact (congrArg (fun p => p.isSubscribed fd) hpubsub).trans hserved.mode

end Served

/-! ### Steps that a client does not notice -/

/-- The steps between two commands of a client: the clients of other sockets come and go, reads end,
keys expire and hash maps are reordered. -/
def Event.Quiet (fd : Socket) : Event → Prop
  | .command _ _ => False
  | .accept fd' | .quit fd' | .reject fd' | .disconnect fd' => fd' ≠ fd
  | .buffer _ _ | .scan | .reorder _ _ => True

/-- One server comes from another by such steps. -/
def LeadsQuietly (fd : Socket) (s s' : Server) : Prop :=
  ∃ past, Trace Step s past s' ∧ ∀ p ∈ past, p.2.Quiet fd

/-- What such steps keep. -/
structure Undisturbed (fd : Socket) (s s' : Server) : Prop where
  /-- The client is still served. -/
  served : s'.Served fd
  /-- The clock is steady. -/
  clock : SteadyClock s'.world.clock
  /-- Time does not go backwards. -/
  now_le : s.world.now ≤ s'.world.now
  /-- The keys whose deadlines have not passed. -/
  cell : ∀ key, (s.world.db.cell key).expired s'.world.now = false →
    s'.world.db.cell key = s.world.db.cell key

/-- No time passes, and neither the database nor the subscriptions of the client change. -/
theorem Undisturbed.of_same {fd : Socket} {s s' : Server} (hserved : s'.Served fd)
    (hsteady : SteadyClock s.world.clock) (hclock : s'.world.clock = s.world.clock)
    (hcell : s'.world.db.cell = s.world.db.cell) : Undisturbed fd s s' where
  served := hserved
  clock := hclock ▸ hsteady
  now_le := by rw [World.now, World.now, hclock]
  cell := fun key _ => by rw [hcell]

/-- One quiet step. -/
theorem Step.undisturbed {s s' : Server} {e : Event} (h : Step s e s') {fd : Socket}
    (hquiet : e.Quiet fd) (hserved : s.Served fd) (hclock : SteadyClock s.world.clock) :
    Undisturbed fd s s' := by
  have hgate : s'.gated fd = false := by
    refine h.not_gated ?_ ?_ hserved.gate
    · rintro rfl
      exact hquiet rfl
    · rintro rfl
      exact hquiet rfl
  cases h with
  | command => exact absurd hquiet id
  | accept | quit | reject | buffer =>
    exact .of_same ⟨hgate, hserved.mode⟩ hclock rfl rfl
  | disconnect fd' =>
    refine .of_same ⟨hgate, ?_⟩ hclock rfl rfl
    rw [Bool.eq_false_iff, ne_eq, PubSubManager.isSubscribed_iff]
    rintro ⟨c, hc⟩
    have hbefore : s.world.pubsub.isSubscribed fd = true :=
      PubSubManager.isSubscribed_iff.mpr
        ⟨c, ((PubSubManager.hasChannel_clientDisconnected fd').mp hc).1⟩
    rw [hserved.mode] at hbefore
    cases hbefore
  | scan =>
    have hnow : s.world.now ≤ s.world.scan.now := hclock.across 0 0
    refine ⟨⟨hgate, hserved.mode⟩, hclock.tail, hnow, fun key hexpired => ?_⟩
    have hscan : s.world.scan.db.cell key = if key ∈ s.world.db.scanned s.world.now then Cell.empty
        else s.world.db.cell key := congrFun (Database.cell_expiryScan _ _) key
    refine hscan.trans (if_neg fun hmem => ?_)
    have hlater := Cell.expired_of_le hnow (Database.expired_of_mem_scanned hmem)
    rw [hexpired] at hlater
    cases hlater
  | reorder hreordered hpubsub =>
    exact .of_same ⟨hgate, (hpubsub.isSubscribed_eq fd).trans hserved.mode⟩ hclock rfl
      hreordered.cell_eq

/-- Any number of quiet steps. -/
theorem LeadsQuietly.undisturbed {fd : Socket} {s s' : Server} (h : LeadsQuietly fd s s')
    (hserved : s.Served fd) (hclock : SteadyClock s.world.clock) : Undisturbed fd s s' := by
  obtain ⟨past, htrace, hquiet⟩ := h
  induction htrace with
  | nil => exact .of_same hserved hclock rfl rfl
  | @snoc past s₁ s₂ e _ hstep ih =>
    have hbefore := ih fun p hp => hquiet p (List.mem_append_left _ hp)
    have hlast := hstep.undisturbed (hquiet (s₁, e) (by simp)) hbefore.served hbefore.clock
    refine ⟨hlast.served, hlast.clock, hbefore.now_le.trans hlast.now_le, fun key hexpired => ?_⟩
    have hearlier : (s.world.db.cell key).expired s₁.world.now = false := by
      by_contra hexp
      have hlater := Cell.expired_of_le hlast.now_le (Bool.not_eq_false _ ▸ hexp)
      rw [hexpired] at hlater
      cases hlater
    have hsame := hbefore.cell key hearlier
    rw [hlast.cell key (by rw [hsame]; exact hexpired), hsame]

/-! ### Strings come back -/

/-- A command that calls one operation of the database, and what a later command of the client finds
under a key whose deadline has not passed. -/
theorem Served.cell_of_call {s s' : Server} {fd : Socket} (hserved : s.Served fd)
    (hclock : SteadyClock s.world.clock) {cmd : Command}
    (hname : CommandHandler.isTransactional cmd.name = false) (op : DbOp)
    (hcall : ((s.handler fd).executeSingle cmd s.world).2 = (s.world.call op).2)
    (hquiet : LeadsQuietly fd (s.serve fd cmd).2 s') {key : Bytes} {c : Cell}
    (hcell : (op.run (s.world.clock 0) s.world.db).2.cell key = c)
    (halive : c.expired s'.world.now = false) :
    s'.Served fd ∧ (s'.world.db.cell key).purge s'.world.now = c := by
  obtain ⟨net, hworld⟩ := hserved.world_serve hname
  rw [hcall] at hworld
  have hafter : (s.serve fd cmd).2.Served fd := hserved.serve hname (by rw [hcall]; rfl)
  have hsteady : SteadyClock (s.serve fd cmd).2.world.clock := by
    rw [hworld]
    exact hclock.tail
  have hkept := hquiet.undisturbed hafter hsteady
  have hfound : (s.serve fd cmd).2.world.db.cell key = c := by
    rw [hworld]
    exact hcell
  refine ⟨hkept.served, ?_⟩
  rw [hkept.cell key (by rw [hfound]; exact halive), hfound, Cell.purge, if_neg (by simp [halive])]

/-- A command that reads a string is answered with it. -/
theorem Served.reply_of_readsString {s : Server} {fd : Socket} (hserved : s.Served fd)
    {cmd : Command} (hname : CommandHandler.isTransactional cmd.name = false) {v : Bytes}
    (hreads : CommandHandler.ReadsString cmd s.world v) : s.reply fd cmd = bulkString v := by
  rw [hserved.reply_eq hname, hreads.response, serializeResponse_quoted]

/-- The absent string is not a string. -/
theorem nullBulkString_ne (v : Bytes) : nullBulkString ≠ bulkString v := by
  intro h
  simp only [nullBulkString, bulkString, List.append_assoc] at h
  have hminus : ascii "$-1" = ascii "$" ++ ascii "-1" := by decide
  rw [hminus, List.append_assoc, List.append_cancel_left_eq] at h
  have hline := line_append_inj (x := ascii "-1") (s := []) (by decide)
    (not_crlf_infix_decimal v.length) (by simpa using h)
  exact decimal_ne_minus_one _ hline.1.symm

/-- An optional string is answered with a string if it is that string. -/
theorem serializeResponse_optionalText_eq_iff {o : Option Bytes} {v : Bytes} :
    serializeResponse (optionalText o) = bulkString v ↔ o = some v := by
  rcases o with _ | x
  · have hnil : serializeResponse (optionalText none) = nullBulkString := by decide
    rw [hnil]
    exact iff_of_false (nullBulkString_ne v) (by simp)
  · rw [optionalText, serializeResponse_quoted, bulkString_injective.eq_iff, Option.some_inj]

section Commands

variable (key v : Bytes)

/-- `SET key v`. -/
def setCommand : Command := ⟨ascii "SET", [key, v]⟩

/-- `GET key`. -/
def getCommand : Command := ⟨ascii "GET", [key]⟩

/-- `LPUSH key v`. -/
def lpushCommand : Command := ⟨ascii "LPUSH", [key, v]⟩

/-- `LPOP key`. -/
def lpopCommand : Command := ⟨ascii "LPOP", [key]⟩

/-- `RPUSH key v`. -/
def rpushCommand : Command := ⟨ascii "RPUSH", [key, v]⟩

/-- `RPOP key`. -/
def rpopCommand : Command := ⟨ascii "RPOP", [key]⟩

/-- `LINDEX key -1`. -/
def lastCommand : Command := ⟨ascii "LINDEX", [key, ascii "-1"]⟩

/-- The commands that write and read a string. -/
def valueCommands : List Command :=
  [setCommand key v, getCommand key, lpushCommand key v, lpopCommand key, rpushCommand key v,
    rpopCommand key, lastCommand key]

/-- All of them are read back from the bytes of their RESP arrays. -/
theorem parseCommand_valueCommands (hkey : key.length < 2 ^ 31) (hv : v.length < 2 ^ 31)
    {cmd : Command} (hcmd : cmd ∈ valueCommands key v) (rest : Bytes) :
    parseCommand (cmd.encode ++ rest) = .ok cmd cmd.encode.length := by
  have hnames : ∀ name ∈ (valueCommands [] []).map Command.name,
      name.map toUpper = name ∧ name.length < 2 ^ 31 := by
    decide
  have hname : cmd.name ∈ (valueCommands key v).map Command.name := List.mem_map_of_mem hcmd
  have hsame : (valueCommands key v).map Command.name =
      (valueCommands [] []).map Command.name := rfl
  rw [hsame] at hname
  have hargs : cmd.args.length ≤ 2 ∧ ∀ arg ∈ cmd.args, arg ∈ [key, v, ascii "-1"] := by
    simp only [valueCommands, List.mem_cons, List.not_mem_nil, or_false] at hcmd
    rcases hcmd with rfl | rfl | rfl | rfl | rfl | rfl | rfl
    all_goals
      simp [setCommand, getCommand, lpushCommand, lpopCommand, rpushCommand, rpopCommand,
        lastCommand]
  have hindex : (ascii "-1").length < 2 ^ 31 := by decide
  have hlength : ∀ arg ∈ [key, v, ascii "-1"], arg.length < 2 ^ 31 :=
    List.forall_mem_cons.mpr ⟨hkey,
      List.forall_mem_cons.mpr ⟨hv, List.forall_mem_singleton.mpr hindex⟩⟩
  have hsendable : Sendable (cmd.name :: cmd.args) := by
    refine ⟨List.cons_ne_nil _ _, ?_, List.forall_mem_cons.mpr ⟨(hnames _ hname).2, ?_⟩⟩
    · rw [List.length_cons]
      omega
    · exact fun arg harg => hlength arg (hargs.2 arg harg)
  have hparse := parseCommand_encode hsendable rest
  rwa [(hnames _ hname).1] at hparse

end Commands

/-- The cell of a key that holds no string after a push of one value. -/
theorem cell_push_one (ins : List Bytes → Bytes → List Bytes) {db : Database} {now : TimePoint}
    {key : Bytes} (hstr : ((db.cell key).purge now).str = none) (v : Bytes) :
    (Database.push ins now key [v] db).2.cell key =
      { (db.cell key).purge now with
        list := some (ins (((db.cell key).purge now).list.getD []) v) } := by
  rw [Database.cell_push, Function.update_self, Cell.push, hstr]
  rfl

section RoundTrips

variable {s s' : Server} {fd : Socket} (hserved : s.Served fd) (hclock : SteadyClock s.world.clock)
  {key v : Bytes}
include hserved hclock

/-- What `SET` has stored is found by `GET`. -/
theorem reply_get (hquiet : LeadsQuietly fd (s.serve fd (setCommand key v)).2 s') :
    s'.reply fd (getCommand key) = bulkString v := by
  have hcell : (s.world.db.set key v).cell key = ⟨some v, none, none⟩ := by
    rw [Database.cell_set, Function.update_self]
  obtain ⟨hserved', hfound⟩ :=
    hserved.cell_of_call hclock rfl (.set key v) rfl hquiet hcell rfl
  refine hserved'.reply_of_readsString rfl (.get rfl rfl ?_)
  rw [hfound]

variable (hstr : ((s.world.db.cell key).purge s.world.now).str = none)
  (halive : ((s.world.db.cell key).purge s.world.now).expired s'.world.now = false)
include hstr halive

/-- What `LPUSH` has put in front is found by `LPOP`. -/
theorem reply_lpop (hquiet : LeadsQuietly fd (s.serve fd (lpushCommand key v)).2 s') :
    s'.reply fd (lpopCommand key) = bulkString v := by
  obtain ⟨hserved', hfound⟩ := hserved.cell_of_call hclock rfl (.lpush key [v]) rfl hquiet
    (cell_push_one _ hstr v) halive
  refine hserved'.reply_of_readsString rfl (.lpop rfl rfl ?_)
  rw [hfound]
  rfl

/-- What `RPUSH` has put at the end is found by `RPOP`, and by `LINDEX` if the end is reached. -/
theorem reply_rpop_and_lindex (hquiet : LeadsQuietly fd (s.serve fd (rpushCommand key v)).2 s') :
    s'.reply fd (rpopCommand key) = bulkString v ∧
      (s'.reply fd (lastCommand key) = bulkString v ↔
        LastReached (((s.world.db.cell key).purge s.world.now).list.getD []) v) := by
  obtain ⟨hserved', hfound⟩ := hserved.cell_of_call hclock rfl (.rpush key [v]) rfl hquiet
    (cell_push_one _ hstr v) halive
  constructor
  · refine hserved'.reply_of_readsString rfl (.rpop rfl rfl ?_)
    rw [hfound, Option.bind_some, List.getLast?_concat]
  · have hresult : (s'.world.db.lindex s'.world.now key (-1)).1 =
        Database.element (((s.world.db.cell key).purge s.world.now).list.getD [] ++ [v]) (-1) := by
      rw [Database.lindex_result, hfound, Option.bind_some]
    have hreply : s'.reply fd (lastCommand key) =
        serializeResponse (optionalText (s'.world.db.lindex s'.world.now key (-1)).1) :=
      hserved'.reply_eq rfl
    rw [hreply, hresult, serializeResponse_optionalText_eq_iff, element_neg_one_eq_iff]

end RoundTrips

/-- **Strings come back.**  A client that is served, for every key and every string of lengths that
fit into an `int`: after `SET`, and any steps of others in between that are not commands, `GET` is
answered with exactly the string.  After `LPUSH` or `RPUSH` to a key that is not a live string, and
as long as its deadline does not pass, so are `LPOP` and `RPOP`; `LINDEX` with the index `-1` is
answered with the string if and only if the end of the list is reached, as it is in every list whose
size fits into an `int`.  All these commands are read from the bytes of their RESP arrays, and the
client shows the string between quotation marks. -/
theorem values_come_back {s s' : Server} {fd : Socket} (hserved : s.Served fd)
    (hclock : SteadyClock s.world.clock) {key v : Bytes} (hkey : key.length < 2 ^ 31)
    (hv : v.length < 2 ^ 31) :
    (LeadsQuietly fd (s.serve fd (setCommand key v)).2 s' →
        s'.reply fd (getCommand key) = bulkString v) ∧
      (((s.world.db.cell key).purge s.world.now).str = none →
        ((s.world.db.cell key).purge s.world.now).expired s'.world.now = false →
          (LeadsQuietly fd (s.serve fd (lpushCommand key v)).2 s' →
            s'.reply fd (lpopCommand key) = bulkString v) ∧
          (LeadsQuietly fd (s.serve fd (rpushCommand key v)).2 s' →
            s'.reply fd (rpopCommand key) = bulkString v ∧
            (s'.reply fd (lastCommand key) = bulkString v ↔
              LastReached (((s.world.db.cell key).purge s.world.now).list.getD []) v))) ∧
      (∀ cmd ∈ valueCommands key v, ∀ rest,
        parseCommand (cmd.encode ++ rest) = .ok cmd cmd.encode.length) ∧
      ∀ rest, Client.parseRespValue (bulkString v ++ rest) =
        some (quoted v, (bulkString v).length) := by
  refine ⟨reply_get hserved hclock, fun hstr halive => ⟨reply_lpop hserved hclock hstr halive,
    reply_rpop_and_lindex hserved hclock hstr halive⟩, ?_, Client.parseRespValue_bulkString hv⟩
  intro cmd hcmd rest
  exact parseCommand_valueCommands key v hkey hv hcmd rest

/-- A string that looks like other replies, and a list. -/
theorem values_come_back_nil :
    let v := ascii "(nil)\r\n$-1\r\n"
    (connected.serve 4 (setCommand [] v)).2.reply 4 (getCommand []) = bulkString v ∧
      (connected.serve 4 (rpushCommand [] v)).2.reply 4 (rpopCommand []) = bulkString v ∧
      (connected.serve 4 (rpushCommand [] v)).2.reply 4 (lastCommand []) = bulkString v := by
  intro v
  have hserved : connected.Served 4 := ⟨by decide, by decide⟩
  have hclock : SteadyClock connected.world.clock := World.initial_valid.clock
  have hquiet (s : Server) : LeadsQuietly 4 s s := ⟨[], Trace.nil, by simp⟩
  have hreached :
      LastReached (((connected.world.db.cell []).purge connected.world.now).list.getD []) v :=
    lastReached_of_lt (by decide) v
  have hkey : ([] : Bytes).length < 2 ^ 31 := by decide
  have hv : v.length < 2 ^ 31 := by decide
  have hset := (values_come_back hserved hclock hkey hv).1 (hquiet _)
  have hpush := ((values_come_back hserved hclock hkey hv).2.1 rfl rfl).2 (hquiet _)
  exact ⟨hset, hpush.1, hpush.2.mpr hreached⟩

/-! ### A list that is too long -/

/-- The list of a key without a deadline after pushes of the same value. -/
theorem cell_after_rpushes {s : Server} {fd : Socket} (hserved : s.Served fd) {key : Bytes}
    (v : Bytes) {before : List Bytes} (hcell : s.world.db.cell key = ⟨none, some before, none⟩)
    (n : ℕ) :
    let s' := s.after fd (List.replicate n (rpushCommand key v))
    s'.Served fd ∧ s'.world.db.cell key = ⟨none, some (before ++ List.replicate n v), none⟩ := by
  induction n generalizing s before with
  | zero =>
    have hnone : before ++ List.replicate 0 v = before := List.append_nil _
    rw [hnone]
    exact ⟨hserved, hcell⟩
  | succ n ih =>
    have hplain : CommandHandler.isTransactional (rpushCommand key v).name = false := rfl
    obtain ⟨net, hworld⟩ := hserved.world_serve hplain
    have hnext : (s.serve fd (rpushCommand key v)).2.world.db.cell key =
        ⟨none, some (before ++ [v]), none⟩ := by
      have hpurge : (s.world.db.cell key).purge (s.world.clock 0 0) =
          ⟨none, some before, none⟩ := by
        rw [hcell]
        rfl
      rw [hworld]
      refine (cell_push_one _ (by rw [hpurge]) v).trans ?_
      rw [hpurge]
      rfl
    have hrest := ih (hserved.serve rfl rfl) hnext
    rw [List.append_assoc, List.singleton_append, ← List.replicate_succ] at hrest
    exact hrest

/-- After `2 ^ 31` pushes the last element is popped, but it is not found from the end. -/
theorem lindex_misses_last_of_long_list :
    let s := connected.after 4 (List.replicate (2 ^ 31) (rpushCommand (ascii "l") (ascii "v")))
    s.reply 4 (rpopCommand (ascii "l")) = bulkString (ascii "v") ∧
      s.reply 4 (lastCommand (ascii "l")) = nullBulkString ∧
      s.reply 4 (lastCommand (ascii "l")) ≠ bulkString (ascii "v") := by
  obtain ⟨n, hn⟩ : ∃ n, 2 ^ 31 = n + 1 := ⟨2147483647, by norm_num⟩
  rw [hn, List.replicate_succ]
  intro s
  have hserved : connected.Served 4 := ⟨by decide, by decide⟩
  have hfirst :
      (connected.serve 4 (rpushCommand (ascii "l") (ascii "v"))).2.world.db.cell (ascii "l") =
        ⟨none, some [ascii "v"], none⟩ := by
    decide
  obtain ⟨hs, hcell⟩ : s.Served 4 ∧ s.world.db.cell (ascii "l") =
      ⟨none, some ([ascii "v"] ++ List.replicate n (ascii "v")), none⟩ :=
    cell_after_rpushes (hserved.serve rfl rfl) (ascii "v") hfirst n
  have hpurge : (s.world.db.cell (ascii "l")).purge s.world.now =
      ⟨none, some ([ascii "v"] ++ List.replicate n (ascii "v")), none⟩ := by
    rw [hcell]
    rfl
  have hmiss : (s.world.db.lindex s.world.now (ascii "l") (-1)).1 = none := by
    rw [Database.lindex_result, hpurge, Option.bind_some, Database.element_neg_one, if_neg]
    rw [List.length_append, List.length_replicate, List.length_singleton, Nat.add_comm, ← hn]
    norm_num
  have hreply : s.reply 4 (lastCommand (ascii "l")) =
      serializeResponse (optionalText (s.world.db.lindex s.world.now (ascii "l") (-1)).1) :=
    hs.reply_eq rfl
  rw [hmiss] at hreply
  have hnil : s.reply 4 (lastCommand (ascii "l")) = nullBulkString := hreply.trans (by decide)
  refine ⟨hs.reply_of_readsString rfl (.rpop rfl rfl ?_), hnil, ?_⟩
  · rw [hpurge, Option.bind_some, List.getLast?_append, List.getLast?_replicate]
    split <;> rfl
  · rw [hnil]
    exact nullBulkString_ne _

/-! ### Lists come back -/

/-- `LRANGE key first last`. -/
def lrangeCommand (key first last : Bytes) : Command := ⟨ascii "LRANGE", [key, first, last]⟩

/-- `KEYS`, whose arguments are not looked at. -/
def keysCommand (args : List Bytes) : Command := ⟨ascii "KEYS", args⟩

/-- **Lists come back.**  For a client that is served, the bytes that are sent for an `LRANGE` with
numbers as its range are the array of the elements that the database has returned, as bulk strings,
if and only if none of these elements contains a line feed; and so it is with the keys of `KEYS`. -/
theorem lists_come_back_iff {s : Server} {fd : Socket} (hserved : s.Served fd) :
    (∀ {key first last : Bytes} {start stop : Int32}, stoi first = some start →
        stoi last = some stop →
          (s.reply fd (lrangeCommand key first last) =
              array ((s.world.db.lrange s.world.now key start stop).1.map bulkString) ↔
            ∀ e ∈ (s.world.db.lrange s.world.now key start stop).1, LF ∉ e)) ∧
      ∀ args, s.reply fd (keysCommand args) =
          array ((s.world.db.keys (s.world.clock 0)).1.map bulkString) ↔
        ∀ key ∈ (s.world.db.keys (s.world.clock 0)).1, LF ∉ key := by
  constructor
  · intro key first last start stop hstart hstop
    have hresponse : ((s.handler fd).executeSingle (lrangeCommand key first last) s.world).1 =
        listText (s.world.db.lrange s.world.now key start stop).1 := by
      have hsingle : (s.handler fd).executeSingle (lrangeCommand key first last) s.world =
          CommandHandler.handleLrange (lrangeCommand key first last) s.world := rfl
      rw [hsingle]
      simp only [CommandHandler.handleLrange, lrangeCommand, hstart, hstop]
      rfl
    rw [hserved.reply_eq rfl, hresponse, serializeResponse_listText_iff]
  · intro args
    have hresponse : ((s.handler fd).executeSingle (keysCommand args) s.world).1 =
        listText (s.world.db.keys (s.world.clock 0)).1 := rfl
    rw [hserved.reply_eq rfl, hresponse, serializeResponse_listText_iff]

/-- A list whose elements look like numbered lines. -/
theorem lists_come_back_numbers :
    let s := (connected.serve 4 ⟨ascii "RPUSH", [ascii "l", ascii "1) \"a\"", [], ascii "\r"]⟩).2
    s.reply 4 (lrangeCommand (ascii "l") (ascii "0") (ascii "-1")) =
        array [bulkString (ascii "1) \"a\""), bulkString [], bulkString (ascii "\r")] ∧
      s.reply 4 (keysCommand [ascii "*"]) = array [bulkString (ascii "l")] := by
  intro s
  have hserved : s.Served 4 := ⟨by decide, by decide⟩
  have hzero : stoi (ascii "0") = some 0 := by decide
  have hminus : stoi (ascii "-1") = some (-1) := by decide
  have hlists := lists_come_back_iff hserved
  refine ⟨(hlists.1 hzero hminus).mpr ?_, (hlists.2 _).mpr (by decide)⟩
  decide

/-- An element with a line feed comes back as two elements with a quotation mark each, although
`LINDEX` gives it back as it is; and so does a key. -/
theorem lists_are_torn_at_line_feeds :
    let s := (connected.serve 4 (rpushCommand (ascii "a\nb") (ascii "c\nd"))).2
    (s.world.db.lrange s.world.now (ascii "a\nb") 0 (-1)).1 = [ascii "c\nd"] ∧
      s.reply 4 (lrangeCommand (ascii "a\nb") (ascii "0") (ascii "-1")) =
        array [bulkString (ascii "\"c"), bulkString (ascii "d\"")] ∧
      s.reply 4 (lrangeCommand (ascii "a\nb") (ascii "0") (ascii "-1")) ≠
        array [bulkString (ascii "c\nd")] ∧
      s.reply 4 (lastCommand (ascii "a\nb")) = bulkString (ascii "c\nd") ∧
      (s.world.db.keys (s.world.clock 0)).1 = [ascii "a\nb"] ∧
      s.reply 4 (keysCommand []) = array [bulkString (ascii "\"a"), bulkString (ascii "b\"")] ∧
      s.reply 4 (keysCommand []) ≠ array [bulkString (ascii "a\nb")] := by
  decide

end Server

end MyRedis
