import MyRedis.Commands.Subscriptions

/-!
# Commands as plans

What a single command asks for is written down as a `Plan`: a query, which is a text to say, an
operation of the database whose result is turned into a text, or a look at the clock, or else a save
or a call of the pub/sub manager.  The table `Plan.table` has the plan for every name and every list
of arguments, and `CommandHandler.executeSingle_eq_run` says that `execute_single` runs the plan of
its command.

A plan has a second reading that knows nothing of hash maps, purging reads and files; it is the
subject of `MyRedis.Server.Service`.
-/

namespace MyRedis

open Foundation Resp PubSubManager

/-! ### Queries -/

/-- What a command that only concerns the database asks for. -/
inductive Query where
  /-- Answer with a text. -/
  | say (text : Bytes)
  /-- Carry out an operation and answer with a text made from its result. -/
  | ask (op : DbOp) (text : DbResult → Bytes)
  /-- Carry out an operation and go on, whatever its result is. -/
  | first (op : DbOp) (next : Query)
  /-- Look at the clock and go on. -/
  | readClock (next : TimePoint → Query)

namespace Query

/-- Run a query. -/
def run : Query → World → Bytes × World
  | say text, w => (text, w)
  | ask op text, w => (text (w.call op).1, (w.call op).2)
  | first op next, w => next.run (w.call op).2
  | readClock next, w => (next w.now).run w.tick

/-- The pushes of a query have at least one value. -/
def Allowed : Query → Prop
  | say _ => True
  | ask op _ => op.PushesSomething
  | first op next => op.PushesSomething ∧ next.Allowed
  | readClock next => ∀ t, (next t).Allowed

/-- `PING`. -/
def ping : List Bytes → Query
  | [] => say (ascii "PONG")
  | message :: _ => say message

/-- The option `EX` of `SET`. -/
def setOption (key : Bytes) : List Bytes → Query
  | option :: seconds :: _ =>
    if option.map toUpper = ascii "EX" then
      match stoi seconds with
      | none => say notInteger
      | some seconds =>
        if seconds ≤ 0 then say (invalidExpire "SET")
        else ask (.expire key seconds) fun _ => ascii "OK"
    else say (ascii "OK")
  | _ => say (ascii "OK")

/-- `SET`. -/
def set : List Bytes → Query
  | key :: value :: options => first (.set key value) (setOption key options)
  | _ => say (wrongArguments "SET")

/-- A command with one key. -/
def ofKey (name : String) (op : Bytes → DbOp) (text : DbResult → Bytes) : List Bytes → Query
  | [key] => ask (op key) text
  | _ => say (wrongArguments name)

/-- A command with any number of keys, but at least one. -/
def ofKeyList (name : String) (op : List Bytes → DbOp) (keys : List Bytes) : Query :=
  if keys = [] then say (wrongArguments name)
  else ask (op keys) fun r => integerText r.toInt.toInt

/-- `EXPIRE`. -/
def expire : List Bytes → Query
  | [key, seconds] =>
    match stoi seconds with
    | none => say notInteger
    | some seconds =>
      if seconds ≤ 0 then say (invalidExpire "EXPIRE")
      else ask (.expire key seconds) CommandHandler.boolText
  | _ => say (wrongArguments "EXPIRE")

/-- A command with a key and at least one value. -/
def push (name : String) (op : Bytes → List Bytes → DbOp) : List Bytes → Query
  | key :: value :: values => ask (op key (value :: values)) fun r => lengthText r.toInt
  | _ => say (wrongArguments name)

/-- `LRANGE`. -/
def lrange : List Bytes → Query
  | [key, start, stop] =>
    match stoi start, stoi stop with
    | some start, some stop => ask (.lrange key start stop) fun r => listText r.toStrings
    | _, _ => say notInteger
  | _ => say (wrongArguments "LRANGE")

/-- `LINDEX`. -/
def lindex : List Bytes → Query
  | [key, index] =>
    match stoi index with
    | none => say notInteger
    | some index => ask (.lindex key index) fun r => optionalText r.optional
  | _ => say (wrongArguments "LINDEX")

/-- The text of `INFO`, given the part about the server and the number of keys. -/
def infoText (serverPart : Bytes) (r : DbResult) : Bytes :=
  ascii "# Server\nmyredis_version:1.0.0\ntcp_port:6399\n" ++ serverPart ++
    (ascii "\n# Keyspace\n" ++ ascii "db0:keys=" ++ decimal r.toSize ++ ascii "\n")

/-- `INFO`. -/
def info : Option ServerInfo → Query
  | none => ask .dbsize (infoText [])
  | some server => readClock fun t =>
    ask .dbsize
      (infoText (CommandHandler.serverText (t - server.startTime) server.clientCount))

end Query

/-! ### Plans -/

/-- What a single command asks for. -/
inductive Plan where
  /-- A query. -/
  | query (q : Query)
  /-- Save the database and answer according to the success. -/
  | save (filepath : Bytes) (text : Bool → Bytes)
  /-- Subscribe to channels. -/
  | subscribe (channels : List Bytes)
  /-- Give up subscriptions. -/
  | unsubscribe (channels : List Bytes)
  /-- Send a message. -/
  | publish (channel message : Bytes)

namespace Plan

/-- Run a plan for the client `fd`. -/
def run (fd : Socket) (w : World) : Plan → Bytes × World
  | query q => q.run w
  | save filepath text => (text (w.save filepath).1, (w.save filepath).2)
  | subscribe channels =>
    (confirmations "subscribe" (w.subscribe fd channels).1, (w.subscribe fd channels).2)
  | unsubscribe channels =>
    (confirmations "unsubscribe" (w.unsubscribe fd channels).1, (w.unsubscribe fd channels).2)
  | publish channel message =>
    (integerText (w.publish channel message).1.toInt, (w.publish channel message).2)

/-- The call of the pub/sub manager that a plan for the client `fd` makes, if any. -/
def call (fd : Socket) : Plan → Option Call
  | query _ | save _ _ => none
  | subscribe channels => some (.subscribe fd channels)
  | unsubscribe channels => some (.unsubscribe fd channels)
  | publish channel message => some (.publish channel message)

/-- The pushes of a plan have at least one value. -/
def Allowed : Plan → Prop
  | query q => q.Allowed
  | _ => True

/-- `SUBSCRIBE`. -/
def subscribing (channels : List Bytes) : Plan :=
  if channels = [] then query (.say (wrongArguments "SUBSCRIBE")) else subscribe channels

/-- `PUBLISH`. -/
def publishing : List Bytes → Plan
  | [channel, message] => publish channel message
  | _ => query (.say (wrongArguments "PUBLISH"))

/-- The answer to `SAVE`. -/
def saveText (ok : Bool) : Bytes := if ok then ascii "OK" else ascii "ERR failed to save database"

/-- What the commands ask for, by their names. -/
def table (server : Option ServerInfo) : List (Bytes × (List Bytes → Plan)) :=
  [(ascii "PING", fun args => query (.ping args)),
    (ascii "SET", fun args => query (.set args)),
    (ascii "GET", fun args => query (.ofKey "GET" .get (fun r => optionalText r.optional) args)),
    (ascii "DEL", fun args => query (.ofKeyList "DEL" .del args)),
    (ascii "EXISTS", fun args => query (.ofKeyList "EXISTS" .exists_ args)),
    (ascii "KEYS", fun _ => query (.ask .keys fun r => listText r.toStrings)),
    (ascii "DBSIZE", fun _ => query (.ask .dbsize fun r => integerText r.toSize)),
    (ascii "FLUSHDB", fun _ => query (.ask .flushdb fun _ => ascii "OK")),
    (ascii "EXPIRE", fun args => query (.expire args)),
    (ascii "TTL", fun args =>
      query (.ofKey "TTL" .ttl (fun r => integerText r.toInt.toInt) args)),
    (ascii "PERSIST", fun args =>
      query (.ofKey "PERSIST" .persist CommandHandler.boolText args)),
    (ascii "SAVE", fun _ => save (ascii "dump.mrdb") saveText),
    (ascii "LPUSH", fun args => query (.push "LPUSH" .lpush args)),
    (ascii "RPUSH", fun args => query (.push "RPUSH" .rpush args)),
    (ascii "LPOP", fun args => query (.ofKey "LPOP" .lpop (fun r => optionalText r.optional) args)),
    (ascii "RPOP", fun args => query (.ofKey "RPOP" .rpop (fun r => optionalText r.optional) args)),
    (ascii "LRANGE", fun args => query (.lrange args)),
    (ascii "LLEN", fun args => query (.ofKey "LLEN" .llen (fun r => lengthText r.toInt) args)),
    (ascii "LINDEX", fun args => query (.lindex args)),
    (ascii "SUBSCRIBE", subscribing),
    (ascii "UNSUBSCRIBE", unsubscribe),
    (ascii "PUBLISH", publishing),
    (ascii "CONFIG", fun args => query (.say (CommandHandler.configText args))),
    (ascii "INFO", fun _ => query (.info server))]

/-- What a command asks for. -/
def ofCommand (server : Option ServerInfo) (cmd : Command) : Plan :=
  match (table server).lookup cmd.name with
  | some plan => plan cmd.args
  | none => query (.say (CommandHandler.unknownCommand cmd.name))

/-- The plan of a command whose name is in the table. -/
theorem ofCommand_of_lookup {server : Option ServerInfo} {cmd : Command} {name : Bytes}
    {plan : List Bytes → Plan} (hname : cmd.name = name)
    (hlookup : (table server).lookup name = some plan) : ofCommand server cmd = plan cmd.args := by
  rw [ofCommand, hname, hlookup]

/-- The names of the table are those that `execute_single` knows. -/
theorem map_fst_table (server : Option ServerInfo) :
    (table server).map Prod.fst = CommandHandler.commandNames := rfl

/-- The plan of a command whose name is not in the table. -/
theorem ofCommand_of_notMem (server : Option ServerInfo) {cmd : Command}
    (hname : cmd.name ∉ CommandHandler.commandNames) :
    ofCommand server cmd = query (.say (CommandHandler.unknownCommand cmd.name)) := by
  have hlookup : (table server).lookup cmd.name = none := by
    rw [List.lookup_eq_none_iff]
    intro p hp
    rw [← map_fst_table server] at hname
    have hne : cmd.name ≠ p.1 := by
      intro heq
      exact hname (heq ▸ List.mem_map_of_mem hp)
    simpa using hne
  rw [ofCommand, hlookup]

/-- Only `INFO` looks at the server. -/
theorem ofCommand_congr {cmd : Command} (hname : cmd.name ≠ ascii "INFO")
    (server server' : Option ServerInfo) : ofCommand server cmd = ofCommand server' cmd := by
  have hlast (server : Option ServerInfo) : table server =
      (table none).dropLast ++ [(ascii "INFO", fun _ => query (.info server))] := rfl
  have hlookup (server : Option ServerInfo) :
      (table server).lookup cmd.name = (table none).dropLast.lookup cmd.name := by
    have hne : (cmd.name == ascii "INFO") = false := by simpa using hname
    rw [hlast, List.lookup_append, List.lookup_cons, hne, List.lookup_nil, Option.or_none]
  unfold ofCommand
  rw [hlookup server, hlookup server']

/-- What holds of every line of the table holds of the plan of every command, if it holds of saying
something. -/
theorem ofCommand_induction {P : Plan → Prop} (hsay : ∀ text, P (query (.say text)))
    {server : Option ServerInfo} {cmd : Command}
    (htable : ∀ line ∈ table server, line.1 = cmd.name → P (line.2 cmd.args)) :
    P (ofCommand server cmd) := by
  unfold ofCommand
  cases hlookup : (table server).lookup cmd.name with
  | none => exact hsay _
  | some plan =>
    obtain ⟨before, after, heq, -⟩ := List.lookup_eq_some_iff.mp hlookup
    refine htable (cmd.name, plan) ?_ rfl
    rw [heq]
    exact List.mem_append_right _ List.mem_cons_self

section Allowed

variable (args : List Bytes)

theorem allowed_ping : (Query.ping args).Allowed := by
  cases args <;> trivial

theorem allowed_setOption (key : Bytes) : (Query.setOption key args).Allowed := by
  unfold Query.setOption
  split
  · split_ifs
    · split
      · trivial
      · split_ifs <;> trivial
    · trivial
  · trivial

theorem allowed_set : (Query.set args).Allowed := by
  unfold Query.set
  split
  · exact ⟨trivial, allowed_setOption _ _⟩
  · trivial

theorem allowed_ofKey (name : String) {op : Bytes → DbOp} (hop : ∀ key, (op key).PushesSomething)
    (text : DbResult → Bytes) : (Query.ofKey name op text args).Allowed := by
  unfold Query.ofKey
  split
  · exact hop _
  · trivial

theorem allowed_ofKeyList (name : String) {op : List Bytes → DbOp}
    (hop : ∀ keys, (op keys).PushesSomething) : (Query.ofKeyList name op args).Allowed := by
  unfold Query.ofKeyList
  split_ifs
  · trivial
  · exact hop _

theorem allowed_expire : (Query.expire args).Allowed := by
  unfold Query.expire
  split
  · split
    · trivial
    · split_ifs <;> trivial
  · trivial

theorem allowed_push (name : String) {op : Bytes → List Bytes → DbOp}
    (hop : ∀ key values, values ≠ [] → (op key values).PushesSomething) :
    (Query.push name op args).Allowed := by
  unfold Query.push
  split
  · exact hop _ _ (List.cons_ne_nil _ _)
  · trivial

theorem allowed_lrange : (Query.lrange args).Allowed := by
  unfold Query.lrange
  split
  · split <;> trivial
  · trivial

theorem allowed_lindex : (Query.lindex args).Allowed := by
  unfold Query.lindex
  split
  · split <;> trivial
  · trivial

theorem allowed_info (server : Option ServerInfo) : (Query.info server).Allowed := by
  cases server with
  | none => trivial
  | some server => exact fun _ => trivial

theorem allowed_subscribing : (subscribing args).Allowed := by
  unfold subscribing
  split_ifs <;> trivial

theorem allowed_publishing : (publishing args).Allowed := by
  unfold publishing
  split <;> trivial

end Allowed

/-- Every command pushes at least one value when it pushes. -/
theorem allowed_ofCommand (server : Option ServerInfo) (cmd : Command) :
    (ofCommand server cmd).Allowed := by
  refine ofCommand_induction (fun _ => trivial) ?_
  have hkey (name : String) (op : Bytes → DbOp) (hop : ∀ key, (op key).PushesSomething)
      (text : DbResult → Bytes) : (query (.ofKey name op text cmd.args)).Allowed :=
    allowed_ofKey cmd.args name hop text
  have hkeys (name : String) (op : List Bytes → DbOp) (hop : ∀ keys, (op keys).PushesSomething) :
      (query (.ofKeyList name op cmd.args)).Allowed := allowed_ofKeyList cmd.args name hop
  have hpush (name : String) (op : Bytes → List Bytes → DbOp)
      (hop : ∀ key values, values ≠ [] → (op key values).PushesSomething) :
      (query (.push name op cmd.args)).Allowed := allowed_push cmd.args name hop
  simp only [table, List.forall_mem_cons]
  refine ⟨fun _ => allowed_ping _, fun _ => allowed_set _, fun _ => hkey "GET" .get ?_ _,
    fun _ => hkeys "DEL" .del ?_, fun _ => hkeys "EXISTS" .exists_ ?_, fun _ => trivial,
    fun _ => trivial, fun _ => trivial, fun _ => allowed_expire _, fun _ => hkey "TTL" .ttl ?_ _,
    fun _ => hkey "PERSIST" .persist ?_ _, fun _ => trivial, fun _ => hpush "LPUSH" .lpush ?_,
    fun _ => hpush "RPUSH" .rpush ?_, fun _ => hkey "LPOP" .lpop ?_ _,
    fun _ => hkey "RPOP" .rpop ?_ _, fun _ => allowed_lrange _, fun _ => hkey "LLEN" .llen ?_ _,
    fun _ => allowed_lindex _, fun _ => allowed_subscribing _, fun _ => trivial,
    fun _ => allowed_publishing _, fun _ => trivial, fun _ => allowed_info _, by simp⟩
  -- what is left are the operations with a key, of which only the pushes have a condition
  all_goals first | exact fun _ => trivial | exact fun _ _ hne => hne

/-- A command that is executed at once makes the call of its plan. -/
theorem call_ofCommand (server : Option ServerInfo) (fd : Socket) {cmd : Command}
    {subscribed : Bool}
    (hallowed : subscribed = false ∨ CommandHandler.allowedSubscribed cmd.name = true) :
    CommandHandler.pubsubCall fd subscribed cmd = (ofCommand server cmd).call fd := by
  have hgate : (subscribed && !CommandHandler.allowedSubscribed cmd.name) = false := by
    rcases hallowed with hallowed | hallowed <;> simp [hallowed]
  by_cases hname : cmd.name ∈ CommandHandler.pubsubNames
  · simp only [CommandHandler.pubsubNames, List.mem_cons, List.not_mem_nil, or_false] at hname
    rw [CommandHandler.pubsubCall, hgate]
    rcases hname with hname | hname | hname
    · rw [ofCommand_of_lookup hname rfl, hname, subscribing]
      split_ifs <;> simp_all [call]
    · rw [ofCommand_of_lookup hname rfl, hname]
      rfl
    · rw [ofCommand_of_lookup hname rfl, hname]
      rcases cmd.args with _ | ⟨channel, _ | ⟨message, _ | _⟩⟩ <;> rfl
  · rw [CommandHandler.pubsubCall_of_notMem hname]
    refine (ofCommand_induction (P := fun plan => plan.call fd = none) (fun _ => rfl) ?_).symm
    simp only [CommandHandler.pubsubNames, List.mem_cons, List.not_mem_nil, or_false, not_or]
      at hname
    obtain ⟨hsubscribe, hunsubscribe, hpublish⟩ := hname
    simp [table, call, Ne.symm hsubscribe, Ne.symm hunsubscribe, Ne.symm hpublish]

end Plan

/-! ### The handlers run the plans -/

namespace CommandHandler

section Handlers

variable (cmd : Command) (w : World)

theorem handlePing_eq_run : handlePing cmd w = (Query.ping cmd.args).run w := by
  unfold handlePing
  cases cmd.args <;> rfl

theorem handleSetOption_eq_run (key : Bytes) (options : List Bytes) :
    handleSetOption key options w = (Query.setOption key options).run w := by
  rcases options with _ | ⟨option, _ | ⟨seconds, _⟩⟩
  · rfl
  · rfl
  · simp only [handleSetOption, Query.setOption]
    split_ifs
    · cases stoi seconds with
      | none => rfl
      | some n =>
        simp only
        split_ifs <;> rfl
    · rfl

theorem handleSet_eq_run : handleSet cmd w = (Query.set cmd.args).run w := by
  unfold handleSet
  rcases cmd.args with _ | ⟨key, _ | ⟨value, options⟩⟩
  · rfl
  · rfl
  · exact handleSetOption_eq_run _ key options

theorem handleKey_eq_run (name : String) (op : Bytes → DbOp) (text : DbResult → Bytes) :
    handleKey name op text cmd w = (Query.ofKey name op text cmd.args).run w := by
  unfold handleKey
  rcases cmd.args with _ | ⟨key, _ | _⟩ <;> rfl

theorem handleKeyList_eq_run (name : String) (op : List Bytes → DbOp) :
    handleKeyList name op cmd w = (Query.ofKeyList name op cmd.args).run w := by
  unfold handleKeyList Query.ofKeyList
  split_ifs <;> rfl

theorem handleExpire_eq_run : handleExpire cmd w = (Query.expire cmd.args).run w := by
  unfold handleExpire
  rcases cmd.args with _ | ⟨key, _ | ⟨seconds, _ | _⟩⟩
  · rfl
  · rfl
  · simp only [Query.expire]
    cases stoi seconds with
    | none => rfl
    | some n =>
      simp only
      split_ifs <;> rfl
  · rfl

theorem handlePush_eq_run (name : String) (op : Bytes → List Bytes → DbOp) :
    handlePush name op cmd w = (Query.push name op cmd.args).run w := by
  unfold handlePush
  rcases cmd.args with _ | ⟨key, _ | _⟩ <;> rfl

theorem handleLrange_eq_run : handleLrange cmd w = (Query.lrange cmd.args).run w := by
  unfold handleLrange
  rcases cmd.args with _ | ⟨key, _ | ⟨start, _ | ⟨stop, _ | _⟩⟩⟩
  · rfl
  · rfl
  · rfl
  · simp only [Query.lrange]
    cases stoi start <;> cases stoi stop <;> rfl
  · rfl

theorem handleLindex_eq_run : handleLindex cmd w = (Query.lindex cmd.args).run w := by
  unfold handleLindex
  rcases cmd.args with _ | ⟨key, _ | ⟨index, _ | _⟩⟩
  · rfl
  · rfl
  · simp only [Query.lindex]
    cases stoi index <;> rfl
  · rfl

theorem handleSubscribe_eq_run (h : CommandHandler) :
    h.handleSubscribe cmd w = (Plan.subscribing cmd.args).run h.clientFd w := by
  unfold handleSubscribe Plan.subscribing
  split_ifs <;> rfl

theorem handlePublish_eq_run (fd : Socket) :
    handlePublish cmd w = (Plan.publishing cmd.args).run fd w := by
  unfold handlePublish
  rcases cmd.args with _ | ⟨channel, _ | ⟨message, _ | _⟩⟩ <;> rfl

theorem handleInfo_eq_run (h : CommandHandler) :
    h.handleInfo cmd w = (Query.info h.server).run w := by
  unfold handleInfo
  cases h.server with
  | none => simp [reply, Query.info, Query.run, Query.infoText]
  | some server => rfl

end Handlers

/-- `execute_single` runs the plan of the command. -/
theorem executeSingle_eq_run (h : CommandHandler) (cmd : Command) (w : World) :
    h.executeSingle cmd w = (Plan.ofCommand h.server cmd).run h.clientFd w := by
  have hdispatch := h.dispatches cmd
  generalize h.executeSingle cmd = run at hdispatch ⊢
  -- the table has one line for each branch of the dispatch
  have hplan {name : Bytes} {plan : List Bytes → Plan} (hname : cmd.name = name)
      (hlookup : (Plan.table h.server).lookup name = some plan)
      (hrun : run w = (plan cmd.args).run h.clientFd w) :
      run w = (Plan.ofCommand h.server cmd).run h.clientFd w := by
    rw [Plan.ofCommand_of_lookup hname hlookup, hrun]
  cases hdispatch with
  | ping hname => exact hplan hname rfl (handlePing_eq_run cmd w)
  | set hname => exact hplan hname rfl (handleSet_eq_run cmd w)
  | get hname => exact hplan hname rfl (handleKey_eq_run cmd w _ _ _)
  | del hname => exact hplan hname rfl (handleKeyList_eq_run cmd w _ _)
  | existing hname => exact hplan hname rfl (handleKeyList_eq_run cmd w _ _)
  | keys hname => exact hplan hname rfl rfl
  | dbsize hname => exact hplan hname rfl rfl
  | flushdb hname => exact hplan hname rfl rfl
  | expire hname => exact hplan hname rfl (handleExpire_eq_run cmd w)
  | ttl hname => exact hplan hname rfl (handleKey_eq_run cmd w _ _ _)
  | persist hname => exact hplan hname rfl (handleKey_eq_run cmd w _ _ _)
  | save hname => exact hplan hname rfl rfl
  | lpush hname => exact hplan hname rfl (handlePush_eq_run cmd w _ _)
  | rpush hname => exact hplan hname rfl (handlePush_eq_run cmd w _ _)
  | lpop hname => exact hplan hname rfl (handleKey_eq_run cmd w _ _ _)
  | rpop hname => exact hplan hname rfl (handleKey_eq_run cmd w _ _ _)
  | lrange hname => exact hplan hname rfl (handleLrange_eq_run cmd w)
  | llen hname => exact hplan hname rfl (handleKey_eq_run cmd w _ _ _)
  | lindex hname => exact hplan hname rfl (handleLindex_eq_run cmd w)
  | subscribe hname => exact hplan hname rfl (handleSubscribe_eq_run cmd w h)
  | unsubscribe hname => exact hplan hname rfl rfl
  | publish hname => exact hplan hname rfl (handlePublish_eq_run cmd w h.clientFd)
  | config hname => exact hplan hname rfl rfl
  | info hname => exact hplan hname rfl (handleInfo_eq_run cmd w h)
  | unknown hname =>
    rw [Plan.ofCommand_of_notMem _ hname]
    rfl

end CommandHandler

end MyRedis
