import MyRedis.Persistence.Basic
import MyRedis.PubSub.Basic
import MyRedis.Resp.Parse

/-!
# Single commands

The handlers of `command_handler.cpp` that do not touch the transaction state, and
`execute_single`, which dispatches on the name of a command.

What a handler reads and changes outside of its own object is collected in a `World`: the database,
the pub/sub manager, the network and the disk, together with what the environment will decide (the
outcomes of file operations and the readings of the clock).  A handler is a function of the command
and the world; its result is the text of the response and the new world.
-/

namespace MyRedis

open Foundation Resp

/-! ### The world -/

/-- The objects that all handlers share, and what the environment decides. -/
structure World where
  /-- The database. -/
  db : Database
  /-- The pub/sub manager. -/
  pubsub : PubSubManager
  /-- The sockets. -/
  net : Network
  /-- The files. -/
  disk : Disk Bytes
  /-- The outcomes of the file operations to come. -/
  outcomes : ℕ → Outcome
  /-- The clock readings of the calls to come: `clock i j` is the `j`-th reading of call `i`. -/
  clock : ℕ → ℕ → TimePoint

namespace World

/-- The readings of one call have been used. -/
def tick (w : World) : World :=
  { w with clock := fun i => w.clock (i + 1) }

/-- The instant at which the next call begins. -/
def now (w : World) : TimePoint := w.clock 0 0

/-- Call an operation of the database. -/
def call (op : DbOp) (w : World) : DbResult × World :=
  let result := op.run (w.clock 0) w.db
  (result.1, { w.tick with db := result.2 })

/-- `Persistence::save` of the database. -/
def save (filepath : Bytes) (w : World) : Bool × World :=
  let result := (Persistence.save filepath w.now w.db).eval w.outcomes w.disk
  (result.1, { w.tick with outcomes := result.2.1, disk := result.2.2 })

/-- `subscribe` of the pub/sub manager. -/
def subscribe (fd : Socket) (channels : List Bytes) (w : World) : List (Bytes × Int32) × World :=
  let result := w.pubsub.subscribe fd channels
  (result.1, { w with pubsub := result.2 })

/-- `unsubscribe` of the pub/sub manager. -/
def unsubscribe (fd : Socket) (channels : List Bytes) (w : World) : List (Bytes × Int32) × World :=
  let result := w.pubsub.unsubscribe fd channels
  (result.1, { w with pubsub := result.2 })

/-- `publish` of the pub/sub manager. -/
def publish (channel message : Bytes) (w : World) : Int32 × World :=
  let result := w.pubsub.publish channel message w.net
  (result.1, { w with pubsub := result.2.1, net := result.2.2 })

end World

/-! ### Reading results -/

namespace DbResult

/-- The result of an operation that returns a `std::optional<std::string>`. -/
def optional : DbResult → Option Bytes
  | value v => v
  | _ => none

/-- The result of an operation that returns an `int`. -/
def toInt : DbResult → Int32
  | int n => n
  | _ => 0

/-- The result of an operation that returns a `size_t`. -/
def toSize : DbResult → ℕ
  | size n => n
  | _ => 0

/-- The result of an operation that returns a `bool`. -/
def isTrue : DbResult → Bool
  | bool b => b
  | _ => false

/-- The result of an operation that returns a `std::vector<std::string>`. -/
def toStrings : DbResult → List Bytes
  | strings l => l
  | _ => []

end DbResult

/-! ### Texts -/

/-- The error for a wrong number of arguments. -/
def wrongArguments (name : String) : Bytes :=
  ascii "ERR wrong number of arguments for '" ++ ascii name ++ ascii "' command"

/-- The error for an argument that is not an integer. -/
def notInteger : Bytes := ascii "ERR value is not an integer or out of range"

/-- The error for a deadline that is not in the future. -/
def invalidExpire (name : String) : Bytes :=
  ascii "ERR invalid expire time in '" ++ ascii name ++ ascii "' command"

/-- `WRONGTYPE_ERR`. -/
def wrongtypeErr : Bytes :=
  ascii "WRONGTYPE Operation against a key holding the wrong kind of value"

/-- How the errors begin. -/
theorem head?_wrongArguments (name : String) : (wrongArguments name).head? = some 69 := by
  rw [wrongArguments, ascii_ofList]
  rfl

theorem head?_notInteger : notInteger.head? = some 69 := by
  rw [notInteger, ascii_ofList]
  rfl

theorem head?_invalidExpire (name : String) : (invalidExpire name).head? = some 69 := by
  rw [invalidExpire, ascii_ofList]
  rfl

theorem head?_wrongtypeErr : wrongtypeErr.head? = some 87 := by
  rw [wrongtypeErr, ascii_ofList]
  rfl

/-- A text that begins like an error does not say that a command was carried out. -/
theorem ne_ok_of_head?_eq {r : Bytes} (h : r.head? = some 69) : r ≠ ascii "OK" := by
  rintro rfl
  exact absurd h (by decide)

/-- Nor that it was queued. -/
theorem ne_queued_of_head?_eq {r : Bytes} (h : r.head? = some 69) : r ≠ ascii "QUEUED" := by
  rintro rfl
  exact absurd h (by decide)

/-- A text in quotation marks. -/
def quoted (s : Bytes) : Bytes := ascii "\"" ++ s ++ ascii "\""

/-- An integer. -/
def integerText (n : ℤ) : Bytes := ascii "(integer) " ++ decimalInt n

/-- A text or `(nil)`. -/
def optionalText : Option Bytes → Bytes
  | none => ascii "(nil)"
  | some s => quoted s

/-- The result of an operation in which `-1` says that the key has the wrong type. -/
def lengthText (n : Int32) : Bytes :=
  if n = -1 then wrongtypeErr else integerText n.toInt

/-- Lines separated by line feeds. -/
def lines : List Bytes → Bytes
  | [] => []
  | [line] => line
  | line :: later => line ++ LF :: lines later

/-- Items with their numbers. -/
def numberItems (items : List Bytes) : List Bytes :=
  items.zipIdx.map fun item => decimal (item.2 + 1) ++ ascii ") " ++ item.1

/-- A list of strings. -/
def listText (items : List Bytes) : Bytes :=
  if items = [] then ascii "(empty list)" else lines (numberItems (items.map quoted))

/-- The confirmations of `SUBSCRIBE` and `UNSUBSCRIBE`. -/
def confirmations (kind : String) (results : List (Bytes × Int32)) : Bytes :=
  lines (results.map fun r =>
    ascii kind ++ ascii " " ++ r.1 ++ ascii " " ++ decimalInt r.2.toInt)

/-! ### The handler object -/

/-- What `INFO` reads from the server. -/
structure ServerInfo where
  /-- The instant at which the server was started. -/
  startTime : TimePoint
  /-- The number of connected clients. -/
  clientCount : ℕ

/-- What a handler remembers of a watched key. -/
structure WatchedKeySnapshot where
  /-- The key. -/
  key : Bytes
  /-- Whether it was found. -/
  existed : Bool
  /-- Its string. -/
  stringValue : Option Bytes
  /-- The length of its list, or `-1`. -/
  listSize : Int32
deriving DecidableEq

/-- The state of the class `CommandHandler`. -/
structure CommandHandler where
  /-- The socket of the client. -/
  clientFd : Socket
  /-- The server, if there is one. -/
  server : Option ServerInfo
  /-- Whether a transaction is open. -/
  inMulti : Bool
  /-- The queued commands. -/
  txQueue : List Command
  /-- The watched keys. -/
  watchedKeys : List Bytes
  /-- A flag that is only ever reset. -/
  watchDirty : Bool
  /-- The values of the watched keys at the time they were watched. -/
  watchSnapshots : List WatchedKeySnapshot

/-- The state after construction. -/
def CommandHandler.new (clientFd : Socket) (server : Option ServerInfo) : CommandHandler where
  clientFd := clientFd
  server := server
  inMulti := false
  txQueue := []
  watchedKeys := []
  watchDirty := false
  watchSnapshots := []

namespace CommandHandler

/-! ### Strings and keys -/

/-- Answer with the result of one operation of the database. -/
def reply (op : DbOp) (text : DbResult → Bytes) (w : World) : Bytes × World :=
  (text (w.call op).1, (w.call op).2)

/-- `PING`. -/
def handlePing (cmd : Command) (w : World) : Bytes × World :=
  match cmd.args with
  | [] => (ascii "PONG", w)
  | message :: _ => (message, w)

/-- The option `EX` of `SET`, after the value has been stored. -/
def handleSetOption (key : Bytes) (options : List Bytes) (w : World) : Bytes × World :=
  match options with
  | option :: seconds :: _ =>
    if option.map toUpper = ascii "EX" then
      match stoi seconds with
      | none => (notInteger, w)
      | some seconds =>
        if seconds ≤ 0 then (invalidExpire "SET", w)
        else reply (.expire key seconds) (fun _ => ascii "OK") w
    else (ascii "OK", w)
  | _ => (ascii "OK", w)

/-- `SET`.  The value is stored before the option is looked at. -/
def handleSet (cmd : Command) (w : World) : Bytes × World :=
  match cmd.args with
  | key :: value :: options => handleSetOption key options (w.call (.set key value)).2
  | _ => (wrongArguments "SET", w)

/-- A command with one key: `GET`, `TTL`, `PERSIST`, `LPOP`, `RPOP` and `LLEN`. -/
def handleKey (name : String) (op : Bytes → DbOp) (text : DbResult → Bytes) (cmd : Command)
    (w : World) : Bytes × World :=
  match cmd.args with
  | [key] => reply (op key) text w
  | _ => (wrongArguments name, w)

/-- `GET`. -/
def handleGet : Command → World → Bytes × World :=
  handleKey "GET" .get fun r => optionalText r.optional

/-- A command with any number of keys, but at least one: `DEL` and `EXISTS`. -/
def handleKeyList (name : String) (op : List Bytes → DbOp) (cmd : Command) (w : World) :
    Bytes × World :=
  if cmd.args = [] then (wrongArguments name, w)
  else reply (op cmd.args) (fun r => integerText r.toInt.toInt) w

/-- `DEL`. -/
def handleDel : Command → World → Bytes × World := handleKeyList "DEL" .del

/-- `EXISTS`. -/
def handleExists : Command → World → Bytes × World := handleKeyList "EXISTS" .exists_

/-- `KEYS`. -/
def handleKeys (_ : Command) (w : World) : Bytes × World :=
  reply .keys (fun r => listText r.toStrings) w

/-- `DBSIZE`. -/
def handleDbsize (_ : Command) (w : World) : Bytes × World :=
  reply .dbsize (fun r => integerText r.toSize) w

/-- `FLUSHDB`. -/
def handleFlushdb (_ : Command) (w : World) : Bytes × World :=
  reply .flushdb (fun _ => ascii "OK") w

/-- A truth value as `0` or `1`. -/
def boolText (r : DbResult) : Bytes := ascii "(integer) " ++ ascii (if r.isTrue then "1" else "0")

/-- `EXPIRE`. -/
def handleExpire (cmd : Command) (w : World) : Bytes × World :=
  match cmd.args with
  | [key, seconds] =>
    match stoi seconds with
    | none => (notInteger, w)
    | some seconds =>
      if seconds ≤ 0 then (invalidExpire "EXPIRE", w) else reply (.expire key seconds) boolText w
  | _ => (wrongArguments "EXPIRE", w)

/-- `TTL`. -/
def handleTtl : Command → World → Bytes × World :=
  handleKey "TTL" .ttl fun r => integerText r.toInt.toInt

/-- `PERSIST`. -/
def handlePersist : Command → World → Bytes × World := handleKey "PERSIST" .persist boolText

/-- `SAVE`. -/
def handleSave (_ : Command) (w : World) : Bytes × World :=
  let result := w.save (ascii "dump.mrdb")
  (if result.1 then ascii "OK" else ascii "ERR failed to save database", result.2)

/-! ### Lists -/

/-- A command with a key and at least one value: `LPUSH` and `RPUSH`. -/
def handlePush (name : String) (op : Bytes → List Bytes → DbOp) (cmd : Command) (w : World) :
    Bytes × World :=
  match cmd.args with
  | key :: value :: values => reply (op key (value :: values)) (fun r => lengthText r.toInt) w
  | _ => (wrongArguments name, w)

/-- `LPUSH`. -/
def handleLpush : Command → World → Bytes × World := handlePush "LPUSH" .lpush

/-- `RPUSH`. -/
def handleRpush : Command → World → Bytes × World := handlePush "RPUSH" .rpush

/-- `LPOP`. -/
def handleLpop : Command → World → Bytes × World :=
  handleKey "LPOP" .lpop fun r => optionalText r.optional

/-- `RPOP`. -/
def handleRpop : Command → World → Bytes × World :=
  handleKey "RPOP" .rpop fun r => optionalText r.optional

/-- `LRANGE`. -/
def handleLrange (cmd : Command) (w : World) : Bytes × World :=
  match cmd.args with
  | [key, start, stop] =>
    match stoi start, stoi stop with
    | some start, some stop => reply (.lrange key start stop) (fun r => listText r.toStrings) w
    | _, _ => (notInteger, w)
  | _ => (wrongArguments "LRANGE", w)

/-- `LLEN`. -/
def handleLlen : Command → World → Bytes × World :=
  handleKey "LLEN" .llen fun r => lengthText r.toInt

/-- `LINDEX`. -/
def handleLindex (cmd : Command) (w : World) : Bytes × World :=
  match cmd.args with
  | [key, index] =>
    match stoi index with
    | none => (notInteger, w)
    | some index => reply (.lindex key index) (fun r => optionalText r.optional) w
  | _ => (wrongArguments "LINDEX", w)

/-! ### Publish and subscribe -/

/-- `SUBSCRIBE`. -/
def handleSubscribe (h : CommandHandler) (cmd : Command) (w : World) : Bytes × World :=
  if cmd.args = [] then (wrongArguments "SUBSCRIBE", w)
  else
    let result := w.subscribe h.clientFd cmd.args
    (confirmations "subscribe" result.1, result.2)

/-- `UNSUBSCRIBE`. -/
def handleUnsubscribe (h : CommandHandler) (cmd : Command) (w : World) : Bytes × World :=
  let result := w.unsubscribe h.clientFd cmd.args
  (confirmations "unsubscribe" result.1, result.2)

/-- `PUBLISH`. -/
def handlePublish (cmd : Command) (w : World) : Bytes × World :=
  match cmd.args with
  | [channel, message] =>
    let result := w.publish channel message
    (integerText result.1.toInt, result.2)
  | _ => (wrongArguments "PUBLISH", w)

/-! ### Configuration and information -/

/-- The parameters that `CONFIG GET` knows. -/
def configParams : List Bytes :=
  [ascii "save", ascii "port", ascii "bind", ascii "requirepass", ascii "loglevel",
    ascii "maxmemory"]

/-- The answer to `CONFIG`, which does not depend on the world. -/
def configText (args : List Bytes) : Bytes :=
  match args with
  | [] => wrongArguments "CONFIG"
  | subcmd :: rest =>
    if subcmd.map toUpper = ascii "GET" then
      match rest with
      | [param] =>
        if configParams.contains param then
          ascii "1) " ++ quoted param ++ ascii "\n" ++ ascii "2) " ++ quoted []
        else ascii "(empty list)"
      | _ => wrongArguments "CONFIG GET"
    else if subcmd.map toUpper = ascii "SET" then
      match rest with
      | [_, _] => ascii "OK"
      | _ => wrongArguments "CONFIG SET"
    else ascii "ERR Unknown subcommand '" ++ subcmd.map toUpper ++ ascii "'"

/-- `CONFIG`. -/
def handleConfig (cmd : Command) (w : World) : Bytes × World := (configText cmd.args, w)

/-- The lines of `INFO` about the server, for an uptime in nanoseconds. -/
def serverText (uptime : ℤ) (clientCount : ℕ) : Bytes :=
  let seconds := uptime.tdiv nsPerSec
  ascii "uptime_in_seconds:" ++ decimalInt seconds ++ ascii "\n" ++
    ascii "uptime_in_days:" ++ decimalInt (seconds.tdiv 86400) ++ ascii "\n" ++
    ascii "\n# Clients\n" ++ ascii "connected_clients:" ++ decimal clientCount ++ ascii "\n"

/-- `INFO`. -/
def handleInfo (h : CommandHandler) (_ : Command) (w : World) : Bytes × World :=
  let head := ascii "# Server\nmyredis_version:1.0.0\ntcp_port:6399\n"
  let keyspace := fun r : DbResult =>
    ascii "\n# Keyspace\n" ++ ascii "db0:keys=" ++ decimal r.toSize ++ ascii "\n"
  match h.server with
  | none => reply .dbsize (fun r => head ++ keyspace r) w
  | some server =>
    reply .dbsize
      (fun r => head ++ serverText (w.now - server.startTime) server.clientCount ++ keyspace r)
      w.tick

/-! ### Dispatch -/

/-- `execute_single`. -/
def executeSingle (h : CommandHandler) (cmd : Command) (w : World) : Bytes × World :=
  if cmd.name = ascii "PING" then handlePing cmd w
  else if cmd.name = ascii "SET" then handleSet cmd w
  else if cmd.name = ascii "GET" then handleGet cmd w
  else if cmd.name = ascii "DEL" then handleDel cmd w
  else if cmd.name = ascii "EXISTS" then handleExists cmd w
  else if cmd.name = ascii "KEYS" then handleKeys cmd w
  else if cmd.name = ascii "DBSIZE" then handleDbsize cmd w
  else if cmd.name = ascii "FLUSHDB" then handleFlushdb cmd w
  else if cmd.name = ascii "EXPIRE" then handleExpire cmd w
  else if cmd.name = ascii "TTL" then handleTtl cmd w
  else if cmd.name = ascii "PERSIST" then handlePersist cmd w
  else if cmd.name = ascii "SAVE" then handleSave cmd w
  else if cmd.name = ascii "LPUSH" then handleLpush cmd w
  else if cmd.name = ascii "RPUSH" then handleRpush cmd w
  else if cmd.name = ascii "LPOP" then handleLpop cmd w
  else if cmd.name = ascii "RPOP" then handleRpop cmd w
  else if cmd.name = ascii "LRANGE" then handleLrange cmd w
  else if cmd.name = ascii "LLEN" then handleLlen cmd w
  else if cmd.name = ascii "LINDEX" then handleLindex cmd w
  else if cmd.name = ascii "SUBSCRIBE" then h.handleSubscribe cmd w
  else if cmd.name = ascii "UNSUBSCRIBE" then h.handleUnsubscribe cmd w
  else if cmd.name = ascii "PUBLISH" then handlePublish cmd w
  else if cmd.name = ascii "CONFIG" then handleConfig cmd w
  else if cmd.name = ascii "INFO" then h.handleInfo cmd w
  else (ascii "ERR unknown command '" ++ cmd.name ++ ascii "'", w)

/-- The names that `execute_single` knows. -/
def commandNames : List Bytes :=
  [ascii "PING", ascii "SET", ascii "GET", ascii "DEL", ascii "EXISTS", ascii "KEYS",
    ascii "DBSIZE", ascii "FLUSHDB", ascii "EXPIRE", ascii "TTL", ascii "PERSIST", ascii "SAVE",
    ascii "LPUSH", ascii "RPUSH", ascii "LPOP", ascii "RPOP", ascii "LRANGE", ascii "LLEN",
    ascii "LINDEX", ascii "SUBSCRIBE", ascii "UNSUBSCRIBE", ascii "PUBLISH", ascii "CONFIG",
    ascii "INFO"]

/-- The answer to a name that is not known. -/
def unknownCommand (name : Bytes) : Bytes := ascii "ERR unknown command '" ++ name ++ ascii "'"

/-- All branches of `execute_single`: the name of the command, and the handler that is called. -/
inductive Dispatches (h : CommandHandler) (cmd : Command) : (World → Bytes × World) → Prop
  | ping (hname : cmd.name = ascii "PING") : Dispatches h cmd (handlePing cmd)
  | set (hname : cmd.name = ascii "SET") : Dispatches h cmd (handleSet cmd)
  | get (hname : cmd.name = ascii "GET") : Dispatches h cmd (handleGet cmd)
  | del (hname : cmd.name = ascii "DEL") : Dispatches h cmd (handleDel cmd)
  | existing (hname : cmd.name = ascii "EXISTS") : Dispatches h cmd (handleExists cmd)
  | keys (hname : cmd.name = ascii "KEYS") : Dispatches h cmd (handleKeys cmd)
  | dbsize (hname : cmd.name = ascii "DBSIZE") : Dispatches h cmd (handleDbsize cmd)
  | flushdb (hname : cmd.name = ascii "FLUSHDB") : Dispatches h cmd (handleFlushdb cmd)
  | expire (hname : cmd.name = ascii "EXPIRE") : Dispatches h cmd (handleExpire cmd)
  | ttl (hname : cmd.name = ascii "TTL") : Dispatches h cmd (handleTtl cmd)
  | persist (hname : cmd.name = ascii "PERSIST") : Dispatches h cmd (handlePersist cmd)
  | save (hname : cmd.name = ascii "SAVE") : Dispatches h cmd (handleSave cmd)
  | lpush (hname : cmd.name = ascii "LPUSH") : Dispatches h cmd (handleLpush cmd)
  | rpush (hname : cmd.name = ascii "RPUSH") : Dispatches h cmd (handleRpush cmd)
  | lpop (hname : cmd.name = ascii "LPOP") : Dispatches h cmd (handleLpop cmd)
  | rpop (hname : cmd.name = ascii "RPOP") : Dispatches h cmd (handleRpop cmd)
  | lrange (hname : cmd.name = ascii "LRANGE") : Dispatches h cmd (handleLrange cmd)
  | llen (hname : cmd.name = ascii "LLEN") : Dispatches h cmd (handleLlen cmd)
  | lindex (hname : cmd.name = ascii "LINDEX") : Dispatches h cmd (handleLindex cmd)
  | subscribe (hname : cmd.name = ascii "SUBSCRIBE") : Dispatches h cmd (h.handleSubscribe cmd)
  | unsubscribe (hname : cmd.name = ascii "UNSUBSCRIBE") :
      Dispatches h cmd (h.handleUnsubscribe cmd)
  | publish (hname : cmd.name = ascii "PUBLISH") : Dispatches h cmd (handlePublish cmd)
  | config (hname : cmd.name = ascii "CONFIG") : Dispatches h cmd (handleConfig cmd)
  | info (hname : cmd.name = ascii "INFO") : Dispatches h cmd (h.handleInfo cmd)
  | unknown (hname : cmd.name ∉ commandNames) :
      Dispatches h cmd fun w => (unknownCommand cmd.name, w)

/-- One branch. -/
theorem dispatches_ite {h : CommandHandler} {cmd : Command} {name : Bytes}
    {f g : World → Bytes × World} (hf : cmd.name = name → Dispatches h cmd f)
    (hg : cmd.name ≠ name → Dispatches h cmd g) :
    Dispatches h cmd fun w => if cmd.name = name then f w else g w := by
  by_cases hname : cmd.name = name
  · simpa only [if_pos hname] using hf hname
  · simpa only [if_neg hname] using hg hname

/-- Every command takes one of these branches. -/
theorem dispatches (h : CommandHandler) (cmd : Command) :
    Dispatches h cmd (h.executeSingle cmd) := by
  unfold executeSingle
  refine dispatches_ite .ping fun hping => ?_
  refine dispatches_ite .set fun hset => ?_
  refine dispatches_ite .get fun hget => ?_
  refine dispatches_ite .del fun hdel => ?_
  refine dispatches_ite .existing fun hexisting => ?_
  refine dispatches_ite .keys fun hkeys => ?_
  refine dispatches_ite .dbsize fun hdbsize => ?_
  refine dispatches_ite .flushdb fun hflushdb => ?_
  refine dispatches_ite .expire fun hexpire => ?_
  refine dispatches_ite .ttl fun httl => ?_
  refine dispatches_ite .persist fun hpersist => ?_
  refine dispatches_ite .save fun hsave => ?_
  refine dispatches_ite .lpush fun hlpush => ?_
  refine dispatches_ite .rpush fun hrpush => ?_
  refine dispatches_ite .lpop fun hlpop => ?_
  refine dispatches_ite .rpop fun hrpop => ?_
  refine dispatches_ite .lrange fun hlrange => ?_
  refine dispatches_ite .llen fun hllen => ?_
  refine dispatches_ite .lindex fun hlindex => ?_
  refine dispatches_ite .subscribe fun hsubscribe => ?_
  refine dispatches_ite .unsubscribe fun hunsubscribe => ?_
  refine dispatches_ite .publish fun hpublish => ?_
  refine dispatches_ite .config fun hconfig => ?_
  refine dispatches_ite .info fun hinfo => ?_
  refine .unknown ?_
  simp only [commandNames, List.mem_cons, List.not_mem_nil, or_false, not_or]
  exact ⟨hping, hset, hget, hdel, hexisting, hkeys, hdbsize, hflushdb, hexpire, httl, hpersist,
    hsave, hlpush, hrpush, hlpop, hrpop, hlrange, hllen, hlindex, hsubscribe, hunsubscribe,
    hpublish, hconfig, hinfo⟩

end CommandHandler

end MyRedis
