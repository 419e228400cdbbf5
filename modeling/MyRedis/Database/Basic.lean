import Mathlib.Data.List.AList
import MyRedis.Foundation.ByteString

/-!
# The database

The in-memory store of `database.h` and `database.cpp`: three hash maps, one for strings, one for
lists and one for deadlines, and the operations on them.

Every operation is a function of the state and of the clock readings made during the call.  Where
the source reads the clock several times in one call (once per key in `EXISTS`, `KEYS` and
`DBSIZE`, once for the expiry check and once for the deadline in `EXPIRE` and `TTL`), the readings
are separate arguments, so that a call may straddle a deadline.  A `std::unordered_map` is an
association list with distinct keys; the order of the list is the iteration order, and
`Database.Reordered` relates two states that differ only in it.  The C++ type `int` is `Int32`,
with the wrap-around of `static_cast<int>` on sizes.
-/

namespace MyRedis

open Foundation

/-- A `std::unordered_map` together with its current iteration order. -/
abbrev UnorderedMap (K V : Type) := AList fun _ : K => V

/-- A `std::chrono::steady_clock::time_point`, in nanoseconds. -/
abbrev TimePoint := ℤ

/-- Nanoseconds per second. -/
def nsPerSec : ℤ := 1000000000

/-- The database: string values, list values, and the deadlines of the keys that have one. -/
structure Database where
  /-- The string values. -/
  store : UnorderedMap Bytes Bytes
  /-- The list values. -/
  listStore : UnorderedMap Bytes (List Bytes)
  /-- The deadlines; a key without a deadline is not in this map. -/
  expiry : UnorderedMap Bytes TimePoint
deriving DecidableEq

namespace Database

/-- The state after construction. -/
def empty : Database where
  store := ∅
  listStore := ∅
  expiry := ∅

/-! ### Helpers -/

/-- Whether the key has a deadline that the clock has reached. -/
def isExpiredUnlocked (db : Database) (now : TimePoint) (key : Bytes) : Bool :=
  match db.expiry.lookup key with
  | none => false
  | some deadline => decide (deadline ≤ now)

/-- Remove a key from all three maps. -/
def removeExpiredUnlocked (db : Database) (key : Bytes) : Database where
  store := db.store.erase key
  listStore := db.listStore.erase key
  expiry := db.expiry.erase key

/-- The lazy expiry check: an expired key is removed before it is used. -/
def lazyExpire (now : TimePoint) (key : Bytes) (db : Database) : Database :=
  if db.isExpiredUnlocked now key then db.removeExpiredUnlocked key else db

/-- Whether the key is in one of the two value maps. -/
def keyExistsUnlocked (db : Database) (key : Bytes) : Bool :=
  (db.store.lookup key).isSome || (db.listStore.lookup key).isSome

/-! ### Core commands -/

/-- `SET`: store a string, dropping a list and a deadline under the same key. -/
def set (key value : Bytes) (db : Database) : Database where
  store := db.store.insert key value
  listStore := db.listStore.erase key
  expiry := db.expiry.erase key

/-- `GET`, with lazy expiry. -/
def get (now : TimePoint) (key : Bytes) (db : Database) : Option Bytes × Database :=
  if db.isExpiredUnlocked now key then (none, db.removeExpiredUnlocked key)
  else (db.store.lookup key, db)

/-- The loop body of `DEL`.  The clock is not read: an expired key that is still present counts. -/
def delStep (acc : Int32 × Database) (key : Bytes) : Int32 × Database :=
  let db := acc.2
  let erased := { db with store := db.store.erase key, listStore := db.listStore.erase key }
  if db.keyExistsUnlocked key then (acc.1 + 1, { erased with expiry := db.expiry.erase key })
  else (acc.1, erased)

/-- `DEL`: remove the keys and count the removals. -/
def del (keys : List Bytes) (db : Database) : Int32 × Database :=
  keys.foldl delStep (0, db)

/-- The loop body of `EXISTS`. -/
def existsStep (now : TimePoint) (acc : Int32 × Database) (key : Bytes) : Int32 × Database :=
  if acc.2.isExpiredUnlocked now key then (acc.1, acc.2.removeExpiredUnlocked key)
  else if acc.2.keyExistsUnlocked key then (acc.1 + 1, acc.2)
  else acc

/-- The loop of `EXISTS`, with one clock reading per key. -/
def existsLoop : (ℕ → TimePoint) → List Bytes → Int32 × Database → Int32 × Database
  | _, [], acc => acc
  | now, key :: keys, acc => existsLoop (fun i => now (i + 1)) keys (existsStep (now 0) acc key)

/-- `EXISTS`: count the keys that are present, with repetitions. -/
def exists_ (now : ℕ → TimePoint) (keys : List Bytes) (db : Database) : Int32 × Database :=
  existsLoop now keys (0, db)

/-- The collecting loop of `KEYS` and `DBSIZE`: the keys split into those that have not expired and
those that have, with one clock reading per key. -/
def collect (db : Database) : (ℕ → TimePoint) → List Bytes → List Bytes × List Bytes
  | _, [] => ([], [])
  | now, key :: keys =>
    let rest := db.collect (fun i => now (i + 1)) keys
    if db.isExpiredUnlocked (now 0) key then (rest.1, key :: rest.2) else (key :: rest.1, rest.2)

/-- Both passes of `KEYS` and `DBSIZE`: the string keys, then the list keys. -/
def collectBoth (now : ℕ → TimePoint) (db : Database) : List Bytes × List Bytes :=
  let strings := db.collect now db.store.keys
  let lists := db.collect (fun i => now (db.store.keys.length + i)) db.listStore.keys
  (strings.1 ++ lists.1, strings.2 ++ lists.2)

/-- `KEYS`: all keys that have not expired; the expired ones found on the way are removed. -/
def keys (now : ℕ → TimePoint) (db : Database) : List Bytes × Database :=
  let found := collectBoth now db
  (found.1, found.2.foldl removeExpiredUnlocked db)

/-- `DBSIZE`: the number of keys that have not expired. -/
def dbsize (now : ℕ → TimePoint) (db : Database) : ℕ × Database :=
  let found := collectBoth now db
  (found.1.length, found.2.foldl removeExpiredUnlocked db)

/-- `FLUSHDB`. -/
def flushdb (_ : Database) : Database :=
  empty

/-! ### List commands -/

/-- The common body of `LPUSH` and `RPUSH`; `ins` puts one value into the list.  The result `-1` on
a string key is the `WRONGTYPE` signal. -/
def push (ins : List Bytes → Bytes → List Bytes) (now : TimePoint) (key : Bytes)
    (values : List Bytes) (db : Database) : Int32 × Database :=
  let db := lazyExpire now key db
  if (db.store.lookup key).isSome then (-1, db)
  else
    let list := values.foldl ins ((db.listStore.lookup key).getD [])
    (Int32.ofNat list.length, { db with listStore := db.listStore.insert key list })

/-- `LPUSH`: push each value to the front. -/
def lpush : TimePoint → Bytes → List Bytes → Database → Int32 × Database :=
  push fun list value => value :: list

/-- `RPUSH`: push each value to the back. -/
def rpush : TimePoint → Bytes → List Bytes → Database → Int32 × Database :=
  push fun list value => list ++ [value]

/-- Delete an emptied list together with its deadline. -/
def eraseList (db : Database) (key : Bytes) : Database :=
  { db with listStore := db.listStore.erase key, expiry := db.expiry.erase key }

/-- The common body of `LPOP` and `RPOP`; `front` reads the popped value and `rest` is the list
without it.  A list that becomes empty is deleted. -/
def pop (front : List Bytes → Option Bytes) (rest : List Bytes → List Bytes) (now : TimePoint)
    (key : Bytes) (db : Database) : Option Bytes × Database :=
  if db.isExpiredUnlocked now key then (none, db.removeExpiredUnlocked key)
  else
    match db.listStore.lookup key with
    | none => (none, db)
    | some list =>
      match front list with
      | none => (none, db.eraseList key)
      | some val =>
        if rest list = [] then (some val, db.eraseList key)
        else (some val, { db with listStore := db.listStore.insert key (rest list) })

/-- `LPOP`. -/
def lpop : TimePoint → Bytes → Database → Option Bytes × Database :=
  pop List.head? List.tail

/-- `RPOP`. -/
def rpop : TimePoint → Bytes → Database → Option Bytes × Database :=
  pop List.getLast? List.dropLast

/-- The index arithmetic and the copying loop of `LRANGE`, on 32-bit integers. -/
def slice (list : List Bytes) (start stop : Int32) : List Bytes :=
  let len := Int32.ofNat list.length
  let start := if start < 0 then len + start else start
  let stop := if stop < 0 then len + stop else stop
  let start := if start < 0 then 0 else start
  let stop := if stop ≥ len then len - 1 else stop
  if start > stop ∨ start ≥ len then []
  else (list.drop start.toInt.toNat).take (stop.toInt - start.toInt + 1).toNat

/-- `LRANGE`. -/
def lrange (now : TimePoint) (key : Bytes) (start stop : Int32) (db : Database) :
    List Bytes × Database :=
  if db.isExpiredUnlocked now key then ([], db.removeExpiredUnlocked key)
  else
    match db.listStore.lookup key with
    | none => ([], db)
    | some list => (slice list start stop, db)

/-- `LLEN`; `-1` on a string key is the `WRONGTYPE` signal. -/
def llen (now : TimePoint) (key : Bytes) (db : Database) : Int32 × Database :=
  if db.isExpiredUnlocked now key then (0, db.removeExpiredUnlocked key)
  else if (db.store.lookup key).isSome then (-1, db)
  else
    match db.listStore.lookup key with
    | none => (0, db)
    | some list => (Int32.ofNat list.length, db)

/-- The index arithmetic of `LINDEX`, on 32-bit integers. -/
def element (list : List Bytes) (index : Int32) : Option Bytes :=
  let len := Int32.ofNat list.length
  let index := if index < 0 then len + index else index
  if index < 0 ∨ index ≥ len then none else list[index.toInt.toNat]?

/-- `LINDEX`. -/
def lindex (now : TimePoint) (key : Bytes) (index : Int32) (db : Database) :
    Option Bytes × Database :=
  if db.isExpiredUnlocked now key then (none, db.removeExpiredUnlocked key)
  else
    match db.listStore.lookup key with
    | none => (none, db)
    | some list => (element list index, db)

/-! ### Deadlines -/

/-- `EXPIRE`: `now₁` is read by the expiry check, `now₂` for the new deadline. -/
def expire (now₁ now₂ : TimePoint) (key : Bytes) (seconds : Int32) (db : Database) :
    Bool × Database :=
  if !db.keyExistsUnlocked key then (false, db)
  else if db.isExpiredUnlocked now₁ key then (false, db.removeExpiredUnlocked key)
  else (true, { db with expiry := db.expiry.insert key (now₂ + seconds.toInt * nsPerSec) })

/-- `TTL`: `now₁` is read by the expiry check, `now₂` for the remaining time, which
`duration_cast` truncates towards zero. -/
def ttl (now₁ now₂ : TimePoint) (key : Bytes) (db : Database) : Int32 × Database :=
  if !db.keyExistsUnlocked key then (-2, db)
  else if db.isExpiredUnlocked now₁ key then (-2, db.removeExpiredUnlocked key)
  else
    match db.expiry.lookup key with
    | none => (-1, db)
    | some deadline => (Int32.ofInt ((deadline - now₂).tdiv nsPerSec), db)

/-- `PERSIST`: remove the deadline, if there is one. -/
def persist (now : TimePoint) (key : Bytes) (db : Database) : Bool × Database :=
  if !db.keyExistsUnlocked key then (false, db)
  else if db.isExpiredUnlocked now key then (false, db.removeExpiredUnlocked key)
  else ((db.expiry.lookup key).isSome, { db with expiry := db.expiry.erase key })

/-- The number of entries one active-expiry scan looks at. -/
def maxSample : ℕ := 20

/-- One active-expiry scan of `expiry_loop`: the first `maxSample` entries of the deadline map, in
iteration order, are looked at, and those whose deadline has passed are removed. -/
def expiryScan (now : TimePoint) (db : Database) : Database :=
  let toDelete := ((db.expiry.entries.take maxSample).filter fun e => decide (e.2 ≤ now)).map
    Sigma.fst
  toDelete.foldl removeExpiredUnlocked db

/-! ### Iteration order -/

/-- The same maps with possibly different iteration orders: what rehashing or copying a
`std::unordered_map` may do. -/
structure Reordered (db db' : Database) : Prop where
  /-- The same strings. -/
  store : db.store.entries.Perm db'.store.entries
  /-- The same lists. -/
  listStore : db.listStore.entries.Perm db'.listStore.entries
  /-- The same deadlines. -/
  expiry : db.expiry.entries.Perm db'.expiry.entries

/-- The iteration orders may stay as they are. -/
theorem Reordered.rfl {db : Database} : db.Reordered db := ⟨.rfl, .rfl, .rfl⟩

end Database

/-! ### Operations as data -/

/-- The operations of the class `Database`, with their arguments. -/
inductive DbOp where
  | set (key value : Bytes)
  | get (key : Bytes)
  | del (keys : List Bytes)
  | exists_ (keys : List Bytes)
  | keys
  | dbsize
  | flushdb
  | lpush (key : Bytes) (values : List Bytes)
  | rpush (key : Bytes) (values : List Bytes)
  | lpop (key : Bytes)
  | rpop (key : Bytes)
  | lrange (key : Bytes) (start stop : Int32)
  | llen (key : Bytes)
  | lindex (key : Bytes) (index : Int32)
  | expire (key : Bytes) (seconds : Int32)
  | ttl (key : Bytes)
  | persist (key : Bytes)
deriving DecidableEq

/-- What an operation returns. -/
inductive DbResult where
  /-- `void`. -/
  | unit
  /-- `std::optional<std::string>`. -/
  | value (v : Option Bytes)
  /-- `int`. -/
  | int (n : Int32)
  /-- `size_t`. -/
  | size (n : ℕ)
  /-- `bool`. -/
  | bool (b : Bool)
  /-- `std::vector<std::string>`. -/
  | strings (l : List Bytes)
deriving DecidableEq

/-- Run an operation; `now i` is the `i`-th clock reading of the call. -/
def DbOp.run (now : ℕ → TimePoint) (db : Database) : DbOp → DbResult × Database
  | .set key value => (.unit, db.set key value)
  | .get key => (db.get (now 0) key).map .value id
  | .del ks => (db.del ks).map .int id
  | .exists_ ks => (db.exists_ now ks).map .int id
  | .keys => (db.keys now).map .strings id
  | .dbsize => (db.dbsize now).map .size id
  | .flushdb => (.unit, db.flushdb)
  | .lpush key values => (db.lpush (now 0) key values).map .int id
  | .rpush key values => (db.rpush (now 0) key values).map .int id
  | .lpop key => (db.lpop (now 0) key).map .value id
  | .rpop key => (db.rpop (now 0) key).map .value id
  | .lrange key start stop => (db.lrange (now 0) key start stop).map .strings id
  | .llen key => (db.llen (now 0) key).map .int id
  | .lindex key index => (db.lindex (now 0) key index).map .value id
  | .expire key seconds => (db.expire (now 0) (now 1) key seconds).map .bool id
  | .ttl key => (db.ttl (now 0) (now 1) key).map .int id
  | .persist key => (db.persist (now 0) key).map .bool id

/-- The push operations are called with at least one value: their handlers check it. -/
def DbOp.PushesSomething : DbOp → Prop
  | .lpush _ values => values ≠ []
  | .rpush _ values => values ≠ []
  | _ => True

end MyRedis
