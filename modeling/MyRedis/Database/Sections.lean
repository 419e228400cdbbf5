import MyRedis.Database.Commuting
import MyRedis.Foundation.CriticalSections
import MyRedis.Persistence.Basic

/-!
# The methods of the database as critical sections

Every method of the class `Database` runs between locking and unlocking `mutex_`.  Here the methods
are code of single accesses to the three maps and to the clock, as `database.cpp` makes them: each
`find`, `count`, `erase` or assignment is an access of its own, and so is each step of a loop over a
map.  An insertion may rehash the map, and a copy of a map may have another order than the map.

What the code does when it runs alone is shown in `MyRedis.Database.SectionEffects`.
-/

namespace MyRedis

open Foundation

/-! ### Accesses -/

/-- The three maps. -/
inductive MapName where
  | store
  | listStore
  | expiry
deriving DecidableEq

/-- What a map holds under a key. -/
abbrev MapName.Value : MapName → Type
  | .store => Bytes
  | .listStore => List Bytes
  | .expiry => TimePoint

namespace Database

/-- The map of this name. -/
def map (db : Database) : (m : MapName) → UnorderedMap Bytes m.Value
  | .store => db.store
  | .listStore => db.listStore
  | .expiry => db.expiry

/-- Replace the map of this name. -/
def setMap (db : Database) : (m : MapName) → UnorderedMap Bytes m.Value → Database
  | .store, x => { db with store := x }
  | .listStore, x => { db with listStore := x }
  | .expiry, x => { db with expiry := x }

@[simp] theorem map_store (db : Database) : db.map .store = db.store := rfl

@[simp] theorem map_listStore (db : Database) : db.map .listStore = db.listStore := rfl

@[simp] theorem map_expiry (db : Database) : db.map .expiry = db.expiry := rfl

end Database

/-- The changes made to a `std::deque` through a reference. -/
inductive DequeEdit where
  | pushFront (value : Bytes)
  | pushBack (value : Bytes)
  | popFront
  | popBack

/-- The list after a change. -/
def DequeEdit.apply (list : List Bytes) : DequeEdit → List Bytes
  | .pushFront value => value :: list
  | .pushBack value => list ++ [value]
  | .popFront => list.tail
  | .popBack => list.dropLast

/-- The accesses of the methods. -/
inductive DbAccess where
  /-- `std::chrono::steady_clock::now()`. -/
  | now
  /-- `find` and `count`: what the map holds under the key. -/
  | find (m : MapName) (key : Bytes)
  /-- The assignment `map[key] = value`. -/
  | assign (m : MapName) (key : Bytes) (value : m.Value)
  /-- `erase` of a key. -/
  | erase (m : MapName) (key : Bytes)
  /-- The reference `list_store_[key]`, which inserts an empty list under a new key. -/
  | reference (key : Bytes)
  /-- The list that the reference refers to. -/
  | deref (key : Bytes)
  /-- A change of the list that the reference refers to. -/
  | edit (key : Bytes) (e : DequeEdit)
  /-- `size` and `empty`. -/
  | size (m : MapName)
  /-- The entry at a position of the iteration. -/
  | entryAt (m : MapName) (i : ℕ)
  /-- `clear`. -/
  | clear (m : MapName)
  /-- A copy of the map. -/
  | copy (m : MapName)
  /-- The assignment of a whole map. -/
  | replace (m : MapName) (x : UnorderedMap Bytes m.Value)

namespace DbAccess

/-- The type of the reply to an access. -/
abbrev Reply : DbAccess → Type
  | now => TimePoint
  | find m _ => Option m.Value
  | assign _ _ _ => Unit
  | erase _ _ => Bool
  | reference _ => Unit
  | deref _ => List Bytes
  | edit _ _ => Unit
  | size _ => ℕ
  | entryAt m _ => Option (Bytes × m.Value)
  | clear _ => Unit
  | copy m => UnorderedMap Bytes m.Value
  | replace _ _ => Unit

/-- What an access does at an instant. -/
def Perform : (a : DbAccess) → TimePoint → Database → a.Reply → Database → Prop
  | now, t, db, r, db' => r = t ∧ db' = db
  | find m key, _, db, r, db' => r = (db.map m).lookup key ∧ db' = db
  | assign m key value, _, db, _, db' =>
    ∃ x, ((db.map m).insert key value).entries.Perm x.entries ∧ db' = db.setMap m x
  | erase m key, _, db, r, db' =>
    r = ((db.map m).lookup key).isSome ∧ db' = db.setMap m ((db.map m).erase key)
  | reference key, _, db, _, db' =>
    if (db.listStore.lookup key).isSome then db' = db
    else ∃ x, (db.listStore.insert key []).entries.Perm x.entries ∧ db' = db.setMap .listStore x
  | deref key, _, db, r, db' => r = (db.listStore.lookup key).getD [] ∧ db' = db
  | edit key e, _, db, _, db' =>
    ∃ x, (db.listStore.insert key (e.apply ((db.listStore.lookup key).getD []))).entries.Perm
      x.entries ∧ db' = db.setMap .listStore x
  | size m, _, db, r, db' => r = (db.map m).keys.length ∧ db' = db
  | entryAt m i, _, db, r, db' =>
    r = ((db.map m).entries[i]?).map (fun e => (e.1, e.2)) ∧ db' = db
  | clear m, _, db, _, db' => db' = db.setMap m ∅
  | copy m, _, db, r, db' => (db.map m).entries.Perm r.entries ∧ db' = db
  | replace m x, _, db, _, db' => ∃ y, x.entries.Perm y.entries ∧ db' = db.setMap m y

/-- The accesses that only read. -/
def Reads : DbAccess → Prop
  | now | find _ _ | deref _ | size _ | entryAt _ _ | copy _ => True
  | assign _ _ _ | erase _ _ | reference _ | edit _ _ | clear _ | replace _ _ => False

/-- The outcome of an access when no map changes its order without need. -/
def outcome : (a : DbAccess) → TimePoint → Database → a.Reply × Database
  | now, t, db => (t, db)
  | find m key, _, db => ((db.map m).lookup key, db)
  | assign m key value, _, db => ((), db.setMap m ((db.map m).insert key value))
  | erase m key, _, db =>
    (((db.map m).lookup key).isSome, db.setMap m ((db.map m).erase key))
  | reference key, _, db =>
    ((), if (db.listStore.lookup key).isSome then db
      else db.setMap .listStore (db.listStore.insert key []))
  | deref key, _, db => ((db.listStore.lookup key).getD [], db)
  | edit key e, _, db => ((), db.setMap .listStore
      (db.listStore.insert key (e.apply ((db.listStore.lookup key).getD []))))
  | size m, _, db => ((db.map m).keys.length, db)
  | entryAt m i, _, db => (((db.map m).entries[i]?).map (fun e => (e.1, e.2)), db)
  | clear m, _, db => ((), db.setMap m ∅)
  | copy m, _, db => (db.map m, db)
  | replace m x, _, db => ((), db.setMap m x)

/-- This is one of the outcomes. -/
theorem perform_outcome (a : DbAccess) (t : TimePoint) (db : Database) :
    a.Perform t db (a.outcome t db).1 (a.outcome t db).2 := by
  cases a with
  | now | find | erase | deref | size | entryAt => exact ⟨rfl, rfl⟩
  | assign | edit | replace => exact ⟨_, .rfl, rfl⟩
  | clear => exact rfl
  | copy m => exact ⟨.rfl, rfl⟩
  | reference key =>
    by_cases h : (db.listStore.lookup key).isSome = true
    · simp [Perform, outcome, h]
    · simp only [Perform, outcome, if_neg h]
      exact ⟨_, .rfl, rfl⟩

/-- An access that only reads leaves the database alone. -/
theorem eq_of_reads {a : DbAccess} {t : TimePoint} {db db' : Database} {r : a.Reply}
    (ha : a.Reads) (h : a.Perform t db r db') : db' = db := by
  cases a with
  | now | find | deref | size | entryAt | copy => exact h.2
  | assign | erase | reference | edit | clear | replace => exact ha.elim

end DbAccess

/-! ### The methods -/

/-- Code of a method. -/
abbrev DbCode := Code DbAccess DbAccess.Reply

namespace DbCode

/-- Make one access. -/
def access (a : DbAccess) : DbCode a.Reply :=
  Code.perform a

/-- `is_expired_unlocked`; the clock is read only for a key with a deadline. -/
def isExpiredUnlocked (key : Bytes) : DbCode Bool := do
  match ← access (.find .expiry key) with
  | none => return false
  | some deadline =>
    let now ← access .now
    return decide (deadline ≤ now)

/-- `remove_expired_unlocked`. -/
def removeExpiredUnlocked (key : Bytes) : DbCode Unit := do
  let _ ← access (.erase .store key)
  let _ ← access (.erase .listStore key)
  let _ ← access (.erase .expiry key)
  return ()

/-- `key_exists_unlocked`. -/
def keyExistsUnlocked (key : Bytes) : DbCode Bool := do
  let str ← access (.find .store key)
  if str.isSome then return true
  else
    let list ← access (.find .listStore key)
    return list.isSome

/-- `set`. -/
def set (key value : Bytes) : DbCode Unit := do
  let _ ← access (.erase .listStore key)
  access (.assign .store key value)
  let _ ← access (.erase .expiry key)
  return ()

/-- `get`. -/
def get (key : Bytes) : DbCode (Option Bytes) := do
  if ← isExpiredUnlocked key then
    removeExpiredUnlocked key
    return none
  else
    access (.find .store key)

/-- The loop of `del`. -/
def delLoop : List Bytes → Int32 → DbCode Int32
  | [], count => return count
  | key :: keys, count => do
    let removed ← access (.erase .store key)
    let removedList ← access (.erase .listStore key)
    if removed || removedList then
      let _ ← access (.erase .expiry key)
      delLoop keys (count + 1)
    else
      delLoop keys count

/-- The loop of `exists`. -/
def existsLoop : List Bytes → Int32 → DbCode Int32
  | [], count => return count
  | key :: keys, count => do
    if ← isExpiredUnlocked key then
      removeExpiredUnlocked key
      existsLoop keys count
    else if ← keyExistsUnlocked key then
      existsLoop keys (count + 1)
    else
      existsLoop keys count

/-- A loop of `keys` and `dbsize` over one map, which has `n` entries from position `i` on. -/
def collectLoop (m : MapName) : ℕ → ℕ → List Bytes × List Bytes → DbCode (List Bytes × List Bytes)
  | 0, _, found => return found
  | n + 1, i, found => do
    match ← access (.entryAt m i) with
    | none => return found
    | some (key, _) =>
      if ← isExpiredUnlocked key then
        collectLoop m n (i + 1) (found.1, found.2 ++ [key])
      else
        collectLoop m n (i + 1) (found.1 ++ [key], found.2)

/-- The two loops of `keys` and `dbsize`. -/
def collectBoth : DbCode (List Bytes × List Bytes) := do
  let n ← access (.size .store)
  let strings ← collectLoop .store n 0 ([], [])
  let n ← access (.size .listStore)
  collectLoop .listStore n 0 strings

/-- Remove the keys one by one. -/
def removeAll : List Bytes → DbCode Unit
  | [] => return ()
  | key :: keys => do
    removeExpiredUnlocked key
    removeAll keys

/-- `keys`. -/
def keys : DbCode (List Bytes) := do
  let found ← collectBoth
  removeAll found.2
  return found.1

/-- `dbsize`. -/
def dbsize : DbCode ℕ := do
  let found ← collectBoth
  removeAll found.2
  return found.1.length

/-- `flushdb`. -/
def flushdb : DbCode Unit := do
  access (.clear .store)
  access (.clear .listStore)
  access (.clear .expiry)

/-- Make a change of a list for each value. -/
def editLoop (key : Bytes) (ins : Bytes → DequeEdit) : List Bytes → DbCode Unit
  | [] => return ()
  | value :: values => do
    access (.edit key (ins value))
    editLoop key ins values

/-- What a push does once an expired key is gone. -/
def pushValues (ins : Bytes → DequeEdit) (key : Bytes) (values : List Bytes) : DbCode Int32 := do
  let str ← access (.find .store key)
  if str.isSome then
    return -1
  else
    access (.reference key)
    editLoop key ins values
    let list ← access (.deref key)
    return Int32.ofNat list.length

/-- The common body of `lpush` and `rpush`. -/
def push (ins : Bytes → DequeEdit) (key : Bytes) (values : List Bytes) : DbCode Int32 := do
  if ← isExpiredUnlocked key then
    removeExpiredUnlocked key
  pushValues ins key values

/-- Delete a list together with its deadline. -/
def eraseList (key : Bytes) : DbCode Unit := do
  let _ ← access (.erase .listStore key)
  let _ ← access (.erase .expiry key)
  return ()

/-- What a pop does with the list that it has found. -/
def popValue (front : List Bytes → Option Bytes) (e : DequeEdit) (key : Bytes)
    (list : List Bytes) : DbCode (Option Bytes) := do
  match front list with
  | none =>
    eraseList key
    return none
  | some val =>
    access (.edit key e)
    let list ← access (.deref key)
    if list = [] then
      eraseList key
    return some val

/-- The common body of `lpop` and `rpop`. -/
def pop (front : List Bytes → Option Bytes) (e : DequeEdit) (key : Bytes) :
    DbCode (Option Bytes) := do
  if ← isExpiredUnlocked key then
    removeExpiredUnlocked key
    return none
  else
    match ← access (.find .listStore key) with
    | none => return none
    | some list => popValue front e key list

/-- `lrange`. -/
def lrange (key : Bytes) (start stop : Int32) : DbCode (List Bytes) := do
  if ← isExpiredUnlocked key then
    removeExpiredUnlocked key
    return []
  else
    match ← access (.find .listStore key) with
    | none => return []
    | some list => return Database.slice list start stop

/-- `llen`. -/
def llen (key : Bytes) : DbCode Int32 := do
  if ← isExpiredUnlocked key then
    removeExpiredUnlocked key
    return 0
  else
    let str ← access (.find .store key)
    if str.isSome then
      return -1
    else
      match ← access (.find .listStore key) with
      | none => return 0
      | some list => return Int32.ofNat list.length

/-- `lindex`. -/
def lindex (key : Bytes) (index : Int32) : DbCode (Option Bytes) := do
  if ← isExpiredUnlocked key then
    removeExpiredUnlocked key
    return none
  else
    match ← access (.find .listStore key) with
    | none => return none
    | some list => return Database.element list index

/-- `expire`. -/
def expire (key : Bytes) (seconds : Int32) : DbCode Bool := do
  if !(← keyExistsUnlocked key) then
    return false
  else if ← isExpiredUnlocked key then
    removeExpiredUnlocked key
    return false
  else
    let now ← access .now
    access (.assign .expiry key (now + seconds.toInt * nsPerSec))
    return true

/-- `ttl`. -/
def ttl (key : Bytes) : DbCode Int32 := do
  if !(← keyExistsUnlocked key) then
    return -2
  else if ← isExpiredUnlocked key then
    removeExpiredUnlocked key
    return -2
  else
    match ← access (.find .expiry key) with
    | none => return -1
    | some deadline =>
      let now ← access .now
      return Int32.ofInt ((deadline - now).tdiv nsPerSec)

/-- `persist`. -/
def persist (key : Bytes) : DbCode Bool := do
  if !(← keyExistsUnlocked key) then
    return false
  else if ← isExpiredUnlocked key then
    removeExpiredUnlocked key
    return false
  else
    access (.erase .expiry key)

/-- The sampling loop of `expiry_loop`. -/
def sampleLoop (now : TimePoint) : ℕ → ℕ → List Bytes → DbCode (List Bytes)
  | 0, _, toDelete => return toDelete
  | n + 1, i, toDelete => do
    match ← access (.entryAt .expiry i) with
    | none => return toDelete
    | some (key, deadline) =>
      sampleLoop now n (i + 1) (if deadline ≤ now then toDelete ++ [key] else toDelete)

/-- What a round of `expiry_loop` does under the lock. -/
def expiryScan : DbCode Unit := do
  let n ← access (.size .expiry)
  if n = 0 then
    return ()
  else
    let now ← access .now
    let toDelete ← sampleLoop now Database.maxSample 0 []
    removeAll toDelete

/-- `get_snapshot`. -/
def getSnapshot : DbCode DatabaseSnapshot := do
  let store ← access (.copy .store)
  let listStore ← access (.copy .listStore)
  let expiry ← access (.copy .expiry)
  return ⟨store, listStore, expiry⟩

/-- `load_snapshot`. -/
def loadSnapshot (snapshot : DatabaseSnapshot) : DbCode Unit := do
  access (.replace .store snapshot.store)
  access (.replace .listStore snapshot.listStore)
  access (.replace .expiry snapshot.expiry)

/-- The code of an operation. -/
def ofOp : DbOp → DbCode DbResult
  | .set key value => do
    set key value
    return .unit
  | .get key => .value <$> get key
  | .del ks => .int <$> delLoop ks 0
  | .exists_ ks => .int <$> existsLoop ks 0
  | .keys => .strings <$> keys
  | .dbsize => .size <$> dbsize
  | .flushdb => do
    flushdb
    return .unit
  | .lpush key values => .int <$> push .pushFront key values
  | .rpush key values => .int <$> push .pushBack key values
  | .lpop key => .value <$> pop List.head? .popFront key
  | .rpop key => .value <$> pop List.getLast? .popBack key
  | .lrange key start stop => .strings <$> lrange key start stop
  | .llen key => .int <$> llen key
  | .lindex key index => .value <$> lindex key index
  | .expire key seconds => .bool <$> expire key seconds
  | .ttl key => .int <$> ttl key
  | .persist key => .bool <$> persist key

end DbCode

end MyRedis
