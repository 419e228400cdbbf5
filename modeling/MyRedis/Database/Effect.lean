import MyRedis.Database.Live

/-!
# Operations at one clock instant

When all clock readings of a call agree, an operation is a function of the live contents: its
effect on them is `DbOp.effect` (`DbOp.live_run`), and its result is read off them.  The only
results that see more are the count returned by `DEL`, which includes expired keys that are still
present, and the order of the keys returned by `KEYS`.
-/

namespace MyRedis

open Foundation

/-- The live contents of a database, as a function of the key. -/
abbrev View := Bytes → Option Entry

/-- The string of a live entry. -/
def strOf : Option Entry → Option Bytes
  | some (.str s, _) => some s
  | _ => none

/-- The list of a live entry. -/
def listOf : Option Entry → Option (List Bytes)
  | some (.list l _, _) => some l
  | _ => none

/-- The effect of an operation at instant `now` on the live contents. -/
def DbOp.effect (now : TimePoint) (v : View) : DbOp → View
  | .set key value => Function.update v key (some (.str value, none))
  | .del ks => fun k => if k ∈ ks then none else v k
  | .flushdb => fun _ => none
  | .lpush key values =>
    Function.update v key (Cell.pushLive (fun list value => value :: list) values (v key))
  | .rpush key values =>
    Function.update v key (Cell.pushLive (fun list value => list ++ [value]) values (v key))
  | .lpop key => Function.update v key (Cell.popLive List.tail (v key))
  | .rpop key => Function.update v key (Cell.popLive List.dropLast (v key))
  | .expire key seconds => Function.update v key (Cell.expireLive now seconds (v key))
  | .persist key => Function.update v key ((v key).map fun e => (e.1, none))
  | .get _ | .exists_ _ | .keys | .dbsize | .lrange _ _ _ | .llen _ | .lindex _ _ | .ttl _ => v

/-- A non-empty list has a first element. -/
theorem head?_ne_none {l : List Bytes} (h : l ≠ []) : l.head? ≠ none := by
  simpa using h

/-- A non-empty list has a last element. -/
theorem getLast?_ne_none {l : List Bytes} (h : l ≠ []) : l.getLast? ≠ none := by
  simpa using h

namespace Database

/-- The loop of `EXISTS` at one instant does not change the live contents. -/
theorem live_existsLoop (now : TimePoint) (keys : List Bytes) (acc : Int32 × Database) :
    (existsLoop (fun _ => now) keys acc).2.live now = acc.2.live now := by
  induction keys generalizing acc with
  | nil => rfl
  | cons key keys ih =>
    rw [existsLoop, ih]
    exact live_of_cell_update_same (cell_existsStep now acc key) (Cell.live_purge now _)

/-- `KEYS` at one instant does not change the live contents. -/
theorem live_keys (now : TimePoint) (db : Database) :
    (db.keys fun _ => now).2.live now = db.live now :=
  live_of_cleared (cell_keys _ db) fun _ hk => (mem_collectBoth_expired hk).choose_spec

/-- `DBSIZE` at one instant does not change the live contents. -/
theorem live_dbsize (now : TimePoint) (db : Database) :
    (db.dbsize fun _ => now).2.live now = db.live now :=
  live_of_cleared (cell_dbsize _ db) fun _ hk => (mem_collectBoth_expired hk).choose_spec

end Database

/-- The effect of an operation at one instant is a function of the live contents. -/
theorem DbOp.live_run (op : DbOp) (now : TimePoint) {db : Database} (hdb : db.Inv) :
    (op.run (fun _ => now) db).2.live now = op.effect now (db.live now) := by
  cases op with
  | set key value => exact Database.live_of_cell_update (db.cell_set key value) now
  | get key => exact Database.live_of_cell_update_same (db.cell_get now key) (Cell.live_purge now _)
  | del ks =>
    funext k
    change ((db.del ks).2.cell k).live now = if k ∈ ks then none else (db.cell k).live now
    rw [Database.cell_del]
    beta_reduce
    split
    · exact Cell.live_del now _
    · rfl
  | exists_ ks => exact Database.live_existsLoop now ks (0, db)
  | keys => exact Database.live_keys now db
  | dbsize => exact Database.live_dbsize now db
  | flushdb => rfl
  | lpush key values =>
    refine (Database.live_of_cell_update (Database.cell_push _ db now key values) now).trans ?_
    rw [Cell.live_push (hdb key)]
    rfl
  | rpush key values =>
    refine (Database.live_of_cell_update (Database.cell_push _ db now key values) now).trans ?_
    rw [Cell.live_push (hdb key)]
    rfl
  | lpop key =>
    refine (Database.live_of_cell_update (Database.cell_pop _ _ db now key) now).trans ?_
    rw [Cell.live_pop (hdb key) fun _ => head?_ne_none]
    rfl
  | rpop key =>
    refine (Database.live_of_cell_update (Database.cell_pop _ _ db now key) now).trans ?_
    rw [Cell.live_pop (hdb key) fun _ => getLast?_ne_none]
    rfl
  | lrange key start stop =>
    exact Database.live_of_cell_update_same (db.cell_lrange now key start stop)
      (Cell.live_purge now _)
  | llen key =>
    exact Database.live_of_cell_update_same (db.cell_llen now key) (Cell.live_purge now _)
  | lindex key index =>
    exact Database.live_of_cell_update_same (db.cell_lindex now key index) (Cell.live_purge now _)
  | expire key seconds =>
    refine (Database.live_of_cell_update (db.cell_expire now now key seconds) now).trans ?_
    rw [Cell.live_expire (hdb key)]
    rfl
  | ttl key =>
    exact Database.live_of_cell_update_same (db.cell_ttl now now key) (Cell.live_purgePresent now _)
  | persist key =>
    refine (Database.live_of_cell_update (db.cell_persist now key) now).trans ?_
    rw [Cell.live_persist (hdb key)]
    rfl

/-! ### Results -/

namespace Cell

/-- The string of a purged cell is the string of the live entry. -/
theorem str_purge {c : Cell} (hc : c.Inv) (now : TimePoint) :
    (c.purge now).str = strOf (c.live now) := by
  rw [purge_eq_ofLive hc]
  rcases c.live now with _ | ⟨_ | _, _⟩ <;> rfl

/-- The list of a purged cell is the list of the live entry. -/
theorem list_purge {c : Cell} (hc : c.Inv) (now : TimePoint) :
    (c.purge now).list = listOf (c.live now) := by
  rw [purge_eq_ofLive hc]
  rcases c.live now with _ | ⟨_ | _, _⟩ <;> rfl

/-- The deadline of a live entry is the deadline of the cell. -/
theorem deadline_of_live {c : Cell} {now : TimePoint} {e : Entry} (h : c.live now = some e) :
    c.deadline = e.2 := by
  unfold live at h
  split at h
  · cases h
  · obtain ⟨v, -, rfl⟩ := Option.map_eq_some_iff.mp h
    rfl

end Cell

namespace Database

variable {db : Database} (hdb : db.Inv) (now : TimePoint)
include hdb

/-- The result of `GET`. -/
theorem get_live (key : Bytes) : (db.get now key).1 = strOf (db.live now key) := by
  rw [get_result, Cell.str_purge (hdb key), live]

/-- The result of a push. -/
theorem push_live (ins : List Bytes → Bytes → List Bytes) (key : Bytes) (values : List Bytes) :
    (push ins now key values db).1 =
      if (strOf (db.live now key)).isSome then -1
      else Int32.ofNat (values.foldl ins ((listOf (db.live now key)).getD [])).length := by
  rw [push_result, Cell.str_purge (hdb key), Cell.list_purge (hdb key), live]

/-- The result of a pop. -/
theorem pop_live (front : List Bytes → Option Bytes) (rest : List Bytes → List Bytes)
    (key : Bytes) :
    (pop front rest now key db).1 = (listOf (db.live now key)).bind front := by
  rw [pop_result, Cell.list_purge (hdb key), live]

/-- The result of `LRANGE`. -/
theorem lrange_live (key : Bytes) (start stop : Int32) :
    (db.lrange now key start stop).1 =
      ((listOf (db.live now key)).map fun l => slice l start stop).getD [] := by
  rw [lrange_result, Cell.list_purge (hdb key), live]

/-- The result of `LLEN`. -/
theorem llen_live (key : Bytes) :
    (db.llen now key).1 =
      if (strOf (db.live now key)).isSome then -1
      else Int32.ofNat ((listOf (db.live now key)).getD []).length := by
  rw [llen_result, Cell.str_purge (hdb key), Cell.list_purge (hdb key), live]

/-- The result of `LINDEX`. -/
theorem lindex_live (key : Bytes) (index : Int32) :
    (db.lindex now key index).1 = (listOf (db.live now key)).bind fun l => element l index := by
  rw [lindex_result, Cell.list_purge (hdb key), live]

/-- The result of `EXPIRE`. -/
theorem expire_live (key : Bytes) (seconds : Int32) :
    (db.expire now now key seconds).1 = (db.live now key).isSome := by
  rw [expire_result, Cell.present_and_not_expired (hdb key), live]

/-- The result of `TTL`. -/
theorem ttl_live (key : Bytes) :
    (db.ttl now now key).1 =
      match db.live now key with
      | none => -2
      | some (_, none) => -1
      | some (_, some deadline) => Int32.ofInt ((deadline - now).tdiv nsPerSec) := by
  rw [ttl_result, Cell.present_and_not_expired (hdb key), live]
  rcases hl : (db.cell key).live now with _ | ⟨v, d⟩
  · rfl
  · rw [Cell.deadline_of_live hl]
    cases d <;> rfl

/-- The result of `PERSIST`. -/
theorem persist_live (key : Bytes) :
    (db.persist now key).1 = ((db.live now key).bind Prod.snd).isSome := by
  rw [persist_result, Cell.present_and_not_expired (hdb key), live]
  rcases hl : (db.cell key).live now with _ | ⟨v, d⟩
  · rfl
  · rw [Cell.deadline_of_live hl]
    cases d <;> rfl

/-- The keys found by `KEYS` and `DBSIZE` are the live ones. -/
theorem mem_collectBoth_live {k : Bytes} :
    k ∈ (collectBoth (fun _ => now) db).1 ↔ (db.live now k).isSome = true := by
  rw [live, ← Cell.present_and_not_expired (hdb k)]
  simp only [collectBoth, collect_const, List.mem_append, List.mem_filter, ← AList.mem_keys,
    ← AList.lookup_isSome, Cell.present, cell, Bool.and_eq_true, Bool.or_eq_true]
  rw [or_and_right]

/-- `KEYS` and `DBSIZE` find no key twice. -/
theorem nodup_collectBoth : (collectBoth (fun _ => now) db).1.Nodup := by
  simp only [collectBoth, collect_const]
  refine List.Nodup.append (db.store.keys_nodup.filter _) (db.listStore.keys_nodup.filter _) ?_
  intro k hs hl
  have hs' := (List.mem_filter.mp hs).1
  have hl' := (List.mem_filter.mp hl).1
  rw [← AList.mem_keys, ← AList.lookup_isSome] at hs' hl'
  rcases (hdb k).single with h | h
  · have hnone : db.store.lookup k = none := h
    simp [hnone] at hs'
  · have hnone : db.listStore.lookup k = none := h
    simp [hnone] at hl'

omit hdb in
/-- Counting in `int` steps. -/
private theorem ofNat_succ (n : ℕ) : Int32.ofNat n + 1 = Int32.ofNat (n + 1) := by
  rw [Int32.ofNat_add]
  rfl

omit hdb in
/-- The loop of `EXISTS` counts the live keys. -/
theorem existsLoop_live (keys : List Bytes) (n : ℕ) {db : Database} (hdb : db.Inv) :
    (existsLoop (fun _ => now) keys (Int32.ofNat n, db)).1 =
      Int32.ofNat (n + keys.countP fun k => (db.live now k).isSome) := by
  induction keys generalizing n db with
  | nil => rfl
  | cons key keys ih =>
    have hinv : (existsStep now (Int32.ofNat n, db) key).2.Inv := by
      intro k
      rw [cell_existsStep]
      by_cases hk : k = key
      · subst hk
        rw [Function.update_self, Cell.purge]
        split
        · exact Cell.inv_empty
        · exact hdb k
      · rw [Function.update_of_ne hk]
        exact hdb k
    have hlive : (existsStep now (Int32.ofNat n, db) key).2.live now = db.live now :=
      live_of_cell_update_same (cell_existsStep now _ key) (Cell.live_purge now _)
    have hcount : (existsStep now (Int32.ofNat n, db) key).1 =
        Int32.ofNat (if (db.live now key).isSome then n + 1 else n) := by
      rw [existsStep_result, Cell.present_purge (hdb key), live]
      split
      · exact ofNat_succ n
      · rfl
    rw [existsLoop, ← Prod.mk.eta (p := existsStep now (Int32.ofNat n, db) key), hcount,
      ih _ hinv, hlive, List.countP_cons]
    congr 1
    split
    · omega
    · omega

/-- The result of `EXISTS`. -/
theorem exists_live (keys : List Bytes) :
    (db.exists_ (fun _ => now) keys).1 =
      Int32.ofNat (keys.countP fun k => (db.live now k).isSome) := by
  have h := existsLoop_live now keys 0 hdb
  rwa [Nat.zero_add] at h

end Database

end MyRedis
