import MyRedis.Database.Basic

/-!
# The database cell by cell

Every operation of the database works key by key.  The *cell* of a key is what the three maps hold
under it, and each operation replaces the cells of the keys it names and leaves all others alone.
This file states the effect of every operation as an update of the cell function and its result as
a function of the cells read.  All later facts about the database (the representation invariant,
the live contents, the refinement of the timed map) are derived from these equations and never
unfold an operation again.
-/

namespace MyRedis

open Foundation

/-- What the three maps hold under one key. -/
@[ext] structure Cell where
  /-- The string value. -/
  str : Option Bytes
  /-- The list value. -/
  list : Option (List Bytes)
  /-- The deadline. -/
  deadline : Option TimePoint
deriving DecidableEq

namespace Cell

/-- The cell of a key that is in none of the maps. -/
def empty : Cell := ⟨none, none, none⟩

/-- The deadline has been reached. -/
def expired (now : TimePoint) (c : Cell) : Bool :=
  match c.deadline with
  | none => false
  | some deadline => decide (deadline ≤ now)

/-- The key is in one of the two value maps. -/
def present (c : Cell) : Bool :=
  c.str.isSome || c.list.isSome

/-- Lazy expiry. -/
def purge (now : TimePoint) (c : Cell) : Cell :=
  if c.expired now then empty else c

/-- Deletion, which keeps the deadline of a key without a value. -/
def del (c : Cell) : Cell :=
  if c.present then empty else c

/-- Deleting twice is deleting once. -/
theorem del_del (c : Cell) : c.del.del = c.del := by
  unfold del
  by_cases h : c.present = true
  · rw [if_pos h]
    rfl
  · rw [if_neg h, if_neg h]

/-- The effect of a push. -/
def push (ins : List Bytes → Bytes → List Bytes) (now : TimePoint) (values : List Bytes)
    (c : Cell) : Cell :=
  if (c.purge now).str.isSome then c.purge now
  else { c.purge now with list := some (values.foldl ins ((c.purge now).list.getD [])) }

/-- The effect of a pop. -/
def pop (front : List Bytes → Option Bytes) (rest : List Bytes → List Bytes) (now : TimePoint)
    (c : Cell) : Cell :=
  match (c.purge now).list with
  | none => c.purge now
  | some l =>
    if front l = none ∨ rest l = [] then { c.purge now with list := none, deadline := none }
    else { c.purge now with list := some (rest l) }

/-- Lazy expiry behind a presence check. -/
def purgePresent (now : TimePoint) (c : Cell) : Cell :=
  if c.present then c.purge now else c

/-- The effect of `EXPIRE`. -/
def expire (now₁ now₂ : TimePoint) (seconds : Int32) (c : Cell) : Cell :=
  if !c.present then c
  else if c.expired now₁ then empty
  else { c with deadline := some (now₂ + seconds.toInt * nsPerSec) }

/-- The effect of `PERSIST`. -/
def persist (now : TimePoint) (c : Cell) : Cell :=
  if !c.present then c
  else if c.expired now then empty
  else { c with deadline := none }

end Cell

/-! ### Lookups after an update of a hash map -/

section UnorderedMap

variable {K V : Type} [DecidableEq K]

/-- Inserting a key updates the lookup function. -/
theorem lookup_insert_eq_update (m : UnorderedMap K V) (a : K) (b : V) :
    (fun k => (m.insert a b).lookup k) = Function.update (fun k => m.lookup k) a (some b) := by
  funext k
  by_cases h : k = a
  · subst h
    rw [AList.lookup_insert, Function.update_self]
  · rw [AList.lookup_insert_ne h, Function.update_of_ne h]

/-- Erasing a key updates the lookup function. -/
theorem lookup_erase_eq_update (m : UnorderedMap K V) (a : K) :
    (fun k => (m.erase a).lookup k) = Function.update (fun k => m.lookup k) a none := by
  funext k
  by_cases h : k = a
  · subst h
    rw [AList.lookup_erase, Function.update_self]
  · rw [AList.lookup_erase_ne h, Function.update_of_ne h]

end UnorderedMap

namespace Database

/-- The cell of a key. -/
def cell (db : Database) (key : Bytes) : Cell :=
  ⟨db.store.lookup key, db.listStore.lookup key, db.expiry.lookup key⟩

@[simp] theorem cell_empty (key : Bytes) : empty.cell key = Cell.empty := rfl

/-- The expiry check reads the cell. -/
theorem isExpiredUnlocked_eq (db : Database) (now : TimePoint) (key : Bytes) :
    db.isExpiredUnlocked now key = (db.cell key).expired now := rfl

/-- The presence check reads the cell. -/
theorem keyExistsUnlocked_eq (db : Database) (key : Bytes) :
    db.keyExistsUnlocked key = (db.cell key).present := rfl

/-- A state whose three lookup functions differ from those of `db` at `key` only has the cells of
`db` but for that of `key`. -/
theorem cell_eq_update {db db' : Database} {key : Bytes} {c : Cell}
    (hstore : (fun k => db'.store.lookup k) =
      Function.update (fun k => db.store.lookup k) key c.str)
    (hlist : (fun k => db'.listStore.lookup k) =
      Function.update (fun k => db.listStore.lookup k) key c.list)
    (hexpiry : (fun k => db'.expiry.lookup k) =
      Function.update (fun k => db.expiry.lookup k) key c.deadline) :
    db'.cell = Function.update db.cell key c := by
  funext k
  have hs := congrFun hstore k
  have hl := congrFun hlist k
  have he := congrFun hexpiry k
  by_cases h : k = key
  · subst h
    simp only [Function.update_self] at hs hl he ⊢
    rw [cell, hs, hl, he]
  · simp only [Function.update_of_ne h] at hs hl he ⊢
    rw [cell, cell, hs, hl, he]

/-! ### The effect of each operation -/

/-- Removing a key empties its cell. -/
theorem cell_removeExpiredUnlocked (db : Database) (key : Bytes) :
    (db.removeExpiredUnlocked key).cell = Function.update db.cell key Cell.empty :=
  cell_eq_update (lookup_erase_eq_update _ _) (lookup_erase_eq_update _ _)
    (lookup_erase_eq_update _ _)

/-- `SET` fills the cell with the string alone. -/
theorem cell_set (db : Database) (key value : Bytes) :
    (db.set key value).cell = Function.update db.cell key ⟨some value, none, none⟩ :=
  cell_eq_update (lookup_insert_eq_update _ _ _) (lookup_erase_eq_update _ _)
    (lookup_erase_eq_update _ _)

/-- Lazy expiry purges the key. -/
theorem cell_lazyExpire (db : Database) (now : TimePoint) (key : Bytes) :
    (lazyExpire now key db).cell = Function.update db.cell key ((db.cell key).purge now) := by
  rw [lazyExpire, isExpiredUnlocked_eq, Cell.purge]
  split
  · exact cell_removeExpiredUnlocked db key
  · rw [Function.update_eq_self]

/-- `GET` purges the key. -/
theorem cell_get (db : Database) (now : TimePoint) (key : Bytes) :
    (db.get now key).2.cell = Function.update db.cell key ((db.cell key).purge now) := by
  rw [← cell_lazyExpire]
  unfold lazyExpire get
  split <;> rfl

/-- `GET` returns the string of the purged cell. -/
theorem get_result (db : Database) (now : TimePoint) (key : Bytes) :
    (db.get now key).1 = ((db.cell key).purge now).str := by
  unfold get Cell.purge
  rw [isExpiredUnlocked_eq]
  split <;> rfl

/-- One round of `DEL` deletes one key. -/
theorem cell_delStep (acc : Int32 × Database) (key : Bytes) :
    (delStep acc key).2.cell = Function.update acc.2.cell key (acc.2.cell key).del := by
  by_cases h : (acc.2.cell key).present = true
  · simp only [delStep, Cell.del, keyExistsUnlocked_eq, h, if_true]
    exact cell_eq_update (lookup_erase_eq_update _ _) (lookup_erase_eq_update _ _)
      (lookup_erase_eq_update _ _)
  · have habsent : (acc.2.cell key).str = none ∧ (acc.2.cell key).list = none := by
      simpa [Cell.present] using h
    simp only [delStep, Cell.del, keyExistsUnlocked_eq, h, if_false, Bool.false_eq_true]
    apply cell_eq_update
    · rw [habsent.1]
      exact lookup_erase_eq_update _ _
    · rw [habsent.2]
      exact lookup_erase_eq_update _ _
    · exact (Function.update_eq_self _ _).symm

/-- One round of `EXISTS` purges one key. -/
theorem cell_existsStep (now : TimePoint) (acc : Int32 × Database) (key : Bytes) :
    (existsStep now acc key).2.cell =
      Function.update acc.2.cell key ((acc.2.cell key).purge now) := by
  rw [← cell_lazyExpire]
  unfold lazyExpire existsStep
  split
  · rfl
  · split <;> rfl

/-- One round of `EXISTS` counts a key that is present after the purge. -/
theorem existsStep_result (now : TimePoint) (acc : Int32 × Database) (key : Bytes) :
    (existsStep now acc key).1 =
      if ((acc.2.cell key).purge now).present then acc.1 + 1 else acc.1 := by
  unfold existsStep Cell.purge
  rw [isExpiredUnlocked_eq, keyExistsUnlocked_eq]
  split
  · rfl
  · split <;> rfl

/-- Replacing the list of a key replaces the list of its cell. -/
private theorem cell_insert_list (db : Database) (key : Bytes) (l : List Bytes) :
    ({ db with listStore := db.listStore.insert key l } : Database).cell =
      Function.update db.cell key { db.cell key with list := some l } :=
  cell_eq_update (Function.update_eq_self _ _).symm (lookup_insert_eq_update _ _ _)
    (Function.update_eq_self _ _).symm

/-- A push replaces the list of the purged cell, unless that cell holds a string. -/
theorem cell_push (ins : List Bytes → Bytes → List Bytes) (db : Database) (now : TimePoint)
    (key : Bytes) (values : List Bytes) :
    (push ins now key values db).2.cell =
      Function.update db.cell key ((db.cell key).push ins now values) := by
  have hpurge := cell_lazyExpire db now key
  have hself : (lazyExpire now key db).cell key = (db.cell key).purge now := by
    rw [hpurge, Function.update_self]
  have hstr : (lazyExpire now key db).store.lookup key = ((db.cell key).purge now).str :=
    congrArg Cell.str hself
  have hlist : (lazyExpire now key db).listStore.lookup key = ((db.cell key).purge now).list :=
    congrArg Cell.list hself
  unfold Cell.push
  by_cases h : ((db.cell key).purge now).str.isSome = true
  · simp only [push, hstr, h, if_true]
    exact hpurge
  · simp only [push, hstr, hlist, h, if_false, Bool.false_eq_true]
    rw [cell_insert_list, hself, hpurge, Function.update_idem]

/-- A push returns the new length, or `-1` when the purged cell holds a string. -/
theorem push_result (ins : List Bytes → Bytes → List Bytes) (db : Database) (now : TimePoint)
    (key : Bytes) (values : List Bytes) :
    (push ins now key values db).1 =
      if ((db.cell key).purge now).str.isSome then -1
      else Int32.ofNat (values.foldl ins (((db.cell key).purge now).list.getD [])).length := by
  have hself : (lazyExpire now key db).cell key = (db.cell key).purge now := by
    rw [cell_lazyExpire, Function.update_self]
  have hstr : (lazyExpire now key db).store.lookup key = ((db.cell key).purge now).str :=
    congrArg Cell.str hself
  have hlist : (lazyExpire now key db).listStore.lookup key = ((db.cell key).purge now).list :=
    congrArg Cell.list hself
  simp only [push, hstr, hlist]
  split <;> rfl

/-- A pop shortens the list of the purged cell and empties the cell with the list. -/
theorem cell_pop (front : List Bytes → Option Bytes) (rest : List Bytes → List Bytes)
    (db : Database) (now : TimePoint) (key : Bytes) :
    (pop front rest now key db).2.cell =
      Function.update db.cell key ((db.cell key).pop front rest now) := by
  unfold pop Cell.pop Cell.purge
  rw [isExpiredUnlocked_eq]
  by_cases hexp : (db.cell key).expired now = true
  · simp only [hexp, if_true]
    exact cell_removeExpiredUnlocked db key
  · simp only [hexp, if_false, Bool.false_eq_true]
    have herased : (db.eraseList key).cell =
        Function.update db.cell key { db.cell key with list := none, deadline := none } :=
      cell_eq_update (Function.update_eq_self _ _).symm (lookup_erase_eq_update _ _)
        (lookup_erase_eq_update _ _)
    have hlist : (db.cell key).list = db.listStore.lookup key := rfl
    rw [hlist]
    cases hl : db.listStore.lookup key with
    | none => rw [Function.update_eq_self]
    | some l =>
      simp only
      cases hf : front l with
      | none => simpa using herased
      | some v =>
        simp only [reduceCtorEq, false_or]
        split
        · exact herased
        · exact cell_insert_list db key (rest l)

/-- A pop returns the front of the list of the purged cell. -/
theorem pop_result (front : List Bytes → Option Bytes) (rest : List Bytes → List Bytes)
    (db : Database) (now : TimePoint) (key : Bytes) :
    (pop front rest now key db).1 = ((db.cell key).purge now).list.bind front := by
  unfold pop Cell.purge
  rw [isExpiredUnlocked_eq]
  by_cases hexp : (db.cell key).expired now = true
  · simp only [hexp, if_true]
    rfl
  · simp only [hexp, if_false, Bool.false_eq_true]
    have hlist : (db.cell key).list = db.listStore.lookup key := rfl
    rw [hlist]
    cases hl : db.listStore.lookup key with
    | none => rfl
    | some l =>
      simp only [Option.bind_some]
      cases hf : front l with
      | none => rfl
      | some v =>
        simp only
        split <;> rfl

/-- `LRANGE` purges the key. -/
theorem cell_lrange (db : Database) (now : TimePoint) (key : Bytes) (start stop : Int32) :
    (db.lrange now key start stop).2.cell =
      Function.update db.cell key ((db.cell key).purge now) := by
  rw [← cell_lazyExpire]
  unfold lazyExpire lrange
  split
  · rfl
  · split <;> rfl

/-- `LRANGE` returns a slice of the list of the purged cell. -/
theorem lrange_result (db : Database) (now : TimePoint) (key : Bytes) (start stop : Int32) :
    (db.lrange now key start stop).1 =
      (((db.cell key).purge now).list.map fun l => slice l start stop).getD [] := by
  unfold lrange Cell.purge
  rw [isExpiredUnlocked_eq]
  split
  · rfl
  · have hlist : (db.cell key).list = db.listStore.lookup key := rfl
    rw [hlist]
    cases db.listStore.lookup key <;> rfl

/-- `LLEN` purges the key. -/
theorem cell_llen (db : Database) (now : TimePoint) (key : Bytes) :
    (db.llen now key).2.cell = Function.update db.cell key ((db.cell key).purge now) := by
  rw [← cell_lazyExpire]
  unfold lazyExpire llen
  split
  · rfl
  · split
    · rfl
    · split <;> rfl

/-- `LLEN` returns the length of the list of the purged cell, or `-1` for a string. -/
theorem llen_result (db : Database) (now : TimePoint) (key : Bytes) :
    (db.llen now key).1 =
      if ((db.cell key).purge now).str.isSome then -1
      else Int32.ofNat (((db.cell key).purge now).list.getD []).length := by
  unfold llen Cell.purge
  rw [isExpiredUnlocked_eq]
  by_cases hexp : (db.cell key).expired now = true
  · simp only [hexp, if_true]
    rfl
  · simp only [hexp, if_false, Bool.false_eq_true]
    have hstr : (db.cell key).str = db.store.lookup key := rfl
    have hlist : (db.cell key).list = db.listStore.lookup key := rfl
    rw [hstr, hlist]
    split
    · rfl
    · cases db.listStore.lookup key <;> rfl

/-- `LINDEX` purges the key. -/
theorem cell_lindex (db : Database) (now : TimePoint) (key : Bytes) (index : Int32) :
    (db.lindex now key index).2.cell =
      Function.update db.cell key ((db.cell key).purge now) := by
  rw [← cell_lazyExpire]
  unfold lazyExpire lindex
  split
  · rfl
  · split <;> rfl

/-- `LINDEX` returns an element of the list of the purged cell. -/
theorem lindex_result (db : Database) (now : TimePoint) (key : Bytes) (index : Int32) :
    (db.lindex now key index).1 =
      ((db.cell key).purge now).list.bind fun l => element l index := by
  unfold lindex Cell.purge
  rw [isExpiredUnlocked_eq]
  split
  · rfl
  · have hlist : (db.cell key).list = db.listStore.lookup key := rfl
    rw [hlist]
    cases db.listStore.lookup key <;> rfl

/-- `EXPIRE` sets the deadline of a present key. -/
theorem cell_expire (db : Database) (now₁ now₂ : TimePoint) (key : Bytes) (seconds : Int32) :
    (db.expire now₁ now₂ key seconds).2.cell =
      Function.update db.cell key ((db.cell key).expire now₁ now₂ seconds) := by
  unfold expire Cell.expire
  rw [isExpiredUnlocked_eq, keyExistsUnlocked_eq]
  split
  · rw [Function.update_eq_self]
  · split
    · exact cell_removeExpiredUnlocked db key
    · exact cell_eq_update (Function.update_eq_self _ _).symm (Function.update_eq_self _ _).symm
        (lookup_insert_eq_update _ _ _)

/-- `EXPIRE` succeeds on a present key that has not expired. -/
theorem expire_result (db : Database) (now₁ now₂ : TimePoint) (key : Bytes) (seconds : Int32) :
    (db.expire now₁ now₂ key seconds).1 =
      ((db.cell key).present && !(db.cell key).expired now₁) := by
  unfold expire
  rw [isExpiredUnlocked_eq, keyExistsUnlocked_eq]
  cases (db.cell key).present <;> cases (db.cell key).expired now₁ <;> rfl

/-- `TTL` purges a present key. -/
theorem cell_ttl (db : Database) (now₁ now₂ : TimePoint) (key : Bytes) :
    (db.ttl now₁ now₂ key).2.cell =
      Function.update db.cell key ((db.cell key).purgePresent now₁) := by
  unfold ttl Cell.purgePresent Cell.purge
  rw [isExpiredUnlocked_eq, keyExistsUnlocked_eq]
  cases hp : (db.cell key).present with
  | false => simp
  | true =>
    simp only [Bool.not_true, Bool.false_eq_true, if_false, if_true]
    split
    · exact cell_removeExpiredUnlocked db key
    · rw [Function.update_eq_self]
      split <;> rfl

/-- `TTL` returns `-2` for an absent or expired key, `-1` for a key without a deadline, and
otherwise the remaining whole seconds. -/
theorem ttl_result (db : Database) (now₁ now₂ : TimePoint) (key : Bytes) :
    (db.ttl now₁ now₂ key).1 =
      if (db.cell key).present && !(db.cell key).expired now₁ then
        match (db.cell key).deadline with
        | none => -1
        | some deadline => Int32.ofInt ((deadline - now₂).tdiv nsPerSec)
      else -2 := by
  unfold ttl
  rw [isExpiredUnlocked_eq, keyExistsUnlocked_eq]
  have hdl : (db.cell key).deadline = db.expiry.lookup key := rfl
  rw [hdl]
  cases (db.cell key).present
  · rfl
  · cases (db.cell key).expired now₁
    · simp only [Bool.not_true, Bool.not_false, Bool.and_self, Bool.false_eq_true, if_false,
        if_true]
      cases db.expiry.lookup key <;> rfl
    · rfl

/-- `PERSIST` drops the deadline of a present key. -/
theorem cell_persist (db : Database) (now : TimePoint) (key : Bytes) :
    (db.persist now key).2.cell = Function.update db.cell key ((db.cell key).persist now) := by
  unfold persist Cell.persist
  rw [isExpiredUnlocked_eq, keyExistsUnlocked_eq]
  split
  · rw [Function.update_eq_self]
  · split
    · exact cell_removeExpiredUnlocked db key
    · exact cell_eq_update (Function.update_eq_self _ _).symm (Function.update_eq_self _ _).symm
        (lookup_erase_eq_update _ _)

/-- `PERSIST` reports whether a deadline was dropped. -/
theorem persist_result (db : Database) (now : TimePoint) (key : Bytes) :
    (db.persist now key).1 =
      ((db.cell key).present && !(db.cell key).expired now &&
        (db.cell key).deadline.isSome) := by
  unfold persist
  rw [isExpiredUnlocked_eq, keyExistsUnlocked_eq]
  have hdl : (db.cell key).deadline = db.expiry.lookup key := rfl
  rw [hdl]
  cases (db.cell key).present <;> cases (db.cell key).expired now <;> simp

/-! ### Loops over keys -/

/-- Removing a list of keys empties their cells. -/
theorem cell_foldl_removeExpiredUnlocked (keys : List Bytes) (db : Database) :
    (keys.foldl removeExpiredUnlocked db).cell =
      fun k => if k ∈ keys then Cell.empty else db.cell k := by
  induction keys generalizing db with
  | nil => simp
  | cons key keys ih =>
    rw [List.foldl_cons, ih]
    funext k
    rw [cell_removeExpiredUnlocked]
    by_cases hmem : k ∈ keys
    · simp [hmem]
    · by_cases hk : k = key
      · subst hk
        simp [hmem]
      · simp [hmem, hk]

/-- `DEL` deletes exactly the listed keys. -/
theorem cell_del (keys : List Bytes) (db : Database) :
    (db.del keys).2.cell = fun k => if k ∈ keys then (db.cell k).del else db.cell k := by
  have hloop : ∀ acc : Int32 × Database, (keys.foldl delStep acc).2.cell =
      fun k => if k ∈ keys then (acc.2.cell k).del else acc.2.cell k := by
    induction keys with
    | nil => simp
    | cons key keys ih =>
      intro acc
      rw [List.foldl_cons, ih]
      funext k
      rw [cell_delStep]
      by_cases hk : k = key
      · subst hk
        simp [Cell.del_del]
      · simp [hk]
  exact hloop (0, db)

/-- The keys that the collecting loop finds expired were listed and have expired at their
reading. -/
theorem mem_collect_expired {db : Database} {now : ℕ → TimePoint} {keys : List Bytes} {k : Bytes}
    (h : k ∈ (db.collect now keys).2) : k ∈ keys ∧ ∃ i, (db.cell k).expired (now i) = true := by
  induction keys generalizing now with
  | nil => simp [collect] at h
  | cons key keys ih =>
    simp only [collect] at h
    split at h
    · rename_i hexp
      rcases List.mem_cons.mp h with rfl | h
      · exact ⟨List.mem_cons_self, 0, hexp⟩
      · obtain ⟨hmem, i, hi⟩ := ih h
        exact ⟨List.mem_cons_of_mem _ hmem, i + 1, hi⟩
    · obtain ⟨hmem, i, hi⟩ := ih h
      exact ⟨List.mem_cons_of_mem _ hmem, i + 1, hi⟩

/-- At one clock instant the collecting loop is a filter. -/
theorem collect_const (db : Database) (now : TimePoint) (keys : List Bytes) :
    db.collect (fun _ => now) keys =
      (keys.filter fun k => !(db.cell k).expired now,
        keys.filter fun k => (db.cell k).expired now) := by
  induction keys with
  | nil => rfl
  | cons key keys ih =>
    simp only [collect, ih, isExpiredUnlocked_eq, List.filter_cons]
    cases (db.cell key).expired now <;> rfl

/-- A key found expired by `KEYS` or `DBSIZE` has expired at one of the readings. -/
theorem mem_collectBoth_expired {db : Database} {now : ℕ → TimePoint} {k : Bytes}
    (h : k ∈ (collectBoth now db).2) : ∃ i, (db.cell k).expired (now i) = true := by
  rcases List.mem_append.mp h with h | h
  · exact (mem_collect_expired h).2
  · obtain ⟨-, i, hi⟩ := mem_collect_expired h
    exact ⟨_, hi⟩

/-- `KEYS` empties the cells of the keys it finds expired. -/
theorem cell_keys (now : ℕ → TimePoint) (db : Database) :
    (db.keys now).2.cell = fun k => if k ∈ (collectBoth now db).2 then Cell.empty else db.cell k :=
  cell_foldl_removeExpiredUnlocked _ _

/-- `DBSIZE` empties the cells of the keys it finds expired. -/
theorem cell_dbsize (now : ℕ → TimePoint) (db : Database) :
    (db.dbsize now).2.cell =
      fun k => if k ∈ (collectBoth now db).2 then Cell.empty else db.cell k :=
  cell_foldl_removeExpiredUnlocked _ _

/-- The keys that one active-expiry scan removes. -/
def scanned (now : TimePoint) (db : Database) : List Bytes :=
  ((db.expiry.entries.take maxSample).filter fun e => decide (e.2 ≤ now)).map Sigma.fst

/-- An active-expiry scan empties the cells of the keys it removes. -/
theorem cell_expiryScan (now : TimePoint) (db : Database) :
    (db.expiryScan now).cell = fun k => if k ∈ db.scanned now then Cell.empty else db.cell k :=
  cell_foldl_removeExpiredUnlocked _ _

/-- A key removed by a scan has expired. -/
theorem expired_of_mem_scanned {db : Database} {now : TimePoint} {k : Bytes}
    (h : k ∈ db.scanned now) : (db.cell k).expired now = true := by
  obtain ⟨e, he, rfl⟩ := List.mem_map.mp h
  obtain ⟨hmem, hle⟩ := List.mem_filter.mp he
  have hlook : db.expiry.lookup e.1 = some e.2 :=
    AList.mem_lookup_iff.mpr (List.mem_of_mem_take hmem)
  simpa [Cell.expired, cell, hlook] using hle

/-- The cells do not depend on the iteration order. -/
theorem Reordered.cell_eq {db db' : Database} (h : Reordered db db') : db'.cell = db.cell := by
  funext k
  rw [cell, cell, AList.perm_lookup h.store, AList.perm_lookup h.listStore,
    AList.perm_lookup h.expiry]

end Database

end MyRedis
