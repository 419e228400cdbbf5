import MyRedis.Database.Cell
import MyRedis.Foundation.Footprint

/-!
# Operations on different keys

Most operations are given the keys they work on (`DbOp.Keyed`, `DbOp.keyList`).  Such an operation
is confined to the cells of these keys (`DbOp.confined_run`), also where it purges an expired key or
deletes an emptied list.  Operations on different keys therefore commute (`DbOp.run_commute`).
-/

namespace MyRedis

open Foundation

namespace DbOp

/-- The keys that an operation is given. -/
def keyList : DbOp → List Bytes
  | .set key _ | .get key | .lpush key _ | .rpush key _ | .lpop key | .rpop key | .lrange key _ _
  | .llen key | .lindex key _ | .expire key _ | .ttl key | .persist key => [key]
  | .del ks | .exists_ ks => ks
  | .keys | .dbsize | .flushdb => []

/-- The operation works on the keys that it is given, and not on the whole database. -/
def Keyed : DbOp → Prop
  | .keys | .dbsize | .flushdb => False
  | _ => True

instance : DecidablePred Keyed := fun op => by
  cases op <;> first | exact instDecidableTrue | exact instDecidableFalse

end DbOp

namespace Database

/-! ### The loops over keys -/

/-- The count after the loop body of `DEL`. -/
theorem delStep_result (acc : Int32 × Database) (key : Bytes) :
    (delStep acc key).1 = if (acc.2.cell key).present then acc.1 + 1 else acc.1 := by
  by_cases h : (acc.2.cell key).present = true
  · simp only [delStep, keyExistsUnlocked_eq, h, if_true]
  · simp only [delStep, keyExistsUnlocked_eq, h, if_false, Bool.false_eq_true]

/-- The loop body of `DEL` is confined to its key. -/
theorem confined_delStep (n : Int32) (key : Bytes) :
    Confined cell [key] fun db => delStep (n, db) key :=
  .single (fun c => if c.present then n + 1 else n) Cell.del
    (fun db => delStep_result (n, db) key) fun db => cell_delStep (n, db) key

/-- The loop of `DEL` is confined to its keys. -/
theorem confined_delLoop (ks : List Bytes) (n : Int32) :
    Confined cell ks fun db => ks.foldl delStep (n, db) := by
  induction ks generalizing n with
  | nil => exact .pure cell n
  | cons key ks ih => exact (confined_delStep n key).bind ih

/-- The loop body of `EXISTS` is confined to its key. -/
theorem confined_existsStep (now : TimePoint) (n : Int32) (key : Bytes) :
    Confined cell [key] fun db => existsStep now (n, db) key :=
  .single (fun c => if (c.purge now).present then n + 1 else n) (Cell.purge now)
    (fun db => existsStep_result now (n, db) key) fun db => cell_existsStep now (n, db) key

/-- The loop of `EXISTS` is confined to its keys. -/
theorem confined_existsLoop (now : ℕ → TimePoint) (ks : List Bytes) (n : Int32) :
    Confined cell ks fun db => existsLoop now ks (n, db) := by
  induction ks generalizing now n with
  | nil => exact .pure cell n
  | cons key ks ih => exact (confined_existsStep (now 0) n key).bind (ih fun i => now (i + 1))

/-! ### Operations with one key -/

/-- An operation that purges its key and reads the cell afterwards. -/
theorem confined_purging {α : Type} {now : TimePoint} {key : Bytes} {f : Database → α × Database}
    (result : Cell → α) (hresult : ∀ db, (f db).1 = result ((db.cell key).purge now))
    (hcell : ∀ db, (f db).2.cell = Function.update db.cell key ((db.cell key).purge now)) :
    Confined cell [key] f :=
  .single (fun c => result (c.purge now)) (Cell.purge now) hresult hcell

/-- A push is confined to its key. -/
theorem confined_push (ins : List Bytes → Bytes → List Bytes) (now : TimePoint) (key : Bytes)
    (values : List Bytes) : Confined cell [key] (push ins now key values) :=
  .single (fun c => if (c.purge now).str.isSome then -1
      else Int32.ofNat (values.foldl ins ((c.purge now).list.getD [])).length)
    (Cell.push ins now values) (fun db => push_result ins db now key values)
    fun db => cell_push ins db now key values

/-- A pop is confined to its key. -/
theorem confined_pop (front : List Bytes → Option Bytes) (rest : List Bytes → List Bytes)
    (now : TimePoint) (key : Bytes) : Confined cell [key] (pop front rest now key) :=
  .single (fun c => (c.purge now).list.bind front) (Cell.pop front rest now)
    (fun db => pop_result front rest db now key) fun db => cell_pop front rest db now key

/-! ### States with the same cells -/

/-- Maps with the same lookups differ in their order only. -/
theorem perm_of_lookup_eq {V : Type} {m m' : UnorderedMap Bytes V}
    (h : ∀ k, m.lookup k = m'.lookup k) : m.entries.Perm m'.entries := by
  refine List.lookup_ext m.nodupKeys m'.nodupKeys fun k v => ?_
  exact iff_of_eq (congrArg (v ∈ ·) (h k))

/-- States with the same cells have the same maps. -/
theorem reordered_of_cell_eq {db db' : Database} (h : db.cell = db'.cell) : db.Reordered db' where
  store := perm_of_lookup_eq fun k => congrArg Cell.str (congrFun h k)
  listStore := perm_of_lookup_eq fun k => congrArg Cell.list (congrFun h k)
  expiry := perm_of_lookup_eq fun k => congrArg Cell.deadline (congrFun h k)

end Database

namespace DbOp

open Database

/-- What `ttl` returns for a key, given its cell. -/
def ttlOfCell (now : ℕ → TimePoint) (c : Cell) : Int32 :=
  if c.present && !c.expired (now 0) then
    match c.deadline with
    | none => -1
    | some deadline => Int32.ofInt ((deadline - now 1).tdiv nsPerSec)
  else -2

/-- An operation with keys reads and writes the cells of these keys only. -/
theorem confined_run {op : DbOp} (hop : op.Keyed) (now : ℕ → TimePoint) :
    Confined cell op.keyList fun db => op.run now db := by
  cases op with
  | set key value =>
    exact .single (fun _ => .unit) (fun _ => ⟨some value, none, none⟩) (fun _ => rfl)
      fun db => db.cell_set key value
  | get key =>
    exact (confined_purging (fun c => c.str) (fun db => db.get_result _ key)
      fun db => db.cell_get _ key).map _
  | del ks => exact (confined_delLoop ks 0).map _
  | exists_ ks => exact (confined_existsLoop now ks 0).map _
  | keys | dbsize | flushdb => exact hop.elim
  | lpush key values | rpush key values => exact (confined_push _ _ key values).map _
  | lpop key | rpop key => exact (confined_pop _ _ _ key).map _
  | lrange key start stop =>
    exact (confined_purging (fun c => (c.list.map fun l => slice l start stop).getD [])
      (fun db => db.lrange_result _ key start stop) fun db => db.cell_lrange _ key start stop).map _
  | llen key =>
    exact (confined_purging
      (fun c => if c.str.isSome then -1 else Int32.ofNat (c.list.getD []).length)
      (fun db => db.llen_result _ key) fun db => db.cell_llen _ key).map _
  | lindex key index =>
    exact (confined_purging (fun c => c.list.bind fun l => element l index)
      (fun db => db.lindex_result _ key index) fun db => db.cell_lindex _ key index).map _
  | expire key seconds =>
    exact (Confined.single (fun c => c.present && !c.expired (now 0))
      (Cell.expire (now 0) (now 1) seconds) (fun db => db.expire_result _ _ key seconds)
      fun db => db.cell_expire _ _ key seconds).map DbResult.bool
  | ttl key =>
    exact (Confined.single (ttlOfCell now) (Cell.purgePresent (now 0))
      (fun db => db.ttl_result _ _ key) fun db => db.cell_ttl _ _ key).map DbResult.int
  | persist key =>
    exact (Confined.single (fun c => c.present && !c.expired (now 0) && c.deadline.isSome)
      (Cell.persist (now 0)) (fun db => db.persist_result _ key)
      fun db => db.cell_persist _ key).map DbResult.bool

/-- **Operations on different keys commute.**  In every state of the database, and whatever the
clock shows during the two calls, each of two operations whose keys differ returns the same before
and after the other one, and the order in which they are executed cannot be told from the three maps
afterwards. -/
theorem run_commute {op₁ op₂ : DbOp} (hop₁ : op₁.Keyed) (hop₂ : op₂.Keyed)
    (hdisj : op₁.keyList.Disjoint op₂.keyList) (now₁ now₂ : ℕ → TimePoint) (db : Database) :
    (op₂.run now₂ (op₁.run now₁ db).2).1 = (op₂.run now₂ db).1 ∧
      (op₁.run now₁ (op₂.run now₂ db).2).1 = (op₁.run now₁ db).1 ∧
      (op₂.run now₂ (op₁.run now₁ db).2).2.Reordered (op₁.run now₁ (op₂.run now₂ db).2).2 := by
  have h₁ := confined_run hop₁ now₁
  have h₂ := confined_run hop₂ now₂
  exact ⟨h₁.result_after h₂ hdisj db, h₂.result_after h₁ hdisj.symm db,
    reordered_of_cell_eq (h₁.commute h₂ hdisj db)⟩

/-- A list is emptied, and two other keys are counted one of which has expired: in either order the
value is popped, and in either order the expired key is removed. -/
theorem run_commute_pop_and_exists :
    let now : ℕ → TimePoint := fun _ => 2 * nsPerSec
    let db := ((DbOp.expire (ascii "b") 1).run (fun _ => 0)
      ((Database.empty.set (ascii "b") (ascii "x")).rpush 0 (ascii "a") [ascii "y"]).2).2
    let pop := DbOp.lpop (ascii "a")
    let count := DbOp.exists_ [ascii "b", ascii "c"]
    (count.run now (pop.run now db).2).1 = (count.run now db).1 ∧
      (pop.run now (count.run now db).2).1 = .value (some (ascii "y")) ∧
      (count.run now (pop.run now db).2).2.Reordered (pop.run now (count.run now db).2).2 := by
  intro now db pop count
  have hpop : (pop.run now db).1 = .value (some (ascii "y")) := by decide
  have hkeyed : pop.Keyed ∧ count.Keyed := by decide
  have hdisj : pop.keyList.Disjoint count.keyList := List.singleton_disjoint.mpr (by decide)
  obtain ⟨hcount, hvalue, hmaps⟩ := run_commute hkeyed.1 hkeyed.2 hdisj now now db
  exact ⟨hcount, hvalue.trans hpop, hmaps⟩

end DbOp

end MyRedis
