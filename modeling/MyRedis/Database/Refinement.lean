import MyRedis.Foundation.TimedSimulation
import MyRedis.Database.Deleting
import MyRedis.Database.Effect
import MyRedis.Database.Slicing

/-!
# The database refines a timed map

The abstract store is a finite map from keys to a value (a string or a non-empty list) and an
optional deadline, in which a key whose deadline has been reached does not exist.  `TimedStore.step`
is the meaning of each operation on it, written without any reference to lazy removal or to the
widths of numbers, and an active-expiry scan does nothing at all.

`timedSimulation` shows that the concrete database, with its three maps, its purging reads and its
background scans, simulates the timed store along every run with non-decreasing instants, whatever
the iteration orders of its maps are.  It reports and uses lengths as an `int`, so a run has the
results of the timed store if and only if no list grows beyond the range of an `int` and no `EXISTS`
counts beyond it (`database_refines_timedMap`).
-/

namespace MyRedis

open Foundation

/-! ### The abstract store -/

/-- The abstract store. -/
abbrev TimedStore := TimedMap Bytes Value TimePoint

/-- What the specification says about a result. -/
inductive SpecResult where
  /-- Exactly this result. -/
  | exactly (r : DbResult)
  /-- This number. -/
  | number (n : ℤ)
  /-- A number from `low` to `high`, if `high` is an `int`. -/
  | range (low high : ℕ)
  /-- These keys, in any order and each once. -/
  | keySet (s : Finset Bytes)

/-- A result of the database meets the specification. -/
def DbResult.Meets : DbResult → SpecResult → Prop
  | r, .exactly r' => r = r'
  | .int x, .number n => x.toInt = n
  | .int x, .range low high => high < 2 ^ 31 → (low : ℤ) ≤ x.toInt ∧ x.toInt ≤ high
  | .strings l, .keySet s => l.Nodup ∧ l.toFinset = s
  | _, _ => False

namespace TimedStore

/-- Store a list under a key; storing the empty list deletes the key. -/
def putList (key : Bytes) (l : List Bytes) (deadline : Option TimePoint) (m : TimedStore) :
    TimedStore :=
  match Value.ofList l with
  | some v => m.insert key (v, deadline)
  | none => m.erase key

/-- The list of a key; a key that does not exist or has a string counts as an empty list. -/
def listAt (now : TimePoint) (key : Bytes) (m : TimedStore) : List Bytes :=
  (listOf (m.lookupAt now key)).getD []

/-- A push of `values`, given the list that results when the key holds `l`. -/
def push (result : List Bytes → List Bytes) (now : TimePoint) (key : Bytes) (m : TimedStore) :
    SpecResult × TimedStore :=
  match m.lookupAt now key with
  | some (.str _, _) => (.number (-1), m)
  | some (.list l _, d) => (.number (result l).length, putList key (result l) d m)
  | none => (.number (result []).length, putList key (result []) none m)

/-- A pop, given the popped element and the remaining list. -/
def pop (front : List Bytes → Option Bytes) (rest : List Bytes → List Bytes) (now : TimePoint)
    (key : Bytes) (m : TimedStore) : SpecResult × TimedStore :=
  match m.lookupAt now key with
  | some (.list l _, d) => (.exactly (.value (front l)), putList key (rest l) d m)
  | _ => (.exactly (.value none), m)

/-- The meaning of an operation on the abstract store at instant `now`.  The count of `DEL` is not
determined, since keys that do not exist any more may be counted: it lies between the number of the
listed keys that exist and the number of the listed keys. -/
def apply (now : TimePoint) (m : TimedStore) : DbOp → SpecResult × TimedStore
  | .set key value => (.exactly .unit, m.insert key (.str value, none))
  | .get key => (.exactly (.value (strOf (m.lookupAt now key))), m)
  | .del ks =>
    (.range (Database.listed ks fun key => (m.lookupAt now key).isSome).card ks.toFinset.card,
      ks.foldl (fun m key => m.erase key) m)
  | .exists_ ks => (.number (ks.countP fun key => (m.lookupAt now key).isSome), m)
  | .keys => (.keySet (m.keysAt now), m)
  | .dbsize => (.exactly (.size (m.keysAt now).card), m)
  | .flushdb => (.exactly .unit, ∅)
  | .lpush key values => push (fun l => values.reverse ++ l) now key m
  | .rpush key values => push (fun l => l ++ values) now key m
  | .lpop key => pop List.head? List.tail now key m
  | .rpop key => pop List.getLast? List.dropLast now key m
  | .lrange key start stop =>
    let l := m.listAt now key
    (.exactly (.strings (Database.elementsBetween l (Database.positionOf l.length start)
      (Database.positionOf l.length stop))), m)
  | .llen key =>
    match m.lookupAt now key with
    | some (.str _, _) => (.number (-1), m)
    | some (.list l _, _) => (.number l.length, m)
    | none => (.number 0, m)
  | .lindex key index =>
    let l := m.listAt now key
    (.exactly (.value (Database.elementAtPosition l (Database.positionOf l.length index))), m)
  | .expire key seconds =>
    match m.lookupAt now key with
    | some (v, _) =>
      (.exactly (.bool true), m.insert key (v, some (now + seconds.toInt * nsPerSec)))
    | none => (.exactly (.bool false), m)
  | .ttl key =>
    match m.lookupAt now key with
    | some (_, some d) => (.number ((d - now) / nsPerSec), m)
    | some (_, none) => (.number (-1), m)
    | none => (.number (-2), m)
  | .persist key =>
    match m.lookupAt now key with
    | some (v, some _) => (.exactly (.bool true), m.insert key (v, none))
    | _ => (.exactly (.bool false), m)

/-- The operation is within the range of an `int`: so are the lengths of the list that it makes or
looks at, the number of keys that it counts, and the remaining time in seconds. -/
def Fits (now : TimePoint) (m : TimedStore) : DbOp → Prop
  | .exists_ ks => (ks.countP fun key => (m.lookupAt now key).isSome) < 2 ^ 31
  | .lpush key values | .rpush key values =>
    strOf (m.lookupAt now key) = none → (m.listAt now key).length + values.length < 2 ^ 31
  | .lrange key _ _ | .llen key | .lindex key _ => (m.listAt now key).length < 2 ^ 31
  | .ttl key => ∀ v d, m.lookupAt now key = some (v, some d) → d - now < 2 ^ 31 * nsPerSec
  | .set _ _ | .get _ | .del _ | .keys | .dbsize | .flushdb | .lpop _ | .rpop _ | .expire _ _
  | .persist _ => True

end TimedStore

/-! ### Runs -/

/-- An event of a run: an operation at an instant, or an active-expiry scan. -/
inductive DbEvent where
  | op (o : DbOp) (now : TimePoint)
  | scan (now : TimePoint)

/-- The instant of an event. -/
def DbEvent.time : DbEvent → TimePoint
  | .op _ now => now
  | .scan now => now

/-- The push operations of a run have at least one value. -/
def DbEvent.PushesSomething : DbEvent → Prop
  | .op o _ => o.PushesSomething
  | .scan _ => True

/-- The event is within the range of an `int`. -/
def DbEvent.Fits (m : TimedStore) : DbEvent → Prop
  | .op o now => m.Fits now o
  | .scan _ => True

/-- One event of the concrete database.  Before it, the iteration orders may change. -/
inductive DbStep : Database → DbEvent → Option DbResult → Database → Prop
  | op {db db₁ : Database} (h : db.Reordered db₁) (o : DbOp) (now : TimePoint) :
      DbStep db (.op o now) (some (o.run (fun _ => now) db₁).1) (o.run (fun _ => now) db₁).2
  | scan {db db₁ : Database} (h : db.Reordered db₁) (now : TimePoint) :
      DbStep db (.scan now) none (db₁.expiryScan now)

/-- One event of the abstract store; a scan is no event there. -/
def TimedStore.step (m : TimedStore) : DbEvent → Option SpecResult × TimedStore
  | .op o now => (TimedStore.apply now m o).map some id
  | .scan _ => (none, m)

/-- The results of an event: both are results of an operation and match, or there is none. -/
def ResultMeets : Option DbResult → Option SpecResult → Prop
  | some r, some r' => r.Meets r'
  | none, none => True
  | _, _ => False

/-! ### The simulation -/

/-- Storing a list updates the view. -/
theorem TimedStore.lookupAt_putList {now : TimePoint} {d : Option TimePoint}
    (hd : aliveAt now d = true) (m : TimedStore) (key : Bytes) (l : List Bytes) :
    (putList key l d m).lookupAt now =
      Function.update (m.lookupAt now) key ((Value.ofList l).map fun v => (v, d)) := by
  unfold putList
  cases Value.ofList l with
  | none => exact TimedMap.lookupAt_erase now m key
  | some v =>
    simp only [Option.map_some]
    rw [TimedMap.lookupAt_insert, if_pos hd]

/-- A live entry of the store is alive. -/
theorem TimedStore.aliveAt_of_lookupAt {now : TimePoint} {m : TimedStore} {key : Bytes}
    {e : Entry} (h : m.lookupAt now key = some e) : aliveAt now e.2 = true :=
  (Option.filter_eq_some_iff.mp h).2

/-- The effect of a push on the view. -/
theorem TimedStore.lookupAt_push {ins : List Bytes → Bytes → List Bytes}
    {result : List Bytes → List Bytes} {values : List Bytes}
    (hresult : ∀ l, values.foldl ins l = result l) (now : TimePoint) (key : Bytes)
    (m : TimedStore) :
    (push result now key m).2.lookupAt now =
      Function.update (m.lookupAt now) key (Cell.pushLive ins values (m.lookupAt now key)) := by
  unfold push
  rcases h : m.lookupAt now key with _ | ⟨_ | ⟨l, hl⟩, d⟩
  · simp only [Cell.pushLive, hresult]
    exact lookupAt_putList rfl m key _
  · simp only [Cell.pushLive]
    rw [← h, Function.update_eq_self]
  · simp only [Cell.pushLive, hresult]
    exact lookupAt_putList (aliveAt_of_lookupAt h) m key _

/-- The effect of a pop on the view. -/
theorem TimedStore.lookupAt_pop (front : List Bytes → Option Bytes)
    (rest : List Bytes → List Bytes) (now : TimePoint) (key : Bytes) (m : TimedStore) :
    (pop front rest now key m).2.lookupAt now =
      Function.update (m.lookupAt now) key (Cell.popLive rest (m.lookupAt now key)) := by
  unfold pop
  rcases h : m.lookupAt now key with _ | ⟨_ | ⟨l, hl⟩, d⟩
  · simp only [Cell.popLive]
    rw [← h, Function.update_eq_self]
  · simp only [Cell.popLive]
    rw [← h, Function.update_eq_self]
  · simp only [Cell.popLive]
    exact lookupAt_putList (aliveAt_of_lookupAt h) m key _

/-- Erasing a list of keys. -/
theorem TimedStore.lookupAt_foldl_erase (now : TimePoint) (ks : List Bytes) (m : TimedStore) :
    TimedMap.lookupAt now (ks.foldl (fun m key => m.erase key) m) =
      fun k => if k ∈ ks then none else m.lookupAt now k := by
  induction ks generalizing m with
  | nil => simp
  | cons key ks ih =>
    rw [List.foldl_cons, ih, TimedMap.lookupAt_erase]
    funext k
    by_cases hmem : k ∈ ks
    · simp [hmem]
    · by_cases hk : k = key
      · subst hk
        simp
      · simp [hmem, hk]

/-- The effect of an operation on the view of the store is `DbOp.effect`. -/
theorem TimedStore.lookupAt_apply (now : TimePoint) (m : TimedStore) (o : DbOp) :
    (apply now m o).2.lookupAt now = o.effect now (m.lookupAt now) := by
  cases o with
  | set key value => exact TimedMap.lookupAt_insert now m key _
  | del ks => exact lookupAt_foldl_erase now ks m
  | lpush key values =>
    exact lookupAt_push (fun l => List.foldl_flip_cons_eq_append') now key m
  | rpush key values =>
    exact lookupAt_push (foldl_concat_eq_append values) now key m
  | lpop key => exact lookupAt_pop _ _ now key m
  | rpop key => exact lookupAt_pop _ _ now key m
  | llen key =>
    simp only [apply, DbOp.effect]
    rcases m.lookupAt now key with _ | ⟨_ | _, _⟩ <;> rfl
  | expire key seconds =>
    simp only [apply, DbOp.effect]
    rcases h : m.lookupAt now key with _ | ⟨v, d⟩
    · simp only [Cell.expireLive]
      rw [← h, Function.update_eq_self]
    · simp only [Cell.expireLive]
      rw [TimedMap.lookupAt_insert]
      congr 1
      have halive : (now < now + seconds.toInt * nsPerSec) ↔ 0 < seconds.toInt := by
        rw [lt_add_iff_pos_right]
        change (0 : ℤ) < seconds.toInt * 1000000000 ↔ 0 < seconds.toInt
        omega
      simp only [aliveAt, halive, decide_eq_true_eq]
  | ttl key =>
    simp only [apply, DbOp.effect]
    rcases m.lookupAt now key with _ | ⟨_, _ | _⟩ <;> rfl
  | persist key =>
    simp only [apply, DbOp.effect]
    rcases h : m.lookupAt now key with _ | ⟨v, _ | d⟩
    · simp only [Option.map_none]
      rw [← h, Function.update_eq_self]
    · simp only [Option.map_some]
      rw [← h, Function.update_eq_self]
    · simp only [Option.map_some]
      rw [TimedMap.lookupAt_insert]
      rfl
  | get | exists_ | keys | dbsize | flushdb | lrange | lindex => rfl

/-- An `int` holds a natural number below `2 ^ 31`, and no other one. -/
theorem toInt_ofNat_eq_iff (n : ℕ) : (Int32.ofNat n).toInt = n ↔ n < 2 ^ 31 := by
  have h := Database.toInt_ofNat_add_eq_iff n 0
  rw [Nat.add_zero] at h
  exact h.trans (and_iff_right (dvd_zero _))

/-- A number of seconds below the limit. -/
theorem toInt_ofInt_seconds {ns : ℤ} (hnonneg : 0 ≤ ns) (hlimit : ns < 2 ^ 31 * nsPerSec) :
    (Int32.ofInt (ns / nsPerSec)).toInt = ns / nsPerSec := by
  have hns : nsPerSec = 1000000000 := rfl
  rw [hns] at hlimit ⊢
  exact Int32.toInt_ofInt_of_le (by omega) (by omega)

section Results

variable {db : Database} (hdb : db.Inv) {now : TimePoint} {m : TimedStore}
  (hview : db.live now = m.lookupAt now)
include hdb hview

/-- The result of a push is right if and only if an `int` can hold the new length. -/
theorem push_meets_iff {ins : List Bytes → Bytes → List Bytes} {result : List Bytes → List Bytes}
    {values : List Bytes} (hresult : ∀ l, values.foldl ins l = result l)
    (hlength : ∀ l, (result l).length = l.length + values.length) (key : Bytes) :
    (DbResult.int (Database.push ins now key values db).1).Meets
        (TimedStore.push result now key m).1 ↔
      (strOf (m.lookupAt now key) = none →
        (m.listAt now key).length + values.length < 2 ^ 31) := by
  have hnumber (l : List Bytes) : (Int32.ofNat (result l).length).toInt = (result l).length ↔
      l.length + values.length < 2 ^ 31 := by
    rw [toInt_ofNat_eq_iff, hlength]
  rw [Database.push_live hdb, hview]
  unfold TimedStore.push TimedStore.listAt
  rcases m.lookupAt now key with _ | ⟨_ | ⟨l, hl⟩, _⟩
  · simpa [strOf, listOf, hresult, DbResult.Meets] using hnumber []
  · simp [strOf, DbResult.Meets]
  · simpa [strOf, listOf, hresult, DbResult.Meets] using hnumber l

/-- The result of `LPUSH`. -/
theorem lpush_meets_iff (key : Bytes) (values : List Bytes) :
    (DbResult.int (db.lpush now key values).1).Meets
        (TimedStore.apply now m (.lpush key values)).1 ↔ m.Fits now (.lpush key values) :=
  push_meets_iff hdb hview (fun _ => List.foldl_flip_cons_eq_append')
    (fun l => by rw [List.length_append, List.length_reverse, Nat.add_comm]) key

/-- The result of `RPUSH`. -/
theorem rpush_meets_iff (key : Bytes) (values : List Bytes) :
    (DbResult.int (db.rpush now key values).1).Meets
        (TimedStore.apply now m (.rpush key values)).1 ↔ m.Fits now (.rpush key values) :=
  push_meets_iff hdb hview (foldl_concat_eq_append values) (fun _ => List.length_append) key

/-- The result of `EXISTS` is right if and only if an `int` can hold the count. -/
theorem exists_meets_iff (ks : List Bytes) :
    (DbResult.int (db.exists_ (fun _ => now) ks).1).Meets
        (TimedStore.apply now m (.exists_ ks)).1 ↔ m.Fits now (.exists_ ks) := by
  rw [Database.exists_live hdb, hview]
  exact toInt_ofNat_eq_iff _

/-- The result of a pop. -/
theorem pop_meets (front : List Bytes → Option Bytes) (rest : List Bytes → List Bytes)
    (key : Bytes) :
    (DbResult.value (Database.pop front rest now key db).1).Meets
      (TimedStore.pop front rest now key m).1 := by
  rw [Database.pop_live hdb, hview]
  unfold TimedStore.pop
  rcases m.lookupAt now key with _ | ⟨_ | _, _⟩ <;> rfl

/-- The keys found by `KEYS` and `DBSIZE`, as a set. -/
theorem toFinset_collectBoth :
    (Database.collectBoth (fun _ => now) db).1.toFinset = m.keysAt now := by
  ext k
  rw [List.mem_toFinset, Database.mem_collectBoth_live hdb, TimedMap.mem_keysAt, hview]

/-- The count of `DEL`: the listed keys that exist are counted, and perhaps others of them. -/
theorem del_meets (ks : List Bytes) :
    (DbResult.int (db.del ks).1).Meets (TimedStore.apply now m (.del ks)).1 := by
  intro hhigh
  have hlive : db.hasKey now = fun key => (m.lookupAt now key).isSome := by
    funext key
    rw [← hview]
    exact Cell.present_and_not_expired (hdb key) now
  have hlow := Database.card_listed_present now ks db
  have hall : (Database.listed ks fun k => (db.cell k).present).card ≤ ks.toFinset.card :=
    Finset.card_filter_le _ _
  rw [Database.del_result, (toInt_ofNat_eq_iff _).mpr (by omega)]
  rw [hlive] at hlow
  omega

/-- The result of `LLEN`. -/
theorem llen_meets {key : Bytes} (hfits : m.Fits now (.llen key)) :
    (DbResult.int (db.llen now key).1).Meets (TimedStore.apply now m (.llen key)).1 := by
  rw [Database.llen_live hdb, hview]
  simp only [TimedStore.Fits, TimedStore.listAt] at hfits
  simp only [TimedStore.apply]
  rcases h : m.lookupAt now key with _ | ⟨_ | ⟨l, hl⟩, _⟩
  · rfl
  · rfl
  · rw [h] at hfits
    exact (toInt_ofNat_eq_iff l.length).mpr hfits

/-- The result of `LRANGE`. -/
theorem lrange_meets {key : Bytes} {start stop : Int32}
    (hfits : m.Fits now (.lrange key start stop)) :
    (DbResult.strings (db.lrange now key start stop).1).Meets
      (TimedStore.apply now m (.lrange key start stop)).1 := by
  change DbResult.strings (db.lrange now key start stop).1 = .strings _
  rw [Database.lrange_live hdb, hview]
  simp only [TimedStore.Fits, TimedStore.listAt] at hfits ⊢
  cases h : listOf (m.lookupAt now key) with
  | none => rfl
  | some l =>
    rw [h] at hfits
    exact congrArg DbResult.strings (Database.slice_eq_elementsBetween hfits start stop)

/-- The result of `LINDEX`. -/
theorem lindex_meets {key : Bytes} {index : Int32} (hfits : m.Fits now (.lindex key index)) :
    (DbResult.value (db.lindex now key index).1).Meets
      (TimedStore.apply now m (.lindex key index)).1 := by
  change DbResult.value (db.lindex now key index).1 = .value _
  rw [Database.lindex_live hdb, hview]
  simp only [TimedStore.Fits, TimedStore.listAt] at hfits ⊢
  cases h : listOf (m.lookupAt now key) with
  | none => simp [Database.elementAtPosition]
  | some l =>
    rw [h] at hfits
    exact congrArg DbResult.value (Database.element_eq_elementAtPosition hfits index)

/-- Remaining time is truncated towards zero, which is the floor while the key is alive. -/
theorem ttl_meets {key : Bytes} (hfits : m.Fits now (.ttl key)) :
    (DbResult.int (db.ttl now now key).1).Meets (TimedStore.apply now m (.ttl key)).1 := by
  rw [Database.ttl_live hdb, hview]
  simp only [TimedStore.apply]
  rcases h : m.lookupAt now key with _ | ⟨v, _ | d⟩
  · rfl
  · rfl
  · have halive : now < d := by
      simpa [aliveAt] using TimedStore.aliveAt_of_lookupAt h
    have hnonneg : 0 ≤ d - now := sub_nonneg.mpr halive.le
    simp only [DbResult.Meets]
    rw [Int.tdiv_eq_ediv_of_nonneg hnonneg]
    exact toInt_ofInt_seconds hnonneg (hfits v d h)

/-- A result within the range of an `int` meets the specification. -/
theorem run_meets {o : DbOp} (hfits : m.Fits now o) :
    (o.run (fun _ => now) db).1.Meets (TimedStore.apply now m o).1 := by
  cases o with
  | set key value => rfl
  | get key =>
    change DbResult.value (db.get now key).1 = .value (strOf (m.lookupAt now key))
    rw [Database.get_live hdb, hview]
  | del ks => exact del_meets hdb hview ks
  | exists_ ks => exact (exists_meets_iff hdb hview ks).mpr hfits
  | keys => exact ⟨Database.nodup_collectBoth hdb now, toFinset_collectBoth hdb hview⟩
  | dbsize =>
    change DbResult.size (Database.collectBoth (fun _ => now) db).1.length =
      .size (m.keysAt now).card
    rw [← toFinset_collectBoth hdb hview,
      List.toFinset_card_of_nodup (Database.nodup_collectBoth hdb now)]
  | flushdb => rfl
  | lpush key values => exact (lpush_meets_iff hdb hview key values).mpr hfits
  | rpush key values => exact (rpush_meets_iff hdb hview key values).mpr hfits
  | lpop key => exact pop_meets hdb hview _ _ key
  | rpop key => exact pop_meets hdb hview _ _ key
  | lrange key start stop => exact lrange_meets hdb hview hfits
  | llen key => exact llen_meets hdb hview hfits
  | lindex key index => exact lindex_meets hdb hview hfits
  | expire key seconds =>
    have h := Database.expire_live hdb now key seconds
    rw [hview] at h
    change DbResult.Meets (.bool (db.expire now now key seconds).1) _
    rw [h]
    simp only [TimedStore.apply]
    rcases m.lookupAt now key with _ | _ <;> rfl
  | ttl key => exact ttl_meets hdb hview hfits
  | persist key =>
    have h := Database.persist_live hdb now key
    rw [hview] at h
    change DbResult.Meets (.bool (db.persist now key).1) _
    rw [h]
    simp only [TimedStore.apply]
    rcases m.lookupAt now key with _ | ⟨_, _ | _⟩ <;> rfl

end Results

/-! ### Numbers that an `int` can hold -/

/-- The length of the list and the remaining time are within the range of an `int`. -/
structure SmallEntry (now : TimePoint) (e : Entry) : Prop where
  /-- The list. -/
  length : ∀ l hl, e.1 = .list l hl → l.length < 2 ^ 31
  /-- The remaining time in seconds. -/
  deadline : ∀ d, e.2 = some d → d - now < 2 ^ 31 * nsPerSec

/-- All entries that exist are within the range of an `int`. -/
def SmallView (now : TimePoint) (v : View) : Prop := ∀ k e, v k = some e → SmallEntry now e

namespace SmallView

variable {now : TimePoint} {v : View}

/-- The empty store has no entries. -/
theorem empty (now : TimePoint) : SmallView now (TimedMap.lookupAt now ∅) := by
  intro k e he
  cases he

/-- Time only shortens the remaining times. -/
theorem later {m : TimedStore} {now' : TimePoint} (h : SmallView now (m.lookupAt now))
    (hle : now ≤ now') : SmallView now' (m.lookupAt now') := by
  intro k e he
  rw [TimedMap.lookupAt_mono hle] at he
  have hsmall := h k e (Option.filter_eq_some_iff.mp he).1
  refine ⟨hsmall.length, fun d hd => ?_⟩
  exact (sub_le_sub_left hle d).trans_lt (hsmall.deadline d hd)

/-- Another entry for a key. -/
theorem update (h : SmallView now v) {key : Bytes} {o : Option Entry}
    (ho : ∀ e, o = some e → SmallEntry now e) : SmallView now (Function.update v key o) := by
  intro k e he
  by_cases hk : k = key
  · rw [hk, Function.update_self] at he
    exact ho e he
  · rw [Function.update_of_ne hk] at he
    exact h k e he

/-- Storing a list. -/
theorem ofList {l : List Bytes} (hl : l.length < 2 ^ 31) {d : Option TimePoint}
    (hd : ∀ d', d = some d' → d' - now < 2 ^ 31 * nsPerSec) :
    ∀ e, ((Value.ofList l).map fun v => (v, d)) = some e → SmallEntry now e := by
  intro e he
  obtain ⟨v, hv, rfl⟩ := Option.map_eq_some_iff.mp he
  refine ⟨fun l' hl' heq => ?_, hd⟩
  unfold Value.ofList at hv
  split at hv
  · cases hv
  · cases hv
    cases heq
    exact hl

/-- A push whose result is short enough. -/
theorem push (h : SmallView now v) {key : Bytes} {values : List Bytes}
    {ins : List Bytes → Bytes → List Bytes}
    (hlength : ∀ l, (values.foldl ins l).length = l.length + values.length)
    (hfits : strOf (v key) = none → ((listOf (v key)).getD []).length + values.length < 2 ^ 31) :
    SmallView now (Function.update v key (Cell.pushLive ins values (v key))) := by
  refine h.update ?_
  rcases hv : v key with _ | ⟨_ | ⟨l, hl⟩, d⟩
  · rw [hv] at hfits
    exact ofList (by rw [hlength]; exact hfits rfl) nofun
  · intro e he
    exact h key e (hv.trans he)
  · rw [hv] at hfits
    exact ofList (by rw [hlength]; exact hfits rfl) (h key _ hv).deadline

/-- A pop. -/
theorem pop (h : SmallView now v) {key : Bytes} {rest : List Bytes → List Bytes}
    (hrest : ∀ l, (rest l).length ≤ l.length) :
    SmallView now (Function.update v key (Cell.popLive rest (v key))) := by
  refine h.update ?_
  rcases hv : v key with _ | ⟨_ | ⟨l, hl⟩, d⟩
  · intro e he
    cases he
  · intro e he
    exact h key e (hv.trans he)
  · have hsmall := h key _ hv
    exact ofList ((hrest l).trans_lt (hsmall.length l hl rfl)) hsmall.deadline

/-- An operation within the range of an `int` keeps all entries there. -/
theorem effect {m : TimedStore} (h : SmallView now (m.lookupAt now)) {o : DbOp}
    (hfits : m.Fits now o) : SmallView now (o.effect now (m.lookupAt now)) := by
  cases o with
  | set key value =>
    refine h.update fun e he => ?_
    cases he
    exact ⟨nofun, nofun⟩
  | del ks =>
    intro k e he
    simp only [DbOp.effect] at he
    split at he
    · cases he
    · exact h k e he
  | flushdb =>
    intro k e he
    cases he
  | lpush key values =>
    refine h.push (fun l => ?_) hfits
    rw [List.foldl_flip_cons_eq_append', List.length_append, List.length_reverse, Nat.add_comm]
  | rpush key values =>
    refine h.push (fun l => ?_) hfits
    rw [foldl_concat_eq_append, List.length_append]
  | lpop key => exact h.pop fun l => by rw [List.length_tail]; exact Nat.sub_le _ _
  | rpop key => exact h.pop fun l => by rw [List.length_dropLast]; exact Nat.sub_le _ _
  | expire key seconds =>
    refine h.update ?_
    rcases hv : m.lookupAt now key with _ | ⟨v, d⟩
    · intro e he
      cases he
    · intro e he
      obtain ⟨-, heq⟩ := Option.ite_none_right_eq_some.mp he
      cases heq
      refine ⟨(h key _ hv).length, fun d' hd' => ?_⟩
      have hlt := seconds.toInt_lt
      cases hd'
      rw [add_sub_cancel_left]
      exact mul_lt_mul_of_pos_right hlt (by decide)
  | persist key =>
    refine h.update fun e he => ?_
    obtain ⟨e', he', rfl⟩ := Option.map_eq_some_iff.mp he
    exact ⟨(h key e' he').length, nofun⟩
  | get | exists_ | keys | dbsize | lrange | llen | lindex | ttl => exact h

/-- The list of a key is short. -/
theorem length_listAt {m : TimedStore} (h : SmallView now (m.lookupAt now)) (key : Bytes) :
    (m.listAt now key).length < 2 ^ 31 := by
  unfold TimedStore.listAt
  rcases hv : m.lookupAt now key with _ | ⟨_ | ⟨l, hl⟩, d⟩
  · exact Nat.two_pow_pos 31
  · exact Nat.two_pow_pos 31
  · exact (h key _ hv).length l hl rfl

end SmallView

/-- As long as all entries are within the range of an `int`, a result that meets the specification
shows that the operation is. -/
theorem fits_of_meets {db : Database} (hdb : db.Inv) {now : TimePoint} {m : TimedStore}
    (hview : db.live now = m.lookupAt now) (hsmall : SmallView now (m.lookupAt now)) {o : DbOp}
    (h : (o.run (fun _ => now) db).1.Meets (TimedStore.apply now m o).1) : m.Fits now o := by
  cases o with
  | exists_ ks => exact (exists_meets_iff hdb hview ks).mp h
  | lpush key values => exact (lpush_meets_iff hdb hview key values).mp h
  | rpush key values => exact (rpush_meets_iff hdb hview key values).mp h
  | lrange key | llen key | lindex key => exact hsmall.length_listAt key
  | ttl key => exact fun v d hv => (hsmall key _ hv).deadline d rfl
  | set | get | del | keys | dbsize | flushdb | lpop | rpop | expire | persist => trivial

/-! ### Runs of the database -/

/-- The representation invariant, and the same view at the time. -/
def Refines (now : TimePoint) (db : Database) (m : TimedStore) : Prop :=
  db.Inv ∧ db.live now = m.lookupAt now

namespace Refines

variable {now now' : TimePoint} {db db' : Database} {m : TimedStore}

/-- Time passes. -/
theorem later (h : Refines now db m) (hle : now ≤ now') : Refines now' db m := by
  refine ⟨h.1, ?_⟩
  funext k
  rw [Database.live_mono hle, TimedMap.lookupAt_mono hle, h.2]

/-- The iteration orders change. -/
theorem reorder (h : Refines now db m) (hre : db.Reordered db') : Refines now db' m :=
  ⟨hre.inv h.1, (hre.live_eq now).trans h.2⟩

/-- An operation. -/
theorem op (h : Refines now db m) {o : DbOp} (hpush : o.PushesSomething) :
    Refines now (o.run (fun _ => now) db).2 (TimedStore.apply now m o).2 := by
  refine ⟨DbOp.run_inv hpush _ h.1, ?_⟩
  rw [DbOp.live_run o now h.1, h.2, TimedStore.lookupAt_apply]

/-- An active-expiry scan. -/
theorem scan (h : Refines now db m) : Refines now (db.expiryScan now) m :=
  ⟨Database.expiryScan_inv now h.1, (Database.live_expiryScan now db).trans h.2⟩

end Refines

/-- The database simulates the timed store within the range of an `int`. -/
theorem timedSimulation :
    TimedSimulation DbStep TimedStore.step DbEvent.time DbEvent.PushesSomething
      (fun m e => e.Fits m)
      (fun now db m => Refines now db m ∧ SmallView now (m.lookupAt now)) ResultMeets where
  mono hle hR := ⟨hR.1.later hle, hR.2.later hle⟩
  result := by
    intro db m e r db' hpush hR hstep
    cases hstep with
    | @op db₁ hre o now =>
      obtain ⟨hinv, hview⟩ := hR.1.reorder hre
      exact ⟨fits_of_meets hinv hview hR.2, run_meets hinv hview⟩
    | scan hre now => exact Iff.rfl
  step := by
    intro db m e r db' hpush hR hstep hfits
    cases hstep with
    | @op db₁ hre o now =>
      refine ⟨(hR.1.reorder hre).op hpush, ?_⟩
      change SmallView now ((TimedStore.apply now m o).2.lookupAt now)
      rw [TimedStore.lookupAt_apply]
      exact hR.2.effect hfits
    | scan hre now => exact ⟨(hR.1.reorder hre).scan, hR.2⟩

/-- Along every run from the empty database, with operations and active-expiry scans at
non-decreasing instants and any iteration orders, every result is the one of the timed store, in
which the scans do nothing, if and only if no list grows beyond the range of an `int` and no
`EXISTS` counts beyond it. -/
theorem database_refines_timedMap {es : List DbEvent} {rs : List (Option DbResult)}
    {db : Database} (hrun : Runs DbStep Database.empty es rs db)
    (htimes : es.Pairwise fun e e' => e.time ≤ e'.time)
    (hpush : ∀ e ∈ es, e.PushesSomething) :
    List.Forall₂ ResultMeets rs (specResults TimedStore.step ∅ es) ↔
      ∀ p ∈ specTrace TimedStore.step ∅ es, p.2.Fits p.1 := by
  cases es with
  | nil =>
    cases hrun
    simp [specResults, specTrace]
  | cons e es =>
    have hR : Refines e.time Database.empty ∅ := ⟨Database.inv_empty, rfl⟩
    have hfirst : ∀ e' ∈ e :: es, e.time ≤ e'.time := by
      intro e' he'
      rcases List.mem_cons.mp he' with rfl | he'
      · exact le_rfl
      · exact (List.pairwise_cons.mp htimes).1 e' he'
    exact timedSimulation.forall₂_results_iff hrun e.time ⟨hR, SmallView.empty e.time⟩ hfirst htimes
      hpush

/-- A run in which a key gets a one-second deadline, a scan two seconds later removes it, and a
push then creates a list under the same name. -/
def expiringKey : List DbEvent :=
  [.op (.set (ascii "k") (ascii "v")) 0, .op (.expire (ascii "k") 1) 0, .scan 2000000000,
    .op (.get (ascii "k")) 2000000000, .op (.rpush (ascii "k") [ascii "a", ascii "b"]) 3000000000]

/-- The results of this run are those of the timed store. -/
theorem database_refines_timedMap_expiring_key :
    List.Forall₂ ResultMeets
      [some .unit, some (.bool true), none, some (.value none), some (.int 2)]
      (specResults TimedStore.step ∅ expiringKey) := by
  have hrun : Runs DbStep Database.empty expiringKey
      [some .unit, some (.bool true), none, some (.value none), some (.int 2)] _ :=
    .cons (.op .rfl _ _) (.cons (.op .rfl _ _) (.cons (.scan .rfl _) (.cons (.op .rfl _ _)
      (.cons (.op .rfl _ _) (.nil _)))))
  refine (database_refines_timedMap hrun (by simp [expiringKey, DbEvent.time])
    (by simp [expiringKey, DbEvent.PushesSomething, DbOp.PushesSomething])).mpr ?_
  simp only [expiringKey, specTrace, List.forall_mem_cons]
  exact ⟨trivial, trivial, trivial, trivial, fun _ => by decide, by simp⟩

/-- A push of `2 ^ 31` values to a new list returns a negative number, which is not what it returns
on the timed store. -/
theorem push_exceeds_int :
    ∃ values : List Bytes, values.length = 2 ^ 31 ∧
      Runs DbStep Database.empty [.op (.rpush (ascii "k") values) 0] [some (.int (-2 ^ 31))]
        ((DbOp.rpush (ascii "k") values).run (fun _ => 0) Database.empty).2 ∧
      ¬ List.Forall₂ ResultMeets [some (.int (-2 ^ 31))]
        (specResults TimedStore.step ∅ [.op (.rpush (ascii "k") values) 0]) := by
  obtain ⟨values, hvalues⟩ : ∃ values : List Bytes, values.length = 2 ^ 31 :=
    ⟨List.replicate (2 ^ 31) [], List.length_replicate⟩
  have hresult : ((DbOp.rpush (ascii "k") values).run (fun _ => 0) Database.empty).1 =
      .int (-2 ^ 31) := by
    change DbResult.int (Database.empty.rpush 0 (ascii "k") values).1 = _
    rw [Database.rpush, Database.push_live Database.inv_empty]
    change DbResult.int (Int32.ofNat (values.foldl _ []).length) = _
    rw [foldl_concat_eq_append, List.nil_append, hvalues]
    rfl
  refine ⟨values, hvalues, ?_, ?_⟩
  · rw [← hresult]
    exact .cons (.op .rfl _ _) (.nil _)
  · intro h
    cases h with
    | cons hmeets _ =>
      have hnumber : (TimedStore.apply 0 ∅ (.rpush (ascii "k") values)).1 =
          .number values.length := rfl
      rw [TimedStore.step, Prod.map_fst, hnumber, hvalues] at hmeets
      exact absurd (show (-2 ^ 31 : Int32).toInt = 2 ^ 31 from hmeets) (by decide)

end MyRedis
