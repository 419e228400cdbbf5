import MyRedis.Database.Deleting
import MyRedis.Database.Readings
import MyRedis.Foundation.Deque
import MyRedis.Foundation.Trace

/-!
# Lists as queues

Any number of clients push values to a list and pop values from it, while other keys are used for
whatever else.  Since every operation runs under the lock of the database, what can happen is a
sequence of calls (`DbCall`, `DbCallStep`).  On the key of the list, the calls act as operations of
a double-ended queue (`DbCallStep.cell_eq`), so that its laws apply to every run
(`DbCallStep.lists_keep_values`).  What is special to the database is that an emptied list is
deleted and created again by the next push, and that the lengths that pushes return are of type
`int`.
-/

namespace MyRedis

open Foundation

/-! ### Runs of the database -/

/-- What happens to the database. -/
inductive DbCall where
  /-- An operation, with the clock readings made in it. -/
  | op (o : DbOp) (now : ℕ → TimePoint)
  /-- A background scan. -/
  | scan (now : TimePoint)
  /-- The hash maps get another iteration order. -/
  | reorder (db : Database)

/-- The steps of the database. -/
inductive DbCallStep : Database → DbCall → Database → Prop
  | op (db : Database) (o : DbOp) (now : ℕ → TimePoint) : DbCallStep db (.op o now) (o.run now db).2
  | scan (db : Database) (now : TimePoint) : DbCallStep db (.scan now) (db.expiryScan now)
  | reorder {db db' : Database} (h : db.Reordered db') : DbCallStep db (.reorder db') db'

namespace DbCall

variable (key : Bytes)

/-- On the key, there are only pushes of one or more values and pops. -/
def ListOnly : DbCall → Prop
  | .op (.lpush k values) _ | .op (.rpush k values) _ => k = key → values ≠ []
  | .op (.lpop _) _ | .op (.rpop _) _ | .scan _ | .reorder _ => True
  | .op .flushdb _ => False
  | .op o _ => key ∉ o.keyList

/-- What a call pushes to the list. -/
def pushed : DbCall → List Bytes
  | .op (.lpush k values) _ | .op (.rpush k values) _ => if k = key then values else []
  | _ => []

/-- What a call pops from the list: the value it returns, if any. -/
def popped (db : Database) : DbCall → List Bytes
  | .op (.lpop k) now => if k = key then (db.lpop (now 0) k).1.toList else []
  | .op (.rpop k) now => if k = key then (db.rpop (now 0) k).1.toList else []
  | _ => []

/-- A call as an operation of a double-ended queue. -/
def dequeOp : DbCall → Option (DequeOp Bytes)
  | .op (.lpush k values) _ => if k = key then some (.pushFront values) else none
  | .op (.rpush k values) _ => if k = key then some (.pushBack values) else none
  | .op (.lpop k) _ => if k = key then some .popFront else none
  | .op (.rpop k) _ => if k = key then some .popBack else none
  | _ => none

/-- On the key, there are only calls of `RPUSH` and `LPOP`. -/
def Forward (c : DbCall) : Prop := ∀ op ∈ c.dequeOp key, op.Forward

/-- On the key, there are only calls of `LPUSH` and `RPOP`. -/
def Backward (c : DbCall) : Prop := ∀ op ∈ c.dequeOp key, op.Backward

end DbCall

/-! ### The cell of a list -/

namespace Cell

/-- The cell of a list without a deadline; there are no empty lists. -/
def ofContents (l : List Bytes) : Cell := ⟨none, if l = [] then none else some l, none⟩

theorem purge_ofContents (l : List Bytes) (now : TimePoint) :
    (ofContents l).purge now = ofContents l :=
  purge_of_deadline_eq_none rfl now

theorem list_ofContents (l : List Bytes) : (ofContents l).list.getD [] = l := by
  unfold ofContents
  split
  · rename_i hnil
    rw [hnil]
    rfl
  · rfl

theorem present_ofContents (l : List Bytes) : (ofContents l).present = true ↔ 0 < l.length := by
  unfold ofContents present
  rcases l with _ | ⟨a, l⟩ <;> simp

/-- A push of one or more values. -/
theorem push_ofContents {ins : List Bytes → Bytes → List Bytes} {values l : List Bytes}
    (hne : values.foldl ins l ≠ []) (now : TimePoint) :
    (ofContents l).push ins now values = ofContents (values.foldl ins l) := by
  unfold push
  rw [purge_ofContents, list_ofContents]
  simp [ofContents, hne]

/-- A pop. -/
theorem pop_ofContents {front : List Bytes → Option Bytes} {rest : List Bytes → List Bytes}
    (hfront : ∀ l, l ≠ [] → front l ≠ none) (hrest : rest [] = []) (l : List Bytes)
    (now : TimePoint) : (ofContents l).pop front rest now = ofContents (rest l) := by
  unfold pop
  rw [purge_ofContents]
  by_cases hl : l = []
  · subst hl
    rw [hrest]
    rfl
  · have hlist : (ofContents l).list = some l := if_neg hl
    rw [hlist]
    by_cases hempty : rest l = []
    · simp [ofContents, hempty]
    · simp [ofContents, hempty, hfront l hl]

end Cell

/-! ### Calls as operations of a queue -/

namespace DbCallStep

variable {key : Bytes} {db db' : Database} {c : DbCall} {l : List Bytes}

/-- What a call does to the contents of the list. -/
def contentsAfter (key : Bytes) (l : List Bytes) (c : DbCall) : List Bytes :=
  (c.dequeOp key).elim l fun op => op.run l

/-- A call that is not an operation on the list leaves its cell alone. -/
theorem cell_eq_of_dequeOp_eq_none (h : DbCallStep db c db') (huse : c.ListOnly key)
    (hnone : c.dequeOp key = none) (hcell : (db.cell key).deadline = none) :
    db'.cell key = db.cell key := by
  have hframe {o : DbOp} (hop : o.Keyed) (now : ℕ → TimePoint) (hkey : key ∉ o.keyList) :
      (o.run now db).2.cell key = db.cell key := (DbOp.confined_run hop now).frame db key hkey
  have hother {α : Type} {k : Bytes} {a : α} (hif : (if k = key then some a else none) = none) :
      key ∉ [k] := by
    intro hmem
    rw [if_pos (List.mem_singleton.mp hmem).symm] at hif
    cases hif
  cases h with
  | op o now =>
    cases o with
    | lpush k values | rpush k values | lpop k | rpop k =>
      exact hframe (by trivial) now (hother hnone)
    | keys | dbsize => exact DbOp.cell_run_of_isRead (by trivial) now hcell
    | flushdb => exact huse.elim
    | set | get | del | exists_ | lrange | llen | lindex | expire | ttl | persist =>
      exact hframe (by trivial) now huse
  | scan now =>
    have hscanned : key ∉ db.scanned now := by
      intro hmem
      have hexpired := Database.expired_of_mem_scanned hmem
      rw [Cell.expired_of_deadline_eq_none hcell] at hexpired
      cases hexpired
    exact (congrFun (Database.cell_expiryScan now db) key).trans (if_neg hscanned)
  | reorder h => rw [h.cell_eq]

/-- What a call pushes, as an operation of a queue. -/
theorem pushed_eq (key : Bytes) (c : DbCall) :
    c.pushed key = (c.dequeOp key).elim [] DequeOp.pushed := by
  rcases c with ⟨o, now⟩ | _ | _
  · cases o with
    | lpush k values | rpush k values | lpop k | rpop k =>
      by_cases hk : k = key <;> simp [DbCall.pushed, DbCall.dequeOp, hk, DequeOp.pushed]
    | _ => rfl
  · rfl
  · rfl

/-- What a call pops is what the operation of the queue pops. -/
theorem popped_eq (hcell : db.cell key = .ofContents l) (c : DbCall) :
    c.popped key db = (c.dequeOp key).elim [] (DequeOp.popped l) := by
  have hresult (front : List Bytes → Option Bytes) (rest : List Bytes → List Bytes)
      (now : TimePoint) (hfront : front [] = none) :
      (Database.pop front rest now key db).1 = front l := by
    rw [Database.pop_result, hcell, Cell.purge_ofContents, Cell.ofContents]
    by_cases hl : l = []
    · simp [hl, hfront]
    · simp [hl]
  rcases c with ⟨o, now⟩ | _ | _
  · cases o with
    | lpop k | rpop k =>
      by_cases hk : k = key
      · subst hk
        simp only [DbCall.popped, DbCall.dequeOp, if_true, Option.elim_some, DequeOp.popped]
        exact congrArg Option.toList (hresult _ _ (now 0) rfl)
      · simp [DbCall.popped, DbCall.dequeOp, hk]
    | lpush k values | rpush k values =>
      by_cases hk : k = key <;> simp [DbCall.popped, DbCall.dequeOp, hk, DequeOp.popped]
    | _ => rfl
  · rfl
  · rfl

/-- A call acts on the list as an operation of a queue. -/
theorem cell_eq (h : DbCallStep db c db') (huse : c.ListOnly key)
    (hcell : db.cell key = .ofContents l) :
    db'.cell key = .ofContents (contentsAfter key l c) := by
  rcases hop : c.dequeOp key with _ | op
  · rw [contentsAfter, hop, cell_eq_of_dequeOp_eq_none h huse hop (by rw [hcell]; rfl), hcell]
    rfl
  · have hkey {k : Bytes} {op' : DequeOp Bytes}
        (hif : (if k = key then some op' else none) = some op) : k = key ∧ op' = op := by
      split at hif
      · exact ⟨‹_›, Option.some.inj hif⟩
      · cases hif
    rw [contentsAfter, hop, Option.elim_some]
    cases h with
    | op o now =>
      cases o with
      | lpush k values =>
        obtain ⟨rfl, rfl⟩ := hkey hop
        refine (congrFun (Database.cell_push _ db (now 0) k values) k).trans ?_
        rw [Function.update_self, hcell, Cell.push_ofContents (foldl_cons_ne_nil (huse rfl) l),
          List.foldl_flip_cons_eq_append']
        rfl
      | rpush k values =>
        obtain ⟨rfl, rfl⟩ := hkey hop
        refine (congrFun (Database.cell_push _ db (now 0) k values) k).trans ?_
        rw [Function.update_self, hcell, Cell.push_ofContents (foldl_concat_ne_nil (huse rfl) l),
          foldl_concat_eq_append]
        rfl
      | lpop k =>
        obtain ⟨rfl, rfl⟩ := hkey hop
        refine (congrFun (Database.cell_pop _ _ db (now 0) k) k).trans ?_
        rw [Function.update_self, hcell, Cell.pop_ofContents (fun _ => head?_ne_none) rfl]
        rfl
      | rpop k =>
        obtain ⟨rfl, rfl⟩ := hkey hop
        refine (congrFun (Database.cell_pop _ _ db (now 0) k) k).trans ?_
        rw [Function.update_self, hcell, Cell.pop_ofContents (fun _ => getLast?_ne_none) rfl]
        rfl
      | _ => cases hop
    | scan | reorder => cases hop

/-! ### Whole runs -/

/-- The values pushed to the list in a run, in order. -/
def pushedIn (key : Bytes) (past : List (Database × DbCall)) : List Bytes :=
  past.flatMap fun p => p.2.pushed key

/-- The values popped from the list in a run, in order. -/
def poppedIn (key : Bytes) (past : List (Database × DbCall)) : List Bytes :=
  past.flatMap fun p => p.2.popped key p.1

/-- The list at a key, which is empty if there is none. -/
def contentsAt (key : Bytes) (db : Database) : List Bytes :=
  (db.listStore.lookup key).getD []

/-- The operations of a run as operations of a queue. -/
def dequeOps (key : Bytes) (past : List (Database × DbCall)) : List (DequeOp Bytes) :=
  past.filterMap fun p => p.2.dequeOp key

/-- What a run has done to a list, as the ledger of a queue has it. -/
structure Follows (key : Bytes) (past : List (Database × DbCall)) (db : Database) : Prop where
  /-- The contents. -/
  cell : db.cell key = .ofContents (Ledger.of (dequeOps key past)).contents
  /-- What has been pushed. -/
  pushed : pushedIn key past = (Ledger.of (dequeOps key past)).pushed
  /-- What has been popped. -/
  popped : poppedIn key past = (Ledger.of (dequeOps key past)).popped

/-- One more step. -/
theorem Follows.step {past : List (Database × DbCall)} (hpast : Follows key past db)
    (h : DbCallStep db c db') (huse : c.ListOnly key) : Follows key (past ++ [(db, c)]) db' := by
  have hcell := cell_eq h huse hpast.cell
  have hpushed : pushedIn key (past ++ [(db, c)]) =
      (Ledger.of (dequeOps key past)).pushed ++ (c.dequeOp key).elim [] DequeOp.pushed := by
    rw [pushedIn, List.flatMap_append, ← pushedIn, hpast.pushed, List.flatMap_singleton, pushed_eq]
  have hpopped : poppedIn key (past ++ [(db, c)]) = (Ledger.of (dequeOps key past)).popped ++
      (c.dequeOp key).elim [] (DequeOp.popped (Ledger.of (dequeOps key past)).contents) := by
    rw [poppedIn, List.flatMap_append, ← poppedIn, hpast.popped, List.flatMap_singleton,
      popped_eq hpast.cell]
  have hops : dequeOps key (past ++ [(db, c)]) =
      dequeOps key past ++ (c.dequeOp key).toList := by
    rw [dequeOps, List.filterMap_append, ← dequeOps, List.filterMap_cons, List.filterMap_nil]
    cases c.dequeOp key <;> rfl
  rw [contentsAfter] at hcell
  rcases hop : c.dequeOp key with _ | op
  · rw [hop] at hcell hpushed hpopped hops
    rw [Option.toList_none, List.append_nil] at hops
    exact ⟨by rw [hops]; exact hcell, by rw [hops, hpushed]; exact List.append_nil _,
      by rw [hops, hpopped]; exact List.append_nil _⟩
  · rw [hop] at hcell hpushed hpopped hops
    rw [Option.toList_some] at hops
    exact ⟨by rw [hops, Ledger.of_snoc]; exact hcell, by rw [hops, Ledger.of_snoc, hpushed]; rfl,
      by rw [hops, Ledger.of_snoc, hpopped]; rfl⟩

/-- Every run that starts without the key and uses it as a list only. -/
theorem follows_of_trace {db₀ : Database} {past : List (Database × DbCall)}
    (htrace : Trace DbCallStep db₀ past db) (habsent : db₀.cell key = Cell.empty)
    (huse : ∀ p ∈ past, p.2.ListOnly key) : Follows key past db := by
  refine htrace.invariant
    (I := fun past db => (∀ p ∈ past, p.2.ListOnly key) → Follows key past db) ?_ ?_ huse
  · intro _
    exact ⟨habsent, rfl, rfl⟩
  · intro past s c s' hpast hstep huse
    refine (hpast fun p hp => huse p (List.mem_append_left _ hp)).step hstep ?_
    exact huse (s, c) (List.mem_append_right _ List.mem_cons_self)

/-- A push returns the new length as an `int`. -/
theorem run_of_pushed_ne_nil (hcell : db.cell key = .ofContents l) {o : DbOp}
    {now : ℕ → TimePoint} (hpush : (DbCall.op o now).pushed key ≠ []) :
    (o.run now db).1 =
      .int (Int32.ofNat (l.length + ((DbCall.op o now).pushed key).length)) := by
  have hresult (ins : List Bytes → Bytes → List Bytes) (values : List Bytes) (t : TimePoint) :
      (Database.push ins t key values db).1 = Int32.ofNat (values.foldl ins l).length := by
    rw [Database.push_result, hcell, Cell.purge_ofContents, Cell.list_ofContents]
    rfl
  cases o with
  | lpush k values =>
    by_cases hk : k = key
    · subst hk
      refine congrArg DbResult.int ((hresult _ values (now 0)).trans ?_)
      rw [List.foldl_flip_cons_eq_append', List.length_append, List.length_reverse, Nat.add_comm]
      simp [DbCall.pushed]
    · simp [DbCall.pushed, hk] at hpush
  | rpush k values =>
    by_cases hk : k = key
    · subst hk
      refine congrArg DbResult.int ((hresult _ values (now 0)).trans ?_)
      rw [foldl_concat_eq_append, List.length_append]
      simp [DbCall.pushed]
    · simp [DbCall.pushed, hk] at hpush
  | _ => exact absurd rfl hpush

/-- A push returns the number of values pushed so far minus the number of values popped so far. -/
def ReturnsBalance (key : Bytes) (before : List (Database × DbCall)) (db : Database) (c : DbCall) :
    Prop :=
  ∀ o now, c = .op o now → c.pushed key ≠ [] → ∃ n : Int32, (o.run now db).1 = .int n ∧
    n.toInt = ((pushedIn key (before ++ [(db, c)])).length : ℤ) - (poppedIn key before).length

/-- The list is not longer than an `int` can say after a push. -/
def StaysShort (key : Bytes) (db : Database) (c : DbCall) : Prop :=
  c.pushed key ≠ [] → (contentsAt key db).length + (c.pushed key).length < 2 ^ 31

/-- The contents of the list, as the ledger has them. -/
theorem Follows.contentsAt_eq {past : List (Database × DbCall)} (h : Follows key past db) :
    contentsAt key db = (Ledger.of (dequeOps key past)).contents := by
  have hlist : db.listStore.lookup key = (db.cell key).list := rfl
  rw [contentsAt, hlist, h.cell, Cell.list_ofContents]

/-- A push returns the balance if and only if the list stays short. -/
theorem Follows.returnsBalance_iff {past : List (Database × DbCall)} (h : Follows key past db)
    (c : DbCall) : ReturnsBalance key past db c ↔ StaysShort key db c := by
  have hbalance := Ledger.length_contents_of (dequeOps key past)
  rw [← h.pushed, ← h.popped, ← h.contentsAt_eq] at hbalance
  have hafter : (pushedIn key (past ++ [(db, c)])).length =
      (pushedIn key past).length + (c.pushed key).length := by
    rw [pushedIn, List.flatMap_append, List.length_append, ← pushedIn, List.flatMap_singleton]
  have hwrap := Database.toInt_ofNat_add_eq_iff
    ((contentsAt key db).length + (c.pushed key).length) 0
  rw [Nat.add_zero, and_iff_right (dvd_zero _)] at hwrap
  have hresult {o : DbOp} {now : ℕ → TimePoint} (hc : c = .op o now) (hpush : c.pushed key ≠ []) :
      (o.run now db).1 =
        .int (Int32.ofNat ((contentsAt key db).length + (c.pushed key).length)) := by
    subst hc
    rw [h.contentsAt_eq]
    exact run_of_pushed_ne_nil h.cell hpush
  constructor
  · intro hreturns hpush
    rcases hc : c with ⟨o, now⟩ | now | db'
    · obtain ⟨n, hn, hvalue⟩ := hreturns o now hc hpush
      rw [hresult hc hpush] at hn
      rw [← hc]
      refine hwrap.mp ?_
      rw [DbResult.int.inj hn, hvalue]
      omega
    · rw [hc] at hpush
      exact absurd rfl hpush
    · rw [hc] at hpush
      exact absurd rfl hpush
  · intro hshort o now hc hpush
    refine ⟨_, hresult hc hpush, (hwrap.mpr (hshort hpush)).trans ?_⟩
    omega

/-- **Lists lose and duplicate nothing.**  For every run of the database that starts without a key
and in which this key is touched by pushes and pops only, in whatever order and by whatever
clients: the values pushed are the values popped and those in the list; the key exists exactly when
more has been pushed than popped; values that enter at one end and leave at the other keep their
order; and all pushes return the number of values pushed minus the number of values popped if and
only if the list never gets longer than an `int` can say. -/
theorem lists_keep_values {db₀ : Database} {past : List (Database × DbCall)}
    (htrace : Trace DbCallStep db₀ past db) (habsent : db₀.cell key = Cell.empty)
    (huse : ∀ p ∈ past, p.2.ListOnly key) :
    (pushedIn key past : Multiset Bytes) = poppedIn key past + contentsAt key db ∧
      ((db.cell key).present = true ↔ (poppedIn key past).length < (pushedIn key past).length) ∧
      ((∀ p ∈ past, p.2.Forward key) →
        poppedIn key past ++ contentsAt key db = pushedIn key past) ∧
      ((∀ p ∈ past, p.2.Backward key) →
        poppedIn key past ++ (contentsAt key db).reverse = pushedIn key past) ∧
      (Always (ReturnsBalance key) past ↔ Always (fun _ => StaysShort key) past) := by
  have h := follows_of_trace htrace habsent huse
  have hops {P : DequeOp Bytes → Prop} (hall : ∀ p ∈ past, ∀ op ∈ p.2.dequeOp key, P op) :
      ∀ op ∈ dequeOps key past, P op := by
    intro op hop
    obtain ⟨p, hp, hpop⟩ := List.mem_filterMap.mp hop
    exact hall p hp op hpop
  have hpushes : Always (ReturnsBalance key) past ↔ Always (fun _ => StaysShort key) past := by
    clear h hops
    induction htrace with
    | nil => simp
    | snoc hbefore hstep ih =>
      have hused := fun p hp => huse p (List.mem_append_left _ hp)
      rw [always_snoc, always_snoc, ih hused,
        (follows_of_trace hbefore habsent hused).returnsBalance_iff]
  refine ⟨?_, ?_, fun hforward => ?_, fun hbackward => ?_, hpushes⟩
  · rw [h.pushed, h.popped, h.contentsAt_eq]
    exact Ledger.balanced_of _
  · have hbalance := Ledger.length_contents_of (dequeOps key past)
    rw [h.cell, Cell.present_ofContents, h.pushed, h.popped]
    omega
  · rw [h.pushed, h.popped, h.contentsAt_eq]
    exact Ledger.forward_of (hops hforward)
  · rw [h.pushed, h.popped, h.contentsAt_eq]
    exact Ledger.backward_of (hops hbackward)

/-- Two values are pushed and one is popped: it is the first one, and the second one is left. -/
theorem lists_keep_values_push_pop :
    let key := ascii "k"
    let now : ℕ → TimePoint := fun _ => 0
    let push := DbOp.rpush key [ascii "a", ascii "b"]
    let db₁ := (push.run now Database.empty).2
    let db₂ := ((DbOp.lpop key).run now db₁).2
    let past := [(Database.empty, DbCall.op push now), (db₁, DbCall.op (.lpop key) now)]
    poppedIn key past ++ contentsAt key db₂ = [ascii "a", ascii "b"] ∧
      poppedIn key past = [ascii "a"] := by
  intro key now push db₁ db₂ past
  have htrace : Trace DbCallStep Database.empty past db₂ :=
    (Trace.nil.snoc (.op Database.empty push now)).snoc (.op db₁ (.lpop key) now)
  have huse : ∀ p ∈ past, p.2.ListOnly key := by
    simp [past, push, DbCall.ListOnly]
  have hforward : ∀ p ∈ past, p.2.Forward key := by
    simp [past, push, DbCall.Forward, DbCall.dequeOp, DequeOp.Forward]
  exact ⟨(lists_keep_values htrace rfl huse).2.2.1 hforward, by decide⟩

/-- A push of `2 ^ 31` values to a new list does not return their number. -/
theorem push_returns_wrong_length :
    ∃ past db, Trace DbCallStep Database.empty past db ∧
      (∀ p ∈ past, p.2.ListOnly (ascii "k")) ∧ ¬ Always (ReturnsBalance (ascii "k")) past := by
  obtain ⟨size, hsize⟩ : ∃ size : ℕ, size = 2 ^ 31 := ⟨_, rfl⟩
  have hne : List.replicate size ([] : Bytes) ≠ [] := by
    rw [Ne, List.replicate_eq_nil_iff]
    omega
  let push := DbCall.op (.rpush (ascii "k") (List.replicate size [])) fun _ => 0
  have hpushed : push.pushed (ascii "k") = List.replicate size [] := by
    rw [DbCall.pushed, if_pos rfl]
  refine ⟨[(Database.empty, push)], _, Trace.nil.snoc (.op _ _ _), ?_, fun hreturns => ?_⟩
  · intro p hp
    obtain rfl := List.mem_singleton.mp hp
    exact fun _ => hne
  · have hstart : Follows (ascii "k") [] Database.empty := ⟨rfl, rfl, rfl⟩
    have hshort := (hstart.returnsBalance_iff push).mp (hreturns [] _ _ [] rfl)
    have hlt := hshort (by rw [hpushed]; exact hne)
    rw [hpushed, List.length_replicate] at hlt
    omega

end DbCallStep

end MyRedis
