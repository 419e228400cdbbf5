import MyRedis.Database.Cell

/-!
# What one operation does to one cell

`CellStep` lists everything an operation of the database can do to the cell of one key, guards
included, and `DbOp.run_cellStep` shows that every operation, at any clock readings, does one of
these things to every cell.  The two invariants that later files need are then short case analyses
on `CellStep`: the representation invariant `Database.Inv` (no key holds both a string and a list,
no deadline without a value, no empty list) and the bound on deadlines `Database.DeadlinesBelow`.
-/

namespace MyRedis

open Foundation

/-- Everything that an operation can do to a cell. -/
inductive CellStep (now : ℕ → TimePoint) (op : DbOp) (c : Cell) : Cell → Prop
  /-- The cell is not touched. -/
  | keep : CellStep now op c c
  /-- The key is removed, on expiry or on deletion. -/
  | clear : CellStep now op c Cell.empty
  /-- `SET`. -/
  | set (value : Bytes) : CellStep now op c ⟨some value, none, none⟩
  /-- A push creates the list. -/
  | create (l : List Bytes) (hl : op.PushesSomething → l ≠ []) :
      CellStep now op c ⟨none, some l, none⟩
  /-- A push or a pop replaces the list of a cell without a string, or of a cell with a list. -/
  | relist (l : List Bytes) (hc : c.str = none ∨ c.list.isSome)
      (hl : op.PushesSomething → l ≠ []) : CellStep now op c { c with list := some l }
  /-- A pop removes the last element. -/
  | unlist : CellStep now op c { c with list := none, deadline := none }
  /-- `EXPIRE` on a present key. -/
  | expire (key : Bytes) (seconds : Int32) (hop : op = .expire key seconds)
      (hc : c.present = true) :
      CellStep now op c { c with deadline := some (now 1 + seconds.toInt * nsPerSec) }
  /-- `PERSIST`. -/
  | persist : CellStep now op c { c with deadline := none }

namespace CellStep

variable {now : ℕ → TimePoint} {op : DbOp}

/-- Lazy expiry keeps the cell or clears it. -/
theorem purge (t : TimePoint) (c : Cell) : CellStep now op c (c.purge t) := by
  unfold Cell.purge
  split
  · exact .clear
  · exact .keep

/-- Deletion keeps the cell or clears it. -/
theorem del (c : Cell) : CellStep now op c c.del := by
  unfold Cell.del
  split
  · exact .clear
  · exact .keep

/-- A push with a value creates or replaces a list. -/
theorem push {ins : List Bytes → Bytes → List Bytes} {values : List Bytes}
    (hl : op.PushesSomething → ∀ l, values.foldl ins l ≠ []) (t : TimePoint) (c : Cell) :
    CellStep now op c (c.push ins t values) := by
  unfold Cell.push Cell.purge
  by_cases hexp : c.expired t = true
  · simp only [hexp, if_true, Cell.empty, Option.isSome_none, Bool.false_eq_true, if_false]
    exact .create _ fun h => hl h _
  · simp only [hexp, if_false, Bool.false_eq_true]
    split
    · exact .keep
    · rename_i hstr
      have hnone : c.str = none := Option.not_isSome_iff_eq_none.mp hstr
      exact .relist _ (Or.inl hnone) fun h => hl h _

/-- A pop removes the list or shortens it to a non-empty one. -/
theorem pop {front : List Bytes → Option Bytes} {rest : List Bytes → List Bytes}
    (t : TimePoint) (c : Cell) : CellStep now op c (c.pop front rest t) := by
  unfold Cell.pop Cell.purge
  by_cases hexp : c.expired t = true
  · simp only [hexp, if_true, Cell.empty]
    exact .clear
  · simp only [hexp, if_false, Bool.false_eq_true]
    cases hl : c.list with
    | none => exact .keep
    | some l =>
      simp only
      split
      · exact .unlist
      · rename_i h
        exact .relist _ (Or.inr (by rw [hl]; rfl)) fun _ hrest => h (Or.inr hrest)

/-- Lazy expiry behind a presence check. -/
theorem purgePresent (t : TimePoint) (c : Cell) : CellStep now op c (c.purgePresent t) := by
  unfold Cell.purgePresent
  split
  · exact purge t c
  · exact .keep

/-- Dropping a deadline. -/
theorem ofPersist (t : TimePoint) (c : Cell) : CellStep now op c (c.persist t) := by
  unfold Cell.persist
  split
  · exact .keep
  · split
    · exact .clear
    · exact .persist

/-- Setting a deadline. -/
theorem ofExpire {key : Bytes} {seconds : Int32} (hop : op = .expire key seconds) (t : TimePoint)
    (c : Cell) : CellStep now op c (c.expire t (now 1) seconds) := by
  unfold Cell.expire
  split
  · exact .keep
  · rename_i hp
    split
    · exact .clear
    · exact .expire key seconds hop (by simpa using hp)

end CellStep

/-- Prepending the values of a push leaves a non-empty list. -/
theorem foldl_cons_ne_nil {values : List Bytes} (h : values ≠ []) (l : List Bytes) :
    values.foldl (fun list value => value :: list) l ≠ [] := by
  rw [List.foldl_flip_cons_eq_append']
  simp [h]

/-- Appending the values of a push one by one appends them all. -/
theorem foldl_concat_eq_append (values l : List Bytes) :
    values.foldl (fun list value => list ++ [value]) l = l ++ values := by
  induction values generalizing l with
  | nil => simp
  | cons value values ih => rw [List.foldl_cons, ih, List.append_assoc, List.singleton_append]

/-- Appending the values of a push leaves a non-empty list. -/
theorem foldl_concat_ne_nil {values : List Bytes} (h : values ≠ []) (l : List Bytes) :
    values.foldl (fun list value => list ++ [value]) l ≠ [] := by
  rw [foldl_concat_eq_append]
  simp [h]

namespace Database

/-- The loop of `EXISTS` only purges. -/
theorem existsLoop_cell (now : ℕ → TimePoint) (keys : List Bytes) (acc : Int32 × Database)
    (k : Bytes) : (existsLoop now keys acc).2.cell k = acc.2.cell k ∨
      (existsLoop now keys acc).2.cell k = Cell.empty := by
  induction keys generalizing now acc with
  | nil => exact Or.inl rfl
  | cons key keys ih =>
    rw [existsLoop]
    have hstep : (existsStep (now 0) acc key).2.cell k = acc.2.cell k ∨
        (existsStep (now 0) acc key).2.cell k = Cell.empty := by
      rw [cell_existsStep]
      by_cases hk : k = key
      · subst hk
        rw [Function.update_self, Cell.purge]
        split
        · exact Or.inr rfl
        · exact Or.inl rfl
      · exact Or.inl (Function.update_of_ne hk _ _)
    rcases ih (fun i => now (i + 1)) (existsStep (now 0) acc key) with h | h
    · rw [h]
      exact hstep
    · exact Or.inr h

end Database

/-- A step of the cell of one key, when the cell function is updated at that key only. -/
private theorem cellStep_update {now : ℕ → TimePoint} {op : DbOp} {f g : Bytes → Cell}
    {key : Bytes} {c : Cell} (h : g = Function.update f key c) (hc : CellStep now op (f key) c)
    (k : Bytes) : CellStep now op (f k) (g k) := by
  rw [h]
  by_cases hk : k = key
  · subst hk
    rw [Function.update_self]
    exact hc
  · rw [Function.update_of_ne hk]
    exact .keep

/-- Every operation, at any clock readings, does to every cell one of the things listed in
`CellStep`. -/
theorem DbOp.run_cellStep (op : DbOp) (now : ℕ → TimePoint) (db : Database) (k : Bytes) :
    CellStep now op (db.cell k) ((op.run now db).2.cell k) := by
  cases op with
  | set key value => exact cellStep_update (db.cell_set key value) (.set value) k
  | get key => exact cellStep_update (db.cell_get _ key) (.purge _ _) k
  | del ks =>
    change CellStep now _ (db.cell k) ((db.del ks).2.cell k)
    rw [Database.cell_del]
    by_cases hk : k ∈ ks
    · simp only [hk, if_true]
      exact .del _
    · simp only [hk, if_false]
      exact .keep
  | exists_ ks =>
    change CellStep now _ (db.cell k) ((Database.existsLoop now ks (0, db)).2.cell k)
    rcases Database.existsLoop_cell now ks (0, db) k with h | h
    · rw [h]
      exact .keep
    · rw [h]
      exact .clear
  | keys =>
    change CellStep now _ (db.cell k) ((db.keys now).2.cell k)
    rw [Database.cell_keys]
    simp only
    split
    · exact .clear
    · exact .keep
  | dbsize =>
    change CellStep now _ (db.cell k) ((db.dbsize now).2.cell k)
    rw [Database.cell_dbsize]
    simp only
    split
    · exact .clear
    · exact .keep
  | flushdb => exact .clear
  | lpush key values =>
    have hl : (DbOp.lpush key values).PushesSomething → ∀ l, _ := fun h => foldl_cons_ne_nil h
    exact cellStep_update (Database.cell_push _ db _ key values) (.push hl _ _) k
  | rpush key values =>
    have hl : (DbOp.rpush key values).PushesSomething → ∀ l, _ := fun h => foldl_concat_ne_nil h
    exact cellStep_update (Database.cell_push _ db _ key values) (.push hl _ _) k
  | lpop key => exact cellStep_update (Database.cell_pop _ _ db _ key) (.pop _ _) k
  | rpop key => exact cellStep_update (Database.cell_pop _ _ db _ key) (.pop _ _) k
  | lrange key start stop =>
    exact cellStep_update (db.cell_lrange _ key start stop) (.purge _ _) k
  | llen key => exact cellStep_update (db.cell_llen _ key) (.purge _ _) k
  | lindex key index => exact cellStep_update (db.cell_lindex _ key index) (.purge _ _) k
  | expire key seconds =>
    exact cellStep_update (db.cell_expire _ _ key seconds) (.ofExpire rfl _ _) k
  | ttl key => exact cellStep_update (db.cell_ttl _ _ key) (.purgePresent _ _) k
  | persist key => exact cellStep_update (db.cell_persist _ key) (.ofPersist _ _) k

/-! ### The representation invariant -/

/-- The representation invariant of one cell. -/
structure Cell.Inv (c : Cell) : Prop where
  /-- Not both a string and a list. -/
  single : c.str = none ∨ c.list = none
  /-- A deadline belongs to a value. -/
  present_of_deadline : c.deadline.isSome → c.present = true
  /-- No empty list. -/
  list_ne_nil : c.list ≠ some []

/-- The empty cell satisfies the invariant. -/
theorem Cell.inv_empty : Cell.empty.Inv :=
  ⟨Or.inl rfl, by simp [Cell.empty], by simp [Cell.empty]⟩

/-- One step of one cell keeps the invariant. -/
theorem CellStep.inv {now : ℕ → TimePoint} {op : DbOp} {c c' : Cell} (hop : op.PushesSomething)
    (hstep : CellStep now op c c') (hc : c.Inv) : c'.Inv := by
  cases hstep with
  | keep => exact hc
  | clear => exact Cell.inv_empty
  | set value => exact ⟨Or.inr rfl, by simp, by simp⟩
  | create l hl => exact ⟨Or.inl rfl, by simp, by simpa using hl hop⟩
  | relist l hcl hl =>
    have hstr : c.str = none := by
      rcases hcl with h | h
      · exact h
      · exact hc.single.resolve_right fun hnone => by simp [hnone] at h
    exact ⟨Or.inl hstr, by simp [Cell.present], by simpa using hl hop⟩
  | unlist => exact ⟨Or.inr rfl, by simp, by simp⟩
  | expire key seconds _ hp => exact ⟨hc.single, fun _ => hp, hc.list_ne_nil⟩
  | persist => exact ⟨hc.single, by simp, hc.list_ne_nil⟩

/-- The representation invariant: it holds of every cell. -/
def Database.Inv (db : Database) : Prop :=
  ∀ k, (db.cell k).Inv

/-- The empty database satisfies the invariant. -/
theorem Database.inv_empty : Database.empty.Inv := fun _ => Cell.inv_empty

/-- Every operation keeps the invariant. -/
theorem DbOp.run_inv {op : DbOp} (hop : op.PushesSomething) (now : ℕ → TimePoint)
    {db : Database} (h : db.Inv) : (op.run now db).2.Inv :=
  fun k => (op.run_cellStep now db k).inv hop (h k)

/-- An active-expiry scan keeps the invariant. -/
theorem Database.expiryScan_inv {db : Database} (now : TimePoint) (h : db.Inv) :
    (db.expiryScan now).Inv := by
  intro k
  rw [Database.cell_expiryScan]
  simp only
  split
  · exact Cell.inv_empty
  · exact h k

/-- The invariant does not depend on the iteration order. -/
theorem Database.Reordered.inv {db db' : Database} (h : Reordered db db') (hdb : db.Inv) :
    db'.Inv := by
  intro k
  rw [h.cell_eq]
  exact hdb k

/-! ### A bound on the deadlines -/

/-- Every deadline is at most `bound`. -/
def Database.DeadlinesBelow (bound : TimePoint) (db : Database) : Prop :=
  ∀ k d, (db.cell k).deadline = some d → d ≤ bound

/-- The bound may be raised. -/
theorem Database.DeadlinesBelow.mono {a b : TimePoint} (hab : a ≤ b) {db : Database}
    (h : db.DeadlinesBelow a) : db.DeadlinesBelow b :=
  fun k d hd => (h k d hd).trans hab

/-- Every operation keeps the bound, if the deadline it may set respects it. -/
theorem DbOp.run_deadlinesBelow {op : DbOp} {now : ℕ → TimePoint} {db : Database}
    {bound : TimePoint}
    (hnew : ∀ key seconds, op = .expire key seconds → now 1 + seconds.toInt * nsPerSec ≤ bound)
    (h : db.DeadlinesBelow bound) : (op.run now db).2.DeadlinesBelow bound := by
  intro k d hd
  have hold := h k d
  have hstep := op.run_cellStep now db k
  generalize (op.run now db).2.cell k = c' at hstep hd
  cases hstep with
  | keep => exact hold hd
  | clear => simp [Cell.empty] at hd
  | set value => simp at hd
  | create l _ => simp at hd
  | relist l _ _ => exact hold hd
  | unlist => simp at hd
  | expire key seconds hop _ =>
    simp only [Option.some.injEq] at hd
    rw [← hd]
    exact hnew key seconds hop
  | persist => simp at hd

/-- An active-expiry scan keeps the bound. -/
theorem Database.expiryScan_deadlinesBelow {db : Database} {bound : TimePoint} (now : TimePoint)
    (h : db.DeadlinesBelow bound) : (db.expiryScan now).DeadlinesBelow bound := by
  intro k d hd
  rw [Database.cell_expiryScan] at hd
  simp only at hd
  split at hd
  · simp [Cell.empty] at hd
  · exact h k d hd

end MyRedis
