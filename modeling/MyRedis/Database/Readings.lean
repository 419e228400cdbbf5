import MyRedis.Database.Effect

/-!
# Calls with several clock readings

A call that reads the clock more than once may straddle a deadline, and then its effect on the live
contents is not a function of one instant.  What remains true is stated here for every instant `t`
that no reading of the call exceeds: operations that only read leave the live contents at `t` alone
(`DbOp.live_run_of_isRead`), and an operation that is called on two states with the same live
contents leaves two states with the same live contents (`DbOp.live_run_congr`).
-/

namespace MyRedis

open Foundation

namespace Cell

/-- A deadline that was reached stays reached. -/
theorem expired_of_le {r t : TimePoint} (h : r ≤ t) {c : Cell} (hexp : c.expired r = true) :
    c.expired t = true := by
  unfold expired at hexp ⊢
  cases hd : c.deadline with
  | none => simp [hd] at hexp
  | some d =>
    simp only [hd, decide_eq_true_eq] at hexp ⊢
    exact le_trans hexp h

/-- Two cells with the same live contents are the same after lazy expiry. -/
theorem purge_congr {now : TimePoint} {c c' : Cell} (hc : c.Inv) (hc' : c'.Inv)
    (h : c.live now = c'.live now) : c.purge now = c'.purge now := by
  rw [purge_eq_ofLive hc, purge_eq_ofLive hc', h]

/-- `EXPIRE` sees a cell after lazy expiry. -/
theorem expire_purge {c : Cell} (hc : c.Inv) (now₁ now₂ : TimePoint) (seconds : Int32) :
    (c.purge now₁).expire now₁ now₂ seconds = c.expire now₁ now₂ seconds := by
  unfold purge
  by_cases hexp : c.expired now₁ = true
  · have hpresent : c.present = true := by
      refine hc.present_of_deadline ?_
      unfold expired at hexp
      cases hd : c.deadline with
      | none => simp [hd] at hexp
      | some d => rfl
    rw [if_pos hexp, expire, expire, hexp, hpresent]
    rfl
  · rw [if_neg hexp]

end Cell

/-- The operations that do not write. -/
def DbOp.IsRead : DbOp → Prop
  | .get _ | .exists_ _ | .keys | .dbsize | .lrange _ _ _ | .llen _ | .lindex _ _ | .ttl _ => True
  | _ => False

namespace Database

/-- Lazy expiry of one cell leaves the later live contents alone. -/
theorem live_of_cell_purge {db db' : Database} {key : Bytes} {c : Cell} {r t : TimePoint}
    (h : db'.cell = Function.update db.cell key c) (hc : c.live r = (db.cell key).live r)
    (hr : r ≤ t) : db'.live t = db.live t :=
  live_eq_of_le hr (live_of_cell_update_same h hc)

/-- The loop of `EXISTS` leaves the later live contents alone. -/
theorem live_existsLoop_of_le {t : TimePoint} {now : ℕ → TimePoint} (ht : ∀ i, now i ≤ t)
    (keys : List Bytes) (acc : Int32 × Database) :
    (existsLoop now keys acc).2.live t = acc.2.live t := by
  induction keys generalizing now acc with
  | nil => rfl
  | cons key keys ih =>
    rw [existsLoop, ih fun i => ht (i + 1)]
    exact live_of_cell_purge (cell_existsStep _ acc key) (Cell.live_purge _ _) (ht 0)

end Database

/-- An operation that only reads leaves the later live contents alone. -/
theorem DbOp.live_run_of_isRead {op : DbOp} (hop : op.IsRead) {t : TimePoint}
    {now : ℕ → TimePoint} (ht : ∀ i, now i ≤ t) (db : Database) :
    (op.run now db).2.live t = db.live t := by
  have hcleared : ∀ k ∈ (Database.collectBoth now db).2, (db.cell k).expired t = true := by
    intro k hk
    obtain ⟨i, hi⟩ := Database.mem_collectBoth_expired hk
    exact Cell.expired_of_le (ht i) hi
  cases op with
  | get key => exact Database.live_of_cell_purge (db.cell_get _ key) (Cell.live_purge _ _) (ht 0)
  | exists_ ks => exact Database.live_existsLoop_of_le ht ks (0, db)
  | keys => exact Database.live_of_cleared (Database.cell_keys now db) hcleared
  | dbsize => exact Database.live_of_cleared (Database.cell_dbsize now db) hcleared
  | lrange key start stop =>
    exact Database.live_of_cell_purge (db.cell_lrange _ key start stop) (Cell.live_purge _ _) (ht 0)
  | llen key => exact Database.live_of_cell_purge (db.cell_llen _ key) (Cell.live_purge _ _) (ht 0)
  | lindex key index =>
    exact Database.live_of_cell_purge (db.cell_lindex _ key index) (Cell.live_purge _ _) (ht 0)
  | ttl key =>
    exact Database.live_of_cell_purge (db.cell_ttl _ _ key) (Cell.live_purgePresent _ _) (ht 0)
  | set | del | flushdb | lpush | rpush | lpop | rpop | expire | persist => exact hop.elim

/-- An operation on two states with the same live contents leaves the same live contents. -/
theorem DbOp.live_run_congr (op : DbOp) {t : TimePoint} {now : ℕ → TimePoint}
    (ht : ∀ i, now i ≤ t) {db db' : Database} (hdb : db.Inv) (hdb' : db'.Inv)
    (h : db.live (now 0) = db'.live (now 0)) :
    (op.run now db).2.live t = (op.run now db').2.live t := by
  -- A call with one reading is a call at one instant, where the effect is a function.
  have hsingle : (op.run (fun _ => now 0) db).2.live t =
      (op.run (fun _ => now 0) db').2.live t := by
    refine Database.live_eq_of_le (ht 0) ?_
    rw [op.live_run (now 0) hdb, op.live_run (now 0) hdb', h]
  have hread (hop : op.IsRead) : (op.run now db).2.live t = (op.run now db').2.live t := by
    rw [DbOp.live_run_of_isRead hop ht, DbOp.live_run_of_isRead hop ht]
    exact Database.live_eq_of_le (ht 0) h
  cases op with
  | exists_ | keys | dbsize | ttl => exact hread trivial
  | expire key seconds =>
    refine (Database.live_of_cell_update (db.cell_expire _ _ key seconds) t).trans ?_
    refine Eq.trans ?_ (Database.live_of_cell_update (db'.cell_expire _ _ key seconds) t).symm
    have hcell := Cell.purge_congr (hdb key) (hdb' key) (congrFun h key)
    rw [Database.live_eq_of_le (ht 0) h, ← Cell.expire_purge (hdb key), hcell,
      Cell.expire_purge (hdb' key)]
  | _ => exact hsingle

/-! ### Keys without a deadline -/

/-- A cell without a deadline never expires. -/
theorem Cell.expired_of_deadline_eq_none {c : Cell} (h : c.deadline = none) (now : TimePoint) :
    c.expired now = false := by
  rw [Cell.expired, h]

/-- Lazy expiry leaves a cell without a deadline alone. -/
theorem Cell.purge_of_deadline_eq_none {c : Cell} (h : c.deadline = none) (now : TimePoint) :
    c.purge now = c := by
  rw [Cell.purge, if_neg (by simp [Cell.expired_of_deadline_eq_none h])]

namespace Database

/-- Lazy expiry of some cell leaves a cell without a deadline alone. -/
theorem cell_of_cell_purge {db db' : Database} {key k : Bytes} {t : TimePoint}
    (h : db'.cell = Function.update db.cell key ((db.cell key).purge t))
    (hk : (db.cell k).deadline = none) : db'.cell k = db.cell k := by
  rw [h]
  by_cases hkey : k = key
  · subst hkey
    rw [Function.update_self, Cell.purge_of_deadline_eq_none hk]
  · rw [Function.update_of_ne hkey]

/-- The loop of `EXISTS` leaves a cell without a deadline alone. -/
theorem cell_existsLoop_of_deadline_eq_none (now : ℕ → TimePoint) (keys : List Bytes)
    {acc : Int32 × Database} {k : Bytes} (hk : (acc.2.cell k).deadline = none) :
    (existsLoop now keys acc).2.cell k = acc.2.cell k := by
  induction keys generalizing now acc with
  | nil => rfl
  | cons key keys ih =>
    have hstep := cell_of_cell_purge (cell_existsStep (now 0) acc key) hk
    rw [existsLoop, ih _ (by rw [hstep]; exact hk), hstep]

end Database

/-- An operation that only reads leaves a cell without a deadline alone. -/
theorem DbOp.cell_run_of_isRead {op : DbOp} (hop : op.IsRead) (now : ℕ → TimePoint) {db : Database}
    {k : Bytes} (hk : (db.cell k).deadline = none) : (op.run now db).2.cell k = db.cell k := by
  have hcollect : k ∉ (Database.collectBoth now db).2 := by
    intro hmem
    obtain ⟨i, hi⟩ := Database.mem_collectBoth_expired hmem
    rw [Cell.expired_of_deadline_eq_none hk] at hi
    cases hi
  cases op with
  | get key => exact Database.cell_of_cell_purge (db.cell_get _ key) hk
  | exists_ ks => exact Database.cell_existsLoop_of_deadline_eq_none now ks hk
  | keys => exact (congrFun (Database.cell_keys now db) k).trans (if_neg hcollect)
  | dbsize => exact (congrFun (Database.cell_dbsize now db) k).trans (if_neg hcollect)
  | lrange key start stop => exact Database.cell_of_cell_purge (db.cell_lrange _ key start stop) hk
  | llen key => exact Database.cell_of_cell_purge (db.cell_llen _ key) hk
  | lindex key index => exact Database.cell_of_cell_purge (db.cell_lindex _ key index) hk
  | ttl key =>
    refine (congrFun (db.cell_ttl (now 0) (now 1) key) k).trans ?_
    by_cases hkey : k = key
    · subst hkey
      rw [Function.update_self, Cell.purgePresent, Cell.purge_of_deadline_eq_none hk, ite_self]
    · rw [Function.update_of_ne hkey]
  | set | del | flushdb | lpush | rpush | lpop | rpop | expire | persist => exact hop.elim

end MyRedis
