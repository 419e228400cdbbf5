import MyRedis.Foundation.TimedMap
import MyRedis.Database.Invariant

/-!
# The live contents of the database

What a client can observe of a key at a clock instant: its value and its deadline, unless the key
is absent or its deadline has been reached.  The live contents are a function of the cell
(`Cell.live`), later contents are determined by earlier ones (`Cell.live_mono`), and under the
representation invariant the cell after lazy expiry can be read off the live contents
(`Cell.purge_eq_ofLive`).  So at one instant every operation is a function of the live contents,
and expired keys that are still physically present play no role.
-/

namespace MyRedis

open Foundation

/-- A value: a string or a non-empty list. -/
inductive Value where
  | str (s : Bytes)
  | list (l : List Bytes) (nonempty : l ≠ [])
deriving DecidableEq

/-- The value of a list; the empty list is no value. -/
def Value.ofList (l : List Bytes) : Option Value :=
  if h : l = [] then none else some (.list l h)

theorem Value.ofList_of_ne_nil {l : List Bytes} (h : l ≠ []) :
    Value.ofList l = some (.list l h) := by
  rw [Value.ofList, dif_neg h]

/-- A live entry: the value of a key and its deadline, if any. -/
abbrev Entry := Value × Option TimePoint

namespace Cell

/-- The value in a cell. -/
def value (c : Cell) : Option Value :=
  match c.str with
  | some s => some (.str s)
  | none => c.list.bind Value.ofList

/-- The live contents of a cell. -/
def live (now : TimePoint) (c : Cell) : Option Entry :=
  if c.expired now then none else c.value.map fun v => (v, c.deadline)

/-- The cell that holds exactly the given entry. -/
def ofLive : Option Entry → Cell
  | none => empty
  | some (.str s, d) => ⟨some s, none, d⟩
  | some (.list l _, d) => ⟨none, some l, d⟩

/-- A cell has expired exactly when its deadline is not alive. -/
theorem expired_eq_not_aliveAt (now : TimePoint) (c : Cell) :
    c.expired now = !aliveAt now c.deadline := by
  unfold expired aliveAt
  cases c.deadline with
  | none => rfl
  | some d =>
    simp only
    rw [Bool.eq_iff_iff]
    simp

/-- A live list is the list in the cell. -/
theorem list_of_live {c : Cell} {now : TimePoint} {l : List Bytes} {hl : l ≠ []}
    {d : Option TimePoint} (h : c.live now = some (.list l hl, d)) : c.list = some l := by
  obtain ⟨-, hvalue⟩ := Option.ite_none_left_eq_some.mp h
  obtain ⟨v, hv, heq⟩ := Option.map_eq_some_iff.mp hvalue
  cases heq
  unfold value at hv
  split at hv
  · cases hv
  · obtain ⟨l', hl', hof⟩ := Option.bind_eq_some_iff.mp hv
    rw [Value.ofList] at hof
    split at hof
    · cases hof
    · cases hof
      exact hl'

/-- The live contents are the value, filtered by the deadline. -/
theorem live_eq_filter (now : TimePoint) (c : Cell) :
    c.live now = (c.value.map fun v => (v, c.deadline)).filter fun e => aliveAt now e.2 := by
  rw [live, expired_eq_not_aliveAt]
  cases c.value with
  | none => simp
  | some v =>
    simp only [Option.map_some, Option.filter_some]
    cases aliveAt now c.deadline <;> rfl

/-- The live contents at a later instant are determined by those at an earlier one. -/
theorem live_mono {t t' : TimePoint} (h : t ≤ t') (c : Cell) :
    c.live t' = (c.live t).filter fun e => aliveAt t' e.2 := by
  rw [live_eq_filter, live_eq_filter, TimedMap.filter_aliveAt_of_le h]

@[simp] theorem live_empty (now : TimePoint) : empty.live now = none := rfl

/-- Lazy expiry does not change the live contents. -/
theorem live_purge (now : TimePoint) (c : Cell) : (c.purge now).live now = c.live now := by
  unfold purge
  by_cases h : c.expired now = true
  · rw [if_pos h, live_empty, live, if_pos h]
  · rw [if_neg h]

/-- Under the invariant, lazy expiry leaves exactly the live contents. -/
theorem purge_eq_ofLive {c : Cell} (hc : c.Inv) (now : TimePoint) :
    c.purge now = ofLive (c.live now) := by
  unfold purge live
  by_cases hexp : c.expired now = true
  · rw [if_pos hexp, if_pos hexp]
    rfl
  · rw [if_neg hexp, if_neg hexp]
    obtain ⟨str, list, deadline⟩ := c
    cases str with
    | some s =>
      have hlist : list = none := hc.single.resolve_left (by simp)
      subst hlist
      rfl
    | none =>
      cases list with
      | some l =>
        have hl : l ≠ [] := fun h => hc.list_ne_nil (by simp [h])
        simp only [value, Option.bind_some, Value.ofList_of_ne_nil hl, Option.map_some, ofLive]
      | none =>
        have hd : deadline = none := by
          by_contra hne
          have := hc.present_of_deadline (Option.isSome_iff_ne_none.mpr hne)
          simp [present] at this
        subst hd
        rfl

/-- The cell of a live entry has these live contents. -/
theorem live_ofLive {now : TimePoint} {o : Option Entry}
    (h : ∀ e, o = some e → aliveAt now e.2 = true) : (ofLive o).live now = o := by
  rcases o with _ | ⟨v, d⟩
  · rfl
  · have hd := h _ rfl
    cases v with
    | str s => simp [ofLive, live, expired_eq_not_aliveAt, value, hd]
    | list l hl =>
      simp [ofLive, live, expired_eq_not_aliveAt, value, hd, Value.ofList_of_ne_nil hl]

/-- A live entry is alive. -/
theorem aliveAt_of_live {now : TimePoint} {c : Cell} {e : Entry} (h : c.live now = some e) :
    aliveAt now e.2 = true := by
  rw [live_eq_filter] at h
  exact (Option.filter_eq_some_iff.mp h).2

/-- A key counts as present after lazy expiry exactly when it has live contents. -/
theorem present_purge {c : Cell} (hc : c.Inv) (now : TimePoint) :
    (c.purge now).present = (c.live now).isSome := by
  rw [purge_eq_ofLive hc]
  rcases c.live now with _ | ⟨_ | _, _⟩ <;> rfl

/-- The combined presence and expiry check of the deadline commands. -/
theorem present_and_not_expired {c : Cell} (hc : c.Inv) (now : TimePoint) :
    (c.present && !c.expired now) = (c.live now).isSome := by
  rw [← present_purge hc, purge]
  cases hexp : c.expired now
  · simp
  · simp [present, empty]

/-! ### The live contents after each operation -/

/-- After a deletion nothing is left. -/
theorem live_del (now : TimePoint) (c : Cell) : c.del.live now = none := by
  unfold del
  by_cases h : c.present = true
  · rw [if_pos h, live_empty]
  · rw [if_neg h]
    have habsent : c.str = none ∧ c.list = none := by simpa [present] using h
    simp [live, value, habsent.1, habsent.2]

/-- Lazy expiry behind a presence check does not change the live contents. -/
theorem live_purgePresent (now : TimePoint) (c : Cell) :
    (c.purgePresent now).live now = c.live now := by
  unfold purgePresent
  split
  · exact live_purge now c
  · rfl

/-- The live contents of a list cell. -/
theorem live_list (now : TimePoint) (l : List Bytes) (d : Option TimePoint)
    (hd : aliveAt now d = true) :
    (⟨none, some l, d⟩ : Cell).live now = (Value.ofList l).map fun v => (v, d) := by
  simp [live, expired_eq_not_aliveAt, value, hd]

/-- What a push does to the live contents of a key. -/
def pushLive (ins : List Bytes → Bytes → List Bytes) (values : List Bytes) :
    Option Entry → Option Entry
  | some (.str s, d) => some (.str s, d)
  | some (.list l _, d) => (Value.ofList (values.foldl ins l)).map fun v => (v, d)
  | none => (Value.ofList (values.foldl ins [])).map fun v => (v, none)

/-- The live contents after a push. -/
theorem live_push {c : Cell} (hc : c.Inv) (ins : List Bytes → Bytes → List Bytes)
    (now : TimePoint) (values : List Bytes) :
    (c.push ins now values).live now = pushLive ins values (c.live now) := by
  have hlive : ∀ e, c.live now = some e → aliveAt now e.2 = true := fun _ => aliveAt_of_live
  unfold push
  rw [purge_eq_ofLive hc]
  rcases hl : c.live now with _ | ⟨_ | _, d⟩
  · exact live_list now _ none rfl
  · have h := live_ofLive hlive
    rw [hl] at h
    exact h
  · exact live_list now _ d (hlive _ hl)

/-- What a pop does to the live contents of a key. -/
def popLive (rest : List Bytes → List Bytes) : Option Entry → Option Entry
  | some (.list l _, d) => (Value.ofList (rest l)).map fun v => (v, d)
  | o => o

/-- The live contents after a pop. -/
theorem live_pop {c : Cell} (hc : c.Inv) {front : List Bytes → Option Bytes}
    {rest : List Bytes → List Bytes} (hfront : ∀ l, l ≠ [] → front l ≠ none) (now : TimePoint) :
    (c.pop front rest now).live now = popLive rest (c.live now) := by
  have hlive : ∀ e, c.live now = some e → aliveAt now e.2 = true := fun _ => aliveAt_of_live
  unfold pop
  rw [purge_eq_ofLive hc]
  rcases hl : c.live now with _ | ⟨_ | ⟨l, hne⟩, d⟩
  · rfl
  · have h := live_ofLive hlive
    rw [hl] at h
    exact h
  · simp only [ofLive, popLive, hfront l hne, false_or]
    split
    · rename_i hrest
      rw [hrest]
      rfl
    · exact live_list now _ d (hlive _ hl)

/-- What `EXPIRE` does to the live contents of a key. -/
def expireLive (now : TimePoint) (seconds : Int32) : Option Entry → Option Entry
  | some (v, _) =>
    if 0 < seconds.toInt then some (v, some (now + seconds.toInt * nsPerSec)) else none
  | none => none

/-- A present key that has not expired gets another deadline. -/
theorem live_setDeadline {c : Cell} (hc : c.Inv) (now : TimePoint) (deadline : Option TimePoint) :
    (if !c.present then c else if c.expired now then empty
      else { c with deadline := deadline }).live now =
      ((c.live now).map fun e => (e.1, deadline)).filter fun e => aliveAt now e.2 := by
  have hpres := present_and_not_expired hc now
  cases hp : c.present with
  | false =>
    rw [hp, Bool.false_and] at hpres
    have hnone : c.live now = none := by simpa using hpres.symm
    simp [hnone]
  | true =>
    rw [Bool.not_true, if_neg Bool.false_ne_true]
    cases hexp : c.expired now with
    | true =>
      have hnone : c.live now = none := by simp [live, hexp]
      rw [if_pos rfl, live_empty, hnone]
      rfl
    | false =>
      have hval : c.live now = c.value.map fun v => (v, c.deadline) := by simp [live, hexp]
      rw [if_neg Bool.false_ne_true, live_eq_filter, hval, Option.map_map]
      rfl

/-- The live contents after `EXPIRE`. -/
theorem live_expire {c : Cell} (hc : c.Inv) (now : TimePoint) (seconds : Int32) :
    (c.expire now now seconds).live now = expireLive now seconds (c.live now) := by
  have halive : (now < now + seconds.toInt * nsPerSec) ↔ 0 < seconds.toInt := by
    rw [lt_add_iff_pos_right]
    change (0 : ℤ) < seconds.toInt * 1000000000 ↔ 0 < seconds.toInt
    omega
  rw [expire, live_setDeadline hc]
  cases c.live now with
  | none => rfl
  | some e =>
    simp only [Option.map_some, Option.filter_some, expireLive, aliveAt, halive,
      decide_eq_true_eq]

/-- The live contents after `PERSIST`. -/
theorem live_persist {c : Cell} (hc : c.Inv) (now : TimePoint) :
    (c.persist now).live now = (c.live now).map fun e => (e.1, none) := by
  rw [persist, live_setDeadline hc]
  cases c.live now with
  | none => rfl
  | some e => rfl

end Cell

namespace Database

/-- The live contents of the database at an instant. -/
def live (now : TimePoint) (db : Database) (key : Bytes) : Option Entry :=
  (db.cell key).live now

/-- The observable value of a key at an instant. -/
def valueAt (db : Database) (t : TimePoint) (key : Bytes) : Option Value :=
  (db.live t key).map Prod.fst

/-- Later live contents are determined by earlier ones. -/
theorem live_mono {t t' : TimePoint} (h : t ≤ t') (db : Database) :
    db.live t' = fun k => (db.live t k).filter fun e => aliveAt t' e.2 :=
  funext fun k => (db.cell k).live_mono h

/-- Two states with the same live contents at one instant have the same live contents ever
after. -/
theorem live_eq_of_le {t t' : TimePoint} (h : t ≤ t') {db db' : Database}
    (hlive : db.live t = db'.live t) : db.live t' = db'.live t' := by
  rw [live_mono h, live_mono h, hlive]

/-- The live contents after an update of one cell. -/
theorem live_of_cell_update {db db' : Database} {key : Bytes} {c : Cell}
    (h : db'.cell = Function.update db.cell key c) (now : TimePoint) :
    db'.live now = Function.update (db.live now) key (c.live now) := by
  funext k
  rw [live, h]
  by_cases hk : k = key
  · subst hk
    rw [Function.update_self, Function.update_self]
  · rw [Function.update_of_ne hk, Function.update_of_ne hk, live]

/-- An update of one cell that keeps its live contents changes nothing. -/
theorem live_of_cell_update_same {db db' : Database} {key : Bytes} {c : Cell}
    (h : db'.cell = Function.update db.cell key c) {now : TimePoint}
    (hc : c.live now = (db.cell key).live now) : db'.live now = db.live now := by
  rw [live_of_cell_update h, hc]
  exact Function.update_eq_self _ _

/-- Clearing cells that have expired does not change the live contents. -/
theorem live_of_cleared {db db' : Database} {keys : List Bytes} {now : TimePoint}
    (h : db'.cell = fun k => if k ∈ keys then Cell.empty else db.cell k)
    (hexp : ∀ k ∈ keys, (db.cell k).expired now = true) : db'.live now = db.live now := by
  funext k
  rw [live, h]
  beta_reduce
  by_cases hk : k ∈ keys
  · rw [if_pos hk, Cell.live_empty, live, Cell.live, if_pos (hexp k hk)]
  · rw [if_neg hk, live]

/-- An active-expiry scan does not change the live contents. -/
theorem live_expiryScan (now : TimePoint) (db : Database) :
    (db.expiryScan now).live now = db.live now :=
  live_of_cleared (cell_expiryScan now db) fun _ => expired_of_mem_scanned

/-- The live contents do not depend on the iteration order. -/
theorem Reordered.live_eq {db db' : Database} (h : Reordered db db') (now : TimePoint) :
    db'.live now = db.live now := by
  funext k
  rw [live, live, h.cell_eq]

end Database

end MyRedis
