import MyRedis.Persistence.Restore

/-!
# Lifetimes across a save and a load

`save` writes how long a key has still to live, and `load` counts this time from its own reading of
the clock.  The time between the two is not counted, so a key lives longer by this time, up to the
rounding to milliseconds.  `neverProlongs_iff` says when the rounding makes up for it: the load has
to be made within the fraction of a millisecond by which each lifetime was rounded down.

This is said of databases whose lengths fit into the 32 bits that the format has for them.  A longer
string is written with a length that is cut down, and what `load` makes of such a file has nothing
to do with lifetimes.
-/

namespace MyRedis

open Foundation Persistence

/-- What a load at `t'` has made of a database does not prolong the life of any key. -/
structure NeverProlongs (t' : TimePoint) (db db' : Database) : Prop where
  /-- A key whose deadline has passed is not restored. -/
  expired : ∀ k d, (db.cell k).deadline = some d → d ≤ t' → (db'.cell k).present = false
  /-- A key that is restored has a deadline that is not later than it was. -/
  earlier : ∀ k d, (db.cell k).deadline = some d → (db'.cell k).present = true →
    ∃ d', (db'.cell k).deadline = some d' ∧ d' ≤ d

/-- Every lifetime that is written at `t` is rounded down by at least the time that passes until
`t'`. -/
def RoundedAway (t t' : TimePoint) (db : Database) : Prop :=
  ∀ k d, (db.cell k).present = true → (db.cell k).deadline = some d → t + nsPerMs ≤ d →
    t' - t ≤ (d - t) % nsPerMs

namespace Cell

variable {t d : TimePoint} {c : Cell} (hd : c.deadline = some d)
include hd

/-- A key with a deadline survives if it has a value and at least a millisecond left. -/
theorem survives_iff : c.survives t = true ↔ c.present = true ∧ t + nsPerMs ≤ d := by
  rw [survives, hd, Bool.and_eq_true]
  simp

/-- It is then restored with a deadline that is counted from `t'`. -/
theorem reloaded_of_survives (h : c.survives t = true) (t' : TimePoint) :
    (c.reloaded t t').present = true ∧
      (c.reloaded t t').deadline = some (t' + (d - t) / nsPerMs * nsPerMs) := by
  rw [reloaded, if_pos h, hd]
  exact ⟨((survives_iff hd).mp h).1, rfl⟩

/-- Other keys are not restored. -/
theorem present_reloaded_iff {t' : TimePoint} :
    (c.reloaded t t').present = true ↔ c.survives t = true := by
  constructor
  · intro h
    by_contra hsurvives
    rw [reloaded, if_neg hsurvives] at h
    cases h
  · intro h
    exact (reloaded_of_survives hd h t').1

end Cell

/-- The rounded deadline is not later than the deadline if the rounding makes up for the time
between saving and loading. -/
theorem loaded_deadline_le_iff {t t' d : TimePoint} :
    t' + (d - t) / nsPerMs * nsPerMs ≤ d ↔ t' - t ≤ (d - t) % nsPerMs := by
  have hdiv := Int.mul_ediv_add_emod (d - t) nsPerMs
  rw [mul_comm] at hdiv
  constructor
  · intro h
    linarith
  · intro h
    linarith

/-- **When saving and loading prolongs no life.**  A database that is reached by `now` is saved at
`t ≥ now`, and the file is loaded at `t'` on the same clock.  If all lengths fit into 32 bits, no
key's life is prolonged if and only if, for every key that has still a millisecond to live, not more
time has passed than its lifetime was rounded down by, which is less than a millisecond. -/
theorem neverProlongs_iff {Saved : Database → Prop} {now t : TimePoint} {db : Database}
    {snapshot : DatabaseSnapshot} {file : Option Bytes} (hreach : Reachable Saved now db)
    (hlengths : db.Encodable)
    (hkeys : db.store.keys.length + db.listStore.keys.length < 2 ^ 32)
    (hcopy : db.Reordered snapshot) (ht : now ≤ t) (hfile : WrittenBySave t snapshot file)
    (t' : TimePoint) (db₀ : Database) :
    (load t' file db₀).1 = true ∧
      (NeverProlongs t' db (load t' file db₀).2 ↔ RoundedAway t t' db) := by
  obtain rfl := hfile.eq_dump
  obtain ⟨hloaded, hcells⟩ := cell_load_dump hreach hlengths hkeys hcopy ht t' db₀
  refine ⟨hloaded, ?_⟩
  generalize (load t' (some (dump t snapshot)) db₀).2 = db' at hcells
  constructor
  · intro h k d hpresent hd hlong
    have hsurvives := (Cell.survives_iff hd).mpr ⟨hpresent, hlong⟩
    obtain ⟨hrestored, hdeadline⟩ := Cell.reloaded_of_survives hd hsurvives t'
    rw [← hcells k] at hrestored hdeadline
    obtain ⟨d', hd', hle⟩ := h.earlier k d hd hrestored
    obtain rfl := Option.some.inj (hd'.symm.trans hdeadline)
    exact loaded_deadline_le_iff.mp hle
  · intro h
    refine ⟨fun k d hd hpassed => ?_, fun k d hd hrestored => ?_⟩
    · -- a key that is loaded has its deadline after `t'`
      rw [hcells k, Bool.eq_false_iff]
      intro hrestored
      obtain ⟨hpresent, hlong⟩ :=
        (Cell.survives_iff hd).mp ((Cell.present_reloaded_iff hd).mp hrestored)
      have hsoon := h k d hpresent hd hlong
      have hfraction : (d - t) % nsPerMs < nsPerMs := Int.emod_lt_of_pos _ (by decide)
      linarith
    · rw [hcells k] at hrestored ⊢
      have hsurvives := (Cell.present_reloaded_iff hd).mp hrestored
      obtain ⟨hpresent, hlong⟩ := (Cell.survives_iff hd).mp hsurvives
      refine ⟨_, (Cell.reloaded_of_survives hd hsurvives t').2, ?_⟩
      exact loaded_deadline_le_iff.mpr (h k d hpresent hd hlong)

/-- A list with ten seconds to live from `0`. -/
def tenSeconds : Database :=
  ((DbOp.expire (ascii "k") 10).run (fun _ => 0)
    ((DbOp.rpush (ascii "k") [ascii "a"]).run (fun _ => 0) Database.empty).2).2

theorem reachable_tenSeconds : Reachable (fun _ => True) 0 tenSeconds := by
  have hpushed : Reachable (fun _ => True) 0
      ((DbOp.rpush (ascii "k") [ascii "a"]).run (fun _ => 0) Database.empty).2 :=
    .op (.empty 0) .rfl _ (by simp [DbOp.PushesSomething]) _ monotone_const le_rfl fun _ => le_rfl
  exact .op hpushed .rfl (.expire (ascii "k") 10) trivial _ monotone_const le_rfl fun _ => le_rfl

theorem cell_tenSeconds : tenSeconds.cell = Function.update Database.empty.cell (ascii "k")
    ⟨none, some [ascii "a"], some 10000000000⟩ := by
  rw [tenSeconds, rpush_empty]
  refine (Database.cell_expire (singleList (ascii "k") [ascii "a"]) 0 0 (ascii "k") 10).trans ?_
  rw [cell_singleList, Function.update_self, Function.update_idem]
  rfl

theorem encodable_tenSeconds : tenSeconds.Encodable :=
  encodable_of_cell_eq cell_tenSeconds (by decide) (by decide)

/-- It is saved after one and a half milliseconds and loaded within the same millisecond. -/
theorem neverProlongs_soon :
    let file := some (dump 1500000 tenSeconds)
    NeverProlongs 1900000 tenSeconds (load 1900000 file Database.empty).2 := by
  intro file
  have hstart : (0 : TimePoint) ≤ 1500000 := by decide
  refine (neverProlongs_iff reachable_tenSeconds encodable_tenSeconds (by decide) .rfl hstart
    (writtenBySave_dump _ _) 1900000 Database.empty).2.mpr ?_
  intro k d _ hd _
  by_cases hk : k = ascii "k"
  · rw [hk, cell_tenSeconds, Function.update_self] at hd
    obtain rfl := Option.some.inj hd
    decide
  · rw [cell_tenSeconds, Function.update_of_ne hk] at hd
    cases hd

/-- It is saved at once and loaded after twenty seconds, when it has been gone for ten: it is
restored and has ten seconds to live. -/
theorem load_prolongs :
    let file := some (dump 0 tenSeconds)
    Reachable (fun _ => True) 0 tenSeconds ∧ WrittenBySave 0 tenSeconds file ∧
      (tenSeconds.cell (ascii "k")).deadline = some 10000000000 ∧
      (load 20000000000 file Database.empty).2.cell (ascii "k") =
        ⟨none, some [ascii "a"], some 30000000000⟩ ∧
      ¬ NeverProlongs 20000000000 tenSeconds (load 20000000000 file Database.empty).2 := by
  intro file
  have hdeadline : (tenSeconds.cell (ascii "k")).deadline = some 10000000000 := by
    rw [cell_tenSeconds, Function.update_self]
  have hcell : (load 20000000000 file Database.empty).2.cell (ascii "k") =
      ⟨none, some [ascii "a"], some 30000000000⟩ := by
    rw [(cell_load_dump reachable_tenSeconds encodable_tenSeconds (by decide) .rfl le_rfl
      20000000000 Database.empty).2, cell_tenSeconds, Function.update_self]
    rfl
  refine ⟨reachable_tenSeconds, writtenBySave_dump _ _, hdeadline, hcell, fun h => ?_⟩
  have hgone := h.expired (ascii "k") 10000000000 hdeadline (by decide)
  rw [hcell] at hgone
  cases hgone

end MyRedis
