import MyRedis.Database.Readings
import MyRedis.Persistence.Restore

/-!
# The answers of `TTL`

`TTL` answers with a number of seconds, or with `-1` for a key without a deadline and `-2` for a key
that is not there.  It reads the clock twice, once for the expiry check and once for the remaining
time.  If the deadline passes between the two readings, the remaining time is negative, and after
one second the answer is `-1`, as if there were no deadline.

The seconds that a deadline was given with are kept beside the run (`ReachableGiven`): those of the
last successful `EXPIRE`, or those that belong to the saved state after a load.  In every run no
deadline is further away than these seconds (`ReachableGiven.within`), which bounds the answers
from above.
-/

namespace MyRedis

open Foundation Persistence

/-! ### The seconds of the deadlines -/

/-- The seconds that the deadlines were given with, after an operation: a successful `EXPIRE` gives
a deadline. -/
def DbOp.given (op : DbOp) (result : DbResult) (given : Bytes → Option Int32) :
    Bytes → Option Int32 :=
  match op with
  | .expire key seconds =>
    if result = .bool true then Function.update given key (some seconds) else given
  | _ => given

/-- The reachable states, each with the seconds that its deadlines were given with.  The files that
are loaded were saved from states whose lengths fit into 32 bits. -/
inductive ReachableGiven : TimePoint → Database → (Bytes → Option Int32) → Prop
  /-- The start. -/
  | empty (now : TimePoint) : ReachableGiven now Database.empty fun _ => none
  /-- An operation, at any non-decreasing readings of the clock during the call. -/
  | op {now last : TimePoint} {db db₁ : Database} {given : Bytes → Option Int32}
      (h : ReachableGiven now db given) (hre : db.Reordered db₁) (op : DbOp)
      (hpush : op.PushesSomething) (readings : ℕ → TimePoint) (hmono : Monotone readings)
      (hstart : now ≤ readings 0) (hlast : ∀ i, readings i ≤ last) :
      ReachableGiven last (op.run readings db₁).2 (op.given (op.run readings db₁).1 given)
  /-- An active-expiry scan. -/
  | scan {now reading : TimePoint} {db db₁ : Database} {given : Bytes → Option Int32}
      (h : ReachableGiven now db given) (hre : db.Reordered db₁) (hstart : now ≤ reading) :
      ReachableGiven reading (db₁.expiryScan reading) given
  /-- A load of a file saved earlier, perhaps by another process with another clock. -/
  | load {now reading savedBy savedAt : TimePoint} {db saved : Database}
      {snapshot : DatabaseSnapshot} {file : Option Bytes} {given givenSaved : Bytes → Option Int32}
      (h : ReachableGiven now db given) (hstart : now ≤ reading)
      (hsaved : ReachableGiven savedBy saved givenSaved) (hfits : saved.Encodable)
      (hcopy : saved.Reordered snapshot) (hclock : savedBy ≤ savedAt)
      (hfile : WrittenBySave savedAt snapshot file) :
      ReachableGiven reading (load reading file db).2 givenSaved

/-- These are all reachable states. -/
theorem Reachable.exists_given {now : TimePoint} {db : Database}
    (h : Reachable Database.Encodable now db) : ∃ given, ReachableGiven now db given := by
  induction h with
  | empty now => exact ⟨_, .empty now⟩
  | op _ hre op hpush readings hmono hstart hlast ih =>
    obtain ⟨given, hgiven⟩ := ih
    exact ⟨_, hgiven.op hre op hpush readings hmono hstart hlast⟩
  | scan _ hre hstart ih =>
    obtain ⟨given, hgiven⟩ := ih
    exact ⟨_, hgiven.scan hre hstart⟩
  | load _ hstart _ hfits hcopy hclock hfile ih ihsaved =>
    obtain ⟨given, hgiven⟩ := ih
    obtain ⟨givenSaved, hsaved⟩ := ihsaved
    exact ⟨_, hgiven.load hstart hsaved hfits hcopy hclock hfile⟩

/-! ### No deadline is further away than its seconds -/

/-- Every deadline has been given with some seconds, and is not further away. -/
def WithinGiven (now : TimePoint) (given : Bytes → Option Int32) (db : Database) : Prop :=
  ∀ k d, (db.cell k).deadline = some d →
    ∃ seconds, given k = some seconds ∧ d ≤ now + seconds.toInt * nsPerSec

/-- Time passes. -/
theorem WithinGiven.mono {now later : TimePoint} (hle : now ≤ later)
    {given : Bytes → Option Int32} {db : Database} (h : WithinGiven now given db) :
    WithinGiven later given db := by
  intro k d hd
  obtain ⟨seconds, hgiven, hbound⟩ := h k d hd
  exact ⟨seconds, hgiven, hbound.trans (Int.add_le_add_right hle _)⟩

/-- The iteration order does not matter. -/
theorem WithinGiven.reordered {now : TimePoint} {given : Bytes → Option Int32} {db db' : Database}
    (hre : db.Reordered db') (h : WithinGiven now given db) : WithinGiven now given db' := by
  intro k d hd
  rw [hre.cell_eq] at hd
  exact h k d hd

/-- Where the deadline of a key comes from after an `EXPIRE` for it: it was there before, or it has
been set. -/
theorem Cell.deadline_expire {c : Cell} {now₁ now₂ d : TimePoint} {seconds : Int32}
    (hd : (c.expire now₁ now₂ seconds).deadline = some d) :
    (c.present = false ∧ c.deadline = some d) ∨
      (c.present && !c.expired now₁) = true ∧ d = now₂ + seconds.toInt * nsPerSec := by
  rw [Cell.expire] at hd
  cases hpresent : c.present with
  | false =>
    rw [hpresent, Bool.not_false, if_pos rfl] at hd
    exact Or.inl ⟨rfl, hd⟩
  | true =>
    rw [hpresent, Bool.not_true, if_neg Bool.false_ne_true] at hd
    cases hexpired : c.expired now₁ with
    | true =>
      rw [hexpired, if_pos rfl] at hd
      cases hd
    | false =>
      rw [hexpired, if_neg Bool.false_ne_true] at hd
      exact Or.inr ⟨rfl, (Option.some.inj hd).symm⟩

/-- Where a deadline after an operation comes from: it was there before, or it is that of an
`EXPIRE`. -/
theorem DbOp.deadline_run {op : DbOp} {now : ℕ → TimePoint} {db : Database} {k : Bytes}
    {d : TimePoint} (given : Bytes → Option Int32)
    (hd : ((op.run now db).2.cell k).deadline = some d) :
    ((db.cell k).deadline = some d ∧ op.given (op.run now db).1 given k = given k) ∨
      ∃ seconds, op.given (op.run now db).1 given k = some seconds ∧
        d = now 1 + seconds.toInt * nsPerSec := by
  by_cases hop : ∃ key seconds, op = .expire key seconds
  · obtain ⟨key, seconds, rfl⟩ := hop
    have hcell : ((DbOp.expire key seconds).run now db).2.cell = _ :=
      db.cell_expire (now 0) (now 1) key seconds
    have hresult : ((DbOp.expire key seconds).run now db).1 =
        .bool ((db.cell key).present && !(db.cell key).expired (now 0)) :=
      congrArg DbResult.bool (db.expire_result (now 0) (now 1) key seconds)
    rw [hcell] at hd
    rw [hresult, DbOp.given]
    by_cases hk : k = key
    · subst hk
      rw [Function.update_self] at hd
      rcases Cell.deadline_expire hd with ⟨habsent, hold⟩ | ⟨hset, hd⟩
      · rw [habsent]
        exact Or.inl ⟨hold, rfl⟩
      · rw [hset, if_pos rfl, Function.update_self]
        exact Or.inr ⟨seconds, rfl, hd⟩
    · rw [Function.update_of_ne hk] at hd
      refine Or.inl ⟨hd, ?_⟩
      split
      · rw [Function.update_of_ne hk]
      · rfl
  · -- the other operations do not set a deadline
    have hgiven : op.given (op.run now db).1 given = given := by
      unfold DbOp.given
      split
      · exact absurd ⟨_, _, rfl⟩ hop
      · rfl
    rw [hgiven]
    refine Or.inl ⟨?_, rfl⟩
    have hstep := op.run_cellStep now db k
    generalize (op.run now db).2.cell k = c' at hstep hd
    cases hstep with
    | keep | relist => exact hd
    | clear | set | create | unlist | persist => cases hd
    | expire key seconds hexpire => exact absurd ⟨key, seconds, hexpire⟩ hop

/-- Where a deadline comes from after one entry of a file has been added: it was there before, or
it is counted from the time of the load. -/
theorem DumpEntry.deadline_add {t t' : TimePoint} {e : DumpEntry} {snapshot : DatabaseSnapshot}
    {k : Bytes} {d : TimePoint} (hd : ((DumpEntry.add t t' snapshot e).cell k).deadline = some d) :
    (snapshot.cell k).deadline = some d ∨ e.key = k ∧ ∃ d₀, e.deadline = some d₀ ∧
      d = t' + (remainingMs t d₀).toInt * nsPerMs := by
  rw [DumpEntry.add, cell_addEntry] at hd
  by_cases hk : k = e.key
  · subst hk
    rw [Function.update_self] at hd
    unfold Cell.addEntry at hd
    split at hd
    · exact Or.inl hd
    · have hloaded : (snapshot.cell e.key).loadedDeadline t' (e.ttlMs t) = some d := by
        cases hvalue : e.value <;> rw [hvalue] at hd <;> exact hd
      unfold DumpEntry.ttlMs at hloaded
      rcases hd₀ : e.deadline with _ | d₀
      · rw [hd₀] at hloaded
        exact Or.inl hloaded
      · rw [hd₀] at hloaded
        exact Or.inr ⟨rfl, d₀, rfl, (Option.some.inj hloaded).symm⟩
  · rw [Function.update_of_ne hk] at hd
    exact Or.inl hd

/-- Where a loaded deadline comes from. -/
theorem deadline_foldl_add {t t' : TimePoint} {entries : List DumpEntry}
    {snapshot : DatabaseSnapshot} {k : Bytes} {d : TimePoint}
    (hd : ((entries.foldl (DumpEntry.add t t') snapshot).cell k).deadline = some d) :
    (snapshot.cell k).deadline = some d ∨ ∃ e ∈ entries, e.key = k ∧ ∃ d₀,
      e.deadline = some d₀ ∧ d = t' + (remainingMs t d₀).toInt * nsPerMs := by
  induction entries generalizing snapshot with
  | nil => exact Or.inl hd
  | cons e entries ih =>
    rw [List.foldl_cons] at hd
    rcases ih hd with hlast | ⟨e', he', hloaded⟩
    · rcases DumpEntry.deadline_add hlast with hold | hloaded
      · exact Or.inl hold
      · exact Or.inr ⟨e, List.mem_cons_self, hloaded⟩
    · exact Or.inr ⟨e', List.mem_cons_of_mem _ he', hloaded⟩

/-- A load keeps the seconds of the saved state. -/
theorem WithinGiven.load {savedBy savedAt : TimePoint} {saved : Database}
    {snapshot : DatabaseSnapshot} {given : Bytes → Option Int32}
    (h : WithinGiven savedBy given saved) (hfits : saved.Encodable)
    (hcopy : saved.Reordered snapshot) (hclock : savedBy ≤ savedAt) (reading : TimePoint)
    (db : Database) :
    WithinGiven reading given (load reading (some (dump savedAt snapshot)) db).2 := by
  intro k d hd
  rw [load_dump ((hcopy.encodable hfits).dumpEntries savedAt)] at hd
  rcases deadline_foldl_add hd with hnone | ⟨e, he, rfl, d₀, hd₀, rfl⟩
  · cases hnone
  -- the entry is that of a key that had not expired
  have hentry : (snapshot.cell e.key).expired savedAt = false ∧
      e.deadline = (snapshot.cell e.key).deadline := by
    rcases List.mem_append.mp (List.mem_of_mem_take he) with he | he
    · obtain ⟨hexpired, -, hdeadline⟩ := (mem_stringEntries_iff e).mp he
      exact ⟨hexpired, hdeadline⟩
    · obtain ⟨hexpired, -, hdeadline⟩ := (mem_listEntries_iff e).mp he
      exact ⟨hexpired, hdeadline⟩
  obtain ⟨hexpired, hdeadline⟩ := hentry
  have hsnapshot : (snapshot.cell e.key).deadline = some d₀ := hdeadline.symm.trans hd₀
  obtain ⟨seconds, hgiven, hbound⟩ := (h.mono hclock).reordered hcopy e.key d₀ hsnapshot
  refine ⟨seconds, hgiven, ?_⟩
  have hlater : savedAt < d₀ := by
    rw [Cell.expired, hsnapshot] at hexpired
    exact not_le.mp (of_decide_eq_false hexpired)
  have hlong : seconds.toInt * nsPerSec ≤ maxLifetime := by
    have hseconds := seconds.toInt_lt
    unfold maxLifetime nsPerMs nsPerSec
    omega
  have hmax : d₀ ≤ savedAt + maxLifetime := hbound.trans (Int.add_le_add_left hlong _)
  rw [toInt_remainingMs hlater hmax]
  have hrounded : (d₀ - savedAt) / nsPerMs * nsPerMs ≤ d₀ - savedAt :=
    Int.ediv_mul_le _ (by decide)
  linarith

/-- In every run the deadlines are within their seconds. -/
theorem ReachableGiven.within {now : TimePoint} {db : Database} {given : Bytes → Option Int32}
    (h : ReachableGiven now db given) : WithinGiven now given db := by
  induction h with
  | empty now =>
    intro k d hd
    cases hd
  | @op now last db db₁ given _ hre op _ readings _ hstart hlast ih =>
    intro k d hd
    rcases op.deadline_run given hd with ⟨hold, hgiven⟩ | ⟨seconds, hgiven, rfl⟩
    · rw [hgiven]
      exact ((ih.reordered hre).mono (hstart.trans (hlast 0))) k d hold
    · exact ⟨seconds, hgiven, Int.add_le_add_right (hlast 1) _⟩
  | scan _ hre hstart ih =>
    intro k d hd
    rw [Database.cell_expiryScan] at hd
    simp only at hd
    split at hd
    · cases hd
    · exact ((ih.reordered hre).mono hstart) k d hd
  | load _ _ _ hfits hcopy hclock hfile _ ihsaved =>
    rw [hfile.eq_dump]
    exact ihsaved.load hfits hcopy hclock _ _

/-! ### The answer -/

/-- What is expected of an answer of `TTL` for a key with the cell `c`, if the remaining time was
computed at `t₂`, and the deadline is due to an `EXPIRE` with the seconds `given`. -/
structure Unambiguous (c : Cell) (given : Option Int32) (t₂ : TimePoint) (answer : Int32) :
    Prop where
  /-- `-2` says that the key is absent or expired. -/
  absent : answer = -2 → c.present = false ∨ c.expired t₂ = true
  /-- `-1` says that the key has no deadline. -/
  persistent : answer = -1 → c.present = true ∧ c.deadline = none
  /-- Every other answer is a number of seconds, not more than were given to `EXPIRE`. -/
  seconds : answer ≠ -2 → answer ≠ -1 → 0 ≤ answer ∧ ∃ seconds, given = some seconds ∧
    answer ≤ seconds

/-- The whole seconds by which a reading of the clock is later than a deadline. -/
def lateness (d t₂ : TimePoint) : ℤ := (t₂ - d) / nsPerSec

/-- As far as an `int` can tell, these are `0`, or `2`, which gives the answer for an expired key,
or so many that the answer has wrapped around to a number that is not larger than the given
seconds. -/
def LateAnswer (given : Option Int32) (late : ℤ) : Prop :=
  late % 2 ^ 32 = 0 ∨ late % 2 ^ 32 = 2 ∨
    ∃ seconds, given = some seconds ∧ 2 ^ 32 - seconds.toInt ≤ late % 2 ^ 32

/-- A number of seconds that is not larger than an `int` is answered as it is. -/
theorem toInt_remaining {q : ℤ} {seconds : Int32} (hlow : 0 ≤ q) (hhigh : q ≤ seconds.toInt) :
    (Int32.ofInt q).toInt = q := by
  have hmax := seconds.toInt_lt
  apply Int32.toInt_ofInt_of_le
  · omega
  · omega

/-- A negative number of seconds wraps around after `2 ^ 31` seconds. -/
theorem toInt_late (late : ℤ) : (Int32.ofInt (-late)).toInt =
    if late % 2 ^ 32 ≤ 2 ^ 31 then -(late % 2 ^ 32) else 2 ^ 32 - late % 2 ^ 32 := by
  have hsize : ((Int32.size : ℕ) : ℤ) = 4294967296 := rfl
  rw [Int32.toInt_ofInt, Int.bmod_def, hsize]
  split <;> split <;> omega

/-- The answer while the deadline has not passed. -/
theorem remaining_spec {d t : TimePoint} {seconds : Int32} (hle : t ≤ d)
    (hd : d ≤ t + seconds.toInt * nsPerSec) :
    ∃ q, (d - t).tdiv nsPerSec = q ∧ 0 ≤ q ∧ q ≤ seconds.toInt := by
  have hpos : 0 ≤ d - t := Int.sub_nonneg_of_le hle
  have hmul : d - t ≤ seconds.toInt * nsPerSec := Int.sub_left_le_of_le_add hd
  refine ⟨(d - t) / nsPerSec, Int.tdiv_eq_ediv_of_nonneg hpos, Int.ediv_nonneg hpos (by decide), ?_⟩
  calc (d - t) / nsPerSec ≤ seconds.toInt * nsPerSec / nsPerSec :=
        Int.ediv_le_ediv (by decide) hmul
    _ = seconds.toInt := Int.mul_ediv_cancel _ (by decide)

/-- The answer after the deadline has passed. -/
theorem tdiv_of_late {d t : TimePoint} (hlt : d < t) : (d - t).tdiv nsPerSec = -lateness d t := by
  have hneg : d - t = -(t - d) := (Int.neg_sub t d).symm
  have hpos : 0 ≤ t - d := Int.sub_nonneg_of_le hlt.le
  rw [hneg, Int.neg_tdiv, Int.tdiv_eq_ediv_of_nonneg hpos, lateness]

/-- An answer between zero and the given seconds is as expected. -/
theorem unambiguous_of_toInt {c : Cell} {t₂ : TimePoint} {seconds answer : Int32}
    (hlow : 0 ≤ answer.toInt) (hhigh : answer.toInt ≤ seconds.toInt) :
    Unambiguous c (some seconds) t₂ answer := by
  have hone : (-1 : Int32).toInt = -1 := rfl
  have htwo : (-2 : Int32).toInt = -2 := rfl
  refine ⟨fun h => ?_, fun h => ?_, fun _ _ => ⟨?_, seconds, rfl, ?_⟩⟩
  · rw [h, htwo] at hlow
    omega
  · rw [h, hone] at hlow
    omega
  · exact Int32.le_iff_toInt_le.mpr hlow
  · exact Int32.le_iff_toInt_le.mpr hhigh

/-- Answers that are given too late, for a deadline that was given with at least a second. -/
theorem unambiguous_late_iff {c : Cell} {d t₂ : TimePoint} {seconds : Int32}
    (hd : c.deadline = some d) (hexpired : c.expired t₂ = true) (hpos : 0 < seconds.toInt)
    (late : ℤ) :
    Unambiguous c (some seconds) t₂ (Int32.ofInt (-late)) ↔ LateAnswer (some seconds) late := by
  have hanswer := toInt_late late
  have hmax := seconds.toInt_lt
  have htwo : (-2 : Int32).toInt = -2 := rfl
  have hzero : (0 : Int32).toInt = 0 := rfl
  constructor
  · intro h
    by_cases hminus : Int32.ofInt (-late) = -1
    · -- the answer for a key without a deadline
      have hnone := (h.persistent hminus).2
      rw [hd] at hnone
      cases hnone
    by_cases hgone : Int32.ofInt (-late) = -2
    · rw [hgone, htwo] at hanswer
      refine Or.inr (Or.inl ?_)
      split at hanswer <;> omega
    · obtain ⟨hlow, s, hs, hhigh⟩ := h.seconds hgone hminus
      obtain rfl := Option.some.inj hs
      rw [Int32.le_iff_toInt_le, hanswer] at hlow hhigh
      rw [hzero] at hlow
      by_cases hwrap : late % 2 ^ 32 ≤ 2 ^ 31
      · rw [if_pos hwrap] at hlow
        refine Or.inl ?_
        omega
      · rw [if_neg hwrap] at hhigh
        refine Or.inr (Or.inr ⟨seconds, rfl, ?_⟩)
        omega
  · rintro (hnow | hgone | ⟨s, hs, hwrap⟩)
    · rw [hnow, if_pos (by decide)] at hanswer
      apply unambiguous_of_toInt
      · omega
      · omega
    · rw [hgone, if_pos (by decide)] at hanswer
      have heq : Int32.ofInt (-late) = -2 := Int32.toInt_inj.mp (hanswer.trans htwo.symm)
      rw [heq]
      exact ⟨fun _ => Or.inr hexpired, fun h => absurd h (by decide), fun h => absurd rfl h⟩
    · obtain rfl := Option.some.inj hs
      rw [if_neg (by omega)] at hanswer
      apply unambiguous_of_toInt
      · omega
      · omega

/-- The answers for a key that is there at `t₁` and has a deadline. -/
theorem unambiguous_deadline_iff {c : Cell} {d t₁ t₂ : TimePoint} {seconds : Int32}
    (hd : c.deadline = some d) (hlt : t₁ < d) (hbound : d ≤ t₁ + seconds.toInt * nsPerSec)
    (h₂ : t₁ ≤ t₂) :
    Unambiguous c (some seconds) t₂ (Int32.ofInt ((d - t₂).tdiv nsPerSec)) ↔
      (d < t₂ → LateAnswer (some seconds) (lateness d t₂)) := by
  rcases lt_or_ge d t₂ with hlate | hle
  · have hexpired : c.expired t₂ = true := by
      rw [Cell.expired, hd]
      exact decide_eq_true hlate.le
    have hpos : 0 < seconds.toInt := by
      by_contra hnot
      have hneg : seconds.toInt * nsPerSec ≤ 0 :=
        Int.mul_nonpos_of_nonpos_of_nonneg (not_lt.mp hnot) (by decide)
      linarith
    rw [tdiv_of_late hlate, unambiguous_late_iff hd hexpired hpos]
    exact ⟨fun h _ => h, fun h => h hlate⟩
  · obtain ⟨q, hq, hlow, hhigh⟩ := remaining_spec hle (hbound.trans (Int.add_le_add_right h₂ _))
    rw [hq]
    refine iff_of_true ?_ fun hlate => absurd hle (not_le.mpr hlate)
    have hanswer := toInt_remaining hlow hhigh
    apply unambiguous_of_toInt
    · rw [hanswer]
      exact hlow
    · rw [hanswer]
      exact hhigh

namespace Database

variable {db : Database} {key : Bytes} {t₁ : TimePoint}

/-- The answer for a key that is absent or expired. -/
theorem ttl_of_gone (h : (db.cell key).present = false ∨ (db.cell key).expired t₁ = true)
    (t₂ : TimePoint) : (db.ttl t₁ t₂ key).1 = -2 := by
  rw [ttl_result]
  rcases h with hp | hexp
  · rw [hp]
    rfl
  · rw [hexp, Bool.not_true, Bool.and_false]
    rfl

variable (hpresent : (db.cell key).present = true) (hfresh : (db.cell key).expired t₁ = false)
  (t₂ : TimePoint)
include hpresent hfresh

/-- The answer for a key without a deadline. -/
theorem ttl_of_persistent (hd : (db.cell key).deadline = none) : (db.ttl t₁ t₂ key).1 = -1 := by
  rw [ttl_result, hpresent, hfresh, hd]
  rfl

/-- The answer for a key with a deadline. -/
theorem ttl_of_deadline {d : TimePoint} (hd : (db.cell key).deadline = some d) :
    (db.ttl t₁ t₂ key).1 = Int32.ofInt ((d - t₂).tdiv nsPerSec) := by
  rw [ttl_result, hpresent, hfresh, hd]
  rfl

end Database

/-- **When the answers of `TTL` are unambiguous.**  In every reachable state, with the readings
`t₁ ≤ t₂` of the clock during the call, the answer is as expected if and only if the key is absent,
has expired at `t₁`, has no deadline, or the deadline has not passed at `t₂`, or else the lateness
of `t₂` happens to give a harmless answer.  The latter is the case as long as it is less than a
second. -/
theorem ttl_unambiguous_iff {now : TimePoint} {db : Database} {given : Bytes → Option Int32}
    (h : ReachableGiven now db given) {t₁ t₂ : TimePoint} (h₁ : now ≤ t₁) (h₂ : t₁ ≤ t₂)
    (key : Bytes) :
    Unambiguous (db.cell key) (given key) t₂ (db.ttl t₁ t₂ key).1 ↔
      ((db.cell key).present = true → (db.cell key).expired t₁ = false →
        ∀ d, (db.cell key).deadline = some d → d < t₂ →
          LateAnswer (given key) (lateness d t₂)) := by
  by_cases hgone : (db.cell key).present = false ∨ (db.cell key).expired t₁ = true
  · rw [Database.ttl_of_gone hgone]
    refine iff_of_true ⟨fun _ => ?_, fun heq => absurd heq (by decide),
      fun hne => absurd rfl hne⟩ ?_
    · exact hgone.imp_right (Cell.expired_of_le h₂)
    · intro hpresent hfresh
      rw [hpresent, hfresh] at hgone
      exact absurd hgone (by decide)
  · simp only [not_or, Bool.not_eq_false, Bool.not_eq_true] at hgone
    obtain ⟨hpresent, hfresh⟩ := hgone
    rcases hdeadline : (db.cell key).deadline with _ | d
    · rw [Database.ttl_of_persistent hpresent hfresh t₂ hdeadline]
      refine iff_of_true ⟨fun heq => absurd heq (by decide), fun _ => ⟨hpresent, hdeadline⟩,
        fun _ hne => absurd rfl hne⟩ ?_
      intro _ _ d hd
      cases hd
    · obtain ⟨seconds, hgiven, hbound⟩ := (h.within.mono h₁) key d hdeadline
      have hlater : t₁ < d := by
        rw [Cell.expired, hdeadline] at hfresh
        exact not_le.mp (of_decide_eq_false hfresh)
      rw [Database.ttl_of_deadline hpresent hfresh t₂ hdeadline, hgiven,
        unambiguous_deadline_iff hdeadline hlater hbound h₂]
      constructor
      · rintro hanswer _ _ _ ⟨⟩
        exact hanswer
      · intro hall
        exact hall hpresent hfresh d rfl

/-- A string with a second to live from `0`. -/
def oneSecond : Database :=
  ((DbOp.expire (ascii "k") 1).run (fun _ => 0)
    ((DbOp.set (ascii "k") (ascii "v")).run (fun _ => 0) Database.empty).2).2

/-- The seconds of its deadline. -/
theorem reachableGiven_oneSecond :
    ReachableGiven 0 oneSecond (Function.update (fun _ => none) (ascii "k") (some 1)) := by
  have hset := (ReachableGiven.empty 0).op .rfl (.set (ascii "k") (ascii "v")) trivial (fun _ => 0)
    monotone_const le_rfl fun _ => le_rfl
  exact hset.op .rfl (.expire (ascii "k") 1) trivial (fun _ => 0) monotone_const le_rfl
    fun _ => le_rfl

/-- The answer is as expected if the second reading is late by half a second. -/
theorem ttl_unambiguous_soon :
    let given := Function.update (fun _ => none) (ascii "k") (some 1)
    ReachableGiven 0 oneSecond given ∧ (oneSecond.ttl 0 1500000000 (ascii "k")).1 = 0 ∧
      Unambiguous (oneSecond.cell (ascii "k")) (given (ascii "k")) 1500000000
        (oneSecond.ttl 0 1500000000 (ascii "k")).1 := by
  intro given
  have hdeadline : (oneSecond.cell (ascii "k")).deadline = some 1000000000 := by decide
  refine ⟨reachableGiven_oneSecond, by decide, ?_⟩
  refine (ttl_unambiguous_iff reachableGiven_oneSecond le_rfl (by decide) (ascii "k")).mpr ?_
  intro _ _ d hd _
  rw [hdeadline] at hd
  obtain rfl := Option.some.inj hd
  exact Or.inl (by decide)

/-- If it is late by one second, the answer is that for a key without a deadline. -/
theorem ttl_ambiguous :
    let given := Function.update (fun _ => none) (ascii "k") (some 1)
    ReachableGiven 0 oneSecond given ∧
      (oneSecond.cell (ascii "k")).deadline = some 1000000000 ∧
      (oneSecond.ttl 0 2000000000 (ascii "k")).1 = -1 ∧
      ¬ Unambiguous (oneSecond.cell (ascii "k")) (given (ascii "k")) 2000000000
        (oneSecond.ttl 0 2000000000 (ascii "k")).1 := by
  intro given
  have hdeadline : (oneSecond.cell (ascii "k")).deadline = some 1000000000 := by decide
  have hanswer : (oneSecond.ttl 0 2000000000 (ascii "k")).1 = -1 := by decide
  refine ⟨reachableGiven_oneSecond, hdeadline, hanswer, fun h => ?_⟩
  have hnone := (h.persistent hanswer).2
  rw [hdeadline] at hnone
  cases hnone

end MyRedis
