import MyRedis.Database.Cell
import MyRedis.Foundation.Sampling

/-!
# The background scan

Every scan of `expiry_loop` looks at the first entries of the deadline map, in the order in which
the map is iterated over, and removes those that have expired.  On the entries a scan is a sweep
(`Database.entries_expiryScan`), and entries that have not expired stay in front.

As many scans as there are entries remove all keys that had expired if and only if each of these is
within reach, that is, has fewer than `maxSample` entries in front of it that have not expired
(`Database.cleansUp_iff`).
-/

namespace MyRedis

open Foundation

namespace Database

/-- The deadline of an entry has been reached. -/
def due (now : TimePoint) (e : Sigma fun _ : Bytes => TimePoint) : Bool :=
  decide (e.2 ≤ now)

/-- Scans at several instants, with nothing in between. -/
def scans (instants : List TimePoint) (db : Database) : Database :=
  instants.foldl (fun db now => db.expiryScan now) db

/-! ### A scan is a sweep -/

/-- Erasing a key filters the entries. -/
theorem kerase_eq_filter {V : Type} {l : List (Sigma fun _ : Bytes => V)} (hl : l.NodupKeys)
    (key : Bytes) : l.kerase key = l.filter fun e => decide (e.1 ≠ key) := by
  induction l with
  | nil => rfl
  | cons e l ih =>
    rw [List.nodupKeys_cons] at hl
    by_cases he : key = e.1
    · have hkeep : l.filter (fun e' => decide (e'.1 ≠ key)) = l := by
        refine List.filter_eq_self.mpr fun e' he' => decide_eq_true fun hkey => hl.1 ?_
        rw [← he, ← hkey]
        exact List.mem_keys_of_mem he'
      rw [List.kerase_cons_eq he, List.filter_cons, if_neg (by simp [he]), hkeep]
    · rw [List.kerase_cons_ne he, List.filter_cons, if_pos (by simp [Ne.symm he]), ih hl.2]

/-- Removing several keys filters the entries of the deadline map. -/
theorem entries_foldl_removeExpiredUnlocked (keys : List Bytes) (db : Database) :
    (keys.foldl removeExpiredUnlocked db).expiry.entries =
      db.expiry.entries.filter fun e => keys.all fun key => decide (e.1 ≠ key) := by
  induction keys generalizing db with
  | nil => exact (List.filter_eq_self.mpr fun _ _ => rfl).symm
  | cons key keys ih =>
    have hfirst : (db.removeExpiredUnlocked key).expiry.entries =
        db.expiry.entries.filter fun e => decide (e.1 ≠ key) :=
      kerase_eq_filter db.expiry.nodupKeys key
    rw [List.foldl_cons, ih, hfirst, List.filter_filter]
    refine List.filter_congr fun e _ => ?_
    rw [List.all_cons, Bool.and_comm]

/-- An entry that is looked at is removed if it is due. -/
theorem all_scanned_of_mem_take {db : Database} {now : TimePoint}
    {e : Sigma fun _ : Bytes => TimePoint} (he : e ∈ db.expiry.entries.take maxSample) :
    ((db.scanned now).all fun key => decide (e.1 ≠ key)) = !due now e := by
  rw [Bool.eq_iff_iff, List.all_eq_true, Bool.not_eq_true']
  constructor
  · intro hall
    refine Bool.eq_false_of_not_eq_true fun hdue => ?_
    have hmem : e.1 ∈ db.scanned now := List.mem_map_of_mem (List.mem_filter.mpr ⟨he, hdue⟩)
    exact absurd rfl (of_decide_eq_true (hall e.1 hmem))
  · intro hdue key hkey
    refine decide_eq_true fun heq => ?_
    obtain ⟨e', he', rfl⟩ := List.mem_map.mp hkey
    obtain ⟨hmem, hdue'⟩ := List.mem_filter.mp he'
    have hsame : e = e' := db.expiry.nodupKeys.eq_of_fst_eq (List.mem_of_mem_take he)
      (List.mem_of_mem_take hmem) heq
    rw [hsame] at hdue
    exact Bool.false_ne_true (hdue.symm.trans hdue')

/-- An entry that is not looked at stays. -/
theorem all_scanned_of_mem_drop {db : Database} {now : TimePoint}
    {e : Sigma fun _ : Bytes => TimePoint} (he : e ∈ db.expiry.entries.drop maxSample) :
    ((db.scanned now).all fun key => decide (e.1 ≠ key)) = true := by
  refine List.all_eq_true.mpr fun key hkey => decide_eq_true fun heq => ?_
  obtain ⟨e', he', rfl⟩ := List.mem_map.mp hkey
  have hnodup := db.expiry.nodupKeys
  rw [← List.take_append_drop maxSample db.expiry.entries, List.NodupKeys, List.keys,
    List.map_append] at hnodup
  refine (List.nodup_append.mp hnodup).2.2 e'.1 ?_ e.1 (List.mem_map_of_mem he) heq.symm
  exact List.mem_map_of_mem (List.mem_filter.mp he').1

/-- A scan sweeps the front of the deadline map. -/
theorem entries_expiryScan (now : TimePoint) (db : Database) :
    (db.expiryScan now).expiry.entries = sweep maxSample (due now) db.expiry.entries := by
  have hscan : (db.expiryScan now).expiry.entries =
      db.expiry.entries.filter fun e => (db.scanned now).all fun key => decide (e.1 ≠ key) :=
    entries_foldl_removeExpiredUnlocked (db.scanned now) db
  have hsplit := List.take_append_drop maxSample db.expiry.entries
  rw [hscan, ← hsplit, List.filter_append, hsplit, sweep]
  congr 1
  · exact List.filter_congr fun e he => all_scanned_of_mem_take he
  · exact List.filter_eq_self.mpr fun e he => all_scanned_of_mem_drop he

/-- Several scans are several sweeps. -/
theorem entries_scans (instants : List TimePoint) (db : Database) :
    (scans instants db).expiry.entries =
      sweeps maxSample (instants.map due) db.expiry.entries := by
  induction instants generalizing db with
  | nil => rfl
  | cons now instants ih =>
    rw [List.map_cons, sweeps_cons, ← entries_expiryScan]
    exact ih (db.expiryScan now)

/-- Scans leave a key as it was, or remove it from all three maps. -/
theorem cell_scans (instants : List TimePoint) (db : Database) (key : Bytes) :
    (scans instants db).cell key = db.cell key ∨ (scans instants db).cell key = Cell.empty := by
  induction instants generalizing db with
  | nil => exact Or.inl rfl
  | cons now instants ih =>
    have hscan : (db.expiryScan now).cell key =
        if key ∈ db.scanned now then Cell.empty else db.cell key :=
      congrFun (cell_expiryScan now db) key
    rcases ih (db.expiryScan now) with hlater | hlater
    · split at hscan
      · exact Or.inr (hlater.trans hscan)
      · exact Or.inl (hlater.trans hscan)
    · exact Or.inr hlater

/-! ### What is left -/

/-- After as many scans as there are entries, at instants from `t` on, no key that had expired at
`t` is in any of the maps. -/
def CleansUp (t : TimePoint) (db : Database) : Prop :=
  ∀ instants : List TimePoint, instants.length = db.expiry.entries.length →
    (∀ now ∈ instants, t ≤ now) →
    ∀ key deadline, db.expiry.lookup key = some deadline → deadline ≤ t →
      (scans instants db).store.lookup key = none ∧
        (scans instants db).listStore.lookup key = none ∧
        (scans instants db).expiry.lookup key = none

/-- The entry of a key with a deadline. -/
theorem mem_entries_of_lookup {m : UnorderedMap Bytes TimePoint} {key : Bytes}
    {deadline : TimePoint} (h : m.lookup key = some deadline) : ⟨key, deadline⟩ ∈ m.entries :=
  AList.mem_lookup_iff.mp h

/-- **Background expiry.**  For every state of the database, every iteration order of its maps and
every instant, the scans clean up if and only if every entry that has expired has fewer than
`maxSample` entries that have not expired in front of it. -/
theorem cleansUp_iff (t : TimePoint) (db : Database) :
    CleansUp t db ↔ WithinReach maxSample (due t) db.expiry.entries := by
  constructor
  · intro h before e after hentries hdue
    by_contra hhidden
    -- scans at the instant itself never get to the entry
    obtain ⟨n, hn⟩ : ∃ n, n = db.expiry.entries.length := ⟨_, rfl⟩
    have hlook : db.expiry.lookup e.1 = some e.2 := by
      refine AList.mem_lookup_iff.mpr ?_
      rw [hentries]
      exact List.mem_append_right _ List.mem_cons_self
    have hgone := (h (List.replicate n t) (by rw [List.length_replicate, hn])
      (fun now hnow => (List.eq_of_mem_replicate hnow).ge) e.1 e.2 hlook 
        (of_decide_eq_true hdue)).2.2
    have hmem : e ∈ (scans (List.replicate n t) db).expiry.entries := by
      rw [entries_scans, List.map_replicate, hentries]
      exact mem_sweeps_of_hidden (not_lt.mp hhidden) e after n
    have hfound : (scans (List.replicate n t) db).expiry.lookup e.1 = some e.2 :=
      AList.mem_lookup_iff.mpr hmem
    rw [hgone] at hfound
    cases hfound
  · intro h instants hlength hinstants key deadline hlook hdeadline
    have hdue : ∀ q ∈ instants.map due, ∀ e, due t e = true → q e = true := by
      intro q hq e he
      obtain ⟨now, hnow, rfl⟩ := List.mem_map.mp hq
      exact decide_eq_true ((of_decide_eq_true he).trans (hinstants now hnow))
    have hclean := sweeps_clean hdue h (by
      rw [List.length_map, hlength]
      exact List.countP_le_length)
    have hempty : (scans instants db).cell key = Cell.empty := by
      refine (cell_scans instants db key).resolve_left fun hsame => ?_
      have hstill : (scans instants db).expiry.lookup key = some deadline :=
        (congrArg Cell.deadline hsame).trans hlook
      have hmem := mem_entries_of_lookup hstill
      rw [entries_scans] at hmem
      have hnotDue := hclean _ hmem
      exact Bool.false_ne_true (hnotDue.symm.trans (decide_eq_true hdeadline))
    exact ⟨congrArg Cell.str hempty, congrArg Cell.list hempty, congrArg Cell.deadline hempty⟩

/-- Store a string under a key and give it a number of seconds to live. -/
def timed (key : Bytes) (seconds : Int32) (db : Database) : Database :=
  ((db.set key (ascii "v")).expire 0 0 key seconds).2

/-- A key with one second to live, and twenty keys with a hundred seconds that come before it in the
iteration order. -/
def crowded : Database :=
  (List.range 20).foldl (fun db i => timed [UInt8.ofNat i] 100 db)
    (timed (ascii "k") 1 Database.empty)

/-- One of these keys has expired after two seconds, and the twenty-one scans that there are entries
leave it where it is. -/
theorem scans_leave_expired_key :
    crowded.expiry.entries.length = 21 ∧
      crowded.expiry.lookup (ascii "k") = some nsPerSec ∧
      (scans (List.replicate 21 (2 * nsPerSec)) crowded).store.lookup (ascii "k") =
        some (ascii "v") ∧
      ¬ CleansUp (2 * nsPerSec) crowded := by
  have hlength : crowded.expiry.entries.length = 21 := by decide +kernel
  have hlook : crowded.expiry.lookup (ascii "k") = some nsPerSec := by decide +kernel
  have hleft : (scans (List.replicate 21 (2 * nsPerSec)) crowded).store.lookup (ascii "k") =
      some (ascii "v") := by decide +kernel
  refine ⟨hlength, hlook, hleft, fun h => ?_⟩
  have hgone := (h (List.replicate 21 (2 * nsPerSec)) (by rw [List.length_replicate, hlength])
    (fun now hnow => (List.eq_of_mem_replicate hnow).ge) (ascii "k") nsPerSec hlook (by decide)).1
  rw [hleft] at hgone
  cases hgone

end Database

end MyRedis
