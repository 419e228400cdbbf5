import MyRedis.Persistence.Reachability

/-!
# Saving and loading restores the database

A database that is saved at `t` and loaded at `t'` comes back as it was, but for the keys with less
than a millisecond to live, which are gone, and for the deadlines, which are moved to the clock of
the loading process and rounded down to milliseconds.  `Cell.reloaded` says this for one key, and
`load_save_restores` proves it for every reachable state, in whatever order the maps are iterated.
-/

namespace MyRedis

open Foundation Persistence

namespace Cell

/-- The key has a value, and no deadline or at least one millisecond left. -/
def survives (t : TimePoint) (c : Cell) : Bool :=
  c.present && c.deadline.all fun d => decide (t + nsPerMs ≤ d)

/-- What is left of a cell that is saved at `t` and loaded at `t'`. -/
def reloaded (t t' : TimePoint) (c : Cell) : Cell :=
  if c.survives t then
    { c with deadline := c.deadline.map fun d => t' + (d - t) / nsPerMs * nsPerMs }
  else empty

end Cell

/-! ### Lifetimes -/

/-- No reachable deadline is further away than the largest lifetime of a dump file. -/
theorem Reachable.deadlinesBelow {Saved : Database → Prop} {now : TimePoint} {db : Database}
    (h : Reachable Saved now db) : db.DeadlinesBelow (now + maxLifetime) := by
  induction h with
  | empty now =>
    intro k d hd
    cases hd
  | @op now last db db₁ _ hre op _ readings _ hstart hlast ih =>
    have hle : now ≤ last := hstart.trans (hlast 0)
    have hold : db₁.DeadlinesBelow (last + maxLifetime) := by
      intro k d hd
      rw [hre.cell_eq] at hd
      exact (ih k d hd).trans (Int.add_le_add_right hle _)
    refine DbOp.run_deadlinesBelow (fun key seconds _ => ?_) hold
    have hsec : seconds.toInt < 2 ^ 31 := seconds.toInt_lt
    have hlife : seconds.toInt * nsPerSec ≤ maxLifetime := by
      unfold maxLifetime nsPerMs nsPerSec
      omega
    exact Int.add_le_add (hlast 1) hlife
  | @scan now reading db db₁ _ hre hstart ih =>
    refine Database.expiryScan_deadlinesBelow _ ?_
    intro k d hd
    rw [hre.cell_eq] at hd
    exact (ih k d hd).trans (Int.add_le_add_right hstart _)
  | load _ hstart _ _ _ _ _ ih _ =>
    exact load_deadlinesBelow _ (ih.mono (Int.add_le_add_right hstart _))

/-- The lifetime that is written for a deadline ahead. -/
theorem toInt_remainingMs {t d : TimePoint} (hlt : t < d) (hd : d ≤ t + maxLifetime) :
    (remainingMs t d).toInt = (d - t) / nsPerMs := by
  have hpos : 0 ≤ d - t := Int.sub_nonneg_of_le (le_of_lt hlt)
  have hms : (0 : ℤ) < nsPerMs := by decide
  have hlow : 0 ≤ (d - t) / nsPerMs := Int.ediv_nonneg hpos (le_of_lt hms)
  have hhigh : (d - t) / nsPerMs ≤ 2 ^ 63 - 1 := by
    have hle : d - t ≤ (2 ^ 63 - 1) * nsPerMs := Int.sub_left_le_of_le_add hd
    calc (d - t) / nsPerMs ≤ (2 ^ 63 - 1) * nsPerMs / nsPerMs := Int.ediv_le_ediv hms hle
      _ = 2 ^ 63 - 1 := Int.mul_ediv_cancel _ (ne_of_gt hms)
  unfold remainingMs
  rw [Int.tdiv_eq_ediv_of_nonneg hpos]
  exact Int64.toInt_ofInt_of_le (le_trans (by decide) hlow) (lt_of_le_of_lt hhigh (by decide))

/-- An entry is skipped on loading if less than a millisecond is left. -/
theorem remainingMs_le_zero_iff {t d : TimePoint} (hlt : t < d) (hd : d ≤ t + maxLifetime) :
    remainingMs t d ≤ 0 ↔ ¬ t + nsPerMs ≤ d := by
  rw [Int64.le_iff_toInt_le, toInt_remainingMs hlt hd]
  change (d - t) / nsPerMs ≤ 0 ↔ _
  rw [not_le, ← Int.lt_add_one_iff, Int.ediv_lt_iff_lt_mul (by decide), zero_add, one_mul,
    sub_lt_iff_lt_add']

/-! ### One key -/

/-- Write a value of the cell `c` at `t`, unless `c` has expired, and load it at `t'` into the cell
`base`. -/
def Cell.transfer (t t' : TimePoint) (c : Cell) (value : Option DumpValue) (base : Cell) : Cell :=
  match value with
  | none => base
  | some v => if c.expired t then base else base.addEntry t' v (c.deadline.map (remainingMs t))

/-- Entries that are those of the keys with a certain kind of value transfer this value. -/
theorem cell_foldl_add_eq_transfer {t : TimePoint} {snapshot : DatabaseSnapshot}
    {entries : List DumpEntry} (value : Cell → Option DumpValue)
    (hnodup : (entries.map DumpEntry.key).Nodup)
    (hmem : ∀ e, e ∈ entries ↔ (snapshot.cell e.key).expired t = false ∧
      value (snapshot.cell e.key) = some e.value ∧ e.deadline = (snapshot.cell e.key).deadline)
    (t' : TimePoint) (base : DatabaseSnapshot) (k : Bytes) :
    (entries.foldl (DumpEntry.add t t') base).cell k =
      (snapshot.cell k).transfer t t' (value (snapshot.cell k)) (base.cell k) := by
  unfold Cell.transfer
  by_cases hk : k ∈ entries.map DumpEntry.key
  · obtain ⟨e, he, rfl⟩ := List.mem_map.mp hk
    obtain ⟨hexp, hvalue, hdeadline⟩ := (hmem e).mp he
    rw [cell_foldl_add t t' hnodup base he, hexp, hvalue, DumpEntry.ttlMs, hdeadline]
    rfl
  · rw [cell_foldl_add_of_notMem t t' _ _ hk]
    split
    · rfl
    · rename_i v hvalue
      split
      · rfl
      · rename_i hexp
        have he : (⟨k, v, (snapshot.cell k).deadline⟩ : DumpEntry) ∈ entries :=
          (hmem _).mpr ⟨Bool.eq_false_iff.mpr hexp, hvalue, rfl⟩
        exact absurd (List.mem_map_of_mem he) hk

/-- The string entries are those of the keys with a string. -/
theorem mem_stringEntries_iff {t : TimePoint} {snapshot : DatabaseSnapshot} (e : DumpEntry) :
    e ∈ stringEntries t snapshot ↔ (snapshot.cell e.key).expired t = false ∧
      (snapshot.cell e.key).str.map .str = some e.value ∧
      e.deadline = (snapshot.cell e.key).deadline := by
  rw [mem_stringEntries]
  constructor
  · rintro ⟨v, hv, hexp, heq⟩
    refine ⟨hexp, ?_, ?_⟩
    · rw [hv, heq]
      rfl
    · rw [heq]
  · rintro ⟨hexp, hvalue, hdeadline⟩
    obtain ⟨v, hv, heq⟩ := Option.map_eq_some_iff.mp hvalue
    exact ⟨v, hv, hexp, by rw [heq, ← hdeadline]⟩

/-- The list entries are those of the keys with a list. -/
theorem mem_listEntries_iff {t : TimePoint} {snapshot : DatabaseSnapshot} (e : DumpEntry) :
    e ∈ listEntries t snapshot ↔ (snapshot.cell e.key).expired t = false ∧
      (snapshot.cell e.key).list.map .list = some e.value ∧
      e.deadline = (snapshot.cell e.key).deadline := by
  rw [mem_listEntries]
  constructor
  · rintro ⟨l, hl, hexp, heq⟩
    refine ⟨hexp, ?_, ?_⟩
    · rw [hl, heq]
      rfl
    · rw [heq]
  · rintro ⟨hexp, hvalue, hdeadline⟩
    obtain ⟨l, hl, heq⟩ := Option.map_eq_some_iff.mp hvalue
    exact ⟨l, hl, hexp, by rw [heq, ← hdeadline]⟩

/-- The cell of a key after all entries are loaded: its string, then its list. -/
theorem cell_foldl_dumpEntries (t t' : TimePoint) (snapshot : DatabaseSnapshot) (k : Bytes) :
    ((dumpEntries t snapshot).foldl (DumpEntry.add t t') Database.empty).cell k =
      (snapshot.cell k).transfer t t' ((snapshot.cell k).list.map .list)
        ((snapshot.cell k).transfer t t' ((snapshot.cell k).str.map .str) Cell.empty) := by
  have hstrings := cell_foldl_add_eq_transfer (fun c => c.str.map .str)
    (nodup_stringEntries t snapshot) mem_stringEntries_iff t' Database.empty k
  have hlists := cell_foldl_add_eq_transfer (fun c => c.list.map .list)
    (nodup_listEntries t snapshot) mem_listEntries_iff t'
    ((stringEntries t snapshot).foldl (DumpEntry.add t t') Database.empty) k
  rw [dumpEntries, List.foldl_append, hlists, hstrings, Database.cell_empty]

/-- Transferring the string and the list of a cell gives the reloaded cell. -/
theorem Cell.transfer_transfer {t : TimePoint} {c : Cell}
    (hd : ∀ d, c.deadline = some d → d ≤ t + maxLifetime) (t' : TimePoint) :
    c.transfer t t' (c.list.map .list) (c.transfer t t' (c.str.map .str) Cell.empty) =
      c.reloaded t t' := by
  obtain ⟨str, list, deadline⟩ := c
  cases deadline with
  | none => cases str <;> cases list <;> rfl
  | some d =>
    have hbound : d ≤ t + maxLifetime := hd d rfl
    have hone : (0 : ℤ) < nsPerMs := by decide
    by_cases hexp : d ≤ t
    · -- expired: nothing is written
      have hms : ¬ t + nsPerMs ≤ d := not_le.mpr (lt_of_le_of_lt hexp (lt_add_of_pos_right t hone))
      cases str <;> cases list <;>
        simp [transfer, reloaded, survives, present, expired, hexp, hms]
    · have hskip := remainingMs_le_zero_iff (not_le.mp hexp) hbound
      have hlife := toInt_remainingMs (not_le.mp hexp) hbound
      by_cases hms : t + nsPerMs ≤ d
      · have hkeep : ¬ remainingMs t d ≤ 0 := fun h => hskip.mp h hms
        cases str <;> cases list <;>
          simp [transfer, reloaded, survives, present, expired, addEntry, loadedDeadline, empty,
            hexp, hms, hkeep, hlife]
      · -- written with the lifetime `0`, and skipped on loading
        have hzero : remainingMs t d ≤ 0 := hskip.mpr hms
        cases str <;> cases list <;>
          simp [transfer, reloaded, survives, present, expired, addEntry, hexp, hms, hzero]

/-! ### The database -/

/-- If the number of keys fits into 32 bits, all entries are loaded. -/
theorem loadedEntries_eq_dumpEntries {t : TimePoint} {snapshot : DatabaseSnapshot}
    (h : snapshot.store.entries.length + snapshot.listStore.entries.length < 2 ^ 32) :
    loadedEntries t snapshot = dumpEntries t snapshot := by
  have hlen : (dumpEntries t snapshot).length < 2 ^ 32 := by
    refine lt_of_le_of_lt ?_ h
    unfold dumpEntries stringEntries listEntries
    rw [List.length_append, List.length_map, List.length_map]
    exact Nat.add_le_add (List.length_filter_le _ _) (List.length_filter_le _ _)
  unfold loadedEntries
  rw [entryCount_eq, UInt32.toNat_ofNat', Nat.mod_eq_of_lt hlen, List.take_length]

/-- The cells after a load of the dump of a reachable state with fitting lengths and less than
`2 ^ 32` keys. -/
theorem cell_load_dump {Saved : Database → Prop} {now t : TimePoint} {db : Database}
    {snapshot : DatabaseSnapshot} (hreach : Reachable Saved now db) (hlengths : db.Encodable)
    (hkeys : db.store.keys.length + db.listStore.keys.length < 2 ^ 32)
    (hcopy : db.Reordered snapshot) (ht : now ≤ t) (t' : TimePoint) (db₀ : Database) :
    (load t' (some (dump t snapshot)) db₀).1 = true ∧
      ∀ k, (load t' (some (dump t snapshot)) db₀).2.cell k = (db.cell k).reloaded t t' := by
  rw [load_dump ((hcopy.encodable hlengths).dumpEntries t) t' db₀]
  refine ⟨rfl, fun k => ?_⟩
  have hsnapshot : snapshot.store.entries.length + snapshot.listStore.entries.length < 2 ^ 32 := by
    rw [← hcopy.store.length_eq, ← hcopy.listStore.length_eq]
    simpa [AList.keys, List.keys] using hkeys
  have hall : loadedEntries t snapshot = dumpEntries t snapshot :=
    loadedEntries_eq_dumpEntries hsnapshot
  rw [hall, cell_foldl_dumpEntries, hcopy.cell_eq]
  refine Cell.transfer_transfer (fun deadline hdeadline => ?_) t'
  exact (hreach.deadlinesBelow k deadline hdeadline).trans (Int.add_le_add_right ht _)

/-- Saving any reachable state (strings, list elements, element counts and number of keys below
`2 ^ 32`) at `t`, with any iteration orders, and loading the file at `t'` restores every key that
has at least a millisecond left. -/
theorem load_save_restores {Saved : Database → Prop} {now t : TimePoint} {db : Database}
    {snapshot : DatabaseSnapshot} (hreach : Reachable Saved now db) (hlengths : db.Encodable)
    (hkeys : db.store.keys.length + db.listStore.keys.length < 2 ^ 32)
    (hcopy : db.Reordered snapshot) (ht : now ≤ t) (t' : TimePoint) (db₀ : Database)
    (filepath : Bytes) (d : Disk Bytes) {outcomes : List Outcome}
    (hok : ∀ o ∈ outcomes, o.ok = true) (hlive : saveRequests t snapshot ≤ outcomes.length) :
    ∃ rest d' db', (save filepath t snapshot).run outcomes d = (some (true, rest), d') ∧
      load t' (d'.files filepath) db₀ = (true, db') ∧
      ∀ k, db'.cell k = (db.cell k).reloaded t t' := by
  obtain ⟨good, d', hrun, rfl, hfile⟩ := save_succeeds filepath t snapshot d outcomes hlive hok
  obtain ⟨hloaded, hcells⟩ := cell_load_dump hreach hlengths hkeys hcopy ht t' db₀
  refine ⟨_, d', _, hrun, ?_, hcells⟩
  rw [hfile]
  exact Prod.ext hloaded rfl

/-- A list with ten seconds to live, saved after one and a half milliseconds and loaded. -/
theorem load_save_restores_expiring_list :
    let pushed := ((DbOp.rpush (ascii "k") [ascii "a", []]).run (fun _ => 0) Database.empty).2
    let db := ((DbOp.expire (ascii "k") 10).run (fun _ => 0) pushed).2
    ∃ rest d' db', (save (ascii "f") 1500000 db).run
        (List.replicate (saveRequests 1500000 db) ⟨true, 1⟩) ⟨fun _ => none, fun _ => []⟩ =
        (some (true, rest), d') ∧
      load 7 (d'.files (ascii "f")) Database.empty = (true, db') ∧
      db'.cell (ascii "k") = ⟨none, some [ascii "a", []], some 9998000007⟩ := by
  intro pushed db
  have hpushed : Reachable (fun _ => True) 0 pushed :=
    .op (.empty 0) .rfl _ (by simp [DbOp.PushesSomething]) _ monotone_const le_rfl fun _ => le_rfl
  have hdb : Reachable (fun _ => True) 0 db :=
    .op hpushed .rfl (.expire (ascii "k") 10) trivial _ monotone_const le_rfl fun _ => le_rfl
  have hclock : (0 : TimePoint) ≤ 1500000 := by decide
  have hok : ∀ o ∈ List.replicate (saveRequests 1500000 db) (Outcome.mk true 1), o.ok = true :=
    fun o ho => by rw [List.eq_of_mem_replicate ho]
  have hcell : db.cell = Function.update Database.empty.cell (ascii "k")
      ⟨none, some [ascii "a", []], some 10000000000⟩ := by
    refine (Database.cell_expire pushed 0 0 (ascii "k") 10).trans ?_
    rw [show pushed.cell = _ from cell_singleList (ascii "k") [ascii "a", []],
      Function.update_self, Function.update_idem]
    rfl
  obtain ⟨rest, d', db', hrun, hload, hcells⟩ := load_save_restores hdb
    (encodable_of_cell_eq hcell (by decide) (by decide)) (by decide) .rfl hclock 7
    Database.empty (ascii "f") ⟨fun _ => none, fun _ => []⟩ hok List.length_replicate.ge
  refine ⟨rest, d', db', hrun, hload, ?_⟩
  rw [hcells, hcell, Function.update_self]
  rfl

end MyRedis
