import MyRedis.Persistence.Atomicity
import MyRedis.Persistence.Format

/-!
# What a reported save has written

`save` returns `true` when the steps whose outcome it looks at have succeeded (`Completes`).  Three
outcomes it does not look at: reading the temporary file back for its checksum, writing the checksum
and closing the file after that.  If the reading delivers something else, or the disk is full when
the checksum is written, `save` renames a file with a wrong or incomplete checksum and reports
success.  `save_reports_usable_iff` says that, apart from dumps that cannot be read back because a
length does not fit into 32 bits, this is the only way in which a reported save is not usable.
-/

namespace MyRedis.Persistence

open Foundation FileProgram

/-- The outcomes of a `save` that returns `true`: those it looks at are successes.  Named are the
three that it does not look at: reading the file back, writing the checksum and closing the file. -/
def Completes (t : TimePoint) (snapshot : DatabaseSnapshot) (outcomes : List Outcome)
    (read written closed : Outcome) : Prop :=
  ∃ opened writes flushed closed₁ sized appended removed renamed rest,
    outcomes = opened :: (writes ++ flushed :: closed₁ :: sized :: read :: appended :: written ::
      closed :: removed :: renamed :: rest) ∧
    writes.length = (snapshotChunks t snapshot).length ∧ opened.ok = true ∧
    (∀ o ∈ writes, o.ok = true) ∧ flushed.ok = true ∧ sized.ok = true ∧ appended.ok = true ∧
    renamed.ok = true

/-- A `save` that returns `true` has had such outcomes. -/
theorem completes_of_run {filepath : Bytes} {t : TimePoint} {snapshot : DatabaseSnapshot}
    {outcomes rest : List Outcome} {d : Disk Bytes}
    (h : ((save filepath t snapshot).run outcomes d).1 = some (true, rest)) :
    ∃ read written closed, Completes t snapshot outcomes read written closed := by
  have hreach : ∃ rest, ReachesRemoval t snapshot outcomes rest := by
    by_contra hnot
    exact (save_run_of_not_reachesRemoval filepath (not_exists.mp hnot) d).1 rest h
  obtain ⟨later, hreach⟩ := hreach
  obtain ⟨d₂, hrun, _, htmp⟩ := save_run_of_reachesRemoval filepath hreach d
  rw [hrun] at h
  cases later with
  | nil => cases h
  | cons removed later =>
    rcases rename_files htmp removed later with ⟨_, renamed, hmem, hok⟩ | ⟨hstop, _⟩
    · obtain ⟨rest', rfl⟩ : ∃ rest', later = renamed :: rest' := by
        cases later with
        | nil => cases hmem
        | cons o rest' =>
          obtain rfl := Option.some.inj hmem
          exact ⟨rest', rfl⟩
      obtain ⟨opened, writes, flushed, closed₁, sized, read, appended, written, closed, rfl, hlen,
        hopened, hwrites, hflushed, hsized, happended⟩ := hreach
      exact ⟨read, written, closed, opened, writes, flushed, closed₁, sized, appended, removed,
        renamed, rest', rfl, hlen, hopened, hwrites, hflushed, hsized, happended, hok⟩
    · exact absurd h (hstop rest)

/-- With such outcomes `save` returns `true` and leaves the dump with the bytes that were
appended. -/
theorem Completes.run {t : TimePoint} {snapshot : DatabaseSnapshot} {outcomes : List Outcome}
    {read written closed : Outcome} (h : Completes t snapshot outcomes read written closed)
    (filepath : Bytes) (d : Disk Bytes) :
    (∃ rest, ((save filepath t snapshot).run outcomes d).1 = some (true, rest)) ∧
      ((save filepath t snapshot).run outcomes d).2.files filepath =
        some (dumpBody t snapshot ++ appendedBytes (dumpBody t snapshot) read written closed) := by
  obtain ⟨opened, writes, flushed, closed₁, sized, appended, removed, renamed, rest, rfl, hlen,
    hopened, hwrites, hflushed, hsized, happended, hrenamed⟩ := h
  obtain ⟨d₂, hrun, _, htmp⟩ := save_run_of_outcomes filepath hlen hopened hwrites hflushed hsized
    happended closed₁ read written closed (removed :: renamed :: rest) d
  have hne := tmpPath_ne filepath
  have havoid : ¬ (FileRequest.remove filepath).Touches (tmpPath filepath) := Ne.symm hne
  have htmp₃ := (Disk.perform_files havoid removed d₂).trans htmp
  generalize hd₃ : (d₂.perform removed (.remove filepath)).2 = d₃ at htmp₃
  have hrename : d₃.perform renamed (.rename (tmpPath filepath) filepath) =
      (true,
        (d₃.setFile filepath (d₃.files (tmpPath filepath))).setFile (tmpPath filepath) none) := by
    simp [Disk.perform, hrenamed, htmp₃]
  have hreplace : (replaceFile filepath).run (removed :: renamed :: rest) d₂ = (some (true, rest),
      (d₃.setFile filepath (d₃.files (tmpPath filepath))).setFile (tmpPath filepath) none) := by
    refine run_perform_bind_eq_some.mpr ⟨removed, _, rfl, ?_⟩
    rw [hd₃]
    refine run_perform_bind_eq_some.mpr ⟨renamed, _, rfl, ?_⟩
    rw [hrename]
    rfl
  rw [hrun, hreplace]
  refine ⟨⟨rest, rfl⟩, ?_⟩
  rw [Disk.setFile_files_of_ne hne, Disk.setFile_files_self, htmp₃]

/-- The checksum is right and complete: what was read back has the checksum of the dump, and all
four bytes are brought to the disk. -/
def ChecksumWritten (body : Bytes) (read written closed : Outcome) : Prop :=
  computeCrc32 (readBack read body) body.length = checksum body ∧
    (closed.ok = true ∨ 4 ≤ written.amount + closed.amount)

/-- Then, and only then, the file is the dump. -/
theorem appendedBytes_eq_iff {body : Bytes} {read written closed : Outcome} :
    appendedBytes body read written closed = writeUint32 (checksum body) ↔
      ChecksumWritten body read written closed := by
  unfold appendedBytes ChecksumWritten
  simp only
  cases closed.ok with
  | true => simp [writeUint32_injective.eq_iff]
  | false =>
    simp only [Bool.false_eq_true, if_false, false_or]
    generalize computeCrc32 (readBack read body) body.length = crc
    by_cases hfour : 4 ≤ written.amount + closed.amount
    · rw [List.take_of_length_le hfour, writeUint32_injective.eq_iff, and_iff_left hfour]
    · refine iff_of_false ?_ (fun h => hfour h.2)
      intro h
      have hlen := congrArg List.length h
      rw [List.length_take] at hlen
      change min _ 4 = 4 at hlen
      omega

/-- A dump that can be read back: it starts with a header and the announced number of entries. -/
def Readable (t : TimePoint) (snapshot : DatabaseSnapshot) : Prop :=
  ∃ entries : List FileEntry, ∃ rest, entries.length < 2 ^ 32 ∧
    dump t snapshot = fileCode entries ++ rest

/-- Dumps whose lengths fit can be read back. -/
theorem readable_of_encodable {t : TimePoint} {snapshot : DatabaseSnapshot}
    (henc : ∀ e ∈ dumpEntries t snapshot, e.Encodable) : Readable t snapshot := by
  have haccepts :
      (loadWith (exactDeadline 0) (some (dump t snapshot)) Database.empty).1 = true := by
    have hload := load_dump henc 0 Database.empty
    exact congrArg Prod.fst hload
  exact (loadWith_accepts_iff.mp haccepts).2.2

/-- `load` accepts a dump if and only if it can be read back. -/
theorem load_dump_accepts_iff {t : TimePoint} {snapshot : DatabaseSnapshot}
    {deadline : Int64 → TimePoint} {db : Database} :
    (loadWith deadline (some (dump t snapshot)) db).1 = true ↔ Readable t snapshot := by
  rw [loadWith_accepts_iff]
  refine ⟨fun h => h.2.2, fun h => ⟨?_, ⟨dumpBody t snapshot, rfl⟩, h⟩⟩
  rw [dump, List.length_append, dumpBody_eq, List.length_append, List.length_append]
  change 17 ≤ 9 + (4 + _) + 4
  omega

/-- If `save` returns `true`, the file is the complete dump with its checksum, and `load` accepts
it. -/
def ReportsUsable (filepath : Bytes) (t : TimePoint) (snapshot : DatabaseSnapshot)
    (outcomes : List Outcome) (d : Disk Bytes) : Prop :=
  ∀ rest, ((save filepath t snapshot).run outcomes d).1 = some (true, rest) →
    ((save filepath t snapshot).run outcomes d).2.files filepath = some (dump t snapshot) ∧
      ∀ now db,
        (load now (((save filepath t snapshot).run outcomes d).2.files filepath) db).1 = true

/-- A reported save is usable if and only if, when all steps that `save` looks at succeed, the
checksum is right and completely written and the dump can be read back. -/
theorem save_reports_usable_iff (filepath : Bytes) (t : TimePoint) (snapshot : DatabaseSnapshot)
    (outcomes : List Outcome) (d : Disk Bytes) :
    ReportsUsable filepath t snapshot outcomes d ↔
      ∀ read written closed, Completes t snapshot outcomes read written closed →
        ChecksumWritten (dumpBody t snapshot) read written closed ∧ Readable t snapshot := by
  constructor
  · intro husable read written closed hcompletes
    obtain ⟨⟨rest, hrun⟩, hfile⟩ := hcompletes.run filepath d
    obtain ⟨hdump, haccepts⟩ := husable rest hrun
    constructor
    · rw [hfile, Option.some.injEq, dump] at hdump
      exact appendedBytes_eq_iff.mp (List.append_cancel_left hdump)
    · have haccept := haccepts 0 Database.empty
      rw [hdump] at haccept
      exact load_dump_accepts_iff.mp haccept
  · intro h rest hrun
    obtain ⟨read, written, closed, hcompletes⟩ := completes_of_run hrun
    obtain ⟨hchecksum, hreadable⟩ := h read written closed hcompletes
    have hfile := (hcompletes.run filepath d).2
    rw [appendedBytes_eq_iff.mpr hchecksum] at hfile
    refine ⟨hfile, fun now db => ?_⟩
    rw [hfile]
    exact load_dump_accepts_iff.mpr hreadable

/-- A `save` of the empty database on a disk that is full when the checksum is written: the last
close fails, `true` is returned, and `load` refuses the file. -/
theorem save_reports_incomplete_file :
    let outcomes : List Outcome := List.replicate 9 ⟨true, 0⟩ ++ [⟨false, 0⟩, ⟨true, 0⟩, ⟨true, 0⟩]
    let d : Disk Bytes := ⟨fun _ => none, fun _ => []⟩
    let run := (save (ascii "dump.mrdb") 0 Database.empty).run outcomes d
    run.1 = some (true, []) ∧
      run.2.files (ascii "dump.mrdb") = some (dumpBody 0 Database.empty) ∧
      (load 0 (run.2.files (ascii "dump.mrdb")) Database.empty).1 = false ∧
      ¬ ReportsUsable (ascii "dump.mrdb") 0 Database.empty outcomes d := by
  intro outcomes d run
  have hrun : run.1 = some (true, []) := by decide +kernel
  have hload : (load 0 (run.2.files (ascii "dump.mrdb")) Database.empty).1 = false := by
    decide +kernel
  refine ⟨hrun, by decide +kernel, hload, ?_⟩
  intro husable
  have haccepted := (husable [] hrun).2 0 Database.empty
  rw [hload] at haccepted
  cases haccepted

end MyRedis.Persistence
