import MyRedis.Persistence.ReportedSave
import MyRedis.Persistence.Restore

/-!
# What can stand in the place of the dump file

Whatever happens to a `save`, it leaves the old file, no file, or, if and only if it returns
`true`, the dump of the snapshot with something behind it where the checksum should be
(`files_save`).  Such a file is loaded exactly as the dump, or refused (`load_saved`), even if only
a front part of it is delivered.  So a file that was put in place by `save` never gives a database
other than the saved one.
-/

namespace MyRedis.Persistence

open Foundation FileProgram

/-- **The file after a `save`**, whether it returns or the process dies in it. -/
theorem files_save (filepath : Bytes) (t : TimePoint) (snapshot : DatabaseSnapshot)
    (outcomes : List Outcome) (d : Disk Bytes) :
    (∃ rest more, ((save filepath t snapshot).run outcomes d).1 = some (true, rest) ∧
        ((save filepath t snapshot).run outcomes d).2.files filepath =
          some (dumpBody t snapshot ++ more)) ∨
      (∀ rest, ((save filepath t snapshot).run outcomes d).1 ≠ some (true, rest)) ∧
        (((save filepath t snapshot).run outcomes d).2.files filepath = d.files filepath ∨
          ((save filepath t snapshot).run outcomes d).2.files filepath = none) := by
  by_cases htrue : ∃ rest, ((save filepath t snapshot).run outcomes d).1 = some (true, rest)
  · obtain ⟨rest, hrun⟩ := htrue
    obtain ⟨read, written, closed, hcompletes⟩ := completes_of_run hrun
    exact Or.inl ⟨rest, _, hrun, (hcompletes.run filepath d).2⟩
  · refine Or.inr ⟨not_exists.mp htrue, ?_⟩
    by_cases hreach : ∃ rest, ReachesRemoval t snapshot outcomes rest
    · obtain ⟨rest, hreach⟩ := hreach
      obtain ⟨d₂, hrun, hfile, htmp⟩ := save_run_of_reachesRemoval filepath hreach d
      rw [hrun] at htrue ⊢
      rw [← hfile]
      cases rest with
      | nil => exact Or.inl rfl
      | cons removed later =>
        -- the renaming has not taken place, so the file is what the removal left
        rcases rename_files htmp removed later with ⟨htrue', -⟩ | ⟨-, -, hfiles⟩
        · exact absurd htrue' htrue
        · rw [hfiles, perform_remove_files]
          cases removed.ok with
          | true => exact Or.inr rfl
          | false => exact Or.inl rfl
    · exact Or.inl (save_run_of_not_reachesRemoval filepath (not_exists.mp hreach) d).2

/-- **Loading such a file**, or a front part of it: it is refused, or it gives the database that the
dump gives. -/
theorem load_saved {t : TimePoint} {snapshot : DatabaseSnapshot}
    (henc : ∀ e ∈ dumpEntries t snapshot, e.Encodable) {part more : Bytes}
    (hpart : part <+: dumpBody t snapshot ++ more) (t' : TimePoint) (db : Database) :
    load t' (some part) db = (false, db) ∨
      load t' (some part) db = load t' (some (dump t snapshot)) db := by
  cases haccepted : (load t' (some part) db).1 with
  | false => exact Or.inl (loadWith_eq_false haccepted)
  | true =>
    right
    obtain ⟨-, -, entries, rest, hlen, hcontent, hdb⟩ :=
      loadWith_eq_true_iff.mp (Prod.ext haccepted rfl)
    obtain ⟨later, hlater⟩ := hpart
    -- the readers read the same entries from the part, from the whole file and from the dump
    have hread : (loadEntries t').run (dumpBody t snapshot ++ more) =
        some ((load t' (some part) db).2, rest ++ later) := by
      refine run_loadEntriesWith_eq_some.mpr ⟨entries, hlen, ?_, hdb⟩
      rw [← hlater, hcontent, List.append_assoc]
    obtain ⟨rest', hread'⟩ := run_loadEntries_dumpBody henc t' more
    rw [hread'] at hread
    obtain ⟨hsame, -⟩ := Prod.mk.inj (Option.some.inj hread)
    rw [load_dump henc t' db, hsame]
    exact Prod.ext haccepted rfl

end MyRedis.Persistence
