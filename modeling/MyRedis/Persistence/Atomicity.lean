import MyRedis.Persistence.Saving

/-!
# What `save` leaves behind when it fails or the process dies

`save` writes a temporary file and puts it in the place of the old one in two steps: the old file
is removed, then the temporary file is renamed.  Everything before these steps leaves the old file
alone (`writeTemporary_avoids`, `appendCrc32_avoids`), but between them there is no file: if the
process dies there, or the renaming fails, the old snapshot is lost.  `save_keeps_snapshot_iff`
shows that this is the only way to lose it.
-/

namespace MyRedis.Persistence

open Foundation FileProgram

/-! ### The old file before it is removed -/

/-- Writing to a stream does not touch another file. -/
theorem writeChunks_avoids {path other : Bytes} (h : path ≠ other) (chunks : List Bytes) :
    (writeChunks path chunks).Avoids other := by
  induction chunks with
  | nil => exact avoids_pure other true
  | cons chunk chunks ih =>
    refine avoids_perform_bind h fun ok => ?_
    split
    · exact ih
    · exact avoids_pure other false

/-- Writing the temporary file does not touch another file. -/
theorem writeTemporary_avoids {tmp other : Bytes} (h : tmp ≠ other) (chunks : List Bytes) :
    (writeTemporary tmp chunks).Avoids other := by
  refine avoids_perform_bind h fun opened => ?_
  split
  · exact avoids_pure other false
  · refine avoids_bind (writeChunks_avoids h chunks) fun written => avoids_bind ?_ fun good => ?_
    · unfold flush
      split
      · exact avoids_perform_bind h fun good => avoids_pure other good
      · exact avoids_pure other false
    · split
      · exact avoids_perform_bind h fun _ => avoids_perform_bind h fun _ => avoids_pure other false
      · exact avoids_perform_bind h fun _ => avoids_pure other true

/-- Appending the checksum does not touch another file. -/
theorem appendCrc32_avoids {tmp other : Bytes} (h : tmp ≠ other) :
    (appendCrc32 tmp).Avoids other := by
  refine avoids_perform_bind id fun size => ?_
  split
  · exact avoids_perform_bind h fun _ => avoids_pure other false
  · refine avoids_perform_bind id fun contents => avoids_perform_bind h fun opened => ?_
    split
    · exact avoids_perform_bind h fun _ => avoids_pure other false
    · exact avoids_perform_bind h fun _ => avoids_perform_bind h fun _ => avoids_pure other true

/-! ### Which outcomes lead to the removal -/

/-- All writes succeed if and only if each of them does. -/
theorem writeChunks_run_eq_true {path : Bytes} {chunks : List Bytes} {outcomes rest : List Outcome}
    {d : Disk Bytes} :
    (∃ d', (writeChunks path chunks).run outcomes d = (some (true, rest), d')) ↔
      ∃ writes, outcomes = writes ++ rest ∧ writes.length = chunks.length ∧
        ∀ o ∈ writes, o.ok = true := by
  induction chunks generalizing outcomes d with
  | nil =>
    constructor
    · rintro ⟨d', h⟩
      cases h
      exact ⟨[], rfl, rfl, by simp⟩
    · rintro ⟨writes, rfl, hlen, _⟩
      obtain rfl := List.length_eq_zero_iff.mp hlen
      exact ⟨d, rfl⟩
  | cons chunk chunks ih =>
    constructor
    · rintro ⟨d', h⟩
      obtain ⟨o, later, rfl, hlater⟩ := run_perform_bind_eq_some.mp h
      split at hlater
      · rename_i ho
        obtain ⟨writes, rfl, hlen, hok⟩ := ih.mp ⟨d', hlater⟩
        refine ⟨o :: writes, rfl, by rw [List.length_cons, hlen, List.length_cons], ?_⟩
        intro o' ho'
        rcases List.mem_cons.mp ho' with rfl | ho'
        · exact ho
        · exact hok o' ho'
      · cases hlater
    · rintro ⟨writes, rfl, hlen, hok⟩
      cases writes with
      | nil => cases hlen
      | cons o writes =>
        obtain ⟨d', h⟩ := ih.mpr ⟨writes, rfl, Nat.succ.inj hlen, fun o' ho' =>
          hok o' (List.mem_cons_of_mem o ho')⟩
        refine ⟨d', run_perform_bind_eq_some.mpr ⟨o, writes ++ rest, rfl, ?_⟩⟩
        change (if o.ok = true then _ else _ : FileProgram Bytes Bool).run _ _ = _
        rw [if_pos (hok o List.mem_cons_self)]
        exact h

/-- Writes that all succeed add up in the stream. -/
theorem writeChunks_holds {path : Bytes} {chunks : List Bytes} {outcomes rest : List Outcome}
    {content : Bytes} {d d' : Disk Bytes} (hd : d.Holds path content)
    (h : (writeChunks path chunks).run outcomes d = (some (true, rest), d')) :
    d'.Holds path (content ++ chunks.flatten) := by
  induction chunks generalizing content outcomes d with
  | nil =>
    cases h
    rwa [List.flatten_nil, List.append_nil]
  | cons chunk chunks ih =>
    obtain ⟨o, later, rfl, hlater⟩ := run_perform_bind_eq_some.mp h
    split at hlater
    · rw [List.flatten_cons, ← List.append_assoc]
      exact ih (hd.write o chunk) hlater
    · cases hlater

/-- Giving up on the temporary file returns `false`. -/
theorem giveUp_returns (tmp : Bytes) :
    (do let _ ← perform (.close tmp); let _ ← perform (.remove tmp); return false :
      FileProgram Bytes Bool).Returns (· = false) :=
  returns_perform_bind fun _ => returns_perform_bind fun _ => returns_pure rfl

/-- Removing the temporary file and giving up returns `false`. -/
theorem removeTmp_returns (tmp : Bytes) :
    (do let _ ← perform (.remove tmp); return false : FileProgram Bytes Bool).Returns
      (· = false) :=
  returns_perform_bind fun _ => returns_pure rfl

/-- Opening a file for writing succeeds if the outcome says so. -/
theorem perform_openTrunc_eq_true {tmp : Bytes} {o : Outcome} {d : Disk Bytes} :
    (d.perform o (.openTrunc tmp)).1 = true ↔ o.ok = true := by
  cases h : o.ok <;> simp [Disk.perform, h]

/-- A flush succeeds on a good stream if the outcome says so. -/
theorem flush_run_eq_true {path : Bytes} {good : Bool} {outcomes rest : List Outcome}
    {d d' : Disk Bytes} : (flush path good).run outcomes d = (some (true, rest), d') ↔
      good = true ∧ ∃ o, outcomes = o :: rest ∧ o.ok = true ∧ d' = d.sync path o := by
  unfold flush
  cases good with
  | false =>
    constructor
    · intro h
      cases h
    · rintro ⟨h, _⟩
      cases h
  | true =>
    rw [if_pos rfl]
    cases outcomes with
    | nil =>
      constructor
      · intro h
        cases h
      · rintro ⟨_, o, h, _⟩
        cases h
    | cons o outcomes =>
      change ((some (o.ok, outcomes), d.sync path o) : Option (Bool × List Outcome) × Disk Bytes) =
        (some (true, rest), d') ↔ _
      constructor
      · intro h
        simp only [Prod.mk.injEq, Option.some.injEq] at h
        exact ⟨rfl, o, by rw [h.1.2], h.1.1, h.2.symm⟩
      · rintro ⟨_, o', hcons, ho, rfl⟩
        obtain ⟨rfl, rfl⟩ := List.cons.inj hcons
        rw [ho]

/-- The temporary file is written only if it can be opened, every write succeeds and the flush
succeeds. -/
theorem outcomes_of_writeTemporary {tmp : Bytes} {chunks : List Bytes}
    {outcomes rest : List Outcome} {d d' : Disk Bytes}
    (h : (writeTemporary tmp chunks).run outcomes d = (some (true, rest), d')) :
    ∃ opened writes flushed closed, outcomes = opened :: (writes ++ flushed :: closed :: rest) ∧
      writes.length = chunks.length ∧ opened.ok = true ∧ (∀ o ∈ writes, o.ok = true) ∧
      flushed.ok = true := by
  obtain ⟨opened, later, rfl, h⟩ := run_perform_bind_eq_some.mp h
  obtain ⟨hopened, h⟩ := (run_guard_eq_true (returns_pure rfl)).mp h
  obtain ⟨written, later₁, d₁, hchunks, h⟩ := run_bind_eq_some.mp h
  obtain ⟨good, later₂, d₂, hflush, h⟩ := run_bind_eq_some.mp h
  obtain ⟨rfl, h⟩ := (run_guard_eq_true (giveUp_returns tmp)).mp h
  obtain ⟨closed, later₃, rfl, h⟩ := run_perform_bind_eq_some.mp h
  cases h
  obtain ⟨rfl, flushed, rfl, hflushed, _⟩ := flush_run_eq_true.mp hflush
  obtain ⟨writes, rfl, hlen, hwrites⟩ := writeChunks_run_eq_true.mp ⟨d₁, hchunks⟩
  exact ⟨opened, writes, flushed, closed, rfl, hlen, perform_openTrunc_eq_true.mp hopened, hwrites,
    hflushed⟩

/-- With such outcomes the temporary file is written. -/
theorem writeTemporary_run_of_outcomes (tmp : Bytes) {chunks : List Bytes}
    {opened flushed : Outcome} {writes : List Outcome} (hlen : writes.length = chunks.length)
    (hopened : opened.ok = true) (hwrites : ∀ o ∈ writes, o.ok = true)
    (hflushed : flushed.ok = true) (closed : Outcome) (rest : List Outcome) (d : Disk Bytes) :
    ∃ d', (writeTemporary tmp chunks).run (opened :: (writes ++ flushed :: closed :: rest)) d =
        (some (true, rest), d') ∧ d'.files tmp = some chunks.flatten := by
  have hperform : d.perform opened (.openTrunc tmp) = (true, d.setFile tmp (some [])) := by
    simp only [Disk.perform, hopened, if_true]
  obtain ⟨d₁, hchunks⟩ := writeChunks_run_eq_true (d := d.setFile tmp (some [])).mpr
    ⟨writes, (rfl : _ = writes ++ flushed :: closed :: rest), hlen, hwrites⟩
  have hholds : d₁.Holds tmp chunks.flatten :=
    writeChunks_holds (Disk.Holds.setFile d tmp []) hchunks
  refine ⟨((d₁.sync tmp flushed).perform closed (.close tmp)).2, ?_, ?_⟩
  · have hflush : (flush tmp true).run (flushed :: closed :: rest) d₁ =
        (some (true, closed :: rest), d₁.sync tmp flushed) :=
      flush_run_eq_true.mpr ⟨rfl, flushed, rfl, hflushed, rfl⟩
    refine run_perform_bind_eq_some.mpr ⟨opened, _, rfl, ?_⟩
    rw [hperform]
    refine (run_guard_eq_true (returns_pure rfl)).mpr ⟨rfl, ?_⟩
    refine run_bind_eq_some.mpr ⟨true, _, d₁, hchunks, ?_⟩
    refine run_bind_eq_some.mpr ⟨true, _, _, hflush, ?_⟩
    exact (run_guard_eq_true (giveUp_returns tmp)).mpr ⟨rfl, rfl⟩
  · -- the flush has left nothing for the close to do
    rw [Disk.close_files_of_pending_nil (Disk.sync_pending hflushed d₁), hholds.files_sync hflushed]

/-- Opening a file at its end succeeds if the outcome says so. -/
theorem perform_openAppend_eq_true {tmp : Bytes} {o : Outcome} {d : Disk Bytes} :
    (d.perform o (.openAppend tmp)).1 = true ↔ o.ok = true := by
  cases h : o.ok <;> simp [Disk.perform, h]

/-- The size of a file can be asked for if the outcome says so and the file exists. -/
theorem perform_fileSize_isSome {tmp : Bytes} {o : Outcome} {d : Disk Bytes} :
    (d.perform o (.fileSize tmp)).1.isSome = true ↔ o.ok = true ∧ (d.files tmp).isSome = true := by
  cases h : o.ok <;> simp [Disk.perform, h]

/-- What a file holds after data were appended to it: as much of them as the write and the close
have brought to the disk. -/
theorem files_after_append {tmp body : Bytes} {appended : Outcome} {d : Disk Bytes}
    (hd : d.files tmp = some body) (happended : appended.ok = true) (written closed : Outcome)
    (data : Bytes) :
    (((d.perform appended (.openAppend tmp)).2.perform written (.write tmp data)).2.perform closed
      (.close tmp)).2.files tmp =
      some (body ++ if closed.ok then data else data.take (written.amount + closed.amount)) := by
  have hopen : (d.perform appended (.openAppend tmp)).2 = d.setFile tmp (some body) := by
    simp [Disk.perform, happended, hd]
  have hholds := (Disk.Holds.setFile d tmp body).write written data
  rw [hopen]
  cases hclosed : closed.ok with
  | true =>
    rw [hholds.close hclosed]
    rfl
  | false =>
    change ((Disk.sync _ tmp closed).setFile tmp _).files tmp = _
    rw [Disk.setFile_files_self, Disk.sync, hclosed]
    have hsplit : data.take written.amount ++ (data.drop written.amount).take closed.amount =
        data.take (written.amount + closed.amount) := List.take_add.symm
    simp [Disk.perform, Disk.drain, Disk.buffer, Disk.setFile, hsplit]

/-- The checksum is appended only if the file can be reopened for its size and at its end. -/
theorem outcomes_of_appendCrc32 {tmp : Bytes} {outcomes rest : List Outcome} {d d' : Disk Bytes}
    (h : (appendCrc32 tmp).run outcomes d = (some (true, rest), d')) :
    ∃ sized read appended written closed,
      outcomes = sized :: read :: appended :: written :: closed :: rest ∧ sized.ok = true ∧
      appended.ok = true := by
  obtain ⟨sized, later, rfl, h₁⟩ := run_perform_bind_eq_some.mp h
  split at h₁
  · have hfalse := (removeTmp_returns tmp).of_run h₁
    cases hfalse
  · rename_i dataSize hsize
    obtain ⟨read, later₁, rfl, h₂⟩ := run_perform_bind_eq_some.mp h₁
    obtain ⟨appended, later₂, rfl, h₃⟩ := run_perform_bind_eq_some.mp h₂
    obtain ⟨hopened, h₄⟩ := (run_guard_eq_true (removeTmp_returns tmp)).mp h₃
    obtain ⟨written, later₃, rfl, h₅⟩ := run_perform_bind_eq_some.mp h₄
    obtain ⟨closed, later₄, rfl, h₆⟩ := run_perform_bind_eq_some.mp h₅
    cases h₆
    have hsized := perform_fileSize_isSome.mp (Option.isSome_iff_exists.mpr ⟨dataSize, hsize⟩)
    exact ⟨sized, read, appended, written, closed, rfl, hsized.1,
      perform_openAppend_eq_true.mp hopened⟩

/-- What the temporary file delivers when it is read back for its checksum. -/
def readBack (read : Outcome) (body : Bytes) : Option Bytes :=
  if read.ok then some body
  else if read.amount = 0 then none
  else some (body.take (read.amount - 1))

/-- The bytes that are appended: those of the checksum that is computed, as far as they are brought
to the disk. -/
def appendedBytes (body : Bytes) (read written closed : Outcome) : Bytes :=
  let crc := writeUint32 (computeCrc32 (readBack read body) body.length)
  if closed.ok then crc else crc.take (written.amount + closed.amount)

/-- With such outcomes the checksum is appended. -/
theorem appendCrc32_run_of_outcomes {tmp body : Bytes} {sized appended : Outcome} {d : Disk Bytes}
    (hd : d.files tmp = some body) (hsized : sized.ok = true) (happended : appended.ok = true)
    (read written closed : Outcome) (rest : List Outcome) :
    ∃ d', (appendCrc32 tmp).run (sized :: read :: appended :: written :: closed :: rest) d =
      (some (true, rest), d') ∧
      d'.files tmp = some (body ++ appendedBytes body read written closed) := by
  have hsize : (d.perform sized (.fileSize tmp)).1 = some body.length := by
    simp [Disk.perform, hsized, hd]
  have hread : (d.perform read (.readFile tmp)).1 = readBack read body := by
    simp only [Disk.perform, hd, readBack, Option.map_some]
  have hopened : (d.perform appended (.openAppend tmp)).1 = true :=
    perform_openAppend_eq_true.mpr happended
  refine ⟨(((d.perform appended (.openAppend tmp)).2.perform written (.write tmp
    (writeUint32 (computeCrc32 (readBack read body) body.length)))).2.perform closed
    (.close tmp)).2, ?_, files_after_append hd happended written closed _⟩
  refine run_perform_bind_eq_some.mpr ⟨sized, _, rfl, ?_⟩
  rw [hsize]
  refine run_perform_bind_eq_some.mpr ⟨read, _, rfl, ?_⟩
  refine run_perform_bind_eq_some.mpr ⟨appended, _, rfl, ?_⟩
  refine (run_guard_eq_true (removeTmp_returns tmp)).mpr ⟨hopened, ?_⟩
  rw [← hread]
  rfl

/-! ### Replacing the file -/

/-- A renaming that fails leaves the disk as it is. -/
theorem perform_rename_of_not_ok {path newPath : Bytes} {o : Outcome} (ho : o.ok = false)
    (d : Disk Bytes) : d.perform o (.rename path newPath) = (false, d) := by
  simp [Disk.perform, ho]

/-- A renaming of an existing file that succeeds. -/
theorem perform_rename_of_ok {path newPath : Bytes} {o : Outcome} {d : Disk Bytes}
    (ho : o.ok = true) (hd : (d.files path).isSome = true) :
    (d.perform o (.rename path newPath)).1 = true := by
  simp [Disk.perform, ho, hd]

/-- After the removal, the file is what the removal left, unless the renaming succeeds. -/
theorem rename_files {filepath : Bytes} {d : Disk Bytes}
    (htmp : (d.files (tmpPath filepath)).isSome = true) (removed : Outcome)
    (later : List Outcome) :
    (∃ rest, ((replaceFile filepath).run (removed :: later) d).1 = some (true, rest)) ∧
        (∃ renamed ∈ later.head?, renamed.ok = true) ∨
      (∀ rest, ((replaceFile filepath).run (removed :: later) d).1 ≠ some (true, rest)) ∧
        (∀ renamed ∈ later.head?, renamed.ok = false) ∧
        ((replaceFile filepath).run (removed :: later) d).2.files filepath =
          (d.perform removed (.remove filepath)).2.files filepath := by
  have hne := tmpPath_ne filepath
  have havoid : ¬ (FileRequest.remove filepath).Touches (tmpPath filepath) := Ne.symm hne
  have htmp₁ : ((d.perform removed (.remove filepath)).2.files (tmpPath filepath)).isSome =
      true := by
    rw [Disk.perform_files havoid]
    exact htmp
  cases later with
  | nil =>
    right
    refine ⟨?_, by simp, rfl⟩
    intro rest h
    cases h
  | cons renamed later =>
    have hrun : (replaceFile filepath).run (removed :: renamed :: later) d =
        (if !((d.perform removed (.remove filepath)).2.perform renamed
          (.rename (tmpPath filepath) filepath)).1 then
            (perform (.remove (tmpPath filepath)) >>= fun _ => pure false) else pure true).run later
          ((d.perform removed (.remove filepath)).2.perform renamed
            (.rename (tmpPath filepath) filepath)).2 := rfl
    cases hok : renamed.ok with
    | true =>
      left
      rw [hrun, perform_rename_of_ok hok htmp₁]
      exact ⟨⟨later, rfl⟩, renamed, rfl, hok⟩
    | false =>
      right
      rw [hrun, perform_rename_of_not_ok hok]
      refine ⟨?_, by simpa using hok, ?_⟩
      · intro rest h
        have hfalse := (removeTmp_returns (tmpPath filepath)).of_run (Prod.ext h rfl)
        cases hfalse
      · have hremove : (perform (.remove (tmpPath filepath)) >>= fun _ => pure false :
            FileProgram Bytes Bool).Avoids filepath :=
          avoids_perform_bind hne fun _ => avoids_pure filepath false
        exact run_files_of_avoids hremove later _

/-! ### The whole of `save` -/

/-- Outcomes with which `save` gets as far as removing the old file: those of its requests up to
there, of which the ones that it looks at succeed, and the remaining ones `rest`. -/
def ReachesRemoval (t : TimePoint) (snapshot : DatabaseSnapshot) (outcomes rest : List Outcome) :
    Prop :=
  ∃ opened writes flushed closed sized read appended written closed',
    outcomes = opened :: (writes ++ flushed :: closed :: sized :: read :: appended :: written ::
      closed' :: rest) ∧
    writes.length = (snapshotChunks t snapshot).length ∧ opened.ok = true ∧
    (∀ o ∈ writes, o.ok = true) ∧ flushed.ok = true ∧ sized.ok = true ∧ appended.ok = true

/-- The remaining outcomes are determined by their position. -/
theorem ReachesRemoval.rest_eq {t : TimePoint} {snapshot : DatabaseSnapshot}
    {outcomes rest : List Outcome} (h : ReachesRemoval t snapshot outcomes rest) :
    rest = outcomes.drop ((snapshotChunks t snapshot).length + 8) := by
  obtain ⟨opened, writes, flushed, closed, sized, read, appended, written, closed', rfl, hlen, _⟩ :=
    h
  rw [← hlen, List.drop_succ_cons, List.drop_length_add_append]
  rfl

/-- With such outcomes the old file is there when the replacement starts, and the temporary file
holds the dump and what was appended to it. -/
theorem save_run_of_outcomes (filepath : Bytes) {t : TimePoint} {snapshot : DatabaseSnapshot}
    {opened flushed sized appended : Outcome} {writes : List Outcome}
    (hlen : writes.length = (snapshotChunks t snapshot).length) (hopened : opened.ok = true)
    (hwrites : ∀ o ∈ writes, o.ok = true) (hflushed : flushed.ok = true) (hsized : sized.ok = true)
    (happended : appended.ok = true) (closed read written closed' : Outcome) (rest : List Outcome)
    (d : Disk Bytes) :
    ∃ d₂, (save filepath t snapshot).run (opened :: (writes ++ flushed :: closed :: sized ::
        read :: appended :: written :: closed' :: rest)) d = (replaceFile filepath).run rest d₂ ∧
      d₂.files filepath = d.files filepath ∧
      d₂.files (tmpPath filepath) = some (dumpBody t snapshot ++
        appendedBytes (dumpBody t snapshot) read written closed') := by
  obtain ⟨d₁, hrun₁, htmp₁⟩ := writeTemporary_run_of_outcomes (tmpPath filepath) hlen hopened
    hwrites hflushed closed (sized :: read :: appended :: written :: closed' :: rest) d
  obtain ⟨d₂, hrun₂, htmp₂⟩ :=
    appendCrc32_run_of_outcomes htmp₁ hsized happended read written closed' rest
  refine ⟨d₂, ?_, ?_, htmp₂⟩
  · unfold save
    rw [run_bind, hrun₁]
    change (appendCrc32 (tmpPath filepath) >>= _).run _ d₁ = _
    rw [run_bind, hrun₂]
    rfl
  · have hne := tmpPath_ne filepath
    have h₁ := run_files_of_avoids (writeTemporary_avoids hne (snapshotChunks t snapshot))
      (opened :: (writes ++ flushed :: closed :: sized :: read :: appended :: written ::
        closed' :: rest)) d
    have h₂ := run_files_of_avoids (appendCrc32_avoids hne)
      (sized :: read :: appended :: written :: closed' :: rest) d₁
    rw [hrun₁] at h₁
    rw [hrun₂] at h₂
    exact h₂.trans h₁

/-- With such outcomes the old file and the temporary file are there when the replacement
starts. -/
theorem save_run_of_reachesRemoval (filepath : Bytes) {t : TimePoint} {snapshot : DatabaseSnapshot}
    {outcomes rest : List Outcome} (h : ReachesRemoval t snapshot outcomes rest)
    (d : Disk Bytes) :
    ∃ d₂, (save filepath t snapshot).run outcomes d = (replaceFile filepath).run rest d₂ ∧
      d₂.files filepath = d.files filepath ∧ (d₂.files (tmpPath filepath)).isSome = true := by
  obtain ⟨opened, writes, flushed, closed, sized, read, appended, written, closed', rfl, hlen,
    hopened, hwrites, hflushed, hsized, happended⟩ := h
  obtain ⟨d₂, hrun, hfile, htmp⟩ := save_run_of_outcomes filepath hlen hopened hwrites hflushed
    hsized happended closed read written closed' rest d
  refine ⟨d₂, hrun, hfile, ?_⟩
  rw [htmp]
  rfl

/-- With other outcomes `save` does not return `true` and does not touch the old file. -/
theorem save_run_of_not_reachesRemoval (filepath : Bytes) {t : TimePoint}
    {snapshot : DatabaseSnapshot} {outcomes : List Outcome}
    (h : ∀ rest, ¬ ReachesRemoval t snapshot outcomes rest) (d : Disk Bytes) :
    (∀ rest, ((save filepath t snapshot).run outcomes d).1 ≠ some (true, rest)) ∧
      ((save filepath t snapshot).run outcomes d).2.files filepath = d.files filepath := by
  have hne := tmpPath_ne filepath
  have h₁ := run_files_of_avoids (writeTemporary_avoids hne (snapshotChunks t snapshot)) outcomes d
  unfold save
  rw [run_bind]
  rcases hrun₁ : (writeTemporary (tmpPath filepath) (snapshotChunks t snapshot)).run outcomes d with
    ⟨_ | ⟨_ | _, later⟩, d₁⟩
  · rw [hrun₁] at h₁
    exact ⟨fun _ hr => (nomatch hr), h₁⟩
  · rw [hrun₁] at h₁
    exact ⟨fun _ hr => (nomatch hr), h₁⟩
  · rw [hrun₁] at h₁
    have h₂ := run_files_of_avoids (appendCrc32_avoids hne) later d₁
    change (∀ rest, ((appendCrc32 (tmpPath filepath) >>= _).run later d₁).1 ≠ _) ∧
      ((appendCrc32 (tmpPath filepath) >>= _).run later d₁).2.files filepath = _
    rw [run_bind]
    rcases hrun₂ : (appendCrc32 (tmpPath filepath)).run later d₁ with ⟨_ | ⟨_ | _, rest⟩, d₂⟩
    · rw [hrun₂] at h₂
      exact ⟨fun _ hr => (nomatch hr), h₂.trans h₁⟩
    · rw [hrun₂] at h₂
      exact ⟨fun _ hr => (nomatch hr), h₂.trans h₁⟩
    · obtain ⟨opened, writes, flushed, closed, rfl, hlen, hopened, hwrites, hflushed⟩ :=
        outcomes_of_writeTemporary hrun₁
      obtain ⟨sized, read, appended, written, closed', rfl, hsized, happended⟩ :=
        outcomes_of_appendCrc32 hrun₂
      exact absurd ⟨opened, writes, flushed, closed, sized, read, appended, written, closed', rfl,
        hlen, hopened, hwrites, hflushed, hsized, happended⟩ (h rest)

/-- If `save` does not return `true`, because it fails or because the process dies, then the file is
the old one or the complete new one. -/
def KeepsSnapshot (filepath : Bytes) (t : TimePoint) (snapshot : DatabaseSnapshot)
    (outcomes : List Outcome) (d : Disk Bytes) : Prop :=
  (∀ rest, ((save filepath t snapshot).run outcomes d).1 ≠ some (true, rest)) →
    ((save filepath t snapshot).run outcomes d).2.files filepath = d.files filepath ∨
    ((save filepath t snapshot).run outcomes d).2.files filepath = some (dump t snapshot)

/-- Removing an existing file, or failing to. -/
theorem perform_remove_files (path : Bytes) (o : Outcome) (d : Disk Bytes) :
    (d.perform o (.remove path)).2.files path = if o.ok then none else d.files path := by
  cases hok : o.ok with
  | false => simp [Disk.perform, hok]
  | true =>
    cases hfile : d.files path with
    | none => simp [Disk.perform, hok, hfile]
    | some content => simp [Disk.perform, hok, hfile]

/-- The old snapshot is kept unless there is one, it is removed, and then the process dies or the
renaming fails. -/
theorem save_keeps_snapshot_iff (filepath : Bytes) (t : TimePoint) (snapshot : DatabaseSnapshot)
    (outcomes : List Outcome) (d : Disk Bytes) :
    KeepsSnapshot filepath t snapshot outcomes d ↔
      ¬ ((d.files filepath).isSome = true ∧ ∃ removed later,
        ReachesRemoval t snapshot outcomes (removed :: later) ∧ removed.ok = true ∧
        ∀ renamed ∈ later.head?, renamed.ok = false) := by
  unfold KeepsSnapshot
  by_cases hreach : ∃ rest, ReachesRemoval t snapshot outcomes rest
  · obtain ⟨rest, hreach⟩ := hreach
    obtain ⟨d₂, hrun, hfile, htmp⟩ := save_run_of_reachesRemoval filepath hreach d
    rw [hrun, ← hfile]
    cases rest with
    | nil =>
      -- the process dies before the removal
      refine iff_of_true (fun _ => Or.inl rfl) ?_
      rintro ⟨_, removed, later, hreach', _⟩
      have heq := hreach.rest_eq.trans hreach'.rest_eq.symm
      cases heq
    | cons removed later =>
      have hunique : ∀ removed' later', ReachesRemoval t snapshot outcomes (removed' :: later') →
          removed' = removed ∧ later' = later := by
        intro removed' later' hreach'
        exact List.cons.inj (hreach'.rest_eq.trans hreach.rest_eq.symm)
      rcases rename_files htmp removed later with
        ⟨⟨rest', htrue⟩, renamed, hmem, hok⟩ | ⟨hstop, hhead, hfiles⟩
      · refine iff_of_true (fun hstop => absurd htrue (hstop rest')) ?_
        rintro ⟨_, removed', later', hreach', _, hfail⟩
        obtain ⟨rfl, rfl⟩ := hunique removed' later' hreach'
        rw [hfail renamed hmem] at hok
        cases hok
      · rw [hfiles, perform_remove_files]
        cases hok : removed.ok with
        | false =>
          refine iff_of_true (fun _ => Or.inl rfl) ?_
          rintro ⟨_, removed', later', hreach', hok', _⟩
          obtain ⟨rfl, rfl⟩ := hunique removed' later' hreach'
          rw [hok] at hok'
          cases hok'
        | true =>
          cases hold : d₂.files filepath with
          | none => simp
          | some content =>
            refine iff_of_false ?_ (not_not_intro ⟨rfl, removed, later, hreach, hok, hhead⟩)
            intro hkeeps
            rcases hkeeps hstop with h | h <;> cases h
  · have hstop := save_run_of_not_reachesRemoval filepath (not_exists.mp hreach) d
    refine iff_of_true (fun _ => Or.inl hstop.2) ?_
    rintro ⟨_, removed, later, hreach', _⟩
    exact hreach ⟨_, hreach'⟩

/-- A `save` of the empty database over an old file, in which everything succeeds but the renaming:
`false` is returned and there is no file any more. -/
theorem save_loses_snapshot :
    ¬ KeepsSnapshot (ascii "dump.mrdb") 0 Database.empty
      (List.replicate 11 ⟨true, 0⟩ ++ [⟨false, 0⟩, ⟨true, 0⟩])
      ⟨fun path => if path = ascii "dump.mrdb" then some (ascii "old") else none, fun _ => []⟩ := by
  intro h
  have hreturned : ((save (ascii "dump.mrdb") 0 Database.empty).run
      (List.replicate 11 ⟨true, 0⟩ ++ [⟨false, 0⟩, ⟨true, 0⟩])
      ⟨fun path => if path = ascii "dump.mrdb" then some (ascii "old") else none,
        fun _ => []⟩).1 = some (false, []) := by decide +kernel
  have hgone : ((save (ascii "dump.mrdb") 0 Database.empty).run
      (List.replicate 11 ⟨true, 0⟩ ++ [⟨false, 0⟩, ⟨true, 0⟩])
      ⟨fun path => if path = ascii "dump.mrdb" then some (ascii "old") else none,
        fun _ => []⟩).2.files (ascii "dump.mrdb") = none := by decide +kernel
  have hkept := h fun rest hr => by
    rw [hreturned] at hr
    cases hr
  rw [hgone] at hkept
  rcases hkept with hkept | hkept
  · revert hkept
    decide
  · cases hkept

end MyRedis.Persistence
