import MyRedis.Persistence.RoundTrip

/-!
# Running `save`

`save_succeeds` follows a run in which nothing fails, whatever the buffering of the streams: the
dump is then the content of the file.
-/

namespace MyRedis.Persistence

open Foundation FileProgram

/-! ### A run in which nothing fails -/

/-- The writes add up in the stream. -/
theorem writeChunks_succeeds {path : Bytes} (chunks : List Bytes) {content : Bytes}
    {d : Disk Bytes} (h : d.Holds path content) :
    (writeChunks path chunks).Succeeds chunks.length d fun good d' =>
      good = true ∧ d'.Holds path (content ++ chunks.flatten) := by
  induction chunks generalizing content d with
  | nil =>
    refine succeeds_pure ⟨rfl, ?_⟩
    rw [List.flatten_nil, List.append_nil]
    exact h
  | cons chunk chunks ih =>
    rw [List.length_cons, Nat.add_comm, List.flatten_cons, ← List.append_assoc]
    refine succeeds_bind (fun good d' => good = true ∧ d'.Holds path (content ++ chunk))
      (succeeds_perform fun o ho => ⟨ho, h.write o chunk⟩) ?_
    rintro good d' ⟨hgood, hholds⟩
    change good = true at hgood
    rw [hgood, if_pos rfl]
    exact ih hholds

/-- The temporary file is written. -/
theorem writeTemporary_succeeds (tmp : Bytes) (chunks : List Bytes) (d : Disk Bytes) :
    (writeTemporary tmp chunks).Succeeds (1 + (chunks.length + (1 + 1))) d fun good d' =>
      good = true ∧ d'.files tmp = some chunks.flatten := by
  refine succeeds_bind (fun opened d' => opened = true ∧ d'.Holds tmp [])
    (succeeds_perform fun o ho => ?_) ?_
  · simp only [Disk.perform, ho, if_true, true_and]
    exact Disk.Holds.setFile d tmp []
  rintro opened d₁ ⟨hopened, h₁⟩
  change opened = true at hopened
  simp only [hopened, Bool.not_true, Bool.false_eq_true, if_false]
  refine succeeds_bind _ (writeChunks_succeeds chunks h₁) ?_
  rintro written d₂ ⟨hwritten, h₂⟩
  simp only [hwritten, flush, if_true]
  refine succeeds_bind (fun good d' => good = true ∧ d'.Holds tmp chunks.flatten)
    (succeeds_perform fun o ho => ⟨ho, h₂.drain _⟩) ?_
  rintro good d₃ ⟨hgood, h₃⟩
  change good = true at hgood
  simp only [hgood, Bool.not_true, Bool.false_eq_true, if_false]
  exact succeeds_bind _ (succeeds_perform fun o ho => h₃.close ho) fun _ d' h' =>
    succeeds_pure ⟨rfl, h'⟩

/-- The checksum is appended. -/
theorem appendCrc32_succeeds (tmp : Bytes) {body : Bytes} {d : Disk Bytes}
    (hd : d.files tmp = some body) :
    (appendCrc32 tmp).Succeeds (1 + (1 + (1 + (1 + 1)))) d fun good d' =>
      good = true ∧ d'.files tmp = some (body ++ writeUint32 (checksum body)) := by
  refine succeeds_bind (fun size d' => size = some body.length ∧ d'.files tmp = some body)
    (succeeds_perform fun o ho => ?_) ?_
  · simp only [Disk.perform, ho, if_true, hd, Option.map_some, and_self]
  rintro size d₁ ⟨hsize, h₁⟩
  change size = some body.length at hsize
  subst hsize
  refine succeeds_bind (fun contents d' => contents = some body ∧ d'.files tmp = some body)
    (succeeds_perform fun o ho => ?_) ?_
  · simp only [Disk.perform, ho, if_true, h₁, and_self]
  rintro contents d₂ ⟨hcontents, h₂⟩
  change contents = some body at hcontents
  have hcrc : computeCrc32 contents body.length = checksum body := by
    rw [hcontents, computeCrc32_some, List.take_length]
  refine succeeds_bind (fun opened d' => opened = true ∧ d'.Holds tmp body)
    (succeeds_perform fun o ho => ?_) ?_
  · simp only [Disk.perform, ho, if_true, h₂, Option.getD_some, true_and]
    exact Disk.Holds.setFile d₂ tmp body
  rintro opened d₃ ⟨hopened, h₃⟩
  change opened = true at hopened
  simp only [hopened, Bool.not_true, Bool.false_eq_true, if_false]
  refine succeeds_bind
    (fun _ d' => d'.Holds tmp (body ++ writeUint32 (computeCrc32 contents body.length)))
    (succeeds_perform fun o _ => h₃.write o _) ?_
  intro _ d₄ h₄
  rw [hcrc] at h₄
  exact succeeds_bind _ (succeeds_perform fun o ho => h₄.close ho) fun _ d' h' =>
    succeeds_pure ⟨rfl, h'⟩

/-- The temporary file has another name. -/
theorem tmpPath_ne (filepath : Bytes) : tmpPath filepath ≠ filepath := by
  intro h
  have hlen := congrArg List.length h
  rw [tmpPath, List.length_append] at hlen
  have htmp : (ascii ".tmp").length = 4 := rfl
  omega

/-- The temporary file takes the place of the old one. -/
theorem replaceFile_succeeds (filepath : Bytes) {content : Bytes} {d : Disk Bytes}
    (hd : d.files (tmpPath filepath) = some content) :
    (replaceFile filepath).Succeeds (1 + (1 + 0)) d fun good d' =>
      good = true ∧ d'.files filepath = some content := by
  have hne := tmpPath_ne filepath
  refine succeeds_bind (fun _ d' => d'.files (tmpPath filepath) = some content)
    (succeeds_perform fun o _ => ?_) ?_
  · have havoid : ¬ (FileRequest.remove filepath).Touches (tmpPath filepath) := Ne.symm hne
    rw [Disk.perform_files havoid, hd]
  intro _ d₁ h₁
  refine succeeds_bind (fun renamed d' => renamed = true ∧ d'.files filepath = some content)
    (succeeds_perform fun o ho => ?_) ?_
  · simp only [Disk.perform, ho, h₁, Option.isSome_some, Bool.and_self, if_true, true_and]
    rw [Disk.setFile_files_of_ne hne, Disk.setFile_files_self]
  rintro renamed d₂ ⟨hrenamed, h₂⟩
  change renamed = true at hrenamed
  simp only [hrenamed, Bool.not_true, Bool.false_eq_true, if_false]
  exact succeeds_pure ⟨rfl, h₂⟩

/-- The number of file-system requests of a `save` in which nothing fails. -/
def saveRequests (t : TimePoint) (snapshot : DatabaseSnapshot) : ℕ :=
  (snapshotChunks t snapshot).length + 10

/-- When nothing fails, `save` leaves the dump in the file. -/
theorem save_succeeds (filepath : Bytes) (t : TimePoint) (snapshot : DatabaseSnapshot)
    (d : Disk Bytes) :
    (save filepath t snapshot).Succeeds (saveRequests t snapshot) d fun good d' =>
      good = true ∧ d'.files filepath = some (dump t snapshot) := by
  have hcount : saveRequests t snapshot =
      (1 + ((snapshotChunks t snapshot).length + (1 + 1))) + ((1 + (1 + (1 + (1 + 1)))) +
        (1 + (1 + 0))) := by
    unfold saveRequests
    omega
  rw [hcount]
  refine succeeds_bind _ (writeTemporary_succeeds _ _ d) ?_
  rintro written d₁ ⟨hwritten, h₁⟩
  simp only [hwritten, Bool.not_true, Bool.false_eq_true, if_false]
  refine succeeds_bind _ (appendCrc32_succeeds _ h₁) ?_
  rintro checked d₂ ⟨hchecked, h₂⟩
  simp only [hchecked, Bool.not_true, Bool.false_eq_true, if_false]
  exact replaceFile_succeeds filepath h₂

/-- A file left by a run of `save` in which nothing failed. -/
def WrittenBySave (t : TimePoint) (snapshot : DatabaseSnapshot) (file : Option Bytes) : Prop :=
  ∃ (filepath : Bytes) (d d' : Disk Bytes) (outcomes rest : List Outcome),
    (∀ o ∈ outcomes, o.ok = true) ∧
    (save filepath t snapshot).run outcomes d = (some (true, rest), d') ∧
    d'.files filepath = file

/-- The file left by such a run is the dump. -/
theorem WrittenBySave.eq_dump {t : TimePoint} {snapshot : DatabaseSnapshot} {file : Option Bytes}
    (h : WrittenBySave t snapshot file) : file = some (dump t snapshot) := by
  obtain ⟨filepath, d, d', outcomes, rest, hok, hrun, hfile⟩ := h
  have hpost := (save_succeeds filepath t snapshot d).of_run hok hrun
  exact hfile.symm.trans hpost.2

/-- There is such a run. -/
theorem writtenBySave_dump (t : TimePoint) (snapshot : DatabaseSnapshot) :
    WrittenBySave t snapshot (some (dump t snapshot)) := by
  have hok : ∀ o ∈ List.replicate (saveRequests t snapshot) (Outcome.mk true 0), o.ok = true :=
    fun o ho => by rw [List.eq_of_mem_replicate ho]
  obtain ⟨good, d', hrun, rfl, hfile⟩ := save_succeeds [] t snapshot ⟨fun _ => none, fun _ => []⟩
    _ (List.length_replicate).ge hok
  exact ⟨[], _, d', _, _, hok, hrun, hfile⟩

end MyRedis.Persistence
