import MyRedis.Persistence.Checksum
import MyRedis.Persistence.Format
import MyRedis.Persistence.Saving

/-!
# Loading damaged files

Two kinds of damage.  A file that was cut off is either refused or gives the database that the whole
file gives (`load_truncated`): the readers of `load` look at no byte behind the last entry, so what
they read from the front part they also read from the whole.  The checksum plays no part in this.

A file in which some bytes were changed is refused if the changes lie within four consecutive bytes
in front of the checksum, or within the checksum (`load_refuses_corruption`).  This is the strength
of the checksum, whose table-driven step is the one of `Foundation.crcByte` (`toBitVec_crc32Byte`).
-/

namespace MyRedis.Persistence

open Foundation

/-! ### Files that were cut off -/

/-- A front part of a file that `save` wrote is refused and leaves the database unchanged, or it is
loaded exactly as the whole file. -/
theorem load_truncated (deadline : Int64 → TimePoint) {t : TimePoint} {snapshot : DatabaseSnapshot}
    {file part : Bytes} (hfile : WrittenBySave t snapshot (some file)) (hpart : part <+: file)
    (db : Database) :
    loadWith deadline (some part) db = (false, db) ∨
      loadWith deadline (some part) db = loadWith deadline (some file) db := by
  cases haccepted : (loadWith deadline (some part) db).1 with
  | false => exact Or.inl (loadWith_eq_false haccepted)
  | true =>
    right
    obtain ⟨hsize, _, entries, rest, hlen, hcontent, hdb⟩ :=
      loadWith_eq_true_iff.mp (Prod.ext haccepted rfl)
    obtain ⟨more, rfl⟩ := hpart
    have hdump : part ++ more = dump t snapshot := Option.some.inj hfile.eq_dump
    have hwhole : loadWith deadline (some (part ++ more)) db =
        (true, entries.foldl (FileEntry.add deadline) Database.empty) := by
      refine loadWith_eq_true_iff.mpr
        ⟨?_, ⟨dumpBody t snapshot, hdump⟩, entries, rest ++ more, hlen, ?_, rfl⟩
      · rw [List.length_append]
        exact hsize.trans (Nat.le_add_right _ _)
      · rw [hcontent, List.append_assoc]
    rw [hwhole, ← hdb]
    exact Prod.ext haccepted rfl

/-- A dump with one key that has lost its last byte. -/
theorem load_truncated_last_byte :
    let saved := ((DbOp.set (ascii "k") (ascii "v")).run (fun _ => 0) Database.empty).2
    let file := dump 0 saved
    loadWith (exactDeadline 1) (some file.dropLast) Database.empty = (false, Database.empty) ∨
      loadWith (exactDeadline 1) (some file.dropLast) Database.empty =
        loadWith (exactDeadline 1) (some file) Database.empty := by
  intro saved file
  exact load_truncated (exactDeadline 1) (writtenBySave_dump 0 saved) (List.dropLast_prefix file) _

/-! ### The strength of the checksum -/

/-- Byte strings that differ only inside four consecutive bytes have different checksums. -/
theorem checksum_window (front back : Bytes) {window window' : Bytes}
    (hlen : window.length = window'.length) (hfour : window.length ≤ 4)
    (h : checksum (front ++ window ++ back) = checksum (front ++ window' ++ back)) :
    window = window' := by
  unfold checksum at h
  have hregister := congrArg UInt32.toBitVec ((UInt32.xor_left_inj _).mp h)
  rw [toBitVec_foldl_crc32Byte, toBitVec_foldl_crc32Byte] at hregister
  simp only [List.map_append] at hregister
  have hmap := foldl_crcByte_window (by decide) _ _ (by rw [List.length_map, List.length_map, hlen])
    (by rw [List.length_map]; omega) _ hregister
  exact List.map_injective_iff.mpr (fun a b hab => UInt8.toBitVec_inj.mp hab) hmap

/-! ### Files in which bytes were changed -/

/-- All positions at which two byte strings differ are among the `n` positions from `i` on. -/
def DiffersWithin (i n : ℕ) (content content' : Bytes) : Prop :=
  ∀ j, content[j]? ≠ content'[j]? → i ≤ j ∧ j < i + n

namespace DiffersWithin

variable {i n : ℕ} {content content' : Bytes}

/-- In front of the window nothing is changed. -/
theorem take_eq (h : DiffersWithin i n content content') : content.take i = content'.take i := by
  apply List.ext_getElem?
  intro j
  rw [List.getElem?_take, List.getElem?_take]
  split
  · rename_i hj
    by_contra hne
    exact absurd (h j hne).1 (not_le.mpr hj)
  · rfl

/-- Behind the window nothing is changed. -/
theorem drop_eq (h : DiffersWithin i n content content') :
    content.drop (i + n) = content'.drop (i + n) := by
  apply List.ext_getElem?
  intro j
  rw [List.getElem?_drop, List.getElem?_drop]
  by_contra hne
  exact absurd (h _ hne).2 (not_lt.mpr (Nat.le_add_right _ _))

end DiffersWithin

/-- A byte string is what stands in front of a window, in the window and behind it. -/
theorem take_append_window_append_drop (i n : ℕ) (content : Bytes) :
    content.take i ++ (content.drop i).take n ++ content.drop (i + n) = content := by
  rw [List.append_assoc, ← List.drop_drop, List.take_append_drop, List.take_append_drop]

/-- Data that differ within four consecutive bytes have different checksums. -/
theorem eq_of_differsWithin_of_checksum {i : ℕ} {data data' : Bytes}
    (hlen : data.length = data'.length) (hdiffers : DiffersWithin i 4 data data')
    (hchecksum : checksum data = checksum data') : data = data' := by
  rw [← take_append_window_append_drop i 4 data, ← take_append_window_append_drop i 4 data',
    ← hdiffers.take_eq, ← hdiffers.drop_eq] at hchecksum ⊢
  have hwindow : ((data.drop i).take 4).length = ((data'.drop i).take 4).length := by
    rw [List.length_take, List.length_take, List.length_drop, List.length_drop, hlen]
  rw [checksum_window _ _ hwindow (by rw [List.length_take]; exact Nat.min_le_left _ _) hchecksum]

/-- A file that is accepted is refused after a change within four consecutive bytes in front of the
checksum, or within the checksum. -/
theorem load_refuses_corruption (deadline : Int64 → TimePoint) {content content' : Bytes}
    {db₀ : Database} (haccepted : (loadWith deadline (some content) db₀).1 = true)
    (hlen : content'.length = content.length) (hne : content' ≠ content)
    (hwhere : (∃ i, i + 4 ≤ content.length - 4 ∧ DiffersWithin i 4 content content') ∨
      DiffersWithin (content.length - 4) 4 content content') (db : Database) :
    loadWith deadline (some content') db = (false, db) := by
  obtain ⟨hsize, hchecked, _⟩ := loadWith_accepts_iff.mp haccepted
  refine loadWith_eq_false (Bool.eq_false_of_not_eq_true fun haccepted' => hne ?_)
  obtain ⟨_, hchecked', _⟩ := loadWith_accepts_iff.mp haccepted'
  rw [checked_iff (by omega)] at hchecked hchecked'
  rw [hlen] at hchecked'
  -- it is enough that the data are the same, or that the stored checksums are
  have hdata : content.take (content.length - 4) = content'.take (content.length - 4) := by
    obtain ⟨i, hi, hdiffers⟩ | hdiffers := hwhere
    · have hstored : content.drop (content.length - 4) = content'.drop (content.length - 4) := by
        rw [← Nat.add_sub_cancel' hi, ← List.drop_drop, hdiffers.drop_eq, List.drop_drop]
      rw [hchecked, hchecked'] at hstored
      refine eq_of_differsWithin_of_checksum (i := i) ?_ ?_ (writeUint32_injective hstored)
      · rw [List.length_take, List.length_take, hlen]
      · intro j hj
        rw [List.getElem?_take, List.getElem?_take] at hj
        split at hj
        · exact hdiffers j hj
        · exact absurd rfl hj
    · exact hdiffers.take_eq
  rw [← List.take_append_drop (content.length - 4) content', hchecked', ← hdata, ← hchecked,
    List.take_append_drop]

/-- The empty dump with another count in its header. -/
theorem load_refuses_corruption_of_count :
    let file := dump 0 Database.empty
    (load 0 (some file) Database.empty).1 = true ∧ file.set 12 1 ≠ file ∧
      load 0 (some (file.set 12 1)) Database.empty = (false, Database.empty) := by
  intro file
  have haccepted : (load 0 (some file) Database.empty).1 = true := by decide +kernel
  have hne : file.set 12 1 ≠ file := by decide +kernel
  have hlong : 9 + 4 ≤ file.length - 4 := by decide +kernel
  have hdiffers : DiffersWithin 9 4 file (file.set 12 1) := by
    intro j hj
    have h12 : 12 = j := by
      by_contra hne
      exact hj (List.getElem?_set_ne hne).symm
    omega
  exact ⟨haccepted, hne, load_refuses_corruption (exactDeadline 0) haccepted List.length_set hne
    (Or.inl ⟨9, hlong, hdiffers⟩) Database.empty⟩

end MyRedis.Persistence
