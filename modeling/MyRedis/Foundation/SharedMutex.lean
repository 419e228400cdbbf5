import Mathlib.Data.Finset.Basic

/-!
# A shared mutex

A mutex that one thread can lock exclusively or several threads can share.  `SharedMutex.HeldAs`
relates its state with what the threads believe about themselves, and locking and unlocking keep
the two in step.
-/

namespace Foundation

/-- A shared mutex: the thread that has locked it exclusively, and those that share it. -/
@[ext] structure SharedMutex (ι : Type) where
  /-- The exclusive owner. -/
  writer : Option ι
  /-- The shared owners. -/
  readers : Finset ι

namespace SharedMutex

variable {ι : Type}

/-- Nobody holds the mutex. -/
def free : SharedMutex ι := ⟨none, ∅⟩

/-- Lock the mutex exclusively. -/
def lock (mutex : SharedMutex ι) (i : ι) : SharedMutex ι := { mutex with writer := some i }

/-- Lock the mutex shared. -/
def lockShared [DecidableEq ι] (mutex : SharedMutex ι) (i : ι) : SharedMutex ι :=
  { mutex with readers := insert i mutex.readers }

/-- Give the mutex back. -/
def unlock [DecidableEq ι] (mutex : SharedMutex ι) (i : ι) (exclusive : Bool) : SharedMutex ι :=
  if exclusive then { mutex with writer := none }
  else { mutex with readers := mutex.readers.erase i }

/-- The mutex is held as the threads believe: `some true` is exclusive, `some false` shared. -/
structure HeldAs (mutex : SharedMutex ι) (mode : ι → Option Bool) : Prop where
  /-- The exclusive owner. -/
  writer : ∀ i, mutex.writer = some i ↔ mode i = some true
  /-- The shared owners. -/
  readers : ∀ i, i ∈ mutex.readers ↔ mode i = some false
  /-- An exclusive owner is alone. -/
  alone : mutex.writer ≠ none → mutex.readers = ∅

theorem heldAs_free : (free : SharedMutex ι).HeldAs fun _ => none where
  writer _ := by simp [free]
  readers _ := by simp [free]
  alone h := absurd rfl h

variable {mutex : SharedMutex ι} {mode : ι → Option Bool} {i : ι}

/-- A thread that holds the mutex shared is not beside a writer. -/
theorem HeldAs.writer_eq_none (h : mutex.HeldAs mode) (hi : mode i = some false) :
    mutex.writer = none := by
  by_contra hne
  have hmem := (h.readers i).mpr hi
  rw [h.alone hne] at hmem
  exact Finset.notMem_empty i hmem

/-- A thread that holds the mutex exclusively is the only one that holds it. -/
theorem HeldAs.eq_of_exclusive (h : mutex.HeldAs mode) (hi : mode i = some true) {j : ι}
    (hj : mode j ≠ none) : j = i := by
  have hwriter : mutex.writer = some i := (h.writer i).mpr hi
  cases hmode : mode j with
  | none => exact absurd hmode hj
  | some exclusive =>
    cases exclusive with
    | true =>
      have hwriter' := (h.writer j).mpr hmode
      rw [hwriter] at hwriter'
      exact (Option.some.inj hwriter').symm
    | false =>
      have hnone := h.writer_eq_none hmode
      rw [hwriter] at hnone
      cases hnone

variable [DecidableEq ι]

theorem HeldAs.lock (h : mutex.HeldAs mode) (hwriter : mutex.writer = none)
    (hreaders : mutex.readers = ∅) :
    (mutex.lock i).HeldAs (Function.update mode i (some true)) where
  writer j := by
    by_cases hj : j = i
    · simp [SharedMutex.lock, hj]
    · have hnone := h.writer j
      rw [hwriter] at hnone
      rw [Function.update_of_ne hj, ← hnone]
      simp [SharedMutex.lock, Ne.symm hj]
  readers j := by
    by_cases hj : j = i
    · simp [SharedMutex.lock, hj, hreaders]
    · rw [Function.update_of_ne hj]
      exact h.readers j
  alone _ := hreaders

theorem HeldAs.lockShared (h : mutex.HeldAs mode) (hwriter : mutex.writer = none) :
    (mutex.lockShared i).HeldAs (Function.update mode i (some false)) where
  writer j := by
    by_cases hj : j = i
    · simp [SharedMutex.lockShared, hj, hwriter]
    · rw [Function.update_of_ne hj]
      exact h.writer j
  readers j := by
    by_cases hj : j = i
    · simp [SharedMutex.lockShared, hj]
    · rw [Function.update_of_ne hj, ← h.readers j]
      simp [SharedMutex.lockShared, hj]
  alone hne := absurd hwriter hne

theorem HeldAs.unlock (h : mutex.HeldAs mode) {exclusive : Bool} (hi : mode i = some exclusive) :
    (mutex.unlock i exclusive).HeldAs (Function.update mode i none) := by
  cases exclusive with
  | true =>
    have hreaders : mutex.readers = ∅ := by
      refine h.alone ?_
      rw [(h.writer i).mpr hi]
      simp
    have hothers : ∀ j, j ≠ i → mode j = none := fun j hj =>
      by_contra fun hne => hj (h.eq_of_exclusive hi hne)
    refine ⟨fun j => ?_, fun j => ?_, fun hne => absurd rfl hne⟩
    · by_cases hj : j = i
      · simp [SharedMutex.unlock, hj]
      · simp [SharedMutex.unlock, Function.update_of_ne hj, hothers j hj]
    · by_cases hj : j = i
      · simp [SharedMutex.unlock, hj, hreaders]
      · simp [SharedMutex.unlock, Function.update_of_ne hj, hothers j hj, hreaders]
  | false =>
    have hwriter : mutex.writer = none := h.writer_eq_none hi
    refine ⟨fun j => ?_, fun j => ?_, fun hne => absurd hwriter hne⟩
    · by_cases hj : j = i
      · simp [SharedMutex.unlock, hj, hwriter]
      · rw [Function.update_of_ne hj]
        exact h.writer j
    · by_cases hj : j = i
      · simp [SharedMutex.unlock, hj]
      · rw [Function.update_of_ne hj, ← h.readers j]
        simp [SharedMutex.unlock, hj]

end SharedMutex

end Foundation
