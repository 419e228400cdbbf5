import Mathlib.Data.List.TakeDrop
import Mathlib.Data.List.TakeWhile

/-!
# Texts that are read by index

A program that reads a text through positions may read beside it.  Here every access says whether it
is allowed: `charAt` and `substr` are defined inside of the text only, and sums and differences of
positions only as long as they do not leave the range of an unsigned number.  A program made of
these operations has a result if and only if it makes no access of the other kind.

`scan` is the loop that goes on over a text as long as a condition holds.  `scan_eq` says that it is
safe, that it ends, and which part of the text it takes.
-/

namespace Foundation

variable {α : Type*}

/-! ### Accesses -/

/-- The symbol at a position. -/
def charAt (text : List α) (i : ℕ) : Option α := text[i]?

/-- The part of length `n` from the position `pos` on. -/
def substr (text : List α) (pos n : ℕ) : Option (List α) :=
  if pos + n ≤ text.length then some ((text.drop pos).take n) else none

/-- All that follows from the position `pos` on. -/
def substrFrom (text : List α) (pos : ℕ) : Option (List α) :=
  if pos ≤ text.length then some (text.drop pos) else none

/-- A sum that must not exceed a limit. -/
def sumUpTo (limit a b : ℕ) : Option ℕ := if a + b ≤ limit then some (a + b) else none

/-- A difference that must not go below zero. -/
def difference (a b : ℕ) : Option ℕ := if b ≤ a then some (a - b) else none

/-- An access inside of the text. -/
theorem charAt_eq_some {text : List α} {i : ℕ} (h : i < text.length) :
    charAt text i = some (text.get ⟨i, h⟩) :=
  List.getElem?_eq_getElem h

/-- A part inside of the text. -/
theorem substr_eq_some {text : List α} {pos n : ℕ} (h : pos + n ≤ text.length) :
    substr text pos n = some ((text.drop pos).take n) := if_pos h

/-- A rest of the text. -/
theorem substrFrom_eq_some {text : List α} {pos : ℕ} (h : pos ≤ text.length) :
    substrFrom text pos = some (text.drop pos) := if_pos h

/-- A sum within the limit. -/
theorem sumUpTo_eq_some {limit a b : ℕ} (h : a + b ≤ limit) : sumUpTo limit a b = some (a + b) :=
  if_pos h

/-- A difference that exists. -/
theorem difference_eq_some {a b : ℕ} (h : b ≤ a) : difference a b = some (a - b) := if_pos h

/-- The text from a position on starts with the symbol at this position. -/
theorem drop_eq_of_charAt {text : List α} {i : ℕ} {c : α} (h : charAt text i = some c) :
    text.drop i = c :: text.drop (i + 1) := by
  obtain ⟨hi, rfl⟩ := List.getElem?_eq_some_iff.mp h
  exact List.drop_eq_getElem_cons hi

/-- A position from which something follows. -/
theorem charAt_of_drop_eq {text rest : List α} {i : ℕ} {c : α} (h : text.drop i = c :: rest) :
    i < text.length ∧ charAt text i = some c ∧ text.drop (i + 1) = rest := by
  have hi : i < text.length := by
    by_contra hle
    rw [List.drop_eq_nil_of_le (not_lt.mp hle)] at h
    cases h
  have hc := charAt_eq_some hi
  rw [drop_eq_of_charAt hc] at h
  obtain ⟨hget, hrest⟩ := List.cons.inj h
  exact ⟨hi, hget ▸ hc, hrest⟩

/-! ### The scanning loop -/

/-- The loop that takes symbols until it meets one with `stop`, or the end of the text.  It returns
what it has taken and the position where it stands.  A loop that is not over has no result. -/
def scan (stop : α → Bool) (text : List α) : ℕ → ℕ → List α → Option (List α × ℕ)
  | 0, _, _ => none
  | fuel + 1, i, taken =>
    if i < text.length then
      (charAt text i).bind fun c =>
        if stop c then some (taken, i) else scan stop text fuel (i + 1) (taken ++ [c])
    else some (taken, i)

/-- The part of a text in front of the first symbol with `stop`. -/
def upTo (stop : α → Bool) (text : List α) : List α := text.takeWhile fun c => !stop c

/-- The loop takes the part up to the first symbol with `stop`. -/
theorem scan_eq {stop : α → Bool} {text : List α} {fuel i : ℕ} (hfuel : text.length - i < fuel)
    (taken : List α) :
    scan stop text fuel i taken =
      some (taken ++ upTo stop (text.drop i), i + (upTo stop (text.drop i)).length) := by
  induction fuel generalizing i taken with
  | zero => exact absurd hfuel (Nat.not_lt_zero _)
  | succ fuel ih =>
    rw [scan]
    by_cases hi : i < text.length
    · have hc := charAt_eq_some hi
      rw [if_pos hi, hc, Option.bind_some, drop_eq_of_charAt hc, upTo, List.takeWhile_cons]
      by_cases hstop : stop (text.get ⟨i, hi⟩) = true
      · rw [if_pos hstop, hstop]
        simp
      · rw [if_neg hstop, ih (by omega), Bool.eq_false_iff.mpr hstop]
        simp [upTo, Nat.add_assoc, Nat.add_comm 1]
    · rw [if_neg hi, List.drop_eq_nil_of_le (not_lt.mp hi)]
      simp [upTo]

/-- What the loop leaves. -/
theorem drop_length_upTo (stop : α → Bool) (text : List α) :
    text.drop (upTo stop text).length = text.dropWhile fun c => !stop c := by
  have hsplit : upTo stop text ++ text.dropWhile (fun c => !stop c) = text :=
    List.takeWhile_append_dropWhile
  calc text.drop (upTo stop text).length
      = (upTo stop text ++ text.dropWhile fun c => !stop c).drop (upTo stop text).length := by
        rw [hsplit]
    _ = text.dropWhile fun c => !stop c := List.drop_left

/-- What the loop leaves, from a position on. -/
theorem drop_add_length_upTo (stop : α → Bool) (text : List α) (i : ℕ) :
    text.drop (i + (upTo stop (text.drop i)).length) =
      (text.drop i).dropWhile fun c => !stop c := by
  rw [← drop_length_upTo, List.drop_drop]

/-- The loop does not go beyond the end. -/
theorem add_length_upTo_le (stop : α → Bool) {text : List α} {i : ℕ} (hi : i ≤ text.length) :
    i + (upTo stop (text.drop i)).length ≤ text.length := by
  have hle := (List.takeWhile_sublist (l := text.drop i) fun c => !stop c).length_le
  rw [List.length_drop] at hle
  rw [upTo]
  omega

end Foundation
