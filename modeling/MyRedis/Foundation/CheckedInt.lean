import Mathlib.Tactic

/-!
# Arithmetic without overflow

In C++ the overflow of a signed sum is undefined.  An expression whose sums are formed by `exactInt`
has a value only if none of them leaves the range of `int`, and then every sum is exact.
-/

namespace Foundation

/-- An integer as an `int`, if it fits. -/
def exactInt (n : ℤ) : Option Int32 :=
  if -2 ^ 31 ≤ n ∧ n < 2 ^ 31 then some (Int32.ofInt n) else none

/-- The `int` is the integer. -/
theorem exactInt_eq_some_iff {n : ℤ} {a : Int32} : exactInt n = some a ↔ a.toInt = n := by
  unfold exactInt
  constructor
  · intro h
    split at h
    · rename_i hrange
      rw [← Option.some.inj h, Int32.toInt_ofInt_of_le (by exact hrange.1) (by exact hrange.2)]
    · cases h
  · intro h
    have hge := a.le_toInt
    have hlt := a.toInt_lt
    rw [if_pos (by omega), ← h, Int32.ofInt_toInt]

/-- A sum that fits is the sum of the machine. -/
theorem exactInt_add {a b : Int32} (hge : -2 ^ 31 ≤ a.toInt + b.toInt)
    (hlt : a.toInt + b.toInt < 2 ^ 31) : exactInt (a.toInt + b.toInt) = some (a + b) := by
  rw [exactInt_eq_some_iff, Int32.toInt_add]
  exact Int.bmod_eq_of_le (by omega) (by omega)

/-- A difference that fits is the difference of the machine. -/
theorem exactInt_sub {a b : Int32} (hge : -2 ^ 31 ≤ a.toInt - b.toInt)
    (hlt : a.toInt - b.toInt < 2 ^ 31) : exactInt (a.toInt - b.toInt) = some (a - b) := by
  rw [exactInt_eq_some_iff, Int32.toInt_sub]
  exact Int.bmod_eq_of_le (by omega) (by omega)

end Foundation
