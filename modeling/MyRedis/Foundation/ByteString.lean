import Mathlib.Data.List.TakeWhile
import Mathlib.Data.Nat.Digits.Lemmas
import Mathlib.Tactic

/-!
# Byte strings and decimal text

A C++ `std::string` is a sequence of arbitrary bytes, here a list of `UInt8`.  This file gives the
few operations of the C and C++ standard libraries that text handling rests on: the character
classes of the "C" locale, decimal formatting (`std::to_string`, `operator<<` on integers) and
decimal reading (`std::stoi`, `std::stoll`).

The reading functions are partial: `none` stands for either exception that the C++ functions throw
(`std::invalid_argument` when there is no digit, `std::out_of_range` when the value does not fit).
Formatting is inverted by reading: `strtol_decimal`, `stoi_decimal`.
-/

namespace Foundation

/-- A byte string. -/
abbrev Bytes := List UInt8

/-- The bytes of an ASCII literal. -/
def ascii (s : String) : Bytes :=
  s.toList.map fun c => UInt8.ofNat c.toNat

/-- The bytes of a literal, character by character.  Rewriting with this unfolds a literal, which
is much cheaper than evaluating `String.toList` on it. -/
theorem ascii_ofList (cs : List Char) :
    ascii (String.ofList cs) = cs.map fun c => UInt8.ofNat c.toNat := by
  rw [ascii, String.toList_ofList]

/-- Carriage return. -/
def CR : UInt8 := 13

/-- Line feed. -/
def LF : UInt8 := 10

/-- The line terminator `\r\n`. -/
def CRLF : Bytes := [CR, LF]

/-! ### Character classes -/

/-- `std::isspace` in the "C" locale: space, `\t`, `\n`, `\v`, `\f` and `\r`. -/
def isSpace (c : UInt8) : Bool :=
  c == 32 || (9 ≤ c && c ≤ 13)

/-- A decimal digit. -/
def isDigit (c : UInt8) : Bool :=
  48 ≤ c && c ≤ 57

/-- `std::toupper` in the "C" locale. -/
def toUpper (c : UInt8) : UInt8 :=
  if 97 ≤ c && c ≤ 122 then c - 32 else c

/-- Upper-casing keeps carriage returns and line feeds and creates none. -/
theorem toUpper_eq_iff {c d : UInt8} (hd : d < 65) : toUpper c = d ↔ c = d := by
  revert hd
  unfold toUpper
  split
  · rename_i h
    simp only [Bool.and_eq_true, decide_eq_true_eq] at h
    obtain ⟨h₁, h₂⟩ := h
    rw [UInt8.le_iff_toNat_le] at h₁ h₂
    intro hd
    rw [UInt8.lt_iff_toNat_lt] at hd
    constructor <;> intro he
    · exfalso
      rw [← he, UInt8.toNat_sub] at hd
      simp at hd h₁ h₂
      omega
    · exfalso
      rw [he] at h₁
      simp at hd h₁
      omega
  · intro _
    rfl

/-! ### Decimal text -/

/-- The decimal digits of a natural number, most significant first. -/
def decimal (n : ℕ) : Bytes :=
  if n = 0 then [48] else (Nat.digits 10 n).reverse.map fun d => UInt8.ofNat (48 + d)

/-- The decimal text of an integer, as `std::to_string` writes it. -/
def decimalInt (n : ℤ) : Bytes :=
  if n < 0 then 45 :: decimal n.natAbs else decimal n.natAbs

/-- The value of a string of decimal digits. -/
def digitsValue (ds : Bytes) : ℕ :=
  ds.foldl (fun n d => 10 * n + (d.toNat - 48)) 0

/-- An optional sign in front of a number: whether it is a minus, and the text after it. -/
def readSign : Bytes → Bool × Bytes
  | 45 :: s => (true, s)
  | 43 :: s => (false, s)
  | s => (false, s)

/-- The integer that `strtol` reads from the front of a text in base ten: leading white space, an
optional sign, and the longest run of digits.  There is no value when the run is empty. -/
def strtol (s : Bytes) : Option ℤ :=
  let body := readSign (s.dropWhile isSpace)
  let ds := body.2.takeWhile isDigit
  if ds = [] then none
  else some (if body.1 then -(digitsValue ds : ℤ) else digitsValue ds)

/-- `std::stoi`, with `none` for an exception. -/
def stoi (s : Bytes) : Option Int32 :=
  match strtol s with
  | some n => if -2 ^ 31 ≤ n ∧ n < 2 ^ 31 then some (Int32.ofInt n) else none
  | none => none

/-- `std::stoll`, with `none` for an exception. -/
def stoll (s : Bytes) : Option Int64 :=
  match strtol s with
  | some n => if -2 ^ 63 ≤ n ∧ n < 2 ^ 63 then some (Int64.ofInt n) else none
  | none => none

/-- The byte of a digit. -/
private theorem toNat_ofNat_digit {d : ℕ} (hd : d < 10) :
    (UInt8.ofNat (48 + d)).toNat = 48 + d := by
  rw [UInt8.toNat_ofNat']
  omega

/-- The bytes of a nonzero number are the digits of `Nat.digits`, shifted into the digit range. -/
theorem decimal_of_pos {n : ℕ} (hn : n ≠ 0) :
    decimal n = (Nat.digits 10 n).reverse.map fun d => UInt8.ofNat (48 + d) := by
  rw [decimal, if_neg hn]

/-- Decimal text consists of digits. -/
theorem isDigit_of_mem_decimal {n : ℕ} {c : UInt8} (hc : c ∈ decimal n) : isDigit c = true := by
  by_cases hn : n = 0
  · subst hn
    simp only [decimal, if_pos, List.mem_singleton] at hc
    subst hc
    rfl
  · rw [decimal_of_pos hn, List.mem_map] at hc
    obtain ⟨d, hd, rfl⟩ := hc
    have hd10 : d < 10 := Nat.digits_lt_base (by norm_num) (List.mem_reverse.mp hd)
    have hval := toNat_ofNat_digit hd10
    simp only [isDigit, Bool.and_eq_true, decide_eq_true_eq, UInt8.le_iff_toNat_le, hval]
    simp
    omega

/-- Decimal text is never empty. -/
theorem decimal_ne_nil (n : ℕ) : decimal n ≠ [] := by
  by_cases hn : n = 0
  · simp [decimal, hn]
  · rw [decimal_of_pos hn]
    simp [Nat.digits_ne_nil_iff_ne_zero.mpr hn]

/-- The value of a decimal text is the number it was written from. -/
theorem digitsValue_decimal (n : ℕ) : digitsValue (decimal n) = n := by
  by_cases hn : n = 0
  · simp [decimal, digitsValue, hn]
  · rw [decimal_of_pos hn, digitsValue, List.foldl_map, List.foldl_reverse]
    have hfold : ∀ ds : List ℕ, (∀ d ∈ ds, d < 10) →
        ds.foldr (fun d n => 10 * n + ((UInt8.ofNat (48 + d)).toNat - 48)) 0 =
          Nat.ofDigits 10 ds := by
      intro ds hds
      induction ds with
      | nil => rfl
      | cons d ds ih =>
        rw [List.foldr_cons, ih fun e he => hds e (List.mem_cons_of_mem _ he),
          Nat.ofDigits_cons, toNat_ofNat_digit (hds d List.mem_cons_self)]
        simp
        omega
    rw [hfold _ fun d hd => Nat.digits_lt_base (by norm_num) hd, Nat.ofDigits_digits]

/-- Digits are no white space. -/
theorem isSpace_eq_false_of_isDigit {c : UInt8} (hc : isDigit c = true) : isSpace c = false := by
  simp only [isDigit, Bool.and_eq_true, decide_eq_true_eq, UInt8.le_iff_toNat_le] at hc
  simp only [isSpace, Bool.or_eq_false_iff, Bool.and_eq_false_iff, decide_eq_false_iff_not,
    beq_eq_false_iff_ne, ne_eq, ← UInt8.toNat_inj, UInt8.le_iff_toNat_le]
  simp at hc ⊢
  omega

/-- A text that starts with a digit has no sign. -/
theorem readSign_of_isDigit {s : Bytes} {c : UInt8} (h : ∃ ds, s = c :: ds ∧ isDigit c = true) :
    readSign s = (false, s) := by
  obtain ⟨ds, rfl, hc⟩ := h
  unfold readSign
  split
  · rename_i heq
    rw [(List.cons.inj heq).1] at hc
    cases hc
  · rename_i heq
    rw [(List.cons.inj heq).1] at hc
    cases hc
  · rfl

/-- Reading stops after a run of digits: a text that starts with the decimal text of `n` and goes
on with a non-digit (or ends) reads as `n`. -/
theorem strtol_decimal (n : ℕ) (rest : Bytes) (hrest : rest.takeWhile isDigit = []) :
    strtol (decimal n ++ rest) = some (n : ℤ) := by
  obtain ⟨c, cs, hcs⟩ := List.exists_cons_of_ne_nil (decimal_ne_nil n)
  have hc : isDigit c = true := isDigit_of_mem_decimal (n := n) (by simp [hcs])
  have hdrop : (decimal n ++ rest).dropWhile isSpace = decimal n ++ rest := by
    rw [hcs, List.cons_append, List.dropWhile_cons_of_neg]
    simp [isSpace_eq_false_of_isDigit hc]
  have hsign : ∃ ds, decimal n ++ rest = c :: ds ∧ isDigit c = true :=
    ⟨cs ++ rest, by rw [hcs, List.cons_append], hc⟩
  have htake : (decimal n ++ rest).takeWhile isDigit = decimal n := by
    rw [List.takeWhile_append_of_pos fun c hc => isDigit_of_mem_decimal hc, hrest,
      List.append_nil]
  unfold strtol
  simp only [hdrop, readSign_of_isDigit hsign, htake, decimal_ne_nil, if_false,
    Bool.false_eq_true, digitsValue_decimal]

/-- The integer of the decimal text of an integer. -/
theorem strtol_decimalInt (n : ℤ) : strtol (decimalInt n) = some n := by
  unfold decimalInt
  split
  · rename_i hneg
    have htake : (decimal n.natAbs).takeWhile isDigit = decimal n.natAbs := by
      have h : (decimal n.natAbs ++ []).takeWhile isDigit = decimal n.natAbs ++ [] :=
        List.takeWhile_append_of_pos fun c hc => isDigit_of_mem_decimal hc
      rwa [List.append_nil] at h
    have hdrop : (45 :: decimal n.natAbs).dropWhile isSpace = 45 :: decimal n.natAbs :=
      List.dropWhile_cons_of_neg (by decide)
    unfold strtol
    simp only [hdrop, readSign, htake, decimal_ne_nil, if_false, if_true, digitsValue_decimal]
    rw [Int.ofNat_natAbs_of_nonpos hneg.le, neg_neg]
  · rename_i hnonneg
    have h := strtol_decimal n.natAbs [] rfl
    rw [List.append_nil] at h
    rw [h, Int.natAbs_of_nonneg (not_lt.mp hnonneg)]

/-- White space behind a number is not read. -/
theorem strtol_append_space (s : Bytes) {c : UInt8} (hc : isSpace c = true) :
    strtol (s ++ [c]) = strtol s := by
  have hdigit : isDigit c = false := by
    rw [Bool.eq_false_iff]
    intro h
    rw [isSpace_eq_false_of_isDigit h] at hc
    cases hc
  have htake (x : Bytes) : (x ++ [c]).takeWhile isDigit = x.takeWhile isDigit := by
    rw [List.takeWhile_append]
    split
    · rename_i hlength
      simp [hdigit, (List.takeWhile_prefix isDigit).eq_of_length hlength]
    · rfl
  by_cases hall : ∀ d ∈ s, isSpace d = true
  · have hnone : (s ++ [c]).dropWhile isSpace = s.dropWhile isSpace := by
      rw [List.dropWhile_append_of_pos hall, List.dropWhile_eq_nil_iff.mpr hall]
      simp [hc]
    unfold strtol
    rw [hnone]
  · have hne : s.dropWhile isSpace ≠ [] := by
      intro hnil
      exact hall (List.dropWhile_eq_nil_iff.mp hnil)
    have hdrop : (s ++ [c]).dropWhile isSpace = s.dropWhile isSpace ++ [c] := by
      rw [List.dropWhile_append]
      simp [hne]
    obtain ⟨d, x, hx⟩ := List.exists_cons_of_ne_nil hne
    have hsign : readSign (d :: x ++ [c]) =
        ((readSign (d :: x)).1, (readSign (d :: x)).2 ++ [c]) := by
      unfold readSign
      split <;> simp_all
    unfold strtol
    rw [hdrop, hx, hsign]
    simp only [htake]

/-- `std::stoi` reads back every number that fits `int`. -/
theorem stoi_decimal {n : ℕ} (hn : n < 2 ^ 31) : stoi (decimal n) = some (Int32.ofNat n) := by
  have h := strtol_decimal n [] rfl
  rw [List.append_nil] at h
  unfold stoi
  rw [h]
  have hlo : (-2 ^ 31 : ℤ) ≤ (n : ℤ) := by omega
  have hhi : (n : ℤ) < 2 ^ 31 := by omega
  simp only [hlo, hhi, and_self, if_true]
  rfl

/-- `std::stoi` throws on a number that does not fit `int`. -/
theorem stoi_decimal_of_le {n : ℕ} (hn : 2 ^ 31 ≤ n) : stoi (decimal n) = none := by
  have h := strtol_decimal n [] rfl
  rw [List.append_nil] at h
  unfold stoi
  rw [h]
  have hhi : ¬ (n : ℤ) < 2 ^ 31 := by omega
  simp only [hhi, and_false, if_false]

/-- Decimal texts contain no byte outside the digit range. -/
theorem notMem_decimal {n : ℕ} {c : UInt8} (hc : isDigit c = false) : c ∉ decimal n := by
  intro hmem
  rw [isDigit_of_mem_decimal hmem] at hc
  cases hc

/-- The text of an integer consists of digits and perhaps a sign. -/
theorem eq_or_isDigit_of_mem_decimalInt {n : ℤ} {c : UInt8} (h : c ∈ decimalInt n) :
    c = 45 ∨ isDigit c = true := by
  unfold decimalInt at h
  split at h
  · exact (List.mem_cons.mp h).imp_right isDigit_of_mem_decimal
  · exact Or.inr (isDigit_of_mem_decimal h)

/-- Different numbers have different decimal texts. -/
theorem decimal_injective : Function.Injective decimal := by
  intro m n h
  rw [← digitsValue_decimal m, h, digitsValue_decimal]

end Foundation
