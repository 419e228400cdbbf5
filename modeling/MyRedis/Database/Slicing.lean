import MyRedis.Database.Basic
import MyRedis.Foundation.CheckedInt

/-!
# Positions in lists

`LRANGE` and `LINDEX` compute positions with sums of type `int`, each in its own way.  For lists
whose length is an `int`, none of these sums overflows (`Database.sliceChecked_eq`,
`Database.elementChecked_eq`), and the positions are those that one expects: a negative index counts
from the end, and what lies outside the list is left out (`Database.list_slicing`).
-/

namespace MyRedis

open Foundation

namespace Database

/-! ### The index arithmetic with overflow checks -/

/-- The translation of a negative index. -/
def translateChecked (len index : Int32) : Option Int32 :=
  if index < 0 then exactInt (len.toInt + index.toInt) else some index

/-- The clamping of the last position. -/
def clampChecked (len stop : Int32) : Option Int32 :=
  if stop ≥ len then exactInt (len.toInt - 1) else some stop

/-- An element of the list; the index is not negative and less than the length. -/
def readChecked (list : List Bytes) (i : Int32) : Option Bytes :=
  if i < 0 then none else list[i.toInt.toNat]?

/-- The loop `for (int i = start; i <= stop; ++i)` that copies the elements.  The first argument
bounds the number of rounds. -/
def copyChecked (list : List Bytes) (stop : Int32) : ℕ → Int32 → Option (List Bytes)
  | 0, _ => none
  | fuel + 1, i =>
    if i ≤ stop then do
      let value ← readChecked list i
      let next ← exactInt (i.toInt + 1)
      let later ← copyChecked list stop fuel next
      some (value :: later)
    else some []

/-- `LRANGE` on a list, with a check on every sum and every access. -/
def sliceChecked (list : List Bytes) (start stop : Int32) : Option (List Bytes) := do
  let len := Int32.ofNat list.length
  let start ← translateChecked len start
  let stop ← translateChecked len stop
  let start := if start < 0 then 0 else start
  let stop ← clampChecked len stop
  if start > stop ∨ start ≥ len then some []
  else
    -- the argument of `reserve`
    let size ← exactInt (stop.toInt - start.toInt)
    let _ ← exactInt (size.toInt + 1)
    copyChecked list stop (list.length + 1) start

/-- `LINDEX` on a list, with a check on every sum and every access. -/
def elementChecked (list : List Bytes) (index : Int32) : Option (Option Bytes) := do
  let len := Int32.ofNat list.length
  let index ← translateChecked len index
  if index < 0 ∨ index ≥ len then some none else (readChecked list index).map some

/-- The translation of a negative index without a check. -/
def translated (len index : Int32) : Int32 :=
  if index < 0 then len + index else index

/-- The position that an index means in a list of the given length. -/
def positionOf (len : ℕ) (index : Int32) : ℤ :=
  if index.toInt < 0 then len + index.toInt else index.toInt

/-! ### No check fails -/

section NoOverflow

variable {l : List Bytes} (hl : l.length < 2 ^ 31)
include hl

/-- The translation does not overflow. -/
theorem translateChecked_eq (index : Int32) :
    translateChecked (Int32.ofNat l.length) index =
      some (translated (Int32.ofNat l.length) index) := by
  have hlen : (Int32.ofNat l.length).toInt = l.length := Int32.toInt_ofNat_of_lt hl
  unfold translateChecked translated
  split
  · rename_i hneg
    have hneg' : index.toInt < 0 := Int32.lt_iff_toInt_lt.mp hneg
    have hge := index.le_toInt
    exact exactInt_add (by omega) (by omega)
  · rfl

/-- The translated index, as an integer. -/
theorem toInt_translated (index : Int32) :
    (translated (Int32.ofNat l.length) index).toInt = positionOf l.length index := by
  have hlen : (Int32.ofNat l.length).toInt = l.length := Int32.toInt_ofNat_of_lt hl
  have heq := translateChecked_eq hl index
  unfold translateChecked at heq
  have hzero : (0 : Int32).toInt = 0 := rfl
  by_cases hneg : index < 0
  · rw [if_pos hneg, exactInt_eq_some_iff] at heq
    rw [Int32.lt_iff_toInt_lt, hzero] at hneg
    rw [heq, positionOf, if_pos hneg, hlen]
  · rw [if_neg hneg] at heq
    rw [Int32.lt_iff_toInt_lt, hzero] at hneg
    rw [positionOf, if_neg hneg, ← Option.some.inj heq]

/-- The loop copies the elements from `i` to `stop`. -/
theorem copyChecked_eq {stop : Int32} (hstop : stop.toInt < l.length) {fuel : ℕ} {i : Int32}
    (hi : 0 ≤ i.toInt) (hfuel : (stop.toInt + 1 - i.toInt).toNat < fuel) :
    copyChecked l stop fuel i =
      some ((l.drop i.toInt.toNat).take (stop.toInt - i.toInt + 1).toNat) := by
  induction fuel generalizing i with
  | zero => exact absurd hfuel (Nat.not_lt_zero _)
  | succ fuel ih =>
    rw [copyChecked]
    by_cases hle : i ≤ stop
    · rw [if_pos hle]
      rw [Int32.le_iff_toInt_le] at hle
      have hindex : i.toInt.toNat < l.length := by omega
      have hread : readChecked l i = some l[i.toInt.toNat] := by
        rw [readChecked, if_neg, List.getElem?_eq_getElem hindex]
        rw [Int32.lt_iff_toInt_lt]
        exact not_lt.mpr hi
      obtain ⟨next, hnext⟩ : ∃ next, exactInt (i.toInt + 1) = some next :=
        ⟨_, exactInt_add (b := 1) (by simp; omega) (by simp; omega)⟩
      have hvalue : next.toInt = i.toInt + 1 := exactInt_eq_some_iff.mp hnext
      have hlater := ih (i := next) (by omega) (by omega)
      have hcount : (stop.toInt - i.toInt + 1).toNat = (stop.toInt - next.toInt + 1).toNat + 1 := by
        omega
      have hdrop : next.toInt.toNat = i.toInt.toNat + 1 := by omega
      rw [hread, hnext, List.drop_eq_getElem_cons hindex, hcount, List.take_succ_cons, ← hdrop]
      simp only [Option.bind_eq_bind, Option.bind_some, hlater]
    · rw [if_neg hle]
      rw [Int32.le_iff_toInt_le] at hle
      have hcount : (stop.toInt - i.toInt + 1).toNat = 0 := by omega
      rw [hcount, List.take_zero]

omit hl in
/-- The end is clamped without an overflow, to the last index. -/
theorem clampChecked_eq {len : Int32} (hlen : 0 ≤ len.toInt) (stop : Int32) :
    ∃ e : Int32, clampChecked len stop = some e ∧ e = (if stop ≥ len then len - 1 else stop) ∧
      e.toInt = min (len.toInt - 1) stop.toInt := by
  have hone : (1 : Int32).toInt = 1 := rfl
  have hlt := len.toInt_lt
  have hsub := exactInt_sub (a := len) (b := 1) (by rw [hone]; omega) (by rw [hone]; omega)
  rw [hone] at hsub
  refine ⟨_, ?_, rfl, ?_⟩
  · unfold clampChecked
    split
    · exact hsub
    · rfl
  · split
    · rename_i h
      rw [ge_iff_le, Int32.le_iff_toInt_le] at h
      rw [exactInt_eq_some_iff.mp hsub]
      omega
    · rename_i h
      rw [ge_iff_le, Int32.le_iff_toInt_le] at h
      omega

omit hl in
/-- The start is clamped to the first index. -/
theorem toInt_clampStart (s : Int32) :
    (if s < 0 then (0 : Int32) else s).toInt = max 0 s.toInt := by
  have hzero : (0 : Int32).toInt = 0 := rfl
  split <;> rename_i h <;> rw [Int32.lt_iff_toInt_lt, hzero] at h <;> omega

/-- No sum of `LRANGE` overflows, and no access is outside of the list. -/
theorem sliceChecked_eq (start stop : Int32) :
    sliceChecked l start stop = some (slice l start stop) := by
  have hlen : (Int32.ofNat l.length).toInt = l.length := Int32.toInt_ofNat_of_lt hl
  have hone : (1 : Int32).toInt = 1 := rfl
  unfold sliceChecked slice
  simp only [translateChecked_eq hl, Option.bind_eq_bind, Option.bind_some]
  rw [← translated, ← translated]
  generalize translated (Int32.ofNat l.length) start = s
  have hnonneg : 0 ≤ (Int32.ofNat l.length).toInt := by omega
  obtain ⟨e, hclamp, he, hlast⟩ := clampChecked_eq hnonneg
    (translated (Int32.ofNat l.length) stop)
  rw [hclamp, ← he, Option.bind_some]
  have hfirst : 0 ≤ (if s < 0 then (0 : Int32) else s).toInt := by
    rw [toInt_clampStart]
    exact le_max_left _ _
  generalize (if s < 0 then (0 : Int32) else s) = s' at hfirst ⊢
  split
  · rfl
  · rename_i hnonempty
    rw [gt_iff_lt, ge_iff_le, Int32.lt_iff_toInt_lt, Int32.le_iff_toInt_le] at hnonempty
    have hsize := exactInt_sub (a := e) (b := s') (by omega) (by omega)
    have hsizeInt := exactInt_eq_some_iff.mp hsize
    have hreserve := exactInt_add (a := e - s') (b := 1) (by rw [hone]; omega)
      (by rw [hone]; omega)
    rw [hone] at hreserve
    rw [hsize, Option.bind_some, hreserve, Option.bind_some]
    exact copyChecked_eq hl (by omega) hfirst (by omega)

/-- No sum of `LINDEX` overflows, and no access is outside of the list. -/
theorem elementChecked_eq (index : Int32) :
    elementChecked l index = some (element l index) := by
  have hlen : (Int32.ofNat l.length).toInt = l.length := Int32.toInt_ofNat_of_lt hl
  unfold elementChecked element
  simp only [translateChecked_eq hl, Option.bind_eq_bind, Option.bind_some]
  rw [← translated]
  generalize translated (Int32.ofNat l.length) index = p
  split
  · rfl
  · rename_i hinside
    rw [not_or, ge_iff_le, Int32.le_iff_toInt_le, Int32.lt_iff_toInt_lt] at hinside
    have hzero : (0 : Int32).toInt = 0 := rfl
    have hindex : p.toInt.toNat < l.length := by omega
    rw [readChecked, if_neg (by rw [Int32.lt_iff_toInt_lt]; exact hinside.1),
      List.getElem?_eq_getElem hindex]
    rfl

end NoOverflow

/-! ### The positions -/

/-- The elements at the positions from `a` to `b` that there are, in order. -/
def elementsBetween (l : List Bytes) (a b : ℤ) : List Bytes :=
  (l.zipIdx.filter fun e =>
    decide (max 0 a ≤ e.2 ∧ (e.2 : ℤ) ≤ min ((l.length : ℤ) - 1) b)).map Prod.fst

/-- The element at a position, if there is one. -/
def elementAtPosition (l : List Bytes) (p : ℤ) : Option Bytes :=
  if 0 ≤ p ∧ p ≤ l.length - 1 then l[p.toNat]? else none

/-- Selecting the positions between two bounds is dropping and taking. -/
theorem map_fst_filter_zipIdx {α : Type} (l : List α) (a b n : ℕ) :
    ((l.zipIdx n).filter fun e => decide (a ≤ e.2 ∧ e.2 < b)).map Prod.fst =
      (l.take (b - n)).drop (a - n) := by
  induction l generalizing n with
  | nil => simp
  | cons x l ih =>
    rw [List.zipIdx_cons, List.filter_cons]
    by_cases hb : n < b
    · obtain ⟨k, hk⟩ : ∃ k, b - n = k + 1 := ⟨b - n - 1, by omega⟩
      have hk' : b - (n + 1) = k := by omega
      rw [hk, List.take_succ_cons]
      by_cases ha : a ≤ n
      · have h0 : a - n = 0 := by omega
        have h0' : a - (n + 1) = 0 := by omega
        rw [if_pos (by simp [ha, hb]), List.map_cons, ih, h0, h0', hk', List.drop_zero,
          List.drop_zero]
      · obtain ⟨j, hj⟩ : ∃ j, a - n = j + 1 := ⟨a - n - 1, by omega⟩
        have hj' : a - (n + 1) = j := by omega
        rw [if_neg (by simp [ha]), ih, hj, hj', hk', List.drop_succ_cons]
    · have h0 : b - n = 0 := by omega
      have h0' : b - (n + 1) = 0 := by omega
      rw [if_neg (by simp [hb]), ih, h0, h0']
      simp

/-- The elements between a position and itself. -/
theorem head?_elementsBetween_self (l : List Bytes) (p : ℤ) :
    (elementsBetween l p p).head? = elementAtPosition l p := by
  unfold elementsBetween elementAtPosition
  by_cases hp : 0 ≤ p ∧ p ≤ l.length - 1
  · have hfilter : (fun e : Bytes × ℕ =>
        decide (max 0 p ≤ e.2 ∧ (e.2 : ℤ) ≤ min ((l.length : ℤ) - 1) p)) =
        fun e => decide (p.toNat ≤ e.2 ∧ e.2 < p.toNat + 1) := by
      funext e
      rw [decide_eq_decide]
      omega
    rw [hfilter, map_fst_filter_zipIdx, if_pos hp, Nat.sub_zero, Nat.sub_zero, List.drop_take,
      Nat.add_sub_cancel_left, List.head?_take, if_neg one_ne_zero, List.head?_drop]
  · have hnone : (l.zipIdx.filter fun e =>
        decide (max 0 p ≤ e.2 ∧ (e.2 : ℤ) ≤ min ((l.length : ℤ) - 1) p)) = [] := by
      refine List.filter_eq_nil_iff.mpr fun e _ => ?_
      rw [decide_eq_true_eq]
      omega
    rw [hnone, if_neg hp]
    rfl

/-- `LINDEX` in terms of the translated index. -/
theorem element_eq_ite (l : List Bytes) (index : Int32) :
    element l index =
      if 0 ≤ (translated (Int32.ofNat l.length) index).toInt ∧
          (translated (Int32.ofNat l.length) index).toInt < (Int32.ofNat l.length).toInt then
        l[(translated (Int32.ofNat l.length) index).toInt.toNat]?
      else none := by
  unfold element
  simp only
  rw [← translated]
  generalize translated (Int32.ofNat l.length) index = p
  have hzero : (0 : Int32).toInt = 0 := rfl
  have hcond : (p < 0 ∨ p ≥ Int32.ofNat l.length) ↔
      ¬(0 ≤ p.toInt ∧ p.toInt < (Int32.ofNat l.length).toInt) := by
    rw [Int32.lt_iff_toInt_lt, ge_iff_le, Int32.le_iff_toInt_le, hzero]
    omega
  by_cases h : 0 ≤ p.toInt ∧ p.toInt < (Int32.ofNat l.length).toInt
  · rw [if_pos h, if_neg fun hc => hcond.mp hc h]
  · rw [if_neg h, if_pos (hcond.mpr h)]

section Results

variable {l : List Bytes} (hl : l.length < 2 ^ 31)
include hl

/-- The slice is made of the elements between the two positions. -/
theorem slice_eq_elementsBetween (start stop : Int32) :
    slice l start stop =
      elementsBetween l (positionOf l.length start) (positionOf l.length stop) := by
  have hlen : (Int32.ofNat l.length).toInt = l.length := Int32.toInt_ofNat_of_lt hl
  unfold slice elementsBetween
  simp only
  rw [← translated, ← translated, ← toInt_translated hl start, ← toInt_translated hl stop]
  generalize translated (Int32.ofNat l.length) start = s
  generalize translated (Int32.ofNat l.length) stop = e
  have hs := toInt_clampStart s
  have hnonneg : 0 ≤ (Int32.ofNat l.length).toInt := by omega
  obtain ⟨e', -, he', he⟩ := clampChecked_eq hnonneg e
  rw [hlen] at he
  rw [← he']
  generalize (if s < 0 then (0 : Int32) else s) = s' at hs ⊢
  have hfilter : (l.zipIdx.filter fun x =>
      decide (max 0 s.toInt ≤ x.2 ∧ (x.2 : ℤ) ≤ min ((l.length : ℤ) - 1) e.toInt)) =
      l.zipIdx.filter fun x => decide (s'.toInt.toNat ≤ x.2 ∧ x.2 < (e'.toInt + 1).toNat) := by
    congr 1
    funext x
    rw [decide_eq_decide, hs, he]
    omega
  rw [hfilter, map_fst_filter_zipIdx, Nat.sub_zero, Nat.sub_zero]
  by_cases hempty : s' > e' ∨ s' ≥ Int32.ofNat l.length
  · rw [if_pos hempty]
    rw [gt_iff_lt, ge_iff_le, Int32.lt_iff_toInt_lt, Int32.le_iff_toInt_le] at hempty
    rw [List.drop_eq_nil_of_le]
    rw [List.length_take]
    omega
  · rw [if_neg hempty]
    rw [gt_iff_lt, ge_iff_le, Int32.lt_iff_toInt_lt, Int32.le_iff_toInt_le] at hempty
    rw [List.drop_take]
    congr 1
    omega

/-- The element is the one at the position. -/
theorem element_eq_elementAtPosition (index : Int32) :
    element l index = elementAtPosition l (positionOf l.length index) := by
  have hlen : (Int32.ofNat l.length).toInt = l.length := Int32.toInt_ofNat_of_lt hl
  rw [element_eq_ite, elementAtPosition]
  simp only [toInt_translated hl, hlen, Int.le_sub_one_iff]

end Results

/-- **Slices of lists.**  In every state in which a key that has not expired holds a list whose
length is an `int`, and for all indices: `LRANGE` returns the elements from the first to the last
position, in order, `LINDEX` returns the element at its position, if there is one, the two agree, no
sum of either overflows, and the database does not change. -/
theorem list_slicing {db : Database} {now : TimePoint} {key : Bytes} {l : List Bytes}
    (hlist : db.listStore.lookup key = some l) (hlive : db.isExpiredUnlocked now key = false)
    (hl : l.length ≤ 2 ^ 31 - 1) (start stop i : Int32) :
    db.lrange now key start stop =
        (elementsBetween l (positionOf l.length start) (positionOf l.length stop), db) ∧
      db.lindex now key i = (elementAtPosition l (positionOf l.length i), db) ∧
      (db.lindex now key i).1 = (db.lrange now key i i).1.head? ∧
      sliceChecked l start stop = some (db.lrange now key start stop).1 ∧
      elementChecked l i = some (db.lindex now key i).1 := by
  have hl' : l.length < 2 ^ 31 := by omega
  have hlrange (a b : Int32) : db.lrange now key a b = (slice l a b, db) := by
    rw [lrange, hlive, hlist]
    rfl
  have hlindex : db.lindex now key i = (element l i, db) := by
    rw [lindex, hlive, hlist]
    rfl
  rw [hlrange, hlrange, hlindex, sliceChecked_eq hl', elementChecked_eq hl',
    slice_eq_elementsBetween hl', slice_eq_elementsBetween hl', element_eq_elementAtPosition hl',
    head?_elementsBetween_self]
  exact ⟨rfl, rfl, rfl, rfl, rfl⟩

/-- The last two of three elements, with an end far behind the list, and an index before its
start. -/
theorem list_slicing_three_elements :
    let db := (Database.empty.rpush 0 (ascii "k") [ascii "a", ascii "b", ascii "c"]).2
    (db.lrange 5 (ascii "k") (-2) 2147483647).1 = [ascii "b", ascii "c"] ∧
      (db.lindex 5 (ascii "k") (-2147483648)).1 = none := by
  intro db
  have hlist : db.listStore.lookup (ascii "k") = some [ascii "a", ascii "b", ascii "c"] := by decide
  have hlive : db.isExpiredUnlocked 5 (ascii "k") = false := by decide
  obtain ⟨hrange, hindex, -⟩ :=
    list_slicing hlist hlive (by decide) (-2) 2147483647 (-2147483648)
  rw [hrange, hindex]
  decide

end Database

end MyRedis
