import Mathlib.Logic.Function.Iterate
import MyRedis.Foundation.Codec

/-!
# Cyclic redundancy checks

A check register of any width, from which one bit after the other is shifted out; whenever the bit
was set, a fixed polynomial is added.  The step is linear in exclusive or, so that bytes which are
fed in later can be moved in front of the shifts (`foldl_crcByte`), and it is injective when the
highest bit of the polynomial is set (`crcBit_injective`).

Together this bounds what the check can miss: two messages that differ only inside a window that is
not longer than the register leave different registers (`foldl_crcByte_window`).

The check is usually defined on the bits of a message, one after the other (`crcMessageBit`);
feeding in whole bytes is the same (`foldl_crcByte_eq_foldl`).
-/

namespace Foundation

variable {w : ℕ}

/-! ### One bit -/

/-- Shift the lowest bit out, and add the polynomial if it was set. -/
def crcBit (poly c : BitVec w) : BitVec w :=
  if c.getLsbD 0 then (c >>> 1) ^^^ poly else c >>> 1

/-- The step is linear. -/
theorem crcBit_xor (poly a b : BitVec w) :
    crcBit poly (a ^^^ b) = crcBit poly a ^^^ crcBit poly b := by
  unfold crcBit
  rw [BitVec.getLsbD_xor, BitVec.ushiftRight_xor_distrib]
  cases a.getLsbD 0 with
  | false =>
    cases b.getLsbD 0 with
    | false => rfl
    | true => exact BitVec.xor_assoc _ _ _
  | true =>
    cases b.getLsbD 0 with
    | false =>
      change a >>> 1 ^^^ b >>> 1 ^^^ poly = a >>> 1 ^^^ poly ^^^ b >>> 1
      rw [BitVec.xor_assoc, BitVec.xor_comm (b >>> 1), ← BitVec.xor_assoc]
    | true =>
      change a >>> 1 ^^^ b >>> 1 = a >>> 1 ^^^ poly ^^^ (b >>> 1 ^^^ poly)
      rw [BitVec.xor_comm (b >>> 1), BitVec.xor_assoc, ← BitVec.xor_assoc poly, BitVec.xor_self,
        BitVec.zero_xor]

/-- So are several steps. -/
theorem iterate_crcBit_xor (poly : BitVec w) (n : ℕ) (a b : BitVec w) :
    (crcBit poly)^[n] (a ^^^ b) = (crcBit poly)^[n] a ^^^ (crcBit poly)^[n] b := by
  induction n generalizing a b with
  | zero => rfl
  | succ n ih =>
    rw [Function.iterate_succ_apply, crcBit_xor, ih]
    rfl

/-- Two words are equal if their sum is zero. -/
theorem eq_of_xor_eq_zero {a b : BitVec w} (h : a ^^^ b = 0#w) : a = b := by
  have hcancel : a ^^^ b ^^^ b = 0#w ^^^ b := by rw [h]
  rwa [BitVec.xor_assoc, BitVec.xor_self, BitVec.xor_zero, BitVec.zero_xor] at hcancel

/-- The bit that was shifted out can be read off the highest bit, if the polynomial sets that. -/
theorem crcBit_injective {poly : BitVec w} (hpoly : poly.msb = true) :
    Function.Injective (crcBit poly) := by
  intro a b hab
  apply eq_of_xor_eq_zero
  have hzero : crcBit poly (a ^^^ b) = 0#w := by rw [crcBit_xor, hab, BitVec.xor_self]
  generalize a ^^^ b = c at hzero
  unfold crcBit at hzero
  split at hzero
  · -- the polynomial has a bit that the shifted word does not have
    have hshift : c >>> 1 = poly := eq_of_xor_eq_zero hzero
    have hmsb : (c >>> 1).msb = false := by simp [BitVec.msb_ushiftRight]
    rw [hshift, hpoly] at hmsb
    cases hmsb
  · rename_i hlow
    apply BitVec.eq_of_getLsbD_eq
    intro i hi
    cases i with
    | zero => simpa using hlow
    | succ i =>
      have hbit := congrArg (fun x : BitVec w => x.getLsbD i) hzero
      simpa [BitVec.getLsbD_ushiftRight, Nat.add_comm] using hbit

/-- While the low bits are clear, the register is only shifted. -/
theorem iterate_crcBit_of_low_clear (poly : BitVec w) {k : ℕ} {c : BitVec w}
    (hc : ∀ i < k, c.getLsbD i = false) : (crcBit poly)^[k] c = c >>> k := by
  induction k with
  | zero => simp
  | succ k ih =>
    rw [Function.iterate_succ_apply', ih fun i hi => hc i (Nat.lt_succ_of_lt hi)]
    have hlow : (c >>> k).getLsbD 0 = false := by
      simpa [BitVec.getLsbD_ushiftRight] using hc k (Nat.lt_succ_self k)
    rw [crcBit, hlow, BitVec.shiftRight_add]
    rfl

/-- What is added after `k` steps could have been added before them, `k` places higher up. -/
theorem iterate_crcBit_xor_shiftLeft (poly c m : BitVec w) {k : ℕ} (hm : (m <<< k) >>> k = m) :
    (crcBit poly)^[k] (c ^^^ m <<< k) = (crcBit poly)^[k] c ^^^ m := by
  rw [iterate_crcBit_xor]
  have hclear : ∀ i < k, (m <<< k).getLsbD i = false := by
    intro i hi
    simp [BitVec.getLsbD_shiftLeft, hi]
  rw [iterate_crcBit_of_low_clear poly hclear, hm]

/-! ### One byte -/

/-- Add a byte to the register and shift it out. -/
def crcByte (poly c : BitVec w) (byte : BitVec 8) : BitVec w :=
  (crcBit poly)^[8] (c ^^^ byte.setWidth w)

/-- For one byte, the register determines the register before. -/
theorem crcByte_injective {poly : BitVec w} (hpoly : poly.msb = true) (byte : BitVec 8) :
    Function.Injective fun c => crcByte poly c byte := by
  intro c c' h
  have hsum : c ^^^ byte.setWidth w = c' ^^^ byte.setWidth w :=
    (crcBit_injective hpoly).iterate 8 h
  apply eq_of_xor_eq_zero
  have hcancel : c ^^^ c' = c ^^^ byte.setWidth w ^^^ (c' ^^^ byte.setWidth w) := by
    rw [BitVec.xor_comm c', BitVec.xor_assoc, ← BitVec.xor_assoc (byte.setWidth w),
      BitVec.xor_self, BitVec.zero_xor]
  rw [hcancel, hsum, BitVec.xor_self]

/-- Eight steps, by a table of what they do to the lowest byte. -/
theorem iterate_crcBit_eight (poly x : BitVec w) :
    (crcBit poly)^[8] x = (crcBit poly)^[8] (x &&& BitVec.ofNat w 255) ^^^ x >>> 8 := by
  -- the word is the sum of its lowest byte and the rest
  have hsplit : x = (x &&& BitVec.ofNat w 255) ^^^ (x >>> 8) <<< 8 := by
    apply BitVec.eq_of_getLsbD_eq
    intro i hi
    rw [BitVec.getLsbD_xor, BitVec.getLsbD_and, getLsbD_mask hi, BitVec.getLsbD_shiftLeft,
      BitVec.getLsbD_ushiftRight]
    by_cases h8 : i < 8
    · simp [hi, h8]
    · have hadd : 8 + (i - 8) = i := by omega
      simp [hi, h8, hadd]
  have hshift : (x >>> 8) <<< 8 >>> 8 = x >>> 8 := by
    apply BitVec.eq_of_getLsbD_eq
    intro i hi
    rw [BitVec.getLsbD_ushiftRight, BitVec.getLsbD_shiftLeft, BitVec.getLsbD_ushiftRight]
    by_cases hw : 8 + i < w
    · simp [hw]
    · simp [hw, BitVec.getLsbD_of_ge x (8 + i) (by omega)]
  conv_lhs => rw [hsplit]
  rw [iterate_crcBit_xor_shiftLeft _ _ _ hshift]

/-! ### Several bytes -/

/-- Bytes joined to a word, the first one lowest. -/
def joinLow : List (BitVec 8) → BitVec w
  | [] => 0#w
  | byte :: bytes => byte.setWidth w ^^^ joinLow bytes <<< 8

/-- The joined word has no bits above its bytes. -/
theorem getLsbD_joinLow_of_le {bytes : List (BitVec 8)} {i : ℕ} (hi : 8 * bytes.length ≤ i) :
    (joinLow bytes : BitVec w).getLsbD i = false := by
  induction bytes generalizing i with
  | nil => simp [joinLow]
  | cons byte bytes ih =>
    rw [List.length_cons] at hi
    rw [joinLow, BitVec.getLsbD_xor, BitVec.getLsbD_setWidth, BitVec.getLsbD_shiftLeft,
      ih (i := i - 8) (by omega), BitVec.getLsbD_of_ge byte i (by omega)]
    simp

/-- Moving the joined word up by a byte loses nothing, if there is room for a byte. -/
theorem joinLow_shiftLeft_ushiftRight {bytes : List (BitVec 8)} (hw : 8 * bytes.length + 8 ≤ w) :
    (joinLow bytes : BitVec w) <<< 8 >>> 8 = joinLow bytes := by
  apply BitVec.eq_of_getLsbD_eq
  intro i hi
  rw [BitVec.getLsbD_ushiftRight, BitVec.getLsbD_shiftLeft]
  by_cases hroom : 8 + i < w
  · simp [hroom]
  · rw [getLsbD_joinLow_of_le (i := i) (by omega)]
    simp [hroom]

/-- As many bytes as there is room for can be added to the register at once. -/
theorem foldl_crcByte (poly : BitVec w) {bytes : List (BitVec 8)} (hw : 8 * bytes.length ≤ w)
    (c : BitVec w) :
    bytes.foldl (crcByte poly) c = (crcBit poly)^[8 * bytes.length] (c ^^^ joinLow bytes) := by
  induction bytes generalizing c with
  | nil => simp [joinLow]
  | cons byte bytes ih =>
    rw [List.length_cons] at hw
    rw [List.foldl_cons, ih (by omega), crcByte,
      ← iterate_crcBit_xor_shiftLeft _ _ _ (joinLow_shiftLeft_ushiftRight (by omega)),
      ← Function.iterate_add_apply, List.length_cons, joinLow, BitVec.xor_assoc]
    rfl

/-- The joined word determines its bytes. -/
theorem joinLow_injective {bytes bytes' : List (BitVec 8)} (hlen : bytes.length = bytes'.length)
    (hw : 8 * bytes.length ≤ w) (h : (joinLow bytes : BitVec w) = joinLow bytes') :
    bytes = bytes' := by
  induction bytes generalizing bytes' with
  | nil => exact (List.length_eq_zero_iff.mp hlen.symm).symm
  | cons byte bytes ih =>
    cases bytes' with
    | nil => simp at hlen
    | cons byte' bytes' =>
      rw [List.length_cons] at hw
      have hlen' : bytes.length = bytes'.length := by simpa using hlen
      have hbits : ∀ i, (joinLow (byte :: bytes) : BitVec w).getLsbD i =
          (joinLow (byte' :: bytes') : BitVec w).getLsbD i := by
        intro i
        rw [h]
      simp only [joinLow, BitVec.getLsbD_xor, BitVec.getLsbD_setWidth,
        BitVec.getLsbD_shiftLeft] at hbits
      have hhead : byte = byte' := by
        apply BitVec.eq_of_getLsbD_eq
        intro i hi
        have hiw : i < w := by omega
        simpa [hiw, hi] using hbits i
      have htail : (joinLow bytes : BitVec w) = joinLow bytes' := by
        apply BitVec.eq_of_getLsbD_eq
        intro i hi
        by_cases hroom : i + 8 < w
        · simpa [hroom, hhead] using hbits (i + 8)
        · rw [getLsbD_joinLow_of_le (by omega), getLsbD_joinLow_of_le (by omega)]
      rw [hhead, ih hlen' (by omega) htail]

/-- From one register, the bytes of a window that fits into it can be recovered. -/
theorem foldl_crcByte_injective {poly : BitVec w} (hpoly : poly.msb = true)
    {bytes bytes' : List (BitVec 8)} (hlen : bytes.length = bytes'.length)
    (hw : 8 * bytes.length ≤ w) {c : BitVec w}
    (h : bytes.foldl (crcByte poly) c = bytes'.foldl (crcByte poly) c) : bytes = bytes' := by
  rw [foldl_crcByte poly hw, foldl_crcByte poly (hlen ▸ hw), ← hlen] at h
  have hsum := (crcBit_injective hpoly).iterate _ h
  apply joinLow_injective hlen hw
  have hcancel : ∀ m : BitVec w, c ^^^ (c ^^^ m) = m := by
    intro m
    rw [← BitVec.xor_assoc, BitVec.xor_self, BitVec.zero_xor]
  rw [← hcancel (joinLow bytes), hsum, hcancel]

/-- Different registers stay different, whatever is fed in. -/
theorem foldl_crcByte_injective_register {poly : BitVec w} (hpoly : poly.msb = true)
    (bytes : List (BitVec 8)) : Function.Injective fun c => bytes.foldl (crcByte poly) c := by
  induction bytes with
  | nil => exact Function.injective_id
  | cons byte bytes ih =>
    intro c c' h
    exact crcByte_injective hpoly byte (ih h)

/-- Two messages that differ only inside a window not longer than the register leave different
registers. -/
theorem foldl_crcByte_window {poly : BitVec w} (hpoly : poly.msb = true)
    (front back : List (BitVec 8)) {window window' : List (BitVec 8)}
    (hlen : window.length = window'.length) (hw : 8 * window.length ≤ w) (c : BitVec w)
    (h : (front ++ window ++ back).foldl (crcByte poly) c =
      (front ++ window' ++ back).foldl (crcByte poly) c) : window = window' := by
  simp only [List.foldl_append] at h
  have hinside := foldl_crcByte_injective_register hpoly back h
  exact foldl_crcByte_injective hpoly hlen hw hinside

/-! ### Bit by bit -/

/-- One bit of a message: it is added to the bit that is shifted out. -/
def crcMessageBit (poly c : BitVec w) (bit : Bool) : BitVec w :=
  if c.getLsbD 0 ^^ bit then (c >>> 1) ^^^ poly else c >>> 1

/-- The bits of a byte, lowest first. -/
def byteBits (byte : BitVec 8) : List Bool :=
  (List.range 8).map byte.getLsbD

/-- Bits joined to a word, the first one lowest. -/
def joinBits : List Bool → BitVec w
  | [] => 0#w
  | bit :: bits => (BitVec.ofBool bit).setWidth w ^^^ joinBits bits <<< 1

/-- The bits of the joined word. -/
theorem getLsbD_joinBits (bits : List Bool) (i : ℕ) :
    (joinBits bits : BitVec w).getLsbD i = (decide (i < w) && bits.getD i false) := by
  induction bits generalizing i with
  | nil => simp [joinBits]
  | cons bit bits ih =>
    rw [joinBits, BitVec.getLsbD_xor, BitVec.getLsbD_setWidth, BitVec.getLsbD_shiftLeft, ih]
    cases i with
    | zero => simp
    | succ i =>
      have hlt : i + 1 < w → i < w := Nat.lt_of_succ_lt
      by_cases hi : i + 1 < w
      · simp [hi, hlt hi]
      · simp [hi]

/-- A bit of the message can be added to the register before the step. -/
theorem crcMessageBit_eq (poly c : BitVec w) (hw : 0 < w) (bit : Bool) :
    crcMessageBit poly c bit = crcBit poly (c ^^^ (BitVec.ofBool bit).setWidth w) := by
  have hlow : (c ^^^ (BitVec.ofBool bit).setWidth w).getLsbD 0 = (c.getLsbD 0 ^^ bit) := by
    simp [hw]
  have hshift : ((BitVec.ofBool bit).setWidth w) >>> 1 = 0#w := by
    apply BitVec.eq_of_getLsbD_eq
    intro i hi
    simp
  rw [crcMessageBit, crcBit, hlow, BitVec.ushiftRight_xor_distrib, hshift, BitVec.xor_zero]

/-- As many bits as there is room for can be added to the register at once. -/
theorem foldl_crcMessageBit (poly : BitVec w) {bits : List Bool} (hbits : bits.length ≤ w)
    (c : BitVec w) :
    bits.foldl (crcMessageBit poly) c = (crcBit poly)^[bits.length] (c ^^^ joinBits bits) := by
  induction bits generalizing c with
  | nil => simp [joinBits]
  | cons bit bits ih =>
    rw [List.length_cons] at hbits
    have hroom : (joinBits bits : BitVec w) <<< 1 >>> 1 = joinBits bits := by
      apply BitVec.eq_of_getLsbD_eq
      intro i hi
      rw [BitVec.getLsbD_ushiftRight, BitVec.getLsbD_shiftLeft, getLsbD_joinBits,
        getLsbD_joinBits]
      by_cases hlt : 1 + i < w
      · simp [hlt]
      · have hout : bits.length ≤ i := by omega
        simp [hlt, List.getElem?_eq_none hout]
    have hstep := iterate_crcBit_xor_shiftLeft poly (c ^^^ (BitVec.ofBool bit).setWidth w)
      (joinBits bits) hroom
    simp only [Function.iterate_one] at hstep
    rw [List.foldl_cons, ih (by omega), crcMessageBit_eq poly c (by omega), List.length_cons,
      Function.iterate_succ_apply, joinBits, ← BitVec.xor_assoc, hstep]

/-- A byte is its bits. -/
theorem joinBits_byteBits (byte : BitVec 8) : (joinBits (byteBits byte) : BitVec w) =
    byte.setWidth w := by
  apply BitVec.eq_of_getLsbD_eq
  intro i hi
  rw [getLsbD_joinBits, BitVec.getLsbD_setWidth, byteBits]
  by_cases h : i < 8
  · simp [h]
  · simp [h, BitVec.getLsbD_of_ge byte i (by omega)]

/-- Feeding in a byte is feeding in its bits, one after the other. -/
theorem crcByte_eq_foldl (poly c : BitVec w) (hw : 8 ≤ w) (byte : BitVec 8) :
    crcByte poly c byte = (byteBits byte).foldl (crcMessageBit poly) c := by
  have hlength : (byteBits byte).length = 8 := by simp [byteBits]
  rw [foldl_crcMessageBit poly (hlength.trans_le hw), hlength, joinBits_byteBits, crcByte]

/-- So is feeding in a message. -/
theorem foldl_crcByte_eq_foldl (poly : BitVec w) (hw : 8 ≤ w) (bytes : List (BitVec 8))
    (c : BitVec w) :
    bytes.foldl (crcByte poly) c = (bytes.flatMap byteBits).foldl (crcMessageBit poly) c := by
  induction bytes generalizing c with
  | nil => rfl
  | cons byte bytes ih =>
    rw [List.foldl_cons, ih, crcByte_eq_foldl poly c hw, List.flatMap_cons, List.foldl_append]

end Foundation
