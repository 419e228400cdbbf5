import Mathlib.Data.BitVec
import Mathlib.Data.Fintype.Vector
import Mathlib.Data.List.Basic
import MyRedis.Foundation.ByteString

/-!
# Decoders and the codes they read

A decoder consumes a front part of a byte string and either fails or returns a value and the bytes
it has left.  `Decodes d code a` says that `d` reads the value `a` off the front of every byte
string that starts with `code`, whatever follows, and consumes exactly `code`.  The rules `pure`,
`bind` and `iterate` follow the way decoders are composed, so that a round trip is proved by one
rule for each step of the decoder.

The converse, that a decoder returns only where a code stands, is stated as an equivalence for the
run of the decoder: `Decodes.run_eq_some_iff` gives it for a single code, `run_iterate_eq_some` for
a loop.  For codes of fixed length it follows by counting (`exists_code_of_length`).

The last section is about integers written byte by byte, most significant byte first: the bytes
cut out of a word by shifting and masking give the word back when they are shifted into place and
joined.
-/

namespace Foundation

/-- A decoder: a state of unread bytes, and failure. -/
abbrev Decoder (α : Type) := StateT Bytes Option α

namespace Decoder

/-- Fail. -/
def fail {α : Type} : Decoder α := fun _ => none

/-- Read exactly `n` bytes; fail if fewer are left. -/
def bytes (n : ℕ) : Decoder Bytes := fun input =>
  if n ≤ input.length then some (input.take n, input.drop n) else none

/-- Run a state-transforming decoder `n` times. -/
def iterate {α : Type} (step : α → Decoder α) : ℕ → α → Decoder α
  | 0, a => pure a
  | n + 1, a => do
    let a ← step a
    iterate step n a

variable {α β : Type}

/-- A composed decoder that returns did so part by part. -/
theorem run_bind_eq_some {d : Decoder α} {f : α → Decoder β} {input rest : Bytes} {b : β} :
    (d >>= f).run input = some (b, rest) ↔
      ∃ a middle, d.run input = some (a, middle) ∧ (f a).run middle = some (b, rest) := by
  rw [StateT.run_bind]
  change (d.run input).bind (fun p => (f p.1).run p.2) = some (b, rest) ↔ _
  rw [Option.bind_eq_some_iff]
  constructor
  · rintro ⟨⟨a, middle⟩, hd, hf⟩
    exact ⟨a, middle, hd, hf⟩
  · rintro ⟨a, middle, hd, hf⟩
    exact ⟨(a, middle), hd, hf⟩

/-- What a decoder that returns at once has read. -/
theorem run_pure_eq_some {a b : α} {input rest : Bytes} :
    (pure a : Decoder α).run input = some (b, rest) ↔ a = b ∧ input = rest := by
  change some (a, input) = some (b, rest) ↔ _
  rw [Option.some.injEq, Prod.mk.injEq]

/-- A block of bytes is read off the front. -/
theorem run_bytes_eq_some {n : ℕ} {code input rest : Bytes} :
    (bytes n).run input = some (code, rest) ↔ code.length = n ∧ input = code ++ rest := by
  change (if n ≤ input.length then some (input.take n, input.drop n) else none) = _ ↔ _
  constructor
  · intro h
    split at h
    · rename_i hn
      obtain ⟨rfl, rfl⟩ := Prod.mk.inj (Option.some.inj h)
      exact ⟨by rw [List.length_take, Nat.min_eq_left hn], (List.take_append_drop n input).symm⟩
    · cases h
  · rintro ⟨rfl, rfl⟩
    rw [if_pos (by rw [List.length_append]; exact Nat.le_add_right _ _), List.take_left,
      List.drop_left]

/-- A decoder that begins with `n` bytes needs so many. -/
theorem le_length_of_run_bytes_bind {n : ℕ} {f : Bytes → Decoder β} {input rest : Bytes} {b : β}
    (h : (bytes n >>= f).run input = some (b, rest)) : n ≤ input.length := by
  obtain ⟨code, middle, hcode, -⟩ := run_bind_eq_some.mp h
  obtain ⟨rfl, rfl⟩ := run_bytes_eq_some.mp hcode
  rw [List.length_append]
  exact Nat.le_add_right _ _

/-- A loop whose rounds read one code each reads one code after the other. -/
theorem run_iterate_eq_some {γ : Type} {step : α → Decoder α} {next : α → γ → α} {code : γ → Bytes}
    (hstep : ∀ a a' input rest, (step a).run input = some (a', rest) ↔
      ∃ c, input = code c ++ rest ∧ a' = next a c) {n : ℕ} {a a' : α} {input rest : Bytes} :
    (iterate step n a).run input = some (a', rest) ↔
      ∃ items : List γ, items.length = n ∧ input = items.flatMap code ++ rest ∧
        a' = items.foldl next a := by
  induction n generalizing a input with
  | zero =>
    rw [iterate, run_pure_eq_some]
    constructor
    · rintro ⟨rfl, rfl⟩
      exact ⟨[], rfl, rfl, rfl⟩
    · rintro ⟨items, hlen, rfl, rfl⟩
      obtain rfl := List.length_eq_zero_iff.mp hlen
      exact ⟨rfl, rfl⟩
  | succ n ih =>
    rw [iterate, run_bind_eq_some]
    constructor
    · rintro ⟨a₁, middle, hfirst, hlater⟩
      obtain ⟨c, rfl, rfl⟩ := (hstep _ _ _ _).mp hfirst
      obtain ⟨items, hlen, rfl, rfl⟩ := ih.mp hlater
      refine ⟨c :: items, by rw [List.length_cons, hlen], ?_, rfl⟩
      rw [List.flatMap_cons, List.append_assoc]
    · rintro ⟨items, hlen, rfl, rfl⟩
      cases items with
      | nil => cases hlen
      | cons c items =>
        refine ⟨next a c, items.flatMap code ++ rest, (hstep _ _ _ _).mpr ⟨c, ?_, rfl⟩, ?_⟩
        · rw [List.flatMap_cons, List.append_assoc]
        · exact ih.mpr ⟨items, Nat.succ.inj hlen, rfl, rfl⟩

/-- What every round of a loop preserves, the loop preserves. -/
theorem iterate_invariant {step : α → Decoder α} (inv : α → Prop)
    (hstep : ∀ a a' input rest, inv a → (step a).run input = some (a', rest) → inv a') {n : ℕ}
    {a a' : α} {input rest : Bytes} (ha : inv a)
    (hrun : (iterate step n a).run input = some (a', rest)) : inv a' := by
  induction n generalizing a input with
  | zero =>
    obtain ⟨rfl, _⟩ := run_pure_eq_some.mp hrun
    exact ha
  | succ n ih =>
    obtain ⟨a₁, middle, hfirst, hlater⟩ := run_bind_eq_some.mp hrun
    exact ih (hstep a a₁ input middle ha hfirst) hlater

end Decoder

/-! ### Reading a code -/

/-- The decoder `d` reads `a` off the front of every byte string that starts with `code`. -/
def Decodes {α : Type} (d : Decoder α) (code : Bytes) (a : α) : Prop :=
  ∀ rest, d.run (code ++ rest) = some (a, rest)

namespace Decodes

variable {α β : Type}

/-- Nothing is read for a value that is returned at once. -/
theorem pure (a : α) : Decodes (Pure.pure a) [] a := fun _ => rfl

/-- Two decoders in sequence read two codes in sequence. -/
theorem bind {d : Decoder α} {f : α → Decoder β} {code code' : Bytes} {a : α} {b : β}
    (hd : Decodes d code a) (hf : Decodes (f a) code' b) :
    Decodes (d >>= f) (code ++ code') b := by
  intro rest
  rw [StateT.run_bind, List.append_assoc, hd]
  exact hf rest

/-- A first decoder that consumes all of the code. -/
theorem bind_nil {d : Decoder α} {f : α → Decoder β} {code : Bytes} {a : α} {b : β}
    (hd : Decodes d code a) (hf : Decodes (f a) [] b) : Decodes (d >>= f) code b := by
  have h := hd.bind hf
  rwa [List.append_nil] at h

/-- A block of bytes of known length. -/
theorem bytes (code : Bytes) : Decodes (Decoder.bytes code.length) code code := by
  intro rest
  exact Decoder.run_bytes_eq_some.mpr ⟨rfl, rfl⟩

/-- A loop reads the codes of its rounds, one after the other. -/
theorem iterate {γ : Type} {step : α → Decoder α} {next : α → γ → α} {code : γ → Bytes}
    (items : List γ) (hstep : ∀ c ∈ items, ∀ a, Decodes (step a) (code c) (next a c)) (a : α) :
    Decodes (Decoder.iterate step items.length a) (items.flatMap code) (items.foldl next a) := by
  induction items generalizing a with
  | nil => exact Decodes.pure a
  | cons c items ih =>
    rw [List.flatMap_cons, List.foldl_cons]
    have hhead : Decodes (step a) (code c) (next a c) := hstep c List.mem_cons_self a
    have htail := ih (fun c' hc' => hstep c' (List.mem_cons_of_mem _ hc')) (next a c)
    exact hhead.bind htail

end Decodes

/-- A code that can be read back is injective. -/
theorem Decodes.code_injective {α : Type} {d : Decoder α} {code : α → Bytes}
    (hd : ∀ a, Decodes d (code a) a) : Function.Injective code := by
  intro a b hab
  have ha := hd a []
  rw [hab, hd b []] at ha
  exact (Prod.mk.inj (Option.some.inj ha)).1.symm

/-- A decoder that reads every code, and returns only where a code stands, reads exactly the
codes. -/
theorem Decodes.run_eq_some_iff {α : Type} {d : Decoder α} {code : α → Bytes}
    (hd : ∀ a, Decodes d (code a) a)
    (hcode : ∀ input p, d.run input = some p → ∃ a rest, input = code a ++ rest)
    {input rest : Bytes}
    {a : α} : d.run input = some (a, rest) ↔ input = code a ++ rest := by
  constructor
  · intro h
    obtain ⟨a', rest', rfl⟩ := hcode input _ h
    rw [hd a' rest'] at h
    obtain ⟨rfl, rfl⟩ := Prod.mk.inj (Option.some.inj h)
    rfl
  · rintro rfl
    exact hd a rest

/-! ### Codes of fixed length -/

/-- Bytes are the numbers below 256. -/
def byteEquiv : UInt8 ≃ Fin 256 := ⟨UInt8.toFin, UInt8.ofFin, fun _ => rfl, fun _ => rfl⟩

/-- 32-bit words are the numbers below `256 ^ 4`. -/
def word32Equiv : UInt32 ≃ Fin (256 ^ 4) :=
  ⟨UInt32.toFin, UInt32.ofFin, fun _ => rfl, fun _ => rfl⟩

/-- 64-bit words are the numbers below `256 ^ 8`. -/
def word64Equiv : UInt64 ≃ Fin (256 ^ 8) :=
  ⟨UInt64.toFin, UInt64.ofFin, fun _ => rfl, fun _ => rfl⟩

/-- An injective code of fixed length for as many values as there are byte strings of that length
leaves no byte string out. -/
theorem exists_code_of_length {α : Type} {n : ℕ} (values : α ≃ Fin (256 ^ n)) {code : α → Bytes}
    (hlen : ∀ a, (code a).length = n) (hinj : Function.Injective code) {bytes : Bytes}
    (hbytes : bytes.length = n) : ∃ a, code a = bytes := by
  let _ : Fintype UInt8 := Fintype.ofEquiv _ byteEquiv.symm
  let _ : Fintype α := Fintype.ofEquiv _ values.symm
  have hcard : Fintype.card α = Fintype.card (List.Vector UInt8 n) := by
    rw [card_vector, Fintype.card_congr values, Fintype.card_fin, Fintype.card_congr byteEquiv,
      Fintype.card_fin]
  let vector : α → List.Vector UInt8 n := fun a => ⟨code a, hlen a⟩
  have hvector : Function.Injective vector := fun a b hab => hinj (congrArg Subtype.val hab)
  obtain ⟨a, ha⟩ :=
    ((Fintype.bijective_iff_injective_and_card vector).mpr ⟨hvector, hcard⟩).2 ⟨bytes, hbytes⟩
  exact ⟨a, congrArg Subtype.val ha⟩

/-- A decoder for such a code that returns only when enough bytes are left reads exactly the
codes. -/
theorem Decodes.run_eq_some_iff_of_length {α : Type} {n : ℕ} (values : α ≃ Fin (256 ^ n))
    {d : Decoder α} {code : α → Bytes} (hlen : ∀ a, (code a).length = n)
    (hd : ∀ a, Decodes d (code a) a)
    (henough : ∀ input p, d.run input = some p → n ≤ input.length) {input rest : Bytes} {a : α} :
    d.run input = some (a, rest) ↔ input = code a ++ rest := by
  refine Decodes.run_eq_some_iff hd fun input p h => ?_
  have hfront : (input.take n).length = n := by
    rw [List.length_take, Nat.min_eq_left (henough input p h)]
  obtain ⟨a, ha⟩ := exists_code_of_length values hlen (Decodes.code_injective hd) hfront
  exact ⟨a, input.drop n, by rw [ha, List.take_append_drop]⟩

/-! ### Words as bytes, most significant byte first -/

/-- The byte of `x` at bit position `s`, cut out and put back in its place. -/
def byteField {n : ℕ} (x : BitVec n) (s : ℕ) : BitVec n :=
  (((x >>> s) &&& BitVec.ofNat n 255).setWidth 8).setWidth n <<< s

/-- Below the width, the bits of the byte mask are the lowest eight. -/
theorem getLsbD_mask {n i : ℕ} (hi : i < n) :
    (BitVec.ofNat n 255).getLsbD i = decide (i < 8) := by
  rw [BitVec.getLsbD_ofNat, show (255 : ℕ) = 2 ^ 8 - 1 from rfl, Nat.testBit_two_pow_sub_one]
  simp [hi]

/-- A field at a byte boundary has the bits of `x` inside its byte, and no others. -/
theorem getLsbD_byteField {n s i : ℕ} (x : BitVec n) (hi : i < n) (hs : s % 8 = 0) :
    (byteField x s).getLsbD i = (decide (i / 8 = s / 8) && x.getLsbD i) := by
  unfold byteField
  rw [BitVec.getLsbD_shiftLeft, BitVec.getLsbD_setWidth, BitVec.getLsbD_setWidth,
    BitVec.getLsbD_and, BitVec.getLsbD_ushiftRight, getLsbD_mask (by omega)]
  by_cases hlt : i < s
  · have hne : i / 8 ≠ s / 8 := by omega
    simp [hlt, hne]
  · have hadd : s + (i - s) = i := by omega
    by_cases h8 : i - s < 8
    · have heq : i / 8 = s / 8 := by omega
      have hw : i - s < n := by omega
      simp [hlt, hi, h8, heq, hw, hadd]
    · have hne : i / 8 ≠ s / 8 := by omega
      simp [h8, hne]

/-- A byte of a 32-bit word, as shifts and a mask compute it. -/
theorem toBitVec_byteField32 (v s : UInt32) (hs : s.toNat < 32) :
    (((v >>> s) &&& 0xFF).toUInt8.toUInt32 <<< s).toBitVec = byteField v.toBitVec s.toNat := by
  have hmod : (s.toBitVec % 32).toNat = s.toNat := by
    rw [BitVec.toNat_umod]
    exact Nat.mod_eq_of_lt hs
  rw [UInt32.toBitVec_shiftLeft, UInt8.toBitVec_toUInt32, UInt32.toBitVec_toUInt8,
    UInt32.toBitVec_and, UInt32.toBitVec_shiftRight, BitVec.shiftLeft_eq',
    BitVec.ushiftRight_eq', hmod]
  rfl

/-- The last byte of a 32-bit word. -/
theorem toBitVec_lastField32 (v : UInt32) :
    ((v &&& 0xFF).toUInt8.toUInt32).toBitVec = byteField v.toBitVec 0 := by
  rw [UInt8.toBitVec_toUInt32, UInt32.toBitVec_toUInt8, UInt32.toBitVec_and, byteField]
  simp

/-- A byte of a 64-bit word, as shifts and a mask compute it. -/
theorem toBitVec_byteField64 (v s : UInt64) (hs : s.toNat < 64) :
    (((v >>> s) &&& 0xFF).toUInt8.toUInt64 <<< s).toBitVec = byteField v.toBitVec s.toNat := by
  have hmod : (s.toBitVec % 64).toNat = s.toNat := by
    rw [BitVec.toNat_umod]
    exact Nat.mod_eq_of_lt hs
  rw [UInt64.toBitVec_shiftLeft, UInt8.toBitVec_toUInt64, UInt64.toBitVec_toUInt8,
    UInt64.toBitVec_and, UInt64.toBitVec_shiftRight, BitVec.shiftLeft_eq',
    BitVec.ushiftRight_eq', hmod]
  rfl

/-- The last byte of a 64-bit word. -/
theorem toBitVec_lastField64 (v : UInt64) :
    ((v &&& 0xFF).toUInt8.toUInt64).toBitVec = byteField v.toBitVec 0 := by
  rw [UInt8.toBitVec_toUInt64, UInt64.toBitVec_toUInt8, UInt64.toBitVec_and, byteField]
  simp

/-- The four bytes of a 32-bit word, joined. -/
theorem joinBytes32 (v : UInt32) :
    ((v >>> 24) &&& 0xFF).toUInt8.toUInt32 <<< 24 ||| ((v >>> 16) &&& 0xFF).toUInt8.toUInt32 <<< 16
      ||| ((v >>> 8) &&& 0xFF).toUInt8.toUInt32 <<< 8 ||| (v &&& 0xFF).toUInt8.toUInt32 = v := by
  apply UInt32.toBitVec_inj.mp
  simp only [UInt32.toBitVec_or]
  rw [toBitVec_byteField32 v 24 (by decide), toBitVec_byteField32 v 16 (by decide),
    toBitVec_byteField32 v 8 (by decide), toBitVec_lastField32]
  apply BitVec.eq_of_getLsbD_eq
  intro i hi
  simp only [BitVec.getLsbD_or]
  rw [getLsbD_byteField _ hi (by decide), getLsbD_byteField _ hi (by decide),
    getLsbD_byteField _ hi (by decide), getLsbD_byteField _ hi (by decide)]
  -- exactly one of the four fields is the one of the bit `i`
  have hbyte : i / 8 = 0 ∨ i / 8 = 1 ∨ i / 8 = 2 ∨ i / 8 = 3 := by omega
  rcases hbyte with h | h | h | h <;> simp [h]

/-- The eight bytes of a 64-bit word, joined. -/
theorem joinBytes64 (v : UInt64) :
    ((v >>> 56) &&& 0xFF).toUInt8.toUInt64 <<< 56 ||| ((v >>> 48) &&& 0xFF).toUInt8.toUInt64 <<< 48
      ||| ((v >>> 40) &&& 0xFF).toUInt8.toUInt64 <<< 40
      ||| ((v >>> 32) &&& 0xFF).toUInt8.toUInt64 <<< 32
      ||| ((v >>> 24) &&& 0xFF).toUInt8.toUInt64 <<< 24
      ||| ((v >>> 16) &&& 0xFF).toUInt8.toUInt64 <<< 16
      ||| ((v >>> 8) &&& 0xFF).toUInt8.toUInt64 <<< 8 ||| (v &&& 0xFF).toUInt8.toUInt64 = v := by
  apply UInt64.toBitVec_inj.mp
  simp only [UInt64.toBitVec_or]
  rw [toBitVec_byteField64 v 56 (by decide), toBitVec_byteField64 v 48 (by decide),
    toBitVec_byteField64 v 40 (by decide), toBitVec_byteField64 v 32 (by decide),
    toBitVec_byteField64 v 24 (by decide), toBitVec_byteField64 v 16 (by decide),
    toBitVec_byteField64 v 8 (by decide), toBitVec_lastField64]
  apply BitVec.eq_of_getLsbD_eq
  intro i hi
  simp only [BitVec.getLsbD_or]
  rw [getLsbD_byteField _ hi (by decide), getLsbD_byteField _ hi (by decide),
    getLsbD_byteField _ hi (by decide), getLsbD_byteField _ hi (by decide),
    getLsbD_byteField _ hi (by decide), getLsbD_byteField _ hi (by decide),
    getLsbD_byteField _ hi (by decide), getLsbD_byteField _ hi (by decide)]
  have hbyte : i / 8 = 0 ∨ i / 8 = 1 ∨ i / 8 = 2 ∨ i / 8 = 3 ∨ i / 8 = 4 ∨ i / 8 = 5 ∨ i / 8 = 6 ∨
    i / 8 = 7 := by omega
  rcases hbyte with h | h | h | h | h | h | h | h <;> simp [h]

end Foundation
