import Mathlib
import Awk.Number.Binary

/-!
# The exact value of a double

A finite double is a rational number, `rational?`, and its parts tell which double it is
(`ofFloat?_inj`).  They are also what the double is made of when it is taken apart for a sum or a
comparison (`unpack_of_parts`).  Cutting off the fraction and asking whether a double is whole are
what they are for its number: `Binary.floorMagnitude_eq`, `Binary.isWhole_iff`,
`whole?_eq_some_iff`.  A double that is a whole number other than zero has a mantissa of 53 bits
(`parts_of_exact`).
-/

namespace Awk.Number

/-! ## Parts -/

lemma ofFloat?_eq (x : Float) : Binary.ofFloat? x =
    if x.toBits.toNat / 2 ^ 52 % 2048 = 2047 then none
    else if x.toBits.toNat / 2 ^ 52 % 2048 = 0 then
      some ⟨decide (2 ^ 63 ≤ x.toBits.toNat), x.toBits.toNat % 2 ^ 52, -1074⟩
    else
      some ⟨decide (2 ^ 63 ≤ x.toBits.toNat), x.toBits.toNat % 2 ^ 52 + 2 ^ 52,
        ((x.toBits.toNat / 2 ^ 52 % 2048 : Nat) : Int) - 1075⟩ := rfl

variable {x y : Float} {b : Binary} {n : ℤ}

/-- A mantissa and an exponent as a double has them: the mantissa has 53 bits, unless the exponent
is the least one. -/
structure Canonical (m : Nat) (e : ℤ) : Prop where
  mantissa : m < 2 ^ 53
  exponent : e < 972
  normal : e = -1074 ∨ (2 ^ 52 ≤ m ∧ -1074 ≤ e)

lemma ofFloat?_canonical (h : Binary.ofFloat? x = some b) : Canonical b.mantissa b.exponent := by
  rw [ofFloat?_eq] at h
  split at h
  · cases h
  · split at h <;> cases h <;> constructor <;> dsimp only <;> omega

/-- The bits of a double, told from its parts. -/
lemma toBits_of_parts (h : Binary.ofFloat? x = some b) : x.toBits.toNat = b.negative.toNat * 2 ^ 63 +
    if b.mantissa < 2 ^ 52 then b.mantissa else (b.exponent + 1074).toNat * 2 ^ 52 + b.mantissa := by
  have hlt := x.toBits.toNat_lt
  rw [ofFloat?_eq] at h
  generalize x.toBits.toNat = bits at h hlt ⊢
  have hsign : (decide (2 ^ 63 ≤ bits)).toNat = bits / 2 ^ 63 := by
    by_cases hneg : 2 ^ 63 ≤ bits
    · rw [decide_eq_true hneg, Bool.toNat_true]
      omega
    · rw [decide_eq_false hneg, Bool.toNat_false]
      omega
  split at h
  · cases h
  · split at h
    · cases h
      dsimp only
      rw [hsign, if_pos (by omega)]
      omega
    · cases h
      dsimp only
      rw [hsign, if_neg (by omega)]
      omega

lemma ofFloat?_inj (hx : Binary.ofFloat? x = some b) (hy : Binary.ofFloat? y = some b) : x = y :=
  Float.toBits_inj.mp (UInt64.toNat_inj.mp ((toBits_of_parts hx).trans (toBits_of_parts hy).symm))

/-! ## Taking a double apart -/

open Float.Model (Format UnpackedFloat)
open Float.Model.UnpackedFloat

def Binary.sign (b : Binary) : Sign := if b.negative then .negative else .positive

lemma toNat_unpackMantissa (x : Float) :
    (@unpackMantissa .binary64 x.toModel.toBits.toBitVec).toNat = x.toBits.toNat % 2 ^ 52 := by
  rw [unpackMantissa_def]
  simp
  rfl

lemma toNat_unpackExponent (x : Float) : (@unpackExponent .binary64 x.toModel.toBits.toBitVec).toNat =
    x.toBits.toNat / 2 ^ 52 % 2 ^ 11 := by
  rw [unpackExponent_def]
  simp [Nat.shiftRight_eq_div_pow]
  rfl

lemma ofBitVec_unpackSign (x : Float) :
    Sign.ofBitVec (@unpackSign .binary64 x.toModel.toBits.toBitVec) =
      if 2 ^ 63 ≤ x.toBits.toNat then .negative else .positive := by
  have hlt := x.toBits.toNat_lt
  have hsign : (@unpackSign .binary64 x.toModel.toBits.toBitVec).toNat =
      x.toBits.toNat / 2 ^ 63 := by
    rw [unpackSign_def]
    simp [Nat.shiftRight_eq_div_pow]
    change x.toBits.toNat / 2 ^ 63 % 2 = _
    omega
  simp only [Sign.ofBitVec, ← BitVec.toNat_inj, hsign, BitVec.toNat_ofNat]
  split_ifs <;> first | rfl | omega

/-- A finite double is taken apart into its parts. -/
lemma unpack_of_parts (h : Binary.ofFloat? x = some b) : x.toModel.unpack =
    if hb : b.mantissa = 0 then .zero b.sign
    else .finite b.sign b.mantissa b.exponent (Nat.pos_of_ne_zero hb) := by
  have hbias : Format.binary64.exponentBias = 1023 := by decide
  have hm := toNat_unpackMantissa x
  have he := toNat_unpackExponent x
  rw [ofFloat?_eq] at h
  rw [Float.Model.unpack, UnpackedFloat.unpack, ofBitVec_unpackSign]
  dsimp only
  split at h
  · cases h
  · rw [if_neg fun hnan => by rw [hnan] at he; simp at he; omega]
    split at h
    · rw [if_pos (by rw [← BitVec.toNat_inj, he]; simpa)]
      cases h
      simp only [Binary.sign, decide_eq_true_eq, ← BitVec.toNat_inj, hm, he, hbias,
        BitVec.toNat_ofNat]
      split_ifs <;> simp_all
    · rw [if_neg fun hzero => by rw [hzero] at he; simp at he; omega]
      cases h
      have hmantissa : (1#1 ++ @unpackMantissa .binary64 x.toModel.toBits.toBitVec).toNat =
          x.toBits.toNat % 2 ^ 52 + 2 ^ 52 := by
        rw [BitVec.toNat_append, ← Nat.shiftLeft_add_eq_or_of_lt (BitVec.isLt _), hm,
          Nat.shiftLeft_eq]
        simp
        omega
      simp only [Binary.sign, decide_eq_true_eq, hmantissa, he, hbias]
      rw [dif_neg (by omega)]
      simp

lemma unpack_of_none (h : Binary.ofFloat? x = none) :
    x.toModel.unpack = .notANumber ∨ ∃ s, x.toModel.unpack = .infinity s := by
  have he := toNat_unpackExponent x
  rw [ofFloat?_eq] at h
  split at h
  · rw [Float.Model.unpack, UnpackedFloat.unpack]
    dsimp only
    rw [if_pos (by rw [← BitVec.toNat_inj, he]; simpa)]
    split_ifs
    · exact .inr ⟨_, rfl⟩
    · exact .inl rfl
  · split at h <;> cases h

lemma isNaN_of_parts (h : Binary.ofFloat? x = some b) : x.isNaN = false := by
  change x.toModel.unpack.isNaN = false
  rw [unpack_of_parts h]
  split <;> rfl

/-! ## Values -/

namespace Binary

def value (b : Binary) : ℚ := (if b.negative then -1 else 1) * (b.mantissa * 2 ^ b.exponent)

lemma floorMagnitude_eq (b : Binary) : (b.floorMagnitude : ℤ) = ⌊(b.mantissa * 2 ^ b.exponent : ℚ)⌋ := by
  rw [floorMagnitude]
  split
  · rename_i h
    obtain ⟨k, hk⟩ := Int.eq_ofNat_of_zero_le h
    rw [hk, Nat.shiftLeft_eq, Int.toNat_natCast, zpow_natCast]
    exact (Int.floor_eq_iff.mpr (by push_cast; simp)).symm
  · rename_i h
    obtain ⟨k, hk⟩ := Int.exists_eq_neg_ofNat (Int.le_of_not_le h)
    rw [hk, Nat.shiftRight_eq_div_pow, Int.neg_neg, Int.toNat_natCast, zpow_neg, zpow_natCast, ← div_eq_mul_inv]
    have := Rat.floor_natCast_div_natCast b.mantissa (2 ^ k)
    push_cast at this ⊢
    exact this.symm

lemma isWhole_iff (b : Binary) : b.isWhole = true ↔ (b.mantissa * 2 ^ b.exponent : ℚ) = b.floorMagnitude := by
  rw [isWhole, floorMagnitude, Bool.or_eq_true, decide_eq_true_eq, beq_iff_eq]
  split
  · rename_i h
    obtain ⟨k, hk⟩ := Int.eq_ofNat_of_zero_le h
    simp [hk, Nat.shiftLeft_eq]
  · rename_i h
    obtain ⟨k, hk⟩ := Int.exists_eq_neg_ofNat (Int.le_of_not_le h)
    have hpow : (2 ^ k : ℚ) ≠ 0 := by positivity
    rw [or_iff_right h, hk, Int.neg_neg, Int.toNat_natCast, Nat.one_shiftLeft, Nat.shiftRight_eq_div_pow, zpow_neg,
      zpow_natCast, ← div_eq_mul_inv, div_eq_iff hpow]
    norm_cast
    constructor
    · exact fun hmod => (Nat.div_mul_cancel (Nat.dvd_of_mod_eq_zero hmod)).symm
    · exact fun hmul => Nat.mod_eq_zero_of_dvd ⟨_, hmul.trans (Nat.mul_comm _ _)⟩

lemma value_of_isWhole (h : b.isWhole = true) : b.value = (signed b.negative b.floorMagnitude : ℤ) := by
  rw [value, b.isWhole_iff.mp h, signed]
  cases b.negative <;> simp

lemma magnitude_of_value (h : b.value = n) : (n.natAbs : ℚ) = b.mantissa * 2 ^ b.exponent := by
  have hnonneg : (0 : ℚ) ≤ b.mantissa * 2 ^ b.exponent := by positivity
  rw [Nat.cast_natAbs, Int.cast_abs, ← h, value, abs_mul, abs_of_nonneg hnonneg]
  cases b.negative <;> simp

lemma isWhole_of_value (h : b.value = n) : b.isWhole = true := by
  have hfloor := b.floorMagnitude_eq
  rw [← magnitude_of_value h, Int.floor_natCast, Int.natCast_inj] at hfloor
  rw [isWhole_iff, ← magnitude_of_value h, hfloor]

end Binary

/-- The exact value of a double, none for infinities and NaN. -/
def rational? (x : Float) : Option ℚ := (Binary.ofFloat? x).map Binary.value

/-- The whole number that a double is, if it has 64 bits. -/
lemma whole?_eq_some_iff : whole? x = some n ↔ rational? x = some (n : ℚ) ∧ -2 ^ 63 ≤ n ∧ n < 2 ^ 63 := by
  rw [whole?, rational?]
  cases Binary.ofFloat? x with
  | none => simp
  | some b =>
    dsimp only
    rw [Option.map_some, Option.some.injEq]
    by_cases hw : b.isWhole = true
    · rw [if_pos hw, Binary.value_of_isWhole hw, Int.cast_inj]
      have hmin : int64Min = -2 ^ 63 := rfl
      have hmax : int64Max = 2 ^ 63 - 1 := rfl
      split
      · simp; omega
      · simp; omega
    · rw [if_neg hw]
      simp
      exact fun h => absurd (Binary.isWhole_of_value h) hw

/-- The parts of a double that is a whole number other than zero. -/
lemma parts_of_exact (h : rational? x = some (n : ℚ)) (hn : n ≠ 0) : ∃ m j : Nat,
    Binary.ofFloat? x = some ⟨decide (n < 0), m, (j : Int) - 52⟩ ∧ m.log2 = 52 ∧ j ≤ 1023 ∧
      n.natAbs * 2 ^ 52 = m * 2 ^ j := by
  obtain ⟨b, hb, hvalue⟩ := Option.map_eq_some_iff.mp h
  obtain ⟨hhi, hlarge, hlo⟩ := ofFloat?_canonical hb
  have hmagnitude := Binary.magnitude_of_value hvalue
  have hone : (1 : ℚ) ≤ b.mantissa * 2 ^ b.exponent := by
    rw [← hmagnitude]
    exact_mod_cast Int.natAbs_pos.mpr hn
  have hnegative : b.negative = decide (n < 0) := by
    rw [Binary.value] at hvalue
    cases hneg : b.negative <;> simp only [hneg, if_true, if_false, Bool.false_eq_true] at hvalue
    · refine (decide_eq_false (not_lt.mpr ?_)).symm
      have : (0 : ℚ) ≤ n := by linarith
      exact_mod_cast this
    · refine (decide_eq_true ?_).symm
      have : (n : ℚ) < 0 := by linarith
      exact_mod_cast this
  have hexponent : -52 ≤ b.exponent := by
    by_contra hlt
    have hpow : (2 : ℚ) ^ b.exponent ≤ 2 ^ (-53 : ℤ) := zpow_le_zpow_right₀ (by norm_num) (by omega)
    have hmantissa : (b.mantissa : ℚ) < 2 ^ 53 := by exact_mod_cast hhi
    have : (b.mantissa : ℚ) * 2 ^ b.exponent ≤ b.mantissa * 2 ^ (-53 : ℤ) := by gcongr
    norm_num at this
    linarith
  obtain ⟨j, hj⟩ := Int.eq_ofNat_of_zero_le (by omega : 0 ≤ b.exponent + 52)
  refine ⟨b.mantissa, j, ?_, ?_, by omega, ?_⟩
  · rw [hb, ← hnegative, ← hj, Int.add_sub_cancel]
  · have hne : b.mantissa ≠ 0 := by omega
    exact (Nat.log2_eq_iff hne).mpr ⟨by omega, hhi⟩
  · have : (n.natAbs : ℚ) * 2 ^ 52 = b.mantissa * 2 ^ j := by
      rw [hmagnitude, mul_assoc, ← zpow_natCast, ← zpow_natCast, ← zpow_add₀ two_ne_zero, ← hj]
      rfl
    exact_mod_cast this

lemma eq_zero_of_exact (h : rational? x = some 0) : x = 0 ∨ x = -0 := by
  obtain ⟨⟨negative, mantissa, exponent⟩, hb, hvalue⟩ := Option.map_eq_some_iff.mp h
  have hmagnitude := Binary.magnitude_of_value (n := 0) (by rw [hvalue, Int.cast_zero])
  obtain rfl : mantissa = 0 := by
    by_contra hne
    have : (0 : ℚ) < mantissa * 2 ^ exponent := by positivity
    simp [this.ne] at hmagnitude
  obtain rfl : exponent = -1074 := by
    obtain h | h := (ofFloat?_canonical hb).normal
    · exact h
    · exact absurd h.1 (Nat.not_le.mpr (Nat.two_pow_pos 52))
  cases negative with
  | false => exact .inl (ofFloat?_inj hb (by decide +kernel))
  | true => exact .inr (ofFloat?_inj hb (by decide +kernel))

end Awk.Number
