import Awk.Proofs.Number.Line
import Awk.Proofs.Number.Whole

/-!
# Sums of whole numbers

The sum of two whole numbers below `2 ^ 53` has at most 54 bits.  As a double it is exact, or it is
odd and loses its last bit; then it is beyond `2 ^ 53` and so is the double.  `Near` says so of any
whole number, `near_round` proves it of rounding and `near_add` of the sum.  Below `2 ^ 53` natural
numbers are doubles, with the value that they have (`rational?_ofNat`).
-/

namespace Awk.Number

open Float.Model (Format UnpackedFloat totalExponent)
open Float.Model.UnpackedFloat

variable {x y : Float} {n : Nat} {i k z : ℤ}

/-! ## Numbers of 53 bits -/

/-- A number of 53 bits, or of 54 with a zero at the end, is a mantissa with zeros behind it or
less. -/
lemma exists_val (hn : 0 < n) (hlt : n < 2 ^ 53 ∨ (n < 2 ^ 54 ∧ Even n)) :
    ∃ m j : Nat, 0 < m ∧ m.log2 = 52 ∧ j ≤ 53 ∧ n * 2 ^ 52 = m * 2 ^ j := by
  by_cases hsmall : n < 2 ^ 53
  · have hlog : n.log2 ≤ 52 := Nat.le_of_lt_succ ((Nat.log2_lt hn.ne').mpr hsmall)
    refine ⟨n * 2 ^ (52 - n.log2), n.log2, Nat.mul_pos hn (Nat.two_pow_pos _), ?_, by omega, ?_⟩
    · rw [log2_mul_two_pow hn]
      omega
    · rw [Nat.mul_assoc, ← Nat.pow_add, Nat.sub_add_cancel hlog]
  · obtain ⟨hlt, q, rfl⟩ := hlt.resolve_left hsmall
    exact ⟨q, 53, by omega, (Nat.log2_eq_iff (by omega)).mpr (by omega), le_rfl, by omega⟩

lemma magnitude_of_val {m j : Nat} (hval : n * 2 ^ 52 = m * 2 ^ j) :
    magnitude m ((j : ℤ) - 52) = n := by
  have hq : (n : ℚ) * 2 ^ 52 = m * 2 ^ j := by exact_mod_cast hval
  rw [magnitude, zpow_sub₀ two_ne_zero, zpow_natCast, mul_div_assoc', ← hq]
  norm_num

lemma rational?_ofNat (hn : n < 2 ^ 53) : rational? (Float.ofNat n) = some (n : ℚ) := by
  rcases Nat.eq_zero_or_pos n with rfl | hpos
  · rw [rational?, show Binary.ofFloat? (Float.ofNat 0) = some ⟨false, 0, -1074⟩ by decide +kernel]
    simp [Binary.value]
  · obtain ⟨m, j, hm, hlog, hj, hval⟩ := exists_val hpos (.inl hn)
    rw [rational?, ofNat_eq_pack hm hlog hval (by omega), ofFloat?_pack hm hlog _ (by omega),
      Option.map_some, ← magnitude_of_val hval]
    simp [Binary.value, magnitude, Sign.toBitVec]

/-! ## Rounding -/

/-- A double near a whole number: it is the number, unless that has more than 53 bits, and then the
double is as far from zero. -/
def Near (z : ℤ) (x : Float) : Prop :=
  x.isNaN = false ∧
    (place x = z ∨ 2 ^ 53 < z ∧ 2 ^ 53 ≤ place x ∨ z < -2 ^ 53 ∧ place x ≤ -2 ^ 53)

lemma near_of_rational (h : rational? x = some (z : ℚ)) : Near z x := by
  obtain ⟨b, hb, -⟩ := Option.map_eq_some_iff.mp h
  exact ⟨isNaN_of_parts hb, .inl (place_of_rational h)⟩

/-- A number of 54 bits with a one at the end is halfway between two doubles. -/
lemma round_odd (s : Sign) {q : Nat} (hlo : 2 ^ 52 ≤ q) (hhi : q < 2 ^ 53) (t : Nat) :
    ∃ (m : Nat) (e : ℤ) (hpos : 0 < m),
      UnpackedFloat.round .binary64 s ((2 * q + 1) * 2 ^ t) (-t) = .finite s m e hpos ∧
        m.log2 = 52 ∧ 1 ≤ e ∧ e ≤ 2 := by
  have hlog : (2 * q + 1).log2 = 53 := (Nat.log2_eq_iff (by omega)).mpr (by omega)
  have htarget : Format.binary64.targetExponent (totalExponent ((2 * q + 1) * 2 ^ t) (-t)) = 1 := by
    have hmin : Format.binary64.minExponent = -1074 := by decide
    have hbits : Format.binary64.mantissaBits = 53 := rfl
    rw [totalExponent, log2_mul_two_pow (by omega), hlog, Format.targetExponent, hmin, hbits]
    omega
  have hfirst : shiftToTargetExponent .binary64 ((2 * q + 1) * 2 ^ t) (-t) .exact =
      (⟨q, true, false⟩, 1) := by
    have hshift : ((⟨(2 * q + 1) * 2 ^ t, false, false⟩ : ExtendedMantissa) >>> (t + 1)) =
        ⟨q, true, false⟩ := by
      change ((⟨(2 * q + 1) * 2 ^ t, false, false⟩ : ExtendedMantissa) >>> t).shiftRightOne = _
      rw [shiftRight_exact, ExtendedMantissa.shiftRightOne]
      simp
      omega
    rw [shiftToTargetExponent, htarget, shiftToExponent,
      show (1 - -(t : ℤ)).toNat = t + 1 by omega, ExtendedMantissa.ofMantissaAndAccuracy, hshift]
    congr 1
    omega
  -- the rounded mantissa may be one too long
  obtain ⟨m, e, hsecond, hm, he⟩ : ∃ m e,
      shiftToTargetExponent .binary64 (q + q % 2) 1 .exact = (⟨m, false, false⟩, e) ∧
        m.log2 = 52 ∧ 1 ≤ e ∧ e ≤ 2 := by
    obtain hlt | heq : q + q % 2 < 2 ^ 53 ∨ q + q % 2 = 2 ^ 53 := by omega
    · have hm : (q + q % 2).log2 = 52 := (Nat.log2_eq_iff (by omega)).mpr (by omega)
      have hshift := shiftToTarget_exact (by omega) hm (by omega : (-1074 : ℤ) ≤ 1) 0
      exact ⟨_, 1, by simpa using hshift, hm, by omega⟩
    · have hm : (2 ^ 52).log2 = 52 := Nat.log2_two_pow
      refine ⟨2 ^ 52, 2, ?_, hm, by omega⟩
      rw [heq]
      exact shiftToTarget_exact (by decide) hm (by omega : (-1074 : ℤ) ≤ 2) 1
  have hpos : 0 < m := Nat.pos_of_ne_zero fun h => by simp [h] at hm
  refine ⟨m, e, hpos, ?_, hm, he⟩
  rw [UnpackedFloat.round, htarget, decreaseExponent]
  dsimp only
  rw [show (-(t : ℤ) - 1).toNat = 0 by omega, Nat.shiftLeft_zero, Int.natCast_zero, Int.sub_zero,
    roundWithAccuracy, hfirst]
  dsimp only
  rw [show (⟨q, true, false⟩ : ExtendedMantissa).roundedMantissa = q + q % 2 from rfl, hsecond]
  exact dif_neg hpos.ne'

lemma near_round (s : Sign) (hn : 0 < n) (hlt : n < 2 ^ 54) (t : Nat) :
    Near (s.apply n) (.ofModel (.pack (UnpackedFloat.round .binary64 s (n * 2 ^ t) (-t)))) := by
  have hnear {m : Nat} {e : ℤ} (hpos : 0 < m) (hm : m.log2 = 52) (he : -1074 ≤ e ∧ e ≤ 971)
      (h : magnitude m e = n ∨ 2 ^ 53 < n ∧ 2 ^ 53 ≤ magnitude m e) :
      Near (s.apply n) (.ofModel (.pack (.finite s m e hpos))) := by
    refine ⟨isNaN_of_parts (ofFloat?_pack hpos hm s he), ?_⟩
    rw [place, unpack_pack hpos hm s he]
    rcases h with h | ⟨h, hle⟩
    · left
      cases s <;> simp [line, Sign.apply, h]
    · right
      cases s with
      | positive => exact .inl ⟨by simp only [Sign.apply]; omega, hle⟩
      | negative => exact .inr ⟨by simp only [Sign.apply]; omega, neg_le_neg hle⟩
  by_cases hval : n < 2 ^ 53 ∨ (n < 2 ^ 54 ∧ Even n)
  · obtain ⟨m, j, hpos, hm, hj, hval⟩ := exists_val hn hval
    rw [round_of_val hpos hm s hval]
    exact hnear hpos hm (by omega) (.inl (magnitude_of_val hval))
  · obtain ⟨hge, hodd⟩ := not_or.mp hval
    obtain ⟨q, rfl⟩ := Nat.not_even_iff_odd.mp fun h => hodd ⟨hlt, h⟩
    obtain ⟨m, e, hpos, hround, hm, hlo, hhi⟩ := round_odd s (by omega : 2 ^ 52 ≤ q) (by omega) t
    have hmantissa : (2 ^ (52 : ℤ) : ℚ) ≤ m := by
      exact_mod_cast ((Nat.log2_eq_iff hpos.ne').mp hm).1
    have hexponent : (2 ^ (1 : ℤ) : ℚ) ≤ 2 ^ e := zpow_le_zpow_right₀ one_le_two hlo
    rw [hround]
    refine hnear hpos hm (by omega) (.inr ⟨by omega, ?_⟩)
    calc (2 ^ 53 : ℚ) = 2 ^ (52 : ℤ) * 2 ^ (1 : ℤ) := by norm_num
      _ ≤ magnitude m e := mul_le_mul hmantissa hexponent (by positivity) (by positivity)

lemma near_normalize (hz : z.natAbs < 2 ^ 54) (t : Nat) :
    Near z (.ofModel (.pack (UnpackedFloat.normalize .binary64 (z * 2 ^ t) (-t) .positive))) := by
  have hpow : (0 : ℤ) < 2 ^ t := by positivity
  have habs : (z * 2 ^ t).natAbs = z.natAbs * 2 ^ t := by
    rw [Int.natAbs_mul, Int.natAbs_pow]
    rfl
  rw [UnpackedFloat.normalize]
  rcases lt_trichotomy z 0 with hneg | rfl | hpos
  · have hnear := near_round .negative (by omega : 0 < z.natAbs) hz t
    have hprod := mul_neg_of_neg_of_pos hneg hpow
    rw [Int.compare_eq_lt.mpr hprod]
    dsimp only
    rw [show (-(z * 2 ^ t)).toNat = z.natAbs * 2 ^ t by omega]
    rwa [Sign.apply, show -(z.natAbs : ℤ) = z by omega] at hnear
  · rw [zero_mul]
    exact near_of_rational (x := Float.ofNat 0) (rational?_ofNat (by decide))
  · have hnear := near_round .positive (by omega : 0 < z.natAbs) hz t
    have hprod := mul_pos hpos hpow
    rw [Int.compare_eq_gt.mpr hprod]
    dsimp only
    rw [show (z * 2 ^ t).toNat = z.natAbs * 2 ^ t by omega]
    rwa [Sign.apply, show (z.natAbs : ℤ) = z by omega] at hnear

/-! ## Sums -/

lemma unpack_zero_of_exact (h : rational? x = some 0) : ∃ s, x.toModel.unpack = .zero s := by
  rcases eq_zero_of_exact h with rfl | rfl
  · exact ⟨.positive, rfl⟩
  · exact ⟨.negative, rfl⟩

/-- A mantissa brought to a smaller exponent. -/
lemma shift_common {m j c : Nat} (hval : n * 2 ^ 52 = m * 2 ^ j) (hc : c ≤ j) (hc' : c ≤ 52) :
    m <<< ((j : ℤ) - 52 - ((c : ℤ) - 52)).toNat = n * 2 ^ (52 - c) := by
  refine Nat.eq_of_mul_eq_mul_right (Nat.two_pow_pos c) ?_
  rw [Nat.shiftLeft_eq, show ((j : ℤ) - 52 - ((c : ℤ) - 52)).toNat = j - c by omega, Nat.mul_assoc,
    ← Nat.pow_add, Nat.sub_add_cancel hc, ← hval, Nat.mul_assoc, ← Nat.pow_add,
    Nat.sub_add_cancel hc']

lemma apply_natAbs (z : ℤ) (t : Nat) :
    (if z < 0 then Sign.negative else .positive).apply ((z.natAbs * 2 ^ t : Nat) : ℤ) =
      z * 2 ^ t := by
  split_ifs with hz
  · rw [Sign.apply, Nat.cast_mul, Nat.cast_natAbs, abs_of_neg hz]
    push_cast
    ring
  · rw [Sign.apply, Nat.cast_mul, Nat.cast_natAbs, abs_of_nonneg (not_lt.mp hz)]
    push_cast
    ring

/-- The sum of two whole numbers below `2 ^ 53`. -/
lemma near_add (hx : rational? x = some (i : ℚ)) (hy : rational? y = some (k : ℚ))
    (hi : i.natAbs < 2 ^ 53) (hk : k.natAbs < 2 ^ 53) : Near (i + k) (x + y) := by
  change Near (i + k) (.ofModel (.pack (.add .binary64 x.toModel.unpack y.toModel.unpack)))
  rcases eq_or_ne i 0 with rfl | hi0
  · obtain ⟨s, hzero⟩ := unpack_zero_of_exact (by simpa using hx)
    rw [hzero, zero_add]
    rcases eq_or_ne k 0 with rfl | hk0
    · obtain ⟨s', hzero'⟩ := unpack_zero_of_exact (by simpa using hy)
      rw [hzero']
      cases s <;> cases s' <;> exact ⟨rfl, .inl Int.cast_zero.symm⟩
    · obtain ⟨m, j, hpos, rfl, hm, hj, -⟩ := eq_pack_of_exact hy hk0
      rw [unpack_pack hpos hm _ (by omega)]
      exact near_of_rational hy
  obtain ⟨m, j, hpos, rfl, hm, hj, hval⟩ := eq_pack_of_exact hx hi0
  rw [unpack_pack hpos hm _ (by omega)]
  rcases eq_or_ne k 0 with rfl | hk0
  · obtain ⟨s, hzero⟩ := unpack_zero_of_exact (by simpa using hy)
    rw [hzero, add_zero]
    exact near_of_rational hx
  · obtain ⟨m', j', hpos', rfl, hm', hj', hval'⟩ := eq_pack_of_exact hy hk0
    have hlog := (log2_of_val hpos hm hval).2
    have hlog' := (log2_of_val hpos' hm' hval').2
    have hlt := (Nat.log2_lt (by omega)).mpr hi
    have hlt' := (Nat.log2_lt (by omega)).mpr hk
    have hmin : min ((j : ℤ) - 52) ((j' : ℤ) - 52) = (min j j' : Nat) - 52 := by omega
    rw [unpack_pack hpos' hm' _ (by omega), UnpackedFloat.add]
    simp only [decreaseExponent, hmin]
    rw [shift_common hval (min_le_left _ _) (by omega),
      shift_common hval' (min_le_right _ _) (by omega), apply_natAbs, apply_natAbs, ← add_mul,
      show ((min j j' : Nat) : ℤ) - 52 = -(52 - min j j' : Nat) by omega]
    exact near_normalize (by omega) _

end Awk.Number
