import Flowline.Number.Double
import Mathlib

/-! # Doubles and their bits

A double is what its bits say (`parts?_ofMagnitude`). The bits that a whole number is rounded to are made of its
exponent and of its mantissa, rounded to 53 bits. -/

namespace Flowline.Double
open Float.Model Float.Model.UnpackedFloat

theorem infinityBits_eq : infinityBits = 2047 * 2 ^ 52 := rfl

/-! ## The parts of bits -/

section Bits

variable {b c : BitVec 64}

theorem toNat_unpackMantissa (b : BitVec 64) : (@unpackMantissa Format.binary64 b).toNat = b.toNat % 2 ^ 52 := by
  rw [unpackMantissa_def, BitVec.extractLsb'_toNat, Nat.shiftRight_eq_div_pow]
  exact congrArg (· % 2 ^ 52) (Nat.div_one b.toNat)

theorem toNat_unpackExponent (b : BitVec 64) :
    (@unpackExponent Format.binary64 b).toNat = b.toNat / 2 ^ 52 % 2 ^ 11 := by
  rw [unpackExponent_def, BitVec.extractLsb'_toNat, Nat.shiftRight_eq_div_pow]

theorem toNat_unpackSign (b : BitVec 64) : (@unpackSign Format.binary64 b).toNat = b.toNat / 2 ^ 63 % 2 := by
  rw [unpackSign_def, BitVec.extractLsb'_toNat, Nat.shiftRight_eq_div_pow]
  rfl

theorem isNaNBits_eq_false (h : b.toNat % 2 ^ 63 ≤ infinityBits) : @isNaNBits Format.binary64 b = false := by
  rw [infinityBits_eq] at h
  unfold isNaNBits
  rw [decide_eq_false_iff_not]
  rintro ⟨hexponent, hmantissa⟩
  refine hmantissa (BitVec.eq_of_toNat_eq ?_)
  replace hexponent := congrArg BitVec.toNat hexponent
  rw [toNat_unpackExponent] at hexponent
  rw [toNat_unpackMantissa]
  change b.toNat / 2 ^ 52 % 2 ^ 11 = 2047 at hexponent
  change b.toNat % 2 ^ 52 = 0
  omega

/-- Bits that differ in their sign alone stand for opposite values. -/
theorem unpack_flipped (h : c.toNat = 2 ^ 63 + b.toNat) :
    UnpackedFloat.unpack Format.binary64 c = (UnpackedFloat.unpack Format.binary64 b).neg := by
  have hsmall : b.toNat < 2 ^ 63 := by
    have hc := c.isLt
    omega
  have hmantissa : @unpackMantissa Format.binary64 c = @unpackMantissa Format.binary64 b := by
    apply BitVec.eq_of_toNat_eq
    rw [toNat_unpackMantissa, toNat_unpackMantissa, h]
    omega
  have hexponent : @unpackExponent Format.binary64 c = @unpackExponent Format.binary64 b := by
    apply BitVec.eq_of_toNat_eq
    rw [toNat_unpackExponent, toNat_unpackExponent, h]
    omega
  have hnegative : @unpackSign Format.binary64 c = 1#1 := by
    apply BitVec.eq_of_toNat_eq
    rw [toNat_unpackSign, h]
    change (2 ^ 63 + b.toNat) / 2 ^ 63 % 2 = 1
    omega
  have hpositive : @unpackSign Format.binary64 b = 0#1 := by
    apply BitVec.eq_of_toNat_eq
    rw [toNat_unpackSign]
    change b.toNat / 2 ^ 63 % 2 = 0
    omega
  unfold UnpackedFloat.unpack
  simp only [hmantissa, hexponent, hnegative, hpositive]
  split
  · split <;> rfl
  split
  · split <;> rfl
  · rfl

end Bits

/-! ## Magnitudes -/

/-- Bits that stand for no NaN are the bits of their double. -/
theorem toBits_ofBits {b : UInt64} (h : b.toNat % 2 ^ 63 ≤ infinityBits) : (Float.ofBits b).toBits = b := by
  have hpack := @pack_unpack Format.binary64 b.toBitVec (by decide)
  rw [isNaNBits_eq_false h, if_neg Bool.false_ne_true] at hpack
  exact UInt64.toBitVec_inj.1 hpack

variable {negative : Bool} {bits : Nat}

theorem toBits_ofMagnitude (h : bits ≤ infinityBits) :
    (ofMagnitude negative bits).toBits.toNat = (if negative then 2 ^ 63 else 0) + bits := by
  rw [infinityBits_eq] at h
  have hnat : (UInt64.ofNat (if negative then twoTo 63 + bits else bits)).toNat = (if negative then 2 ^ 63 else 0) + bits := by
    rw [UInt64.toNat_ofNat']
    cases negative <;> simp only [twoTo, Nat.pow_eq, Bool.false_eq_true, if_true, if_false] <;> omega
  rw [ofMagnitude, toBits_ofBits, hnat]
  rw [hnat, infinityBits_eq]
  cases negative <;> simp only [Bool.false_eq_true, if_true, if_false] <;> omega

theorem ofMagnitude_neg (h : bits ≤ infinityBits) : -ofMagnitude false bits = ofMagnitude true bits := by
  have hpositive : (UInt64.ofNat bits).toNat = bits := by
    rw [infinityBits_eq] at h
    exact UInt64.toNat_ofNat_of_lt' (by rw [UInt64.size]; omega)
  have hnegative : (UInt64.ofNat (twoTo 63 + bits)).toNat = 2 ^ 63 + bits := by
    rw [infinityBits_eq] at h
    exact UInt64.toNat_ofNat_of_lt' (by rw [UInt64.size, twoTo, Nat.pow_eq]; omega)
  have hbits : (ofMagnitude false bits).toBits = UInt64.ofNat bits := by
    refine toBits_ofBits ?_
    rw [if_neg Bool.false_ne_true, hpositive]
    exact (Nat.mod_le _ _).trans h
  have hflipped : UnpackedFloat.unpack Format.binary64 (UInt64.ofNat (twoTo 63 + bits)).toBitVec =
      (UnpackedFloat.unpack Format.binary64 (ofMagnitude false bits).toBits.toBitVec).neg := by
    rw [hbits]
    exact unpack_flipped (hnegative.trans (congrArg _ hpositive.symm))
  exact congrArg (fun u => Float.ofModel (Float.Model.pack u)) hflipped.symm

/-- The value of a finite magnitude. -/
def partsOf (negative : Bool) (bits : Nat) : Parts :=
  if bits / 2 ^ 52 = 0 then ⟨negative, bits, -1074⟩
  else ⟨negative, 2 ^ 52 + bits % 2 ^ 52, (bits / 2 ^ 52 : Nat) - 1075⟩

theorem parts?_ofMagnitude (h : bits < infinityBits) :
    parts? (ofMagnitude negative bits) = some (partsOf negative bits) := by
  have hbits : (ofMagnitude negative bits).toBits.toNat = _ := toBits_ofMagnitude (Nat.le_of_lt h)
  rw [infinityBits_eq] at h
  unfold parts?
  simp only [hbits, twoTo, Nat.pow_eq]
  have hnegative : decide (2 ^ 63 ≤ (if negative then 2 ^ 63 else 0) + bits) = negative := by
    cases negative
    · simp only [Bool.false_eq_true, if_false, decide_eq_false_iff_not]
      omega
    · simp
  have hbiased : ((if negative then 2 ^ 63 else 0) + bits) / 2 ^ 52 % 2 ^ 11 = bits / 2 ^ 52 := by
    cases negative <;> simp only [Bool.false_eq_true, if_true, if_false] <;> omega
  have hfraction : ((if negative then 2 ^ 63 else 0) + bits) % 2 ^ 52 = bits % 2 ^ 52 := by
    cases negative <;> simp only [Bool.false_eq_true, if_true, if_false] <;> omega
  rw [hnegative, hbiased, hfraction, if_neg (by omega), partsOf]
  split
  · next hzero => rw [Nat.mod_eq_of_lt (by omega)]
  · rfl

theorem parts?_infinity : parts? (ofMagnitude negative infinityBits) = none := by
  cases negative <;> decide +kernel

/-- NaN has no parts. -/
theorem isNaN_eq_false_of_parts? {x : Float} (h : (parts? x).isSome) : x.isNaN = false := by
  refine Bool.eq_false_iff.2 fun hnan => ?_
  have hbits : x.toBits = nan.toBits := by
    have hpacked := (isNaN_unpack_iff_of_valid x.toModel.valid (by decide)).1 hnan
    refine UInt64.toBitVec_inj.1 (hpacked.trans ?_)
    decide +kernel
  have hparts : parts? x = parts? nan := by simp only [parts?, hbits]
  rw [hparts] at h
  revert h
  decide +kernel

/-! ## Whole numbers -/

theorem roundDiv_one (n : Nat) : roundDiv n 1 = n := by
  simp [roundDiv, Nat.mod_one]

theorem log2Ratio_one {n : Nat} (hn : n ≠ 0) : log2Ratio n 1 = n.log2 := by
  have hone : Nat.log2 1 = 0 := rfl
  have hle : 2 ^ n.log2 ≤ n := Nat.log2_self_le hn
  simp [log2Ratio, hone, hle]

theorem roundDiv_bounds (num den : Nat) : num / den ≤ roundDiv num den ∧ roundDiv num den ≤ num / den + 1 := by
  unfold roundDiv
  dsimp only
  split
  · omega
  split
  · omega
  · omega

variable {n : Nat}

/-- The mantissa and the exponent that a whole number is rounded to, with 52 bits after the first. -/
theorem nearestBits_of_small (hn : n ≠ 0) (h : n.log2 < 52) :
    nearestBits n 1 = (n.log2 + 1022) * 2 ^ 52 + n * 2 ^ (52 - n.log2) := by
  have hq : max (log2Ratio n 1 - 52) (-1074) = (n.log2 : Int) - 52 := by
    rw [log2Ratio_one hn]
    omega
  have hshift : (-((n.log2 : Int) - 52)).toNat = 52 - n.log2 := by omega
  have hexponent : ((n.log2 : Int) - 52 + 1074).toNat = n.log2 + 1022 := by omega
  simp only [nearestBits, if_neg hn, hq, if_neg (show ¬ (0 : Int) ≤ n.log2 - 52 by omega), hshift, hexponent,
    roundDiv_one, twoTo, Nat.pow_eq]

theorem nearestBits_of_large (hn : n ≠ 0) (h : 52 ≤ n.log2) :
    nearestBits n 1 = (n.log2 + 1022) * 2 ^ 52 + roundDiv n (2 ^ (n.log2 - 52)) := by
  have hq : max (log2Ratio n 1 - 52) (-1074) = (n.log2 : Int) - 52 := by
    rw [log2Ratio_one hn]
    omega
  have hshift : ((n.log2 : Int) - 52).toNat = n.log2 - 52 := by omega
  have hexponent : ((n.log2 : Int) - 52 + 1074).toNat = n.log2 + 1022 := by omega
  simp only [nearestBits, if_neg hn, hq, if_pos (show (0 : Int) ≤ n.log2 - 52 by omega), hshift, hexponent,
    twoTo, Nat.pow_eq, Nat.one_mul]

/-- A whole number has a mantissa between two powers of two. -/
theorem mantissa_bounds (hn : n ≠ 0) (h : 52 ≤ n.log2) :
    2 ^ 52 ≤ n / 2 ^ (n.log2 - 52) ∧ n / 2 ^ (n.log2 - 52) < 2 ^ 53 := by
  have hle : 2 ^ n.log2 ≤ n := Nat.log2_self_le hn
  have hlt : n < 2 ^ (n.log2 + 1) := Nat.lt_log2_self
  have hpos : 0 < 2 ^ (n.log2 - 52) := Nat.two_pow_pos _
  constructor
  · rw [Nat.le_div_iff_mul_le hpos, ← Nat.pow_add]
    rwa [show 52 + (n.log2 - 52) = n.log2 by omega]
  · rw [Nat.div_lt_iff_lt_mul hpos, ← Nat.pow_add]
    rwa [show 53 + (n.log2 - 52) = n.log2 + 1 by omega]

theorem isWholeMagnitude_zero (q : Int) : isWholeMagnitude 0 q = true := by
  simp [isWholeMagnitude]

/-- A whole number of up to 53 bits has them at the front of its mantissa. -/
theorem mantissa_bounds_of_small (hn : n ≠ 0) (h : n.log2 ≤ 52) :
    2 ^ 52 ≤ n * 2 ^ (52 - n.log2) ∧ n * 2 ^ (52 - n.log2) < 2 * 2 ^ 52 := by
  have hle : 2 ^ n.log2 ≤ n := Nat.log2_self_le hn
  have hlt : n < 2 ^ (n.log2 + 1) := Nat.lt_log2_self
  have hpow : 2 ^ n.log2 * 2 ^ (52 - n.log2) = 2 ^ 52 := by
    rw [← Nat.pow_add]
    congr 1
    omega
  constructor
  · exact hpow ▸ Nat.mul_le_mul_right _ hle
  · rw [← hpow, ← Nat.mul_assoc, ← Nat.pow_succ']
    exact Nat.mul_lt_mul_of_pos_right hlt (Nat.two_pow_pos _)

theorem isWhole_ofMagnitude {bits : Nat} (h : bits < infinityBits) : isWhole (ofMagnitude negative bits) =
    isWholeMagnitude (partsOf negative bits).mantissa (partsOf negative bits).exponent := by
  rw [isWhole, parts?_ofMagnitude h]

/-- The numeral of a whole number that is no double is infinity. -/
theorem ofDecimal_of_infinityBits_le (h : infinityBits ≤ nearestBits n 1) :
    ofDecimal negative n 0 = ofMagnitude negative infinityBits := by
  have hne : n ≠ 0 := by
    rintro rfl
    exact absurd h (by decide)
  have hbits : n * tenTo (0 : Int).toNat = n := Nat.mul_one n
  unfold ofDecimal
  dsimp only
  rw [if_neg hne]
  split
  · rfl
  · rw [if_neg (by omega), if_pos (Int.le_refl 0), hbits, Nat.min_eq_right h]

/-! ## Opposite numbers -/

theorem ofDecimal_neg (digits : Nat) (exponent : Int) :
    -ofDecimal false digits exponent = ofDecimal true digits exponent := by
  unfold ofDecimal
  dsimp only
  split
  · exact ofMagnitude_neg (by decide)
  split
  · exact ofMagnitude_neg (Nat.le_refl _)
  split
  · exact ofMagnitude_neg (by decide)
  · exact ofMagnitude_neg (Nat.min_le_right _ _)

theorem isWhole_ofMagnitude_neg (h : bits ≤ infinityBits) :
    isWhole (ofMagnitude true bits) = isWhole (ofMagnitude false bits) := by
  rcases Nat.lt_or_eq_of_le h with hfinite | rfl
  · rw [isWhole_ofMagnitude hfinite, isWhole_ofMagnitude hfinite]
    unfold partsOf
    split <;> rfl
  · rw [isWhole, isWhole, parts?_infinity, parts?_infinity]

theorem isWhole_ofDecimal_neg (digits : Nat) (exponent : Int) :
    isWhole (ofDecimal true digits exponent) = isWhole (ofDecimal false digits exponent) := by
  unfold ofDecimal
  dsimp only
  split
  · exact isWhole_ofMagnitude_neg (by decide)
  split
  · exact isWhole_ofMagnitude_neg (Nat.le_refl _)
  split
  · exact isWhole_ofMagnitude_neg (by decide)
  · exact isWhole_ofMagnitude_neg (Nat.min_le_right _ _)

end Flowline.Double
