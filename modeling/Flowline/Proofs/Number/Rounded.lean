import Flowline.Proofs.Number.Double
import Flowline.Proofs.Number.Order

/-! # Whole numbers as doubles

Finite doubles are in the order of their bits, taken with their sign (`place?_ofMagnitude`,
`signedPlace_strictMono`). A whole number is rounded to 53 significant bits, a half to the even neighbour, so
that whole numbers as doubles are in the order of the rounded numbers, and have them as their whole parts. -/

namespace Flowline.Double
open Float.Model Float.Model.UnpackedFloat

/-! ## The order of bits -/

/-- The bits of a double and its sign as one number. -/
def signed (negative : Bool) (bits : Nat) : Int := if negative then -(bits : Int) else bits

/-- The place of a positive double among those of its sign. -/
def magnitudePlace (bits : Nat) : Int ×ₗ Int :=
  toLex ((partsOf false bits).exponent, ((partsOf false bits).mantissa : Int))

/-- The place of a finite double in the order, by its bits. -/
def signedPlace (z : Int) : Int ×ₗ Int ×ₗ Int :=
  if z = 0 then toLex (0, toLex (0, 0))
  else if 0 < z then toLex (1, magnitudePlace z.natAbs)
  else toLex (-1, toLex (-(partsOf false z.natAbs).exponent, -((partsOf false z.natAbs).mantissa : Int)))

theorem magnitudePlace_lt {b c : Nat} (h : b < c) : magnitudePlace b < magnitudePlace c := by
  unfold magnitudePlace partsOf
  rw [Prod.Lex.toLex_lt_toLex]
  split <;> split <;> dsimp only <;> omega

theorem signedPlace_strictMono : StrictMono signedPlace := by
  intro y z h
  unfold signedPlace
  by_cases hy : 0 < y
  · have hlt : magnitudePlace y.natAbs < magnitudePlace z.natAbs := magnitudePlace_lt (by omega)
    rw [if_neg (by omega), if_pos hy, if_neg (by omega), if_pos (by omega)]
    exact Prod.Lex.toLex_lt_toLex.2 (.inr ⟨rfl, hlt⟩)
  · by_cases hz : z < 0
    · have hlt : magnitudePlace z.natAbs < magnitudePlace y.natAbs := magnitudePlace_lt (by omega)
      rw [if_neg (by omega), if_neg hy, if_neg (by omega), if_neg (by omega)]
      refine Prod.Lex.toLex_lt_toLex.2 (.inr ⟨rfl, ?_⟩)
      rw [magnitudePlace, magnitudePlace, Prod.Lex.toLex_lt_toLex] at hlt
      rw [Prod.Lex.toLex_lt_toLex]
      dsimp only at hlt ⊢
      omega
    · have hsigns : (y < 0 ∧ z = 0) ∨ (y < 0 ∧ 0 < z) ∨ (y = 0 ∧ 0 < z) := by omega
      rcases hsigns with ⟨hy, rfl⟩ | ⟨hy, hz⟩ | ⟨rfl, hz⟩
      · rw [if_neg (by omega), if_neg (by omega), if_pos rfl]
        exact Prod.Lex.toLex_lt_toLex.2 (.inl (show (-1 : Int) < 0 by decide))
      · rw [if_neg (by omega), if_neg (by omega), if_neg (by omega), if_pos hz]
        exact Prod.Lex.toLex_lt_toLex.2 (.inl (show (-1 : Int) < 1 by decide))
      · rw [if_pos rfl, if_neg (by omega), if_pos hz]
        exact Prod.Lex.toLex_lt_toLex.2 (.inl (show (0 : Int) < 1 by decide))

variable {bits : Nat} {negative : Bool}

theorem place?_neg (u : UnpackedFloat) : place? u.neg = (place? u).map fun p =>
    toLex (-(ofLex p).1, toLex (-(ofLex (ofLex p).2).1, -(ofLex (ofLex p).2).2)) := by
  cases u with
  | notANumber => rfl
  | infinity s => cases s <;> rfl
  | zero s => cases s <;> rfl
  | finite s m e h => cases s <;> simp [UnpackedFloat.neg, place?]

theorem toNat_append_mantissa (m : BitVec 52) : (1#1 ++ m).toNat = 2 ^ 52 + m.toNat := by
  rw [BitVec.toNat_append, ← Nat.shiftLeft_add_eq_or_of_lt m.isLt]
  rfl

theorem place?_unpack {b : BitVec 64} (h : b.toNat < infinityBits) :
    place? (UnpackedFloat.unpack Format.binary64 b) = some (signedPlace b.toNat) := by
  rw [infinityBits_eq] at h
  have hmantissa := toNat_unpackMantissa b
  have hexponent := toNat_unpackExponent b
  have hsign : @unpackSign Format.binary64 b = 0#1 := by
    apply BitVec.eq_of_toNat_eq
    rw [toNat_unpackSign]
    change b.toNat / 2 ^ 63 % 2 = 0
    omega
  have hfinite : @unpackExponent Format.binary64 b ≠ -1#11 := by
    intro heq
    rw [heq] at hexponent
    change 2047 = _ at hexponent
    omega
  have hzero : @unpackExponent Format.binary64 b = 0#11 ↔ b.toNat / 2 ^ 52 = 0 := by
    rw [← BitVec.toNat_inj, hexponent]
    change _ = 0 ↔ _
    omega
  have hblank : @unpackMantissa Format.binary64 b = 0#52 ↔ b.toNat % 2 ^ 52 = 0 := by
    rw [← BitVec.toNat_inj, hmantissa]
    rfl
  unfold UnpackedFloat.unpack
  dsimp only
  rw [hsign]
  change place? (if @unpackExponent Format.binary64 b = -1#11 then _ else
    if @unpackExponent Format.binary64 b = 0#11 then _ else _) = _
  rw [if_neg hfinite]
  have hpos (hb : b.toNat ≠ 0) : signedPlace b.toNat = toLex (1, magnitudePlace b.toNat) := by
    rw [signedPlace, if_neg (by omega), if_pos (by omega), Int.natAbs_natCast]
  by_cases hsmall : b.toNat / 2 ^ 52 = 0
  · rw [if_pos (hzero.2 hsmall)]
    by_cases hb : b.toNat % 2 ^ 52 = 0
    · have hnone : b.toNat = 0 := by omega
      rw [dif_pos (hblank.2 hb), hnone]
      rfl
    · rw [dif_neg (mt hblank.1 hb), hpos (by omega), magnitudePlace, partsOf, if_pos hsmall]
      refine congrArg some (congrArg (fun p => toLex ((1 : Int), toLex p)) (Prod.ext ?_ ?_))
      · change ((@unpackExponent Format.binary64 b).toNat : Int) - (1023 + 52) + 1 = -1074
        rw [hexponent]
        omega
      · change ((@unpackMantissa Format.binary64 b).toNat : Int) = b.toNat
        rw [hmantissa]
        omega
  · rw [if_neg (mt hzero.1 hsmall), hpos (by omega), magnitudePlace, partsOf, if_neg hsmall]
    refine congrArg some (congrArg (fun p => toLex ((1 : Int), toLex p)) (Prod.ext ?_ ?_))
    · change ((@unpackExponent Format.binary64 b).toNat : Int) - (1023 + 52) = (b.toNat / 2 ^ 52 : Nat) - 1075
      rw [hexponent]
      omega
    · change ((1#1 ++ @unpackMantissa Format.binary64 b).toNat : Int) = (2 ^ 52 + b.toNat % 2 ^ 52 : Nat)
      rw [toNat_append_mantissa, hmantissa]

theorem signedPlace_neg (n : Nat) : signedPlace (-n) = toLex (-(ofLex (signedPlace n)).1,
    toLex (-(ofLex (ofLex (signedPlace n)).2).1, -(ofLex (ofLex (signedPlace n)).2).2)) := by
  by_cases hn : n = 0
  · subst hn
    rfl
  · have hpos : signedPlace n = toLex (1, magnitudePlace n) := by
      rw [signedPlace, if_neg (by omega), if_pos (by omega), Int.natAbs_natCast]
    rw [hpos, signedPlace, if_neg (by omega), if_neg (by omega), Int.natAbs_neg, Int.natAbs_natCast]
    rfl

/-- The place of a finite double is that of its bits. -/
theorem place?_ofMagnitude (h : bits < infinityBits) :
    place? (ofMagnitude negative bits).toModel.unpack = some (signedPlace (signed negative bits)) := by
  have hbits (negative : Bool) : (ofMagnitude negative bits).toBits.toNat = _ := toBits_ofMagnitude (Nat.le_of_lt h)
  have hpositive : place? (ofMagnitude false bits).toModel.unpack = some (signedPlace bits) := by
    have hnat : (ofMagnitude false bits).toBits.toBitVec.toNat = bits := by simpa using hbits false
    have hplace := place?_unpack (b := (ofMagnitude false bits).toBits.toBitVec) (by rwa [hnat])
    rwa [hnat] at hplace
  cases negative with
  | false => exact hpositive
  | true =>
    have hflipped : (ofMagnitude true bits).toModel.unpack = (ofMagnitude false bits).toModel.unpack.neg := by
      refine unpack_flipped ?_
      have hnegative : (ofMagnitude true bits).toBits.toBitVec.toNat = 2 ^ 63 + bits := hbits true
      have hnat : (ofMagnitude false bits).toBits.toBitVec.toNat = bits := by simpa using hbits false
      exact hnegative.trans (congrArg _ hnat.symm)
    rw [hflipped, place?_neg, hpositive]
    exact congrArg some (signedPlace_neg bits).symm

/-! ## Rounding -/

/-- A natural number rounded to 53 significant bits. -/
def nearestNat (n : Nat) : Nat :=
  if n.log2 < 52 then n else roundDiv n (2 ^ (n.log2 - 52)) * 2 ^ (n.log2 - 52)

/-- A whole number rounded to 53 significant bits, which is a double if it is below `2 ^ 1024`. -/
def nearestWhole (n : Int) : Int := if n < 0 then -(nearestNat n.natAbs : Int) else nearestNat n.natAbs

theorem roundDiv_mono {a b d : Nat} (h : a ≤ b) : roundDiv a d ≤ roundDiv b d := by
  have hquotient : a / d ≤ b / d := Nat.div_le_div_right h
  rcases Nat.lt_or_eq_of_le hquotient with hlt | heq
  · have ha := (roundDiv_bounds a d).2
    have hb := (roundDiv_bounds b d).1
    omega
  · have ha := Nat.div_add_mod a d
    have hb := Nat.div_add_mod b d
    rw [heq] at ha
    have hremainder : a % d ≤ b % d := by omega
    unfold roundDiv
    rw [heq]
    dsimp only
    split <;> split <;> (try split) <;> (try split) <;> omega

/-- The bits and the value of a double: both are made of an exponent and a mantissa, which is one of 53 bits
or the next power of two. -/
structure Scaled (bits value exponent mantissa : Nat) : Prop where
  bits_eq : bits = (exponent + 1022) * 2 ^ 52 + mantissa
  value_eq : value * 2 ^ 52 = mantissa * 2 ^ exponent
  le_mantissa : 2 ^ 52 ≤ mantissa
  mantissa_le : mantissa ≤ 2 ^ 53

namespace Scaled

variable {value exponent mantissa bits' value' exponent' mantissa' : Nat}

theorem value_lt (h : Scaled bits value exponent mantissa) (h' : Scaled bits' value' exponent' mantissa')
    (hlt : bits < bits') : value < value' := by
  have hbits := h.bits_eq
  have hbits' := h'.bits_eq
  have hlow := h.le_mantissa
  have hhigh := h.mantissa_le
  have hlow' := h'.le_mantissa
  have hhigh' := h'.mantissa_le
  refine Nat.lt_of_mul_lt_mul_right (a := 2 ^ 52) ?_
  rw [h.value_eq, h'.value_eq]
  rcases Nat.lt_trichotomy exponent exponent' with hless | rfl | hmore
  · obtain ⟨k, rfl⟩ := Nat.exists_eq_add_of_lt hless
    have hgap : mantissa < mantissa' * 2 ^ (k + 1) := by
      rcases Nat.eq_zero_or_pos k with rfl | hk
      · omega
      · have hpow : 2 ^ 2 ≤ 2 ^ (k + 1) := Nat.pow_le_pow_right (by decide) (by omega)
        have hmul : mantissa' * 2 ^ 2 ≤ mantissa' * 2 ^ (k + 1) := Nat.mul_le_mul_left _ hpow
        omega
    calc mantissa * 2 ^ exponent < mantissa' * 2 ^ (k + 1) * 2 ^ exponent :=
          Nat.mul_lt_mul_of_pos_right hgap (Nat.two_pow_pos _)
      _ = mantissa' * 2 ^ (exponent + k + 1) := by
          rw [Nat.mul_assoc, ← Nat.pow_add]
          congr 2
          omega
  · exact Nat.mul_lt_mul_of_pos_right (by omega) (Nat.two_pow_pos _)
  · omega

theorem value_eq_of_bits_eq (h : Scaled bits value exponent mantissa) (h' : Scaled bits value' exponent' mantissa') :
    value = value' := by
  have hbits := h.bits_eq
  have hbits' := h'.bits_eq
  have hlow := h.le_mantissa
  have hhigh := h.mantissa_le
  have hlow' := h'.le_mantissa
  have hhigh' := h'.mantissa_le
  refine Nat.mul_right_cancel (m := 2 ^ 52) (by decide) ?_
  rw [h.value_eq, h'.value_eq]
  rcases Nat.lt_trichotomy exponent exponent' with hless | rfl | hmore
  · obtain rfl : exponent' = exponent + 1 := by omega
    obtain rfl : mantissa = 2 * mantissa' := by omega
    rw [Nat.pow_succ, Nat.mul_comm 2, Nat.mul_assoc, Nat.mul_comm 2]
  · congr 1
    omega
  · obtain rfl : exponent = exponent' + 1 := by omega
    obtain rfl : mantissa' = 2 * mantissa := by omega
    rw [Nat.pow_succ, Nat.mul_comm 2, Nat.mul_assoc, Nat.mul_comm 2]

theorem bits_lt_iff (h : Scaled bits value exponent mantissa) (h' : Scaled bits' value' exponent' mantissa') :
    bits < bits' ↔ value < value' := by
  rcases Nat.lt_trichotomy bits bits' with hlt | rfl | hgt
  · exact iff_of_true hlt (h.value_lt h' hlt)
  · rw [h.value_eq_of_bits_eq h']
    exact iff_of_false (Nat.lt_irrefl _) (Nat.lt_irrefl _)
  · exact iff_of_false (Nat.lt_asymm hgt) (Nat.lt_asymm (h'.value_lt h hgt))

end Scaled

variable {n : Nat}

theorem exists_scaled (hn : n ≠ 0) : ∃ mantissa, Scaled (nearestBits n 1) (nearestNat n) n.log2 mantissa := by
  rcases Nat.lt_or_ge n.log2 52 with hsmall | hlarge
  · obtain ⟨hlow, hhigh⟩ := mantissa_bounds_of_small hn (Nat.le_of_lt hsmall)
    refine ⟨n * 2 ^ (52 - n.log2), nearestBits_of_small hn hsmall, ?_, hlow, Nat.le_of_lt hhigh⟩
    rw [nearestNat, if_pos hsmall, Nat.mul_assoc, ← Nat.pow_add]
    congr 2
    omega
  · obtain ⟨hlow, hhigh⟩ := mantissa_bounds hn hlarge
    obtain ⟨hfloor, hceil⟩ := roundDiv_bounds n (2 ^ (n.log2 - 52))
    refine ⟨_, nearestBits_of_large hn hlarge, ?_, by omega, by omega⟩
    rw [nearestNat, if_neg (Nat.not_lt.2 hlarge), Nat.mul_assoc, ← Nat.pow_add]
    congr 2
    omega

theorem nearestBits_pos (hn : n ≠ 0) : 0 < nearestBits n 1 ∧ 0 < nearestNat n := by
  obtain ⟨mantissa, h⟩ := exists_scaled hn
  have hbits := h.bits_eq
  have hlow := h.le_mantissa
  have hpos : 0 < nearestNat n * 2 ^ 52 := by
    rw [h.value_eq]
    exact Nat.mul_pos (by omega) (Nat.two_pow_pos _)
  exact ⟨by omega, Nat.pos_of_mul_pos_right hpos⟩

/-- Rounded numbers are in the order of their bits. -/
theorem nearestBits_lt_iff (a b : Nat) : nearestBits a 1 < nearestBits b 1 ↔ nearestNat a < nearestNat b := by
  by_cases ha : a = 0
  · subst ha
    by_cases hb : b = 0
    · subst hb
      rfl
    · exact iff_of_true (nearestBits_pos hb).1 (nearestBits_pos hb).2
  · by_cases hb : b = 0
    · subst hb
      exact iff_of_false (Nat.not_lt_zero _) (Nat.not_lt_zero _)
    · obtain ⟨m, hm⟩ := exists_scaled ha
      obtain ⟨m', hm'⟩ := exists_scaled hb
      exact hm.bits_lt_iff hm'

/-- The exponent of the first power of two that is no double. -/
def maxExponent : Nat := 1024

def firstTooLarge : Nat := twoTo maxExponent

theorem lt_firstTooLarge (h : n ≤ 2 ^ 53) : n < firstTooLarge := by
  have hpow (k : Nat) (hk : 53 < k) : 2 ^ 53 < twoTo k := Nat.pow_lt_pow_right (by decide) hk
  unfold firstTooLarge
  exact Nat.lt_of_le_of_lt h (hpow maxExponent (by decide))

theorem scaled_twoTo (k : Nat) : Scaled ((k + 1022) * 2 ^ 52 + 2 ^ 52) (twoTo k) k (2 ^ 52) :=
  ⟨rfl, Nat.mul_comm _ _, Nat.le_refl _, by decide⟩

/-- What is rounded is finite below the first power of two that is no double. -/
theorem nearestBits_lt_infinity_iff (n : Nat) : nearestBits n 1 < infinityBits ↔ nearestNat n < firstTooLarge := by
  by_cases hn : n = 0
  · subst hn
    exact iff_of_true (by decide) (lt_firstTooLarge (Nat.zero_le _))
  · obtain ⟨m, hm⟩ := exists_scaled hn
    have hbits : infinityBits = (maxExponent + 1022) * 2 ^ 52 + 2 ^ 52 := rfl
    unfold firstTooLarge
    rw [hbits]
    exact hm.bits_lt_iff (scaled_twoTo maxExponent)

theorem nearestBits_mono {a b : Nat} (h : a ≤ b) : nearestBits a 1 ≤ nearestBits b 1 := by
  by_cases ha : a = 0
  · subst ha
    exact Nat.zero_le _
  · have hb : b ≠ 0 := by omega
    have hlog : a.log2 ≤ b.log2 := (Nat.le_log2 hb).2 ((Nat.log2_self_le ha).trans h)
    rcases Nat.lt_or_eq_of_le hlog with hlt | heq
    · obtain ⟨m, hm⟩ := exists_scaled ha
      obtain ⟨m', hm'⟩ := exists_scaled hb
      rw [hm.bits_eq, hm'.bits_eq]
      have hhigh := hm.mantissa_le
      have hlow := hm'.le_mantissa
      omega
    · rcases Nat.lt_or_ge a.log2 52 with hsmall | hlarge
      · rw [nearestBits_of_small ha hsmall, nearestBits_of_small hb (heq ▸ hsmall), heq]
        exact Nat.add_le_add_left (Nat.mul_le_mul_right _ h) _
      · rw [nearestBits_of_large ha hlarge, nearestBits_of_large hb (heq ▸ hlarge), heq]
        exact Nat.add_le_add_left (roundDiv_mono h) _

theorem nearestNat_mono {a b : Nat} (h : a ≤ b) : nearestNat a ≤ nearestNat b :=
  Nat.le_of_not_lt fun hlt => Nat.not_lt.2 (nearestBits_mono h) ((nearestBits_lt_iff b a).2 hlt)

/-- A number of up to 53 bits is not rounded. -/
theorem nearestNat_eq_self (h : n ≤ 2 ^ 53) : nearestNat n = n := by
  unfold nearestNat
  split
  · rfl
  · next hlarge =>
    rcases Nat.lt_or_eq_of_le h with hlt | rfl
    · have hlog : n.log2 = 52 := by
        have hn : n ≠ 0 := by
          rintro rfl
          exact hlarge (by decide)
        have hle : n.log2 < 53 := (Nat.log2_lt hn).2 hlt
        omega
      rw [hlog, Nat.sub_self, Nat.pow_zero, roundDiv_one, Nat.mul_one]
    · decide +kernel

/-! ## Whole numbers -/

variable {a b : Int} {x y : Float}

theorem nearestWhole_eq_self {n : Int} (h : n.natAbs ≤ 2 ^ 53) : nearestWhole n = n := by
  rw [nearestWhole, nearestNat_eq_self h]
  split <;> omega

theorem nearestWhole_mono (h : a ≤ b) : nearestWhole a ≤ nearestWhole b := by
  unfold nearestWhole
  by_cases ha : a < 0
  · by_cases hb : b < 0
    · have hle : nearestNat b.natAbs ≤ nearestNat a.natAbs := nearestNat_mono (by omega)
      rw [if_pos ha, if_pos hb]
      omega
    · rw [if_pos ha, if_neg hb]
      omega
  · have hle : nearestNat a.natAbs ≤ nearestNat b.natAbs := nearestNat_mono (by omega)
    rw [if_neg ha, if_neg (by omega)]
    omega

/-- The bits that a whole number is rounded to, with its sign. -/
def signedBits (n : Int) : Int := signed (decide (n < 0)) (nearestBits n.natAbs 1)

theorem signedBits_lt_iff (a b : Int) : signedBits a < signedBits b ↔ nearestWhole a < nearestWhole b := by
  have hab := nearestBits_lt_iff a.natAbs b.natAbs
  have hba := nearestBits_lt_iff b.natAbs a.natAbs
  have hpos (n : Int) (hn : n < 0) : 0 < nearestBits n.natAbs 1 ∧ 0 < nearestNat n.natAbs := nearestBits_pos (by omega)
  have ha := hpos a
  have hb := hpos b
  simp only [signedBits, signed, nearestWhole, decide_eq_true_eq]
  split <;> split <;> omega

theorem signedBits_eq_iff (a b : Int) : signedBits a = signedBits b ↔ nearestWhole a = nearestWhole b := by
  have hab := signedBits_lt_iff a b
  have hba := signedBits_lt_iff b a
  omega

theorem natAbs_nearestWhole (n : Int) : (nearestWhole n).natAbs = nearestNat n.natAbs := by
  unfold nearestWhole
  split <;> simp

theorem ofInt?_eq_none_iff (n : Int) : ofInt? n = none ↔ firstTooLarge ≤ (nearestWhole n).natAbs := by
  have hiff := nearestBits_lt_infinity_iff n.natAbs
  rw [natAbs_nearestWhole, ofInt?, nearest?]
  simp only [ite_eq_left_iff, reduceCtorEq, imp_false, not_not]
  rw [← Nat.not_lt, ← Nat.not_lt, hiff]

theorem place?_of_ofInt? (h : ofInt? a = some x) : place? x.toModel.unpack = some (signedPlace (signedBits a)) := by
  unfold ofInt? nearest? at h
  dsimp only at h
  split at h
  · cases h
  · next hfinite =>
    cases h
    exact place?_ofMagnitude (Nat.lt_of_not_le hfinite)

/-- Whole numbers as doubles are in the order of the rounded numbers. -/
theorem lt_iff_of_ofInt? (hx : ofInt? a = some x) (hy : ofInt? b = some y) : x < y ↔ nearestWhole a < nearestWhole b := by
  rw [lt_iff_place, place?_of_ofInt? hx, place?_of_ofInt? hy, ← signedBits_lt_iff, ← signedPlace_strictMono.lt_iff_lt]
  simp

theorem le_iff_of_ofInt? (hx : ofInt? a = some x) (hy : ofInt? b = some y) : x ≤ y ↔ nearestWhole a ≤ nearestWhole b := by
  rw [le_iff_place, place?_of_ofInt? hx, place?_of_ofInt? hy, ← Int.not_lt, ← signedBits_lt_iff, Int.not_lt,
    ← signedPlace_strictMono.le_iff_le]
  simp

theorem beq_iff_of_ofInt? (hx : ofInt? a = some x) (hy : ofInt? b = some y) :
    (x == y) = true ↔ nearestWhole a = nearestWhole b := by
  rw [beq_iff_place, place?_of_ofInt? hx, place?_of_ofInt? hy, ← signedBits_eq_iff, ← signedPlace_strictMono.injective.eq_iff]
  simp [eq_comm]

/-! ## Whole parts -/

namespace Scaled

variable {value exponent mantissa : Nat}

/-- A mantissa that is the next power of two is one of 53 bits with the next exponent. -/
theorem exists_lt (h : Scaled bits value exponent mantissa) :
    ∃ exponent mantissa, Scaled bits value exponent mantissa ∧ mantissa < 2 ^ 53 := by
  have hbits := h.bits_eq
  have hhigh := h.mantissa_le
  by_cases hlt : mantissa < 2 ^ 53
  · exact ⟨exponent, mantissa, h, hlt⟩
  · have hmantissa : mantissa = 2 ^ 53 := by omega
    have hnext : bits = (exponent + 1 + 1022) * 2 ^ 52 + 2 ^ 52 := by
      rw [hbits, hmantissa]
      omega
    refine ⟨exponent + 1, 2 ^ 52, ⟨hnext, ?_, Nat.le_refl _, by decide⟩, by decide⟩
    rw [h.value_eq, hmantissa, Nat.pow_succ 2 exponent, Nat.pow_succ 2 52, Nat.mul_assoc, Nat.mul_comm 2]

theorem partsOf_eq (h : Scaled bits value exponent mantissa) (hlt : mantissa < 2 ^ 53) :
    partsOf negative bits = ⟨negative, mantissa, (exponent : Int) - 52⟩ := by
  have hbits := h.bits_eq
  have hlow := h.le_mantissa
  have hquotient : bits / 2 ^ 52 = exponent + 1023 := by omega
  have hrest : 2 ^ 52 + bits % 2 ^ 52 = mantissa := by omega
  have hexponent : ((exponent + 1023 : Nat) : Int) - 1075 = (exponent : Int) - 52 := by omega
  rw [partsOf, if_neg (by omega), hrest, hquotient, hexponent]

/-- The mantissa of a number with few bits has its bits at the front. -/
theorem mantissa_eq (h : Scaled bits value exponent mantissa) (hsmall : exponent < 52) :
    mantissa = value * 2 ^ (52 - exponent) := by
  refine Nat.mul_right_cancel (m := 2 ^ exponent) (Nat.two_pow_pos _) ?_
  rw [← h.value_eq, Nat.mul_assoc, ← Nat.pow_add, Nat.sub_add_cancel (Nat.le_of_lt hsmall)]

theorem value_eq_mul (h : Scaled bits value exponent mantissa) (hlarge : 52 ≤ exponent) :
    value = mantissa * 2 ^ (exponent - 52) := by
  refine Nat.mul_right_cancel (m := 2 ^ 52) (by decide) ?_
  rw [h.value_eq, Nat.mul_assoc, ← Nat.pow_add, Nat.sub_add_cancel hlarge]

/-- The double is the whole number that it was rounded to. -/
theorem wholeMagnitude_eq (h : Scaled bits value exponent mantissa) :
    isWholeMagnitude (partsOf negative bits).mantissa (partsOf negative bits).exponent = true ∧
    wholeMagnitude (partsOf negative bits).mantissa (partsOf negative bits).exponent = value := by
  obtain ⟨exponent, mantissa, h, hlt⟩ := h.exists_lt
  rw [h.partsOf_eq hlt, isWholeMagnitude, wholeMagnitude]
  dsimp only
  rcases Nat.lt_or_ge exponent 52 with hsmall | hlarge
  · have hshift : (-((exponent : Int) - 52)).toNat = 52 - exponent := by omega
    have hmantissa := h.mantissa_eq hsmall
    rw [if_neg (by omega), hshift, hmantissa]
    constructor
    · simp
    · exact Nat.mul_div_cancel _ (Nat.two_pow_pos _)
  · have hshift : ((exponent : Int) - 52).toNat = exponent - 52 := by omega
    have hpos : (0 : Int) ≤ (exponent : Int) - 52 := by omega
    rw [if_pos hpos, hshift]
    exact ⟨by rw [decide_eq_true hpos, Bool.true_or], (h.value_eq_mul hlarge).symm⟩

end Scaled

/-- A whole number that is rounded to a finite double is whole there. -/
theorem whole_of_finite (n : Nat) :
    isWholeMagnitude (partsOf negative (nearestBits n 1)).mantissa (partsOf negative (nearestBits n 1)).exponent = true ∧
    wholeMagnitude (partsOf negative (nearestBits n 1)).mantissa (partsOf negative (nearestBits n 1)).exponent =
      nearestNat n := by
  by_cases hn : n = 0
  · subst hn
    cases negative <;> exact ⟨by decide +kernel, by decide +kernel⟩
  · obtain ⟨_, h⟩ := exists_scaled hn
    exact h.wholeMagnitude_eq

/-- The whole part of a whole number as a double is the rounded number. -/
theorem truncate?_of_ofInt? (h : ofInt? a = some x) : truncate? x = some (nearestWhole a) := by
  unfold ofInt? nearest? at h
  dsimp only at h
  split at h
  · cases h
  · next hfinite =>
    cases h
    have hwhole := (@whole_of_finite (decide (a < 0)) a.natAbs).2
    have hsign : (partsOf (decide (a < 0)) (nearestBits a.natAbs 1)).negative = decide (a < 0) := by
      unfold partsOf
      split <;> rfl
    rw [truncate?, parts?_ofMagnitude (Nat.lt_of_not_le hfinite), Option.map_some, hwhole, hsign, nearestWhole]
    simp only [decide_eq_true_eq]

/-- What is rounded to a finite double is below the first power of two that is no double. -/
theorem lt_firstTooLarge_of_nearestNat (h : nearestNat n < firstTooLarge) : n < firstTooLarge := by
  refine Nat.lt_of_not_le fun hle => ?_
  have hexact : nearestNat firstTooLarge = firstTooLarge := by decide +kernel
  have hmono := nearestNat_mono hle
  omega

theorem length_toDigits_le (h : nearestNat n < firstTooLarge) : (Nat.toDigits 10 n).length ≤ 309 := by
  have hn : n < 10 ^ 309 := (lt_firstTooLarge_of_nearestNat h).trans (by decide +kernel)
  exact Nat.toDigits_length 10 n 309 (by decide) hn

/-- The numeral of a whole number is that of a whole double unless the number is too large for one. -/
theorem isWhole_ofDecimal_iff (n : Nat) : isWhole (ofDecimal negative n 0) = true ↔ nearestNat n < firstTooLarge := by
  rw [← nearestBits_lt_infinity_iff]
  constructor
  · intro hwhole
    refine Nat.lt_of_not_le fun hle => ?_
    rw [ofDecimal_of_infinityBits_le hle, isWhole, parts?_infinity] at hwhole
    cases hwhole
  · intro hfinite
    have hsize := length_toDigits_le ((nearestBits_lt_infinity_iff n).1 hfinite)
    have hbits : n * tenTo (0 : Int).toNat = n := Nat.mul_one n
    unfold ofDecimal
    dsimp only
    split
    · rw [isWhole_ofMagnitude (by decide)]
      exact isWholeMagnitude_zero _
    · rw [if_neg (by omega), if_neg (by omega), if_pos (Int.le_refl 0), hbits, Nat.min_eq_left (Nat.le_of_lt hfinite),
        isWhole_ofMagnitude hfinite]
      exact (whole_of_finite n).1

/-! ## Whole numbers near a double -/

/-- A double is near the number: it is not beyond the largest one. -/
def HasDouble (n : Int) : Prop := (nearestWhole n).natAbs < firstTooLarge

instance (n : Int) : Decidable (HasDouble n) := inferInstanceAs (Decidable (_ < _))

theorem hasDouble_iff (n : Int) : HasDouble n ↔ nearestNat n.natAbs < firstTooLarge := by
  rw [HasDouble, natAbs_nearestWhole]

theorem hasDouble_of_le {n : Int} (h : n.natAbs ≤ 2 ^ 53) : HasDouble n := by
  unfold HasDouble
  rw [nearestWhole_eq_self h]
  exact lt_firstTooLarge h

theorem hasDouble_of_lt {n : Int} (h : n.natAbs < 10 ^ 308) : HasDouble n := by
  have hlarge : nearestNat (10 ^ 308) < firstTooLarge := by decide +kernel
  exact (hasDouble_iff n).2 ((nearestNat_mono h.le).trans_lt hlarge)

theorem nearestWhole_ne_zero {n : Int} (hn : n ≠ 0) : nearestWhole n ≠ 0 := by
  have hpos := (nearestBits_pos (show n.natAbs ≠ 0 by omega)).2
  have habs := natAbs_nearestWhole n
  omega

end Flowline.Double
