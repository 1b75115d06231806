import Flowline.Proofs.Number.Shortest
import Flowline.Proofs.Number.Rounded

/-! # The numbers that doubles are

A finite double is a rational number (`value?`), made of a sign, a mantissa of 53 bits and an exponent. Doubles are in
the order of these numbers, and compared with whole numbers as these are. -/

namespace Flowline.Double
open Float.Model Float.Model.UnpackedFloat

/-! ## Values -/

namespace Parts

/-- What a finite double is made of: a mantissa of 53 bits, or of fewer with the least exponent. -/
structure Canonical (p : Parts) : Prop where
  lt : p.mantissa < 2 ^ 53
  le_exponent : -1074 ≤ p.exponent
  exponent_le : p.exponent ≤ 971
  full : 2 ^ 52 ≤ p.mantissa ∨ p.exponent = -1074

def sign (p : Parts) : Sign := if p.negative then .negative else .positive

def unpacked (p : Parts) : UnpackedFloat :=
  if h : p.mantissa = 0 then .zero p.sign else .finite p.sign p.mantissa p.exponent (Nat.pos_of_ne_zero h)

/-- The number that a sign, a mantissa and an exponent stand for. -/
def value (p : Parts) : ℚ := p.sign.apply p.mantissa * 2 ^ p.exponent

end Parts

/-- The number that a finite double is. -/
def value? (x : Float) : Option ℚ := (parts? x).map Parts.value

variable {x y : Float} {p : Parts}

theorem canonical_of_parts? (h : parts? x = some p) : p.Canonical := by
  obtain ⟨-, hexponent, hzero, hnormal⟩ := ofMagnitude_of_parts? h
  by_cases hm : p.mantissa = 0
  · have hleast := hzero hm
    exact ⟨by omega, by omega, hexponent, .inr hleast⟩
  · have hnormal := hnormal hm
    exact ⟨hnormal.lt, hnormal.le_exponent, hexponent, hnormal.full⟩

theorem toSign_unpackSign (b : BitVec 64) :
    Sign.ofBitVec (@unpackSign Format.binary64 b) = if 2 ^ 63 ≤ b.toNat then .negative else .positive := by
  have hsign := toNat_unpackSign b
  have hsize := b.isLt
  split
  · next h =>
    have hone : @unpackSign Format.binary64 b = 1#1 := BitVec.eq_of_toNat_eq (by rw [hsign]; change _ = 1; omega)
    rw [hone]
    rfl
  · next h =>
    have hzero : @unpackSign Format.binary64 b = 0#1 := BitVec.eq_of_toNat_eq (by rw [hsign]; change _ = 0; omega)
    rw [hzero]
    rfl

theorem sign_decide {c : Prop} [Decidable c] {m : Nat} {e : Int} :
    Parts.sign ⟨decide c, m, e⟩ = if c then .negative else .positive := by
  by_cases h : c <;> simp [Parts.sign, h]

theorem finite_congr {s : Sign} {m m' : Nat} {e e' : Int} {h : 0 < m} {h' : 0 < m'} (hm : m = m') (he : e = e') :
    UnpackedFloat.finite s m e h = .finite s m' e' h' := by
  subst hm he
  rfl

theorem unpackExponent_eq_iff (b : BitVec 64) (e : BitVec 11) :
    @unpackExponent Format.binary64 b = e ↔ b.toNat / 2 ^ 52 % 2 ^ 11 = e.toNat := by
  rw [← BitVec.toNat_inj, toNat_unpackExponent]

theorem unpackMantissa_eq_iff (b : BitVec 64) (m : BitVec 52) :
    @unpackMantissa Format.binary64 b = m ↔ b.toNat % 2 ^ 52 = m.toNat := by
  rw [← BitVec.toNat_inj, toNat_unpackMantissa]

/-- A finite double is unpacked into its parts. -/
theorem unpack_of_parts? (h : parts? x = some p) : x.toModel.unpack = p.unpacked := by
  obtain ⟨b, hb⟩ : ∃ b : BitVec 64, b = x.toBits.toBitVec := ⟨_, rfl⟩
  have hbits : x.toBits.toNat = b.toNat := by rw [hb]; rfl
  have hunpack : x.toModel.unpack = UnpackedFloat.unpack Format.binary64 b := by rw [hb]; rfl
  have hmantissa := toNat_unpackMantissa b
  have hexponent := toNat_unpackExponent b
  unfold parts? at h
  simp only [twoTo, Nat.pow_eq, hbits] at h
  rw [hunpack]
  unfold UnpackedFloat.unpack
  dsimp only
  rw [toSign_unpackSign]
  change (if @unpackExponent Format.binary64 b = -1#11 then _ else
    if @unpackExponent Format.binary64 b = 0#11 then _ else _) = _
  split at h
  · cases h
  · next hfinite =>
    rw [if_neg (mt (unpackExponent_eq_iff b (-1#11)).1 hfinite)]
    split at h
    · next hsmall =>
      cases h
      rw [if_pos ((unpackExponent_eq_iff b 0#11).2 hsmall)]
      unfold Parts.unpacked
      dsimp only
      by_cases hnone : b.toNat % 2 ^ 52 = 0
      · rw [dif_pos ((unpackMantissa_eq_iff b 0#52).2 hnone), dif_pos hnone, sign_decide]
      · rw [dif_neg (mt (unpackMantissa_eq_iff b 0#52).1 hnone), dif_neg hnone, sign_decide]
        refine finite_congr hmantissa ?_
        rw [hexponent, hsmall]
        rfl
    · next hlarge =>
      cases h
      rw [if_neg (mt (unpackExponent_eq_iff b 0#11).1 hlarge)]
      unfold Parts.unpacked
      dsimp only
      rw [dif_neg (by omega), sign_decide]
      refine finite_congr ?_ ?_
      · rw [← hmantissa]
        exact toNat_append_mantissa _
      · rw [hexponent]
        rfl

/-- The bits of a double without its sign. -/
def Parts.bits (p : Parts) : Nat := (p.exponent + 1074).toNat * 2 ^ 52 + p.mantissa

theorem Parts.Canonical.bits_lt (hp : p.Canonical) : p.bits < infinityBits := by
  have hlt := hp.lt
  have hle := hp.exponent_le
  rw [infinityBits_eq]
  unfold bits
  omega

theorem partsOf_bits (hp : p.Canonical) : partsOf p.negative p.bits = p := by
  obtain ⟨hlt, hleast, -, hfull⟩ := hp
  obtain ⟨negative, m, e⟩ := p
  unfold Parts.bits
  dsimp only at hlt hleast hfull ⊢
  unfold partsOf
  split
  · simp only [Parts.mk.injEq, true_and]
    omega
  · simp only [Parts.mk.injEq, true_and]
    omega

/-- The double of some parts. -/
theorem exists_parts? (hp : p.Canonical) : ∃ x, parts? x = some p :=
  ⟨ofMagnitude p.negative p.bits, by rw [parts?_ofMagnitude hp.bits_lt, partsOf_bits hp]⟩

theorem parts?_pack (hp : p.Canonical) : parts? (.ofModel (Float.Model.pack p.unpacked)) = some p := by
  obtain ⟨x, hx⟩ := exists_parts? hp
  have hpack : (Float.ofModel (Float.Model.pack p.unpacked)).toBits = x.toBits := by
    rw [← unpack_of_parts? hx]
    exact congrArg UInt64.ofBitVec (pack_unpack_of_valid x.toModel.valid)
  unfold parts? at hx ⊢
  rwa [hpack]

/-! ## Order -/

namespace Parts

def magnitude (p : Parts) : ℚ := p.mantissa * 2 ^ p.exponent

theorem value_eq_magnitude (p : Parts) : p.value = if p.negative then -p.magnitude else p.magnitude := by
  obtain ⟨negative, m, e⟩ := p
  cases negative <;> simp [value, sign, Sign.apply, magnitude]

variable {q : Parts}

theorem Canonical.magnitude_lt (hp : p.Canonical) (hq : q.Canonical) (h : p.bits < q.bits) :
    p.magnitude < q.magnitude := by
  have hlt := hp.lt
  have hleast := hp.le_exponent
  have hleast' := hq.le_exponent
  have hlt' := hq.lt
  have hp := hp.full
  have hq := hq.full
  unfold bits at h
  unfold magnitude
  -- the bits have the exponent before the mantissa, and a larger exponent goes with a full mantissa
  rcases Int.lt_trichotomy p.exponent q.exponent with hless | heq | hmore
  · have hfull : 2 ^ 52 ≤ q.mantissa := hq.resolve_right (by omega)
    have hscale := zpow_pos (two_pos (α := ℚ)) p.exponent
    calc (p.mantissa : ℚ) * 2 ^ p.exponent < 2 ^ 53 * 2 ^ p.exponent := by
          gcongr
          exact_mod_cast hlt
      _ = 2 ^ 52 * 2 ^ (p.exponent + 1) := by
          rw [zpow_add_one₀ two_ne_zero]
          ring
      _ ≤ q.mantissa * 2 ^ q.exponent := by
          gcongr
          · exact_mod_cast hfull
          · exact one_le_two
          · omega
  · have hscale := zpow_pos (two_pos (α := ℚ)) q.exponent
    rw [heq] at h ⊢
    have hmantissa : (p.mantissa : ℚ) < q.mantissa := by exact_mod_cast (by omega)
    gcongr
  · have hfull : 2 ^ 52 ≤ p.mantissa := hp.resolve_right (by omega)
    omega

theorem Canonical.magnitude_eq (hp : p.Canonical) : p.magnitude = (partsOf false p.bits).magnitude := by
  conv_lhs => rw [← partsOf_bits hp]
  unfold partsOf bits
  split <;> rfl

theorem Canonical.magnitude_lt_iff (hp : p.Canonical) (hq : q.Canonical) :
    p.magnitude < q.magnitude ↔ p.bits < q.bits := by
  refine ⟨fun h => ?_, hp.magnitude_lt hq⟩
  rcases Nat.lt_trichotomy p.bits q.bits with hlt | heq | hgt
  · exact hlt
  · rw [hp.magnitude_eq, hq.magnitude_eq, heq] at h
    exact absurd h (lt_irrefl _)
  · exact absurd (hq.magnitude_lt hp hgt) h.not_gt

theorem Canonical.value_lt_iff (hp : p.Canonical) (hq : q.Canonical) :
    p.value < q.value ↔ signed p.negative p.bits < signed q.negative q.bits := by
  have hscale := zpow_pos (two_pos (α := ℚ))
  have hpos : 0 ≤ p.magnitude := mul_nonneg (Nat.cast_nonneg _) (hscale _).le
  have hpos' : 0 ≤ q.magnitude := mul_nonneg (Nat.cast_nonneg _) (hscale _).le
  have hzero : (⟨false, 0, -1074⟩ : Parts).Canonical := by constructor <;> decide
  have hbits := hzero.magnitude_lt_iff hp
  have hbits' := hzero.magnitude_lt_iff hq
  have hnone : (⟨false, 0, -1074⟩ : Parts).bits = 0 ∧ (⟨false, 0, -1074⟩ : Parts).magnitude = 0 :=
    ⟨rfl, by simp [magnitude]⟩
  rw [hnone.1, hnone.2] at hbits hbits'
  rw [value_eq_magnitude, value_eq_magnitude]
  unfold signed
  cases p.negative <;> cases q.negative <;> simp only [if_true, if_false, Bool.false_eq_true]
  · rw [hp.magnitude_lt_iff hq, Nat.cast_lt]
  · exact iff_of_false (by linarith) (by omega)
  · rw [← not_iff_not, not_lt, not_lt]
    constructor
    · intro h
      have hm : ¬ 0 < p.bits := mt hbits.2 (by linarith)
      have hm' : ¬ 0 < q.bits := mt hbits'.2 (by linarith)
      omega
    · intro h
      have hm : ¬ 0 < p.magnitude := mt hbits.1 (by omega)
      have hm' : ¬ 0 < q.magnitude := mt hbits'.1 (by omega)
      linarith
  · rw [neg_lt_neg_iff, neg_lt_neg_iff, hq.magnitude_lt_iff hp, Nat.cast_lt]

end Parts

/-- Finite doubles are in the order of the numbers that they are. -/
theorem lt_iff_value {a b : ℚ} (hx : value? x = some a) (hy : value? y = some b) : x < y ↔ a < b := by
  obtain ⟨p, hp, rfl⟩ := Option.map_eq_some_iff.1 hx
  obtain ⟨q, hq, rfl⟩ := Option.map_eq_some_iff.1 hy
  have hcanonical := canonical_of_parts? hp
  have hcanonical' := canonical_of_parts? hq
  have hplace : place? x.toModel.unpack = some (signedPlace (signed p.negative p.bits)) := by
    rw [← place?_ofMagnitude hcanonical.bits_lt]
    exact congrArg (fun z : Float => place? z.toModel.unpack) (ofMagnitude_of_parts? hp).1.symm
  have hplace' : place? y.toModel.unpack = some (signedPlace (signed q.negative q.bits)) := by
    rw [← place?_ofMagnitude hcanonical'.bits_lt]
    exact congrArg (fun z : Float => place? z.toModel.unpack) (ofMagnitude_of_parts? hq).1.symm
  rw [lt_iff_place, hplace, hplace', hcanonical.value_lt_iff hcanonical', ← signedPlace_strictMono.lt_iff_lt]
  simp

theorem compare_congr {α β : Type} [LinearOrder α] [LinearOrder β] {a b : α} {c d : β} (hlt : a < b ↔ c < d)
    (hgt : b < a ↔ d < c) : compare a b = compare c d := by
  rcases lt_trichotomy a b with h | h | h
  · rw [compare_lt_iff_lt.2 h, compare_lt_iff_lt.2 (hlt.1 h)]
  · have heq : c = d := le_antisymm (not_lt.1 (mt hgt.2 h.not_gt)) (not_lt.1 (mt hlt.2 h.not_lt))
    rw [compare_eq_iff_eq.2 h, compare_eq_iff_eq.2 heq]
  · rw [compare_gt_iff_gt.2 h, compare_gt_iff_gt.2 (hgt.1 h)]

/-- Whole numbers are compared with the number that a double is. -/
theorem compareInt?_eq {a : ℚ} (hx : value? x = some a) (n : Int) : compareInt? n x = some (compare (n : ℚ) a) := by
  obtain ⟨p, hp, rfl⟩ := Option.map_eq_some_iff.1 hx
  have hnan : x.isNaN = false := isNaN_eq_false_of_parts? (by rw [hp]; rfl)
  have hvalue : p.value = ((if p.negative then -(p.mantissa : Int) else p.mantissa : Int) : ℚ) * 2 ^ p.exponent := by
    rw [Parts.value_eq_magnitude]
    split
    · push_cast [Parts.magnitude]
      ring
    · push_cast [Parts.magnitude]
      ring
  rw [compareInt?, hnan, hp, hvalue]
  simp only [Bool.false_eq_true, if_false, twoTo, Nat.pow_eq]
  generalize (if p.negative = true then -(p.mantissa : Int) else p.mantissa) = m
  split
  · next he =>
    obtain ⟨k, hk⟩ := Int.eq_ofNat_of_zero_le he
    rw [hk, Int.toNat_natCast, zpow_natCast]
    refine congrArg some (compare_congr ?_ ?_)
    · exact_mod_cast Iff.rfl
    · exact_mod_cast Iff.rfl
  · next he =>
    obtain ⟨k, hk⟩ := Int.eq_ofNat_of_zero_le (show 0 ≤ -p.exponent by omega)
    have hscale : (0 : ℚ) < 2 ^ k := by positivity
    have he : p.exponent = -(k : Int) := by omega
    rw [hk, he, Int.toNat_natCast, zpow_neg, zpow_natCast, ← div_eq_mul_inv]
    refine congrArg some (compare_congr ?_ ?_)
    · rw [lt_div_iff₀ hscale]
      exact_mod_cast Iff.rfl
    · rw [div_lt_iff₀ hscale]
      exact_mod_cast Iff.rfl

end Flowline.Double
