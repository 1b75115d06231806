import Flowline.Proofs.Number.Exact

/-! # Rounded results

A double that is nearest to a quotient of whole numbers, and the difference and the quotient of two doubles, is one of
the two neighbours that the exact result has among the numbers of 53 significant bits (`Rounds`): it has the sign of
the exact result, is off by less than the last bit, and is exact where the exact result has no more bits. -/

namespace Flowline.Double
open Float.Model Float.Model.UnpackedFloat

variable {x y : Float} {p : Parts}

/-! ## Rounding -/

/-- A number is on the grid of `2 ^ e`, next to another one that has its 53 significant bits on that grid, or more; the
grid of the least exponent is the finest. -/
def Rounds (r d : ℚ) : Prop :=
  ∃ k e : Int, -1074 ≤ e ∧ d = k * 2 ^ e ∧ |d - r| < 2 ^ e ∧ (2 ^ (e + 52) ≤ |r| ∨ e = -1074)

variable {r d : ℚ}

theorem rounds_zero : Rounds 0 0 :=
  ⟨0, -1074, Int.le_refl _, by simp, by simp, .inr rfl⟩

theorem Rounds.neg (h : Rounds r d) : Rounds (-r) (-d) := by
  obtain ⟨k, e, hleast, hd, hnear, hfull⟩ := h
  refine ⟨-k, e, hleast, ?_, ?_, ?_⟩
  · rw [hd]
    push_cast
    ring
  · rwa [neg_sub_neg, abs_sub_comm]
  · rwa [abs_neg]

theorem zpow_two_pos (e : Int) : (0 : ℚ) < 2 ^ e := zpow_pos two_pos e

theorem Rounds.nonneg (h : Rounds r d) (hr : 0 ≤ r) : 0 ≤ d := by
  obtain ⟨k, e, -, rfl, hnear, -⟩ := h
  have hscale := zpow_two_pos e
  have hk : -1 < k := by
    have hlt : (-1 : ℚ) * 2 ^ e < k * 2 ^ e := by linarith [(abs_lt.1 hnear).1]
    exact_mod_cast lt_of_mul_lt_mul_right hlt hscale.le
  have hnat : (0 : ℚ) ≤ k := by exact_mod_cast (show (0 : Int) ≤ k by omega)
  positivity

theorem Rounds.nonpos (h : Rounds r d) (hr : r ≤ 0) : d ≤ 0 := by
  have hnonneg := h.neg.nonneg (by linarith)
  linarith

/-- A number of 53 bits at most is not rounded. -/
theorem Rounds.eq (h : Rounds r d) {k e : Int} (hr : r = k * 2 ^ e) (he : -1074 ≤ e) (hk : |k| < 2 ^ 53) : d = r := by
  obtain ⟨m, f, hleast, rfl, hnear, hfull⟩ := h
  have hscale := zpow_two_pos f
  have hle : f ≤ e := by
    rcases hfull with hfull | rfl
    · have habs : |r| < 2 ^ (e + 53) := by
        rw [hr, abs_mul, abs_of_pos (zpow_two_pos e), zpow_add₀ two_ne_zero, mul_comm]
        have hcast : |(k : ℚ)| < 2 ^ (53 : Int) := by exact_mod_cast hk
        exact mul_lt_mul_of_pos_left hcast (zpow_two_pos e)
      have hlt := (zpow_lt_zpow_iff_right₀ one_lt_two).1 (hfull.trans_lt habs)
      omega
    · exact he
  obtain ⟨n, rfl⟩ := Int.le.dest hle
  -- both are on the coarser grid of the rounded number, less than one step apart
  have hgrid : r = (k * 2 ^ n : Int) * 2 ^ f := by
    rw [hr, zpow_add₀ two_ne_zero, zpow_natCast]
    push_cast
    ring
  have hstep : |(m : ℚ) - (k * 2 ^ n : Int)| * 2 ^ f < 1 * 2 ^ f := by
    rw [one_mul]
    rwa [hgrid, ← sub_mul, abs_mul, abs_of_pos hscale] at hnear
  have hsame : |m - k * 2 ^ n| < 1 := by exact_mod_cast lt_of_mul_lt_mul_right hstep hscale.le
  rw [hgrid, sub_eq_zero.1 (Int.abs_lt_one_iff.1 hsame)]

/-- A rounded number is off by less than the last of its 53 bits. -/
theorem Rounds.abs_sub_lt (h : Rounds r d) {e : Int} (hr : |r| < 2 ^ (e + 53)) (he : -1074 ≤ e) : |d - r| < 2 ^ e := by
  obtain ⟨k, f, -, -, hnear, hfull⟩ := h
  refine hnear.trans_le (zpow_le_zpow_right₀ one_le_two ?_)
  rcases hfull with hfull | rfl
  · have hlt := (zpow_lt_zpow_iff_right₀ one_lt_two).1 (hfull.trans_lt hr)
    omega
  · exact he

/-! ## Mantissas that are cut off -/

/-- A mantissa of `2 ^ e` is the whole part of a number, and the bits after it tell whether anything is left. -/
structure Stands (em : ExtendedMantissa) (e : Int) (r : ℚ) : Prop where
  low : em.mantissa * 2 ^ e ≤ r
  high : r < (em.mantissa + 1) * 2 ^ e
  exact : r = em.mantissa * 2 ^ e → em.roundBit = false ∧ em.stickyBit = false

variable {em : ExtendedMantissa} {e : Int}

theorem zpow_two_succ (e : Int) : (2 : ℚ) ^ (e + 1) = 2 * 2 ^ e := by
  rw [zpow_add_one₀ two_ne_zero, mul_comm]

theorem Stands.shiftRightOne (h : Stands em e r) : Stands em.shiftRightOne (e + 1) r := by
  have hscale := zpow_two_pos e
  have hhalf : em.mantissa / 2 * 2 + em.mantissa % 2 = em.mantissa := Nat.div_add_mod' _ _
  have hrest : em.mantissa % 2 < 2 := Nat.mod_lt _ two_pos
  have hlow : ((em.mantissa / 2 : Nat) : ℚ) * 2 ≤ em.mantissa := by exact_mod_cast (by omega)
  have hhigh : (em.mantissa : ℚ) + 1 ≤ ((em.mantissa / 2 : Nat) + 1) * 2 := by exact_mod_cast (by omega)
  constructor
  · calc ((em.mantissa / 2 : Nat) : ℚ) * 2 ^ (e + 1) = ((em.mantissa / 2 : Nat) : ℚ) * 2 * 2 ^ e := by
          rw [zpow_two_succ, mul_assoc]
      _ ≤ em.mantissa * 2 ^ e := by gcongr
      _ ≤ r := h.low
  · calc r < (em.mantissa + 1) * 2 ^ e := h.high
      _ ≤ ((em.mantissa / 2 : Nat) + 1) * 2 * 2 ^ e := by gcongr
      _ = ((em.mantissa / 2 : Nat) + 1) * 2 ^ (e + 1) := by rw [zpow_two_succ, mul_assoc]
  · intro heq
    change r = ((em.mantissa / 2 : Nat) : ℚ) * 2 ^ (e + 1) at heq
    have hle : (em.mantissa : ℚ) ≤ (em.mantissa / 2 : Nat) * 2 := by
      refine le_of_mul_le_mul_right ?_ hscale
      calc (em.mantissa : ℚ) * 2 ^ e ≤ r := h.low
        _ = (em.mantissa / 2 : Nat) * 2 * 2 ^ e := by rw [heq, zpow_two_succ, mul_assoc]
    have heven : em.mantissa % 2 = 0 := by
      have hle : em.mantissa ≤ em.mantissa / 2 * 2 := by exact_mod_cast hle
      omega
    have hexact : r = em.mantissa * 2 ^ e := by
      rw [heq, zpow_two_succ, ← mul_assoc]
      congr 1
      exact_mod_cast (by omega)
    obtain ⟨hround, hsticky⟩ := h.exact hexact
    constructor
    · simp [ExtendedMantissa.shiftRightOne, heven]
    · simp [ExtendedMantissa.shiftRightOne, hround, hsticky]

theorem Stands.shiftRight (h : Stands em e r) (n : Nat) : Stands (em >>> n) (e + n) r := by
  change Stands (n.repeat ExtendedMantissa.shiftRightOne em) (e + n) r
  induction n with
  | zero => simpa [Nat.repeat] using h
  | succ n ih =>
    rw [Nat.repeat, Nat.cast_succ, ← add_assoc]
    exact ih.shiftRightOne

theorem mantissa_shiftRight (em : ExtendedMantissa) (n : Nat) : (em >>> n).mantissa = em.mantissa / 2 ^ n := by
  change (n.repeat ExtendedMantissa.shiftRightOne em).mantissa = _
  induction n with
  | zero => simp [Nat.repeat]
  | succ n ih =>
    rw [Nat.repeat, Nat.pow_succ, ← Nat.div_div_eq_div_mul, ← ih]
    rfl

/-- The rounded mantissa is the next one only where something is left. -/
theorem Stands.rounded (h : Stands em e r) :
    |em.roundedMantissa * 2 ^ e - r| < 2 ^ e ∧
      (em.roundedMantissa = em.mantissa ∨ em.roundedMantissa = em.mantissa + 1) := by
  have hstep : em.roundedMantissa = em.mantissa ∨ em.roundedMantissa = em.mantissa + 1 ∧
      ¬ (em.roundBit = false ∧ em.stickyBit = false) := by
    obtain ⟨m, round, sticky⟩ := em
    cases round <;> cases sticky <;>
      simp [ExtendedMantissa.roundedMantissa, ExtendedMantissa.accuracy, Accuracy.roundToNearestEven]
    omega
  have hlow := h.low
  have hhigh := h.high
  rcases hstep with hstep | ⟨hstep, hleft⟩
  · refine ⟨?_, .inl hstep⟩
    rw [hstep, abs_lt]
    constructor <;> linarith
  · refine ⟨?_, .inr hstep⟩
    have hlt : em.mantissa * 2 ^ e < r := lt_of_le_of_ne hlow fun heq => hleft (h.exact heq.symm)
    rw [hstep, Nat.cast_succ, abs_lt]
    constructor <;> linarith

theorem targetExponent_eq (t : Int) : Format.binary64.targetExponent t = max (t - 53) (-1074) := rfl

theorem mantissa_ofMantissaAndAccuracy (m : Nat) (accuracy : Accuracy) :
    (ExtendedMantissa.ofMantissaAndAccuracy m accuracy).mantissa = m := by
  unfold ExtendedMantissa.ofMantissaAndAccuracy
  split <;> rfl

/-- A mantissa is cut off to 53 bits, and to the least exponent at least. -/
theorem cut_bounds {m n : Nat} {e : Int} (hn : n = (max ((m.log2 : Int) + 1 + e - 53) (-1074) - e).toNat)
    (hfull : 2 ^ 52 ≤ m ∨ e ≤ -1074) :
    m / 2 ^ n < 2 ^ 53 ∧ -1074 ≤ e + n ∧ (2 ^ 52 ≤ m / 2 ^ n ∨ e + n = -1074) := by
  have hlt : m < 2 ^ (m.log2 + 1) := Nat.lt_log2_self
  refine ⟨?_, by omega, ?_⟩
  · rw [Nat.div_lt_iff_lt_mul (Nat.two_pow_pos n), ← Nat.pow_add]
    exact hlt.trans_le (Nat.pow_le_pow_right two_pos (by omega))
  · by_cases hleast : e + n = -1074
    · exact .inr hleast
    · refine .inl ?_
      rw [Nat.le_div_iff_mul_le (Nat.two_pow_pos n), ← Nat.pow_add]
      by_cases hn' : n = 0
      · subst hn'
        exact hfull.resolve_right (by omega)
      · have hne : m ≠ 0 := by
          rintro rfl
          simp only [Nat.log2_zero] at hn
          omega
        have hlog : 2 ^ m.log2 ≤ m := Nat.log2_self_le hne
        exact (Nat.pow_le_pow_right two_pos (by omega)).trans hlog

/-- A mantissa of 53 bits is not cut off; the next power of two is halved. -/
theorem shiftToTargetExponent_exact {m : Nat} {e : Int} (hm : m ≤ 2 ^ 53) (he : -1074 ≤ e) :
    shiftToTargetExponent Format.binary64 m e .exact =
      if m = 2 ^ 53 then (⟨2 ^ 52, false, false⟩, e + 1) else (⟨m, false, false⟩, e) := by
  unfold shiftToTargetExponent shiftToExponent
  dsimp only
  rw [targetExponent_eq, totalExponent]
  split
  · next heq =>
    subst heq
    have hone : (max (((2 ^ 53 : Nat).log2 : Int) + 1 + e - 53) (-1074) - e).toNat = 1 := by
      rw [Nat.log2_two_pow]
      omega
    rw [hone]
    rfl
  · next hne =>
    have hzero : (max ((m.log2 : Int) + 1 + e - 53) (-1074) - e).toNat = 0 := by
      have hlog : m.log2 < 53 := by
        by_cases h0 : m = 0
        · simp [h0]
        · exact (Nat.log2_lt h0).2 (by omega)
      omega
    rw [hzero, Nat.cast_zero, add_zero]
    rfl

/-- The parts of a rounded mantissa, of which the next power of two has one bit too many. -/
def roundedParts (s : Sign) (m : Nat) (e : Int) : Parts :=
  if m = 2 ^ 53 then ⟨s == .negative, 2 ^ 52, e + 1⟩ else ⟨s == .negative, m, e⟩

theorem sign_roundedParts (s : Sign) (m : Nat) (e : Int) : (roundedParts s m e).sign = s := by
  unfold roundedParts Parts.sign
  cases s <;> split <;> rfl

theorem value_roundedParts (s : Sign) (m : Nat) (e : Int) :
    ((roundedParts s m e).mantissa : ℚ) * 2 ^ (roundedParts s m e).exponent = m * 2 ^ e := by
  unfold roundedParts
  split
  · next heq =>
    rw [heq, zpow_two_succ]
    push_cast
    ring
  · rfl

/-- A number that a mantissa stands for, with the accuracy of what is left, is rounded to parts of a double. -/
theorem roundWithAccuracy_eq {s : Sign} {m : Nat} {e : Int} {accuracy : Accuracy}
    (h : Stands (ExtendedMantissa.ofMantissaAndAccuracy m accuracy) e r) (hfull : 2 ^ 52 ≤ m ∨ e ≤ -1074)
    (hr : r < 2 ^ (1023 : Int)) :
    ∃ p : Parts, roundWithAccuracy Format.binary64 s m e accuracy = p.unpacked ∧ p.Canonical ∧ p.sign = s ∧
      Rounds r (p.mantissa * 2 ^ p.exponent) := by
  obtain ⟨n, hn⟩ : ∃ n, n = (max ((m.log2 : Int) + 1 + e - 53) (-1074) - e).toNat := ⟨_, rfl⟩
  obtain ⟨hlt, hleast, hfull⟩ := cut_bounds hn hfull
  have hcut := h.shiftRight n
  have hfirst : shiftToTargetExponent Format.binary64 m e accuracy =
      (ExtendedMantissa.ofMantissaAndAccuracy m accuracy >>> n, e + n) := by
    rw [hn]
    rfl
  rw [← mantissa_ofMantissaAndAccuracy m accuracy, ← mantissa_shiftRight] at hlt hfull
  generalize ExtendedMantissa.ofMantissaAndAccuracy m accuracy >>> n = em at hcut hfirst hlt hfull
  generalize e + n = f at hcut hfirst hleast hfull
  obtain ⟨hnear, hstep⟩ := hcut.rounded
  have hle : em.roundedMantissa ≤ 2 ^ 53 := by omega
  -- the highest exponent is not passed, for the mantissa of a normal number has 53 bits
  have hmost : f ≤ 970 := by
    rcases hfull with hfull | rfl
    · have hpower : (2 : ℚ) ^ (f + 52) < 2 ^ (1023 : Int) := by
        refine lt_of_le_of_lt ?_ (hcut.low.trans_lt hr)
        rw [zpow_add₀ two_ne_zero, mul_comm]
        have hcast : (2 : ℚ) ^ (52 : Int) ≤ em.mantissa := by exact_mod_cast hfull
        gcongr
      have hexponent := (zpow_lt_zpow_iff_right₀ one_lt_two).1 hpower
      omega
    · decide
  refine ⟨roundedParts s em.roundedMantissa f, ?_, ?_, sign_roundedParts .., ?_⟩
  · rw [roundWithAccuracy, hfirst]
    dsimp only
    rw [shiftToTargetExponent_exact hle hleast]
    have hsign := sign_roundedParts s em.roundedMantissa f
    unfold Parts.unpacked
    rw [hsign]
    unfold roundedParts
    split
    · rfl
    · rfl
  · unfold roundedParts
    split
    all_goals
      constructor <;> dsimp only <;> omega
  · refine ⟨em.roundedMantissa, f, hleast, ?_, ?_, ?_⟩
    · rw [value_roundedParts]
      rfl
    · rwa [value_roundedParts]
    · refine hfull.imp_left fun hfull => ?_
      have hcast : (2 : ℚ) ^ (52 : Int) ≤ em.mantissa := by exact_mod_cast hfull
      calc (2 : ℚ) ^ (f + 52) = 2 ^ (52 : Int) * 2 ^ f := by rw [zpow_add₀ two_ne_zero, mul_comm]
        _ ≤ em.mantissa * 2 ^ f := by gcongr
        _ ≤ r := hcut.low
        _ ≤ |r| := le_abs_self r

/-! ## Signs -/

def unit : Sign → ℚ
  | .negative => -1
  | .positive => 1

theorem apply_cast (s : Sign) (n : Int) : ((s.apply n : Int) : ℚ) = unit s * n := by
  cases s <;> simp [Sign.apply, unit]

theorem unit_div (s t : Sign) : unit (s / t) = unit s / unit t := by
  have hsign : s / t = match s, t with
    | .negative, .negative | .positive, .positive => .positive
    | _, _ => .negative := by cases s <;> cases t <;> rfl
  rw [hsign]
  cases s <;> cases t <;> norm_num [unit]

theorem abs_unit_mul (s : Sign) (r : ℚ) : |unit s * r| = |r| := by
  cases s <;> simp [unit]

theorem Rounds.unit_mul (h : Rounds r d) (s : Sign) : Rounds (unit s * r) (unit s * d) := by
  cases s with
  | negative => simpa [unit] using h.neg
  | positive => simpa [unit] using h

theorem Parts.value_eq (p : Parts) : p.value = unit p.sign * (p.mantissa * 2 ^ p.exponent) := by
  rw [Parts.value, apply_cast, mul_assoc]
  rfl

/-- What the result of an operation is made of: the parts of a number that the exact result is rounded to. -/
def Yields (u : UnpackedFloat) (r : ℚ) : Prop := ∃ p : Parts, u = p.unpacked ∧ p.Canonical ∧ Rounds r p.value

theorem Yields.value? {u : UnpackedFloat} (h : Yields u r) :
    ∃ d, value? (.ofModel (Float.Model.pack u)) = some d ∧ Rounds r d := by
  obtain ⟨p, rfl, hp, hrounds⟩ := h
  refine ⟨p.value, ?_, hrounds⟩
  rw [Double.value?, parts?_pack hp, Option.map_some]

theorem yields_zero (s : Sign) : Yields (.zero s) 0 := by
  refine ⟨⟨s == .negative, 0, -1074⟩, ?_, ?_, ?_⟩
  · cases s <;> rfl
  · constructor <;> dsimp only <;> omega
  · have hvalue : Parts.value ⟨s == .negative, 0, -1074⟩ = 0 := by simp [Parts.value_eq]
    rw [hvalue]
    exact rounds_zero

/-- The parts of a double are not rounded. -/
theorem yields_self (hp : p.Canonical) : Yields p.unpacked p.value := by
  refine ⟨p, rfl, hp, p.sign.apply p.mantissa, p.exponent, hp.le_exponent, rfl, ?_, hp.full.imp_left fun hfull => ?_⟩
  · simpa using zpow_two_pos p.exponent
  · have hcast : (2 : ℚ) ^ (52 : Int) ≤ p.mantissa := by exact_mod_cast hfull
    have hscale := zpow_two_pos p.exponent
    rw [Parts.value_eq, abs_unit_mul, abs_of_nonneg (by positivity), zpow_add₀ two_ne_zero, mul_comm]
    gcongr

theorem yields_roundWithAccuracy {s : Sign} {m : Nat} {e : Int} {accuracy : Accuracy}
    (h : Stands (ExtendedMantissa.ofMantissaAndAccuracy m accuracy) e r) (hfull : 2 ^ 52 ≤ m ∨ e ≤ -1074)
    (hr : r < 2 ^ (1023 : Int)) : Yields (roundWithAccuracy Format.binary64 s m e accuracy) (unit s * r) := by
  obtain ⟨p, hp, hcanonical, rfl, hrounds⟩ := roundWithAccuracy_eq (s := s) h hfull hr
  refine ⟨p, hp, hcanonical, ?_⟩
  rw [Parts.value_eq]
  exact hrounds.unit_mul p.sign

/-! ## Nearest doubles -/

theorem roundDiv_near {num den : Nat} (hden : 0 < den) : |(roundDiv num den : ℚ) - num / den| < 1 := by
  have hpos : (0 : ℚ) < den := by exact_mod_cast hden
  have hsplit : num / den * den + num % den = num := Nat.div_add_mod' num den
  have hrest : num % den < den := Nat.mod_lt _ hden
  have hbelow : num < (roundDiv num den + 1) * den ∧ roundDiv num den * den < num + den := by
    have hstep : roundDiv num den = num / den ∨ roundDiv num den = num / den + 1 ∧ num % den ≠ 0 := by
      unfold roundDiv
      dsimp only
      split
      · exact .inl rfl
      · split
        · exact .inr ⟨rfl, by omega⟩
        · omega
    rcases hstep with hstep | ⟨hstep, hne⟩
    · rw [hstep, Nat.add_mul]
      omega
    · rw [hstep, Nat.add_mul, Nat.add_mul]
      omega
  have hlow : (num : ℚ) < (roundDiv num den + 1) * den := by exact_mod_cast hbelow.1
  have hhigh : (roundDiv num den : ℚ) * den < num + den := by exact_mod_cast hbelow.2
  rw [abs_lt, neg_lt_sub_iff_lt_add, sub_lt_iff_lt_add, div_lt_iff₀ hpos, ← sub_lt_iff_lt_add', lt_div_iff₀ hpos]
  constructor <;> linarith

/-- A quotient on the grid of a power of two, as a quotient of whole numbers. -/
theorem exists_roundDiv (num : Nat) {den : Nat} (hden : 0 < den) (q : Int) : ∃ a b : Nat, 0 < b ∧
    (if 0 ≤ q then roundDiv num (den * twoTo q.toNat) else roundDiv (num * twoTo (-q).toNat) den) = roundDiv a b ∧
    (a : ℚ) / b = num / den / 2 ^ q := by
  split
  · next hpos =>
    obtain ⟨n, hn⟩ := Int.eq_ofNat_of_zero_le hpos
    refine ⟨num, den * twoTo q.toNat, Nat.mul_pos hden (Nat.two_pow_pos _), rfl, ?_⟩
    rw [Nat.cast_mul, twoTo_cast, hn, Int.toNat_natCast, zpow_natCast, div_div]
  · next hneg =>
    obtain ⟨n, hn⟩ := Int.eq_ofNat_of_zero_le (show 0 ≤ -q by omega)
    refine ⟨num * twoTo (-q).toNat, den, hden, rfl, ?_⟩
    have hq : q = -(n : Int) := by omega
    rw [Nat.cast_mul, twoTo_cast, hn, hq, Int.toNat_natCast, zpow_neg, zpow_natCast, div_inv_eq_mul,
      div_mul_eq_mul_div]

/-- The mantissa and the exponent of the double nearest to a quotient. -/
theorem exists_nearest {num den : Nat} (hnum : num ≠ 0) (hden : 0 < den) :
    ∃ (m : Nat) (q : Int), nearestBits num den = (q + 1074).toNat * 2 ^ 52 + m ∧ m ≤ 2 ^ 53 ∧ -1074 ≤ q ∧
      (2 ^ 52 ≤ m ∧ (2 : ℚ) ^ (q + 52) ≤ num / den ∨ q = -1074) ∧ Rounds ((num : ℚ) / den) (m * 2 ^ q) := by
  obtain ⟨q, hq⟩ : ∃ q, q = max (log2Ratio num den - 52) (-1074) := ⟨_, rfl⟩
  obtain ⟨hbelow, habove⟩ := log2Ratio_bounds hnum hden.ne'
  have hscale := zpow_two_pos q
  obtain ⟨a, b, hb, hm, hratio⟩ := exists_roundDiv num hden q
  have hnear : |(roundDiv a b : ℚ) - num / den / 2 ^ q| < 1 := by
    rw [← hratio]
    exact roundDiv_near hb
  obtain ⟨hlow, hhigh⟩ := abs_lt.1 hnear
  have hfull : q = -1074 ∨ (2 : ℚ) ^ (q + 52) ≤ num / den := by
    rcases Int.le_total (log2Ratio num den - 52) (-1074) with hle | hle
    · exact .inl (by omega)
    · have hexact : q + 52 = log2Ratio num den := by omega
      exact .inr (hexact ▸ hbelow)
  refine ⟨roundDiv a b, q, ?_, ?_, by omega, ?_, roundDiv a b, q, by omega, by push_cast; rfl, ?_, ?_⟩
  · rw [nearestBits, if_neg hnum]
    dsimp only
    rw [← hq, hm]
    rfl
  · have hlt : (num : ℚ) / den / 2 ^ q < 2 ^ 53 := by
      rw [div_lt_iff₀ hscale, ← zpow_natCast, ← zpow_add₀ two_ne_zero]
      exact habove.trans_le (zpow_le_zpow_right₀ one_le_two (by push_cast; omega))
    have hcast : (roundDiv a b : ℚ) < 2 ^ 53 + 1 := by linarith
    exact Nat.lt_succ_iff.1 (by exact_mod_cast hcast)
  · refine hfull.symm.imp_left fun hfull => ⟨?_, hfull⟩
    have hle : (2 : ℚ) ^ 52 ≤ num / den / 2 ^ q := by
      rwa [le_div_iff₀ hscale, ← zpow_natCast, ← zpow_add₀ two_ne_zero, add_comm]
    have hcast : (2 : ℚ) ^ 52 < roundDiv a b + 1 := by linarith
    exact Nat.lt_succ_iff.1 (by exact_mod_cast hcast)
  · have hscaled : (num : ℚ) / den = num / den / 2 ^ q * 2 ^ q := (div_mul_cancel₀ _ hscale.ne').symm
    rw [hscaled, ← sub_mul, abs_mul, abs_of_pos hscale]
    exact (mul_lt_iff_lt_one_left hscale).2 hnear
  · exact hfull.symm.imp_left fun hfull => hfull.trans (le_abs_self _)

theorem bits_roundedParts (s : Sign) {m : Nat} {e : Int} (he : -1074 ≤ e) :
    (roundedParts s m e).bits = (e + 1074).toNat * 2 ^ 52 + m := by
  unfold roundedParts Parts.bits
  split
  · dsimp only
    omega
  · rfl

theorem canonical_roundedParts (s : Sign) {m : Nat} {e : Int} (hm : m ≤ 2 ^ 53) (hleast : -1074 ≤ e)
    (hmost : e ≤ 970) (hfull : 2 ^ 52 ≤ m ∨ e = -1074) : (roundedParts s m e).Canonical := by
  unfold roundedParts
  split <;> constructor <;> dsimp only <;> omega

/-- There is a double nearest to a quotient that is not too large, and the quotient is rounded to it. -/
theorem exists_nearest? (s : Sign) {num den : Nat} (hden : 0 < den) (hr : (num : ℚ) / den < 2 ^ (1023 : Int)) :
    ∃ x d, nearest? (s == .negative) num den = some x ∧ value? x = some d ∧ Rounds (unit s * (num / den)) d := by
  unfold nearest?
  dsimp only
  by_cases hnum : num = 0
  · subst hnum
    have hbits : nearestBits 0 den = 0 := if_pos rfl
    have hzero : value? (ofMagnitude (s == .negative) 0) = some 0 := by cases s <;> decide +kernel
    rw [hbits, Nat.cast_zero, zero_div, mul_zero]
    refine ⟨_, 0, if_neg (by decide), hzero, ?_⟩
    exact rounds_zero
  · obtain ⟨m, q, hbits, hm, hleast, hfull, hrounds⟩ := exists_nearest hnum hden
    have hmost : q ≤ 970 := by
      rcases hfull with ⟨-, hlow⟩ | rfl
      · have hexponent := (zpow_lt_zpow_iff_right₀ one_lt_two).1 (hlow.trans_lt hr)
        omega
      · decide
    have hcanonical := canonical_roundedParts s hm hleast hmost (hfull.imp_left And.left)
    have hnegative : (roundedParts s m q).negative = (s == .negative) := by
      unfold roundedParts
      split <;> rfl
    have hfinite := hcanonical.bits_lt
    rw [hbits, ← bits_roundedParts s hleast, ← hnegative]
    refine ⟨_, (roundedParts s m q).value, if_neg (Nat.not_le.2 hfinite), ?_, ?_⟩
    · rw [value?, parts?_ofMagnitude hfinite, partsOf_bits hcanonical, Option.map_some]
    · rw [Parts.value_eq, sign_roundedParts, value_roundedParts]
      exact hrounds.unit_mul s

/-- The double nearest to a quotient with a sign. -/
theorem exists_nearest_int? (z : Int) {den : Nat} (hden : 0 < den) (hr : |(z : ℚ) / den| < 2 ^ (1023 : Int)) :
    ∃ x d, nearest? (decide (z < 0)) z.natAbs den = some x ∧ value? x = some d ∧ Rounds ((z : ℚ) / den) d := by
  have habs : ((z.natAbs : Nat) : ℚ) / den = |(z : ℚ) / den| := by
    rw [abs_div, Nat.abs_cast, Nat.cast_natAbs, Int.cast_abs]
  rw [← habs] at hr
  by_cases hz : z < 0
  · obtain ⟨x, d, hx, hd, hrounds⟩ := exists_nearest? .negative hden hr
    have hneg : ((z.natAbs : Nat) : ℚ) = -z := by rw [Nat.cast_natAbs, abs_of_neg hz, Int.cast_neg]
    refine ⟨x, d, ?_, hd, ?_⟩
    · rw [decide_eq_true hz]
      exact hx
    · simpa [unit, hneg, neg_div] using hrounds
  · obtain ⟨x, d, hx, hd, hrounds⟩ := exists_nearest? .positive hden hr
    have hpos : ((z.natAbs : Nat) : ℚ) = z := by rw [Nat.cast_natAbs, abs_of_nonneg (not_lt.1 hz)]
    refine ⟨x, d, ?_, hd, ?_⟩
    · rw [decide_eq_false hz]
      exact hx
    · simpa [unit, hpos] using hrounds

/-! ## Differences -/

theorem yields_round (s : Sign) {m : Nat} {e : Int} (hm : 0 < m) (hr : (m : ℚ) * 2 ^ e < 2 ^ (1023 : Int)) :
    Yields (UnpackedFloat.round Format.binary64 s m e) (unit s * (m * 2 ^ e)) := by
  unfold UnpackedFloat.round decreaseExponent
  dsimp only
  rw [targetExponent_eq, totalExponent]
  obtain ⟨n, hn⟩ : ∃ n, n = (e - max ((m.log2 : Int) + 1 + e - 53) (-1074)).toNat := ⟨_, rfl⟩
  rw [← hn]
  have hlog : 2 ^ m.log2 ≤ m := Nat.log2_self_le hm.ne'
  have hshift : (m <<< n : Nat) = m * 2 ^ n := Nat.shiftLeft_eq m n
  have hexact : (m : ℚ) * 2 ^ e = (m <<< n : Nat) * 2 ^ (e - n) := by
    rw [hshift, Nat.cast_mul, mul_assoc, zpow_sub₀ two_ne_zero, zpow_natCast]
    push_cast
    field_simp
  have hscale := zpow_two_pos (e - n)
  refine yields_roundWithAccuracy ⟨?_, ?_, fun _ => ⟨rfl, rfl⟩⟩ ?_ hr
  · exact hexact.ge
  · rw [hexact]
    change ((m <<< n : Nat) : ℚ) * 2 ^ (e - n) < ((m <<< n : Nat) + 1) * 2 ^ (e - n)
    linarith
  · by_cases hleast : e - n ≤ -1074
    · exact .inr hleast
    · refine .inl ?_
      rw [hshift]
      calc 2 ^ 52 ≤ 2 ^ (m.log2 + n) := Nat.pow_le_pow_right two_pos (by omega)
        _ = 2 ^ m.log2 * 2 ^ n := Nat.pow_add ..
        _ ≤ m * 2 ^ n := Nat.mul_le_mul_right _ hlog

theorem yields_normalize {z e : Int} (hr : |(z : ℚ) * 2 ^ e| < 2 ^ (1023 : Int)) :
    Yields (UnpackedFloat.normalize Format.binary64 z e .positive) (z * 2 ^ e) := by
  have hscale := zpow_two_pos e
  rw [abs_mul, abs_of_pos hscale] at hr
  unfold UnpackedFloat.normalize
  rcases Int.lt_trichotomy z 0 with hz | rfl | hz
  · obtain ⟨n, hn⟩ := Int.eq_ofNat_of_zero_le (show 0 ≤ -z by omega)
    obtain rfl : z = -(n : Int) := by omega
    rw [compare_lt_iff_lt.2 hz]
    have hyields := yields_round .negative (m := n) (e := e) (by omega) (by simpa using hr)
    simpa [unit] using hyields
  · simpa using yields_zero .positive
  · obtain ⟨n, rfl⟩ := Int.eq_ofNat_of_zero_le hz.le
    rw [compare_gt_iff_gt.2 hz]
    have hyields := yields_round .positive (m := n) (e := e) (by omega) (by simpa using hr)
    simpa [unit] using hyields

theorem unpacked_of_zero {p : Parts} (hp : p.mantissa = 0) : p.unpacked = .zero p.sign ∧ p.value = 0 := by
  rw [Parts.unpacked, dif_pos hp, Parts.value_eq, hp]
  simp

theorem unpacked_of_pos {p : Parts} (hp : 0 < p.mantissa) :
    p.unpacked = .finite p.sign p.mantissa p.exponent hp := by
  rw [Parts.unpacked, dif_neg hp.ne']

namespace Parts

def neg (p : Parts) : Parts := { p with negative := !p.negative }

theorem Canonical.neg {p : Parts} (hp : p.Canonical) : p.neg.Canonical :=
  ⟨hp.lt, hp.le_exponent, hp.exponent_le, hp.full⟩

theorem sign_neg (p : Parts) : p.neg.sign = -p.sign := by
  obtain ⟨negative, m, e⟩ := p
  cases negative <;> rfl

theorem value_neg (p : Parts) : p.neg.value = -p.value := by
  obtain ⟨negative, m, e⟩ := p
  cases negative <;> simp [Parts.neg, value_eq, Parts.sign, unit]

end Parts

/-- A value on a finer grid. -/
theorem value_decreaseExponent (p : Parts) {e : Int} (he : e ≤ p.exponent) :
    p.value = (p.sign.apply (decreaseExponent p.mantissa p.exponent e).1 : Int) * 2 ^ e := by
  obtain ⟨n, hn⟩ := Int.le.dest he
  have hshift : (p.exponent - e).toNat = n := by omega
  rw [decreaseExponent, hshift, Nat.shiftLeft_eq, Parts.value_eq, apply_cast, ← hn, zpow_add₀ two_ne_zero,
    zpow_natCast]
  push_cast
  ring

theorem yields_sub {p q : Parts} (hp : p.Canonical) (hq : q.Canonical) (hr : |p.value - q.value| < 2 ^ (1023 : Int)) :
    Yields (UnpackedFloat.sub Format.binary64 p.unpacked q.unpacked) (p.value - q.value) := by
  rcases Nat.eq_zero_or_pos p.mantissa with hm | hm
  · rcases Nat.eq_zero_or_pos q.mantissa with hn | hn
    · rw [(unpacked_of_zero hm).1, (unpacked_of_zero hm).2, (unpacked_of_zero hn).1, (unpacked_of_zero hn).2, sub_zero]
      unfold UnpackedFloat.sub
      dsimp only
      split <;> exact yields_zero _
    · have hyields := yields_self hq.neg
      rw [unpacked_of_pos (p := q.neg) hn, Parts.sign_neg, Parts.value_neg] at hyields
      rw [(unpacked_of_zero hm).1, (unpacked_of_zero hm).2, unpacked_of_pos hn, zero_sub]
      exact hyields
  · rcases Nat.eq_zero_or_pos q.mantissa with hn | hn
    · have hyields := yields_self hp
      rw [(unpacked_of_zero hn).1, (unpacked_of_zero hn).2, sub_zero]
      rw [unpacked_of_pos hm] at hyields ⊢
      exact hyields
    · have hdifference : p.value - q.value = ((p.sign.apply (decreaseExponent p.mantissa p.exponent
          (min p.exponent q.exponent)).1 - q.sign.apply (decreaseExponent q.mantissa q.exponent
          (min p.exponent q.exponent)).1 : Int) : ℚ) * 2 ^ (min p.exponent q.exponent) := by
        rw [value_decreaseExponent p (Int.min_le_left _ _), value_decreaseExponent q (Int.min_le_right _ _)]
        push_cast
        ring
      rw [hdifference] at hr ⊢
      rw [unpacked_of_pos hm, unpacked_of_pos hn]
      exact yields_normalize hr

/-- A difference of doubles is rounded. -/
theorem value?_sub {a b : ℚ} (hx : value? x = some a) (hy : value? y = some b) (hr : |a - b| < 2 ^ (1023 : Int)) :
    ∃ d, value? (x - y) = some d ∧ Rounds (a - b) d := by
  obtain ⟨p, hp, rfl⟩ := Option.map_eq_some_iff.1 hx
  obtain ⟨q, hq, rfl⟩ := Option.map_eq_some_iff.1 hy
  have hyields := (yields_sub (canonical_of_parts? hp) (canonical_of_parts? hq) hr).value?
  rw [← unpack_of_parts? hp, ← unpack_of_parts? hq] at hyields
  exact hyields

/-! ## Quotients -/

theorem yields_divCore {s : Sign} {m n : Nat} {e f : Int} (hm : 0 < m) (hn : 0 < n)
    (hr : (m * 2 ^ e / (n * 2 ^ f) : ℚ) < 2 ^ (1023 : Int)) :
    Yields (roundWithAccuracy Format.binary64 s (divCore Format.binary64 m e n f).1
      (divCore Format.binary64 m e n f).2.1 (divCore Format.binary64 m e n f).2.2) (unit s * (m * 2 ^ e / (n * 2 ^ f))) := by
  unfold divCore
  dsimp only
  rw [targetExponent_eq, totalExponent, totalExponent]
  obtain ⟨g, hg⟩ : ∃ g, g = min (e - f) (max ((m.log2 : Int) + 1 + e - ((n.log2 : Int) + 1 + f) - 53) (-1074)) :=
    ⟨_, rfl⟩
  rw [← hg]
  obtain ⟨k, hk⟩ := Int.le.dest (show g ≤ e - f by omega)
  have hshift : (e - f - g).toNat = k := by omega
  rw [hshift, Nat.shiftLeft_eq]
  have hden : (0 : ℚ) < n := by exact_mod_cast hn
  have hscale := zpow_two_pos g
  have hquotient : (m * 2 ^ e / (n * 2 ^ f) : ℚ) = ((m * 2 ^ k : Nat) : ℚ) / n * 2 ^ g := by
    have he : e = g + k + f := by omega
    rw [he, zpow_add₀ two_ne_zero, zpow_add₀ two_ne_zero, zpow_natCast]
    have hf := zpow_two_pos f
    push_cast
    field_simp
  have hlow : (((m * 2 ^ k / n : Nat) : ℚ)) ≤ ((m * 2 ^ k : Nat) : ℚ) / n := Nat.cast_div_le
  have hhigh : ((m * 2 ^ k : Nat) : ℚ) / n < (m * 2 ^ k / n : Nat) + 1 := by
    rw [div_lt_iff₀ hden, mul_comm _ (n : ℚ)]
    exact_mod_cast Nat.lt_mul_div_succ (m * 2 ^ k) hn
  rw [hquotient] at hr ⊢
  refine yields_roundWithAccuracy ⟨?_, ?_, fun heq => ?_⟩ ?_ hr
  · rw [mantissa_ofMantissaAndAccuracy]
    gcongr
  · rw [mantissa_ofMantissaAndAccuracy]
    gcongr
  · rw [mantissa_ofMantissaAndAccuracy] at heq
    have hexact : ((m * 2 ^ k : Nat) : ℚ) = (m * 2 ^ k / n : Nat) * n := by
      rw [← div_eq_iff hden.ne']
      exact mul_right_cancel₀ hscale.ne' heq
    have hrest : m * 2 ^ k % n = 0 := by
      have hsame : m * 2 ^ k = m * 2 ^ k / n * n := by exact_mod_cast hexact
      have hdivision := Nat.div_add_mod' (m * 2 ^ k) n
      omega
    rw [accuracyOfFraction, if_pos hrest]
    exact ⟨rfl, rfl⟩
  · by_cases hleast : g ≤ -1074
    · exact .inr hleast
    · refine .inl ((Nat.le_div_iff_mul_le hn).2 ?_)
      have hbits : n.log2 + 1 + 52 ≤ m.log2 + k := by omega
      calc 2 ^ 52 * n ≤ 2 ^ 52 * 2 ^ (n.log2 + 1) := Nat.mul_le_mul_left _ Nat.lt_log2_self.le
        _ ≤ 2 ^ (m.log2 + k) := by
            rw [← Nat.pow_add]
            exact Nat.pow_le_pow_right two_pos (by omega)
        _ = 2 ^ m.log2 * 2 ^ k := Nat.pow_add ..
        _ ≤ m * 2 ^ k := Nat.mul_le_mul_right _ (Nat.log2_self_le hm.ne')

theorem yields_div {p q : Parts} (hq : 0 < q.mantissa) (hr : |p.value / q.value| < 2 ^ (1023 : Int)) :
    Yields (UnpackedFloat.div Format.binary64 p.unpacked q.unpacked) (p.value / q.value) := by
  rw [unpacked_of_pos hq]
  rcases Nat.eq_zero_or_pos p.mantissa with hm | hm
  · rw [(unpacked_of_zero hm).1, (unpacked_of_zero hm).2, zero_div]
    exact yields_zero _
  · have hquotient : p.value / q.value =
        unit (p.sign / q.sign) * (p.mantissa * 2 ^ p.exponent / (q.mantissa * 2 ^ q.exponent)) := by
      rw [Parts.value_eq, Parts.value_eq, unit_div, mul_div_mul_comm]
    have hp := zpow_two_pos p.exponent
    have hq' := zpow_two_pos q.exponent
    rw [hquotient, abs_unit_mul, abs_of_nonneg (by positivity)] at hr
    rw [hquotient, unpacked_of_pos hm]
    exact yields_divCore hm hq hr

/-- A quotient of doubles is rounded. -/
theorem value?_div {a b : ℚ} (hx : value? x = some a) (hy : value? y = some b) (hb : b ≠ 0)
    (hr : |a / b| < 2 ^ (1023 : Int)) : ∃ d, value? (x / y) = some d ∧ Rounds (a / b) d := by
  obtain ⟨p, hp, rfl⟩ := Option.map_eq_some_iff.1 hx
  obtain ⟨q, hq, rfl⟩ := Option.map_eq_some_iff.1 hy
  have hpos : 0 < q.mantissa := Nat.pos_of_ne_zero fun hzero => hb (unpacked_of_zero hzero).2
  have hyields := (yields_div hpos hr).value?
  rw [← unpack_of_parts? hp, ← unpack_of_parts? hq] at hyields
  exact hyields

end Flowline.Double
