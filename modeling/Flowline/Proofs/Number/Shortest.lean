import Flowline.Proofs.Number.Nearest

/-! # Digits that read back

Seventeen digits always tell a double from all others, and the digits that are found, seventeen or fewer, lie around
it (`digits_around`). -/

namespace Flowline.Double

/-! ## Powers of ten -/

theorem tenPow_le_twoPow : ∀ n < 1024, 10 ^ (n * 30103 / 100000) ≤ 10 * 2 ^ n := by decide +kernel

theorem twoPow_le_tenPow : ∀ n < 1075, 2 ^ n ≤ 10 * 10 ^ (n * 30103 / 100000) := by decide +kernel

theorem estimate_le_of_nat {n : Nat} (hn : n < 1024) : (10 : ℚ) ^ ((n : Int) * 30103 / 100000 - 1) ≤ 2 ^ (n : Int) := by
  have hexponent : (n : Int) * 30103 / 100000 = ((n * 30103 / 100000 : Nat) : Int) := by norm_cast
  have hle := tenPow_le_twoPow n hn
  rw [hexponent]
  generalize n * 30103 / 100000 = k at *
  have hpow : (10 : ℚ) ^ k ≤ 10 * 2 ^ n := by exact_mod_cast hle
  rw [zpow_sub₀ (by norm_num), zpow_natCast, zpow_natCast, zpow_one, div_le_iff₀ (by norm_num)]
  linarith

theorem estimate_le_of_neg {n : Nat} (hn : n < 1075) :
    (10 : ℚ) ^ (-(n : Int) * 30103 / 100000 - 1) ≤ 2 ^ (-(n : Int)) := by
  have hexponent : -(n : Int) * 30103 / 100000 ≤ -((n * 30103 / 100000 : Nat) : Int) := by omega
  have hle := twoPow_le_tenPow n hn
  generalize n * 30103 / 100000 = k at *
  have hpow : (2 : ℚ) ^ n ≤ 10 * 10 ^ k := by exact_mod_cast hle
  calc (10 : ℚ) ^ (-(n : Int) * 30103 / 100000 - 1) ≤ 10 ^ (-((k + 1 : Nat) : Int)) :=
        zpow_le_zpow_right₀ (by norm_num) (by omega)
    _ = (10 * 10 ^ k)⁻¹ := by rw [zpow_neg, zpow_natCast, pow_succ, mul_comm]
    _ ≤ (2 ^ n)⁻¹ := by gcongr
    _ = 2 ^ (-(n : Int)) := by rw [zpow_neg, zpow_natCast]

/-- The estimate from a power of two is at most one too large. -/
theorem estimate_le {e : Int} (hlow : -1074 ≤ e) (hhigh : e < 1024) : (10 : ℚ) ^ (e * 30103 / 100000 - 1) ≤ 2 ^ e := by
  rcases Int.le_total 0 e with hsign | hsign
  · obtain ⟨n, rfl⟩ := Int.eq_ofNat_of_zero_le hsign
    exact estimate_le_of_nat (by omega)
  · obtain ⟨n, hn⟩ := Int.eq_ofNat_of_zero_le (show 0 ≤ -e by omega)
    obtain rfl : e = -(n : Int) := by omega
    exact estimate_le_of_neg (by omega)

/-- A power of ten is at most a quotient. -/
def isTenAtMost (num den : Nat) (e : Int) : Bool :=
  if 0 ≤ e then den * tenTo e.toNat ≤ num else den ≤ num * tenTo (-e).toNat

theorem log10Ratio_eq (num den : Nat) : log10Ratio num den =
    if isTenAtMost num den (log2Ratio num den * 30103 / 100000 + 1) then log2Ratio num den * 30103 / 100000 + 1
    else if isTenAtMost num den (log2Ratio num den * 30103 / 100000) then log2Ratio num den * 30103 / 100000
    else log2Ratio num den * 30103 / 100000 - 1 := rfl

variable {num den : Nat}

theorem le_of_isTenAtMost (hden : den ≠ 0) {e : Int} (h : isTenAtMost num den e = true) :
    (10 : ℚ) ^ e ≤ (num : ℚ) / den := by
  have hcast : ((10 : Nat) : ℚ) = 10 := by norm_num
  rw [← hcast, zpow_le_div_iff (by decide) (Nat.pos_of_ne_zero hden)]
  rw [isTenAtMost] at h
  split at h
  · next he =>
    rw [if_pos he]
    exact of_decide_eq_true h
  · next he =>
    rw [if_neg he]
    exact of_decide_eq_true h

theorem log10Ratio_le (hnum : num ≠ 0) (hden : den ≠ 0) (hlow : -1074 ≤ log2Ratio num den)
    (hhigh : log2Ratio num den < 1024) : (10 : ℚ) ^ log10Ratio num den ≤ (num : ℚ) / den := by
  rw [log10Ratio_eq]
  split
  · next h => exact le_of_isTenAtMost hden h
  · split
    · next h => exact le_of_isTenAtMost hden h
    · exact (estimate_le hlow hhigh).trans (log2Ratio_bounds hnum hden).1

/-! ## The grid -/

/-- What turns quarters of `2 ^ q` into whole numbers, together with `gridDown`. -/
def gridUp (q k : Int) : Nat := (if 2 ≤ q then twoTo (q - 2).toNat else 1) * (if k < 0 then tenTo (-k).toNat else 1)

/-- What turns multiples of `10 ^ k` into whole numbers, together with `gridUp`. -/
def gridDown (q k : Int) : Nat := (if q < 2 then twoTo (2 - q).toNat else 1) * (if 0 ≤ k then tenTo k.toNat else 1)

/-- The point `c` of the grid lies around the double. -/
def isInside (m : Nat) (q k : Int) (c : Nat) : Bool :=
  if m % 2 = 0 then
    decide ((roundingBounds m q).1 * gridUp q k ≤ c * gridDown q k) &&
      decide (c * gridDown q k ≤ (roundingBounds m q).2 * gridUp q k)
  else
    decide ((roundingBounds m q).1 * gridUp q k < c * gridDown q k) &&
      decide (c * gridDown q k < (roundingBounds m q).2 * gridUp q k)

/-- The last point of the grid that is at most the double. -/
def gridFloor (m : Nat) (q k : Int) : Nat := 4 * m * gridUp q k / gridDown q k

theorem gridUp_pos (q k : Int) : 0 < gridUp q k := by
  refine Nat.mul_pos ?_ ?_ <;> split <;> simp

theorem gridDown_pos (q k : Int) : 0 < gridDown q k := by
  refine Nat.mul_pos ?_ ?_ <;> split <;> simp

/-- One unit of the grid, in quarters of `2 ^ q`. -/
theorem gridDown_mul (q k : Int) : (gridDown q k : ℚ) * 2 ^ (q - 2) = gridUp q k * 10 ^ k := by
  have htwo : ((if q < 2 then twoTo (2 - q).toNat else 1 : Nat) : ℚ) * 2 ^ (q - 2) =
      (if 2 ≤ q then twoTo (q - 2).toNat else 1 : Nat) := by
    rcases Int.lt_or_le q 2 with hq | hq
    · rw [if_pos hq, if_neg (by omega), twoTo_cast, Nat.cast_one, ← zpow_natCast, ← zpow_add₀ two_ne_zero]
      exact (congrArg _ (by omega)).trans (zpow_zero _)
    · rw [if_neg (by omega), if_pos hq, twoTo_cast, Nat.cast_one, one_mul, ← zpow_natCast]
      exact congrArg _ (by omega)
  have hten : ((if 0 ≤ k then tenTo k.toNat else 1 : Nat) : ℚ) =
      (if k < 0 then tenTo (-k).toNat else 1 : Nat) * 10 ^ k := by
    rcases Int.lt_or_le k 0 with hk | hk
    · rw [if_neg (by omega), if_pos hk, tenTo_cast, Nat.cast_one, ← zpow_natCast, ← zpow_add₀ (by norm_num)]
      exact (zpow_zero (10 : ℚ)).symm.trans (congrArg _ (by omega))
    · rw [if_pos hk, if_neg (by omega), tenTo_cast, Nat.cast_one, one_mul, ← zpow_natCast]
      exact congrArg _ (by omega)
  rw [gridDown, gridUp, Nat.cast_mul, Nat.cast_mul, hten, ← htwo]
  ring

variable {m : Nat} {q k : Int}

theorem gridPoint?_eq (m : Nat) (q k : Int) : gridPoint? m q k =
    match isInside m q k (gridFloor m q k), isInside m q k (gridFloor m q k + 1) with
    | true, false => some (gridFloor m q k)
    | false, true => some (gridFloor m q k + 1)
    | false, false => none
    | true, true =>
      let gapBelow := 4 * m * gridUp q k - gridFloor m q k * gridDown q k
      let gapAbove := (gridFloor m q k + 1) * gridDown q k - 4 * m * gridUp q k
      if gapBelow < gapAbove then some (gridFloor m q k)
      else if gapAbove < gapBelow then some (gridFloor m q k + 1)
      else some (gridFloor m q k + gridFloor m q k % 2) := rfl

theorem isInside_of_gridPoint? {c : Nat} (h : gridPoint? m q k = some c) : isInside m q k c = true := by
  rw [gridPoint?_eq] at h
  split at h
  · next hbelow _ => exact Option.some.inj h ▸ hbelow
  · next _ habove => exact Option.some.inj h ▸ habove
  · cases h
  · next hbelow habove =>
    have hparity := Nat.mod_two_eq_zero_or_one (gridFloor m q k)
    dsimp only at h
    split at h
    · exact Option.some.inj h ▸ hbelow
    split at h
    · exact Option.some.inj h ▸ habove
    · rcases hparity with heven | hodd
      · exact Option.some.inj h ▸ (by rwa [heven])
      · exact Option.some.inj h ▸ (by rwa [hodd])

theorem isSome_gridPoint? (h : isInside m q k (gridFloor m q k) = true ∨ isInside m q k (gridFloor m q k + 1) = true) :
    (gridPoint? m q k).isSome = true := by
  rw [gridPoint?_eq]
  split
  · rfl
  · rfl
  · next hbelow habove => simp [hbelow, habove] at h
  · dsimp only
    split
    · rfl
    · split <;> rfl

theorem quarters_mul (a : Nat) : a * (2 : ℚ) ^ (q - 2) * gridUp q k = (a * gridUp q k : Nat) * 2 ^ (q - 2) := by
  push_cast
  ring

theorem grid_mul (c : Nat) : c * (10 : ℚ) ^ k * gridUp q k = (c * gridDown q k : Nat) * 2 ^ (q - 2) := by
  rw [Nat.cast_mul, mul_assoc (c : ℚ) (gridDown q k), gridDown_mul]
  ring

/-- A whole multiple of quarters of `2 ^ q` and one of `10 ^ k` are compared in whole numbers. -/
theorem quarters_lt_iff (a c : Nat) : a * (2 : ℚ) ^ (q - 2) < c * 10 ^ k ↔ a * gridUp q k < c * gridDown q k := by
  have hscale : (0 : ℚ) < 2 ^ (q - 2) := zpow_pos two_pos _
  have hup : (0 : ℚ) < gridUp q k := by exact_mod_cast gridUp_pos q k
  rw [← mul_lt_mul_iff_left₀ hup, quarters_mul, grid_mul, mul_lt_mul_iff_left₀ hscale, Nat.cast_lt]

theorem lt_quarters_iff (a c : Nat) : c * (10 : ℚ) ^ k < a * 2 ^ (q - 2) ↔ c * gridDown q k < a * gridUp q k := by
  have hscale : (0 : ℚ) < 2 ^ (q - 2) := zpow_pos two_pos _
  have hup : (0 : ℚ) < gridUp q k := by exact_mod_cast gridUp_pos q k
  rw [← mul_lt_mul_iff_left₀ hup, quarters_mul, grid_mul, mul_lt_mul_iff_left₀ hscale, Nat.cast_lt]

theorem around_of_isInside {c : Nat} (h : isInside m q k c = true) : Around (c * 10 ^ k) m q := by
  unfold isInside at h
  split at h
  · next heven =>
    obtain ⟨hlow, hhigh⟩ := Bool.and_eq_true_iff.1 h
    refine ⟨?_, ?_, fun hodd => by omega⟩
    · exact not_lt.1 fun hlt => Nat.not_lt.2 (of_decide_eq_true hlow) ((lt_quarters_iff _ _).1 hlt)
    · exact not_lt.1 fun hlt => Nat.not_lt.2 (of_decide_eq_true hhigh) ((quarters_lt_iff _ _).1 hlt)
  · obtain ⟨hlow, hhigh⟩ := Bool.and_eq_true_iff.1 h
    have hlow := (quarters_lt_iff _ _).2 (of_decide_eq_true hlow)
    have hhigh := (lt_quarters_iff _ _).2 (of_decide_eq_true hhigh)
    exact ⟨hlow.le, hhigh.le, fun _ => ⟨hlow.ne', hhigh.ne⟩⟩

/-- A point strictly between the bounds is inside for even and odd mantissas. -/
theorem isInside_of_lt {c : Nat} (hlow : ((roundingBounds m q).1 : ℚ) * 2 ^ (q - 2) < c * 10 ^ k)
    (hhigh : (c : ℚ) * 10 ^ k < (roundingBounds m q).2 * 2 ^ (q - 2)) : isInside m q k c = true := by
  have hlow := (quarters_lt_iff _ _).1 hlow
  have hhigh := (lt_quarters_iff _ _).1 hhigh
  unfold isInside
  split
  · exact Bool.and_eq_true_iff.2 ⟨decide_eq_true hlow.le, decide_eq_true hhigh.le⟩
  · exact Bool.and_eq_true_iff.2 ⟨decide_eq_true hlow, decide_eq_true hhigh⟩

/-- The double lies between a point of the grid and the next one. -/
theorem gridFloor_bounds (m : Nat) (q k : Int) : (gridFloor m q k : ℚ) * 10 ^ k ≤ (4 * m : Nat) * 2 ^ (q - 2) ∧
    ((4 * m : Nat) : ℚ) * 2 ^ (q - 2) < (gridFloor m q k + 1 : Nat) * 10 ^ k := by
  have hdown := gridDown_pos q k
  constructor
  · refine not_lt.1 fun hlt => ?_
    exact Nat.not_lt.2 (Nat.div_mul_le_self _ _) ((quarters_lt_iff _ _).1 hlt)
  · exact (quarters_lt_iff _ _).2 (Nat.lt_mul_of_div_lt (Nat.lt_succ_self _) hdown)

/-- A grid finer than the sixteenth place has a point around the double: the next one above a mantissa of up to
`2 ^ 52`, and one of the two nearest ones beyond. -/
theorem isSome_gridPoint?_of_le (hm : Normal m q) (hk : (10 : ℚ) ^ k * 10 ^ 16 ≤ m * 2 ^ q) :
    (gridPoint? m q k).isSome = true := by
  obtain ⟨hbelow, habove⟩ := gridFloor_bounds m q k
  have hscale : (0 : ℚ) < 2 ^ (q - 2) := zpow_pos two_pos _
  have hlow := roundingBounds_fst hm.pos q
  have hhigh := roundingBounds_snd m q
  have hinside (c : Nat) := isInside_of_lt (m := m) (q := q) (k := k) (c := c)
  rw [zpow_quarters (e := q) (q := q) 2 (by push_cast; ring)] at hk
  push_cast at hbelow habove hinside
  rw [hhigh] at hinside
  refine isSome_gridPoint? ?_
  rcases Nat.lt_or_ge (2 ^ 52) m with hlarge | hsmall
  · have hmost : (m : ℚ) ≤ 2 ^ 53 := by exact_mod_cast hm.lt.le
    rw [if_neg (by omega)] at hlow
    rw [hlow] at hinside
    have hunit : (10 : ℚ) ^ k < 4 * 2 ^ (q - 2) := by nlinarith
    rcases lt_or_ge (((gridFloor m q k : ℚ) + 1) * 10 ^ k) ((4 * m + 2) * 2 ^ (q - 2)) with hnear | hfar
    · refine .inr (hinside _ ?_ (by push_cast; exact hnear))
      push_cast
      linarith
    · refine .inl (hinside _ ?_ ?_) <;> linarith
  · have hmost : (m : ℚ) ≤ 2 ^ 52 := by exact_mod_cast hsmall
    have hunit : (10 : ℚ) ^ k < 2 * 2 ^ (q - 2) := by nlinarith
    have hless : ((roundingBounds m q).1 : ℚ) ≤ 4 * m := by
      rw [hlow]
      split <;> linarith
    refine .inr (hinside _ ?_ ?_)
    · push_cast
      exact lt_of_le_of_lt (mul_le_mul_of_nonneg_right hless hscale.le) habove
    · push_cast
      linarith

/-! ## The digits -/

/-- Zeros at the end are taken out. -/
theorem stripZeros_eq (fuel d : Nat) (k : Int) :
    ((stripZeros fuel d k).1 : ℚ) * 10 ^ (stripZeros fuel d k).2 = d * 10 ^ k := by
  induction fuel generalizing d k with
  | zero => rfl
  | succ fuel ih =>
    rw [stripZeros]
    split
    · next h =>
      have hten : d = d / 10 * 10 := by omega
      rw [ih, zpow_add_one₀ (by norm_num)]
      conv_rhs => rw [hten]
      push_cast
      ring
    · rfl

/-- The exponent of the first digit. -/
def topExponent (m : Nat) (q : Int) : Int :=
  if 0 ≤ q then log10Ratio (m * twoTo q.toNat) 1 else log10Ratio m (twoTo (-q).toNat)

theorem tenPow_log10Ratio_le (hden : den ≠ 0) (h : (num : ℚ) / den = m * 2 ^ q) (hm : Normal m q) (hq : q ≤ 971) :
    (10 : ℚ) ^ log10Ratio num den ≤ m * 2 ^ q := by
  have hscale : (0 : ℚ) < 2 ^ q := zpow_pos two_pos _
  have hone : (1 : ℚ) ≤ m := by exact_mod_cast hm.pos
  have hmost : (m : ℚ) < 2 ^ 53 := by exact_mod_cast hm.lt
  have hleast := hm.le_exponent
  have hnum : num ≠ 0 := by
    rintro rfl
    have hpos : (0 : ℚ) < m * 2 ^ q := by positivity
    rw [← h, Nat.cast_zero, zero_div] at hpos
    exact lt_irrefl _ hpos
  obtain ⟨hbelow, habove⟩ := log2Ratio_bounds hnum hden
  rw [h] at hbelow habove
  have hexponent {a b : Int} (hab : (2 : ℚ) ^ a < 2 ^ b) : a < b := (zpow_lt_zpow_iff_right₀ one_lt_two).1 hab
  have hlow : q < log2Ratio num den + 1 := hexponent (lt_of_le_of_lt (le_mul_of_one_le_left hscale.le hone) habove)
  have hhigh : log2Ratio num den < q + 53 := by
    refine hexponent (hbelow.trans_lt ?_)
    rw [zpow_add₀ two_ne_zero, mul_comm]
    exact mul_lt_mul_of_pos_left (by exact_mod_cast hmost) hscale
  exact (log10Ratio_le hnum hden (by omega) (by omega)).trans_eq h

theorem tenPow_topExponent_le (hm : Normal m q) (hq : q ≤ 971) : (10 : ℚ) ^ topExponent m q ≤ m * 2 ^ q := by
  unfold topExponent
  split
  · next hsign =>
    refine tenPow_log10Ratio_le one_ne_zero ?_ hm hq
    obtain ⟨n, rfl⟩ := Int.eq_ofNat_of_zero_le hsign
    rw [Nat.cast_one, div_one, Nat.cast_mul, twoTo_cast, Int.toNat_natCast, zpow_natCast]
  · next hsign =>
    refine tenPow_log10Ratio_le (by simp) ?_ hm hq
    obtain ⟨n, hn⟩ := Int.eq_ofNat_of_zero_le (show 0 ≤ -q by omega)
    obtain rfl : q = -(n : Int) := by omega
    rw [twoTo_cast, neg_neg, Int.toNat_natCast, zpow_neg, zpow_natCast, div_eq_mul_inv]

theorem digits_eq (m : Nat) (q : Int) : digits m q =
    match (List.range 17).findSome? fun (n : Nat) =>
      (gridPoint? m q (topExponent m q - n)).map fun c => (c, topExponent m q - n) with
    | some (c, k) => stripZeros 18 c k
    | none => (m, 0) := rfl

/-- The digits are a point of one of the grids: the finest has one. -/
theorem exists_gridPoint? (hm : Normal m q) (hq : q ≤ 971) :
    ∃ c k, gridPoint? m q k = some c ∧ digits m q = stripZeros 18 c k := by
  have hfinest : (gridPoint? m q (topExponent m q - 16)).isSome = true := by
    refine isSome_gridPoint?_of_le hm (le_trans (le_of_eq ?_) (tenPow_topExponent_le hm hq))
    rw [← zpow_natCast, ← zpow_add₀ (by norm_num)]
    exact congrArg _ (by push_cast; ring)
  rw [digits_eq]
  cases hfound : (List.range 17).findSome? fun (n : Nat) =>
      (gridPoint? m q (topExponent m q - n)).map fun c => (c, topExponent m q - n) with
  | none =>
    have hnone := List.findSome?_eq_none_iff.1 hfound 16 (by simp)
    rw [Option.map_eq_none_iff] at hnone
    rw [Nat.cast_ofNat] at hnone
    rw [hnone] at hfinest
    cases hfinest
  | some found =>
    obtain ⟨n, -, hn⟩ := List.exists_of_findSome?_eq_some hfound
    obtain ⟨c, hpoint, rfl⟩ := Option.map_eq_some_iff.1 hn
    exact ⟨c, _, hpoint, rfl⟩

/-- The digits that are found lie around the double. -/
theorem digits_around (hm : Normal m q) (hq : q ≤ 971) : Around ((digits m q).1 * 10 ^ (digits m q).2) m q := by
  obtain ⟨c, k, hpoint, hdigits⟩ := exists_gridPoint? hm hq
  rw [hdigits, stripZeros_eq]
  exact around_of_isInside (isInside_of_gridPoint? hpoint)

/-! ## Reading -/

theorem bits_lt_infinityBits (hm : Normal m q) (hq : q ≤ 971) : (q + 1074).toNat * 2 ^ 52 + m < infinityBits := by
  have hlt := hm.lt
  rw [infinityBits_eq]
  omega

theorem natPow_length_toDigits {d : Nat} (hd : d ≠ 0) :
    (10 : ℚ) ^ ((Nat.toDigits 10 d).length - 1 : Int) ≤ d ∧ (d : ℚ) < 10 ^ ((Nat.toDigits 10 d).length : Int) := by
  have hlength : 0 < (Nat.toDigits 10 d).length := List.length_pos_iff.2 Nat.toDigits_ne_nil
  constructor
  · obtain ⟨n, hn⟩ := Nat.exists_eq_succ_of_ne_zero hlength.ne'
    rw [hn]
    push_cast
    rw [add_sub_cancel_right, zpow_natCast]
    rcases Nat.eq_zero_or_pos n with rfl | hpos
    · exact_mod_cast Nat.one_le_iff_ne_zero.2 hd
    · have hmore := mt (Nat.length_toDigits_le_iff (b := 10) (n := d) (by decide) hpos).2 (by omega)
      exact_mod_cast Nat.not_lt.1 hmore
  · rw [zpow_natCast]
    exact_mod_cast (Nat.length_toDigits_le_iff (by decide) hlength).1 (Nat.le_refl _)

theorem least_lt : (10 : ℚ) ^ (-325 : Int) < 2 ^ (-1076 : Int) := by
  have hpowers : (2 : ℚ) ^ 1076 < 10 ^ 325 := by exact_mod_cast (by decide +kernel : 2 ^ 1076 < 10 ^ 325)
  rw [zpow_neg, zpow_neg, inv_lt_inv₀ (by positivity) (by positivity)]
  exact_mod_cast hpowers

theorem lt_greatest : (2 : ℚ) ^ (1024 : Int) < 10 ^ (309 : Int) := by
  exact_mod_cast (by decide +kernel : 2 ^ 1024 < 10 ^ 309)

/-- The digits of a number around a double are neither many enough for infinity nor few enough for zero. -/
theorem size_bounds {d : Nat} (hm : Normal m q) (hq : q ≤ 971) (h : Around (d * 10 ^ k) m q) (hd : d ≠ 0) :
    -400 < k + (Nat.toDigits 10 d).length ∧ k + (Nat.toDigits 10 d).length < 400 := by
  obtain ⟨hfirst, hlast⟩ := natPow_length_toDigits hd
  generalize ((Nat.toDigits 10 d).length : Int) = size at *
  have hunit : (0 : ℚ) < 10 ^ k := zpow_pos (by norm_num) _
  have hexponent {a b : Int} (hab : (10 : ℚ) ^ a < 10 ^ b) : a < b := (zpow_lt_zpow_iff_right₀ (by norm_num)).1 hab
  have hleast : (10 : ℚ) ^ (-325 : Int) < 10 ^ (k + size) := by
    have hquarter : (2 : ℚ) ^ (-1076 : Int) ≤ 2 ^ (q - 2) := by
      have hle := hm.le_exponent
      exact zpow_le_zpow_right₀ one_le_two (by omega)
    have hlow : (1 : ℚ) ≤ (roundingBounds m q).1 := by
      have hone : (1 : ℚ) ≤ m := by exact_mod_cast hm.pos
      rw [roundingBounds_fst hm.pos]
      split <;> linarith
    calc (10 : ℚ) ^ (-325 : Int) < 2 ^ (-1076 : Int) := least_lt
      _ ≤ 1 * 2 ^ (q - 2) := by rwa [one_mul]
      _ ≤ (roundingBounds m q).1 * 2 ^ (q - 2) := by gcongr
      _ ≤ d * 10 ^ k := h.low
      _ < 10 ^ size * 10 ^ k := by gcongr
      _ = 10 ^ (k + size) := by rw [← zpow_add₀ (by norm_num), add_comm]
  have hmost : (10 : ℚ) ^ (k + size - 1) < 10 ^ (309 : Int) := by
    calc (10 : ℚ) ^ (k + size - 1) = 10 ^ (size - 1) * 10 ^ k := by
          rw [← zpow_add₀ (by norm_num)]
          congr 1
          ring
      _ ≤ d * 10 ^ k := by gcongr
      _ < 2 ^ (q + 53) := h.lt hm.lt
      _ ≤ 2 ^ (1024 : Int) := zpow_le_zpow_right₀ one_le_two (by omega)
      _ < 10 ^ (309 : Int) := lt_greatest
  have hlow := hexponent hleast
  have hhigh := hexponent hmost
  omega

/-- A number around a double is read as the double. -/
theorem ofDecimal_eq {d : Nat} {negative : Bool} (hm : Normal m q) (hq : q ≤ 971) (h : Around (d * 10 ^ k) m q) :
    ofDecimal negative d k = ofMagnitude negative ((q + 1074).toNat * 2 ^ 52 + m) := by
  have hd : d ≠ 0 := by
    rintro rfl
    have hpos := h.pos hm.pos
    rw [Nat.cast_zero, zero_mul] at hpos
    exact lt_irrefl _ hpos
  obtain ⟨hleast, hmost⟩ := size_bounds hm hq h hd
  have hbits : (if 0 ≤ k then nearestBits (d * tenTo k.toNat) 1 else nearestBits d (tenTo (-k).toNat)) =
      (q + 1074).toNat * 2 ^ 52 + m := by
    split
    · next hsign =>
      refine nearestBits_eq Nat.one_pos hm ?_
      obtain ⟨n, rfl⟩ := Int.eq_ofNat_of_zero_le hsign
      rwa [Nat.cast_one, div_one, Nat.cast_mul, tenTo_cast, Int.toNat_natCast, ← zpow_natCast]
    · next hsign =>
      refine nearestBits_eq (Nat.pow_pos (by decide)) hm ?_
      obtain ⟨n, hn⟩ := Int.eq_ofNat_of_zero_le (show 0 ≤ -k by omega)
      obtain rfl : k = -(n : Int) := by omega
      rwa [tenTo_cast, neg_neg, Int.toNat_natCast, div_eq_mul_inv, ← zpow_natCast, ← zpow_neg]
  rw [ofDecimal, if_neg hd, if_neg (by omega), if_neg (by omega)]
  simp only [hbits, Nat.min_eq_left (bits_lt_infinityBits hm hq).le]

/-- The parts of a finite double are those of its bits. -/
theorem ofMagnitude_of_parts? {x : Float} {p : Parts} (h : parts? x = some p) :
    ofMagnitude p.negative ((p.exponent + 1074).toNat * 2 ^ 52 + p.mantissa) = x ∧ p.exponent ≤ 971 ∧
      (p.mantissa = 0 → p.exponent = -1074) ∧ (p.mantissa ≠ 0 → Normal p.mantissa p.exponent) := by
  have hsize : x.toBits.toNat < 2 ^ 64 := x.toBits.toNat_lt
  unfold parts? at h
  simp only [twoTo, Nat.pow_eq] at h
  have hbits (n : Nat) (hn : n = x.toBits.toNat % 2 ^ 63) :
      ofMagnitude (decide (2 ^ 63 ≤ x.toBits.toNat)) n = x := by
    have hnat : (if decide (2 ^ 63 ≤ x.toBits.toNat) = true then twoTo 63 + n else n) = x.toBits.toNat := by
      have hpower : twoTo 63 = 2 ^ 63 := rfl
      rw [hn, hpower]
      split
      · next hsign =>
        have hsign := of_decide_eq_true hsign
        omega
      · next hsign =>
        have hsign := of_decide_eq_false (Bool.eq_false_iff.2 hsign)
        omega
    rw [ofMagnitude, hnat, UInt64.ofNat_toNat, Float.ofBits_toBits]
  split at h
  · cases h
  · split at h
    · cases h
      refine ⟨hbits _ ?_, show (-1074 : Int) ≤ 971 by decide, fun _ => rfl,
        fun hne => ⟨Nat.pos_of_ne_zero hne, ?_, Int.le_refl _, .inr rfl⟩⟩ <;>
      · dsimp only
        omega
    · cases h
      refine ⟨hbits _ ?_, ?_, fun hzero => ?_, fun hne => ⟨Nat.pos_of_ne_zero hne, ?_, ?_, .inl ?_⟩⟩ <;>
      · dsimp only at *
        omega

end Flowline.Double
