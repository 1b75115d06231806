import Flowline.Number.Shortest
import Flowline.Proofs.Number.Double

/-! # Numbers that are rounded to a double

Every number between the bounds around a double is rounded to it (`nearestBits_eq`). -/

namespace Flowline.Double

/-! ## Whole numbers near a quotient -/

/-- A number is no further than one half from a whole number, and nearer to it if that is odd. -/
structure Near (r : ℚ) (m : Nat) : Prop where
  low : (m : ℚ) - 1 / 2 ≤ r
  high : r ≤ m + 1 / 2
  odd : m % 2 = 1 → r ≠ m - 1 / 2 ∧ r ≠ m + 1 / 2

theorem roundDiv_eq {num den m : Nat} (hden : 0 < den) (hlow : 2 * (m * den) ≤ 2 * num + den)
    (hhigh : 2 * num ≤ 2 * (m * den) + den)
    (hodd : m % 2 = 1 → 2 * (m * den) ≠ 2 * num + den ∧ 2 * num ≠ 2 * (m * den) + den) : roundDiv num den = m := by
  have hnum : num / den * den + num % den = num := Nat.div_add_mod' num den
  have hrest : num % den < den := Nat.mod_lt _ hden
  unfold roundDiv
  dsimp only
  generalize num / den = whole at *
  generalize num % den = rest at *
  have hle : whole ≤ m := by
    by_contra hlt
    have hmul : (m + 1) * den ≤ whole * den := Nat.mul_le_mul_right _ (by omega)
    rw [Nat.add_mul] at hmul
    omega
  have hge : m ≤ whole + 1 := by
    by_contra hlt
    have hmul : (whole + 2) * den ≤ m * den := Nat.mul_le_mul_right _ (by omega)
    rw [Nat.add_mul] at hmul
    omega
  obtain rfl | rfl : m = whole ∨ m = whole + 1 := by omega
  · split
    · rfl
    · split <;> omega
  · rw [Nat.add_mul] at *
    split
    · omega
    · split <;> omega

theorem roundDiv_of_near {num den m : Nat} (hden : 0 < den) (h : Near ((num : ℚ) / den) m) : roundDiv num den = m := by
  have hpos : (0 : ℚ) < den := by exact_mod_cast hden
  obtain ⟨hlow, hhigh, hodd⟩ := h
  rw [le_div_iff₀ hpos] at hlow
  rw [div_le_iff₀ hpos] at hhigh
  refine roundDiv_eq hden ?_ ?_ fun hm => ?_
  · have h2 : (2 * (m * den) : ℚ) ≤ 2 * num + den := by linarith
    exact_mod_cast h2
  · have h2 : (2 * num : ℚ) ≤ 2 * (m * den) + den := by linarith
    exact_mod_cast h2
  · obtain ⟨hneLow, hneHigh⟩ := hodd hm
    refine ⟨fun heq => hneLow ?_, fun heq => hneHigh ?_⟩
    · have h2 : (2 * (m * den) : ℚ) = 2 * num + den := by exact_mod_cast heq
      rw [div_eq_iff hpos.ne']
      linarith
    · have h2 : (2 * num : ℚ) = 2 * (m * den) + den := by exact_mod_cast heq
      rw [div_eq_iff hpos.ne']
      linarith

/-! ## Quotients and powers -/

theorem twoTo_cast (n : Nat) : (twoTo n : ℚ) = 2 ^ n := by
  rw [twoTo, Nat.pow_eq]
  exact_mod_cast rfl

theorem tenTo_cast (n : Nat) : (tenTo n : ℚ) = 10 ^ n := by
  rw [tenTo, Nat.pow_eq]
  exact_mod_cast rfl

/-- A quotient is compared with a power of a base in whole numbers. -/
theorem div_lt_zpow_iff {base num den : Nat} (hbase : 0 < base) (hden : 0 < den) (e : Int) :
    (num : ℚ) / den < (base : ℚ) ^ e ↔
      if 0 ≤ e then num < den * base ^ e.toNat else num * base ^ (-e).toNat < den := by
  have hden' : (0 : ℚ) < den := by exact_mod_cast hden
  have hbase' : (0 : ℚ) < base := by exact_mod_cast hbase
  rw [div_lt_iff₀ hden']
  split
  · next he =>
    obtain ⟨n, rfl⟩ := Int.eq_ofNat_of_zero_le he
    rw [Int.toNat_natCast, zpow_natCast, mul_comm]
    exact_mod_cast Iff.rfl
  · next he =>
    obtain ⟨n, hn⟩ := Int.eq_ofNat_of_zero_le (show 0 ≤ -e by omega)
    obtain rfl : e = -(n : Int) := by omega
    have hpow : (0 : ℚ) < (base : ℚ) ^ n := pow_pos hbase' n
    rw [neg_neg, Int.toNat_natCast, zpow_neg, zpow_natCast, inv_mul_eq_div, lt_div_iff₀ hpow]
    exact_mod_cast Iff.rfl

theorem zpow_le_div_iff {base num den : Nat} (hbase : 0 < base) (hden : 0 < den) (e : Int) :
    (base : ℚ) ^ e ≤ (num : ℚ) / den ↔
      if 0 ≤ e then den * base ^ e.toNat ≤ num else den ≤ num * base ^ (-e).toNat := by
  rw [← not_lt, div_lt_zpow_iff hbase hden]
  split <;> exact Nat.not_lt

/-- The power of two at most a quotient, and the next one beyond it. -/
theorem log2Ratio_bounds {num den : Nat} (hnum : num ≠ 0) (hden : den ≠ 0) :
    (2 : ℚ) ^ log2Ratio num den ≤ (num : ℚ) / den ∧ (num : ℚ) / den < 2 ^ (log2Ratio num den + 1) := by
  have hpos : (0 : ℚ) < den := by exact_mod_cast Nat.pos_of_ne_zero hden
  have hnumLow : (2 : ℚ) ^ num.log2 ≤ num := by exact_mod_cast Nat.log2_self_le hnum
  have hnumHigh : (num : ℚ) < 2 ^ (num.log2 + 1) := by exact_mod_cast Nat.lt_log2_self
  have hdenLow : (2 : ℚ) ^ den.log2 ≤ den := by exact_mod_cast Nat.log2_self_le hden
  have hdenHigh : (den : ℚ) < 2 ^ (den.log2 + 1) := by exact_mod_cast Nat.lt_log2_self
  have hguess : (num : ℚ) / den < ((2 : Nat) : ℚ) ^ ((num.log2 : Int) - den.log2) ↔ _ :=
    div_lt_zpow_iff (by decide) (Nat.pos_of_ne_zero hden) _
  have hbelow : (2 : ℚ) ^ ((num.log2 : Int) - den.log2 - 1) ≤ (num : ℚ) / den := by
    rw [le_div_iff₀ hpos]
    calc (2 : ℚ) ^ ((num.log2 : Int) - den.log2 - 1) * den
        ≤ 2 ^ ((num.log2 : Int) - den.log2 - 1) * 2 ^ (den.log2 + 1) := by gcongr
      _ = 2 ^ num.log2 := by
          rw [← zpow_natCast, ← zpow_natCast, ← zpow_add₀ two_ne_zero]
          congr 1
          push_cast
          ring
      _ ≤ num := hnumLow
  have habove : (num : ℚ) / den < 2 ^ ((num.log2 : Int) - den.log2 + 1) := by
    rw [div_lt_iff₀ hpos]
    calc (num : ℚ) < 2 ^ (num.log2 + 1) := hnumHigh
      _ = 2 ^ ((num.log2 : Int) - den.log2 + 1) * 2 ^ den.log2 := by
          rw [← zpow_natCast, ← zpow_natCast, ← zpow_add₀ two_ne_zero]
          congr 1
          push_cast
          ring
      _ ≤ 2 ^ ((num.log2 : Int) - den.log2 + 1) * den := by gcongr
  have hlow : (if 0 ≤ (num.log2 : Int) - den.log2 then decide (num < den * twoTo ((num.log2 : Int) - den.log2).toNat)
      else decide (num * twoTo (-((num.log2 : Int) - den.log2)).toNat < den)) =
      decide ((num : ℚ) / den < 2 ^ ((num.log2 : Int) - den.log2)) := by
    rw [Nat.cast_ofNat] at hguess
    split
    · next h =>
      rw [if_pos h] at hguess
      exact decide_eq_decide.2 hguess.symm
    · next h =>
      rw [if_neg h] at hguess
      exact decide_eq_decide.2 hguess.symm
  rw [log2Ratio]
  simp only [hlow, decide_eq_true_eq]
  split
  · next h => exact ⟨hbelow, by rwa [sub_add_cancel]⟩
  · next h => exact ⟨not_lt.1 h, habove⟩

/-! ## The numbers around a double -/

/-- A mantissa of 53 bits, or of fewer with the least exponent. -/
structure Normal (m : Nat) (q : Int) : Prop where
  pos : 0 < m
  lt : m < 2 ^ 53
  le_exponent : -1074 ≤ q
  full : 2 ^ 52 ≤ m ∨ q = -1074

/-- A number between the bounds of those that are rounded to `m * 2 ^ q`, to which the bounds themselves belong if
the mantissa is even. -/
structure Around (r : ℚ) (m : Nat) (q : Int) : Prop where
  low : (roundingBounds m q).1 * 2 ^ (q - 2) ≤ r
  high : r ≤ (roundingBounds m q).2 * 2 ^ (q - 2)
  odd : m % 2 = 1 → r ≠ (roundingBounds m q).1 * 2 ^ (q - 2) ∧ r ≠ (roundingBounds m q).2 * 2 ^ (q - 2)

variable {num den m : Nat} {q : Int}

theorem nearestBits_of_near (hnum : num ≠ 0) (hden : 0 < den) (hq : max (log2Ratio num den - 52) (-1074) = q)
    (h : Near ((num : ℚ) / den / 2 ^ q) m) : nearestBits num den = (q + 1074).toNat * 2 ^ 52 + m := by
  have hround : (if 0 ≤ q then roundDiv num (den * twoTo q.toNat) else roundDiv (num * twoTo (-q).toNat) den) = m := by
    split
    · next hpos =>
      refine roundDiv_of_near (Nat.mul_pos hden (Nat.two_pow_pos _)) ?_
      obtain ⟨n, rfl⟩ := Int.eq_ofNat_of_zero_le hpos
      rw [zpow_natCast, div_div] at h
      rw [twoTo, Nat.pow_eq, Int.toNat_natCast]
      exact_mod_cast h
    · next hneg =>
      refine roundDiv_of_near hden ?_
      obtain ⟨n, hn⟩ := Int.eq_ofNat_of_zero_le (show 0 ≤ -q by omega)
      obtain rfl : q = -(n : Int) := by omega
      rw [zpow_neg, zpow_natCast, div_inv_eq_mul, div_mul_eq_mul_div] at h
      rw [twoTo, Nat.pow_eq, neg_neg, Int.toNat_natCast]
      exact_mod_cast h
  rw [nearestBits, if_neg hnum]
  simp only [hq, hround]
  rfl

/-- Powers of two in quarters of `2 ^ q`. -/
theorem zpow_quarters {e q : Int} (n : Nat) (he : e = q - 2 + n) : (2 : ℚ) ^ e = 2 ^ n * 2 ^ (q - 2) := by
  rw [he, zpow_add₀ two_ne_zero, zpow_natCast, mul_comm]

theorem roundingBounds_snd (m : Nat) (q : Int) : ((roundingBounds m q).2 : ℚ) = 4 * m + 2 := by
  rw [roundingBounds]
  push_cast
  rfl

/-- The lower bound is one half below the mantissa, and one quarter below a power of two. -/
theorem roundingBounds_fst (hm : 0 < m) (q : Int) : ((roundingBounds m q).1 : ℚ) =
    if m = 2 ^ 52 ∧ -1074 < q then 4 * (m : ℚ) - 1 else 4 * (m : ℚ) - 2 := by
  have hcast (n : Nat) (hn : n ≤ 4 * m) : ((4 * m - n : Nat) : ℚ) = 4 * (m : ℚ) - n := by
    rw [Nat.cast_sub hn]
    push_cast
    rfl
  have hpower : twoTo 52 = 2 ^ 52 := rfl
  rw [roundingBounds, hpower]
  by_cases h : m = 2 ^ 52 ∧ -1074 < q
  · rw [if_pos h, if_pos h, hcast 1 (by omega), Nat.cast_one]
  · rw [if_neg h, if_neg h, hcast 2 (by omega), Nat.cast_ofNat]

namespace Around

variable {r : ℚ} (h : Around r m q)
include h

theorem near (hm : 0 < m) : Near (r / 2 ^ q) m := by
  obtain ⟨hlow, hhigh, hodd⟩ := h
  have hscale : (0 : ℚ) < 2 ^ (q - 2) := zpow_pos two_pos _
  rw [roundingBounds_fst hm] at hlow hodd
  rw [roundingBounds_snd] at hhigh hodd
  rw [zpow_quarters (e := q) (q := q) 2 (by push_cast; ring)]
  generalize (2 : ℚ) ^ (q - 2) = scale at *
  have hpos : (0 : ℚ) < 2 ^ 2 * scale := by linarith
  refine ⟨?_, ?_, fun hm => ?_⟩
  · rw [le_div_iff₀ hpos]
    split at hlow <;> linarith
  · rw [div_le_iff₀ hpos]
    linarith
  · obtain ⟨hneLow, hneHigh⟩ := hodd hm
    rw [if_neg (by rintro ⟨rfl, -⟩; exact absurd hm (by decide))] at hneLow
    refine ⟨fun heq => hneLow ?_, fun heq => hneHigh ?_⟩
    · rw [div_eq_iff hpos.ne'] at heq
      linarith
    · rw [div_eq_iff hpos.ne'] at heq
      linarith

theorem pos (hm : 0 < m) : 0 < r := by
  have hscale : (0 : ℚ) < 2 ^ (q - 2) := zpow_pos two_pos _
  have hone : (1 : ℚ) ≤ m := by exact_mod_cast hm
  refine lt_of_lt_of_le (mul_pos ?_ hscale) h.low
  rw [roundingBounds_fst hm]
  split <;> linarith

/-- A number around a double is less than the next power of two. -/
theorem lt (hm : m < 2 ^ 53) : r < 2 ^ (q + 53) := by
  have hscale : (0 : ℚ) < 2 ^ (q - 2) := zpow_pos two_pos _
  have hle : (m : ℚ) + 1 ≤ 2 ^ 53 := by exact_mod_cast hm
  have hhigh := h.high
  rw [roundingBounds_snd] at hhigh
  calc r ≤ (4 * m + 2) * 2 ^ (q - 2) := hhigh
    _ < 2 ^ 55 * 2 ^ (q - 2) := by gcongr; linarith
    _ = 2 ^ (q + 53) := (zpow_quarters 55 (by push_cast; ring)).symm

/-- Only a power of two has numbers around it that are less. -/
theorem eq_of_lt (hm : 2 ^ 52 ≤ m) (hq : -1074 < q) (hr : r < 2 ^ (q + 52)) :
    m = 2 ^ 52 ∧ (2 ^ 54 - 1) * (2 : ℚ) ^ (q - 2) ≤ r := by
  have hscale : (0 : ℚ) < 2 ^ (q - 2) := zpow_pos two_pos _
  have hlow := h.low
  rw [roundingBounds_fst (by omega)] at hlow
  have hpower : (2 : ℚ) ^ (q + 52) = 2 ^ 54 * 2 ^ (q - 2) := zpow_quarters 54 (by push_cast; ring)
  split at hlow
  · next hcase =>
    refine ⟨hcase.1, le_trans ?_ hlow⟩
    rw [hcase.1]
    norm_num
  · next hcase =>
    have hmore : (2 : ℚ) ^ 52 + 1 ≤ m := by
      have hne : m ≠ 2 ^ 52 := fun heq => hcase ⟨heq, hq⟩
      exact_mod_cast (show 2 ^ 52 + 1 ≤ m by omega)
    rw [hpower] at hr
    have hmul : ((2 : ℚ) ^ 54 + 2) * 2 ^ (q - 2) ≤ (4 * m - 2) * 2 ^ (q - 2) := by
      gcongr
      linarith
    linarith

omit h in
/-- A number next to a power of two and below it, with the finer grid there. -/
theorem near_below (hlow : (2 ^ 54 - 1) * (2 : ℚ) ^ (q - 2) ≤ r) (hhigh : r < 2 ^ (q + 52)) :
    Near (r / 2 ^ (q - 1)) (2 ^ 53) := by
  have hscale : (0 : ℚ) < 2 ^ (q - 2) := zpow_pos two_pos _
  rw [zpow_quarters (q := q) 54 (by push_cast; ring)] at hhigh
  rw [zpow_quarters (q := q) 1 (by push_cast; ring)]
  generalize (2 : ℚ) ^ (q - 2) = scale at *
  refine ⟨?_, ?_, fun hodd => absurd hodd (by decide)⟩
  · rw [le_div_iff₀ (by linarith)]
    push_cast
    linarith
  · rw [div_le_iff₀ (by linarith)]
    push_cast
    linarith

end Around

/-- A quotient around a double is rounded to its bits. -/
theorem nearestBits_eq (hden : 0 < den) (hm : Normal m q) (h : Around ((num : ℚ) / den) m q) :
    nearestBits num den = (q + 1074).toNat * 2 ^ 52 + m := by
  have hnum : num ≠ 0 := by
    rintro rfl
    simpa using h.pos hm.pos
  obtain ⟨hbelow, habove⟩ := log2Ratio_bounds hnum hden.ne'
  have hexponent {a b : Int} (hab : (2 : ℚ) ^ a < 2 ^ b) : a < b := (zpow_lt_zpow_iff_right₀ one_lt_two).1 hab
  have hmost : log2Ratio num den < q + 53 := hexponent (hbelow.trans_lt (h.lt hm.lt))
  have hleast := hm.le_exponent
  rcases Int.lt_or_le (max (log2Ratio num den - 52) (-1074)) q with hless | hge
  · have hfull : 2 ^ 52 ≤ m := hm.full.resolve_right (by omega)
    have hpower : (2 : ℚ) ^ (log2Ratio num den + 1) ≤ 2 ^ (q + 52) := zpow_le_zpow_right₀ one_le_two (by omega)
    have hr := habove.trans_le hpower
    obtain ⟨rfl, hlow⟩ := h.eq_of_lt hfull (by omega) hr
    have hexact : q - 1 ≤ log2Ratio num den - 52 := by
      have hscale : (0 : ℚ) < 2 ^ (q - 2) := zpow_pos two_pos _
      have hpowers : (2 : ℚ) ^ (q + 51) < 2 ^ (log2Ratio num den + 1) := by
        refine lt_of_le_of_lt ?_ habove
        rw [zpow_quarters (q := q) 53 (by push_cast; ring)]
        linarith
      have hless := hexponent hpowers
      omega
    rw [nearestBits_of_near hnum hden (q := q - 1) (by omega) (Around.near_below hlow hr)]
    omega
  · exact nearestBits_of_near hnum hden (by omega) (h.near hm.pos)

end Flowline.Double
