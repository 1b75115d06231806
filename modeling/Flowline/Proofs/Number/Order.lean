import Flowline.Number.Double
import Mathlib.Data.Prod.Lex
import Mathlib.Tactic.SplitIfs

/-! # The order of doubles

Doubles other than NaN are in a linear order. The place of one in it is a kind, from negative infinity to
infinity, and within a kind an exponent and a mantissa. -/

namespace Flowline.Double
open Float.Model Float.Model.UnpackedFloat

/-- The place of a double in the order; NaN has none. -/
def place? : UnpackedFloat → Option (Int ×ₗ Int ×ₗ Int)
  | .notANumber => none
  | .infinity .negative => some (toLex (-2, toLex (0, 0)))
  | .finite .negative m e _ => some (toLex (-1, toLex (-e, -(m : Int))))
  | .zero _ => some (toLex (0, toLex (0, 0)))
  | .finite .positive m e _ => some (toLex (1, toLex (e, (m : Int))))
  | .infinity .positive => some (toLex (2, toLex (0, 0)))

theorem compare_neg (a b : Int) : compare (-a) (-b) = (compare a b).swap := by
  simp only [compare, compareOfLessAndEq]
  split_ifs <;> first | rfl | omega

theorem compare_cast (a b : Nat) : compare (a : Int) (b : Int) = compare a b := by
  simp only [compare, compareOfLessAndEq]
  split_ifs <;> first | rfl | omega

theorem swap_then (a b : Ordering) : (a.then b).swap = a.swap.then b.swap := by
  cases a <;> rfl

/-- Doubles are compared as their places are. -/
theorem compare_eq_place (a b : UnpackedFloat) :
    a.compare b = do return compare (← place? a) (← place? b) := by
  cases a with
  | notANumber => rfl
  | infinity s =>
    cases b with
    | notANumber => cases s <;> rfl
    | infinity t => cases s <;> cases t <;> rfl
    | zero t => cases s <;> rfl
    | finite t m e h => cases s <;> cases t <;> rfl
  | zero s =>
    cases b with
    | notANumber => rfl
    | infinity t => cases t <;> rfl
    | zero t => rfl
    | finite t m e h => cases t <;> rfl
  | finite s m e h =>
    cases b with
    | notANumber => cases s <;> rfl
    | infinity t => cases s <;> cases t <;> rfl
    | zero t => cases s <;> rfl
    | finite t m' e' h' =>
      cases s with
      | negative =>
        cases t with
        | negative =>
          change some _ = some ((compare (-1 : Int) (-1)).then
            ((compare (-e) (-e')).then (compare (-(m : Int)) (-(m' : Int)))))
          rw [compare_neg e, compare_neg (m : Int), compare_cast, ← swap_then]
          rfl
        | positive => rfl
      | positive =>
        cases t with
        | negative => rfl
        | positive =>
          change some _ = some ((compare (1 : Int) 1).then
            ((compare e e').then (compare (m : Int) (m' : Int))))
          rw [compare_cast]
          rfl

variable {x y z : Float}

theorem lt_iff_place : x < y ↔ ∃ p q, place? x.toModel.unpack = some p ∧
    place? y.toModel.unpack = some q ∧ p < q := by
  change decide (UnpackedFloat.lt _ _ = true) = true ↔ _
  simp only [UnpackedFloat.lt, decide_eq_true_eq, compare_eq_place]
  cases place? x.toModel.unpack <;> cases place? y.toModel.unpack <;> simp [compare_lt_iff_lt]

theorem le_iff_place : x ≤ y ↔ ∃ p q, place? x.toModel.unpack = some p ∧
    place? y.toModel.unpack = some q ∧ p ≤ q := by
  change decide (UnpackedFloat.le _ _ = true) = true ↔ _
  simp only [UnpackedFloat.le, decide_eq_true_eq, compare_eq_place]
  cases place? x.toModel.unpack <;> cases place? y.toModel.unpack <;>
    simp [Ordering.isLE_iff_ne_gt, compare_gt_iff_gt]

theorem beq_iff_place : (x == y) = true ↔ ∃ p, place? x.toModel.unpack = some p ∧
    place? y.toModel.unpack = some p := by
  change (x.toModel.unpack.compare y.toModel.unpack == some .eq) = true ↔ _
  rw [compare_eq_place]
  cases place? x.toModel.unpack with
  | none => simp
  | some p =>
    cases place? y.toModel.unpack with
    | none => simp
    | some q =>
      change (some (compare p q) == some .eq) = true ↔ _
      rw [beq_iff_eq, Option.some.injEq, compare_eq_iff_eq]
      exact ⟨fun h => ⟨p, rfl, congrArg some h.symm⟩, fun ⟨r, hp, hq⟩ =>
        (Option.some.inj hp).trans (Option.some.inj hq).symm⟩

protected theorem le_trans (hxy : x ≤ y) (hyz : y ≤ z) : x ≤ z := by
  obtain ⟨p, q, hp, hq, hpq⟩ := le_iff_place.1 hxy
  obtain ⟨q', r, hq', hr, hqr⟩ := le_iff_place.1 hyz
  obtain rfl := Option.some.inj (hq.symm.trans hq')
  exact le_iff_place.2 ⟨p, r, hp, hr, hpq.trans hqr⟩

protected theorem lt_of_le_of_lt (hxy : x ≤ y) (hyz : y < z) : x < z := by
  obtain ⟨p, q, hp, hq, hpq⟩ := le_iff_place.1 hxy
  obtain ⟨q', r, hq', hr, hqr⟩ := lt_iff_place.1 hyz
  obtain rfl := Option.some.inj (hq.symm.trans hq')
  exact lt_iff_place.2 ⟨p, r, hp, hr, hpq.trans_lt hqr⟩

/-- Two doubles that are at most a third one are in order. -/
protected theorem lt_of_not_le (hxy : x ≤ y) (hzy : z ≤ y) (hzx : ¬ z ≤ x) : x < z := by
  obtain ⟨p, -, hp, -, -⟩ := le_iff_place.1 hxy
  obtain ⟨r, -, hr, -, -⟩ := le_iff_place.1 hzy
  refine lt_iff_place.2 ⟨p, r, hp, hr, lt_of_not_ge fun hrp => hzx ?_⟩
  exact le_iff_place.2 ⟨r, p, hr, hp, hrp⟩

theorem compare?_of_le (h : y ≤ x) : ∃ order, compare? x y = some order ∧ order ≠ .lt := by
  obtain ⟨q, p, hq, hp, hqp⟩ := le_iff_place.1 h
  have hnot : ¬ x < y := by
    intro hxy
    obtain ⟨p', q', hp', hq', hpq⟩ := lt_iff_place.1 hxy
    obtain rfl := Option.some.inj (hp.symm.trans hp')
    obtain rfl := Option.some.inj (hq.symm.trans hq')
    exact absurd hqp (not_le_of_gt hpq)
  rw [compare?, if_neg hnot]
  obtain hlt | rfl := lt_or_eq_of_le hqp
  · rw [if_pos (lt_iff_place.2 ⟨q, p, hq, hp, hlt⟩)]
    exact ⟨.gt, rfl, nofun⟩
  · split
    · exact ⟨.gt, rfl, nofun⟩
    · rw [if_pos (beq_iff_place.2 ⟨q, hp, hq⟩)]
      exact ⟨.eq, rfl, nofun⟩

end Flowline.Double
