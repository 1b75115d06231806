import Flowline.Proofs.Condition.Comparisons
import Flowline.Proofs.Number.Arithmetic
import Flowline.Proofs.Time.Reading

/-! # Dates relative to the time

The tests `days_ago` and `days_from_now` compare the days between a moment and the time with a number, which bounds
them on one side only: what is later is within any number of days ago, and what is earlier within any number of days
from now. Days are doubles, and their comparison with whole numbers is exact where the timestamps are. -/

namespace Flowline

open Double

/-! ## Timestamps -/

namespace Moment

/-- The timestamp is the time in seconds itself, and not only a double next to it. -/
def HasExactTimestamp (m : Moment) : Prop := value? m.timestamp = some ((m.micros : ℚ) / 1000000)

variable {m a b : Moment}

theorem abs_seconds_lt (hm : m.Proper) : |(m.micros : ℚ) / 1000000| < 2 ^ (40 : Int) := by
  have hlt : ((m.micros.natAbs : Int) : ℚ) < 2 ^ 59 := by exact_mod_cast hm.natAbs_micros_lt
  rw [abs_div, ← Int.cast_abs, Int.abs_eq_natAbs, div_lt_iff₀ (by norm_num)]
  norm_num at hlt ⊢
  linarith

/-- A proper moment has a timestamp next to its time. -/
theorem exists_timestamp (hm : m.Proper) :
    ∃ t, value? m.timestamp = some t ∧ Rounds ((m.micros : ℚ) / 1000000) t ∧ |t| < 2 ^ 41 := by
  have hbound := abs_seconds_lt hm
  have hlt {e : Int} (he : 40 ≤ e) : |(m.micros : ℚ) / 1000000| < 2 ^ e :=
    hbound.trans_le (zpow_le_zpow_right₀ one_le_two he)
  obtain ⟨x, t, hx, ht, hrounds⟩ := exists_nearest_int? m.micros (by decide : 0 < 1000000) (hlt (by decide))
  have htimestamp : m.timestamp = x := by rw [timestamp, hx, Option.getD_some]
  have hnear := hrounds.abs_sub_lt (e := 0) (hlt (by decide)) (by decide)
  refine ⟨t, htimestamp ▸ ht, hrounds, ?_⟩
  have hsum := abs_sub_abs_le_abs_sub t ((m.micros : ℚ) / 1000000)
  norm_num at hnear hbound ⊢
  linarith

/-- A timestamp is exact where the time is a whole number of 64ths of a second. -/
theorem hasExactTimestamp_iff (hm : m.Proper) : m.HasExactTimestamp ↔ 15625 ∣ m.micros := by
  obtain ⟨t, ht, hrounds, -⟩ := exists_timestamp hm
  unfold HasExactTimestamp
  rw [ht, Option.some.injEq]
  constructor
  · rintro rfl
    obtain ⟨k, e, -, hk, -, -⟩ := hrounds
    have hpower : (2 : ℚ) ^ e = 2 ^ e.toNat / 2 ^ (-e).toNat := by
      rw [← zpow_natCast, ← zpow_natCast, ← zpow_sub₀ two_ne_zero]
      congr 1
      omega
    rw [hpower, ← mul_div_assoc, div_eq_div_iff (by norm_num) (by positivity)] at hk
    have hwhole : m.micros * 2 ^ (-e).toNat = k * 2 ^ e.toNat * 64 * 15625 := by
      have hcast : m.micros * 2 ^ (-e).toNat = k * 2 ^ e.toNat * 1000000 := by exact_mod_cast hk
      omega
    -- a double is a whole number over a power of two, which leaves the odd part of a million to the numerator
    have hcoprime : IsCoprime (15625 : Int) (2 ^ (-e).toNat) := IsCoprime.pow_right (by norm_num)
    exact hcoprime.dvd_of_dvd_mul_right (hwhole ▸ Dvd.intro_left _ rfl)
  · rintro ⟨k, hk⟩
    have hsize := hm.natAbs_micros_lt
    refine hrounds.eq (k := k) (e := -6) ?_ (by decide) ?_
    · rw [hk]
      push_cast
      norm_num
      ring
    · rw [Int.abs_eq_natAbs]
      omega

/-- The days from one moment to a later one. -/
def daysBetween (later earlier : Moment) : Float := (later.timestamp - earlier.timestamp) / Operator.secondsPerDay

theorem value?_secondsPerDay : value? Operator.secondsPerDay = some 86400 := by decide +kernel

/-- A number of 64ths of a second as days, rounded, is compared with whole numbers as the number itself: it is exact
where it is whole, and further than the rounding from every other whole number. -/
theorem le_whole_iff {z n : Int} {days : ℚ} (h : Rounds ((z : ℚ) / 5529600) days) (hz : |z| < 2 ^ 47) :
    days ≤ n ↔ z ≤ n * 5529600 := by
  have hsize : |(z : ℚ)| < 2 ^ 47 := by exact_mod_cast hz
  have hquotient : |(z : ℚ) / 5529600| < 2 ^ (25 : Int) := by
    rw [abs_div, div_lt_iff₀ (by norm_num)]
    norm_num at hsize ⊢
    linarith
  have hnear := h.abs_sub_lt (e := -28) (hquotient.trans_eq (by norm_num)) (by decide)
  norm_num at hnear
  obtain ⟨hlow, hhigh⟩ := abs_lt.1 hnear
  rcases Int.lt_trichotomy z (n * 5529600) with hless | heq | hmore
  · have hgap : (z : ℚ) / 5529600 ≤ n - 1 / 5529600 := by
      rw [div_le_iff₀ (by norm_num), sub_mul]
      have hcast : (z : ℚ) + 1 ≤ n * 5529600 := by exact_mod_cast hless
      linarith
    exact iff_of_true (by linarith) hless.le
  · have hwhole : (z : ℚ) / 5529600 = n := by
      rw [heq, Int.cast_mul, Int.cast_ofNat, mul_div_cancel_right₀ _ (by norm_num)]
    have hexact : days = (z : ℚ) / 5529600 :=
      h.eq (k := n) (e := 0) (by rw [hwhole, zpow_zero, mul_one]) (by decide) (by rw [abs_lt] at hz ⊢; omega)
    exact iff_of_true (by rw [hexact, hwhole]) heq.le
  · have hgap : (n : ℚ) + 1 / 5529600 ≤ (z : ℚ) / 5529600 := by
      rw [le_div_iff₀ (by norm_num), add_mul]
      have hcast : (n : ℚ) * 5529600 + 1 ≤ z := by exact_mod_cast hmore
      linarith
    exact iff_of_false (by linarith) (not_le.2 hmore)

/-- The days between proper moments are rounded twice: the difference of the timestamps, and its quotient. -/
theorem exists_daysBetween_rounds (ha : a.Proper) (hb : b.Proper) : ∃ s t d days,
    value? a.timestamp = some s ∧ value? b.timestamp = some t ∧ value? (daysBetween a b) = some days ∧
      Rounds (s - t) d ∧ Rounds (d / 86400) days := by
  obtain ⟨s, hs, -, hsmall⟩ := exists_timestamp ha
  obtain ⟨t, ht, -, hsmall'⟩ := exists_timestamp hb
  have hdistance : |s - t| < 2 ^ 43 := by
    have htriangle := abs_sub s t
    linarith
  have hlt {e : Int} (he : 43 ≤ e) : (2 : ℚ) ^ 43 ≤ 2 ^ e := by
    rw [← zpow_natCast]
    exact zpow_le_zpow_right₀ one_le_two (by exact_mod_cast he)
  -- the calendar is so short that neither operation comes near the largest double
  obtain ⟨d, hd, hrounds⟩ := value?_sub hs ht (hdistance.trans_le (hlt (by decide)))
  have hnear := hrounds.abs_sub_lt (e := 0) (hdistance.trans_le (hlt (by decide))) (by decide)
  have hsize : |d / 86400| < 2 ^ 43 := by
    have hsum := abs_sub_abs_le_abs_sub d (s - t)
    rw [abs_div, div_lt_iff₀ (by norm_num)]
    norm_num at hnear hdistance ⊢
    linarith
  obtain ⟨days, hdays, hrounds'⟩ := value?_div hd value?_secondsPerDay (by norm_num)
    (hsize.trans_le (hlt (by decide)))
  exact ⟨s, t, d, days, hs, ht, hdays, hrounds, hrounds'⟩

/-- Exact timestamps differ by a number of 64ths of a second, which is not rounded. -/
theorem exists_sixtyFourths (ha : a.Proper) (hb : b.Proper) (hexact : a.HasExactTimestamp)
    (hexact' : b.HasExactTimestamp) : ∃ z : Int, a.micros - b.micros = 15625 * z ∧ |z| < 2 ^ 47 ∧
      ∀ d, Rounds ((a.micros : ℚ) / 1000000 - b.micros / 1000000) d → d / 86400 = z / 5529600 := by
  obtain ⟨k, hk⟩ := (hasExactTimestamp_iff ha).1 hexact
  obtain ⟨l, hl⟩ := (hasExactTimestamp_iff hb).1 hexact'
  have hsize := ha.natAbs_micros_lt
  have hsize' := hb.natAbs_micros_lt
  have hz : |k - l| < 2 ^ 47 := by
    rw [abs_lt]
    omega
  refine ⟨k - l, by omega, hz, fun d hrounds => ?_⟩
  have hdifference : (a.micros : ℚ) / 1000000 - b.micros / 1000000 = (k - l : Int) * 2 ^ (-6 : Int) := by
    rw [hk, hl]
    push_cast
    norm_num
    ring
  rw [hrounds.eq hdifference (by decide) (hz.trans (by decide)), hdifference]
  norm_num
  ring

/-- The days between proper moments: there are none where the order is the other way, and they are compared exactly
with whole numbers where the timestamps are exact. -/
theorem exists_daysBetween (ha : a.Proper) (hb : b.Proper) :
    ∃ days, value? (daysBetween a b) = some days ∧ (a.timestamp < b.timestamp → days ≤ 0) ∧
      (a.HasExactTimestamp → b.HasExactTimestamp → ∀ n : Int, days ≤ n ↔ a.micros - b.micros ≤ n * microsPerDay) := by
  obtain ⟨s, t, d, days, hs, ht, hdays, hrounds, hrounds'⟩ := exists_daysBetween_rounds ha hb
  refine ⟨days, hdays, fun hbefore => ?_, fun hexact hexact' n => ?_⟩
  · have hless := (lt_iff_value hs ht).1 hbefore
    have hd := hrounds.nonpos (by linarith)
    exact hrounds'.nonpos (div_nonpos_of_nonpos_of_nonneg hd (by norm_num))
  · obtain ⟨z, hmicros, hz, hquotient⟩ := exists_sixtyFourths ha hb hexact hexact'
    obtain rfl := Option.some.inj (hs.symm.trans hexact)
    obtain rfl := Option.some.inj (ht.symm.trans hexact')
    rw [hquotient d hrounds] at hrounds'
    rw [le_whole_iff hrounds' hz, hmicros, microsPerDay, microsPerSecond]
    constructor <;> intro h <;> omega

end Moment

/-! ## The operators -/

namespace Operator

variable [Calendar] {now m : Moment} {v : Value}

theorem timestampOf_eq (hv : Moment.ofValue v now = .ok (some m)) :
    Moment.timestampOf v now = .ok (some m.timestamp) := by
  rw [Moment.timestampOf, hv]
  rfl

theorem compareWithNow_eq (hv : Moment.ofValue v now = .ok (some m)) (holds : Float → Float → Bool) (w : Value) :
    compareWithNow now holds v w = .ok (holds m.timestamp now.timestamp) := by
  rw [compareWithNow, timestampOf_eq hv]
  rfl

/-- The days between a moment and the time are compared with the whole number, as rounded to a double. -/
theorem withinDays_eq {between : Float → Float → Float} {days : ℚ} (hv : Moment.ofValue v now = .ok (some m))
    (hdays : value? (between m.timestamp now.timestamp / secondsPerDay) = some days) (n : Int) :
    (HasDouble n → withinDays now between v (.int n) = .ok (decide (days ≤ nearestWhole n))) ∧
      (¬ HasDouble n → withinDays now between v (.int n) = .error .overflow) := by
  unfold withinDays HasDouble
  rw [timestampOf_eq hv]
  simp only [bind, Except.bind, Value.leadingNumber]
  rcases Comparison.toFloat_cases n with ⟨hlarge, hfault⟩ | ⟨x, hfinite, hx, hvalue⟩
  · rw [hfault]
    exact ⟨fun hfinite => absurd hfinite (Nat.not_lt.2 hlarge), fun _ => rfl⟩
  · refine ⟨fun _ => ?_, fun hlarge => absurd hfinite hlarge⟩
    rw [hvalue]
    simp only [Number.toInt, truncate?_of_ofInt? hx, compareInt?_eq hdays]
    rcases lt_trichotomy (nearestWhole n : ℚ) days with h | h | h
    · rw [compare_lt_iff_lt.2 h, decide_eq_false h.not_ge]
      rfl
    · rw [compare_eq_iff_eq.2 h, decide_eq_true h.ge]
      rfl
    · rw [compare_gt_iff_gt.2 h, decide_eq_true h.le]
      rfl

end Operator

namespace Double

/-- Multiples of a whole number and of it as rounded are alike for what is not too large. -/
theorem le_nearestWhole_mul_iff {n d : Int} (hn : 0 ≤ n) (hd : d ≤ 2 ^ 62) (c : Int) (hc : 2 ^ 9 ≤ c) :
    d ≤ nearestWhole n * c ↔ d ≤ n * c := by
  rcases Int.le_total n (2 ^ 53) with h | h
  · rw [nearestWhole_eq_self (by omega)]
  · have hmono := nearestWhole_mono h
    rw [nearestWhole_eq_self (by decide)] at hmono
    have hle {k : Int} (hk : 2 ^ 53 ≤ k) : d ≤ k * c :=
      hd.trans (Int.mul_le_mul hk hc (by decide) (Int.le_trans (by decide) hk))
    exact iff_of_true (hle hmono) (hle h)

end Double

namespace Condition

open Moment Operator

variable {now m : Moment} {context value field v : Value} {n : Int}

/-- A test of the days between a moment and the time. -/
inductive Window
  | ago
  | fromNow

namespace Window

def operatorName : Window → String
  | .ago => "days_ago"
  | .fromNow => "days_from_now"

/-- The test whether a moment is on the other side of the time. -/
def beyondName : Window → String
  | .ago => "is_future"
  | .fromNow => "is_past"

/-- The later of the time and a moment for which the test is meant, and the earlier. -/
def later : Window → Moment → Moment → Moment
  | .ago, now, _ => now
  | .fromNow, _, m => m

def earlier : Window → Moment → Moment → Moment
  | .ago, _, m => m
  | .fromNow, now, _ => now

theorem lookup_operatorName [Calendar] (w : Window) (now : Moment) : ∃ test, (standard now).lookup w.operatorName = some test ∧
    ∀ {m : Moment} {v : Value} {days : ℚ}, Moment.ofValue v now = .ok (some m) →
      value? (daysBetween (w.later now m) (w.earlier now m)) = some days → ∀ n : Int,
      (HasDouble n → test v (.int n) = .ok (decide (days ≤ nearestWhole n))) ∧
        (¬ HasDouble n → test v (.int n) = .error .overflow) := by
  cases w with
  | ago => exact ⟨_, rfl, fun hv hdays => withinDays_eq hv hdays⟩
  | fromNow => exact ⟨_, rfl, fun hv hdays => withinDays_eq hv hdays⟩

theorem lookup_beyondName [Calendar] (w : Window) (now : Moment) : ∃ test, (standard now).lookup w.beyondName = some test ∧
    ∀ {m : Moment} {v : Value}, Moment.ofValue v now = .ok (some m) → ∀ n : Int,
      test v (.int n) = .ok (decide ((w.later now m).timestamp < (w.earlier now m).timestamp)) := by
  cases w with
  | ago => exact ⟨_, rfl, fun hv n => compareWithNow_eq hv _ (.int n)⟩
  | fromNow => exact ⟨_, rfl, fun hv n => compareWithNow_eq hv _ (.int n)⟩

end Window

/-- What the tests of a window are, given the days between the moment and the time. -/
theorem window_tests [Calendar] (w : Window) {days : ℚ} (hfield : Path.lookup field context = .ok v)
    (hm : Moment.ofValue v now = .ok (some m)) (hvalue : expected context value = .ok (.int n))
    (hdays : value? (daysBetween (w.later now m) (w.earlier now m)) = some days) :
    (HasDouble n → runTest (.standard now) context field (.str w.operatorName) value =
      .ok (decide (days ≤ nearestWhole n))) ∧
    (¬ HasDouble n → runTest (.standard now) context field (.str w.operatorName) value = .error .overflow) ∧
    runTest (.standard now) context field (.str w.beyondName) value =
      .ok (decide ((w.later now m).timestamp < (w.earlier now m).timestamp)) := by
  obtain ⟨test, htest, hresult⟩ := w.lookup_operatorName now
  obtain ⟨beyond, hbeyond, hresult'⟩ := w.lookup_beyondName now
  refine ⟨fun hn => ?_, fun hn => ?_, ?_⟩
  · exact runTest_eq hfield hvalue htest ((hresult hm hdays n).1 hn) nofun
  · refine runTest_eq hfield hvalue htest ((hresult hm hdays n).2 hn) ?_
    rintro _ ⟨⟩
    rfl
  · exact runTest_eq hfield hvalue hbeyond (hresult' hm n) nofun

/-- Tests of dates relative to the time, over any lawful calendar. They fail for a number of days with no double near
it. Otherwise they are bounded on one side only: a moment beyond the time is within every number of days, and with more
days the test still holds. Where the timestamps are exact, so is the bound, and the order of the moment and the time. -/
theorem relative_dates_unbounded_beyond [Calendar] [LawfulCalendar] (w : Window) (hnow : now.Proper) (hv : v.OnCalendar)
    (hfield : Path.lookup field context = .ok v) (hm : Moment.ofValue v now = .ok (some m)) (hn : 0 ≤ n)
    (hvalue : expected context value = .ok (.int n)) :
    (¬ HasDouble n → runTest (.standard now) context field (.str w.operatorName) value = .error .overflow) ∧
    (HasDouble n →
      (runTest (.standard now) context field (.str w.beyondName) value = .ok true →
        runTest (.standard now) context field (.str w.operatorName) value = .ok true) ∧
      (∀ (more : Value) (k : Int), expected context more = .ok (.int k) → n ≤ k → HasDouble k →
        runTest (.standard now) context field (.str w.operatorName) value = .ok true →
        runTest (.standard now) context field (.str w.operatorName) more = .ok true) ∧
      (m.HasExactTimestamp → now.HasExactTimestamp →
        runTest (.standard now) context field (.str w.operatorName) value =
          .ok (decide ((w.later now m).micros - (w.earlier now m).micros ≤ n * microsPerDay)) ∧
        runTest (.standard now) context field (.str w.beyondName) value =
          .ok (decide ((w.later now m).micros < (w.earlier now m).micros)))) := by
  have hproper := proper_of_ofValue hnow hv hm
  have hlater : (w.later now m).Proper := by cases w <;> assumption
  have hearlier : (w.earlier now m).Proper := by cases w <;> assumption
  obtain ⟨days, hdays, hbeyond, hexact⟩ := exists_daysBetween hlater hearlier
  obtain ⟨hwithin, hoverflow, hother⟩ := window_tests w hfield hm hvalue hdays
  refine ⟨hoverflow, fun hdouble => ⟨fun h => ?_, fun more k hmore hle hk h => ?_, fun hmExact hnowExact => ?_⟩⟩
  · rw [hother, Except.ok.injEq, decide_eq_true_eq] at h
    have hzero : nearestWhole 0 ≤ nearestWhole n := nearestWhole_mono hn
    have hcast : (0 : ℚ) ≤ nearestWhole n := by exact_mod_cast hzero
    rw [hwithin hdouble, decide_eq_true ((hbeyond h).trans hcast)]
  · obtain ⟨hwithin', -, -⟩ := window_tests w hfield hm hmore hdays
    rw [hwithin hdouble, Except.ok.injEq, decide_eq_true_eq] at h
    have hcast : (nearestWhole n : ℚ) ≤ nearestWhole k := by exact_mod_cast nearestWhole_mono hle
    rw [hwithin' hk, decide_eq_true (h.trans hcast)]
  · have hlaterExact : (w.later now m).HasExactTimestamp := by
      cases w with
      | ago => exact hnowExact
      | fromNow => exact hmExact
    have hearlierExact : (w.earlier now m).HasExactTimestamp := by
      cases w with
      | ago => exact hmExact
      | fromNow => exact hnowExact
    refine ⟨?_, ?_⟩
    · have hsize := hlater.natAbs_micros_lt
      have hsize' := hearlier.natAbs_micros_lt
      rw [hwithin hdouble, Except.ok.injEq, decide_eq_decide, hexact hlaterExact hearlierExact]
      exact le_nearestWhole_mul_iff hn (by omega) microsPerDay (by decide)
    · rw [hother, Except.ok.injEq, decide_eq_decide, lt_iff_value hlaterExact hearlierExact,
        div_lt_div_iff_of_pos_right (by norm_num), Int.cast_lt]

/-- An order that is due in a few days. -/
def order : Value := .object [("due", .str "2024-06-20")]

def noon : Moment := ⟨⟨2024, 6, 15⟩, 12, 0, 0, 0, some 0⟩

theorem relative_dates_unbounded_beyond_order :
    runTest (.standard noon) order (.str "due") (.str "days_ago") (.int 7) = .ok true ∧
    runTest (.standard noon) order (.str "due") (.str "days_from_now") (.int 4) = .ok false ∧
    runTest (.standard noon) order (.str "due") (.str "days_from_now") (.int 5) = .ok true := by
  have hnow : noon.Proper :=
    ⟨by decide, by decide, by decide, by decide, by decide, 0, rfl, by decide⟩
  have hfield : Path.lookup (.str "due") order = .ok (.str "2024-06-20") := rfl
  have hvalue (n : Int) : expected order (.int n) = .ok (.int n) := rfl
  have hcalendar : (Value.str "2024-06-20").OnCalendar := trivial
  have hm : Moment.ofValue (.str "2024-06-20") noon = .ok (some ⟨⟨2024, 6, 20⟩, 0, 0, 0, 0, some 0⟩) := by
    decide +kernel
  have hproper := proper_of_ofValue hnow hcalendar hm
  have hmExact := (hasExactTimestamp_iff hproper).2 (by decide +kernel)
  have hnowExact := (hasExactTimestamp_iff hnow).2 (by decide +kernel)
  have hago := relative_dates_unbounded_beyond .ago hnow hcalendar hfield hm (by decide) (hvalue 7)
  have hfour := relative_dates_unbounded_beyond .fromNow hnow hcalendar hfield hm (by decide) (hvalue 4)
  have hfive := relative_dates_unbounded_beyond .fromNow hnow hcalendar hfield hm (by decide) (hvalue 5)
  refine ⟨(hago.2 (hasDouble_of_le (by decide))).1 ?_, ?_, ?_⟩
  · refine ((hago.2 (hasDouble_of_le (by decide))).2.2 hmExact hnowExact).2.trans ?_
    decide +kernel
  · refine ((hfour.2 (hasDouble_of_le (by decide))).2.2 hmExact hnowExact).1.trans ?_
    decide +kernel
  · refine ((hfive.2 (hasDouble_of_le (by decide))).2.2 hmExact hnowExact).1.trans ?_
    decide +kernel

/-- A date that is yet to come is within seven days ago. -/
theorem future_date_within_days_ago :
    (runTest (.standard noon) order (.str "due") (.str "days_ago") (.int 7)).toOption = some true ∧
    (runTest (.standard noon) order (.str "due") (.str "is_future") (.int 7)).toOption = some true := by
  constructor <;> decide +kernel

end Condition

end Flowline
