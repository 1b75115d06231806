import Flowline.Time.Iso
import Flowline.Time.Moment
import Mathlib.Algebra.Group.Nat.Defs
import Mathlib.Data.List.Basic

/-! # Moments and their texts

A moment is proper if its date exists, its clock shows a time of day, and its offset is known and less than a
day. Every day number from that of 1 January of year 1 to that of 31 December of year 9999 belongs to a date
that exists, so that a clock that moves on shows proper moments.

The text that a proper moment has in the form of ISO 8601 is read as that moment. -/

namespace Flowline

namespace Date

/-- The days of some months of a year in a row. -/
def daysOfMonths (year : Nat) : Nat → Nat → Nat
  | _, 0 => 0
  | month, count + 1 => daysInMonth year month + daysOfMonths year (month + 1) count

theorem daysOfMonths_year (year : Nat) :
    daysOfMonths year 1 12 = if isLeap year then 366 else 365 := by
  cases h : isLeap year with
  | _ => simp [daysOfMonths, daysInMonth, h]

theorem monthAndDay_mem {year fuel month n : Nat} (hn : n < daysOfMonths year month (fuel + 1)) :
    month ≤ (monthAndDay year fuel month n).1 ∧ (monthAndDay year fuel month n).1 ≤ month + fuel ∧
      1 ≤ (monthAndDay year fuel month n).2 ∧
      (monthAndDay year fuel month n).2 ≤ daysInMonth year (monthAndDay year fuel month n).1 := by
  induction fuel generalizing month n with
  | zero =>
    have hlast : n < daysInMonth year month := by simpa [daysOfMonths] using hn
    exact ⟨Nat.le_refl _, Nat.le_refl _, Nat.succ_pos _, hlast⟩
  | succ fuel ih =>
    rw [daysOfMonths] at hn
    rw [monthAndDay]
    split
    · exact ⟨Nat.le_refl _, Nat.le_add_right .., Nat.succ_pos _, ‹_›⟩
    · obtain ⟨hfrom, hto, hday⟩ := @ih (month + 1) (n - daysInMonth year month) (by omega)
      exact ⟨by omega, by omega, hday⟩

/-- A year that has four full years before it in its cycle of four is a leap year, unless it ends a cycle of
100 that does not end one of 400. -/
theorem isLeap_of_cycles {a b c : Nat} (hc : c ≤ 24) (h : c = 24 → b = 3) :
    isLeap (a * 400 + b * 100 + c * 4 + 3 + 1) = true := by
  have hfour : (a * 400 + b * 100 + c * 4 + 3 + 1) % 4 = 0 := by omega
  by_cases hlast : c = 24
  · have hcycle : (a * 400 + b * 100 + c * 4 + 3 + 1) % 400 = 0 := by omega
    simp [isLeap, hfour, hcycle]
  · have hcentury : (a * 400 + b * 100 + c * 4 + 3 + 1) % 100 ≠ 0 := by omega
    simp [isLeap, hfour, hcentury]

/-- A day number is a day of some year, counted from zero there. -/
theorem ofDayNumber_eq {n : Nat} (hn : n < maxDayNumber) :
    ∃ year day, ofDayNumber (n + 1) =
        ⟨year, (monthAndDay year 11 1 day).1, (monthAndDay year 11 1 day).2⟩ ∧
      1 ≤ year ∧ year ≤ 9999 ∧ day < if isLeap year then 366 else 365 := by
  refine ⟨_, _, rfl, Nat.succ_pos _, ?_⟩
  simp only [Nat.add_sub_cancel, maxDayNumber] at hn ⊢
  obtain ⟨a, ha⟩ : ∃ a, a = n / 146097 := ⟨_, rfl⟩
  obtain ⟨m, hm⟩ : ∃ m, m = n % 146097 := ⟨_, rfl⟩
  obtain ⟨b, hb⟩ : ∃ b, b = min (m / 36524) 3 := ⟨_, rfl⟩
  obtain ⟨k, hk⟩ : ∃ k, k = m - b * 36524 := ⟨_, rfl⟩
  obtain ⟨c, hc⟩ : ∃ c, c = k / 1461 := ⟨_, rfl⟩
  obtain ⟨r, hr⟩ : ∃ r, r = k % 1461 := ⟨_, rfl⟩
  obtain ⟨d, hd⟩ : ∃ d, d = min (r / 365) 3 := ⟨_, rfl⟩
  simp only [← ha, ← hm, ← hb, ← hk, ← hc, ← hr, ← hd]
  have hk' : k ≤ 36524 ∧ (k = 36524 → b = 3) := by omega
  have hc' : c ≤ 24 := by omega
  refine ⟨by omega, ?_⟩
  by_cases hlast : r - d * 365 < 365
  · split <;> omega
  · -- the last day of four years, which only a leap year has
    have hd' : d = 3 ∧ r = 1460 := by omega
    have hcycle : c = 24 → b = 3 := fun h => hk'.2 (by omega)
    rw [hd'.1, isLeap_of_cycles hc' hcycle, if_pos rfl]
    omega

theorem isValid_ofDayNumber {n : Nat} (hfrom : 1 ≤ n) (hto : n ≤ maxDayNumber) :
    (ofDayNumber n).isValid = true := by
  obtain ⟨n, rfl⟩ := Nat.exists_eq_add_of_le' hfrom
  obtain ⟨year, day, heq, hyear, hlast, hday⟩ := ofDayNumber_eq (Nat.lt_of_succ_le hto)
  rw [← daysOfMonths_year] at hday
  have hmem := monthAndDay_mem (show day < daysOfMonths year 1 (11 + 1) from hday)
  obtain ⟨hmonth, hdecember, hfirst, hend⟩ := hmem
  simp [heq, isValid, hyear, hlast, hmonth, hdecember, hfirst, hend]

end Date

namespace Moment

/-- A moment on a clock: its date exists, its time is one of a day, and its offset is known and less than a
day. -/
structure Proper (m : Moment) : Prop where
  date : m.date.isValid = true
  hour : m.hour < 24
  minute : m.minute < 60
  second : m.second < 60
  micro : m.micro < 1000000
  offset : ∃ o, m.offset? = some o ∧ o.natAbs < 86400

variable {m now : Moment}

theorem Proper.withOffset (h : m.Proper) : m.withOffset = m := by
  obtain ⟨o, ho, -⟩ := h.offset
  cases m with
  | mk date hour minute second micro offset? =>
    cases ho
    rfl

theorem proper_ofClockMicros {offset : Int} (hoffset : offset.natAbs < 86400) {n : Int}
    (h : ofClockMicros? (some offset) n = some m) : m.Proper := by
  have hrest : (n.fmod microsPerDay).toNat < 86400000000 := by
    have hpos : 0 ≤ n.fmod microsPerDay := Int.fmod_nonneg_of_pos n (by decide)
    have hlt : n.fmod microsPerDay < microsPerDay := Int.fmod_lt_of_pos n (by decide)
    have hday : microsPerDay = 86400000000 := by decide
    omega
  rw [ofClockMicros?] at h
  dsimp only at h
  generalize (n.fmod microsPerDay).toNat = rest at hrest h
  split at h
  · rename_i hday
    cases h
    constructor
    case date => exact Date.isValid_ofDayNumber (by omega) (by omega)
    case offset => exact ⟨offset, rfl, hoffset⟩
    all_goals dsimp only; omega
  · cases h

/-- What a clock shows some time later is proper. -/
theorem Proper.addMicros (h : m.Proper) {n : Int} (hn : m.addMicros? n = some now) : now.Proper := by
  obtain ⟨o, ho, hlt⟩ := h.offset
  rw [addMicros?, ho] at hn
  exact proper_ofClockMicros hlt hn

end Moment

end Flowline

/-! ## Moments as texts -/

namespace Flowline

namespace Date

/-- The digits of a number, with zeros in front. -/
def digits (width n : Nat) : List Char :=
  List.replicate (width - (Nat.toDigits 10 n).length) '0' ++ Nat.toDigits 10 n

variable {width n : Nat}

theorem toList_padded : (padded width n).toList = digits width n := by
  simp [padded, digits]

theorem length_digits (hwidth : 0 < width) (hn : n < 10 ^ width) : (digits width n).length = width := by
  have hlength : (Nat.toDigits 10 n).length ≤ width :=
    (Nat.length_toDigits_le_iff (by decide) hwidth).2 hn
  simp only [digits, List.length_append, List.length_replicate]
  omega

theorem isDigit_of_mem_digits {c : Char} (hc : c ∈ digits width n) : c.isDigit = true := by
  obtain hc | hc := List.mem_append.1 hc
  · rw [List.eq_of_mem_replicate hc]
    rfl
  · exact Nat.isDigit_of_mem_toDigits (by decide) (by decide) hc

theorem ofDigitChars_digits : Nat.ofDigitChars 10 (digits width n) 0 = n := by
  rw [digits, Nat.ofDigitChars_append, Nat.ofDigitChars_replicate_zero, Nat.mul_zero,
    Nat.ofDigitChars_ten_toDigits]

theorem ne_of_isDigit {c d : Char} (hc : c.isDigit = true) (hd : d.isDigit = false) : c ≠ d := by
  rintro rfl
  rw [hc] at hd
  cases hd

theorem digits_two (hn : n < 100) :
    ∃ c d, digits 2 n = [c, d] ∧ c.isDigit = true ∧ d.isDigit = true := by
  have hlength : (digits 2 n).length = 2 := length_digits (by decide) hn
  obtain ⟨c, d, heq⟩ := List.length_eq_two.1 hlength
  have hmem (c : Char) (hc : c ∈ digits 2 n) : c.isDigit = true := isDigit_of_mem_digits hc
  exact ⟨c, d, heq, hmem c (by simp [heq]), hmem d (by simp [heq])⟩

end Date

namespace Moment.Iso

open Date

variable {count n : Nat} {rest : List Char}

theorem number?_digits (hcount : 0 < count) (hn : n < 10 ^ count) :
    number? count (digits count n ++ rest) = some (n, rest) := by
  have hlength : (digits count n).length = count := length_digits hcount hn
  have htake : (digits count n ++ rest).take count = digits count n := List.take_left' hlength
  have hall : (digits count n).all isAsciiDigit = true :=
    List.all_eq_true.2 fun c hc => isDigit_of_mem_digits hc
  have hvalue : (digits count n).foldl (fun n c => 10 * n + (c.toNat - 48)) 0 = n :=
    ofDigitChars_digits
  simp only [number?, htake, hlength, hall, and_self, if_true, hvalue, List.drop_left' hlength]

theorem number?_digits_end (hcount : 0 < count) (hn : n < 10 ^ count) :
    number? count (digits count n) = some (n, []) := by
  have h : number? count (digits count n ++ []) = some (n, []) := number?_digits hcount hn
  rwa [List.append_nil] at h

/-! ### Dates -/

theorem head?_digits (hn : n < 100) : ((digits 2 n ++ rest).head? == some 'W') = false := by
  obtain ⟨c, d, heq, hc, -⟩ := digits_two hn
  have hne : c ≠ 'W' := ne_of_isDigit hc rfl
  simp [heq, hne]

section Date
variable {d : Date}

theorem toList_isoText :
    d.isoText.toList = digits 4 d.year ++ '-' :: (digits 2 d.month ++ '-' :: digits 2 d.day) := by
  simp [Date.isoText, toList_padded]

theorem lt_of_isValid (hd : d.isValid = true) : d.year < 10 ^ 4 ∧ d.month < 100 ∧ d.day < 100 := by
  have hlength : daysInMonth d.year d.month ≤ 31 := by
    unfold daysInMonth
    grind
  simp only [isValid, Bool.and_eq_true, decide_eq_true_eq] at hd
  omega

theorem length_isoText (hd : d.isValid = true) : d.isoText.toList.length = 10 := by
  obtain ⟨hyear, hmonth, hday⟩ := lt_of_isValid hd
  have hfour : (digits 4 d.year).length = 4 := length_digits (by decide) hyear
  have htwo {n : Nat} (hn : n < 100) : (digits 2 n).length = 2 := length_digits (by decide) hn
  simp [toList_isoText, hfour, htwo hmonth, htwo hday]

theorem dateLength?_isoText (hd : d.isValid = true) :
    dateLength? (d.isoText.toList ++ 'T' :: rest) = some 10 := by
  obtain ⟨hyear, hmonth, -⟩ := lt_of_isValid hd
  have hlength : (d.isoText.toList ++ 'T' :: rest).length = 11 + rest.length := by
    simp [length_isoText hd]
    omega
  -- The month begins with a digit, so that the date is none by weeks.
  obtain ⟨c, e, heq, hc, -⟩ := digits_two hmonth
  have hne : c ≠ 'W' := ne_of_isDigit hc rfl
  have hfour : (digits 4 d.year).length = 4 := length_digits (by decide) hyear
  have hdash : (d.isoText.toList ++ 'T' :: rest)[4]? = some '-' := by
    simp [toList_isoText, hfour]
  have hmark : (d.isoText.toList ++ 'T' :: rest)[5]? = some c := by
    simp [toList_isoText, heq, List.getElem?_append_right, hfour]
  simp only [dateLength?, hlength, hdash, hmark]
  simp [hne]
  omega

theorem date?_isoText (hd : d.isValid = true) : date? d.isoText.toList = some d := by
  obtain ⟨hyear, hmonth, hday⟩ := lt_of_isValid hd
  have hof : Date.of? d.year d.month d.day = some d := if_pos hd
  have hmonths : number? 2 (digits 2 d.month ++ '-' :: digits 2 d.day) = some (d.month, '-' :: digits 2 d.day) :=
    number?_digits (by decide) hmonth
  have hweek : ((digits 2 d.month ++ '-' :: digits 2 d.day).head? == some 'W') = false := head?_digits hmonth
  simp only [date?, toList_isoText, number?_digits (by decide : 0 < 4) hyear, Option.bind_eq_bind,
    Option.bind_some, List.head?_cons, beq_self_eq_true, if_true, List.tail_cons, hweek]
  simp [hmonths, number?_digits_end (by decide : 0 < 2) hday, hof]

end Date

/-! ### Clocks -/

theorem clock?_colon {parts : List Nat} {colons : Option Bool} (hcolons : colons ≠ some false)
    (hn : n < 100) (hrest : rest ≠ []) (left : Nat) :
    clock? parts colons (digits 2 n ++ ':' :: rest) (left + 1) =
      clock? (parts ++ [n]) (some true) rest left := by
  obtain ⟨c, more, rfl⟩ := List.exists_cons_of_ne_nil hrest
  have hgetD : colons.getD true = true := by
    cases colons with
    | none => rfl
    | some b => cases b with
      | false => exact absurd rfl hcolons
      | true => rfl
  simp [clock?, number?_digits (by decide : 0 < 2) (show n < 10 ^ 2 from hn), hgetD]

theorem clock?_last {parts : List Nat} {colons : Option Bool} (hn : n < 100) (left : Nat) :
    clock? parts colons (digits 2 n) (left + 1) = some ⟨parts ++ [n], 0, false⟩ := by
  simp [clock?, number?_digits_end (by decide : 0 < 2) (show n < 10 ^ 2 from hn)]

theorem clock?_fraction {parts : List Nat} {micro : Nat} (hn : n < 100) (hmicro : micro < 1000000)
    (left : Nat) :
    clock? parts (some true) (digits 2 n ++ '.' :: digits 6 micro) (left + 1) =
      some ⟨parts ++ [n], micro, false⟩ := by
  have hlength : (digits 6 micro).length = 6 := length_digits (by decide) hmicro
  have hmore : digits 6 micro ≠ [] := List.ne_nil_of_length_pos (by omega)
  have hfraction : fraction? (parts ++ [n]) (digits 6 micro) = some ⟨parts ++ [n], micro, false⟩ := by
    simp [fraction?, hlength, number?_digits_end (by decide : 0 < 6) (show micro < 10 ^ 6 from hmicro),
      tenTo]
  obtain ⟨c, more, heq⟩ := List.exists_cons_of_ne_nil hmore
  rw [heq] at hfraction ⊢
  simp [clock?, number?_digits (by decide : 0 < 2) (show n < 10 ^ 2 from hn), hfraction]

variable {m : Moment}

theorem toList_clockText : m.clockText.toList =
    digits 2 m.hour ++ ':' :: (digits 2 m.minute ++ ':' :: (digits 2 m.second ++
      if m.micro = 0 then [] else '.' :: digits 6 m.micro)) := by
  by_cases h : m.micro = 0
  · simp [clockText, toList_padded, h]
  · simp [clockText, toList_padded, h]

theorem clock?_clockText (hm : m.Proper) :
    clock? [] none m.clockText.toList 3 = some ⟨[m.hour, m.minute, m.second], m.micro, false⟩ := by
  have hhour := hm.hour
  have hminute := hm.minute
  have hsecond := hm.second
  rw [toList_clockText, clock?_colon (by decide) (by omega) (by simp),
    clock?_colon (by decide) (by omega)]
  · by_cases h : m.micro = 0
    · rw [if_pos h, List.append_nil, clock?_last (by omega), h]
      rfl
    · rw [if_neg h]
      exact clock?_fraction (by omega) hm.micro 0
  · obtain ⟨c, d, heq, -⟩ := digits_two (n := m.second) (by omega)
    simp [heq]

theorem not_isOffsetSign_of_mem_digits {width n : Nat} {c : Char} (hc : c ∈ digits width n) :
    isOffsetSign c = false := by
  have hdigit := isDigit_of_mem_digits hc
  simp only [isOffsetSign, Bool.or_eq_false_iff, beq_eq_false_iff_ne]
  exact ⟨⟨ne_of_isDigit hdigit rfl, ne_of_isDigit hdigit rfl⟩, ne_of_isDigit hdigit rfl⟩

theorem not_isOffsetSign_of_mem_clockText {c : Char} (hc : c ∈ m.clockText.toList) :
    isOffsetSign c = false := by
  have hdigits {width n : Nat} : c ∈ digits width n → isOffsetSign c = false :=
    not_isOffsetSign_of_mem_digits
  have hfraction : c ∈ (if m.micro = 0 then [] else '.' :: digits 6 m.micro) → isOffsetSign c = false := by
    intro hc
    split at hc
    · exact absurd hc List.not_mem_nil
    · obtain rfl | hc := List.mem_cons.1 hc
      · rfl
      · exact hdigits hc
  simp only [toList_clockText, List.mem_append, List.mem_cons] at hc
  obtain hc | rfl | hc | rfl | hc | hc := hc
  · exact hdigits hc
  · rfl
  · exact hdigits hc
  · rfl
  · exact hdigits hc
  · exact hfraction hc

/-! ### Offsets -/

/-- An offset of some seconds without its sign. -/
def offsetDigits (n : Nat) : List Char :=
  digits 2 (n / 3600) ++ ':' :: (digits 2 (n / 60 % 60) ++
    if n % 60 = 0 then [] else ':' :: digits 2 (n % 60))

theorem toList_offsetText (offset : Int) : (offsetText offset).toList =
    (if offset < 0 then '-' else '+') :: offsetDigits offset.natAbs := by
  have hsign : (if offset < 0 then "-" else "+").toList = [if offset < 0 then '-' else '+'] := by
    split <;> rfl
  by_cases h : offset.natAbs % 60 = 0
  · simp [offsetText, offsetDigits, toList_padded, h, hsign]
  · simp [offsetText, offsetDigits, toList_padded, h, hsign]

theorem clock?_offsetDigits (hn : n < 86400) : ∃ clock,
    clock? [] none (offsetDigits n) 3 = some clock ∧ clock.surplus = false ∧ clock.seconds = n := by
  obtain ⟨c, d, heq, -⟩ := digits_two (n := n / 60 % 60) (by omega)
  rw [offsetDigits, clock?_colon (by decide) (by omega) (by simp [heq])]
  by_cases h : n % 60 = 0
  · refine ⟨⟨[n / 3600, n / 60 % 60], 0, false⟩, ?_, rfl, ?_⟩
    · rw [if_pos h, List.append_nil]
      exact clock?_last (by omega) 1
    · simp only [Clock.seconds, List.getD_cons_zero, List.getD_cons_succ, List.getD_nil]
      omega
  · refine ⟨⟨[n / 3600, n / 60 % 60, n % 60], 0, false⟩, ?_, rfl, ?_⟩
    · obtain ⟨e, f, hseconds, -⟩ := digits_two (n := n % 60) (by omega)
      rw [if_neg h, clock?_colon (by decide) (by omega) (by simp [hseconds])]
      exact clock?_last (by omega) 0
    · simp only [Clock.seconds, List.getD_cons_zero, List.getD_cons_succ]
      omega

theorem offset?_offsetDigits {offset : Int} (hoffset : offset.natAbs < 86400) :
    offset? (decide (offset < 0)) (offsetDigits offset.natAbs) = some offset := by
  obtain ⟨clock, hclock, hsurplus, hseconds⟩ := clock?_offsetDigits hoffset
  have hless : ¬ 86400 ≤ offset.natAbs := by omega
  simp only [offset?, hclock, Option.bind_eq_bind, Option.bind_some, hsurplus, hseconds, hless,
    Bool.false_or, decide_false]
  by_cases h : offset < 0
  · have hvalue : -(offset.natAbs : Int) = offset := by omega
    rw [decide_eq_true h, if_pos rfl, hvalue]
    rfl
  · have hvalue : (offset.natAbs : Int) = offset := by omega
    rw [decide_eq_false h, if_neg Bool.false_ne_true, hvalue]
    rfl

/-! ### Moments -/

theorem timeOfDay?_text (hm : m.Proper) {offset : Int} (hoffset : m.offset? = some offset)
    (hless : offset.natAbs < 86400) :
    timeOfDay? m.date (m.clockText.toList ++ (offsetText offset).toList) = some m := by
  obtain ⟨sign, hsign, hnegative⟩ : ∃ sign, (if offset < 0 then '-' else '+') = sign ∧
      isOffsetSign sign = true ∧ sign ≠ 'Z' ∧ (sign == '-') = decide (offset < 0) := by
    by_cases h : offset < 0
    · exact ⟨'-', if_pos h, by decide, by decide, by simp [h]⟩
    · exact ⟨'+', if_neg h, by decide, by decide, by simp [h]⟩
  obtain ⟨hmark, hZ, hminus⟩ := hnegative
  rw [toList_offsetText, hsign]
  -- No character of the clock is a sign, so that the clock ends where the offset begins.
  have hfront : (m.clockText.toList ++ sign :: offsetDigits offset.natAbs).takeWhile
      (fun c => !isOffsetSign c) = m.clockText.toList := by
    rw [List.takeWhile_append_of_pos]
    · simp [hmark]
    · intro c hc
      simp [not_isOffsetSign_of_mem_clockText hc]
  have hzone := offset?_offsetDigits hless
  simp only [timeOfDay?, hfront, clock?_clockText hm, List.drop_left, Option.bind_eq_bind,
    Option.bind_some]
  split
  case h_1 heq => cases heq
  case h_2 heq => exact absurd (List.cons.inj heq).1 hZ
  case h_3 heq =>
    obtain ⟨rfl, rfl⟩ := List.cons.inj heq
    have heq : (⟨m.date, m.hour, m.minute, m.second, m.micro, some offset⟩ : Moment) = m := by
      rw [← hoffset]
    simp [hZ, hminus, hzone, hm.hour, hm.minute, hm.second, heq]

/-- What is written of a moment is read as that moment. -/
theorem read?_isoText (hm : m.Proper) : read? m.isoText = some m := by
  obtain ⟨offset, hoffset, hless⟩ := hm.offset
  have htext : m.isoText.toList =
      m.date.isoText.toList ++ 'T' :: (m.clockText.toList ++ (offsetText offset).toList) := by
    simp [isoText, textWith, hoffset]
  have hlength := length_isoText hm.date
  have htake : m.isoText.toList.take 10 = m.date.isoText.toList := by
    rw [htext, List.take_left' hlength]
  have hdrop : m.isoText.toList.drop 11 = m.clockText.toList ++ (offsetText offset).toList := by
    rw [htext, ← List.drop_drop (i := 1) (j := 10), List.drop_left' hlength]
    rfl
  have hmore : ¬ m.isoText.toList.length ≤ 10 := by
    simp [htext, hlength]
  have hlong : dateLength? m.isoText.toList = some 10 := by
    rw [htext]
    exact dateLength?_isoText hm.date
  simp only [read?, hlong, htake, hmore, hdrop, Option.bind_eq_bind, Option.bind_some, if_false,
    date?_isoText hm.date]
  exact timeOfDay?_text hm hoffset hless

end Moment.Iso

end Flowline
