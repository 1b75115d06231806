import Flowline.Condition.Evaluation
import Flowline.Proofs.Condition.Comparisons
import Flowline.Proofs.Expression.Faults
import Flowline.Proofs.Expression.NumericTexts
import Flowline.Proofs.Time.Reading

/-! # Faults of conditions

A test does not hold where its operator has a fault, with three exceptions: a number too large for a double and
a time beyond the system clock are faults of the test as well, and so is any fault of the operator over a field that
has no text. Paths with an index that is no number and references to what has no text are faults too. Without these an
operator that compares values, texts or collections always decides. What a calendar does is open, as long as a text that
it does not read is a bad value or beyond its range. -/

namespace Flowline

/-- The faults of operators: those for which a test does not hold, and numbers and times beyond their range. -/
inductive Fault.OfOperators : Fault → Prop
  | refusal {fault : Fault} (h : Condition.isRefusal fault = true) : OfOperators fault
  | overflow : OfOperators .overflow
  | systemRange : OfOperators .systemRange

/-- The faults of conditions over any context. -/
inductive Fault.OfConditions : Fault → Prop
  | operators {fault : Fault} (h : OfOperators fault) : OfConditions fault
  | unknownOperator (name : String) : OfConditions (.unknownOperator name)

theorem Fault.OfNumbers.ofOperators {fault : Fault} (h : OfNumbers fault) : OfOperators fault := by
  cases h with
  | expression cause => exact .refusal rfl
  | badValue => exact .refusal rfl
  | overflow => exact .overflow

/-! ## Moments -/

namespace Moment

theorem ofMention_fails (m : Span.Mention) : FailsOnly Fault.OfOperators (Span.ofMention m) := by
  unfold Span.ofMention
  split
  · exact .error (.refusal rfl)
  split
  · exact .error (.refusal rfl)
  · exact .ok _

theorem add_fails [Calendar] [LawfulCalendar] (m : Moment) (spans : List Span) :
    FailsOnly Fault.OfOperators (Calendar.add m spans) := by
  intro fault hfault
  rcases LawfulCalendar.add_fails m spans fault hfault with rfl | rfl
  · exact .refusal rfl
  · exact .overflow

theorem ofTimestamp_fails (n : Number) : FailsOnly Fault.OfOperators (ofTimestamp n) := by
  have hparts : FailsOnly Fault.OfOperators (secondsAndMicros n) := by
    unfold secondsAndMicros
    split
    · exact .ok _
    split
    · split
      · exact .error (.refusal rfl)
      · exact .error .overflow
    · exact .ok _
  refine hparts.bind fun p _ => ?_
  obtain ⟨seconds, micros⟩ := p
  change FailsOnly _ (ofSeconds seconds micros)
  unfold ofSeconds
  split
  · exact .error .overflow
  split
  · exact .error .systemRange
  split
  · exact .ok _
  · exact .error (.refusal rfl)

variable [Calendar] [LawfulCalendar]

theorem addText_fails (m : Moment) (s : String) : FailsOnly Fault.OfOperators (m.addText s) := by
  unfold addText
  split
  · exact .error (.refusal rfl)
  · refine FailsOnly.bind (fun fault hfault => ?_) fun spans _ => add_fails m spans
    obtain ⟨_, mention, _, -, -, hmention⟩ := mapM_eq_error_iff.1 hfault
    exact ofMention_fails mention fault hmention

theorem parsed_fails (s : String) (now : Moment) : FailsOnly Fault.OfOperators (parsed s now) := by
  unfold parsed
  split
  · exact .ok _
  · next hfault =>
    rw [if_pos (LawfulCalendar.parse_fails _ _ _ hfault)]
    exact .ok _

theorem ofText_fails (s : String) (now : Moment) : FailsOnly Fault.OfOperators (ofText s now) := by
  unfold ofText
  dsimp only
  split
  · exact .ok _
  split
  · exact (add_fails _ _).map _
  · split
    · exact (addText_fails now _).map _
    · exact parsed_fails _ now

theorem ofValue_fails (v : Value) (now : Moment) : FailsOnly Fault.OfOperators (ofValue v now) := by
  unfold ofValue
  split
  case h_3 =>
    split
    · exact .ok _
    · exact ofText_fails _ now
  case h_6 | h_7 => exact (ofTimestamp_fails _).map _
  case h_8 => exact (v.writes_written.fails.mono fun _ h => h ▸ .refusal rfl).bind fun text _ => ofText_fails text now
  all_goals exact .ok _

theorem timestampOf_fails (v : Value) (now : Moment) : FailsOnly Fault.OfOperators (timestampOf v now) :=
  (ofValue_fails v now).map _

end Moment

/-! ## Operators -/

namespace Operator

variable {allowed : Fault → Prop}

/-- A fault for which a test does not hold. -/
abbrev Refused (fault : Fault) : Prop := Condition.isRefusal fault = true

theorem boundAt_fails (bounds : Value) (i : Nat) : FailsOnly Refused (boundAt bounds i) := by
  unfold boundAt
  split
  case h_5 => exact .error rfl
  all_goals
    split
    · exact .ok _
    · exact .error rfl

/-- A range has the faults of its scale on the bounds and on the value. -/
theorem inRange_fails {scale : Value → Except Fault (Option Float)} {v bounds : Value}
    (hrefused : ∀ fault, Refused fault → allowed fault) (hv : FailsOnly allowed (scale v))
    (hbounds : ∀ i w, boundAt bounds i = .ok w → FailsOnly allowed (scale w)) :
    FailsOnly allowed (inRange scale v bounds) := by
  refine ((boundAt_fails bounds 0).mono hrefused).bind fun low hlow => (hbounds 0 low hlow).bind fun low? _ => ?_
  refine ((boundAt_fails bounds 1).mono hrefused).bind fun high hhigh => (hbounds 1 high hhigh).bind fun high? _ => ?_
  refine hv.bind fun current? _ => ?_
  split <;> exact .ok _

theorem compareNumbers_fails (holds : Float → Float → Bool) {v w : Value} (hv : FailsOnly allowed v.leadingNumber)
    (hw : FailsOnly allowed w.leadingNumber) : FailsOnly allowed (compareNumbers holds v w) :=
  hv.bind fun _ _ => hw.map _

theorem refused_of_written (v : Value) : FailsOnly Refused v.written :=
  v.writes_written.fails.mono fun _ h => h ▸ rfl

theorem onTexts_fails (holds : String → String → Bool) (v w : Value) : FailsOnly Refused (onTexts holds v w) := by
  unfold onTexts
  split
  · exact (refused_of_written w).map _
  · exact .ok _

theorem onPattern_fails (decide : Bool → Bool) (v w : Value) : FailsOnly Fault.OfOperators (onPattern decide v w) := by
  unfold onPattern
  split
  · refine ((refused_of_written w).mono fun _ => .refusal).bind fun text _ => FailsOnly.map ?_ _
    unfold matchesPattern
    dsimp only
    split
    · exact .ok _
    · exact .ok _
    · exact .error .overflow
  · exact .ok _

theorem hasMember_fails {v : Value} (vs : List Value) (h : ∀ w ∈ vs, FailsOnly allowed (Value.looseEquals w v)) :
    FailsOnly allowed (hasMember v vs) := by
  induction vs with
  | nil => exact .ok _
  | cons w rest ih =>
    refine (h w (by simp)).bind fun found _ => ?_
    cases found with
    | true => exact .ok _
    | false => exact ih fun u hu => h u (by simp [hu])

theorem isMember_fails (decide : Bool → Bool) {collection v : Value}
    (h : ∀ w ∈ collection.members, FailsOnly allowed (Value.looseEquals w v)) :
    FailsOnly allowed (isMember decide collection v) := by
  unfold isMember
  split
  · exact (hasMember_fails _ h).map _
  · exact .ok _

theorem countIs_fails (order : Ordering) {v w : Value} (h : FailsOnly allowed w.leadingNumber) :
    FailsOnly allowed (countIs order v w) := by
  unfold countIs
  split
  · exact h.map _
  · exact .ok _

theorem leadingNumber_fails (v : Value) : FailsOnly Fault.OfOperators v.leadingNumber :=
  v.leadingNumber_fails.mono fun _ => Fault.OfNumbers.ofOperators

theorem looseEquals_fails (v w : Value) : FailsOnly Fault.OfOperators (Value.looseEquals v w) :=
  (Value.looseEquals_fails v w).mono fun _ => Fault.OfNumbers.ofOperators

theorem hasKey_fails (v w : Value) : FailsOnly Fault.OfOperators (hasKey v w) := by
  unfold hasKey
  split
  · have hkey : FailsOnly Fault.OfOperators w.toKey := by
      unfold Value.toKey
      split
      · exact .ok _
      · exact .error (.refusal rfl)
    refine hkey.bind fun key _ => ?_
    split
    · exact .ok _
    · exact ((refused_of_written w).mono fun _ => .refusal).map _
  · split
    · refine (leadingNumber_fails w).bind fun x _ => FailsOnly.map ?_ _
      exact (Number.toInt_fails _).mono fun _ => Fault.OfNumbers.ofOperators
    · exact .ok _
  · exact .ok _

section Dates
variable [Calendar] [LawfulCalendar] (now : Moment)

theorem dateOf_fails (v : Value) : FailsOnly Fault.OfOperators (dateOf now v) :=
  (Moment.ofValue_fails v now).map _

theorem compareMoments_fails (holds : Float → Float → Bool) (v w : Value) :
    FailsOnly Fault.OfOperators (compareMoments now holds v w) := by
  refine (Moment.timestampOf_fails v now).bind fun left? _ => (Moment.timestampOf_fails w now).bind fun right? _ => ?_
  split <;> exact .ok _

theorem compareWithNow_fails (holds : Float → Float → Bool) (v w : Value) :
    FailsOnly Fault.OfOperators (compareWithNow now holds v w) := by
  refine (Moment.timestampOf_fails v now).bind fun moment? _ => ?_
  split <;> exact .ok _

theorem withinDays_fails (between : Float → Float → Float) (v w : Value) :
    FailsOnly Fault.OfOperators (withinDays now between v w) := by
  refine (Moment.timestampOf_fails v now).bind fun moment? _ => ?_
  split
  · exact .ok _
  · refine (leadingNumber_fails w).bind fun x _ => ?_
    refine ((Number.toInt_fails _).mono fun _ => Fault.OfNumbers.ofOperators).bind fun most _ => ?_
    split <;> exact .ok _

theorem sameDate_fails (v w : Value) : FailsOnly Fault.OfOperators (sameDate now v w) := by
  refine (dateOf_fails now v).bind fun date? _ => ?_
  split
  · exact .ok _
  · exact (dateOf_fails now w).map _

/-- Every operator fails in these ways only. -/
theorem standard_fails (v w : Value) : ∀ p ∈ standard now, FailsOnly Fault.OfOperators (p.2 v w) := by
  have hequals := looseEquals_fails v w
  have hnumbers (holds : Float → Float → Bool) : FailsOnly Fault.OfOperators (compareNumbers holds v w) :=
    compareNumbers_fails holds (leadingNumber_fails v) (leadingNumber_fails w)
  have hscale (u : Value) : FailsOnly Fault.OfOperators (onNumberScale u) := (leadingNumber_fails u).map _
  have hrange : FailsOnly Fault.OfOperators (inRange onNumberScale v w) :=
    inRange_fails (fun _ => .refusal) (hscale v) fun _ u _ => hscale u
  have hmember (decide : Bool → Bool) (a b : Value) : FailsOnly Fault.OfOperators (isMember decide a b) :=
    isMember_fails decide fun u _ => looseEquals_fails u b
  have hcount (order : Ordering) : FailsOnly Fault.OfOperators (countIs order v w) :=
    countIs_fails order (leadingNumber_fails w)
  have hdates : FailsOnly Fault.OfOperators (inRange (fun u => Moment.timestampOf u now) v w) :=
    inRange_fails (fun _ => .refusal) (Moment.timestampOf_fails v now) fun _ u _ => Moment.timestampOf_fails u now
  have htexts (holds : String → String → Bool) : FailsOnly Fault.OfOperators (onTexts holds v w) :=
    (onTexts_fails holds v w).mono fun _ => .refusal
  simp only [standard, List.forall_mem_cons]
  exact ⟨hequals, hequals.map _, .ok _, .ok _, hnumbers _, hnumbers _, hnumbers _, hnumbers _, hrange, hrange.map _,
    htexts _, htexts _, htexts _, htexts _, onPattern_fails _ v w,
    onPattern_fails _ v w, htexts _, htexts _, hmember _ w v, hmember _ w v, hasKey_fails v w,
    hmember _ v w, hmember _ v w, hcount _, hcount _, hcount _, .ok _, .ok _, .ok _, .ok _, .ok _, .ok _, .ok _, .ok _,
    .ok _, sameDate_fails now v w, compareMoments_fails now _ v w, compareMoments_fails now _ v w, hdates,
    (dateOf_fails now v).map _, compareWithNow_fails now _ v w, compareWithNow_fails now _ v w,
    withinDays_fails now _ v w, withinDays_fails now _ v w, nofun⟩

end Dates

end Operator

/-! ## Values within the range of doubles -/

namespace Value

open Double

/-- The value is not a whole number beyond doubles. -/
def Fits (v : Value) : Prop := ∀ n, v = .int n → ofInt? n ≠ none

/-- Neither the value nor a member of it is a whole number beyond doubles. -/
structure Moderate (v : Value) : Prop where
  fits : v.Fits
  members : ∀ w ∈ v.members, w.Fits

theorem fits_int {n : Int} (h : n.natAbs ≤ 2 ^ 53) : (Value.int n).Fits := by
  intro m hm hnone
  cases hm
  have hlarge := (ofInt?_eq_none_iff n).1 hnone
  rw [nearestWhole_eq_self h] at hlarge
  exact Nat.not_lt.2 hlarge (lt_firstTooLarge h)

/-- A numeral stands for a whole number only if a double does. -/
theorem ofInt?_ne_none_of_toNumber {s : String} {n : Int} (h : (Value.str s).toNumber = .ok (.int n)) :
    ofInt? n ≠ none := by
  obtain ⟨sp, -, hn⟩ := Expression.exists_spelling_of_toNumber h
  unfold numeralNumber at hn
  dsimp only at hn
  split at hn
  · cases hn
  split at hn
  · next hwhole =>
    rw [Bool.and_eq_true] at hwhole
    split at hn
    · have habs : n.natAbs = sp.numeral.digits := by
        cases hn
        unfold Numeral.toInt
        split <;> simp
      have hexponent : sp.numeral.exponent = 0 := by
        have hplain := hwhole.1
        simp only [Spelling.numeral, Bool.and_eq_true, Option.isNone_iff_eq_none] at hplain
        simp [Spelling.numeral, hplain.1, hplain.2]
      intro hnone
      have hbits : infinityBits ≤ nearestBits sp.numeral.digits 1 := by
        rw [← habs]
        simpa [ofInt?, nearest?] using hnone
      have hinfinite := hwhole.2
      rw [Numeral.toFloat, hexponent, ofDecimal_of_infinityBits_le hbits, isWhole, parts?_infinity] at hinfinite
      cases hinfinite
    · cases hn
  · cases hn

theorem exists_toFloat {v : Value} {n : Number} (hv : v.Fits) (hn : v.toNumber = .ok n) : ∃ x, n.toFloat = .ok x := by
  cases n with
  | float x => exact ⟨x, rfl⟩
  | int n =>
    have hne : ofInt? n ≠ none := by
      unfold toNumber at hn
      split at hn
      case h_1 =>
        cases hn
        exact fits_int (by decide) 0 rfl
      case h_2 b =>
        cases hn
        cases b
        · exact fits_int (by decide) 0 rfl
        · exact fits_int (by decide) 1 rfl
      case h_3 =>
        cases hn
        exact hv n rfl
      case h_4 => cases hn
      case h_5 s => exact ofInt?_ne_none_of_toNumber (s := s) hn
      case h_6 =>
        obtain ⟨_, -, hn⟩ := bind_eq_ok.1 hn
        cases hn
    obtain ⟨x, hx⟩ := Option.ne_none_iff_exists'.1 hne
    exact ⟨x, by simp [Number.toFloat, hx]⟩

theorem toNumber_refused (v : Value) : FailsOnly Operator.Refused v.toNumber := by
  intro fault hfault
  cases v.toNumber_fails fault hfault with
  | expression | badValue => rfl
  | overflow =>
    unfold toNumber at hfault
    split at hfault
    case h_5 =>
      split at hfault
      · cases numeralNumber_fails _ _ hfault
      · cases hfault
    case h_6 =>
      obtain hshown | ⟨_, -, hfault⟩ := bind_eq_error hfault
      · cases v.writes_shown.fails _ hshown
      · cases hfault
    all_goals cases hfault

theorem looseEquals_refused {v w : Value} (hv : v.Fits) (hw : w.Fits) : FailsOnly Operator.Refused (looseEquals v w) := by
  by_cases hnumeric : v.isNumeric = true ∧ w.isNumeric = true
  · rw [looseEquals_of_isNumeric hnumeric.1 hnumeric.2]
    refine (toNumber_refused v).bind fun m hm => ?_
    obtain ⟨x, hx⟩ := exists_toFloat hv hm
    rw [hx]
    refine (toNumber_refused w).bind fun n hn => ?_
    obtain ⟨y, hy⟩ := exists_toFloat hw hn
    rw [hy]
    exact .ok _
  · unfold looseEquals
    split
    case h_5 =>
      rw [if_neg (by simpa using hnumeric)]
      split <;> exact .ok _
    all_goals exact .ok _

theorem leadingNumber_refused {v : Value} (hv : v.Fits) : FailsOnly Operator.Refused v.leadingNumber := by
  have htext (s : String) : FailsOnly Operator.Refused (leadingOfText s) :=
    (leadingOfText_fails s).mono fun _ h => h ▸ rfl
  unfold leadingNumber
  split
  case h_3 => exact htext _
  case h_8 => exact (Operator.refused_of_written v).bind fun text _ => htext text
  case h_6 n =>
    obtain ⟨x, hx⟩ := exists_toFloat hv (n := .int n) rfl
    rw [hx]
    exact .ok x
  all_goals exact .ok _

end Value

namespace Operator

open Value

/-- Bounds within the range of doubles. -/
theorem fits_of_boundAt {bounds w : Value} {i : Nat} (hbounds : bounds.Moderate) (h : boundAt bounds i = .ok w) :
    w.Fits := by
  have hmember (entries : List (Scalar × Value)) (key : Scalar) (v : Value) (hv : Entries.get? entries key = some v) :
      ∃ k, (k, v) ∈ entries := by
    induction entries with
    | nil => cases hv
    | cons p rest ih =>
      obtain ⟨k, u⟩ := p
      rw [Entries.get?] at hv
      split at hv
      · cases hv
        exact ⟨k, by simp⟩
      · obtain ⟨k', hk'⟩ := ih hv
        exact ⟨k', by simp [hk']⟩
  unfold boundAt at h
  split at h
  · split at h
    · next hv =>
      cases h
      exact hbounds.members _ (List.mem_of_getElem? hv)
    · cases h
  · split at h
    · cases h
      rintro _ ⟨⟩
    · cases h
  · split at h
    · next b _ =>
      cases h
      exact fits_int (Nat.le_trans (Nat.le_of_lt b.toNat_lt) (by decide))
    · cases h
  · split at h
    · next v hv =>
      cases h
      obtain ⟨k, hk⟩ := hmember _ _ _ hv
      exact hbounds.members _ (List.mem_map_of_mem (f := Prod.snd) hk)
    · cases h
  · cases h

/-- The operators that can leave their range on any values: those of patterns, indices and dates. -/
def partialNames : List String := ["matches", "not_matches", "has_key", "date_equals", "date_before", "date_after",
  "date_between", "is_today", "is_past", "is_future", "days_ago", "days_from_now"]

/-- The other operators have no fault that a test keeps on values within the range of doubles. -/
theorem standard_refused [Calendar] (now : Moment) {v w : Value} (hv : v.Moderate) (hw : w.Moderate) :
    ∀ p ∈ standard now, p.1 ∉ partialNames → FailsOnly Refused (p.2 v w) := by
  have hequals := looseEquals_refused hv.fits hw.fits
  have hnumbers (holds : Float → Float → Bool) : FailsOnly Refused (compareNumbers holds v w) :=
    compareNumbers_fails holds (leadingNumber_refused hv.fits) (leadingNumber_refused hw.fits)
  have hrange : FailsOnly Refused (inRange onNumberScale v w) :=
    inRange_fails (fun _ => id) ((leadingNumber_refused hv.fits).map _) fun i u hu =>
      (leadingNumber_refused (fits_of_boundAt hw hu)).map _
  have hin (decide : Bool → Bool) : FailsOnly Refused (isMember decide w v) :=
    isMember_fails decide fun u hu => looseEquals_refused (hw.members u hu) hv.fits
  have hhas (decide : Bool → Bool) : FailsOnly Refused (isMember decide v w) :=
    isMember_fails decide fun u hu => looseEquals_refused (hv.members u hu) hw.fits
  have hcount (order : Ordering) : FailsOnly Refused (countIs order v w) :=
    countIs_fails order (leadingNumber_refused hw.fits)
  have hnone {name : String} {r : Except Fault Bool} (hname : name ∈ partialNames) (hne : name ∉ partialNames) :
      FailsOnly Refused r := absurd hname hne
  simp only [standard, List.forall_mem_cons]
  exact ⟨fun _ => hequals, fun _ => hequals.map _, fun _ => .ok _, fun _ => .ok _, fun _ => hnumbers _,
    fun _ => hnumbers _, fun _ => hnumbers _, fun _ => hnumbers _, fun _ => hrange, fun _ => hrange.map _,
    fun _ => onTexts_fails _ v w, fun _ => onTexts_fails _ v w, fun _ => onTexts_fails _ v w, fun _ => onTexts_fails _ v w,
    hnone (by decide), hnone (by decide), fun _ => onTexts_fails _ v w, fun _ => onTexts_fails _ v w, fun _ => hin _,
    fun _ => hin _, hnone (by decide), fun _ => hhas _, fun _ => hhas _, fun _ => hcount _, fun _ => hcount _,
    fun _ => hcount _, fun _ => .ok _, fun _ => .ok _, fun _ => .ok _, fun _ => .ok _, fun _ => .ok _, fun _ => .ok _,
    fun _ => .ok _, fun _ => .ok _, fun _ => .ok _, hnone (by decide), hnone (by decide), hnone (by decide),
    hnone (by decide), hnone (by decide), hnone (by decide), hnone (by decide), hnone (by decide), hnone (by decide),
    nofun⟩

end Operator

/-! ## Conditions -/

/-- The fault of a computation, where it has one. -/
def fault? {α : Type} : Except Fault α → Option Fault
  | .error fault => some fault
  | .ok _ => none

theorem fault?_eq_some {α : Type} {r : Except Fault α} {fault : Fault} : fault? r = some fault ↔ r = .error fault := by
  cases r <;> simp [fault?]

namespace Condition

open Operator

variable {context field value v w : Value} {name : String}

/-- The paths of a test can be followed, and what its references name has a text where one is needed. -/
structure Readable (context field value : Value) : Prop where
  field : ∃ v, Path.lookup field context = .ok v
  value : ∃ w, expected context value = .ok w

theorem expected_fails (hjson : context.isJson = true) (value : Value) :
    FailsOnly (· = .badValue) (expected context value) := by
  unfold expected
  split
  · split
    · exact Template.resolveText_fails hjson _
    · exact .ok _
  · exact .ok _

theorem runTest_eq_badValue {language : Language} (hjson : context.isJson = true) (operator : Value)
    (h : ¬ Readable context field value) : runTest language context field operator value = .error .badValue := by
  unfold runTest
  cases hfield : Path.lookup field context with
  | error fault => rw [Path.lookup_fails field context fault hfield]; rfl
  | ok v =>
    cases hvalue : expected context value with
    | error fault => rw [expected_fails hjson value fault hvalue]; rfl
    | ok w => exact absurd ⟨⟨v, hfield⟩, ⟨w, hvalue⟩⟩ h

theorem runTest_eq_unknownOperator {language : Language} (h : Readable context field value)
    (hname : language.operators.lookup name = none) :
    runTest language context field (.str name) value = .error (.unknownOperator name) := by
  obtain ⟨⟨v, hfield⟩, ⟨w, hvalue⟩⟩ := h
  unfold runTest
  rw [hfield, hvalue]
  simp only [bind, Except.bind, Language.operator, hname]
  rfl

/-- A test has the faults of its operator that are not refusals, and a refusal of a field without a text. -/
theorem runTest_fails {language : Language} {test : Operator} {allowed : Fault → Prop}
    (hfield : Path.lookup field context = .ok v) (hvalue : expected context value = .ok w)
    (hname : language.operators.lookup name = some test)
    (htest : FailsOnly (fun fault => Refused fault ∨ allowed fault) (test v w))
    (hshown : v.isWritable = false → allowed .badValue) :
    FailsOnly allowed (runTest language context field (.str name) value) := by
  unfold runTest
  rw [hfield, hvalue]
  simp only [bind, Except.bind, Language.operator, hname]
  generalize test v w = result at htest
  cases result with
  | ok b => exact .ok b
  | error fault =>
    dsimp only
    split
    · cases hwritable : v.isWritable with
      | true =>
        rw [Value.shown, if_pos hwritable]
        exact .ok false
      | false =>
        rw [Value.shown, hwritable]
        exact .error (hshown hwritable)
    · next hkept => exact .error ((htest fault rfl).resolve_left hkept)

theorem readable_of_legible (hjson : context.isJson = true) (hwritten : field.isWritable = true)
    (hfield : Path.Legible field.text)
    (hvalue : ∀ s, value = .str s → Template.Legible s ∧ context.isWritable = true) : Readable context field value where
  field := by
    unfold Path.lookup
    split
    · exact ⟨_, rfl⟩
    · rw [Value.written, if_pos hwritten]
      exact Path.exists_lookupText hfield context
  value := by
    unfold expected
    split
    · next s =>
      split
      · exact Template.exists_resolveText hjson (hvalue s rfl).2 (hvalue s rfl).1
      · exact ⟨_, rfl⟩
    · exact ⟨_, rfl⟩

theorem exists_operator [Calendar] {now : Moment} (hname : name ∈ (Language.standard now).operatorNames) :
    ∃ test, (Language.standard now).operators.lookup name = some test ∧ (name, test) ∈ standard now := by
  obtain ⟨p, hp, heq⟩ := List.mem_map.1 hname
  have hsome : ((Language.standard now).operators.lookup name).isSome = true :=
    List.lookup_isSome_iff.2 ⟨p, hp, beq_iff_eq.2 heq.symm⟩
  obtain ⟨test, htest⟩ := Option.isSome_iff_exists.1 hsome
  obtain ⟨before, after, hmem, -⟩ := List.lookup_eq_some_iff.1 htest
  have hsplit : standard now = before ++ (name, test) :: after := hmem
  exact ⟨test, htest, by simp [hsplit]⟩

theorem lookup_eq_none [Calendar] {now : Moment} (hname : name ∉ (Language.standard now).operatorNames) :
    (Language.standard now).operators.lookup name = none := by
  refine List.lookup_eq_none_iff.2 fun p hp => ?_
  have hne : name ≠ p.1 := by
    rintro rfl
    exact hname (List.mem_map_of_mem hp)
  simpa using hne

/-! ### Conditions over any context -/

theorem ofConditions_of_ofReferences {fault : Fault} (h : Fault.OfReferences fault) : Fault.OfConditions fault := by
  cases h with
  | badValue => exact .operators (.refusal rfl)
  | wrongType => exact .operators (.refusal rfl)

theorem expected_fails_over_any (context value : Value) : FailsOnly Fault.OfConditions (expected context value) := by
  unfold expected
  split
  · split
    · exact (Template.resolveText_fails_over_any context _).mono fun _ => ofConditions_of_ofReferences
    · exact .ok _
  · exact .ok _

theorem operator_fails (language : Language) (name : Value) : FailsOnly Fault.OfConditions (language.operator name) := by
  have hunknown : FailsOnly Fault.OfConditions
      (do throw (.unknownOperator (← name.written)) : Except Fault Operator) :=
    (name.writes_written.fails.mono fun _ h => h ▸ .operators (.refusal rfl)).bind fun _ _ =>
      .error (.unknownOperator _)
  unfold Language.operator
  dsimp only
  split
  · split
    · exact .ok _
    · exact hunknown
  · exact hunknown
  · exact .error (.operators (.refusal rfl))

section Standard
variable [Calendar]

theorem mem_standard_of_operator {now : Moment} {test : Operator}
    (h : (Language.standard now).operator v = .ok test) : ∃ name, (name, test) ∈ standard now := by
  unfold Language.operator at h
  dsimp only at h
  split at h
  · next name =>
    split at h
    · next found hfound =>
      cases h
      obtain ⟨before, after, hmem, -⟩ := List.lookup_eq_some_iff.1 hfound
      have hsplit : standard now = before ++ (name, test) :: after := hmem
      exact ⟨name, by simp [hsplit]⟩
    · cases h
  · obtain ⟨_, -, h⟩ := bind_eq_ok.1 h
    cases h
  · cases h

theorem runTest_fails_over_any [LawfulCalendar] (now : Moment) (context field operator value : Value) :
    FailsOnly Fault.OfConditions (runTest (.standard now) context field operator value) := by
  have hpath : FailsOnly Fault.OfConditions (Path.lookup field context) :=
    (Path.lookup_fails field context).mono fun _ h => h ▸ .operators (.refusal rfl)
  refine hpath.bind fun actual _ => (expected_fails_over_any context value).bind fun w _ => ?_
  refine (operator_fails _ operator).bind fun test htest => ?_
  obtain ⟨name, hmem⟩ := mem_standard_of_operator htest
  have hfails := standard_fails now actual w _ hmem
  dsimp only at hfails
  generalize test actual w = result at hfails
  cases result with
  | ok b => exact .ok b
  | error fault =>
    dsimp only
    split
    · exact (actual.writes_shown.fails.mono fun _ h => h ▸ .operators (.refusal rfl)).map _
    · exact .error (.operators (hfails fault rfl))

mutual

theorem holds_fails [LawfulCalendar] (now : Moment) (context : Value) : ∀ c : Condition,
    FailsOnly Fault.OfConditions (c.holds (.standard now) context)
  | .expression s => by
    rw [holds]
    refine ((Expression.runWithReferences_fails_over_any _ context s).mono ?_).map _
    rintro fault (h | rfl)
    · exact ofConditions_of_ofReferences h
    · exact .operators .overflow
  | .constant _ => .ok _
  | .test field operator value => runTest_fails_over_any now _ field operator value
  | .group logic members => by
    rw [holds]
    exact (holdAll_fails now context members).map _
  | .memberless => .error (.operators (.refusal rfl))

theorem holdAll_fails [LawfulCalendar] (now : Moment) (context : Value) : ∀ cs : List Condition,
    FailsOnly Fault.OfConditions (holdAll (.standard now) context cs)
  | [] => .ok []
  | c :: rest => by
    rw [holdAll]
    exact (holds_fails now context c).bind fun _ _ => (holdAll_fails now context rest).map _

end

/-! ### Conditions over JSON -/

/-- Which faults the evaluation of a condition has over a context of JSON. Expressions have two. Constants have
none. A test whose paths cannot be followed, or whose references name what has no text, is a bad value; the paths can
be followed unless one has an index that is no number, and the references have texts unless a number is too long. Other
tests fail where no operator has the name, where their operator leaves the range of numbers or of times, and where it
refuses a field without a text. Most operators do none of this over whole numbers that doubles hold. -/
theorem faults_of_conditions [LawfulCalendar] (now : Moment) (hjson : context.isJson = true) :
    (∀ (library : Library) (s : String), FailsOnly (fun fault => fault = .badValue ∨ fault = .overflow)
      (Expression.runWithReferences library context s)) ∧
    (∀ s : String, FailsOnly (fun fault => fault = .badValue ∨ fault = .overflow)
      (holds (.standard now) context (ofScalar (.str s)))) ∧
    (∀ s : Scalar, (∀ text, s ≠ .str text) →
      holds (.standard now) context (ofScalar s) = .ok (Value.scalar s).isTruthy) ∧
    (∀ field value operator, ¬ Readable (Template.scope context) field value →
      holds (.standard now) context (.test field operator value) = .error .badValue) ∧
    (∀ field value : Value, field.isWritable = true → Path.Legible field.text →
      (∀ s, value = .str s → Template.Legible s ∧ context.isWritable = true) →
      Readable (Template.scope context) field value) ∧
    (∀ field value name, Readable (Template.scope context) field value →
      name ∉ (Language.standard now).operatorNames →
      holds (.standard now) context (.test field (.str name) value) = .error (.unknownOperator name)) ∧
    (∀ field value name v w, Path.lookup field (Template.scope context) = .ok v →
      expected (Template.scope context) value = .ok w → name ∈ (Language.standard now).operatorNames →
      FailsOnly (fun fault => fault = .overflow ∨ fault = .systemRange ∨ fault = .badValue ∧ v.isWritable = false)
        (holds (.standard now) context (.test field (.str name) value))) ∧
    ∀ field value name v w, Path.lookup field (Template.scope context) = .ok v →
      expected (Template.scope context) value = .ok w → v.isWritable = true → v.Moderate → w.Moderate →
      name ∈ (Language.standard now).operatorNames → name ∉ partialNames →
      ∃ b, holds (.standard now) context (.test field (.str name) value) = .ok b := by
  have hscope := Value.isJson_scope hjson
  have hexpressions (library : Library) (s : String) := Expression.runWithReferences_fails library hjson s
  refine ⟨hexpressions, fun s => ?_, fun s hs => ?_, fun field value operator hread => ?_,
    fun field value hwritten hfield hvalue => readable_of_legible hscope hwritten hfield fun s hs =>
      ⟨(hvalue s hs).1, Value.isWritable_scope (hvalue s hs).2⟩, fun field value name hread hname => ?_,
    fun field value name v w hfield hvalue hname => ?_,
    fun field value name v w hfield hvalue hwritable hv hw hname hpartial => ?_⟩
  · exact (hexpressions _ s).map _
  · cases s with
    | str text => exact absurd rfl (hs text)
    | _ => rfl
  · exact runTest_eq_badValue hscope operator hread
  · exact runTest_eq_unknownOperator hread (lookup_eq_none hname)
  · obtain ⟨test, htest, hmem⟩ := exists_operator hname
    refine runTest_fails hfield hvalue htest (fun fault hfault => ?_) fun hshown => .inr (.inr ⟨rfl, hshown⟩)
    cases standard_fails now v w _ hmem fault hfault with
    | refusal hrefused => exact .inl hrefused
    | overflow => exact .inr (.inl rfl)
    | systemRange => exact .inr (.inr (.inl rfl))
  · obtain ⟨test, htest, hmem⟩ := exists_operator hname
    refine FailsOnly.exists_ok (runTest_fails hfield hvalue htest (fun fault hfault => ?_) fun hshown => ?_)
    · exact .inl (standard_refused now hv hw _ hmem hpartial fault hfault)
    · rw [hwritable] at hshown
      cases hshown

end Standard

/-- Variables of which one is beyond doubles, and one is too long for a text. -/
def vast : Value := .object [("near", .int 7), ("far", .int (tenTo 400)), ("long", .int (tenTo 5000)),
  ("list", .list [.int 1])]

theorem faults_of_conditions_vast : vast.isJson = true ∧
    (∃ b, holds (.standard ⟨⟨2024, 6, 15⟩, 12, 0, 0, 0, some 0⟩) vast
      (.test (.str "near") (.str "less_than") (.int 9)) = .ok b) ∧
    holds (.standard ⟨⟨2024, 6, 15⟩, 12, 0, 0, 0, some 0⟩) vast
      (.test (.str "near") (.str "resembles") (.int 9)) = .error (.unknownOperator "resembles") := by
  have hjson : vast.isJson = true := by decide
  have hfield : Path.lookup (.str "near") (Template.scope vast) = .ok (.int 7) := rfl
  have hvalue : expected (Template.scope vast) (.int 9) = .ok (.int 9) := rfl
  have hmoderate (n : Int) (hn : n.natAbs ≤ 2 ^ 53) : (Value.int n).Moderate := ⟨Value.fits_int hn, nofun⟩
  obtain ⟨-, -, -, -, -, hunknown, -, hanswers⟩ :=
    faults_of_conditions ⟨⟨2024, 6, 15⟩, 12, 0, 0, 0, some 0⟩ hjson
  exact ⟨hjson, hanswers _ _ "less_than" _ _ hfield hvalue (by decide +kernel) (hmoderate 7 (by decide))
    (hmoderate 9 (by decide)) (by decide) (by decide), hunknown _ _ "resembles" ⟨⟨_, hfield⟩, ⟨_, hvalue⟩⟩ (by decide)⟩

/-- Evaluation can fail: for a number beyond doubles, for one that is too long, and for an index that is no number. -/
theorem conditions_fail_vast :
    Expression.runWithReferences [] vast "far == 1" = .error .overflow ∧
    Expression.runWithReferences [] vast "\x7b\x7blong\x7d\x7d == 1" = .error .badValue ∧
    Expression.runWithReferences [] vast "list.1 == \x7b\x7blist.²\x7d\x7d" = .error .badValue ∧
    holds (.standard ⟨⟨2024, 6, 15⟩, 12, 0, 0, 0, some 0⟩) vast (.test (.str "far") (.str "equals") (.int 1)) =
      .error .overflow := by
  refine ⟨fault?_eq_some.1 ?_, fault?_eq_some.1 ?_, fault?_eq_some.1 ?_, fault?_eq_some.1 ?_⟩ <;> decide +kernel

end Condition

end Flowline
