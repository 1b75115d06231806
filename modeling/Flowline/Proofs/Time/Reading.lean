import Flowline.Proofs.Time.Iso
import Flowline.Proofs.Value.Records
import Flowline.Time.Dated
import Flowline.Time.Reading

/-! # Moments of values

What is relied on of a calendar is `LawfulCalendar`; the numeric calendar is lawful. Over a lawful calendar texts,
numbers and dates are read as proper moments (`Moment.proper_of_ofValue`), and the microseconds from the start of 1970
to a proper moment are few enough for whole numbers of 59 bits. -/

namespace Flowline

/-- A calendar gives moments with a date and a clock that exist. A text that it does not read is a bad value or leads
beyond its range, and so is a moment to which it cannot move. -/
class LawfulCalendar [Calendar] : Prop where
  parse_proper : ∀ now s m, Calendar.parse now s = .ok m → m.withOffset.Proper
  parse_fails : ∀ now s fault, Calendar.parse now s = .error fault → Moment.isNoDate fault = true
  add_proper : ∀ (m : Moment) spans later, m.Proper → Calendar.add m spans = .ok later → later.Proper
  add_fails : ∀ m spans fault, Calendar.add m spans = .error fault → fault = .badValue ∨ fault = .overflow

/-- A value of a moment or a date is one of the calendar. -/
def Value.OnCalendar : Value → Prop
  | .moment m => m.withOffset.Proper
  | .date d => d.isValid = true
  | _ => True

namespace Moment

variable {m now : Moment} {cs rest : List Char}

theorem foldl_digits_lt {ds : List Char} (hds : ∀ c ∈ ds, c.isDigit = true) (n : Nat) :
    ds.foldl (fun n c => 10 * n + (c.toNat - 48)) n < (n + 1) * 10 ^ ds.length := by
  induction ds generalizing n with
  | nil => simp
  | cons c ds ih =>
    obtain ⟨hc, hds⟩ := List.forall_mem_cons.1 hds
    have hdigit : c.toNat - 48 ≤ 9 := by
      have hle : c.toNat ≤ 57 := by
        simp only [Char.isDigit, Bool.and_eq_true, decide_eq_true_eq, UInt32.le_iff_toNat_le] at hc
        exact hc.2
      omega
    rw [List.foldl_cons, List.length_cons, Nat.pow_succ']
    calc _ < (10 * n + (c.toNat - 48) + 1) * 10 ^ ds.length := ih hds _
      _ ≤ (n + 1) * 10 * 10 ^ ds.length := Nat.mul_le_mul_right _ (by omega)
      _ = _ := Nat.mul_assoc ..

theorem readFraction_lt (cs : List Char) : (readFraction cs).1 < 1000000 := by
  unfold readFraction
  split
  · next rest =>
    dsimp only
    split
    · exact Nat.succ_pos _
    · have hdigits : ∀ c ∈ (rest.takeWhile Char.isDigit ++ List.replicate 6 '0').take 6, c.isDigit = true := by
        intro c hc
        rcases List.mem_append.1 (List.mem_of_mem_take hc) with hc | hc
        · exact List.all_eq_true.1 List.all_takeWhile c hc
        · rw [List.eq_of_mem_replicate hc]
          rfl
      have hlt := foldl_digits_lt hdigits 0
      rw [List.length_take_of_le (by simp)] at hlt
      exact hlt
  · exact Nat.succ_pos _

theorem isValid_of_of? {year month day : Nat} {d : Date} (h : Date.of? year month day = some d) : d.isValid = true := by
  unfold Date.of? at h
  dsimp only at h
  split at h
  · next hvalid =>
    cases h
    exact hvalid
  · cases h

theorem isValid_of_readDate? {d : Date} (h : readDate? cs = some (d, rest)) : d.isValid = true := by
  unfold readDate? at h
  simp only [Option.bind_eq_bind, Option.bind_eq_some_iff] at h
  obtain ⟨⟨year, cs⟩, -, h⟩ := h
  dsimp only at h
  split at h
  · split at h
    · simp only [Option.bind_eq_some_iff] at h
      obtain ⟨⟨month, cs⟩, -, h⟩ := h
      dsimp only at h
      split at h
      · split at h
        · simp only [Option.bind_eq_some_iff] at h
          obtain ⟨⟨day, cs⟩, -, e, he, h⟩ := h
          cases h
          exact isValid_of_of? he
        · cases h
      · cases h
    · cases h
  · cases h

theorem readClock?_bounds {hour minute second micro : Nat}
    (h : readClock? cs = some ((hour, minute, second, micro), rest)) :
    hour < 24 ∧ minute < 60 ∧ second < 60 ∧ micro < 1000000 := by
  unfold readClock? at h
  simp only [Option.bind_eq_bind, Option.bind_eq_some_iff] at h
  obtain ⟨⟨h1, cs⟩, -, h⟩ := h
  dsimp only at h
  split at h
  · simp only [Option.bind_eq_some_iff] at h
    obtain ⟨⟨m1, cs⟩, -, h⟩ := h
    dsimp only at h
    split at h
    · simp only [Option.bind_eq_some_iff] at h
      obtain ⟨⟨s1, cs⟩, -, _, hseconds, h⟩ := h
      cases hseconds
      have hmicro := readFraction_lt cs
      split at h
      · next hbounds =>
        cases h
        exact ⟨hbounds.1, hbounds.2.1, hbounds.2.2, hmicro⟩
      · cases h
    · simp only [Option.pure_def, Option.bind_some] at h
      split at h
      · next hbounds =>
        cases h
        exact ⟨hbounds.1, hbounds.2.1, hbounds.2.2, Nat.succ_pos _⟩
      · cases h
  · cases h

theorem readOffset?_lt {offset : Int} (h : readOffset? cs = some (some offset)) : offset.natAbs < 86400 := by
  unfold readOffset? at h
  split at h
  · cases h
  · cases h
    decide
  · cases h
    decide
  · cases h
    decide
  · cases h
    decide
  · split at h
    · dsimp only at h
      split at h
      · split at h
        · next hm =>
          have hoffset := Option.some.inj (Option.some.inj h)
          split at hoffset <;> omega
        · cases h
      · cases h
    · cases h

theorem proper_ofDate {d : Date} (hd : d.isValid = true) : (ofDate d).withOffset.Proper :=
  ⟨hd, Nat.succ_pos _, Nat.succ_pos _, Nat.succ_pos _, Nat.succ_pos _, 0, rfl, Nat.succ_pos _⟩

/-- A text that is read as a moment has one of the calendar, with the clock of a day. -/
theorem proper_of_read? {s : String} (h : read? s = some m) : m.withOffset.Proper := by
  unfold read? at h
  simp only [Option.bind_eq_bind, Option.bind_eq_some_iff] at h
  obtain ⟨⟨d, rest⟩, hdate, h⟩ := h
  have hvalid := isValid_of_readDate? hdate
  dsimp only at h
  split at h
  · cases h
    exact proper_ofDate hvalid
  · split at h
    · simp only [Option.bind_eq_some_iff] at h
      obtain ⟨⟨⟨hour, minute, second, micro⟩, rest⟩, hclock, offset?, hoffset, h⟩ := h
      cases h
      obtain ⟨hhour, hminute, hsecond, hmicro⟩ := readClock?_bounds hclock
      refine ⟨hvalid, hhour, hminute, hsecond, hmicro, offset?.getD 0, rfl, ?_⟩
      cases offset? with
      | none => decide
      | some offset => exact readOffset?_lt hoffset
    · cases h

theorem offset_of_addMonths {n : Int} (h : m.addMonths n = .ok now) : now.offset? = m.offset? := by
  unfold addMonths at h
  dsimp only at h
  split at h
  · cases h
    rfl
  · split at h <;> cases h

theorem proper_of_addSpans {spans : List Span} (hm : m.Proper) (h : m.addSpans spans = .ok now) : now.Proper := by
  obtain ⟨offset, hoffset, hlt⟩ := hm.offset
  unfold addSpans at h
  obtain ⟨moved, hmoved, h⟩ := bind_eq_ok.1 h
  split at h
  · next later hlater =>
    cases h
    rw [addMicros?, offset_of_addMonths hmoved, hoffset] at hlater
    exact proper_ofClockMicros hlt hlater
  · cases h

theorem addSpans_fails {spans : List Span} {fault : Fault} (h : m.addSpans spans = .error fault) :
    fault = .badValue ∨ fault = .overflow := by
  unfold addSpans at h
  obtain hmonths | ⟨moved, -, h⟩ := bind_eq_error h
  · unfold addMonths at hmonths
    dsimp only at hmonths
    split at hmonths
    · cases hmonths
    split at hmonths
    · exact .inl (Except.error.inj hmonths).symm
    · exact .inr (Except.error.inj hmonths).symm
  · split at h
    · cases h
    · exact .inr (Except.error.inj h).symm

end Moment

instance LawfulCalendar.numeric : LawfulCalendar where
  parse_proper now s m h := by
    obtain hread | ⟨read, hread⟩ := Option.eq_none_or_eq_some (Moment.read? s)
    · simp [Calendar.parse, hread] at h
    · obtain rfl : read = m := by simpa [Calendar.parse, hread] using h
      exact Moment.proper_of_read? hread
  parse_fails now s fault h := by
    obtain hread | ⟨read, hread⟩ := Option.eq_none_or_eq_some (Moment.read? s)
    · obtain rfl : Fault.badValue = fault := by simpa [Calendar.parse, hread] using h
      rfl
    · simp [Calendar.parse, hread] at h
  add_proper m spans later hm h := Moment.proper_of_addSpans hm h
  add_fails m spans fault h := Moment.addSpans_fails h

/-! ## Moments over a lawful calendar -/

namespace Moment
variable {m now : Moment}

theorem Proper.midnight (hm : m.Proper) : m.midnight.Proper :=
  ⟨hm.date, Nat.succ_pos _, Nat.succ_pos _, Nat.succ_pos _, Nat.succ_pos _, hm.offset⟩

theorem proper_of_ofTimestamp {n : Number} (h : ofTimestamp n = .ok m) : m.Proper := by
  unfold ofTimestamp at h
  obtain ⟨⟨seconds, micros⟩, -, h⟩ := bind_eq_ok.1 h
  dsimp only at h
  unfold ofSeconds at h
  split at h
  · cases h
  split at h
  · cases h
  split at h
  · next hmoment =>
    cases h
    exact proper_ofClockMicros (by decide) hmoment
  · cases h

section Lawful
variable [Calendar] [LawfulCalendar]

theorem proper_of_parsed {s : String} (h : parsed s now = .ok (some m)) : m.Proper := by
  unfold parsed at h
  split at h
  · next read hread =>
    cases h
    exact LawfulCalendar.parse_proper _ _ _ hread
  · split at h <;> cases h

theorem proper_of_addText {s : String} (hm : m.Proper) (h : m.addText s = .ok now) : now.Proper := by
  unfold addText at h
  split at h
  · cases h
  · obtain ⟨spans, -, h⟩ := bind_eq_ok.1 h
    exact LawfulCalendar.add_proper _ _ _ hm h

theorem proper_of_ofText {s : String} (hnow : now.Proper) (h : ofText s now = .ok (some m)) : m.Proper := by
  unfold ofText at h
  dsimp only at h
  split at h
  · cases h
    exact hnow
  split at h
  · obtain ⟨later, hlater, h⟩ := bind_eq_ok.1 h
    cases h
    exact LawfulCalendar.add_proper _ _ _ hnow.midnight hlater
  split at h
  · obtain ⟨later, hlater, h⟩ := bind_eq_ok.1 h
    cases h
    exact proper_of_addText hnow hlater
  · exact proper_of_parsed h

/-- The moment that a value is, is one of the calendar. -/
theorem proper_of_ofValue {v : Value} (hnow : now.Proper) (hv : v.OnCalendar) (h : ofValue v now = .ok (some m)) :
    m.Proper := by
  unfold ofValue at h
  split at h
  · cases h
  · cases h
  · split at h
    · cases h
    · exact proper_of_ofText hnow h
  · cases h
    exact hv
  · cases h
    exact proper_ofDate hv
  · obtain ⟨later, hlater, h⟩ := bind_eq_ok.1 h
    cases h
    exact proper_of_ofTimestamp hlater
  · obtain ⟨later, hlater, h⟩ := bind_eq_ok.1 h
    cases h
    exact proper_of_ofTimestamp hlater
  · obtain ⟨text, -, h⟩ := bind_eq_ok.1 h
    exact proper_of_ofText hnow h

end Lawful

end Moment

/-! ## The size of moments -/

namespace Date

theorem daysInMonth_le (year month : Nat) : daysInMonth year month ≤ 31 := by
  unfold daysInMonth
  grind

theorem foldl_days_le (year count : Nat) :
    (List.range count).foldl (fun days m => days + daysInMonth year (m + 1)) 0 ≤ 31 * count := by
  induction count with
  | zero => exact Nat.le_refl _
  | succ count ih =>
    have hmonth := daysInMonth_le year (count + 1)
    rw [List.range_succ, List.foldl_append, List.foldl_cons, List.foldl_nil]
    omega

theorem dayNumber_lt {d : Date} (hd : d.isValid = true) : d.dayNumber < 4000000 := by
  have hmonths := foldl_days_le d.year (d.month - 1)
  have hday := daysInMonth_le d.year d.month
  simp only [isValid, Bool.and_eq_true, decide_eq_true_eq] at hd
  unfold dayNumber daysBeforeYear daysBeforeMonth
  dsimp only
  omega

end Date

theorem Moment.Proper.natAbs_micros_lt {m : Moment} (h : m.Proper) : m.micros.natAbs < 2 ^ 59 := by
  obtain ⟨offset, hoffset, hlt⟩ := h.offset
  have hday := Date.dayNumber_lt h.date
  have hhour := h.hour
  have hminute := h.minute
  have hsecond := h.second
  have hmicro := h.micro
  simp only [micros, clockMicros, microOfDay, hoffset, Option.getD_some, epochDay, microsPerDay, microsPerSecond]
  omega

end Flowline

