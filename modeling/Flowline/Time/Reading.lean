import Flowline.Text.Blank
import Flowline.Text.Digit
import Flowline.Time.Calendar

/-!
The numeric calendar. It reads a date as year, month and day between dashes or slashes, and perhaps a time
of day after a `T` or blanks, with seconds, a fraction and an offset from universal time where they are
given. Months and years move the date, with the day cut to the length of the month, and the other units
then move the clock.
-/

namespace Flowline

namespace Moment

open Text

/-! ## Texts -/

/-- The value of the digits at the front of a text, if their number is within bounds, and the rest. -/
def digits? (least most : Nat) (cs : List Char) : Option (Nat × List Char) :=
  let ds := cs.takeWhile Char.isDigit
  if least ≤ ds.length ∧ ds.length ≤ most then
    some (ds.foldl (fun n c => 10 * n + (c.toNat - 48)) 0, cs.drop ds.length)
  else none

def readDate? (cs : List Char) : Option (Date × List Char) := do
  let (year, rest) ← digits? 4 4 cs
  match rest with
  | sep :: rest =>
    if sep == '-' || sep == '/' then
      let (month, rest) ← digits? 1 2 rest
      match rest with
      | sep' :: rest =>
        if sep' == sep then
          let (day, rest) ← digits? 1 2 rest
          return (← Date.of? year month day, rest)
        else none
      | [] => none
    else none
  | [] => none

/-- Microseconds after a decimal point; digits beyond the sixth are dropped. -/
def readFraction (cs : List Char) : Nat × List Char :=
  match cs with
  | '.' :: rest =>
    let ds := rest.takeWhile Char.isDigit
    if ds.isEmpty then (0, cs)
    else
      let six := (ds ++ List.replicate 6 '0').take 6
      (six.foldl (fun n c => 10 * n + (c.toNat - 48)) 0, rest.drop ds.length)
  | _ => (0, cs)

/-- Hour, minute, second and microsecond at the front of a text, and the rest. -/
def readClock? (cs : List Char) : Option ((Nat × Nat × Nat × Nat) × List Char) := do
  let (hour, rest) ← digits? 1 2 cs
  match rest with
  | ':' :: rest =>
    let (minute, rest) ← digits? 1 2 rest
    let (second, micro, rest) ←
      match rest with
      | ':' :: rest =>
        let (second, rest) ← digits? 1 2 rest
        let (micro, rest) := readFraction rest
        pure (second, micro, rest)
      | rest => pure (0, 0, rest)
    if hour < 24 ∧ minute < 60 ∧ second < 60 then return ((hour, minute, second, micro), rest)
    else none
  | _ => none

/-- An offset from universal time that a text consists of, or none if the text is empty. -/
def readOffset? (cs : List Char) : Option (Option Int) :=
  match cs.dropWhile isBlank with
  | [] => some none
  | ['Z'] | ['z'] | ['U', 'T', 'C'] | ['G', 'M', 'T'] => some (some 0)
  | sign :: rest =>
    if sign == '+' || sign == '-' then
      let minutes? : Option (Nat × List Char) := do
        let (h, tail) ← digits? 2 2 (rest.take 2)
        match tail, rest.drop 2 with
        | [], [] => return (h * 60, [])
        | [], ':' :: more =>
          let (m, tail) ← digits? 2 2 more
          return (h * 60 + m, tail)
        | [], more =>
          let (m, tail) ← digits? 2 2 more
          return (h * 60 + m, tail)
        | _, _ => none
      match minutes? with
      | some (m, []) =>
        if m < 1440 then some (some (if sign == '-' then -(m * 60 : Nat) else (m * 60 : Nat)))
        else none
      | _ => none
    else none

/-- The moment that a text is, or none if the text is no numeric date. -/
def read? (s : String) : Option Moment := do
  let (date, rest) ← readDate? (trimList s.toList)
  match rest with
  | [] => return ofDate date
  | c :: rest =>
    if c == 'T' || c == 't' || isBlank c then
      let ((hour, minute, second, micro), rest) ← readClock? (rest.dropWhile isBlank)
      let offset? ← readOffset? rest
      return ⟨date, hour, minute, second, micro, offset?⟩
    else none

/-! ## Spans -/

/-- The largest year that a calendar field can be asked for. -/
def maxField : Nat := 2147483647

/-- The moment some months later, the day cut to the length of the month. -/
def addMonths (m : Moment) (n : Int) : Except Fault Moment :=
  let total := (m.date.year : Int) * 12 + (m.date.month - 1 : Nat) + n
  let year := total.fdiv 12
  let month := (total.fmod 12).toNat + 1
  if 1 ≤ year ∧ year ≤ 9999 then
    let day := min (Date.daysInMonth year.toNat month) m.date.day
    .ok { m with date := ⟨year.toNat, month, day⟩ }
  else if year.natAbs ≤ maxField then .error .badValue
  else .error .overflow

/-- The months of a unit of the calendar. -/
def unitMonths : TimeUnit → Int
  | .month => 1
  | .year => 12
  | _ => 0

/-- The seconds of a unit of the clock. -/
def unitSeconds : TimeUnit → Int
  | .second => 1
  | .minute => 60
  | .hour => 3600
  | .day => 86400
  | .week => 604800
  | _ => 0

/-- What spans come to together, by what each unit counts. -/
def sumOf (counts : TimeUnit → Int) (spans : List Span) : Int :=
  spans.foldl (fun n span => n + span.amount * counts span.unit) 0

def addSpans (m : Moment) (spans : List Span) : Except Fault Moment := do
  let m ← m.addMonths (sumOf unitMonths spans)
  match m.addMicros? (sumOf unitSeconds spans * microsPerSecond) with
  | some later => return later
  | none => .error .overflow

end Moment

/-- The calendar of numeric dates, which is used where no other is given. -/
instance Calendar.numeric : Calendar where
  parse _ s := match Moment.read? s with | some m => .ok m | none => .error .badValue
  add := Moment.addSpans

end Flowline
