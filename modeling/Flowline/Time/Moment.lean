import Flowline.Number.Double
import Flowline.Time.Date

/-!
Moments: a date, a time of day to the microsecond, and perhaps an offset from universal time.
`Moment.micros` places a moment on one line of microseconds, on which moments with an offset are
compared.
-/

namespace Flowline

/-- A date and a time of day, with the offset of the clock from universal time in seconds if it is
known. -/
structure Moment where
  date : Date
  hour : Nat
  minute : Nat
  second : Nat
  micro : Nat
  offset? : Option Int
deriving Repr, DecidableEq, Inhabited

namespace Moment

def epochDay : Nat := 719163

def microsPerSecond : Int := 1000000

def microsPerDay : Int := 86400 * microsPerSecond

def microOfDay (m : Moment) : Int :=
  ((m.hour * 3600 + m.minute * 60 + m.second : Nat) : Int) * microsPerSecond + m.micro

/-- Microseconds that the clock shows since the start of 1970. -/
def clockMicros (m : Moment) : Int :=
  ((m.date.dayNumber : Int) - epochDay) * microsPerDay + m.microOfDay

/-- Microseconds since the start of 1970 in universal time; a moment without an offset counts as
universal time. -/
def micros (m : Moment) : Int :=
  m.clockMicros - (m.offset?.getD 0) * microsPerSecond

/-- The moment at which a clock with an offset shows some microseconds since the start of 1970, if its
year is between 1 and 9999. -/
def ofClockMicros? (offset? : Option Int) (n : Int) : Option Moment :=
  let day := n.fdiv microsPerDay + epochDay
  let rest := (n.fmod microsPerDay).toNat
  if 1 ≤ day ∧ day ≤ Date.maxDayNumber then
    let seconds := rest / 1000000
    some {
      date := Date.ofDayNumber day.toNat
      hour := seconds / 3600
      minute := seconds / 60 % 60
      second := seconds % 60
      micro := rest % 1000000
      offset? := offset? }
  else none

/-- The moment some microseconds later on the same clock. -/
def addMicros? (m : Moment) (n : Int) : Option Moment :=
  ofClockMicros? m.offset? (m.clockMicros + n)

/-- The moment in universal time of some microseconds since the start of 1970. -/
def ofMicros? (n : Int) : Option Moment :=
  ofClockMicros? (some 0) n

/-- Seconds since the start of 1970, as the nearest double. -/
def timestamp (m : Moment) : Float :=
  (Double.nearest? (decide (m.micros < 0)) m.micros.natAbs 1000000).getD 0

def midnight (m : Moment) : Moment :=
  { m with hour := 0, minute := 0, second := 0, micro := 0 }

/-- The start of a date, on a clock without an offset. -/
def ofDate (d : Date) : Moment :=
  { date := d, hour := 0, minute := 0, second := 0, micro := 0, offset? := none }

/-- A moment without an offset is taken as universal time. -/
def withOffset (m : Moment) : Moment :=
  { m with offset? := some (m.offset?.getD 0) }

/-- An offset as hours and minutes with a sign, and seconds where there are any. -/
def offsetText (offset : Int) : String :=
  let n := offset.natAbs
  let seconds := if n % 60 = 0 then "" else ":" ++ Date.padded 2 (n % 60)
  (if offset < 0 then "-" else "+") ++ Date.padded 2 (n / 3600) ++ ":" ++
    Date.padded 2 (n / 60 % 60) ++ seconds

/-- The time of day, with microseconds where there are any. -/
def clockText (m : Moment) : String :=
  let fraction := if m.micro = 0 then "" else "." ++ Date.padded 6 m.micro
  Date.padded 2 m.hour ++ ":" ++ Date.padded 2 m.minute ++ ":" ++ Date.padded 2 m.second ++ fraction

def textWith (separator : String) (m : Moment) : String :=
  m.date.isoText ++ separator ++ m.clockText ++
    (match m.offset? with | some o => offsetText o | none => "")

def isoText (m : Moment) : String := m.textWith "T"

def text (m : Moment) : String := m.textWith " "

/-- Moments are equal when both have an offset and are the same instant, or neither has one and the
clocks agree. -/
def same (a b : Moment) : Bool :=
  a.offset?.isSome == b.offset?.isSome && a.micros == b.micros

end Moment

end Flowline
