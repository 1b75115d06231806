import Flowline.Text.Case
import Flowline.Time.Calendar
import Flowline.Value.Number

/-!
Values as moments. Numbers are seconds since the start of 1970; texts are words such as `today`, spans of
time from now, or what a calendar reads as a date. What has no offset from universal time is taken as
universal time.
-/

namespace Flowline.Moment

/-- The last and the first second that the system clock can break up into a date. -/
def lastSecond : Int := 67768036191676799

def firstSecond : Int := -67768040609740800

/-- The moment of some seconds and microseconds since the start of 1970. -/
def ofSeconds (seconds micros : Int) : Except Fault Moment :=
  if seconds < -(twoTo 63) ∨ twoTo 63 ≤ seconds then .error .overflow
  else if seconds < firstSecond ∨ lastSecond < seconds then .error .systemRange
  else
    match ofMicros? (seconds * microsPerSecond + micros) with
    | some m => .ok m
    | none => .error .badValue

/-- Whole seconds and microseconds, to the nearest one, of a number of seconds. -/
def secondsAndMicros : Number → Except Fault (Int × Int)
  | .int n => .ok (n, 0)
  | .float x =>
    match Double.truncate? x with
    | none => if x.isNaN then .error .badValue else .error .overflow
    | some whole =>
      let fraction := x - (Double.ofInt? whole).getD 0
      .ok (whole, (Double.round? (fraction * 1000000)).getD 0)

/-- The moment of a number of seconds since the start of 1970, to the nearest microsecond. -/
def ofTimestamp (n : Number) : Except Fault Moment := do
  let (seconds, micros) ← secondsAndMicros n
  ofSeconds seconds micros

/-- Microseconds, to the nearest one, of a number of seconds. -/
def microsOf (n : Number) : Except Fault Int := do
  let (seconds, micros) ← secondsAndMicros n
  return seconds * microsPerSecond + micros

def addSeconds (m : Moment) (n : Number) : Except Fault Moment := do
  match m.addMicros? (← microsOf n) with
  | some later => return later
  | none => throw .overflow

/-- The words for days near now, as days from today. -/
def dayWords : List (String × Int) := [("today", 0), ("tomorrow", 1), ("yesterday", -1)]

/-- A fault of a calendar by which a text is no date. -/
def isNoDate : Fault → Bool
  | .badValue => true
  | .badArgument _ => true
  | .overflow => true
  | _ => false

/-- A text with a sign in front, which announces spans of time. -/
def isSigned (text : String) : Bool :=
  match text.toList with
  | c :: _ => c == '+' || c == '-'
  | [] => false

variable [Calendar]

/-- The moment that the calendar reads a text as, or none if it is no date. -/
def parsed (s : String) (now : Moment) : Except Fault (Option Moment) :=
  match Calendar.parse now s with
  | .ok m => .ok (some m.withOffset)
  | .error fault => if isNoDate fault then .ok none else .error fault

/-- The moment that a text names, or none if it names none. -/
def ofText (s : String) (now : Moment) : Except Fault (Option Moment) :=
  let text := Text.trim s
  let word := Text.lower text
  if word == "now" then .ok (some now)
  else
    match dayWords.find? (·.1 == word) with
    | some (_, days) => do return some (← Calendar.add now.midnight [⟨.day, days⟩])
    | none =>
      if isSigned text && !(Span.mentions text).isEmpty then do return some (← now.addText text)
      else parsed text now

/-- The moment that a value is, or none if it is none. -/
def ofValue (v : Value) (now : Moment) : Except Fault (Option Moment) :=
  match v with
  | .null => .ok none
  | .bool _ => .ok none
  | .str s => if s.isEmpty then .ok none else ofText s now
  | .moment m => .ok (some m.withOffset)
  | .date d => .ok (some (ofDate d).withOffset)
  | .int n => do return some (← ofTimestamp (.int n))
  | .float x => do return some (← ofTimestamp (.float x))
  | v => do ofText (← v.written) now

/-- Seconds since the start of 1970 of the moment that a value is. -/
def timestampOf (v : Value) (now : Moment) : Except Fault (Option Float) := do
  return (← ofValue v now).map timestamp

end Flowline.Moment
