import Flowline.Fault
import Flowline.Number.Shortest
import Flowline.Text.Quoted
import Flowline.Value.Basic

/-!
The text of values as they are shown in messages: `Value.quoted` tells a text from a number, and
`Value.text` leaves a text as it is. Whole numbers are written up to a number of digits only:
`Value.written` and `Value.shown` fail where one has more.
-/

namespace Flowline

/-- A span of time in whole days and the seconds beyond them. -/
def Moment.spanText (seconds : Int) : String :=
  let days := seconds.fdiv 86400
  let rest := seconds.fmod 86400
  let parts := (if days = 0 then [] else [s!"days={days}"]) ++
    (if rest = 0 then [] else [s!"seconds={rest}"])
  "datetime.timedelta(" ++ (if parts.isEmpty then "0" else ", ".intercalate parts) ++ ")"

/-- The clock of an offset, as it is shown among the parts of a moment. -/
def Moment.zoneText (offset : Int) : String :=
  if offset = 0 then "datetime.timezone.utc" else s!"datetime.timezone({spanText offset})"

def Date.quoted (d : Date) : String :=
  s!"datetime.date({d.year}, {d.month}, {d.day})"

/-- The parts of a moment; seconds and microseconds are left out where they end in zero. -/
def Moment.quoted (m : Moment) : String :=
  let seconds := if m.micro ≠ 0 then [s!"{m.second}", s!"{m.micro}"]
    else if m.second ≠ 0 then [s!"{m.second}"] else []
  let zone := match m.offset? with
    | some o => ["tzinfo=" ++ zoneText o]
    | none => []
  let parts := [s!"{m.date.year}", s!"{m.date.month}", s!"{m.date.day}", s!"{m.hour}", s!"{m.minute}"]
  "datetime.datetime(" ++ ", ".intercalate (parts ++ seconds ++ zone) ++ ")"

namespace Scalar

/-- A scalar as it is shown among the parts of another value. -/
def quoted : Scalar → String
  | .null => "None"
  | .bool b => if b then "True" else "False"
  | .int n => toString n
  | .float x => Double.text x
  | .str s => Text.quoted s
  | .date d => d.quoted
  | .moment m => m.quoted
  | .bytes b => Text.quotedBytes b

def text : Scalar → String
  | .str s => s
  | .date d => d.isoText
  | .moment m => m.text
  | s => s.quoted

end Scalar

namespace Value

mutual

/-- A value as it is shown among the parts of another value. -/
def quoted : Value → String
  | .scalar s => s.quoted
  | .list items => "[" ++ ", ".intercalate (quotedList items) ++ "]"
  | .map entries => "\x7b" ++ ", ".intercalate (quotedEntries entries) ++ "\x7d"
  | .set items =>
    if items.isEmpty then "set()" else "\x7b" ++ ", ".intercalate (items.map Scalar.quoted) ++ "\x7d"

def quotedList : List Value → List String
  | [] => []
  | v :: rest => quoted v :: quotedList rest

def quotedEntries : List (Scalar × Value) → List String
  | [] => []
  | (k, v) :: rest => (k.quoted ++ ": " ++ quoted v) :: quotedEntries rest

end

def text : Value → String
  | .scalar s => s.text
  | v => v.quoted

/-! ## Long numbers -/

/-- The most digits with which a whole number is read or written. -/
def maxNumeralSize : Nat := 4300

/-- A whole number has no more digits than a numeral may have. -/
@[irreducible] def fitsNumeral (n : Int) : Bool := n.natAbs < tenTo maxNumeralSize

def isWritableScalar : Scalar → Bool
  | .int n => fitsNumeral n
  | _ => true

mutual

/-- No whole number in a value has more digits than a numeral may have. -/
def isWritable : Value → Bool
  | .scalar s => isWritableScalar s
  | .list items => areWritable items
  | .map entries => areEntriesWritable entries
  | .set items => items.all isWritableScalar

def areWritable : List Value → Bool
  | [] => true
  | v :: rest => isWritable v && areWritable rest

def areEntriesWritable : List (Scalar × Value) → Bool
  | [] => true
  | (k, v) :: rest => isWritableScalar k && isWritable v && areEntriesWritable rest

end

/-- The text of a value; there is none of a whole number with too many digits. -/
def written (v : Value) : Except Fault String :=
  if v.isWritable then .ok v.text else .error .badValue

/-- A value as it is shown among the parts of another value, unless a whole number in it has too many
digits. -/
def shown (v : Value) : Except Fault String :=
  if v.isWritable then .ok v.quoted else .error .badValue

end Value

end Flowline
