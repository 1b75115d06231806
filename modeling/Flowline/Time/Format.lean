import Flowline.Time.Moment

/-!
Moments as text in a format: letters stand for parts of the date and the time, and all other characters
for themselves.
-/

namespace Flowline

def Date.dayNames : List String :=
  ["Monday", "Tuesday", "Wednesday", "Thursday", "Friday", "Saturday", "Sunday"]

def Date.monthNames : List String :=
  ["January", "February", "March", "April", "May", "June", "July", "August", "September", "October",
    "November", "December"]

def Date.dayName (d : Date) : String := dayNames.getD d.weekday ""

def Date.monthName (d : Date) : String := monthNames.getD (d.month - 1) ""

namespace Moment

def abbreviation (name : String) : String := String.ofList (name.toList.take 3)

/-- Seconds since the start of 1970, the fraction dropped. -/
def wholeTimestamp (m : Moment) : Int :=
  (Double.truncate? m.timestamp).getD 0

def formatChar (m : Moment) (c : Char) : String :=
  match c with
  | 'Y' => toString m.date.year
  | 'y' => Date.padded 2 (m.date.year % 100)
  | 'm' => Date.padded 2 m.date.month
  | 'd' => Date.padded 2 m.date.day
  | 'H' => Date.padded 2 m.hour
  | 'i' => Date.padded 2 m.minute
  | 's' => Date.padded 2 m.second
  | 'D' => abbreviation m.date.dayName
  | 'l' => m.date.dayName
  | 'M' => abbreviation m.date.monthName
  | 'F' => m.date.monthName
  | 'A' => if m.hour < 12 then "AM" else "PM"
  | 'j' => toString m.date.day
  | 'n' => toString m.date.month
  | 'G' => toString m.hour
  | 'w' => toString ((m.date.weekday + 1) % 7)
  | 'N' => toString (m.date.weekday + 1)
  | 'U' => toString m.wholeTimestamp
  | c => c.toString

def format (m : Moment) (format : String) : String :=
  String.join (format.toList.map m.formatChar)

def plainText (m : Moment) : String := m.format "Y-m-d H:i:s"

end Moment

end Flowline
