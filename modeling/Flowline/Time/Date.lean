/-!
Calendar dates of the years 1 to 9999. `Date.dayNumber` counts days from 1 January of year 1, which is
day 1, and `Date.ofDayNumber` is its inverse.
-/

namespace Flowline

/-- A date of the Gregorian calendar. -/
structure Date where
  year : Nat
  month : Nat
  day : Nat
deriving Repr, DecidableEq, Inhabited

namespace Date

def isLeap (year : Nat) : Bool :=
  year % 4 == 0 && (year % 100 != 0 || year % 400 == 0)

def daysInMonth (year month : Nat) : Nat :=
  if month == 2 then if isLeap year then 29 else 28
  else if month == 4 || month == 6 || month == 9 || month == 11 then 30
  else 31

def isValid (d : Date) : Bool :=
  1 ≤ d.year && d.year ≤ 9999 && 1 ≤ d.month && d.month ≤ 12 &&
    1 ≤ d.day && d.day ≤ daysInMonth d.year d.month

/-- The date of a year, month and day, if it exists. -/
def of? (year month day : Nat) : Option Date :=
  let d : Date := ⟨year, month, day⟩
  if d.isValid then some d else none

def daysBeforeYear (year : Nat) : Nat :=
  let y := year - 1
  y * 365 + y / 4 - y / 100 + y / 400

def daysBeforeMonth (year month : Nat) : Nat :=
  (List.range (month - 1)).foldl (fun days m => days + daysInMonth year (m + 1)) 0

/-- Days from the first of January of year 1, which is day 1. -/
def dayNumber (d : Date) : Nat :=
  daysBeforeYear d.year + daysBeforeMonth d.year d.month + d.day

def maxDayNumber : Nat := 3652059

/-- The month and day of the `n`-th day of a year, counted from zero; `month` is where to look from. -/
def monthAndDay (year : Nat) : Nat → Nat → Nat → Nat × Nat
  | 0, month, n => (month, n + 1)
  | fuel + 1, month, n =>
    if n < daysInMonth year month then (month, n + 1)
    else monthAndDay year fuel (month + 1) (n - daysInMonth year month)

/-- The date with a day number. Years come in cycles of 400, 100 and 4, and the last day of a cycle
would fall into a year too many. -/
def ofDayNumber (n : Nat) : Date :=
  let n := n - 1
  let cycles400 := n / 146097
  let n := n % 146097
  let cycles100 := min (n / 36524) 3
  let n := n - cycles100 * 36524
  let cycles4 := n / 1461
  let n := n % 1461
  let years := min (n / 365) 3
  let n := n - years * 365
  let year := cycles400 * 400 + cycles100 * 100 + cycles4 * 4 + years + 1
  let (month, day) := monthAndDay year 11 1 n
  ⟨year, month, day⟩

def weekday (d : Date) : Nat := (d.dayNumber + 6) % 7

def padded (width n : Nat) : String :=
  let ds := Nat.toDigits 10 n
  String.ofList (List.replicate (width - ds.length) '0' ++ ds)

def isoText (d : Date) : String :=
  padded 4 d.year ++ "-" ++ padded 2 d.month ++ "-" ++ padded 2 d.day

end Date

end Flowline
