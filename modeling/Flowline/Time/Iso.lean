import Flowline.Time.Reading

/-!
Moments in the forms of ISO 8601: a date with or without dashes, or a week and a weekday, and perhaps a
clock after one separating character. Nothing may be left over, and blanks are not passed over.
-/

namespace Flowline.Moment.Iso

def isAsciiDigit (c : Char) : Bool := c.isDigit

/-- The number that a given count of digits denotes. -/
def number? (count : Nat) (cs : List Char) : Option (Nat × List Char) :=
  let ds := cs.take count
  if ds.length = count ∧ ds.all isAsciiDigit then
    some (ds.foldl (fun n c => 10 * n + (c.toNat - 48)) 0, cs.drop count)
  else none

/-- How many characters the date takes before the separator, given its first ones. -/
def dateLength? (cs : List Char) : Option Nat :=
  let isDash (n : Nat) : Bool := cs[n]? == some '-'
  let isDigitAt (n : Nat) : Bool := (cs[n]?.map isAsciiDigit).getD false
  if cs.length < 7 then none
  else if cs.length = 7 then some 7
  else if isDash 4 then
    if cs[5]? == some 'W' then
      if isDash 8 then
        if cs.length = 9 then none
        else if isDigitAt 10 then some 8
        else some 10
      else some 8
    else some 10
  else if cs[4]? == some 'W' then
    let digits := ((cs.drop 7).takeWhile isAsciiDigit).length
    if digits < 2 then some (7 + digits) else if digits % 2 = 1 then some 7 else some 8
  else some 8

/-- Monday of the first week of a year, as a day number; that week holds the fourth of January. -/
def firstMonday (year : Nat) : Int :=
  let fourth := (Date.mk year 1 4)
  (fourth.dayNumber : Int) - fourth.weekday

def ofWeek? (year week day : Nat) : Option Date :=
  let next := firstMonday (year + 1)
  if 1 ≤ year ∧ year ≤ 9999 ∧ 1 ≤ week ∧ 1 ≤ day ∧ day ≤ 7 then
    let start := firstMonday year + ((week : Int) - 1) * 7
    let n := start + day - 1
    if week ≤ 53 ∧ (week < 53 ∨ start < next) ∧ 1 ≤ n ∧ n ≤ Date.maxDayNumber then
      some (Date.ofDayNumber n.toNat)
    else none
  else none

/-- The week and the weekday, which is Monday where it is left out. -/
def weekDate? (year : Nat) (dashed : Bool) (cs : List Char) : Option Date := do
  let (week, rest) ← number? 2 cs
  match rest with
  | [] => ofWeek? year week 1
  | c :: more =>
    if dashed && c != '-' then none
    let (day, _) ← number? 1 (if dashed then more else rest)
    ofWeek? year week day

def date? (cs : List Char) : Option Date := do
  let (year, rest) ← number? 4 cs
  let dashed := rest.head? == some '-'
  let rest := if dashed then rest.tail else rest
  if rest.head? == some 'W' then weekDate? year dashed rest.tail
  else
    let (month, rest) ← number? 2 rest
    if dashed && rest.head? != some '-' then none
    let (day, _) ← number? 2 (if dashed then rest.tail else rest)
    Date.of? year month day

/-- A clock as read: hours, minutes, seconds and microseconds, and whether characters are left over. -/
structure Clock where
  parts : List Nat
  micro : Nat
  surplus : Bool

/-- The rest of a clock, a fraction: microseconds from its first six digits. -/
def fraction? (parts : List Nat) (cs : List Char) : Option Clock := do
  let count := min 6 cs.length
  let (n, rest) ← number? count cs
  return ⟨parts, n * tenTo (6 - count), !(rest.dropWhile isAsciiDigit).isEmpty⟩

/-- The rest of a clock, up to `left` parts of two digits and a fraction. Parts stand between colons, or
without any mark; one character too many is left over. -/
def clock? (parts : List Nat) (colons : Option Bool) (cs : List Char) : Nat → Option Clock
  | 0 => fraction? parts cs
  | left + 1 => do
    let (n, rest) ← number? 2 cs
    let parts := parts ++ [n]
    match rest with
    | [] => return ⟨parts, 0, false⟩
    | [_] => return ⟨parts, 0, true⟩
    | c :: more =>
      let colons := colons.getD (c == ':')
      if colons && c == ':' then clock? parts (some colons) more left
      else if c == '.' || c == ',' then fraction? parts more
      else if !colons then clock? parts (some colons) rest left
      else none

def Clock.seconds (c : Clock) : Nat :=
  c.parts.getD 0 0 * 3600 + c.parts.getD 1 0 * 60 + c.parts.getD 2 0

/-- The offset in seconds that a clock after a sign stands for, less than a day. -/
def offset? (negative : Bool) (cs : List Char) : Option Int := do
  let clock ← clock? [] none cs 3
  if clock.surplus || 86400 ≤ clock.seconds then none
  return if negative then -(clock.seconds : Int) else clock.seconds

def isOffsetSign (c : Char) : Bool := c == '-' || c == '+' || c == 'Z'

/-- The clock and the offset after a date. Before an offset, characters may be left over. -/
def timeOfDay? (date : Date) (cs : List Char) : Option Moment := do
  let front := cs.takeWhile fun c => !isOffsetSign c
  let clock ← clock? [] none front 3
  let zone? ← match cs.drop front.length with
    | [] => if clock.surplus then none else some none
    | ['Z'] => some (some 0)
    | sign :: rest => if sign == 'Z' then none else (offset? (sign == '-') rest).map some
  let hour := clock.parts.getD 0 0
  let minute := clock.parts.getD 1 0
  let second := clock.parts.getD 2 0
  if hour < 24 ∧ minute < 60 ∧ second < 60 then
    return ⟨date, hour, minute, second, clock.micro, zone?⟩
  else none

def read? (s : String) : Option Moment := do
  let cs := s.toList
  let n ← dateLength? cs
  let date ← date? (cs.take n)
  if cs.length ≤ n then return Moment.ofDate date
  timeOfDay? date (cs.drop (n + 1))

end Flowline.Moment.Iso
