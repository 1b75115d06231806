import Flowline.Regex.Matcher
import Flowline.Regex.Parser
import Flowline.Text.Case
import Flowline.Text.Search
import Flowline.Time.Dated
import Flowline.Value.Collection

/-!
The operators of conditions: each tests the value of a field against another value.
-/

namespace Flowline

abbrev Operator := Value → Value → Except Fault Bool

namespace Operator

/-! ## Ranges -/

/-- The member at a place of what should be a pair of bounds. -/
def boundAt (bounds : Value) (i : Nat) : Except Fault Value :=
  match bounds with
  | .list items => match items[i]? with | some v => .ok v | none => .error .badIndex
  | .str s => match s.toList[i]? with | some c => .ok (.str c.toString) | none => .error .badIndex
  | .scalar (.bytes b) => match b[i]? with | some x => .ok (.int x.toNat) | none => .error .badIndex
  | .map entries =>
    match Entries.get? entries (.int i) with | some v => .ok v | none => .error .missingKey
  | _ => .error .wrongType

/-- A value lies between two bounds, both included, when all three have a place on a scale. -/
def inRange (scale : Value → Except Fault (Option Float)) (v bounds : Value) : Except Fault Bool := do
  let low? ← scale (← boundAt bounds 0)
  let high? ← scale (← boundAt bounds 1)
  let current? ← scale v
  match low?, high?, current? with
  | some low, some high, some current => return low <= current && current <= high
  | _, _, _ => return false

def onNumberScale (v : Value) : Except Fault (Option Float) := do return some (← v.leadingNumber)

/-- Compares the numbers that two values begin with. -/
def compareNumbers (holds : Float → Float → Bool) : Operator := fun a b => do
  return holds (← a.leadingNumber) (← b.leadingNumber)

/-! ## Texts -/

def onTexts (holds : String → String → Bool) : Operator := fun a b =>
  match a with
  | .str s => do return holds s (← b.written)
  | _ => .ok false

/-- The modes that letters after a pattern turn on. -/
def patternModes (letters : List Char) : Regex.Modes :=
  { ignoreCase := letters.contains 'i', multiline := letters.contains 'm',
    dotAll := letters.contains 's', verbose := letters.contains 'x', asciiOnly := false }

/-- A pattern and its modes; a pattern between slashes may have letters of modes after it. -/
def patternOf (s : String) : Regex.Modes × String :=
  match s.toList with
  | '/' :: body =>
    let letters := (body.reverse.takeWhile (· != '/')).reverse
    if letters.length < body.length then
      (patternModes letters, String.ofList (body.take (body.length - letters.length - 1)))
    else (patternModes [], s)
  | _ => (patternModes [], s)

/-- A text matches a pattern somewhere; a pattern with an error matches nothing. -/
def matchesPattern (s pattern : String) : Except Fault Bool :=
  let (modes, body) := patternOf pattern
  match Regex.parse modes body with
  | .ok r => .ok (r.occursIn s)
  | .error .invalid => .ok false
  | .error .countTooLarge => .error .overflow

def onPattern (decide : Bool → Bool) : Operator := fun a b =>
  match a with
  | .str s => do return decide (← matchesPattern s (← b.written))
  | _ => .ok false

/-! ## Collections -/

/-- A list has an item that equals a value, as loosely as the operator `equals`. -/
def hasMember (v : Value) : List Value → Except Fault Bool
  | [] => .ok false
  | w :: rest => do if ← Value.looseEquals w v then return true else hasMember v rest

def isMember (decide : Bool → Bool) (collection v : Value) : Except Fault Bool :=
  if collection.isContainer then do return decide (← hasMember v collection.members)
  else .ok false

/-- A mapping has a key, or the text of it; a list has an item at an index. -/
def hasKey : Operator := fun a b =>
  match a with
  | .map entries => do
    let key ← b.toKey
    if Entries.contains entries key then return true
    else return Entries.contains entries (.str (← b.written))
  | .list items =>
    if b.isNumeric then do
      let i ← (Number.float (← b.leadingNumber)).toInt
      return 0 ≤ i && i < items.length
    else .ok false
  | _ => .ok false

/-- Compares the number of items of a collection with a number. -/
def countIs (order : Ordering) : Operator := fun a b =>
  if a.isContainer then do
    let n ← b.leadingNumber
    return Double.compareInt? a.members.length n == some order
  else .ok false

/-! ## Types -/

/-- A value is a truth value, its number, or the text of either. -/
def isFlag (b : Bool) (word : String) (n : Int) : Operator := fun a _ =>
  .ok (match a with
    | .bool x => x == b
    | .int m => m == n
    | .str s => s == word || s == toString n
    | _ => false)

/-! ## Dates -/

variable [Calendar]

def dateOf (now : Moment) (v : Value) : Except Fault (Option Date) := do
  return (← Moment.ofValue v now).map (·.date)

def compareMoments (now : Moment) (holds : Float → Float → Bool) : Operator := fun a b => do
  let left? ← Moment.timestampOf a now
  let right? ← Moment.timestampOf b now
  match left?, right? with
  | some left, some right => return holds left right
  | _, _ => return false

def compareWithNow (now : Moment) (holds : Float → Float → Bool) : Operator := fun a _ => do
  match ← Moment.timestampOf a now with
  | some t => return holds t now.timestamp
  | none => return false

def secondsPerDay : Float := 86400

/-- At most so many days lead from one moment to another; the days between are given by the second
moment less the first. -/
def withinDays (now : Moment) (between : Float → Float → Float) : Operator := fun a b => do
  match ← Moment.timestampOf a now with
  | none => return false
  | some t =>
    let days := between t now.timestamp / secondsPerDay
    let most ← (Number.float (← b.leadingNumber)).toInt
    match Double.compareInt? most days with
    | some .lt => return false
    | some _ => return true
    | none => return false

def sameDate (now : Moment) : Operator := fun a b => do
  match ← dateOf now a with
  | none => return false
  | some d => return (← dateOf now b) == some d

/-! ## The operators -/

/-- The operators that every condition can use, given the time. -/
def standard (now : Moment) : List (String × Operator) := [
  ("equals", Value.looseEquals),
  ("not_equals", fun a b => do return !(← Value.looseEquals a b)),
  ("strict_equals", fun a b => .ok (Value.strictEquals a b)),
  ("strict_not_equals", fun a b => .ok !(Value.strictEquals a b)),
  ("greater_than", compareNumbers (· > ·)),
  ("greater_than_or_equals", compareNumbers (· >= ·)),
  ("less_than", compareNumbers (· < ·)),
  ("less_than_or_equals", compareNumbers (· <= ·)),
  ("between", inRange onNumberScale),
  ("not_between", fun a b => do return !(← inRange onNumberScale a b)),
  ("contains", onTexts Text.contains),
  ("not_contains", onTexts fun s t => !Text.contains s t),
  ("starts_with", onTexts Text.startsWith),
  ("ends_with", onTexts Text.endsWith),
  ("matches", onPattern id),
  ("not_matches", onPattern not),
  ("contains_i", onTexts fun s t => Text.contains (Text.lower s) (Text.lower t)),
  ("equals_i", onTexts fun s t => Text.lower s == Text.lower t),
  ("in", fun a b => isMember id b a),
  ("not_in", fun a b => isMember not b a),
  ("has_key", hasKey),
  ("has_value", isMember id),
  ("array_contains", isMember id),
  ("array_count", countIs .eq),
  ("array_count_gt", countIs .gt),
  ("array_count_lt", countIs .lt),
  ("is_empty", fun a _ => .ok !a.isTruthy),
  ("is_not_empty", fun a _ => .ok a.isTruthy),
  ("is_null", fun a _ => .ok a.isNull),
  ("is_not_null", fun a _ => .ok !a.isNull),
  ("is_true", isFlag true "true" 1),
  ("is_false", isFlag false "false" 0),
  ("is_numeric", fun a _ => .ok a.isNumeric),
  ("is_string", fun a _ => .ok a.isStr),
  ("is_array", fun a _ => .ok a.isContainer),
  ("date_equals", sameDate now),
  ("date_before", compareMoments now (· < ·)),
  ("date_after", compareMoments now (· > ·)),
  ("date_between", inRange fun v => Moment.timestampOf v now),
  ("is_today", fun a _ => do return (← dateOf now a) == some now.date),
  ("is_past", compareWithNow now (· < ·)),
  ("is_future", compareWithNow now (· > ·)),
  ("days_ago", withinDays now fun t current => current - t),
  ("days_from_now", withinDays now fun t current => t - current)]

end Operator

end Flowline
