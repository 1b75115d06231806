import Flowline.Number.Numeral
import Flowline.Text.Case
import Flowline.Value.Text

/-!
Spans of time such as `+1 day` or `-2 hours 30 minutes`, as they are found in texts, and what is asked of
a calendar: to read any other text as a moment, and to move a moment by spans of time. How a calendar does
that is left open.
-/

namespace Flowline

open Text

/-- A unit of time. -/
inductive TimeUnit
  | second | minute | hour | day | week | month | year
deriving Repr, DecidableEq

/-- A number of units of time. -/
structure Span where
  unit : TimeUnit
  amount : Int
deriving Repr, DecidableEq

/-- A calendar, which reads texts as moments, and moves moments. -/
class Calendar where
  /-- The moment that a text names, read at a time. -/
  parse : Moment → String → Except Fault Moment
  /-- The moment that lies the sum of some spans after a moment, or before it where that is negative. -/
  add : Moment → List Span → Except Fault Moment

namespace Span

/-- The words for units; of two words that a text begins with, the first counts. -/
def units : List (String × TimeUnit) := [
  ("second", .second), ("sec", .second), ("minute", .minute), ("min", .minute), ("hour", .hour),
  ("day", .day), ("week", .week), ("month", .month), ("year", .year)]

/-- Letters beyond ASCII that are found where a letter is sought in either case. -/
def extraLetters : List (Char × Char) :=
  [('\u0130', 'i'), ('\u0131', 'i'), ('\u017f', 's'), ('\u212a', 'k')]

def isLetter (letter c : Char) : Bool := c.toLower == letter || extraLetters.lookup c == some letter

/-- A word at the front of a text, in letters of either case as they stand there, and the rest. -/
def afterWord? (word : String) (cs : List Char) : Option (List Char × List Char) :=
  let letters := word.toList
  let front := cs.take letters.length
  if front.length = letters.length ∧ (letters.zip front).all fun (letter, c) => isLetter letter c then
    some (front, cs.drop letters.length)
  else none

/-- The word for a unit at the front of a text, and the rest; an `s` may follow the word. -/
def unitWord? (cs : List Char) : Option (List Char × List Char) :=
  units.findSome? fun (name, _) =>
    (afterWord? name cs).map fun (word, rest) =>
      match rest with
      | c :: tail => (word, if isLetter 's' c then tail else rest)
      | [] => (word, [])

/-- What stands for a span in a text: a sign, digits, and the word for a unit as it is written there. -/
structure Mention where
  negative : Bool
  digits : List Nat
  word : String
deriving Repr

/-- A span at the front of a text, and the rest. -/
def mention? (cs : List Char) : Option (Mention × List Char) :=
  let (negative, unsigned) := Numeral.spanSign cs
  match Numeral.spanDigits unsigned with
  | ([], _) => none
  | (ds, rest) =>
    (unitWord? (rest.dropWhile isBlank)).map fun (word, tail) =>
      (⟨negative, ds, String.ofList word⟩, tail)

/-- The spans in a text, whatever stands between them. -/
def mentionsIn (fuel : Nat) (cs : List Char) : List Mention :=
  match fuel, cs with
  | 0, _ => []
  | _, [] => []
  | fuel + 1, c :: rest =>
    match mention? (c :: rest) with
    | some (mention, tail) => mention :: mentionsIn fuel tail
    | none => mentionsIn fuel rest

def mentions (s : String) : List Mention := mentionsIn (s.toList.length + 1) s.toList

/-- The span that is meant. A word with a letter beyond ASCII may be no word for a unit after all, and the
digits may be too many. -/
def ofMention (m : Mention) : Except Fault Span :=
  match units.lookup (Text.lower m.word) with
  | none => .error .missingKey
  | some unit =>
    if Value.maxNumeralSize < m.digits.length then .error .badValue
    else
      let n : Int := Numeral.ofDigits m.digits
      .ok ⟨unit, if m.negative then -n else n⟩

end Span

/-- The moment later by the spans that a text names. -/
def Moment.addText [Calendar] (m : Moment) (s : String) : Except Fault Moment :=
  match Span.mentions s with
  | [] => .error (.badArgument s!"Invalid interval: {s}")
  | mentions => do Calendar.add m (← mentions.mapM Span.ofMention)

end Flowline
