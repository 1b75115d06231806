import Flowline.Fault
import Flowline.Number.Numeral
import Flowline.Text.Digit
import Flowline.Value.Number

/-!
Paths: the parts of a value, named by segments between points. A segment is a key of a mapping or an
index of a list, and may end in an index of its own in brackets. `Path.lookup` follows a path and gives
null as soon as a part is missing.
-/

namespace Flowline.Path

open Text

/-! ## Indices -/

/-- The index that a segment denotes in a list, if it consists of digits after dashes. More than one
dash, or a digit that no numeral is written in, is no number after all. -/
def index? (key : List Char) : Except Fault (Option Int) :=
  let digits := key.dropWhile (· == '-')
  if digits.isEmpty || !digits.all isDigitLike then .ok none
  else
    let dashes := key.length - digits.length
    if 1 < dashes || !digits.all isDecimal || Value.maxNumeralSize < digits.length then
      .error .badValue
    else
      let n : Int := Numeral.ofDigits (digits.filterMap decimalValue?)
      .ok (some (if dashes = 1 then -n else n))

/-- The item of a list at an index; a negative index counts from the end. -/
def item? (items : List Value) (index : Int) : Option Value :=
  if 0 ≤ index then items[index.toNat]?
  else if -(items.length : Int) ≤ index then items[(items.length + index).toNat]?
  else none

def step (container : Value) (key : List Char) : Except Fault (Option Value) :=
  match container with
  | .map entries => .ok (Entries.get? entries (.str (String.ofList key)))
  | .list items => do
    match ← index? key with
    | some i => return item? items i
    | none => return none
  | _ => .ok none

/-! ## Segments -/

def splitOn (sep : Char) : List Char → List (List Char)
  | [] => [[]]
  | c :: rest =>
    if c == sep then [] :: splitOn sep rest
    else
      match splitOn sep rest with
      | first :: more => (c :: first) :: more
      | [] => [[c]]

/-- The key and the index of a segment that ends in an index in brackets. A line break may follow the
bracket, and none may stand in the key. -/
def bracketed? (segment : List Char) : Option (List Char × List Char) :=
  let reversed :=
    match segment.reverse with
    | '\n' :: rest => rest
    | rest => rest
  match reversed with
  | ']' :: rest =>
    let digits := rest.takeWhile isDecimal
    match digits, rest.dropWhile isDecimal with
    | _ :: _, '[' :: key => if key.contains '\n' then none else some (key.reverse, digits.reverse)
    | _, _ => none
  | _ => none

/-- The steps that a segment stands for: a key, an index, or a key and then an index. -/
def segmentSteps (segment : List Char) : List (List Char) :=
  match bracketed? segment with
  | some ([], index) => [index]
  | some (key, index) => [key, index]
  | none => [segment]

def steps (path : List Char) : List (List Char) :=
  (splitOn '.' path).flatMap segmentSteps

/-! ## Lookup -/

def follow (value : Value) : List (List Char) → Except Fault (Option Value)
  | [] => .ok (some value)
  | key :: rest => do
    match ← step value key with
    | some next => follow next rest
    | none => return none

/-- The part of a context that a path names, or null if there is none. -/
def lookupText (path : String) (context : Value) : Except Fault Value :=
  let path := trimList path.toList
  if path.isEmpty then .ok .null
  else do return (← follow context (steps path)).getD .null

/-- The part of a context that a path names; a path that is no text is read as the text of its value,
and null names nothing. -/
def lookup (path context : Value) : Except Fault Value :=
  match path with
  | .null => .ok .null
  | v => do lookupText (← v.written) context

end Flowline.Path
