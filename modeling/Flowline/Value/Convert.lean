import Flowline.Value.Collection

/-!
Reading values as members, numbers and mappings. A text stands for the number that is written in it, in
which underscores may part the digits.
-/

namespace Flowline.Value

/-- The entry of a mapping under a text key, or a standard value. -/
def entryOr (v : Value) (key : String) (standard : Value) : Except Fault Value :=
  match v with
  | .map entries => .ok ((Entries.get? entries (.str key)).getD standard)
  | _ => .error .noMember

/-- The entry of a mapping under a text key, or null. -/
def entry (v : Value) (key : String) : Except Fault Value := v.entryOr key .null

/-- The value, or another one where it is not present. -/
def orElse (v standard : Value) : Value := if v.isPresent then v else standard

/-! ## Numbers -/

/-- The characters of a numeral without the underscores between its digits; none may stand elsewhere. -/
def withoutGaps? : List Char → Option (List Char)
  | [] => some []
  | '_' :: _ => none
  | [c] => some [c]
  | c :: '_' :: rest =>
    if (Text.decimalValue? c).isSome && ((rest.head?.bind Text.decimalValue?).isSome) then
      (withoutGaps? rest).map (c :: ·)
    else none
  | c :: rest => (withoutGaps? rest).map (c :: ·)

def numeral? (s : String) : Option Numeral :=
  (withoutGaps? s.toList).bind fun cs => Numeral.whole? (String.ofList cs)

def intOfText (s : String) : Except Fault Int :=
  match numeral? s with
  | some n =>
    if n.plain && n.legible && n.size ≤ maxNumeralSize then .ok n.toInt else .error .badValue
  | none => .error .badValue

/-- The double that a word without digits stands for. -/
def wordFloat? (s : String) : Option Float :=
  let cs := (Text.trim s).toList.map Char.toLower
  let (negative, word) := Numeral.spanSign cs
  match String.ofList word with
  | "inf" | "infinity" => some (if negative then -Double.infinity else Double.infinity)
  | "nan" => some Double.nan
  | _ => none

def floatOfText (s : String) : Except Fault Float :=
  match numeral? s with
  | some n => if n.legible then .ok n.toFloat else .error .badValue
  | none =>
    match wordFloat? s with
    | some x => .ok x
    | none => .error .badValue

/-- A value as a whole number, the fraction dropped. -/
def asInt : Value → Except Fault Int
  | .bool b => .ok (if b then 1 else 0)
  | .int n => .ok n
  | .float x => (Number.float x).toInt
  | .str s => intOfText s
  | _ => .error .wrongType

def asFloat : Value → Except Fault Float
  | .bool b => .ok (if b then 1 else 0)
  | .int n => (Number.int n).toFloat
  | .float x => .ok x
  | .str s => floatOfText s
  | _ => .error .wrongType

/-! ## Mappings -/

def asEntry (v : Value) : Except Fault (Scalar × Value) := do
  match ← v.iterate with
  | [key, value] => return (← key.toKey, value)
  | _ => throw .badValue

/-- A value as a mapping: itself, or the pairs that it consists of. -/
def asEntries : Value → Except Fault (List (Scalar × Value))
  | .map entries => .ok entries
  | v => do return Entries.insertAll [] (← (← v.iterate).mapM asEntry)

def mapping : Value → Except Fault (List (Scalar × Value))
  | .map entries => .ok entries
  | _ => .error .wrongType

end Flowline.Value
