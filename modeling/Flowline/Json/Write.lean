import Flowline.Fault
import Flowline.Value.Text

/-!
Values as JSON text. Characters outside ASCII stand for themselves. Numbers that are no JSON numbers
have the usual names, a whole number with too many digits is not written, and a scalar without a JSON form
is written as its text where the caller allows that.
-/

namespace Flowline.Json

/-- How JSON text is laid out, and whether scalars without a JSON form are written as their text. -/
structure Style where
  itemSeparator : String
  keySeparator : String
  /-- Blanks per level of nesting; none for text on one line. -/
  indent? : Option Nat
  foreignAsText : Bool

/-- One line, with blanks after commas and colons. -/
def Style.spaced : Style := ⟨", ", ": ", none, false⟩

def Style.display : Style := ⟨", ", ": ", none, true⟩

def Style.compact : Style := ⟨",", ":", none, false⟩

def Style.document : Style := ⟨",", ": ", some 2, false⟩

/-- One line per item, two blanks per level, for any value. -/
def Style.indented : Style := ⟨",", ": ", some 2, true⟩

/-- How a character is written inside a JSON string. -/
def escapedChar (c : Char) : List Char :=
  if c == '"' then ['\\', '"']
  else if c == '\\' then ['\\', '\\']
  else if c == '\n' then ['\\', 'n']
  else if c == '\r' then ['\\', 'r']
  else if c == '\t' then ['\\', 't']
  else if c.toNat == 8 then ['\\', 'b']
  else if c.toNat == 12 then ['\\', 'f']
  else if c.toNat < 32 then '\\' :: 'u' :: Text.hexDigits 4 c.toNat
  else [c]

def string (s : String) : String :=
  String.ofList ('"' :: s.toList.flatMap escapedChar ++ ['"'])

/-- A double as a JSON number, or by name where it is none. -/
def number (x : Float) : String :=
  if x.isNaN then "NaN"
  else if (Double.parts? x).isNone then (if Double.isNegative x then "-Infinity" else "Infinity")
  else Double.text x

def scalar (style : Style) : Scalar → Except Fault String
  | .null => .ok "null"
  | .bool b => .ok (if b then "true" else "false")
  | .int n => (Value.int n).written
  | .float x => .ok (number x)
  | .str s => .ok (string s)
  | s => if style.foreignAsText then .ok (string s.text) else .error .wrongType

/-- A key of a JSON object. Keys are texts, and numbers and constants are written out as texts. -/
def key : Scalar → Except Fault String
  | .null => .ok "null"
  | .bool b => .ok (if b then "true" else "false")
  | .int n => (Value.int n).written
  | .float x => .ok (number x)
  | .str s => .ok s
  | _ => .error .wrongType

/-- Parts between brackets, laid out for a level of nesting. -/
def bracketed (style : Style) (level : Nat) (opening closing : String) (parts : List String) :
    String :=
  if parts.isEmpty then opening ++ closing
  else
    match style.indent? with
    | none => opening ++ style.itemSeparator.intercalate parts ++ closing
    | some n =>
      let line (depth : Nat) := "\n" ++ String.ofList (List.replicate (n * depth) ' ')
      opening ++ line (level + 1) ++ (style.itemSeparator ++ line (level + 1)).intercalate parts ++
        line level ++ closing

mutual

def write (style : Style) (level : Nat) : Value → Except Fault String
  | .scalar s => scalar style s
  | .list items => do
    return bracketed style level "[" "]" (← writeItems style (level + 1) items)
  | .map entries => do
    return bracketed style level "\x7b" "\x7d" (← writeEntries style (level + 1) entries)
  | .set items =>
    if style.foreignAsText then do return string (← (Value.set items).written)
    else .error .wrongType

def writeItems (style : Style) (level : Nat) : List Value → Except Fault (List String)
  | [] => .ok []
  | v :: rest => do
    let first ← write style level v
    return first :: (← writeItems style level rest)

def writeEntries (style : Style) (level : Nat) :
    List (Scalar × Value) → Except Fault (List String)
  | [] => .ok []
  | (k, v) :: rest => do
    let name ← key k
    let body ← write style level v
    return (string name ++ style.keySeparator ++ body) :: (← writeEntries style level rest)

end

def render (style : Style) (v : Value) : Except Fault String :=
  write style 0 v

end Flowline.Json
