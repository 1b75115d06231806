import Flowline.Json.Write
import Flowline.Value.Number

/-!
Values inside other texts: `Value.display` is the text that takes the place of a reference, and
`Value.expressionText` one that an expression reads as the value. There is none where a whole number has
too many digits.
-/

namespace Flowline.Value

/-- The text of a value inside another text: nothing for null, words for truth values, JSON for lists
and mappings. -/
def display : Value → Except Fault String
  | .null => .ok ""
  | .bool b => .ok (if b then "true" else "false")
  | .list items => Json.render .display (.list items)
  | .map entries => Json.render .display (.map entries)
  | v => v.written

/-- A text that an expression reads as the value. Numerals stand for themselves, and numbers that have
no numeral become null. -/
def expressionText : Value → Except Fault String
  | .null => .ok "null"
  | .bool b => .ok (if b then "true" else "false")
  | .int n => (Value.int n).written
  | .float x => .ok (if (Double.parts? x).isNone then "null" else Double.text x)
  | .str s => .ok (if (Value.str s).isNumeric then Text.trim s else Json.string s)
  | .list items => Json.render .display (.list items)
  | .map entries => Json.render .display (.map entries)
  | v => do return Json.string (← v.written)

end Flowline.Value
