import Flowline.Json.Write
import Flowline.Yaml.Tag

/-!
Values as YAML text: a line for each scalar, two blanks for each level. A text is quoted unless it is made
of letters, digits and a few marks and would be read as text.
-/

namespace Flowline.Yaml

/-! ## Scalars -/

def isPlainChar (c : Char) : Bool := isNameChar c || c == '.' || c == '/'

def isPlainText (s : String) : Bool :=
  match s.toList with
  | c :: rest => c.isAlpha && rest.all isPlainChar && Tag.ofPlain s == .str
  | [] => false

def quotedChar (c : Char) : List Char :=
  let n := c.toNat
  if c == '"' || c == '\\' then ['\\', c]
  else if (32 ≤ n && n < 127) || (0xA1 ≤ n && isAllowed c && !isBreak c && n != 0xFEFF) then [c]
  else if n < 0x100 then '\\' :: 'x' :: Text.hexDigits 2 n
  else if n < 0x10000 then '\\' :: 'u' :: Text.hexDigits 4 n
  else '\\' :: 'U' :: Text.hexDigits 8 n

def quotedText (s : String) : String :=
  String.ofList ('"' :: s.toList.flatMap quotedChar ++ ['"'])

def text (s : String) : String := if isPlainText s then s else quotedText s

def floatText (x : Float) : String :=
  if x.isNaN then ".nan"
  else if (Double.parts? x).isNone then (if Double.isNegative x then "-.inf" else ".inf")
  else
    let cs := (Double.text x).toList
    if cs.contains '.' then String.ofList cs
    else String.ofList (cs.takeWhile (· != 'e') ++ ['.', '0'] ++ cs.dropWhile (· != 'e'))

def sixBitChar (n : Nat) : Char :=
  if n < 26 then Char.ofNat (n + 65)
  else if n < 52 then Char.ofNat (n + 71)
  else if n < 62 then Char.ofNat (n - 4)
  else if n = 62 then '+'
  else '/'

def binaryText : List UInt8 → List Char
  | a :: b :: c :: rest =>
    let n := a.toNat * 65536 + b.toNat * 256 + c.toNat
    [n / 262144, n / 4096 % 64, n / 64 % 64, n % 64].map sixBitChar ++ binaryText rest
  | [a, b] =>
    let n := a.toNat * 65536 + b.toNat * 256
    [n / 262144, n / 4096 % 64, n / 64 % 64].map sixBitChar ++ ['=']
  | [a] =>
    let n := a.toNat * 65536
    [n / 262144, n / 4096 % 64].map sixBitChar ++ ['=', '=']
  | [] => []

def scalarText : Scalar → String
  | .null => "null"
  | .bool b => if b then "true" else "false"
  | .int n => toString n
  | .float x => floatText x
  | .str s => text s
  | .date d => d.isoText
  | .moment m => m.text
  | .bytes b => "!!binary \"" ++ String.ofList (binaryText b) ++ "\""

/-! ## Lines -/

/-- The longest key that stands before its value without a mark. -/
def shortKeyLimit : Nat := 120

/-- The lines of a part behind a mark: on the same line if it is one line. -/
def behind (mark : String) (isBlock : Bool) (lines : List String) : List String :=
  if isBlock then mark :: lines.map ("  " ++ ·)
  else lines.map (mark ++ " " ++ ·)

/-- A list or a mapping with parts takes lines of its own. -/
def isBlock : Value → Bool
  | .list items => !items.isEmpty
  | .map entries => !entries.isEmpty
  | _ => false

/-- The mark of an entry, or lines where the key is long. -/
def entryLines (key : Scalar) (isBlock : Bool) (lines : List String) : List String :=
  let k := scalarText key
  if k.length ≤ shortKeyLimit then behind (k ++ ":") isBlock lines
  else ("? " ++ k) :: behind ":" isBlock lines

mutual

def lines : Value → List String
  | .scalar s => [scalarText s]
  | .list items => if items.isEmpty then ["[]"] else itemLines items
  | .map entries => if entries.isEmpty then ["\x7b\x7d"] else mapLines entries
  | .set items =>
    ["!!set \x7b" ++ ", ".intercalate (items.map fun s => "? " ++ scalarText s) ++ "\x7d"]

def itemLines : List Value → List String
  | [] => []
  | v :: rest => behind "-" (isBlock v) (lines v) ++ itemLines rest

def mapLines : List (Scalar × Value) → List String
  | [] => []
  | (k, v) :: rest => entryLines k (isBlock v) (lines v) ++ mapLines rest

end

def write (v : Value) : String := String.join ((lines v).map (· ++ "\n"))

end Flowline.Yaml
