import Flowline.Number.Numeral
import Flowline.Value.Equality

/-!
Values from JSON text. Numbers with a point or an exponent are doubles and others whole numbers of any
size; of two entries with one key the later value stays in the earlier place; `NaN` and the infinities
are read by name.
-/

namespace Flowline.Json

def isSpace (c : Char) : Bool :=
  c == ' ' || c == '\t' || c == '\n' || c == '\r'

def skipSpace (cs : List Char) : List Char := cs.dropWhile isSpace

def hexValue? (c : Char) : Option Nat :=
  if '0' ≤ c && c ≤ '9' then some (c.toNat - 48)
  else if 'a' ≤ c && c ≤ 'f' then some (c.toNat - 87)
  else if 'A' ≤ c && c ≤ 'F' then some (c.toNat - 55)
  else none

def hex4? : List Char → Option (Nat × List Char)
  | a :: b :: c :: d :: rest => do
    let a ← hexValue? a
    let b ← hexValue? b
    let c ← hexValue? c
    let d ← hexValue? d
    return (((a * 16 + b) * 16 + c) * 16 + d, rest)
  | _ => none

/-- The character that a letter after a backslash stands for. -/
def simpleEscape? (c : Char) : Option Char :=
  match c with
  | '"' => some '"'
  | '\\' => some '\\'
  | '/' => some '/'
  | 'b' => some (Char.ofNat 8)
  | 'f' => some (Char.ofNat 12)
  | 'n' => some '\n'
  | 'r' => some '\r'
  | 't' => some '\t'
  | _ => none

/-- A character written as four digits in base sixteen, or as a pair of such halves. -/
def escapedUnit? (cs : List Char) : Option (Char × List Char) := do
  let (high, rest) ← hex4? cs
  if 0xD800 ≤ high && high < 0xDC00 then
    match rest with
    | '\\' :: 'u' :: more =>
      match hex4? more with
      | some (low, tail) =>
        if 0xDC00 ≤ low && low < 0xE000 then
          return (Char.ofNat (0x10000 + (high - 0xD800) * 1024 + (low - 0xDC00)), tail)
        else return (Char.ofNat high, rest)
      | none => none
    | _ => return (Char.ofNat high, rest)
  else return (Char.ofNat high, rest)

/-- The body of a string up to its closing quote, in reverse. -/
def stringBody (fuel : Nat) (acc : List Char) (cs : List Char) : Option (String × List Char) :=
  match fuel with
  | 0 => none
  | fuel + 1 =>
    match cs with
    | [] => none
    | '"' :: rest => some (String.ofList acc.reverse, rest)
    | '\\' :: 'u' :: rest =>
      match escapedUnit? rest with
      | some (c, tail) => stringBody fuel (c :: acc) tail
      | none => none
    | '\\' :: c :: rest =>
      match simpleEscape? c with
      | some e => stringBody fuel (e :: acc) rest
      | none => none
    | c :: rest => if c.toNat < 32 then none else stringBody fuel (c :: acc) rest

def string? (cs : List Char) : Option (String × List Char) :=
  stringBody (cs.length + 1) [] cs

def isAsciiDigit (c : Char) : Bool := c.isDigit

/-- The digits after a point, if at least one follows. -/
def fraction? : List Char → Option (List Char × List Char)
  | '.' :: rest =>
    match rest.takeWhile isAsciiDigit with
    | [] => none
    | ds => some (ds, rest.dropWhile isAsciiDigit)
  | _ => none

/-- An exponent in ASCII digits, if a complete one follows. -/
def exponent? (cs : List Char) : Option (Int × List Char) :=
  match cs with
  | c :: rest =>
    if c == 'e' || c == 'E' then
      let (negative, rest) := Numeral.spanSign rest
      match rest.takeWhile isAsciiDigit with
      | [] => none
      | ds =>
        let n : Int := Numeral.ofDigits (ds.map fun d => d.toNat - 48)
        some (if negative then -n else n, rest.dropWhile isAsciiDigit)
    else none
  | [] => none

/-- A number without its sign. A whole part has no needless zero in front. -/
def magnitude? (negative : Bool) (cs : List Char) : Option (Value × List Char) :=
  let whole :=
    match cs with
    | '0' :: _ => ['0']
    | _ => cs.takeWhile isAsciiDigit
  if whole.isEmpty then none
  else
    let rest := cs.drop whole.length
    let value (ds : List Char) : Nat := Numeral.ofDigits (ds.map fun d => d.toNat - 48)
    let (fraction, rest, isPlain) :=
      match fraction? rest with
      | some (ds, tail) => (ds, tail, false)
      | none => ([], rest, true)
    match exponent? rest with
    | some (e, tail) =>
      some (.float (Double.ofDecimal negative (value (whole ++ fraction)) (e - fraction.length)), tail)
    | none =>
      if isPlain then
        let n : Int := value whole
        some (.int (if negative then -n else n), rest)
      else
        some (.float (Double.ofDecimal negative (value (whole ++ fraction)) (-fraction.length)), rest)

/-- The rest after a word that a text begins with. -/
def after? (word : List Char) (cs : List Char) : Option (List Char) :=
  if cs.take word.length = word then some (cs.drop word.length) else none

def atom? (cs : List Char) : Option (Value × List Char) :=
  let constant (word : String) (v : Value) : Option (Value × List Char) :=
    (after? word.toList cs).map fun rest => (v, rest)
  match cs with
  | 'n' :: _ => constant "null" .null
  | 't' :: _ => constant "true" (.bool true)
  | 'f' :: _ => constant "false" (.bool false)
  | 'N' :: _ => constant "NaN" (.float Double.nan)
  | 'I' :: _ => constant "Infinity" (.float Double.infinity)
  | '-' :: 'I' :: _ => constant "-Infinity" (.float (-Double.infinity))
  | '-' :: rest => magnitude? true rest
  | _ => magnitude? false cs

mutual

def value? (fuel : Nat) (cs : List Char) : Option (Value × List Char) :=
  match fuel with
  | 0 => none
  | fuel + 1 =>
    match cs with
    | '"' :: rest => (string? rest).map fun (s, tail) => (.str s, tail)
    | '[' :: rest =>
      match skipSpace rest with
      | ']' :: tail => some (.list [], tail)
      | rest => (items? fuel rest).map fun (items, tail) => (.list items, tail)
    | '\x7b' :: rest =>
      match skipSpace rest with
      | '\x7d' :: tail => some (.map [], tail)
      | rest => (entries? fuel [] rest).map fun (entries, tail) => (.map entries, tail)
    | _ => atom? cs

/-- The items of a list up to its closing bracket. -/
def items? (fuel : Nat) (cs : List Char) : Option (List Value × List Char) :=
  match fuel with
  | 0 => none
  | fuel + 1 =>
    match value? fuel cs with
    | none => none
    | some (v, rest) =>
      match skipSpace rest with
      | ']' :: tail => some ([v], tail)
      | ',' :: rest => (items? fuel (skipSpace rest)).map fun (vs, tail) => (v :: vs, tail)
      | _ => none

/-- The entries of an object up to its closing brace, after those read before. -/
def entries? (fuel : Nat) (before : List (Scalar × Value)) (cs : List Char) :
    Option (List (Scalar × Value) × List Char) :=
  match fuel with
  | 0 => none
  | fuel + 1 =>
    match cs with
    | '"' :: rest =>
      match string? rest with
      | none => none
      | some (k, rest) =>
        match skipSpace rest with
        | ':' :: rest =>
          match value? fuel (skipSpace rest) with
          | none => none
          | some (v, rest) =>
            let entries := Entries.insert before (.str k) v
            match skipSpace rest with
            | '\x7d' :: tail => some (entries, tail)
            | ',' :: rest => entries? fuel entries (skipSpace rest)
            | _ => none
        | _ => none
    | _ => none

end

def read? (s : String) : Option Value :=
  let cs := skipSpace s.toList
  match value? (2 * cs.length + 2) cs with
  | some (v, rest) => if (skipSpace rest).isEmpty then some v else none
  | none => none

end Flowline.Json
