import Flowline.Number.Double
import Flowline.Text.Blank
import Flowline.Text.Digit

/-!
Numerals: an optional sign, digits with an optional point, an optional exponent, in the decimal digits
of any script. `Numeral.leading?` reads one from the front of a text and `Numeral.whole?` a text that
holds nothing else but blanks around it. The separators among the control characters are blanks, yet a
numeral next to one denotes no number.
-/

namespace Flowline

open Text

/-- A numeral as written: `digits * 10 ^ exponent`, and whether it has neither point nor exponent. -/
structure Numeral where
  negative : Bool
  digits : Nat
  exponent : Int
  plain : Bool
  /-- How many digits stand before the point. -/
  size : Nat
  /-- No control character that separates records stands next to it. -/
  legible : Bool
deriving Repr, DecidableEq

namespace Numeral

/-- The values of the decimal digits at the front of a text, and the rest. -/
def spanDigits : List Char → List Nat × List Char
  | [] => ([], [])
  | c :: rest =>
    match decimalValue? c with
    | some d => let (ds, tail) := spanDigits rest; (d :: ds, tail)
    | none => ([], c :: rest)

def ofDigits (ds : List Nat) : Nat :=
  ds.foldl (fun n d => 10 * n + d) 0

def spanSign : List Char → Bool × List Char
  | '-' :: rest => (true, rest)
  | '+' :: rest => (false, rest)
  | rest => (false, rest)

/-- The exponent at the front of a text, if a complete one stands there. -/
def exponent? (cs : List Char) : Option (Int × List Char) :=
  match cs with
  | c :: rest =>
    if c == 'e' || c == 'E' then
      let (negative, rest) := spanSign rest
      match spanDigits rest with
      | ([], _) => none
      | (ds, tail) =>
        let n : Int := ofDigits ds
        some (if negative then -n else n, tail)
    else none
  | [] => none

/-- The longest numeral at the front of a text, and the rest. -/
def unblanked? (cs : List Char) : Option (Numeral × List Char) :=
  let (negative, cs) := spanSign cs
  let (whole, afterWhole) := spanDigits cs
  let (fraction, hasPoint, afterMantissa) :=
    match afterWhole with
    | '.' :: rest =>
      let (fraction, tail) := spanDigits rest
      if whole.isEmpty && fraction.isEmpty then ([], false, afterWhole) else (fraction, true, tail)
    | _ => ([], false, afterWhole)
  if whole.isEmpty && fraction.isEmpty then none
  else
    let digits := ofDigits (whole ++ fraction)
    let shift : Int := -(fraction.length : Int)
    match exponent? afterMantissa with
    | some (e, tail) => some (⟨negative, digits, shift + e, false, whole.length, true⟩, tail)
    | none => some (⟨negative, digits, shift, !hasPoint, whole.length, true⟩, afterMantissa)

def isSeparator (c : Char) : Bool := 28 ≤ c.toNat && c.toNat < 32

/-- The longest numeral at the front of a text, after blanks. -/
def leading? (s : String) : Option Numeral :=
  let blanks := s.toList.takeWhile isBlank
  (unblanked? (s.toList.dropWhile isBlank)).map fun (n, _) =>
    { n with legible := !blanks.any isSeparator }

/-- The numeral that a text is, blanks around it left out. -/
def whole? (s : String) : Option Numeral :=
  let blanks := s.toList.takeWhile isBlank
  match unblanked? (s.toList.dropWhile isBlank) with
  | some (n, rest) =>
    if rest.all isBlank then some { n with legible := !(blanks ++ rest).any isSeparator } else none
  | none => none

def toFloat (n : Numeral) : Float :=
  Double.ofDecimal n.negative n.digits n.exponent

/-- The whole number that a plain numeral denotes. -/
def toInt (n : Numeral) : Int :=
  if n.negative then -(n.digits : Int) else n.digits

end Numeral

end Flowline
