import Flowline.Fault
import Flowline.Number.Numeral
import Flowline.Value.Equality
import Flowline.Value.Text

/-!
Values as numbers. A number is whole or a double; numerals in texts count as numbers, truth values are 0
and 1, and null is 0. Whole numbers have any size: an operation that needs them as doubles fails where
they are beyond the largest one.
-/

namespace Flowline

/-- A whole number of any size or a double. -/
inductive Number
  | int (n : Int)
  | float (x : Float)
deriving Repr, Inhabited

namespace Number

def toValue : Number → Value
  | .int n => .int n
  | .float x => .float x

def toFloat : Number → Except Fault Float
  | .int n =>
    match Double.ofInt? n with
    | some x => .ok x
    | none => .error .overflow
  | .float x => .ok x

/-- The whole part, the fraction dropped. Infinities are too large and NaN is no number. -/
def toInt : Number → Except Fault Int
  | .int n => .ok n
  | .float x =>
    match Double.truncate? x with
    | some n => .ok n
    | none => if x.isNaN then .error .badValue else .error .overflow

def isZero : Number → Bool
  | .int n => n == 0
  | .float x => x == 0

def compare? : Number → Number → Option Ordering
  | .int a, .int b => some (compare a b)
  | .int a, .float b => Double.compareInt? a b
  | .float a, .int b => (Double.compareInt? b a).map Ordering.swap
  | .float a, .float b => Double.compare? a b

def less (a b : Number) : Bool := compare? a b == some .lt

/-- Applies an operation on whole numbers to two whole numbers, and one on doubles otherwise. -/
def combine (onInt : Int → Int → Int) (onFloat : Float → Float → Float) :
    Number → Number → Except Fault Number
  | .int a, .int b => .ok (.int (onInt a b))
  | a, b => do return .float (onFloat (← a.toFloat) (← b.toFloat))

def add : Number → Number → Except Fault Number := combine (· + ·) (· + ·)

def sub : Number → Number → Except Fault Number := combine (· - ·) (· - ·)

def mul : Number → Number → Except Fault Number := combine (· * ·) (· * ·)

def neg : Number → Number
  | .int n => .int (-n)
  | .float x => .float (-x)

def abs : Number → Number
  | .int n => .int n.natAbs
  | .float x => .float x.abs

/-- The quotient of whole numbers as the nearest double. -/
def ratio (a b : Int) : Except Fault Float :=
  if b = 0 then .error .zeroDivision
  else
    match Double.nearest? (decide (a < 0) != decide (b < 0)) a.natAbs b.natAbs with
    | some x => .ok x
    | none => .error .overflow

def div : Number → Number → Except Fault Float
  | .int a, .int b => ratio a b
  | a, b => do
    let x ← a.toFloat
    let y ← b.toFloat
    if y == 0 then .error .zeroDivision else return x / y

def sum (ns : List Number) : Except Fault Number :=
  ns.foldlM add (.int 0)

end Number

namespace Value

def isNumeric : Value → Bool
  | .int _ => true
  | .float _ => true
  | .str s => (Numeral.whole? s).isSome
  | _ => false

/-- The number of a numeral: whole if it is written without point and exponent and no double is too
small for it. -/
def numeralNumber (n : Numeral) : Except Fault Number :=
  let x := n.toFloat
  if !n.legible then .error .badValue
  else if n.plain && Double.isWhole x then
    if n.size ≤ maxNumeralSize then .ok (.int n.toInt) else .error .badValue
  else .ok (.float x)

def toNumber : Value → Except Fault Number
  | .null => .ok (.int 0)
  | .bool b => .ok (.int (if b then 1 else 0))
  | .int n => .ok (.int n)
  | .float x => .ok (.float x)
  | .str s =>
    match Numeral.whole? s with
    | some n => numeralNumber n
    | none => .error (.expression (.notNumeric (Value.str s).quoted))
  | v => do throw (.expression (.notNumeric (← v.shown)))

/-- A value as a whole number, the fraction dropped. -/
def toWhole (v : Value) : Except Fault Int := do
  (← v.toNumber).toInt

/-- The double of the numeral that a text begins with, or 0. -/
def leadingOfText (s : String) : Except Fault Float :=
  match Numeral.leading? s with
  | some n => if n.legible then .ok n.toFloat else .error .badValue
  | none => .ok 0

/-- A value as a double that stands for any value: the numeral that its text begins with, 1 for a list
or mapping that is not empty, and otherwise 0. -/
def leadingNumber : Value → Except Fault Float
  | .list items => .ok (if items.isEmpty then 0 else 1)
  | .map entries => .ok (if entries.isEmpty then 0 else 1)
  | .str s => leadingOfText s
  | .null => .ok 0
  | .bool b => .ok (if b then 1 else 0)
  | .int n => (Number.int n).toFloat
  | .float x => .ok x
  | v => do leadingOfText (← v.written)

/-- Null, false, zero, the texts that are empty or `0`, and empty containers are not true. -/
def isTruthy : Value → Bool
  | .null => false
  | .bool b => b
  | .int n => n != 0
  | .float x => !(x == 0)
  | .str s => s != "" && s != "0"
  | .date _ => true
  | .moment _ => true
  | .scalar (.bytes b) => !b.isEmpty
  | .list items => !items.isEmpty
  | .map entries => !entries.isEmpty
  | .set items => !items.isEmpty

/-- A value is present: not null, false, zero or empty. Unlike in conditions, the text `0` is present. -/
def isPresent : Value → Bool
  | .str s => s != ""
  | v => v.isTruthy

/-- A number or a truth value or null, which all have a place in the order of numbers. -/
def isOrdinal : Value → Bool
  | .null => true
  | .bool _ => true
  | v => v.isNumeric

def sameType (a b : Value) : Bool := a.typeName == b.typeName

def strictEquals (a b : Value) : Bool := sameType a b && same a b

/-- Null equals what is not true, except that of the texts it equals only the empty one. -/
def equalsNull : Value → Bool
  | .str s => s == ""
  | v => !v.isTruthy

/-- Equality across types: null equals emptiness, a truth value equals the truth of the other value,
and numerals equal as numbers. -/
def looseEquals (a b : Value) : Except Fault Bool :=
  match a, b with
  | .null, b => .ok (b.isNull || b.equalsNull)
  | a, .null => .ok a.equalsNull
  | .bool p, b => .ok (p == b.isTruthy)
  | a, .bool q => .ok (a.isTruthy == q)
  | a, b =>
    if a.isNumeric && b.isNumeric then do
      let x ← (← a.toNumber).toFloat
      let y ← (← b.toNumber).toFloat
      return x == y
    else
      match a, b with
      | .int _, _ => .ok false
      | .float _, _ => .ok false
      | _, .int _ => .ok false
      | _, .float _ => .ok false
      | a, b => .ok (same a b)

/-- Texts are ordered by their characters' code points. -/
def compareText (a b : String) : Ordering :=
  if a < b then .lt else if b < a then .gt else .eq

/-- Order of values: texts as texts unless both are numerals, and what counts as a number as numbers.
NaN is neither before nor after any number. -/
def order (a b : Value) : Except Fault Ordering :=
  match a, b with
  | .str s, .str t =>
    if a.isNumeric && b.isNumeric then do
      return ((← a.toNumber).compare? (← b.toNumber)).getD .eq
    else .ok (compareText s t)
  | a, b =>
    if a.isOrdinal && b.isOrdinal then do
      return ((← a.toNumber).compare? (← b.toNumber)).getD .eq
    else .error (.expression (.incomparable a.typeName b.typeName))

end Value

end Flowline
