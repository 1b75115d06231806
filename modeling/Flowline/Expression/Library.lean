import Flowline.Digest
import Flowline.Expression.Syntax
import Flowline.Json.Read
import Flowline.Text.Case
import Flowline.Text.Search
import Flowline.Time.Dated
import Flowline.Time.Format
import Flowline.Value.Collection

/-!
The functions of the expression language. A function takes the values of its arguments and fails, as
with a wrong type, where there are too few or too many.
-/

namespace Flowline

abbrev Function := List Value → Except Fault Value

/-- Functions by name, in the order in which they were added. -/
abbrev Library := List (String × Function)

namespace Library

def function? (library : Library) (name : String) : Option Function :=
  List.lookup name library

/-- Adds a function, in the place of the one with its name if there is one. -/
def register (library : Library) (name : String) (f : Function) : Library :=
  match library with
  | [] => [(name, f)]
  | (n, g) :: rest => if n == name then (n, f) :: rest else (n, g) :: register rest name f

def names (library : Library) : List String := library.map (·.1)

/-! ## Arguments -/

def nullary (f : Except Fault Value) : Function
  | [] => f
  | _ => .error .wrongType

def unary (f : Value → Except Fault Value) : Function
  | [a] => f a
  | _ => .error .wrongType

def binary (f : Value → Value → Except Fault Value) : Function
  | [a, b] => f a b
  | _ => .error .wrongType

def ternary (f : Value → Value → Value → Except Fault Value) : Function
  | [a, b, c] => f a b c
  | _ => .error .wrongType

/-- A function with a second argument that may be left out. -/
def upToTwo (standard : Value) (f : Value → Value → Except Fault Value) : Function
  | [a] => f a standard
  | [a, b] => f a b
  | _ => .error .wrongType

/-- A function with a third argument that may be left out. -/
def twoOrThree (standard : Value) (f : Value → Value → Value → Except Fault Value) : Function
  | [a, b] => f a b standard
  | [a, b, c] => f a b c
  | _ => .error .wrongType

/-! ## Texts -/

/-- The items from a place on; a negative place counts from the end. -/
def dropFrom (n : Int) (xs : List α) : List α :=
  if 0 ≤ n then xs.drop n.toNat else xs.drop (xs.length - n.natAbs)

/-- The items before a place; a negative place counts from the end. -/
def takeTo (n : Int) (xs : List α) : List α :=
  if 0 ≤ n then xs.take n.toNat else xs.take (xs.length - n.natAbs)

/-- The items from a place on, up to a length if one is given. -/
def window (start length : Value) (xs : List α) : Except Fault (List α) := do
  let tail := dropFrom (← start.toWhole) xs
  match length with
  | .null => return tail
  | n => return takeTo (← n.toWhole) tail

def onText (f : String → String) : Function :=
  unary fun v => do return .str (f (← v.display))

def substring : Function := twoOrThree .null fun text start length => do
  let s ← text.display
  return .str (String.ofList (← window start length s.toList))

def replaceText : Function := ternary fun text mark replacement => do
  return .str (Text.replaceAll (← mark.display) (← replacement.display) (← text.display))

def splitText : Function := binary fun text mark => do
  let s ← text.display
  match Text.split? (← mark.display) s with
  | some pieces => return Value.strings pieces
  | none => .error .badValue

def joinTexts : Function := binary fun items mark => do
  let separator ← mark.display
  let texts ← (← items.items).mapM Value.display
  return .str (separator.intercalate texts)

def concatTexts : Function := fun args => do
  return .str (String.join (← args.mapM Value.display))

def lengthOf : Value → Value
  | .str s => .ofNat s.length
  | .list items => .ofNat items.length
  | .map entries => .ofNat entries.length
  | _ => .int 0

/-! ## Numbers -/

/-- The largest exponent of ten for which rounding is tried; powers of ten are no doubles long before. -/
def maxPrecision : Int := 400

/-- `10 ^ precision`, whole for a precision that is not negative. -/
def powerOfTen (precision : Int) : Except Fault Number :=
  if maxPrecision < precision then .error .overflow
  else if 0 ≤ precision then .ok (.int (tenTo precision.toNat))
  else .ok (.float (Float.pow 10 (Float.ofInt (max precision (-maxPrecision)))))

def floorOf (x : Float) : Except Fault Int :=
  match Double.floor? x with
  | some n => .ok n
  | none => if x.isNaN then .error .badValue else .error .overflow

def ceilOf (x : Float) : Except Fault Int :=
  match Double.ceil? x with
  | some n => .ok n
  | none => if x.isNaN then .error .badValue else .error .overflow

/-- A number rounded to a number of decimal places, a half away from zero; whole if there are none. -/
def roundNumber : Function := upToTwo (.int 0) fun number precision => do
  let x ← (← number.toNumber).toFloat
  let places ← precision.toWhole
  let factor ← powerOfTen places
  let scaled := x.abs * (← factor.toFloat) + 0.5
  let rounded ← Number.div (.int (← floorOf scaled)) factor
  let signed := if Double.isNegative x then -rounded else rounded
  if places ≤ 0 then return .int (← (Number.float signed).toInt) else return .float signed

def floorNumber : Function := unary fun v => do
  match ← v.toNumber with
  | .int n => return .int n
  | .float x => return .int (← floorOf x)

def ceilNumber : Function := unary fun v => do
  match ← v.toNumber with
  | .int n => return .int n
  | .float x => return .int (← ceilOf x)

/-- The arguments, or the items of the only one if it is a collection. -/
def operands : List Value → List Value
  | [.list items] => items
  | [.map entries] => entries.map (·.2)
  | args => args

/-- The first item for which no later one is better. -/
def best (better : Ordering) : Function := fun args =>
  match operands args with
  | [] => .error .badValue
  | v :: rest => rest.foldlM (fun found w => do
      return if (← Value.order w found) == better then w else found) v

def sumOf (vs : List Value) : Except Fault Number :=
  vs.foldlM (fun total v => do total.add (← v.toNumber)) (.int 0)

def average : Function := unary fun v => do
  let vs ← v.items
  if vs.isEmpty then return .int 0
  else return .float (← (← sumOf vs).div (.int vs.length))

/-! ## Dates -/

section Dates

variable [Calendar]

/-- The moment that a value is, as text made of it; false if the value is no moment. -/
def onMoment (now : Moment) (f : Moment → Except Fault Value) (v : Value) : Except Fault Value := do
  match ← Moment.ofValue v now with
  | some m => f m
  | none => return .bool false

def formatDate (now : Moment) : Function := upToTwo .null fun format moment =>
  match moment with
  | .null => do return .str (now.format (← format.written))
  | v => onMoment now (fun m => do return .str (m.format (← format.written))) v

def datePart (now : Moment) (format : String) : Function :=
  unary (onMoment now fun m => .ok (.str (m.format format)))

def wholeTimestamp (now : Moment) : Function := unary fun v => do
  match ← Moment.timestampOf v now with
  | some t => return .int (← (Number.float t).toInt)
  | none => return .bool false

def dateAdd (now : Moment) : Function := binary fun v interval =>
  onMoment now (fun m => do return .str (← m.addText (← interval.written)).plainText) v

def dateDifference (now : Moment) : Function := binary fun first second => do
  let a ← Moment.timestampOf first now
  let b ← Moment.timestampOf second now
  match a, b with
  | some a, some b => return .float ((a - b) / 86400)
  | _, _ => return .bool false

end Dates

/-! ## Collections -/

def firstOf : Value → Value
  | .list (v :: _) => v
  | .map ((_, v) :: _) => v
  | _ => .null

def lastOf : Value → Value
  | .list items => items.getLast?.getD .null
  | .map entries => (entries.getLast?.map (·.2)).getD .null
  | _ => .null

def keysOf : Value → Except Fault Value
  | .map entries => .ok (.list (entries.map fun (k, _) => .scalar k))
  | v => do
    let n ← if v.isPresent then v.size else .ok 0
    return .list ((List.range n).map .ofNat)

def reverseOf : Value → Except Fault Value
  | .str s => .ok (.str (String.ofList s.toList.reverse))
  | v => do return .list (← v.items).reverse

/-- Mappings become one mapping, in which later entries win; anything else becomes one list. -/
def merge : Function := fun args =>
  let isMap : Value → Bool := Value.isMap
  if !args.isEmpty && args.all isMap then
    .ok (.map (args.foldl (fun acc v =>
      match v with
      | .map entries => Entries.insertAll acc entries
      | _ => acc) []))
  else .ok (.list (args.flatMap fun v => if v.isContainer then v.members else [v]))

def sortItems : Function
  | [vs] => do return .list (← Value.sorted (← vs.items) .null false)
  | [vs, key] => do return .list (← Value.sorted (← vs.items) key false)
  | [vs, key, descending] => do
    return .list (← Value.sorted (← vs.items) key (← descending.toDirection))
  | _ => .error .wrongType

def slice : Function := twoOrThree .null fun v offset length => do
  return .list (← window offset length (← v.items))

/-! ## Types -/

/-- The name of a value's type in the expression language. -/
def typeOf : Value → String
  | .null => "NULL"
  | .bool _ => "boolean"
  | .int _ => "integer"
  | .float _ => "double"
  | .str _ => "string"
  | .list _ => "array"
  | .map _ => "array"
  | _ => "object"

def choose : Function := twoOrThree .null fun condition yes no =>
  .ok (if condition.isTruthy then yes else no)

/-- The first argument that is neither null nor the empty text. -/
def coalesce : Function := fun args =>
  .ok ((args.find? fun v => !v.isNull && !(v.isStr && !v.isPresent)).getD .null)

def jsonDecode : Value → Value
  | .str s => (Json.read? s).getD .null
  | _ => .null

def uniqueName : String := "00000000-0000-4000-8000-000000000000"

/-- A whole number between two bounds, both included. -/
def anyBetween : Function := fun args => do
  let (low, high) ← match args with
    | [] => pure (0, 100)
    | [low] => do pure (← low.toWhole, (100 : Int))
    | [low, high] => do pure (← low.toWhole, ← high.toWhole)
    | _ => .error .wrongType
  if low ≤ high then return .int low else .error .badValue

def digest : Function := upToTwo (.str "md5") fun v method => do
  match Digest.hex? (← method.written) (← v.display) with
  | some text => return .str text
  | none => .error .badValue

/-! ## The library -/

/-- The functions that every expression can call, given the time. -/
def standard [Calendar] (now : Moment) : Library := [
  ("length", unary fun v => .ok (lengthOf v)),
  ("upper", onText Text.upper),
  ("lower", onText Text.lower),
  ("trim", onText Text.trim),
  ("substr", substring),
  ("replace", replaceText),
  ("split", splitText),
  ("join", joinTexts),
  ("concat", concatTexts),
  ("abs", unary fun v => do return (← v.toNumber).abs.toValue),
  ("round", roundNumber),
  ("floor", floorNumber),
  ("ceil", ceilNumber),
  ("min", best .lt),
  ("max", best .gt),
  ("sum", unary fun v => do return (← sumOf (← v.items)).toValue),
  ("avg", average),
  ("now", nullary (.ok (.str now.plainText))),
  ("today", nullary (.ok (.str (now.format "Y-m-d")))),
  ("date", formatDate now),
  ("strtotime", wholeTimestamp now),
  ("date_add", dateAdd now),
  ("date_diff", dateDifference now),
  ("year", datePart now "Y"),
  ("month", datePart now "m"),
  ("day", datePart now "d"),
  ("dayofweek", datePart now "w"),
  ("count", unary fun v => .ok (.ofNat v.members.length)),
  ("first", unary fun v => .ok (firstOf v)),
  ("last", unary fun v => .ok (lastOf v)),
  ("keys", unary keysOf),
  ("values", unary fun v => do return .list (← v.items)),
  ("unique", unary fun v => do return .list (← Value.distinct (← v.items))),
  ("reverse", unary reverseOf),
  ("sort", sortItems),
  ("pluck", binary fun v key => do return .list (← Value.pluck (← v.items) key)),
  ("merge", merge),
  ("slice", slice),
  ("if", choose),
  ("coalesce", coalesce),
  ("default", binary fun v standard => .ok (if v.isNull then standard else v)),
  ("int", unary fun v => do return .int (← (Number.float (← v.leadingNumber)).toInt)),
  ("float", unary fun v => do return .float (← v.leadingNumber)),
  ("string", unary fun v => do return .str (← v.display)),
  ("bool", unary fun v => .ok (.bool v.isTruthy)),
  ("json_encode", unary fun v => do return .str (← Json.render .compact v)),
  ("json_decode", unary fun v => .ok (jsonDecode v)),
  ("isset", unary fun v => .ok (.bool !v.isNull)),
  ("empty", unary fun v => .ok (.bool !v.isTruthy)),
  ("typeof", unary fun v => .ok (.str (typeOf v))),
  ("uuid", nullary (.ok (.str uniqueName))),
  ("random", anyBetween),
  ("hash", digest)]

end Library

end Flowline
