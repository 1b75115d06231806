import Flowline.Time.Moment

/-!
Values: what workflow definitions, variables and outputs are made of. Mappings keep the order in which
their entries were added, and their keys are scalars.
-/

namespace Flowline

/-- A value without parts. -/
inductive Scalar
  | null
  | bool (b : Bool)
  | int (n : Int)
  | float (x : Float)
  | str (s : String)
  | date (d : Date)
  | moment (m : Moment)
  | bytes (b : List UInt8)
deriving Repr, Inhabited

/-- A scalar, a list, a mapping in order, or a set of scalars. -/
inductive Value
  | scalar (s : Scalar)
  | list (items : List Value)
  | map (entries : List (Scalar × Value))
  | set (items : List Scalar)
deriving Repr, Inhabited

namespace Value

@[match_pattern] abbrev null : Value := .scalar .null
@[match_pattern] abbrev bool (b : Bool) : Value := .scalar (.bool b)
@[match_pattern] abbrev int (n : Int) : Value := .scalar (.int n)
@[match_pattern] abbrev float (x : Float) : Value := .scalar (.float x)
@[match_pattern] abbrev str (s : String) : Value := .scalar (.str s)
@[match_pattern] abbrev date (d : Date) : Value := .scalar (.date d)
@[match_pattern] abbrev moment (m : Moment) : Value := .scalar (.moment m)

def object (entries : List (String × Value)) : Value :=
  .map (entries.map fun (k, v) => (.str k, v))

def strings (items : List String) : Value := .list (items.map .str)

def ofNat (n : Nat) : Value := .int n

def isNull : Value → Bool
  | .null => true
  | _ => false

def isStr : Value → Bool
  | .str _ => true
  | _ => false

def isMap : Value → Bool
  | .map _ => true
  | _ => false

def isContainer : Value → Bool
  | .list _ => true
  | .map _ => true
  | _ => false

def members : Value → List Value
  | .list items => items
  | .map entries => entries.map (·.2)
  | _ => []

def typeName : Value → String
  | .null => "NoneType"
  | .bool _ => "bool"
  | .int _ => "int"
  | .float _ => "float"
  | .str _ => "str"
  | .date _ => "date"
  | .moment _ => "datetime"
  | .scalar (.bytes _) => "bytes"
  | .list _ => "list"
  | .map _ => "dict"
  | .set _ => "set"

end Value

end Flowline
