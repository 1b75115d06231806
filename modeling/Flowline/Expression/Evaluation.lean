import Flowline.Expression.Library
import Flowline.Expression.Parser
import Flowline.Template

/-!
The value of an expression, given a library of functions and the variables that paths begin with.
-/

namespace Flowline

namespace Expr

/-- The sum of values: lists and texts are joined, unless both texts are numerals. -/
def addValues (a b : Value) : Except Fault Value :=
  let numbers : Except Fault Value := do
    return (← (← a.toNumber).add (← b.toNumber)).toValue
  match a, b with
  | .list xs, .list ys => .ok (.list (xs ++ ys))
  | .str s, .str t => if a.isNumeric && b.isNumeric then numbers else .ok (.str (s ++ t))
  | _, _ => numbers

/-- The quotient: whole where the division of whole numbers leaves no remainder. -/
def divideNumbers (a b : Number) : Except Fault Value :=
  if b.isZero then .error (.expression .divisionByZero)
  else
    match a, b with
    | .int m, .int n =>
      if m % n = 0 then .ok (.int (m / n)) else do return .float (← Number.ratio m n)
    | a, b => do return .float (← a.div b)

/-- A whole number as the double nearest to it, which is whole too. -/
def nearestWhole (n : Int) : Except Fault Int := do
  (Number.float (← (Number.int n).toFloat)).toInt

/-- The remainder of whole parts, with the sign of the first. Parts are taken as doubles. -/
def remainderNumbers (a b : Number) : Except Fault Value :=
  if b.isZero then .error (.expression .divisionByZero)
  else do
    let n ← b.toInt
    if n = 0 then .error (.expression .moduloByZero)
    else
      let m ← a.toInt
      return .int ((← nearestWhole m).tmod (← nearestWhole n))

/-- What an operator makes of the values of its operands. -/
def applyBinary (op : BinaryOp) (a b : Value) : Except Fault Value :=
  match op with
  | .or => .ok (.bool (a.isTruthy || b.isTruthy))
  | .and => .ok (.bool (a.isTruthy && b.isTruthy))
  | .strictEq => .ok (.bool (Value.strictEquals a b))
  | .strictNe => .ok (.bool !(Value.strictEquals a b))
  | .eq => do return .bool (← Value.looseEquals a b)
  | .ne => do return .bool !(← Value.looseEquals a b)
  | .ge => do return .bool ((← Value.order a b) != .lt)
  | .le => do return .bool ((← Value.order a b) != .gt)
  | .gt => do return .bool ((← Value.order a b) == .gt)
  | .lt => do return .bool ((← Value.order a b) == .lt)
  | .add => addValues a b
  | .sub => do return (← (← a.toNumber).sub (← b.toNumber)).toValue
  | .mul => do return (← (← a.toNumber).mul (← b.toNumber)).toValue
  | .div => do divideNumbers (← a.toNumber) (← b.toNumber)
  | .mod => do remainderNumbers (← a.toNumber) (← b.toNumber)

/-- What an operator makes of the value of its operand. -/
def applyUnary (op : UnaryOp) (v : Value) : Except Fault Value :=
  match op with
  | .not => .ok (.bool !v.isTruthy)
  | .neg => do return (← v.toNumber).neg.toValue

/-- The value of a call. Only faults of expressions keep their cause. -/
def applyFunction (name : String) (f : Function) (args : List Value) : Except Fault Value :=
  match f args with
  | .ok v => .ok v
  | .error (.expression cause) => .error (.expression cause)
  | .error _ => .error (.expression (.functionFailed name))

mutual

/-- The value of an expression. The second operand of `and` and `or` is left alone where the first
decides. -/
def evaluate (library : Library) (context : Value) : Expr → Except Fault Value
  | .literal v => .ok v
  | .variable path => Path.lookupText path context
  | .array items => do return .list (← evaluateAll library context items)
  | .object entries => do
    return .map (Entries.insertAll [] (← evaluateEntries library context entries))
  | .unary op operand => do applyUnary op (← evaluate library context operand)
  | .binary op left right => do
    let a ← evaluate library context left
    match op with
    | .and =>
      if a.isTruthy then return .bool (← evaluate library context right).isTruthy
      else return .bool false
    | .or =>
      if a.isTruthy then return .bool true
      else return .bool (← evaluate library context right).isTruthy
    | op => applyBinary op a (← evaluate library context right)
  | .call name args =>
    match library.function? name with
    | none => .error (.expression (.unknownFunction name))
    | some f => do applyFunction name f (← evaluateAll library context args)

def evaluateAll (library : Library) (context : Value) : List Expr → Except Fault (List Value)
  | [] => .ok []
  | e :: rest => do
    let v ← evaluate library context e
    return v :: (← evaluateAll library context rest)

def evaluateEntries (library : Library) (context : Value) :
    List (String × Expr) → Except Fault (List (Scalar × Value))
  | [] => .ok []
  | (k, e) :: rest => do
    let v ← evaluate library context e
    return (.str k, v) :: (← evaluateEntries library context rest)

end

end Expr

namespace Expression

def run (library : Library) (context : Value) (s : String) : Except Fault Value := do
  match parse (fun name => (library.function? name).isSome) s with
  | .ok e => e.evaluate library (Template.scope context)
  | .error cause => .error cause.fault

/-- The text with its references replaced by expressions of their values. -/
def substitute (context : Value) (s : String) : Except Fault String :=
  Template.substitute (fun path => do
    (← Path.lookupText (String.ofList path) context).expressionText) s

/-- The value of an expression text with references; false if it is no expression or has no value. -/
def runWithReferences (library : Library) (context : Value) (s : String) : Except Fault Value := do
  let context := Template.scope context
  let s := Text.trim s
  if s == "true" then return .bool true
  else if s == "false" then return .bool false
  else
    let filled ← substitute context s
    match run library context filled with
    | .error (.expression _) => return .bool false
    | result => result

end Expression

end Flowline
