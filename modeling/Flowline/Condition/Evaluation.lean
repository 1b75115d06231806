import Flowline.Condition.Basic
import Flowline.Condition.Operators
import Flowline.Expression.Evaluation

/-!
Whether a condition holds, given the operators and functions that are known and the values of variables.
-/

namespace Flowline

/-- What conditions and expressions can use: operators and functions by name. -/
structure Language where
  operators : List (String × Operator)
  library : Library

namespace Language

def standard [Calendar] (now : Moment) : Language :=
  ⟨Operator.standard now, Library.standard now⟩

/-- Adds an operator, in the place of the one with its name if there is one. -/
def registerOperator (language : Language) (name : String) (operator : Operator) : Language :=
  { language with operators :=
      if language.operators.any (·.1 == name) then
        language.operators.map fun (n, o) => if n == name then (n, operator) else (n, o)
      else language.operators ++ [(name, operator)] }

/-- Adds a function, in the place of the one with its name if there is one. -/
def registerFunction (language : Language) (name : String) (f : Function) : Language :=
  { language with library := language.library.register name f }

def operatorNames (language : Language) : List String := language.operators.map (·.1)

def operator (language : Language) (name : Value) : Except Fault Operator :=
  let unknown : Except Fault Operator := do throw (.unknownOperator (← name.written))
  match name with
  | .str s => match language.operators.lookup s with | some o => .ok o | none => unknown
  | .scalar _ => unknown
  | _ => .error .wrongType

end Language

namespace Condition

/-- A fault for which a test does not hold; other faults go on. -/
def isRefusal : Fault → Bool
  | .expression _ => true
  | .wrongType => true
  | .badValue => true
  | .badArgument _ => true
  | .badIndex => true
  | .missingKey => true
  | _ => false

/-- The value that a field is tested against: references at its start are resolved. -/
def expected (context : Value) : Value → Except Fault Value
  | .str s => if Text.startsWith s "\x7b\x7b" then Template.resolveText s context else .ok (.str s)
  | v => .ok v

def runTest (language : Language) (context field operator value : Value) : Except Fault Bool := do
  let actual ← Path.lookup field context
  let value ← expected context value
  let test ← language.operator operator
  match test actual value with
  | .ok b => return b
  | .error fault =>
    if isRefusal fault then
      -- The refusal is logged with the value of the field.
      let _ ← actual.shown
      return false
    else .error fault

mutual

/-- Whether a condition holds. All members of a group are evaluated, whatever the first of them say. -/
def holds (language : Language) (context : Value) : Condition → Except Fault Bool
  | .expression s => do
    return (← Expression.runWithReferences language.library context s).isTruthy
  | .constant b => .ok b
  | .test field operator value =>
    runTest language (Template.scope context) field operator value
  | .group logic members => do return logic.combine (← holdAll language context members)
  | .memberless => .error .wrongType

def holdAll (language : Language) (context : Value) : List Condition → Except Fault (List Bool)
  | [] => .ok []
  | c :: rest => do
    let b ← holds language context c
    return b :: (← holdAll language context rest)

end

end Condition

end Flowline
