import Flowline.Text.Quoted

/-!
Why an evaluation, a node or a workflow fails: the causes, and the message of each.
-/

namespace Flowline

open Text

/-- Why an expression cannot be read or evaluated. -/
inductive ExpressionFault
  /-- No token starts at a place. -/
  | unexpectedCharacter (c : Char) (position : Nat)
  | empty
  /-- A token, or the end where its text is empty, stands where none can. -/
  | unexpectedToken (text : String) (position : Nat)
  /-- Another kind of token is needed. -/
  | expected (kind : String) (text : String) (position : Nat)
  | invalidKey (position : Nat)
  | invalidSegment (position : Nat)
  | unknownFunction (name : String)
  /-- A value, shown quoted, is no number. -/
  | notNumeric (shown : String)
  /-- Values of two types have no order. -/
  | incomparable (left right : String)
  | divisionByZero
  | moduloByZero
  | functionFailed (name : String)
  /-- A numeral has more digits than are read. -/
  | longNumeral
deriving Repr, DecidableEq

/-- Why an operation has no result. -/
inductive Fault
  | expression (cause : ExpressionFault)
  | unknownOperator (name : String)
  | parse (message : String)
  | invalidWorkflow (problems : List String)
  | workflowNotFound (id : String)
  | workflowInactive (id status : String)
  | rateLimited (id limit : String)
  | timedOut (seconds : String)
  | tooManyIterations (limit : String)
  | unknownNodeType (type : String)
  | nodeFailed (node reason : String)
  | execution (message : String)
  | persistence (message : String)
  /-- An action or a service gave up with a message of its own. -/
  | raised (message : String)
  /-- A usage error with a message of its own about a value. -/
  | badArgument (message : String)
  /-- A value has the wrong type for an operation. -/
  | wrongType
  /-- A value has no such member. -/
  | noMember
  /-- A mapping has no such key. -/
  | missingKey
  /-- A sequence has no such place. -/
  | badIndex
  /-- A value is outside the domain of an operation. -/
  | badValue
  /-- A number is beyond what a double or a calendar holds. -/
  | overflow
  | zeroDivision
  /-- A time is beyond what the system clock can hold. -/
  | systemRange
deriving Repr, DecidableEq

/-- The text of a token, or words for the end of the expression. -/
def ExpressionFault.tokenText (text : String) : String :=
  quoted (if text.isEmpty then "end of expression" else text)

/-- What is shown for a fault that has no message of its own. -/
def Fault.unexplained : String := "(internal fault)"

def ExpressionFault.message : ExpressionFault → String
  | .unexpectedCharacter c n => s!"Unexpected character {quoted c.toString} at position {n}"
  | .empty => "Empty expression"
  | .unexpectedToken text n => s!"Unexpected token {tokenText text} at position {n}"
  | .expected kind text n => s!"Expected {kind} but found {tokenText text} at position {n}"
  | .invalidKey n => s!"Invalid object key at position {n}"
  | .invalidSegment n => s!"Invalid path segment at position {n}"
  | .unknownFunction name => s!"Unknown function: {name}"
  | .notNumeric shown => s!"Value is not numeric: {shown}"
  | .incomparable left right => s!"Cannot compare {left} with {right}"
  | .divisionByZero => "Division by zero"
  | .moduloByZero => "Modulo by zero"
  | .functionFailed name => s!"Function {name}() failed"
  | .longNumeral => Fault.unexplained

/-- The fault of an expression that cannot be read. A numeral that is too long is no fault of the
expression: it is a value that no number is made of. -/
def ExpressionFault.fault : ExpressionFault → Fault
  | .longNumeral => .badValue
  | cause => .expression cause


def Fault.message : Fault → String
  | .expression cause => cause.message
  | .unknownOperator name => s!"Unknown operator: {name}"
  | .parse message => message
  | .invalidWorkflow problems =>
    if problems.isEmpty then "Workflow validation failed"
    else "Workflow validation failed: " ++ "; ".intercalate problems
  | .workflowNotFound id => s!"Workflow not found: {id}"
  | .workflowInactive id status => s!"Workflow is not active: {id} (status: {status})"
  | .rateLimited id limit => s!"Rate limit exceeded for workflow {id}: {limit} executions per hour"
  | .timedOut seconds => s!"Workflow execution timeout after {seconds} seconds"
  | .tooManyIterations limit => s!"Maximum iterations exceeded: {limit}"
  | .unknownNodeType type => s!"Unknown node type: {type}"
  | .nodeFailed node reason => s!"Node '{node}' execution failed: {reason}"
  | .execution message => message
  | .persistence message => message
  | .raised message => message
  | .badArgument message => message
  | _ => unexplained

/-- A fault in the domain of workflows, which has a message that can be shown. -/
def Fault.isWorded : Fault → Bool
  | .raised _ => false
  | .badArgument _ => false
  | .wrongType => false
  | .noMember => false
  | .missingKey => false
  | .badIndex => false
  | .badValue => false
  | .overflow => false
  | .zeroDivision => false
  | .systemRange => false
  | _ => true

/-- A computation in two parts succeeds where both do. -/
theorem bind_eq_ok {ε α β : Type} {r : Except ε α} {f : α → Except ε β} {b : β} :
    (r >>= f) = .ok b ↔ ∃ a, r = .ok a ∧ f a = .ok b := by
  cases r with
  | error fault => exact ⟨nofun, fun ⟨_, h, _⟩ => nomatch h⟩
  | ok a => exact ⟨fun h => ⟨a, rfl, h⟩, fun ⟨_, ha, hb⟩ => Except.ok.inj ha ▸ hb⟩

end Flowline
