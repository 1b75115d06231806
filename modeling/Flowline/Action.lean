import Flowline.Execution.Basic

/-!
Actions: work that the application does for a workflow. An action is called with the configuration of its
node and answers with a value, a result or a fault; what else it does to the execution and to time is
part of its reply.
-/

namespace Flowline

/-- What an action does besides answering. -/
inductive Effect
  | setVariable (name : Scalar) (value : Value)
  | log (level message : String) (context : Value)
  /-- Asks for the end of the execution. -/
  | cancel
  /-- Takes some microseconds. -/
  | elapse (micros : Int)
deriving Repr

/-- What an action is called with. -/
structure ActionCall where
  config : Value
  execution : Execution
  /-- How often the action has been called, this call included. -/
  count : Nat
  /-- How many executions are running. -/
  running : Nat

/-- What an action answers. -/
inductive ActionAnswer
  | nothing
  | value (v : Value)
  | result (r : NodeResult)
deriving Repr

/-- The effects of an action, and its answer or why it has none. -/
structure ActionReply where
  effects : List Effect
  answer : Except Fault ActionAnswer

/-- An action, with a schema of the parameters it takes. -/
structure Action where
  type : String
  schema : Value
  run : ActionCall → ActionReply

/-- The result of a node whose action answers. The output of an action has no part in common with other
outputs. -/
def ActionAnswer.toResult : ActionAnswer → NodeResult
  | .result r => { r with output := .fixed r.output.value }
  | .nothing => .okValue .null
  | .value .null => .okValue .null
  | .value (.map entries) => .okValue (.map entries)
  | .value v => .okObject [("result", v)]

namespace Action

/-! ## Parameters -/

/-- A value has a type that a schema names; other names fit nothing. -/
def fits (type : String) (v : Value) : Bool :=
  match type, v with
  | "string", .str _ => true
  | "number", .int _ => true
  | "number", .float _ => true
  | "boolean", .bool _ => true
  | "array", .list _ => true
  | "object", .map _ => true
  | _, _ => false

def checkedTypes : List String := ["string", "number", "boolean", "array", "object"]

def typeProblems (properties : Value) (name : Scalar) (v : Value) : Except Fault (List String) := do
  let property ← match properties with
    | .map entries => pure ((Entries.get? entries name).getD (.map []))
    | _ => throw .noMember
  match ← property.entry "type" with
  | .str type =>
    if checkedTypes.contains type && !fits type v then
      return [s!"Parameter {name.text} must be a {type}"]
    else return []
  | .scalar _ => return []
  | _ => throw .wrongType

/-- What is wrong with a parameter that is required. -/
def absenceProblems (parameters : List (Scalar × Value)) (name : Value) :
    Except Fault (List String) := do
  if Entries.contains parameters (← name.toKey) then return []
  else return [s!"Missing required parameter: {name.text}"]

/-- What is wrong with parameters. Without a schema everything fits. -/
def parameterProblems (schema parameters : Value) : Except Fault (List String) := do
  if !schema.isPresent then return []
  let properties ← schema.entryOr "properties" (.map [])
  let required ← (← schema.entryOr "required" (.list [])).iterate
  match parameters with
  | .map entries =>
    let absent ← required.mapM (absenceProblems entries)
    let wrong ← entries.mapM fun (name, v) => typeProblems properties name v
    return (absent ++ wrong).flatten
  | _ => throw .noMember

/-! ## The standard action -/

/-- The schema of the parameters of the standard action. -/
def logSchema : Value := .object [
  ("type", .str "object"),
  ("properties", .object [
    ("message", .object [("type", .str "string")]),
    ("level", .object [("type", .str "string")])]),
  ("required", Value.strings ["message"])]

def logMessage : Action where
  type := "log_message"
  schema := logSchema
  run call :=
    let level := (call.config.field? "level").getD (.str "info")
    let message := (call.config.field? "message").getD .null
    { effects := [.log level.text message.text .null]
      answer := .ok (.result (.okObject [("logged", message), ("level", level)])) }

end Action

abbrev Actions := Table String Action

namespace Actions

def register (actions : Actions) (a : Action) : Actions := actions.put a.type a

def unregister (actions : Actions) (type : String) : Actions := actions.erase type

/-- What is wrong with parameters of an action; nothing for one that is not known. -/
def problems (actions : Actions) (type : String) (parameters : Value) :
    Except Fault (List String) :=
  match actions.get? type with
  | some a => Action.parameterProblems a.schema parameters
  | none => .ok []

end Actions

end Flowline
