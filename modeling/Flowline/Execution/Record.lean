import Flowline.Execution.Basic
import Flowline.Time.Iso

/-!
Executions as values: the record that is kept of an execution, and the execution that a record describes.
-/

namespace Flowline

def Value.ofText? : Option String → Value
  | some s => .str s
  | none => .null

def Moment.toValue? : Option Moment → Value
  | some m => .str m.isoText
  | none => .null

/-- The moment that a record names. One that is written without an offset is in universal time. -/
def Moment.ofRecord : Value → Except Fault (Option Moment)
  | .null => .ok none
  | .moment m => .ok (some m)
  | v =>
    match Iso.read? v.text with
    | some m => .ok (some m.withOffset)
    | none => .error .badValue

def NodeState.toValue (s : NodeState) : Value :=
  .object [("status", .str s.status.text), ("output", s.output.value)]

def LogEntry.toValue (l : LogEntry) : Value :=
  .object [("level", .str l.level), ("message", .str l.message), ("context", l.context)]

namespace Execution

def toValue (e : Execution) : Value :=
  .object [
    ("execution_id", .str e.id),
    ("workflow_id", .str e.workflowId),
    ("workflow_uuid", .str e.workflowUuid),
    ("status", .str e.status.text),
    ("trigger_type", e.triggerType),
    ("trigger_data", .map e.trigger),
    ("context", .map e.context),
    ("variables", .map e.vars),
    ("node_states", .object (e.states.map fun (id, s) => (id, s.toValue))),
    ("logs", .list (e.logs.map LogEntry.toValue)),
    ("error_message", Value.ofText? e.error?),
    ("started_at", .str e.startedAt.isoText),
    ("completed_at", Moment.toValue? e.completedAt?),
    ("execution_time_ms", .int e.elapsed)]

def stateOf (entry : Scalar × Value) : Except Fault (String × NodeState) := do
  let status ← NodeStatus.ofValue (← entry.2.entry "status")
  return (entry.1.text, ⟨status, .fixed (← entry.2.entryOr "output" (.map []))⟩)

def logOf (v : Value) : Except Fault LogEntry := do
  return ⟨(← v.entry "level").text, (← v.entry "message").text, ← v.entryOr "context" (.map [])⟩

/-- A part of a record that is a mapping, and empty where it is not present. -/
def partOf (v : Value) (key : String) : Except Fault (List (Scalar × Value)) := do
  ((← v.entry key).orElse (.map [])).mapping

def textOf? : Value → Option String
  | .null => none
  | v => some v.text

/-- The execution that a record describes; one without a start began now. -/
def ofValue (v : Value) (now : Moment) : Except Fault Execution := do
  let id ← match v with
    | .map entries =>
      match Entries.get? entries (.str "execution_id") with
      | some id => pure id.text
      | none => throw .missingKey
    | _ => throw .wrongType
  let trigger ← partOf v "trigger_data"
  let context ← partOf v "context"
  let vars ← partOf v "variables"
  let states ← (← partOf v "node_states").mapM stateOf
  let logs ← (← (← v.entry "logs").iterateOrNone).mapM logOf
  let startedAt? ← Moment.ofRecord (← v.entry "started_at")
  let completedAt? ← Moment.ofRecord (← v.entry "completed_at")
  let elapsed ← ((← v.entry "execution_time_ms").orElse (.int 0)).asInt
  let status ← ExecutionStatus.ofValue (← v.entryOr "status" (.str "pending"))
  return {
    id := id
    workflowId := (← v.entryOr "workflow_id" (.str "")).text
    workflowUuid := (← v.entryOr "workflow_uuid" (.str "")).text
    status := status
    triggerType := ← v.entryOr "trigger_type" (.str "manual")
    trigger := trigger
    context := context
    vars := vars
    states := states
    logs := logs
    error? := textOf? (← v.entry "error_message")
    startedAt := startedAt?.getD now
    completedAt? := completedAt?
    elapsed := elapsed
    logLevel := "debug"
    nextNumber := 0 }

end Execution

end Flowline
