import Flowline.Execution.Result
import Flowline.Table
import Flowline.Text.Case
import Flowline.Time.Moment
import Flowline.Workflow.Basic

/-!
Executions of workflows: the variables, the states of the nodes that were reached, and a log. A completed
node stays as it is.
-/

namespace Flowline

/-- Where an execution stands. -/
inductive ExecutionStatus
  | pending | running | completed | failed | cancelled | paused
deriving Repr, DecidableEq

namespace ExecutionStatus

def all : List ExecutionStatus := [pending, running, completed, failed, cancelled, paused]

def text : ExecutionStatus → String
  | pending => "pending"
  | running => "running"
  | completed => "completed"
  | failed => "failed"
  | cancelled => "cancelled"
  | paused => "paused"

def ofText? (s : String) : Option ExecutionStatus := all.find? (·.text == s)

def ofValue : Value → Except Fault ExecutionStatus
  | .str s => match ofText? s with | some status => .ok status | none => .error .badValue
  | _ => .error .badValue

def isTerminal : ExecutionStatus → Bool
  | completed | failed | cancelled => true
  | pending | running | paused => false

def isResumable : ExecutionStatus → Bool
  | paused | running => true
  | pending | completed | failed | cancelled => false

end ExecutionStatus

/-- The state of a node that was reached. -/
structure NodeState where
  status : NodeStatus
  output : Output
deriving Repr

/-- The time at which a state is to be resumed, where it waits for one. -/
def NodeState.resumeAt? (s : NodeState) : Option Value :=
  if s.status == .waiting then
    match s.output.entry "resume_at" with
    | .null => none
    | v => some v
  else none

/-- A run of a node, with what came of it. -/
structure NodeRun where
  node : Node
  result : NodeResult
deriving Repr

/-- An entry of the log. -/
structure LogEntry where
  level : String
  message : String
  context : Value
deriving Repr

/-- An execution of a workflow. -/
structure Execution where
  id : String
  workflowId : String
  workflowUuid : String
  status : ExecutionStatus
  triggerType : Value
  trigger : List (Scalar × Value)
  context : List (Scalar × Value)
  vars : List (Scalar × Value)
  states : Table String NodeState
  logs : List LogEntry
  error? : Option String
  startedAt : Moment
  completedAt? : Option Moment
  /-- How long it has run, in milliseconds. -/
  elapsed : Int
  /-- The level from which on entries are logged. It is no part of the record. -/
  logLevel : String
  /-- The number of the next growing output. -/
  nextNumber : Nat
  /-- The nodes that the latest walk visited, the first one first. They are no part of the record. -/
  trail : List String := []
  /-- The runs of nodes in the latest walk, also of those inside others, in the order in which they ended.
  They are no part of the record. -/
  runs : List NodeRun := []
deriving Repr

namespace Execution

def start (id : String) (now : Moment) : Execution where
  id := id
  workflowId := ""
  workflowUuid := ""
  status := .pending
  triggerType := .str "manual"
  trigger := []
  context := []
  vars := []
  states := []
  logs := []
  error? := none
  startedAt := now
  completedAt? := none
  elapsed := 0
  logLevel := "debug"
  nextNumber := 0

/-! ## Nodes -/

def state? (e : Execution) (id : String) : Option NodeState := e.states.get? id

def nodeStatus? (e : Execution) (id : String) : Option NodeStatus := (e.state? id).map (·.status)

def isCompleted (e : Execution) (id : String) : Bool := e.nodeStatus? id == some .completed

def isWaiting (e : Execution) (id : String) : Bool := e.nodeStatus? id == some .waiting

/-- Records the state of a node, unless it is completed already. -/
def setState (e : Execution) (id : String) (status : NodeStatus) (output : Output) : Execution :=
  if e.isCompleted id then e
  else { e with states := e.states.put id ⟨status, output.orEmpty⟩ }

def visit (e : Execution) (id : String) : Execution := { e with trail := e.trail ++ [id] }

def ran (e : Execution) (n : Node) (r : NodeResult) : Execution := { e with runs := e.runs ++ [⟨n, r⟩] }

/-- Records a state that a value names. For a completed node nothing is read or changed. -/
def setStateNamed (e : Execution) (id : String) (status output : Value) :
    Except Fault Execution := do
  if e.isCompleted id then return e
  return e.setState id (← NodeStatus.ofValue status) (.fixed output)

/-- Adds an entry to the output of a node, and to wherever else that output is a part. -/
def growOutput (e : Execution) (id : String) (key : String) (value : Value) : Execution :=
  match e.state? id with
  | none => e
  | some s =>
    match s.output.number? with
    | some n =>
      { e with states := e.states.map fun (k, s) =>
          (k, { s with output := s.output.grow n key value }) }
    | none =>
      let output := { s.output with value := s.output.value.withEntry key value }
      { e with states := e.states.put id { s with output := output } }

/-- The waiting nodes that have a time at which they are to be resumed. -/
def pendingResumes (e : Execution) : Table String Value :=
  e.states.filterMap fun (id, s) => s.resumeAt?.map fun v => (id, v)

/-! ## Variables -/

def setVariable (e : Execution) (name : Scalar) (value : Value) : Execution :=
  { e with vars := Entries.insert e.vars name value }

def variableNamed (e : Execution) (name : Scalar) : Option Value := Entries.get? e.vars name

def scope (e : Execution) : Value := .map e.vars

/-- How often the workflow was run again before this execution. -/
def retryCount (e : Execution) : Except Fault Int :=
  (((Entries.get? e.context (.str "retry_count")).getD (.int 0)).orElse (.int 0)).asInt

/-! ## Log -/

/-- The rank of a level; a level that is not known has the standard rank. -/
def levelRank (standard : Nat) (level : String) : Nat :=
  match level with
  | "debug" => 10
  | "info" => 20
  | "warning" => 30
  | "error" => 40
  | _ => standard

def log (e : Execution) (level message : String) (context : Value) : Execution :=
  if levelRank 20 level < levelRank 10 (Text.lower e.logLevel) then e
  else { e with logs := e.logs ++ [⟨level, message, context.orElse (.map [])⟩] }

def note (e : Execution) (level message : String) (details : List (String × Value)) : Execution :=
  e.log level message (.object details)

end Execution

end Flowline
