import Flowline.Action
import Flowline.Condition.Evaluation
import Flowline.Signal
import Flowline.Time.Reading

/-!
A session: the part of a run that its nodes see and change. `Run` is a computation in a session that may
fail; what it has done before it fails stays done.
-/

namespace Flowline

/-- What nodes see and change. -/
structure Session where
  execution : Execution
  now : Moment
  signals : Signals
  /-- How often actions were called, by type. -/
  calls : Table String Nat
  /-- What the clock for timeouts shows next. -/
  stopwatch : Float
  /-- How far that clock moves between two readings. -/
  tick : Float

/-- What an application gives to the nodes of its workflows. -/
structure Services where
  actions : Actions
  /-- Types of nodes that are served by an action each. -/
  actionTypes : List String
  /-- Seconds that a node waits for a signal if it does not say. -/
  waitTimeout : Int
  /-- How many executions are running. -/
  running : Nat

abbrev Run := ExceptT Fault (StateM Session)

namespace Run

def of {α : Type} (r : Except Fault α) : Run α := ExceptT.mk (pure r)

/-- The result of a computation, a fault being one. -/
def attempt {α : Type} (r : Run α) : Run (Except Fault α) :=
  ExceptT.mk (do return .ok (← r.run))

def execution : Run Execution := do return (← get).execution

def modifyExecution (f : Execution → Execution) : Run Unit :=
  modify fun s => { s with execution := f s.execution }

def setVariable (name : Scalar) (value : Value) : Run Unit :=
  modifyExecution (·.setVariable name value)

def setNamed (name value : Value) : Run Unit := do
  setVariable (← of name.toKey) value

def note (level message : String) (details : List (String × Value)) : Run Unit :=
  modifyExecution (·.note level message details)

def resolve (v : Value) : Run Value := do
  of (Template.resolve v (← execution).scope)

def resolveDeep (v : Value) : Run Value := do
  of (Template.resolveDeep (← execution).scope v)

def check (condition : Value) : Run Bool := do
  let s ← get
  of ((Condition.ofNodeValue condition).holds (Language.standard s.now) s.execution.scope)

def timestamp : Run Float := do return (← get).now.timestamp

def readStopwatch : Run Float := do
  let s ← get
  set { s with stopwatch := s.stopwatch + s.tick }
  return s.stopwatch

def takeSignal (node : String) : Run (Option Value) := do
  let s ← get
  let (payload?, signals) := s.signals.take s.execution.id node
  set { s with signals := signals }
  return payload?

/-! ## Actions -/

def perform : Effect → Run Unit
  | .setVariable name value => setVariable name value
  | .log level message context => modifyExecution (·.log level message context)
  | .cancel => modifyExecution fun e =>
      { e with status := .cancelled }.note "info" "Workflow execution cancellation requested" []
  | .elapse micros => do
    let s ← get
    match s.now.addMicros? micros with
    | some now => set { s with now := now }
    | none => throw .overflow

def countCall (type : String) : Run Nat := do
  let s ← get
  let count := ((s.calls.get? type).getD 0) + 1
  set { s with calls := s.calls.put type count }
  return count

def call (services : Services) (a : Action) (config : Value) : Run NodeResult := do
  let count ← countCall a.type
  let reply := a.run ⟨config, ← execution, count, services.running⟩
  for effect in reply.effects do
    perform effect
  return (← of reply.answer).toResult

/-- Runs the action of a type, if it is known and its parameters fit. -/
def act (services : Services) (type config : Value) : Run NodeResult := do
  let unknown := NodeResult.failure s!"Unknown action type: {type.text}"
  match type with
  | .str name =>
    match services.actions.get? name with
    | none => return unknown
    | some a =>
      let problems ← of (Action.parameterProblems a.schema config)
      let listed := "; ".intercalate problems
      if problems.isEmpty then call services a config
      else return .failure s!"Invalid parameters for action {name}: {listed}"
  | .scalar _ => return unknown
  | _ => throw .wrongType

end Run

end Flowline
