import Flowline.Config
import Flowline.Notification
import Flowline.RateLimiter
import Flowline.Schedule
import Flowline.Session
import Flowline.Store.Memory
import Flowline.Walk

/-!
An engine: the workflows and executions that are kept, the jobs that wait, and what was published. `Work`
is a computation of an engine that may fail; what it has done before it fails stays done.
-/

namespace Flowline

/-- What becomes of an execution. -/
inductive EventKind
  | started | completed | failed | paused | resumed | cancelled
deriving Repr, DecidableEq

def EventKind.text : EventKind → String
  | started => "workflow_started"
  | completed => "workflow_completed"
  | failed => "workflow_failed"
  | paused => "workflow_paused"
  | resumed => "workflow_resumed"
  | cancelled => "workflow_cancelled"

/-- An event in the life of an execution. -/
structure Event where
  kind : EventKind
  executionId : String
  workflowId : String
  /-- The node from which an execution goes on. -/
  node? : Option String
  status : ExecutionStatus
  error? : Option String
deriving Repr, DecidableEq

/-- A walk that was made for an execution. -/
structure Passage where
  workflow : Workflow
  /-- The execution as it was when the walk began. -/
  before : Execution
  /-- The nodes from which the walk went on. -/
  starts : List Node
  /-- The execution as it was when the walk was over. -/
  after : Execution
  result : Except Fault Walk
  /-- When the walk was over. -/
  ended : Moment

/-- What an application gives to an engine. -/
structure Setup where
  config : Config
  actions : Actions
  /-- Types of nodes that are served by an action each. -/
  actionTypes : List String
  /-- Sends a notification, unless there is nothing that can. -/
  notify? : Option (Notification → Except Fault Unit)
  /-- There is someone to publish events to. -/
  publishes : Bool
  /-- Why no jobs can be scheduled, where that is so. -/
  refusal? : Option Fault
  /-- The random share that is added to waits before retries. -/
  share : Float

/-- An engine. -/
structure Engine where
  memory : Memory
  schedule : Schedule Float Value
  limiter : RateLimiter Float
  signals : Signals
  /-- The executions that are running. -/
  running : List String
  /-- How often actions were called, by type. -/
  calls : Table String Nat
  now : Moment
  /-- What the clock for timeouts shows next, and how far it moves between two readings. -/
  stopwatch : Float
  tick : Float
  /-- What was published, the first event first. -/
  events : List Event
  /-- The notifications that were sent, the first one first. -/
  notifications : List Notification
  /-- The walks that were made, the first one first. -/
  journal : List Passage
  /-- How many executions were ever started. -/
  started : Nat

abbrev Work := ExceptT Fault (StateM Engine)

/-- What the nodes of an engine can use, while some executions are running. -/
def Setup.services (setup : Setup) (running : Nat) : Services where
  actions := setup.actions
  actionTypes := setup.actionTypes
  waitTimeout := setup.config.waitTimeout
  running := running

namespace Engine

def new (config : Config) (now : Moment) (tick : Float) : Engine where
  memory := .empty
  schedule := .empty
  limiter := .ofLength (Float.ofInt config.rateWindow)
  signals := []
  running := []
  calls := []
  now := now
  stopwatch := 0
  tick := tick
  events := []
  notifications := []
  journal := []
  started := 0

/-- The session of an execution that a walk begins. -/
def session (g : Engine) (e : Execution) : Session where
  execution := { e with trail := [], runs := [] }
  now := g.now
  signals := g.signals
  calls := g.calls
  stopwatch := g.stopwatch
  tick := g.tick

def afterSession (g : Engine) (s : Session) : Engine :=
  { g with now := s.now, signals := s.signals, calls := s.calls, stopwatch := s.stopwatch }

def record (g : Engine) (p : Passage) : Engine := { g with journal := g.journal ++ [p] }

end Engine

namespace Work

def of {α : Type} (r : Except Fault α) : Work α := ExceptT.mk (pure r)

/-- The result of a computation, a fault being one. -/
def attempt {α : Type} (work : Work α) : Work (Except Fault α) :=
  ExceptT.mk (do return .ok (← work.run))

def now : Work Moment := do return (← get).now

def save (e : Execution) : Work Unit :=
  modify fun g => { g with memory := g.memory.saveExecution e }

def publishAt (setup : Setup) (kind : EventKind) (e : Execution) (node? : Option String) : Work Unit :=
  if setup.publishes then
    let event : Event := ⟨kind, e.id, e.workflowId, node?, e.status, e.error?⟩
    modify fun g => { g with events := g.events ++ [event] }
  else pure ()

/-- Keeps an execution, and publishes what became of it. -/
def settle (setup : Setup) (kind : EventKind) (e : Execution) : Work Execution := do
  save e
  publishAt setup kind e none
  return e

def enter (id : String) : Work Unit :=
  modify fun g => { g with running := if g.running.contains id then g.running else g.running ++ [id] }

def leave (id : String) : Work Unit :=
  modify fun g => { g with running := g.running.filter (· != id) }

def schedule (setup : Setup) (runAt payload : Value) : Work String := do
  match setup.refusal? with
  | some fault => throw fault
  | none =>
    let time ← of runAt.asFloat
    let g ← get
    let (job, schedule) := g.schedule.add time payload
    set { g with schedule := schedule }
    return job.id

end Work

end Flowline
