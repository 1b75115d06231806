import Flowline.Engine.Segment

/-!
The operations of an engine: to run a workflow, to resume an execution at a node, to deliver a signal, to
cancel an execution, and to run the jobs that are due.
-/

namespace Flowline.Work

/-! ## Running -/

/-- Counts an execution of a workflow, unless as many as it allows were started. -/
def countStart (w : Workflow) : Work Unit := do
  let limit ← of (w.setting "max_executions_per_hour").asInt
  let g ← get
  let (admitted, limiter) := g.limiter.acquire g.now.timestamp w.id limit
  set { g with limiter := limiter }
  if !admitted then throw (.rateLimited w.id (toString limit))

def newExecution (w : Workflow) (trigger context : Value) : Work Execution := do
  let trigger ← of (trigger.orElse (.map [])).asEntries
  let context ← of (context.orElse (.map [])).asEntries
  let vars ← of w.vars.mapping
  let g ← get
  return { Execution.start s!"exec-{g.started + 1}" g.now with
    workflowId := w.id
    workflowUuid := w.uuid
    status := .running
    triggerType := (Entries.get? context (.str "trigger_type")).getD (.str "manual")
    trigger := trigger
    context := context
    vars := Entries.insertAll vars trigger
    logLevel := (w.settingOr (.str "log_level") (.str "info")).text }

def start (setup : Setup) (w : Workflow) (trigger context : Value) : Work Execution := do
  if !w.isActive then throw (.workflowInactive w.id w.status.text)
  countStart w
  let e ← newExecution w trigger context
  let e := e.note "info" "Workflow execution started" [("trigger_type", e.triggerType)]
  modify fun g => { g with started := g.started + 1 }
  enter e.id
  save e
  publishAt setup .started e none
  return e

/-- Runs an active workflow until its execution ends or waits. -/
def execute (setup : Setup) (w : Workflow) (trigger context : Value) : Work Execution := do
  let e ← start setup w trigger context
  runSegment setup w e w.startNodes

def workflow? (id : String) : Work (Option Workflow) := do return (← get).memory.workflow? id

def executeById (setup : Setup) (id : String) (trigger context : Value) : Work Execution := do
  match ← workflow? id with
  | some w => execute setup w trigger context
  | none => throw (.workflowNotFound id)

/-! ## Resuming -/

/-- Ends an execution that cannot be resumed, as its workflow or a node of it is gone. -/
def failResume (setup : Setup) (e : Execution) (node reason : String) : Work Execution := do
  let time ← now
  let failed := { e with status := .failed, error? := some reason, completedAt? := some time }
  settle setup .failed
    (failed.note "error" "Resume failed" [("error", .str reason), ("node_id", .str node)])

/-- Sets an execution going again at a node of its workflow, or at the parallel node that waits for it; the
result has the node where it goes on. -/
def reopen (setup : Setup) (w : Workflow) (e : Execution) (n : Node) : Work (Execution × Node) := do
  let owner? ← of (waitingOwner? e n.id w.nodes)
  let level := (w.settingOr (.str "log_level") (.str "info")).text
  let e := { e with logLevel := level, status := .running }.note "info"
    "Workflow execution resumed" [("node_id", .str n.id)]
  enter e.id
  publishAt setup .resumed e (some n.id)
  return (e, owner?.getD n)

/-- Resumes an execution at a node of its workflow. -/
def resumeAt (setup : Setup) (w : Workflow) (e : Execution) (n : Node) : Work Execution := do
  let (e, start) ← reopen setup w e n
  runSegment setup w e [start]

/-- Resumes an execution as it was loaded. One that is not suspended, or whose node does not wait, is left
alone. -/
def resumeLoaded (setup : Setup) (e : Execution) (node : String) : Work (Option Execution) := do
  if !e.status.isResumable || !e.isWaiting node then return none
  match ← workflow? e.workflowId with
  | none => return some (← failResume setup e node s!"Workflow not found: {e.workflowId}")
  | some w =>
    match w.node? node with
    | none => return some (← failResume setup e node s!"Node not found: {node}")
    | some n => return some (← resumeAt setup w e n)

def execution? (id : String) : Work (Option Execution) := do return (← get).memory.execution? id

def resume (setup : Setup) (id node : String) : Work (Option Execution) := do
  match ← execution? id with
  | none => return none
  | some e => resumeLoaded setup e node

/-- Keeps a signal for a node, and resumes the execution there. -/
def deliverSignal (setup : Setup) (id node : String) (payload : Value) : Work (Option Execution) := do
  modify fun g => { g with signals := g.signals.put id node payload }
  resume setup id node

/-! ## Cancelling and cleaning up -/

/-- Cancels an execution that is not over; the result says whether there was one. -/
def cancel (setup : Setup) (id : String) : Work Bool := do
  match ← execution? id with
  | none => return false
  | some e =>
    if e.status.isTerminal then return false
    let _ ← endCancelled setup { e with status := .cancelled }
    return true

/-- Deletes executions that are over and started more than some days ago; the result says how many. -/
def cleanUp (setup : Setup) (today : Moment) (days? : Option Int) : Work Nat := do
  let cutoff ← of (today.daysBefore (days?.getD setup.config.retentionDays))
  let g ← get
  let (count, memory) := g.memory.deleteOld cutoff
  set { g with memory := memory }
  return count

/-! ## Jobs -/

/-- A value as an id; nothing is found by one that is no text. -/
def asId? : Value → Except Fault (Option String)
  | .str id => .ok (some id)
  | .scalar _ => .ok none
  | _ => .error .wrongType

def requiredEntry (payload : List (Scalar × Value)) (key : String) : Except Fault Value :=
  match Entries.get? payload (.str key) with
  | some v => .ok v
  | none => .error .missingKey

def runResumeJob (setup : Setup) (payload : List (Scalar × Value)) : Work (Option Execution) := do
  let id ← of (requiredEntry payload "execution_id")
  let node ← of (requiredEntry payload "node_id")
  match ← of (asId? id) with
  | none => return none
  | some id =>
    match ← execution? id with
    | none => return none
    | some e =>
      if !e.status.isResumable then return none
      match ← of (asId? node) with
      | none => return none
      | some node => resumeLoaded setup e node

def runExecuteJob (setup : Setup) (payload : List (Scalar × Value)) : Work (Option Execution) := do
  let id ← of (requiredEntry payload "workflow_id")
  let part (key : String) : Value := (Entries.get? payload (.str key)).getD .null
  match ← of (asId? id) with
  | some id => return some (← executeById setup id (part "trigger_data") (part "context"))
  | none => throw (.workflowNotFound id.text)

def runJob (setup : Setup) (payload : Value) : Work (Option Execution) := do
  match payload with
  | .map entries =>
    match Entries.get? entries (.str "action") with
    | some (.str "resume_execution") => runResumeJob setup entries
    | some (.str "execute_workflow") => runExecuteJob setup entries
    | _ => return none
  | _ => throw .noMember

/-- Runs the jobs that are due at a time; what fails in one of them does not keep the others from
running. The result is their number. -/
def runDue (setup : Setup) (time : Float) : Work Nat := do
  let deliver (g : Engine) (job : Job Float Value) : Engine :=
    ((runJob setup job.payload).run.run g).2
  let (count, g) := Schedule.runDue Engine.schedule (fun g s => { g with schedule := s }) deliver time
    (← get)
  set g
  return count

end Flowline.Work
