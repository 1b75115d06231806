import Flowline.Execution.Record
import Flowline.Json.Write
import Flowline.Store.Page
import Flowline.Workflow.Record

/-!
Workflows and executions in the tables of a database. A row has columns for what is searched, and columns
for JSON. Times are written as the clock shows them, without an offset, and read as universal time.
-/

namespace Flowline

/-- The row of a workflow. -/
structure WorkflowRow where
  uuid : String
  status : WorkflowStatus
  definition : Value
deriving Repr

/-- The row of an execution. Times have no offset. -/
structure ExecutionRow where
  status : ExecutionStatus
  startedAt : Moment
  completedAt? : Option Moment
  content : Execution
deriving Repr

/-- The workflow of a row: that of its definition, with what the other columns say. -/
def WorkflowRow.read (id : String) (row : WorkflowRow) : Except Fault Workflow := do
  let columns : List (Scalar × Value) :=
    [(.str "id", .str id), (.str "uuid", .str row.uuid), (.str "status", .str row.status.text)]
  Workflow.ofValue (.map (Entries.insertAll (← row.definition.mapping) columns)) id row.uuid

/-- The execution of a row. A kind of trigger is kept as a text; an empty one is the standard one. -/
def ExecutionRow.read (row : ExecutionRow) : Execution :=
  let kind := match row.content.triggerType with
    | .null => "manual"
    | .bool b => if b then "1" else "0"
    | v => if v.text.isEmpty then "manual" else v.text
  { row.content with
    status := row.status
    triggerType := .str kind
    states := row.content.states.map fun (id, s) => (id, { s with output := .fixed s.output.value })
    startedAt := row.startedAt.withOffset
    completedAt? := row.completedAt?.map Moment.withOffset
    logLevel := "debug"
    nextNumber := 0 }

/-- The tables of a database. It takes no requests until it is opened. -/
structure Database where
  isOpen : Bool
  workflows : Table String WorkflowRow
  executions : Table String ExecutionRow
deriving Repr

namespace Database

def closed : Database := ⟨false, [], []⟩

def opened : Database := { closed with isOpen := true }

def check (d : Database) : Except Fault Unit :=
  if d.isOpen then .ok () else .error (.persistence "Database manager is not initialized")

def refusal : Fault := .persistence "Database operation failed"

def checkJson (v : Value) : Except Fault Unit :=
  match Json.render .spaced v with
  | .ok _ => .ok ()
  | .error _ => .error refusal

/-- Checks that a value fits into a column for texts and numbers. -/
def checkColumn : Value → Except Fault Unit
  | .scalar (.int n) => if -(twoTo 63) ≤ n ∧ n < twoTo 63 then .ok () else .error .overflow
  | .scalar _ => .ok ()
  | _ => .error refusal

/-- Checks that a database can count up to where a page starts and to what it holds. -/
def checkPage (p : Page) : Except Fault Unit := do
  checkColumn (.int p.offset)
  checkColumn (.int p.limit)

def statusOf (text : String) : Except Fault ExecutionStatus := ExecutionStatus.ofValue (.str text)

/-! ## Workflows -/

def checkWorkflow (w : Workflow) : Except Fault Unit := do
  if w.name.isNull then throw refusal
  checkJson w.toValue
  checkColumn w.name
  checkColumn w.description
  checkColumn w.version

def saveWorkflow (d : Database) (w : Workflow) : Except Fault Database := do
  d.check
  checkWorkflow w
  return { d with workflows := d.workflows.put w.id ⟨w.uuid, w.status, w.toValue⟩ }

def workflow? (d : Database) (id : String) : Except Fault (Option Workflow) := do
  d.check
  match d.workflows.get? id with
  | none => return none
  | some row => return some (← WorkflowRow.read id row)

/-- The workflows with a status, or all, in the order of their ids. -/
def listWorkflows (d : Database) (status : Option String) (page : Page) :
    Except Fault (List Workflow) := do
  d.check
  let wanted ← status.mapM fun text => WorkflowStatus.ofValue (.str text)
  checkPage page
  let found := d.workflows.filter fun (_, row) => wanted.all (row.status == ·)
  let ordered := found.mergeSort fun a b => decide (a.1 ≤ b.1)
  (page.ofRows ordered).mapM fun (id, row) => WorkflowRow.read id row

/-- Deletes a workflow, and says whether there was one. -/
def deleteWorkflow (d : Database) (id : String) : Except Fault (Bool × Database) := do
  d.check
  return (d.workflows.contains id, { d with workflows := d.workflows.erase id })

/-! ## Executions -/

/-- A moment as it is written: without its offset. -/
def written (m : Moment) : Moment := { m with offset? := none }

def checkExecution (e : Execution) : Except Fault Unit := do
  checkJson (.map e.trigger)
  checkJson (.map e.context)
  checkJson (.map e.vars)
  checkJson (.list (e.states.map fun (_, s) => s.toValue))
  checkJson (.list (e.logs.map LogEntry.toValue))
  checkColumn e.triggerType
  checkColumn (.int e.elapsed)

def saveExecution (d : Database) (e : Execution) : Except Fault Database := do
  d.check
  checkExecution e
  let row : ExecutionRow := ⟨e.status, written e.startedAt, e.completedAt?.map written, e⟩
  return { d with executions := d.executions.put e.id row }

def execution? (d : Database) (id : String) : Except Fault (Option Execution) := do
  d.check
  return (d.executions.get? id).map ExecutionRow.read

def search (d : Database) (wanted : ExecutionRow → Bool) (before : ExecutionRow → ExecutionRow → Bool)
    (page : Page) : List Execution :=
  (page.ofRows ((d.executions.values.filter wanted).mergeSort before)).map ExecutionRow.read

def isNotLater (a b : ExecutionRow) : Bool :=
  decide (a.startedAt.clockMicros ≤ b.startedAt.clockMicros)

/-- The executions of a workflow, with a status or all, the latest first. -/
def listByWorkflow (d : Database) (id : String) (status : Option String) (page : Page) :
    Except Fault (List Execution) := do
  d.check
  let wanted ← status.mapM statusOf
  checkPage page
  return d.search (fun row => row.content.workflowId == id && wanted.all (row.status == ·))
    (fun a b => isNotLater b a) page

/-- The executions with a status, the earliest first. -/
def listByStatus (d : Database) (status : String) (page : Page) : Except Fault (List Execution) := do
  d.check
  let wanted ← statusOf status
  checkPage page
  return d.search (·.status == wanted) isNotLater page

/-- Deletes an execution, and says whether there was one. -/
def deleteExecution (d : Database) (id : String) : Except Fault (Bool × Database) := do
  d.check
  return (d.executions.contains id, { d with executions := d.executions.erase id })

/-- An execution is over, and its clock showed a time before that of a moment when it started. -/
def isOld (cutoff : Moment) (row : ExecutionRow) : Bool :=
  row.status.isTerminal && decide (row.startedAt.clockMicros < cutoff.clockMicros)

/-- Deletes the executions that are over and started before a moment, and says how many there were. -/
def deleteOld (d : Database) (cutoff : Moment) : Except Fault (Nat × Database) := do
  d.check
  return ((d.executions.values.filter (isOld cutoff)).length,
    { d with executions := d.executions.filter fun (_, row) => !isOld cutoff row })

end Database

end Flowline
