import Flowline.Execution.Basic
import Flowline.Store.Page
import Flowline.Workflow.Basic

/-!
Workflows and executions that are kept in memory, in the order in which they came in. What is saved is a
copy: later changes do not show in it.
-/

namespace Flowline

/-- What comes back of an execution that was kept: all but the level of its log, with times that have an
offset. -/
def Execution.reloaded (e : Execution) : Execution :=
  { e with
    startedAt := e.startedAt.withOffset
    completedAt? := e.completedAt?.map Moment.withOffset
    logLevel := "debug" }

/-- Workflows and executions by id. -/
structure Memory where
  workflows : Table String Workflow
  executions : Table String Execution
deriving Repr

namespace Memory

def empty : Memory := ⟨[], []⟩

/-! ## Workflows -/

def saveWorkflow (m : Memory) (w : Workflow) : Memory :=
  { m with workflows := m.workflows.put w.id w }

def workflow? (m : Memory) (id : String) : Option Workflow := m.workflows.get? id

def listWorkflows (m : Memory) (status : Option String) (page : Page) : List Workflow :=
  page.ofList (m.workflows.values.filter fun w =>
    match status with
    | none => true
    | some text => w.status.text == text)

/-- Deletes a workflow, and says whether there was one. -/
def deleteWorkflow (m : Memory) (id : String) : Bool × Memory :=
  (m.workflows.contains id, { m with workflows := m.workflows.erase id })

/-! ## Executions -/

def saveExecution (m : Memory) (e : Execution) : Memory :=
  { m with executions := m.executions.put e.id e }

def execution? (m : Memory) (id : String) : Option Execution :=
  (m.executions.get? id).map Execution.reloaded

/-- An execution started no earlier than another one. -/
def isNotEarlier (a b : Execution) : Bool := decide (b.startedAt.micros ≤ a.startedAt.micros)

/-- The executions of a workflow, with a status or all, the latest first. -/
def listByWorkflow (m : Memory) (id : String) (status : Option String) (page : Page) :
    List Execution :=
  let found := (m.executions.values.map Execution.reloaded).filter fun e =>
    e.workflowId == id && (match status with
      | none => true
      | some text => e.status.text == text)
  page.ofList (found.mergeSort isNotEarlier)

def listByStatus (m : Memory) (status : String) (page : Page) : List Execution :=
  page.ofList ((m.executions.values.map Execution.reloaded).filter (·.status.text == status))

/-- Deletes an execution, and says whether there was one. -/
def deleteExecution (m : Memory) (id : String) : Bool × Memory :=
  (m.executions.contains id, { m with executions := m.executions.erase id })

/-- An execution is over, and started before a moment. -/
def isOld (cutoff : Moment) (e : Execution) : Bool :=
  e.status.isTerminal && decide (e.reloaded.startedAt.micros < cutoff.micros)

/-- Deletes the executions that are over and started before a moment, and says how many there were. -/
def deleteOld (m : Memory) (cutoff : Moment) : Nat × Memory :=
  ((m.executions.values.filter (isOld cutoff)).length,
    { m with executions := m.executions.filter fun (_, e) => !isOld cutoff e })

end Memory

end Flowline
