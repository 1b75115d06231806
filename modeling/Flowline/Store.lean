import Flowline.Store.Database
import Flowline.Store.Memory

/-!
A store of workflows and executions: in memory, or in a database. Only a database can fail.
-/

namespace Flowline

/-- Where workflows and executions are kept. -/
inductive Store
  | memory (m : Memory)
  | database (d : Database)
deriving Repr

namespace Store

def saveWorkflow (w : Workflow) : Store → Except Fault Store
  | memory m => .ok (memory (m.saveWorkflow w))
  | database d => do return database (← d.saveWorkflow w)

def workflow? (id : String) : Store → Except Fault (Option Workflow)
  | memory m => .ok (m.workflow? id)
  | database d => d.workflow? id

def listWorkflows (status : Option String) (page : Page) : Store → Except Fault (List Workflow)
  | memory m => .ok (m.listWorkflows status page)
  | database d => d.listWorkflows status page

/-- Deletes a workflow, and says whether there was one. -/
def deleteWorkflow (id : String) : Store → Except Fault (Bool × Store)
  | memory m => .ok ((m.deleteWorkflow id).1, memory (m.deleteWorkflow id).2)
  | database d => do
    let (known, d) ← d.deleteWorkflow id
    return (known, database d)

def saveExecution (e : Execution) : Store → Except Fault Store
  | memory m => .ok (memory (m.saveExecution e))
  | database d => do return database (← d.saveExecution e)

def execution? (id : String) : Store → Except Fault (Option Execution)
  | memory m => .ok (m.execution? id)
  | database d => d.execution? id

/-- The executions of a workflow, with a status or all, the latest first. -/
def listByWorkflow (id : String) (status : Option String) (page : Page) :
    Store → Except Fault (List Execution)
  | memory m => .ok (m.listByWorkflow id status page)
  | database d => d.listByWorkflow id status page

def listByStatus (status : String) (page : Page) : Store → Except Fault (List Execution)
  | memory m => .ok (m.listByStatus status page)
  | database d => d.listByStatus status page

/-- Deletes an execution, and says whether there was one. -/
def deleteExecution (id : String) : Store → Except Fault (Bool × Store)
  | memory m => .ok ((m.deleteExecution id).1, memory (m.deleteExecution id).2)
  | database d => do
    let (known, d) ← d.deleteExecution id
    return (known, database d)

/-- Deletes the executions that are over and started some days before a moment or earlier, and says how
many there were. -/
def cleanUp (now : Moment) (days : Int) (s : Store) : Except Fault (Nat × Store) := do
  let cutoff ← now.daysBefore days
  match s with
  | memory m => return ((m.deleteOld cutoff).1, memory (m.deleteOld cutoff).2)
  | database d =>
    let (count, d) ← d.deleteOld cutoff
    return (count, database d)

end Store

end Flowline
