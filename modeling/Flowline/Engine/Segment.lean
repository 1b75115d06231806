import Flowline.Engine.Failure
import Flowline.Engine.Suspension
import Flowline.Node.Dispatch

/-!
A segment of an execution: a walk from some nodes on until everything is done, waits or has failed. It ends
with the execution cancelled, failed, paused or completed, which is kept and published.
-/

namespace Flowline.Work

/-- Ends a segment of an execution that was cancelled. -/
def endCancelled (setup : Setup) (e : Execution) : Work Execution := do
  let time ← now
  settle setup .cancelled
    ({ e with completedAt? := some time }.note "info" "Workflow execution cancelled" [])

def endFailed (setup : Setup) (w : Workflow) (e : Execution) (fault : Fault) : Work Execution := do
  let time ← now
  let failed := { e with
    status := .failed, error? := some fault.message, completedAt? := some time }
  let e ← handleFailure setup w
    (failed.note "error" "Workflow execution failed" [("error", .str fault.message)])
  settle setup .failed e

/-- Ends a segment of an execution of which some nodes wait. -/
def endPaused (setup : Setup) (e : Execution) : Work Execution :=
  let waiting := e.pendingResumes.keys.mergeSort fun a b => decide (a ≤ b)
  settle setup .paused ({ e with status := .paused }.note "info" "Workflow execution paused"
    [("waiting_nodes", Value.strings waiting)])

def endCompleted (setup : Setup) (e : Execution) : Work Execution := do
  let time ← now
  settle setup .completed
    ({ e with status := .completed, completedAt? := some time }.note "info"
      "Workflow execution completed" [("execution_time_ms", .int e.elapsed)])

def conclude (setup : Setup) (w : Workflow) (e : Execution) (r : Except Fault Walk) :
    Work Execution := do
  if e.status == .cancelled then endCancelled setup e
  else
    match r with
    | .error fault => endFailed setup w e fault
    | .ok walk =>
      let e ← scheduleResumes setup w walk.suspended.keys e
      if e.pendingResumes.isEmpty then endCompleted setup e else endPaused setup e

/-- Walks over a workflow from some nodes on, and writes the walk into the journal. -/
def walk (setup : Setup) (w : Workflow) (e : Execution) (starts : List Node) : Work Passage := do
  let g ← get
  let services := setup.services g.running.length
  let dispatch := Node.dispatch services w (Node.nestingLimit w)
  let (r, s) := (Walk.run dispatch w setup.config.maxIterations starts).run.run (g.session e)
  let p : Passage := ⟨w, e, starts, s.execution, r, s.now⟩
  set ((g.afterSession s).record p)
  return p

/-- Runs a segment of an execution that counts as running. -/
def runSegment (setup : Setup) (w : Workflow) (e : Execution) (starts : List Node) :
    Work Execution := do
  let p ← walk setup w e starts
  let ended ← attempt (conclude setup w p.after p.result)
  leave p.after.id
  of ended

end Flowline.Work
