import Flowline.Engine.Basic
import Flowline.Retry

/-!
What is done about a failed execution: a notification is sent, and the workflow is scheduled to be run
again. Neither can fail itself; a retry that cannot be scheduled is logged.
-/

namespace Flowline.Work

/-- Sends a notification of a failed execution, if that is wanted and there is a way to send it. -/
def notifyFailure (setup : Setup) (w : Workflow) (e : Execution) : Work Unit := do
  if !(w.setting "notification_on_failure").isPresent then return
  match setup.notify? with
  | none => return
  | some send =>
    let n := Notification.ofFailure w e
    match send n with
    | .ok () => modify fun g => { g with notifications := g.notifications ++ [n] }
    | .error _ => return

/-- The payload of a job that runs the workflow of an execution again. -/
def retryPayload (w : Workflow) (e : Execution) (retries : Int) : Value :=
  .object [
    ("action", .str "execute_workflow"),
    ("workflow_id", .str w.id),
    ("trigger_data", .map e.trigger),
    ("context", .map (Entries.insert e.context (.str "retry_count") (.int retries)))]

/-- Schedules the workflow of a failed execution to be run again, as often as its policy allows. -/
def scheduleRetry (setup : Setup) (w : Workflow) (e : Execution) : Work Execution := do
  let policy ← of (RetryPolicy.ofSettings w.settings)
  let retries ← of e.retryCount
  if !policy.allows retries then
    return e.note "info" "Retry limit reached" [("retry_count", .int retries)]
  let delay ← of (policy.delay retries setup.share)
  let time := (← now).timestamp + delay
  let job ← schedule setup (.float time) (retryPayload w e (retries + 1))
  let shown := Double.text delay
  return e.note "info" s!"Retry scheduled in {shown} seconds"
    [("retry_count", .int (retries + 1)), ("job_id", .str job)]

def handleFailure (setup : Setup) (w : Workflow) (e : Execution) : Work Execution := do
  notifyFailure setup w e
  if !(w.setting "retry_on_failure").isPresent then return e
  match ← attempt (scheduleRetry setup w e) with
  | .ok e => return e
  | .error fault =>
    return e.note "error" "Retry scheduling failed" [("error", .str fault.message)]

end Flowline.Work
