import Flowline.Execution.Basic
import Flowline.Workflow.Basic

/-!
Notifications of failed executions: whom they go to, and what they say.
-/

namespace Flowline

/-- A message about a failed execution. -/
structure Notification where
  /-- The address in the settings of the workflow; null where there is none. -/
  recipient : Value
  subject : String
  body : String
deriving Repr

namespace Notification

/-- The notification of a failed execution of a workflow. -/
def ofFailure (w : Workflow) (e : Execution) : Notification where
  recipient := (w.setting "notification_email").orElse .null
  subject := s!"Workflow \"{w.title}\" failed"
  body :=
    let reason := match e.error? with
      | none => "Unknown error"
      | some "" => "Unknown error"
      | some reason => reason
    let time := (e.completedAt?.getD e.startedAt).isoText
    "Workflow execution failed.\n\n" ++ s!"Workflow: {w.title}\nExecution ID: {e.id}\n" ++
      s!"Error: {reason}\nTime: {time}"

def toValue (n : Notification) : Value :=
  .object [("recipient", n.recipient), ("subject", .str n.subject), ("body", .str n.body)]

end Notification

end Flowline
