import Flowline.Engine.Basic
import Flowline.Time.Dated

/-!
Suspended executions: each node that waits gets a job that resumes the execution there. A merge is moved on
by the nodes before it and gets none, unless it has a time. A branch is resumed by its parallel node.
-/

namespace Flowline.Work

/-- The payload of a job that resumes an execution at a node. -/
def resumePayload (e : Execution) (id : String) : Value :=
  .object [
    ("action", .str "resume_execution"),
    ("execution_id", .str e.id),
    ("node_id", .str id)]

/-- Schedules the execution to be resumed at a node at a time. -/
def scheduleResumeAt (setup : Setup) (e : Execution) (id : String) (time : Value) :
    Work Execution := do
  let job ← schedule setup time (resumePayload e id)
  return (e.growOutput id "resume_job_id" (.str job)).note "info" "Resume scheduled"
    [("node_id", .str id), ("resume_at", time), ("job_id", .str job)]

/-- The time at which a node is tried again that gives none itself. -/
def pollTime (setup : Setup) : Work Value := do
  let time ← of ((← now).addSeconds (.int setup.config.resumePoll))
  return .float time.timestamp

/-- Schedules the execution to be resumed at a node that waits. A node that did not come to wait just now
has a job already where it has the name of one. -/
def scheduleResume (setup : Setup) (w : Workflow) (suspended : List String) (e : Execution)
    (id : String) : Work Execution := do
  match e.state? id with
  | none => return e
  | some s =>
    if s.status != .waiting then return e
    if !suspended.contains id && (s.output.entry "resume_job_id").isPresent then return e
    match s.output.entry "resume_at" with
    | .null =>
      if (w.node? id).any Node.isMerge then return e
      let time ← pollTime setup
      scheduleResumeAt setup (e.growOutput id "resume_at" time) id time
    | time => scheduleResumeAt setup e id time

/-- Schedules the execution to be resumed at the nodes that came to wait just now, and at those that
waited before. -/
def scheduleResumes (setup : Setup) (w : Workflow) (suspended : List String) (e : Execution) :
    Work Execution :=
  let others := e.pendingResumes.keys.filter (!suspended.contains ·)
  (suspended ++ others).foldlM (scheduleResume setup w suspended) e

/-- A value that lists branches has one with an id. -/
def listsBranch (id : String) : Value → Except Fault Bool
  | .list items => .ok (items.any (·.same (.str id)))
  | .map entries => .ok (Entries.contains entries (.str id))
  | .str s => .ok (Text.contains s id)
  | .set items => .ok (items.any (·.same (.str id)))
  | _ => .error .wrongType

/-- A node is a parallel node that waits and has a branch with an id. -/
def isWaitingOwner (e : Execution) (id : String) (n : Node) : Except Fault Bool := do
  if n.type != "parallel" then return false
  let branches := (← n.config.entry "branches").orElse (.list [])
  return (← listsBranch id branches) && e.isWaiting n.id

def waitingOwner? (e : Execution) (id : String) : List Node → Except Fault (Option Node)
  | [] => .ok none
  | n :: rest => do
    if ← isWaitingOwner e id n then return some n
    else waitingOwner? e id rest

end Flowline.Work
