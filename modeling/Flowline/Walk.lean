import Flowline.Session
import Flowline.Workflow.Basic

/-!
The walk over the nodes of a workflow, from some nodes on. Nodes wait in a queue; what they lead to comes
to its end, or to its front where a node names the next one itself. A node that was run is not run again
in the same walk unless it is a merge. The walk knows nothing of what nodes do: running one is a parameter.
-/

namespace Flowline

/-- How far a walk has come. -/
structure Walk where
  /-- The nodes that were run, the last one first. -/
  visited : List String
  /-- The nodes that wait, with their results. -/
  suspended : Table String NodeResult
  cancelled : Bool

namespace Walk

def start : Walk := ⟨[], [], false⟩

def skips (walk : Walk) (n : Node) : Bool := walk.visited.contains n.id && !n.isMerge

def record (walk : Walk) (n : Node) (r : NodeResult) : Walk where
  visited := n.id :: walk.visited
  suspended := if r.isWaiting then walk.suspended.put n.id r else walk.suspended.erase n.id
  cancelled := walk.cancelled

def passes (c : Connection) : Run Bool :=
  if c.condition.isNull then return true else Run.check c.condition

/-- The nodes that the connections which can be taken lead to. -/
def targets (w : Workflow) : List Connection → Run (List Node)
  | [] => return []
  | c :: rest => do
    let here := if ← passes c then (w.node? c.target).toList else []
    return here ++ (← targets w rest)

def jump (w : Workflow) (n : Node) (r : NodeResult) : Run (List Node) := do
  if !r.next.isPresent then return []
  match w.nodeOf? r.next with
  | some target => return [target]
  | none =>
    Run.note "warning" s!"Next node not found: {r.next.text}" [("node_id", .str n.id)]
    return []

def follow (w : Workflow) (n : Node) (r : NodeResult) (queue : List Node) : Run (List Node) := do
  if r.isWaiting then return queue
  let next ← targets w (w.leaving n.id)
  return (← jump w n r) ++ queue ++ next

def failureReason (r : NodeResult) : String :=
  match r.error? with
  | some "" => "Unknown error"
  | some reason => reason
  | none => "Unknown error"

/-- The limits of a walk. -/
structure Limits where
  /-- How many nodes are taken from the queue at most. -/
  iterations : Int
  /-- Seconds. -/
  timeout : Float

/-- Runs a node, and records its state. A node that fails ends the walk. -/
def visit (dispatch : Node → Run NodeResult) (n : Node) : Run NodeResult := do
  Run.modifyExecution (·.visit n.id)
  let r ← dispatch n
  Run.modifyExecution (·.setState n.id r.status r.output)
  if r.isFailed then throw (.nodeFailed n.id (failureReason r))
  return r

def checkTime (limits : Limits) (begun : Float) : Run Unit := do
  let elapsed := (← Run.readStopwatch) - begun
  if limits.timeout < elapsed then throw (.timedOut (Double.text limits.timeout))

/-- Walks on, with a number of nodes that can be taken from the queue still. -/
def go (dispatch : Node → Run NodeResult) (w : Workflow) (limits : Limits) (begun : Float) :
    Nat → Walk → List Node → Run Walk
  | _, walk, [] => return walk
  | 0, _, _ :: _ => throw (.tooManyIterations (toString limits.iterations))
  | left + 1, walk, n :: rest => do
    if walk.skips n then go dispatch w limits begun left walk rest
    else if (← Run.execution).status == .cancelled then return { walk with cancelled := true }
    else
      checkTime limits begun
      let r ← visit dispatch n
      go dispatch w limits begun left (walk.record n r) (← follow w n r rest)

def run (dispatch : Node → Run NodeResult) (w : Workflow) (iterations : Int) (starts : List Node) :
    Run Walk := do
  let timeout ← Run.of (w.setting "timeout_seconds").asFloat
  let begun ← Run.readStopwatch
  go dispatch w ⟨iterations, timeout⟩ begun iterations.toNat start starts

end Walk

end Flowline
