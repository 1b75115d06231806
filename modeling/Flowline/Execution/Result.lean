import Flowline.Execution.Output

/-!
What a node gives back: a status, an output, perhaps the node to go to next, and the results of branches
that ran inside it.
-/

namespace Flowline

/-- Where a node of an execution stands. -/
inductive NodeStatus
  | completed | failed | skipped | waiting
deriving Repr, DecidableEq

namespace NodeStatus

def all : List NodeStatus := [completed, failed, skipped, waiting]

def text : NodeStatus → String
  | completed => "completed"
  | failed => "failed"
  | skipped => "skipped"
  | waiting => "waiting"

def ofText? (s : String) : Option NodeStatus := all.find? (·.text == s)

def ofValue : Value → Except Fault NodeStatus
  | .str s => match ofText? s with | some status => .ok status | none => .error .badValue
  | _ => .error .badValue

end NodeStatus

/-- The result of a node. -/
structure NodeResult where
  status : NodeStatus
  output : Output
  error? : Option String
  /-- The node to go to next; null for none. -/
  next : Value
  /-- The records of the results of branches. -/
  branches : List (Scalar × Value)
deriving Repr

namespace NodeResult

def ok (output : Output) (next : Value) : NodeResult :=
  ⟨.completed, output.orEmpty, none, next, []⟩

/-- A completed node with an output that stays as it is. -/
def okValue (output : Value) : NodeResult := ok (.fixed output) .null

/-- A completed node with an output of named entries. -/
def okObject (entries : List (String × Value)) : NodeResult := okValue (.object entries)

def failureWith (error? : Option String) (output : Output) : NodeResult :=
  ⟨.failed, output.orEmpty, error?, .null, []⟩

def failure (error : String) : NodeResult := failureWith (some error) .empty

def skipped (reason : Value) : NodeResult :=
  ⟨.skipped, .fixed (.object [("reason", reason)]), none, .null, []⟩

/-- A waiting node, with a time at which it is to be resumed unless that is null. -/
def waitingWith (reason resumeAt : Value) (extra : List (Scalar × Output)) : NodeResult :=
  let time : List (Scalar × Output) :=
    if resumeAt.isNull then [] else [(.str "resume_at", .fixed resumeAt)]
  ⟨.waiting, .ofEntries ((.str "reason", .fixed reason) :: extra ++ time), none, .null, []⟩

/-- A waiting node with a reason of its own and further entries. -/
def waiting (reason : String) (resumeAt : Value) (extra : List (String × Value)) : NodeResult :=
  waitingWith (.str reason) resumeAt (extra.map fun (k, v) => (.str k, .fixed v))

def isFailed (r : NodeResult) : Bool := r.status == .failed

def isWaiting (r : NodeResult) : Bool := r.status == .waiting

def isFinished (r : NodeResult) : Bool := !r.isFailed && !r.isWaiting

def toValue (r : NodeResult) : Value :=
  .object [
    ("success", .bool !r.isFailed),
    ("status", .str r.status.text),
    ("output", r.output.value),
    ("error", match r.error? with | some s => .str s | none => .null),
    ("next_node", r.next),
    ("branch_results", .map r.branches)]

end NodeResult

end Flowline
