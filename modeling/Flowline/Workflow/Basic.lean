import Flowline.Value.Convert

/-!
Workflows: nodes, the connections between them, and settings. A workflow starts at its entry nodes, or
where nothing leads if it has none.
-/

namespace Flowline

/-- A step of a workflow. What its configuration holds depends on its type. -/
structure Node where
  id : String
  type : String
  config : Value
  /-- The action that stands in for a type that is not known. -/
  actionType : Value
  name : Value
deriving Repr

/-- A way from one node to another, with a condition unless that is null. -/
structure Connection where
  source : String
  target : String
  condition : Value
  label : Value
deriving Repr

/-- Whether a workflow may run. -/
inductive WorkflowStatus
  | draft | active | paused | archived
deriving Repr, DecidableEq

/-- A workflow. -/
structure Workflow where
  id : String
  uuid : String
  name : Value
  description : Value
  status : WorkflowStatus
  triggers : Value
  nodes : List Node
  connections : List Connection
  /-- The first values of variables. -/
  vars : Value
  settings : List (Scalar × Value)
  version : Value
deriving Repr

namespace WorkflowStatus

def all : List WorkflowStatus := [draft, active, paused, archived]

def text : WorkflowStatus → String
  | draft => "draft"
  | active => "active"
  | paused => "paused"
  | archived => "archived"

def ofText? (s : String) : Option WorkflowStatus := all.find? (·.text == s)

def ofValue : Value → Except Fault WorkflowStatus
  | .str s => match ofText? s with | some status => .ok status | none => .error .badValue
  | _ => .error .badValue

end WorkflowStatus

def Node.isMerge (n : Node) : Bool := n.type == "merge"

def Node.isEntry (n : Node) : Bool := n.type == "start" || n.type == "trigger"

namespace Workflow

def standardSettings : List (Scalar × Value) := [
  (.str "max_executions_per_hour", .int 1000),
  (.str "timeout_seconds", .int 300),
  (.str "retry_on_failure", .bool true),
  (.str "max_retries", .int 3),
  (.str "retry_delay_seconds", .int 60),
  (.str "log_level", .str "info"),
  (.str "notification_on_failure", .bool true),
  (.str "notification_email", .str ""),
  (.str "parallel_execution", .bool true),
  (.str "max_parallel_branches", .int 5)]

def isActive (w : Workflow) : Bool := w.status == .active

/-- The setting under a key, or a standard value where no setting is known by it. -/
def settingOr (w : Workflow) (key : Scalar) (standard : Value) : Value :=
  (Entries.get? w.settings key).getD ((Entries.get? standardSettings key).getD standard)

def setting (w : Workflow) (key : String) : Value := w.settingOr (.str key) .null

def node? (w : Workflow) (id : String) : Option Node := w.nodes.find? (·.id == id)

def nodeOf? (w : Workflow) : Value → Option Node
  | .str id => w.node? id
  | _ => none

def leaving (w : Workflow) (id : String) : List Connection := w.connections.filter (·.source == id)

def entering (w : Workflow) (id : String) : List Connection := w.connections.filter (·.target == id)

/-- The nodes where the workflow starts: its entries, or the nodes that no connection enters. -/
def startNodes (w : Workflow) : List Node :=
  let entries := w.nodes.filter Node.isEntry
  if entries.isEmpty then w.nodes.filter fun n => !w.connections.any (·.target == n.id)
  else entries

/-- The name, or the id where the workflow has none. -/
def title (w : Workflow) : String := (w.name.orElse (.str w.id)).text

end Workflow

end Flowline
