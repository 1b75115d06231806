import Flowline.Workflow.Basic

/-!
Workflows as values: the definition that a workflow is read from, and the record that it is written as.
A definition may leave out most entries, and name the ends of connections in two ways.
-/

namespace Flowline

def Node.ofValue (v : Value) : Except Fault Node := do
  let id ← v.entryOr "id" (.str "")
  let type ← v.entryOr "type" (.str "")
  return {
    id := ← id.written
    type := ← type.written
    config := (← v.entry "config").orElse (.map [])
    actionType := ← v.entry "action_type"
    name := ← v.entry "name" }

def presentEntry (key : String) (v : Value) : List (String × Value) :=
  if v.isPresent then [(key, v)] else []

def Node.toValue (n : Node) : Value :=
  .object ([("id", .str n.id), ("type", .str n.type), ("config", n.config)] ++
    presentEntry "action_type" n.actionType ++ presentEntry "name" n.name)

/-- A condition that is left out: null, or an empty text, list or mapping. -/
def Connection.isNoCondition : Value → Bool
  | .null => true
  | .str s => s == ""
  | .list items => items.isEmpty
  | .map entries => entries.isEmpty
  | _ => false

def Connection.ofValue (v : Value) : Except Fault Connection := do
  let source ← v.entryOr "source" (← v.entryOr "from" (.str ""))
  let target ← v.entryOr "target" (← v.entryOr "to" (.str ""))
  let condition ← v.entry "condition"
  return {
    source := ← source.written
    target := ← target.written
    condition := if isNoCondition condition then .null else condition
    label := ← v.entry "label" }

def Connection.toValue (c : Connection) : Value :=
  .object ([("source", .str c.source), ("target", .str c.target)] ++
    (if c.condition.isNull then [] else [("condition", c.condition)]) ++ presentEntry "label" c.label)

namespace Workflow

/-- The id in a definition; null and the empty text are none. -/
def idText? : Value → Except Fault (Option String)
  | .null => .ok none
  | .str s => .ok (if s == "" then none else some s)
  | v => do return some (← v.written)

/-- The workflow of a definition, with ids for one that has none. -/
def ofValue (v : Value) (newId newUuid : String) : Except Fault Workflow := do
  let connections ← v.entry "connections"
  let connections ← if connections.isNull then v.entryOr "edges" (.list []) else pure connections
  let nodes ← (← (← v.entry "nodes").iterateOrNone).mapM Node.ofValue
  let connections ← (← connections.iterateOrNone).mapM Connection.ofValue
  let id? ← idText? (← v.entry "id")
  let uuid ← v.entry "uuid"
  let uuidText ← uuid.written
  let status ← WorkflowStatus.ofValue (← v.entryOr "status" (.str "draft"))
  let settings ← ((← v.entry "settings").orElse (.map [])).mapping
  return {
    id := id?.getD newId
    uuid := if uuid.isPresent then uuidText else newUuid
    name := ← v.entryOr "name" (.str "")
    description := ← v.entry "description"
    status := status
    triggers := (← v.entry "triggers").orElse (.list [])
    nodes := nodes
    connections := connections
    vars := (← v.entry "variables").orElse (.map [])
    settings := Entries.insertAll standardSettings settings
    version := ← v.entryOr "version" (.int 1) }

def toValue (w : Workflow) : Value :=
  .object ([
    ("id", .str w.id),
    ("uuid", .str w.uuid),
    ("name", w.name),
    ("status", .str w.status.text),
    ("triggers", w.triggers),
    ("nodes", .list (w.nodes.map Node.toValue)),
    ("connections", .list (w.connections.map Connection.toValue)),
    ("variables", w.vars),
    ("settings", .map w.settings),
    ("version", w.version)] ++ presentEntry "description" w.description)

end Workflow

end Flowline
