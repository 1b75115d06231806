import Flowline.Workflow.Basic

/-!
What is wrong with a workflow: nodes without an id or a type, ids that several nodes have, and
connections whose ends are no nodes. Cycles are allowed.
-/

namespace Flowline.Workflow

def nodeProblems (place : Nat) (n : Node) : List String :=
  (if n.id.isEmpty then [s!"Node at position {place} has no id"] else []) ++
    (if n.type.isEmpty then [s!"Node '{n.id}' has no type"] else [])

/-- The texts that occur more than once, each once. -/
def repeated : List String → List String
  | [] => []
  | s :: rest =>
    let others := repeated rest
    if rest.contains s && !others.contains s then s :: others else others

def repeatedIds (w : Workflow) : List String :=
  (repeated (w.nodes.map (·.id))).mergeSort fun a b => decide (a ≤ b)

def connectionProblems (ids : List String) (c : Connection) : List String :=
  (if ids.contains c.source then [] else [s!"Connection source '{c.source}' not found in nodes"]) ++
    (if ids.contains c.target then [] else [s!"Connection target '{c.target}' not found in nodes"])

/-- What is wrong with a workflow; nothing for one that may run. -/
def problems (w : Workflow) : List String :=
  let ids := w.nodes.map (·.id)
  let repeatedIds := w.repeatedIds
  (w.nodes.zipIdx.flatMap fun (n, place) => nodeProblems place n) ++
    (if repeatedIds.isEmpty then []
      else [s!"Duplicate node IDs found: {(Value.strings repeatedIds).quoted}"]) ++
    w.connections.flatMap (connectionProblems ids)

end Flowline.Workflow
