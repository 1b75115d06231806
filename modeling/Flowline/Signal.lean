import Flowline.Table
import Flowline.Value.Number

/-!
Signals: payloads that are kept for a node of an execution until the node takes them. A later payload
takes the place of an earlier one.
-/

namespace Flowline

abbrev Signals := Table (String × String) Value

namespace Signals

/-- Keeps a payload; one that is not present is an empty mapping. -/
def put (signals : Signals) (execution node : String) (payload : Value) : Signals :=
  Table.put signals (execution, node) (if payload.isPresent then payload else .map [])

/-- The payload for a node, and the signals without it. -/
def take (signals : Signals) (execution node : String) : Option Value × Signals :=
  (Table.get? signals (execution, node), Table.erase signals (execution, node))

end Signals

end Flowline
