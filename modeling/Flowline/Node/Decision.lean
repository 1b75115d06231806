import Flowline.Session
import Flowline.Workflow.Basic

/-!
Nodes that only decide where to go on, or end with an output: entries, ends, conditions, switches, and
merges, which wait until all nodes they need are completed.
-/

namespace Flowline.Node

/-- The items of an entry of a configuration; none where it is not present. -/
def itemsOf (n : Node) (key : String) : Run (List Value) := do
  Run.of (← Run.of (n.config.entry key)).iterateOrNone

def runEntry : Run NodeResult := return .okObject [("message", .str "Workflow started")]

def runEnd (n : Node) : Run NodeResult := do
  let declared := (← Run.of (n.config.entry "output")).orElse (.map [])
  return .okValue (← Run.resolveDeep declared)

/-! ## Conditions -/

/-- The result for the first condition that holds. -/
def firstHolding : List Value → Run (Option NodeResult)
  | [] => return none
  | condition :: rest => do
    if ← Run.check (← Run.of (condition.entryOr "expression" (.str "false"))) then
      let label := (← Run.of (condition.entry "label")).orElse (.str "true")
      let next ← Run.of (condition.entry "next_node")
      return some (.ok (.fixed (.object [("matched_condition", label)])) next)
    else firstHolding rest

/-- Goes where the first condition that holds says. -/
def runCondition (n : Node) : Run NodeResult := do
  match ← firstHolding (← n.itemsOf "conditions") with
  | some r => return r
  | none =>
    let next ← Run.of (n.config.entry "default_next")
    return .ok (.fixed (.object [("matched_condition", .str "default")])) next

/-! ## Switches -/

/-- The result for the first case that has a value. -/
def firstMatching (value : Value) : List Value → Run (Option NodeResult)
  | [] => return none
  | case :: rest => do
    let candidate ← Run.of (case.entry "value")
    if Value.strictEquals candidate value then
      let next ← Run.of (case.entry "next_node")
      return some (.ok (.fixed (.object [("matched_case", candidate)])) next)
    else firstMatching value rest

/-- Goes where the first case with the value says. -/
def runSwitch (n : Node) : Run NodeResult := do
  let value ← Run.resolve (← Run.of (n.config.entryOr "value" (.str "")))
  match ← firstMatching value (← n.itemsOf "cases") with
  | some r => return r
  | none =>
    let next ← Run.of (n.config.entry "default_next")
    return .ok (.fixed (.object [("matched_case", .str "default")])) next

/-! ## Merges -/

def stateOf? (e : Execution) (id : Value) : Except Fault (Option NodeState) := do
  match ← id.toKey with
  | .str id => return e.state? id
  | _ => return none

def isCompletedIn (e : Execution) (id : Value) : Except Fault Bool := do
  return ((← stateOf? e id).map (·.status)) == some .completed

def firstMissing? (e : Execution) : List Value → Except Fault (Option Value)
  | [] => .ok none
  | id :: rest => do if ← isCompletedIn e id then firstMissing? e rest else return some id

def mergedOutputs (e : Execution) : List Value → Except Fault (Table Scalar Output)
  | [] => .ok []
  | id :: rest => do
    let output := ((← stateOf? e id).map (·.output)).getD .empty
    return (← id.toKey, output) :: (← mergedOutputs e rest)

def distinctOutputs (entries : List (Scalar × Output)) : List (Scalar × Output) :=
  Entries.insertAll [] entries

/-- Waits for the first node that is missing; when none is, gives their outputs together. -/
def runMerge (n : Node) : Run NodeResult := do
  let needed ← n.itemsOf "required_inputs"
  let e ← Run.execution
  match ← Run.of (firstMissing? e needed) with
  | some id => return .waiting s!"Waiting for node: {id.text}" .null []
  | none =>
    let outputs := distinctOutputs (← Run.of (mergedOutputs e needed))
    return .ok (.under [] "merged_data" (.ofEntries outputs)) .null

end Flowline.Node
