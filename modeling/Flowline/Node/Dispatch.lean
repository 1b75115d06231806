import Flowline.Node.Data
import Flowline.Node.Decision
import Flowline.Node.Suspension

/-!
Running a node by its type. Loops and parallel nodes run other nodes inside them; how deep such nodes may
be inside each other is bounded. A fault inside a node becomes its failure.
-/

namespace Flowline

/-- What a node does. -/
inductive NodeKind
  | entry | finish | condition | switch | loop | parallel | merge | delay | wait | setVariable
  | transform | filter | aggregate | action
deriving Repr, DecidableEq

namespace NodeKind

def named : List (String × NodeKind) := [
  ("start", entry), ("end", finish), ("condition", condition), ("switch", switch), ("loop", loop),
  ("parallel", parallel), ("merge", merge), ("delay", delay), ("wait", wait),
  ("set_variable", setVariable), ("transform", transform), ("filter", filter),
  ("aggregate", aggregate), ("action", action), ("trigger", entry)]

/-- The kind of a node: that of its type, or an action where it names one. -/
def ofNode? (services : Services) (n : Node) : Option NodeKind :=
  if services.actionTypes.contains n.type then some action
  else
    match named.lookup n.type with
    | some kind => some kind
    | none => if n.actionType.isPresent then some action else none

end NodeKind

namespace Node

/-! ## Loops -/

/-- What goes into the results for one run of a body, and the failure that ends the loop. -/
def runBody (inner : Node → Run NodeResult) (body? : Option Node) (index : Nat) :
    Run (Output × Option NodeResult) := do
  match body? with
  | none => return (.empty, none)
  | some body =>
    let r ← inner body
    if r.isWaiting then
      return (r.output,
        some (.failure s!"Loop iteration {index} cannot suspend on node '{body.id}'"))
    if r.isFailed then
      let reason := r.error?.getD "None"
      return (r.output, some (.failure s!"Loop iteration {index} failed: {reason}"))
    return (r.output, none)

def loopResult (results : List Output) : NodeResult :=
  .ok (.under [("iterations", .ofNat results.length)] "results" (.ofList results)) .null

/-- Names of the variables of a loop over items. -/
structure LoopNames where
  item : Value
  index : Value
  key : Value

def loopItems (inner : Node → Run NodeResult) (body? : Option Node) (names : LoopNames)
    (results : List Output) : List (Value × Value) → Run NodeResult
  | [] => return loopResult results
  | (key, item) :: rest => do
    let index := results.length
    Run.setNamed names.item item
    Run.setNamed names.index (.ofNat index)
    Run.setNamed names.key key
    let (output, failure?) ← runBody inner body? index
    match failure? with
    | some failure => return failure
    | none => loopItems inner body? names (results ++ [output]) rest

def loopTimes (inner : Node → Run NodeResult) (body? : Option Node) (results : List Output) :
    Nat → Run NodeResult
  | 0 => return loopResult results
  | left + 1 => do
    let index := results.length
    Run.setVariable (.str "loop_index") (.ofNat index)
    let (output, failure?) ← runBody inner body? index
    match failure? with
    | some failure => return failure
    | none => loopTimes inner body? (results ++ [output]) left

/-- Runs a body as long as a condition holds, up to a number of times. -/
def loopWhile (inner : Node → Run NodeResult) (body? : Option Node) (condition : Value)
    (results : List Output) : Nat → Run NodeResult
  | 0 => do
    let _ ← Run.check condition
    return loopResult results
  | left + 1 => do
    if ← Run.check condition then
      let index := results.length
      Run.setVariable (.str "loop_index") (.ofNat index)
      let (output, failure?) ← runBody inner body? index
      match failure? with
      | some failure => return failure
      | none => loopWhile inner body? condition (results ++ [output]) left
    else return loopResult results

/-- The items of a collection under their keys or places. -/
def keyedItems? : Value → Option (List (Value × Value))
  | .map entries => some (entries.map fun (k, v) => (.scalar k, v))
  | .list items => some (items.zipIdx.map fun (v, i) => (.ofNat i, v))
  | _ => none

/-- Runs a loop over items, while a condition holds, or a number of times. -/
def runLoop (inner : Node → Run NodeResult) (w : Workflow) (n : Node) : Run NodeResult := do
  let type ← Run.of (n.config.entryOr "type" (.str "foreach"))
  let most ← Run.of (← Run.of (n.config.entryOr "max_iterations" (.int 1000))).toWhole
  let bodyId ← Run.of (n.config.entry "body_node")
  let body? := if bodyId.isPresent then w.nodeOf? bodyId else none
  match type with
  | .str "foreach" =>
    let items ← Run.resolve (← Run.of (n.config.entryOr "items" (.list [])))
    match keyedItems? items with
    | none => return .failure "Loop items must be an array"
    | some pairs =>
      let names : LoopNames := {
        item := ← Run.of (n.config.entryOr "item_variable" (.str "item"))
        index := ← Run.of (n.config.entryOr "index_variable" (.str "index"))
        key := ← Run.of (n.config.entryOr "key_variable" (.str "loop_key")) }
      loopItems inner body? names [] (pairs.take most.toNat)
  | .str "while" =>
    loopWhile inner body? (← Run.of (n.config.entryOr "condition" (.str "false"))) [] most.toNat
  | .str "times" =>
    let times ← Run.resolve (← Run.of (n.config.entryOr "times" (.int 1)))
    loopTimes inner body? [] (min (← Run.of times.toWhole) most).toNat
  | type => return .failure s!"Unknown loop type: {type.text}"

/-! ## Parallel nodes -/

/-- The first items of a list, or characters of a text; a negative count leaves as many out at the end. -/
def firstItems (v : Value) (count : Int) : Except Fault (List Value) :=
  let taken (items : List Value) : List Value :=
    if 0 ≤ count then items.take count.toNat else items.take (items.length - count.natAbs)
  match v with
  | .list items => .ok (taken items)
  | .str s => .ok (taken (s.toList.map fun c => .str c.toString))
  | _ => .error .wrongType

/-- The result of a branch: that of a completed one is taken over from before where that counts. -/
def runBranch (inner : Node → Run NodeResult) (resuming : Bool) (branch : Node) : Run NodeResult := do
  let e ← Run.execution
  match if resuming && e.isCompleted branch.id then e.state? branch.id else none with
  | some s => return .ok s.output .null
  | none =>
    let r ← inner branch
    Run.modifyExecution (·.setState branch.id r.status r.output)
    return r

/-- Runs branches one after the other; unless all are needed, the first one that finishes is the last. -/
def runBranches (inner : Node → Run NodeResult) (resuming waitForAll : Bool)
    (results : Table String NodeResult) : List Node → Run (Table String NodeResult)
  | [] => return results
  | branch :: rest => do
    let r ← runBranch inner resuming branch
    let results := results.put branch.id r
    if !waitForAll && r.isFinished then return results
    else runBranches inner resuming waitForAll results rest

def branchOutputs (results : Table String NodeResult) : Output :=
  .ofEntries (results.map fun (id, r) => (.str id, r.output))

def branchRecords (results : Table String NodeResult) : List (Scalar × Value) :=
  results.map fun (id, r) => (.str id, r.toValue)

def isEarlier (a b : Value) : Except Fault Bool :=
  match a, b with
  | .str s, .str t => .ok (decide (s < t))
  | a, b =>
    match number? a, number? b with
    | some m, some n => .ok (m.less n)
    | _, _ => .error .wrongType

def earliest : List Value → Except Fault Value
  | [] => .ok .null
  | time :: rest => rest.foldlM (fun found t => do
      return if ← isEarlier t found then t else found) time

/-- The result of a parallel node with branches that wait. -/
def branchesWaiting (waiting : Table String NodeResult) (outputs : Output) :
    Except Fault NodeResult := do
  let times := (waiting.map fun (_, r) => r.output.entry "resume_at").filter (!·.isNull)
  let names := ", ".intercalate waiting.keys
  return .waitingWith (.str s!"Waiting for branches: {names}") (← earliest times) [
    (.str "waiting_branches", .fixed (Value.strings waiting.keys)),
    (.str "branch_results", outputs)]

/-- The result of a parallel node whose branches have the results. -/
def joinBranches (waitForAll : Bool) (results : Table String NodeResult) :
    Except Fault NodeResult :=
  let outputs := branchOutputs results
  let output := Output.under [] "branch_results" outputs
  let waiting := results.filter fun (_, r) => r.isWaiting
  let ok : NodeResult := { NodeResult.ok output .null with branches := branchRecords results }
  let failed : NodeResult :=
    { NodeResult.failureWith (some "One or more branches failed") output with
      branches := branchRecords results }
  if waitForAll then
    if results.any fun (_, r) => r.isFailed then .ok failed
    else if waiting.isEmpty then .ok ok
    else branchesWaiting waiting outputs
  else if results.isEmpty || results.any fun (_, r) => r.isFinished then .ok ok
  else if waiting.isEmpty then .ok failed
  else branchesWaiting waiting outputs

/-- Runs branches. A parallel node that has waited runs only those again that are not completed. -/
def runParallel (inner : Node → Run NodeResult) (w : Workflow) (n : Node) : Run NodeResult := do
  let branches := (← Run.of (n.config.entry "branches")).orElse (.list [])
  let waitForAll := (← Run.of (n.config.entryOr "wait_for_all" (.bool true))).isPresent
  let most ← Run.of (w.settingOr (.str "max_parallel_branches") (.int 5)).toWhole
  let resuming := (← Run.execution).isWaiting n.id
  let ids ← Run.of (firstItems branches most)
  let results ← runBranches inner resuming waitForAll [] (ids.filterMap w.nodeOf?)
  Run.of (joinBranches waitForAll results)

/-! ## Actions -/

def runAction (services : Services) (n : Node) : Run NodeResult := do
  let type ← if n.actionType.isPresent then pure n.actionType
    else Run.of (n.config.entry "action_type")
  if !type.isPresent then return .failure "Action type not specified"
  Run.act services type (← Run.resolveDeep n.config)

/-! ## Dispatch -/

def runKind (services : Services) (w : Workflow) (inner : Node → Run NodeResult) (n : Node) :
    NodeKind → Run NodeResult
  | .entry => runEntry
  | .finish => n.runEnd
  | .condition => n.runCondition
  | .switch => n.runSwitch
  | .loop => runLoop inner w n
  | .parallel => runParallel inner w n
  | .merge => n.runMerge
  | .delay => n.runDelay
  | .wait => runWait services n
  | .setVariable => n.runSetVariable
  | .transform => n.runTransform
  | .filter => n.runFilter
  | .aggregate => n.runAggregate
  | .action => runAction services n

/-- The result of a fault inside a node, which is logged. -/
def failed (n : Node) (fault : Fault) : Run NodeResult := do
  Run.note "error" s!"Node execution error: {n.id}" [("error", .str fault.message)]
  return .failure fault.message

/-- Gives the output of a waiting result a number, as it may grow. -/
def numbered (r : NodeResult) : Run NodeResult := do
  if r.isWaiting then
    let number := (← Run.execution).nextNumber
    Run.modifyExecution fun e => { e with nextNumber := e.nextNumber + 1 }
    return { r with output := r.output.asGrowing number }
  else return r

/-- Runs a node inside which others may run. A node whose type is not known has no result. -/
def runNode (services : Services) (w : Workflow) (inner : Node → Run NodeResult) (n : Node) :
    Run NodeResult := do
  Run.note "debug" s!"Executing node: {n.id}" [("type", .str n.type), ("config", n.config)]
  match NodeKind.ofNode? services n with
  | none => throw (.unknownNodeType n.type)
  | some kind =>
    match ← Run.attempt (runKind services w inner n kind) with
    | .ok r => numbered r
    | .error fault => n.failed fault

/-- Runs a node, in which others are inside each other down to a depth, and keeps what came of it. -/
def dispatch (services : Services) (w : Workflow) : Nat → Node → Run NodeResult
  | 0, _ => throw (.execution "Nodes are nested too deeply")
  | depth + 1, n => do
    let r ← runNode services w (dispatch services w depth) n
    Run.modifyExecution (·.ran n r)
    return r

/-- How deep the nodes of a workflow can be inside each other, unless one is inside itself. -/
def nestingLimit (w : Workflow) : Nat := w.nodes.length + 1

end Node

end Flowline
