import Flowline.Json.Read
import Flowline.Session
import Flowline.Workflow.Basic

/-!
Nodes that work on data: they set variables, transform and filter collections, and aggregate numbers.
While they go through a collection, the variable `item` holds the current item.
-/

namespace Flowline.Node

/-- Stores a value in the variable that an entry of the configuration names. -/
def storeOutput (n : Node) (v : Value) : Run Unit := do
  let name ← Run.of (n.config.entry "output_variable")
  if name.isPresent then Run.setNamed name v

/-! ## Variables -/

/-- The assignments of a configuration: items with a name and a value, or entries. -/
def assignments (v : Value) : Except Fault (List Value) :=
  match v with
  | .map entries => .ok (entries.map fun (k, v) => .object [("name", .scalar k), ("value", v)])
  | v => v.iterateOrNone

/-- Sets variables one after the other, and gives those that were set. -/
def assign (done : List (Scalar × Value)) : List Value → Run (List (Scalar × Value))
  | [] => return done
  | item :: rest => do
    let name ← Run.of (item.entry "name")
    if name.isPresent then
      let value ← Run.resolve (← Run.of (item.entry "value"))
      let key ← Run.of name.toKey
      Run.setVariable key value
      assign (Entries.insert done key value) rest
    else assign done rest

def runSetVariable (n : Node) : Run NodeResult := do
  let items ← Run.of (assignments ((← Run.of (n.config.entry "variables")).orElse (.list [])))
  return .okObject [("variables_set", .map (← assign [] items))]

/-! ## Transformations -/

/-- The items of a value: those of a list, the values of a mapping, nothing for null, and any other value
alone. -/
def asItems : Value → List Value
  | .null => []
  | .map entries => entries.map (·.2)
  | .list items => items
  | v => [v]

def mapItems (expression : Value) : List Value → Run (List Value)
  | [] => return []
  | item :: rest => do
    Run.setVariable (.str "item") item
    let v ← Run.resolve expression
    return v :: (← mapItems expression rest)

def filterItems (condition : Value) : List Value → Run (List Value)
  | [] => return []
  | item :: rest => do
    Run.setVariable (.str "item") item
    let kept ← Run.check condition
    let others ← filterItems condition rest
    return if kept then item :: others else others

/-- What an expression makes of an accumulator and one item after the other. -/
def reduceItems (expression accumulator : Value) : List Value → Run Value
  | [] => return accumulator
  | item :: rest => do
    Run.setVariable (.str "accumulator") accumulator
    Run.setVariable (.str "item") item
    reduceItems expression (← Run.resolve expression) rest

/-- A direction of sorting as written; `desc` in letters of either case is the other one. -/
def isDescending (v : Value) : Except Fault Bool := do return Text.lower (← v.written) == "desc"

def onText (f : String → Value) : Value → Value
  | .str s => f s
  | v => v

def decodeText : Value → Except Fault Value
  | .str s => match Json.read? s with | some v => .ok v | none => .error .badValue
  | v => .ok v

/-- Applies a transformation by its name; nothing for a name that is not known. -/
def transformation? (name : String) (step data : Value) : Option (Run Value) :=
  match name with
  | "map" => some do return .list (← mapItems (← Run.of (step.entry "expression")) (asItems data))
  | "filter" => some do
    let condition ← Run.of (step.entryOr "condition" (.str "true"))
    return .list (← filterItems condition (asItems data))
  | "reduce" => some do
    let initial ← Run.of (step.entry "initial")
    reduceItems (← Run.of (step.entry "expression")) initial (asItems data)
  | "sort" => some do
    let direction ← Run.of (step.entryOr "direction" (.str "asc"))
    let key ← Run.of (step.entry "key")
    let descending ← Run.of (isDescending direction)
    return .list (← Run.of (Value.sorted (asItems data) key descending))
  | "unique" => some do return .list (← Run.of (Value.distinct (asItems data)))
  | "flatten" => some do
    let depth ← Run.of (← Run.of (step.entryOr "depth" (.int 1))).asInt
    return .list (Value.flatten (asItems data) depth)
  | "group" => some do
    let groups ← Run.of (Value.group (asItems data) (← Run.of (step.entry "key")))
    return .object (groups.map fun (name, items) => (name, .list items))
  | "pluck" => some do
    return .list (← Run.of (Value.pluck (asItems data) (← Run.of (step.entry "key"))))
  | "json_encode" => some do return .str (← Run.of (Json.render .spaced data))
  | "json_decode" => some (Run.of (decodeText data))
  | "uppercase" => some (return onText (fun s => .str (Text.upper s)) data)
  | "lowercase" => some (return onText (fun s => .str (Text.lower s)) data)
  | "trim" => some (return onText (fun s => .str (Text.trim s)) data)
  | _ => none

/-- Applies a step; one that is not known is logged and passed over. -/
def applyStep (n : Node) (data step : Value) : Run Value := do
  let type ← Run.of (step.entryOr "type" (.str ""))
  let known? ← match ← Run.of type.toKey with
    | .str name => pure (transformation? name step data)
    | _ => pure none
  match known? with
  | some transformed => transformed
  | none =>
    let name ← Run.of type.written
    Run.note "warning" s!"Unknown transformation type: {name}" [("node_id", .str n.id)]
    return data

def runTransform (n : Node) : Run NodeResult := do
  let data ← Run.resolve (← Run.of (n.config.entryOr "input" (.list [])))
  let steps ← Run.of (← Run.of (n.config.entry "transformations")).iterateOrNone
  let result ← steps.foldlM (applyStep n) data
  n.storeOutput result
  return .okObject [("result", result)]

/-! ## Filters -/

def collection? : Value → Option (List Value)
  | .list items => some items
  | .map entries => some (entries.map (·.2))
  | _ => none

def checkAll : List Value → Run (List Bool)
  | [] => return []
  | condition :: rest => do
    let b ← Run.check condition
    return b :: (← checkAll rest)

/-- The items with which all conditions hold, or some. -/
def matchingItems (conditions : Value) (needsAll : Bool) : List Value → Run (List Value)
  | [] => return []
  | item :: rest => do
    Run.setVariable (.str "item") item
    let held ← checkAll (← Run.of conditions.iterate)
    let others ← matchingItems conditions needsAll rest
    let kept := if needsAll then held.all fun b => b else held.any fun b => b
    return if kept then item :: others else others

def runFilter (n : Node) : Run NodeResult := do
  let input ← Run.resolve (← Run.of (n.config.entryOr "input" (.list [])))
  let conditions := (← Run.of (n.config.entry "conditions")).orElse (.list [])
  let matchType ← Run.of (n.config.entryOr "match_type" (.str "all"))
  match collection? input with
  | none => return .failure "Filter input must be an array"
  | some items =>
    let kept ← matchingItems conditions (matchType.same (.str "all")) items
    n.storeOutput (.list kept)
    return .okObject [
      ("filtered", .list kept),
      ("count", .ofNat kept.length),
      ("original_count", .ofNat items.length)]

/-! ## Aggregates -/

def extreme (beyond : Ordering) : List Number → Value
  | [] => .null
  | n :: rest =>
    (rest.foldl (fun found m => if m.compare? found == some beyond then m else found) n).toValue

/-- What an operation makes of values and the numbers among them; null for a name that is not known. -/
def aggregate (operation : Value) (values : List Value) (numbers : List Number) :
    Except Fault Value :=
  match operation with
  | .str "count" => .ok (.ofNat values.length)
  | .str "sum" => do return (← Number.sum numbers).toValue
  | .str "avg" => do
    if numbers.isEmpty then return .int 0
    return .float (← (← Number.sum numbers).div (.int numbers.length))
  | .str "min" => .ok (extreme .lt numbers)
  | .str "max" => .ok (extreme .gt numbers)
  | .str "first" => .ok (values.head?.getD .null)
  | .str "last" => .ok (values.getLast?.getD .null)
  | .str "distinct" => do return .ofNat (← Value.distinct values).length
  | _ => .ok .null

def addAggregate (items : List Value) (results : List (Scalar × Value)) (operation : Value) :
    Except Fault (List (Scalar × Value)) := do
  let field ← operation.entry "field"
  let type ← operation.entryOr "type" (.str "count")
  let name := (← operation.entry "alias").orElse type
  let values ← if field.isPresent then Value.pluck items field else pure items
  let numbers ← (values.filter Value.isNumeric).mapM Value.toNumber
  let result ← aggregate type values numbers
  return Entries.insert results (← name.toKey) result

def runAggregate (n : Node) : Run NodeResult := do
  let input ← Run.resolve (← Run.of (n.config.entryOr "input" (.list [])))
  match collection? input with
  | none => return .failure "Aggregate input must be an array"
  | some items =>
    let operations ← Run.of (← Run.of (n.config.entry "operations")).iterateOrNone
    let results ← Run.of (operations.foldlM (addAggregate items) [])
    n.storeOutput (.map results)
    return .okValue (.map results)

end Flowline.Node
