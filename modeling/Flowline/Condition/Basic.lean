import Flowline.Text.Case
import Flowline.Value.Number

/-!
Conditions: expressions, tests of a field by an operator, constants, and groups of conditions under a
logic. `Condition.ofValue` reads a condition from a value.
-/

namespace Flowline

/-- How the members of a group decide about it. -/
inductive Logic
  | and | or | xor | nor | nand
deriving Repr, DecidableEq

namespace Logic

/-- The logic of a name; `and` for any other name. -/
def ofText (s : String) : Logic :=
  match Text.lower s with
  | "or" => .or
  | "xor" => .xor
  | "nor" => .nor
  | "nand" => .nand
  | _ => .and

/-- The decision about a group from those about its members. -/
def combine : Logic → List Bool → Bool
  | .and, bs => bs.all id
  | .or, bs => bs.any id
  | .xor, bs => bs.count true == 1
  | .nor, bs => !bs.any id
  | .nand, bs => !bs.all id

end Logic

/-- A condition. -/
inductive Condition
  | expression (text : String)
  | constant (holds : Bool)
  | test (field operator value : Value)
  | group (logic : Logic) (members : List Condition)
  /-- What should be the members of a group has none. -/
  | memberless
deriving Repr, Inhabited

namespace Condition

/-- The logic that entries name, or a standard one. -/
def logicOf (standard : Logic) (entries : List (Scalar × Value)) : Logic :=
  match Entries.get? entries (.str "logic") with
  | some v => if v.isPresent then Logic.ofText v.text else standard
  | none => standard

/-- A test from its entries; equality is tested where no operator is named. -/
def testOf (entries : List (Scalar × Value)) : Condition :=
  let get (key : String) : Option Value := Entries.get? entries (.str key)
  let operator :=
    match get "operator" with
    | some v => if v.isPresent then v else .str "equals"
    | none => .str "equals"
  .test ((get "field").getD (.str "")) operator ((get "value").getD .null)

def ofScalar : Scalar → Condition
  | .str s => .expression s
  | s => .constant (Value.scalar s).isTruthy

/-- A scalar where a group should be: its characters or bytes are the members. -/
def groupOfScalar (logic : Logic) (s : Scalar) : Condition :=
  if !(Value.scalar s).isPresent then .constant true
  else
    match s with
    | .str s => .group logic (s.toList.map fun c => .expression c.toString)
    | .bytes b => .group logic (b.map fun x => .constant (x != 0))
    | _ => .memberless

def groupOfSet (logic : Logic) (items : List Scalar) : Condition :=
  if items.isEmpty then .constant true else .group logic (items.map ofScalar)

/-- Entries where a group should be: their keys are the members. -/
def groupOfKeys (logic : Logic) (entries : List (Scalar × Value)) : Condition :=
  if entries.isEmpty then .constant true else .group logic (entries.map fun (k, _) => ofScalar k)

mutual

/-- A value as a condition. A mapping with `conditions` is a group. -/
def ofValue : Value → Condition
  | .scalar s => ofScalar s
  | .list items => .constant !items.isEmpty
  | .set items => .constant !items.isEmpty
  | .map entries => (groupIn (logicOf .and entries) entries).getD (testOf entries)

def ofItems : List Value → List Condition
  | [] => []
  | v :: rest => ofValue v :: ofItems rest

def groupIn (logic : Logic) : List (Scalar × Value) → Option Condition
  | [] => none
  | (k, v) :: rest => if k.same (.str "conditions") then some (groupOf logic v) else groupIn logic rest

/-- A value as the members of a group under a logic, or as a mapping that holds them. -/
def groupOf (logic : Logic) : Value → Condition
  | .scalar s => groupOfScalar logic s
  | .set items => groupOfSet logic items
  | .list items => if items.isEmpty then .constant true else .group logic (ofItems items)
  | .map entries => (membersIn (logicOf logic entries) entries).getD (groupOfKeys logic entries)

def membersIn (logic : Logic) : List (Scalar × Value) → Option Condition
  | [] => none
  | (k, v) :: rest =>
    if k.same (.str "conditions") then some (membersOf logic v) else membersIn logic rest

def membersOf (logic : Logic) : Value → Condition
  | .scalar s => groupOfScalar logic s
  | .set items => groupOfSet logic items
  | .list items => if items.isEmpty then .constant true else .group logic (ofItems items)
  | .map entries => groupOfKeys logic entries

end

/-- A condition in a node: a list is a group of its items, which must all hold. -/
def ofNodeValue : Value → Condition
  | .list items => groupOf .and (.list items)
  | .map entries =>
    match Entries.get? entries (.str "conditions") with
    | some _ => groupOf .and (.map entries)
    | none => ofValue (.map entries)
  | v => ofValue v

end Condition

end Flowline
