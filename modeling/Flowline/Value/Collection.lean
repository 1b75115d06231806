import Flowline.Value.Display
import Flowline.Value.Sorting

/-!
Operations on lists and mappings: what their items are, removing duplicates, sorting, plucking, grouping
and flattening.
-/

namespace Flowline.Value

/-- A value as a key of a mapping; lists, mappings and sets cannot be keys. -/
def toKey : Value → Except Fault Scalar
  | .scalar s => .ok s
  | _ => .error .wrongType

/-- What a value consists of, one after the other: items, keys, characters or bytes. -/
def iterate : Value → Except Fault (List Value)
  | .list items => .ok items
  | .map entries => .ok (entries.map fun (k, _) => .scalar k)
  | .set items => .ok (items.map .scalar)
  | .str s => .ok (s.toList.map fun c => .str c.toString)
  | .scalar (.bytes b) => .ok (b.map fun x => .int x.toNat)
  | _ => .error .wrongType

/-- What a value consists of, where an absent value has nothing. -/
def iterateOrNone (v : Value) : Except Fault (List Value) :=
  if v.isPresent then v.iterate else .ok []

/-- The items of a collection: the values of a mapping, and otherwise what the value consists of. -/
def items : Value → Except Fault (List Value)
  | .map entries => .ok (entries.map (·.2))
  | v => v.iterateOrNone

def size : Value → Except Fault Nat
  | .list items => .ok items.length
  | .map entries => .ok entries.length
  | .set items => .ok items.length
  | .str s => .ok s.length
  | .scalar (.bytes b) => .ok b.length
  | _ => .error .wrongType

/-! ## Duplicates -/

/-- Keeps the first of the values that have the same text, given the texts seen before. -/
def firstOfEachText (seen : List String) : List (String × Value) → List Value
  | [] => []
  | (text, v) :: rest =>
    if seen.contains text then firstOfEachText seen rest
    else v :: firstOfEachText (seen ++ [text]) rest

/-- Keeps the first of the values that have the same text. -/
def distinct (vs : List Value) : Except Fault (List Value) :=
  match vs with
  | [v] => .ok [v]
  | vs => do
    let texts ← vs.mapM display
    return firstOfEachText [] (texts.zip vs)

/-! ## Order -/

/-- A value comes before another one; values without an order are compared by their texts. -/
def before (a b : Value) : Except Fault Bool :=
  match order a b with
  | .ok o => .ok (o == .lt)
  | .error (.expression _) => do
    let s ← a.display
    let t ← b.display
    return (← order (.str s) (.str t)) == .lt
  | .error fault => .error fault

/-- What an item is sorted by: its entry under a key, with 0 for none, or the item itself. -/
def sortKey (key item : Value) : Except Fault Value :=
  if key.isPresent then
    match item with
    | .map entries => do return (Entries.get? entries (← key.toKey)).getD (.int 0)
    | _ => .ok (.int 0)
  else .ok item

/-- Items sorted by the item itself or by an entry. -/
def sorted (vs : List Value) (key : Value) (descending : Bool) : Except Fault (List Value) :=
  let less (a b : Value) : Except Fault Bool := do before (← sortKey key a) (← sortKey key b)
  if descending then Sorting.sortDescending less vs else Sorting.sort less vs

/-- A direction of sorting: a truth value or a whole number. -/
def toDirection : Value → Except Fault Bool
  | .bool b => .ok b
  | .int n => if n.natAbs < twoTo 31 then .ok (n != 0) else .error .overflow
  | _ => .error .wrongType

/-! ## Entries of items -/

/-- The entries under a key of those items that have one. -/
def pluck (vs : List Value) (key : Value) : Except Fault (List Value) := do
  let found ← vs.mapM fun v =>
    match v with
    | .map entries => do return Entries.get? entries (← key.toKey)
    | _ => .ok none
  return found.filterMap id

/-- The name of the group of an item: the text of its entry under a key. -/
def groupName (key : Value) : Value → Except Fault String
  | .map entries => do
    match (Entries.get? entries (← key.toKey)).getD .null with
    | .null => return "undefined"
    | v => v.written
  | _ => .ok "undefined"

def addToGroup (groups : List (String × List Value)) (name : String) (v : Value) :
    List (String × List Value) :=
  match groups with
  | [] => [(name, [v])]
  | (n, vs) :: rest =>
    if n == name then (n, vs ++ [v]) :: rest else (n, vs) :: addToGroup rest name v

/-- Items in groups by their entry under a key, in the order in which groups appear. -/
def group (vs : List Value) (key : Value) : Except Fault (List (String × List Value)) :=
  vs.foldlM (fun groups v => do return addToGroup groups (← groupName key v) v) []

/-! ## Flattening -/

mutual

/-- A value with containers opened down to a depth. -/
def flattenItem (depth : Nat) : Value → List Value
  | .list items =>
    match depth with
    | 0 => [.list items]
    | depth + 1 => flattenItems depth items
  | .map entries =>
    match depth with
    | 0 => [.map entries]
    | depth + 1 => flattenEntries depth entries
  | v => [v]

def flattenItems (depth : Nat) : List Value → List Value
  | [] => []
  | v :: rest => flattenItem depth v ++ flattenItems depth rest

/-- Entries' values with containers opened down to a depth. -/
def flattenEntries (depth : Nat) : List (Scalar × Value) → List Value
  | [] => []
  | (_, v) :: rest => flattenItem depth v ++ flattenEntries depth rest

end

/-- Items with containers opened down to a depth; a depth below zero opens none. -/
def flatten (vs : List Value) (depth : Int) : List Value := flattenItems depth.toNat vs

end Flowline.Value
