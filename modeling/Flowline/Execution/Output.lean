import Flowline.Value.Convert

/-!
Outputs of nodes. The output of a waiting node may be part of the outputs of other nodes, and what is
added to it later shows in all of them; so an output carries the places where such growing parts are.
-/

namespace Flowline

/-- A step from a value to one of its parts. -/
inductive Step
  | key (k : Scalar)
  | index (n : Nat)
deriving Repr

namespace Value

/-- Changes the part of a value at the end of some steps. -/
def modifyAt (v : Value) (steps : List Step) (f : Value → Value) : Value :=
  match steps with
  | [] => f v
  | step :: rest =>
    match step, v with
    | .key k, .map entries =>
      match Entries.get? entries k with
      | some part => .map (Entries.insert entries k (part.modifyAt rest f))
      | none => v
    | .index n, .list items =>
      match items[n]? with
      | some part => .list (items.set n (part.modifyAt rest f))
      | none => v
    | _, _ => v

def withEntry (v : Value) (key : String) (value : Value) : Value :=
  match v with
  | .map entries => .map (Entries.insert entries (.str key) value)
  | v => v

end Value

/-- A value, and where in it there are parts that may grow. A part is known by a number. -/
structure Output where
  value : Value
  growing : List (List Step × Nat)
deriving Repr

namespace Output

def fixed (v : Value) : Output := ⟨v, []⟩

def empty : Output := fixed (.map [])

/-- The growing parts of an output that is a part itself, seen from the whole. -/
def growingUnder (steps : List Step) (o : Output) : List (List Step × Nat) :=
  o.growing.map fun (inner, n) => (steps ++ inner, n)

def ofEntries (entries : List (Scalar × Output)) : Output where
  value := .map (entries.map fun (k, o) => (k, o.value))
  growing := entries.flatMap fun (k, o) => o.growingUnder [.key k]

def ofList (items : List Output) : Output where
  value := .list (items.map (·.value))
  growing := items.zipIdx.flatMap fun (o, n) => o.growingUnder [.index n]

/-- A mapping with an output under a key, after other entries. -/
def under (before : List (String × Value)) (key : String) (o : Output) : Output where
  value := .object (before ++ [(key, o.value)])
  growing := o.growingUnder [.key (.str key)]

def asGrowing (o : Output) (n : Nat) : Output := { o with growing := ([], n) :: o.growing }

/-- The number of the growing part that the output as a whole is. -/
def number? (o : Output) : Option Nat := (o.growing.find? (·.1.isEmpty)).map (·.2)

/-- Adds an entry to the growing part with a number, wherever it is. -/
def grow (o : Output) (n : Nat) (key : String) (value : Value) : Output :=
  { o with value := o.growing.foldl (fun v (steps, m) =>
      if m = n then v.modifyAt steps (·.withEntry key value) else v) o.value }

/-- An output that is empty in some way counts as no output. -/
def orEmpty (o : Output) : Output := if o.value.isPresent then o else empty

def entry (o : Output) (key : String) : Value := (o.value.field? key).getD .null

end Output

end Flowline
