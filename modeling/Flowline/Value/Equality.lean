import Flowline.Value.Basic

/-!
Equality of values. Truth values are the numbers 0 and 1, whole numbers and doubles are compared
exactly, and mappings are equal when they hold equal values under the same keys in any order.
Mappings are looked up and changed by that equality of keys.
-/

namespace Flowline

namespace Scalar

/-- A whole number, where the scalar is one or a truth value. -/
def toInt? : Scalar → Option Int
  | .bool b => some (if b then 1 else 0)
  | .int n => some n
  | _ => none

def same : Scalar → Scalar → Bool
  | .null, .null => true
  | .str a, .str b => a == b
  | .float a, .float b => a == b
  | .float a, b => (b.toInt?.bind fun n => Double.compareInt? n a) == some .eq
  | a, .float b => (a.toInt?.bind fun n => Double.compareInt? n b) == some .eq
  | .date a, .date b => a == b
  | .moment a, .moment b => a.same b
  | .bytes a, .bytes b => a == b
  | a, b =>
    match a.toInt?, b.toInt? with
    | some m, some n => m == n
    | _, _ => false

end Scalar

/-! ## Mappings -/

namespace Entries

def get? (entries : List (Scalar × α)) (key : Scalar) : Option α :=
  match entries with
  | [] => none
  | (k, v) :: rest => if k.same key then some v else get? rest key

def contains (entries : List (Scalar × α)) (key : Scalar) : Bool :=
  (get? entries key).isSome

/-- Puts a value under a key: in the place of the key if it is there, otherwise at the end. -/
def insert (entries : List (Scalar × α)) (key : Scalar) (value : α) : List (Scalar × α) :=
  match entries with
  | [] => [(key, value)]
  | (k, v) :: rest => if k.same key then (k, value) :: rest else (k, v) :: insert rest key value

def insertAll (entries new : List (Scalar × α)) : List (Scalar × α) :=
  new.foldl (fun acc (k, v) => insert acc k v) entries

def erase (entries : List (Scalar × α)) (key : Scalar) : List (Scalar × α) :=
  entries.filter fun (k, _) => !k.same key

end Entries

namespace Value

mutual

def same : Value → Value → Bool
  | .scalar a, .scalar b => a.same b
  | .list a, .list b => sameList a b
  | .map a, .map b => a.length == b.length && sameEntries a b
  | .set a, .set b => a.length == b.length && a.all fun x => b.any x.same
  | _, _ => false

def sameList : List Value → List Value → Bool
  | [], [] => true
  | a :: as, b :: bs => same a b && sameList as bs
  | _, _ => false

/-- Every entry has an equal one in another mapping. -/
def sameEntries : List (Scalar × Value) → List (Scalar × Value) → Bool
  | [], _ => true
  | (k, v) :: rest, other =>
    (match Entries.get? other k with
      | some w => same v w
      | none => false) && sameEntries rest other

end

def field? (v : Value) (key : String) : Option Value :=
  match v with
  | .map entries => Entries.get? entries (.str key)
  | _ => none

end Value

end Flowline
