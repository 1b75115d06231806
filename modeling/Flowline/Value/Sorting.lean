import Flowline.Fault

/-!
Stable sorting with a comparison that may fail. The run that a list begins with is kept, or turned round
where it descends, and each further item goes to a place found by halving.
-/

namespace Flowline.Sorting

/-- The items that continue an ascending run after its last item, and the rest. -/
def ascending (less : α → α → Except Fault Bool) (last : α) :
    List α → Except Fault (List α × List α)
  | [] => .ok ([], [])
  | x :: rest => do
    if ← less x last then return ([], x :: rest)
    else
      let (run, tail) ← ascending less x rest
      return (x :: run, tail)

/-- The items that continue a strictly descending run after its last item, and the rest. -/
def descending (less : α → α → Except Fault Bool) (last : α) :
    List α → Except Fault (List α × List α)
  | [] => .ok ([], [])
  | x :: rest => do
    if ← less x last then
      let (run, tail) ← descending less x rest
      return (x :: run, tail)
    else return ([], x :: rest)

/-- The place in an ascending list, between two bounds, after all items that are not greater. -/
def place (less : α → α → Except Fault Bool) (x : α) (sorted : List α) (fuel low high : Nat) :
    Except Fault Nat :=
  match fuel with
  | 0 => .ok low
  | fuel + 1 =>
    if low < high then
      let middle := low + (high - low) / 2
      match sorted[middle]? with
      | none => .ok low
      | some y => do
        if ← less x y then place less x sorted fuel low middle
        else place less x sorted fuel (middle + 1) high
    else .ok low

/-- Puts items into an ascending list one after the other. -/
def insertAll (less : α → α → Except Fault Bool) (sorted : List α) : List α → Except Fault (List α)
  | [] => .ok sorted
  | x :: rest => do
    let i ← place less x sorted sorted.length 0 sorted.length
    insertAll less (sorted.take i ++ x :: sorted.drop i) rest

/-- The items in ascending order; items of which neither is less keep their order. -/
def sort (less : α → α → Except Fault Bool) : List α → Except Fault (List α)
  | x :: y :: rest => do
    if ← less y x then
      let (run, tail) ← descending less y rest
      insertAll less (x :: y :: run).reverse tail
    else
      let (run, tail) ← ascending less y rest
      insertAll less (x :: y :: run) tail
  | xs => .ok xs

/-- The items in descending order; items of which neither is less keep their order. -/
def sortDescending (less : α → α → Except Fault Bool) (xs : List α) : Except Fault (List α) := do
  return (← sort less xs.reverse).reverse

end Flowline.Sorting
