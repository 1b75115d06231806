import Flowline.Fault
import Flowline.Time.Moment

/-!
What stores have in common: pages of lists, and the time before which something is old.
-/

namespace Flowline

/-- A part of a list: where it starts, and how much of the list it holds at most. -/
structure Page where
  offset : Int
  limit : Int
deriving Repr, DecidableEq

namespace Page

/-- The page that is shown unless another one is asked for. -/
def standard : Page := ⟨0, 100⟩

/-- A place in a list; a negative place is counted from the end. -/
def placeIn (size : Nat) (place : Int) : Nat :=
  (if place < 0 then place + size else place).toNat

/-- The items between the place where a page starts and the one where it ends, either of which may be
counted from the end. -/
def ofList {α : Type} (p : Page) (items : List α) : List α :=
  let first := placeIn items.length p.offset
  let last := placeIn items.length (p.offset + p.limit)
  (items.take last).drop first

/-- The items of a page that starts at the front where its place is negative, and has no end where its
limit is. -/
def ofRows {α : Type} (p : Page) (rows : List α) : List α :=
  let rest := rows.drop p.offset.toNat
  if p.limit < 0 then rest else rest.take p.limit.toNat

end Page

namespace Moment

/-- The longest time between two moments, in days. -/
def maxDays : Int := 999999999

def daysBefore (m : Moment) (days : Int) : Except Fault Moment :=
  if days.natAbs ≤ maxDays.natAbs then
    match m.addMicros? (-days * microsPerDay) with
    | some cutoff => .ok cutoff
    | none => .error .overflow
  else .error .overflow

end Moment

end Flowline
