/-!
Sets of code points, written as ascending closed ranges.
-/

namespace Flowline.Text.Ranges

/-- Membership in a set of code points given by its ranges. -/
def mem (ranges : Array (Nat × Nat)) (n : Nat) : Bool :=
  ranges.any fun (first, last) => first ≤ n && n ≤ last

end Flowline.Text.Ranges
