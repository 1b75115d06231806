import Flowline.Number.Double

/-!
The shortest decimal text of a double. `digits` finds the fewest digits that read back as the double,
the nearest of those; `text` lays them out.
-/

namespace Flowline.Double

/-- The exponent of the highest power of ten that is at most `num / den`. -/
def log10Ratio (num den : Nat) : Int :=
  let guess := log2Ratio num den * 30103 / 100000
  let atMost (e : Int) : Bool :=
    if 0 ≤ e then den * tenTo e.toNat ≤ num else den ≤ num * tenTo (-e).toNat
  if atMost (guess + 1) then guess + 1
  else if atMost guess then guess
  else guess - 1

/-- The numbers that round to `m * 2 ^ q`, as bounds in quarters of `2 ^ q`. A power of two has a
nearer neighbour below it. -/
def roundingBounds (m : Nat) (q : Int) : Nat × Nat :=
  (if m = twoTo 52 ∧ -1074 < q then 4 * m - 1 else 4 * m - 2, 4 * m + 2)

/-- The point of the grid of multiples of `10 ^ k` that reads back as `m * 2 ^ q` and is nearest to
it, if there is one. -/
def gridPoint? (m : Nat) (q : Int) (k : Int) : Option Nat :=
  let up := (if 2 ≤ q then twoTo (q - 2).toNat else 1) * (if k < 0 then tenTo (-k).toNat else 1)
  let down := (if q < 2 then twoTo (2 - q).toNat else 1) * (if 0 ≤ k then tenTo k.toNat else 1)
  let (low, high) := roundingBounds m q
  let value := 4 * m * up
  let inside (c : Nat) : Bool :=
    if m % 2 = 0 then low * up ≤ c * down && c * down ≤ high * up
    else low * up < c * down && c * down < high * up
  let below := value / down
  let above := below + 1
  match inside below, inside above with
  | true, false => some below
  | false, true => some above
  | false, false => none
  | true, true =>
    let gapBelow := value - below * down
    let gapAbove := above * down - value
    if gapBelow < gapAbove then some below
    else if gapAbove < gapBelow then some above
    else some (below + below % 2)

def stripZeros (fuel : Nat) (digits : Nat) (k : Int) : Nat × Int :=
  match fuel with
  | 0 => (digits, k)
  | fuel + 1 => if digits ≠ 0 ∧ digits % 10 = 0 then stripZeros fuel (digits / 10) (k + 1) else (digits, k)

/-- The shortest digits `d` and exponent `k` for which `d * 10 ^ k` reads back as `m * 2 ^ q`. Seventeen
digits always do. -/
def digits (m : Nat) (q : Int) : Nat × Int :=
  let top := if 0 ≤ q then log10Ratio (m * twoTo q.toNat) 1 else log10Ratio m (twoTo (-q).toNat)
  let found := (List.range 17).findSome? fun (n : Nat) =>
    (gridPoint? m q (top - n)).map fun c => (c, top - n)
  match found with
  | some (c, k) => stripZeros 18 c k
  | none => (m, 0)

/-- Lays out digits and a decimal exponent: positional where the point is after at most sixteen digits
or follows fewer than four zeros, and otherwise one digit, a point and an exponent of at least two
digits. -/
def layout (digits : Nat) (k : Int) : String :=
  let ds := Nat.toDigits 10 digits
  let point : Int := ds.length + k
  if -4 < point ∧ point ≤ 16 then
    if point ≤ 0 then
      "0." ++ String.ofList (List.replicate (-point).toNat '0' ++ ds)
    else if ds.length ≤ point.toNat then
      String.ofList (ds ++ List.replicate (point.toNat - ds.length) '0') ++ ".0"
    else
      String.ofList (ds.take point.toNat) ++ "." ++ String.ofList (ds.drop point.toNat)
  else
    let e := point - 1
    let body :=
      match ds with
      | [] => ""
      | [d] => d.toString
      | d :: rest => d.toString ++ "." ++ String.ofList rest
    let size := toString e.natAbs
    body ++ (if e < 0 then "e-" else "e+") ++ (if e.natAbs < 10 then "0" ++ size else size)

def text (x : Float) : String :=
  if x.isNaN then "nan"
  else
    let sign := if isNegative x then "-" else ""
    match parts? x with
    | none => sign ++ "inf"
    | some p =>
      if p.mantissa = 0 then sign ++ "0.0"
      else
        let (d, k) := digits p.mantissa p.exponent
        sign ++ layout d k

end Flowline.Double
