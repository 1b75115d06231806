/-!
Doubles as exact numbers: a finite double is a whole number times a power of two. `nearest?` rounds a
quotient of whole numbers to the nearest double, and orders between whole numbers and doubles are
exact.
-/

namespace Flowline

abbrev twoTo (n : Nat) : Nat := Nat.pow 2 n

abbrev tenTo (n : Nat) : Nat := Nat.pow 10 n

end Flowline

namespace Flowline.Double

/-- A finite double, `mantissa * 2 ^ exponent` with a sign. -/
structure Parts where
  negative : Bool
  mantissa : Nat
  exponent : Int
deriving Repr, DecidableEq

/-- The exact value of a finite double; infinities and NaN have none. -/
def parts? (x : Float) : Option Parts :=
  let bits := x.toBits.toNat
  let negative := twoTo 63 ≤ bits
  let biased : Nat := bits / twoTo 52 % twoTo 11
  let fraction : Nat := bits % twoTo 52
  if biased = 2047 then none
  else if biased = 0 then some ⟨negative, fraction, -1074⟩
  else some ⟨negative, twoTo 52 + fraction, (biased : Int) - 1075⟩

def infinity : Float := Float.ofBits 0x7FF0000000000000

def nan : Float := Float.ofBits 0x7FF8000000000000

/-- Bits of infinity without its sign: the first pattern that is no finite double. -/
def infinityBits : Nat := 2047 * twoTo 52

/-! ## Rounding -/

/-- A quotient of whole numbers rounded to the nearest, a half to the even neighbour. -/
def roundDiv (num den : Nat) : Nat :=
  let whole := num / den
  let twice := 2 * (num % den)
  if twice < den then whole
  else if den < twice then whole + 1
  else whole + whole % 2

/-- The exponent of the highest power of two that is at most `num / den`. -/
def log2Ratio (num den : Nat) : Int :=
  let guess := (num.log2 : Int) - (den.log2 : Int)
  let low :=
    if 0 ≤ guess then decide (num < den * twoTo guess.toNat)
    else decide (num * twoTo (-guess).toNat < den)
  if low then guess - 1 else guess

/-- The bits, without a sign, of the double nearest to `num / den`; at least `infinityBits` where the
quotient is beyond the largest double. -/
def nearestBits (num den : Nat) : Nat :=
  if num = 0 then 0
  else
    let q := max (log2Ratio num den - 52) (-1074)
    let m :=
      if 0 ≤ q then roundDiv num (den * twoTo q.toNat)
      else roundDiv (num * twoTo (-q).toNat) den
    (q + 1074).toNat * twoTo 52 + m

def ofMagnitude (negative : Bool) (bits : Nat) : Float :=
  Float.ofBits (UInt64.ofNat (if negative then twoTo 63 + bits else bits))

/-- The double nearest to `num / den`, or none if that is beyond the largest double. -/
def nearest? (negative : Bool) (num den : Nat) : Option Float :=
  let bits := nearestBits num den
  if infinityBits ≤ bits then none else some (ofMagnitude negative bits)

/-- The double nearest to a whole number, or none if that is beyond the largest double. -/
def ofInt? (n : Int) : Option Float :=
  nearest? (decide (n < 0)) n.natAbs 1

/-- The double nearest to `digits * 10 ^ exponent`, infinity where that is beyond the largest. -/
def ofDecimal (negative : Bool) (digits : Nat) (exponent : Int) : Float :=
  let size := (Nat.toDigits 10 digits).length
  if digits = 0 then ofMagnitude negative 0
  else if exponent + size > 400 then ofMagnitude negative infinityBits
  else if exponent + size < -400 then ofMagnitude negative 0
  else
    let bits :=
      if 0 ≤ exponent then nearestBits (digits * tenTo exponent.toNat) 1
      else nearestBits digits (tenTo (-exponent).toNat)
    ofMagnitude negative (min bits infinityBits)

/-! ## Whole parts -/

def wholeMagnitude (m : Nat) (q : Int) : Nat :=
  if 0 ≤ q then m * twoTo q.toNat else m / twoTo (-q).toNat

def isWholeMagnitude (m : Nat) (q : Int) : Bool :=
  0 ≤ q || m % twoTo (-q).toNat == 0

def isWhole (x : Float) : Bool :=
  match parts? x with
  | some p => isWholeMagnitude p.mantissa p.exponent
  | none => false

/-- The whole part of a finite double, the fraction dropped. -/
def truncate? (x : Float) : Option Int :=
  (parts? x).map fun p =>
    let n : Int := wholeMagnitude p.mantissa p.exponent
    if p.negative then -n else n

/-- The largest whole number at most a finite double. -/
def floor? (x : Float) : Option Int :=
  (parts? x).map fun p =>
    let n : Int := wholeMagnitude p.mantissa p.exponent
    if p.negative then
      if isWholeMagnitude p.mantissa p.exponent then -n else -n - 1
    else n

/-- The least whole number at least a finite double. -/
def ceil? (x : Float) : Option Int :=
  (parts? x).map fun p =>
    let n : Int := wholeMagnitude p.mantissa p.exponent
    if p.negative then -n
    else if isWholeMagnitude p.mantissa p.exponent then n else n + 1

/-- The whole number nearest to a finite double, a half to the even neighbour. -/
def round? (x : Float) : Option Int :=
  (parts? x).map fun p =>
    let n : Int :=
      if 0 ≤ p.exponent then p.mantissa * twoTo p.exponent.toNat
      else roundDiv p.mantissa (twoTo (-p.exponent).toNat)
    if p.negative then -n else n

def isNegative (x : Float) : Bool := twoTo 63 ≤ x.toBits.toNat

/-! ## Order -/

/-- Exact order of a whole number and a double; NaN is in no order. -/
def compareInt? (n : Int) (x : Float) : Option Ordering :=
  if x.isNaN then none
  else
    match parts? x with
    | none => some (if isNegative x then .gt else .lt)
    | some p =>
      let m : Int := if p.negative then -(p.mantissa : Int) else p.mantissa
      if 0 ≤ p.exponent then some (compare n (m * twoTo p.exponent.toNat))
      else some (compare (n * twoTo (-p.exponent).toNat) m)

def compare? (x y : Float) : Option Ordering :=
  if x < y then some .lt
  else if y < x then some .gt
  else if x == y then some .eq
  else none

end Flowline.Double
