import Flowline.Table

/-!
Limits on how often something happens: a count for each name, in windows of a fixed length. A window opens
with the first event after the one before it is over.
-/

namespace Flowline

/-- A window: when it opened, and how many events there were in it. -/
structure RateWindow (τ : Type) where
  start : τ
  count : Nat
deriving Repr

/-- Counts of events by name, in windows of a length. -/
structure RateLimiter (τ : Type) where
  length : τ
  windows : Table String (RateWindow τ)
deriving Repr

namespace RateLimiter

variable {τ : Type}

def ofLength (length : τ) : RateLimiter τ := ⟨length, []⟩

variable [Sub τ] [LE τ] [DecidableLE τ]

/-- The window of a name that is open at a time; an empty one where none is. -/
def openWindow (l : RateLimiter τ) (now : τ) (name : String) : RateWindow τ :=
  match l.windows.get? name with
  | none => ⟨now, 0⟩
  | some w => if l.length ≤ now - w.start then ⟨now, 0⟩ else w

def acquire (l : RateLimiter τ) (now : τ) (name : String) (limit : Int) : Bool × RateLimiter τ :=
  let w := l.openWindow now name
  if limit ≤ w.count then (false, l)
  else (true, { l with windows := l.windows.put name { w with count := w.count + 1 } })

/-- How many events there were in the window of a name that is open at a time. -/
def count (l : RateLimiter τ) (now : τ) (name : String) : Nat := (l.openWindow now name).count

omit [Sub τ] [LE τ] [DecidableLE τ] in
def reset (l : RateLimiter τ) : Option String → RateLimiter τ
  | none => { l with windows := [] }
  | some name => { l with windows := l.windows.erase name }

end RateLimiter

end Flowline
