import Flowline.Value.Convert

/-!
Policies for running a failed workflow again: how often, and after how long. The wait before a retry is
fixed, or grows with the number of retries, in a line or by a factor.
-/

namespace Flowline

/-- How the wait before a retry grows. -/
inductive RetryStrategy
  | fixed | linear | exponential
deriving Repr, DecidableEq

namespace RetryStrategy

def all : List RetryStrategy := [fixed, linear, exponential]

def text : RetryStrategy → String
  | fixed => "fixed"
  | linear => "linear"
  | exponential => "exponential"

def ofValue : Value → Except Fault RetryStrategy
  | .str s => match all.find? (·.text == s) with | some r => .ok r | none => .error .badValue
  | _ => .error .badValue

end RetryStrategy

/-- When a failed workflow is run again. Waits are in seconds. -/
structure RetryPolicy where
  maxRetries : Int
  initialDelay : Float
  /-- The longest wait; null where there is none. -/
  maxDelay : Value
  strategy : RetryStrategy
  factor : Float
  /-- Waits are made longer by a random share of up to a tenth. -/
  jitter : Bool

namespace RetryPolicy

def ofSettings (settings : List (Scalar × Value)) : Except Fault RetryPolicy := do
  let setting (key : String) (standard : Value) : Value :=
    (Entries.get? settings (.str key)).getD standard
  let maxRetries ← (setting "max_retries" (.int 3)).asInt
  let initialDelay ← (setting "retry_delay_seconds" (.int 60)).asFloat
  let strategy ← RetryStrategy.ofValue (setting "retry_strategy" (.str "exponential"))
  let factor ← (setting "retry_backoff_factor" (.float 2)).asFloat
  return {
    maxRetries := maxRetries
    initialDelay := initialDelay
    maxDelay := setting "retry_max_delay_seconds" .null
    strategy := strategy
    factor := factor
    jitter := (setting "retry_jitter" (.bool false)).isPresent }

def toValue (p : RetryPolicy) : Value :=
  .object [
    ("max_retries", .int p.maxRetries),
    ("initial_delay", .float p.initialDelay),
    ("max_delay", p.maxDelay),
    ("strategy", .str p.strategy.text),
    ("backoff_factor", .float p.factor),
    ("jitter", .bool p.jitter)]

/-- A workflow that was run again some times may be run again once more. -/
def allows (p : RetryPolicy) (retries : Int) : Bool := decide (retries < p.maxRetries)

/-- A power with a whole exponent. Zero has no power with a negative one. -/
def powerOf (base : Float) (exponent : Int) : Except Fault Float := do
  let e ← (Number.int exponent).toFloat
  if base == 0 && exponent < 0 then throw .zeroDivision
  let x := Float.pow base e
  if x.isInf && base.isFinite then throw .overflow
  return x

/-- The wait before a retry, as the strategy has it. -/
def growingDelay (p : RetryPolicy) (retries : Int) : Except Fault Float :=
  match p.strategy with
  | .fixed => .ok p.initialDelay
  | .linear => do return p.initialDelay * (← (Number.int (retries + 1)).toFloat)
  | .exponential => do return p.initialDelay * (← powerOf p.factor retries)

/-- The wait before a retry, with no random share. -/
def plainDelay (p : RetryPolicy) (retries : Int) : Except Fault Float := do
  let delay ← p.growingDelay retries
  if p.maxDelay.isNull then return delay
  let most ← p.maxDelay.asFloat
  return if most < delay then most else delay

/-- The wait before a retry. The share, between 0 and 1, says how much of the tenth is added. -/
def delay (p : RetryPolicy) (retries : Int) (share : Float) : Except Fault Float := do
  let delay ← p.plainDelay retries
  return if p.jitter then delay + delay * 0.1 * share else delay

end RetryPolicy

end Flowline
