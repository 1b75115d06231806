import Flowline.Session
import Flowline.Workflow.Basic

/-!
Nodes that suspend an execution: delays, and nodes that wait for a signal. The time at which they end is
fixed when they are reached first, and kept in their output.
-/

namespace Flowline.Node

def delayUnits : List (Scalar × Int) :=
  [(.str "seconds", 1), (.str "minutes", 60), (.str "hours", 3600), (.str "days", 86400)]

def number? : Value → Option Number
  | .bool b => some (.int (if b then 1 else 0))
  | .int n => some (.int n)
  | .float x => some (.float x)
  | _ => none

def hasCome (now : Float) (time : Value) : Except Fault Bool :=
  match number? time with
  | some n =>
    match Number.compare? (.float now) n with
    | some .lt => .ok false
    | some _ => .ok true
    | none => .ok false
  | none => .error .wrongType

/-- The output of a node that waits in the execution, and an entry of it that is not null. -/
def waitingEntry? (id key : String) : Run (Option (Value × Value)) := do
  match (← Run.execution).state? id with
  | some ⟨.waiting, output⟩ =>
    let output := output.value.orElse (.map [])
    match ← Run.of (output.entry key) with
    | .null => return none
    | time => return some (output, time)
  | _ => return none

def later (now : Float) (seconds : Int) : Except Fault Value := do
  return (← (Number.float now).add (.int seconds)).toValue

/-! ## Delays -/

def delaySeconds (n : Node) : Run Int := do
  let unit ← Run.of (n.config.entryOr "type" (.str "seconds"))
  let value ← Run.resolve (← Run.of (n.config.entryOr "value" (.int 0)))
  let count ← Run.of (value.orElse (.int 0)).toWhole
  return count * (Entries.get? delayUnits (← Run.of unit.toKey)).getD 1

def startDelay (n : Node) (now : Float) : Run NodeResult := do
  let seconds ← n.delaySeconds
  if seconds ≤ 0 then return .okObject [("delayed_seconds", .int 0)]
  return .waiting s!"Waiting for {seconds} seconds" (← Run.of (later now seconds))
    [("delay_seconds", .int seconds)]

def runDelay (n : Node) : Run NodeResult := do
  let now ← Run.timestamp
  match ← waitingEntry? n.id "resume_at" with
  | some (previous, time) =>
    let seconds ← Run.of (previous.entryOr "delay_seconds" (.int 0))
    if ← Run.of (hasCome now time) then return .okObject [("delayed_seconds", seconds)]
    let reason ← Run.of (previous.entryOr "reason" (.str ""))
    return .waitingWith reason time [(.str "delay_seconds", .fixed seconds)]
  | none => n.startDelay now

/-! ## Signals -/

/-- The result of a node that goes on waiting for a signal. -/
def awaiting (waitType time : Value) : NodeResult :=
  .waiting s!"Waiting for {waitType.text} event" time
    [("timeout_at", time), ("wait_type", waitType)]

/-- The result of a node whose time has come without a signal. -/
def timeoutResult (n : Node) (waitType : Value) (timeout : Int) : Run NodeResult := do
  if (← Run.of (n.config.entryOr "on_timeout" (.str "fail"))).same (.str "continue") then
    return .okObject [("timed_out", .bool true)]
  return .failure s!"Wait for {waitType.text} event timed out after {timeout} seconds"

def signalResult : Value → NodeResult
  | .map entries => .okValue (.map entries)
  | payload => .okObject [("signal", payload)]

def runWait (services : Services) (n : Node) : Run NodeResult := do
  let waitType ← Run.of (n.config.entryOr "type" (.str "webhook"))
  let timeout ← Run.of (← Run.of (n.config.entryOr "timeout" (.int services.waitTimeout))).toWhole
  let now ← Run.timestamp
  match ← Run.takeSignal n.id with
  | some payload => return signalResult payload
  | none =>
    match ← waitingEntry? n.id "timeout_at" with
    | some (_, time) =>
      if ← Run.of (hasCome now time) then n.timeoutResult waitType timeout
      else return awaiting waitType time
    | none => return awaiting waitType (← Run.of (later now timeout))

end Flowline.Node
