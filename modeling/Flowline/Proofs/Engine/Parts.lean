import Flowline.Engine.Operation
import Flowline.Proofs.Walk.Parts

/-! # Calls of an engine in parts

A call that resumes an execution is interrupted wherever it waits for something: for the store, for the
schedule, for those who are notified, and inside the nodes that it runs. It works on its own copy of the
execution. Run without interruption it is the operation of the engine. -/

namespace Flowline

/-- How the nodes that an engine runs are cut into parts. No part gives the execution another id. -/
structure Cut (setup : Setup) where
  handle : Nat → Workflow → Node → Coroutine Session Empty NodeResult
  alone_handle : ∀ running w n, (handle running w n).alone Empty.elim =
    Node.dispatch (setup.services running) w (Node.nestingLimit w) n
  keeps_id : ∀ running w n id, (handle running w n).Keeps (·.execution.id = id)

/-- Nodes that are not cut at all. -/
def Cut.whole (setup : Setup) : Cut setup where
  handle running w n := .of (Node.dispatch (setup.services running) w (Node.nestingLimit w) n)
  alone_handle _ _ _ := rfl
  keeps_id running w n _ := Coroutine.keeps_of (R := SameId)
    (Node.within_dispatch (setup.services running) w (Node.nestingLimit w) n) fun _ _ => Eq.trans

/-- An engine that has kept an execution. -/
def Engine.saving (e : Execution) (g : Engine) : Engine :=
  { g with memory := g.memory.saveExecution e }

/-- A session that goes on with what an engine shares. -/
def Engine.refresh (g : Engine) (s : Session) : Session :=
  { s with now := g.now, signals := g.signals, calls := g.calls, stopwatch := g.stopwatch }

/-- A call of an engine. It hands out the executions that it keeps. -/
abbrev Call := Coroutine Engine Execution

namespace Call
open Coroutine
variable {setup : Setup}

/-- What goes on in a session, with what an engine shares. -/
def ofSession {α : Type} : Coroutine Session Empty α → Session → Call (Except Fault α × Session)
  | .done r, s => return (r, s)
  | .part change next, s => .part (fun g => g.afterSession (change (g.refresh s)))
      fun g => ofSession (next (g.refresh s)) (change (g.refresh s))
  | .hand o _, _ => o.elim

def settle (setup : Setup) (kind : EventKind) (e : Execution) : Call Execution := do
  handing e
  of (Work.publishAt setup kind e none)
  return e

def handleFailure (setup : Setup) (w : Workflow) (e : Execution) : Call Execution := do
  of (Work.notifyFailure setup w e)
  if !(w.setting "retry_on_failure").isPresent then return e
  match ← of (Work.attempt (Work.scheduleRetry setup w e)) with
  | .ok e => return e
  | .error fault =>
    return e.note "error" "Retry scheduling failed" [("error", .str fault.message)]

def endCancelled (setup : Setup) (e : Execution) : Call Execution := do
  let time ← of Work.now
  settle setup .cancelled
    ({ e with completedAt? := some time }.note "info" "Workflow execution cancelled" [])

def endFailed (setup : Setup) (w : Workflow) (e : Execution) (fault : Fault) : Call Execution := do
  let time ← of Work.now
  let failed := { e with
    status := .failed, error? := some fault.message, completedAt? := some time }
  let e ← handleFailure setup w
    (failed.note "error" "Workflow execution failed" [("error", .str fault.message)])
  settle setup .failed e

def endPaused (setup : Setup) (e : Execution) : Call Execution :=
  let waiting := e.pendingResumes.keys.mergeSort fun a b => decide (a ≤ b)
  settle setup .paused ({ e with status := .paused }.note "info" "Workflow execution paused"
    [("waiting_nodes", Value.strings waiting)])

def endCompleted (setup : Setup) (e : Execution) : Call Execution := do
  let time ← of Work.now
  settle setup .completed
    ({ e with status := .completed, completedAt? := some time }.note "info"
      "Workflow execution completed" [("execution_time_ms", .int e.elapsed)])

def scheduleResumes (setup : Setup) (w : Workflow) (suspended : List String) (e : Execution) :
    Call Execution :=
  let others := e.pendingResumes.keys.filter (!suspended.contains ·)
  (suspended ++ others).foldlM (fun e id => of (Work.scheduleResume setup w suspended e id)) e

def conclude (setup : Setup) (w : Workflow) (e : Execution) (r : Except Fault Walk) :
    Call Execution := do
  if e.status == .cancelled then endCancelled setup e
  else
    match r with
    | .error fault => endFailed setup w e fault
    | .ok walk =>
      let e ← scheduleResumes setup w walk.suspended.keys e
      if e.pendingResumes.isEmpty then endCompleted setup e else endPaused setup e

def walk (cut : Cut setup) (w : Workflow) (e : Execution) (starts : List Node) : Call Passage := do
  let (running, s) ← look fun g => (g.running.length, g.session e)
  let (r, s) ← ofSession (Coroutine.walk (cut.handle running w) w setup.config.maxIterations starts) s
  let p : Passage := ⟨w, e, starts, s.execution, r, s.now⟩
  of (modify (·.record p))
  return p

def runSegment (cut : Cut setup) (w : Workflow) (e : Execution) (starts : List Node) :
    Call Execution := do
  let p ← walk cut w e starts
  let ended ← (conclude setup w p.after p.result).attempt
  of (Work.leave p.after.id)
  of (Work.of ended)

def failResume (setup : Setup) (e : Execution) (node reason : String) : Call Execution := do
  let time ← of Work.now
  let failed := { e with status := .failed, error? := some reason, completedAt? := some time }
  settle setup .failed
    (failed.note "error" "Resume failed" [("error", .str reason), ("node_id", .str node)])

def resumeAt (cut : Cut setup) (w : Workflow) (e : Execution) (n : Node) : Call Execution := do
  let (e, start) ← of (Work.reopen setup w e n)
  runSegment cut w e [start]

/-- What follows when the execution is loaded. -/
def resumeLoaded (cut : Cut setup) (e : Execution) (node : String) : Call (Option Execution) := do
  if !e.status.isResumable || !e.isWaiting node then return none
  match ← of (Work.workflow? e.workflowId) with
  | none => return some (← failResume setup e node s!"Workflow not found: {e.workflowId}")
  | some w =>
    match w.node? node with
    | none => return some (← failResume setup e node s!"Node not found: {node}")
    | some n => return some (← resumeAt cut w e n)

/-- Resumes an execution at a node. -/
def resume (cut : Cut setup) (id node : String) : Call (Option Execution) := do
  match ← look (·.memory.execution? id) with
  | none => return none
  | some e => resumeLoaded cut e node

/-! ## Without interruption -/

theorem alone_ofSession {α : Type} (c : Coroutine Session Empty α) {g : Engine} {s : Session}
    (hs : g.refresh s = s) : ((ofSession c s).alone Engine.saving).run.run g =
      (.ok ((c.alone Empty.elim).run.run s), g.afterSession ((c.alone Empty.elim).run.run s).2) := by
  induction c generalizing g s with
  | done r =>
    have hsame : g.afterSession (g.refresh s) = g := rfl
    rw [hs] at hsame
    exact congrArg (Prod.mk (Except.ok (r, s))) hsame.symm
  | part change next ih =>
    have hrun := ih s (g := g.afterSession (change s)) (s := change s) rfl
    change ((ofSession (next (g.refresh s)) (change (g.refresh s))).alone Engine.saving).run.run
      (g.afterSession (change (g.refresh s))) = _
    rw [hs]
    exact hrun
  | hand o next => exact o.elim

theorem alone_settle (kind : EventKind) (e : Execution) :
    (settle setup kind e).alone Engine.saving = Work.settle setup kind e := by
  simp only [settle, Work.settle, alone_bind, alone_of, alone_pure, alone_handing]
  rfl

theorem alone_handleFailure (w : Workflow) (e : Execution) :
    (handleFailure setup w e).alone Engine.saving = Work.handleFailure setup w e := by
  simp only [handleFailure, Work.handleFailure, alone_bind, alone_of]
  refine bind_congr fun _ => ?_
  split
  · rfl
  · rw [alone_bind]
    refine bind_congr fun r => ?_
    cases r <;> rfl

theorem alone_conclude (w : Workflow) (e : Execution) (r : Except Fault Walk) :
    (conclude setup w e r).alone Engine.saving = Work.conclude setup w e r := by
  unfold conclude Work.conclude
  split
  · simp only [endCancelled, Work.endCancelled, alone_bind, alone_of, alone_settle]
  · cases r with
    | error fault =>
      simp only [endFailed, Work.endFailed, alone_bind, alone_of, alone_handleFailure, alone_settle]
    | ok walk =>
      simp only [scheduleResumes, Work.scheduleResumes, alone_bind, alone_foldlM]
      refine bind_congr fun e => ?_
      split
      · simp only [endCompleted, Work.endCompleted, alone_bind, alone_of, alone_settle]
      · simp only [endPaused, Work.endPaused, alone_settle]

theorem alone_walk (cut : Cut setup) (w : Workflow) (e : Execution) (starts : List Node) :
    (walk cut w e starts).alone Engine.saving = Work.walk setup w e starts := by
  funext g
  have hwalk := alone_ofSession (g := g) (s := g.session e)
    (Coroutine.walk (cut.handle g.running.length w) w setup.config.maxIterations starts) rfl
  rw [Coroutine.alone_walk (cut.alone_handle g.running.length w)] at hwalk
  unfold walk
  rw [Coroutine.alone_bind, alone_look]
  change ((ofSession (Coroutine.walk (cut.handle g.running.length w) w setup.config.maxIterations
    starts) (g.session e) >>= _).alone Engine.saving).run.run g = _
  rw [Coroutine.alone_bind]
  refine (run_bind _ _ g).trans ?_
  rw [hwalk]
  rfl

theorem alone_segment (cut : Cut setup) (w : Workflow) (e : Execution) (starts : List Node) :
    (runSegment cut w e starts).alone Engine.saving = Work.runSegment setup w e starts := by
  simp only [runSegment, Work.runSegment, alone_bind, alone_of, alone_walk, alone_attempt, alone_conclude,
    Work.attempt]

theorem alone_failResume (e : Execution) (node reason : String) :
    (failResume setup e node reason).alone Engine.saving = Work.failResume setup e node reason := by
  simp only [failResume, Work.failResume, alone_bind, alone_of, alone_settle]

theorem alone_resumeLoaded (cut : Cut setup) (e : Execution) (node : String) :
    (resumeLoaded cut e node).alone Engine.saving = Work.resumeLoaded setup e node := by
  unfold resumeLoaded Work.resumeLoaded
  split
  · rfl
  · rw [alone_bind, alone_of]
    refine bind_congr fun w? => ?_
    cases w? with
    | none => simp only [alone_bind, alone_pure, alone_failResume]
    | some w =>
      dsimp only
      cases w.node? node with
      | none => simp only [alone_bind, alone_pure, alone_failResume]
      | some n => simp only [resumeAt, Work.resumeAt, alone_bind, alone_of, alone_pure, alone_segment]

/-- A call that nothing interrupts is the operation. -/
theorem alone_resume (cut : Cut setup) (id node : String) :
    (resume cut id node).alone Engine.saving = Work.resume setup id node := by
  unfold resume Work.resume
  rw [alone_bind]
  refine bind_congr fun e? => ?_
  cases e? with
  | none => rfl
  | some e => exact alone_resumeLoaded cut e node

end Call

end Flowline
