import Flowline.Proofs.Execution.Sound
import Flowline.Proofs.Execution.Touched
import Flowline.Proofs.Node.Frame
import Flowline.Proofs.Walk.Suspended
import Flowline.Store.Memory

/-! # What a walk leaves as it is

`VisitFrame R`: neither recording the state of a node nor noting a visit leads out of the relation `R`. Where
running nodes does not either, a walk does not. So no walk records an end of its execution, of which the time is recorded
exactly if it is over, and an error exactly if it failed (`Dated`), or changes the task of the execution: its workflow, what
triggered it, its context, and when that was. -/

namespace Flowline

/-- A relation of sessions that holds between those before and after a visit is noted and recorded. -/
class VisitFrame (R : Session → Session → Prop) : Prop extends RecordFrame R where
  visit : ∀ s x, R s { s with execution := s.execution.visit x }

/-- A relation of sessions that holds between those before and after a walk. -/
class WalkFrame (R : Session → Session → Prop) : Prop extends NodeFrame R, VisitFrame R

namespace Walk
variable {R : Session → Session → Prop} [VisitFrame R] {dispatch : Node → Run NodeResult}

theorem within_visit (hdispatch : ∀ n, Within R (dispatch n)) (n : Node) :
    Within R (visit dispatch n) := by
  refine (within_modify fun s => VisitFrame.visit s n.id).bind fun _ => ?_
  refine (hdispatch n).bind fun r => ?_
  refine (within_modify fun s => RecordFrame.setState s _ _ _).bind fun _ => ?_
  dsimp only
  split
  · exact gives_throw
  · exact gives_pure trivial

theorem within_go (hdispatch : ∀ n, Within R (dispatch n)) (w : Workflow) (limits : Limits)
    (begun : Float) (left : Nat) (walk : Walk) (queue : List Node) :
    Within R (go dispatch w limits begun left walk queue) := by
  induction left generalizing walk queue with
  | zero =>
    cases queue with
    | nil => exact gives_pure trivial
    | cons n rest => exact gives_throw
  | succ left ih =>
    cases queue with
    | nil => exact gives_pure trivial
    | cons n rest =>
      rw [go]
      split
      · exact ih walk rest
      · refine within_execution.bind fun e => ?_
        split
        · exact gives_pure trivial
        · refine (within_checkTime limits begun).bind fun _ => ?_
          refine (within_visit hdispatch n).bind fun r => ?_
          exact (within_follow w n r rest).bind fun queue => ih (walk.record n r) queue

theorem within_run (hdispatch : ∀ n, Within R (dispatch n)) (w : Workflow) (iterations : Int)
    (starts : List Node) : Within R (run dispatch w iterations starts) :=
  (within_of _).bind fun _ => Run.within_readStopwatch.bind fun _ => within_go hdispatch w _ _ _ _ _

end Walk

/-! ## The end of an execution -/

theorem ExecutionStatus.ne_failed_of_open {status : ExecutionStatus} (h : status.isTerminal = false) :
    (status == .failed) = false := by
  cases status with
  | failed => cases h
  | _ => rfl

namespace Execution

structure Dated (e : Execution) : Prop where
  completedAt : e.completedAt?.isSome = e.status.isTerminal
  error : e.error?.isSome = (e.status == .failed)

structure Blank (e : Execution) : Prop where
  completedAt : e.completedAt? = none
  error : e.error? = none

variable {e f : Execution}

theorem Dated.blank (he : e.Dated) (hopen : e.status.isTerminal = false) : e.Blank := by
  constructor
  · refine Option.not_isSome_iff_eq_none.1 ?_
    rw [he.completedAt, hopen]
    exact Bool.false_ne_true
  · refine Option.not_isSome_iff_eq_none.1 ?_
    rw [he.error, ExecutionStatus.ne_failed_of_open hopen]
    exact Bool.false_ne_true

theorem Blank.dated (he : e.Blank) (hopen : e.status.isTerminal = false) : e.Dated := by
  constructor
  · rw [he.completedAt, hopen]
    rfl
  · rw [he.error, ExecutionStatus.ne_failed_of_open hopen]
    rfl

/-- Two executions of which the same end is recorded, or none. -/
structure SameEnd (e f : Execution) : Prop where
  completedAt : f.completedAt? = e.completedAt?
  error : f.error? = e.error?

theorem SameEnd.refl (e : Execution) : SameEnd e e := ⟨rfl, rfl⟩

theorem SameEnd.trans (h₁ : SameEnd e f) {g : Execution} (h₂ : SameEnd f g) : SameEnd e g :=
  ⟨h₂.completedAt.trans h₁.completedAt, h₂.error.trans h₁.error⟩

theorem SameEnd.note (h : SameEnd e f) (level message : String) (details : List (String × Value)) :
    SameEnd e (f.note level message details) := by
  obtain ⟨logs, hlog⟩ := log_eq f level message (.object details)
  rw [Execution.note, hlog]
  exact ⟨h.completedAt, h.error⟩

theorem SameEnd.blank (h : SameEnd e f) (he : e.Blank) : f.Blank :=
  ⟨h.completedAt.trans he.completedAt, h.error.trans he.error⟩

theorem SameEnd.dated (h : SameEnd e f) (hstatus : f.status = e.status) (he : e.Dated) : f.Dated := by
  constructor
  · rw [h.completedAt, hstatus, he.completedAt]
  · rw [h.error, hstatus, he.error]

theorem Blank.reloaded (he : e.Blank) : e.reloaded.Blank := by
  refine ⟨?_, he.error⟩
  rw [Execution.reloaded, he.completedAt]
  rfl

end Execution

/-- Sessions with executions of which the same end is recorded, or none. -/
def EndStays (s t : Session) : Prop := s.execution.SameEnd t.execution

instance : WalkFrame EndStays where
  refl _ := .refl _
  trans _ _ _ hst htu := hst.trans htu
  setVariable _ _ _ := ⟨rfl, rfl⟩
  log s level message context := by
    obtain ⟨logs, h⟩ := Execution.log_eq s.execution level message context
    rw [h]
    exact ⟨rfl, rfl⟩
  cancel _ := ⟨rfl, rfl⟩
  ran _ _ _ := ⟨rfl, rfl⟩
  elapse _ _ _ _ := ⟨rfl, rfl⟩
  takeSignal _ _ := ⟨rfl, rfl⟩
  countCall _ _ _ := ⟨rfl, rfl⟩
  readStopwatch _ := ⟨rfl, rfl⟩
  setState s x status o := by
    obtain ⟨states, h⟩ := Execution.setState_eq s.execution x status o
    rw [h]
    exact ⟨rfl, rfl⟩
  number _ := ⟨rfl, rfl⟩
  visit _ _ := ⟨rfl, rfl⟩

/-! ## The task of an execution -/

namespace Execution

/-- Two executions with the same task. -/
structure SameTask (e f : Execution) : Prop where
  id_eq : f.id = e.id
  workflowId_eq : f.workflowId = e.workflowId
  trigger_eq : f.trigger = e.trigger
  context_eq : f.context = e.context
  startedAt_eq : f.startedAt.micros = e.startedAt.micros

variable {e f : Execution}

theorem SameTask.refl (e : Execution) : SameTask e e := ⟨rfl, rfl, rfl, rfl, rfl⟩

theorem SameTask.trans (h₁ : SameTask e f) {g : Execution} (h₂ : SameTask f g) : SameTask e g :=
  ⟨h₂.id_eq.trans h₁.id_eq, h₂.workflowId_eq.trans h₁.workflowId_eq, h₂.trigger_eq.trans h₁.trigger_eq,
    h₂.context_eq.trans h₁.context_eq, h₂.startedAt_eq.trans h₁.startedAt_eq⟩

theorem SameTask.note (h : SameTask e f) (level message : String) (details : List (String × Value)) :
    SameTask e (f.note level message details) := by
  obtain ⟨logs, hlog⟩ := log_eq f level message (.object details)
  rw [Execution.note, hlog]
  exact ⟨h.id_eq, h.workflowId_eq, h.trigger_eq, h.context_eq, h.startedAt_eq⟩

theorem SameTask.growOutput (h : SameTask e f) (x key : String) (u : Value) :
    SameTask e (f.growOutput x key u) := by
  obtain ⟨states, heq⟩ := growOutput_eq f x key u
  rw [heq]
  exact ⟨h.id_eq, h.workflowId_eq, h.trigger_eq, h.context_eq, h.startedAt_eq⟩

/-- A time without an offset counts as universal time, so an execution is reloaded with the time at which it
was started. -/
theorem sameTask_reloaded (e : Execution) : SameTask e e.reloaded := ⟨rfl, rfl, rfl, rfl, rfl⟩

end Execution

/-- Sessions with executions of the same task. -/
def TaskStays (s t : Session) : Prop := s.execution.SameTask t.execution

instance : WalkFrame TaskStays where
  refl _ := .refl _
  trans _ _ _ hst htu := hst.trans htu
  setVariable _ _ _ := ⟨rfl, rfl, rfl, rfl, rfl⟩
  log s level message context := by
    obtain ⟨logs, h⟩ := Execution.log_eq s.execution level message context
    rw [h]
    exact ⟨rfl, rfl, rfl, rfl, rfl⟩
  cancel _ := ⟨rfl, rfl, rfl, rfl, rfl⟩
  ran _ _ _ := ⟨rfl, rfl, rfl, rfl, rfl⟩
  elapse _ _ _ _ := .refl _
  takeSignal _ _ := .refl _
  countCall _ _ _ := .refl _
  readStopwatch _ := .refl _
  setState s x status o := by
    obtain ⟨states, h⟩ := Execution.setState_eq s.execution x status o
    rw [h]
    exact ⟨rfl, rfl, rfl, rfl, rfl⟩
  number _ := ⟨rfl, rfl, rfl, rfl, rfl⟩
  visit _ _ := ⟨rfl, rfl, rfl, rfl, rfl⟩

end Flowline
