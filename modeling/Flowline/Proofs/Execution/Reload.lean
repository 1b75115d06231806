import Flowline.Execution.Record
import Flowline.Proofs.Table
import Flowline.Proofs.Time.Iso
import Flowline.Proofs.Value.Records
import Flowline.Store.Memory

/-! # Executions that are read again

An execution whose times are proper is read again from its own record. Only the level of its log, which is
no part of the record, and the growing of outputs are lost. -/

namespace Flowline

theorem ExecutionStatus.ofValue_text (status : ExecutionStatus) : ofValue (.str status.text) = .ok status := by
  cases status <;> rfl

theorem NodeStatus.ofValue_text (status : NodeStatus) : ofValue (.str status.text) = .ok status := by
  cases status <;> rfl

theorem Moment.Proper.ofRecord {m : Moment} (hm : m.Proper) : ofRecord (.str m.isoText) = .ok (some m) := by
  have hread : Iso.read? (Value.str m.isoText).text = some m := Iso.read?_isoText hm
  simp only [Moment.ofRecord, hread, hm.withOffset]

namespace NodeState

/-- The state with an output that does not grow any more. -/
def settled (s : NodeState) : NodeState := { s with output := .fixed s.output.value }

@[simp] theorem resumeAt?_settled (s : NodeState) : s.settled.resumeAt? = s.resumeAt? := rfl

end NodeState

namespace Execution

/-- The times of an execution are proper. -/
structure Proper (e : Execution) : Prop where
  startedAt : e.startedAt.Proper
  completedAt : ∀ m, e.completedAt? = some m → m.Proper

/-- What the record of an execution describes. -/
def recorded (e : Execution) : Execution :=
  { e with
    states := e.states.map fun (id, s) => (id, s.settled)
    logLevel := "debug"
    nextNumber := 0
    trail := []
    runs := [] }

variable {e : Execution}

theorem Proper.reloaded (he : e.Proper) : e.reloaded = { e with logLevel := "debug" } := by
  have hcompleted : e.completedAt?.map Moment.withOffset = e.completedAt? := by
    cases h : e.completedAt? with
    | none => rfl
    | some m => exact congrArg some (he.completedAt m h).withOffset
  rw [Execution.reloaded, he.startedAt.withOffset, hcompleted]

/-! ## What the record keeps -/

theorem toValue_recorded (e : Execution) : e.recorded.toValue = e.toValue := by
  have hstates : (e.states.map fun (id, s) => (id, s.settled)).map (fun (id, s) => (id, s.toValue)) =
      e.states.map fun (id, s) => (id, s.toValue) := by
    rw [List.map_map]
    rfl
  rw [toValue, toValue, recorded, hstates]

theorem pendingResumes_recorded (e : Execution) : e.recorded.pendingResumes = e.pendingResumes := by
  rw [pendingResumes, pendingResumes, recorded, List.filterMap_map]
  rfl

theorem nodeStatus?_recorded (e : Execution) (id : String) : e.recorded.nodeStatus? id = e.nodeStatus? id := by
  have hstate : e.recorded.state? id = (e.state? id).map NodeState.settled := Table.get?_map ..
  rw [nodeStatus?, nodeStatus?, hstate, Option.map_map]
  rfl

/-! ## The parts of the record -/

theorem stateOf_toValue (id : String) (s : NodeState) :
    stateOf (.str id, s.toValue) = .ok (id, s.settled) := by
  simp [stateOf, NodeState.toValue, List.lookup_cons, NodeStatus.ofValue_text, NodeState.settled,
    Scalar.text, bind, Except.bind, pure, Except.pure]

theorem mapM_stateOf (states : Table String NodeState) :
    (states.map fun (id, s) => (Scalar.str id, s.toValue)).mapM stateOf =
      .ok (states.map fun (id, s) => (id, s.settled)) :=
  mapM_eq_ok fun p _ => stateOf_toValue p.1 p.2

theorem logOf_toValue (l : LogEntry) : logOf l.toValue = .ok l := by
  simp [logOf, LogEntry.toValue, List.lookup_cons, bind, Except.bind, pure, Except.pure]

theorem mapM_logOf (logs : List LogEntry) : (logs.map LogEntry.toValue).mapM logOf = .ok logs := by
  have h := mapM_eq_ok (f := fun l => l) fun l (_ : l ∈ logs) => logOf_toValue l
  rwa [List.map_id'] at h

theorem ofRecord_toValue? {m? : Option Moment} (hm : ∀ m, m? = some m → m.Proper) :
    Moment.ofRecord (Moment.toValue? m?) = .ok m? := by
  cases m? with
  | none => rfl
  | some m => exact (hm m rfl).ofRecord

theorem textOf?_ofText? (s? : Option String) : textOf? (Value.ofText? s?) = s? := by
  cases s? <;> rfl

theorem asInt_orElse (n : Int) : ((Value.int n).orElse (.int 0)).asInt = .ok n := by
  by_cases h : n = 0
  · subst h
    rfl
  · have hpresent : (Value.int n).isPresent = true := bne_iff_ne.2 h
    rw [Value.orElse, if_pos hpresent, Value.asInt]

/-! ## The whole record -/

theorem ofValue_toValue (he : e.Proper) (now : Moment) : ofValue e.toValue now = .ok e.recorded := by
  obtain ⟨entries, hrecord, hget⟩ := Value.exists_object _
  have hv : e.toValue = .map entries := hrecord
  have hstartedAt := he.startedAt.ofRecord
  have hcompletedAt := ofRecord_toValue? he.completedAt
  have hobject (states : Table String NodeState) :
      (Value.object (states.map fun (id, s) => (id, s.toValue))) =
        .map (states.map fun (id, s) => (Scalar.str id, s.toValue)) := by
    simp [Value.object, Function.comp_def]
  unfold ofValue
  rw [hv]
  simp [partOf, Value.entry, Value.entryOr, hget, List.lookup_cons, Value.mapping, hobject, hstartedAt,
    hcompletedAt, asInt_orElse, ExecutionStatus.ofValue_text, mapM_stateOf, mapM_logOf, textOf?_ofText?, bind,
    Except.bind, pure, Except.pure, recorded, -List.mapM_map]

end Execution

end Flowline
