import Flowline.Proofs.Value.Faults
import Flowline.Proofs.Workflow.Reload
import Flowline.Store

/-! # Rows that are read again

What a database accepts of workflows and executions is kept in rows that give the same records again
(`WorkflowRow.read_of`, `ExecutionRow.toValue_read_of`). -/

namespace Flowline

/-! ## Records in JSON -/

namespace Value

/-- A value that JSON has, with whole numbers that can be written. -/
def IsData (v : Value) : Prop := v.isJson = true ∧ v.isWritable = true

theorem isData_of_mem {entries : List (Scalar × Value)} (h : (map entries).IsData) {p : Scalar × Value}
    (hp : p ∈ entries) : p.2.IsData := by
  obtain ⟨hjson, hwritable⟩ := h
  exact ⟨inherits_isJson.entry hjson hp, inherits_isWritable.entry hwritable hp⟩

theorem isData_of_field? {v part : Value} (key : String) (h : v.IsData) (hpart : v.field? key = some part) :
    part.IsData := by
  cases v with
  | map entries => exact isData_of_mem h (Entries.mem_of_get? hpart)
  | _ => cases hpart

theorem isData_list {items : List Value} (h : ∀ v ∈ items, v.IsData) : (list items).IsData := by
  rw [IsData, isJson, isWritable]
  induction items with
  | nil => exact ⟨rfl, rfl⟩
  | cons v rest ih =>
    obtain ⟨⟨hjson, hwritable⟩, hrest⟩ := List.forall_mem_cons.1 h
    obtain ⟨hrestJson, hrestWritable⟩ := ih hrest
    simp only [allJson, areWritable, hjson, hwritable, hrestJson, hrestWritable, Bool.and_self, and_self]

/-- A value that a column for texts and numbers holds: no list, no mapping, and no whole number beyond 64 bits. -/
def FitsColumn : Value → Prop
  | .scalar (.int n) => -(2 ^ 63) ≤ n ∧ n < 2 ^ 63
  | .scalar _ => True
  | _ => False

end Value

namespace Database

theorem checkJson_eq_ok {v : Value} (h : v.IsData) : checkJson v = .ok () := by
  obtain ⟨text, htext⟩ := (Value.writes_write .spaced v 0 h.1).iff.2 h.2
  have hrender : Json.render .spaced v = .ok text := htext
  rw [checkJson, hrender]

theorem checkColumn_eq_ok {v : Value} (h : v.FitsColumn) : checkColumn v = .ok () := by
  cases v with
  | scalar s =>
    cases s with
    | int n => exact if_pos h
    | _ => rfl
  | _ => cases h

end Database

/-! ## Workflows -/

/-- A workflow that was read, with a text as its name, a version and a description that columns hold, and data in
JSON. -/
structure Workflow.Storable (w : Workflow) : Prop where
  settled : w.Settled
  name : ∃ name, w.name = .str name
  version : w.version.FitsColumn
  description : w.description.FitsColumn
  data : w.toValue.IsData

def WorkflowRow.of (w : Workflow) : WorkflowRow := ⟨w.uuid, w.status, w.toValue⟩

theorem Database.checkWorkflow_eq_ok {w : Workflow} (hw : w.Storable) : checkWorkflow w = .ok () := by
  obtain ⟨name, hname⟩ := hw.name
  have hcolumn : checkColumn (.str name) = .ok () := rfl
  simp only [checkWorkflow, hname, Value.isNull, checkJson_eq_ok hw.data, hcolumn, checkColumn_eq_ok hw.description,
    checkColumn_eq_ok hw.version]
  rfl

/-- The columns of a row say what its definition says. -/
theorem WorkflowRow.read_of {w : Workflow} (hw : w.Settled) : (WorkflowRow.of w).read w.id = .ok w.tidied := by
  obtain ⟨entries, hentries, hget⟩ := Value.exists_object _
  have hrecord : w.toValue = .map entries := hentries
  have hid : Entries.get? entries (.str "id") = some (.str w.id) := hget "id"
  have huuid : Entries.get? entries (.str "uuid") = some (.str w.uuid) := hget "uuid"
  have hstatus : Entries.get? entries (.str "status") = some (.str w.status.text) := hget "status"
  have hcolumns : Entries.insertAll entries
      [(.str "id", .str w.id), (.str "uuid", .str w.uuid), (.str "status", .str w.status.text)] = entries := by
    simp only [Entries.insertAll, List.foldl_cons, List.foldl_nil, Entries.insert_of_get? hid,
      Entries.insert_of_get? huuid, Entries.insert_of_get? hstatus]
  have hread := Workflow.ofValue_toValue hw w.id w.uuid
  rw [hrecord] at hread
  simp only [WorkflowRow.read, WorkflowRow.of, hrecord, Value.mapping, ok_bind, hcolumns, hread]

/-! ## Executions -/

/-- A moment in universal time. -/
def Moment.IsUniversal (m : Moment) : Prop := m.offset? = some 0

/-- An execution with times in universal time, a text as its kind of trigger, a duration that a column holds,
and data in JSON. -/
structure Execution.Storable (e : Execution) : Prop where
  startedAt : e.startedAt.IsUniversal
  completedAt : ∀ m, e.completedAt? = some m → m.IsUniversal
  trigger : ∃ kind, e.triggerType = .str kind ∧ kind ≠ ""
  elapsed : (Value.int e.elapsed).FitsColumn
  data : e.toValue.IsData

def ExecutionRow.of (e : Execution) : ExecutionRow :=
  ⟨e.status, Database.written e.startedAt, e.completedAt?.map Database.written, e⟩

namespace Moment.IsUniversal

variable {m : Moment} (hm : m.IsUniversal)
include hm

theorem withOffset : m.withOffset = m := by
  cases m
  simp_all [IsUniversal, Moment.withOffset]

theorem withOffset_written : (Database.written m).withOffset = m := by
  cases m
  simp_all [IsUniversal, Moment.withOffset, Database.written]

theorem micros_eq : m.micros = m.clockMicros := by
  rw [micros, hm, Option.getD_some, Int.zero_mul, Int.sub_zero]

theorem addMicros {n : Int} {later : Moment} (h : m.addMicros? n = some later) : later.IsUniversal := by
  unfold addMicros? ofClockMicros? at h
  dsimp only at h
  split at h
  · cases h
    exact hm
  · cases h

end Moment.IsUniversal

namespace Execution

variable {e : Execution}

theorem Storable.reloaded (he : e.Storable) : e.reloaded = { e with logLevel := "debug" } := by
  have hcompleted : e.completedAt?.map Moment.withOffset = e.completedAt? := by
    cases h : e.completedAt? with
    | none => rfl
    | some m => exact congrArg some (he.completedAt m h).withOffset
  rw [Execution.reloaded, he.startedAt.withOffset, hcompleted]

theorem Storable.toValue_reloaded (he : e.Storable) : e.reloaded.toValue = e.toValue := by
  rw [he.reloaded]
  rfl

end Execution

theorem Execution.isData_states {e : Execution} (h : e.toValue.IsData) :
    (Value.list (e.states.map fun (_, s) => s.toValue)).IsData := by
  have hobject := Value.isData_of_field? "node_states" h rfl
  refine Value.isData_list fun v hv => ?_
  obtain ⟨⟨id, s⟩, hs, rfl⟩ := List.mem_map.1 hv
  exact Value.isData_of_mem hobject (p := (.str id, s.toValue)) (List.mem_map_of_mem (List.mem_map_of_mem hs))

theorem Database.checkExecution_eq {e : Execution} {kind : String} (hkind : e.triggerType = .str kind)
    (hdata : e.toValue.IsData) : checkExecution e = checkColumn (.int e.elapsed) := by
  have hpart (key : String) {v : Value} (hv : e.toValue.field? key = some v) : v.IsData :=
    Value.isData_of_field? key hdata hv
  have hstates := checkJson_eq_ok (Execution.isData_states hdata)
  have htrigger := checkJson_eq_ok (hpart "trigger_data" (v := .map e.trigger) rfl)
  have hcontext := checkJson_eq_ok (hpart "context" (v := .map e.context) rfl)
  have hvars := checkJson_eq_ok (hpart "variables" (v := .map e.vars) rfl)
  have hlogs := checkJson_eq_ok (hpart "logs" (v := .list (e.logs.map LogEntry.toValue)) rfl)
  have hcolumn : checkColumn (.str kind) = .ok () := rfl
  simp only [checkExecution, hkind, htrigger, hcontext, hvars, hstates, hlogs, hcolumn]
  rfl

theorem Database.checkExecution_eq_ok {e : Execution} (he : e.Storable) : checkExecution e = .ok () := by
  obtain ⟨kind, hkind, -⟩ := he.trigger
  rw [checkExecution_eq hkind he.data, checkColumn_eq_ok he.elapsed]

/-- A row gives the record of its execution again. -/
theorem ExecutionRow.toValue_read_of {e : Execution} (he : e.Storable) :
    (ExecutionRow.of e).read.toValue = e.toValue := by
  obtain ⟨kind, hkind, hne⟩ := he.trigger
  have hcompleted : (e.completedAt?.map Database.written).map Moment.withOffset = e.completedAt? := by
    cases h : e.completedAt? with
    | none => rfl
    | some m => exact congrArg some (he.completedAt m h).withOffset_written
  have htrigger : (if (Value.str kind).text.isEmpty then "manual" else (Value.str kind).text) = kind := by
    simp [hne]
  simp only [read, ExecutionRow.of, Execution.toValue, hkind, htrigger, List.map_map, he.startedAt.withOffset_written,
    hcompleted]
  rfl

end Flowline
