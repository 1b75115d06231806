import Flowline.Proofs.Workflow.Reload

/-! # How definitions are read

A definition is read in three parts: its nodes, its connections, and the heading with the ids, the status and the
settings (`ofValue_of_isMap`). An item is read if it is a mapping and what is needed of it can be written. -/

namespace Flowline

namespace Value

/-- What a mapping gives under a key, or a standard value. -/
def given (v : Value) (key : String) (standard : Value) : Value := (v.field? key).getD standard

theorem entryOr_of_isMap {v : Value} (hv : v.isMap = true) (key : String) (standard : Value) :
    v.entryOr key standard = .ok (v.given key standard) := by
  cases v with
  | map entries => rfl
  | _ => cases hv

theorem entryOr_of_not_isMap {v : Value} (hv : v.isMap = false) (key : String) (standard : Value) :
    v.entryOr key standard = .error .noMember := by
  cases v with
  | map entries => cases hv
  | _ => rfl

theorem iterate_eq_error {v : Value} {fault : Fault} (h : v.iterate = .error fault) : fault = .wrongType := by
  unfold iterate at h
  split at h <;> cases h
  rfl

theorem iterateOrNone_eq_error {v : Value} {fault : Fault} (h : v.iterateOrNone = .error fault) :
    fault = .wrongType := by
  unfold iterateOrNone at h
  split at h
  · exact iterate_eq_error h
  · cases h

end Value

theorem WorkflowStatus.ofValue_eq_error {v : Value} {fault : Fault} (h : WorkflowStatus.ofValue v = .error fault) :
    fault = .badValue := by
  unfold WorkflowStatus.ofValue at h
  split at h
  · split at h <;> cases h
    rfl
  · exact (Except.error.inj h).symm

theorem Value.mapping_eq_error {v : Value} {fault : Fault} (h : v.mapping = .error fault) : fault = .wrongType := by
  unfold Value.mapping at h
  split at h <;> cases h
  rfl

/-! ## Nodes and connections of a definition -/

namespace Node

/-- A node has what an item of a definition gives. -/
structure Describes (v : Value) (n : Node) : Prop where
  id : n.id = (v.given "id" (.str "")).text
  type : n.type = (v.given "type" (.str "")).text
  config : n.config = (v.given "config" .null).orElse (.map [])
  actionType : n.actionType = v.given "action_type" .null
  name : n.name = v.given "name" .null

variable {v : Value} {n : Node}

/-- The id and the type of an item can be written. -/
def Readable (v : Value) : Prop :=
  (v.given "id" (.str "")).isWritable = true ∧ (v.given "type" (.str "")).isWritable = true

theorem ofValue_of_isMap (hv : v.isMap = true) : ofValue v = (do
    let id ← (v.given "id" (.str "")).written
    let type ← (v.given "type" (.str "")).written
    return ⟨id, type, (v.given "config" .null).orElse (.map []), v.given "action_type" .null,
      v.given "name" .null⟩) := by
  simp only [ofValue, Value.entry, Value.entryOr_of_isMap hv]
  rfl

theorem describes_of_ofValue (hv : v.isMap = true) (h : ofValue v = .ok n) : Describes v n := by
  rw [ofValue_of_isMap hv] at h
  obtain ⟨id, hid, h⟩ := bind_eq_ok.1 h
  obtain ⟨type, htype, h⟩ := bind_eq_ok.1 h
  cases h
  exact ⟨Value.eq_text_of_written hid, Value.eq_text_of_written htype, rfl, rfl, rfl⟩

theorem exists_ofValue_iff (hv : v.isMap = true) : (∃ n, ofValue v = .ok n) ↔ Readable v := by
  rw [ofValue_of_isMap hv]
  constructor
  · rintro ⟨n, h⟩
    obtain ⟨id, hid, h⟩ := bind_eq_ok.1 h
    obtain ⟨type, htype, -⟩ := bind_eq_ok.1 h
    exact ⟨(Value.written_eq_ok_iff.1 hid).1, (Value.written_eq_ok_iff.1 htype).1⟩
  · rintro ⟨hid, htype⟩
    exact ⟨_, bind_eq_ok.2 ⟨_, Value.written_of_isWritable hid,
      bind_eq_ok.2 ⟨_, Value.written_of_isWritable htype, rfl⟩⟩⟩

theorem ofValue_of_not_isMap (hv : v.isMap = false) : ofValue v = .error .noMember := by
  rw [ofValue, Value.entryOr_of_not_isMap hv]
  rfl

theorem fault_of_isMap (hv : v.isMap = true) {fault : Fault} (h : ofValue v = .error fault) : fault = .badValue := by
  rw [ofValue_of_isMap hv] at h
  obtain hid | ⟨id, -, h⟩ := bind_eq_error h
  · exact Value.written_eq_error hid
  obtain htype | ⟨type, -, h⟩ := bind_eq_error h
  · exact Value.written_eq_error htype
  · cases h

end Node

namespace Connection

/-- What an item of a definition gives as the ends of a connection, each under one of two names. -/
def sourceOf (v : Value) : Value := v.given "source" (v.given "from" (.str ""))

def targetOf (v : Value) : Value := v.given "target" (v.given "to" (.str ""))

/-- A connection has what an item of a definition gives. -/
structure Describes (v : Value) (c : Connection) : Prop where
  source : c.source = (sourceOf v).text
  target : c.target = (targetOf v).text
  condition : c.condition =
    if isNoCondition (v.given "condition" .null) then .null else v.given "condition" .null
  label : c.label = v.given "label" .null

variable {v : Value} {c : Connection}

/-- The ends of an item can be written. -/
def Readable (v : Value) : Prop := (sourceOf v).isWritable = true ∧ (targetOf v).isWritable = true

theorem ofValue_of_isMap (hv : v.isMap = true) : ofValue v = (do
    let source ← (sourceOf v).written
    let target ← (targetOf v).written
    return ⟨source, target, if isNoCondition (v.given "condition" .null) then .null else v.given "condition" .null,
      v.given "label" .null⟩) := by
  simp only [ofValue, Value.entry, Value.entryOr_of_isMap hv]
  rfl

theorem describes_of_ofValue (hv : v.isMap = true) (h : ofValue v = .ok c) : Describes v c := by
  rw [ofValue_of_isMap hv] at h
  obtain ⟨source, hsource, h⟩ := bind_eq_ok.1 h
  obtain ⟨target, htarget, h⟩ := bind_eq_ok.1 h
  cases h
  exact ⟨Value.eq_text_of_written hsource, Value.eq_text_of_written htarget, rfl, rfl⟩

theorem exists_ofValue_iff (hv : v.isMap = true) : (∃ c, ofValue v = .ok c) ↔ Readable v := by
  rw [ofValue_of_isMap hv]
  constructor
  · rintro ⟨c, h⟩
    obtain ⟨source, hsource, h⟩ := bind_eq_ok.1 h
    obtain ⟨target, htarget, -⟩ := bind_eq_ok.1 h
    exact ⟨(Value.written_eq_ok_iff.1 hsource).1, (Value.written_eq_ok_iff.1 htarget).1⟩
  · rintro ⟨hsource, htarget⟩
    exact ⟨_, bind_eq_ok.2 ⟨_, Value.written_of_isWritable hsource,
      bind_eq_ok.2 ⟨_, Value.written_of_isWritable htarget, rfl⟩⟩⟩

theorem ofValue_of_not_isMap (hv : v.isMap = false) : ofValue v = .error .noMember := by
  rw [ofValue, Value.entryOr_of_not_isMap hv]
  rfl

theorem fault_of_isMap (hv : v.isMap = true) {fault : Fault} (h : ofValue v = .error fault) : fault = .badValue := by
  rw [ofValue_of_isMap hv] at h
  obtain hsource | ⟨source, -, h⟩ := bind_eq_error h
  · exact Value.written_eq_error hsource
  obtain htarget | ⟨target, -, h⟩ := bind_eq_error h
  · exact Value.written_eq_error htarget
  · cases h

end Connection

namespace Workflow

/-! ## The parts of a definition -/

variable {v : Value} {newId newUuid : String} {w : Workflow} {fault : Fault}

/-- The nodes that a definition lists. -/
def steps (v : Value) : Except Fault (List Value) := do
  (← v.entry "nodes").iterateOrNone

/-- What is read of a definition besides its nodes and connections. -/
structure Heading where
  id? : Option String
  uuid : String
  status : WorkflowStatus
  settings : List (Scalar × Value)

/-- The heading of a definition. -/
def Heading.ofValue (v : Value) : Except Fault Heading := do
  let id? ← idText? (v.given "id" .null)
  let uuid ← (v.given "uuid" .null).written
  let status ← WorkflowStatus.ofValue (v.given "status" (.str "draft"))
  let settings ← ((v.given "settings" .null).orElse (.map [])).mapping
  return ⟨id?, uuid, status, settings⟩

/-- The workflow with a heading, nodes and connections, and the other parts of a definition as they are. -/
def Heading.workflow (h : Heading) (v : Value) (newId newUuid : String) (nodes : List Node)
    (connections : List Connection) : Workflow where
  id := h.id?.getD newId
  uuid := if (v.given "uuid" .null).isPresent then h.uuid else newUuid
  name := v.given "name" (.str "")
  description := v.given "description" .null
  status := h.status
  triggers := (v.given "triggers" .null).orElse (.list [])
  nodes := nodes
  connections := connections
  vars := (v.given "variables" .null).orElse (.map [])
  settings := Entries.insertAll standardSettings h.settings
  version := v.given "version" (.int 1)

theorem steps_of_isMap (hv : v.isMap = true) : steps v = (v.given "nodes" .null).iterateOrNone := by
  rw [steps, Value.entry, Value.entryOr_of_isMap hv]
  rfl

theorem listed_of_isMap (hv : v.isMap = true) : listed v =
    (if (v.given "connections" .null).isNull then v.given "edges" (.list [])
      else v.given "connections" .null).iterateOrNone := by
  simp only [listed, Value.entry, Value.entryOr_of_isMap hv, ok_bind]
  cases (v.given "connections" .null).isNull <;> rfl

/-- Nodes are read before connections, and the heading after both. -/
theorem ofValue_of_isMap (hv : v.isMap = true) : ofValue v newId newUuid = (do
    let nodes ← (← steps v).mapM Node.ofValue
    let connections ← (← listed v).mapM Connection.ofValue
    return (← Heading.ofValue v).workflow v newId newUuid nodes connections) := by
  rw [steps_of_isMap hv, listed_of_isMap hv]
  simp only [ofValue, Heading.ofValue, Value.entry, Value.entryOr_of_isMap hv, bind_assoc, ok_bind, pure_bind]
  cases (v.given "connections" .null).isNull <;> rfl

theorem idText?_cases (v : Value) :
    (∃ id?, idText? v = .ok id?) ∧ v.isWritable = true ∨ idText? v = .error .badValue ∧ v.isWritable = false := by
  cases hv : v.isWritable with
  | true =>
    refine .inl ⟨?_, rfl⟩
    unfold idText?
    split
    · exact ⟨_, rfl⟩
    · exact ⟨_, rfl⟩
    · rw [Value.written_of_isWritable hv]
      exact ⟨_, rfl⟩
  | false =>
    refine .inr ⟨?_, rfl⟩
    unfold idText?
    split
    · cases hv
    · cases hv
    · rw [Value.written, hv]
      rfl

namespace Heading

theorem fault_of_ofValue (h : ofValue v = .error fault) : fault = .badValue ∨ fault = .wrongType := by
  obtain hid | ⟨id?, -, h⟩ := bind_eq_error h
  · obtain ⟨⟨id?, hok⟩, -⟩ | ⟨hbad, -⟩ := idText?_cases (v.given "id" .null)
    · rw [hok] at hid
      cases hid
    · rw [hbad] at hid
      exact .inl (Except.error.inj hid).symm
  obtain huuid | ⟨uuid, -, h⟩ := bind_eq_error h
  · exact .inl (Value.written_eq_error huuid)
  obtain hstatus | ⟨status, -, h⟩ := bind_eq_error h
  · exact .inl (WorkflowStatus.ofValue_eq_error hstatus)
  obtain hsettings | ⟨settings, -, h⟩ := bind_eq_error h
  · exact .inr (Value.mapping_eq_error hsettings)
  · cases h

/-- Where the status and the settings have the right form, only ids can make a heading unreadable. -/
theorem exists_ofValue_iff {status : WorkflowStatus} {settings : List (Scalar × Value)}
    (hstatus : v.given "status" (.str "draft") = .str status.text)
    (hsettings : (v.given "settings" .null).orElse (.map []) = .map settings) :
    (∃ h, ofValue v = .ok h) ↔ (v.given "id" .null).isWritable = true ∧ (v.given "uuid" .null).isWritable = true := by
  have hread : WorkflowStatus.ofValue (v.given "status" (.str "draft")) = .ok status := by
    rw [hstatus, WorkflowStatus.ofValue_text]
  have hmapping : ((v.given "settings" .null).orElse (.map [])).mapping = .ok settings := by
    rw [hsettings]
    rfl
  obtain ⟨⟨id?, hid?⟩, hid⟩ | ⟨hid?, hid⟩ := idText?_cases (v.given "id" .null)
  · simp only [ofValue, hid?, hread, hmapping, hid, ok_bind]
    cases huuid : (v.given "uuid" .null).isWritable with
    | true => simp [Value.written_of_isWritable huuid, ok_bind, pure, Except.pure]
    | false => simp [Value.written, huuid, bind, Except.bind]
  · simp [ofValue, hid?, hid, bind, Except.bind]

end Heading

end Workflow

end Flowline
