import Flowline.Proofs.Value.Records
import Flowline.Workflow.Record

/-! # Workflows that are read again

A workflow that was read from a definition is read again from its own record, and the record stays the same.
Only what the record leaves out - a name, a type of action, a label or a description that is not present -
becomes null; the settings keep their order, and the conditions of connections stay what they are. -/

namespace Flowline

/-! ## Parts of records -/

@[simp] theorem lookup_presentEntry (key other : String) (v : Value) :
    (presentEntry key v).lookup other = if other = key ∧ v.isPresent = true then some v else none := by
  unfold presentEntry
  by_cases hv : v.isPresent = true
  · by_cases hkey : other = key
    · simp [hv, hkey]
    · have hne : (other == key) = false := beq_eq_false_iff_ne.2 hkey
      simp [hv, hkey, hne, List.lookup_cons]
  · simp [hv]

/-- A part that is not present is left out, as null is. -/
theorem presentEntry_orElse (key : String) (v : Value) : presentEntry key (v.orElse .null) = presentEntry key v := by
  have hnull : Value.null.isPresent = false := rfl
  unfold presentEntry Value.orElse
  by_cases hv : v.isPresent = true
  · simp [hv]
  · simp [hv, hnull]

theorem WorkflowStatus.ofValue_text (status : WorkflowStatus) : ofValue (.str status.text) = .ok status := by
  cases status <;> rfl

/-! ## Nodes and connections -/

namespace Node

/-- The node with null for what its record leaves out. -/
def tidied (n : Node) : Node := { n with actionType := n.actionType.orElse .null, name := n.name.orElse .null }

theorem toValue_tidied (n : Node) : n.tidied.toValue = n.toValue := by
  rw [toValue, toValue, tidied, presentEntry_orElse, presentEntry_orElse]

theorem ofValue_toValue {n : Node} (hconfig : n.config.orElse (.map []) = n.config) :
    ofValue n.toValue = .ok n.tidied := by
  simp [ofValue, toValue, tidied, List.lookup_append, List.lookup_cons, Value.getD_isPresent, hconfig, bind, Except.bind,
    pure, Except.pure]

theorem config_of_ofValue {v : Value} {n : Node} (h : ofValue v = .ok n) : n.config.orElse (.map []) = n.config := by
  obtain ⟨id, -, h⟩ := bind_eq_ok.1 h
  obtain ⟨type, -, h⟩ := bind_eq_ok.1 h
  obtain ⟨idText, -, h⟩ := bind_eq_ok.1 h
  obtain ⟨typeText, -, h⟩ := bind_eq_ok.1 h
  obtain ⟨config, -, h⟩ := bind_eq_ok.1 h
  obtain ⟨actionType, -, h⟩ := bind_eq_ok.1 h
  obtain ⟨name, -, h⟩ := bind_eq_ok.1 h
  cases h
  exact Value.orElse_orElse config (.map [])

end Node

namespace Connection

/-- The connection with null for what its record leaves out. -/
def tidied (c : Connection) : Connection := { c with label := c.label.orElse .null }

theorem toValue_tidied (c : Connection) : c.tidied.toValue = c.toValue := by
  rw [toValue, toValue, tidied, presentEntry_orElse]

theorem lookup_condition (v : Value) (other : String) :
    ((if v.isNull = true then [] else [("condition", v)]) : List (String × Value)).lookup other =
      if other = "condition" ∧ v.isNull = false then some v else none := by
  by_cases hv : v.isNull = true
  · simp [hv]
  · by_cases hkey : other = "condition"
    · simp [hv, hkey]
    · have hne : (other == "condition") = false := beq_eq_false_iff_ne.2 hkey
      simp [hv, hkey, hne, List.lookup_cons]

theorem ofValue_toValue {c : Connection} (hcondition : isNoCondition c.condition = true → c.condition = .null) :
    ofValue c.toValue = .ok c.tidied := by
  have hkept : (if isNoCondition c.condition = true then Value.null else c.condition) = c.condition := by
    split
    · next hnone => exact (hcondition hnone).symm
    · rfl
  have hcond : ((if c.condition.isNull = false then some c.condition else none) : Option Value).getD .null =
      c.condition := by
    cases c.condition with
    | scalar s => cases s <;> rfl
    | _ => rfl
  simp [ofValue, toValue, tidied, List.lookup_append, List.lookup_cons, lookup_condition, hcond, hkept,
    Value.getD_isPresent, bind, Except.bind, pure, Except.pure]

theorem condition_of_ofValue {v : Value} {c : Connection} (h : ofValue v = .ok c)
    (hnone : isNoCondition c.condition = true) : c.condition = .null := by
  obtain ⟨source₁, -, h⟩ := bind_eq_ok.1 h
  obtain ⟨source, -, h⟩ := bind_eq_ok.1 h
  obtain ⟨target₁, -, h⟩ := bind_eq_ok.1 h
  obtain ⟨target, -, h⟩ := bind_eq_ok.1 h
  obtain ⟨condition, -, h⟩ := bind_eq_ok.1 h
  obtain ⟨sourceText, -, h⟩ := bind_eq_ok.1 h
  obtain ⟨targetText, -, h⟩ := bind_eq_ok.1 h
  obtain ⟨label, -, h⟩ := bind_eq_ok.1 h
  cases h
  dsimp only at hnone ⊢
  split
  · rfl
  · next hsome =>
    rw [if_neg hsome] at hnone
    exact absurd hnone hsome

theorem isNull_of_isNoCondition {v : Value} (h : isNoCondition v = false) : v.isNull = false := by
  cases hnull : v.isNull with
  | false => rfl
  | true =>
    unfold Value.isNull at hnull
    split at hnull
    · cases h
    · cases hnull

/-- What the record of a connection that is read has: its ends under their own names, its condition unless it
is empty, and its label if it is present. -/
structure Normalizes (v record : Value) : Prop where
  source : record.field? "source" = some (.str ((v.field? "source").getD ((v.field? "from").getD (.str ""))).text)
  target : record.field? "target" = some (.str ((v.field? "target").getD ((v.field? "to").getD (.str ""))).text)
  condition : record.field? "condition" = (v.field? "condition").filter (!isNoCondition ·)
  label : record.field? "label" = (v.field? "label").filter (·.isPresent)
  aliases : record.field? "from" = none ∧ record.field? "to" = none

theorem normalizes_of_ofValue {v : Value} {c : Connection} (h : ofValue v = .ok c) : Normalizes v c.toValue := by
  cases v with
  | map entries =>
    have hget (key : String) : (Value.map entries).field? key = Entries.get? entries (.str key) := rfl
    obtain ⟨_, ⟨⟩, h⟩ := bind_eq_ok.1 h
    obtain ⟨_, ⟨⟩, h⟩ := bind_eq_ok.1 h
    obtain ⟨_, ⟨⟩, h⟩ := bind_eq_ok.1 h
    obtain ⟨_, ⟨⟩, h⟩ := bind_eq_ok.1 h
    obtain ⟨_, ⟨⟩, h⟩ := bind_eq_ok.1 h
    obtain ⟨source, hsource, h⟩ := bind_eq_ok.1 h
    obtain rfl := Value.eq_text_of_written hsource
    obtain ⟨target, htarget, h⟩ := bind_eq_ok.1 h
    obtain rfl := Value.eq_text_of_written htarget
    cases h
    constructor
    case source => simp [toValue, hget]
    case target => simp [toValue, hget, List.lookup_cons]
    case condition =>
      simp only [toValue, Value.field?_object, hget, List.lookup_append, lookup_condition, lookup_presentEntry]
      cases Entries.get? entries (.str "condition") with
      | none => rfl
      | some u =>
        cases hnone : isNoCondition u with
        | true => simp [hnone, Value.isNull, List.lookup_cons, Option.filter]
        | false => simp [hnone, isNull_of_isNoCondition hnone, List.lookup_cons, Option.filter]
    case label =>
      simp only [toValue, Value.field?_object, hget, List.lookup_append, lookup_condition, lookup_presentEntry]
      cases Entries.get? entries (.str "label") with
      | none => rfl
      | some u => simp [List.lookup_cons, Option.filter]
    case aliases => simp [toValue, List.lookup_cons, List.lookup_append, lookup_condition]
  | _ => cases h

end Connection

/-! ## Workflows -/

namespace Workflow

/-- What is so of every workflow that was read: its ids are there, what is absent has its standard form, and the
settings are put over the standard ones. -/
structure Settled (w : Workflow) : Prop where
  id_ne : w.id ≠ ""
  uuid_ne : w.uuid ≠ ""
  triggers : w.triggers.orElse (.list []) = w.triggers
  configs : ∀ n ∈ w.nodes, n.config.orElse (.map []) = n.config
  conditions : ∀ c ∈ w.connections, Connection.isNoCondition c.condition = true → c.condition = .null
  vars : w.vars.orElse (.map []) = w.vars
  settings : Entries.insertAll standardSettings w.settings = w.settings

/-- The workflow with null for what its record leaves out. -/
def tidied (w : Workflow) : Workflow :=
  { w with
    description := w.description.orElse .null
    nodes := w.nodes.map Node.tidied
    connections := w.connections.map Connection.tidied }

theorem toValue_tidied (w : Workflow) : w.tidied.toValue = w.toValue := by
  have hnodes : w.tidied.nodes.map Node.toValue = w.nodes.map Node.toValue := by
    simp [tidied, Node.toValue_tidied]
  have hconnections : w.tidied.connections.map Connection.toValue = w.connections.map Connection.toValue := by
    simp [tidied, Connection.toValue_tidied]
  rw [toValue, toValue, hnodes, hconnections]
  simp only [tidied, presentEntry_orElse]

theorem idText?_ne_empty {v : Value} {id : String} (h : idText? v = .ok (some id)) : id ≠ "" := by
  unfold idText? at h
  split at h
  · cases h
  · split at h
    · cases h
    · next hne =>
      cases h
      simpa using hne
  · next hnotNull hnotStr =>
    obtain ⟨text, htext, h⟩ := bind_eq_ok.1 h
    cases h
    rw [Value.eq_text_of_written htext]
    refine Value.text_ne_empty ?_
    cases v with
    | scalar s =>
      cases s with
      | str s => exact absurd rfl (hnotStr s)
      | _ => rfl
    | _ => rfl

theorem text_ne_empty_of_isPresent {v : Value} (h : v.isPresent = true) : v.text ≠ "" := by
  cases hstr : v.isStr with
  | false => exact Value.text_ne_empty hstr
  | true =>
    unfold Value.isStr at hstr
    split at hstr
    · simpa [Value.isPresent] using h
    · cases hstr

theorem distinct_standardSettings : Entries.Distinct standardSettings := by
  unfold Entries.Distinct standardSettings
  decide

variable {v : Value} {newId newUuid : String} {w : Workflow}

/-- The connections that a definition lists, under one name or the other. -/
def listed (v : Value) : Except Fault (List Value) := do
  let connections ← v.entry "connections"
  let connections ← if connections.isNull then v.entryOr "edges" (.list []) else pure connections
  connections.iterateOrNone

/-- Where the parts of a workflow that is read come from. -/
structure Read (v : Value) (newId newUuid : String) (w : Workflow) : Prop where
  id : ∃ given id?, idText? given = .ok id? ∧ w.id = id?.getD newId
  uuid : ∃ given : Value, w.uuid = if given.isPresent then given.text else newUuid
  triggers : ∃ given : Value, w.triggers = given.orElse (.list [])
  nodes : ∃ items : List Value, items.mapM Node.ofValue = .ok w.nodes
  connections : ∃ items, listed v = .ok items ∧ items.mapM Connection.ofValue = .ok w.connections
  vars : ∃ given : Value, w.vars = given.orElse (.map [])
  settings : ∃ given, w.settings = Entries.insertAll standardSettings given

theorem read_of_ofValue (h : ofValue v newId newUuid = .ok w) : Read v newId newUuid w := by
  obtain ⟨connections?, hconnections?, h⟩ := bind_eq_ok.1 h
  dsimp only at h
  split at h
  all_goals
    obtain ⟨given, hgiven, h⟩ := bind_eq_ok.1 h
    obtain ⟨nodes?, -, h⟩ := bind_eq_ok.1 h
    obtain ⟨items, -, h⟩ := bind_eq_ok.1 h
    obtain ⟨nodes, hnodes, h⟩ := bind_eq_ok.1 h
    obtain ⟨drawn, hdrawn, h⟩ := bind_eq_ok.1 h
    obtain ⟨connections, hconnections, h⟩ := bind_eq_ok.1 h
    obtain ⟨id, -, h⟩ := bind_eq_ok.1 h
    obtain ⟨id?, hid?, h⟩ := bind_eq_ok.1 h
    obtain ⟨uuid, -, h⟩ := bind_eq_ok.1 h
    obtain ⟨uuidText, huuidText, h⟩ := bind_eq_ok.1 h
    obtain rfl := Value.eq_text_of_written huuidText
    obtain ⟨status?, -, h⟩ := bind_eq_ok.1 h
    obtain ⟨status, -, h⟩ := bind_eq_ok.1 h
    obtain ⟨settings?, -, h⟩ := bind_eq_ok.1 h
    obtain ⟨settings, -, h⟩ := bind_eq_ok.1 h
    obtain ⟨name, -, h⟩ := bind_eq_ok.1 h
    obtain ⟨description, -, h⟩ := bind_eq_ok.1 h
    obtain ⟨triggers, -, h⟩ := bind_eq_ok.1 h
    obtain ⟨vars, -, h⟩ := bind_eq_ok.1 h
    obtain ⟨version, -, h⟩ := bind_eq_ok.1 h
    cases h
    refine ⟨⟨id, id?, hid?, rfl⟩, ⟨uuid, rfl⟩, ⟨triggers, rfl⟩, ⟨items, hnodes⟩, ⟨drawn, ?_, hconnections⟩, ⟨vars, rfl⟩,
      ⟨settings, rfl⟩⟩
    simp_all [listed, bind, Except.bind]

theorem settled_of_ofValue (hid : newId ≠ "") (huuid : newUuid ≠ "") (h : ofValue v newId newUuid = .ok w) :
    w.Settled := by
  have hread := read_of_ofValue h
  constructor
  case id_ne =>
    obtain ⟨id, id?, htext, heq⟩ := hread.id
    rw [heq]
    cases id? with
    | none => exact hid
    | some text => exact idText?_ne_empty htext
  case uuid_ne =>
    obtain ⟨uuid, heq⟩ := hread.uuid
    rw [heq]
    split
    · next hpresent => exact text_ne_empty_of_isPresent hpresent
    · exact huuid
  case triggers =>
    obtain ⟨triggers, heq⟩ := hread.triggers
    rw [heq, Value.orElse_orElse]
  case configs =>
    obtain ⟨items, hnodes⟩ := hread.nodes
    exact forall_of_mapM (fun _ _ => Node.config_of_ofValue) hnodes
  case conditions =>
    obtain ⟨items, -, hconnections⟩ := hread.connections
    exact forall_of_mapM (fun _ _ hread => Connection.condition_of_ofValue hread) hconnections
  case vars =>
    obtain ⟨vars, heq⟩ := hread.vars
    rw [heq, Value.orElse_orElse]
  case settings =>
    obtain ⟨settings, heq⟩ := hread.settings
    have htexts : ∀ p ∈ standardSettings, ∃ s, p.1 = .str s := by simp [standardSettings]
    rw [heq]
    exact Entries.insertAll_insertAll htexts distinct_standardSettings settings

theorem normalizes_of_ofValue (h : ofValue v newId newUuid = .ok w) : ∃ items, listed v = .ok items ∧
    List.Forall₂ Connection.Normalizes items (w.connections.map Connection.toValue) := by
  obtain ⟨items, hitems, hconnections⟩ := (read_of_ofValue h).connections
  refine ⟨items, hitems, List.forall₂_map_right_iff.2 ?_⟩
  exact forall₂_of_mapM (fun _ _ => Connection.normalizes_of_ofValue) hconnections

/-- A workflow that was read is read again from its record. -/
theorem ofValue_toValue (hw : w.Settled) (newId newUuid : String) : ofValue w.toValue newId newUuid = .ok w.tidied := by
  have hnodes : (w.nodes.map Node.toValue).mapM Node.ofValue = .ok (w.nodes.map Node.tidied) :=
    mapM_eq_ok fun n hn => Node.ofValue_toValue (hw.configs n hn)
  have hconnections : (w.connections.map Connection.toValue).mapM Connection.ofValue =
      .ok (w.connections.map Connection.tidied) :=
    mapM_eq_ok fun c hc => Connection.ofValue_toValue (hw.conditions c hc)
  have hid : idText? (.str w.id) = .ok (some w.id) := by simp [idText?, hw.id_ne]
  have huuid : (Value.str w.uuid).isPresent = true := by simp [Value.isPresent, hw.uuid_ne]
  simp [ofValue, toValue, tidied, List.lookup_cons, Value.isNull, hnodes, hconnections, hid, huuid,
    WorkflowStatus.ofValue_text, Value.mapping, Value.getD_isPresent, hw.triggers, hw.vars, hw.settings, bind, Except.bind,
    pure, Except.pure]

end Workflow

end Flowline
