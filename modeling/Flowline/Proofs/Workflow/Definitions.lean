import Flowline.Proofs.Workflow.Reading
import Flowline.Workflow.Source
import Mathlib.Data.List.Nodup

/-! # Definitions that are accepted

A definition that has the right form is accepted exactly if each of its nodes gives an id and a type, no two ids
have the same text, and connections lead from node to node (`accepts_wellFormed`). Only an item that is no mapping
makes parsing fail in a way that is not reported (`faults_reported`). -/

namespace Flowline.Workflow

variable {v : Value} {newId newUuid : String} {w : Workflow} {fault : Fault}

/-! ## What is wrong with a workflow -/

theorem mem_repeated {s : String} {texts : List String} : s ∈ repeated texts ↔ 2 ≤ texts.count s := by
  induction texts with
  | nil => simp [repeated]
  | cons t rest ih =>
    have hcount : s ∈ rest ↔ 1 ≤ rest.count s := List.one_le_count_iff.symm
    rw [repeated, List.count_cons]
    by_cases hst : t = s
    · subst hst
      by_cases hin : t ∈ rest
      · by_cases hre : t ∈ repeated rest
        · have htwo := ih.1 hre
          simp [hin, hre]
        · have hone := hcount.1 hin
          simp [hin, hre]
      · have hre : t ∉ repeated rest := fun h => hin (hcount.2 (by have := ih.1 h; omega))
        have hzero : rest.count t = 0 := List.count_eq_zero.2 hin
        simp [hin, hre, hzero]
    · have hne : (t == s) = false := beq_eq_false_iff_ne.2 hst
      split <;> simp [Ne.symm hst, ih, hne]

theorem repeated_eq_nil_iff {texts : List String} : repeated texts = [] ↔ texts.Nodup := by
  rw [List.nodup_iff_count_le_one, List.eq_nil_iff_forall_not_mem]
  refine forall_congr' fun s => ?_
  rw [mem_repeated]
  omega

theorem repeatedIds_eq_nil_iff : w.repeatedIds = [] ↔ (w.nodes.map (·.id)).Nodup := by
  rw [← repeated_eq_nil_iff, repeatedIds, ← List.length_eq_zero_iff, List.length_mergeSort, List.length_eq_zero_iff]

theorem nodeProblems_eq_nil_iff : (w.nodes.zipIdx.flatMap fun (n, place) => nodeProblems place n) = [] ↔
    ∀ n ∈ w.nodes, n.id ≠ "" ∧ n.type ≠ "" := by
  have hnode (n : Node) (place : Nat) : nodeProblems place n = [] ↔ n.id ≠ "" ∧ n.type ≠ "" := by
    simp [nodeProblems]
  simp only [List.flatMap_eq_nil_iff, Prod.forall, hnode]
  refine ⟨fun h n hn => ?_, fun h n place hn => h n (List.fst_mem_of_mem_zipIdx hn)⟩
  obtain ⟨place, hplace, rfl⟩ := List.getElem_of_mem hn
  exact h _ place (List.mem_zipIdx_iff_getElem?.2 (List.getElem?_eq_getElem hplace))

/-- A workflow has no problems exactly if its nodes have ids and types, the ids are different, and its
connections lead from node to node. -/
theorem problems_eq_nil_iff : w.problems = [] ↔ (∀ n ∈ w.nodes, n.id ≠ "" ∧ n.type ≠ "") ∧
    (w.nodes.map (·.id)).Nodup ∧
    ∀ c ∈ w.connections, c.source ∈ w.nodes.map (·.id) ∧ c.target ∈ w.nodes.map (·.id) := by
  have hconnections : w.connections.flatMap (connectionProblems (w.nodes.map (·.id))) = [] ↔
      ∀ c ∈ w.connections, c.source ∈ w.nodes.map (·.id) ∧ c.target ∈ w.nodes.map (·.id) := by
    simp only [List.flatMap_eq_nil_iff]
    refine forall₂_congr fun c _ => ?_
    simp [connectionProblems]
  have hids : (if w.repeatedIds.isEmpty then []
      else [s!"Duplicate node IDs found: {(Value.strings w.repeatedIds).quoted}"]) = [] ↔
      (w.nodes.map (·.id)).Nodup := by
    rw [← repeatedIds_eq_nil_iff]
    simp
  rw [problems]
  simp only [List.append_eq_nil_iff, nodeProblems_eq_nil_iff, hids, hconnections, and_assoc]

/-! ## Parsing -/

theorem isMap_unwrapped (hv : v.isMap = true) : (unwrapped v).isMap = true := by
  unfold unwrapped
  split
  · rfl
  · exact hv

theorem unwrapped_of_bare (hv : v.field? "workflow" = none) : unwrapped v = v := by
  rw [unwrapped, hv]

theorem parse_of_isMap (hv : v.isMap = true) : parse v newId newUuid = (do
    let w ← (ofValue (unwrapped v) newId newUuid).mapError formFault
    if w.problems.isEmpty then return w else throw (.invalidWorkflow w.problems)) := by
  rw [parse, hv]
  rfl

theorem parse_eq_ok_iff (hv : v.isMap = true) :
    parse v newId newUuid = .ok w ↔ ofValue (unwrapped v) newId newUuid = .ok w ∧ w.problems = [] := by
  rw [parse_of_isMap hv]
  cases hread : ofValue (unwrapped v) newId newUuid with
  | error fault =>
    constructor
    · exact nofun
    · exact fun h => nomatch h.1
  | ok u =>
    change (if u.problems.isEmpty then Except.ok u else Except.error (Fault.invalidWorkflow u.problems)) = .ok w ↔ _
    cases hproblems : u.problems with
    | nil =>
      refine ⟨fun h => ?_, fun h => h.1⟩
      cases h
      exact ⟨rfl, hproblems⟩
    | cons problem problems =>
      refine ⟨nofun, fun h => ?_⟩
      obtain ⟨hu, hnone⟩ := h
      cases hu
      rw [hproblems] at hnone
      cases hnone

/-- Parsing fails with a fault of reading, which is reported where it is one of form, or with problems. -/
theorem fault_of_parse (hv : v.isMap = true) (h : parse v newId newUuid = .error fault) :
    (∃ cause, ofValue (unwrapped v) newId newUuid = .error cause ∧ fault = formFault cause) ∨
      ∃ problems, fault = .invalidWorkflow problems := by
  rw [parse_of_isMap hv] at h
  cases hread : ofValue (unwrapped v) newId newUuid with
  | error cause =>
    rw [hread] at h
    exact .inl ⟨cause, rfl, (Except.error.inj h).symm⟩
  | ok w =>
    rw [hread] at h
    change (if w.problems.isEmpty then Except.ok w else Except.error (Fault.invalidWorkflow w.problems)) = .error fault
      at h
    split at h
    · cases h
    · exact .inr ⟨w.problems, (Except.error.inj h).symm⟩

/-! ## Definitions of the right form -/

/-- The entry of an item under a key can name something: it is there, can be written, and is not the empty text.
Null can: it is written as a word. -/
def Names (v : Value) (key : String) : Prop :=
  ∃ name, v.field? key = some name ∧ name.isWritable = true ∧ name.text ≠ ""

/-- A mapping that holds no definition under a key of its own, whose nodes and connections are mappings, whose
settings are a mapping and whose status is one of the four or absent. -/
structure Shaped (v : Value) (nodes connections : List Value) : Prop where
  isMap : v.isMap = true
  bare : v.field? "workflow" = none
  steps : steps v = .ok nodes
  nodes : ∀ n ∈ nodes, n.isMap = true
  listed : listed v = .ok connections
  connections : ∀ c ∈ connections, c.isMap = true
  settings : ∃ settings, v.field? "settings" = some (.map settings)
  status : v.field? "status" = none ∨ ∃ status : WorkflowStatus, v.field? "status" = some (.str status.text)

/-- The texts of the ids that nodes give. -/
def idTexts (nodes : List Value) : List String := nodes.map fun n => (n.given "id" (.str "")).text

/-- A definition names each of its nodes and their types, no two nodes by the same text, and connects nodes that
it names; and what it gives as its own ids can be written. -/
structure WellFormed (v : Value) (nodes connections : List Value) : Prop where
  ids : (v.given "id" .null).isWritable = true ∧ (v.given "uuid" .null).isWritable = true
  named : ∀ n ∈ nodes, Names n "id" ∧ Names n "type"
  distinct : (idTexts nodes).Nodup
  linked : ∀ c ∈ connections, Connection.Readable c ∧ (Connection.sourceOf c).text ∈ idTexts nodes ∧
    (Connection.targetOf c).text ∈ idTexts nodes

theorem names_iff {key : String} :
    Names v key ↔ (v.given key (.str "")).isWritable = true ∧ (v.given key (.str "")).text ≠ "" := by
  unfold Names Value.given
  cases v.field? key with
  | none => simp
  | some name => simp

section Shaped
variable {nodes connections : List Value} (hshape : Shaped v nodes connections)
include hshape

/-- Reading a definition of the right form fails only where something has to be written and cannot be. -/
theorem Shaped.exists_ofValue_iff : (∃ w, ofValue v newId newUuid = .ok w) ↔
    ((v.given "id" .null).isWritable = true ∧ (v.given "uuid" .null).isWritable = true) ∧
    (∀ n ∈ nodes, Node.Readable n) ∧ ∀ c ∈ connections, Connection.Readable c := by
  obtain ⟨status, hstatus⟩ : ∃ status : WorkflowStatus, v.given "status" (.str "draft") = .str status.text := by
    obtain hnone | ⟨status, hsome⟩ := hshape.status
    · exact ⟨.draft, by rw [Value.given, hnone]; rfl⟩
    · exact ⟨status, by rw [Value.given, hsome]; rfl⟩
  obtain ⟨settings, hsettings⟩ := hshape.settings
  have hmapping : (v.given "settings" .null).orElse (.map []) = .map settings := by
    rw [Value.given, hsettings]
    exact Value.orElse_map settings
  have hnodes : (∃ read, nodes.mapM Node.ofValue = .ok read) ↔ ∀ n ∈ nodes, Node.Readable n := by
    rw [exists_mapM_iff]
    exact forall₂_congr fun n hn => Node.exists_ofValue_iff (hshape.nodes n hn)
  have hconnections : (∃ read, connections.mapM Connection.ofValue = .ok read) ↔
      ∀ c ∈ connections, Connection.Readable c := by
    rw [exists_mapM_iff]
    exact forall₂_congr fun c hc => Connection.exists_ofValue_iff (hshape.connections c hc)
  rw [← Heading.exists_ofValue_iff hstatus hmapping, ← hnodes, ← hconnections, ofValue_of_isMap hshape.isMap,
    hshape.steps, hshape.listed]
  simp only [ok_bind]
  constructor
  · rintro ⟨w, h⟩
    obtain ⟨read, hread, h⟩ := bind_eq_ok.1 h
    obtain ⟨drawn, hdrawn, h⟩ := bind_eq_ok.1 h
    obtain ⟨heading, hheading, -⟩ := bind_eq_ok.1 h
    exact ⟨⟨heading, hheading⟩, ⟨read, hread⟩, ⟨drawn, hdrawn⟩⟩
  · rintro ⟨⟨heading, hheading⟩, ⟨read, hread⟩, ⟨drawn, hdrawn⟩⟩
    exact ⟨_, bind_eq_ok.2 ⟨read, hread, bind_eq_ok.2 ⟨drawn, hdrawn, bind_eq_ok.2 ⟨heading, hheading, rfl⟩⟩⟩⟩

/-- What is read is what the definition lists, in its order. -/
theorem Shaped.describes (h : ofValue v newId newUuid = .ok w) :
    List.Forall₂ Node.Describes nodes w.nodes ∧ List.Forall₂ Connection.Describes connections w.connections := by
  rw [ofValue_of_isMap hshape.isMap, hshape.steps, hshape.listed] at h
  simp only [ok_bind] at h
  obtain ⟨read, hread, h⟩ := bind_eq_ok.1 h
  obtain ⟨drawn, hdrawn, h⟩ := bind_eq_ok.1 h
  obtain ⟨heading, -, h⟩ := bind_eq_ok.1 h
  cases h
  have hnodes := forall₂_of_mapM (P := fun n x => n.isMap = true → Node.Describes n x)
    (fun n x hx hn => Node.describes_of_ofValue hn hx) hread
  have hconnections := forall₂_of_mapM (P := fun c x => c.isMap = true → Connection.Describes c x)
    (fun c x hx hc => Connection.describes_of_ofValue hc hx) hdrawn
  exact ⟨(List.forall₂_and_left _ _).2 ⟨hshape.nodes, hnodes⟩ |>.imp fun _ _ h => h.2 h.1,
    (List.forall₂_and_left _ _).2 ⟨hshape.connections, hconnections⟩ |>.imp fun _ _ h => h.2 h.1⟩

end Shaped

theorem forall_mem_iff_of_forall₂ {α β : Type} {R : α → β → Prop} {P : α → Prop} {Q : β → Prop} {xs : List α}
    {ys : List β} (h : List.Forall₂ R xs ys) (hiff : ∀ x y, R x y → (P x ↔ Q y)) :
    (∀ x ∈ xs, P x) ↔ ∀ y ∈ ys, Q y := by
  induction h with
  | nil => simp
  | cons hxy _ ih => simp [hiff _ _ hxy, ih]

theorem ids_of_describes {nodes : List Value} {read : List Node} (h : List.Forall₂ Node.Describes nodes read) :
    read.map (·.id) = idTexts nodes := by
  induction h with
  | nil => rfl
  | cons hn _ ih => rw [List.map_cons, hn.id, ih]; rfl

/-- A definition of the right form is accepted exactly if it is well-formed. The nodes and the connections of the
workflow are then those that it lists, in its order; and the same definition under a key of a mapping of its own
gives the same. -/
theorem accepts_wellFormed {nodes connections : List Value} (hshape : Shaped v nodes connections)
    (newId newUuid : String) :
    ((∃ w, parse v newId newUuid = .ok w) ↔ WellFormed v nodes connections) ∧
    (∀ w, parse v newId newUuid = .ok w →
      List.Forall₂ Node.Describes nodes w.nodes ∧ List.Forall₂ Connection.Describes connections w.connections) ∧
    parse (.object [("workflow", v)]) newId newUuid = parse v newId newUuid := by
  have hparse (w : Workflow) : parse v newId newUuid = .ok w ↔ ofValue v newId newUuid = .ok w ∧ w.problems = [] := by
    rw [parse_eq_ok_iff hshape.isMap, unwrapped_of_bare hshape.bare]
  -- What reading gives has problems exactly where the definition is not well-formed.
  have hproblems (w : Workflow) (hw : ofValue v newId newUuid = .ok w) :
      w.problems = [] ↔ WellFormed v nodes connections := by
    obtain ⟨hnodes, hconnections⟩ := hshape.describes hw
    obtain ⟨hids, hreadable, hlinks⟩ := hshape.exists_ofValue_iff.1 ⟨w, hw⟩
    have hnamed : (∀ n ∈ w.nodes, n.id ≠ "" ∧ n.type ≠ "") ↔ ∀ n ∈ nodes, Names n "id" ∧ Names n "type" := by
      rw [← forall_mem_iff_of_forall₂ (P := fun n => (n.given "id" (.str "")).text ≠ "" ∧
        (n.given "type" (.str "")).text ≠ "") hnodes fun n x hx => by rw [hx.id, hx.type]]
      refine forall₂_congr fun n hn => ?_
      simp only [names_iff, hreadable n hn |>.1, hreadable n hn |>.2, true_and]
    have hlinked : (∀ c ∈ w.connections, c.source ∈ idTexts nodes ∧ c.target ∈ idTexts nodes) ↔
        ∀ c ∈ connections, (Connection.sourceOf c).text ∈ idTexts nodes ∧
          (Connection.targetOf c).text ∈ idTexts nodes :=
      (forall_mem_iff_of_forall₂ hconnections fun c x hx => by rw [hx.source, hx.target]).symm
    rw [problems_eq_nil_iff, ids_of_describes hnodes, hnamed, hlinked]
    constructor
    · rintro ⟨hnames, hdistinct, hends⟩
      exact ⟨hids, hnames, hdistinct, fun c hc => ⟨hlinks c hc, hends c hc⟩⟩
    · exact fun h => ⟨h.named, h.distinct, fun c hc => (h.linked c hc).2⟩
  refine ⟨⟨?_, fun h => ?_⟩, fun w hw => hshape.describes ((hparse w).1 hw).1, ?_⟩
  · rintro ⟨w, hw⟩
    obtain ⟨hread, hnone⟩ := (hparse w).1 hw
    exact (hproblems w hread).1 hnone
  · obtain ⟨w, hw⟩ : ∃ w, ofValue v newId newUuid = .ok w := by
      refine hshape.exists_ofValue_iff.2 ⟨h.ids, fun n hn => ?_, fun c hc => (h.linked c hc).1⟩
      obtain ⟨hid, htype⟩ := h.named n hn
      exact ⟨(names_iff.1 hid).1, (names_iff.1 htype).1⟩
    exact ⟨w, (hparse w).2 ⟨hw, (hproblems w hw).2 h⟩⟩
  · have hv := hshape.isMap
    have hinner : unwrapped (.object [("workflow", v)]) = unwrapped v := by
      rw [unwrapped_of_bare hshape.bare, unwrapped, Value.field?_object]
      cases v with
      | map entries => rfl
      | _ => cases hv
    rw [parse_of_isMap hv, parse_of_isMap (v := .object [("workflow", v)]) rfl, hinner]

/-! ### Ids of several kinds -/

/-- A node with a number as its id, one with a text, and a way between them whose ends are named in the other
way. -/
def numbered : Value :=
  .object [
    ("nodes", .list [
      .object [("id", .int 1), ("type", .str "start")],
      .object [("id", .str "2"), ("type", .str "end")]]),
    ("edges", .list [.object [("from", .str "1"), ("to", .int 2)]]),
    ("settings", .object [])]

/-- A single node whose id is null. -/
def unnamed : Value :=
  .object [("nodes", .list [.object [("id", .null), ("type", .str "start")]]), ("settings", .object [])]

theorem accepts_wellFormed_numbered : ∃ nodes connections w, Shaped numbered nodes connections ∧
    parse numbered "flow" "flow" = .ok w ∧ List.Forall₂ Node.Describes nodes w.nodes ∧ idTexts nodes = ["1", "2"] := by
  have hshape : Shaped numbered _ _ :=
    ⟨rfl, rfl, rfl, by decide, rfl, by decide, ⟨_, rfl⟩, .inl rfl⟩
  obtain ⟨haccepts, hdescribes, -⟩ := accepts_wellFormed hshape "flow" "flow"
  obtain ⟨w, hw⟩ : ∃ w, parse numbered "flow" "flow" = .ok w := by
    refine haccepts.2 ⟨⟨rfl, rfl⟩, ?_, by decide, ?_⟩
    · simp only [List.forall_mem_cons, names_iff]
      decide +kernel
    · simp only [List.forall_mem_cons, Connection.Readable]
      decide +kernel
  exact ⟨_, _, w, hshape, hw, (hdescribes w hw).1, rfl⟩

/-- Null is written as a word, which then is the id of the node. -/
theorem null_names_node : Shaped unnamed [.object [("id", .null), ("type", .str "start")]] [] ∧
    ∃ w, parse unnamed "flow" "flow" = .ok w ∧ w.nodes.map (·.id) = ["None"] := by
  refine ⟨⟨rfl, rfl, rfl, by decide, rfl, by decide, ⟨_, rfl⟩, .inl rfl⟩, _,
    (parse_eq_ok_iff rfl).2 ⟨rfl, problems_eq_nil_iff.2 ?_⟩, rfl⟩
  decide

/-! ## Faults that are not reported -/

/-- The first item that cannot be read is no mapping. -/
def Stray (readable : Value → Prop) (items : List Value) : Prop :=
  ∃ before item after, items = before ++ item :: after ∧ (∀ v ∈ before, v.isMap = true ∧ readable v) ∧
    item.isMap = false

/-- The first item of a definition that cannot be read, the nodes before the connections, is no mapping. -/
def HasStray (v : Value) : Prop :=
  ∃ nodes, steps v = .ok nodes ∧ (Stray Node.Readable nodes ∨
    (∀ n ∈ nodes, n.isMap = true ∧ Node.Readable n) ∧
      ∃ connections, listed v = .ok connections ∧ Stray Connection.Readable connections)

/-- Items of which reading gives a value are mappings with what has to be written. -/
theorem stray_iff {β : Type} {read : Value → Except Fault β} {readable : Value → Prop}
    (hmap : ∀ v, v.isMap = true → ((∃ x, read v = .ok x) ↔ readable v))
    (hfault : ∀ v fault, v.isMap = true → read v = .error fault → fault = .badValue)
    (hother : ∀ v, v.isMap = false → read v = .error .noMember) (items : List Value) :
    (items.mapM read = .error .noMember ↔ Stray readable items) ∧
      ((∃ xs, items.mapM read = .ok xs) ↔ ∀ v ∈ items, v.isMap = true ∧ readable v) := by
  have hread (v : Value) : (∃ x, read v = .ok x) ↔ v.isMap = true ∧ readable v := by
    cases hv : v.isMap with
    | true => simpa using hmap v hv
    | false => simp [hother v hv]
  have hstray (v : Value) : read v = .error .noMember ↔ v.isMap = false := by
    cases hv : v.isMap with
    | true => simpa using fun h => nomatch hfault v .noMember hv h
    | false => simpa using hother v hv
  rw [mapM_eq_error_iff, exists_mapM_iff]
  simp only [hread, hstray, Stray, and_self]

theorem stray_nodes_iff (items : List Value) :
    (items.mapM Node.ofValue = .error .noMember ↔ Stray Node.Readable items) ∧
      ((∃ nodes, items.mapM Node.ofValue = .ok nodes) ↔ ∀ n ∈ items, n.isMap = true ∧ Node.Readable n) :=
  stray_iff (fun _ => Node.exists_ofValue_iff) (fun _ _ hv => Node.fault_of_isMap hv)
    (fun _ => Node.ofValue_of_not_isMap) items

theorem stray_connections_iff (items : List Value) :
    (items.mapM Connection.ofValue = .error .noMember ↔ Stray Connection.Readable items) ∧
      ((∃ connections, items.mapM Connection.ofValue = .ok connections) ↔
        ∀ c ∈ items, c.isMap = true ∧ Connection.Readable c) :=
  stray_iff (fun _ => Connection.exists_ofValue_iff) (fun _ _ hv => Connection.fault_of_isMap hv)
    (fun _ => Connection.ofValue_of_not_isMap) items

theorem fault_of_steps (hv : v.isMap = true) (h : steps v = .error fault) : fault = .wrongType := by
  rw [steps_of_isMap hv] at h
  exact Value.iterateOrNone_eq_error h

theorem fault_of_listed (hv : v.isMap = true) (h : listed v = .error fault) : fault = .wrongType := by
  rw [listed_of_isMap hv] at h
  exact Value.iterateOrNone_eq_error h

/-- Reading a definition fails for its form, or for a stray item. -/
theorem fault_of_ofValue (hv : v.isMap = true) (h : ofValue v newId newUuid = .error fault) :
    fault = .badValue ∨ fault = .wrongType ∨ fault = .noMember ∧ HasStray v := by
  rw [ofValue_of_isMap hv] at h
  obtain hsteps | ⟨nodes, hsteps, h⟩ := bind_eq_error h
  · exact .inr (.inl (fault_of_steps hv hsteps))
  obtain hnodes | ⟨read, hnodes, h⟩ := bind_eq_error h
  · obtain ⟨before, n, after, hlist, hbefore, hn⟩ := mapM_eq_error_iff.1 hnodes
    cases hmap : n.isMap with
    | true => exact .inl (Node.fault_of_isMap hmap hn)
    | false =>
      rw [Node.ofValue_of_not_isMap hmap] at hn
      cases hn
      exact .inr (.inr ⟨rfl, nodes, hsteps, .inl ((stray_nodes_iff nodes).1.1 hnodes)⟩)
  have hreadable := (stray_nodes_iff nodes).2.1 ⟨read, hnodes⟩
  obtain hlisted | ⟨connections, hlisted, h⟩ := bind_eq_error h
  · exact .inr (.inl (fault_of_listed hv hlisted))
  obtain hconnections | ⟨drawn, hconnections, h⟩ := bind_eq_error h
  · obtain ⟨before, c, after, hlist, hbefore, hc⟩ := mapM_eq_error_iff.1 hconnections
    cases hmap : c.isMap with
    | true => exact .inl (Connection.fault_of_isMap hmap hc)
    | false =>
      rw [Connection.ofValue_of_not_isMap hmap] at hc
      cases hc
      have hstray := (stray_connections_iff connections).1.1 hconnections
      exact .inr (.inr ⟨rfl, nodes, hsteps, .inr ⟨hreadable, connections, hlisted, hstray⟩⟩)
  obtain hheading | ⟨heading, -, h⟩ := bind_eq_error h
  · obtain hbad | htype := Heading.fault_of_ofValue hheading
    · exact .inl hbad
    · exact .inr (.inl htype)
  · cases h

theorem ofValue_of_hasStray (hv : v.isMap = true) (h : HasStray v) : ofValue v newId newUuid = .error .noMember := by
  rw [ofValue_of_isMap hv]
  obtain ⟨nodes, hsteps, hstray | ⟨hreadable, connections, hlisted, hstray⟩⟩ := h
  · rw [hsteps, ok_bind, (stray_nodes_iff nodes).1.2 hstray]
    rfl
  · obtain ⟨read, hnodes⟩ := (stray_nodes_iff nodes).2.2 hreadable
    rw [hsteps, ok_bind, hnodes, ok_bind, hlisted, ok_bind, (stray_connections_iff connections).1.2 hstray]
    rfl

/-- Whatever value is given as a definition: parsing gives a workflow, reports that the definition has the wrong
form or which problems it has, or fails for a missing member; and this last fault, which is not reported, comes
up exactly where the value is a mapping and the first item that cannot be read, the nodes before the
connections, is no mapping. -/
theorem faults_reported (v : Value) (newId newUuid : String) :
    (∀ fault, parse v newId newUuid = .error fault →
      (∃ message, fault = .parse message) ∨ (∃ problems, fault = .invalidWorkflow problems) ∨ fault = .noMember) ∧
    (parse v newId newUuid = .error .noMember ↔ v.isMap = true ∧ HasStray (unwrapped v)) := by
  cases hv : v.isMap with
  | false =>
    have hparse : ∃ message, parse v newId newUuid = .error (.parse message) := by
      rw [parse, hv]
      exact ⟨_, rfl⟩
    obtain ⟨message, hparse⟩ := hparse
    rw [hparse]
    refine ⟨fun fault h => .inl ⟨message, (Except.error.inj h).symm⟩, nofun, nofun⟩
  | true =>
    have hunwrapped := isMap_unwrapped hv
    refine ⟨fun fault h => ?_, fun h => ⟨rfl, ?_⟩, fun h => ?_⟩
    · obtain ⟨cause, hcause, rfl⟩ | hproblems := fault_of_parse hv h
      · obtain rfl | rfl | ⟨rfl, -⟩ := fault_of_ofValue hunwrapped hcause
        · exact .inl ⟨_, rfl⟩
        · exact .inl ⟨_, rfl⟩
        · exact .inr (.inr rfl)
      · exact .inr (.inl hproblems)
    · obtain ⟨cause, hcause, hform⟩ | ⟨problems, hproblems⟩ := fault_of_parse hv h
      · obtain rfl | rfl | ⟨rfl, hstray⟩ := fault_of_ofValue hunwrapped hcause
        · cases hform
        · cases hform
        · exact hstray
      · cases hproblems
    · rw [parse_of_isMap hv, ofValue_of_hasStray hunwrapped h.2]
      rfl

/-- A text among the nodes. -/
theorem stray_not_reported : parse (.object [("nodes", .strings ["start"])]) "flow" "flow" = .error .noMember := rfl

end Flowline.Workflow
