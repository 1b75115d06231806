import Flowline.Proofs.Workflow.Definitions
import Flowline.Proofs.Yaml.Reread

/-! # Workflows as texts

The JSON text of a workflow is read again as YAML. The workflow comes back as it was but for the doubles without a
point in their text, which come back as texts, and for the line ends in texts, which are folded; or it is refused
(`export_reads_back`). -/

namespace Flowline

/-! ## What stays when a value is read again -/

theorem Entries.insert_map {α β : Type} (f : α → β) (entries : List (Scalar × α)) (key : Scalar) (v : α) :
    (insert entries key v).map (fun p => (p.1, f p.2)) = insert (entries.map fun p => (p.1, f p.2)) key (f v) := by
  induction entries with
  | nil => rfl
  | cons p rest ih =>
    obtain ⟨k, u⟩ := p
    rw [insert, List.map_cons, insert]
    split
    · rfl
    · rw [List.map_cons, ih]

theorem Entries.insertAll_map {α β : Type} (f : α → β) (entries new : List (Scalar × α)) :
    (insertAll entries new).map (fun p => (p.1, f p.2)) =
      insertAll (entries.map fun p => (p.1, f p.2)) (new.map fun p => (p.1, f p.2)) := by
  induction new generalizing entries with
  | nil => rfl
  | cons p rest ih =>
    obtain ⟨k, v⟩ := p
    rw [insertAll_cons, ih, insert_map, List.map_cons, insertAll_cons]

namespace Value

theorem number_ne_empty (x : Float) : Json.number x ≠ "" := by
  obtain hname | ⟨-, htext⟩ := Yaml.number_cases x
  · rintro hempty
    rw [hempty] at hname
    exact absurd hname (by decide)
  · rw [htext]
    exact text_ne_empty_of_float x

/-- A double is read as itself or as its text, and then it is not zero. -/
theorem reread_float_cases (x : Float) :
    Double.isPointed x = true ∧ reread (.float x) = .float x ∨
      (x == 0) = false ∧ reread (.float x) = .str (Json.number x) := by
  rw [reread, Scalar.reread]
  cases hpointed : Double.isPointed x with
  | true => exact .inl ⟨rfl, rfl⟩
  | false =>
    refine .inr ⟨Bool.eq_false_iff.2 fun hzero => ?_, rfl⟩
    rw [Double.isPointed_of_eq_zero hzero] at hpointed
    cases hpointed

@[simp] theorem isPresent_reread (v : Value) : v.reread.isPresent = v.isPresent := by
  cases v with
  | scalar s =>
    cases s with
    | float x =>
      obtain ⟨-, heq⟩ | ⟨hzero, heq⟩ := reread_float_cases x
      · rw [heq]
      · rw [heq]
        simp [isPresent, isTruthy, hzero, number_ne_empty]
    | str s =>
      rw [Bool.eq_iff_iff]
      simp [reread, Scalar.reread, isPresent]
    | _ => rfl
  | list items => cases items <;> rfl
  | map entries => cases entries <;> rfl
  | set items => rfl

theorem isNoCondition_reread (v : Value) : Connection.isNoCondition v.reread = Connection.isNoCondition v := by
  cases v with
  | scalar s =>
    cases s with
    | float x =>
      obtain ⟨-, heq⟩ | ⟨-, heq⟩ := reread_float_cases x
      · rw [heq]
      · rw [heq]
        simp [Connection.isNoCondition, number_ne_empty]
    | str s =>
      rw [Bool.eq_iff_iff]
      simp [reread, Scalar.reread, Connection.isNoCondition]
    | _ => rfl
  | list items => cases items <;> rfl
  | map entries => cases entries <;> rfl
  | set items => rfl

@[simp] theorem isNull_reread (v : Value) : v.reread.isNull = v.isNull := by
  cases v with
  | scalar s =>
    cases s with
    | float x =>
      obtain ⟨-, heq⟩ | ⟨-, heq⟩ := reread_float_cases x
      · rw [heq]
      · rw [heq]
        rfl
    | _ => rfl
  | _ => rfl

theorem orElse_reread (v standard : Value) : (v.orElse standard).reread = v.reread.orElse standard.reread := by
  rw [orElse, orElse, isPresent_reread]
  split <;> rfl

/-- Entries of a record, their values as they are read again. -/
def rereadFields (fields : List (String × Value)) : List (String × Value) := fields.map fun p => (p.1, p.2.reread)

theorem reread_object (fields : List (String × Value)) : (object fields).reread = .object (rereadFields fields) := by
  rw [object, object, reread, rereadEntries_eq, rereadFields, List.map_map, List.map_map]
  rfl

theorem rereadFields_append (xs ys : List (String × Value)) :
    rereadFields (xs ++ ys) = rereadFields xs ++ rereadFields ys := List.map_append

theorem rereadFields_presentEntry (key : String) (v : Value) :
    rereadFields (presentEntry key v) = presentEntry key v.reread := by
  rw [presentEntry, presentEntry, isPresent_reread]
  split <;> rfl

/-! ## Values that come back -/

theorem isKept_iff (s : Scalar) : s.isKept = true ↔ s.reread = s := by
  cases s with
  | float x => simp [Scalar.reread, Scalar.isKept]
  | str s => simp [Scalar.reread, Scalar.isKept]
  | _ => simp [Scalar.reread, Scalar.isKept]

mutual

/-- A value of JSON whose keys are known as keys comes back as it was exactly if its scalars do. -/
theorem reread_eq_self_iff : ∀ v : Value, v.isJson = true → v.keys.all Scalar.isSimpleKey = true →
    (v.reread = v ↔ v.scalars.all Scalar.isKept = true)
  | .scalar s, _, _ => by
    rw [reread, scalars, List.all_cons, List.all_nil, Bool.and_true, isKept_iff, Value.scalar.injEq]
  | .list items, hjson, hkeys => by
    rw [reread, scalars, ← rereadItems_eq_self_iff items hjson hkeys, Value.list.injEq]
  | .map entries, hjson, hkeys => by
    rw [reread, scalars, ← rereadEntries_eq_self_iff entries hjson hkeys, Value.map.injEq]
  | .set _, hjson, _ => nomatch hjson

theorem rereadItems_eq_self_iff : ∀ items : List Value, allJson items = true →
    (keysOfItems items).all Scalar.isSimpleKey = true →
    (rereadItems items = items ↔ (scalarsOfItems items).all Scalar.isKept = true)
  | [], _, _ => by simp [rereadItems, scalarsOfItems]
  | v :: rest, hjson, hkeys => by
    rw [allJson, Bool.and_eq_true] at hjson
    rw [keysOfItems, List.all_append, Bool.and_eq_true] at hkeys
    rw [rereadItems, scalarsOfItems, List.all_append, Bool.and_eq_true, List.cons.injEq,
      reread_eq_self_iff v hjson.1 hkeys.1, rereadItems_eq_self_iff rest hjson.2 hkeys.2]

theorem rereadEntries_eq_self_iff : ∀ entries : List (Scalar × Value), entriesJson entries = true →
    (keysOfEntries entries).all Scalar.isSimpleKey = true →
    (rereadEntries entries = entries ↔ (scalarsOfEntries entries).all Scalar.isKept = true)
  | [], _, _ => by simp [rereadEntries, scalarsOfEntries]
  | (.str k, v) :: rest, hjson, hkeys => by
    rw [entriesJson, Bool.and_eq_true] at hjson
    rw [keysOfEntries, List.all_cons, List.all_append, Bool.and_eq_true, Bool.and_eq_true] at hkeys
    have hkey : (Scalar.str k).isKept = true := (isKept_iff _).2 (congrArg _ (Yaml.Node.foldedText_of_isSimpleKey hkeys.1))
    rw [rereadEntries, scalarsOfEntries, List.all_cons, List.all_append, hkey, Bool.true_and, Bool.and_eq_true,
      List.cons.injEq, Prod.mk.injEq, reread_eq_self_iff v hjson.1 hkeys.2.1,
      rereadEntries_eq_self_iff rest hjson.2 hkeys.2.2, and_iff_right rfl]

end

end Value

/-! ## Workflows that are read again -/

open Yaml (foldedText)

/-- The node whose configuration is the one that is read from a text. -/
def Node.reread (n : Node) : Node :=
  { id := foldedText n.id
    type := foldedText n.type
    config := n.config.reread
    actionType := n.actionType.reread
    name := n.name.reread }

theorem Node.toValue_reread (n : Node) : n.reread.toValue = n.toValue.reread := by
  rw [toValue, toValue, Value.reread_object, Value.rereadFields_append, Value.rereadFields_append,
    Value.rereadFields_presentEntry, Value.rereadFields_presentEntry]
  rfl

def Connection.reread (c : Connection) : Connection :=
  { source := foldedText c.source
    target := foldedText c.target
    condition := c.condition.reread
    label := c.label.reread }

theorem Connection.toValue_reread (c : Connection) : c.reread.toValue = c.toValue.reread := by
  rw [toValue, toValue, Value.reread_object, Value.rereadFields_append, Value.rereadFields_append,
    Value.rereadFields_presentEntry]
  simp only [reread, Value.isNull_reread]
  cases c.condition.isNull <;> rfl

namespace Workflow

variable {w : Workflow} {text newId newUuid : String}

/-- The workflow that is read from the text of a workflow. -/
def reread (w : Workflow) : Workflow :=
  { w with
    id := foldedText w.id
    uuid := foldedText w.uuid
    name := w.name.reread
    description := w.description.reread
    triggers := w.triggers.reread
    nodes := w.nodes.map Node.reread
    connections := w.connections.map Connection.reread
    vars := w.vars.reread
    settings := Value.rereadEntries w.settings
    version := w.version.reread }

theorem toValue_reread (w : Workflow) : w.reread.toValue = w.toValue.reread := by
  have hnodes : (Value.list (w.nodes.map Node.toValue)).reread = .list (w.reread.nodes.map Node.toValue) := by
    rw [Value.reread, Value.rereadItems_eq, reread, List.map_map, List.map_map]
    simp only [Function.comp_def, Node.toValue_reread]
  have hconnections : (Value.list (w.connections.map Connection.toValue)).reread =
      .list (w.reread.connections.map Connection.toValue) := by
    rw [Value.reread, Value.rereadItems_eq, reread, List.map_map, List.map_map]
    simp only [Function.comp_def, Connection.toValue_reread]
  have hstatus : (Value.str w.status.text).reread = .str w.status.text := by
    have hline : w.status.text.toList.any Yaml.isLineEnd = false := by cases w.status <;> decide
    exact congrArg Value.str (Yaml.foldedText_of_line hline)
  rw [toValue, toValue, Value.reread_object, Value.rereadFields_append, Value.rereadFields_presentEntry]
  simp only [Value.rereadFields, List.map_cons, List.map_nil, hnodes, hconnections, hstatus]
  rfl

theorem settled_reread (hw : w.Settled) : w.reread.Settled where
  id_ne := mt Yaml.foldedText_eq_empty_iff.1 hw.id_ne
  uuid_ne := mt Yaml.foldedText_eq_empty_iff.1 hw.uuid_ne
  triggers := (Value.orElse_reread w.triggers (.list [])).symm.trans (congrArg Value.reread hw.triggers)
  configs := by
    intro n hn
    obtain ⟨m, hm, rfl⟩ := List.mem_map.1 hn
    exact (Value.orElse_reread m.config (.map [])).symm.trans (congrArg Value.reread (hw.configs m hm))
  conditions := by
    intro c hc hnone
    obtain ⟨d, hd, rfl⟩ := List.mem_map.1 hc
    have hcondition := hw.conditions d hd ((Value.isNoCondition_reread d.condition).symm.trans hnone)
    exact congrArg Value.reread hcondition
  vars := (Value.orElse_reread w.vars (.map [])).symm.trans (congrArg Value.reread hw.vars)
  settings := by
    have hstandard : Value.rereadEntries standardSettings = standardSettings := rfl
    have hmap := Entries.insertAll_map Value.reread standardSettings w.settings
    rw [hw.settings, ← Value.rereadEntries_eq, ← Value.rereadEntries_eq, hstandard] at hmap
    exact hmap.symm

/-- What is read again has no problems, unless ids of nodes have become the same. -/
theorem problems_reread_iff (h : w.problems = []) :
    w.reread.tidied.problems = [] ↔ (w.nodes.map fun n => foldedText n.id).Nodup := by
  obtain ⟨hnamed, -, hlinked⟩ := problems_eq_nil_iff.1 h
  have hids : w.reread.tidied.nodes.map (·.id) = w.nodes.map fun n => foldedText n.id := by
    simp [reread, tidied, Node.reread, Node.tidied, Function.comp_def]
  have hmem (id : String) (hid : id ∈ w.nodes.map (·.id)) : foldedText id ∈ w.nodes.map fun n => foldedText n.id := by
    obtain ⟨n, hn, rfl⟩ := List.mem_map.1 hid
    exact List.mem_map_of_mem hn
  rw [problems_eq_nil_iff, hids]
  refine ⟨fun h => h.2.1, fun hdistinct => ⟨?_, hdistinct, ?_⟩⟩
  · simpa [reread, tidied, Node.reread, Node.tidied] using hnamed
  · intro c hc
    obtain ⟨d, hd, rfl⟩ : ∃ d ∈ w.connections, d.reread.tidied = c := by
      simpa [reread, tidied, Function.comp_def] using hc
    exact ⟨hmem _ (hlinked d hd).1, hmem _ (hlinked d hd).2⟩

/-! ## Exports -/

theorem exists_toJson_iff (hjson : w.toValue.isJson = true) :
    (∃ text, w.toJson = .ok text) ↔ w.toValue.isWritable = true :=
  (Value.writes_write .document w.toValue 0 hjson).iff

/-- The record of a workflow holds no definition under a key of its own. -/
theorem bare_toValue (w : Workflow) : w.toValue.field? "workflow" = none := by
  simp [toValue, List.lookup_cons]

theorem ofText_toJson (hw : w.Settled) (hjson : w.toValue.isJson = true) (hkeyed : w.toValue.isKeyed = true)
    (h : w.toJson = .ok text) : ofText text newId newUuid =
      if w.toValue.isReadable then
        if w.reread.tidied.problems.isEmpty then .ok w.reread.tidied
        else .error (.invalidWorkflow w.reread.tidied.problems)
      else .error (.parse "Failed to parse YAML") := by
  have hread := Yaml.read_document hjson ((exists_toJson_iff hjson).1 ⟨text, h⟩) hkeyed h
  cases hreadable : w.toValue.isReadable with
  | false =>
    rw [ofText, yamlValue, hread, show (Value.map _).isReadable = false from hreadable]
    rfl
  | true =>
    have hvalue : yamlValue text = .ok w.reread.toValue := by
      rw [yamlValue, hread, show (Value.map _).isReadable = true from hreadable, toValue_reread]
      rfl
    rw [ofText, hvalue, ok_bind, parse_of_isMap rfl, unwrapped_of_bare (bare_toValue _),
      ofValue_toValue (settled_reread hw)]
    rfl

/-- The JSON text of a valid workflow. There is one unless a whole number in the workflow has too many digits. It is
refused where a text in the workflow has a character that YAML does not allow, or seems to end the document, or where a
key has more than one line or is too long to be known as a key; and where the ids of two nodes are the same once they are
folded. Else it is read, and what is read has the record of the workflow exactly if each double in it is written with a
point and folding leaves each text as it is. -/
theorem export_reads_back (hw : w.Settled) (hvalid : w.problems = []) (hjson : w.toValue.isJson = true)
    (hkeyed : w.toValue.isKeyed = true) (newId newUuid : String) :
    ((∃ text, w.toJson = .ok text) ↔ w.toValue.isWritable = true) ∧
    ∀ text, w.toJson = .ok text →
      (w.toValue.isReadable = false → ofText text newId newUuid = .error (.parse "Failed to parse YAML")) ∧
      (w.toValue.isReadable = true →
        (¬(w.nodes.map fun n => foldedText n.id).Nodup →
          ∃ problems, ofText text newId newUuid = .error (.invalidWorkflow problems)) ∧
        ((w.nodes.map fun n => foldedText n.id).Nodup →
          ∃ w', ofText text newId newUuid = .ok w' ∧ w'.toValue = w.toValue.reread ∧
            (w'.toValue = w.toValue ↔ w.toValue.scalars.all Scalar.isKept = true))) := by
  refine ⟨exists_toJson_iff hjson, fun text htext => ?_⟩
  have hread : ofText text newId newUuid = _ := ofText_toJson hw hjson hkeyed htext
  have hproblems := problems_reread_iff hvalid
  refine ⟨fun hreadable => ?_, fun hreadable => ⟨fun hrepeated => ?_, fun hdistinct => ?_⟩⟩
  · rw [hread, hreadable]
    rfl
  · rw [hread, hreadable, if_pos rfl, if_neg (by simpa using mt hproblems.1 hrepeated)]
    exact ⟨_, rfl⟩
  · have hvalue : w.reread.tidied.toValue = w.toValue.reread := (toValue_tidied w.reread).trans (toValue_reread w)
    rw [hread, hreadable, if_pos rfl, if_pos (by simpa using hproblems.2 hdistinct)]
    rw [Value.isReadable, Bool.and_eq_true] at hreadable
    refine ⟨w.reread.tidied, rfl, hvalue, ?_⟩
    rw [hvalue]
    exact Value.reread_eq_self_iff w.toValue hjson hreadable.2

/-! ### A power of ten and a half -/

/-- A workflow of one node, with some variables. -/
def single (vars : List (String × Value)) : Workflow where
  id := "flow"
  uuid := "flow"
  name := .str ""
  description := .null
  status := .draft
  triggers := .list []
  nodes := [⟨"start", "start", .map [], .null, .null⟩]
  connections := []
  vars := .object vars
  settings := standardSettings
  version := .int 1

/-- A double with a point, and a text with a quote, a line feed and a letter outside ASCII. -/
def halved : Workflow := single [("x", .float 2.5), ("line", .str "\"é\"\n")]

/-- A double that is written without a point. -/
def powered : Workflow := single [("x", .float 1e16)]

theorem settled_single {vars : List (String × Value)} (hvars : vars ≠ []) : (single vars).Settled where
  id_ne := by simp [single]
  uuid_ne := by simp [single]
  triggers := rfl
  configs := by
    intro n hn
    obtain rfl := List.mem_singleton.1 hn
    rfl
  conditions := nofun
  vars := by
    obtain ⟨p, rest, rfl⟩ := List.exists_cons_of_ne_nil hvars
    rfl
  settings := rfl

theorem problems_single (vars : List (String × Value)) : (single vars).problems = [] := by
  rw [problems_eq_nil_iff]
  refine ⟨?_, List.nodup_singleton _, nofun⟩
  intro n hn
  obtain rfl := List.mem_singleton.1 hn
  decide

theorem export_reads_back_halved : ∃ text w', halved.toJson = .ok text ∧ ofText text "" "" = .ok w' ∧
    w'.toValue = halved.toValue := by
  have hsettled : halved.Settled := settled_single (List.cons_ne_nil _ _)
  have hkeyed : halved.toValue.isKeyed = true := by decide +kernel
  obtain ⟨hexists, hreads⟩ :=
    export_reads_back hsettled (problems_single _) (by decide +kernel) hkeyed "" ""
  obtain ⟨text, htext⟩ := hexists.2 (by decide +kernel)
  obtain ⟨w', hw', -, hiff⟩ := ((hreads text htext).2 (by decide +kernel)).2 (List.nodup_singleton _)
  exact ⟨text, w', htext, hw', hiff.2 (by decide +kernel)⟩

theorem field?_variables (w : Workflow) : w.toValue.field? "variables" = some w.vars := by
  simp [toValue, List.lookup_cons]

/-- The text of a power of ten is read as a text. -/
theorem powered_comes_back_as_text : ∃ text w', powered.toJson = .ok text ∧ ofText text "" "" = .ok w' ∧
    w'.vars = .object [("x", .str "1e+16")] ∧ w'.toValue ≠ powered.toValue := by
  have hsettled : powered.Settled := settled_single (List.cons_ne_nil _ _)
  have hjson : powered.toValue.isJson = true := by decide +kernel
  have hkeyed : powered.toValue.isKeyed = true := by decide +kernel
  have hreadable : powered.toValue.isReadable = true := by decide +kernel
  have hproblems : powered.reread.tidied.problems = [] :=
    (problems_reread_iff (problems_single _)).2 (List.nodup_singleton _)
  obtain ⟨text, htext⟩ := (exists_toJson_iff hjson).2 (by decide +kernel)
  have hread : ofText text "" "" = .ok powered.reread.tidied := by
    rw [ofText_toJson hsettled hjson hkeyed htext, hreadable, if_pos rfl, hproblems]
    rfl
  have hpointed : Double.isPointed 1e16 = false := by decide +kernel
  have htext' : Json.number 1e16 = "1e+16" := by decide +kernel
  have hvars : powered.reread.tidied.vars = .object [("x", .str "1e+16")] := by
    simp [powered, single, reread, tidied, Value.object, Value.reread, Value.rereadEntries, Scalar.reread, hpointed, htext']
  refine ⟨text, _, htext, hread, hvars, fun heq => ?_⟩
  have hsame := congrArg (fun v => v.field? "variables") heq
  simp only [field?_variables, hvars, Option.some.injEq] at hsame
  simp [powered, single, Value.object] at hsame

end Workflow

end Flowline
