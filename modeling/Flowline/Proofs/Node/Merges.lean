import Flowline.Proofs.Execution.Touched
import Flowline.Proofs.Node.Joins
import Flowline.Proofs.Walk.Visits

/-! # Merges

A merge waits as long as something that it needs is not completed, and its visit leaves the queue of the walk
as it is. Once all is completed, it gathers what is recorded for it. No node that is run, wherever the merge is
among the nodes inside it, and no walk records the merge as completed in any other way.

The output of a merge has the outputs of other nodes inside it, each under the id of its node. What is added
to a growing part later is added to it there too. So as long as those nodes are completed, it has inside it
what is recorded for them. -/

namespace Flowline
open Execution

namespace Output

/-- The outputs of nodes under their ids, as a merge gives them. -/
def merged (outputs : List (String × Output)) : Output :=
  .under [] "merged_data" (.ofEntries (outputs.map fun (x, o) => (.str x, o)))

/-! ## Adding to outputs under keys -/

section Under
variable {before after : List (Scalar × Value)} {x : String} (n : Nat) (key : String) (u : Value)

theorem growPart_under (h : ∀ p ∈ before, p.1 ≠ .str x) (v : Value) (steps : List Step) (m : Nat) :
    growPart n key u (.map (before ++ (.str x, v) :: after)) (.key (.str x) :: steps, m) =
      .map (before ++ (.str x, growPart n key u v (steps, m)) :: after) := by
  unfold growPart
  dsimp only
  split
  · rw [Value.modifyAt]
    simp only [Entries.get?_append_cons h, Entries.insert_append_cons h]
  · rfl

theorem foldl_growPart_under (h : ∀ p ∈ before, p.1 ≠ .str x) (o : Output) :
    (o.growingUnder [.key (.str x)]).foldl (growPart n key u) (.map (before ++ (.str x, o.value) :: after)) =
      .map (before ++ (.str x, (o.grow n key u).value) :: after) := by
  rw [grow_value, growingUnder]
  generalize o.value = v
  induction o.growing generalizing v with
  | nil => rfl
  | cons part parts ih =>
    obtain ⟨steps, m⟩ := part
    rw [List.map_cons, List.foldl_cons, List.foldl_cons, ← ih, ← growPart_under n key u h]
    rfl

theorem foldl_growPart_entries {outputs : List (String × Output)} (hnodup : (outputs.map Prod.fst).Nodup)
    (h : ∀ p ∈ before, p.1 ∉ outputs.map fun q => Scalar.str q.1) :
    (outputs.flatMap fun p => p.2.growingUnder [.key (.str p.1)]).foldl (growPart n key u)
        (.map (before ++ outputs.map fun p => (.str p.1, p.2.value))) =
      .map (before ++ outputs.map fun p => (.str p.1, (p.2.grow n key u).value)) := by
  induction outputs generalizing before with
  | nil => rfl
  | cons p rest ih =>
    obtain ⟨x, o⟩ := p
    obtain ⟨hx, hrest⟩ := List.nodup_cons.1 hnodup
    have hfirst : ∀ p ∈ before, p.1 ≠ .str x := fun p hp heq => h p hp (heq ▸ List.mem_cons_self ..)
    rw [List.flatMap_cons, List.foldl_append, List.map_cons, foldl_growPart_under n key u hfirst,
      List.append_cons, ih hrest, ← List.append_cons]
    · rfl
    · intro p hp hmem
      obtain hp | hp := List.mem_append.1 hp
      · exact h p hp (List.mem_cons_of_mem _ hmem)
      · obtain rfl := List.mem_singleton.1 hp
        obtain ⟨q, hq, heq⟩ := List.mem_map.1 hmem
        exact hx (List.mem_map.2 ⟨q, hq, Scalar.str.inj heq⟩)

end Under

theorem under_eq_ofEntries (key : String) (o : Output) : under [] key o = ofEntries [(.str key, o)] :=
  congrArg (Output.mk _) (List.append_nil _).symm

/-- What is added to a part of outputs under different keys is added to the outputs. -/
theorem grow_ofEntries {outputs : List (String × Output)} (hnodup : (outputs.map Prod.fst).Nodup) (n : Nat)
    (key : String) (u : Value) :
    (ofEntries (outputs.map fun (x, o) => (.str x, o))).grow n key u =
      ofEntries (outputs.map fun (x, o) => (.str x, o.grow n key u)) := by
  have hvalue := foldl_growPart_entries n key u hnodup (List.forall_mem_nil _)
  rw [List.nil_append, List.nil_append] at hvalue
  simp only [grow, ofEntries, List.map_map, List.flatMap_map, Function.comp_def]
  exact congrArg (Output.mk · _) hvalue

theorem growAll_merged {outputs : List (String × Output)} (hnodup : (outputs.map Prod.fst).Nodup)
    (additions : List (Nat × String × Value)) :
    (merged outputs).growAll additions = merged (outputs.map fun (x, o) => (x, o.growAll additions)) := by
  induction additions generalizing outputs with
  | nil => simp [growAll]
  | cons a rest ih =>
    obtain ⟨n, key, u⟩ := a
    have hnames : ((outputs.map fun (x, o) => (x, o.grow n key u)).map Prod.fst).Nodup := by
      simpa [Function.comp_def] using hnodup
    have hgrow : (merged outputs).grow n key u = merged (outputs.map fun (x, o) => (x, o.grow n key u)) := by
      have hone : ([("merged_data", ofEntries (outputs.map fun (x, o) => (.str x, o)))].map Prod.fst).Nodup :=
        List.pairwise_singleton ..
      simp only [merged, under_eq_ofEntries, List.map_map, Function.comp_def]
      refine (grow_ofEntries hone n key u).trans ?_
      simp only [List.map_cons, List.map_nil, grow_ofEntries hnodup]
    have hrest := ih hnames
    simp only [List.map_map, Function.comp_def] at hrest
    exact (congrArg (·.growAll rest) hgrow).trans hrest

end Output

/-- What a merge needs before it goes on. -/
def Node.required (n : Node) : Except Fault (List Value) := do
  (← n.config.entry "required_inputs").iterateOrNone

namespace Execution
variable {actions : Actions} {e f : Execution} {m : Node} {ids xs : List String} {o : Output}
  {additions : List (Nat × String × Value)}

/-! ## What stays of completed nodes -/

/-- What was completed is so still, and the same was added to the outputs of all of it. -/
def Stays (additions : List (Nat × String × Value)) (e f : Execution) : Prop :=
  ∀ x s, e.state? x = some s → s.status = .completed →
    f.state? x = some { s with output := s.output.growAll additions }

theorem stays_of_states (h : f.states = e.states) : Stays [] e f := by
  intro x s hs _
  rw [state?, h]
  exact hs

theorem stays_setState (e : Execution) (x : String) (status : NodeStatus) (o : Output) :
    Stays [] e (e.setState x status o) := by
  intro y s hs hcompleted
  rw [state?_setState, if_neg]
  · exact hs
  · rintro ⟨rfl, hopen⟩
    rw [isCompleted_of_state? hs, hcompleted] at hopen
    cases hopen

/-- Adding to the outputs of nodes that are not completed adds the same to all that are. -/
theorem Touched.stays (h : Touched actions xs e f) (hxs : ∀ x ∈ xs, e.isCompleted x = false) :
    ∃ additions, Stays additions e f := by
  obtain ⟨additions, hadded⟩ := h.together
  refine ⟨additions, fun x s hs hcompleted => hadded x s (fun hx => ?_) hs⟩
  have hopen := hxs x hx
  rw [isCompleted_of_state? hs, hcompleted] at hopen
  cases hopen

theorem isCompleted_iff {x : String} :
    e.isCompleted x = true ↔ ∃ s, e.state? x = some s ∧ s.status = .completed := by
  rw [isCompleted, nodeStatus?, beq_iff_eq, Option.map_eq_some_iff]

theorem Stays.isCompleted (h : Stays additions e f) {x : String} (hx : e.isCompleted x = true) :
    f.isCompleted x = true := by
  obtain ⟨s, hs, hcompleted⟩ := isCompleted_iff.1 hx
  exact isCompleted_iff.2 ⟨_, h x s hs hcompleted, hcompleted⟩

/-! ## Gathering -/

/-- The output that is recorded for a node, if any is. -/
def outputOf (e : Execution) (x : String) : Output := ((e.state? x).map (·.output)).getD .empty

theorem outputOf_of_state? {x : String} {s : NodeState} (hs : e.state? x = some s) :
    e.outputOf x = s.output := by
  rw [outputOf, hs]
  rfl

theorem Stays.outputOf (h : Stays additions e f) {x : String} (hx : e.isCompleted x = true) :
    f.outputOf x = (e.outputOf x).growAll additions := by
  obtain ⟨s, hs, hcompleted⟩ := isCompleted_iff.1 hx
  rw [outputOf_of_state? hs, outputOf_of_state? (h x s hs hcompleted)]

/-- An output has inside it what is recorded for some nodes, all of which are completed. -/
structure Gathers (e : Execution) (ids : List String) (o : Output) : Prop where
  completed : ∀ x ∈ ids, e.isCompleted x = true
  outputs : ∃ xs : List String, xs.Nodup ∧ (∀ x, x ∈ xs ↔ x ∈ ids) ∧
    o = .merged (xs.map fun x => (x, e.outputOf x))

theorem Gathers.stays (h : e.Gathers ids o) (hstays : Stays additions e f) :
    f.Gathers ids (o.growAll additions) := by
  refine ⟨fun x hx => hstays.isCompleted (h.completed x hx), ?_⟩
  obtain ⟨xs, hnodup, hmem, rfl⟩ := h.outputs
  refine ⟨xs, hnodup, hmem, ?_⟩
  have hnames : ((xs.map fun x => (x, e.outputOf x)).map Prod.fst).Nodup := by
    simpa [Function.comp_def] using hnodup
  have houtputs : ∀ x ∈ xs, (x, (e.outputOf x).growAll additions) = (x, f.outputOf x) := by
    intro x hx
    rw [hstays.outputOf (h.completed x ((hmem x).1 hx))]
  rw [Output.growAll_merged hnames, List.map_map]
  exact congrArg Output.merged (List.map_congr_left houtputs)

theorem Gathers.of_states (h : e.Gathers ids o) (hstates : f.states = e.states) : f.Gathers ids o :=
  h.stays (stays_of_states hstates)

/-- The entries of a mapping are what is recorded for some nodes, all of which are completed: one entry for
each of them, under its id. -/
structure Presents (e : Execution) (ids : List String) (entries : List (Scalar × Value)) : Prop where
  keys : ∀ k, k ∈ entries.map Prod.fst ↔ ∃ x ∈ ids, k = .str x
  nodup : (entries.map Prod.fst).Nodup
  recorded : ∀ x ∈ ids, ∃ s, e.state? x = some s ∧ s.status = .completed ∧
    Entries.get? entries (.str x) = some s.output.value

theorem Gathers.presents (h : e.Gathers ids o) :
    ∃ entries, o.value = .object [("merged_data", .map entries)] ∧ e.Presents ids entries := by
  obtain ⟨xs, hnodup, hmem, rfl⟩ := h.outputs
  refine ⟨xs.map fun x => (.str x, (e.outputOf x).value), ?_, fun k => ?_, ?_, fun x hx => ?_⟩
  · simp only [Output.merged, Output.under, Output.ofEntries, List.map_map, List.nil_append]
    rfl
  · simp [← hmem, eq_comm]
  · rw [List.map_map]
    exact List.Pairwise.map _ (fun x y hne heq => hne (Scalar.str.inj heq)) hnodup
  · obtain ⟨s, hs, hcompleted⟩ := isCompleted_iff.1 (h.completed x hx)
    refine ⟨s, hs, hcompleted, ?_⟩
    rw [Entries.get?_map_texts _ ((hmem x).2 hx), outputOf_of_state? hs]

/-- A merge that is completed has gathered what is recorded for the nodes that it needs. -/
def Merged (m : Node) (e : Execution) : Prop :=
  ∀ s, e.state? m.id = some s → s.status = .completed →
    ∃ ids : List String, m.required = .ok (ids.map .str) ∧ e.Gathers ids s.output

/-- A merge that is completed stays merged as long as what it needs stays. -/
theorem Merged.stays (h : e.Merged m) (hstays : Stays additions e f)
    (hopen : f.isCompleted m.id = true → e.isCompleted m.id = true) : f.Merged m := by
  intro t ht hcompleted
  obtain ⟨s, hs, hbefore⟩ := isCompleted_iff.1 (hopen (isCompleted_iff.2 ⟨t, ht, hcompleted⟩))
  obtain rfl := Option.some.inj (ht.symm.trans (hstays m.id s hs hbefore))
  obtain ⟨ids, hids, hgathers⟩ := h s hs hbefore
  exact ⟨ids, hids, hgathers.stays hstays⟩

theorem Merged.of_states (h : e.Merged m) (hstates : f.states = e.states) : f.Merged m := by
  refine h.stays (stays_of_states hstates) fun hcompleted => ?_
  rw [isCompleted, nodeStatus?, state?, ← hstates]
  exact hcompleted

theorem merged_of_no_states (h : e.states = []) : e.Merged m := by
  intro s hs
  rw [state?, h] at hs
  cases hs

theorem Merged.touched (h : e.Merged m) (htouched : Touched actions xs e f)
    (hxs : ∀ x ∈ xs, e.isCompleted x = false) : f.Merged m := by
  obtain ⟨additions, hstays⟩ := htouched.stays hxs
  refine h.stays hstays fun hcompleted => ?_
  rw [isCompleted, ← htouched.nodeStatus?]
  exact hcompleted

theorem Merged.setState_of_ne (h : e.Merged m) {x : String} (hx : m.id ≠ x) (status : NodeStatus)
    (o : Output) : (e.setState x status o).Merged m := by
  refine h.stays (stays_setState e x status o) fun hcompleted => ?_
  rwa [isCompleted, nodeStatus?, state?_setState, if_neg fun hand => hx hand.1] at hcompleted

/-- A merge is recorded with what it has gathered. -/
theorem Merged.setState_self (h : e.Merged m) {status : NodeStatus}
    (hr : status = .completed → ∃ ids : List String, m.required = .ok (ids.map .str) ∧ e.Gathers ids o) :
    (e.setState m.id status o).Merged m := by
  have hstays := stays_setState e m.id status o
  by_cases hdone : e.isCompleted m.id = true
  · exact h.stays hstays fun _ => hdone
  · intro s hs hcompleted
    rw [state?_setState, if_pos ⟨rfl, Bool.not_eq_true _ ▸ hdone⟩] at hs
    obtain rfl := Option.some.inj hs
    obtain ⟨ids, hids, hgathers⟩ := hr hcompleted
    refine ⟨ids, hids, ?_⟩
    obtain ⟨xs, -, -, rfl⟩ := hgathers.outputs
    exact hgathers.stays hstays

end Execution

/-! ## What a merge needs -/

/-- Something is not completed that a merge needs. -/
def Node.Lacks (m : Node) (e : Execution) : Prop :=
  ∃ keys : List Scalar, m.required = .ok (keys.map .scalar) ∧
    ∃ k ∈ keys, ∀ x, k = .str x → e.isCompleted x = false

/-- A merge that is run as one, and whose id no other node of a workflow has. -/
structure Workflow.MergesAt (setup : Setup) (w : Workflow) (m : Node) : Prop where
  isMerge : m.isMerge = true
  standard : "merge" ∉ setup.actionTypes
  alone : ∀ n ∈ w.nodes, n.id = m.id → n = m

theorem Workflow.MergesAt.kind {setup : Setup} {w : Workflow} {m : Node} (hm : w.MergesAt setup m)
    (running : Nat) : NodeKind.ofNode? (setup.services running) m = some .merge := by
  have htype : m.type = "merge" := eq_of_beq hm.isMerge
  have hnamed : NodeKind.named.lookup "merge" = some .merge := rfl
  rw [NodeKind.ofNode?, htype, hnamed, if_neg]
  rw [List.contains_iff_mem]
  exact hm.standard

/-- A result of a merge with which it can be recorded. -/
def NodeResult.Merges (m : Node) (e : Execution) (r : NodeResult) : Prop :=
  r.status = .completed →
    ∃ ids : List String, m.required = .ok (ids.map .str) ∧ e.Gathers ids r.output

theorem NodeResult.Merges.of_states {m : Node} {e f : Execution} {r : NodeResult} (h : r.Merges m e)
    (hstates : f.states = e.states) : r.Merges m f :=
  fun hcompleted => (h hcompleted).imp fun _ hids => ⟨hids.1, hids.2.of_states hstates⟩

namespace Node
variable {e : Execution} {m : Node} {s : Session}

/-! ## What a merge finds -/

theorem isCompletedIn_eq_true {v : Value} (h : isCompletedIn e v = .ok true) :
    ∃ x, v = .str x ∧ e.isCompleted x = true := by
  cases v with
  | scalar k =>
    cases k with
    | str x => exact ⟨x, rfl, Except.ok.inj h⟩
    | _ => cases h
  | _ => cases h

/-- Nothing is missing only of ids of nodes that are completed, all of them. -/
theorem firstMissing?_eq_none {needed : List Value} (h : firstMissing? e needed = .ok none) :
    ∃ ids : List String, needed = ids.map .str ∧ ∀ x ∈ ids, e.isCompleted x = true := by
  induction needed with
  | nil => exact ⟨[], rfl, fun x hx => absurd hx List.not_mem_nil⟩
  | cons v rest ih =>
    obtain ⟨done, hdone, h⟩ := bind_eq_ok.1 h
    cases done with
    | false => cases h
    | true =>
      obtain ⟨x, rfl, hx⟩ := isCompletedIn_eq_true hdone
      obtain ⟨ids, rfl, hids⟩ := ih h
      exact ⟨x :: ids, rfl, List.forall_mem_cons.2 ⟨hx, hids⟩⟩

theorem exists_firstMissing? (e : Execution) (keys : List Scalar) :
    ∃ missing?, firstMissing? e (keys.map .scalar) = .ok missing? := by
  induction keys with
  | nil => exact ⟨none, rfl⟩
  | cons k rest ih =>
    obtain ⟨done, hdone⟩ : ∃ done, isCompletedIn e (.scalar k) = .ok done := by cases k <;> exact ⟨_, rfl⟩
    rw [List.map_cons, firstMissing?, hdone]
    cases done with
    | false => exact ⟨some (.scalar k), rfl⟩
    | true => exact ih

theorem Lacks.firstMissing? (h : m.Lacks e) :
    ∃ needed v, m.required = .ok needed ∧ Node.firstMissing? e needed = .ok (some v) := by
  obtain ⟨keys, hrequired, k, hk, hopen⟩ := h
  obtain ⟨missing?, hmissing⟩ := exists_firstMissing? e keys
  cases missing? with
  | some v => exact ⟨_, v, hrequired, hmissing⟩
  | none =>
    obtain ⟨ids, hids, hcompleted⟩ := firstMissing?_eq_none hmissing
    have hmem : Value.scalar k ∈ ids.map Value.str := hids ▸ List.mem_map_of_mem hk
    obtain ⟨x, hx, heq⟩ := List.mem_map.1 hmem
    cases (hcompleted x hx).symm.trans (hopen x (Value.scalar.inj heq).symm)

theorem mergedOutputs_ids (e : Execution) (ids : List String) :
    mergedOutputs e (ids.map .str) = .ok (ids.map fun x => (.str x, e.outputOf x)) := by
  induction ids with
  | nil => rfl
  | cons x rest ih =>
    rw [List.map_cons, mergedOutputs, ih]
    rfl

theorem gathers_distinctOutputs {ids : List String} (h : ∀ x ∈ ids, e.isCompleted x = true) :
    e.Gathers ids (.under [] "merged_data"
      (.ofEntries (distinctOutputs (ids.map fun x => (.str x, e.outputOf x))))) := by
  obtain ⟨xs, hnodup, hmem, heq⟩ := Entries.insertAll_map_texts e.outputOf ids List.nodup_nil
  refine ⟨h, xs, hnodup, fun x => ?_, ?_⟩
  · rw [hmem, or_iff_right List.not_mem_nil]
  · have hdistinct : distinctOutputs (ids.map fun x => (.str x, e.outputOf x)) =
        xs.map fun x => (.str x, e.outputOf x) := heq
    rw [hdistinct, Output.merged, List.map_map]
    rfl

/-! ## Running a merge -/

theorem leads_of {α : Type} {r : Except Fault α} {ok : α → Session → Prop} {fails : Fault → Session → Prop}
    (hok : ∀ a, r = .ok a → ok a s) (hfails : ∀ fault, r = .error fault → fails fault s) :
    Leads (Run.of r) s ok fails := by
  cases r with
  | error fault => exact hfails fault rfl
  | ok a => exact hok a rfl

theorem itemsOf_required (m : Node) : m.itemsOf "required_inputs" = Run.of m.required := by
  unfold itemsOf required
  cases m.config.entry "required_inputs" with
  | error fault => rfl
  | ok v => rfl

theorem runMerge_leads (m : Node) (s : Session) :
    Leads m.runMerge s (fun r t => t = s ∧ r.Merges m s.execution) fun _ t => t = s := by
  unfold runMerge
  rw [itemsOf_required]
  refine leads_bind (leads_of (fun needed hneeded => ?_) fun _ _ => rfl)
  refine leads_bind (leads_execution ?_)
  refine leads_bind (leads_of (fun missing? hmissing => ?_) fun _ _ => rfl)
  cases missing? with
  | some v => exact leads_pure ⟨rfl, nofun⟩
  | none =>
    obtain ⟨ids, rfl, hcompleted⟩ := firstMissing?_eq_none hmissing
    rw [mergedOutputs_ids]
    exact leads_bind (leads_pure (leads_pure ⟨rfl, fun _ => ⟨ids, hneeded, gathers_distinctOutputs hcompleted⟩⟩))

/-- A merge waits as long as it lacks something. -/
theorem runMerge_waits (h : m.Lacks s.execution) :
    Leads m.runMerge s (fun r t => t = s ∧ r.isWaiting = true) fun _ _ => False := by
  obtain ⟨needed, v, hneeded, hmissing⟩ := h.firstMissing?
  unfold runMerge
  rw [itemsOf_required, hneeded]
  refine leads_bind (leads_pure (leads_bind (leads_execution ?_)))
  rw [hmissing]
  exact leads_bind (leads_pure (leads_pure ⟨rfl, rfl⟩))

/-! ## Dispatch -/

section Dispatch
variable {setup : Setup} {w : Workflow} (hm : w.MergesAt setup m)
include hm

/-- Running a merge changes no state, and gives what it has gathered. -/
theorem dispatch_merges (running depth : Nat) (s : Session) :
    Leads (dispatch (setup.services running) w depth m) s
      (fun r t => t.execution.states = s.execution.states ∧ r.Merges m t.execution)
      fun _ t => t.execution.states = s.execution.states := by
  cases depth with
  | zero => exact leads_throw rfl
  | succ depth =>
    have hrun : Leads (runNode (setup.services running) w (dispatch (setup.services running) w depth) m) s
        (fun r t => t.execution.states = s.execution.states ∧ r.Merges m s.execution) fun _ _ => False := by
      refine leads_runNode (hm.kind running) (fun r t logs h => h) (fun r t k h => h) ?_ fun logs => ?_
      · rintro r t k hwaits ⟨hstates, -⟩
        refine ⟨hstates, fun hcompleted => ?_⟩
        cases (eq_of_beq hwaits).symm.trans hcompleted
      · refine (runMerge_leads m _).mono ?_ ?_
        · rintro r t ⟨rfl, hr⟩
          exact ⟨rfl, hr.of_states rfl⟩
        · rintro fault t rfl
          exact ⟨rfl, nofun⟩
    exact leads_dispatch (hrun.mono (fun r t ⟨hstates, hr⟩ => ⟨hstates, hr.of_states hstates⟩) fun _ _ h => h.elim)

/-- A merge that lacks something waits wherever it is run, and changes no state by that. -/
theorem dispatch_waits (running depth : Nat) (h : m.Lacks s.execution) :
    Leads (dispatch (setup.services running) w (depth + 1) m) s
      (fun r t => t.execution.states = s.execution.states ∧ r.isWaiting = true) fun _ _ => False := by
  refine leads_dispatch (Leads.mono (leads_runNode (hm.kind running) (fun r t logs h => h) (fun r t k h => h) ?_
    fun logs => ?_) (fun _ _ h => h) fun _ _ h => h)
  · exact fun r t k hwaits ht => ⟨ht.1, hwaits⟩
  · refine (runMerge_waits (s := { s with execution := { s.execution with logs := logs } }) h).mono ?_
      fun _ _ h => h.elim
    rintro r t ⟨rfl, hwaits⟩
    exact ⟨rfl, hwaits⟩

/-- A visit of a merge that lacks something waits, and leaves what is in the queue of the walk as it is. -/
theorem visit_waits (running depth : Nat) (h : m.Lacks s.execution) (queue : List Node) :
    Leads (do
        let r ← Walk.visit (dispatch (setup.services running) w (depth + 1)) m
        return (r, ← Walk.follow w m r queue)) s
      (fun a _ => a.1.isWaiting = true ∧ a.2 = queue) fun _ _ => False := by
  have hvisit : Leads (Walk.visit (dispatch (setup.services running) w (depth + 1)) m) s
      (fun r _ => r.isWaiting = true) fun _ _ => False := by
    refine leads_bind (leads_modify ?_)
    refine Leads.bind (dispatch_waits (s := { s with execution := s.execution.visit m.id }) hm running depth h) ?_
    rintro r t ⟨-, hwaits⟩
    refine leads_bind (leads_modify ?_)
    have hgoing : r.isFailed = false := by rw [NodeResult.isFailed, eq_of_beq hwaits]; rfl
    dsimp only
    rw [hgoing]
    exact leads_pure hwaits
  refine hvisit.bind fun r t hwaits => ?_
  rw [Walk.follow, if_pos hwaits]
  exact leads_bind (leads_pure (leads_pure ⟨hwaits, rfl⟩))

end Dispatch

end Node

/-! ## Where merges stay merged -/

/-- Sessions of which the later one has a merge merged where the earlier one has. -/
def StaysMerged (m : Node) (s t : Session) : Prop := s.execution.Merged m → t.execution.Merged m

instance (m : Node) : SignalFrame (StaysMerged m) where
  refl _ := id
  trans _ _ _ hst htu := htu ∘ hst
  setVariable _ _ _ h := h.of_states rfl
  log s level message context h := by
    obtain ⟨logs, heq⟩ := Execution.log_eq s.execution level message context
    rw [heq]
    exact h.of_states rfl
  cancel _ h := h.of_states rfl
  elapse _ _ _ _ h := h
  takeSignal _ _ h := h
  countCall _ _ _ h := h
  readStopwatch _ h := h
  number _ h := h.of_states rfl

namespace Node
variable {setup : Setup} {w : Workflow} {m n : Node} (hm : w.MergesAt setup m)
include hm

/-- Where running a node keeps a merge merged, so does recording its result. -/
theorem leads_recorded {running depth : Nat} (hn : n ∈ w.nodes)
    (hinner : Within (StaysMerged m) (dispatch (setup.services running) w depth n)) (s : Session) :
    Leads (dispatch (setup.services running) w depth n) s
      (fun r t => StaysMerged m s { t with execution := t.execution.setState n.id r.status r.output })
      fun _ t => StaysMerged m s t := by
  by_cases hid : n.id = m.id
  · obtain rfl := hm.alone n hn hid
    refine (dispatch_merges hm running depth s).mono ?_ fun _ t hstates hs => hs.of_states hstates
    exact fun r t ⟨hstates, hr⟩ hs => (hs.of_states hstates).setState_self hr
  · refine (hinner s).mono (fun r t ht hs => ?_) fun _ t ht => ht
    exact (ht.1 hs).setState_of_ne (fun heq => hid heq.symm) _ _

theorem within_dispatch_merged (running depth : Nat) (hn : n ∈ w.nodes) :
    Within (StaysMerged m) (dispatch (setup.services running) w depth n) := by
  induction depth generalizing n with
  | zero => exact gives_throw
  | succ depth ih =>
    refine within_dispatch_succ (within_runNode fun kind _ => within_runKind ?_ ?_ ?_) fun _ _ h => h.of_states rfl
    · exact fun _ b hbody => ih (mem_of_bodyOf? hbody)
    -- A branch is recorded within the parallel node: if it is the merge, with what it has gathered.
    · intro _ bs hbs b hb resuming
      have hb := mem_of_branchesOf hbs hb
      refine within_execution.bind fun e => ?_
      split
      · exact gives_pure trivial
      · intro s
        refine Leads.bind (leads_recorded hm hb (ih hb) s) fun r t ht => ?_
        exact leads_bind (leads_modify (leads_pure ⟨ht, trivial⟩))
    · exact fun _ => within_runWait _ n (Run.within_takeSignal n.id)

/-- No visit of a walk records the merge as completed without what it needs. -/
theorem leads_visit_merged (running depth : Nat) (hn : n ∈ w.nodes) {s : Session}
    (hs : s.execution.Merged m) :
    Leads (Walk.visit (dispatch (setup.services running) w depth) n) s (fun _ t => t.execution.Merged m)
      fun _ t => t.execution.Merged m := by
  refine leads_bind (leads_modify ?_)
  have hvisited : (s.execution.visit n.id).Merged m := hs.of_states rfl
  refine Leads.bind ((leads_recorded hm hn (within_dispatch_merged hm running depth hn) _).mono
    (fun r t ht => ht hvisited) fun _ t ht => ht hvisited) fun r t ht => ?_
  refine leads_bind (leads_modify ?_)
  dsimp only
  split
  · exact leads_throw ht
  · exact leads_pure ht

/-- A walk keeps a merge merged, however many nodes it visits and whether it fails or not. -/
theorem leads_run_merged (running : Nat) (iterations : Int) {starts : List Node}
    (hstarts : ∀ n ∈ starts, n ∈ w.nodes) {s : Session} (hs : s.execution.Merged m) :
    Leads (Walk.run (dispatch (setup.services running) w (nestingLimit w)) w iterations starts) s
      (fun _ t => t.execution.Merged m) fun _ t => t.execution.Merged m := by
  refine Walk.run_holds (R := StaysMerged m) (P := fun s => s.execution.Merged m)
    (F := fun s => s.execution.Merged m) (within_dispatch _ w _) ?_ (fun s t hst => hst) (fun _ h => h)
    (fun n s hn hs => leads_visit_merged hm running _ hn hs) iterations hstarts hs
  exact fun n k _ hleads => hleads.mem

end Node

end Flowline
