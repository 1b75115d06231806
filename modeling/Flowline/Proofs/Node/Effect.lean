import Flowline.Proofs.Node.Next
import Flowline.Proofs.Session.Frame

/-! # What nodes make of variables

Entries, ends and the nodes that work on data only read variables, and the clock in the conditions of filters
and transformations. `Node.effect` is what such a node makes of some variables. Where the clock has no part in
it, running the node comes to its effect in every session. -/

namespace Flowline

/-- The kinds of nodes that read and set variables, and do nothing else. -/
def NodeKind.isData : NodeKind → Bool
  | .entry | .finish | .setVariable | .transform | .filter | .aggregate => true
  | _ => false

/-- The kinds among those whose nodes have no conditions. -/
def NodeKind.isClockless : NodeKind → Bool
  | .entry | .finish | .setVariable | .aggregate => true
  | _ => false

/-- A session in which nothing has happened yet. -/
def Session.blank (vars : List (Scalar × Value)) : Session where
  execution := { Execution.start "" default with vars := vars }
  now := default
  signals := []
  calls := []
  stopwatch := 0
  tick := 0

namespace Node
open NodeResult Run

variable {clocks : Moment → Moment → Prop} {n : Node}

/-! ## Nodes without conditions -/

theorem confined_storeOutput (v : Value) : Confined clocks (n.storeOutput v) := by
  refine (confined_of _).bind fun name => ?_
  split
  · exact confined_setNamed name v
  · exact confined_pure _

theorem confined_runEnd : Confined clocks n.runEnd := by
  refine (confined_of _).bind fun declared => ?_
  exact (confined_resolveDeep _).bind fun _ => confined_pure _

theorem confined_assign (done : List (Scalar × Value)) (items : List Value) :
    Confined clocks (assign done items) := by
  induction items generalizing done with
  | nil => exact confined_pure done
  | cons item rest ih =>
    refine (confined_of _).bind fun name => ?_
    split
    · refine (confined_of _).bind fun v => (confined_resolve v).bind fun value => ?_
      exact (confined_of _).bind fun key => (confined_setVariable key value).bind fun _ => ih _
    · exact ih done

theorem confined_runSetVariable : Confined clocks n.runSetVariable := by
  refine (confined_of _).bind fun v => (confined_of _).bind fun items => ?_
  exact (confined_assign [] items).bind fun _ => confined_pure _

theorem confined_runAggregate : Confined clocks n.runAggregate := by
  refine (confined_of _).bind fun v => (confined_resolve v).bind fun input => ?_
  split
  · exact confined_pure _
  · refine (confined_of _).bind fun v => (confined_of _).bind fun operations => ?_
    exact (confined_of _).bind fun results => (confined_storeOutput _).bind fun _ => confined_pure _

/-! ## Nodes with conditions -/

theorem confined_mapItems (expression : Value) (items : List Value) :
    Confined clocks (mapItems expression items) := by
  induction items with
  | nil => exact confined_pure []
  | cons item rest ih =>
    refine (confined_setVariable _ item).bind fun _ => (confined_resolve expression).bind fun v => ?_
    exact ih.bind fun _ => confined_pure _

theorem confined_filterItems (condition : Value) (items : List Value) :
    Confined Eq (filterItems condition items) := by
  induction items with
  | nil => exact confined_pure []
  | cons item rest ih =>
    refine (confined_setVariable _ item).bind fun _ => (confined_check condition).bind fun kept => ?_
    exact ih.bind fun _ => confined_pure _

theorem confined_reduceItems (expression accumulator : Value) (items : List Value) :
    Confined clocks (reduceItems expression accumulator items) := by
  induction items generalizing accumulator with
  | nil => exact confined_pure accumulator
  | cons item rest ih =>
    refine (confined_setVariable _ accumulator).bind fun _ => (confined_setVariable _ item).bind fun _ => ?_
    exact (confined_resolve expression).bind fun v => ih v

theorem confined_transformation {name : String} {step data : Value} {m : Run Value}
    (h : transformation? name step data = some m) : Confined Eq m := by
  unfold transformation? at h
  split at h
  case h_1 =>
    cases h
    exact (confined_of _).bind fun v => (confined_mapItems v _).bind fun _ => confined_pure _
  case h_2 =>
    cases h
    exact (confined_of _).bind fun v => (confined_filterItems v _).bind fun _ => confined_pure _
  case h_3 =>
    cases h
    exact (confined_of _).bind fun initial => (confined_of _).bind fun v => confined_reduceItems v initial _
  case h_4 =>
    cases h
    refine (confined_of _).bind fun direction => (confined_of _).bind fun key => ?_
    exact (confined_of _).bind fun descending => (confined_of _).bind fun _ => confined_pure _
  case h_10 =>
    cases h
    exact confined_of _
  case h_14 => cases h
  all_goals
    cases h
    first
    | exact confined_pure _
    | exact (confined_of _).bind fun _ => confined_pure _
    | exact (confined_of _).bind fun _ => (confined_of _).bind fun _ => confined_pure _

theorem confined_known (known? : Option (Run Value)) (h : ∀ m, known? = some m → Confined Eq m) (type data : Value) :
    Confined Eq (do
      match known? with
      | some transformed => transformed
      | none =>
        let name ← of type.written
        note "warning" s!"Unknown transformation type: {name}" [("node_id", .str n.id)]
        return data) := by
  cases known? with
  | none => exact (confined_of _).bind fun _ => (confined_note _ _ _).bind fun _ => confined_pure _
  | some m => exact h m rfl

theorem confined_applyStep (data step : Value) : Confined Eq (n.applyStep data step) := by
  refine (confined_of _).bind fun type => (confined_of _).bind fun key => ?_
  dsimp only
  split
  · exact confined_known _ (fun m hm => confined_transformation hm) type data
  · refine confined_known none ?_ type data
    rintro _ ⟨⟩

theorem confined_runTransform : Confined Eq n.runTransform := by
  refine (confined_of _).bind fun input => (confined_resolve input).bind fun data => ?_
  refine (confined_of _).bind fun v => (confined_of _).bind fun steps => ?_
  refine (confined_foldlM confined_applyStep data steps).bind fun result => ?_
  exact (confined_storeOutput result).bind fun _ => confined_pure _

theorem confined_checkAll (conditions : List Value) : Confined Eq (checkAll conditions) := by
  induction conditions with
  | nil => exact confined_pure []
  | cons condition rest ih =>
    exact (confined_check condition).bind fun _ => ih.bind fun _ => confined_pure _

theorem confined_matchingItems (conditions : Value) (needsAll : Bool) (items : List Value) :
    Confined Eq (matchingItems conditions needsAll items) := by
  induction items with
  | nil => exact confined_pure []
  | cons item rest ih =>
    refine (confined_setVariable _ item).bind fun _ => (confined_of _).bind fun list => ?_
    exact (confined_checkAll list).bind fun held => ih.bind fun _ => confined_pure _

theorem confined_runFilter : Confined Eq n.runFilter := by
  refine (confined_of _).bind fun v => (confined_resolve v).bind fun input => ?_
  refine (confined_of _).bind fun conditions => (confined_of _).bind fun matchType => ?_
  split
  · exact confined_pure _
  · refine (confined_matchingItems _ _ _).bind fun kept => ?_
    exact (confined_storeOutput _).bind fun _ => confined_pure _

/-! ## Effects -/

section Effects
variable {services : Services} {w : Workflow} {inner : Node → Run NodeResult} {kind : NodeKind}

theorem confined_of_isClockless (hkind : kind.isClockless = true) :
    Confined clocks (runKind services w inner n kind) := by
  cases kind with
  | entry => exact confined_pure _
  | finish => exact confined_runEnd
  | setVariable => exact confined_runSetVariable
  | aggregate => exact confined_runAggregate
  | _ => cases hkind

theorem confined_of_isData (hkind : kind.isData = true) : Confined Eq (runKind services w inner n kind) := by
  cases kind with
  | transform => exact confined_runTransform
  | filter => exact confined_runFilter
  | entry | finish | setVariable | aggregate => exact confined_of_isClockless rfl
  | _ => cases hkind

/-- What a node of a kind does outside of any workflow. -/
def runAlone (n : Node) (kind : NodeKind) : Run NodeResult :=
  runKind ⟨[], [], 0, 0⟩ ⟨"", "", .null, .null, .draft, .null, [], [], .null, [], .null⟩
    (fun m => throw (.unknownNodeType m.type)) n kind

theorem runKind_eq_runAlone (hkind : kind.isData = true) :
    runKind services w inner n kind = n.runAlone kind := by
  cases kind with
  | entry | finish | setVariable | transform | filter | aggregate => rfl
  | _ => cases hkind

theorem plain_runAlone (hkind : kind.isData = true) (s : Session) :
    Leads (n.runAlone kind) s (fun r _ => r.Plain) fun _ _ => True := by
  have hframe : Frame fun _ _ : Session => True := {
    refl := fun _ => trivial
    trans := fun _ _ _ _ _ => trivial
    setVariable := fun _ _ _ => trivial
    log := fun _ _ _ _ => trivial
    cancel := fun _ => trivial
    elapse := fun _ _ _ _ => trivial
    number := fun _ => trivial
    countCall := fun _ _ _ => trivial
    readStopwatch := fun _ => trivial }
  have hplain : Gives (fun _ _ => True) Plain (n.runAlone kind) := by
    cases kind with
    | entry => exact gives_runEntry
    | finish => exact gives_runEnd n
    | setVariable => exact gives_runSetVariable n
    | transform => exact gives_runTransform n
    | filter => exact gives_runFilter n
    | aggregate => exact gives_runAggregate n
    | _ => cases hkind
  exact (hplain s).mono (fun _ _ h => h.2) fun _ _ h => h

theorem straight_runAlone (hkind : kind.isData = true) : Straight (n.runAlone kind) := by
  refine straight_runKind ?_
  cases kind with
  | entry | finish | setVariable | transform | filter | aggregate => rfl
  | _ => cases hkind

/-- What a node of a kind makes of some variables: its result, a fault being its failure, and the variables
that it leaves. -/
def effect (n : Node) (kind : NodeKind) (vars : List (Scalar × Value)) :
    NodeResult × List (Scalar × Value) :=
  match (n.runAlone kind).run.run (.blank vars) with
  | (.ok r, s) => (r, s.execution.vars)
  | (.error fault, s) => (.failure fault.message, s.execution.vars)

theorem effect_plain (hkind : kind.isData = true) (vars : List (Scalar × Value)) :
    (n.effect kind vars).1.Plain ∧ (n.effect kind vars).1.next = .null := by
  unfold effect
  obtain ⟨r, s, hrun, hplain, hnext⟩ | ⟨fault, s, hrun, -⟩ :=
    ((plain_runAlone hkind (.blank vars)).and (straight_runAlone (n := n) hkind (.blank vars))).cases
  · rw [hrun]
    exact ⟨hplain, hnext⟩
  · rw [hrun]
    exact ⟨plain_failure _, rfl⟩

/-- The clock has no part in what a node of a kind comes to. -/
def Timeless (n : Node) (kind : NodeKind) : Prop :=
  ∀ services w inner (s : Session) now,
    let here := (runKind services w inner n kind).run.run s
    let there := (runKind services w inner n kind).run.run { s with now := now }
    there.1 = here.1 ∧ there.2.execution.vars = here.2.execution.vars

theorem timeless_of_isClockless (hkind : kind.isClockless = true) : n.Timeless kind := by
  intro services w inner s now
  have hconfined : Confined (fun _ _ => True) (runKind services w inner n kind) := confined_of_isClockless hkind
  obtain ⟨r, vars, logs, logs', hs, ht⟩ := hconfined s { s with now := now } rfl trivial
  dsimp only
  rw [hs, ht]
  exact ⟨rfl, rfl⟩

/-- Running a node comes to its effect on the variables, and changes nothing but those and the log. -/
theorem leads_effect (hkind : kind.isData = true) (htimeless : n.Timeless kind) (s : Session) :
    Leads (runKind services w inner n kind) s
      (fun r t => r = (n.effect kind s.execution.vars).1 ∧
        ∃ logs, t = s.holding (n.effect kind s.execution.vars).2 logs)
      fun fault t => .failure fault.message = (n.effect kind s.execution.vars).1 ∧
        ∃ logs, t = s.holding (n.effect kind s.execution.vars).2 logs := by
  let b : Session := .blank s.execution.vars
  have hsame := htimeless services w inner b s.now
  have hconfined : Confined Eq (runKind services w inner n kind) := confined_of_isData hkind
  have halike := hconfined s { b with now := s.now } rfl rfl
  dsimp only at hsame
  rw [runKind_eq_runAlone hkind] at hsame halike ⊢
  obtain ⟨r, vars, logs, logs', hs, hb⟩ := halike
  obtain ⟨hresult, hvars⟩ := hsame
  rw [hb] at hresult hvars
  unfold Leads effect
  rw [hs]
  rcases hrun : (n.runAlone kind).run.run b with ⟨r', u⟩
  rw [hrun] at hresult hvars
  obtain rfl : r = r' := hresult
  obtain rfl : vars = u.execution.vars := hvars
  cases r with
  | error fault => exact ⟨rfl, logs, rfl⟩
  | ok r => exact ⟨rfl, logs, rfl⟩

/-- The same holds of running it in a workflow, where its fault becomes its failure. -/
theorem dispatch_effect (hn : NodeKind.ofNode? services n = some kind) (hkind : kind.isData = true)
    (htimeless : n.Timeless kind) (w : Workflow) (depth : Nat) (s : Session) :
    Leads (dispatch services w (depth + 1) n) s
      (fun r t => s.execution.Turned (n.effect kind s.execution.vars).2 t.execution ∧
        r = (n.effect kind s.execution.vars).1) fun _ _ => False := by
  refine leads_dispatch_turned hn ?_ fun logs => ?_
  · rintro r number hwaits rfl
    cases (effect_plain hkind s.execution.vars).1.1.symm.trans hwaits
  · refine (leads_effect hkind htimeless _).mono ?_ ?_
    · rintro r t ⟨hr, logs', rfl⟩
      exact ⟨⟨logs', s.execution.nextNumber, s.execution.runs, rfl⟩, hr⟩
    · rintro fault t ⟨hr, logs', rfl⟩
      exact ⟨⟨logs', s.execution.nextNumber, s.execution.runs, rfl⟩, hr⟩

end Effects

end Node

end Flowline
