import Flowline.Proofs.Execution.Sound
import Flowline.Proofs.Node.Single

/-! # What running a node leaves as it is

A node runs others inside it: a loop its body, a parallel node its branches, whose states it records. What
neither these nor the node itself lead out of, running it does not. `NodeFrame R`: that holds of all nodes,
as whatever is done in a session keeps it within the relation `R`. -/

namespace Flowline

/-- A relation of sessions that holds between those before and after a node is run. -/
class NodeFrame (R : Session → Session → Prop) : Prop extends SignalFrame R, RecordFrame R where
  ran : ∀ s n r, R s { s with execution := s.execution.ran n r }

/-- An execution that has come to have some variables. Nothing else is different but the log, the numbers that were
given out, and the runs that were kept. -/
def Execution.Turned (e : Execution) (vars : List (Scalar × Value)) (f : Execution) : Prop :=
  ∃ logs number runs, f = { e with vars := vars, logs := logs, nextNumber := number, runs := runs }

theorem Execution.Turned.states_eq {e f : Execution} {vars : List (Scalar × Value)} (h : e.Turned vars f) :
    f.states = e.states := by
  obtain ⟨logs, number, runs, rfl⟩ := h
  rfl

theorem Workflow.mem_of_nodeOf? {w : Workflow} {v : Value} {n : Node} (h : w.nodeOf? v = some n) :
    n ∈ w.nodes := by
  unfold nodeOf? at h
  split at h
  · exact List.mem_of_find?_eq_some h
  · cases h

namespace Node

/-- The node that a loop runs. -/
def bodyOf? (w : Workflow) (n : Node) : Except Fault (Option Node) := do
  let bodyId ← n.config.entry "body_node"
  return if bodyId.isPresent then w.nodeOf? bodyId else none

/-- The nodes that a parallel node runs at most. -/
def branchesOf (w : Workflow) (n : Node) : Except Fault (List Node) := do
  let branches := (← n.config.entry "branches").orElse (.list [])
  let most ← (w.settingOr (.str "max_parallel_branches") (.int 5)).toWhole
  return (← firstItems branches most).filterMap w.nodeOf?

theorem mem_of_bodyOf? {w : Workflow} {n b : Node} (h : n.bodyOf? w = .ok (some b)) : b ∈ w.nodes := by
  obtain ⟨bodyId, -, h⟩ := bind_eq_ok.1 h
  have h := Except.ok.inj h
  split at h
  · exact Workflow.mem_of_nodeOf? h
  · cases h

theorem mem_of_branchesOf {w : Workflow} {n b : Node} {bs : List Node} (h : n.branchesOf w = .ok bs)
    (hb : b ∈ bs) : b ∈ w.nodes := by
  obtain ⟨listed, -, h⟩ := bind_eq_ok.1 h
  obtain ⟨most, -, h⟩ := bind_eq_ok.1 h
  obtain ⟨ids, -, h⟩ := bind_eq_ok.1 h
  obtain rfl := Except.ok.inj h
  obtain ⟨v, -, hv⟩ := List.mem_filterMap.1 hb
  exact Workflow.mem_of_nodeOf? hv

open NodeResult Run
variable {R : Session → Session → Prop} [Frame R]

/-- What a computation gives that reads something. -/
theorem gives_read {α : Type} (r : Except Fault α) : Gives R (fun a => r = .ok a) (Run.of r) :=
  gives_of r fun _ h => h

section Inner
variable {inner : Node → Run NodeResult}

/-! ## Loops -/

section Loops
variable {body? : Option Node} (hbody : ∀ b, body? = some b → Within R (inner b))
include hbody

theorem within_runBody (index : Nat) : Within R (runBody inner body? index) := by
  cases body? with
  | none => exact gives_pure trivial
  | some body =>
    refine (hbody body rfl).bind fun r => ?_
    split
    · exact gives_pure trivial
    · split
      · exact gives_pure trivial
      · exact gives_pure trivial

theorem within_loopItems (names : LoopNames) (results : List Output)
    (pairs : List (Value × Value)) : Within R (loopItems inner body? names results pairs) := by
  induction pairs generalizing results with
  | nil => exact gives_pure trivial
  | cons pair rest ih =>
    refine (within_setNamed _ _).bind fun _ => ?_
    refine (within_setNamed _ _).bind fun _ => ?_
    refine (within_setNamed _ _).bind fun _ => ?_
    refine (within_runBody hbody _).bind fun r => ?_
    obtain ⟨output, failure?⟩ := r
    cases failure? with
    | some failure => exact gives_pure trivial
    | none => exact ih _

theorem within_loopTimes (results : List Output) (left : Nat) :
    Within R (loopTimes inner body? results left) := by
  induction left generalizing results with
  | zero => exact gives_pure trivial
  | succ left ih =>
    refine (within_setVariable _ _).bind fun _ => ?_
    refine (within_runBody hbody _).bind fun r => ?_
    obtain ⟨output, failure?⟩ := r
    cases failure? with
    | some failure => exact gives_pure trivial
    | none => exact ih _

theorem within_loopWhile (condition : Value) (results : List Output) (left : Nat) :
    Within R (loopWhile inner body? condition results left) := by
  induction left generalizing results with
  | zero => exact (within_check condition).bind fun _ => gives_pure trivial
  | succ left ih =>
    refine (within_check condition).bind fun held => ?_
    split
    · refine (within_setVariable _ _).bind fun _ => ?_
      refine (within_runBody hbody _).bind fun r => ?_
      obtain ⟨output, failure?⟩ := r
      cases failure? with
      | some failure => exact gives_pure trivial
      | none => exact ih _
    · exact gives_pure trivial

end Loops

theorem within_runLoop (w : Workflow) (n : Node)
    (hbody : ∀ b, n.bodyOf? w = .ok (some b) → Within R (inner b)) : Within R (runLoop inner w n) := by
  refine (within_of _).bind fun type => ?_
  refine (within_of _).bind fun v => ?_
  refine (within_of _).bind fun most => ?_
  refine (gives_read _).bind fun bodyId hbodyId => ?_
  have hbody : ∀ b, (if bodyId.isPresent = true then w.nodeOf? bodyId else none) = some b →
      Within R (inner b) := by
    refine fun b hb => hbody b ?_
    simp only [bodyOf?, hbodyId, bind, Except.bind, pure, Except.pure, hb]
  dsimp only
  generalize (if bodyId.isPresent = true then w.nodeOf? bodyId else none) = body? at hbody ⊢
  split
  · refine (within_of _).bind fun v => ?_
    refine (within_resolve v).bind fun items => ?_
    split
    · exact gives_pure trivial
    · refine (within_of _).bind fun item => ?_
      refine (within_of _).bind fun index => ?_
      refine (within_of _).bind fun key => ?_
      exact within_loopItems hbody _ _ _
  · exact (within_of _).bind fun condition => within_loopWhile hbody _ _ _
  · refine (within_of _).bind fun v => ?_
    refine (within_resolve v).bind fun times => ?_
    exact (within_of _).bind fun count => within_loopTimes hbody _ _
  · exact gives_pure trivial

/-! ## Parallel nodes -/

/-- A branch can be run and recorded. -/
def Records (R : Session → Session → Prop) (inner : Node → Run NodeResult) (b : Node) : Prop :=
  Within R (inner b) ∧
    ∀ s status o, R s { s with execution := s.execution.setState b.id status o }

theorem within_runBranch {branch : Node} (hbranch : Records R inner branch) (resuming : Bool) :
    Within R (runBranch inner resuming branch) := by
  refine within_execution.bind fun e => ?_
  split
  · exact gives_pure trivial
  · refine hbranch.1.bind fun r => ?_
    exact (within_modify fun s => hbranch.2 s _ _).bind fun _ => gives_pure trivial

theorem within_runBranches {branches : List Node}
    (hbranches : ∀ b ∈ branches, ∀ resuming, Within R (runBranch inner resuming b))
    (resuming waitForAll : Bool) (results : Table String NodeResult) :
    Within R (runBranches inner resuming waitForAll results branches) := by
  induction branches generalizing results with
  | nil => exact gives_pure trivial
  | cons branch rest ih =>
    refine (hbranches branch (List.mem_cons_self ..) resuming).bind fun r => ?_
    dsimp only
    split
    · exact gives_pure trivial
    · exact ih (fun b hb => hbranches b (List.mem_cons_of_mem branch hb)) _

theorem within_runParallel (w : Workflow) (n : Node)
    (hbranches : ∀ bs, n.branchesOf w = .ok bs → ∀ b ∈ bs, ∀ resuming,
      Within R (runBranch inner resuming b)) :
    Within R (runParallel inner w n) := by
  refine (gives_read _).bind fun listed hlisted => ?_
  refine (within_of _).bind fun joined => ?_
  refine (gives_read _).bind fun most hmost => ?_
  refine within_execution.bind fun e => ?_
  refine (gives_read _).bind fun ids hids => ?_
  refine (within_runBranches (hbranches _ ?_) _ _ _).bind fun results => within_of _
  simp only [branchesOf, hlisted, hmost, hids, bind, Except.bind, pure, Except.pure]

end Inner

/-! ## Dispatch -/

theorem within_runMerge (n : Node) : Within R n.runMerge := by
  refine (within_itemsOf n _).bind fun needed => ?_
  refine within_execution.bind fun e => ?_
  refine (within_of _).bind fun missing? => ?_
  split
  · exact gives_pure trivial
  · exact (within_of _).bind fun outputs => gives_pure trivial

theorem within_failed (n : Node) (fault : Fault) : Within R (n.failed fault) :=
  (within_note _ _ _).bind fun _ => gives_pure trivial

theorem within_numbered (r : NodeResult) : Within R (numbered r) := by
  unfold numbered
  split
  · exact within_execution.bind fun e =>
      (within_modify fun s => Frame.number s).bind fun _ => gives_pure trivial
  · exact gives_pure trivial

section Runs
variable {services : Services} {w : Workflow} {inner : Node → Run NodeResult} {n : Node}

theorem within_runKind {kind : NodeKind}
    (hbody : kind = .loop → ∀ b, n.bodyOf? w = .ok (some b) → Within R (inner b))
    (hbranches : kind = .parallel → ∀ bs, n.branchesOf w = .ok bs → ∀ b ∈ bs, ∀ resuming,
      Within R (runBranch inner resuming b))
    (hwait : kind = .wait → Within R (runWait services n)) :
    Within R (runKind services w inner n kind) := by
  cases kind with
  | entry => exact gives_runEntry.within
  | finish => exact (gives_runEnd n).within
  | condition => exact (gives_runCondition n).within
  | switch => exact (gives_runSwitch n).within
  | loop => exact within_runLoop w n (hbody rfl)
  | parallel => exact within_runParallel w n (hbranches rfl)
  | merge => exact within_runMerge n
  | delay => exact within_runDelay n
  | wait => exact hwait rfl
  | setVariable => exact (gives_runSetVariable n).within
  | transform => exact (gives_runTransform n).within
  | filter => exact (gives_runFilter n).within
  | aggregate => exact (gives_runAggregate n).within
  | action => exact (gives_runAction services n).within

theorem within_runNode
    (hkind : ∀ kind, NodeKind.ofNode? services n = some kind → Within R (runKind services w inner n kind)) :
    Within R (runNode services w inner n) := by
  refine (within_note _ _ _).bind fun _ => ?_
  split
  · exact gives_throw
  · next kind hn =>
    refine (hkind kind hn).attempt.bind fun r _ => ?_
    cases r with
    | ok r => exact within_numbered r
    | error fault => exact within_failed n fault

/-- Running a node comes to what its kind does in a session that differs in its log alone, where that is so
whatever is logged then and whatever number its output gets. -/
theorem leads_runNode {s : Session} {kind : NodeKind} {P : NodeResult → Session → Prop}
    (hkind : NodeKind.ofNode? services n = some kind)
    (hlog : ∀ r t logs, P r t → P r { t with execution := { t.execution with logs := logs } })
    (hnumber : ∀ r t k, P r t → P r { t with execution := { t.execution with nextNumber := k } })
    (hgrowing : ∀ r t k, r.isWaiting = true → P r t → P { r with output := r.output.asGrowing k } t)
    (h : ∀ logs, Leads (runKind services w inner n kind)
      { s with execution := { s.execution with logs := logs } } P fun fault t => P (.failure fault.message) t) :
    Leads (runNode services w inner n) s P fun _ _ => False := by
  have noted (t : Session) (level message : String) (details : List (String × Value)) :
      ∃ logs, { t with execution := t.execution.note level message details } =
        { t with execution := { t.execution with logs := logs } } := by
    obtain ⟨logs, hlogs⟩ := Execution.log_eq t.execution level message (.object details)
    exact ⟨logs, congrArg (fun e => { t with execution := e }) hlogs⟩
  refine leads_bind (leads_modify ?_)
  obtain ⟨logs, hlogs⟩ := noted s "debug" s!"Executing node: {n.id}"
    [("type", .str n.type), ("config", n.config)]
  rw [hkind]
  dsimp only at hlogs ⊢
  rw [hlogs]
  refine leads_bind (Run.leads_attempt ((h logs).mono ?_ ?_))
  · intro r t hr
    dsimp only
    unfold numbered
    split
    · next hwaits =>
      exact leads_bind (leads_execution (leads_bind (leads_modify
        (leads_pure (hgrowing r _ _ hwaits (hnumber _ _ _ hr))))))
    · exact leads_pure hr
  · intro fault t hr
    refine leads_bind (leads_modify (leads_pure ?_))
    obtain ⟨logs, hlogs⟩ := noted t "error" s!"Node execution error: {n.id}" [("error", .str fault.message)]
    dsimp only at hlogs ⊢
    rw [hlogs]
    exact hlog _ t logs hr

/-- Where a node turns an execution into one with some variables, whether it fails or not, so does running it,
which cannot fail. -/
theorem leads_dispatch_turned {depth : Nat} {s : Session} {kind : NodeKind} {vars : List (Scalar × Value)}
    {Q : NodeResult → Prop} (hkind : NodeKind.ofNode? services n = some kind)
    (hgrowing : ∀ r k, r.isWaiting = true → Q r → Q { r with output := r.output.asGrowing k })
    (h : ∀ logs, Leads (runKind services w (dispatch services w depth) n kind)
      { s with execution := { s.execution with logs := logs } }
      (fun r t => s.execution.Turned vars t.execution ∧ Q r)
      fun fault t => s.execution.Turned vars t.execution ∧ Q (.failure fault.message)) :
    Leads (dispatch services w (depth + 1) n) s (fun r t => s.execution.Turned vars t.execution ∧ Q r)
      fun _ _ => False := by
  refine leads_dispatch ((leads_runNode hkind ?_ ?_ ?_ h).mono ?_ fun _ _ hfalse => hfalse)
  · rintro r t logs ⟨⟨_, number, runs, ht⟩, hr⟩
    refine ⟨⟨logs, number, runs, ?_⟩, hr⟩
    rw [ht]
  · rintro r t number ⟨⟨logs, _, runs, ht⟩, hr⟩
    refine ⟨⟨logs, number, runs, ?_⟩, hr⟩
    rw [ht]
  · rintro r t number hwaits ⟨ht, hr⟩
    exact ⟨ht, hgrowing r number hwaits hr⟩
  · rintro r t ⟨⟨logs, number, runs, ht⟩, hr⟩
    refine ⟨⟨logs, number, runs ++ [⟨n, r⟩], ?_⟩, hr⟩
    rw [ht]
    rfl

end Runs

theorem within_dispatch_succ {services : Services} {w : Workflow} {depth : Nat} {n : Node}
    (hruns : Within R (runNode services w (dispatch services w depth) n))
    (hran : ∀ s r, R s { s with execution := s.execution.ran n r }) :
    Within R (dispatch services w (depth + 1) n) := fun s =>
  leads_dispatch ((hruns s).mono (fun r t h => ⟨trans_of R h.1 (hran t r), trivial⟩) fun _ _ h => h)

/-- Running some nodes, among which are all that they run inside them, does not lead out of a relation
where keeping their results, recording the branches among them, and running nodes that wait for signals do not. -/
theorem within_dispatch_among {services : Services} {w : Workflow} (among : Node → Prop)
    (hbody : ∀ n b, among n → NodeKind.ofNode? services n = some .loop →
      n.bodyOf? w = .ok (some b) → among b)
    (hbranches : ∀ n bs b, among n → NodeKind.ofNode? services n = some .parallel →
      n.branchesOf w = .ok bs → b ∈ bs → among b ∧
        ∀ s status o, R s { s with execution := s.execution.setState b.id status o })
    (hran : ∀ n, among n → NodeKind.ofNode? services n ≠ some .wait →
      ∀ s r, R s { s with execution := s.execution.ran n r })
    (hwait : ∀ n depth, among n → NodeKind.ofNode? services n = some .wait →
      Within R (dispatch services w (depth + 1) n))
    (depth : Nat) {n : Node} (hn : among n) : Within R (dispatch services w depth n) := by
  induction depth generalizing n with
  | zero => exact gives_throw
  | succ depth ih =>
    by_cases hkind : NodeKind.ofNode? services n = some .wait
    · exact hwait n depth hn hkind
    · have hruns : Within R (runNode services w (dispatch services w depth) n) := by
        refine within_runNode fun kind hn' => within_runKind ?_ ?_ ?_
        · rintro rfl b hb
          exact ih (hbody n b hn hn' hb)
        · rintro rfl bs hbs b hb
          have hbranch := hbranches n bs b hn hn' hbs hb
          exact within_runBranch ⟨ih hbranch.1, hbranch.2⟩
        · rintro rfl
          exact absurd hn' hkind
      exact within_dispatch_succ hruns (hran n hn hkind)

theorem within_dispatch {R : Session → Session → Prop} [NodeFrame R] (services : Services) (w : Workflow)
    (depth : Nat) (n : Node) : Within R (dispatch services w depth n) := by
  refine within_dispatch_among (fun _ => True) (fun _ _ _ _ _ => trivial)
    (fun _ _ _ _ _ _ _ => ⟨trivial, fun s _ _ => RecordFrame.setState s _ _ _⟩)
    (fun n _ _ s r => NodeFrame.ran s n r) ?_ depth trivial
  intro n depth _ hn
  refine within_dispatch_succ (within_runNode fun kind hkind => ?_) fun s r => NodeFrame.ran s n r
  obtain rfl := Option.some.inj (hkind.symm.trans hn)
  exact within_runKind nofun nofun fun _ => within_runWait services n (within_takeSignal n.id)

end Node

end Flowline
