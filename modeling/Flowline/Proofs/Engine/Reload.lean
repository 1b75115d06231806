import Flowline.Proofs.Engine.Records
import Flowline.Proofs.Execution.Reload
import Flowline.Proofs.Workflow.Reload

/-! # Records are read again

`Clocked` engines are those that come of a new one by operations and upkeep while the clock shows proper
moments. In all of them, every execution that is kept or was walked has proper times: it began at a moment
that the clock showed, and ended at one. So what is written of an execution of such an engine is read again, as is
what is written of a workflow that was read, and the same is written of what was read. -/

namespace Flowline

/-! ## Executions and sessions -/

theorem Execution.Proper.of_eq {e f : Execution} (he : e.Proper) (hstarted : f.startedAt = e.startedAt)
    (hcompleted : f.completedAt? = e.completedAt?) : f.Proper :=
  ⟨hstarted ▸ he.startedAt, hcompleted ▸ he.completedAt⟩

theorem Execution.Proper.log {e : Execution} (he : e.Proper) (level message : String) (context : Value) :
    (e.log level message context).Proper := by
  obtain ⟨logs, h⟩ := Execution.log_eq e level message context
  rw [h]
  exact he.of_eq rfl rfl

/-- An execution that ends ends at a time that the clock shows. -/
theorem Execution.Proper.ended {e f : Execution} {time : Moment} (he : e.Proper) (htime : time.Proper)
    (hstarted : f.startedAt = e.startedAt) (hcompleted : f.completedAt? = some time) : f.Proper := by
  refine ⟨hstarted ▸ he.startedAt, fun m hm => ?_⟩
  obtain rfl := Option.some.inj (hcompleted.symm.trans hm)
  exact htime

theorem Execution.Proper.growOutput {e : Execution} (he : e.Proper) (x key : String) (v : Value) :
    (e.growOutput x key v).Proper := by
  obtain ⟨states, h⟩ := Execution.growOutput_eq e x key v
  rw [h]
  exact he.of_eq rfl rfl

/-- The clock of a session and the times of its execution are proper. -/
structure Session.Proper (s : Session) : Prop where
  now : s.now.Proper
  execution : s.execution.Proper

/-- A session with a proper clock and an execution with proper times leads only to such sessions. -/
def StaysProper (s t : Session) : Prop := s.Proper → t.Proper

instance : WalkFrame StaysProper where
  refl _ := id
  trans _ _ _ hst htu := htu ∘ hst
  setVariable _ _ _ h := ⟨h.now, h.execution.of_eq rfl rfl⟩
  log _ level message context h := ⟨h.now, h.execution.log level message context⟩
  cancel _ h := ⟨h.now, h.execution.of_eq rfl rfl⟩
  ran _ _ _ h := ⟨h.now, h.execution.of_eq rfl rfl⟩
  elapse _ _ _ hnow h := ⟨h.now.addMicros hnow, h.execution⟩
  takeSignal _ _ h := ⟨h.now, h.execution⟩
  countCall _ _ _ h := ⟨h.now, h.execution⟩
  readStopwatch _ h := ⟨h.now, h.execution⟩
  setState s x status o h := by
    obtain ⟨states, heq⟩ := Execution.setState_eq s.execution x status o
    refine ⟨h.now, ?_⟩
    dsimp only
    rw [heq]
    exact h.execution.of_eq rfl rfl
  number _ h := ⟨h.now, h.execution.of_eq rfl rfl⟩
  visit _ _ h := ⟨h.now, h.execution.of_eq rfl rfl⟩

/-! ## Engines -/

namespace Engine

/-- The clock of an engine is proper, and so are the times of the executions that it keeps and of those that
it walked. -/
structure Proper (g : Engine) : Prop where
  now : g.now.Proper
  kept : ∀ p ∈ g.memory.executions, p.2.Proper
  walked : ∀ p ∈ g.journal, p.before.Proper ∧ p.after.Proper

variable {g h : Engine} {e : Execution}

theorem Proper.of_eq (hg : g.Proper) (hnow : h.now = g.now) (hmemory : h.memory.executions = g.memory.executions)
    (hjournal : h.journal = g.journal) : h.Proper :=
  ⟨hnow ▸ hg.now, hmemory ▸ hg.kept, hjournal ▸ hg.walked⟩

theorem Proper.stored {id : String} (hg : g.Proper) (hstored : g.stored? id = some e) : e.Proper :=
  hg.kept (id, e) (Table.mem_of_get? hstored)

theorem Proper.loaded {id : String} (hg : g.Proper) (hloaded : g.memory.execution? id = some e) : e.Proper := by
  obtain ⟨kept, hkept, rfl⟩ := Option.map_eq_some_iff.1 hloaded
  rw [(hg.stored hkept).reloaded]
  exact (hg.stored hkept).of_eq rfl rfl

theorem Proper.saveExecution (hg : g.Proper) (he : e.Proper) :
    ({ g with memory := g.memory.saveExecution e } : Engine).Proper := by
  refine ⟨hg.now, fun p hp => ?_, hg.walked⟩
  obtain rfl | hp := Table.eq_or_mem_of_mem_put hp
  · exact he
  · exact hg.kept p hp

end Engine

namespace Work
variable {setup : Setup} {w : Workflow} {e : Execution}

theorem preserves_of {α : Type} {P : α → Prop} (r : Except Fault α) (h : ∀ a, r = .ok a → P a) :
    Preserves Engine.Proper P (of r) := by
  intro g hg
  cases r with
  | error fault => exact hg
  | ok a => exact ⟨hg, h a rfl⟩

theorem preserves_any {α : Type} (r : Except Fault α) : Preserves Engine.Proper (fun _ => True) (of r) :=
  preserves_of r fun _ _ => trivial

theorem preserves_now : Preserves Engine.Proper Moment.Proper now := fun _ hg => ⟨hg, hg.now⟩

theorem preserves_attempt {α : Type} {P : α → Prop} {work : Work α} (h : Preserves Engine.Proper P work) :
    Preserves Engine.Proper (fun r => ∀ a, r = .ok a → P a) (attempt work) := by
  refine fun g hg => leads_attempt ((h g hg).mono ?_ fun _ _ ht => ⟨ht, nofun⟩)
  rintro a t ⟨ht, ha⟩
  refine ⟨ht, ?_⟩
  rintro _ ⟨⟩
  exact ha

theorem preserves_save (he : e.Proper) : Preserves Engine.Proper (fun _ => True) (save e) :=
  preserves_modify fun _ hg => hg.saveExecution he

theorem preserves_publishAt (kind : EventKind) (e : Execution) (node? : Option String) :
    Preserves Engine.Proper (fun _ => True) (publishAt setup kind e node?) := by
  unfold publishAt
  split
  · exact preserves_modify fun _ hg => hg.of_eq rfl rfl rfl
  · exact preserves_pure trivial

theorem preserves_settle (kind : EventKind) (he : e.Proper) :
    Preserves Engine.Proper Execution.Proper (settle setup kind e) := by
  refine (preserves_save he).bind fun _ _ => ?_
  exact (preserves_publishAt kind e none).bind fun _ _ => preserves_pure he

theorem preserves_schedule (runAt payload : Value) :
    Preserves Engine.Proper (fun _ => True) (schedule setup runAt payload) := by
  unfold schedule
  split
  · exact preserves_throw
  · refine (preserves_any _).bind fun time _ g hg => leads_bind (leads_get (leads_bind (leads_set ?_)))
    exact leads_pure ⟨hg.of_eq rfl rfl rfl, trivial⟩

/-! ## Ends of segments -/

theorem preserves_notifyFailure (w : Workflow) (e : Execution) :
    Preserves Engine.Proper (fun _ => True) (notifyFailure setup w e) := by
  unfold notifyFailure
  split
  · exact preserves_pure trivial
  · split
    · exact preserves_pure trivial
    · dsimp only
      split
      · exact preserves_modify fun _ hg => hg.of_eq rfl rfl rfl
      · exact preserves_pure trivial

theorem preserves_scheduleRetry (w : Workflow) (he : e.Proper) :
    Preserves Engine.Proper Execution.Proper (scheduleRetry setup w e) := by
  refine (preserves_any _).bind fun policy _ => (preserves_any _).bind fun retries _ => ?_
  split
  · exact preserves_pure (he.log ..)
  · refine (preserves_any _).bind fun delay _ => preserves_now.bind fun time _ => ?_
    exact (preserves_schedule _ _).bind fun job _ => preserves_pure (he.log ..)

theorem preserves_handleFailure (w : Workflow) (he : e.Proper) :
    Preserves Engine.Proper Execution.Proper (handleFailure setup w e) := by
  refine (preserves_notifyFailure w e).bind fun _ _ => ?_
  split
  · exact preserves_pure he
  · refine (preserves_attempt (preserves_scheduleRetry w he)).bind fun r hr => ?_
    cases r with
    | ok f => exact preserves_pure (hr f rfl)
    | error fault => exact preserves_pure (he.log ..)

theorem preserves_scheduleResumes (w : Workflow) (suspended : List String) (he : e.Proper) :
    Preserves Engine.Proper Execution.Proper (scheduleResumes setup w suspended e) := by
  have horder : IsPreorder Engine fun g h => g.Proper → h.Proper := isPreorder_invariant Engine.Proper
  refine Gives.preserves (gives_scheduleResumes (fun _ _ _ => (preserves_schedule _ _).within) ?_ ?_ w suspended he)
  · exact fun _ _ _ _ he => he.log ..
  · exact fun _ _ _ _ he => he.growOutput ..

theorem preserves_endCancelled (he : e.Proper) : Preserves Engine.Proper Execution.Proper (endCancelled setup e) := by
  refine preserves_now.bind fun time htime => preserves_settle _ (Execution.Proper.log ?_ ..)
  exact he.ended htime rfl rfl

theorem preserves_conclude (w : Workflow) (he : e.Proper) (r : Except Fault Walk) :
    Preserves Engine.Proper Execution.Proper (conclude setup w e r) := by
  unfold conclude
  split
  · exact preserves_endCancelled he
  · cases r with
    | error fault =>
      refine preserves_now.bind fun time htime => ?_
      refine (preserves_handleFailure w (Execution.Proper.log ?_ ..)).bind fun f hf => preserves_settle _ hf
      exact he.ended htime rfl rfl
    | ok walk =>
      refine (preserves_scheduleResumes w walk.suspended.keys he).bind fun f hf => ?_
      split
      · refine preserves_now.bind fun time htime => preserves_settle _ (Execution.Proper.log ?_ ..)
        exact hf.ended htime rfl rfl
      · refine preserves_settle _ (Execution.Proper.log ?_ ..)
        exact hf.of_eq rfl rfl

/-! ## Segments -/

theorem preserves_walk (w : Workflow) (he : e.Proper) (starts : List Node) :
    Preserves Engine.Proper (fun p => p.after.Proper) (walk setup w e starts) := by
  intro g hg
  have hrun := Walk.within_run (R := StaysProper)
    (Node.within_dispatch (setup.services g.running.length) w (Node.nestingLimit w)) w
    setup.config.maxIterations starts (g.session e)
  have hsession : (g.session e).Proper := ⟨hg.now, he.of_eq rfl rfl⟩
  have hend : Session.Proper _ := Leads.state (P := Session.Proper)
    (hrun.mono (fun _ _ ht => ht.1 hsession) fun _ _ ht => ht hsession)
  refine ⟨⟨hend.now, hg.kept, fun p hp => ?_⟩, hend.execution⟩
  obtain hp | hp := List.mem_append.1 hp
  · exact hg.walked p hp
  · obtain rfl := List.mem_singleton.1 hp
    exact ⟨he, hend.execution⟩

theorem preserves_runSegment (w : Workflow) (he : e.Proper) (starts : List Node) :
    Preserves Engine.Proper Execution.Proper (runSegment setup w e starts) := by
  refine (preserves_walk w he starts).bind fun p hp => ?_
  refine (preserves_attempt (preserves_conclude w hp p.result)).bind fun ended hended => ?_
  refine Preserves.bind (preserves_modify fun _ hg => hg.of_eq rfl rfl rfl) fun _ _ => ?_
  exact preserves_of ended hended

/-! ## Operations -/

theorem preserves_get {P : Engine → Prop} (h : ∀ g, g.Proper → P g) :
    Preserves Engine.Proper P (get : Work Engine) := fun g hg => ⟨hg, h g hg⟩

theorem preserves_execute (w : Workflow) (trigger context : Value) :
    Preserves Engine.Proper Execution.Proper (execute setup w trigger context) := by
  have hcount : Preserves Engine.Proper (fun _ => True) (countStart w) := by
    refine (preserves_any _).bind fun limit _ g hg => leads_bind (leads_get ?_)
    rcases g.limiter.acquire g.now.timestamp w.id limit with ⟨_ | _, limiter⟩
    · exact leads_bind (leads_set (leads_throw (hg.of_eq rfl rfl rfl)))
    · exact leads_bind (leads_set (leads_pure ⟨hg.of_eq rfl rfl rfl, trivial⟩))
  have hnew : Preserves Engine.Proper Execution.Proper (newExecution w trigger context) := by
    refine (preserves_any _).bind fun trigger _ => (preserves_any _).bind fun context _ => ?_
    refine (preserves_any _).bind fun vars _ => ?_
    exact (preserves_get fun g hg => hg.now).bind fun g hnow => preserves_pure ⟨hnow, nofun⟩
  have hstart : Preserves Engine.Proper Execution.Proper (start setup w trigger context) := by
    unfold start
    split
    · exact preserves_throw
    · refine hcount.bind fun _ _ => hnew.bind fun e he => ?_
      have he := he.log "info" "Workflow execution started" (.object [("trigger_type", e.triggerType)])
      refine Preserves.bind (preserves_modify fun _ hg => hg.of_eq rfl rfl rfl) fun _ _ => ?_
      refine Preserves.bind (preserves_modify fun _ hg => hg.of_eq rfl rfl rfl) fun _ _ => ?_
      refine (preserves_save he).bind fun _ _ => ?_
      exact (preserves_publishAt _ _ _).bind fun _ _ => preserves_pure he
  exact hstart.bind fun e he => preserves_runSegment w he w.startNodes

theorem preserves_workflow? (id : String) : Preserves Engine.Proper (fun _ => True) (workflow? id) :=
  (preserves_get fun _ _ => trivial).bind fun _ _ => preserves_pure trivial

theorem preserves_executeById (id : String) (trigger context : Value) :
    Preserves Engine.Proper (fun _ => True) (executeById setup id trigger context) := by
  refine (preserves_workflow? id).bind fun w? _ => ?_
  cases w? with
  | none => exact preserves_throw
  | some w => exact (preserves_execute w trigger context).mono fun _ _ => trivial

theorem preserves_execution? (id : String) :
    Preserves Engine.Proper (fun e? => ∀ e, e? = some e → e.Proper) (execution? id) := by
  have hget : Preserves Engine.Proper (fun g => ∀ e, g.memory.execution? id = some e → e.Proper) get :=
    preserves_get fun g hg e he => hg.loaded he
  exact hget.bind fun g hg => preserves_pure hg

theorem preserves_failResume (he : e.Proper) (node reason : String) :
    Preserves Engine.Proper Execution.Proper (failResume setup e node reason) := by
  refine preserves_now.bind fun time htime => preserves_settle _ (Execution.Proper.log ?_ ..)
  exact he.ended htime rfl rfl

theorem preserves_resumeAt (w : Workflow) (he : e.Proper) (n : Node) :
    Preserves Engine.Proper Execution.Proper (resumeAt setup w e n) := by
  have hreopen : Preserves Engine.Proper (fun r => r.1.Proper) (reopen setup w e n) := by
    refine (preserves_any _).bind fun owner? _ => ?_
    refine Preserves.bind (preserves_modify fun _ hg => hg.of_eq rfl rfl rfl) fun _ _ => ?_
    refine (preserves_publishAt _ _ _).bind fun _ _ => preserves_pure (Execution.Proper.log ?_ ..)
    exact he.of_eq rfl rfl
  exact hreopen.bind fun r hr => preserves_runSegment w hr [r.2]

theorem preserves_resumeLoaded (he : e.Proper) (node : String) :
    Preserves Engine.Proper (fun _ => True) (resumeLoaded setup e node) := by
  unfold resumeLoaded
  split
  · exact preserves_pure trivial
  · refine (preserves_workflow? _).bind fun w? _ => ?_
    cases w? with
    | none => exact (preserves_failResume he node _).bind fun _ _ => preserves_pure trivial
    | some w =>
      dsimp only
      cases w.node? node with
      | none => exact (preserves_failResume he node _).bind fun _ _ => preserves_pure trivial
      | some n => exact (preserves_resumeAt w he n).bind fun _ _ => preserves_pure trivial

theorem preserves_resume (id node : String) : Preserves Engine.Proper (fun _ => True) (resume setup id node) := by
  refine (preserves_execution? id).bind fun e? he? => ?_
  cases e? with
  | none => exact preserves_pure trivial
  | some e => exact preserves_resumeLoaded (he? e rfl) node

theorem preserves_cancel (id : String) : Preserves Engine.Proper (fun _ => True) (cancel setup id) := by
  refine (preserves_execution? id).bind fun e? he? => ?_
  cases e? with
  | none => exact preserves_pure trivial
  | some e =>
    dsimp only
    split
    · exact preserves_pure trivial
    · have hcancelled : Execution.Proper { e with status := .cancelled } := (he? e rfl).of_eq rfl rfl
      exact (preserves_endCancelled hcancelled).bind fun _ _ => preserves_pure trivial

theorem preserves_runJob (payload : Value) : Preserves Engine.Proper (fun _ => True) (runJob setup payload) := by
  unfold runJob
  split
  · split
    · unfold runResumeJob
      refine (preserves_any _).bind fun id _ => (preserves_any _).bind fun node _ => ?_
      refine (preserves_any _).bind fun id? _ => ?_
      cases id? with
      | none => exact preserves_pure trivial
      | some id =>
        refine (preserves_execution? id).bind fun e? he? => ?_
        cases e? with
        | none => exact preserves_pure trivial
        | some e =>
          dsimp only
          split
          · exact preserves_pure trivial
          · refine (preserves_any _).bind fun node? _ => ?_
            cases node? with
            | none => exact preserves_pure trivial
            | some node => exact preserves_resumeLoaded (he? e rfl) node
    · unfold runExecuteJob
      refine (preserves_any _).bind fun id _ => (preserves_any _).bind fun id? _ => ?_
      cases id? with
      | none => exact preserves_throw
      | some id => exact (preserves_executeById id _ _).bind fun _ _ => preserves_pure trivial
    · exact preserves_pure trivial
  · exact preserves_throw

theorem preserves_runDue (time : Float) : Preserves Engine.Proper (fun _ => True) (runDue setup time) := by
  intro g hg
  have hjobs (jobs : List (Job Float Value)) (h : Engine) (hh : h.Proper) :
      (jobs.foldl (fun g job => ((runJob setup job.payload).run.run g).2) h).Proper := by
    induction jobs generalizing h with
    | nil => exact hh
    | cons job rest ih => exact ih _ ((preserves_runJob job.payload).state hh)
  refine leads_bind (leads_get (leads_bind (leads_set (leads_pure ⟨hjobs _ _ ?_, trivial⟩))))
  exact hg.of_eq rfl rfl rfl

end Work

/-- The clock is only ever set to a proper moment. -/
def Operation.Clocked : Operation → Prop
  | .setClock now => now.Proper
  | _ => True

namespace Engine

/-- Engines that come of a new one by operations and upkeep, while the clock shows proper moments. -/
inductive Clocked (setup : Setup) : Engine → Prop
  | start {now : Moment} (tick : Float) (workflows : Table String Workflow) (hnow : now.Proper) :
    Clocked setup { new setup.config now tick with memory := ⟨workflows, []⟩ }
  | operate {g : Engine} {op : Operation} (hg : Clocked setup g) (hop : op.Clocked) : Clocked setup (g.after setup op)
  | keepUp {g : Engine} (upkeep : Upkeep) (hg : Clocked setup g) : Clocked setup (g.afterUpkeep setup upkeep)

variable {setup : Setup} {g h : Engine}

theorem Proper.after (hg : g.Proper) {op : Operation} (hop : op.Clocked) : (g.after setup op).Proper := by
  cases op with
  | execute w trigger context => exact (Work.preserves_execute w trigger context).state hg
  | executeById id trigger context => exact (Work.preserves_executeById id trigger context).state hg
  | resume id node => exact (Work.preserves_resume id node).state hg
  | deliverSignal id node payload =>
    have hreceiving : ({ g with signals := g.signals.put id node payload } : Engine).Proper := hg.of_eq rfl rfl rfl
    exact (Work.preserves_resume id node).state hreceiving
  | cancel id => exact (Work.preserves_cancel id).state hg
  | runJob payload => exact (Work.preserves_runJob payload).state hg
  | runDue time => exact (Work.preserves_runDue time).state hg
  | takeDue time => exact hg.of_eq rfl rfl rfl
  | setClock now => exact ⟨hop, hg.kept, hg.walked⟩

theorem Prunes.proper (hprunes : g.Prunes h) (hg : g.Proper) : h.Proper := by
  obtain ⟨memory, rfl⟩ := hprunes.eq
  exact ⟨hg.now, fun p hp => hg.kept p (hprunes.executions.subset hp), hg.walked⟩

/-- As long as the clock shows proper moments, all executions have proper times. -/
theorem Clocked.proper (hg : Clocked setup g) : g.Proper := by
  induction hg with
  | start tick workflows hnow =>
    refine ⟨hnow, fun p hp => ?_, fun p hp => ?_⟩
    · exact absurd hp List.not_mem_nil
    · exact absurd hp List.not_mem_nil
  | operate hg hop ih => exact ih.after hop
  | keepUp upkeep hg ih => exact (afterUpkeep_prunes setup _ upkeep).proper ih

end Engine

/-! ## Records of what engines show -/

namespace Engine

/-- An execution that an engine keeps or loads, or that a walk of it began or ended with. -/
inductive Shows (g : Engine) : Execution → Prop
  | kept {id : String} {e : Execution} (h : g.stored? id = some e) : Shows g e
  | loaded {id : String} {e : Execution} (h : g.memory.execution? id = some e) : Shows g e
  | begun {p : Passage} (h : p ∈ g.journal) : Shows g p.before
  | walked {p : Passage} (h : p ∈ g.journal) : Shows g p.after

variable {setup : Setup} {g : Engine} {e : Execution}

theorem Proper.shows (hg : g.Proper) (he : g.Shows e) : e.Proper := by
  cases he with
  | kept h => exact hg.stored h
  | loaded h => exact hg.loaded h
  | begun h => exact (hg.walked _ h).1
  | walked h => exact (hg.walked _ h).2

/-- A definition that is read gives a workflow of which each connection is as listed, with its condition unless
that is empty and its label if it is present; and whatever ids a workflow without one would get, its record is
read again as a workflow with the same record, settings in the same order and the same conditions. The record
of every execution of an engine is read again, whenever that is, as one with the same record, the same waiting
nodes and times, the same states of nodes, the same count of retries and the same variables. -/
theorem records_reload :
    (∀ v newId newUuid w, Workflow.ofValue v newId newUuid = .ok w → newId ≠ "" → newUuid ≠ "" →
      (∃ items, Workflow.listed v = .ok items ∧
        List.Forall₂ Connection.Normalizes items (w.connections.map Connection.toValue)) ∧
      ∀ id uuid, ∃ w', Workflow.ofValue w.toValue id uuid = .ok w' ∧ w'.toValue = w.toValue ∧
        w'.settings = w.settings ∧ w'.connections.map (·.condition) = w.connections.map (·.condition)) ∧
    ∀ setup g e, Clocked setup g → g.Shows e → ∀ now, ∃ f, Execution.ofValue e.toValue now = .ok f ∧
      f.toValue = e.toValue ∧ f.pendingResumes = e.pendingResumes ∧
      (∀ id, f.nodeStatus? id = e.nodeStatus? id) ∧ f.retryCount = e.retryCount ∧ f.vars = e.vars := by
  constructor
  · intro v newId newUuid w hw hid huuid
    refine ⟨Workflow.normalizes_of_ofValue hw, fun id uuid => ⟨w.tidied, ?_, w.toValue_tidied, rfl, ?_⟩⟩
    · exact Workflow.ofValue_toValue (Workflow.settled_of_ofValue hid huuid hw) id uuid
    · simp [Workflow.tidied, Connection.tidied]
  · intro setup g e hg he now
    have hproper : e.Proper := hg.proper.shows he
    exact ⟨e.recorded, Execution.ofValue_toValue hproper now, e.toValue_recorded, e.pendingResumes_recorded,
      e.nodeStatus?_recorded, rfl, rfl⟩

/-! ## A draft and a paused execution -/

/-- A definition with a connection that is never taken, whose ends are named in the other way and whose label is
empty. -/
def drafted : Value :=
  .object [
    ("nodes", .list [.object [("id", .str "hold"), ("type", .str "wait")]]),
    ("edges", .list [.object [("from", .str "hold"), ("to", .str "hold"), ("condition", .bool false),
      ("label", .str "")]])]

theorem clocked_bereft : Clocked (.ofActions []) bereft := by
  have hnow : (⟨⟨2024, 6, 15⟩, 12, 0, 0, 0, some 0⟩ : Moment).Proper :=
    ⟨by decide, by decide, by decide, by decide, by decide, 0, rfl, by decide⟩
  have hknowing : Clocked (.ofActions []) (knowing holding) := .start _ _ hnow
  have hrun : Operation.Clocked (.execute holding .null .null) := trivial
  have hpaused := hknowing.operate hrun
  exact .keepUp _ hpaused

/-- The condition of the draft stays false, and the execution that is paused is read again with the node for
which it waits. -/
theorem records_reload_paused :
    (∃ w w', Workflow.ofValue drafted "flow" "flow" = .ok w ∧ Workflow.ofValue w.toValue "other" "other" = .ok w' ∧
      w'.toValue = w.toValue ∧ w'.connections.map (·.condition) = [.bool false]) ∧
    ∃ e f, Clocked (.ofActions []) bereft ∧ bereft.stored? "exec-1" = some e ∧ e.status = .paused ∧
      Execution.ofValue e.toValue bereft.now = .ok f ∧ f.toValue = e.toValue ∧ f.pendingResumes ≠ [] := by
  constructor
  · obtain ⟨w, hw, hconditions⟩ : ∃ w, Workflow.ofValue drafted "flow" "flow" = .ok w ∧
        w.connections.map (·.condition) = [.bool false] := ⟨_, rfl, rfl⟩
    obtain ⟨-, hreload⟩ := records_reload.1 drafted "flow" "flow" w hw (by decide) (by decide)
    obtain ⟨w', hw', hrecord, -, hsame⟩ := hreload "other" "other"
    exact ⟨w, w', hw, hw', hrecord, hsame.trans hconditions⟩
  · have hkept : (bereft.stored? "exec-1").any (fun e => e.status == .paused && !e.pendingResumes.isEmpty) = true := by
      decide +kernel
    obtain ⟨e, hstored, he⟩ := (Option.any_eq_true _ _).1 hkept
    obtain ⟨hstatus, hwaits⟩ := Bool.and_eq_true_iff.1 he
    obtain ⟨f, hf, hrecord, hpending, -⟩ :=
      records_reload.2 (.ofActions []) bereft e clocked_bereft (.kept hstored) bereft.now
    refine ⟨e, f, clocked_bereft, hstored, eq_of_beq hstatus, hf, hrecord, fun hnone => ?_⟩
    rw [← hpending, hnone] at hwaits
    cases hwaits

end Engine

end Flowline
