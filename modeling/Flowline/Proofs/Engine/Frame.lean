import Flowline.Proofs.Engine.History

/-! # What an operation leaves as it is

Apart from the signal that it delivers, an operation changes the signals of an engine only as the walks do
that it makes, and that the journal has. `SignalsFrame R`: neither these nor anything that leaves the signals and
the journal alone leads out of the relation `R`. Then no operation does. -/

namespace Flowline

/-- A relation of engines that holds between those before and after whatever leaves the signals and the journal
alone. -/
class CalmFrame (R : Engine → Engine → Prop) : Prop extends IsPreorder Engine R where
  calm : ∀ g h, h.signals = g.signals → h.journal = g.journal → R g h

/-- A relation of engines that holds also between those before and after a walk. -/
class SignalsFrame (setup : Setup) (R : Engine → Engine → Prop) : Prop extends CalmFrame R where
  walk : ∀ w e starts, Within R (Work.walk setup w e starts)

namespace Work
variable {setup : Setup} {R : Engine → Engine → Prop}

theorem within_attempt {α : Type} {work : Work α} (h : Within R work) : Within R (attempt work) := fun g =>
  leads_attempt ((h g).mono (fun _ _ ha => ⟨ha.1, trivial⟩) fun _ _ hfault => ⟨hfault, trivial⟩)

section Calm
variable [CalmFrame R]

theorem within_calm {f : Engine → Engine} (h : ∀ g, (f g).signals = g.signals ∧ (f g).journal = g.journal) :
    Within R (modify f : Work PUnit) := fun g => ⟨CalmFrame.calm g _ (h g).1 (h g).2, trivial⟩

theorem within_get : Within R (get : Work Engine) := fun g => ⟨refl_of R g, trivial⟩

theorem within_publishAt (kind : EventKind) (e : Execution) (node? : Option String) :
    Within R (publishAt setup kind e node?) := by
  unfold publishAt
  split
  · exact within_calm fun _ => ⟨rfl, rfl⟩
  · exact gives_pure trivial

theorem within_settle (kind : EventKind) (e : Execution) : Within R (settle setup kind e) := by
  refine Within.bind (within_calm fun _ => ⟨rfl, rfl⟩) fun _ => ?_
  exact (within_publishAt kind e none).bind fun _ => gives_pure trivial

theorem within_scheduled (runAt payload : Value) : Within R (schedule setup runAt payload) := by
  unfold schedule
  split
  · exact gives_throw
  · refine (within_of _).bind fun time g => leads_bind (leads_get (leads_bind (leads_set ?_)))
    exact leads_pure ⟨CalmFrame.calm g _ rfl rfl, trivial⟩

theorem within_handleFailure (w : Workflow) (e : Execution) : Within R (handleFailure setup w e) := by
  have hnotify : Within R (notifyFailure setup w e) := by
    unfold notifyFailure
    split
    · exact gives_pure trivial
    · split
      · exact gives_pure trivial
      · dsimp only
        split
        · exact within_calm fun _ => ⟨rfl, rfl⟩
        · exact gives_pure trivial
  have hretry : Within R (scheduleRetry setup w e) := by
    refine (within_of _).bind fun policy => (within_of _).bind fun retries => ?_
    split
    · exact gives_pure trivial
    · refine (within_of _).bind fun delay => within_now.bind fun time => ?_
      exact (within_scheduled _ _).bind fun job => gives_pure trivial
  refine hnotify.bind fun _ => ?_
  split
  · exact gives_pure trivial
  · refine (within_attempt hretry).bind fun r => ?_
    cases r with
    | ok e => exact gives_pure trivial
    | error fault => exact gives_pure trivial

theorem within_conclude (w : Workflow) (e : Execution) (r : Except Fault Walk) :
    Within R (conclude setup w e r) := by
  unfold conclude
  split
  · exact within_now.bind fun time => within_settle _ _
  · cases r with
    | error fault =>
      exact within_now.bind fun time => (within_handleFailure w _).bind fun e => within_settle _ e
    | ok walk =>
      have hresumes : Within R (scheduleResumes setup w walk.suspended.keys e) :=
        gives_scheduleResumes (fun _ _ _ => within_scheduled _ _) (fun _ _ _ _ _ => trivial)
          (fun _ _ _ _ _ => trivial) w walk.suspended.keys trivial
      refine Within.bind hresumes fun e => ?_
      split
      · exact within_now.bind fun time => within_settle _ _
      · exact within_settle _ _

theorem within_start (w : Workflow) (trigger context : Value) :
    Within R (start setup w trigger context) := by
  have hcount : Within R (countStart w) := by
    refine (within_of _).bind fun limit g => leads_bind (leads_get ?_)
    rcases g.limiter.acquire g.now.timestamp w.id limit with ⟨_ | _, limiter⟩
    · exact leads_bind (leads_set (leads_throw (CalmFrame.calm g _ rfl rfl)))
    · exact leads_bind (leads_set (leads_pure ⟨CalmFrame.calm g _ rfl rfl, trivial⟩))
  have hnew : Within R (newExecution w trigger context) := by
    refine (within_of _).bind fun trigger => (within_of _).bind fun context => ?_
    exact (within_of _).bind fun vars => within_get.bind fun g => gives_pure trivial
  unfold start
  split
  · exact gives_throw
  · refine hcount.bind fun _ => hnew.bind fun e => ?_
    refine Within.bind (within_calm fun _ => ⟨rfl, rfl⟩) fun _ => ?_
    refine Within.bind (within_calm fun _ => ⟨rfl, rfl⟩) fun _ => ?_
    refine Within.bind (within_calm fun _ => ⟨rfl, rfl⟩) fun _ => ?_
    exact (within_publishAt _ _ _).bind fun _ => gives_pure trivial

theorem within_failResume (e : Execution) (node reason : String) :
    Within R (failResume setup e node reason) := within_now.bind fun _ => within_settle _ _

theorem within_reopen (w : Workflow) (e : Execution) (n : Node) : Within R (reopen setup w e n) := by
  refine (within_of _).bind fun owner? => ?_
  refine Within.bind (within_calm fun _ => ⟨rfl, rfl⟩) fun _ => ?_
  exact (within_publishAt _ _ _).bind fun _ => gives_pure trivial

theorem within_cancel (id : String) : Within R (cancel setup id) := by
  refine Within.bind (within_get.bind fun _ => gives_pure trivial) fun e? => ?_
  cases e? with
  | none => exact gives_pure trivial
  | some e =>
    dsimp only
    split
    · exact gives_pure trivial
    · exact Within.bind (within_now.bind fun _ => within_settle _ _) fun _ => gives_pure trivial

end Calm

section Walks
variable [SignalsFrame setup R]

theorem within_runSegment (w : Workflow) (e : Execution) (starts : List Node) :
    Within R (runSegment setup w e starts) := by
  refine (SignalsFrame.walk w e starts).bind fun p => ?_
  refine (within_attempt (within_conclude w p.after p.result)).bind fun ended => ?_
  exact Within.bind (within_calm fun _ => ⟨rfl, rfl⟩) fun _ => within_of _

theorem within_execute (w : Workflow) (trigger context : Value) :
    Within R (execute setup w trigger context) :=
  (within_start w trigger context).bind fun e => within_runSegment w e w.startNodes

theorem within_executeById (id : String) (trigger context : Value) :
    Within R (executeById setup id trigger context) := by
  refine Within.bind (within_get.bind fun _ => gives_pure trivial) fun w? => ?_
  cases w? with
  | none => exact gives_throw
  | some w => exact within_execute w trigger context

theorem within_resumeLoaded (e : Execution) (node : String) : Within R (resumeLoaded setup e node) := by
  unfold resumeLoaded
  split
  · exact gives_pure trivial
  · refine Within.bind (within_get.bind fun _ => gives_pure trivial) fun w? => ?_
    cases w? with
    | none => exact (within_failResume e node _).bind fun _ => gives_pure trivial
    | some w =>
      dsimp only
      cases w.node? node with
      | none => exact (within_failResume e node _).bind fun _ => gives_pure trivial
      | some n =>
        refine Within.bind ?_ fun _ => gives_pure trivial
        exact (within_reopen w e n).bind fun r => within_runSegment w r.1 [r.2]

theorem within_resume (id node : String) : Within R (resume setup id node) := by
  refine Within.bind (within_get.bind fun _ => gives_pure trivial) fun e? => ?_
  cases e? with
  | none => exact gives_pure trivial
  | some e => exact within_resumeLoaded e node

theorem within_runJob (payload : Value) : Within R (runJob setup payload) := by
  unfold runJob
  split
  · split
    · unfold runResumeJob
      refine (within_of _).bind fun id => (within_of _).bind fun node => (within_of _).bind fun id? => ?_
      cases id? with
      | none => exact gives_pure trivial
      | some id =>
        refine Within.bind (within_get.bind fun _ => gives_pure trivial) fun e? => ?_
        cases e? with
        | none => exact gives_pure trivial
        | some e =>
          dsimp only
          split
          · exact gives_pure trivial
          · refine (within_of _).bind fun node? => ?_
            cases node? with
            | none => exact gives_pure trivial
            | some node => exact within_resumeLoaded e node
    · unfold runExecuteJob
      refine (within_of _).bind fun id => (within_of _).bind fun id? => ?_
      cases id? with
      | none => exact gives_throw
      | some id => exact (within_executeById id _ _).bind fun _ => gives_pure trivial
    · exact gives_pure trivial
  · exact gives_throw

theorem within_runDue (time : Float) : Within R (runDue setup time) := by
  intro g
  have hjobs (jobs : List (Job Float Value)) (h : Engine) :
      R h (jobs.foldl (fun g job => ((runJob setup job.payload).run.run g).2) h) := by
    induction jobs generalizing h with
    | nil => exact refl_of R h
    | cons job rest ih =>
      have hruns : Within R (runJob setup job.payload) := within_runJob job.payload
      have hjob := hruns h
      exact trans_of R (Leads.state (P := R h) (hjob.mono (fun _ _ h => h.1) fun _ _ h => h)) (ih _)
  refine leads_bind (leads_get (leads_bind (leads_set (leads_pure ⟨?_, trivial⟩))))
  exact trans_of R (CalmFrame.calm g { g with schedule := (g.schedule.takeDue time).2 } rfl rfl) (hjobs _ _)

end Walks

end Work

namespace Engine

/-- An engine that has kept the signal that an operation delivers. -/
def receiving (g : Engine) : Operation → Engine
  | .deliverSignal id node payload => { g with signals := g.signals.put id node payload }
  | _ => g

/-- An operation changes the signals beyond what it delivers only as walks do. -/
theorem after_within {setup : Setup} {R : Engine → Engine → Prop} [SignalsFrame setup R] (g : Engine)
    (op : Operation) : R (g.receiving op) (g.after setup op) := by
  have state {α : Type} {m : Work α} (h : Within R m) (g : Engine) : R g (m.run.run g).2 :=
    Leads.state (P := R g) ((h g).mono (fun _ _ h => h.1) fun _ _ h => h)
  cases op with
  | execute w trigger context => exact state (Work.within_execute w trigger context) g
  | executeById id trigger context => exact state (Work.within_executeById id trigger context) g
  | resume id node => exact state (Work.within_resume id node) g
  | deliverSignal id node payload => exact state (Work.within_resume id node) _
  | cancel id => exact state (Work.within_cancel id) g
  | runJob payload => exact state (Work.within_runJob payload) g
  | runDue time => exact state (Work.within_runDue time) g
  | takeDue time => exact CalmFrame.calm g _ rfl rfl
  | setClock now => exact CalmFrame.calm g _ rfl rfl

end Engine

end Flowline
