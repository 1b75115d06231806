import Flowline.Engine.Segment
import Flowline.Proofs.Engine.Scheduling
import Flowline.Proofs.Walk.Frame
import Flowline.Proofs.Walk.Visits

/-! # Segments of executions

A segment makes one walk, and settles the execution by what came of it, unless the walk is stranded: a node
is to be resumed at a time at which no job can be scheduled. A stranded segment keeps nothing. -/

namespace Flowline

/-! ## What stays as it is -/

/-- An engine after something that concerns no execution. -/
structure Engine.Keeps (g h : Engine) : Prop where
  memory : h.memory = g.memory
  running : h.running = g.running
  journal : h.journal = g.journal
  started : h.started = g.started
  now : h.now = g.now
  events : h.events = g.events
  jobs : ∀ j ∈ g.schedule.jobs, j ∈ h.schedule.jobs

theorem Engine.Keeps.trans {g h i : Engine} (h₁ : g.Keeps h) (h₂ : h.Keeps i) : g.Keeps i :=
  ⟨h₂.memory.trans h₁.memory, h₂.running.trans h₁.running, h₂.journal.trans h₁.journal,
    h₂.started.trans h₁.started, h₂.now.trans h₁.now, h₂.events.trans h₁.events,
    fun j hj => h₂.jobs j (h₁.jobs j hj)⟩

instance : IsPreorder Engine Engine.Keeps where
  refl _ := ⟨rfl, rfl, rfl, rfl, rfl, rfl, fun _ hj => hj⟩
  trans _ _ _ := Engine.Keeps.trans

theorem Engine.MoreJobs.keeps {g h : Engine} (hmore : g.MoreJobs h) : g.Keeps h := by
  obtain ⟨schedule, rfl⟩ := hmore.eq
  exact ⟨rfl, rfl, rfl, rfl, rfl, rfl, hmore.jobs⟩

/-! ## What is published -/

/-- What is published of an execution, where there is someone to publish to. -/
def Setup.announced (setup : Setup) (kind : EventKind) (e : Execution) (node? : Option String) :
    List Event :=
  if setup.publishes then [⟨kind, e.id, e.workflowId, node?, e.status, e.error?⟩] else []

/-- The event by which an execution comes to have a status. -/
def ExecutionStatus.event : ExecutionStatus → EventKind
  | .pending | .running => .started
  | .completed => .completed
  | .failed => .failed
  | .cancelled => .cancelled
  | .paused => .paused

/-- An engine that has kept an execution, and published where it stands. -/
def Engine.posting (g : Engine) (setup : Setup) (e : Execution) : Engine :=
  { g with
    memory := g.memory.saveExecution e
    events := g.events ++ setup.announced e.status.event e none }

namespace Work
open Execution Engine

variable {setup : Setup} {w : Workflow} {e f : Execution} {g h : Engine}

section Within
variable {R : Engine → Engine → Prop} [IsPreorder Engine R]

theorem within_of {α : Type} (r : Except Fault α) : Within R (of r) := by
  intro g
  cases r with
  | error fault => exact refl_of R g
  | ok a => exact ⟨refl_of R g, trivial⟩

theorem within_now : Within R now := fun g => ⟨refl_of R g, trivial⟩

end Within

theorem leads_attempt {α : Type} {m : Work α} {ok : Except Fault α → Engine → Prop}
    {fails : Fault → Engine → Prop}
    (hm : Leads m g (fun a h => ok (.ok a) h) fun fault h => ok (.error fault) h) :
    Leads (attempt m) g ok fails := by
  unfold Leads at hm ⊢
  change match ((Except.ok (m.run.run g).1, (m.run.run g).2) : Except Fault _ × _) with
    | (.ok r, h) => ok r h
    | (.error fault, h) => fails fault h
  rcases hrun : m.run.run g with ⟨fault | a, h⟩
  · rw [hrun] at hm
    exact hm
  · rw [hrun] at hm
    exact hm

theorem publishAt_leads (kind : EventKind) (e : Execution) (node? : Option String) (g : Engine) :
    Leads (publishAt setup kind e node?) g
      (fun _ h => h = { g with events := g.events ++ setup.announced kind e node? })
      fun _ _ => False := by
  unfold publishAt Setup.announced
  split
  · exact leads_modify rfl
  · exact leads_pure (by rw [List.append_nil])

theorem within_schedule (runAt payload : Value) : Within Keeps (schedule setup runAt payload) :=
  fun g => (schedule_leads setup runAt payload g).mono (fun _ _ h => ⟨h.2.2.1.keeps, trivial⟩)
    fun _ _ h => h.2 ▸ refl_of Keeps g

/-! ## Failures -/

theorem notifyFailure_leads (w : Workflow) (e : Execution) :
    Leads (notifyFailure setup w e) g (fun _ h => g.Keeps h) fun _ _ => False := by
  unfold notifyFailure
  split
  · exact leads_pure (refl_of Keeps g)
  · split
    · exact leads_pure (refl_of Keeps g)
    · dsimp only
      split
      · exact leads_modify ⟨rfl, rfl, rfl, rfl, rfl, rfl, fun _ hj => hj⟩
      · exact leads_pure (refl_of Keeps g)

theorem note_status (e : Execution) (level message : String) (details : List (String × Value)) :
    (e.note level message details).status = e.status := by
  obtain ⟨logs, hlog⟩ := log_eq e level message (.object details)
  rw [note, hlog]

theorem note_completedAt? (e : Execution) (level message : String) (details : List (String × Value)) :
    (e.note level message details).completedAt? = e.completedAt? := by
  obtain ⟨logs, hlog⟩ := log_eq e level message (.object details)
  rw [note, hlog]

/-- An execution after something was logged. -/
structure Noted (e f : Execution) : Prop where
  nodes : SameNodes e f
  status_eq : f.status = e.status
  sameEnd : SameEnd e f

theorem Noted.refl (e : Execution) : Noted e e := ⟨.refl e, rfl, .refl e⟩

theorem noted_note (e : Execution) (level message : String) (details : List (String × Value)) :
    Noted e (e.note level message details) :=
  ⟨(SameNodes.refl e).note level message details, note_status e level message details,
    (SameEnd.refl e).note level message details⟩

theorem Noted.trans (h₁ : Noted e f) {f' : Execution} (h₂ : Noted f f') : Noted e f' :=
  ⟨h₁.nodes.trans h₂.nodes, h₂.status_eq.trans h₁.status_eq, h₁.sameEnd.trans h₂.sameEnd⟩

theorem Noted.dated (h : Noted e f) (he : e.Dated) : f.Dated := h.sameEnd.dated h.status_eq he

theorem gives_scheduleRetry (w : Workflow) (e : Execution) :
    Gives Keeps (Noted e) (scheduleRetry setup w e) := by
  refine (within_of _).bind fun policy => ?_
  refine (within_of _).bind fun retries => ?_
  split
  · exact gives_pure (noted_note ..)
  · refine (within_of _).bind fun delay => ?_
    refine within_now.bind fun time => ?_
    exact (within_schedule _ _).bind fun job => gives_pure (noted_note ..)

theorem handleFailure_leads (w : Workflow) (e : Execution) :
    Leads (handleFailure setup w e) g (fun f h => Noted e f ∧ g.Keeps h) fun _ _ => False := by
  refine Leads.bind (notifyFailure_leads w e) ?_
  intro _ h hkeeps
  split
  · exact leads_pure ⟨.refl e, hkeeps⟩
  · refine leads_bind (leads_attempt ((gives_scheduleRetry w e h).mono ?_ ?_))
    · intro f i ⟨hretry, hnoted⟩
      exact leads_pure ⟨hnoted, trans_of Keeps hkeeps hretry⟩
    · intro fault i hretry
      exact leads_pure ⟨noted_note .., trans_of Keeps hkeeps hretry⟩

/-! ## Ends of segments -/

theorem sameEnd_growOutput (h : SameEnd e f) (x key : String) (u : Value) :
    SameEnd e (f.growOutput x key u) := by
  obtain ⟨states, heq⟩ := growOutput_eq f x key u
  rw [heq]
  exact ⟨h.completedAt, h.error⟩

section Resumes
variable {R : Engine → Engine → Prop} [IsPreorder Engine R]
  (hschedule : ∀ runAt e x, Within R (schedule setup runAt (resumePayload e x)))
  {P : Execution → Prop} (hnote : ∀ e level message details, P e → P (e.note level message details))
  (hgrow : ∀ e x key u, P e → P (e.growOutput x key u))
include hschedule hnote hgrow

theorem gives_scheduleResume (w : Workflow) (suspended : List String) (x : String) (h : P e) :
    Gives R P (scheduleResume setup w suspended e x) := by
  have at_time {e : Execution} (h : P e) (time : Value) :
      Gives R P (scheduleResumeAt setup e x time) :=
    (hschedule _ _ _).bind fun job => gives_pure (hnote _ _ _ _ (hgrow _ _ _ _ h))
  unfold scheduleResume
  split
  · exact gives_pure h
  · split
    · exact gives_pure h
    · split
      · exact gives_pure h
      · split
        · split
          · exact gives_pure h
          · refine Within.bind ?_ fun time => at_time (hgrow _ _ _ _ h) time
            exact within_now.bind fun _ => (within_of _).bind fun _ => gives_pure trivial
        · exact at_time h _

/-- What logging and growing outputs keep is kept as the resumption of an execution is scheduled. -/
theorem gives_scheduleResumes (w : Workflow) (suspended : List String) (h : P e) :
    Gives R P (scheduleResumes setup w suspended e) := by
  have all (ids : List String) (e : Execution) (h : P e) :
      Gives R P (ids.foldlM (scheduleResume setup w suspended) e) := by
    induction ids generalizing e with
    | nil => exact gives_pure h
    | cons x rest ih =>
      rw [List.foldlM_cons]
      exact (gives_scheduleResume hschedule hnote hgrow w suspended x h).bind ih
  exact all _ e h

end Resumes

theorem gives_scheduleResumes_sameEnd {R : Engine → Engine → Prop} [IsPreorder Engine R]
    (hschedule : ∀ runAt e x, Within R (schedule setup runAt (resumePayload e x))) (w : Workflow)
    (suspended : List String) (e : Execution) :
    Gives R (SameEnd e) (scheduleResumes setup w suspended e) :=
  gives_scheduleResumes (P := SameEnd e) hschedule (fun _ _ _ _ h => h.note ..)
    (fun _ _ _ _ h => sameEnd_growOutput h ..) w suspended (.refl e)

theorem settle_leads (e : Execution) :
    Leads (settle setup e.status.event e) g (fun f h => f = e ∧ h = g.posting setup e)
      fun _ _ => False := by
  refine leads_bind (leads_modify ?_)
  refine Leads.bind (publishAt_leads e.status.event e none _) ?_
  rintro _ h rfl
  exact leads_pure ⟨rfl, rfl⟩

theorem posting_keeps (hkeeps : g.Keeps h) (f : Execution) :
    (g.posting setup f).Keeps (h.posting setup f) := by
  refine ⟨?_, hkeeps.running, hkeeps.journal, hkeeps.started, hkeeps.now, ?_, hkeeps.jobs⟩
  · exact congrArg (Memory.saveExecution · f) hkeeps.memory
  · exact congrArg (· ++ setup.announced f.status.event f none) hkeeps.events

/-- An execution with the nodes that it had comes to have a status, and is kept. -/
structure Ends (setup : Setup) (status : ExecutionStatus) (e : Execution) (g : Engine) (f : Execution)
    (h : Engine) : Prop where
  nodes : SameNodes e f
  status_eq : f.status = status
  dated : e.Blank → f.Dated
  keeps : (g.posting setup f).Keeps h

/-- An execution is settled, after something was logged about it. -/
theorem settle_ends {status : ExecutionStatus} {kind : EventKind} (hkind : status.event = kind)
    (hnodes : SameNodes e f) (hstatus : f.status = status) (hdated : e.Blank → f.Dated) :
    Leads (settle setup kind f) g (Ends setup status e g) fun _ _ => False := by
  rw [← hkind, ← hstatus]
  refine (settle_leads f).mono ?_ fun _ _ hfalse => hfalse
  rintro _ h ⟨rfl, rfl⟩
  exact ⟨hnodes, rfl, hdated, refl_of Keeps _⟩

theorem endCancelled_leads (e : Execution) (hstatus : e.status = .cancelled) :
    Leads (endCancelled setup e) g (Ends setup .cancelled e g) fun _ _ => False := by
  refine leads_bind (leads_bind (leads_get (leads_pure ?_)))
  have hnoted := noted_note { e with completedAt? := some g.now } "info" "Workflow execution cancelled" []
  refine settle_ends rfl ?_ (hnoted.status_eq.trans hstatus) fun he => hnoted.dated ?_
  · exact (⟨rfl, rfl, rfl, rfl⟩ : SameNodes e { e with completedAt? := some g.now }).trans hnoted.nodes
  · constructor
    · rw [hstatus]
      rfl
    · rw [he.error, hstatus]
      rfl

theorem endFailed_leads (w : Workflow) (e : Execution) (fault : Fault) :
    Leads (endFailed setup w e fault) g (Ends setup .failed e g) fun _ _ => False := by
  refine leads_bind (leads_bind (leads_get (leads_pure ?_)))
  have hfailed : SameNodes e { e with
      status := .failed, error? := some fault.message, completedAt? := some g.now } := ⟨rfl, rfl, rfl, rfl⟩
  refine Leads.bind (handleFailure_leads w _) ?_
  intro f h ⟨hhandled, hkeeps⟩
  have hnoted := (noted_note ..).trans hhandled
  refine (settle_ends rfl (hfailed.trans hnoted.nodes) hnoted.status_eq
    fun _ => hnoted.dated ⟨rfl, rfl⟩).mono ?_ fun _ _ hfalse => hfalse
  intro f' i hends
  exact ⟨hends.nodes, hends.status_eq, hends.dated, (posting_keeps hkeeps f').trans hends.keeps⟩

theorem endPaused_leads (e : Execution) :
    Leads (endPaused setup e) g (Ends setup .paused e g) fun _ _ => False := by
  have hpaused : SameNodes e { e with status := .paused } := ⟨rfl, rfl, rfl, rfl⟩
  have hnoted := noted_note { e with status := .paused } "info" "Workflow execution paused"
    [("waiting_nodes", Value.strings (e.pendingResumes.keys.mergeSort fun a b => decide (a ≤ b)))]
  refine settle_ends rfl (hpaused.trans hnoted.nodes) hnoted.status_eq fun he => hnoted.dated ?_
  exact (⟨he.completedAt, he.error⟩ : Blank { e with status := .paused }).dated rfl

theorem endCompleted_leads (e : Execution) :
    Leads (endCompleted setup e) g (Ends setup .completed e g) fun _ _ => False := by
  refine leads_bind (leads_bind (leads_get (leads_pure ?_)))
  have hcompleted : SameNodes e { e with status := .completed, completedAt? := some g.now } :=
    ⟨rfl, rfl, rfl, rfl⟩
  have hnoted := noted_note { e with status := .completed, completedAt? := some g.now } "info"
    "Workflow execution completed" [("execution_time_ms", .int e.elapsed)]
  refine settle_ends rfl (hcompleted.trans hnoted.nodes) hnoted.status_eq fun he => hnoted.dated ?_
  exact ⟨rfl, by rw [he.error]; rfl⟩

end Work

/-! ## What a passage comes to -/

namespace Passage
open Execution Work

/-- A walk is stranded that is neither cancelled nor failed: no job can be scheduled at the time at which
one of its nodes is to be resumed. -/
def Stranded (setup : Setup) (p : Passage) : Prop :=
  p.after.status ≠ .cancelled ∧ ∃ walk, p.result = .ok walk ∧
    ∃ x ∈ attended walk.suspended.keys p.after, ∃ fault,
      dueTime setup p.workflow p.ended walk.suspended.keys p.after x = some (.error fault)

/-- A walk from which a node is left that is to be resumed at no time at all. -/
def strands (setup : Setup) (p : Passage) : Bool :=
  match p.result with
  | .ok walk => (attended walk.suspended.keys p.after).any fun x =>
    match dueTime setup p.workflow p.ended walk.suspended.keys p.after x with
    | some (.error _) => true
    | _ => false
  | .error _ => false

theorem stranded_iff (setup : Setup) (p : Passage) :
    p.Stranded setup ↔ p.after.status ≠ .cancelled ∧ p.strands setup = true := by
  refine and_congr_right fun _ => ?_
  unfold strands
  constructor
  · rintro ⟨walk, hresult, x, hx, fault, hdue⟩
    rw [hresult]
    refine List.any_eq_true.2 ⟨x, hx, ?_⟩
    rw [hdue]
  · intro h
    split at h
    · next walk hresult =>
      obtain ⟨x, hx, h⟩ := List.any_eq_true.1 h
      split at h
      · next fault hdue => exact ⟨walk, hresult, x, hx, fault, hdue⟩
      · cases h
    · cases h

instance (setup : Setup) (p : Passage) : Decidable (p.Stranded setup) :=
  decidable_of_iff _ (stranded_iff setup p).symm

theorem not_stranded {setup : Setup} {p : Passage} (hp : p.after.Sound setup.actions)
    (hgive : setup.actions.GiveTimes) (hopen : setup.refusal? = none)
    (hpoll : (p.ended.addSeconds (.int setup.config.resumePoll)).isOk = true) :
    ¬ p.Stranded setup := by
  rintro ⟨-, walk, -, x, -, fault, hdue⟩
  exact dueTime_ne_error hp hgive hopen hpoll fault hdue

/-- How an execution stands after a segment. -/
inductive Outcome (setup : Setup) (p : Passage) (f : Execution) (h : Engine) : Prop
  | cancelled (hstatus : f.status = .cancelled) (nodes : SameNodes p.after f)
      (hcancelled : p.after.status = .cancelled)
  | failed (hstatus : f.status = .failed) (nodes : SameNodes p.after f)
      (hgoing : p.after.status ≠ .cancelled) (fault : Fault) (hresult : p.result = .error fault)
  | done (walk : Walk) (hresult : p.result = .ok walk) (hgoing : p.after.status ≠ .cancelled)
      (hstatus : f.status = if f.pendingResumes.isEmpty then .completed else .paused)
      (touched : Touched setup.actions ((attended walk.suspended.keys p.after).filter
        (isDue setup p.workflow p.ended walk.suspended.keys p.after)) p.after f)
      (covered : ∀ x ∈ attended walk.suspended.keys p.after,
        Covered setup p.workflow p.ended walk.suspended.keys p.after x f h)

theorem Outcome.more {setup : Setup} {p : Passage} {f : Execution} {g h : Engine}
    (houtcome : p.Outcome setup f g) (hjobs : ∀ j ∈ g.schedule.jobs, j ∈ h.schedule.jobs) :
    p.Outcome setup f h := by
  cases houtcome with
  | cancelled hstatus nodes hcancelled => exact .cancelled hstatus nodes hcancelled
  | failed hstatus nodes hgoing fault hresult => exact .failed hstatus nodes hgoing fault hresult
  | done walk hresult hgoing hstatus touched covered =>
    refine .done walk hresult hgoing hstatus touched fun x hx => ?_
    obtain hnone | ⟨htime, hprovides, hhas⟩ := covered x hx
    · exact .inl hnone
    · exact .inr ⟨htime, hprovides, hhas.mono hjobs⟩

end Passage

namespace Work
open Execution Engine Passage
variable {setup : Setup} {g : Engine}

/-- A walk that is not stranded is settled: its execution is kept as it stands then. -/
structure Settles (setup : Setup) (g : Engine) (p : Passage) (f : Execution) (h : Engine) : Prop where
  clear : ¬ p.Stranded setup
  outcome : p.Outcome setup f h
  dated : p.after.Blank → f.Dated
  keeps : (g.posting setup f).Keeps h

theorem conclude_leads {p : Passage} (hp : p.after.Sound setup.actions)
    (hsuspended : ∀ walk, p.result = .ok walk → walk.suspended.keys.Nodup) (hnow : g.now = p.ended) :
    Leads (conclude setup p.workflow p.after p.result) g (fun f h => Settles setup g p f h)
      fun _ h => p.Stranded setup ∧ g.Keeps h := by
  unfold conclude
  split
  · next hcancelled =>
    have hcancelled := beq_iff_eq.1 hcancelled
    refine (endCancelled_leads p.after hcancelled).mono ?_ fun _ _ hfalse => hfalse.elim
    intro f h hends
    exact ⟨fun hstranded => hstranded.1 hcancelled, .cancelled hends.status_eq hends.nodes hcancelled,
      hends.dated, hends.keeps⟩
  · next hrunning =>
    have hgoing (hstatus : p.after.status = .cancelled) : False := hrunning (beq_iff_eq.2 hstatus)
    cases hresult : p.result with
    | error fault =>
      refine (endFailed_leads p.workflow p.after fault).mono ?_ fun _ _ hfalse => hfalse.elim
      intro f h hends
      refine ⟨fun ⟨_, walk, hwalk, _⟩ => ?_, .failed hends.status_eq hends.nodes hgoing fault hresult,
        hends.dated, hends.keeps⟩
      rw [hresult] at hwalk
      cases hwalk
    | ok walk =>
      have hsame : Gives Keeps (SameEnd p.after)
          (scheduleResumes setup p.workflow walk.suspended.keys p.after) :=
        gives_scheduleResumes_sameEnd (fun _ _ _ => within_schedule _ _) p.workflow walk.suspended.keys p.after
      refine Leads.bind (((scheduleResumes_leads hp (hsuspended walk hresult)).and (hsame g)).mono
        (fun _ _ h => h) ?_) ?_
      · intro fault h ⟨⟨hmore, x, hx, hdue⟩, _⟩
        rw [hnow] at hdue
        exact ⟨⟨hgoing, walk, hresult, x, hx, fault, hdue⟩, hmore.keeps⟩
      · intro e h ⟨⟨htouched, hmore, hcovered⟩, hkeeps, hend⟩
        rw [hnow] at htouched hcovered
        have hstranded : ¬ p.Stranded setup := by
          rintro ⟨-, walk', hwalk', x, hx, fault, hdue⟩
          obtain rfl : walk = walk' := Except.ok.inj (hresult.symm.trans hwalk')
          obtain hnone | ⟨⟨time, htime⟩, -⟩ := hcovered x hx
          · rw [hnone] at hdue
            cases hdue
          · rw [htime] at hdue
            cases hdue
        have finish (status : ExecutionStatus)
            (hstatus : (if e.pendingResumes.isEmpty then .completed else .paused) = status)
            (f : Execution) (i : Engine) (hends : Ends setup status e h f i) :
            Settles setup g p f i := by
          have hpending : f.pendingResumes = e.pendingResumes := by
            rw [pendingResumes, pendingResumes, hends.nodes.states_eq]
          refine ⟨hstranded, .done walk hresult hgoing ?_ ?_ ?_, fun hp => hends.dated (hend.blank hp),
            (posting_keeps hkeeps f).trans hends.keeps⟩
          · rw [hends.status_eq, hpending, hstatus]
          · exact (htouched.trans (hends.nodes.touched htouched.sound)).mono (by simp)
          · intro x hx
            obtain hnone | ⟨htime, hprovides, hhas⟩ := hcovered x hx
            · exact .inl hnone
            · refine .inr ⟨htime, ?_, hhas.mono hends.keeps.jobs⟩
              exact fun s hs => hprovides s ((hends.nodes.state? x).symm.trans hs)
        split
        · next hempty =>
          refine (endCompleted_leads e).mono ?_ fun _ _ hfalse => hfalse.elim
          exact finish .completed (if_pos hempty)
        · next hempty =>
          refine (endPaused_leads e).mono ?_ fun _ _ hfalse => hfalse.elim
          exact finish .paused (if_neg hempty)

/-! ## Passages -/

/-- The walk that a segment makes. -/
def passage (setup : Setup) (w : Workflow) (e : Execution) (starts : List Node) (g : Engine) :
    Passage :=
  let dispatch := Node.dispatch (setup.services g.running.length) w (Node.nestingLimit w)
  let r := (Walk.run dispatch w setup.config.maxIterations starts).run.run (g.session e)
  ⟨w, e, starts, r.2.execution, r.1, r.2.now⟩

section Passage
variable {w : Workflow} {e : Execution} {starts : List Node} {p : Passage}

/-- What a walk leads to is what its passage records. -/
theorem passage_leads {ok : Walk → Session → Prop} {fails : Fault → Session → Prop}
    (h : Leads (Walk.run
      (Node.dispatch (setup.services g.running.length) w (Node.nestingLimit w)) w
        setup.config.maxIterations starts) (g.session e) ok fails)
    (hp : p = passage setup w e starts g) : ∃ t : Session, p.after = t.execution ∧
      ((∃ walk, p.result = .ok walk ∧ ok walk t) ∨ ∃ fault, p.result = .error fault ∧ fails fault t) := by
  subst hp
  unfold passage
  dsimp only
  obtain ⟨walk, t, hm, ht⟩ | ⟨fault, t, hm, ht⟩ := h.cases
  · exact ⟨t, congrArg (fun r => r.2.execution) hm, .inl ⟨walk, congrArg Prod.fst hm, ht⟩⟩
  · exact ⟨t, congrArg (fun r => r.2.execution) hm, .inr ⟨fault, congrArg Prod.fst hm, ht⟩⟩

theorem passage_reaches {Q : Nat → Walk → Execution → Prop} (he : e.Sound setup.actions)
    (h : ∀ running (s : Session), s.execution.Sound setup.actions →
      Reaches setup.actions s (Q s.execution.nextNumber) (Walk.run
        (Node.dispatch (setup.services running) w (Node.nestingLimit w)) w
          setup.config.maxIterations starts))
    (hp : p = passage setup w e starts g) :
    Later setup.actions e p.after ∧ ∀ walk, p.result = .ok walk → Q e.nextNumber walk p.after := by
  have hsession : Later setup.actions e (g.session e).execution := .of_eq he rfl rfl rfl rfl
  obtain ⟨t, hafter, ⟨walk, hresult, ht⟩ | ⟨fault, hresult, ht⟩⟩ :=
    passage_leads (h g.running.length (g.session e) (he.of_eq rfl rfl)) hp
  · rw [hafter, hresult]
    refine ⟨hsession.trans ht.1, ?_⟩
    rintro _ ⟨⟩
    exact ht.2
  · rw [hafter, hresult]
    exact ⟨hsession.trans ht, nofun⟩

theorem passage_suspends (he : e.Sound setup.actions) (hp : p = passage setup w e starts g) :
    Later setup.actions e p.after ∧
      ∀ walk, p.result = .ok walk → walk.Suspends setup.actions e.nextNumber p.after := by
  refine passage_reaches (Q := fun k walk f => walk.Suspends setup.actions k f) he ?_ hp
  intro running s hs
  exact Walk.run_reaches (Node.dispatches_dispatch (setup.services running) w _) w _ starts hs

/-- A walk from one node that is not cancelled records anew that node, and what running it renews. -/
theorem passage_renews {n : Node} {ids : List String} (he : e.Sound setup.actions)
    (hids : ∀ running, Walk.Renews setup.actions
      (Node.dispatch (setup.services running) w (Node.nestingLimit w)) n ids)
    (hp : p = passage setup w e [n] g) {walk : Walk} (hwalk : p.result = .ok walk)
    (hstatus : p.after.status ≠ .cancelled) :
    ∀ x ∈ n.id :: ids, FreshAt setup.actions e.nextNumber p.after x := by
  have hrun (running : Nat) (s : Session) (hs : s.execution.Sound setup.actions) :=
    Walk.run_single_reaches (Node.dispatches_dispatch (setup.services running) w _) (hids running) w
      setup.config.maxIterations hs
  obtain ⟨-, hfresh⟩ := passage_reaches (Q := fun k _ f => f.status = .cancelled ∨
    ∀ x ∈ n.id :: ids, FreshAt setup.actions k f x) he hrun hp
  exact (hfresh walk hwalk).resolve_left hstatus

/-- A node leads to another one in a walk that an engine makes. -/
def LeadsTo (setup : Setup) (w : Workflow) (n m : Node) : Prop :=
  ∃ running, Walk.LeadsTo (Node.dispatch (setup.services running) w (Node.nestingLimit w)) w n m

/-- No walk records an end of its execution. -/
theorem passage_sameEnd (hp : p = passage setup w e starts g) : e.SameEnd p.after := by
  have hrun := Walk.within_run (R := EndStays)
    (Node.within_dispatch (setup.services g.running.length) w (Node.nestingLimit w)) w
    setup.config.maxIterations starts (g.session e)
  obtain ⟨t, hafter, ⟨walk, -, ht, -⟩ | ⟨fault, -, ht⟩⟩ := passage_leads hrun hp
  · exact hafter ▸ (⟨ht.completedAt, ht.error⟩ : e.SameEnd t.execution)
  · exact hafter ▸ (⟨ht.completedAt, ht.error⟩ : e.SameEnd t.execution)

theorem passage_visited (among : Node → Prop) (hstarts : ∀ n ∈ starts, among n)
    (hamong : ∀ n m, among n → LeadsTo setup w n m → among m)
    (hp : p = passage setup w e starts g) : Walk.Visited among p.after.trail := by
  have hrun := Walk.run_leads among
    (Node.within_dispatch (R := SameTrail) (setup.services g.running.length) w (Node.nestingLimit w))
    (fun n m hn hm => hamong n m hn ⟨_, hm⟩) setup.config.maxIterations hstarts
    (s := g.session e) rfl
  obtain ⟨t, hafter, ⟨walk, -, ht⟩ | ⟨fault, -, ht⟩⟩ := passage_leads hrun hp
  · exact hafter ▸ ht
  · exact hafter ▸ ht

theorem passage_follows (hp : p = passage setup w e starts g) {walk : Walk}
    (hwalk : p.result = .ok walk) : p.after.trail = walk.visited.reverse ∧
      (walk.cancelled = false → Walk.Follows w walk []) := by
  have hrun := Walk.run_follows (w := w)
    (Node.within_dispatch (R := SameTrail) (setup.services g.running.length) w (Node.nestingLimit w))
    setup.config.maxIterations starts (s := g.session e) rfl
  obtain ⟨t, hafter, ⟨walk', hresult, ht⟩ | ⟨fault, hresult, -⟩⟩ := passage_leads hrun hp
  · obtain rfl : walk = walk' := Except.ok.inj (hwalk.symm.trans hresult)
    exact hafter ▸ ht
  · cases hwalk.symm.trans hresult

theorem walk_leads (setup : Setup) (w : Workflow) (e : Execution) (starts : List Node) (g : Engine) :
    Leads (walk setup w e starts) g (fun p h => p = passage setup w e starts g ∧
      Keeps { g with journal := g.journal ++ [p], now := p.ended } h) fun _ _ => False :=
  ⟨rfl, rfl, rfl, rfl, rfl, rfl, rfl, fun _ hj => hj⟩

end Passage

/-! ## Segments -/

/-- An engine after a segment made a walk. -/
structure Passes (g : Engine) (p : Passage) (h : Engine) : Prop where
  running : h.running = g.running.filter (· != p.before.id)
  journal : h.journal = g.journal ++ [p]
  started : h.started = g.started
  jobs : ∀ j ∈ g.schedule.jobs, j ∈ h.schedule.jobs

/-- An engine after a segment settled the walk that it made: the execution is kept as it stands then, and
that is published. -/
structure Posts (setup : Setup) (g : Engine) (p : Passage) (f : Execution) (h : Engine) : Prop where
  clear : ¬ p.Stranded setup
  outcome : p.Outcome setup f h
  dated : p.before.Blank → f.Dated
  memory : h.memory = g.memory.saveExecution f
  events : h.events = g.events ++ setup.announced f.status.event f none

/-- An engine after a segment made a walk that is stranded: nothing was kept or published. -/
structure Strands (setup : Setup) (g : Engine) (p : Passage) (h : Engine) : Prop where
  stranded : p.Stranded setup
  memory : h.memory = g.memory
  events : h.events = g.events

theorem runSegment_leads (w : Workflow) {e : Execution} (starts : List Node) (he : e.Sound setup.actions)
    {p : Passage} (hp : p = passage setup w e starts g) :
    Leads (runSegment setup w e starts) g
      (fun f h => Posts setup g p f h ∧ Passes g p h)
      fun _ h => Strands setup g p h ∧ Passes g p h := by
  obtain ⟨hlater, hsuspends⟩ := passage_suspends he hp
  refine Leads.bind ((walk_leads setup w e starts g).mono (fun _ _ h => h)
    fun _ _ hfalse => hfalse.elim) ?_
  rintro p' g₁ ⟨hp', hwalk⟩
  obtain rfl : p' = p := hp'.trans hp.symm
  have hw : p'.workflow = w := by rw [hp]; rfl
  have hbefore : p'.before = e := by rw [hp]; rfl
  have hid : p'.after.id = p'.before.id := by rw [hbefore, hlater.id_eq]
  refine leads_bind (leads_attempt ?_)
  rw [← hw]
  have passes {i : Engine} (hrunning : i.running = g₁.running) (hjournal : i.journal = g₁.journal)
      (hstarted : i.started = g₁.started) (hjobs : ∀ j ∈ g₁.schedule.jobs, j ∈ i.schedule.jobs) :
      Passes g p' { i with running := i.running.filter (· != p'.after.id) } := by
    refine ⟨?_, hjournal.trans hwalk.journal, hstarted.trans hwalk.started,
      fun j hj => hjobs j (hwalk.jobs j hj)⟩
    rw [hrunning, hwalk.running, hid]
  refine (conclude_leads hlater.sound (fun walk hresult => (hsuspends walk hresult).nodup)
    hwalk.now).mono ?_ ?_
  · intro f h ⟨hclear, houtcome, hdated, hkeeps⟩
    refine leads_bind (leads_modify (leads_pure ⟨⟨hclear, houtcome.more fun _ hj => hj, ?_, ?_, ?_⟩, ?_⟩))
    · intro hblank
      have hsame : p'.before.SameEnd p'.after := hbefore ▸ passage_sameEnd hp
      exact hdated (hsame.blank hblank)
    · rw [hkeeps.memory]
      exact congrArg (Memory.saveExecution · f) hwalk.memory
    · rw [hkeeps.events]
      exact congrArg (· ++ setup.announced f.status.event f none) hwalk.events
    · exact passes hkeeps.running hkeeps.journal hkeeps.started hkeeps.jobs
  · intro fault h ⟨hstranded, hkeeps⟩
    refine leads_bind (leads_modify (leads_throw (α := Execution) ⟨⟨hstranded, ?_, ?_⟩, ?_⟩))
    · exact hkeeps.memory.trans hwalk.memory
    · exact hkeeps.events.trans hwalk.events
    · exact passes hkeeps.running hkeeps.journal hkeeps.started hkeeps.jobs

end Work

end Flowline
