import Flowline.Proofs.Engine.Moves
import Flowline.Proofs.Walk.Frame

/-! # The books of an engine

The books are what an engine keeps, the jobs that wait, the counts of its limiter, and the number of executions
that were started. A segment of an execution changes them only when it ends: the execution is saved, and jobs are
scheduled to resume it, or one to run its workflow again if it has failed. -/

namespace Flowline

/-! ## Schedules that grow -/

section
variable {τ π : Type} [LT τ] [DecidableLT τ]

/-- Payloads of some kind were scheduled. -/
abbrev Schedule.Grows (P : π → Prop) : Schedule τ π → Schedule τ π → Prop :=
  Relation.ReflTransGen fun s t => ∃ runAt payload, P payload ∧ t = (s.add runAt payload).2

end

/-- A payload resumes an execution. -/
def Value.Resumes (payload : Value) : Prop := ∃ e x, payload = Work.resumePayload e x

namespace Engine

/-! ## Books -/

/-- Two engines with the same books. -/
structure SameBooks (g h : Engine) : Prop where
  memory : h.memory = g.memory
  schedule : h.schedule = g.schedule
  limiter : h.limiter = g.limiter
  started : h.started = g.started

instance : IsPreorder Engine SameBooks where
  refl _ := ⟨rfl, rfl, rfl, rfl⟩
  trans _ _ _ h₁ h₂ := ⟨h₂.memory.trans h₁.memory, h₂.schedule.trans h₁.schedule,
    h₂.limiter.trans h₁.limiter, h₂.started.trans h₁.started⟩

theorem SameBooks.refl (g : Engine) : g.SameBooks g := refl_of SameBooks g

variable {setup : Setup} {w : Workflow} {e f : Execution} {g g₁ h i : Engine} {s t : Schedule Float Value}

theorem SameBooks.saved (hbooks : g.SameBooks g₁)
    (hsaved : SameBooks { g₁ with memory := g₁.memory.saveExecution f, schedule := t } h) :
    SameBooks { g with memory := g.memory.saveExecution f, schedule := t } h := by
  refine ⟨?_, hsaved.schedule, hsaved.limiter.trans hbooks.limiter, hsaved.started.trans hbooks.started⟩
  rw [hsaved.memory, hbooks.memory]

/-- Jobs were scheduled to resume executions, if any, and nothing else is different in the books. -/
def PlansResumes (g h : Engine) : Prop :=
  ∃ t, g.schedule.Grows Value.Resumes t ∧ SameBooks { g with schedule := t } h

instance : IsPreorder Engine PlansResumes where
  refl g := ⟨g.schedule, .refl, .refl g⟩
  trans _ _ _ := by
    rintro ⟨t, hgrows, hbooks⟩ ⟨t', hgrows', hbooks'⟩
    rw [hbooks.schedule] at hgrows'
    refine ⟨t', hgrows.trans hgrows', hbooks'.memory.trans hbooks.memory,
      hbooks'.schedule, hbooks'.limiter.trans hbooks.limiter, hbooks'.started.trans hbooks.started⟩

theorem SameBooks.saving (hbooks : SameBooks { g with schedule := t } g₁)
    (hsaved : SameBooks { g₁ with memory := g₁.memory.saveExecution f } h) :
    SameBooks { g with memory := g.memory.saveExecution f, schedule := t } h := by
  refine ⟨?_, hsaved.schedule.trans hbooks.schedule, hsaved.limiter.trans hbooks.limiter,
    hsaved.started.trans hbooks.started⟩
  rw [hsaved.memory, hbooks.memory]

theorem SameBooks.scheduled (hbooks : g.SameBooks g₁) (hscheduled : SameBooks { g₁ with schedule := t } h) :
    SameBooks { g with schedule := t } h :=
  ⟨hscheduled.memory.trans hbooks.memory, hscheduled.schedule, hscheduled.limiter.trans hbooks.limiter,
    hscheduled.started.trans hbooks.started⟩

/-! ## Ends of segments -/

/-- The workflow of a failed execution is to be run again after a wait, as its policy allows. -/
structure Retried (setup : Setup) (w : Workflow) (f : Execution) (s t : Schedule Float Value) : Prop where
  job : ∃ policy retries delay time, RetryPolicy.ofSettings w.settings = .ok policy ∧
    f.retryCount = .ok retries ∧ policy.allows retries = true ∧
    policy.delay retries setup.share = .ok delay ∧ f.completedAt? = some time ∧
    t = (s.add (time.timestamp + delay) (Work.retryPayload w f (retries + 1))).2

/-- What a segment of an execution comes to. One that is stranded is not saved. One that is saved as failed may
be retried, and with all others jobs are scheduled only to resume them. -/
inductive Ending (setup : Setup) (w : Workflow) (e : Execution) (g h : Engine) : Prop
  | strand (t : Schedule Float Value) (hgrows : g.schedule.Grows Value.Resumes t)
    (hbooks : SameBooks { g with schedule := t } h)
  | settle (f : Execution) (htask : e.SameTask f) (hstatus : f.status ≠ .failed) (t : Schedule Float Value)
    (hgrows : g.schedule.Grows Value.Resumes t)
    (hbooks : SameBooks { g with memory := g.memory.saveExecution f, schedule := t } h)
  | fail (f : Execution) (htask : e.SameTask f) (hstatus : f.status = .failed) (t : Schedule Float Value)
    (hretry : t = g.schedule ∨ Retried setup w f g.schedule t)
    (hbooks : SameBooks { g with memory := g.memory.saveExecution f, schedule := t } h)

theorem Ending.of_books (hbooks : g.SameBooks g₁) (hending : Ending setup w e g₁ h) :
    Ending setup w e g h := by
  cases hending with
  | strand t hgrows hsame => exact .strand t (hbooks.schedule ▸ hgrows) (hbooks.scheduled hsame)
  | settle f htask hstatus t hgrows hsame =>
    exact .settle f htask hstatus t (hbooks.schedule ▸ hgrows) (hbooks.saved hsame)
  | fail f htask hstatus t hretry hsame =>
    exact .fail f htask hstatus t (hbooks.schedule ▸ hretry) (hbooks.saved hsame)

theorem Ending.after (hending : Ending setup w e g h) (hbooks : h.SameBooks i) : Ending setup w e g i := by
  cases hending with
  | strand t hgrows hsame => exact .strand t hgrows (trans_of SameBooks hsame hbooks)
  | settle f htask hstatus t hgrows hsame =>
    exact .settle f htask hstatus t hgrows (trans_of SameBooks hsame hbooks)
  | fail f htask hstatus t hretry hsame =>
    exact .fail f htask hstatus t hretry (trans_of SameBooks hsame hbooks)

theorem Ending.of_task (htask : e.SameTask f) (hending : Ending setup w f g h) : Ending setup w e g h := by
  cases hending with
  | strand t hgrows hsame => exact .strand t hgrows hsame
  | settle f' htask' hstatus t hgrows hsame => exact .settle f' (htask.trans htask') hstatus t hgrows hsame
  | fail f' htask' hstatus t hretry hsame => exact .fail f' (htask.trans htask') hstatus t hretry hsame

end Engine

namespace Work
open Engine Execution

variable {setup : Setup} {w : Workflow} {e f : Execution} {g : Engine}

theorem settle_books (kind : EventKind) (f : Execution) (g : Engine) :
    Leads (settle setup kind f) g
      (fun f' h => f' = f ∧ SameBooks { g with memory := g.memory.saveExecution f } h) fun _ _ => False := by
  refine leads_bind (leads_modify ?_)
  refine Leads.bind (publishAt_leads kind f none _) ?_
  rintro _ h rfl
  exact leads_pure ⟨rfl, rfl, rfl, rfl, rfl⟩

/-! ## Failures -/

/-- A retry is scheduled at once, or not at all; only the log of the execution says so. -/
theorem scheduleRetry_books (w : Workflow) (e : Execution) (hended : e.completedAt? = some g.now) :
    Leads (scheduleRetry setup w e) g
      (fun f h => ∃ logs, f = { e with logs := logs } ∧ ∃ t, SameBooks { g with schedule := t } h ∧
        (t = g.schedule ∨ Retried setup w f g.schedule t))
      fun _ h => h = g := by
  refine of_leads (fun policy hpolicy => ?_) fun _ _ => rfl
  refine of_leads (fun retries hretries => ?_) fun _ _ => rfl
  split
  · obtain ⟨logs, hlog⟩ := log_eq e "info" "Retry limit reached" (.object [("retry_count", .int retries)])
    exact leads_pure ⟨logs, hlog, g.schedule, .refl g, .inl rfl⟩
  · next hallows =>
    have hallows : policy.allows retries = true := by simpa using hallows
    refine of_leads (fun delay hdelay => ?_) fun _ _ => rfl
    refine leads_bind (leads_bind (leads_get (leads_pure ?_)))
    unfold schedule
    cases setup.refusal? with
    | some fault => exact leads_bind (leads_throw (α := String) rfl)
    | none =>
      refine leads_bind (leads_bind (leads_pure (leads_bind (leads_get (leads_bind (leads_set ?_))))))
      refine leads_pure (leads_pure ?_)
      obtain ⟨logs, hlog⟩ := log_eq e "info" s!"Retry scheduled in {Double.text delay} seconds"
        (.object [("retry_count", .int (retries + 1)), ("job_id", .str (Job.id _))])
      refine ⟨logs, hlog, _, .refl _, .inr ?_⟩
      refine ⟨policy, retries, delay, g.now, hpolicy, ?_, hallows, hdelay, ?_, ?_⟩
      · rw [note, hlog]
        exact hretries
      · rw [note, hlog]
        exact hended
      · rw [note, hlog]
        rfl

theorem notifyFailure_eq (w : Workflow) (e : Execution) (g : Engine) :
    Leads (notifyFailure setup w e) g (fun _ h => ∃ notes, h = { g with notifications := notes })
      fun _ _ => False := by
  have hnone : g = { g with notifications := g.notifications } := rfl
  unfold notifyFailure
  split
  · exact leads_pure ⟨_, hnone⟩
  · split
    · exact leads_pure ⟨_, hnone⟩
    · dsimp only
      split
      · exact leads_modify ⟨_, rfl⟩
      · exact leads_pure ⟨_, hnone⟩

/-- A failed execution is retried or not, whatever becomes of the notification. -/
theorem handleFailure_books (w : Workflow) (e : Execution) (hended : e.completedAt? = some g.now) :
    Leads (handleFailure setup w e) g
      (fun f h => ∃ logs, f = { e with logs := logs } ∧ ∃ t, SameBooks { g with schedule := t } h ∧
        (t = g.schedule ∨ Retried setup w f g.schedule t))
      fun _ _ => False := by
  refine Leads.bind (notifyFailure_eq w e g) ?_
  rintro _ _ ⟨notes, rfl⟩
  split
  · exact leads_pure ⟨e.logs, rfl, g.schedule, ⟨rfl, rfl, rfl, rfl⟩, .inl rfl⟩
  · refine leads_bind (leads_attempt ((scheduleRetry_books (g := { g with notifications := notes }) w e
      hended).mono ?_ ?_))
    · rintro f h ⟨logs, hf, t, hbooks, hretry⟩
      exact leads_pure ⟨logs, hf, t, ⟨hbooks.memory, hbooks.schedule, hbooks.limiter, hbooks.started⟩, hretry⟩
    · rintro fault _ rfl
      obtain ⟨logs, hlog⟩ := log_eq e "error" "Retry scheduling failed"
        (.object [("error", .str fault.message)])
      exact leads_pure ⟨logs, hlog, g.schedule, ⟨rfl, rfl, rfl, rfl⟩, .inl rfl⟩

/-! ## Segments -/

theorem within_schedule_plans (runAt : Value) (e : Execution) (x : String) :
    Within PlansResumes (schedule setup runAt (resumePayload e x)) := by
  intro g
  unfold schedule
  cases setup.refusal? with
  | some fault => exact leads_throw (α := String) (refl_of PlansResumes g)
  | none =>
    refine of_leads (fun time _ => ?_) fun _ _ => refl_of PlansResumes g
    refine leads_bind (leads_get (leads_bind (leads_set (leads_pure ⟨⟨_, ?_, .refl _⟩, trivial⟩))))
    exact .single ⟨time, _, ⟨e, x, rfl⟩, rfl⟩

theorem fail_books (htask : e.SameTask f) (hstatus : f.status = .failed)
    (hended : f.completedAt? = some g.now) :
    Leads (handleFailure setup w f >>= settle setup .failed) g (fun _ h => Ending setup w e g h)
      fun _ h => Ending setup w e g h := by
  refine Leads.bind ((handleFailure_books w f hended).mono (fun _ _ h => h) fun _ _ hfalse => hfalse.elim) ?_
  rintro _ g₁ ⟨logs, rfl, t, hbooks, hretry⟩
  refine (settle_books .failed _ g₁).mono ?_ fun _ _ hfalse => hfalse.elim
  rintro _ h ⟨-, hsaved⟩
  have htask' : e.SameTask { f with logs := logs } := htask.trans ⟨rfl, rfl, rfl, rfl, rfl⟩
  exact .fail _ htask' hstatus t hretry (hbooks.saving hsaved)

theorem conclude_books (w : Workflow) (e : Execution) (r : Except Fault Walk) (g : Engine) :
    Leads (conclude setup w e r) g (fun _ h => Ending setup w e g h) fun _ h => Ending setup w e g h := by
  have settled {kind : EventKind} {f f' : Execution} {g₁ : Engine} (hplans : g.PlansResumes g₁)
      (htask : e.SameTask f) (level message : String) (details : List (String × Value))
      (hf : f' = f.note level message details) (hstatus : f.status ≠ .failed) :
      Leads (settle setup kind f') g₁ (fun _ h => Ending setup w e g h) fun _ h => Ending setup w e g h := by
    refine (settle_books kind f' g₁).mono ?_ fun _ _ hfalse => hfalse.elim
    rintro _ h ⟨-, hsaved⟩
    obtain ⟨t, hgrows, hbooks⟩ := hplans
    subst hf
    exact .settle _ (htask.note ..) ((note_status ..).symm ▸ hstatus) t hgrows (hbooks.saving hsaved)
  unfold conclude
  split
  · next hcancelled =>
    have hcancelled : e.status = .cancelled := beq_iff_eq.1 hcancelled
    refine leads_bind (leads_bind (leads_get (leads_pure ?_)))
    refine settled (f := { e with completedAt? := some g.now }) (refl_of PlansResumes g)
      ⟨rfl, rfl, rfl, rfl, rfl⟩ _ _ _ rfl ?_
    rw [hcancelled]
    exact nofun
  · cases r with
    | error fault =>
      refine leads_bind (leads_bind (leads_get (leads_pure ?_)))
      have htask : e.SameTask { e with
          status := .failed, error? := some fault.message, completedAt? := some g.now } :=
        ⟨rfl, rfl, rfl, rfl, rfl⟩
      exact fail_books (htask.note ..) (note_status ..) (note_completedAt? ..)
    | ok walk =>
      have hresumes : Gives PlansResumes (SameTask e) (scheduleResumes setup w walk.suspended.keys e) :=
        gives_scheduleResumes within_schedule_plans (fun _ _ _ _ h => h.note ..)
          (fun _ _ _ _ h => h.growOutput ..) w walk.suspended.keys (.refl e)
      refine Leads.bind ((hresumes g).mono (fun _ _ h => h) ?_) ?_
      · rintro _ h ⟨t, hgrows, hbooks⟩
        exact .strand t hgrows hbooks
      · rintro f g₁ ⟨hplans, htask⟩
        have htask' (status : ExecutionStatus) (time? : Option Moment) :
            e.SameTask { f with status := status, completedAt? := time? } :=
          ⟨htask.id_eq, htask.workflowId_eq, htask.trigger_eq, htask.context_eq, htask.startedAt_eq⟩
        split
        · refine leads_bind (leads_bind (leads_get (leads_pure ?_)))
          exact settled hplans (htask' .completed (some g₁.now)) _ _ _ rfl nofun
        · exact settled hplans (htask' .paused f.completedAt?) _ _ _ rfl nofun

/-- A walk changes nothing in the books, and nothing in the task of the execution. -/
theorem walk_books (w : Workflow) (e : Execution) (starts : List Node) (g : Engine) :
    Leads (walk setup w e starts) g (fun p h => e.SameTask p.after ∧ g.SameBooks h) fun _ _ => False := by
  have hrun := Walk.within_run (R := TaskStays)
    (Node.within_dispatch (setup.services g.running.length) w (Node.nestingLimit w)) w
    setup.config.maxIterations starts (g.session e)
  have htask : e.SameTask (passage setup w e starts g).after := by
    obtain ⟨s, hafter, ⟨walk, -, hs, -⟩ | ⟨fault, -, hs⟩⟩ := passage_leads hrun rfl
    · exact hafter ▸ ⟨hs.id_eq, hs.workflowId_eq, hs.trigger_eq, hs.context_eq, hs.startedAt_eq⟩
    · exact hafter ▸ ⟨hs.id_eq, hs.workflowId_eq, hs.trigger_eq, hs.context_eq, hs.startedAt_eq⟩
  exact ⟨htask, rfl, rfl, rfl, rfl⟩

theorem runSegment_books (w : Workflow) (e : Execution) (starts : List Node) (g : Engine) :
    Leads (runSegment setup w e starts) g (fun _ h => Ending setup w e g h)
      fun _ h => Ending setup w e g h := by
  refine Leads.bind ((walk_books w e starts g).mono (fun _ _ h => h) fun _ _ hfalse => hfalse.elim) ?_
  rintro p g₁ ⟨htask, hbooks⟩
  have ended {h : Engine} (hending : Ending setup w p.after g₁ h) :
      Ending setup w e g { h with running := h.running.filter (· != p.after.id) } :=
    ((hending.of_task htask).of_books hbooks).after ⟨rfl, rfl, rfl, rfl⟩
  refine leads_bind (leads_attempt ((conclude_books w p.after p.result g₁).mono ?_ ?_))
  · exact fun f h hending => leads_bind (leads_modify (leads_pure (ended hending)))
  · exact fun fault h hending => leads_bind (leads_modify (leads_throw (α := Execution) (ended hending)))

end Work

end Flowline
