import Flowline.Engine.Suspension
import Flowline.Proofs.Execution.Touched

/-! # Scheduling the resumption of an execution

`dueTime` says when a node is to be resumed, if it is to be: at the time that its output names, or when it
is tried again. As long as there is such a time for every node, scheduling gives each of them a job, and
provides for them all; with the first one that has none it fails, and the schedule keeps what it has. -/

namespace Flowline

theorem Schedule.mem_place {τ π : Type} [LT τ] [DecidableLT τ] {j k : Job τ π}
    {jobs : List (Job τ π)} : k ∈ place j jobs ↔ k = j ∨ k ∈ jobs := by
  induction jobs with
  | nil => simp only [place, List.mem_singleton, List.not_mem_nil, or_false]
  | cons i rest ih =>
    rw [place]
    split
    · exact List.mem_cons
    · rw [List.mem_cons, ih, List.mem_cons]
      exact or_left_comm

/-- An engine with further jobs. -/
structure Engine.MoreJobs (g h : Engine) : Prop where
  eq : ∃ schedule, h = { g with schedule := schedule }
  jobs : ∀ j ∈ g.schedule.jobs, j ∈ h.schedule.jobs

theorem Engine.MoreJobs.refl (g : Engine) : g.MoreJobs g := ⟨⟨g.schedule, rfl⟩, fun _ hj => hj⟩

theorem Engine.MoreJobs.trans {g h i : Engine} (h₁ : g.MoreJobs h) (h₂ : h.MoreJobs i) :
    g.MoreJobs i := by
  obtain ⟨schedule, rfl⟩ := h₁.eq
  obtain ⟨schedule', rfl⟩ := h₂.eq
  exact ⟨⟨schedule', rfl⟩, fun j hj => h₂.jobs j (h₁.jobs j hj)⟩

/-- A job with a payload waits for its time. -/
def Engine.HasJob (g : Engine) (payload : Value) : Prop := ∃ j ∈ g.schedule.jobs, j.payload = payload

theorem Engine.HasJob.mono {g h : Engine} {payload : Value} (hjob : g.HasJob payload)
    (hjobs : ∀ j ∈ g.schedule.jobs, j ∈ h.schedule.jobs) : h.HasJob payload := by
  obtain ⟨j, hj, hpayload⟩ := hjob
  exact ⟨j, hjobs j hj, hpayload⟩

namespace Work
open Execution

/-! ## Jobs -/

/-- The time of a job, unless no job can be scheduled at it. -/
def accepted (setup : Setup) (runAt : Value) : Except Fault Float :=
  match setup.refusal? with
  | some fault => .error fault
  | none => runAt.asFloat

theorem schedule_leads (setup : Setup) (runAt payload : Value) (g : Engine) :
    Leads (schedule setup runAt payload) g
      (fun job h => (∃ time, accepted setup runAt = .ok time) ∧ job ≠ "" ∧ g.MoreJobs h ∧
        h.HasJob payload)
      fun fault h => accepted setup runAt = .error fault ∧ h = g := by
  unfold schedule accepted
  cases setup.refusal? with
  | some fault => exact leads_throw ⟨rfl, rfl⟩
  | none =>
    cases runAt.asFloat with
    | error fault => exact leads_throw (α := String) ⟨rfl, rfl⟩
    | ok time =>
      refine leads_bind (leads_pure ?_)
      refine leads_bind (leads_get ?_)
      refine leads_bind (leads_set ?_)
      refine leads_pure ⟨⟨time, rfl⟩, ?_, ⟨⟨_, rfl⟩, fun j hj => ?_⟩, ?_⟩
      · simp [Job.id]
      · exact Schedule.mem_place.2 (.inr hj)
      · exact ⟨_, Schedule.mem_place.2 (.inl rfl), rfl⟩

/-! ## Times -/

/-- When a node is tried again that gives no time itself. -/
def pollDue (setup : Setup) (now : Moment) : Except Fault Float := do
  let time ← now.addSeconds (.int setup.config.resumePoll)
  accepted setup (.float time.timestamp)

/-- When a node is to be resumed, where it is to get a job. -/
def dueTime (setup : Setup) (w : Workflow) (now : Moment) (suspended : List String) (e : Execution)
    (x : String) : Option (Except Fault Float) :=
  match e.state? x with
  | none => none
  | some s =>
    if s.status != .waiting || !suspended.contains x && s.output.hasJob then none
    else
      match s.output.entry "resume_at" with
      | .null => if (w.node? x).any Node.isMerge then none else some (pollDue setup now)
      | time => some (accepted setup time)

variable {setup : Setup} {w : Workflow} {suspended : List String} {e f : Execution} {g : Engine}
variable {actions : Actions}
variable {now : Moment} {x : String} {xs : List String}

theorem dueTime_touched (h : Touched actions xs e f) (hx : x ∉ xs) :
    dueTime setup w now suspended f x = dueTime setup w now suspended e x := by
  unfold dueTime
  cases hs : e.state? x with
  | none => rw [h.domain x hs]
  | some s =>
    obtain ⟨t, ht, halike⟩ := h.others x s hx hs
    rw [ht]
    dsimp only
    rw [halike.status, halike.hasJob, halike.entry (by decide)]

section Waiting
variable {s : NodeState} (hs : e.state? x = some s) (hw : (s.status != .waiting) = false)
  (hjob : (!suspended.contains x && s.output.hasJob) = false)
include hs hw hjob

theorem dueTime_of_null (htime : s.output.entry "resume_at" = .null) :
    dueTime setup w now suspended e x =
      if (w.node? x).any Node.isMerge then none else some (pollDue setup now) := by
  simp only [dueTime, hs, hw, hjob, htime, Bool.false_or, Bool.false_eq_true, if_false]

theorem dueTime_of_time (htime : s.output.entry "resume_at" = .null → False) :
    dueTime setup w now suspended e x = some (accepted setup (s.output.entry "resume_at")) := by
  simp only [dueTime, hs, hw, hjob, Bool.false_or, Bool.false_eq_true, if_false]

end Waiting

/-- There is a time for every node that is to be resumed, when the times that actions give can be read, no
job is refused, and there is a time at which a node can be tried again. -/
theorem dueTime_ne_error (he : e.Sound setup.actions) (hgive : setup.actions.GiveTimes)
    (hopen : setup.refusal? = none)
    (hpoll : (now.addSeconds (.int setup.config.resumePoll)).isOk = true) (fault : Fault) :
    dueTime setup w now suspended e x ≠ some (.error fault) := by
  have haccepted (time : Value) : accepted setup time = time.asFloat := by rw [accepted, hopen]
  intro hdue
  unfold dueTime at hdue
  split at hdue
  · cases hdue
  · next s hs =>
    split at hdue
    · cases hdue
    · next hwaits =>
      have hstatus : s.status = .waiting := by
        rw [Bool.not_eq_true, Bool.or_eq_false_iff] at hwaits
        simpa using hwaits.1
      split at hdue
      · split at hdue
        · cases hdue
        · have hfails := Option.some.inj hdue
          unfold pollDue at hfails
          cases hlater : now.addSeconds (.int setup.config.resumePoll) with
          | error fault' =>
            rw [hlater] at hpoll
            cases hpoll
          | ok later =>
            rw [hlater] at hfails
            cases (haccepted _).symm.trans hfails
      · next hnull =>
        have hfails := (haccepted _).symm.trans (Option.some.inj hdue)
        obtain hnone | ⟨t, ht⟩ := he.timely hgive x s hs hstatus "resume_at" (by decide)
        · exact hnull hnone
        · cases ht.symm.trans hfails

/-! ## Nodes -/

theorem scheduleResumeAt_leads (he : e.Sound actions) (time : Value) :
    Leads (scheduleResumeAt setup e x time) g
      (fun f h => (∃ t, accepted setup time = .ok t) ∧ Touched actions [x] e f ∧ f.Provides x ∧
        g.MoreJobs h ∧ h.HasJob (resumePayload e x))
      fun fault h => accepted setup time = .error fault ∧ h = g := by
  refine Leads.bind (schedule_leads setup time _ g) ?_
  intro job h ⟨haccepted, hjob, hmore, hhas⟩
  have hgrow : Touched actions [x] e (e.growOutput x "resume_job_id" (.str job)) :=
    touched_growOutput he x fun hkey => absurd hkey (by decide)
  have hnote := (SameNodes.refl (e.growOutput x "resume_job_id" (.str job))).note "info"
    "Resume scheduled" [("node_id", .str x), ("resume_at", time), ("job_id", .str job)]
  refine leads_pure ⟨haccepted, hgrow.trans (hnote.touched hgrow.sound), ?_, hmore, hhas⟩
  intro s hs
  exact provides_growOutput he x hjob s ((hnote.state? x).symm.trans hs)

theorem pollTime_leads (setup : Setup) (g : Engine) :
    Leads (pollTime setup) g
      (fun time h => pollDue setup g.now = accepted setup time ∧ time.IsTime ∧ h = g)
      fun fault h => pollDue setup g.now = .error fault ∧ h = g := by
  unfold pollTime pollDue
  refine leads_bind (leads_bind (leads_get (leads_pure ?_)))
  cases g.now.addSeconds (.int setup.config.resumePoll) with
  | error fault => exact leads_throw (α := Value) ⟨rfl, rfl⟩
  | ok time => exact leads_pure ⟨rfl, .inr ⟨time.timestamp, rfl⟩, rfl⟩

/-- What becomes of a node: it gets no job, or it has one and is provided for. -/
def Attended (setup : Setup) (w : Workflow) (suspended : List String) (e : Execution) (x : String)
    (g : Engine) (f : Execution) (h : Engine) : Prop :=
  dueTime setup w g.now suspended e x = none ∧ f = e ∨
    (∃ time, dueTime setup w g.now suspended e x = some (.ok time)) ∧ f.Provides x ∧
      h.HasJob (resumePayload e x)

theorem scheduleResume_leads (he : e.Sound actions) :
    Leads (scheduleResume setup w suspended e x) g
      (fun f h => Touched actions [x] e f ∧ g.MoreJobs h ∧ Attended setup w suspended e x g f h)
      fun fault h => g.MoreJobs h ∧ dueTime setup w g.now suspended e x = some (.error fault) := by
  have idle (hdue : dueTime setup w g.now suspended e x = none) : Leads (pure e : Work Execution) g
      (fun f h => Touched actions [x] e f ∧ g.MoreJobs h ∧ Attended setup w suspended e x g f h)
      fun fault h => g.MoreJobs h ∧ dueTime setup w g.now suspended e x = some (.error fault) :=
    leads_pure ⟨.refl he, .refl g, .inl ⟨hdue, rfl⟩⟩
  unfold scheduleResume
  cases hs : e.state? x with
  | none => exact idle (by rw [dueTime, hs])
  | some s =>
    dsimp only
    split
    · next hw => exact idle (by simp only [dueTime, hs, hw, Bool.true_or, if_true])
    · next hw =>
      have hw := Bool.eq_false_iff.2 hw
      split
      · next hjob => exact idle (by simp only [dueTime, hs, Output.hasJob, hjob, Bool.or_true, if_true])
      · next hjob =>
        have hjob := Bool.eq_false_iff.2 hjob
        split
        · next htime =>
          have hdue : dueTime setup w g.now suspended e x = _ := dueTime_of_null hs hw hjob htime
          split
          · next hmerge => exact idle (hdue.trans (if_pos hmerge))
          · next hmerge =>
            have hdue := hdue.trans (if_neg hmerge)
            refine Leads.bind ((pollTime_leads setup g).mono (fun _ _ h => h) ?_) ?_
            · rintro fault h ⟨hpoll, rfl⟩
              exact ⟨.refl h, by rw [hdue, hpoll]⟩
            · rintro time h ⟨hpoll, htime, rfl⟩
              have hgrow : Touched actions [x] e (e.growOutput x "resume_at" time) :=
                touched_growOutput he x fun _ => htime
              refine (scheduleResumeAt_leads hgrow.sound time).mono ?_ ?_
              · intro f i ⟨⟨t, haccepted⟩, htouched, hprovides, hmore, hhas⟩
                refine ⟨(hgrow.trans htouched).mono (by simp), hmore, .inr ⟨⟨t, ?_⟩, hprovides, ?_⟩⟩
                · rw [hdue, hpoll, haccepted]
                · rw [resumePayload, ← hgrow.id_eq]
                  exact hhas
              · rintro fault i ⟨haccepted, rfl⟩
                exact ⟨.refl i, by rw [hdue, hpoll, haccepted]⟩
        · next htime =>
          have hdue : dueTime setup w g.now suspended e x = _ := dueTime_of_time hs hw hjob htime
          refine (scheduleResumeAt_leads he _).mono ?_ ?_
          · intro f h ⟨⟨t, haccepted⟩, htouched, hprovides, hmore, hhas⟩
            exact ⟨htouched, hmore, .inr ⟨⟨t, by rw [hdue, haccepted]⟩, hprovides, hhas⟩⟩
          · rintro fault h ⟨haccepted, rfl⟩
            exact ⟨.refl h, by rw [hdue, haccepted]⟩

/-! ## All nodes of an execution -/

/-- A node is to get a job. -/
def isDue (setup : Setup) (w : Workflow) (now : Moment) (suspended : List String) (e : Execution)
    (x : String) : Bool := (dueTime setup w now suspended e x).isSome

/-- What becomes of a node by the time that all are attended to. -/
def Covered (setup : Setup) (w : Workflow) (now : Moment) (suspended : List String) (e : Execution)
    (x : String) (f : Execution) (h : Engine) : Prop :=
  dueTime setup w now suspended e x = none ∨
    (∃ time, dueTime setup w now suspended e x = some (.ok time)) ∧ f.Provides x ∧
      h.HasJob (resumePayload e x)

theorem scheduleAll_leads {ids : List String} (he : e.Sound actions) (hids : ids.Nodup) :
    Leads (ids.foldlM (scheduleResume setup w suspended) e) g
      (fun f h => Touched actions (ids.filter (isDue setup w g.now suspended e)) e f ∧ g.MoreJobs h ∧
        ∀ x ∈ ids, Covered setup w g.now suspended e x f h)
      fun fault h => g.MoreJobs h ∧
        ∃ x ∈ ids, dueTime setup w g.now suspended e x = some (.error fault) := by
  induction ids generalizing e g with
  | nil => exact leads_pure ⟨.refl he, .refl g, fun x hx => absurd hx List.not_mem_nil⟩
  | cons x rest ih =>
    obtain ⟨hx, hrest⟩ := List.nodup_cons.1 hids
    rw [List.foldlM_cons]
    refine Leads.bind ((scheduleResume_leads he).mono (fun _ _ h => h) ?_) ?_
    · exact fun fault h hfault => ⟨hfault.1, x, List.mem_cons_self .., hfault.2⟩
    · intro e₁ g₁ ⟨htouched, hmore, hattended⟩
      obtain ⟨schedule, hg₁⟩ := hmore.eq
      have hnow : g₁.now = g.now := by rw [hg₁]
      have hdue {y : String} (hy : y ∈ rest) :
          dueTime setup w g₁.now suspended e₁ y = dueTime setup w g.now suspended e y := by
        rw [hnow]
        refine dueTime_touched htouched fun hmem => ?_
        obtain rfl := List.mem_singleton.1 hmem
        exact hx hy
      refine (ih htouched.sound hrest).mono ?_ ?_
      · intro f h ⟨htouched₂, hmore₂, hcovered⟩
        have hfilter : rest.filter (isDue setup w g₁.now suspended e₁) =
            rest.filter (isDue setup w g.now suspended e) :=
          List.filter_congr fun y hy => by rw [isDue, isDue, hdue hy]
        rw [hfilter] at htouched₂
        refine ⟨?_, hmore.trans hmore₂, ?_⟩
        · obtain ⟨hnone, rfl⟩ | ⟨⟨time, hsome⟩, -, -⟩ := hattended
          · rw [List.filter_cons_of_neg (by rw [isDue, hnone]; nofun)]
            exact htouched₂
          · rw [List.filter_cons_of_pos (by rw [isDue, hsome]; rfl)]
            exact htouched.trans htouched₂
        · intro y hy
          obtain rfl | hy := List.mem_cons.1 hy
          · obtain ⟨hnone, -⟩ | ⟨htime, hprovides, hhas⟩ := hattended
            · exact .inl hnone
            · refine .inr ⟨htime, htouched₂.provides (fun hmem => ?_) hprovides, hhas.mono hmore₂.jobs⟩
              exact hx (List.mem_filter.1 hmem).1
          · have hy' := hcovered y hy
            rw [Covered, hdue hy, resumePayload, htouched.id_eq] at hy'
            exact hy'
      · intro fault h ⟨hmore₂, y, hy, hfault⟩
        exact ⟨hmore.trans hmore₂, y, List.mem_cons_of_mem x hy, hdue hy ▸ hfault⟩

/-- The nodes to which a segment attends at its end. -/
def attended (suspended : List String) (e : Execution) : List String :=
  suspended ++ e.pendingResumes.keys.filter (!suspended.contains ·)

theorem nodup_attended (he : e.Sound actions) (hs : suspended.Nodup) : (attended suspended e).Nodup := by
  refine List.nodup_append.2 ⟨hs, (nodup_pendingResumes he).sublist List.filter_sublist, ?_⟩
  rintro x hx y hy rfl
  have hnot := (List.mem_filter.1 hy).2
  rw [List.contains_iff_mem.2 hx] at hnot
  cases hnot

theorem scheduleResumes_leads (he : e.Sound actions) (hs : suspended.Nodup) :
    Leads (scheduleResumes setup w suspended e) g
      (fun f h => Touched actions ((attended suspended e).filter (isDue setup w g.now suspended e)) e f ∧
        g.MoreJobs h ∧ ∀ x ∈ attended suspended e, Covered setup w g.now suspended e x f h)
      fun fault h => g.MoreJobs h ∧ ∃ x ∈ attended suspended e,
        dueTime setup w g.now suspended e x = some (.error fault) :=
  scheduleAll_leads he (nodup_attended he hs)

end Work

end Flowline
