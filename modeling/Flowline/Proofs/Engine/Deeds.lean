import Flowline.Proofs.Engine.Books

/-! # What operations do to the books

An operation that takes no jobs from the schedule does one deed to the books: it starts an execution at most, and
ends a segment of one execution at most. -/

namespace Flowline

/-! ## Starting -/

namespace Work

/-- What is given to a workflow, and its variables, are mappings. -/
structure Fits (w : Workflow) (trigger context : Value) : Prop where
  trigger : ∃ entries, (trigger.orElse (.map [])).asEntries = .ok entries
  context : ∃ entries, (context.orElse (.map [])).asEntries = .ok entries
  vars : ∃ entries, w.vars.mapping = .ok entries

end Work

/-- A mapping is given to a workflow as it is. -/
theorem Value.asEntries_orElse_map (entries : List (Scalar × Value)) :
    ((Value.map entries).orElse (.map [])).asEntries = .ok entries := by
  cases entries with
  | nil => rfl
  | cons entry rest => rfl

namespace Engine
open Work

/-- An execution of a workflow is started, which is counted. -/
structure Starting (g : Engine) (w : Workflow) (trigger context : Value) (e : Execution) (h : Engine) :
    Prop where
  active : w.isActive = true
  id_eq : e.id = executionId (g.started + 1)
  workflowId_eq : e.workflowId = w.id
  status_eq : e.status = .running
  startedAt_eq : e.startedAt = g.now
  trigger_eq : (trigger.orElse (.map [])).asEntries = .ok e.trigger
  context_eq : (context.orElse (.map [])).asEntries = .ok e.context
  counted : ∃ limit, (w.setting "max_executions_per_hour").asInt = .ok limit ∧
    (g.limiter.acquire g.now.timestamp w.id limit).1 = true ∧
    h.limiter = (g.limiter.acquire g.now.timestamp w.id limit).2
  memory : h.memory = g.memory.saveExecution e
  schedule : h.schedule = g.schedule
  started : h.started = g.started + 1

/-- Why an execution is not started. Only where what the workflow is given does not fit is it counted. -/
inductive Refused (g : Engine) (w : Workflow) (trigger context : Value) (h : Engine) : Fault → Prop
  | inactive (hinactive : w.isActive = false) (heq : h = g) :
    Refused g w trigger context h (.workflowInactive w.id w.status.text)
  | unclear (fault : Fault) (hactive : w.isActive = true)
    (hlimit : (w.setting "max_executions_per_hour").asInt = .error fault) (heq : h = g) :
    Refused g w trigger context h fault
  | limited (limit : Int) (hactive : w.isActive = true)
    (hlimit : (w.setting "max_executions_per_hour").asInt = .ok limit)
    (hfull : (g.limiter.acquire g.now.timestamp w.id limit).1 = false) (heq : h = g) :
    Refused g w trigger context h (.rateLimited w.id (toString limit))
  | unfit (fault : Fault) (hunfit : ¬ Fits w trigger context) (limit : Int)
    (heq : h = { g with limiter := (g.limiter.acquire g.now.timestamp w.id limit).2 }) :
    Refused g w trigger context h fault

end Engine

namespace Work
open Engine Execution

variable {setup : Setup} {w : Workflow} {g : Engine}

theorem acquire_of_false {l : RateLimiter Float} {now : Float} {name : String} {limit : Int}
    (h : (l.acquire now name limit).1 = false) : (l.acquire now name limit).2 = l := by
  unfold RateLimiter.acquire at h ⊢
  dsimp only at h ⊢
  split at h
  · next hfull => rw [if_pos hfull]
  · cases h

theorem countStart_books (hactive : w.isActive = true) (trigger context : Value) (g : Engine) :
    Leads (countStart w) g
      (fun _ h => ∃ limit, (w.setting "max_executions_per_hour").asInt = .ok limit ∧
        (g.limiter.acquire g.now.timestamp w.id limit).1 = true ∧
        h = { g with limiter := (g.limiter.acquire g.now.timestamp w.id limit).2 })
      fun fault h => Refused g w trigger context h fault := by
  refine of_leads (fun limit hlimit => ?_) fun fault hfault => .unclear fault hactive hfault rfl
  refine leads_bind (leads_get ?_)
  rcases hacquire : g.limiter.acquire g.now.timestamp w.id limit with ⟨_ | _, limiter⟩
  · refine leads_bind (leads_set (leads_throw (.limited limit hactive hlimit (by rw [hacquire]) ?_)))
    have hsame := acquire_of_false (congrArg Prod.fst hacquire)
    rw [hacquire] at hsame
    rw [show limiter = g.limiter from hsame]
  · exact leads_bind (leads_set (leads_pure ⟨limit, hlimit, by rw [hacquire], by rw [hacquire]⟩))

theorem newExecution_books (w : Workflow) (trigger context : Value) (g : Engine) :
    Leads (newExecution w trigger context) g
      (fun e h => h = g ∧ e.id = executionId (g.started + 1) ∧ e.workflowId = w.id ∧ e.status = .running ∧
        e.startedAt = g.now ∧ (trigger.orElse (.map [])).asEntries = .ok e.trigger ∧
        (context.orElse (.map [])).asEntries = .ok e.context)
      fun _ h => h = g ∧ ¬ Fits w trigger context := by
  refine of_leads (fun trigger htrigger => ?_) fun _ hfault => ⟨rfl, fun h => refuses hfault h.trigger⟩
  refine of_leads (fun context hcontext => ?_) fun _ hfault => ⟨rfl, fun h => refuses hfault h.context⟩
  refine of_leads (fun vars _ => ?_) fun _ hfault => ⟨rfl, fun h => refuses hfault h.vars⟩
  exact leads_bind (leads_get (leads_pure ⟨rfl, rfl, rfl, rfl, rfl, htrigger, hcontext⟩))

theorem start_books (w : Workflow) (trigger context : Value) (g : Engine) :
    Leads (start setup w trigger context) g (fun e h => Starting g w trigger context e h)
      fun fault h => Refused g w trigger context h fault := by
  unfold start
  split
  · next hinactive => exact leads_throw (.inactive (by simpa using hinactive) rfl)
  · next hactive =>
    have hactive : w.isActive = true := by simpa using hactive
    refine Leads.bind (countStart_books hactive trigger context g) ?_
    rintro _ _ ⟨limit, hlimit, hadmitted, rfl⟩
    refine Leads.bind ((newExecution_books w trigger context _).mono (fun _ _ h => h) ?_) ?_
    · rintro fault _ ⟨rfl, hunfit⟩
      exact .unfit fault hunfit limit rfl
    · rintro e _ ⟨rfl, hid, hworkflow, hstatus, hstarted, htrigger, hcontext⟩
      obtain ⟨logs, hlog⟩ := log_eq e "info" "Workflow execution started"
        (.object [("trigger_type", e.triggerType)])
      rw [note, hlog]
      refine leads_bind (leads_modify (leads_bind (leads_modify (leads_bind (leads_modify ?_)))))
      refine Leads.bind ((publishAt_leads .started _ none _).mono (fun _ _ h => h)
        fun _ _ hfalse => hfalse.elim) ?_
      rintro _ _ rfl
      exact leads_pure ⟨hactive, hid, hworkflow, hstatus, hstarted, htrigger, hcontext,
        ⟨limit, hlimit, hadmitted, rfl⟩, rfl, rfl, rfl⟩

end Work

/-! ## Deeds -/

namespace Engine
open Work

theorem Refused.same {w : Workflow} {trigger context : Value} {g h : Engine} {fault : Fault}
    (hrefused : Refused g w trigger context h fault) : h.memory = g.memory ∧ h.schedule = g.schedule := by
  cases hrefused with
  | inactive _ heq => exact heq ▸ ⟨rfl, rfl⟩
  | unclear _ _ _ heq => exact heq ▸ ⟨rfl, rfl⟩
  | limited _ _ _ _ heq => exact heq ▸ ⟨rfl, rfl⟩
  | unfit _ _ _ heq => exact heq ▸ ⟨rfl, rfl⟩

/-- An execution that is started is a new one. -/
theorem Starting.stored?_eq_none {setup : Setup} {w : Workflow} {trigger context : Value} {e : Execution}
    {g h : Engine} (hg : g.Kept setup) (hstarting : Starting g w trigger context e h) :
    g.stored? e.id = none := by
  cases hstored : g.stored? e.id with
  | none => rfl
  | some kept =>
    obtain ⟨-, n, hn, hid⟩ := hg.ids e.id kept hstored
    have := executionId_inj (hstarting.id_eq.symm.trans hid)
    omega

/-- What an operation does to the books that starts executions, if any, as `Starts` says. -/
inductive Deed (setup : Setup) (Starts : Workflow → Value → Value → Prop) (g h : Engine) : Prop
  | quiet (hbooks : g.SameBooks h)
  | refuse (w : Workflow) (trigger context : Value) (hstarts : Starts w trigger context) (fault : Fault)
    (hrefused : Refused g w trigger context h fault)
  | start (w : Workflow) (trigger context : Value) (hstarts : Starts w trigger context) (e : Execution)
    (g₁ : Engine) (hstarting : Starting g w trigger context e g₁) (hending : Ending setup w e g₁ h)
  | resume (kept : Execution) (hstored : g.stored? kept.id = some kept)
    (hopen : kept.status.isTerminal = false) (w : Workflow)
    (hw : g.memory.workflow? kept.workflowId = some w) (hending : Ending setup w kept g h)
  | close (kept : Execution) (hstored : g.stored? kept.id = some kept)
    (hopen : kept.status.isTerminal = false) (f : Execution) (htask : kept.SameTask f)
    (hbooks : SameBooks { g with memory := g.memory.saveExecution f } h)

/-- What was done before, aside from the books, makes no difference to a deed that starts nothing. -/
theorem Deed.of_books {Starts : Workflow → Value → Value → Prop} {g g₁ h : Engine} (hbooks : g.SameBooks g₁)
    (hnone : ∀ w trigger context, ¬ Starts w trigger context) (hdeed : Deed setup Starts g₁ h) :
    Deed setup Starts g h := by
  cases hdeed with
  | quiet hsame => exact .quiet (trans_of SameBooks hbooks hsame)
  | refuse w trigger context hstarts => exact absurd hstarts (hnone w trigger context)
  | start w trigger context hstarts => exact absurd hstarts (hnone w trigger context)
  | resume kept hstored hopen w hw hending =>
    rw [stored?, hbooks.memory] at hstored
    rw [hbooks.memory] at hw
    exact .resume kept hstored hopen w hw (hending.of_books hbooks)
  | close kept hstored hopen f htask hsame =>
    rw [stored?, hbooks.memory] at hstored
    refine .close kept hstored hopen f htask ⟨?_, hsame.schedule.trans hbooks.schedule,
      hsame.limiter.trans hbooks.limiter, hsame.started.trans hbooks.started⟩
    rw [hsame.memory, hbooks.memory]

end Engine

/-- A payload runs the workflow that is kept under an id. -/
structure Value.Runs (payload : Value) (id : String) (trigger context : Value) : Prop where
  eq : ∃ entries, payload = .map entries ∧
    Entries.get? entries (.str "action") = some (.str "execute_workflow") ∧
    Entries.get? entries (.str "workflow_id") = some (.str id) ∧
    trigger = (Entries.get? entries (.str "trigger_data")).getD .null ∧
    context = (Entries.get? entries (.str "context")).getD .null

theorem Work.runs_retryPayload {w : Workflow} {e : Execution} {retries : Int} {id : String}
    {trigger context : Value} : (Work.retryPayload w e retries).Runs id trigger context ↔
      id = w.id ∧ trigger = .map e.trigger ∧
        context = .map (Entries.insert e.context (.str "retry_count") (.int retries)) := by
  constructor
  · rintro ⟨entries, hentries, -, hid, rfl, rfl⟩
    obtain rfl := Value.map.inj hentries
    have hown : Entries.get? [(.str "action", .str "execute_workflow"), (.str "workflow_id", .str w.id),
      (.str "trigger_data", .map e.trigger), (.str "context", .map (Entries.insert e.context
        (.str "retry_count") (.int retries)))] (.str "workflow_id") = some (Value.str w.id) := rfl
    have hsame := hown.symm.trans hid
    simp at hsame
    exact ⟨hsame.symm, rfl, rfl⟩
  · rintro ⟨rfl, rfl, rfl⟩
    exact ⟨_, rfl, rfl, rfl, rfl, rfl⟩

/-- An operation that may start an execution of a workflow. -/
inductive Operation.Starts (g : Engine) : Operation → Workflow → Value → Value → Prop
  | execute (w : Workflow) (trigger context : Value) :
    Starts g (.execute w trigger context) w trigger context
  | executeById (id : String) (w : Workflow) (hw : g.memory.workflow? id = some w) (trigger context : Value) :
    Starts g (.executeById id trigger context) w trigger context
  | runJob (payload : Value) (id : String) (w : Workflow) (hw : g.memory.workflow? id = some w)
    (trigger context : Value) (hruns : payload.Runs id trigger context) :
    Starts g (.runJob payload) w trigger context

namespace Work
open Engine Execution

variable {setup : Setup} {w : Workflow} {g : Engine} {kept : Execution}
  {Starts : Workflow → Value → Value → Prop}

/-- A computation that does one deed, whether it fails or not. -/
abbrev Does {α : Type} (setup : Setup) (Starts : Workflow → Value → Value → Prop) (g : Engine) (m : Work α) :
    Prop :=
  Leads m g (fun _ h => Deed setup Starts g h) fun _ h => Deed setup Starts g h

theorem execute_does {trigger context : Value} (hstarts : Starts w trigger context) :
    Does setup Starts g (execute setup w trigger context) := by
  refine Leads.bind ((start_books w trigger context g).mono (fun _ _ h => h) ?_) ?_
  · exact fun fault h hrefused => .refuse w trigger context hstarts fault hrefused
  · intro e g₁ hstarting
    refine (runSegment_books w e w.startNodes g₁).mono ?_ ?_
    · exact fun _ h hending => .start w trigger context hstarts e g₁ hstarting hending
    · exact fun _ h hending => .start w trigger context hstarts e g₁ hstarting hending

theorem executeById_does {id : String} {trigger context : Value}
    (hstarts : ∀ w, g.memory.workflow? id = some w → Starts w trigger context) :
    Does setup Starts g (executeById setup id trigger context) := by
  refine leads_bind (leads_bind (leads_get (leads_pure ?_)))
  cases hw : g.memory.workflow? id with
  | none => exact leads_throw (.quiet (.refl g))
  | some w => exact execute_does (hstarts w hw)

theorem close_does (hstored : g.stored? kept.id = some kept) (hopen : kept.status.isTerminal = false)
    {kind : EventKind} {f : Execution} (htask : kept.SameTask f) :
    Leads (settle setup kind f) g (fun _ h => Deed setup Starts g h) fun _ _ => False := by
  refine (settle_books kind f g).mono ?_ fun _ _ hfalse => hfalse
  exact fun _ h ⟨_, hbooks⟩ => .close kept hstored hopen f htask hbooks

theorem endCancelled_does (hstored : g.stored? kept.id = some kept) (hopen : kept.status.isTerminal = false)
    {f : Execution} (htask : kept.SameTask f) :
    Leads (endCancelled setup f) g (fun _ h => Deed setup Starts g h) fun _ _ => False := by
  refine leads_bind (leads_bind (leads_get (leads_pure ?_)))
  refine close_does hstored hopen (SameTask.note (htask.trans ?_) ..)
  exact ⟨rfl, rfl, rfl, rfl, rfl⟩

theorem failResume_does (hstored : g.stored? kept.id = some kept) (hopen : kept.status.isTerminal = false)
    (node reason : String) :
    Leads (failResume setup kept.reloaded node reason) g (fun _ h => Deed setup Starts g h)
      fun _ _ => False := by
  refine leads_bind (leads_bind (leads_get (leads_pure ?_)))
  refine close_does hstored hopen (SameTask.note ?_ ..)
  exact ⟨rfl, rfl, rfl, rfl, rfl⟩

theorem resumeAt_does (hstored : g.stored? kept.id = some kept) (hopen : kept.status.isTerminal = false)
    (hw : g.memory.workflow? kept.workflowId = some w) (n : Node) :
    Does setup Starts g (resumeAt setup w kept.reloaded n) := by
  have hreopen : Leads (reopen setup w kept.reloaded n) g (fun r h => kept.SameTask r.1 ∧ g.SameBooks h)
      fun _ h => Deed setup Starts g h := by
    refine of_leads (fun owner? _ => ?_) fun _ _ => .quiet (.refl g)
    refine leads_bind (leads_modify ?_)
    refine Leads.bind ((publishAt_leads .resumed _ (some n.id) _).mono (fun _ _ h => h)
      fun _ _ hfalse => hfalse.elim) ?_
    rintro _ _ rfl
    refine leads_pure ⟨SameTask.note ?_ .., rfl, rfl, rfl, rfl⟩
    exact ⟨rfl, rfl, rfl, rfl, rfl⟩
  refine Leads.bind hreopen ?_
  rintro ⟨e, start⟩ g₁ ⟨htask, hbooks⟩
  have resumed {h : Engine} (hending : Ending setup w e g₁ h) : Deed setup Starts g h :=
    .resume kept hstored hopen w hw ((hending.of_task htask).of_books hbooks)
  exact (runSegment_books w e [start] g₁).mono (fun _ _ => resumed) fun _ _ => resumed

theorem resumeLoaded_does (hstored : g.stored? kept.id = some kept) (node : String) :
    Does setup Starts g (resumeLoaded setup kept.reloaded node) := by
  unfold resumeLoaded
  split
  · exact leads_pure (.quiet (.refl g))
  · next hidle =>
    have hresumable : kept.reloaded.status.isResumable = true := by
      have hboth := (Bool.or_eq_false_iff.1 (Bool.eq_false_iff.2 hidle)).1
      simpa using hboth
    have hopen := ExecutionStatus.not_isTerminal_of_isResumable hresumable
    have closed (reason : String) : Does setup Starts g (do
        let f ← failResume setup kept.reloaded node reason
        return some f) := by
      have hfail : Leads (failResume setup kept.reloaded node reason) g (fun _ h => Deed setup Starts g h)
          fun _ _ => False := failResume_does hstored hopen node reason
      exact Leads.bind hfail.of_total fun _ _ hdeed => leads_pure hdeed
    refine leads_bind (leads_bind (leads_get (leads_pure ?_)))
    cases hw : g.memory.workflow? kept.reloaded.workflowId with
    | none => exact closed _
    | some w =>
      dsimp only
      cases w.node? node with
      | none => exact closed _
      | some n =>
        refine Leads.bind (resumeAt_does hstored hopen hw n) ?_
        exact fun _ _ hdeed => leads_pure hdeed

theorem resume_does (hg : g.Kept setup) (id node : String) : Does setup Starts g (resume setup id node) := by
  refine leads_bind (execution?_leads ?_)
  cases hstored : g.stored? id with
  | none => exact leads_pure (.quiet (.refl g))
  | some kept =>
    obtain rfl := (hg.ids id kept hstored).1
    exact resumeLoaded_does hstored node

theorem cancel_does (hg : g.Kept setup) (id : String) : Does setup Starts g (cancel setup id) := by
  refine leads_bind (execution?_leads ?_)
  cases hstored : g.stored? id with
  | none => exact leads_pure (.quiet (.refl g))
  | some kept =>
    dsimp only [Option.map_some]
    split
    · exact leads_pure (.quiet (.refl g))
    · next hopen =>
      obtain rfl := (hg.ids id kept hstored).1
      have htask : kept.SameTask { kept.reloaded with status := .cancelled } :=
        (sameTask_reloaded kept).trans ⟨rfl, rfl, rfl, rfl, rfl⟩
      have hend : Leads (endCancelled setup { kept.reloaded with status := .cancelled }) g
          (fun _ h => Deed setup Starts g h) fun _ _ => False :=
        endCancelled_does hstored (Bool.eq_false_iff.2 hopen) htask
      exact Leads.bind hend.of_total fun _ _ hdeed => leads_pure hdeed

theorem get?_of_asId {entries : List (Scalar × Value)} {key id : String} {v : Value}
    (hv : requiredEntry entries key = .ok v) (hid : asId? v = .ok (some id)) :
    Entries.get? entries (.str key) = some (.str id) := by
  have heq : v = .str id := by
    unfold asId? at hid
    split at hid
    · obtain rfl := Option.some.inj (Except.ok.inj hid)
      rfl
    · cases Except.ok.inj hid
    · cases hid
  unfold requiredEntry at hv
  split at hv
  · next hget => rw [hget, Except.ok.inj hv, heq]
  · cases hv

theorem runJob_does (hg : g.Kept setup) {payload : Value}
    (hstarts : ∀ id w trigger context, payload.Runs id trigger context → g.memory.workflow? id = some w →
      Starts w trigger context) : Does setup Starts g (runJob setup payload) := by
  have hquiet : Deed setup Starts g g := .quiet (.refl g)
  unfold runJob
  split
  · next entries =>
    split
    · refine of_leads (fun id _ => ?_) fun _ _ => hquiet
      refine of_leads (fun node _ => ?_) fun _ _ => hquiet
      refine of_leads (fun id? _ => ?_) fun _ _ => hquiet
      cases id? with
      | none => exact leads_pure hquiet
      | some id =>
        refine leads_bind (execution?_leads ?_)
        cases hstored : g.stored? id with
        | none => exact leads_pure hquiet
        | some kept =>
          dsimp only [Option.map_some]
          split
          · exact leads_pure hquiet
          · refine of_leads (fun node? _ => ?_) fun _ _ => hquiet
            cases node? with
            | none => exact leads_pure hquiet
            | some node =>
              obtain rfl := (hg.ids id kept hstored).1
              exact resumeLoaded_does hstored node
    · next haction =>
      refine of_leads (fun v hv => ?_) fun _ _ => hquiet
      refine of_leads (fun id? hid => ?_) fun _ _ => hquiet
      cases id? with
      | none => exact leads_throw hquiet
      | some id =>
        have hv : Entries.get? entries (.str "workflow_id") = some (.str id) := get?_of_asId hv hid
        refine Leads.bind (executeById_does fun w hw => ?_) fun _ _ hdeed => leads_pure hdeed
        exact hstarts id w _ _ ⟨entries, rfl, haction, hv, rfl, rfl⟩ hw
    · exact leads_pure hquiet
  · exact leads_throw hquiet

end Work

namespace Engine
open Work

variable {setup : Setup} {g : Engine}

/-- An operation by which no jobs are taken from the schedule does one deed. -/
theorem after_deed (hg : g.Kept setup) (op : Operation) :
    Deed setup (op.Starts g) g (g.after setup op) ∨ (∃ time, op = .runDue time) ∨
      ∃ time, op = .takeDue time := by
  cases op with
  | execute w trigger context => exact .inl (execute_does (.execute w trigger context)).state
  | executeById id trigger context =>
    exact .inl (executeById_does fun w hw => .executeById id w hw trigger context).state
  | resume id node => exact .inl (resume_does hg id node).state
  | deliverSignal id node payload =>
    have hput : Kept setup { g with signals := g.signals.put id node payload } := hg.of_memory rfl rfl
    have hbooks : g.SameBooks { g with signals := g.signals.put id node payload } := ⟨rfl, rfl, rfl, rfl⟩
    exact .inl (.of_books hbooks nofun (resume_does hput id node).state)
  | cancel id => exact .inl (cancel_does hg id).state
  | runJob payload =>
    exact .inl (runJob_does hg fun id w trigger context hruns hw =>
      .runJob payload id w hw trigger context hruns).state
  | setClock now => exact .inl (.quiet ⟨rfl, rfl, rfl, rfl⟩)
  | runDue time => exact .inr (.inl ⟨time, rfl⟩)
  | takeDue time => exact .inr (.inr ⟨time, rfl⟩)

theorem deliver_deed (hg : g.Kept setup) (job : Job Float Value) :
    Deed setup ((Operation.runJob job.payload).Starts g) g (g.deliver setup job) :=
  (runJob_does hg fun id w trigger context hruns hw =>
    .runJob job.payload id w hw trigger context hruns).state

end Engine

/-! ## Chronicles

A chronicle lists the episodes of a history: operations, and where jobs that are due are run, the delivery of each
of them. `Unfolds` follows a chronicle from one engine to another one; the jobs that were taken and are not
delivered yet are in hand meanwhile. -/

/-- A part of a history. -/
structure Episode where
  before : Engine
  after : Engine
  /-- The job that is delivered, where it is a delivery. -/
  job? : Option (Job Float Value)

namespace Engine

/-- The deliveries of some jobs, one after the other. -/
def deliveries (setup : Setup) : Engine → List (Job Float Value) → List Episode
  | _, [] => []
  | g, job :: rest => ⟨g, g.deliver setup job, some job⟩ :: deliveries setup (g.deliver setup job) rest

def episodes (setup : Setup) (g : Engine) : Operation → List Episode
  | .runDue time => ⟨g, g.takeDue time, none⟩ :: deliveries setup (g.takeDue time) (g.schedule.takeDue time).1
  | op => [⟨g, g.after setup op, none⟩]

def chronicle (setup : Setup) : Engine → List Operation → List Episode
  | _, [] => []
  | g, op :: rest => episodes setup g op ++ chronicle setup (g.after setup op) rest

/-- A chronicle leads from an engine, with jobs in hand, to another one. -/
inductive Unfolds (setup : Setup) (allowed : Operation → Prop) :
    Engine → List (Job Float Value) → List Episode → Engine → Prop
  | nil (g : Engine) : Unfolds setup allowed g [] [] g
  | deed {g h : Engine} {rest : List Episode} (op : Operation) (hg : g.Kept setup) (hallowed : allowed op)
    (hdeed : Deed setup (op.Starts g) g (g.after setup op))
    (hrest : Unfolds setup allowed (g.after setup op) [] rest h) :
    Unfolds setup allowed g [] (⟨g, g.after setup op, none⟩ :: rest) h
  | drop {g h : Engine} {rest : List Episode} (time : Float)
    (hrest : Unfolds setup allowed (g.takeDue time) [] rest h) :
    Unfolds setup allowed g [] (⟨g, g.takeDue time, none⟩ :: rest) h
  | take {g h : Engine} {rest : List Episode} (time : Float)
    (hrest : Unfolds setup allowed (g.takeDue time) (g.schedule.takeDue time).1 rest h) :
    Unfolds setup allowed g [] (⟨g, g.takeDue time, none⟩ :: rest) h
  | deliver {g h : Engine} {hand : List (Job Float Value)} {rest : List Episode} (job : Job Float Value)
    (hg : g.Kept setup)
    (hdeed : Deed setup ((Operation.runJob job.payload).Starts g) g (g.deliver setup job))
    (hrest : Unfolds setup allowed (g.deliver setup job) hand rest h) :
    Unfolds setup allowed g (job :: hand) (⟨g, g.deliver setup job, some job⟩ :: rest) h

variable {setup : Setup} {allowed : Operation → Prop} {g h : Engine}

theorem unfolds_deliveries (hg : g.Kept setup) {hand : List (Job Float Value)} {rest : List Episode}
    (hrest : Unfolds setup allowed (hand.foldl (deliver setup) g) [] rest h) :
    Unfolds setup allowed g hand (deliveries setup g hand ++ rest) h := by
  induction hand generalizing g with
  | nil => exact hrest
  | cons job hand ih =>
    have hkept : (g.deliver setup job).Kept setup := (deliver_moves hg job).kept hg
    exact .deliver job hg (deliver_deed hg job) (ih hkept hrest)

theorem unfolds_chronicle (hg : g.Kept setup) {ops : List Operation} (hops : ∀ op ∈ ops, allowed op) :
    Unfolds setup allowed g [] (chronicle setup g ops) (g.run setup ops) := by
  induction ops generalizing g with
  | nil => exact .nil g
  | cons op rest ih =>
    have hallowed : allowed op := hops op (by simp)
    have hrest := ih ((after_steps hg op).kept hg) fun op' hop' => hops op' (by simp [hop'])
    rw [chronicle]
    cases op with
    | runDue time =>
      rw [episodes, List.cons_append]
      have htaken : (g.takeDue time).Kept setup := hg.of_memory rfl rfl
      exact .take time (unfolds_deliveries htaken hrest)
    | takeDue time => exact .drop time hrest
    | _ =>
      refine .deed _ hg hallowed ?_ hrest
      obtain hdeed | ⟨_, hop⟩ | ⟨_, hop⟩ := after_deed hg _
      · exact hdeed
      · cases hop
      · cases hop

end Engine

end Flowline
