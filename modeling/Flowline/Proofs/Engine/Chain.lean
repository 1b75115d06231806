import Flowline.Proofs.Engine.Deadlines
import Flowline.Proofs.Engine.Moves
import Flowline.Proofs.Engine.Wakeup
import Flowline.Proofs.Walk.Chain

/-! # Executions of chains

The execution of a chain goes from one delay that waits to the next: at each of them it is paused, with one job
that resumes it there, until no delay is left that waits. All that time it stays on its course. -/

namespace Flowline
open Execution Engine

variable {setup : Setup} {w : Workflow} {c : ChainCourse} {e f : Execution} {g h : Engine} {services : Services}

/-! ## Jobs for delays -/

theorem Output.grow_of_growing_nil {o : Output} (ho : o.growing = []) (n : Nat) (key : String) (v : Value) :
    o.grow n key v = o := by
  obtain ⟨value, growing⟩ := o
  subst ho
  rfl

/-- An entry that is added to the output of a node leaves other outputs alone that do not grow. -/
theorem Execution.state?_growOutput_of_growing_nil {x y : String} (hne : y ≠ x)
    (hfixed : ∀ st, e.state? y = some st → st.output.growing = []) (key : String) (v : Value) :
    (e.growOutput x key v).state? y = e.state? y := by
  rw [state?_growOutput]
  cases hst : e.state? y with
  | none => rfl
  | some st =>
    have hgrown : e.grown x key v y st.output = st.output := by
      unfold grown
      split
      · rfl
      · split
        · exact Output.grow_of_growing_nil (hfixed st hst) _ key v
        · rw [if_neg hne]
    rw [Option.map_some, hgrown]

/-- The delay goes on waiting when the job that resumes it is entered. -/
theorem Execution.WaitsAt.growOutput {actions : Actions} {d : Node} {rest : List Node} {T : Float}
    (hsound : e.Sound actions) (hwaits : e.WaitsAt services w c d rest T) (hd : d ∈ w.nodes) (job : String) :
    (e.growOutput d.id "resume_job_id" (.str job)).WaitsAt services w c d rest T := by
  have hothers (x : String) (hne : x ≠ d.id) :
      (e.growOutput d.id "resume_job_id" (.str job)).state? x = e.state? x :=
    state?_growOutput_of_growing_nil hne (fun st hst => (hwaits.on.through x (by simpa using hne) st hst).2) _ _
  obtain ⟨states, heq⟩ := growOutput_eq e d.id "resume_job_id" (.str job)
  obtain ⟨seconds, st, hseconds, hpos, hst, hawaits⟩ := hwaits.awaits
  have hpending : e.Pending actions d.id (Node.deadlineEntries .delay seconds (.float T)) :=
    ⟨hsound, st, hst, hawaits⟩
  obtain ⟨-, st', hst', hawaits'⟩ := hpending.growOutput (.str job)
    (show "resume_job_id" ∉ Output.timeKeys by decide) (Node.keepable_deadlineEntries .delay seconds T).2.2
  refine ⟨hwaits.isDelay, ⟨?_, fun x hx => ?_, fun x hx => ?_⟩, ⟨seconds, st', hseconds, hpos, hst', hawaits'⟩, ?_⟩
  · rw [heq]
    exact hwaits.on.vars_eq
  · rw [hothers x (hx d hd hwaits.isDelay).symm]
    exact hwaits.on.state?_eq x hx
  · rw [hothers x (by simpa using hx)]
    exact hwaits.on.through x hx
  · intro n hn
    rw [state?_growOutput, hwaits.ahead n hn]
    rfl

/-! ## Ends of segments -/

namespace Work

/-- An execution is kept as it stands at the end of a segment, with what its nodes have done. -/
structure Concludes (g : Engine) (e : Execution) (status : ExecutionStatus) (f : Execution) (h : Engine) : Prop where
  nodes : SameNodes e f
  vars_eq : f.vars = e.vars
  status_eq : f.status = status
  memory : h.memory = g.memory.saveExecution f
  schedule : h.schedule = g.schedule

theorem settle_concludes (kind : EventKind) {f' : Execution} (hnodes : SameNodes e f) (hvars : f.vars = e.vars)
    (level message : String) (details : List (String × Value)) (hf : f' = f.note level message details) :
    Leads (settle setup kind f') g (Concludes g e f.status) fun _ _ => False := by
  subst hf
  obtain ⟨logs, hlog⟩ := log_eq f level message (.object details)
  refine leads_bind (leads_modify ?_)
  refine Leads.bind (publishAt_leads kind _ none _) ?_
  rintro _ h rfl
  refine leads_pure ⟨hnodes.trans (noted_note f level message details).nodes, ?_, ?_, rfl, rfl⟩
  · rw [note, hlog]
    exact hvars
  · rw [note, hlog]

theorem pendingResumes_of_on {actions : Actions} {waiting : List String} (hsound : e.Sound actions)
    (hon : e.On services w c waiting) {x : String} (hx : x ∈ e.pendingResumes.keys) : x ∈ waiting := by
  obtain ⟨st, hst, hresume⟩ := (mem_pendingResumes hsound).1 hx
  refine Decidable.byContradiction fun hnot => ?_
  exact (hon.through x hnot st hst).1 (NodeState.waiting_of_resumeAt? hresume)

theorem conclude_through {actions : Actions} {walk : Walk} (hsound : e.Sound actions)
    (hgoing : e.status ≠ .cancelled) (hidle : walk.suspended = []) (hon : e.On services w c []) :
    Leads (conclude setup w e (.ok walk)) g (Concludes g e .completed) fun _ _ => False := by
  have hnone : e.pendingResumes = [] := by
    have hkeys : e.pendingResumes.keys = [] :=
      List.eq_nil_iff_forall_not_mem.2 fun x hx => absurd (pendingResumes_of_on hsound hon hx) List.not_mem_nil
    exact List.map_eq_nil_iff.1 hkeys
  have hschedule : scheduleResumes setup w walk.suspended.keys e = pure e := by
    unfold scheduleResumes
    rw [hidle, hnone]
    rfl
  unfold conclude
  rw [if_neg fun h => hgoing (beq_iff_eq.1 h)]
  dsimp only
  rw [hschedule]
  refine leads_bind (leads_pure ?_)
  rw [if_pos (by rw [hnone]; rfl)]
  refine leads_bind (leads_bind (leads_get (leads_pure ?_)))
  exact settle_concludes .completed (f := { e with status := .completed, completedAt? := some g.now })
    ⟨rfl, rfl, rfl, rfl⟩ rfl _ _ _ rfl

/-- A delay that waits is given a job for its time. -/
theorem scheduleResume_waiting {d : Node} {rest : List Node} {T : Float} (hsound : e.Sound setup.actions)
    (hopen : setup.refusal? = none) (hd : d ∈ w.nodes) (hwaits : e.WaitsAt services w c d rest T)
    (hjobs : g.schedule.jobs = []) :
    Leads (scheduleResume setup w [d.id] e d.id) g
      (fun f h => SameRun e f ∧ f.Sound setup.actions ∧ f.WaitsAt services w c d rest T ∧ h.memory = g.memory ∧
        ∃ j : Job Float Value, h.schedule.jobs = [j] ∧ j.runAt = T ∧ j.payload = resumePayload e d.id)
      fun _ _ => False := by
  obtain ⟨seconds, st, -, -, hst, hawaits⟩ := hwaits.awaits
  have hentry : st.output.entry "resume_at" = .float T := by
    rw [Output.entry, hawaits.shows ("resume_at", .float T) (List.mem_cons_self ..)]
    rfl
  unfold scheduleResume
  rw [hst]
  dsimp only
  rw [hawaits.status, hentry, if_neg (by decide), if_neg (by simp)]
  refine leads_bind ?_
  unfold schedule
  rw [hopen]
  refine leads_bind (leads_pure (leads_bind (leads_get (leads_bind (leads_set (leads_pure ?_))))))
  generalize Job.id _ = job
  have hgrown := hwaits.growOutput hsound hd job
  have hgrownSound : (e.growOutput d.id "resume_job_id" (.str job)).Sound setup.actions :=
    hsound.growOutput d.id fun hmem => absurd hmem (by decide)
  obtain ⟨states, hstates⟩ := growOutput_eq e d.id "resume_job_id" (.str job)
  have hnoted := noted_note (e.growOutput d.id "resume_job_id" (.str job)) "info" "Resume scheduled"
    [("node_id", .str d.id), ("resume_at", .float T), ("job_id", .str job)]
  obtain ⟨logs, hlog⟩ := log_eq (e.growOutput d.id "resume_job_id" (.str job)) "info" "Resume scheduled"
    (.object [("node_id", .str d.id), ("resume_at", .float T), ("job_id", .str job)])
  refine leads_pure ⟨⟨?_, ?_, ?_⟩, hnoted.nodes.sound hgrownSound, hgrown.of_eq ?_ hnoted.nodes.state?, rfl, ?_⟩
  · rw [hnoted.nodes.id_eq, hstates]
  · rw [hnoted.nodes.workflowId_eq, hstates]
  · rw [hnoted.status_eq, hstates]
  · rw [note, hlog]
  · refine ⟨⟨g.schedule.count + 1, T, resumePayload e d.id⟩, ?_, rfl, rfl⟩
    dsimp only [Schedule.add]
    rw [hjobs]
    rfl

/-- An execution of which a delay waits is paused, and the job for that delay is the only one. -/
theorem conclude_waiting {walk : Walk} {d : Node} {rest : List Node} {T : Float}
    (hsound : e.Sound setup.actions) (hopen : setup.refusal? = none) (hgoing : e.status ≠ .cancelled)
    (hsuspended : walk.suspended.keys = [d.id]) (hd : d ∈ w.nodes) (hwaits : e.WaitsAt services w c d rest T)
    (hjobs : g.schedule.jobs = []) :
    Leads (conclude setup w e (.ok walk)) g
      (fun f h => f.status = .paused ∧ f.id = e.id ∧ f.workflowId = e.workflowId ∧ f.Sound setup.actions ∧
        f.WaitsAt services w c d rest T ∧ h.memory = g.memory.saveExecution f ∧
        ∃ j : Job Float Value, h.schedule.jobs = [j] ∧ j.runAt = T ∧ j.payload = resumePayload e d.id)
      fun _ _ => False := by
  have hothers : e.pendingResumes.keys.filter (fun x => !walk.suspended.keys.contains x) = [] := by
    refine List.filter_eq_nil_iff.2 fun x hx => ?_
    rw [hsuspended, List.contains_iff_mem.2 (pendingResumes_of_on hsound hwaits.on hx)]
    exact Bool.false_ne_true
  have hschedule : scheduleResumes setup w walk.suspended.keys e = scheduleResume setup w [d.id] e d.id := by
    unfold scheduleResumes
    dsimp only
    rw [hothers, List.append_nil, hsuspended, List.foldlM_cons]
    exact bind_pure _
  unfold conclude
  rw [if_neg fun h => hgoing (beq_iff_eq.1 h)]
  dsimp only
  rw [hschedule]
  refine Leads.bind (scheduleResume_waiting hsound hopen hd hwaits hjobs) ?_
  rintro f h ⟨hsame, hsound', hwaits', hmemory, hjob⟩
  obtain ⟨seconds, st, -, -, hst, hawaits⟩ := hwaits'.awaits
  have hresume : st.resumeAt?.isSome = true := by
    have hentry : st.output.entry "resume_at" = .float T := by
      rw [Output.entry, hawaits.shows ("resume_at", .float T) (List.mem_cons_self ..)]
      rfl
    rw [NodeState.resumeAt?, hawaits.status, hentry]
    rfl
  have hpending : f.pendingResumes.isEmpty = false := by
    have hmem := (mem_pendingResumes hsound').2 ⟨st, hst, hresume⟩
    cases hnone : f.pendingResumes with
    | nil =>
      rw [hnone] at hmem
      cases hmem
    | cons => rfl
  rw [if_neg (by rw [hpending]; exact Bool.false_ne_true)]
  refine (settle_concludes .paused (f := { f with status := .paused }) ⟨rfl, rfl, rfl, rfl⟩ rfl _ _ _ rfl).mono ?_
    fun _ _ hfalse => hfalse
  intro f' h' hconcludes
  refine ⟨hconcludes.status_eq, hconcludes.nodes.id_eq.trans hsame.id_eq,
    hconcludes.nodes.workflowId_eq.trans hsame.workflowId_eq, hconcludes.nodes.sound (hsound'.of_eq rfl rfl),
    hwaits'.of_eq hconcludes.vars_eq hconcludes.nodes.state?, ?_, ?_⟩
  · rw [hconcludes.memory, hmemory]
  · rw [hconcludes.schedule]
    exact hjob

end Work

/-! ## Segments -/

/-- Where the execution of a chain stands between its segments: it is completed, or paused at a delay, with
some delays ahead. -/
inductive Engine.Stage (setup : Setup) (w : Workflow) (total : ChainCourse) (id : String) (g : Engine) : Nat → Prop
  | completed (e : Execution) (hstored : g.stored? id = some e) (hstatus : e.status = .completed)
    (hon : e.On (setup.services 0) w total []) (hjobs : g.schedule.jobs = []) : Stage setup w total id g 0
  | paused (e : Execution) (hstored : g.stored? id = some e) (hstatus : e.status = .paused)
    (hworkflow : e.workflowId = w.id) (c : ChainCourse) (d : Node) (rest : List Node) (T : Float)
    (hrow : w.Chained (setup.services 0) (d :: rest))
    (hlength : ((d :: rest).length : Int) ≤ setup.config.maxIterations)
    (halong : c.along (setup.services 0) rest = some total) (hmeasured : c.Measured (setup.services 0) rest)
    (hwaits : e.WaitsAt (setup.services 0) w c d rest T) (j : Job Float Value) (hjobs : g.schedule.jobs = [j]) (hrunAt : j.runAt = T)
    (hpayload : j.payload = Work.resumePayload e d.id) :
    Stage setup w total id g (Node.delays (setup.services 0) (d :: rest))

theorem Engine.Stage.of_eq {total : ChainCourse} {id : String} {n : Nat} (hstage : g.Stage setup w total id n)
    (hmemory : h.memory = g.memory) (hschedule : h.schedule = g.schedule) : h.Stage setup w total id n := by
  have hstored (x : String) : h.stored? x = g.stored? x := stored?_of_memory hmemory x
  cases hstage with
  | completed e he hstatus hon hjobs =>
    exact .completed e ((hstored id).trans he) hstatus hon (hschedule ▸ hjobs)
  | paused e he hstatus hworkflow c d rest T hrow hlength halong hmeasured hwaits j hjobs hrunAt hpayload =>
    exact .paused e ((hstored id).trans he) hstatus hworkflow c d rest T hrow hlength halong hmeasured hwaits j
      (hschedule ▸ hjobs) hrunAt hpayload

/-- A walk was not timed out. -/
def Passage.InTime (p : Passage) : Prop := ∀ text, p.result ≠ .error (.timedOut text)

namespace Work

/-- A segment ends as its walk is settled. -/
theorem leads_runSegment {starts : List Node} {p : Passage} (hp : p = passage setup w e starts g)
    {ok : Execution → Engine → Prop} {fails : Fault → Engine → Prop}
    (hconclude : ∀ g₁ : Engine, g₁.memory = g.memory → g₁.schedule = g.schedule →
      Leads (conclude setup p.workflow p.after p.result) g₁ ok fails)
    (hok : ∀ f h running, ok f h → ok f { h with running := running })
    (hfails : ∀ fault h running, fails fault h → fails fault { h with running := running }) :
    Leads (runSegment setup w e starts) g ok fails := by
  have hwalk : Leads (walk setup w e starts) g
      (fun q h => q = p ∧ h.memory = g.memory ∧ h.schedule = g.schedule) fun _ _ => False :=
    ⟨hp.symm, rfl, rfl⟩
  refine leads_bind (hwalk.mono ?_ fun _ _ hfalse => hfalse.elim)
  rintro q g₁ ⟨rfl, hmemory, hschedule⟩
  refine leads_bind (leads_attempt ?_)
  have hw : q.workflow = w := by rw [hp]; rfl
  rw [← hw]
  refine (hconclude g₁ hmemory hschedule).mono ?_ ?_
  · exact fun f h hf => leads_bind (leads_modify (leads_pure (hok f h _ hf)))
  · exact fun fault h hfault => leads_bind (leads_modify (leads_throw (hfails fault h _ hfault)))

/-- A walk along a chain leaves the execution completed, or paused at a delay. -/
theorem conclude_stage {total : ChainCourse} {row : List Node} {walk : Walk} (hsound : e.Sound setup.actions)
    (hopen : setup.refusal? = none) (hgoing : e.status ≠ .cancelled) (hworkflow : e.workflowId = w.id)
    (hjobs : g.schedule.jobs = []) (hrow : w.Chained (setup.services 0) row)
    (hlength : (row.length : Int) ≤ setup.config.maxIterations)
    (halong : c.along (setup.services 0) row = some total) (hmeasured : c.Measured (setup.services 0) row)
    (hstops : c.Stops (setup.services 0) w row walk e) :
    Leads (conclude setup w e (.ok walk)) g
      (fun f h => f.id = e.id ∧ ∃ n ≤ Node.delays (setup.services 0) row, h.Stage setup w total e.id n)
      fun _ _ => False := by
  cases hstops with
  | done c' halong' hidle hon =>
    obtain rfl := Option.some.inj (halong.symm.trans halong')
    refine (conclude_through hsound hgoing hidle hon).mono ?_ fun _ _ h => h
    intro f h hconcludes
    have hid : f.id = e.id := hconcludes.nodes.id_eq
    refine ⟨hid, 0, Nat.zero_le _, .completed f ?_ hconcludes.status_eq ?_ ?_⟩
    · rw [stored?_save hconcludes.memory, if_pos hid.symm]
    · exact hon.of_eq hconcludes.vars_eq hconcludes.nodes.state?
    · rw [hconcludes.schedule, hjobs]
  | waits before d rest hbefore c' halong' hsuspended T hwaits =>
    subst hbefore
    have hd : d ∈ w.nodes := List.mem_of_find?_eq_some (hrow.suffix.known d (List.mem_cons_self ..))
    refine (conclude_waiting hsound hopen hgoing hsuspended hd hwaits hjobs).mono ?_ fun _ _ h => h
    intro f h ⟨hstatus, hid, hworkflow', _, hwaits', hmemory, j, hjobs', hrunAt, hpayload⟩
    refine ⟨hid, _, Node.delays_le_append before (d :: rest), ?_⟩
    have hstep : c'.step (setup.services 0) d = some c' := ChainCourse.step_delay hwaits.isDelay
    refine .paused f ?_ hstatus ?_ c' d rest T hrow.suffix ?_ ?_ ((hmeasured.suffix halong').tail hstep) hwaits' j
      hjobs' hrunAt ?_
    · rw [stored?_save hmemory, if_pos hid.symm]
    · rw [hworkflow', hworkflow]
    · rw [List.length_append] at hlength
      omega
    · rw [ChainCourse.along_append, halong'] at halong
      change c'.along (setup.services 0) (d :: rest) = some total at halong
      rw [ChainCourse.along_cons, hstep] at halong
      exact halong
    · rw [hpayload, resumePayload, resumePayload, hid]

/-- A segment whose walk along a chain is not timed out comes to the next stage. -/
theorem runSegment_stage {total : ChainCourse} {row starts : List Node} {p : Passage}
    (hsound : e.Sound setup.actions) (hopen : setup.refusal? = none) (hp : p = passage setup w e starts g)
    (hstatus : e.status = .running) (hworkflow : e.workflowId = w.id) (hjobs : g.schedule.jobs = [])
    (hrow : w.Chained (setup.services 0) row) (hlength : (row.length : Int) ≤ setup.config.maxIterations)
    (halong : c.along (setup.services 0) row = some total) (hmeasured : c.Measured (setup.services 0) row)
    (hwalk : Leads (Walk.run
      (Node.dispatch (setup.services g.running.length) w (Node.nestingLimit w)) w setup.config.maxIterations starts)
      (g.session e)
      (fun walk t => (g.session e).execution.SameRun t.execution ∧
        c.Stops (setup.services 0) w row walk t.execution)
      fun fault _ => c.Breaks (setup.services 0) row fault) :
    Leads (runSegment setup w e starts) g
      (fun f h => h.journal = g.journal ++ [p] ∧ (p.InTime → f.id = e.id ∧
        ∃ n ≤ Node.delays (setup.services 0) row, h.Stage setup w total e.id n))
      fun _ h => h.journal = g.journal ++ [p] ∧ ¬ p.InTime := by
  have hafter : p.after.Sound setup.actions := (passage_suspends hsound hp).1.sound
  have hw : p.workflow = w := by rw [hp]; rfl
  suffices hstage : Leads (runSegment setup w e starts) g
      (fun f h => p.InTime → f.id = e.id ∧
        ∃ n ≤ Node.delays (setup.services 0) row, h.Stage setup w total e.id n)
      fun _ _ => ¬ p.InTime by
    refine (hstage.and (runSegment_leads w starts hsound hp)).mono ?_ ?_
    · exact fun f h ⟨hstage, _, hpasses⟩ => ⟨hpasses.journal, hstage⟩
    · exact fun fault h ⟨hlate, _, hpasses⟩ => ⟨hpasses.journal, hlate⟩
  obtain ⟨t, ht, ⟨walk, hresult, hsame, hstops⟩ | ⟨fault, hresult, hbreaks⟩⟩ := passage_leads hwalk hp
  · have hsame : e.SameRun p.after := by
      rw [ht]
      exact ⟨hsame.id_eq, hsame.workflowId_eq, hsame.status_eq⟩
    rw [← ht] at hstops
    have hgoing : p.after.status ≠ .cancelled := by
      rw [hsame.status_eq, hstatus]
      exact nofun
    refine leads_runSegment hp (fun g₁ hmemory hschedule => ?_) (fun f h running hstage hinTime => ?_)
      fun _ _ _ h => h
    · rw [hw, hresult]
      refine (conclude_stage hafter hopen hgoing (hsame.workflowId_eq.trans hworkflow) (hschedule ▸ hjobs) hrow
        hlength halong hmeasured hstops).of_total.mono ?_ fun _ _ h => h
      rintro f h ⟨hid, hstage⟩ -
      rw [hsame.id_eq] at hid hstage
      exact ⟨hid, hstage⟩
    · obtain ⟨hid, n, hn, hstage⟩ := hstage hinTime
      exact ⟨hid, n, hn, hstage.of_eq rfl rfl⟩
  · have hlate : ¬ p.InTime := by
      intro hinTime
      cases hbreaks with
      | late text => exact hinTime text hresult
      | unmeasured fault hnot => exact hnot hmeasured
      | failed fault hnone => cases halong.symm.trans hnone
    exact leads_trivial.mono (fun _ _ _ h => absurd h hlate) fun _ _ _ => hlate

/-! ## Resumptions -/

theorem waitingOwner_of_simple {nodes : List Node} (hsimple : ∀ n ∈ nodes, n.Simple services) (id : String) :
    waitingOwner? e id nodes = .ok none := by
  induction nodes with
  | nil => rfl
  | cons n rest ih =>
    have howns : isWaitingOwner e id n = .ok false := by
      unfold isWaitingOwner
      rw [if_pos (bne_iff_ne.2 (hsimple n (List.mem_cons_self ..)).type_ne)]
      rfl
    rw [waitingOwner?, howns]
    exact ih fun m hm => hsimple m (List.mem_cons_of_mem n hm)

theorem reopen_simple (hsimple : ∀ n ∈ w.nodes, n.Simple services) (n : Node) :
    Leads (reopen setup w e n) g
      (fun r h => r.2 = n ∧ r.1.status = .running ∧ r.1.vars = e.vars ∧ SameNodes e r.1 ∧
        h.memory = g.memory ∧ h.schedule = g.schedule ∧ h.journal = g.journal ∧ h.now = g.now)
      fun _ _ => False := by
  unfold reopen
  rw [waitingOwner_of_simple hsimple]
  refine leads_bind (leads_pure (leads_bind (leads_modify ?_)))
  refine Leads.bind (publishAt_leads .resumed _ (some n.id) _) ?_
  rintro _ h rfl
  let reopened : Execution :=
    { e with logLevel := (w.settingOr (.str "log_level") (.str "info")).text, status := .running }
  have hsame : SameNodes e reopened := ⟨rfl, rfl, rfl, rfl⟩
  obtain ⟨logs, hlog⟩ := log_eq reopened "info" "Workflow execution resumed" (.object [("node_id", .str n.id)])
  refine leads_pure ⟨rfl, ?_, ?_, hsame.trans (noted_note reopened _ _ _).nodes, rfl, rfl, rfl, rfl⟩
  · exact (congrArg Execution.status hlog).trans rfl
  · exact (congrArg Execution.vars hlog).trans rfl

/-- The execution of a chain that is resumed at its delay, when the time has come, goes on to the next one. -/
theorem runJob_stage {total : ChainCourse} {d : Node} {rest : List Node} {T timeout : Float}
    (hopen : setup.refusal? = none) (htimeout : (w.setting "timeout_seconds").asFloat = .ok timeout)
    (hsimple : ∀ n ∈ w.nodes, n.Simple (setup.services 0)) (hg : g.Kept setup)
    (hknown : g.memory.workflow? w.id = some w) (hstored : g.stored? e.id = some e) (hstatus : e.status = .paused)
    (hworkflow : e.workflowId = w.id) (hrow : w.Chained (setup.services 0) (d :: rest))
    (hlength : ((d :: rest).length : Int) ≤ setup.config.maxIterations)
    (halong : c.along (setup.services 0) rest = some total) (hmeasured : c.Measured (setup.services 0) rest)
    (hwaits : e.WaitsAt (setup.services 0) w c d rest T) (hcome : T ≤ g.now.timestamp) (hjobs : g.schedule.jobs = []) :
    let next (h : Engine) := ∃ p, h.journal = g.journal ++ [p] ∧ (p.InTime →
      ∃ n ≤ Node.delays (setup.services 0) rest, h.Stage setup w total e.id n)
    Leads (runJob setup (resumePayload e d.id)) g (fun _ h => next h) fun _ h => next h := by
  intro next
  have hwaiting : e.reloaded.isWaiting d.id = true := by
    obtain ⟨_, st, -, -, hst, hawaits⟩ := hwaits.awaits
    rw [show e.reloaded.isWaiting d.id = e.isWaiting d.id from rfl, isWaiting, nodeStatus?, hst, Option.map_some,
      hawaits.status]
    rfl
  rw [runJob_resumePayload]
  refine leads_bind (execution?_leads ?_)
  rw [hstored]
  dsimp only [Option.map_some]
  rw [if_neg (by rw [show e.reloaded.status = e.status from rfl, hstatus]; exact Bool.false_ne_true)]
  unfold resumeLoaded
  rw [if_neg (by rw [hwaiting, show e.reloaded.status = e.status from rfl, hstatus]; exact Bool.false_ne_true)]
  refine leads_bind (leads_bind (leads_get (leads_pure ?_)))
  rw [show e.reloaded.workflowId = w.id from hworkflow, hknown]
  dsimp only
  rw [hrow.known d (List.mem_cons_self ..)]
  refine leads_bind ?_
  refine Leads.bind (reopen_simple hsimple d).of_total ?_
  rintro ⟨f, start⟩ g₁ ⟨rfl, hrunning, hvars, hnodes, hmemory, hschedule, hjournal, hnow⟩
  have hsame : SameNodes e f := (⟨rfl, rfl, rfl, rfl⟩ : SameNodes e e.reloaded).trans hnodes
  have hsound : f.Sound setup.actions := hsame.sound (hg.regular _ e hstored).sound
  have hwaits' : f.WaitsAt (setup.services 0) w c start rest T := hwaits.of_eq hvars hsame.state?
  have hkinds : NodeKind.ofNode? (setup.services g₁.running.length) = NodeKind.ofNode? (setup.services 0) := rfl
  have hgoing : (g₁.session f).execution.status ≠ .cancelled := by
    rw [show (g₁.session f).execution.status = f.status from rfl, hrunning]
    rintro ⟨⟩
  have hcome' : T ≤ (g₁.session f).now.timestamp := by
    rw [show (g₁.session f).now = g₁.now from rfl, hnow]
    exact hcome
  have hwalk := Walk.leads_run_waiting hkinds w.nodes.length hrow hlength htimeout hgoing
    (hwaits'.of_eq rfl fun _ => rfl) hcome'
  have hlength' : (rest.length : Int) ≤ setup.config.maxIterations := by
    rw [List.length_cons] at hlength
    omega
  have hstage := runSegment_stage hsound hopen rfl hrunning (hsame.workflowId_eq.trans hworkflow)
    (hschedule ▸ hjobs) hrow.tail hlength' halong hmeasured hwalk
  refine leads_bind (hstage.mono ?_ ?_)
  · rintro f' h ⟨hpassed, hnext⟩
    refine leads_pure ⟨_, hjournal ▸ hpassed, fun hinTime => ?_⟩
    obtain ⟨-, n, hn, hstage⟩ := hnext hinTime
    exact ⟨n, hn, hsame.id_eq ▸ hstage⟩
  · rintro fault h ⟨hpassed, hlate⟩
    exact ⟨_, hjournal ▸ hpassed, fun hinTime => absurd hinTime hlate⟩

end Work

/-! ## Rounds -/

namespace Engine

/-- The clock is set to a time at which the next job is due, and the jobs that are due are run. -/
def Round (setup : Setup) (g h : Engine) : Prop :=
  ∃ (now : Moment) (j : Job Float Value) (rest : List (Job Float Value)), g.schedule.jobs = j :: rest ∧
    j.runAt ≤ now.timestamp ∧ h = (g.after setup (.setClock now)).after setup (.runDue now.timestamp)

/-- A round takes the execution of a chain to a stage with fewer delays ahead, if its walk is not timed out. -/
theorem Stage.round {total : ChainCourse} {id : String} {n : Nat} {timeout : Float} (hopen : setup.refusal? = none)
    (htimeout : (w.setting "timeout_seconds").asFloat = .ok timeout)
    (hsimple : ∀ m ∈ w.nodes, m.Simple (setup.services 0)) (hg : g.Kept setup)
    (hknown : g.memory.workflow? w.id = some w) (hstage : g.Stage setup w total id n) (hround : Round setup g h) :
    ∃ p, h.journal = g.journal ++ [p] ∧ (p.InTime → ∃ m < n, h.Stage setup w total id m) := by
  obtain ⟨now, j, rest, hjob, hdue, rfl⟩ := hround
  cases hstage with
  | completed e _ _ _ hjobs => cases hjob.symm.trans hjobs
  | paused e hstored hstatus hworkflow c d row T hrow hlength halong hmeasured hwaits j' hjobs hrunAt hpayload =>
    obtain ⟨rfl, rfl⟩ := List.cons.inj (hjob.symm.trans hjobs)
    obtain rfl := (hg.ids id e hstored).1
    rw [hrunAt] at hdue
    have htaken : (g.after setup (.setClock now)).schedule.takeDue now.timestamp =
        ([j], { g.schedule with jobs := [] }) := by
      have hdue' : decide (j.runAt ≤ now.timestamp) = true := by
        rw [hrunAt]
        exact decide_eq_true hdue
      simp only [Schedule.takeDue, after, hjobs, List.takeWhile_cons, List.dropWhile_cons, hdue', if_true,
        List.takeWhile_nil, List.dropWhile_nil]
    rw [after_runDue, takeDue, htaken]
    dsimp only [List.foldl_cons, List.foldl_nil]
    rw [deliver, hpayload]
    have hnext := (Work.runJob_stage (g := { g.after setup (.setClock now) with
      schedule := { g.schedule with jobs := [] } }) hopen htimeout hsimple (hg.of_memory rfl rfl) hknown hstored
      hstatus hworkflow hrow hlength halong hmeasured hwaits hdue rfl).state
    obtain ⟨p, hjournal, hnext⟩ := hnext
    refine ⟨p, hjournal, fun hinTime => ?_⟩
    obtain ⟨m, hm, hstage⟩ := hnext hinTime
    have hdelay : d.isDelay (setup.services 0) := hwaits.isDelay
    refine ⟨m, Nat.lt_of_le_of_lt hm ?_, hstage⟩
    rw [Node.delays, Node.delays, List.countP_cons_of_pos (by simpa using hdelay)]
    exact Nat.lt_succ_self _

theorem Round.steps (hround : Round setup g h) (hg : g.Kept setup) : Steps setup g h := by
  obtain ⟨now, j, rest, -, -, rfl⟩ := hround
  have hclock := after_steps hg (.setClock now)
  exact hclock.trans (after_steps (hclock.kept hg) (.runDue now.timestamp))

theorem steps_of_rounds {s : ℕ → Engine} (hkept : (s 0).Kept setup) {k : ℕ}
    (hrounds : ∀ i < k, Round setup (s i) (s (i + 1))) : Steps setup (s 0) (s k) := by
  induction k with
  | zero => exact .refl
  | succ k ih =>
    have hbefore := ih fun i hi => hrounds i (Nat.lt_succ_of_lt hi)
    exact hbefore.trans ((hrounds k (Nat.lt_succ_self k)).steps (hbefore.kept hkept))

/-- Rounds go on for at most as many times as there are delays ahead. -/
theorem Stage.rounds {total : ChainCourse} {id : String} {n : Nat} {timeout : Float} (hopen : setup.refusal? = none)
    (htimeout : (w.setting "timeout_seconds").asFloat = .ok timeout)
    (hsimple : ∀ m ∈ w.nodes, m.Simple (setup.services 0)) {s : ℕ → Engine} (hkept : (s 0).Kept setup)
    (hknown : (s 0).memory.workflow? w.id = some w) (hstage : (s 0).Stage setup w total id n) {k : ℕ}
    (hrounds : ∀ i < k, Round setup (s i) (s (i + 1))) (hinTime : ∀ p ∈ (s k).journal, p.InTime) :
    ∃ m, m + k ≤ n ∧ (s k).Stage setup w total id m := by
  induction k with
  | zero => exact ⟨n, Nat.le_refl _, hstage⟩
  | succ k ih =>
    have hearlier (i : ℕ) (hi : i < k) := hrounds i (Nat.lt_succ_of_lt hi)
    have hbefore := steps_of_rounds hkept hearlier
    have hround := hrounds k (Nat.lt_succ_self k)
    have hadds := (hround.steps (hbefore.kept hkept)).adds_sound (hbefore.kept hkept)
    obtain ⟨m, hm, hstage⟩ := ih hearlier fun p hp => hinTime p (hadds.mem hp)
    have hknown' : (s k).memory.workflow? w.id = some w := by
      rw [Memory.workflow?, hbefore.workflows]
      exact hknown
    obtain ⟨p, hjournal, hnext⟩ := hstage.round hopen htimeout hsimple (hbefore.kept hkept) hknown' hround
    obtain ⟨m', hm', hstage'⟩ := hnext (hinTime p (by rw [hjournal]; simp))
    exact ⟨m', by omega, hstage'⟩

end Engine

end Flowline
