import Flowline.Proofs.Engine.Chain
import Flowline.Proofs.Workflow.Undelayed
import Mathlib.Algebra.Group.Nat.Defs

/-! # Suspension is transparent on chains

Where a workflow is one chain of simple nodes, its delays do not show in what comes of it: run with delays,
round by round, it ends with the variables and the outputs with which it ends when no delay waits. -/

namespace Flowline
open Execution Engine

variable {setup : Setup} {w : Workflow} {trigger context : Value} {g h : Engine} {services : Services}

/-! ## Starts -/

/-- The variables with which an execution starts. -/
def Workflow.firstVars (w : Workflow) (trigger : Value) : Except Fault (List (Scalar × Value)) := do
  let entries ← (trigger.orElse (.map [])).asEntries
  let vars ← w.vars.mapping
  return Entries.insertAll vars entries

namespace Work

theorem countStart_allows (w : Workflow) (g : Engine) :
    Leads (countStart w) g
      (fun _ h => h.schedule = g.schedule ∧ ∃ limit, (w.setting "max_executions_per_hour").asInt = .ok limit ∧
        (g.limiter.acquire g.now.timestamp w.id limit).1 = true) fun _ _ => True := by
  refine of_leads (fun limit hlimit => ?_) fun _ _ => trivial
  refine leads_bind (leads_get ?_)
  rcases hacquire : g.limiter.acquire g.now.timestamp w.id limit with ⟨_ | _, limiter⟩
  · exact leads_bind (leads_set (leads_throw trivial))
  · exact leads_bind (leads_set (leads_pure ⟨rfl, limit, hlimit, by rw [hacquire]⟩))

theorem newExecution_vars (w : Workflow) (trigger context : Value) (g : Engine) :
    Leads (newExecution w trigger context) g
      (fun e h => h = g ∧ w.firstVars trigger = .ok e.vars ∧ e.workflowId = w.id ∧
        (∃ entries, (trigger.orElse (.map [])).asEntries = .ok entries) ∧
        (∃ entries, (context.orElse (.map [])).asEntries = .ok entries) ∧ ∃ vars, w.vars.mapping = .ok vars)
      fun _ _ => True := by
  refine of_leads (fun entries hentries => ?_) fun _ _ => trivial
  refine of_leads (fun contexts hcontexts => ?_) fun _ _ => trivial
  refine of_leads (fun vars hvars => ?_) fun _ _ => trivial
  have hfirst : w.firstVars trigger = .ok (Entries.insertAll vars entries) := by
    rw [Workflow.firstVars, hentries, hvars]
    rfl
  exact leads_bind (leads_get (leads_pure
    ⟨rfl, hfirst, rfl, ⟨entries, hentries⟩, ⟨contexts, hcontexts⟩, vars, hvars⟩))

/-- An execution that is started was allowed, and has its first variables. -/
theorem start_allows (w : Workflow) (trigger context : Value) (g : Engine) :
    Leads (start setup w trigger context) g
      (fun e h => g.Allows w trigger context ∧ w.firstVars trigger = .ok e.vars ∧ e.workflowId = w.id ∧
        h.schedule = g.schedule) fun _ _ => True := by
  unfold start
  split
  · exact leads_throw trivial
  · next hactive =>
    refine Leads.bind (countStart_allows w g) ?_
    rintro _ g₁ ⟨hschedule, hlimit⟩
    refine Leads.bind (newExecution_vars w trigger context g₁) ?_
    rintro e g₂ ⟨rfl, hfirst, hworkflow, htrigger, hcontext, hvars⟩
    obtain ⟨logs, hlog⟩ := log_eq e "info" "Workflow execution started"
      (.object [("trigger_type", e.triggerType)])
    refine leads_bind (leads_modify (leads_bind (leads_modify (leads_bind (leads_modify ?_)))))
    refine Leads.bind (publishAt_leads .started _ none _).of_total ?_
    rintro _ g₃ rfl
    refine leads_pure ⟨⟨by simpa using hactive, hlimit, htrigger, hcontext, hvars⟩, ?_, ?_, hschedule⟩
    · rw [note, hlog]
      exact hfirst
    · rw [note, hlog]
      exact hworkflow

/-! ## Runs -/

/-- A new execution is at the beginning of its course. -/
theorem on_start {e : Execution} (hstates : e.states = []) : e.On services w ⟨e.vars, []⟩ [] := by
  have hnone (x : String) : e.state? x = none := by
    rw [state?, hstates]
    rfl
  refine ⟨rfl, fun x _ => hnone x, fun x _ st hst => ?_⟩
  rw [hnone x] at hst
  cases hst

/-- The first walk of the execution of a chain. -/
theorem first_walk {e : Execution} {row : List Node} (hrow : w.Chained (setup.services 0) row)
    (hlength : (row.length : Int) ≤ setup.config.maxIterations) (hstatus : e.status = .running)
    (hstates : e.states = []) (g : Engine) :
    Leads (Walk.run (Node.dispatch (setup.services g.running.length) w (Node.nestingLimit w)) w
      setup.config.maxIterations row.head?.toList) (g.session e)
      (fun walk t => (∃ timeout, (w.setting "timeout_seconds").asFloat = .ok timeout) ∧
        (g.session e).execution.SameRun t.execution ∧
        ChainCourse.Stops (setup.services 0) w ⟨e.vars, []⟩ row walk t.execution)
      fun fault _ => (w.setting "timeout_seconds").asFloat = .error fault ∨
        ChainCourse.Breaks (setup.services 0) ⟨e.vars, []⟩ row fault := by
  have hkinds : NodeKind.ofNode? (setup.services g.running.length) = NodeKind.ofNode? (setup.services 0) := rfl
  have hgoing : (g.session e).execution.status ≠ .cancelled := by
    rw [show (g.session e).execution.status = e.status from rfl, hstatus]
    exact nofun
  have hon : (g.session e).execution.On (setup.services 0) w ⟨e.vars, []⟩ [] :=
    (on_start hstates).of_eq rfl fun _ => rfl
  refine Walk.leads_run_chain hkinds w.nodes.length hrow hlength hgoing hon fun n _ => ?_
  rw [state?, show (g.session e).execution.states = e.states from rfl, hstates]
  rfl

/-- A segment that completes an execution has made a walk that did not fail. -/
theorem runSegment_completed {e : Execution} {starts : List Node} {p : Passage} (hsound : e.Sound setup.actions)
    (hp : p = passage setup w e starts g) {fault : Fault} (hresult : p.result = .error fault) :
    Leads (runSegment setup w e starts) g (fun f _ => f.status ≠ .completed) fun _ _ => True := by
  refine (runSegment_leads w starts hsound hp).mono ?_ fun _ _ _ => trivial
  rintro f h ⟨hposts, -⟩ hcompleted
  cases hposts.outcome with
  | cancelled hstatus => cases hstatus.symm.trans hcompleted
  | failed hstatus => cases hstatus.symm.trans hcompleted
  | done walk hdone => cases hdone.symm.trans hresult

/-- A chain whose delays never wait has come to the end of its course when it is completed. -/
theorem execute_through {row : List Node} (hrow : w.Chained (setup.services 0) row)
    (hlength : (row.length : Int) ≤ setup.config.maxIterations) (hstarts : w.startNodes = row.head?.toList)
    (hnever : ∀ d ∈ row, d.isDelay (setup.services 0) → ∀ scope seconds, d.delayIn scope = .ok seconds →
      seconds ≤ 0) {f : Execution} (hthrough : ((execute setup w trigger context).run.run g).1 = .ok f)
    (hcompleted : f.status = .completed) :
    g.Allows w trigger context ∧ (∃ timeout, (w.setting "timeout_seconds").asFloat = .ok timeout) ∧
      ∃ vars total, w.firstVars trigger = .ok vars ∧
        ChainCourse.along (setup.services 0) ⟨vars, []⟩ row = some total ∧ f.On (setup.services 0) w total [] := by
  suffices hleads : Leads (execute setup w trigger context) g
      (fun f _ => f.status = .completed → g.Allows w trigger context ∧
        (∃ timeout, (w.setting "timeout_seconds").asFloat = .ok timeout) ∧
        ∃ vars total, w.firstVars trigger = .ok vars ∧
          ChainCourse.along (setup.services 0) ⟨vars, []⟩ row = some total ∧ f.On (setup.services 0) w total [])
      fun _ _ => True by
    obtain ⟨_, hends⟩ := hleads.exists_ok hthrough
    exact hends hcompleted
  refine Leads.bind (((start_leads w trigger context g).and (start_allows w trigger context g)).mono
    (fun _ _ h => h) fun _ _ _ => trivial) ?_
  rintro e g₁ ⟨hstarted, hallows, hfirst, -, -⟩
  have hsound : e.Sound setup.actions := sound_of_no_states hstarted.states_eq
  obtain ⟨p, hp⟩ : ∃ p, p = passage setup w e row.head?.toList g₁ := ⟨_, rfl⟩
  rw [hstarts]
  obtain ⟨t, ht, ⟨walk, hresult, htimeout, hsame, hstops⟩ | ⟨fault, hresult, -⟩⟩ :=
    passage_leads (first_walk hrow hlength hstarted.status_eq hstarted.states_eq g₁) hp
  · cases hstops with
    | done total halong hidle hon =>
      rw [← ht] at hon
      have hgoing : p.after.status ≠ .cancelled := by
        rw [ht, hsame.status_eq, show (g₁.session e).execution.status = e.status from rfl, hstarted.status_eq]
        exact nofun
      have hafter : p.after.Sound setup.actions := (passage_suspends hsound hp).1.sound
      have hw : p.workflow = w := by rw [hp]; rfl
      refine leads_runSegment hp (fun g₂ _ _ => ?_) (fun _ _ _ h => h) fun _ _ _ h => h
      rw [hw, hresult]
      refine (conclude_through hafter hgoing hidle hon).of_total.mono ?_ fun _ _ h => h
      intro f h hconcludes _
      exact ⟨hallows, htimeout, e.vars, total, hfirst, halong,
        hon.of_eq hconcludes.vars_eq hconcludes.nodes.state?⟩
    | waits before d rest hbefore c halong hsuspended T hwaits =>
      obtain ⟨seconds, st, hseconds, hpos, -, -⟩ := hwaits.awaits
      have hd : d ∈ row := by rw [hbefore]; simp
      have hzero := hnever d hd hwaits.isDelay _ seconds hseconds
      omega
  · exact (runSegment_completed hsound hp hresult).mono (fun f _ hf hcompleted => absurd hcompleted hf)
      fun _ _ h => h

/-- A chain that is allowed to run comes to its first stage, if its walk is not timed out. -/
theorem execute_stage {row : List Node} {vars : List (Scalar × Value)} {total : ChainCourse} {timeout : Float}
    (hopen : setup.refusal? = none) (htimeout : (w.setting "timeout_seconds").asFloat = .ok timeout)
    (hrow : w.Chained (setup.services 0) row) (hlength : (row.length : Int) ≤ setup.config.maxIterations)
    (hstarts : w.startNodes = row.head?.toList) (hallows : g.Allows w trigger context)
    (hfirst : w.firstVars trigger = .ok vars)
    (halong : ChainCourse.along (setup.services 0) ⟨vars, []⟩ row = some total)
    (hmeasured : ChainCourse.Measured (setup.services 0) ⟨vars, []⟩ row) (hjobs : g.schedule.jobs = []) :
    ∃ r h, (execute setup w trigger context).run.run g = (r, h) ∧ ∃ p, h.journal = g.journal ++ [p] ∧
      (p.InTime → ∃ f, r = .ok f ∧ f.id = executionId (g.started + 1) ∧
        ∃ n ≤ Node.delays (setup.services 0) row, h.Stage setup w total f.id n) := by
  suffices hleads : Leads (execute setup w trigger context) g
      (fun f h => ∃ p, h.journal = g.journal ++ [p] ∧ (p.InTime → f.id = executionId (g.started + 1) ∧
        ∃ n ≤ Node.delays (setup.services 0) row, h.Stage setup w total f.id n))
      fun _ h => ∃ p, h.journal = g.journal ++ [p] ∧ ¬ p.InTime by
    obtain ⟨f, h, hrun, p, hjournal, hstage⟩ | ⟨fault, h, hrun, p, hjournal, hlate⟩ := hleads.cases
    · exact ⟨_, h, hrun, p, hjournal, fun hinTime => ⟨f, rfl, hstage hinTime⟩⟩
    · exact ⟨_, h, hrun, p, hjournal, fun hinTime => absurd hinTime hlate⟩
  refine Leads.bind (((start_leads w trigger context g).and (start_allows w trigger context g)).mono
    (fun _ _ h => h) fun _ _ h => absurd hallows h.1.2) ?_
  rintro e g₁ ⟨hstarted, -, hvars, hworkflow, hschedule⟩
  obtain rfl := Except.ok.inj (hfirst.symm.trans hvars)
  have hsound : e.Sound setup.actions := sound_of_no_states hstarted.states_eq
  have hwalk := (first_walk hrow hlength hstarted.status_eq hstarted.states_eq g₁).mono
    (fun _ _ h => h.2) fun _ _ h => h.resolve_left fun hfault => nomatch htimeout.symm.trans hfault
  rw [hstarts]
  refine (runSegment_stage hsound hopen rfl hstarted.status_eq hworkflow (by rw [hschedule, hjobs]) hrow hlength
    halong hmeasured hwalk).mono ?_ ?_
  · rintro f h ⟨hjournal, hstage⟩
    refine ⟨_, by rw [hjournal, hstarted.aside.journal], fun hinTime => ?_⟩
    obtain ⟨hid, n, hn, hstage⟩ := hstage hinTime
    exact ⟨hid.trans hstarted.id_eq, n, hn, hid ▸ hstage⟩
  · rintro fault h ⟨hjournal, hlate⟩
    exact ⟨_, by rw [hjournal, hstarted.aside.journal], hlate⟩

end Work

/-! ## Rounds with and without waiting -/

namespace Engine

variable {row : List Node} {now : Moment} {tick : Float} {workflows workflows₀ : Table String Workflow}

/-- Without waiting, a chain comes to the end of its course. It is allowed to run with waiting then, too. -/
theorem undelayed_through (known : Table String Workflow) (hrow : w.Chained (setup.services 0) row)
    (hlength : (row.length : Int) ≤ setup.config.maxIterations) (hstarts : w.startNodes = row.head?.toList)
    {e₀ : Execution} (hthrough : ((Work.execute setup (w.undelayed (setup.services 0)) trigger context).run.run
      (fresh setup now tick workflows₀)).1 = .ok e₀) (hcompleted : e₀.status = .completed) :
    (fresh setup now tick known).Allows w trigger context ∧
      (∃ timeout, (w.setting "timeout_seconds").asFloat = .ok timeout) ∧
      ∃ vars total, w.firstVars trigger = .ok vars ∧
        ChainCourse.along (setup.services 0) ⟨vars, []⟩ row = some total ∧ e₀.On (setup.services 0) w total [] := by
  have hstarts₀ : (w.undelayed (setup.services 0)).startNodes =
      (row.map (Node.undelayed (setup.services 0))).head?.toList := by
    rw [Workflow.startNodes_undelayed, hstarts]
    cases row <;> rfl
  have hnever : ∀ d ∈ row.map (Node.undelayed (setup.services 0)), d.isDelay (setup.services 0) →
      ∀ scope seconds, d.delayIn scope = .ok seconds → seconds ≤ 0 := by
    intro d hd hdelay scope seconds hseconds
    obtain ⟨n, -, rfl⟩ := List.mem_map.1 hd
    exact Node.delayIn_undelayed (Node.isDelay_undelayed.1 hdelay) hseconds
  obtain ⟨hallows, htimeout, vars, total, hvars, halong, hon⟩ :=
    Work.execute_through hrow.undelayed (by rwa [List.length_map]) hstarts₀ hnever hthrough hcompleted
  rw [ChainCourse.along_undelayed] at halong
  exact ⟨⟨hallows.active, hallows.limit, hallows.trigger, hallows.context, hallows.vars⟩, htimeout, vars, total,
    hvars, halong, hon.of_undelayed⟩

def kettle : Node := ⟨"kettle", "start", .map [], .null, .null⟩

/-- A delay of some seconds. -/
def steep (seconds : Int) : Node := ⟨"steep", "delay", .object [("value", .int seconds)], .null, .null⟩

/-- Makes a text longer by one letter. -/
def pour : Node where
  id := "pour"
  type := "set_variable"
  config := .object [("variables", .object [("cups", .str "\x7b\x7bcups\x7d\x7di")])]
  actionType := .null
  name := .null

def serve : Node := ⟨"serve", "end", .map [], .null, .null⟩

/-- A chain of four nodes with a text that is empty at first. -/
def brew (a b c d : Node) : Workflow :=
  { Workflow.ofNodes [a, b, c, d]
      [⟨a.id, b.id, .null, .null⟩, ⟨b.id, c.id, .null, .null⟩, ⟨c.id, d.id, .null, .null⟩]
      [(.str "retry_on_failure", .bool false)]
    with vars := .object [("cups", .str "")] }

theorem simple_of_type {n : Node} (hn : n.type ∈ ["start", "set_variable", "end", "delay"]) :
    n.Simple ((Setup.ofActions []).services 0) := by
  have hkind (kind : NodeKind) (hknown : NodeKind.named.lookup n.type = some kind) :
      NodeKind.ofNode? ((Setup.ofActions []).services 0) n = some kind := by
    unfold NodeKind.ofNode?
    rw [hknown]
    rfl
  simp only [List.mem_cons, List.not_mem_nil, or_false] at hn
  obtain htype | htype | htype | htype := hn
  · exact .data .entry (hkind _ (htype ▸ rfl)) rfl (Node.timeless_of_isClockless rfl)
  · exact .data .setVariable (hkind _ (htype ▸ rfl)) rfl (Node.timeless_of_isClockless rfl)
  · exact .data .finish (hkind _ (htype ▸ rfl)) rfl (Node.timeless_of_isClockless rfl)
  · exact .delay (hkind _ (htype ▸ rfl))

theorem isChain_brew {a b c d : Node} (hids : ([a, b, c, d].map (·.id)).Nodup)
    (htypes : ∀ n ∈ [a, b, c, d], n.type ∈ ["start", "set_variable", "end", "delay"]) :
    (brew a b c d).IsChain ((Setup.ofActions []).services 0) [a, b, c, d] := by
  have hne : a.id ≠ b.id ∧ a.id ≠ c.id ∧ a.id ≠ d.id ∧ b.id ≠ c.id ∧ b.id ≠ d.id ∧ c.id ≠ d.id := by
    simpa [and_assoc] using hids
  obtain ⟨hab, hac, had, hbc, hbd, hcd⟩ := hne
  refine ⟨.refl _, hids, fun n hn => simple_of_type (htypes n hn), ⟨?_, ?_, ?_, ?_, trivial⟩, ?_⟩
  · refine ⟨⟨a.id, b.id, .null, .null⟩, ?_, rfl, rfl⟩
    simp [Workflow.leaving, brew, Workflow.ofNodes, hab.symm, hac.symm]
  · refine ⟨⟨b.id, c.id, .null, .null⟩, ?_, rfl, rfl⟩
    simp [Workflow.leaving, brew, Workflow.ofNodes, hab, hbc.symm]
  · refine ⟨⟨c.id, d.id, .null, .null⟩, ?_, rfl, rfl⟩
    simp [Workflow.leaving, brew, Workflow.ofNodes, hac, hbc]
  · simp [Workflow.LeadsOn, Workflow.leaving, brew, Workflow.ofNodes, had, hbd, hcd]
  · simp [brew, Workflow.ofNodes]

/-- A new engine that knows a workflow. -/
def pantry (w : Workflow) : Engine := fresh (.ofActions []) ⟨⟨2024, 6, 15⟩, 12, 0, 0, 0, some 0⟩ 0 [(w.id, w)]

/-- The engine that has executed it. -/
def brewing (w : Workflow) : Engine := (pantry w).after (.ofActions []) (.execute w .null .null)

/-- The engine ten seconds later, when the jobs that are due are run. -/
def brewed (w : Workflow) : Engine :=
  let now : Moment := ⟨⟨2024, 6, 15⟩, 12, 0, 10, 0, some 0⟩
  ((brewing w).after (.ofActions []) (.setClock now)).after (.ofActions []) (.runDue now.timestamp)

theorem round_brewed (h : (brewing w).schedule.jobs.head?.any (fun j => decide (j.runAt ≤ 1718452810)) = true) :
    Round (.ofActions []) (brewing w) (brewed w) := by
  obtain ⟨j, hj, hdue⟩ := (Option.any_eq_true _ _).1 h
  obtain ⟨rest, hjobs⟩ := List.head?_eq_some_iff.1 hj
  have hnow : (⟨⟨2024, 6, 15⟩, 12, 0, 10, 0, some 0⟩ : Moment).timestamp = 1718452810 := by decide +kernel
  refine ⟨_, j, rest, hjobs, ?_, rfl⟩
  rw [hnow]
  exact of_decide_eq_true hdue

/-- What comes of a workflow when its delays do not wait. -/
def instant (w : Workflow) : Except Fault Execution :=
  ((Work.execute (.ofActions []) (w.undelayed ((Setup.ofActions []).services 0)) .null .null).run.run (pantry w)).1

theorem completes_instant (h : (instant w).toOption.any (fun e => decide (e.status = .completed)) = true) :
    ∃ e₀, instant w = .ok e₀ ∧ e₀.status = .completed := by
  cases hinstant : instant w with
  | error fault =>
    rw [hinstant] at h
    cases h
  | ok e₀ =>
    rw [hinstant] at h
    exact ⟨e₀, rfl, of_decide_eq_true h⟩

theorem inTime_of_isOk {p : Passage} (h : p.result.isOk = true) : p.InTime := by
  intro text hresult
  rw [hresult] at h
  cases h

/-- A walk was timed out. -/
def isLate (p : Passage) : Bool :=
  match p.result with
  | .error (.timedOut _) => true
  | _ => false

theorem inTime_of_isLate {p : Passage} (h : isLate p = false) : p.InTime := by
  intro text hresult
  rw [isLate, hresult] at h
  cases h

def tea : Workflow := brew kettle (steep 10) pour serve

theorem measured_tea {d : Node} (hd : d ∈ tea.nodes) (hdelay : d.isDelay ((Setup.ofActions []).services 0))
    (scope : Value) : d.Measured scope := by
  have hten : Double.ofInt? 10 = some ((Double.ofInt? 10).getD 0) := by
    obtain ⟨ten, hten⟩ := Option.isSome_iff_exists.1 (show (Double.ofInt? 10).isSome = true by decide +kernel)
    rw [hten, Option.getD_some]
  have hcases : d = kettle ∨ d = steep 10 ∨ d = pour ∨ d = serve := by
    simpa [tea, brew, Workflow.ofNodes] using hd
  obtain rfl | rfl | rfl | rfl := hcases
  · cases hdelay
  · exact ⟨10, _, rfl, hten⟩
  · cases hdelay
  · cases hdelay

def kettleAgain : Node := ⟨"again", "start", .map [], .null, .null⟩

/-- A chain with a second entry behind its delay. -/
def refill : Workflow := brew kettle (steep 10) kettleAgain pour

/-- A chain whose delay is longer than the clock can tell. -/
def forgotten : Workflow := brew kettle (steep (10 ^ 400 : ℕ)) pour serve

end Engine

end Flowline
