import Flowline.Proofs.Engine.Moves

/-! # No lost wakeup

A node for which a paused execution waits has a job that resumes it. A job that is taken from the schedule
is missing until it is delivered; delivering it dispatches the node again, which then waits no more or has
a new job, as long as the parallel node that waits for it, if there is one, is sure to run it. -/

namespace Flowline
open Execution

/-! ## Branches that run again -/

/-- Whether a value in the configuration of a parallel node lists a branch. -/
def Node.lists (n : Node) (x : String) : Except Fault Bool := do
  Work.listsBranch x ((← n.config.entry "branches").orElse (.list []))

/-- A parallel node that lists a branch is sure to run it, unless it runs none. -/
def Node.rejoins (w : Workflow) (x : String) (n : Node) : Bool :=
  match n.lists x, n.sureBranches w with
  | .ok true, .ok branches => branches.any (·.id == x)
  | .ok _, _ => true
  | .error _, _ => false

/-- Each parallel node that lists a node among its branches is sure to run it. -/
def Workflow.Rejoins (w : Workflow) (x : String) : Prop :=
  ∀ n ∈ w.nodes, n.type = "parallel" → n.rejoins w x = true

instance (w : Workflow) (x : String) : Decidable (w.Rejoins x) :=
  inferInstanceAs (Decidable (∀ n ∈ w.nodes, n.type = "parallel" → n.rejoins w x = true))

theorem Workflow.Rejoins.sure {w : Workflow} {x : String} (hw : w.Rejoins x) {n : Node}
    (hn : n ∈ w.nodes) (htype : n.type = "parallel") : ∃ listed, n.lists x = .ok listed ∧
      (listed = true → ∀ branches, n.sureBranches w = .ok branches → ∃ b ∈ branches, b.id = x) := by
  have hrejoins := hw n hn htype
  unfold Node.rejoins at hrejoins
  split at hrejoins
  · next branches hlists hsure =>
    refine ⟨true, hlists, fun _ branches' hbranches => ?_⟩
    obtain rfl := Except.ok.inj (hsure.symm.trans hbranches)
    obtain ⟨b, hb, hid⟩ := List.any_eq_true.1 hrejoins
    exact ⟨b, hb, eq_of_beq hid⟩
  · next listed hlists hnone =>
    refine ⟨listed, hlists, ?_⟩
    rintro rfl branches hbranches
    exact (hnone branches hbranches rfl).elim
  · cases hrejoins

namespace Work

theorem isWaitingOwner_eq (e : Execution) (x : String) {n : Node} (hn : n.type = "parallel") :
    isWaitingOwner e x n = (do return (← n.lists x) && e.isWaiting n.id) := by
  unfold isWaitingOwner Node.lists
  rw [hn]
  cases n.config.entry "branches" with
  | error fault => rfl
  | ok v => rfl

theorem isWaitingOwner_of_ne (e : Execution) (x : String) {n : Node} (hn : n.type ≠ "parallel") :
    isWaitingOwner e x n = .ok false := by
  unfold isWaitingOwner
  rw [if_pos (bne_iff_ne.2 hn)]
  rfl

/-- Where all parallel nodes are sure to run a branch, the one that waits for it is found. -/
theorem waitingOwner_of_rejoins {w : Workflow} {x : String} (hw : w.Rejoins x) (e : Execution) :
    ∃ owner?, waitingOwner? e x w.nodes = .ok owner? ∧ ∀ owner, owner? = some owner →
      owner.type = "parallel" ∧
        ∀ branches, owner.sureBranches w = .ok branches → ∃ b ∈ branches, b.id = x := by
  have hnodes (nodes : List Node) (hsub : ∀ n ∈ nodes, n ∈ w.nodes) :
      ∃ owner?, waitingOwner? e x nodes = .ok owner? ∧ ∀ owner, owner? = some owner →
        owner.type = "parallel" ∧
          ∀ branches, owner.sureBranches w = .ok branches → ∃ b ∈ branches, b.id = x := by
    induction nodes with
    | nil => exact ⟨none, rfl, nofun⟩
    | cons n rest ih =>
      obtain ⟨owner?, hrest, howner⟩ := ih fun m hm => hsub m (List.mem_cons_of_mem n hm)
      by_cases hn : n.type = "parallel"
      · obtain ⟨listed, hlisted, hsure⟩ := hw.sure (hsub n (List.mem_cons_self ..)) hn
        have howns : isWaitingOwner e x n = .ok (listed && e.isWaiting n.id) := by
          rw [isWaitingOwner_eq e x hn, hlisted]
          rfl
        cases hwaits : listed && e.isWaiting n.id with
        | true =>
          refine ⟨some n, ?_, ?_⟩
          · rw [waitingOwner?, howns, hwaits]
            rfl
          · rintro _ ⟨⟩
            exact ⟨hn, hsure (Bool.and_eq_true_iff.1 hwaits).1⟩
        | false =>
          refine ⟨owner?, ?_, howner⟩
          rw [waitingOwner?, howns, hwaits]
          exact hrest
      · refine ⟨owner?, ?_, howner⟩
        rw [waitingOwner?, isWaitingOwner_of_ne e x hn]
        exact hrest
  exact hnodes w.nodes fun _ hn => hn

/-- Running a parallel node records anew a branch that it is sure to run. -/
theorem renews_parallel {services : Services} (hdefault : services.actionTypes = []) {w : Workflow}
    {n : Node} {x : String} (hn : n.type = "parallel")
    (hsure : ∀ branches, n.sureBranches w = .ok branches → ∃ b ∈ branches, b.id = x) (depth : Nat) :
    Walk.Renews services.actions (Node.dispatch services w (depth + 1)) n [x] := by
  have hkind : NodeKind.ofNode? services n = some .parallel := by
    rw [NodeKind.ofNode?, hdefault, hn]
    rfl
  intro s hs
  refine (Node.runNode_parallel_reaches (Node.dispatches_dispatch services w depth) hkind hs).bind fun r t hlater hr => ⟨.of_eq hlater.sound rfl rfl rfl rfl, ?_⟩
  refine hr.imp id fun ⟨branches, hbranches, hfresh⟩ y hy => ?_
  obtain rfl := List.mem_singleton.1 hy
  obtain ⟨b, hb, rfl⟩ := hsure branches hbranches
  exact hfresh b hb

end Work

/-! ## Segments that pause -/

namespace Passage
open Work

variable {setup : Setup} {p : Passage} {f : Execution} {h : Engine} {x : String}

/-- After a segment that pauses an execution, a node for which it waits has a job, or the name of one
that it had when the walk was over. -/
theorem Outcome.hasJob (houtcome : p.Outcome setup f h) (hp : p.after.Sound setup.actions)
    (hpaused : f.status = .paused) (hx : x ∈ f.pendingResumes.keys) :
    h.HasJob (resumePayload f x) ∨ ∃ s, p.after.state? x = some s ∧
      s.resumeAt?.isSome = true ∧ s.output.hasJob = true := by
  obtain ⟨-, -, walk, -, touched, covered⟩ := houtcome.of_paused hpaused
  obtain ⟨t, ht, hresume⟩ := (mem_pendingResumes touched.sound).1 hx
  cases hs : p.after.state? x with
  | none =>
    rw [touched.domain x hs] at ht
    cases ht
  | some s =>
    have halike (hnot : x ∉ (attended walk.suspended.keys p.after).filter
        (isDue setup p.workflow p.ended walk.suspended.keys p.after)) :
        s.resumeAt?.isSome = true := by
      obtain ⟨t', ht', halike⟩ := touched.others x s hnot hs
      obtain rfl := Option.some.inj (ht'.symm.trans ht)
      rw [← halike.resumeAt?]
      exact hresume
    by_cases hattended : x ∈ attended walk.suspended.keys p.after
    · obtain hnone | ⟨-, -, hhas⟩ := covered x hattended
      · have hsome := halike fun hmem => by
          have hdue := (List.mem_filter.1 hmem).2
          rw [isDue, hnone] at hdue
          cases hdue
        exact .inr ⟨s, rfl, hsome, provides_of_dueTime_none hnone s hs hsome⟩
      · rw [resumePayload, houtcome.id_eq]
        exact .inl hhas
    · have hsome := halike fun hmem => hattended (List.mem_filter.1 hmem).1
      exact absurd (mem_attended hp hs hsome) hattended

end Passage

/-! ## Jobs for all nodes -/

namespace Engine
open Work Passage

variable {setup : Setup} {g h : Engine} {extra : List Value}

/-- A paused execution waits for a node which, where it is a branch, is sure to run again, and none of its
walks was stranded. -/
structure Awaits (setup : Setup) (g : Engine) (e : Execution) (x : String) : Prop where
  stored : g.stored? e.id = some e
  paused : e.status = .paused
  pending : x ∈ e.pendingResumes.keys
  clear : ∀ p ∈ g.journal, p.before.id = e.id → ¬ p.Stranded setup
  rejoins : ∀ w, g.memory.workflow? e.workflowId = some w → w.Rejoins x

/-- Each node that is awaited has a job, in the schedule or among some jobs that were taken from it. -/
def Woken (setup : Setup) (extra : List Value) (g : Engine) : Prop :=
  ∀ e x, g.Awaits setup e x → g.HasJob (resumePayload e x) ∨ resumePayload e x ∈ extra

theorem Woken.of_memory (hg : g.Woken setup extra) (hmemory : h.memory = g.memory)
    (hjournal : ∀ p ∈ g.journal, p ∈ h.journal) (hjobs : ∀ j ∈ g.schedule.jobs, j ∈ h.schedule.jobs) :
    h.Woken setup extra := by
  intro e x hawaits
  have hbefore : g.Awaits setup e x := by
    refine ⟨?_, hawaits.paused, hawaits.pending, fun p hp => hawaits.clear p (hjournal p hp), ?_⟩
    · rw [stored?, ← hmemory]
      exact hawaits.stored
    · rw [← hmemory]
      exact hawaits.rejoins
  exact (hg e x hbefore).imp_left fun hhas => hhas.mono hjobs

theorem Woken.save (hg : g.Woken setup extra) {f : Execution}
    (hmemory : h.memory = g.memory.saveExecution f) (hjournal : ∀ p ∈ g.journal, p ∈ h.journal)
    (hjobs : ∀ j ∈ g.schedule.jobs, j ∈ h.schedule.jobs)
    (hf : ∀ x, h.Awaits setup f x → h.HasJob (resumePayload f x) ∨ resumePayload f x ∈ extra) :
    h.Woken setup extra := by
  intro e x hawaits
  have hstored := hawaits.stored
  rw [stored?_save hmemory] at hstored
  split at hstored
  · obtain rfl := Option.some.inj hstored
    exact hf x hawaits
  · have hrejoins := hawaits.rejoins
    rw [hmemory] at hrejoins
    have hbefore : g.Awaits setup e x := ⟨hstored, hawaits.paused, hawaits.pending,
      fun p hp => hawaits.clear p (hjournal p hp), hrejoins⟩
    exact (hg e x hbefore).imp_left fun hhas => hhas.mono hjobs

/-- A node for which a walk was begun while it was awaited, and which is still awaited as it was. -/
theorem Segment.awaits_kept {kept : Execution} {p : Passage} (hsegment : g.Segment setup kept p h)
    (hg : g.Kept setup) {x : String} (hx : x ∈ p.before.pendingResumes.keys)
    (hclear : ∀ q ∈ g.journal, q.before.id = kept.id → ¬ q.Stranded setup)
    (hrejoins : ∀ w, g.memory.workflow? kept.workflowId = some w → w.Rejoins x) :
    g.Awaits setup kept x := by
  have hid := (hg.ids _ kept hsegment.stored).1
  have hpending : kept.pendingResumes = p.before.pendingResumes := by
    rw [pendingResumes, pendingResumes, hsegment.nodes.states_eq]
  refine ⟨hid ▸ hsegment.stored, ?_, hpending ▸ hx, hclear, hrejoins⟩
  cases hstatus : kept.status with
  | paused => rfl
  | running =>
    rw [pendingResumes, hsegment.nodes.states_eq, (hg.regular _ kept hsegment.stored).idle hstatus] at hx
    cases hx
  | _ =>
    have hopen := hsegment.resumable
    rw [hstatus] at hopen
    cases hopen

theorem Move.mem_journal (hmove : Move setup g h) {p : Passage} (hp : p ∈ g.journal) :
    p ∈ h.journal := by
  have hadds : Adds (fun _ => True) g h := (Step.move hmove).adds fun _ _ _ => trivial
  exact hadds.mem hp

theorem Segment.woken {kept : Execution} {p : Passage} (hsegment : g.Segment setup kept p h)
    (hg : g.Kept setup) (hactions : setup.actions.LeaveJobs) (hwoken : g.Woken setup extra) :
    h.Woken setup extra := by
  have hjournal (q : Passage) (hq : q ∈ g.journal) : q ∈ h.journal :=
    (Move.segment kept p hsegment).mem_journal hq
  obtain ⟨news, -, ⟨f, hposts⟩ | hstrands⟩ := hsegment.outcome
  · have hmemory : h.memory = g.memory.saveExecution f := hposts.memory
    have houtcome := hposts.outcome
    refine hwoken.save hmemory hjournal hsegment.passes.jobs fun x hawaits => ?_
    obtain ⟨hbefore, -, hlater, -⟩ := hsegment.facts hg
    obtain hhas | ⟨s, hs, hresume, hjob⟩ :=
      houtcome.hasJob hlater.sound hawaits.paused hawaits.pending
    · exact .inl hhas
    -- A job that was named when the walk was over is one that the node had before the segment.
    · obtain hold | hfresh := hlater.fresh x s hs
      · obtain ⟨hid, hworkflow⟩ := hsegment.ids hg houtcome
        have hx := (mem_pendingResumes hbefore).2 ⟨s, hold, hresume⟩
        have hclear (q : Passage) (hq : q ∈ g.journal) (hqid : q.before.id = kept.id) :
            ¬ q.Stranded setup :=
          hawaits.clear q (hjournal q hq) (hqid.trans hid.symm)
        have hrejoins := hawaits.rejoins
        rw [hmemory, hworkflow] at hrejoins
        have hkept := hwoken kept x (hsegment.awaits_kept hg hx hclear hrejoins)
        rw [resumePayload, hid]
        exact hkept.imp_left fun hhas => hhas.mono hsegment.passes.jobs
      · rw [(hfresh (NodeState.waiting_of_resumeAt? hresume)).2 hactions] at hjob
        cases hjob
  · exact hwoken.of_memory hstrands.memory hjournal hsegment.passes.jobs

theorem Move.woken (hmove : Move setup g h) (hg : g.Kept setup) (hactions : setup.actions.LeaveJobs)
    (hwoken : g.Woken setup extra) : h.Woken setup extra := by
  have hjournal (p : Passage) (hp : p ∈ g.journal) : p ∈ h.journal := hmove.mem_journal hp
  cases hmove with
  | aside haside _ => exact hwoken.of_memory haside.memory hjournal haside.jobs
  | start e hstarted =>
    refine hwoken.save hstarted.aside.memory hjournal hstarted.aside.jobs fun x hawaits => ?_
    cases hstarted.status_eq.symm.trans hawaits.paused
  | segment kept p hsegment => exact hsegment.woken hg hactions hwoken
  | close f hcloses =>
    refine hwoken.save hcloses.aside.memory hjournal hcloses.aside.jobs fun x hawaits => ?_
    have hover := hcloses.terminal
    rw [hawaits.paused] at hover
    cases hover

theorem Moves.woken (hmoves : Moves setup g h) (hg : g.Kept setup) (hactions : setup.actions.LeaveJobs)
    (hwoken : g.Woken setup extra) : h.Woken setup extra := by
  induction hmoves with
  | refl => exact hwoken
  | tail hbefore hmove ih => exact hmove.woken (Moves.kept hbefore hg) hactions ih

end Engine

/-! ## Jobs that are delivered -/

namespace Work
open Engine Passage

variable {setup : Setup} {g h : Engine} {x : String}

/-- The walk that a job begins records its node anew, unless it fails or finds the execution cancelled. -/
theorem Resumption.freshAt {kept : Execution} {w : Workflow} {n : Node} {p : Passage}
    (hresumption : Resumption setup g kept w n p h) (hg : g.Kept setup) (hdefault : setup.actionTypes = [])
    (hrejoins : w.Rejoins n.id) {walk : Walk} (hresult : p.result = .ok walk)
    (hgoing : p.after.status ≠ .cancelled) :
    FreshAt setup.actions p.before.nextNumber p.after n.id := by
  obtain ⟨hbefore, -, -, -⟩ := hresumption.segment.facts hg
  obtain ⟨owner?, howner, hstarts⟩ := hresumption.starts
  obtain ⟨g₁, hp⟩ := hresumption.segment.passage
  rw [hstarts, hresumption.workflow] at hp
  obtain ⟨owner?', howner', hsure⟩ := waitingOwner_of_rejoins hrejoins kept.reloaded
  obtain rfl := Except.ok.inj (howner.symm.trans howner')
  cases owner? with
  | none =>
    have hnode (running : Nat) : Walk.Renews setup.actions
        (Node.dispatch (setup.services running) w (Node.nestingLimit w)) n [] :=
      Walk.renews_nil (Node.dispatches_dispatch (setup.services running) w _) n
    exact passage_renews hbefore hnode hp hresult hgoing n.id (List.mem_cons_self ..)
  | some owner =>
    obtain ⟨htype, hsure⟩ := hsure owner rfl
    have howner (running : Nat) : Walk.Renews setup.actions
        (Node.dispatch (setup.services running) w (Node.nestingLimit w)) owner [n.id] := by
      have hservices : (setup.services running).actionTypes = [] := hdefault
      exact renews_parallel hservices htype hsure _
    exact passage_renews hbefore howner hp hresult hgoing n.id
      (List.mem_cons_of_mem _ (List.mem_singleton.2 rfl))

/-- A node that is awaited after its job was delivered has a new one. -/
theorem Resumed.hasJob {kept : Execution} {r : Except Fault (Option Execution)}
    (hresumed : Resumed setup g kept x h r) (hg : g.Kept setup) (hdefault : setup.actionTypes = [])
    (hactions : setup.actions.LeaveJobs) (hstored : g.stored? kept.id = some kept) {e : Execution}
    (hid : e.id = kept.id) (hawaits : h.Awaits setup e x) : h.HasJob (resumePayload e x) := by
  have hkept (heq : h = g) : e = kept := by
    subst heq
    exact Option.some.inj (hawaits.stored.symm.trans (hid ▸ hstored))
  cases hresumed with
  | idle hidle heq =>
    obtain rfl := hkept heq
    obtain ⟨s, hs, hresume⟩ := (mem_pendingResumes (hg.regular _ e hstored).sound).1 hawaits.pending
    rw [hawaits.paused, isWaiting, nodeStatus?, hs, Option.map_some,
      NodeState.waiting_of_resumeAt? hresume] at hidle
    cases hidle
  | close _ _ _ f hf hcloses =>
    have hover := hcloses.terminal
    have hstored := hawaits.stored
    rw [stored?_save hcloses.aside.memory, if_pos (hid.trans hf.symm)] at hstored
    rw [Option.some.inj hstored, hawaits.paused] at hover
    cases hover
  | refused w n hw hn fault howner heq =>
    obtain rfl := hkept heq
    subst heq
    have hrejoins := hawaits.rejoins w hw
    rw [← id_of_node? hn] at hrejoins
    obtain ⟨owner?, howner', -⟩ := waitingOwner_of_rejoins hrejoins e.reloaded
    cases howner.symm.trans howner'
  | stranded w n hw hn p hresumption fault hstrands =>
    refine absurd hstrands.stranded (hawaits.clear p ?_ ?_)
    · rw [hresumption.segment.passes.journal]
      exact List.mem_append_right _ (List.mem_singleton.2 rfl)
    · rw [hid, hresumption.segment.nodes.id_eq]
  | settled w n hw hn p hresumption f hposts =>
    have hmemory : h.memory = g.memory.saveExecution f := hposts.memory
    have houtcome := hposts.outcome
    obtain ⟨-, -, hlater, -⟩ := hresumption.segment.facts hg
    obtain ⟨hf, hworkflow⟩ := hresumption.segment.ids hg houtcome
    have hstored := hawaits.stored
    rw [stored?_save hmemory, if_pos (hid.trans hf.symm)] at hstored
    obtain rfl := Option.some.inj hstored
    obtain hhas | ⟨s, hs, hresume, hjob⟩ :=
      houtcome.hasJob hlater.sound hawaits.paused hawaits.pending
    · exact hhas
    · have hrejoins := hawaits.rejoins w (by rw [hmemory, hworkflow]; exact hw)
      rw [← id_of_node? hn] at hs hrejoins
      obtain ⟨-, hgoing, walk, hresult, -⟩ := houtcome.of_paused hawaits.paused
      have hfresh := hresumption.freshAt hg hdefault hrejoins hresult hgoing s hs
      rw [(hfresh (NodeState.waiting_of_resumeAt? hresume)).2 hactions] at hjob
      cases hjob

theorem runJob_resumePayload (setup : Setup) (e : Execution) (x : String) :
    runJob setup (resumePayload e x) = (do
      match ← execution? e.id with
      | none => return none
      | some f =>
        if !f.status.isResumable then return none
        resumeLoaded setup f x) := rfl

/-- A node that is awaited after a job for it was delivered has a job. -/
theorem runJob_hasJob (hg : g.Kept setup) (hdefault : setup.actionTypes = [])
    (hactions : setup.actions.LeaveJobs) (e : Execution) (x : String) :
    Leads (runJob setup (resumePayload e x)) g
      (fun _ h => h.Awaits setup e x → h.HasJob (resumePayload e x))
      fun _ h => h.Awaits setup e x → h.HasJob (resumePayload e x) := by
  rw [runJob_resumePayload]
  refine leads_bind (execution?_leads ?_)
  cases hstored : g.stored? e.id with
  | none => exact leads_pure fun hawaits => nomatch hstored.symm.trans hawaits.stored
  | some kept =>
    have hid := (hg.ids _ kept hstored).1
    dsimp only [Option.map_some]
    split
    · next hclosed =>
      refine leads_pure fun hawaits => ?_
      obtain rfl := Option.some.inj (hstored.symm.trans hawaits.stored)
      rw [show kept.reloaded.status = kept.status from rfl, hawaits.paused] at hclosed
      cases hclosed
    · rw [← hid] at hstored
      refine (resumeLoaded_leads hg hstored x).mono ?_ ?_
      · exact fun r h hresumed => hresumed.hasJob hg hdefault hactions hstored hid.symm
      · exact fun fault h hresumed => hresumed.hasJob hg hdefault hactions hstored hid.symm

end Work

namespace Engine
open Work

variable {setup : Setup} {g h : Engine} {extra : List Value}

theorem Woken.deliver {job : Job Float Value} (hwoken : g.Woken setup (job.payload :: extra))
    (hg : g.Kept setup) (hdefault : setup.actionTypes = []) (hactions : setup.actions.LeaveJobs) :
    (g.deliver setup job).Woken setup extra := by
  intro e x hawaits
  obtain hhas | hmem := (deliver_moves hg job).woken hg hactions hwoken e x hawaits
  · exact .inl hhas
  · obtain heq | hmem := List.mem_cons.1 hmem
    · have hhas := (runJob_hasJob hg hdefault hactions e x).state
      rw [heq] at hhas ⊢
      exact .inl (hhas hawaits)
    · exact .inr hmem

theorem Woken.deliver_all {jobs : List (Job Float Value)}
    (hwoken : g.Woken setup (jobs.map (·.payload))) (hg : g.Kept setup) (hdefault : setup.actionTypes = [])
    (hactions : setup.actions.LeaveJobs) :
    (jobs.foldl (Engine.deliver setup) g).Woken setup [] := by
  induction jobs generalizing g with
  | nil => exact hwoken
  | cons job rest ih =>
    have hkept : (g.deliver setup job).Kept setup := (deliver_moves hg job).kept hg
    exact ih (hwoken.deliver hg hdefault hactions) hkept

theorem Woken.takeDue (hwoken : g.Woken setup []) (time : Float) :
    (g.takeDue time).Woken setup ((g.schedule.takeDue time).1.map (·.payload)) := by
  intro e x hawaits
  have hbefore : g.Awaits setup e x :=
    ⟨hawaits.stored, hawaits.paused, hawaits.pending, hawaits.clear, hawaits.rejoins⟩
  obtain ⟨j, hj, hpayload⟩ | hmem := hwoken e x hbefore
  · rw [← List.takeWhile_append_dropWhile (l := g.schedule.jobs)
      (p := fun j => decide (j.runAt ≤ time))] at hj
    obtain hj | hj := List.mem_append.1 hj
    · exact .inr (List.mem_map.2 ⟨j, hj, hpayload⟩)
    · exact .inl ⟨j, hj, hpayload⟩
  · cases hmem

theorem Reached.woken (hreached : Reached setup (fun op => op.isWhole = true) g)
    (hdefault : setup.actionTypes = []) (hactions : setup.actions.LeaveJobs) : g.Woken setup [] := by
  induction hreached with
  | start now tick workflows =>
    intro e x hawaits
    cases hawaits.stored
  | @step g op hreached hwhole ih =>
    have hg := hreached.kept
    obtain hmoves | ⟨time, rfl⟩ | ⟨time, rfl⟩ := after_moves setup hg op
    · exact hmoves.woken hg hactions ih
    · rw [after_runDue]
      have htaken : Kept setup (g.takeDue time) := hg.of_memory rfl rfl
      -- Jobs that were taken make up the extra ones until each of them is delivered.
      exact (ih.takeDue time).deliver_all htaken hdefault hactions
    · cases hwhole

/-- A paused execution waits for nodes. Each of them has a job that resumes the execution there, if each
parallel node that lists the node is sure to run it. Actions leave jobs to the engine here, and give times
that can be read; no job is refused; and the clock never comes so near to the end of the calendar that
there is no later time at which a node can be tried again. -/
theorem no_lost_wakeup (hdefault : setup.actionTypes = []) (hopen : setup.refusal? = none)
    (hactions : setup.actions.LeaveJobs) (hgive : setup.actions.GiveTimes)
    (hreached : Reached setup (fun op => op.isWhole = true) g)
    (hclock : ∀ p ∈ g.journal, (p.ended.addSeconds (.int setup.config.resumePoll)).isOk = true)
    {id : String} {e : Execution} (hstored : g.stored? id = some e) (hpaused : e.status = .paused) :
    e.pendingResumes ≠ [] ∧ ∀ x ∈ e.pendingResumes.keys,
      (∀ w, g.memory.workflow? e.workflowId = some w → w.Rejoins x) →
        g.HasJob (resumePayload e x) := by
  have hkept := hreached.kept
  refine ⟨(hkept.regular id e hstored).waits hpaused, fun x hx hrejoins => ?_⟩
  obtain rfl := (hkept.ids id e hstored).1
  have hclear (p : Passage) (hp : p ∈ g.journal) (_ : p.before.id = e.id) : ¬ p.Stranded setup :=
    Passage.not_stranded (hreached.sound p hp) hgive hopen (hclock p hp)
  have hawaits : g.Awaits setup e x := ⟨hstored, hpaused, hx, hclear, hrejoins⟩
  obtain hhas | hmem := hreached.woken hdefault hactions e x hawaits
  · exact hhas
  · cases hmem

/-! ## A branch that is left out -/

/-- A start that leads to a delay directly, and to a parallel node which has it as the second branch but
runs one branch only. -/
def crowded : Workflow := .ofNodes
  [⟨"begin", "start", .map [], .null, .null⟩,
    ⟨"fork", "parallel", .object [("branches", Value.strings ["hold", "late"])], .null, .null⟩,
    ⟨"hold", "wait", .map [], .null, .null⟩,
    ⟨"late", "delay", .object [("value", .int 10)], .null, .null⟩]
  [⟨"begin", "fork", .null, .null⟩, ⟨"begin", "late", .null, .null⟩]
  [(.str "max_parallel_branches", .int 1)]

/-- The engine when the delay is over, and the jobs that were due are delivered. -/
def crowdedOut : Engine := (knowing crowded).run (.ofActions [])
  [.execute crowded .null .null, .setClock ⟨⟨2024, 6, 15⟩, 12, 0, 10, 0, some 0⟩, .runDue 1718452810]

/-- The delay waits still, and no job is left for it. -/
theorem late_left_without_job :
    ∃ e, Reached (.ofActions []) (fun op => op.isWhole = true) crowdedOut ∧
      crowdedOut.stored? "exec-1" = some e ∧ e.status = .paused ∧ "late" ∈ e.pendingResumes.keys ∧
      ¬ crowdedOut.HasJob (resumePayload e "late") := by
  have hkept : (crowdedOut.stored? "exec-1").any (fun e =>
      decide (e.status = .paused ∧ "late" ∈ e.pendingResumes.keys)) = true := by decide +kernel
  have hjobs : ∀ j ∈ crowdedOut.schedule.jobs,
      (j.payload.field? "node_id").any (·.same (.str "late")) = false := by decide +kernel
  obtain ⟨e, hstored, he⟩ := (Option.any_eq_true _ _).1 hkept
  obtain ⟨hpaused, hpending⟩ := of_decide_eq_true he
  refine ⟨e, (reached_knowing ..).run (by decide), hstored, hpaused, hpending, ?_⟩
  rintro ⟨j, hj, hpayload⟩
  have hnode := hjobs j hj
  rw [hpayload] at hnode
  cases hnode

/-- An action that waits up to a time. -/
def remind : Action where
  type := "remind"
  schema := .null
  run _ := ⟨[], .ok (.result (.waiting "" (.float 1718452900) []))⟩

def reminding : Actions := [("remind", remind)]

theorem result_of_reminding {type : String} {a : Action} (ha : reminding.get? type = some a)
    {call : ActionCall} {r : NodeResult} (hr : (a.run call).answer = .ok (.result r)) :
    r = .waiting "" (.float 1718452900) [] := by
  obtain rfl : a = remind := by
    have hmem := Table.mem_of_get? ha
    exact congrArg Prod.snd (List.mem_singleton.1 hmem)
  exact (ActionAnswer.result.inj (Except.ok.inj hr)).symm

/-- A start that leads to a parallel node whose branch is that action. -/
def forked : Workflow := .ofNodes
  [⟨"begin", "start", .map [], .null, .null⟩,
    ⟨"fork", "parallel", .object [("branches", Value.strings ["hold"])], .null, .null⟩,
    ⟨"hold", "action", .map [], .str "remind", .null⟩]
  [⟨"begin", "fork", .null, .null⟩] []

/-- The engine when the branch waits. -/
def forkHeld : Engine := (knowing forked).run (.ofActions reminding) [.execute forked .null .null]

/-- The branch that waits has a job. -/
theorem no_lost_wakeup_forked :
    ∃ e, reminding.LeaveJobs ∧ reminding.GiveTimes ∧
      Reached (.ofActions reminding) (fun op => op.isWhole = true) forkHeld ∧
      (∀ p ∈ forkHeld.journal, (p.ended.addSeconds (.int Config.standard.resumePoll)).isOk = true) ∧
      forkHeld.stored? "exec-1" = some e ∧ e.status = .paused ∧ "hold" ∈ e.pendingResumes.keys ∧
      forkHeld.HasJob (resumePayload e "hold") := by
  have hkept : (forkHeld.stored? "exec-1").any (fun e => decide (e.status = .paused ∧
      "hold" ∈ e.pendingResumes.keys ∧ e.workflowId = "flow")) = true := by decide +kernel
  have hrejoins : (forkHeld.memory.workflow? "flow").all (fun w => decide (w.Rejoins "hold")) = true := by
    decide +kernel
  have hreached : Reached (.ofActions reminding) (fun op => op.isWhole = true) forkHeld :=
    (reached_knowing ..).run (by decide)
  have hclock : ∀ p ∈ forkHeld.journal,
      (p.ended.addSeconds (.int Config.standard.resumePoll)).isOk = true := by decide +kernel
  have hleave : reminding.LeaveJobs := by
    intro type a ha call r hr _
    rw [result_of_reminding ha hr]
    rfl
  have hgive : reminding.GiveTimes := by
    intro type a ha call r hr _
    rw [result_of_reminding ha hr]
    exact NodeResult.timely_waitingWith _ (.inr ⟨1718452900, rfl⟩) (by simp)
  obtain ⟨e, hstored, he⟩ := (Option.any_eq_true _ _).1 hkept
  obtain ⟨hpaused, hpending, hflow⟩ := of_decide_eq_true he
  obtain ⟨-, hjobs⟩ := no_lost_wakeup rfl rfl hleave hgive hreached hclock hstored hpaused
  refine ⟨e, hleave, hgive, hreached, hclock, hstored, hpaused, hpending, ?_⟩
  refine hjobs "hold" hpending fun w hw => ?_
  rw [hflow] at hw
  rw [hw] at hrejoins
  exact of_decide_eq_true hrejoins

end Engine

end Flowline
