import Flowline.Proofs.Engine.Repetition
import Flowline.Proofs.Engine.Wakeup

/-! # Branches that outlast their parallel node

A parallel node that needs only one of its branches may be completed while others wait. No parallel node
waits for those any more: a branch that is woken then is run as any other node is, and where its walk
fails, so does the execution. -/

namespace Flowline
open Execution Passage

variable {setup : Setup} {g h : Engine} {id x : String}

/-! ## Jobs that are added -/

/-- No job was added that does not resume an execution. -/
def Engine.GainsResumes (g h : Engine) : Prop :=
  ∀ j ∈ h.schedule.jobs, j ∈ g.schedule.jobs ∨ ∃ e x, j.payload = Work.resumePayload e x

instance : IsPreorder Engine Engine.GainsResumes where
  refl _ _ hj := .inl hj
  trans _ _ _ h₁ h₂ j hj := (h₂ j hj).elim (h₁ j) .inr

theorem Engine.GainsResumes.of_eq (hschedule : h.schedule = g.schedule) : g.GainsResumes h :=
  fun _ hj => .inl (hschedule ▸ hj)

namespace Work
open Engine

theorem within_schedule_resume (runAt : Value) (e : Execution) (x : String) :
    Within GainsResumes (schedule setup runAt (resumePayload e x)) := by
  unfold schedule
  split
  · exact gives_throw
  · refine (within_of _).bind fun time g => leads_bind (leads_get (leads_bind (leads_set ?_)))
    refine leads_pure ⟨fun j hj => ?_, trivial⟩
    obtain rfl | hj := Schedule.mem_place.1 hj
    · exact .inr ⟨e, x, rfl⟩
    · exact .inl hj

theorem settle_schedule (kind : EventKind) (e : Execution) (g : Engine) :
    Leads (settle setup kind e) g (fun f h => f = e ∧ h.schedule = g.schedule) fun _ _ => False := by
  refine leads_bind (leads_modify ?_)
  refine Leads.bind (publishAt_leads kind e none _) ?_
  rintro _ h rfl
  exact leads_pure ⟨rfl, rfl⟩

/-- A segment that does not end with the execution failed adds only jobs that resume executions. -/
theorem conclude_gains (w : Workflow) (e : Execution) (r : Except Fault Walk) (g : Engine) :
    Leads (conclude setup w e r) g (fun f h => f.status = .failed ∨ g.GainsResumes h)
      fun _ h => g.GainsResumes h := by
  have settles (kind : EventKind) (f : Execution) (h : Engine) (hgains : g.GainsResumes h) :
      Leads (settle setup kind f) h (fun f h => f.status = .failed ∨ g.GainsResumes h)
        fun _ h => g.GainsResumes h := by
    refine (settle_schedule kind f h).mono ?_ fun _ _ hfalse => hfalse.elim
    exact fun _ i hi => .inr (trans_of GainsResumes hgains (.of_eq hi.2))
  unfold conclude
  split
  · exact leads_bind (leads_bind (leads_get (leads_pure (settles _ _ _ (refl_of GainsResumes g)))))
  · cases r with
    | error fault =>
      refine (endFailed_leads w e fault).mono ?_ fun _ _ hfalse => hfalse.elim
      exact fun f h hends => .inl hends.status_eq
    | ok walk =>
      refine Leads.bind ((gives_scheduleResumes_sameEnd within_schedule_resume w walk.suspended.keys e g).mono
        (fun _ _ h => h) fun _ _ h => h) ?_
      rintro f h ⟨hgains, -⟩
      split
      · exact leads_bind (leads_bind (leads_get (leads_pure (settles _ _ _ hgains))))
      · exact settles _ _ _ hgains

theorem runSegment_gains (w : Workflow) (e : Execution) (starts : List Node) (g : Engine) :
    Leads (runSegment setup w e starts) g (fun f h => f.status = .failed ∨ g.GainsResumes h)
      fun _ h => g.GainsResumes h := by
  have hwalk : Leads (walk setup w e starts) g (fun _ h => h.schedule = g.schedule) fun _ _ => False := rfl
  refine Leads.bind (hwalk.mono (fun _ _ h => h) fun _ _ hfalse => hfalse.elim) ?_
  intro p g₁ hschedule
  refine leads_bind (leads_attempt ((conclude_gains w p.after p.result g₁).mono ?_ ?_))
  · intro f h hgains
    refine leads_bind (leads_modify (leads_pure (hgains.imp_right fun hgains => ?_)))
    exact fun j hj => hschedule ▸ hgains j hj
  · intro fault h hgains
    exact leads_bind (leads_modify (leads_throw (α := Execution) fun j hj => hschedule ▸ hgains j hj))

theorem resumeLoaded_gains (e : Execution) (node : String) (g : Engine) :
    Leads (resumeLoaded setup e node) g
      (fun r h => (∃ f, r = some f ∧ f.status = .failed) ∨ g.GainsResumes h)
      fun _ h => g.GainsResumes h := by
  unfold resumeLoaded
  split
  · exact leads_pure (.inr (refl_of GainsResumes g))
  · refine leads_bind (leads_bind (leads_get (leads_pure ?_)))
    have close (reason : String) : Leads (do
        let f ← failResume setup e node reason
        return some f) g (fun r h => (∃ f, r = some f ∧ f.status = .failed) ∨ g.GainsResumes h)
        fun _ h => g.GainsResumes h := by
      refine leads_bind (leads_bind (leads_bind (leads_get (leads_pure ?_))))
      refine (settle_schedule _ _ g).mono ?_ fun _ _ hfalse => hfalse.elim
      rintro f h ⟨rfl, -⟩
      exact leads_pure (.inl ⟨_, rfl, note_status ..⟩)
    cases g.memory.workflow? e.workflowId with
    | none => exact close _
    | some w =>
      dsimp only
      cases w.node? node with
      | none => exact close _
      | some n =>
        refine leads_bind (Leads.bind ((reopen_leads w e n g).mono (fun _ _ h => h) ?_) ?_)
        · rintro fault h ⟨-, rfl⟩
          exact refl_of GainsResumes h
        · intro ⟨f, start⟩ g₁ ⟨_, _, henters, _⟩
          refine (runSegment_gains w f [start] g₁).mono ?_ ?_
          · intro f h hgains
            refine leads_pure (hgains.imp (fun hfailed => ⟨f, rfl, hfailed⟩) fun hgains j hj => ?_)
            exact henters.schedule ▸ hgains j hj
          · exact fun fault h hgains j hj => henters.schedule ▸ hgains j hj

/-! ## Owners -/

/-- Among the parallel nodes of a workflow, whose branches can all be looked up, only one has a branch. -/
def BranchOf (w : Workflow) (n : Node) (x : String) : Prop :=
  ∀ m ∈ w.nodes, m.type = "parallel" →
    (m.lists x).toOption.any (fun listed => !listed || m.id == n.id) = true

instance (w : Workflow) (n : Node) (x : String) : Decidable (BranchOf w n x) :=
  inferInstanceAs (Decidable (∀ m ∈ w.nodes, m.type = "parallel" →
    (m.lists x).toOption.any (fun listed => !listed || m.id == n.id) = true))

/-- No parallel node waits for a branch any more when its own does not. -/
theorem waitingOwner_of_branchOf {w : Workflow} {n : Node} (hbranch : BranchOf w n x) {e : Execution}
    (hn : e.isWaiting n.id = false) : waitingOwner? e x w.nodes = .ok none := by
  have none_owns (m : Node) (hm : m ∈ w.nodes) : isWaitingOwner e x m = .ok false := by
    by_cases htype : m.type = "parallel"
    · have hown := hbranch m hm htype
      rw [isWaitingOwner_eq e x htype]
      cases hlisted : m.lists x with
      | error fault =>
        rw [hlisted] at hown
        cases hown
      | ok listed =>
        rw [hlisted] at hown
        cases listed with
        | false => rfl
        | true =>
          rw [eq_of_beq (a := m.id) (b := n.id) hown, hn]
          rfl
    · exact isWaitingOwner_of_ne e x htype
  have all (nodes : List Node) (hsub : ∀ m ∈ nodes, m ∈ w.nodes) : waitingOwner? e x nodes = .ok none := by
    induction nodes with
    | nil => rfl
    | cons m rest ih =>
      rw [waitingOwner?, none_owns m (hsub m (List.mem_cons_self ..))]
      exact ih fun k hk => hsub k (List.mem_cons_of_mem m hk)
  exact all w.nodes fun _ hm => hm

end Work

/-! ## What wakes a node -/

/-- Nothing comes of an operation for the executions and the jobs that an engine has. -/
structure Engine.Rests (g h : Engine) : Prop where
  memory : h.memory = g.memory
  schedule : h.schedule = g.schedule
  journal : h.journal = g.journal
  events : h.events = g.events

/-- An execution was kept as failed. -/
def Engine.HasFailed (g : Engine) (id : String) : Prop := ∃ f, g.stored? id = some f ∧ f.status = .failed

/-- A walk was made for an execution from a node alone. The execution has failed exactly if the walk has and
was not cancelled, and only then is there a new job that does not resume an execution. -/
def Engine.RunsAlone (g : Engine) (id : String) (n : Node) (h : Engine) : Prop :=
  ∃ p, h.journal = g.journal ++ [p] ∧ p.before.id = id ∧ p.starts = [n] ∧
    (h.HasFailed id ↔ (∃ fault, p.result = .error fault) ∧ p.after.status ≠ .cancelled) ∧
    (h.HasFailed id ∨ g.GainsResumes h)

namespace Work
open Engine

/-- What comes of waking a kept execution at a node: it is resumed there, if it can be, and a job is added
that does not resume an execution only if it fails. -/
structure Woke (setup : Setup) (g : Engine) (kept : Execution) (x : String)
    (r : Except Fault (Option Execution)) (h : Engine) : Prop where
  resumed : Resumed setup g kept x h r
  jobs : (∃ f : Execution, r = .ok (some f) ∧ f.status = .failed) ∨ g.GainsResumes h

variable {kept : Execution}

theorem resumeLoaded_woke (hg : g.Kept setup) (hstored : g.stored? kept.id = some kept) (x : String) :
    Leads (resumeLoaded setup kept.reloaded x) g (fun r h => Woke setup g kept x (.ok r) h)
      fun fault h => Woke setup g kept x (.error fault) h := by
  refine ((resumeLoaded_leads hg hstored x).and (resumeLoaded_gains kept.reloaded x g)).mono ?_ ?_
  · intro r h ⟨hresumed, hgains⟩
    exact ⟨hresumed, hgains.imp_left fun ⟨f, hr, hf⟩ => ⟨f, congrArg Except.ok hr, hf⟩⟩
  · exact fun fault h ⟨hresumed, hgains⟩ => ⟨hresumed, .inr hgains⟩

theorem resume_woke (hg : g.Kept setup) (hstored : g.stored? id = some kept) (x : String) :
    Leads (resume setup id x) g (fun r h => Woke setup g kept x (.ok r) h)
      fun fault h => Woke setup g kept x (.error fault) h := by
  refine leads_bind (execution?_leads ?_)
  obtain rfl := (hg.ids id kept hstored).1
  rw [hstored]
  exact resumeLoaded_woke hg hstored x

theorem runJob_woke (hg : g.Kept setup) {e : Execution} (hstored : g.stored? e.id = some kept)
    (x : String) : Leads (runJob setup (resumePayload e x)) g
      (fun r h => Woke setup g kept x (.ok r) h) fun fault h => Woke setup g kept x (.error fault) h := by
  rw [runJob_resumePayload]
  refine leads_bind (execution?_leads ?_)
  have hid := (hg.ids _ kept hstored).1
  rw [hstored]
  dsimp only [Option.map_some]
  split
  · next hclosed =>
    refine leads_pure ⟨.idle ?_ rfl, .inr (refl_of GainsResumes g)⟩
    rw [Bool.or_eq_true]
    exact .inl hclosed
  · exact resumeLoaded_woke hg (hid ▸ hstored) x

variable {r : Except Fault (Option Execution)}

theorem Resumed.eq_of_idle (hresumed : Resumed setup g kept x h r)
    (hidle : kept.status.isResumable = false ∨ kept.isWaiting x = false) : h = g := by
  have busy (hopen : kept.status.isResumable = true) (hwaits : kept.isWaiting x = true) : h = g := by
    rw [hopen, hwaits] at hidle
    cases hidle with
    | inl hclosed => cases hclosed
    | inr hdone => cases hdone
  cases hresumed with
  | idle _ heq => exact heq
  | close hopen hwaits _ _ _ _ => exact busy hopen hwaits
  | refused _ _ _ _ _ _ heq => exact heq
  | settled w m _ hm p hresumption | stranded w m _ hm p hresumption =>
    exact busy hresumption.segment.resumable (id_of_node? hm ▸ hresumption.waits)

/-- A branch that waits when its parallel node does not is run alone. -/
theorem Woke.runsAlone (hwoke : Woke setup g kept x r h) (hg : g.Kept setup)
    (hopen : kept.status.isResumable = true) (hwaits : kept.isWaiting x = true) {w : Workflow}
    {m n : Node} (hw : g.memory.workflow? kept.workflowId = some w) (hm : w.node? x = some m)
    (hbranch : BranchOf w n x) (hn : kept.isWaiting n.id = false) : g.RunsAlone kept.id m h := by
  have hnone : waitingOwner? kept.reloaded x w.nodes = .ok none := waitingOwner_of_branchOf hbranch hn
  have alone {w' : Workflow} {m' : Node} {p : Passage} (hw' : g.memory.workflow? kept.workflowId = some w')
      (hm' : w'.node? x = some m') (hresumption : Resumption setup g kept w' m' p h) :
      p.before.id = kept.id ∧ p.starts = [m] := by
    obtain rfl := Option.some.inj (hw.symm.trans hw')
    obtain rfl := Option.some.inj (hm.symm.trans hm')
    obtain ⟨owner?, howner, hstarts⟩ := hresumption.starts
    rw [id_of_node? hm, hnone] at howner
    obtain rfl := Except.ok.inj howner
    exact ⟨hresumption.segment.nodes.id_eq, hstarts⟩
  cases hwoke.resumed with
  | idle hidle _ =>
    rw [hopen, hwaits] at hidle
    cases hidle
  | close _ _ hgone _ _ _ => cases (hgone w hw).symm.trans hm
  | refused w' m' hw' hm' fault howner _ =>
    obtain rfl := Option.some.inj (hw.symm.trans hw')
    rw [id_of_node? hm', hnone] at howner
    cases howner
  | settled w' m' hw' hm' p hresumption f hposts =>
    obtain ⟨hid, hstarts⟩ := alone hw' hm' hresumption
    have hstored : h.stored? kept.id = some f := by
      rw [stored?_save hposts.memory, if_pos (hresumption.segment.ids hg hposts.outcome).1.symm]
    have hfailed : h.HasFailed kept.id ↔ f.status = .failed := by
      constructor
      · rintro ⟨f', hf', hstatus⟩
        exact Option.some.inj (hstored.symm.trans hf') ▸ hstatus
      · exact fun hstatus => ⟨f, hstored, hstatus⟩
    refine ⟨p, hresumption.journal, hid, hstarts, hfailed.trans hposts.outcome.failed_iff, ?_⟩
    refine hwoke.jobs.imp_left ?_
    rintro ⟨_, ⟨⟩, hstatus⟩
    exact hfailed.2 hstatus
  | stranded w' m' hw' hm' p hresumption fault hstrands =>
    obtain ⟨hid, hstarts⟩ := alone hw' hm' hresumption
    refine ⟨p, hresumption.journal, hid, hstarts, ?_, ?_⟩
    · have hstored := (stored?_of_memory hstrands.memory kept.id).trans (hid ▸ hresumption.segment.stored)
      obtain ⟨-, walk, hresult, -⟩ := hstrands.stranded
      constructor
      · rintro ⟨f, hf, hfailed⟩
        obtain rfl := Option.some.inj (hstored.symm.trans hf)
        rw [hfailed] at hopen
        cases hopen
      · rintro ⟨⟨fault', hfault⟩, -⟩
        cases hresult.symm.trans hfault
    · refine hwoke.jobs.imp_left ?_
      rintro ⟨_, ⟨⟩, -⟩

end Work

/-- An operation that resumes an execution at a node, delivers a signal to the node, or runs a job that
resumes the execution there. -/
inductive Operation.Wakes (id x : String) : Operation → Prop
  | resume : Wakes id x (.resume id x)
  | signal (payload : Value) : Wakes id x (.deliverSignal id x payload)
  | job (e : Execution) (hid : e.id = id) : Wakes id x (.runJob (Work.resumePayload e x))

namespace Engine
open Work

theorem after_wakes {kept : Execution} {op : Operation} (hop : op.Wakes id x) (hg : g.Kept setup)
    (hstored : g.stored? id = some kept) :
    ∃ signals r, Woke setup { g with signals := signals } kept x r (g.after setup op) := by
  cases hop with
  | resume => exact ⟨g.signals, _, (resume_woke hg hstored x).result⟩
  | signal payload =>
    have hput : Kept setup { g with signals := g.signals.put id x payload } := hg.of_memory rfl rfl
    exact ⟨g.signals.put id x payload, _, (resume_woke hput hstored x).result⟩
  | job e hid =>
    subst hid
    exact ⟨g.signals, _, (runJob_woke hg hstored x).result⟩

theorem rests_of_eq {signals : Signals} (heq : h = { g with signals := signals }) : g.Rests h := by
  subst heq
  exact ⟨rfl, rfl, rfl, rfl⟩

/-- A node to which nothing leads is visited after another one was completed only where a walk begins with
it, and then it has waited. -/
theorem visited_of_secluded {p : Passage} (hmade : p.Made setup) {n : String} {s : NodeState}
    (hn : p.before.state? n = some s) (hx : x ∈ p.after.trail)
    (hsecluded : ∀ k m, m.id = x → ¬ Work.LeadsTo setup p.workflow k m) :
    p.before.isWaiting x = true ∧ ∃ m, p.starts = [m] ∧ m.id = x := by
  obtain hnone | ⟨k, hk, hwaits⟩ := hmade.starts
  · rw [state?, hnone] at hn
    cases hn
  · obtain ⟨k', hk', m, rfl, hleads⟩ := hmade.led hx
    rw [hk] at hk'
    obtain rfl := List.mem_singleton.1 hk'
    obtain rfl | ⟨j, -, hlast⟩ := Relation.ReflTransGen.cases_tail hleads
    · exact ⟨hwaits, _, hk, rfl⟩
    · exact absurd hlast (hsecluded j m rfl)

/-- A branch of a parallel node that is kept as completed, in whatever the engine is asked for later. The
branch is visited only by walks that begin with it, when it has waited, if nothing leads to it. To wake the
branch is without consequence if it does not wait or the execution cannot go on; otherwise, where no other
parallel node has the branch, it is run alone, and the execution fails with its walk. -/
theorem branch_runs_alone (hg : Reached setup (fun _ => True) g) (ops : List Operation) {e : Execution}
    {n : Node} (hstored : g.stored? id = some e) (hwon : e.isCompleted n.id = true) :
    (∃ later, (g.run setup ops).journal = g.journal ++ later ∧ ∀ p ∈ later, p.before.id = id →
      x ∈ p.after.trail → (∀ k m, m.id = x → ¬ Work.LeadsTo setup p.workflow k m) →
        p.before.isWaiting x = true ∧ ∃ m, p.starts = [m] ∧ m.id = x) ∧
    ∀ kept op, (g.run setup ops).stored? id = some kept → op.Wakes id x →
      (kept.status.isResumable = false ∨ kept.isWaiting x = false →
        (g.run setup ops).Rests ((g.run setup ops).after setup op)) ∧
      (kept.status.isResumable = true → kept.isWaiting x = true →
        ∀ w m, (g.run setup ops).memory.workflow? kept.workflowId = some w → w.node? x = some m →
          BranchOf w n x →
            (g.run setup ops).RunsAlone id m ((g.run setup ops).after setup op)) := by
  obtain ⟨s, hstate, hs⟩ : ∃ s, e.state? n.id = some s ∧ s.status = .completed := by
    rw [isCompleted, beq_iff_eq, nodeStatus?, Option.map_eq_some_iff] at hwon
    exact hwon
  have hsteps : Steps setup g (g.run setup ops) := run_steps hg.kept ops
  have hkept : (g.run setup ops).Kept setup := hsteps.kept hg.kept
  constructor
  · obtain ⟨later, hjournal, hlater⟩ := hsteps.aware hg.kept ⟨e, hstored, hstate⟩ hs
    refine ⟨later, hjournal, fun p hp hid hx hsecluded => ?_⟩
    obtain ⟨hmade, hbefore⟩ := hlater p hp
    exact visited_of_secluded hmade (hbefore hid) hx hsecluded
  · intro kept op hstored' hop
    obtain ⟨signals, r, hwoke⟩ := after_wakes hop hkept hstored'
    refine ⟨fun hidle => ?_, fun hopen hwaits w m hw hm hbranch => ?_⟩
    · exact rests_of_eq (hwoke.resumed.eq_of_idle hidle)
    · have hn : kept.isWaiting n.id = false := by
        obtain ⟨kept', hstored'', hstate'⟩ := hsteps.keepsState hg.kept ⟨e, hstored, hstate⟩ hs
        obtain rfl := Option.some.inj (hstored'.symm.trans hstored'')
        rw [isWaiting, nodeStatus?, hstate', Option.map_some, hs]
        rfl
      obtain rfl := (hkept.ids id kept hstored').1
      have hsignals : Kept setup { g.run setup ops with signals := signals } := hkept.of_memory rfl rfl
      exact hwoke.runsAlone hsignals hopen hwaits hw hm hbranch hn

/-! ## A race that is lost after it was won -/

/-- A parallel node that needs one of two branches. -/
def fork : Node :=
  ⟨"fork", "parallel", .object [("branches", Value.strings ["hold", "quick"]), ("wait_for_all", .bool false)],
    .null, .null⟩

/-- One branch waits for a signal, for ten seconds at most, and the other one is done at once. -/
def race : Workflow := .ofNodes
  [⟨"begin", "start", .map [], .null, .null⟩, fork,
    ⟨"hold", "wait", .object [("timeout", .int 10)], .null, .null⟩,
    ⟨"quick", "set_variable", .object [("variables", .object [("x", .int 1)])], .null, .null⟩]
  [⟨"begin", "fork", .null, .null⟩] [(.str "retry_strategy", .str "fixed")]

/-- The engine when the race is won. -/
def won : Engine := (knowing race).after (.ofActions []) (.execute race .null .null)

theorem reached_won : Reached (.ofActions []) (fun _ => True) won := .step (reached_knowing ..) trivial

/-- The engine ten seconds later. -/
def raced : Engine := won.run (.ofActions []) [.setClock ⟨⟨2024, 6, 15⟩, 12, 0, 10, 0, some 0⟩]

/-- The branch that waited has the execution fail when its time is over, and the workflow run again. -/
theorem race_lost_after_won :
    (raced.stored? "exec-1").any (fun e => e.isCompleted "fork" && e.isWaiting "hold") = true ∧
      ((raced.after (.ofActions []) (.runDue 1718452810)).stored? "exec-1").map (·.status) =
        some .failed ∧
      (raced.after (.ofActions []) (.runDue 1718452810)).schedule.jobs.map
        (fun j => (j.payload.field? "action").any (·.same (.str "execute_workflow"))) = [true] := by
  decide +kernel

/-- As it is woken, the branch is run alone. -/
theorem branch_runs_alone_raced : ∃ e m, Reached (.ofActions []) (fun _ => True) won ∧
    won.stored? "exec-1" = some e ∧ e.isCompleted fork.id = true ∧ m.id = "hold" ∧
      raced.RunsAlone "exec-1" m (raced.after (.ofActions []) (.resume "exec-1" "hold")) := by
  have hwon : (won.stored? "exec-1").any (·.isCompleted fork.id) = true := by decide +kernel
  have hkept : (raced.stored? "exec-1").any (fun e => decide (e.status.isResumable = true ∧
      e.isWaiting "hold" = true ∧ e.workflowId = "flow")) = true := by decide +kernel
  have hnode : (raced.memory.workflow? "flow").any (fun w => decide (BranchOf w fork "hold") &&
      (w.node? "hold").isSome) = true := by decide +kernel
  obtain ⟨e, hstored, hwon⟩ := (Option.any_eq_true _ _).1 hwon
  obtain ⟨kept, hkept, hopen⟩ := (Option.any_eq_true _ _).1 hkept
  obtain ⟨hopen, hwaits, hflow⟩ := of_decide_eq_true hopen
  obtain ⟨w, hw, hnode⟩ := (Option.any_eq_true _ _).1 hnode
  obtain ⟨hbranch, hm⟩ := Bool.and_eq_true_iff.1 hnode
  obtain ⟨m, hm⟩ := Option.isSome_iff_exists.1 hm
  obtain ⟨-, hwakes⟩ := branch_runs_alone (x := "hold") reached_won
    [.setClock ⟨⟨2024, 6, 15⟩, 12, 0, 10, 0, some 0⟩] hstored hwon
  obtain ⟨-, halone⟩ := hwakes kept (.resume "exec-1" "hold") hkept .resume
  exact ⟨e, m, reached_won, hstored, hwon, id_of_node? hm,
    halone hopen hwaits w m (hflow ▸ hw) hm (of_decide_eq_true hbranch)⟩

end Engine

end Flowline
