import Flowline.Proofs.Engine.Records
import Mathlib.Algebra.Group.Int.Defs

/-! # The life cycle of an execution

An execution is started, and completed, failed, cancelled or paused then; when it is paused, it is resumed,
failed or cancelled. What is published of an execution tells its life so far, up to the status with which
it is kept, as long as no walk that resumes it is stranded. -/

namespace Flowline

/-- The status to which an event brings an execution, unless it does not happen to one as it stands. -/
def ExecutionStatus.next? : ExecutionStatus → EventKind → Option ExecutionStatus
  | .pending, .started => some .running
  | .running, .paused => some .paused
  | .running, .completed => some .completed
  | .running, .failed => some .failed
  | .running, .cancelled => some .cancelled
  | .paused, .resumed => some .running
  | .paused, .failed => some .failed
  | .paused, .cancelled => some .cancelled
  | _, _ => none

/-- The status to which the events of a life bring an execution, the first event first. -/
def lifeStatus? (life : List EventKind) : Option ExecutionStatus :=
  life.foldlM ExecutionStatus.next? .pending

theorem lifeStatus?_append {life later : List EventKind} {status : ExecutionStatus}
    (h : lifeStatus? life = some status) :
    lifeStatus? (life ++ later) = later.foldlM ExecutionStatus.next? status := by
  rw [lifeStatus?, List.foldlM_append]
  exact congrArg (· >>= _) h

theorem lifeStatus?_concat {life : List EventKind} {kind : EventKind} {status next : ExecutionStatus}
    (h : lifeStatus? life = some status) (hnext : status.next? kind = some next) :
    lifeStatus? (life ++ [kind]) = some next := by
  rw [lifeStatus?_append h, List.foldlM_cons, hnext]
  rfl

theorem next?_of_settled {status : ExecutionStatus} (h : status.isTerminal = true ∨ status = .paused) :
    ExecutionStatus.next? .running status.event = some status := by
  obtain hover | rfl := h
  · cases status with
    | completed | failed | cancelled => rfl
    | _ => cases hover
  · rfl

theorem next?_of_ended {status last : ExecutionStatus} (hopen : status.isTerminal = false)
    (hbegun : status ≠ .pending) (hlast : last = .failed ∨ last = .cancelled) :
    status.next? last.event = some last := by
  cases status with
  | pending => exact absurd rfl hbegun
  | running | paused =>
    obtain rfl | rfl := hlast
    · rfl
    · rfl
  | _ => cases hopen

/-- The events among some that happened to an execution. -/
def Event.lifeIn (events : List Event) (id : String) : List EventKind :=
  (events.filter (·.executionId == id)).map (·.kind)

open Event

theorem lifeIn_append (events later : List Event) (id : String) :
    lifeIn (events ++ later) id = lifeIn events id ++ lifeIn later id := by
  rw [lifeIn, List.filter_append, List.map_append]
  rfl

section Announced
variable {setup : Setup} (hpublishes : setup.publishes = true) {e : Execution} {id : String}
include hpublishes

theorem lifeIn_announced (kind : EventKind) (hid : e.id = id) (node? : Option String) :
    lifeIn (setup.announced kind e node?) id = [kind] := by
  simp [lifeIn, Setup.announced, hpublishes, hid]

theorem lifeIn_announced_of_ne (kind : EventKind) (hid : e.id ≠ id) (node? : Option String) :
    lifeIn (setup.announced kind e node?) id = [] := by
  simp [lifeIn, Setup.announced, hpublishes, hid]

end Announced

namespace Engine
open Execution

variable {setup : Setup} {g h : Engine} {id : String}

/-- What was published of an execution is a life that ends in the status with which it is kept. -/
def Tells (g : Engine) (id : String) : Prop :=
  ∃ status, lifeStatus? (lifeIn g.events id) = some status ∧
    ∀ e, g.stored? id = some e → e.status = status

theorem Tells.of_eq (hg : g.Tells id) (hlife : lifeIn h.events id = lifeIn g.events id)
    (hstored : ∀ e, h.stored? id = some e → g.stored? id = some e) : h.Tells id := by
  obtain ⟨status, hstatus, hkept⟩ := hg
  exact ⟨status, hlife ▸ hstatus, fun e he => hkept e (hstored e he)⟩

theorem Tells.status (hg : g.Tells id) {kept : Execution} (hkept : g.stored? id = some kept) :
    lifeStatus? (lifeIn g.events id) = some kept.status := by
  obtain ⟨status, hstatus, hall⟩ := hg
  rw [hstatus, hall kept hkept]

theorem tells_of_saved {f : Execution} (hmemory : h.memory = g.memory.saveExecution f) (hid : f.id = id)
    (hlife : lifeStatus? (lifeIn h.events id) = some f.status) : h.Tells id := by
  refine ⟨f.status, hlife, fun e he => ?_⟩
  rw [stored?_save hmemory, if_pos hid.symm] at he
  rw [Option.some.inj he]

/-! ## Segments -/

section Segment
variable {kept : Execution} {p : Passage} (hsegment : g.Segment setup kept p h) (hg : g.Kept setup)
include hsegment hg

/-- The first segment begins with an execution that is running, and no later one does. -/
theorem Segment.states_eq_nil_iff : p.before.states = [] ↔ kept.status = .running := by
  have hregular := hg.regular _ kept hsegment.stored
  rw [hsegment.nodes.states_eq]
  refine ⟨fun hnone => ?_, hregular.idle⟩
  cases hstatus : kept.status with
  | running => rfl
  | paused =>
    refine absurd ?_ (hregular.waits hstatus)
    rw [pendingResumes, hnone]
    rfl
  | _ =>
    have hopen := hsegment.resumable
    rw [hstatus] at hopen
    cases hopen

variable (hpublishes : setup.publishes = true)
include hpublishes

/-- Whichever segment it is, what is published as it begins leaves the execution running. -/
theorem Segment.begins (htells : g.Tells p.before.id) {news : List Event} (hopens : Opens setup kept p news) :
    lifeStatus? (lifeIn (g.telling news).events p.before.id) = some .running := by
  have hlife := htells.status hsegment.stored
  rw [telling, lifeIn_append]
  cases hopens with
  | first hstatus =>
    rw [hstatus] at hlife
    exact (congrArg lifeStatus? (List.append_nil _)).trans hlife
  | again x hwaits =>
    rw [lifeIn_announced hpublishes .resumed rfl]
    refine lifeStatus?_concat hlife ?_
    cases hstatus : kept.status with
    | paused => rfl
    | running =>
      rw [isWaiting, nodeStatus?, state?, (hg.regular _ kept hsegment.stored).idle hstatus] at hwaits
      cases hwaits
    | _ =>
      have hopen := hsegment.resumable
      rw [hstatus] at hopen
      cases hopen

/-- A segment that is not the first one leaves off telling exactly if its walk is stranded. -/
theorem Segment.tells_iff (htells : g.Tells p.before.id) :
    h.Tells p.before.id ↔ (p.before.states ≠ [] → ¬ p.Stranded setup) := by
  obtain ⟨news, hopens, ⟨f, hposts⟩ | hstrands⟩ := hsegment.outcome
  · refine ⟨fun _ _ => hposts.clear, fun _ => ?_⟩
    have hid : f.id = p.before.id := by
      rw [(hsegment.ids hg hposts.outcome).1, hsegment.nodes.id_eq]
    refine tells_of_saved hposts.memory hid ?_
    rw [hposts.events, lifeIn_append, lifeIn_announced hpublishes _ hid]
    exact lifeStatus?_concat (hsegment.begins hg hpublishes htells hopens)
      (next?_of_settled hposts.outcome.settled)
  · have hlife := hsegment.begins hg hpublishes htells hopens
    rw [← hstrands.events] at hlife
    have hstored := (stored?_of_memory hstrands.memory p.before.id).trans hsegment.stored
    rw [ne_eq, hsegment.states_eq_nil_iff hg]
    constructor
    · intro htold hnot
      have hrunning := Option.some.inj ((htold.status hstored).symm.trans hlife)
      exact absurd hrunning hnot
    · intro hclear
      refine ⟨.running, hlife, fun e he => ?_⟩
      obtain rfl := Option.some.inj (hstored.symm.trans he)
      exact Decidable.byContradiction fun hnot => hclear hnot hstrands.stranded

/-- A segment tells nothing of other executions. -/
theorem Segment.lifeIn_of_ne (hid : p.before.id ≠ id) : lifeIn h.events id = lifeIn g.events id := by
  obtain ⟨news, hopens, hends⟩ := hsegment.outcome
  have hnews : lifeIn (g.telling news).events id = lifeIn g.events id := by
    rw [telling, lifeIn_append]
    cases hopens with
    | first _ => exact List.append_nil _
    | again x _ => rw [lifeIn_announced_of_ne hpublishes _ hid, List.append_nil]
  obtain ⟨f, hposts⟩ | hstrands := hends
  · have hf : f.id ≠ id := by
      rw [(hsegment.ids hg hposts.outcome).1, ← hsegment.nodes.id_eq]
      exact hid
    rw [hposts.events, lifeIn_append, lifeIn_announced_of_ne hpublishes _ hf, List.append_nil, hnews]
  · rw [hstrands.events, hnews]

end Segment

/-! ## Steps -/

/-- Nothing was published of executions that are still to come, and what was published of the others tells
their lives, unless a walk was stranded that resumed one. -/
structure Telling (setup : Setup) (g : Engine) : Prop where
  unborn : ∀ n, g.started < n → lifeIn g.events (executionId n) = []
  tells : ∀ id, (∀ p ∈ g.journal, p.before.id = id → p.before.states ≠ [] → ¬ p.Stranded setup) →
    g.Tells id

theorem Telling.of_quiet (hg : g.Telling setup) (hevents : h.events = g.events)
    (hstarted : h.started = g.started) (hjournal : h.journal = g.journal)
    (hstored : ∀ id e, h.stored? id = some e → g.stored? id = some e) : h.Telling setup := by
  constructor
  · intro n hn
    rw [hevents]
    exact hg.unborn n (hstarted ▸ hn)
  · intro id hclear
    rw [hjournal] at hclear
    exact (hg.tells id hclear).of_eq (by rw [hevents]) (hstored id)

/-- An execution is kept, and how it stands now is published. -/
theorem Telling.save (hg : g.Telling setup) {f : Execution} {kind : EventKind}
    (hpublishes : setup.publishes = true) (hmemory : h.memory = g.memory.saveExecution f)
    (hevents : h.events = g.events ++ setup.announced kind f none) (hjournal : h.journal = g.journal)
    (hstarted : g.started ≤ h.started) (hid : ∃ n, n ≤ h.started ∧ f.id = executionId n)
    (hlife : (∀ p ∈ g.journal, p.before.id = f.id → p.before.states ≠ [] → ¬ p.Stranded setup) →
      ∃ status, lifeStatus? (lifeIn g.events f.id) = some status ∧ status.next? kind = some f.status) :
    h.Telling setup := by
  constructor
  · intro n hn
    obtain ⟨m, hm, hname⟩ := hid
    have hne : f.id ≠ executionId n := by
      rw [hname]
      exact fun heq => absurd (executionId_inj heq) (by omega)
    rw [hevents, lifeIn_append, lifeIn_announced_of_ne hpublishes _ hne, List.append_nil]
    exact hg.unborn n (by omega)
  · intro id hclear
    rw [hjournal] at hclear
    by_cases hsame : f.id = id
    · subst hsame
      obtain ⟨status, hstatus, hnext⟩ := hlife hclear
      refine tells_of_saved hmemory rfl ?_
      rw [hevents, lifeIn_append, lifeIn_announced hpublishes _ rfl]
      exact lifeStatus?_concat hstatus hnext
    · refine (hg.tells id hclear).of_eq ?_ fun e he => ?_
      · rw [hevents, lifeIn_append, lifeIn_announced_of_ne hpublishes _ hsame, List.append_nil]
      · exact (stored?_save_of_ne hmemory (Ne.symm hsame)).symm.trans he

theorem Segment.telling {kept : Execution} {p : Passage} (hsegment : g.Segment setup kept p h)
    (hg : g.Kept setup) (hpublishes : setup.publishes = true) (htelling : g.Telling setup) :
    h.Telling setup := by
  have hjournal := hsegment.passes.journal
  constructor
  · intro n hn
    rw [hsegment.passes.started] at hn
    obtain ⟨-, m, hm, hname⟩ := hg.ids _ kept hsegment.stored
    have hne : p.before.id ≠ executionId n := by
      rw [hname]
      exact fun heq => absurd (executionId_inj heq) (by omega)
    rw [hsegment.lifeIn_of_ne hg hpublishes hne]
    exact htelling.unborn n hn
  · intro id hclear
    have hbefore := htelling.tells id fun q hq => hclear q (hjournal ▸ List.mem_append_left _ hq)
    by_cases hid : p.before.id = id
    · subst hid
      refine (hsegment.tells_iff hg hpublishes hbefore).2 (hclear p ?_ rfl)
      rw [hjournal]
      exact List.mem_append_right _ (List.mem_singleton.2 rfl)
    · refine hbefore.of_eq (hsegment.lifeIn_of_ne hg hpublishes hid) fun e he => ?_
      exact (hsegment.stored?_of_ne hg hid).symm.trans he

theorem Step.telling (hstep : Step setup g h) (hg : g.Kept setup) (hpublishes : setup.publishes = true)
    (htelling : g.Telling setup) : h.Telling setup := by
  cases hstep with
  | reschedule schedule heq => exact htelling.of_quiet (heq ▸ rfl) (heq ▸ rfl) (heq ▸ rfl) (heq ▸ fun _ _ he => he)
  | move hmove =>
    cases hmove with
    | aside haside hevents =>
      refine htelling.of_quiet hevents haside.started haside.journal fun id e he => ?_
      exact (stored?_of_memory haside.memory id).symm.trans he
    | segment kept p hsegment => exact hsegment.telling hg hpublishes htelling
    | start e hstarted =>
      have hnumber : h.started = g.started + 1 := hstarted.aside.started
      refine htelling.save hpublishes hstarted.aside.memory hstarted.events hstarted.aside.journal
        (by omega) ⟨g.started + 1, by omega, hstarted.id_eq⟩ fun _ => ⟨.pending, ?_, ?_⟩
      · rw [hstarted.id_eq, htelling.unborn _ (by omega)]
        rfl
      · rw [hstarted.status_eq]
        rfl
    | close f hcloses =>
      obtain ⟨kept, hstored, hopen, -, -⟩ := hcloses.stored
      have hnumber : h.started = g.started := hcloses.aside.started
      refine htelling.save hpublishes hcloses.aside.memory hcloses.events hcloses.aside.journal
        (by omega) ?_ fun hclear => ⟨kept.status, ?_, ?_⟩
      · rw [hnumber]
        exact (hg.ids _ kept hstored).2
      · exact (htelling.tells f.id hclear).status hstored
      · exact next?_of_ended hopen (hg.regular _ kept hstored).begun hcloses.status

theorem Prunes.telling (hprunes : g.Prunes h) (hg : g.Kept setup) (htelling : g.Telling setup) :
    h.Telling setup := by
  obtain ⟨memory, heq⟩ := hprunes.eq
  exact htelling.of_quiet (heq ▸ rfl) (heq ▸ rfl) (heq ▸ rfl) fun _ _ he => hprunes.stored hg he

theorem Maintained.telling (hg : Maintained setup g) (hpublishes : setup.publishes = true) :
    g.Telling setup := by
  refine hg.holds (fun now tick workflows => ⟨fun _ _ => rfl, fun id _ => ?_⟩) ?_ ?_
  · exact ⟨.pending, rfl, fun e he => absurd he (Option.some_ne_none e).symm⟩
  · exact fun g h hg hstep htelling => hstep.telling hg hpublishes htelling
  · exact fun g h hg hprunes htelling => hprunes.telling hg htelling

/-! ## Resumptions -/

/-- A resumption for which a walk is made is a segment of the execution. -/
theorem after_resume {node : String} {p : Passage} (hg : g.Kept setup)
    (hp : (g.after setup (.resume id node)).journal = g.journal ++ [p]) :
    ∃ kept w n, g.stored? id = some kept ∧
      Work.Resumption setup g kept w n p (g.after setup (.resume id node)) := by
  have hresume : Leads (Work.resume setup id node) g
      (fun _ h => ∀ p, h.journal = g.journal ++ [p] →
        ∃ kept w n, g.stored? id = some kept ∧ Work.Resumption setup g kept w n p h)
      fun _ h => ∀ p, h.journal = g.journal ++ [p] →
        ∃ kept w n, g.stored? id = some kept ∧ Work.Resumption setup g kept w n p h := by
    refine leads_bind (Work.execution?_leads ?_)
    cases hstored : g.stored? id with
    | none => exact leads_pure fun p hp => absurd rfl (Work.journal_ne hp)
    | some kept =>
      obtain rfl := (hg.ids id kept hstored).1
      refine (Work.resumeLoaded_leads hg hstored node).mono ?_ ?_
      · exact fun r h hresumed p hp => ⟨kept, (hresumed.resumption hp).imp fun w ⟨n, hn⟩ => ⟨n, rfl, hn⟩⟩
      · exact fun r h hresumed p hp => ⟨kept, (hresumed.resumption hp).imp fun w ⟨n, hn⟩ => ⟨n, rfl, hn⟩⟩
  exact hresume.state p hp

theorem Maintained.sound (hg : Maintained setup g) : ∀ p ∈ g.journal, p.after.Sound setup.actions := by
  refine hg.holds (P := fun g => ∀ p ∈ g.journal, p.after.Sound setup.actions)
    (fun _ _ _ p hp => absurd hp List.not_mem_nil) ?_ ?_
  · intro g h hg hstep hsound p hp
    obtain ⟨later, hjournal, hlater⟩ := hstep.adds (P := (·.after.Sound setup.actions))
      fun kept p hsegment => (hsegment.facts hg).2.2.1.sound
    rw [hjournal] at hp
    exact (List.mem_append.1 hp).elim (hsound p) (hlater p)
  · intro g h hg hprunes hsound
    obtain ⟨memory, heq⟩ := hprunes.eq
    exact heq ▸ hsound

/-- Whatever is done to an engine that publishes, what it has published of an execution is a life up to the
status with which the execution is kept, if no walk that resumed it is stranded. A resumption for which a
walk is made leaves this so exactly if the walk is not stranded. And no walk is stranded where actions give
times that can be read, no job is refused, and there is a time at which a node can be tried again. -/
theorem life_told_unless_stranded (hpublishes : setup.publishes = true) :
    (∀ g id, Maintained setup g →
      (∀ p ∈ g.journal, p.before.id = id → p.before.states ≠ [] → ¬ p.Stranded setup) → g.Tells id) ∧
    (∀ g id node p, Maintained setup g → g.Tells id →
      (g.after setup (.resume id node)).journal = g.journal ++ [p] →
        ((g.after setup (.resume id node)).Tells id ↔ ¬ p.Stranded setup)) ∧
    (setup.actions.GiveTimes → setup.refusal? = none → ∀ g id, Maintained setup g →
      (∀ p ∈ g.journal, (p.ended.addSeconds (.int setup.config.resumePoll)).isOk = true) → g.Tells id) := by
  refine ⟨fun g id hg => (hg.telling hpublishes).tells id, ?_, ?_⟩
  · intro g id node p hg htells hp
    obtain ⟨kept, w, n, hstored, hresumption⟩ := after_resume hg.kept hp
    have hsegment := hresumption.segment
    have hid : p.before.id = id := by
      rw [hsegment.nodes.id_eq]
      exact (hg.kept.ids id kept hstored).1
    have hlater : p.before.states ≠ [] := by
      intro hnone
      have hwaits := hresumption.waits
      rw [hsegment.nodes.states_eq] at hnone
      rw [Execution.isWaiting, nodeStatus?, state?, hnone] at hwaits
      cases hwaits
    subst hid
    refine (hsegment.tells_iff hg.kept hpublishes htells).trans ?_
    exact ⟨fun h => h hlater, fun h _ => h⟩
  · intro hgive hopen g id hg hclock
    refine (hg.telling hpublishes).tells id fun p hp _ _ => ?_
    exact Passage.not_stranded (hg.sound p hp) hgive hopen (hclock p hp)

/-! ## A time that is too far away -/

/-- An action that waits for a time which is a number, but too large a one for a clock. -/
def remote : Action where
  type := "remote"
  schema := .null
  run _ := ⟨[], .ok (.result (.waiting "" (.int (10 ^ 400)) []))⟩

/-- A delay that leads to that action. -/
def faraway : Workflow := .ofNodes
  [⟨"pause", "delay", .object [("value", .int 10)], .null, .null⟩,
    ⟨"leave", "action", .map [], .str "remote", .null⟩]
  [⟨"pause", "leave", .null, .null⟩] []

def remoteSetup : Setup := .ofActions [("remote", remote)]

/-- The engine when the delay is over. -/
def awake : Engine := (knowing faraway).run remoteSetup
  [.execute faraway .null .null, .setClock ⟨⟨2024, 6, 15⟩, 12, 0, 10, 0, some 0⟩]

/-- The engine when the execution is resumed there. -/
def adrift : Engine := awake.after remoteSetup (.resume "exec-1" "pause")

theorem maintained_awake : Maintained remoteSetup awake :=
  ((reached_knowing _ (fun _ => True) faraway).run fun _ _ => trivial).maintained

theorem life_adrift : lifeIn adrift.events "exec-1" = [.started, .paused, .resumed] := by decide +kernel

theorem status_adrift : (adrift.stored? "exec-1").map (·.status) = some .paused := by decide +kernel

theorem not_tells_adrift : ¬ adrift.Tells "exec-1" := by
  intro htells
  obtain ⟨kept, hkept, hpaused⟩ := Option.map_eq_some_iff.1 status_adrift
  have hrunning := htells.status hkept
  rw [life_adrift, hpaused] at hrunning
  cases hrunning

/-- The execution was resumed, as far as is told, and is kept as paused. -/
theorem adrift_told_running : Maintained remoteSetup adrift ∧
    lifeIn adrift.events "exec-1" = [.started, .paused, .resumed] ∧
      (adrift.stored? "exec-1").map (·.status) = some .paused ∧ ¬ adrift.Tells "exec-1" :=
  ⟨.operate _ maintained_awake, life_adrift, status_adrift, not_tells_adrift⟩

/-- The walk that resumes the execution is stranded. -/
theorem life_told_unless_stranded_adrift : remoteSetup.publishes = true ∧
    Maintained remoteSetup awake ∧ awake.Tells "exec-1" ∧
      ∃ p, adrift.journal = awake.journal ++ [p] ∧ p.Stranded remoteSetup := by
  have hpublishes : remoteSetup.publishes = true := rfl
  obtain ⟨htold, hresume, -⟩ := life_told_unless_stranded hpublishes
  have hfirst : awake.journal.all (·.before.states.isEmpty) = true := by decide +kernel
  have htells : awake.Tells "exec-1" := htold awake "exec-1" maintained_awake fun p hp _ hlater =>
    absurd (List.isEmpty_iff.1 (List.all_eq_true.1 hfirst p hp)) hlater
  have hsteps : Steps remoteSetup awake adrift := after_steps maintained_awake.kept _
  obtain ⟨later, hjournal, -⟩ := hsteps.adds_sound maintained_awake.kept
  have hlength : adrift.journal.length = awake.journal.length + 1 := by decide +kernel
  rw [hjournal, List.length_append, Nat.add_left_cancel_iff] at hlength
  obtain ⟨p, rfl⟩ := List.length_eq_one_iff.1 hlength
  refine ⟨hpublishes, maintained_awake, htells, p, hjournal, Decidable.byContradiction fun hnot => ?_⟩
  exact not_tells_adrift ((hresume awake "exec-1" "pause" p maintained_awake htells hjournal).2 hnot)

end Engine

end Flowline
