import Flowline.Proofs.Engine.History
import Flowline.Proofs.Table

/-! # What an engine keeps

The executions that an engine keeps are sound and have ids that were given out. One that is running has no
nodes yet, one that is paused waits for nodes and names a job for each that waits for a time, and one that
is completed waits for none. An end is recorded of those that are over. Moves keep all of this. -/

namespace Flowline

/-! ## Outcomes -/

namespace Passage
open Execution Work

variable {setup : Setup} {p : Passage} {f : Execution} {h : Engine}

theorem Outcome.id_eq (houtcome : p.Outcome setup f h) : f.id = p.after.id := by
  cases houtcome with
  | cancelled _ nodes => exact nodes.id_eq
  | failed _ nodes => exact nodes.id_eq
  | done _ _ _ _ touched _ => exact touched.id_eq

theorem Outcome.workflowId_eq (houtcome : p.Outcome setup f h) :
    f.workflowId = p.after.workflowId := by
  cases houtcome with
  | cancelled _ nodes => exact nodes.workflowId_eq
  | failed _ nodes => exact nodes.workflowId_eq
  | done _ _ _ _ touched _ => exact touched.workflowId_eq

theorem Outcome.sound (houtcome : p.Outcome setup f h) (hp : p.after.Sound setup.actions) :
    f.Sound setup.actions := by
  cases houtcome with
  | cancelled _ nodes => exact nodes.sound hp
  | failed _ nodes => exact nodes.sound hp
  | done _ _ _ _ touched _ => exact touched.sound

/-- A segment ends with the execution over or paused. -/
theorem Outcome.settled (houtcome : p.Outcome setup f h) :
    f.status.isTerminal = true ∨ f.status = .paused := by
  cases houtcome with
  | cancelled hstatus _ => exact .inl (hstatus ▸ rfl)
  | failed hstatus _ => exact .inl (hstatus ▸ rfl)
  | done _ _ _ hstatus _ _ =>
    rw [hstatus]
    split
    · exact .inl rfl
    · exact .inr rfl

/-- An execution has failed after a segment exactly if the walk has, and has not been cancelled. -/
theorem Outcome.failed_iff (houtcome : p.Outcome setup f h) :
    f.status = .failed ↔ (∃ fault, p.result = .error fault) ∧ p.after.status ≠ .cancelled := by
  cases houtcome with
  | cancelled hstatus _ hcancelled =>
    refine ⟨fun hfailed => ?_, fun hfails => absurd hcancelled hfails.2⟩
    cases hstatus.symm.trans hfailed
  | failed hstatus _ hgoing fault hresult => exact ⟨fun _ => ⟨⟨fault, hresult⟩, hgoing⟩, fun _ => hstatus⟩
  | done walk hresult _ hstatus _ _ =>
    constructor
    · intro hfailed
      rw [hfailed] at hstatus
      split at hstatus
      · cases hstatus
      · cases hstatus
    · rintro ⟨⟨fault, hfault⟩, -⟩
      cases hresult.symm.trans hfault

/-- A segment that completes an execution leaves no node that waits for a time. -/
theorem Outcome.of_completed (houtcome : p.Outcome setup f h) (hcompleted : f.status = .completed) :
    f.pendingResumes = [] := by
  cases houtcome with
  | cancelled hstatus _ => cases hstatus.symm.trans hcompleted
  | failed hstatus _ => cases hstatus.symm.trans hcompleted
  | done _ _ _ hstatus _ _ =>
    rw [hcompleted] at hstatus
    split at hstatus
    · next hempty => exact List.isEmpty_iff.1 hempty
    · cases hstatus

/-- A segment that pauses an execution has made a walk, and attended to the nodes that wait. -/
theorem Outcome.of_paused (houtcome : p.Outcome setup f h) (hpaused : f.status = .paused) :
    f.pendingResumes ≠ [] ∧ p.after.status ≠ .cancelled ∧ ∃ walk, p.result = .ok walk ∧
      Touched setup.actions ((attended walk.suspended.keys p.after).filter
        (isDue setup p.workflow p.ended walk.suspended.keys p.after)) p.after f ∧
      ∀ x ∈ attended walk.suspended.keys p.after,
        Covered setup p.workflow p.ended walk.suspended.keys p.after x f h := by
  cases houtcome with
  | cancelled hstatus _ => cases hstatus.symm.trans hpaused
  | failed hstatus _ => cases hstatus.symm.trans hpaused
  | done walk hresult hgoing hstatus touched covered =>
    refine ⟨fun hnone => ?_, hgoing, walk, hresult, touched, covered⟩
    rw [hnone, hpaused] at hstatus
    cases hstatus

end Passage

namespace Work
open Execution
variable {setup : Setup} {w : Workflow} {now : Moment} {suspended : List String} {e : Execution}

/-- A node that gets no job is provided for. -/
theorem provides_of_dueTime_none {x : String} (h : dueTime setup w now suspended e x = none) :
    e.Provides x := by
  intro s hs hresume
  refine Decidable.byContradiction fun hjob => ?_
  have hwaits : (s.status != .waiting) = false := by
    rw [NodeState.waiting_of_resumeAt? hresume]
    rfl
  have htime : s.output.entry "resume_at" = .null → False := by
    intro hnull
    rw [NodeState.resumeAt?, hnull] at hresume
    split at hresume
    · cases hresume
    · cases hresume
  have hopen : (!suspended.contains x && s.output.hasJob) = false := by
    rw [Bool.eq_false_iff.2 hjob, Bool.and_false]
  rw [dueTime_of_time hs hwaits hopen htime] at h
  cases h

/-- A node that waits for a time is attended to. -/
theorem mem_attended (he : e.Sound setup.actions) {x : String} {s : NodeState} (hs : e.state? x = some s)
    (hresume : s.resumeAt?.isSome = true) : x ∈ attended suspended e := by
  have hpending := (mem_pendingResumes he).2 ⟨s, hs, hresume⟩
  refine List.mem_append.2 ?_
  by_cases hsuspended : x ∈ suspended
  · exact .inl hsuspended
  · refine .inr (List.mem_filter.2 ⟨hpending, ?_⟩)
    rw [Bool.not_eq_true', ← Bool.not_eq_true, List.contains_iff_mem]
    exact hsuspended

/-- After a segment that is paused, all nodes are provided for. -/
theorem provides_of_covered {f : Execution} {h : Engine} (he : e.Sound setup.actions)
    (touched : Touched setup.actions ((attended suspended e).filter (isDue setup w now suspended e)) e f)
    (covered : ∀ x ∈ attended suspended e, Covered setup w now suspended e x f h) (x : String) :
    f.Provides x := by
  by_cases hx : x ∈ attended suspended e
  · obtain hnone | ⟨-, hprovides, -⟩ := covered x hx
    · refine touched.provides (fun hmem => ?_) (provides_of_dueTime_none hnone)
      have hdue := (List.mem_filter.1 hmem).2
      rw [isDue, hnone] at hdue
      cases hdue
    · exact hprovides
  · refine touched.provides (fun hmem => hx (List.mem_filter.1 hmem).1) ?_
    exact fun s hs hresume => absurd (mem_attended he hs hresume) hx

theorem waiting_of_isDue {x : String} (h : isDue setup w now suspended e x = true) :
    ∃ s, e.state? x = some s ∧ s.status = .waiting ∧ (x ∈ suspended ∨ s.output.hasJob = false) := by
  unfold isDue dueTime at h
  split at h
  · cases h
  · next s hs =>
    split at h
    · cases h
    · next hopen =>
      rw [Bool.not_eq_true, Bool.or_eq_false_iff, Bool.and_eq_false_iff] at hopen
      refine ⟨s, hs, ?_, ?_⟩
      · simpa using hopen.1
      · obtain hsuspended | hjob := hopen.2
        · exact .inl (by simpa using hsuspended)
        · exact .inr hjob

end Work

namespace Passage
open Execution Work

variable {setup : Setup} {p : Passage} {f : Execution} {h : Engine}

/-- The growing parts to which a segment adds entries came up in its walk. -/
theorem growFrom_due (hprovides : ∀ x, p.before.Provides x)
    (hlater : Later setup.actions p.before p.after) {walk : Walk}
    (hsuspends : walk.Suspends setup.actions p.before.nextNumber p.after) :
    GrowFrom p.before.nextNumber p.after ((attended walk.suspended.keys p.after).filter
      (isDue setup p.workflow p.ended walk.suspended.keys p.after)) := by
  intro x hx s hs n hn
  obtain ⟨hattended, hdue⟩ := List.mem_filter.1 hx
  obtain ⟨s', hs', hwaits, hopen⟩ := waiting_of_isDue hdue
  obtain rfl := Option.some.inj (hs'.symm.trans hs)
  by_cases hsuspended : x ∈ walk.suspended.keys
  · exact (hsuspends.fresh x hsuspended s' hs hwaits).1 n hn
  -- A node that came to wait in an earlier segment has a job, so that it is not due.
  · obtain hold | hfresh := hlater.fresh x s' hs
    · have hresume : s'.resumeAt?.isSome = true := by
        obtain hmem | hmem := List.mem_append.1 hattended
        · exact absurd hmem hsuspended
        · obtain ⟨t, ht, hsome⟩ := (mem_pendingResumes hlater.sound).1 (List.mem_filter.1 hmem).1
          obtain rfl := Option.some.inj (ht.symm.trans hs)
          exact hsome
      have hjob := hprovides x s' hold hresume
      rw [hopen.resolve_left hsuspended] at hjob
      cases hjob
    · exact (hfresh hwaits).1 n hn

/-- What was completed before a segment is the same after it. -/
theorem Outcome.keeps (houtcome : p.Outcome setup f h) (hbefore : p.before.Sound setup.actions)
    (hprovides : ∀ x, p.before.Provides x) (hlater : Later setup.actions p.before p.after)
    (hsuspends : ∀ walk, p.result = .ok walk →
      walk.Suspends setup.actions p.before.nextNumber p.after)
    {y : String} {s : NodeState} (hy : p.before.state? y = some s) (hs : s.status = .completed) :
    f.state? y = some s := by
  have hafter := hlater.keeps y s hy hs
  cases houtcome with
  | cancelled _ nodes => exact (nodes.state? y).trans hafter
  | failed _ nodes => exact (nodes.state? y).trans hafter
  | done walk hresult _ _ touched _ =>
    refine touched.frozen p.before.nextNumber y s
      (growFrom_due hprovides hlater (hsuspends walk hresult)) ?_ hafter (hbefore.below y s hy)
    intro hmem
    obtain ⟨t, ht, hwaits, -⟩ := waiting_of_isDue (List.mem_filter.1 hmem).2
    obtain rfl := Option.some.inj (ht.symm.trans hafter)
    rw [hs] at hwaits
    cases hwaits

end Passage

/-! ## Regular engines -/

namespace Engine
open Execution Passage

variable {setup : Setup} {g h : Engine}

/-- What holds of an execution that is kept. -/
structure Regular (actions : Actions) (e : Execution) : Prop where
  sound : e.Sound actions
  idle : e.status = .running → e.states = []
  waits : e.status = .paused → e.pendingResumes ≠ []
  provided : e.status = .paused → ∀ x, e.Provides x
  done : e.status = .completed → e.pendingResumes = []
  begun : e.status ≠ .pending
  dated : e.Dated

structure Kept (setup : Setup) (g : Engine) : Prop where
  keys : g.memory.executions.keys.Nodup
  ids : ∀ id e, g.stored? id = some e → e.id = id ∧ ∃ n, n ≤ g.started ∧ id = executionId n
  regular : ∀ id e, g.stored? id = some e → Regular setup.actions e

theorem stored?_save {f : Execution} (hmemory : h.memory = g.memory.saveExecution f) (id : String) :
    h.stored? id = if id = f.id then some f else g.stored? id := by
  rw [stored?, hmemory]
  exact Table.get?_put g.memory.executions f.id id f

theorem stored?_save_of_ne {f : Execution} {id : String} (hmemory : h.memory = g.memory.saveExecution f)
    (hne : id ≠ f.id) : h.stored? id = g.stored? id := by
  rw [stored?_save hmemory, if_neg hne]

theorem stored?_of_memory (hmemory : h.memory = g.memory) (id : String) :
    h.stored? id = g.stored? id := by
  rw [stored?, stored?, hmemory]

theorem Kept.save (hg : g.Kept setup) {f : Execution} (hf : Regular setup.actions f)
    (hid : ∃ n, n ≤ h.started ∧ f.id = executionId n) (hstarted : g.started ≤ h.started)
    (hmemory : h.memory = g.memory.saveExecution f) : h.Kept setup := by
  constructor
  · rw [hmemory]
    exact Table.nodup_put f.id f hg.keys
  · intro id e he
    rw [stored?_save hmemory] at he
    split at he
    · next heq =>
      obtain rfl := Option.some.inj he
      exact ⟨heq.symm, heq ▸ hid⟩
    · obtain ⟨hsame, n, hn, hname⟩ := hg.ids id e he
      exact ⟨hsame, n, Nat.le_trans hn hstarted, hname⟩
  · intro id e he
    rw [stored?_save hmemory] at he
    split at he
    · obtain rfl := Option.some.inj he
      exact hf
    · exact hg.regular id e he

theorem Kept.of_memory (hg : g.Kept setup) (hmemory : h.memory = g.memory)
    (hstarted : h.started = g.started) : h.Kept setup := by
  constructor
  · rw [hmemory]
    exact hg.keys
  · intro id e he
    rw [hstarted]
    exact hg.ids id e (by rwa [stored?, hmemory] at he)
  · intro id e he
    exact hg.regular id e (by rwa [stored?, hmemory] at he)

/-- What a segment begins with, and what comes of it. -/
theorem Segment.facts {kept : Execution} {p : Passage} (hsegment : g.Segment setup kept p h)
    (hg : g.Kept setup) : p.before.Sound setup.actions ∧ (∀ x, p.before.Provides x) ∧
      Later setup.actions p.before p.after ∧ ∀ walk, p.result = .ok walk →
        walk.Suspends setup.actions p.before.nextNumber p.after := by
  have hregular := hg.regular _ kept hsegment.stored
  have hbefore := hsegment.nodes.sound hregular.sound
  obtain ⟨g₁, hp⟩ := hsegment.passage
  obtain ⟨hlater, hsuspends⟩ := Work.passage_suspends hbefore hp
  refine ⟨hbefore, ?_, hlater, hsuspends⟩
  intro x s hs
  rw [hsegment.nodes.state?] at hs
  cases hstatus : kept.status with
  | paused => exact hregular.provided hstatus x s hs
  | running =>
    rw [state?, hregular.idle hstatus] at hs
    cases hs
  | _ =>
    have hopen := hsegment.resumable
    rw [hstatus] at hopen
    cases hopen

/-- A segment keeps the ids of its execution. -/
theorem Segment.ids {kept f : Execution} {p : Passage} (hsegment : g.Segment setup kept p h)
    (hg : g.Kept setup) {i : Engine} (houtcome : p.Outcome setup f i) :
    f.id = kept.id ∧ f.workflowId = kept.workflowId := by
  obtain ⟨-, -, hlater, -⟩ := hsegment.facts hg
  rw [houtcome.id_eq, houtcome.workflowId_eq, hlater.id_eq, hlater.workflowId_eq]
  exact ⟨hsegment.nodes.id_eq, hsegment.nodes.workflowId_eq⟩

/-- A segment keeps nothing of other executions. -/
theorem Segment.stored?_of_ne {kept : Execution} {p : Passage} (hsegment : g.Segment setup kept p h)
    (hg : g.Kept setup) {id : String} (hid : p.before.id ≠ id) : h.stored? id = g.stored? id := by
  obtain ⟨news, -, ⟨f, hposts⟩ | hstrands⟩ := hsegment.outcome
  · refine stored?_save_of_ne hposts.memory ?_
    rw [(hsegment.ids hg hposts.outcome).1, ← hsegment.nodes.id_eq]
    exact hid.symm
  · exact stored?_of_memory hstrands.memory id

/-- What a segment settles is regular. -/
theorem regular_of_posts {p : Passage} {f : Execution} (hposts : Work.Posts setup g p f h)
    (hp : p.after.Sound setup.actions) (hblank : p.before.Blank) : Regular setup.actions f := by
  have houtcome := hposts.outcome
  have hnot {status : ExecutionStatus} {P : Prop} (hstatus : f.status = status)
      (hopen : status.isTerminal = false) (hpaused : status ≠ .paused) : P := by
    rw [← hstatus] at hopen hpaused
    obtain hover | hwaits := houtcome.settled
    · cases hopen.symm.trans hover
    · exact absurd hwaits hpaused
  refine ⟨houtcome.sound hp, ?_, ?_, ?_, houtcome.of_completed, ?_, hposts.dated hblank⟩
  · exact fun hrunning => hnot hrunning rfl nofun
  · exact fun hpaused => (houtcome.of_paused hpaused).1
  · intro hpaused x
    obtain ⟨-, -, walk, -, touched, covered⟩ := houtcome.of_paused hpaused
    exact Work.provides_of_covered hp touched covered x
  · exact fun hpending => hnot hpending rfl nofun

theorem Regular.blank {actions : Actions} {e : Execution} (he : Regular actions e)
    (hopen : e.status.isTerminal = false) : e.Blank := he.dated.blank hopen

theorem Move.kept (hmove : Move setup g h) (hg : g.Kept setup) : h.Kept setup := by
  cases hmove with
  | aside haside => exact hg.of_memory haside.memory haside.started
  | start e hstarted =>
    have hsound : e.Sound setup.actions := sound_of_no_states hstarted.states_eq
    have hstatus := hstarted.status_eq
    have hrunning {status : ExecutionStatus} {P : Prop} (hother : e.status = status)
        (hne : .running ≠ status) : P := absurd (hstatus.symm.trans hother) hne
    refine hg.save (f := e) ⟨hsound, fun _ => hstarted.states_eq, fun h => hrunning h nofun,
      fun h => hrunning h nofun, fun h => hrunning h nofun, fun h => hrunning h nofun, ?_⟩
      ⟨g.started + 1, ?_, hstarted.id_eq⟩ ?_ hstarted.aside.memory
    · exact hstarted.blank.dated (hstatus ▸ rfl)
    · exact Nat.le_of_eq hstarted.aside.started.symm
    · rw [hstarted.aside.started]
      exact Nat.le_succ _
  | segment kept p hsegment =>
    obtain ⟨hbefore, hprovides, hlater, hsuspends⟩ := hsegment.facts hg
    obtain ⟨news, -, ⟨f, hposts⟩ | hstrands⟩ := hsegment.outcome
    · have hid := (hg.ids _ kept hsegment.stored).2
      rw [← hsegment.passes.started] at hid
      have hopen := ExecutionStatus.not_isTerminal_of_isResumable hsegment.resumable
      have hblank := hsegment.blank ((hg.regular _ kept hsegment.stored).blank hopen)
      refine hg.save (regular_of_posts hposts hlater.sound hblank) ?_ ?_ hposts.memory
      · rw [hposts.outcome.id_eq, hlater.id_eq]
        exact hid
      · exact Nat.le_of_eq hsegment.passes.started.symm
    · exact hg.of_memory hstrands.memory hsegment.passes.started
  | close f hcloses =>
    obtain ⟨kept, hstored, hopen, hnodes, hdated⟩ := hcloses.stored
    have hregular := hg.regular _ kept hstored
    have hover {status : ExecutionStatus} {P : Prop} (hstatus : f.status = status)
        (hne : status ≠ .failed ∧ status ≠ .cancelled) : P := by
      obtain hfailed | hcancelled := hcloses.status
      · exact absurd (hstatus.symm.trans hfailed) hne.1
      · exact absurd (hstatus.symm.trans hcancelled) hne.2
    refine hg.save (f := f) ⟨hnodes.sound hregular.sound, fun h => hover h (by decide),
      fun h => hover h (by decide), fun h => hover h (by decide), fun h => hover h (by decide),
      fun h => hover h (by decide), hdated (hregular.blank hopen)⟩ ?_ ?_ hcloses.aside.memory
    · rw [hcloses.aside.started]
      exact (hg.ids _ kept hstored).2
    · exact Nat.le_of_eq hcloses.aside.started.symm

theorem Moves.kept (hmoves : Moves setup g h) (hg : g.Kept setup) : h.Kept setup := by
  induction hmoves with
  | refl => exact hg
  | tail _ hmove ih => exact hmove.kept ih

end Engine

end Flowline
