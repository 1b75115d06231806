import Flowline.Proofs.Engine.Freezing

/-! # What is visited again

A walk knows only what it has visited itself. A node that was completed before is visited again in a later
walk if it is led to by the node from which that walk resumes the execution, and not otherwise. -/

namespace Flowline
open Execution

/-! ## Walks that are made -/

namespace Passage

variable {setup : Setup} {p : Passage}

/-- A walk that an engine made, from nodes of the workflow: from where it starts, when no node has a
state yet, or from one that waits. -/
structure Made (setup : Setup) (p : Passage) : Prop where
  origin : ∃ g, p = Work.passage setup p.workflow p.before p.starts g
  members : ∀ n ∈ p.starts, n ∈ p.workflow.nodes
  starts : p.before.states = [] ∨ ∃ n, p.starts = [n] ∧ p.before.isWaiting n.id = true

/-- A node from which a walk resumes an execution leads to a node with an id. -/
def Returns (setup : Setup) (p : Passage) (x : String) : Prop :=
  ∃ n ∈ p.starts, p.before.isWaiting n.id = true ∧ ∃ m, m.id = x ∧
    Relation.TransGen (Work.LeadsTo setup p.workflow) n m

theorem not_isWaiting_of_isCompleted {e : Execution} {x : String} (h : e.isCompleted x = true) :
    e.isWaiting x = false := by
  rw [isCompleted, beq_iff_eq] at h
  rw [isWaiting, h]
  rfl

/-- What is visited is led to by a node where the walk begins. -/
theorem Made.led (hmade : p.Made setup) {x : String} (hx : x ∈ p.after.trail) :
    ∃ n ∈ p.starts, ∃ m, m.id = x ∧ Relation.ReflTransGen (Work.LeadsTo setup p.workflow) n m := by
  obtain ⟨g, hp⟩ := hmade.origin
  have hvisited := Work.passage_visited
    (fun m => ∃ n ∈ p.starts, Relation.ReflTransGen (Work.LeadsTo setup p.workflow) n m)
    (fun n hn => ⟨n, hn, .refl⟩) (fun m k ⟨n, hn, hm⟩ hk => ⟨n, hn, hm.tail hk⟩) hp
  obtain ⟨m, ⟨n, hn, hleads⟩, hm⟩ := hvisited.origin x hx
  exact ⟨n, hn, m, hm, hleads⟩

/-- What was completed before a walk is visited in it only if the walk returns to it. -/
theorem Made.returns (hmade : p.Made setup) {x : String} (hx : x ∈ p.after.trail)
    (hcompleted : p.before.isCompleted x = true) : p.Returns setup x := by
  obtain ⟨n, hn, m, rfl, hleads⟩ := hmade.led hx
  obtain hnone | ⟨k, hk, hwaits⟩ := hmade.starts
  · rw [isCompleted, nodeStatus?, state?, hnone] at hcompleted
    cases hcompleted
  · rw [hk] at hn
    obtain rfl := List.mem_singleton.1 hn
    refine ⟨n, by rw [hk]; exact hn, hwaits, m, rfl, ?_⟩
    obtain rfl | htrans := Relation.reflTransGen_iff_eq_or_transGen.1 hleads
    · rw [not_isWaiting_of_isCompleted hcompleted] at hwaits
      cases hwaits
    · exact htrans

theorem leadsTo_mem {w : Workflow} {n m : Node} (h : Work.LeadsTo setup w n m) : m ∈ w.nodes := by
  obtain ⟨running, h⟩ := h
  exact h.mem

/-- No walk visits a node twice, unless it is a merge. -/
theorem Made.once (hmade : p.Made setup) {x : String}
    (hx : ∀ m ∈ p.workflow.nodes, m.id = x → m.isMerge = false) : p.after.trail.count x ≤ 1 := by
  obtain ⟨g, hp⟩ := hmade.origin
  have hvisited := Work.passage_visited (fun m => m ∈ p.workflow.nodes) hmade.members
    (fun _ _ _ hleads => leadsTo_mem hleads) hp
  exact hvisited.once x hx

/-- A walk that comes to its end has visited what a node that does not wait leads to without a
condition. -/
theorem Made.follows (hmade : p.Made setup) {walk : Walk} (hresult : p.result = .ok walk)
    (hended : walk.cancelled = false) {y : String} (hy : y ∈ p.after.trail)
    (hopen : y ∉ walk.suspended.keys) {c : Connection} (hc : c ∈ p.workflow.leaving y)
    (hnull : c.condition.isNull = true) {m : Node} (hm : p.workflow.node? c.target = some m) :
    m.id ∈ p.after.trail := by
  obtain ⟨g, hp⟩ := hmade.origin
  obtain ⟨htrail, hfollows⟩ := Work.passage_follows hp hresult
  rw [htrail, List.mem_reverse] at hy ⊢
  exact (hfollows hended y hy hopen c hc hnull m hm).resolve_right List.not_mem_nil

end Passage

/-! ## Later walks -/

namespace Engine

variable {setup : Setup} {g h : Engine} {id x : String} {s : NodeState}

theorem Segment.made {kept : Execution} {p : Passage} (hsegment : g.Segment setup kept p h) :
    p.Made setup := by
  refine ⟨hsegment.passage, fun m hm => hsegment.origin.members hm, ?_⟩
  obtain hnone | ⟨n, hn, hwaits⟩ := hsegment.origin.waits
  · exact .inl (hsegment.nodes.states_eq.trans hnone)
  · refine .inr ⟨n, hn, ?_⟩
    rw [isWaiting, nodeStatus?, hsegment.nodes.state?]
    exact hwaits

/-- The walks that were made since then knew the state of a node. -/
def Aware (setup : Setup) (id x : String) (s : NodeState) : Engine → Engine → Prop :=
  Adds fun p => p.Made setup ∧ (p.before.id = id → p.before.state? x = some s)

theorem Step.aware (hstep : Step setup g h) (hkept : g.KeepsState id x s) :
    Aware setup id x s g h := by
  refine hstep.adds fun kept p hsegment => ⟨hsegment.made, ?_⟩
  rintro rfl
  obtain ⟨e, hstored, hstate⟩ := hkept
  obtain rfl := Option.some.inj (hsegment.stored.symm.trans hstored)
  exact (hsegment.nodes.state? x).trans hstate

theorem Steps.aware (hsteps : Steps setup g h) (hg : g.Kept setup) (hkept : g.KeepsState id x s)
    (hs : s.status = .completed) : Aware setup id x s g h := by
  induction hsteps with
  | refl => exact .of_journal rfl
  | tail hbefore hstep ih => exact ih.trans (hstep.aware (Steps.keepsState hbefore hg hkept hs))

/-- A node that is kept as completed is visited in a later walk of the execution only if the walk
resumes the execution at a node that leads to it, and then once unless it is a merge; and it is visited
if the walk comes to its end and some node that was visited and does not wait is connected to it without
a condition. -/
theorem completed_visited_again (hg : Reached setup (fun _ => True) g) (ops : List Operation)
    {e : Execution} (hstored : g.stored? id = some e) (hx : e.isCompleted x = true) :
    ∃ later, (g.run setup ops).journal = g.journal ++ later ∧ ∀ p ∈ later, p.before.id = id →
      (x ∈ p.after.trail → p.Returns setup x) ∧
      ((∀ m ∈ p.workflow.nodes, m.id = x → m.isMerge = false) → p.after.trail.count x ≤ 1) ∧
      ∀ walk, p.result = .ok walk → walk.cancelled = false → ∀ y ∈ p.after.trail,
        y ∉ walk.suspended.keys → (∃ c ∈ p.workflow.leaving y, c.condition.isNull = true ∧
          (p.workflow.node? c.target).any (·.id == x) = true) → x ∈ p.after.trail := by
  obtain ⟨s, hstate, hs⟩ : ∃ s, e.state? x = some s ∧ s.status = .completed := by
    rw [isCompleted, beq_iff_eq, nodeStatus?, Option.map_eq_some_iff] at hx
    exact hx
  have hsteps : Steps setup g (g.run setup ops) := run_steps hg.kept ops
  obtain ⟨later, hjournal, hlater⟩ := hsteps.aware hg.kept ⟨e, hstored, hstate⟩ hs
  refine ⟨later, hjournal, fun p hp hid => ?_⟩
  obtain ⟨hmade, hbefore⟩ := hlater p hp
  refine ⟨fun hmem => hmade.returns hmem ?_, hmade.once, ?_⟩
  · rw [isCompleted, nodeStatus?, hbefore hid, Option.map_some, hs]
    rfl
  · rintro walk hresult hended y hy hopen ⟨c, hc, hnull, htarget⟩
    obtain ⟨m, hm, hmx⟩ := (Option.any_eq_true _ _).1 htarget
    exact eq_of_beq hmx ▸ hmade.follows hresult hended hy hopen hc hnull hm

/-! ## A node on two paths -/

/-- An action that counts how often it is called. -/
def tally : Action where
  type := "tally"
  schema := .null
  run call := ⟨[.setVariable (.str "count") (.ofNat call.count)], .ok .nothing⟩

/-- A start that leads to an action directly, and by way of a node that waits for a signal. -/
def twoPaths : Workflow := .ofNodes
  [⟨"begin", "start", .map [], .null, .null⟩, ⟨"hold", "wait", .map [], .null, .null⟩,
    ⟨"work", "action", .map [], .str "tally", .null⟩]
  [⟨"begin", "work", .null, .null⟩, ⟨"begin", "hold", .null, .null⟩, ⟨"hold", "work", .null, .null⟩] []

def tallying : Setup := .ofActions [("tally", tally)]

/-- The engine when the wait is reached, and the action done. -/
def held : Engine := (knowing twoPaths).after tallying (.execute twoPaths .null .null)

theorem reached_held : Reached tallying (fun _ => True) held :=
  .step (reached_knowing ..) trivial

/-- The engine when the signal has come. -/
def released : Engine := held.run tallying [.deliverSignal "exec-1" "hold" (.map [])]

/-- The signal has the action done again that is kept as completed. -/
theorem completed_visited_after_signal :
    (held.stored? "exec-1").any (·.isCompleted "work") = true ∧ held.calls.get? "tally" = some 1 ∧
      (released.journal.drop held.journal.length).map
        (fun p => (p.before.id, p.before.isCompleted "work", p.after.trail)) =
          [("exec-1", true, ["hold", "work"])] ∧
      released.calls.get? "tally" = some 2 := by
  decide +kernel

/-- The walk that the signal begins returns to the action. -/
theorem completed_visited_again_on_two_paths :
    Reached tallying (fun _ => True) held ∧
      (∃ e, held.stored? "exec-1" = some e ∧ e.isCompleted "work" = true) ∧
      ∃ p ∈ released.journal, p.before.id = "exec-1" ∧ p.Returns tallying "work" := by
  have hkept : (held.stored? "exec-1").any (·.isCompleted "work") = true := by decide +kernel
  obtain ⟨e, hstored, hx⟩ := (Option.any_eq_true _ _).1 hkept
  obtain ⟨later, hjournal, hlater⟩ := completed_visited_again reached_held
    [.deliverSignal "exec-1" "hold" (.map [])] hstored hx
  have hvisits : (released.journal.drop held.journal.length).any
      (fun p => p.before.id == "exec-1" && p.after.trail.contains "work") = true := by decide +kernel
  rw [released, hjournal, List.drop_left, List.any_eq_true] at hvisits
  obtain ⟨p, hp, hvisit⟩ := hvisits
  obtain ⟨hid, hwork⟩ := Bool.and_eq_true_iff.1 hvisit
  have hid := eq_of_beq hid
  refine ⟨reached_held, ⟨e, hstored, hx⟩, p, ?_, hid, ?_⟩
  · rw [released, hjournal]
    exact List.mem_append_right _ hp
  · exact (hlater p hp hid).1 (List.contains_iff_mem.1 hwork)

end Engine

end Flowline
