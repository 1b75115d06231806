import Flowline.Proofs.Engine.Freezing
import Flowline.Proofs.Engine.Joins
import Flowline.Proofs.Engine.Records
import Flowline.Proofs.Node.Merges

/-! # Merges wait for what they need

Whatever becomes of an execution, a merge in it is completed only with all that it needs, of which it has
gathered the outputs. Until then it waits whenever it is run, and nothing behind it is put into the queue. -/

namespace Flowline

namespace Passage
open Work Execution
variable {setup : Setup} {p : Passage} {m : Node}

/-- However a segment ends, no state of a node that is completed is recorded in it any more. -/
theorem Outcome.merged {f : Execution} {h : Engine} (houtcome : p.Outcome setup f h)
    (hafter : p.after.Merged m) : f.Merged m := by
  cases houtcome with
  | cancelled _ nodes => exact hafter.of_states nodes.states_eq
  | failed _ nodes => exact hafter.of_states nodes.states_eq
  | done walk _ _ _ touched _ =>
    refine hafter.touched touched fun x hx => ?_
    obtain ⟨s, hs, hwaits, -⟩ := waiting_of_isDue (List.mem_filter.1 hx).2
    rw [isCompleted_of_state? hs, hwaits]
    rfl

end Passage

namespace Engine
open Work Execution
variable {setup : Setup} {w : Workflow} {m : Node} {g h : Engine} {id : String}

/-! ## Executions that come about -/

/-- An execution as it comes about under an id: as it is kept, or as it is in a walk that was made for it,
after some iterations or at the end. -/
inductive Comes (setup : Setup) (g : Engine) (id : String) : Execution → Prop
  | kept {e : Execution} (hstored : g.stored? id = some e) : Comes setup g id e
  | within {p : Passage} (hp : p ∈ g.journal) (hid : p.before.id = id) (running : Nat) (iterations : Int)
    (s : Session) (hs : s.execution.states = p.before.states) :
    Comes setup g id ((Walk.run (Node.dispatch (setup.services running) p.workflow
      (Node.nestingLimit p.workflow)) p.workflow iterations p.starts).run.run s).2.execution
  | after {p : Passage} (hp : p ∈ g.journal) (hid : p.before.id = id) : Comes setup g id p.after

/-- What is kept under an id is merged, as was that with which each walk for it began. -/
structure Merges (id : String) (w : Workflow) (m : Node) (g : Engine) : Prop where
  stored : ∀ e, g.stored? id = some e → e.Merged m
  walked : ∀ p ∈ g.journal, p.before.id = id →
    p.before.Merged m ∧ p.after.Merged m ∧ ∀ n ∈ p.starts, n ∈ w.nodes

theorem Segment.merged {kept : Execution} {p : Passage} (hsegment : g.Segment setup kept p h)
    (hm : p.workflow.MergesAt setup m) (hkept : kept.Merged m) :
    p.before.Merged m ∧ p.after.Merged m ∧ ∀ n ∈ p.starts, n ∈ p.workflow.nodes := by
  have hbefore : p.before.Merged m := hkept.of_states hsegment.nodes.states_eq
  have hmembers : ∀ n ∈ p.starts, n ∈ p.workflow.nodes := fun _ hn => hsegment.origin.members hn
  obtain ⟨g₁, hp⟩ := hsegment.passage
  have hsession : (g₁.session p.before).execution.Merged m := hbefore.of_states rfl
  have hrun := Node.leads_run_merged hm g₁.running.length setup.config.maxIterations hmembers hsession
  obtain ⟨t, hafter, ⟨walk, -, ht⟩ | ⟨fault, -, ht⟩⟩ := passage_leads hrun hp
  · exact ⟨hbefore, hafter ▸ ht, hmembers⟩
  · exact ⟨hbefore, hafter ▸ ht, hmembers⟩

theorem Step.merges (hstep : Step setup g h) (hg : g.Kept setup) (hm : w.MergesAt setup m)
    (hover : h.WalksOver id w) (hmerges : g.Merges id w m) : h.Merges id w m := by
  have walks {kept : Execution} {p : Passage} (hsegment : g.Segment setup kept p h) (hid : p.before.id = id) :
      p.workflow = w ∧ p.before.Merged m ∧ p.after.Merged m ∧ ∀ n ∈ p.starts, n ∈ w.nodes := by
    obtain rfl : p.workflow = w := by
      refine hover p ?_ hid
      rw [hsegment.passes.journal]
      exact List.mem_append_right _ (List.mem_singleton_self p)
    exact ⟨rfl, hsegment.merged hm (hmerges.stored kept (hid ▸ hsegment.stored))⟩
  constructor
  · have same (hmemory : h.memory = g.memory) : ∀ e, h.stored? id = some e → e.Merged m :=
      fun e he => hmerges.stored e ((stored?_of_memory hmemory id).symm.trans he)
    have saved {f : Execution} (hmemory : h.memory = g.memory.saveExecution f) (hf : f.id = id → f.Merged m) :
        ∀ e, h.stored? id = some e → e.Merged m := by
      intro e he
      rw [stored?_save hmemory] at he
      split at he
      · next hid =>
        obtain rfl := Option.some.inj he
        exact hf hid.symm
      · exact hmerges.stored e he
    cases hstep with
    | reschedule schedule heq => exact same (heq ▸ rfl)
    | move hmove =>
      cases hmove with
      | aside haside => exact same haside.memory
      | start e hstarted =>
        exact saved hstarted.aside.memory fun _ => merged_of_no_states hstarted.states_eq
      | close f hcloses =>
        obtain ⟨kept, hstored, -, hnodes, -⟩ := hcloses.stored
        refine saved hcloses.aside.memory fun hid => ?_
        exact (hmerges.stored kept (hid ▸ hstored)).of_states hnodes.states_eq
      | segment kept p hsegment =>
        obtain ⟨news, -, ⟨f, hposts⟩ | hstrands⟩ := hsegment.outcome
        · refine saved hposts.memory fun hid => hposts.outcome.merged (walks hsegment ?_).2.2.1
          rw [← hid, (hsegment.ids hg hposts.outcome).1, hsegment.nodes.id_eq]
        · exact same hstrands.memory
  · obtain ⟨later, hjournal, hlater⟩ := hstep.adds
      (P := fun p => p.before.id = id → p.before.Merged m ∧ p.after.Merged m ∧ ∀ n ∈ p.starts, n ∈ w.nodes)
      fun kept p hsegment hid => (walks hsegment hid).2
    intro p hp
    obtain hp | hp := List.mem_append.1 (hjournal ▸ hp)
    · exact hmerges.walked p hp
    · exact hlater p hp

theorem Maintained.merges (hg : Maintained setup g) (hm : w.MergesAt setup m) (hover : g.WalksOver id w) :
    g.Merges id w m := by
  refine hg.holds (P := fun g => g.WalksOver id w → g.Merges id w m) ?_ ?_ ?_ hover
  · exact fun _ _ _ _ => ⟨fun e he => (nomatch he), fun p hp => (nomatch hp)⟩
  · intro g h hg hstep ih hover
    have hadds : Adds (fun _ => True) g h := hstep.adds fun _ _ _ => trivial
    exact hstep.merges hg hm hover (ih fun p hp => hover p (hadds.mem hp))
  · intro g h hg hprunes ih hover
    have hjournal : h.journal = g.journal := by
      obtain ⟨memory, rfl⟩ := hprunes.eq
      rfl
    obtain ⟨hstored, hwalked⟩ := ih fun p hp => hover p (hjournal ▸ hp)
    exact ⟨fun e he => hstored e (hprunes.stored hg he), fun p hp => hwalked p (hjournal ▸ hp)⟩

theorem Merges.comes (hmerges : g.Merges id w m) (hm : w.MergesAt setup m) (hover : g.WalksOver id w)
    {e : Execution} (he : g.Comes setup id e) : e.Merged m := by
  cases he with
  | kept hstored => exact hmerges.stored e hstored
  | after hp hid => exact (hmerges.walked _ hp hid).2.1
  | @within p hp hid running iterations s hs =>
    obtain ⟨hbefore, -, hmembers⟩ := hmerges.walked p hp hid
    obtain rfl := hover p hp hid
    exact (Node.leads_run_merged hm running iterations hmembers (hbefore.of_states hs)).state

/-- A merge of two nodes. -/
def meeting : Node :=
  ⟨"meet", "merge", .object [("required_inputs", Value.strings ["begin", "hold"])], .null, .null⟩

/-- Where a node waits, the merge behind it waits too. -/
def converging : Workflow := .ofNodes [joinBegin, hold, meeting]
  [⟨"begin", "hold", .null, .null⟩, ⟨"begin", "meet", .null, .null⟩, ⟨"hold", "meet", .null, .null⟩] []

/-- The engine when both of them wait. -/
def converged : Engine := (knowing converging).after (.ofActions []) (.execute converging .null .null)

theorem reached_converged : Reached (.ofActions []) (fun _ => True) converged := .step (reached_knowing ..) trivial

theorem mergesAt_meeting : converging.MergesAt (.ofActions []) meeting := by
  refine ⟨rfl, by decide, fun n hn hid => ?_⟩
  have hn : n = joinBegin ∨ n = hold ∨ n = meeting := by simpa [converging, Workflow.ofNodes] using hn
  obtain rfl | rfl | rfl := hn
  · exact absurd hid (by decide)
  · exact absurd hid (by decide)
  · rfl

theorem converged_walksOver : (converged.after (.ofActions []) signalled).WalksOver "exec-1" converging := by
  have hnew : (knowing converging).WalksOver "exec-1" converging := fun p hp => nomatch hp
  have hallows : (knowing converging).Allows converging .null .null :=
    ⟨rfl, ⟨1000, rfl, rfl⟩, ⟨[], rfl⟩, ⟨[], rfl⟩, ⟨[], rfl⟩⟩
  have hwalks : converged.WalksOver "exec-1" converging := hnew.execute (.ofActions []) hallows
  have hstored : (converged.stored? "exec-1").any (fun e => decide (e.workflowId = "flow")) = true := by
    decide +kernel
  obtain ⟨kept, hstored, hflow⟩ := (Option.any_eq_true _ _).1 hstored
  have hnewKept : (knowing converging).Kept (.ofActions []) :=
    (reached_knowing [] (fun _ => True) converging).kept
  have hsteps : Steps (.ofActions []) (knowing converging) converged :=
    after_steps hnewKept (.execute converging .null .null)
  have hknown : (knowing converging).memory.workflow? "flow" = some converging := rfl
  have hwakes : signalled.Wakes "exec-1" "hold" := .signal (.object [("k", .int 1)])
  refine hwalks.wakes hwakes reached_converged.kept hstored ?_
  rw [of_decide_eq_true hflow, Memory.workflow?, hsteps.workflows]
  exact hknown

end Engine

end Flowline
