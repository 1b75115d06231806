import Flowline.Proofs.Engine.Repetition
import Flowline.Proofs.Node.Resuming

/-! # Branches that are completed

A branch that is recorded completed stays so in every later walk of its execution. A parallel node that waits takes its
output over, and does not run it again, whatever else is done in between; when the node is done, it reports that output. A
branch that was skipped has finished, too, but is run again. -/

namespace Flowline
open Execution

namespace Passage

/-- The walk that an engine makes where another one begins, if nodes are run in some way. -/
def replay (setup : Setup) (g : Engine) (dispatch : Services → Workflow → Nat → Node → Run NodeResult) (p : Passage) :
    Passage :=
  let inner := dispatch (setup.services g.running.length) p.workflow (Node.nestingLimit p.workflow)
  let r := (Walk.run inner p.workflow setup.config.maxIterations p.starts).run.run (g.session p.before)
  ⟨p.workflow, p.before, p.starts, r.2.execution, r.1, r.2.now⟩

/-- A walk that an engine makes, and makes in the same way whatever is done where a parallel node that waits would run a
completed branch. -/
def LeavesCompleted (setup : Setup) (p : Passage) : Prop :=
  ∃ g : Engine, p = p.replay setup g Node.dispatch ∧ ∀ other, p = p.replay setup g (Node.dispatchBut other)

variable {setup : Setup} {p : Passage}

/-- In one session, it makes no difference what is done instead of a completed branch. -/
theorem replay_dispatchBut (g : Engine) (other : Node → Node → Run NodeResult) :
    p.replay setup g (Node.dispatchBut other) = p.replay setup g Node.dispatch := by
  simp only [replay, Node.dispatchBut_eq]

theorem Made.leavesCompleted (hmade : p.Made setup) : p.LeavesCompleted setup := by
  obtain ⟨g, hp⟩ := hmade.origin
  have hreplay : p = p.replay setup g Node.dispatch := hp
  exact ⟨g, hreplay, fun other => hreplay.trans (replay_dispatchBut g other).symm⟩

/-- What was completed before a walk is as it was after it. -/
theorem Made.keepsCompleted (hmade : p.Made setup) {x : String} {o : Output}
    (hx : p.before.state? x = some ⟨.completed, o⟩) : p.after.state? x = some ⟨.completed, o⟩ := by
  obtain ⟨g, hp⟩ := hmade.origin
  have hrun := Walk.within_run (R := KeepsCompleted)
    (Node.within_dispatch (setup.services g.running.length) p.workflow (Node.nestingLimit p.workflow)) p.workflow
    setup.config.maxIterations p.starts (g.session p.before)
  obtain ⟨t, hafter, ⟨walk, -, ht, -⟩ | ⟨fault, -, ht⟩⟩ := Work.passage_leads hrun hp
  · exact hafter ▸ ht x o hx
  · exact hafter ▸ ht x o hx

end Passage

namespace Engine

variable {setup : Setup} {g h : Engine}

theorem Steps.made (hsteps : Steps setup g h) : Adds (·.Made setup) g h := by
  induction hsteps with
  | refl => exact .of_journal rfl
  | tail _ hstep ih => exact ih.trans (hstep.adds fun _ p hsegment => hsegment.made)

/-- Branches that are completed are not run again. Whatever is asked of an engine, a parallel node that waits does not run
a branch that is completed: it makes no difference what would be done then. A branch that comes back completed is recorded
so at once, and in all later walks of the execution it is recorded with the same output. When the parallel node is done,
it reports the output with which a completed branch is recorded: one that was completed when the node went on, or that was
run now, if the branches are different ones and none of them runs one of them inside it. -/
theorem completed_branches_stay (hg : Reached setup (fun _ => True) g) (ops : List Operation) :
    (∃ later, (g.run setup ops).journal = g.journal ++ later ∧ ∀ p ∈ later,
      p.LeavesCompleted setup ∧
      ∀ e x o, g.stored? p.before.id = some e → e.state? x = some ⟨.completed, o⟩ →
        p.before.state? x = some ⟨.completed, o⟩ ∧ p.after.state? x = some ⟨.completed, o⟩) ∧
    (∀ inner resuming b s r t, (Node.runBranch inner resuming b).run.run s = (.ok r, t) → r.status = .completed →
      t.execution.isCompleted b.id = true) ∧
    ∀ (w : Workflow) (n b : Node) (bs : List Node) (running depth : Nat) (s : Session),
      NodeKind.ofNode? (setup.services 0) n = some .parallel → n.branchesOf w = .ok bs → b ∈ bs →
      (s.execution.isWaiting n.id = true ∧ s.execution.isCompleted b.id = true ∨
        Node.Fans setup w bs ∧ s.execution.isCompleted b.id = false) →
      Leads (Node.dispatch (setup.services running) w depth n) s (fun r t => r.isWaiting = false →
        ∀ o, t.execution.state? b.id = some ⟨.completed, o⟩ → n.Reports r b.id o) fun _ _ => True := by
  have hsteps : Steps setup g (g.run setup ops) := run_steps hg.kept ops
  obtain ⟨later, hjournal, hmade⟩ := hsteps.made
  refine ⟨⟨later, hjournal, fun p hp => ⟨(hmade p hp).leavesCompleted, ?_⟩⟩, ?_, ?_⟩
  · intro e x o hstored hstate
    obtain ⟨later', hjournal', hlater⟩ := hsteps.aware hg.kept ⟨e, hstored, hstate⟩ rfl
    obtain rfl := List.append_cancel_left (hjournal.symm.trans hjournal')
    have hbefore := (hlater p hp).2 rfl
    exact ⟨hbefore, (hmade p hp).keepsCompleted hbefore⟩
  · exact fun inner resuming b s r t h hr => Node.isCompleted_of_runBranch h hr
  · exact fun w n b bs running depth s hkind hbs hb hs => Node.dispatch_reports hkind hbs hb hs running depth

/-! ## A branch that waits -/

/-- A parallel node with a branch that is an action, and one that waits for a signal. -/
def bothOf (action : String) : Node :=
  ⟨"both", "parallel", .object [("branches", Value.strings [action, "hold"])], .null, .null⟩

def workOf (action : String) : Node := ⟨action, "action", .map [], .str action, .null⟩

def heldNode : Node := ⟨"hold", "wait", .object [("timeout", .int 3600)], .null, .null⟩

def together (action : String) : Workflow := .ofNodes
  [⟨"begin", "start", .map [], .null, .null⟩, bothOf action, workOf action, heldNode]
  [⟨"begin", "both", .null, .null⟩] []

/-- The engine when the parallel node waits. -/
def halfway (action : Action) : Engine :=
  (knowing (together action.type)).after (.ofActions [(action.type, action)])
    (.execute (together action.type) .null .null)

/-- The engine when the signal has come. -/
def rejoined (action : Action) : Engine :=
  (halfway action).run (.ofActions [(action.type, action)]) [.deliverSignal "exec-1" "hold" (.map [])]

theorem reached_halfway (action : Action) :
    Reached (.ofActions [(action.type, action)]) (fun _ => True) (halfway action) :=
  .step (reached_knowing ..) trivial

/-- An action that skips its node. -/
def passing : Action where
  type := "pass"
  schema := .null
  run _ := ⟨[], .ok (.result (.skipped (.str "nothing to do")))⟩

/-- A branch that was skipped has finished, and is run again when the signal for the other one has come. -/
theorem skipped_branch_run_again :
    ((halfway passing).stored? "exec-1").any
      (fun e => decide (e.nodeStatus? "pass" = some .skipped) && e.isWaiting "both") = true ∧
      (halfway passing).calls.get? "pass" = some 1 ∧
      ((rejoined passing).stored? "exec-1").any (·.isCompleted "both") = true ∧
      (rejoined passing).calls.get? "pass" = some 2 := by
  decide +kernel

/-- The signal for the other branch begins a walk in which the action is not done again. -/
theorem completed_branches_stay_tally :
    Reached (.ofActions [("tally", tally)]) (fun _ => True) (halfway tally) ∧
      ∃ e, (halfway tally).stored? "exec-1" = some e ∧ e.isWaiting "both" = true ∧ e.isCompleted "tally" = true ∧
        (∃ p ∈ (rejoined tally).journal, p.before.id = "exec-1" ∧ p.after.isCompleted "both" = true ∧
          p.LeavesCompleted (.ofActions [("tally", tally)])) ∧
        ∀ running depth, Leads
          (Node.dispatch ((Setup.ofActions [("tally", tally)]).services running) (together "tally") depth (bothOf "tally"))
          ((halfway tally).session e) (fun r t => r.isWaiting = false →
            ∀ o, t.execution.state? "tally" = some ⟨.completed, o⟩ → (bothOf "tally").Reports r "tally" o)
          fun _ _ => True := by
  have hkept : ((halfway tally).stored? "exec-1").any (fun e => e.isWaiting "both" && e.isCompleted "tally") = true := by
    decide +kernel
  obtain ⟨e, hstored, he⟩ := (Option.any_eq_true _ _).1 hkept
  obtain ⟨hwaits, hcompleted⟩ := Bool.and_eq_true_iff.1 he
  obtain ⟨⟨later, hjournal, hlater⟩, -, hreports⟩ :=
    completed_branches_stay (reached_halfway tally) [.deliverSignal "exec-1" "hold" (.map [])]
  have hjournal : (rejoined tally).journal = (halfway tally).journal ++ later := hjournal
  have hwalks : ((rejoined tally).journal.drop (halfway tally).journal.length).any
      (fun p => p.before.id == "exec-1" && p.after.isCompleted "both") = true := by decide +kernel
  rw [hjournal, List.drop_left, List.any_eq_true] at hwalks
  obtain ⟨p, hp, hwalk⟩ := hwalks
  obtain ⟨hid, hboth⟩ := Bool.and_eq_true_iff.1 hwalk
  refine ⟨reached_halfway tally, e, hstored, hwaits, hcompleted, ⟨p, ?_, eq_of_beq hid, hboth, (hlater p hp).1⟩,
    fun running depth => ?_⟩
  · rw [hjournal]
    exact List.mem_append_right _ hp
  · have hkind : NodeKind.ofNode? ((Setup.ofActions [("tally", tally)]).services 0) (bothOf "tally") = some .parallel := rfl
    have hbranches : (bothOf "tally").branchesOf (together "tally") = .ok [workOf "tally", heldNode] := rfl
    exact hreports (together "tally") (bothOf "tally") (workOf "tally") _ running depth _ hkind hbranches
      (List.mem_cons_self ..) (.inl ⟨hwaits, hcompleted⟩)

end Engine

end Flowline
