import Flowline.Proofs.Engine.Moves

/-! # Finished work is frozen

An execution that is over stays as it is kept, and no walk is made for it any more. A node that is kept as
completed stays so, with the output that it has. -/

namespace Flowline.Engine
open Execution Passage

variable {setup : Setup} {g h : Engine} {id : String} {e : Execution}

/-- A new execution has an id under which none is kept. -/
theorem Started.id_ne (hstarted : g.Started setup e h) (hg : g.Kept setup) {kept : Execution}
    (hkept : g.stored? id = some kept) : id ≠ e.id := by
  rintro rfl
  obtain ⟨-, n, hn, hname⟩ := hg.ids e.id kept hkept
  have hnumber := executionId_inj (hstarted.id_eq.symm.trans hname)
  omega

/-! ## Executions that are over -/

/-- An execution is kept as it was, and no walk was made for it. -/
def Untouched (id : String) (e : Execution) (g h : Engine) : Prop :=
  h.stored? id = some e ∧ Adds (·.before.id ≠ id) g h

theorem Untouched.trans {i : Engine} (h₁ : Untouched id e g h) (h₂ : Untouched id e h i) :
    Untouched id e g i := ⟨h₂.1, h₁.2.trans h₂.2⟩

/-- No segment is made for an execution that is over. -/
theorem Segment.id_ne {kept : Execution} {p : Passage} (hsegment : g.Segment setup kept p h)
    (hstored : g.stored? id = some e) (hover : e.status.isTerminal = true) : p.before.id ≠ id := by
  rintro rfl
  have hopen := ExecutionStatus.not_isTerminal_of_isResumable hsegment.resumable
  obtain rfl := Option.some.inj (hsegment.stored.symm.trans hstored)
  rw [hover] at hopen
  cases hopen

theorem Step.untouched (hstep : Step setup g h) (hg : g.Kept setup)
    (hstored : g.stored? id = some e) (hover : e.status.isTerminal = true) :
    Untouched id e g h := by
  refine ⟨?_, hstep.adds fun kept p hsegment => hsegment.id_ne hstored hover⟩
  refine Eq.trans ?_ hstored
  cases hstep with
  | reschedule schedule heq =>
    subst heq
    rfl
  | move hmove =>
    cases hmove with
    | aside haside _ => exact stored?_of_memory haside.memory id
    | start f hstarted =>
      exact stored?_save_of_ne hstarted.aside.memory (hstarted.id_ne hg hstored)
    | close f hcloses =>
      refine stored?_save_of_ne hcloses.aside.memory ?_
      rintro rfl
      obtain ⟨kept, hkept, hopen, -, -⟩ := hcloses.stored
      obtain rfl := Option.some.inj (hkept.symm.trans hstored)
      rw [hover] at hopen
      cases hopen
    | segment kept p hsegment =>
      exact hsegment.stored?_of_ne hg (hsegment.id_ne hstored hover)

theorem Steps.untouched (hsteps : Steps setup g h) (hg : g.Kept setup) (hstored : g.stored? id = some e)
    (hover : e.status.isTerminal = true) : Untouched id e g h := by
  induction hsteps with
  | refl => exact ⟨hstored, .of_journal rfl⟩
  | tail hbefore hstep ih => exact ih.trans (hstep.untouched (Steps.kept hbefore hg) ih.1 hover)

/-! ## Completed nodes -/

/-- An execution is kept under an id in which a node has a state. -/
def KeepsState (g : Engine) (id node : String) (s : NodeState) : Prop :=
  ∃ e, g.stored? id = some e ∧ e.state? node = some s

variable {node : String} {s : NodeState}

theorem KeepsState.of_save (hkept : g.KeepsState id node s) {f : Execution}
    (hmemory : h.memory = g.memory.saveExecution f)
    (hf : ∀ kept, g.stored? f.id = some kept → kept.state? node = some s → f.state? node = some s) :
    h.KeepsState id node s := by
  obtain ⟨e, hstored, hstate⟩ := hkept
  by_cases hid : id = f.id
  · subst hid
    exact ⟨f, by rw [stored?_save hmemory, if_pos rfl], hf e hstored hstate⟩
  · exact ⟨e, (stored?_save_of_ne hmemory hid).trans hstored, hstate⟩

theorem KeepsState.of_memory (hkept : g.KeepsState id node s) (hmemory : h.memory = g.memory) :
    h.KeepsState id node s := by
  obtain ⟨e, hstored, hstate⟩ := hkept
  exact ⟨e, (stored?_of_memory hmemory id).trans hstored, hstate⟩

theorem Step.keepsState (hstep : Step setup g h) (hg : g.Kept setup) (hkept : g.KeepsState id node s)
    (hs : s.status = .completed) : h.KeepsState id node s := by
  cases hstep with
  | reschedule schedule heq => exact hkept.of_memory (heq ▸ rfl)
  | move hmove =>
    cases hmove with
    | aside haside _ => exact hkept.of_memory haside.memory
    | start f hstarted =>
      refine hkept.of_save hstarted.aside.memory fun kept hf _ => ?_
      exact absurd rfl (hstarted.id_ne hg hf)
    | close f hcloses =>
      refine hkept.of_save hcloses.aside.memory fun e he hstate => ?_
      obtain ⟨kept, hstored, -, hnodes, -⟩ := hcloses.stored
      obtain rfl := Option.some.inj (he.symm.trans hstored)
      exact (hnodes.state? node).trans hstate
    | segment kept p hsegment =>
      obtain ⟨hbefore, hprovides, hlater, hsuspends⟩ := hsegment.facts hg
      obtain ⟨news, -, ⟨f, hposts⟩ | hstrands⟩ := hsegment.outcome
      · refine hkept.of_save hposts.memory fun e he hstate => ?_
        rw [hposts.outcome.id_eq, hlater.id_eq] at he
        obtain rfl := Option.some.inj (he.symm.trans hsegment.stored)
        exact hposts.outcome.keeps hbefore hprovides hlater hsuspends
          ((hsegment.nodes.state? node).trans hstate) hs
      · exact hkept.of_memory hstrands.memory

theorem Steps.keepsState (hsteps : Steps setup g h) (hg : g.Kept setup) (hkept : g.KeepsState id node s)
    (hs : s.status = .completed) : h.KeepsState id node s := by
  induction hsteps with
  | refl => exact hkept
  | tail hbefore hstep ih => exact hstep.keepsState (Steps.kept hbefore hg) ih hs

/-! ## Histories -/

/-- Whatever is asked of an engine later on, an execution that is over is kept as it is and makes no
further walk, and a completed node keeps its status and its output. -/
theorem finished_work_frozen (hg : Reached setup (fun _ => True) g) (ops : List Operation) :
    (∀ id e, g.stored? id = some e → e.status.isTerminal = true →
      (g.run setup ops).stored? id = some e ∧
        ∃ later, (g.run setup ops).journal = g.journal ++ later ∧ ∀ p ∈ later, p.before.id ≠ id) ∧
    ∀ id e node s, g.stored? id = some e → e.state? node = some s → s.status = .completed →
      ∃ e', (g.run setup ops).stored? id = some e' ∧ e'.state? node = some s := by
  have hsteps : Steps setup g (g.run setup ops) := run_steps hg.kept ops
  constructor
  · intro id e hstored hover
    exact hsteps.untouched hg.kept hstored hover
  · intro id e node s hstored hstate hs
    exact hsteps.keepsState hg.kept ⟨e, hstored, hstate⟩ hs

/-- A workflow that is done as soon as it starts. -/
def beginning : Workflow := .ofNodes [⟨"begin", "start", .map [], .null, .null⟩] [] []

/-- A cancellation and a resumption come too late for an execution of a single node. -/
theorem finished_work_frozen_beginning :
    ∃ g e s, Reached (.ofActions []) (fun _ => True) g ∧
      g.stored? "exec-1" = some e ∧ e.status.isTerminal = true ∧
      e.state? "begin" = some s ∧ s.status = .completed ∧
      (g.run (.ofActions []) [.cancel "exec-1", .resume "exec-1" "begin"]).stored? "exec-1" = some e ∧
      ∃ e', (g.run (.ofActions []) [.cancel "exec-1", .resume "exec-1" "begin"]).stored? "exec-1" =
        some e' ∧ e'.state? "begin" = some s := by
  have hrun : (((knowing beginning).after (.ofActions []) (.execute beginning .null .null)).stored?
      "exec-1").any (fun e => e.status.isTerminal &&
        (e.state? "begin").any (·.status == .completed)) = true := by
    decide +kernel
  obtain ⟨e, hstored, he⟩ := (Option.any_eq_true _ _).1 hrun
  obtain ⟨hover, he⟩ := Bool.and_eq_true_iff.1 he
  obtain ⟨s, hstate, hs⟩ := (Option.any_eq_true _ _).1 he
  have hs := beq_iff_eq.1 hs
  have hreached : Reached (.ofActions []) (fun _ => True)
      ((knowing beginning).after (.ofActions []) (.execute beginning .null .null)) :=
    .step (reached_knowing ..) trivial
  obtain ⟨hover', hnodes⟩ :=
    finished_work_frozen hreached [.cancel "exec-1", .resume "exec-1" "begin"]
  exact ⟨_, e, s, hreached, hstored, hover, hstate, hs, (hover' _ e hstored hover).1,
    hnodes _ e _ s hstored hstate hs⟩

end Flowline.Engine
