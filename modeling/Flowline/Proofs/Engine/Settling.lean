import Flowline.Proofs.Engine.Moves

/-! # Runs that settle

To run a workflow, or to resume an execution so that a walk is made, gives back an execution that is over
or paused, kept as it is and no longer running, unless the walk is stranded: then it fails. -/

namespace Flowline
open Execution Passage

variable {setup : Setup} {g h : Engine}

/-- An execution is over or paused, kept as it is, and not running. -/
structure Engine.Settled (g : Engine) (f : Execution) : Prop where
  status : f.status.isTerminal = true ∨ f.status = .paused
  stored : g.stored? f.id = some f
  idle : f.id ∉ g.running

namespace Work
open Engine

theorem settled_of_posts {p : Passage} {f : Execution} (hid : p.after.id = p.before.id) {g₁ : Engine}
    (hposts : Posts setup g₁ p f h) (hpasses : Passes g p h) : h.Settled f := by
  refine ⟨hposts.outcome.settled, ?_, ?_⟩
  · rw [stored?_save hposts.memory, if_pos rfl]
  · rw [hpasses.running, hposts.outcome.id_eq, hid]
    intro hmem
    have hne := (List.mem_filter.1 hmem).2
    rw [bne_self_eq_false] at hne
    cases hne

/-- A workflow that can be run is run: a walk is made from where it starts, and the execution settles
unless that walk is stranded. -/
theorem execute_leads (setup : Setup) {w : Workflow} {trigger context : Value}
    (hallows : g.Allows w trigger context) :
    Leads (execute setup w trigger context) g
      (fun f h => ∃ p, h.journal = g.journal ++ [p] ∧ p.workflow = w ∧ p.starts = w.startNodes ∧
        ¬ p.Stranded setup ∧ h.Settled f)
      fun _ h => ∃ p, h.journal = g.journal ++ [p] ∧ p.workflow = w ∧ p.starts = w.startNodes ∧
        p.Stranded setup := by
  refine Leads.bind ((start_leads w trigger context g).mono (fun _ _ h => h)
    fun _ _ h => absurd hallows h.2) ?_
  intro e g₁ hstarted
  have hsound : e.Sound setup.actions := sound_of_no_states hstarted.states_eq
  obtain ⟨hlater, -⟩ := passage_suspends hsound (Eq.refl (passage setup w e w.startNodes g₁))
  have hjournal {p : Passage} {h : Engine} (hpasses : Passes g₁ p h) :
      h.journal = g.journal ++ [p] := by
    rw [hpasses.journal, hstarted.aside.journal]
  refine (runSegment_leads w w.startNodes hsound rfl).mono ?_ ?_
  · intro f h ⟨hposts, hpasses⟩
    exact ⟨_, hjournal hpasses, rfl, rfl, hposts.clear, settled_of_posts hlater.id_eq hposts hpasses⟩
  · intro fault h ⟨hstrands, hpasses⟩
    exact ⟨_, hjournal hpasses, rfl, rfl, hstrands.stranded⟩

/-! ## Resumptions -/

variable {kept : Execution} {id node : String} {p : Passage}

/-- A resumption for which a walk is made settles the execution unless that walk is stranded. -/
theorem Resumed.settles {r : Except Fault (Option Execution)} (hresumed : Resumed setup g kept node h r)
    (hg : g.Kept setup) (hp : h.journal = g.journal ++ [p]) :
    (∃ f, r = .ok (some f) ∧ h.Settled f) ↔ ¬ p.Stranded setup := by
  cases hresumed with
  | idle _ heq => exact absurd (heq ▸ rfl) (journal_ne hp)
  | close _ _ _ f _ hcloses => exact absurd hcloses.aside.journal (journal_ne hp)
  | refused _ _ _ _ _ _ heq => exact absurd (heq ▸ rfl) (journal_ne hp)
  | settled w n hw hn q hresumption f hposts =>
    obtain rfl := passage_inj hp hresumption.journal
    obtain ⟨-, -, hlater, -⟩ := hresumption.segment.facts hg
    refine ⟨fun _ => hposts.clear, fun _ => ⟨f, rfl, ?_⟩⟩
    exact settled_of_posts hlater.id_eq hposts hresumption.segment.passes
  | stranded w n hw hn q hresumption fault hstrands =>
    obtain rfl := passage_inj hp hresumption.journal
    refine ⟨?_, fun hnot => absurd hstrands.stranded hnot⟩
    rintro ⟨f, ⟨⟩, -⟩

theorem resume_leads (setup : Setup) (hg : g.Kept setup) (id node : String) :
    Leads (resume setup id node) g
      (fun r h => ∀ p, h.journal = g.journal ++ [p] →
        ((∃ f, Except.ok r = .ok (ε := Fault) (some f) ∧ h.Settled f) ↔ ¬ p.Stranded setup))
      fun fault h => ∀ p, h.journal = g.journal ++ [p] →
        ((∃ f, Except.error (α := Option Execution) fault = .ok (some f) ∧ h.Settled f) ↔
          ¬ p.Stranded setup) := by
  refine leads_bind (execution?_leads ?_)
  cases hstored : g.stored? id with
  | none => exact leads_pure fun p hp => absurd rfl (journal_ne hp)
  | some kept =>
    obtain rfl := (hg.ids id kept hstored).1
    refine (resumeLoaded_leads hg hstored node).mono ?_ ?_
    · exact fun r h hresumed p hp => hresumed.settles hg hp
    · exact fun fault h hresumed p hp => hresumed.settles hg hp

end Work

/-! ## Runs -/

namespace Engine
open Work

/-- An action that waits for a time which is no number. -/
def someday : Action where
  type := "someday"
  schema := .null
  run _ := ⟨[], .ok (.result (.waiting "" (.str "soon") []))⟩

def vague : Workflow := .ofNodes [⟨"ask", "action", .map [], .str "someday", .null⟩] [] []

def vagueSetup : Setup := .ofActions [("someday", someday)]

theorem allows_vague : (knowing vague).Allows vague .null .null :=
  ⟨rfl, ⟨1000, rfl, rfl⟩, ⟨[], rfl⟩, ⟨[], rfl⟩, ⟨[], rfl⟩⟩

theorem vague_fails :
    ((execute vagueSetup vague .null .null).run.run (knowing vague)).1.isOk = false := by
  decide +kernel

end Engine

end Flowline
