import Flowline.Proofs.Engine.Moves

/-! # Records of executions

An engine is also kept up: workflows are saved and deleted, and executions that are of no interest any more
are deleted. `Maintained` engines come of a new one by operations and upkeep, in any order. What the record
of an execution says of its end and of its nodes agrees with its status in all of them. -/

namespace Flowline

inductive Upkeep
  | saveWorkflow (w : Workflow)
  | deleteWorkflow (id : String)
  | deleteExecution (id : String)
  | cleanUp (today : Moment) (days? : Option Int)

namespace Engine

def afterUpkeep (setup : Setup) (g : Engine) : Upkeep → Engine
  | .saveWorkflow w => { g with memory := g.memory.saveWorkflow w }
  | .deleteWorkflow id => { g with memory := (g.memory.deleteWorkflow id).2 }
  | .deleteExecution id => { g with memory := (g.memory.deleteExecution id).2 }
  | .cleanUp today days? => ((Work.cleanUp setup today days?).run.run g).2

/-- Engines that come of a new one by operations and upkeep. -/
inductive Maintained (setup : Setup) : Engine → Prop
  | start (now : Moment) (tick : Float) (workflows : Table String Workflow) :
    Maintained setup { new setup.config now tick with memory := ⟨workflows, []⟩ }
  | operate {g : Engine} (op : Operation) : Maintained setup g → Maintained setup (g.after setup op)
  | keepUp {g : Engine} (upkeep : Upkeep) :
    Maintained setup g → Maintained setup (g.afterUpkeep setup upkeep)

variable {setup : Setup} {g h : Engine} {id : String} {e : Execution}

theorem Reached.maintained {allowed : Operation → Prop} (hg : Reached setup allowed g) :
    Maintained setup g := by
  induction hg with
  | start now tick workflows => exact .start now tick workflows
  | step _ _ ih => exact .operate _ ih

/-! ## Upkeep -/

/-- An engine from which executions were removed. -/
structure Prunes (g h : Engine) : Prop where
  eq : ∃ memory, h = { g with memory := memory }
  executions : h.memory.executions.Sublist g.memory.executions

theorem afterUpkeep_prunes (setup : Setup) (g : Engine) (upkeep : Upkeep) :
    g.Prunes (g.afterUpkeep setup upkeep) := by
  cases upkeep with
  | saveWorkflow w => exact ⟨⟨_, rfl⟩, .refl _⟩
  | deleteWorkflow id => exact ⟨⟨_, rfl⟩, .refl _⟩
  | deleteExecution id => exact ⟨⟨_, rfl⟩, List.filter_sublist⟩
  | cleanUp today days? =>
    refine (Work.of_leads (fun cutoff _ => ?_) fun _ _ => ⟨⟨_, rfl⟩, .refl _⟩ :
      Leads (Work.cleanUp setup today days?) g (fun _ h => g.Prunes h) fun _ h => g.Prunes h).state
    exact leads_bind (leads_get (leads_bind (leads_set (leads_pure ⟨⟨_, rfl⟩, List.filter_sublist⟩))))

theorem Prunes.stored (hprunes : g.Prunes h) (hg : g.Kept setup) (hstored : h.stored? id = some e) :
    g.stored? id = some e :=
  Table.get?_of_mem hg.keys (hprunes.executions.subset (Table.mem_of_get? hstored))

theorem Prunes.kept (hprunes : g.Prunes h) (hg : g.Kept setup) : h.Kept setup := by
  have hstarted : h.started = g.started := by
    obtain ⟨memory, rfl⟩ := hprunes.eq
    rfl
  refine ⟨hg.keys.sublist (hprunes.executions.map _), fun id e he => ?_, fun id e he => ?_⟩
  · rw [hstarted]
    exact hg.ids id e (hprunes.stored hg he)
  · exact hg.regular id e (hprunes.stored hg he)

theorem Maintained.kept (hg : Maintained setup g) : g.Kept setup := by
  induction hg with
  | start now tick workflows => exact (@Reached.start setup (fun _ => True) now tick workflows).kept
  | operate op _ ih => exact (after_steps ih op).kept ih
  | keepUp upkeep _ ih => exact (afterUpkeep_prunes setup _ upkeep).kept ih

/-- What holds of new engines, and stays so with every step and every removal of executions, holds of
every engine that is maintained. -/
theorem Maintained.holds {P : Engine → Prop} (hg : Maintained setup g)
    (hstart : ∀ now tick workflows, P { new setup.config now tick with memory := ⟨workflows, []⟩ })
    (hstep : ∀ g h, g.Kept setup → Step setup g h → P g → P h)
    (hprunes : ∀ g h, g.Kept setup → g.Prunes h → P g → P h) : P g := by
  have hsteps {g h : Engine} (hg : g.Kept setup) (hsteps : Steps setup g h) (hP : P g) : P h := by
    induction hsteps with
    | refl => exact hP
    | tail hbefore hlast ih => exact hstep _ _ (Steps.kept hbefore hg) hlast ih
  induction hg with
  | start now tick workflows => exact hstart now tick workflows
  | operate op hg ih => exact hsteps hg.kept (after_steps hg.kept op) ih
  | keepUp upkeep hg ih => exact hprunes _ _ hg.kept (afterUpkeep_prunes setup _ upkeep) ih

/-! ## What records say -/

/-- Of every execution that is kept, the time of the end is recorded exactly if it is over, and an error
exactly if it failed; one that is paused waits for some node and one that is completed for none; and none
has not begun. -/
theorem records_consistent (hg : Maintained setup g) (hstored : g.stored? id = some e) :
    (e.completedAt?.isSome = true ↔
      e.status = .completed ∨ e.status = .failed ∨ e.status = .cancelled) ∧
    (e.error?.isSome = true ↔ e.status = .failed) ∧
    (e.status = .paused → e.pendingResumes ≠ []) ∧
    (e.status = .completed → e.pendingResumes = []) ∧
    e.status ≠ .pending := by
  have he := hg.kept.regular id e hstored
  refine ⟨?_, ?_, he.waits, he.done, he.begun⟩
  · rw [he.dated.completedAt]
    cases e.status with
    | _ => simp [ExecutionStatus.isTerminal]
  · rw [he.dated.error]
    exact beq_iff_eq

/-! ## A workflow that is gone -/

def holding : Workflow := .ofNodes [⟨"hold", "wait", .map [], .null, .null⟩] [] []

/-- The engine when the workflow is deleted while an execution of it is paused. -/
def bereft : Engine :=
  ((knowing holding).after (.ofActions []) (.execute holding .null .null)).afterUpkeep (.ofActions [])
    (.deleteWorkflow "flow")

theorem maintained_bereft : Maintained (.ofActions []) bereft := by
  have hknowing : Maintained (.ofActions []) (knowing holding) :=
    (reached_knowing [] (fun _ => True) holding).maintained
  exact .keepUp _ (.operate _ hknowing)

/-- The engine when that execution is resumed. -/
def forsaken : Engine := bereft.after (.ofActions []) (.resume "exec-1" "hold")

theorem maintained_forsaken : Maintained (.ofActions []) forsaken := .operate _ maintained_bereft

/-- The execution has failed, and its record says so. -/
theorem records_consistent_forsaken : ∃ e, Maintained (.ofActions []) forsaken ∧
    forsaken.stored? "exec-1" = some e ∧ e.status = .failed ∧ e.completedAt?.isSome = true ∧
      e.error?.isSome = true := by
  have hkept : (forsaken.stored? "exec-1").any (·.status == .failed) = true := by decide +kernel
  obtain ⟨e, hstored, hstatus⟩ := (Option.any_eq_true _ _).1 hkept
  have hstatus := eq_of_beq hstatus
  obtain ⟨hended, herror, -⟩ := records_consistent maintained_forsaken hstored
  exact ⟨e, maintained_forsaken, hstored, hstatus, hended.2 (.inr (.inl hstatus)), herror.2 hstatus⟩

end Engine

end Flowline
