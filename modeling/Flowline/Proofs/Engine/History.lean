import Flowline.Engine.Operation
import Flowline.Proofs.Engine.Segment
import Mathlib.Logic.Relation

/-! # Histories of an engine

`Reached` engines are those that come of a new one by operations. Each operation is made of moves: something
aside from executions, the start of an execution, a segment, or the end of an execution that is neither over
nor running a segment. -/

namespace Flowline

/-- What an engine is asked for. The jobs that are due may also be taken first and be run later. -/
inductive Operation
  | execute (w : Workflow) (trigger context : Value)
  | executeById (id : String) (trigger context : Value)
  | resume (id node : String)
  | deliverSignal (id node : String) (payload : Value)
  | cancel (id : String)
  | runJob (payload : Value)
  | runDue (time : Float)
  | takeDue (time : Float)
  | setClock (now : Moment)

/-- Jobs are taken from the schedule only to be delivered at once. -/
def Operation.isWhole : Operation → Bool
  | .takeDue _ => false
  | _ => true

/-- An application that has some actions and the standard configuration. -/
def Setup.ofActions (actions : Actions) : Setup where
  config := .standard
  actions := actions
  actionTypes := []
  notify? := none
  publishes := true
  refusal? := none
  share := 0

/-- An active workflow with standard settings. -/
def Workflow.ofNodes (nodes : List Node) (connections : List Connection)
    (settings : List (Scalar × Value)) : Workflow where
  id := "flow"
  uuid := "flow"
  name := .null
  description := .null
  status := .active
  triggers := .list []
  nodes := nodes
  connections := connections
  vars := .map []
  settings := settings
  version := .null

theorem ExecutionStatus.not_isTerminal_of_isResumable {status : ExecutionStatus}
    (h : status.isResumable = true) : status.isTerminal = false := by
  cases status with
  | paused => rfl
  | running => rfl
  | _ => cases h

namespace Engine

def takeDue (g : Engine) (time : Float) : Engine :=
  { g with schedule := (g.schedule.takeDue time).2 }

/-- The engine after an operation, whether it fails or not. -/
def after (setup : Setup) (g : Engine) : Operation → Engine
  | .execute w trigger context => ((Work.execute setup w trigger context).run.run g).2
  | .executeById id trigger context => ((Work.executeById setup id trigger context).run.run g).2
  | .resume id node => ((Work.resume setup id node).run.run g).2
  | .deliverSignal id node payload => ((Work.deliverSignal setup id node payload).run.run g).2
  | .cancel id => ((Work.cancel setup id).run.run g).2
  | .runJob payload => ((Work.runJob setup payload).run.run g).2
  | .runDue time => ((Work.runDue setup time).run.run g).2
  | .takeDue time => g.takeDue time
  | .setClock now => { g with now := now }

/-- The engine after some operations. -/
def run (setup : Setup) (g : Engine) (ops : List Operation) : Engine := ops.foldl (after setup) g

/-- A new engine that knows some workflows. -/
def fresh (setup : Setup) (now : Moment) (tick : Float) (workflows : Table String Workflow) : Engine :=
  { new setup.config now tick with memory := ⟨workflows, []⟩ }

/-- Engines that come of a new one, which knows some workflows, by operations of some kind. -/
inductive Reached (setup : Setup) (allowed : Operation → Prop) : Engine → Prop
  | start (now : Moment) (tick : Float) (workflows : Table String Workflow) :
    Reached setup allowed { new setup.config now tick with memory := ⟨workflows, []⟩ }
  | step {g : Engine} {op : Operation} :
    Reached setup allowed g → allowed op → Reached setup allowed (g.after setup op)

theorem Reached.run {setup : Setup} {allowed : Operation → Prop} {g : Engine}
    (hg : Reached setup allowed g) {ops : List Operation} (hops : ∀ op ∈ ops, allowed op) :
    Reached setup allowed (g.run setup ops) := by
  induction ops generalizing g with
  | nil => exact hg
  | cons op rest ih =>
    exact ih (hg.step (hops op (List.mem_cons_self ..))) fun op' h => hops op' (List.mem_cons_of_mem op h)

/-- An engine with the standard configuration that knows one workflow. -/
def knowing (w : Workflow) : Engine :=
  { new .standard ⟨⟨2024, 6, 15⟩, 12, 0, 0, 0, some 0⟩ 0 with memory := ⟨[(w.id, w)], []⟩ }

theorem reached_knowing (actions : Actions) (allowed : Operation → Prop) (w : Workflow) :
    Reached (.ofActions actions) allowed (knowing w) := .start ..

/-- The execution that is kept under an id. -/
def stored? (g : Engine) (id : String) : Option Execution := g.memory.executions.get? id

/-! ## Moves -/

open Execution

/-- An engine after something that concerns no execution but may concern which ones are running. -/
structure Aside (g h : Engine) : Prop where
  memory : h.memory = g.memory
  journal : h.journal = g.journal
  started : h.started = g.started
  jobs : ∀ j ∈ g.schedule.jobs, j ∈ h.schedule.jobs

instance : IsPreorder Engine Aside where
  refl _ := ⟨rfl, rfl, rfl, fun _ hj => hj⟩
  trans _ _ _ h₁ h₂ := ⟨h₂.memory.trans h₁.memory, h₂.journal.trans h₁.journal,
    h₂.started.trans h₁.started, fun j hj => h₂.jobs j (h₁.jobs j hj)⟩

theorem Keeps.aside {g h : Engine} (hkeeps : g.Keeps h) : g.Aside h :=
  ⟨hkeeps.memory, hkeeps.journal, hkeeps.started, hkeeps.jobs⟩

/-- The id of the execution with a number. -/
def executionId (number : Nat) : String := s!"exec-{number}"

theorem executionId_inj {m n : Nat} (h : executionId m = executionId n) : m = n := by
  have hrepr : m.repr = n.repr := by simpa [executionId] using h
  have hdigits : Nat.toDigits 10 m = Nat.toDigits 10 n := by
    simpa [Nat.repr] using congrArg String.toList hrepr
  rw [← Nat.ofDigitChars_ten_toDigits (n := m), hdigits, Nat.ofDigitChars_ten_toDigits]

/-- A workflow can be run: it is active, its limit is not reached, and what it is given are mappings, as
are its variables. -/
structure Allows (g : Engine) (w : Workflow) (trigger context : Value) : Prop where
  active : w.isActive = true
  limit : ∃ limit, (w.setting "max_executions_per_hour").asInt = .ok limit ∧
    (g.limiter.acquire g.now.timestamp w.id limit).1 = true
  trigger : ∃ entries, (trigger.orElse (.map [])).asEntries = .ok entries
  context : ∃ entries, (context.orElse (.map [])).asEntries = .ok entries
  vars : ∃ entries, w.vars.mapping = .ok entries

/-- An execution that has just been started, which is published. -/
structure Started (setup : Setup) (g : Engine) (e : Execution) (h : Engine) : Prop where
  id_eq : e.id = executionId (g.started + 1)
  status_eq : e.status = .running
  states_eq : e.states = []
  blank : e.Blank
  events : h.events = g.events ++ setup.announced .started e none
  aside : Aside { g with memory := g.memory.saveExecution e, started := g.started + 1 } h

/-- What is published as a segment begins: nothing for the first one, and of a later one that the execution
goes on from a node that waits. -/
inductive Opens (setup : Setup) (kept : Execution) (p : Passage) : List Event → Prop
  | first (hstatus : kept.status = .running) : Opens setup kept p []
  | again (x : String) (hwaits : kept.isWaiting x = true) :
    Opens setup kept p (setup.announced .resumed p.before (some x))

/-- Where a segment begins: where the workflow starts, if no node was reached yet, and otherwise at a node
that waits, or at the parallel node that waits for it. -/
inductive Origin (kept : Execution) (p : Passage) : Prop
  | first (hnone : kept.states = []) (hstarts : p.starts = p.workflow.startNodes)
  | again (n : Node) (owner? : Option Node) (hn : n ∈ p.workflow.nodes) (hwaits : kept.isWaiting n.id = true)
    (howner : Work.waitingOwner? kept.reloaded n.id p.workflow.nodes = .ok owner?)
    (hstarts : p.starts = [owner?.getD n])

/-- An engine that has published something more. -/
def telling (g : Engine) (news : List Event) : Engine := { g with events := g.events ++ news }

/-- A segment of an execution that is kept as one that can go on: its first one, or one from a node that
waits. -/
structure Segment (setup : Setup) (g : Engine) (kept : Execution) (p : Passage) (h : Engine) : Prop where
  stored : g.stored? p.before.id = some kept
  resumable : kept.status.isResumable = true
  nodes : SameNodes kept p.before
  blank : kept.Blank → p.before.Blank
  origin : Origin kept p
  passage : ∃ g₁, p = Work.passage setup p.workflow p.before p.starts g₁
  passes : Work.Passes g p h
  outcome : ∃ news, Opens setup kept p news ∧
    ((∃ f, Work.Posts setup (g.telling news) p f h) ∨ Work.Strands setup (g.telling news) p h)

/-- An execution that is not over is ended, which is published. -/
structure Closes (setup : Setup) (g : Engine) (f : Execution) (h : Engine) : Prop where
  stored : ∃ kept, g.stored? f.id = some kept ∧ kept.status.isTerminal = false ∧ SameNodes kept f ∧
    (kept.Blank → f.Dated)
  status : f.status = .failed ∨ f.status = .cancelled
  events : h.events = g.events ++ setup.announced f.status.event f none
  aside : Aside { g with memory := g.memory.saveExecution f } h

theorem Closes.terminal {setup : Setup} {g h : Engine} {f : Execution} (hcloses : g.Closes setup f h) :
    f.status.isTerminal = true := by
  obtain hstatus | hstatus := hcloses.status
  · exact hstatus ▸ rfl
  · exact hstatus ▸ rfl

inductive Move (setup : Setup) (g h : Engine) : Prop
  | aside (haside : g.Aside h) (hevents : h.events = g.events)
  | start (e : Execution) (hstarted : g.Started setup e h)
  | segment (kept : Execution) (p : Passage) (hsegment : g.Segment setup kept p h)
  | close (f : Execution) (hcloses : g.Closes setup f h)

abbrev Moves (setup : Setup) : Engine → Engine → Prop := Relation.ReflTransGen (Move setup)

/-- All walks that were added to the journal are of some kind. -/
def Adds (P : Passage → Prop) (g h : Engine) : Prop :=
  ∃ later, h.journal = g.journal ++ later ∧ ∀ p ∈ later, P p

variable {P : Passage → Prop} {g h i : Engine}

theorem Adds.of_journal (hjournal : h.journal = g.journal) : Adds P g h :=
  ⟨[], hjournal.trans (List.append_nil _).symm, fun _ hp => absurd hp List.not_mem_nil⟩

theorem Adds.single {p : Passage} (hjournal : h.journal = g.journal ++ [p]) (hp : P p) : Adds P g h := by
  refine ⟨[p], hjournal, fun q hq => ?_⟩
  rw [List.mem_singleton.1 hq]
  exact hp

theorem Adds.mem (hadds : Adds P g h) {p : Passage} (hp : p ∈ g.journal) : p ∈ h.journal := by
  obtain ⟨later, hjournal, -⟩ := hadds
  rw [hjournal]
  exact List.mem_append_left _ hp

theorem Adds.trans (h₁ : Adds P g h) (h₂ : Adds P h i) : Adds P g i := by
  obtain ⟨later₁, hjournal₁, hall₁⟩ := h₁
  obtain ⟨later₂, hjournal₂, hall₂⟩ := h₂
  refine ⟨later₁ ++ later₂, by rw [hjournal₂, hjournal₁, List.append_assoc], fun p hp => ?_⟩
  obtain hp | hp := List.mem_append.1 hp
  · exact hall₁ p hp
  · exact hall₂ p hp

end Engine

end Flowline
