import Flowline.Proofs.Execution.Sound
import Flowline.Proofs.Session.Leads

/-! # What a node leaves as it is, and what it reads

`Frame R`: nothing that one node does by itself leads out of the relation `R`. It may set variables, log,
ask for the end of the execution, let time pass, give out numbers, count calls and read the clock. A node
may also take its signal (`SignalFrame`), and nodes that run others record their states (`RecordFrame`).

A computation is confined if it reads the variables and the clock alone and changes nothing but variables and
the log: in two sessions with the same variables it comes to the same. How far the clocks of the two sessions
may differ is a parameter. -/

namespace Flowline

/-- A relation of sessions that holds between those before and after anything a node does by itself. -/
class Frame (R : Session → Session → Prop) : Prop extends IsPreorder Session R where
  setVariable : ∀ s name value, R s { s with execution := s.execution.setVariable name value }
  log : ∀ s level message context, R s { s with execution := s.execution.log level message context }
  cancel : ∀ s, R s { s with execution := { s.execution with status := .cancelled } }
  elapse : ∀ s micros now, s.now.addMicros? micros = some now → R s { s with now := now }
  number : ∀ s, R s { s with execution := { s.execution with nextNumber := s.execution.nextNumber + 1 } }
  countCall : ∀ s type count, R s { s with calls := s.calls.put type count }
  readStopwatch : ∀ s, R s { s with stopwatch := s.stopwatch + s.tick }

/-- A relation of sessions that holds also between those before and after a node takes its signal. -/
class SignalFrame (R : Session → Session → Prop) : Prop extends Frame R where
  takeSignal : ∀ s node, R s { s with signals := s.signals.erase (s.execution.id, node) }

/-- A relation of sessions that holds also between those before and after the state of a node is
recorded. -/
class RecordFrame (R : Session → Session → Prop) : Prop extends Frame R where
  setState : ∀ s x status o, R s { s with execution := s.execution.setState x status o }

variable {R : Session → Session → Prop} {α β : Type} {P : α → Prop}

/-! ## Faults, conditions and loops -/

theorem gives_of [IsPreorder Session R] (r : Except Fault α) (h : ∀ a, r = .ok a → P a) :
    Gives R P (Run.of r) := by
  intro s
  cases r with
  | error fault => exact refl_of R s
  | ok a => exact ⟨refl_of R s, h a rfl⟩

theorem within_of [IsPreorder Session R] (r : Except Fault α) : Within R (Run.of r) :=
  gives_of r fun _ _ => trivial

theorem within_get [IsPreorder Session R] : Within R (get : Run Session) :=
  fun s => ⟨refl_of R s, trivial⟩

theorem within_execution [IsPreorder Session R] : Within R Run.execution :=
  within_get.bind fun s => gives_pure (a := s.execution) trivial

theorem leads_execution {ok : Execution → Session → Prop} {fails : Fault → Session → Prop} {s : Session}
    (h : ok s.execution s) : Leads Run.execution s ok fails := h

theorem within_modify {f : Session → Session} (h : ∀ s, R s (f s)) :
    Within R (modify f : Run PUnit) := fun s => ⟨h s, trivial⟩

theorem Run.leads_attempt {m : Run α} {s : Session} {ok : Except Fault α → Session → Prop}
    {fails : Fault → Session → Prop}
    (hm : Leads m s (fun a t => ok (.ok a) t) fun fault t => ok (.error fault) t) :
    Leads (Run.attempt m) s ok fails := by
  unfold Leads at hm ⊢
  change match ((Except.ok (m.run.run s).1, (m.run.run s).2) : Except Fault _ × _) with
    | (.ok r, t) => ok r t
    | (.error fault, t) => fails fault t
  rcases hrun : m.run.run s with ⟨fault | a, t⟩
  · rw [hrun] at hm
    exact hm
  · rw [hrun] at hm
    exact hm

theorem Gives.attempt {m : Run α} (h : Gives R P m) :
    Gives R (fun r => ∀ a, r = .ok a → P a) (Run.attempt m) := by
  refine fun s => Run.leads_attempt ((h s).mono ?_ fun _ _ hfault => ⟨hfault, nofun⟩)
  rintro a t ⟨hst, ha⟩
  refine ⟨hst, ?_⟩
  rintro _ ⟨⟩
  exact ha

theorem within_forIn [IsPreorder Session R] {body : β → Run PUnit} (h : ∀ b, Within R (body b))
    (items : List β) :
    Within R (forIn items PUnit.unit fun b _ => do body b; pure (ForInStep.yield PUnit.unit)) := by
  induction items with
  | nil => exact gives_pure trivial
  | cons b rest ih =>
    rw [List.forIn_cons]
    refine Within.bind ?_ fun step => ?_
    · exact (h b).bind fun _ => gives_pure trivial
    · cases step with
      | done _ => exact gives_pure trivial
      | yield _ => exact ih

theorem within_foldlM [IsPreorder Session R] {step : α → β → Run α} (h : ∀ a b, Within R (step a b))
    (a : α) (items : List β) : Within R (items.foldlM step a) := by
  induction items generalizing a with
  | nil => exact gives_pure trivial
  | cons b rest ih =>
    rw [List.foldlM_cons]
    exact (h a b).bind fun a => ih a

/-! ## What nodes do by themselves -/

namespace Run
variable [Frame R]

theorem within_setVariable (name : Scalar) (value : Value) : Within R (setVariable name value) :=
  within_modify fun s => Frame.setVariable s name value

theorem within_setNamed (name value : Value) : Within R (setNamed name value) :=
  (within_of _).bind fun key => within_setVariable key value

theorem within_log (level message : String) (context : Value) :
    Within R (modifyExecution (·.log level message context)) :=
  within_modify fun s => Frame.log s level message context

theorem within_note (level message : String) (details : List (String × Value)) :
    Within R (note level message details) := within_log level message (.object details)

theorem within_resolve (v : Value) : Within R (resolve v) :=
  within_execution.bind fun _ => within_of _

theorem within_resolveDeep (v : Value) : Within R (resolveDeep v) :=
  within_execution.bind fun _ => within_of _

theorem within_check (condition : Value) : Within R (check condition) :=
  within_get.bind fun _ => within_of _

theorem within_timestamp : Within R timestamp := within_get.bind fun _ => gives_pure trivial

theorem within_readStopwatch : Within R readStopwatch := fun s =>
  ⟨Frame.readStopwatch s, trivial⟩

theorem within_takeSignal {R : Session → Session → Prop} [SignalFrame R] (node : String) :
    Within R (takeSignal node) := fun s => ⟨SignalFrame.takeSignal s node, trivial⟩

theorem within_perform (effect : Effect) : Within R (perform effect) := by
  cases effect with
  | setVariable name value => exact within_setVariable name value
  | log level message context => exact within_log level message context
  | cancel =>
    refine within_modify fun s => ?_
    exact trans_of R (Frame.cancel s) (Frame.log _ _ _ _)
  | elapse micros =>
    intro s
    unfold perform
    refine leads_bind (leads_get ?_)
    split
    · next now hnow => exact ⟨Frame.elapse s micros now hnow, trivial⟩
    · exact refl_of R s

theorem within_countCall (type : String) : Within R (countCall type) := fun s =>
  ⟨Frame.countCall s type _, trivial⟩

end Run

end Flowline

/-! ## Computations that work on variables -/

namespace Flowline

/-- A session with other variables and another log. -/
def Session.holding (s : Session) (vars : List (Scalar × Value)) (logs : List LogEntry) : Session :=
  { s with execution := { s.execution with vars := vars, logs := logs } }

section
variable {α β : Type}

/-- In two sessions a computation comes to the same, and leaves the same variables. -/
def RunsAlike (m : Run α) (s t : Session) : Prop :=
  ∃ r vars logs logs', m.run.run s = (r, s.holding vars logs) ∧ m.run.run t = (r, t.holding vars logs')

/-- A computation comes to the same in all sessions with the same variables whose clocks are related. -/
def Confined (clocks : Moment → Moment → Prop) (m : Run α) : Prop :=
  ∀ s t : Session, s.execution.vars = t.execution.vars → clocks s.now t.now → RunsAlike m s t

variable {clocks : Moment → Moment → Prop}

/-- What only reads something that is the same in both sessions. -/
theorem confined_read {m : Run α} (read : Session → Except Fault α) (hm : ∀ s, m.run.run s = (read s, s))
    (hread : ∀ s t, s.execution.vars = t.execution.vars → clocks s.now t.now → read s = read t) :
    Confined clocks m := by
  intro s t hvars hclocks
  refine ⟨read s, s.execution.vars, s.execution.logs, t.execution.logs, hm s, ?_⟩
  rw [hm t, hread s t hvars hclocks, hvars]
  rfl

theorem confined_of (r : Except Fault α) : Confined clocks (Run.of r) :=
  confined_read (fun _ => r) (fun _ => rfl) fun _ _ _ _ => rfl

theorem confined_pure (a : α) : Confined clocks (pure a : Run α) := confined_of (.ok a)

theorem Confined.bind {m : Run α} {f : α → Run β} (hm : Confined clocks m)
    (hf : ∀ a, Confined clocks (f a)) : Confined clocks (m >>= f) := by
  intro s t hvars hclocks
  obtain ⟨r, vars, logs, logs', hs, ht⟩ := hm s t hvars hclocks
  unfold RunsAlike
  rw [run_bind, run_bind, hs, ht]
  cases r with
  | error fault => exact ⟨.error fault, vars, logs, logs', rfl, rfl⟩
  | ok a => exact hf a (s.holding vars logs) (t.holding vars logs') rfl hclocks

theorem confined_foldlM {step : α → β → Run α} (h : ∀ a b, Confined clocks (step a b)) (a : α)
    (items : List β) : Confined clocks (items.foldlM step a) := by
  induction items generalizing a with
  | nil => exact confined_pure a
  | cons b rest ih =>
    rw [List.foldlM_cons]
    exact (h a b).bind fun a => ih a

end

namespace Run
variable {clocks : Moment → Moment → Prop}

theorem confined_setVariable (name : Scalar) (value : Value) : Confined clocks (setVariable name value) :=
  fun s t hvars _ => ⟨.ok (), Entries.insert s.execution.vars name value, s.execution.logs, t.execution.logs,
    rfl, by rw [hvars]; rfl⟩

theorem confined_setNamed (name value : Value) : Confined clocks (setNamed name value) :=
  (confined_of _).bind fun key => confined_setVariable key value

theorem confined_note (level message : String) (details : List (String × Value)) :
    Confined clocks (note level message details) := by
  intro s t hvars _
  obtain ⟨logs, hs⟩ := Execution.log_eq s.execution level message (.object details)
  obtain ⟨logs', ht⟩ := Execution.log_eq t.execution level message (.object details)
  refine ⟨.ok (), s.execution.vars, logs, logs', ?_, ?_⟩
  · exact congrArg (fun e => (Except.ok (), { s with execution := e })) hs
  · rw [hvars]
    exact congrArg (fun e => (Except.ok (), { t with execution := e })) ht

theorem confined_resolve (v : Value) : Confined clocks (resolve v) := by
  refine confined_read (fun s => Template.resolve v s.execution.scope) (fun _ => rfl) ?_
  intro s t hvars _
  rw [Execution.scope, Execution.scope, hvars]

theorem confined_resolveDeep (v : Value) : Confined clocks (resolveDeep v) := by
  refine confined_read (fun s => Template.resolveDeep s.execution.scope v) (fun _ => rfl) ?_
  intro s t hvars _
  rw [Execution.scope, Execution.scope, hvars]

/-- A condition may read the clock. -/
theorem confined_check (condition : Value) : Confined Eq (check condition) := by
  refine confined_read (fun s => (Condition.ofNodeValue condition).holds (Language.standard s.now)
    s.execution.scope) (fun _ => rfl) ?_
  intro s t hvars hclocks
  rw [Execution.scope, Execution.scope, hvars, hclocks]

end Run

end Flowline
