import Flowline.Engine.Basic
import Flowline.Proofs.Engine.Frame
import Flowline.Proofs.Node.Deadline
import Flowline.Proofs.Table
import Flowline.Proofs.Walk.Parts

/-! # Signals are taken once

What is kept for a node of an execution is taken by the node alone, when it is run as one that waits for
signals. An operation first keeps what it delivers, and then makes walks, of which the journal has every run of a
node: these are the incidents of the operation. `Course`: what is kept changes by the incidents and not otherwise, and
a run has what was delivered last for its result.

An engine keeps a payload for each node of an execution to which a signal was delivered. Whatever operations
are asked for, the next run of the node takes what was delivered last; a node of which the configuration
cannot be read takes nothing. -/

namespace Flowline

/-- What is done about the signals for a node of an execution. -/
inductive Incident
  | delivery (payload : Value)
  | run (c : NodeRun)

variable {setup : Setup} {id x : String}

namespace NodeRun

/-- A node with an id was run as one that waits for signals. -/
def awaits (setup : Setup) (x : String) (c : NodeRun) : Bool :=
  c.node.id == x && NodeKind.ofNode? (setup.services 0) c.node == some .wait

/-- The configuration of the node can be read. -/
def IsReadable (setup : Setup) (c : NodeRun) : Prop := ∃ d, c.node.patience (setup.services 0) = .ok d

/-- What the runs that were made in an execution are to a node of an execution that waits for signals. -/
def incidents (setup : Setup) (id x execution : String) (runs : List NodeRun) : List Incident :=
  if execution = id then (runs.filter (awaits setup x)).map .run else []

theorem incidents_append (execution : String) (runs runs' : List NodeRun) :
    incidents setup id x execution (runs ++ runs') =
      incidents setup id x execution runs ++ incidents setup id x execution runs' := by
  unfold incidents
  split
  · rw [List.filter_append, List.map_append]
  · rfl

theorem incidents_of_not_awaits (execution : String) {c : NodeRun}
    (h : execution = id → c.awaits setup x = false) : incidents setup id x execution [c] = [] := by
  unfold incidents
  split
  · next heq => simp [h heq]
  · rfl

end NodeRun

/-- The payload that is kept for a node when one is delivered. -/
def Signals.kept (payload : Value) : Value := if payload.isPresent then payload else .map []

/-- The payload that is kept for a node of an execution. -/
def Session.mail? (s : Session) (id x : String) : Option Value := Table.get? s.signals (id, x)

/-- What becomes of the payload that is kept for a node of an execution, as something is done about it. A delivery
takes its place. A run takes it, and has it for its result; only if the configuration of the node cannot be read, the run
fails and leaves it. -/
inductive Course (setup : Setup) : Option Value → List Incident → Option Value → Prop
  | nil (mail : Option Value) : Course setup mail [] mail
  | delivery {mail mail' : Option Value} {is : List Incident} (payload : Value)
    (hrest : Course setup (some (Signals.kept payload)) is mail') : Course setup mail (.delivery payload :: is) mail'
  | takes {payload : Value} {mail' : Option Value} {is : List Incident} (c : NodeRun) (hread : c.IsReadable setup)
    (hresult : c.result = Node.signalResult payload) (hrest : Course setup none is mail') :
    Course setup (some payload) (.run c :: is) mail'
  | findsNone {mail' : Option Value} {is : List Incident} (c : NodeRun) (hread : c.IsReadable setup)
    (hrest : Course setup none is mail') : Course setup none (.run c :: is) mail'
  | refused {mail mail' : Option Value} {is : List Incident} (c : NodeRun) (hread : ¬ c.IsReadable setup)
    (hfailed : c.result.isFailed = true) (hrest : Course setup mail is mail') : Course setup mail (.run c :: is) mail'

namespace Course
variable {mail mail' mail'' : Option Value} {is js : List Incident}

theorem append (h₁ : Course setup mail is mail') (h₂ : Course setup mail' js mail'') :
    Course setup mail (is ++ js) mail'' := by
  induction h₁ with
  | nil => exact h₂
  | delivery payload _ ih => exact .delivery payload (ih h₂)
  | takes c hread hresult _ ih => exact .takes c hread hresult (ih h₂)
  | findsNone c hread _ ih => exact .findsNone c hread (ih h₂)
  | refused c hread hfailed _ ih => exact .refused c hread hfailed (ih h₂)

/-- What was done can be parted anywhere. -/
theorem part (h : Course setup mail (is ++ js) mail'') :
    ∃ mail', Course setup mail is mail' ∧ Course setup mail' js mail'' := by
  induction is generalizing mail with
  | nil => exact ⟨mail, .nil mail, h⟩
  | cons i is ih =>
    cases h with
    | delivery payload hrest =>
      obtain ⟨mail', h₁, h₂⟩ := ih hrest
      exact ⟨mail', .delivery payload h₁, h₂⟩
    | takes c hread hresult hrest =>
      obtain ⟨mail', h₁, h₂⟩ := ih hrest
      exact ⟨mail', .takes c hread hresult h₁, h₂⟩
    | findsNone c hread hrest =>
      obtain ⟨mail', h₁, h₂⟩ := ih hrest
      exact ⟨mail', .findsNone c hread h₁, h₂⟩
    | refused c hread hfailed hrest =>
      obtain ⟨mail', h₁, h₂⟩ := ih hrest
      exact ⟨mail', .refused c hread hfailed h₁, h₂⟩

/-- After some deliveries, the last payload is kept. -/
theorem of_deliveries {payloads : List Value} (h : Course setup mail (payloads.map .delivery) mail') :
    mail' = (payloads.getLast?.map Signals.kept).or mail := by
  induction payloads generalizing mail with
  | nil =>
    cases h
    rfl
  | cons payload rest ih =>
    cases h with
    | delivery _ hrest =>
      rw [ih hrest, List.getLast?_cons]
      cases rest.getLast? with
      | none => rfl
      | some last => rfl

/-- A run of a node that can be read takes what is kept, and leaves none. -/
theorem of_run {c : NodeRun} (h : Course setup mail (.run c :: is) mail') (hread : c.IsReadable setup) :
    (∀ payload, mail = some payload → c.result = Node.signalResult payload) ∧ Course setup none is mail' := by
  cases h with
  | takes _ _ hresult hrest =>
    refine ⟨?_, hrest⟩
    rintro _ ⟨⟩
    exact hresult
  | findsNone _ _ hrest => exact ⟨nofun, hrest⟩
  | refused _ hnot _ _ => exact absurd hread hnot

theorem of_run_refused {c : NodeRun} (h : Course setup mail (.run c :: is) mail') (hread : ¬ c.IsReadable setup) :
    c.result.isFailed = true ∧ Course setup mail is mail' := by
  cases h with
  | takes _ hyes _ _ | findsNone _ hyes _ => exact absurd hyes hread
  | refused _ _ hfailed hrest => exact ⟨hfailed, hrest⟩

end Course

/-! ## Runs -/

namespace Node
open NodeResult

variable {services : Services} {n : Node} {d : Int} {payload : Value} {s : Session}

theorem runWait_signalled (hd : n.patience services = .ok d)
    (hmail : s.mail? s.execution.id n.id = some payload) :
    Leads (runWait services n) s
      (fun r t => t.mail? s.execution.id n.id = none ∧ r = signalResult payload) fun _ _ => False := by
  obtain ⟨v, hv, hd⟩ := bind_eq_ok.1 hd
  obtain ⟨waitType, htype⟩ := exists_entryOr hv "type" (.str "webhook")
  refine Run.leads_read htype (Run.leads_read hv (Run.leads_read hd ?_))
  refine leads_bind (leads_bind (leads_get (leads_pure ?_)))
  refine leads_bind (leads_bind (leads_get (leads_bind (leads_set (leads_pure ?_)))))
  rw [show Table.get? s.signals (s.execution.id, n.id) = some payload from hmail]
  exact leads_pure ⟨Table.get?_erase_self _ _, rfl⟩

/-- A node whose configuration cannot be read takes nothing. -/
theorem runWait_unreadable (hd : ∀ d, n.patience services ≠ .ok d) :
    Leads (runWait services n) s (fun _ _ => False) fun _ t => t = s := by
  unfold runWait
  cases htype : n.config.entryOr "type" (.str "webhook") with
  | error fault => exact leads_bind (leads_throw rfl)
  | ok waitType =>
    obtain ⟨v, hv⟩ := exists_entryOr htype "timeout" (.int services.waitTimeout)
    refine leads_bind (leads_pure (Run.leads_read hv ?_))
    cases hwhole : v.toWhole with
    | error fault => exact leads_bind (leads_throw rfl)
    | ok d =>
      refine absurd ?_ (hd d)
      rw [patience, hv]
      exact hwhole

/-- A run takes the payload that is kept, which is its result. -/
theorem leads_runNode_signalled {w : Workflow} {inner : Node → Run NodeResult}
    (hn : NodeKind.ofNode? services n = some .wait) (hd : n.patience services = .ok d)
    (hmail : s.mail? s.execution.id n.id = some payload) :
    Leads (runNode services w inner n) s
      (fun r t => t.mail? s.execution.id n.id = none ∧ r = signalResult payload) fun _ _ => False := by
  refine leads_runNode hn (fun _ _ _ h => h) (fun _ _ _ h => h) ?_ fun logs => ?_
  · rintro r t k hwaits ⟨-, rfl⟩
    cases hwaits.symm.trans (plain_signalResult payload).1
  · exact (runWait_signalled (s := { s with execution := { s.execution with logs := logs } }) hd hmail).mono
      (fun _ _ h => h) fun _ _ hfalse => hfalse.elim

/-- A run of a node whose configuration cannot be read fails, and takes nothing. -/
theorem leads_runNode_unreadable {w : Workflow} {inner : Node → Run NodeResult}
    (hn : NodeKind.ofNode? services n = some .wait) (hd : ∀ d, n.patience services ≠ .ok d) :
    Leads (runNode services w inner n) s
      (fun r t => t.mail? s.execution.id n.id = s.mail? s.execution.id n.id ∧ r.isFailed = true) fun _ _ => False := by
  refine leads_runNode hn (fun _ _ _ h => h) (fun _ _ _ h => h) (fun _ _ _ _ h => h) fun logs => ?_
  refine (runWait_unreadable hd).mono (fun _ _ hfalse => hfalse.elim) ?_
  rintro fault t rfl
  exact ⟨rfl, rfl⟩

end Node

/-! ## Walks -/

/-- Sessions of one execution between which no run was kept, and nodes with an id alone took signals. -/
def TakenBy (x : String) (s t : Session) : Prop :=
  t.execution.id = s.execution.id ∧ t.execution.runs = s.execution.runs ∧
    ∀ id y, t.mail? id y = s.mail? id y ∨ (id, y) = (s.execution.id, x) ∧ t.mail? id y = none

theorem takenBy_of_eq {s t : Session} (hid : t.execution.id = s.execution.id)
    (hruns : t.execution.runs = s.execution.runs) (hsignals : t.signals = s.signals) : TakenBy x s t :=
  ⟨hid, hruns, fun id y => .inl (congrArg (Table.get? · (id, y)) hsignals)⟩

instance : Frame (TakenBy x) where
  refl _ := takenBy_of_eq rfl rfl rfl
  trans s t u hst htu := by
    refine ⟨htu.1.trans hst.1, htu.2.1.trans hst.2.1, fun id y => ?_⟩
    obtain hsame | ⟨hown, hnone⟩ := htu.2.2 id y
    · rw [hsame]
      exact hst.2.2 id y
    · exact .inr ⟨hst.1 ▸ hown, hnone⟩
  setVariable _ _ _ := takenBy_of_eq rfl rfl rfl
  log s level message context := by
    obtain ⟨logs, h⟩ := Execution.log_eq s.execution level message context
    rw [h]
    exact takenBy_of_eq rfl rfl rfl
  cancel _ := takenBy_of_eq rfl rfl rfl
  elapse _ _ _ _ := takenBy_of_eq rfl rfl rfl
  number _ := takenBy_of_eq rfl rfl rfl
  countCall _ _ _ := takenBy_of_eq rfl rfl rfl
  readStopwatch _ := takenBy_of_eq rfl rfl rfl

theorem within_takeSignal_takenBy (x : String) : Within (TakenBy x) (Run.takeSignal x) := by
  refine fun s => ⟨⟨rfl, rfl, fun id y => ?_⟩, trivial⟩
  by_cases hown : (id, y) = (s.execution.id, x)
  · refine .inr ⟨hown, ?_⟩
    obtain ⟨rfl, rfl⟩ := Prod.mk.inj hown
    exact Table.get?_erase_self _ _
  · exact .inl (Table.get?_erase_of_ne _ hown)

/-- Sessions of one execution between which the payload for a node of an execution changed only by the runs of the
node that were kept. -/
def TakenByRuns (setup : Setup) (id x : String) (s t : Session) : Prop :=
  t.execution.id = s.execution.id ∧ ∃ runs, t.execution.runs = s.execution.runs ++ runs ∧
    Course setup (s.mail? id x) (NodeRun.incidents setup id x s.execution.id runs) (t.mail? id x)

theorem takenByRuns_of_eq {s t : Session} (hid : t.execution.id = s.execution.id)
    (hruns : t.execution.runs = s.execution.runs) (hmail : t.mail? id x = s.mail? id x) : TakenByRuns setup id x s t := by
  refine ⟨hid, [], by rw [hruns, List.append_nil], ?_⟩
  rw [hmail, NodeRun.incidents, List.filter_nil, List.map_nil, ite_self]
  exact .nil _

instance : VisitFrame (TakenByRuns setup id x) where
  refl _ := takenByRuns_of_eq rfl rfl rfl
  trans s t u := by
    rintro ⟨hid, runs, hruns, hcourse⟩ ⟨hid', runs', hruns', hcourse'⟩
    refine ⟨hid'.trans hid, runs ++ runs', by rw [hruns', hruns, List.append_assoc], ?_⟩
    rw [NodeRun.incidents_append]
    exact hcourse.append (hid ▸ hcourse')
  setVariable _ _ _ := takenByRuns_of_eq rfl rfl rfl
  log s level message context := by
    obtain ⟨logs, h⟩ := Execution.log_eq s.execution level message context
    rw [h]
    exact takenByRuns_of_eq rfl rfl rfl
  cancel _ := takenByRuns_of_eq rfl rfl rfl
  elapse _ _ _ _ := takenByRuns_of_eq rfl rfl rfl
  number _ := takenByRuns_of_eq rfl rfl rfl
  countCall _ _ _ := takenByRuns_of_eq rfl rfl rfl
  readStopwatch _ := takenByRuns_of_eq rfl rfl rfl
  setState s y status o := by
    obtain ⟨states, h⟩ := Execution.setState_eq s.execution y status o
    rw [h]
    exact takenByRuns_of_eq rfl rfl rfl
  visit _ _ := takenByRuns_of_eq rfl rfl rfl

/-- Keeping a run is nothing to the node if the run is none of it. -/
theorem takenByRuns_ran {s t : Session} (h : TakenBy x s t) (c : NodeRun) {x' : String}
    (hc : s.execution.id = id → c.awaits setup x' = false) (hne : (id, x') ≠ (s.execution.id, x)) :
    TakenByRuns setup id x' s { t with execution := t.execution.ran c.node c.result } := by
  refine ⟨h.1, [c], congrArg (· ++ [c]) h.2.1, ?_⟩
  rw [NodeRun.incidents_of_not_awaits _ hc]
  have hmail : t.mail? id x' = s.mail? id x' := (h.2.2 id x').resolve_right fun hown => hne hown.1
  change Course setup _ _ (t.mail? id x')
  rw [hmail]
  exact .nil _

namespace Node
variable {n : Node} {running : Nat} {w : Workflow}

/-- One run of a node that waits for signals. -/
theorem leads_runNode_course (hn : NodeKind.ofNode? (setup.services running) n = some .wait)
    (inner : Node → Run NodeResult) (s : Session) :
    Leads (runNode (setup.services running) w inner n) s
      (fun r t => TakenBy n.id s t ∧
        Course setup (s.mail? s.execution.id n.id) [.run ⟨n, r⟩] (t.mail? s.execution.id n.id)) fun _ _ => False := by
  have htaken : Leads (runNode (setup.services running) w inner n) s (fun _ t => TakenBy n.id s t) fun _ _ => True := by
    refine Leads.mono (within_runNode (R := TakenBy n.id) (fun kind hkind => ?_) s) (fun _ _ h => h.1) fun _ _ _ => trivial
    obtain rfl := Option.some.inj (hkind.symm.trans hn)
    exact within_runKind nofun nofun fun _ => within_runWait _ n (within_takeSignal_takenBy n.id)
  by_cases hread : ∃ d, n.patience (setup.services running) = .ok d
  · obtain ⟨d, hd⟩ := hread
    have hread (r : NodeResult) : NodeRun.IsReadable setup ⟨n, r⟩ := ⟨d, hd⟩
    cases hmail : s.mail? s.execution.id n.id with
    | some payload =>
      refine (htaken.and (leads_runNode_signalled hn hd hmail)).mono ?_ fun _ _ h => h.2
      rintro r t ⟨htaken, hnone, hr⟩
      rw [hnone]
      exact ⟨htaken, .takes _ (hread r) hr (.nil _)⟩
    | none =>
      have hruns : Leads (runNode (setup.services running) w inner n) s (fun _ _ => True) fun _ _ => False :=
        leads_runNode hn (fun _ _ _ h => h) (fun _ _ _ h => h) (fun _ _ _ _ h => h) fun _ => leads_trivial
      refine (htaken.and hruns).mono ?_ fun _ _ h => h.2
      rintro r t ⟨htaken, -⟩
      have hnone : t.mail? s.execution.id n.id = none := by
        obtain hsame | ⟨-, hnone⟩ := htaken.2.2 s.execution.id n.id
        · exact hsame.trans hmail
        · exact hnone
      rw [hnone]
      exact ⟨htaken, .findsNone _ (hread r) (.nil _)⟩
  · refine (htaken.and (leads_runNode_unreadable hn fun d hd => hread ⟨d, hd⟩)).mono ?_ fun _ _ h => h.2
    rintro r t ⟨htaken, hsame, hfailed⟩
    rw [hsame]
    exact ⟨htaken, .refused _ (fun ⟨d, hd⟩ => hread ⟨d, hd⟩) hfailed (.nil _)⟩

/-- The payload that is kept for a node changes only by the runs that are kept, whatever node is run. -/
theorem within_dispatch_taken (running : Nat) (w : Workflow) (depth : Nat) (n : Node) :
    Within (TakenByRuns setup id x) (dispatch (setup.services running) w depth n) := by
  have hran (n : Node) (hn : NodeKind.ofNode? (setup.services running) n ≠ some .wait) (s : Session) (r : NodeResult) :
      TakenByRuns setup id x s { s with execution := s.execution.ran n r } := by
    refine ⟨rfl, [⟨n, r⟩], rfl, ?_⟩
    have hnot : NodeRun.awaits setup x ⟨n, r⟩ = false := Bool.and_eq_false_iff.2 (.inr (beq_eq_false_iff_ne.2 hn))
    rw [NodeRun.incidents_of_not_awaits _ fun _ => hnot]
    exact .nil _
  refine within_dispatch_among (fun _ => True) (fun _ _ _ _ _ => trivial)
    (fun _ _ _ _ _ _ _ => ⟨trivial, fun s _ _ => RecordFrame.setState s _ _ _⟩) (fun n _ hn s r => hran n hn s r) ?_
    depth trivial
  intro n depth _ hn s
  refine leads_dispatch ((leads_runNode_course hn _ s).mono ?_ fun _ _ hfalse => hfalse.elim)
  rintro r t ⟨htaken, hcourse⟩
  refine ⟨?_, trivial⟩
  by_cases hown : (id, x) = (s.execution.id, n.id)
  · obtain ⟨rfl, rfl⟩ := Prod.mk.inj hown
    have hawaits : NodeRun.awaits setup n.id ⟨n, r⟩ = true := Bool.and_eq_true_iff.2 ⟨beq_self_eq_true _, beq_iff_eq.2 hn⟩
    have hruns : t.execution.runs ++ [⟨n, r⟩] = s.execution.runs ++ [⟨n, r⟩] := by rw [htaken.2.1]
    refine ⟨htaken.1, [⟨n, r⟩], hruns, ?_⟩
    rw [NodeRun.incidents, if_pos rfl, List.filter_cons_of_pos hawaits]
    exact hcourse
  · refine takenByRuns_ran htaken ⟨n, r⟩ (fun hid => ?_) hown
    have hne : n.id ≠ x := fun hx => hown (by rw [hid, hx])
    exact Bool.and_eq_false_iff.2 (.inl (beq_eq_false_iff_ne.2 hne))

end Node

/-! ## Engines -/

/-- What an operation delivers to a node of an execution. -/
def Operation.deliveries (id x : String) : Operation → List Incident
  | .deliverSignal id' x' payload => if (id, x) = (id', x') then [.delivery payload] else []
  | _ => []

/-- What a walk is to a node of an execution that waits for signals. -/
def Passage.incidents (setup : Setup) (id x : String) (p : Passage) : List Incident :=
  NodeRun.incidents setup id x p.before.id p.after.runs

namespace Engine

/-- The payload that is kept for a node of an execution. -/
def mail? (g : Engine) (id x : String) : Option Value := Table.get? g.signals (id, x)

/-- What some operations do about the signals for a node of an execution: each first delivers what it delivers, and then
makes the walks that it adds to the journal. -/
def incidents (setup : Setup) (id x : String) (g : Engine) : List Operation → List Incident
  | [] => []
  | op :: rest => op.deliveries id x ++
      ((g.after setup op).journal.drop g.journal.length).flatMap (·.incidents setup id x) ++
        incidents setup id x (g.after setup op) rest

/-- Engines between which the payload for a node of an execution changed only by the runs in the walks that were
made. -/
def TakenByRuns (setup : Setup) (id x : String) (g h : Engine) : Prop :=
  ∃ ps, h.journal = g.journal ++ ps ∧
    Course setup (g.mail? id x) (ps.flatMap (·.incidents setup id x)) (h.mail? id x)

instance : SignalsFrame setup (TakenByRuns setup id x) where
  refl _ := ⟨[], (List.append_nil _).symm, .nil _⟩
  trans g h k := by
    rintro ⟨ps, hps, hcourse⟩ ⟨ps', hps', hcourse'⟩
    refine ⟨ps ++ ps', by rw [hps', hps, List.append_assoc], ?_⟩
    rw [List.flatMap_append]
    exact hcourse.append hcourse'
  calm g h hsignals hjournal := by
    refine ⟨[], by rw [hjournal, List.append_nil], ?_⟩
    rw [mail?, mail?, hsignals]
    exact .nil _
  walk w e starts := by
    intro g
    have hwalk := Leads.state (P := Flowline.TakenByRuns setup id x (g.session e))
      ((Walk.within_run (Node.within_dispatch_taken g.running.length w (Node.nestingLimit w)) w
        setup.config.maxIterations starts (g.session e)).mono (fun _ _ h => h.1) fun _ _ h => h)
    -- the session of a walk begins with no runs, so that all those at its end were made in it
    have hcourse {t : Session} (ht : Flowline.TakenByRuns setup id x (g.session e) t) :
        Course setup (g.mail? id x) (NodeRun.incidents setup id x e.id t.execution.runs) (t.mail? id x) := by
      obtain ⟨-, runs, hruns, hcourse⟩ := ht
      rw [hruns]
      exact hcourse
    refine leads_bind (leads_get (leads_bind (leads_set (leads_pure ⟨⟨[_], rfl, ?_⟩, trivial⟩))))
    rw [List.flatMap_singleton]
    exact hcourse hwalk

/-- One operation: what it delivers comes first, and then the runs in the walks that it makes. -/
theorem after_course (setup : Setup) (id x : String) (g : Engine) (op : Operation) :
    Course setup (g.mail? id x) (op.deliveries id x ++
      ((g.after setup op).journal.drop g.journal.length).flatMap (·.incidents setup id x))
      ((g.after setup op).mail? id x) := by
  obtain ⟨ps, hps, hruns⟩ : TakenByRuns setup id x (g.receiving op) (g.after setup op) := after_within g op
  have hjournal : (g.receiving op).journal = g.journal := by cases op <;> rfl
  rw [hps, hjournal, List.drop_left]
  cases op with
  | deliverSignal id' x' payload =>
    by_cases hkey : (id, x) = (id', x')
    · obtain ⟨rfl, rfl⟩ := Prod.mk.inj hkey
      rw [Operation.deliveries, if_pos rfl]
      refine .delivery payload ?_
      have hmail : (g.receiving (.deliverSignal id x payload)).mail? id x = some (Signals.kept payload) :=
        Table.get?_put_self g.signals (id, x) _
      rw [← hmail]
      exact hruns
    · have hmail : (g.receiving (.deliverSignal id' x' payload)).mail? id x = g.mail? id x :=
        Table.get?_put_of_ne g.signals _ hkey
      rw [Operation.deliveries, if_neg hkey, ← hmail]
      exact hruns
  | _ => exact hruns

/-- All operations, one after the other. -/
theorem run_course (setup : Setup) (id x : String) (g : Engine) (ops : List Operation) :
    Course setup (g.mail? id x) (g.incidents setup id x ops) ((g.run setup ops).mail? id x) := by
  induction ops generalizing g with
  | nil => exact .nil _
  | cons op rest ih => exact (after_course setup id x g op).append (ih (g.after setup op))

end Engine

theorem Node.signalResult_status (payload : Value) : (Node.signalResult payload).status = .completed := by
  unfold Node.signalResult
  split <;> rfl

theorem Node.signalResult_object (entries : List (Scalar × Value)) :
    (Node.signalResult (Signals.kept (.map entries))).output.value = .map entries := by
  cases entries with
  | nil => rfl
  | cons p rest => rfl

namespace Engine

/-- Signals are taken once, by the node and the execution to which they were delivered. What is kept for a node changes
by what is delivered to it and by its runs in the walks of the engine, and not otherwise. The first run after some
deliveries gives the last payload as its result and leaves none. A run that does not do so, as one that fails or times
out, found none. Only a run of a node whose configuration cannot be read fails in any case, and leaves what is there. -/
theorem signals_taken_once (g : Engine) (id x : String) (ops : List Operation) :
    Course setup (g.mail? id x) (g.incidents setup id x ops) ((g.run setup ops).mail? id x) ∧
    (∀ (before : List Incident) (payloads : List Value) last c rest,
      g.incidents setup id x ops = before ++ payloads.map .delivery ++ .run c :: rest →
      payloads.getLast? = some last → c.IsReadable setup →
      c.result.status = .completed ∧ c.result = Node.signalResult (Signals.kept last) ∧
        (∀ entries, last = .map entries → c.result.output.value = .map entries) ∧
        Course setup none rest ((g.run setup ops).mail? id x)) ∧
    ∀ (before : List Incident) c rest, g.incidents setup id x ops = before ++ .run c :: rest →
      ∃ mail, Course setup (g.mail? id x) before mail ∧
        (c.IsReadable setup → (∀ payload, mail = some payload → c.result = Node.signalResult payload) ∧
          (c.result.isFailed = true → mail = none) ∧ Course setup none rest ((g.run setup ops).mail? id x)) ∧
        (¬ c.IsReadable setup → c.result.isFailed = true ∧ Course setup mail rest ((g.run setup ops).mail? id x)) := by
  have hcourse := run_course setup id x g ops
  refine ⟨hcourse, fun before payloads last c rest heq hlast hread => ?_, fun before c rest heq => ?_⟩
  · rw [heq] at hcourse
    obtain ⟨mail₂, hcourse, hrun⟩ := hcourse.part
    obtain ⟨mail₁, -, hdeliveries⟩ := hcourse.part
    have hkept := hdeliveries.of_deliveries
    rw [hlast] at hkept
    obtain ⟨hresult, hrest⟩ := hrun.of_run hread
    have hresult := hresult _ hkept
    refine ⟨hresult ▸ Node.signalResult_status _, hresult, ?_, hrest⟩
    rintro entries rfl
    rw [hresult]
    exact Node.signalResult_object entries
  · rw [heq] at hcourse
    obtain ⟨mail, hbefore, hrun⟩ := hcourse.part
    refine ⟨mail, hbefore, fun hread => ?_, hrun.of_run_refused⟩
    obtain ⟨hresult, hrest⟩ := hrun.of_run hread
    refine ⟨hresult, fun hfailed => ?_, hrest⟩
    cases mail with
    | none => rfl
    | some payload =>
      rw [hresult payload rfl, NodeResult.isFailed, Node.signalResult_status] at hfailed
      cases hfailed

/-- A workflow of a node that waits for a signal. -/
def holdAlone : Workflow := .ofNodes [⟨"hold", "wait", .map [], .null, .null⟩] [] []

/-- The node is run and waits. Its signal is delivered, and the node is run again and takes it. -/
example : ((knowing holdAlone).incidents (.ofActions []) "exec-1" "hold"
    [.execute holdAlone .null .null, .deliverSignal "exec-1" "hold" (.object [("k", .int 1)])]).map
      (fun | .delivery _ => none | .run c => some c.result.status) = [some .waiting, none, some .completed] := by
  decide +kernel

/-! ## A signal that is left -/

/-- A node whose timeout is no number waits for a signal. -/
def vagueWait : Workflow := .ofNodes
  [⟨"begin", "start", .map [], .null, .null⟩,
    ⟨"hold", "wait", .object [("timeout", .str "soon")], .null, .null⟩]
  [⟨"begin", "hold", .null, .null⟩] [(.str "retry_on_failure", .bool false)]

/-- The engine after a signal was delivered to the node before it is run, and then the workflow is run. -/
def unanswered : Engine := (knowing vagueWait).run (.ofActions [])
  [.deliverSignal "exec-1" "hold" (.object [("k", .int 1)]), .execute vagueWait .null .null]

/-- The first run of the node fails, and leaves the payload. -/
theorem signal_left_by_first_run :
    (unanswered.stored? "exec-1").map (fun e => (e.status, e.nodeStatus? "hold")) =
        some (.failed, some .failed) ∧
      (unanswered.mail? "exec-1" "hold").map (·.field? "k" |>.isSome) = some true := by
  decide +kernel

end Engine

end Flowline
