import Flowline.Proofs.Node.Deadline
import Flowline.Proofs.Walk.Suspended
import Flowline.Proofs.Workflow.Chain

/-! # Walks along chains

In a chain each node leads to the next one alone. A course is what the nodes of a chain make of variables, one
after the other, with delays left out. A walk along a chain comes as far in its course as there is no delay that
waits. -/

namespace Flowline

/-! ## Courses -/

/-- How far the nodes of a chain have come: the variables, and the states of the nodes that are no delays. -/
structure ChainCourse where
  vars : List (Scalar × Value)
  states : Table String NodeState

namespace ChainCourse

/-- A course with one more node, unless that node fails. -/
def step (services : Services) (c : ChainCourse) (n : Node) : Option ChainCourse :=
  match NodeKind.ofNode? services n with
  | none => none
  | some .delay => some c
  | some kind =>
    let (r, vars) := n.effect kind c.vars
    if r.isFailed then none else some ⟨vars, c.states.put n.id ⟨r.status, r.output.orEmpty⟩⟩

def along (services : Services) (c : ChainCourse) (row : List Node) : Option ChainCourse := row.foldlM (step services) c

variable {services : Services} {w : Workflow} {c c' : ChainCourse} {n : Node} {row : List Node}

theorem step_delay (hdelay : n.isDelay services) : c.step services n = some c := by
  rw [step, hdelay]

theorem step_data {kind : NodeKind} (hkind : NodeKind.ofNode? services n = some kind)
    (hdata : kind.isData = true) : c.step services n =
      if (n.effect kind c.vars).1.isFailed then none
      else some ⟨(n.effect kind c.vars).2,
        c.states.put n.id ⟨(n.effect kind c.vars).1.status, (n.effect kind c.vars).1.output.orEmpty⟩⟩ := by
  rw [step, hkind]
  cases kind with
  | delay => cases hdata
  | _ => rfl

theorem along_cons (row : List Node) : c.along services (n :: row) = (c.step services n).bind (along services · row) :=
  List.foldlM_cons

theorem along_append (row later : List Node) :
    c.along services (row ++ later) = (c.along services row).bind (along services · later) :=
  List.foldlM_append

/-- For each delay of a chain it is said how long it is to wait, when the course has come there, and the clock
can tell. -/
def Measured (services : Services) (c : ChainCourse) (row : List Node) : Prop :=
  ∀ before d rest c', row = before ++ d :: rest → d.isDelay services → c.along services before = some c' →
    d.Measured (.map c'.vars)

theorem measured_of_delays (h : ∀ d ∈ row, d.isDelay services → ∀ scope, d.Measured scope) :
    c.Measured services row := by
  intro before d rest c' hrow hdelay _
  exact h d (by rw [hrow]; simp) hdelay _

theorem Measured.suffix {before later : List Node} (h : c.Measured services (before ++ later))
    (halong : c.along services before = some c') : c'.Measured services later := by
  intro middle d rest c'' hlater hdelay halong'
  refine h (before ++ middle) d rest c'' (by rw [hlater, List.append_assoc]) hdelay ?_
  rw [along_append, halong]
  exact halong'

theorem Measured.tail {rest : List Node} (h : c.Measured services (n :: rest))
    (hstep : c.step services n = some c') : c'.Measured services rest := by
  have happend : c.Measured services ([n] ++ rest) := h
  refine happend.suffix ?_
  rw [along_cons, hstep]
  rfl

end ChainCourse

/-! ## Executions on their course -/

namespace Execution

/-- An execution after the state of a node was recorded. -/
structure Recorded (e : Execution) (x : String) (st : NodeState) (f : Execution) : Prop where
  id_eq : f.id = e.id
  workflowId_eq : f.workflowId = e.workflowId
  status_eq : f.status = e.status
  state?_eq : ∀ y, f.state? y = if y = x then some st else e.state? y

theorem recorded_setState {e f : Execution} {vars : List (Scalar × Value)} {x : String}
    (hopen : e.isCompleted x = false) (hturned : e.Turned vars f) (status : NodeStatus) (o : Output) :
    (f.setState x status o).vars = vars ∧ e.Recorded x ⟨status, o.orEmpty⟩ (f.setState x status o) := by
  obtain ⟨logs, number, runs, rfl⟩ := hturned
  obtain ⟨f, hf⟩ : ∃ f : Execution, f = { e with vars := vars, logs := logs, nextNumber := number, runs := runs } :=
    ⟨_, rfl⟩
  have hopen' : isCompleted { e with vars := vars, logs := logs, nextNumber := number, runs := runs } x = false := hopen
  obtain ⟨states, hset⟩ :=
    setState_eq { e with vars := vars, logs := logs, nextNumber := number, runs := runs } x status o
  refine ⟨by rw [hset], ⟨by rw [hset], by rw [hset], by rw [hset], fun y => ?_⟩⟩
  rw [state?_setState, hopen']
  simp only [and_true]
  rfl

/-- An execution is on a course: it has the variables, and the states of the nodes that are no delays. All nodes
are through but those that still wait. -/
structure On (services : Services) (w : Workflow) (c : ChainCourse) (waiting : List String) (e : Execution) :
    Prop where
  vars_eq : e.vars = c.vars
  state?_eq : ∀ x, (∀ n ∈ w.nodes, n.isDelay services → n.id ≠ x) → e.state? x = c.states.get? x
  through : ∀ x ∉ waiting, ∀ st, e.state? x = some st → st.status ≠ .waiting ∧ st.output.growing = []

variable {services : Services} {w : Workflow} {c : ChainCourse} {waiting : List String} {e f : Execution} {n : Node}

theorem On.of_eq (h : e.On services w c waiting) (hvars : f.vars = e.vars)
    (hstate : ∀ x, f.state? x = e.state? x) : f.On services w c waiting :=
  ⟨hvars.trans h.vars_eq, fun x hx => (hstate x).trans (h.state?_eq x hx),
    fun x hx st hst => h.through x hx st ((hstate x).symm.trans hst)⟩

/-- A delay changes nothing of the course. -/
theorem On.delay (h : e.On services w c waiting) (hn : n ∈ w.nodes) (hdelay : n.isDelay services)
    {st : NodeState} (hrecorded : e.Recorded n.id st f) (hvars : f.vars = e.vars) {waiting' : List String}
    (hwaiting : ∀ x ∉ waiting', x = n.id ∨ x ∉ waiting)
    (hst : n.id ∉ waiting' → st.status ≠ .waiting ∧ st.output.growing = []) : f.On services w c waiting' := by
  refine ⟨hvars.trans h.vars_eq, fun x hx => ?_, fun x hx st' hst' => ?_⟩
  · rw [hrecorded.state?_eq, if_neg (hx n hn hdelay).symm]
    exact h.state?_eq x hx
  · rw [hrecorded.state?_eq] at hst'
    split at hst'
    · next heq =>
      subst heq
      obtain rfl := Option.some.inj hst'
      exact hst hx
    · next hne => exact h.through x ((hwaiting x hx).resolve_left hne) st' hst'

/-- Another node that does not fail takes the course on. -/
theorem On.data (h : e.On services w c []) {kind : NodeKind} (hkind : NodeKind.ofNode? services n = some kind)
    (hdata : kind.isData = true) (hdone : (n.effect kind c.vars).1.isFailed = false)
    (hrecorded : e.Recorded n.id
      ⟨(n.effect kind c.vars).1.status, (n.effect kind c.vars).1.output.orEmpty⟩ f)
    (hvars : f.vars = (n.effect kind c.vars).2) :
    ∃ c', c.step services n = some c' ∧ f.On services w c' [] := by
  have hplain := (Node.effect_plain (n := n) hdata c.vars).1
  refine ⟨_, by rw [ChainCourse.step_data hkind hdata, hdone]; rfl, hvars, fun x hx => ?_, fun x hx st hst => ?_⟩
  · rw [hrecorded.state?_eq]
    dsimp only
    split
    · next heq =>
      subst heq
      exact (Table.get?_put_self ..).symm
    · next hne =>
      rw [h.state?_eq x hx, Table.get?_put, if_neg hne]
  · rw [hrecorded.state?_eq] at hst
    split at hst
    · obtain rfl := Option.some.inj hst
      refine ⟨fun hwaits => ?_, NodeResult.growing_orEmpty hplain.2⟩
      have hnot := hplain.1
      rw [NodeResult.isWaiting, show (n.effect kind c.vars).1.status = .waiting from hwaits] at hnot
      cases hnot
    · exact h.through x hx st hst

end Execution

namespace Walk
open Execution

variable {services : Services} {w : Workflow} {dispatch : Node → Run NodeResult} {limits : Limits} {begun : Float}
  {n : Node} {row rest : List Node} {s : Session}

/-! ## Steps of a walk -/

theorem go_nil (left : Nat) (walk : Walk) : go dispatch w limits begun left walk [] = pure walk := by
  cases left <;> rfl

theorem leads_follow (hleads : w.LeadsOn n rest.head?) (hnodes : ∀ m ∈ rest, w.node? m.id = some m)
    {r : NodeResult} (hnext : r.next = .null) {ok : List Node → Session → Prop} {fails : Fault → Session → Prop}
    (h : ok (if r.isWaiting then [] else rest.head?.toList) s) : Leads (follow w n r []) s ok fails := by
  unfold follow
  split
  · next hwaits =>
    rw [if_pos hwaits] at h
    exact leads_pure h
  · next hdone =>
    rw [if_neg hdone] at h
    have hjump : jump w n r = pure [] := by
      rw [jump, hnext]
      rfl
    have htargets : Leads (targets w (w.leaving n.id)) s (fun ms t => ms = rest.head?.toList ∧ t = s) fails := by
      cases rest with
      | nil =>
        rw [show w.leaving n.id = [] from hleads]
        exact leads_pure ⟨rfl, rfl⟩
      | cons m rest =>
        obtain ⟨c, hleaving, hnull, htarget⟩ := hleads
        rw [hleaving]
        refine leads_bind ?_
        rw [passes, if_pos hnull]
        refine leads_pure ?_
        refine leads_bind (leads_pure ⟨?_, rfl⟩)
        rw [if_pos rfl, htarget, hnodes m (List.mem_cons_self ..)]
        rfl
    refine Leads.bind htargets ?_
    rintro ms t ⟨rfl, rfl⟩
    rw [hjump]
    exact leads_bind (leads_pure (leads_pure h))

/-- Where running a node turns an execution into one with some variables, visiting it records its state then. -/
theorem leads_visit {vars : List (Scalar × Value)} {Q : NodeResult → Prop}
    (hopen : s.execution.isCompleted n.id = false)
    (hrun : Leads (dispatch n) { s with execution := s.execution.visit n.id }
      (fun r t => (s.execution.visit n.id).Turned vars t.execution ∧ Q r) fun _ _ => False) :
    Leads (visit dispatch n) s
      (fun r t => Q r ∧ r.isFailed = false ∧ t.execution.vars = vars ∧
        s.execution.Recorded n.id ⟨r.status, r.output.orEmpty⟩ t.execution)
      fun fault _ => ∃ r, Q r ∧ r.isFailed = true ∧ fault = .nodeFailed n.id (failureReason r) := by
  refine leads_bind (leads_modify (leads_bind (hrun.mono ?_ fun _ _ hfalse => hfalse.elim)))
  rintro r t ⟨hturned, hr⟩
  obtain ⟨hvars, hrecorded⟩ := recorded_setState (e := s.execution.visit n.id) hopen hturned r.status r.output
  refine leads_bind (leads_modify ?_)
  dsimp only
  split
  · next hfailed => exact leads_throw ⟨r, hr, hfailed, rfl⟩
  · next hdone =>
    refine leads_pure ⟨hr, Bool.eq_false_iff.2 hdone, hvars, ?_⟩
    exact ⟨hrecorded.id_eq, hrecorded.workflowId_eq, hrecorded.status_eq, hrecorded.state?_eq⟩

/-- A walk takes the next node of a chain, and goes on behind it unless that node waits. -/
theorem leads_go_cons {walk : Walk} {left : Nat} (vars : List (Scalar × Value)) (Q : NodeResult → Prop)
    (hleads : w.LeadsOn n rest.head?) (hnodes : ∀ m ∈ rest, w.node? m.id = some m)
    (hnew : n.id ∉ walk.visited) (hgoing : s.execution.status ≠ .cancelled)
    (hopen : s.execution.isCompleted n.id = false)
    (hnext : ∀ r, Q r → r.next = .null)
    (hrun : ∀ u : Session, u.execution = s.execution.visit n.id → u.now = s.now →
      Leads (dispatch n) u (fun r t => u.execution.Turned vars t.execution ∧ Q r) fun _ _ => False)
    {ok : Walk → Session → Prop} {fails : Fault → Session → Prop}
    (hok : ∀ r t, Q r → r.isFailed = false → t.execution.vars = vars →
      s.execution.Recorded n.id ⟨r.status, r.output.orEmpty⟩ t.execution →
      Leads (go dispatch w limits begun left (walk.record n r)
        (if r.isWaiting then [] else rest.head?.toList)) t ok fails)
    (hfailed : ∀ r t, Q r → r.isFailed = true → fails (.nodeFailed n.id (failureReason r)) t)
    (hlate : ∀ t, fails (.timedOut (Double.text limits.timeout)) t) :
    Leads (go dispatch w limits begun (left + 1) walk [n]) s ok fails := by
  have hskip : walk.skips n = false := by
    rw [skips, Bool.eq_false_iff.2 fun h => hnew (List.contains_iff_mem.1 h)]
    rfl
  rw [go, hskip]
  refine leads_bind (leads_execution ?_)
  rw [if_neg fun h => hgoing (beq_iff_eq.1 h)]
  have hcheck : Leads (checkTime limits begun) s (fun _ t => t.execution = s.execution ∧ t.now = s.now) fails := by
    refine leads_bind (leads_bind (leads_get (leads_bind (leads_set (leads_pure ?_)))))
    dsimp only
    split
    · exact leads_throw (hlate _)
    · exact leads_pure ⟨rfl, rfl⟩
  refine Leads.bind hcheck ?_
  rintro _ t ⟨hexecution, hnow⟩
  have hopen' : t.execution.isCompleted n.id = false := by
    rw [hexecution]
    exact hopen
  have hrun' := hrun { t with execution := t.execution.visit n.id } (by rw [hexecution]) hnow
  have hvisit := leads_visit hopen' hrun'
  refine leads_bind (hvisit.mono ?_ ?_)
  · rintro r u ⟨hr, hdone, hvars, hrecorded⟩
    rw [hexecution] at hrecorded
    exact leads_bind (leads_follow hleads hnodes (hnext r hr) (hok r u hr hdone hvars hrecorded))
  · rintro _ u ⟨r, hr, hfails, rfl⟩
    exact hfailed r u hr hfails

/-! ## Limits -/

/-- A walk reads its limits first. -/
theorem leads_run {dispatch : Node → Run NodeResult} {iterations : Int} {starts : List Node} {s : Session}
    {ok : Walk → Session → Prop} {fails : Fault → Session → Prop}
    (hgo : ∀ timeout begun, (w.setting "timeout_seconds").asFloat = .ok timeout →
      ∀ t : Session, t.execution = s.execution → t.now = s.now →
        Leads (go dispatch w ⟨iterations, timeout⟩ begun iterations.toNat start starts) t ok fails)
    (hfault : ∀ fault, (w.setting "timeout_seconds").asFloat = .error fault → fails fault s) :
    Leads (run dispatch w iterations starts) s ok fails := by
  unfold run
  cases htimeout : (w.setting "timeout_seconds").asFloat with
  | error fault => exact leads_bind (leads_throw (hfault fault htimeout))
  | ok timeout =>
    refine leads_bind (leads_pure (leads_bind ?_))
    refine leads_bind (leads_get (leads_bind (leads_set (leads_pure ?_))))
    exact hgo timeout _ htimeout _ rfl rfl

end Walk

/-! ## Ends of walks -/

namespace Execution

/-- Two executions that are the same one, at the same point of its life. -/
structure SameRun (e f : Execution) : Prop where
  id_eq : f.id = e.id
  workflowId_eq : f.workflowId = e.workflowId
  status_eq : f.status = e.status

theorem SameRun.trans {e f g : Execution} (h₁ : SameRun e f) (h₂ : SameRun f g) : SameRun e g :=
  ⟨h₂.id_eq.trans h₁.id_eq, h₂.workflowId_eq.trans h₁.workflowId_eq, h₂.status_eq.trans h₁.status_eq⟩

theorem Recorded.sameRun {e f : Execution} {x : String} {st : NodeState} (h : e.Recorded x st f) : SameRun e f :=
  ⟨h.id_eq, h.workflowId_eq, h.status_eq⟩

/-- An execution has come to a delay of a chain, which waits until a time. The nodes behind it are new. -/
structure WaitsAt (services : Services) (w : Workflow) (c : ChainCourse) (d : Node) (rest : List Node) (T : Float)
    (e : Execution) : Prop where
  isDelay : d.isDelay services
  on : e.On services w c [d.id]
  awaits : ∃ seconds st, d.delayIn (.map c.vars) = .ok seconds ∧ 0 < seconds ∧ e.state? d.id = some st ∧
    st.Awaits (Node.deadlineEntries .delay seconds (.float T))
  ahead : ∀ n ∈ rest, e.state? n.id = none

theorem WaitsAt.of_eq {services : Services} {w : Workflow} {c : ChainCourse} {d : Node} {rest : List Node} {T : Float}
    {e f : Execution} (h : e.WaitsAt services w c d rest T) (hvars : f.vars = e.vars)
    (hstate : ∀ x, f.state? x = e.state? x) : f.WaitsAt services w c d rest T := by
  obtain ⟨seconds, st, hd, hpos, hst, hawaits⟩ := h.awaits
  exact ⟨h.isDelay, h.on.of_eq hvars hstate, ⟨seconds, st, hd, hpos, (hstate d.id).trans hst, hawaits⟩,
    fun n hn => (hstate n.id).trans (h.ahead n hn)⟩

end Execution

namespace ChainCourse
open Execution

/-- A walk along a chain has come to its end, or to a delay that waits. -/
inductive Stops (services : Services) (w : Workflow) (c : ChainCourse) (row : List Node) (walk : Walk)
    (f : Execution) : Prop
  | done (c' : ChainCourse) (halong : c.along services row = some c') (hidle : walk.suspended = [])
    (hon : f.On services w c' [])
  | waits (before : List Node) (d : Node) (rest : List Node) (hrow : row = before ++ d :: rest) (c' : ChainCourse)
    (halong : c.along services before = some c') (hsuspended : walk.suspended.keys = [d.id]) (T : Float)
    (hwaits : f.WaitsAt services w c' d rest T)

/-- Why a walk along a chain fails: it is timed out, a delay is not measured, or a node fails. -/
inductive Breaks (services : Services) (c : ChainCourse) (row : List Node) : Fault → Prop
  | late (text : String) : Breaks services c row (.timedOut text)
  | unmeasured (fault : Fault) (hmeasured : ¬ c.Measured services row) : Breaks services c row fault
  | failed (fault : Fault) (halong : c.along services row = none) : Breaks services c row fault

variable {services : Services} {w : Workflow} {c c' : ChainCourse} {n : Node} {row : List Node}

theorem Stops.cons {walk : Walk} {f : Execution} (h : c'.Stops services w row walk f)
    (hstep : c.step services n = some c') : c.Stops services w (n :: row) walk f := by
  cases h with
  | done c'' halong hidle hon =>
    refine .done c'' ?_ hidle hon
    rw [along_cons, hstep]
    exact halong
  | waits before d rest hrow c'' halong hsuspended T hwaits =>
    refine .waits (n :: before) d rest (by rw [hrow]; rfl) c'' ?_ hsuspended T hwaits
    rw [along_cons, hstep]
    exact halong

theorem Breaks.cons {fault : Fault} (h : c'.Breaks services row fault) (hstep : c.step services n = some c') :
    c.Breaks services (n :: row) fault := by
  cases h with
  | late text => exact .late text
  | unmeasured fault hmeasured => exact .unmeasured fault fun h => hmeasured (h.tail hstep)
  | failed fault halong =>
    refine .failed fault ?_
    rw [along_cons, hstep]
    exact halong

end ChainCourse

namespace Walk
open Execution ChainCourse

-- Which nodes a chain has depends on the services only as far as these say which kinds they are of.
variable {services services' : Services} {w : Workflow}
  (hkinds : NodeKind.ofNode? services' = NodeKind.ofNode? services)
include hkinds

section Nodes
variable (limits : Limits) (begun : Float) (depth : Nat) {left : Nat} {walk : Walk} {n : Node} {rest : List Node}
  {c : ChainCourse} {s : Session} {ok : Walk → Session → Prop} {fails : Fault → Session → Prop}

/-- A walk comes to a node of a chain that is no delay, and goes on behind it. -/
theorem leads_go_data {kind : NodeKind} (hkind : NodeKind.ofNode? services n = some kind)
    (hdata : kind.isData = true) (htimeless : n.Timeless kind) (hrow : w.Chained services (n :: rest))
    (hnew : n.id ∉ walk.visited) (hgoing : s.execution.status ≠ .cancelled)
    (hon : s.execution.On services w c []) (hnone : s.execution.state? n.id = none)
    (hok : ∀ c' r t, c.step services n = some c' → r.isWaiting = false →
      s.execution.Recorded n.id ⟨r.status, r.output.orEmpty⟩ t.execution → t.execution.On services w c' [] →
      Leads (go (Node.dispatch services' w (depth + 1)) w limits begun left (walk.record n r) rest.head?.toList) t
        ok fails)
    (hfails : ∀ fault t, c.Breaks services (n :: rest) fault → fails fault t) :
    Leads (go (Node.dispatch services' w (depth + 1)) w limits begun (left + 1) walk [n]) s ok fails := by
  have hdone : (n.effect kind c.vars).1.isWaiting = false := (Node.effect_plain hdata c.vars).1.1
  refine leads_go_cons (n.effect kind c.vars).2 (fun r => r = (n.effect kind c.vars).1) hrow.linked.1
    hrow.tail.known hnew hgoing (isCompleted_of_new hnone) ?_ ?_ ?_ ?_ fun t => hfails _ t (.late _)
  · rintro r rfl
    exact (Node.effect_plain hdata c.vars).2
  · intro u hu _
    have hvars : u.execution.vars = c.vars := by
      rw [hu]
      exact hon.vars_eq
    rw [← hvars]
    exact Node.dispatch_effect (hkinds ▸ hkind) hdata htimeless w depth u
  · rintro r t rfl hpassed hvars hrecorded
    obtain ⟨c', hstep, hon'⟩ := hon.data hkind hdata hpassed hrecorded hvars
    rw [if_neg (by rw [hdone]; exact Bool.false_ne_true)]
    exact hok c' _ t hstep hdone hrecorded hon'
  · rintro r t rfl hfailed
    refine hfails _ t (.failed _ ?_)
    rw [along_cons, step_data hkind hdata, if_pos hfailed]
    rfl

/-- A walk comes to a delay of a chain. It goes on behind it if that does not wait. -/
theorem leads_go_delay (hdelay : n.isDelay services) (hrow : w.Chained services (n :: rest))
    (hnew : n.id ∉ walk.visited) (hgoing : s.execution.status ≠ .cancelled)
    (hon : s.execution.On services w c []) (hnone : s.execution.state? n.id = none)
    (hahead : ∀ m ∈ rest, s.execution.state? m.id = none)
    (hok : ∀ r t, r.isWaiting = false → s.execution.Recorded n.id ⟨r.status, r.output.orEmpty⟩ t.execution →
      t.execution.On services w c [] →
      Leads (go (Node.dispatch services' w (depth + 1)) w limits begun left (walk.record n r) rest.head?.toList) t
        ok fails)
    (hstop : ∀ r t T, r.isWaiting = true → s.execution.SameRun t.execution →
      t.execution.WaitsAt services w c n rest T → ok (walk.record n r) t)
    (hfails : ∀ fault t, c.Breaks services (n :: rest) fault → fails fault t) :
    Leads (go (Node.dispatch services' w (depth + 1)) w limits begun (left + 1) walk [n]) s ok fails := by
  have hmem : n ∈ w.nodes := List.mem_of_find?_eq_some (hrow.known n (List.mem_cons_self ..))
  refine leads_go_cons c.vars (n.Begins (.map c.vars)) hrow.linked.1 hrow.tail.known hnew hgoing
    (isCompleted_of_new hnone) (fun r hr => hr.next) ?_ ?_ ?_ fun t => hfails _ t (.late _)
  · intro u hu _
    have hvars : u.execution.vars = c.vars := by
      rw [hu]
      exact hon.vars_eq
    rw [← hvars]
    refine Node.dispatch_delay w depth (hkinds ▸ hdelay) ?_
    rw [hu]
    exact hnone
  · intro r t hr hpassed hvars hrecorded
    have hvars' : t.execution.vars = s.execution.vars := hvars.trans hon.vars_eq.symm
    cases hr with
    | failed hfailed _ _ => cases hfailed.symm.trans hpassed
    | through hr =>
      subst hr
      have hthrough := NodeResult.plain_okObject [("delayed_seconds", .int 0)]
      refine hok _ t rfl hrecorded (hon.delay hmem hdelay hrecorded hvars' (fun x hx => .inr hx) fun _ => ?_)
      exact ⟨nofun, NodeResult.growing_orEmpty hthrough.2⟩
    | waits d T hd hpos hsuspends _ =>
      obtain ⟨hwaits, hshows⟩ := hsuspends
      rw [if_pos hwaits, go_nil]
      have hst : r.output.orEmpty = r.output := (hshows.orEmpty (by simp [Node.deadlineEntries])).1
      rw [hst] at hrecorded
      refine leads_pure (hstop r t T hwaits hrecorded.sameRun ⟨hdelay, ?_, ?_, ?_⟩)
      · refine hon.delay hmem hdelay hrecorded hvars' (fun x _ => .inr List.not_mem_nil) fun hnot => ?_
        exact absurd (List.mem_singleton.2 rfl) hnot
      · refine ⟨d, ⟨r.status, r.output⟩, hd, hpos, ?_, eq_of_beq hwaits, hshows⟩
        rw [hrecorded.state?_eq, if_pos rfl]
      · intro m hm
        rw [hrecorded.state?_eq, if_neg (hrow.ne_head hm)]
        exact hahead m hm
  · intro r t hr hfailed
    cases hr with
    | failed _ _ hmeasured => exact hfails _ t (.unmeasured _ fun h => hmeasured (h [] n rest c rfl hdelay rfl))
    | through hr => cases hr ▸ hfailed
    | waits d T _ _ hsuspends _ =>
      rw [NodeResult.isFailed, eq_of_beq hsuspends.1] at hfailed
      cases hfailed

end Nodes

/-- A walk along a chain of new nodes comes to its end, or to a delay that waits. -/
theorem leads_go_chain (limits : Limits) (begun : Float) (depth : Nat) {left : Nat} {row : List Node}
    (hrow : w.Chained services row) (hleft : row.length ≤ left) (walk : Walk)
    (hnew : ∀ n ∈ row, n.id ∉ walk.visited) (hidle : walk.suspended = []) {c : ChainCourse} {s : Session}
    (hgoing : s.execution.status ≠ .cancelled) (hon : s.execution.On services w c [])
    (hahead : ∀ n ∈ row, s.execution.state? n.id = none) :
    Leads (go (Node.dispatch services' w (depth + 1)) w limits begun left walk row.head?.toList) s
      (fun walk t => s.execution.SameRun t.execution ∧ c.Stops services w row walk t.execution)
      fun fault _ => c.Breaks services row fault := by
  induction row generalizing left walk c s with
  | nil =>
    rw [List.head?_nil, Option.toList_none, go_nil]
    exact leads_pure ⟨⟨rfl, rfl, rfl⟩, .done c rfl hidle hon⟩
  | cons n rest ih =>
    obtain ⟨left, rfl⟩ := Nat.exists_eq_add_of_le' (Nat.le_trans (Nat.le_add_left 1 _) hleft)
    have hnone := hahead n (List.mem_cons_self ..)
    have hlater (m : Node) (hm : m ∈ rest) := hahead m (List.mem_cons_of_mem n hm)
    -- Behind a node that does not wait, the walk goes on along the rest of the chain.
    have go_on (c' : ChainCourse) (r : NodeResult) (t : Session) (hstep : c.step services n = some c')
        (hdone : r.isWaiting = false)
        (hrecorded : s.execution.Recorded n.id ⟨r.status, r.output.orEmpty⟩ t.execution)
        (hon' : t.execution.On services w c' []) :
        Leads (go (Node.dispatch services' w (depth + 1)) w limits begun left (walk.record n r)
          rest.head?.toList) t
          (fun walk t => s.execution.SameRun t.execution ∧ c.Stops services w (n :: rest) walk t.execution)
          fun fault _ => c.Breaks services (n :: rest) fault := by
      have hfresh (m : Node) (hm : m ∈ rest) : m.id ∉ (walk.record n r).visited := by
        intro hmem
        obtain heq | hmem := List.mem_cons.1 hmem
        · exact hrow.ne_head hm heq
        · exact hnew m (List.mem_cons_of_mem n hm) hmem
      have hidle' : (walk.record n r).suspended = [] := by
        rw [Walk.record, hdone, hidle]
        rfl
      have hlater' (m : Node) (hm : m ∈ rest) : t.execution.state? m.id = none := by
        rw [hrecorded.state?_eq, if_neg (hrow.ne_head hm)]
        exact hlater m hm
      have hgo := ih hrow.tail (Nat.le_of_succ_le_succ hleft) _ hfresh hidle'
        (by rw [hrecorded.status_eq]; exact hgoing) hon' hlater'
      refine hgo.mono ?_ fun fault _ hbreaks => hbreaks.cons hstep
      rintro walk' u ⟨hsame, hstops⟩
      exact ⟨hrecorded.sameRun.trans hsame, hstops.cons hstep⟩
    have hnew' := hnew n (List.mem_cons_self ..)
    cases hrow.simple n (List.mem_cons_self ..) with
    | data kind hkind hdata htimeless =>
      exact leads_go_data hkinds limits begun depth hkind hdata htimeless hrow hnew' hgoing hon hnone go_on
        fun _ _ h => h
    | delay hdelay =>
      refine leads_go_delay hkinds limits begun depth hdelay hrow hnew' hgoing hon hnone hlater
        (fun r t => go_on c r t (step_delay hdelay)) ?_ fun _ _ h => h
      intro r t T hwaits hsame hwaitsAt
      refine ⟨hsame, .waits [] n rest rfl c rfl ?_ T hwaitsAt⟩
      rw [Walk.record, if_pos hwaits, hidle]
      rfl

/-! ## Walks -/

/-- A walk from the head of a chain, none of whose nodes was reached before. -/
theorem leads_run_chain (depth : Nat) {row : List Node} (hrow : w.Chained services row) {iterations : Int}
    (hlength : (row.length : Int) ≤ iterations) {c : ChainCourse} {s : Session}
    (hgoing : s.execution.status ≠ .cancelled) (hon : s.execution.On services w c [])
    (hahead : ∀ n ∈ row, s.execution.state? n.id = none) :
    Leads (run (Node.dispatch services' w (depth + 1)) w iterations row.head?.toList) s
      (fun walk t => (∃ timeout, (w.setting "timeout_seconds").asFloat = .ok timeout) ∧
        s.execution.SameRun t.execution ∧ c.Stops services w row walk t.execution)
      fun fault _ => (w.setting "timeout_seconds").asFloat = .error fault ∨ c.Breaks services row fault := by
  refine leads_run (fun timeout begun htimeout t ht _ => ?_) fun fault hfault => .inl hfault
  rw [← ht] at hgoing hon hahead ⊢
  have hleft : row.length ≤ iterations.toNat := by omega
  have hgo := leads_go_chain hkinds ⟨iterations, timeout⟩ begun depth hrow hleft start (fun n _ => List.not_mem_nil) rfl
    hgoing hon hahead
  exact hgo.mono (fun walk u h => ⟨⟨timeout, htimeout⟩, h⟩) fun fault u h => .inr h

/-- A walk from a delay of a chain whose time has come. -/
theorem leads_run_waiting (depth : Nat) {d : Node} {rest : List Node} (hrow : w.Chained services (d :: rest))
    {iterations : Int} (hlength : ((d :: rest).length : Int) ≤ iterations) {timeout : Float}
    (htimeout : (w.setting "timeout_seconds").asFloat = .ok timeout) {c : ChainCourse} {s : Session}
    (hgoing : s.execution.status ≠ .cancelled) {T : Float} (hwaits : s.execution.WaitsAt services w c d rest T)
    (hcome : T ≤ s.now.timestamp) :
    Leads (run (Node.dispatch services' w (depth + 1)) w iterations [d]) s
      (fun walk t => s.execution.SameRun t.execution ∧ c.Stops services w rest walk t.execution)
      fun fault _ => c.Breaks services rest fault := by
  refine leads_run (fun limit begun _ t ht hnow => ?_) fun fault hfault => nomatch htimeout.symm.trans hfault
  rw [← ht] at hgoing hwaits ⊢
  rw [← hnow] at hcome
  obtain ⟨left, hleft⟩ : ∃ left, iterations.toNat = left + 1 :=
    ⟨iterations.toNat - 1, by rw [List.length_cons] at hlength; omega⟩
  rw [hleft]
  obtain ⟨hdelay, hon, ⟨seconds, st, hd, hpos, hst, hawaits⟩, hahead⟩ := hwaits
  have hmem : d ∈ w.nodes := List.mem_of_find?_eq_some (hrow.known d (List.mem_cons_self ..))
  refine leads_go_cons c.vars (fun r => d.Expires seconds r .delay) hrow.linked.1 hrow.tail.known
    List.not_mem_nil hgoing ?_ ?_ ?_ ?_ ?_ fun _ => .late _
  · rw [isCompleted_of_state? hst, hawaits.status]
    rfl
  · rintro r rfl
    rfl
  · intro u hu hunow
    have hvars : u.execution.vars = c.vars := by
      rw [hu]
      exact hon.vars_eq
    have hst' : u.execution.state? d.id = some st := by
      rw [hu]
      exact hst
    have hcome' : Node.hasCome u.now.timestamp (.float T) = .ok true := by
      rw [hunow]
      exact Node.hasCome_of_le hcome
    rw [← hvars]
    exact Node.dispatch_again w depth (.delay (hkinds ▸ hdelay) hd) hst' hawaits rfl hcome' nofun
  · rintro r u rfl _ hvars hrecorded
    have hthrough := NodeResult.plain_okObject [("delayed_seconds", .int seconds)]
    have hon' : u.execution.On services w c [] := by
      refine hon.delay hmem hdelay hrecorded (hvars.trans hon.vars_eq.symm) (fun x _ => ?_) ?_
      · rw [List.mem_singleton]
        exact Classical.em _
      · exact fun _ => ⟨nofun, NodeResult.growing_orEmpty hthrough.2⟩
    have hahead' (m : Node) (hm : m ∈ rest) : u.execution.state? m.id = none := by
      rw [hrecorded.state?_eq, if_neg (hrow.ne_head hm)]
      exact hahead m hm
    have hleft' : rest.length ≤ left := by
      rw [List.length_cons] at hlength
      omega
    have hgo := leads_go_chain hkinds ⟨iterations, limit⟩ begun depth hrow.tail hleft'
      (start.record d (.okObject [("delayed_seconds", .int seconds)]))
      (fun m hm hvisited => hrow.ne_head hm (List.mem_singleton.1 hvisited)) rfl
      (by rw [hrecorded.status_eq]; exact hgoing) hon' hahead'
    exact hgo.mono (fun walk v h => ⟨hrecorded.sameRun.trans h.1, h.2⟩) fun _ _ h => h
  · rintro r u rfl hfailed
    cases hfailed

end Walk

end Flowline
