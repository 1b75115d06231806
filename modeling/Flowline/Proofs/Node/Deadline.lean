import Flowline.Proofs.Node.Frame
import Flowline.Proofs.Number.Order

/-! # Nodes that wait for a time

A delay waits for its seconds to pass, another node for a signal, as long as it is patient. The time at which
that ends is fixed when the node is first run, shows in its output, and is read from there whenever the node
is run again: before that time the node goes on waiting for it, and from then on it has expired. -/

namespace Flowline

/-- A mapping has some entries. -/
def Output.Shows (o : Output) (entries : List (String × Value)) : Prop :=
  ∀ p ∈ entries, o.value.field? p.1 = some p.2

theorem Output.Shows.orEmpty {o : Output} {entries : List (String × Value)} (h : o.Shows entries)
    (hsome : entries ≠ []) : o.orEmpty = o ∧ ∃ fields, o.value = .map fields := by
  obtain ⟨p, hp⟩ := List.exists_mem_of_ne_nil entries hsome
  have hfield := h p hp
  unfold Value.field? at hfield
  split at hfield
  · next fields hvalue =>
    refine ⟨?_, fields, hvalue⟩
    have hne : fields ≠ [] := by
      rintro rfl
      cases hfield
    rw [Output.orEmpty, hvalue, if_pos]
    cases fields with
    | nil => exact absurd rfl hne
    | cons q rest => rfl
  · cases hfield

/-- A node waits, and its output has some entries. -/
structure NodeState.Awaits (s : NodeState) (entries : List (String × Value)) : Prop where
  status : s.status = .waiting
  shows : s.output.Shows entries

theorem Run.leads_read {α β : Type} {r : Except Fault α} {a : α} (hr : r = .ok a) {f : α → Run β} {s : Session}
    {ok : β → Session → Prop} {fails : Fault → Session → Prop} (h : Leads (f a) s ok fails) :
    Leads (Run.of r >>= f) s ok fails := by
  subst hr
  exact leads_bind (leads_pure h)

namespace Node
open NodeResult

/-! ## Durations -/

/-- For how many seconds a delay waits that is reached with some variables. -/
def delayIn (n : Node) (scope : Value) : Except Fault Int := do
  let unit ← n.config.entryOr "type" (.str "seconds")
  let value ← Template.resolve (← n.config.entryOr "value" (.int 0)) scope
  let count ← (value.orElse (.int 0)).toWhole
  return count * (Entries.get? delayUnits (← unit.toKey)).getD 1

/-- It is said for how long a delay waits that is reached with some variables, and the clock can tell when that
will have passed. -/
def Measured (n : Node) (scope : Value) : Prop :=
  ∃ d seconds, n.delayIn scope = .ok d ∧ Double.ofInt? d = some seconds

/-- For how many seconds a node waits for a signal. -/
def patience (services : Services) (n : Node) : Except Fault Int := do
  (← n.config.entryOr "timeout" (.int services.waitTimeout)).toWhole

/-- What a node waits for: that its seconds pass, or that a signal comes before they have passed. -/
inductive Lasts (services : Services) (n : Node) (scope : Value) (d : Int) : NodeKind → Prop
  | delay (hkind : NodeKind.ofNode? services n = some .delay) (hd : n.delayIn scope = .ok d) :
    Lasts services n scope d .delay
  | wait (hkind : NodeKind.ofNode? services n = some .wait) (hd : n.patience services = .ok d) :
    Lasts services n scope d .wait

/-- What shows in the output of a node that waits until a time. -/
def deadlineEntries (kind : NodeKind) (d : Int) (time : Value) : List (String × Value) :=
  if kind = .delay then [("resume_at", time), ("delay_seconds", .int d)]
  else [("resume_at", time), ("timeout_at", time)]

/-- The result of a node whose time has come: a delay is completed, and another node has timed out, which
is its failure unless it is to go on. -/
def Expires (n : Node) (d : Int) (r : NodeResult) : NodeKind → Prop
  | .delay => r = .okObject [("delayed_seconds", .int d)]
  | _ => ∃ type choice, n.config.entryOr "type" (.str "webhook") = .ok type ∧
    n.config.entryOr "on_timeout" (.str "fail") = .ok choice ∧
    r = if choice.same (.str "continue") then .okObject [("timed_out", .bool true)]
      else .failure s!"Wait for {type.text} event timed out after {d} seconds"

/-- A result that waits until a time. -/
def Suspends (d : Int) (time : Value) (r : NodeResult) (kind : NodeKind) : Prop :=
  r.isWaiting = true ∧ r.output.Shows (deadlineEntries kind d time)

variable {services : Services} {n : Node} {d : Int} {time : Value} {s : Session} {kind : NodeKind}

theorem run_delaySeconds (n : Node) (s : Session) :
    n.delaySeconds.run.run s = (n.delayIn s.execution.scope, s) := by
  have read {α β : Type} (r : Except Fault α) {f : α → Run β} {f' : α → Except Fault β}
      (h : ∀ a, (f a).run.run s = (f' a, s)) : (Run.of r >>= f).run.run s = (r >>= f', s) := by
    rw [run_bind]
    cases r with
    | error fault => rfl
    | ok a => exact h a
  refine read _ fun unit => read _ fun v => ?_
  have hresolve : (Run.resolve v).run.run s = (Template.resolve v s.execution.scope, s) := rfl
  rw [run_bind, hresolve]
  cases Template.resolve v s.execution.scope with
  | error fault => rfl
  | ok value => exact read _ fun count => read _ fun key => rfl

/-! ## Times -/

theorem hasCome_float (now T : Float) : hasCome now (.float T) =
    match Double.compare? now T with
    | some .lt => .ok false
    | some _ => .ok true
    | none => .ok false := rfl

theorem hasCome_of_lt {now T : Float} (h : now < T) : hasCome now (.float T) = .ok false := by
  rw [hasCome_float, Double.compare?, if_pos h]

theorem hasCome_of_le {now T : Float} (h : T ≤ now) : hasCome now (.float T) = .ok true := by
  obtain ⟨order, horder, hne⟩ := Double.compare?_of_le h
  rw [hasCome_float, horder]
  cases order with
  | lt => exact absurd rfl hne
  | _ => rfl

/-! ## Results -/

theorem suspends_delay {reason : Value} (hnull : time.isNull = false) :
    Suspends d time (.waitingWith reason time [(.str "delay_seconds", .fixed (.int d))]) .delay := by
  refine ⟨rfl, ?_⟩
  simp [Output.Shows, deadlineEntries, waitingWith, hnull, Output.ofEntries, Output.fixed, Value.field?,
    Entries.get?, Scalar.same]

theorem suspends_awaiting (waitType : Value) (hnull : time.isNull = false) :
    Suspends d time (awaiting waitType time) .wait := by
  refine ⟨rfl, ?_⟩
  simp [Output.Shows, deadlineEntries, awaiting, waiting, waitingWith, hnull, Output.ofEntries,
    Output.fixed, Value.field?, Entries.get?, Scalar.same]

/-- A configuration of which one entry can be read is a mapping. -/
theorem exists_entryOr {config v : Value} {key : String} {standard : Value}
    (h : config.entryOr key standard = .ok v) (other : String) (standard' : Value) :
    ∃ v', config.entryOr other standard' = .ok v' := by
  unfold Value.entryOr at h ⊢
  split at h
  · exact ⟨_, rfl⟩
  · cases h

theorem leads_timeoutResult {waitType : Value} (htype : n.config.entryOr "type" (.str "webhook") = .ok waitType)
    {fails : Fault → Session → Prop} :
    Leads (n.timeoutResult waitType d) s (fun r t => t = s ∧ n.Expires d r .wait) fails := by
  obtain ⟨choice, hchoice⟩ := exists_entryOr htype "on_timeout" (.str "fail")
  refine Run.leads_read hchoice ?_
  split
  · next hsame => exact leads_pure ⟨rfl, waitType, choice, htype, hchoice, by rw [if_pos hsame]⟩
  · next hsame => exact leads_pure ⟨rfl, waitType, choice, htype, hchoice, by rw [if_neg hsame]⟩

/-! ## What is read again -/

section Entry
variable {id key : String} {ok : Option (Value × Value) → Session → Prop} {fails : Fault → Session → Prop}

theorem leads_waitingEntry_new (hnew : s.execution.state? id = none) (h : ok none s) :
    Leads ( waitingEntry? id key) s ok fails := by
  refine leads_bind (leads_execution ?_)
  rw [hnew]
  exact leads_pure h

theorem leads_waitingEntry {st : NodeState} {entries : List (String × Value)}
    (hst : s.execution.state? id = some st) (hawaits : st.Awaits entries) (hmem : (key, time) ∈ entries)
    (hnull : time.isNull = false) (h : ok (some (st.output.value, time)) s) :
    Leads ( waitingEntry? id key) s ok fails := by
  have hfield := hawaits.shows _ hmem
  obtain ⟨status, output⟩ := st
  obtain rfl := hawaits.status
  obtain ⟨horEmpty, fields, hvalue⟩ := hawaits.shows.orEmpty (List.ne_nil_of_mem hmem)
  have hpresent : output.value.orElse (.map []) = output.value := by
    unfold Value.orElse
    split
    · rfl
    · next habsent =>
      rw [Output.orEmpty, if_neg habsent] at horEmpty
      exact congrArg Output.value horEmpty
  have hentry : output.value.entry key = .ok time := by
    rw [hvalue] at hfield ⊢
    rw [Value.entry, Value.entryOr, show Entries.get? fields (.str key) = some time from hfield]
    rfl
  refine leads_bind (leads_execution ?_)
  rw [hst]
  dsimp only
  rw [hpresent]
  refine Run.leads_read hentry ?_
  split
  · cases hnull
  · exact leads_pure h

end Entry

/-! ## Delays -/

/-- A delay that is new to the execution is completed at once where there is nothing to wait for. It fails only
where it is not said how long it is to wait, or where that is no time. -/
theorem runDelay_new (hnew : s.execution.state? n.id = none) :
    Leads n.runDelay s
      (fun r t => t.execution = s.execution ∧ ∃ d, n.delayIn s.execution.scope = .ok d ∧
        if d ≤ 0 then r = .okObject [("delayed_seconds", .int 0)]
        else ∃ time, later s.now.timestamp d = .ok time ∧
          r = .waiting s!"Waiting for {d} seconds" time [("delay_seconds", .int d)])
      fun _ t => t.execution = s.execution ∧ ∀ d, n.delayIn s.execution.scope = .ok d →
        0 < d ∧ ∀ time, later s.now.timestamp d ≠ .ok time := by
  refine leads_bind (leads_bind (leads_get (leads_pure ?_)))
  refine leads_bind (leads_waitingEntry_new hnew (leads_bind ?_))
  unfold Leads
  rw [run_delaySeconds]
  cases hd : n.delayIn s.execution.scope with
  | error fault => exact ⟨rfl, nofun⟩
  | ok d =>
    change Leads _ s _ _
    split
    · next hnow => exact leads_pure ⟨rfl, d, rfl, by rw [if_pos hnow]⟩
    · next hlater =>
      cases htime : later s.now.timestamp d with
      | error fault =>
        refine leads_throw ⟨rfl, ?_⟩
        rintro _ ⟨⟩
        exact ⟨by omega, fun time => by rw [htime]; nofun⟩
      | ok time => exact leads_pure ⟨rfl, d, rfl, by rw [if_neg hlater]; exact ⟨time, htime, rfl⟩⟩

theorem runDelay_first (hnew : s.execution.state? n.id = none) (hd : n.delayIn s.execution.scope = .ok d)
    (hpos : 0 < d) (htime : later s.now.timestamp d = .ok time) (hnull : time.isNull = false) :
    Leads n.runDelay s (fun r t => t.execution = s.execution ∧ Suspends d time r .delay)
      fun _ _ => False := by
  refine (runDelay_new hnew).mono ?_ fun _ _ h => (h.2 d hd).2 time htime
  rintro r t ⟨ht, d', hd', hr⟩
  obtain rfl := Except.ok.inj (hd.symm.trans hd')
  rw [if_neg (by omega)] at hr
  obtain ⟨time', htime', rfl⟩ := hr
  obtain rfl := Except.ok.inj (htime.symm.trans htime')
  exact ⟨ht, suspends_delay hnull⟩

theorem runDelay_again {st : NodeState} (hst : s.execution.state? n.id = some st)
    (hawaits : st.Awaits (deadlineEntries .delay d time)) (hnull : time.isNull = false) {come : Bool}
    (hcome : hasCome s.now.timestamp time = .ok come) :
    Leads n.runDelay s (fun r t => t.execution = s.execution ∧
      if come then n.Expires d r .delay else Suspends d time r .delay) fun _ _ => False := by
  have hread (key : String) (standard : Value) : ∃ v, st.output.value.entryOr key standard = .ok v ∧
      ∀ u, st.output.value.field? key = some u → v = u := by
    obtain ⟨-, fields, hvalue⟩ := hawaits.shows.orEmpty (by simp [deadlineEntries])
    refine ⟨(Entries.get? fields (.str key)).getD standard, by rw [hvalue, Value.entryOr], ?_⟩
    rintro u hu
    rw [hvalue] at hu
    rw [show Entries.get? fields (.str key) = some u from hu]
    rfl
  refine leads_bind (leads_bind (leads_get (leads_pure ?_)))
  refine leads_bind (leads_waitingEntry hst hawaits (by simp [deadlineEntries]) hnull ?_)
  obtain ⟨seconds, hseconds, heq⟩ := hread "delay_seconds" (.int 0)
  obtain rfl := heq (.int d) (hawaits.shows ("delay_seconds", _) (by simp [deadlineEntries]))
  refine Run.leads_read hseconds (Run.leads_read hcome ?_)
  cases come with
  | true => exact leads_pure ⟨rfl, rfl⟩
  | false =>
    obtain ⟨reason, hreason, -⟩ := hread "reason" (.str "")
    exact Run.leads_read hreason (leads_pure ⟨rfl, suspends_delay hnull⟩)

/-! ## Signals -/

/-- A node that finds no signal goes by its time. -/
theorem runWait_unsignalled (hd : n.patience services = .ok d)
    (hsilent : s.signals.get? (s.execution.id, n.id) = none) {Q : NodeResult → Prop}
    (h : ∀ waitType, n.config.entryOr "type" (.str "webhook") = .ok waitType →
      ∀ u : Session, u.execution = s.execution → u.now = s.now → Leads (do
        match ← waitingEntry? n.id "timeout_at" with
        | some (_, time) =>
          if ← Run.of (hasCome s.now.timestamp time) then n.timeoutResult waitType d
          else return awaiting waitType time
        | none => return awaiting waitType (← Run.of (later s.now.timestamp d))) u
        (fun r t => t = u ∧ Q r) fun _ _ => False) :
    Leads (runWait services n) s (fun r t => t.execution = s.execution ∧ Q r) fun _ _ => False := by
  obtain ⟨v, hv, hd⟩ := bind_eq_ok.1 hd
  obtain ⟨waitType, htype⟩ := exists_entryOr hv "type" (.str "webhook")
  refine Run.leads_read htype (Run.leads_read hv (Run.leads_read hd ?_))
  refine leads_bind (leads_bind (leads_get (leads_pure ?_)))
  refine leads_bind (leads_bind (leads_get (leads_bind (leads_set (leads_pure ?_)))))
  rw [hsilent]
  refine (h waitType htype { s with signals := s.signals.erase (s.execution.id, n.id) } rfl rfl).mono ?_
    fun _ _ hfalse => hfalse
  rintro r t ⟨rfl, hr⟩
  exact ⟨rfl, hr⟩

theorem runWait_first (hnew : s.execution.state? n.id = none) (hd : n.patience services = .ok d)
    (hsilent : s.signals.get? (s.execution.id, n.id) = none)
    (htime : later s.now.timestamp d = .ok time) (hnull : time.isNull = false) :
    Leads (runWait services n) s (fun r t => t.execution = s.execution ∧ Suspends d time r .wait)
      fun _ _ => False := by
  refine runWait_unsignalled hd hsilent fun waitType _ u hu _ => ?_
  rw [← hu] at hnew
  refine leads_bind (leads_waitingEntry_new hnew ?_)
  exact Run.leads_read htime (leads_pure ⟨rfl, suspends_awaiting waitType hnull⟩)

theorem runWait_again {st : NodeState} (hst : s.execution.state? n.id = some st)
    (hawaits : st.Awaits (deadlineEntries .wait d time)) (hd : n.patience services = .ok d)
    (hsilent : s.signals.get? (s.execution.id, n.id) = none) (hnull : time.isNull = false) {come : Bool}
    (hcome : hasCome s.now.timestamp time = .ok come) :
    Leads (runWait services n) s (fun r t => t.execution = s.execution ∧
      if come then n.Expires d r .wait else Suspends d time r .wait) fun _ _ => False := by
  refine runWait_unsignalled hd hsilent fun waitType htype u hu _ => ?_
  rw [← hu] at hst
  refine leads_bind (leads_waitingEntry hst hawaits (by simp [deadlineEntries]) hnull ?_)
  refine Run.leads_read hcome ?_
  cases come with
  | true => exact leads_timeoutResult htype
  | false => exact leads_pure ⟨rfl, suspends_awaiting waitType hnull⟩

/-! ## Dispatch -/

theorem Lasts.hkind {scope : Value} (h : n.Lasts services scope d kind) :
    NodeKind.ofNode? services n = some kind := by
  cases h with
  | delay hkind _ => exact hkind
  | wait hkind _ => exact hkind

theorem Suspends.asGrowing {r : NodeResult} (h : Suspends d time r kind) (number : Nat) :
    Suspends d time { r with output := r.output.asGrowing number } kind := h

theorem Expires.not_waiting {r : NodeResult} (h : n.Expires d r kind) : r.isWaiting = false := by
  unfold Expires at h
  split at h
  · rw [h]
    rfl
  · obtain ⟨type, choice, -, -, rfl⟩ := h
    split
    · rfl
    · rfl

/-- What a node leaves as it is apart from the log is left by running it. -/
theorem leads_dispatch_same {w : Workflow} {depth : Nat} {Q : NodeResult → Prop}
    (hkind : NodeKind.ofNode? services n = some kind)
    (hgrowing : ∀ r k, r.isWaiting = true → Q r → Q { r with output := r.output.asGrowing k })
    (h : ∀ u : Session, (∃ logs, u = { s with execution := { s.execution with logs := logs } }) →
      Leads (runKind services w (dispatch services w depth) n kind) u
        (fun r t => t.execution = u.execution ∧ Q r)
        fun fault t => t.execution = u.execution ∧ Q (.failure fault.message)) :
    Leads (dispatch services w (depth + 1) n) s
      (fun r t => s.execution.Turned s.execution.vars t.execution ∧ Q r) fun _ _ => False := by
  refine leads_dispatch_turned hkind hgrowing fun logs => ?_
  have hturned {t : Session} (ht : t.execution = { s.execution with logs := logs }) :
      s.execution.Turned s.execution.vars t.execution := ⟨logs, s.execution.nextNumber, s.execution.runs, ht⟩
  exact (h _ ⟨logs, rfl⟩).mono (fun r t hr => ⟨hturned hr.1, hr.2⟩) fun fault t hr => ⟨hturned hr.1, hr.2⟩

theorem later_eq {now seconds : Float} (hd : Double.ofInt? d = some seconds) :
    later now d = .ok (.float (now + seconds)) := by
  have hseconds : (Number.int d).toFloat = .ok seconds := by rw [Number.toFloat, hd]
  have hsum : (Number.float now).add (.int d) = .ok (.float (now + seconds)) := by
    change (do return Number.float ((← (Number.float now).toFloat) + (← (Number.int d).toFloat))) = _
    rw [hseconds]
    rfl
  rw [later, hsum]
  rfl

theorem later_eq_float {now : Float} (h : later now d = .ok time) : ∃ T, time = .float T := by
  obtain ⟨sum, hsum, htime⟩ := bind_eq_ok.1 h
  obtain ⟨x, -, hsum⟩ := bind_eq_ok.1 hsum
  obtain ⟨y, -, hsum⟩ := bind_eq_ok.1 hsum
  rw [← Except.ok.inj htime, ← Except.ok.inj hsum]
  exact ⟨x + y, rfl⟩

/-- What comes of a delay that is run with some variables for the first time. -/
inductive Begins (n : Node) (scope : Value) (r : NodeResult) : Prop
  | failed (hfailed : r.isFailed = true) (hnext : r.next = .null) (hmeasured : ¬ n.Measured scope)
  | through (hr : r = .okObject [("delayed_seconds", .int 0)])
  | waits (d : Int) (T : Float) (hd : n.delayIn scope = .ok d) (hpos : 0 < d)
    (hsuspends : Suspends d (.float T) r .delay) (hnext : r.next = .null)

theorem Begins.next {scope : Value} {r : NodeResult} (h : n.Begins scope r) : r.next = .null := by
  cases h with
  | failed _ hnext _ => exact hnext
  | through hr => exact hr ▸ rfl
  | waits _ _ _ _ _ hnext => exact hnext

theorem dispatch_delay (w : Workflow) (depth : Nat) (hkind : NodeKind.ofNode? services n = some .delay)
    (hnew : s.execution.state? n.id = none) :
    Leads (dispatch services w (depth + 1) n) s
      (fun r t => s.execution.Turned s.execution.vars t.execution ∧ n.Begins s.execution.scope r)
      fun _ _ => False := by
  refine leads_dispatch_same hkind (fun r k hwaits hr => ?_) ?_
  · cases hr with
    | failed hfailed hnext hmeasured => exact .failed hfailed hnext hmeasured
    | through hr =>
      rw [hr] at hwaits
      cases hwaits
    | waits d T hd hpos hsuspends hnext => exact .waits d T hd hpos (hsuspends.asGrowing k) hnext
  · rintro u ⟨logs, hu⟩
    have hnew' : u.execution.state? n.id = none := by
      rw [hu]
      exact hnew
    have hscope : u.execution.scope = s.execution.scope := by
      rw [hu]
      rfl
    refine (runDelay_new hnew').mono ?_ ?_
    · rintro r t ⟨ht, d, hd, hr⟩
      rw [hscope] at hd
      refine ⟨ht, ?_⟩
      split at hr
      · exact .through hr
      · obtain ⟨time, htime, rfl⟩ := hr
        obtain ⟨T, rfl⟩ := later_eq_float htime
        exact .waits d T hd (by omega) (suspends_delay rfl) rfl
    · rintro fault t ⟨ht, hlater⟩
      rw [hscope] at hlater
      refine ⟨ht, .failed rfl rfl ?_⟩
      rintro ⟨d, seconds, hd, hseconds⟩
      exact (hlater d hd).2 _ (later_eq hseconds)

/-- A node that is new to the execution waits until its seconds will have passed. -/
theorem dispatch_first (w : Workflow) (depth : Nat) (hlasts : n.Lasts services s.execution.scope d kind)
    (hpos : 0 < d) (hnew : s.execution.state? n.id = none)
    (htime : later s.now.timestamp d = .ok time) (hnull : time.isNull = false)
    (hsilent : kind = .wait → s.signals.get? (s.execution.id, n.id) = none) :
    Leads (dispatch services w (depth + 1) n) s
      (fun r t => s.execution.Turned s.execution.vars t.execution ∧ Suspends d time r kind)
      fun _ _ => False := by
  refine leads_dispatch_same hlasts.hkind (fun _ k _ hr => hr.asGrowing k) ?_
  rintro u ⟨logs, rfl⟩
  refine Leads.of_total ?_
  cases hlasts with
  | delay _ hd => exact runDelay_first (n := n) hnew hd hpos htime hnull
  | wait _ hd => exact runWait_first (n := n) hnew hd (hsilent rfl) htime hnull

/-- A node that waits until a time goes on waiting for it until it has come. -/
theorem dispatch_again (w : Workflow) (depth : Nat) {scope : Value}
    (hlasts : n.Lasts services scope d kind) {st : NodeState}
    (hst : s.execution.state? n.id = some st) (hawaits : st.Awaits (deadlineEntries kind d time))
    (hnull : time.isNull = false) {come : Bool} (hcome : hasCome s.now.timestamp time = .ok come)
    (hsilent : kind = .wait → s.signals.get? (s.execution.id, n.id) = none) :
    Leads (dispatch services w (depth + 1) n) s
      (fun r t => s.execution.Turned s.execution.vars t.execution ∧
        if come then n.Expires d r kind else Suspends d time r kind) fun _ _ => False := by
  refine leads_dispatch_same hlasts.hkind (fun r k hwaits hr => ?_) ?_
  · cases come with
    | true => cases hwaits.symm.trans (Expires.not_waiting hr)
    | false => exact Suspends.asGrowing hr k
  · rintro u ⟨logs, hu⟩
    have hst : u.execution.state? n.id = some st := by
      rw [hu]
      exact hst
    have hcome : hasCome u.now.timestamp time = .ok come := by
      rw [hu]
      exact hcome
    refine Leads.of_total ?_
    cases hlasts with
    | delay _ _ => exact runDelay_again hst hawaits hnull hcome
    | wait _ hd =>
      refine runWait_again hst hawaits hd ?_ hnull hcome
      rw [hu]
      exact hsilent rfl

end Node
end Flowline
