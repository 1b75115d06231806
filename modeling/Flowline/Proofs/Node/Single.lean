import Flowline.Node.Dispatch
import Flowline.Proofs.Execution.Sound
import Flowline.Proofs.Node.Data

/-! # Nodes that run no other nodes

What such a node does it does by itself. Where it waits, its output has no growing part yet, and names no
job: the job that resumes a node is entered by the engine, and `Actions.LeaveJobs` says that actions leave
that to it. Delays and nodes that wait for signals read times from the execution; see `Node.Suspension`. -/

namespace Flowline

/-- An output names the job that resumes its node. -/
def Output.hasJob (o : Output) : Bool := (o.entry "resume_job_id").isPresent

/-- No result of an action that waits names a job. -/
def Actions.LeaveJobs (actions : Actions) : Prop :=
  ∀ type a, actions.get? type = some a → ∀ call r, (a.run call).answer = .ok (.result r) →
    r.isWaiting = true → r.output.hasJob = false

/-- A result of a node that runs no other nodes. -/
structure NodeResult.Lone (actions : Actions) (r : NodeResult) : Prop where
  growing : r.output.growing = []
  job : actions.LeaveJobs → r.isWaiting = true → r.output.hasJob = false
  timely : actions.GiveTimes → r.isWaiting = true → r.output.Timely

namespace NodeResult
variable {actions : Actions}

theorem Plain.lone {r : NodeResult} (h : r.Plain) : r.Lone actions := by
  refine ⟨h.2, fun _ hw => ?_, fun _ hw => ?_⟩
  · cases h.1.symm.trans hw
  · cases h.1.symm.trans hw

theorem growing_ofEntries {entries : List (Scalar × Output)}
    (h : ∀ p ∈ entries, p.2.growing = []) : (Output.ofEntries entries).growing = [] := by
  refine List.flatMap_eq_nil_iff.2 fun p hp => ?_
  simp only [Output.growingUnder, h p hp, List.map_nil]

theorem hasJob_ofEntries {entries : List (Scalar × Output)}
    (h : ∀ p ∈ entries, p.1 ≠ .str "resume_job_id") : (Output.ofEntries entries).hasJob = false := by
  have hnone : (Output.ofEntries entries).value.field? "resume_job_id" = none := by
    refine Entries.get?_eq_none fun p hp => ?_
    obtain ⟨q, hq, rfl⟩ := List.mem_map.1 hp
    exact h q hq
  rw [Output.hasJob, Output.entry, hnone]
  rfl

/-- Entries of a waiting result besides its time. -/
theorem hasJob_waitingWith (reason time : Value) {extra : List (Scalar × Output)}
    (h : ∀ p ∈ extra, p.1 ≠ .str "resume_job_id") :
    (waitingWith reason time extra).output.hasJob = false := by
  refine hasJob_ofEntries fun p hp => ?_
  simp only [List.cons_append, List.mem_cons, List.mem_append] at hp
  obtain rfl | hp | hp := hp
  · simp
  · exact h p hp
  · split at hp
    · cases hp
    · obtain rfl := List.mem_singleton.1 hp
      simp

theorem growing_waitingWith (reason time : Value) {extra : List (Scalar × Output)}
    (h : ∀ p ∈ extra, p.2.growing = []) : (waitingWith reason time extra).output.growing = [] := by
  refine growing_ofEntries fun p hp => ?_
  simp only [List.cons_append, List.mem_cons, List.mem_append] at hp
  obtain rfl | hp | hp := hp
  · rfl
  · exact h p hp
  · split at hp
    · cases hp
    · obtain rfl := List.mem_singleton.1 hp
      rfl

theorem timely_waitingWith (reason : Value) {time : Value} {extra : List (Scalar × Output)}
    (htime : time.IsTime)
    (h : ∀ key ∈ Output.timeKeys, ∀ o, (.str key, o) ∈ extra → o.value.IsTime) :
    (waitingWith reason time extra).output.Timely := by
  refine Output.timely_ofEntries fun key hkey o ho => ?_
  simp only [List.cons_append, List.mem_cons, List.mem_append] at ho
  obtain ho | ho | ho := ho
  · obtain ⟨hreason, -⟩ := Prod.mk.inj ho
    obtain rfl := Scalar.str.inj hreason
    exact absurd hkey (by decide)
  · exact h key hkey o ho
  · split at ho
    · cases ho
    · obtain ⟨-, rfl⟩ := Prod.mk.inj (List.mem_singleton.1 ho)
      exact htime

theorem lone_waiting (reason : String) {time : Value} {extra : List (String × Value)}
    (hjob : ∀ p ∈ extra, p.1 ≠ "resume_job_id") (htime : actions.GiveTimes → time.IsTime)
    (htimes : actions.GiveTimes → ∀ p ∈ extra, p.1 ∈ Output.timeKeys → p.2.IsTime) :
    (waiting reason time extra).Lone actions := by
  constructor
  · refine growing_waitingWith _ _ fun p hp => ?_
    obtain ⟨q, -, rfl⟩ := List.mem_map.1 hp
    rfl
  · refine fun _ _ => hasJob_waitingWith _ _ fun p hp => ?_
    obtain ⟨q, hq, rfl⟩ := List.mem_map.1 hp
    simpa using hjob q hq
  · refine fun hgive _ => timely_waitingWith _ (htime hgive) fun key hkey o ho => ?_
    obtain ⟨q, hq, heq⟩ := List.mem_map.1 ho
    obtain ⟨hk, rfl⟩ := Prod.mk.inj heq
    rw [← Scalar.str.inj hk] at hkey
    exact htimes hgive q hq hkey

end NodeResult

namespace Node
open NodeResult Run
variable {R : Session → Session → Prop} [Frame R] {actions : Actions}

/-! ## Decisions -/

theorem within_itemsOf (n : Node) (key : String) : Within R (n.itemsOf key) :=
  (within_of _).bind fun _ => within_of _

theorem gives_runEntry : Gives R Plain runEntry := gives_pure (plain_okObject _)

theorem gives_runEnd (n : Node) : Gives R Plain n.runEnd := by
  refine (within_of _).bind fun declared => ?_
  exact (within_resolveDeep _).bind fun _ => gives_pure (plain_okValue _)

theorem gives_firstHolding (conditions : List Value) :
    Gives R (fun r? => ∀ r, r? = some r → r.Plain) (firstHolding conditions) := by
  induction conditions with
  | nil =>
    refine gives_pure ?_
    rintro r ⟨⟩
  | cons condition rest ih =>
    refine (within_of _).bind fun expression => ?_
    refine (within_check expression).bind fun held => ?_
    split
    · refine (within_of _).bind fun label => ?_
      refine (within_of _).bind fun next => ?_
      refine gives_pure ?_
      rintro r ⟨⟩
      exact plain_ok _ _
    · exact ih

theorem gives_runCondition (n : Node) : Gives R Plain n.runCondition := by
  refine (within_itemsOf n _).bind fun conditions => ?_
  refine (gives_firstHolding conditions).bind fun r? hr => ?_
  cases r? with
  | some r => exact gives_pure (hr r rfl)
  | none => exact (within_of _).bind fun next => gives_pure (plain_ok _ next)

theorem gives_firstMatching (value : Value) (cases : List Value) :
    Gives R (fun r? => ∀ r, r? = some r → r.Plain) (firstMatching value cases) := by
  induction cases with
  | nil =>
    refine gives_pure ?_
    rintro r ⟨⟩
  | cons case rest ih =>
    refine (within_of _).bind fun candidate => ?_
    split
    · refine (within_of _).bind fun next => ?_
      refine gives_pure ?_
      rintro r ⟨⟩
      exact plain_ok _ _
    · exact ih

theorem gives_runSwitch (n : Node) : Gives R Plain n.runSwitch := by
  refine (within_of _).bind fun v => ?_
  refine (within_resolve v).bind fun value => ?_
  refine (within_itemsOf n _).bind fun cases => ?_
  refine (gives_firstMatching value cases).bind fun r? hr => ?_
  cases r? with
  | some r => exact gives_pure (hr r rfl)
  | none => exact (within_of _).bind fun next => gives_pure (plain_ok _ next)

/-! ## Delays and signals -/

theorem within_waitingEntry (id key : String) : Within R ( waitingEntry? id key) := by
  refine within_execution.bind fun e => ?_
  split
  · refine (within_of _).bind fun time => ?_
    split
    · exact gives_pure trivial
    · exact gives_pure trivial
  · exact gives_pure trivial

theorem within_delaySeconds (n : Node) : Within R n.delaySeconds := by
  refine (within_of _).bind fun unit => ?_
  refine (within_of _).bind fun v => ?_
  refine (within_resolve v).bind fun value => ?_
  refine (within_of _).bind fun count => ?_
  exact (within_of _).bind fun key => gives_pure trivial

theorem within_startDelay (n : Node) (now : Float) : Within R (n.startDelay now) := by
  refine (within_delaySeconds n).bind fun seconds => ?_
  split
  · exact gives_pure trivial
  · exact (within_of _).bind fun time => gives_pure trivial

theorem within_runDelay (n : Node) : Within R n.runDelay := by
  refine within_timestamp.bind fun now => ?_
  refine (within_waitingEntry n.id _).bind fun entry => ?_
  split
  · refine (within_of _).bind fun seconds => ?_
    refine (within_of _).bind fun come => ?_
    split
    · exact gives_pure trivial
    · exact (within_of _).bind fun reason => gives_pure trivial
  · exact within_startDelay n now

theorem gives_timeoutResult (n : Node) (waitType : Value) (timeout : Int) :
    Gives R Plain (n.timeoutResult waitType timeout) := by
  refine (within_of _).bind fun choice => ?_
  split
  · exact gives_pure (plain_okObject _)
  · exact gives_pure (plain_failure _)

theorem plain_signalResult (payload : Value) : (signalResult payload).Plain := by
  unfold signalResult
  split
  · exact plain_okValue _
  · exact plain_okObject _

theorem within_runWait (services : Services) (n : Node) (htake : Within R (takeSignal n.id)) :
    Within R (runWait services n) := by
  refine (within_of _).bind fun waitType => ?_
  refine (within_of _).bind fun v => ?_
  refine (within_of _).bind fun timeout => ?_
  refine within_timestamp.bind fun now => ?_
  refine htake.bind fun payload? => ?_
  cases payload? with
  | some payload => exact gives_pure trivial
  | none =>
    refine (within_waitingEntry n.id _).bind fun entry => ?_
    split
    · refine (within_of _).bind fun come => ?_
      split
      · exact (gives_timeoutResult n waitType timeout).within
      · exact gives_pure trivial
    · exact (within_of _).bind fun time => gives_pure trivial

/-! ## Actions -/

theorem lone_toResult {a : Action} {type : String} (ha : actions.get? type = some a)
    {call : ActionCall} {answer : ActionAnswer} (h : (a.run call).answer = .ok answer) :
    answer.toResult.Lone actions := by
  unfold ActionAnswer.toResult
  split
  case h_1 r =>
    exact ⟨rfl, fun hleave hw => hleave type a ha call r h hw,
      fun hgive hw => hgive type a ha call r h hw⟩
  case h_5 => exact (plain_okObject _).lone
  all_goals exact (plain_okValue _).lone

theorem gives_call (services : Services) {a : Action} {type : String}
    (ha : services.actions.get? type = some a) (config : Value) :
    Gives R (Lone services.actions) (call services a config) := by
  refine (within_countCall a.type).bind fun count => ?_
  refine within_execution.bind fun e => ?_
  refine (within_forIn within_perform _).bind fun _ => ?_
  refine (gives_of (P := fun answer => answer.toResult.Lone services.actions) _ ?_).bind
    fun answer h => gives_pure h
  intro answer h
  exact lone_toResult ha h

theorem gives_act (services : Services) (type config : Value) :
    Gives R (Lone services.actions) (act services type config) := by
  unfold act
  split
  · split
    · exact gives_pure (plain_failure _).lone
    · next ha =>
      refine (within_of _).bind fun problems => ?_
      split
      · exact gives_call services ha config
      · exact gives_pure (plain_failure _).lone
  · exact gives_pure (plain_failure _).lone
  · exact gives_throw

theorem gives_runAction (services : Services) (n : Node) :
    Gives R (Lone services.actions) (runAction services n) := by
  have run (type : Value) : Gives R (Lone services.actions) (if !type.isPresent then
      return .failure "Action type not specified"
    else do act services type (← resolveDeep n.config)) := by
    split
    · exact gives_pure (plain_failure _).lone
    · exact (within_resolveDeep n.config).bind fun config => gives_act services type config
  unfold runAction
  dsimp only
  split
  · exact (gives_pure (P := fun _ => True) trivial).bind fun type _ => run type
  · exact (within_of _).bind fun type => run type

/-- A node is dispatched where it is run, and what comes of it is kept. -/
theorem leads_dispatch {services : Services} {w : Workflow} {depth : Nat} {n : Node} {s : Session}
    {ok : NodeResult → Session → Prop} {fails : Fault → Session → Prop}
    (h : Leads (runNode services w (dispatch services w depth) n) s
      (fun r t => ok r { t with execution := t.execution.ran n r }) fails) :
    Leads (dispatch services w (depth + 1) n) s ok fails :=
  leads_bind (h.mono (fun _ _ hok => hok) fun _ _ hfault => hfault)

end Node

end Flowline
