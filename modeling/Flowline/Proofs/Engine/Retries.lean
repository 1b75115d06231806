import Flowline.Proofs.Engine.Upshots

/-! # Retries

A workflow that has failed may be run again, and again when it fails then. The executions that come of one start
in this way are a family. Each of them knows how many there were before it, and has a job scheduled at most once,
when it fails; so there are no more of them than the workflow allows. -/

namespace Flowline

/-! ## Families -/

/-- Executions that come of one start, and the jobs by which their workflow is run again. -/
structure Family where
  members : List String
  jobs : List Nat
deriving Repr, DecidableEq

namespace Family

/-- The family after an episode, and whether what was started there was caused by it. -/
def grow (F : Family) (ep : Episode) (caused : Bool) : Family :=
  let members := if caused then F.members ++ ep.births else F.members
  ⟨members, if ep.failures.any members.contains then F.jobs ++ ep.retries.map Job.number else F.jobs⟩

/-- What is started when a job of a family is delivered is caused by it. -/
def causes (F : Family) (ep : Episode) : Bool := ep.job?.any fun job => F.jobs.contains job.number

/-- The family of the execution that is started in the first of some episodes. -/
def ofEpisodes : List Episode → Family
  | [] => ⟨[], []⟩
  | first :: rest => rest.foldl (fun F ep => F.grow ep (F.causes ep)) (grow ⟨[], []⟩ first true)

theorem ofEpisodes_concat {past : List Episode} (hpast : past ≠ []) (ep : Episode) :
    ofEpisodes (past ++ [ep]) = (ofEpisodes past).grow ep ((ofEpisodes past).causes ep) := by
  cases past with
  | nil => exact absurd rfl hpast
  | cons first rest => simp [ofEpisodes, List.foldl_append]

end Family

/-! ## Contexts -/

/-- The context with which a workflow is run that was run some times before. -/
def Entries.retried (entries : List (Scalar × Value)) : Nat → List (Scalar × Value)
  | 0 => entries
  | n + 1 => insert entries (.str "retry_count") (.int (n + 1 : Nat))

theorem Entries.insert_retried (entries : List (Scalar × Value)) (n : Nat) :
    insert (retried entries n) (.str "retry_count") (.int (n + 1)) = retried entries (n + 1) := by
  cases n with
  | zero => rfl
  | succ n => exact insert_insert entries "retry_count" _ _

theorem Execution.retryCount_of_retried {e : Execution} {entries : List (Scalar × Value)} {n : Nat}
    (hnone : Entries.get? entries (.str "retry_count") = none)
    (hcontext : e.context = Entries.retried entries n) : e.retryCount = .ok n := by
  rw [retryCount, hcontext]
  cases n with
  | zero =>
    rw [Entries.retried, hnone]
    rfl
  | succ n =>
    rw [Entries.retried, Entries.get?_insert_self]
    rfl

theorem RetryPolicy.maxRetries_eq {w : Workflow} {policy : RetryPolicy} {m : Int}
    (hpolicy : RetryPolicy.ofSettings w.settings = .ok policy)
    (hm : (w.setting "max_retries").asInt = .ok m) : policy.maxRetries = m := by
  obtain ⟨n, hn, hpolicy⟩ := bind_eq_ok.1 hpolicy
  obtain ⟨initial, -, hpolicy⟩ := bind_eq_ok.1 hpolicy
  obtain ⟨strategy, -, hpolicy⟩ := bind_eq_ok.1 hpolicy
  obtain ⟨factor, -, hpolicy⟩ := bind_eq_ok.1 hpolicy
  obtain rfl := Except.ok.inj hpolicy
  exact Except.ok.inj (hn.symm.trans hm)

/-! ## Lineages -/

/-- What is known of a workflow that is run again, and of what it was given first. -/
structure Cause where
  workflow : Workflow
  maxRetries : Nat
  trigger : List (Scalar × Value)
  context : List (Scalar × Value)

namespace Cause

/-- The cause was no retry. -/
structure IsFirst (c : Cause) : Prop where
  max_eq : (c.workflow.setting "max_retries").asInt = .ok c.maxRetries
  fresh : Entries.get? c.context (.str "retry_count") = none

/-- An execution that is the next one after some others. -/
structure Brings (c : Cause) (e : Execution) (n : Nat) : Prop where
  workflowId_eq : e.workflowId = c.workflow.id
  trigger_eq : e.trigger = c.trigger
  context_eq : e.context = Entries.retried c.context n

theorem Brings.of_task {c : Cause} {e f : Execution} {n : Nat} (h : c.Brings e n) (htask : e.SameTask f) :
    c.Brings f n :=
  ⟨htask.workflowId_eq.trans h.workflowId_eq, htask.trigger_eq.trans h.trigger_eq,
    htask.context_eq.trans h.context_eq⟩

end Cause

variable {c : Cause} {setup : Setup} {Starts : Workflow → Value → Value → Prop} {ep : Episode} {F : Family}
  {g : Engine} {hand hand' : List (Job Float Value)} {caused : Bool}

namespace Family

/-- All of a family have failed, and their workflow may be run again. -/
structure Ready (c : Cause) (g : Engine) (F : Family) : Prop where
  length_le : F.members.length ≤ c.maxRetries
  failed : ∀ id ∈ F.members, g.hasFailed id = true

/-- A payload runs the workflow of a family once more. -/
def Continues (c : Cause) (F : Family) (payload : Value) : Prop :=
  ∀ id trigger context, payload.Runs id trigger context → id = c.workflow.id ∧ trigger = .map c.trigger ∧
    context = .map (Entries.retried c.context F.members.length)

/-- Each of a family but the last has failed, and knows how many there were before it. At most one of the jobs
that wait is one of its own, and only as all of it have failed. -/
structure Lineage (c : Cause) (g : Engine) (hand : List (Job Float Value)) (F : Family) : Prop where
  number_le : ∀ n ∈ F.jobs, n ≤ g.schedule.count
  member : ∀ i id, F.members[i]? = some id → ∃ f, g.stored? id = some f ∧ c.Brings f i ∧
    (i + 1 < F.members.length → f.status = .failed)
  length_le : F.members.length ≤ c.maxRetries + 1
  waits : ∀ job ∈ hand ++ g.schedule.jobs, job.number ∈ F.jobs →
    F.Ready c g ∧ F.Continues c job.payload ∧
      ∀ other ∈ hand ++ g.schedule.jobs, other.number ∈ F.jobs → other.number = job.number

/-- No job of a family waits. -/
def IsIdle (F : Family) (g : Engine) (hand : List (Job Float Value)) : Prop :=
  ∀ job ∈ hand ++ g.schedule.jobs, job.number ∉ F.jobs

theorem IsIdle.after (hidle : F.IsIdle ep.before hand) (hnumbers : ∀ n ∈ F.jobs, n ≤ ep.before.schedule.count)
    (hlater : ep.before.schedule.Later hand ep.after.schedule hand') : F.IsIdle ep.after hand' :=
  fun job hjob hmem => hidle job (hlater.waited job hjob (hnumbers _ hmem)) hmem

theorem Lineage.after (hlineage : F.Lineage c ep.before hand) (hupshot : Upshot setup Starts ep)
    (hlater : ep.before.schedule.Later hand ep.after.schedule hand') : F.Lineage c ep.after hand' where
  number_le n hn := (hlineage.number_le n hn).trans hlater.count_le
  member i id hid := by
    obtain ⟨f, hstored, hbrings, hfailed⟩ := hlineage.member i id hid
    obtain ⟨f', hstored', htask, hsame⟩ := hupshot.stored hstored
    exact ⟨f', hstored', hbrings.of_task htask, fun hi => hsame (hfailed hi) ▸ hfailed hi⟩
  length_le := hlineage.length_le
  waits job hjob hmem := by
    -- What the family has scheduled is old, so it waited before.
    have before {job : Job Float Value} (hjob : job ∈ hand' ++ ep.after.schedule.jobs)
        (hmem : job.number ∈ F.jobs) : job ∈ hand ++ ep.before.schedule.jobs :=
      hlater.waited job hjob (hlineage.number_le _ hmem)
    obtain ⟨⟨hlength, hfailed⟩, hcontinues, hone⟩ := hlineage.waits job (before hjob hmem) hmem
    exact ⟨⟨hlength, fun id hid => hupshot.hasFailed (hfailed id hid)⟩, hcontinues,
      fun other hother hmem' => hone other (before hother hmem') hmem'⟩

theorem Lineage.birth (hlineage : F.Lineage c g hand) (hready : F.Ready c g) (hidle : F.IsIdle g hand)
    {f : Execution} (hstored : g.stored? f.id = some f) (hbrings : c.Brings f F.members.length) :
    Lineage c g hand ⟨F.members ++ [f.id], F.jobs⟩ where
  number_le := hlineage.number_le
  member i id hid := by
    obtain hi | rfl | hi := Nat.lt_trichotomy i F.members.length
    · rw [List.getElem?_append_left hi] at hid
      obtain ⟨f', hstored', hbrings', -⟩ := hlineage.member i id hid
      obtain ⟨f₀, hstored₀, hstatus⟩ := Engine.hasFailed_iff.1 (hready.failed id (List.mem_of_getElem? hid))
      obtain rfl := Option.some.inj (hstored₀.symm.trans hstored')
      exact ⟨f₀, hstored', hbrings', fun _ => hstatus⟩
    · rw [List.getElem?_concat_length] at hid
      obtain rfl := Option.some.inj hid
      exact ⟨f, hstored, hbrings, fun hlater => absurd hlater (by simp)⟩
    · rw [List.getElem?_eq_none (by simp; omega)] at hid
      cases hid
  length_le := by
    have := hready.length_le
    simp
    omega
  waits job hjob hmem := absurd hmem (hidle job hjob)

/-- A job is scheduled for a family as the last of it fails. -/
theorem Lineage.retry (hc : c.IsFirst) (hlineage : F.Lineage c g hand) (hnumbered : g.schedule.Numbered hand)
    (hidle : F.IsIdle g hand) {f : Execution} (hstored : g.stored? f.id = some f) (hstatus : f.status = .failed)
    (hlast : F.members.getLast? = some f.id) {job : Job Float Value} (hjob : job ∈ g.schedule.jobs)
    (hretries : job.Retries setup c.workflow f) :
    Lineage c g hand ⟨F.members, F.jobs ++ [job.number]⟩ := by
  obtain ⟨policy, retries, delay, time, hpolicy, hcount, hallows, -, -, -, hpayload⟩ := hretries.terms
  have hlast : F.members[F.members.length - 1]? = some f.id := by rwa [← List.getLast?_eq_getElem?]
  have hpos : 0 < F.members.length := by
    have := (List.getElem?_eq_some_iff.1 hlast).1
    omega
  obtain ⟨f', hstored', hbrings, -⟩ := hlineage.member _ _ hlast
  obtain rfl := Option.some.inj (hstored.symm.trans hstored')
  have hcount' := Execution.retryCount_of_retried hc.fresh hbrings.context_eq
  obtain rfl := Except.ok.inj (hcount.symm.trans hcount')
  have hmax := RetryPolicy.maxRetries_eq hpolicy hc.max_eq
  rw [RetryPolicy.allows, hmax, decide_eq_true_eq] at hallows
  -- All before the last have failed as it is a lineage, and the last one has just failed.
  have hready : F.Ready c g := by
    refine ⟨by omega, fun id hid => ?_⟩
    obtain ⟨i, hi, hget⟩ := List.getElem_of_mem hid
    have hid : F.members[i]? = some id := List.getElem?_eq_some_iff.2 ⟨hi, hget⟩
    by_cases hend : i = F.members.length - 1
    · subst hend
      obtain rfl := Option.some.inj (hid.symm.trans hlast)
      exact Engine.hasFailed_iff.2 ⟨f, hstored, hstatus⟩
    · obtain ⟨f', hstored', -, hfailed⟩ := hlineage.member i id hid
      exact Engine.hasFailed_iff.2 ⟨f', hstored', hfailed (by omega)⟩
  have own {other : Job Float Value} (hother : other ∈ hand ++ g.schedule.jobs)
      (hmem : other.number ∈ F.jobs ++ [job.number]) : other.number = job.number := by
    obtain hmem | hmem := List.mem_append.1 hmem
    · exact absurd hmem (hidle other hother)
    · exact List.mem_singleton.1 hmem
  refine ⟨fun n hn => ?_, hlineage.member, hlineage.length_le, fun other hother hmem => ?_⟩
  · obtain hn | hn := List.mem_append.1 hn
    · exact hlineage.number_le n hn
    · exact List.mem_singleton.1 hn ▸ hnumbered.le job (List.mem_append_right _ hjob)
  · have hnumber := own hother hmem
    obtain rfl : other = job :=
      List.inj_on_of_nodup_map hnumbered.nodup hother (List.mem_append_right _ hjob) hnumber
    refine ⟨⟨hready.length_le, hready.failed⟩, ?_, fun other' hother' hmem' => own hother' hmem'⟩
    intro id trigger context hruns
    rw [hpayload, Work.runs_retryPayload] at hruns
    obtain ⟨hid, htrigger, hcontext⟩ := hruns
    rw [hbrings.context_eq, Entries.insert_retried, Nat.sub_add_cancel hpos] at hcontext
    exact ⟨hid, hbrings.trigger_eq ▸ htrigger, hcontext⟩

/-! ## Episodes of a family -/

/-- What is started now is one more of a family, since no other one of it goes on. -/
structure Due (c : Cause) (Starts : Workflow → Value → Value → Prop) (g : Engine)
    (hand : List (Job Float Value)) (F : Family) : Prop where
  ready : F.Ready c g
  idle : F.IsIdle g hand
  starts : ∀ w trigger context, Starts w trigger context → w = c.workflow ∧
    (trigger.orElse (.map [])).asEntries = .ok c.trigger ∧
    (context.orElse (.map [])).asEntries = .ok (Entries.retried c.context F.members.length)

/-- A member that has not failed is the last one, and no job of its family waits. -/
theorem Lineage.open_member (hlineage : F.Lineage c g hand) {id : String} (hid : id ∈ F.members)
    (hopen : g.hasFailed id = false) : F.members.getLast? = some id ∧ F.IsIdle g hand := by
  constructor
  · obtain ⟨i, hi, hget⟩ := List.getElem_of_mem hid
    have hid : F.members[i]? = some id := List.getElem?_eq_some_iff.2 ⟨hi, hget⟩
    obtain ⟨f, hstored, -, hfailed⟩ := hlineage.member i id hid
    have hlast : ¬ i + 1 < F.members.length := fun hlater =>
      Bool.eq_false_iff.1 hopen (Engine.hasFailed_iff.2 ⟨f, hstored, hfailed hlater⟩)
    rw [List.getLast?_eq_getElem?, ← hid]
    congr 1
    omega
  · intro job hjob hmem
    exact Bool.eq_false_iff.1 hopen ((hlineage.waits job hjob hmem).1.failed id hid)

theorem Lineage.stored (hlineage : F.Lineage c g hand) {id : String} (hid : id ∈ F.members) :
    ∃ f, g.stored? id = some f ∧ f.workflowId = c.workflow.id := by
  obtain ⟨i, hi, hget⟩ := List.getElem_of_mem hid
  obtain ⟨f, hstored, hbrings, -⟩ := hlineage.member i id (List.getElem?_eq_some_iff.2 ⟨hi, hget⟩)
  exact ⟨f, hstored, hbrings.workflowId_eq⟩

theorem Lineage.concerned (hlineage : F.Lineage c ep.before hand) (hupshot : Upshot setup Starts ep)
    (hlater : ep.before.schedule.Later hand ep.after.schedule hand')
    (hkept : ∀ w, ep.before.memory.workflow? c.workflow.id = some w → w = c.workflow)
    (hdue : caused = true → F.Due c Starts ep.before hand) {e f : Execution} {w? : Option Workflow}
    (hconcerns : Concerns Starts ep e w?) (htask : e.SameTask f) (hsaves : ep.Saves f) :
    Lineage c ep.after hand' ⟨(F.grow ep caused).members, F.jobs⟩ ∧
      (f.id ∈ (F.grow ep caused).members → (F.grow ep caused).members.getLast? = some f.id ∧
        F.IsIdle ep.after hand' ∧ ∀ w, w? = some w → w = c.workflow) := by
  have hafter := hlineage.after hupshot hlater
  have hmembers : (F.grow ep caused).members = if caused then F.members ++ ep.births else F.members := rfl
  have hid := htask.id_eq
  cases hconcerns with
  | start w trigger context hstarts hnew hworkflow htrigger hcontext hbirths =>
    cases caused with
    | false =>
      -- Members are kept before, and this execution is new.
      refine ⟨hafter, fun hmem => ?_⟩
      obtain ⟨f', hstored, -⟩ := hlineage.stored (show f.id ∈ F.members from hmem)
      rw [hid, hnew] at hstored
      cases hstored
    | true =>
      obtain ⟨hready, hidle, hown⟩ := hdue rfl
      obtain ⟨rfl, htrigger', hcontext'⟩ := hown w trigger context hstarts
      have hidle' := hidle.after hlineage.number_le hlater
      rw [hmembers, if_pos rfl, hbirths, ← hid]
      have hbrings : c.Brings e F.members.length :=
        ⟨hworkflow, Except.ok.inj (htrigger.symm.trans htrigger'),
          Except.ok.inj (hcontext.symm.trans hcontext')⟩
      have hstored : ep.after.stored? f.id = some f := by rw [hsaves.stored, if_pos rfl]
      refine ⟨hafter.birth ?_ hidle' hstored (hbrings.of_task htask), fun _ => ⟨?_, hidle', fun w hw => ?_⟩⟩
      · exact ⟨hready.length_le, fun id hid => hupshot.hasFailed (hready.failed id hid)⟩
      · exact List.getLast?_concat
      · exact (Option.some.inj hw).symm
  | kept w? hstored hopen hw hbirths =>
    have hsame : (F.grow ep caused).members = F.members := by
      rw [hmembers, hbirths, List.append_nil, ite_self]
    rw [hsame]
    refine ⟨hafter, fun hmem => ?_⟩
    have hopen' := Engine.hasFailed_of_open hstored hopen
    rw [hid] at hmem ⊢
    obtain ⟨hlast, hidle⟩ := hlineage.open_member hmem hopen'
    refine ⟨hlast, hidle.after hlineage.number_le hlater, fun w hw' => hkept w ?_⟩
    obtain ⟨f', hstored', hworkflow⟩ := hlineage.stored hmem
    obtain rfl := Option.some.inj (hstored.symm.trans hstored')
    rw [← hworkflow]
    exact hw w hw'

/-- What becomes of a family in an episode. -/
theorem Lineage.grow (hc : c.IsFirst) (hlineage : F.Lineage c ep.before hand) (hupshot : Upshot setup Starts ep)
    (hnumbered : ep.after.schedule.Numbered hand')
    (hlater : ep.before.schedule.Later hand ep.after.schedule hand')
    (hkept : ∀ w, ep.before.memory.workflow? c.workflow.id = some w → w = c.workflow)
    (hdue : caused = true → F.Due c Starts ep.before hand) :
    (F.grow ep caused).Lineage c ep.after hand' ∧
      ∀ id ∈ ep.failures, id ∈ (F.grow ep caused).members → ∀ job ∈ ep.retries,
        ∃ f, ep.after.stored? id = some f ∧ f.status = .failed ∧ job.Retries setup c.workflow f := by
  have hafter := hlineage.after hupshot hlater
  have hconcerned {e f : Execution} {w? : Option Workflow} (hconcerns : Concerns Starts ep e w?)
      (htask : e.SameTask f) (hsaves : ep.Saves f) :=
    hlineage.concerned hupshot hlater hkept hdue hconcerns htask hsaves
  have hjobs : (F.grow ep caused).jobs = if ep.failures.any (F.grow ep caused).members.contains then
      F.jobs ++ ep.retries.map Job.number else F.jobs := rfl
  have hgrown : F.grow ep caused = ⟨(F.grow ep caused).members, (F.grow ep caused).jobs⟩ := rfl
  cases hupshot with
  | idle hstored hbirths hfailures hretries =>
    have hsame : F.grow ep caused = F := by simp [Family.grow, hbirths, hfailures]
    rw [hsame, hfailures]
    exact ⟨hafter, nofun⟩
  | settle w? e f hconcerns htask hsaves hstatus hfailures hretries =>
    rw [hgrown, hjobs, hfailures]
    exact ⟨(hconcerned hconcerns htask hsaves).1, nofun⟩
  | fail w? e f hconcerns htask hsaves hstatus hfailures hretries =>
    obtain ⟨hlineage', hown⟩ := hconcerned hconcerns htask hsaves
    have hstored : ep.after.stored? f.id = some f := by rw [hsaves.stored, if_pos rfl]
    by_cases hmem : f.id ∈ (F.grow ep caused).members
    · obtain ⟨hlast, hidle, hworkflow⟩ := hown hmem
      have hmore : (F.grow ep caused).jobs = F.jobs ++ ep.retries.map Job.number := by
        rw [hjobs, hfailures]
        simp [hmem]
      rw [hgrown, hmore]
      obtain hretries | ⟨w, job, hw, hretries, hjob⟩ := hretries
      · rw [hretries, List.map_nil, List.append_nil]
        exact ⟨hlineage', nofun⟩
      · obtain rfl := hworkflow w hw
        have hwaits : job ∈ ep.after.schedule.jobs :=
          Episode.mem_of_mem_retries (hretries ▸ List.mem_singleton_self job)
        rw [hretries, hfailures]
        refine ⟨hlineage'.retry hc hnumbered hidle hstored hstatus hlast hwaits hjob, ?_⟩
        intro id hid _ job' hjob'
        obtain rfl := List.mem_singleton.1 hid
        obtain rfl := List.mem_singleton.1 hjob'
        exact ⟨f, hstored, hstatus, hjob⟩
    · have hsame : (F.grow ep caused).jobs = F.jobs := by
        rw [hjobs, hfailures]
        simp [hmem]
      rw [hgrown, hsame, hfailures]
      refine ⟨hlineage', fun id hid hmember => ?_⟩
      obtain rfl := List.mem_singleton.1 hid
      exact absurd hmember hmem

end Family

/-! ## Histories -/

/-- A job runs a workflow again for an execution that has failed, as its policy allows: with the same data, and
one retry more in the context. -/
structure Cause.Repeats (c : Cause) (setup : Setup) (f : Execution) (job : Job Float Value) : Prop where
  terms : ∃ (k : Nat) (policy : RetryPolicy) (delay : Float) (time : Moment),
    f.retryCount = .ok k ∧ k < c.maxRetries ∧ f.completedAt? = some time ∧
    RetryPolicy.ofSettings c.workflow.settings = .ok policy ∧ policy.delay k setup.share = .ok delay ∧
    job.runAt = time.timestamp + delay ∧
    job.payload.Runs c.workflow.id (.map f.trigger)
      (.map (Entries.insert f.context (.str "retry_count") (.int (k + 1))))

theorem Job.Retries.repeats (hc : c.IsFirst) {f : Execution} {n : Nat} (hbrings : c.Brings f n)
    {job : Job Float Value} (hretries : job.Retries setup c.workflow f) : c.Repeats setup f job := by
  obtain ⟨policy, retries, delay, time, hpolicy, hcount, hallows, hdelay, htime, hrunAt, hpayload⟩ :=
    hretries.terms
  have hcount' := Execution.retryCount_of_retried hc.fresh hbrings.context_eq
  obtain rfl := Except.ok.inj (hcount.symm.trans hcount')
  rw [RetryPolicy.allows, RetryPolicy.maxRetries_eq hpolicy hc.max_eq, decide_eq_true_eq] at hallows
  refine ⟨n, policy, delay, time, hcount', by omega, htime, hpolicy, hdelay, hrunAt, ?_⟩
  rw [hpayload]
  exact Work.runs_retryPayload.2 ⟨rfl, rfl, rfl⟩

/-- What holds at an episode of a history that begins with the start of an execution. -/
structure Conforms (setup : Setup) (c : Cause) (past : List Episode) (ep : Episode) : Prop where
  /-- One start brings no more executions than that. -/
  length_le : (Family.ofEpisodes (past ++ [ep])).members.length ≤ c.maxRetries + 1
  member : ∀ i id, (Family.ofEpisodes (past ++ [ep])).members[i]? = some id →
    ∃ f, ep.after.stored? id = some f ∧ c.Brings f i ∧ f.retryCount = .ok i
  /-- Whatever has failed, one job is scheduled for it at most. -/
  one : ep.retries = [] ∨ ∃ id job, ep.failures = [id] ∧ ep.retries = [job]
  once : ∀ id ∈ ep.failures, ∀ earlier ∈ past, id ∉ earlier.failures
  repeats : ∀ id ∈ ep.failures, id ∈ (Family.ofEpisodes (past ++ [ep])).members → ∀ job ∈ ep.retries,
    ∃ f, ep.after.stored? id = some f ∧ f.status = .failed ∧ c.Repeats setup f job

theorem Upshot.one (hupshot : Upshot setup Starts ep) :
    ep.retries = [] ∨ ∃ id job, ep.failures = [id] ∧ ep.retries = [job] := by
  cases hupshot with
  | idle _ _ _ hretries => exact .inl hretries
  | settle _ _ _ _ _ _ _ _ hretries => exact .inl hretries
  | fail w? e f _ _ _ _ hfailures hretries =>
    obtain hnone | ⟨w, job, -, hretries, -⟩ := hretries
    · exact .inl hnone
    · exact .inr ⟨f.id, job, hfailures, hretries⟩

namespace Engine

/-- How an engine stands after some episodes. -/
structure Stands (c : Cause) (past : List Episode) (g : Engine) (hand : List (Job Float Value)) : Prop where
  numbered : g.schedule.Numbered hand
  lineage : (Family.ofEpisodes past).Lineage c g hand
  failed : ∀ ep ∈ past, ∀ id ∈ ep.failures, g.hasFailed id = true
  kept : ∀ w, g.memory.workflow? c.workflow.id = some w → w = c.workflow

variable {past : List Episode}

theorem hasFailed_of_mem {id : String} (hid : id ∈ ep.failures) :
    ep.after.hasFailed id = true ∧ ep.before.hasFailed id = false := by
  have hfails := (List.mem_filter.1 hid).2
  simpa using hfails

theorem conforms_stands (hc : c.IsFirst) (hlineage : F.Lineage c ep.before hand)
    (hfailed : ∀ earlier ∈ past, ∀ id ∈ earlier.failures, ep.before.hasFailed id = true)
    (hkept : ∀ w, ep.before.memory.workflow? c.workflow.id = some w → w = c.workflow)
    (hgrow : Family.ofEpisodes (past ++ [ep]) = F.grow ep caused) (hupshot : Upshot setup Starts ep)
    (hnumbered : ep.after.schedule.Numbered hand')
    (hlater : ep.before.schedule.Later hand ep.after.schedule hand')
    (hworkflows : ep.after.memory.workflows = ep.before.memory.workflows)
    (hdue : caused = true → F.Due c Starts ep.before hand) :
    Conforms setup c past ep ∧ Stands c (past ++ [ep]) ep.after hand' := by
  obtain ⟨hlineage', hrepeats⟩ := hlineage.grow hc hupshot hnumbered hlater hkept hdue
  rw [← hgrow] at hlineage' hrepeats
  refine ⟨⟨hlineage'.length_le, fun i id hid => ?_, hupshot.one, fun id hid earlier hearlier hid' => ?_,
    fun id hid hmember job hjob => ?_⟩, hnumbered, hlineage', fun earlier hearlier id hid => ?_, ?_⟩
  · obtain ⟨f, hstored, hbrings, -⟩ := hlineage'.member i id hid
    exact ⟨f, hstored, hbrings, Execution.retryCount_of_retried hc.fresh hbrings.context_eq⟩
  · have hopen := (hasFailed_of_mem hid).2
    rw [hfailed earlier hearlier id hid'] at hopen
    cases hopen
  · obtain ⟨f, hstored, hstatus, hretries⟩ := hrepeats id hid hmember job hjob
    obtain ⟨i, hi, hget⟩ := List.getElem_of_mem hmember
    obtain ⟨f', hstored', hbrings, -⟩ := hlineage'.member i id (List.getElem?_eq_some_iff.2 ⟨hi, hget⟩)
    obtain rfl := Option.some.inj (hstored.symm.trans hstored')
    exact ⟨f, hstored, hstatus, hretries.repeats hc hbrings⟩
  · obtain hearlier | hearlier := List.mem_append.1 hearlier
    · exact hupshot.hasFailed (hfailed earlier hearlier id hid)
    · obtain rfl := List.mem_singleton.1 hearlier
      exact (hasFailed_of_mem hid).1
  · intro w hw
    rw [Memory.workflow?, hworkflows] at hw
    exact hkept w hw

theorem Stands.step (hc : c.IsFirst) (hpast : past ≠ []) (hstands : Stands c past ep.before hand)
    (hupshot : Upshot setup Starts ep) (hnumbered : ep.after.schedule.Numbered hand')
    (hlater : ep.before.schedule.Later hand ep.after.schedule hand')
    (hworkflows : ep.after.memory.workflows = ep.before.memory.workflows)
    (hdue : (Family.ofEpisodes past).causes ep = true →
      (Family.ofEpisodes past).Due c Starts ep.before hand) :
    Conforms setup c past ep ∧ Stands c (past ++ [ep]) ep.after hand' :=
  conforms_stands hc hstands.lineage hstands.failed hstands.kept (Family.ofEpisodes_concat hpast ep) hupshot
    hnumbered hlater hworkflows hdue

/-- A job of a family that is delivered is its only one, and runs its workflow once more. -/
theorem Stands.due {job : Job Float Value} (hstands : Stands c past g (job :: hand)) {h : Engine}
    (hcauses : (Family.ofEpisodes past).causes ⟨g, h, some job⟩ = true) :
    (Family.ofEpisodes past).Due c ((Operation.runJob job.payload).Starts g) g hand := by
  have hmem : job.number ∈ (Family.ofEpisodes past).jobs := by simpa [Family.causes] using hcauses
  obtain ⟨hready, hcontinues, hone⟩ := hstands.lineage.waits job (List.mem_cons_self ..) hmem
  refine ⟨hready, fun other hother hmem' => ?_, ?_⟩
  · exact hstands.numbered.tail.2 other hother (hone other (List.mem_cons_of_mem job hother) hmem')
  · intro w trigger context hstarts
    cases hstarts with
    | runJob payload id w hw trigger context hruns =>
      obtain ⟨rfl, rfl, rfl⟩ := hcontinues id trigger context hruns
      exact ⟨hstands.kept w hw, Value.asEntries_orElse_map _, Value.asEntries_orElse_map _⟩

theorem Stands.tail {job : Job Float Value} (hstands : Stands c past g (job :: hand)) :
    Stands c past g hand := by
  refine ⟨hstands.numbered.tail.1, ⟨hstands.lineage.number_le, hstands.lineage.member,
    hstands.lineage.length_le, fun other hother hmem => ?_⟩, hstands.failed, hstands.kept⟩
  obtain ⟨hready, hcontinues, hone⟩ := hstands.lineage.waits other (List.mem_cons_of_mem job hother) hmem
  exact ⟨hready, hcontinues, fun other' hother' => hone other' (List.mem_cons_of_mem job hother')⟩

theorem Stands.takeDue (hc : c.IsFirst) (hpast : past ≠ []) (hstands : Stands c past g []) {time : Float}
    {taken : List (Job Float Value)}
    (htaken : (taken ++ (g.takeDue time).schedule.jobs).Sublist g.schedule.jobs) :
    Conforms setup c past ⟨g, g.takeDue time, none⟩ ∧
      Stands c (past ++ [⟨g, g.takeDue time, none⟩]) (g.takeDue time) taken := by
  have hupshot : Upshot setup (fun _ _ _ => False) ⟨g, g.takeDue time, none⟩ :=
    upshot_takeDue hstands.numbered time
  exact hstands.step hc hpast hupshot (hstands.numbered.sublist rfl htaken)
    (Schedule.later_of_sublist rfl htaken) rfl nofun

theorem conforms_cons {rest : List Episode} (hfirst : Conforms setup c past ep)
    (hrest : ∀ before ep' later, rest = before ++ ep' :: later →
      Conforms setup c (past ++ [ep] ++ before) ep') :
    ∀ before ep' later, ep :: rest = before ++ ep' :: later → Conforms setup c (past ++ before) ep' := by
  intro before ep' later hsplit
  cases before with
  | nil =>
    obtain ⟨rfl, -⟩ := List.cons.inj hsplit
    rwa [List.append_nil]
  | cons first before =>
    obtain ⟨rfl, hsplit'⟩ := List.cons.inj hsplit
    have hconforms := hrest before ep' later hsplit'
    rwa [List.append_assoc] at hconforms

theorem Unfolds.conforms (hc : c.IsFirst) {allowed : Operation → Prop} {episodes : List Episode} {h : Engine}
    (hunfolds : Unfolds setup allowed g hand episodes h) (hpast : past ≠ [])
    (hstands : Stands c past g hand) :
    ∀ before ep later, episodes = before ++ ep :: later → Conforms setup c (past ++ before) ep := by
  induction hunfolds generalizing past with
  | nil g => exact fun before ep later hnone => by simp at hnone
  | @deed g h rest op hg hallowed hdeed hrest ih =>
    obtain ⟨new, hgains⟩ := hdeed.gains
    have hupshot : Upshot setup (op.Starts g) ⟨g, g.after setup op, none⟩ := hdeed.upshot hg hstands.numbered
    obtain ⟨hconforms, hstands'⟩ := hstands.step hc hpast hupshot (hstands.numbered.gains hgains)
      (hgains.later []) (after_steps hg op).workflows nofun
    exact conforms_cons hconforms (ih (by simp) hstands')
  | @drop g h rest time hrest ih =>
    obtain ⟨hconforms, hstands'⟩ := hstands.takeDue hc hpast (sublist_dropped g time)
    exact conforms_cons hconforms (ih (by simp) hstands')
  | @take g h rest time hrest ih =>
    obtain ⟨hconforms, hstands'⟩ := hstands.takeDue hc hpast (sublist_taken g time)
    exact conforms_cons hconforms (ih (by simp) hstands')
  | @deliver g h hand rest job hg hdeed hrest ih =>
    obtain ⟨new, hgains⟩ := hdeed.gains
    have htail := hstands.tail
    have hupshot : Upshot setup ((Operation.runJob job.payload).Starts g) ⟨g, g.deliver setup job, some job⟩ :=
      hdeed.upshot hg hstands.numbered
    obtain ⟨hconforms, hstands'⟩ := htail.step hc hpast hupshot (htail.numbered.gains hgains)
      (hgains.later hand) (deliver_moves hg job).steps.workflows hstands.due
    exact conforms_cons hconforms (ih (by simp) hstands')

/-- A caller runs a workflow. However its execution goes on, and whatever else is done, the workflow is run
again no more often than it allows. -/
theorem retries_bounded {allowed : Operation → Prop} (hreached : Reached setup allowed g) (w : Workflow)
    (hkept : ∀ w', g.memory.workflow? w.id = some w' → w' = w) (m : Nat)
    (hm : (w.setting "max_retries").asInt = .ok m) (trigger context : Value)
    (data entries : List (Scalar × Value))
    (htrigger : (trigger.orElse (.map [])).asEntries = .ok data)
    (hcontext : (context.orElse (.map [])).asEntries = .ok entries)
    (hfresh : Entries.get? entries (.str "retry_count") = none) (ops : List Operation) :
    ∀ past ep later, chronicle setup g (.execute w trigger context :: ops) = past ++ ep :: later →
      Conforms setup ⟨w, m, data, entries⟩ past ep := by
  have hg := hreached.kept
  have hc : Cause.IsFirst ⟨w, m, data, entries⟩ := ⟨hm, hfresh⟩
  have hdeed : Deed setup ((Operation.execute w trigger context).Starts g) g
      (g.after setup (.execute w trigger context)) := (Work.execute_does (.execute w trigger context)).state
  obtain ⟨new, hgains⟩ := hdeed.gains
  have hlineage : Family.Lineage ⟨w, m, data, entries⟩ g [] ⟨[], []⟩ :=
    ⟨nofun, nofun, Nat.zero_le _, nofun⟩
  have hdue : Family.Due ⟨w, m, data, entries⟩ ((Operation.execute w trigger context).Starts g) g []
      ⟨[], []⟩ := by
    refine ⟨⟨Nat.zero_le _, nofun⟩, fun _ _ => nofun, ?_⟩
    rintro _ _ _ ⟨⟩
    exact ⟨rfl, htrigger, hcontext⟩
  have hupshot : Upshot setup ((Operation.execute w trigger context).Starts g)
      ⟨g, g.after setup (.execute w trigger context), none⟩ := hdeed.upshot hg hreached.numbered
  obtain ⟨hconforms, hstands⟩ : Conforms setup ⟨w, m, data, entries⟩ [] _ ∧
      Stands ⟨w, m, data, entries⟩ ([] ++ [_]) _ [] :=
    conforms_stands hc hlineage nofun hkept rfl hupshot (hreached.numbered.gains hgains) (hgains.later [])
      (after_steps hg (.execute w trigger context)).workflows fun _ => hdue
  have hrest : Unfolds setup (fun _ => True) (g.after setup (.execute w trigger context)) []
      (chronicle setup (g.after setup (.execute w trigger context)) ops)
      ((g.after setup (.execute w trigger context)).run setup ops) :=
    unfolds_chronicle ((after_steps hg (.execute w trigger context)).kept hg) fun _ _ => trivial
  exact conforms_cons hconforms (hrest.conforms hc (by simp) hstands)

/-- A workflow that always fails, and is run again once after a minute. -/
def fragile : Workflow := .ofNodes
  [⟨"begin", "start", .map [], .null, .null⟩, ⟨"break", "unheard of", .map [], .null, .null⟩]
  [⟨"begin", "break", .null, .null⟩]
  [(.str "max_retries", .int 1), (.str "retry_strategy", .str "fixed")]

/-- It is run, and what is due is run a minute later and an hour later. -/
def breaking : List Operation :=
  let soon : Moment := ⟨⟨2024, 6, 15⟩, 12, 1, 0, 0, some 0⟩
  let late : Moment := ⟨⟨2024, 6, 15⟩, 13, 0, 0, 0, some 0⟩
  [.setClock soon, .runDue soon.timestamp, .setClock late, .runDue late.timestamp]

theorem retries_bounded_fragile :
    let story := chronicle (.ofActions []) (knowing fragile) (.execute fragile .null .null :: breaking)
    Family.ofEpisodes story = ⟨["exec-1", "exec-2"], [1]⟩ ∧
      story.map Episode.failures = [["exec-1"], [], [], ["exec-2"], [], []] ∧
      story.map (fun ep => ep.retries.map (·.number)) = [[1], [], [], [], [], []] ∧
      ∀ past ep later, story = past ++ ep :: later → Conforms (.ofActions []) ⟨fragile, 1, [], []⟩ past ep := by
  have hkept : ∀ w, (knowing fragile).memory.workflow? fragile.id = some w → w = fragile := fun w hw =>
    (Option.some.inj hw).symm
  refine ⟨by decide +kernel, by decide +kernel, by decide +kernel, ?_⟩
  exact retries_bounded (reached_knowing [] (fun _ => True) fragile) fragile hkept 1 rfl .null .null [] [] rfl
    rfl rfl breaking

end Engine

end Flowline
