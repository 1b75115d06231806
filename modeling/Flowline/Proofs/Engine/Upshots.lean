import Flowline.Proofs.Engine.Deeds
import Flowline.Proofs.Schedule

/-! # What an episode comes to

An episode concerns one execution at most, which is started then or was not over before. Only if it fails, a job
is scheduled to run a workflow, and that is one job at most. -/

namespace Flowline

/-! ## Numbers of jobs -/

namespace Schedule
variable {τ π : Type} {s t u : Schedule τ π} {hand new new' : List (Job τ π)}

/-- The jobs that wait, and those in hand, have numbers that were given out once. -/
structure Numbered (s : Schedule τ π) (hand : List (Job τ π)) : Prop where
  nodup : ((hand ++ s.jobs).map Job.number).Nodup
  le : ∀ j ∈ hand ++ s.jobs, j.number ≤ s.count

/-- Some jobs were scheduled, under new numbers. -/
structure Gains (s t : Schedule τ π) (new : List (Job τ π)) : Prop where
  jobs : t.jobs.Perm (new ++ s.jobs)
  count_le : s.count ≤ t.count
  fresh : ∀ j ∈ new, s.count < j.number ∧ j.number ≤ t.count
  nodup : (new.map Job.number).Nodup

theorem gains_refl (s : Schedule τ π) : Gains s s [] := ⟨.refl _, Nat.le_refl _, nofun, .nil⟩

theorem Gains.trans (h : Gains s t new) (h' : Gains t u new') : Gains s u (new' ++ new) where
  jobs := by
    rw [List.append_assoc]
    exact h'.jobs.trans (h.jobs.append_left new')
  count_le := h.count_le.trans h'.count_le
  fresh j hj := by
    have hle := h.count_le
    have hle' := h'.count_le
    obtain hj | hj := List.mem_append.1 hj
    · have := h'.fresh j hj
      omega
    · have := h.fresh j hj
      omega
  nodup := by
    rw [List.map_append, List.nodup_append]
    refine ⟨h'.nodup, h.nodup, ?_⟩
    intro n hn n' hn'
    obtain ⟨j', hj', rfl⟩ := List.mem_map.1 hn
    obtain ⟨j, hj, rfl⟩ := List.mem_map.1 hn'
    have hlate := (h'.fresh j' hj').1
    have hearly := (h.fresh j hj).2
    omega

theorem Numbered.gains (h : s.Numbered hand) (hgains : Gains s t new) : t.Numbered hand where
  nodup := by
    have hperm : (hand ++ t.jobs).Perm (new ++ (hand ++ s.jobs)) :=
      (hgains.jobs.append_left hand).trans (by
        rw [← List.append_assoc, ← List.append_assoc]
        exact List.perm_append_comm.append_right s.jobs)
    rw [(hperm.map _).nodup_iff, List.map_append, List.nodup_append]
    refine ⟨hgains.nodup, h.nodup, ?_⟩
    intro n hn n' hn'
    obtain ⟨j, hj, rfl⟩ := List.mem_map.1 hn
    obtain ⟨j', hj', rfl⟩ := List.mem_map.1 hn'
    have hlate := (hgains.fresh j hj).1
    have hearly := h.le j' hj'
    omega
  le j hj := by
    have hle := hgains.count_le
    obtain hj | hj := List.mem_append.1 hj
    · have := h.le j (List.mem_append_left _ hj)
      omega
    · obtain hj | hj := List.mem_append.1 (hgains.jobs.mem_iff.1 hj)
      · exact (hgains.fresh j hj).2
      · have := h.le j (List.mem_append_right _ hj)
        omega

/-- The jobs with new numbers are those that were scheduled. -/
theorem Numbered.filter_perm (h : s.Numbered hand) (hgains : Gains s t new) (p : π → Bool) :
    (t.jobs.filter fun j => s.count < j.number && p j.payload).Perm (new.filter fun j => p j.payload) := by
  refine (hgains.jobs.filter _).trans (.of_eq ?_)
  have hold : (s.jobs.filter fun j => s.count < j.number && p j.payload) = [] := by
    refine List.filter_eq_nil_iff.2 fun j hj => ?_
    have := h.le j (List.mem_append_right _ hj)
    simp only [Bool.and_eq_true, decide_eq_true_eq, not_and]
    omega
  have hnew : (new.filter fun j => s.count < j.number && p j.payload) = new.filter fun j => p j.payload := by
    refine List.filter_congr fun j hj => ?_
    rw [decide_eq_true (hgains.fresh j hj).1, Bool.true_and]
  rw [List.filter_append, hold, hnew, List.append_nil]

/-- A job is in hand or waits, and no other one has its number. -/
theorem Numbered.tail {j : Job τ π} (h : s.Numbered (j :: hand)) :
    s.Numbered hand ∧ ∀ j' ∈ hand ++ s.jobs, j'.number ≠ j.number := by
  obtain ⟨hnew, hnodup⟩ := List.nodup_cons.1 h.nodup
  exact ⟨⟨hnodup, fun j' hj' => h.le j' (List.mem_cons_of_mem j hj')⟩,
    fun j' hj' hnumber => hnew (hnumber ▸ List.mem_map_of_mem hj')⟩

/-- The jobs that wait or are in hand later on are old ones, but for those with new numbers. -/
structure Later (s : Schedule τ π) (hand : List (Job τ π)) (t : Schedule τ π) (hand' : List (Job τ π)) :
    Prop where
  count_le : s.count ≤ t.count
  waited : ∀ j ∈ hand' ++ t.jobs, j.number ≤ s.count → j ∈ hand ++ s.jobs

theorem Gains.later (hgains : Gains s t new) (hand : List (Job τ π)) : Later s hand t hand where
  count_le := hgains.count_le
  waited j hj hold := by
    obtain hj | hj := List.mem_append.1 hj
    · exact List.mem_append_left _ hj
    · obtain hj | hj := List.mem_append.1 (hgains.jobs.mem_iff.1 hj)
      · have := (hgains.fresh j hj).1
        omega
      · exact List.mem_append_right _ hj

/-- Jobs are taken in hand, or dropped. -/
theorem later_of_sublist (hcount : t.count = s.count) (hjobs : (hand ++ t.jobs).Sublist s.jobs) :
    Later s [] t hand :=
  ⟨hcount.ge, fun _ hj _ => hjobs.subset hj⟩

theorem Numbered.sublist (h : s.Numbered []) (hcount : t.count = s.count)
    (hjobs : (hand ++ t.jobs).Sublist s.jobs) : t.Numbered hand where
  nodup := h.nodup.sublist (hjobs.map _)
  le j hj := hcount ▸ h.le j (hjobs.subset hj)

variable [LT τ] [DecidableLT τ] {P : π → Prop}

theorem gains_add (s : Schedule τ π) (runAt : τ) (payload : π) :
    Gains s (s.add runAt payload).2 [(s.add runAt payload).1] where
  jobs := place_perm
  count_le := Nat.le_succ _
  fresh j hj := by
    obtain rfl := List.mem_singleton.1 hj
    exact ⟨Nat.lt_succ_self _, Nat.le_refl _⟩
  nodup := List.nodup_singleton _

theorem Grows.gains (hgrows : s.Grows P t) : ∃ new, Gains s t new ∧ ∀ j ∈ new, P j.payload := by
  induction hgrows with
  | refl => exact ⟨[], gains_refl s, nofun⟩
  | tail _ hstep ih =>
    obtain ⟨new, hgains, hnew⟩ := ih
    obtain ⟨runAt, payload, hP, rfl⟩ := hstep
    refine ⟨_, hgains.trans (gains_add _ runAt payload), fun j hj => ?_⟩
    obtain rfl | hj := List.mem_cons.1 hj
    · exact hP
    · exact hnew j hj

end Schedule

/-! ## Episodes -/

/-- A payload runs a workflow. -/
def Value.isRun : Value → Bool
  | .map entries =>
    match Entries.get? entries (.str "action") with
    | some (.str "execute_workflow") => true
    | _ => false
  | _ => false

theorem Value.Resumes.isRun {payload : Value} (h : payload.Resumes) : payload.isRun = false := by
  obtain ⟨e, x, rfl⟩ := h
  rfl

theorem Work.isRun_retryPayload (w : Workflow) (f : Execution) (retries : Int) :
    (Work.retryPayload w f retries).isRun = true := rfl

/-- The execution that is kept under an id has failed. -/
def Engine.hasFailed (g : Engine) (id : String) : Bool := (g.stored? id).any (·.status == .failed)

namespace Episode

/-- The executions that were started. -/
def births (ep : Episode) : List String :=
  ep.after.memory.executions.keys.filter fun id => (ep.before.stored? id).isNone

/-- The executions that have failed. -/
def failures (ep : Episode) : List String :=
  ep.after.memory.executions.keys.filter fun id => ep.after.hasFailed id && !ep.before.hasFailed id

/-- The jobs that were scheduled to run workflows. -/
def retries (ep : Episode) : List (Job Float Value) :=
  ep.after.schedule.jobs.filter fun job => ep.before.schedule.count < job.number && job.payload.isRun

/-- All that is different in what is kept is one execution. -/
structure Saves (ep : Episode) (f : Execution) : Prop where
  nodup : ep.after.memory.executions.keys.Nodup
  stored : ∀ id, ep.after.stored? id = if id = f.id then some f else ep.before.stored? id

theorem filter_eq_singleton {l : List String} {p : String → Bool} {a : String} (hl : l.Nodup)
    (h : ∀ x, x ∈ l ∧ p x = true ↔ x = a) : l.filter p = [a] := by
  refine List.perm_singleton.1 ((List.perm_ext_iff_of_nodup (hl.filter p) (List.nodup_singleton a)).2 ?_)
  intro x
  rw [List.mem_filter, h, List.mem_singleton]

variable {ep : Episode} {f : Execution} {hand new : List (Job Float Value)}

theorem Saves.mem_keys (hsaves : ep.Saves f) (id : String) :
    id ∈ ep.after.memory.executions.keys ↔ id = f.id ∨ (ep.before.stored? id).isSome := by
  rw [Table.mem_keys_iff]
  change (ep.after.stored? id).isSome ↔ _
  rw [hsaves.stored]
  split
  · next hid => simp [hid]
  · next hid => simp [hid]

theorem Saves.births_new (hsaves : ep.Saves f) (hnew : ep.before.stored? f.id = none) : ep.births = [f.id] := by
  refine filter_eq_singleton hsaves.nodup fun id => ?_
  rw [hsaves.mem_keys]
  constructor
  · rintro ⟨rfl | hold, hnone⟩
    · rfl
    · simp_all
  · rintro rfl
    simp [hnew]

theorem Saves.births_kept (hsaves : ep.Saves f) (hkept : (ep.before.stored? f.id).isSome) : ep.births = [] := by
  refine List.filter_eq_nil_iff.2 fun id hid hnone => ?_
  obtain rfl | hold := (hsaves.mem_keys id).1 hid
  · simp_all
  · simp_all

theorem Saves.hasFailed (hsaves : ep.Saves f) (id : String) :
    ep.after.hasFailed id = if id = f.id then f.status == .failed else ep.before.hasFailed id := by
  rw [Engine.hasFailed, hsaves.stored]
  split
  · rfl
  · rfl

theorem Saves.failures_failed (hsaves : ep.Saves f) (hstatus : f.status = .failed)
    (hbefore : ep.before.hasFailed f.id = false) : ep.failures = [f.id] := by
  refine filter_eq_singleton hsaves.nodup fun id => ?_
  rw [hsaves.mem_keys, hsaves.hasFailed]
  constructor
  · rintro ⟨-, hfails⟩
    split at hfails
    · assumption
    · simp at hfails
  · rintro rfl
    simp [hstatus, hbefore]

theorem Saves.failures_other (hsaves : ep.Saves f) (hstatus : f.status ≠ .failed) : ep.failures = [] := by
  refine List.filter_eq_nil_iff.2 fun id _ hfails => ?_
  rw [hsaves.hasFailed] at hfails
  split at hfails
  · simp [hstatus] at hfails
  · simp at hfails

theorem mem_of_mem_retries {job : Job Float Value} (hjob : job ∈ ep.retries) : job ∈ ep.after.schedule.jobs :=
  (List.mem_filter.1 hjob).1

theorem retries_eq_nil (hnumbered : ep.before.schedule.Numbered hand)
    (hgains : Schedule.Gains ep.before.schedule ep.after.schedule new)
    (hnew : ∀ j ∈ new, j.payload.Resumes) : ep.retries = [] := by
  have hperm := hnumbered.filter_perm hgains Value.isRun
  have hnone : (new.filter fun j => j.payload.isRun) = [] :=
    List.filter_eq_nil_iff.2 fun j hj => by simp [(hnew j hj).isRun]
  rw [hnone] at hperm
  exact hperm.eq_nil

theorem retries_of_same (hnumbered : ep.before.schedule.Numbered hand)
    (hschedule : ep.after.schedule = ep.before.schedule) : ep.retries = [] := by
  have hgains : Schedule.Gains ep.before.schedule ep.after.schedule [] := by
    rw [hschedule]
    exact Schedule.gains_refl _
  exact retries_eq_nil hnumbered hgains nofun

theorem retries_eq_singleton (hnumbered : ep.before.schedule.Numbered hand) {j : Job Float Value}
    (hgains : Schedule.Gains ep.before.schedule ep.after.schedule [j]) (hj : j.payload.isRun = true) :
    ep.retries = [j] := by
  have hperm := hnumbered.filter_perm hgains Value.isRun
  have hone : ([j].filter fun j => j.payload.isRun) = [j] := by simp [hj]
  rw [hone] at hperm
  exact List.perm_singleton.1 hperm

end Episode

/-- A job runs the workflow of a failed execution again, as its policy allows. -/
structure Job.Retries (setup : Setup) (w : Workflow) (f : Execution) (job : Job Float Value) : Prop where
  terms : ∃ policy retries delay time, RetryPolicy.ofSettings w.settings = .ok policy ∧
    f.retryCount = .ok retries ∧ policy.allows retries = true ∧
    policy.delay retries setup.share = .ok delay ∧ f.completedAt? = some time ∧
    job.runAt = time.timestamp + delay ∧ job.payload = Work.retryPayload w f (retries + 1)

/-- The execution that an episode concerns. It is started, or it was kept and not over. Its workflow is known
where it is run. -/
inductive Concerns (Starts : Workflow → Value → Value → Prop) (ep : Episode) (e : Execution) :
    Option Workflow → Prop
  | start (w : Workflow) (trigger context : Value) (hstarts : Starts w trigger context)
    (hnew : ep.before.stored? e.id = none) (hworkflow : e.workflowId = w.id)
    (htrigger : (trigger.orElse (.map [])).asEntries = .ok e.trigger)
    (hcontext : (context.orElse (.map [])).asEntries = .ok e.context) (hbirths : ep.births = [e.id]) :
    Concerns Starts ep e (some w)
  | kept (w? : Option Workflow) (hstored : ep.before.stored? e.id = some e)
    (hopen : e.status.isTerminal = false)
    (hw : ∀ w, w? = some w → ep.before.memory.workflow? e.workflowId = some w) (hbirths : ep.births = []) :
    Concerns Starts ep e w?

/-- What an episode comes to. -/
inductive Upshot (setup : Setup) (Starts : Workflow → Value → Value → Prop) (ep : Episode) : Prop
  | idle (hstored : ∀ id, ep.after.stored? id = ep.before.stored? id) (hbirths : ep.births = [])
    (hfailures : ep.failures = []) (hretries : ep.retries = [])
  | settle (w? : Option Workflow) (e f : Execution) (hconcerns : Concerns Starts ep e w?)
    (htask : e.SameTask f) (hsaves : ep.Saves f) (hstatus : f.status ≠ .failed) (hfailures : ep.failures = [])
    (hretries : ep.retries = [])
  | fail (w? : Option Workflow) (e f : Execution) (hconcerns : Concerns Starts ep e w?)
    (htask : e.SameTask f) (hsaves : ep.Saves f) (hstatus : f.status = .failed)
    (hfailures : ep.failures = [f.id])
    (hretries : ep.retries = [] ∨ ∃ w job, w? = some w ∧ ep.retries = [job] ∧ job.Retries setup w f)

namespace Engine
open Work

variable {setup : Setup} {w : Workflow} {e : Execution} {g g₁ h : Engine} {s t : Schedule Float Value}
  {hand new : List (Job Float Value)} {ep : Episode} {Starts : Workflow → Value → Value → Prop}

theorem Retried.gains {f : Execution} (hretried : Retried setup w f s t) :
    ∃ job : Job Float Value, s.Gains t [job] ∧ job.payload.isRun = true ∧ job.Retries setup w f := by
  obtain ⟨policy, retries, delay, time, hpolicy, hcount, hallows, hdelay, htime, rfl⟩ := hretried.job
  refine ⟨_, Schedule.gains_add s _ _, Work.isRun_retryPayload w f _, ?_⟩
  exact ⟨policy, retries, delay, time, hpolicy, hcount, hallows, hdelay, htime, rfl, rfl⟩

theorem upshot_idle (hmemory : ep.after.memory = ep.before.memory) (hretries : ep.retries = []) :
    Upshot setup Starts ep := by
  have hstored (id : String) : ep.after.stored? id = ep.before.stored? id := stored?_of_memory hmemory id
  refine .idle hstored ?_ ?_ hretries
  · refine List.filter_eq_nil_iff.2 fun id hid hnone => ?_
    have hsome := Table.mem_keys_iff.1 hid
    change (ep.after.stored? id).isSome = true at hsome
    rw [hstored] at hsome
    simp_all
  · refine List.filter_eq_nil_iff.2 fun id _ hfails => ?_
    rw [hasFailed, hasFailed, hstored] at hfails
    simp at hfails

/-- Jobs are only taken from the schedule. -/
theorem upshot_takeDue (hnumbered : g.schedule.Numbered []) (time : Float) :
    Upshot setup Starts ⟨g, g.takeDue time, none⟩ := by
  refine upshot_idle rfl (List.filter_eq_nil_iff.2 fun job hjob => ?_)
  have hold := hnumbered.le job ((List.dropWhile_suffix _).subset hjob)
  simp only [Bool.and_eq_true, decide_eq_true_eq, not_and]
  omega

/-- One execution may have been started before it was saved at the end. -/
theorem saves_of_memory {f : Execution} (hkeys : g₁.memory.executions.keys.Nodup)
    (hsame : ∀ id, id ≠ f.id → g₁.stored? id = ep.before.stored? id)
    (hmemory : ep.after.memory = g₁.memory.saveExecution f) : ep.Saves f where
  nodup := by
    rw [hmemory]
    exact Table.nodup_put f.id f hkeys
  stored id := by
    rw [stored?_save hmemory]
    split
    · rfl
    · next hne => exact hsame id hne

theorem Ending.upshot (hending : Ending setup w e g₁ ep.after)
    (hnumbered : ep.before.schedule.Numbered hand) (hschedule : g₁.schedule = ep.before.schedule)
    (hkeys : g₁.memory.executions.keys.Nodup)
    (hsame : ∀ id, id ≠ e.id → g₁.stored? id = ep.before.stored? id)
    (hbefore : ep.before.hasFailed e.id = false)
    (hconcerns : ∀ f, e.SameTask f → ep.Saves f → Concerns Starts ep e (some w))
    (hstrand : ep.after.memory = g₁.memory → ep.retries = [] → Upshot setup Starts ep) :
    Upshot setup Starts ep := by
  have resumes {t : Schedule Float Value} (hgrows : g₁.schedule.Grows Value.Resumes t)
      (ht : ep.after.schedule = t) : ep.retries = [] := by
    obtain ⟨new, hgains, hnew⟩ := hgrows.gains
    rw [hschedule, ← ht] at hgains
    exact Episode.retries_eq_nil hnumbered hgains hnew
  have saves {f : Execution} (htask : e.SameTask f)
      (hmemory : ep.after.memory = g₁.memory.saveExecution f) : ep.Saves f :=
    saves_of_memory hkeys (fun id hne => hsame id (htask.id_eq ▸ hne)) hmemory
  cases hending with
  | strand t hgrows hbooks => exact hstrand hbooks.memory (resumes hgrows hbooks.schedule)
  | settle f htask hstatus t hgrows hbooks =>
    have hsaves := saves htask hbooks.memory
    exact .settle (some w) e f (hconcerns f htask hsaves) htask hsaves hstatus
      (hsaves.failures_other hstatus) (resumes hgrows hbooks.schedule)
  | fail f htask hstatus t hretry hbooks =>
    have hsaves := saves htask hbooks.memory
    have ht : ep.after.schedule = t := hbooks.schedule
    have hfailures := hsaves.failures_failed hstatus (htask.id_eq ▸ hbefore)
    refine .fail (some w) e f (hconcerns f htask hsaves) htask hsaves hstatus hfailures ?_
    rw [hschedule, ← ht] at hretry
    obtain hnone | hretried := hretry
    · exact .inl (Episode.retries_of_same hnumbered hnone)
    · obtain ⟨job, hgains, hrun, hretries⟩ := hretried.gains
      exact .inr ⟨w, job, rfl, Episode.retries_eq_singleton hnumbered hgains hrun, hretries⟩

theorem hasFailed_of_open (hstored : g.stored? e.id = some e) (hopen : e.status.isTerminal = false) :
    g.hasFailed e.id = false := by
  rw [hasFailed, hstored]
  cases hstatus : e.status with
  | failed =>
    rw [hstatus] at hopen
    cases hopen
  | _ => simp [hstatus]

theorem Deed.upshot {job? : Option (Job Float Value)} (hg : g.Kept setup) (hnumbered : g.schedule.Numbered hand)
    (hdeed : Deed setup Starts g h) : Upshot setup Starts ⟨g, h, job?⟩ := by
  have idle (hmemory : h.memory = g.memory) (hschedule : h.schedule = g.schedule) :
      Upshot setup Starts ⟨g, h, job?⟩ := upshot_idle hmemory (Episode.retries_of_same hnumbered hschedule)
  cases hdeed with
  | quiet hbooks => exact idle hbooks.memory hbooks.schedule
  | refuse w trigger context hstarts fault hrefused => exact idle hrefused.same.1 hrefused.same.2
  | start w trigger context hstarts e g₁ hstarting hending =>
    have hnew : g.stored? e.id = none := hstarting.stored?_eq_none hg
    have hkeys : g₁.memory.executions.keys.Nodup := by
      rw [hstarting.memory]
      exact Table.nodup_put e.id e hg.keys
    have hconcerns (f : Execution) (htask : e.SameTask f) (hsaves : Episode.Saves ⟨g, h, job?⟩ f) :
        Concerns Starts ⟨g, h, job?⟩ e (some w) := by
      refine .start w trigger context hstarts hnew hstarting.workflowId_eq hstarting.trigger_eq
        hstarting.context_eq ?_
      rw [hsaves.births_new (htask.id_eq ▸ hnew), htask.id_eq]
    refine hending.upshot hnumbered hstarting.schedule hkeys ?_ ?_ hconcerns ?_
    · exact fun id hne => stored?_save_of_ne hstarting.memory hne
    · simp [hasFailed, hnew]
    · intro hmemory hretries
      have hsaves : Episode.Saves ⟨g, h, job?⟩ e :=
        saves_of_memory hg.keys (fun _ _ => rfl) (hmemory.trans hstarting.memory)
      have hstatus : e.status ≠ .failed := by
        rw [hstarting.status_eq]
        exact nofun
      exact .settle (some w) e e (hconcerns e (.refl e) hsaves) (.refl e) hsaves hstatus
        (hsaves.failures_other hstatus) hretries
  | resume kept hstored hopen w hw hending =>
    refine hending.upshot hnumbered rfl hg.keys (fun _ _ => rfl)
      (hasFailed_of_open hstored hopen) (fun f htask hsaves => ?_) upshot_idle
    have hkept : (g.stored? f.id).isSome := by rw [htask.id_eq, hstored]; rfl
    refine .kept (some w) hstored hopen (fun w' hw' => ?_) (hsaves.births_kept hkept)
    exact Option.some.inj hw' ▸ hw
  | close kept hstored hopen f htask hbooks =>
    have hsaves : Episode.Saves ⟨g, h, job?⟩ f := saves_of_memory hg.keys (fun _ _ => rfl) hbooks.memory
    have hkept : (g.stored? f.id).isSome := by rw [htask.id_eq, hstored]; rfl
    have hconcerns : Concerns Starts ⟨g, h, job?⟩ kept none :=
      .kept none hstored hopen nofun (hsaves.births_kept hkept)
    have hretries : Episode.retries ⟨g, h, job?⟩ = [] := Episode.retries_of_same hnumbered hbooks.schedule
    by_cases hstatus : f.status = .failed
    · have hbefore := hasFailed_of_open hstored hopen
      exact .fail none kept f hconcerns htask hsaves hstatus
        (hsaves.failures_failed hstatus (htask.id_eq ▸ hbefore)) (.inl hretries)
    · exact .settle none kept f hconcerns htask hsaves hstatus (hsaves.failures_other hstatus) hretries

theorem Ending.gains (hending : Ending setup w e g h) : ∃ new, g.schedule.Gains h.schedule new := by
  have grown {t : Schedule Float Value} (hgrows : g.schedule.Grows Value.Resumes t) (ht : h.schedule = t) :
      ∃ new, g.schedule.Gains h.schedule new := by
    obtain ⟨new, hgains, -⟩ := hgrows.gains
    exact ⟨new, ht ▸ hgains⟩
  cases hending with
  | strand t hgrows hbooks => exact grown hgrows hbooks.schedule
  | settle f htask hstatus t hgrows hbooks => exact grown hgrows hbooks.schedule
  | fail f htask hstatus t hretry hbooks =>
    have ht : h.schedule = t := hbooks.schedule
    rw [ht]
    obtain rfl | hretried := hretry
    · exact ⟨[], Schedule.gains_refl _⟩
    · obtain ⟨job, hgains, -⟩ := hretried.gains
      exact ⟨[job], hgains⟩

theorem Deed.gains (hdeed : Deed setup Starts g h) : ∃ new, g.schedule.Gains h.schedule new := by
  have same (hschedule : h.schedule = g.schedule) : ∃ new, g.schedule.Gains h.schedule new :=
    ⟨[], hschedule ▸ Schedule.gains_refl _⟩
  cases hdeed with
  | quiet hbooks => exact same hbooks.schedule
  | refuse w trigger context hstarts fault hrefused => exact same hrefused.same.2
  | start w trigger context hstarts e g₁ hstarting hending => exact hstarting.schedule ▸ hending.gains
  | resume kept hstored hopen w hw hending => exact hending.gains
  | close kept hstored hopen f htask hbooks => exact same hbooks.schedule

end Engine

/-! ## Jobs along a history -/

namespace Engine
variable {setup : Setup} {allowed : Operation → Prop} {g h : Engine} {hand : List (Job Float Value)}

theorem sublist_dropped (g : Engine) (time : Float) :
    ([] ++ (g.takeDue time).schedule.jobs).Sublist g.schedule.jobs :=
  (List.dropWhile_suffix _).sublist

theorem sublist_taken (g : Engine) (time : Float) :
    ((g.schedule.takeDue time).1 ++ (g.takeDue time).schedule.jobs).Sublist g.schedule.jobs := by
  have hall : (g.schedule.takeDue time).1 ++ (g.takeDue time).schedule.jobs = g.schedule.jobs :=
    List.takeWhile_append_dropWhile
  rw [hall]

theorem Unfolds.numbered {episodes : List Episode} (hunfolds : Unfolds setup allowed g hand episodes h)
    (hnumbered : g.schedule.Numbered hand) : h.schedule.Numbered [] := by
  induction hunfolds with
  | nil g => exact hnumbered
  | deed op hg hallowed hdeed hrest ih =>
    obtain ⟨new, hgains⟩ := hdeed.gains
    exact ih (hnumbered.gains hgains)
  | drop time hrest ih => exact ih (hnumbered.sublist rfl (sublist_dropped _ time))
  | take time hrest ih => exact ih (hnumbered.sublist rfl (sublist_taken _ time))
  | deliver job hg hdeed hrest ih =>
    obtain ⟨new, hgains⟩ := hdeed.gains
    exact ih (hnumbered.tail.1.gains hgains)

theorem Reached.numbered (hreached : Reached setup allowed g) : g.schedule.Numbered [] := by
  induction hreached with
  | start now tick workflows => exact ⟨.nil, nofun⟩
  | @step g op hg hop ih =>
    have hunfolds : Unfolds setup allowed g [] (chronicle setup g [op]) (g.run setup [op]) :=
      unfolds_chronicle hg.kept fun op' hop' => List.mem_singleton.1 hop' ▸ hop
    exact hunfolds.numbered ih

end Engine

/-! ## What stays -/

variable {setup : Setup} {Starts : Workflow → Value → Value → Prop} {ep : Episode} {e : Execution}
  {w? : Option Workflow}

theorem Concerns.not_failed (hconcerns : Concerns Starts ep e w?) : ep.before.hasFailed e.id = false := by
  cases hconcerns with
  | start w trigger context hstarts hnew => simp [Engine.hasFailed, hnew]
  | kept w? hstored hopen => exact Engine.hasFailed_of_open hstored hopen

/-- What is kept of an execution stays, with its task, and if it has failed as it is. -/
theorem Upshot.stored (hupshot : Upshot setup Starts ep) {id : String} {f : Execution}
    (hstored : ep.before.stored? id = some f) :
    ∃ f', ep.after.stored? id = some f' ∧ f.SameTask f' ∧ (f.status = .failed → f' = f) := by
  have saved {e f' : Execution} {w? : Option Workflow} (hconcerns : Concerns Starts ep e w?)
      (htask : e.SameTask f') (hsaves : ep.Saves f') :
      ∃ f', ep.after.stored? id = some f' ∧ f.SameTask f' ∧ (f.status = .failed → f' = f) := by
    by_cases hid : id = f'.id
    · obtain rfl : id = e.id := hid.trans htask.id_eq
      have hopen := hconcerns.not_failed
      refine ⟨f', by rw [hsaves.stored, if_pos hid], ?_, fun hfailed => ?_⟩
      · cases hconcerns with
        | start _ _ _ _ hnew => cases hnew.symm.trans hstored
        | kept _ hkept => exact Option.some.inj (hkept.symm.trans hstored) ▸ htask
      · simp [Engine.hasFailed, hstored, hfailed] at hopen
    · exact ⟨f, by rw [hsaves.stored, if_neg hid, hstored], .refl f, fun _ => rfl⟩
  cases hupshot with
  | idle hsame => exact ⟨f, (hsame id).trans hstored, .refl f, fun _ => rfl⟩
  | settle w? e f' hconcerns htask hsaves => exact saved hconcerns htask hsaves
  | fail w? e f' hconcerns htask hsaves => exact saved hconcerns htask hsaves

theorem Engine.hasFailed_iff {g : Engine} {id : String} :
    g.hasFailed id = true ↔ ∃ f, g.stored? id = some f ∧ f.status = .failed := by
  simp [Engine.hasFailed, Option.any_eq_true]

theorem Upshot.hasFailed (hupshot : Upshot setup Starts ep) {id : String}
    (hfailed : ep.before.hasFailed id = true) : ep.after.hasFailed id = true := by
  obtain ⟨f, hstored, hstatus⟩ := Engine.hasFailed_iff.1 hfailed
  obtain ⟨f', hstored', -, hsame⟩ := hupshot.stored hstored
  exact Engine.hasFailed_iff.2 ⟨f', hstored', hsame hstatus ▸ hstatus⟩

end Flowline
