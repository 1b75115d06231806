import Flowline.Proofs.Engine.Deeds
import Flowline.Proofs.RateLimiter
import Flowline.Proofs.Schedule

/-! # Limits on executions

An engine counts the executions that it starts of each workflow, in windows of a fixed length. Where workflows
have limits, what they are given are mappings, and the clock does not go back, no window has more executions of a
workflow than its limit. An execution is refused only when its workflow is not active or the window that is open
has its limit, and what is refused leaves no trace. -/

namespace Flowline

/-! ## Workflows with limits -/

/-- A workflow has a limit by its id, and its variables are a mapping. -/
structure Workflow.Limited (limit : String → Nat) (w : Workflow) : Prop where
  limit_eq : (w.setting "max_executions_per_hour").asInt = .ok (limit w.id)
  vars : ∃ entries, w.vars.mapping = .ok entries

/-- What a workflow can be given: a mapping, or what counts as an empty one. -/
def Value.IsGiven (v : Value) : Prop := ∃ entries, (v.orElse (.map [])).asEntries = .ok entries

theorem Value.isGiven_map (entries : List (Scalar × Value)) : IsGiven (.map entries) :=
  ⟨entries, asEntries_orElse_map entries⟩

/-- A payload gives workflows what they can be given. -/
def Value.Suits (payload : Value) : Prop :=
  ∀ id trigger context, payload.Runs id trigger context → trigger.IsGiven ∧ context.IsGiven

theorem Value.Resumes.suits {payload : Value} (h : payload.Resumes) : payload.Suits := by
  obtain ⟨e, x, rfl⟩ := h
  rintro id trigger context ⟨entries, hentries, haction, -⟩
  obtain rfl := Value.map.inj hentries
  have hresume : Entries.get? [(.str "action", .str "resume_execution"), (.str "execution_id", .str e.id),
    (.str "node_id", .str x)] (.str "action") = some (Value.str "resume_execution") := rfl
  have hother := hresume.symm.trans haction
  simp at hother

theorem Work.retryPayload_suits (w : Workflow) (e : Execution) (retries : Int) :
    (Work.retryPayload w e retries).Suits := by
  intro id trigger context hruns
  obtain ⟨-, rfl, rfl⟩ := runs_retryPayload.1 hruns
  exact ⟨Value.isGiven_map e.trigger, Value.isGiven_map _⟩

/-- The workflow that an operation runs has a limit, and is given what it can be given. -/
def Operation.Fits (limit : String → Nat) : Operation → Prop
  | .execute w trigger context => w.Limited limit ∧ trigger.IsGiven ∧ context.IsGiven
  | .executeById _ trigger context => trigger.IsGiven ∧ context.IsGiven
  | .runJob payload => payload.Suits
  | _ => True

/-- The length of a window in microseconds. -/
def Setup.window (setup : Setup) : Int := setup.config.rateWindow * Moment.microsPerSecond

theorem Setup.window_pos (setup : Setup) (h : 0 < setup.config.rateWindow) : 0 < setup.window := by
  rw [window, Moment.microsPerSecond]
  omega

namespace Engine
open Work RateLimiter

variable {setup : Setup} {limit : String → Nat} {w : Workflow} {e : Execution} {g g₁ h : Engine}
  {name : String}

/-! ## Starts -/

/-- When the executions of a workflow that an engine keeps were started, the latest first. -/
def startsOf (g : Engine) (name : String) : List Int :=
  (g.memory.executions.values.filterMap fun e =>
    if e.workflowId = name then some e.startedAt.micros else none).reverse

/-- Two engines with the same starts, which are counted in the same way. -/
structure SameStarts (g h : Engine) : Prop where
  limiter : h.limiter = g.limiter
  workflows : h.memory.workflows = g.memory.workflows
  starts : ∀ name, h.startsOf name = g.startsOf name
  suited : (∀ job ∈ g.schedule.jobs, job.payload.Suits) → ∀ job ∈ h.schedule.jobs, job.payload.Suits

theorem SameBooks.sameStarts (hbooks : g.SameBooks h) : g.SameStarts h where
  limiter := hbooks.limiter
  workflows := by rw [hbooks.memory]
  starts name := by rw [startsOf, startsOf, hbooks.memory]
  suited hjobs := hbooks.schedule ▸ hjobs

theorem startsOf_save {kept f : Execution} (hstored : g.stored? kept.id = some kept) (htask : kept.SameTask f)
    (hmemory : h.memory = g.memory.saveExecution f) : h.startsOf name = g.startsOf name := by
  have hplace : g.memory.executions.get? f.id = some kept := htask.id_eq ▸ hstored
  rw [startsOf, startsOf, hmemory]
  refine congrArg List.reverse (Table.filterMap_put _ hplace ?_)
  rw [htask.workflowId_eq, htask.startedAt_eq]

theorem suits_of_mem_add {s : Schedule Float Value} (hjobs : ∀ job ∈ s.jobs, job.payload.Suits) {runAt : Float}
    {payload : Value} (hpayload : payload.Suits) : ∀ job ∈ (s.add runAt payload).2.jobs, job.payload.Suits := by
  intro job hjob
  obtain rfl | hjob := List.mem_cons.1 (Schedule.place_perm.mem_iff.1 hjob)
  · exact hpayload
  · exact hjobs job hjob

theorem suits_of_grows {s t : Schedule Float Value} (hgrows : s.Grows Value.Resumes t)
    (hjobs : ∀ job ∈ s.jobs, job.payload.Suits) : ∀ job ∈ t.jobs, job.payload.Suits := by
  induction hgrows with
  | refl => exact hjobs
  | tail _ hstep ih =>
    obtain ⟨runAt, payload, hresumes, rfl⟩ := hstep
    exact suits_of_mem_add ih hresumes.suits

theorem Ending.sameStarts (hstored : g.stored? e.id = some e) (hending : Ending setup w e g h) :
    g.SameStarts h := by
  have saved {f : Execution} {t : Schedule Float Value} (htask : e.SameTask f)
      (hsuited : (∀ job ∈ g.schedule.jobs, job.payload.Suits) → ∀ job ∈ t.jobs, job.payload.Suits)
      (hbooks : SameBooks { g with memory := g.memory.saveExecution f, schedule := t } h) :
      g.SameStarts h :=
    ⟨hbooks.limiter, by rw [hbooks.memory]; rfl, fun _ => startsOf_save hstored htask hbooks.memory,
      hbooks.schedule ▸ hsuited⟩
  cases hending with
  | strand t hgrows hbooks =>
    refine ⟨hbooks.limiter, by rw [hbooks.memory], fun name => ?_, ?_⟩
    · rw [startsOf, startsOf, hbooks.memory]
    · exact hbooks.schedule ▸ suits_of_grows hgrows
  | settle f htask _ t hgrows hbooks => exact saved htask (suits_of_grows hgrows) hbooks
  | fail f htask _ t hretry hbooks =>
    refine saved htask (fun hjobs => ?_) hbooks
    obtain rfl | ⟨_, _, _, _, -, -, -, -, -, rfl⟩ := hretry
    · exact hjobs
    · exact suits_of_mem_add hjobs (retryPayload_suits w f _)

variable {trigger context : Value}

theorem Starting.stored (hstarting : Starting g w trigger context e g₁) : g₁.stored? e.id = some e := by
  rw [stored?_save hstarting.memory, if_pos rfl]

/-- The start of an execution is one of its workflow, and of no other one. -/
theorem Starting.startsOf_eq (hg : g.Kept setup) (hstarting : Starting g w trigger context e h) :
    h.startsOf name = if w.id = name then g.now.micros :: g.startsOf name else g.startsOf name := by
  have hexecutions : h.memory.executions = g.memory.executions ++ [(e.id, e)] := by
    rw [hstarting.memory]
    exact Table.put_of_get?_eq_none e (hstarting.stored?_eq_none hg)
  rw [startsOf, startsOf, hexecutions, Table.values, Table.values, List.map_append, List.filterMap_append,
    List.reverse_append, List.map_singleton, List.filterMap_cons, hstarting.workflowId_eq,
    hstarting.startedAt_eq]
  by_cases hname : w.id = name
  · rw [if_pos hname, if_pos hname]
    rfl
  · rw [if_neg hname, if_neg hname]
    rfl

/-- What a deed does to the counts of starts. -/
inductive Charge (Starts : Workflow → Value → Value → Prop) (g h : Engine) : Prop
  | none (hsame : g.SameStarts h)
  | unfit (w : Workflow) (trigger context : Value) (hstarts : Starts w trigger context)
    (hunfit : ¬ Fits w trigger context) (n : Int)
    (heq : h = { g with limiter := (g.limiter.acquire g.now.timestamp w.id n).2 })
  | start (w : Workflow) (trigger context : Value) (hstarts : Starts w trigger context) (e : Execution)
    (g₁ : Engine) (hstarting : Starting g w trigger context e g₁) (hsame : g₁.SameStarts h)

theorem Deed.charge {Starts : Workflow → Value → Value → Prop} (hdeed : Deed setup Starts g h) :
    Charge Starts g h := by
  cases hdeed with
  | quiet hbooks => exact .none hbooks.sameStarts
  | refuse w trigger context hstarts fault hrefused =>
    cases hrefused with
    | inactive _ heq => exact .none (heq ▸ (SameBooks.refl g).sameStarts)
    | unclear _ _ _ heq => exact .none (heq ▸ (SameBooks.refl g).sameStarts)
    | limited _ _ _ _ heq => exact .none (heq ▸ (SameBooks.refl g).sameStarts)
    | unfit _ hunfit n heq => exact .unfit w trigger context hstarts hunfit n heq
  | start w trigger context hstarts e g₁ hstarting hending =>
    exact .start w trigger context hstarts e g₁ hstarting (hending.sameStarts hstarting.stored)
  | resume kept hstored hopen w hw hending => exact .none (hending.sameStarts hstored)
  | close kept hstored hopen f htask hbooks =>
    exact .none ⟨hbooks.limiter, by rw [hbooks.memory]; rfl,
      fun _ => startsOf_save hstored htask hbooks.memory, fun hjobs => hbooks.schedule ▸ hjobs⟩

/-- What is done for other workflows makes no difference to one. -/
theorem Charge.apart {Starts : Workflow → Value → Value → Prop} (hg : g.Kept setup)
    (hothers : ∀ w trigger context, Starts w trigger context → w.id ≠ name) (hcharge : Charge Starts g h) :
    h.startsOf name = g.startsOf name ∧
      ∀ now, h.limiter.openWindow now name = g.limiter.openWindow now name := by
  cases hcharge with
  | none hsame => exact ⟨hsame.starts name, fun _ => by rw [hsame.limiter]⟩
  | unfit w trigger context hstarts hunfit n heq =>
    subst heq
    have hne := hothers w trigger context hstarts
    exact ⟨rfl, openWindow_congr (length_acquire ..) (get?_acquire_of_ne _ (Ne.symm hne))⟩
  | start w trigger context hstarts e g₁ hstarting hsame =>
    have hne := hothers w trigger context hstarts
    obtain ⟨n, -, -, hlimiter⟩ := hstarting.counted
    rw [hsame.starts, hstarting.startsOf_eq hg, if_neg hne, hsame.limiter, hlimiter]
    exact ⟨rfl, openWindow_congr (length_acquire ..) (get?_acquire_of_ne _ (Ne.symm hne))⟩

/-! ## Clocks -/

/-- What a clock shows some microseconds after the start of 1970. -/
def stamp (micros : Int) : Float :=
  (Double.nearest? (decide (micros < 0)) micros.natAbs 1000000).getD 0

theorem timestamp_eq (m : Moment) : m.timestamp = stamp m.micros := rfl

/-- A clock has not gone back since a time, and shows whether the time is a window ago. -/
structure Steady (setup : Setup) (t : Int) (now : Moment) : Prop where
  le : t ≤ now.micros
  exact_iff : Float.ofInt setup.config.rateWindow ≤ now.timestamp - stamp t ↔ setup.window ≤ now.micros - t

/-- What the clock shows at each part of a history, and at its end. -/
def readings (episodes : List Episode) (h : Engine) : List Moment := episodes.map (·.before.now) ++ [h.now]

/-! ## What is counted -/

/-- A limiter counts the starts of executions that an engine keeps, and each of them was allowed. -/
structure Metered (setup : Setup) (limit : String → Nat) (g : Engine) (hand : List (Job Float Value)) :
    Prop where
  length_eq : g.limiter.length = Float.ofInt setup.config.rateWindow
  limited : ∀ id w, g.memory.workflow? id = some w → w.Limited limit
  suited : ∀ job ∈ hand ++ g.schedule.jobs, job.payload.Suits
  sorted : ∀ name, (g.startsOf name).Pairwise (· ≥ ·)
  granted : ∀ name, Granted setup.window (limit name) (g.startsOf name)
  counts : ∀ name, g.limiter.Counts stamp setup.window name (g.startsOf name)

variable {hand : List (Job Float Value)}

theorem Metered.same (hmetered : Metered setup limit g hand) (hsame : g.SameStarts h)
    {left : List (Job Float Value)} (hleft : ∀ job ∈ left, job ∈ hand) : Metered setup limit h left where
  length_eq := hsame.limiter ▸ hmetered.length_eq
  limited id w hw := by
    rw [Memory.workflow?, hsame.workflows] at hw
    exact hmetered.limited id w hw
  suited job hjob := by
    obtain hjob | hjob := List.mem_append.1 hjob
    · exact hmetered.suited job (List.mem_append_left _ (hleft job hjob))
    · exact hsame.suited (fun job hjob => hmetered.suited job (List.mem_append_right _ hjob)) job hjob
  sorted name := by
    rw [hsame.starts]
    exact hmetered.sorted name
  granted name := by
    rw [hsame.starts]
    exact hmetered.granted name
  counts name := by
    rw [hsame.starts, hsame.limiter]
    exact hmetered.counts name

theorem Metered.exact (hmetered : Metered setup limit g hand)
    (hsteady : ∀ t ∈ g.startsOf name, Steady setup t g.now) :
    g.limiter.Exact stamp setup.window (g.startsOf name) g.now.micros := by
  intro t ht
  rw [hmetered.length_eq]
  exact (hsteady t ht).exact_iff

theorem Metered.acquire_iff (hwindow : 0 < setup.config.rateWindow) (hmetered : Metered setup limit g hand)
    (hsteady : ∀ t ∈ g.startsOf name, Steady setup t g.now) (n : Int) :
    (g.limiter.acquire g.now.timestamp name n).1 = true ↔
      (inWindow setup.window (g.startsOf name) g.now.micros : Int) < n := by
  rw [timestamp_eq]
  exact RateLimiter.acquire_iff (tiled (setup.window_pos hwindow) (hmetered.sorted name)).opened
    (hmetered.counts name) (hmetered.exact hsteady)

theorem Metered.start (hwindow : 0 < setup.config.rateWindow) (hg : g.Kept setup)
    (hmetered : Metered setup limit g hand)
    (hsteady : ∀ name, ∀ t ∈ g.startsOf name, Steady setup t g.now) (hw : w.Limited limit)
    (hstarting : Starting g w trigger context e h) : Metered setup limit h hand := by
  have hlength := setup.window_pos hwindow
  obtain ⟨n, hn, hadmitted, hlimiter⟩ := hstarting.counted
  obtain rfl : n = limit w.id := Except.ok.inj (hn.symm.trans hw.limit_eq)
  have hsorted : (g.now.micros :: g.startsOf w.id).Pairwise (· ≥ ·) :=
    List.pairwise_cons.2 ⟨fun t ht => (hsteady w.id t ht).le, hmetered.sorted w.id⟩
  have hroom := (hmetered.acquire_iff hwindow (hsteady w.id) _).1 hadmitted
  have hcounts := (hmetered.counts w.id).acquire hlength hsorted (hmetered.exact (hsteady w.id)) hadmitted
  rw [← timestamp_eq, ← hlimiter] at hcounts
  constructor
  · rw [hlimiter, length_acquire]
    exact hmetered.length_eq
  · rw [hstarting.memory]
    exact hmetered.limited
  · rw [hstarting.schedule]
    exact hmetered.suited
  · intro name
    rw [hstarting.startsOf_eq hg]
    split
    · next hname => exact hname ▸ hsorted
    · exact hmetered.sorted name
  · intro name
    rw [hstarting.startsOf_eq hg]
    split
    · next hname => exact hname ▸ ⟨by omega, hmetered.granted w.id⟩
    · exact hmetered.granted name
  · intro name
    rw [hstarting.startsOf_eq hg]
    split
    · next hname => exact hname ▸ hcounts
    · next hname =>
      rw [Counts, hlimiter, get?_acquire_of_ne _ (Ne.symm hname)]
      exact hmetered.counts name

theorem Metered.takeDue (hmetered : Metered setup limit g []) (time : Float) {taken : List (Job Float Value)}
    (htaken : ∀ job ∈ taken, job ∈ g.schedule.jobs) : Metered setup limit (g.takeDue time) taken := by
  refine ⟨hmetered.length_eq, hmetered.limited, fun job hjob => ?_, hmetered.sorted, hmetered.granted,
    hmetered.counts⟩
  obtain hjob | hjob := List.mem_append.1 hjob
  · exact hmetered.suited job (htaken job hjob)
  · exact hmetered.suited job ((List.dropWhile_suffix _).subset hjob)

theorem starts_fits {op : Operation} (hlimited : ∀ id w, g.memory.workflow? id = some w → w.Limited limit)
    (hop : op.Fits limit) (hstarts : op.Starts g w trigger context) :
    w.Limited limit ∧ Work.Fits w trigger context := by
  cases hstarts with
  | execute => exact ⟨hop.1, hop.2.1, hop.2.2, hop.1.vars⟩
  | executeById id w hw =>
    have hw := hlimited id w hw
    exact ⟨hw, hop.1, hop.2, hw.vars⟩
  | runJob payload id w hw trigger context hruns =>
    have hw := hlimited id w hw
    obtain ⟨htrigger, hcontext⟩ := hop id trigger context hruns
    exact ⟨hw, htrigger, hcontext, hw.vars⟩

theorem Metered.deed {Starts : Workflow → Value → Value → Prop} (hwindow : 0 < setup.config.rateWindow)
    (hg : g.Kept setup) (hmetered : Metered setup limit g hand)
    (hsteady : ∀ name, ∀ t ∈ g.startsOf name, Steady setup t g.now)
    (hfits : ∀ w trigger context, Starts w trigger context → w.Limited limit ∧ Work.Fits w trigger context)
    (hdeed : Deed setup Starts g h) :
    Metered setup limit h hand ∧ ∀ name, ∀ t ∈ h.startsOf name, t = g.now.micros ∨ t ∈ g.startsOf name := by
  cases hdeed.charge with
  | none hsame =>
    exact ⟨hmetered.same hsame fun _ hjob => hjob, fun name t ht => .inr (hsame.starts name ▸ ht)⟩
  | unfit w trigger context hstarts hunfit => exact absurd (hfits w trigger context hstarts).2 hunfit
  | start w trigger context hstarts e g₁ hstarting hsame =>
    have hlimited := (hfits w trigger context hstarts).1
    refine ⟨(hmetered.start hwindow hg hsteady hlimited hstarting).same hsame fun _ hjob => hjob,
      fun name t ht => ?_⟩
    rw [hsame.starts, hstarting.startsOf_eq hg] at ht
    split at ht
    · exact List.mem_cons.1 ht
    · exact .inr ht

theorem Unfolds.metered (hwindow : 0 < setup.config.rateWindow) {episodes : List Episode}
    (hunfolds : Unfolds setup (Operation.Fits limit) g hand episodes h)
    (hclock : (readings episodes h).Pairwise fun a b => Steady setup a.micros b)
    (hmetered : Metered setup limit g hand)
    (hsteady : ∀ name, ∀ t ∈ g.startsOf name, ∀ now ∈ readings episodes h, Steady setup t now) :
    Metered setup limit h [] ∧ ∀ name, ∀ t ∈ h.startsOf name, Steady setup t h.now := by
  induction hunfolds with
  | nil g => exact ⟨hmetered, fun name t ht => hsteady name t ht g.now (List.mem_singleton_self _)⟩
  | @deed g h rest op hg hop hdeed hunfolds ih =>
    obtain ⟨hnow, hclock⟩ := List.pairwise_cons.1 hclock
    obtain ⟨hmetered, hstarts⟩ := hmetered.deed hwindow hg
      (fun name t ht => hsteady name t ht g.now (List.mem_cons_self ..))
      (fun _ _ _ => starts_fits hmetered.limited hop) hdeed
    refine ih hclock hmetered fun name t ht now hlater => ?_
    obtain rfl | ht := hstarts name t ht
    · exact hnow now hlater
    · exact hsteady name t ht now (List.mem_cons_of_mem _ hlater)
  | drop time hunfolds ih =>
    exact ih (List.pairwise_cons.1 hclock).2 (hmetered.takeDue time nofun)
      fun name t ht now hlater => hsteady name t ht now (List.mem_cons_of_mem _ hlater)
  | take time hunfolds ih =>
    exact ih (List.pairwise_cons.1 hclock).2
      (hmetered.takeDue time fun job hjob => (List.takeWhile_prefix _).subset hjob)
      fun name t ht now hlater => hsteady name t ht now (List.mem_cons_of_mem _ hlater)
  | @deliver g h hand rest job hg hdeed hunfolds ih =>
    obtain ⟨hnow, hclock⟩ := List.pairwise_cons.1 hclock
    have hsuits : job.payload.Suits := hmetered.suited job (by simp)
    obtain ⟨hmetered, hstarts⟩ := hmetered.deed hwindow hg
      (fun name t ht => hsteady name t ht g.now (List.mem_cons_self ..))
      (fun _ _ _ hstarts => starts_fits hmetered.limited (show Operation.Fits limit (.runJob _) from hsuits)
        hstarts) hdeed
    have hmetered : Metered setup limit (g.deliver setup job) hand :=
      ⟨hmetered.length_eq, hmetered.limited, fun job' hjob' => hmetered.suited job' (by simp_all),
        hmetered.sorted, hmetered.granted, hmetered.counts⟩
    refine ih hclock hmetered fun name t ht now hlater => ?_
    obtain rfl | ht := hstarts name t ht
    · exact hnow now hlater
    · exact hsteady name t ht now (List.mem_cons_of_mem _ hlater)

/-! ## Answers -/

/-- How an engine answers when it is to run a workflow that has a limit. -/
structure Answers (setup : Setup) (g : Engine) (w : Workflow) (trigger context : Value) (n : Nat) : Prop where
  inWindow_le : inWindow setup.window (g.startsOf w.id) g.now.micros ≤ n
  inactive : w.isActive = false → (execute setup w trigger context).run.run g =
    (.error (.workflowInactive w.id w.status.text), g)
  limited : w.isActive = true → inWindow setup.window (g.startsOf w.id) g.now.micros = n →
    (execute setup w trigger context).run.run g = (.error (.rateLimited w.id (toString (n : Int))), g)
  started : w.isActive = true → inWindow setup.window (g.startsOf w.id) g.now.micros < n →
    (g.after setup (.execute w trigger context)).startsOf w.id = g.now.micros :: g.startsOf w.id
  byId : ∀ id, g.memory.workflow? id = some w →
    (executeById setup id trigger context).run.run g = (execute setup w trigger context).run.run g
  /-- To run other workflows makes no difference to the answer. -/
  apart : ∀ other trigger context, other.id ≠ w.id →
    (g.after setup (.execute other trigger context)).startsOf w.id = g.startsOf w.id ∧
      ∀ now, ((g.after setup (.execute other trigger context)).limiter.acquire now w.id n).1 =
        (g.limiter.acquire now w.id n).1

theorem execute_inactive (hinactive : w.isActive = false) :
    (execute setup w trigger context).run.run g = (.error (.workflowInactive w.id w.status.text), g) := by
  have hstart : start setup w trigger context = throw (.workflowInactive w.id w.status.text) := by
    unfold start
    rw [hinactive]
    rfl
  rw [execute, hstart, run_bind]
  rfl

theorem executeById_run {id : String} (hw : g.memory.workflow? id = some w) :
    (executeById setup id trigger context).run.run g = (execute setup w trigger context).run.run g := by
  have hfound : (workflow? id).run.run g = (.ok (some w), g) := by
    rw [← hw]
    rfl
  rw [executeById, run_bind, hfound]

/-- What fits an active workflow with a limit is refused only as the limiter does not admit it. -/
theorem Refused.admits (hactive : w.isActive = true) (hw : w.Limited limit)
    (hfits : Work.Fits w trigger context) {fault : Fault} (hrefused : Refused g w trigger context h fault) :
    (g.limiter.acquire g.now.timestamp w.id (limit w.id)).1 = false ∧
      fault = .rateLimited w.id (toString (limit w.id : Int)) ∧ h = g := by
  cases hrefused with
  | inactive hinactive => cases hactive.symm.trans hinactive
  | unclear _ _ hlimit => cases hw.limit_eq.symm.trans hlimit
  | limited n _ hlimit hfull heq =>
    obtain rfl := Except.ok.inj (hw.limit_eq.symm.trans hlimit)
    exact ⟨hfull, rfl, heq⟩
  | unfit _ hunfit => exact absurd hfits hunfit

theorem Starting.admits (hw : w.Limited limit) (hstarting : Starting g w trigger context e h) :
    (g.limiter.acquire g.now.timestamp w.id (limit w.id)).1 = true := by
  obtain ⟨n, hn, hadmitted, -⟩ := hstarting.counted
  obtain rfl := Except.ok.inj (hw.limit_eq.symm.trans hn)
  exact hadmitted

theorem execute_limited (hactive : w.isActive = true) (hw : w.Limited limit)
    (hfits : Work.Fits w trigger context)
    (hfull : (g.limiter.acquire g.now.timestamp w.id (limit w.id)).1 = false) :
    (execute setup w trigger context).run.run g =
      (.error (.rateLimited w.id (toString (limit w.id : Int))), g) := by
  have hstart : Leads (start setup w trigger context) g (fun e g₁ => Starting g w trigger context e g₁)
      fun fault h => Refused g w trigger context h fault := start_books w trigger context g
  obtain ⟨e, g₁, -, hstarting⟩ | ⟨fault, g₁, hrun, hrefused⟩ := hstart.cases
  · cases (hstarting.admits hw).symm.trans hfull
  · obtain ⟨-, rfl, rfl⟩ := hrefused.admits hactive hw hfits
    rw [execute, run_bind, hrun]

theorem execute_started (hg : g.Kept setup) (hactive : w.isActive = true) (hw : w.Limited limit)
    (hfits : Work.Fits w trigger context)
    (hroom : (g.limiter.acquire g.now.timestamp w.id (limit w.id)).1 = true) :
    (g.after setup (.execute w trigger context)).startsOf w.id = g.now.micros :: g.startsOf w.id := by
  have hstart : Leads (start setup w trigger context) g (fun e g₁ => Starting g w trigger context e g₁)
      fun _ _ => False := by
    refine (start_books w trigger context g).mono (fun _ _ h => h) fun fault h hrefused => ?_
    cases (hrefused.admits hactive hw hfits).1.symm.trans hroom
  have hrun : Leads (execute setup w trigger context) g
      (fun _ h => h.startsOf w.id = g.now.micros :: g.startsOf w.id)
      fun _ h => h.startsOf w.id = g.now.micros :: g.startsOf w.id := by
    refine Leads.bind hstart.of_total ?_
    intro e g₁ hstarting
    have ended {h : Engine} (hending : Ending setup w e g₁ h) :
        h.startsOf w.id = g.now.micros :: g.startsOf w.id := by
      rw [(hending.sameStarts hstarting.stored).starts, hstarting.startsOf_eq hg, if_pos rfl]
    exact (runSegment_books w e w.startNodes g₁).mono (fun _ _ => ended) fun _ _ => ended
  exact hrun.state

theorem Metered.answers (hwindow : 0 < setup.config.rateWindow) (hg : g.Kept setup)
    (hmetered : Metered setup limit g hand)
    (hsteady : ∀ name, ∀ t ∈ g.startsOf name, Steady setup t g.now) (hw : w.Limited limit)
    (htrigger : trigger.IsGiven) (hcontext : context.IsGiven) :
    g.Answers setup w trigger context (limit w.id) := by
  have hfits : Work.Fits w trigger context := ⟨htrigger, hcontext, hw.vars⟩
  have hadmits := hmetered.acquire_iff hwindow (hsteady w.id) (limit w.id)
  refine ⟨?_, execute_inactive, fun hactive hfull => ?_, fun hactive hroom => ?_, fun _ => executeById_run,
    fun other trigger' context' hne => ?_⟩
  · exact RateLimiter.inWindow_le (setup.window_pos hwindow) (hmetered.sorted w.id) (hmetered.granted w.id) _
  · refine execute_limited hactive hw hfits (Bool.eq_false_iff.2 fun hadmitted => ?_)
    have := hadmits.1 hadmitted
    omega
  · exact execute_started hg hactive hw hfits (hadmits.2 (by omega))
  · have hdeed : Deed setup (Operation.Starts g (.execute other trigger' context')) g
        (g.after setup (.execute other trigger' context')) := (execute_does (.execute ..)).state
    have hothers : ∀ w' t c, Operation.Starts g (.execute other trigger' context') w' t c → w'.id ≠ w.id := by
      rintro _ _ _ ⟨⟩
      exact hne
    obtain ⟨hstarts, hopen⟩ := hdeed.charge.apart hg hothers
    refine ⟨hstarts, fun now => ?_⟩
    rw [fst_acquire, fst_acquire, hopen]

/-- What became of the starts of a workflow: the limiter has the last of their windows, and none has more than
the limit. -/
structure WithinLimit (setup : Setup) (g : Engine) (name : String) (n : Nat) : Prop where
  counts : g.limiter.Counts stamp setup.window name (g.startsOf name)
  window : ∀ s ∈ openings setup.window (g.startsOf name),
    between (g.startsOf name) s (s + setup.window) ≤ n
  span : ∀ a b, b ≤ a + setup.window → between (g.startsOf name) a b ≤ 2 * n

/-- A workflow that may be run once in an hour. -/
def rare : Workflow :=
  .ofNodes [⟨"begin", "start", .map [], .null, .null⟩] [] [(.str "max_executions_per_hour", .int 1)]

/-- It is run, refused a second before the hour is over, and run again then. -/
def rarely : List Operation := [
  .execute rare .null .null,
  .setClock ⟨⟨2024, 6, 15⟩, 12, 59, 59, 0, some 0⟩,
  .executeById "flow" .null .null,
  .setClock ⟨⟨2024, 6, 15⟩, 13, 0, 0, 0, some 0⟩,
  .execute rare .null .null]

def rareEngine : Engine := fresh (.ofActions []) ⟨⟨2024, 6, 15⟩, 12, 0, 0, 0, some 0⟩ 0 [("flow", rare)]

instance (setup : Setup) (t : Int) (now : Moment) : Decidable (Steady setup t now) :=
  decidable_of_iff (t ≤ now.micros ∧
    (Float.ofInt setup.config.rateWindow ≤ now.timestamp - stamp t ↔ setup.window ≤ now.micros - t))
    ⟨fun h => ⟨h.1, h.2⟩, fun h => ⟨h.le, h.exact_iff⟩⟩

end Engine

end Flowline
