import Flowline.Proofs.Engine.Moves
import Flowline.Proofs.Engine.Parts

/-! # Calls that keep an execution once

Once it has loaded an execution, a call that resumes it does not look at the executions that are kept any
more. It keeps its own once, at the end, unless it fails. -/

namespace Flowline

/-- An engine in which other executions are kept. -/
def Engine.keeping (g : Engine) (t : Table String Execution) : Engine :=
  { g with memory := { g.memory with executions := t } }

/-- A change that neither looks at the executions that are kept nor keeps any. -/
def Blind (change : Engine → Engine) : Prop := ∀ g t, change (g.keeping t) = (change g).keeping t

/-! ## What is done without a look at the executions that are kept -/

namespace Work
variable {α β : Type} {setup : Setup}

/-- A computation that neither looks at the executions that are kept nor keeps any. -/
def Blind (m : Work α) : Prop :=
  ∀ g t, m.run.run (g.keeping t) = ((m.run.run g).1, (m.run.run g).2.keeping t)

theorem blind_pure (a : α) : Blind (pure a) := fun _ _ => rfl

theorem blind_throw (fault : Fault) : Blind (throw fault : Work α) := fun _ _ => rfl

theorem blind_of (r : Except Fault α) : Blind (of r) := fun _ _ => rfl

theorem blind_now : Blind now := fun _ _ => rfl

theorem Blind.bind {m : Work α} {f : α → Work β} (hm : Blind m) (hf : ∀ a, Blind (f a)) :
    Blind (m >>= f) := by
  intro g t
  rw [run_bind, run_bind, hm g t]
  rcases m.run.run g with ⟨fault | a, h⟩
  · rfl
  · exact hf a h t

theorem Blind.attempt {m : Work α} (hm : Blind m) : Blind (attempt m) := by
  intro g t
  change ((Except.ok (m.run.run (g.keeping t)).1, (m.run.run (g.keeping t)).2) :
    Except Fault (Except Fault α) × Engine) = _
  rw [hm g t]
  rfl

theorem blind_publishAt (kind : EventKind) (e : Execution) (node? : Option String) :
    Blind (publishAt setup kind e node?) := by
  unfold publishAt
  split
  · exact fun _ _ => rfl
  · exact blind_pure _

theorem blind_schedule (runAt payload : Value) : Blind (schedule setup runAt payload) := by
  unfold schedule
  split
  · exact blind_throw _
  · exact (blind_of _).bind fun time _ _ => rfl

theorem blind_notifyFailure (w : Workflow) (e : Execution) : Blind (notifyFailure setup w e) := by
  unfold notifyFailure
  split
  · exact blind_pure _
  · split
    · exact blind_pure _
    · dsimp only
      split
      · exact fun _ _ => rfl
      · exact blind_pure _

theorem blind_scheduleRetry (w : Workflow) (e : Execution) : Blind (scheduleRetry setup w e) := by
  refine (blind_of _).bind fun policy => ?_
  refine (blind_of _).bind fun retries => ?_
  split
  · exact blind_pure _
  · refine (blind_of _).bind fun delay => ?_
    refine blind_now.bind fun time => ?_
    exact (blind_schedule _ _).bind fun job => blind_pure _

theorem blind_scheduleResume (w : Workflow) (suspended : List String) (e : Execution) (x : String) :
    Blind (scheduleResume setup w suspended e x) := by
  have at_time (e : Execution) (time : Value) : Blind (scheduleResumeAt setup e x time) :=
    (blind_schedule _ _).bind fun job => blind_pure _
  unfold scheduleResume
  split
  · exact blind_pure _
  · split
    · exact blind_pure _
    · split
      · exact blind_pure _
      · split
        · split
          · exact blind_pure _
          · refine Blind.bind ?_ fun time => at_time _ time
            exact blind_now.bind fun _ => (blind_of _).bind fun _ => blind_pure _
        · exact at_time _ _

theorem blind_reopen (w : Workflow) (e : Execution) (n : Node) : Blind (reopen setup w e n) := by
  refine (blind_of _).bind fun owner? => ?_
  refine Blind.bind (fun _ _ => rfl) fun _ => ?_
  exact (blind_publishAt _ _ _).bind fun _ => blind_pure _

end Work

/-! ## Calls that keep an execution once -/

namespace Call
open Coroutine
variable {α β : Type} {setup : Setup} {id : String}

/-- A call that has kept an execution or none goes on without a look at the executions that are kept. If
it has kept none, it keeps one at most, which has a given id. In the end `F` holds of what it has kept and of
its result. -/
inductive KeepsOnce (id : String) (F : Option Execution → Except Fault α → Prop) :
    Option Execution → Call α → Prop
  | done {kept? : Option Execution} {r : Except Fault α} (h : F kept? r) :
      KeepsOnce id F kept? (.done r)
  | part {kept? : Option Execution} {change : Engine → Engine} {next : Engine → Call α}
      (hchange : Blind change) (hnext : ∀ g t, next (g.keeping t) = next g)
      (h : ∀ g, KeepsOnce id F kept? (next g)) : KeepsOnce id F kept? (.part change next)
  | hand {e : Execution} {next : Call α} (he : e.id = id) (h : KeepsOnce id F (some e) next) :
      KeepsOnce id F none (.hand e next)

variable {F : Option Execution → Except Fault α → Prop}
  {G : Option Execution → Except Fault β → Prop} {kept? : Option Execution}

theorem KeepsOnce.bind {c : Call α} {f : α → Call β} (hc : KeepsOnce id F kept? c)
    (hf : ∀ k a, F k (.ok a) → KeepsOnce id G k (f a))
    (hfault : ∀ k fault, F k (.error fault) → G k (.error fault)) :
    KeepsOnce id G kept? (c >>= f) := by
  induction hc with
  | @done k r h =>
    cases r with
    | ok a => exact hf k a h
    | error fault => exact .done (hfault k fault h)
  | part hchange hnext _ ih => exact .part hchange (fun g t => by rw [hnext]) ih
  | hand he _ ih => exact .hand he ih

theorem KeepsOnce.attempt {c : Call α} {G : Option Execution → Except Fault (Except Fault α) → Prop}
    (hc : KeepsOnce id F kept? c) (h : ∀ k r, F k r → G k (.ok r)) :
    KeepsOnce id G kept? c.attempt := by
  induction hc with
  | done hfits => exact .done (h _ _ hfits)
  | part hchange hnext _ ih => exact .part hchange (fun g t => by rw [hnext]) ih
  | hand he _ ih => exact .hand he ih

theorem keepsOnce_pure {a : α} (h : F kept? (.ok a)) : KeepsOnce id F kept? (pure a) := .done h

theorem keepsOnce_of {m : Work α} (hm : Work.Blind m) (h : ∀ g, F kept? (m.run.run g).1) :
    KeepsOnce id F kept? (of m) := by
  refine .part (fun g t => congrArg Prod.snd (hm g t)) ?_ fun g => .done (h g)
  intro g t
  rw [congrArg Prod.fst (hm g t)]

/-! ## Calls that keep nothing -/

/-- Nothing was kept, and a result has a property. -/
def Holds (P : α → Prop) (kept? : Option Execution) (r : Except Fault α) : Prop :=
  kept? = none ∧ ∀ a, r = .ok a → P a

variable {P : α → Prop}

theorem holds_ok {a : α} (h : P a) : Holds P none (.ok a) := by
  refine ⟨rfl, ?_⟩
  rintro _ ⟨⟩
  exact h

theorem holds_error (P : α → Prop) (fault : Fault) : Holds P none (.error fault) := by
  refine ⟨rfl, ?_⟩
  rintro _ ⟨⟩

/-- A call that keeps nothing, and gives only results with a property. -/
abbrev Quiet (id : String) (P : α → Prop) (c : Call α) : Prop := KeepsOnce id (Holds P) none c

theorem quiet_pure {a : α} (h : P a) : Quiet id P (pure a) := .done (holds_ok h)

theorem quiet_of {m : Work α} (hm : Work.Blind m) (h : ∀ g a, (m.run.run g).1 = .ok a → P a) :
    Quiet id P (of m) := keepsOnce_of hm fun g => ⟨rfl, h g⟩

theorem quiet_look {f : Engine → α} (hf : ∀ g t, f (g.keeping t) = f g) (h : ∀ g, P (f g)) :
    Quiet id P (look f) :=
  .part (fun _ _ => rfl) (fun g t => by rw [hf]) fun g => .done (holds_ok (h g))

theorem Quiet.bind {c : Call α} {f : α → Call β} (hc : Quiet id P c)
    (hf : ∀ a, P a → KeepsOnce id G none (f a)) (hfault : ∀ fault, G none (.error fault)) :
    KeepsOnce id G none (c >>= f) := by
  refine KeepsOnce.bind hc ?_ ?_
  · rintro _ a ⟨rfl, ha⟩
    exact hf a (ha a rfl)
  · rintro _ fault ⟨rfl, -⟩
    exact hfault fault

/-- Nothing is kept from inside a session. -/
theorem quiet_ofSession {c : Coroutine Session Empty α} (hc : c.Keeps (·.execution.id = id))
    {s : Session} (hs : s.execution.id = id) :
    Quiet id (fun q => q.2.execution.id = id) (ofSession c s) := by
  induction c generalizing s with
  | done r => exact quiet_pure hs
  | part change next ih =>
    refine .part (fun _ _ => rfl) (fun _ _ => rfl) fun g => ?_
    have hnext := hc (g.refresh s) hs
    exact ih (g.refresh s) hnext.2 hnext.1
  | hand o next => exact o.elim

section Quiet
variable {w : Workflow} {e : Execution}

theorem quiet_now : Quiet id (fun _ => True) (of Work.now) := quiet_of Work.blind_now fun _ _ _ => trivial

theorem quiet_handleFailure (w : Workflow) (he : e.id = id) :
    Quiet id (·.id = id) (handleFailure setup w e) := by
  refine (quiet_of (P := fun _ => True) (Work.blind_notifyFailure w e) fun _ _ _ => trivial).bind ?_
    (holds_error _)
  intro _ _
  split
  · exact quiet_pure he
  · refine (quiet_of (P := fun r => ∀ f, r = .ok f → f.id = id) (Work.blind_scheduleRetry w e).attempt
      ?_).bind ?_ (holds_error _)
    · rintro g _ ⟨⟩ f hf
      exact ((Work.gives_scheduleRetry w e).result_of hf).nodes.id_eq.trans he
    · intro r hr
      cases r with
      | ok f => exact quiet_pure (hr f rfl)
      | error fault => exact quiet_pure ((Work.noted_note ..).nodes.id_eq.trans he)

theorem quiet_scheduleResumes (w : Workflow) (suspended : List String) (he : e.id = id) :
    Quiet id (·.id = id) (scheduleResumes setup w suspended e) := by
  have hgives (e : Execution) (he : e.id = id) (x : String) :
      Gives Engine.Keeps (·.id = id) (Work.scheduleResume setup w suspended e x) := by
    refine Work.gives_scheduleResume (fun _ _ _ => Work.within_schedule _ _)
      (fun f level message details hf => ?_) (fun f y key u hf => ?_) w suspended x he
    · exact (Work.noted_note f level message details).nodes.id_eq.trans hf
    obtain ⟨states, hgrow⟩ := Execution.growOutput_eq f y key u
    rw [hgrow]
    exact hf
  have all (ids : List String) (e : Execution) (he : e.id = id) : Quiet id (·.id = id)
      (ids.foldlM (fun e x => of (Work.scheduleResume setup w suspended e x)) e : Call Execution) := by
    induction ids generalizing e with
    | nil => exact quiet_pure he
    | cons x rest ih =>
      rw [List.foldlM_cons]
      exact (quiet_of (Work.blind_scheduleResume w suspended e x) fun _ _ hrun =>
        (hgives e he x).result_of hrun).bind ih (holds_error _)
  exact all _ e he

theorem quiet_walk (cut : Cut setup) (w : Workflow) (starts : List Node) (he : e.id = id) :
    Quiet id (·.after.id = id) (walk cut w e starts) := by
  refine (quiet_look (P := fun q => q.2.execution.id = id) (fun _ _ => rfl) fun _ => he).bind ?_
    (holds_error _)
  rintro ⟨running, s⟩ hs
  have hwalk : (Coroutine.walk (cut.handle running w) w setup.config.maxIterations starts).Keeps
      (·.execution.id = id) :=
    keeps_walk (R := SameId) (fun _ _ => Eq.trans) (fun n => cut.keeps_id running w n id) w _ starts
  refine (quiet_ofSession hwalk hs).bind ?_ (holds_error _)
  rintro ⟨r, s⟩ hs
  refine (quiet_of (P := fun _ => True) (fun _ _ => rfl) fun _ _ _ => trivial).bind ?_ (holds_error _)
  exact fun _ _ => quiet_pure hs

theorem quiet_reopen (w : Workflow) (n : Node) (he : e.id = id) :
    Quiet id (·.1.id = id) (of (Work.reopen setup w e n)) := by
  refine quiet_of (Work.blind_reopen w e n) fun g q hrun => ?_
  obtain ⟨q', h, hrun', hnodes, -⟩ | ⟨fault, h, hrun', -⟩ := (Work.reopen_leads w e n g).cases
  · rw [hrun'] at hrun
    obtain rfl := Except.ok.inj hrun
    exact hnodes.id_eq.trans he
  · rw [hrun'] at hrun
    cases hrun

end Quiet

/-! ## What a call keeps -/

/-- What was kept is what a call ends with. -/
def Fits (kept? : Option Execution) (r : Except Fault Execution) : Prop := kept? = r.toOption

theorem fits_error (fault : Fault) : Fits none (.error fault) := rfl

variable {w : Workflow} {e : Execution}

theorem keepsOnce_settle (kind : EventKind) (he : e.id = id) :
    KeepsOnce id Fits none (settle setup kind e) := by
  refine .hand he ?_
  have hpublish (g : Engine) : ((Work.publishAt setup kind e none).run.run g).1 = .ok () := by
    refine ((Work.publishAt_leads kind e none g).mono ?_ fun _ _ hfalse => hfalse.elim).result
      (Q := fun r _ => r = .ok ())
    exact fun _ _ _ => rfl
  refine (keepsOnce_of (F := fun k r => k = some e ∧ r = .ok ()) (Work.blind_publishAt _ _ _)
    fun g => ⟨rfl, hpublish g⟩).bind ?_ ?_
  · rintro _ _ ⟨rfl, -⟩
    exact keepsOnce_pure rfl
  · rintro _ _ ⟨-, ⟨⟩⟩

theorem keepsOnce_conclude (w : Workflow) (r : Except Fault Walk) (he : e.id = id) :
    KeepsOnce id Fits none (conclude setup w e r) := by
  unfold conclude
  split
  · refine quiet_now.bind (fun time _ => keepsOnce_settle _ ?_) fits_error
    exact (Work.noted_note ..).nodes.id_eq.trans he
  · cases r with
    | error fault =>
      refine quiet_now.bind (fun time _ => ?_) fits_error
      refine (quiet_handleFailure w ?_).bind (fun f hf => keepsOnce_settle _ hf) fits_error
      exact (Work.noted_note ..).nodes.id_eq.trans he
    | ok walk =>
      refine (quiet_scheduleResumes w _ he).bind (fun f hf => ?_) fits_error
      split
      · refine quiet_now.bind (fun time _ => keepsOnce_settle _ ?_) fits_error
        exact (Work.noted_note ..).nodes.id_eq.trans hf
      · exact keepsOnce_settle _ ((Work.noted_note ..).nodes.id_eq.trans hf)

theorem keepsOnce_runSegment (cut : Cut setup) (w : Workflow) (starts : List Node) (he : e.id = id) :
    KeepsOnce id Fits none (runSegment cut w e starts) := by
  refine (quiet_walk cut w starts he).bind (fun p hp => ?_) fits_error
  refine ((keepsOnce_conclude w p.result hp).attempt
    (G := fun k r => ∃ r', r = .ok r' ∧ Fits k r') fun k r h => ⟨r, rfl, h⟩).bind ?_ ?_
  · rintro k ended ⟨_, ⟨⟩, hended⟩
    refine (keepsOnce_of (F := fun k' r => k' = k ∧ r = .ok ()) (fun _ _ => rfl)
      fun _ => ⟨rfl, rfl⟩).bind ?_ ?_
    · rintro _ _ ⟨rfl, -⟩
      exact keepsOnce_of (Work.blind_of ended) fun _ => hended
    · rintro _ _ ⟨-, ⟨⟩⟩
  · rintro _ _ ⟨_, ⟨⟩, -⟩

theorem keepsOnce_failResume (node reason : String) (he : e.id = id) :
    KeepsOnce id Fits none (failResume setup e node reason) :=
  quiet_now.bind (fun _ _ => keepsOnce_settle _ ((Work.noted_note ..).nodes.id_eq.trans he)) fits_error

/-- What was kept is what a call ends with, if it ends with anything. -/
def FitsAny (kept? : Option Execution) (r : Except Fault (Option Execution)) : Prop :=
  kept? = r.toOption.join

theorem KeepsOnce.any {c : Call Execution} (hc : KeepsOnce id Fits kept? c) :
    KeepsOnce id FitsAny kept? (do return some (← c)) := by
  refine hc.bind ?_ fun _ _ h => h
  rintro _ f rfl
  exact keepsOnce_pure rfl

theorem keepsOnce_resumeLoaded (cut : Cut setup) (node : String) (he : e.id = id) :
    KeepsOnce id FitsAny none (resumeLoaded cut e node) := by
  unfold resumeLoaded
  split
  · exact keepsOnce_pure rfl
  · refine (quiet_of (P := fun _ => True) (fun _ _ => rfl) fun _ _ _ => trivial).bind (fun w? _ => ?_)
      fun _ => rfl
    cases w? with
    | none => exact (keepsOnce_failResume _ _ he).any
    | some w =>
      dsimp only
      split
      · exact (keepsOnce_failResume _ _ he).any
      · next n hn =>
        refine KeepsOnce.any ?_
        exact (quiet_reopen w n he).bind (fun q hq => keepsOnce_runSegment cut w _ hq) fits_error

end Call

end Flowline
