import Flowline.Proofs.Engine.Kept

/-! # Operations as moves

Every operation leads from a regular engine to another one by moves, whether it fails or not. -/

namespace Flowline

namespace Work
open Execution Engine

variable {setup : Setup} {w : Workflow} {trigger context : Value} {g : Engine}

/-! ## Starting -/

theorem of_leads {α β : Type} {r : Except Fault α} {f : α → Work β} {ok : β → Engine → Prop}
    {fails : Fault → Engine → Prop} (hok : ∀ a, r = .ok a → Leads (f a) g ok fails)
    (hfails : ∀ fault, r = .error fault → fails fault g) : Leads (of r >>= f) g ok fails := by
  cases r with
  | error fault => exact leads_throw (α := β) (hfails fault rfl)
  | ok a => exact leads_bind (leads_pure (hok a rfl))

/-- What is refused has a part that fails. -/
theorem refuses {α : Type} {r : Except Fault α} {fault : Fault} (h : r = .error fault) :
    ¬ ∃ a, r = .ok a := by
  rintro ⟨a, ha⟩
  cases h.symm.trans ha

theorem countStart_leads (w : Workflow) (trigger context : Value) (g : Engine) :
    Leads (countStart w) g (fun _ h => g.Keeps h)
      fun _ h => g.Keeps h ∧ ¬ g.Allows w trigger context := by
  refine of_leads (fun limit hlimit => ?_) fun fault hfault => ⟨refl_of Keeps g, fun hallows => ?_⟩
  · refine leads_bind (leads_get ?_)
    have hkeeps (limiter : RateLimiter Float) : g.Keeps { g with limiter := limiter } :=
      ⟨rfl, rfl, rfl, rfl, rfl, rfl, fun _ hj => hj⟩
    rcases hacquire : g.limiter.acquire g.now.timestamp w.id limit with ⟨_ | _, limiter⟩
    · refine leads_bind (leads_set (leads_throw ⟨hkeeps limiter, fun hallows => ?_⟩))
      obtain ⟨limit', hlimit', hadmitted⟩ := hallows.limit
      obtain rfl := Except.ok.inj (hlimit.symm.trans hlimit')
      cases (congrArg Prod.fst hacquire).symm.trans hadmitted
    · exact leads_bind (leads_set (leads_pure (hkeeps limiter)))
  · obtain ⟨limit, hlimit, -⟩ := hallows.limit
    exact refuses hfault ⟨limit, hlimit⟩

/-- An execution that was made and has not begun. -/
structure Prepared (g : Engine) (e : Execution) : Prop where
  id_eq : e.id = executionId (g.started + 1)
  status_eq : e.status = .running
  states_eq : e.states = []
  blank : e.Blank

theorem newExecution_leads (w : Workflow) (trigger context : Value) (g g₀ : Engine) :
    Leads (newExecution w trigger context) g (fun e h => Prepared g e ∧ g.Keeps h)
      fun _ h => g.Keeps h ∧ ¬ g₀.Allows w trigger context := by
  have refused {α : Type} {r : Except Fault α} {fault : Fault} (hfault : r = .error fault)
      (hallows : g₀.Allows w trigger context → ∃ a, r = .ok a) :
      g.Keeps g ∧ ¬ g₀.Allows w trigger context :=
    ⟨refl_of Keeps g, fun h => refuses hfault (hallows h)⟩
  refine of_leads (fun trigger _ => ?_) fun _ hfault => refused hfault (·.trigger)
  refine of_leads (fun context _ => ?_) fun _ hfault => refused hfault (·.context)
  refine of_leads (fun vars _ => ?_) fun _ hfault => refused hfault (·.vars)
  exact leads_bind (leads_get (leads_pure ⟨⟨rfl, rfl, rfl, ⟨rfl, rfl⟩⟩, refl_of Keeps g⟩))

/-- An execution is started, unless the workflow cannot be run. -/
theorem start_leads (w : Workflow) (trigger context : Value) (g : Engine) :
    Leads (start setup w trigger context) g (fun e h => g.Started setup e h)
      fun _ h => g.Keeps h ∧ ¬ g.Allows w trigger context := by
  unfold start
  split
  · next hinactive =>
    refine leads_throw ⟨refl_of Keeps g, fun hallows => ?_⟩
    rw [hallows.active] at hinactive
    cases hinactive
  · refine Leads.bind (countStart_leads w trigger context g) ?_
    intro _ g₁ h₁
    refine Leads.bind ((newExecution_leads w trigger context g₁ g).mono (fun _ _ h => h)
      fun _ _ h => ⟨trans_of Keeps h₁ h.1, h.2⟩) ?_
    intro e g₂ ⟨hprepared, h₂⟩
    have hkeeps := trans_of Keeps h₁ h₂
    refine leads_bind (leads_modify (leads_bind (leads_modify (leads_bind (leads_modify ?_)))))
    refine Leads.bind ((publishAt_leads .started _ none _).mono (fun _ _ h => h)
      fun _ _ hfalse => hfalse.elim) ?_
    rintro _ g₃ rfl
    have hnoted := noted_note e "info" "Workflow execution started" [("trigger_type", e.triggerType)]
    refine leads_pure ⟨?_, ?_, ?_, hnoted.sameEnd.blank hprepared.blank, ?_, ?_, hkeeps.journal, ?_,
      hkeeps.jobs⟩
    · rw [hnoted.nodes.id_eq, hprepared.id_eq, h₁.started]
    · rw [hnoted.status_eq, hprepared.status_eq]
    · rw [hnoted.nodes.states_eq, hprepared.states_eq]
    · exact congrArg (· ++ setup.announced .started _ none) hkeeps.events
    · exact congrArg (Memory.saveExecution · _) hkeeps.memory
    · exact congrArg (· + 1) hkeeps.started

theorem mem_of_mem_startNodes {w : Workflow} {n : Node} (hn : n ∈ w.startNodes) : n ∈ w.nodes := by
  unfold Workflow.startNodes at hn
  dsimp only at hn
  split at hn
  · exact (List.mem_filter.1 hn).1
  · exact (List.mem_filter.1 hn).1

/-- An engine that has told how a segment of an execution begins. -/
structure Enters (g : Engine) (id : String) (news : List Event) (h : Engine) : Prop where
  aside : g.Aside h
  schedule : h.schedule = g.schedule
  running : h.running.filter (· != id) = g.running.filter (· != id)
  events : h.events = g.events ++ news

/-- Running a segment of a kept execution that can go on. -/
theorem segment_leads {kept e : Execution} {starts : List Node} {p : Passage} {news : List Event}
    {g₁ : Engine} (hstored : g.stored? e.id = some kept) (hopen : kept.status.isResumable = true)
    (hnodes : SameNodes kept e) (hblank : kept.Blank → e.Blank) (hkept : kept.Sound setup.actions)
    (henters : Enters g e.id news g₁) (hp : p = passage setup w e starts g₁) (horigin : Origin kept p)
    (hopens : Opens setup kept p news) :
    Leads (runSegment setup w e starts) g₁
      (fun f h => g.Segment setup kept p h ∧ Posts setup (g.telling news) p f h)
      fun _ h => g.Segment setup kept p h ∧ Strands setup (g.telling news) p h := by
  subst hp
  have passes {h : Engine} (hpasses : Passes g₁ (passage setup w e starts g₁) h) :
      Passes g (passage setup w e starts g₁) h := by
    refine ⟨hpasses.running.trans henters.running, ?_, ?_, fun j hj => ?_⟩
    · rw [hpasses.journal, henters.aside.journal]
    · rw [hpasses.started, henters.aside.started]
    · exact hpasses.jobs j (henters.aside.jobs j hj)
  refine (runSegment_leads w starts (hnodes.sound hkept) rfl).mono ?_ ?_
  · intro f h ⟨hposts, hpasses⟩
    have hposts : Posts setup (g.telling news) (passage setup w e starts g₁) f h := by
      refine ⟨hposts.clear, hposts.outcome, hposts.dated, ?_, ?_⟩
      · rw [hposts.memory, henters.aside.memory, telling]
      · rw [hposts.events, henters.events, telling]
    exact ⟨⟨hstored, hopen, hnodes, hblank, horigin, ⟨g₁, rfl⟩, passes hpasses, news, hopens,
      .inl ⟨f, hposts⟩⟩, hposts⟩
  · intro fault h ⟨hstrands, hpasses⟩
    have hstrands : Strands setup (g.telling news) (passage setup w e starts g₁) h :=
      ⟨hstrands.stranded, hstrands.memory.trans henters.aside.memory,
        hstrands.events.trans henters.events⟩
    exact ⟨⟨hstored, hopen, hnodes, hblank, horigin, ⟨g₁, rfl⟩, passes hpasses, news, hopens,
      .inr hstrands⟩, hstrands⟩

/-- A workflow that is run: its execution is started, and its first segment made. -/
theorem execute_moves (w : Workflow) (trigger context : Value) (g : Engine) :
    Leads (execute setup w trigger context) g (fun _ h => Moves setup g h)
      fun _ h => Moves setup g h := by
  refine Leads.bind ((start_leads w trigger context g).mono (fun _ _ h => h)
    fun _ _ h => .single (.aside h.1.aside h.1.events)) ?_
  intro e g₁ hstarted
  have hstored : g₁.stored? e.id = some e := by
    rw [stored?, hstarted.aside.memory]
    exact Table.get?_put_self _ _ _
  have hopen : e.status.isResumable = true := by
    rw [hstarted.status_eq]
    rfl
  have henters : Enters g₁ e.id [] g₁ := ⟨refl_of Aside g₁, rfl, rfl, (List.append_nil _).symm⟩
  refine (segment_leads hstored hopen (.refl e) id (sound_of_no_states hstarted.states_eq) henters rfl
    (.first hstarted.states_eq rfl) (.first hstarted.status_eq)).mono ?_ ?_
  · rintro f h ⟨hsegment, -⟩
    exact .tail (.single (.start e hstarted)) (.segment e _ hsegment)
  · rintro fault h ⟨hsegment, -⟩
    exact .tail (.single (.start e hstarted)) (.segment e _ hsegment)

/-! ## Resuming -/

theorem id_of_node? {w : Workflow} {id : String} {n : Node} (h : w.node? id = some n) : n.id = id := by
  have hid := List.find?_some h
  exact eq_of_beq hid

theorem mem_of_node? {w : Workflow} {id : String} {n : Node} (h : w.node? id = some n) : n ∈ w.nodes :=
  List.mem_of_find?_eq_some h

theorem isWaitingOwner_of_waitingOwner {e : Execution} {id : String} {nodes : List Node} {owner : Node}
    (h : waitingOwner? e id nodes = .ok (some owner)) :
    owner ∈ nodes ∧ isWaitingOwner e id owner = .ok true := by
  induction nodes with
  | nil => cases h
  | cons n rest ih =>
    obtain ⟨owns, howns, h⟩ := bind_eq_ok.1 h
    cases owns with
    | true =>
      obtain rfl := Option.some.inj (Except.ok.inj h)
      exact ⟨List.mem_cons_self .., howns⟩
    | false => exact ⟨List.mem_cons_of_mem n (ih h).1, (ih h).2⟩

/-- A parallel node that waits for a node is a node of the workflow, and waits itself. -/
theorem waitingOwner_waits {e : Execution} {id : String} {nodes : List Node} {owner : Node}
    (h : waitingOwner? e id nodes = .ok (some owner)) :
    owner ∈ nodes ∧ e.isWaiting owner.id = true := by
  obtain ⟨hmem, howns⟩ := isWaitingOwner_of_waitingOwner h
  refine ⟨hmem, ?_⟩
  unfold isWaitingOwner at howns
  split at howns
  · cases howns
  · obtain ⟨branches, -, howns⟩ := bind_eq_ok.1 howns
    obtain ⟨lists, -, howns⟩ := bind_eq_ok.1 howns
    exact (Bool.and_eq_true_iff.1 (Except.ok.inj howns)).2

theorem enter_filter (running : List String) (id : String) :
    (if running.contains id then running else running ++ [id]).filter (· != id) =
      running.filter (· != id) := by
  split
  · rfl
  · rw [List.filter_append, List.filter_cons_of_neg (by rw [bne_self_eq_false]; exact Bool.false_ne_true),
      List.filter_nil, List.append_nil]

/-- An execution is set going again at a node that waits. -/
theorem reopen_leads (w : Workflow) (e : Execution) (n : Node) (g : Engine) :
    Leads (reopen setup w e n) g
      (fun r h => SameNodes e r.1 ∧ SameEnd e r.1 ∧
        Enters g r.1.id (setup.announced .resumed r.1 (some n.id)) h ∧
        ∃ owner?, waitingOwner? e n.id w.nodes = .ok owner? ∧ r.2 = owner?.getD n)
      fun fault h => waitingOwner? e n.id w.nodes = .error fault ∧ h = g := by
  unfold reopen
  cases howner : waitingOwner? e n.id w.nodes with
  | error fault => exact leads_throw (α := Execution × Node) ⟨rfl, rfl⟩
  | ok owner? =>
    refine leads_bind (leads_pure (leads_bind (leads_modify ?_)))
    refine Leads.bind ((publishAt_leads .resumed _ (some n.id) _).mono (fun _ _ h => h)
      fun _ _ hfalse => hfalse.elim) ?_
    rintro _ h rfl
    have hreopened : SameNodes e { e with
        logLevel := (w.settingOr (.str "log_level") (.str "info")).text, status := .running } :=
      ⟨rfl, rfl, rfl, rfl⟩
    have hnoted := noted_note { e with
        logLevel := (w.settingOr (.str "log_level") (.str "info")).text, status := .running } "info"
      "Workflow execution resumed" [("node_id", .str n.id)]
    generalize note _ _ _ _ = f at hnoted ⊢
    refine leads_pure ⟨hreopened.trans hnoted.nodes, ?_, ?_, owner?, rfl, rfl⟩
    · exact ⟨hnoted.sameEnd.completedAt, hnoted.sameEnd.error⟩
    · exact ⟨⟨rfl, rfl, rfl, fun _ hj => hj⟩, rfl, enter_filter _ _, rfl⟩

/-- A segment that sets a kept execution going again at a node, or at the parallel node that waits for
it. -/
structure Resumption (setup : Setup) (g : Engine) (kept : Execution) (w : Workflow) (n : Node)
    (p : Passage) (h : Engine) : Prop where
  segment : g.Segment setup kept p h
  waits : kept.isWaiting n.id = true
  workflow : p.workflow = w
  starts : ∃ owner?, waitingOwner? kept.reloaded n.id w.nodes = .ok owner? ∧ p.starts = [owner?.getD n]

/-- What comes of resuming a kept execution at a node. -/
inductive Resumed (setup : Setup) (g : Engine) (kept : Execution) (node : String) (h : Engine) :
    Except Fault (Option Execution) → Prop
  | idle (hidle : (!kept.status.isResumable || !kept.isWaiting node) = true) (heq : h = g) :
    Resumed setup g kept node h (.ok none)
  | close (hopen : kept.status.isResumable = true) (hwaits : kept.isWaiting node = true)
    (hgone : ∀ w, g.memory.workflow? kept.workflowId = some w → w.node? node = none)
    (f : Execution) (hid : f.id = kept.id) (hcloses : g.Closes setup f h) :
    Resumed setup g kept node h (.ok (some f))
  | refused (w : Workflow) (n : Node) (hw : g.memory.workflow? kept.workflowId = some w)
    (hn : w.node? node = some n) (fault : Fault)
    (howner : waitingOwner? kept.reloaded n.id w.nodes = .error fault) (heq : h = g) :
    Resumed setup g kept node h (.error fault)
  | settled (w : Workflow) (n : Node) (hw : g.memory.workflow? kept.workflowId = some w)
    (hn : w.node? node = some n) (p : Passage) (hresumption : Resumption setup g kept w n p h)
    (f : Execution) (hposts : Posts setup (g.telling (setup.announced .resumed p.before (some node))) p f h) :
    Resumed setup g kept node h (.ok (some f))
  | stranded (w : Workflow) (n : Node) (hw : g.memory.workflow? kept.workflowId = some w)
    (hn : w.node? node = some n) (p : Passage) (hresumption : Resumption setup g kept w n p h)
    (fault : Fault)
    (hstrands : Strands setup (g.telling (setup.announced .resumed p.before (some node))) p h) :
    Resumed setup g kept node h (.error fault)

variable {kept : Execution} {id node : String}

theorem Ends.closes {status : ExecutionStatus} {e f : Execution} {h : Engine}
    (hends : Ends setup status e g f h) (hstored : g.stored? kept.id = some kept)
    (hopen : kept.status.isTerminal = false) (hnodes : SameNodes kept e) (hblank : kept.Blank → e.Blank)
    (hstatus : status = .failed ∨ status = .cancelled) : f.id = kept.id ∧ g.Closes setup f h := by
  have hnodes := hnodes.trans hends.nodes
  refine ⟨hnodes.id_eq, ⟨kept, ?_, hopen, hnodes, fun h => hends.dated (hblank h)⟩, ?_,
    hends.keeps.events, ⟨hends.keeps.memory, hends.keeps.journal, hends.keeps.started, hends.keeps.jobs⟩⟩
  · rw [hnodes.id_eq]
    exact hstored
  · rw [hends.status_eq]
    exact hstatus

theorem failResume_leads (hstored : g.stored? kept.id = some kept)
    (hopen : kept.status.isResumable = true) (reason : String) :
    Leads (failResume setup kept.reloaded node reason) g
      (fun f h => f.id = kept.id ∧ g.Closes setup f h) fun _ _ => False := by
  refine leads_bind (leads_bind (leads_get (leads_pure ?_)))
  have hfailed : SameNodes kept.reloaded { kept.reloaded with
      status := .failed, error? := some reason, completedAt? := some g.now } := ⟨rfl, rfl, rfl, rfl⟩
  have hnoted := noted_note { kept.reloaded with
      status := .failed, error? := some reason, completedAt? := some g.now } "error" "Resume failed"
    [("error", .str reason), ("node_id", .str node)]
  refine (settle_ends rfl (hfailed.trans hnoted.nodes) hnoted.status_eq
    fun _ => hnoted.dated ⟨rfl, rfl⟩).mono ?_ fun _ _ hfalse => hfalse
  intro f h hends
  exact hends.closes hstored (ExecutionStatus.not_isTerminal_of_isResumable hopen) ⟨rfl, rfl, rfl, rfl⟩
    Blank.reloaded (.inl rfl)

theorem resumeAt_leads {w : Workflow} {n : Node} (hg : g.Kept setup)
    (hstored : g.stored? kept.id = some kept) (hopen : kept.status.isResumable = true)
    (hw : g.memory.workflow? kept.workflowId = some w) (hn : w.node? node = some n)
    (hwaits : kept.isWaiting node = true) :
    Leads (resumeAt setup w kept.reloaded n) g
      (fun f h => Resumed setup g kept node h (.ok (some f)))
      fun fault h => Resumed setup g kept node h (.error fault) := by
  have hid : n.id = node := id_of_node? hn
  refine Leads.bind ((reopen_leads w kept.reloaded n g).mono (fun _ _ h => h) ?_) ?_
  · intro fault h ⟨howner, heq⟩
    exact .refused w n hw hn fault howner heq
  · rintro ⟨e, start⟩ g₁ ⟨hnodes, hend, henters, owner?, howner, hstart⟩
    have hnodes : SameNodes kept e := (⟨rfl, rfl, rfl, rfl⟩ : SameNodes kept kept.reloaded).trans hnodes
    have hstored₁ : g.stored? e.id = some kept := hnodes.id_eq ▸ hstored
    have hstart : [start] = [owner?.getD n] := congrArg (fun m => [m]) hstart
    have horigin : Origin kept (passage setup w e [start] g₁) :=
      .again n owner? (mem_of_node? hn) (hid ▸ hwaits) howner hstart
    have henters : Enters g e.id (setup.announced .resumed e (some node)) g₁ := hid ▸ henters
    have resumption {h : Engine}
        (hsegment : g.Segment setup kept (passage setup w e [start] g₁) h) :
        Resumption setup g kept w n (passage setup w e [start] g₁) h :=
      ⟨hsegment, hid ▸ hwaits, rfl, owner?, howner, hstart⟩
    refine (segment_leads hstored₁ hopen hnodes (fun hblank => hend.blank hblank.reloaded)
      (hg.regular _ kept hstored).sound henters rfl horigin (.again node hwaits)).mono ?_ ?_
    · intro f h ⟨hsegment, hposts⟩
      exact .settled w n hw hn _ (resumption hsegment) f hposts
    · intro fault h ⟨hsegment, hstrands⟩
      exact .stranded w n hw hn _ (resumption hsegment) fault hstrands

theorem resumeLoaded_leads (hg : g.Kept setup) (hstored : g.stored? kept.id = some kept) (node : String) :
    Leads (resumeLoaded setup kept.reloaded node) g (fun r h => Resumed setup g kept node h (.ok r))
      fun fault h => Resumed setup g kept node h (.error fault) := by
  unfold resumeLoaded
  split
  · next hidle => exact leads_pure (.idle hidle rfl)
  · next hopen =>
    have hresumable : kept.status.isResumable = true := by
      cases h : kept.status.isResumable with
      | true => rfl
      | false => exact absurd (by rw [show kept.reloaded.status = kept.status from rfl, h]; rfl) hopen
    have hwaits : kept.isWaiting node = true := by
      cases h : kept.isWaiting node with
      | true => rfl
      | false =>
        refine absurd ?_ hopen
        rw [show kept.reloaded.isWaiting node = kept.isWaiting node from rfl, h]
        exact Bool.or_true _
    refine leads_bind (leads_bind (leads_get (leads_pure ?_)))
    have close (reason : String)
        (hgone : ∀ w, g.memory.workflow? kept.workflowId = some w → w.node? node = none) : Leads (do
          let f ← failResume setup kept.reloaded node reason
          return some f) g (fun r h => Resumed setup g kept node h (.ok r))
          fun fault h => Resumed setup g kept node h (.error fault) := by
      refine Leads.bind ((failResume_leads hstored hresumable reason).mono (fun _ _ h => h)
        fun _ _ hfalse => hfalse.elim) ?_
      exact fun f h ⟨hid, hcloses⟩ => leads_pure (.close hresumable hwaits hgone f hid hcloses)
    cases hw : g.memory.workflow? kept.reloaded.workflowId with
    | none => exact close _ fun w hw' => nomatch hw.symm.trans hw'
    | some w =>
      dsimp only
      cases hn : w.node? node with
      | none => exact close _ fun w' hw' => Option.some.inj (hw.symm.trans hw') ▸ hn
      | some n =>
        refine Leads.bind (resumeAt_leads hg hstored hresumable hw hn hwaits) ?_
        exact fun f h hresumed => leads_pure hresumed

theorem Resumed.moves {h : Engine} {r : Except Fault (Option Execution)}
    (hresumed : Resumed setup g kept node h r) : Moves setup g h := by
  cases hresumed with
  | idle _ heq => exact heq ▸ .refl
  | close _ _ _ f _ hcloses => exact .single (.close f hcloses)
  | refused _ _ _ _ _ _ heq => exact heq ▸ .refl
  | settled _ _ _ _ p hresumption => exact .single (.segment kept p hresumption.segment)
  | stranded _ _ _ _ p hresumption => exact .single (.segment kept p hresumption.segment)

theorem passage_inj {p q : Passage} {h : Engine} (hp : h.journal = g.journal ++ [p])
    (hq : h.journal = g.journal ++ [q]) : p = q :=
  List.singleton_inj.1 (List.append_cancel_left (hp.symm.trans hq))

theorem journal_ne {p : Passage} {h : Engine} (hp : h.journal = g.journal ++ [p]) :
    h.journal ≠ g.journal := by
  intro hsame
  have hlength := congrArg List.length (hp.symm.trans hsame)
  rw [List.length_append, List.length_singleton] at hlength
  omega

theorem Resumption.journal {w : Workflow} {n : Node} {p : Passage} {h : Engine}
    (hresumption : Resumption setup g kept w n p h) : h.journal = g.journal ++ [p] :=
  hresumption.segment.passes.journal

/-- A resumption for which a walk is made is one at a node of the workflow. -/
theorem Resumed.resumption {h : Engine} {r : Except Fault (Option Execution)} {p : Passage}
    (hresumed : Resumed setup g kept node h r) (hp : h.journal = g.journal ++ [p]) :
    ∃ w n, Resumption setup g kept w n p h := by
  cases hresumed with
  | idle _ heq => exact absurd (heq ▸ rfl) (journal_ne hp)
  | close _ _ _ f _ hcloses => exact absurd hcloses.aside.journal (journal_ne hp)
  | refused _ _ _ _ _ _ heq => exact absurd (heq ▸ rfl) (journal_ne hp)
  | settled w n _ _ q hresumption | stranded w n _ _ q hresumption =>
    obtain rfl := passage_inj hp hresumption.journal
    exact ⟨w, n, hresumption⟩

theorem execution?_leads {ok : Option Execution → Engine → Prop} {fails : Fault → Engine → Prop}
    (h : ok ((g.stored? id).map reloaded) g) : Leads (execution? id) g ok fails := h

/-! ## Moves -/

/-- A computation that leads to another engine by moves, whether it fails or not. -/
def LeadsByMoves {α : Type} (setup : Setup) (m : Work α) : Prop :=
  ∀ g, g.Kept setup → Leads m g (fun _ h => Moves setup g h) fun _ h => Moves setup g h

theorem moves_resume (id node : String) : LeadsByMoves setup (resume setup id node) := by
  intro g hg
  refine leads_bind (execution?_leads ?_)
  cases hstored : g.stored? id with
  | none => exact leads_pure .refl
  | some kept =>
    obtain rfl := (hg.ids id kept hstored).1
    exact (resumeLoaded_leads hg hstored node).mono (fun _ _ h => h.moves) fun _ _ h => h.moves

theorem moves_deliverSignal (id node : String) (payload : Value) :
    LeadsByMoves setup (deliverSignal setup id node payload) := by
  intro g hg
  have haside : g.Aside { g with signals := g.signals.put id node payload } :=
    ⟨rfl, rfl, rfl, fun _ hj => hj⟩
  have hkept : Kept setup { g with signals := g.signals.put id node payload } := hg.of_memory rfl rfl
  refine leads_bind (leads_modify ?_)
  refine (moves_resume id node _ hkept).mono ?_ ?_
  · exact fun _ h hmoves => .head (.aside haside rfl) hmoves
  · exact fun _ h hmoves => .head (.aside haside rfl) hmoves

theorem moves_cancel (id : String) : LeadsByMoves setup (cancel setup id) := by
  intro g hg
  refine leads_bind (execution?_leads ?_)
  cases hstored : g.stored? id with
  | none => exact leads_pure .refl
  | some kept =>
    dsimp only [Option.map_some]
    split
    · exact leads_pure .refl
    · next hopen =>
      obtain rfl := (hg.ids id kept hstored).1
      refine Leads.bind ((endCancelled_leads _ rfl).mono (fun _ _ h => h) fun _ _ hfalse => hfalse.elim) ?_
      intro f h hends
      have hblank (hkept : kept.Blank) : Blank { kept.reloaded with status := .cancelled } :=
        ⟨hkept.reloaded.completedAt, hkept.reloaded.error⟩
      obtain ⟨-, hcloses⟩ := hends.closes hstored (Bool.eq_false_iff.2 hopen) ⟨rfl, rfl, rfl, rfl⟩ hblank
        (.inr rfl)
      exact leads_pure (.single (.close f hcloses))

theorem moves_execute (w : Workflow) (trigger context : Value) :
    LeadsByMoves setup (execute setup w trigger context) :=
  fun g _ => execute_moves w trigger context g

theorem moves_executeById (id : String) (trigger context : Value) :
    LeadsByMoves setup (executeById setup id trigger context) := by
  intro g hg
  refine leads_bind (leads_bind (leads_get (leads_pure ?_)))
  cases g.memory.workflow? id with
  | none => exact leads_throw .refl
  | some w => exact execute_moves w trigger context g

theorem moves_runResumeJob (payload : List (Scalar × Value)) :
    LeadsByMoves setup (runResumeJob setup payload) := by
  intro g hg
  refine of_leads (fun id _ => ?_) fun _ _ => .refl
  refine of_leads (fun node _ => ?_) fun _ _ => .refl
  refine of_leads (fun id? _ => ?_) fun _ _ => .refl
  cases id? with
  | none => exact leads_pure .refl
  | some id =>
    refine leads_bind (execution?_leads ?_)
    cases hstored : g.stored? id with
    | none => exact leads_pure .refl
    | some kept =>
      dsimp only [Option.map_some]
      split
      · exact leads_pure .refl
      · refine of_leads (fun node? _ => ?_) fun _ _ => .refl
        cases node? with
        | none => exact leads_pure .refl
        | some node =>
          obtain rfl := (hg.ids id kept hstored).1
          exact (resumeLoaded_leads hg hstored node).mono (fun _ _ h => h.moves) fun _ _ h => h.moves

theorem moves_runJob (payload : Value) : LeadsByMoves setup (runJob setup payload) := by
  intro g hg
  unfold runJob
  split
  · split
    · exact moves_runResumeJob _ g hg
    · refine of_leads (fun id _ => ?_) fun _ _ => .refl
      refine of_leads (fun id? _ => ?_) fun _ _ => .refl
      cases id? with
      | none => exact leads_throw .refl
      | some id =>
        refine Leads.bind (moves_executeById id _ _ g hg) ?_
        exact fun _ _ hmoves => leads_pure hmoves
    · exact leads_pure .refl
  · exact leads_throw .refl

end Work

/-! ## Histories -/

namespace Engine

variable {setup : Setup} {g h : Engine}

theorem Origin.waits {e : Execution} {p : Passage} (horigin : Origin e p) :
    e.states = [] ∨ ∃ n, p.starts = [n] ∧ e.isWaiting n.id = true := by
  cases horigin with
  | first hnone _ => exact .inl hnone
  | again n owner? hn hwaits howner hstarts =>
    refine .inr ⟨_, hstarts, ?_⟩
    cases owner? with
    | none => exact hwaits
    | some owner => exact (Work.waitingOwner_waits howner).2

theorem Origin.members {e : Execution} {p : Passage} (horigin : Origin e p) {m : Node}
    (hm : m ∈ p.starts) : m ∈ p.workflow.nodes := by
  cases horigin with
  | first _ hstarts => exact Work.mem_of_mem_startNodes (hstarts ▸ hm)
  | again n owner? hn _ howner hstarts =>
    obtain rfl := List.mem_singleton.1 (hstarts ▸ hm)
    cases owner? with
    | none => exact hn
    | some owner => exact (Work.waitingOwner_waits howner).1

/-- What happens to an engine besides moves: jobs are taken from the schedule. -/
inductive Step (setup : Setup) (g h : Engine) : Prop
  | move (hmove : Move setup g h)
  | reschedule (schedule : Schedule Float Value) (heq : h = { g with schedule := schedule })

abbrev Steps (setup : Setup) : Engine → Engine → Prop := Relation.ReflTransGen (Step setup)

theorem Moves.steps (hmoves : Moves setup g h) : Steps setup g h := by
  induction hmoves with
  | refl => exact .refl
  | tail _ hmove ih => exact .tail ih (.move hmove)

/-- The walks that a step adds to the journal are those of segments. -/
theorem Step.adds {P : Passage → Prop} (hstep : Step setup g h)
    (hP : ∀ kept p, g.Segment setup kept p h → P p) : Adds P g h := by
  cases hstep with
  | reschedule schedule heq => exact .of_journal (heq ▸ rfl)
  | move hmove =>
    cases hmove with
    | aside haside _ => exact .of_journal haside.journal
    | start e hstarted => exact .of_journal hstarted.aside.journal
    | close f hcloses => exact .of_journal hcloses.aside.journal
    | segment kept p hsegment => exact .single hsegment.passes.journal (hP kept p hsegment)

theorem Step.kept (hstep : Step setup g h) (hg : g.Kept setup) : h.Kept setup := by
  cases hstep with
  | move hmove => exact hmove.kept hg
  | reschedule schedule heq => exact hg.of_memory (heq ▸ rfl) (heq ▸ rfl)

theorem Steps.kept (hsteps : Steps setup g h) (hg : g.Kept setup) : h.Kept setup := by
  induction hsteps with
  | refl => exact hg
  | tail _ hstep ih => exact hstep.kept ih

/-- The workflows that an engine knows stay the same. -/
theorem Step.workflows (hstep : Step setup g h) : h.memory.workflows = g.memory.workflows := by
  cases hstep with
  | reschedule schedule heq => rw [heq]
  | move hmove =>
    cases hmove with
    | aside haside => rw [haside.memory]
    | start e hstarted =>
      rw [hstarted.aside.memory]
      rfl
    | close f hcloses =>
      rw [hcloses.aside.memory]
      rfl
    | segment kept p hsegment =>
      obtain ⟨news, -, ⟨f, hposts⟩ | hstrands⟩ := hsegment.outcome
      · rw [hposts.memory]
        rfl
      · rw [hstrands.memory]
        rfl

theorem Steps.workflows (hsteps : Steps setup g h) : h.memory.workflows = g.memory.workflows := by
  induction hsteps with
  | refl => rfl
  | tail _ hstep ih => exact hstep.workflows.trans ih

/-- Delivers a job: what it fails with is dropped. -/
def deliver (setup : Setup) (g : Engine) (job : Job Float Value) : Engine :=
  ((Work.runJob setup job.payload).run.run g).2

theorem after_runDue (setup : Setup) (g : Engine) (time : Float) :
    g.after setup (.runDue time) =
      (g.schedule.takeDue time).1.foldl (deliver setup) (g.takeDue time) := rfl

theorem deliver_moves (hg : g.Kept setup) (job : Job Float Value) : Moves setup g (g.deliver setup job) :=
  (Work.moves_runJob job.payload g hg).state

/-- An operation that takes no jobs from the schedule is made of moves. -/
theorem after_moves (setup : Setup) (hg : g.Kept setup) (op : Operation) :
    Moves setup g (g.after setup op) ∨ (∃ time, op = .runDue time) ∨ ∃ time, op = .takeDue time := by
  cases op with
  | execute w trigger context => exact .inl (Work.moves_execute w trigger context g hg).state
  | executeById id trigger context => exact .inl (Work.moves_executeById id trigger context g hg).state
  | resume id node => exact .inl (Work.moves_resume id node g hg).state
  | deliverSignal id node payload => exact .inl (Work.moves_deliverSignal id node payload g hg).state
  | cancel id => exact .inl (Work.moves_cancel id g hg).state
  | runJob payload => exact .inl (Work.moves_runJob payload g hg).state
  | setClock now => exact .inl (.single (.aside ⟨rfl, rfl, rfl, fun _ hj => hj⟩ rfl))
  | runDue time => exact .inr (.inl ⟨time, rfl⟩)
  | takeDue time => exact .inr (.inr ⟨time, rfl⟩)

theorem deliver_all_steps (hg : g.Kept setup) (jobs : List (Job Float Value)) :
    Steps setup g (jobs.foldl (deliver setup) g) := by
  induction jobs generalizing g with
  | nil => exact .refl
  | cons job rest ih =>
    have hmoves : Moves setup g (g.deliver setup job) := deliver_moves hg job
    exact hmoves.steps.trans (ih (hmoves.kept hg))

theorem after_steps (hg : g.Kept setup) (op : Operation) : Steps setup g (g.after setup op) := by
  obtain hmoves | ⟨time, rfl⟩ | ⟨time, rfl⟩ := after_moves setup hg op
  · exact hmoves.steps
  · rw [after_runDue]
    have htaken : Kept setup (g.takeDue time) := hg.of_memory rfl rfl
    exact .head (.reschedule _ rfl) (deliver_all_steps htaken _)
  · exact .single (.reschedule _ rfl)

theorem run_steps (hg : g.Kept setup) (ops : List Operation) : Steps setup g (g.run setup ops) := by
  induction ops generalizing g with
  | nil => exact .refl
  | cons op rest ih =>
    have hsteps : Steps setup g (g.after setup op) := after_steps hg op
    exact hsteps.trans (ih (hsteps.kept hg))

theorem Reached.kept {allowed : Operation → Prop} (hreached : Reached setup allowed g) : g.Kept setup := by
  induction hreached with
  | start now tick workflows =>
    refine ⟨List.nodup_nil, fun id e he => ?_, fun id e he => ?_⟩
    · cases he
    · cases he
  | step _ _ ih => exact (after_steps ih _).kept ih

/-- The walks that were made left sound executions behind. -/
theorem Steps.adds_sound (hsteps : Steps setup g h) (hg : g.Kept setup) :
    Adds (·.after.Sound setup.actions) g h := by
  induction hsteps with
  | refl => exact .of_journal rfl
  | tail hbefore hstep ih =>
    refine ih.trans (hstep.adds fun kept p hsegment => ?_)
    obtain ⟨-, -, hlater, -⟩ := hsegment.facts (Steps.kept hbefore hg)
    exact hlater.sound

theorem Reached.sound {allowed : Operation → Prop} (hreached : Reached setup allowed g) :
    ∀ p ∈ g.journal, p.after.Sound setup.actions := by
  induction hreached with
  | start now tick workflows => exact fun p hp => absurd hp List.not_mem_nil
  | step hbefore hallowed ih =>
    intro p hp
    obtain ⟨later, hjournal, hlater⟩ := (after_steps hbefore.kept _).adds_sound hbefore.kept
    rw [hjournal] at hp
    obtain hp | hp := List.mem_append.1 hp
    · exact ih p hp
    · exact hlater p hp

end Engine

end Flowline
