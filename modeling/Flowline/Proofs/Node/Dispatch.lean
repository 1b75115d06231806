import Flowline.Proofs.Node.Suspension

/-! # Running a node

Running a node leads from a sound execution to a later one, and to a result that can be recorded, whatever
runs inside it. A parallel node records anew each branch that it runs. -/

namespace Flowline

variable {actions : Actions}

/-- A node whose result can be recorded, as a growing part of its own if it waits. -/
def Dispatches (actions : Actions) (inner : Node → Run NodeResult) : Prop :=
  ∀ n s, s.execution.Sound actions →
    Reaches actions s (fun r f => r.Reported actions s.execution.nextNumber f) (inner n)

namespace Node
open NodeResult Execution

/-! ## Loops -/

/-- Outputs whose growing parts have numbers that were given out. -/
def Known (outputs : List Output) (e : Execution) : Prop :=
  ∀ o ∈ outputs, ∀ p ∈ o.growing, p.2 < e.nextNumber

theorem Known.later {outputs : List Output} {e f : Execution} (h : Known outputs e)
    (hlater : Later actions e f) : Known outputs f := fun o ho => hlater.below (h o ho)

theorem known_append {outputs : List Output} {o : Output} {e : Execution} (h : Known outputs e)
    (ho : ∀ p ∈ o.growing, p.2 < e.nextNumber) : Known (outputs ++ [o]) e := by
  intro q hq
  obtain hq | hq := List.mem_append.1 hq
  · exact h q hq
  · obtain rfl := List.mem_singleton.1 hq
    exact ho

theorem mem_growing_ofList {items : List Output} {p : List Step × Nat}
    (hp : p ∈ (Output.ofList items).growing) : ∃ o ∈ items, ∃ part ∈ o.growing, p.2 = part.2 := by
  obtain ⟨⟨o, i⟩, ho, hp⟩ := List.mem_flatMap.1 hp
  obtain ⟨part, hpart, rfl⟩ := List.mem_map.1 hp
  exact ⟨o, (List.mem_zipIdx' ho).2 ▸ List.getElem_mem _, part, hpart, rfl⟩

theorem raw_loopResult {results : List Output} {e : Execution} (h : Known results e) :
    (loopResult results).Raw actions e := by
  refine raw_under [("iterations", .ofNat results.length)] "results" (.ofList results) rfl rfl
    (by decide) fun p hp => ?_
  obtain ⟨o, ho, part, hpart, heq⟩ := mem_growing_ofList hp
  rw [heq]
  exact h o ho part hpart

section Loops
variable {inner : Node → Run NodeResult} (hinner : Dispatches actions inner) {s : Session}
include hinner

theorem runBody_reaches (body? : Option Node) (index : Nat) (hs : s.execution.Sound actions) :
    Reaches actions s (fun r f => (∀ p ∈ r.1.growing, p.2 < f.nextNumber) ∧
      ∀ failure, r.2 = some failure → failure.Plain) (runBody inner body? index) := by
  cases body? with
  | none => exact Reaches.pure hs ⟨fun p hp => absurd hp List.not_mem_nil, by rintro r ⟨⟩⟩
  | some body =>
    refine (hinner body s hs).bind fun r t hlater hr => ?_
    split
    · refine Reaches.pure hlater.sound ⟨hr.admits.below, ?_⟩
      rintro _ ⟨⟩
      exact plain_failure _
    · split
      · refine Reaches.pure hlater.sound ⟨hr.admits.below, ?_⟩
        rintro _ ⟨⟩
        exact plain_failure _
      · exact Reaches.pure hlater.sound ⟨hr.admits.below, by rintro _ ⟨⟩⟩

theorem loopItems_reaches (body? : Option Node) (names : LoopNames) (results : List Output)
    (pairs : List (Value × Value)) (hs : s.execution.Sound actions) (hknown : Known results s.execution) :
    Reaches actions s (fun r f => r.Raw actions f) (loopItems inner body? names results pairs) := by
  induction pairs generalizing s results with
  | nil => exact Reaches.pure hs (raw_loopResult hknown)
  | cons pair rest ih =>
    refine ((Run.within_setNamed _ _).reaches hs).bind fun _ t₁ h₁ _ => ?_
    refine ((Run.within_setNamed _ _).reaches h₁.sound).bind fun _ t₂ h₂ _ => ?_
    refine ((Run.within_setNamed _ _).reaches h₂.sound).bind fun _ t₃ h₃ _ => ?_
    refine (runBody_reaches hinner body? _ h₃.sound).bind fun r t₄ h₄ hr => ?_
    obtain ⟨output, failure?⟩ := r
    have hlater := ((h₁.trans h₂).trans h₃).trans h₄
    cases failure? with
    | some failure => exact Reaches.pure h₄.sound (hr.2 failure rfl).lone.raw
    | none => exact ih _ h₄.sound (known_append (hknown.later hlater) hr.1)

theorem loopTimes_reaches (body? : Option Node) (results : List Output) (left : Nat)
    (hs : s.execution.Sound actions) (hknown : Known results s.execution) :
    Reaches actions s (fun r f => r.Raw actions f) (loopTimes inner body? results left) := by
  induction left generalizing s results with
  | zero => exact Reaches.pure hs (raw_loopResult hknown)
  | succ left ih =>
    refine ((Run.within_setVariable _ _).reaches hs).bind fun _ t₁ h₁ _ => ?_
    refine (runBody_reaches hinner body? _ h₁.sound).bind fun r t₂ h₂ hr => ?_
    obtain ⟨output, failure?⟩ := r
    cases failure? with
    | some failure => exact Reaches.pure h₂.sound (hr.2 failure rfl).lone.raw
    | none => exact ih _ h₂.sound (known_append (hknown.later (h₁.trans h₂)) hr.1)

theorem loopWhile_reaches (body? : Option Node) (condition : Value) (results : List Output)
    (left : Nat) (hs : s.execution.Sound actions) (hknown : Known results s.execution) :
    Reaches actions s (fun r f => r.Raw actions f)
      (loopWhile inner body? condition results left) := by
  induction left generalizing s results with
  | zero =>
    refine ((Run.within_check condition).reaches hs).bind fun _ t h _ => ?_
    exact Reaches.pure h.sound (raw_loopResult (hknown.later h))
  | succ left ih =>
    refine ((Run.within_check condition).reaches hs).bind fun _ t h _ => ?_
    split
    · refine ((Run.within_setVariable _ _).reaches h.sound).bind fun _ t₁ h₁ _ => ?_
      refine (runBody_reaches hinner body? _ h₁.sound).bind fun r t₂ h₂ hr => ?_
      obtain ⟨output, failure?⟩ := r
      cases failure? with
      | some failure => exact Reaches.pure h₂.sound (hr.2 failure rfl).lone.raw
      | none => exact ih _ h₂.sound (known_append (hknown.later (h.trans (h₁.trans h₂))) hr.1)
    · exact Reaches.pure h.sound (raw_loopResult (hknown.later h))

theorem runLoop_reaches (w : Workflow) (n : Node) (hs : s.execution.Sound actions) :
    Reaches actions s (fun r f => r.Raw actions f) (runLoop inner w n) := by
  refine ((within_of _).reaches hs).bind fun type t₁ h₁ _ => ?_
  refine ((within_of _).reaches h₁.sound).bind fun v t₂ h₂ _ => ?_
  refine ((within_of _).reaches h₂.sound).bind fun most t₃ h₃ _ => ?_
  refine ((within_of _).reaches h₃.sound).bind fun bodyId t₄ h₄ _ => ?_
  have hnone {e : Execution} : Known [] e := fun o ho => absurd ho List.not_mem_nil
  dsimp only
  generalize (if bodyId.isPresent = true then w.nodeOf? bodyId else none) = body?
  split
  · refine ((within_of _).reaches h₄.sound).bind fun v t₅ h₅ _ => ?_
    refine ((Run.within_resolve v).reaches h₅.sound).bind fun items t₆ h₆ _ => ?_
    split
    · exact Reaches.pure h₆.sound (plain_failure _).lone.raw
    · refine ((within_of _).reaches h₆.sound).bind fun item t₇ h₇ _ => ?_
      refine ((within_of _).reaches h₇.sound).bind fun index t₈ h₈ _ => ?_
      refine ((within_of _).reaches h₈.sound).bind fun key t₉ h₉ _ => ?_
      exact loopItems_reaches hinner _ _ _ _ h₉.sound hnone
  · refine ((within_of _).reaches h₄.sound).bind fun condition t₅ h₅ _ => ?_
    exact loopWhile_reaches hinner _ _ _ _ h₅.sound hnone
  · refine ((within_of _).reaches h₄.sound).bind fun v t₅ h₅ _ => ?_
    refine ((Run.within_resolve v).reaches h₅.sound).bind fun times t₆ h₆ _ => ?_
    refine ((within_of _).reaches h₆.sound).bind fun count t₇ h₇ _ => ?_
    exact loopTimes_reaches hinner _ _ _ h₇.sound hnone
  · exact Reaches.pure h₄.sound (plain_failure _).lone.raw

end Loops

/-! ## Parallel nodes -/

/-- Results whose growing parts have numbers that were given out. -/
def AllKnown (actions : Actions) (results : Table String NodeResult) (e : Execution) : Prop :=
  ∀ p ∈ results, p.2.Known actions e

theorem AllKnown.put {results : Table String NodeResult} {e : Execution}
    (h : AllKnown actions results e) {r : NodeResult} (hr : r.Known actions e) (id : String) :
    AllKnown actions (results.put id r) e := by
  intro p hp
  obtain heq | hp := Table.mem_put hp
  · rw [heq]
    exact hr
  · exact h p hp

theorem AllKnown.later {results : Table String NodeResult} {e f : Execution}
    (h : AllKnown actions results e) (hlater : Later actions e f) : AllKnown actions results f :=
  fun p hp => ⟨hlater.below (h p hp).below, (h p hp).timely⟩

theorem branchOutputs_known {results : Table String NodeResult} {e : Execution}
    (h : AllKnown actions results e) :
    ∀ p ∈ (branchOutputs results).growing, p.2 < e.nextNumber := by
  intro p hp
  obtain ⟨q, hq, part, hpart, rfl⟩ := mem_growing_ofEntries hp
  obtain ⟨r, hr, rfl⟩ := List.mem_map.1 hq
  exact (h r hr).below part hpart

theorem mem_of_earliest {times : List Value} {time : Value} (h : earliest times = .ok time) :
    time = .null ∨ time ∈ times := by
  cases times with
  | nil => exact .inl (Except.ok.inj h).symm
  | cons first rest =>
    refine .inr ?_
    unfold earliest at h
    induction rest generalizing first with
    | nil => exact List.mem_singleton.2 (Except.ok.inj h).symm
    | cons t rest ih =>
      obtain ⟨found, hfound, h⟩ := bind_eq_ok.1 h
      obtain ⟨earlier, -, hfound⟩ := bind_eq_ok.1 hfound
      obtain rfl := Except.ok.inj hfound
      obtain rfl | hmem := List.mem_cons.1 (ih _ h)
      · split
        · exact List.mem_cons_of_mem _ (List.mem_cons_self ..)
        · exact List.mem_cons_self ..
      · exact List.mem_cons_of_mem _ (List.mem_cons_of_mem _ hmem)

theorem raw_branchesWaiting {waiting : Table String NodeResult} {outputs : Output}
    {r : NodeResult} {e : Execution} (ho : ∀ p ∈ outputs.growing, p.2 < e.nextNumber)
    (hwaiting : actions.GiveTimes → ∀ p ∈ waiting, p.2.output.Timely)
    (h : branchesWaiting waiting outputs = .ok r) : r.Raw actions e := by
  obtain ⟨time, htime, h⟩ := bind_eq_ok.1 h
  obtain rfl := Except.ok.inj h
  have hgrowing (reason : Value) : ∀ p ∈ (waitingWith reason time
      [(.str "waiting_branches", .fixed (Value.strings waiting.keys)),
        (.str "branch_results", outputs)]).output.growing,
      ∃ part ∈ outputs.growing, p = (.key (.str "branch_results") :: part.1, part.2) := by
    intro p hp
    obtain ⟨q, hq, part, hpart, rfl⟩ := mem_growing_ofEntries hp
    simp only [List.cons_append, List.nil_append, List.mem_cons] at hq
    obtain rfl | rfl | rfl | hq := hq
    · cases hpart
    · cases hpart
    · exact ⟨part, hpart, rfl⟩
    · split at hq
      · cases hq
      · obtain rfl := List.mem_singleton.1 hq
        cases hpart
  refine ⟨?_, ?_, ?_, ?_⟩
  · intro p hp
    obtain ⟨part, hpart, rfl⟩ := hgrowing _ p hp
    exact ho part hpart
  · intro p hp
    obtain ⟨part, -, rfl⟩ := hgrowing _ p hp
    exact ⟨"branch_results", by decide, part.1, rfl⟩
  · exact fun _ _ => hasJob_waitingWith _ _ (by simp)
  · refine fun hgive _ => timely_waitingWith _ ?_ (by simp [Output.timeKeys])
    obtain rfl | hmem := mem_of_earliest htime
    · exact .inl rfl
    · obtain ⟨p, hp, rfl⟩ := List.mem_map.1 (List.mem_filter.1 hmem).1
      exact hwaiting hgive p hp _ (by decide)

theorem raw_joinBranches {waitForAll : Bool} {results : Table String NodeResult} {r : NodeResult}
    {e : Execution} (hresults : AllKnown actions results e)
    (h : joinBranches waitForAll results = .ok r) : r.Raw actions e := by
  have ho := branchOutputs_known hresults
  have hdone {r : NodeResult} (hr : r.output = (Output.under [] "branch_results"
      (branchOutputs results)).orEmpty) (hw : r.isWaiting = false) : r.Raw actions e :=
    raw_under [] "branch_results" (branchOutputs results) hr hw (by decide) ho
  have hwaiting (hgive : actions.GiveTimes) :
      ∀ p ∈ results.filter fun p => p.2.isWaiting, p.2.output.Timely := by
    intro p hp
    obtain ⟨hmem, hw⟩ := List.mem_filter.1 hp
    exact (hresults p hmem).timely hgive hw
  unfold joinBranches at h
  dsimp only at h
  split at h
  · split at h
    · obtain rfl := Except.ok.inj h
      exact hdone rfl rfl
    · split at h
      · obtain rfl := Except.ok.inj h
        exact hdone rfl rfl
      · exact raw_branchesWaiting ho hwaiting h
  · split at h
    · obtain rfl := Except.ok.inj h
      exact hdone rfl rfl
    · split at h
      · obtain rfl := Except.ok.inj h
        exact hdone rfl rfl
      · exact raw_branchesWaiting ho hwaiting h

/-- The branches that run whatever becomes of them: all, or the first one where the first that finishes
is the last. -/
def sure (waitForAll : Bool) (branches : List Node) : List Node :=
  if waitForAll then branches else branches.take 1

/-- The branches that a parallel node runs whatever becomes of them. -/
def sureBranches (w : Workflow) (n : Node) : Except Fault (List Node) := do
  let branches := (← n.config.entry "branches").orElse (.list [])
  let waitForAll := (← n.config.entryOr "wait_for_all" (.bool true)).isPresent
  let most ← (w.settingOr (.str "max_parallel_branches") (.int 5)).toWhole
  let ids ← firstItems branches most
  return sure waitForAll (ids.filterMap w.nodeOf?)

section Branches
variable {inner : Node → Run NodeResult} (hinner : Dispatches actions inner) {s : Session}
include hinner

/-- A node is run, and its state recorded. -/
theorem record_reaches (n : Node) (hs : s.execution.Sound actions) :
    Reaches actions s (fun r f => r.Known actions f ∧ FreshAt actions s.execution.nextNumber f n.id)
      (do let r ← inner n
          Run.modifyExecution (·.setState n.id r.status r.output)
          return r) := by
  refine leads_bind (Leads.mono (hinner n s hs) ?_ fun _ _ hfault => hfault)
  intro r t ⟨hlater, hr⟩
  refine ⟨hlater.setState n.id hr, ⟨?_, hr.known.timely⟩, freshAt_setState hr⟩
  intro p hp
  rw [setState_nextNumber]
  exact hr.admits.below p hp

theorem runBranch_reaches (resuming : Bool) (branch : Node) (hs : s.execution.Sound actions) :
    Reaches actions s (fun r f => r.Known actions f ∧
      FreshAt actions s.execution.nextNumber f branch.id) (runBranch inner resuming branch) := by
  refine Reaches.bind (Q := fun e f => e = f) (Reaches.pure hs rfl) fun e t h he => ?_
  subst he
  split
  · next state hstate =>
    split at hstate
    · next hc =>
      refine Reaches.pure h.sound ⟨⟨?_, fun _ hw => nomatch hw⟩, ?_⟩
      · intro p hp
        exact h.sound.below branch.id state hstate p (growing_orEmpty_subset hp)
      · intro state' hstate' hwaits
        have hdone := (Bool.and_eq_true_iff.1 hc).2
        rw [isCompleted_of_state? hstate', hwaits] at hdone
        cases hdone
    · cases hstate
  · exact (record_reaches hinner branch h.sound).mono fun r f _ hr =>
      ⟨hr.1, fun state hstate => (hr.2 state hstate).mono h.numbers⟩

theorem runBranches_reaches (resuming waitForAll : Bool) (results : Table String NodeResult)
    (branches : List Node) (hs : s.execution.Sound actions)
    (hknown : AllKnown actions results s.execution) :
    Reaches actions s (fun results f => AllKnown actions results f ∧
        ∀ b ∈ sure waitForAll branches, FreshAt actions s.execution.nextNumber f b.id)
      (runBranches inner resuming waitForAll results branches) := by
  induction branches generalizing s results with
  | nil =>
    refine Reaches.pure hs ⟨hknown, ?_⟩
    rw [sure, List.take_nil, ite_self]
    exact fun b hb => absurd hb List.not_mem_nil
  | cons branch rest ih =>
    refine (runBranch_reaches hinner resuming branch hs).bind fun r t h hr => ?_
    have hput := (hknown.later h).put hr.1 branch.id
    dsimp only
    split
    · next hstop =>
      have hfirst : waitForAll = false := by
        rw [Bool.and_eq_true_iff, Bool.not_eq_true'] at hstop
        exact hstop.1
      refine Reaches.pure h.sound ⟨hput, ?_⟩
      subst hfirst
      intro b hb
      obtain rfl := List.mem_singleton.1 hb
      exact hr.2
    · refine (ih _ h.sound hput).mono fun results f hf hrest => ⟨hrest.1, ?_⟩
      have hbranch := hf.freshAt hr.2 h.numbers
      cases waitForAll with
      | true =>
        intro b hb
        obtain rfl | hb := List.mem_cons.1 hb
        · exact hbranch
        · exact fun state hstate => (hrest.2 b hb state hstate).mono h.numbers
      | false =>
        intro b hb
        obtain rfl := List.mem_singleton.1 hb
        exact hbranch

theorem runParallel_reaches (w : Workflow) (n : Node) (hs : s.execution.Sound actions) :
    Reaches actions s (fun r f => r.Raw actions f ∧ ∃ branches, n.sureBranches w = .ok branches ∧
      ∀ b ∈ branches, FreshAt actions s.execution.nextNumber f b.id) (runParallel inner w n) := by
  have read {α : Type} (r : Except Fault α) : Gives (Proceeds actions) (fun a => r = .ok a) (Run.of r) :=
    gives_of r fun _ h => h
  refine ((read _).reaches hs).bind fun listed t₁ h₁ hlisted => ?_
  refine ((read _).reaches h₁.sound).bind fun joined t₂ h₂ hjoined => ?_
  refine ((read _).reaches h₂.sound).bind fun most t₃ h₃ hmost => ?_
  refine (within_execution.reaches h₃.sound).bind fun e t₄ h₄ _ => ?_
  refine ((read _).reaches h₄.sound).bind fun ids t₅ h₅ hids => ?_
  have hlater := (((h₁.trans h₂).trans h₃).trans h₄).trans h₅
  refine (runBranches_reaches hinner _ _ [] _ h₅.sound fun p hp => absurd hp List.not_mem_nil).bind
    fun results t₆ h₆ hresults => ?_
  refine ((read _).reaches h₆.sound).mono fun r f hf hr => ⟨?_, ?_⟩
  · exact raw_joinBranches (hresults.1.later hf) hr
  · refine ⟨sure joined.isPresent (ids.filterMap w.nodeOf?), ?_, fun b hb => ?_⟩
    · simp only [sureBranches, hlisted, hjoined, hmost, hids, bind, Except.bind, pure, Except.pure]
    · have hfresh := hf.freshAt (hresults.2 b hb) h₆.numbers
      exact fun state hstate => (hfresh state hstate).mono hlater.numbers

end Branches

/-! ## Dispatch -/

theorem failed_reaches (n : Node) (fault : Fault) {s : Session} (hs : s.execution.Sound actions) :
    Reaches actions s (fun r f => r.isFailed = true ∧ r.Reported actions s.execution.nextNumber f)
      (n.failed fault) := by
  refine ((Run.within_note _ _ _).reaches hs).bind fun _ t h _ => ?_
  exact Reaches.pure h.sound ⟨rfl, (plain_failure _).lone.raw.reported rfl⟩

section Dispatch
variable {services : Services} {w : Workflow} {inner : Node → Run NodeResult}
variable (hinner : Dispatches services.actions inner)
include hinner

theorem runKind_reaches (n : Node) (kind : NodeKind) {s : Session}
    (hs : s.execution.Sound services.actions) :
    Reaches services.actions s (fun r f => r.Raw services.actions f)
      (runKind services w inner n kind) := by
  have plain {m : Run NodeResult} (h : Gives (Proceeds services.actions) Plain m) :
      Reaches services.actions s (fun r f => r.Raw services.actions f) m :=
    (h.reaches hs).mono fun r f _ hr => hr.lone.raw
  have lone {m : Run NodeResult} (h : Gives (Proceeds services.actions) (Lone services.actions) m) :
      Reaches services.actions s (fun r f => r.Raw services.actions f) m :=
    (h.reaches hs).mono fun r f _ hr => hr.raw
  cases kind with
  | entry => exact plain gives_runEntry
  | finish => exact plain (gives_runEnd n)
  | condition => exact plain (gives_runCondition n)
  | switch => exact plain (gives_runSwitch n)
  | loop => exact runLoop_reaches hinner w n hs
  | parallel => exact (runParallel_reaches hinner w n hs).mono fun r f _ hr => hr.1
  | merge => exact runMerge_reaches n hs
  | delay => exact runDelay_reaches hs n
  | wait => exact runWait_reaches hs services n
  | setVariable => exact plain (gives_runSetVariable n)
  | transform => exact plain (gives_runTransform n)
  | filter => exact plain (gives_runFilter n)
  | aggregate => exact plain (gives_runAggregate n)
  | action => exact lone (gives_runAction services n)

theorem runNode_reaches (n : Node) {s : Session} (hs : s.execution.Sound services.actions) :
    Reaches services.actions s
      (fun r f => r.Reported services.actions s.execution.nextNumber f)
      (runNode services w inner n) := by
  refine ((Run.within_note _ _ _).reaches hs).bind fun _ t₁ h₁ _ => ?_
  split
  · exact Reaches.throw h₁.sound
  · refine (runKind_reaches hinner n _ h₁.sound).attempt.bind fun r t₂ h₂ hr => ?_
    have hle := Nat.le_trans h₁.numbers h₂.numbers
    split
    · exact numbered_reaches h₂.sound hle (hr _ rfl)
    · exact (failed_reaches n _ h₂.sound).mono fun r f _ hr =>
        ⟨hr.2.admits, hr.2.fresh.mono hle, hr.2.timely⟩

/-- Running a parallel node records anew all branches that it is sure to run, unless it fails. -/
theorem runNode_parallel_reaches {n : Node} (hn : NodeKind.ofNode? services n = some .parallel)
    {s : Session} (hs : s.execution.Sound services.actions) :
    Reaches services.actions s (fun r f => r.isFailed = true ∨
        ∃ branches, n.sureBranches w = .ok branches ∧
          ∀ b ∈ branches, FreshAt services.actions s.execution.nextNumber f b.id)
      (runNode services w inner n) := by
  refine ((Run.within_note _ _ _).reaches hs).bind fun _ t₁ h₁ _ => ?_
  rw [hn]
  refine (runParallel_reaches hinner w n h₁.sound).attempt.bind fun r t₂ h₂ hr => ?_
  split
  · next r =>
    have hnumbered := numbered_reaches (k := t₂.execution.nextNumber) h₂.sound (Nat.le_refl _)
      (hr r rfl).1
    obtain ⟨branches, hsure, hbranches⟩ := (hr r rfl).2
    refine hnumbered.mono fun r' f hf _ => .inr ⟨branches, hsure, fun b hb => ?_⟩
    have hfresh := hf.freshAt (hbranches b hb) h₂.numbers
    exact fun state hstate => (hfresh state hstate).mono h₁.numbers
  · exact (failed_reaches n _ h₂.sound).mono fun r f _ hr => .inl hr.1

end Dispatch

theorem dispatches_dispatch (services : Services) (w : Workflow) (depth : Nat) :
    Dispatches services.actions (dispatch services w depth) := by
  induction depth with
  | zero => exact fun n s hs => Reaches.throw hs
  | succ depth ih =>
    exact fun n s hs => (runNode_reaches ih n hs).bind fun r t hlater hr =>
      ⟨.of_eq hlater.sound rfl rfl rfl rfl, ⟨hr.admits.below, hr.admits.parted, hr.admits.apart⟩, hr.fresh, hr.timely⟩

end Node

end Flowline
