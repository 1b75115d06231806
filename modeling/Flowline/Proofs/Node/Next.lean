import Flowline.Proofs.Node.Frame

/-! # Nodes that name no next node

Only conditions, switches and actions name the node that comes next. Where the other nodes go on is up to
the connections of the workflow. -/

namespace Flowline

/-- A computation of which no result names a next node. -/
def Straight (m : Run NodeResult) : Prop := ∀ s, Leads m s (fun r _ => r.next = .null) fun _ _ => True

theorem straight_pure {r : NodeResult} (h : r.next = .null) : Straight (pure r) := fun _ => leads_pure h

theorem straight_throw (fault : Fault) : Straight (throw fault) := fun _ => leads_throw trivial

theorem straight_of {r : Except Fault NodeResult} (h : ∀ a, r = .ok a → a.next = .null) :
    Straight (Run.of r) := by
  cases r with
  | error fault => exact straight_throw fault
  | ok a => exact straight_pure (h a rfl)

theorem Straight.bind {α : Type} {m : Run α} {f : α → Run NodeResult} (h : ∀ a, Straight (f a)) :
    Straight (m >>= f) := fun _ => Leads.bind leads_trivial fun a t _ => h a t

/-- The kinds of nodes that name the node that comes next. -/
def NodeKind.names : NodeKind → Bool
  | .condition | .switch | .action => true
  | _ => false

namespace Node
variable {inner : Node → Run NodeResult} {services : Services} {w : Workflow} {n : Node}

/-! ## Loops -/

theorem runBody_next (inner : Node → Run NodeResult) (body? : Option Node) (index : Nat) (s : Session) :
    Leads (runBody inner body? index) s (fun r _ => ∀ failure, r.2 = some failure → failure.next = .null)
      fun _ _ => True := by
  cases body? with
  | none => exact leads_pure nofun
  | some body =>
    refine Leads.bind leads_trivial fun r t _ => ?_
    split
    · refine leads_pure fun failure h => ?_
      obtain rfl := Option.some.inj h
      rfl
    · split
      · refine leads_pure fun failure h => ?_
        obtain rfl := Option.some.inj h
        rfl
      · exact leads_pure nofun

/-- A loop ends with the failure of its body, or goes on. -/
theorem straight_runBody (body? : Option Node) (index : Nat)
    {f : Output × Option NodeResult → Run NodeResult}
    (hfailure : ∀ output failure, f (output, some failure) = pure failure)
    (hnone : ∀ output, Straight (f (output, none))) : Straight (runBody inner body? index >>= f) := by
  intro s
  refine Leads.bind (runBody_next inner body? index s) fun r t hr => ?_
  obtain ⟨output, failure?⟩ := r
  cases failure? with
  | some failure =>
    rw [hfailure]
    exact leads_pure (hr failure rfl)
  | none => exact hnone output t

theorem straight_loopItems (body? : Option Node) (names : LoopNames) (results : List Output)
    (pairs : List (Value × Value)) : Straight (loopItems inner body? names results pairs) := by
  induction pairs generalizing results with
  | nil => exact straight_pure rfl
  | cons pair rest ih =>
    refine .bind fun _ => .bind fun _ => .bind fun _ => ?_
    exact straight_runBody body? _ (fun _ _ => rfl) fun _ => ih _

theorem straight_loopTimes (body? : Option Node) (results : List Output) (left : Nat) :
    Straight (loopTimes inner body? results left) := by
  induction left generalizing results with
  | zero => exact straight_pure rfl
  | succ left ih => exact .bind fun _ => straight_runBody body? _ (fun _ _ => rfl) fun _ => ih _

theorem straight_loopWhile (body? : Option Node) (condition : Value) (results : List Output) (left : Nat) :
    Straight (loopWhile inner body? condition results left) := by
  induction left generalizing results with
  | zero => exact .bind fun _ => straight_pure rfl
  | succ left ih =>
    refine .bind fun held => ?_
    cases held with
    | false => exact straight_pure rfl
    | true => exact .bind fun _ => straight_runBody body? _ (fun _ _ => rfl) fun _ => ih _

theorem straight_runLoop : Straight (runLoop inner w n) := by
  refine .bind fun type => .bind fun v => .bind fun most => .bind fun bodyId => ?_
  dsimp only
  split
  · refine .bind fun v => .bind fun items => ?_
    split
    · exact straight_pure rfl
    · exact .bind fun item => .bind fun index => .bind fun key => straight_loopItems _ _ _ _
  · exact .bind fun condition => straight_loopWhile _ _ _ _
  · exact .bind fun v => .bind fun times => .bind fun count => straight_loopTimes _ _ _
  · exact straight_pure rfl

/-! ## Parallel nodes and merges -/

theorem next_of_branchesWaiting {waiting : Table String NodeResult} {outputs : Output} {r : NodeResult}
    (h : branchesWaiting waiting outputs = .ok r) : r.next = .null := by
  obtain ⟨time, -, hr⟩ := bind_eq_ok.1 h
  rw [← Except.ok.inj hr]
  rfl

theorem next_of_joinBranches {waitForAll : Bool} {results : Table String NodeResult} {r : NodeResult}
    (h : joinBranches waitForAll results = .ok r) : r.next = .null := by
  have settled (a : NodeResult) (ha : a.next = .null) (h : .ok a = (.ok r : Except Fault NodeResult)) :
      r.next = .null := Except.ok.inj h ▸ ha
  unfold joinBranches at h
  dsimp only at h
  split at h
  · split at h
    · exact settled _ rfl h
    · split at h
      · exact settled _ rfl h
      · exact next_of_branchesWaiting h
  · split at h
    · exact settled _ rfl h
    · split at h
      · exact settled _ rfl h
      · exact next_of_branchesWaiting h

theorem straight_runParallel : Straight (runParallel inner w n) := by
  refine .bind fun branches => .bind fun all => .bind fun most => .bind fun e => .bind fun ids => ?_
  exact .bind fun results => straight_of fun _ h => next_of_joinBranches h

theorem straight_runMerge : Straight n.runMerge := by
  refine .bind fun needed => .bind fun e => .bind fun missing? => ?_
  split
  · exact straight_pure rfl
  · exact .bind fun outputs => straight_pure rfl

/-! ## Delays and signals -/

theorem straight_runDelay : Straight n.runDelay := by
  refine .bind fun now => .bind fun entry => ?_
  split
  · refine .bind fun seconds => .bind fun come => ?_
    split
    · exact straight_pure rfl
    · exact .bind fun reason => straight_pure rfl
  · refine .bind fun seconds => ?_
    split
    · exact straight_pure rfl
    · exact .bind fun time => straight_pure rfl

theorem straight_runWait : Straight (runWait services n) := by
  have timeout (waitType : Value) (seconds : Int) : Straight (n.timeoutResult waitType seconds) := by
    refine .bind fun choice => ?_
    split
    · exact straight_pure rfl
    · exact straight_pure rfl
  refine .bind fun waitType => .bind fun v => .bind fun seconds => .bind fun now => .bind fun payload? => ?_
  split
  · refine straight_pure ?_
    unfold signalResult
    split
    · rfl
    · rfl
  · refine .bind fun entry => ?_
    split
    · refine .bind fun come => ?_
      split
      · exact timeout waitType seconds
      · exact straight_pure rfl
    · exact .bind fun time => straight_pure rfl

/-! ## Data -/

theorem straight_runSetVariable : Straight n.runSetVariable :=
  .bind fun _ => .bind fun _ => .bind fun _ => straight_pure rfl

theorem straight_runTransform : Straight n.runTransform :=
  .bind fun _ => .bind fun _ => .bind fun _ => .bind fun _ => .bind fun _ => .bind fun _ => straight_pure rfl

theorem straight_runFilter : Straight n.runFilter := by
  refine .bind fun v => .bind fun input => .bind fun conditions => .bind fun matchType => ?_
  split
  · exact straight_pure rfl
  · exact .bind fun kept => .bind fun _ => straight_pure rfl

theorem straight_runAggregate : Straight n.runAggregate := by
  refine .bind fun v => .bind fun input => ?_
  split
  · exact straight_pure rfl
  · exact .bind fun v => .bind fun operations => .bind fun results => .bind fun _ => straight_pure rfl

/-! ## Dispatch -/

theorem straight_runKind {kind : NodeKind} (hkind : kind.names = false) :
    Straight (runKind services w inner n kind) := by
  cases kind with
  | condition | switch | action => cases hkind
  | entry => exact straight_pure rfl
  | finish => exact .bind fun _ => .bind fun _ => straight_pure rfl
  | loop => exact straight_runLoop
  | parallel => exact straight_runParallel
  | merge => exact straight_runMerge
  | delay => exact straight_runDelay
  | wait => exact straight_runWait
  | setVariable => exact straight_runSetVariable
  | transform => exact straight_runTransform
  | filter => exact straight_runFilter
  | aggregate => exact straight_runAggregate

/-- A node that is no condition, switch or action names no next node. -/
theorem straight_dispatch {kind : NodeKind} (hn : NodeKind.ofNode? services n = some kind)
    (hkind : kind.names = false) (depth : Nat) : Straight (dispatch services w depth n) := by
  cases depth with
  | zero => exact straight_throw _
  | succ depth =>
    intro s
    refine leads_dispatch (Leads.mono (leads_runNode hn (fun _ _ _ h => h) (fun _ _ _ h => h) (fun _ _ _ _ h => h)
      fun logs => ?_) (fun r _ (hr : r.next = .null) => hr) fun _ _ _ => trivial)
    exact (straight_runKind hkind _).mono (fun _ _ h => h) fun _ _ _ => rfl

end Node

end Flowline
