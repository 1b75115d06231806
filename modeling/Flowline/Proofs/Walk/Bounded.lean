import Flowline.Proofs.Condition.Faults
import Flowline.Proofs.Engine.History
import Flowline.Proofs.Node.Next

/-! # Walks that do not run out of iterations

Where no node is a merge, every node is run once at most, and what it adds to the queue is paid for: by its connections,
and by the node itself for the one that it names as next. So a walk takes no more from its queue than it starts with and
the workflow has connections and nodes, whatever cycles there are (`cycles_are_harmless`). -/

namespace Flowline

/-! ## Faults of walks -/

/-- A computation does not fail for too many iterations. -/
def Unexhausted {α : Type} (m : Run α) : Prop :=
  ∀ s, Leads m s (fun _ _ => True) fun fault _ => ∀ limit, fault ≠ .tooManyIterations limit

section Unexhausted
variable {α β : Type}

theorem unexhausted_pure (a : α) : Unexhausted (pure a : Run α) := fun _ => trivial

theorem unexhausted_throw {fault : Fault} (h : ∀ limit, fault ≠ .tooManyIterations limit) :
    Unexhausted (throw fault : Run α) := fun _ => h

theorem unexhausted_modify (f : Session → Session) : Unexhausted (modify f : Run PUnit) := fun _ => trivial

theorem Unexhausted.bind {m : Run α} {f : α → Run β} (hm : Unexhausted m) (hf : ∀ a, Unexhausted (f a)) :
    Unexhausted (m >>= f) := fun s => (hm s).bind fun a t _ => hf a t

theorem unexhausted_attempt (m : Run α) : Unexhausted (Run.attempt m) := fun _ =>
  Run.leads_attempt (leads_trivial.mono (fun _ _ _ => trivial) fun _ _ _ => trivial)

theorem unexhausted_of {allowed : Fault → Prop} {r : Except Fault α} (h : FailsOnly allowed r)
    (hallowed : ∀ limit, ¬ allowed (.tooManyIterations limit)) : Unexhausted (Run.of r) := by
  cases r with
  | ok a => exact fun _ => trivial
  | error fault =>
    refine fun _ limit heq => hallowed limit ?_
    subst heq
    exact h _ rfl

end Unexhausted

theorem unexhausted_execution : Unexhausted Run.execution := fun _ => trivial

theorem Run.unexhausted_check (condition : Value) : Unexhausted (check condition) := by
  intro s
  refine leads_bind (leads_get (unexhausted_of (Condition.holds_fails s.now _ _) ?_ s))
  rintro limit ⟨⟨⟨⟩⟩⟩

theorem Run.unexhausted_asFloat (v : Value) : Unexhausted (Run.of v.asFloat) := by
  have hfails : FailsOnly (fun fault => fault.isWorded = false) v.asFloat := by
    unfold Value.asFloat
    split
    case h_2 => exact (Number.toFloat_fails _).mono fun _ h => h ▸ rfl
    case h_4 =>
      unfold Value.floatOfText
      split
      · split
        · exact .ok _
        · exact .error rfl
      · split
        · exact .ok _
        · exact .error rfl
    case h_5 => exact .error rfl
    all_goals exact .ok _
  exact unexhausted_of hfails nofun

/-- Running a node fails only for a type that is not known, or for nodes that are nested too deeply. -/
theorem Node.unexhausted_dispatch (services : Services) (w : Workflow) (depth : Nat) (n : Node) :
    Unexhausted (dispatch services w depth n) := by
  cases depth with
  | zero => exact unexhausted_throw nofun
  | succ depth =>
    refine Unexhausted.bind ?_ fun r => (unexhausted_modify _).bind fun _ => unexhausted_pure r
    refine (unexhausted_modify _).bind fun _ => ?_
    cases NodeKind.ofNode? services n with
    | none => exact unexhausted_throw nofun
    | some kind =>
      refine (unexhausted_attempt _).bind fun result => ?_
      cases result with
      | error fault => exact (unexhausted_modify _).bind fun _ => unexhausted_pure _
      | ok r =>
        change Unexhausted (numbered r)
        unfold numbered
        split
        · exact unexhausted_execution.bind fun _ => (unexhausted_modify _).bind fun _ => unexhausted_pure _
        · exact unexhausted_pure r

namespace Walk

variable {dispatch : Node → Run NodeResult} {w : Workflow}

theorem unexhausted_checkTime (limits : Limits) (begun : Float) : Unexhausted (checkTime limits begun) := by
  refine Unexhausted.bind (m := Run.readStopwatch) (fun _ => trivial) fun now => ?_
  dsimp only
  split
  · exact unexhausted_throw nofun
  · exact unexhausted_pure _

theorem unexhausted_visit (hdispatch : ∀ n, Unexhausted (dispatch n)) (n : Node) : Unexhausted (visit dispatch n) := by
  refine (unexhausted_modify _).bind fun _ => (hdispatch n).bind fun r => (unexhausted_modify _).bind fun _ => ?_
  dsimp only
  split
  · exact unexhausted_throw nofun
  · exact unexhausted_pure r

/-! ## What is added to the queue -/

theorem targets_adds (connections : List Connection) (s : Session) :
    Leads (targets w connections) s (fun ms _ => ms.length ≤ connections.length ∧ ∀ m ∈ ms, m ∈ w.nodes)
      fun fault _ => ∀ limit, fault ≠ .tooManyIterations limit := by
  induction connections generalizing s with
  | nil => exact leads_pure ⟨Nat.le_refl _, nofun⟩
  | cons c rest ih =>
    have hpasses : Unexhausted (passes c) := by
      unfold passes
      split
      · exact unexhausted_pure true
      · exact Run.unexhausted_check _
    refine (hpasses s).bind fun passed t _ => (ih t).bind fun ms u ⟨hlength, hms⟩ => leads_pure ?_
    have hhere : ∀ m ∈ (w.node? c.target).toList, m ∈ w.nodes := fun m hm =>
      List.mem_of_find?_eq_some (Option.mem_toList.1 hm)
    have hone : (w.node? c.target).toList.length ≤ 1 := by cases w.node? c.target <;> simp
    cases passed with
    | true =>
      refine ⟨?_, List.forall_mem_append.2 ⟨hhere, hms⟩⟩
      rw [if_pos rfl, List.length_append, List.length_cons]
      omega
    | false =>
      refine ⟨?_, hms⟩
      rw [if_neg Bool.false_ne_true, List.nil_append, List.length_cons]
      omega

theorem jump_adds (n : Node) (r : NodeResult) (s : Session) :
    Leads (jump w n r) s (fun ms _ => ms.length ≤ 1 ∧ ∀ m ∈ ms, m ∈ w.nodes)
      fun fault _ => ∀ limit, fault ≠ .tooManyIterations limit := by
  unfold jump
  split
  · exact leads_pure ⟨Nat.zero_le _, nofun⟩
  · split
    · next target htarget =>
      exact leads_pure ⟨Nat.le_refl _, List.forall_mem_singleton.2 (Workflow.mem_of_nodeOf? htarget)⟩
    · exact leads_bind (leads_modify (leads_pure ⟨Nat.zero_le _, nofun⟩))

/-- A node adds a node for each of its connections at most, and the one that it names as next. -/
theorem follow_adds (n : Node) (r : NodeResult) {queue : List Node} (hqueue : ∀ m ∈ queue, m ∈ w.nodes) (s : Session) :
    Leads (follow w n r queue) s
      (fun ms _ => ms.length ≤ queue.length + (w.leaving n.id).length + 1 ∧ ∀ m ∈ ms, m ∈ w.nodes)
      fun fault _ => ∀ limit, fault ≠ .tooManyIterations limit := by
  unfold follow
  split
  · exact leads_pure ⟨by omega, hqueue⟩
  · refine (targets_adds _ s).bind fun next t ⟨hnext, hnextIn⟩ => ?_
    refine (jump_adds n r t).bind fun jumped u ⟨hjumped, hjumpedIn⟩ => leads_pure ⟨?_, ?_⟩
    · rw [List.length_append, List.length_append]
      omega
    · exact List.forall_mem_append.2 ⟨List.forall_mem_append.2 ⟨hjumpedIn, hqueue⟩, hnextIn⟩

/-! ## What may be taken from the queue still -/

/-- How many of some items belong to ids that were not visited. -/
def unvisited {α : Type} (walk : Walk) (idOf : α → String) (items : List α) : Nat :=
  items.countP fun x => !walk.visited.contains (idOf x)

/-- A visit pays for the items of its node. -/
theorem unvisited_record {α : Type} {walk : Walk} {n : Node} (hnew : walk.visited.contains n.id = false) (r : NodeResult)
    (idOf : α → String) (items : List α) :
    walk.unvisited idOf items = (walk.record n r).unvisited idOf items + (items.filter (idOf · == n.id)).length := by
  have hvisited : (walk.record n r).visited = n.id :: walk.visited := rfl
  unfold unvisited
  rw [hvisited]
  induction items with
  | nil => rfl
  | cons x rest ih =>
    simp only [List.countP_cons, List.filter_cons, List.contains_cons] at ih ⊢
    by_cases hx : idOf x = n.id
    · simp only [hx, hnew, beq_self_eq_true, if_pos, List.length_cons, Bool.true_or, Bool.not_true, Bool.not_false,
        Bool.false_eq_true, if_false]
      omega
    · simp only [beq_eq_false_iff_ne.2 hx, Bool.false_or, Bool.false_eq_true, if_false]
      omega

/-- The nodes in the queue of a walk, and those that may be added to it: one for each connection and for each node that
was not visited. -/
def pending (w : Workflow) (walk : Walk) (queue : List Node) : Nat :=
  queue.length + walk.unvisited (·.source) w.connections + walk.unvisited (·.id) w.nodes

theorem pending_record {walk : Walk} {n : Node} {rest queue : List Node} (hn : n ∈ w.nodes)
    (hnew : walk.visited.contains n.id = false) (r : NodeResult)
    (hqueue : queue.length ≤ rest.length + (w.leaving n.id).length + 1) :
    pending w (walk.record n r) queue + 1 ≤ pending w walk (n :: rest) := by
  have hconnections := unvisited_record hnew r (fun c : Connection => c.source) w.connections
  have hnodes := unvisited_record hnew r (fun m : Node => m.id) w.nodes
  have hself : 0 < (w.nodes.filter (·.id == n.id)).length :=
    List.length_pos_of_mem (List.mem_filter.2 ⟨hn, beq_self_eq_true _⟩)
  rw [Workflow.leaving] at hqueue
  rw [pending, pending, List.length_cons]
  omega

theorem go_leads_unexhausted (hdispatch : ∀ n, Unexhausted (dispatch n)) (hplain : ∀ n ∈ w.nodes, n.isMerge = false)
    (limits : Limits) (begun : Float) (left : Nat) (walk : Walk) (queue : List Node) (s : Session)
    (hqueue : ∀ n ∈ queue, n ∈ w.nodes) (hleft : pending w walk queue ≤ left) :
    Leads (go dispatch w limits begun left walk queue) s (fun _ _ => True)
      fun fault _ => ∀ limit, fault ≠ .tooManyIterations limit := by
  -- no more is pending than iterations are left: each of them takes one node from what is pending
  induction left generalizing walk queue s with
  | zero =>
    cases queue with
    | nil => exact leads_pure trivial
    | cons n rest =>
      rw [pending, List.length_cons] at hleft
      omega
  | succ left ih =>
    cases queue with
    | nil => exact leads_pure trivial
    | cons n rest =>
      obtain ⟨hn, hrest⟩ := List.forall_mem_cons.1 hqueue
      rw [go]
      split
      · refine ih walk rest s hrest ?_
        rw [pending, List.length_cons] at hleft
        rw [pending]
        omega
      · next hskip =>
        have hnew : walk.visited.contains n.id = false := by simpa [skips, hplain n hn] using hskip
        refine leads_bind (leads_execution ?_)
        split
        · exact leads_pure trivial
        · refine (unexhausted_checkTime limits begun s).bind fun _ t _ => ?_
          refine (unexhausted_visit hdispatch n t).bind fun r u _ => ?_
          refine (follow_adds n r hrest u).bind fun queue v hadds => ?_
          have hless := pending_record hn hnew r hadds.1
          exact ih (walk.record n r) queue v hadds.2 (by omega)

/-- Without merges cycles are harmless, whatever nodes do: a walk does not fail for too many iterations where its limit is
at least the number of nodes that it starts from, of the connections and of the nodes. It may start from any nodes of the
workflow, also from one of them several times, and nodes may name any node as the next one. -/
theorem cycles_are_harmless (hplain : ∀ n ∈ w.nodes, n.isMerge = false) {starts : List Node}
    (hstarts : ∀ n ∈ starts, n ∈ w.nodes) {iterations : Int}
    (hlimit : ((starts.length + w.connections.length + w.nodes.length : Nat) : Int) ≤ iterations) :
    (∀ dispatch : Node → Run NodeResult, (∀ n, Unexhausted (dispatch n)) → Unexhausted (run dispatch w iterations starts)) ∧
    ∀ services depth, Unexhausted (run (Node.dispatch services w depth) w iterations starts) := by
  have hwalks (dispatch : Node → Run NodeResult) (hdispatch : ∀ n, Unexhausted (dispatch n)) :
      Unexhausted (run dispatch w iterations starts) := by
    refine (Run.unexhausted_asFloat _).bind fun timeout => ?_
    refine Unexhausted.bind (m := Run.readStopwatch) (fun _ => trivial) fun begun => ?_
    have hpending : pending w start starts ≤ iterations.toNat := by
      have hconnections := List.countP_le_length (p := fun c : Connection => !start.visited.contains c.source)
        (l := w.connections)
      have hnodes := List.countP_le_length (p := fun n : Node => !start.visited.contains n.id) (l := w.nodes)
      rw [pending, unvisited, unvisited]
      omega
    exact fun s => go_leads_unexhausted hdispatch hplain _ begun _ start starts s hstarts hpending
  exact ⟨hwalks, fun services depth => hwalks _ (Node.unexhausted_dispatch services w depth)⟩

/-- Two nodes on a cycle, one of which also leads to itself, twice. -/
def ring : Workflow := .ofNodes
  [⟨"left", "start", .map [], .null, .null⟩, ⟨"right", "end", .map [], .null, .null⟩]
  [⟨"left", "right", .null, .null⟩, ⟨"right", "left", .null, .null⟩, ⟨"left", "left", .null, .null⟩,
    ⟨"left", "left", .null, .null⟩] []

/-- Every node names one of the two as the next one, and the walk starts from both of them twice. -/
theorem cycles_are_harmless_ring :
    Unexhausted (run (fun _ => return .ok .empty (.str "left")) ring 10 (ring.nodes ++ ring.nodes)) :=
  (cycles_are_harmless (by decide) (fun _ hn => (List.mem_append.1 hn).elim id id) (by decide)).1 _ fun _ =>
    unexhausted_pure _

end Walk

end Flowline
