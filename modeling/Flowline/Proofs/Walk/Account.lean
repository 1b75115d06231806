import Flowline.Proofs.Engine.History
import Flowline.Proofs.Session.Frame
import Mathlib.Data.List.Nodup

/-! # An account of a walk

A walk can be made with an account of its visits: which node was run, with what result, and in which session
the conditions behind it are checked then. The account changes nothing in the walk. It says that a walk visits
what its starts lead to, step by step, and nothing else. -/

namespace Flowline

/-- A connection is taken in a session: it has no condition, or the condition holds there. -/
def Connection.PassesIn (c : Connection) (s : Session) : Prop :=
  c.condition.isNull = true ∨
    (Condition.ofNodeValue c.condition).holds (Language.standard s.now) s.execution.scope = .ok true

/-- A visit of a walk. -/
structure Visit where
  node : Node
  result : NodeResult
  /-- The session in which the result is recorded already. -/
  after : Session

/-- A node that does not wait points to the nodes at the end of connections that are taken, and to the one that
its result names. -/
def Visit.PointsTo (w : Workflow) (v : Visit) (m : Node) : Prop :=
  v.result.isWaiting = false ∧
    ((∃ c ∈ w.leaving v.node.id, c.PassesIn v.after ∧ w.node? c.target = some m) ∨
      v.result.next.isPresent = true ∧ w.nodeOf? v.result.next = some m)

namespace Walk

/-- The result of the last visit of a node. -/
def lastResult? (visits : List Visit) (id : String) : Option NodeResult :=
  ((visits.filter (·.node.id == id)).getLast?).map (·.result)

/-- The walk of `go`, and the visits that it makes. -/
def goNoting (dispatch : Node → Run NodeResult) (w : Workflow) (limits : Limits) (begun : Float) :
    Nat → Walk → List Node → Run (Walk × List Visit)
  | _, walk, [] => return (walk, [])
  | 0, _, _ :: _ => throw (.tooManyIterations (toString limits.iterations))
  | left + 1, walk, n :: rest => do
    if walk.skips n then goNoting dispatch w limits begun left walk rest
    else if (← Run.execution).status == .cancelled then return ({ walk with cancelled := true }, [])
    else
      checkTime limits begun
      let r ← visit dispatch n
      let after ← get
      let queue ← follow w n r rest
      let (walk, visits) ← goNoting dispatch w limits begun left (walk.record n r) queue
      return (walk, ⟨n, r, after⟩ :: visits)

/-- The walk of `run`, and the visits that it makes. -/
def runNoting (dispatch : Node → Run NodeResult) (w : Workflow) (iterations : Int) (starts : List Node) :
    Run (Walk × List Visit) := do
  let timeout ← Run.of (w.setting "timeout_seconds").asFloat
  let begun ← Run.readStopwatch
  goNoting dispatch w ⟨iterations, timeout⟩ begun iterations.toNat start starts

variable {dispatch : Node → Run NodeResult} {w : Workflow}

/-! ## The account changes nothing -/

theorem fst_goNoting (limits : Limits) (begun : Float) (left : Nat) (walk : Walk) (queue : List Node) :
    Prod.fst <$> goNoting dispatch w limits begun left walk queue =
      go dispatch w limits begun left walk queue := by
  induction left generalizing walk queue with
  | zero => cases queue <;> rfl
  | succ left ih =>
    cases queue with
    | nil => rfl
    | cons n rest =>
      rw [goNoting, go]
      split
      · exact ih walk rest
      · simp only [map_bind]
        congr 1
        funext e
        split
        · rfl
        -- What is left is that the session is read between a visit and what follows it.
        · simp only [← ih, map_eq_pure_bind, bind_assoc, pure_bind]
          rfl

theorem fst_runNoting (iterations : Int) (starts : List Node) :
    Prod.fst <$> runNoting dispatch w iterations starts = run dispatch w iterations starts := by
  simp only [runNoting, run, map_bind, fst_goNoting]

/-- Where a walk comes to its end, so does the one with an account. -/
theorem exists_runNoting {iterations : Int} {starts : List Node} {s t : Session} {walk : Walk}
    (h : (run dispatch w iterations starts).run.run s = (.ok walk, t)) :
    ∃ visits, (runNoting dispatch w iterations starts).run.run s = (.ok (walk, visits), t) := by
  rw [← fst_runNoting, map_eq_pure_bind, run_bind] at h
  rcases hm : (runNoting dispatch w iterations starts).run.run s with ⟨fault | ⟨walk', visits⟩, u⟩
  · rw [hm] at h
    cases h
  · rw [hm] at h
    obtain ⟨rfl, rfl⟩ : walk' = walk ∧ u = t := by
      cases h
      exact ⟨rfl, rfl⟩
    exact ⟨visits, rfl⟩

/-! ## Where a visit points to -/

theorem passes_leads (c : Connection) (s : Session) :
    Leads (passes c) s (fun passed t => t = s ∧ (passed = true ↔ c.PassesIn s)) fun _ _ => True := by
  unfold passes Connection.PassesIn
  split
  · next hnull => exact leads_pure ⟨rfl, by simp [hnull]⟩
  · next hnull =>
    refine leads_bind (leads_get ?_)
    cases hholds : (Condition.ofNodeValue c.condition).holds (Language.standard s.now) s.execution.scope with
    | error fault => exact trivial
    | ok passed => exact leads_pure ⟨rfl, by simp [hnull]⟩

theorem targets_leads (connections : List Connection) (s : Session) :
    Leads (targets w connections) s (fun ms t => t = s ∧
      ∀ m, m ∈ ms ↔ ∃ c ∈ connections, c.PassesIn s ∧ w.node? c.target = some m) fun _ _ => True := by
  induction connections with
  | nil => exact leads_pure ⟨rfl, by simp⟩
  | cons c rest ih =>
    refine leads_bind ((passes_leads c s).mono ?_ fun _ _ h => h)
    rintro passed _ ⟨rfl, hpassed⟩
    cases passed with
    | true =>
      refine leads_bind (ih.mono ?_ fun _ _ h => h)
      rintro ms _ ⟨rfl, hms⟩
      have hc := hpassed.1 rfl
      exact leads_pure ⟨rfl, by simp [hms, hc]⟩
    | false =>
      refine leads_bind (ih.mono ?_ fun _ _ h => h)
      rintro ms _ ⟨rfl, hms⟩
      have hc : ¬ c.PassesIn _ := fun h => nomatch hpassed.2 h
      exact leads_pure ⟨rfl, by simp [hms, hc]⟩

theorem jump_leads (n : Node) (r : NodeResult) (s : Session) :
    Leads (jump w n r) s
      (fun ms _ => ∀ m, m ∈ ms ↔ r.next.isPresent = true ∧ w.nodeOf? r.next = some m) fun _ _ => True := by
  unfold jump
  split
  · next habsent =>
    have habsent : r.next.isPresent = false := by simpa using habsent
    exact leads_pure (by simp [habsent])
  · next hpresent =>
    have hpresent : r.next.isPresent = true := by simpa using hpresent
    split
    · next target htarget => exact leads_pure (by simp [hpresent, htarget, eq_comm])
    · next hnone => exact leads_bind (leads_modify (leads_pure (by simp [hnone])))

/-- The queue grows by the nodes that a visit points to. -/
theorem follow_leads (n : Node) (r : NodeResult) (queue : List Node) (s : Session) :
    Leads (follow w n r queue) s
      (fun queue' _ => ∀ m, m ∈ queue' ↔ m ∈ queue ∨ Visit.PointsTo w ⟨n, r, s⟩ m) fun _ _ => True := by
  unfold follow
  split
  · next hwaits => exact leads_pure (by simp [Visit.PointsTo, hwaits])
  · next hwaits =>
    have hdone : r.isWaiting = false := by simpa using hwaits
    refine leads_bind ((targets_leads _ s).mono ?_ fun _ _ h => h)
    rintro next _ ⟨rfl, hnext⟩
    refine leads_bind ((jump_leads n r _).mono ?_ fun _ _ h => h)
    intro jumped t hjumped
    refine leads_pure fun m => ?_
    simp only [List.mem_append, hjumped, hnext, Visit.PointsTo, hdone, true_and]
    constructor
    · rintro ((h | h) | h)
      · exact .inr (.inr h)
      · exact .inl h
      · exact .inr (.inl h)
    · rintro (h | h | h)
      · exact .inl (.inr h)
      · exact .inr h
      · exact .inl (.inl h)

/-! ## Going on with a queue -/

/-- How a walk goes on: what it visits is in the queue or pointed to by an earlier visit, and it visits all of
that, each node that is no merge at most once. -/
structure Continues (w : Workflow) (walk : Walk) (queue : List Node) (walk' : Walk) (visits : List Visit) :
    Prop where
  visited : walk'.visited.reverse = walk.visited.reverse ++ visits.map (·.node.id)
  origin : ∀ earlier v, earlier ++ [v] <+: visits → v.node ∈ queue ∨ ∃ u ∈ earlier, u.PointsTo w v.node
  queue : ∀ m ∈ queue, m.id ∈ walk'.visited
  reached : ∀ v ∈ visits, ∀ m, v.PointsTo w m → m.id ∈ walk'.visited
  once : visits.Pairwise fun u v => u.node.id = v.node.id → v.node.isMerge = true
  again : ∀ v ∈ visits, v.node.id ∈ walk.visited → v.node.isMerge = true
  suspended : ∀ x, walk'.suspended.get? x = match lastResult? visits x with
    | some r => if r.isWaiting then some r else none
    | none => walk.suspended.get? x

theorem continues_nil (walk : Walk) : Continues w walk [] walk [] := by
  refine ⟨by simp, fun earlier v h => ?_, nofun, fun v hv => ?_, .nil, fun v hv => ?_, fun x => rfl⟩
  · simp at h
  · exact absurd hv List.not_mem_nil
  · exact absurd hv List.not_mem_nil

theorem Continues.mem_visited {walk walk' : Walk} {queue : List Node} {visits : List Visit} {x : String}
    (h : Continues w walk queue walk' visits) :
    x ∈ walk'.visited ↔ x ∈ walk.visited ∨ ∃ v ∈ visits, v.node.id = x := by
  rw [← List.mem_reverse, h.visited, List.mem_append, List.mem_reverse, List.mem_map]

theorem Continues.skip {walk walk' : Walk} {n : Node} {rest : List Node} {visits : List Visit}
    (h : Continues w walk rest walk' visits) (hskip : walk.skips n = true) :
    Continues w walk (n :: rest) walk' visits := by
  refine { h with origin := fun earlier v hv => ?_, queue := fun m hm => ?_ }
  · exact (h.origin earlier v hv).imp_left (List.mem_cons_of_mem n)
  · obtain rfl | hm := List.mem_cons.1 hm
    · exact h.mem_visited.2 (.inl (List.contains_iff_mem.1 (Bool.and_eq_true_iff.1 hskip).1))
    · exact h.queue m hm

theorem lastResult?_cons (v : Visit) (visits : List Visit) (x : String) :
    lastResult? (v :: visits) x =
      (lastResult? visits x).or (if v.node.id = x then some v.result else none) := by
  unfold lastResult?
  by_cases hx : v.node.id = x
  · cases hlast : (visits.filter (·.node.id == x)).getLast? <;> simp [hx, List.getLast?_cons, hlast]
  · simp [hx]

theorem get?_suspended_record (walk : Walk) (n : Node) (r : NodeResult) (x : String) :
    (walk.record n r).suspended.get? x =
      if n.id = x then if r.isWaiting then some r else none else walk.suspended.get? x := by
  unfold record
  by_cases hx : n.id = x
  · subst hx
    cases hwaits : r.isWaiting
    · simpa using Table.get?_erase_self ..
    · simpa using Table.get?_put_self ..
  · have hne : x ≠ n.id := fun h => hx h.symm
    rw [if_neg hx]
    cases hwaits : r.isWaiting
    · simpa using Table.get?_erase_of_ne _ hne
    · simpa using Table.get?_put_of_ne _ _ hne

/-- A node is visited, and the walk goes on with what was left in the queue and what that visit points to. -/
theorem Continues.visit {walk walk' : Walk} {n : Node} {r : NodeResult} {s : Session} {rest queue : List Node}
    {visits : List Visit} (h : Continues w (walk.record n r) queue walk' visits)
    (hskip : ¬ walk.skips n = true)
    (hqueue : ∀ m, m ∈ queue ↔ m ∈ rest ∨ Visit.PointsTo w ⟨n, r, s⟩ m) :
    Continues w walk (n :: rest) walk' (⟨n, r, s⟩ :: visits) where
  visited := by
    rw [h.visited]
    simp [record]
  origin earlier v hv := by
    cases earlier with
    | nil =>
      obtain rfl : v = ⟨n, r, s⟩ := by simpa using hv
      exact .inl (by simp)
    | cons first earlier =>
      obtain ⟨rfl, hrest⟩ : first = ⟨n, r, s⟩ ∧ earlier ++ [v] <+: visits := List.cons_prefix_cons.1 hv
      obtain hqueued | ⟨u, hu, hpoints⟩ := h.origin earlier v hrest
      · obtain hold | hpoints := (hqueue _).1 hqueued
        · exact .inl (List.mem_cons_of_mem n hold)
        · exact .inr ⟨_, List.mem_cons_self, hpoints⟩
      · exact .inr ⟨u, List.mem_cons_of_mem _ hu, hpoints⟩
  queue m hm := by
    obtain rfl | hm := List.mem_cons.1 hm
    · exact h.mem_visited.2 (.inl (by simp [record]))
    · exact h.queue m ((hqueue m).2 (.inl hm))
  reached v hv m hpoints := by
    obtain rfl | hv := List.mem_cons.1 hv
    · exact h.queue m ((hqueue m).2 (.inr hpoints))
    · exact h.reached v hv m hpoints
  once := List.pairwise_cons.2 ⟨fun v hv hid => h.again v hv (by simp [record, ← hid]), h.once⟩
  again v hv hmem := by
    obtain rfl | hv := List.mem_cons.1 hv
    · refine Bool.not_eq_false _ ▸ fun hmerge => hskip ?_
      simp_all [skips]
    · exact h.again v hv (by simp [record, hmem])
  suspended x := by
    rw [h.suspended, get?_suspended_record, lastResult?_cons]
    cases lastResult? visits x with
    | some last => rfl
    | none => by_cases hx : n.id = x <;> simp [hx]

theorem goNoting_leads (limits : Limits) (begun : Float) (left : Nat) (walk : Walk) (queue : List Node)
    (s : Session) :
    Leads (goNoting dispatch w limits begun left walk queue) s
      (fun (walk', visits) _ => walk'.cancelled = false → Continues w walk queue walk' visits)
      fun _ _ => True := by
  induction left generalizing walk queue s with
  | zero =>
    cases queue with
    | nil => exact leads_pure fun _ => continues_nil walk
    | cons n rest => exact leads_throw trivial
  | succ left ih =>
    cases queue with
    | nil => exact leads_pure fun _ => continues_nil walk
    | cons n rest =>
      rw [goNoting]
      split
      · next hskip => exact (ih walk rest s).mono (fun _ _ h hdone => (h hdone).skip hskip) fun _ _ h => h
      · next hskip =>
        refine leads_bind (leads_execution ?_)
        split
        · exact leads_pure nofun
        · refine leads_bind (leads_trivial.mono (fun _ t _ => ?_) fun _ _ h => h)
          refine leads_bind (leads_trivial.mono (fun r t _ => ?_) fun _ _ h => h)
          refine leads_bind (leads_get ?_)
          refine leads_bind ((follow_leads n r rest t).mono (fun queue u hqueue => ?_) fun _ _ h => h)
          refine leads_bind ((ih (walk.record n r) queue u).mono ?_ fun _ _ h => h)
          exact fun _ _ hrest => leads_pure fun hdone => (hrest hdone).visit hskip hqueue

theorem runNoting_leads (iterations : Int) (starts : List Node) (s : Session) :
    Leads (runNoting dispatch w iterations starts) s
      (fun (walk, visits) _ => walk.cancelled = false → Continues w start starts walk visits)
      fun _ _ => True := by
  refine leads_bind (leads_trivial.mono (fun timeout t _ => ?_) fun _ _ h => h)
  refine leads_bind (leads_trivial.mono (fun begun u _ => ?_) fun _ _ h => h)
  exact goNoting_leads _ begun _ start starts u

/-! ## Whole walks -/

/-- An account of a walk from some nodes. Every node that was visited is one of them or was pointed to before;
all of them were visited, and all that was pointed to; and the nodes that were left suspended are those whose
last results wait. -/
structure Accounts (w : Workflow) (starts : List Node) (walk : Walk) (visits : List Visit) : Prop where
  visited : walk.visited.reverse = visits.map (·.node.id)
  origin : ∀ earlier v, earlier ++ [v] <+: visits → v.node ∈ starts ∨ ∃ u ∈ earlier, u.PointsTo w v.node
  started : ∀ n ∈ starts, ∃ v ∈ visits, v.node.id = n.id
  reached : ∀ v ∈ visits, ∀ m, v.PointsTo w m →
    ∃ v' ∈ visits, v'.node.id = m.id ∧ (v'.node = m ∨ v'.node ∈ starts)
  once : visits.Pairwise fun u v => u.node.id = v.node.id → v.node.isMerge = true
  suspended : ∀ x, walk.suspended.get? x = (lastResult? visits x).filter (·.isWaiting)

theorem mem_nodes_of_pointsTo {v : Visit} {m : Node} (h : v.PointsTo w m) : m ∈ w.nodes := by
  obtain ⟨-, ⟨c, -, -, hm⟩ | ⟨-, hm⟩⟩ := h
  · exact List.mem_of_find?_eq_some hm
  · exact Workflow.mem_of_nodeOf? hm

theorem Continues.accounts {starts : List Node} {walk : Walk} {visits : List Visit}
    (h : Continues w start starts walk visits) (hunique : (w.nodes.map (·.id)).Nodup) :
    Accounts w starts walk visits := by
  have hvisited (x : String) : x ∈ walk.visited ↔ ∃ v ∈ visits, v.node.id = x := by
    simpa [start] using h.mem_visited (x := x)
  have hknown : ∀ v ∈ visits, v.node ∈ starts ∨ v.node ∈ w.nodes := by
    intro v hv
    obtain ⟨earlier, later, rfl⟩ := List.append_of_mem hv
    obtain hstart | ⟨u, -, hpoints⟩ := h.origin earlier v ⟨later, by simp⟩
    · exact .inl hstart
    · exact .inr (mem_nodes_of_pointsTo hpoints)
  refine ⟨by simpa [start] using h.visited, h.origin, fun n hn => (hvisited _).1 (h.queue n hn),
    fun v hv m hpoints => ?_, h.once, fun x => ?_⟩
  · obtain ⟨v', hv', hid⟩ := (hvisited _).1 (h.reached v hv m hpoints)
    refine ⟨v', hv', hid, ?_⟩
    obtain hstart | hnode := hknown v' hv'
    · exact .inr hstart
    · exact .inl (List.inj_on_of_nodup_map hunique hnode (mem_nodes_of_pointsTo hpoints) hid)
  · rw [h.suspended]
    cases lastResult? visits x with
    | none => rfl
    | some r => exact Option.filter_some.symm

/-- A walk that is neither cut short nor cancelled has an account: it visits what can be reached, whatever its
nodes do. -/
theorem visits_what_is_reached (hunique : (w.nodes.map (·.id)).Nodup) {iterations : Int} {starts : List Node}
    {s t : Session} {walk : Walk} (hrun : (run dispatch w iterations starts).run.run s = (.ok walk, t))
    (hcancelled : walk.cancelled = false) :
    ∃ visits, (runNoting dispatch w iterations starts).run.run s = (.ok (walk, visits), t) ∧
      Accounts w starts walk visits := by
  obtain ⟨visits, hnoting⟩ := exists_runNoting hrun
  have hleads : Leads (runNoting dispatch w iterations starts) s
      (fun (walk, visits) _ => walk.cancelled = false → Continues w start starts walk visits)
      fun _ _ => True := runNoting_leads iterations starts s
  unfold Leads at hleads
  rw [hnoting] at hleads
  exact ⟨visits, hnoting, (hleads hcancelled).accounts hunique⟩

/-- A merge with a way back to itself, that is taken in its first lap only, and a node that waits. -/
def laps : Workflow := .ofNodes
  [⟨"begin", "start", .map [], .null, .null⟩, ⟨"lap", "merge", .map [], .null, .null⟩,
    ⟨"late", "wait", .map [], .null, .null⟩]
  [⟨"begin", "lap", .null, .null⟩,
    ⟨"lap", "lap", .object [("field", .str "more"), ("value", .bool true)], .null⟩,
    ⟨"lap", "late", .null, .null⟩] []

/-- The merge says whether there is another lap; before it waits, the last node names itself as the next one. -/
def lapping (n : Node) : Run NodeResult := do
  if n.isMerge then
    let trail := (← Run.execution).trail
    Run.setVariable (.str "more") (.bool (trail.count n.id == 1))
    return .okValue .null
  else if n.id == "late" then return .waiting "late" .null []
  else return .ok .empty (.str "late")

theorem visits_what_is_reached_laps : ∃ walk visits t,
    (run lapping laps 10 laps.startNodes).run.run
      ((Engine.knowing laps).session (.start "exec-1" default)) = (.ok walk, t) ∧
    walk.cancelled = false ∧ (laps.nodes.map (·.id)).Nodup ∧
    visits.map (fun v : Visit => v.node.id) = ["begin", "late", "lap", "lap"] ∧
    Accounts laps laps.startNodes walk visits := by
  have hends : ((run lapping laps 10 laps.startNodes).run.run
      ((Engine.knowing laps).session (.start "exec-1" default))).1.toOption.any (fun walk =>
        !walk.cancelled && walk.visited == ["lap", "lap", "late", "begin"]) = true := by
    decide +kernel
  rcases hrun : (run lapping laps 10 laps.startNodes).run.run
    ((Engine.knowing laps).session (.start "exec-1" default)) with ⟨fault | walk, t⟩
  · rw [hrun] at hends
    cases hends
  · rw [hrun] at hends
    obtain ⟨hcancelled, hvisited⟩ := Bool.and_eq_true_iff.1 hends
    have hcancelled : walk.cancelled = false := by simpa using hcancelled
    obtain ⟨visits, -, haccounts⟩ := visits_what_is_reached (w := laps) (by decide) hrun hcancelled
    refine ⟨walk, visits, t, rfl, hcancelled, by decide, ?_, haccounts⟩
    rw [← haccounts.visited, eq_of_beq hvisited]
    rfl

end Walk

end Flowline
