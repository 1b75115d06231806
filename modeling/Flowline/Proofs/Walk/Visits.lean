import Flowline.Proofs.Node.Frame
import Flowline.Proofs.Node.Next
import Flowline.Proofs.Walk.Suspended

/-! # What a walk visits

A walk visits only nodes that its starts lead to, from one to the next along connections and along the nodes
that results name. A node that is no merge is visited once at most. A walk that comes to its end has visited
whatever nodes that do not wait lead to without a condition. -/

namespace Flowline

/-- Running nodes does not count as visiting them. -/
def SameTrail (s t : Session) : Prop := t.execution.trail = s.execution.trail

instance : NodeFrame SameTrail where
  refl _ := rfl
  trans _ _ _ hst htu := htu.trans hst
  setVariable _ _ _ := rfl
  log s level message context := by
    obtain ⟨logs, h⟩ := Execution.log_eq s.execution level message context
    rw [SameTrail, h]
  cancel _ := rfl
  ran _ _ _ := rfl
  elapse _ _ _ _ := rfl
  takeSignal _ _ := rfl
  countCall _ _ _ := rfl
  readStopwatch _ := rfl
  setState s x status o := by
    obtain ⟨states, h⟩ := Execution.setState_eq s.execution x status o
    rw [SameTrail, h]
  number _ := rfl

namespace Walk

/-- A node leads to another one by a connection, or as a result of it names the other one. -/
def LeadsTo (dispatch : Node → Run NodeResult) (w : Workflow) (n m : Node) : Prop :=
  (∃ c ∈ w.leaving n.id, w.node? c.target = some m) ∨
    ∃ s r t, (dispatch n).run.run s = (.ok r, t) ∧ r.next.isPresent = true ∧
      w.nodeOf? r.next = some m

theorem LeadsTo.mem {dispatch : Node → Run NodeResult} {w : Workflow} {n m : Node}
    (h : LeadsTo dispatch w n m) : m ∈ w.nodes := by
  obtain ⟨c, -, hm⟩ | ⟨s, r, t, -, -, hm⟩ := h
  · exact List.mem_of_find?_eq_some hm
  · exact Workflow.mem_of_nodeOf? hm

/-- A node that names no next node leads to others by connections alone. -/
theorem LeadsTo.connected {dispatch : Node → Run NodeResult} {w : Workflow} {n m : Node}
    (h : LeadsTo dispatch w n m) (hstraight : Straight (dispatch n)) :
    ∃ c ∈ w.leaving n.id, w.node? c.target = some m := by
  obtain hconnected | ⟨s, r, t, hrun, hnext, -⟩ := h
  · exact hconnected
  · have hnull := hstraight s
    unfold Leads at hnull
    rw [hrun] at hnull
    have hnull : r.next = .null := hnull
    rw [hnull] at hnext
    cases hnext

theorem gives_targets (w : Workflow) (connections : List Connection) :
    Gives SameTrail (fun ms => ∀ m ∈ ms, ∃ c ∈ connections, w.node? c.target = some m)
      (targets w connections) := by
  induction connections with
  | nil => exact gives_pure fun m hm => absurd hm List.not_mem_nil
  | cons c rest ih =>
    refine (within_passes c).bind fun passed => ?_
    have here (here : List Node) (hhere : ∀ m ∈ here, w.node? c.target = some m) :
        Gives SameTrail (fun ms => ∀ m ∈ ms, ∃ d ∈ c :: rest, w.node? d.target = some m)
          (do return here ++ (← targets w rest)) := by
      refine ih.bind fun others hothers => gives_pure fun m hm => ?_
      obtain hm | hm := List.mem_append.1 hm
      · exact ⟨c, List.mem_cons_self .., hhere m hm⟩
      · obtain ⟨d, hd, htarget⟩ := hothers m hm
        exact ⟨d, List.mem_cons_of_mem c hd, htarget⟩
    dsimp only
    split
    · exact here _ fun m hm => Option.mem_toList.1 hm
    · exact here _ fun m hm => absurd hm List.not_mem_nil

theorem gives_jump (w : Workflow) (n : Node) (r : NodeResult) :
    Gives SameTrail (fun ms => ∀ m ∈ ms, r.next.isPresent = true ∧ w.nodeOf? r.next = some m)
      (jump w n r) := by
  unfold jump
  split
  · exact gives_pure fun m hm => absurd hm List.not_mem_nil
  · next hpresent =>
    split
    · next target htarget =>
      refine gives_pure fun m hm => ?_
      obtain rfl := List.mem_singleton.1 hm
      exact ⟨by simpa using hpresent, htarget⟩
    · exact (Run.within_note _ _ _).bind fun _ => gives_pure fun m hm => absurd hm List.not_mem_nil

theorem gives_follow (w : Workflow) (n : Node) (r : NodeResult) (queue : List Node) :
    Gives SameTrail (fun ms => ∀ m ∈ ms, m ∈ queue ∨ (∃ c ∈ w.leaving n.id, w.node? c.target = some m) ∨
      r.next.isPresent = true ∧ w.nodeOf? r.next = some m) (follow w n r queue) := by
  unfold follow
  split
  · exact gives_pure fun m hm => .inl hm
  · refine (gives_targets w _).bind fun next hnext => ?_
    refine (gives_jump w n r).bind fun jumped hjumped => gives_pure fun m hm => ?_
    obtain hm | hm := List.mem_append.1 hm
    · obtain hm | hm := List.mem_append.1 hm
      · exact .inr (.inr (hjumped m hm))
      · exact .inl hm
    · exact .inr (.inl (hnext m hm))

variable {dispatch : Node → Run NodeResult} {w : Workflow}

theorem visit_leads (hframe : ∀ n, Within SameTrail (dispatch n)) (n : Node) (s : Session) :
    Leads (visit dispatch n) s
      (fun r t => t.execution.trail = s.execution.trail ++ [n.id] ∧
        ∃ u v, (dispatch n).run.run u = (.ok r, v))
      fun _ t => t.execution.trail = s.execution.trail ++ [n.id] := by
  refine leads_bind (leads_modify ?_)
  refine leads_bind ?_
  have hsame := hframe n { s with execution := s.execution.visit n.id }
  unfold Leads at hsame ⊢
  rcases hm : (dispatch n).run.run { s with execution := s.execution.visit n.id } with ⟨fault | r, t⟩
  · rw [hm] at hsame
    exact hsame
  · rw [hm] at hsame
    obtain ⟨states, hset⟩ := Execution.setState_eq t.execution n.id r.status r.output
    have htrail : (t.execution.setState n.id r.status r.output).trail =
        s.execution.trail ++ [n.id] := by
      rw [hset]
      exact hsame.1
    refine leads_bind (leads_modify ?_)
    dsimp only
    split
    · exact leads_throw htrail
    · exact leads_pure ⟨htrail, _, t, hm⟩

/-- The nodes that were visited are among some nodes, and each that is no merge was visited once. -/
structure Visited (among : Node → Prop) (trail : List String) : Prop where
  origin : ∀ x ∈ trail, ∃ m, among m ∧ m.id = x
  once : ∀ x, (∀ m, among m → m.id = x → m.isMerge = false) → trail.count x ≤ 1

theorem Visited.visit {among : Node → Prop} {walk : Walk} {n : Node} {trail : List String}
    (h : Visited among trail) (htrail : trail = walk.visited.reverse) (hn : among n)
    (hskip : ¬ walk.skips n = true) : Visited among (trail ++ [n.id]) := by
  constructor
  · intro x hx
    obtain hx | hx := List.mem_append.1 hx
    · exact h.origin x hx
    · exact ⟨n, hn, (List.mem_singleton.1 hx).symm⟩
  · intro x hx
    rw [List.count_append, List.count_singleton]
    split
    · next heq =>
      obtain rfl := eq_of_beq heq
      have hnew : n.id ∉ trail := by
        intro hmem
        rw [htrail, List.mem_reverse] at hmem
        refine hskip ?_
        rw [skips, List.contains_iff_mem.2 hmem, hx n hn rfl]
        rfl
      have hzero := List.count_eq_zero.2 hnew
      omega
    · exact h.once x hx

theorem go_leads {among : Node → Prop} (hframe : ∀ n, Within SameTrail (dispatch n))
    (hamong : ∀ n m, among n → LeadsTo dispatch w n m → among m) (limits : Limits) (begun : Float)
    (left : Nat) (walk : Walk) (queue : List Node) (s : Session) (hqueue : ∀ m ∈ queue, among m)
    (htrail : s.execution.trail = walk.visited.reverse) (hs : Visited among s.execution.trail) :
    Leads (go dispatch w limits begun left walk queue) s (fun _ t => Visited among t.execution.trail)
      fun _ t => Visited among t.execution.trail := by
  induction left generalizing walk queue s with
  | zero =>
    cases queue with
    | nil => exact leads_pure hs
    | cons n rest => exact leads_throw hs
  | succ left ih =>
    cases queue with
    | nil => exact leads_pure hs
    | cons n rest =>
      have hrest (m : Node) (hm : m ∈ rest) : among m := hqueue m (List.mem_cons_of_mem n hm)
      have hn := hqueue n (List.mem_cons_self ..)
      rw [go]
      split
      · exact ih walk rest s hrest htrail hs
      -- Only visiting the node adds to the trail, whichever of the further steps fails.
      · next hskip =>
        refine leads_bind (leads_execution ?_)
        split
        · exact leads_pure hs
        · have hcheck := within_checkTime (R := SameTrail) limits begun s
          refine Leads.bind (hcheck.mono (fun _ _ h => h.1) ?_) ?_
          · intro _ t ht
            rw [ht]
            exact hs
          · intro _ t ht
            have hvisited := hs.visit htrail hn hskip
            rw [← ht] at hvisited
            refine Leads.bind ((visit_leads hframe n t).mono (fun _ _ h => h) ?_) ?_
            · intro _ u hu
              rw [hu]
              exact hvisited
            · rintro r u ⟨hu, v, v', hr⟩
              rw [← hu] at hvisited
              refine Leads.bind ((gives_follow w n r rest u).mono (fun _ _ h => h) ?_) ?_
              · intro _ x hx
                rw [hx]
                exact hvisited
              · rintro queue x ⟨hx, hqueue⟩
                rw [← hx] at hvisited
                refine ih (walk.record n r) queue x ?_ ?_ hvisited
                · intro m hm
                  obtain hm | hm | hm := hqueue m hm
                  · exact hrest m hm
                  · exact hamong n m hn (.inl hm)
                  · exact hamong n m hn (.inr ⟨v, r, v', hr, hm⟩)
                · rw [hx, hu, ht, htrail]
                  exact List.reverse_cons.symm

theorem run_leads (among : Node → Prop) (hframe : ∀ n, Within SameTrail (dispatch n))
    (hamong : ∀ n m, among n → LeadsTo dispatch w n m → among m) (iterations : Int)
    {starts : List Node} (hstarts : ∀ n ∈ starts, among n) {s : Session}
    (hs : s.execution.trail = []) :
    Leads (run dispatch w iterations starts) s (fun _ t => Visited among t.execution.trail)
      fun _ t => Visited among t.execution.trail := by
  have hnone : Visited among [] := ⟨fun x hx => absurd hx List.not_mem_nil, fun _ _ => Nat.zero_le _⟩
  refine Leads.bind ((within_of (R := SameTrail) _ s).mono (fun _ _ h => h.1) ?_) ?_
  · intro _ t ht
    rw [ht, hs]
    exact hnone
  · intro timeout t ht
    refine Leads.bind ((Run.within_readStopwatch (R := SameTrail) t).mono (fun _ _ h => h.1) ?_) ?_
    · intro _ u hu
      rw [hu, ht, hs]
      exact hnone
    · intro begun u hu
      have hu' : u.execution.trail = [] := by rw [hu, ht, hs]
      refine go_leads hframe hamong _ begun _ start starts u hstarts hu' ?_
      rw [hu']
      exact hnone

/-! ## What visits keep -/

/-- What visiting nodes keeps unless they fail, and whatever else a walk does, a walk from such nodes keeps
unless it fails. Where it fails, there holds what then holds of the visits. -/
theorem go_holds {R : Session → Session → Prop} [Frame R] {among : Node → Prop} {P F : Session → Prop}
    (hframe : ∀ n, Within SameTrail (dispatch n))
    (hamong : ∀ n m, among n → LeadsTo dispatch w n m → among m) (hquiet : ∀ s t, R s t → P s → P t)
    (hfails : ∀ s, P s → F s)
    (hvisit : ∀ n s, among n → P s → Leads (visit dispatch n) s (fun _ t => P t) fun _ t => F t)
    (limits : Limits) (begun : Float) (left : Nat) (walk : Walk) {queue : List Node} {s : Session}
    (hqueue : ∀ m ∈ queue, among m) (hs : P s) :
    Leads (go dispatch w limits begun left walk queue) s (fun _ t => P t) fun _ t => F t := by
  induction left generalizing walk queue s with
  | zero =>
    cases queue with
    | nil => exact leads_pure hs
    | cons n rest => exact leads_throw (hfails s hs)
  | succ left ih =>
    cases queue with
    | nil => exact leads_pure hs
    | cons n rest =>
      have hrest (m : Node) (hm : m ∈ rest) : among m := hqueue m (List.mem_cons_of_mem n hm)
      have hn := hqueue n (List.mem_cons_self ..)
      rw [go]
      split
      · exact ih walk hrest hs
      · refine leads_bind (leads_execution ?_)
        split
        · exact leads_pure hs
        · have hcheck : Within R (checkTime limits begun) := within_checkTime limits begun
          refine Leads.bind ((hcheck s).mono (fun _ _ h => h.1)
            fun _ t hst => hfails t (hquiet s t hst hs)) ?_
          intro _ t hst
          have hvisited := (hvisit n t hn (hquiet s t hst hs)).and (visit_leads hframe n t)
          refine Leads.bind (hvisited.mono (fun _ _ h => h) fun _ _ h => h.1) ?_
          rintro r u ⟨hu, -, v, v', hr⟩
          have hfollow : Within R (follow w n r rest) := within_follow w n r rest
          refine Leads.bind (((hfollow u).and (gives_follow w n r rest u)).mono (fun _ _ h => h)
            fun _ x h => hfails x (hquiet u x h.1 hu)) ?_
          rintro queue x ⟨⟨hux, -⟩, -, hqueue⟩
          refine ih (walk.record n r) (fun m hm => ?_) (hquiet u x hux hu)
          obtain hm | hm | hm := hqueue m hm
          · exact hrest m hm
          · exact hamong n m hn (.inl hm)
          · exact hamong n m hn (.inr ⟨v, r, v', hr, hm⟩)

theorem run_holds {R : Session → Session → Prop} [Frame R] {among : Node → Prop} {P F : Session → Prop}
    (hframe : ∀ n, Within SameTrail (dispatch n))
    (hamong : ∀ n m, among n → LeadsTo dispatch w n m → among m) (hquiet : ∀ s t, R s t → P s → P t)
    (hfails : ∀ s, P s → F s)
    (hvisit : ∀ n s, among n → P s → Leads (visit dispatch n) s (fun _ t => P t) fun _ t => F t)
    (iterations : Int) {starts : List Node} (hstarts : ∀ n ∈ starts, among n) {s : Session} (hs : P s) :
    Leads (run dispatch w iterations starts) s (fun _ t => P t) fun _ t => F t := by
  have hread : Within R (Run.of (w.setting "timeout_seconds").asFloat) := within_of _
  refine Leads.bind ((hread s).mono (fun _ _ h => h.1) fun _ t hst => hfails t (hquiet s t hst hs))
    fun timeout t hst => ?_
  have ht := hquiet s t hst hs
  have hclock : Within R Run.readStopwatch := Run.within_readStopwatch
  refine Leads.bind ((hclock t).mono (fun _ _ h => h.1) fun _ u htu => hfails u (hquiet t u htu ht))
    fun begun u htu => ?_
  exact go_holds hframe hamong hquiet hfails hvisit _ begun _ start hstarts (hquiet t u htu ht)

/-! ## What is followed -/

/-- What a visited node leads to without a condition was visited or is in the queue, unless the node
waits. -/
def Follows (w : Workflow) (walk : Walk) (queue : List Node) : Prop :=
  ∀ x ∈ walk.visited, x ∉ walk.suspended.keys → ∀ c ∈ w.leaving x, c.condition.isNull = true →
    ∀ m, w.node? c.target = some m → m.id ∈ walk.visited ∨ m ∈ queue

theorem Follows.skip {walk : Walk} {n : Node} {rest : List Node} (h : Follows w walk (n :: rest))
    (hskip : walk.skips n = true) : Follows w walk rest := by
  intro x hx hopen c hc hnull m hm
  obtain hvisited | hqueue := h x hx hopen c hc hnull m hm
  · exact .inl hvisited
  · obtain rfl | hrest := List.mem_cons.1 hqueue
    · exact .inl (List.contains_iff_mem.1 (Bool.and_eq_true_iff.1 hskip).1)
    · exact .inr hrest

theorem mem_suspended_record {walk : Walk} {n : Node} {r : NodeResult} {x : String} (hx : x ≠ n.id)
    (hsuspended : x ∈ walk.suspended.keys) : x ∈ (walk.record n r).suspended.keys := by
  unfold record
  split
  · exact Table.mem_keys_put.2 (.inr hsuspended)
  · exact Table.mem_keys_erase.2 ⟨hx, hsuspended⟩

theorem Follows.record {walk : Walk} {n : Node} {r : NodeResult} {rest queue : List Node}
    (h : Follows w walk (n :: rest)) (hrest : ∀ m ∈ rest, m ∈ queue)
    (hnext : r.isWaiting = false → ∀ c ∈ w.leaving n.id, c.condition.isNull = true →
      ∀ m, w.node? c.target = some m → m ∈ queue) : Follows w (walk.record n r) queue := by
  intro x hx hopen c hc hnull m hm
  by_cases hxn : x = n.id
  · subst hxn
    refine .inr (hnext ?_ c hc hnull m hm)
    refine Bool.eq_false_iff.2 fun hwaits => hopen ?_
    rw [Walk.record, if_pos hwaits]
    exact Table.mem_keys_put.2 (.inl rfl)
  · obtain hvisited | hqueue := h x ((List.mem_cons.1 hx).resolve_left hxn)
      (fun hsuspended => hopen (mem_suspended_record hxn hsuspended)) c hc hnull m hm
    · exact .inl (List.mem_cons_of_mem _ hvisited)
    · obtain rfl | hmem := List.mem_cons.1 hqueue
      · exact .inl (List.mem_cons_self ..)
      · exact .inr (hrest m hmem)

theorem gives_targets_all (w : Workflow) (connections : List Connection) :
    Gives SameTrail (fun ms => ∀ c ∈ connections, c.condition.isNull = true →
      ∀ m, w.node? c.target = some m → m ∈ ms) (targets w connections) := by
  induction connections with
  | nil => exact gives_pure fun c hc => absurd hc List.not_mem_nil
  | cons c rest ih =>
    have here (here : List Node)
        (hhere : c.condition.isNull = true → ∀ m, w.node? c.target = some m → m ∈ here) :
        Gives SameTrail (fun ms => ∀ d ∈ c :: rest, d.condition.isNull = true →
          ∀ m, w.node? d.target = some m → m ∈ ms) (do return here ++ (← targets w rest)) := by
      refine ih.bind fun others hothers => gives_pure fun d hd hnull m hm => List.mem_append.2 ?_
      obtain rfl | hd := List.mem_cons.1 hd
      · exact .inl (hhere hnull m hm)
      · exact .inr (hothers d hd hnull m hm)
    have hpasses : Gives SameTrail (fun passed => c.condition.isNull = true → passed = true)
        (passes c) := by
      unfold passes
      split
      · exact gives_pure fun _ => rfl
      · next hcondition => exact (Run.within_check _).mono fun _ _ hnull => absurd hnull hcondition
    refine hpasses.bind fun passed hpassed => ?_
    dsimp only
    split
    · exact here _ fun _ m hm => Option.mem_toList.2 hm
    · next hnot => exact here _ fun hnull => absurd (hpassed hnull) hnot

theorem gives_follow_all (w : Workflow) (n : Node) (r : NodeResult) (queue : List Node) :
    Gives SameTrail (fun ms => (∀ m ∈ queue, m ∈ ms) ∧ (r.isWaiting = false →
      ∀ c ∈ w.leaving n.id, c.condition.isNull = true → ∀ m, w.node? c.target = some m → m ∈ ms))
      (follow w n r queue) := by
  unfold follow
  split
  · next hwaits => exact gives_pure ⟨fun _ hm => hm, fun hdone => nomatch hwaits.symm.trans hdone⟩
  · refine (gives_targets_all w _).bind fun next hnext => ?_
    refine (within_jump w n r).bind fun jumped => gives_pure ⟨fun m hm => ?_, fun _ c hc hnull m hm => ?_⟩
    · exact List.mem_append_left _ (List.mem_append_right _ hm)
    · exact List.mem_append_right _ (hnext c hc hnull m hm)

/-- A walk that was not cut short has followed every node that it visited. -/
theorem go_follows (hframe : ∀ n, Within SameTrail (dispatch n)) (limits : Limits) (begun : Float)
    (left : Nat) (walk : Walk) (queue : List Node) (s : Session)
    (htrail : s.execution.trail = walk.visited.reverse) (hwalk : Follows w walk queue) :
    Leads (go dispatch w limits begun left walk queue) s
      (fun walk t => t.execution.trail = walk.visited.reverse ∧
        (walk.cancelled = false → Follows w walk [])) fun _ _ => True := by
  induction left generalizing walk queue s with
  | zero =>
    cases queue with
    | nil => exact leads_pure ⟨htrail, fun _ => hwalk⟩
    | cons n rest => exact leads_throw trivial
  | succ left ih =>
    cases queue with
    | nil => exact leads_pure ⟨htrail, fun _ => hwalk⟩
    | cons n rest =>
      rw [go]
      split
      · next hskip => exact ih walk rest s htrail (hwalk.skip hskip)
      · refine leads_bind (leads_execution ?_)
        split
        · refine leads_pure ⟨htrail, ?_⟩
          rintro ⟨⟩
        · have hcheck := within_checkTime (R := SameTrail) limits begun s
          refine Leads.bind (hcheck.mono (fun _ _ h => h.1) fun _ _ _ => trivial) ?_
          intro _ t ht
          refine Leads.bind ((visit_leads hframe n t).mono (fun _ _ h => h.1) fun _ _ _ => trivial) ?_
          intro r u hu
          refine Leads.bind ((gives_follow_all w n r rest u).mono (fun _ _ h => h)
            fun _ _ _ => trivial) ?_
          rintro queue x ⟨hx, hrest, hnext⟩
          refine ih (walk.record n r) queue x ?_ (hwalk.record hrest hnext)
          rw [hx, hu, ht, htrail]
          exact List.reverse_cons.symm

theorem run_follows (hframe : ∀ n, Within SameTrail (dispatch n)) (iterations : Int)
    (starts : List Node) {s : Session} (hs : s.execution.trail = []) :
    Leads (run dispatch w iterations starts) s
      (fun walk t => t.execution.trail = walk.visited.reverse ∧
        (walk.cancelled = false → Follows w walk [])) fun _ _ => True := by
  refine Leads.bind ((within_of (R := SameTrail) _ s).mono (fun _ _ h => h.1) fun _ _ _ => trivial) ?_
  intro timeout t ht
  refine Leads.bind ((Run.within_readStopwatch (R := SameTrail) t).mono (fun _ _ h => h.1)
    fun _ _ _ => trivial) ?_
  intro begun u hu
  refine go_follows hframe _ begun _ start starts u ?_ fun x hx => absurd hx List.not_mem_nil
  rw [hu, ht, hs]
  rfl

end Walk

end Flowline
