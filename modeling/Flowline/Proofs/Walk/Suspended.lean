import Flowline.Proofs.Node.Dispatch
import Flowline.Walk

/-! # Where a walk is suspended

A walk leads from a sound execution to a later one. The nodes that it leaves suspended are different ones,
and each has waited in this walk at the earliest. What the first visit of a walk records anew stays so. -/

namespace Flowline.Walk
open Execution

variable {actions : Actions} {dispatch : Node → Run NodeResult} {s : Session}

/-! ## Where the walk goes on -/

section Follow
variable {R : Session → Session → Prop} [Frame R]

theorem within_passes (c : Connection) : Within R (passes c) := by
  unfold passes
  split
  · exact gives_pure trivial
  · exact Run.within_check _

theorem within_targets (w : Workflow) (connections : List Connection) :
    Within R (targets w connections) := by
  induction connections with
  | nil => exact gives_pure trivial
  | cons c rest ih =>
    refine (within_passes c).bind fun passed => ?_
    dsimp only
    split
    · exact ih.bind fun _ => gives_pure trivial
    · exact ih.bind fun _ => gives_pure trivial

theorem within_jump (w : Workflow) (n : Node) (r : NodeResult) : Within R (jump w n r) := by
  unfold jump
  split
  · exact gives_pure trivial
  · split
    · exact gives_pure trivial
    · exact (Run.within_note _ _ _).bind fun _ => gives_pure trivial

theorem within_follow (w : Workflow) (n : Node) (r : NodeResult) (queue : List Node) :
    Within R (follow w n r queue) := by
  unfold follow
  split
  · exact gives_pure trivial
  · refine (within_targets w _).bind fun next => ?_
    exact (within_jump w n r).bind fun _ => gives_pure trivial

theorem within_checkTime (limits : Limits) (begun : Float) : Within R (checkTime limits begun) := by
  refine Run.within_readStopwatch.bind fun elapsed => ?_
  dsimp only
  split
  · exact gives_throw
  · exact gives_pure trivial

end Follow

/-! ## Visits -/

/-- Nodes whose states running a node records anew, unless it fails. -/
def Renews (actions : Actions) (dispatch : Node → Run NodeResult) (n : Node) (ids : List String) :
    Prop :=
  ∀ s, s.execution.Sound actions → Reaches actions s
    (fun r f => r.isFailed = true ∨ ∀ x ∈ ids, FreshAt actions s.execution.nextNumber f x) (dispatch n)

theorem renews_nil (hdispatch : Dispatches actions dispatch) (n : Node) :
    Renews actions dispatch n [] :=
  fun s hs => (hdispatch n s hs).mono fun _ _ _ _ => .inr fun _ hx => absurd hx List.not_mem_nil

/-- A visit records the state of its node anew, and has a result only if the node does not fail. -/
theorem visit_reaches (hdispatch : Dispatches actions dispatch) {n : Node} {ids : List String}
    (hids : Renews actions dispatch n ids) (hs : s.execution.Sound actions) :
    Reaches actions s (fun _ f => ∀ x ∈ n.id :: ids, FreshAt actions s.execution.nextNumber f x)
      (visit dispatch n) := by
  have hvisit : Later actions s.execution (s.execution.visit n.id) := .of_eq hs rfl rfl rfl rfl
  refine Reaches.bind (m := Run.modifyExecution (·.visit n.id))
    (Q := fun _ f => f = s.execution.visit n.id) ⟨hvisit, rfl⟩ fun _ t ht heq => ?_
  have hnumber : t.execution.nextNumber = s.execution.nextNumber := by rw [heq]; rfl
  rw [← hnumber]
  refine leads_bind (Leads.mono ((hdispatch n t ht.sound).and (hids t ht.sound)) ?_
    fun _ _ hfault => hfault)
  intro r u ⟨hu, hr, hrenewed⟩
  have hset := hu.setState n.id hr
  refine leads_bind (leads_modify ?_)
  dsimp only
  split
  · exact leads_throw hset
  · next hdone =>
    refine leads_pure ⟨hset, ?_⟩
    intro x hx
    obtain rfl | hx := List.mem_cons.1 hx
    · exact freshAt_setState hr
    · obtain hfailed | hfresh := hrenewed
      · exact absurd hfailed hdone
      · exact (hfresh x hx).setState n.id hr

/-! ## Suspended nodes -/

/-- The suspended nodes of a walk differ, and have waited since numbers from `k` on were given out. -/
structure Suspends (actions : Actions) (k : Nat) (walk : Walk) (e : Execution) : Prop where
  nodup : walk.suspended.keys.Nodup
  fresh : ∀ x ∈ walk.suspended.keys, FreshAt actions k e x

theorem Suspends.later {k : Nat} {walk : Walk} {e f : Execution} (h : Suspends actions k walk e)
    (hlater : Later actions e f) (hk : k ≤ e.nextNumber) : Suspends actions k walk f :=
  ⟨h.nodup, fun x hx => hlater.freshAt (h.fresh x hx) hk⟩

theorem Suspends.record {k : Nat} {walk : Walk} {e : Execution} (h : Suspends actions k walk e)
    {n : Node} (hn : FreshAt actions k e n.id) (r : NodeResult) :
    Suspends actions k (walk.record n r) e := by
  unfold Walk.record
  split
  · refine ⟨Table.nodup_put _ _ h.nodup, fun x hx => ?_⟩
    obtain rfl | hx := Table.mem_keys_put.1 hx
    · exact hn
    · exact h.fresh x hx
  · refine ⟨Table.nodup_erase _ h.nodup, fun x hx => h.fresh x ?_⟩
    exact (List.filter_sublist.map _).subset hx

theorem go_reaches (hdispatch : Dispatches actions dispatch) (w : Workflow) (limits : Limits)
    (begun : Float) (left : Nat) {k : Nat} {walk : Walk} (queue : List Node)
    (hs : s.execution.Sound actions) (hk : k ≤ s.execution.nextNumber)
    (hwalk : Suspends actions k walk s.execution) :
    Reaches actions s (fun walk f => Suspends actions k walk f)
      (go dispatch w limits begun left walk queue) := by
  induction left generalizing s walk queue with
  | zero =>
    cases queue with
    | nil => exact Reaches.pure hs hwalk
    | cons n rest => exact Reaches.throw hs
  | succ left ih =>
    cases queue with
    | nil => exact Reaches.pure hs hwalk
    | cons n rest =>
      rw [go]
      split
      · exact ih rest hs hk hwalk
      · refine (within_execution.reaches hs).bind fun e t₁ h₁ _ => ?_
        have hwalk₁ := hwalk.later h₁ hk
        have hk₁ := Nat.le_trans hk h₁.numbers
        split
        · exact Reaches.pure h₁.sound ⟨hwalk₁.nodup, hwalk₁.fresh⟩
        · refine ((within_checkTime limits begun).reaches h₁.sound).bind fun _ t₂ h₂ _ => ?_
          have hk₂ := Nat.le_trans hk₁ h₂.numbers
          refine (visit_reaches hdispatch (renews_nil hdispatch n) h₂.sound).bind fun r t₃ h₃ hr => ?_
          have hn : FreshAt actions k t₃.execution n.id := fun state hstate =>
            (hr n.id (List.mem_cons_self ..) state hstate).mono hk₂
          refine ((within_follow w n r rest).reaches h₃.sound).bind fun queue t₄ h₄ _ => ?_
          have hk₃ := Nat.le_trans hk₂ h₃.numbers
          refine ih queue h₄.sound (Nat.le_trans hk₃ h₄.numbers) ?_
          exact (((hwalk₁.later h₂ hk₁).later h₃ hk₂).record hn r).later h₄ hk₃

theorem suspends_start {k : Nat} {e : Execution} : Suspends actions k start e :=
  ⟨List.nodup_nil, fun _ hx => absurd hx List.not_mem_nil⟩

theorem run_reaches (hdispatch : Dispatches actions dispatch) (w : Workflow) (iterations : Int)
    (starts : List Node) (hs : s.execution.Sound actions) :
    Reaches actions s (fun walk f => Suspends actions s.execution.nextNumber walk f)
      (run dispatch w iterations starts) := by
  refine ((within_of _).reaches hs).bind fun timeout t₁ h₁ _ => ?_
  refine (Run.within_readStopwatch.reaches h₁.sound).bind fun begun t₂ h₂ _ => ?_
  exact go_reaches hdispatch w _ begun _ starts h₂.sound (Nat.le_trans h₁.numbers h₂.numbers)
    suspends_start

/-- A walk from one node, unless it finds the execution cancelled, records anew the state of that node
and whatever running it renews. -/
theorem run_single_reaches (hdispatch : Dispatches actions dispatch) {n : Node} {ids : List String}
    (hids : Renews actions dispatch n ids) (w : Workflow) (iterations : Int)
    (hs : s.execution.Sound actions) :
    Reaches actions s (fun _ f => f.status = .cancelled ∨
        ∀ x ∈ n.id :: ids, FreshAt actions s.execution.nextNumber f x)
      (run dispatch w iterations [n]) := by
  refine ((within_of _).reaches hs).bind fun timeout t₁ h₁ _ => ?_
  refine (Run.within_readStopwatch.reaches h₁.sound).bind fun begun t₂ h₂ _ => ?_
  cases iterations.toNat with
  | zero => exact Reaches.throw h₂.sound
  | succ left =>
    rw [go]
    split
    · next hskip => cases hskip
    · refine Reaches.bind (Q := fun e f => e = f) (Reaches.pure h₂.sound rfl) fun e t₃ h₃ he => ?_
      subst he
      split
      · next hcancelled => exact Reaches.pure h₃.sound (.inl (beq_iff_eq.1 hcancelled))
      · refine ((within_checkTime _ begun).reaches h₃.sound).bind fun _ t₄ h₄ _ => ?_
        have hle := Nat.le_trans (Nat.le_trans h₁.numbers h₂.numbers)
          (Nat.le_trans h₃.numbers h₄.numbers)
        refine (visit_reaches hdispatch hids h₄.sound).bind fun r t₅ h₅ hr => ?_
        refine ((within_follow w n r []).reaches h₅.sound).bind fun queue t₆ h₆ _ => ?_
        have hle' := Nat.le_trans (Nat.le_trans hle h₅.numbers) h₆.numbers
        have hn : FreshAt actions 0 t₅.execution n.id := fun state hstate =>
          (hr n.id (List.mem_cons_self ..) state hstate).mono (Nat.zero_le _)
        have hwalk := (suspends_start.record hn r).later h₆ (Nat.zero_le _)
        refine (go_reaches hdispatch w _ begun left queue h₆.sound (Nat.zero_le _) hwalk).mono ?_
        refine fun _ f hf _ => .inr fun x hx => ?_
        have hfresh := (h₆.trans hf).freshAt (hr x hx) h₅.numbers
        exact fun state hstate => (hfresh state hstate).mono hle

end Flowline.Walk
