import Flowline.Proofs.Execution.Sound
import Flowline.Proofs.Node.Single

/-! # An execution as nodes are run

`Later e f`: the execution `f` comes of `e` by running nodes. Completed nodes stay as they are, and any
other state that changed is fresh: if it waits, it has a growing part with a number that was not given out
before, and names no job yet. -/

namespace Flowline

variable {actions : Actions}

/-- A state that has waited at most since numbers from `k` on were given out. -/
def NodeState.Fresh (actions : Actions) (k : Nat) (s : NodeState) : Prop :=
  s.status = .waiting → (∀ n, s.output.number? = some n → k ≤ n) ∧
    (actions.LeaveJobs → s.output.hasJob = false)

theorem NodeState.Fresh.mono {j k : Nat} {s : NodeState} (h : s.Fresh actions k) (hj : j ≤ k) :
    s.Fresh actions j := fun hw => ⟨fun n hn => Nat.le_trans hj ((h hw).1 n hn), (h hw).2⟩

theorem NodeState.Fresh.orEmpty {k : Nat} {status : NodeStatus} {o : Output}
    (h : NodeState.Fresh actions k ⟨status, o⟩) : NodeState.Fresh actions k ⟨status, o.orEmpty⟩ := by
  intro hw
  unfold Output.orEmpty
  split
  · exact h hw
  · refine ⟨?_, fun _ => rfl⟩
    rintro n ⟨⟩

/-- A result that can be recorded as the state of a node. -/
structure NodeResult.Reported (actions : Actions) (k : Nat) (r : NodeResult) (e : Execution) : Prop where
  admits : e.Admits r.output
  fresh : NodeState.Fresh actions k ⟨r.status, r.output⟩
  timely : actions.GiveTimes → NodeState.Timely ⟨r.status, r.output⟩

namespace Execution

structure Later (actions : Actions) (e f : Execution) : Prop where
  sound : f.Sound actions
  id_eq : f.id = e.id
  workflowId_eq : f.workflowId = e.workflowId
  numbers : e.nextNumber ≤ f.nextNumber
  keeps : ∀ x s, e.state? x = some s → s.status = .completed → f.state? x = some s
  fresh : ∀ x s, f.state? x = some s → e.state? x = some s ∨ s.Fresh actions e.nextNumber

/-- A node that has waited at most since numbers from `k` on were given out. -/
def FreshAt (actions : Actions) (k : Nat) (e : Execution) (x : String) : Prop :=
  ∀ s, e.state? x = some s → s.Fresh actions k

variable {e f g : Execution}

theorem Later.refl (h : e.Sound actions) : Later actions e e :=
  ⟨h, rfl, rfl, Nat.le_refl _, fun _ _ hx _ => hx, fun _ _ hx => .inl hx⟩

theorem Later.trans (h₁ : Later actions e f) (h₂ : Later actions f g) : Later actions e g := by
  refine ⟨h₂.sound, h₂.id_eq.trans h₁.id_eq, h₂.workflowId_eq.trans h₁.workflowId_eq,
    Nat.le_trans h₁.numbers h₂.numbers, ?_, ?_⟩
  · intro x s hx hc
    exact h₂.keeps x s (h₁.keeps x s hx hc) hc
  · intro x s hx
    obtain hx | hfresh := h₂.fresh x s hx
    · exact h₁.fresh x s hx
    · exact .inr (hfresh.mono h₁.numbers)

theorem Later.of_eq (h : e.Sound actions) (hid : f.id = e.id) (hw : f.workflowId = e.workflowId)
    (hstates : f.states = e.states) (hnumber : f.nextNumber = e.nextNumber) : Later actions e f := by
  have hstate (x : String) : f.state? x = e.state? x := by rw [state?, state?, hstates]
  refine ⟨h.of_eq hstates hnumber, hid, hw, Nat.le_of_eq hnumber.symm, ?_, ?_⟩
  · intro x s hx _
    rw [hstate]
    exact hx
  · intro x s hx
    rw [hstate] at hx
    exact .inl hx

theorem Later.freshAt {k : Nat} {x : String} (h : Later actions e f) (hx : FreshAt actions k e x)
    (hk : k ≤ e.nextNumber) : FreshAt actions k f x := by
  intro s hs
  obtain hs | hfresh := h.fresh x s hs
  · exact hx s hs
  · exact hfresh.mono hk

theorem Later.below {o : Output} (h : Later actions e f) (ho : ∀ p ∈ o.growing, p.2 < e.nextNumber) :
    ∀ p ∈ o.growing, p.2 < f.nextNumber := fun p hp => Nat.lt_of_lt_of_le (ho p hp) h.numbers

/-- A number is given out. -/
theorem later_number (h : e.Sound actions) :
    Later actions e { e with nextNumber := e.nextNumber + 1 } := by
  refine ⟨⟨h.nodup, ?_, h.parted, h.apart, h.timely⟩, rfl, rfl, Nat.le_succ _, fun _ _ hx _ => hx,
    fun _ _ hx => .inl hx⟩
  intro x s hx p hp
  exact Nat.lt_succ_of_lt (h.below x s hx p hp)

/-- The output of a node becomes a growing part with a number that was just given out. -/
theorem admits_asGrowing (h : e.Sound actions) {o : Output} (hbelow : ∀ p ∈ o.growing, p.2 < e.nextNumber)
    (hinner : Output.Inner o.growing) :
    Admits { e with nextNumber := e.nextNumber + 1 } (o.asGrowing e.nextNumber) := by
  refine ⟨?_, .inr ⟨e.nextNumber, o.growing, rfl, hinner⟩, ?_⟩
  · intro p hp
    obtain rfl | hp := List.mem_cons.1 hp
    · exact Nat.lt_succ_self _
    · exact Nat.lt_succ_of_lt (hbelow p hp)
  · intro n hn x s hx hs
    obtain rfl : e.nextNumber = n :=
      Option.some.inj ((Output.number?_of_top (o := o.asGrowing e.nextNumber) rfl).symm.trans hn)
    exact Nat.lt_irrefl _ (h.below x s hx _ (Output.mem_growing_of_number? hs))

/-! ## Recording a result -/

theorem isCompleted_of_state? {x : String} {s : NodeState} (hx : e.state? x = some s) :
    e.isCompleted x = (s.status == .completed) := by
  rw [isCompleted, nodeStatus?, hx]
  rfl

theorem isCompleted_of_new {x : String} (hx : e.state? x = none) : e.isCompleted x = false := by
  rw [isCompleted, nodeStatus?, hx]
  rfl

theorem Later.setState {r : NodeResult} (h : Later actions e f) (x : String)
    (hr : r.Reported actions e.nextNumber f) :
    Later actions e (f.setState x r.status r.output) := by
  obtain ⟨states, heq⟩ := setState_eq f x r.status r.output
  refine ⟨h.sound.setState x hr.admits hr.timely, ?_, ?_, ?_, ?_, ?_⟩
  · rw [heq]
    exact h.id_eq
  · rw [heq]
    exact h.workflowId_eq
  · rw [setState_nextNumber]
    exact h.numbers
  · intro y s hy hc
    have hy' := h.keeps y s hy hc
    rw [state?_setState, if_neg]
    · exact hy'
    · rintro ⟨rfl, hopen⟩
      rw [isCompleted_of_state? hy', hc] at hopen
      cases hopen
  · intro y s hy
    rw [state?_setState] at hy
    split at hy
    · obtain rfl := Option.some.inj hy
      exact .inr hr.fresh.orEmpty
    · exact h.fresh y s hy

/-- A node whose state was just recorded. -/
theorem freshAt_setState {k : Nat} {r : NodeResult} {x : String} (hr : r.Reported actions k e) :
    FreshAt actions k (e.setState x r.status r.output) x := by
  intro s hs
  rw [state?_setState] at hs
  split at hs
  · obtain rfl := Option.some.inj hs
    exact hr.fresh.orEmpty
  · next hnot =>
    intro hw
    rw [isCompleted_of_state? hs, hw] at hnot
    exact absurd ⟨rfl, rfl⟩ hnot

theorem FreshAt.setState {k : Nat} {r : NodeResult} {x : String} (hx : FreshAt actions k e x)
    (y : String) (hr : r.Reported actions k e) :
    FreshAt actions k (e.setState y r.status r.output) x := by
  intro s hs
  rw [state?_setState] at hs
  split at hs
  · obtain rfl := Option.some.inj hs
    exact hr.fresh.orEmpty
  · exact hx s hs

end Execution

end Flowline
