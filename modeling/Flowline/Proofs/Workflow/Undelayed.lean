import Flowline.Proofs.Value.Entries
import Flowline.Proofs.Walk.Chain

/-! # Workflows whose delays do not wait

`Workflow.undelayed` sets each delay of a workflow to zero. It is the same workflow otherwise: a chain of the
same nodes, with the same course. -/

namespace Flowline
open Execution

variable {services : Services} {w : Workflow} {n m : Node} {row : List Node}

/-! ## Nodes -/

namespace Node

/-- The node, where it is a delay with no time to wait. -/
def undelayed (services : Services) (n : Node) : Node :=
  if n.isDelay services then { n with config := n.config.withEntry "value" (.int 0) } else n

theorem undelayed_of_not_delay (hdelay : ¬ n.isDelay services) : n.undelayed services = n := if_neg hdelay

theorem undelayed_eq (services : Services) (n : Node) :
    ∃ config, n.undelayed services = { n with config := config } := by
  unfold undelayed
  split
  · exact ⟨_, rfl⟩
  · exact ⟨n.config, rfl⟩

@[simp] theorem undelayed_id (services : Services) (n : Node) : (n.undelayed services).id = n.id := by
  obtain ⟨config, h⟩ := undelayed_eq services n
  rw [h]

@[simp] theorem isEntry_undelayed (services : Services) (n : Node) :
    (n.undelayed services).isEntry = n.isEntry := by
  obtain ⟨config, h⟩ := undelayed_eq services n
  rw [h]
  rfl

@[simp] theorem ofNode?_undelayed (services : Services) (n : Node) :
    NodeKind.ofNode? services (n.undelayed services) = NodeKind.ofNode? services n := by
  obtain ⟨config, h⟩ := undelayed_eq services n
  rw [h]
  rfl

theorem isDelay_undelayed : (n.undelayed services).isDelay services ↔ n.isDelay services := by
  rw [isDelay, ofNode?_undelayed, isDelay]

/-- An entry that was set is read back, if any can be read. -/
theorem entryOr_withEntry {config value v : Value} {key other : String} {standard : Value}
    (hread : (config.withEntry key value).entryOr other standard = .ok v) (standard' : Value) :
    (config.withEntry key value).entryOr key standard' = .ok value := by
  cases config with
  | map entries =>
    rw [Value.withEntry, Value.entryOr, Entries.get?_insert_self]
    rfl
  | _ => cases hread

/-- There is no time that such a delay could wait. -/
theorem delayIn_undelayed {scope : Value} {seconds : Int} (hdelay : n.isDelay services)
    (hseconds : (n.undelayed services).delayIn scope = .ok seconds) : seconds ≤ 0 := by
  rw [undelayed, if_pos hdelay, delayIn] at hseconds
  obtain ⟨unit, hunit, hseconds⟩ := bind_eq_ok.1 hseconds
  rw [entryOr_withEntry hunit] at hseconds
  obtain ⟨_, -, hseconds⟩ := bind_eq_ok.1 (show unit.toKey >>= _ = _ from hseconds)
  obtain rfl := Except.ok.inj hseconds
  rw [Int.zero_mul]

theorem Simple.undelayed (h : n.Simple services) : (n.undelayed services).Simple services := by
  cases h with
  | delay hdelay => exact .delay (isDelay_undelayed.2 hdelay)
  | data kind hkind hdata htimeless =>
    have hnot : ¬ n.isDelay services := by
      intro hdelay
      obtain rfl := Option.some.inj (hkind.symm.trans hdelay)
      cases hdata
    rw [undelayed_of_not_delay hnot]
    exact .data kind hkind hdata htimeless

end Node

/-! ## Courses -/

namespace ChainCourse
variable {c : ChainCourse}

theorem step_undelayed (c : ChainCourse) (n : Node) : c.step services (n.undelayed services) = c.step services n := by
  by_cases hdelay : n.isDelay services
  · rw [step_delay hdelay, step_delay (Node.isDelay_undelayed.2 hdelay)]
  · rw [Node.undelayed_of_not_delay hdelay]

/-- Delays have no part in a course. -/
theorem along_undelayed (c : ChainCourse) (row : List Node) :
    c.along services (row.map (Node.undelayed services)) = c.along services row := by
  induction row generalizing c with
  | nil => rfl
  | cons n rest ih =>
    rw [List.map_cons, along_cons, along_cons, step_undelayed]
    exact congrArg (c.step services n).bind (funext ih)

end ChainCourse

/-! ## Chains -/

namespace Workflow

/-- The workflow with each of its delays set to zero. -/
def undelayed (services : Services) (w : Workflow) : Workflow :=
  { w with nodes := w.nodes.map (Node.undelayed services) }

theorem node?_undelayed (services : Services) (w : Workflow) (id : String) :
    (w.undelayed services).node? id = (w.node? id).map (Node.undelayed services) := by
  unfold node? undelayed
  rw [List.find?_map]
  congr 2
  funext n
  exact congrArg (· == id) (Node.undelayed_id services n)

theorem startNodes_undelayed (services : Services) (w : Workflow) :
    (w.undelayed services).startNodes = w.startNodes.map (Node.undelayed services) := by
  have hentries : (fun n => Node.isEntry n) ∘ Node.undelayed services = Node.isEntry :=
    funext (Node.isEntry_undelayed services)
  unfold startNodes undelayed
  dsimp only
  rw [List.filter_map, List.filter_map, hentries]
  simp only [List.isEmpty_map, Function.comp_def, Node.undelayed_id]
  split <;> rfl

theorem Linked.undelayed (h : w.Linked row) :
    (w.undelayed services).Linked (row.map (Node.undelayed services)) := by
  induction row with
  | nil => trivial
  | cons n rest ih =>
    refine ⟨?_, ih h.2⟩
    rw [List.head?_map]
    have hleads := h.1
    cases hnext : rest.head? with
    | none =>
      rw [hnext] at hleads
      rw [Option.map_none, LeadsOn, Node.undelayed_id]
      exact hleads
    | some m =>
      rw [hnext] at hleads
      rw [Option.map_some, LeadsOn, Node.undelayed_id, Node.undelayed_id]
      exact hleads

theorem Chained.undelayed (h : w.Chained services row) :
    (w.undelayed services).Chained services (row.map (Node.undelayed services)) := by
  refine ⟨fun n hn => ?_, h.linked.undelayed, fun n hn => ?_, ?_⟩
  · obtain ⟨m, hm, rfl⟩ := List.mem_map.1 hn
    exact (h.simple m hm).undelayed
  · obtain ⟨m, hm, rfl⟩ := List.mem_map.1 hn
    rw [node?_undelayed, Node.undelayed_id, h.known m hm]
    rfl
  · rw [List.map_map, show (fun n : Node => n.id) ∘ Node.undelayed services = (·.id) from
      funext (Node.undelayed_id services)]
    exact h.ids

end Workflow

/-! ## Executions -/

/-- An execution of the workflow whose delays do not wait is on the course of the other one. -/
theorem Execution.On.of_undelayed {c : ChainCourse} {waiting : List String} {e : Execution}
    (h : e.On services (w.undelayed services) c waiting) : e.On services w c waiting := by
  refine ⟨h.vars_eq, fun x hx => h.state?_eq x fun n hn hdelay => ?_, h.through⟩
  obtain ⟨m, hm, rfl⟩ := List.mem_map.1 hn
  rw [Node.undelayed_id]
  exact hx m hm (Node.isDelay_undelayed.1 hdelay)

/-- On a course, the state of a node that is no delay is the one that the course has for it. -/
theorem Execution.On.state?_of_known {c : ChainCourse} {waiting : List String} {e : Execution}
    (h : e.On services w c waiting) (hids : (w.nodes.map (·.id)).Nodup) (hn : n ∈ w.nodes)
    (hdelay : ¬ n.isDelay services) : e.state? n.id = c.states.get? n.id := by
  refine h.state?_eq n.id fun m hm hother heq => hdelay ?_
  have hsame := (Workflow.node?_of_nodup hids hm).symm.trans (heq ▸ Workflow.node?_of_nodup hids hn)
  exact Option.some.inj hsame ▸ hother

end Flowline
