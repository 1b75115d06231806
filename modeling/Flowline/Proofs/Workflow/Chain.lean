import Flowline.Proofs.Node.Effect

/-! # Chains

In a chain each node leads to the next one alone, without a condition. A workflow that is one chain of simple
nodes starts at one of them, at the first one unless an entry stands behind it. -/

namespace Flowline

variable {services : Services} {w : Workflow} {n m : Node} {row rest : List Node}

/-! ## Nodes -/

namespace Node

def isDelay (services : Services) (n : Node) : Prop := NodeKind.ofNode? services n = some .delay

instance (services : Services) : DecidablePred (isDelay services) :=
  fun n => inferInstanceAs (Decidable (NodeKind.ofNode? services n = some .delay))

/-- How many nodes are delays. -/
def delays (services : Services) (row : List Node) : Nat := row.countP fun n => n.isDelay services

theorem delays_le_append (before later : List Node) :
    delays services later ≤ delays services (before ++ later) := by
  rw [delays, delays, List.countP_append]
  exact Nat.le_add_left _ _

/-- A node is a delay, or it works on variables and the clock has no part in that. -/
inductive Simple (services : Services) (n : Node) : Prop
  | delay (hdelay : n.isDelay services)
  | data (kind : NodeKind) (hkind : NodeKind.ofNode? services n = some kind) (hdata : kind.isData = true)
    (htimeless : n.Timeless kind)

theorem Simple.type_ne (h : n.Simple services) : n.type ≠ "parallel" := by
  have kind (heq : n.type = "parallel") : NodeKind.ofNode? services n = some .action ∨
      NodeKind.ofNode? services n = some .parallel := by
    unfold NodeKind.ofNode?
    split
    · exact .inl rfl
    · rw [heq]
      exact .inr rfl
  intro heq
  cases h with
  | delay hdelay =>
    obtain haction | hparallel := kind heq
    · cases hdelay.symm.trans haction
    · cases hdelay.symm.trans hparallel
  | data kind' hkind hdata =>
    obtain haction | hparallel := kind heq
    · obtain rfl := Option.some.inj (hkind.symm.trans haction)
      cases hdata
    · obtain rfl := Option.some.inj (hkind.symm.trans hparallel)
      cases hdata

end Node

namespace Workflow

/-! ## Nodes in a chain -/

/-- A node leads to another one alone, without a condition, or to none. -/
def LeadsOn (w : Workflow) (n : Node) : Option Node → Prop
  | none => w.leaving n.id = []
  | some m => ∃ c, w.leaving n.id = [c] ∧ c.condition.isNull = true ∧ c.target = m.id

/-- Each node leads to the next one, and the last one to none. -/
def Linked (w : Workflow) : List Node → Prop
  | [] => True
  | n :: rest => w.LeadsOn n rest.head? ∧ w.Linked rest

/-- Simple nodes of a workflow that stand in a chain. -/
structure Chained (w : Workflow) (services : Services) (row : List Node) : Prop where
  simple : ∀ n ∈ row, n.Simple services
  linked : w.Linked row
  known : ∀ n ∈ row, w.node? n.id = some n
  ids : (row.map (·.id)).Nodup

theorem Chained.tail (h : w.Chained services (n :: rest)) : w.Chained services rest :=
  ⟨fun m hm => h.simple m (List.mem_cons_of_mem n hm), h.linked.2,
    fun m hm => h.known m (List.mem_cons_of_mem n hm), (List.nodup_cons.1 h.ids).2⟩

theorem Chained.suffix {before later : List Node} (h : w.Chained services (before ++ later)) :
    w.Chained services later := by
  induction before with
  | nil => exact h
  | cons n rest ih => exact ih h.tail

theorem Chained.ne_head (h : w.Chained services (n :: rest)) (hm : m ∈ rest) : m.id ≠ n.id := by
  intro heq
  exact (List.nodup_cons.1 h.ids).1 (List.mem_map.2 ⟨m, hm, heq⟩)

/-- Connections lead to all nodes of a chain but the first one. -/
theorem Linked.entered (h : w.Linked (n :: rest)) (hm : m ∈ rest) : ∃ c ∈ w.connections, c.target = m.id := by
  induction rest generalizing n with
  | nil => cases hm
  | cons next rest ih =>
    obtain ⟨⟨c, hleaving, -, htarget⟩, hrest⟩ := h
    obtain rfl | hm := List.mem_cons.1 hm
    · have hc : c ∈ w.leaving n.id := by simp [hleaving]
      exact ⟨c, (List.mem_filter.1 hc).1, htarget⟩
    · exact ih hrest hm

/-- From the nodes of a chain connections lead to nodes behind the first one alone. -/
theorem Linked.target (h : w.Linked row) (hm : m ∈ row) {c : Connection} (hc : c ∈ w.leaving m.id) :
    ∃ next ∈ row.tail, c.target = next.id := by
  induction row with
  | nil => cases hm
  | cons n rest ih =>
    obtain ⟨hleads, hrest⟩ := h
    obtain rfl | hm := List.mem_cons.1 hm
    · cases rest with
      | nil =>
        rw [show w.leaving m.id = [] from hleads] at hc
        cases hc
      | cons next rest =>
        obtain ⟨c', hleaving, -, htarget⟩ := hleads
        rw [hleaving] at hc
        obtain rfl := List.mem_singleton.1 hc
        exact ⟨next, List.mem_cons_self .., htarget⟩
    · obtain ⟨next, hnext, htarget⟩ := ih hrest hm
      exact ⟨next, List.mem_of_mem_tail hnext, htarget⟩

/-! ## Workflows that are chains -/

/-- A workflow that is one chain of simple nodes. -/
structure IsChain (w : Workflow) (services : Services) (row : List Node) : Prop where
  nodes : row.Perm w.nodes
  ids : (row.map (·.id)).Nodup
  simple : ∀ n ∈ row, n.Simple services
  linked : w.Linked row
  sources : ∀ c ∈ w.connections, ∃ n ∈ row, n.id = c.source

theorem node?_of_nodup (hids : (w.nodes.map (·.id)).Nodup) (hn : n ∈ w.nodes) : w.node? n.id = some n := by
  unfold node?
  generalize w.nodes = nodes at hids hn ⊢
  induction nodes with
  | nil => cases hn
  | cons m rest ih =>
    obtain ⟨hm, hrest⟩ := List.nodup_cons.1 hids
    obtain rfl | hn := List.mem_cons.1 hn
    · exact List.find?_cons_of_pos (beq_self_eq_true n.id)
    · rw [List.find?_cons_of_neg, ih hrest hn]
      intro heq
      exact hm (List.mem_map.2 ⟨n, hn, (eq_of_beq heq).symm⟩)

theorem IsChain.nodup (h : w.IsChain services row) : (w.nodes.map (·.id)).Nodup :=
  (h.nodes.map (·.id)).nodup_iff.1 h.ids

theorem IsChain.chained (h : w.IsChain services row) : w.Chained services row :=
  ⟨h.simple, h.linked, fun _ hn => node?_of_nodup h.nodup (h.nodes.mem_iff.1 hn), h.ids⟩

/-- No connection leads to the first node of a chain. -/
theorem IsChain.head_open (h : w.IsChain services (n :: rest)) {c : Connection} (hc : c ∈ w.connections) :
    c.target ≠ n.id := by
  obtain ⟨m, hm, hsource⟩ := h.sources c hc
  have hleaving : c ∈ w.leaving m.id := List.mem_filter.2 ⟨hc, beq_iff_eq.2 hsource.symm⟩
  obtain ⟨next, hnext, htarget⟩ := h.linked.target hm hleaving
  rw [htarget]
  exact h.chained.ne_head hnext

/-- The nodes of a chain to which no connection leads are the first one alone. -/
theorem IsChain.open_eq_head (h : w.IsChain services row) :
    (row.filter fun n => !w.connections.any (·.target == n.id)) = row.head?.toList := by
  cases row with
  | nil => rfl
  | cons n rest =>
    have hhead : w.connections.any (·.target == n.id) = false :=
      List.any_eq_false.2 fun c hc => by simpa using h.head_open hc
    rw [List.filter_cons_of_pos (by rw [hhead]; rfl), List.filter_eq_nil_iff.2]
    · rfl
    · intro m hm
      obtain ⟨c, hc, htarget⟩ := h.linked.entered hm
      have hentered : w.connections.any (·.target == m.id) = true :=
        List.any_eq_true.2 ⟨c, hc, beq_iff_eq.2 htarget⟩
      rw [hentered]
      exact Bool.false_ne_true

/-- A chain that has one entry at most starts at one of its nodes, unless it has none. -/
theorem IsChain.starts (h : w.IsChain services row) (hlength : (row.filter Node.isEntry).length ≤ 1) :
    ∃ before later, row = before ++ later ∧ w.startNodes = later.head?.toList := by
  have hentries := h.nodes.filter Node.isEntry
  unfold startNodes
  cases hrow : row.filter Node.isEntry with
  | nil =>
    rw [hrow] at hentries
    have hnone : w.nodes.filter Node.isEntry = [] := hentries.symm.eq_nil
    rw [hnone]
    refine ⟨[], row, rfl, ?_⟩
    dsimp only [List.isEmpty_nil, if_true]
    rw [if_pos rfl]
    have hopen := h.nodes.filter fun n => !w.connections.any (·.target == n.id)
    rw [h.open_eq_head] at hopen
    cases row with
    | nil => exact hopen.symm.eq_nil
    | cons n rest => exact List.perm_singleton.1 hopen.symm
  | cons m others =>
    rw [hrow, List.length_cons] at hlength
    obtain rfl : others = [] := List.length_eq_zero_iff.1 (by omega)
    rw [hrow] at hentries
    have hone : w.nodes.filter Node.isEntry = [m] := List.perm_singleton.1 hentries.symm
    have hm : m ∈ row := (List.mem_filter.1 (hrow ▸ List.mem_singleton.2 rfl : m ∈ row.filter Node.isEntry)).1
    obtain ⟨before, later, hsplit⟩ := List.append_of_mem hm
    refine ⟨before, m :: later, hsplit, ?_⟩
    rw [hone]
    rfl

end Workflow

end Flowline
