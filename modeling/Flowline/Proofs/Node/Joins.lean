import Flowline.Engine.Basic
import Flowline.Proofs.Node.Frame
import Flowline.Proofs.Table
import Mathlib.Data.List.Nodup
import Mathlib.Logic.Relation

/-! # Joins

A join is a parallel node that needs all of its branches. `Workflow.Joins` is one whose branches are no
parallel nodes and are run by it alone; it may be inside other joins, to any depth, but inside nothing else.
`Joined`: it waits for a branch that is not completed, unless it is completed itself or was not reached yet.
Running any node but the branches keeps that, if the node does not fail. -/

namespace Flowline
open Relation Run

/-! ## States -/

namespace Execution
variable {e f : Execution} {x y : String} {n : Node} {bs : List Node}

theorem nodeStatus?_setState (e : Execution) (x : String) (status : NodeStatus) (o : Output) (y : String) :
    (e.setState x status o).nodeStatus? y =
      if y = x ∧ e.isCompleted x = false then some status else e.nodeStatus? y := by
  rw [nodeStatus?, state?_setState]
  split
  · rfl
  · rfl

theorem nodeStatus?_setState_of_ne (status : NodeStatus) (o : Output) (h : y ≠ x) :
    (e.setState x status o).nodeStatus? y = e.nodeStatus? y := by
  rw [nodeStatus?_setState, if_neg fun hyx => h hyx.1]

theorem nodeStatus?_setState_self (status : NodeStatus) (o : Output) (h : e.isCompleted x = false) :
    (e.setState x status o).nodeStatus? x = some status := by
  rw [nodeStatus?_setState, if_pos ⟨rfl, h⟩]

theorem isCompleted_setState (status : NodeStatus) (o : Output) (h : e.isCompleted x = true) :
    (e.setState x status o).isCompleted x = true := by
  have hkept : ¬ (x = x ∧ e.isCompleted x = false) := by simp [h]
  rw [isCompleted, nodeStatus?_setState, if_neg hkept]
  exact h

/-- What is known of a node that waits for others: one of them is not completed. -/
inductive Joined (n : Node) (bs : List Node) (e : Execution) : Prop
  | completed (hn : e.isCompleted n.id = true)
  | waiting (hn : e.nodeStatus? n.id = some .waiting) (b : Node) (hb : b ∈ bs)
    (hopen : e.isCompleted b.id = false)
  | unreached (hn : e.nodeStatus? n.id = none) (hbs : ∀ b ∈ bs, e.nodeStatus? b.id = none)

theorem Joined.congr (h : e.Joined n bs) (hsame : ∀ m ∈ n :: bs, f.nodeStatus? m.id = e.nodeStatus? m.id) :
    f.Joined n bs := by
  have hn := hsame n (List.mem_cons_self ..)
  have hbs (b : Node) (hb : b ∈ bs) := hsame b (List.mem_cons_of_mem n hb)
  cases h with
  | completed hcompleted =>
    refine .completed ?_
    rw [isCompleted, hn]
    exact hcompleted
  | waiting hwaits b hb hopen =>
    refine .waiting (hn.trans hwaits) b hb ?_
    rw [isCompleted, hbs b hb]
    exact hopen
  | unreached hnone hnones => exact .unreached (hn.trans hnone) fun b hb => (hbs b hb).trans (hnones b hb)

theorem Joined.of_states (h : e.Joined n bs) (hstates : f.states = e.states) : f.Joined n bs := by
  refine h.congr fun m _ => ?_
  rw [nodeStatus?, nodeStatus?, state?, state?, hstates]

end Execution

open Execution

/-- Sessions in which some nodes have the same status. -/
def SameAt (ms : List Node) (s t : Session) : Prop :=
  ∀ m ∈ ms, t.execution.nodeStatus? m.id = s.execution.nodeStatus? m.id

variable {ms : List Node}

theorem sameAt_of_states {s t : Session} (h : t.execution.states = s.execution.states) : SameAt ms s t := by
  intro m _
  rw [nodeStatus?, nodeStatus?, state?, state?, h]

theorem sameAt_setState (s : Session) {x : String} (hx : ∀ m ∈ ms, m.id ≠ x) (status : NodeStatus)
    (o : Output) : SameAt ms s { s with execution := s.execution.setState x status o } :=
  fun m hm => nodeStatus?_setState_of_ne status o (hx m hm)

instance : SignalFrame (SameAt ms) where
  refl _ _ _ := rfl
  trans _ _ _ hst htu m hm := (htu m hm).trans (hst m hm)
  setVariable _ _ _ := sameAt_of_states rfl
  log s level message context := by
    obtain ⟨logs, h⟩ := Execution.log_eq s.execution level message context
    rw [h]
    exact sameAt_of_states rfl
  cancel _ := sameAt_of_states rfl
  elapse _ _ _ _ := sameAt_of_states rfl
  takeSignal _ _ := sameAt_of_states rfl
  countCall _ _ _ := sameAt_of_states rfl
  readStopwatch _ := sameAt_of_states rfl
  number _ := sameAt_of_states rfl

/-! ## Nodes inside others -/

namespace Node

theorem type_of_parallel {services : Services} {n : Node}
    (h : NodeKind.ofNode? services n = some .parallel) : n.type = "parallel" := by
  have hnamed : ∀ p ∈ NodeKind.named, p.2 = .parallel → p.1 = "parallel" := by decide
  unfold NodeKind.ofNode? at h
  split at h
  · cases h
  · split at h
    · next kind hkind =>
      obtain rfl := Option.some.inj h
      obtain ⟨before, after, hmem, -⟩ := List.lookup_eq_some_iff.1 hkind
      exact hnamed (n.type, .parallel) (by simp [hmem]) rfl
    · split at h
      · cases h
      · cases h

/-- A node runs another one inside it. -/
inductive RunsInside (setup : Setup) (w : Workflow) (m b : Node) : Prop
  | body (hkind : NodeKind.ofNode? (setup.services 0) m = some .loop)
    (hbody : m.bodyOf? w = .ok (some b))
  | branch (hkind : NodeKind.ofNode? (setup.services 0) m = some .parallel) (bs : List Node)
    (hbs : m.branchesOf w = .ok bs) (hb : b ∈ bs)

variable {setup : Setup} {w : Workflow} {m n b : Node} {bs : List Node}

theorem RunsInside.mem (h : RunsInside setup w m b) : b ∈ w.nodes := by
  cases h with
  | body hkind hbody => exact mem_of_bodyOf? hbody
  | branch hkind bs hbs hb => exact mem_of_branchesOf hbs hb

/-- A parallel node that needs all of its branches, which are different ones. -/
structure JoinsAll (setup : Setup) (w : Workflow) (n : Node) : Prop where
  kind : NodeKind.ofNode? (setup.services 0) n = some .parallel
  all : (n.config.entryOr "wait_for_all" (.bool true)).toOption.any (·.isPresent) = true
  distinct : (n.branchesOf w).toOption.any (fun bs => decide (bs.map (·.id)).Nodup) = true

theorem JoinsAll.branches (h : JoinsAll setup w n) :
    ∃ bs, n.branchesOf w = .ok bs ∧ (bs.map (·.id)).Nodup := by
  have hdistinct := h.distinct
  cases hbs : n.branchesOf w with
  | error fault =>
    rw [hbs] at hdistinct
    cases hdistinct
  | ok bs =>
    rw [hbs] at hdistinct
    exact ⟨bs, rfl, of_decide_eq_true hdistinct⟩

/-- A parallel node runs its branches, and joins them. -/
theorem leads_runParallel (hbs : n.branchesOf w = .ok bs) {inner : Node → Run NodeResult} {s : Session}
    {P : NodeResult → Session → Prop}
    (hruns : ∀ all, n.config.entryOr "wait_for_all" (.bool true) = .ok all →
      Leads (runBranches inner (s.execution.isWaiting n.id) all.isPresent [] bs) s
        (fun results t => ∀ r, joinBranches all.isPresent results = .ok r → P r t) fun _ _ => True) :
    Leads (runParallel inner w n) s P fun _ _ => True := by
  obtain ⟨listed, hlisted, hbs⟩ := bind_eq_ok.1 hbs
  obtain ⟨most, hmost, hbs⟩ := bind_eq_ok.1 hbs
  obtain ⟨ids, hids, hbs⟩ := bind_eq_ok.1 hbs
  obtain rfl := Except.ok.inj hbs
  unfold runParallel
  cases hall : n.config.entryOr "wait_for_all" (.bool true) with
  | error fault =>
    rw [hlisted]
    exact leads_bind (leads_pure (leads_bind (leads_throw trivial)))
  | ok all =>
    rw [hlisted, hmost]
    refine leads_bind (leads_pure (leads_bind (leads_pure (leads_bind (leads_pure ?_)))))
    refine leads_bind (leads_execution ?_)
    dsimp only
    rw [hids]
    refine leads_bind (leads_pure (Leads.bind (hruns all hall) ?_))
    intro results t hjoins
    cases hjoin : joinBranches all.isPresent results with
    | error fault => exact leads_throw trivial
    | ok r => exact leads_pure (hjoins r hjoin)

theorem JoinsAll.leads_runParallel (h : JoinsAll setup w n) (hbs : n.branchesOf w = .ok bs)
    {inner : Node → Run NodeResult} {s : Session} {P : NodeResult → Session → Prop}
    (hruns : Leads (runBranches inner (s.execution.isWaiting n.id) true [] bs) s
      (fun results t => ∀ r, joinBranches true results = .ok r → P r t) fun _ _ => True) :
    Leads (runParallel inner w n) s P fun _ _ => True := by
  refine Node.leads_runParallel hbs fun all hall => ?_
  have hpresent := h.all
  rw [hall] at hpresent
  rwa [show all.isPresent = true from hpresent]

/-! ## Results of branches -/

theorem failed_of_joinBranches {results : Table String NodeResult} {r : NodeResult}
    (h : joinBranches true results = .ok r) (hfailed : ∃ p ∈ results, p.2.isFailed = true) :
    r.isFailed = true := by
  have hany : (results.any fun p => p.2.isFailed) = true := List.any_eq_true.2 hfailed
  unfold joinBranches at h
  dsimp only at h
  rw [if_pos rfl, if_pos hany] at h
  obtain rfl := Except.ok.inj h
  rfl

theorem joinBranches_cases {results : Table String NodeResult} {r : NodeResult}
    (h : joinBranches true results = .ok r) : r.isFailed = true ∨ r.status = .completed ∨
      r.status = .waiting ∧ ∃ p ∈ results, p.2.status = .waiting := by
  by_cases hfailed : ∃ p ∈ results, p.2.isFailed = true
  · exact .inl (failed_of_joinBranches h hfailed)
  have hany : ¬ (results.any fun p => p.2.isFailed) = true := fun hany => hfailed (List.any_eq_true.1 hany)
  unfold joinBranches at h
  dsimp only at h
  rw [if_pos rfl, if_neg hany] at h
  split at h
  · obtain rfl := Except.ok.inj h
    exact .inr (.inl rfl)
  · next hwaiting =>
    obtain ⟨time, -, hr⟩ := bind_eq_ok.1 h
    obtain rfl := Except.ok.inj hr
    obtain ⟨p, hp⟩ := List.exists_mem_of_ne_nil _ fun hnil => hwaiting (List.isEmpty_iff.2 hnil)
    obtain ⟨hp, hwaits⟩ := List.mem_filter.1 hp
    exact .inr (.inr ⟨rfl, p, hp, eq_of_beq hwaits⟩)

section Branches
variable {inner : Node → Run NodeResult} {resuming : Bool} {s : Session} {ms : List Node}

/-- A branch that is not completed yet, or whose result is taken over, has the status of its result. -/
theorem runBranch_leads (hinner : Within (SameAt ms) (inner b)) (hb : b ∈ ms)
    (hfree : resuming = true ∨ s.execution.isCompleted b.id = false) :
    Leads (runBranch inner resuming b) s
      (fun r t => t.execution.nodeStatus? b.id = some r.status ∧
        ∀ m ∈ ms, m.id ≠ b.id → t.execution.nodeStatus? m.id = s.execution.nodeStatus? m.id)
      fun _ _ => True := by
  refine leads_bind (leads_execution ?_)
  cases hdone : s.execution.isCompleted b.id with
  | true =>
    obtain rfl : resuming = true := hfree.resolve_right fun hopen => nomatch hdone.symm.trans hopen
    have hstatus : s.execution.nodeStatus? b.id = some .completed := eq_of_beq hdone
    obtain ⟨st, hst, hcompleted⟩ := Option.map_eq_some_iff.1 hstatus
    rw [Bool.true_and, if_pos rfl, hst]
    exact leads_pure ⟨hstatus, fun _ _ _ => rfl⟩
  | false =>
    rw [Bool.and_false, if_neg Bool.false_ne_true]
    refine Leads.bind ((hinner s).mono (fun _ _ h => h.1) fun _ _ _ => trivial) ?_
    intro r t hsame
    have hopen : t.execution.isCompleted b.id = false := by
      rw [isCompleted, hsame b hb]
      exact hdone
    refine leads_bind (leads_modify (leads_pure ⟨nodeStatus?_setState_self _ _ hopen, ?_⟩))
    intro m hm hne
    exact (nodeStatus?_setState_of_ne _ _ hne).trans (hsame m hm)

/-- Branches that were run have the statuses of their results. -/
theorem runBranches_leads {results : Table String NodeResult} (hinner : ∀ b ∈ bs, Within (SameAt ms) (inner b))
    (hbs : ∀ b ∈ bs, b ∈ ms) (hdistinct : (bs.map (·.id)).Nodup)
    (hfree : resuming = true ∨ ∀ b ∈ bs, s.execution.isCompleted b.id = false)
    (hresults : ∀ p ∈ results, p.1 ∉ bs.map (·.id) ∧ ∃ m ∈ ms, m.id = p.1 ∧
      s.execution.nodeStatus? m.id = some p.2.status) :
    Leads (runBranches inner resuming true results bs) s
      (fun results' t => ∀ p ∈ results', ∃ m ∈ ms, t.execution.nodeStatus? m.id = some p.2.status)
      fun _ _ => True := by
  induction bs generalizing s results with
  | nil =>
    refine leads_pure fun p hp => ?_
    obtain ⟨-, m, hm, -, hstatus⟩ := hresults p hp
    exact ⟨m, hm, hstatus⟩
  | cons b rest ih =>
    obtain ⟨hnew, hdistinct⟩ := List.nodup_cons.1 hdistinct
    have hb := hbs b (List.mem_cons_self ..)
    have hrest (c : Node) (hc : c ∈ rest) := hbs c (List.mem_cons_of_mem b hc)
    have hfree' := hfree.imp_right fun h => h b (List.mem_cons_self ..)
    have hbranch := runBranch_leads (hinner b (List.mem_cons_self ..)) hb hfree'
    refine Leads.bind hbranch ?_
    rintro r t ⟨hstatus, hsame⟩
    refine ih (fun c hc => hinner c (List.mem_cons_of_mem b hc)) hrest hdistinct ?_ ?_
    · refine hfree.imp_right fun h c hc => ?_
      have hcb : c.id ≠ b.id := fun heq => hnew (List.mem_map.2 ⟨c, hc, heq⟩)
      rw [isCompleted, hsame c (hrest c hc) hcb]
      exact h c (List.mem_cons_of_mem b hc)
    · intro p hp
      obtain rfl | hp := Table.eq_or_mem_of_mem_put hp
      · exact ⟨hnew, b, hb, rfl, hstatus⟩
      · obtain ⟨hpnew, m, hm, hid, hmstatus⟩ := hresults p hp
        have hmb : m.id ≠ b.id := hid ▸ List.ne_of_not_mem_cons hpnew
        exact ⟨List.not_mem_of_not_mem_cons hpnew, m, hm, hid, (hsame m hm hmb).trans hmstatus⟩

/-- A branch that failed is not forgotten. -/
theorem runBranches_failed {results : Table String NodeResult} (hdistinct : (bs.map (·.id)).Nodup)
    (hresults : ∃ p ∈ results, p.2.isFailed = true ∧ p.1 ∉ bs.map (·.id)) :
    Leads (runBranches inner resuming true results bs) s
      (fun results' _ => ∃ p ∈ results', p.2.isFailed = true) fun _ _ => True := by
  obtain ⟨p, hp, hfailed, hnew⟩ := hresults
  induction bs generalizing s results with
  | nil => exact leads_pure ⟨p, hp, hfailed⟩
  | cons b rest ih =>
    obtain ⟨-, hdistinct⟩ := List.nodup_cons.1 hdistinct
    have hpb : p.1 ≠ b.id := List.ne_of_not_mem_cons hnew
    have hany : Leads (runBranch inner resuming b) s (fun _ _ => True) fun _ _ => True := leads_trivial
    refine Leads.bind hany fun r t _ => ?_
    exact ih hdistinct (Table.mem_put_of_ne r hp hpb) (List.not_mem_of_not_mem_cons hnew)

/-- What each branch keeps that does not fail, all of them keep if none fails. -/
theorem runBranches_keep {results : Table String NodeResult} {P : Execution → Prop}
    (hinner : ∀ b ∈ bs, ∀ s : Session, P s.execution → Leads (inner b) s
      (fun r t => r.isFailed = true ∨ P (t.execution.setState b.id r.status r.output)) fun _ _ => True)
    (hdistinct : (bs.map (·.id)).Nodup) (hs : P s.execution) :
    Leads (runBranches inner resuming true results bs) s
      (fun results' t => (∃ p ∈ results', p.2.isFailed = true) ∨ P t.execution) fun _ _ => True := by
  induction bs generalizing s results with
  | nil => exact leads_pure (.inr hs)
  | cons b rest ih =>
    obtain ⟨hnew, hdistinct⟩ := List.nodup_cons.1 hdistinct
    have hbranch : Leads (runBranch inner resuming b) s
        (fun r t => r.isFailed = true ∨ P t.execution) fun _ _ => True := by
      refine leads_bind (leads_execution ?_)
      split
      · exact leads_pure (.inr hs)
      · refine Leads.bind (hinner b (List.mem_cons_self ..) s hs) fun r t hr => ?_
        exact leads_bind (leads_modify (leads_pure hr))
    refine Leads.bind hbranch fun r t hr => ?_
    obtain hfailed | hkept := hr
    · have hbroken : ∃ p ∈ results.put b.id r, p.2.isFailed = true ∧ p.1 ∉ rest.map (·.id) :=
        ⟨(b.id, r), Table.mem_of_get? (Table.get?_put_self results b.id r), hfailed, hnew⟩
      exact (runBranches_failed hdistinct hbroken).mono (fun _ _ h => .inl h) fun _ _ h => h
    · exact ih (fun c hc => hinner c (List.mem_cons_of_mem b hc)) hdistinct hkept

end Branches

end Node

/-! ## Joins of branches that nothing else runs -/

open Node

/-- A node has failed, or its result can be recorded as far as a join is concerned. -/
def NodeResult.Suits (n : Node) (bs : List Node) (m : Node) (r : NodeResult) (t : Session) : Prop :=
  r.isFailed = true ∨ ∀ o, (t.execution.setState m.id r.status o).Joined n bs

theorem NodeResult.Suits.of_states {m n : Node} {bs : List Node} {r : NodeResult} {t u : Session}
    (h : r.Suits n bs m t) (hstates : u.execution.states = t.execution.states) : r.Suits n bs m u := by
  refine h.imp_right fun hjoined o => (hjoined o).congr fun k _ => ?_
  rw [nodeStatus?_setState, nodeStatus?_setState, isCompleted, isCompleted, nodeStatus?, nodeStatus?,
    nodeStatus?, nodeStatus?, state?, state?, state?, state?, hstates]

/-- A join of branches that are no parallel nodes, and that nothing else runs. Whatever it is inside of is
a join as well. -/
structure Workflow.Joins (setup : Setup) (w : Workflow) (n : Node) (bs : List Node) : Prop where
  ids : (w.nodes.map (·.id)).Nodup
  mem : n ∈ w.nodes
  joins : JoinsAll setup w n
  branches : n.branchesOf w = .ok bs
  flat : ∀ b ∈ bs, b.type ≠ "parallel"
  alone : ∀ m ∈ w.nodes, ∀ b ∈ bs, RunsInside setup w m b → m = n
  around : ∀ m ∈ w.nodes, TransGen (RunsInside setup w) m n → JoinsAll setup w m

namespace Workflow.Joins
variable {setup : Setup} {w : Workflow} {m n b : Node} {bs : List Node} (h : w.Joins setup n bs)
include h

theorem eq_of_id (hm : m ∈ w.nodes) (hb : b ∈ w.nodes) (hid : m.id = b.id) : m = b :=
  List.inj_on_of_nodup_map h.ids hm hb hid

theorem mem_branch (hb : b ∈ bs) : b ∈ w.nodes := mem_of_branchesOf h.branches hb

theorem not_mem : n ∉ bs := fun hn => h.flat n hn (type_of_parallel h.joins.kind)

theorem id_ne (hm : m ∈ w.nodes) (hmb : m ∉ n :: bs) : ∀ k ∈ n :: bs, k.id ≠ m.id := by
  intro k hk hid
  have hkmem : k ∈ w.nodes := by
    obtain rfl | hkb := List.mem_cons.1 hk
    · exact h.mem
    · exact h.mem_branch hkb
  exact hmb (h.eq_of_id hkmem hm hid ▸ hk)

theorem not_mem_of_outside (hm : m ∈ w.nodes) (hout : ¬ ReflTransGen (RunsInside setup w) m n)
    (hin : RunsInside setup w m b) : b ∉ n :: bs := by
  intro hb
  obtain rfl | hbs := List.mem_cons.1 hb
  · exact hout (.single hin)
  · exact hout (h.alone m hm b hbs hin ▸ .refl)

/-- A node that does not have the join inside it leaves the join and its branches as they are. -/
theorem within_dispatch (running depth : Nat) (hm : m ∈ w.nodes)
    (hout : ¬ ReflTransGen (RunsInside setup w) m n) :
    Within (SameAt (n :: bs)) (dispatch (setup.services running) w depth m) := by
  have inside {k b : Node} (hk : k ∈ w.nodes ∧ ¬ ReflTransGen (RunsInside setup w) k n)
      (hin : RunsInside setup w k b) : b ∈ w.nodes ∧ ¬ ReflTransGen (RunsInside setup w) b n :=
    ⟨hin.mem, fun hbn => hk.2 (.head hin hbn)⟩
  refine within_dispatch_among (fun m => m ∈ w.nodes ∧ ¬ ReflTransGen (RunsInside setup w) m n)
    ?_ ?_ (fun _ _ _ _ _ => sameAt_of_states rfl) ?_ depth ⟨hm, hout⟩
  · intro k b hk hkind hbody
    exact inside hk (.body hkind hbody)
  · intro k cs c hk hkind hcs hc
    have hin : RunsInside setup w k c := .branch hkind cs hcs hc
    have hid := h.id_ne hin.mem (h.not_mem_of_outside hk.1 hk.2 hin)
    exact ⟨inside hk hin, fun s status o => sameAt_setState s hid status o⟩
  · intro k depth _ hkind
    refine within_dispatch_succ (within_runNode fun kind hkind' => ?_) fun _ _ => sameAt_of_states rfl
    obtain rfl := Option.some.inj (hkind'.symm.trans hkind)
    exact within_runKind nofun nofun fun _ => within_runWait _ k (within_takeSignal k.id)

/-- A branch has neither the join nor a branch inside it. -/
theorem outside_of_branch (hb : b ∈ bs) : ¬ ReflTransGen (RunsInside setup w) b n := by
  intro hbn
  obtain rfl | htrans := reflTransGen_iff_eq_or_transGen.1 hbn
  · exact h.not_mem hb
  · exact h.flat b hb (type_of_parallel (h.around b (h.mem_branch hb) htrans).kind)

/-- Recording another node changes nothing for the join. -/
theorem suits_of_ne (hm : m ∈ w.nodes) (hmb : m ∉ bs) (hmn : m ≠ n) (r : NodeResult) {t : Session}
    (ht : t.execution.Joined n bs) : r.Suits n bs m t := by
  have hid := h.id_ne hm (List.not_mem_cons_of_ne_of_not_mem hmn hmb)
  exact .inr fun o => ht.congr (sameAt_setState t hid r.status o)

/-- The branches leave the status of the join itself alone. -/
theorem within_runParallel_self (running depth : Nat) :
    Within (SameAt [n]) (runParallel (dispatch (setup.services running) w depth) w n) := by
  refine within_runParallel w n fun cs hcs c hc => ?_
  obtain rfl := Except.ok.inj (h.branches.symm.trans hcs)
  have hinner := h.within_dispatch running depth (h.mem_branch hc) (h.outside_of_branch hc)
  refine within_runBranch ⟨hinner.mono_rel fun s t hst m hm => ?_,
    fun s status o => sameAt_setState s ?_ status o⟩
  · exact hst m (List.mem_singleton.1 hm ▸ List.mem_cons_self ..)
  · intro m hm hid
    obtain rfl := List.mem_singleton.1 hm
    exact h.not_mem (h.eq_of_id h.mem (h.mem_branch hc) hid ▸ hc)

/-- Where the join is not completed before, it comes to wait only with a branch that waits. -/
theorem leads_runParallel_open (running depth : Nat) {s : Session}
    (hfree : s.execution.isWaiting n.id = true ∨ ∀ b ∈ bs, s.execution.isCompleted b.id = false) :
    Leads (runParallel (dispatch (setup.services running) w depth) w n) s
      (fun r t => r.isFailed = true ∨ r.status = .completed ∨ r.status = .waiting ∧
        ∃ b ∈ bs, t.execution.nodeStatus? b.id = some .waiting) fun _ _ => True := by
  obtain ⟨bs', hbs', hdistinct⟩ := h.joins.branches
  obtain rfl := Except.ok.inj (h.branches.symm.trans hbs')
  have hinner : ∀ b ∈ bs, Within (SameAt bs) (dispatch (setup.services running) w depth b) := by
    intro b hb
    refine (h.within_dispatch running depth (h.mem_branch hb) (h.outside_of_branch hb)).mono_rel ?_
    exact fun s t hst m hm => hst m (List.mem_cons_of_mem _ hm)
  refine h.joins.leads_runParallel h.branches ?_
  refine (runBranches_leads hinner (fun _ hb => hb) hdistinct hfree
    fun p hp => absurd hp List.not_mem_nil).mono ?_ fun _ _ _ => trivial
  intro results t hresults r hr
  obtain hfailed | hcompleted | ⟨hwaits, p, hp, hpw⟩ := joinBranches_cases hr
  · exact .inl hfailed
  · exact .inr (.inl hcompleted)
  · obtain ⟨b, hb, hstatus⟩ := hresults p hp
    exact .inr (.inr ⟨hwaits, b, hb, hpw ▸ hstatus⟩)

theorem leads_runParallel_self (running depth : Nat) {s : Session}
    (hs : s.execution.Joined n bs) :
    Leads (runParallel (dispatch (setup.services running) w depth) w n) s
      (fun r t => r.Suits n bs n t) fun _ _ => True := by
  have hself := h.within_runParallel_self running depth s
  by_cases hdone : s.execution.isCompleted n.id = true
  · refine hself.mono (fun r t ht => .inr fun o => .completed ?_) fun _ _ _ => trivial
    refine isCompleted_setState _ _ ?_
    rw [isCompleted, ht.1 n (List.mem_singleton_self _)]
    exact hdone
  have hfree : s.execution.isWaiting n.id = true ∨
      ∀ b ∈ bs, s.execution.isCompleted b.id = false := by
    cases hs with
    | completed hn => exact absurd hn hdone
    | waiting hn b hb hopen => exact .inl (by simp [isWaiting, hn])
    | unreached hn hbs => exact .inr fun b hb => by simp [isCompleted, hbs b hb]
  refine (hself.and (h.leads_runParallel_open running depth hfree)).mono ?_ fun _ _ _ => trivial
  rintro r t ⟨⟨hsame, -⟩, hr⟩
  have hopen : t.execution.isCompleted n.id = false := by
    rw [isCompleted, hsame n (List.mem_singleton_self _)]
    exact Bool.eq_false_iff.2 hdone
  obtain hfailed | hcompleted | ⟨hwaits, b, hb, hbw⟩ := hr
  · exact .inl hfailed
  · refine .inr fun o => .completed ?_
    rw [isCompleted, nodeStatus?_setState_self _ _ hopen, hcompleted]
    rfl
  · have hne : b.id ≠ n.id := fun heq => h.not_mem (h.eq_of_id (h.mem_branch hb) h.mem heq ▸ hb)
    refine .inr fun o => .waiting ?_ b hb ?_
    · rw [nodeStatus?_setState_self _ _ hopen, hwaits]
    · rw [isCompleted, nodeStatus?_setState_of_ne _ _ hne, hbw]
      rfl

/-- A join around this one fails if what it runs does, and keeps this one joined otherwise. -/
theorem leads_runParallel_around (hm : m ∈ w.nodes) (hmb : m ∉ bs) (hmn : m ≠ n)
    (hjoins : JoinsAll setup w m) {inner : Node → Run NodeResult}
    (hinner : ∀ c ∈ w.nodes, c ∉ bs → ∀ s : Session, s.execution.Joined n bs →
      Leads (inner c) s (fun r t => r.Suits n bs c t) fun _ _ => True)
    {s : Session} (hs : s.execution.Joined n bs) :
    Leads (runParallel inner w m) s (fun r t => r.Suits n bs m t) fun _ _ => True := by
  obtain ⟨cs, hcs, hdistinct⟩ := hjoins.branches
  refine hjoins.leads_runParallel hcs ?_
  have hbranches : ∀ c ∈ cs, ∀ u : Session, u.execution.Joined n bs →
      Leads (inner c) u (fun r t => r.isFailed = true ∨
        (t.execution.setState c.id r.status r.output).Joined n bs) fun _ _ => True := by
    intro c hc u hu
    have hcb : c ∉ bs := fun hcb => hmn (h.alone m hm c hcb (.branch hjoins.kind cs hcs hc))
    refine (hinner c (mem_of_branchesOf hcs hc) hcb u hu).mono ?_ fun _ _ _ => trivial
    exact fun r t hr => hr.imp_right fun hjoined => hjoined r.output
  refine (runBranches_keep hbranches hdistinct hs).mono ?_ fun _ _ _ => trivial
  intro results t hkept r hr
  obtain hfailed | hkept := hkept
  · exact .inl (failed_of_joinBranches hr hfailed)
  · exact h.suits_of_ne hm hmb hmn r hkept

/-- Running any node but the branches. -/
theorem leads_dispatch (running depth : Nat) (hm : m ∈ w.nodes) (hmb : m ∉ bs) {s : Session}
    (hs : s.execution.Joined n bs) :
    Leads (dispatch (setup.services running) w depth m) s (fun r t => r.Suits n bs m t)
      fun _ _ => True := by
  -- By induction on the depth, as joins around this one run each other.
  induction depth generalizing m s with
  | zero => exact leads_throw trivial
  | succ depth ih =>
    by_cases hin : ReflTransGen (RunsInside setup w) m n
    · have hjoins : JoinsAll setup w m := by
        obtain rfl | htrans := reflTransGen_iff_eq_or_transGen.1 hin
        · exact h.joins
        · exact h.around m hm htrans
      have hruns (u : Session) (hu : u.execution.Joined n bs) :
          Leads (runParallel (dispatch (setup.services running) w depth) w m) u
            (fun r t => r.Suits n bs m t) fun _ _ => True := by
        by_cases hmn : m = n
        · subst hmn
          exact h.leads_runParallel_self running depth hu
        · exact h.leads_runParallel_around hm hmb hmn hjoins (fun c hc hcb u hu => ih hc hcb hu) hu
      have hnode : Leads (runNode (setup.services running) w (dispatch (setup.services running) w depth) m) s
          (fun r t => r.Suits n bs m t) fun _ _ => False := by
        refine leads_runNode hjoins.kind (fun _ _ _ hr => hr.of_states rfl)
          (fun _ _ _ hr => hr.of_states rfl) (fun _ _ _ _ hr => hr) fun logs => ?_
        have hlogged : ({ s with execution := { s.execution with logs := logs } } : Session).execution.Joined
            n bs := hs.of_states rfl
        refine (hruns _ hlogged).mono (fun _ _ hr => hr) fun fault t _ => ?_
        exact Or.inl rfl
      exact Node.leads_dispatch (hnode.mono (fun _ _ hr => hr.of_states rfl) fun _ _ _ => trivial)
    · have hmn : m ≠ n := fun heq => hin (heq ▸ .refl)
      refine (h.within_dispatch running (depth + 1) hm hin s).mono ?_ fun _ _ _ => trivial
      exact fun r t ht => h.suits_of_ne hm hmb hmn r (hs.congr ht.1)

end Workflow.Joins

end Flowline
