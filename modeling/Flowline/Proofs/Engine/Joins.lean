import Flowline.Proofs.Engine.Branches
import Flowline.Proofs.Engine.Settling
import Flowline.Proofs.Node.Joins
import Flowline.Proofs.Value.Entries

/-! # Joins advance with their branches

Waking a branch resumes the parallel node that waits for it. So a join waits for a branch that is not
completed, and is completed together with its last branch, as long as nothing leads to a branch. The parallel
node is looked for one level up only: a join of which a branch is a join may be left behind. -/

namespace Flowline
open Execution Node

variable {setup : Setup} {w : Workflow} {n b : Node} {bs : List Node} {e : Execution}

/-! ## Branches that are listed -/

theorem Text.occursIn_singleton {c : Char} {cs : List Char} (h : c ∈ cs) : occursIn [c] cs = true := by
  induction cs with
  | nil => cases h
  | cons d rest ih =>
    rw [occursIn, Bool.or_eq_true]
    obtain rfl | h := List.mem_cons.1 h
    · exact .inl (by simp [List.isPrefixOf])
    · exact .inr (ih h)

namespace Work

theorem listsBranch_of_firstItems {v : Value} {count : Int} {items : List Value} {x : String}
    (h : firstItems v count = .ok items) (hx : .str x ∈ items) : listsBranch x v = .ok true := by
  have mem_of_taken (all : List Value)
      (htaken : .str x ∈ if 0 ≤ count then all.take count.toNat else all.take (all.length - count.natAbs)) :
      .str x ∈ all := by
    split at htaken
    · exact List.mem_of_mem_take htaken
    · exact List.mem_of_mem_take htaken
  have hsame : Value.same (.str x) (.str x) = true := by simp [Value.same, Scalar.same]
  unfold firstItems at h
  dsimp only at h
  split at h
  · obtain rfl := Except.ok.inj h
    exact congrArg Except.ok (List.any_eq_true.2 ⟨_, mem_of_taken _ hx, hsame⟩)
  · obtain rfl := Except.ok.inj h
    obtain ⟨c, hc, hcx⟩ := List.mem_map.1 (mem_of_taken _ hx)
    obtain rfl : c.toString = x := by simpa [Value.str] using hcx
    refine congrArg Except.ok ?_
    rw [Text.contains, show c.toString.toList = [c] by simp]
    exact Text.occursIn_singleton hc
  · cases h

theorem lists_of_branchesOf (hbs : n.branchesOf w = .ok bs) (hb : b ∈ bs) : n.lists b.id = .ok true := by
  obtain ⟨listed, hlisted, hbs⟩ := bind_eq_ok.1 hbs
  obtain ⟨most, -, hbs⟩ := bind_eq_ok.1 hbs
  obtain ⟨ids, hids, hbs⟩ := bind_eq_ok.1 hbs
  obtain rfl := Except.ok.inj hbs
  obtain ⟨v, hv, hb⟩ := List.mem_filterMap.1 hb
  have hvb : v = .str b.id := by
    unfold Workflow.nodeOf? at hb
    split at hb
    · rw [id_of_node? hb]
    · cases hb
  rw [Node.lists, hlisted]
  exact listsBranch_of_firstItems hids (hvb ▸ hv)

theorem not_isWaitingOwner_of_none {x : String} {nodes : List Node}
    (h : waitingOwner? e x nodes = .ok none) {m : Node} (hm : m ∈ nodes) :
    isWaitingOwner e x m = .ok false := by
  induction nodes with
  | nil => cases hm
  | cons k rest ih =>
    obtain ⟨owns, howns, h⟩ := bind_eq_ok.1 h
    cases owns with
    | true => cases h
    | false =>
      obtain rfl | hm := List.mem_cons.1 hm
      · exact howns
      · exact ih h hm

/-! ## Walks -/

/-- Nothing leads to some nodes of a workflow. -/
def Secludes (setup : Setup) (w : Workflow) (bs : List Node) : Prop :=
  ∀ b ∈ bs, b ∉ w.startNodes ∧ ∀ k ∈ w.nodes, ¬ LeadsTo setup w k b

theorem visit_joined (hw : w.Joins setup n bs) (running depth : Nat) {m : Node} (hm : m ∈ w.nodes)
    (hmb : m ∉ bs) {s : Session} (hs : s.execution.Joined n bs) :
    Leads (Walk.visit (dispatch (setup.services running) w depth) m) s
      (fun _ t => t.execution.Joined n bs) fun _ _ => True := by
  have hvisited : ({ s with execution := s.execution.visit m.id } : Session).execution.Joined n bs := hs.of_states rfl
  refine leads_bind (leads_modify ?_)
  refine Leads.bind (hw.leads_dispatch running depth hm hmb hvisited) fun r t hr => ?_
  refine leads_bind (leads_modify ?_)
  dsimp only
  split
  · exact leads_throw trivial
  · next hopen => exact leads_pure (hr.resolve_left hopen r.output)

/-- A walk that begins with no branch keeps a join joined, unless it fails. -/
theorem passage_joined (hw : w.Joins setup n bs) (hsecludes : Secludes setup w bs) {starts : List Node}
    (hstarts : ∀ m ∈ starts, m ∈ w.nodes ∧ m ∉ bs) (he : e.Joined n bs) {g : Engine}
    {p : Passage} (hp : p = passage setup w e starts g) {walk : Walk} (hresult : p.result = .ok walk) :
    p.after.Joined n bs := by
  have hrun : Leads (Walk.run (dispatch (setup.services g.running.length) w (nestingLimit w)) w
      setup.config.maxIterations starts) (g.session e)
      (fun _ t => t.execution.Joined n bs) fun _ _ => True := by
    have hsession : (g.session e).execution.Joined n bs := he.of_states rfl
    refine Walk.run_holds (R := SameAt (n :: bs))
      (P := fun s => s.execution.Joined n bs) (F := fun _ => True) (within_dispatch _ w _) ?_
      (fun s t hst hs => hs.congr hst) (fun _ _ => trivial)
      (fun m s hm hs => visit_joined hw _ _ hm.1 hm.2 hs) _ hstarts hsession
    intro k m hk hleads
    exact ⟨Passage.leadsTo_mem ⟨_, hleads⟩, fun hm => (hsecludes m hm).2 k hk.1 ⟨_, hleads⟩⟩
  obtain ⟨t, hafter, ⟨walk', -, ht⟩ | ⟨fault, hfault, -⟩⟩ := passage_leads hrun hp
  · exact hafter ▸ ht
  · cases hresult.symm.trans hfault

end Work

/-! ## Histories -/

namespace Engine
open Work

variable {g h : Engine} {id : String}

/-- All walks that were made for an execution are over a workflow. -/
def WalksOver (id : String) (w : Workflow) (g : Engine) : Prop :=
  ∀ p ∈ g.journal, p.before.id = id → p.workflow = w

/-- A join is joined in an execution that is kept, unless that has failed or was cancelled. -/
def Joins (id : String) (n : Node) (bs : List Node) (g : Engine) : Prop :=
  ∀ e, g.stored? id = some e → e.status ≠ .failed → e.status ≠ .cancelled → e.Joined n bs

/-- A segment that begins with a branch finds its join completed. -/
theorem Segment.joined {kept : Execution} {p : Passage} (hsegment : g.Segment setup kept p h)
    (hg : g.Kept setup) (hw : p.workflow.Joins setup n bs) (hsecludes : Secludes setup p.workflow bs)
    (hkept : kept.Joined n bs) {walk : Walk} (hresult : p.result = .ok walk) :
    p.after.Joined n bs := by
  have hbefore : p.before.Joined n bs := hkept.of_states hsegment.nodes.states_eq
  obtain ⟨g₁, hp⟩ := hsegment.passage
  have walks (hstarts : ∀ m ∈ p.starts, m ∉ bs) : p.after.Joined n bs :=
    passage_joined hw hsecludes (fun m hm => ⟨hsegment.origin.members hm, hstarts m hm⟩) hbefore hp hresult
  cases hsegment.origin with
  | first _ hstarts => exact walks fun m hm hmb => (hsecludes m hmb).1 (hstarts ▸ hm)
  | again m owner? hm hwaits howner hstarts =>
    cases owner? with
    | some owner =>
      refine walks fun k hk hkb => ?_
      obtain rfl := List.mem_singleton.1 (hstarts ▸ hk)
      have howns := (isWaitingOwner_of_waitingOwner howner).2
      rw [isWaitingOwner_of_ne _ _ (hw.flat k hkb)] at howns
      cases howns
    | none =>
      by_cases hmb : m ∈ bs
      · have hopen := not_isWaitingOwner_of_none howner hw.mem
        rw [isWaitingOwner_eq _ _ (type_of_parallel hw.joins.kind), lists_of_branchesOf hw.branches hmb] at hopen
        have hopen : kept.isWaiting n.id = false := Except.ok.inj hopen
        -- The join does not wait for a branch that is woken alone, so that it is completed.
        cases hkept with
        | completed hn =>
          obtain ⟨-, -, hlater, -⟩ := hsegment.facts hg
          rw [isCompleted, beq_iff_eq, nodeStatus?, Option.map_eq_some_iff] at hn
          obtain ⟨st, hst, hcompleted⟩ := hn
          have hstate := hlater.keeps n.id st ((hsegment.nodes.state? n.id).trans hst) hcompleted
          refine .completed ?_
          rw [isCompleted_of_state? hstate, hcompleted]
          rfl
        | waiting hn _ _ _ =>
          rw [isWaiting, hn] at hopen
          cases hopen
        | unreached _ hbs =>
          rw [isWaiting, hbs m hmb] at hwaits
          cases hwaits
      · refine walks fun k hk hkb => hmb ?_
        obtain rfl := List.mem_singleton.1 (hstarts ▸ hk)
        exact hkb

theorem Step.joins (hstep : Step setup g h) (hg : g.Kept setup) (hw : w.Joins setup n bs)
    (hsecludes : Secludes setup w bs) (hover : h.WalksOver id w) (hjoins : g.Joins id n bs) :
    h.Joins id n bs := by
  have same (hmemory : h.memory = g.memory) : h.Joins id n bs := by
    intro e he
    exact hjoins e ((stored?_of_memory hmemory id).symm.trans he)
  have saved {f : Execution} (hmemory : h.memory = g.memory.saveExecution f)
      (hf : f.id = id → f.status ≠ .failed → f.status ≠ .cancelled → f.Joined n bs) :
      h.Joins id n bs := by
    intro e he hfailed hcancelled
    rw [stored?_save hmemory] at he
    split at he
    · next hid =>
      obtain rfl := Option.some.inj he
      exact hf hid.symm hfailed hcancelled
    · exact hjoins e he hfailed hcancelled
  cases hstep with
  | reschedule schedule heq => exact same (heq ▸ rfl)
  | move hmove =>
    cases hmove with
    | aside haside => exact same haside.memory
    | start e hstarted =>
      refine saved hstarted.aside.memory fun _ _ _ => ?_
      have hnone (y : String) : e.nodeStatus? y = none := by
        rw [nodeStatus?, state?, hstarted.states_eq]
        rfl
      exact .unreached (hnone _) fun b _ => hnone b.id
    | close f hcloses =>
      refine saved hcloses.aside.memory fun _ hfailed hcancelled => ?_
      exact absurd hcloses.status (not_or.2 ⟨hfailed, hcancelled⟩)
    | segment kept p hsegment =>
      obtain ⟨news, -, ⟨f, hposts⟩ | hstrands⟩ := hsegment.outcome
      · refine saved hposts.memory fun hid hfailed hcancelled => ?_
        have hkeptId : p.before.id = id := by
          rw [← hid, (hsegment.ids hg hposts.outcome).1, hsegment.nodes.id_eq]
        obtain rfl : p.workflow = w := by
          refine hover p ?_ hkeptId
          rw [hsegment.passes.journal]
          exact List.mem_append_right _ (List.mem_singleton_self p)
        have hopen := hsegment.resumable
        have hkept : kept.Joined n bs := by
          refine hjoins kept (hkeptId ▸ hsegment.stored) ?_ ?_
          · exact fun hstatus => by simp [hstatus, ExecutionStatus.isResumable] at hopen
          · exact fun hstatus => by simp [hstatus, ExecutionStatus.isResumable] at hopen
        cases hposts.outcome with
        | cancelled hstatus _ => exact absurd hstatus hcancelled
        | failed hstatus _ => exact absurd hstatus hfailed
        | done walk hresult _ _ touched _ =>
          refine (hsegment.joined hg hw hsecludes hkept hresult).congr fun m _ => ?_
          exact touched.nodeStatus? m.id
      · exact same hstrands.memory

theorem Steps.joins (hsteps : Steps setup g h) (hg : g.Kept setup) (hw : w.Joins setup n bs)
    (hsecludes : Secludes setup w bs) (hover : h.WalksOver id w) (hjoins : g.Joins id n bs) :
    h.Joins id n bs := by
  induction hsteps with
  | refl => exact hjoins
  | @tail h i hbefore hstep ih =>
    have hkept : h.Kept setup := Steps.kept hbefore hg
    have hadds : Adds (fun _ => True) h i := hstep.adds fun _ _ _ => trivial
    have hover' : h.WalksOver id w := fun p hp => hover p (hadds.mem hp)
    exact hstep.joins hkept hw hsecludes hover (ih hover')

theorem WalksOver.of_after (hg : g.Kept setup) {op : Operation} (hover : (g.after setup op).WalksOver id w) :
    g.WalksOver id w := by
  obtain ⟨later, hjournal, -⟩ := (after_steps hg op).adds_sound hg
  exact fun p hp => hover p (hjournal ▸ List.mem_append_left later hp)

theorem WalksOver.execute (hover : g.WalksOver id w) (setup : Setup) {trigger context : Value}
    (hallows : g.Allows w trigger context) : (g.after setup (.execute w trigger context)).WalksOver id w := by
  have walked {h : Engine} {p : Passage} (hjournal : h.journal = g.journal ++ [p]) (hp : p.workflow = w) :
      h.WalksOver id w := by
    intro q hq hid
    rw [hjournal] at hq
    obtain hq | hq := List.mem_append.1 hq
    · exact hover q hq hid
    · exact List.mem_singleton.1 hq ▸ hp
  rw [after]
  obtain ⟨_, _, hrun, p, hjournal, hp, -⟩ | ⟨_, _, hrun, p, hjournal, hp, -⟩ :=
    (execute_leads setup hallows).cases
  · rw [hrun]
    exact walked hjournal hp
  · rw [hrun]
    exact walked hjournal hp

theorem WalksOver.wakes (hover : g.WalksOver id w) {op : Operation} {id' x : String} {kept : Execution}
    (hop : op.Wakes id' x) (hg : g.Kept setup) (hstored : g.stored? id' = some kept)
    (hw : g.memory.workflow? kept.workflowId = some w) : (g.after setup op).WalksOver id w := by
  obtain ⟨signals, r, hwoke⟩ := after_wakes hop hg hstored
  have same (hjournal : (g.after setup op).journal = g.journal) : (g.after setup op).WalksOver id w :=
    fun p hp => hover p (hjournal ▸ hp)
  have walked {w' : Workflow} {m : Node} {p : Passage} (hw' : g.memory.workflow? kept.workflowId = some w')
      (hresumption : Resumption setup { g with signals := signals } kept w' m p (g.after setup op)) :
      (g.after setup op).WalksOver id w := by
    intro q hq hid
    rw [hresumption.journal] at hq
    obtain hq | hq := List.mem_append.1 hq
    · exact hover q hq hid
    · rw [List.mem_singleton.1 hq, hresumption.workflow]
      exact Option.some.inj (hw'.symm.trans hw)
  cases hwoke.resumed with
  | idle _ heq => exact same (by rw [heq])
  | close _ _ _ f _ hcloses => exact same hcloses.aside.journal
  | refused _ _ _ _ _ _ heq => exact same (by rw [heq])
  | settled w' m hw' _ p hresumption => exact walked hw' hresumption
  | stranded w' m hw' _ p hresumption => exact walked hw' hresumption

theorem Reached.joins {allowed : Operation → Prop} (hg : Reached setup allowed g) (hw : w.Joins setup n bs)
    (hsecludes : Secludes setup w bs) (hover : g.WalksOver id w) : g.Joins id n bs := by
  induction hg with
  | start now tick workflows => exact fun e he => nomatch he
  | step hbefore _ ih =>
    have hover' := hover.of_after hbefore.kept
    exact (after_steps hbefore.kept _).joins hbefore.kept hw hsecludes hover (ih hover')

/-- Joins advance with their branches, in any execution of which all walks are over one workflow: a join of
branches that are no parallel nodes and to which nothing leads, inside other joins to any depth. Whatever is
asked of the engine, such a join never waits with all of its branches completed, unless the execution has
failed or was cancelled; and an operation after which all branches are completed has completed the join. -/
theorem joins_advance (hg : Reached setup (fun _ => True) g) (op : Operation) (hw : w.Joins setup n bs)
    (hsecludes : Secludes setup w bs) (hover : (g.after setup op).WalksOver id w) :
    (∀ e, g.stored? id = some e → e.status ≠ .failed → e.status ≠ .cancelled → e.isWaiting n.id = true →
      ∃ b ∈ bs, e.isCompleted b.id = false) ∧
    ∀ e f, g.stored? id = some e → e.status.isTerminal = false → e.isWaiting n.id = true →
      (g.after setup op).stored? id = some f → f.status ≠ .failed → f.status ≠ .cancelled →
        (∀ b ∈ bs, f.isCompleted b.id = true) → f.isCompleted n.id = true := by
  have hjoins : g.Joins id n bs := hg.joins hw hsecludes (hover.of_after hg.kept)
  have waits_for (e : Execution) (he : g.stored? id = some e) (hfailed : e.status ≠ .failed)
      (hcancelled : e.status ≠ .cancelled) (hwaits : e.isWaiting n.id = true) :
      ∃ b ∈ bs, e.isCompleted b.id = false := by
    rw [isWaiting, beq_iff_eq] at hwaits
    cases hjoins e he hfailed hcancelled with
    | completed hn => cases hwaits.symm.trans (eq_of_beq hn)
    | waiting _ b hb hopen => exact ⟨b, hb, hopen⟩
    | unreached hn _ => cases hwaits.symm.trans hn
  refine ⟨waits_for, fun e f he hopen hwaits hf hfailed hcancelled hall => ?_⟩
  have hafter : Reached setup (fun _ => True) (g.after setup op) := hg.step trivial
  cases hafter.joins hw hsecludes hover f hf hfailed hcancelled with
  | completed hn => exact hn
  | waiting _ b hb hbopen => cases (hall b hb).symm.trans hbopen
  | unreached _ hnone =>
    have hfailed : e.status ≠ .failed := fun h => by simp [h, ExecutionStatus.isTerminal] at hopen
    have hcancelled : e.status ≠ .cancelled := fun h => by simp [h, ExecutionStatus.isTerminal] at hopen
    obtain ⟨b, hb, -⟩ := waits_for e he hfailed hcancelled hwaits
    have hcompleted := eq_of_beq (hall b hb)
    cases hcompleted.symm.trans (hnone b hb)

/-! ## A join that is left behind -/

/-- A join of one branch. -/
def joinOf (id branch : String) : Node :=
  ⟨id, "parallel", .object [("branches", Value.strings [branch])], .null, .null⟩

/-- A node that waits for a signal, for an hour at most. -/
def hold : Node := ⟨"hold", "wait", .object [("timeout", .int 3600)], .null, .null⟩

def joinBegin : Node := ⟨"begin", "start", .map [], .null, .null⟩

/-- A join inside another one. -/
def twofold : Workflow := .ofNodes [joinBegin, joinOf "outer" "inner", joinOf "inner" "hold", hold]
  [⟨"begin", "outer", .null, .null⟩] []

/-- The engine when the node waits. -/
def twice : Engine := (knowing twofold).after (.ofActions []) (.execute twofold .null .null)

def signalled : Operation := .deliverSignal "exec-1" "hold" (.object [("k", .int 1)])

/-- The signal completes the inner join. The outer one waits for it still. -/
theorem outer_left_waiting :
    ((twice.after (.ofActions []) signalled).stored? "exec-1").any (fun e =>
      decide (e.status = .paused) && e.isCompleted "hold" && e.isCompleted "inner" && e.isWaiting "outer") =
        true := by
  decide +kernel

theorem reached_twice : Reached (.ofActions []) (fun _ => True) twice := .step (reached_knowing ..) trivial

theorem mem_twofold {m : Node} (hm : m ∈ twofold.nodes) :
    m = joinBegin ∨ m = joinOf "outer" "inner" ∨ m = joinOf "inner" "hold" ∨ m = hold := by
  simpa [twofold, Workflow.ofNodes] using hm

/-- Each of the joins runs the one branch that it names. -/
theorem runsInside_twofold {m b : Node} (hm : m ∈ twofold.nodes)
    (h : RunsInside (.ofActions []) twofold m b) :
    (m = joinOf "outer" "inner" ∧ b = joinOf "inner" "hold") ∨ (m = joinOf "inner" "hold" ∧ b = hold) := by
  have houter : (joinOf "outer" "inner").branchesOf twofold = .ok [joinOf "inner" "hold"] := rfl
  have hinner : (joinOf "inner" "hold").branchesOf twofold = .ok [hold] := rfl
  obtain rfl | rfl | rfl | rfl := mem_twofold hm
  · cases h with
    | body hkind _ => cases hkind
    | branch hkind _ _ _ => cases hkind
  · cases h with
    | body hkind _ => cases hkind
    | branch _ bs hbs hb =>
      obtain rfl := Except.ok.inj (houter.symm.trans hbs)
      exact .inl ⟨rfl, List.mem_singleton.1 hb⟩
  · cases h with
    | body hkind _ => cases hkind
    | branch _ bs hbs hb =>
      obtain rfl := Except.ok.inj (hinner.symm.trans hbs)
      exact .inr ⟨rfl, List.mem_singleton.1 hb⟩
  · cases h with
    | body hkind _ => cases hkind
    | branch hkind _ _ _ => cases hkind

theorem twofold_joins : twofold.Joins (.ofActions []) (joinOf "inner" "hold") [hold] := by
  have hjoins : ∀ id branch, id = "outer" ∧ branch = "inner" ∨ id = "inner" ∧ branch = "hold" →
      JoinsAll (.ofActions []) twofold (joinOf id branch) := by
    rintro id branch (⟨rfl, rfl⟩ | ⟨rfl, rfl⟩)
    · exact ⟨rfl, rfl, by decide⟩
    · exact ⟨rfl, rfl, by decide⟩
  refine ⟨by decide, by simp [twofold, Workflow.ofNodes], hjoins _ _ (.inr ⟨rfl, rfl⟩), rfl, ?_, ?_, ?_⟩
  · intro b hb
    rw [List.mem_singleton.1 hb]
    decide
  · intro m hm b hb h
    obtain rfl := List.mem_singleton.1 hb
    obtain ⟨-, heq⟩ | ⟨rfl, -⟩ := runsInside_twofold hm h
    · exact absurd (congrArg Node.id heq) (by decide)
    · rfl
  · intro m hm htrans
    obtain ⟨b, h, -⟩ := Relation.TransGen.head'_iff.1 htrans
    obtain ⟨rfl, -⟩ | ⟨rfl, -⟩ := runsInside_twofold hm h
    · exact hjoins _ _ (.inl ⟨rfl, rfl⟩)
    · exact hjoins _ _ (.inr ⟨rfl, rfl⟩)

theorem twofold_secludes : Secludes (.ofActions []) twofold [hold] := by
  intro b hb
  obtain rfl := List.mem_singleton.1 hb
  refine ⟨fun hstart => ?_, fun k hk ⟨running, hleads⟩ => ?_⟩
  · have hbegin : hold ∈ [joinBegin] := hstart
    exact absurd (congrArg Node.id (List.mem_singleton.1 hbegin)) (by decide)
  · have hkind : ∃ kind, NodeKind.ofNode? ((Setup.ofActions []).services running) k = some kind ∧
        kind.names = false := by
      obtain rfl | rfl | rfl | rfl := mem_twofold hk
      · exact ⟨_, rfl, rfl⟩
      · exact ⟨_, rfl, rfl⟩
      · exact ⟨_, rfl, rfl⟩
      · exact ⟨_, rfl, rfl⟩
    obtain ⟨kind, hkind, hnames⟩ := hkind
    obtain ⟨c, hc, htarget⟩ := hleads.connected (straight_dispatch hkind hnames _)
    obtain rfl := List.mem_singleton.1 (List.mem_filter.1 hc).1
    have htarget : some (joinOf "outer" "inner") = some hold := htarget
    exact absurd (congrArg Node.id (Option.some.inj htarget)) (by decide)

/-- Both walks are over the one workflow that the engine knows. -/
theorem twofold_walksOver : (twice.after (.ofActions []) signalled).WalksOver "exec-1" twofold := by
  have hnew : (knowing twofold).WalksOver "exec-1" twofold := fun p hp => nomatch hp
  have hallows : (knowing twofold).Allows twofold .null .null :=
    ⟨rfl, ⟨1000, rfl, rfl⟩, ⟨[], rfl⟩, ⟨[], rfl⟩, ⟨[], rfl⟩⟩
  have htwice : twice.WalksOver "exec-1" twofold := hnew.execute (.ofActions []) hallows
  have hstored : (twice.stored? "exec-1").any (fun e => decide (e.workflowId = "flow")) = true := by
    decide +kernel
  obtain ⟨kept, hstored, hflow⟩ := (Option.any_eq_true _ _).1 hstored
  have hnewKept : (knowing twofold).Kept (.ofActions []) := (reached_knowing [] (fun _ => True) twofold).kept
  have hsteps : Steps (.ofActions []) (knowing twofold) twice :=
    after_steps hnewKept (.execute twofold .null .null)
  have hknown : (knowing twofold).memory.workflow? "flow" = some twofold := rfl
  have hwakes : signalled.Wakes "exec-1" "hold" := .signal (.object [("k", .int 1)])
  refine htwice.wakes hwakes reached_twice.kept hstored ?_
  rw [of_decide_eq_true hflow, Memory.workflow?, hsteps.workflows]
  exact hknown

/-- The inner join advances with its branch. -/
theorem joins_advance_twofold :
    Reached (.ofActions []) (fun _ => True) twice ∧
      twofold.Joins (.ofActions []) (joinOf "inner" "hold") [hold] ∧ Secludes (.ofActions []) twofold [hold] ∧
      (twice.after (.ofActions []) signalled).WalksOver "exec-1" twofold ∧
      ∃ f, (twice.after (.ofActions []) signalled).stored? "exec-1" = some f ∧
        f.isCompleted "inner" = true := by
  have hbefore : (twice.stored? "exec-1").any (fun e =>
      decide (e.status.isTerminal = false) && e.isWaiting "inner") = true := by decide +kernel
  have hafter : ((twice.after (.ofActions []) signalled).stored? "exec-1").any (fun f =>
      decide (f.status ≠ .failed) && decide (f.status ≠ .cancelled) && f.isCompleted "hold") = true := by
    decide +kernel
  obtain ⟨e, he, hopen⟩ := (Option.any_eq_true _ _).1 hbefore
  obtain ⟨f, hf, hstatus⟩ := (Option.any_eq_true _ _).1 hafter
  obtain ⟨hopen, hwaits⟩ := Bool.and_eq_true_iff.1 hopen
  obtain ⟨hstatus, hhold⟩ := Bool.and_eq_true_iff.1 hstatus
  obtain ⟨hfailed, hcancelled⟩ := Bool.and_eq_true_iff.1 hstatus
  obtain ⟨-, hadvance⟩ := joins_advance reached_twice signalled twofold_joins twofold_secludes twofold_walksOver
  refine ⟨reached_twice, twofold_joins, twofold_secludes, twofold_walksOver, f, hf, ?_⟩
  refine hadvance e f he (of_decide_eq_true hopen) hwaits hf (of_decide_eq_true hfailed)
    (of_decide_eq_true hcancelled) fun b hb => ?_
  rw [List.mem_singleton.1 hb]
  exact hhold

end Engine

end Flowline
