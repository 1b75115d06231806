import Flowline.Proofs.Node.Joins
import Flowline.Proofs.Value.Records
import Flowline.Proofs.Walk.Frame

/-! # Parallel nodes that go on

A parallel node that waits takes over the outputs of the branches that are recorded completed, and runs the others.
`dispatchBut` runs nodes in the same way, but does anything else where such a node would run a completed branch: it makes no
difference. When the node is done, it reports the outputs that its branches are recorded with (`Reports`). -/

namespace Flowline
open Relation

/-- Sessions between which completed nodes stay as they are recorded. -/
def KeepsCompleted (s t : Session) : Prop :=
  ∀ x o, s.execution.state? x = some ⟨.completed, o⟩ → t.execution.state? x = some ⟨.completed, o⟩

theorem keepsCompleted_of_states {s t : Session} (h : t.execution.states = s.execution.states) : KeepsCompleted s t := by
  intro x o hx
  rw [Execution.state?, h]
  exact hx

instance : WalkFrame KeepsCompleted where
  refl _ _ _ hx := hx
  trans _ _ _ hst htu x o hx := htu x o (hst x o hx)
  setVariable _ _ _ := keepsCompleted_of_states rfl
  log s level message context := by
    obtain ⟨logs, h⟩ := Execution.log_eq s.execution level message context
    rw [h]
    exact keepsCompleted_of_states rfl
  cancel _ := keepsCompleted_of_states rfl
  ran _ _ _ := keepsCompleted_of_states rfl
  elapse _ _ _ _ := keepsCompleted_of_states rfl
  takeSignal _ _ := keepsCompleted_of_states rfl
  countCall _ _ _ := keepsCompleted_of_states rfl
  readStopwatch _ := keepsCompleted_of_states rfl
  setState s x status o y p hy := by
    have hkept : ¬ (y = x ∧ s.execution.isCompleted x = false) := by
      rintro ⟨rfl, hopen⟩
      rw [Execution.isCompleted_of_state? hy] at hopen
      cases hopen
    change (s.execution.setState x status o).state? y = _
    rw [Execution.state?_setState, if_neg hkept]
    exact hy
  number _ := keepsCompleted_of_states rfl
  visit _ _ := keepsCompleted_of_states rfl

theorem Execution.exists_output_of_isCompleted {e : Execution} {x : String} (h : e.isCompleted x = true) :
    ∃ o, e.state? x = some ⟨.completed, o⟩ := by
  rw [isCompleted, beq_iff_eq, nodeStatus?, Option.map_eq_some_iff] at h
  obtain ⟨⟨status, o⟩, hx, hstatus⟩ := h
  obtain rfl : status = .completed := hstatus
  exact ⟨o, hx⟩

namespace Node

/-! ## Branches that are not run again -/

section Branches
variable {inner : Node → Run NodeResult} {resuming : Bool} {s : Session}

theorem run_execution (s : Session) : Run.execution.run.run s = (.ok s.execution, s) := rfl

theorem run_runBranch_of_completed {b : Node} {o : Output} (hb : s.execution.state? b.id = some ⟨.completed, o⟩) :
    (runBranch inner true b).run.run s = (.ok (.ok o .null), s) := by
  rw [runBranch, run_bind, run_execution]
  dsimp only
  rw [Execution.isCompleted_of_state? hb, hb]
  rfl

theorem run_runBranch {b : Node} (h : (resuming && s.execution.isCompleted b.id) = false) :
    (runBranch inner resuming b).run.run s = (do
      let r ← inner b
      Run.modifyExecution (·.setState b.id r.status r.output)
      return r : Run NodeResult).run.run s := by
  rw [runBranch, run_bind, run_execution]
  dsimp only
  rw [h]
  rfl

/-- A branch is taken over, or run and recorded. -/
theorem leads_runBranch {b : Node} {P : NodeResult → Session → Prop}
    (htaken : ∀ o, resuming = true → s.execution.state? b.id = some ⟨.completed, o⟩ → P (.ok o .null) s)
    (hruns : (resuming && s.execution.isCompleted b.id) = false → Leads (inner b) s
      (fun r t => P r { t with execution := t.execution.setState b.id r.status r.output }) fun _ _ => True) :
    Leads (runBranch inner resuming b) s P fun _ _ => True := by
  unfold Leads
  cases htakes : resuming && s.execution.isCompleted b.id with
  | true =>
    obtain ⟨rfl, hcompleted⟩ := Bool.and_eq_true_iff.1 htakes
    obtain ⟨o, ho⟩ := Execution.exists_output_of_isCompleted hcompleted
    rw [run_runBranch_of_completed ho]
    exact htaken o rfl ho
  | false =>
    rw [run_runBranch htakes]
    exact leads_bind ((hruns htakes).mono (fun r t hr => leads_bind (leads_modify (leads_pure hr))) fun _ _ _ => trivial)

/-- A branch that comes back completed is recorded completed at once. -/
theorem isCompleted_of_runBranch {b : Node} {r : NodeResult} {t : Session}
    (h : (runBranch inner resuming b).run.run s = (.ok r, t)) (hr : r.status = .completed) :
    t.execution.isCompleted b.id = true := by
  have hleads : Leads (runBranch inner resuming b) s
      (fun r t => r.status = .completed → t.execution.isCompleted b.id = true) fun _ _ => True := by
    refine leads_runBranch (fun o _ ho _ => Execution.isCompleted_of_state? ho) fun _ => ?_
    refine leads_trivial.mono (fun r t _ hr => ?_) fun _ _ _ => trivial
    cases hcompleted : t.execution.isCompleted b.id with
    | true => exact Execution.isCompleted_setState _ _ hcompleted
    | false =>
      dsimp only
      rw [Execution.isCompleted, Execution.nodeStatus?_setState_self _ _ hcompleted, hr]
      rfl
  unfold Leads at hleads
  rw [h] at hleads
  exact hleads hr

/-- Something else is done where a branch would be run that is completed. -/
def butCompleted (other inner : Node → Run NodeResult) (b : Node) : Run NodeResult := do
  if (← Run.execution).isCompleted b.id then other b else inner b

theorem run_butCompleted {other : Node → Run NodeResult} {b : Node} (h : s.execution.isCompleted b.id = false) :
    (butCompleted other inner b).run.run s = (inner b).run.run s := by
  rw [butCompleted, run_bind, run_execution]
  dsimp only
  rw [h, if_neg Bool.false_ne_true]

/-- A parallel node that goes on does not run completed branches. -/
theorem runBranch_butCompleted (other inner : Node → Run NodeResult) (b : Node) :
    runBranch (butCompleted other inner) true b = runBranch inner true b := by
  refine ExceptT.ext (StateT.ext fun s => ?_)
  cases hcompleted : s.execution.isCompleted b.id with
  | true =>
    obtain ⟨o, ho⟩ := Execution.exists_output_of_isCompleted hcompleted
    rw [run_runBranch_of_completed ho, run_runBranch_of_completed ho]
  | false =>
    have hruns : (true && s.execution.isCompleted b.id) = false := hcompleted
    rw [run_runBranch hruns, run_runBranch hruns, run_bind, run_bind, run_butCompleted hcompleted]

theorem runBranches_butCompleted (other inner : Node → Run NodeResult) (waitForAll : Bool)
    (results : Table String NodeResult) (branches : List Node) :
    runBranches (butCompleted other inner) true waitForAll results branches =
      runBranches inner true waitForAll results branches := by
  induction branches generalizing results with
  | nil => rfl
  | cons b rest ih =>
    rw [runBranches, runBranches, runBranch_butCompleted]
    simp only [ih]

end Branches

/-- Running nodes, except that a parallel node that waits does something else where it would run a completed branch. -/
def dispatchBut (other : Node → Node → Run NodeResult) (services : Services) (w : Workflow) : Nat → Node → Run NodeResult
  | 0, _ => throw (.execution "Nodes are nested too deeply")
  | depth + 1, n => do
    let e ← Run.execution
    let inner := dispatchBut other services w depth
    let goesOn := NodeKind.ofNode? services n == some .parallel && e.isWaiting n.id
    let r ← runNode services w (if goesOn then butCompleted (other n) inner else inner) n
    Run.modifyExecution (·.ran n r)
    return r

section Dispatch
variable {services : Services} {w : Workflow} {n : Node} {s : Session}

theorem run_bind_congr {α β : Type} {m : Run α} {f g : α → Run β}
    (h : ∀ a t, m.run.run s = (.ok a, t) → (f a).run.run t = (g a).run.run t) :
    (m >>= f).run.run s = (m >>= g).run.run s := by
  rw [run_bind, run_bind]
  rcases hm : m.run.run s with ⟨fault | a, t⟩
  · rfl
  · exact h a t hm

theorem run_read_congr {α β : Type} {r : Except Fault α} {f g : α → Run β}
    (h : ∀ a, (f a).run.run s = (g a).run.run s) : (Run.of r >>= f).run.run s = (Run.of r >>= g).run.run s := by
  cases r with
  | ok a => exact h a
  | error fault => rfl

theorem run_runParallel_butCompleted (other inner : Node → Run NodeResult) (hwaits : s.execution.isWaiting n.id = true) :
    (runParallel (butCompleted other inner) w n).run.run s = (runParallel inner w n).run.run s := by
  refine run_read_congr fun listed => run_read_congr fun all => run_read_congr fun most => ?_
  rw [run_bind, run_bind, run_execution]
  refine run_read_congr fun ids => ?_
  rw [hwaits, runBranches_butCompleted]

theorem run_runNode_butCompleted (other inner : Node → Run NodeResult)
    (hkind : NodeKind.ofNode? services n = some .parallel) (hwaits : s.execution.isWaiting n.id = true) :
    (runNode services w (butCompleted other inner) n).run.run s = (runNode services w inner n).run.run s := by
  refine run_bind_congr fun _ t hnoted => ?_
  rw [hkind]
  -- what is noted before the branches are run leaves the node waiting
  have hwaits : t.execution.isWaiting n.id = true := by
    obtain ⟨logs, hlogs⟩ := Execution.log_eq s.execution "debug" s!"Executing node: {n.id}"
      (.object [("type", .str n.type), ("config", n.config)])
    obtain rfl : _ = t := congrArg Prod.snd hnoted
    change (s.execution.log _ _ _).isWaiting n.id = true
    rw [hlogs]
    exact hwaits
  dsimp only [runKind]
  rw [run_bind, run_bind, run_attempt, run_attempt, run_runParallel_butCompleted _ _ hwaits]

/-- It makes no difference what is done where a parallel node that waits would run a completed branch. -/
theorem dispatchBut_eq (other : Node → Node → Run NodeResult) (services : Services) (w : Workflow) (depth : Nat) :
    dispatchBut other services w depth = dispatch services w depth := by
  induction depth with
  | zero => rfl
  | succ depth ih =>
    funext n
    refine ExceptT.ext (StateT.ext fun s => ?_)
    rw [dispatchBut, run_bind, run_execution, ih, dispatch]
    dsimp only
    by_cases hgoes : (NodeKind.ofNode? services n == some .parallel && s.execution.isWaiting n.id) = true
    · obtain ⟨hkind, hwaits⟩ := Bool.and_eq_true_iff.1 hgoes
      rw [if_pos hgoes, run_bind, run_bind, run_runNode_butCompleted _ _ (eq_of_beq hkind) hwaits]
    · rw [if_neg hgoes]

end Dispatch

end Node

/-! ## What is reported of branches -/

/-- What a result reports of a branch. -/
def NodeResult.reported? (r : NodeResult) (x : String) : Option Value :=
  (r.output.value.field? "branch_results").bind (·.field? x)

namespace Node

def needsAll (n : Node) : Bool := (n.config.entryOr "wait_for_all" (.bool true)).toOption.any (·.isPresent)

/-- Of a branch a result of a parallel node reports an output, where an empty one is none, and it does so where the node
needs all branches and is completed. -/
structure Reports (n : Node) (r : NodeResult) (x : String) (o : Output) : Prop where
  same : ∀ v, r.reported? x = some v → v.orElse (.map []) = o.value.orElse (.map [])
  reported : n.needsAll = true → r.status = .completed → (r.reported? x).isSome = true

theorem reported?_of_joinBranches {waitForAll : Bool} {results : Table String NodeResult} {r : NodeResult}
    (h : joinBranches waitForAll results = .ok r) (hr : r.isWaiting = false) (x : String) :
    r.reported? x = (results.get? x).map (·.output.value) := by
  have hreported (q : NodeResult) (hq : q.output = (Output.under [] "branch_results" (branchOutputs results)).orEmpty) :
      q.reported? x = (results.get? x).map (·.output.value) := by
    have houtputs : (branchOutputs results).value = .object (results.map fun p => (p.1, p.2.output.value)) := by
      rw [branchOutputs, Output.ofEntries, Value.object, List.map_map, List.map_map]
      rfl
    rw [NodeResult.reported?, hq]
    change ((branchOutputs results).value.field? x) = _
    rw [houtputs, Value.field?_object]
    exact Table.get?_map results (·.output.value) x
  have hwaits (q : NodeResult) (hq : branchesWaiting (results.filter fun p => p.2.isWaiting) (branchOutputs results) = .ok q) :
      q.isWaiting = true := by
    obtain ⟨time, -, hq⟩ := bind_eq_ok.1 hq
    obtain rfl := Except.ok.inj hq
    rfl
  unfold joinBranches at h
  dsimp only at h
  split at h
  · split at h
    · obtain rfl := Except.ok.inj h
      exact hreported _ rfl
    · split at h
      · obtain rfl := Except.ok.inj h
        exact hreported _ rfl
      · rw [hwaits r h] at hr
        cases hr
  · split at h
    · obtain rfl := Except.ok.inj h
      exact hreported _ rfl
    · split at h
      · obtain rfl := Except.ok.inj h
        exact hreported _ rfl
      · rw [hwaits r h] at hr
        cases hr

theorem orElse_orEmpty (o : Output) : o.orEmpty.value.orElse (.map []) = o.value.orElse (.map []) := by
  unfold Output.orEmpty
  split
  · rfl
  · next hempty =>
    rw [Value.orElse, Value.orElse, if_neg hempty]
    rfl

section Runs
variable {inner : Node → Run NodeResult} {resuming waitForAll : Bool}

/-- What each branch keeps, as branches are run one after the other, all of them keep; unless all are needed some may be
left. -/
theorem runBranches_holds {P : List Node → Table String NodeResult → Session → Prop}
    (hstep : ∀ b rest results s, P (b :: rest) results s →
      Leads (runBranch inner resuming b) s (fun r t => P rest (results.put b.id r) t) fun _ _ => True)
    {bs : List Node} {results : Table String NodeResult} {s : Session} (hs : P bs results s) :
    Leads (runBranches inner resuming waitForAll results bs) s
      (fun results' t => ∃ rest, P rest results' t ∧ (waitForAll = true → rest = [])) fun _ _ => True := by
  induction bs generalizing results s with
  | nil => exact leads_pure ⟨[], hs, fun _ => rfl⟩
  | cons b rest ih =>
    refine Leads.bind (hstep b rest results s hs) fun r t ht => ?_
    dsimp only
    split
    · next hstops =>
      refine leads_pure ⟨rest, ht, fun hall => ?_⟩
      rw [hall] at hstops
      cases hstops
    · exact ih ht

/-- What is recorded of a branch is among the results of branches, if it is recorded completed and there is a result of
it. -/
structure Results (x : String) (waitForAll : Bool) (results : Table String NodeResult) (t : Session) : Prop where
  same : ∀ o, t.execution.state? x = some ⟨.completed, o⟩ → ∀ r, results.get? x = some r →
    r.output.value.orElse (.map []) = o.value.orElse (.map [])
  all : waitForAll = true → (results.get? x).isSome = true

/-- A completed branch that is to be taken over, or was. -/
structure TakesOver (x : String) (o : Output) (rest : List Node) (results : Table String NodeResult) (t : Session) :
    Prop where
  kept : t.execution.state? x = some ⟨.completed, o⟩
  same : ∀ r, results.get? x = some r → r.output.value.orElse (.map []) = o.value.orElse (.map [])
  present : x ∈ rest.map (·.id) ∨ (results.get? x).isSome = true

theorem TakesOver.results {x : String} {o : Output} {rest : List Node} {results : Table String NodeResult} {t : Session}
    (h : TakesOver x o rest results t) (hall : waitForAll = true → rest = []) : Results x waitForAll results t := by
  refine ⟨fun p hp => ?_, fun hneeds => ?_⟩
  · have hsame := h.kept.symm.trans hp
    obtain rfl : o = p := by cases hsame; rfl
    exact h.same
  · refine h.present.resolve_left fun hx => ?_
    rw [hall hneeds] at hx
    exact List.not_mem_nil hx

theorem TakesOver.step {x : String} {o : Output} {b : Node} {rest : List Node} {results : Table String NodeResult}
    {s : Session} (hinner : Within KeepsCompleted (inner b)) (h : TakesOver x o (b :: rest) results s) :
    Leads (runBranch inner true b) s (fun r t => TakesOver x o rest (results.put b.id r) t) fun _ _ => True := by
  by_cases hb : b.id = x
  · subst hb
    unfold Leads
    rw [run_runBranch_of_completed h.kept]
    refine ⟨h.kept, fun r hr => ?_, .inr ?_⟩
    · rw [Table.get?_put_self] at hr
      obtain rfl := Option.some.inj hr
      exact orElse_orEmpty o
    · rw [Table.get?_put_self]
      rfl
  · have hbranch := within_runBranch (R := KeepsCompleted) ⟨hinner, fun s _ _ => RecordFrame.setState s _ _ _⟩ true s
    refine hbranch.mono (fun r t ht => ?_) fun _ _ _ => trivial
    have hget : (results.put b.id r).get? x = results.get? x := by
      rw [Table.get?_put, if_neg fun hx => hb hx.symm]
    refine ⟨ht.1 x o h.kept, hget ▸ h.same, hget ▸ h.present.imp_left fun hmem => ?_⟩
    exact (List.mem_cons.1 hmem).resolve_left fun hx => hb hx.symm

/-- A parallel node that goes on takes over what is recorded of a completed branch. -/
theorem runBranches_takesOver {bs : List Node} {x : String} {o : Output} {s : Session}
    (hinner : ∀ b, Within KeepsCompleted (inner b)) (hx : x ∈ bs.map (·.id))
    (ho : s.execution.state? x = some ⟨.completed, o⟩) :
    Leads (runBranches inner true waitForAll [] bs) s (Results x waitForAll) fun _ _ => True := by
  have hstart : TakesOver x o bs [] s := ⟨ho, nofun, .inl hx⟩
  refine (runBranches_holds (fun b rest results s h => h.step (hinner b)) hstart).mono ?_ fun _ _ _ => trivial
  rintro results t ⟨rest, h, hall⟩
  exact h.results hall

/-- Running one branch changes nothing for another one where it leaves the branches as they are. -/
theorem runBranch_leaves {bs : List Node} {b c : Node} (hb : b ∈ bs) (hc : Within (SameAt bs) (inner c))
    (hkeeps : Within KeepsCompleted (inner c)) (hne : b.id ≠ c.id) (s : Session) :
    Leads (runBranch inner resuming c) s (fun _ t =>
      t.execution.isCompleted b.id = s.execution.isCompleted b.id ∧ KeepsCompleted s t) fun _ _ => True := by
  have hsame : Leads (runBranch inner resuming c) s
      (fun _ t => t.execution.isCompleted b.id = s.execution.isCompleted b.id) fun _ _ => True := by
    refine leads_runBranch (fun _ _ _ => rfl) fun _ => (hc s).mono (fun r t ht => ?_) fun _ _ _ => trivial
    dsimp only
    rw [Execution.isCompleted, Execution.nodeStatus?_setState_of_ne _ _ hne, ht.1 b hb]
    rfl
  have hkept := within_runBranch (R := KeepsCompleted) ⟨hkeeps, fun s _ _ => RecordFrame.setState s _ _ _⟩ resuming s
  exact (hsame.and (hkept.mono (fun _ _ ht => ht.1) fun _ _ _ => trivial)).mono (fun _ _ h => h) fun _ _ _ => trivial

/-- A branch that is to be run, or was: then it has a result, with which it is recorded if it is completed. -/
inductive Settles (x : String) (rest : List Node) (results : Table String NodeResult) (t : Session) : Prop
  | before (hx : x ∈ rest.map (·.id)) (hopen : t.execution.isCompleted x = false)
  | after (hx : x ∉ rest.map (·.id)) (r : NodeResult) (hr : results.get? x = some r)
    (hrecorded : t.execution.isCompleted x = true → t.execution.state? x = some ⟨.completed, r.output.orEmpty⟩)

theorem Settles.results {x : String} {rest : List Node} {results : Table String NodeResult} {t : Session}
    (h : Settles x rest results t) (hall : waitForAll = true → rest = []) : Results x waitForAll results t := by
  cases h with
  | before hx hopen =>
    refine ⟨fun o ho => ?_, fun hneeds => ?_⟩
    · rw [Execution.isCompleted_of_state? ho] at hopen
      cases hopen
    · rw [hall hneeds] at hx
      exact absurd hx List.not_mem_nil
  | after _ r hr hrecorded =>
    refine ⟨fun o ho q hq => ?_, fun _ => by rw [hr]; rfl⟩
    obtain rfl := Option.some.inj (hr.symm.trans hq)
    have hsame := (hrecorded (Execution.isCompleted_of_state? ho)).symm.trans ho
    obtain rfl : r.output.orEmpty = o := by cases hsame; rfl
    exact (orElse_orEmpty r.output).symm

theorem Settles.step {bs rest : List Node} {b c : Node} {results : Table String NodeResult} {s : Session} (hb : b ∈ bs)
    (hc : Within (SameAt bs) (inner c)) (hkeeps : Within KeepsCompleted (inner c)) (hnew : c.id ∉ rest.map (·.id))
    (h : Settles b.id (c :: rest) results s) :
    Leads (runBranch inner resuming c) s (fun r t => Settles b.id rest (results.put c.id r) t) fun _ _ => True := by
  by_cases hne : b.id = c.id
  · have hopen : s.execution.isCompleted b.id = false := by
      cases h with
      | before _ hopen => exact hopen
      | after hx => exact absurd (hne ▸ List.mem_cons_self ..) hx
    refine leads_runBranch (fun o _ ho => ?_) fun _ => (hc s).mono (fun r t ht => ?_) fun _ _ _ => trivial
    · rw [hne, Execution.isCompleted_of_state? ho] at hopen
      cases hopen
    · have hopen : t.execution.isCompleted c.id = false := by
        rw [← hne, Execution.isCompleted, ht.1 b hb]
        exact hopen
      have hstate : (t.execution.setState c.id r.status r.output).state? b.id = some ⟨r.status, r.output.orEmpty⟩ := by
        rw [Execution.state?_setState, if_pos ⟨hne, hopen⟩]
      refine .after (hne ▸ hnew) r (hne ▸ Table.get?_put_self ..) fun hcompleted => ?_
      rw [Execution.isCompleted_of_state? hstate] at hcompleted
      have hstatus : r.status = .completed := eq_of_beq hcompleted
      rw [hstate, hstatus]
  · refine (runBranch_leaves hb hc hkeeps hne s).mono (fun r t ht => ?_) fun _ _ _ => trivial
    cases h with
    | before hx hopen => exact .before ((List.mem_cons.1 hx).resolve_left hne) (ht.1.trans hopen)
    | after hx q hq hrecorded =>
      refine .after (List.not_mem_of_not_mem_cons hx) q ?_ fun hcompleted => ht.2 _ _ (hrecorded (ht.1 ▸ hcompleted))
      rw [Table.get?_put, if_neg hne]
      exact hq

/-- Of a branch that is run now just what is recorded is among the results, where branches leave each other alone. -/
theorem runBranches_records {bs : List Node} {b : Node} {s : Session} (hb : b ∈ bs) (hdistinct : (bs.map (·.id)).Nodup)
    (hinner : ∀ c ∈ bs, Within (SameAt bs) (inner c)) (hkeeps : ∀ c, Within KeepsCompleted (inner c))
    (hopen : s.execution.isCompleted b.id = false) :
    Leads (runBranches inner resuming waitForAll [] bs) s (Results b.id waitForAll) fun _ _ => True := by
  let P (rest : List Node) (results : Table String NodeResult) (t : Session) : Prop :=
    (∀ c ∈ rest, c ∈ bs) ∧ (rest.map (·.id)).Nodup ∧ Settles b.id rest results t
  have hstep : ∀ c rest results s, P (c :: rest) results s →
      Leads (runBranch inner resuming c) s (fun r t => P rest (results.put c.id r) t) fun _ _ => True := by
    rintro c rest results s ⟨hmem, hnodup, h⟩
    obtain ⟨hc, hrest⟩ := List.forall_mem_cons.1 hmem
    obtain ⟨hnew, hnodup⟩ := List.nodup_cons.1 hnodup
    exact (h.step hb (hinner c hc) (hkeeps c) hnew).mono (fun _ _ ht => ⟨hrest, hnodup, ht⟩) fun _ _ h => h
  have hstart : P bs [] s := ⟨fun _ hc => hc, hdistinct, .before (List.mem_map_of_mem hb) hopen⟩
  refine (runBranches_holds hstep hstart).mono ?_ fun _ _ _ => trivial
  rintro results t ⟨rest, ⟨-, -, h⟩, hall⟩
  exact h.results hall

end Runs

/-! ## Reports -/

/-- The branches of a parallel node are different ones, and none of them runs one of them inside it. -/
structure Fans (setup : Setup) (w : Workflow) (bs : List Node) : Prop where
  distinct : (bs.map (·.id)).Nodup
  apart : ∀ b ∈ bs, ∀ m, ReflTransGen (RunsInside setup w) b m → ∀ c, RunsInside setup w m c → ∀ d ∈ bs, d.id ≠ c.id

variable {setup : Setup} {w : Workflow} {n b : Node} {bs : List Node} {s : Session}

theorem Fans.within_dispatch (h : Fans setup w bs) (running depth : Nat) (hb : b ∈ bs) :
    Within (SameAt bs) (dispatch (setup.services running) w depth b) := by
  refine within_dispatch_among (fun m => ∃ b ∈ bs, ReflTransGen (RunsInside setup w) b m) ?_ ?_
    (fun _ _ _ _ _ => sameAt_of_states rfl) ?_ depth ⟨b, hb, .refl⟩
  · rintro m c ⟨b, hb, hm⟩ hkind hbody
    exact ⟨b, hb, hm.tail (.body hkind hbody)⟩
  · rintro m cs c ⟨b, hb, hm⟩ hkind hcs hc
    have hinside : RunsInside setup w m c := .branch hkind cs hcs hc
    exact ⟨⟨b, hb, hm.tail hinside⟩, fun s status o => sameAt_setState s (h.apart b hb m hm c hinside) status o⟩
  · intro m depth _ hkind
    refine within_dispatch_succ (within_runNode fun kind hkind' => ?_) fun _ _ => sameAt_of_states rfl
    obtain rfl := Option.some.inj (hkind'.symm.trans hkind)
    exact within_runKind nofun nofun fun _ => within_runWait _ m (Run.within_takeSignal m.id)

theorem Results.reports {x : String} {all : Value} {results : Table String NodeResult} {t : Session}
    (h : Results x all.isPresent results t) (hall : n.config.entryOr "wait_for_all" (.bool true) = .ok all) {r : NodeResult}
    (hjoins : joinBranches all.isPresent results = .ok r) (hr : r.isWaiting = false) {o : Output}
    (ho : t.execution.state? x = some ⟨.completed, o⟩) : n.Reports r x o := by
  have hreported := reported?_of_joinBranches hjoins hr x
  refine ⟨fun v hv => ?_, fun hneeds _ => ?_⟩
  · rw [hreported, Option.map_eq_some_iff] at hv
    obtain ⟨q, hq, rfl⟩ := hv
    exact h.same o ho q hq
  · rw [needsAll, hall] at hneeds
    rw [hreported, Option.isSome_map]
    exact h.all hneeds

/-- A parallel node reports what is recorded of a branch if that is among the results of branches. -/
theorem leads_reports {services : Services} {inner : Node → Run NodeResult} {x : String}
    (hkind : NodeKind.ofNode? services n = some .parallel) (hbs : n.branchesOf w = .ok bs)
    (hruns : ∀ waitForAll t, t.execution.states = s.execution.states →
      Leads (runBranches inner (t.execution.isWaiting n.id) waitForAll [] bs) t (Results x waitForAll) fun _ _ => True) :
    Leads (runNode services w inner n) s (fun r t => r.isWaiting = false →
      ∀ o, t.execution.state? x = some ⟨.completed, o⟩ → n.Reports r x o) fun _ _ => False := by
  refine leads_runNode hkind (fun _ _ _ h => h) (fun _ _ _ h => h) ?_ fun logs => ?_
  · intro r t number hwaits _ hr
    change r.isWaiting = false at hr
    rw [hwaits] at hr
    cases hr
  · have hjoined : Leads (runParallel inner w n) { s with execution := { s.execution with logs := logs } }
        (fun r t => r.isWaiting = false → ∀ o, t.execution.state? x = some ⟨.completed, o⟩ → n.Reports r x o)
        fun _ _ => True := by
      refine leads_runParallel hbs fun all hall => (hruns all.isPresent _ ?_).mono ?_ fun _ _ h => h
      · rfl
      · exact fun results t h r hjoins hr o ho => h.reports hall hjoins hr ho
    exact hjoined.mono (fun _ _ h => h) fun fault t _ _ o _ => ⟨nofun, nofun⟩

theorem isWaiting_of_states {e f : Execution} (h : f.states = e.states) (x : String) : f.isWaiting x = e.isWaiting x := by
  rw [Execution.isWaiting, Execution.isWaiting, Execution.nodeStatus?, Execution.nodeStatus?, Execution.state?,
    Execution.state?, h]

/-- When a parallel node is done, it reports the output with which a completed branch is recorded: a branch that was
completed when the node went on, or one that was run now and that no branch runs inside it. -/
theorem dispatch_reports (hkind : NodeKind.ofNode? (setup.services 0) n = some .parallel) (hbs : n.branchesOf w = .ok bs)
    (hb : b ∈ bs) (hs : s.execution.isWaiting n.id = true ∧ s.execution.isCompleted b.id = true ∨
      Fans setup w bs ∧ s.execution.isCompleted b.id = false) (running depth : Nat) :
    Leads (dispatch (setup.services running) w depth n) s (fun r t => r.isWaiting = false →
      ∀ o, t.execution.state? b.id = some ⟨.completed, o⟩ → n.Reports r b.id o) fun _ _ => True := by
  cases depth with
  | zero => exact leads_throw trivial
  | succ depth =>
    have hkeeps (c : Node) : Within KeepsCompleted (dispatch (setup.services running) w depth c) :=
      Node.within_dispatch _ w depth c
    have hkind : NodeKind.ofNode? (setup.services running) n = some .parallel := hkind
    refine leads_dispatch (Leads.mono (leads_reports hkind hbs fun waitForAll t ht => ?_) (fun _ _ h => h)
      fun _ _ _ => trivial)
    have hstate (x : String) : t.execution.state? x = s.execution.state? x := by
      rw [Execution.state?, Execution.state?, ht]
    obtain ⟨hwaits, hcompleted⟩ | ⟨hfans, hopen⟩ := hs
    · obtain ⟨o, ho⟩ := Execution.exists_output_of_isCompleted hcompleted
      rw [isWaiting_of_states ht, hwaits]
      exact runBranches_takesOver hkeeps (List.mem_map_of_mem hb) ((hstate b.id).trans ho)
    · refine runBranches_records hb hfans.distinct (fun c hc => hfans.within_dispatch running depth hc) hkeeps ?_
      rw [Execution.isCompleted, Execution.nodeStatus?, hstate]
      exact hopen

end Node

end Flowline
