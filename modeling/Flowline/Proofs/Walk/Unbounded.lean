import Flowline.Proofs.Engine.History
import Flowline.Proofs.Node.Joins
import Flowline.Proofs.Walk.Visits
import Mathlib.Data.Finset.Card

/-! # Segments come to their end

Running nodes as a program that nothing bounds but its own counters: nodes may run others inside them to any depth, and a
loop goes on while its condition holds. It is given a number of turns, and is not over where they are not enough. Where no
node is inside itself some number of turns is enough, and running nodes down to the limit of nesting comes to the same.

A segment is a walk that runs nodes in this way. All of them come to their end, and do what the bounded ones do, where no
node is inside itself (`segments_end`). Connections may go round in cycles, and conditions of loops may hold for ever. -/

namespace Flowline
open Relation

/-- A computation in a session that may take more turns than it is given. Then it is not over, and has no outcome. -/
abbrev Unbounded := ExceptT Fault (StateT Session Option)

namespace Unbounded
variable {α β : Type}

/-- A computation that takes no turns. -/
def of (m : Run α) : Unbounded α := ExceptT.mk fun s => some (m.run.run s)

/-- No turn is left. -/
def unfinished : Unbounded α := ExceptT.mk fun _ => none

def attempt (c : Unbounded α) : Unbounded (Except Fault α) := ExceptT.mk do return .ok (← c.run)

/-- From every session the unbounded computation comes to an end, and does what the other one does. -/
def ComesTo (c : Unbounded α) (m : Run α) : Prop := ∀ s, c.run.run s = some (m.run.run s)

theorem comesTo_of (m : Run α) : (of m).ComesTo m := fun _ => rfl

theorem comesTo_pure (a : α) : (pure a : Unbounded α).ComesTo (pure a) := fun _ => rfl

theorem run_bind (c : Unbounded α) (f : α → Unbounded β) (s : Session) :
    (c >>= f).run.run s = (c.run.run s).bind fun
      | (.ok a, t) => (f a).run.run t
      | (.error fault, t) => some (.error fault, t) := by
  change (c.run.run s).bind _ = (c.run.run s).bind _
  congr
  funext ⟨r, t⟩
  cases r <;> rfl

/-- A computation goes on from what the first part of it gives. -/
theorem ComesTo.bind_gives {R : Session → Session → Prop} {P : α → Prop} {c : Unbounded α} {m : Run α} {f : α → Unbounded β}
    {g : α → Run β} (hc : c.ComesTo m) (hm : Gives R P m) (hf : ∀ a, P a → (f a).ComesTo (g a)) :
    (c >>= f).ComesTo (m >>= g) := by
  intro s
  have hresult (a : α) := hm.result_of (s := s) (a := a)
  rw [run_bind, Flowline.run_bind, hc s, Option.bind_some]
  rcases hrun : m.run.run s with ⟨fault | a, t⟩
  · rfl
  · exact hf a (hresult a (by rw [hrun])) t

theorem ComesTo.bind {c : Unbounded α} {m : Run α} {f : α → Unbounded β} {g : α → Run β} (hc : c.ComesTo m)
    (hf : ∀ a, (f a).ComesTo (g a)) : (c >>= f).ComesTo (m >>= g) :=
  hc.bind_gives (R := fun _ _ => True) (P := fun _ => True)
    (fun _ => leads_trivial.mono (fun _ _ _ => ⟨trivial, trivial⟩) fun _ _ _ => trivial) fun a _ => hf a

theorem ComesTo.read {r : Except Fault α} {f : α → Unbounded β} {g : α → Run β} (hf : ∀ a, r = .ok a → (f a).ComesTo (g a)) :
    (of (Run.of r) >>= f).ComesTo (Run.of r >>= g) := by
  cases r with
  | ok a => exact hf a rfl
  | error fault => exact fun _ => rfl

theorem ComesTo.attempt {c : Unbounded α} {m : Run α} (hc : c.ComesTo m) : c.attempt.ComesTo (Run.attempt m) := by
  intro s
  have hrun : c.run.run s = some (m.run.run s) := hc s
  change (c.run.run s).bind (fun p => some (Except.ok p.1, p.2)) = _
  rw [hrun]
  rfl

theorem ComesTo.ite {c d : Unbounded α} {m k : Run α} {p : Prop} [Decidable p] (hc : c.ComesTo m) (hd : d.ComesTo k) :
    (if p then c else d).ComesTo (if p then m else k) := by
  split
  · exact hc
  · exact hd

/-! ## Loops -/

section Inner
variable (inner : Node → Unbounded NodeResult)

def runBody (body? : Option Node) (index : Nat) : Unbounded (Output × Option NodeResult) := do
  match body? with
  | none => return (.empty, none)
  | some body =>
    let r ← inner body
    if r.isWaiting then
      return (r.output, some (.failure s!"Loop iteration {index} cannot suspend on node '{body.id}'"))
    else if r.isFailed then
      let reason := r.error?.getD "None"
      return (r.output, some (.failure s!"Loop iteration {index} failed: {reason}"))
    else return (r.output, none)

def loopItems (body? : Option Node) (names : Node.LoopNames) (results : List Output) :
    List (Value × Value) → Unbounded NodeResult
  | [] => return Node.loopResult results
  | (key, item) :: rest => do
    of (Run.setNamed names.item item)
    of (Run.setNamed names.index (.ofNat results.length))
    of (Run.setNamed names.key key)
    let (output, failure?) ← runBody inner body? results.length
    match failure? with
    | some failure => return failure
    | none => loopItems body? names (results ++ [output]) rest

def loopTimes (body? : Option Node) (results : List Output) : Nat → Unbounded NodeResult
  | 0 => return Node.loopResult results
  | left + 1 => do
    of (Run.setVariable (.str "loop_index") (.ofNat results.length))
    let (output, failure?) ← runBody inner body? results.length
    match failure? with
    | some failure => return failure
    | none => loopTimes body? (results ++ [output]) left

/-- Runs a body as long as a condition holds. The loop ends when the body was run a number of times, too. -/
def loopWhile (body? : Option Node) (condition : Value) (most : Int) : Nat → List Output → Unbounded NodeResult
  | 0, _ => unfinished
  | turns + 1, results => do
    if ← of (Run.check condition) then
      if most ≤ results.length then return Node.loopResult results
      else
        of (Run.setVariable (.str "loop_index") (.ofNat results.length))
        let (output, failure?) ← runBody inner body? results.length
        match failure? with
        | some failure => return failure
        | none => loopWhile body? condition most turns (results ++ [output])
    else return Node.loopResult results

def runLoop (turns : Nat) (w : Workflow) (n : Node) : Unbounded NodeResult := do
  let type ← of (Run.of (n.config.entryOr "type" (.str "foreach")))
  let most ← of (Run.of (n.config.entryOr "max_iterations" (.int 1000)))
  let most ← of (Run.of most.toWhole)
  let bodyId ← of (Run.of (n.config.entry "body_node"))
  let body? := if bodyId.isPresent then w.nodeOf? bodyId else none
  match type with
  | .str "foreach" =>
    let items ← of (Run.of (n.config.entryOr "items" (.list [])))
    let items ← of (Run.resolve items)
    match Node.keyedItems? items with
    | none => return .failure "Loop items must be an array"
    | some pairs =>
      let item ← of (Run.of (n.config.entryOr "item_variable" (.str "item")))
      let index ← of (Run.of (n.config.entryOr "index_variable" (.str "index")))
      let key ← of (Run.of (n.config.entryOr "key_variable" (.str "loop_key")))
      loopItems inner body? ⟨item, index, key⟩ [] (pairs.take most.toNat)
  | .str "while" =>
    let condition ← of (Run.of (n.config.entryOr "condition" (.str "false")))
    loopWhile inner body? condition most turns []
  | .str "times" =>
    let times ← of (Run.of (n.config.entryOr "times" (.int 1)))
    let times ← of (Run.resolve times)
    let times ← of (Run.of times.toWhole)
    loopTimes inner body? [] (min times most).toNat
  | type => return .failure s!"Unknown loop type: {type.text}"

/-! ## Parallel nodes -/

def runBranch (resuming : Bool) (branch : Node) : Unbounded NodeResult := do
  let e ← of Run.execution
  match if resuming && e.isCompleted branch.id then e.state? branch.id else none with
  | some s => return .ok s.output .null
  | none =>
    let r ← inner branch
    of (Run.modifyExecution (·.setState branch.id r.status r.output))
    return r

def runBranches (resuming waitForAll : Bool) (results : Table String NodeResult) :
    List Node → Unbounded (Table String NodeResult)
  | [] => return results
  | branch :: rest => do
    let r ← runBranch inner resuming branch
    if !waitForAll && r.isFinished then return results.put branch.id r
    else runBranches resuming waitForAll (results.put branch.id r) rest

def runParallel (w : Workflow) (n : Node) : Unbounded NodeResult := do
  let branches ← of (Run.of (n.config.entry "branches"))
  let waitForAll ← of (Run.of (n.config.entryOr "wait_for_all" (.bool true)))
  let most ← of (Run.of (w.settingOr (.str "max_parallel_branches") (.int 5)).toWhole)
  let e ← of Run.execution
  let ids ← of (Run.of (Node.firstItems (branches.orElse (.list [])) most))
  let results ← runBranches inner (e.isWaiting n.id) waitForAll.isPresent [] (ids.filterMap w.nodeOf?)
  of (Run.of (Node.joinBranches waitForAll.isPresent results))

/-! ## Dispatch -/

def runKind (services : Services) (turns : Nat) (w : Workflow) (n : Node) : NodeKind → Unbounded NodeResult
  | .loop => runLoop inner turns w n
  | .parallel => runParallel inner w n
  | kind => of (Node.runKind services w (fun m => throw (.unknownNodeType m.type)) n kind)

def runNode (services : Services) (turns : Nat) (w : Workflow) (n : Node) : Unbounded NodeResult := do
  of (Run.note "debug" s!"Executing node: {n.id}" [("type", .str n.type), ("config", n.config)])
  match NodeKind.ofNode? services n with
  | none => of (throw (.unknownNodeType n.type))
  | some kind =>
    match ← (runKind inner services turns w n kind).attempt with
    | .ok r => of (Node.numbered r)
    | .error fault => of (n.failed fault)

end Inner

/-- Runs a node, and others inside it as deep as they are inside each other, and keeps what came of it. -/
def dispatch (services : Services) (w : Workflow) : Nat → Node → Unbounded NodeResult
  | 0, _ => unfinished
  | turns + 1, n => do
    let r ← runNode (dispatch services w turns) services turns w n
    of (Run.modifyExecution (·.ran n r))
    return r

/-! ## Computations that come to their end -/

section Inner
variable {inner : Node → Unbounded NodeResult} {inner' : Node → Run NodeResult}

section Loops
variable {body? : Option Node} (hbody : ∀ b, body? = some b → (inner b).ComesTo (inner' b))
include hbody

theorem comesTo_runBody (index : Nat) : (runBody inner body? index).ComesTo (Node.runBody inner' body? index) := by
  cases body? with
  | none => exact comesTo_pure _
  | some body =>
    refine (hbody body rfl).bind fun r => ?_
    dsimp only
    split
    · exact comesTo_pure _
    · split
      · exact comesTo_pure _
      · exact comesTo_pure _

theorem comesTo_loopItems (names : Node.LoopNames) (results : List Output) (pairs : List (Value × Value)) :
    (loopItems inner body? names results pairs).ComesTo (Node.loopItems inner' body? names results pairs) := by
  induction pairs generalizing results with
  | nil => exact comesTo_pure _
  | cons pair rest ih =>
    refine (comesTo_of _).bind fun _ => (comesTo_of _).bind fun _ => (comesTo_of _).bind fun _ => ?_
    refine (comesTo_runBody hbody _).bind fun ⟨output, failure?⟩ => ?_
    cases failure? with
    | some failure => exact comesTo_pure _
    | none => exact ih _

theorem comesTo_loopTimes (results : List Output) (left : Nat) :
    (loopTimes inner body? results left).ComesTo (Node.loopTimes inner' body? results left) := by
  induction left generalizing results with
  | zero => exact comesTo_pure _
  | succ left ih =>
    refine (comesTo_of _).bind fun _ => (comesTo_runBody hbody _).bind fun ⟨output, failure?⟩ => ?_
    cases failure? with
    | some failure => exact comesTo_pure _
    | none => exact ih _

/-- A loop ends after as many runs of its body as it may have, even if its condition goes on holding. -/
theorem comesTo_loopWhile (condition : Value) {most : Int} {left turns : Nat} {results : List Output}
    (hleft : left = (most - results.length).toNat) (hturns : left < turns) :
    (loopWhile inner body? condition most turns results).ComesTo (Node.loopWhile inner' body? condition results left) := by
  induction left generalizing results turns with
  | zero =>
    obtain ⟨turns, rfl⟩ : ∃ k, turns = k + 1 := ⟨turns - 1, by omega⟩
    refine (comesTo_of _).bind fun held => ?_
    rw [if_pos (by omega : most ≤ results.length)]
    split <;> exact comesTo_pure _
  | succ left ih =>
    obtain ⟨turns, rfl⟩ : ∃ k, turns = k + 1 := ⟨turns - 1, by omega⟩
    refine (comesTo_of _).bind fun held => ComesTo.ite ?_ (comesTo_pure _)
    rw [if_neg (by omega : ¬ most ≤ results.length)]
    refine (comesTo_of _).bind fun _ => (comesTo_runBody hbody _).bind fun ⟨output, failure?⟩ => ?_
    cases failure? with
    | some failure => exact comesTo_pure _
    | none => exact ih (by rw [List.length_append, List.length_singleton]; omega) (by omega)

end Loops

/-- How often the body of a loop is run at most. -/
def mostOf (n : Node) : Nat :=
  match n.config.entryOr "max_iterations" (.int 1000) >>= Value.toWhole with
  | .ok most => most.toNat
  | .error _ => 0

theorem comesTo_runLoop {turns : Nat} {w : Workflow} {n : Node}
    (hbody : ∀ b, n.bodyOf? w = .ok (some b) → (inner b).ComesTo (inner' b)) (hturns : mostOf n < turns) :
    (runLoop inner turns w n).ComesTo (Node.runLoop inner' w n) := by
  refine ComesTo.read fun type _ => ComesTo.read fun limit hlimit => ComesTo.read fun most hmost => ?_
  refine ComesTo.read fun bodyId hbodyId => ?_
  have hleft : most.toNat < turns := by
    rw [mostOf, hlimit] at hturns
    change (match limit.toWhole with | .ok most => most.toNat | .error _ => 0) < turns at hturns
    rwa [hmost] at hturns
  have hbody : ∀ b, (if bodyId.isPresent = true then w.nodeOf? bodyId else none) = some b →
      (inner b).ComesTo (inner' b) := by
    refine fun b hb => hbody b ?_
    simp only [Node.bodyOf?, hbodyId, bind, Except.bind, pure, Except.pure, hb]
  dsimp only
  generalize (if bodyId.isPresent = true then w.nodeOf? bodyId else none) = body? at hbody ⊢
  split
  · refine (comesTo_of _).bind fun v => (comesTo_of _).bind fun items => ?_
    cases Node.keyedItems? items with
    | none => exact comesTo_pure _
    | some pairs =>
      refine (comesTo_of _).bind fun item => (comesTo_of _).bind fun index => (comesTo_of _).bind fun key => ?_
      exact comesTo_loopItems hbody _ _ _
  · exact (comesTo_of _).bind fun condition => comesTo_loopWhile hbody condition (by simp) hleft
  · refine (comesTo_of _).bind fun v => (comesTo_of _).bind fun times => (comesTo_of _).bind fun count => ?_
    exact comesTo_loopTimes hbody _ _
  · next hforeach hwhile htimes =>
    simpa only [hforeach, hwhile, htimes] using comesTo_pure (NodeResult.failure s!"Unknown loop type: {type.text}")

theorem comesTo_runBranch (resuming : Bool) {branch : Node} (hbranch : (inner branch).ComesTo (inner' branch)) :
    (runBranch inner resuming branch).ComesTo (Node.runBranch inner' resuming branch) := by
  refine (comesTo_of _).bind fun e => ?_
  generalize (if (resuming && e.isCompleted branch.id) = true then e.state? branch.id else none) = state?
  cases state? with
  | some s => exact comesTo_pure _
  | none => exact hbranch.bind fun r => (comesTo_of _).bind fun _ => comesTo_pure r

theorem comesTo_runBranches (resuming waitForAll : Bool) (results : Table String NodeResult) {branches : List Node}
    (hbranches : ∀ b ∈ branches, (inner b).ComesTo (inner' b)) :
    (runBranches inner resuming waitForAll results branches).ComesTo
      (Node.runBranches inner' resuming waitForAll results branches) := by
  induction branches generalizing results with
  | nil => exact comesTo_pure _
  | cons branch rest ih =>
    obtain ⟨hbranch, hrest⟩ := List.forall_mem_cons.1 hbranches
    exact (comesTo_runBranch resuming hbranch).bind fun r => ComesTo.ite (comesTo_pure _) (ih _ hrest)

theorem comesTo_runParallel {w : Workflow} {n : Node}
    (hbranches : ∀ bs, n.branchesOf w = .ok bs → ∀ b ∈ bs, (inner b).ComesTo (inner' b)) :
    (runParallel inner w n).ComesTo (Node.runParallel inner' w n) := by
  refine ComesTo.read fun listed hlisted => (comesTo_of _).bind fun joined => ComesTo.read fun most hmost => ?_
  refine (comesTo_of _).bind fun e => ComesTo.read fun ids hids => ?_
  refine (comesTo_runBranches _ _ _ (hbranches _ ?_)).bind fun results => comesTo_of _
  simp only [Node.branchesOf, hlisted, hmost, hids, bind, Except.bind, pure, Except.pure]

variable {services : Services} {turns : Nat} {w : Workflow} {n : Node}

theorem comesTo_runKind {kind : NodeKind}
    (hbody : kind = .loop → ∀ b, n.bodyOf? w = .ok (some b) → (inner b).ComesTo (inner' b))
    (hbranches : kind = .parallel → ∀ bs, n.branchesOf w = .ok bs → ∀ b ∈ bs, (inner b).ComesTo (inner' b))
    (hturns : mostOf n < turns) :
    (runKind inner services turns w n kind).ComesTo (Node.runKind services w inner' n kind) := by
  cases kind with
  | loop => exact comesTo_runLoop (hbody rfl) hturns
  | parallel => exact comesTo_runParallel (hbranches rfl)
  | _ => exact comesTo_of _

/-- Running a node comes to its end if running those inside it does. -/
theorem comesTo_runNode {setup : Setup} {running : Nat}
    (hinside : ∀ b, Node.RunsInside setup w n b → (inner b).ComesTo (inner' b)) (hturns : mostOf n < turns) :
    (runNode inner (setup.services running) turns w n).ComesTo (Node.runNode (setup.services running) w inner' n) := by
  refine (comesTo_of _).bind fun _ => ?_
  cases hkind : NodeKind.ofNode? (setup.services running) n with
  | none => exact comesTo_of _
  | some kind =>
    refine (ComesTo.attempt (comesTo_runKind ?_ ?_ hturns)).bind fun result => ?_
    · rintro rfl b hb
      exact hinside b (.body hkind hb)
    · rintro rfl bs hbs b hb
      exact hinside b (.branch hkind bs hbs hb)
    · cases result with
      | ok r => exact comesTo_of _
      | error fault => exact comesTo_of _

end Inner

/-! ## Nodes that are not inside themselves -/

open scoped Classical in
/-- How many nodes of a workflow are inside a node. -/
noncomputable def nested (setup : Setup) (w : Workflow) (n : Node) : Nat :=
  (w.nodes.toFinset.filter fun m => TransGen (Node.RunsInside setup w) n m).card

variable {setup : Setup} {w : Workflow} {n b : Node}

theorem nested_le (setup : Setup) (w : Workflow) (n : Node) : nested setup w n ≤ w.nodes.length := by
  classical
  exact (Finset.card_filter_le _ _).trans (List.toFinset_card_le _)

theorem nested_lt (hacyclic : ∀ m ∈ w.nodes, ¬ TransGen (Node.RunsInside setup w) m m)
    (h : Node.RunsInside setup w n b) : nested setup w b < nested setup w n := by
  classical
  have hb : b ∈ w.nodes := h.mem
  refine Finset.card_lt_card ((Finset.ssubset_iff_of_subset ?_).2 ⟨b, ?_, ?_⟩)
  · intro m hm
    obtain ⟨hmem, hinside⟩ := Finset.mem_filter.1 hm
    exact Finset.mem_filter.2 ⟨hmem, hinside.head h⟩
  · exact Finset.mem_filter.2 ⟨List.mem_toFinset.2 hb, .single h⟩
  · exact fun hself => hacyclic b hb (Finset.mem_filter.1 hself).2

/-- What holds of each of some items from some number on holds of all of them from some number on. -/
theorem exists_forall_of_le (xs : List α) {P : α → Nat → Prop} (h : ∀ x ∈ xs, ∃ k, ∀ j, k ≤ j → P x j) :
    ∃ k, ∀ x ∈ xs, ∀ j, k ≤ j → P x j := by
  induction xs with
  | nil => exact ⟨0, nofun⟩
  | cons x rest ih =>
    obtain ⟨hx, hrest⟩ := List.forall_mem_cons.1 h
    obtain ⟨k, hk⟩ := hx
    obtain ⟨l, hl⟩ := ih hrest
    refine ⟨max k l, List.forall_mem_cons.2 ⟨fun j hj => hk j (by omega), fun y hy j hj => hl y hy j (by omega)⟩⟩

/-- A node inside which there are fewer nodes than it may have inside each other comes to its end. The induction is on how
deep nodes may be inside each other. -/
theorem exists_turns (hacyclic : ∀ m ∈ w.nodes, ¬ TransGen (Node.RunsInside setup w) m m) (running : Nat) {depth : Nat}
    {n : Node} (hdepth : nested setup w n < depth) : ∃ turns, ∀ more, turns ≤ more →
      (dispatch (setup.services running) w more n).ComesTo (Node.dispatch (setup.services running) w depth n) := by
  induction depth generalizing n with
  | zero => exact absurd hdepth (Nat.not_lt_zero _)
  | succ depth ih =>
    have hinside : ∃ turns, ∀ b ∈ w.nodes, ∀ more, turns ≤ more → Node.RunsInside setup w n b →
        (dispatch (setup.services running) w more b).ComesTo (Node.dispatch (setup.services running) w depth b) := by
      refine exists_forall_of_le _ fun b _ => ?_
      by_cases hb : Node.RunsInside setup w n b
      · obtain ⟨turns, hturns⟩ := ih (Nat.lt_of_lt_of_le (nested_lt hacyclic hb) (Nat.le_of_lt_succ hdepth))
        exact ⟨turns, fun more hmore _ => hturns more hmore⟩
      · exact ⟨0, fun _ _ h => absurd h hb⟩
    obtain ⟨turns, hturns⟩ := hinside
    refine ⟨max turns (mostOf n + 1) + 1, fun more hmore => ?_⟩
    obtain ⟨more, rfl⟩ : ∃ k, more = k + 1 := ⟨more - 1, by omega⟩
    refine ComesTo.bind ?_ fun r => (comesTo_of _).bind fun _ => comesTo_pure r
    exact comesTo_runNode (fun b hb => hturns b hb.mem more (by omega) hb) (by omega)

end Unbounded

/-! ## Walks -/

namespace Unbounded

def visit (dispatch : Node → Unbounded NodeResult) (n : Node) : Unbounded NodeResult := do
  of (Run.modifyExecution (·.visit n.id))
  let r ← dispatch n
  of (Run.modifyExecution (·.setState n.id r.status r.output))
  of (do
    if r.isFailed then throw (.nodeFailed n.id (Walk.failureReason r))
    return r)

/-- Takes nodes from the queue until there are none. The walk counts how many it has taken. -/
def go (dispatch : Node → Unbounded NodeResult) (w : Workflow) (limits : Walk.Limits) (begun : Float) :
    Nat → Nat → Walk → List Node → Unbounded Walk
  | 0, _, _, _ => unfinished
  | _ + 1, _, walk, [] => return walk
  | turns + 1, taken, walk, n :: rest => do
    if limits.iterations ≤ taken then of (throw (.tooManyIterations (toString limits.iterations)))
    else if walk.skips n then go dispatch w limits begun turns (taken + 1) walk rest
    else if (← of Run.execution).status == .cancelled then return { walk with cancelled := true }
    else
      of (Walk.checkTime limits begun)
      let r ← visit dispatch n
      let queue ← of (Walk.follow w n r rest)
      go dispatch w limits begun turns (taken + 1) (walk.record n r) queue

def walk (services : Services) (w : Workflow) (iterations : Int) (turns : Nat) (starts : List Node) : Unbounded Walk := do
  let timeout ← of (Run.of (w.setting "timeout_seconds").asFloat)
  let begun ← of Run.readStopwatch
  go (dispatch services w turns) w ⟨iterations, timeout⟩ begun turns 0 .start starts

variable {w : Workflow} {inner : Node → Unbounded NodeResult} {inner' : Node → Run NodeResult}

theorem comesTo_visit {n : Node} (hn : (inner n).ComesTo (inner' n)) : (visit inner n).ComesTo (Walk.visit inner' n) :=
  (comesTo_of _).bind fun _ => hn.bind fun _ => (comesTo_of _).bind fun _ => comesTo_of _

/-- A walk ends after as many turns as it may take nodes from its queue still, and one more. -/
theorem comesTo_go {nodes : List Node} (hinner : ∀ n ∈ nodes, (inner n).ComesTo (inner' n))
    (hnodes : ∀ n ∈ w.nodes, n ∈ nodes) (limits : Walk.Limits) (begun : Float) {left turns taken : Nat} {walk : Walk}
    {queue : List Node} (hqueue : ∀ n ∈ queue, n ∈ nodes) (hleft : left = (limits.iterations - taken).toNat)
    (hturns : left < turns) :
    (go inner w limits begun turns taken walk queue).ComesTo (Walk.go inner' w limits begun left walk queue) := by
  -- the one program counts up what it takes, the other one counts down what is left
  induction left generalizing turns taken walk queue with
  | zero =>
    obtain ⟨turns, rfl⟩ : ∃ k, turns = k + 1 := ⟨turns - 1, by omega⟩
    cases queue with
    | nil => exact comesTo_pure _
    | cons n rest =>
      rw [go, if_pos (by omega : limits.iterations ≤ taken)]
      exact comesTo_of _
  | succ left ih =>
    obtain ⟨turns, rfl⟩ : ∃ k, turns = k + 1 := ⟨turns - 1, by omega⟩
    cases queue with
    | nil => exact comesTo_pure _
    | cons n rest =>
      obtain ⟨hn, hrest⟩ := List.forall_mem_cons.1 hqueue
      rw [go, if_neg (by omega : ¬ limits.iterations ≤ taken), Walk.go]
      refine ComesTo.ite (ih hrest (by omega) (by omega)) ((comesTo_of _).bind fun e => ?_)
      refine ComesTo.ite (comesTo_pure _) ((comesTo_of _).bind fun _ => ?_)
      refine (comesTo_visit (hinner n hn)).bind fun r => ?_
      refine (comesTo_of _).bind_gives (Walk.gives_follow w n r rest) fun next hnext => ?_
      refine ih (fun m hm => ?_) (by omega) (by omega)
      obtain hm | ⟨c, -, hm⟩ | ⟨-, hm⟩ := hnext m hm
      · exact hrest m hm
      · exact hnodes m (List.mem_of_find?_eq_some hm)
      · exact hnodes m (Workflow.mem_of_nodeOf? hm)

end Unbounded

/-! ## Segments -/

/-- Every segment comes to its end where no node is inside itself as the body of a loop or as a branch, from every session:
running a node, and walking from any nodes on with any limit of the nodes that are taken. Connections may go round in
cycles, also through merges, loops may have conditions that hold for ever, and be inside branches inside loops. -/
theorem segments_end {setup : Setup} {w : Workflow} (hnested : ∀ n ∈ w.nodes, ¬ TransGen (Node.RunsInside setup w) n n)
    (running : Nat) :
    (∀ n, ∃ turns, ∀ more, turns ≤ more → (Unbounded.dispatch (setup.services running) w more n).ComesTo
      (Node.dispatch (setup.services running) w (Node.nestingLimit w) n)) ∧
    ∀ iterations starts, ∃ turns, ∀ more, turns ≤ more →
      (Unbounded.walk (setup.services running) w iterations more starts).ComesTo
        (Walk.run (Node.dispatch (setup.services running) w (Node.nestingLimit w)) w iterations starts) := by
  have hnodes (n : Node) : ∃ turns, ∀ more, turns ≤ more → (Unbounded.dispatch (setup.services running) w more n).ComesTo
      (Node.dispatch (setup.services running) w (Node.nestingLimit w) n) :=
    Unbounded.exists_turns hnested running (Nat.lt_succ_of_le (Unbounded.nested_le setup w n))
  refine ⟨hnodes, fun iterations starts => ?_⟩
  obtain ⟨turns, hturns⟩ := Unbounded.exists_forall_of_le (starts ++ w.nodes) fun n _ => hnodes n
  refine ⟨max turns (iterations.toNat + 1), fun more hmore => ?_⟩
  refine (Unbounded.comesTo_of _).bind fun timeout => (Unbounded.comesTo_of _).bind fun begun => ?_
  exact Unbounded.comesTo_go (fun n hn => hturns n hn more (by omega)) (fun n hn => List.mem_append_right _ hn) _ begun
    (fun n hn => List.mem_append_left _ hn) (by simp) (by omega)

/-- The nodes that a node names as ones to be run inside it. -/
def Node.namesInside (w : Workflow) (n : Node) : List Node :=
  (n.bodyOf? w).toOption.join.toList ++ (n.branchesOf w).toOption.getD []

theorem Node.RunsInside.mem_namesInside {setup : Setup} {w : Workflow} {n b : Node} (h : RunsInside setup w n b) :
    b ∈ n.namesInside w := by
  rw [namesInside, List.mem_append]
  cases h with
  | body _ hbody =>
    rw [hbody]
    exact .inl (List.mem_singleton.2 rfl)
  | branch _ bs hbs hb =>
    rw [hbs]
    exact .inr hb

/-- No node is inside itself if nodes have ranks, and name only nodes of lower ranks to be run inside them. -/
theorem Workflow.not_inside_self (w : Workflow) (rank : Node → Nat)
    (hrank : ∀ n ∈ w.nodes, ∀ b ∈ n.namesInside w, rank b < rank n) (setup : Setup) :
    ∀ n ∈ w.nodes, ¬ TransGen (Node.RunsInside setup w) n n := by
  have hbelow {n b : Node} (hn : n ∈ w.nodes) (h : TransGen (Node.RunsInside setup w) n b) :
      b ∈ w.nodes ∧ rank b < rank n := by
    induction h with
    | single h => exact ⟨h.mem, hrank n hn _ h.mem_namesInside⟩
    | tail _ h ih => exact ⟨h.mem, (hrank _ ih.1 _ h.mem_namesInside).trans ih.2⟩
  exact fun n hn h => absurd (hbelow hn h).2 (Nat.lt_irrefl _)

/-- A loop whose condition always holds, in a branch inside another loop, and a merge that this one leads back to. -/
def spinning : Workflow := .ofNodes
  [⟨"join", "merge", .map [], .null, .null⟩,
    ⟨"outer", "loop", .object [("type", .str "times"), ("times", .int 2), ("body_node", .str "both")], .null, .null⟩,
    ⟨"both", "parallel", .object [("branches", Value.strings ["spin", "step"])], .null, .null⟩,
    ⟨"spin", "loop", .object [("type", .str "while"), ("condition", .str "true"), ("max_iterations", .int 3),
      ("body_node", .str "step")], .null, .null⟩,
    ⟨"step", "set_variable", .object [("variable", .str "x"), ("value", .int 1)], .null, .null⟩]
  [⟨"join", "outer", .null, .null⟩, ⟨"outer", "join", .null, .null⟩] []

theorem segments_end_spinning :
    ∃ turns, ∀ more, turns ≤ more →
      (Unbounded.walk ((Setup.ofActions []).services 0) spinning 50 more (spinning.nodes.take 1)).ComesTo
        (Walk.run (Node.dispatch ((Setup.ofActions []).services 0) spinning (Node.nestingLimit spinning)) spinning 50
          (spinning.nodes.take 1)) :=
  (segments_end (Workflow.not_inside_self spinning (fun n => ["step", "spin", "both", "outer"].idxOf n.id)
    (by decide) _) 0).2 50 _

end Flowline
