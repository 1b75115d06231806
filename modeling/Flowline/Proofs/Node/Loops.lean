import Flowline.Node.Dispatch
import Flowline.Proofs.Node.Effect
import Flowline.Proofs.Node.Frame
import Flowline.Proofs.Session.Leads
import Flowline.Proofs.Value.Entries

/-! # Loops

A loop goes round in laps: it sets its variables, runs its body in the session with them, and goes on from the session
that the body leaves. What a loop is over is its plan, read when it starts; when a lap begins and when the loop is done
is said of plans of all three kinds (`Plan.Begins`, `Plan.Done`), and one step lemma for a lap (`Laps.ends_turn`)
carries the inductions over them. The loop ends after its laps, or in one whose body waits or fails
(`loop_runs_in_laps`). The body and the condition may change whatever variables they like. -/

namespace Flowline

namespace Session

/-- The session with a variable. -/
def withVariable (s : Session) (name : String) (v : Value) : Session :=
  { s with execution := s.execution.setVariable (.str name) v }

/-- The session with the variables for an entry: its value, its place and its key. -/
def withEntry (s : Session) (item index key : String) (i : Nat) (k v : Value) : Session :=
  ((s.withVariable item v).withVariable index (.ofNat i)).withVariable key k

/-- The value of a variable. -/
def named? (s : Session) (name : String) : Option Value := s.execution.variableNamed (.str name)

/-- Whether a condition holds for the variables. -/
def test (s : Session) (condition : Value) : Except Fault Bool :=
  (Condition.ofNodeValue condition).holds (Language.standard s.now) s.execution.scope

theorem named?_withVariable_self (s : Session) (name : String) (v : Value) :
    (s.withVariable name v).named? name = some v :=
  Entries.get?_insert_self ..

theorem named?_withVariable_of_ne (s : Session) {name other : String} (v : Value) (h : name ≠ other) :
    (s.withVariable name v).named? other = s.named? other :=
  Entries.get?_insert_of_ne _ _ fun heq => h (Scalar.str.inj heq)

end Session

namespace Node

/-! ## Plans -/

/-- What a loop goes over: the entries of a collection, as long as a condition holds, or a number of times; and how
often at most. -/
inductive Plan
  | items (collection : Value) (item index key : String) (most : Int)
  | condition (condition : Value) (most : Int)
  | times (count most : Int)

/-- The entry of a list or mapping at a place: the key that it is under, which is the place in a list, and the value. -/
inductive EntryAt : Value → Nat → Value → Value → Prop
  | item {items : List Value} {i : Nat} {v : Value} (h : items[i]? = some v) : EntryAt (.list items) i (.ofNat i) v
  | entry {entries : List (Scalar × Value)} {i : Nat} {k : Scalar} {v : Value} (h : entries[i]? = some (k, v)) :
    EntryAt (.map entries) i (.scalar k) v

/-- A lap begins in a session, and its body finds another one, with the variables of the lap. -/
inductive Plan.Begins : Plan → Nat → Session → Session → Prop
  | items {collection item index key most k v s} {i : Nat} (hmost : (i : Int) < most) (h : EntryAt collection i k v) :
    Begins (.items collection item index key most) i s (s.withEntry item index key i k v)
  | condition {condition most s} {i : Nat} (hmost : (i : Int) < most) (h : s.test condition = .ok true) :
    Begins (.condition condition most) i s (s.withVariable "loop_index" (.ofNat i))
  | times {count most s} {i : Nat} (hcount : (i : Int) < count) (hmost : (i : Int) < most) :
    Begins (.times count most) i s (s.withVariable "loop_index" (.ofNat i))

/-- The loop is done after a number of laps. A limit below zero is one of zero. -/
inductive Plan.Done : Plan → Nat → Session → Prop
  | items {collection item index key most s} :
    Done (.items collection item index key most) (min collection.members.length most.toNat) s
  | unheld {condition most k s} (h : s.test condition = .ok false) : Done (.condition condition most) k s
  | capped {condition most s} (h : s.test condition = .ok true) : Done (.condition condition most) most.toNat s
  | times {count most s} : Done (.times count most) (min count most).toNat s

/-- The condition of the loop has a fault. -/
inductive Plan.Unclear : Plan → Fault → Session → Prop
  | condition {condition most fault s} (h : s.test condition = .error fault) :
    Unclear (.condition condition most) fault s

/-- What the variables of a lap are. -/
def Plan.Binds : Plan → Nat → Session → Prop
  | .items collection item index key _, i, s => ∃ k v, EntryAt collection i k v ∧
    s.named? item = some v ∧ s.named? index = some (.ofNat i) ∧ s.named? key = some k
  | _, i, s => s.named? "loop_index" = some (.ofNat i)

/-- The variables of a loop over a collection have different names. -/
def Plan.Apart : Plan → Prop
  | .items _ item index key _ => item ≠ index ∧ item ≠ key ∧ index ≠ key
  | _ => True

theorem Plan.Begins.binds {plan : Plan} {i : Nat} {s t : Session} (h : plan.Begins i s t) (hnames : plan.Apart) :
    plan.Binds i t := by
  cases h with
  | items _ h =>
    obtain ⟨hplace, hitem, hindex⟩ := hnames
    refine ⟨_, _, h, ?_, ?_, Session.named?_withVariable_self ..⟩ <;> rw [Session.withEntry]
    · rw [Session.named?_withVariable_of_ne _ _ hitem.symm, Session.named?_withVariable_of_ne _ _ hplace.symm,
        Session.named?_withVariable_self]
    · rw [Session.named?_withVariable_of_ne _ _ hindex.symm, Session.named?_withVariable_self]
  | condition | times => exact Session.named?_withVariable_self ..

/-! ## Laps -/

/-- A lap: the session that the body finds, its output, and the session that it leaves. -/
structure Lap where
  entered : Session
  output : Output
  left : Session

section Laps
variable (inner : Node → Run NodeResult) (body? : Option Node) (plan : Plan) (s : Session)

/-- Laps one after the other, the first of them from a session, and all of them with a body that neither waits nor
fails. Without a body there is nothing to run, and the output is empty. -/
inductive Laps : List Lap → Session → Prop
  | nil : Laps [] s
  | bare {laps t e} (h : Laps laps t) (hbegins : plan.Begins laps.length t e) (hbody : body? = none) :
    Laps (laps ++ [⟨e, .empty, e⟩]) e
  | body {laps t e b r u} (h : Laps laps t) (hbegins : plan.Begins laps.length t e) (hbody : body? = some b)
    (hrun : (inner b).run.run e = (.ok r, u)) (hfinished : r.isFinished = true) : Laps (laps ++ [⟨e, r.output, u⟩]) u

/-- The failure of a loop in a lap whose body waits or fails. -/
def brokenLap (i : Nat) (body : Node) (r : NodeResult) : NodeResult :=
  if r.isWaiting then .failure s!"Loop iteration {i} cannot suspend on node '{body.id}'"
  else
    let reason := r.error?.getD "None"
    .failure s!"Loop iteration {i} failed: {reason}"

/-- How a loop ends: after all of its laps, or in the first one in which its body waits or fails, or has no result,
or where its condition has a fault. -/
inductive Ends : Except Fault NodeResult × Session → Prop
  | completed {laps t} (h : Laps inner body? plan s laps t) (hdone : plan.Done laps.length t) :
    Ends (.ok (loopResult (laps.map Lap.output)), t)
  | broken {laps t e b r u} (h : Laps inner body? plan s laps t) (hbegins : plan.Begins laps.length t e)
    (hbody : body? = some b) (hrun : (inner b).run.run e = (.ok r, u)) (hbroken : r.isFinished = false) :
    Ends (.ok (brokenLap laps.length b r), u)
  | stuck {laps t e b fault u} (h : Laps inner body? plan s laps t) (hbegins : plan.Begins laps.length t e)
    (hbody : body? = some b) (hrun : (inner b).run.run e = (.error fault, u)) : Ends (.error fault, u)
  | unclear {laps t fault} (h : Laps inner body? plan s laps t) (hunclear : plan.Unclear fault t) :
    Ends (.error fault, t)

end Laps

variable {inner : Node → Run NodeResult} {body? : Option Node} {plan : Plan} {s t e : Session} {laps : List Lap}

theorem runBody_some (body : Node) (i : Nat) (hrun : (inner body).run.run e = (.ok r, t)) :
    (runBody inner (some body) i).run.run e =
      (.ok (r.output, if r.isFinished then none else some (brokenLap i body r)), t) := by
  rw [runBody, run_bind, hrun]
  cases hwaiting : r.isWaiting with
  | true => simp [NodeResult.isFinished, brokenLap, hwaiting]; rfl
  | false =>
    cases hfailed : r.isFailed with
    | true => simp [NodeResult.isFinished, brokenLap, hwaiting, hfailed]; rfl
    | false => simp [NodeResult.isFinished, hwaiting, hfailed]; rfl

/-- A lap that has begun is the last one, or the rest of the loop follows. -/
theorem Laps.ends_turn (h : Laps inner body? plan s laps t) (hbegins : plan.Begins laps.length t e)
    {f : Output × Option NodeResult → Run NodeResult}
    (hfailure : ∀ output failure, f (output, some failure) = pure failure)
    (hrest : ∀ output u, Laps inner body? plan s (laps ++ [⟨e, output, u⟩]) u →
      Ends inner body? plan s ((f (output, none)).run.run u)) :
    Ends inner body? plan s ((runBody inner body? laps.length >>= f).run.run e) := by
  cases hbody : body? with
  | none =>
    subst hbody
    exact hrest .empty e (.bare h hbegins rfl)
  | some b =>
    subst hbody
    rw [run_bind]
    rcases hrun : (inner b).run.run e with ⟨fault | r, u⟩
    · have hstuck : (runBody inner (some b) laps.length).run.run e = (.error fault, u) := by
        rw [runBody, run_bind, hrun]
      rw [hstuck]
      exact .stuck h hbegins rfl hrun
    · rw [runBody_some b _ hrun]
      cases hfinished : r.isFinished with
      | true => exact hrest r.output u (.body h hbegins rfl hrun hfinished)
      | false =>
        dsimp only
        rw [if_neg (by simp), hfailure]
        exact .broken h hbegins rfl hrun hfinished

/-! ## The three kinds of loops -/

theorem run_setVariable (name : String) (v : Value) (f : Unit → Run NodeResult) (s : Session) :
    (Run.setVariable (.str name) v >>= f).run.run s = (f ()).run.run (s.withVariable name v) := rfl

theorem run_setNamed (name : String) (v : Value) (f : Unit → Run NodeResult) (s : Session) :
    (Run.setNamed (.str name) v >>= f).run.run s = (f ()).run.run (s.withVariable name v) := rfl

theorem run_check (condition : Value) (s : Session) : (Run.check condition).run.run s = (s.test condition, s) := rfl

theorem Laps.ends_loopTimes {count most : Int} {left : Nat} (h : Laps inner body? (.times count most) s laps t)
    (hleft : laps.length + left = (min count most).toNat) :
    Ends inner body? (.times count most) s ((loopTimes inner body? (laps.map Lap.output) left).run.run t) := by
  induction left generalizing laps t with
  | zero =>
    refine .completed h ?_
    rw [show laps.length = (min count most).toNat from hleft]
    exact .times
  | succ left ih =>
    have hbegins : Plan.Begins (.times count most) laps.length t (t.withVariable "loop_index" (.ofNat laps.length)) :=
      .times (by omega) (by omega)
    rw [loopTimes]
    simp only [List.length_map, run_setVariable]
    refine h.ends_turn hbegins (fun _ _ => rfl) fun output u hlaps => ?_
    have hnext := ih hlaps (by simp; omega)
    rwa [List.map_append] at hnext

theorem Laps.ends_loopWhile {condition : Value} {most : Int} {left : Nat}
    (h : Laps inner body? (.condition condition most) s laps t) (hleft : laps.length + left = most.toNat) :
    Ends inner body? (.condition condition most) s
      ((loopWhile inner body? condition (laps.map Lap.output) left).run.run t) := by
  induction left generalizing laps t with
  | zero =>
    rw [loopWhile, run_bind, run_check]
    rcases htest : t.test condition with fault | held
    · exact .unclear h (.condition htest)
    · refine .completed h ?_
      cases held with
      | false => exact .unheld htest
      | true =>
        rw [show laps.length = most.toNat from hleft]
        exact .capped htest
  | succ left ih =>
    rw [loopWhile, run_bind, run_check]
    rcases htest : t.test condition with fault | _ | _
    · exact .unclear h (.condition htest)
    · exact .completed h (.unheld htest)
    · have hbegins : Plan.Begins (.condition condition most) laps.length t
          (t.withVariable "loop_index" (.ofNat laps.length)) := .condition (by omega) htest
      simp only [List.length_map, if_true, run_setVariable]
      refine h.ends_turn hbegins (fun _ _ => rfl) fun output u hlaps => ?_
      have hnext := ih hlaps (by simp; omega)
      rwa [List.map_append] at hnext

theorem length_keyedItems? {collection : Value} {pairs : List (Value × Value)}
    (h : keyedItems? collection = some pairs) : pairs.length = collection.members.length := by
  cases collection with
  | list | map => cases h; simp [Value.members]
  | scalar | set => cases h

theorem entryAt_keyedItems? {collection k v : Value} {pairs : List (Value × Value)} {i : Nat}
    (h : keyedItems? collection = some pairs) (hi : pairs[i]? = some (k, v)) : EntryAt collection i k v := by
  cases collection with
  | list items =>
    obtain rfl := Option.some.inj h
    simp only [List.getElem?_map, List.getElem?_zipIdx, Option.map_map, Option.map_eq_some_iff] at hi
    obtain ⟨w, hw, heq⟩ := hi
    cases heq
    rw [Nat.zero_add]
    exact .item hw
  | map entries =>
    obtain rfl := Option.some.inj h
    rw [List.getElem?_map, Option.map_eq_some_iff] at hi
    obtain ⟨⟨k, w⟩, hw, heq⟩ := hi
    cases heq
    exact .entry hw
  | scalar | set => cases h

theorem Laps.ends_loopItems {collection : Value} {item index key : String} {most : Int}
    {pairs before rest : List (Value × Value)} (h : Laps inner body? (.items collection item index key most) s laps t)
    (hpairs : keyedItems? collection = some pairs) (hsplit : pairs.take most.toNat = before ++ rest)
    (hbefore : before.length = laps.length) :
    Ends inner body? (.items collection item index key most) s
      ((loopItems inner body? ⟨.str item, .str index, .str key⟩ (laps.map Lap.output) rest).run.run t) := by
  induction rest generalizing laps t before with
  | nil =>
    have hlength : laps.length = min collection.members.length most.toNat := by
      rw [← hbefore, ← length_keyedItems? hpairs, ← List.append_nil before, ← hsplit, List.length_take, Nat.min_comm]
    refine .completed h ?_
    rw [hlength]
    exact .items
  | cons pair rest ih =>
    obtain ⟨k, v⟩ := pair
    have htaken : (pairs.take most.toNat)[laps.length]? = some (k, v) := by
      rw [hsplit, ← hbefore]
      simp
    obtain ⟨hmost, hentry⟩ : laps.length < most.toNat ∧ pairs[laps.length]? = some (k, v) := by
      rw [List.getElem?_take] at htaken
      split at htaken
      · next hmost => exact ⟨hmost, htaken⟩
      · cases htaken
    have hbegins : Plan.Begins (.items collection item index key most) laps.length t
        (t.withEntry item index key laps.length k v) := .items (by omega) (entryAt_keyedItems? hpairs hentry)
    rw [loopItems]
    simp only [List.length_map, run_setNamed]
    refine h.ends_turn hbegins (fun _ _ => rfl) fun output u hlaps => ?_
    have hsplit' : pairs.take most.toNat = (before ++ [(k, v)]) ++ rest := by simpa using hsplit
    have hnext := ih hlaps hsplit' (by simp [hbefore])
    rwa [List.map_append] at hnext

/-! ## Reading the plan -/

/-- How often the loop may go round; below zero it is not at all. -/
def Plan.most : Plan → Int
  | .items _ _ _ _ most => most
  | .condition _ most => most
  | .times _ most => most

/-- The configuration of a loop says what it goes over. A collection and a number may be references, for which the
variables count as they are when the loop starts. -/
inductive Plan.ReadFrom (n : Node) (s : Session) : Plan → Prop
  | items {raw collection item index key most} (htype : n.config.entryOr "type" (.str "foreach") = .ok (.str "foreach"))
    (hraw : n.config.entryOr "items" (.list []) = .ok raw)
    (hcollection : Template.resolve raw s.execution.scope = .ok collection) (hcontainer : collection.isContainer = true)
    (hitem : n.config.entryOr "item_variable" (.str "item") = .ok (.str item))
    (hindex : n.config.entryOr "index_variable" (.str "index") = .ok (.str index))
    (hkey : n.config.entryOr "key_variable" (.str "loop_key") = .ok (.str key)) :
    ReadFrom n s (.items collection item index key most)
  | condition {condition most} (htype : n.config.entryOr "type" (.str "foreach") = .ok (.str "while"))
    (hcondition : n.config.entryOr "condition" (.str "false") = .ok condition) :
    ReadFrom n s (.condition condition most)
  | times {raw v count most} (htype : n.config.entryOr "type" (.str "foreach") = .ok (.str "times"))
    (hraw : n.config.entryOr "times" (.int 1) = .ok raw) (hv : Template.resolve raw s.execution.scope = .ok v)
    (hcount : v.toWhole = .ok count) : ReadFrom n s (.times count most)

/-- A node is a loop with a plan and a body. -/
structure Loops (w : Workflow) (n : Node) (s : Session) (plan : Plan) (body? : Option Node) : Prop where
  readFrom : plan.ReadFrom n s
  limit : ∃ limit, n.config.entryOr "max_iterations" (.int 1000) = .ok limit ∧ limit.toWhole = .ok plan.most
  body : n.bodyOf? w = .ok body?
  apart : plan.Apart

variable {services : Services} {w : Workflow} {n : Node}

theorem ends_runLoop (h : Loops w n s plan body?) : Ends inner body? plan s ((runLoop inner w n).run.run s) := by
  obtain ⟨hread, ⟨limit, hlimit, hmost⟩, hbody, -⟩ := h
  obtain ⟨bodyId, hbodyId, hbody⟩ := bind_eq_ok.1 hbody
  obtain rfl := Except.ok.inj hbody
  have hstart : Laps inner (if bodyId.isPresent then w.nodeOf? bodyId else none) plan s [] s := .nil
  cases hread with
  | @items raw collection item index key most htype hraw hcollection hcontainer hitem hindex hkey =>
    obtain ⟨pairs, hpairs⟩ : ∃ pairs, keyedItems? collection = some pairs := by
      cases collection with
      | list | map => exact ⟨_, rfl⟩
      | scalar | set => cases hcontainer
    rw [runLoop, htype, Run.of_ok_bind, hlimit, Run.of_ok_bind, hmost, Run.of_ok_bind, hbodyId, Run.of_ok_bind]
    change Ends inner _ _ s ((Run.of (n.config.entryOr "items" (.list [])) >>= _).run.run s)
    rw [hraw, Run.of_ok_bind, run_resolve hcollection, hpairs]
    dsimp only
    rw [hitem, Run.of_ok_bind, hindex, Run.of_ok_bind, hkey, Run.of_ok_bind]
    exact hstart.ends_loopItems hpairs (List.nil_append _).symm rfl
  | condition htype hcondition =>
    rw [runLoop, htype, Run.of_ok_bind, hlimit, Run.of_ok_bind, hmost, Run.of_ok_bind, hbodyId, Run.of_ok_bind]
    change Ends inner _ _ s ((Run.of (n.config.entryOr "condition" (.str "false")) >>= _).run.run s)
    rw [hcondition, Run.of_ok_bind]
    exact hstart.ends_loopWhile (Nat.zero_add _)
  | times htype hraw hv hcount =>
    rw [runLoop, htype, Run.of_ok_bind, hlimit, Run.of_ok_bind, hmost, Run.of_ok_bind, hbodyId, Run.of_ok_bind]
    change Ends inner _ _ s ((Run.of (n.config.entryOr "times" (.int 1)) >>= _).run.run s)
    rw [hraw, Run.of_ok_bind, run_resolve hv, hcount, Run.of_ok_bind]
    exact hstart.ends_loopTimes (Nat.zero_add _)

/-! ## The node -/

/-- The session in which a node is announced in the log. -/
def announced (n : Node) (s : Session) : Session :=
  { s with execution := s.execution.note "debug" s!"Executing node: {n.id}" [("type", .str n.type), ("config", n.config)] }

/-- The session in which a fault of a node is in the log. -/
def faulted (n : Node) (fault : Fault) (s : Session) : Session :=
  { s with execution := s.execution.note "error" s!"Node execution error: {n.id}" [("error", .str fault.message)] }

theorem scope_announced (n : Node) (s : Session) : (n.announced s).execution.scope = s.execution.scope := by
  unfold announced Execution.note Execution.log
  dsimp only
  split <;> rfl

theorem Loops.announced (h : Loops w n s plan body?) : Loops w n (n.announced s) plan body? := by
  refine ⟨?_, h.limit, h.body, h.apart⟩
  have hscope := scope_announced n s
  cases h.readFrom with
  | items htype hraw hcollection hcontainer hitem hindex hkey =>
    exact .items htype hraw (hscope ▸ hcollection) hcontainer hitem hindex hkey
  | condition htype hcondition => exact .condition htype hcondition
  | times htype hraw hv hcount => exact .times htype hraw (hscope ▸ hv) hcount

theorem run_runNode {kind : NodeKind} (hkind : NodeKind.ofNode? services n = some kind) :
    (runNode services w inner n).run.run s =
      match (runKind services w inner n kind).run.run (n.announced s) with
      | (.ok r, t) => (numbered r).run.run t
      | (.error fault, t) => (.ok (.failure fault.message), n.faulted fault t) := by
  have hannounce : (Run.note "debug" s!"Executing node: {n.id}" [("type", .str n.type), ("config", n.config)]).run.run s =
      (.ok (), n.announced s) := rfl
  rw [runNode, run_bind, hannounce, hkind]
  dsimp only
  rw [run_bind, run_attempt]
  rcases (runKind services w inner n kind).run.run (n.announced s) with ⟨fault | r, t⟩ <;> rfl

theorem run_numbered {r : NodeResult} (h : r.isWaiting = false) (s : Session) : (numbered r).run.run s = (.ok r, s) := by
  rw [numbered, h]
  rfl

theorem isWaiting_brokenLap (i : Nat) (body : Node) (r : NodeResult) : (brokenLap i body r).isWaiting = false := by
  unfold brokenLap
  split <;> rfl

theorem value_loopResult (outputs : List Output) : (loopResult outputs).output.value =
    .object [("iterations", .ofNat outputs.length), ("results", .list (outputs.map Output.value))] := rfl

/-- No actions, and no types of their own. -/
def noServices : Services := ⟨[], [], 3600, 0⟩

/-- A loop over the list in a variable. -/
def eachJob : Node :=
  ⟨"each", "loop", .object [("items", .str "\x7b\x7bjobs\x7d\x7d"), ("body_node", .str "clear")], .null, .null⟩

def clearStep : Node := ⟨"clear", "start", .map [], .null, .null⟩

/-- A loop with a body of a type that is not known. -/
def oddJob : Node := ⟨"once", "loop", .object [("items", .list [.int 1]), ("body_node", .str "odd")], .null, .null⟩

def jobs : Workflow where
  id := "jobs"
  uuid := ""
  name := .null
  description := .null
  status := .active
  triggers := .null
  nodes := [eachJob, clearStep, oddJob, ⟨"odd", "mystery", .map [], .null, .null⟩]
  connections := []
  vars := .map []
  settings := []
  version := .int 1

def twoJobs : Session := .blank [(.str "jobs", .list [.int 5, .int 7])]

/-- A body that takes the list away. -/
def takeAway (_ : Node) : Run NodeResult := do
  Run.setVariable (.str "jobs") (.list [])
  return .okValue .null

/-- A loop whose condition cannot be looked at, and that is not to go round at all. -/
def vagueLoop : Node :=
  ⟨"vague", "loop", .object [("type", .str "while"), ("max_iterations", .int 0), ("body_node", .str "clear"),
    ("condition", .object [("field", .str "jobs"), ("operator", .str "odd"), ("value", .int 1)])], .null, .null⟩

end Node

end Flowline
