import Flowline.Proofs.Engine.History
import Flowline.Proofs.Node.Deadline
import Flowline.Store
import Mathlib.Logic.Relation

/-! # Deadlines

A node that waits for a time may be run many times before that time: it is resumed early, or run again with
the parallel node of which it is a branch. In between other nodes are run, its resumption is scheduled, and
the execution is kept and loaded again. None of that moves the time at which it ends. -/

namespace Flowline
open Execution

/-! ## Recorded runs -/

/-- Runs a node and records its state. -/
def Node.recorded (dispatch : Node → Run NodeResult) (n : Node) : Run NodeResult := do
  let r ← dispatch n
  Run.modifyExecution (·.setState n.id r.status r.output)
  return r

/-- A walk records the nodes that it visits. -/
theorem Walk.visit_eq_recorded (dispatch : Node → Run NodeResult) (n : Node) :
    Walk.visit dispatch n = do
      Run.modifyExecution (·.visit n.id)
      let r ← Node.recorded dispatch n
      if r.isFailed then throw (.nodeFailed n.id (Walk.failureReason r))
      return r := by
  simp only [Walk.visit, Node.recorded, bind_assoc, pure_bind]

/-- A parallel node records the branches that it runs. -/
theorem Node.runBranch_eq_recorded (inner : Node → Run NodeResult) (resuming : Bool) (branch : Node) :
    Node.runBranch inner resuming branch = Run.execution >>= fun e =>
      match if resuming && e.isCompleted branch.id then e.state? branch.id else none with
      | some s => return .ok s.output .null
      | none => Node.recorded inner branch := by
  rfl

/-! ## Meanwhile -/

/-- What happens to an execution while a node of it is not run: whatever leaves its state alone, such as
other nodes that are run; its resumption is scheduled, as that of all nodes that wait; it is kept in a store
and loaded from there. -/
inductive Meanwhile (setup : Setup) (x : String) : Execution → Execution → Prop
  | others {e f : Execution} (hstate : f.state? x = e.state? x) (hsound : f.Sound setup.actions) :
    Meanwhile setup x e f
  | scheduled {e f : Execution} (w : Workflow) (suspended : List String) (g h : Engine)
    (hrun : (Work.scheduleResumes setup w suspended e).run.run g = (.ok f, h)) : Meanwhile setup x e f
  | reloaded {e f : Execution} (store kept : Store) (hsave : store.saveExecution e = .ok kept)
    (hload : kept.execution? e.id = .ok (some f)) : Meanwhile setup x e f

/-- A sound execution in which a node waits, and shows some entries. -/
structure Execution.Pending (actions : Actions) (x : String) (entries : List (String × Value))
    (e : Execution) : Prop where
  sound : e.Sound actions
  awaits : ∃ st, e.state? x = some st ∧ st.Awaits entries

variable {setup : Setup} {actions : Actions} {x : String} {e f : Execution}
  {entries : List (String × Value)}

theorem Execution.Pending.of_state? (h : e.Pending actions x entries) (hsound : f.Sound actions)
    (hstate : f.state? x = e.state? x) : f.Pending actions x entries := by
  obtain ⟨st, hst, hawaits⟩ := h.awaits
  exact ⟨hsound, st, hstate.trans hst, hawaits⟩

/-- The entries of a node that waits until a time, as they are added to. -/
def Keepable (time : Value) (entries : List (String × Value)) : Prop :=
  time.isNull = false ∧ ("resume_at", time) ∈ entries ∧
    ∀ p ∈ entries, p.1 ∉ Output.partKeys ∧ p.1 ≠ "resume_job_id"

theorem Execution.Pending.touched (h : e.Pending actions x entries) {ys : List String}
    (htouched : Touched actions ys e f) (hx : x ∉ ys) (hkeys : ∀ p ∈ entries, p.1 ∉ Output.partKeys) :
    f.Pending actions x entries := by
  obtain ⟨st, hst, hawaits⟩ := h.awaits
  obtain ⟨st', hst', halike⟩ := htouched.others x st hx hst
  refine ⟨htouched.sound, st', hst', halike.status.trans hawaits.status, fun p hp => ?_⟩
  rw [halike.field p.1 (hkeys p hp)]
  exact hawaits.shows p hp

theorem Execution.Pending.growOutput (h : e.Pending actions x entries) {key : String} (v : Value)
    (hkey : key ∉ Output.timeKeys) (hkeys : ∀ p ∈ entries, p.1 ∉ Output.partKeys ∧ p.1 ≠ key) :
    (e.growOutput x key v).Pending actions x entries := by
  obtain ⟨st, hst, hawaits⟩ := h.awaits
  refine ⟨h.sound.growOutput x fun hmem => absurd hmem hkey,
    { st with output := e.grown x key v x st.output }, ?_, hawaits.status, fun p hp => ?_⟩
  · rw [state?_growOutput, hst]
    rfl
  · rw [h.sound.field?_grown_self hst key v (hkeys p hp).1,
      Value.field?_withEntry_of_ne _ _ (hkeys p hp).2.symm]
    exact hawaits.shows p hp

namespace Work

/-- Scheduling a node to be resumed keeps the time of one that has a time already. -/
theorem scheduleResume_pending {time : Value} (hkeepable : Keepable time entries) (w : Workflow)
    (suspended : List String) (h : e.Pending setup.actions x entries) (y : String) (g : Engine) :
    Leads (scheduleResume setup w suspended e y) g (fun f _ => f.Pending setup.actions x entries)
      fun _ _ => True := by
  obtain ⟨hnull, hmem, hkeys⟩ := hkeepable
  by_cases hxy : x = y
  · subst hxy
    obtain ⟨st, hst, hawaits⟩ := h.awaits
    have hentry : st.output.entry "resume_at" = time := by
      rw [Output.entry, hawaits.shows _ hmem]
      rfl
    unfold scheduleResume
    rw [hst]
    dsimp only
    rw [hawaits.status, hentry]
    split
    · exact leads_pure h
    · split
      · exact leads_pure h
      · split
        · cases hnull
        · refine Leads.bind ((schedule_leads setup _ _ g).mono (fun _ _ h => h) fun _ _ _ => trivial) ?_
          rintro job g' -
          have hjobKey : "resume_job_id" ∉ Output.timeKeys := by decide
          have hgrown := h.growOutput (.str job) hjobKey hkeys
          have hnoted := (SameNodes.refl (e.growOutput x "resume_job_id" (.str job))).note "info"
            "Resume scheduled" [("node_id", .str x), ("resume_at", time), ("job_id", .str job)]
          exact leads_pure (hgrown.of_state? (hnoted.sound hgrown.sound) (hnoted.state? x))
  · have hother : Leads (scheduleResume setup w suspended e y) g _ _ := scheduleResume_leads h.sound
    refine hother.mono ?_ fun _ _ _ => trivial
    rintro f g' ⟨htouched, -, -⟩
    exact h.touched htouched (fun hx => hxy (List.mem_singleton.1 hx)) fun p hp => (hkeys p hp).1

theorem scheduleResumes_pending {time : Value} (hkeepable : Keepable time entries) (w : Workflow)
    (suspended : List String) (h : e.Pending setup.actions x entries) (g : Engine) :
    Leads (scheduleResumes setup w suspended e) g (fun f _ => f.Pending setup.actions x entries)
      fun _ _ => True := by
  unfold scheduleResumes
  dsimp only
  generalize suspended ++ e.pendingResumes.keys.filter (!suspended.contains ·) = ids
  induction ids generalizing e g with
  | nil => exact leads_pure h
  | cons y rest ih =>
    rw [List.foldlM_cons]
    exact (scheduleResume_pending hkeepable w suspended h y g).bind fun f g' hf => ih hf g'

end Work

/-! ## Stores -/

/-- A state as a row has it: nothing of its output grows. -/
def NodeState.fixed (st : NodeState) : NodeState := { st with output := .fixed st.output.value }

theorem ExecutionRow.state?_read (row : ExecutionRow) (x : String) :
    row.read.state? x = (row.content.state? x).map NodeState.fixed :=
  Table.get?_map row.content.states NodeState.fixed x

/-- An execution that is read from a row has no growing parts, and so is sound. -/
theorem ExecutionRow.sound_read {row : ExecutionRow} (h : row.content.Sound actions) :
    row.read.Sound actions := by
  have hread {y : String} {st : NodeState} (hst : row.read.state? y = some st) :
      ∃ st₀, row.content.state? y = some st₀ ∧ st = st₀.fixed := by
    rw [state?_read] at hst
    obtain ⟨st₀, hst₀, heq⟩ := Option.map_eq_some_iff.1 hst
    exact ⟨st₀, hst₀, heq.symm⟩
  refine ⟨?_, ?_, ?_, ?_, ?_⟩
  · have hkeys : row.read.states.keys = row.content.states.keys :=
      Table.keys_map row.content.states NodeState.fixed
    exact hkeys ▸ h.nodup
  · intro y st hst p hp
    obtain ⟨st₀, -, rfl⟩ := hread hst
    cases hp
  · intro y st hst
    obtain ⟨st₀, -, rfl⟩ := hread hst
    exact .inl Output.inner_nil
  · intro y z st u n hst _ hn
    obtain ⟨st₀, -, rfl⟩ := hread hst
    cases hn
  · intro hgive y st hst hwaits
    obtain ⟨st₀, hst₀, rfl⟩ := hread hst
    exact h.timely hgive y st₀ hst₀ hwaits

theorem Execution.Pending.read {row : ExecutionRow} (h : row.content.Pending actions x entries) :
    row.read.Pending actions x entries := by
  obtain ⟨st, hst, hawaits⟩ := h.awaits
  refine ⟨row.sound_read h.sound, st.fixed, ?_, hawaits.status, hawaits.shows⟩
  rw [ExecutionRow.state?_read, hst]
  rfl

/-- A node that waits does so with the same entries when its execution was kept and is loaded again. -/
theorem Store.pending_reloaded {store kept : Store} (h : e.Pending actions x entries)
    (hsave : store.saveExecution e = .ok kept) (hload : kept.execution? e.id = .ok (some f)) :
    f.Pending actions x entries := by
  cases store with
  | memory m =>
    obtain rfl := Except.ok.inj hsave
    have hloaded : some e.reloaded = some f := by
      rw [← Except.ok.inj hload]
      exact (congrArg (Option.map Execution.reloaded) (Table.get?_put_self m.executions e.id e)).symm
    obtain rfl := Option.some.inj hloaded
    exact h.of_state? (h.sound.of_eq rfl rfl) rfl
  | database d =>
    obtain ⟨d', hsaved, hkept⟩ := bind_eq_ok.1 hsave
    obtain rfl := Except.ok.inj hkept
    obtain ⟨_, -, hsaved⟩ := bind_eq_ok.1 hsaved
    obtain ⟨_, -, hsaved⟩ := bind_eq_ok.1 hsaved
    obtain rfl := Except.ok.inj hsaved
    obtain ⟨_, -, hload⟩ := bind_eq_ok.1 hload
    have hrow := Except.ok.inj hload
    rw [Table.get?_put_self] at hrow
    obtain rfl := Option.some.inj hrow
    have hcontent : (⟨e.status, Database.written e.startedAt, e.completedAt?.map Database.written, e⟩ :
        ExecutionRow).content.Pending actions x entries := h
    exact hcontent.read

theorem Meanwhile.pending {time : Value} (hkeepable : Keepable time entries)
    (hmeanwhile : Meanwhile setup x e f) (h : e.Pending setup.actions x entries) :
    f.Pending setup.actions x entries := by
  cases hmeanwhile with
  | others hstate hsound => exact h.of_state? hsound hstate
  | scheduled w suspended g g' hrun =>
    have hleads := Work.scheduleResumes_pending hkeepable w suspended h g
    unfold Leads at hleads
    rwa [hrun] at hleads
  | reloaded store kept hsave hload => exact Store.pending_reloaded h hsave hload

theorem Meanwhile.all_pending {time : Value} (hkeepable : Keepable time entries)
    (hmeanwhile : Relation.ReflTransGen (Meanwhile setup x) e f) (h : e.Pending setup.actions x entries) :
    f.Pending setup.actions x entries := by
  induction hmeanwhile with
  | refl => exact h
  | tail _ hstep ih => exact hstep.pending hkeepable ih

/-! ## Runs of a node -/

namespace Node
open NodeResult

variable {n : Node} {d : Int} {T : Float} {kind : NodeKind} {s : Session}

/-- The execution after a node was run in a session and its state recorded. -/
def executionAfter (setup : Setup) (w : Workflow) (depth running : Nat) (n : Node) (s : Session) : Execution :=
  ((recorded (dispatch (setup.services running) w (depth + 1)) n).run.run s).2.execution

/-- A node is run in one session, and next in another one. -/
def RunsNext (setup : Setup) (n : Node) (s t : Session) : Prop :=
  ∃ w depth running,
    Relation.ReflTransGen (Meanwhile setup n.id) (n.executionAfter setup w depth running s) t.execution

theorem keepable_deadlineEntries (kind : NodeKind) (d : Int) (T : Float) :
    Keepable (.float T) (deadlineEntries kind d (.float T)) := by
  refine ⟨rfl, ?_, ?_⟩
  · unfold deadlineEntries
    split <;> exact List.mem_cons_self ..
  · unfold deadlineEntries
    split <;> simp [Output.partKeys]

/-- A run that suspends a node is recorded as such. -/
theorem pending_of_suspends {w : Workflow} {depth running : Nat} (hs : s.execution.Sound setup.actions)
    (hopen : s.execution.isCompleted n.id = false) {time : Value}
    (hrun : Leads (dispatch (setup.services running) w (depth + 1) n) s
      (fun r t => s.execution.Turned s.execution.vars t.execution ∧ Suspends d time r kind)
      fun _ _ => False) :
    (n.executionAfter setup w depth running s).Pending setup.actions n.id (deadlineEntries kind d time) := by
  have hreaches := record_reaches (dispatches_dispatch (setup.services running) w (depth + 1)) n hs
  have hlater := Leads.state (P := fun t => Later (setup.services running).actions s.execution t.execution)
    (Leads.mono hreaches (fun _ _ h => h.1) fun _ _ h => h)
  refine ⟨hlater.sound, ?_⟩
  have hrecorded : Leads (recorded (dispatch (setup.services running) w (depth + 1)) n) s
      (fun _ t => ∃ st, t.execution.state? n.id = some st ∧ st.Awaits (deadlineEntries kind d time))
      fun _ t => ∃ st, t.execution.state? n.id = some st ∧ st.Awaits (deadlineEntries kind d time) := by
    refine leads_bind (hrun.mono ?_ fun _ _ hfalse => hfalse.elim)
    rintro r t ⟨hturned, hwaits, hshows⟩
    have hopen' : t.execution.isCompleted n.id = false := by
      rw [isCompleted, nodeStatus?, state?, hturned.states_eq]
      exact hopen
    refine leads_bind (leads_modify (leads_pure ⟨⟨r.status, r.output⟩, ?_, eq_of_beq hwaits, hshows⟩))
    have hne : deadlineEntries kind d time ≠ [] := by
      unfold deadlineEntries
      split <;> exact List.cons_ne_nil _ _
    dsimp only
    rw [state?_setState, if_pos ⟨rfl, hopen'⟩, (hshows.orEmpty hne).1]
  exact hrecorded.state

/-- How long a node waits does not depend on how many executions are running. -/
theorem Lasts.running {scope : Value} {running : Nat} (h : n.Lasts (setup.services running) scope d kind)
    (other : Nat) : n.Lasts (setup.services other) scope d kind := by
  cases h with
  | delay hkind hd => exact .delay hkind hd
  | wait hkind hd => exact .wait hkind hd

section Sequence
variable {s : ℕ → Session} {k : ℕ}

theorem time_le_of_lt (hclock : ∀ i < k, (s i).now.timestamp ≤ (s (i + 1)).now.timestamp) {i j : ℕ}
    (hj : j < i) (hi : i ≤ k) : (s j).now.timestamp ≤ (s i).now.timestamp := by
  induction i with
  | zero => omega
  | succ i ih =>
    have hstep := hclock i (by omega)
    obtain hlt | rfl := Nat.lt_succ_iff_lt_or_eq.1 hj
    · exact Double.le_trans (ih hlt (by omega)) hstep
    · exact hstep

variable {seconds : Float} (hsound : (s 0).execution.Sound setup.actions)
  (hnew : (s 0).execution.state? n.id = none)
  (hlasts : n.Lasts (setup.services 0) (s 0).execution.scope d kind) (hpos : 0 < d)
  (hseconds : Double.ofInt? d = some seconds)
  (hnext : ∀ i < k, n.RunsNext setup (s i) (s (i + 1)))
  (hsilent : kind = .wait → ∀ i ≤ k, (s i).signals.get? ((s i).execution.id, n.id) = none)
include hsound hnew hlasts hpos hseconds hnext hsilent

/-- As long as the time has not come, the node waits for it whenever it is run again. -/
theorem pending_until {i : ℕ} (hi : i ≤ k) (hfirst : 0 < i)
    (hearly : ∀ j < i, 0 < j → (s j).now.timestamp < (s 0).now.timestamp + seconds) :
    (s i).execution.Pending setup.actions n.id
      (deadlineEntries kind d (.float ((s 0).now.timestamp + seconds))) := by
  induction i with
  | zero => omega
  | succ i ih =>
    obtain ⟨w, depth, running, hmeanwhile⟩ := hnext i (by omega)
    refine Meanwhile.all_pending (keepable_deadlineEntries kind d _) hmeanwhile ?_
    have hquiet (hwait : kind = .wait) := hsilent hwait i (by omega)
    obtain rfl | hlater := Nat.eq_zero_or_pos i
    · refine pending_of_suspends hsound ?_ (dispatch_first w depth (hlasts.running running) hpos hnew
        (later_eq hseconds) rfl hquiet)
      rw [isCompleted, nodeStatus?, hnew]
      rfl
    · have hpending := ih (by omega) hlater fun j hj hj0 => hearly j (by omega) hj0
      obtain ⟨st, hst, hawaits⟩ := hpending.awaits
      have hcome := hasCome_of_lt (hearly i (by omega) hlater)
      refine pending_of_suspends hpending.sound ?_
        (dispatch_again w depth (hlasts.running running) hst hawaits rfl hcome hquiet)
      rw [isCompleted_of_state? hst, hawaits.status]
      rfl

end Sequence

/-! ## A delay that is resumed early -/

/-- A delay of ten seconds. -/
def pause : Node := ⟨"pause", "delay", .object [("value", .int 10)], .null, .null⟩

/-- The sessions in which the delay is run: first at noon, and again every five seconds. -/
def pausing : ℕ → Session
  | 0 => (Engine.knowing (.ofNodes [pause] [] [])).session (.start "exec-1" default)
  | i + 1 => { pausing i with
      execution := pause.executionAfter (.ofActions []) (.ofNodes [pause] [] []) 0 0 (pausing i)
      now := ⟨⟨2024, 6, 15⟩, 12, 0, 5 * (i + 1), 0, some 0⟩ }

theorem pausing_runs (i : ℕ) : pause.RunsNext (.ofActions []) (pausing i) (pausing (i + 1)) :=
  ⟨.ofNodes [pause] [] [], 0, 0, by rw [pausing]⟩

end Node

end Flowline
