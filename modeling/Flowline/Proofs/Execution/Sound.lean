import Flowline.Action
import Flowline.Execution.Basic
import Flowline.Proofs.Table
import Flowline.Proofs.Value.Entries

/-! # Sound executions

A growing part of an output is the output as a whole, or lies under one of a few keys. So what is added to
a part does not change the other entries of the outputs that have it inside them.

In a sound execution each node has one state, all growing parts have numbers that were given out, and no
two nodes have outputs that are the same growing part. So what is added to the output of one node shows in
no entry that another node or the engine reads. The times for which nodes wait can be read, as long as
those can that actions give (`Actions.GiveTimes`). -/

namespace Flowline

/-! ## Changes inside a value -/

namespace Value

theorem field?_withEntry_self {v : Value} (hv : v.isMap = true) (key : String) (u : Value) :
    (v.withEntry key u).field? key = some u := by
  unfold isMap at hv
  split at hv
  · exact Entries.get?_insert_self _ key u
  · cases hv

theorem field?_withEntry_of_ne (v : Value) {key other : String} (u : Value) (h : key ≠ other) :
    (v.withEntry key u).field? other = v.field? other := by
  unfold withEntry
  split
  · exact Entries.get?_insert_of_ne _ u fun hk => h (Scalar.str.inj hk)
  · rfl

theorem isMap_withEntry (v : Value) (key : String) (u : Value) :
    (v.withEntry key u).isMap = v.isMap := by
  unfold withEntry
  split
  · rfl
  · rfl

/-- A change under a key leaves the entries under other keys as they are. -/
theorem field?_modifyAt_of_ne (v : Value) {key other : String} (rest : List Step) (f : Value → Value)
    (h : key ≠ other) : (v.modifyAt (.key (.str key) :: rest) f).field? other = v.field? other := by
  cases v with
  | map entries =>
    simp only [modifyAt]
    split
    · exact Entries.get?_insert_of_ne _ _ fun hk => h (Scalar.str.inj hk)
    · rfl
  | _ => simp only [modifyAt]

theorem isMap_modifyAt (v : Value) (step : Step) (rest : List Step) (f : Value → Value) :
    (v.modifyAt (step :: rest) f).isMap = v.isMap := by
  cases step <;> cases v <;> simp only [modifyAt]
  all_goals
    split
    · rfl
    · rfl

end Value

/-! ## Growing parts of an output -/

namespace Output

/-- The keys under which outputs have the outputs of other nodes inside them. -/
def partKeys : List String := ["results", "merged_data", "branch_results"]

/-- Growing parts that lie under such keys. -/
def Inner (parts : List (List Step × Nat)) : Prop :=
  ∀ p ∈ parts, ∃ key ∈ partKeys, ∃ rest, p.1 = .key (.str key) :: rest

/-- An output whose growing parts are inside, except for the one that it may be itself. -/
def Parted (o : Output) : Prop :=
  Inner o.growing ∨ ∃ n inner, o.growing = ([], n) :: inner ∧ Inner inner

theorem inner_nil : Inner [] := fun _ hp => absurd hp List.not_mem_nil

theorem inner_under (before : List (String × Value)) {key : String} (hk : key ∈ partKeys) (o : Output) :
    Inner (under before key o).growing := by
  intro p hp
  obtain ⟨q, -, rfl⟩ := List.mem_map.1 hp
  exact ⟨key, hk, q.1, rfl⟩

theorem number?_of_inner {o : Output} (h : Inner o.growing) : o.number? = none := by
  have hfind : o.growing.find? (·.1.isEmpty) = none := by
    refine List.find?_eq_none.2 fun p hp hempty => ?_
    obtain ⟨key, -, rest, hrest⟩ := h p hp
    rw [hrest] at hempty
    cases hempty
  rw [number?, hfind]
  rfl

theorem number?_of_top {o : Output} {n : Nat} {inner : List (List Step × Nat)}
    (h : o.growing = ([], n) :: inner) : o.number? = some n := by
  rw [number?, h]
  rfl

theorem mem_growing_of_number? {o : Output} {n : Nat} (h : o.number? = some n) :
    ([], n) ∈ o.growing := by
  obtain ⟨p, hp, rfl⟩ := Option.map_eq_some_iff.1 h
  have hempty := List.find?_some hp
  rw [← List.isEmpty_iff.1 hempty]
  exact List.mem_of_find?_eq_some hp

/-- Adds an entry to a part of a value, where it has a number. -/
def growPart (n : Nat) (key : String) (u : Value) (v : Value) (part : List Step × Nat) : Value :=
  if part.2 = n then v.modifyAt part.1 (·.withEntry key u) else v

theorem grow_value (o : Output) (n : Nat) (key : String) (u : Value) :
    (o.grow n key u).value = o.growing.foldl (growPart n key u) o.value := rfl

theorem field?_foldl_growPart {parts : List (List Step × Nat)} (h : Inner parts) (v : Value) (n : Nat)
    (key : String) (u : Value) {other : String} (ho : other ∉ partKeys) :
    (parts.foldl (growPart n key u) v).field? other = v.field? other ∧
      (parts.foldl (growPart n key u) v).isMap = v.isMap := by
  induction parts generalizing v with
  | nil => exact ⟨rfl, rfl⟩
  | cons p rest ih =>
    obtain ⟨hfield, hmap⟩ := ih (fun q hq => h q (List.mem_cons_of_mem p hq)) (growPart n key u v p)
    obtain ⟨k, hk, steps, hsteps⟩ := h p (List.mem_cons_self ..)
    have hne : k ≠ other := fun heq => ho (heq ▸ hk)
    rw [List.foldl_cons, hfield, hmap, growPart, hsteps]
    split
    · exact ⟨Value.field?_modifyAt_of_ne v steps _ hne, Value.isMap_modifyAt v _ steps _⟩
    · exact ⟨rfl, rfl⟩

/-- What is added to another part does not show beside the keys of the parts inside. -/
theorem field?_grow_of_ne {o : Output} (h : o.Parted) {n : Nat} (hn : o.number? ≠ some n)
    (key : String) (u : Value) {other : String} (ho : other ∉ partKeys) :
    (o.grow n key u).value.field? other = o.value.field? other := by
  rw [grow_value]
  obtain h | ⟨m, inner, hg, h⟩ := h
  · exact (field?_foldl_growPart h _ n key u ho).1
  · have hm : m ≠ n := fun heq => hn (heq ▸ number?_of_top hg)
    rw [hg, List.foldl_cons, growPart, if_neg hm]
    exact (field?_foldl_growPart h _ n key u ho).1

theorem isMap_grow {o : Output} (h : o.Parted) (n : Nat) (key : String) (u : Value) :
    (o.grow n key u).value.isMap = o.value.isMap := by
  have ho : "resume_at" ∉ partKeys := by decide
  rw [grow_value]
  obtain h | ⟨m, inner, hg, h⟩ := h
  · exact (field?_foldl_growPart h _ n key u ho).2
  · rw [hg, List.foldl_cons, (field?_foldl_growPart h _ n key u ho).2, growPart]
    split
    · exact Value.isMap_withEntry _ key u
    · rfl

/-- What is added to the part that an output is itself becomes an entry of it. -/
theorem field?_grow_self {o : Output} (h : o.Parted) {n : Nat} (hn : o.number? = some n)
    (key : String) (u : Value) {other : String} (ho : other ∉ partKeys) :
    (o.grow n key u).value.field? other = (o.value.withEntry key u).field? other := by
  rw [grow_value]
  obtain h | ⟨m, inner, hg, h⟩ := h
  · rw [number?_of_inner h] at hn
    cases hn
  · obtain rfl : m = n := Option.some.inj ((number?_of_top hg).symm.trans hn)
    rw [hg, List.foldl_cons, (field?_foldl_growPart h _ m key u ho).1, growPart, if_pos rfl]
    rfl

theorem grow_of_forall_ne {o : Output} {n : Nat} (h : ∀ p ∈ o.growing, p.2 ≠ n) (key : String)
    (u : Value) : o.grow n key u = o := by
  have hfold (parts : List (List Step × Nat)) (hparts : ∀ p ∈ parts, p.2 ≠ n) (v : Value) :
      parts.foldl (growPart n key u) v = v := by
    induction parts with
    | nil => rfl
    | cons p rest ih =>
      rw [List.foldl_cons, growPart, if_neg (hparts p (List.mem_cons_self ..))]
      exact ih fun q hq => hparts q (List.mem_cons_of_mem p hq)
  obtain ⟨v, growing⟩ := o
  exact congrArg (Output.mk · growing) (hfold growing h v)

/-- Adds entries to growing parts, one after the other. -/
def growAll (o : Output) (additions : List (Nat × String × Value)) : Output :=
  additions.foldl (fun o (n, key, u) => o.grow n key u) o

theorem growAll_append (o : Output) (early late : List (Nat × String × Value)) :
    o.growAll (early ++ late) = (o.growAll early).growAll late := List.foldl_append ..

end Output



/-! ## Times in outputs

The output of a node that waits names the time at which the node is to be resumed, or up to which it waits,
under one of a few keys. -/

namespace Value

/-- A value that names no time, or one that can be read. -/
def IsTime (v : Value) : Prop := v = .null ∨ ∃ t, v.asFloat = .ok t

/-- An entry that is added is the only one that changes. -/
theorem isTime_withEntry {v : Value} {key other : String} {u : Value}
    (hv : ((v.field? other).getD .null).IsTime) (hu : key = other → u.IsTime) :
    (((v.withEntry key u).field? other).getD .null).IsTime := by
  by_cases hkey : key = other
  · subst hkey
    cases hmap : v.isMap with
    | true =>
      rw [field?_withEntry_self hmap]
      exact hu rfl
    | false =>
      have hsame : v.withEntry key u = v := by
        unfold withEntry
        split
        · cases hmap
        · rfl
      rw [hsame]
      exact hv
  · rw [field?_withEntry_of_ne v u hkey]
    exact hv

end Value

namespace Output

def timeKeys : List String := ["resume_at", "timeout_at"]

/-- All times that an output names can be read. -/
def Timely (o : Output) : Prop := ∀ key ∈ timeKeys, (o.entry key).IsTime

theorem not_mem_partKeys_of_mem_timeKeys {key : String} (h : key ∈ timeKeys) : key ∉ partKeys := by
  obtain rfl | h := List.mem_cons.1 h
  · decide
  · obtain rfl := List.mem_singleton.1 h
    decide

theorem timely_empty : empty.Timely := fun _ _ => .inl rfl

theorem Timely.orEmpty {o : Output} (h : o.Timely) : o.orEmpty.Timely := by
  unfold Output.orEmpty
  split
  · exact h
  · exact timely_empty

/-- All times of a mapping of outputs can be read if those under the keys for times can. -/
theorem timely_ofEntries {entries : List (Scalar × Output)}
    (h : ∀ key ∈ timeKeys, ∀ o, (.str key, o) ∈ entries → o.value.IsTime) :
    (ofEntries entries).Timely := by
  intro key hkey
  unfold Output.entry
  cases hget : (ofEntries entries).value.field? key with
  | none => exact .inl rfl
  | some v =>
    obtain ⟨⟨k, o⟩, hmem, heq⟩ := List.mem_map.1 (Entries.mem_of_get? hget)
    obtain ⟨rfl, rfl⟩ := Prod.mk.inj heq
    exact h key hkey o hmem

end Output

/-- A state that names times that can be read, if it waits. -/
def NodeState.Timely (s : NodeState) : Prop := s.status = .waiting → s.output.Timely

theorem NodeState.Timely.orEmpty {status : NodeStatus} {o : Output}
    (h : NodeState.Timely ⟨status, o⟩) : NodeState.Timely ⟨status, o.orEmpty⟩ :=
  fun hwaits => (h hwaits).orEmpty

/-- The times that are named by results of actions that wait can be read. -/
def Actions.GiveTimes (actions : Actions) : Prop :=
  ∀ type a, actions.get? type = some a → ∀ call r, (a.run call).answer = .ok (.result r) →
    r.isWaiting = true → r.output.Timely

/-! ## Sound executions -/

namespace Execution
variable {actions : Actions} {e : Execution} {x y : String} {s : NodeState}

structure Sound (actions : Actions) (e : Execution) : Prop where
  nodup : e.states.keys.Nodup
  below : ∀ x s, e.state? x = some s → ∀ p ∈ s.output.growing, p.2 < e.nextNumber
  parted : ∀ x s, e.state? x = some s → s.output.Parted
  apart : ∀ x y s t n, e.state? x = some s → e.state? y = some t → s.output.number? = some n →
    t.output.number? = some n → x = y
  timely : actions.GiveTimes → ∀ x s, e.state? x = some s → s.Timely

theorem Sound.of_eq {f : Execution} (h : e.Sound actions) (hstates : f.states = e.states)
    (hnumber : f.nextNumber = e.nextNumber) : f.Sound actions := by
  have hstate (x : String) : f.state? x = e.state? x := by rw [state?, state?, hstates]
  constructor
  · rw [hstates]
    exact h.nodup
  · intro x s hx
    rw [hnumber]
    exact h.below x s (hstate x ▸ hx)
  · intro x s hx
    exact h.parted x s (hstate x ▸ hx)
  · intro x y s t n hx hy
    exact h.apart x y s t n (hstate x ▸ hx) (hstate y ▸ hy)
  · intro htimes x s hx
    exact h.timely htimes x s (hstate x ▸ hx)

theorem sound_of_no_states (h : e.states = []) : e.Sound actions := by
  have hnone (x : String) : e.state? x = none := by
    rw [state?, h]
    rfl
  constructor
  · rw [h]
    exact List.nodup_nil
  · intro x s hx
    cases (hnone x).symm.trans hx
  · intro x s hx
    cases (hnone x).symm.trans hx
  · intro x y s t n hx
    cases (hnone x).symm.trans hx
  · intro htimes x s hx
    cases (hnone x).symm.trans hx

/-- Logging changes the log alone. -/
theorem log_eq (e : Execution) (level message : String) (context : Value) :
    ∃ logs, e.log level message context = { e with logs := logs } := by
  unfold log
  split
  · exact ⟨e.logs, rfl⟩
  · exact ⟨_, rfl⟩

/-! ## Recording a state -/

/-- Recording a state changes the states alone. -/
theorem setState_eq (e : Execution) (x : String) (status : NodeStatus) (o : Output) :
    ∃ states, e.setState x status o = { e with states := states } := by
  unfold setState
  split
  · exact ⟨e.states, rfl⟩
  · exact ⟨_, rfl⟩

theorem state?_setState (e : Execution) (x : String) (status : NodeStatus) (o : Output) (y : String) :
    (e.setState x status o).state? y =
      if y = x ∧ e.isCompleted x = false then some ⟨status, o.orEmpty⟩ else e.state? y := by
  unfold setState
  cases hc : e.isCompleted x with
  | true => simp only [if_true, Bool.true_eq_false, and_false, if_false]
  | false =>
    simp only [Bool.false_eq_true, if_false, and_true]
    exact Table.get?_put e.states x y ⟨status, o.orEmpty⟩

theorem setState_nextNumber (e : Execution) (x : String) (status : NodeStatus) (o : Output) :
    (e.setState x status o).nextNumber = e.nextNumber := by
  obtain ⟨states, h⟩ := setState_eq e x status o
  rw [h]

/-- An output that can become the output of a node: its parts are apart from those of other nodes. -/
structure Admits (e : Execution) (o : Output) : Prop where
  below : ∀ p ∈ o.growing, p.2 < e.nextNumber
  parted : o.Parted
  apart : ∀ n, o.number? = some n → ∀ x s, e.state? x = some s → s.output.number? ≠ some n

theorem growing_orEmpty_cases (o : Output) : o.orEmpty = o ∨ o.orEmpty.growing = [] := by
  unfold Output.orEmpty
  split
  · exact .inl rfl
  · exact .inr rfl

theorem Admits.orEmpty {o : Output} (h : e.Admits o) : e.Admits o.orEmpty := by
  obtain heq | hnil := growing_orEmpty_cases o
  · rw [heq]
    exact h
  · have hnone : o.orEmpty.number? = none := Output.number?_of_inner (hnil ▸ Output.inner_nil)
    refine ⟨?_, .inl (hnil ▸ Output.inner_nil), ?_⟩
    · rw [hnil]
      exact fun p hp => absurd hp List.not_mem_nil
    · rw [hnone]
      rintro n ⟨⟩

theorem Sound.setState (h : e.Sound actions) (x : String) {status : NodeStatus} {o : Output}
    (ho : e.Admits o) (htime : actions.GiveTimes → NodeState.Timely ⟨status, o⟩) :
    (e.setState x status o).Sound actions := by
  have ho := ho.orEmpty
  constructor
  · unfold Execution.setState
    split
    · exact h.nodup
    · exact Table.nodup_put _ _ h.nodup
  · intro y s hy
    rw [setState_nextNumber]
    rw [state?_setState] at hy
    split at hy
    · obtain rfl := Option.some.inj hy
      exact ho.below
    · exact h.below y s hy
  · intro y s hy
    rw [state?_setState] at hy
    split at hy
    · obtain rfl := Option.some.inj hy
      exact ho.parted
    · exact h.parted y s hy
  · intro y z s t n hy hz hs ht
    rw [state?_setState] at hy hz
    split at hy
    · next hyx =>
      obtain rfl := Option.some.inj hy
      split at hz
      · next hzx => exact hyx.1.trans hzx.1.symm
      · exact absurd ht (ho.apart n hs z t hz)
    · split at hz
      · obtain rfl := Option.some.inj hz
        exact absurd hs (ho.apart n ht y s hy)
      · exact h.apart y z s t n hy hz hs ht
  · intro htimes y s hy
    rw [state?_setState] at hy
    split at hy
    · obtain rfl := Option.some.inj hy
      exact (htime htimes).orEmpty
    · exact h.timely htimes y s hy

/-! ## Adding to an output -/

/-- What becomes of the output of a node when something is added to the output of a node. -/
def grown (e : Execution) (x : String) (key : String) (u : Value) (y : String) (o : Output) : Output :=
  match e.state? x with
  | none => o
  | some s =>
    match s.output.number? with
    | some n => o.grow n key u
    | none => if y = x then { o with value := o.value.withEntry key u } else o

theorem state?_growOutput (e : Execution) (x key : String) (u : Value) (y : String) :
    (e.growOutput x key u).state? y =
      (e.state? y).map fun s => { s with output := e.grown x key u y s.output } := by
  unfold growOutput grown
  cases hx : e.state? x with
  | none => exact Option.map_id'.symm
  | some s =>
    dsimp only
    cases hn : s.output.number? with
    | some n => exact Table.get?_map e.states (fun s => { s with output := s.output.grow n key u }) y
    | none =>
      refine (Table.get?_put e.states x y _).trans ?_
      by_cases hyx : y = x
      · subst hyx
        simp only [if_true, hx, Option.map_some]
      · simp only [if_neg hyx]
        exact Option.map_id'.symm

theorem grown_growing (e : Execution) (x key : String) (u : Value) (y : String) (o : Output) :
    (e.grown x key u y o).growing = o.growing := by
  unfold grown
  split
  · rfl
  · split
    · rfl
    · split
      · rfl
      · rfl

theorem growOutput_nextNumber (e : Execution) (x key : String) (u : Value) :
    (e.growOutput x key u).nextNumber = e.nextNumber := by
  unfold growOutput
  split
  · rfl
  · split
    · rfl
    · rfl

theorem keys_growOutput_nodup (h : e.states.keys.Nodup) (x key : String) (u : Value) :
    (e.growOutput x key u).states.keys.Nodup := by
  unfold growOutput
  split
  · exact h
  · split
    · next n _ =>
      have hkeys := Table.keys_map e.states fun s => { s with output := s.output.grow n key u }
      exact hkeys.symm.subst (motive := List.Nodup) h
    · exact Table.nodup_put _ _ h

/-- What is added to the output of one node does not show in another one's entries. -/
theorem Sound.field?_grown_of_ne (h : e.Sound actions) (hy : e.state? y = some s) (hne : y ≠ x)
    (key : String) (u : Value) {other : String} (ho : other ∉ Output.partKeys) :
    (e.grown x key u y s.output).value.field? other = s.output.value.field? other := by
  unfold grown
  split
  · rfl
  · next t ht =>
    split
    · next n hn =>
      refine Output.field?_grow_of_ne (h.parted y s hy) (fun hs => hne ?_) key u ho
      exact h.apart y x s t n hy ht hs hn
    · rw [if_neg hne]

theorem Sound.field?_grown_self (h : e.Sound actions) (hx : e.state? x = some s) (key : String) (u : Value)
    {other : String} (ho : other ∉ Output.partKeys) :
    (e.grown x key u x s.output).value.field? other =
      (s.output.value.withEntry key u).field? other := by
  unfold grown
  rw [hx]
  dsimp only
  split
  · next n hn => exact Output.field?_grow_self (h.parted x s hx) hn key u ho
  · rw [if_pos rfl]

theorem Sound.isMap_grown_self (h : e.Sound actions) (hx : e.state? x = some s) (key : String) (u : Value) :
    (e.grown x key u x s.output).value.isMap = s.output.value.isMap := by
  unfold grown
  rw [hx]
  dsimp only
  split
  · next n hn => exact Output.isMap_grow (h.parted x s hx) n key u
  · rw [if_pos rfl]
    exact Value.isMap_withEntry _ key u

/-- What is added to the output of a node changes no other time. -/
theorem Sound.timely_grown (h : e.Sound actions) (hy : e.state? y = some s) (hs : s.output.Timely)
    {key : String} {u : Value} (hu : key ∈ Output.timeKeys → u.IsTime) :
    (e.grown x key u y s.output).Timely := by
  intro other hother
  have hpart := Output.not_mem_partKeys_of_mem_timeKeys hother
  unfold Output.entry
  by_cases hyx : y = x
  · subst hyx
    rw [h.field?_grown_self hy key u hpart]
    exact Value.isTime_withEntry (hs other hother) fun heq => hu (heq ▸ hother)
  · rw [h.field?_grown_of_ne hy hyx key u hpart]
    exact hs other hother

theorem Sound.growOutput (h : e.Sound actions) (x : String) {key : String} {u : Value}
    (hu : key ∈ Output.timeKeys → u.IsTime) : (e.growOutput x key u).Sound actions := by
  have hstate {y : String} {s : NodeState} (hy : (e.growOutput x key u).state? y = some s) :
      ∃ t, e.state? y = some t ∧ s.output.growing = t.output.growing := by
    rw [state?_growOutput] at hy
    obtain ⟨t, ht, rfl⟩ := Option.map_eq_some_iff.1 hy
    exact ⟨t, ht, grown_growing e x key u y t.output⟩
  constructor
  · exact keys_growOutput_nodup h.nodup x key u
  · intro y s hy
    obtain ⟨t, ht, hg⟩ := hstate hy
    rw [hg, growOutput_nextNumber]
    exact h.below y t ht
  · intro y s hy
    obtain ⟨t, ht, hg⟩ := hstate hy
    rw [Output.Parted, hg]
    exact h.parted y t ht
  · intro y z s t n hy hz hs ht
    obtain ⟨s', hs', hgs⟩ := hstate hy
    obtain ⟨t', ht', hgt⟩ := hstate hz
    refine h.apart y z s' t' n hs' ht' ?_ ?_
    · rw [Output.number?, ← hgs]
      exact hs
    · rw [Output.number?, ← hgt]
      exact ht
  · intro htimes y s hy hwaits
    rw [state?_growOutput] at hy
    obtain ⟨t, ht, rfl⟩ := Option.map_eq_some_iff.1 hy
    exact h.timely_grown ht (h.timely htimes y t ht hwaits) hu

end Execution

end Flowline
