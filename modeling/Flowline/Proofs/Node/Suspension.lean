import Flowline.Proofs.Execution.Later

/-! # Nodes that lead to later executions

`Reaches`: from a session, a computation ends in one with a later execution, whether it fails or not. What
nodes do by themselves does so. A result that is `Raw` can be recorded, once it has a number if it waits.

Merges, delays and nodes that wait for signals lead to later executions. The time that a node has waited
for is read from the execution, where it can be read as long as those can that actions give. -/

namespace Flowline

variable {actions : Actions} {α β : Type}

/-- From a session, a computation ends in one with a later execution. -/
def Reaches (actions : Actions) (s : Session) (Q : α → Execution → Prop) (m : Run α) : Prop :=
  Leads m s (fun a t => Execution.Later actions s.execution t.execution ∧ Q a t.execution)
    fun _ t => Execution.Later actions s.execution t.execution

namespace Reaches
variable {s : Session} {m : Run α} {Q Q' : α → Execution → Prop}

theorem mono (h : Reaches actions s Q m)
    (hQ : ∀ a f, Execution.Later actions s.execution f → Q a f → Q' a f) : Reaches actions s Q' m :=
  Leads.mono h (fun a t ha => ⟨ha.1, hQ a t.execution ha.1 ha.2⟩) fun _ _ hfault => hfault

theorem and (h : Reaches actions s Q m) (h' : Reaches actions s Q' m) :
    Reaches actions s (fun a f => Q a f ∧ Q' a f) m :=
  (Leads.and h h').mono (fun _ _ ha => ⟨ha.1.1, ha.1.2, ha.2.2⟩) fun _ _ hfault => hfault.1

theorem bind {f : α → Run β} {Q' : β → Execution → Prop} (h : Reaches actions s Q m)
    (hf : ∀ a t, Execution.Later actions s.execution t.execution → Q a t.execution →
      Reaches actions t Q' (f a)) : Reaches actions s Q' (m >>= f) := by
  refine leads_bind (Leads.mono h ?_ fun _ _ hfault => hfault)
  intro a t ⟨hlater, ha⟩
  refine Leads.mono (hf a t hlater ha) ?_ fun _ u hu => hlater.trans hu
  exact fun b u ⟨hu, hb⟩ => ⟨hlater.trans hu, hb⟩

theorem pure {a : α} (hs : s.execution.Sound actions) (h : Q a s.execution) :
    Reaches actions s Q (pure a) := ⟨.refl hs, h⟩

theorem throw {fault : Fault} (hs : s.execution.Sound actions) :
    Reaches actions s Q (throw fault : Run α) := Execution.Later.refl hs

theorem attempt (h : Reaches actions s Q m) :
    Reaches actions s (fun r f => ∀ a, r = .ok a → Q a f) (Run.attempt m) := by
  refine Run.leads_attempt (Leads.mono h ?_ fun _ _ hfault => ⟨hfault, nofun⟩)
  rintro a t ⟨hlater, ha⟩
  refine ⟨hlater, ?_⟩
  rintro _ ⟨⟩
  exact ha

end Reaches

/-- Sessions between which a sound execution only goes on. -/
def Proceeds (actions : Actions) (s t : Session) : Prop :=
  s.execution.Sound actions → Execution.Later actions s.execution t.execution

theorem proceeds_of_eq {s t : Session} (hid : t.execution.id = s.execution.id)
    (hw : t.execution.workflowId = s.execution.workflowId)
    (hstates : t.execution.states = s.execution.states)
    (hnumber : t.execution.nextNumber = s.execution.nextNumber) : Proceeds actions s t :=
  fun hs => .of_eq hs hid hw hstates hnumber

instance : SignalFrame (Proceeds actions) where
  refl _ hs := .refl hs
  trans _ _ _ hst htu hs := (hst hs).trans (htu (hst hs).sound)
  setVariable _ _ _ := proceeds_of_eq rfl rfl rfl rfl
  log s level message context := by
    obtain ⟨logs, h⟩ := Execution.log_eq s.execution level message context
    rw [h]
    exact proceeds_of_eq rfl rfl rfl rfl
  cancel _ := proceeds_of_eq rfl rfl rfl rfl
  elapse _ _ _ _ := proceeds_of_eq rfl rfl rfl rfl
  number _ hs := Execution.later_number hs
  takeSignal _ _ := proceeds_of_eq rfl rfl rfl rfl
  countCall _ _ _ := proceeds_of_eq rfl rfl rfl rfl
  readStopwatch _ := proceeds_of_eq rfl rfl rfl rfl

theorem Gives.reaches {P : α → Prop} {m : Run α} (h : Gives (Proceeds actions) P m) {s : Session}
    (hs : s.execution.Sound actions) : Reaches actions s (fun a _ => P a) m :=
  (h s).mono (fun _ _ ha => ⟨ha.1 hs, ha.2⟩) fun _ _ hfault => hfault hs

/-! ## Results -/

/-- A result whose growing parts are inside and have numbers that were given out. -/
structure NodeResult.Raw (actions : Actions) (r : NodeResult) (e : Execution) : Prop where
  below : ∀ p ∈ r.output.growing, p.2 < e.nextNumber
  inner : Output.Inner r.output.growing
  job : actions.LeaveJobs → r.isWaiting = true → r.output.hasJob = false
  timely : actions.GiveTimes → r.isWaiting = true → r.output.Timely

/-- A result whose growing parts have numbers that were given out. -/
structure NodeResult.Known (actions : Actions) (r : NodeResult) (e : Execution) : Prop where
  below : ∀ p ∈ r.output.growing, p.2 < e.nextNumber
  timely : actions.GiveTimes → r.isWaiting = true → r.output.Timely

namespace NodeResult
variable {e : Execution}

theorem Lone.raw {r : NodeResult} (h : r.Lone actions) : r.Raw actions e := by
  refine ⟨?_, ?_, h.job, h.timely⟩
  · rw [h.growing]
    exact fun p hp => absurd hp List.not_mem_nil
  · rw [h.growing]
    exact Output.inner_nil

/-- A result that does not wait can be recorded as it is. -/
theorem Raw.reported {k : Nat} {r : NodeResult} (hr : r.Raw actions e) (hw : r.isWaiting = false) :
    r.Reported actions k e := by
  refine ⟨⟨hr.below, .inl hr.inner, ?_⟩, ?_, ?_⟩
  · rw [Output.number?_of_inner hr.inner]
    rintro n ⟨⟩
  · intro hwaits
    exact absurd (beq_iff_eq.2 hwaits) (Bool.eq_false_iff.1 hw)
  · exact fun hgive hwaits => hr.timely hgive (beq_iff_eq.2 hwaits)

theorem Reported.known {k : Nat} {r : NodeResult} (hr : r.Reported actions k e) : r.Known actions e :=
  ⟨hr.admits.below, fun hgive hw => hr.timely hgive (beq_iff_eq.1 hw)⟩

theorem growing_orEmpty_subset {o : Output} {p : List Step × Nat} (hp : p ∈ o.orEmpty.growing) :
    p ∈ o.growing := by
  obtain heq | hnil := Execution.growing_orEmpty_cases o
  · rwa [heq] at hp
  · rw [hnil] at hp
    cases hp

theorem mem_growing_ofEntries {entries : List (Scalar × Output)} {p : List Step × Nat}
    (hp : p ∈ (Output.ofEntries entries).growing) :
    ∃ q ∈ entries, ∃ part ∈ q.2.growing, p = (.key q.1 :: part.1, part.2) := by
  obtain ⟨q, hq, hp⟩ := List.mem_flatMap.1 hp
  obtain ⟨part, hpart, rfl⟩ := List.mem_map.1 hp
  exact ⟨q, hq, part, hpart, rfl⟩

/-- A result that is done, with outputs of other nodes under a key. -/
theorem raw_under {r : NodeResult} (before : List (String × Value)) (key : String) (o : Output)
    (hr : r.output = (Output.under before key o).orEmpty) (hw : r.isWaiting = false)
    (hk : key ∈ Output.partKeys) (ho : ∀ p ∈ o.growing, p.2 < e.nextNumber) : r.Raw actions e := by
  refine ⟨?_, ?_, ?_, ?_⟩
  · intro p hp
    rw [hr] at hp
    obtain ⟨q, hq, rfl⟩ := List.mem_map.1 (growing_orEmpty_subset hp)
    exact ho q hq
  · intro p hp
    rw [hr] at hp
    exact Output.inner_under before hk o p (growing_orEmpty_subset hp)
  · rw [hw]
    rintro _ ⟨⟩
  · rw [hw]
    rintro _ ⟨⟩

end NodeResult

namespace Node
open NodeResult Execution

theorem numbered_reaches {k : Nat} {s : Session} {r : NodeResult} (hs : s.execution.Sound actions)
    (hk : k ≤ s.execution.nextNumber) (hr : r.Raw actions s.execution) :
    Reaches actions s (fun r f => r.Reported actions k f) (numbered r) := by
  unfold numbered
  split
  · next hw =>
    refine ⟨later_number hs, admits_asGrowing hs hr.below hr.inner, fun _ => ⟨?_, ?_⟩,
      fun hgive _ => hr.timely hgive hw⟩
    · intro n hn
      have htop := Output.number?_of_top (o := r.output.asGrowing s.execution.nextNumber) rfl
      obtain rfl : s.execution.nextNumber = n := Option.some.inj (htop.symm.trans hn)
      exact hk
    · exact fun hl => hr.job hl hw
  · next hw => exact Reaches.pure hs (hr.reported (Bool.not_eq_true _ ▸ hw))

end Node

end Flowline

/-! ## Nodes that wait -/

namespace Flowline.Node
open NodeResult Execution

variable {actions : Actions}

/-! ### Merges -/

theorem mergedOutputs_known {e : Execution} (he : e.Sound actions) {needed : List Value}
    {outputs : Table Scalar Output} (h : mergedOutputs e needed = .ok outputs) :
    ∀ p ∈ outputs, ∀ part ∈ p.2.growing, part.2 < e.nextNumber := by
  induction needed generalizing outputs with
  | nil =>
    obtain rfl := Except.ok.inj h
    exact fun p hp => absurd hp List.not_mem_nil
  | cons id rest ih =>
    obtain ⟨state?, hstate, h⟩ := bind_eq_ok.1 h
    obtain ⟨key, -, h⟩ := bind_eq_ok.1 h
    obtain ⟨others, hothers, h⟩ := bind_eq_ok.1 h
    obtain rfl := Except.ok.inj h
    intro p hp
    obtain rfl | hp := List.mem_cons.1 hp
    · cases state? with
      | none => exact fun part hpart => absurd hpart List.not_mem_nil
      | some state =>
        obtain ⟨id, -, hstate⟩ := bind_eq_ok.1 hstate
        split at hstate
        · exact he.below _ state (Except.ok.inj hstate)
        · cases Except.ok.inj hstate
    · exact ih hothers p hp

theorem runMerge_reaches (n : Node) {s : Session} (hs : s.execution.Sound actions) :
    Reaches actions s (fun r f => r.Raw actions f) n.runMerge := by
  refine ((within_itemsOf n _).reaches hs).bind fun needed t₁ h₁ _ => ?_
  refine Reaches.bind (Q := fun e f => e = f) (Reaches.pure h₁.sound rfl) fun e t₂ h₂ he => ?_
  subst he
  refine ((within_of _).reaches h₂.sound).bind fun missing? t₃ h₃ _ => ?_
  split
  · exact Reaches.pure h₃.sound (lone_waiting _ (by simp) (fun _ => .inl rfl) (by simp)).raw
  · refine ((gives_of _ fun _ h => mergedOutputs_known h₂.sound h).reaches h₃.sound).bind
      fun outputs t₄ h₄ houtputs => ?_
    refine Reaches.pure h₄.sound (raw_under [] "merged_data" (.ofEntries (distinctOutputs outputs)) rfl
      rfl (by decide) ?_)
    intro p hp
    obtain ⟨q, hq, part, hpart, rfl⟩ := mem_growing_ofEntries hp
    obtain ⟨r, hr, heq⟩ | hq := Entries.mem_insertAll hq
    · rw [heq] at hpart
      exact (h₃.trans h₄).below (houtputs r hr) part hpart
    · cases hq

/-! ### Delays and signals -/

theorem isTime_later {now : Float} {seconds : Int} {time : Value} (h : later now seconds = .ok time) :
    time.IsTime := by
  obtain ⟨sum, hsum, h⟩ := bind_eq_ok.1 h
  obtain rfl := Except.ok.inj h
  obtain ⟨x, -, hsum⟩ := bind_eq_ok.1 hsum
  obtain ⟨y, -, hsum⟩ := bind_eq_ok.1 hsum
  obtain rfl := Except.ok.inj hsum
  exact .inr ⟨x + y, rfl⟩

section Delays
variable {s : Session} (hs : s.execution.Sound actions)
include hs

/-- The time that a node reads from the execution can be read. -/
theorem waitingEntry_reaches (id : String) {key : String} (hkey : key ∈ Output.timeKeys) :
    Reaches actions s (fun entry? _ => ∀ entry, entry? = some entry → actions.GiveTimes →
      entry.2.IsTime) ( waitingEntry? id key) := by
  refine Reaches.bind (Q := fun e f => e = f) (Reaches.pure hs rfl) fun e t h he => ?_
  subst he
  split
  · next output hstate =>
    refine ((gives_of (P := fun time => actions.GiveTimes → time.IsTime) _ ?_).reaches h.sound).bind
      fun time u hu htime => ?_
    · intro time htime hgive
      have hwaiting := h.sound.timely hgive id _ hstate rfl key hkey
      unfold Value.orElse at htime
      split at htime
      · unfold Value.entry Value.entryOr at htime
        split at htime
        · next entries heq =>
          rw [Output.entry, heq, Value.field?, Except.ok.inj htime] at hwaiting
          exact hwaiting
        · cases htime
      · exact .inl (Except.ok.inj htime).symm
    · split
      · refine Reaches.pure hu.sound ?_
        rintro _ ⟨⟩
      · refine Reaches.pure hu.sound ?_
        rintro _ ⟨⟩
        exact htime
  · refine Reaches.pure h.sound ?_
    rintro _ ⟨⟩

theorem startDelay_reaches (n : Node) (now : Float) :
    Reaches actions s (fun r f => r.Raw actions f) (n.startDelay now) := by
  refine ((within_delaySeconds n).reaches hs).bind fun seconds t₁ h₁ _ => ?_
  split
  · exact Reaches.pure h₁.sound (plain_okObject _).lone.raw
  · refine ((gives_of _ fun _ h => isTime_later h).reaches h₁.sound).bind fun time t₂ h₂ htime => ?_
    refine Reaches.pure h₂.sound (lone_waiting _ (by simp) (fun _ => htime) ?_).raw
    simp [Output.timeKeys]

theorem runDelay_reaches (n : Node) : Reaches actions s (fun r f => r.Raw actions f) n.runDelay := by
  refine (Run.within_timestamp.reaches hs).bind fun now t₁ h₁ _ => ?_
  refine (waitingEntry_reaches h₁.sound n.id (by decide)).bind fun entry t₂ h₂ hentry => ?_
  split
  · next previous time =>
    refine ((within_of _).reaches h₂.sound).bind fun seconds t₃ h₃ _ => ?_
    refine ((within_of _).reaches h₃.sound).bind fun come t₄ h₄ _ => ?_
    split
    · exact Reaches.pure h₄.sound (plain_okObject _).lone.raw
    · refine ((within_of _).reaches h₄.sound).bind fun reason t₅ h₅ _ => ?_
      refine Reaches.pure h₅.sound (Lone.raw ⟨?_, ?_, ?_⟩)
      · exact growing_waitingWith _ _ (by simp [Output.fixed])
      · exact fun _ _ => hasJob_waitingWith _ _ (by simp)
      · exact fun hgive _ => timely_waitingWith _ (hentry _ rfl hgive) (by simp [Output.timeKeys])
  · exact startDelay_reaches h₂.sound n now

theorem runWait_reaches (services : Services) (n : Node) :
    Reaches actions s (fun r f => r.Raw actions f) (runWait services n) := by
  have awaits {e : Execution} (waitType : Value) {time : Value}
      (htime : actions.GiveTimes → time.IsTime) : (awaiting waitType time).Raw actions e := by
    refine (lone_waiting _ (by simp) htime fun hgive p hp hkey => ?_).raw
    simp only [List.mem_cons, List.not_mem_nil, or_false] at hp
    obtain rfl | rfl := hp
    · exact htime hgive
    · simp [Output.timeKeys] at hkey
  refine ((within_of _).reaches hs).bind fun waitType t₁ h₁ _ => ?_
  refine ((within_of _).reaches h₁.sound).bind fun v t₂ h₂ _ => ?_
  refine ((within_of _).reaches h₂.sound).bind fun timeout t₃ h₃ _ => ?_
  refine (Run.within_timestamp.reaches h₃.sound).bind fun now t₄ h₄ _ => ?_
  refine ((Run.within_takeSignal n.id).reaches h₄.sound).bind fun payload? t₅ h₅ _ => ?_
  cases payload? with
  | some payload => exact Reaches.pure h₅.sound (plain_signalResult payload).lone.raw
  | none =>
    refine (waitingEntry_reaches h₅.sound n.id (by decide)).bind fun entry t₆ h₆ hentry => ?_
    split
    · refine ((within_of _).reaches h₆.sound).bind fun come t₇ h₇ _ => ?_
      split
      · exact ((gives_timeoutResult n waitType timeout).reaches h₇.sound).mono
          fun _ _ _ h => h.lone.raw
      · exact Reaches.pure h₇.sound (awaits waitType (hentry _ rfl))
    · refine ((gives_of _ fun _ h => isTime_later h).reaches h₆.sound).bind fun time t₇ h₇ htime => ?_
      exact Reaches.pure h₇.sound (awaits waitType fun _ => htime)

end Delays

end Flowline.Node
