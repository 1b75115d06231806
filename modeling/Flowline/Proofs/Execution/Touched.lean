import Flowline.Proofs.Execution.Later

/-! # Entries that are added to outputs

`Touched actions xs e f`: the execution `f` is `e` after entries were added to the outputs of the nodes
`xs`. The same is added inside all others: these keep their entries, and those without a growing part of `xs`
inside keep all of their state. -/

namespace Flowline

/-- Two states that differ at most in the growing parts inside their outputs. -/
structure NodeState.Alike (s t : NodeState) : Prop where
  status : t.status = s.status
  growing : t.output.growing = s.output.growing
  field : ∀ key ∉ Output.partKeys, t.output.value.field? key = s.output.value.field? key

theorem NodeState.Alike.refl (s : NodeState) : s.Alike s := ⟨rfl, rfl, fun _ _ => rfl⟩

theorem NodeState.Alike.trans {s t u : NodeState} (h₁ : s.Alike t) (h₂ : t.Alike u) : s.Alike u :=
  ⟨h₂.status.trans h₁.status, h₂.growing.trans h₁.growing,
    fun key hkey => (h₂.field key hkey).trans (h₁.field key hkey)⟩

theorem NodeState.Alike.entry {s t : NodeState} (h : s.Alike t) {key : String}
    (hkey : key ∉ Output.partKeys) : t.output.entry key = s.output.entry key := by
  rw [Output.entry, Output.entry, h.field key hkey]

theorem NodeState.Alike.hasJob {s t : NodeState} (h : s.Alike t) :
    t.output.hasJob = s.output.hasJob := by
  rw [Output.hasJob, Output.hasJob, h.entry (by decide)]

namespace Execution
variable {actions : Actions} {e f g : Execution} {xs ys : List String}

/-- The growing parts that the outputs of some nodes are have numbers from `k` on. -/
def GrowFrom (k : Nat) (e : Execution) (xs : List String) : Prop :=
  ∀ x ∈ xs, ∀ s, e.state? x = some s → ∀ n, s.output.number? = some n → k ≤ n

structure Touched (actions : Actions) (xs : List String) (e f : Execution) : Prop where
  sound : f.Sound actions
  id_eq : f.id = e.id
  workflowId_eq : f.workflowId = e.workflowId
  number_eq : f.nextNumber = e.nextNumber
  domain : ∀ y, e.state? y = none → f.state? y = none
  states : ∀ y s, e.state? y = some s →
    ∃ t, f.state? y = some t ∧ t.status = s.status ∧ t.output.growing = s.output.growing
  others : ∀ y s, y ∉ xs → e.state? y = some s → ∃ t, f.state? y = some t ∧ s.Alike t
  frozen : ∀ k y s, GrowFrom k e xs → y ∉ xs → e.state? y = some s →
    (∀ p ∈ s.output.growing, p.2 < k) → f.state? y = some s
  together : ∃ additions, ∀ y s, y ∉ xs → e.state? y = some s →
    f.state? y = some { s with output := s.output.growAll additions }

theorem Touched.refl (h : e.Sound actions) : Touched actions xs e e :=
  ⟨h, rfl, rfl, rfl, fun _ hy => hy, fun _ s hy => ⟨s, hy, rfl, rfl⟩,
    fun _ s _ hy => ⟨s, hy, .refl s⟩, fun _ _ _ _ _ hy _ => hy, [], fun _ _ _ hy => hy⟩

theorem Touched.nodeStatus? (h : Touched actions xs e f) (y : String) :
    f.nodeStatus? y = e.nodeStatus? y := by
  rw [Execution.nodeStatus?, Execution.nodeStatus?]
  cases hy : e.state? y with
  | none => rw [h.domain y hy]
  | some s =>
    obtain ⟨t, ht, hstatus, -⟩ := h.states y s hy
    rw [ht, Option.map_some, Option.map_some, hstatus]

theorem Touched.growFrom {k : Nat} {zs : List String} (h : Touched actions xs e f)
    (hk : GrowFrom k e zs) : GrowFrom k f zs := by
  intro x hx t ht n hn
  cases hs : e.state? x with
  | none =>
    rw [h.domain x hs] at ht
    cases ht
  | some s =>
    obtain ⟨t', ht', -, hgrowing⟩ := h.states x s hs
    obtain rfl := Option.some.inj (ht'.symm.trans ht)
    refine hk x hx s hs n ?_
    rw [Output.number?, ← hgrowing]
    exact hn

theorem Touched.trans (h₁ : Touched actions xs e f) (h₂ : Touched actions ys f g) :
    Touched actions (xs ++ ys) e g := by
  refine ⟨h₂.sound, h₂.id_eq.trans h₁.id_eq, h₂.workflowId_eq.trans h₁.workflowId_eq,
    h₂.number_eq.trans h₁.number_eq, fun y hy => h₂.domain y (h₁.domain y hy), ?_, ?_, ?_, ?_⟩
  · intro y s hy
    obtain ⟨t, ht, hst, hgt⟩ := h₁.states y s hy
    obtain ⟨u, hu, hsu, hgu⟩ := h₂.states y t ht
    exact ⟨u, hu, hsu.trans hst, hgu.trans hgt⟩
  · intro y s hnot hy
    obtain ⟨hx, hy'⟩ := not_or.1 fun hor => hnot (List.mem_append.2 hor)
    obtain ⟨t, ht, hst⟩ := h₁.others y s hx hy
    obtain ⟨u, hu, htu⟩ := h₂.others y t hy' ht
    exact ⟨u, hu, hst.trans htu⟩
  · intro k y s hk hnot hy hbelow
    obtain ⟨hx, hy'⟩ := not_or.1 fun hor => hnot (List.mem_append.2 hor)
    have hf := h₁.frozen k y s (fun x hx => hk x (List.mem_append_left _ hx)) hx hy hbelow
    have hys : GrowFrom k e ys := fun x hx => hk x (List.mem_append_right _ hx)
    exact h₂.frozen k y s (h₁.growFrom hys) hy' hf hbelow
  · obtain ⟨early, hearly⟩ := h₁.together
    obtain ⟨late, hlate⟩ := h₂.together
    refine ⟨early ++ late, fun y s hnot hy => ?_⟩
    obtain ⟨hx, hy'⟩ := not_or.1 fun hor => hnot (List.mem_append.2 hor)
    rw [hlate y _ hy' (hearly y s hx hy), Output.growAll_append]

theorem Touched.mono (h : Touched actions xs e f) (hsub : ∀ x ∈ xs, x ∈ ys) :
    Touched actions ys e f :=
  ⟨h.sound, h.id_eq, h.workflowId_eq, h.number_eq, h.domain, h.states,
    fun y s hy => h.others y s fun hx => hy (hsub y hx),
    fun k y s hk hy => h.frozen k y s (fun x hx => hk x (hsub x hx)) fun hx => hy (hsub y hx),
    h.together.imp fun _ hadded y s hy => hadded y s fun hx => hy (hsub y hx)⟩

/-- Two executions with the same nodes, which may differ otherwise. -/
structure SameNodes (e f : Execution) : Prop where
  id_eq : f.id = e.id
  workflowId_eq : f.workflowId = e.workflowId
  states_eq : f.states = e.states
  number_eq : f.nextNumber = e.nextNumber

theorem SameNodes.state? (h : SameNodes e f) (x : String) : f.state? x = e.state? x := by
  rw [Execution.state?, Execution.state?, h.states_eq]

theorem SameNodes.refl (e : Execution) : SameNodes e e := ⟨rfl, rfl, rfl, rfl⟩

theorem SameNodes.trans (h₁ : SameNodes e f) (h₂ : SameNodes f g) : SameNodes e g :=
  ⟨h₂.id_eq.trans h₁.id_eq, h₂.workflowId_eq.trans h₁.workflowId_eq,
    h₂.states_eq.trans h₁.states_eq, h₂.number_eq.trans h₁.number_eq⟩

theorem SameNodes.sound (h : SameNodes e f) (he : e.Sound actions) : f.Sound actions :=
  he.of_eq h.states_eq h.number_eq

theorem SameNodes.touched (h : SameNodes e f) (he : e.Sound actions) : Touched actions [] e f := by
  refine ⟨h.sound he, h.id_eq, h.workflowId_eq, h.number_eq, ?_, ?_, ?_, ?_, [], ?_⟩
  · intro y hy
    rw [h.state?]
    exact hy
  · intro y s hy
    exact ⟨s, (h.state? y).trans hy, rfl, rfl⟩
  · intro y s _ hy
    exact ⟨s, (h.state? y).trans hy, .refl s⟩
  · intro k y s _ _ hy _
    exact (h.state? y).trans hy
  · intro y s _ hy
    exact (h.state? y).trans hy

theorem SameNodes.note (h : SameNodes e f) (level message : String)
    (details : List (String × Value)) : SameNodes e (f.note level message details) := by
  obtain ⟨logs, hlog⟩ := log_eq f level message (.object details)
  rw [Execution.note, hlog]
  exact ⟨h.id_eq, h.workflowId_eq, h.states_eq, h.number_eq⟩

theorem growOutput_eq (e : Execution) (x key : String) (u : Value) :
    ∃ states, e.growOutput x key u = { e with states := states } := by
  unfold growOutput
  split
  · exact ⟨e.states, rfl⟩
  · split
    · exact ⟨_, rfl⟩
    · exact ⟨_, rfl⟩

/-- What is added to the output of one node is added to the outputs of all others alike. -/
theorem exists_additions (e : Execution) (x key : String) (u : Value) :
    ∃ additions, ∀ y, y ≠ x → ∀ o, e.grown x key u y o = o.growAll additions := by
  unfold grown
  split
  · exact ⟨[], fun _ _ _ => rfl⟩
  · split
    · next n _ => exact ⟨[(n, key, u)], fun _ _ _ => rfl⟩
    · exact ⟨[], fun y hne o => if_neg hne⟩

theorem touched_growOutput (h : e.Sound actions) (x : String) {key : String} {u : Value}
    (hu : key ∈ Output.timeKeys → u.IsTime) :
    Touched actions [x] e (e.growOutput x key u) := by
  obtain ⟨states, heq⟩ := growOutput_eq e x key u
  have hstate {y : String} {s : NodeState} (hy : e.state? y = some s) :
      (e.growOutput x key u).state? y = some { s with output := e.grown x key u y s.output } := by
    rw [state?_growOutput, hy]
    rfl
  refine ⟨h.growOutput x hu, ?_, ?_, growOutput_nextNumber .., ?_, ?_, ?_, ?_, ?_⟩
  · rw [heq]
  · rw [heq]
  · intro y hy
    rw [state?_growOutput, hy]
    rfl
  · exact fun y s hy => ⟨_, hstate hy, rfl, grown_growing ..⟩
  · intro y s hnot hy
    have hne : y ≠ x := fun heq => hnot (List.mem_singleton.2 heq)
    exact ⟨_, hstate hy, rfl, grown_growing .., fun key' hkey => h.field?_grown_of_ne hy hne key u hkey⟩
  · intro k y s hk hnot hy hbelow
    have hne : y ≠ x := fun heq => hnot (List.mem_singleton.2 heq)
    have hsame : e.grown x key u y s.output = s.output := by
      unfold grown
      split
      · rfl
      · next t ht =>
        split
        · next n hn =>
          refine Output.grow_of_forall_ne (fun p hp heq => ?_) key u
          have hkn := hk x (List.mem_singleton.2 rfl) t ht n hn
          have hp := hbelow p hp
          omega
        · rw [if_neg hne]
    rw [hstate hy, hsame]
  · obtain ⟨additions, hadditions⟩ := exists_additions e x key u
    refine ⟨additions, fun y s hnot hy => ?_⟩
    rw [hstate hy, hadditions y (fun heq => hnot (List.mem_singleton.2 heq))]

end Execution

/-! ## Nodes that are to be resumed

A state is provided for when it names a job, or has no time at which it is to be resumed. -/

namespace NodeState
variable {s t : NodeState}

/-- A state that waits for a time names the job that resumes it. -/
def Provided (s : NodeState) : Prop := s.resumeAt?.isSome = true → s.output.hasJob = true

theorem waiting_of_resumeAt? (h : s.resumeAt?.isSome = true) : s.status = .waiting := by
  rw [resumeAt?] at h
  split at h
  · next hw => exact eq_of_beq hw
  · cases h

theorem Alike.resumeAt? (h : s.Alike t) : t.resumeAt? = s.resumeAt? := by
  rw [NodeState.resumeAt?, NodeState.resumeAt?, h.status, h.entry (by decide)]

theorem Alike.provided (h : s.Alike t) (hs : s.Provided) : t.Provided := by
  intro hresume
  rw [h.resumeAt?] at hresume
  rw [h.hasJob]
  exact hs hresume

theorem resumeAt?_of_not_isMap (h : s.output.value.isMap = false) : s.resumeAt? = none := by
  have hentry : s.output.entry "resume_at" = .null := by
    unfold Output.entry Value.field?
    split
    · next hmap =>
      rw [hmap] at h
      cases h
    · rfl
  rw [NodeState.resumeAt?, hentry]
  split
  · rfl
  · rfl

end NodeState

namespace Execution
variable {actions : Actions} {e f : Execution}

/-- The nodes that are to be resumed at a time differ. -/
theorem nodup_pendingResumes (h : e.Sound actions) : e.pendingResumes.keys.Nodup :=
  h.nodup.sublist (Table.keys_filterMap e.states NodeState.resumeAt?)

theorem mem_pendingResumes (h : e.Sound actions) {x : String} :
    x ∈ e.pendingResumes.keys ↔ ∃ s, e.state? x = some s ∧ s.resumeAt?.isSome = true := by
  constructor
  · intro hx
    obtain ⟨p, hp, rfl⟩ := List.mem_map.1 hx
    obtain ⟨⟨y, s⟩, hs, hsome⟩ := List.mem_filterMap.1 hp
    obtain ⟨v, hv, rfl⟩ := Option.map_eq_some_iff.1 hsome
    exact ⟨s, Table.get?_of_mem h.nodup hs, by rw [hv]; rfl⟩
  · rintro ⟨s, hs, hsome⟩
    obtain ⟨v, hv⟩ := Option.isSome_iff_exists.1 hsome
    refine List.mem_map.2 ⟨(x, v), List.mem_filterMap.2 ⟨(x, s), Table.mem_of_get? hs, ?_⟩, rfl⟩
    exact Option.map_eq_some_iff.2 ⟨v, hv, rfl⟩

/-- A node that waits for a time names the job that resumes it. -/
def Provides (e : Execution) (x : String) : Prop := ∀ s, e.state? x = some s → s.Provided

theorem Touched.provides {xs : List String} (h : Touched actions xs e f) {x : String} (hx : x ∉ xs)
    (he : e.Provides x) : f.Provides x := by
  intro t ht
  cases hs : e.state? x with
  | none =>
    rw [h.domain x hs] at ht
    cases ht
  | some s =>
    obtain ⟨t', ht', halike⟩ := h.others x s hx hs
    obtain rfl := Option.some.inj (ht'.symm.trans ht)
    exact halike.provided (he s hs)

/-- A node that was given the name of a job is provided for. -/
theorem provides_growOutput (h : e.Sound actions) (x : String) {job : String} (hjob : job ≠ "") :
    (e.growOutput x "resume_job_id" (.str job)).Provides x := by
  intro t ht hresume
  rw [state?_growOutput] at ht
  obtain ⟨s, hs, rfl⟩ := Option.map_eq_some_iff.1 ht
  cases hmap : s.output.value.isMap with
  | false =>
    rw [NodeState.resumeAt?_of_not_isMap] at hresume
    · cases hresume
    · rw [h.isMap_grown_self hs]
      exact hmap
  | true =>
    have hfield := h.field?_grown_self hs "resume_job_id" (.str job)
      (show "resume_job_id" ∉ Output.partKeys by decide)
    rw [Value.field?_withEntry_self hmap] at hfield
    simp only [Output.hasJob, Output.entry, hfield, Option.getD_some]
    exact bne_iff_ne.2 hjob

end Execution

end Flowline
