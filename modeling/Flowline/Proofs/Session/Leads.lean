import Flowline.Session
import Mathlib.Order.Defs.Unbundled

/-! # Where computations lead

A computation on a state that may fail is followed from one state: `Leads m s ok fails` says that it ends
with a result and a state in `ok`, or with a fault and a state in `fails`. `Gives R P m` says of every
state that it leads to a related one, and only to results with a property; `Preserves I P m` says so of the
states in an invariant, which the later ones are in too. -/

namespace Flowline

section Leads
variable {σ α β : Type}

/-- From a state, a computation ends with a result and a state in `ok`, or with a fault and a state in
`fails`. -/
def Leads (m : ExceptT Fault (StateM σ) α) (s : σ) (ok : α → σ → Prop) (fails : Fault → σ → Prop) :
    Prop :=
  match m.run.run s with
  | (.ok a, t) => ok a t
  | (.error fault, t) => fails fault t

variable {m : ExceptT Fault (StateM σ) α} {f : α → ExceptT Fault (StateM σ) β} {s t : σ}
variable {ok ok' : α → σ → Prop} {fails fails' : Fault → σ → Prop}

theorem run_bind (m : ExceptT Fault (StateM σ) α) (f : α → ExceptT Fault (StateM σ) β) (s : σ) :
    (m >>= f).run.run s = match m.run.run s with
      | (.ok a, t) => (f a).run.run t
      | (.error fault, t) => (.error fault, t) := by
  change (ExceptT.bind m f).run.run s = _
  unfold ExceptT.bind ExceptT.bindCont
  simp only [ExceptT.run, ExceptT.mk, StateT.run, bind, StateT.bind]
  rcases m s with ⟨_ | _, _⟩ <;> rfl

theorem Run.of_ok_bind (a : α) (f : α → Run β) : (Run.of (.ok a) >>= f) = f a := rfl

theorem run_resolve {raw v : Value} {s : Session} (h : Template.resolve raw s.execution.scope = .ok v)
    (f : Value → Run β) : (Run.resolve raw >>= f).run.run s = (f v).run.run s := by
  have hresolve : (Run.resolve raw).run.run s = (.ok v, s) := congrArg (·, s) h
  rw [run_bind, hresolve]

theorem run_attempt (m : Run α) (s : Session) :
    (Run.attempt m).run.run s = (.ok (m.run.run s).1, (m.run.run s).2) := rfl

theorem leads_pure {a : α} (h : ok a s) : Leads (pure a) s ok fails := h

theorem leads_throw {fault : Fault} (h : fails fault s) :
    Leads (throw fault : ExceptT Fault (StateM σ) α) s ok fails := h

theorem leads_bind {ok : β → σ → Prop}
    (h : Leads m s (fun a t => Leads (f a) t ok fails) fails) : Leads (m >>= f) s ok fails := by
  unfold Leads at h ⊢
  rw [run_bind]
  rcases hm : m.run.run s with ⟨fault | a, t⟩
  · rw [hm] at h
    exact h
  · rw [hm] at h
    exact h

theorem Leads.mono (h : Leads m s ok fails) (hok : ∀ a t, ok a t → ok' a t)
    (hfails : ∀ fault t, fails fault t → fails' fault t) : Leads m s ok' fails' := by
  unfold Leads at h ⊢
  rcases hm : m.run.run s with ⟨fault | a, t⟩
  · rw [hm] at h
    exact hfails fault t h
  · rw [hm] at h
    exact hok a t h

theorem Leads.of_total (h : Leads m s ok fun _ _ => False) : Leads m s ok fails :=
  h.mono (fun _ _ h => h) fun _ _ hfalse => hfalse.elim

theorem Leads.exists_ok (h : Leads m s ok fails) {a : α} (hm : (m.run.run s).1 = .ok a) : ∃ t, ok a t := by
  unfold Leads at h
  rcases hrun : m.run.run s with ⟨fault | b, t⟩
  · rw [hrun] at hm
    cases hm
  · rw [hrun] at h hm
    exact ⟨t, Except.ok.inj hm ▸ h⟩

theorem leads_trivial : Leads m s (fun _ _ => True) fun _ _ => True := by
  unfold Leads
  split
  · trivial
  · trivial

theorem Leads.and {ok₂ : α → σ → Prop} {fails₂ : Fault → σ → Prop} (h : Leads m s ok fails)
    (h₂ : Leads m s ok₂ fails₂) :
    Leads m s (fun a t => ok a t ∧ ok₂ a t) (fun fault t => fails fault t ∧ fails₂ fault t) := by
  unfold Leads at h h₂ ⊢
  rcases hm : m.run.run s with ⟨fault | a, t⟩
  · rw [hm] at h h₂
    exact ⟨h, h₂⟩
  · rw [hm] at h h₂
    exact ⟨h, h₂⟩

theorem Leads.bind {ok : β → σ → Prop} {mid : α → σ → Prop} (h : Leads m s mid fails)
    (hf : ∀ a t, mid a t → Leads (f a) t ok fails) : Leads (m >>= f) s ok fails :=
  leads_bind (h.mono hf fun _ _ hfault => hfault)

theorem Leads.cases (h : Leads m s ok fails) : (∃ a t, m.run.run s = (.ok a, t) ∧ ok a t) ∨
    ∃ fault t, m.run.run s = (.error fault, t) ∧ fails fault t := by
  unfold Leads at h
  rcases hm : m.run.run s with ⟨fault | a, t⟩
  · rw [hm] at h
    exact .inr ⟨fault, t, rfl, h⟩
  · rw [hm] at h
    exact .inl ⟨a, t, rfl, h⟩

theorem Leads.state {P : σ → Prop} (h : Leads m s (fun _ t => P t) fun _ t => P t) :
    P (m.run.run s).2 := by
  obtain ⟨a, t, hm, ht⟩ | ⟨fault, t, hm, ht⟩ := h.cases
  · exact hm ▸ ht
  · exact hm ▸ ht

theorem Leads.result {Q : Except Fault α → σ → Prop}
    (h : Leads m s (fun a t => Q (.ok a) t) fun fault t => Q (.error fault) t) :
    Q (m.run.run s).1 (m.run.run s).2 := by
  obtain ⟨a, t, hm, ht⟩ | ⟨fault, t, hm, ht⟩ := h.cases
  · exact hm ▸ ht
  · exact hm ▸ ht

theorem leads_get {ok : σ → σ → Prop} (h : ok s s) :
    Leads (get : ExceptT Fault (StateM σ) σ) s ok fails := h

theorem leads_set {ok : PUnit → σ → Prop} (h : ok ⟨⟩ t) :
    Leads (set t : ExceptT Fault (StateM σ) PUnit) s ok fails := h

theorem leads_modify {ok : PUnit → σ → Prop} {g : σ → σ} (h : ok ⟨⟩ (g s)) :
    Leads (modify g : ExceptT Fault (StateM σ) PUnit) s ok fails := h

end Leads

/-! ## Every state leads to a related one -/

section Gives
variable {σ α β : Type} {R : σ → σ → Prop} {P Q : α → Prop}

/-- Every state leads to a related one, and only to results with a property. -/
def Gives (R : σ → σ → Prop) (P : α → Prop) (m : ExceptT Fault (StateM σ) α) : Prop :=
  ∀ s, Leads m s (fun a t => R s t ∧ P a) fun _ t => R s t

/-- Every state leads to a related one. -/
abbrev Within (R : σ → σ → Prop) (m : ExceptT Fault (StateM σ) α) : Prop := Gives R (fun _ => True) m

theorem Gives.mono {m : ExceptT Fault (StateM σ) α} (h : Gives R P m) (hP : ∀ a, P a → Q a) :
    Gives R Q m := fun s => (h s).mono (fun a _ ha => ⟨ha.1, hP a ha.2⟩) fun _ _ hfault => hfault

theorem Gives.mono_rel {S : σ → σ → Prop} {m : ExceptT Fault (StateM σ) α} (h : Gives R P m)
    (hS : ∀ s t, R s t → S s t) : Gives S P m := fun s =>
  (h s).mono (fun _ t ha => ⟨hS s t ha.1, ha.2⟩) fun _ t hfault => hS s t hfault

theorem Gives.within {m : ExceptT Fault (StateM σ) α} (h : Gives R P m) : Within R m :=
  h.mono fun _ _ => trivial

theorem Gives.result_of {m : ExceptT Fault (StateM σ) α} (h : Gives R P m) {s : σ} {a : α}
    (hm : (m.run.run s).1 = .ok a) : P a := by
  obtain ⟨b, t, hrun, -, hb⟩ | ⟨fault, t, hrun, -⟩ := (h s).cases
  · rw [hrun] at hm
    exact Except.ok.inj hm ▸ hb
  · rw [hrun] at hm
    cases hm

theorem gives_pure [IsPreorder σ R] {a : α} (h : P a) :
    Gives R P (pure a : ExceptT Fault (StateM σ) α) := fun s => ⟨refl_of R s, h⟩

theorem gives_throw [IsPreorder σ R] {fault : Fault} :
    Gives R P (throw fault : ExceptT Fault (StateM σ) α) := fun s => refl_of R s

theorem Gives.bind [IsPreorder σ R] {m : ExceptT Fault (StateM σ) α}
    {f : α → ExceptT Fault (StateM σ) β} {Q : β → Prop} (hm : Gives R P m)
    (hf : ∀ a, P a → Gives R Q (f a)) : Gives R Q (m >>= f) := by
  intro s
  refine leads_bind ((hm s).mono ?_ fun _ _ hfault => hfault)
  intro a t ⟨hst, ha⟩
  refine (hf a ha t).mono ?_ ?_
  · intro b u ⟨htu, hb⟩
    exact ⟨trans_of R hst htu, hb⟩
  · intro _ u htu
    exact trans_of R hst htu

theorem Within.bind [IsPreorder σ R] {m : ExceptT Fault (StateM σ) α}
    {f : α → ExceptT Fault (StateM σ) β} {Q : β → Prop} (hm : Within R m)
    (hf : ∀ a, Gives R Q (f a)) : Gives R Q (m >>= f) :=
  Gives.bind hm fun a _ => hf a

end Gives

/-! ## Invariants -/

section Preserves
variable {σ α β : Type} {I : σ → Prop} {P : α → Prop} {Q : β → Prop}

/-- Every state in an invariant leads to states in it, and only to results with a property. -/
def Preserves (I : σ → Prop) (P : α → Prop) (m : ExceptT Fault (StateM σ) α) : Prop :=
  ∀ s, I s → Leads m s (fun a t => I t ∧ P a) fun _ t => I t

theorem isPreorder_invariant (I : σ → Prop) : IsPreorder σ fun s t => I s → I t where
  refl _ := id
  trans _ _ _ hst htu := htu ∘ hst

theorem Gives.preserves {m : ExceptT Fault (StateM σ) α} (h : Gives (fun s t => I s → I t) P m) :
    Preserves I P m := fun s hs => (h s).mono (fun _ _ ha => ⟨ha.1 hs, ha.2⟩) fun _ _ ht => ht hs

theorem Preserves.within {m : ExceptT Fault (StateM σ) α} (h : Preserves I (fun _ => True) m) :
    Within (fun s t => I s → I t) m := by
  intro s
  by_cases hs : I s
  · exact (h s hs).mono (fun _ _ ha => ⟨fun _ => ha.1, trivial⟩) fun _ _ ht _ => ht
  · exact leads_trivial.mono (fun _ _ _ => ⟨fun hi => absurd hi hs, trivial⟩) fun _ _ _ hi => absurd hi hs

theorem preserves_pure {a : α} (h : P a) : Preserves I P (pure a : ExceptT Fault (StateM σ) α) :=
  fun _ hs => ⟨hs, h⟩

theorem preserves_throw {fault : Fault} : Preserves I P (throw fault : ExceptT Fault (StateM σ) α) :=
  fun _ hs => hs

theorem Preserves.bind {m : ExceptT Fault (StateM σ) α} {f : α → ExceptT Fault (StateM σ) β}
    (hm : Preserves I P m) (hf : ∀ a, P a → Preserves I Q (f a)) : Preserves I Q (m >>= f) := by
  intro s hs
  refine leads_bind ((hm s hs).mono ?_ fun _ _ ht => ht)
  intro a t ⟨ht, ha⟩
  exact hf a ha t ht

theorem Preserves.mono {m : ExceptT Fault (StateM σ) α} {P' : α → Prop} (h : Preserves I P m)
    (hP : ∀ a, P a → P' a) : Preserves I P' m := fun s hs =>
  (h s hs).mono (fun a _ ha => ⟨ha.1, hP a ha.2⟩) fun _ _ ht => ht

theorem preserves_modify {f : σ → σ} (h : ∀ s, I s → I (f s)) :
    Preserves I (fun _ => True) (modify f : ExceptT Fault (StateM σ) PUnit) := fun s hs => ⟨h s hs, trivial⟩

theorem Preserves.state {m : ExceptT Fault (StateM σ) α} (h : Preserves I P m) {s : σ} (hs : I s) :
    I (m.run.run s).2 :=
  Leads.state (P := I) ((h s hs).mono (fun _ _ ht => ht.1) fun _ _ ht => ht)

end Preserves

end Flowline
