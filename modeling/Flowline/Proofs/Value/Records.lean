import Flowline.Proofs.Value.Entries
import Flowline.Value.Collection
import Flowline.Value.Convert
import Mathlib.Data.List.Forall2

/-! # Values as records

What is read from a mapping under texts that was written with these texts, and texts of values that are never
empty. -/

namespace Flowline

/-- A computation in two parts fails where one of them does. -/
theorem bind_eq_error {ε α β : Type} {r : Except ε α} {f : α → Except ε β} {fault : ε}
    (h : (r >>= f) = .error fault) : r = .error fault ∨ ∃ a, r = .ok a ∧ f a = .error fault := by
  cases r with
  | error other =>
    cases h
    exact .inl rfl
  | ok a => exact .inr ⟨a, rfl, h⟩

theorem ok_bind {ε α β : Type} (a : α) (f : α → Except ε β) : (Except.ok a >>= f) = f a := rfl

/-- Reading each of some values succeeds where reading all of them does. -/
theorem mapM_eq_ok {α β γ : Type} {write : α → β} {read : β → Except Fault γ} {f : α → γ} {xs : List α}
    (h : ∀ x ∈ xs, read (write x) = .ok (f x)) : (xs.map write).mapM read = .ok (xs.map f) := by
  induction xs with
  | nil => rfl
  | cons x rest ih =>
    obtain ⟨hx, hrest⟩ := List.forall_mem_cons.1 h
    rw [List.map_cons, List.mapM_cons, hx, ih hrest]
    rfl

/-- What each of some values that can be read is read as. -/
theorem forall₂_of_mapM {β γ : Type} {read : β → Except Fault γ} {P : β → γ → Prop}
    (h : ∀ v x, read v = .ok x → P v x) {vs : List β} {xs : List γ} (hread : vs.mapM read = .ok xs) :
    List.Forall₂ P vs xs := by
  induction vs generalizing xs with
  | nil =>
    cases hread
    exact .nil
  | cons v rest ih =>
    rw [List.mapM_cons] at hread
    obtain ⟨x, hx, hread⟩ := bind_eq_ok.1 hread
    obtain ⟨ys, hys, hread⟩ := bind_eq_ok.1 hread
    cases hread
    exact .cons (h v x hx) (ih hys)

theorem mapM_eq_ok_iff {β γ : Type} {read : β → Except Fault γ} {vs : List β} {xs : List γ} :
    vs.mapM read = .ok xs ↔ List.Forall₂ (fun v x => read v = .ok x) vs xs := by
  refine ⟨forall₂_of_mapM fun _ _ => id, fun h => ?_⟩
  induction h with
  | nil => rfl
  | cons hv _ ih =>
    rw [List.mapM_cons]
    exact bind_eq_ok.2 ⟨_, hv, bind_eq_ok.2 ⟨_, ih, rfl⟩⟩

theorem forall_of_mapM {β γ : Type} {read : β → Except Fault γ} {P : γ → Prop} (h : ∀ v x, read v = .ok x → P x)
    {vs : List β} {xs : List γ} (hread : vs.mapM read = .ok xs) : ∀ x ∈ xs, P x := by
  have hall : List.Forall₂ (flip fun x (_ : β) => P x ∧ True) vs xs :=
    forall₂_of_mapM (fun v x hx => ⟨h v x hx, trivial⟩) hread
  exact ((List.forall₂_and_left _ _).1 hall.flip).1

/-- Reading some values fails at the first of them that cannot be read. -/
theorem mapM_eq_error_iff {β γ : Type} {read : β → Except Fault γ} {vs : List β} {fault : Fault} :
    vs.mapM read = .error fault ↔ ∃ before v after, vs = before ++ v :: after ∧
      (∀ u ∈ before, ∃ x, read u = .ok x) ∧ read v = .error fault := by
  induction vs with
  | nil => exact ⟨nofun, fun ⟨_, _, _, h, _⟩ => by simp at h⟩
  | cons v rest ih =>
    rw [List.mapM_cons]
    cases hv : read v with
    | error other =>
      constructor
      · intro h
        cases h
        exact ⟨[], v, rest, rfl, nofun, hv⟩
      · rintro ⟨before, u, after, hvs, hbefore, hu⟩
        cases before with
        | nil =>
          cases hvs
          rw [hv] at hu
          cases hu
          rfl
        | cons w before =>
          cases hvs
          obtain ⟨x, hx⟩ := hbefore v (List.mem_cons_self ..)
          rw [hv] at hx
          cases hx
    | ok x =>
      have hrest : (do let x ← Except.ok x; let xs ← rest.mapM read; pure (x :: xs)) = .error fault ↔
          rest.mapM read = .error fault := by
        cases rest.mapM read with
        | error other => exact ⟨id, id⟩
        | ok xs => exact ⟨nofun, nofun⟩
      rw [hrest, ih]
      constructor
      · rintro ⟨before, u, after, rfl, hbefore, hu⟩
        refine ⟨v :: before, u, after, rfl, ?_, hu⟩
        exact List.forall_mem_cons.2 ⟨⟨x, hv⟩, hbefore⟩
      · rintro ⟨before, u, after, hvs, hbefore, hu⟩
        cases before with
        | nil =>
          cases hvs
          rw [hv] at hu
          cases hu
        | cons w before =>
          cases hvs
          exact ⟨before, u, after, rfl, (List.forall_mem_cons.1 hbefore).2, hu⟩

/-- Reading some values succeeds exactly where each of them can be read. -/
theorem exists_mapM_iff {β γ : Type} {read : β → Except Fault γ} {vs : List β} :
    (∃ xs, vs.mapM read = .ok xs) ↔ ∀ v ∈ vs, ∃ x, read v = .ok x := by
  constructor
  · rintro ⟨xs, hxs⟩ v hv
    obtain ⟨before, after, rfl⟩ := List.append_of_mem hv
    cases hread : read v with
    | ok x => exact ⟨x, rfl⟩
    | error fault =>
      rw [List.mapM_append, List.mapM_cons, hread] at hxs
      obtain ⟨_, -, hxs⟩ := bind_eq_ok.1 hxs
      cases hxs
  · intro h
    cases hxs : vs.mapM read with
    | ok xs => exact ⟨xs, rfl⟩
    | error fault =>
      obtain ⟨before, v, after, rfl, -, hv⟩ := mapM_eq_error_iff.1 hxs
      obtain ⟨x, hx⟩ := h v (by simp)
      rw [hx] at hv
      cases hv

namespace Value

theorem get?_object (fields : List (String × Value)) (key : String) :
    Entries.get? (fields.map fun (k, v) => (Scalar.str k, v)) (.str key) = fields.lookup key := by
  induction fields with
  | nil => rfl
  | cons p rest ih =>
    obtain ⟨k, v⟩ := p
    rw [List.map_cons, Entries.get?, List.lookup_cons, ih]
    by_cases h : k = key
    · simp [Scalar.same, h]
    · have hne : (key == k) = false := beq_eq_false_iff_ne.2 (Ne.symm h)
      simp [Scalar.same, h, hne]

/-- A record is a mapping from which its fields are read. -/
theorem exists_object (fields : List (String × Value)) :
    ∃ entries, object fields = .map entries ∧ ∀ key, Entries.get? entries (.str key) = fields.lookup key :=
  ⟨_, rfl, get?_object fields⟩

@[simp] theorem field?_object (fields : List (String × Value)) (key : String) :
    (object fields).field? key = fields.lookup key := get?_object fields key

@[simp] theorem entryOr_object (fields : List (String × Value)) (key : String) (standard : Value) :
    (object fields).entryOr key standard = .ok ((fields.lookup key).getD standard) := by
  rw [object, entryOr, get?_object]

@[simp] theorem entry_object (fields : List (String × Value)) (key : String) :
    (object fields).entry key = .ok ((fields.lookup key).getD .null) := entryOr_object fields key .null

@[simp] theorem orElse_orElse (v standard : Value) : (v.orElse standard).orElse standard = v.orElse standard := by
  by_cases h : v.isPresent = true
  · simp [orElse, h]
  · simp [orElse, h]

@[simp] theorem iterateOrNone_list (items : List Value) : (list items).iterateOrNone = .ok items := by
  cases items <;> rfl

@[simp] theorem orElse_map (entries : List (Scalar × Value)) : (map entries).orElse (.map []) = .map entries := by
  cases entries <;> rfl

theorem getD_isPresent (v : Value) : (if v.isPresent = true then some v else none).getD .null = v.orElse .null := by
  unfold orElse
  split <;> rfl

/-! ## Texts -/

@[simp] theorem text_str (s : String) : (str s).text = s := rfl

@[simp] theorem written_str (s : String) : (str s).written = .ok s := rfl

theorem eq_text_of_written {v : Value} {text : String} (h : v.written = .ok text) : text = v.text := by
  unfold written at h
  split at h
  · exact (Except.ok.inj h).symm
  · cases h

theorem written_of_isWritable {v : Value} (h : v.isWritable = true) : v.written = .ok v.text := if_pos h

theorem written_eq_ok_iff {v : Value} {text : String} : v.written = .ok text ↔ v.isWritable = true ∧ text = v.text := by
  constructor
  · intro h
    refine ⟨?_, eq_text_of_written h⟩
    by_contra hv
    rw [written, if_neg hv] at h
    cases h
  · rintro ⟨hv, rfl⟩
    exact written_of_isWritable hv

theorem written_eq_error {v : Value} {fault : Fault} (h : v.written = .error fault) : fault = .badValue := by
  unfold written at h
  split at h
  · cases h
  · exact (Except.error.inj h).symm

theorem fitsNumeral_iff {n : Int} : fitsNumeral n = true ↔ n.natAbs < tenTo maxNumeralSize := by
  unfold fitsNumeral
  exact decide_eq_true_iff

theorem written_int {n : Int} (hn : fitsNumeral n = true) : (int n).written = .ok (toString n) :=
  written_of_isWritable (v := int n) hn

theorem append_ne_empty_left {s t : String} (h : s ≠ "") : s ++ t ≠ "" := fun happend =>
  h (String.append_eq_empty_iff.1 happend).1

theorem append_ne_empty_right {s t : String} (h : t ≠ "") : s ++ t ≠ "" := fun happend =>
  h (String.append_eq_empty_iff.1 happend).2

theorem ofList_ne_empty {c : Char} {cs : List Char} : String.ofList (c :: cs) ≠ "" := by
  intro h
  have hlist := congrArg String.toList h
  simp at hlist

theorem layout_ne_empty (digits : Nat) (k : Int) : Double.layout digits k ≠ "" := by
  unfold Double.layout
  dsimp only
  split
  · split
    · exact append_ne_empty_left (by decide)
    · split
      · exact append_ne_empty_right (by decide)
      · exact append_ne_empty_left (append_ne_empty_right (by decide))
  · exact append_ne_empty_left (append_ne_empty_right (by split <;> decide))

theorem text_ne_empty_of_float (x : Float) : Double.text x ≠ "" := by
  unfold Double.text
  split
  · decide
  · dsimp only
    split
    · exact append_ne_empty_right (by decide)
    · split
      · exact append_ne_empty_right (by decide)
      · exact append_ne_empty_right (layout_ne_empty _ _)

theorem toString_int_ne_empty (n : Int) : toString n ≠ "" := by
  cases n with
  | ofNat m =>
    intro h
    have hlist := congrArg String.toList (show Nat.repr m = "" from h)
    simp [Nat.repr] at hlist
  | negSucc m => exact append_ne_empty_left (by decide)

theorem isoText_ne_empty (d : Date) : d.isoText ≠ "" :=
  append_ne_empty_left (append_ne_empty_left (append_ne_empty_left (append_ne_empty_right (by decide))))

/-- Only a text has an empty text. -/
theorem text_ne_empty {v : Value} (h : v.isStr = false) : v.text ≠ "" := by
  cases v with
  | list items => exact append_ne_empty_right (by decide)
  | map entries => exact append_ne_empty_right (by decide)
  | set items =>
    change (Value.set items).quoted ≠ ""
    rw [quoted]
    split
    · decide
    · exact append_ne_empty_right (by decide)
  | scalar s =>
    cases s with
    | null => decide
    | bool b => cases b <;> decide
    | int n => exact toString_int_ne_empty n
    | float x => exact text_ne_empty_of_float x
    | str s => cases h
    | date d => exact isoText_ne_empty d
    | moment m => exact append_ne_empty_left (append_ne_empty_left (append_ne_empty_left (isoText_ne_empty m.date)))
    | bytes b => exact ofList_ne_empty

end Value

end Flowline
