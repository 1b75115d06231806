import Flowline.Value.Equality

/-! # Entries of mappings under text keys

A text key is the same as no other key, so entries under different text keys do not meet. -/

namespace Flowline.Entries

theorem same_text_iff {k : Scalar} {s : String} : k.same (.str s) = true ↔ k = .str s := by
  cases k <;> simp [Scalar.same, Scalar.toInt?]

variable {α β : Type} {entries : List (Scalar × α)} {key other : String}

theorem get?_eq_none (h : ∀ p ∈ entries, p.1 ≠ .str key) : get? entries (.str key) = none := by
  induction entries with
  | nil => rfl
  | cons p rest ih =>
    have hp : ¬ p.1.same (.str key) = true := fun hs => h p (List.mem_cons_self ..) (same_text_iff.1 hs)
    rw [get?, if_neg hp]
    exact ih fun q hq => h q (List.mem_cons_of_mem p hq)

theorem mem_of_get? {v : α} (h : get? entries (.str key) = some v) : (.str key, v) ∈ entries := by
  induction entries with
  | nil => cases h
  | cons p rest ih =>
    obtain ⟨k, u⟩ := p
    rw [get?] at h
    split at h
    · next hk =>
      obtain rfl := Option.some.inj h
      rw [same_text_iff.1 hk]
      exact List.mem_cons_self ..
    · exact List.mem_cons_of_mem _ (ih h)

theorem mem_insert {k : Scalar} {entries : List (Scalar × α)} {v : α} {p : Scalar × α}
    (hp : p ∈ insert entries k v) : p.2 = v ∨ p ∈ entries := by
  induction entries with
  | nil => exact .inl (congrArg Prod.snd (List.mem_singleton.1 hp))
  | cons q rest ih =>
    obtain ⟨j, u⟩ := q
    rw [insert] at hp
    split at hp
    · obtain rfl | hp := List.mem_cons.1 hp
      · exact .inl rfl
      · exact .inr (List.mem_cons_of_mem _ hp)
    · obtain rfl | hp := List.mem_cons.1 hp
      · exact .inr (List.mem_cons_self ..)
      · exact (ih hp).imp id (List.mem_cons_of_mem _)

theorem mem_insertAll {entries new : List (Scalar × α)} {p : Scalar × α}
    (hp : p ∈ insertAll entries new) : (∃ q ∈ new, p.2 = q.2) ∨ p ∈ entries := by
  induction new generalizing entries with
  | nil => exact .inr hp
  | cons q rest ih =>
    obtain ⟨r, hr, heq⟩ | hp := ih hp
    · exact .inl ⟨r, List.mem_cons_of_mem _ hr, heq⟩
    · obtain heq | hp := mem_insert hp
      · exact .inl ⟨q, List.mem_cons_self .., heq⟩
      · exact .inr hp

theorem get?_insert_self (entries : List (Scalar × α)) (key : String) (v : α) :
    get? (insert entries (.str key) v) (.str key) = some v := by
  induction entries with
  | nil => simp only [insert, get?, same_text_iff.2 rfl, if_true]
  | cons p rest ih =>
    by_cases hp : p.1.same (.str key) = true
    · simp only [insert, if_pos hp, get?]
    · simp only [insert, if_neg hp, get?]
      exact ih

theorem get?_insert_of_ne {k : Scalar} (entries : List (Scalar × α)) (v : α) (h : k ≠ .str key) :
    get? (insert entries k v) (.str key) = get? entries (.str key) := by
  have hk : ¬ k.same (.str key) = true := fun hs => h (same_text_iff.1 hs)
  induction entries with
  | nil => simp only [insert, get?, if_neg hk]
  | cons p rest ih =>
    obtain ⟨j, u⟩ := p
    by_cases hp : j.same k = true
    · have hj : ¬ j.same (.str key) = true := by
        rintro hs
        rw [same_text_iff.1 hs] at hp
        cases k <;> simp_all [Scalar.same, Scalar.toInt?]
      simp only [insert, if_pos hp, get?, if_neg hj]
    · simp only [insert, if_neg hp, get?]
      split
      · rfl
      · exact ih

theorem insert_insert (entries : List (Scalar × α)) (key : String) (u v : α) :
    insert (insert entries (.str key) u) (.str key) v = insert entries (.str key) v := by
  induction entries with
  | nil => simp only [insert, same_text_iff.2 rfl, if_true]
  | cons p rest ih =>
    by_cases hp : p.1.same (.str key) = true
    · simp only [insert, if_pos hp]
    · simp only [insert, if_neg hp, ih]

theorem insert_of_not_mem (v : α) (h : ∀ p ∈ entries, p.1 ≠ .str key) :
    insert entries (.str key) v = entries ++ [(.str key, v)] := by
  induction entries with
  | nil => rfl
  | cons p rest ih =>
    obtain ⟨hp, hrest⟩ := List.forall_mem_cons.1 h
    rw [insert, if_neg fun hsame => hp (same_text_iff.1 hsame), ih hrest]
    rfl

/-- Entries under different texts stay as they are. -/
theorem insertAll_of_nodup (before : List (Scalar × α)) {entries : List (String × α)}
    (hkeys : (entries.map Prod.fst).Nodup) (hbefore : ∀ p ∈ before, ∀ q ∈ entries, p.1 ≠ .str q.1) :
    insertAll before (entries.map fun (k, v) => (Scalar.str k, v)) =
      before ++ entries.map fun (k, v) => (Scalar.str k, v) := by
  induction entries generalizing before with
  | nil => simp [insertAll]
  | cons q rest ih =>
    obtain ⟨k, v⟩ := q
    obtain ⟨hk, hrest⟩ := List.nodup_cons.1 hkeys
    have hinsert := insert_of_not_mem v fun p hp => hbefore p hp (k, v) (List.mem_cons_self ..)
    have hnext := ih (before ++ [(.str k, v)]) hrest ?_
    · rw [List.append_assoc] at hnext
      simpa [insertAll, hinsert] using hnext
    · intro p hp q hq
      rcases List.mem_append.1 hp with hp | hp
      · exact hbefore p hp q (List.mem_cons_of_mem _ hq)
      · obtain rfl := List.mem_singleton.1 hp
        rintro heq
        cases heq
        exact hk (List.mem_map.2 ⟨q, hq, rfl⟩)

theorem insert_of_get? {v : α} (h : get? entries (.str key) = some v) :
    insert entries (.str key) v = entries := by
  induction entries with
  | nil => cases h
  | cons p rest ih =>
    obtain ⟨k, u⟩ := p
    rw [get?] at h
    rw [insert]
    split at h
    · next hp =>
      obtain rfl := Option.some.inj h
      rw [if_pos hp]
    · next hp => rw [if_neg hp, ih h]

/-! ## An entry in its place -/

variable {before after : List (Scalar × α)}

theorem get?_append_cons (h : ∀ p ∈ before, p.1 ≠ .str key) (v : α) :
    get? (before ++ (.str key, v) :: after) (.str key) = some v := by
  induction before with
  | nil => rw [List.nil_append, get?, if_pos (same_text_iff.2 rfl)]
  | cons p rest ih =>
    obtain ⟨hp, hrest⟩ := List.forall_mem_cons.1 h
    rw [List.cons_append, get?, if_neg fun hsame => hp (same_text_iff.1 hsame), ih hrest]

theorem insert_append_cons (h : ∀ p ∈ before, p.1 ≠ .str key) (u v : α) :
    insert (before ++ (.str key, u) :: after) (.str key) v = before ++ (.str key, v) :: after := by
  induction before with
  | nil => rw [List.nil_append, insert, if_pos (same_text_iff.2 rfl), List.nil_append]
  | cons p rest ih =>
    obtain ⟨hp, hrest⟩ := List.forall_mem_cons.1 h
    rw [List.cons_append, insert, if_neg fun hsame => hp (same_text_iff.1 hsame), ih hrest]
    rfl

/-! ## Entries that texts determine -/

theorem get?_map_texts (f : String → α) {xs : List String} {x : String} (hx : x ∈ xs) :
    get? (xs.map fun x => (.str x, f x)) (.str x) = some (f x) := by
  induction xs with
  | nil => cases hx
  | cons y rest ih =>
    rw [List.map_cons, get?]
    split
    · next hsame => rw [Scalar.str.inj (same_text_iff.1 hsame)]
    · next hne =>
      refine ih ((List.mem_cons.1 hx).resolve_left ?_)
      rintro rfl
      exact hne (same_text_iff.2 rfl)

/-- Of entries that are determined by their texts, those under one text come to one. -/
theorem insertAll_map_texts (f : String → α) (texts : List String) {xs : List String} (hxs : xs.Nodup) :
    ∃ ys : List String, ys.Nodup ∧ (∀ x, x ∈ ys ↔ x ∈ xs ∨ x ∈ texts) ∧
      insertAll (xs.map fun x => (.str x, f x)) (texts.map fun x => (.str x, f x)) =
        ys.map fun x => (.str x, f x) := by
  induction texts generalizing xs with
  | nil => exact ⟨xs, hxs, by simp, rfl⟩
  | cons x rest ih =>
    by_cases hx : x ∈ xs
    · obtain ⟨ys, hys, hmem, heq⟩ := ih hxs
      refine ⟨ys, hys, fun y => ?_, ?_⟩
      · rw [hmem, List.mem_cons]
        constructor
        · exact Or.imp_right .inr
        · rintro (hy | rfl | hy)
          · exact .inl hy
          · exact .inl hx
          · exact .inr hy
      · rw [← heq]
        exact congrArg (insertAll · (rest.map fun x => (.str x, f x)))
          (insert_of_get? (get?_map_texts f hx))
    · have hnodup : (xs ++ [x]).Nodup := by
        refine List.nodup_append.2 ⟨hxs, List.pairwise_singleton .., fun y hy z hz heq => hx ?_⟩
        rw [← List.mem_singleton.1 hz, ← heq]
        exact hy
      obtain ⟨ys, hys, hmem, heq⟩ := ih hnodup
      refine ⟨ys, hys, fun y => ?_, ?_⟩
      · rw [hmem, List.mem_append, List.mem_singleton, List.mem_cons, or_assoc]
      · have hnew : ∀ p ∈ xs.map (fun x => (Scalar.str x, f x)), p.1 ≠ .str x := by
          intro p hp heq
          obtain ⟨y, hy, rfl⟩ := List.mem_map.1 hp
          exact hx (Scalar.str.inj heq ▸ hy)
        rw [← heq, List.map_append]
        exact congrArg (insertAll · (rest.map fun x => (.str x, f x))) (insert_of_not_mem (f x) hnew)

/-! ## Different keys -/

/-- No two entries have the same key. -/
def Distinct (entries : List (Scalar × α)) : Prop := entries.Pairwise fun p q => p.1.same q.1 = false

instance (entries : List (Scalar × α)) : Decidable (Distinct entries) :=
  inferInstanceAs (Decidable (entries.Pairwise fun p q => p.1.same q.1 = false))

theorem insert_of_apart {key : Scalar} (v : α) (h : ∀ p ∈ entries, p.1.same key = false) :
    insert entries key v = entries ++ [(key, v)] := by
  induction entries with
  | nil => rfl
  | cons p rest ih =>
    obtain ⟨hp, hrest⟩ := List.forall_mem_cons.1 h
    rw [insert, if_neg (by simp [hp]), ih hrest]
    rfl

/-- A value is put in the place of its key, which stays as it is, or behind all entries. -/
theorem insert_cases (entries : List (Scalar × α)) (key : Scalar) (v : α) :
    (insert entries key v).map Prod.fst = entries.map Prod.fst ∨
      ((∀ p ∈ entries, p.1.same key = false) ∧ insert entries key v = entries ++ [(key, v)]) := by
  induction entries with
  | nil => exact .inr ⟨nofun, rfl⟩
  | cons p rest ih =>
    obtain ⟨k, u⟩ := p
    by_cases hk : k.same key = true
    · left
      simp [insert, hk]
    · have hk : k.same key = false := Bool.eq_false_iff.2 hk
      rw [insert, if_neg (by simp [hk])]
      rcases ih with hkeys | ⟨hapart, hinsert⟩
      · left
        simp [hkeys]
      · right
        exact ⟨List.forall_mem_cons.2 ⟨hk, hapart⟩, by rw [hinsert]; rfl⟩

theorem distinct_iff_keys : Distinct entries ↔ (entries.map Prod.fst).Pairwise fun a b => a.same b = false := by
  rw [Distinct, List.pairwise_map]

theorem distinct_insert (h : Distinct entries) (key : Scalar) (v : α) : Distinct (insert entries key v) := by
  rcases insert_cases entries key v with hkeys | ⟨hapart, hinsert⟩
  · rw [distinct_iff_keys, hkeys, ← distinct_iff_keys]
    exact h
  · rw [hinsert, Distinct, List.pairwise_append]
    exact ⟨h, List.pairwise_singleton _ _, fun p hp q hq => List.mem_singleton.1 hq ▸ hapart p hp⟩

theorem prefix_insert (entries : List (Scalar × α)) (key : Scalar) (v : α) :
    entries.map Prod.fst <+: (insert entries key v).map Prod.fst := by
  rcases insert_cases entries key v with hkeys | ⟨-, hinsert⟩
  · exact hkeys ▸ List.prefix_rfl
  · rw [hinsert, List.map_append]
    exact List.prefix_append _ _

/-- The keys of the first mapping stay in front, and no key comes twice. -/
theorem insertAll_keys (h : Distinct entries) (new : List (Scalar × α)) :
    Distinct (insertAll entries new) ∧ entries.map Prod.fst <+: (insertAll entries new).map Prod.fst := by
  induction new generalizing entries with
  | nil => exact ⟨h, List.prefix_rfl⟩
  | cons p rest ih =>
    obtain ⟨hdistinct, hprefix⟩ := ih (distinct_insert h p.1 p.2)
    exact ⟨hdistinct, (prefix_insert entries p.1 p.2).trans hprefix⟩

theorem insertAll_cons (entries : List (Scalar × α)) (k : Scalar) (v : α) (rest : List (Scalar × α)) :
    insertAll entries ((k, v) :: rest) = insertAll (insert entries k v) rest := rfl

theorem insertAll_append (entries xs ys : List (Scalar × α)) :
    insertAll entries (xs ++ ys) = insertAll (insertAll entries xs) ys := List.foldl_append

theorem insertAll_of_distinct (before : List (Scalar × α)) (h : Distinct (before ++ entries)) :
    insertAll before entries = before ++ entries := by
  induction entries generalizing before with
  | nil => simp [insertAll]
  | cons p rest ih =>
    obtain ⟨k, v⟩ := p
    have hapart : ∀ q ∈ before, q.1.same k = false := fun q hq =>
      (List.pairwise_append.1 h).2.2 q hq (k, v) (by simp)
    have hrest := ih (before ++ [(k, v)]) (by simpa using h)
    rw [List.append_assoc] at hrest
    rw [insertAll_cons, insert_of_apart v hapart]
    exact hrest

/-- Entries under the same texts replace those that are there. -/
theorem insertAll_of_sameKeys (before : List (Scalar × α)) {old new : List (Scalar × α)}
    (htexts : ∀ p ∈ old, ∃ s, p.1 = .str s) (hkeys : new.map Prod.fst = old.map Prod.fst)
    (h : Distinct (before ++ new)) : insertAll (before ++ old) new = before ++ new := by
  induction old generalizing before new with
  | nil =>
    obtain rfl : new = [] := by simpa using hkeys
    rfl
  | cons p old ih =>
    obtain ⟨k, u⟩ := p
    obtain ⟨⟨s, rfl⟩, hrest⟩ := List.forall_mem_cons.1 htexts
    cases new with
    | nil => simp at hkeys
    | cons q new =>
      obtain ⟨k, v⟩ := q
      obtain ⟨rfl, hsame⟩ : k = .str s ∧ new.map Prod.fst = old.map Prod.fst := by simpa using hkeys
      have hbefore : ∀ p ∈ before, p.1 ≠ .str s := by
        rintro p hp heq
        have hne := (List.pairwise_append.1 h).2.2 p hp (.str s, v) (by simp)
        rw [same_text_iff.2 heq] at hne
        cases hne
      have hnext := ih (before ++ [(.str s, v)]) hrest hsame (by simpa using h)
      rw [List.append_assoc, List.append_assoc] at hnext
      rw [insertAll_cons, insert_append_cons hbefore u v]
      exact hnext

/-- Entries that were put over some standard ones stay as they are when they are put over them again. -/
theorem insertAll_insertAll {standard : List (Scalar × α)} (htexts : ∀ p ∈ standard, ∃ s, p.1 = .str s)
    (hdistinct : Distinct standard) (new : List (Scalar × α)) :
    insertAll standard (insertAll standard new) = insertAll standard new := by
  obtain ⟨hall, hprefix⟩ := insertAll_keys hdistinct new
  generalize insertAll standard new = entries at hall hprefix
  have hkeys : (entries.take standard.length).map Prod.fst = standard.map Prod.fst := by
    rw [List.map_take]
    simpa using (List.prefix_iff_eq_take.1 hprefix).symm
  rw [← List.take_append_drop standard.length entries] at hall ⊢
  have hfront : insertAll standard (entries.take standard.length) = entries.take standard.length :=
    insertAll_of_sameKeys [] htexts hkeys (List.pairwise_append.1 hall).1
  rw [insertAll_append, hfront]
  exact insertAll_of_distinct _ hall

end Flowline.Entries
