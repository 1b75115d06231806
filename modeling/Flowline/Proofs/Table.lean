import Flowline.Table

/-! # Tables whose keys differ -/

namespace Flowline.Table

variable {κ α β : Type}

theorem keys_map (t : Table κ α) (f : α → β) : keys (t.map fun p => (p.1, f p.2)) = t.keys := by
  simp only [keys, List.map_map]
  rfl

theorem values_map (t : Table κ α) (f : α → β) : values (t.map fun p => (p.1, f p.2)) = t.values.map f := by
  simp only [values, List.map_map]
  rfl

theorem keys_filterMap (t : Table κ α) (f : α → Option β) :
    (keys (t.filterMap fun p => (f p.2).map fun v => (p.1, v))).Sublist t.keys := by
  induction t with
  | nil => exact .slnil
  | cons p rest ih =>
    cases hp : f p.2 with
    | none =>
      rw [List.filterMap_cons_none (by rw [hp]; rfl)]
      exact .cons _ ih
    | some v =>
      rw [List.filterMap_cons_some (b := (p.1, v)) (by rw [hp]; rfl)]
      exact .cons_cons _ ih

variable [BEq κ]

theorem get?_map (t : Table κ α) (f : α → β) (key : κ) :
    get? (t.map fun p => (p.1, f p.2)) key = (t.get? key).map f := by
  induction t with
  | nil => rfl
  | cons p rest ih =>
    obtain ⟨k, u⟩ := p
    simp only [List.map_cons, get?, List.lookup_cons]
    split
    · rfl
    · exact ih

theorem contains_map (t : Table κ α) (f : α → β) (key : κ) :
    contains (t.map fun p => (p.1, f p.2)) key = t.contains key := by
  rw [contains, contains, get?_map, Option.isSome_map]

theorem put_map (t : Table κ α) (f : α → β) (key : κ) (v : α) :
    put (t.map fun p => (p.1, f p.2)) key (f v) = (t.put key v).map fun p => (p.1, f p.2) := by
  induction t with
  | nil => rfl
  | cons p rest ih =>
    obtain ⟨k, u⟩ := p
    rw [List.map_cons, put, put]
    split
    · rfl
    · rw [ih, List.map_cons]

theorem erase_map (t : Table κ α) (f : α → β) (key : κ) :
    erase (t.map fun p => (p.1, f p.2)) key = (t.erase key).map fun p => (p.1, f p.2) := by
  rw [erase, List.filter_map]
  rfl

theorem nodup_erase {t : Table κ α} (key : κ) (hn : t.keys.Nodup) : (t.erase key).keys.Nodup :=
  hn.sublist (List.filter_sublist.map _)

theorem mem_put {t : Table κ α} {key : κ} {v : α} {p : κ × α} (hp : p ∈ t.put key v) :
    p.2 = v ∨ p ∈ t := by
  induction t with
  | nil => exact .inl (congrArg Prod.snd (List.mem_singleton.1 hp))
  | cons q rest ih =>
    obtain ⟨k, u⟩ := q
    rw [put] at hp
    split at hp
    · obtain rfl | hp := List.mem_cons.1 hp
      · exact .inl rfl
      · exact .inr (List.mem_cons_of_mem _ hp)
    · obtain rfl | hp := List.mem_cons.1 hp
      · exact .inr (List.mem_cons_self ..)
      · exact (ih hp).imp id (List.mem_cons_of_mem _)

theorem put_of_get?_eq_none {t : Table κ α} {key : κ} (v : α) (h : t.get? key = none) :
    t.put key v = t ++ [(key, v)] := by
  induction t with
  | nil => rfl
  | cons p rest ih =>
    obtain ⟨k, u⟩ := p
    rw [get?, List.lookup_cons] at h
    split at h
    · cases h
    · next hk => rw [put, if_neg (by simp [hk]), ih h, List.cons_append]

/-- A value that is put in place of one that looks the same changes nothing in how the table looks. -/
theorem filterMap_put {t : Table κ α} {key : κ} {u v : α} (look : α → Option β) (h : t.get? key = some u)
    (hlook : look v = look u) : (t.put key v).values.filterMap look = t.values.filterMap look := by
  induction t with
  | nil => cases h
  | cons p rest ih =>
    obtain ⟨k, w⟩ := p
    rw [get?, List.lookup_cons] at h
    split at h
    · next hk =>
      obtain rfl := Option.some.inj h
      simp [put, hk, values, List.filterMap_cons, hlook]
    · next hk =>
      have hrest := ih h
      simp only [values] at hrest
      simp [put, hk, values, List.filterMap_cons, hrest]

variable [LawfulBEq κ]

theorem mem_keys_iff {t : Table κ α} {key : κ} : key ∈ t.keys ↔ (t.get? key).isSome := by
  induction t with
  | nil => simp [keys, get?]
  | cons p rest ih =>
    obtain ⟨k, u⟩ := p
    simp only [keys, get?] at ih
    rw [keys, get?, List.map_cons, List.mem_cons, ih, List.lookup_cons]
    by_cases hk : key = k
    · simp [hk]
    · simp [hk, beq_false_of_ne hk]

theorem get?_put (t : Table κ α) (key other : κ) [Decidable (other = key)] (v : α) :
    (t.put key v).get? other = if other = key then some v else t.get? other := by
  split
  · next h => rw [h, get?_put_self]
  · next h => rw [get?_put_of_ne t v h]

theorem eq_or_mem_of_mem_put {t : Table κ α} {key : κ} {v : α} {p : κ × α} (hp : p ∈ t.put key v) :
    p = (key, v) ∨ p ∈ t := by
  induction t with
  | nil => exact .inl (List.mem_singleton.1 hp)
  | cons q rest ih =>
    obtain ⟨k, u⟩ := q
    rw [put] at hp
    split at hp
    · next hk =>
      obtain rfl := eq_of_beq hk
      exact (List.mem_cons.1 hp).imp id (List.mem_cons_of_mem _)
    · obtain rfl | hp := List.mem_cons.1 hp
      · exact .inr (List.mem_cons_self ..)
      · exact (ih hp).imp id (List.mem_cons_of_mem _)

theorem mem_put_of_ne {t : Table κ α} {key : κ} {p : κ × α} (v : α) (hp : p ∈ t) (hne : p.1 ≠ key) :
    p ∈ t.put key v := by
  induction t with
  | nil => cases hp
  | cons q rest ih =>
    obtain ⟨k, u⟩ := q
    rw [put]
    split
    · next hk =>
      obtain rfl := eq_of_beq hk
      obtain rfl | hp := List.mem_cons.1 hp
      · exact absurd rfl hne
      · exact List.mem_cons_of_mem _ hp
    · obtain rfl | hp := List.mem_cons.1 hp
      · exact List.mem_cons_self ..
      · exact List.mem_cons_of_mem _ (ih hp)

theorem put_put (t : Table κ α) (key : κ) (u v : α) : (t.put key u).put key v = t.put key v := by
  induction t with
  | nil => simp only [put, beq_self_eq_true, ite_true]
  | cons p rest ih =>
    obtain ⟨k, w⟩ := p
    by_cases h : key == k
    · simp only [put, h, ite_true]
    · simp only [put, h, Bool.false_eq_true, ite_false, ih]

theorem mem_of_get? {t : Table κ α} {key : κ} {v : α} (h : t.get? key = some v) : (key, v) ∈ t := by
  induction t with
  | nil => cases h
  | cons p rest ih =>
    obtain ⟨k, u⟩ := p
    rw [get?, List.lookup_cons] at h
    split at h
    · next hk =>
      obtain rfl := eq_of_beq hk
      obtain rfl := Option.some.inj h
      exact List.mem_cons_self ..
    · exact List.mem_cons_of_mem _ (ih h)

theorem get?_of_mem {t : Table κ α} {key : κ} {v : α} (hn : t.keys.Nodup) (h : (key, v) ∈ t) :
    t.get? key = some v := by
  induction t with
  | nil => cases h
  | cons p rest ih =>
    obtain ⟨k, u⟩ := p
    obtain ⟨hk, hrest⟩ := List.nodup_cons.1 hn
    rw [get?, List.lookup_cons]
    obtain heq | hmem := List.mem_cons.1 h
    · obtain ⟨rfl, rfl⟩ := Prod.mk.inj heq
      rw [beq_self_eq_true]
    · have hne : (key == k) = false := by
        refine beq_false_of_ne ?_
        rintro rfl
        exact hk (List.mem_map.2 ⟨_, hmem, rfl⟩)
      rw [hne]
      exact ih hrest hmem

/-- What is left under a key of a table of which some values are taken out. -/
theorem get?_filter {t : Table κ α} (hn : t.keys.Nodup) (keep : α → Bool) (key : κ) :
    get? (t.filter fun p => keep p.2) key = (t.get? key).filter keep := by
  have hnodup : (keys (t.filter fun p => keep p.2)).Nodup := hn.sublist (List.filter_sublist.map _)
  cases h : t.get? key with
  | none =>
    cases hleft : get? (t.filter fun p => keep p.2) key with
    | none => rfl
    | some v =>
      have hmem := get?_of_mem hn (List.mem_filter.1 (mem_of_get? hleft)).1
      rw [h] at hmem
      cases hmem
  | some v =>
    rw [Option.filter_some]
    split
    · next hkeep => exact get?_of_mem hnodup (List.mem_filter.2 ⟨mem_of_get? h, hkeep⟩)
    · next hkeep =>
      cases hleft : get? (t.filter fun p => keep p.2) key with
      | none => rfl
      | some u =>
        have hmem := List.mem_filter.1 (mem_of_get? hleft)
        rw [get?_of_mem hn hmem.1] at h
        obtain rfl := Option.some.inj h
        exact absurd hmem.2 hkeep

theorem mem_keys_put {t : Table κ α} {key other : κ} {v : α} :
    other ∈ (t.put key v).keys ↔ other = key ∨ other ∈ t.keys := by
  induction t with
  | nil => simp only [put, keys, List.map_cons, List.map_nil, List.mem_singleton, List.not_mem_nil,
      or_false]
  | cons p rest ih =>
    obtain ⟨k, u⟩ := p
    simp only [keys] at ih
    rw [put]
    split
    · next hk =>
      obtain rfl := eq_of_beq hk
      simp only [keys, List.map_cons, List.mem_cons, or_self_left]
    · simp only [keys, List.map_cons, List.mem_cons, ih]
      exact or_left_comm

theorem nodup_put {t : Table κ α} (key : κ) (v : α) (hn : t.keys.Nodup) :
    (t.put key v).keys.Nodup := by
  induction t with
  | nil => exact List.nodup_cons.2 ⟨List.not_mem_nil, List.nodup_nil⟩
  | cons p rest ih =>
    obtain ⟨k, u⟩ := p
    obtain ⟨hk, hrest⟩ := List.nodup_cons.1 hn
    rw [put]
    split
    · exact hn
    · next hne =>
      refine List.nodup_cons.2 ⟨?_, ih hrest⟩
      intro hmem
      obtain rfl | hmem := mem_keys_put.1 hmem
      · exact hne (beq_self_eq_true k)
      · exact hk hmem

theorem mem_keys_erase {t : Table κ α} {key other : κ} :
    other ∈ (t.erase key).keys ↔ other ≠ key ∧ other ∈ t.keys := by
  simp only [keys, erase, List.mem_map, List.mem_filter, Bool.not_eq_true', beq_eq_false_iff_ne]
  constructor
  · rintro ⟨p, ⟨hp, hne⟩, rfl⟩
    exact ⟨hne.symm, p, hp, rfl⟩
  · rintro ⟨hne, p, hp, rfl⟩
    exact ⟨p, ⟨hp, hne.symm⟩, rfl⟩

theorem get?_erase_self (t : Table κ α) (key : κ) : (t.erase key).get? key = none := by
  cases h : (t.erase key).get? key with
  | none => rfl
  | some v =>
    have hmem := (List.mem_filter.1 (mem_of_get? h)).2
    simp only [beq_self_eq_true, Bool.not_true, Bool.false_eq_true] at hmem

theorem get?_erase_of_ne (t : Table κ α) {key other : κ} (h : other ≠ key) :
    (t.erase key).get? other = t.get? other := by
  induction t with
  | nil => rfl
  | cons p rest ih =>
    obtain ⟨k, v⟩ := p
    rw [erase, List.filter_cons]
    by_cases hk : key = k
    · subst hk
      have hother : (other == key) = false := beq_false_of_ne h
      simp only [beq_self_eq_true, Bool.not_true, Bool.false_eq_true, ite_false]
      exact ih.trans (by simp only [get?, List.lookup_cons, hother])
    · have hkey : (key == k) = false := beq_false_of_ne hk
      simp only [hkey, Bool.not_false, ite_true]
      simp only [get?, List.lookup_cons]
      cases other == k with
      | true => rfl
      | false => exact ih

end Flowline.Table
