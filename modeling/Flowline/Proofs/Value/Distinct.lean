import Flowline.Node.Data
import Flowline.Proofs.Value.Faults
import Flowline.Proofs.Value.Records

/-! # Values without duplicates

Values are the same to `distinct` when their texts are. It keeps those values that no earlier one is the same as
(`FirstOfEach`), in their order, so the number of them is the number of texts, whatever the order of the values. The
texts are only asked for where there is more than one value, and a whole number with too many digits has none. -/

namespace Flowline.Value

/-- Two values have the same text. -/
def SameText (v w : Value) : Prop := ∃ text, v.display = .ok text ∧ w.display = .ok text

/-- The value at a place has another text than every value before it. -/
def IsFirst (vs : List Value) (i : Nat) : Prop :=
  ∃ v, vs[i]? = some v ∧ ∀ j w, j < i → vs[j]? = some w → ¬ SameText w v

/-- Values are those at the places that are first, from left to right. -/
def FirstOfEach (vs ys : List Value) : Prop :=
  ∃ places : List Nat, places.Pairwise (· < ·) ∧ places.filterMap (vs[·]?) = ys ∧ ∀ i, i ∈ places ↔ IsFirst vs i

/-- The text of a value, empty if it has none. -/
def textOf (v : Value) : String := v.display.toOption.getD ""

/-- Every value has a text. -/
def HaveTexts (vs : List Value) : Prop := ∀ v ∈ vs, v.display = .ok v.textOf

variable {vs ws ys zs : List Value} {v w : Value}

/-- The values can be told apart: there are not two of them, or every one has a text. -/
def ToldApart (vs : List Value) : Prop := vs.length ≤ 1 ∨ HaveTexts vs

theorem display_eq_textOf {text : String} (h : v.display = .ok text) : v.display = .ok v.textOf := by
  simp [textOf, h, Except.toOption]

/-- Of values of JSON those have texts in which no whole number is too long. -/
theorem haveTexts_iff (hvs : ∀ v ∈ vs, v.isJson = true) : HaveTexts vs ↔ ∀ v ∈ vs, v.isWritable = true := by
  refine forall₂_congr fun v hv => ?_
  rw [← (writes_display (hvs v hv)).iff]
  exact ⟨fun h => ⟨_, h⟩, fun ⟨_, h⟩ => display_eq_textOf h⟩

theorem sameText_iff (hv : v.display = .ok v.textOf) (hw : w.display = .ok w.textOf) :
    SameText v w ↔ v.textOf = w.textOf := by
  constructor
  · rintro ⟨text, htext, htext'⟩
    rw [hv] at htext
    rw [hw] at htext'
    exact Except.ok.inj (htext.trans htext'.symm)
  · intro h
    exact ⟨w.textOf, h ▸ hv, hw⟩

/-! ## Places -/

/-- Values with their texts. -/
def withTexts (vs : List Value) : List (String × Value) := vs.map fun v => (v.textOf, v)

theorem distinct_eq (h : HaveTexts vs) : distinct vs = .ok (firstOfEachText [] (withTexts vs)) := by
  have htexts : vs.mapM display = .ok (vs.map textOf) := by
    rw [mapM_eq_ok_iff, List.forall₂_map_right_iff, List.forall₂_same]
    exact h
  unfold distinct
  split
  · rfl
  · have hzip : (vs.map textOf).zip vs = withTexts vs := by
      simpa [withTexts] using List.zip_map' (l := vs) (f := textOf) (g := id)
    rw [htexts, ok_bind, hzip]
    rfl

/-- The value at a place has a text that was not seen before. -/
def IsNew (seen : List String) (vs : List Value) (i : Nat) : Prop :=
  ∃ v, vs[i]? = some v ∧ v.textOf ∉ seen ∧ ∀ j w, j < i → vs[j]? = some w → w.textOf ≠ v.textOf

theorem isNew_cons_zero {seen : List String} : IsNew seen (v :: vs) 0 ↔ v.textOf ∉ seen := by
  constructor
  · rintro ⟨_, ⟨⟩, hnew, -⟩
    exact hnew
  · exact fun hnew => ⟨v, rfl, hnew, nofun⟩

/-- After the first value its text was seen, too. -/
theorem isNew_cons_succ {seen : List String} {i : Nat} :
    IsNew seen (v :: vs) (i + 1) ↔ IsNew (seen ++ [v.textOf]) vs i := by
  refine exists_congr fun u => and_congr_right fun _ => ?_
  rw [List.mem_append, List.mem_singleton, not_or, and_assoc]
  refine and_congr_right fun _ => ⟨fun h => ⟨?_, fun j w hj hw => ?_⟩, fun ⟨hne, h⟩ j w hj hw => ?_⟩
  · exact (h 0 v (Nat.succ_pos i) rfl).symm
  · exact h (j + 1) w (Nat.succ_lt_succ hj) hw
  · cases j with
    | zero =>
      cases hw
      exact Ne.symm hne
    | succ j => exact h j w (Nat.lt_of_succ_lt_succ hj) hw

theorem isNew_append_of_mem {seen : List String} {text : String} (h : text ∈ seen) {i : Nat} :
    IsNew (seen ++ [text]) vs i ↔ IsNew seen vs i := by
  refine exists_congr fun u => and_congr_right fun _ => and_congr_left fun _ => not_congr ?_
  rw [List.mem_append, List.mem_singleton, or_iff_left_iff_imp]
  rintro rfl
  exact h

/-- What is kept beside the texts that were seen before, by its places. -/
theorem exists_places (seen : List String) (vs : List Value) :
    ∃ places : List Nat, places.Pairwise (· < ·) ∧
      places.filterMap (vs[·]?) = firstOfEachText seen (withTexts vs) ∧ ∀ i, i ∈ places ↔ IsNew seen vs i := by
  induction vs generalizing seen with
  | nil => exact ⟨[], .nil, rfl, by simp [IsNew]⟩
  | cons v rest ih =>
    have hshift : ∀ places : List Nat,
        (places.map (· + 1)).filterMap ((v :: rest)[·]?) = places.filterMap (rest[·]?) := by
      intro places
      rw [List.filterMap_map]
      rfl
    have hascend : ∀ places : List Nat, places.Pairwise (· < ·) → (places.map (· + 1)).Pairwise (· < ·) :=
      fun places h => h.map _ fun _ _ => Nat.succ_lt_succ
    by_cases hseen : v.textOf ∈ seen
    · obtain ⟨places, hplaces, hkept, hiff⟩ := ih seen
      refine ⟨places.map (· + 1), hascend places hplaces, ?_, fun i => ?_⟩
      · rw [hshift, hkept, withTexts, withTexts, List.map_cons, firstOfEachText, if_pos (by simpa using hseen)]
      · cases i with
        | zero => exact iff_of_false (by simp) (mt isNew_cons_zero.1 (not_not_intro hseen))
        | succ i =>
          rw [isNew_cons_succ, isNew_append_of_mem hseen, ← hiff]
          simp
    · obtain ⟨places, hplaces, hkept, hiff⟩ := ih (seen ++ [v.textOf])
      refine ⟨0 :: places.map (· + 1), ?_, ?_, fun i => ?_⟩
      · exact List.pairwise_cons.2 ⟨by simp, hascend places hplaces⟩
      · rw [List.filterMap_cons, hshift, hkept, withTexts, withTexts, List.map_cons, firstOfEachText,
          if_neg (by simpa using hseen)]
        rfl
      · cases i with
        | zero => exact iff_of_true (by simp) (isNew_cons_zero.2 hseen)
        | succ i =>
          rw [isNew_cons_succ, ← hiff]
          simp

theorem distinct_of_short (h : vs.length ≤ 1) : distinct vs = .ok vs := by
  match vs, h with
  | [], _ => rfl
  | [_], _ => rfl

/-- Values without duplicates were told apart. -/
theorem toldApart_of_distinct (h : distinct vs = .ok ys) : ToldApart vs := by
  unfold distinct at h
  split at h
  · exact .inl (Nat.le_refl 1)
  · obtain ⟨texts, htexts, -⟩ := bind_eq_ok.1 h
    refine .inr fun v hv => ?_
    obtain ⟨text, htext⟩ := exists_mapM_iff.1 ⟨texts, htexts⟩ v hv
    exact display_eq_textOf htext

theorem distinct_fails (hvs : ∀ v ∈ vs, v.isJson = true) : FailsOnly (· = .badValue) (distinct vs) := by
  unfold distinct
  split
  · exact .ok _
  · refine FailsOnly.map (fun fault hfault => ?_) _
    obtain ⟨_, v, _, rfl, -, hdisplay⟩ := mapM_eq_error_iff.1 hfault
    exact (writes_display (hvs v (by simp))).fails fault hdisplay

/-- Values of JSON that cannot be told apart have no result. -/
theorem distinct_of_not_toldApart (hvs : ∀ v ∈ vs, v.isJson = true) (h : ¬ToldApart vs) :
    distinct vs = .error .badValue := by
  cases hdistinct : distinct vs with
  | ok ys => exact absurd (toldApart_of_distinct hdistinct) h
  | error fault => rw [distinct_fails hvs fault hdistinct]

theorem exists_firstOfEach (h : HaveTexts vs) : ∃ ys, distinct vs = .ok ys ∧ FirstOfEach vs ys := by
  obtain ⟨places, hplaces, hkept, hiff⟩ := exists_places [] vs
  refine ⟨_, distinct_eq h, places, hplaces, hkept, fun i => (hiff i).trans (exists_congr fun v => ?_)⟩
  refine and_congr_right fun hv => ?_
  have htext := h v (List.mem_of_getElem? hv)
  have hother : ∀ j w, vs[j]? = some w → (w.textOf ≠ v.textOf ↔ ¬ SameText w v) := fun j w hw =>
    not_congr (sameText_iff (h w (List.mem_of_getElem? hw)) htext).symm
  exact ⟨fun ⟨_, hne⟩ j w hj hw => (hother j w hw).1 (hne j w hj hw),
    fun hne => ⟨List.not_mem_nil, fun j w hj hw => (hother j w hw).2 (hne j w hj hw)⟩⟩

/-! ## What is kept -/

namespace FirstOfEach

theorem of_short (h : vs.length ≤ 1) : FirstOfEach vs vs := by
  match vs, h with
  | [], _ => exact ⟨[], .nil, rfl, by simp [IsFirst]⟩
  | [v], _ =>
    refine ⟨[0], List.pairwise_singleton _ _, rfl, fun i => ?_⟩
    cases i with
    | zero => exact iff_of_true (List.mem_singleton_self _) ⟨v, rfl, nofun⟩
    | succ i => exact iff_of_false (by simp) (by simp [IsFirst])

theorem subset (h : FirstOfEach vs ys) (hv : v ∈ ys) : v ∈ vs := by
  obtain ⟨places, -, rfl, -⟩ := h
  obtain ⟨i, -, hi⟩ := List.mem_filterMap.1 hv
  exact List.mem_of_getElem? hi

/-- No two of the values that are kept have the same text. -/
theorem pairwise (h : FirstOfEach vs ys) : ys.Pairwise fun v w => ¬ SameText v w := by
  obtain ⟨places, hplaces, rfl, hfirst⟩ := h
  rw [List.pairwise_filterMap]
  refine hplaces.imp_of_mem fun {i j} _ hj hlt v hv w hw => ?_
  obtain ⟨_, hw', hnew⟩ := (hfirst j).1 hj
  obtain rfl := Option.some.inj (hw.symm.trans hw')
  exact hnew i v hlt hv

/-- Each value has the text of one that is kept: the first with this text. -/
theorem exists_mem (h : FirstOfEach vs ys) (htexts : HaveTexts vs) (hv : v ∈ vs) : ∃ w ∈ ys, SameText v w := by
  obtain ⟨places, -, rfl, hfirst⟩ := h
  obtain ⟨i, hi⟩ := List.mem_iff_getElem?.1 hv
  -- on the place: a value that is not first has the text of one before it
  induction i using Nat.strongRecOn generalizing v with
  | ind i ih =>
    by_cases hnew : IsFirst vs i
    · exact ⟨v, List.mem_filterMap.2 ⟨i, (hfirst i).2 hnew, hi⟩, v.textOf, htexts v hv, htexts v hv⟩
    · obtain ⟨j, w, hj, hw, hsame⟩ : ∃ j w, j < i ∧ vs[j]? = some w ∧ SameText w v := by
        by_contra hnone
        exact hnew ⟨v, hi, fun j w hj hw hsame => hnone ⟨j, w, hj, hw, hsame⟩⟩
      obtain ⟨u, hu, text, hwtext, hutext⟩ := ih j hj (List.mem_of_getElem? hw) hw
      obtain ⟨text', hwtext', hvtext⟩ := hsame
      obtain rfl := Except.ok.inj (hwtext.symm.trans hwtext')
      exact ⟨u, hu, text, hvtext, hutext⟩

theorem haveTexts (h : FirstOfEach vs ys) (htexts : HaveTexts vs) : HaveTexts ys := fun v hv => htexts v (h.subset hv)

/-- The texts of what is kept are those of all values, each once. -/
theorem nodup_texts (h : FirstOfEach vs ys) (htexts : HaveTexts vs) : (ys.map textOf).Nodup := by
  rw [List.Nodup, List.pairwise_map]
  have hys := h.haveTexts htexts
  exact h.pairwise.imp_of_mem fun hv hw => mt (sameText_iff (hys _ hv) (hys _ hw)).2

theorem mem_texts (h : FirstOfEach vs ys) (htexts : HaveTexts vs) (text : String) :
    text ∈ ys.map textOf ↔ text ∈ vs.map textOf := by
  simp only [List.mem_map]
  constructor
  · rintro ⟨v, hv, rfl⟩
    exact ⟨v, h.subset hv, rfl⟩
  · rintro ⟨v, hv, rfl⟩
    obtain ⟨w, hw, hsame⟩ := h.exists_mem htexts hv
    exact ⟨w, hw, ((sameText_iff (htexts v hv) (h.haveTexts htexts w hw)).1 hsame).symm⟩

/-- As many values are kept of the same values in another order. -/
theorem length_eq (h : FirstOfEach vs ys) (h' : FirstOfEach ws zs) (htexts : HaveTexts vs) (hperm : ws.Perm vs) :
    zs.length = ys.length := by
  have htexts' : HaveTexts ws := fun v hv => htexts v (hperm.mem_iff.1 hv)
  have hsame : (zs.map textOf).Perm (ys.map textOf) := by
    rw [List.perm_ext_iff_of_nodup (h'.nodup_texts htexts') (h.nodup_texts htexts)]
    intro text
    rw [h'.mem_texts htexts', h.mem_texts htexts, (hperm.map textOf).mem_iff]
  simpa using hsame.length_eq

end FirstOfEach

/-- Values with different texts, none of them seen before, are all kept. -/
theorem firstOfEachText_of_pairwise {seen : List String} (hseen : ∀ v ∈ vs, v.textOf ∉ seen)
    (h : vs.Pairwise fun v w => v.textOf ≠ w.textOf) : firstOfEachText seen (withTexts vs) = vs := by
  induction vs generalizing seen with
  | nil => rfl
  | cons v rest ih =>
    obtain ⟨hv, hrest⟩ := List.forall_mem_cons.1 hseen
    obtain ⟨hne, hpairs⟩ := List.pairwise_cons.1 h
    rw [withTexts, List.map_cons, firstOfEachText, if_neg (by simpa using hv)]
    refine congrArg (v :: ·) (ih (fun w hw => ?_) hpairs)
    rw [List.mem_append, List.mem_singleton, not_or]
    exact ⟨hrest w hw, (hne w hw).symm⟩

theorem distinct_of_firstOfEach (h : FirstOfEach vs ys) (htexts : HaveTexts vs) : distinct ys = .ok ys := by
  have hpairs : ys.Pairwise fun v w => v.textOf ≠ w.textOf := List.pairwise_map.1 (h.nodup_texts htexts)
  rw [distinct_eq (h.haveTexts htexts), firstOfEachText_of_pairwise (fun _ _ => List.not_mem_nil) hpairs]

/-! ## Counting

Aggregates count the values without duplicates among the items or among their entries under a key. -/

theorem mapM_perm {α β : Type} {read : α → Except Fault β} {xs ys : List α} {as : List β} (hperm : ys.Perm xs)
    (h : xs.mapM read = .ok as) : ∃ bs, ys.mapM read = .ok bs ∧ bs.Perm as := by
  obtain ⟨bs, hbs, hsame⟩ := List.perm_comp_forall₂ hperm (mapM_eq_ok_iff.1 h)
  exact ⟨bs, mapM_eq_ok_iff.2 hbs, hsame⟩

theorem pluck_perm {key : Value} (hperm : ws.Perm vs) (h : pluck vs key = .ok ys) :
    ∃ zs, pluck ws key = .ok zs ∧ zs.Perm ys := by
  obtain ⟨found, hfound, heq⟩ := bind_eq_ok.1 h
  cases heq
  obtain ⟨others, hothers, hsame⟩ := mapM_perm hperm hfound
  exact ⟨others.filterMap id, bind_eq_ok.2 ⟨others, hothers, rfl⟩, hsame.filterMap id⟩

theorem aggregate_distinct (h : distinct vs = .ok ys) (numbers : List Number) :
    Node.aggregate (.str "distinct") vs numbers = .ok (.ofNat ys.length) := by
  rw [Node.aggregate, h]
  rfl

/-- Items in another order have as many values without duplicates. -/
theorem distinct_perm (hperm : ws.Perm vs) (h : distinct vs = .ok ys) :
    ∃ zs, distinct ws = .ok zs ∧ zs.length = ys.length := by
  rcases toldApart_of_distinct h with hshort | htexts
  · rw [distinct_of_short hshort] at h
    cases h
    exact ⟨ws, distinct_of_short (hperm.length_eq.trans_le hshort), hperm.length_eq⟩
  · obtain ⟨us, hus, hfirst⟩ := exists_firstOfEach htexts
    obtain rfl := Except.ok.inj (h.symm.trans hus)
    obtain ⟨zs, hzs, hfirst'⟩ := exists_firstOfEach fun v hv => htexts v (hperm.mem_iff.1 hv)
    exact ⟨zs, hzs, hfirst.length_eq hfirst' htexts hperm⟩

/-- The values that an operation of an aggregate works on: the items, or their entries under a key. -/
def operands (vs : List Value) (field : Value) : Except Fault (List Value) :=
  if field.isPresent then pluck vs field else .ok vs

theorem addAggregate_eq (vs : List Value) (results : List (Scalar × Value)) (operation : Value) :
    Node.addAggregate vs results operation = do
      let field ← operation.entry "field"
      let type ← operation.entryOr "type" (.str "count")
      let name ← operation.entry "alias"
      let values ← operands vs field
      let numbers ← (values.filter isNumeric).mapM toNumber
      let result ← Node.aggregate type values numbers
      return Entries.insert results (← (name.orElse type).toKey) result := by
  unfold Node.addAggregate operands
  refine bind_congr fun field => ?_
  split <;> rfl

theorem operands_perm {field : Value} (hperm : ws.Perm vs) (h : operands vs field = .ok ys) :
    ∃ zs, operands ws field = .ok zs ∧ zs.Perm ys := by
  by_cases hpresent : field.isPresent = true
  · simp only [operands, if_pos hpresent] at h ⊢
    exact pluck_perm hperm h
  · simp only [operands, if_neg hpresent] at h ⊢
    cases h
    exact ⟨ws, rfl, hperm⟩

/-- The count of values without duplicates that a node adds to its results does not depend on the order of its
items, whether it counts the items themselves or their entries under a key. -/
theorem addAggregate_perm {operation : Value} {results after : List (Scalar × Value)} (hperm : ws.Perm vs)
    (htype : operation.entryOr "type" (.str "count") = .ok (.str "distinct"))
    (h : Node.addAggregate vs results operation = .ok after) :
    Node.addAggregate ws results operation = .ok after := by
  rw [addAggregate_eq] at h ⊢
  obtain ⟨field, hfield, h⟩ := bind_eq_ok.1 h
  obtain ⟨type, htype', h⟩ := bind_eq_ok.1 h
  obtain rfl := Except.ok.inj (htype.symm.trans htype')
  obtain ⟨name, hname, h⟩ := bind_eq_ok.1 h
  obtain ⟨values, hvalues, h⟩ := bind_eq_ok.1 h
  obtain ⟨numbers, hnumbers, h⟩ := bind_eq_ok.1 h
  obtain ⟨count, hcount, h⟩ := bind_eq_ok.1 h
  obtain ⟨others, hothers, hsame⟩ := operands_perm hperm hvalues
  obtain ⟨numbers', hnumbers', -⟩ := mapM_perm (hsame.filter isNumeric) hnumbers
  obtain ⟨found, hfound, heq⟩ := bind_eq_ok.1 hcount
  cases heq
  obtain ⟨found', hfound', hlength⟩ := distinct_perm hsame hfound
  have hcount' := aggregate_distinct hfound' numbers'
  rw [hlength] at hcount'
  exact bind_eq_ok.2 ⟨field, hfield, bind_eq_ok.2 ⟨_, htype, bind_eq_ok.2 ⟨name, hname,
    bind_eq_ok.2 ⟨others, hothers, bind_eq_ok.2 ⟨numbers', hnumbers', bind_eq_ok.2 ⟨_, hcount', h⟩⟩⟩⟩⟩⟩

/-- Of values of JSON those are kept that have the text of no earlier one, in their order; there is a result unless
one of several values has a whole number with too many digits. Keeping the values again changes nothing, no two of
them have the same text, and each value is kept or has the text of one that is. The values in another order have as many
without duplicates, and so have the nodes that count them. -/
theorem distinct_keeps_first (hvs : ∀ v ∈ vs, v.isJson = true) :
    (¬(vs.length ≤ 1 ∨ ∀ v ∈ vs, v.isWritable = true) → distinct vs = .error .badValue) ∧
    (vs.length ≤ 1 ∨ (∀ v ∈ vs, v.isWritable = true) →
      ∃ ys, distinct vs = .ok ys ∧ FirstOfEach vs ys ∧ distinct ys = .ok ys ∧
        (ys.Pairwise fun v w => ¬ SameText v w) ∧ (∀ v ∈ vs, ∃ w ∈ ys, v = w ∨ SameText v w) ∧
        ∀ ws, ws.Perm vs →
          (∃ zs, distinct ws = .ok zs ∧ zs.length = ys.length) ∧
          (∀ numbers, Node.aggregate (.str "distinct") ws numbers = .ok (.ofNat ys.length)) ∧
          ∀ operation results after, operation.entryOr "type" (.str "count") = .ok (.str "distinct") →
            Node.addAggregate vs results operation = .ok after →
            Node.addAggregate ws results operation = .ok after) := by
  have htold : ToldApart vs ↔ vs.length ≤ 1 ∨ ∀ v ∈ vs, v.isWritable = true := or_congr_right (haveTexts_iff hvs)
  refine ⟨fun h => distinct_of_not_toldApart hvs (mt htold.1 h), fun h => ?_⟩
  obtain ⟨ys, hys, hfirst, hagain, hmem⟩ : ∃ ys, distinct vs = .ok ys ∧ FirstOfEach vs ys ∧ distinct ys = .ok ys ∧
      ∀ v ∈ vs, ∃ w ∈ ys, v = w ∨ SameText v w := by
    rcases htold.2 h with hshort | htexts
    · have hvs' := distinct_of_short hshort
      exact ⟨vs, hvs', .of_short hshort, hvs', fun v hv => ⟨v, hv, .inl rfl⟩⟩
    · obtain ⟨ys, hys, hfirst⟩ := exists_firstOfEach htexts
      refine ⟨ys, hys, hfirst, distinct_of_firstOfEach hfirst htexts, fun v hv => ?_⟩
      obtain ⟨w, hw, hsame⟩ := hfirst.exists_mem htexts hv
      exact ⟨w, hw, .inr hsame⟩
  refine ⟨ys, hys, hfirst, hagain, hfirst.pairwise, hmem, fun ws hperm => ?_⟩
  obtain ⟨zs, hzs, hlength⟩ := distinct_perm hperm hys
  refine ⟨⟨zs, hzs, hlength⟩, fun numbers => ?_, fun operation results after => addAggregate_perm hperm⟩
  rw [aggregate_distinct hzs, hlength]

/-- Tickets: a number and its numeral, a truth value and its word, and lists that are written alike. -/
def tickets : List Value :=
  [.int 1, .str "true", .str "1", .list [.int 1, .null], .bool true, .str "[1, null]", .int 2]

theorem distinct_keeps_first_tickets :
    (∀ v ∈ tickets, v.isJson = true) ∧
    (∃ ys, distinct tickets = .ok ys ∧ FirstOfEach tickets ys ∧ distinct ys = .ok ys ∧
      Node.aggregate (.str "distinct") tickets.reverse [] = .ok (.ofNat ys.length)) ∧
    (distinct tickets).toOption.map (·.map quoted) = some ["1", "'true'", "[1, None]", "2"] := by
  have hjson : ∀ v ∈ tickets, v.isJson = true := by decide
  have hwritable : ∀ v ∈ tickets, v.isWritable = true := by decide +kernel
  obtain ⟨ys, hys, hfirst, hagain, -, -, hreordered⟩ := (distinct_keeps_first hjson).2 (.inr hwritable)
  have hcount := (hreordered tickets.reverse (List.reverse_perm tickets)).2.1 []
  exact ⟨hjson, ⟨ys, hys, hfirst, hagain, hcount⟩, by decide +kernel⟩

/-- Beside another value a whole number with too many digits has no text to be told by. -/
theorem distinct_fails_long : (∀ v ∈ [.int (tenTo 8000), .int 1], isJson v = true) ∧
    distinct [.int (tenTo 8000), .int 1] = .error .badValue := by
  have hlong : (Value.int (tenTo 8000)).display = .error .badValue := by
    have hwrites := writes_display (v := .int (tenTo 8000)) rfl
    have hunwritable : (Value.int (tenTo 8000)).isWritable = false := by decide +kernel
    rwa [hunwritable] at hwrites
  refine ⟨List.forall_mem_cons.2 ⟨rfl, List.forall_mem_singleton.2 rfl⟩, ?_⟩
  rw [distinct, List.mapM_cons, hlong]
  · rfl
  · nofun

end Flowline.Value
