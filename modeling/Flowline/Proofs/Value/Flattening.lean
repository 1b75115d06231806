import Flowline.Value.Collection
import Mathlib.Data.List.Flatten
import Mathlib.Data.List.Lex

/-! # Flattening

Containers opened down to a depth. The budget is the same for all members of a container and goes down by one on
the way to them, so budgets add up, and one that reaches every container leaves the values without members, from
left to right. -/

namespace Flowline.Value

/-! ## Members -/

theorem sizeOf_lt_of_mem_members {u v : Value} (h : u ∈ v.members) : sizeOf u < sizeOf v := by
  match v with
  | .list items =>
    have hlt : sizeOf u < sizeOf items := List.sizeOf_lt_of_mem h
    simp only [Value.list.sizeOf_spec]
    omega
  | .map entries =>
    obtain ⟨entry, hentry, rfl⟩ := List.mem_map.1 h
    have hlt : sizeOf entry < sizeOf entries := List.sizeOf_lt_of_mem hentry
    have hpair : sizeOf entry = 1 + sizeOf entry.1 + sizeOf entry.2 := by
      cases entry
      rfl
    simp only [Value.map.sizeOf_spec]
    omega
  | .scalar _ => simp [members] at h
  | .set _ => simp [members] at h

/-- What holds of a value whenever it holds of its members holds of every value. -/
theorem forall_of_members {P : Value → Prop} (step : ∀ v, (∀ u ∈ v.members, P u) → P v) (v : Value) : P v :=
  step v fun u _ => forall_of_members step u
termination_by sizeOf v
decreasing_by exact sizeOf_lt_of_mem_members (by assumption)

mutual

/-- How many containers are inside each other in a value, at most. -/
def nesting : Value → Nat
  | .list items => nestingOf items + 1
  | .map entries => nestingOfEntries entries + 1
  | _ => 0

def nestingOf : List Value → Nat
  | [] => 0
  | v :: rest => max (nesting v) (nestingOf rest)

def nestingOfEntries : List (Scalar × Value) → Nat
  | [] => 0
  | (_, v) :: rest => max (nesting v) (nestingOfEntries rest)

end

theorem nestingOfEntries_eq (entries : List (Scalar × Value)) :
    nestingOfEntries entries = nestingOf (entries.map (·.2)) := by
  induction entries with
  | nil => rfl
  | cons entry rest ih => simp only [nestingOfEntries, List.map_cons, nestingOf, ih]

theorem nesting_of_isContainer {v : Value} (h : v.isContainer = true) : v.nesting = nestingOf v.members + 1 := by
  match v with
  | .list _ => rfl
  | .map entries => simp only [nesting, members, nestingOfEntries_eq]
  | .scalar _ => cases h
  | .set _ => cases h

theorem nesting_le_nestingOf {v : Value} {vs : List Value} (h : v ∈ vs) : v.nesting ≤ nestingOf vs := by
  induction vs with
  | nil => cases h
  | cons u rest ih =>
    simp only [nestingOf]
    cases h with
    | head => omega
    | tail _ h =>
      have := ih h
      omega

/-! ## Flattening, value by value -/

theorem flattenItems_eq_flatMap (depth : Nat) (vs : List Value) :
    flattenItems depth vs = vs.flatMap (flattenItem depth) := by
  induction vs with
  | nil => rfl
  | cons v rest ih => simp only [flattenItems, List.flatMap_cons, ih]

theorem flattenEntries_eq (depth : Nat) (entries : List (Scalar × Value)) :
    flattenEntries depth entries = flattenItems depth (entries.map (·.2)) := by
  induction entries with
  | nil => rfl
  | cons entry rest ih => simp only [flattenEntries, List.map_cons, flattenItems, ih]

theorem flattenItem_of_not_isContainer {v : Value} (h : v.isContainer = false) (depth : Nat) :
    flattenItem depth v = [v] := by
  match v with
  | .scalar _ => simp only [flattenItem]
  | .set _ => simp only [flattenItem]
  | .list _ => cases h
  | .map _ => cases h

@[simp] theorem flattenItem_zero (v : Value) : flattenItem 0 v = [v] := by
  cases v <;> simp only [flattenItem]

theorem flattenItem_succ {v : Value} (h : v.isContainer = true) (depth : Nat) :
    flattenItem (depth + 1) v = flattenItems depth v.members := by
  match v with
  | .list _ => simp only [flattenItem, members]
  | .map _ => simp only [flattenItem, members, flattenEntries_eq]
  | .scalar _ => cases h
  | .set _ => cases h

theorem flattenItems_append (depth : Nat) (xs ys : List Value) :
    flattenItems depth (xs ++ ys) = flattenItems depth xs ++ flattenItems depth ys := by
  simp only [flattenItems_eq_flatMap, List.flatMap_append]

theorem flattenItem_add (a b : Nat) (v : Value) : flattenItem (a + b) v = flattenItems b (flattenItem a v) := by
  induction v using forall_of_members generalizing a with
  | step v ih =>
    cases hv : v.isContainer with
    | false =>
      rw [flattenItem_of_not_isContainer hv, flattenItem_of_not_isContainer hv, flattenItems_eq_flatMap,
        List.flatMap_singleton, flattenItem_of_not_isContainer hv]
    | true =>
      cases a with
      | zero => simp [flattenItems_eq_flatMap]
      | succ a =>
        have hmembers : v.members.flatMap (flattenItem (a + b)) =
            v.members.flatMap fun u => flattenItems b (flattenItem a u) :=
          List.flatMap_congr fun u hu => ih u hu a
        rw [Nat.add_right_comm, flattenItem_succ hv, flattenItem_succ hv]
        simp only [flattenItems_eq_flatMap] at hmembers ⊢
        rw [hmembers, List.flatMap_assoc]

theorem flattenItems_add (a b : Nat) (vs : List Value) :
    flattenItems (a + b) vs = flattenItems b (flattenItems a vs) := by
  have hvs : vs.flatMap (flattenItem (a + b)) = vs.flatMap fun v => flattenItems b (flattenItem a v) :=
    List.flatMap_congr fun v _ => flattenItem_add a b v
  simp only [flattenItems_eq_flatMap] at hvs ⊢
  rw [hvs, List.flatMap_assoc]

/-! ## Leaves -/

/-- A value that is no container stands in another one, at the end of a way from member to member. -/
inductive LeafAt : Value → List Nat → Value → Prop
  | here {v : Value} (hleaf : v.isContainer = false) : LeafAt v [] v
  | inside {v u leaf : Value} {i : Nat} {way : List Nat} (hmember : v.members[i]? = some u)
      (hleaf : LeafAt u way leaf) : LeafAt v (i :: way) leaf

/-- Values are all those that stand at a way, each once, from left to right. -/
def InOrder (stands : List Nat → Value → Prop) (vs : List Value) : Prop :=
  ∃ found : List (List Nat × Value), found.map (·.2) = vs ∧ (found.map (·.1)).Pairwise (· < ·) ∧
    ∀ way v, (way, v) ∈ found ↔ stands way v

namespace InOrder

variable {stands others : List Nat → Value → Prop} {vs ws : List Value}

theorem congr (h : InOrder stands vs) (hiff : ∀ way v, stands way v ↔ others way v) : InOrder others vs := by
  obtain ⟨found, hvs, hsorted, hfound⟩ := h
  exact ⟨found, hvs, hsorted, fun way v => (hfound way v).trans (hiff way v)⟩

theorem nil (h : ∀ way v, ¬ stands way v) : InOrder stands [] :=
  ⟨[], rfl, List.Pairwise.nil, fun way v => by simp [h way v]⟩

theorem under (h : InOrder stands vs) (i : Nat) :
    InOrder (fun way v => ∃ rest, way = i :: rest ∧ stands rest v) vs := by
  obtain ⟨found, rfl, hsorted, hfound⟩ := h
  refine ⟨found.map fun (way, v) => (i :: way, v), ?_, ?_, ?_⟩
  · simp
  · have hcons : ∀ a b : List Nat, a < b → i :: a < i :: b := fun a b => List.cons_lt_cons_iff.2 ∘ .inr ∘ .intro rfl
    simpa [Function.comp_def] using hsorted.map _ hcons
  · intro way v
    constructor
    · intro h
      obtain ⟨⟨rest, _⟩, hmem, heq⟩ := List.mem_map.1 h
      cases heq
      exact ⟨rest, rfl, (hfound rest v).1 hmem⟩
    · rintro ⟨rest, rfl, hrest⟩
      exact List.mem_map.2 ⟨(rest, v), (hfound rest v).2 hrest, rfl⟩

theorem append (h : InOrder stands vs) (k : InOrder others ws)
    (hlt : ∀ way v way' v', stands way v → others way' v' → way < way') :
    InOrder (fun way v => stands way v ∨ others way v) (vs ++ ws) := by
  obtain ⟨found, rfl, hsorted, hfound⟩ := h
  obtain ⟨found', rfl, hsorted', hfound'⟩ := k
  refine ⟨found ++ found', List.map_append, ?_, ?_⟩
  · rw [List.map_append, List.pairwise_append]
    refine ⟨hsorted, hsorted', ?_⟩
    intro a ha b hb
    obtain ⟨⟨way, v⟩, hmem, rfl⟩ := List.mem_map.1 ha
    obtain ⟨⟨way', v'⟩, hmem', rfl⟩ := List.mem_map.1 hb
    exact hlt way v way' v' ((hfound way v).1 hmem) ((hfound' way' v').1 hmem')
  · intro way v
    rw [List.mem_append, hfound, hfound']

end InOrder

/-- Members from a number on, of which each has its leaves in order, have them in order together. -/
theorem inOrder_flatMap {leaves : Value → List Value} {vs : List Value}
    (h : ∀ v ∈ vs, InOrder (LeafAt v) (leaves v)) (first : Nat) :
    InOrder (fun way leaf => ∃ i u rest, way = (first + i) :: rest ∧ vs[i]? = some u ∧ LeafAt u rest leaf)
      (vs.flatMap leaves) := by
  induction vs generalizing first with
  | nil => exact InOrder.nil (by simp)
  | cons v rest ih =>
    obtain ⟨hv, hrest⟩ := List.forall_mem_cons.1 h
    have hahead : InOrder _ (leaves v) := hv.under first
    have hbehind := ih hrest (first + 1)
    refine (hahead.append hbehind ?_).congr ?_
    · rintro _ _ _ _ ⟨way, rfl, -⟩ ⟨i, _, way', rfl, -⟩
      exact List.cons_lt_cons_iff.2 (.inl (by omega))
    · intro way leaf
      constructor
      · rintro (⟨way, rfl, hleaf⟩ | ⟨i, u, way, rfl, hu, hleaf⟩)
        · exact ⟨0, v, way, rfl, rfl, hleaf⟩
        · exact ⟨i + 1, u, way, by rw [Nat.add_right_comm, Nat.add_assoc], hu, hleaf⟩
      · rintro ⟨i, u, way, rfl, hu, hleaf⟩
        cases i with
        | zero =>
          cases hu
          exact .inl ⟨way, rfl, hleaf⟩
        | succ i => exact .inr ⟨i, u, way, by rw [Nat.add_right_comm, Nat.add_assoc], hu, hleaf⟩

theorem leafAt_iff_of_isContainer {v leaf : Value} {way : List Nat} (h : v.isContainer = true) :
    LeafAt v way leaf ↔ ∃ i u rest, way = i :: rest ∧ v.members[i]? = some u ∧ LeafAt u rest leaf := by
  constructor
  · intro hleaf
    cases hleaf with
    | here hnone =>
      rw [h] at hnone
      cases hnone
    | inside hmember hleaf => exact ⟨_, _, _, rfl, hmember, hleaf⟩
  · rintro ⟨i, u, rest, rfl, hmember, hleaf⟩
    exact .inside hmember hleaf

theorem leafAt_iff_of_not_isContainer {v leaf : Value} {way : List Nat} (h : v.isContainer = false) :
    LeafAt v way leaf ↔ way = [] ∧ leaf = v := by
  constructor
  · intro hleaf
    cases hleaf with
    | here => exact ⟨rfl, rfl⟩
    | inside hmember =>
      have hmembers : v.members = [] := by
        cases v <;> first | rfl | cases h
      simp [hmembers] at hmember
  · rintro ⟨rfl, rfl⟩
    exact .here h

/-- A budget that reaches every container of a value leaves its leaves. -/
theorem inOrder_flattenItem {v : Value} {depth : Nat} (h : v.nesting ≤ depth) :
    InOrder (LeafAt v) (flattenItem depth v) := by
  induction v using forall_of_members generalizing depth with
  | step v ih =>
    cases hv : v.isContainer with
    | false =>
      rw [flattenItem_of_not_isContainer hv]
      refine ⟨[([], v)], rfl, List.pairwise_singleton .., fun way leaf => ?_⟩
      rw [leafAt_iff_of_not_isContainer hv, List.mem_singleton, Prod.mk.injEq]
    | true =>
      rw [nesting_of_isContainer hv] at h
      obtain ⟨depth, rfl⟩ : ∃ less, depth = less + 1 := ⟨depth - 1, by omega⟩
      rw [flattenItem_succ hv, flattenItems_eq_flatMap]
      have hmembers : ∀ u ∈ v.members, InOrder (LeafAt u) (flattenItem depth u) := by
        intro u hu
        have := nesting_le_nestingOf hu
        exact ih u hu (by omega)
      refine (inOrder_flatMap hmembers 0).congr fun way leaf => ?_
      simp only [Nat.zero_add, leafAt_iff_of_isContainer hv]

/-! ## Items -/

/-- Flattening twice is flattening once with the budgets added; items put together are flattened each for
themselves; and a budget of at least the nesting of the items leaves all values in them that are no containers,
each once, from left to right. -/
theorem flatten_composes (xs ys : List Value) (a b depth : Int) (ha : 0 ≤ a) (hb : 0 ≤ b) :
    flatten xs (a + b) = flatten (flatten xs a) b ∧
    flatten (xs ++ ys) depth = flatten xs depth ++ flatten ys depth ∧
    (nestingOf xs ≤ depth → InOrder (LeafAt (.list xs)) (flatten xs depth)) := by
  refine ⟨?_, flattenItems_append depth.toNat xs ys, ?_⟩
  · unfold flatten
    rw [Int.toNat_add ha hb, flattenItems_add]
  · intro hdepth
    have hlist : (Value.list xs).nesting ≤ depth.toNat + 1 := by
      simp only [nesting]
      omega
    have hleaves := inOrder_flattenItem hlist
    rwa [flattenItem_succ rfl] at hleaves

/-- A list in a mapping in a list, opened by one and then by two, beside an empty list and a number. -/
theorem flatten_composes_mixed :
    let items : List Value := [.list [.int 1, .map [(.str "a", .list [.int 2, .null])]], .list [], .int 3]
    flatten items (1 + 2) = flatten (flatten items 1) 2 ∧
    flatten (items ++ items) 1 = flatten items 1 ++ flatten items 1 ∧
    nestingOf items = 3 ∧ InOrder (LeafAt (.list items)) (flatten items 3) ∧
    flatten items 3 = [.int 1, .int 2, .null, .int 3] := by
  intro items
  have hcomposes := flatten_composes items items 1 2 1 (by decide) (by decide)
  have hleaves := (flatten_composes items [] 0 0 3 (by decide) (by decide)).2.2
  exact ⟨hcomposes.1, hcomposes.2.1, rfl, hleaves (by decide), rfl⟩

end Flowline.Value
