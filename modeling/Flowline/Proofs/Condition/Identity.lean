import Flowline.Node.Decision
import Flowline.Proofs.Condition.Comparisons
import Flowline.Proofs.Session.Leads
import Flowline.Proofs.Value.Entries
import Mathlib.Data.List.Perm.Subperm

/-! # Strict equality

Two values are identical if they have the same type and value at every depth. Strict equality compares the types of the
two values alone: what is inside them is compared as numbers are, and there a truth value equals 0 or 1. -/

namespace Flowline

namespace Scalar

/-- Scalars of which each has one form: null, truth values, whole numbers and texts. -/
def isExact : Scalar → Bool
  | .null | .bool _ | .int _ | .str _ => true
  | _ => false

/-- Two scalars are the same one, or come to the same whole number. -/
def Alike (a b : Scalar) : Prop := a = b ∨ ∃ n, a.toInt? = some n ∧ b.toInt? = some n

variable {a b : Scalar}

theorem same_iff_alike (ha : a.isExact = true) (hb : b.isExact = true) : a.same b = true ↔ a.Alike b := by
  cases a <;> cases ha <;> cases b <;> cases hb <;> simp only [same, Alike, toInt?] <;> grind

end Scalar

namespace Value

/-- A value built from exact scalars by lists and by mappings with different texts as keys, at any depth. -/
inductive Exact : Value → Prop
  | scalar {s : Scalar} (h : s.isExact = true) : Exact (.scalar s)
  | list {items : List Value} (h : ∀ v ∈ items, Exact v) : Exact (.list items)
  | map {entries : List (Scalar × Value)} (htexts : ∀ p ∈ entries, ∃ key, p.1 = .str key)
    (hkeys : (entries.map Prod.fst).Nodup) (h : ∀ p ∈ entries, Exact p.2) : Exact (.map entries)

/-- Scalars are related, lists agree item by item, and mappings have the same keys and agree under each of them. -/
inductive Agree (R : Scalar → Scalar → Prop) : Value → Value → Prop
  | scalar {a b : Scalar} (h : R a b) : Agree R (.scalar a) (.scalar b)
  | list {xs ys : List Value} (hlength : xs.length = ys.length)
    (h : ∀ (i : Nat) (v w : Value), xs[i]? = some v → ys[i]? = some w → Agree R v w) : Agree R (.list xs) (.list ys)
  | map {xs ys : List (Scalar × Value)} (hkeys : ∀ key, key ∈ xs.map Prod.fst ↔ key ∈ ys.map Prod.fst)
    (h : ∀ key v w, (key, v) ∈ xs → (key, w) ∈ ys → Agree R v w) : Agree R (.map xs) (.map ys)

/-- The same type and value at every depth. -/
def Identical : Value → Value → Prop := Agree Eq

/-- At one place inside both values, one has a truth value and the other one a whole number. -/
inductive Confused : Value → Value → Prop
  | truth (b : Bool) (n : Int) : Confused (.bool b) (.int n)
  | number (n : Int) (b : Bool) : Confused (.int n) (.bool b)
  | item {xs ys : List Value} {i : Nat} {v w : Value} (hv : xs[i]? = some v) (hw : ys[i]? = some w)
    (h : Confused v w) : Confused (.list xs) (.list ys)
  | entry {xs ys : List (Scalar × Value)} {key : Scalar} {v w : Value} (hv : (key, v) ∈ xs) (hw : (key, w) ∈ ys)
    (h : Confused v w) : Confused (.map xs) (.map ys)

variable {v w : Value} {xs ys : List Value}

theorem eq_of_alike {a b : Scalar} (h : a.Alike b) (hclear : ¬Confused (.scalar a) (.scalar b)) : a = b := by
  obtain rfl | ⟨n, ha, hb⟩ := h
  · rfl
  cases a with
  | bool p =>
    cases b with
    | bool q => cases p <;> cases q <;> simp_all [Scalar.toInt?] <;> omega
    | int m => exact absurd (.truth p m) hclear
    | _ => cases hb
  | int m =>
    cases b with
    | bool q => exact absurd (.number m q) hclear
    | int k =>
      cases ha
      cases hb
      rfl
    | _ => cases hb
  | _ => cases ha

/-! ## Lists and mappings -/

theorem sameList_iff : sameList xs ys = true ↔
    xs.length = ys.length ∧ ∀ (i : Nat) (v w : Value), xs[i]? = some v → ys[i]? = some w → same v w = true := by
  induction xs generalizing ys with
  | nil => cases ys <;> simp [sameList]
  | cons x xs ih =>
    cases ys with
    | nil => simp [sameList]
    | cons y ys =>
      rw [sameList, Bool.and_eq_true, ih, List.length_cons, List.length_cons, Nat.add_right_cancel_iff]
      constructor
      · rintro ⟨hxy, hlength, h⟩
        refine ⟨hlength, fun i v w hv hw => ?_⟩
        cases i with
        | zero =>
          cases hv
          cases hw
          exact hxy
        | succ i => exact h i v w hv hw
      · rintro ⟨hlength, h⟩
        exact ⟨h 0 x y rfl rfl, hlength, fun i v w hv hw => h (i + 1) v w hv hw⟩

theorem sameEntries_iff {xs ys : List (Scalar × Value)} : sameEntries xs ys = true ↔
    ∀ p ∈ xs, ∃ w, Entries.get? ys p.1 = some w ∧ same p.2 w = true := by
  induction xs with
  | nil => simp [sameEntries]
  | cons p xs ih =>
    obtain ⟨key, v⟩ := p
    rw [sameEntries, Bool.and_eq_true, ih, List.forall_mem_cons]
    refine and_congr_left fun _ => ?_
    cases Entries.get? ys key <;> simp

/-- Under a text the entry is looked up, where no other one has it. -/
theorem get?_eq_some_iff {ys : List (Scalar × Value)} (hkeys : (ys.map Prod.fst).Nodup) {key : String} :
    Entries.get? ys (.str key) = some w ↔ (.str key, w) ∈ ys := by
  refine ⟨Entries.mem_of_get?, fun hmem => ?_⟩
  obtain ⟨before, after, rfl⟩ := List.append_of_mem hmem
  refine Entries.get?_append_cons (fun p hp heq => ?_) w
  rw [List.map_append, List.nodup_append] at hkeys
  exact hkeys.2.2 p.1 (List.mem_map_of_mem hp) (.str key) (by simp) heq

/-- Two mappings of the same size have the same keys where the keys of one of them are among those of the other. -/
theorem mem_keys_iff {xs ys : List (Scalar × Value)} (hxs : (xs.map Prod.fst).Nodup) (hlength : xs.length = ys.length)
    (hsubset : xs.map Prod.fst ⊆ ys.map Prod.fst) (key : Scalar) : key ∈ xs.map Prod.fst ↔ key ∈ ys.map Prod.fst := by
  have hperm := (List.subperm_of_subset hxs hsubset).perm_of_length_le (by simp [hlength])
  exact hperm.mem_iff

theorem same_map_iff {xs ys : List (Scalar × Value)} (hx : ∀ p ∈ xs, ∃ key, p.1 = .str key)
    (hxs : (xs.map Prod.fst).Nodup) (hys : (ys.map Prod.fst).Nodup) : same (.map xs) (.map ys) = true ↔
      (∀ key, key ∈ xs.map Prod.fst ↔ key ∈ ys.map Prod.fst) ∧
      ∀ key v w, (key, v) ∈ xs → (key, w) ∈ ys → same v w = true := by
  have hfound {key : Scalar} {v : Value} (w : Value) (hv : (key, v) ∈ xs) :
      Entries.get? ys key = some w ↔ (key, w) ∈ ys := by
    obtain ⟨text, rfl⟩ := hx _ hv
    exact get?_eq_some_iff hys
  rw [same, Bool.and_eq_true, beq_iff_eq, sameEntries_iff]
  constructor
  · rintro ⟨hlength, h⟩
    refine ⟨mem_keys_iff hxs hlength fun key hkey => ?_, fun key v w hv hw => ?_⟩
    · obtain ⟨p, hp, rfl⟩ := List.mem_map.1 hkey
      obtain ⟨w, hw, -⟩ := h p hp
      exact List.mem_map.2 ⟨_, (hfound w hp).1 hw, rfl⟩
    · obtain ⟨u, hu, hsame⟩ := h (key, v) hv
      rw [(hfound w hv).2 hw] at hu
      cases hu
      exact hsame
  · rintro ⟨hkeys, h⟩
    refine ⟨?_, fun p hp => ?_⟩
    · have hperm := (List.perm_ext_iff_of_nodup hxs hys).2 hkeys
      simpa using hperm.length_eq
    · obtain ⟨q, hq, hkey⟩ := List.mem_map.1 ((hkeys p.1).1 (List.mem_map_of_mem hp))
      have hq : (p.1, q.2) ∈ ys := by rwa [← hkey]
      exact ⟨q.2, (hfound q.2 hp).2 hq, h p.1 p.2 q.2 hp hq⟩

/-! ## What strict equality decides -/

/-- Equality goes by numbers at every depth. -/
theorem same_iff_agree (hv : v.Exact) (hw : w.Exact) : same v w = true ↔ Agree Scalar.Alike v w := by
  induction hv generalizing w with
  | scalar ha =>
    cases hw with
    | scalar hb =>
      rw [same, Scalar.same_iff_alike ha hb]
      refine ⟨.scalar, ?_⟩
      rintro ⟨h⟩
      exact h
    | _ => exact ⟨nofun, nofun⟩
  | @list xs _ ih =>
    cases hw with
    | @list ys hys =>
      have hitem (i : Nat) (v w : Value) (hv : xs[i]? = some v) (hw : ys[i]? = some w) :
          same v w = true ↔ Agree Scalar.Alike v w :=
        ih v (List.mem_of_getElem? hv) (hys w (List.mem_of_getElem? hw))
      rw [same, sameList_iff]
      constructor
      · rintro ⟨hlength, h⟩
        exact .list hlength fun i v w hv hw => (hitem i v w hv hw).1 (h i v w hv hw)
      · rintro ⟨⟩
        next hlength h => exact ⟨hlength, fun i v w hv hw => (hitem i v w hv hw).2 (h i v w hv hw)⟩
    | _ => exact ⟨nofun, nofun⟩
  | @map xs hx hxs _ ih =>
    cases hw with
    | @map ys hy hys hall =>
      have hentry (key : Scalar) (v w : Value) (hv : (key, v) ∈ xs) (hw : (key, w) ∈ ys) :
          same v w = true ↔ Agree Scalar.Alike v w := ih (key, v) hv (hall (key, w) hw)
      rw [same_map_iff hx hxs hys]
      constructor
      · rintro ⟨hkeys, h⟩
        exact .map hkeys fun key v w hv hw => (hentry key v w hv hw).1 (h key v w hv hw)
      · rintro ⟨⟩
        next hkeys h => exact ⟨hkeys, fun key v w hv hw => (hentry key v w hv hw).2 (h key v w hv hw)⟩
    | _ => exact ⟨nofun, nofun⟩

/-- Values that are equal by their numbers are identical unless a truth value stands for a number. -/
theorem identical_iff : Identical v w ↔ Agree Scalar.Alike v w ∧ ¬Confused v w := by
  constructor
  · intro h
    induction h with
    | scalar h =>
      subst h
      refine ⟨.scalar (.inl rfl), ?_⟩
      rintro ⟨⟩
    | list hlength _ ih =>
      refine ⟨.list hlength fun i v w hv hw => (ih i v w hv hw).1, fun hconfused => ?_⟩
      cases hconfused with
      | item hv hw h => exact (ih _ _ _ hv hw).2 h
    | map hkeys _ ih =>
      refine ⟨.map hkeys fun key v w hv hw => (ih key v w hv hw).1, fun hconfused => ?_⟩
      cases hconfused with
      | entry hv hw h => exact (ih _ _ _ hv hw).2 h
  · rintro ⟨h, hclear⟩
    induction h with
    | @scalar a b h =>
      exact .scalar (eq_of_alike h hclear)
    | list hlength _ ih =>
      exact .list hlength fun i v w hv hw => ih i v w hv hw fun hconfused => hclear (.item hv hw hconfused)
    | map hkeys _ ih =>
      exact .map hkeys fun key v w hv hw => ih key v w hv hw fun hconfused => hclear (.entry hv hw hconfused)

theorem strictEquals_iff (hv : v.Exact) (hw : w.Exact) :
    strictEquals v w = true ↔ v.typeName = w.typeName ∧ Agree Scalar.Alike v w := by
  rw [strictEquals, sameType, Bool.and_eq_true, beq_iff_eq, same_iff_agree hv hw]

theorem Identical.typeName_eq (h : Identical v w) : v.typeName = w.typeName := by
  cases h with
  | scalar h => rw [h]
  | list | map => rfl

end Value

/-! ## Where values are compared strictly -/

namespace Node

open Value

variable {s : Session} {w : Value} {cases candidates : List Value}

/-- What a switch gives for a case and its value. -/
def matched (case candidate : Value) : Except Fault NodeResult := do
  return .ok (.fixed (.object [("matched_case", candidate)])) (← case.entry "next_node")

/-- What a switch gives where no case has its value. -/
def unmatched (n : Node) : Except Fault NodeResult := do
  return .ok (.fixed (.object [("matched_case", .str "default")])) (← n.config.entry "default_next")

theorem run_firstMatching (h : List.Forall₂ (fun case c => case.entry "value" = .ok c) cases candidates) :
    (firstMatching w cases).run.run s =
      (match (cases.zip candidates).find? (fun p => strictEquals p.2 w) with
        | some p => (matched p.1 p.2).map some
        | none => .ok none, s) := by
  induction h with
  | nil => rfl
  | @cons case c cases candidates hc _ ih =>
    rw [firstMatching, hc, Run.of_ok_bind, List.zip_cons_cons, List.find?_cons]
    cases hequal : strictEquals c w with
    | true =>
      rw [if_pos rfl, run_bind]
      cases hnext : case.entry "next_node" <;> simp only [matched, hnext] <;> rfl
    | false =>
      rw [if_neg (by simp), ih]

theorem run_runSwitch {n : Node} {raw listed : Value} (hvalue : n.config.entryOr "value" (.str "") = .ok raw)
    (hresolved : Template.resolve raw s.execution.scope = .ok w) (hlisted : n.config.entry "cases" = .ok listed)
    (hcases : listed.iterateOrNone = .ok cases)
    (h : List.Forall₂ (fun case c => case.entry "value" = .ok c) cases candidates) :
    n.runSwitch.run.run s =
      (match (cases.zip candidates).find? (fun p => strictEquals p.2 w) with
        | some p => matched p.1 p.2
        | none => n.unmatched, s) := by
  have hitems : n.itemsOf "cases" = pure cases := by
    rw [itemsOf, hlisted, Run.of_ok_bind, hcases]
    rfl
  rw [runSwitch, hvalue, Run.of_ok_bind, run_resolve hresolved]
  rw [hitems, pure_bind, run_bind, run_firstMatching h]
  cases (cases.zip candidates).find? fun p => strictEquals p.2 w with
  | none =>
    dsimp only
    rw [run_bind]
    cases hnext : n.config.entry "default_next" <;> simp only [unmatched, hnext] <;> rfl
  | some p =>
    dsimp only
    cases matched p.1 p.2 <;> rfl

end Node

namespace Value

open Condition

variable {v w : Value}

/-- What a test for strict equality or its negation gives. -/
theorem runTest_strict [Calendar] (now : Moment) {context field value : Value} (hfield : Path.lookup field context = .ok v)
    (hvalue : expected context value = .ok w) :
    runTest (.standard now) context field (.str "strict_equals") value = .ok (strictEquals v w) ∧
    runTest (.standard now) context field (.str "strict_not_equals") value = .ok !(strictEquals v w) :=
  ⟨runTest_eq hfield hvalue rfl rfl nofun, runTest_eq hfield hvalue rfl rfl nofun⟩

/-- Strict equality of values whose parts are exact: they have the same type, and equal numbers wherever they have
truth values or numbers inside. So it is identity exactly where a truth value never stands for a number. The operators
of expressions, the tests of conditions and the cases of switches all go by it. -/
theorem strictly_equal_unless_confused [Calendar] (hv : v.Exact) (hw : w.Exact) :
    (strictEquals v w = true ↔ v.typeName = w.typeName ∧ Agree Scalar.Alike v w) ∧
    (Identical v w ↔ strictEquals v w = true ∧ ¬Confused v w) ∧
    (∀ library context left right, Expr.evaluate library context left = .ok v → right.evaluate library context = .ok w →
      (Expr.binary .strictEq left right).evaluate library context = .ok (.bool (strictEquals v w)) ∧
      (Expr.binary .strictNe left right).evaluate library context = .ok (.bool !(strictEquals v w))) ∧
    (∀ now context field value, Path.lookup field context = .ok v → expected context value = .ok w →
      runTest (.standard now) context field (.str "strict_equals") value = .ok (strictEquals v w) ∧
      runTest (.standard now) context field (.str "strict_not_equals") value = .ok !(strictEquals v w)) ∧
    ∀ (n : Node) (s : Session) (raw listed : Value) (cases candidates : List Value),
      n.config.entryOr "value" (.str "") = .ok raw → Template.resolve raw s.execution.scope = .ok w →
      n.config.entry "cases" = .ok listed → listed.iterateOrNone = .ok cases →
      List.Forall₂ (fun case c => case.entry "value" = .ok c) cases candidates →
      n.runSwitch.run.run s =
        (match (cases.zip candidates).find? (fun p => strictEquals p.2 w) with
          | some p => Node.matched p.1 p.2
          | none => n.unmatched, s) := by
  have hstrict := strictEquals_iff hv hw
  refine ⟨hstrict, ?_, ?_, fun now context field value => runTest_strict now, fun _ _ _ _ _ _ => Node.run_runSwitch⟩
  · rw [hstrict, identical_iff]
    constructor
    · rintro ⟨hagree, hclear⟩
      exact ⟨⟨(identical_iff.2 ⟨hagree, hclear⟩).typeName_eq, hagree⟩, hclear⟩
    · rintro ⟨⟨-, hagree⟩, hclear⟩
      exact ⟨hagree, hclear⟩
  · intro library context left right hleft hright
    exact ⟨evaluate_binary hleft hright (by decide), evaluate_binary hleft hright (by decide)⟩

/-- An order of cups, with its flags. -/
def cups (flag : Value) : Value := .map [(.str "cups", .list [.int 1, flag]), (.str "note", .null)]

theorem exact_cups {flag : Value} (h : flag.Exact) : (cups flag).Exact := by
  refine .map (by simp) (by simp) ?_
  rw [List.forall_mem_cons, List.forall_mem_singleton]
  exact ⟨.list (List.forall_mem_cons.2 ⟨.scalar rfl, List.forall_mem_singleton.2 h⟩), .scalar rfl⟩

/-- A truth value inside a mapping is taken for a number. -/
theorem strictly_equal_unless_confused_cups : (cups (.bool true)).Exact ∧ (cups (.int 1)).Exact ∧
    strictEquals (cups (.bool true)) (cups (.int 1)) = true ∧ ¬Identical (cups (.bool true)) (cups (.int 1)) := by
  have hv : (cups (.bool true)).Exact := exact_cups (.scalar rfl)
  have hw : (cups (.int 1)).Exact := exact_cups (.scalar rfl)
  obtain ⟨-, hidentical, -⟩ := strictly_equal_unless_confused hv hw
  refine ⟨hv, hw, by decide, fun h => (hidentical.1 h).2 ?_⟩
  have hitem : Confused (.list [.int 1, .bool true]) (.list [.int 1, .int 1]) := .item (i := 1) rfl rfl (.truth true 1)
  exact .entry (List.mem_cons_self ..) (List.mem_cons_self ..) hitem

/-- Lists of one item that differ in its type alone. -/
theorem listed_truth_equals_one :
    strictEquals (.list [.int 1]) (.list [.bool true]) = true ∧ strictEquals (.int 1) (.bool true) = false ∧
    ¬Identical (.list [.int 1]) (.list [.bool true]) := by
  refine ⟨by decide, by decide, fun h => (identical_iff.1 h).2 (.item (i := 0) rfl rfl (.number 1 true))⟩

end Value

end Flowline
