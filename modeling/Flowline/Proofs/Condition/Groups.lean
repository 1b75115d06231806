import Flowline.Condition.Evaluation
import Flowline.Proofs.Value.Entries
import Flowline.Proofs.Value.Records
import Flowline.Time.Reading

/-! # Groups of conditions

A group means what its logic says about its members, at every depth, whatever its members are (`groups_mean_logic`).
All leaves are evaluated, so the first fault among them is the fault of the group. -/

namespace Flowline

namespace Logic

/-- The word for a logic. -/
def word : Logic → String
  | .and => "and"
  | .or => "or"
  | .xor => "xor"
  | .nor => "nor"
  | .nand => "nand"

/-- The logic whose word a text is but for its case, and `and` if it is none. -/
def ofWord (text : String) : Logic :=
  ([.and, .or, .xor, .nor, .nand].find? fun logic => logic.word == Text.lower text).getD .and

/-- What a logic says about the members of a group. -/
def Decides : Logic → List Bool → Prop
  | .and, bs => false ∉ bs
  | .or, bs => true ∈ bs
  | .xor, bs => bs.count true = 1
  | .nor, bs => true ∉ bs
  | .nand, bs => false ∈ bs

instance (logic : Logic) (bs : List Bool) : Decidable (logic.Decides bs) := by
  cases logic <;> unfold Decides <;> infer_instance

theorem ofText_eq_ofWord (text : String) : ofText text = ofWord text := by
  unfold ofText ofWord
  generalize Text.lower text = name
  split
  case h_5 hor hxor hnor hnand =>
    have hne : "or" ≠ name ∧ "xor" ≠ name ∧ "nor" ≠ name ∧ "nand" ≠ name :=
      ⟨Ne.symm hor, Ne.symm hxor, Ne.symm hnor, Ne.symm hnand⟩
    simp only [List.find?, word, beq_eq_false_iff_ne.2 hne.1, beq_eq_false_iff_ne.2 hne.2.1,
      beq_eq_false_iff_ne.2 hne.2.2.1, beq_eq_false_iff_ne.2 hne.2.2.2]
    cases "and" == name <;> rfl
  all_goals rfl

theorem combine_eq_decide (logic : Logic) (bs : List Bool) : logic.combine bs = decide (logic.Decides bs) := by
  rw [Bool.eq_iff_iff, decide_eq_true_iff]
  cases logic <;> simp [combine, Decides]

end Logic

namespace Condition

variable {language : Language} {context : Value}

/-- The evaluation of a condition that is no group: a text is an expression, a mapping is a test, and what is neither
holds if it is truthy. -/
def evaluate (language : Language) (context : Value) : Value → Except Fault Bool
  | .scalar s => (ofScalar s).holds language context
  | .map entries => (testOf entries).holds language context
  | v => .ok v.isTruthy

/-- The logic that some entries name. They name none with what is not present. -/
def namedLogic (standard : Logic) (entries : List (Scalar × Value)) : Logic :=
  match Entries.get? entries (.str "logic") with
  | some (.str word) => if word = "" then standard else .ofWord word
  | _ => standard

/-- What names the logic in some entries is a text, if anything is present. -/
def NamesLogic (entries : List (Scalar × Value)) : Prop :=
  ∀ v, Entries.get? entries (.str "logic") = some v → v.isPresent = true → ∃ word, v = .str word

/-- A tree of conditions: those that are no groups, and groups with a list of members and other entries. -/
inductive Tree
  | leaf (v : Value) (plain : v.field? "conditions" = none)
  | group (before : List (Scalar × Value)) (members : List Tree) (after : List (Scalar × Value))
      (first : ∀ p ∈ before, p.1 ≠ .str "conditions") (names : NamesLogic (before ++ after))

namespace Tree

mutual

def toValue : Tree → Value
  | .leaf v _ => v
  | .group before members after _ _ => .map (before ++ (.str "conditions", .list (toValues members)) :: after)

def toValues : List Tree → List Value
  | [] => []
  | t :: rest => t.toValue :: toValues rest

end

mutual

/-- The conditions in a tree that are no groups, in their order. -/
def leaves : Tree → List Value
  | .leaf v _ => [v]
  | .group _ members _ _ _ => leavesOf members

def leavesOf : List Tree → List Value
  | [] => []
  | t :: rest => t.leaves ++ leavesOf rest

end

/-- What a group means: one without members holds. -/
def verdict (logic : Logic) (members : List Bool) : Bool := members.isEmpty || decide (logic.Decides members)

mutual

/-- What a tree means, given what its leaves do. A group in a tree that names no logic is under `and`. -/
def truth (leaf : Value → Bool) : Tree → Bool
  | .leaf v _ => leaf v
  | .group before members after _ _ => verdict (namedLogic .and (before ++ after)) (truths leaf members)

def truths (leaf : Value → Bool) : List Tree → List Bool
  | [] => []
  | t :: rest => t.truth leaf :: truths leaf rest

end

/-- The forms in which a group is given: a list of its members, and a mapping that may name its logic. -/
inductive Gives (standard : Logic) : Value → Logic → List Tree → Prop
  | list (members : List Tree) : Gives standard (.list (toValues members)) standard members
  | map {before after : List (Scalar × Value)} (members : List Tree) (first : ∀ p ∈ before, p.1 ≠ .str "conditions")
      (names : NamesLogic (before ++ after)) :
      Gives standard (.map (before ++ (.str "conditions", .list (toValues members)) :: after))
        (namedLogic standard (before ++ after)) members

end Tree

/-! ## Conditions of values -/

theorem groupIn_eq (logic : Logic) (entries : List (Scalar × Value)) :
    groupIn logic entries = (Entries.get? entries (.str "conditions")).map (groupOf logic) := by
  induction entries with
  | nil => simp [groupIn, Entries.get?]
  | cons p rest ih =>
    obtain ⟨k, v⟩ := p
    rw [groupIn, Entries.get?, ih]
    split <;> rfl

theorem membersIn_eq (logic : Logic) (entries : List (Scalar × Value)) :
    membersIn logic entries = (Entries.get? entries (.str "conditions")).map (membersOf logic) := by
  induction entries with
  | nil => simp [membersIn, Entries.get?]
  | cons p rest ih =>
    obtain ⟨k, v⟩ := p
    rw [membersIn, Entries.get?, ih]
    split <;> rfl

theorem holds_ofValue {v : Value} (plain : v.field? "conditions" = none) :
    (ofValue v).holds language context = evaluate language context v := by
  cases v with
  | scalar s => simp [ofValue, evaluate]
  | list items => simp [ofValue, evaluate, holds, Value.isTruthy]
  | set items => simp [ofValue, evaluate, holds, Value.isTruthy]
  | map entries =>
    have hnone : Entries.get? entries (.str "conditions") = none := plain
    rw [ofValue, groupIn_eq, hnone]
    rfl

theorem get?_skip {before after : List (Scalar × Value)} (v : Value) :
    Entries.get? (before ++ (.str "conditions", v) :: after) (.str "logic") =
      Entries.get? (before ++ after) (.str "logic") := by
  induction before with
  | nil => rfl
  | cons p rest ih =>
    rw [List.cons_append, List.cons_append, Entries.get?, Entries.get?, ih]

theorem logicOf_eq {before after : List (Scalar × Value)} (names : NamesLogic (before ++ after)) (standard : Logic)
    (v : Value) : logicOf standard (before ++ (.str "conditions", v) :: after) = namedLogic standard (before ++ after) := by
  rw [logicOf, get?_skip, namedLogic]
  cases hword : Entries.get? (before ++ after) (.str "logic") with
  | none => rfl
  | some named =>
    dsimp only
    cases hpresent : named.isPresent with
    | true =>
      obtain ⟨word, rfl⟩ := names named hword hpresent
      have hne : word ≠ "" := by simpa [Value.isPresent] using hpresent
      exact (Logic.ofText_eq_ofWord word).trans (if_neg hne).symm
    | false =>
      rw [if_neg Bool.false_ne_true]
      split
      · next word heq =>
        cases heq
        have hempty : word = "" := by simpa [Value.isPresent] using hpresent
        rw [if_pos hempty]
      · rfl

/-! ## Groups of trees -/

theorem isEmpty_of_holdAll {cs : List Condition} {bs : List Bool} (h : holdAll language context cs = .ok bs) :
    bs.isEmpty = cs.isEmpty := by
  cases cs with
  | nil =>
    cases h
    rfl
  | cons c rest =>
    rw [holdAll] at h
    obtain ⟨b, -, h⟩ := bind_eq_ok.1 h
    obtain ⟨others, -, h⟩ := bind_eq_ok.1 h
    cases h
    rfl

/-- A fault is the same fault of whatever was to be computed. -/
theorem error_eq_error_iff {α β : Type} {fault other : Fault} :
    (Except.error other : Except Fault α) = .error fault ↔ (Except.error other : Except Fault β) = .error fault := by
  rw [Except.error.injEq, Except.error.injEq]

namespace Tree

/-- A group is decided by what all its members do. -/
theorem holds_groupOf (logic : Logic) (items : List Value) : (groupOf logic (.list items)).holds language context =
    (holdAll language context (ofItems items)).map (verdict logic) := by
  rw [groupOf]
  cases items with
  | nil => simp [holds, ofItems, holdAll, Except.map, verdict]
  | cons v rest =>
    rw [List.isEmpty_cons, if_neg Bool.false_ne_true, holds]
    cases hall : holdAll language context (ofItems (v :: rest)) with
    | error fault => rfl
    | ok bs =>
      have hsome : bs.isEmpty = false := by rw [isEmpty_of_holdAll hall, ofItems, List.isEmpty_cons]
      change Except.ok (logic.combine bs) = Except.ok (verdict logic bs)
      rw [verdict, hsome, Bool.false_or, Logic.combine_eq_decide]

theorem ofValue_group {before after : List (Scalar × Value)} (first : ∀ p ∈ before, p.1 ≠ .str "conditions")
    (names : NamesLogic (before ++ after)) (v : Value) :
    ofValue (.map (before ++ (.str "conditions", v) :: after)) = groupOf (namedLogic .and (before ++ after)) v := by
  rw [ofValue, groupIn_eq, Entries.get?_append_cons first, logicOf_eq names]
  rfl

mutual

/-- A tree fails as the evaluation of its leaves does. -/
theorem holds_eq_error_iff : ∀ (t : Tree) (fault : Fault), (ofValue t.toValue).holds language context = .error fault ↔
    t.leaves.mapM (evaluate language context) = .error fault
  | .leaf v plain, fault => by
    rw [toValue, leaves, holds_ofValue plain, List.mapM_cons]
    cases evaluate language context v with
    | error other => exact error_eq_error_iff
    | ok b => exact iff_of_false nofun nofun
  | .group before members after first names, fault => by
    rw [toValue, leaves, ofValue_group first names, holds_groupOf, ← holdAll_eq_error_iff members fault]
    cases holdAll language context (ofItems (toValues members)) with
    | error other => exact error_eq_error_iff
    | ok bs => exact iff_of_false nofun nofun

theorem holdAll_eq_error_iff : ∀ (ts : List Tree) (fault : Fault),
    holdAll language context (ofItems (toValues ts)) = .error fault ↔
      (leavesOf ts).mapM (evaluate language context) = .error fault
  | [], _ => iff_of_false nofun nofun
  | t :: rest, fault => by
    have hfirst := holds_eq_error_iff t
    rw [toValues, ofItems, holdAll, leavesOf, List.mapM_append]
    cases ht : (ofValue t.toValue).holds language context with
    | error other =>
      rw [(hfirst other).1 ht]
      exact error_eq_error_iff
    | ok b =>
      cases hleaves : t.leaves.mapM (evaluate language context) with
      | error other =>
        rw [(hfirst other).2 hleaves] at ht
        cases ht
      | ok bs =>
        have hrest := holdAll_eq_error_iff rest
        simp only [ok_bind]
        cases hothers : holdAll language context (ofItems (toValues rest)) with
        | error other =>
          rw [(hrest other).1 hothers]
          exact error_eq_error_iff
        | ok others =>
          refine iff_of_false nofun fun h => ?_
          obtain hfails | ⟨cs, -, h⟩ := bind_eq_error h
          · rw [(hrest fault).2 hfails] at hothers
            cases hothers
          · cases h

end

mutual

/-- A tree is decided by its leaves. -/
theorem holds_of_leaves {leaf : Value → Bool} : ∀ t : Tree, (∀ v ∈ t.leaves, evaluate language context v = .ok (leaf v)) →
    (ofValue t.toValue).holds language context = .ok (t.truth leaf)
  | .leaf v plain, h => by
    rw [toValue, holds_ofValue plain, truth]
    exact h v (List.mem_singleton_self v)
  | .group before members after first names, h => by
    rw [toValue, ofValue_group first names, holds_groupOf, holdAll_of_leaves members h, truth]
    rfl

theorem holdAll_of_leaves {leaf : Value → Bool} : ∀ ts : List Tree,
    (∀ v ∈ leavesOf ts, evaluate language context v = .ok (leaf v)) →
      holdAll language context (ofItems (toValues ts)) = .ok (truths leaf ts)
  | [], _ => rfl
  | t :: rest, h => by
    rw [leavesOf, List.forall_mem_append] at h
    rw [toValues, ofItems, holdAll, holds_of_leaves t h.1, ok_bind, holdAll_of_leaves rest h.2, truths]
    rfl

end

end Tree

variable {standard logic : Logic} {v : Value} {members : List Tree}

theorem holds_of_gives (h : Tree.Gives standard v logic members) : (groupOf standard v).holds language context =
    (holdAll language context (ofItems (Tree.toValues members))).map (Tree.verdict logic) := by
  cases h with
  | list members => exact Tree.holds_groupOf _ _
  | map members first names =>
    rw [groupOf, membersIn_eq, Entries.get?_append_cons first, logicOf_eq names, ← Tree.holds_groupOf, groupOf]
    rfl

/-- A group of conditions, given in either form under a logic for one that names none, in any language and context. It
fails exactly if the evaluation of one of its leaves does, at whatever depth, and then as the first of these does. Else it
is what its logic says about its members, where a member that is a group means what its own logic says, which is `and` if
it names none; and a group without members holds. -/
theorem groups_mean_logic (h : Tree.Gives standard v logic members) (language : Language) (context : Value) :
    ((∃ fault, (groupOf standard v).holds language context = .error fault) ↔
      ∃ u ∈ Tree.leavesOf members, ∃ fault, evaluate language context u = .error fault) ∧
    (∀ fault, (groupOf standard v).holds language context = .error fault ↔
      ∃ before u after, Tree.leavesOf members = before ++ u :: after ∧
        (∀ w ∈ before, ∃ b, evaluate language context w = .ok b) ∧ evaluate language context u = .error fault) ∧
    ∀ leaf : Value → Bool, (∀ u ∈ Tree.leavesOf members, evaluate language context u = .ok (leaf u)) →
      (groupOf standard v).holds language context = .ok (Tree.verdict logic (Tree.truths leaf members)) := by
  rw [holds_of_gives h]
  have hfails (fault : Fault) : (holdAll language context (ofItems (Tree.toValues members))).map (Tree.verdict logic) =
      .error fault ↔ (Tree.leavesOf members).mapM (evaluate language context) = .error fault := by
    rw [← Tree.holdAll_eq_error_iff]
    cases holdAll language context (ofItems (Tree.toValues members)) with
    | error other => exact error_eq_error_iff
    | ok bs => exact iff_of_false nofun nofun
  refine ⟨?_, fun fault => (hfails fault).trans mapM_eq_error_iff, fun leaf hleaf => ?_⟩
  · simp only [hfails]
    constructor
    · rintro ⟨fault, hfault⟩
      obtain ⟨before, u, after, hleaves, -, hu⟩ := mapM_eq_error_iff.1 hfault
      exact ⟨u, by simp [hleaves], fault, hu⟩
    · rintro ⟨u, hu, fault, hfault⟩
      cases hleaves : (Tree.leavesOf members).mapM (evaluate language context) with
      | error other => exact ⟨other, rfl⟩
      | ok bs =>
        obtain ⟨b, hb⟩ := exists_mapM_iff.1 ⟨bs, hleaves⟩ u hu
        rw [hb] at hfault
        cases hfault
  · rw [Tree.holdAll_of_leaves members hleaf]
    rfl

/-- A list whose second member is a group, one of whose members is a group that is empty. -/
def nested : Value := .list [
  .bool true,
  .object [
    ("logic", .str "NOR"),
    ("conditions", .list [.bool false, .object [("conditions", .list [])]])]]

/-- The members of `nested`. -/
def nestedMembers : List Tree := [
  .leaf (.bool true) rfl,
  .group [(.str "logic", .str "NOR")]
    [.leaf (.bool false) rfl, .group [] [] [] nofun nofun]
    [] (by simp) fun _ h _ => ⟨"NOR", (Option.some.inj h).symm⟩]

theorem groups_mean_logic_nested : Tree.Gives .xor nested .xor nestedMembers ∧
    (groupOf .xor nested).holds (.standard ⟨⟨2024, 6, 15⟩, 12, 0, 0, 0, some 0⟩) (.map []) = .ok true := by
  have hgives : Tree.Gives .xor nested .xor nestedMembers := .list nestedMembers
  obtain ⟨-, -, hmeans⟩ := groups_mean_logic hgives (.standard ⟨⟨2024, 6, 15⟩, 12, 0, 0, 0, some 0⟩) (.map [])
  have hleaves : ∀ u ∈ Tree.leavesOf nestedMembers,
      evaluate (.standard ⟨⟨2024, 6, 15⟩, 12, 0, 0, 0, some 0⟩) (.map []) u = .ok u.isTruthy := by
    simp [nestedMembers, Tree.leavesOf, Tree.leaves, evaluate, ofScalar, holds]
  have htrue : Tree.verdict .xor (Tree.truths Value.isTruthy nestedMembers) = true := by decide +kernel
  exact ⟨hgives, (hmeans _ hleaves).trans (congrArg _ htrue)⟩

end Condition

end Flowline
