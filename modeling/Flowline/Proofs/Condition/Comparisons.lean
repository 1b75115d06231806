import Flowline.Condition.Evaluation
import Flowline.Proofs.Number.Rounded
import Flowline.Time.Reading

/-! # Comparisons of whole numbers

The orders of expressions compare whole numbers of any size exactly. Equality, the operators of tests and
the search for a member compare them as doubles, that is, as rounded to 53 significant bits: this keeps
numbers up to `2 ^ 53` apart, and larger ones not always. -/

namespace Flowline

open Double

/-- A way to compare two numbers. -/
inductive Comparison
  | eq | ne | lt | le | gt | ge
deriving DecidableEq

namespace Comparison

def holds : Comparison → Int → Int → Bool
  | .eq, a, b => a = b
  | .ne, a, b => a ≠ b
  | .lt, a, b => a < b
  | .le, a, b => a ≤ b
  | .gt, a, b => a > b
  | .ge, a, b => a ≥ b

/-- The operator of expressions. -/
def operation : Comparison → BinaryOp
  | .eq => .eq
  | .ne => .ne
  | .lt => .lt
  | .le => .le
  | .gt => .gt
  | .ge => .ge

/-- The operator of tests. -/
def operatorName : Comparison → String
  | .eq => "equals"
  | .ne => "not_equals"
  | .lt => "less_than"
  | .le => "less_than_or_equals"
  | .gt => "greater_than"
  | .ge => "greater_than_or_equals"

def isOrder : Comparison → Bool
  | .eq | .ne => false
  | .lt | .le | .gt | .ge => true

/-- The comparison of two numbers as rounded to doubles; none may be too large for one. -/
def rounded (c : Comparison) (a b : Int) : Except Fault Bool :=
  if (nearestWhole a).natAbs < firstTooLarge ∧ (nearestWhole b).natAbs < firstTooLarge then
    .ok (c.holds (nearestWhole a) (nearestWhole b))
  else .error .overflow

/-- Rounding does not matter up to `2 ^ 53`. -/
theorem rounded_eq_holds (c : Comparison) {a b : Int} (ha : a.natAbs ≤ 2 ^ 53) (hb : b.natAbs ≤ 2 ^ 53) :
    c.rounded a b = .ok (c.holds a b) := by
  rw [rounded, nearestWhole_eq_self ha, nearestWhole_eq_self hb, if_pos ⟨lt_firstTooLarge ha, lt_firstTooLarge hb⟩]

theorem rounded_ne (a b : Int) : Comparison.ne.rounded a b = (Comparison.eq.rounded a b).map not := by
  unfold rounded
  split <;> simp [holds, Except.map]

/-! ## Numbers as doubles -/

theorem toFloat_cases (n : Int) : (firstTooLarge ≤ (nearestWhole n).natAbs ∧ (Number.int n).toFloat = .error .overflow) ∨
    ∃ x, (nearestWhole n).natAbs < firstTooLarge ∧ ofInt? n = some x ∧ (Number.int n).toFloat = .ok x := by
  cases hn : ofInt? n with
  | none => exact .inl ⟨(ofInt?_eq_none_iff n).1 hn, by simp [Number.toFloat, hn]⟩
  | some x =>
    have hfinite : (nearestWhole n).natAbs < firstTooLarge := by
      refine Nat.lt_of_not_le fun hle => ?_
      rw [(ofInt?_eq_none_iff n).2 hle] at hn
      cases hn
    exact .inr ⟨x, hfinite, rfl, by simp [Number.toFloat, hn]⟩

/-- A comparison of doubles that agrees with one of rounded numbers. -/
theorem rounded_eq_bind (c : Comparison) (holdsDouble : Float → Float → Bool) (a b : Int)
    (h : ∀ x y, ofInt? a = some x → ofInt? b = some y → holdsDouble x y = c.holds (nearestWhole a) (nearestWhole b)) :
    (do return holdsDouble (← (Number.int a).toFloat) (← (Number.int b).toFloat)) = c.rounded a b := by
  unfold rounded
  rcases toFloat_cases a with ⟨ha, hfault⟩ | ⟨x, ha, hx, hvalue⟩
  · rw [if_neg fun hboth => Nat.not_lt.2 ha hboth.1, hfault]
    rfl
  · rcases toFloat_cases b with ⟨hb, hfault⟩ | ⟨y, hb, hy, hvalue'⟩
    · rw [if_neg fun hboth => Nat.not_lt.2 hb hboth.2, hvalue, hfault]
      rfl
    · rw [if_pos ⟨ha, hb⟩, hvalue, hvalue']
      exact congrArg Except.ok (h x y hx hy)

end Comparison

/-! ## Operators on whole numbers -/

theorem evaluate_binary {library : Library} {context : Value} {op : BinaryOp} {left right : Expr} {v w : Value}
    (hleft : left.evaluate library context = .ok v) (hright : right.evaluate library context = .ok w)
    (hop : op ≠ .and ∧ op ≠ .or) :
    (Expr.binary op left right).evaluate library context = Expr.applyBinary op v w := by
  rw [Expr.evaluate, hleft]
  cases op with
  | and | or => simp at hop
  | _ =>
    rw [hright]
    rfl

theorem looseEquals_int (a b : Int) : Value.looseEquals (.int a) (.int b) = Comparison.eq.rounded a b := by
  refine Comparison.rounded_eq_bind .eq (· == ·) a b fun x y hx hy => ?_
  rw [Bool.eq_iff_iff, beq_iff_of_ofInt? hx hy]
  simp [Comparison.holds]

theorem order_int (a b : Int) : Value.order (.int a) (.int b) = .ok (compare a b) := rfl

/-- The operators of expressions: the orders are exact, equality is not. -/
theorem applyBinary_int (c : Comparison) (a b : Int) : Expr.applyBinary c.operation (.int a) (.int b) =
    if c.isOrder then .ok (.bool (c.holds a b)) else (c.rounded a b).map Value.bool := by
  have hequal := looseEquals_int a b
  have hne := Comparison.rounded_ne a b
  cases c with
  | eq =>
    simp only [Comparison.operation, Expr.applyBinary, hequal]
    cases Comparison.eq.rounded a b <;> rfl
  | ne =>
    simp only [Comparison.operation, Expr.applyBinary, hequal, hne]
    cases Comparison.eq.rounded a b <;> rfl
  | lt | le | gt | ge =>
    simp only [Comparison.operation, Expr.applyBinary, order_int, Comparison.isOrder, Comparison.holds, if_true]
    refine congrArg (fun h => Except.ok (Value.bool h)) (Bool.eq_iff_iff.2 ?_)
    rcases Int.lt_trichotomy a b with h | rfl | h
    · simp [compare_lt_iff_lt.2 h, h, Int.le_of_lt h, Int.not_lt.2 (Int.le_of_lt h), Int.not_le.2 h]
    · simp
    · simp [compare_gt_iff_gt.2 h, h, Int.le_of_lt h, Int.not_lt.2 (Int.le_of_lt h), Int.not_le.2 h]

namespace Operator

open Comparison

theorem compareNumbers_int (c : Comparison) (holdsDouble : Float → Float → Bool)
    (h : ∀ a b x y, ofInt? a = some x → ofInt? b = some y → holdsDouble x y = c.holds (nearestWhole a) (nearestWhole b))
    (a b : Int) : compareNumbers holdsDouble (.int a) (.int b) = c.rounded a b :=
  rounded_eq_bind c holdsDouble a b (h a b)

/-- The operators of tests compare rounded numbers. -/
theorem lookup_standard [Calendar] (now : Moment) (c : Comparison) : ∃ test, (standard now).lookup c.operatorName = some test ∧
    ∀ a b : Int, test (.int a) (.int b) = c.rounded a b := by
  cases c with
  | eq => exact ⟨_, rfl, looseEquals_int⟩
  | ne =>
    refine ⟨_, rfl, fun a b => ?_⟩
    change (do return !(← Value.looseEquals (.int a) (.int b))) = _
    rw [looseEquals_int, rounded_ne]
    cases Comparison.eq.rounded a b <;> rfl
  | lt =>
    refine ⟨_, rfl, compareNumbers_int .lt _ fun a b x y hx hy => ?_⟩
    simp [Comparison.holds, lt_iff_of_ofInt? hx hy]
  | le =>
    refine ⟨_, rfl, compareNumbers_int .le _ fun a b x y hx hy => ?_⟩
    simp [Comparison.holds, le_iff_of_ofInt? hx hy]
  | gt =>
    refine ⟨_, rfl, compareNumbers_int .gt _ fun a b x y hx hy => ?_⟩
    simp [Comparison.holds, gt_iff_lt, lt_iff_of_ofInt? hy hx]
  | ge =>
    refine ⟨_, rfl, compareNumbers_int .ge _ fun a b x y hx hy => ?_⟩
    simp [Comparison.holds, ge_iff_le, le_iff_of_ofInt? hy hx]

/-- A number lies between another one twice where it equals that as rounded. -/
theorem inRange_int (a b : Int) :
    inRange onNumberScale (.int a) (.list [.int b, .int b]) = Comparison.eq.rounded a b := by
  have hbound (i : Nat) (hi : i < 2) : boundAt (.list [.int b, .int b]) i = .ok (.int b) := by
    match i, hi with
    | 0, _ => rfl
    | 1, _ => rfl
  have hscale (n : Int) : onNumberScale (.int n) = (Number.int n).toFloat.map some := by
    cases h : (Number.int n).toFloat <;> simp [onNumberScale, Value.leadingNumber, h, Except.map]
  unfold inRange Comparison.rounded
  simp only [hbound 0 (by decide), hbound 1 (by decide)]
  rcases toFloat_cases b with ⟨hb, hfault⟩ | ⟨y, hb, hy, hvalue⟩
  · rw [if_neg fun hboth => Nat.not_lt.2 hb hboth.2]
    simp [hscale, hfault, Except.map, bind, Except.bind]
  · rcases toFloat_cases a with ⟨ha, hfault'⟩ | ⟨x, ha, hx, hvalue'⟩
    · rw [if_neg fun hboth => Nat.not_lt.2 ha hboth.1]
      simp [hscale, hvalue, hfault', Except.map, bind, Except.bind]
    · rw [if_pos ⟨ha, hb⟩]
      simp only [hscale, hvalue, hvalue', Except.map, bind, Except.bind, pure, Except.pure, le_iff_of_ofInt? hx hy,
        le_iff_of_ofInt? hy hx, Comparison.holds]
      refine congrArg Except.ok (Bool.eq_iff_iff.2 ?_)
      simp only [Bool.and_eq_true, decide_eq_true_eq]
      omega

/-- The search for a number among others, as rounded. -/
def found (ns : List Int) (a : Int) : Except Fault Bool := ns.anyM fun n => Comparison.eq.rounded n a

theorem hasMember_int (ns : List Int) (a : Int) : hasMember (.int a) (ns.map Value.int) = found ns a := by
  induction ns with
  | nil => rfl
  | cons n ns ih =>
    unfold found at ih ⊢
    simp only [List.map_cons, hasMember, looseEquals_int, ih, List.anyM]
    refine congrArg _ (funext fun b => ?_)
    cases b <;> rfl

theorem isMember_int (ns : List Int) (a : Int) : isMember id (.list (ns.map Value.int)) (.int a) = found ns a := by
  have hlist : (Value.list (ns.map Value.int)).isContainer = true := rfl
  rw [isMember, if_pos hlist, Value.members, hasMember_int]
  cases found ns a <;> rfl

/-- Up to `2 ^ 53` a number is found where it is a member. -/
theorem found_eq (ns : List Int) {a : Int} (ha : a.natAbs ≤ 2 ^ 53) (hns : ∀ n ∈ ns, n.natAbs ≤ 2 ^ 53) :
    found ns a = .ok (decide (a ∈ ns)) := by
  induction ns with
  | nil => rfl
  | cons n ns ih =>
    obtain ⟨hn, hns⟩ := List.forall_mem_cons.1 hns
    have hrest := ih hns
    unfold found at hrest ⊢
    rw [List.anyM, rounded_eq_holds .eq hn ha, hrest]
    by_cases heq : n = a
    · simp [Comparison.holds, heq, bind, Except.bind, pure, Except.pure]
    · simp [Comparison.holds, heq, Ne.symm heq, bind, Except.bind]

end Operator

/-! ## Conditions on whole numbers -/

namespace Condition

open Operator

variable {context value field : Value}

/-- A test has the result of its operator, unless that is a fault for which it does not hold. -/
theorem runTest_eq {language : Language} {name : String} {test : Operator} {v w : Value} {result : Except Fault Bool}
    (hfield : Path.lookup field context = .ok v) (hvalue : expected context value = .ok w)
    (htest : language.operators.lookup name = some test) (hresult : test v w = result)
    (hkept : ∀ fault, result = .error fault → isRefusal fault = false) :
    runTest language context field (.str name) value = result := by
  have hoperator : language.operator (.str name) = .ok test := by simp [Language.operator, htest]
  subst hresult
  unfold runTest
  rw [hfield, hvalue, hoperator]
  simp only [bind, Except.bind]
  cases hcase : test v w with
  | ok b => rfl
  | error fault => simp [hkept fault hcase]

theorem rounded_kept (c : Comparison) (a b : Int) (fault : Fault) (h : c.rounded a b = .error fault) :
    isRefusal fault = false := by
  unfold Comparison.rounded at h
  split at h
  · cases h
  · cases h
    rfl

theorem found_kept {ns : List Int} {a : Int} (fault : Fault) (h : found ns a = .error fault) :
    isRefusal fault = false := by
  induction ns with
  | nil => cases h
  | cons n ns ih =>
    unfold found at h ih
    simp only [List.anyM] at h
    cases hn : Comparison.eq.rounded n a with
    | error cause =>
      rw [hn] at h
      cases h
      exact rounded_kept .eq n a fault hn
    | ok b =>
      rw [hn] at h
      cases b with
      | true => cases h
      | false => exact ih h

/-- How whole numbers are compared. The orders of expressions are exact. All else compares the numbers as
rounded, which keeps their order, tells numbers up to `2 ^ 53` apart and fails for numbers beyond doubles. -/
theorem whole_numbers_compared [Calendar] (now : Moment) {left right : String} {a b : Int}
    (hleft : Path.lookupText left context = .ok (.int a)) (hright : Path.lookupText right context = .ok (.int b))
    (hvalue : expected context value = .ok (.int b)) :
    (∀ (library : Library) (c : Comparison),
      (Expr.binary c.operation (.variable left) (.variable right)).evaluate library context =
        if c.isOrder then .ok (.bool (c.holds a b)) else (c.rounded a b).map Value.bool) ∧
    (∀ c : Comparison,
      runTest (.standard now) context (.str left) (.str c.operatorName) value = c.rounded a b) ∧
    runTest (.standard now) context (.str left) (.str "between") (.list [.int b, .int b]) =
      Comparison.eq.rounded a b ∧
    (∀ ns : List Int, runTest (.standard now) context (.str left) (.str "in") (.list (ns.map Value.int)) = found ns a) ∧
    (∀ (ns : List Int) (list : String), Path.lookupText list context = .ok (.list (ns.map Value.int)) →
      runTest (.standard now) context (.str list) (.str "array_contains") value = found ns b) ∧
    (∀ m n : Int, m.natAbs ≤ 2 ^ 53 → n.natAbs ≤ 2 ^ 53 → ∀ c : Comparison, c.rounded m n = .ok (c.holds m n)) ∧
    (∀ (ns : List Int) (n : Int), n.natAbs ≤ 2 ^ 53 → (∀ m ∈ ns, m.natAbs ≤ 2 ^ 53) →
      found ns n = .ok (decide (n ∈ ns))) ∧
    ∀ m n : Int, m ≤ n → nearestWhole m ≤ nearestWhole n := by
  have hfield : Path.lookup (.str left) context = .ok (.int a) := hleft
  refine ⟨fun library c => ?_, fun c => ?_, ?_, fun ns => ?_, fun ns list hlist => ?_,
    fun m n hm hn c => c.rounded_eq_holds hm hn, fun ns n hn hns => found_eq ns hn hns, fun m n => nearestWhole_mono⟩
  · have hoperands : c.operation ≠ .and ∧ c.operation ≠ .or := by cases c <;> decide
    have hleft : (Expr.variable left).evaluate library context = .ok (.int a) := by rwa [Expr.evaluate]
    have hright : (Expr.variable right).evaluate library context = .ok (.int b) := by rwa [Expr.evaluate]
    rw [evaluate_binary hleft hright hoperands]
    exact applyBinary_int c a b
  · obtain ⟨test, htest, hresult⟩ := lookup_standard now c
    exact runTest_eq hfield hvalue htest (hresult a b) (rounded_kept c a b)
  · exact runTest_eq hfield rfl rfl (inRange_int a b) (rounded_kept .eq a b)
  · exact runTest_eq hfield rfl rfl (isMember_int ns a) found_kept
  · exact runTest_eq hlist hvalue rfl (isMember_int ns b) found_kept

/-- Two numbers that are one double. -/
def neighbours : Value := .object [("a", .int 9007199254740993), ("b", .int 9007199254740992)]

theorem whole_numbers_compared_neighbours :
    (Expr.binary .gt (.variable "a") (.variable "b")).evaluate [] neighbours = .ok (.bool true) ∧
    runTest (.standard ⟨⟨2024, 6, 15⟩, 12, 0, 0, 0, some 0⟩) neighbours (.str "a") (.str "greater_than")
      (.int 9007199254740992) =
      Comparison.gt.rounded 9007199254740993 9007199254740992 := by
  have hleft : Path.lookupText "a" neighbours = .ok (.int 9007199254740993) := rfl
  have hright : Path.lookupText "b" neighbours = .ok (.int 9007199254740992) := rfl
  have hvalue : expected neighbours (.int 9007199254740992) = .ok (.int 9007199254740992) := rfl
  obtain ⟨hexpressions, htests, -⟩ := whole_numbers_compared ⟨⟨2024, 6, 15⟩, 12, 0, 0, 0, some 0⟩ hleft hright hvalue
  exact ⟨hexpressions [] .gt, htests .gt⟩

/-- Of two numbers one is equal to the other and greater. -/
theorem neighbours_equal_and_greater :
    (Expression.runWithReferences [] neighbours "a == b").toOption.map Value.isTruthy = some true ∧
    (Expression.runWithReferences [] neighbours "a > b").toOption.map Value.isTruthy = some true ∧
    (runTest (.standard ⟨⟨2024, 6, 15⟩, 12, 0, 0, 0, some 0⟩) neighbours (.str "a") (.str "equals")
      (.int 9007199254740992)).toOption = some true ∧
    (runTest (.standard ⟨⟨2024, 6, 15⟩, 12, 0, 0, 0, some 0⟩) neighbours (.str "a") (.str "greater_than")
      (.int 9007199254740992)).toOption = some false := by
  refine ⟨?_, ?_, ?_, ?_⟩ <;> decide +kernel

end Condition

end Flowline
