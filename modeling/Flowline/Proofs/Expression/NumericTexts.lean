import Flowline.Proofs.Expression.References

/-! # Texts that are numbers

A text that is a numeral comes into an expression as it is, blanks around it left out. It is read as its
number unless it has a bare point: the numerals of expressions have a digit on both sides of a point, those
in texts need one side only. Comparisons of the text itself take all of them as numbers. -/

namespace Flowline

/-! ## Trees of the same value -/

namespace Slot

/-- The slots have the same names, and the trees in them have the same value in every context. -/
def Alike (a b : Slot) : Prop := a.name = b.name ∧
  ∀ library context, a.tree.evaluate library context = b.tree.evaluate library context

theorem ofName?_alike {slots others : List Slot} (h : List.Forall₂ Alike slots others) (name : String) :
    Option.Rel Alike (ofName? slots name) (ofName? others name) := by
  induction h with
  | nil => exact .none
  | @cons a b slots others hab _ ih =>
    unfold ofName? at ih ⊢
    rw [List.find?_cons, List.find?_cons, hab.1]
    split
    · exact .some hab
    · exact ih

end Slot

namespace Expr

variable {slots others : List Slot}

mutual

/-- Trees with slots of the same values have the same value. -/
theorem evaluate_fill (h : List.Forall₂ Slot.Alike slots others) (library : Library) (context : Value) :
    ∀ e : Expr, (e.fill slots).evaluate library context = (e.fill others).evaluate library context
  | .literal _ => rfl
  | .variable path => by
    have hrel := Slot.ofName?_alike h path
    simp only [fill]
    generalize Slot.ofName? slots path = a, Slot.ofName? others path = b at hrel
    cases hrel with
    | none => rfl
    | some hab => exact hab.2 library context
  | .call name args => by simp only [fill, evaluate, evaluateAll_fill h library context args]
  | .binary op left right => by
    simp only [fill, evaluate, evaluate_fill h library context left, evaluate_fill h library context right]
  | .unary op operand => by simp only [fill, evaluate, evaluate_fill h library context operand]
  | .array items => by simp only [fill, evaluate, evaluateAll_fill h library context items]
  | .object entries => by simp only [fill, evaluate, evaluateEntries_fill h library context entries]

theorem evaluateAll_fill (h : List.Forall₂ Slot.Alike slots others) (library : Library) (context : Value) :
    ∀ es : List Expr, evaluateAll library context (fillAll slots es) = evaluateAll library context (fillAll others es)
  | [] => rfl
  | e :: rest => by
    simp only [fillAll, evaluateAll, evaluate_fill h library context e, evaluateAll_fill h library context rest]

theorem evaluateEntries_fill (h : List.Forall₂ Slot.Alike slots others) (library : Library) (context : Value) :
    ∀ es : List (String × Expr), evaluateEntries library context (fillEntries slots es) =
      evaluateEntries library context (fillEntries others es)
  | [] => rfl
  | (k, e) :: rest => by
    simp only [fillEntries, evaluateEntries, evaluate_fill h library context e,
      evaluateEntries_fill h library context rest]

end

end Expr

/-! ## Comparisons -/

namespace Value

variable {a b : Value}

theorem isNumeric_cases (h : a.isNumeric = true) : (∃ n, a = .int n) ∨ (∃ x, a = .float x) ∨ ∃ s, a = .str s := by
  unfold isNumeric at h
  split at h
  · exact .inl ⟨_, rfl⟩
  · exact .inr (.inl ⟨_, rfl⟩)
  · exact .inr (.inr ⟨_, rfl⟩)
  · cases h

theorem isNumeric_toValue (n : Number) : n.toValue.isNumeric = true := by
  cases n <;> rfl

/-- Numbers and numerals are equal as numbers. -/
theorem looseEquals_of_isNumeric (ha : a.isNumeric = true) (hb : b.isNumeric = true) :
    looseEquals a b = do
      let x ← (← a.toNumber).toFloat
      let y ← (← b.toNumber).toFloat
      return x == y := by
  rcases isNumeric_cases ha with ⟨_, rfl⟩ | ⟨_, rfl⟩ | ⟨_, rfl⟩ <;>
    rcases isNumeric_cases hb with ⟨_, rfl⟩ | ⟨_, rfl⟩ | ⟨_, rfl⟩ <;>
    simp only [looseEquals, ha, hb, Bool.and_self, if_true]

theorem isOrdinal_of_isNumeric (h : a.isNumeric = true) : a.isOrdinal = true := by
  rcases isNumeric_cases h with ⟨_, rfl⟩ | ⟨_, rfl⟩ | ⟨_, rfl⟩ <;> exact h

/-- What counts as a number is in the order of numbers. -/
theorem order_of_isOrdinal (ha : a.isOrdinal = true) (hb : b.isOrdinal = true) :
    order a b = do return ((← a.toNumber).compare? (← b.toNumber)).getD .eq := by
  have hboth : (a.isOrdinal && b.isOrdinal) = true := Bool.and_eq_true_iff.2 ⟨ha, hb⟩
  unfold order
  split
  · exact if_pos hboth
  · exact if_pos hboth

end Value

namespace Expr

/-- The operators that compare values across types. -/
def comparisons : List BinaryOp := [.eq, .ne, .ge, .le, .gt, .lt]

/-- In a comparison of numbers a value stands for its number. -/
theorem applyBinary_of_toNumber {op : BinaryOp} (hop : op ∈ comparisons) {a a' b b' : Value}
    (hnumeric : a.isNumeric = true ∧ a'.isNumeric = true ∧ b.isNumeric = true ∧ b'.isNumeric = true)
    (ha : a.toNumber = a'.toNumber) (hb : b.toNumber = b'.toNumber) : applyBinary op a b = applyBinary op a' b' := by
  obtain ⟨h₁, h₂, h₃, h₄⟩ := hnumeric
  have hequals : Value.looseEquals a b = Value.looseEquals a' b' := by
    rw [Value.looseEquals_of_isNumeric h₁ h₃, Value.looseEquals_of_isNumeric h₂ h₄, ha, hb]
  have horder : Value.order a b = Value.order a' b' := by
    rw [Value.order_of_isOrdinal (Value.isOrdinal_of_isNumeric h₁) (Value.isOrdinal_of_isNumeric h₃),
      Value.order_of_isOrdinal (Value.isOrdinal_of_isNumeric h₂) (Value.isOrdinal_of_isNumeric h₄), ha, hb]
  simp only [comparisons, List.mem_cons, List.not_mem_nil, or_false] at hop
  rcases hop with rfl | rfl | rfl | rfl | rfl | rfl <;> simp only [applyBinary, hequals, horder]

end Expr

namespace Expression

open Text

variable {functions : String → Bool} {s : String} {n : Number}

/-- A numeral between blanks and the number of the text. -/
theorem exists_spelling_of_toNumber (h : (Value.str s).toNumber = .ok n) :
    ∃ sp : Spelling, Text.trim s = String.ofList sp.chars ∧ Value.numeralNumber sp.numeral = .ok n := by
  unfold Value.toNumber at h
  dsimp only at h
  split at h
  · next m hm =>
    obtain ⟨sp, htrim, hsame⟩ := exists_spelling hm
    have hlegible : m.legible = true := by
      by_contra hillegible
      simp [Value.numeralNumber, Bool.not_eq_true _ ▸ hillegible] at h
    refine ⟨sp, htrim, ?_⟩
    rw [← hsame, ← h]
    congr 1
    cases m
    simp_all
  · cases h

theorem isNumeric_of_toNumber (h : (Value.str s).toNumber = .ok n) : (Value.str s).isNumeric = true := by
  unfold Value.toNumber at h
  dsimp only at h
  split at h
  · next hm => simp [Value.isNumeric, hm]
  · cases h

theorem not_parse_of_barePoint (hs : (Value.str s).isNumeric = true) (hbare : BarePoint (Text.trim s).toList) (e : Expr) :
    parse functions (Text.trim s) ≠ .ok e := by
  intro h
  obtain ⟨m, hm⟩ := Option.isSome_iff_exists.1 hs
  obtain ⟨sp, htrim, -⟩ := exists_spelling hm
  rw [htrim] at h hbare
  rw [String.toList_ofList] at hbare
  exact Spelling.closed_iff.1 (closed_of_parse h).1 hbare

theorem exists_renders_of_toNumber (hn : (Value.str s).toNumber = .ok n) (hbare : ¬BarePoint (Text.trim s).toList) :
    ∃ e, Renders (Text.trim s) e ∧ Denotes e n.toValue := by
  obtain ⟨sp, htrim, hnumber⟩ := exists_spelling_of_toNumber hn
  rw [htrim, String.toList_ofList] at hbare
  rw [htrim]
  exact renders_numeral (Spelling.closed_iff.2 hbare) hnumber

/-- The literal of its number has the value of a text that is a numeral. -/
theorem slots_alike {context : Value} {text : String} {slots others : List Slot} {t : Expr}
    (hn : (Value.str s).toNumber = .ok n) (hreading : Reading functions context text slots t)
    (hothers : List.Forall₂ (fun a b => a = b ∨ a.text = Text.trim s ∧ b = ⟨a.name, a.text, .literal n.toValue⟩)
      slots others) : List.Forall₂ Slot.Alike slots others := by
  refine ((List.forall₂_and_left slots others).2 ⟨hreading.trees, hothers⟩).imp ?_
  rintro a b ⟨htree, rfl | ⟨htext, rfl⟩⟩
  · exact ⟨rfl, fun _ _ => rfl⟩
  · rw [htext] at htree
    have hbare : ¬BarePoint (Text.trim s).toList := fun hbare =>
      not_parse_of_barePoint (isNumeric_of_toNumber hn) hbare a.tree htree
    obtain ⟨e, hrenders, hdenotes⟩ := exists_renders_of_toNumber hn hbare
    obtain rfl := Except.ok.inj (htree.symm.trans (parse_of_renders hrenders))
    exact ⟨rfl, hdenotes⟩

/-- A text that is a numeral stands for its number in expressions, unless it has a bare point: then it does
not parse. In comparisons with numbers the text itself always stands for its number. -/
theorem numeric_text_is_number (functions : String → Bool) {s : String} (hs : (Value.str s).isNumeric = true) :
    (Value.str s).expressionText = .ok (Text.trim s) ∧
    (BarePoint (Text.trim s).toList → ∀ e, parse functions (Text.trim s) ≠ .ok e) ∧
    ∀ n, (Value.str s).toNumber = .ok n →
      (¬BarePoint (Text.trim s).toList → ∃ e, parse functions (Text.trim s) = .ok e ∧
        ∀ library context, e.evaluate library context = .ok n.toValue) ∧
      (∀ library context text slots t,
        Reading (fun name => (library.function? name).isSome) (Template.scope context) (Text.trim text) slots t →
        ∀ others, List.Forall₂ (fun a b => a = b ∨ a.text = Text.trim s ∧ b = ⟨a.name, a.text, .literal n.toValue⟩)
          slots others →
        runWithReferences library context text =
          falseOnFault ((t.fill others).evaluate library (Template.scope context))) ∧
      ∀ op ∈ Expr.comparisons, ∀ w, w.isNumeric = true →
        Expr.applyBinary op (.str s) w = Expr.applyBinary op n.toValue w ∧
        Expr.applyBinary op w (.str s) = Expr.applyBinary op w n.toValue := by
  refine ⟨?_, fun hbare e => not_parse_of_barePoint hs hbare e, fun n hn => ⟨fun hbare => ?_, ?_, ?_⟩⟩
  · simp [Value.expressionText, hs]
  · obtain ⟨e, hrenders, hdenotes⟩ := exists_renders_of_toNumber hn hbare
    exact ⟨e, parse_of_renders hrenders, hdenotes⟩
  · intro library context text slots t hreading others hothers
    rw [hreading.runWithReferences_eq, Expr.evaluate_fill (slots_alike hn hreading hothers)]
  · intro op hop w hw
    have hnumber : (Value.str s).toNumber = n.toValue.toNumber := hn.trans (Value.toNumber_toValue n).symm
    have hnumeric := Value.isNumeric_toValue n
    exact ⟨Expr.applyBinary_of_toNumber hop ⟨hs, hnumeric, hw, hw⟩ hnumber rfl,
      Expr.applyBinary_of_toNumber hop ⟨hw, hw, hs, hnumeric⟩ rfl hnumber⟩

/-- A sign and blanks around a numeral. -/
theorem numeric_text_is_number_signed :
    (Value.str " +12 ").isNumeric = true ∧ (Value.str " +12 ").expressionText = .ok (Text.trim " +12 ") ∧
    ∃ e, parse (fun _ => false) (Text.trim " +12 ") = .ok e ∧
      ∀ library context, e.evaluate library context = .ok (.int 12) := by
  have hnumeric : (Value.str " +12 ").isNumeric = true := by decide +kernel
  have hbare : ¬BarePoint (Text.trim " +12 ").toList := by
    rintro ⟨before, after, htext, -⟩
    have hpoint : '.' ∈ (Text.trim " +12 ").toList := by
      rw [htext]
      simp
    exact absurd hpoint (by decide +kernel)
  obtain ⟨htext, -, hnumber⟩ := numeric_text_is_number (fun _ => false) hnumeric
  exact ⟨hnumeric, htext, (hnumber (.int 12) rfl).1 hbare⟩

/-- A numeral that begins with its point is a number in a comparison, and no expression. -/
theorem numeric_text_with_bare_point :
    (Value.str ".5").isNumeric = true ∧ (Value.str ".5").expressionText = .ok ".5" ∧
    (∀ e, parse (fun _ => false) ".5" ≠ .ok e) ∧
    (runWithReferences [] (.object [("x", .str ".5")]) "x == 0.5").toOption.map Value.isTruthy = some true ∧
    (runWithReferences [] (.object [("x", .str ".5")]) "\x7b\x7bx\x7d\x7d == 0.5").toOption.map Value.isTruthy =
      some false := by
  have hnumeric : (Value.str ".5").isNumeric = true := by decide +kernel
  have htrim : Text.trim ".5" = ".5" := by decide +kernel
  have hbare : BarePoint (Text.trim ".5").toList := by
    rw [htrim]
    refine ⟨[], ['5'], rfl, ?_⟩
    rintro ⟨⟨c, hc, -⟩, -⟩
    cases hc
  refine ⟨hnumeric, ?_, ?_, by decide +kernel, by decide +kernel⟩
  · simp [Value.expressionText, hnumeric, htrim]
  · rw [← htrim]
    exact not_parse_of_barePoint hnumeric hbare

end Expression

end Flowline
