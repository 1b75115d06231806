import Flowline.Expression.Evaluation
import Flowline.Proofs.Value.Faults

/-! # Faults of expressions

An expression that cannot be read or evaluated has no fault but false for its value, unless a number is too
large for a double or a numeral or an index is none that can be read: these two faults, which calculations
and lookups have, go through. Functions never add one, whatever they are. -/

namespace Flowline

namespace Expr

theorem addValues_fails (a b : Value) : FailsOnly Fault.OfNumbers (addValues a b) := by
  have hnumbers : FailsOnly Fault.OfNumbers (do return (← (← a.toNumber).add (← b.toNumber)).toValue) :=
    a.toNumber_fails.bind fun m _ => b.toNumber_fails.bind fun n _ => (Number.combine_fails _ _ m n).map _
  unfold addValues
  dsimp only
  split
  · exact .ok _
  · split
    · exact hnumbers
    · exact .ok _
  · exact hnumbers

theorem divideNumbers_fails (a b : Number) : FailsOnly Fault.OfNumbers (divideNumbers a b) := by
  unfold divideNumbers
  split
  · exact .error (.expression _)
  · next hzero =>
    have hb : b.isZero = false := Bool.eq_false_iff.2 hzero
    split
    · split
      · exact .ok _
      · exact (Number.ratio_fails _ (by simpa [Number.isZero] using hb)).map _
    · exact (a.div_fails hb).map _

theorem nearestWhole_fails (n : Int) : FailsOnly Fault.OfNumbers (nearestWhole n) :=
  (Number.toFloat_fails_of_numbers _).bind fun _ _ => Number.toInt_fails _

theorem remainderNumbers_fails (a b : Number) : FailsOnly Fault.OfNumbers (remainderNumbers a b) := by
  unfold remainderNumbers
  split
  · exact .error (.expression _)
  · refine b.toInt_fails.bind fun n _ => ?_
    split
    · exact .error (.expression _)
    · exact a.toInt_fails.bind fun m _ => (nearestWhole_fails m).bind fun p _ => (nearestWhole_fails n).map _

theorem applyBinary_fails (op : BinaryOp) (a b : Value) : FailsOnly Fault.OfNumbers (applyBinary op a b) := by
  cases op with
  | or | and | strictEq | strictNe => exact .ok _
  | eq | ne => exact (Value.looseEquals_fails a b).map _
  | ge | le | gt | lt => exact (Value.order_fails a b).map _
  | add => exact addValues_fails a b
  | sub | mul => exact a.toNumber_fails.bind fun m _ => b.toNumber_fails.bind fun n _ => (Number.combine_fails _ _ m n).map _
  | div => exact a.toNumber_fails.bind fun m _ => b.toNumber_fails.bind fun n _ => divideNumbers_fails m n
  | mod => exact a.toNumber_fails.bind fun m _ => b.toNumber_fails.bind fun n _ => remainderNumbers_fails m n

theorem applyUnary_fails (op : UnaryOp) (v : Value) : FailsOnly Fault.OfNumbers (applyUnary op v) := by
  cases op with
  | not => exact .ok _
  | neg => exact v.toNumber_fails.map _

/-- A call has no fault but one of the expression, whatever fault the function has. -/
theorem applyFunction_fails (name : String) (f : Function) (args : List Value) :
    FailsOnly (fun fault => ∃ cause, fault = .expression cause) (applyFunction name f args) := by
  unfold applyFunction
  split
  · exact .ok _
  · exact .error ⟨_, rfl⟩
  · exact .error ⟨_, rfl⟩

variable (library : Library) (context : Value)

mutual

theorem evaluate_fails : ∀ e : Expr, FailsOnly Fault.OfNumbers (e.evaluate library context)
  | .literal v => .ok v
  | .variable path => (Path.lookupText_fails path context).mono fun _ h => h ▸ .badValue
  | .array items => by
    rw [evaluate]
    exact (evaluateAll_fails items).map _
  | .object entries => by
    rw [evaluate]
    exact (evaluateEntries_fails entries).map _
  | .unary op operand => by
    rw [evaluate]
    exact (evaluate_fails operand).bind fun v _ => applyUnary_fails op v
  | .binary op left right => by
    rw [evaluate]
    refine (evaluate_fails left).bind fun a _ => ?_
    have hright := evaluate_fails right
    cases op with
    | and =>
      cases a.isTruthy with
      | true => exact hright.map _
      | false => exact .ok _
    | or =>
      cases a.isTruthy with
      | true => exact .ok _
      | false => exact hright.map _
    | _ => exact hright.bind fun b _ => applyBinary_fails _ a b
  | .call name args => by
    rw [evaluate]
    cases library.function? name with
    | none => exact .error (.expression _)
    | some f =>
      refine (evaluateAll_fails args).bind fun vs _ => (applyFunction_fails name f vs).mono ?_
      rintro _ ⟨cause, rfl⟩
      exact .expression cause

theorem evaluateAll_fails : ∀ es : List Expr, FailsOnly Fault.OfNumbers (evaluateAll library context es)
  | [] => .ok []
  | e :: rest => by
    rw [evaluateAll]
    exact (evaluate_fails e).bind fun v _ => (evaluateAll_fails rest).map _

theorem evaluateEntries_fails : ∀ es : List (String × Expr), FailsOnly Fault.OfNumbers (evaluateEntries library context es)
  | [] => .ok []
  | (key, e) :: rest => by
    rw [evaluateEntries]
    exact (evaluate_fails e).bind fun v _ => (evaluateEntries_fails rest).map _

end

end Expr

namespace Expression

theorem fault_ofNumbers (cause : ExpressionFault) : Fault.OfNumbers cause.fault := by
  cases cause with
  | longNumeral => exact .badValue
  | _ => exact .expression _

theorem run_fails (library : Library) (context : Value) (s : String) :
    FailsOnly Fault.OfNumbers (run library context s) := by
  unfold run
  split
  · exact Expr.evaluate_fails library _ _
  · exact .error (fault_ofNumbers _)

theorem substitute_fails {context : Value} (hjson : context.isJson = true) (s : String) :
    FailsOnly (· = .badValue) (substitute context s) :=
  (Template.fill_fails _ fun path _ => Template.textOf_fails hjson (fun _ => Value.writes_expressionText) path).map _

/-- An expression text keeps the faults of its references, and overflow. -/
theorem runWithReferences_keeps {allowed : Fault → Prop} (library : Library) {context : Value} (s : String)
    (hbad : allowed .badValue) (hoverflow : allowed .overflow)
    (hreferences : FailsOnly allowed (substitute (Template.scope context) (Text.trim s))) :
    FailsOnly allowed (runWithReferences library context s) := by
  unfold runWithReferences
  dsimp only
  split
  · exact .ok _
  split
  · exact .ok _
  · refine hreferences.bind fun filled _ => ?_
    have hrun := run_fails library (Template.scope context) filled
    generalize run library (Template.scope context) filled = result at hrun
    cases result with
    | ok v => exact .ok v
    | error fault =>
      cases hrun fault rfl with
      | expression cause => exact .ok _
      | badValue => exact .error hbad
      | overflow => exact .error hoverflow

/-- The faults that an expression text keeps. -/
theorem runWithReferences_fails (library : Library) {context : Value} (hjson : context.isJson = true) (s : String) :
    FailsOnly (fun fault => fault = .badValue ∨ fault = .overflow) (runWithReferences library context s) :=
  runWithReferences_keeps library s (.inl rfl) (.inr rfl)
    ((substitute_fails (Value.isJson_scope hjson) _).mono fun _ => .inl)

theorem runWithReferences_fails_over_any (library : Library) (context : Value) (s : String) :
    FailsOnly (fun fault => Fault.OfReferences fault ∨ fault = .overflow) (runWithReferences library context s) :=
  runWithReferences_keeps library s (.inl .badValue) (.inr rfl)
    ((Template.fill_fails _ fun path _ => (Template.textOf_fails_over_any Value.expressionText_fails path).mono
      fun _ => .inl).map _)

end Expression

end Flowline
