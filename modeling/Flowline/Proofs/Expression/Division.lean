import Flowline.Proofs.Condition.Comparisons
import Flowline.Proofs.Expression.Indices
import Flowline.Proofs.Expression.Writing

/-! # Division of whole numbers

A quotient of whole numbers is exact where nothing is left over, for numbers of any size. The remainder is
calculated with doubles: it is the truncated remainder of the rounded numbers, so it is the one of the numbers
themselves up to `2 ^ 53`, and beyond that only for numbers that rounding leaves as they are. -/

namespace Flowline

open Double

/-! ## Remainders -/

/-- What is left over from a division that rounds to zero: it is smaller than the divisor, and it is zero or has
the sign of the dividend. -/
structure IsRemainder (a b r : Int) : Prop where
  natAbs_lt : r.natAbs < b.natAbs
  sign_eq : r = 0 ∨ r.sign = a.sign
  dvd_sub : b ∣ a - r

theorem isRemainder_tmod (a : Int) {b : Int} (hb : b ≠ 0) : IsRemainder a b (a.tmod b) where
  natAbs_lt := by
    rw [Int.natAbs_tmod]
    exact Nat.mod_lt _ (by omega)
  sign_eq := by
    by_cases hzero : a.tmod b = 0
    · exact .inl hzero
    · refine .inr ?_
      rcases Int.lt_trichotomy a 0 with ha | rfl | ha
      · have hneg := Int.tmod_nonneg b (Int.neg_nonneg_of_nonpos (Int.le_of_lt ha))
        rw [Int.neg_tmod] at hneg
        rw [Int.sign_eq_neg_one_of_neg ha, Int.sign_eq_neg_one_of_neg (by omega)]
      · simp at hzero
      · have hpos := Int.tmod_nonneg b (Int.le_of_lt ha)
        rw [Int.sign_eq_one_of_pos ha, Int.sign_eq_one_of_pos (by omega)]
  dvd_sub := Int.dvd_self_sub_tmod

/-- There is one remainder. -/
theorem IsRemainder.unique {a b r s : Int} (hr : IsRemainder a b r) (hs : IsRemainder a b s) : r = s := by
  have hdvd : b ∣ r - s := by
    have hsub := Int.dvd_sub hs.dvd_sub hr.dvd_sub
    rwa [show a - s - (a - r) = r - s by omega] at hsub
  have hlt : (r - s).natAbs < b.natAbs := by
    have hrlt := hr.natAbs_lt
    have hslt := hs.natAbs_lt
    rcases hr.sign_eq with rfl | hr
    · omega
    rcases hs.sign_eq with rfl | hs
    · omega
    have hsign : r.sign = s.sign := hr.trans hs.symm
    rcases Int.lt_trichotomy r 0 with hneg | rfl | hpos
    · rw [Int.sign_eq_neg_one_of_neg hneg] at hsign
      have := Int.neg_of_sign_eq_neg_one hsign.symm
      omega
    · omega
    · rw [Int.sign_eq_one_of_pos hpos] at hsign
      have := Int.pos_of_sign_eq_one hsign.symm
      omega
  have hzero : r - s = 0 := Int.eq_zero_of_dvd_of_natAbs_lt_natAbs hdvd hlt
  omega

/-! ## Operators -/

namespace Expr

theorem nearestWhole_eq (n : Int) : nearestWhole n =
    if HasDouble n then .ok (Double.nearestWhole n) else .error .overflow := by
  unfold nearestWhole
  rcases Comparison.toFloat_cases n with ⟨hlarge, hfault⟩ | ⟨x, hsmall, hx, hvalue⟩
  · have hbeyond : ¬HasDouble n := Nat.not_lt.2 hlarge
    rw [hfault, if_neg hbeyond]
    rfl
  · have hdouble : HasDouble n := hsmall
    rw [hvalue, if_pos hdouble]
    change (Number.float x).toInt = _
    simp only [Number.toInt, truncate?_of_ofInt? hx]

/-- The remainder is that of the rounded numbers. -/
theorem applyBinary_mod (a : Int) {b : Int} (hb : b ≠ 0) : applyBinary .mod (.int a) (.int b) =
    if HasDouble a ∧ HasDouble b then .ok (.int ((Double.nearestWhole a).tmod (Double.nearestWhole b)))
    else .error .overflow := by
  have hzero : (Number.int b).isZero = false := beq_false_of_ne hb
  have hparts : applyBinary .mod (.int a) (.int b) = (do
      return .int ((← nearestWhole a).tmod (← nearestWhole b))) := by
    change remainderNumbers (.int a) (.int b) = _
    rw [remainderNumbers, hzero, if_neg Bool.false_ne_true]
    change (if b = 0 then _ else _) = _
    rw [if_neg hb]
    rfl
  rw [hparts, nearestWhole_eq, nearestWhole_eq]
  by_cases ha : HasDouble a
  · by_cases hb : HasDouble b
    · rw [if_pos ha, if_pos hb, if_pos ⟨ha, hb⟩]
      rfl
    · rw [if_pos ha, if_neg hb, if_neg (not_and_of_not_right _ hb)]
      rfl
  · rw [if_neg ha, if_neg (not_and_of_not_left _ ha)]
    rfl

/-- A quotient without a remainder is exact. -/
theorem applyBinary_div {a b q : Int} (hb : b ≠ 0) (hq : q * b = a) :
    applyBinary .div (.int a) (.int b) = .ok (.int q) := by
  have hzero : (Number.int b).isZero = false := beq_false_of_ne hb
  change divideNumbers (.int a) (.int b) = _
  subst hq
  simp only [divideNumbers, hzero, Bool.false_eq_true, if_false, Int.mul_emod_left, if_true,
    Int.mul_ediv_cancel _ hb]

end Expr

namespace Expression

open Lexeme Text

/-! ## Operands -/

/-- A text that stands for a whole number: its decimal, or a path that leads to it. -/
inductive WholeOperand (context : Value) : String → Int → Prop
  | decimal {n : Int} (hn : HasDouble n) : WholeOperand context (toString n) n
  | path (p : IndexedPath) {n : Int} (h : Path.lookupText p.text context = .ok (.int n)) :
    WholeOperand context p.text n

variable {context : Value} {x y text : String} {a b n : Int} {left right : Expr} {v w : Value}

theorem WholeOperand.renders (h : WholeOperand context text n) : ∃ e, Renders text e ∧
    ∀ library, e.evaluate library (Template.scope context) = .ok (.int n) := by
  cases h with
  | decimal hn =>
    obtain ⟨e, hrenders, hdenotes⟩ := renders_int n
    refine ⟨e, hrenders, fun library => ?_⟩
    rw [hdenotes, numeralValue, if_pos hn]
  | path p h =>
    refine ⟨_, p.renders, fun library => ?_⟩
    rw [Expr.evaluate, p.lookupText_keys, p.lookupText_scope, h]

theorem not_isBlank_of_mem_decimal {c : Char} (hc : c ∈ (toString n).toList) : isBlank c = false ∧ c ≠ '\x7b' := by
  have hdigit {k : Nat} (hc : c ∈ (toString k).toList) : isBlank c = false ∧ c ≠ '\x7b' := by
    rw [Nat.toString_eq_ofList_toDigits, String.toList_ofList] at hc
    have hdecimal := Spelling.isDigits_toDigits k c hc
    refine ⟨not_isBlank_of_isDecimal hdecimal, ?_⟩
    rintro rfl
    cases hdecimal
  cases n with
  | ofNat k => exact hdigit hc
  | negSucc k =>
    have htext : (toString (Int.negSucc k)).toList = '-' :: (toString (k + 1)).toList := String.toList_append
    rw [htext] at hc
    cases hc with
    | head => exact ⟨rfl, by decide⟩
    | tail _ hc => exact hdigit hc

/-- The characters of an operand are neither blank nor a brace. -/
theorem WholeOperand.solid (h : WholeOperand context text n) :
    text.toList ≠ [] ∧ ∀ c ∈ text.toList, isBlank c = false ∧ c ≠ '\x7b' := by
  obtain ⟨e, hrenders, -⟩ := h.renders
  refine ⟨hrenders.toList_ne_nil, fun c hc => ?_⟩
  cases h with
  | decimal => exact not_isBlank_of_mem_decimal hc
  | path p =>
    refine ⟨IndexedPath.not_isBlank_of_mem_text hc, ?_⟩
    rintro rfl
    rcases IndexedPath.isKeyChar_of_mem_text hc with h | h | h | h <;> cases h

/-! ## Expressions -/

/-- Operands with an operator between them are its operands. -/
theorem parse_operation (functions : String → Bool) (op : BinaryOp) (hx : Renders x left) (hy : Renders y right) :
    parse functions (x ++ (" " ++ signOf op ++ " ") ++ y) = .ok (.binary op left right) := by
  obtain ⟨ls, hls, hleft⟩ : ∃ ls, Cut [x] ls ∧ Holds functions 7 ls left := hx.holds
  obtain ⟨ms, hms, hright⟩ : ∃ ms, Cut [y] ms ∧ Holds functions 7 ms right := hy.holds
  have htight : op.tightness + 1 ≤ 7 := by cases op <;> decide
  have hcut : Cut [x, signOf op, y] (ls ++ ⟨.operator, signOf op⟩ :: ms) := hls.append (hms.one (lexes_sign op))
  have hholds : Holds functions op.tightness (ls ++ ⟨.operator, signOf op⟩ :: ms) (.binary op left right) :=
    .binary (operates_sign op) (hleft.mono (by omega)) (hright.mono htight)
  have htext : x ++ (" " ++ signOf op ++ " ") ++ y = " ".intercalate [x, signOf op, y] := by
    simp [String.intercalate_cons_cons, String.append_assoc]
  rw [htext, parse_eq_ok_iff]
  exact ⟨_, (spread_intercalate _).lexes hcut, hholds.level (by simp [Ends])⟩

/-- Between two texts that no blank is in, blanks stay. -/
theorem trim_between (between : String) (hx : x.toList ≠ [] ∧ ∀ c ∈ x.toList, isBlank c = false)
    (hy : y.toList ≠ [] ∧ ∀ c ∈ y.toList, isBlank c = false) : trim (x ++ between ++ y) = x ++ between ++ y := by
  have hreverse : ∀ c ∈ y.toList.reverse, isBlank c = false := fun c hc => hy.2 c (List.mem_reverse.1 hc)
  have hne : y.toList.reverse ≠ [] := by simpa using hy.1
  rw [trim, trimList, String.toList_append, String.toList_append, List.append_assoc, dropWhile_isBlank hx.2 hx.1,
    ← List.append_assoc, List.reverse_append, dropWhile_isBlank hreverse hne, ← List.reverse_append,
    List.reverse_reverse, ← String.toList_append, ← String.toList_append, String.ofList_toList]

/-- A text has a value, also as a text with references. -/
def Evaluates (library : Library) (context : Value) (text : String) (result : Except Fault Value) : Prop :=
  run library context text = result ∧ runWithReferences library context text = falseOnFault result

theorem Evaluates.of_parse {library : Library} {e : Expr} (htrim : trim text = text) (hbrace : '\x7b' ∉ text.toList)
    (hparse : parse (fun name => (library.function? name).isSome) text = .ok e) :
    Evaluates library context text (e.evaluate library (Template.scope context)) := by
  have hfilled : substitute (Template.scope context) (trim text) = .ok text := by
    rw [htrim]
    exact substitute_of_no_brace _ hbrace
  refine ⟨?_, runWithReferences_of_substitute hfilled hparse⟩
  simp only [run, hparse]

/-- An operation on operands has the value that its operator makes of theirs. -/
theorem evaluates_operation (library : Library) {op : BinaryOp} (hop : op ≠ .and ∧ op ≠ .or)
    (hx : WholeOperand context x a) (hy : WholeOperand context y b) :
    Evaluates library context (x ++ (" " ++ signOf op ++ " ") ++ y) (Expr.applyBinary op (.int a) (.int b)) := by
  obtain ⟨left, hleft, hleftValue⟩ := hx.renders
  obtain ⟨right, hright, hrightValue⟩ := hy.renders
  obtain ⟨hxne, hxsolid⟩ := hx.solid
  obtain ⟨hyne, hysolid⟩ := hy.solid
  have htrim := trim_between (" " ++ signOf op ++ " ") ⟨hxne, fun c hc => (hxsolid c hc).1⟩
    ⟨hyne, fun c hc => (hysolid c hc).1⟩
  have hbrace : '\x7b' ∉ (x ++ (" " ++ signOf op ++ " ") ++ y).toList := by
    have hsign : '\x7b' ∉ (" " ++ signOf op ++ " ").toList := by cases op <;> decide
    rw [String.toList_append, String.toList_append, List.mem_append, List.mem_append]
    rintro ((hmem | hmem) | hmem)
    · exact (hxsolid _ hmem).2 rfl
    · exact hsign hmem
    · exact (hysolid _ hmem).2 rfl
  have hevaluates : Evaluates library context (x ++ (" " ++ signOf op ++ " ") ++ y) _ :=
    .of_parse htrim hbrace (parse_operation _ op hleft hright)
  rwa [evaluate_binary (hleftValue library) (hrightValue library) hop] at hevaluates

/-- How whole numbers are divided. The quotient is exact if nothing is left over. The remainder is that of the
numbers as rounded, which up to `2 ^ 53` they are themselves; where no double is near one of them there is none. The
decimal of such a number is no whole number at all but an infinity. -/
theorem whole_numbers_divided (library : Library) (hx : WholeOperand context x a) (hy : WholeOperand context y b)
    (hb : b ≠ 0) :
    (∀ q, q * b = a → Evaluates library context (x ++ " / " ++ y) (.ok (.int q))) ∧
    (HasDouble a → HasDouble b → ∃ r, IsRemainder (nearestWhole a) (nearestWhole b) r ∧
      Evaluates library context (x ++ " % " ++ y) (.ok (.int r))) ∧
    (a.natAbs ≤ 2 ^ 53 → b.natAbs ≤ 2 ^ 53 → ∃ r, IsRemainder a b r ∧
      Evaluates library context (x ++ " % " ++ y) (.ok (.int r))) ∧
    (¬(HasDouble a ∧ HasDouble b) → Evaluates library context (x ++ " % " ++ y) (.error .overflow)) ∧
    ∀ n : Int, ¬HasDouble n → Evaluates library context (toString n)
      (.ok (.float (ofMagnitude (decide (n < 0)) infinityBits))) := by
  have hdiv : BinaryOp.div ≠ .and ∧ BinaryOp.div ≠ .or := by decide
  have hmod : BinaryOp.mod ≠ .and ∧ BinaryOp.mod ≠ .or := by decide
  have hslash : " " ++ signOf .div ++ " " = " / " := by decide
  have hpercent : " " ++ signOf .mod ++ " " = " % " := by decide
  have hquotient := evaluates_operation library hdiv hx hy
  have hremainder := evaluates_operation library hmod hx hy
  rw [hslash] at hquotient
  rw [hpercent, Expr.applyBinary_mod a hb] at hremainder
  have hrounded : HasDouble a → HasDouble b → ∃ r, IsRemainder (nearestWhole a) (nearestWhole b) r ∧
      Evaluates library context (x ++ " % " ++ y) (.ok (.int r)) := by
    intro ha hb'
    rw [if_pos ⟨ha, hb'⟩] at hremainder
    exact ⟨_, isRemainder_tmod _ (nearestWhole_ne_zero hb), hremainder⟩
  refine ⟨fun q hq => ?_, hrounded, fun ha hb' => ?_, fun hbeyond => ?_, fun n hn => ?_⟩
  · rwa [Expr.applyBinary_div hb hq] at hquotient
  · have hexact := hrounded (hasDouble_of_le ha) (hasDouble_of_le hb')
    rwa [nearestWhole_eq_self ha, nearestWhole_eq_self hb'] at hexact
  · rwa [if_neg hbeyond] at hremainder
  · obtain ⟨e, hrenders, hdenotes⟩ := renders_int n
    have hsolid : ∀ c ∈ (toString n).toList, isBlank c = false ∧ c ≠ '\x7b' := fun c => not_isBlank_of_mem_decimal
    have htrim : trim (toString n) = toString n := by
      rw [trim, trimList_of_not_isBlank (fun c hc => (hsolid c hc).1) hrenders.toList_ne_nil, String.ofList_toList]
    have hevaluates : Evaluates library context (toString n) _ :=
      .of_parse htrim (fun hmem => (hsolid _ hmem).2 rfl) (parse_of_renders hrenders)
    rwa [hdenotes, numeralValue, if_neg hn] at hevaluates

theorem WholeOperand.word {name : String} (h : IsIdentifier name) (hvalue : Path.lookupText name context = .ok (.int n)) :
    WholeOperand context name n := by
  obtain ⟨c, cs, hname, hc, hcs⟩ := h.chars
  have hsegment : IsSegment name.toList := hname ▸ .word hc (List.all_eq_true.1 hcs)
  exact .path ⟨.plain name hsegment, [], h⟩ hvalue

/-- Eggs in boxes: too few by thirty, and more than doubles tell apart. -/
theorem whole_numbers_divided_eggs :
    Evaluates [] (.object [("boxes", .int 12)]) "-30 % boxes" (.ok (.int (-6))) ∧
    Evaluates [] (.object [("boxes", .int 12)]) "1208925819614629174706172 / boxes"
      (.ok (.int 100743818301219097892181)) := by
  have hname : IsIdentifier "boxes" := ⟨⟨'b', ['o', 'x', 'e', 's'], rfl, rfl, rfl⟩, by decide +kernel⟩
  have hboxes : WholeOperand (.object [("boxes", .int 12)]) "boxes" 12 := .word hname rfl
  have hthirty : HasDouble (-30) := by decide +kernel
  have hlarge : HasDouble 1208925819614629174706172 := by decide +kernel
  have hfew : WholeOperand (.object [("boxes", .int 12)]) "-30" (-30) := .decimal hthirty
  have hmany : WholeOperand (.object [("boxes", .int 12)]) "1208925819614629174706172" 1208925819614629174706172 :=
    .decimal hlarge
  have hremainder : IsRemainder (-30) 12 (-6) := isRemainder_tmod (-30) (by decide)
  obtain ⟨r, hr, hevaluates⟩ := (whole_numbers_divided [] hfew hboxes (by decide)).2.2.1 (by decide) (by decide)
  obtain rfl := hr.unique hremainder
  exact ⟨hevaluates, (whole_numbers_divided [] hmany hboxes (by decide)).1 100743818301219097892181 (by decide)⟩

/-- The double next to an odd number is even, so the last egg is lost. -/
theorem last_egg_lost :
    Evaluates [] (.object [("eggs", .int 9007199254740993), ("pair", .int 2)]) "eggs % pair" (.ok (.int 0)) ∧
    ¬IsRemainder 9007199254740993 2 0 := by
  have heggs : IsIdentifier "eggs" := ⟨⟨'e', ['g', 'g', 's'], rfl, rfl, rfl⟩, by decide +kernel⟩
  have hpair : IsIdentifier "pair" := ⟨⟨'p', ['a', 'i', 'r'], rfl, rfl, rfl⟩, by decide +kernel⟩
  have hmod : BinaryOp.mod ≠ .and ∧ BinaryOp.mod ≠ .or := by decide
  have hrounded : nearestWhole 9007199254740993 = 9007199254740992 := by decide +kernel
  have hexact : nearestWhole 2 = 2 := by decide +kernel
  have hdouble : HasDouble 9007199254740993 ∧ HasDouble 2 := by decide +kernel
  constructor
  · have hevaluates := evaluates_operation [] hmod
      (.word heggs (rfl : Path.lookupText "eggs" (.object [("eggs", .int 9007199254740993), ("pair", .int 2)]) = _))
      (.word hpair (rfl : Path.lookupText "pair" (.object [("eggs", .int 9007199254740993), ("pair", .int 2)]) = _))
    rw [Expr.applyBinary_mod _ (by decide), if_pos hdouble, hrounded, hexact] at hevaluates
    exact hevaluates
  · intro h
    exact absurd h.dvd_sub (by decide)

end Expression

end Flowline
