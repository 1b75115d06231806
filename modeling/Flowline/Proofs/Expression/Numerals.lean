import Flowline.Proofs.Expression.Rendering
import Flowline.Value.Display

/-! # Numerals as expressions

A text that is a numeral stands for itself in an expression. The expression has the value of the numeral
where every point has a digit before and after it (`renders_numeral`), and the text does not parse
elsewhere (`closed_of_parse`). So a value whose text parses has the text of an operand
(`renders_of_parse`). -/

namespace Flowline

open Text

/-! ## Opposite numerals -/

theorem Value.numeralNumber_neg (n : Numeral) : Value.numeralNumber { n with negative := true } =
    (Value.numeralNumber { n with negative := false }).map Number.neg := by
  have hfloat : ({ n with negative := true } : Numeral).toFloat = -({ n with negative := false } : Numeral).toFloat :=
    (Double.ofDecimal_neg _ _).symm
  have hwhole : Double.isWhole ({ n with negative := true } : Numeral).toFloat =
      Double.isWhole ({ n with negative := false } : Numeral).toFloat := Double.isWhole_ofDecimal_neg _ _
  unfold Value.numeralNumber
  dsimp only
  rw [hwhole, hfloat]
  split
  · rfl
  split
  · split <;> rfl
  · rfl

theorem Value.toNumber_toValue (n : Number) : n.toValue.toNumber = .ok n := by
  cases n <;> rfl

/-! ## Points -/

/-- A point in a text that lacks a digit before it or after it. -/
def BarePoint (cs : List Char) : Prop := ∃ before after, cs = before ++ '.' :: after ∧
  ¬((∃ c ∈ before.getLast?, isDecimal c = true) ∧ ∃ c ∈ after.head?, isDecimal c = true)

namespace Spelling

variable {sp : Spelling}

theorem chars_of_fraction (sp : Spelling) {fraction : List Char} (h : sp.fraction? = some fraction) :
    sp.chars = (sp.sign ++ sp.whole) ++ '.' :: (fraction ++ sp.exponent) := by
  simp [chars, point, h]

theorem point_not_mem_sign (sp : Spelling) : '.' ∉ sp.sign := by
  rcases sp.isSign with h | h | h <;> rw [h] <;> decide

theorem point_not_mem_digits {ds : List Char} (h : IsDigits ds) : '.' ∉ ds := fun hmem =>
  absurd (h _ hmem) (by decide)

theorem point_not_mem_exponent (sp : Spelling) : '.' ∉ sp.exponent := by
  unfold exponent
  cases sp.exponent? with
  | none => exact List.not_mem_nil
  | some x =>
    simp only [Option.map_some, Option.getD_some, ExponentSpelling.chars, List.mem_cons, List.mem_append, not_or]
    refine ⟨?_, ?_, point_not_mem_digits x.isDigits⟩
    · rcases x.letter_eq with h | h <;> rw [h] <;> decide
    · rcases x.isSign with h | h | h <;> rw [h] <;> decide

theorem getLast?_sign_whole (sp : Spelling) :
    (∃ c ∈ (sp.sign ++ sp.whole).getLast?, isDecimal c = true) ↔ sp.whole ≠ [] := by
  constructor
  · rintro ⟨c, hc, hdigit⟩ hwhole
    rw [hwhole, List.append_nil] at hc
    rcases sp.isSign with h | h | h <;> rw [h] at hc
    · cases hc
    · cases hc
      cases hdigit
    · cases hc
      cases hdigit
  · intro hwhole
    refine ⟨sp.whole.getLast hwhole, ?_, sp.isDigits_whole _ (List.getLast_mem hwhole)⟩
    rw [List.getLast?_append_of_ne_nil _ hwhole]
    exact List.getLast?_eq_getLast_of_ne_nil hwhole

theorem head?_fraction {fraction : List Char} (h : sp.fraction? = some fraction) :
    (∃ c ∈ (fraction ++ sp.exponent).head?, isDecimal c = true) ↔ fraction ≠ [] := by
  have hdigits : IsDigits fraction := by simpa [h] using sp.isDigits_fraction
  constructor
  · rintro ⟨c, hc, hdigit⟩ rfl
    have hahead := sp.noDigitAhead_exponent noDigitAhead_nil
    rw [List.append_nil] at hahead
    rw [hahead c hc] at hdigit
    cases hdigit
  · intro hne
    obtain ⟨d, ds, rfl⟩ := List.exists_cons_of_ne_nil hne
    exact ⟨d, rfl, hdigits d (List.mem_cons_self ..)⟩

/-- The spellings with digits on both sides of their point are those without a bare one. -/
theorem closed_iff : sp.Closed ↔ ¬BarePoint sp.chars := by
  cases hfraction : sp.fraction? with
  | none =>
    have hwhole : sp.whole ≠ [] := by simpa [hfraction] using sp.ne_nil
    refine iff_of_true ⟨hwhole, by simp [hfraction]⟩ ?_
    rintro ⟨before, after, hchars, -⟩
    have hmem : '.' ∈ sp.chars := hchars ▸ List.mem_append_right _ (List.mem_cons_self ..)
    simp [chars, point, hfraction, sp.point_not_mem_sign, point_not_mem_digits sp.isDigits_whole,
      sp.point_not_mem_exponent] at hmem
  | some fraction =>
    have hdigits : IsDigits fraction := by simpa [hfraction] using sp.isDigits_fraction
    have hbefore : '.' ∉ sp.sign ++ sp.whole := by
      simp [sp.point_not_mem_sign, point_not_mem_digits sp.isDigits_whole]
    have hafter : '.' ∉ fraction ++ sp.exponent := by
      simp [point_not_mem_digits hdigits, sp.point_not_mem_exponent]
    have hclosed : sp.Closed ↔ sp.whole ≠ [] ∧ fraction ≠ [] := by simp [Closed, hfraction]
    rw [hclosed, ← sp.getLast?_sign_whole, ← head?_fraction hfraction]
    constructor
    · rintro hboth ⟨before, after, hchars, hbare⟩
      rw [sp.chars_of_fraction hfraction] at hchars
      obtain ⟨rfl, -, rfl⟩ := (List.append_cons_inj_of_notMem hbefore hafter).1 hchars
      exact hbare hboth
    · intro hbare
      by_contra hmissing
      exact hbare ⟨_, _, sp.chars_of_fraction hfraction, hmissing⟩

/-! ## Signs -/

theorem chars_eq (sp : Spelling) : sp.chars = sp.sign ++ sp.unsigned.chars := by
  simp [chars, unsigned, point, exponent]

theorem numeral_unsigned (sp : Spelling) : sp.unsigned.numeral = { sp.numeral with negative := false } := by
  simp [numeral, unsigned]

/-- The number of a spelling is the one without the sign or its opposite. -/
theorem numeralNumber_eq (sp : Spelling) : Value.numeralNumber sp.numeral =
    if sp.sign = ['-'] then (Value.numeralNumber sp.unsigned.numeral).map Number.neg
    else Value.numeralNumber sp.unsigned.numeral := by
  rw [numeral_unsigned]
  split
  · next hsign =>
    rw [← Value.numeralNumber_neg]
    simp [numeral, hsign]
  · next hsign => simp [numeral, hsign]

end Spelling

namespace Expression

open Lexeme

variable {functions : String → Bool} {p : Phrase} {ls ms : List Lexeme} {e : Expr} {sp : Spelling}

theorem renders_plus {text : String} (h : Renders text e) : Renders ("+" ++ text) e := by
  obtain ⟨ls, hlexes, hoperand⟩ := h
  refine ⟨⟨.operator, "+"⟩ :: ls, ?_, by simp, rfl, fun functions rest hrest => ?_⟩
  · rw [String.toList_append]
    exact Lexes.mark '+' .operator rfl hlexes
  · exact .plus rfl (hoperand.reads functions rest hrest)

/-- A numeral without bare points is an expression of its number. -/
theorem renders_numeral {n : Number} (hclosed : sp.Closed) (hn : Value.numeralNumber sp.numeral = .ok n) :
    ∃ e, Renders (String.ofList sp.chars) e ∧ Denotes e n.toValue := by
  rw [sp.numeralNumber_eq] at hn
  have hrenders {m : Number} (hm : Value.numeralNumber sp.unsigned.numeral = .ok m) :
      Renders (String.ofList sp.unsigned.chars) (.literal m.toValue) := renders_spelling rfl hclosed hm
  rw [sp.chars_eq]
  rcases sp.isSign with hsign | hsign | hsign <;> simp only [hsign, String.ofList_append] at hn ⊢
  · exact ⟨.literal n.toValue, by simpa using hrenders hn, fun _ _ => rfl⟩
  · exact ⟨.literal n.toValue, renders_plus (hrenders hn), fun _ _ => rfl⟩
  · rw [if_pos trivial] at hn
    cases hm : Value.numeralNumber sp.unsigned.numeral with
    | error cause =>
      rw [hm] at hn
      cases hn
    | ok m =>
      rw [hm] at hn
      cases hn
      refine ⟨.unary .neg (.literal m.toValue), renders_neg (hrenders hm), fun library context => ?_⟩
      exact bind_eq_ok.2 ⟨_, rfl, bind_eq_ok.2 ⟨m, Value.toNumber_toValue m, rfl⟩⟩

/-! ## Texts that parse -/

/-- The phrases that can begin with a sign. -/
def Phrase.takesSigns : Phrase → Bool
  | .level _ | .not | .signed => true
  | _ => false

theorem Level.takesSigns_operand (l : Level) : l.operand.takesSigns = true := by
  cases l <;> rfl

def IsSigns (ls : List Lexeme) : Prop := ∀ l ∈ ls, l = ⟨.operator, "+"⟩ ∨ l = ⟨.operator, "-"⟩

/-- After signs a primary expression is read. -/
theorem Reads.exists_primary {signs : List Lexeme} (h : Reads functions p (signs ++ ls) e ms)
    (hp : p.takesSigns = true) (hsigns : IsSigns signs) (hkind : (first ls).kind ≠ .operator)
    (hname : (first ls).kind ≠ .name) : ∃ e' ms', Reads functions .primary ls e' ms' := by
  generalize hks : signs ++ ls = ks at h
  induction h generalizing signs with
  | @level l _ _ _ _ _ _ _ ihleft _ => exact ihleft l.takesSigns_operand hsigns hks
  | comparison _ _ ih => exact ih rfl hsigns hks
  | @not o _ _ _ ho _ _ =>
    cases signs with
    | nil =>
      obtain rfl : ls = o :: _ := hks
      cases ho.symm.trans (isKeyword_of_kind hkind hname)
    | cons l signs =>
      obtain ⟨rfl, -⟩ := List.cons.inj hks
      rcases hsigns l (List.mem_cons_self ..) with rfl | rfl <;> cases ho
  | @minus o _ _ _ ho _ ih | @plus o _ _ _ ho _ ih =>
    cases signs with
    | nil =>
      obtain rfl : ls = o :: _ := hks
      exact absurd (congrArg Lexeme.kind (Lexeme.isSign_iff.1 ho)) hkind
    | cons l signs =>
      obtain ⟨-, hrest⟩ := List.cons.inj hks
      exact ih rfl (fun l hl => hsigns l (List.mem_cons_of_mem _ hl)) hrest
  | primary hminus hplus h _ =>
    cases signs with
    | nil =>
      obtain rfl := hks
      exact ⟨_, _, h⟩
    | cons l signs =>
      obtain rfl := hks
      rcases hsigns l (List.mem_cons_self ..) with rfl | rfl
      · cases hplus
      · cases hminus
  | _ => cases hp

theorem reads_signs {signs : List Lexeme} (h : Reads functions .signed ls e ms) (hsigns : IsSigns signs) :
    ∃ e', Reads functions .signed (signs ++ ls) e' ms := by
  induction signs with
  | nil => exact ⟨e, h⟩
  | cons l signs ih =>
    obtain ⟨hl, hsigns⟩ := List.forall_mem_cons.1 hsigns
    obtain ⟨e', hreads⟩ := ih hsigns
    rcases hl with rfl | rfl
    · exact ⟨_, .plus rfl hreads⟩
    · exact ⟨_, .minus rfl hreads⟩

/-- The lexemes of a sign. -/
theorem Lexes.of_sign {sign cs : List Char} (h : Lexes (sign ++ cs) ls) (hsign : IsSign sign) :
    ∃ signs ms, ls = signs ++ ms ∧ IsSigns signs ∧ Lexes cs ms := by
  rcases hsign with rfl | rfl | rfl
  · exact ⟨[], ls, rfl, nofun, h⟩
  · obtain ⟨ms, rfl, hms⟩ := h.of_mark rfl
    exact ⟨[⟨.operator, "+"⟩], ms, rfl, List.forall_mem_singleton.2 (.inl rfl), hms⟩
  · obtain ⟨ms, rfl, hms⟩ := h.of_mark rfl
    exact ⟨[⟨.operator, "-"⟩], ms, rfl, List.forall_mem_singleton.2 (.inr rfl), hms⟩

theorem toNumber_of_numberValue {text : String} {v : Value} (h : numberValue text = .ok v) :
    ∃ n, (Value.str text).toNumber = .ok n := by
  unfold numberValue at h
  split at h
  · next n hn => exact ⟨n, hn⟩
  · cases h
  · cases h

/-- Digits before a point that no digit follows are a token. -/
theorem lexeme?_digits {c : Char} {ds rest : List Char} (hc : isDecimal c = true) (hds : IsDigits ds)
    (hrest : NoDigitAhead rest) : lexeme? c (ds ++ '.' :: rest) = some (some .number, ds.length) := by
  have hpoint : NoDigitAhead ('.' :: rest) := by
    rintro _ ⟨⟩
    rfl
  have hsize : numberSize (ds ++ '.' :: rest) = ds.length := by
    simp only [numberSize, countWhile_digits hds hpoint, List.drop_left, fractionSize_eq_zero hrest]
    rfl
  rw [lexeme?_of_isDecimal hc, hsize]

/-- No expression begins with a point. -/
theorem not_reads_dot {signs : List Lexeme} {l : Level} {text : String} (hsigns : IsSigns signs) :
    ¬Reads functions (.level l) (signs ++ ⟨.dot, text⟩ :: ls) e ms := by
  intro h
  obtain ⟨e', ms', hprimary⟩ := h.exists_primary rfl hsigns nofun nofun
  cases hprimary.canBegin rfl

/-- No point follows a number. -/
theorem not_reads_number_dot {signs : List Lexeme} {number text : String} (hsigns : IsSigns signs) :
    ¬Reads functions (.level .disjunction) (signs ++ ⟨.number, number⟩ :: ⟨.dot, text⟩ :: ls) e [stop] := by
  intro h
  obtain ⟨e', ms', hprimary⟩ := h.exists_primary rfl hsigns nofun nofun
  have hsigned : Reads functions .signed (⟨.number, number⟩ :: ⟨.dot, text⟩ :: ls) e' (⟨.dot, text⟩ :: ls) := by
    cases hprimary with
    | number hv => exact .primary rfl rfl (.number hv)
  obtain ⟨e'', hreads⟩ := reads_signs hsigned hsigns
  have hword : (first (signs ++ ⟨.number, number⟩ :: ⟨.dot, text⟩ :: ls)).isKeyword "!" "not" = false := by
    cases signs with
    | nil => rfl
    | cons l signs => rcases hsigns l (List.mem_cons_self ..) with rfl | rfl <;> rfl
  have hdot (l : Level) : l.operator? (⟨.dot, text⟩ : Lexeme).token = none := by
    cases l <;> rfl
  obtain ⟨-, hrest⟩ := h.unique (hreads.level_of_signed hword hdot _)
  cases hrest

/-- A numeral that parses has no bare point, and it denotes a number. -/
theorem closed_of_parse (h : parse functions (String.ofList sp.chars) = .ok e) :
    sp.Closed ∧ ∃ n, Value.numeralNumber sp.numeral = .ok n := by
  obtain ⟨ls, hlexes, hreads⟩ := parse_eq_ok_iff.1 h
  rw [String.toList_ofList, sp.chars_eq] at hlexes
  obtain ⟨signs, ls, rfl, hsigns, hlexes⟩ := hlexes.of_sign sp.isSign
  rw [List.append_assoc] at hreads
  by_cases hclosed : sp.Closed
  · have hunsigned : sp.unsigned.Closed := hclosed
    obtain rfl := hlexes.unique (hunsigned.lexes rfl)
    obtain ⟨e', ms', hprimary⟩ := hreads.exists_primary rfl hsigns nofun nofun
    cases hprimary with
    | number hv =>
      obtain ⟨n, hn⟩ := toNumber_of_numberValue hv
      rw [Spelling.toNumber_chars] at hn
      rw [sp.numeralNumber_eq, hn]
      refine ⟨hclosed, ?_⟩
      split
      · exact ⟨_, rfl⟩
      · exact ⟨_, rfl⟩
  exfalso
  by_cases hwhole : sp.whole = []
  · obtain ⟨fraction, hfraction⟩ := Spelling.exists_fraction hwhole
    rw [sp.unsigned.chars_of_fraction hfraction] at hlexes
    simp only [Spelling.unsigned, hwhole, List.append_nil, List.nil_append] at hlexes
    obtain ⟨ms, rfl, -⟩ := hlexes.of_mark rfl
    exact not_reads_dot hsigns hreads
  · obtain ⟨c, ds, hcs⟩ := List.exists_cons_of_ne_nil hwhole
    have hdigits := sp.isDigits_whole
    rw [hcs] at hdigits
    obtain ⟨hc, hds⟩ := List.forall_mem_cons.1 hdigits
    have hfraction : sp.fraction? = some [] := by
      by_contra hne
      exact hclosed ⟨hwhole, hne⟩
    have hahead := sp.noDigitAhead_exponent noDigitAhead_nil
    rw [List.append_nil] at hahead
    rw [sp.unsigned.chars_of_fraction hfraction] at hlexes
    simp only [Spelling.unsigned, hcs, List.nil_append, List.cons_append] at hlexes
    obtain ⟨ms, rfl, hpoint⟩ := hlexes.of_token (lexeme?_digits hc hds hahead)
    obtain ⟨ms, rfl, -⟩ := hpoint.of_mark rfl
    exact not_reads_number_dot hsigns hreads

/-! ## Values -/

/-- The text that a value has in expressions is that of an operand, if it parses on its own. -/
theorem renders_of_parse {v : Value} {text : String} (htext : v.expressionText = .ok text)
    (h : parse functions text = .ok e) : Renders text e := by
  suffices hrenders : ∃ e', Renders text e' by
    obtain ⟨e', he'⟩ := hrenders
    obtain rfl := Except.ok.inj (h.symm.trans (parse_of_renders he'))
    exact he'
  unfold Value.expressionText at htext
  split at htext
  · cases htext; exact ⟨_, renders_null⟩
  · cases htext; exact ⟨_, renders_bool _⟩
  · next n =>
    obtain rfl : text = toString n := Value.eq_text_of_written htext
    obtain ⟨e', he', -⟩ := renders_int n
    exact ⟨e', he'⟩
  · next x =>
    cases htext
    split
    · exact ⟨_, renders_null⟩
    · next hx => exact renders_text (by simpa [Option.isSome_iff_ne_none] using hx)
  · next s =>
    cases htext
    split at h
    · next hnumeric =>
      rw [if_pos hnumeric]
      obtain ⟨n, hn⟩ := Option.isSome_iff_exists.1 hnumeric
      obtain ⟨sp, htrim, -⟩ := exists_spelling hn
      rw [htrim] at h ⊢
      obtain ⟨hclosed, m, hm⟩ := closed_of_parse h
      obtain ⟨e', he', -⟩ := renders_numeral hclosed hm
      exact ⟨e', he'⟩
    · next hnumeric =>
      rw [if_neg hnumeric]
      exact ⟨_, renders_string s⟩
  · exact renders_write _ 0 htext
  · exact renders_write _ 0 htext
  · obtain ⟨written, -, heq⟩ := bind_eq_ok.1 htext
    cases heq
    exact ⟨_, renders_string written⟩

end Expression
end Flowline
