import Flowline.Proofs.Expression.Rendering

/-! # The places of tokens

`Spells kind? text`: the text is a token of a kind, or blanks. What `lexeme?` cuts off the front of a text is the longest
text of any kind that is spelled there (`spells_of_lexeme?`, `exists_lexeme?`). `Cuts` is a run of the scanner from one
place to another: it ends at the end of the text or where nothing is spelled, the tokens and the blanks between them
are all of the text before (`Covers`), and blanks put between tokens only move the tokens behind them (`Cuts.insert`). -/

namespace Flowline.Expression

open Text

/-! ## What is spelled -/

/-- A point and digits after it, or nothing. -/
inductive IsFraction : List Char → Prop
  | none : IsFraction []
  | point {ds} (hds : IsDigits ds) (hne : ds ≠ []) : IsFraction ('.' :: ds)

/-- An exponent, or nothing. -/
inductive IsExponent : List Char → Prop
  | none : IsExponent []
  | some (x : ExponentSpelling) : IsExponent x.chars

/-- What stands between quotes: a backslash takes the next character with it, and that is on the same line. -/
inductive IsQuotable (quote : Char) : List Char → Prop
  | nil : IsQuotable quote []
  | plain {c cs} (hquote : c ≠ quote) (hslash : c ≠ '\\') (h : IsQuotable quote cs) : IsQuotable quote (c :: cs)
  | escaped {c cs} (hline : c ≠ '\n') (h : IsQuotable quote cs) : IsQuotable quote ('\\' :: c :: cs)

def operators : List (List Char) :=
  [['=', '=', '='], ['!', '=', '='], ['=', '='], ['!', '='], ['>', '='], ['<', '='], ['&', '&'], ['|', '|'],
    ['<'], ['>'], ['!'], ['+'], ['-'], ['*'], ['/'], ['%']]

def marks : List (Char × TokenKind) :=
  [('(', .leftParen), (')', .rightParen), ('[', .leftBracket), (']', .rightBracket), ('\x7b', .leftBrace),
    ('\x7d', .rightBrace), (',', .comma), (':', .colon), ('.', .dot)]

/-- A text is a token of a kind; no kind stands for blanks. -/
inductive Spells : Option TokenKind → List Char → Prop
  | blanks {cs} (hne : cs ≠ []) (h : ∀ c ∈ cs, isBlank c = true) : Spells none cs
  | number {whole fraction exponent} (hne : whole ≠ []) (hwhole : IsDigits whole) (hfraction : IsFraction fraction)
    (hexponent : IsExponent exponent) : Spells (some .number) (whole ++ (fraction ++ exponent))
  | string {quote body} (hquote : isQuote quote = true) (hbody : IsQuotable quote body) :
    Spells (some .string) (quote :: (body ++ [quote]))
  | name {c cs} (hc : isNameStart c = true) (hcs : ∀ d ∈ cs, isNameChar d = true) : Spells (some .name) (c :: cs)
  | operator {cs} (h : cs ∈ operators) : Spells (some .operator) cs
  | mark {c kind} (h : (c, kind) ∈ marks) : Spells (some kind) [c]

variable {c : Char} {cs ds rest more : List Char} {n : Nat} {kind? : Option TokenKind} {text : List Char}

/-! ## Sizes -/

theorem take_countWhile (p : Char → Bool) (cs : List Char) : cs.take (countWhile p cs) = cs.takeWhile p :=
  (List.prefix_iff_eq_take.1 (List.takeWhile_prefix p)).symm

theorem of_mem_takeWhile {p : Char → Bool} : ∀ c ∈ cs.takeWhile p, p c = true := List.all_eq_true.1 List.all_takeWhile

theorem takeWhile_ne_nil {p : Char → Bool} (h : countWhile p cs ≠ 0) : cs.takeWhile p ≠ [] :=
  mt List.length_eq_zero_iff.2 h

theorem le_countWhile {p : Char → Bool} (hds : ∀ c ∈ ds, p c = true) : ds.length ≤ countWhile p (ds ++ rest) := by
  rw [countWhile, List.takeWhile_append_of_pos hds, List.length_append]
  exact Nat.le_add_right _ _

theorem fractionSize_cons (rest : List Char) : fractionSize ('.' :: rest) =
    if countWhile isDecimal rest = 0 then 0 else countWhile isDecimal rest + 1 := by
  simp only [fractionSize]
  split
  · next h => rw [if_pos h]
  · next h => rw [if_neg h]

theorem isFraction_take (cs : List Char) : IsFraction (cs.take (fractionSize cs)) := by
  by_cases hpoint : cs.head? = some '.'
  · obtain ⟨rest, rfl⟩ : ∃ rest, cs = '.' :: rest := by
      cases cs <;> simp_all
    rw [fractionSize_cons]
    split
    · exact .none
    · next hdigits =>
      rw [List.take_succ_cons, take_countWhile]
      exact .point of_mem_takeWhile (takeWhile_ne_nil hdigits)
  · rw [fractionSize_of_head?_ne hpoint]
    exact .none

theorem le_fractionSize (h : IsFraction ds) : ds.length ≤ fractionSize (ds ++ rest) := by
  cases h with
  | none => exact Nat.zero_le _
  | @point ds hds hne =>
    have hle : ds.length ≤ countWhile isDecimal (ds ++ rest) := le_countWhile hds
    have hpos : 0 < ds.length := List.length_pos_iff.2 hne
    rw [List.cons_append, fractionSize_cons, if_neg (by omega), List.length_cons]
    omega

theorem fractionSize_eq (h : IsFraction ds) (hrest : NoDigitAhead rest) (hpoint : rest.head? ≠ some '.') :
    fractionSize (ds ++ rest) = ds.length := by
  cases h with
  | none => exact fractionSize_of_head?_ne hpoint
  | point hds hne => exact fractionSize_point hds hne hrest

/-- A sign at the front, or none. -/
theorem exists_signAhead (cs : List Char) :
    ∃ sign rest, cs = sign ++ rest ∧ IsSign sign ∧ (sign = [] → NoSignAhead rest) := by
  cases cs with
  | nil => exact ⟨[], [], rfl, isSign_nil, fun _ => nofun⟩
  | cons c cs =>
    by_cases hsign : c = '+' ∨ c = '-'
    · refine ⟨[c], cs, rfl, ?_, nofun⟩
      rcases hsign with rfl | rfl
      · exact .inr (.inl rfl)
      · exact .inr (.inr rfl)
    · refine ⟨[], c :: cs, rfl, isSign_nil, fun _ => ?_⟩
      rintro _ ⟨⟩
      exact not_or.1 hsign

theorem exponentSize_cons {letter : Char} {sign : List Char} (hletter : letter = 'e' ∨ letter = 'E')
    (hsign : IsSign sign) (hahead : sign = [] → NoSignAhead rest) :
    exponentSize (letter :: (sign ++ rest)) =
      if countWhile isDecimal rest = 0 then 0 else sign.length + 1 + countWhile isDecimal rest := by
  have hletter : (letter == 'e' || letter == 'E') = true := by simpa using hletter
  simp only [exponentSize, hletter, if_true]
  rcases hsign with rfl | rfl | rfl
  · have hahead := hahead rfl
    cases rest with
    | nil => rfl
    | cons d rest =>
      obtain ⟨hplus, hminus⟩ := hahead d rfl
      rw [List.nil_append]
      split
      · next heq => exact absurd (List.cons.inj heq).1 hplus
      · next heq => exact absurd (List.cons.inj heq).1 hminus
      · split
        · next h => rw [if_pos h]
        · next h => rw [if_neg h, List.length_nil, Nat.add_comm]
  all_goals
    simp only [List.cons_append, List.nil_append, List.length_cons, List.length_nil]
    split
    · next h => rw [if_pos h]
    · next h => rw [if_neg h, Nat.add_comm]

theorem isExponent_take (cs : List Char) : IsExponent (cs.take (exponentSize cs)) := by
  cases cs with
  | nil => exact .none
  | cons letter cs =>
    by_cases hletter : letter = 'e' ∨ letter = 'E'
    · obtain ⟨sign, rest, rfl, hsign, hahead⟩ := exists_signAhead cs
      rw [exponentSize_cons hletter hsign hahead]
      split
      · exact .none
      · next hdigits =>
        have hexponent := IsExponent.some ⟨letter, sign, rest.takeWhile isDecimal, hletter, hsign, of_mem_takeWhile,
          takeWhile_ne_nil hdigits⟩
        rwa [Nat.add_right_comm, List.take_succ_cons, List.take_length_add_append, take_countWhile]
    · have hzero : exponentSize (letter :: cs) = 0 := by
        simp only [exponentSize]
        rw [if_neg (by simpa using hletter)]
      rw [hzero]
      exact .none

theorem le_exponentSize (h : IsExponent ds) : ds.length ≤ exponentSize (ds ++ rest) := by
  cases h with
  | none => exact Nat.zero_le _
  | some x =>
    have hle : x.digits.length ≤ countWhile isDecimal (x.digits ++ rest) := le_countWhile x.isDigits
    have hpos : 0 < x.digits.length := List.length_pos_iff.2 x.ne_nil
    have hahead : x.sign = [] → NoSignAhead (x.digits ++ rest) := fun _ => x.isDigits.noSignAhead x.ne_nil
    have hsize := exponentSize_cons x.letter_eq x.isSign hahead
    rw [if_neg (by omega)] at hsize
    simp only [ExponentSpelling.chars, List.cons_append, List.append_assoc, hsize, List.length_cons, List.length_append]
    omega

/-- What ends the digits before it. -/
theorem noDigitAhead_append {fraction exponent : List Char} (hfraction : IsFraction fraction)
    (hexponent : IsExponent exponent) (hne : fraction ++ exponent ≠ []) :
    NoDigitAhead (fraction ++ (exponent ++ rest)) := by
  cases hfraction with
  | none =>
    cases hexponent with
    | none => exact absurd rfl hne
    | some x =>
      rintro _ ⟨⟩
      rcases x.letter_eq with h | h <;> rw [h] <;> decide
  | point =>
    rintro _ ⟨⟩
    decide

theorem spells_number (hc : isDecimal c = true) (cs : List Char) :
    Spells (some .number) (c :: cs.take (numberSize cs)) := by
  have hwhole : IsDigits (c :: cs.takeWhile isDecimal) := List.forall_mem_cons.2 ⟨hc, of_mem_takeWhile⟩
  have hspells := Spells.number (List.cons_ne_nil _ _) hwhole (isFraction_take (cs.drop (countWhile isDecimal cs)))
    (isExponent_take ((cs.drop (countWhile isDecimal cs)).drop (fractionSize (cs.drop (countWhile isDecimal cs)))))
  rw [← take_countWhile, List.cons_append, ← List.append_assoc, ← List.take_add] at hspells
  simp only [List.drop_drop, ← List.take_add] at hspells
  simpa only [numberSize, List.drop_drop] using hspells

/-- The digits, the fraction and the exponent at the front are part of the number. -/
theorem le_numberSize {whole fraction exponent : List Char} (hwhole : IsDigits whole) (hfraction : IsFraction fraction)
    (hexponent : IsExponent exponent) :
    (whole ++ (fraction ++ exponent)).length ≤ numberSize (whole ++ (fraction ++ (exponent ++ rest))) := by
  by_cases hne : fraction ++ exponent = []
  · obtain ⟨rfl, rfl⟩ := List.append_eq_nil_iff.1 hne
    have hle : whole.length ≤ countWhile isDecimal (whole ++ rest) := le_countWhile hwhole
    simp only [numberSize, List.nil_append, List.append_nil]
    omega
  · have hahead : NoDigitAhead (fraction ++ (exponent ++ rest)) := noDigitAhead_append hfraction hexponent hne
    have hcount := countWhile_digits hwhole hahead
    simp only [numberSize, hcount, List.drop_left, List.length_append]
    by_cases hnone : exponent = []
    · subst hnone
      have hle : fraction.length ≤ fractionSize (fraction ++ rest) := le_fractionSize hfraction
      simp only [List.nil_append, List.length_nil]
      omega
    · have hahead : NoDigitAhead (exponent ++ rest) := noDigitAhead_append .none hexponent (by simpa using hnone)
      have hpoint : (exponent ++ rest).head? ≠ some '.' := by
        cases hexponent with
        | none => exact absurd rfl hnone
        | some x =>
          change some x.letter ≠ some '.'
          rcases x.letter_eq with h | h <;> rw [h] <;> decide
      have hle : exponent.length ≤ exponentSize (exponent ++ rest) := le_exponentSize hexponent
      rw [fractionSize_eq hfraction hahead hpoint, List.drop_left]
      omega

/-! ## Strings, operators and marks -/

theorem spells_string {quote : Char} (hquote : isQuote quote = true) (hsize : stringSize? quote cs = some n) :
    Spells (some .string) (quote :: cs.take n) := by
  obtain ⟨body, hbody, htake⟩ : ∃ body, IsQuotable quote body ∧ cs.take n = body ++ [quote] := by
    fun_induction stringSize? quote cs generalizing n with
    | case1 | case2 | case5 => cases hsize
    | case3 c cs hline ih =>
      obtain ⟨m, hm, rfl⟩ := Option.map_eq_some_iff.1 hsize
      obtain ⟨body, hbody, htake⟩ := ih hm
      exact ⟨'\\' :: c :: body, .escaped (by simpa using hline) hbody, by simp [htake]⟩
    | case4 c cs _ hc =>
      cases hsize
      obtain rfl := beq_iff_eq.1 hc
      exact ⟨[], .nil, rfl⟩
    | case6 c cs _ hc hslash ih =>
      obtain ⟨m, hm, rfl⟩ := Option.map_eq_some_iff.1 hsize
      obtain ⟨body, hbody, htake⟩ := ih hm
      exact ⟨c :: body, .plain (by simpa using hc) (by simpa using hslash) hbody, by simp [htake]⟩
  rw [htake]
  exact .string hquote hbody

/-- A string ends at its first quote that no backslash takes with it. -/
theorem IsQuotable.stringSize?_eq {quote : Char} {body : List Char} (h : IsQuotable quote body)
    (hslash : quote ≠ '\\') : stringSize? quote (body ++ quote :: rest) = some (body.length + 1) := by
  induction h with
  | nil => rw [List.nil_append, stringSize?_cons hslash, if_pos rfl, List.length_nil]
  | plain hquote hplain _ ih =>
    rw [List.cons_append, stringSize?_cons hplain, if_neg hquote, ih, Option.map_some, List.length_cons]
  | escaped hline _ ih => simp [stringSize?, hline, ih]

theorem mem_operators (h : operatorSize? c rest = some n) : c :: rest.take n ∈ operators := by
  unfold operatorSize? at h
  split at h
  case h_9 =>
    split at h
    · next hc =>
      cases h
      rw [List.take_zero]
      simp only [List.contains_eq_mem, decide_eq_true_eq, List.mem_cons, List.not_mem_nil, or_false] at hc
      rcases hc with rfl | rfl | rfl | rfl | rfl | rfl | rfl | rfl <;> decide
    · cases h
  all_goals
    cases h
    simp [operators]

/-- The longest operator wins. -/
theorem le_operatorSize? {op : List Char} (h : op ∈ operators) (hop : op ++ more = c :: rest) :
    ∃ n, operatorSize? c rest = some n ∧ op.length ≤ n + 1 := by
  simp only [operators, List.mem_cons, List.not_mem_nil, or_false] at h
  rcases h with rfl | rfl | rfl | rfl | rfl | rfl | rfl | rfl | rfl | rfl | rfl | rfl | rfl | rfl | rfl | rfl <;>
  · obtain ⟨rfl, rfl⟩ := List.cons.inj hop
    unfold operatorSize?
    split <;> simp_all
    all_goals
      rename_i hlong heq
      exact hlong _ heq.symm

theorem mem_marks {kind : TokenKind} : markKind? c = some kind ↔ (c, kind) ∈ marks := by
  unfold markKind?
  split <;> simp_all [marks, eq_comm]

/-! ## The front of a text -/

theorem Spells.ne_nil (h : Spells kind? text) : text ≠ [] := by
  cases h with
  | blanks hne => exact hne
  | number hne => exact List.append_ne_nil_of_left_ne_nil hne _
  | operator hmem =>
    rintro rfl
    revert hmem
    decide
  | _ => exact List.cons_ne_nil _ _

/-- What is cut off the front of a text is spelled. -/
theorem spells_of_lexeme? (h : lexeme? c rest = some (kind?, n)) : Spells kind? (c :: rest.take n) := by
  cases starts_of_lexeme? h with
  | blank hc =>
    rw [take_countWhile]
    exact .blanks (List.cons_ne_nil _ _) (List.forall_mem_cons.2 ⟨hc, of_mem_takeWhile⟩)
  | number hc => exact spells_number hc rest
  | string hc hsize => exact spells_string (by simpa [isQuote] using hc) hsize
  | name hc =>
    rw [take_countWhile]
    exact .name hc of_mem_takeWhile
  | operator hsize => exact .operator (mem_operators hsize)
  | mark hkind => exact .mark (mem_marks.1 hkind)

/-- A character that begins no blanks, number, string or name begins an operator or is a mark. -/
theorem lexeme?_of_symbol (hc : (isBlank c || isDecimal c || isQuote c || isNameStart c) = false) :
    lexeme? c rest =
      (operatorSize? c rest).elim ((markKind? c).map fun kind => (some kind, 0)) fun n => some (some .operator, n) := by
  simp only [Bool.or_eq_false_iff] at hc
  obtain ⟨⟨⟨hblank, hdecimal⟩, hquote⟩, hname⟩ := hc
  have hquote : (c == '"' || c == '\'') = false := hquote
  simp only [lexeme?, hblank, hdecimal, hquote, hname, Bool.false_eq_true, if_false]
  cases operatorSize? c rest <;> rfl

theorem isSymbol_of_mem_operators (h : c :: cs ∈ operators) :
    (isBlank c || isDecimal c || isQuote c || isNameStart c) = false := by
  have hall : ∀ op ∈ operators, op.head?.all
      (fun c => !(isBlank c || isDecimal c || isQuote c || isNameStart c)) = true := by decide +kernel
  have hhead := hall _ h
  rwa [List.head?_cons, Option.all_some, Bool.not_eq_true'] at hhead

theorem isSymbol_of_mem_marks : ∀ m ∈ marks,
    (isBlank m.1 || isDecimal m.1 || isQuote m.1 || isNameStart m.1) = false := by decide +kernel

theorem operatorSize?_of_mem_marks {kind : TokenKind} (h : (c, kind) ∈ marks) : operatorSize? c rest = none := by
  unfold operatorSize?
  simp only [marks, List.mem_cons, List.not_mem_nil, or_false, Prod.mk.injEq] at h
  split <;> simp_all
  rcases h with h | h | h | h | h | h | h | h | h <;> simp [h.1]

/-- Where something is spelled at the front of a text, something of its kind is cut off, and no less. -/
theorem exists_lexeme? (h : Spells kind? text) (hstart : text <+: c :: rest) :
    ∃ n, lexeme? c rest = some (kind?, n) ∧ text.length ≤ n + 1 := by
  obtain ⟨more, hmore⟩ := hstart
  cases h with
  | @blanks cs hne hblank =>
    obtain ⟨d, cs, rfl⟩ := List.exists_cons_of_ne_nil hne
    obtain ⟨rfl, rfl⟩ := List.cons.inj hmore
    obtain ⟨hd, hcs⟩ := List.forall_mem_cons.1 hblank
    exact ⟨_, lexeme?_of_isBlank hd, Nat.succ_le_succ (le_countWhile hcs)⟩
  | @number whole fraction exponent hne hwhole hfraction hexponent =>
    obtain ⟨d, whole, rfl⟩ := List.exists_cons_of_ne_nil hne
    simp only [List.cons_append, List.append_assoc] at hmore
    obtain ⟨rfl, rfl⟩ := List.cons.inj hmore
    obtain ⟨hd, hwhole⟩ := List.forall_mem_cons.1 hwhole
    exact ⟨_, lexeme?_of_isDecimal hd, Nat.succ_le_succ (le_numberSize hwhole hfraction hexponent)⟩
  | string hquote hbody =>
    simp only [List.cons_append, List.append_assoc, List.nil_append] at hmore
    obtain ⟨rfl, rfl⟩ := List.cons.inj hmore
    refine ⟨_, ?_, Nat.le_refl _⟩
    rw [lexeme?_of_isQuote hquote, hbody.stringSize?_eq (ne_slash_of_isQuote hquote), Option.map_some,
      List.length_append, List.length_singleton]
  | name hc hcs =>
    obtain ⟨rfl, rfl⟩ := List.cons.inj hmore
    exact ⟨_, lexeme?_of_isNameStart hc, Nat.succ_le_succ (le_countWhile hcs)⟩
  | operator hmem =>
    obtain ⟨n, hsize, hle⟩ := le_operatorSize? hmem hmore
    obtain ⟨d, cs, rfl⟩ := List.exists_cons_of_ne_nil (Spells.operator hmem).ne_nil
    obtain ⟨rfl, -⟩ := List.cons.inj hmore
    exact ⟨n, by rw [lexeme?_of_symbol (isSymbol_of_mem_operators hmem), hsize, Option.elim_some], hle⟩
  | mark hmem =>
    obtain ⟨rfl, -⟩ := List.cons.inj hmore
    refine ⟨0, ?_, Nat.le_refl _⟩
    rw [lexeme?_of_symbol (isSymbol_of_mem_marks _ hmem), operatorSize?_of_mem_marks hmem, Option.elim_none,
      mem_marks.2 hmem, Option.map_some]

/-- Nothing is spelled at the front of a text just where nothing is cut off. -/
theorem lexeme?_eq_none_iff : lexeme? c rest = none ↔ ∀ kind? text, Spells kind? text → ¬ text <+: c :: rest := by
  constructor
  · intro hnone kind? text hspells hstart
    obtain ⟨n, hn, -⟩ := exists_lexeme? hspells hstart
    cases hnone.symm.trans hn
  · intro hnone
    cases hlex : lexeme? c rest with
    | none => rfl
    | some lexeme =>
      have hstart : c :: rest.take lexeme.2 <+: c :: rest := (List.prefix_cons_inj c).2 (List.take_prefix _ rest)
      exact absurd hstart (hnone _ _ (spells_of_lexeme? hlex))

/-- What stands behind a token can be cut off. -/
theorem lexeme?_of_length_le {body : List Char} (h : lexeme? c (body ++ more) = some (kind?, n))
    (hn : n ≤ body.length) : lexeme? c body = some (kind?, n) := by
  have hspells := spells_of_lexeme? h
  rw [List.take_append_of_le_length hn] at hspells
  -- each of the two texts has at its front what is cut off the other, so that neither piece is the shorter one
  obtain ⟨m, hm, hle⟩ := exists_lexeme? hspells ((List.prefix_cons_inj c).2 (List.take_prefix n body))
  obtain ⟨k, hk, hle'⟩ := exists_lexeme? (spells_of_lexeme? hm)
    ((List.prefix_cons_inj c).2 ((List.take_prefix m body).trans (List.prefix_append body more)))
  obtain ⟨-, rfl⟩ := Prod.mk.inj (Option.some.inj (h.symm.trans hk))
  have hm' := lexeme?_le hm
  simp only [List.length_cons, List.length_take] at hle hle'
  obtain rfl : m = n := by omega
  exact hm

/-! ## Cutting -/

/-- The tokens of a kind and the blanks that are cut off a text from one place to another, and what remains. -/
inductive Cuts : Nat → List Char → List Token → Nat → List Char → Prop
  | refl (p : Nat) (cs : List Char) : Cuts p cs [] p cs
  | blank {p q c cs ts rest} (hc : isBlank c = true) (h : Cuts (p + 1) cs ts q rest) : Cuts p (c :: cs) ts q rest
  | token {p q c kind body cs ts rest} (hlex : lexeme? c (body ++ cs) = some (some kind, body.length))
    (h : Cuts (p + body.length + 1) cs ts q rest) :
    Cuts p (c :: (body ++ cs)) (⟨kind, String.ofList (c :: body), p⟩ :: ts) q rest

variable {p q : Nat} {ts : List Token} {fault : ExpressionFault}

theorem Cuts.blanks {w : List Char} (hw : ∀ c ∈ w, isBlank c = true) (h : Cuts (p + w.length) cs ts q rest) :
    Cuts p (w ++ cs) ts q rest := by
  induction w generalizing p with
  | nil => exact h
  | cons c w ih =>
    obtain ⟨hc, hw⟩ := List.forall_mem_cons.1 hw
    refine .blank hc (ih hw ?_)
    rwa [Nat.add_right_comm, Nat.add_assoc]

/-- What `lexeme?` tells of the front of a text is cut off it. -/
theorem Cuts.lexeme {kind? : Option TokenKind} (hlex : lexeme? c cs = some (kind?, n))
    (h : Cuts (p + n + 1) (cs.drop n) ts q rest) :
    Cuts p (c :: cs) ((kind?.map fun kind => ⟨kind, String.ofList (c :: cs.take n), p⟩).toList ++ ts) q rest := by
  have hlength : (cs.take n).length = n := List.length_take_of_le (lexeme?_le hlex)
  cases kind? with
  | none =>
    cases spells_of_lexeme? hlex with
    | blanks _ hblank =>
      have hcuts : Cuts p (c :: cs.take n ++ cs.drop n) ts q rest :=
        .blanks hblank (by rwa [List.length_cons, hlength, ← Nat.add_assoc])
      rwa [List.cons_append, List.take_append_drop] at hcuts
  | some kind =>
    have hcuts : Cuts p (c :: (cs.take n ++ cs.drop n)) (⟨kind, String.ofList (c :: cs.take n), p⟩ :: ts) q rest :=
      .token (by rwa [List.take_append_drop, hlength]) (by rwa [hlength])
    rwa [List.take_append_drop] at hcuts

theorem cuts_of_tokensFrom_eq_ok (h : tokensFrom p cs = .ok ts) :
    ∃ before, Cuts p cs before (p + cs.length) [] ∧ ts = before ++ [⟨.stop, "", p + cs.length⟩] := by
  fun_induction tokensFrom p cs generalizing ts with
  | case1 p => cases h; exact ⟨[], .refl p [], rfl⟩
  | case2 => cases h
  | case3 p c cs kind? n hlex ih =>
    obtain ⟨us, hus, heq⟩ := bind_eq_ok.1 h
    obtain ⟨before, hcuts, rfl⟩ := ih hus
    have hle := lexeme?_le hlex
    have hend : p + n + 1 + (cs.drop n).length = p + (c :: cs).length := by
      simp only [List.length_drop, List.length_cons]
      omega
    rw [hend] at hcuts heq
    refine ⟨_, hcuts.lexeme hlex, ?_⟩
    cases kind? <;> cases heq <;> rfl

theorem cuts_of_tokensFrom_eq_error (h : tokensFrom p cs = .error fault) :
    ∃ before q c rest, Cuts p cs before q (c :: rest) ∧ lexeme? c rest = none ∧ fault = .unexpectedCharacter c q := by
  fun_induction tokensFrom p cs with
  | case1 => cases h
  | case2 p c cs hlex => cases h; exact ⟨[], p, c, cs, .refl p _, hlex, rfl⟩
  | case3 p c cs kind? n hlex ih =>
    have herror : tokensFrom (p + n + 1) (cs.drop n) = .error fault := by
      cases hus : tokensFrom (p + n + 1) (cs.drop n) with
      | error f => rw [hus] at h; exact h
      | ok us => rw [hus] at h; cases kind? <;> cases h
    obtain ⟨before, q, d, rest, hcuts, hnone, rfl⟩ := ih herror
    exact ⟨_, q, d, rest, hcuts.lexeme hlex, hnone, rfl⟩

theorem tokensFrom_cons_of_isBlank (hc : isBlank c = true) : tokensFrom p (c :: cs) =
    tokensFrom (p + countWhile isBlank cs + 1) (cs.drop (countWhile isBlank cs)) := by
  rw [tokensFrom.eq_def]
  simp only [lexeme?_of_isBlank hc]
  exact bind_pure _

theorem tokensFrom_blank (hc : isBlank c = true) : tokensFrom p (c :: cs) = tokensFrom (p + 1) cs := by
  rw [tokensFrom_cons_of_isBlank hc]
  cases cs with
  | nil => rfl
  | cons d cs =>
    by_cases hd : isBlank d = true
    · have hcount : countWhile isBlank (d :: cs) = countWhile isBlank cs + 1 := by
        rw [countWhile, List.takeWhile_cons_of_pos hd, List.length_cons, countWhile]
      rw [tokensFrom_cons_of_isBlank hd, hcount, List.drop_succ_cons, ← Nat.add_assoc, Nat.add_right_comm p _ 1]
    · rw [countWhile, List.takeWhile_cons_of_neg hd]
      rfl

/-- A text that is cut to its end has tokens. -/
theorem Cuts.tokensFrom_eq (h : Cuts p cs ts q []) : tokensFrom p cs = .ok (ts ++ [⟨.stop, "", q⟩]) := by
  generalize hrest : [] = rest at h
  induction h with
  | refl p cs =>
    subst hrest
    rw [tokensFrom.eq_def]
    rfl
  | blank hc _ ih =>
    rw [tokensFrom_blank hc]
    exact ih hrest
  | token hlex _ ih =>
    rw [tokensFrom.eq_def]
    simp only [hlex]
    refine bind_eq_ok.2 ⟨_, by rw [List.drop_left]; exact ih hrest, ?_⟩
    rw [List.take_left]
    rfl

/-- The cut falls into the text before the remaining one, and does not depend on what remains. -/
theorem Cuts.front (h : Cuts p cs ts q rest) :
    ∃ front, cs = front ++ rest ∧ q = p + front.length ∧ Cuts p front ts q [] := by
  induction h with
  | refl p cs => exact ⟨[], rfl, rfl, .refl p []⟩
  | @blank _ _ c _ _ _ hc _ ih =>
    obtain ⟨front, rfl, rfl, hcuts⟩ := ih
    refine ⟨c :: front, rfl, ?_, .blank hc hcuts⟩
    rw [List.length_cons, Nat.add_assoc, Nat.add_comm 1]
  | @token _ _ c kind body _ _ rest hlex _ ih =>
    obtain ⟨front, rfl, rfl, hcuts⟩ := ih
    rw [← List.append_assoc] at hlex
    refine ⟨c :: (body ++ front), by simp, ?_, .token (lexeme?_of_length_le hlex (by simp)) hcuts⟩
    simp only [List.length_cons, List.length_append]
    omega

/-! ## Places -/

/-- A token stands at its place in a text, and nothing longer is spelled there. -/
structure Begins (cs : List Char) (t : Token) : Prop where
  spells : Spells (some t.kind) t.text.toList
  slice : t.text.toList = (cs.drop t.position).take t.text.length
  longest : ∀ kind? text, Spells kind? text → text <+: cs.drop t.position → text.length ≤ t.text.length

/-- From one place of a text to another tokens stand apart, one behind the other, and all else is blank. -/
structure Covers (cs : List Char) (first size : Nat) (ts : List Token) : Prop where
  first_le : first ≤ size
  begins : ∀ t ∈ ts, Begins cs t
  within : ∀ t ∈ ts, first ≤ t.position ∧ t.position + t.text.length ≤ size
  apart : ts.Pairwise fun t u => t.position + t.text.length ≤ u.position
  blank : ∀ i c, first ≤ i → i < size → cs[i]? = some c →
    (∀ t ∈ ts, ¬ (t.position ≤ i ∧ i < t.position + t.text.length)) → isBlank c = true

variable {t : Token} {full : List Char} {first size : Nat}

theorem Begins.length_pos (h : Begins cs t) : 0 < t.text.length := by
  rw [← String.length_toList]
  exact List.length_pos_iff.2 h.spells.ne_nil

theorem Covers.increasing (h : Covers cs first size ts) : ts.Pairwise fun t u => t.position < u.position :=
  h.apart.imp_of_mem fun ht _ hle => Nat.lt_of_lt_of_le (Nat.lt_add_of_pos_right (h.begins _ ht).length_pos) hle

theorem Covers.nil (cs : List Char) (first : Nat) : Covers cs first first [] where
  first_le := Nat.le_refl _
  begins := nofun
  within := nofun
  apart := .nil
  blank _ _ hfirst hsize := absurd hsize (Nat.not_lt.2 hfirst)

theorem Covers.cons_blank (h : Covers cs (first + 1) size ts) (hget : cs[first]? = some c) (hc : isBlank c = true) :
    Covers cs first size ts where
  first_le := Nat.le_of_succ_le h.first_le
  begins := h.begins
  within t ht := ⟨Nat.le_of_succ_le (h.within t ht).1, (h.within t ht).2⟩
  apart := h.apart
  blank i d hfirst hsize hi hout := by
    obtain rfl | hlt := Nat.eq_or_lt_of_le hfirst
    · obtain rfl := Option.some.inj (hget.symm.trans hi)
      exact hc
    · exact h.blank i d hlt hsize hi hout

theorem Covers.cons_token (h : Covers cs (t.position + t.text.length) size ts) (ht : Begins cs t) :
    Covers cs t.position size (t :: ts) where
  first_le := Nat.le_trans (Nat.le_add_right _ _) h.first_le
  begins := List.forall_mem_cons.2 ⟨ht, h.begins⟩
  within := List.forall_mem_cons.2 ⟨⟨Nat.le_refl _, h.first_le⟩,
    fun u hu => ⟨Nat.le_trans (Nat.le_add_right _ _) (h.within u hu).1, (h.within u hu).2⟩⟩
  apart := List.pairwise_cons.2 ⟨fun u hu => (h.within u hu).1, h.apart⟩
  blank i c hfirst hsize hi hout := by
    obtain ⟨hin, hout⟩ := List.forall_mem_cons.1 hout
    exact h.blank i c (Nat.not_lt.1 fun hlt => hin ⟨hfirst, hlt⟩) hsize hi hout

theorem length_ofList_cons (c : Char) (cs : List Char) : (String.ofList (c :: cs)).length = cs.length + 1 := by
  rw [String.length_ofList, List.length_cons]

/-- What is cut off a text as a token is the longest thing that is spelled there. -/
theorem begins_of_lexeme? {kind : TokenKind} {body : List Char} (hcs : full.drop p = c :: (body ++ cs))
    (hlex : lexeme? c (body ++ cs) = some (some kind, body.length)) :
    Begins full ⟨kind, String.ofList (c :: body), p⟩ where
  spells := by
    have hspells := spells_of_lexeme? hlex
    rwa [List.take_left, ← String.toList_ofList (l := c :: body)] at hspells
  slice := by
    rw [length_ofList_cons, hcs, List.take_succ_cons, List.take_left, String.toList_ofList]
  longest kind? text hspells hstart := by
    simp only [hcs] at hstart
    obtain ⟨n, hn, hle⟩ := exists_lexeme? hspells hstart
    obtain ⟨-, rfl⟩ := Prod.mk.inj (Option.some.inj (hlex.symm.trans hn))
    rwa [length_ofList_cons]

theorem Cuts.covers (h : Cuts p cs ts q rest) (hcs : full.drop p = cs) : Covers full p q ts := by
  induction h with
  | refl p cs => exact .nil full p
  | @blank p _ c cs _ _ hc _ ih =>
    refine (ih ?_).cons_blank ?_ hc
    · rw [← List.drop_drop, hcs, List.drop_one, List.tail_cons]
    · rw [← List.head?_drop, hcs, List.head?_cons]
  | @token p _ c kind body cs _ _ hlex _ ih =>
    have hcovers := ih (by
      rw [Nat.add_assoc, ← List.drop_drop, hcs, List.drop_succ_cons, List.drop_left])
    refine Covers.cons_token ?_ (begins_of_lexeme? hcs hlex)
    rwa [length_ofList_cons, ← Nat.add_assoc]

/-! ## Blanks between tokens -/

/-- The token of a text into which characters are put at a place. -/
def Token.movedFrom (place count : Nat) (t : Token) : Token :=
  if place ≤ t.position then { t with position := t.position + count } else t

/-- The place is not inside the token. -/
def Token.Spares (place : Nat) (t : Token) : Prop := ¬ (t.position < place ∧ place < t.position + t.text.length)

theorem Cuts.moved {place : Nat} (h : Cuts p cs ts q rest) (hplace : place ≤ p) (count : Nat) :
    Cuts (p + count) cs (ts.map (Token.movedFrom place count)) (q + count) rest := by
  induction h with
  | refl p cs => exact .refl _ cs
  | blank hc _ ih =>
    refine .blank hc ?_
    rw [Nat.add_right_comm]
    exact ih (Nat.le_succ_of_le hplace)
  | @token p _ c kind body _ _ _ hlex _ ih =>
    have hcuts := ih (by omega)
    rw [Nat.add_right_comm _ 1, Nat.add_right_comm _ body.length] at hcuts
    rw [List.map_cons, Token.movedFrom, if_pos hplace]
    exact .token hlex hcuts

/-- A token stays what it is where blanks are put behind it. -/
theorem lexeme?_insert {kind : TokenKind} {body a w b : List Char} (hw : ∀ c ∈ w, isBlank c = true)
    (h : lexeme? c (body ++ (a ++ b)) = some (some kind, body.length)) :
    lexeme? c (body ++ (a ++ (w ++ b))) = some (some kind, body.length) := by
  cases w with
  | nil => exact h
  | cons d w =>
    rw [← List.append_assoc] at h
    have hseparated : Separated (d :: w ++ b) := separated_cons (by simp [isSeparator, hw d List.mem_cons_self])
    exact lexeme?_append hseparated (lexeme?_of_length_le h (by simp))

/-- Blanks that are put between tokens move the tokens behind them, and change nothing else. -/
theorem Cuts.insert {a w b : List Char} (h : Cuts p (a ++ b) ts q []) (hw : ∀ c ∈ w, isBlank c = true)
    (hspares : ∀ t ∈ ts, t.Spares (p + a.length)) :
    Cuts p (a ++ (w ++ b)) (ts.map (Token.movedFrom (p + a.length) w.length)) (q + w.length) [] := by
  generalize hcs : a ++ b = cs at h
  generalize hrest : [] = rest at h
  induction h generalizing a with
  | refl p cs =>
    subst hrest
    obtain ⟨rfl, rfl⟩ := List.append_eq_nil_iff.1 hcs
    exact Cuts.blanks (w := w) hw (.refl _ _)
  | @blank p _ c _ _ _ hc h ih =>
    cases a with
    | nil =>
      obtain rfl : b = _ := hcs
      exact Cuts.blanks (w := w) hw ((Cuts.blank hc h).moved (Nat.le_refl _) _)
    | cons d a =>
      obtain ⟨rfl, rfl⟩ := List.cons.inj hcs
      have hplace : p + (d :: a).length = p + 1 + a.length := by simp only [List.length_cons]; omega
      rw [hplace] at hspares ⊢
      exact .blank hc (ih hspares rfl hrest)
  | @token p _ c kind body _ _ _ hlex h ih =>
    cases a with
    | nil =>
      obtain rfl : b = _ := hcs
      exact Cuts.blanks (w := w) hw ((Cuts.token hlex h).moved (Nat.le_refl _) _)
    | cons d a =>
      obtain ⟨rfl, hsplit⟩ := List.cons.inj hcs
      obtain ⟨hfirst, hspares⟩ := List.forall_mem_cons.1 hspares
      -- the place is not inside the first token, so that the token is part of what stands before it
      have hlength : body.length ≤ a.length := by
        simp only [Token.Spares, String.length_ofList, List.length_cons] at hfirst
        omega
      obtain ⟨a, rfl⟩ : ∃ more, a = body ++ more :=
        ⟨a.drop body.length, by
          have hstart : body <+: a := List.prefix_of_prefix_length_le ⟨_, rfl⟩ ⟨_, hsplit⟩ hlength
          exact List.prefix_append_drop hstart⟩
      obtain rfl := List.append_cancel_left ((List.append_assoc _ _ _).symm.trans hsplit)
      have hplace : p + (d :: (body ++ a)).length = p + body.length + 1 + a.length := by
        simp only [List.length_cons, List.length_append]
        omega
      rw [hplace] at hspares ⊢
      have hbefore : p < p + body.length + 1 + a.length := by omega
      rw [List.map_cons, Token.movedFrom, if_neg (Nat.not_le.2 hbefore), List.cons_append, List.append_assoc]
      exact .token (lexeme?_insert hw hlex) (ih hspares rfl hrest)

/-! ## The tokens of a text -/

theorem Token.lexeme_movedFrom (place count : Nat) (t : Token) : (t.movedFrom place count).lexeme = t.lexeme := by
  unfold Token.movedFrom
  split <;> rfl

theorem tokenize_insert {a w b : String} {before : List Token} (h : Cuts 0 (a ++ b).toList before (a ++ b).length [])
    (hw : ∀ c ∈ w.toList, isBlank c = true) (hspares : ∀ t ∈ before, t.Spares a.length) :
    tokenize (a ++ w ++ b) =
      .ok (List.map (Token.movedFrom a.length w.length) (before ++ [⟨.stop, "", (a ++ b).length⟩])) := by
  rw [String.toList_append] at h
  have hcuts := h.insert hw (by rwa [Nat.zero_add, String.length_toList])
  have hstop : a.length ≤ (a ++ b).length := by simp
  rw [tokenize, String.append_assoc, String.toList_append, String.toList_append, hcuts.tokensFrom_eq, List.map_append,
    List.map_singleton, Token.movedFrom, if_pos hstop, Nat.zero_add, String.length_toList, String.length_toList]

/-- The tokens of an accepted text stand one behind the other, each is the longest text that is spelled at its place,
all else is blank, and the end mark is at the end. Blanks that are put between tokens move the tokens behind them, and
change no kind and no text. A text is rejected at a place where nothing is spelled, and all before it has its tokens. -/
theorem tokenize_lossless (s : String) :
    (∀ ts, tokenize s = .ok ts → ∃ before, ts = before ++ [⟨.stop, "", s.length⟩] ∧
      Covers s.toList 0 s.length before ∧ (before.Pairwise fun t u => t.position < u.position) ∧
      ∀ a w b, s = a ++ b → (∀ c ∈ w.toList, isBlank c = true) → (∀ t ∈ before, t.Spares a.length) →
        ∃ us, tokenize (a ++ w ++ b) = .ok us ∧ us = ts.map (Token.movedFrom a.length w.length) ∧
          us.map Token.lexeme = ts.map Token.lexeme) ∧
    ∀ fault, tokenize s = .error fault → ∃ front c rest before, s.toList = front.toList ++ c :: rest ∧
      fault = .unexpectedCharacter c front.length ∧ (∀ kind? text, Spells kind? text → ¬ text <+: c :: rest) ∧
      Covers s.toList 0 front.length before ∧ tokenize front = .ok (before ++ [⟨.stop, "", front.length⟩]) := by
  constructor
  · intro ts h
    obtain ⟨before, hcuts, rfl⟩ := cuts_of_tokensFrom_eq_ok h
    rw [Nat.zero_add, String.length_toList] at hcuts ⊢
    have hcovers := hcuts.covers (List.drop_zero (l := s.toList))
    refine ⟨before, rfl, hcovers, hcovers.increasing, ?_⟩
    rintro a w b rfl hw hspares
    refine ⟨_, tokenize_insert hcuts hw hspares, by simp, ?_⟩
    simp [Token.lexeme_movedFrom]
  · intro fault h
    obtain ⟨before, q, c, rest, hcuts, hnone, rfl⟩ := cuts_of_tokensFrom_eq_error h
    obtain ⟨front, hfront, rfl, hbefore⟩ := hcuts.front
    have hcovers := hcuts.covers (List.drop_zero (l := s.toList))
    have htokens := hbefore.tokensFrom_eq
    rw [Nat.zero_add] at hcovers htokens ⊢
    exact ⟨String.ofList front, c, rest, before, by simpa using hfront, by simp, lexeme?_eq_none_iff.1 hnone,
      by simpa using hcovers, by simpa [tokenize] using htokens⟩

def comparison : List Token := [⟨.name, "a", 0⟩, ⟨.operator, "<=", 1⟩, ⟨.number, "1.5", 4⟩]

/-- A comparison, with blanks behind its name; one sign of equality spells nothing. -/
theorem tokenize_lossless_comparison :
    (tokenize "a<= 1.5" = .ok (comparison ++ [⟨.stop, "", 7⟩]) ∧ Covers "a<= 1.5".toList 0 7 comparison ∧
      tokenize "a \t<= 1.5" = .ok (List.map (Token.movedFrom 1 2) (comparison ++ [⟨.stop, "", 7⟩]))) ∧
    tokenize "a = 1" = .error (.unexpectedCharacter '=' 2) ∧
      ∀ kind? text, Spells kind? text → ¬ text <+: ['=', ' ', '1'] := by
  have haccepts : tokenize "a<= 1.5" = .ok (comparison ++ [⟨.stop, "", 7⟩]) := by decide +kernel
  have hrejects : tokenize "a = 1" = .error (.unexpectedCharacter '=' 2) := by decide +kernel
  refine ⟨⟨haccepts, ?_⟩, hrejects, ?_⟩
  · obtain ⟨before, heq, hcovers, -, hinsert⟩ := (tokenize_lossless _).1 _ haccepts
    obtain rfl := List.append_cancel_right heq
    have hspares : ∀ t ∈ comparison, t.Spares 1 := by unfold Token.Spares; decide
    obtain ⟨us, hus, rfl, -⟩ := hinsert "a" " \t" "<= 1.5" rfl (List.all_eq_true.1 rfl) hspares
    exact ⟨hcovers, hus⟩
  · obtain ⟨front, c, rest, before, heq, hfault, hnone, -, -⟩ := (tokenize_lossless _).2 _ hrejects
    obtain ⟨rfl, hfront⟩ := ExpressionFault.unexpectedCharacter.inj hfault
    have htext : ['a', ' '] ++ ['=', ' ', '1'] = front.toList ++ '=' :: rest := heq
    rwa [← (List.append_inj htext hfront).2] at hnone

end Flowline.Expression
