import Flowline.Expression.Evaluation
import Flowline.Proofs.Expression.Completeness
import Flowline.Proofs.Expression.Literals
import Flowline.Proofs.Value.Records
import Flowline.Value.Display

/-! # Values in the grammar of expressions

An operand is what can stand on either side of any operator: wherever no part of a path and no arguments
follow, it is read as one expression. Scalars, lists of operands and mappings to operands have texts that
are operands, and so has every value in JSON form (`renders_write`). -/

namespace Flowline.Expression

open Lexeme Text
open Double (HasDouble hasDouble_iff hasDouble_of_lt infinityBits ofMagnitude ofMagnitude_neg)

/-- No part of a path and no arguments follow. -/
def Apart (rest : List Lexeme) : Prop :=
  (first rest).kind ≠ .dot ∧ (first rest).kind ≠ .leftBracket ∧ (first rest).kind ≠ .leftParen

/-- An expression is at its end: what follows is a separator, a closing bracket or the end mark. -/
def Ends (rest : List Lexeme) : Prop :=
  (first rest).kind ∈ [TokenKind.comma, .colon, .rightParen, .rightBracket, .rightBrace, .stop]

/-- The lexemes are signs and a primary expression, wherever they stand. -/
structure Operand (ls : List Lexeme) (e : Expr) : Prop where
  ne_nil : ls ≠ []
  notKeyword : (first ls).isKeyword "!" "not" = false
  reads : ∀ functions rest, Apart rest → Reads functions .signed (ls ++ rest) e rest

/-- The text of an operand. -/
def Renders (text : String) (e : Expr) : Prop := ∃ ls, Lexes text.toList ls ∧ Operand ls e

variable {functions : String → Bool} {ls rest : List Lexeme} {e : Expr}

/-! ## Operands -/

theorem Ends.operator? (h : Ends rest) (l : Level) : l.operator? (first rest).token = none := by
  have hkind : (first rest).kind ≠ .operator ∧ (first rest).kind ≠ .name := by
    constructor <;> intro hkind <;> rw [Ends, hkind] at h <;> simp at h
  cases l <;> simp [Level.operator?, Token.isKeyword, Lexeme.token, hkind]

theorem Ends.apart (h : Ends rest) : Apart rest := by
  refine ⟨?_, ?_, ?_⟩ <;> intro hkind <;> rw [Ends, hkind] at h <;> simp at h

theorem Apart.endsPath (h : Apart rest) : EndsPath rest := by
  match rest with
  | [] => trivial
  | [_] => trivial
  | l :: _ :: _ => exact ⟨h.1, h.2.1⟩

theorem Operand.first_append (h : Operand ls e) (rest : List Lexeme) : first (ls ++ rest) = first ls := by
  obtain ⟨l, ls, rfl⟩ := List.exists_cons_of_ne_nil h.ne_nil
  rfl

/-- What has signs at most before it is an expression of every rank where no operator follows. -/
theorem Reads.level_of_signed (h : Reads functions .signed ls e rest)
    (hword : (first ls).isKeyword "!" "not" = false) (hrest : ∀ l : Level, l.operator? (first rest).token = none)
    (l : Level) : Reads functions (.level l) ls e rest := by
  have hend (l : Level) : Reads functions (.chain l e) rest e rest := .chainEnd (hrest l)
  have hproduct : Reads functions (.level .product) ls e rest := .level h (hend _)
  have hsum : Reads functions (.level .sum) ls e rest := .level hproduct (hend _)
  have hcomparison : Reads functions (.level .comparison) ls e rest := .level hsum (hend _)
  have hnot : Reads functions .not ls e rest := .comparison hword hcomparison
  have hconjunction : Reads functions (.level .conjunction) ls e rest := .level hnot (hend _)
  cases l with
  | disjunction => exact .level hconjunction (hend _)
  | conjunction => exact hconjunction
  | comparison => exact hcomparison
  | sum => exact hsum
  | product => exact hproduct

/-- An operand is an expression of every rank where an expression is at its end. -/
theorem Operand.level (h : Operand ls e) (hrest : Ends rest) (l : Level) :
    Reads functions (.level l) (ls ++ rest) e rest := by
  refine (h.reads functions rest hrest.apart).level_of_signed ?_ hrest.operator? l
  rw [h.first_append]
  exact h.notKeyword

/-- An operand parses on its own. -/
theorem parse_of_renders {text : String} (h : Renders text e) : parse functions text = .ok e := by
  obtain ⟨ls, hlexes, hoperand⟩ := h
  exact parse_eq_ok_iff.2 ⟨ls, hlexes, hoperand.level (by simp [Ends]) _⟩

theorem Renders.toList_ne_nil {text : String} (h : Renders text e) : text.toList ≠ [] := by
  obtain ⟨ls, hlexes, hoperand⟩ := h
  intro hnil
  rw [hnil] at hlexes
  cases hlexes
  exact hoperand.ne_nil rfl

/-- A primary expression that begins with no operator and no `not`. -/
theorem Operand.of_primary {l : Lexeme} (hkind : l.kind ≠ .operator) (hword : l.isKeyword "!" "not" = false)
    (h : ∀ functions rest, Apart rest → Reads functions .primary (l :: ls ++ rest) e rest) :
    Operand (l :: ls) e where
  ne_nil := by simp
  notKeyword := hword
  reads functions rest hrest := by
    refine .primary ?_ ?_ (h functions rest hrest) <;>
      simp [Lexeme.isSign, hkind]

theorem Operand.neg (h : Operand ls e) : Operand (⟨.operator, "-"⟩ :: ls) (.unary .neg e) where
  ne_nil := by simp
  notKeyword := rfl
  reads functions rest hrest := .minus rfl (h.reads functions rest hrest)

theorem isKeyword_of_kind {l : Lexeme} {symbol word : String} (hoperator : l.kind ≠ .operator) (hname : l.kind ≠ .name) :
    l.isKeyword symbol word = false := by
  simp [Lexeme.isKeyword, Token.isKeyword, Lexeme.token, hoperator, hname]

theorem operand_number {text : String} {v : Value} (hv : numberValue text = .ok v) :
    Operand [⟨.number, text⟩] (.literal v) :=
  .of_primary nofun (isKeyword_of_kind nofun nofun) fun _ _ _ => .number hv

theorem operand_quoted {s text : String} (h : Quoted s text) : Operand [⟨.string, text⟩] (.literal (.str s)) := by
  refine .of_primary nofun (isKeyword_of_kind nofun nofun) fun functions rest _ => ?_
  have hreads : Reads functions .primary (⟨.string, text⟩ :: rest) _ rest := .string
  rwa [h.stringValue_eq] at hreads

theorem operand_constant {text : String} {v : Value} (hv : constant? text = some v)
    (hword : (⟨.name, text⟩ : Lexeme).isKeyword "!" "not" = false) : Operand [⟨.name, text⟩] (.literal v) :=
  .of_primary nofun hword fun _ _ hrest => .constant hv hrest.1

/-! ## Sequences -/

abbrev comma : Lexeme := ⟨.comma, ","⟩

abbrev colon : Lexeme := ⟨.colon, ":"⟩

theorem Closing.ends (closing : Closing) (text : String) : Ends (⟨closing.kind, text⟩ :: rest) := by
  cases closing <;> simp [Ends, Closing.kind]

theorem ends_comma : Ends (comma :: rest) := by simp [Ends]

theorem ends_rightBrace (text : String) : Ends (⟨.rightBrace, text⟩ :: rest) := by simp [Ends]

theorem reads_items {lss : List (List Lexeme)} {es : List Expr} {closing : Closing} {text : String}
    (h : List.Forall₂ Operand lss es) (hne : lss ≠ []) :
    Reads functions (.items closing) ([comma].intercalate lss ++ ⟨closing.kind, text⟩ :: rest) (.array es) rest := by
  induction h with
  | nil => contradiction
  | @cons ls e lss es hoperand hall ih =>
    cases hall with
    | nil =>
      rw [List.intercalate_singleton]
      exact .lastItem (hoperand.level (closing.ends text) _)
    | cons hnext hmore =>
      rw [List.intercalate_cons_cons, List.append_assoc, List.append_assoc]
      exact .item (hoperand.level ends_comma _) (ih (by simp))

/-- An entry: a text as its key, and an operand. -/
def Entry (ls : List Lexeme) (p : String × Expr) : Prop :=
  ∃ ks, ls = ⟨.string, Json.string p.1⟩ :: colon :: ks ∧ Operand ks p.2

theorem reads_entries {lss : List (List Lexeme)} {es : List (String × Expr)} {text : String}
    (h : List.Forall₂ Entry lss es) (hne : lss ≠ []) :
    Reads functions .entries ([comma].intercalate lss ++ ⟨.rightBrace, text⟩ :: rest) (.object es) rest := by
  have hkey (key : String) : (⟨.string, Json.string key⟩ : Lexeme).key? = some key :=
    congrArg some (stringValue_string key)
  induction h with
  | nil => contradiction
  | @cons ls e lss es hentry hall ih =>
    obtain ⟨ks, rfl, hoperand⟩ := hentry
    cases hall with
    | nil =>
      rw [List.intercalate_singleton]
      exact .lastEntry (hkey e.1) (hoperand.level (ends_rightBrace text) _)
    | cons hnext hmore =>
      rw [List.intercalate_cons_cons, List.append_assoc, List.append_assoc]
      exact .entry (hkey e.1) (hoperand.level ends_comma _) (ih (by simp))

theorem Lexes.mark {cs : List Char} (c : Char) (kind : TokenKind) (hc : lexeme? c cs = some (some kind, 0))
    (hcs : Lexes cs ls) : Lexes (c :: cs) (⟨kind, String.ofList [c]⟩ :: ls) := by
  have htoken : Lexes (c :: ([] ++ cs)) _ := .token hc hcs
  exact htoken

/-- Parts between commas. -/
theorem lexes_intercalate {parts : List String} {lss : List (List Lexeme)} {Z : List Char} {ms : List Lexeme}
    (h : List.Forall₂ (fun (text : String) ls => Lexes text.toList ls) parts lss) (hZ : Separated Z) (hms : Lexes Z ms) :
    Lexes ((", ".intercalate parts).toList ++ Z) ([comma].intercalate lss ++ ms) := by
  induction h with
  | nil => exact hms
  | @cons text ls parts lss htext hall ih =>
    cases hall with
    | nil =>
      rw [String.intercalate_singleton, List.intercalate_singleton]
      exact htext.append hZ hms
    | cons hnext hmore =>
      have hcomma : Lexes (", ".toList ++ ((", ".intercalate _).toList ++ Z)) _ :=
        Lexes.mark ',' .comma rfl (.blank rfl ih)
      rw [String.intercalate_cons_cons, List.intercalate_cons_cons]
      simp only [String.toList_append, List.append_assoc]
      exact htext.append (by rintro _ ⟨⟩; decide) hcomma

theorem exists_lexemes {α : Type} {R : String → α → Prop} {S : List Lexeme → α → Prop} {parts : List String}
    {es : List α} (h : List.Forall₂ R parts es) (hR : ∀ text e, R text e → ∃ ls, Lexes text.toList ls ∧ S ls e) :
    ∃ lss, List.Forall₂ (fun (text : String) ls => Lexes text.toList ls) parts lss ∧ List.Forall₂ S lss es := by
  induction h with
  | nil => exact ⟨[], .nil, .nil⟩
  | cons hpart _ ih =>
    obtain ⟨ls, hlexes, hS⟩ := hR _ _ hpart
    obtain ⟨lss, hparts, hall⟩ := ih
    exact ⟨ls :: lss, .cons hlexes hparts, .cons hS hall⟩

theorem separated_cons {c : Char} {cs : List Char} (hc : isSeparator c = true) : Separated (c :: cs) := by
  rintro _ ⟨⟩
  exact hc

/-- Operands between brackets. -/
theorem renders_list {parts : List String} {es : List Expr} (h : List.Forall₂ Renders parts es) :
    Renders ("[" ++ ", ".intercalate parts ++ "]") (.array es) := by
  obtain ⟨lss, hparts, hoperands⟩ := exists_lexemes h fun _ _ => id
  have hclosing : Lexes [']'] [⟨.rightBracket, "]"⟩] := Lexes.mark ']' .rightBracket rfl .nil
  have hitems := lexes_intercalate hparts (separated_cons rfl) hclosing
  refine ⟨⟨.leftBracket, "["⟩ :: ([comma].intercalate lss ++ [⟨.rightBracket, "]"⟩]), ?_, ?_⟩
  · simp only [String.toList_append, List.append_assoc]
    exact Lexes.mark '[' .leftBracket rfl hitems
  · refine .of_primary nofun (isKeyword_of_kind nofun nofun) fun functions rest _ => ?_
    rw [List.cons_append, List.append_assoc]
    refine .array ?_
    by_cases hne : lss = []
    · subst hne
      cases hoperands
      have hnone : Reads functions (.arguments .bracket) (⟨Closing.bracket.kind, "]"⟩ :: rest) _ rest := .noArguments
      exact hnone
    · have hreads : Reads functions (.items .bracket) (_ ++ ⟨Closing.bracket.kind, "]"⟩ :: rest) _ rest :=
        reads_items hoperands hne
      have hbegin := hreads.canBegin rfl
      refine .arguments (fun hkind => ?_) hreads
      exact absurd (hbegin.symm.trans (congrArg TokenKind.canBegin hkind)) (by decide)

/-- Entries between braces. -/
theorem renders_object {parts : List String} {es : List (String × Expr)}
    (h : List.Forall₂ (fun part p => ∃ body, part = Json.string p.1 ++ ": " ++ body ∧ Renders body p.2) parts es) :
    Renders ("\x7b" ++ ", ".intercalate parts ++ "\x7d") (.object es) := by
  have hentry : ∀ part (p : String × Expr), (∃ body, part = Json.string p.1 ++ ": " ++ body ∧ Renders body p.2) →
      ∃ ls, Lexes part.toList ls ∧ Entry ls p := by
    rintro _ p ⟨body, rfl, ls, hlexes, hoperand⟩
    refine ⟨⟨.string, Json.string p.1⟩ :: colon :: ls, ?_, ls, rfl, hoperand⟩
    have hcolon : Lexes (": ".toList ++ body.toList) (colon :: ls) :=
      Lexes.mark ':' .colon rfl (.blank rfl hlexes)
    simp only [String.toList_append, List.append_assoc]
    exact (lexes_string p.1).append (separated_cons rfl) hcolon
  obtain ⟨lss, hparts, hentries⟩ := exists_lexemes h hentry
  have hclosing : Lexes ['\x7d'] [⟨.rightBrace, "\x7d"⟩] := Lexes.mark '\x7d' .rightBrace rfl .nil
  have hitems := lexes_intercalate hparts (separated_cons rfl) hclosing
  refine ⟨⟨.leftBrace, "\x7b"⟩ :: ([comma].intercalate lss ++ [⟨.rightBrace, "\x7d"⟩]), ?_, ?_⟩
  · simp only [String.toList_append, List.append_assoc]
    exact Lexes.mark '\x7b' .leftBrace rfl hitems
  · refine .of_primary nofun (isKeyword_of_kind nofun nofun) fun functions rest _ => ?_
    rw [List.cons_append, List.append_assoc]
    by_cases hne : lss = []
    · subst hne
      cases hentries
      exact .emptyObject
    · have hreads : Reads functions .entries (_ ++ ⟨.rightBrace, "\x7d"⟩ :: rest) _ rest := reads_entries hentries hne
      have hbegin := hreads.canBegin rfl
      refine .object (fun hkind => ?_) hreads
      exact absurd (hbegin.symm.trans (congrArg TokenKind.canBegin hkind)) (by decide)

/-! ## Scalars -/

theorem renders_string (s : String) : Renders (Json.string s) (.literal (.str s)) :=
  ⟨_, lexes_string s, operand_quoted (quoted_string s)⟩

theorem renders_neg {text : String} (h : Renders text e) : Renders ("-" ++ text) (.unary .neg e) := by
  obtain ⟨ls, hlexes, hoperand⟩ := h
  refine ⟨⟨.operator, "-"⟩ :: ls, ?_, hoperand.neg⟩
  rw [String.toList_append]
  exact Lexes.mark '-' .operator rfl hlexes

theorem isNameChar_of_isNameStart {c : Char} (h : isNameStart c = true) : isNameChar c = true := by
  simp only [isNameStart, isNameChar, Char.isAlphanum, Bool.or_eq_true] at h ⊢
  tauto

theorem ascii_of_isNameStart {c : Char} (h : isNameStart c = true) : c.toNat < 128 ∧ c.isDigit = false := by
  simp only [isNameStart, Char.isAlpha, Char.isUpper, Char.isLower, Bool.or_eq_true, Bool.and_eq_true,
    decide_eq_true_eq, beq_iff_eq, Char.isDigit, Bool.and_eq_false_iff, decide_eq_false_iff_not,
    UInt32.le_iff_toNat_le, ge_iff_le, Char.toNat] at h ⊢
  rcases h with (h | h) | rfl
  · simp at h ⊢
    omega
  · simp at h ⊢
    omega
  · decide

theorem not_isDecimal_of_isNameStart {c : Char} (h : isNameStart c = true) : isDecimal c = false := by
  simp [isDecimal, decimalValue?, ascii_of_isNameStart h]

theorem lexeme?_of_isNameStart {c : Char} {cs : List Char} (hc : isNameStart c = true) :
    lexeme? c cs = some (some .name, countWhile isNameChar cs) := by
  have hseparator : ¬isSeparator c = true := fun h => by
    have hname := (isSeparator_cases h).2.1
    rw [isNameChar_of_isNameStart hc] at hname
    cases hname
  have hblank : isBlank c = false := Bool.eq_false_iff.2 fun h => hseparator (by simp [isSeparator, h])
  have hquote : (c == '"' || c == '\'') = false :=
    Bool.eq_false_iff.2 fun h => hseparator (isSeparator_of_isQuote h)
  simp only [lexeme?, hblank, not_isDecimal_of_isNameStart hc, hquote, hc, Bool.false_eq_true, if_false, if_true]

/-- A word is one lexeme. -/
theorem lexes_name {c : Char} {cs : List Char} (hc : isNameStart c = true) (hcs : ∀ d ∈ cs, isNameChar d = true) :
    Lexes (c :: cs) [⟨.name, String.ofList (c :: cs)⟩] := by
  refine .single ?_
  rw [lexeme?_of_isNameStart hc, countWhile, List.takeWhile_eq_self_iff.2 hcs]

theorem lexes_word {text : String} {c : Char} {cs : List Char} (htext : text.toList = c :: cs)
    (hc : isNameStart c = true) (hcs : cs.all isNameChar = true) : Lexes text.toList [⟨.name, text⟩] := by
  have hlexes := lexes_name hc (List.all_eq_true.1 hcs)
  rwa [← htext, String.ofList_toList] at hlexes

theorem constant?_of_toLower {text : String} (word : String) (h : text.toLower = word) : constant? text =
    if word == "true" then some (.bool true) else if word == "false" then some (.bool false)
    else if word == "null" then some .null else none := by
  simp only [constant?, h]

/-- A word that is a constant. -/
theorem renders_constant {text : String} {v : Value} (hlexes : Lexes text.toList [⟨.name, text⟩])
    (hv : constant? text = some v) (hword : (⟨.name, text⟩ : Lexeme).isKeyword "!" "not" = false) :
    Renders text (.literal v) :=
  ⟨_, hlexes, operand_constant hv hword⟩

theorem renders_null : Renders "null" (.literal .null) :=
  renders_constant (lexes_word rfl rfl rfl)
    (constant?_of_toLower "null" (by decide +kernel)) (by decide +kernel)

theorem renders_bool (b : Bool) : Renders (if b then "true" else "false") (.literal (.bool b)) := by
  cases b with
  | true =>
    exact renders_constant (lexes_word rfl rfl rfl)
      (constant?_of_toLower "true" (by decide +kernel)) (by decide +kernel)
  | false =>
    exact renders_constant (lexes_word rfl rfl rfl)
      (constant?_of_toLower "false" (by decide +kernel)) (by decide +kernel)

/-- A word that is no constant is the variable of its name. -/
theorem renders_variable {text : String} (hlexes : Lexes text.toList [⟨.name, text⟩]) (hv : constant? text = none)
    (hword : (⟨.name, text⟩ : Lexeme).isKeyword "!" "not" = false) : Renders text (.variable text) := by
  refine ⟨_, hlexes, .of_primary nofun hword fun functions rest hrest => ?_⟩
  have hpath : Reads functions (.path [text]) rest _ rest := .pathEnd hrest.endsPath
  rw [String.intercalate_singleton] at hpath
  exact .name (.inl hv) hrest.2.2 hpath

theorem renders_nan : Renders "NaN" (.variable "NaN") :=
  renders_variable (lexes_word rfl rfl rfl)
    (constant?_of_toLower "nan" (by decide +kernel)) (by decide +kernel)

theorem renders_infinity : Renders "Infinity" (.variable "Infinity") :=
  renders_variable (lexes_word rfl rfl rfl)
    (constant?_of_toLower "infinity" (by decide +kernel)) (by decide +kernel)

/-! ## Numbers -/

theorem renders_spelling {sp : Spelling} {n : Number} (hsign : sp.sign = []) (hclosed : sp.Closed)
    (hn : Value.numeralNumber sp.numeral = .ok n) : Renders (String.ofList sp.chars) (.literal n.toValue) := by
  refine ⟨_, ?_, operand_number (Spelling.numberValue_of_toNumber (sp.toNumber_chars.trans hn))⟩
  rw [String.toList_ofList]
  exact hclosed.lexes hsign

/-- What the decimal of a whole number stands for: the number, or an infinity where no double is near it. -/
def numeralValue (n : Int) : Value :=
  if HasDouble n then .int n else .float (ofMagnitude (decide (n < 0)) infinityBits)

theorem numeralValue_of_lt {n : Int} (h : n.natAbs < 10 ^ 308) : numeralValue n = .int n :=
  if_pos (hasDouble_of_lt h)

theorem pow_le_tenTo {a b : Nat} (h : a ≤ b) : 10 ^ a ≤ tenTo b := Nat.pow_le_pow_right (Nat.succ_pos 9) h

theorem fitsNumeral_of_lt {n : Int} {k : Nat} (hk : k ≤ Value.maxNumeralSize) (hn : n.natAbs < 10 ^ k) :
    Value.fitsNumeral n = true :=
  Value.fitsNumeral_iff.2 (Nat.lt_of_lt_of_le hn (pow_le_tenTo hk))

theorem renders_natural (n : Nat) : Renders (toString n) (.literal (numeralValue n)) := by
  have hrenders := renders_spelling rfl (Spelling.closed_ofNat n) (Spelling.numeralNumber_ofNat n)
  have hvalue : (if HasDouble n then Number.int n else .float (ofMagnitude false infinityBits)).toValue =
      numeralValue n := by
    have hsign : decide ((n : Int) < 0) = false := decide_eq_false (by omega)
    rw [numeralValue, hsign]
    by_cases hn : HasDouble n
    · rw [if_pos hn, if_pos hn]
      rfl
    · rw [if_neg hn, if_neg hn]
      rfl
  rwa [Spelling.chars_ofNat, hvalue] at hrenders

theorem renders_double {text : String} (h : Spelling.IsDouble text) : ∃ v, Renders text (.literal v) := by
  obtain ⟨sp, rfl, hsign, hclosed, hplain⟩ := h.exists_spelling
  exact ⟨_, renders_spelling hsign hclosed (Spelling.numeralNumber_of_not_plain hplain)⟩

/-- The value of an expression in any context. -/
def Denotes (e : Expr) (v : Value) : Prop := ∀ library context, e.evaluate library context = .ok v

theorem applyUnary_neg_numeralValue (n : Nat) :
    Expr.applyUnary .neg (numeralValue (n + 1 : Nat)) = .ok (numeralValue (Int.negSucc n)) := by
  have hiff : HasDouble (Int.negSucc n) ↔ HasDouble (n + 1 : Nat) := by
    rw [hasDouble_iff, hasDouble_iff, Int.natAbs_negSucc, Int.natAbs_natCast]
  have hminus : decide (((n + 1 : Nat) : Int) < 0) = false := decide_eq_false (by omega)
  have hplus : decide (Int.negSucc n < 0) = true := decide_eq_true (by omega)
  by_cases hn : HasDouble (n + 1 : Nat)
  · rw [numeralValue, numeralValue, if_pos hn, if_pos (hiff.2 hn)]
    rfl
  · rw [numeralValue, numeralValue, if_neg hn, if_neg (mt hiff.1 hn), hminus, hplus,
      ← ofMagnitude_neg (Nat.le_refl infinityBits)]
    rfl

/-- The decimal of a whole number is an operand. -/
theorem renders_int (n : Int) : ∃ e, Renders (toString n) e ∧ Denotes e (numeralValue n) := by
  cases n with
  | ofNat n => exact ⟨_, renders_natural n, fun _ _ => rfl⟩
  | negSucc n =>
    refine ⟨_, renders_neg (renders_natural (n + 1)), fun library context => ?_⟩
    exact bind_eq_ok.2 ⟨_, rfl, applyUnary_neg_numeralValue n⟩

/-- A finite double. -/
theorem renders_text {x : Float} (hx : (Double.parts? x).isSome) : ∃ e, Renders (Double.text x) e := by
  obtain ⟨body, htext, hdouble⟩ := Spelling.isDouble_text hx
  obtain ⟨v, hv⟩ := renders_double hdouble
  rw [htext]
  cases Double.isNegative x with
  | false => exact ⟨_, by simpa using hv⟩
  | true => exact ⟨_, renders_neg hv⟩

theorem renders_number (x : Float) : ∃ e, Renders (Json.number x) e := by
  unfold Json.number
  split
  · exact ⟨_, renders_nan⟩
  split
  · split
    · exact ⟨_, renders_neg renders_infinity⟩
    · exact ⟨_, renders_infinity⟩
  · next hx => exact renders_text (by simpa [Option.isSome_iff_ne_none] using hx)

theorem renders_scalar {s : Scalar} {text : String} (h : Json.scalar .display s = .ok text) : ∃ e, Renders text e := by
  cases s with
  | null => cases h; exact ⟨_, renders_null⟩
  | bool b => cases h; exact ⟨_, renders_bool b⟩
  | int n =>
    obtain rfl : text = toString n := Value.eq_text_of_written h
    obtain ⟨e, he, -⟩ := renders_int n
    exact ⟨e, he⟩
  | float x => cases h; exact renders_number x
  | str s => cases h; exact ⟨_, renders_string s⟩
  | date d =>
    obtain rfl : Json.string (Scalar.date d).text = text := Except.ok.inj h
    exact ⟨_, renders_string _⟩
  | moment m =>
    obtain rfl : Json.string (Scalar.moment m).text = text := Except.ok.inj h
    exact ⟨_, renders_string _⟩
  | bytes b =>
    obtain rfl : Json.string (Scalar.bytes b).text = text := Except.ok.inj h
    exact ⟨_, renders_string _⟩

/-! ## Values -/

theorem bracketed_display (level : Nat) (opening closing : String) (parts : List String) :
    Json.bracketed .display level opening closing parts = opening ++ ", ".intercalate parts ++ closing := by
  unfold Json.bracketed
  split
  · next h =>
    rw [List.isEmpty_iff.1 h]
    simp
  · rfl

mutual

/-- The JSON form of a value is an operand. -/
theorem renders_write : ∀ (v : Value) (level : Nat) {text : String}, Json.write .display level v = .ok text →
    ∃ e, Renders text e
  | .scalar s, level, text, h => renders_scalar h
  | .list items, level, text, h => by
    obtain ⟨parts, hparts, heq⟩ := bind_eq_ok.1 h
    cases heq
    obtain ⟨es, hes⟩ := renders_writeItems items (level + 1) hparts
    rw [bracketed_display]
    exact ⟨_, renders_list hes⟩
  | .map entries, level, text, h => by
    obtain ⟨parts, hparts, heq⟩ := bind_eq_ok.1 h
    cases heq
    obtain ⟨es, hes⟩ := renders_writeEntries entries (level + 1) hparts
    rw [bracketed_display]
    exact ⟨_, renders_object hes⟩
  | .set items, level, text, h => by
    obtain ⟨written, -, heq⟩ := bind_eq_ok.1 h
    cases heq
    exact ⟨_, renders_string written⟩

theorem renders_writeItems : ∀ (items : List Value) (level : Nat) {parts : List String},
    Json.writeItems .display level items = .ok parts → ∃ es, List.Forall₂ Renders parts es
  | [], level, parts, h => by
    cases h
    exact ⟨[], .nil⟩
  | v :: items, level, parts, h => by
    obtain ⟨part, hpart, h⟩ := bind_eq_ok.1 h
    obtain ⟨parts, hparts, heq⟩ := bind_eq_ok.1 h
    cases heq
    obtain ⟨e, he⟩ := renders_write v level hpart
    obtain ⟨es, hes⟩ := renders_writeItems items level hparts
    exact ⟨e :: es, .cons he hes⟩

theorem renders_writeEntries : ∀ (entries : List (Scalar × Value)) (level : Nat) {parts : List String},
    Json.writeEntries .display level entries = .ok parts → ∃ es : List (String × Expr),
      List.Forall₂ (fun part p => ∃ body, part = Json.string p.1 ++ ": " ++ body ∧ Renders body p.2) parts es
  | [], level, parts, h => by
    cases h
    exact ⟨[], .nil⟩
  | (k, v) :: entries, level, parts, h => by
    obtain ⟨name, hname, h⟩ := bind_eq_ok.1 h
    obtain ⟨body, hbody, h⟩ := bind_eq_ok.1 h
    obtain ⟨parts, hparts, heq⟩ := bind_eq_ok.1 h
    cases heq
    obtain ⟨e, he⟩ := renders_write v level hbody
    obtain ⟨es, hes⟩ := renders_writeEntries entries level hparts
    exact ⟨(name, e) :: es, .cons ⟨body, rfl, he⟩ hes⟩

end

end Flowline.Expression

/-! ## Values come back from their text

A value of null, truth values, whole numbers, texts, lists and mappings under texts has a text that parses
to an expression of that value (`evaluate_expressionText`), at the top as well as within lists and
mappings. Only a text that is a numeral comes back as the number. -/

namespace Flowline

/-- Null, truth values, whole numbers that have a double near them, texts, and lists and mappings of these
under different texts. -/
inductive Value.Plain : Value → Prop
  | null : Plain .null
  | bool (b : Bool) : Plain (.bool b)
  | int {n : Int} (hn : n.natAbs < 10 ^ 308) : Plain (.int n)
  | str (s : String) : Plain (.str s)
  | list {items : List Value} (h : ∀ v ∈ items, Plain v) : Plain (.list items)
  | object {entries : List (String × Value)} (hkeys : (entries.map Prod.fst).Nodup)
    (h : ∀ p ∈ entries, Plain p.2) : Plain (.object entries)

namespace Expression

open Value (Plain)

/-- A value has a text, and the text is an expression of the value. -/
def ComesBack (v : Value) : Prop :=
  ∀ level, ∃ text e, Json.write .display level v = .ok text ∧ Renders text e ∧ Denotes e v

theorem exists_items {items : List Value} (h : ∀ v ∈ items, ComesBack v) (level : Nat) :
    ∃ parts es, Json.writeItems .display level items = .ok parts ∧ List.Forall₂ Renders parts es ∧
      ∀ library context, Expr.evaluateAll library context es = .ok items := by
  induction items with
  | nil => exact ⟨[], [], rfl, .nil, fun _ _ => rfl⟩
  | cons v items ih =>
    obtain ⟨hv, hitems⟩ := List.forall_mem_cons.1 h
    obtain ⟨text, e, hwrite, hrenders, hdenotes⟩ := hv level
    obtain ⟨parts, es, hparts, hall, hvalues⟩ := ih hitems
    refine ⟨text :: parts, e :: es, ?_, .cons hrenders hall, fun library context => ?_⟩
    · exact bind_eq_ok.2 ⟨text, hwrite, bind_eq_ok.2 ⟨parts, hparts, rfl⟩⟩
    · exact bind_eq_ok.2 ⟨v, hdenotes library context, bind_eq_ok.2 ⟨items, hvalues library context, rfl⟩⟩

/-- The entries of a mapping under texts. -/
theorem exists_entries {entries : List (String × Value)} (h : ∀ p ∈ entries, ComesBack p.2) (level : Nat) :
    ∃ parts, ∃ es : List (String × Expr),
      Json.writeEntries .display level (entries.map fun (k, v) => (.str k, v)) = .ok parts ∧
      List.Forall₂ (fun part p => ∃ body, part = Json.string p.1 ++ ": " ++ body ∧ Renders body p.2) parts es ∧
      ∀ library context, Expr.evaluateEntries library context es =
        .ok (entries.map fun (k, v) => (.str k, v)) := by
  induction entries with
  | nil => exact ⟨[], [], rfl, .nil, fun _ _ => rfl⟩
  | cons p entries ih =>
    obtain ⟨hp, hentries⟩ := List.forall_mem_cons.1 h
    obtain ⟨text, e, hwrite, hrenders, hdenotes⟩ := hp level
    obtain ⟨parts, es, hparts, hall, hvalues⟩ := ih hentries
    refine ⟨(Json.string p.1 ++ ": " ++ text) :: parts, (p.1, e) :: es, ?_, .cons ⟨text, rfl, hrenders⟩ hall,
      fun library context => ?_⟩
    · exact bind_eq_ok.2 ⟨p.1, rfl, bind_eq_ok.2 ⟨text, hwrite, bind_eq_ok.2 ⟨parts, hparts, rfl⟩⟩⟩
    · exact bind_eq_ok.2 ⟨p.2, hdenotes library context, bind_eq_ok.2 ⟨_, hvalues library context, rfl⟩⟩

/-- Induction over the parts of a value. -/
theorem comesBack {v : Value} (hv : Plain v) : ComesBack v := by
  induction hv with
  | null => exact fun _ => ⟨_, _, rfl, renders_null, fun _ _ => rfl⟩
  | bool b => exact fun _ => ⟨_, _, rfl, renders_bool b, fun _ _ => rfl⟩
  | @int n hn =>
    obtain ⟨e, hrenders, hdenotes⟩ := renders_int n
    rw [numeralValue_of_lt hn] at hdenotes
    have hfits : Value.fitsNumeral n = true := fitsNumeral_of_lt (by decide) hn
    exact fun _ => ⟨_, e, Value.written_int hfits, hrenders, hdenotes⟩
  | str s => exact fun _ => ⟨_, _, rfl, renders_string s, fun _ _ => rfl⟩
  | list _ ih =>
    intro level
    obtain ⟨parts, es, hparts, hall, hvalues⟩ := exists_items ih (level + 1)
    refine ⟨_, .array es, bind_eq_ok.2 ⟨parts, hparts, rfl⟩, ?_, fun library context => ?_⟩
    · rw [bracketed_display]
      exact renders_list hall
    · exact bind_eq_ok.2 ⟨_, hvalues library context, rfl⟩
  | @object entries hkeys _ ih =>
    intro level
    obtain ⟨parts, es, hparts, hall, hvalues⟩ := exists_entries ih (level + 1)
    refine ⟨_, .object es, bind_eq_ok.2 ⟨parts, hparts, rfl⟩, ?_, fun library context => ?_⟩
    · rw [bracketed_display]
      exact renders_object hall
    · refine bind_eq_ok.2 ⟨_, hvalues library context, ?_⟩
      rw [Entries.insertAll_of_nodup [] hkeys nofun]
      rfl

/-- The text of a value parses to an expression of the value, in any context. -/
theorem evaluate_expressionText (functions : String → Bool) {v : Value} (hv : Plain v)
    (hnumeric : ∀ s, v = .str s → v.isNumeric = false) :
    ∃ text e, v.expressionText = .ok text ∧ parse functions text = .ok e ∧
      ∀ library context, e.evaluate library context = .ok v := by
  have htext : v.expressionText = Json.write .display 0 v := by
    cases hv with
    | str s =>
      simp only [Value.expressionText, hnumeric s rfl]
      rfl
    | _ => rfl
  obtain ⟨text, e, hwrite, hrenders, hdenotes⟩ := comesBack hv 0
  exact ⟨text, e, htext.trans hwrite, parse_of_renders hrenders, hdenotes⟩

/-- A mapping with a list in it, a numeral among its items and one that is a text. -/
theorem evaluate_expressionText_nested :
    ∃ text e, (Value.object [("a\"\n", .list [.int (-5), .str "1", .null]), ("b", .object [])]).expressionText =
        .ok text ∧ parse (fun _ => false) text = .ok e ∧ ∀ library context, e.evaluate library context =
          .ok (Value.object [("a\"\n", .list [.int (-5), .str "1", .null]), ("b", .object [])]) := by
  refine evaluate_expressionText _ (.object (by decide) ?_) nofun
  have hitems : ∀ v ∈ [Value.int (-5), .str "1", .null], Plain v := by
    rintro v hv
    simp only [List.mem_cons, List.not_mem_nil, or_false] at hv
    rcases hv with rfl | rfl | rfl
    · exact .int (by decide +kernel)
    · exact .str _
    · exact .null
  intro p hp
  simp only [List.mem_cons, List.not_mem_nil, or_false] at hp
  rcases hp with rfl | rfl
  · exact .list hitems
  · exact .object .nil nofun

end Expression

end Flowline
