import Flowline.Proofs.Expression.Filling

/-! # Paths of variables

A path is an identifier and parts after points; a part is a word of any letters or digits only. A part may also be
an index: digits in brackets. Two parts of digits with a bare point between them are one number for the lexer, and the
parser puts the same path together from it (`Keyed.reads`). Blanks around the points change nothing. -/

namespace Flowline.Expression

open Lexeme Text

/-- A part of a path: a word or digits. -/
inductive IsSegment : List Char → Prop
  | word {c cs} (hc : isNameStart c = true) (hcs : ∀ d ∈ cs, isNameChar d = true) : IsSegment (c :: cs)
  | digits {d ds} (hds : IsDigits (d :: ds)) : IsSegment (d :: ds)

/-- A path: an identifier and the parts after it. -/
structure VariablePath where
  name : String
  segments : List String
  isIdentifier : IsIdentifier name
  isSegment : ∀ part ∈ segments, IsSegment part.toList

def VariablePath.text (p : VariablePath) : String := ".".intercalate (p.name :: p.segments)

def IsBlanks (cs : List Char) : Prop := ∀ c ∈ cs, isBlank c = true

/-- The parts are written, each after a point with blanks around it or none. -/
inductive Dotted : List String → List Char → Prop
  | nil : Dotted [] []
  | cons {part parts before after cs} (hbefore : IsBlanks before) (hafter : IsBlanks after)
    (h : Dotted parts cs) : Dotted (part :: parts) (before ++ '.' :: (after ++ (part.toList ++ cs)))

/-- Keys are written, each after a point with blanks around it or none, or as digits in brackets. -/
inductive Keyed : List String → List Char → Prop
  | nil : Keyed [] []
  | point {key keys before after cs} (hbefore : IsBlanks before) (hafter : IsBlanks after) (hkey : IsSegment key.toList)
    (h : Keyed keys cs) : Keyed (key :: keys) (before ++ '.' :: (after ++ (key.toList ++ cs)))
  | bracket {key keys cs} (hne : key.toList ≠ []) (hkey : IsDigits key.toList) (h : Keyed keys cs) :
    Keyed (key :: keys) ('[' :: (key.toList ++ ']' :: cs))

variable {functions : String → Bool} {cs rest ds fs : List Char} {c : Char} {ls : List Lexeme}
  {part name : String} {parts keys : List String}

theorem Dotted.keyed (h : Dotted parts cs) (hparts : ∀ part ∈ parts, IsSegment part.toList) : Keyed parts cs := by
  induction h with
  | nil => exact .nil
  | cons hbefore hafter _ ih =>
    obtain ⟨hpart, hparts⟩ := List.forall_mem_cons.1 hparts
    exact .point hbefore hafter hpart (ih hparts)

/-! ## Ends of parts -/

theorem isBlank_cases (h : isBlank c = true) : isDecimal c = false ∧ isNameChar c = false ∧ c ≠ '.' := by
  have hcases := isSeparator_cases (show isSeparator c = true by simp [isSeparator, h])
  refine ⟨hcases.1, hcases.2.1, ?_⟩
  rintro rfl
  exact hcases.2.2 (by simp)

theorem Lexes.blanks {bs : List Char} (hbs : IsBlanks bs) (h : Lexes cs ls) : Lexes (bs ++ cs) ls := by
  induction bs with
  | nil => exact h
  | cons b bs ih =>
    obtain ⟨hb, hbs⟩ := List.forall_mem_cons.1 hbs
    exact .blank hb (ih hbs)

/-- The text is empty, or a blank, a point or a bracket is at its front. -/
def EndsPart (cs : List Char) : Prop := ∀ c ∈ cs.head?, isBlank c = true ∨ c = '.' ∨ c = '[' ∨ c = ']'

theorem Keyed.endsPart (h : Keyed keys cs) : EndsPart cs := by
  cases h with
  | nil => exact nofun
  | @point _ _ before _ _ hbefore =>
    cases before with
    | nil =>
      rintro _ ⟨⟩
      exact .inr (.inl rfl)
    | cons b before =>
      rintro _ ⟨⟩
      exact .inl (hbefore b (by simp))
  | bracket =>
    rintro _ ⟨⟩
    exact .inr (.inr (.inl rfl))

theorem EndsPart.not_isNameChar (h : EndsPart cs) : ∀ c ∈ cs.head?, isNameChar c = false := by
  intro c hc
  rcases h c hc with hblank | rfl | rfl | rfl
  · exact (isBlank_cases hblank).2.1
  all_goals rfl

theorem EndsPart.noDigitAhead (h : EndsPart cs) : NoDigitAhead cs := by
  intro c hc
  rcases h c hc with hblank | rfl | rfl | rfl
  · exact (isBlank_cases hblank).1
  all_goals rfl

theorem EndsPart.exponentSize_eq_zero (h : EndsPart cs) : exponentSize cs = 0 := by
  cases cs with
  | nil => rfl
  | cons c cs =>
    have hc := h.not_isNameChar c rfl
    have hletter : (c == 'e' || c == 'E') = false := by
      refine Bool.eq_false_iff.2 fun hletter => ?_
      rcases (by simpa using hletter : c = 'e' ∨ c = 'E') with rfl | rfl <;> cases hc
    simp [exponentSize, hletter]

/-- A word is one lexeme before the end of a part. -/
theorem lexes_word_append (hc : isNameStart c = true) (hcs : ∀ d ∈ cs, isNameChar d = true) (hrest : EndsPart rest)
    (h : Lexes rest ls) : Lexes (c :: (cs ++ rest)) (⟨.name, String.ofList (c :: cs)⟩ :: ls) := by
  have htoken : lexeme? c (cs ++ rest) = some (some .name, cs.length) := by
    rw [lexeme?_of_isNameStart hc, countWhile, List.takeWhile_append_of_pos hcs]
    cases rest with
    | nil => simp
    | cons d rest => simp [hrest.not_isNameChar d rfl]
  exact .token htoken h

/-- Digits are one lexeme where the text after them does not go on with the number. -/
theorem lexes_digits_append (hds : IsDigits (c :: ds)) (hrest : EndsPart rest) (hfraction : fractionSize rest = 0)
    (h : Lexes rest ls) : Lexes (c :: (ds ++ rest)) (⟨.number, String.ofList (c :: ds)⟩ :: ls) := by
  obtain ⟨hc, hds⟩ := List.forall_mem_cons.1 hds
  have hsize : numberSize (ds ++ rest) = ds.length := by
    simp [numberSize, countWhile_digits hds hrest.noDigitAhead, hfraction, hrest.exponentSize_eq_zero]
  exact .token (by rw [lexeme?_of_isDecimal hc, hsize]) h

/-- Digits with a bare point between them are one lexeme. -/
theorem lexes_digits_point (hds : IsDigits (c :: ds)) (hfs : IsDigits fs) (hne : fs ≠ []) (hrest : EndsPart rest)
    (h : Lexes rest ls) :
    Lexes (c :: ((ds ++ '.' :: fs) ++ rest)) (⟨.number, String.ofList (c :: (ds ++ '.' :: fs))⟩ :: ls) := by
  obtain ⟨hc, hds⟩ := List.forall_mem_cons.1 hds
  have hpoint : NoDigitAhead ('.' :: (fs ++ rest)) := by
    rintro _ ⟨⟩
    rfl
  have hsize : numberSize (ds ++ '.' :: (fs ++ rest)) = (ds ++ '.' :: fs).length := by
    simp [numberSize, countWhile_digits hds hpoint, fractionSize_point hfs hne hrest.noDigitAhead,
      hrest.exponentSize_eq_zero]
  refine .token ?_ h
  rw [lexeme?_of_isDecimal hc, List.append_assoc, List.cons_append, hsize]

/-! ## Parts in the grammar -/

/-- The lexemes are the rest of a path. -/
def ReadsParts (functions : String → Bool) (ls : List Lexeme) (parts : List String) : Prop :=
  ∀ before rest, Apart rest →
    Reads functions (.path before) (ls ++ rest) (.variable (".".intercalate (before ++ parts))) rest

theorem readsParts_nil : ReadsParts functions [] [] := by
  intro before rest hrest
  rw [List.append_nil]
  exact .pathEnd hrest.endsPath

theorem ReadsParts.cons {kind : TokenKind} (hkind : kind = .name ∨ kind = .number) (h : ReadsParts functions ls parts) :
    ReadsParts functions (⟨.dot, "."⟩ :: ⟨kind, part⟩ :: ls) (part :: parts) := by
  intro before rest hrest
  have hpath := h (before ++ [part]) rest hrest
  rw [List.append_assoc, List.singleton_append] at hpath
  exact .part hkind hpath

theorem ReadsParts.bracket (h : ReadsParts functions ls parts) :
    ReadsParts functions (⟨.leftBracket, "["⟩ :: ⟨.number, part⟩ :: ⟨.rightBracket, "]"⟩ :: ls) (part :: parts) := by
  intro before rest hrest
  have hpath := h (before ++ [part]) rest hrest
  rw [List.append_assoc, List.singleton_append] at hpath
  exact .index hpath

theorem intercalate_join (before : List String) (a b : String) (parts : List String) :
    ".".intercalate (before ++ (a ++ "." ++ b) :: parts) = ".".intercalate (before ++ a :: b :: parts) := by
  induction before with
  | nil =>
    cases parts with
    | nil => simp [String.intercalate_cons_cons]
    | cons part parts => simp [String.intercalate_cons_cons, String.append_assoc]
  | cons first before ih =>
    rw [List.cons_append, List.cons_append, String.intercalate_cons_of_ne_nil (by simp),
      String.intercalate_cons_of_ne_nil (by simp), ih]

/-- Two parts that the lexer takes for one number make the same path. -/
theorem ReadsParts.join {a b : String} (h : ReadsParts functions ls ((a ++ "." ++ b) :: parts)) :
    ReadsParts functions ls (a :: b :: parts) := by
  intro before rest hrest
  have hpath := h before rest hrest
  rwa [intercalate_join] at hpath

/-- What digits are followed by: something that does not go on with the number, or a point and digits right away. -/
theorem Keyed.fraction_cases (h : Keyed keys cs) :
    fractionSize cs = 0 ∨ ∃ next more rest, keys = next :: more ∧ cs = '.' :: (next.toList ++ rest) ∧
      IsDigits next.toList ∧ next.toList ≠ [] ∧ Keyed more rest := by
  cases h with
  | nil | bracket => exact .inl rfl
  | @point next more before after rest hbefore hafter hnext h =>
    cases before with
    | cons b before =>
      refine .inl (fractionSize_of_head?_ne fun hhead => ?_)
      exact (isBlank_cases (hbefore b (by simp))).2.2 (Option.some.inj hhead)
    | nil =>
      cases after with
      | cons a after =>
        refine .inl (fractionSize_eq_zero ?_)
        rintro _ ⟨⟩
        exact (isBlank_cases (hafter a (by simp))).1
      | nil =>
        generalize hchars : next.toList = chars at hnext
        cases hnext with
        | @word c cs hc hcs =>
          refine .inl (fractionSize_eq_zero ?_)
          rintro _ ⟨⟩
          exact not_isDecimal_of_isNameStart hc
        | @digits d ds hds => exact .inr ⟨next, more, rest, rfl, by rw [hchars]; rfl, by rwa [hchars], by simp [hchars], h⟩

theorem ofList_join {d : Char} {ds : List Char} {a b : String} (ha : a.toList = d :: ds) :
    String.ofList (d :: (ds ++ '.' :: b.toList)) = a ++ "." ++ b := by
  apply String.toList_inj.1
  simp [ha]

/-- The keys of a path are read, whatever blanks are around their points. -/
theorem Keyed.reads (h : Keyed keys cs) : ∃ ls, Lexes cs ls ∧ ∀ functions, ReadsParts functions ls keys := by
  -- Two keys may go at once, so the induction is on how many there are.
  induction hn : keys.length using Nat.strongRecOn generalizing keys cs with
  | ind n ih =>
    subst hn
    cases h with
    | nil => exact ⟨[], .nil, fun _ => readsParts_nil⟩
    | @bracket key keys rest hne hkey h =>
      obtain ⟨ls, hls, hreads⟩ := ih keys.length (by simp) h rfl
      obtain ⟨d, ds, hchars⟩ := List.exists_cons_of_ne_nil hne
      have hend : EndsPart (']' :: rest) := by
        rintro _ ⟨⟩
        exact .inr (.inr (.inr rfl))
      have hindex := lexes_digits_append (hchars ▸ hkey) hend rfl (.mark ']' .rightBracket rfl hls)
      rw [← hchars, String.ofList_toList, ← List.cons_append, ← hchars] at hindex
      exact ⟨_, .mark '[' .leftBracket rfl hindex, fun functions => (hreads functions).bracket⟩
    | @point key keys before after rest hbefore hafter hkey h =>
      obtain ⟨ls, hls, hreads⟩ := ih keys.length (by simp) h rfl
      generalize hchars : key.toList = chars at hkey
      have hkeyText : String.ofList chars = key := by rw [← hchars, String.ofList_toList]
      have hmark {ls : List Lexeme} (hls : Lexes (chars ++ rest) ls) :
          Lexes (before ++ '.' :: (after ++ (chars ++ rest))) (⟨.dot, "."⟩ :: ls) :=
        .blanks hbefore (.mark '.' .dot rfl (.blanks hafter hls))
      cases hkey with
      | word hc hcs =>
        have hword := lexes_word_append hc hcs h.endsPart hls
        rw [hkeyText] at hword
        exact ⟨_, hmark hword, fun functions => (hreads functions).cons (.inl rfl)⟩
      | @digits d ds hds =>
        rcases h.fraction_cases with hfraction | ⟨next, more, tail, rfl, rfl, hnext, hne, htail⟩
        · have hnumber := lexes_digits_append hds h.endsPart hfraction hls
          rw [hkeyText] at hnumber
          exact ⟨_, hmark hnumber, fun functions => (hreads functions).cons (.inr rfl)⟩
        · obtain ⟨ms, hms, hreads⟩ := ih more.length (by simp) htail rfl
          have hnumber := lexes_digits_point hds hnext hne htail.endsPart hms
          rw [ofList_join hchars, List.append_assoc] at hnumber
          exact ⟨_, hmark hnumber, fun functions => ((hreads functions).cons (.inr rfl)).join⟩

/-! ## Whole paths -/

theorem Reads.path_cases {segments : List String} {e : Expr} {ms : List Lexeme}
    (h : Reads functions (.path segments) ls e ms) :
    ls = ms ∨ (first ls).kind = .dot ∨ (first ls).kind = .leftBracket := by
  cases h with
  | pathEnd => exact .inl rfl
  | part => exact .inr (.inl rfl)
  | index => exact .inr (.inr rfl)

/-- An identifier and the keys after it are read as a variable. -/
theorem Keyed.exists_operand (hname : IsIdentifier name) (h : Keyed keys cs) :
    ∃ ls, Lexes (name.toList ++ cs) ls ∧ Operand ls (.variable (".".intercalate (name :: keys))) := by
  obtain ⟨ls, hls, hreads⟩ := h.reads
  obtain ⟨c, chars, hchars, hc, hall⟩ := hname.chars
  have hword := lexes_word_append hc (List.all_eq_true.1 hall) h.endsPart hls
  rw [← hchars, String.ofList_toList] at hword
  refine ⟨_, by rwa [hchars], ?_⟩
  refine .of_primary nofun (hname.isKeyword_eq_false "!" (by simp)) fun functions rest hrest => ?_
  have hpath := hreads functions [name] rest hrest
  rw [List.singleton_append] at hpath
  have hnext : (first (ls ++ rest)).kind ≠ .leftParen := by
    rcases hpath.path_cases with heq | hdot | hbracket
    · rw [heq]
      exact hrest.2.2
    · simp [hdot]
    · simp [hbracket]
  exact .name (.inl hname.constant?_eq_none) hnext hpath

/-- The text of a path is read as the variable. -/
theorem VariablePath.exists_operand (p : VariablePath) (h : Dotted p.segments cs) :
    ∃ ls, Lexes (p.name.toList ++ cs) ls ∧ Operand ls (.variable p.text) :=
  (h.keyed p.isSegment).exists_operand p.isIdentifier

end Flowline.Expression
