import Flowline.Proofs.Expression.Lexing
import Flowline.Proofs.Expression.Soundness

/-! # What the parser takes

An expression of the grammar is found by the parser, with fuel that grows with the tokens that it takes:
between two tokens lie fewer calls than twenty. So the parser and the grammar agree
(`parseTokens_eq_ok_iff`), and the fuel that the parser takes along is always enough. -/

namespace Flowline.Expression

open Lexeme

variable {functions : String → Bool} {p : Phrase} {ls ms : List Lexeme} {e : Expr} {ts rest : List Token}
  {t : Token}

/-- How many lexemes a phrase takes at least. -/
def Phrase.least : Phrase → Nat
  | .chain .. | .path _ => 0
  | .level _ | .not | .signed | .primary | .arguments _ | .items _ | .entries => 1

theorem Level.least_operand (l : Level) : l.operand.least = 1 := by cases l <;> rfl

/-- How many calls lie between a phrase and the tokens of a primary expression, and one more. -/
def Phrase.depth : Phrase → Nat
  | .level .disjunction => 13
  | .level .conjunction => 11
  | .not => 9
  | .level .comparison => 8
  | .level .sum => 6
  | .level .product => 4
  | .signed => 2
  | .primary | .chain .. | .entries => 1
  | .path _ => 0
  | .arguments _ => 15
  | .items _ => 14

theorem Level.depth_operand (l : Level) : l.operand.depth + 2 ≤ (Phrase.level l).depth := by
  cases l <;> decide

theorem Level.depth_operand_le (l : Level) : l.operand.depth ≤ 11 := by
  cases l <;> decide

/-- The parser reads a phrase with enough fuel: what is enough depends on how many tokens it takes. -/
structure Parses (functions : String → Bool) (p : Phrase) (ts : List Token) (e : Expr)
    (rest : List Token) : Prop where
  length_le : rest.length + p.least ≤ ts.length
  parse_eq : ∀ fuel, 20 * ts.length + p.depth ≤ fuel + 20 * rest.length →
    p.parse functions fuel ts = .ok (e, rest)

section Parses

variable {l : Level} {left right : Expr} {ts' ts'' : List Token}

theorem Phrase.least_le (p : Phrase) : p.least ≤ 1 := by
  cases p <;> simp [Phrase.least]

theorem Phrase.depth_le (p : Phrase) : p.depth ≤ 15 := by
  cases p with
  | level l => cases l <;> decide
  | _ => simp [Phrase.depth]

/-- A phrase of some depth takes some calls. -/
theorem Parses.of_succ (n : Nat) (hdepth : n ≤ p.depth) (hlength : rest.length + p.least ≤ ts.length)
    (h : ∀ fuel, 20 * ts.length + p.depth ≤ fuel + n + 20 * rest.length →
      p.parse functions (fuel + n) ts = .ok (e, rest)) :
    Parses functions p ts e rest where
  length_le := hlength
  parse_eq fuel hfuel := by
    obtain ⟨fuel, rfl⟩ := Nat.exists_eq_add_of_le' (show n ≤ fuel by omega)
    exact h fuel hfuel

theorem Parses.level (hleft : Parses functions l.operand ts left ts')
    (hchain : Parses functions (.chain l left) ts' e rest) : Parses functions (.level l) ts e rest := by
  have hoperand := hleft.length_le
  have hrest := hchain.length_le
  have hdepth := l.depth_operand
  have hleast := l.least_operand
  simp only [Phrase.least] at hrest
  refine .of_succ 2 (by omega) (by simp only [Phrase.least]; omega) fun fuel hfuel => ?_
  refine bind_eq_ok.2 ⟨_, (parseOperand_succ fuel l ts).trans (hleft.parse_eq fuel (by omega)), ?_⟩
  exact hchain.parse_eq (fuel + 1) (by simp only [Phrase.depth]; omega)

theorem Parses.chainEnd (hfirst : l.operator? (peek ts) = none) :
    Parses functions (.chain l left) ts left ts :=
  .of_succ 1 (Nat.le_refl 1) (Nat.le_refl _) fun fuel _ => by
    simp [Phrase.parse, parseChain, hfirst]

theorem Parses.chain {op : BinaryOp} (hop : l.operator? t = some op)
    (hright : Parses functions l.operand ts right ts')
    (hrest : Parses functions (.chain l (.binary op left right)) ts' e rest) :
    Parses functions (.chain l left) (t :: ts) e rest := by
  have hoperand := hright.length_le
  have hlength := hrest.length_le
  have hdepth := l.depth_operand_le
  have hleast := l.least_operand
  have hadvance : advance (t :: ts) = ts := advance_cons (kind_ne_stop_of_operator? hop)
  simp only [Phrase.least] at hlength
  refine .of_succ 1 (Nat.le_refl 1) (by simp only [Phrase.least, List.length_cons]; omega) fun fuel hfuel => ?_
  simp only [List.length_cons, Phrase.depth] at hfuel
  obtain ⟨fuel, rfl⟩ := Nat.exists_eq_add_of_le' (show 1 ≤ fuel by omega)
  simp only [Phrase.parse, parseChain, peek_cons, hop, hadvance]
  refine bind_eq_ok.2 ⟨_, (parseOperand_succ fuel l ts).trans (hright.parse_eq fuel (by omega)), ?_⟩
  exact hrest.parse_eq (fuel + 1) (by simp only [Phrase.depth]; omega)

/-- A phrase that is a shorter one after a token. -/
theorem Parses.of_shorter {q : Phrase} {us : List Token} {e' : Expr} (h : Parses functions q ts e' ts')
    (hshort : ts.length < us.length) (hdepth : 1 ≤ p.depth) (hle : rest.length ≤ ts'.length)
    (step : ∀ fuel, q.parse functions fuel ts = .ok (e', ts') →
      p.parse functions (fuel + 1) us = .ok (e, rest)) : Parses functions p us e rest := by
  have hlength := h.length_le
  have hleast := p.least_le
  have hq := q.depth_le
  refine .of_succ 1 hdepth (by omega) fun fuel hfuel => step fuel (h.parse_eq fuel ?_)
  omega

theorem Parses.not (ht : t.isKeyword "!" "not" = true) (h : Parses functions .not ts e rest) :
    Parses functions .not (t :: ts) (.unary .not e) rest := by
  have hadvance : advance (t :: ts) = ts := advance_cons (kind_ne_stop_of_isKeyword ht)
  refine h.of_shorter (Nat.lt_succ_self _) (by decide) (Nat.le_refl _) fun fuel hparse => ?_
  simp only [Phrase.parse, parseNot, peek_cons, ht, hadvance, if_true]
  exact bind_eq_ok.2 ⟨_, hparse, rfl⟩

theorem Parses.comparison (ht : (peek ts).isKeyword "!" "not" = false)
    (h : Parses functions (.level .comparison) ts e rest) : Parses functions .not ts e rest :=
  .of_succ 1 (by decide) h.length_le fun fuel hfuel => by
    simp only [Phrase.parse, parseNot, ht, Bool.false_eq_true, if_false]
    exact h.parse_eq fuel (by simp only [Phrase.depth] at hfuel ⊢; omega)

theorem Parses.minus (ht : t.lexeme.isSign "-" = true) (h : Parses functions .signed ts e rest) :
    Parses functions .signed (t :: ts) (.unary .neg e) rest := by
  obtain ⟨hkind, htext⟩ : t.kind = .operator ∧ t.text = "-" := by
    simpa [Lexeme.isSign, Token.lexeme] using ht
  have hadvance : advance (t :: ts) = ts := advance_cons (by simp [hkind])
  refine h.of_shorter (Nat.lt_succ_self _) (by decide) (Nat.le_refl _) fun fuel hparse => ?_
  simp only [Phrase.parse, parseSigned, peek_cons, hkind, htext, hadvance, beq_self_eq_true,
    Bool.and_true, if_true]
  exact bind_eq_ok.2 ⟨_, hparse, rfl⟩

theorem Parses.plus (ht : t.lexeme.isSign "+" = true) (h : Parses functions .signed ts e rest) :
    Parses functions .signed (t :: ts) e rest := by
  obtain ⟨hkind, htext⟩ : t.kind = .operator ∧ t.text = "+" := by
    simpa [Lexeme.isSign, Token.lexeme] using ht
  have hadvance : advance (t :: ts) = ts := advance_cons (by simp [hkind])
  refine h.of_shorter (Nat.lt_succ_self _) (by decide) (Nat.le_refl _) fun fuel hparse => ?_
  simpa [Phrase.parse, parseSigned, hkind, htext, hadvance] using hparse

theorem Parses.primary (hminus : (peek ts).lexeme.isSign "-" = false)
    (hplus : (peek ts).lexeme.isSign "+" = false) (h : Parses functions .primary ts e rest) :
    Parses functions .signed ts e rest :=
  .of_succ 1 (by decide) h.length_le fun fuel hfuel => by
    simp only [Lexeme.isSign, Token.lexeme] at hminus hplus
    simp only [Phrase.parse, parseSigned, hminus, hplus, Bool.false_eq_true, if_false]
    exact h.parse_eq fuel (by simp only [Phrase.depth] at hfuel ⊢; omega)

/-- A primary expression that one call reads. -/
theorem Parses.of_parsePrimary (hlength : rest.length + 1 ≤ ts.length)
    (h : ∀ fuel, parsePrimary functions (fuel + 1) ts = .ok (e, rest)) :
    Parses functions .primary ts e rest :=
  .of_succ 1 (by decide) hlength fun fuel _ => h fuel

theorem Parses.number {v : Value} (ht : t.kind = .number) (hv : numberValue t.text = .ok v) :
    Parses functions .primary (t :: ts) (.literal v) ts :=
  .of_parsePrimary (Nat.le_refl _) fun fuel => by
    rw [parsePrimary]
    simp only [peek_cons, ht, hv, advance_cons (t := t) (by simp [ht])]
    rfl

theorem Parses.string (ht : t.kind = .string) :
    Parses functions .primary (t :: ts) (.literal (.str (stringValue t.text))) ts :=
  .of_parsePrimary (Nat.le_refl _) fun fuel => by
    simp [parsePrimary, ht, advance_cons]

theorem Parses.paren (ht : t.kind = .leftParen) {closing : Token} (hclosing : closing.kind = .rightParen)
    (h : Parses functions (.level .disjunction) ts e (closing :: rest)) :
    Parses functions .primary (t :: ts) e rest := by
  refine h.of_shorter (Nat.lt_succ_self _) (by decide) (Nat.le_succ _) fun fuel hparse => ?_
  simp only [Phrase.parse, parsePrimary, peek_cons, ht, advance_cons (t := t) (by simp [ht])]
  refine bind_eq_ok.2 ⟨_, hparse, bind_eq_ok.2 ⟨(closing, rest), ?_, rfl⟩⟩
  simp [expect, hclosing, advance_cons]

theorem Parses.array (ht : t.kind = .leftBracket) (h : Parses functions (.arguments .bracket) ts e rest) :
    Parses functions .primary (t :: ts) e rest := by
  refine h.of_shorter (Nat.lt_succ_self _) (by decide) (Nat.le_refl _) fun fuel hparse => ?_
  simp only [Phrase.parse, parsePrimary, peek_cons, ht, advance_cons (t := t) (by simp [ht])]
  exact hparse

theorem Parses.emptyObject {closing : Token} (ht : t.kind = .leftBrace) (hclosing : closing.kind = .rightBrace) :
    Parses functions .primary (t :: closing :: ts) (.object []) ts :=
  .of_parsePrimary (by simp) fun fuel => by
    simp [parsePrimary, ht, hclosing, advance_cons]

theorem Parses.object (ht : t.kind = .leftBrace) (hfirst : (peek ts).kind ≠ .rightBrace)
    (h : Parses functions .entries ts e rest) : Parses functions .primary (t :: ts) e rest := by
  refine h.of_shorter (Nat.lt_succ_self _) (by decide) (Nat.le_refl _) fun fuel hparse => ?_
  simpa only [Phrase.parse, parsePrimary, peek_cons, ht, advance_cons (t := t) (by simp [ht]),
    beq_false_of_ne hfirst, Bool.false_eq_true, if_false] using hparse

theorem Parses.constant {v : Value} (ht : t.kind = .name) (hv : constant? t.text = some v)
    (hnext : (peek ts).kind ≠ .dot) : Parses functions .primary (t :: ts) (.literal v) ts :=
  .of_parsePrimary (Nat.le_refl _) fun fuel => by
    simp [parsePrimary, ht, hv, hnext, advance_cons]

theorem Parses.call {opening : Token} {args : List Expr} (ht : t.kind = .name) (hopening : opening.kind = .leftParen)
    (hword : constant? t.text = none) (hknown : functions t.text = true)
    (h : Parses functions (.arguments .paren) ts (.array args) rest) :
    Parses functions .primary (t :: opening :: ts) (.call t.text args) rest := by
  refine h.of_shorter (by simp only [List.length_cons]; omega) (by decide) (Nat.le_refl _) fun fuel hparse => ?_
  obtain ⟨⟨args', rest'⟩, hargs, heq⟩ := bind_eq_ok.1 hparse
  cases heq
  simp only [Phrase.parse, parsePrimary, peek_cons, ht, hopening, hword, hknown, advance_cons (t := t) (by simp [ht]),
    advance_cons (t := opening) (by simp [hopening]), beq_self_eq_true, if_true]
  exact bind_eq_ok.2 ⟨_, hargs, rfl⟩

theorem Parses.name (ht : t.kind = .name) (hword : constant? t.text = none ∨ (peek ts).kind = .dot)
    (hnext : (peek ts).kind ≠ .leftParen) (h : Parses functions (.path [t.text]) ts e rest) :
    Parses functions .primary (t :: ts) e rest := by
  refine h.of_shorter (Nat.lt_succ_self _) (by decide) (Nat.le_refl _) fun fuel hparse => ?_
  have hpath : parsePath t ts = .ok (e, rest) := hparse
  simp only [Phrase.parse, parsePrimary, peek_cons, ht, advance_cons (t := t) (by simp [ht]),
    beq_false_of_ne hnext, Bool.false_eq_true, if_false]
  split
  · next v hv => simp [hpath, hword.resolve_left (by simp [hv])]
  · exact hpath

theorem parses_path {segments all : List String} (hlength : rest.length ≤ ts.length)
    (h : pathTail segments ts = .ok (all, rest)) :
    Parses functions (.path segments) ts (.variable (".".intercalate all)) rest where
  length_le := hlength
  parse_eq _ _ := bind_eq_ok.2 ⟨_, h, rfl⟩

/-- A path goes on where a longer beginning of it does. -/
theorem Parses.path {segments longer : List String} {us : List Token} (hshort : ts.length ≤ us.length)
    (heq : pathTail segments us = pathTail longer ts) (h : Parses functions (.path longer) ts e rest) :
    Parses functions (.path segments) us e rest where
  length_le := Nat.le_trans h.length_le hshort
  parse_eq _ _ := by
    simpa only [Phrase.parse, heq] using h.parse_eq (20 * ts.length) (by simp [Phrase.depth])

theorem pathTail_eq_self {segments : List String} (h : EndsPath (ts.map Token.lexeme)) :
    pathTail segments ts = .ok (segments, ts) := by
  match ts with
  | [] => rfl
  | [t] => simp [pathTail]
  | t :: u :: vs =>
    have hdot : t.kind ≠ .dot := h.1
    have hbracket : t.kind ≠ .leftBracket := h.2
    unfold pathTail
    split <;> simp_all

theorem Parses.noArguments {closing : Closing} (ht : t.kind = closing.kind) :
    Parses functions (.arguments closing) (t :: ts) (.array []) ts :=
  .of_succ 1 (by simp [Phrase.depth]) (Nat.le_refl _) fun fuel _ =>
    bind_eq_ok.2 ⟨([], ts), by simp [parseArguments, ht, advance_cons, closing.kind_ne_stop], rfl⟩

theorem Parses.arguments {closing : Closing} (hfirst : (peek ts).kind ≠ closing.kind)
    (h : Parses functions (.items closing) ts e rest) : Parses functions (.arguments closing) ts e rest :=
  .of_succ 1 (by simp [Phrase.depth]) h.length_le fun fuel hfuel => by
    simp only [Phrase.parse, parseArguments, beq_false_of_ne hfirst, Bool.false_eq_true, if_false]
    exact h.parse_eq fuel (by simp only [Phrase.depth] at hfuel ⊢; omega)

theorem Closing.kind_ne_comma (closing : Closing) : closing.kind ≠ .comma := by
  cases closing <;> decide

theorem Parses.lastItem {closing : Closing} (ht : t.kind = closing.kind)
    (h : Parses functions (.level .disjunction) ts e (t :: rest)) :
    Parses functions (.items closing) ts (.array [e]) rest := by
  have hlength := h.length_le
  simp only [Phrase.least, List.length_cons] at hlength
  refine .of_succ 1 (by simp [Phrase.depth]) (by simp only [Phrase.least]; omega) fun fuel hfuel => ?_
  have hitem := h.parse_eq fuel (by simp only [Phrase.depth, List.length_cons] at hfuel ⊢; omega)
  have hclosing : expect closing.kind (t :: rest) = .ok (t, rest) := by
    simp [expect, ht, advance_cons, closing.kind_ne_stop]
  have hcomma : (t.kind == .comma) = false := by simp [ht, closing.kind_ne_comma]
  refine bind_eq_ok.2 ⟨([e], rest), bind_eq_ok.2 ⟨_, hitem, ?_⟩, rfl⟩
  simp only [peek_cons, hcomma]
  exact bind_eq_ok.2 ⟨_, hclosing, rfl⟩

theorem Parses.item {closing : Closing} {es : List Expr} (ht : t.kind = .comma)
    (h : Parses functions (.level .disjunction) ts e (t :: ts'))
    (hrest : Parses functions (.items closing) ts' (.array es) rest) :
    Parses functions (.items closing) ts (.array (e :: es)) rest := by
  have hlength := h.length_le
  have hrestLength := hrest.length_le
  simp only [Phrase.least, List.length_cons] at hlength hrestLength
  refine .of_succ 1 (by simp [Phrase.depth]) (by simp only [Phrase.least]; omega) fun fuel hfuel => ?_
  simp only [Phrase.depth] at hfuel
  have hitem := h.parse_eq fuel (by simp only [Phrase.depth, List.length_cons]; omega)
  have hitems := hrest.parse_eq fuel (by simp only [Phrase.depth]; omega)
  obtain ⟨⟨es', rest'⟩, hes, heq⟩ := bind_eq_ok.1 hitems
  cases heq
  refine bind_eq_ok.2 ⟨(e :: es, rest), bind_eq_ok.2 ⟨_, hitem, ?_⟩, rfl⟩
  simp only [peek_cons, ht, advance_cons (t := t) (by simp [ht])]
  exact bind_eq_ok.2 ⟨_, hes, rfl⟩

theorem entryKey_eq {key : String} (h : t.lexeme.key? = some key) : entryKey t = .ok key := by
  unfold Lexeme.key? at h
  unfold entryKey
  simp only [Token.lexeme] at h
  split at h <;> simp_all

theorem expect_cons {kind : TokenKind} (hstop : kind ≠ .stop) (ht : t.kind = kind) :
    expect kind (t :: ts) = .ok (t, ts) := by
  subst ht
  simp [expect, advance_cons hstop]

theorem advance_cons_of_key? {key : String} (h : t.lexeme.key? = some key) : advance (t :: ts) = ts := by
  refine advance_cons fun hstop => ?_
  simp [Lexeme.key?, Token.lexeme, hstop] at h

theorem Parses.lastEntry {colon closing : Token} {key : String} (hkey : t.lexeme.key? = some key)
    (hcolon : colon.kind = .colon) (hclosing : closing.kind = .rightBrace)
    (h : Parses functions (.level .disjunction) ts e (closing :: rest)) :
    Parses functions .entries (t :: colon :: ts) (.object [(key, e)]) rest := by
  refine h.of_shorter (by simp only [List.length_cons]; omega) (by decide) (Nat.le_succ _) fun fuel hparse => ?_
  refine bind_eq_ok.2 ⟨([(key, e)], rest), bind_eq_ok.2 ⟨key, entryKey_eq hkey, ?_⟩, rfl⟩
  rw [advance_cons_of_key? hkey]
  refine bind_eq_ok.2 ⟨(colon, ts), expect_cons (by decide) hcolon, bind_eq_ok.2 ⟨_, hparse, ?_⟩⟩
  simp only [peek_cons, hclosing]
  exact bind_eq_ok.2 ⟨_, expect_cons (by decide) hclosing, rfl⟩

theorem Parses.entry {colon comma : Token} {key : String} {es : List (String × Expr)}
    (hkey : t.lexeme.key? = some key) (hcolon : colon.kind = .colon) (hcomma : comma.kind = .comma)
    (h : Parses functions (.level .disjunction) ts e (comma :: ts'))
    (hrest : Parses functions .entries ts' (.object es) rest) :
    Parses functions .entries (t :: colon :: ts) (.object ((key, e) :: es)) rest := by
  have hlength := h.length_le
  have hrestLength := hrest.length_le
  simp only [Phrase.least, List.length_cons] at hlength hrestLength
  refine .of_succ 1 (by decide) (by simp only [Phrase.least, List.length_cons]; omega) fun fuel hfuel => ?_
  simp only [Phrase.depth, List.length_cons] at hfuel
  have hvalue := h.parse_eq fuel (by simp only [Phrase.depth, List.length_cons]; omega)
  have hentries := hrest.parse_eq fuel (by simp only [Phrase.depth]; omega)
  obtain ⟨⟨es', rest'⟩, hes, heq⟩ := bind_eq_ok.1 hentries
  cases heq
  refine bind_eq_ok.2 ⟨((key, e) :: es, rest), bind_eq_ok.2 ⟨key, entryKey_eq hkey, ?_⟩, rfl⟩
  rw [advance_cons_of_key? hkey]
  refine bind_eq_ok.2 ⟨(colon, ts), expect_cons (by decide) hcolon, bind_eq_ok.2 ⟨_, hvalue, ?_⟩⟩
  simp only [peek_cons, hcomma, advance_cons (t := comma) (by simp [hcomma])]
  exact bind_eq_ok.2 ⟨_, hes, rfl⟩

end Parses

theorem exists_of_map_lexeme {kind : TokenKind} {text : String} (h : ts.map Token.lexeme = ⟨kind, text⟩ :: ls) :
    ∃ position ts', ts = ⟨kind, text, position⟩ :: ts' ∧ ts'.map Token.lexeme = ls := by
  obtain ⟨⟨kind, text, position⟩, ts', rfl, ht, hts'⟩ := List.map_eq_cons_iff.1 h
  cases ht
  exact ⟨position, ts', rfl, hts'⟩

/-- The parser finds what is in the grammar. -/
theorem Reads.parses (h : Reads functions p ls e ms) :
    ∀ ts : List Token, ts.map Token.lexeme = ls →
      ∃ rest, rest.map Token.lexeme = ms ∧ Parses functions p ts e rest := by
  induction h with
  | level _ _ ihleft ihchain =>
    intro ts hts
    obtain ⟨ts', hts', hleft⟩ := ihleft ts hts
    obtain ⟨rest, hrest, hchain⟩ := ihchain ts' hts'
    exact ⟨rest, hrest, hleft.level hchain⟩
  | chainEnd hfirst =>
    rintro ts rfl
    exact ⟨ts, rfl, .chainEnd (by rwa [← operator?_lexeme, lexeme_peek])⟩
  | chain hop _ _ ihright ihrest =>
    intro ts hts
    obtain ⟨t, ts, rfl, rfl, rfl⟩ := List.map_eq_cons_iff.1 hts
    obtain ⟨ts', hts', hright⟩ := ihright ts rfl
    obtain ⟨rest, hrest, hchain⟩ := ihrest ts' hts'
    exact ⟨rest, hrest, hright.chain (operator?_lexeme _ t ▸ hop) hchain⟩
  | not ho _ ih =>
    intro ts hts
    obtain ⟨t, ts, rfl, rfl, rfl⟩ := List.map_eq_cons_iff.1 hts
    obtain ⟨rest, hrest, hoperand⟩ := ih ts rfl
    exact ⟨rest, hrest, hoperand.not ho⟩
  | comparison hfirst _ ih =>
    rintro ts rfl
    obtain ⟨rest, hrest, hoperand⟩ := ih ts rfl
    exact ⟨rest, hrest, hoperand.comparison (by rwa [← isKeyword_lexeme, lexeme_peek])⟩
  | minus ho _ ih =>
    intro ts hts
    obtain ⟨t, ts, rfl, rfl, rfl⟩ := List.map_eq_cons_iff.1 hts
    obtain ⟨rest, hrest, hoperand⟩ := ih ts rfl
    exact ⟨rest, hrest, hoperand.minus ho⟩
  | plus ho _ ih =>
    intro ts hts
    obtain ⟨t, ts, rfl, rfl, rfl⟩ := List.map_eq_cons_iff.1 hts
    obtain ⟨rest, hrest, hoperand⟩ := ih ts rfl
    exact ⟨rest, hrest, hoperand.plus ho⟩
  | primary hminus hplus _ ih =>
    rintro ts rfl
    obtain ⟨rest, hrest, hoperand⟩ := ih ts rfl
    rw [← lexeme_peek] at hminus hplus
    exact ⟨rest, hrest, hoperand.primary hminus hplus⟩
  | number hv =>
    intro ts hts
    obtain ⟨_, ts, rfl, rfl⟩ := exists_of_map_lexeme hts
    exact ⟨ts, rfl, .number rfl hv⟩
  | string =>
    intro ts hts
    obtain ⟨_, ts, rfl, rfl⟩ := exists_of_map_lexeme hts
    exact ⟨ts, rfl, .string rfl⟩
  | paren _ ih =>
    intro ts hts
    obtain ⟨_, ts, rfl, rfl⟩ := exists_of_map_lexeme hts
    obtain ⟨rest, hrest, hinner⟩ := ih ts rfl
    obtain ⟨_, rest, rfl, rfl⟩ := exists_of_map_lexeme hrest
    exact ⟨rest, rfl, hinner.paren rfl rfl⟩
  | array _ ih =>
    intro ts hts
    obtain ⟨_, ts, rfl, rfl⟩ := exists_of_map_lexeme hts
    obtain ⟨rest, hrest, hitems⟩ := ih ts rfl
    exact ⟨rest, hrest, hitems.array rfl⟩
  | emptyObject =>
    intro ts hts
    obtain ⟨_, _, rfl, hnext⟩ := exists_of_map_lexeme hts
    obtain ⟨_, ts, rfl, rfl⟩ := exists_of_map_lexeme hnext
    exact ⟨ts, rfl, .emptyObject rfl rfl⟩
  | object hfirst _ ih =>
    intro ts hts
    obtain ⟨_, ts, rfl, rfl⟩ := exists_of_map_lexeme hts
    obtain ⟨rest, hrest, hentries⟩ := ih ts rfl
    exact ⟨rest, hrest, hentries.object rfl (by rwa [← lexeme_peek] at hfirst)⟩
  | constant hv hnext =>
    intro ts hts
    obtain ⟨_, ts, rfl, rfl⟩ := exists_of_map_lexeme hts
    exact ⟨ts, rfl, .constant rfl hv (by rwa [← lexeme_peek] at hnext)⟩
  | call hword hknown _ ih =>
    intro ts hts
    obtain ⟨_, _, rfl, hnext⟩ := exists_of_map_lexeme hts
    obtain ⟨_, ts, rfl, rfl⟩ := exists_of_map_lexeme hnext
    obtain ⟨rest, hrest, hargs⟩ := ih ts rfl
    exact ⟨rest, hrest, hargs.call rfl rfl hword hknown⟩
  | name hword hnext _ ih =>
    intro ts hts
    obtain ⟨_, ts, rfl, rfl⟩ := exists_of_map_lexeme hts
    obtain ⟨rest, hrest, hpath⟩ := ih ts rfl
    rw [← lexeme_peek] at hword hnext
    exact ⟨rest, hrest, hpath.name rfl hword hnext⟩
  | pathEnd hend =>
    rintro ts rfl
    exact ⟨ts, rfl, parses_path (Nat.le_refl _) (pathTail_eq_self hend)⟩
  | part hpart _ ih =>
    intro ts hts
    obtain ⟨_, _, rfl, hnext⟩ := exists_of_map_lexeme hts
    obtain ⟨part, ts, rfl, rfl, rfl⟩ := List.map_eq_cons_iff.1 hnext
    obtain ⟨rest, hrest, hpath⟩ := ih ts rfl
    refine ⟨rest, hrest, hpath.path (by simp only [List.length_cons]; omega) ?_⟩
    have hkind : part.kind = .name ∨ part.kind = .number := hpart
    simp [pathTail, hkind, Token.lexeme]
  | index _ ih =>
    intro ts hts
    obtain ⟨_, _, rfl, hnumber⟩ := exists_of_map_lexeme hts
    obtain ⟨_, _, rfl, hclosing⟩ := exists_of_map_lexeme hnumber
    obtain ⟨_, ts, rfl, rfl⟩ := exists_of_map_lexeme hclosing
    obtain ⟨rest, hrest, hpath⟩ := ih ts rfl
    refine ⟨rest, hrest, hpath.path (by simp only [List.length_cons]; omega) ?_⟩
    simp [pathTail]
  | noArguments =>
    intro ts hts
    obtain ⟨_, ts, rfl, rfl⟩ := exists_of_map_lexeme hts
    exact ⟨ts, rfl, .noArguments rfl⟩
  | arguments hfirst _ ih =>
    rintro ts rfl
    obtain ⟨rest, hrest, hitems⟩ := ih ts rfl
    exact ⟨rest, hrest, hitems.arguments (by rwa [← lexeme_peek] at hfirst)⟩
  | lastItem _ ih =>
    intro ts hts
    obtain ⟨rest, hrest, hitem⟩ := ih ts hts
    obtain ⟨_, rest, rfl, rfl⟩ := exists_of_map_lexeme hrest
    exact ⟨rest, rfl, hitem.lastItem rfl⟩
  | item _ _ ih ihrest =>
    intro ts hts
    obtain ⟨ts', hts', hitem⟩ := ih ts hts
    obtain ⟨_, ts', rfl, rfl⟩ := exists_of_map_lexeme hts'
    obtain ⟨rest, hrest, hitems⟩ := ihrest ts' rfl
    exact ⟨rest, hrest, hitem.item rfl hitems⟩
  | lastEntry hkey _ ih =>
    intro ts hts
    obtain ⟨t, _, rfl, rfl, hcolon⟩ := List.map_eq_cons_iff.1 hts
    obtain ⟨_, ts, rfl, rfl⟩ := exists_of_map_lexeme hcolon
    obtain ⟨rest, hrest, hvalue⟩ := ih ts rfl
    obtain ⟨_, rest, rfl, rfl⟩ := exists_of_map_lexeme hrest
    exact ⟨rest, rfl, hvalue.lastEntry hkey rfl rfl⟩
  | entry hkey _ _ ih ihrest =>
    intro ts hts
    obtain ⟨t, _, rfl, rfl, hcolon⟩ := List.map_eq_cons_iff.1 hts
    obtain ⟨_, ts, rfl, rfl⟩ := exists_of_map_lexeme hcolon
    obtain ⟨ts', hts', hvalue⟩ := ih ts rfl
    obtain ⟨_, ts', rfl, rfl⟩ := exists_of_map_lexeme hts'
    obtain ⟨rest, hrest, hentries⟩ := ihrest ts' rfl
    exact ⟨rest, hrest, hvalue.entry hkey rfl rfl hentries⟩
/-- The parser takes exactly what the grammar reads as an expression, up to the end mark. -/
theorem parseTokens_eq_ok_iff {ts : List Token} {e : Expr} :
    parseTokens functions ts = .ok e ↔
      ∃ ms, Reads functions (.level .disjunction) (ts.map Token.lexeme) e ms ∧ (first ms).kind = .stop := by
  unfold parseTokens
  constructor
  · intro h
    split at h
    · cases h
    · obtain ⟨⟨e', rest⟩, hparse, heq⟩ := bind_eq_ok.1 h
      dsimp only at heq
      split at heq
      · next hstop =>
        cases heq
        have hsound := sound functions (parseFuel ts) (parseFuel ts) (Nat.le_refl _)
        refine ⟨rest.map Token.lexeme, hsound (.level .disjunction) ts e rest hparse, ?_⟩
        rw [← lexeme_peek]
        exact beq_iff_eq.1 hstop
      · cases heq
  · rintro ⟨ms, hreads, hstop⟩
    have hfirst : (first (ts.map Token.lexeme)).kind ≠ .stop := fun hkind => by
      have hbegin := hreads.canBegin rfl
      rw [hkind] at hbegin
      cases hbegin
    obtain ⟨rest, rfl, hparses⟩ := hreads.parses ts rfl
    have hparse := hparses.parse_eq (parseFuel ts) (by simp only [Phrase.depth, parseFuel]; omega)
    rw [← lexeme_peek] at hfirst hstop
    rw [Token.lexeme_kind] at hfirst hstop
    rw [if_neg fun hempty => hfirst (beq_iff_eq.1 hempty)]
    refine bind_eq_ok.2 ⟨(e, rest), hparse, ?_⟩
    dsimp only
    rw [if_pos (beq_iff_eq.2 hstop)]
    rfl

/-- A phrase can be read in one way only. -/
theorem Reads.unique {e' : Expr} {ms' : List Lexeme} (h : Reads functions p ls e ms)
    (h' : Reads functions p ls e' ms') : e = e' ∧ ms = ms' := by
  let ts := ls.map Lexeme.token
  have hts : ts.map Token.lexeme = ls := by
    rw [List.map_map]
    exact List.map_id ls
  obtain ⟨rest, rfl, hparses⟩ := h.parses ts hts
  obtain ⟨rest', rfl, hparses'⟩ := h'.parses ts hts
  let fuel := 20 * ts.length + p.depth
  have hparse := hparses.parse_eq fuel (by omega)
  have hparse' := hparses'.parse_eq fuel (by omega)
  obtain ⟨rfl, rfl⟩ := Prod.mk.inj (Except.ok.inj (hparse.symm.trans hparse'))
  exact ⟨rfl, rfl⟩

/-- Parsing is cutting a text into lexemes and reading them in the grammar up to the end mark. -/
theorem parse_eq_ok_iff {s : String} {e : Expr} :
    parse functions s = .ok e ↔
      ∃ ls, Lexes s.toList ls ∧ Reads functions (.level .disjunction) (ls ++ [stop]) e [stop] := by
  constructor
  · intro h
    obtain ⟨ts, hts, hparse⟩ := bind_eq_ok.1 h
    obtain ⟨ls, hls, hmap⟩ := lexes_of_tokensFrom hts
    obtain ⟨ms, hreads, hstop⟩ := parseTokens_eq_ok_iff.1 hparse
    rw [hmap] at hreads
    obtain rfl := hreads.eq_stop hls.ne_stop hstop
    exact ⟨ls, hls, hreads⟩
  · rintro ⟨ls, hls, hreads⟩
    obtain ⟨ts, hts, hmap⟩ := exists_tokensFrom hls 0
    exact bind_eq_ok.2 ⟨ts, hts, parseTokens_eq_ok_iff.2 ⟨[stop], hmap ▸ hreads, rfl⟩⟩

end Flowline.Expression
