import Flowline.Proofs.Expression.Grammar

/-! # What the parser reads

An expression that the parser finds is in the grammar, with the tokens that are left: each function of the
parser takes a step of the grammar, if the functions that it calls do. -/

namespace Flowline.Expression

open Lexeme

variable {functions : String → Bool} {p : Phrase} {ls ms : List Lexeme} {e : Expr}

/-! ## The parser and its tokens -/

/-- The part of the parser that reads a phrase. -/
def Phrase.parse (functions : String → Bool) (fuel : Nat) (p : Phrase) (ts : List Token) :
    Except ExpressionFault (Expr × List Token) :=
  match p with
  | .level l => parseLevel functions fuel l ts
  | .chain l left => parseChain functions fuel l left ts
  | .not => parseNot functions fuel ts
  | .signed => parseSigned functions fuel ts
  | .primary => parsePrimary functions fuel ts
  | .path segments => do
    let (segments, rest) ← pathTail segments ts
    return (.variable (".".intercalate segments), rest)
  | .arguments closing => do
    let (es, rest) ← parseArguments functions fuel closing.kind ts
    return (.array es, rest)
  | .items closing => do
    let (es, rest) ← parseItems functions fuel closing.kind ts
    return (.array es, rest)
  | .entries => do
    let (es, rest) ← parseEntries functions fuel ts
    return (.object es, rest)

theorem parseOperand_succ (fuel : Nat) (l : Level) (ts : List Token) :
    parseOperand functions (fuel + 1) l ts = l.operand.parse functions fuel ts := by
  cases l <;> rfl

variable {ts rest : List Token} {t : Token}

theorem lexeme_peek (ts : List Token) : (peek ts).lexeme = first (ts.map Token.lexeme) := by
  cases ts <;> rfl

theorem operator?_lexeme (l : Level) (t : Token) : l.operator? t.lexeme.token = l.operator? t := by
  cases l <;> rfl

theorem isKeyword_lexeme (t : Token) (symbol word : String) :
    t.lexeme.isKeyword symbol word = t.isKeyword symbol word := rfl

@[simp] theorem peek_cons (t : Token) (ts : List Token) : peek (t :: ts) = t := rfl

theorem advance_cons (hstop : t.kind ≠ .stop) : advance (t :: ts) = ts := by
  simp [advance, beq_false_of_ne hstop]
/-- The parser takes one token, which is not the end mark. -/
theorem map_lexeme (hstop : (peek ts).kind ≠ .stop) :
    ts.map Token.lexeme = (peek ts).lexeme :: (advance ts).map Token.lexeme := by
  cases ts with
  | nil => exact absurd rfl hstop
  | cons t rest =>
    rw [peek_cons] at hstop
    rw [advance_cons hstop, peek_cons, List.map_cons]

theorem map_lexeme_of_kind {kind : TokenKind} (hstop : kind ≠ .stop) (hkind : (peek ts).kind = kind) :
    ts.map Token.lexeme = ⟨kind, (peek ts).text⟩ :: (advance ts).map Token.lexeme := by
  subst hkind
  exact map_lexeme hstop

theorem map_lexeme_of_expect {kind : TokenKind} (hstop : kind ≠ .stop)
    (h : expect kind ts = .ok (t, rest)) :
    ts.map Token.lexeme = ⟨kind, t.text⟩ :: rest.map Token.lexeme := by
  unfold expect at h
  dsimp only at h
  split at h
  · next hkind =>
    cases h
    exact map_lexeme_of_kind hstop (beq_iff_eq.1 hkind)
  · cases h

/-! ## What the parser reads -/

theorem reads_of_pathTail {segments all : List String} (h : pathTail segments ts = .ok (all, rest)) :
    Reads functions (.path segments) (ts.map Token.lexeme) (.variable (".".intercalate all))
      (rest.map Token.lexeme) := by
  fun_induction pathTail segments ts with
  | case1 segments t part rest' hkind hpart ih =>
    have hdot : t.lexeme = ⟨.dot, t.text⟩ := by simp [Token.lexeme, hkind]
    simp only [List.map_cons, hdot]
    exact .part (by simpa [Token.lexeme] using hpart) (ih h)
  | case3 segments t index bracket rest' hkind hindex hbracket ih =>
    have hopening : t.lexeme = ⟨.leftBracket, t.text⟩ := by simp [Token.lexeme, hkind]
    have hnumber : index.lexeme = ⟨.number, index.text⟩ := by simp_all [Token.lexeme]
    have hclosing : bracket.lexeme = ⟨.rightBracket, bracket.text⟩ := by simp_all [Token.lexeme]
    simp only [List.map_cons, hopening, hnumber, hclosing]
    exact .index (ih h)
  | case7 segments t rest' hdot hbracket hlast =>
    cases h
    refine .pathEnd ?_
    match rest' with
    | [] => trivial
    | [l] => exact ⟨fun hkind => hdot l [] hkind rfl, fun hkind => hlast l hkind rfl⟩
    | l :: m :: ns =>
      exact ⟨fun hkind => hdot l (m :: ns) hkind rfl, fun hkind => hbracket l m ns hkind rfl⟩
  | case8 segments => cases h; exact .pathEnd trivial
  | _ => cases h

/-- What the parser reads with so much fuel is in the grammar. -/
def Sound (functions : String → Bool) (fuel : Nat) : Prop :=
  ∀ f ≤ fuel, ∀ (p : Phrase) (ts : List Token) (e : Expr) (rest : List Token),
    p.parse functions f ts = .ok (e, rest) →
      Reads functions p (ts.map Token.lexeme) e (rest.map Token.lexeme)

section Sound

variable {fuel : Nat} {l : Level} {left : Expr} {closing : Closing}

theorem Sound.operand (h : Sound functions fuel) (hparse : parseOperand functions fuel l ts = .ok (e, rest)) :
    Reads functions l.operand (ts.map Token.lexeme) e (rest.map Token.lexeme) := by
  cases fuel with
  | zero => cases hparse
  | succ fuel => exact h fuel (Nat.le_succ fuel) _ _ _ _ (parseOperand_succ fuel l ts ▸ hparse)

theorem Sound.level (h : Sound functions fuel)
    (hparse : parseLevel functions (fuel + 1) l ts = .ok (e, rest)) :
    Reads functions (.level l) (ts.map Token.lexeme) e (rest.map Token.lexeme) := by
  obtain ⟨⟨left, ts'⟩, hleft, hchain⟩ := bind_eq_ok.1 hparse
  exact .level (h.operand hleft) (h fuel (Nat.le_refl fuel) (.chain l left) _ _ _ hchain)

theorem Sound.chain (h : Sound functions fuel)
    (hparse : parseChain functions (fuel + 1) l left ts = .ok (e, rest)) :
    Reads functions (.chain l left) (ts.map Token.lexeme) e (rest.map Token.lexeme) := by
  unfold parseChain at hparse
  dsimp only at hparse
  split at hparse
  · next hnone =>
    cases hparse
    exact .chainEnd (by rwa [← lexeme_peek, operator?_lexeme])
  · next op hop =>
    obtain ⟨⟨right, ts'⟩, hright, hrest⟩ := bind_eq_ok.1 hparse
    rw [map_lexeme (kind_ne_stop_of_operator? hop)]
    exact .chain (operator?_lexeme l (peek ts) ▸ hop) (h.operand hright)
      (h fuel (Nat.le_refl fuel) (.chain l (.binary op left right)) _ _ _ hrest)

theorem Sound.not (h : Sound functions fuel) (hparse : parseNot functions (fuel + 1) ts = .ok (e, rest)) :
    Reads functions .not (ts.map Token.lexeme) e (rest.map Token.lexeme) := by
  unfold parseNot at hparse
  dsimp only at hparse
  split at hparse
  · next hword =>
    obtain ⟨⟨operand, ts'⟩, hoperand, heq⟩ := bind_eq_ok.1 hparse
    cases heq
    rw [map_lexeme (kind_ne_stop_of_isKeyword hword)]
    exact .not (isKeyword_lexeme (peek ts) _ _ ▸ hword) (h fuel (Nat.le_refl fuel) .not _ _ _ hoperand)
  · next hword =>
    refine .comparison ?_ (h fuel (Nat.le_refl fuel) (.level .comparison) _ _ _ hparse)
    rw [← lexeme_peek, isKeyword_lexeme]
    exact Bool.eq_false_iff.2 hword

theorem Sound.signed (h : Sound functions fuel)
    (hparse : parseSigned functions (fuel + 1) ts = .ok (e, rest)) :
    Reads functions .signed (ts.map Token.lexeme) e (rest.map Token.lexeme) := by
  have hcons (hoperator : ((peek ts).kind == .operator) = true) :
      ts.map Token.lexeme = (peek ts).lexeme :: (advance ts).map Token.lexeme :=
    map_lexeme fun hstop => by simp [hstop] at hoperator
  unfold parseSigned at hparse
  dsimp only at hparse
  split at hparse
  · next hminus =>
    obtain ⟨⟨operand, ts'⟩, hoperand, heq⟩ := bind_eq_ok.1 hparse
    cases heq
    rw [hcons (Bool.and_eq_true_iff.1 hminus).1]
    exact .minus hminus (h fuel (Nat.le_refl fuel) .signed _ _ _ hoperand)
  · next hminus =>
    split at hparse
    · next hplus =>
      rw [hcons (Bool.and_eq_true_iff.1 hplus).1]
      exact .plus hplus (h fuel (Nat.le_refl fuel) .signed _ _ _ hparse)
    · next hplus =>
      refine .primary ?_ ?_ (h fuel (Nat.le_refl fuel) .primary _ _ _ hparse)
      · exact lexeme_peek ts ▸ Bool.eq_false_iff.2 hminus
      · exact lexeme_peek ts ▸ Bool.eq_false_iff.2 hplus
theorem Sound.arguments (h : Sound functions fuel) {es : List Expr}
    (hparse : parseArguments functions (fuel + 1) closing.kind ts = .ok (es, rest)) :
    Reads functions (.arguments closing) (ts.map Token.lexeme) (.array es) (rest.map Token.lexeme) := by
  unfold parseArguments at hparse
  split at hparse
  · next hclosing =>
    cases hparse
    rw [map_lexeme_of_kind closing.kind_ne_stop (beq_iff_eq.1 hclosing)]
    exact .noArguments
  · next hclosing =>
    refine .arguments ?_ (h fuel (Nat.le_refl fuel) (.items closing) _ _ _ ?_)
    · rw [← lexeme_peek]
      exact fun hkind => hclosing (beq_iff_eq.2 hkind)
    · exact bind_eq_ok.2 ⟨_, hparse, rfl⟩

theorem Sound.items (h : Sound functions fuel) {es : List Expr}
    (hparse : parseItems functions (fuel + 1) closing.kind ts = .ok (es, rest)) :
    Reads functions (.items closing) (ts.map Token.lexeme) (.array es) (rest.map Token.lexeme) := by
  obtain ⟨⟨item, ts'⟩, hitem, hparse⟩ := bind_eq_ok.1 hparse
  replace hitem := h fuel (Nat.le_refl fuel) (.level .disjunction) _ _ _ hitem
  dsimp only at hparse
  split at hparse
  · next hcomma =>
    obtain ⟨⟨items, ts''⟩, hitems, heq⟩ := bind_eq_ok.1 hparse
    cases heq
    rw [map_lexeme_of_kind (by decide) (beq_iff_eq.1 hcomma)] at hitem
    exact .item hitem
      (h fuel (Nat.le_refl fuel) (.items closing) _ (.array items) _ (bind_eq_ok.2 ⟨_, hitems, rfl⟩))
  · obtain ⟨⟨t, ts''⟩, hclosing, heq⟩ := bind_eq_ok.1 hparse
    cases heq
    rw [map_lexeme_of_expect closing.kind_ne_stop hclosing] at hitem
    exact .lastItem hitem

theorem Sound.entries (h : Sound functions fuel) {es : List (String × Expr)}
    (hparse : parseEntries functions (fuel + 1) ts = .ok (es, rest)) :
    Reads functions .entries (ts.map Token.lexeme) (.object es) (rest.map Token.lexeme) := by
  obtain ⟨key, hkey, hparse⟩ := bind_eq_ok.1 hparse
  obtain ⟨⟨colon, ts'⟩, hcolon, hparse⟩ := bind_eq_ok.1 hparse
  obtain ⟨⟨value, ts''⟩, hvalue, hparse⟩ := bind_eq_ok.1 hparse
  have hvalue := h fuel (Nat.le_refl fuel) (.level .disjunction) _ _ _ hvalue
  have hname : (peek ts).lexeme.key? = some key ∧
      ts.map Token.lexeme = (peek ts).lexeme :: (advance ts).map Token.lexeme := by
    unfold entryKey at hkey
    split at hkey <;> cases hkey <;> simp_all [Lexeme.key?, Token.lexeme, map_lexeme]
  rw [hname.2, map_lexeme_of_expect (by decide) hcolon]
  dsimp only at hparse
  split at hparse
  · next hcomma =>
    obtain ⟨⟨entries, rest'⟩, hentries, heq⟩ := bind_eq_ok.1 hparse
    cases heq
    rw [map_lexeme_of_kind (by decide) (beq_iff_eq.1 hcomma)] at hvalue
    exact .entry hname.1 hvalue
      (h fuel (Nat.le_refl fuel) .entries _ (.object entries) _ (bind_eq_ok.2 ⟨_, hentries, rfl⟩))
  · obtain ⟨⟨t, rest'⟩, hclosing, heq⟩ := bind_eq_ok.1 hparse
    cases heq
    rw [map_lexeme_of_expect (by decide) hclosing] at hvalue
    exact .lastEntry hname.1 hvalue

theorem Sound.primary (h : Sound functions fuel)
    (hparse : parsePrimary functions (fuel + 1) ts = .ok (e, rest)) :
    Reads functions .primary (ts.map Token.lexeme) e (rest.map Token.lexeme) := by
  unfold parsePrimary at hparse
  dsimp only at hparse
  split at hparse
  · next hkind =>
    obtain ⟨v, hv, heq⟩ := bind_eq_ok.1 hparse
    cases heq
    rw [map_lexeme_of_kind (by decide) hkind]
    exact .number hv
  · next hkind =>
    cases hparse
    rw [map_lexeme_of_kind (by decide) hkind]
    exact .string
  · next hkind =>
    obtain ⟨⟨inner, ts'⟩, hinner, hparse⟩ := bind_eq_ok.1 hparse
    obtain ⟨⟨t, ts''⟩, hclosing, heq⟩ := bind_eq_ok.1 hparse
    cases heq
    replace hinner := h fuel (Nat.le_refl fuel) (.level .disjunction) _ _ _ hinner
    rw [map_lexeme_of_expect (by decide) hclosing] at hinner
    rw [map_lexeme_of_kind (by decide) hkind]
    exact .paren hinner
  · next hkind =>
    obtain ⟨⟨items, ts'⟩, hitems, heq⟩ := bind_eq_ok.1 hparse
    cases heq
    rw [map_lexeme_of_kind (by decide) hkind]
    exact .array
      (h fuel (Nat.le_refl fuel) (.arguments .bracket) _ (.array items) _ (bind_eq_ok.2 ⟨_, hitems, rfl⟩))
  · next hkind =>
    rw [map_lexeme_of_kind (by decide) hkind]
    split at hparse
    · next hclosing =>
      cases hparse
      rw [map_lexeme_of_kind (by decide) (beq_iff_eq.1 hclosing)]
      exact .emptyObject
    · next hclosing =>
      obtain ⟨⟨entries, ts'⟩, hentries, heq⟩ := bind_eq_ok.1 hparse
      cases heq
      refine .object ?_
        (h fuel (Nat.le_refl fuel) .entries _ (.object entries) _ (bind_eq_ok.2 ⟨_, hentries, rfl⟩))
      rw [← lexeme_peek]
      exact fun hkind => hclosing (beq_iff_eq.2 hkind)
  · next hkind =>
    rw [map_lexeme_of_kind (by decide) hkind]
    have hpath (hword : constant? (peek ts).text = none ∨ (peek (advance ts)).kind = .dot)
        (hnext : (peek (advance ts)).kind ≠ .leftParen)
        (hparse : parsePath (peek ts) (advance ts) = .ok (e, rest)) :
        Reads functions .primary (⟨.name, (peek ts).text⟩ :: (advance ts).map Token.lexeme) e
          (rest.map Token.lexeme) := by
      obtain ⟨⟨all, ts'⟩, hall, heq⟩ := bind_eq_ok.1 hparse
      cases heq
      exact .name (lexeme_peek (advance ts) ▸ hword) (lexeme_peek (advance ts) ▸ hnext) (reads_of_pathTail hall)
    split at hparse
    · next v hv =>
      split at hparse
      · next hnext =>
        cases hparse
        refine .constant hv ?_
        rw [← lexeme_peek]
        exact bne_iff_ne.1 hnext
      · next hdot =>
        have hdot : (peek (advance ts)).kind = .dot := by simpa using hdot
        exact hpath (.inr hdot) (by simp [hdot]) hparse
    · next hnone =>
      split at hparse
      · next hparen =>
        split at hparse
        · next hknown =>
          obtain ⟨⟨args, ts'⟩, hargs, heq⟩ := bind_eq_ok.1 hparse
          cases heq
          rw [map_lexeme_of_kind (by decide) (beq_iff_eq.1 hparen)]
          exact .call hnone hknown
            (h fuel (Nat.le_refl fuel) (.arguments .paren) _ (.array args) _ (bind_eq_ok.2 ⟨_, hargs, rfl⟩))
        · cases hparse
      · next hparen => exact hpath (.inl hnone) (fun hkind => hparen (beq_iff_eq.2 hkind)) hparse
  · cases hparse

end Sound

theorem sound (functions : String → Bool) (fuel : Nat) : Sound functions fuel := by
  induction fuel with
  | zero =>
    intro f hf p ts e rest hparse
    obtain rfl := Nat.le_zero.1 hf
    cases p with
    | path segments =>
      obtain ⟨⟨all, rest'⟩, hpath, heq⟩ := bind_eq_ok.1 hparse
      cases heq
      exact reads_of_pathTail hpath
    | _ => cases hparse
  | succ fuel ih =>
    intro f hf p ts e rest hparse
    rcases Nat.le_succ_iff.1 hf with hle | rfl
    · exact ih f hle p ts e rest hparse
    · cases p with
      | level l => exact ih.level hparse
      | chain l left => exact ih.chain hparse
      | not => exact ih.not hparse
      | signed => exact ih.signed hparse
      | primary => exact ih.primary hparse
      | path segments =>
        obtain ⟨⟨all, rest'⟩, hpath, heq⟩ := bind_eq_ok.1 hparse
        cases heq
        exact reads_of_pathTail hpath
      | arguments closing =>
        obtain ⟨⟨es, rest'⟩, hes, heq⟩ := bind_eq_ok.1 hparse
        cases heq
        exact ih.arguments hes
      | items closing =>
        obtain ⟨⟨es, rest'⟩, hes, heq⟩ := bind_eq_ok.1 hparse
        cases heq
        exact ih.items hes
      | entries =>
        obtain ⟨⟨es, rest'⟩, hes, heq⟩ := bind_eq_ok.1 hparse
        cases heq
        exact ih.entries hes
end Flowline.Expression
