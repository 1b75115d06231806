import Flowline.Expression.Parser

/-! # The grammar of expressions

`Reads functions p ls e ms`: from the lexemes `ls` on, a phrase `p` can be read as the expression `e`, and
`ms` are left. A phrase is what one function of the parser looks for. -/

namespace Flowline.Expression

/-- A token without its place. -/
structure Lexeme where
  kind : TokenKind
  text : String
deriving DecidableEq, Inhabited

def Token.lexeme (t : Token) : Lexeme := ⟨t.kind, t.text⟩

@[simp] theorem Token.lexeme_kind (t : Token) : t.lexeme.kind = t.kind := rfl

@[simp] theorem Token.lexeme_text (t : Token) : t.lexeme.text = t.text := rfl

namespace Lexeme

/-- The lexeme that marks the end. -/
abbrev stop : Lexeme := ⟨.stop, ""⟩

/-- The lexeme at the front; the end mark, where none is left. -/
def first (ls : List Lexeme) : Lexeme := ls.headD stop

def token (l : Lexeme) : Token := ⟨l.kind, l.text, 0⟩

def isKeyword (l : Lexeme) (symbol word : String) : Bool := l.token.isKeyword symbol word

def isSign (l : Lexeme) (sign : String) : Bool := l.kind == .operator && l.text == sign

/-- The key that a lexeme is before a colon. -/
def key? (l : Lexeme) : Option String :=
  match l.kind with
  | .string => some (stringValue l.text)
  | .name => some l.text
  | .number => some l.text
  | _ => none

@[simp] theorem first_cons (l : Lexeme) (ls : List Lexeme) : first (l :: ls) = l := rfl

end Lexeme

open Lexeme

/-! ## Phrases -/

/-- The bracket that ends the items of a call or of a list. -/
inductive Closing
  | paren
  | bracket

def Closing.kind : Closing → TokenKind
  | .paren => .rightParen
  | .bracket => .rightBracket

/-- What the parser looks for: an expression of a rank, what may follow its first operand, an operand with
signs or `not` before it, and the parts of paths, calls, lists and mappings. -/
inductive Phrase
  | level (l : Level)
  | chain (l : Level) (left : Expr)
  | not
  | signed
  | primary
  | path (segments : List String)
  | arguments (closing : Closing)
  | items (closing : Closing)
  | entries

/-- The operands of the operators of a rank. -/
def Level.operand : Level → Phrase
  | .disjunction => .level .conjunction
  | .conjunction => .not
  | .comparison => .level .sum
  | .sum => .level .product
  | .product => .signed

/-- No part of a path follows. -/
def EndsPath : List Lexeme → Prop
  | l :: _ :: _ => l.kind ≠ .dot ∧ l.kind ≠ .leftBracket
  | _ => True

/-- Items between brackets are read as a list, and entries between braces as a mapping. -/
inductive Reads (functions : String → Bool) : Phrase → List Lexeme → Expr → List Lexeme → Prop
  | level {l ls ms ns left e} (hleft : Reads functions l.operand ls left ms)
    (hchain : Reads functions (.chain l left) ms e ns) : Reads functions (.level l) ls e ns
  | chainEnd {l left ls} (hfirst : l.operator? (first ls).token = none) :
    Reads functions (.chain l left) ls left ls
  | chain {l left o ls ms ns op right e} (hop : l.operator? o.token = some op)
    (hright : Reads functions l.operand ls right ms)
    (hrest : Reads functions (.chain l (.binary op left right)) ms e ns) :
    Reads functions (.chain l left) (o :: ls) e ns
  | not {o ls ms e} (ho : o.isKeyword "!" "not" = true) (h : Reads functions .not ls e ms) :
    Reads functions .not (o :: ls) (.unary .not e) ms
  | comparison {ls ms e} (hfirst : (first ls).isKeyword "!" "not" = false)
    (h : Reads functions (.level .comparison) ls e ms) : Reads functions .not ls e ms
  | minus {o ls ms e} (ho : o.isSign "-" = true) (h : Reads functions .signed ls e ms) :
    Reads functions .signed (o :: ls) (.unary .neg e) ms
  | plus {o ls ms e} (ho : o.isSign "+" = true) (h : Reads functions .signed ls e ms) :
    Reads functions .signed (o :: ls) e ms
  | primary {ls ms e} (hminus : (first ls).isSign "-" = false) (hplus : (first ls).isSign "+" = false)
    (h : Reads functions .primary ls e ms) : Reads functions .signed ls e ms
  | number {text ls v} (hv : numberValue text = .ok v) :
    Reads functions .primary (⟨.number, text⟩ :: ls) (.literal v) ls
  | string {text ls} :
    Reads functions .primary (⟨.string, text⟩ :: ls) (.literal (.str (stringValue text))) ls
  | paren {opening closing ls ms e}
    (h : Reads functions (.level .disjunction) ls e (⟨.rightParen, closing⟩ :: ms)) :
    Reads functions .primary (⟨.leftParen, opening⟩ :: ls) e ms
  | array {opening ls ms e} (h : Reads functions (.arguments .bracket) ls e ms) :
    Reads functions .primary (⟨.leftBracket, opening⟩ :: ls) e ms
  | emptyObject {opening closing ls} :
    Reads functions .primary (⟨.leftBrace, opening⟩ :: ⟨.rightBrace, closing⟩ :: ls) (.object []) ls
  | object {opening ls ms e} (hfirst : (first ls).kind ≠ .rightBrace) (h : Reads functions .entries ls e ms) :
    Reads functions .primary (⟨.leftBrace, opening⟩ :: ls) e ms
  | constant {text ls v} (hv : constant? text = some v) (hnext : (first ls).kind ≠ .dot) :
    Reads functions .primary (⟨.name, text⟩ :: ls) (.literal v) ls
  | call {text opening ls ms args} (hword : constant? text = none) (hknown : functions text = true)
    (h : Reads functions (.arguments .paren) ls (.array args) ms) :
    Reads functions .primary (⟨.name, text⟩ :: ⟨.leftParen, opening⟩ :: ls) (.call text args) ms
  | name {text ls ms e} (hword : constant? text = none ∨ (first ls).kind = .dot)
    (hnext : (first ls).kind ≠ .leftParen) (h : Reads functions (.path [text]) ls e ms) :
    Reads functions .primary (⟨.name, text⟩ :: ls) e ms
  | pathEnd {segments ls} (hend : EndsPath ls) :
    Reads functions (.path segments) ls (.variable (".".intercalate segments)) ls
  | part {segments dot part ls ms e} (hpart : part.kind = .name ∨ part.kind = .number)
    (h : Reads functions (.path (segments ++ [part.text])) ls e ms) :
    Reads functions (.path segments) (⟨.dot, dot⟩ :: part :: ls) e ms
  | index {segments opening n closing ls ms e} (h : Reads functions (.path (segments ++ [n])) ls e ms) :
    Reads functions (.path segments)
      (⟨.leftBracket, opening⟩ :: ⟨.number, n⟩ :: ⟨.rightBracket, closing⟩ :: ls) e ms
  | noArguments {closing text ls} :
    Reads functions (.arguments closing) (⟨closing.kind, text⟩ :: ls) (.array []) ls
  | arguments {closing ls ms e} (hfirst : (first ls).kind ≠ closing.kind)
    (h : Reads functions (.items closing) ls e ms) : Reads functions (.arguments closing) ls e ms
  | lastItem {closing text ls ms e}
    (h : Reads functions (.level .disjunction) ls e (⟨closing.kind, text⟩ :: ms)) :
    Reads functions (.items closing) ls (.array [e]) ms
  | item {closing comma ls ms ns e es} (h : Reads functions (.level .disjunction) ls e (⟨.comma, comma⟩ :: ms))
    (hrest : Reads functions (.items closing) ms (.array es) ns) :
    Reads functions (.items closing) ls (.array (e :: es)) ns
  | lastEntry {name key colon closing ls ms e} (hkey : name.key? = some key)
    (h : Reads functions (.level .disjunction) ls e (⟨.rightBrace, closing⟩ :: ms)) :
    Reads functions .entries (name :: ⟨.colon, colon⟩ :: ls) (.object [(key, e)]) ms
  | entry {name key colon comma ls ms ns e es} (hkey : name.key? = some key)
    (h : Reads functions (.level .disjunction) ls e (⟨.comma, comma⟩ :: ms))
    (hrest : Reads functions .entries ms (.object es) ns) :
    Reads functions .entries (name :: ⟨.colon, colon⟩ :: ls) (.object ((key, e) :: es)) ns

/-! ## The end mark -/

variable {functions : String → Bool} {p : Phrase} {ls ms : List Lexeme} {e : Expr}

theorem kind_ne_stop_of_operator? {t : Token} {l : Level} {op : BinaryOp} (h : l.operator? t = some op) :
    t.kind ≠ .stop := by
  intro hkind
  cases l <;> simp [Level.operator?, Token.isKeyword, hkind] at h

theorem kind_ne_stop_of_isKeyword {t : Token} {symbol word : String} (h : t.isKeyword symbol word = true) :
    t.kind ≠ .stop := by
  intro hkind
  simp [Token.isKeyword, hkind] at h

theorem Lexeme.isSign_iff {l : Lexeme} {sign : String} : l.isSign sign = true ↔ l = ⟨.operator, sign⟩ := by
  cases l
  simp [Lexeme.isSign]

theorem Lexeme.kind_of_key? {l : Lexeme} {key : String} (h : l.key? = some key) :
    l.kind = .string ∨ l.kind = .name ∨ l.kind = .number := by
  unfold Lexeme.key? at h
  split at h <;> simp_all

theorem Lexeme.kind_ne_stop_of_key? {l : Lexeme} {key : String} (h : l.key? = some key) : l.kind ≠ .stop := by
  rcases Lexeme.kind_of_key? h with hkind | hkind | hkind <;> simp [hkind]

theorem Closing.kind_ne_stop (closing : Closing) : closing.kind ≠ .stop := by
  cases closing <;> decide

/-- The lexemes `ms` are left of `ls`, and no end mark has been taken. -/
def Leaves (ls ms : List Lexeme) : Prop := ∃ ks, ls = ks ++ ms ∧ ∀ k ∈ ks, k.kind ≠ .stop

namespace Leaves

variable {ns : List Lexeme} {l : Lexeme}

theorem refl (ls : List Lexeme) : Leaves ls ls := ⟨[], rfl, nofun⟩

theorem trans (h : Leaves ls ms) (h' : Leaves ms ns) : Leaves ls ns := by
  obtain ⟨ks, rfl, hks⟩ := h
  obtain ⟨ks', rfl, hks'⟩ := h'
  exact ⟨ks ++ ks', by simp, List.forall_mem_append.2 ⟨hks, hks'⟩⟩

theorem cons (hl : l.kind ≠ .stop) (h : Leaves ls ms) : Leaves (l :: ls) ms := by
  obtain ⟨ks, rfl, hks⟩ := h
  exact ⟨l :: ks, rfl, List.forall_mem_cons.2 ⟨hl, hks⟩⟩

theorem tail (hl : l.kind ≠ .stop) (h : Leaves ls (l :: ms)) : Leaves ls ms :=
  h.trans (cons hl (refl ms))

end Leaves

/-- A phrase is read from the front, and never beyond the end mark. -/
theorem Reads.leaves (h : Reads functions p ls e ms) : Leaves ls ms := by
  induction h with
  | level _ _ ihleft ihchain => exact ihleft.trans ihchain
  | chainEnd | pathEnd => exact .refl _
  | chain hop _ _ ihright ihrest => exact .cons (kind_ne_stop_of_operator? hop) (ihright.trans ihrest)
  | not ho _ ih => exact ih.cons (kind_ne_stop_of_isKeyword ho)
  | comparison _ _ ih | primary _ _ _ ih | arguments _ _ ih => exact ih
  | minus ho _ ih | plus ho _ ih =>
    obtain rfl := Lexeme.isSign_iff.1 ho
    exact ih.cons (by decide)
  | number | string | constant => exact .cons (by simp) (.refl _)
  | paren _ ih => exact (ih.tail (by simp)).cons (by simp)
  | array _ ih | object _ _ ih | name _ _ _ ih => exact ih.cons (by simp)
  | emptyObject => exact .cons (by simp) (.cons (by simp) (.refl _))
  | call _ _ _ ih => exact (ih.cons (by simp)).cons (by simp)
  | part hpart _ ih =>
    refine .cons (by simp) (.cons ?_ ih)
    rcases hpart with hkind | hkind <;> simp [hkind]
  | index _ ih => exact ((ih.cons (by simp)).cons (by simp)).cons (by simp)
  | noArguments => exact .cons (Closing.kind_ne_stop _) (.refl _)
  | lastItem _ ih => exact ih.tail (Closing.kind_ne_stop _)
  | item _ _ ih ihrest => exact (ih.tail (by simp)).trans ihrest
  | lastEntry hkey _ ih => exact ((ih.tail (by simp)).cons (by simp)).cons (kind_ne_stop_of_key? hkey)
  | entry hkey _ _ ih ihrest =>
    exact (((ih.tail (by simp)).trans ihrest).cons (by simp)).cons (kind_ne_stop_of_key? hkey)

/-- Before the end mark something is left. -/
theorem Reads.eq_stop (h : Reads functions p (ls ++ [stop]) e ms) (hls : ∀ l ∈ ls, l.kind ≠ .stop)
    (hstop : (first ms).kind = .stop) : ms = [stop] := by
  obtain ⟨ks, hks, hkinds⟩ := h.leaves
  rcases List.append_eq_append_iff.1 hks with ⟨taken, rfl, hms⟩ | ⟨left, rfl, rfl⟩
  · cases taken with
    | nil => exact hms.symm
    | cons l taken =>
      obtain rfl := (List.cons.inj hms).1
      exact absurd rfl (hkinds stop (by simp))
  · cases left with
    | nil => rfl
    | cons l left => exact absurd hstop (hls l (by simp))

/-- The kinds of lexemes that an operand, a list of items or one of entries begins with. -/
def TokenKind.canBegin : TokenKind → Bool
  | .number | .string | .name | .operator | .leftParen | .leftBracket | .leftBrace => true
  | _ => false

def Phrase.isOperand : Phrase → Bool
  | .level _ | .not | .signed | .primary | .items _ | .entries => true
  | .chain .. | .path _ | .arguments _ => false

theorem Level.isOperand_operand (l : Level) : l.operand.isOperand = true := by
  cases l <;> rfl

theorem Reads.canBegin (h : Reads functions p ls e ms) (hp : p.isOperand = true) :
    (first ls).kind.canBegin = true := by
  induction h with
  | chainEnd | chain | pathEnd | part | index | noArguments | arguments => cases hp
  | @level l _ _ _ _ _ _ _ ihleft _ => exact ihleft l.isOperand_operand
  | not ho =>
    rcases (by simpa [Lexeme.isKeyword, Token.isKeyword, Lexeme.token] using ho) with ⟨hkind, -⟩ | ⟨hkind, -⟩ <;>
      simp [hkind, TokenKind.canBegin]
  | minus ho | plus ho =>
    obtain rfl := Lexeme.isSign_iff.1 ho
    rfl
  | comparison _ _ ih | primary _ _ _ ih | lastItem _ ih | item _ _ ih _ => exact ih rfl
  | lastEntry hkey | entry hkey =>
    rw [first_cons]
    rcases Lexeme.kind_of_key? hkey with hkind | hkind | hkind <;> rw [hkind] <;> rfl
  | _ => rfl

end Flowline.Expression
