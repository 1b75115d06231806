import Flowline.Proofs.Expression.Paths
import Flowline.Proofs.Expression.Precedence

/-! # Writing expressions

`Writes (.whole e) words` says that the words, with blanks between them, are a way to write the tree `e`
with brackets only where an operand holds less tightly than its place asks for: at least as tightly as the
operator on its left, and more tightly on its right. There is a choice of spellings for operators, constants,
strings and keys. Whatever is chosen, the parser finds the tree again (`parse_written`). -/

namespace Flowline.Expression

open Lexeme Text

/-- The trees that can be written: numbers are natural and not too large for a numeral, paths begin with an
identifier, and only known functions are called. -/
inductive Writable (functions : String → Bool) : Expr → Prop
  | null : Writable functions (.literal .null)
  | bool (b : Bool) : Writable functions (.literal (.bool b))
  | natural {n : Nat} (hn : n < 10 ^ 308) : Writable functions (.literal (.int n))
  | string (s : String) : Writable functions (.literal (.str s))
  | path (p : VariablePath) : Writable functions (.variable p.text)
  | call {name args} (hname : IsIdentifier name) (hknown : functions name = true)
    (hargs : ∀ e ∈ args, Writable functions e) : Writable functions (.call name args)
  | unary {op e} (h : Writable functions e) : Writable functions (.unary op e)
  | binary {op left right} (hleft : Writable functions left) (hright : Writable functions right) :
    Writable functions (.binary op left right)
  | array {items} (h : ∀ e ∈ items, Writable functions e) : Writable functions (.array items)
  | object {entries : List (String × Expr)} (h : ∀ p ∈ entries, Writable functions p.2) :
    Writable functions (.object entries)

/-! ## Words -/

/-- The spelling of an operator without letters. -/
def signOf : BinaryOp → String
  | .or => "||"
  | .and => "&&"
  | op => op.symbol

/-- Two operators are words too, in letters of either case. -/
def BinarySpelling (text : String) (op : BinaryOp) : Prop :=
  text = signOf op ∨ (op = .or ∨ op = .and) ∧ text.toLower = op.symbol

def NotSpelling (text : String) : Prop := text = "!" ∨ text.toLower = "not"

/-- A key is a string, or stands as it is where it is a word or digits. -/
def KeySpelling (text key : String) : Prop := Quoted key text ∨ text = key ∧ IsSegment key.toList

/-- What is written: a whole expression, an operand that has to hold so tightly, or what stands between
brackets. -/
inductive Fragment
  | whole (e : Expr)
  | operand (tightness : Nat) (e : Expr)
  | items (es : List Expr)
  | entries (es : List (String × Expr))

inductive Writes : Fragment → List String → Prop
  | null {text} (h : text.toLower = "null") : Writes (.whole (.literal .null)) [text]
  | bool {b : Bool} {text} (h : text.toLower = if b then "true" else "false") :
    Writes (.whole (.literal (.bool b))) [text]
  | natural (n : Nat) : Writes (.whole (.literal (.int n))) [toString n]
  | string {s text} (h : Quoted s text) : Writes (.whole (.literal (.str s))) [text]
  | path {p : VariablePath} {text cs} (hparts : Dotted p.segments cs) (htext : text.toList = p.name.toList ++ cs) :
    Writes (.whole (.variable p.text)) [text]
  | call {name args words} (h : Writes (.items args) words) :
    Writes (.whole (.call name args)) (name :: "(" :: (words ++ [")"]))
  | not {text e words} (htext : NotSpelling text) (h : Writes (.operand UnaryOp.not.tightness e) words) :
    Writes (.whole (.unary .not e)) (text :: words)
  | neg {e words} (h : Writes (.operand UnaryOp.neg.tightness e) words) :
    Writes (.whole (.unary .neg e)) ("-" :: words)
  | binary {op text left right words more} (htext : BinarySpelling text op)
    (hleft : Writes (.operand op.tightness left) words)
    (hright : Writes (.operand (op.tightness + 1) right) more) :
    Writes (.whole (.binary op left right)) (words ++ text :: more)
  | array {items words} (h : Writes (.items items) words) :
    Writes (.whole (.array items)) ("[" :: (words ++ ["]"]))
  | object {entries words} (h : Writes (.entries entries) words) :
    Writes (.whole (.object entries)) ("\x7b" :: (words ++ ["\x7d"]))
  | bare {n e words} (htight : n ≤ e.tightness) (h : Writes (.whole e) words) : Writes (.operand n e) words
  | bracketed {n e words} (hloose : e.tightness < n) (h : Writes (.whole e) words) :
    Writes (.operand n e) ("(" :: (words ++ [")"]))
  | noItems : Writes (.items []) []
  | lastItem {e words} (h : Writes (.whole e) words) : Writes (.items [e]) words
  | item {e es words more} (h : Writes (.whole e) words) (hne : es ≠ []) (hrest : Writes (.items es) more) :
    Writes (.items (e :: es)) (words ++ "," :: more)
  | noEntries : Writes (.entries []) []
  | lastEntry {key text e words} (hkey : KeySpelling text key) (h : Writes (.whole e) words) :
    Writes (.entries [(key, e)]) (text :: ":" :: words)
  | entry {key text e es words more} (hkey : KeySpelling text key) (h : Writes (.whole e) words) (hne : es ≠ [])
    (hrest : Writes (.entries es) more) : Writes (.entries ((key, e) :: es)) (text :: ":" :: (words ++ "," :: more))

/-- The words stand in the text in order, with blanks between them and perhaps at the ends. -/
inductive Spread : List String → List Char → Prop
  | nil {blanks} (h : IsBlanks blanks) : Spread [] blanks
  | cons {word words before cs} (hbefore : IsBlanks before) (hgap : ∀ c ∈ cs.head?, isBlank c = true)
    (h : Spread words cs) : Spread (word :: words) (before ++ (word.toList ++ cs))

/-- The lexemes of the words, put together. -/
inductive Cut : List String → List Lexeme → Prop
  | nil : Cut [] []
  | cons {word words ls ms} (h : Lexes word.toList ls) (hrest : Cut words ms) : Cut (word :: words) (ls ++ ms)

variable {functions : String → Bool} {words more : List String} {cs : List Char} {ls ms : List Lexeme}
  {text word : String}

theorem Spread.blank {c : Char} (hc : isBlank c = true) (h : Spread words cs) : Spread words (c :: cs) := by
  cases h with
  | nil h => exact .nil (List.forall_mem_cons.2 ⟨hc, h⟩)
  | cons hbefore hgap h =>
    rw [← List.cons_append]
    exact .cons (List.forall_mem_cons.2 ⟨hc, hbefore⟩) hgap h

theorem spread_intercalate (words : List String) : Spread words (" ".intercalate words).toList := by
  have hnone : IsBlanks [] := by rintro _ ⟨⟩
  induction words with
  | nil => exact .nil hnone
  | cons word words ih =>
    cases words with
    | nil =>
      have hend : ∀ c ∈ ([] : List Char).head?, isBlank c = true := by rintro _ ⟨⟩
      have hword : Spread [word] ([] ++ (word.toList ++ [])) := .cons hnone hend (.nil hnone)
      simpa using hword
    | cons next words =>
      have hblank : isBlank ' ' = true := rfl
      have hgap : ∀ c ∈ (' ' :: (" ".intercalate (next :: words)).toList).head?, isBlank c = true := by
        rintro _ ⟨⟩
        exact hblank
      have hspread : Spread (word :: next :: words) ([] ++ (word.toList ++ ' ' :: (" ".intercalate (next :: words)).toList)) :=
        .cons hnone hgap (ih.blank hblank)
      rw [String.intercalate_cons_cons]
      simpa using hspread

/-! ## Words and lexemes -/

theorem Cut.append (h : Cut words ls) (h' : Cut more ms) : Cut (words ++ more) (ls ++ ms) := by
  induction h with
  | nil => exact h'
  | cons hword _ ih =>
    rw [List.cons_append, List.append_assoc]
    exact .cons hword ih

/-- A word that is one lexeme. -/
theorem Cut.one {l : Lexeme} (h : Lexes word.toList [l]) (hrest : Cut words ls) : Cut (word :: words) (l :: ls) :=
  .cons h hrest

/-- What the words are cut into, the text is cut into. -/
theorem Spread.lexes (h : Spread words cs) (hcut : Cut words ls) : Lexes cs ls := by
  induction h generalizing ls with
  | nil hblanks =>
    cases hcut
    have hnone := Lexes.blanks hblanks .nil
    rwa [List.append_nil] at hnone
  | @cons word words before cs hbefore hgap _ ih =>
    cases hcut with
    | cons hword hrest =>
      have hseparated : Separated cs := fun c hc => by simp [isSeparator, hgap c hc]
      exact .blanks hbefore (hword.append hseparated (ih hrest))

theorem lexes_leftParen : Lexes "(".toList [⟨.leftParen, "("⟩] := .mark '(' .leftParen rfl .nil

theorem lexes_rightParen : Lexes ")".toList [⟨.rightParen, ")"⟩] := .mark ')' .rightParen rfl .nil

theorem lexes_leftBracket : Lexes "[".toList [⟨.leftBracket, "["⟩] := .mark '[' .leftBracket rfl .nil

theorem lexes_rightBracket : Lexes "]".toList [⟨.rightBracket, "]"⟩] := .mark ']' .rightBracket rfl .nil

theorem lexes_leftBrace : Lexes "\x7b".toList [⟨.leftBrace, "\x7b"⟩] := .mark '\x7b' .leftBrace rfl .nil

theorem lexes_rightBrace : Lexes "\x7d".toList [⟨.rightBrace, "\x7d"⟩] := .mark '\x7d' .rightBrace rfl .nil

theorem lexes_comma : Lexes ",".toList [comma] := .mark ',' .comma rfl .nil

theorem lexes_colon : Lexes ":".toList [colon] := .mark ':' .colon rfl .nil

theorem toLower_of_not_isUpper {c : Char} (h : ¬c.isUpper = true) : c.toLower = c := by
  have hval : ¬(c.val ≥ 'A'.val ∧ c.val ≤ 'Z'.val) := by simpa [Char.isUpper] using h
  rw [Char.toLower, dif_neg hval]

theorem isNameStart_of_toLower {c : Char} (h : c.toLower.isLower = true) : isNameStart c = true := by
  by_cases hupper : c.isUpper = true
  · simp [isNameStart, Char.isAlpha, hupper]
  · rw [toLower_of_not_isUpper hupper] at h
    simp [isNameStart, Char.isAlpha, h]

theorem toList_toLower (s : String) : s.toLower.toList = s.toList.map Char.toLower := by
  simp [String.toLower]

/-- A word of letters is one lexeme in letters of either case. -/
theorem lexes_of_toLower (h : text.toLower = word) (hletters : word.toList.all Char.isLower = true)
    (hne : word.toList ≠ []) : Lexes text.toList [⟨.name, text⟩] := by
  have hword : word.toList = text.toList.map Char.toLower := by rw [← h, toList_toLower]
  have hchars : ∀ c ∈ text.toList, isNameStart c = true := by
    intro c hc
    refine isNameStart_of_toLower (List.all_eq_true.1 hletters _ ?_)
    rw [hword]
    exact List.mem_map_of_mem hc
  cases htext : text.toList with
  | nil =>
    rw [htext] at hword
    exact absurd hword hne
  | cons c cs =>
    rw [htext] at hchars
    obtain ⟨hc, hcs⟩ := List.forall_mem_cons.1 hchars
    rw [← htext]
    exact lexes_word htext hc (List.all_eq_true.2 fun d hd => isNameChar_of_isNameStart (hcs d hd))

theorem isKeyword_of_toLower {symbol keyword : String} (h : text.toLower = word) :
    (⟨.name, text⟩ : Lexeme).isKeyword symbol keyword = (word == keyword) := by
  simp [Lexeme.isKeyword, Token.isKeyword, Lexeme.token, h]

/-- A constant is an operand in letters of either case. -/
theorem renders_of_toLower {v : Value} (h : text.toLower = word) (hletters : word.toList.all Char.isLower = true)
    (hne : word.toList ≠ []) (hnot : (word == "not") = false) (hv : constant? text = some v) :
    Renders text (.literal v) := by
  refine renders_constant (lexes_of_toLower h hletters hne) hv ?_
  rw [isKeyword_of_toLower h, hnot]

theorem operates_sign (op : BinaryOp) : Operates ⟨.operator, signOf op⟩ op := by
  intro l
  cases op <;> cases l <;> rfl

theorem lexes_sign (op : BinaryOp) : Lexes (signOf op).toList [⟨.operator, signOf op⟩] := by
  cases op <;> exact .single rfl

theorem operates_word {op : BinaryOp} (hop : op = .or ∨ op = .and) (h : text.toLower = op.symbol) :
    Operates ⟨.name, text⟩ op := by
  intro l
  rcases hop with rfl | rfl <;>
    cases l <;> simp [Level.operator?, Token.isKeyword, Lexeme.token, h, BinaryOp.symbol, Level.tightness, BinaryOp.tightness]

/-- Either spelling of an operator is one lexeme. -/
theorem BinarySpelling.exists_lexeme {op : BinaryOp} (h : BinarySpelling text op) :
    ∃ o, Lexes text.toList [o] ∧ Operates o op := by
  rcases h with rfl | ⟨hop, hword⟩
  · exact ⟨_, lexes_sign op, operates_sign op⟩
  · refine ⟨_, lexes_of_toLower hword ?_ ?_, operates_word hop hword⟩ <;>
      rcases hop with rfl | rfl <;> decide

theorem NotSpelling.exists_lexeme (h : NotSpelling text) :
    ∃ o, Lexes text.toList [o] ∧ o.isKeyword "!" "not" = true := by
  rcases h with rfl | hword
  · exact ⟨⟨.operator, "!"⟩, .single rfl, rfl⟩
  · refine ⟨_, lexes_of_toLower hword (by decide) (by decide), ?_⟩
    rw [isKeyword_of_toLower hword]
    rfl

/-- A part of a path is one lexeme by itself. -/
theorem IsSegment.exists_lexeme (h : IsSegment text.toList) :
    ∃ kind, (kind = .name ∨ kind = .number) ∧ Lexes text.toList [⟨kind, text⟩] := by
  have hend : EndsPart [] := nofun
  generalize hchars : text.toList = chars at h
  have htext : String.ofList chars = text := by rw [← hchars, String.ofList_toList]
  cases h with
  | word hc hcs =>
    have hword := lexes_name hc hcs
    rw [htext] at hword
    exact ⟨_, .inl rfl, hword⟩
  | digits hds =>
    have hnumber := lexes_digits_append hds hend rfl .nil
    rw [List.append_nil, htext] at hnumber
    exact ⟨_, .inr rfl, hnumber⟩

theorem KeySpelling.exists_lexeme {key : String} (h : KeySpelling text key) :
    ∃ name, Lexes text.toList [name] ∧ name.key? = some key := by
  rcases h with hquoted | ⟨rfl, hsegment⟩
  · exact ⟨_, hquoted.lexes, congrArg some hquoted.stringValue_eq⟩
  · obtain ⟨kind, hkind, hlexes⟩ := hsegment.exists_lexeme
    refine ⟨_, hlexes, ?_⟩
    rcases hkind with rfl | rfl <;> rfl

/-! ## What is written is read -/

/-- The trees of a fragment can be written, and no operand has to hold tighter than a bracket does. -/
def Fragment.Writable (functions : String → Bool) : Fragment → Prop
  | .whole e => Expression.Writable functions e
  | .operand n e => n ≤ 7 ∧ Expression.Writable functions e
  | .items es => ∀ e ∈ es, Expression.Writable functions e
  | .entries es => ∀ p ∈ es, Expression.Writable functions p.2

/-- The lexemes are read as the fragment. -/
def Fragment.Holds (functions : String → Bool) (ls : List Lexeme) : Fragment → Prop
  | .whole e => Expression.Holds functions e.tightness ls e
  | .operand n e => Expression.Holds functions n ls e
  | .items es => (es = [] → ls = []) ∧ (es ≠ [] → HoldsSomeItems functions ls es)
  | .entries es => (es = [] → ls = []) ∧ (es ≠ [] → HoldsSomeEntries functions ls es)

variable {e : Expr} {es : List Expr} {entries : List (String × Expr)}

/-- The text of an operand is one word. -/
theorem Renders.holds (h : Renders text e) : ∃ ls, Cut [text] ls ∧ Holds functions 7 ls e := by
  obtain ⟨ls, hlexes, hoperand⟩ := h
  refine ⟨ls ++ [], .cons hlexes .nil, ?_⟩
  rw [List.append_nil]
  exact hoperand.holds

theorem holdsItems_of_cases (hnone : es = [] → ls = []) (hsome : es ≠ [] → HoldsSomeItems functions ls es) :
    HoldsItems functions ls es := by
  by_cases hes : es = []
  · rw [hes, hnone hes]
    exact holdsItems_nil
  · exact (hsome hes).items

theorem holds_object_of_cases (hnone : entries = [] → ls = [])
    (hsome : entries ≠ [] → HoldsSomeEntries functions ls entries) :
    Holds functions 7 (⟨.leftBrace, "\x7b"⟩ :: (ls ++ [⟨.rightBrace, "\x7d"⟩])) (.object entries) := by
  by_cases hentries : entries = []
  · rw [hentries, hnone hentries]
    exact holds_emptyObject
  · exact (hsome hentries).object

/-- What is written of trees that can be written is read. -/
theorem Writes.holds {fragment : Fragment} (h : Writes fragment words) (hwritable : fragment.Writable functions) :
    ∃ ls, Cut words ls ∧ fragment.Holds functions ls := by
  induction h with
  | null h =>
    exact (renders_of_toLower h (by decide) (by decide) (by decide) (constant?_of_toLower "null" h)).holds
  | @bool b text h =>
    cases b with
    | true => exact (renders_of_toLower h (by decide) (by decide) (by decide) (constant?_of_toLower "true" h)).holds
    | false => exact (renders_of_toLower h (by decide) (by decide) (by decide) (constant?_of_toLower "false" h)).holds
  | natural n =>
    have hrenders := renders_natural n
    cases hwritable with
    | natural hn =>
      have hvalue : numeralValue n = .int n := numeralValue_of_lt hn
      rw [hvalue] at hrenders
      exact hrenders.holds
  | string h => exact Renders.holds ⟨_, h.lexes, operand_quoted h⟩
  | @path p text cs hparts htext =>
    obtain ⟨ls, hlexes, hoperand⟩ := p.exists_operand hparts
    rw [← htext] at hlexes
    exact Renders.holds ⟨ls, hlexes, hoperand⟩
  | call h ih =>
    cases hwritable with
    | call hname hknown hargs =>
      obtain ⟨ls, hcut, hnone, hsome⟩ := ih hargs
      have hitems := holdsItems_of_cases hnone hsome
      have hnot := hname.isKeyword_eq_false "!" (show "not" ∈ ["and", "or", "not"] by simp)
      exact ⟨_, ((hcut.append (Cut.nil.one lexes_rightParen)).one lexes_leftParen).one hname.lexes,
        hitems.call hname.constant?_eq_none hnot hknown⟩
  | not htext h ih =>
    cases hwritable with
    | unary hoperand =>
      obtain ⟨ls, hcut, hholds⟩ := ih ⟨by decide, hoperand⟩
      obtain ⟨o, ho, hword⟩ := htext.exists_lexeme
      exact ⟨o :: ls, hcut.one ho, hholds.not hword⟩
  | neg h ih =>
    cases hwritable with
    | unary hoperand =>
      obtain ⟨ls, hcut, hholds⟩ := ih ⟨by decide, hoperand⟩
      exact ⟨_, hcut.one (.single rfl), hholds.neg⟩
  | @binary op _ _ _ _ _ htext hleft hright ihleft ihright =>
    cases hwritable with
    | binary hleft hright =>
      have htight : op.tightness + 1 ≤ 7 := by cases op <;> decide
      obtain ⟨ls, hls, hleft⟩ := ihleft ⟨by omega, hleft⟩
      obtain ⟨ms, hms, hright⟩ := ihright ⟨htight, hright⟩
      obtain ⟨o, ho, hoperates⟩ := htext.exists_lexeme
      exact ⟨_, hls.append (hms.one ho), .binary hoperates hleft hright⟩
  | array h ih =>
    cases hwritable with
    | array hitems =>
      obtain ⟨ls, hcut, hnone, hsome⟩ := ih hitems
      exact ⟨_, (hcut.append (Cut.nil.one lexes_rightBracket)).one lexes_leftBracket,
        (holdsItems_of_cases hnone hsome).array⟩
  | object h ih =>
    cases hwritable with
    | object hentries =>
      obtain ⟨ls, hcut, hnone, hsome⟩ := ih hentries
      exact ⟨_, (hcut.append (Cut.nil.one lexes_rightBrace)).one lexes_leftBrace, holds_object_of_cases hnone hsome⟩
  | bare htight h ih =>
    obtain ⟨ls, hcut, hholds⟩ := ih hwritable.2
    exact ⟨ls, hcut, hholds.mono htight⟩
  | bracketed hloose h ih =>
    obtain ⟨ls, hcut, hholds⟩ := ih hwritable.2
    exact ⟨_, (hcut.append (Cut.nil.one lexes_rightParen)).one lexes_leftParen, hholds.paren.mono hwritable.1⟩
  | noItems => exact ⟨[], .nil, fun _ => rfl, fun hne => absurd rfl hne⟩
  | lastItem h ih =>
    obtain ⟨ls, hcut, hholds⟩ := ih (hwritable _ (by simp))
    exact ⟨ls, hcut, by simp, fun _ => hholds.lastItem⟩
  | item h hne hrest ih ihrest =>
    obtain ⟨ls, hls, hholds⟩ := ih (hwritable _ (by simp))
    obtain ⟨ms, hms, -, hitems⟩ := ihrest fun e he => hwritable e (by simp [he])
    exact ⟨_, hls.append (hms.one lexes_comma), by simp, fun _ => hholds.item (hitems hne)⟩
  | noEntries => exact ⟨[], .nil, fun _ => rfl, fun hne => absurd rfl hne⟩
  | @lastEntry key _ e _ hkey h ih =>
    obtain ⟨ls, hcut, hholds⟩ := ih (hwritable (key, e) (by simp))
    obtain ⟨name, hname, hkey⟩ := hkey.exists_lexeme
    exact ⟨_, (hcut.one lexes_colon).one hname, by simp, fun _ => hholds.lastEntry hkey⟩
  | @entry key _ e _ _ _ hkey h hne hrest ih ihrest =>
    obtain ⟨ls, hls, hholds⟩ := ih (hwritable (key, e) (by simp))
    obtain ⟨ms, hms, -, hentries⟩ := ihrest fun p hp => hwritable p (by simp [hp])
    obtain ⟨name, hname, hkey⟩ := hkey.exists_lexeme
    exact ⟨_, ((hls.append (hms.one lexes_comma)).one lexes_colon).one hname, by simp,
      fun _ => hholds.entry hkey (hentries hne)⟩

/-! ## Everything can be written -/

theorem dotted_intercalate (name : String) (parts : List String) :
    ∃ cs, Dotted parts cs ∧ (".".intercalate (name :: parts)).toList = name.toList ++ cs := by
  induction parts generalizing name with
  | nil => exact ⟨[], .nil, by simp⟩
  | cons part parts ih =>
    have hnone : IsBlanks [] := by rintro _ ⟨⟩
    obtain ⟨cs, hdotted, htext⟩ := ih part
    have hnext : Dotted (part :: parts) ([] ++ '.' :: ([] ++ (part.toList ++ cs))) := .cons hnone hnone hdotted
    refine ⟨_, hnext, ?_⟩
    rw [String.intercalate_cons_cons, String.toList_append, String.toList_append, htext]
    simp

/-- A path is written as it is. -/
theorem writes_path (p : VariablePath) : Writes (.whole (.variable p.text)) [p.text] := by
  obtain ⟨cs, hdotted, htext⟩ := dotted_intercalate p.name p.segments
  exact .path hdotted htext

theorem exists_writes_operand (n : Nat) (h : ∃ words, Writes (.whole e) words) :
    ∃ words, Writes (.operand n e) words := by
  obtain ⟨words, h⟩ := h
  by_cases htight : n ≤ e.tightness
  · exact ⟨words, .bare htight h⟩
  · exact ⟨_, .bracketed (Nat.lt_of_not_le htight) h⟩

theorem exists_writes_items (h : ∀ e ∈ es, ∃ words, Writes (.whole e) words) : ∃ words, Writes (.items es) words := by
  induction es with
  | nil => exact ⟨[], .noItems⟩
  | cons e es ih =>
    obtain ⟨⟨words, hwords⟩, hrest⟩ := List.forall_mem_cons.1 h
    obtain ⟨more, hmore⟩ := ih hrest
    by_cases hes : es = []
    · subst hes
      exact ⟨words, .lastItem hwords⟩
    · exact ⟨_, .item hwords hes hmore⟩

theorem exists_writes_entries (h : ∀ p ∈ entries, ∃ words, Writes (.whole p.2) words) :
    ∃ words, Writes (.entries entries) words := by
  induction entries with
  | nil => exact ⟨[], .noEntries⟩
  | cons p entries ih =>
    obtain ⟨⟨words, hwords⟩, hrest⟩ := List.forall_mem_cons.1 h
    obtain ⟨more, hmore⟩ := ih hrest
    have hkey : KeySpelling (Json.string p.1) p.1 := .inl (quoted_string p.1)
    by_cases hentries : entries = []
    · subst hentries
      exact ⟨_, .lastEntry hkey hwords⟩
    · exact ⟨_, .entry hkey hwords hentries hmore⟩

theorem Writable.exists_writes (h : Writable functions e) : ∃ words, Writes (.whole e) words := by
  induction h with
  | null => exact ⟨["null"], .null (by decide +kernel)⟩
  | bool b => exact ⟨[if b then "true" else "false"], .bool (by cases b <;> decide +kernel)⟩
  | natural => exact ⟨_, .natural _⟩
  | string s => exact ⟨_, .string (quoted_string s)⟩
  | path p => exact ⟨_, writes_path p⟩
  | call _ _ _ ih =>
    obtain ⟨words, h⟩ := exists_writes_items ih
    exact ⟨_, .call h⟩
  | @unary op e _ ih =>
    obtain ⟨words, h⟩ := exists_writes_operand op.tightness ih
    cases op with
    | not => exact ⟨_, .not (.inl rfl) h⟩
    | neg => exact ⟨_, .neg h⟩
  | @binary op _ _ _ _ ihleft ihright =>
    obtain ⟨words, hleft⟩ := exists_writes_operand op.tightness ihleft
    obtain ⟨more, hright⟩ := exists_writes_operand (op.tightness + 1) ihright
    exact ⟨_, .binary (.inl rfl) hleft hright⟩
  | array _ ih =>
    obtain ⟨words, h⟩ := exists_writes_items ih
    exact ⟨_, .array h⟩
  | object _ ih =>
    obtain ⟨words, h⟩ := exists_writes_entries ih
    exact ⟨_, .object h⟩

/-! ## The parser -/

/-- A tree can be written, and whichever way it is written, the parser finds it again. -/
theorem parse_written (h : Writable functions e) : (∃ words, Writes (.whole e) words) ∧
    ∀ words text, Writes (.whole e) words → Spread words text.toList → parse functions text = .ok e := by
  refine ⟨h.exists_writes, fun words text hwrites hspread => ?_⟩
  obtain ⟨ls, hcut, hholds⟩ := hwrites.holds h
  have hlexes : Lexes text.toList ls := hspread.lexes hcut
  have hreads : Reads functions (.level .disjunction) (ls ++ [stop]) e [stop] := hholds.level (by simp [Ends])
  exact parse_eq_ok_iff.2 ⟨ls, hlexes, hreads⟩

/-- Brackets keep a difference on the right, and two parts of a path look like one number. -/
theorem parse_written_difference : parse (fun _ => false) "NOT a.0.1 - ( b - 2 ) <= c" = .ok (.unary .not
    (.binary .le (.binary .sub (.variable "a.0.1") (.binary .sub (.variable "b") (.literal (.int 2)))) (.variable "c"))) := by
  have hname : ∀ name ∈ ["a", "b", "c"], IsIdentifier name := by
    intro name hname
    simp only [List.mem_cons, List.not_mem_nil, or_false] at hname
    rcases hname with rfl | rfl | rfl <;> exact ⟨⟨_, [], rfl, rfl, rfl⟩, by decide +kernel⟩
  have hsegment : ∀ part ∈ ["0", "1"], IsSegment part.toList := by
    intro part hpart
    simp only [List.mem_cons, List.not_mem_nil, or_false] at hpart
    rcases hpart with rfl | rfl <;> exact .digits (List.forall_mem_singleton.2 rfl)
  let a : VariablePath := ⟨"a", ["0", "1"], hname "a" (by simp), hsegment⟩
  let b : VariablePath := ⟨"b", [], hname "b" (by simp), nofun⟩
  let c : VariablePath := ⟨"c", [], hname "c" (by simp), nofun⟩
  have hpow (k : Nat) (hk : k ≠ 0) : 2 < 10 ^ k := Nat.lt_of_lt_of_le (by decide : 2 < 10) (Nat.le_self_pow hk 10)
  have htree : Writable (fun _ => false) (.unary .not (.binary .le (.binary .sub (.variable a.text)
      (.binary .sub (.variable b.text) (.literal (.int 2)))) (.variable c.text))) :=
    .unary (.binary (.binary (.path a) (.binary (.path b) (.natural (hpow 308 (by decide))))) (.path c))
  have ha : Writes (.whole (.variable "a.0.1")) ["a.0.1"] := writes_path a
  have hb : Writes (.whole (.variable "b")) ["b"] := writes_path b
  have hc : Writes (.whole (.variable "c")) ["c"] := writes_path c
  have hinner : Writes (.whole (.binary .sub (.variable "b") (.literal (.int 2)))) ["b", "-", "2"] :=
    .binary (.inl rfl) (.bare (by decide) hb) (.bare (by decide) (.natural 2))
  have houter : Writes (.whole (.binary .sub (.variable "a.0.1") (.binary .sub (.variable "b") (.literal (.int 2)))))
      ["a.0.1", "-", "(", "b", "-", "2", ")"] :=
    .binary (.inl rfl) (.bare (by decide) ha) (.bracketed (by decide) hinner)
  have hcompared : Writes (.whole (.binary .le (.binary .sub (.variable "a.0.1")
      (.binary .sub (.variable "b") (.literal (.int 2)))) (.variable "c")))
      ["a.0.1", "-", "(", "b", "-", "2", ")", "<=", "c"] :=
    .binary (.inl rfl) (.bare (by decide) houter) (.bare (by decide) hc)
  have hwords : Writes (.whole (.unary .not (.binary .le (.binary .sub (.variable "a.0.1")
      (.binary .sub (.variable "b") (.literal (.int 2)))) (.variable "c"))))
      ["NOT", "a.0.1", "-", "(", "b", "-", "2", ")", "<=", "c"] :=
    .not (.inr (by decide +kernel)) (.bare (by decide) hcompared)
  exact (parse_written htree).2 _ _ hwords (spread_intercalate _)

end Flowline.Expression
