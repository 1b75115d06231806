import Flowline.Proofs.Expression.Rendering

/-! # How tightly operators hold

Operators hold their operands the more tightly the higher their number is: `or` and `and`, `not`,
comparisons, sums, products, signs. What has no operator, or stands in brackets, holds tightest. Lexemes
that can be read as an expression of some tightness are read so in every place that asks for less
(`Holds.of_stands`), and an operand on the left of its own rank begins the chain of that rank
(`Holds.binary`). -/

namespace Flowline

/-- How tightly an operator holds its operands. -/
def BinaryOp.tightness : BinaryOp → Nat
  | .or => 0
  | .and => 1
  | .strictEq | .strictNe | .eq | .ne | .ge | .le | .gt | .lt => 3
  | .add | .sub => 4
  | .mul | .div | .mod => 5

def UnaryOp.tightness : UnaryOp → Nat
  | .not => 2
  | .neg => 6

/-- The tightness of the outermost operator. -/
def Expr.tightness : Expr → Nat
  | .binary op _ _ => op.tightness
  | .unary op _ => op.tightness
  | .literal _ | .variable _ | .call .. | .array _ | .object _ => 7

namespace Expression

open Lexeme

def Level.tightness : Level → Nat
  | .disjunction => 0
  | .conjunction => 1
  | .comparison => 3
  | .sum => 4
  | .product => 5

/-- The phrase that reads an expression of some tightness. -/
def phrase : Nat → Phrase
  | 0 => .level .disjunction
  | 1 => .level .conjunction
  | 2 => .not
  | 3 => .level .comparison
  | 4 => .level .sum
  | 5 => .level .product
  | _ => .signed

variable {functions : String → Bool} {l : Level} {n : Nat} {ls ms rest : List Lexeme} {e left right : Expr}
  {op : BinaryOp} {o : Lexeme}

theorem phrase_tightness (l : Level) : phrase l.tightness = .level l := by cases l <;> rfl

theorem phrase_succ_tightness (l : Level) : phrase (l.tightness + 1) = l.operand := by cases l <;> rfl

/-! ## What follows -/

/-- Neither a part of a path nor arguments follow, and no operator that is at least so tight. -/
structure Follows (n : Nat) (rest : List Lexeme) : Prop where
  apart : Apart rest
  operator? : ∀ l : Level, n ≤ l.tightness → l.operator? (first rest).token = none

theorem Follows.mono {m : Nat} (h : Follows n rest) (hnm : n ≤ m) : Follows m rest where
  apart := h.apart
  operator? l hl := h.operator? l (Nat.le_trans hnm hl)

theorem Ends.follows (h : Ends rest) : Follows n rest := ⟨h.apart, fun l _ => h.operator? l⟩

/-- The lexeme is the operator, and in the other ranks it is none. -/
def Operates (o : Lexeme) (op : BinaryOp) : Prop :=
  ∀ l : Level, l.operator? o.token = if l.tightness = op.tightness then some op else none

theorem BinaryOp.exists_level (op : BinaryOp) : ∃ l : Level, l.tightness = op.tightness := by
  cases op with
  | or => exact ⟨.disjunction, rfl⟩
  | and => exact ⟨.conjunction, rfl⟩
  | add | sub => exact ⟨.sum, rfl⟩
  | mul | div | mod => exact ⟨.product, rfl⟩
  | _ => exact ⟨.comparison, rfl⟩

theorem kind_of_operator? (h : l.operator? o.token = some op) : o.kind = .operator ∨ o.kind = .name := by
  by_contra hkind
  obtain ⟨hoperator, hname⟩ := not_or.1 hkind
  cases l <;> simp [Level.operator?, Token.isKeyword, Lexeme.token, hoperator, hname] at h

/-- After the operator no tighter one follows. -/
theorem Operates.follows (ho : Operates o op) (rest : List Lexeme) : Follows (op.tightness + 1) (o :: rest) where
  apart := by
    obtain ⟨l, hl⟩ := BinaryOp.exists_level op
    have hop : l.operator? o.token = some op := by rw [ho l, if_pos hl]
    rcases kind_of_operator? hop with hkind | hkind <;> simp [Apart, hkind]
  operator? l hl := by
    rw [first_cons, ho l, if_neg]
    omega

/-! ## Lexemes that hold together -/

/-- The lexemes are read as the expression where one of the tightness is looked for. -/
def Stands (functions : String → Bool) (n : Nat) (ls : List Lexeme) (e : Expr) : Prop :=
  ∀ rest, Follows n rest → Reads functions (phrase n) (ls ++ rest) e rest

/-- The lexemes begin a chain of the rank, and the expression is its left operand so far. -/
def Leads (functions : String → Bool) (l : Level) (ls : List Lexeme) (e : Expr) : Prop :=
  ∀ rest whole ms, Follows (l.tightness + 1) rest → Reads functions (.chain l e) rest whole ms →
    Reads functions (.level l) (ls ++ rest) whole ms

/-- The lexemes are an operand of the tightness. -/
structure Holds (functions : String → Bool) (n : Nat) (ls : List Lexeme) (e : Expr) : Prop where
  stands : ∀ m ≤ n, Stands functions m ls e
  leads : ∀ l : Level, l.tightness ≤ n → Leads functions l ls e
  ne_nil : ls ≠ []
  notKeyword : 3 ≤ n → (first ls).isKeyword "!" "not" = false

theorem first_append (hne : ls ≠ []) (rest : List Lexeme) : first (ls ++ rest) = first ls := by
  obtain ⟨l, ls, rfl⟩ := List.exists_cons_of_ne_nil hne
  rfl

theorem Stands.leads (h : Stands functions (l.tightness + 1) ls e) : Leads functions l ls e := by
  intro rest whole ms hrest hchain
  have hoperand := h rest hrest
  rw [phrase_succ_tightness] at hoperand
  exact .level hoperand hchain

theorem Leads.stands (h : Leads functions l ls e) : Stands functions l.tightness ls e := by
  intro rest hrest
  rw [phrase_tightness]
  exact h rest e rest (hrest.mono (Nat.le_succ _)) (.chainEnd (hrest.operator? l (Nat.le_refl _)))

/-- What no `not` begins is an operand of `not`. -/
theorem Stands.not_of_comparison (h : Stands functions 3 ls e) (hne : ls ≠ [])
    (hword : (first ls).isKeyword "!" "not" = false) : Stands functions 2 ls e := by
  intro rest hrest
  refine .comparison ?_ (h rest (hrest.mono (by decide)))
  rwa [first_append hne]

/-- An expression is read where one is looked for that is less tight by one. -/
theorem Stands.loosen {m : Nat} (h : Stands functions (m + 1) ls e) (hne : ls ≠ [])
    (hword : m = 2 → (first ls).isKeyword "!" "not" = false) : Stands functions m ls e := by
  have hlevel (l : Level) (hl : l.tightness = m) : Stands functions m ls e := by
    subst hl
    exact h.leads.stands
  match m with
  | 0 => exact hlevel .disjunction rfl
  | 1 => exact hlevel .conjunction rfl
  | 2 => exact h.not_of_comparison hne (hword rfl)
  | 3 => exact hlevel .comparison rfl
  | 4 => exact hlevel .sum rfl
  | 5 => exact hlevel .product rfl
  | _ + 6 => exact fun rest hrest => h rest (hrest.mono (Nat.le_succ _))

/-- What is read at its own tightness is an operand. -/
theorem Holds.of_stands (h : Stands functions n ls e) (hne : ls ≠ [])
    (hword : 3 ≤ n → (first ls).isKeyword "!" "not" = false)
    (hlead : ∀ l : Level, l.tightness = n → Leads functions l ls e) : Holds functions n ls e := by
  have hstands : ∀ k m, m + k = n → Stands functions m ls e := by
    intro k
    induction k with
    | zero =>
      rintro m rfl
      exact h
    | succ k ih =>
      intro m hm
      have hnext := ih (m + 1) (by omega)
      exact hnext.loosen hne fun _ => hword (by omega)
  refine ⟨fun m hm => hstands (n - m) m (by omega), fun l hl => ?_, hne, hword⟩
  by_cases heq : l.tightness = n
  · exact hlead l heq
  · exact (hstands (n - (l.tightness + 1)) (l.tightness + 1) (by omega)).leads

theorem Holds.mono {m : Nat} (h : Holds functions n ls e) (hm : m ≤ n) : Holds functions m ls e where
  stands k hk := h.stands k (Nat.le_trans hk hm)
  leads l hl := h.leads l (Nat.le_trans hl hm)
  ne_nil := h.ne_nil
  notKeyword hm' := h.notKeyword (Nat.le_trans hm' hm)

/-- An operand is read whole where an expression is at its end. -/
theorem Holds.level (h : Holds functions n ls e) (hrest : Ends rest) :
    Reads functions (.level .disjunction) (ls ++ rest) e rest :=
  h.stands 0 (Nat.zero_le n) rest hrest.follows

/-! ## Expressions of every tightness -/

theorem Holds.of_signed (hne : ls ≠ []) (hword : (first ls).isKeyword "!" "not" = false)
    (h : ∀ rest, Apart rest → Reads functions .signed (ls ++ rest) e rest) : Holds functions 7 ls e := by
  refine .of_stands (fun rest hrest => h rest hrest.apart) hne (fun _ => hword) ?_
  rintro l hl
  cases l <;> cases hl

/-- What can stand on either side of any operator holds tightest. -/
theorem Operand.holds (h : Operand ls e) : Holds functions 7 ls e :=
  .of_signed h.ne_nil h.notKeyword (h.reads functions)

theorem Holds.of_primary {o : Lexeme} (hkind : o.kind ≠ .operator) (hword : o.isKeyword "!" "not" = false)
    (h : ∀ rest, Apart rest → Reads functions .primary (o :: ls ++ rest) e rest) : Holds functions 7 (o :: ls) e := by
  refine .of_signed (by simp) hword fun rest hrest => .primary ?_ ?_ (h rest hrest) <;>
    simp [Lexeme.isSign, hkind]

/-- In brackets everything holds tightest. -/
theorem Holds.paren (h : Holds functions n ls e) :
    Holds functions 7 (⟨.leftParen, "("⟩ :: (ls ++ [⟨.rightParen, ")"⟩])) e := by
  refine .of_primary nofun (isKeyword_of_kind nofun nofun) fun rest _ => ?_
  have hinner : Reads functions (.level .disjunction) (ls ++ ⟨.rightParen, ")"⟩ :: rest) e (⟨.rightParen, ")"⟩ :: rest) :=
    h.level (by simp [Ends])
  rw [List.cons_append, List.append_assoc]
  exact .paren hinner

theorem Holds.neg (h : Holds functions 6 ls e) : Holds functions 6 (⟨.operator, "-"⟩ :: ls) (.unary .neg e) := by
  refine .of_stands (fun rest hrest => ?_) (by simp) (fun _ => rfl) ?_
  · exact .minus rfl (h.stands 6 (Nat.le_refl 6) rest hrest)
  · intro l hl
    cases l <;> cases hl

theorem Holds.not (ho : o.isKeyword "!" "not" = true) (h : Holds functions 2 ls e) :
    Holds functions 2 (o :: ls) (.unary .not e) := by
  refine .of_stands (fun rest hrest => ?_) (by simp) (by simp) ?_
  · exact .not ho (h.stands 2 (Nat.le_refl 2) rest hrest)
  · intro l hl
    cases l <;> cases hl

/-- An operator stands between an operand of its own rank and a tighter one. -/
theorem Holds.binary (ho : Operates o op) (hleft : Holds functions op.tightness ls left)
    (hright : Holds functions (op.tightness + 1) ms right) :
    Holds functions op.tightness (ls ++ o :: ms) (.binary op left right) := by
  have hlead (l : Level) (hl : l.tightness = op.tightness) : Leads functions l (ls ++ o :: ms) (.binary op left right) := by
    intro rest whole ns hrest hchain
    have hop : l.operator? o.token = some op := by rw [ho l, if_pos hl]
    have hoperand : Reads functions l.operand (ms ++ rest) right rest := by
      rw [← phrase_succ_tightness, hl]
      exact hright.stands _ (Nat.le_refl _) rest (hl ▸ hrest)
    rw [List.append_assoc]
    exact hleft.leads l (Nat.le_of_eq hl) _ whole ns (hl ▸ ho.follows _) (.chain hop hoperand hchain)
  obtain ⟨l, hl⟩ := BinaryOp.exists_level op
  refine .of_stands (hl ▸ (hlead l hl).stands) (by simp) (fun hthree => ?_) hlead
  rw [first_append hleft.ne_nil]
  exact hleft.notKeyword hthree

/-! ## Sequences -/

/-- The lexemes are items between commas. -/
def HoldsItems (functions : String → Bool) (ls : List Lexeme) (es : List Expr) : Prop :=
  ∀ (closing : Closing) (text : String) (rest : List Lexeme),
    Reads functions (.arguments closing) (ls ++ ⟨closing.kind, text⟩ :: rest) (.array es) rest

/-- The lexemes are at least one item. -/
def HoldsSomeItems (functions : String → Bool) (ls : List Lexeme) (es : List Expr) : Prop :=
  ∀ (closing : Closing) (text : String) (rest : List Lexeme),
    Reads functions (.items closing) (ls ++ ⟨closing.kind, text⟩ :: rest) (.array es) rest

/-- The lexemes are at least one entry. -/
def HoldsSomeEntries (functions : String → Bool) (ls : List Lexeme) (es : List (String × Expr)) : Prop :=
  ∀ (text : String) (rest : List Lexeme),
    Reads functions .entries (ls ++ ⟨.rightBrace, text⟩ :: rest) (.object es) rest

theorem holdsItems_nil : HoldsItems functions [] [] := fun _ _ _ => .noArguments

variable {es : List Expr} {entries : List (String × Expr)} {key : String} {name : Lexeme}

theorem HoldsSomeItems.items (h : HoldsSomeItems functions ls es) : HoldsItems functions ls es := by
  intro closing text rest
  have hitems := h closing text rest
  have hbegin := hitems.canBegin rfl
  refine .arguments (fun hkind => ?_) hitems
  rw [hkind] at hbegin
  cases closing <;> cases hbegin

theorem Holds.lastItem (h : Holds functions n ls e) : HoldsSomeItems functions ls [e] :=
  fun closing text _ => .lastItem (h.level (closing.ends text))

theorem Holds.item (h : Holds functions n ls e) (hrest : HoldsSomeItems functions ms es) :
    HoldsSomeItems functions (ls ++ comma :: ms) (e :: es) := by
  intro closing text rest
  rw [List.append_assoc]
  exact .item (h.level ends_comma) (hrest closing text rest)

theorem Holds.lastEntry (hkey : name.key? = some key) (h : Holds functions n ls e) :
    HoldsSomeEntries functions (name :: colon :: ls) [(key, e)] :=
  fun text _ => .lastEntry hkey (h.level (ends_rightBrace text))

theorem Holds.entry (hkey : name.key? = some key) (h : Holds functions n ls e)
    (hrest : HoldsSomeEntries functions ms entries) :
    HoldsSomeEntries functions (name :: colon :: (ls ++ comma :: ms)) ((key, e) :: entries) := by
  intro text rest
  rw [List.cons_append, List.cons_append, List.append_assoc]
  exact .entry hkey (h.level ends_comma) (hrest text rest)

theorem HoldsItems.array (h : HoldsItems functions ls es) :
    Holds functions 7 (⟨.leftBracket, "["⟩ :: (ls ++ [⟨.rightBracket, "]"⟩])) (.array es) := by
  refine .of_primary nofun (isKeyword_of_kind nofun nofun) fun rest _ => ?_
  rw [List.cons_append, List.append_assoc]
  exact .array (h .bracket "]" rest)

theorem HoldsItems.call {text : String} (hword : constant? text = none)
    (hnot : (⟨.name, text⟩ : Lexeme).isKeyword "!" "not" = false) (hknown : functions text = true)
    (h : HoldsItems functions ls es) :
    Holds functions 7 (⟨.name, text⟩ :: ⟨.leftParen, "("⟩ :: (ls ++ [⟨.rightParen, ")"⟩])) (.call text es) := by
  refine .of_primary nofun hnot fun rest _ => ?_
  rw [List.cons_append, List.cons_append, List.append_assoc]
  exact .call hword hknown (h .paren ")" rest)

theorem holds_emptyObject : Holds functions 7 [⟨.leftBrace, "\x7b"⟩, ⟨.rightBrace, "\x7d"⟩] (.object []) :=
  .of_primary nofun (isKeyword_of_kind nofun nofun) fun _ _ => .emptyObject

theorem HoldsSomeEntries.object (h : HoldsSomeEntries functions ls entries) :
    Holds functions 7 (⟨.leftBrace, "\x7b"⟩ :: (ls ++ [⟨.rightBrace, "\x7d"⟩])) (.object entries) := by
  refine .of_primary nofun (isKeyword_of_kind nofun nofun) fun rest _ => ?_
  have hentries := h "\x7d" rest
  have hbegin := hentries.canBegin rfl
  rw [List.cons_append, List.append_assoc]
  refine .object (fun hkind => ?_) hentries
  rw [← List.singleton_append, hkind] at hbegin
  cases hbegin

end Expression

end Flowline
