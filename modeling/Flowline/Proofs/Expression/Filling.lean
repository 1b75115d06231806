import Flowline.Proofs.Expression.Rendering

/-! # Names that give way to operands

A slot is a name that an expression has as a variable, and an operand that takes its place. What is read
from lexemes with the names is read from the lexemes with the operands too, as the same tree with the trees
of the operands for the variables (`Reads.fill`), as long as the names are nothing but whole paths. -/

namespace Flowline

/-- A name, and the text and the tree of what takes its place. -/
structure Slot where
  name : String
  text : String
  tree : Expr

namespace Slot

/-- The slot of a name. -/
def ofName? (slots : List Slot) (name : String) : Option Slot := slots.find? (·.name == name)

variable {slots : List Slot} {slot : Slot} {name : String}

theorem mem_of_ofName? (h : ofName? slots name = some slot) : slot ∈ slots := List.mem_of_find?_eq_some h

theorem name_of_ofName? (h : ofName? slots name = some slot) : slot.name = name := by
  simpa using List.find?_some h

theorem ofName?_eq_none : ofName? slots name = none ↔ ∀ slot ∈ slots, slot.name ≠ name := by
  simp [ofName?]

theorem ofName?_of_mem (hnames : (slots.map Slot.name).Nodup) (h : slot ∈ slots) :
    ofName? slots slot.name = some slot := by
  obtain ⟨found, hfound⟩ := Option.ne_none_iff_exists'.1 fun hnone => ofName?_eq_none.1 hnone slot h rfl
  rw [hfound, List.inj_on_of_nodup_map hnames (mem_of_ofName? hfound) h (name_of_ofName? hfound)]

end Slot

namespace Expr

mutual

/-- The expression with the trees of the slots for the variables of their names. -/
def fill (slots : List Slot) : Expr → Expr
  | .literal v => .literal v
  | .variable path => ((Slot.ofName? slots path).map Slot.tree).getD (.variable path)
  | .call name args => .call name (fillAll slots args)
  | .binary op left right => .binary op (fill slots left) (fill slots right)
  | .unary op operand => .unary op (fill slots operand)
  | .array items => .array (fillAll slots items)
  | .object entries => .object (fillEntries slots entries)

def fillAll (slots : List Slot) : List Expr → List Expr
  | [] => []
  | e :: rest => fill slots e :: fillAll slots rest

def fillEntries (slots : List Slot) : List (String × Expr) → List (String × Expr)
  | [] => []
  | (k, e) :: rest => (k, fill slots e) :: fillEntries slots rest

end

mutual

/-- The names of the slots are the whole paths of variables, and they stand nowhere else: they are no part of
another path, no function and no key. -/
def NamesWhole (slots : List Slot) : Expr → Prop
  | .literal _ => True
  | .variable path => (Slot.ofName? slots path).isSome ∨
      ∀ part ∈ Path.splitOn '.' path.toList, Slot.ofName? slots (String.ofList part) = none
  | .call name args => Slot.ofName? slots name = none ∧ NamesWholeAll slots args
  | .binary _ left right => NamesWhole slots left ∧ NamesWhole slots right
  | .unary _ operand => NamesWhole slots operand
  | .array items => NamesWholeAll slots items
  | .object entries => NamesWholeEntries slots entries

def NamesWholeAll (slots : List Slot) : List Expr → Prop
  | [] => True
  | e :: rest => NamesWhole slots e ∧ NamesWholeAll slots rest

def NamesWholeEntries (slots : List Slot) : List (String × Expr) → Prop
  | [] => True
  | (k, e) :: rest => Slot.ofName? slots k = none ∧ NamesWhole slots e ∧ NamesWholeEntries slots rest

end

end Expr

namespace Expression

open Lexeme Text

/-- A word that is no constant and no operator. -/
structure IsIdentifier (name : String) : Prop where
  chars : ∃ c cs, name.toList = c :: cs ∧ isNameStart c = true ∧ cs.all isNameChar = true
  notWord : name.toLower ∉ ["true", "false", "null", "and", "or", "not"]

variable {functions : String → Bool} {p : Phrase} {ls ms : List Lexeme} {e : Expr} {slots : List Slot}
  {lexemes : Slot → List Lexeme}

namespace IsIdentifier

variable {name : String}

theorem lexes (h : IsIdentifier name) : Lexes name.toList [⟨.name, name⟩] := by
  obtain ⟨c, cs, hname, hc, hcs⟩ := h.chars
  exact lexes_word hname hc hcs

theorem constant?_eq_none (h : IsIdentifier name) : constant? name = none := by
  have hword := h.notWord
  rw [constant?_of_toLower _ rfl]
  simp only [List.mem_cons, List.not_mem_nil, or_false, not_or] at hword
  simp [hword]

theorem isKeyword_eq_false (h : IsIdentifier name) (symbol : String) {word : String} (hword : word ∈ ["and", "or", "not"]) :
    (⟨.name, name⟩ : Lexeme).isKeyword symbol word = false := by
  have hne : name.toLower ≠ word := fun heq => h.notWord (heq ▸ List.mem_of_mem_drop (i := 3) hword)
  simp [Lexeme.isKeyword, Token.isKeyword, Lexeme.token, hne]

theorem dot_not_mem (h : IsIdentifier name) : '.' ∉ name.toList := by
  obtain ⟨c, cs, hname, hc, hcs⟩ := h.chars
  rw [hname]
  rintro hmem
  rcases List.mem_cons.1 hmem with rfl | hmem
  · cases hc
  · cases List.all_eq_true.1 hcs _ hmem

end IsIdentifier

/-! ## Lexemes -/

/-- The lexemes with those of the slots for the words that are their names. -/
def fillLexeme (slots : List Slot) (lexemes : Slot → List Lexeme) (l : Lexeme) : List Lexeme :=
  if l.kind = .name then ((Slot.ofName? slots l.text).map lexemes).getD [l] else [l]

def fillLexemes (slots : List Slot) (lexemes : Slot → List Lexeme) (ls : List Lexeme) : List Lexeme :=
  ls.flatMap (fillLexeme slots lexemes)

/-- The lexeme is no slot's name. -/
def Kept (slots : List Slot) (l : Lexeme) : Prop := l.kind = .name → Slot.ofName? slots l.text = none

/-- No slot stands at the front. -/
def Free (slots : List Slot) (ls : List Lexeme) : Prop := ∀ l ∈ ls.head?, Kept slots l

theorem kept_of_kind {l : Lexeme} (h : l.kind ≠ .name) : Kept slots l := fun hname => absurd hname h

theorem fillLexemes_cons {l : Lexeme} (hl : Kept slots l) (ls : List Lexeme) :
    fillLexemes slots lexemes (l :: ls) = l :: fillLexemes slots lexemes ls := by
  have hone : fillLexeme slots lexemes l = [l] := by
    unfold fillLexeme
    split
    · next hname => rw [hl hname]; rfl
    · rfl
  rw [fillLexemes, List.flatMap_cons, hone]
  rfl

theorem fillLexemes_kind (kind : TokenKind) (hkind : kind ≠ .name) (text : String) (ls : List Lexeme) :
    fillLexemes slots lexemes (⟨kind, text⟩ :: ls) = ⟨kind, text⟩ :: fillLexemes slots lexemes ls :=
  fillLexemes_cons (kept_of_kind hkind) ls

theorem free_kind (kind : TokenKind) (hkind : kind ≠ .name) (text : String) (ls : List Lexeme) :
    Free slots (⟨kind, text⟩ :: ls) := by
  rintro _ ⟨⟩
  exact kept_of_kind hkind

theorem fillLexemes_name {slot : Slot} {name : String} (h : Slot.ofName? slots name = some slot) (ls : List Lexeme) :
    fillLexemes slots lexemes (⟨.name, name⟩ :: ls) = lexemes slot ++ fillLexemes slots lexemes ls := by
  simp [fillLexemes, fillLexeme, h]

theorem fillLexemes_append (ls ms : List Lexeme) : fillLexemes slots lexemes (ls ++ ms) =
    fillLexemes slots lexemes ls ++ fillLexemes slots lexemes ms := List.flatMap_append

theorem first_fillLexemes (h : Free slots ls) : first (fillLexemes slots lexemes ls) = first ls := by
  cases ls with
  | nil => rfl
  | cons l ls => rw [fillLexemes_cons (h l rfl), first_cons, first_cons]

theorem free_or_name (slots : List Slot) (ls : List Lexeme) : Free slots ls ∨
    ∃ slot ∈ slots, ∃ rest, ls = ⟨.name, slot.name⟩ :: rest ∧ Slot.ofName? slots slot.name = some slot := by
  cases ls with
  | nil => exact .inl nofun
  | cons l ls =>
    by_cases hl : Kept slots l
    · refine .inl ?_
      rintro _ ⟨⟩
      exact hl
    · obtain ⟨hname, hslot⟩ := Classical.not_imp.1 hl
      obtain ⟨slot, hslot⟩ := Option.ne_none_iff_exists'.1 hslot
      refine .inr ⟨slot, Slot.mem_of_ofName? hslot, ls, ?_, ?_⟩
      · rw [Slot.name_of_ofName? hslot, ← hname]
      · rw [Slot.name_of_ofName? hslot, hslot]

/-- The end mark stands at the end. -/
def Stopped (ls : List Lexeme) : Prop := ls.getLast? = some stop

theorem Leaves.stopped (h : Leaves ls ms) (hstop : Stopped ls) : Stopped ms := by
  obtain ⟨ks, rfl, hks⟩ := h
  cases ms with
  | nil =>
    rw [List.append_nil] at hstop
    exact absurd rfl (hks _ (List.mem_of_getLast? hstop))
  | cons m ms => rwa [Stopped, List.getLast?_append_of_ne_nil _ (List.cons_ne_nil _ _)] at hstop

/-! ## Paths -/

theorem splitOn_dotless {cs : List Char} (h : '.' ∉ cs) : Path.splitOn '.' cs = [cs] := by
  induction cs with
  | nil => rfl
  | cons c cs ih =>
    obtain ⟨hc, hcs⟩ : '.' ≠ c ∧ '.' ∉ cs := by simpa using h
    simp [Path.splitOn, ih hcs, Ne.symm hc]

theorem splitOn_ne_nil (cs : List Char) : Path.splitOn '.' cs ≠ [] := by
  cases cs with
  | nil => simp [Path.splitOn]
  | cons c cs =>
    simp only [Path.splitOn]
    split
    · simp
    · split <;> simp

theorem splitOn_append (a b : List Char) :
    Path.splitOn '.' (a ++ '.' :: b) = Path.splitOn '.' a ++ Path.splitOn '.' b := by
  induction a with
  | nil => simp [Path.splitOn]
  | cons c a ih =>
    simp only [List.cons_append, Path.splitOn, ih]
    split
    · rfl
    · obtain ⟨first, more, hsplit⟩ := List.exists_cons_of_ne_nil (splitOn_ne_nil a)
      rw [hsplit]
      rfl

/-- A segment without a point is a part of its path. -/
theorem mem_splitOn_intercalate {part : String} {segments : List String} (hpart : part ∈ segments)
    (hdot : '.' ∉ part.toList) : part.toList ∈ Path.splitOn '.' (".".intercalate segments).toList := by
  induction segments with
  | nil => cases hpart
  | cons segment segments ih =>
    cases segments with
    | nil =>
      obtain rfl := List.mem_singleton.1 hpart
      rw [String.intercalate_singleton, splitOn_dotless hdot]
      exact List.mem_singleton_self _
    | cons next segments =>
      have hchars : (".".intercalate (segment :: next :: segments)).toList =
          segment.toList ++ '.' :: (".".intercalate (next :: segments)).toList := by
        rw [String.intercalate_cons_cons]
        simp
      rw [hchars, splitOn_append, List.mem_append]
      rcases List.mem_cons.1 hpart with rfl | hpart
      · refine .inl ?_
        rw [splitOn_dotless hdot]
        exact List.mem_singleton_self _
      · exact .inr (ih hpart)

theorem dot_mem_intercalate (first next : String) (more : List String) :
    '.' ∈ (".".intercalate (first :: next :: more)).toList := by
  rw [String.intercalate_cons_cons]
  simp

/-- A path keeps the segments that it begins with. -/
theorem Reads.exists_path {segments : List String} (h : Reads functions (.path segments) ls e ms) :
    ∃ more, e = .variable (".".intercalate (segments ++ more)) ∧ (more = [] → ls = ms ∧ EndsPath ms) := by
  generalize hp : Phrase.path segments = p at h
  induction h generalizing segments with
  | pathEnd hend =>
    cases hp
    exact ⟨[], by rw [List.append_nil], fun _ => ⟨rfl, hend⟩⟩
  | part _ _ ih | index _ ih =>
    cases hp
    obtain ⟨more, he, -⟩ := ih rfl
    exact ⟨_ :: more, by rw [he, List.append_assoc, List.singleton_append], nofun⟩
  | _ => cases hp

/-! ## Reading -/

/-- What a phrase becomes: an operand has signs, and a primary expression has none. -/
def Phrase.fill (slots : List Slot) : Phrase → Phrase
  | .chain l left => .chain l (left.fill slots)
  | .primary => .signed
  | p => p

theorem Level.fill_operand (l : Level) : l.operand.fill slots = l.operand := by
  cases l <;> rfl

/-- The operands stand for their slots, which have different names. -/
structure Fills (slots : List Slot) (lexemes : Slot → List Lexeme) : Prop where
  identifier : ∀ slot ∈ slots, IsIdentifier slot.name
  operand : ∀ slot ∈ slots, Operand (lexemes slot) slot.tree

namespace Fills

variable (hfills : Fills slots lexemes)
include hfills

theorem kept_of_isKeyword {o : Lexeme} {symbol word : String} (hword : word ∈ ["and", "or", "not"])
    (ho : o.isKeyword symbol word = true) : Kept slots o := by
  intro hkind
  by_contra hslot
  obtain ⟨slot, hslot⟩ := Option.ne_none_iff_exists'.1 hslot
  have hidentifier := hfills.identifier slot (Slot.mem_of_ofName? hslot)
  rw [Slot.name_of_ofName? hslot] at hidentifier
  have hfalse := hidentifier.isKeyword_eq_false symbol hword
  rw [← hkind] at hfalse
  cases ho.symm.trans hfalse

theorem kept_of_operator? {o : Lexeme} {l : Level} {op : BinaryOp} (ho : l.operator? o.token = some op) :
    Kept slots o := by
  cases l with
  | disjunction =>
    simp only [Level.operator?] at ho
    split at ho
    · next hword => exact hfills.kept_of_isKeyword (by decide) hword
    · cases ho
  | conjunction =>
    simp only [Level.operator?] at ho
    split at ho
    · next hword => exact hfills.kept_of_isKeyword (by decide) hword
    · cases ho
  | _ =>
    refine kept_of_kind fun hkind => ?_
    simp [Level.operator?, Lexeme.token, hkind] at ho

/-- A slot at the front becomes an operand. -/
theorem first_cases (ls : List Lexeme) : first (fillLexemes slots lexemes ls) = first ls ∨
    ∃ ks e, Operand ks e ∧ first (fillLexemes slots lexemes ls) = first ks := by
  rcases free_or_name slots ls with hfree | ⟨slot, hslot, rest, rfl, hname⟩
  · exact .inl (first_fillLexemes hfree)
  · have hoperand := hfills.operand slot hslot
    refine .inr ⟨_, _, hoperand, ?_⟩
    rw [fillLexemes_name hname, hoperand.first_append]

theorem isKeyword_first (h : (first ls).isKeyword "!" "not" = false) :
    (first (fillLexemes slots lexemes ls)).isKeyword "!" "not" = false := by
  rcases hfills.first_cases ls with heq | ⟨ks, e, hoperand, heq⟩
  · rwa [heq]
  · rw [heq]
    exact hoperand.notKeyword

theorem kind_first {kind : TokenKind} (hkind : kind.canBegin = false) (h : (first ls).kind ≠ kind) :
    (first (fillLexemes slots lexemes ls)).kind ≠ kind := by
  rcases hfills.first_cases ls with heq | ⟨ks, e, hoperand, heq⟩
  · rwa [heq]
  · have hbegin := (hoperand.reads (fun _ => false) [stop] (by simp [Apart])).canBegin rfl
    rw [hoperand.first_append] at hbegin
    rw [heq]
    rintro rfl
    rw [hbegin] at hkind
    cases hkind

/-- Before a chain of operators or the rest of a path no slot stands, if none stands after it. -/
theorem free_chain {l : Level} {left : Expr} (h : Reads functions (.chain l left) ls e ms) (hfree : Free slots ms) :
    Free slots ls := by
  cases h with
  | chainEnd => exact hfree
  | chain hop =>
    rintro _ ⟨⟩
    exact hfills.kept_of_operator? hop

end Fills

theorem Reads.free_path {segments : List String} (h : Reads functions (.path segments) ls e ms) (hfree : Free slots ms) :
    Free slots ls := by
  cases h with
  | pathEnd => exact hfree
  | part | index =>
    rintro _ ⟨⟩
    exact kept_of_kind nofun

/-- An operand on the left stays in the tree. -/
theorem Reads.namesWhole_left {l : Level} {left : Expr} (h : Reads functions (.chain l left) ls e ms)
    (hwhole : e.NamesWhole slots) : left.NamesWhole slots := by
  generalize hp : Phrase.chain l left = p at h
  induction h generalizing left with
  | chainEnd => cases hp; exact hwhole
  | chain _ _ _ _ ih =>
    cases hp
    exact (ih hwhole rfl).1
  | _ => cases hp

/-- A path of several segments is no slot's name. -/
theorem Fills.ofName?_of_dot (hfills : Fills slots lexemes) {name : String} (hdot : '.' ∈ name.toList) :
    Slot.ofName? slots name = none := by
  by_contra hslot
  obtain ⟨slot, hslot⟩ := Option.ne_none_iff_exists'.1 hslot
  have hidentifier := hfills.identifier slot (Slot.mem_of_ofName? hslot)
  rw [Slot.name_of_ofName? hslot] at hidentifier
  exact hidentifier.dot_not_mem hdot

/-- In a path that is no slot's name no segment is one. -/
theorem Fills.ofName?_segment (hfills : Fills slots lexemes) {part : String} {segments : List String}
    (hpart : part ∈ segments) (hwhole : (Expr.variable (".".intercalate segments)).NamesWhole slots)
    (hpath : Slot.ofName? slots (".".intercalate segments) = none) : Slot.ofName? slots part = none := by
  by_cases hdot : '.' ∈ part.toList
  · exact hfills.ofName?_of_dot hdot
  · have hnone := (hwhole.resolve_left (by simp [hpath])) _ (mem_splitOn_intercalate hpart hdot)
    rwa [String.ofList_toList] at hnone

def Phrase.isPath : Phrase → Bool
  | .path _ => true
  | _ => false

/-- A path is read as one that is no slot's name. -/
def NoSlot (slots : List Slot) (p : Phrase) (e : Expr) : Prop :=
  p.isPath = true → ∀ name, e = .variable name → Slot.ofName? slots name = none

theorem Level.noSlot_operand (l : Level) (e : Expr) : NoSlot slots l.operand e := by
  cases l <;> exact nofun

theorem NoSlot.fill_variable {segments : List String} {name : String}
    (h : NoSlot slots (.path segments) (.variable name)) : (Expr.variable name).fill slots = .variable name := by
  simp [Expr.fill, h rfl _ rfl]

/-- A slot is a whole path, and is read as its operand. -/
theorem Fills.reads_slot (hfills : Fills slots lexemes) {slot : Slot} {name : String}
    (hslot : Slot.ofName? slots name = some slot) (h : Reads functions (.path [name]) ls e ms) (hstop : Stopped ls)
    (hnext : (first ls).kind ≠ .leftParen) (hfree : Free slots ms) (hwhole : e.NamesWhole slots) :
    Reads functions .signed (fillLexemes slots lexemes (⟨.name, name⟩ :: ls)) (e.fill slots)
      (fillLexemes slots lexemes ms) := by
  obtain ⟨more, rfl, hsame⟩ := h.exists_path
  cases more with
  | cons next more =>
    have hpath := hfills.ofName?_of_dot (dot_mem_intercalate name next more)
    have hnone := hfills.ofName?_segment (List.mem_append_left _ (List.mem_singleton_self name)) hwhole hpath
    cases hslot.symm.trans hnone
  | nil =>
    obtain ⟨rfl, hend⟩ := hsame rfl
    have hpath : (Expr.variable (".".intercalate ([name] ++ []))).fill slots = slot.tree := by
      rw [List.append_nil, String.intercalate_singleton]
      simp [Expr.fill, hslot]
    rw [fillLexemes_name hslot, hpath]
    refine (hfills.operand slot (Slot.mem_of_ofName? hslot)).reads functions _ ?_
    rw [Apart, first_fillLexemes hfree]
    match ls, hend with
    | [], _ => cases hstop
    | [l], _ =>
      obtain rfl : l = stop := Option.some.inj hstop
      simp
    | l :: _ :: _, hend => exact ⟨hend.1, hend.2, hnext⟩

theorem Stopped.tail {l : Lexeme} (hstop : Stopped (l :: ls)) (hl : l.kind ≠ .stop) : Stopped ls :=
  (Leaves.cons hl (.refl _)).stopped hstop

theorem Fills.noSlot_path (hfills : Fills slots lexemes) {name : String} (hname : Slot.ofName? slots name = none)
    (h : Reads functions (.path [name]) ls e ms) : NoSlot slots (.path [name]) e := by
  rintro - path rfl
  obtain ⟨more, he, -⟩ := h.exists_path
  cases he
  cases more with
  | nil => rwa [List.append_nil, String.intercalate_singleton]
  | cons next more => exact hfills.ofName?_of_dot (dot_mem_intercalate name next more)

theorem Fills.kept_part (hfills : Fills slots lexemes) {segments : List String} {part : Lexeme}
    (h : Reads functions (.path (segments ++ [part.text])) ls e ms) (hwhole : e.NamesWhole slots)
    (hpath : NoSlot slots (.path (segments ++ [part.text])) e) : Kept slots part := by
  obtain ⟨more, rfl, -⟩ := h.exists_path
  exact fun _ => hfills.ofName?_segment (by simp) hwhole (hpath rfl _ rfl)

theorem Fills.ofName?_constant (hfills : Fills slots lexemes) {text : String} {v : Value}
    (hv : constant? text = some v) : Slot.ofName? slots text = none := by
  refine Slot.ofName?_eq_none.2 fun slot hslot hname => ?_
  have hnone := (hfills.identifier slot hslot).constant?_eq_none
  rw [hname, hv] at hnone
  cases hnone

theorem endsPath_fillLexemes (hfree : Free slots ls) (hend : EndsPath ls) : EndsPath (fillLexemes slots lexemes ls) := by
  match ls, hend with
  | [], _ => trivial
  | [l], _ =>
    rw [fillLexemes_cons (hfree l rfl)]
    trivial
  | l :: m :: ls, hend =>
    rw [fillLexemes_cons (hfree l rfl)]
    cases fillLexemes slots lexemes (m :: ls) with
    | nil => trivial
    | cons => exact hend

theorem kept_of_key? {name : Lexeme} {key : String} (hkey : name.key? = some key)
    (hslot : Slot.ofName? slots key = none) : Kept slots name := by
  intro hkind
  simp only [Lexeme.key?, hkind] at hkey
  rwa [Option.some.inj hkey]

theorem Closing.kind_ne_name (closing : Closing) : closing.kind ≠ .name := by
  cases closing <;> decide

theorem Closing.canBegin_kind (closing : Closing) : closing.kind.canBegin = false := by
  cases closing <;> rfl

/-- What is read from lexemes with names in them is read from those with operands in their place. -/
theorem Reads.fill (hfills : Fills slots lexemes) (h : Reads functions p ls e ms) (hstop : Stopped ls)
    (hfree : Free slots ms) (hwhole : e.NamesWhole slots) (hpath : NoSlot slots p e) :
    Reads functions (p.fill slots) (fillLexemes slots lexemes ls) (e.fill slots) (fillLexemes slots lexemes ms) := by
  induction h with
  | @level l _ _ _ _ _ hleft hchain ihleft ihchain =>
    have hlead := ihleft hstop (hfills.free_chain hchain hfree) (hchain.namesWhole_left hwhole) (l.noSlot_operand _)
    rw [Level.fill_operand] at hlead
    exact .level hlead (ihchain (hleft.leaves.stopped hstop) hfree hwhole nofun)
  | chainEnd hfirst =>
    refine .chainEnd ?_
    rwa [first_fillLexemes hfree]
  | @chain l left o _ _ _ op right _ hop hright hrest ihright ihrest =>
    have hstop' := hstop.tail (kind_ne_stop_of_operator? hop)
    have hoperand := ihright hstop' (hfills.free_chain hrest hfree) (hrest.namesWhole_left hwhole).2 (l.noSlot_operand _)
    rw [Level.fill_operand] at hoperand
    rw [fillLexemes_cons (hfills.kept_of_operator? hop)]
    exact .chain hop hoperand (ihrest (hright.leaves.stopped hstop') hfree hwhole nofun)
  | not ho h ih =>
    rw [fillLexemes_cons (hfills.kept_of_isKeyword (by decide) ho)]
    exact .not ho (ih (hstop.tail (kind_ne_stop_of_isKeyword ho)) hfree hwhole nofun)
  | comparison hfirst h ih => exact .comparison (hfills.isKeyword_first hfirst) (ih hstop hfree hwhole nofun)
  | minus ho h ih =>
    obtain rfl := Lexeme.isSign_iff.1 ho
    rw [fillLexemes_kind .operator nofun]
    exact .minus ho (ih (hstop.tail nofun) hfree hwhole nofun)
  | plus ho h ih =>
    obtain rfl := Lexeme.isSign_iff.1 ho
    rw [fillLexemes_kind .operator nofun]
    exact .plus ho (ih (hstop.tail nofun) hfree hwhole nofun)
  | primary hminus hplus h ih => exact ih hstop hfree hwhole nofun
  | number hv =>
    rw [fillLexemes_kind .number nofun]
    exact .primary rfl rfl (.number hv)
  | string =>
    rw [fillLexemes_kind .string nofun]
    exact .primary rfl rfl .string
  | paren h ih =>
    have hreads := ih (hstop.tail nofun) (free_kind .rightParen nofun _ _) hwhole nofun
    rw [fillLexemes_kind .rightParen nofun] at hreads
    rw [fillLexemes_kind .leftParen nofun]
    exact .primary rfl rfl (.paren hreads)
  | array h ih =>
    rw [fillLexemes_kind .leftBracket nofun]
    exact .primary rfl rfl (.array (ih (hstop.tail nofun) hfree hwhole nofun))
  | emptyObject =>
    rw [fillLexemes_kind .leftBrace nofun, fillLexemes_kind .rightBrace nofun]
    exact .primary rfl rfl .emptyObject
  | object hfirst h ih =>
    rw [fillLexemes_kind .leftBrace nofun]
    exact .primary rfl rfl (.object (hfills.kind_first rfl hfirst) (ih (hstop.tail nofun) hfree hwhole nofun))
  | constant hv hnext =>
    rw [fillLexemes_cons fun _ => hfills.ofName?_constant hv]
    refine .primary rfl rfl (.constant hv ?_)
    rwa [first_fillLexemes hfree]
  | call hword hknown h ih =>
    rw [fillLexemes_cons fun _ => hwhole.1, fillLexemes_kind .leftParen nofun]
    exact .primary rfl rfl (.call hword hknown (ih ((hstop.tail nofun).tail nofun) hfree hwhole.2 nofun))
  | @name text ls ms e hword hnext h ih =>
    have hstop' := hstop.tail nofun
    cases hslot : Slot.ofName? slots text with
    | some slot => exact hfills.reads_slot hslot h hstop' hnext hfree hwhole
    | none =>
      have hsame : first (fillLexemes slots lexemes ls) = first ls := first_fillLexemes (h.free_path hfree)
      rw [fillLexemes_cons fun _ => hslot]
      refine .primary rfl rfl (.name ?_ ?_ (ih hstop' hfree hwhole (hfills.noSlot_path hslot h)))
      · rwa [hsame]
      · rwa [hsame]
  | @pathEnd segments ls hend =>
    rw [hpath.fill_variable]
    exact .pathEnd (endsPath_fillLexemes hfree hend)
  | @part segments dot part ls ms e hpart h ih =>
    have hkept := hfills.kept_part h hwhole hpath
    rw [fillLexemes_kind .dot nofun, fillLexemes_cons hkept]
    have hstop' := (hstop.tail nofun).tail (by rcases hpart with hkind | hkind <;> simp [hkind])
    exact .part hpart (ih hstop' hfree hwhole hpath)
  | index h ih =>
    rw [fillLexemes_kind .leftBracket nofun, fillLexemes_kind .number nofun, fillLexemes_kind .rightBracket nofun]
    exact .index (ih (((hstop.tail nofun).tail nofun).tail nofun) hfree hwhole hpath)
  | @noArguments closing text ls =>
    rw [fillLexemes_kind closing.kind closing.kind_ne_name]
    exact .noArguments
  | @arguments closing _ _ _ hfirst h ih =>
    exact .arguments (hfills.kind_first closing.canBegin_kind hfirst) (ih hstop hfree hwhole nofun)
  | @lastItem closing _ _ _ _ h ih =>
    have hreads := ih hstop (free_kind _ closing.kind_ne_name _ _) hwhole.1 nofun
    rw [fillLexemes_kind closing.kind closing.kind_ne_name] at hreads
    exact .lastItem hreads
  | item h hrest ih ihrest =>
    have hreads := ih hstop (free_kind .comma nofun _ _) hwhole.1 nofun
    rw [fillLexemes_kind .comma nofun] at hreads
    exact .item hreads (ihrest ((h.leaves.stopped hstop).tail nofun) hfree hwhole.2 nofun)
  | lastEntry hkey h ih =>
    have hstop' := (hstop.tail (kind_ne_stop_of_key? hkey)).tail nofun
    have hreads := ih hstop' (free_kind .rightBrace nofun _ _) hwhole.2.1 nofun
    rw [fillLexemes_kind .rightBrace nofun] at hreads
    rw [fillLexemes_cons (kept_of_key? hkey hwhole.1), fillLexemes_kind .colon nofun]
    exact .lastEntry hkey hreads
  | entry hkey h hrest ih ihrest =>
    have hstop' := (hstop.tail (kind_ne_stop_of_key? hkey)).tail nofun
    have hreads := ih hstop' (free_kind .comma nofun _ _) hwhole.2.1 nofun
    rw [fillLexemes_kind .comma nofun] at hreads
    rw [fillLexemes_cons (kept_of_key? hkey hwhole.1), fillLexemes_kind .colon nofun]
    exact .entry hkey hreads (ihrest ((h.leaves.stopped hstop').tail nofun) hfree hwhole.2.2 nofun)

end Expression

end Flowline
