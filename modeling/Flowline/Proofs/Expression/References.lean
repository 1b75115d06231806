import Flowline.Proofs.Expression.Filling
import Flowline.Proofs.Expression.Numerals
import Flowline.Proofs.Template

/-! # References in expressions

A reference that stands outside quotes, between blanks or the ends of the text, gives way to an operand.
Whatever the values are, the text with their texts in it is read as the tree of the text with names in it,
each of these variables replaced by the tree of its value (`parse_weave`). So no value can change what
the rest of an expression means. -/

namespace Flowline.Template

open Expression (Quoting quoting)

/-- The paths of the references, in their order. -/
def paths : List Piece → List (List Char)
  | [] => []
  | .literal _ :: ps => paths ps
  | .reference path :: ps => path :: paths ps

/-- The characters outside references. -/
def literals : List Piece → List Char
  | [] => []
  | .literal c :: ps => c :: literals ps
  | .reference _ :: ps => literals ps

/-- The text of pieces with these texts, one after the other, in the place of the references. -/
def weave : List Piece → List String → List Char
  | [], _ => []
  | .literal c :: ps, texts => c :: weave ps texts
  | .reference _ :: ps, text :: texts => text.toList ++ weave ps texts
  | .reference _ :: ps, [] => weave ps []

/-- Every reference stands outside quotes, and between blanks or the ends of the text. -/
structure Delimited (ps : List Piece) : Prop where
  blank_before : ∀ before path after, ps = before ++ .reference path :: after → ∀ p ∈ before.getLast?, p.isBlank = true
  blank_after : ∀ before path after, ps = before ++ .reference path :: after → ∀ p ∈ after.head?, p.isBlank = true
  unquoted : ∀ before path after, ps = before ++ .reference path :: after →
    quoting .outside (literals before) = .outside

/-! ## Pieces -/

theorem literals_append (ps qs : List Piece) : literals (ps ++ qs) = literals ps ++ literals qs := by
  induction ps with
  | nil => rfl
  | cons p ps ih =>
    cases p with
    | literal c => exact congrArg (c :: ·) ih
    | reference path => exact ih

theorem literals_map (cs : List Char) : literals (cs.map .literal) = cs := by
  induction cs with
  | nil => rfl
  | cons c cs ih => exact congrArg (c :: ·) ih

/-- What follows a reference is delimited too. -/
theorem Delimited.tail {before after : List Piece} {path : List Char}
    (h : Delimited (before ++ .reference path :: after)) : Delimited after := by
  have hsplit {b q a} (hafter : after = b ++ .reference q :: a) :
      before ++ .reference path :: after = (before ++ .reference path :: b) ++ .reference q :: a := by
    rw [hafter, List.append_assoc, List.cons_append]
  refine ⟨fun b q a hafter p hp => ?_, fun b q a hafter => h.blank_after _ q a (hsplit hafter), fun b q a hafter => ?_⟩
  · refine h.blank_before _ q a (hsplit hafter) p ?_
    cases b with
    | nil => cases hp
    | cons c b => rwa [List.getLast?_append_of_ne_nil _ (List.cons_ne_nil _ _), List.getLast?_cons_cons]
  · have hall := h.unquoted _ q a (hsplit hafter)
    rwa [literals_append, Expression.quoting_append, h.unquoted before path after rfl] at hall

/-- One reference between blanks or ends is delimited. -/
theorem delimited_one {a b path : List Char} (hbefore : ∀ c ∈ a.getLast?, Text.isBlank c = true)
    (hafter : ∀ c ∈ b.head?, Text.isBlank c = true) (houtside : quoting .outside a = .outside) :
    Delimited (a.map .literal ++ .reference path :: b.map .literal) := by
  have hsame {before q after} (hsplit : a.map Piece.literal ++ Piece.reference path :: b.map Piece.literal =
      before ++ Piece.reference q :: after) : a.map Piece.literal = before ∧ b.map Piece.literal = after := by
    have hnot {cs : List Char} : Piece.reference q ∉ cs.map Piece.literal := by simp
    obtain ⟨hfront, -, hback⟩ := (List.append_cons_inj_of_notMem hnot hnot).1 hsplit
    exact ⟨hfront, hback⟩
  refine ⟨fun before q after hsplit p hp => ?_, fun before q after hsplit p hp => ?_, fun before q after hsplit => ?_⟩
  · rw [← (hsame hsplit).1, List.getLast?_map] at hp
    obtain ⟨c, hc, rfl⟩ := Option.mem_map.1 hp
    exact hbefore c hc
  · rw [← (hsame hsplit).2, List.head?_map] at hp
    obtain ⟨c, hc, rfl⟩ := Option.mem_map.1 hp
    exact hafter c hc
  · rwa [← (hsame hsplit).1, literals_map]

/-- A reference takes its characters from the front. -/
theorem suffix_of_reference? {cs path rest : List Char} (h : reference? cs = some (path, rest)) : rest <:+ cs := by
  rw [(reference?_eq_some_iff.1 h).1]
  exact ⟨'\x7b' :: '\x7b' :: (path ++ ['\x7d', '\x7d']), by simp⟩

theorem fill_eq_ok {textOf : List Char → Except Fault String} {ps : List Piece} {texts : List String}
    (h : List.Forall₂ (fun path text => textOf path = .ok text) (paths ps) texts) :
    fill textOf ps = .ok (weave ps texts) := by
  induction ps generalizing texts with
  | nil => rfl
  | cons p ps ih =>
    cases p with
    | literal c => exact bind_eq_ok.2 ⟨_, ih h, rfl⟩
    | reference path =>
      cases h with
      | cons htext hrest => exact bind_eq_ok.2 ⟨_, htext, bind_eq_ok.2 ⟨_, ih hrest, rfl⟩⟩

end Flowline.Template

namespace Flowline.Expression

open Lexeme Text Template

variable {functions : String → Bool} {slots : List Slot} {lexemes : Slot → List Lexeme} {ls : List Lexeme}

/-! ## Quotes -/

/-- The quote that is open is a quote. -/
def Quoting.IsOpen : Quoting → Prop
  | .outside => True
  | .inside quote => isQuote quote = true
  | .escaped quote => isQuote quote = true

theorem Quoting.isOpen_next {q : Quoting} (h : q.IsOpen) (c : Char) : (q.next c).IsOpen := by
  cases q with
  | outside =>
    simp only [Quoting.next]
    split
    · next hc => exact hc
    · trivial
  | inside quote =>
    simp only [Quoting.next]
    split
    · trivial
    · split <;> exact h
  | escaped quote => exact h

theorem isOpen_quoting {q : Quoting} (h : q.IsOpen) (cs : List Char) : (quoting q cs).IsOpen := by
  induction cs generalizing q with
  | nil => exact h
  | cons c cs ih => exact ih (Quoting.isOpen_next h c)

theorem not_isQuote_of_isBlank {b : Char} (hb : isBlank b = true) : ¬isQuote b = true := fun hquote => by
  rcases (by simpa [isQuote] using hquote : b = '"' ∨ b = '\'') with rfl | rfl <;> cases hb

/-- A blank closes no quotes. -/
theorem quoting_of_blank {cs : List Char} {b : Char} (hb : isBlank b = true)
    (h : quoting .outside (cs ++ [b]) = .outside) : quoting .outside cs = .outside := by
  have hopen : (quoting .outside cs).IsOpen := isOpen_quoting (show Quoting.outside.IsOpen from trivial) cs
  rw [quoting_append] at h
  generalize quoting .outside cs = q at h hopen
  cases q with
  | outside => rfl
  | inside quote =>
    have hne : ¬(b == quote) = true := fun heq => not_isQuote_of_isBlank hb (beq_iff_eq.1 heq ▸ hopen)
    simp only [quoting_cons, Quoting.next, if_neg hne] at h
    split at h <;> cases h
  | escaped quote => cases h

/-! ## Lexemes -/

/-- A lexeme is a part of the text. -/
theorem Lexes.infix {cs : List Char} (h : Lexes cs ls) : ∀ l ∈ ls, l.text.toList <:+: cs := by
  induction h with
  | nil => exact nofun
  | blank _ _ ih => exact fun l hl => (ih l hl).trans (List.suffix_cons _ _).isInfix
  | @token c kind body rest ls _ _ ih =>
    refine List.forall_mem_cons.2 ⟨?_, fun l hl => ?_⟩
    · rw [String.toList_ofList]
      exact ⟨[], rest, by simp⟩
    · exact (ih l hl).trans ⟨c :: body, [], by simp⟩

/-- A text in which no slot's name stands is kept. -/
theorem fillLexemes_of_fresh {cs : List Char} (h : Lexes cs ls) (hfresh : ∀ slot ∈ slots, ¬slot.name.toList <:+: cs) :
    fillLexemes slots lexemes ls = ls := by
  have hkept : ∀ l ∈ ls, Kept slots l := fun l hl _ =>
    Slot.ofName?_eq_none.2 fun slot hslot hname => hfresh slot hslot (hname ▸ h.infix l hl)
  clear h
  induction ls with
  | nil => rfl
  | cons l ls ih =>
    obtain ⟨hl, hls⟩ := List.forall_mem_cons.1 hkept
    rw [fillLexemes_cons hl, ih hls]

theorem IsIdentifier.quoting {name : String} (h : IsIdentifier name) : quoting .outside name.toList = .outside := by
  obtain ⟨c, cs, hname, hc, hcs⟩ := h.chars
  rw [hname]
  refine quoting_outside fun d hd hquote => ?_
  have hd : isNameChar d = true := by
    rcases List.mem_cons.1 hd with rfl | hd
    · exact isNameChar_of_isNameStart hc
    · exact List.all_eq_true.1 hcs d hd
  cases hd.symm.trans (isSeparator_cases (isSeparator_of_isQuote hquote)).2.1

theorem separated_weave {ps : List Piece} (h : ∀ p ∈ ps.head?, p.isBlank = true) (texts : List String) :
    Separated (weave ps texts) := by
  cases ps with
  | nil => exact nofun
  | cons p ps =>
    cases p with
    | literal c =>
      rintro _ ⟨⟩
      have hc : isBlank c = true := h _ rfl
      simp [isSeparator, hc]
    | reference path => cases h _ rfl

/-- A text that ends in a blank outside quotes is cut off from what follows. -/
theorem lexes_append_iff {a Z : List Char} (hblank : ∀ b ∈ a.getLast?, isBlank b = true)
    (houtside : Expression.quoting .outside a = .outside) :
    Lexes (a ++ Z) ls ↔ ∃ ks ms, ls = ks ++ ms ∧ Lexes a ks ∧ Lexes Z ms := by
  rcases List.eq_nil_or_concat' a with rfl | ⟨cs, b, rfl⟩
  · refine ⟨fun h => ⟨[], ls, rfl, .nil, h⟩, ?_⟩
    rintro ⟨ks, ms, rfl, hks, hms⟩
    obtain rfl := hks.unique .nil
    exact hms
  have hb : isBlank b = true := hblank b (by simp)
  have hseparated {cs : List Char} : Separated (b :: cs) := separated_cons (by simp [isSeparator, hb])
  have hcs := quoting_of_blank hb houtside
  rw [List.append_assoc]
  constructor
  · intro h
    obtain ⟨ks, ms, rfl, hks, hms⟩ := h.split hseparated hcs
    have hend := hks.append hseparated (.blank hb .nil)
    rw [List.append_nil] at hend
    exact ⟨ks, ms, rfl, hend, hms.of_blank hb⟩
  · rintro ⟨ks, ms, rfl, hks, hms⟩
    obtain ⟨front, none, rfl, hfront, hnone⟩ := hks.split hseparated hcs
    obtain rfl := hnone.unique (.blank hb .nil)
    rw [List.append_nil]
    exact hfront.append hseparated (.blank hb hms)

/-- The lexemes of the text with names, with operands in their place, are those of the text with values. The
induction is on the text; `a` are the characters since the last reference. -/
theorem lexes_weave (hfills : Fills slots lexemes) (hnames : (slots.map Slot.name).Nodup)
    (htexts : ∀ slot ∈ slots, Lexes slot.text.toList (lexemes slot)) {cs a : List Char} {left : List Slot}
    (hcount : (paths (pieces cs)).length = left.length) (hleft : left ⊆ slots)
    (hdelimited : Delimited (a.map .literal ++ pieces cs)) (hfresh : ∀ slot ∈ slots, ¬slot.name.toList <:+: a ++ cs)
    (h : Lexes (a ++ weave (pieces cs) (left.map Slot.name)) ls) :
    Lexes (a ++ weave (pieces cs) (left.map Slot.text)) (fillLexemes slots lexemes ls) := by
  fun_induction pieces cs generalizing a left ls with
  | case1 cs path rest hreference ih =>
    cases left with
    | nil => cases hcount
    | cons slot left =>
      obtain ⟨hslot, hleft⟩ := List.cons_subset.1 hleft
      have hidentifier := hfills.identifier slot hslot
      have hblank : ∀ b ∈ a.getLast?, isBlank b = true := by
        intro b hb
        refine hdelimited.blank_before _ path _ rfl (.literal b) ?_
        rw [List.getLast?_map]
        exact Option.mem_map_of_mem _ hb
      have houtside := hdelimited.unquoted _ path _ rfl
      rw [literals_map] at houtside
      have hafter := hdelimited.blank_after _ path _ rfl
      have hfreshAfter : ∀ slot ∈ slots, ¬slot.name.toList <:+: [] ++ rest := by
        intro slot hslot hpart
        have hrest : rest <:+: a ++ cs :=
          (suffix_of_reference? hreference).isInfix.trans (List.suffix_append a cs).isInfix
        exact hfresh slot hslot (hpart.trans hrest)
      obtain ⟨ks, ms, rfl, hks, hms⟩ := (lexes_append_iff hblank houtside).1 h
      obtain ⟨ns, rs, rfl, hns, hrs⟩ := hms.split (separated_weave hafter _) hidentifier.quoting
      obtain rfl := hns.unique hidentifier.lexes
      have hrest := ih (a := []) (Nat.succ.inj hcount) hleft hdelimited.tail hfreshAfter hrs
      rw [fillLexemes_append, List.singleton_append, fillLexemes_name (Slot.ofName?_of_mem hnames hslot),
        fillLexemes_of_fresh hks fun slot hslot hpart =>
          hfresh slot hslot (hpart.trans (List.prefix_append _ _).isInfix)]
      have hvalue := (htexts slot hslot).append (separated_weave hafter _) hrest
      exact (lexes_append_iff hblank houtside).2 ⟨ks, _, rfl, hks, hvalue⟩
  | case2 =>
    rw [fillLexemes_of_fresh h]
    · exact h
    · simpa [weave] using hfresh
  | case3 c rest hreference ih =>
    have hnext {R : List Char} : a ++ c :: R = (a ++ [c]) ++ R := by simp
    have hpieces : a.map Piece.literal ++ .literal c :: pieces rest = (a ++ [c]).map .literal ++ pieces rest := by simp
    rw [hpieces] at hdelimited
    rw [hnext] at hfresh
    rw [weave, hnext] at h ⊢
    exact ih hcount hleft hdelimited hfresh h

/-! ## Templates -/

/-- A text with references, whose values have texts that parse on their own, is read with a new name in the
place of each reference, and the names are nothing but whole paths in what is read. -/
structure Reading (functions : String → Bool) (context : Value) (s : String) (slots : List Slot) (t : Expr) : Prop where
  delimited : Delimited (pieces s.toList)
  values : List.Forall₂ (fun path slot => (do (← Path.lookupText (String.ofList path) context).expressionText) =
    .ok slot.text) (paths (pieces s.toList)) slots
  trees : ∀ slot ∈ slots, parse functions slot.text = .ok slot.tree
  identifiers : ∀ slot ∈ slots, IsIdentifier slot.name
  distinct : (slots.map Slot.name).Nodup
  fresh : ∀ slot ∈ slots, ¬slot.name.toList <:+: s.toList
  parses : parse functions (String.ofList (weave (pieces s.toList) (slots.map Slot.name))) = .ok t
  whole : t.NamesWhole slots

variable {context : Value} {s : String} {t : Expr}

/-- The values stand as operands. -/
theorem Reading.renders (h : Reading functions context s slots t) : ∀ slot ∈ slots, Renders slot.text slot.tree := by
  have hvalues : List.Forall₂ (fun slot (_ : List Char) => (∃ v : Value, v.expressionText = .ok slot.text) ∧ True) slots
      (paths (pieces s.toList)) := by
    refine (h.values.imp fun path slot hvalue => ?_).flip
    obtain ⟨v, -, htext⟩ := bind_eq_ok.1 hvalue
    exact ⟨⟨v, htext⟩, trivial⟩
  intro slot hslot
  obtain ⟨v, htext⟩ := ((List.forall₂_and_left _ _).1 hvalues).1 slot hslot
  exact renders_of_parse htext (h.trees slot hslot)

/-- The text with the values in it is read as the tree with their trees in it. -/
theorem Reading.parse_filled (h : Reading functions context s slots t) :
    ∃ filled, substitute context s = .ok filled ∧ parse functions filled = .ok (t.fill slots) := by
  choose! lexemes hlexemes using h.renders
  have hfills : Fills slots lexemes := ⟨h.identifiers, fun slot hslot => (hlexemes slot hslot).2⟩
  obtain ⟨ls, hlexes, hreads⟩ := parse_eq_ok_iff.1 h.parses
  rw [String.toList_ofList] at hlexes
  have hwoven := lexes_weave (a := []) hfills h.distinct (fun slot hslot => (hlexemes slot hslot).1)
    h.values.length_eq (List.Subset.refl _) h.delimited h.fresh hlexes
  have hfilled := hreads.fill hfills (List.getLast?_concat ..) (free_kind .stop nofun _ _) h.whole nofun
  rw [fillLexemes_append, fillLexemes_kind .stop nofun] at hfilled
  refine ⟨_, bind_eq_ok.2 ⟨_, fill_eq_ok (List.forall₂_map_right_iff.2 h.values), rfl⟩, parse_eq_ok_iff.2 ⟨_, ?_, hfilled⟩⟩
  rwa [String.toList_ofList]

theorem scope_scope (vars : Value) : Template.scope (Template.scope vars) = Template.scope vars := by
  unfold Template.scope
  split <;> rfl

theorem paths_map_literal (cs : List Char) : Template.paths (cs.map .literal) = [] := by
  induction cs with
  | nil => rfl
  | cons c cs ih => exact ih

theorem weave_map_literal (cs : List Char) (texts : List String) : weave (cs.map .literal) texts = cs := by
  induction cs with
  | nil => rfl
  | cons c cs ih => exact congrArg (c :: ·) ih

/-- A text without references is left as it is. -/
theorem substitute_of_no_brace (context : Value) (hs : '\x7b' ∉ s.toList) : substitute context s = .ok s := by
  have hnone {P : List Char → String → Prop} : List.Forall₂ P (paths (s.toList.map .literal)) [] := by
    rw [paths_map_literal]
    exact .nil
  unfold substitute Template.substitute
  rw [pieces_of_no_brace hs, fill_eq_ok hnone, weave_map_literal]
  exact congrArg Except.ok (String.ofList_toList)

/-- A fault of an expression counts as false. -/
def falseOnFault : Except Fault Value → Except Fault Value
  | .error (.expression _) => .ok (.bool false)
  | result => result

/-- A text with references has the value of the text with the values in it. -/
theorem runWithReferences_of_substitute {library : Library} {filled : String} {e : Expr}
    (hfilled : substitute (Template.scope context) (Text.trim s) = .ok filled)
    (hparse : parse (fun name => (library.function? name).isSome) filled = .ok e) :
    runWithReferences library context s = falseOnFault (e.evaluate library (Template.scope context)) := by
  have hconstant {word : String} {v : Value} (hword : (Text.trim s == word) = true) (hbrace : '\x7b' ∉ word.toList)
      (hv : Renders word (.literal v)) : e = .literal v := by
    rw [beq_iff_eq.1 hword, substitute_of_no_brace _ hbrace] at hfilled
    cases hfilled
    exact Except.ok.inj (hparse.symm.trans (parse_of_renders hv))
  unfold runWithReferences
  dsimp only
  split
  · next hword =>
    rw [hconstant hword (by decide) (renders_bool true)]
    rfl
  split
  · next hword =>
    rw [hconstant hword (by decide) (renders_bool false)]
    rfl
  · have hrun : run library (Template.scope context) filled = e.evaluate library (Template.scope context) := by
      simp only [run, hparse, scope_scope]
    rw [hfilled, ← hrun]
    change (match run library (Template.scope context) filled with
      | .error (.expression _) => pure (Value.bool false)
      | result => result) = _
    cases run library (Template.scope context) filled with
    | ok v => rfl
    | error cause => cases cause <;> rfl

/-- The value of a text with references is that of the tree with the trees of the values in it. -/
theorem Reading.runWithReferences_eq {library : Library}
    (h : Reading (fun name => (library.function? name).isSome) (Template.scope context) (Text.trim s) slots t) :
    runWithReferences library context s = falseOnFault ((t.fill slots).evaluate library (Template.scope context)) := by
  obtain ⟨filled, hfilled, hparse⟩ := h.parse_filled
  exact runWithReferences_of_substitute hfilled hparse

/-- Substitution does not change the tree around references: the text with the values in it is that tree, with
the trees of the values for the names, and its value is the value of the text. -/
theorem substitution_keeps_tree (library : Library)
    (h : Reading (fun name => (library.function? name).isSome) (Template.scope context) (Text.trim s) slots t) :
    (∃ filled, substitute (Template.scope context) (Text.trim s) = .ok filled ∧
      parse (fun name => (library.function? name).isSome) filled = .ok (t.fill slots)) ∧
    runWithReferences library context s = falseOnFault ((t.fill slots).evaluate library (Template.scope context)) :=
  ⟨h.parse_filled, h.runWithReferences_eq⟩

/-- A value that would close its quotes and go on with an operator. -/
theorem substitution_keeps_tree_quoted :
    Reading (fun name => (Library.function? [] name).isSome) (Template.scope (.object [("x", .str "\" or 1")]))
      (Text.trim "\x7b\x7bx\x7d\x7d == y") [⟨"p", Json.string "\" or 1", .literal (.str "\" or 1")⟩]
      (.binary .eq (.variable "p") (.variable "y")) ∧
    (∃ filled, substitute (Template.scope (.object [("x", .str "\" or 1")])) (Text.trim "\x7b\x7bx\x7d\x7d == y") =
        .ok filled ∧ parse (fun name => (Library.function? [] name).isSome) filled =
          .ok (.binary .eq (.literal (.str "\" or 1")) (.variable "y"))) ∧
    runWithReferences [] (.object [("x", .str "\" or 1")]) "\x7b\x7bx\x7d\x7d == y" = .ok (.bool false) := by
  have hpieces : pieces (Text.trim "\x7b\x7bx\x7d\x7d == y").toList = .reference ['x'] :: " == y".toList.map .literal := by
    decide +kernel
  have hreading : Reading (fun name => (Library.function? [] name).isSome)
      (Template.scope (.object [("x", .str "\" or 1")])) (Text.trim "\x7b\x7bx\x7d\x7d == y")
      [⟨"p", Json.string "\" or 1", .literal (.str "\" or 1")⟩] (.binary .eq (.variable "p") (.variable "y")) := by
    refine ⟨?_, ?_, ?_, ?_, by simp, ?_, ?_, ?_⟩
    · rw [hpieces]
      exact delimited_one (a := []) nofun (by rintro _ ⟨⟩; rfl) rfl
    · rw [hpieces]
      exact .cons rfl .nil
    · exact List.forall_mem_singleton.2 (parse_of_renders (renders_string _))
    · exact List.forall_mem_singleton.2 ⟨⟨'p', [], rfl, rfl, rfl⟩, by decide +kernel⟩
    · exact List.forall_mem_singleton.2 (by decide +kernel)
    · rw [hpieces]
      exact bind_eq_ok.2 ⟨[⟨.name, "p", 0⟩, ⟨.operator, "==", 2⟩, ⟨.name, "y", 5⟩, ⟨.stop, "", 6⟩], by decide +kernel, by cbv⟩
    · exact ⟨.inl rfl, .inr (by decide +kernel)⟩
  obtain ⟨hfilled, hrun⟩ := substitution_keeps_tree [] hreading
  exact ⟨hreading, hfilled, hrun⟩

end Flowline.Expression
