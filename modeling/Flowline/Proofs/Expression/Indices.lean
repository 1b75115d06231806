import Flowline.Condition.Evaluation
import Flowline.Proofs.Expression.Paths
import Flowline.Proofs.Expression.References
import Flowline.Proofs.Path

/-! # Paths with indices

Each segment of a path may end in an index: digits in brackets. The lexer cuts such a text where numbers end, and the
parser makes one path of keys between points from it; lookup cuts the text at its points and takes the brackets off
each segment. Both come to the same keys (`steps_keys`, `steps_text`), so a path has one value, whether it is read as
an expression, as a reference or as the field of a test (`path_read_alike`). -/

namespace Flowline.Expression

open Lexeme Text

/-- A segment of a path: a word or digits, and an index after it if there is one. -/
structure Segment where
  key : String
  index : Option String
  isSegment : IsSegment key.toList
  index_ne_nil : ∀ digits ∈ index, digits.toList ≠ []
  isDigits : ∀ digits ∈ index, IsDigits digits.toList

def Segment.text (s : Segment) : String :=
  match s.index with
  | some digits => s.key ++ "[" ++ digits ++ "]"
  | none => s.key

def Segment.keys (s : Segment) : List String := s.key :: s.index.toList

/-- A path: segments of which the first begins with an identifier. -/
structure IndexedPath where
  first : Segment
  rest : List Segment
  isIdentifier : IsIdentifier first.key

def IndexedPath.segments (p : IndexedPath) : List Segment := p.first :: p.rest

def IndexedPath.text (p : IndexedPath) : String := ".".intercalate (p.segments.map Segment.text)

def IndexedPath.keys (p : IndexedPath) : List String := p.segments.flatMap Segment.keys

/-! ## Characters -/

/-- A character of a key. -/
def isKeyChar (c : Char) : Bool := isNameChar c || isDecimal c

theorem IsSegment.ne_nil {cs : List Char} (h : IsSegment cs) : cs ≠ [] := by
  cases h <;> simp

theorem IsSegment.isKeyChar_of_mem {cs : List Char} (h : IsSegment cs) : ∀ c ∈ cs, isKeyChar c = true := by
  cases h with
  | word hc hcs =>
    refine List.forall_mem_cons.2 ⟨?_, fun c hc => ?_⟩
    · simp [isKeyChar, isNameChar_of_isNameStart hc]
    · simp [isKeyChar, hcs c hc]
  | digits hds => exact fun c hc => by simp [isKeyChar, hds c hc]

theorem not_isBlank_of_isKeyChar {c : Char} (h : isKeyChar c = true) : isBlank c = false := by
  refine Bool.eq_false_iff.2 fun hblank => ?_
  obtain ⟨hdecimal, hname, -⟩ := isBlank_cases hblank
  simp [isKeyChar, hdecimal, hname] at h

theorem stands_of_isKeyChar {cs : List Char} (h : ∀ c ∈ cs, isKeyChar c = true) : Path.Stands cs [cs] := by
  refine .plain fun key index hindexed => ?_
  cases hindexed
  cases h '[' (by simp)

namespace Segment

variable {s : Segment} {c : Char}

theorem toList_text (s : Segment) : s.text.toList =
    s.key.toList ++ s.index.toList.flatMap fun digits => '[' :: (digits.toList ++ [']']) := by
  unfold text
  split
  · next digits h => simp [h]
  · next h => simp [h]

theorem isKeyChar_of_mem_keys {key : String} (hkey : key ∈ s.keys) : ∀ c ∈ key.toList, isKeyChar c = true := by
  rcases List.mem_cons.1 hkey with rfl | hindex
  · exact s.isSegment.isKeyChar_of_mem
  · exact fun c hc => by simp [isKeyChar, s.isDigits key (by simpa using hindex) c hc]

theorem mem_text (hc : c ∈ s.text.toList) : isKeyChar c = true ∨ c = '[' ∨ c = ']' := by
  rw [toList_text, List.mem_append] at hc
  rcases hc with hc | hc
  · exact .inl (isKeyChar_of_mem_keys (List.mem_cons_self (l := s.index.toList)) c hc)
  · obtain ⟨digits, hdigits, hc⟩ := List.mem_flatMap.1 hc
    rcases List.mem_cons.1 hc with rfl | hc
    · exact .inr (.inl rfl)
    · rcases List.mem_append.1 hc with hc | hc
      · exact .inl (isKeyChar_of_mem_keys (List.mem_cons_of_mem s.key hdigits) c hc)
      · exact .inr (.inr (List.mem_singleton.1 hc))

theorem dot_not_mem (s : Segment) : '.' ∉ s.text.toList := by
  intro h
  rcases mem_text h with h | h | h <;> cases h

/-- A segment stands for its key and its index. -/
theorem stands (s : Segment) : Path.Stands s.text.toList (s.keys.map String.toList) := by
  have hline : '\n' ∉ s.key.toList := fun h => by cases s.isSegment.isKeyChar_of_mem _ h
  rw [toList_text, keys]
  cases hindex : s.index with
  | none =>
    simpa using stands_of_isKeyChar (s.isSegment.isKeyChar_of_mem)
  | some digits =>
    have hindexed := Path.Indexed.mk hline (s.index_ne_nil digits hindex) (s.isDigits digits hindex) (.inl rfl)
    simpa using Path.Stands.keyed hindexed s.isSegment.ne_nil

end Segment

/-! ## Keys -/

variable {segments : List Segment} {keys : List String} {cs : List Char} {c : Char}

theorem steps_segments (hne : segments ≠ []) : Path.steps (".".intercalate (segments.map Segment.text)).toList =
    (segments.flatMap Segment.keys).map String.toList := by
  have hstands : List.Forall₂ Path.Stands (segments.map fun s => s.text.toList)
      (segments.map fun s => s.keys.map String.toList) := by
    rw [List.forall₂_map_left_iff, List.forall₂_map_right_iff, List.forall₂_same]
    exact fun s _ => s.stands
  have hdot : ∀ segment ∈ segments.map fun s => s.text.toList, '.' ∉ segment :=
    List.forall_mem_map.2 fun s _ => s.dot_not_mem
  rw [String.toList_intercalate, List.map_map, List.map_flatMap, List.flatMap]
  exact Path.steps_intercalate (by simpa using hne) hdot hstands

theorem keyed_bracket (s : Segment) (h : Keyed keys cs) :
    Keyed (s.index.toList ++ keys) ((s.index.toList.flatMap fun digits => '[' :: (digits.toList ++ [']'])) ++ cs) := by
  cases hindex : s.index with
  | none => exact h
  | some digits =>
    have hkeyed := Keyed.bracket (s.index_ne_nil digits hindex) (s.isDigits digits hindex) h
    simpa using hkeyed

theorem keyed_segments (segments : List Segment) :
    Keyed (segments.flatMap Segment.keys) (segments.flatMap fun s => '.' :: s.text.toList) := by
  induction segments with
  | nil => exact .nil
  | cons s segments ih =>
    have hnone : IsBlanks [] := List.forall_mem_nil _
    have hkeyed := Keyed.point hnone hnone s.isSegment (keyed_bracket s ih)
    simpa [Segment.keys, Segment.toList_text] using hkeyed

theorem toList_intercalate_cons (first : String) (rest : List String) :
    (".".intercalate (first :: rest)).toList = first.toList ++ rest.flatMap fun part => '.' :: part.toList := by
  induction rest generalizing first with
  | nil => simp
  | cons part rest ih =>
    rw [String.intercalate_cons_cons, String.toList_append, String.toList_append, ih]
    simp

theorem mem_intercalate {parts : List String} (hc : c ∈ (".".intercalate parts).toList) :
    (∃ part ∈ parts, c ∈ part.toList) ∨ c = '.' := by
  cases parts with
  | nil => cases hc
  | cons first rest =>
    rw [toList_intercalate_cons, List.mem_append] at hc
    rcases hc with hc | hc
    · exact .inl ⟨first, List.mem_cons_self, hc⟩
    · obtain ⟨part, hpart, hc⟩ := List.mem_flatMap.1 hc
      rcases List.mem_cons.1 hc with rfl | hc
      · exact .inr rfl
      · exact .inl ⟨part, List.mem_cons_of_mem first hpart, hc⟩

namespace IndexedPath

variable {p : IndexedPath}

theorem isKeyChar_of_mem_text (hc : c ∈ p.text.toList) : isKeyChar c = true ∨ c = '.' ∨ c = '[' ∨ c = ']' := by
  rcases mem_intercalate hc with ⟨part, hpart, hc⟩ | rfl
  · obtain ⟨s, -, rfl⟩ := List.mem_map.1 hpart
    exact (s.mem_text hc).imp_right .inr
  · exact .inr (.inl rfl)

theorem not_isBlank_of_mem_text (hc : c ∈ p.text.toList) : isBlank c = false := by
  rcases isKeyChar_of_mem_text hc with hkey | hmark
  · exact not_isBlank_of_isKeyChar hkey
  · rcases hmark with rfl | rfl | rfl <;> rfl

/-- The text is read as the variable of its keys. -/
theorem renders (p : IndexedPath) : Renders p.text (.variable (".".intercalate p.keys)) := by
  have hkeyed := keyed_bracket p.first (keyed_segments p.rest)
  have htext : p.text.toList = p.first.key.toList ++
      ((p.first.index.toList.flatMap fun digits => '[' :: (digits.toList ++ [']'])) ++
        p.rest.flatMap fun s => '.' :: s.text.toList) := by
    rw [text, segments, List.map_cons, toList_intercalate_cons, Segment.toList_text, List.append_assoc,
      List.flatMap_map]
  rw [Renders, htext]
  exact hkeyed.exists_operand p.isIdentifier

theorem text_ne_nil (p : IndexedPath) : p.text.toList ≠ [] := p.renders.toList_ne_nil

end IndexedPath

/-! ## Lookup -/

theorem trimList_of_not_isBlank (hblank : ∀ c ∈ cs, isBlank c = false) (hne : cs ≠ []) : trimList cs = cs := by
  have htrim : trimList ([] ++ (cs ++ [])) = cs :=
    trimList_append (List.forall_mem_nil _) hblank hne (List.forall_mem_nil _)
  simpa using htrim

theorem lookupText_of_steps {path : String} (hblank : ∀ c ∈ path.toList, isBlank c = false) {keys : List (List Char)}
    (hsteps : Path.steps path.toList = keys) (hne : keys ≠ [[]]) (context : Value) :
    Path.lookupText path context = (Path.follow context keys).map (·.getD .null) := by
  have hpath : path.toList ≠ [] := by
    rintro hnil
    rw [hnil] at hsteps
    exact hne hsteps.symm
  rw [Path.lookupText_eq, trimList_of_not_isBlank hblank hpath, if_neg hpath, hsteps]

theorem not_isDigitLike_of_isNameStart (hc : isNameStart c = true) : isDigitLike c = false := by
  have hall : ∀ n < 128, Ranges.mem digitLikeRanges n = false := by decide +kernel
  simp [isDigitLike, not_isDecimal_of_isNameStart hc, hall c.toNat (ascii_of_isNameStart hc).1]

/-- A context that is empty or no context has nothing under an identifier. -/
theorem IsIdentifier.absent {name : String} (hname : IsIdentifier name) {context : Value}
    (h : context.isPresent = false) : Path.Absent context name.toList := by
  obtain ⟨c, cs, hchars, hc, -⟩ := hname.chars
  cases context with
  | scalar s => exact .scalar s _
  | set items => exact .set items _
  | map entries =>
    have hnil : entries = [] := by simpa [Value.isPresent, Value.isTruthy] using h
    exact hnil ▸ .entry rfl
  | list items =>
    have hdash : c ≠ '-' := by
      rintro rfl
      cases hc
    have hlike := not_isDigitLike_of_isNameStart hc
    rw [hchars]
    refine .index (fun i hindex => ?_) ?_
    · generalize hkey : c :: cs = key at hindex
      cases hindex with
      | front h =>
        rw [← hkey] at h
        have hdecimal := h.isDigits c (by simp)
        simp [not_isDecimal_of_isNameStart hc] at hdecimal
      | back h => exact hdash (List.cons.inj hkey).1
    · rintro ⟨n, digits, hkey, hne, hall, -⟩
      cases n with
      | zero =>
        rw [List.replicate_zero, List.nil_append] at hkey
        simp [hall c (by simp [← hkey])] at hlike
      | succ n =>
        rw [List.replicate_succ] at hkey
        exact hdash (List.cons.inj hkey).1

namespace IndexedPath

variable {p : IndexedPath}

theorem steps_text (p : IndexedPath) : Path.steps p.text.toList = p.keys.map String.toList :=
  steps_segments (List.cons_ne_nil p.first p.rest)

theorem isKeyChar_of_mem_keys {key : String} (hkey : key ∈ p.keys) : ∀ c ∈ key.toList, isKeyChar c = true := by
  obtain ⟨s, -, hkey⟩ := List.mem_flatMap.1 hkey
  exact s.isKeyChar_of_mem_keys hkey

theorem steps_keys (p : IndexedPath) :
    Path.steps (".".intercalate p.keys).toList = p.keys.map String.toList := by
  have hstands : List.Forall₂ Path.Stands (p.keys.map String.toList) (p.keys.map fun key => [key.toList]) := by
    rw [List.forall₂_map_left_iff, List.forall₂_map_right_iff, List.forall₂_same]
    exact fun key hkey => stands_of_isKeyChar (isKeyChar_of_mem_keys hkey)
  have hdot : ∀ segment ∈ p.keys.map String.toList, '.' ∉ segment :=
    List.forall_mem_map.2 fun key hkey h => by cases isKeyChar_of_mem_keys hkey _ h
  have hne : p.keys.map String.toList ≠ [] := by simp [keys, segments, Segment.keys]
  rw [String.toList_intercalate]
  refine (Path.steps_intercalate hne hdot hstands).trans ?_
  rw [← List.flatMap_def, List.map_eq_flatMap]

theorem not_isBlank_of_mem_keys (hc : c ∈ (".".intercalate p.keys).toList) : isBlank c = false := by
  rcases mem_intercalate hc with ⟨key, hkey, hc⟩ | rfl
  · exact not_isBlank_of_isKeyChar (isKeyChar_of_mem_keys hkey c hc)
  · rfl

theorem keys_ne (p : IndexedPath) : p.keys.map String.toList ≠ [[]] := by
  obtain ⟨c, cs, hname, -⟩ := p.isIdentifier.chars
  simp [keys, segments, Segment.keys, hname]

theorem lookupText_text (p : IndexedPath) (context : Value) : Path.lookupText p.text context =
    (Path.follow context (p.keys.map String.toList)).map (·.getD .null) :=
  lookupText_of_steps (fun _ => not_isBlank_of_mem_text) p.steps_text p.keys_ne context

theorem lookupText_keys (p : IndexedPath) (context : Value) :
    Path.lookupText (".".intercalate p.keys) context = Path.lookupText p.text context := by
  rw [lookupText_text, lookupText_of_steps (fun _ => not_isBlank_of_mem_keys) p.steps_keys p.keys_ne context]

/-- The variables around a template are the same for a path, even if there are none. -/
theorem lookupText_scope (p : IndexedPath) (context : Value) :
    Path.lookupText p.text (Template.scope context) = Path.lookupText p.text context := by
  cases hpresent : context.isPresent with
  | true => rw [Template.scope, if_pos hpresent]
  | false =>
    have hmisses {context : Value} (hpresent : context.isPresent = false) :
        Path.Misses context (p.keys.map String.toList) := .here (p.isIdentifier.absent hpresent)
    rw [Template.scope, if_neg (by simp [hpresent]), lookupText_text, lookupText_text,
      Path.follow_eq_none_iff.2 (hmisses hpresent), Path.follow_eq_none_iff.2 (hmisses rfl)]

end IndexedPath

/-! ## References -/

theorem pieces_reference (hne : cs ≠ []) (hcs : '\x7d' ∉ cs) :
    Template.pieces ('\x7b' :: '\x7b' :: (cs ++ ['\x7d', '\x7d'])) = [.reference cs] := by
  rw [Template.pieces_of_reference? (Template.reference?_eq_some_iff.2 ⟨rfl, hne, hcs⟩), Template.pieces_nil]

namespace IndexedPath

variable {p : IndexedPath}

theorem run_text (p : IndexedPath) (library : Library) (context : Value) :
    run library context p.text = Path.lookupText p.text context := by
  rw [run, parse_of_renders p.renders]
  dsimp only
  rw [Expr.evaluate, lookupText_keys, lookupText_scope]

theorem resolve_reference (p : IndexedPath) (context : Value) :
    Template.resolve (.str ("\x7b\x7b" ++ p.text ++ "\x7d\x7d")) context = Path.lookupText p.text context := by
  have hbrace : '\x7d' ∉ p.text.toList := fun h => by
    rcases isKeyChar_of_mem_text h with h | h | h | h <;> cases h
  have htext : ("\x7b\x7b" ++ p.text ++ "\x7d\x7d").toList =
      '\x7b' :: '\x7b' :: (p.text.toList ++ ['\x7d', '\x7d']) := by simp
  rw [Template.resolve, Template.resolveText, htext, pieces_reference p.text_ne_nil hbrace]
  simp only [Template.sole?, Template.Piece.isReference, Template.Piece.isBlank, List.any_cons, List.filter_cons,
    Bool.true_or, Bool.not_true, Bool.not_false, Bool.false_eq_true, if_false, if_true, List.filter_nil]
  rw [String.ofList_toList, lookupText_scope]

theorem runWithReferences_text (p : IndexedPath) (library : Library) (context : Value) :
    runWithReferences library context p.text = Path.lookupText p.text context := by
  have hbrace : '\x7b' ∉ p.text.toList := fun h => by
    rcases isKeyChar_of_mem_text h with h | h | h | h <;> cases h
  have htrim : trim p.text = p.text := by
    rw [trim, trimList_of_not_isBlank (fun _ => not_isBlank_of_mem_text) p.text_ne_nil, String.ofList_toList]
  have hfilled : substitute (Template.scope context) (trim p.text) = .ok p.text := by
    rw [htrim]
    exact substitute_of_no_brace _ hbrace
  rw [runWithReferences_of_substitute hfilled (parse_of_renders p.renders)]
  change falseOnFault (Path.lookupText (".".intercalate p.keys) (Template.scope context)) = _
  rw [lookupText_keys, lookupText_scope]
  cases hvalue : Path.lookupText p.text context with
  | error fault =>
    obtain rfl := Path.lookupText_fails p.text context fault hvalue
    rfl
  | ok v => rfl

end IndexedPath

/-- A path has one value: as an expression, as an expression with references, as a reference on its own, and as the
field that a test looks at. -/
theorem path_read_alike (p : IndexedPath) (context : Value) :
    (∀ library, run library context p.text = Path.lookup (.str p.text) context) ∧
    (∀ library, runWithReferences library context p.text = Path.lookup (.str p.text) context) ∧
    Template.resolve (.str ("\x7b\x7b" ++ p.text ++ "\x7d\x7d")) context = Path.lookup (.str p.text) context ∧
    ∀ language operator value, Condition.holds language context (.test (.str p.text) operator value) = (do
      let actual ← Path.lookup (.str p.text) context
      let value ← Condition.expected (Template.scope context) value
      let test ← language.operator operator
      match test actual value with
      | .ok b => return b
      | .error fault => if Condition.isRefusal fault then do let _ ← actual.shown; return false else .error fault) := by
  refine ⟨fun library => p.run_text library context, fun library => p.runWithReferences_text library context,
    p.resolve_reference context, fun language operator value => ?_⟩
  rw [Condition.holds, Condition.runTest]
  change (do
    let actual ← Path.lookupText p.text (Template.scope context)
    _) = _
  rw [p.lookupText_scope]
  rfl

/-- A segment without an index. -/
def Segment.plain (key : String) (h : IsSegment key.toList) : Segment := ⟨key, none, h, by simp, by simp⟩

/-- A path with a point between digits, an index, and a word that looks like an exponent. -/
def mixedPath : IndexedPath where
  first := .plain "a" (show IsSegment ['a'] from .word rfl (List.forall_mem_nil _))
  rest := [.plain "0" (show IsSegment ['0'] from .digits (List.all_eq_true.1 rfl)),
    ⟨"12", some "3", show IsSegment ['1', '2'] from .digits (List.all_eq_true.1 rfl), by simp, by
      rintro _ ⟨⟩
      exact List.all_eq_true.1 (rfl : ['3'].all isDecimal = true)⟩,
    .plain "e5" (show IsSegment ['e', '5'] from .word rfl (List.all_eq_true.1 rfl))]
  isIdentifier := ⟨⟨'a', [], rfl, rfl, rfl⟩, by decide +kernel⟩

/-- The point between `0` and `12` is no point of a number. -/
theorem path_read_alike_mixed (library : Library) : run library (.object [("a", .list [.object [("12",
    .list [.null, .null, .null, .object [("e5", .int 7)]])]])]) "a.0.12[3].e5" = .ok (.int 7) :=
  (path_read_alike mixedPath _).1 library

end Flowline.Expression
