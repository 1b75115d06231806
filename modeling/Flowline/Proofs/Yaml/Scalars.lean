import Flowline.Proofs.Value.Faults
import Flowline.Proofs.Value.Records
import Flowline.Proofs.Yaml.Numbers
import Flowline.Proofs.Yaml.Quoting
import Flowline.Value.Convert

/-! # Scalars of JSON in YAML

What JSON writes without quotes is read as the same scalar (`scalarValue_ofPlain`), but for numbers without a point
in their text, which YAML takes for texts: a power of ten such as `1e+16`, and what is not finite. -/

namespace Flowline

/-- A double in whose text a point stands. -/
def Double.isPointed (x : Float) : Bool := (Json.number x).toList.contains '.'

/-- The scalar as which YAML reads what JSON has written. -/
def Scalar.reread : Scalar → Scalar
  | .float x => if Double.isPointed x then .float x else .str (Json.number x)
  | .str s => .str (Yaml.foldedText s)
  | s => s

/-- A scalar is read as itself: a double with a point, a text that folding leaves as it is, or one of another kind. -/
def Scalar.isKept : Scalar → Bool
  | .float x => Double.isPointed x
  | .str s => Yaml.foldedText s == s
  | _ => true

/-! ## Zero -/

namespace Double

open Float.Model Float.Model.UnpackedFloat

theorem unpack_zero : (0 : Float).toModel.unpack = .zero .positive := by
  have hbits : (0 : Float).toModel.toBits = 0 := by decide +kernel
  unfold Float.Model.unpack
  rw [hbits]
  rfl

/-- What equals zero is a zero of either sign. -/
theorem exists_unpack_zero {x : Float} (h : (x == 0) = true) : ∃ s, x.toModel.unpack = .zero s := by
  have hcompare : (x.toModel.unpack.compare (0 : Float).toModel.unpack == some Ordering.eq) = true := h
  rw [unpack_zero] at hcompare
  cases hx : x.toModel.unpack with
  | zero s => exact ⟨s, rfl⟩
  | notANumber =>
    rw [hx] at hcompare
    cases hcompare
  | infinity s | finite s =>
    rw [hx] at hcompare
    cases s <;> cases hcompare

theorem parts?_of_eq_zero {x : Float} (h : (x == 0) = true) : ∃ negative, parts? x = some ⟨negative, 0, -1074⟩ := by
  obtain ⟨s, hs⟩ := exists_unpack_zero h
  unfold Float.Model.unpack UnpackedFloat.unpack at hs
  dsimp only at hs
  split at hs
  · split at hs <;> cases hs
  split at hs
  · next hexponent =>
    split at hs
    · next hmantissa =>
      replace hexponent := congrArg BitVec.toNat hexponent
      replace hmantissa := congrArg BitVec.toNat hmantissa
      rw [toNat_unpackExponent] at hexponent
      rw [toNat_unpackMantissa] at hmantissa
      have hbiased : x.toBits.toNat / twoTo 52 % twoTo 11 = 0 := hexponent
      have hfraction : x.toBits.toNat % twoTo 52 = 0 := hmantissa
      refine ⟨decide (twoTo 63 ≤ x.toBits.toNat), ?_⟩
      simp only [parts?, hbiased, hfraction]
      rfl
    · cases hs
  · cases hs

/-- Zero is written with a point. -/
theorem isPointed_of_eq_zero {x : Float} (h : (x == 0) = true) : isPointed x = true := by
  obtain ⟨negative, hparts⟩ := parts?_of_eq_zero h
  have hnan : x.isNaN = false := isNaN_eq_false_of_parts? (by rw [hparts]; rfl)
  have htext : Json.number x = (if isNegative x then "-" else "") ++ "0.0" := by
    rw [Json.number, hnan, hparts, text, hnan, hparts]
    rfl
  rw [isPointed, htext]
  cases isNegative x <;> rfl

end Double

namespace Yaml

/-! ## The kind of a text -/

/-- None of some words is in the characters of numbers. -/
def areWords (words : List String) : Bool := words.all fun w => w == "" || !w.toList.all numberChars.contains

theorem contains_eq_false (words : List String) (hwords : areWords words = true) {text : String}
    (hchars : ∀ c ∈ text.toList, c ∈ numberChars) (hne : text ≠ "") : words.contains text = false := by
  rw [List.contains_eq_mem, decide_eq_false_iff_not]
  intro hmem
  have hword := List.all_eq_true.1 hwords text hmem
  have hall : text.toList.all numberChars.contains = true :=
    List.all_eq_true.2 fun c hc => by simpa using hchars c hc
  simp [hne, hall] at hword

theorem ofPlain_of_numberChars {text : String} (hchars : ∀ c ∈ text.toList, c ∈ numberChars) (hne : text ≠ "") :
    Tag.ofPlain text = if looksFloat text.toList then .float else if looksInt text.toList then .int
      else if looksTimestamp text.toList then .timestamp else .str := by
  have htrue := contains_eq_false trueTexts (by decide) hchars hne
  have hfalse := contains_eq_false falseTexts (by decide) hchars hne
  have hnull := contains_eq_false nullTexts (by decide) hchars hne
  have hmerge : (text == "<<") = false := by
    simpa using contains_eq_false ["<<"] (by decide) hchars hne
  have hvalue : (text == "=") = false := by
    simpa using contains_eq_false ["="] (by decide) hchars hne
  simp only [Tag.ofPlain, htrue, hfalse, hnull, hmerge, hvalue, Bool.or_false, Bool.false_eq_true, if_false]

/-! ## Numbers without a point -/

/-- A digit and an exponent look like no whole number. -/
theorem looksInt_exponential (negative : Bool) {d : Char} (hd : d.isDigit = true) {rest : List Char}
    (hcolon : ':' ∉ rest) : looksInt (minus negative ++ d :: 'e' :: rest) = false := by
  have hne : ':' ∉ d :: 'e' :: rest := by
    simp only [List.mem_cons, not_or]
    refine ⟨?_, by decide, hcolon⟩
    rintro rfl
    cases hd
  have hsexagesimal : isSexagesimal (d :: 'e' :: rest) = false := by
    rw [isSexagesimal, colonPieces_of_no_colon hne]
  have hgaps : (d :: 'e' :: rest).all isDigitOrGap = false := by
    rw [List.all_cons, List.all_cons, (by decide : isDigitOrGap 'e' = false), Bool.false_and, Bool.and_false]
  unfold looksInt
  rw [afterSign_minus negative hd]
  split
  · next heq => cases heq
  · next heq => cases heq
  · next heq =>
    cases heq
    rfl
  · rw [hgaps, hsexagesimal, Bool.or_false, Bool.and_false]

theorem looksTimestamp_exponential (negative : Bool) (d : Char) (rest : List Char) :
    looksTimestamp (minus negative ++ d :: 'e' :: rest) = false := by
  have hyear : takeDigits? 4 (minus negative ++ d :: 'e' :: rest) = none := by
    have hmem : 'e' ∈ (minus negative ++ d :: 'e' :: rest).take 4 := by
      cases negative <;> simp [minus]
    rw [takeDigits?, if_neg]
    rintro ⟨-, hall⟩
    have he := List.all_eq_true.1 hall 'e' hmem
    cases he
  rw [looksTimestamp, TimeText.read?, hyear]
  rfl

variable {x : Float}

/-- The text of a double without a point: a digit and an exponent. -/
theorem exists_exponential (hx : (Double.parts? x).isSome = true) (hpoint : '.' ∉ (Double.text x).toList) :
    ∃ d rest, (Double.text x).toList = minus (Double.isNegative x) ++ d :: 'e' :: rest ∧ d.isDigit = true ∧ ':' ∉ rest := by
  obtain ⟨sp, r, htext, hwrites, -⟩ := exists_chars_text hx
  have hfraction : sp.fraction? = none := by
    rw [htext, List.mem_append, not_or, point_mem_chars_iff, Option.not_isSome_iff_eq_none] at hpoint
    exact hpoint.2
  obtain ⟨⟨d, hwhole⟩, hexponent⟩ := hwrites.pointless hfraction
  obtain ⟨e, he⟩ := Option.isSome_iff_exists.1 hexponent
  obtain ⟨n, rfl⟩ := hwrites.exponent e he
  have hchars : sp.chars = d :: 'e' :: ((Spelling.exponentOf n).sign ++ (Spelling.exponentOf n).digits) := by
    rw [Spelling.chars, hwrites.sign, hwhole, Spelling.point, hfraction, Spelling.exponent, he]
    rfl
  refine ⟨d, _, by rw [htext, hchars], hwrites.whole d (by simp [hwhole]), fun hmem => ?_⟩
  have hcolon : ':' ∈ sp.chars := by
    rw [hchars]
    exact List.mem_cons_of_mem _ (List.mem_cons_of_mem _ hmem)
  exact (of_mem_numberChars (mem_chars_of_writes hwrites _ hcolon)).2.2 rfl

theorem mem_numberChars_text (hx : (Double.parts? x).isSome = true) : ∀ c ∈ (Double.text x).toList, c ∈ numberChars := by
  obtain ⟨sp, r, htext, hwrites, -⟩ := exists_chars_text hx
  rw [htext]
  exact mem_numberChars_of_writes hwrites _

theorem text_ne_empty (hx : (Double.parts? x).isSome = true) : Double.text x ≠ "" := by
  obtain ⟨sp, r, htext, hwrites, -⟩ := exists_chars_text hx
  obtain ⟨d, rest, hchars, -⟩ := exists_chars_of_writes hwrites
  intro hempty
  rw [hempty, hchars] at htext
  simp at htext

/-! ## What is read -/

/-- The value of a text without quotes. -/
def plainValue (text : String) : Except Failure Value := (Tag.ofPlain text).scalarValue text

theorem plainValue_text (hx : (Double.parts? x).isSome = true) : plainValue (Double.text x) =
    .ok (if '.' ∈ (Double.text x).toList then .float x else .str (Double.text x)) := by
  rw [plainValue, ofPlain_of_numberChars (mem_numberChars_text hx) (text_ne_empty hx)]
  by_cases hpoint : '.' ∈ (Double.text x).toList
  · obtain ⟨hlooks, hread⟩ := floatOf_text hx hpoint
    rw [if_pos hlooks, if_pos hpoint, Tag.scalarValue, hread]
    rfl
  · obtain ⟨d, rest, htext, hd, hcolon⟩ := exists_exponential hx hpoint
    rw [if_neg hpoint, looksFloat_of_no_point hpoint, htext, looksInt_exponential _ hd hcolon, looksTimestamp_exponential]
    rfl

/-- What is not finite has a name, and any other double its text. -/
theorem number_cases (x : Float) : Json.number x ∈ ["NaN", "Infinity", "-Infinity"] ∨
    (Double.parts? x).isSome = true ∧ Json.number x = Double.text x := by
  unfold Json.number
  split
  · exact .inl (by simp)
  split
  · exact .inl (by split <;> simp)
  · next hx => exact .inr ⟨by simpa [Option.isSome_iff_ne_none] using hx, rfl⟩

theorem plainValue_number (x : Float) : plainValue (Json.number x) = .ok (.scalar (Scalar.reread (.float x))) := by
  have hreread : Scalar.reread (.float x) =
      if '.' ∈ (Json.number x).toList then .float x else .str (Json.number x) := by
    simp [Scalar.reread, Double.isPointed]
  rw [hreread]
  obtain hname | ⟨hx, htext⟩ := number_cases x
  · generalize Json.number x = name at hname
    simp only [List.mem_cons, List.not_mem_nil, or_false] at hname
    obtain rfl | rfl | rfl := hname <;> rfl
  · rw [htext, plainValue_text hx]
    split <;> rfl

theorem exists_chars_int (n : Int) : ∃ d rest, (toString n).toList = minus (decide (n < 0)) ++ d :: rest ∧
    ∀ c ∈ d :: rest, c.isDigit = true := by
  have hcounts := counts_toDigits n.natAbs
  obtain ⟨d, rest, hcons, -⟩ := hcounts.exists_cons
  exact ⟨d, rest, by rw [toList_toString_int, hcons], hcons ▸ hcounts.isDigit⟩

theorem mem_minus {negative : Bool} {c : Char} (h : c ∈ minus negative) : c = '-' := by
  cases negative with
  | true => simpa [minus] using h
  | false => cases h

theorem plainValue_int {n : Int} (hn : n.natAbs < tenTo Value.maxNumeralSize) : plainValue (toString n) = .ok (.int n) := by
  obtain ⟨hlooks, hread⟩ := intOf_toString hn
  obtain ⟨d, rest, htext, hdigits⟩ := exists_chars_int n
  have hchars : ∀ c ∈ (toString n).toList, c ∈ numberChars := by
    intro c hc
    rw [htext] at hc
    obtain hc | hc := List.mem_append.1 hc
    · rw [mem_minus hc]
      decide
    · exact isDigit_mem (hdigits c hc)
  have hpoint : '.' ∉ (toString n).toList := by
    rw [htext, List.mem_append, not_or]
    exact ⟨point_not_mem_minus _, point_not_mem_of_isDigit hdigits⟩
  have hne : toString n ≠ "" := by
    intro hempty
    rw [hempty] at htext
    simp at htext
  have htag : Tag.ofPlain (toString n) = .int := by
    rw [ofPlain_of_numberChars hchars hne, looksFloat_of_no_point hpoint, hlooks]
    rfl
  rw [plainValue, htag, Tag.scalarValue, hread]
  rfl

theorem plainValue_bool (b : Bool) : plainValue (if b then "true" else "false") = .ok (.bool b) := by
  have htrue : "true".toLower = "true" := by decide +kernel
  have hfalse : "false".toLower = "false" := by decide +kernel
  cases b with
  | true =>
    have htag : Tag.ofPlain "true" = .bool := rfl
    rw [if_pos rfl, plainValue, htag, Tag.scalarValue, boolOf, htrue]
    rfl
  | false =>
    have htag : Tag.ofPlain "false" = .bool := rfl
    rw [if_neg (by decide), plainValue, htag, Tag.scalarValue, boolOf, hfalse]
    rfl

/-- What JSON writes for a scalar without quotes is read as the scalar, if it is a whole number or pointed. -/
theorem plainValue_scalar {s : Scalar} {text : String} (hstr : ∀ t, s ≠ .str t) (hwritable : Value.isWritableScalar s = true)
    (h : Json.scalar .document s = .ok text) : plainValue text = .ok (.scalar s.reread) := by
  cases s with
  | null =>
    cases h
    rfl
  | bool b =>
    cases h
    exact plainValue_bool b
  | int n =>
    obtain rfl : text = toString n := Value.eq_text_of_written h
    exact plainValue_int (Value.fitsNumeral_iff.1 hwritable)
  | float x =>
    cases h
    exact plainValue_number x
  | str t => exact absurd rfl (hstr t)
  | date | moment | bytes => cases h

/-! ## The characters of scalars without quotes -/

/-- The characters that JSON writes outside quotes, but for brackets and separators. -/
def bareChars : List Char := numberChars ++ ['n', 'u', 'l', 't', 'r', 'f', 'a', 's', 'N', 'I', 'i', 'y']

/-- A letter or a digit, perhaps after a minus, and more characters of scalars. -/
def Bare (cs : List Char) : Prop :=
  ∃ negative d rest, cs = minus negative ++ d :: rest ∧ d.isAlphanum = true ∧ ∀ c ∈ d :: rest, c ∈ bareChars

theorem bare_digits {negative : Bool} {d : Char} {rest : List Char} (hd : d.isDigit = true)
    (hrest : ∀ c ∈ d :: rest, c ∈ numberChars) : Bare (minus negative ++ d :: rest) :=
  ⟨negative, d, rest, rfl, by simp [Char.isAlphanum, hd], fun c hc => List.mem_append_left _ (hrest c hc)⟩

theorem bare_word (negative : Bool) {d : Char} {rest : List Char} (hd : d.isAlphanum = true)
    (hall : (d :: rest).all bareChars.contains = true) : Bare (minus negative ++ d :: rest) :=
  ⟨negative, d, rest, rfl, hd, fun c hc => by simpa using List.all_eq_true.1 hall c hc⟩

theorem bare_scalar {s : Scalar} {text : String} (hstr : ∀ t, s ≠ .str t) (h : Json.scalar .document s = .ok text) :
    Bare text.toList := by
  cases s with
  | null =>
    cases h
    exact bare_word false (d := 'n') (by decide) (by decide)
  | bool b =>
    cases h
    cases b with
    | true => exact bare_word false (d := 't') (by decide) (by decide)
    | false => exact bare_word false (d := 'f') (by decide) (by decide)
  | int n =>
    obtain rfl := Value.eq_text_of_written (v := .int n) h
    obtain ⟨d, rest, htext, hdigits⟩ := exists_chars_int n
    change Bare (toString n).toList
    rw [htext]
    exact bare_digits (hdigits d (by simp)) fun c hc => isDigit_mem (hdigits c hc)
  | float x =>
    cases h
    obtain hname | ⟨hx, htext⟩ := number_cases x
    · generalize Json.number x = name at hname
      simp only [List.mem_cons, List.not_mem_nil, or_false] at hname
      obtain rfl | rfl | rfl := hname
      · exact bare_word false (d := 'N') (by decide) (by decide)
      · exact bare_word false (d := 'I') (by decide) (by decide)
      · exact bare_word true (d := 'I') (by decide) (by decide)
    · obtain ⟨sp, r, hchars, hwrites, -⟩ := exists_chars_text hx
      obtain ⟨d, rest, hcons, hd⟩ := exists_chars_of_writes hwrites
      rw [htext, hchars, hcons]
      exact bare_digits hd fun c hc => mem_chars_of_writes hwrites c (hcons ▸ hc)
  | str t => exact absurd rfl (hstr t)
  | date | moment | bytes => cases h

/-! ## Reading scalars without quotes -/

variable {c : Cursor} {rest : List Char}

/-- Blanks and line feeds. -/
def IsLayout (cs : List Char) : Prop := ∀ x ∈ cs, x = ' ' ∨ x = '\n'

/-- What comes after a scalar in brackets. -/
def IsClosing (x : Char) : Prop := x = ',' ∨ x = ']' ∨ x = '\x7d'

theorem IsClosing.endsPlain {x : Char} (h : IsClosing x) (next : Char) : endsPlain true x next = true := by
  obtain rfl | rfl | rfl := h <;> simp [Yaml.endsPlain]

theorem IsClosing.isBreak {x : Char} (h : IsClosing x) : Yaml.isBreak x = false := by
  obtain rfl | rfl | rfl := h <;> rfl

/-- Characters that end no plain scalar and begin nothing else inside brackets. -/
theorem of_mem_bareChars {x : Char} (h : x ∈ bareChars) : isSpaceOrEnd x = false ∧ x ≠ ':' ∧ x ≠ '?' ∧ x ≠ '#' ∧
    [',', '[', ']', '\x7b', '\x7d'].contains x = false := by
  have hall : bareChars.all (fun x => decide (isSpaceOrEnd x = false ∧ x ≠ ':' ∧ x ≠ '?' ∧ x ≠ '#' ∧
      [',', '[', ']', '\x7b', '\x7d'].contains x = false)) = true := by decide
  exact of_decide_eq_true (List.all_eq_true.1 hall x h)

theorem endsPlain_bare {x : Char} (h : x ∈ bareChars) (next : Char) : endsPlain true x next = false := by
  obtain ⟨hspace, hcolon, hmark, -, hflow⟩ := of_mem_bareChars h
  simp only [endsPlain, hspace, hflow, beq_eq_false_iff_ne.2 hcolon, beq_eq_false_iff_ne.2 hmark]
  rfl

theorem plainRun_bare {cs : List Char} (hcs : ∀ x ∈ cs, x ∈ bareChars) {x : Char} (hx : ∀ next, endsPlain true x next = true)
    (rest : List Char) : plainRun true (cs ++ x :: rest) = cs := by
  induction cs with
  | nil => simp [plainRun, hx]
  | cons y cs ih =>
    obtain ⟨hy, hcs⟩ := List.forall_mem_cons.1 hcs
    rw [List.cons_append, plainRun, endsPlain_bare hy, ih hcs]
    rfl

variable {x : Char} {layout : List Char}

theorem isDocumentMark_of_layout (hlayout : IsLayout layout) (hx : IsClosing x) (h : c.rest = layout ++ x :: rest) :
    c.isDocumentMark = false := by
  have hhead : ∃ y ys, c.rest = y :: ys ∧ y ≠ '-' ∧ y ≠ '.' := by
    cases layout with
    | nil =>
      refine ⟨x, rest, h, ?_⟩
      obtain rfl | rfl | rfl := hx <;> decide
    | cons y layout =>
      refine ⟨y, layout ++ x :: rest, h, ?_⟩
      obtain rfl | rfl := hlayout y (by simp) <;> decide
  obtain ⟨y, ys, hrest, hdash, hpoint⟩ := hhead
  simp [Cursor.isDocumentMark, hrest, hdash, hpoint]

theorem plainBreaks_layout (hlayout : IsLayout layout) (hx : IsClosing x) (h : c.rest = layout ++ x :: rest) {fuel : Nat}
    (hfuel : layout.length < fuel) : ∃ bs c', plainBreaks fuel c = (some bs, c') ∧ c'.rest = x :: rest := by
  induction fuel generalizing layout c with
  | zero => omega
  | succ fuel ih =>
    cases layout with
    | nil =>
      have hrest : c.rest = x :: rest := h
      have hhead : (c.head == ' ') = false := by
        rw [Cursor.head, hrest]
        obtain rfl | rfl | rfl := hx <;> rfl
      refine ⟨[], c, ?_, hrest⟩
      rw [plainBreaks, hhead, Cursor.lineBreak?_eq_none hrest hx.isBreak]
      rfl
    | cons y layout =>
      have hrest : c.rest = y :: (layout ++ x :: rest) := h
      have hnext : c.next.rest = layout ++ x :: rest := by rw [Cursor.next_rest, hrest]; rfl
      obtain ⟨hy, hfurther⟩ := List.forall_mem_cons.1 hlayout
      obtain ⟨bs, c', hread, hc'⟩ := ih hfurther hnext (by simp at hfuel; omega)
      obtain rfl | rfl := hy
      · refine ⟨bs, c', ?_, hc'⟩
        rw [plainBreaks, Cursor.head, hrest]
        exact hread
      · refine ⟨'\n' :: bs, c', ?_, hc'⟩
        rw [plainBreaks, Cursor.head, hrest, Cursor.lineBreak?_feed hrest, if_neg (by simp)]
        simp only [isDocumentMark_of_layout hfurther hx hnext, hread]
        rfl

/-- After a run of a plain scalar, blanks and line feeds are passed up to the next character. -/
theorem plainSpaces_layout (hlayout : IsLayout layout) (hx : IsClosing x) (h : c.rest = layout ++ x :: rest) :
    ∃ space broken c', plainSpaces c = (space, broken, c') ∧ c'.rest = x :: rest := by
  obtain ⟨blanks, further, rfl, hblanks, hhead⟩ := exists_blanks layout
  have hfurther : IsLayout further := fun y hy => hlayout y (List.mem_append_right _ hy)
  rw [List.append_assoc] at h
  cases further with
  | nil =>
    have hspace : (x == ' ') = false := by obtain rfl | rfl | rfl := hx <;> rfl
    have hrest : (c.skip blanks.length).rest = x :: rest := by rw [Cursor.skip_rest, h, List.drop_left]; rfl
    refine ⟨blanks, false, c.skip blanks.length, ?_, hrest⟩
    rw [plainSpaces, Cursor.takeWhile_eq (p := (· == ' ')) h (fun y hy => by simp [hblanks y hy]) (by simpa using hspace)]
    simp only [Cursor.lineBreak?_eq_none hrest hx.isBreak]
  | cons y further =>
    obtain ⟨hy, hlines⟩ := List.forall_mem_cons.1 hfurther
    obtain rfl | rfl := hy
    · exact absurd rfl hhead
    · have hrest : (c.skip blanks.length).rest = '\n' :: (further ++ x :: rest) := by
        rw [Cursor.skip_rest, h, List.drop_left]
        rfl
      have hnext : (c.skip blanks.length).next.rest = further ++ x :: rest := by
        rw [Cursor.next_rest, hrest]
        rfl
      have hless : further.length < (c.skip blanks.length).next.rest.length + 1 := by
        rw [hnext, List.length_append]
        omega
      obtain ⟨bs, c', hread, hc'⟩ := plainBreaks_layout hlines hx hnext hless
      refine ⟨foldBreaks '\n' bs, true, c', ?_, hc'⟩
      rw [plainSpaces, Cursor.takeWhile_eq (p := (· == ' ')) h (fun y hy => by simp [hblanks y hy]) (by simp)]
      simp only [Cursor.lineBreak?_feed hrest, isDocumentMark_of_layout hlines hx hnext, hread]
      rfl

/-- No run of a plain scalar begins at what follows it in brackets. -/
theorem plainBody_closing (hx : IsClosing x) (h : c.rest = x :: rest) (fuel : Nat) (indent : Int)
    (acc : List (List Char)) (space : List Char) (allowKey : Bool) :
    plainBody fuel true indent acc space allowKey c = (String.ofList acc.reverse.flatten, allowKey, c) := by
  cases fuel with
  | zero => rfl
  | succ fuel =>
    have hrun : plainRun true c.rest = [] := by simp [h, plainRun, hx.endsPlain]
    simp only [plainBody, hrun]
    simp

/-- What JSON writes without quotes is one plain scalar, up to what follows it in brackets. -/
theorem plainScalar_bare {cs : List Char} (hne : cs ≠ []) (hcs : ∀ y ∈ cs, y ∈ bareChars) (hlayout : IsLayout layout)
    (hx : IsClosing x) (h : c.rest = cs ++ (layout ++ x :: rest)) (indent : Int) :
    ∃ allowKey c', plainScalar true indent c = (String.ofList cs, allowKey, c') ∧ c'.rest = x :: rest := by
  have hafter : ∃ y ys, layout ++ x :: rest = y :: ys ∧ ∀ next, endsPlain true y next = true := by
    cases layout with
    | nil => exact ⟨x, rest, rfl, hx.endsPlain⟩
    | cons y layout =>
      refine ⟨y, layout ++ x :: rest, rfl, fun next => ?_⟩
      obtain rfl | rfl := hlayout y (by simp) <;> rfl
  have hrun : plainRun true c.rest = cs := by
    obtain ⟨y, ys, hys, hends⟩ := hafter
    rw [h, hys, plainRun_bare hcs hends]
  have hhead : (c.head == '#') = false := by
    obtain ⟨y, ys, rfl⟩ := List.exists_cons_of_ne_nil hne
    rw [Cursor.head, h]
    exact beq_eq_false_iff_ne.2 (of_mem_bareChars (hcs y (by simp))).2.2.2.1
  have hempty : cs.isEmpty = false := by simp [hne]
  obtain ⟨space, broken, c', hspaces, hc'⟩ := plainSpaces_layout (c := c.skip cs.length) hlayout hx
    (by rw [Cursor.skip_rest, h, List.drop_left])
  refine ⟨broken, c', ?_, hc'⟩
  rw [plainScalar, plainBody]
  simp only [hrun, hhead, hempty, hspaces, plainBody_closing hx hc']
  simp

end Yaml

end Flowline
