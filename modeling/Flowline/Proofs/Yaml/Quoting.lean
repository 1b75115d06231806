import Flowline.Json.Write
import Flowline.Yaml.Scalar
import Mathlib.Data.List.Basic

/-! # Texts of JSON in YAML

A text in quotes, as JSON writes it, is read by YAML with its blanks and line ends folded (`quotedScalar_string`): the
characters that JSON escapes come back, but a next line and the separators of lines and paragraphs are the end of a line
in YAML. -/

namespace Flowline.Yaml

/-! ## Places in a line -/

namespace Cursor

variable {c : Cursor} {cs rest : List Char} {x : Char}

@[simp] theorem next_rest (c : Cursor) : c.next.rest = c.rest.drop 1 := by
  unfold next
  split
  · next h => rw [h]; rfl
  · next x rest h =>
    rw [h]
    split <;> rfl

@[simp] theorem skip_rest (c : Cursor) (n : Nat) : (c.skip n).rest = c.rest.drop n := by
  induction n generalizing c with
  | zero => rfl
  | succ n ih => rw [skip, ih, next_rest, List.drop_drop, Nat.add_comm]

theorem skip_skip (c : Cursor) (m n : Nat) : (c.skip m).skip n = c.skip (m + n) := by
  induction m generalizing c with
  | zero => rw [skip, Nat.zero_add]
  | succ m ih => rw [skip, ih, Nat.add_right_comm, skip]

theorem next_index (h : c.rest = x :: rest) : c.next.index = c.index + 1 := by
  rw [next, h]
  dsimp only
  split <;> rfl

theorem skip_index (h : c.rest = cs ++ rest) : (c.skip cs.length).index = c.index + cs.length := by
  induction cs generalizing c with
  | nil => rfl
  | cons x cs ih =>
    rw [List.length_cons, skip, ih (c := c.next) (by simp [h]), next_index h, Nat.add_assoc, Nat.add_comm 1]

theorem line_le_next (c : Cursor) : c.line ≤ c.next.line := by
  unfold next
  split
  · exact Nat.le_refl _
  · split
    · exact Nat.le_succ _
    · exact Nat.le_refl _

theorem line_le_skip (c : Cursor) (n : Nat) : c.line ≤ (c.skip n).line := by
  induction n generalizing c with
  | zero => exact Nat.le_refl _
  | succ n ih => exact Nat.le_trans c.line_le_next (ih c.next)

/-- Characters that end no line are passed in one line. -/
theorem skip_line (h : c.rest = cs ++ rest) (hcs : ∀ x ∈ cs, isBreak x = false) : (c.skip cs.length).line = c.line := by
  induction cs generalizing c with
  | nil => rfl
  | cons x cs ih =>
    obtain ⟨hx, hcs⟩ := List.forall_mem_cons.1 hcs
    have hnext : c.next.line = c.line := by
      rw [next, h]
      simp [hx]
    rw [List.length_cons, skip, ih (c := c.next) (by simp [h]) hcs, hnext]

theorem line_lt_skip (h : c.rest = cs ++ rest) (hx : x ∈ cs) (hbreak : isBreak x = true) (hreturn : x ≠ '\r') :
    c.line < (c.skip cs.length).line := by
  induction cs generalizing c with
  | nil => cases hx
  | cons y cs ih =>
    rw [List.length_cons, skip]
    rcases List.mem_cons.1 hx with rfl | hx
    · have hnext : c.next.line = c.line + 1 := by
        rw [next, h]
        simp [hbreak, hreturn]
      have hle := c.next.line_le_skip cs.length
      omega
    · have hless := ih (c := c.next) (by simp [h]) hx
      have hle := c.line_le_next
      omega

theorem takeWhile_eq {p : Char → Bool} (h : c.rest = cs ++ rest) (hcs : ∀ y ∈ cs, p y = true)
    (hrest : ∀ y ∈ rest.head?, p y = false) : c.takeWhile p = (cs, c.skip cs.length) := by
  have hrun : c.rest.takeWhile p = cs := by
    rw [h, List.takeWhile_append_of_pos hcs]
    cases rest with
    | nil => simp
    | cons x rest => simp [hrest x rfl]
  rw [takeWhile, hrun]

theorem lineBreak?_eq_none (h : c.rest = x :: rest) (hx : isBreak x = false) : c.lineBreak? = none := by
  have hparts : x ≠ '\n' ∧ x ≠ '\r' ∧ x.toNat ≠ 0x85 := by
    simp only [isBreak, Bool.or_eq_false_iff, beq_eq_false_iff_ne] at hx
    exact ⟨hx.1.1.1.1, hx.1.1.1.2, hx.1.1.2⟩
  obtain ⟨hfeed, hreturn, hnext⟩ := hparts
  unfold lineBreak?
  rw [h]
  split
  · next heq => exact absurd (List.cons.inj heq).1 hreturn
  · next heq =>
    cases heq
    simp [hfeed, hreturn, hnext, hx]
  · next heq => cases heq

theorem lineBreak?_of_head (h : isBreak c.head = false) : c.lineBreak? = none := by
  cases hrest : c.rest with
  | nil => rw [lineBreak?, hrest]
  | cons x rest =>
    rw [head, hrest] at h
    exact lineBreak?_eq_none hrest h

theorem lineBreak?_feed (h : c.rest = '\n' :: rest) : c.lineBreak? = some ('\n', c.next) := by
  unfold lineBreak?
  rw [h]
  rfl

end Cursor

/-! ## Texts in quotes -/

theorem escape_hexDigits {n : Nat} (hn : n < 32) : (Text.hexDigits 4 n).length = 4 ∧
    (Text.hexDigits 4 n).all (fun d => (Json.hexValue? d).isSome && !isBreak d) = true ∧
    hexNumber (Text.hexDigits 4 n) = n := by
  have hall : ∀ n < 32, (Text.hexDigits 4 n).length = 4 ∧
      (Text.hexDigits 4 n).all (fun d => (Json.hexValue? d).isSome && !isBreak d) = true ∧
      hexNumber (Text.hexDigits 4 n) = n := by decide +kernel
  exact hall n hn

variable {c : Cursor} {rest : List Char}

/-- What is written for a character after a backslash, if there is one. -/
def Escapes (x : Char) (tail : List Char) : Prop :=
  (∀ d ∈ tail, isBreak d = false) ∧ ∀ (c : Cursor) (rest : List Char), c.rest = tail ++ rest →
    escape c = .ok ([x], c.skip tail.length)

theorem escapes_letter {x d : Char} (hcode : escapeCode? d = some x.toNat) (hd : isBreak d = false) : Escapes x [d] := by
  refine ⟨by simpa using hd, fun c rest h => ?_⟩
  have hhead : c.head = d := by rw [Cursor.head, h]; rfl
  rw [escape, hhead, hcode]
  simp only [Char.ofNat_toNat]
  rfl

theorem escapes_code {x : Char} (hx : x.toNat < 32) : Escapes x ('u' :: Text.hexDigits 4 x.toNat) := by
  obtain ⟨hlength, hall, hvalue⟩ := escape_hexDigits hx
  have hdigits := List.all_eq_true.1 hall
  constructor
  · refine List.forall_mem_cons.2 ⟨by decide, fun d hd => ?_⟩
    have hplain := hdigits d hd
    simp only [Bool.and_eq_true, Bool.not_eq_true'] at hplain
    exact hplain.2
  · intro c rest h
    have hhead : c.head = 'u' := by rw [Cursor.head, h]; rfl
    have htake : (c.rest.drop 1).take 4 = Text.hexDigits 4 x.toNat := by
      rw [h, List.cons_append, List.drop_succ_cons, List.drop_zero, List.take_left' hlength]
    have hhex : (Text.hexDigits 4 x.toNat).all (fun d => (Json.hexValue? d).isSome) = true :=
      List.all_eq_true.2 fun d hd => (Bool.and_eq_true_iff.1 (hdigits d hd)).1
    have hcode : escapeCode? 'u' = none := rfl
    have hsize : escapeSize? 'u' = some 4 := rfl
    rw [escape, hhead, hcode, hsize]
    dsimp only
    rw [htake, if_pos ⟨hlength, hhex⟩, hvalue, if_pos (by omega), Char.ofNat_toNat, List.length_cons, hlength]

/-- A character is written as it is, or as an escape of it. -/
theorem escapedChar_cases (x : Char) : (Json.escapedChar x = [x] ∧ x ≠ '"' ∧ x ≠ '\\' ∧ 32 ≤ x.toNat) ∨
    ∃ tail, Json.escapedChar x = '\\' :: tail ∧ Escapes x tail := by
  unfold Json.escapedChar
  split
  · next h => obtain rfl := beq_iff_eq.1 h; exact .inr ⟨_, rfl, escapes_letter rfl rfl⟩
  split
  · next h => obtain rfl := beq_iff_eq.1 h; exact .inr ⟨_, rfl, escapes_letter rfl rfl⟩
  split
  · next h => obtain rfl := beq_iff_eq.1 h; exact .inr ⟨_, rfl, escapes_letter rfl rfl⟩
  split
  · next h => obtain rfl := beq_iff_eq.1 h; exact .inr ⟨_, rfl, escapes_letter rfl rfl⟩
  split
  · next h => obtain rfl := beq_iff_eq.1 h; exact .inr ⟨_, rfl, escapes_letter rfl rfl⟩
  split
  · next h => exact .inr ⟨_, rfl, escapes_letter (congrArg some (beq_iff_eq.1 h).symm) rfl⟩
  split
  · next h => exact .inr ⟨_, rfl, escapes_letter (congrArg some (beq_iff_eq.1 h).symm) rfl⟩
  split
  · next h => exact .inr ⟨_, rfl, escapes_code h⟩
  · next hquote hslash _ _ _ _ _ hcode =>
    exact .inl ⟨rfl, by simpa using hquote, by simpa using hslash, Nat.le_of_not_lt hcode⟩

/-- What is written for characters in quotes. -/
def escaped (s : List Char) : List Char := s.flatMap Json.escapedChar

theorem escaped_cons (x : Char) (s : List Char) : escaped (x :: s) = Json.escapedChar x ++ escaped s := List.flatMap_cons

theorem escaped_append (s t : List Char) : escaped (s ++ t) = escaped s ++ escaped t := List.flatMap_append

theorem of_escaped_eq_cons {s ys : List Char} {m : Char} (h : escaped s ++ '"' :: rest = m :: ys) (hquote : m ≠ '"')
    (hslash : m ≠ '\\') : ∃ t, s = m :: t ∧ ys = escaped t ++ '"' :: rest := by
  cases s with
  | nil => exact absurd (List.cons.inj h).1.symm hquote
  | cons x t =>
    rw [escaped_cons, List.append_assoc] at h
    obtain ⟨hself, -⟩ | ⟨tail, htail, -⟩ := escapedChar_cases x
    · rw [hself] at h
      obtain ⟨rfl, rfl⟩ := List.cons.inj h
      exact ⟨t, rfl, rfl⟩
    · rw [htail] at h
      exact absurd (List.cons.inj h).1.symm hslash

/-! ### Line ends and blanks -/

/-- The characters that end a line in YAML and that JSON does not escape: the next line, and the separators of lines
and of paragraphs. -/
def isLineEnd (x : Char) : Bool := x == '\x85' || x == '\u2028' || x == '\u2029'

/-- A blank or the end of a line. -/
def isGap (x : Char) : Bool := x == ' ' || isLineEnd x

/-- The end of a line as it counts in a scalar. -/
def lineEnd (x : Char) : Char := if x == '\x85' then '\n' else x

/-- The line ends in a gap, as they count. -/
def lineEnds (gap : List Char) : List Char := (gap.filter isLineEnd).map lineEnd

/-- A gap as it is read: blanks are kept if they stand in one line, and left out beside line ends. -/
def foldedGap (gap : List Char) : List Char :=
  match lineEnds gap with
  | [] => gap
  | first :: further => foldBreaks first further

/-- What is read for characters in quotes, after a gap in reverse. -/
def foldedAfter (gap : List Char) : List Char → List Char
  | [] => foldedGap gap.reverse
  | x :: rest =>
    if isGap x then foldedAfter (x :: gap) rest else foldedGap gap.reverse ++ x :: foldedAfter [] rest

/-- What is read for characters in quotes. -/
def folded (s : List Char) : List Char := foldedAfter [] s

/-- Three dashes or three points stand here as a word. -/
def startsMark (s : List Char) : Bool :=
  (s.take 3 == ['-', '-', '-'] || s.take 3 == ['.', '.', '.']) && isGap ((s.drop 3).headD '"')

/-- Three dashes or three points stand as a word at the front of a line, but the first. -/
def hasMark : List Char → Bool
  | [] => false
  | x :: rest => isLineEnd x && startsMark rest || hasMark rest

theorem isLineEnd_cases {x : Char} (h : isLineEnd x = true) : x = '\x85' ∨ x = '\u2028' ∨ x = '\u2029' := by
  simpa [isLineEnd, or_assoc] using h

theorem isGap_cases {x : Char} (h : isGap x = true) : x = ' ' ∨ x = '\x85' ∨ x = '\u2028' ∨ x = '\u2029' := by
  rw [isGap, Bool.or_eq_true, beq_iff_eq] at h
  exact h.imp_right isLineEnd_cases

theorem isBreak_of_isLineEnd {x : Char} (h : isLineEnd x = true) : isBreak x = true := by
  obtain rfl | rfl | rfl := isLineEnd_cases h <;> rfl

/-- Of the characters that JSON does not escape, only line ends are breaks. -/
theorem isLineEnd_of_isBreak {x : Char} (hcode : 32 ≤ x.toNat) (h : isBreak x = true) : isLineEnd x = true := by
  have hchar (y : Char) (hy : x.toNat = y.toNat) : x = y := Char.toNat_inj.1 hy
  simp only [isBreak, Bool.or_eq_true, beq_iff_eq] at h
  obtain (((rfl | rfl) | hnext) | hline) | hparagraph := h
  · exact absurd hcode (by decide)
  · exact absurd hcode (by decide)
  · rw [hchar '\x85' hnext]
    rfl
  · rw [hchar '\u2028' hline]
    rfl
  · rw [hchar '\u2029' hparagraph]
    rfl

theorem isSpaceOrEnd_of_isGap {x : Char} (h : isGap x = true) : isSpaceOrEnd x = true := by
  obtain rfl | rfl | rfl | rfl := isGap_cases h <;> rfl

theorem isSpaceOrEnd_eq_false {x : Char} (hcode : 32 ≤ x.toNat) (hgap : isGap x = false) : isSpaceOrEnd x = false := by
  rw [isGap, Bool.or_eq_false_iff, beq_eq_false_iff_ne] at hgap
  have hbreak : isBreak x = false := Bool.eq_false_iff.2 fun h => by
    rw [isLineEnd_of_isBreak hcode h] at hgap
    cases hgap.2
  have htab : x ≠ '\t' := by
    rintro rfl
    exact absurd hcode (by decide)
  have hend : x ≠ endMark := by
    rintro rfl
    exact absurd hcode (by decide)
  simp [isSpaceOrEnd, isBreakOrEnd, hgap.1, htab, hend, hbreak]

theorem lineBreak?_of_isLineEnd {x : Char} (h : c.rest = x :: rest) (hx : isLineEnd x = true) :
    c.lineBreak? = some (lineEnd x, c.next) := by
  obtain rfl | rfl | rfl := isLineEnd_cases hx
  all_goals
    rw [Cursor.lineBreak?, h]
    rfl

theorem escapedChar_of_isGap {x : Char} (h : isGap x = true) : Json.escapedChar x = [x] := by
  obtain rfl | rfl | rfl | rfl := isGap_cases h <;> rfl

theorem escaped_gap {gap : List Char} (h : ∀ x ∈ gap, isGap x = true) : escaped gap = gap := by
  induction gap with
  | nil => rfl
  | cons x gap ih =>
    obtain ⟨hx, hgap⟩ := List.forall_mem_cons.1 h
    rw [escaped_cons, ih hgap, escapedChar_of_isGap hx]
    rfl

/-- The breaks among what is written are the line ends of the text. -/
theorem mem_of_isBreak {s : List Char} {x : Char} (hx : x ∈ escaped s) (hbreak : isBreak x = true) :
    x ∈ s ∧ isLineEnd x = true := by
  obtain ⟨y, hy, hx⟩ := List.mem_flatMap.1 hx
  obtain ⟨hself, -, -, hcode⟩ | ⟨tail, htail, hescapes⟩ := escapedChar_cases y
  · rw [hself, List.mem_singleton] at hx
    exact ⟨hx ▸ hy, isLineEnd_of_isBreak (hx ▸ hcode) hbreak⟩
  · rw [htail] at hx
    obtain rfl | hx := List.mem_cons.1 hx
    · cases hbreak
    · rw [hescapes.1 x hx] at hbreak
      cases hbreak

theorem mem_escaped_of_isLineEnd {s : List Char} {x : Char} (hx : x ∈ s) (hend : isLineEnd x = true) : x ∈ escaped s := by
  have hgap : isGap x = true := by rw [isGap, hend, Bool.or_true]
  exact List.mem_flatMap.2 ⟨x, hx, by rw [escapedChar_of_isGap hgap]; exact List.mem_singleton_self x⟩

/-! ### Marks -/

/-- What is written after some characters is a space if what follows them is a gap. -/
theorem isSpaceOrEnd_escaped (t : List Char) :
    isSpaceOrEnd ((escaped t ++ '"' :: rest).headD endMark) = isGap (t.headD '"') := by
  cases t with
  | nil => rfl
  | cons x t =>
    rw [escaped_cons, List.headD_cons]
    obtain ⟨hself, -, -, hcode⟩ | ⟨tail, htail, -⟩ := escapedChar_cases x
    · rw [hself]
      cases hgap : isGap x with
      | true => exact isSpaceOrEnd_of_isGap hgap
      | false => exact isSpaceOrEnd_eq_false hcode hgap
    · have hgap : isGap x = false := Bool.eq_false_iff.2 fun hgap => by
        rw [escapedChar_of_isGap hgap] at htail
        obtain ⟨rfl, -⟩ := List.cons.inj htail
        cases hgap
      rw [htail, hgap]
      rfl

theorem take_escaped_iff {s : List Char} {m : Char} (hself : Json.escapedChar m = [m]) (hquote : m ≠ '"')
    (hslash : m ≠ '\\') : (escaped s ++ '"' :: rest).take 3 = [m, m, m] ↔ ∃ t, s = m :: m :: m :: t := by
  constructor
  · intro h
    have hfront := (List.take_append_drop 3 (escaped s ++ '"' :: rest)).symm
    rw [h] at hfront
    obtain ⟨s₁, rfl, h₁⟩ := of_escaped_eq_cons hfront hquote hslash
    obtain ⟨s₂, rfl, h₂⟩ := of_escaped_eq_cons h₁.symm hquote hslash
    obtain ⟨s₃, rfl, -⟩ := of_escaped_eq_cons h₂.symm hquote hslash
    exact ⟨s₃, rfl⟩
  · rintro ⟨t, rfl⟩
    simp [escaped_cons, hself]

theorem isDocumentMark_escaped {s : List Char} (h : c.rest = escaped s ++ '"' :: rest) :
    c.isDocumentMark = startsMark s := by
  have hword (m : Char) (hself : Json.escapedChar m = [m]) (hquote : m ≠ '"') (hslash : m ≠ '\\') :
      (c.rest.take 3 == [m, m, m]) = (s.take 3 == [m, m, m]) ∧
        (s.take 3 = [m, m, m] → isSpaceOrEnd (c.peek 3) = isGap ((s.drop 3).headD '"')) := by
    have hiff : (escaped s ++ '"' :: rest).take 3 = [m, m, m] ↔ ∃ t, s = m :: m :: m :: t :=
      take_escaped_iff hself hquote hslash
    have htake : s.take 3 = [m, m, m] ↔ ∃ t, s = m :: m :: m :: t := by
      constructor
      · intro hs
        exact ⟨s.drop 3, by simpa [hs] using (List.take_append_drop 3 s).symm⟩
      · rintro ⟨t, rfl⟩
        rfl
    refine ⟨?_, fun hs => ?_⟩
    · rw [Bool.eq_iff_iff, beq_iff_eq, beq_iff_eq, h, hiff, htake]
    · obtain ⟨t, rfl⟩ := htake.1 hs
      have hpeek : c.peek 3 = (escaped t ++ '"' :: rest).headD endMark := by
        rw [Cursor.peek, h]
        simp [escaped_cons, hself, List.headD_eq_head?_getD, List.head?_eq_getElem?]
      rw [hpeek, isSpaceOrEnd_escaped]
      rfl
  obtain ⟨hdash, hdashed⟩ := hword '-' rfl (by decide) (by decide)
  obtain ⟨hpoint, hpointed⟩ := hword '.' rfl (by decide) (by decide)
  rw [Cursor.isDocumentMark, startsMark, hdash, hpoint]
  by_cases hs : s.take 3 = ['-', '-', '-']
  · rw [hdashed hs]
  · by_cases hs' : s.take 3 = ['.', '.', '.']
    · rw [hpointed hs']
    · rw [beq_eq_false_iff_ne.2 hs, beq_eq_false_iff_ne.2 hs']
      rfl

/-! ### Gaps -/

/-- The elements at the front of a list with a property. -/
theorem exists_front {α : Type} (p : α → Bool) (s : List α) :
    ∃ front t, s = front ++ t ∧ (∀ x ∈ front, p x = true) ∧ ∀ x ∈ t.head?, p x = false := by
  refine ⟨s.takeWhile p, s.dropWhile p, List.takeWhile_append_dropWhile.symm, fun x hx => ?_, fun x hx => ?_⟩
  · exact List.all_eq_true.1 List.all_takeWhile x hx
  · have hnot := List.head?_dropWhile_not p s
    rw [hx] at hnot
    simpa using hnot

/-- The blanks at the front of a text. -/
theorem exists_blanks (s : List Char) : ∃ blanks t, s = blanks ++ t ∧ (∀ x ∈ blanks, x = ' ') ∧ t.head? ≠ some ' ' := by
  obtain ⟨blanks, t, hs, hblanks, ht⟩ := exists_front (· == ' ') s
  exact ⟨blanks, t, hs, fun x hx => by simpa using hblanks x hx, fun hhead => by simpa using ht ' ' hhead⟩

variable {gap t : List Char}

/-- A gap leaves off at the front of a line; it may have begun there. -/
def endsLine (gap : List Char) : Bool := gap.getLast?.all isLineEnd

theorem startsMark_of_isGap {x : Char} (hx : isGap x = true) (s : List Char) : startsMark (x :: s) = false := by
  obtain rfl | rfl | rfl | rfl := isGap_cases hx <;> simp [startsMark]

theorem lineEnds_blanks (h : ∀ x ∈ gap, x = ' ') : lineEnds gap = [] := by
  have hnone : gap.filter isLineEnd = [] := List.filter_eq_nil_iff.2 fun x hx => by rw [h x hx]; decide
  rw [lineEnds, hnone]
  rfl

theorem endsLine_blanks (hne : gap ≠ []) (h : ∀ x ∈ gap, x = ' ') : endsLine gap = false := by
  rw [endsLine, List.getLast?_eq_some_getLast hne, h _ (List.getLast_mem hne)]
  rfl

/-- A gap is empty, or blanks in one line, or goes on after a line end. -/
theorem gap_cases (h : ∀ x ∈ gap, isGap x = true) :
    (∀ x ∈ gap, x = ' ') ∨ ∃ blanks x further, gap = blanks ++ x :: further ∧ (∀ y ∈ blanks, y = ' ') ∧
      isLineEnd x = true ∧ (∀ y ∈ further, isGap y = true) ∧ lineEnds gap = lineEnd x :: lineEnds further ∧
      endsLine gap = endsLine further := by
  obtain ⟨blanks, further, rfl, hblanks, hhead⟩ := exists_blanks gap
  cases further with
  | nil => exact .inl fun x hx => hblanks x (by simpa using hx)
  | cons x further =>
    obtain ⟨hx, hfurther⟩ := List.forall_mem_cons.1 fun y hy => h y (List.mem_append_right _ hy)
    have hend : isLineEnd x = true := by
      have hne : x ≠ ' ' := by
        rintro rfl
        exact hhead rfl
      simpa [isGap, hne] using hx
    refine .inr ⟨blanks, x, further, rfl, hblanks, hend, hfurther, ?_, ?_⟩
    · have hfront := lineEnds_blanks hblanks
      unfold lineEnds at hfront ⊢
      rw [List.filter_append, List.map_append, hfront, List.filter_cons_of_pos hend]
      rfl
    · rw [endsLine, endsLine, List.getLast?_append, List.getLast?_cons]
      cases further.getLast? with
      | none => simpa using hend
      | some y => rfl

/-- What follows a gap in quotes is no blank and ends no line. -/
theorem exists_after_gap (rest : List Char) (ht : ∀ x ∈ t.head?, isGap x = false) :
    ∃ y ys, escaped t ++ '"' :: rest = y :: ys ∧ y ≠ ' ' ∧ y ≠ '\t' ∧ isBreak y = false := by
  cases t with
  | nil => exact ⟨'"', rest, rfl, by decide, by decide, by decide⟩
  | cons x t =>
    obtain ⟨hself, -, -, hcode⟩ | ⟨tail, htail, -⟩ := escapedChar_cases x
    · have hspace := isSpaceOrEnd_eq_false hcode (ht x rfl)
      simp only [isSpaceOrEnd, isBreakOrEnd, Bool.or_eq_false_iff, beq_eq_false_iff_ne] at hspace
      exact ⟨x, escaped t ++ '"' :: rest, by rw [escaped_cons, hself]; rfl, hspace.1.1, hspace.1.2, hspace.2.1⟩
    · exact ⟨'\\', tail ++ escaped t ++ '"' :: rest, by rw [escaped_cons, htail]; simp, by decide, by decide, by decide⟩

/-- Blanks are passed up to the end of a line, or to what follows a gap. -/
theorem takeWhile_blanks {blanks : List Char} {x : Char} (h : c.rest = blanks ++ x :: rest) (hblanks : ∀ y ∈ blanks, y = ' ')
    (hspace : x ≠ ' ') (htab : x ≠ '\t') :
    c.takeWhile (fun x => x == ' ' || x == '\t') = (blanks, c.skip blanks.length) :=
  Cursor.takeWhile_eq h (fun y hy => by simp [hblanks y hy]) (by simp [hspace, htab])

theorem ne_of_isLineEnd {x : Char} (h : isLineEnd x = true) : x ≠ ' ' ∧ x ≠ '\t' := by
  obtain rfl | rfl | rfl := isLineEnd_cases h <;> decide

/-- Blanks and line ends are passed after a line end, unless a mark stands at the front of the line where they leave
off. -/
theorem quotedBreaks_gap (hgap : ∀ x ∈ gap, isGap x = true) (ht : ∀ x ∈ t.head?, isGap x = false)
    (h : c.rest = gap ++ (escaped t ++ '"' :: rest)) {fuel : Nat} (hfuel : gap.length < fuel) : quotedBreaks fuel c =
      if endsLine gap && startsMark t then .error .malformed else .ok (lineEnds gap, c.skip gap.length) := by
  induction fuel generalizing gap c with
  | zero => omega
  | succ fuel ih =>
    have hwritten : c.rest = escaped (gap ++ t) ++ '"' :: rest := by
      rw [escaped_append, escaped_gap hgap, h, List.append_assoc]
    have hmark : c.isDocumentMark = startsMark (gap ++ t) := isDocumentMark_escaped hwritten
    obtain ⟨y, ys, hafter, hspace, htab, hbreak⟩ := exists_after_gap rest ht
    rw [hafter] at h
    obtain hblanks | ⟨blanks, x, further, rfl, hblanks, hx, hfurther, hends, hline⟩ := gap_cases hgap
    · have hrest : (c.skip gap.length).rest = y :: ys := by rw [Cursor.skip_rest, h, List.drop_left]
      have hnone : lineEnds gap = [] := lineEnds_blanks hblanks
      have hsame : startsMark (gap ++ t) = (endsLine gap && startsMark t) := by
        cases gap with
        | nil => rfl
        | cons z gap =>
          rw [List.cons_append, startsMark_of_isGap (hgap z (by simp)), endsLine_blanks (List.cons_ne_nil z gap) hblanks]
          rfl
      rw [quotedBreaks, hmark, hsame, Cursor.skipWhile, takeWhile_blanks h hblanks hspace htab, hnone]
      simp only [Cursor.lineBreak?_eq_none hrest hbreak]
    · have hnot : startsMark (blanks ++ x :: further ++ t) = false := by
        cases blanks with
        | nil => exact startsMark_of_isGap (hgap x (by simp)) _
        | cons z blanks => exact startsMark_of_isGap (hgap z (by simp)) _
      rw [List.append_assoc, List.cons_append] at h
      have hrest : (c.skip blanks.length).rest = x :: (further ++ y :: ys) := by rw [Cursor.skip_rest, h, List.drop_left]
      have hnext : (c.skip blanks.length).next.rest = further ++ (escaped t ++ '"' :: rest) := by
        rw [Cursor.next_rest, hrest, hafter]
        rfl
      have hplace : (c.skip blanks.length).next.skip further.length = c.skip (blanks ++ x :: further).length := by
        rw [List.length_append, List.length_cons, ← Cursor.skip_skip]
        rfl
      have hread := ih hfurther hnext (by rw [List.length_append, List.length_cons] at hfuel; omega)
      rw [quotedBreaks, hmark, hnot, Cursor.skipWhile,
        takeWhile_blanks h hblanks (ne_of_isLineEnd hx).1 (ne_of_isLineEnd hx).2]
      simp only [lineBreak?_of_isLineEnd hrest hx, hread, hends, hline, hplace]
      cases endsLine further && startsMark t <;> rfl

/-- A gap is read as one. -/
theorem quotedSpaces_gap (hgap : ∀ x ∈ gap, isGap x = true) (hne : gap ≠ []) (ht : ∀ x ∈ t.head?, isGap x = false)
    (h : c.rest = gap ++ (escaped t ++ '"' :: rest)) : quotedSpaces c =
      if endsLine gap && startsMark t then .error .malformed else .ok (foldedGap gap, c.skip gap.length) := by
  obtain ⟨y, ys, hafter, hspace, htab, hbreak⟩ := exists_after_gap rest ht
  rw [hafter] at h
  obtain hblanks | ⟨blanks, x, further, rfl, hblanks, hx, hfurther, hends, hline⟩ := gap_cases hgap
  · have hrest : (c.skip gap.length).rest = y :: ys := by rw [Cursor.skip_rest, h, List.drop_left]
    rw [quotedSpaces, takeWhile_blanks h hblanks hspace htab, endsLine_blanks hne hblanks, foldedGap,
      lineEnds_blanks hblanks]
    simp only [hrest, Cursor.lineBreak?_eq_none hrest hbreak]
    rfl
  · rw [List.append_assoc, List.cons_append] at h
    have hrest : (c.skip blanks.length).rest = x :: (further ++ y :: ys) := by rw [Cursor.skip_rest, h, List.drop_left]
    have hnext : (c.skip blanks.length).next.rest = further ++ (escaped t ++ '"' :: rest) := by
      rw [Cursor.next_rest, hrest, hafter]
      rfl
    have hplace : (c.skip blanks.length).next.skip further.length = c.skip (blanks ++ x :: further).length := by
      rw [List.length_append, List.length_cons, ← Cursor.skip_skip]
      rfl
    have hless : further.length < (c.skip blanks.length).next.rest.length + 1 := by
      rw [hnext, List.length_append]
      omega
    have hread := quotedBreaks_gap hfurther ht hnext hless
    have hsome : (c.skip blanks.length).rest.isEmpty = false := by rw [hrest]; rfl
    rw [quotedSpaces, takeWhile_blanks h hblanks (ne_of_isLineEnd hx).1 (ne_of_isLineEnd hx).2, foldedGap, hends, hline]
    simp only [hsome, lineBreak?_of_isLineEnd hrest hx, hread, hplace]
    cases endsLine further && startsMark t <;> rfl

/-! ### Texts -/

theorem folded_cons {x : Char} (hx : isGap x = false) (s : List Char) : folded (x :: s) = x :: folded s := by
  rw [folded, foldedAfter, hx]
  rfl

theorem foldedAfter_append (hgap : ∀ x ∈ gap, isGap x = true) (before : List Char) :
    foldedAfter before (gap ++ t) = foldedAfter (gap.reverse ++ before) t := by
  induction gap generalizing before with
  | nil => rfl
  | cons x gap ih =>
    obtain ⟨hx, hgap⟩ := List.forall_mem_cons.1 hgap
    rw [List.cons_append, foldedAfter, if_pos hx, ih hgap]
    simp

theorem folded_gap_append (hgap : ∀ x ∈ gap, isGap x = true) (ht : ∀ x ∈ t.head?, isGap x = false) :
    folded (gap ++ t) = foldedGap gap ++ folded t := by
  rw [folded, foldedAfter_append hgap, List.append_nil]
  cases t with
  | nil => simp [folded, foldedAfter, foldedGap, lineEnds]
  | cons x t =>
    rw [foldedAfter, folded_cons (ht x rfl), if_neg (by simp [ht x rfl]), List.reverse_reverse]
    rfl

theorem hasMark_cons {x : Char} (hx : isGap x = false) (s : List Char) : hasMark (x :: s) = hasMark s := by
  rw [isGap, Bool.or_eq_false_iff] at hx
  rw [hasMark, hx.2, Bool.false_and, Bool.false_or]

theorem hasMark_gap_append (hgap : ∀ x ∈ gap, isGap x = true) (hne : gap ≠ []) :
    hasMark (gap ++ t) = (endsLine gap && startsMark t || hasMark t) := by
  induction gap with
  | nil => exact absurd rfl hne
  | cons x gap ih =>
    rw [List.cons_append, hasMark]
    cases gap with
    | nil => rfl
    | cons y gap =>
      obtain ⟨-, hgap⟩ := List.forall_mem_cons.1 hgap
      have hlast : endsLine (x :: y :: gap) = endsLine (y :: gap) := by simp [endsLine, List.getLast?_cons_cons]
      rw [List.cons_append, startsMark_of_isGap (hgap y (by simp)), Bool.and_false, Bool.false_or, ← List.cons_append,
        ih hgap (List.cons_ne_nil y gap), hlast]

theorem quotedBody_of_isGap {x : Char} (h : c.rest = x :: rest) (hx : isGap x = true) (fuel : Nat) (acc : List (List Char)) :
    quotedBody (fuel + 1) true acc c = (quotedSpaces c).bind fun (chunk, c) => quotedBody fuel true (chunk :: acc) c := by
  have hspace := isSpaceOrEnd_of_isGap hx
  have hchar : x ≠ '"' ∧ x ≠ '\\' := by obtain rfl | rfl | rfl | rfl := isGap_cases hx <;> decide
  rw [quotedBody, h]
  simp only [if_true, hspace, beq_eq_false_iff_ne.2 hchar.1, beq_eq_false_iff_ne.2 hchar.2]
  rfl

/-- A text in quotes is read up to its closing quote, with its gaps folded, unless it has a mark at the front of a line.
The induction is on the length of the text, since a gap is read in one step. -/
theorem quotedBody_escaped {s : List Char} (h : c.rest = escaped s ++ '"' :: rest) {fuel : Nat} (hfuel : s.length < fuel)
    (acc : List (List Char)) : quotedBody fuel true acc c =
      if hasMark s then .error .malformed
      else .ok (String.ofList (acc.reverse.flatten ++ folded s), c.skip ((escaped s).length + 1)) := by
  induction hn : s.length using Nat.strongRecOn generalizing s c fuel acc with
  | ind n ih =>
    obtain ⟨fuel, rfl⟩ := Nat.exists_eq_add_one_of_ne_zero (Nat.ne_zero_of_lt hfuel)
    cases s with
    | nil =>
      have hrest : c.rest = '"' :: rest := h
      rw [quotedBody, hrest]
      simp [escaped, Cursor.skip, hasMark, folded, foldedAfter, foldedGap, lineEnds]
    | cons x s =>
      rw [List.length_cons] at hn hfuel
      cases hgap : isGap x with
      | true =>
        -- the whole gap is read at once
        obtain ⟨gap, t, heq, hrun, ht⟩ := exists_front isGap s
        have hwhole : ∀ y ∈ x :: gap, isGap y = true := List.forall_mem_cons.2 ⟨hgap, hrun⟩
        have hwritten : escaped (x :: s) = x :: gap ++ escaped t := by
          rw [heq, ← List.cons_append, escaped_append, escaped_gap hwhole]
        have hsize : gap.length + t.length = s.length := by rw [heq, List.length_append]
        rw [hwritten, List.append_assoc] at h
        have hread := quotedSpaces_gap hwhole (List.cons_ne_nil x gap) ht h
        have hless : t.length < fuel := by omega
        have hnext := ih t.length (by omega) (c := c.skip (x :: gap).length) (by rw [Cursor.skip_rest, h, List.drop_left])
          hless (foldedGap (x :: gap) :: acc) rfl
        have hplace : (c.skip (x :: gap).length).skip ((escaped t).length + 1) =
            c.skip ((escaped (x :: s)).length + 1) := by
          rw [hwritten, Cursor.skip_skip, List.length_append, Nat.add_assoc]
        rw [heq, ← List.cons_append, hasMark_gap_append hwhole (List.cons_ne_nil x gap), folded_gap_append hwhole ht,
          List.cons_append, ← heq, ← hplace, quotedBody_of_isGap h hgap, hread]
        cases endsLine (x :: gap) && startsMark t with
        | true => rfl
        | false =>
          simp only [Bool.false_or, Bool.false_eq_true, if_false, Except.bind, hnext]
          simp
      | false =>
        have hless : s.length < fuel := by omega
        obtain ⟨hself, hquote, hslash, hcode⟩ | ⟨tail, htail, hescapes⟩ := escapedChar_cases x
        · have hrest : c.rest = x :: (escaped s ++ '"' :: rest) := by rw [h, escaped_cons, hself]; rfl
          have hplain := isSpaceOrEnd_eq_false hcode hgap
          have hnext := ih s.length (by omega) (c := c.next) (by rw [Cursor.next_rest, hrest]; rfl) hless
            ([x] :: acc) rfl
          rw [quotedBody, hrest]
          simp [hquote, hslash, hplain, hnext, escaped_cons, hself, Cursor.skip, folded_cons hgap, hasMark_cons hgap]
        · have hrest : c.rest = '\\' :: (tail ++ (escaped s ++ '"' :: rest)) := by rw [h, escaped_cons, htail]; simp
          have hread := hescapes.2 c.next _ (by rw [Cursor.next_rest, hrest]; rfl)
          have hnext := ih s.length (by omega) (c := c.next.skip tail.length)
            (by rw [Cursor.skip_rest, Cursor.next_rest, hrest]; simp) hless ([x] :: acc) rfl
          have hplace : (c.next.skip tail.length).skip ((escaped s).length + 1) =
              c.skip ((escaped (x :: s)).length + 1) := by
            have hsize : (escaped (x :: s)).length = tail.length + ((escaped s).length + 1) := by
              rw [escaped_cons, htail, List.length_append, List.length_cons]
              omega
            rw [hsize, Cursor.skip_skip]
            rfl
          rw [quotedBody, hrest]
          simp [hread, bind, Except.bind, hnext, hplace, folded_cons hgap, hasMark_cons hgap]

theorem length_le_escaped (s : List Char) : s.length ≤ (escaped s).length := by
  induction s with
  | nil => exact Nat.le_refl 0
  | cons x s ih =>
    have hx : 0 < (Json.escapedChar x).length := by
      obtain ⟨hself, -⟩ | ⟨tail, htail, -⟩ := escapedChar_cases x
      · simp [hself]
      · simp [htail]
    rw [escaped_cons, List.length_append, List.length_cons]
    omega

theorem toList_string (s : String) : (Json.string s).toList = '"' :: (escaped s.toList ++ ['"']) := by
  simp [Json.string, escaped]

/-- The text that is read for a text in quotes. -/
def foldedText (s : String) : String := String.ofList (folded s.toList)

theorem foldedGap_eq_nil_iff {gap : List Char} : foldedGap gap = [] ↔ gap = [] := by
  unfold foldedGap
  split
  · exact Iff.rfl
  · next first further hends =>
    have hne : gap ≠ [] := by
      rintro rfl
      cases hends
    refine iff_of_false ?_ hne
    rw [foldBreaks]
    cases further <;> split <;> simp

theorem foldedAfter_eq_nil_iff {gap s : List Char} : foldedAfter gap s = [] ↔ gap = [] ∧ s = [] := by
  induction s generalizing gap with
  | nil => simp [foldedAfter, foldedGap_eq_nil_iff]
  | cons x s ih =>
    rw [foldedAfter]
    split <;> simp [ih]

/-- Folding leaves something of every text but the empty one. -/
@[simp] theorem foldedText_eq_empty_iff {s : String} : foldedText s = "" ↔ s = "" := by
  rw [← String.toList_eq_nil_iff, ← String.toList_eq_nil_iff, foldedText, String.toList_ofList, folded,
    foldedAfter_eq_nil_iff]
  exact and_iff_right rfl

theorem foldedAfter_of_line {gap s : List Char} (hgap : gap.any isLineEnd = false) (hs : s.any isLineEnd = false) :
    foldedAfter gap s = gap.reverse ++ s := by
  have hends (gap : List Char) (hgap : gap.any isLineEnd = false) : foldedGap gap.reverse = gap.reverse := by
    have hnone : gap.reverse.filter isLineEnd = [] := by simpa using hgap
    rw [foldedGap, lineEnds, hnone]
    rfl
  induction s generalizing gap with
  | nil => rw [foldedAfter, hends gap hgap, List.append_nil]
  | cons x s ih =>
    rw [List.any_cons, Bool.or_eq_false_iff] at hs
    rw [foldedAfter]
    split
    · rw [ih (by simp [hs.1, hgap]) hs.2, List.reverse_cons, List.append_assoc]
      rfl
    · rw [hends gap hgap, ih rfl hs.2]
      rfl

/-- A text of one line stays as it is. -/
theorem foldedText_of_line {s : String} (hs : s.toList.any isLineEnd = false) : foldedText s = s := by
  rw [foldedText, folded, foldedAfter_of_line rfl hs, List.reverse_nil, List.nil_append, String.ofList_toList]

/-- A text in quotes is read with its gaps folded, or not at all. -/
theorem quotedScalar_string {s : String} (h : c.rest = (Json.string s).toList ++ rest) : quotedScalar c =
    if hasMark s.toList then .error .malformed else .ok (foldedText s, c.skip (Json.string s).toList.length) := by
  rw [toList_string] at h ⊢
  have hlength : s.toList.length < c.rest.length + 1 := by
    have hle := length_le_escaped s.toList
    rw [h, List.length_append, List.length_cons, List.length_append]
    omega
  have hnext : c.next.rest = escaped s.toList ++ '"' :: rest := by
    rw [Cursor.next_rest, h]
    simp
  have hbody := quotedBody_escaped hnext hlength []
  have hhead : (c.head == '"') = true := by rw [Cursor.head, h]; rfl
  rw [quotedScalar, hhead, hbody]
  simp [Cursor.skip, foldedText]

/-- A text without line ends is written in one line. -/
theorem isBreak_string {s : String} (hs : s.toList.any isLineEnd = false) : ∀ x ∈ (Json.string s).toList, isBreak x = false := by
  intro x hx
  simp only [toList_string, List.mem_cons, List.mem_append, List.not_mem_nil, or_false] at hx
  obtain rfl | hx | rfl := hx
  · rfl
  · refine Bool.eq_false_iff.2 fun hbreak => ?_
    obtain ⟨hmem, hend⟩ := mem_of_isBreak hx hbreak
    exact List.any_eq_false.1 hs x hmem hend
  · rfl

theorem exists_isBreak_string {s : String} (hs : s.toList.any isLineEnd = true) :
    ∃ x ∈ (Json.string s).toList, isBreak x = true ∧ x ≠ '\r' := by
  obtain ⟨x, hx, hend⟩ := List.any_eq_true.1 hs
  refine ⟨x, ?_, isBreak_of_isLineEnd hend, ?_⟩
  · rw [toList_string]
    exact List.mem_cons_of_mem _ (List.mem_append_left _ (mem_escaped_of_isLineEnd hx hend))
  · obtain rfl | rfl | rfl := isLineEnd_cases hend <;> decide

end Flowline.Yaml
