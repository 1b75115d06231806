import Flowline.Value.Number

/-! # How numerals are written

A spelling is a numeral in its parts: a sign, digits before the point, the point with the digits after it,
an exponent. `Numeral.whole?` reads a spelling as the number that it spells (`whole?_chars`), and what it
reads is a spelling between blanks (`exists_spelling`). -/

namespace Flowline

open Text

/-- The text of a sign; a sign may be missing. -/
def IsSign (cs : List Char) : Prop := cs = [] ∨ cs = ['+'] ∨ cs = ['-']

def IsDigits (cs : List Char) : Prop := ∀ c ∈ cs, isDecimal c = true

theorem isSign_nil : IsSign [] := .inl rfl

theorem isDigits_nil : IsDigits [] := nofun

/-- The values of digits. -/
def digitValues (cs : List Char) : List Nat := cs.filterMap decimalValue?

/-- An exponent in its parts. -/
structure ExponentSpelling where
  letter : Char
  sign : List Char
  digits : List Char
  letter_eq : letter = 'e' ∨ letter = 'E'
  isSign : IsSign sign
  isDigits : IsDigits digits
  ne_nil : digits ≠ []

/-- A numeral in its parts. There is a digit before or after the point. -/
structure Spelling where
  sign : List Char
  whole : List Char
  fraction? : Option (List Char)
  exponent? : Option ExponentSpelling
  isSign : IsSign sign
  isDigits_whole : IsDigits whole
  isDigits_fraction : IsDigits (fraction?.getD [])
  ne_nil : whole ≠ [] ∨ fraction?.getD [] ≠ []

namespace ExponentSpelling

def chars (x : ExponentSpelling) : List Char := x.letter :: (x.sign ++ x.digits)

def value (x : ExponentSpelling) : Int :=
  let n : Int := Numeral.ofDigits (digitValues x.digits)
  if x.sign = ['-'] then -n else n

end ExponentSpelling

namespace Spelling

/-- The point and the digits after it. -/
def point (sp : Spelling) : List Char := (sp.fraction?.map ('.' :: ·)).getD []

def exponent (sp : Spelling) : List Char := (sp.exponent?.map ExponentSpelling.chars).getD []

def chars (sp : Spelling) : List Char := sp.sign ++ (sp.whole ++ (sp.point ++ sp.exponent))

/-- The numeral that is spelled. -/
def numeral (sp : Spelling) : Numeral where
  negative := sp.sign = ['-']
  digits := Numeral.ofDigits (digitValues (sp.whole ++ sp.fraction?.getD []))
  exponent := -((sp.fraction?.getD []).length : Int) + (sp.exponent?.map ExponentSpelling.value).getD 0
  plain := sp.fraction?.isNone && sp.exponent?.isNone
  size := sp.whole.length
  legible := true

def unsigned (sp : Spelling) : Spelling := { sp with sign := [], isSign := .inl rfl }

end Spelling

/-! ## Parts of a numeral -/

/-- No digit stands at the front. -/
def NoDigitAhead (cs : List Char) : Prop := ∀ c ∈ cs.head?, isDecimal c = false

theorem noDigitAhead_nil : NoDigitAhead [] := nofun

variable {cs rest ds : List Char} {c : Char}

theorem decimalValue?_eq_none_iff : decimalValue? c = none ↔ isDecimal c = false := by
  simp [isDecimal]

theorem Numeral.spanDigits_append (hds : IsDigits ds) (hrest : NoDigitAhead rest) :
    Numeral.spanDigits (ds ++ rest) = (digitValues ds, rest) := by
  induction ds with
  | nil =>
    cases rest with
    | nil => rfl
    | cons c rest =>
      have hc : decimalValue? c = none := decimalValue?_eq_none_iff.2 (hrest c rfl)
      simp [Numeral.spanDigits, hc, digitValues]
  | cons d ds ih =>
    obtain ⟨hd, hds⟩ := List.forall_mem_cons.1 hds
    obtain ⟨n, hn⟩ := Option.isSome_iff_exists.1 hd
    simp [Numeral.spanDigits, hn, ih hds, digitValues]

theorem length_digitValues (hds : IsDigits ds) : (digitValues ds).length = ds.length := by
  induction ds with
  | nil => rfl
  | cons d ds ih =>
    obtain ⟨hd, hds⟩ := List.forall_mem_cons.1 hds
    obtain ⟨n, hn⟩ := Option.isSome_iff_exists.1 hd
    simpa [digitValues, hn] using ih hds

theorem digitValues_isEmpty (hds : IsDigits ds) : (digitValues ds).isEmpty = ds.isEmpty := by
  rw [Bool.eq_iff_iff, List.isEmpty_iff_length_eq_zero, List.isEmpty_iff_length_eq_zero, length_digitValues hds]

/-- The digits at the front of a text. -/
theorem exists_digits (cs : List Char) : ∃ ds rest, cs = ds ++ rest ∧ IsDigits ds ∧ NoDigitAhead rest := by
  refine ⟨cs.takeWhile isDecimal, cs.dropWhile isDecimal, List.takeWhile_append_dropWhile.symm, ?_, ?_⟩
  · exact fun c hc => List.all_eq_true.1 List.all_takeWhile c hc
  · intro c hc
    have hhead := List.head?_dropWhile_not isDecimal cs
    rw [Option.mem_def.1 hc] at hhead
    simpa using hhead

/-- No sign stands at the front. -/
def NoSignAhead (cs : List Char) : Prop := ∀ c ∈ cs.head?, c ≠ '+' ∧ c ≠ '-'

theorem Numeral.spanSign_append {sign : List Char} (hsign : IsSign sign) (hrest : NoSignAhead rest) :
    Numeral.spanSign (sign ++ rest) = (decide (sign = ['-']), rest) := by
  rcases hsign with rfl | rfl | rfl
  · cases rest with
    | nil => rfl
    | cons c rest =>
      have hc := hrest c rfl
      unfold Numeral.spanSign
      split <;> simp_all
  · rfl
  · rfl

theorem exists_sign (cs : List Char) : ∃ sign rest, cs = sign ++ rest ∧ IsSign sign ∧
    Numeral.spanSign cs = (decide (sign = ['-']), rest) := by
  fun_cases Numeral.spanSign cs with
  | case1 rest => exact ⟨['-'], rest, rfl, .inr (.inr rfl), rfl⟩
  | case2 rest => exact ⟨['+'], rest, rfl, .inr (.inl rfl), rfl⟩
  | case3 => exact ⟨[], cs, rfl, .inl rfl, rfl⟩

theorem IsDigits.noSignAhead (hds : IsDigits ds) (hne : ds ≠ []) : NoSignAhead (ds ++ rest) := by
  cases ds with
  | nil => contradiction
  | cons d ds =>
    rintro _ ⟨⟩
    have hd := hds d (by simp)
    constructor <;> rintro rfl <;> cases hd

theorem Numeral.exponent?_chars (x : ExponentSpelling) (hrest : NoDigitAhead rest) :
    Numeral.exponent? (x.chars ++ rest) = some (x.value, rest) := by
  have hletter : (x.letter == 'e' || x.letter == 'E') = true := by simpa using x.letter_eq
  have hsign : Numeral.spanSign (x.sign ++ (x.digits ++ rest)) = (decide (x.sign = ['-']), x.digits ++ rest) :=
    Numeral.spanSign_append x.isSign (x.isDigits.noSignAhead x.ne_nil)
  have hne : digitValues x.digits ≠ [] := by
    rw [ne_eq, ← List.length_eq_zero_iff, length_digitValues x.isDigits, List.length_eq_zero_iff]
    exact x.ne_nil
  simp only [ExponentSpelling.chars, List.cons_append, List.append_assoc, Numeral.exponent?, hletter, if_true,
    hsign, Numeral.spanDigits_append x.isDigits hrest]
  obtain ⟨n, ns, hns⟩ := List.exists_cons_of_ne_nil hne
  simp [ExponentSpelling.value, hns]

/-- An exponent that is read is spelled out. -/
theorem exists_exponentSpelling {e : Int} (h : Numeral.exponent? cs = some (e, rest)) :
    ∃ x : ExponentSpelling, cs = x.chars ++ rest ∧ e = x.value ∧ NoDigitAhead rest := by
  unfold Numeral.exponent? at h
  split at h
  · next c cs =>
    split at h
    · next hletter =>
      obtain ⟨sign, afterSign, rfl, hsign, hspan⟩ := exists_sign cs
      obtain ⟨ds, tail, rfl, hds, htail⟩ := exists_digits afterSign
      rw [hspan] at h
      simp only [Numeral.spanDigits_append hds htail] at h
      split at h
      · cases h
      · next hne heq =>
        obtain ⟨rfl, rfl⟩ := Prod.mk.inj heq
        obtain ⟨rfl, rfl⟩ := Prod.mk.inj (Option.some.inj h)
        refine ⟨⟨c, sign, ds, by simpa using hletter, hsign, hds, ?_⟩, by simp [ExponentSpelling.chars], ?_, htail⟩
        · rintro rfl
          exact hne rfl
        · simp [ExponentSpelling.value]
    · cases h
  · cases h

/-! ## Numerals -/

/-- A numeral with the exponent at the front of a text, if one stands there, and the rest. -/
def Numeral.withExponent (n : Numeral) (cs : List Char) : Numeral × List Char :=
  match Numeral.exponent? cs with
  | some (e, rest) => ({ n with exponent := n.exponent + e, plain := false }, rest)
  | none => (n, cs)

section Unblanked

variable {negative : Bool} {whole fraction : List Char}

theorem digitValues_append (a b : List Char) : digitValues (a ++ b) = digitValues a ++ digitValues b :=
  List.filterMap_append

theorem Numeral.unblanked?_of_point (hsign : Numeral.spanSign cs = (negative, whole ++ '.' :: (fraction ++ rest)))
    (hwhole : IsDigits whole) (hfraction : IsDigits fraction) (hrest : NoDigitAhead rest)
    (hne : whole ≠ [] ∨ fraction ≠ []) :
    Numeral.unblanked? cs = some (Numeral.withExponent ⟨negative, Numeral.ofDigits (digitValues (whole ++ fraction)),
      -(fraction.length : Int), false, whole.length, true⟩ rest) := by
  have hpoint : NoDigitAhead ('.' :: (fraction ++ rest)) := by
    rintro _ ⟨⟩
    decide
  have hsome : ((digitValues whole).isEmpty && (digitValues fraction).isEmpty) = false := by
    rw [digitValues_isEmpty hwhole, digitValues_isEmpty hfraction]
    simpa [← Decidable.not_and_iff_not_or_not] using hne
  simp only [Numeral.unblanked?, hsign, Numeral.spanDigits_append hwhole hpoint,
    Numeral.spanDigits_append hfraction hrest, hsome, Bool.false_eq_true, if_false, digitValues_append,
    length_digitValues hwhole, length_digitValues hfraction, Numeral.withExponent]
  cases Numeral.exponent? rest <;> rfl

theorem Numeral.unblanked?_of_no_point (hsign : Numeral.spanSign cs = (negative, whole ++ rest))
    (hwhole : IsDigits whole) (hrest : NoDigitAhead rest) (hpoint : rest.head? ≠ some '.') (hne : whole ≠ []) :
    Numeral.unblanked? cs = some (Numeral.withExponent ⟨negative, Numeral.ofDigits (digitValues whole),
      0, true, whole.length, true⟩ rest) := by
  have hsome : (digitValues whole).isEmpty = false := by
    rw [digitValues_isEmpty hwhole]
    simpa using hne
  simp only [Numeral.unblanked?, hsign, Numeral.spanDigits_append hwhole hrest]
  split
  · exact absurd rfl hpoint
  · simp only [hsome, Bool.false_and, Bool.false_eq_true, if_false, List.append_nil, length_digitValues hwhole,
      Numeral.withExponent]
    cases Numeral.exponent? rest <;> simp

end Unblanked

/-- No numeral goes on. -/
def EndsNumeral (cs : List Char) : Prop :=
  NoDigitAhead cs ∧ cs.head? ≠ some '.' ∧ Numeral.exponent? cs = none

theorem ExponentSpelling.noDigitAhead (x : ExponentSpelling) : NoDigitAhead (x.chars ++ rest) := by
  rintro _ ⟨⟩
  rcases x.letter_eq with h | h <;> rw [h] <;> decide

theorem Spelling.withExponent_exponent (sp : Spelling) (n : Numeral) (hrest : EndsNumeral rest) :
    n.withExponent (sp.exponent ++ rest) =
      ((sp.exponent?.map fun x => { n with exponent := n.exponent + x.value, plain := false }).getD n, rest) := by
  unfold Spelling.exponent Numeral.withExponent
  cases sp.exponent? with
  | none => simp [hrest.2.2]
  | some x => simp [Numeral.exponent?_chars x hrest.1]

theorem Spelling.noDigitAhead_exponent (sp : Spelling) (hrest : NoDigitAhead rest) :
    NoDigitAhead (sp.exponent ++ rest) := by
  unfold Spelling.exponent
  cases sp.exponent? with
  | none => exact hrest
  | some x => exact x.noDigitAhead

theorem Spelling.noDigitAhead_point (sp : Spelling) (hrest : NoDigitAhead rest) :
    NoDigitAhead (sp.point ++ (sp.exponent ++ rest)) := by
  unfold Spelling.point
  cases sp.fraction? with
  | none => exact sp.noDigitAhead_exponent hrest
  | some f =>
    rintro _ ⟨⟩
    decide

theorem Spelling.head?_exponent_ne (sp : Spelling) (hrest : rest.head? ≠ some '.') :
    (sp.exponent ++ rest).head? ≠ some '.' := by
  unfold Spelling.exponent
  cases sp.exponent? with
  | none => exact hrest
  | some x =>
    change some x.letter ≠ some '.'
    rcases x.letter_eq with h | h <;> rw [h] <;> decide

theorem Spelling.exists_fraction {sp : Spelling} (hwhole : sp.whole = []) : ∃ fraction, sp.fraction? = some fraction := by
  have hne := sp.ne_nil.resolve_left (not_not_intro hwhole)
  cases hfraction : sp.fraction? with
  | none =>
    rw [hfraction] at hne
    exact absurd rfl hne
  | some fraction => exact ⟨fraction, rfl⟩

theorem Spelling.noSignAhead (sp : Spelling) : NoSignAhead (sp.whole ++ (sp.point ++ rest)) := by
  by_cases hwhole : sp.whole = []
  · obtain ⟨f, hf⟩ := exists_fraction hwhole
    simp only [hwhole, Spelling.point, hf]
    rintro _ ⟨⟩
    decide
  · exact sp.isDigits_whole.noSignAhead hwhole

/-- A numeral is read to its end. -/
theorem Spelling.unblanked?_chars (sp : Spelling) (hrest : EndsNumeral rest) :
    Numeral.unblanked? (sp.chars ++ rest) = some (sp.numeral, rest) := by
  have htail := sp.noDigitAhead_exponent hrest.1
  have hsign : Numeral.spanSign (sp.chars ++ rest) =
      (decide (sp.sign = ['-']), sp.whole ++ (sp.point ++ (sp.exponent ++ rest))) := by
    rw [← Numeral.spanSign_append sp.isSign sp.noSignAhead]
    simp only [Spelling.chars, List.append_assoc]
  have hne := sp.ne_nil
  have hfraction := sp.isDigits_fraction
  unfold Spelling.point at hsign
  unfold Spelling.numeral
  cases hf : sp.fraction? with
  | none =>
    have hpoint := sp.head?_exponent_ne hrest.2.1
    have hwhole : sp.whole ≠ [] := by simpa [hf] using hne
    simp only [hf, Option.map_none, Option.getD_none, List.nil_append] at hsign
    rw [Numeral.unblanked?_of_no_point hsign sp.isDigits_whole htail hpoint hwhole, sp.withExponent_exponent _ hrest]
    cases sp.exponent? <;> simp
  | some f =>
    rw [hf] at hne hfraction
    simp only [hf, Option.map_some, Option.getD_some, List.cons_append] at hsign
    rw [Numeral.unblanked?_of_point hsign sp.isDigits_whole hfraction htail hne, sp.withExponent_exponent _ hrest]
    cases sp.exponent? <;> simp

/-- An exponent that is taken along is spelled out. -/
theorem exists_exponent (n : Numeral) (cs : List Char) : ∃ (x? : Option ExponentSpelling) (rest : List Char),
    cs = (x?.map ExponentSpelling.chars).getD [] ++ rest ∧
      n.withExponent cs = ((x?.map fun x => { n with exponent := n.exponent + x.value, plain := false }).getD n, rest) := by
  unfold Numeral.withExponent
  split
  · next e rest hexponent =>
    obtain ⟨x, rfl, rfl, -⟩ := exists_exponentSpelling hexponent
    exact ⟨some x, rest, rfl, rfl⟩
  · exact ⟨none, cs, rfl, rfl⟩

/-- What is read as a numeral is the spelling of one. -/
theorem exists_spelling_of_unblanked? {n : Numeral} (h : Numeral.unblanked? cs = some (n, rest)) :
    ∃ sp : Spelling, cs = sp.chars ++ rest ∧ n = sp.numeral := by
  obtain ⟨sign, afterSign, rfl, hsign, hspan⟩ := exists_sign cs
  obtain ⟨whole, afterWhole, rfl, hwhole, hafter⟩ := exists_digits afterSign
  by_cases hpoint : afterWhole.head? = some '.'
  · obtain ⟨afterPoint, rfl⟩ := List.head?_eq_some_iff.1 hpoint
    obtain ⟨fraction, tail, rfl, hfraction, htail⟩ := exists_digits afterPoint
    by_cases hne : whole ≠ [] ∨ fraction ≠ []
    · rw [Numeral.unblanked?_of_point hspan hwhole hfraction htail hne] at h
      obtain ⟨x?, left, rfl, hwith⟩ := exists_exponent _ tail
      rw [hwith] at h
      obtain ⟨rfl, rfl⟩ := Prod.mk.inj (Option.some.inj h)
      refine ⟨⟨sign, whole, some fraction, x?, hsign, hwhole, hfraction, hne⟩, ?_, ?_⟩
      · simp [Spelling.chars, Spelling.point, Spelling.exponent]
      · cases x? <;> simp [Spelling.numeral]
    · obtain ⟨rfl, rfl⟩ : whole = [] ∧ fraction = [] := by simpa using hne
      have hdigits : Numeral.spanDigits tail = ([], tail) := Numeral.spanDigits_append isDigits_nil htail
      have hpointDigits : Numeral.spanDigits ('.' :: tail) = ([], '.' :: tail) := rfl
      simp only [List.nil_append] at hspan h
      simp [Numeral.unblanked?, hspan, hpointDigits, hdigits] at h
  · by_cases hne : whole ≠ []
    · rw [Numeral.unblanked?_of_no_point hspan hwhole hafter hpoint hne] at h
      obtain ⟨x?, left, rfl, hwith⟩ := exists_exponent _ afterWhole
      rw [hwith] at h
      obtain ⟨rfl, rfl⟩ := Prod.mk.inj (Option.some.inj h)
      refine ⟨⟨sign, whole, none, x?, hsign, hwhole, nofun, .inl hne⟩, ?_, ?_⟩
      · simp [Spelling.chars, Spelling.point, Spelling.exponent]
      · cases x? <;> simp [Spelling.numeral]
    · obtain rfl : whole = [] := by simpa using hne
      have hdigits : Numeral.spanDigits afterWhole = ([], afterWhole) :=
        Numeral.spanDigits_append isDigits_nil hafter
      simp only [List.nil_append] at hspan h
      simp only [Numeral.unblanked?, hspan, hdigits] at h
      split at h
      · exact absurd rfl hpoint
      · cases h

/-! ## Blanks -/

/-- The code points of blanks. -/
def blankCodes : List Nat :=
  [9, 10, 11, 12, 13, 28, 29, 30, 31, 32, 133, 160, 5760, 8192, 8193, 8194, 8195, 8196, 8197, 8198, 8199, 8200,
    8201, 8202, 8232, 8233, 8239, 8287, 12288]

theorem toNat_mem_blankCodes (h : isBlank c = true) : c.toNat ∈ blankCodes := by
  simp only [isBlank, Bool.or_eq_true, Bool.and_eq_true, decide_eq_true_eq, beq_iff_eq] at h
  simp only [blankCodes, List.mem_cons, List.not_mem_nil, or_false]
  omega

/-- A numeral holds no blank. -/
theorem not_isBlank_of_isDecimal (h : isDecimal c = true) : isBlank c = false := by
  have hall : ∀ n ∈ blankCodes, isDecimal (Char.ofNat n) = false := by decide +kernel
  refine Bool.eq_false_iff.2 fun hblank => ?_
  have hc := hall c.toNat (toNat_mem_blankCodes hblank)
  rw [Char.ofNat_toNat, h] at hc
  cases hc

theorem IsSign.not_isBlank {sign : List Char} (hsign : IsSign sign) (hc : c ∈ sign) : isBlank c = false := by
  rcases hsign with rfl | rfl | rfl
  · cases hc
  · obtain rfl := List.mem_singleton.1 hc
    rfl
  · obtain rfl := List.mem_singleton.1 hc
    rfl

theorem ExponentSpelling.not_isBlank (x : ExponentSpelling) (hc : c ∈ x.chars) : isBlank c = false := by
  rcases List.mem_cons.1 hc with rfl | hc
  · rcases x.letter_eq with h | h <;> rw [h] <;> rfl
  · rcases List.mem_append.1 hc with hc | hc
    · exact x.isSign.not_isBlank hc
    · exact not_isBlank_of_isDecimal (x.isDigits c hc)

theorem Spelling.not_isBlank (sp : Spelling) (hc : c ∈ sp.chars) : isBlank c = false := by
  have hfraction := sp.isDigits_fraction
  simp only [Spelling.chars, Spelling.point, Spelling.exponent, List.mem_append] at hc
  rcases hc with hc | hc | hc | hc
  · exact sp.isSign.not_isBlank hc
  · exact not_isBlank_of_isDecimal (sp.isDigits_whole c hc)
  · cases hf : sp.fraction? with
    | none => rw [hf] at hc; cases hc
    | some f =>
      rw [hf] at hc hfraction
      rcases List.mem_cons.1 hc with rfl | hc
      · rfl
      · exact not_isBlank_of_isDecimal (hfraction c hc)
  · cases hx : sp.exponent? with
    | none => rw [hx] at hc; cases hc
    | some x => rw [hx] at hc; exact x.not_isBlank hc

theorem Spelling.chars_ne_nil (sp : Spelling) : sp.chars ≠ [] := by
  intro hnil
  have hne := sp.ne_nil
  simp only [Spelling.chars, Spelling.point, List.append_eq_nil_iff] at hnil
  cases hf : sp.fraction? <;> simp_all

/-! ## Texts that are numerals -/

theorem endsNumeral_nil : EndsNumeral [] := ⟨nofun, by simp, rfl⟩

theorem dropWhile_isBlank (hcs : ∀ c ∈ cs, isBlank c = false) (hne : cs ≠ []) :
    (cs ++ rest).dropWhile isBlank = cs ++ rest := by
  obtain ⟨c, cs, rfl⟩ := List.exists_cons_of_ne_nil hne
  simp [hcs c (by simp)]

theorem trimList_append {blanks : List Char} (hblanks : ∀ c ∈ blanks, isBlank c = true)
    (hcs : ∀ c ∈ cs, isBlank c = false) (hne : cs ≠ []) (hrest : ∀ c ∈ rest, isBlank c = true) :
    trimList (blanks ++ (cs ++ rest)) = cs := by
  have hreverse : ∀ c ∈ cs.reverse, isBlank c = false := fun c hc => hcs c (List.mem_reverse.1 hc)
  have hend : (cs.reverse ++ []).dropWhile isBlank = cs.reverse ++ [] :=
    dropWhile_isBlank hreverse (by simpa using hne)
  rw [trimList, List.dropWhile_append_of_pos hblanks, dropWhile_isBlank hcs hne, List.reverse_append,
    List.dropWhile_append_of_pos fun c hc => hrest c (List.mem_reverse.1 hc), ← List.append_nil cs.reverse, hend,
    List.append_nil, List.reverse_reverse]

/-- A spelling is read as its numeral. -/
theorem Spelling.whole?_chars (sp : Spelling) : Numeral.whole? (String.ofList sp.chars) = some sp.numeral := by
  have hblank := fun c hc => sp.not_isBlank (c := c) hc
  have hdrop : (sp.chars ++ []).dropWhile isBlank = sp.chars ++ [] := dropWhile_isBlank hblank sp.chars_ne_nil
  have htake : sp.chars.takeWhile isBlank = [] := by
    obtain ⟨c, cs, hcs⟩ := List.exists_cons_of_ne_nil sp.chars_ne_nil
    rw [hcs] at hblank ⊢
    simp [hblank c (by simp)]
  have hread := sp.unblanked?_chars endsNumeral_nil
  rw [List.append_nil] at hread hdrop
  simp only [Numeral.whole?, String.toList_ofList, hdrop, htake, hread]
  rfl

/-- A text that is a numeral is a spelling of it between blanks. -/
theorem exists_spelling {s : String} {n : Numeral} (h : Numeral.whole? s = some n) :
    ∃ sp : Spelling, trim s = String.ofList sp.chars ∧ { n with legible := true } = sp.numeral := by
  unfold Numeral.whole? at h
  dsimp only at h
  split at h
  · next n rest hread =>
    split at h
    · next hrest =>
      cases h
      obtain ⟨sp, hcs, rfl⟩ := exists_spelling_of_unblanked? hread
      refine ⟨sp, ?_, ?_⟩
      · rw [trim, ← List.takeWhile_append_dropWhile (p := isBlank) (l := s.toList), hcs, trimList_append]
        · exact fun c hc => List.all_eq_true.1 List.all_takeWhile c hc
        · exact fun c hc => sp.not_isBlank hc
        · exact sp.chars_ne_nil
        · exact List.all_eq_true.1 hrest
      · rfl
    · cases h
  · cases h

end Flowline
